import Elyra.Ladder.CallBooks
import Elyra.Memory.Windows

namespace Elyra.Ladder

open Json Memory

section Bucket

variable {now : Instant} {st : LadderState}

/-- The calls counted for the hour of `now`. -/
def hourCount (now : Instant) (st : LadderState) : Int := (currentBucket now st.llmCallsHour).count

theorem hour_currentBucket (now : Instant) (b : LlmBucket) :
    (currentBucket now b).hour = some (hourKey now) := by
  unfold currentBucket
  split_ifs with h
  · exact h
  · rfl

theorem currentBucket_idem (now : Instant) (b : LlmBucket) :
    currentBucket now (currentBucket now b) = currentBucket now b :=
  if_pos (hour_currentBucket now b)

theorem hourCount_recordLlmCalls {n : Int} (hn : 0 < n) :
    hourCount now (recordLlmCalls n now st) = hourCount now st + n := by
  rw [recordLlmCalls, if_neg (Int.not_le.mpr hn), hourCount, hourCount]
  dsimp only
  have hhour : ({ currentBucket now st.llmCallsHour with
      count := (currentBucket now st.llmCallsHour).count + n } : LlmBucket).hour =
        some (hourKey now) := hour_currentBucket now st.llmCallsHour
  rw [currentBucket, if_pos hhour]

end Bucket

section Balance

variable {α β : Type} {now : Instant} {e : LadderEnv}

/-- The calls counted for the hour, less the calls made. -/
def balance (now : Instant) (e : LadderEnv) : Int := hourCount now e.state - e.llmCalls

/-- A computation counts the calls it makes. -/
def Balanced (now : Instant) (m : LadderPy α) (e : LadderEnv) : Prop :=
  balance now (after (m e)) = balance now e

theorem balanced_of_books {m : LadderPy α} (hstate : hourCount now (after (m e)).state =
    hourCount now e.state) (hcalls : (after (m e)).llmCalls = e.llmCalls) : Balanced now m e := by
  rw [Balanced, balance, balance, hstate, hcalls]

theorem balanced_pure (a : α) : Balanced now (pure a) e := rfl

theorem balanced_bind {m : LadderPy α} {f : α → LadderPy β} (hm : Balanced now m e)
    (hf : ∀ a t, m e = .ok a t → Balanced now (f a) t) : Balanced now (m >>= f) e := by
  rw [Balanced] at hm
  rw [Balanced, run_bind]
  cases hrun : m e with
  | error err t =>
    rw [hrun] at hm
    exact hm
  | ok a t =>
    rw [hrun] at hm
    exact (hf a t hrun).trans hm

theorem balanced_ofExcept (r : Except PyErr α) : Balanced now (ofExcept r) e := by
  cases r <;> rfl

theorem balanced_ask (answers : Nat → α) : Balanced now (ask answers) e := rfl

theorem balanced_modifyState {f : LadderState → LadderState}
    (hf : ∀ st, hourCount now (f st) = hourCount now st) : Balanced now (modifyState f) e :=
  balanced_of_books (hf e.state) rfl

end Balance

section Debit

variable [PyCoerce] {now : Instant} {e : LadderEnv} {a : Atom} {remaining : Int}

/-- The debit of an atom that asks for nothing. -/
theorem balanced_count (usedLlm : Bool)
    (h : usedLlm = true → ∀ n, spentCalls a = .ok n → n ≤ 0) :
    Balanced now (countLlmUsageFromAtom a remaining true now usedLlm) e := by
  rw [countLlmUsageFromAtom]
  cases usedLlm with
  | false => exact balanced_pure remaining
  | true =>
    rw [if_pos rfl]
    cases hspent : spentCalls a with
    | error err => rfl
    | ok spent =>
      have hnone : spent ≤ 0 := h rfl spent hspent
      have hrun : (do
          let spent ← ofExcept (Except.ok spent)
          if spent ≤ 0 then return remaining
          else do
            if true then modifyState (recordLlmCalls spent now)
            return max 0 (remaining - spent) : LadderPy Int) e = .ok remaining e := by
        rw [run_ofExcept_bind]
        dsimp only
        rw [if_pos hnone]
        rfl
      exact congrArg (fun r => balance now (after r)) hrun

/-- The debit of an atom that asks for its calls. -/
theorem balance_count {n : Nat} (hasks : Asks a n) (hn : 0 < n) :
    ∃ left t, countLlmUsageFromAtom a remaining true now true e = .ok left t ∧
      balance now t = balance now e + n := by
  have hpos : 0 < (n : Int) := by omega
  refine ⟨max 0 (remaining - n), { e with state := recordLlmCalls n now e.state }, ?_, ?_⟩
  · rw [countLlmUsageFromAtom, if_pos rfl, run_ofExcept_bind, hasks]
    dsimp only
    rw [if_neg (Int.not_le.mpr hpos)]
    rfl
  · rw [balance, balance]
    dsimp only
    rw [hourCount_recordLlmCalls hpos]
    omega

end Debit

section Level

variable [PyCoerce] [LadderDigest] {out : Outside} {settings : LadderSettings} {now : Instant}
  {e : LadderEnv}

omit [PyCoerce] [LadderDigest] in
theorem SameBooks.balance {e' : LadderEnv} (h : SameBooks e e') :
    balance now e' = balance now e := by
  rw [Ladder.balance, Ladder.balance, h.1, h.2]

theorem Written.balance {scale : PeriodScale} {t : Instant} {p : Atom} {n : Nat} {e' : LadderEnv}
    (h : Written scale t e p n e') : balance now e' + n = balance now e := by
  rw [Ladder.balance, Ladder.balance, h.state, h.calls]
  omega

omit [PyCoerce] [LadderDigest] in
theorem hourCount_recordWriteSource (a : Atom) (st : LadderState) :
    hourCount now (recordWriteSource a st) = hourCount now st := rfl

omit [LadderDigest] in
/-- A tip that a refresh returned as it found it is not taken for a write. -/
theorem refreshWrote_self (a : Atom) : refreshWrote (some a) a ≠ .ok true := by
  rw [refreshWrote]
  split_ifs with h
  · simp at h
  · cases hv : a.version with
    | error err =>
      intro hne
      cases hne
    | ok v =>
      show Except.ok (decide (v ≠ v)) ≠ .ok true
      simp

/-- The refresh of a parent in a cascade. -/
def levelRefresh (settings : LadderSettings) (args : CascadeArgs) (c : CascadeState) :
    RefreshArgs :=
  let useLlm := c.llm && settings.modeLlm && decide (0 < c.callsLeft)
  { preferChildren := true, skipEmpty := settings.ladderSkipEmpty, useLlm
    maxPasses := if useLlm then min 2 c.callsLeft else 1, force := args.force }

omit [PyCoerce] [LadderDigest] in
theorem levelRefresh_mode (args : CascadeArgs) (c : CascadeState)
    (h : (levelRefresh settings args c).useLlm = true) : settings.modeLlm = true := by
  have hand : (c.llm && settings.modeLlm && decide (0 < c.callsLeft)) = true := h
  simp only [Bool.and_eq_true] at hand
  exact hand.1.2

omit [LadderDigest] in
/-- The books of an unchanged tip, or of a template. -/
theorem balanced_settleLevel (args : CascadeArgs) (htracked : args.tracked = true)
    (p : PeriodScale) (wStart : Instant) (usedLlm : Bool) (before after : Option Atom)
    (c : CascadeState)
    (h : ∀ a, after = some a → usedLlm = true → refreshWrote before a ≠ .ok true) :
    Balanced now (settleLevel args now p wStart usedLlm before after c) e := by
  cases after with
  | none => exact balanced_pure c
  | some a =>
    unfold settleLevel
    dsimp only
    rw [Balanced, run_ofExcept_bind]
    cases hwrote : refreshWrote before a with
    | error err => rfl
    | ok wrote =>
      cases wrote with
      | false => rfl
      | true =>
        dsimp only
        rw [if_pos rfl, htracked, if_pos rfl]
        apply balanced_bind (balanced_modifyState (hourCount_recordWriteSource a))
        intro _ t _
        apply balanced_bind
        · apply balanced_count
          intro hused
          exact absurd hwrote (h a rfl hused)
        · exact fun left t _ => balanced_pure _

omit [LadderDigest] in
/-- The books of a write. -/
theorem balance_settleLevel (args : CascadeArgs) (htracked : args.tracked = true)
    (p : PeriodScale) (wStart : Instant) (before : Option Atom) (a : Atom) (c : CascadeState)
    {n : Nat} (hasks : Asks a n) (hn : 0 < n) (hwrote : refreshWrote before a = .ok true) :
    balance now (after (settleLevel args now p wStart true before (some a) c e)) =
      balance now e + n := by
  obtain ⟨left, t, hrun, hbalance⟩ := @balance_count _ now
    { e with state := recordWriteSource a e.state } a c.callsLeft n hasks hn
  unfold settleLevel
  dsimp only
  rw [run_ofExcept_bind, hwrote]
  dsimp only
  rw [if_pos rfl, htracked, if_pos rfl, run_bind, modifyState]
  dsimp only
  rw [run_bind, hrun]
  exact hbalance

/-- A level's refresh with its books. -/
def refreshLevel (out : Outside) (settings : LadderSettings) (args : CascadeArgs) (now : Instant)
    (p : PeriodScale) (wStart : Instant) (before : Option Atom) (c : CascadeState) :
    LadderPy CascadeState := do
  match ← attempt (refreshWindow out settings (levelRefresh settings args c) p wStart) with
  | .error _ => return { c with failed := c.failed ++ [p] }
  | .ok after =>
    let settled ← settleLevel args now p wStart (levelRefresh settings args c).useLlm before after c
    return settled.turnOff settings

theorem balanced_refreshLevel (args : CascadeArgs) (htracked : args.tracked = true)
    (p : PeriodScale) (hp : usesVersionedIds p = true) (c : CascadeState) {wStart wEnd : Instant}
    (hstart : windowBounds p wStart = .ok (wStart, wEnd)) {before : Option Atom}
    (hbefore : resolveTip e.store p wStart wEnd = .ok before)
    (hpays : RefreshPays out settings (levelRefresh settings args c) p wStart e) :
    Balanced now (refreshLevel out settings args now p wStart before c) e := by
  have hbooked := refreshWindow_booked (levelRefresh_mode args c) hpays
  rw [Balanced, refreshLevel, run_bind, attempt]
  generalize refreshWindow out settings (levelRefresh settings args c) p wStart e = r
    at hbooked ⊢
  cases hbooked with
  | raised err e' hsame => exact hsame.balance
  | nothing e' hsame => exact hsame.balance
  | unasked a e' hsame hllm =>
    have hidle : Balanced now (settleLevel args now p wStart (levelRefresh settings args c).useLlm
        before (some a) c) e' := by
      apply balanced_settleLevel args htracked
      intro _ _ hused
      rw [hllm] at hused
      cases hused
    exact (balanced_bind hidle fun settled t _ => balanced_pure _).trans hsame.balance
  | current a e' hsame wStart' wEnd' hbounds htip _ =>
    have hidle : Balanced now (settleLevel args now p wStart (levelRefresh settings args c).useLlm
        before (some a) c) e' := by
      apply balanced_settleLevel args htracked
      intro b hb _
      obtain ⟨rfl, rfl⟩ := Prod.mk.inj (Except.ok.inj (hstart.symm.trans hbounds))
      obtain rfl := Except.ok.inj (hbefore.symm.trans htip)
      obtain rfl := Option.some.inj hb
      exact refreshWrote_self a
    exact (balanced_bind hidle fun settled t _ => balanced_pure _).trans hsame.balance
  | written a n e' hllm hwritten =>
    have hfound : FoundBefore p wStart wEnd e.store before := by
      rw [FoundBefore, if_pos hp]
      exact hbefore
    have hsettled : balance now (after (settleLevel args now p wStart
        (levelRefresh settings args c).useLlm before (some a) c e')) = balance now e := by
      rw [hllm, balance_settleLevel args htracked p wStart before a c hwritten.asks hwritten.made
        (hwritten.wrote wStart wEnd before hstart hfound)]
      exact hwritten.balance
    dsimp only
    rw [run_bind]
    cases hrun : settleLevel args now p wStart (levelRefresh settings args c).useLlm before
        (some a) c e' with
    | error err t =>
      rw [hrun] at hsettled
      exact hsettled
    | ok settled t =>
      rw [hrun] at hsettled
      exact hsettled

theorem balanced_cascadeLevel (args : CascadeArgs) (htracked : args.tracked = true)
    (p : PeriodScale) (hp : usesVersionedIds p = true) (c : CascadeState)
    (hpays : ∀ wStart wEnd, windowBounds p args.hourStart = .ok (wStart, wEnd) →
      RefreshPays out settings (levelRefresh settings args c) p wStart e) :
    Balanced now (cascadeLevel out settings args now p c) e := by
  rw [Balanced, cascadeLevel, run_ofExcept_bind]
  cases hbounds : windowBounds p args.hourStart with
  | error err => rfl
  | ok bounds =>
    obtain ⟨wStart, wEnd⟩ := bounds
    dsimp only
    rw [run_readStore_bind]
    cases collectWindowSources e.store p wStart wEnd true with
    | error err => rfl
    | ok collected =>
      dsimp only
      by_cases hempty : (settings.ladderSkipEmpty && decide (collected.1 = [])) = true
      · rw [if_pos hempty]
        rfl
      · rw [if_neg hempty, run_readStore_bind]
        cases hbefore : resolveTip e.store p wStart wEnd with
        | error err => rfl
        | ok before =>
          exact balanced_refreshLevel args htracked p hp c (windowBounds_start hbounds) hbefore
            (hpays wStart wEnd hbounds)

end Level

section Cascade

variable [PyCoerce] [LadderDigest] (out : Outside) (settings : LadderSettings)

/-- Every refresh of the cascade pays. -/
def CascadePays (args : CascadeArgs) (now : Instant) (start budget : Int) :
    List PeriodScale → CascadeState → LadderEnv → Prop
  | [], _, _ => True
  | p :: rest, c, e =>
    out.clock e.asked - start < budget →
      scaleAllowedForInstanceAge settings out.createdAt now (countTipSummaries e.store) p = true →
        (∀ wStart wEnd, windowBounds p args.hourStart = .ok (wStart, wEnd) →
          RefreshPays out settings (levelRefresh settings args c) p wStart
            { e with asked := e.asked + 1 }) ∧
        ∀ next t, cascadeLevel out settings args now p c { e with asked := e.asked + 1 } =
          .ok next t → CascadePays args now start budget rest next t

variable {out} {settings}

theorem balanced_cascadeLoop (args : CascadeArgs) (htracked : args.tracked = true) (now : Instant)
    (start budget : Int) (scales : List PeriodScale)
    (hscales : ∀ p ∈ scales, usesVersionedIds p = true) (c : CascadeState) (e : LadderEnv)
    (hpays : CascadePays out settings args now start budget scales c e) :
    Balanced now (cascadeLoop out settings args now start budget scales c) e := by
  induction scales generalizing c e with
  | nil => exact balanced_pure _
  | cons p rest ih =>
    rw [Balanced, cascadeLoop, run_ask_bind]
    by_cases hspent : budget ≤ out.clock e.asked - start
    · rw [if_pos hspent]
      rfl
    · rw [if_neg hspent, run_readStore_bind]
      dsimp only
      by_cases hallowed : scaleAllowedForInstanceAge settings out.createdAt now
          (countTipSummaries e.store) p = true
      · obtain ⟨hlevel, hrest⟩ := hpays (by omega) hallowed
        have hp : usesVersionedIds p = true := hscales p List.mem_cons_self
        rw [if_pos hallowed]
        apply balanced_bind (balanced_cascadeLevel args htracked p hp c hlevel)
        intro next t hrun
        exact ih (fun q hq => hscales q (List.mem_cons_of_mem p hq)) next t (hrest next t hrun)
      · rw [if_neg hallowed]
        rfl

variable (out) (settings)

def HourCascadePays (limits : HoursLimits) (wStart : Instant) (c : HoursState) (e : LadderEnv) :
    Prop :=
  CascadePays out settings (hourCascade limits wStart c) limits.now limits.t0 limits.budget
    PeriodScale.coarser
    { callsLeft := c.remaining, llm := limits.llm && decide (0 < c.remaining) } e

variable {out} {settings}

theorem balanced_cascadeHour (limits : HoursLimits) (wStart : Instant) (c : HoursState)
    (e : LadderEnv) (hpays : HourCascadePays out settings limits wStart c e) :
    Balanced limits.now (cascadeHour out settings limits wStart c) e := by
  have hscales : ∀ p ∈ PeriodScale.coarser, usesVersionedIds p = true := by
    intro p hp
    exact decide_eq_true hp
  have hcascade : Balanced limits.now
      (cascadeFromHour out settings (hourCascade limits wStart c)) e := by
    have hloop := balanced_cascadeLoop (hourCascade limits wStart c) rfl limits.now limits.t0
      limits.budget PeriodScale.coarser hscales _ e hpays
    have htail : Balanced limits.now (cascadeLoop out settings (hourCascade limits wStart c)
        limits.now limits.t0 limits.budget PeriodScale.coarser
        { callsLeft := c.remaining, llm := limits.llm && decide (0 < c.remaining) } >>= fun r =>
          ask out.clock >>= fun _ => pure (⟨r.1.refreshed, r.1.callsLeft, r.2, r.1.failed⟩ :
            CascadeReport)) e := by
      apply balanced_bind hloop
      intro r t _
      exact balanced_bind (balanced_ask out.clock) (fun _ u _ => balanced_pure _)
    exact htail
  rw [cascadeHour]
  apply balanced_bind hcascade
  intro report t _
  dsimp only
  split_ifs
  · exact balanced_bind (balanced_modifyState fun _ => rfl) (fun _ u _ => balanced_pure _)
  · exact balanced_pure _

end Cascade

section Hours

variable [PyCoerce] [LadderDigest] {out : Outside} {settings : LadderSettings}

omit [PyCoerce] [LadderDigest] in
theorem hourRefresh_mode (llm : Bool) (remaining : Int)
    (h : (hourRefresh settings llm remaining).useLlm = true) : settings.modeLlm = true := by
  have hand : (llm && settings.modeLlm && decide (0 < remaining)) = true := h
  simp only [Bool.and_eq_true] at hand
  exact hand.1.2

omit [LadderDigest] in
theorem balanced_bookHour (limits : HoursLimits) (wStart : Instant) (usedLlm : Bool)
    (existing : Option Atom) (c : HoursState) (a : Atom) (e : LadderEnv)
    (h : usedLlm = true → ∀ n, spentCalls a = .ok n → n ≤ 0) :
    Balanced limits.now (bookHour limits wStart usedLlm existing c a) e := by
  have hrest (t : LadderEnv) : Balanced limits.now (do
      let left ← countLlmUsageFromAtom a c.remaining true limits.now usedLlm
      modifyState fun st => { st with lastClosed1hProcessed := some (isoZ wStart) }
      return ({ c with processed := c.processed ++ [isoZ wStart], remaining := left }, true) :
        LadderPy (HoursState × Bool)) t := by
    apply balanced_bind (balanced_count usedLlm h)
    intro left u _
    exact balanced_bind (balanced_modifyState fun _ => rfl) (fun _ v _ => balanced_pure _)
  rw [bookHour]
  apply balanced_bind (balanced_ofExcept _)
  intro wrote t _
  cases wrote with
  | true =>
    exact balanced_bind (balanced_modifyState (hourCount_recordWriteSource a)) fun _ u _ => hrest u
  | false => exact hrest t

omit [LadderDigest] in
theorem balance_bookHour (limits : HoursLimits) (wStart : Instant) (existing : Option Atom)
    (c : HoursState) (a : Atom) (e : LadderEnv) {n : Nat} (hasks : Asks a n) (hn : 0 < n)
    (hwrote : refreshWrote existing a = .ok true) :
    balance limits.now (after (bookHour limits wStart true existing c a e)) =
      balance limits.now e + n := by
  obtain ⟨left, t, hrun, hbalance⟩ := @balance_count _ limits.now
    { e with state := recordWriteSource a e.state } a c.remaining n hasks hn
  rw [bookHour, run_ofExcept_bind, hwrote]
  dsimp only
  rw [if_pos rfl, run_bind, modifyState]
  dsimp only
  rw [run_bind, hrun]
  exact hbalance

/-- The books of an hour after a refresh of any kind. -/
def settleHour (settings : LadderSettings) (limits : HoursLimits) (wStart : Instant)
    (noSources : Bool) (existing : Option Atom) (c : HoursState) (useLlm : Bool)
    (refresh : LadderPy (Option Atom)) : LadderPy (HoursState × Bool) := do
  match ← attempt refresh with
  | .error _ => return (c.keepDirty (isoZ wStart), false)
  | .ok none =>
    if settings.ladderSkipEmpty && noSources then return (c.resolve (isoZ wStart), false)
    else return (c.keepDirty (isoZ wStart), false)
  | .ok (some a) => bookHour limits wStart useLlm existing c a

theorem refreshHour_settles (limits : HoursLimits) (wStart : Instant) (noSources : Bool)
    (existing : Option Atom) (c : HoursState) :
    refreshHour out settings limits wStart noSources existing c =
      settleHour settings limits wStart noSources existing c
        (hourRefresh settings limits.llm c.remaining).useLlm
        (refreshWindow out settings (hourRefresh settings limits.llm c.remaining) .h1 wStart) := rfl

theorem balanced_settleHour (limits : HoursLimits) {args : RefreshArgs} {scale : PeriodScale}
    (hscale : usesVersionedIds scale = false) {wStart wEnd : Instant}
    (hstart : windowBounds scale wStart = .ok (wStart, wEnd)) (noSources : Bool) (c : HoursState)
    (e : LadderEnv) (refresh : LadderPy (Option Atom))
    (hbooked : Booked args scale wStart e (refresh e)) :
    Balanced limits.now (settleHour settings limits wStart noSources
      (e.store.getAtom (stableSummaryId scale wStart)) c args.useLlm refresh) e := by
  rw [Balanced, settleHour, run_bind, attempt]
  generalize refresh e = r at hbooked ⊢
  cases hbooked with
  | raised err e' hsame => exact hsame.balance
  | nothing e' hsame =>
    dsimp only
    split_ifs
    · exact hsame.balance
    · exact hsame.balance
  | unasked a e' hsame hllm =>
    have hidle := balanced_bookHour limits wStart args.useLlm
      (e.store.getAtom (stableSummaryId scale wStart)) c a e' (by
        intro hused
        rw [hllm] at hused
        cases hused)
    exact hidle.trans hsame.balance
  | current a e' hsame _ _ _ _ hpays =>
    have hasks : ∀ n, spentCalls a = .ok n → n ≤ 0 := by
      apply hpays.resolve_left
      rw [hscale]
      decide
    have hidle := balanced_bookHour limits wStart args.useLlm
      (e.store.getAtom (stableSummaryId scale wStart)) c a e' (fun _ => hasks)
    exact hidle.trans hsame.balance
  | written a n e' hllm hwritten =>
    have hfound : FoundBefore scale wStart wEnd e.store
        (e.store.getAtom (stableSummaryId scale wStart)) := by
      rw [FoundBefore, if_neg (by rw [hscale]; decide)]
    have hbooks : balance limits.now (after (bookHour limits wStart args.useLlm
        (e.store.getAtom (stableSummaryId scale wStart)) c a e')) = balance limits.now e := by
      rw [hllm, balance_bookHour limits wStart _ c a e' hwritten.asks hwritten.made
        (hwritten.wrote wStart wEnd _ hstart hfound)]
      exact hwritten.balance
    exact hbooks

theorem balanced_refreshHour (limits : HoursLimits) {wStart wEnd : Instant}
    (hstart : windowBounds .h1 wStart = .ok (wStart, wEnd)) (noSources : Bool) (c : HoursState)
    (e : LadderEnv)
    (hpays : RefreshPays out settings (hourRefresh settings limits.llm c.remaining) .h1 wStart e) :
    Balanced limits.now (refreshHour out settings limits wStart noSources
      (e.store.getAtom (stableSummaryId .h1 wStart)) c) e := by
  have hbooked := refreshWindow_booked (hourRefresh_mode limits.llm c.remaining) hpays
  rw [refreshHour_settles]
  exact balanced_settleHour limits rfl hstart noSources c e _ hbooked

omit [PyCoerce] in
theorem planHour_existing {wStart wEnd : Instant} {c : HoursState} {s : JsonlMemoryStore}
    {noSources : Bool} {existing : Option Atom}
    (h : planHour settings wStart wEnd c s = .ok (.refresh noSources existing)) :
    existing = s.getAtom (stableSummaryId .h1 wStart) := by
  obtain ⟨collected, -, h⟩ := except_bind_ok h
  dsimp only at h
  split_ifs at h
  · exact nomatch Except.ok.inj h
  · exact nomatch Except.ok.inj h
  · exact (HourPlan.refresh.inj (Except.ok.inj h)).2.symm
  · exact nomatch Except.ok.inj h
  · exact nomatch Except.ok.inj h

variable (out) (settings)

/-- What an hour of the loop meets: a refresh that pays, and a cascade that does. -/
def HourPays (limits : HoursLimits) (wStart wEnd : Instant) (c : HoursState) (e : LadderEnv) :
    Prop :=
  (planHour settings wStart wEnd c e.store = .ok .cascade →
    HourCascadePays out settings limits wStart c e) ∧
  ∀ noSources existing, planHour settings wStart wEnd c e.store = .ok (.refresh noSources existing) →
    RefreshPays out settings (hourRefresh settings limits.llm c.remaining) .h1 wStart e ∧
    ∀ after t, refreshHour out settings limits wStart noSources existing c e = .ok (after, true) t →
      HourCascadePays out settings limits wStart after t

/-- Every hour that the loop reaches and closes pays. -/
def HoursPay (limits : HoursLimits) : List Instant → HoursState → LadderEnv → Prop
  | [], _, _ => True
  | hour :: rest, c, e =>
    (out.clock e.asked - limits.t0 < limits.budget → ∀ wStart wEnd,
      windowBounds .h1 hour = .ok (wStart, wEnd) → wEnd ≤ limits.now →
        HourPays out settings limits wStart wEnd (c.examine wStart)
          { e with asked := e.asked + 1 }) ∧
    ∀ next t, closeHour out settings limits hour c e = .ok (next, false) t →
      HoursPay limits rest next t

/-- Every hour that a call reaches and closes pays. -/
def ProcessPays (args : HoursArgs) (e : LadderEnv) : Prop :=
  ∀ limits current hours start t, openHours out settings args e = .ok (limits, current, hours, start) t →
    HoursPay out settings limits hours start t

variable {out} {settings}

/-- The plan of an hour carried out. -/
def carryOut (out : Outside) (settings : LadderSettings) (limits : HoursLimits) (wStart : Instant)
    (c : HoursState) : HourPlan → LadderPy (HoursState × Bool)
  | .leave left => return (left, false)
  | .cascade => cascadeHour out settings limits wStart c
  | .refresh noSources existing => do
    let (after, did1h) ← refreshHour out settings limits wStart noSources existing c
    if did1h then cascadeHour out settings limits wStart after else return (after, false)

/-- An hour of the loop over any bounds and plans. -/
def closeWindow (out : Outside) (limits : HoursLimits) (hourStart : Instant) (c : HoursState)
    (bounds : Except PyErr (Instant × Instant))
    (planned : Instant → Instant → HoursState → JsonlMemoryStore → Except PyErr HourPlan)
    (act : Instant → HoursState → HourPlan → LadderPy (HoursState × Bool)) :
    LadderPy (HoursState × Bool) := do
  let clock ← ask out.clock
  if limits.budget ≤ clock - limits.t0 then return (c.cutShort hourStart, true)
  else
    let (wStart, wEnd) ← ofExcept bounds
    if limits.now < wEnd then return (c, false)
    else
      let c := c.examine wStart
      act wStart c (← readStore (planned wStart wEnd c))

theorem closeHour_closes (limits : HoursLimits) (hour : Instant) (c : HoursState) :
    closeHour out settings limits hour c =
      closeWindow out limits hour c (windowBounds .h1 hour) (planHour settings)
        (carryOut out settings limits) := rfl

theorem balanced_carryOut (limits : HoursLimits) {wStart wEnd : Instant}
    (hstart : windowBounds .h1 wStart = .ok (wStart, wEnd)) (c : HoursState) (e : LadderEnv)
    (hpays : HourPays out settings limits wStart wEnd c e) (plan : HourPlan)
    (hplan : planHour settings wStart wEnd c e.store = .ok plan) :
    Balanced limits.now (carryOut out settings limits wStart c plan) e := by
  cases plan with
  | leave left => exact balanced_pure _
  | cascade => exact balanced_cascadeHour limits wStart c e (hpays.1 hplan)
  | refresh noSources existing =>
    obtain ⟨hrefresh, hcascade⟩ := hpays.2 noSources existing hplan
    have hexisting := planHour_existing hplan
    subst hexisting
    apply balanced_bind (balanced_refreshHour limits hstart noSources c e hrefresh)
    intro settled t hrun
    obtain ⟨after, did1h⟩ := settled
    cases did1h with
    | true => exact balanced_cascadeHour limits wStart after t (hcascade after t hrun)
    | false => exact balanced_pure _

omit [PyCoerce] [LadderDigest] in
theorem balanced_closeWindow (limits : HoursLimits) (hour : Instant) (c : HoursState)
    (e : LadderEnv) (bounds : Except PyErr (Instant × Instant))
    (planned : Instant → Instant → HoursState → JsonlMemoryStore → Except PyErr HourPlan)
    (act : Instant → HoursState → HourPlan → LadderPy (HoursState × Bool))
    (hact : out.clock e.asked - limits.t0 < limits.budget → ∀ wStart wEnd,
      bounds = .ok (wStart, wEnd) → wEnd ≤ limits.now → ∀ plan,
        planned wStart wEnd (c.examine wStart) e.store = .ok plan →
          Balanced limits.now (act wStart (c.examine wStart) plan)
            { e with asked := e.asked + 1 }) :
    Balanced limits.now (closeWindow out limits hour c bounds planned act) e := by
  rw [Balanced, closeWindow, run_ask_bind]
  by_cases hspent : limits.budget ≤ out.clock e.asked - limits.t0
  · rw [if_pos hspent]
    rfl
  · rw [if_neg hspent, run_ofExcept_bind]
    cases hbounds : bounds with
    | error err => rfl
    | ok bounds =>
      obtain ⟨wStart, wEnd⟩ := bounds
      dsimp only
      by_cases hopen : limits.now < wEnd
      · rw [if_pos hopen]
        rfl
      · rw [if_neg hopen, run_readStore_bind]
        dsimp only
        cases hplan : planned wStart wEnd (c.examine wStart) e.store with
        | error err => rfl
        | ok plan => exact hact (by omega) wStart wEnd hbounds (not_lt.mp hopen) plan hplan

theorem balanced_closeHour (limits : HoursLimits) (hour : Instant) (c : HoursState)
    (e : LadderEnv)
    (hpays : out.clock e.asked - limits.t0 < limits.budget → ∀ wStart wEnd,
      windowBounds .h1 hour = .ok (wStart, wEnd) → wEnd ≤ limits.now →
        HourPays out settings limits wStart wEnd (c.examine wStart)
          { e with asked := e.asked + 1 }) :
    Balanced limits.now (closeHour out settings limits hour c) e := by
  rw [closeHour_closes]
  apply balanced_closeWindow
  intro hroom wStart wEnd hbounds hclosed plan hplan
  exact balanced_carryOut limits (windowBounds_start hbounds) (c.examine wStart) _
    (hpays hroom wStart wEnd hbounds hclosed) plan hplan

theorem balanced_hoursLoop (limits : HoursLimits) (hours : List Instant) (c : HoursState)
    (e : LadderEnv) (hpays : HoursPay out settings limits hours c e) :
    Balanced limits.now (hoursLoop out settings limits hours c) e := by
  induction hours generalizing c e with
  | nil => exact balanced_pure c
  | cons hour rest ih =>
    rw [hoursLoop]
    apply balanced_bind (balanced_closeHour limits hour c e hpays.1)
    intro settled t hrun
    obtain ⟨next, stop⟩ := settled
    cases stop with
    | true => exact balanced_pure next
    | false => exact ih next t (hpays.2 next t hrun)

/-- What a call reads once it has the time. -/
def openHoursAt (out : Outside) (settings : LadderSettings) (args : HoursArgs) (now : Instant) :
    LadderPy (HoursLimits × Instant × List Instant × HoursState) := do
  let t0 ← ask out.clock
  let hourRemaining ← llmCallsRemaining settings now
  let remaining :=
    if settings.modeLlm then min settings.ladderLlmMaxCallsPerTick hourRemaining else 0
  let (current, _) ← ofExcept (windowBounds .h1 now)
  let e ← get
  let (hours, start) ← ofExcept (plannedHours settings now remaining e.state)
  let budget := args.maxMicros.getD (1000 * settings.ladderHourlyMaxMs)
  return (⟨args.llm, t0, budget, now⟩, current, hours, start)

omit [PyCoerce] [LadderDigest] in
theorem openHours_opens (args : HoursArgs) : openHours out settings args =
    match args.now with
    | some now => openHoursAt out settings args now
    | none => ask out.today >>= openHoursAt out settings args := by
  unfold openHours openHoursAt
  cases args.now with
  | none => rfl
  | some now => exact pure_bind now _

omit [PyCoerce] [LadderDigest] in
theorem balanced_llmCallsRemaining (now : Instant) (e : LadderEnv) :
    Balanced now (llmCallsRemaining settings now) e := by
  apply balanced_of_books
  · show hourCount now { e.state with llmCallsHour := currentBucket now e.state.llmCallsHour } = _
    rw [hourCount, hourCount]
    dsimp only
    rw [currentBucket_idem]
  · rfl

omit [PyCoerce] [LadderDigest] in
theorem balanced_openHoursAt (args : HoursArgs) (now : Instant) (e : LadderEnv) :
    Balanced now (openHoursAt out settings args now) e := by
  apply balanced_bind (balanced_ask out.clock)
  intro t0 t _
  apply balanced_bind (balanced_llmCallsRemaining now t)
  intro hourRemaining u _
  apply balanced_bind (balanced_ofExcept _)
  intro bounds v _
  apply balanced_bind (m := get) rfl
  intro read w _
  apply balanced_bind (balanced_ofExcept _)
  intro planned x _
  exact balanced_pure _

omit [PyCoerce] [LadderDigest] in
theorem openHoursAt_now {args : HoursArgs} {now : Instant} {e t : LadderEnv} {limits : HoursLimits}
    {current : Instant} {hours : List Instant} {start : HoursState}
    (h : openHoursAt out settings args now e = .ok (limits, current, hours, start) t) :
    limits.now = now := by
  obtain ⟨t0, u, -, h⟩ := run_bind_ok h
  obtain ⟨hourRemaining, v, -, h⟩ := run_bind_ok h
  obtain ⟨bounds, w, -, h⟩ := run_bind_ok h
  obtain ⟨read, x, -, h⟩ := run_bind_ok h
  obtain ⟨planned, y, -, h⟩ := run_bind_ok h
  have hlimits := congrArg (fun r : HoursLimits × Instant × List Instant × HoursState => r.1.now)
    (EStateM.Result.ok.inj h).1
  exact hlimits.symm

/-- A call that has its time. -/
theorem balanced_processHours (limits : HoursLimits) (current : Instant) (hours : List Instant)
    (start : HoursState) (e : LadderEnv) (hpays : HoursPay out settings limits hours start e) :
    Balanced limits.now (do
      let c ← hoursLoop out settings limits hours start
      modifyState (finishHours limits.now current c)
      let _ ← ask out.clock
      return ⟨c.processed, c.cascaded, c.stopped, c.remaining, c.examined.map isoZ⟩ :
        LadderPy HoursReport) e := by
  apply balanced_bind (balanced_hoursLoop limits hours start e hpays)
  intro c t _
  have hfinish : ∀ st, hourCount limits.now (finishHours limits.now current c st) =
      hourCount limits.now st := fun _ => rfl
  apply balanced_bind (balanced_modifyState hfinish)
  intro _ u _
  exact balanced_bind (balanced_ask out.clock) (fun _ v _ => balanced_pure _)

omit [PyCoerce] [LadderDigest] in
theorem openHours_spec (args : HoursArgs) (e : LadderEnv) :
    let now := args.now.getD (out.today e.asked)
    Balanced now (openHours out settings args) e ∧
      ∀ limits current hours start t,
        openHours out settings args e = .ok (limits, current, hours, start) t →
          limits.now = now := by
  rw [openHours_opens]
  cases hnow : args.now with
  | some now =>
    exact ⟨balanced_openHoursAt args now e, fun _ _ _ _ _ h => openHoursAt_now h⟩
  | none =>
    refine ⟨?_, ?_⟩
    · exact balanced_bind (balanced_ask out.today) fun now t hask => by
        obtain ⟨rfl, rfl⟩ := EStateM.Result.ok.inj hask
        exact balanced_openHoursAt args _ _
    · intro limits current hours start t h
      dsimp only at h
      rw [run_ask_bind] at h
      exact openHoursAt_now h

/-- A call whose hours all pay adds to the count of its hour the calls of the model that it made. -/
theorem calls_counted (args : HoursArgs) (e : LadderEnv)
    (hpays : ProcessPays out settings args e) :
    let now := args.now.getD (out.today e.asked)
    let left := after (processClosedHours out settings args e)
    hourCount now left.state - hourCount now e.state = left.llmCalls - e.llmCalls := by
  intro now left
  obtain ⟨hopen, hnow⟩ := @openHours_spec out settings args e
  have hall : Balanced now (processClosedHours out settings args) e := by
    rw [processClosedHours]
    apply balanced_bind hopen
    intro opened t hrun
    obtain ⟨limits, current, hours, start⟩ := opened
    rw [← hnow limits current hours start t hrun]
    exact balanced_processHours limits current hours start t
      (hpays limits current hours start t hrun)
  have hbalance : hourCount now left.state - left.llmCalls = hourCount now e.state - e.llmCalls :=
    hall
  omega

end Hours

section DirtyHour

attribute [local instance] basicCoerce

/-- Digests that are the texts themselves. -/
@[reducible] def wholeText : LadderDigest := ⟨id, id, id⟩

attribute [local instance] wholeText

/-- The hour from the start of the calendar's hour 99 on. -/
def hour99 : Instant := ⟨356400000000, by decide⟩

def hour100 : Instant := ⟨360000000000, by decide⟩

def halfPast100 : Instant := ⟨361800000000, by decide⟩

def heard : Atom where
  atomId := "x"
  tStart := isoZ ⟨357000000000, by decide⟩
  kind := "observation"
  contentText := "hi"

/-- The model's summary of the hour, of the same source. -/
def hourTip : Atom where
  atomId := stableSummaryId .h1 hour99
  tStart := isoZ hour99
  kind := "summary"
  contentText := "hi there"
  scale := some "1h"
  windowStart := some (isoZ hour99)
  windowEnd := some (isoZ hour100)
  metadata := .ofList [("version", .int 1), ("source", .str "llm"), ("llm_passes", .int 1),
    ("child_content_hash", .str (childContentHash [heard]))]

def summarized : JsonlMemoryStore where
  settings := defaultMemorySettings
  byId := .ofList [("x", heard), (hourTip.atomId, hourTip)]
  ladder := .ofList [(("1h", isoZ hour99), hourTip.atomId)]
  dir := ⟨[], .empty⟩

/-- The clock leaves no time for the cascade of the hour. -/
def shortDay : Outside where
  answers := fun _ => .text "hi there"
  packRaises := fun _ => none
  clock := fun n => if n ≤ 1 then 0 else 1000000000
  putRaises := fun _ => false
  today := fun _ => halfPast100
  createdAt := none

def oneHour (summaryMode : String) : LadderSettings := { defaultLadderSettings with
  summaryMode := summaryMode
  ladderCatchupMaxHours := 1 }

def dirtyEnv : LadderEnv := ⟨summarized, { dirty1hWindows := [isoZ hour99] }, 0, 0⟩

def llmTick : HoursArgs := { llm := true, now := some halfPast100 }

/-- A dirty hour whose tip is of the same sources is returned unchanged, and debits the pass that
its meta names. -/
theorem unchanged_tip_debited :
    let left := after (processClosedHours shortDay (oneHour "llm") llmTick dirtyEnv)
    left.llmCalls = 0 ∧ hourCount halfPast100 left.state = 1 ∧
      hourCount halfPast100 dirtyEnv.state = 0 := by
  decide +kernel

/-- A tip of other sources. -/
def staleTip : Atom := { hourTip with
  metadata := .ofList [("version", .int 1), ("child_content_hash", .str "")] }

def staleEnv : LadderEnv := { dirtyEnv with
  store := { summarized with byId := .ofList [("x", heard), (staleTip.atomId, staleTip)] } }

def staleOpened : LadderEnv := { staleEnv with
  asked := 1
  state := { staleEnv.state with llmCallsHour := currentBucket halfPast100 staleEnv.state.llmCallsHour } }

def staleHours : HoursState := ⟨[isoZ hour99], [], 3, [], [], [], none, none⟩

theorem staleEnv_opens : openHours shortDay (oneHour "llm") llmTick staleEnv =
    .ok (⟨true, 0, 12000000, halfPast100⟩, hour100, [hour99], staleHours) staleOpened := rfl

/-- The refresh of the hour writes. -/
theorem staleEnv_refreshPays (e : LadderEnv) (hstore : e.store = staleEnv.store) :
    RefreshPays shortDay (oneHour "llm") (hourRefresh (oneHour "llm") true 3) .h1 hour99 e := by
  intro _ _ wStart wEnd sources tip hreading _
  have hbounds : Except.ok (hour99, hour100) = .ok (wStart, wEnd) := hreading.bounds
  cases hbounds
  obtain ⟨children, hsources⟩ := hreading.sources
  have htip := hreading.tip
  rw [hstore] at hsources htip
  have hcollected : collectWindowSources staleEnv.store .h1 hour99 hour100 false =
      .ok ([heard], false) := by
    decide +kernel
  have hresolved : resolveTip staleEnv.store .h1 hour99 hour100 = .ok (some staleTip) := by
    decide +kernel
  rw [show (hourRefresh (oneHour "llm") true 3).preferChildren = false from rfl, hcollected]
    at hsources
  rw [hresolved] at htip
  cases hsources
  cases htip
  refine ⟨?_, fun _ => ?_⟩
  · intro a ha _ hsame
    rw [← Option.some.inj ha] at hsame
    have hother : sameHash staleTip (childContentHash [heard]) = false := by
      decide +kernel
    rw [hother] at hsame
    cases hsame
  refine ⟨rfl, fun _ _ h => (by cases h), ?_, rfl, ?_, ?_⟩
  · intro a ha
    rw [List.mem_singleton.mp ha]
    exact ⟨_, rfl⟩
  · intro version _ id cur hid _ hcur
    rw [hstore] at hid hcur
    have htip : staleEnv.store.ladder.get? (windowKeyOf .h1 hour99) = some staleTip.atomId := by
      decide +kernel
    have hstored : staleEnv.store.byId.get? staleTip.atomId = some staleTip := by
      decide +kernel
    rw [htip] at hid
    rw [← Option.some.inj hid, hstored] at hcur
    rw [← Option.some.inj hcur]
    exact ⟨1, rfl⟩
  · intro _ old hold
    have hstored : staleEnv.store.getAtom (stableSummaryId .h1 hour99) = some staleTip := by
      decide +kernel
    rw [hstore, hstored] at hold
    rw [← Option.some.inj hold]
    decide +kernel

theorem staleEnv_pays : ProcessPays shortDay (oneHour "llm") llmTick staleEnv := by
  intro limits current hours start t hopen
  rw [staleEnv_opens] at hopen
  cases hopen
  refine ⟨?_, fun _ _ _ => trivial⟩
  intro _ wStart wEnd hbounds _
  have hbounds : Except.ok (hour99, hour100) = .ok (wStart, wEnd) := hbounds
  cases hbounds
  have hplan : planHour (oneHour "llm") hour99 hour100 (staleHours.examine hour99)
      staleEnv.store = .ok (.refresh false (some staleTip)) := rfl
  refine ⟨?_, ?_⟩
  · intro hcascade
    have hother := hplan.symm.trans hcascade
    cases hother
  · intro noSources existing hrefresh
    have hsame := hplan.symm.trans hrefresh
    cases hsame
    refine ⟨staleEnv_refreshPays _ rfl, ?_⟩
    intro c t hrun
    have hasked : (after (refreshHour shortDay (oneHour "llm") ⟨true, 0, 12000000, halfPast100⟩
        hour99 false (some staleTip) (staleHours.examine hour99)
        { staleOpened with asked := staleOpened.asked + 1 })).asked = 6 := by
      decide +kernel
    rw [hrun] at hasked
    have hend : t.asked = 6 := hasked
    intro hclock
    rw [hend] at hclock
    exact absurd hclock (by decide +kernel)

/-- The hour's tip is of other sources: the model is asked once, and one call is booked. -/
theorem stale_tip_counted :
    let left := after (processClosedHours shortDay (oneHour "llm") llmTick staleEnv)
    left.llmCalls = 1 ∧ hourCount halfPast100 left.state - hourCount halfPast100 staleEnv.state =
      (left.llmCalls : Int) - staleEnv.llmCalls :=
  ⟨by decide +kernel, calls_counted llmTick staleEnv staleEnv_pays⟩

end DirtyHour

end Elyra.Ladder
