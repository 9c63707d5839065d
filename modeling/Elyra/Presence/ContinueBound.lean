import Elyra.Presence.ContinueChain

namespace Elyra.Presence

open Json

/-- The streak starts over: a wake of a user was claimed, the toggle went off, or a full reset
went through. -/
def resetsStreak (s : Worker) : Event → Answer → Bool
  | .claimAndOpen _ _ _, .claimed wake => wake.kind.social
  | .setContinuousEnabled false, .accepted ok => ok
  | .clearMemory _, .quiet => s.continuous.resetting
  | _, _ => false

/-- A full reset also forgets when the last continue was enqueued. -/
def forgetsEnqueue (s : Worker) : Event → Answer → Bool
  | .clearMemory _, .quiet => s.continuous.resetting
  | _, _ => false

/-- A continue moment ended through finalize while continuous was on. -/
def endsContinue (s : Worker) : Answer → Bool
  | .finalized _ =>
    match s.thread with
    | .running wake _ => wake.kind = .momentContinue && s.continuous.enabled
    | _ => false
  | _ => false

/-- The clock readings of an event. -/
def Event.readings : Event → List Int
  | .finalizeMoment _ w => [w.gateClock, w.stampClock]
  | _ => []

/-- Wakes of the outer chain come from finalize alone. -/
def Event.leavesChain : Event → Bool
  | .enqueueWake kind _ => kind ≠ .momentContinue
  | _ => true

/-- A worker, the continue moments that ended since the last reset of the streak, and the last
continue enqueued since the last full reset. -/
structure Chain where
  worker : Worker
  ended : Nat
  lastEnqueue : Option Int

def Chain.start (s : Worker) : Chain := ⟨s, 0, none⟩

def lastEnqueueAfter (s : Worker) (last : Option Int) (e : Event) (answer : Answer) :
    Option Int :=
  match e, answer with
  | .finalizeMoment _ w, .finalized (some _) => some w.stampClock
  | e, answer => if forgetsEnqueue s e answer then none else last

section Chain

variable (env : Env) (cfg : ContinuousSettings)

def stepChain (c : Chain) (e : Event) : Chain :=
  let (answer, t) := stepWorker env cfg c.worker e
  let ended := if endsContinue c.worker answer then c.ended + 1 else c.ended
  ⟨t, if resetsStreak c.worker e answer then 0 else ended,
    lastEnqueueAfter c.worker c.lastEnqueue e answer⟩

def runChain (c : Chain) (events : List Event) : Chain := events.foldl (stepChain env cfg) c

end Chain

/-- The continue wake whose moment is running. -/
def inFlight (s : Worker) : Nat :=
  match s.thread with
  | .running wake _ => worth .momentContinue (some wake)
  | _ => 0

/-- One step of the worker, seen from the outer chain. -/
inductive Stepped (cfg : ContinuousSettings) (s : Worker) (e : Event) (answer : Answer)
    (t : Worker) : Prop
  | kept (quiet : ∀ x, answer ≠ .finalized x) (more : continues t ≤ continues s)
      (pending : continues t + inFlight t ≤ continues s + inFlight s)
      (streak : t.continuous.streak = s.continuous.streak)
      (stamp : t.continuous.lastEnqueueAt = s.continuous.lastEnqueueAt)
      (noReset : resetsStreak s e answer = false)
  | reset (quiet : ∀ x, answer ≠ .finalized x) (more : continues t ≤ continues s)
      (pending : continues t + inFlight t ≤ continues s + inFlight s)
      (streak : t.continuous.streak = 0)
      (stamp : forgetsEnqueue s e answer = true ∨
        t.continuous.lastEnqueueAt = s.continuous.lastEnqueueAt)
      (isReset : resetsStreak s e answer = true)
  | ended (wake : WakeItem) (momentId : String) (result : MomentResult) (w : FinalizeWorld)
      (running : s.thread = .running wake momentId) (event : e = .finalizeMoment result w)
      (done : inFlight t = 0)
      (outcome : answer = .raised ∧ Stays (counted wake s) w s t ∨
        answer = .finalized none ∧ Stays (counted wake s) w s t ∧
          t.continuous.streak = s.continuous.streak + counted wake s ∨
        ∃ item, answer = .finalized (some item) ∧ GoesOn cfg (counted wake s) w s t)

section Steps

variable {env : Env} {cfg : ContinuousSettings} {s t : Worker} {e : Event}

theorem resetsStreak_raised : resetsStreak s e .raised = false := by
  cases e with
  | setContinuousEnabled enabled => cases enabled <;> rfl
  | _ => rfl

/-- A tame step with an answer that resets nothing. -/
theorem Tame.stepped {answer : Answer} (h : Tame s t) (quiet : ∀ x, answer ≠ .finalized x)
    (hflight : inFlight t ≤ inFlight s) (noReset : resetsStreak s e answer = false) :
    Stepped cfg s e answer t :=
  .kept quiet h.pending (Nat.add_le_add h.pending hflight) h.streak h.stamp noReset

/-- A section performed by another thread leaves the moment in flight where it is. -/
theorem aside_stepped {α : Type} {m : Section α} (hm : Tames m) (answer : α → Answer)
    (quiet : ∀ a x, answer a ≠ .finalized x)
    (noReset : ∀ a, resetsStreak s e (answer a) = false) :
    Stepped cfg s e (aside m s answer).1 (aside m s answer).2 := by
  have h := hm s
  unfold aside perform
  cases hms : m s with
  | ok a t =>
    rw [hms] at h
    have hthread : Tame s { t with thread := s.thread } := ⟨h.pending, h.streak, h.stamp, h.enabled⟩
    exact hthread.stepped (quiet a) (Nat.le_refl _) (noReset a)
  | error err t =>
    rw [hms] at h
    have hthread : Tame s { t with thread := s.thread } := ⟨h.pending, h.streak, h.stamp, h.enabled⟩
    exact hthread.stepped (by simp) (Nat.le_refl _) resetsStreak_raised

theorem claimAndOpen_stepped (dues : List Due) (available opens : Bool)
    (hpolling : s.thread = .polling) :
    let r := stepWorker env cfg s (.claimAndOpen dues available opens)
    Stepped cfg s (.claimAndOpen dues available opens) r.1 r.2 := by
  have hstart : inFlight s = 0 := by
    unfold inFlight
    rw [hpolling]
  have h := @claimAndOpen_claimed env dues available opens s
  simp only [stepWorker, hpolling, perform]
  cases hrun : claimAndOpen env dues available opens s with
  | error err t =>
    rw [hrun] at h
    exact .kept (by simp) h.pending (Nat.add_le_add h.pending (Nat.zero_le _)) h.streak h.stamp rfl
  | ok opened t =>
    rw [hrun] at h
    cases opened with
    | none =>
      exact .kept (by simp) h.pending (Nat.add_le_add h.pending (Nat.zero_le _)) h.streak h.stamp
        rfl
    | some p =>
      obtain ⟨wake, momentId⟩ := p
      have hstreak := h.streak
      change t.continuous.streak =
        if wake.kind.social = true then 0 else s.continuous.streak at hstreak
      have hpending : continues t + worth .momentContinue (some wake) ≤ continues s + inFlight s := by
        rw [hstart]
        exact h.pending
      have hmore : continues t ≤ continues s := (Nat.le_add_right _ _).trans h.pending
      by_cases hsocial : wake.kind.social = true
      · rw [if_pos hsocial] at hstreak
        exact .reset (by simp) hmore hpending hstreak (.inr h.stamp) hsocial
      · rw [if_neg hsocial] at hstreak
        exact .kept (by simp) hmore hpending hstreak h.stamp (Bool.eq_false_iff.mpr hsocial)

theorem finalizeMoment_stepped (result : MomentResult) (w : FinalizeWorld) {wake : WakeItem}
    {momentId : String} (hrunning : s.thread = .running wake momentId) :
    let r := stepWorker env cfg s (.finalizeMoment result w)
    Stepped cfg s (.finalizeMoment result w) r.1 r.2 := by
  have h := @finalizeMoment_ended env cfg w s wake momentId result
  simp only [stepWorker, hrunning, perform]
  cases hrun : finalizeMoment env cfg wake momentId result w s with
  | error err t =>
    rw [hrun] at h
    exact .ended wake momentId result w hrunning rfl rfl
      (.inl ⟨rfl, h.pending, h.grows, h.atMost, h.stamp⟩)
  | ok item? t =>
    rw [hrun] at h
    cases item? with
    | none =>
      exact .ended wake momentId result w hrunning rfl rfl
        (.inr (.inl ⟨rfl, ⟨h.1.pending, h.1.grows, h.1.atMost, h.1.stamp⟩, h.2⟩))
    | some item =>
      have hgates : OpenGates w { t with thread := .polling } :=
        ⟨h.gates.enabled, h.gates.noWait, h.gates.noTaskReady, h.gates.openWork⟩
      exact .ended wake momentId result w hrunning rfl rfl (.inr (.inr ⟨item, rfl, hgates, h.room,
        h.pending, h.streak, h.below, h.stamp, h.cooldown⟩))

theorem setContinuousEnabled_stepped (enabled : Bool) :
    let r := aside (setContinuousEnabled env enabled) s .accepted
    Stepped cfg s (.setContinuousEnabled enabled) r.1 r.2 := by
  have hrun : setContinuousEnabled env enabled s =
      if s.continuous.resetting then .ok false s
      else
        let u := { s with continuous := { s.continuous with enabled := enabled } }
        if enabled then .ok true u
        else
          match onQueue (cancelAllPendingOfKind env WakeKind.momentContinue.text
            "continuous_disabled") u with
          | .ok _ v => .ok true { v with
              continuous := { v.continuous with streak := 0, lastSkipReason := none } }
          | .error e v => .error e v := by
    rw [setContinuousEnabled, run_bind, run_get]
    by_cases hreset : s.continuous.resetting = true
    · simp only [if_pos hreset]
      rfl
    simp only [if_neg hreset]
    rw [run_bind, run_modify]
    cases enabled with
    | true => rfl
    | false =>
      simp only [Bool.false_eq_true, if_false]
      rw [run_bind]
      cases onQueue (cancelAllPendingOfKind env WakeKind.momentContinue.text
        "continuous_disabled") { s with continuous := { s.continuous with enabled := false } } <;>
        rfl
  simp only [aside, perform, hrun]
  by_cases hreset : s.continuous.resetting = true
  · simp only [if_pos hreset]
    have hkept : Tame s { s with thread := s.thread } := Tame.refl s
    apply hkept.stepped (by simp) (Nat.le_refl _)
    cases enabled <;> rfl
  simp only [if_neg hreset]
  cases enabled with
  | true => exact .kept (by simp) (Nat.le_refl _) (Nat.le_refl _) rfl rfl rfl
  | false =>
    simp only [Bool.false_eq_true, if_false]
    have htames : Tames (onQueue (cancelAllPendingOfKind env WakeKind.momentContinue.text
      "continuous_disabled")) := tames_onQueue (noMore_cancelAllPendingOfKind _ _)
    have hafter := htames { s with continuous := { s.continuous with enabled := false } }
    cases hqueue : onQueue (cancelAllPendingOfKind env WakeKind.momentContinue.text
        "continuous_disabled") { s with continuous := { s.continuous with enabled := false } } with
    | error err v =>
      rw [hqueue] at hafter
      exact .kept (by simp) hafter.pending (Nat.add_le_add_right hafter.pending _) hafter.streak
        hafter.stamp rfl
    | ok ids v =>
      rw [hqueue] at hafter
      exact .reset (by simp) hafter.pending (Nat.add_le_add_right hafter.pending _) rfl
        (.inr hafter.stamp) rfl

theorem clearQueue_ok (wiped : Bool) :
    ∃ t, clearQueue wiped s = .ok () t ∧ continues t ≤ continues s := by
  cases wiped with
  | true => exact ⟨_, rfl, Nat.zero_le _⟩
  | false => exact ⟨_, rfl, Nat.le_refl _⟩

theorem clearMemory_stepped (wiped : Bool) :
    let r := aside (clearMemory wiped) s (fun _ => .quiet)
    Stepped cfg s (.clearMemory wiped) r.1 r.2 := by
  obtain ⟨t, hcleared, hfewer⟩ := clearQueue_ok (s := s) wiped
  have hrun : clearMemory wiped s = if s.continuous.resetting then
      .ok () { t with
        waits := .empty
        phase := .idle
        busy := false
        activeMoment := none
        interject := .empty
        continuous := { t.continuous with
          streak := 0
          lastEnqueueAt := none
          lastContinueWakeId := none
          lastSourceMomentId := none
          lastSkipReason := none } }
      else .ok () s := by
    rw [clearMemory, run_bind, run_get]
    by_cases hreset : s.continuous.resetting = true
    · simp only [if_pos hreset]
      rw [run_bind, hcleared]
      rfl
    · simp only [if_neg hreset]
      rfl
  simp only [aside, perform, hrun]
  by_cases hreset : s.continuous.resetting = true
  · simp only [if_pos hreset]
    exact .reset (by simp) hfewer (Nat.add_le_add_right hfewer _) rfl (.inl hreset) hreset
  · simp only [if_neg hreset]
    exact .kept (by simp) (Nat.le_refl _) (Nat.le_refl _) rfl rfl (Bool.eq_false_iff.mpr hreset)

theorem tames_beginReset : Tames beginReset := by
  apply tames_bind tames_get
  intro s
  show Tames (if (s.continuous.resetting || s.busy || s.phase = .inMoment) = true then _ else _)
  split_ifs
  · exact tames_pure _
  · intro t
    exact ⟨Nat.le_refl _, rfl, rfl, rfl⟩

theorem tames_endReset : Tames endReset := fun _ => ⟨Nat.le_refl _, rfl, rfl, rfl⟩

theorem kept_self (hs : t.world = s.world) (hc : t.continuous = s.continuous)
    (hflight : inFlight t ≤ inFlight s) (noReset : resetsStreak s e .quiet = false) :
    Stepped cfg s e .quiet t := by
  have hsame : Tame s t := by
    refine ⟨?_, by rw [hc], by rw [hc], by rw [hc]⟩
    rw [continues, hs]
    exact Nat.le_refl _
  exact hsame.stepped (by simp) hflight noReset

theorem stepWorker_stepped (e : Event) (hown : e.leavesChain = true) :
    Stepped cfg s e (stepWorker env cfg s e).1 (stepWorker env cfg s e).2 := by
  cases e with
  | resolveUserInput a =>
    exact aside_stepped (tames_resolveUserInput a) .reply (by simp) (fun _ => rfl)
  | interject content userId messageId =>
    exact aside_stepped (tames_interject _ _ _) .reply (by simp) (fun _ => rfl)
  | claimAndOpen dues available opens =>
    cases hthread : s.thread with
    | polling => exact claimAndOpen_stepped dues available opens hthread
    | _ =>
      simp only [stepWorker, hthread]
      exact kept_self rfl rfl (Nat.le_refl _) rfl
  | drainInterjections =>
    cases hthread : s.thread with
    | running wake momentId =>
      simp only [stepWorker, hthread]
      exact aside_stepped tames_drain .drained (by simp) (fun _ => rfl)
    | _ =>
      simp only [stepWorker, hthread]
      exact kept_self rfl rfl (Nat.le_refl _) rfl
  | loopRaised =>
    cases hthread : s.thread with
    | running wake momentId =>
      simp only [stepWorker, hthread]
      exact kept_self rfl rfl (Nat.zero_le _) rfl
    | _ =>
      simp only [stepWorker, hthread]
      exact kept_self rfl rfl (Nat.le_refl _) rfl
  | finalizeMoment result w =>
    cases hthread : s.thread with
    | running wake momentId => exact finalizeMoment_stepped result w hthread
    | _ =>
      simp only [stepWorker, hthread]
      exact kept_self rfl rfl (Nat.le_refl _) rfl
  | failInFlight store =>
    cases hthread : s.thread with
    | failing failed =>
      simp only [stepWorker, hthread, perform]
      have hafter := @tames_failInFlight env failed store s
      cases hrun : failInFlight env failed store s with
      | ok a t =>
        rw [hrun] at hafter
        have hdone : Tame s { t with thread := .polling } :=
          ⟨hafter.pending, hafter.streak, hafter.stamp, hafter.enabled⟩
        exact hdone.stepped (by simp) (Nat.zero_le _) rfl
      | error err t =>
        rw [hrun] at hafter
        have hdone : Tame s { t with thread := .dead } :=
          ⟨hafter.pending, hafter.streak, hafter.stamp, hafter.enabled⟩
        exact hdone.stepped (by simp) (Nat.zero_le _) rfl
    | _ =>
      simp only [stepWorker, hthread]
      exact kept_self rfl rfl (Nat.le_refl _) rfl
  | setContinuousEnabled enabled => exact setContinuousEnabled_stepped enabled
  | enqueueWake kind payload =>
    simp only [stepWorker]
    by_cases hreset : s.continuous.resetting = true
    · rw [if_pos hreset]
      exact (Tame.refl s).stepped (by simp) (Nat.le_refl _) rfl
    · rw [if_neg hreset]
      have hkind : kind ≠ .momentContinue := by simpa [Event.leavesChain] using hown
      exact aside_stepped (tames_enqueueWake hkind payload none) _ (by simp) (fun _ => rfl)
  | enqueueTaskReady taskId goalId payload =>
    simp only [stepWorker]
    by_cases hreset : s.continuous.resetting = true
    · rw [if_pos hreset]
      exact (Tame.refl s).stepped (by simp) (Nat.le_refl _) rfl
    · rw [if_neg hreset]
      exact aside_stepped (tames_onQueue (noMore_enqueueTaskReady (by decide) _ _ _)) _ (by simp)
        (fun _ => rfl)
  | armWait w => exact kept_self rfl rfl (Nat.le_refl _) rfl
  | cancelWait waitId =>
    simp only [stepWorker]
    by_cases hknown : s.waits.get? waitId = none
    · rw [if_pos hknown]
      exact kept_self rfl rfl (Nat.le_refl _) rfl
    · rw [if_neg hknown]
      exact kept_self rfl rfl (Nat.le_refl _) rfl
  | beginReset => exact aside_stepped tames_beginReset .accepted (by simp) (fun _ => rfl)
  | clearMemory wiped => exact clearMemory_stepped wiped
  | endReset => exact aside_stepped tames_endReset _ (by simp) (fun _ => rfl)

end Steps

section Bound

variable {env : Env} {cfg : ContinuousSettings} {room : Int} {c : Chain}

/-- What carries the bound: a pending continue still counts against the streak it will raise. -/
structure Bounded (cfg : ContinuousSettings) (room : Int) (c : Chain) : Prop where
  pending : ((continues c.worker + inFlight c.worker : Nat) : Int) ≤ room
  streak : ((c.worker.continuous.streak + (continues c.worker + inFlight c.worker) : Nat) : Int) ≤
    max 1 cfg.maxContinueStreak + room - 1
  ended : c.ended ≤ c.worker.continuous.streak

theorem endsContinue_quiet {s : Worker} {answer : Answer} (h : ∀ x, answer ≠ .finalized x) :
    endsContinue s answer = false := by
  cases answer with
  | finalized x => exact absurd rfl (h x)
  | _ => rfl

theorem counted_le_inFlight {s : Worker} {wake : WakeItem} {momentId : String}
    (h : s.thread = .running wake momentId) : counted wake s ≤ inFlight s := by
  unfold counted inFlight worth
  rw [h]
  simp only
  split_ifs with hboth hkind
  · exact Nat.le_refl _
  · exact absurd hboth.1 hkind
  · exact Nat.zero_le _
  · exact Nat.le_refl _

theorem endsContinue_finalized {s : Worker} {wake : WakeItem} {momentId : String}
    (h : s.thread = .running wake momentId) (x : Option WakeItem) :
    (if endsContinue s (.finalized x) then 1 else 0) = counted wake s := by
  simp only [endsContinue, h, counted, Bool.and_eq_true, decide_eq_true_eq]

/-- The bound is kept by every step that adds no continue of its own. -/
theorem bounded_step (hroom : max 0 cfg.maxPendingContinues ≤ room) (h : Bounded cfg room c)
    (e : Event) (hown : e.leavesChain = true) : Bounded cfg room (stepChain env cfg c e) := by
  have hstep := @stepWorker_stepped env cfg c.worker e hown
  have hpending := h.pending
  have hstreak := h.streak
  have hended := h.ended
  unfold stepChain
  generalize stepWorker env cfg c.worker e = r at hstep ⊢
  obtain ⟨answer, t⟩ := r
  simp only at hstep ⊢
  cases hstep with
  | kept quiet more pending streak stamp noReset =>
    rw [endsContinue_quiet quiet, noReset]
    refine ⟨?_, ?_, ?_⟩ <;> simp only [Bool.false_eq_true, if_false] <;> omega
  | reset quiet more pending streak stamp isReset =>
    rw [isReset]
    refine ⟨?_, ?_, ?_⟩ <;> simp only [if_true] <;> omega
  | ended wake momentId result w running event done outcome =>
    have hcounted := counted_le_inFlight running
    subst event
    have hnoReset : resetsStreak c.worker (.finalizeMoment result w) answer = false := rfl
    rw [hnoReset]
    obtain ⟨rfl, hstays⟩ | ⟨rfl, hstays, hgrew⟩ | ⟨item, rfl, hgoes⟩ := outcome
    · have hfewer := hstays.pending
      have hgrows := hstays.grows
      have hmost := hstays.atMost
      rw [endsContinue_quiet (by simp)]
      refine ⟨?_, ?_, ?_⟩ <;> simp only [Bool.false_eq_true, if_false] <;> omega
    · have hfewer := hstays.pending
      have hone := endsContinue_finalized running none
      refine ⟨?_, ?_, ?_⟩ <;> simp only [Bool.false_eq_true, if_false]
      · omega
      · omega
      · split_ifs at hone ⊢ <;> omega
    · have hfull := hgoes.room
      have hbelow := hgoes.below
      have hgrew := hgoes.streak
      have hone := endsContinue_finalized running (some item)
      refine ⟨?_, ?_, ?_⟩ <;> simp only [Bool.false_eq_true, if_false]
      · omega
      · omega
      · split_ifs at hone ⊢ <;> omega

theorem bounded_run (hroom : max 0 cfg.maxPendingContinues ≤ room) (events : List Event)
    (hown : ∀ e ∈ events, e.leavesChain = true) (h : Bounded cfg room c) :
    Bounded cfg room (runChain env cfg c events) := by
  induction events generalizing c with
  | nil => exact h
  | cons e events ih =>
    apply ih (fun e' he' => hown e' (List.mem_cons_of_mem _ he'))
    exact bounded_step hroom h e (hown e List.mem_cons_self)

/-- The worker remembers an enqueue at least as late as the last one. -/
def Stamped (readings : List Int) (c : Chain) : Prop :=
  ∀ last ∈ c.lastEnqueue, ∃ l ∈ c.worker.continuous.lastEnqueueAt, last ≤ l ∧ l ∈ readings

theorem stamped_step {readings : List Int} (h : Stamped readings c) (e : Event)
    (hown : e.leavesChain = true) (hclock : (readings ++ e.readings).Pairwise (· ≤ ·)) :
    Stamped (readings ++ e.readings) (stepChain env cfg c e) := by
  have hstep := @stepWorker_stepped env cfg c.worker e hown
  unfold stepChain
  generalize stepWorker env cfg c.worker e = r at hstep ⊢
  obtain ⟨answer, t⟩ := r
  simp only at hstep ⊢
  have hkept : t.continuous.lastEnqueueAt = c.worker.continuous.lastEnqueueAt →
      ∀ last ∈ c.lastEnqueue, ∃ l ∈ t.continuous.lastEnqueueAt,
        last ≤ l ∧ l ∈ readings ++ e.readings := by
    intro hstamp last hlast
    obtain ⟨l, hl, hle, hmem⟩ := h last hlast
    exact ⟨l, hstamp ▸ hl, hle, List.mem_append_left _ hmem⟩
  have hquiet : (∀ x, answer ≠ .finalized x) →
      lastEnqueueAfter c.worker c.lastEnqueue e answer =
        if forgetsEnqueue c.worker e answer then none else c.lastEnqueue := by
    intro quiet
    unfold lastEnqueueAfter
    split
    · exact absurd rfl (quiet _)
    · rfl
  cases hstep with
  | kept quiet more pending streak stamp noReset =>
    intro last hlast
    apply hkept stamp
    rw [hquiet quiet] at hlast
    by_cases hforget : forgetsEnqueue c.worker e answer = true
    · rw [if_pos hforget] at hlast
      exact absurd hlast (Option.not_mem_none _)
    · rw [if_neg hforget] at hlast
      exact hlast
  | reset quiet more pending streak stamp isReset =>
    intro last hlast
    rw [hquiet quiet] at hlast
    by_cases hforget : forgetsEnqueue c.worker e answer = true
    · rw [if_pos hforget] at hlast
      exact absurd hlast (Option.not_mem_none _)
    · rw [if_neg hforget] at hlast
      exact hkept (stamp.resolve_left hforget) last hlast
  | ended wake momentId result w running event done outcome =>
    subst event
    have hlate : ∀ l ∈ readings, l ≤ w.stampClock := by
      intro l hl
      exact (List.pairwise_append.mp hclock).2.2 l hl w.stampClock (by simp [Event.readings])
    have hstays : Stays (counted wake c.worker) w c.worker t → ∀ last ∈ c.lastEnqueue,
        ∃ l ∈ t.continuous.lastEnqueueAt,
          last ≤ l ∧ l ∈ readings ++ (Event.finalizeMoment result w).readings := by
      intro hstays last hlast
      cases hstays.stamp with
      | inl hsame => exact hkept hsame last hlast
      | inr hstamped =>
        obtain ⟨l, hl, hle, hmem⟩ := h last hlast
        refine ⟨w.stampClock, hstamped, hle.trans (hlate l hmem), ?_⟩
        simp [Event.readings]
    obtain ⟨rfl, hraised⟩ | ⟨rfl, hnone, -⟩ | ⟨item, rfl, hgoes⟩ := outcome
    · exact hstays hraised
    · exact hstays hnone
    · intro last hlast
      obtain rfl := Option.some.inj hlast
      exact ⟨w.stampClock, hgoes.stamp, Int.le_refl _, by simp [Event.readings]⟩

theorem stamped_run (events : List Event) (hown : ∀ e ∈ events, e.leavesChain = true)
    {readings : List Int} (hclock : (readings ++ events.flatMap Event.readings).Pairwise (· ≤ ·))
    (h : Stamped readings c) :
    Stamped (readings ++ events.flatMap Event.readings) (runChain env cfg c events) := by
  induction events generalizing c readings with
  | nil =>
    rw [List.flatMap_nil, List.append_nil]
    exact h
  | cons e events ih =>
    rw [List.flatMap_cons, ← List.append_assoc] at hclock ⊢
    apply ih (fun e' he' => hown e' (List.mem_cons_of_mem _ he')) hclock
    exact stamped_step h e (hown e List.mem_cons_self) (List.pairwise_append.mp hclock).1

end Bound

section Main

variable (env : Env) (cfg : ContinuousSettings)

/-- Between two resets of the streak a bounded number of continue moments ends, a continue goes
out only through open gates, and no sooner than the cooldown after the one before it unless a
full reset came between. -/
theorem continue_chain_bounded (world : World) (waits : Dict String PendingWait) (enabled : Bool)
    (events : List Event) (e : Event) (hown : ∀ x ∈ events ++ [e], x.leavesChain = true) :
    let start := Worker.start world waits enabled
    let c := runChain env cfg (Chain.start start) events
    let r := stepWorker env cfg c.worker e
    (c.ended : Int) ≤ max 1 cfg.maxContinueStreak +
      max (max 0 cfg.maxPendingContinues) (continues start) - 1 ∧
    (continues c.worker < continues r.2 → ∃ item, r.1 = .finalized (some item)) ∧
    ∀ item, r.1 = .finalized (some item) → ∃ result w, e = .finalizeMoment result w ∧
      OpenGates w r.2 ∧
      (((events ++ [e]).flatMap Event.readings).Pairwise (· ≤ ·) → ∀ last ∈ c.lastEnqueue,
        last + cfg.cooldownSeconds * 1000000 ≤ w.stampClock) := by
  intro start c r
  have hbefore : ∀ x ∈ events, x.leavesChain = true :=
    fun x hx => hown x (List.mem_append_left _ hx)
  have hstep := @stepWorker_stepped env cfg c.worker e
    (hown e (by simp))
  refine ⟨?_, ?_, ?_⟩
  · have hstart : Bounded cfg (max (max 0 cfg.maxPendingContinues) (continues start))
        (Chain.start start) := by
      refine ⟨?_, ?_, Nat.le_refl _⟩
      · exact le_max_right _ _
      · show ((0 + (continues start + 0) : Nat) : Int) ≤ _
        omega
    have hrun : Bounded cfg (max (max 0 cfg.maxPendingContinues) (continues start)) c :=
      bounded_run (le_max_left _ _) events hbefore hstart
    have hended := hrun.ended
    have hstreak := hrun.streak
    omega
  · intro hmore
    cases hstep with
    | kept quiet more pending streak stamp noReset => exact absurd hmore (Nat.not_lt.mpr more)
    | reset quiet more pending streak stamp isReset => exact absurd hmore (Nat.not_lt.mpr more)
    | ended wake momentId result w running event done outcome =>
      obtain ⟨-, hstays⟩ | ⟨-, hstays, -⟩ | ⟨item, hitem, -⟩ := outcome
      · exact absurd hmore (Nat.not_lt.mpr hstays.pending)
      · exact absurd hmore (Nat.not_lt.mpr hstays.pending)
      · exact ⟨item, hitem⟩
  · intro item hitem
    cases hstep with
    | kept quiet more pending streak stamp noReset => exact absurd hitem (quiet _)
    | reset quiet more pending streak stamp isReset => exact absurd hitem (quiet _)
    | ended wake momentId result w running event done outcome =>
      have hgoes : GoesOn cfg (counted wake c.worker) w c.worker r.2 := by
        obtain ⟨hother, -⟩ | ⟨hother, -, -⟩ | ⟨-, -, hgoes⟩ := outcome
        · rw [hitem] at hother
          cases hother
        · rw [hitem] at hother
          cases hother
        · exact hgoes
      refine ⟨result, w, event, hgoes.gates, ?_⟩
      intro hclock last hlast
      rw [event, List.flatMap_append] at hclock
      have hparts := List.pairwise_append.mp hclock
      have hstart : Stamped [] (Chain.start start) := by
        intro last hlast
        cases hlast
      obtain ⟨l, hl, hle, hmem⟩ := @stamped_run env cfg _ events hbefore _
        (by simpa using hparts.1) hstart last hlast
      rw [List.nil_append] at hmem
      have hclocks : w.gateClock ≤ w.stampClock := by
        have hpair := hparts.2.1
        simp only [Event.readings, List.flatMap_cons, List.flatMap_nil, List.append_nil] at hpair
        exact List.rel_of_pairwise_cons hpair List.mem_cons_self
      have hlate : l ≤ w.stampClock := hparts.2.2 l hmem w.stampClock (by simp [Event.readings])
      by_cases hpos : 0 < cfg.cooldownSeconds
      · have happart := hgoes.cooldown hpos l hl
        omega
      · omega

end Main

/-- The clock readings at which a run enqueues its continues. -/
def enqueueStamps (env : Env) (cfg : ContinuousSettings) (s : Worker) : List Event → List Int
  | [] => []
  | e :: events =>
    let (answer, t) := stepWorker env cfg s e
    let stamps := enqueueStamps env cfg t events
    match e, answer with
    | .finalizeMoment _ w, .finalized (some _) => w.stampClock :: stamps
    | _, _ => stamps

/-- A task wakes the worker, and its moment ends with open work left. -/
def openTask : List Event := [.enqueueTaskReady "t" none .empty, .claimAndOpen [] true true]

def endTask (clock : Int) : Event :=
  .finalizeMoment ⟨"no_tools", none, true, false, 1, 0, false⟩
    ⟨.returned, .refused, true, clock, clock⟩

def taskMoment (clock : Int) : List Event := openTask ++ [endTask clock]

/-- Two task moments one second apart, with a full reset between them. -/
def resetBetween : List Event :=
  taskMoment 0 ++ [.beginReset, .clearMemory true, .endReset] ++ taskMoment 1000000

def idleWorker : Worker := Worker.start (World.opened ByteArray.empty [] .empty) .empty true

/-- A full reset forgets the last enqueue, so the next continue need not wait for the cooldown. -/
theorem full_reset_skips_cooldown :
    (resetBetween.flatMap Event.readings).Pairwise (· ≤ ·) ∧
    ¬ (enqueueStamps countingEnv .default idleWorker resetBetween).Pairwise (fun a b =>
      a + ContinuousSettings.default.cooldownSeconds * 1000000 ≤ b) := by
  decide +kernel

theorem continue_chain_bounded_sample :
    let start := Worker.start (World.opened ByteArray.empty [] .empty) .empty true
    let c := runChain countingEnv .default (Chain.start start) openTask
    let r := stepWorker countingEnv .default c.worker (endTask 0)
    (c.ended : Int) ≤ max 1 8 + max (max 0 1) (continues start) - 1 ∧
    (continues c.worker < continues r.2 → ∃ item, r.1 = .finalized (some item)) ∧
    ∀ item, r.1 = .finalized (some item) → ∃ result w, endTask 0 = .finalizeMoment result w ∧
      OpenGates w r.2 ∧
      (((openTask ++ [endTask 0]).flatMap Event.readings).Pairwise (· ≤ ·) →
        ∀ last ∈ c.lastEnqueue, last + 30 * 1000000 ≤ w.stampClock) :=
  continue_chain_bounded countingEnv .default (World.opened ByteArray.empty [] .empty) .empty true
    openTask (endTask 0) (by decide)

end Elyra.Presence
