import Elyra.Framework.Run
import Elyra.Llm.Usage

namespace Elyra.Llm

section Undoable

variable {α : Type}

theorem restoreDurable_eq (prev m : UsageMeter) : prev.restoreDurable m = prev := rfl

theorem undoable_eq (body : MeterPy α) (m : UsageMeter) :
    undoable body m = match body m with
      | .ok a t => .ok a t
      | .error e _ => .error e m := by
  have hundo : m.restoreDurable = fun _ => m := funext (restoreDurable_eq m)
  show orUndo body m.restoreDurable m = _
  rw [hundo, orUndo]
  cases body m <;> rfl

theorem undoable_error {body : MeterPy α} {m t : UsageMeter} {e : PyErr}
    (h : undoable body m = .error e t) : t = m := by
  rw [undoable_eq] at h
  cases hb : body m with
  | ok a u =>
    rw [hb] at h
    cases h
  | error d u =>
    rw [hb] at h
    cases h
    rfl

theorem undoable_ok {body : MeterPy α} {m t : UsageMeter} {a : α}
    (h : undoable body m = .ok a t) : body m = .ok a t := by
  rw [undoable_eq] at h
  cases hb : body m with
  | ok b u =>
    rw [hb] at h
    exact h
  | error d u =>
    rw [hb] at h
    cases h

end Undoable

/-- Two meters that differ in the derived hard stop fields only. -/
structure SameLedger (m t : UsageMeter) : Prop where
  weekUsed : t.weekUsed = m.weekUsed
  hardStopOverride : t.hardStopOverride = m.hardStopOverride

namespace UsageMeter

variable (settings : UsageSettings) (now : Instant) (m : UsageMeter)

@[simp] theorem refreshWeek_periodAuthority (weekId : String) :
    (m.refreshWeek weekId).periodAuthority = m.periodAuthority := by
  unfold refreshWeek
  split_ifs <;> rfl

@[simp] theorem refreshed_periodAuthority :
    (m.refreshed settings now).periodAuthority = m.periodAuthority := by
  simp only [refreshed, refreshHour, refreshDay]
  split_ifs <;> exact refreshWeek_periodAuthority m _

@[simp] theorem refreshed_hardStopOverride :
    (m.refreshed settings now).hardStopOverride = m.hardStopOverride := by
  simp only [refreshed, refreshHour, refreshDay, refreshWeek]
  split_ifs <;> rfl

@[simp] theorem refreshed_weekId :
    (m.refreshed settings now).weekId = (windowIds now settings.hourBlockMinutes).weekId := by
  have hweek : ∀ weekId, (m.refreshWeek weekId).weekId = weekId := by
    intro weekId
    unfold refreshWeek
    split_ifs with h
    · rfl
    · rfl
    · exact (not_not.mp h).symm
  simp only [refreshed, refreshHour, refreshDay]
  split_ifs <;> exact hweek _

/-- Under ISO authority a week change zeroes the ledger; no other refresh touches it. -/
theorem refreshed_weekUsed :
    (m.refreshed settings now).weekUsed =
      if m.periodAuthority = .iso ∧ (windowIds now settings.hourBlockMinutes).weekId ≠ m.weekId
      then 0 else m.weekUsed := by
  have hweek : ∀ weekId, (m.refreshWeek weekId).weekUsed =
      if m.periodAuthority = .iso ∧ weekId ≠ m.weekId then 0 else m.weekUsed := by
    intro weekId
    unfold refreshWeek
    by_cases hid : weekId = m.weekId
    · simp [hid]
    · by_cases hiso : m.periodAuthority = .iso <;> simp [hid, hiso]
  rw [← hweek]
  simp only [refreshed, refreshHour, refreshDay]
  split_ifs <;> rfl

/-- Under SuperGrok authority a refresh leaves the period alone. -/
theorem refreshed_period (h : m.periodAuthority = .supergrok) :
    (m.refreshed settings now).periodId = m.periodId ∧
      (m.refreshed settings now).periodStart = m.periodStart ∧
      (m.refreshed settings now).periodEnd = m.periodEnd := by
  have hne : ¬m.periodAuthority = .iso := by
    rw [h]
    decide
  simp only [refreshed, refreshHour, refreshDay, refreshWeek, if_neg hne]
  split_ifs <;> exact ⟨rfl, rfl, rfl⟩

theorem addTokens_weekUsed (tokens cached : Nat) :
    (m.addTokens tokens cached now).weekUsed = m.weekUsed + tokens := by
  unfold addTokens
  split_ifs with h
  · rfl
  · obtain ⟨ht, -⟩ := not_or.mp h
    rw [not_not.mp ht, Nat.add_zero]

theorem addTokens_hardStopOverride (tokens cached : Nat) :
    (m.addTokens tokens cached now).hardStopOverride = m.hardStopOverride := by
  unfold addTokens
  split_ifs <;> rfl

theorem countCall_same (kind : MediaKind) : SameLedger m (m.countCall kind) := by
  cases kind <;> exact ⟨rfl, rfl⟩

variable [UsageFloat]

theorem syncHardStopFields_ok {t : UsageMeter}
    (h : m.syncHardStopFields settings now = .ok t) : SameLedger m t := by
  obtain ⟨level, -, hrest⟩ := except_bind_ok h
  obtain ⟨reason, -, hset⟩ := except_bind_ok hrest
  cases hset
  exact ⟨rfl, rfl⟩

end UsageMeter

/-- The instant a text denotes. -/
def denoted (value : Option String) : Option Instant :=
  match parseIsoDatetime value with
  | .ok t => t
  | .error _ => none

/-- Two instants as a period, when the end is after the start. -/
def periodOf : Option Instant → Option Instant → Option (Instant × Instant)
  | some a, some b => if a < b then some (a, b) else none
  | _, _ => none

theorem periodOf_none_right (a : Option Instant) : periodOf a none = none := by
  cases a <;> rfl

/-- The billing period a snapshot denotes, its end after its start. -/
def denotedPeriod (snap : CreditsSnapshot) : Option (Instant × Instant) :=
  periodOf (denoted snap.periodStart) (denoted snap.periodEnd)

def storedPeriod (m : UsageMeter) : Option Instant × Option Instant :=
  (denoted m.periodStart, denoted m.periodEnd)

theorem denoted_of_parse {t : Option Instant} {value : Option String}
    (h : parseIsoDatetime value = .ok t) : denoted value = t := by
  rw [denoted, h]

/-- The bounds a snapshot is applied with are its own, and they denote its period. -/
theorem parseablePeriod_ok {snap : CreditsSnapshot} {period : Option (String × String)}
    (h : parseablePeriod snap = .ok period) :
    (period = none ∧ denotedPeriod snap = none) ∨
      ∃ p q, period = some p ∧ denotedPeriod snap = some q ∧
        snap.periodStart = some p.1 ∧ snap.periodEnd = some p.2 := by
  obtain ⟨startDt, hstart, hrest⟩ := except_bind_ok h
  obtain ⟨endDt, hend, hmatch⟩ := except_bind_ok hrest
  have hdenoted : denotedPeriod snap = periodOf startDt endDt := by
    rw [denotedPeriod, denoted_of_parse hstart, denoted_of_parse hend]
  cases hs : snap.periodStart with
  | none =>
    rw [hs] at hmatch hstart
    cases hmatch
    cases hstart
    exact .inl ⟨rfl, hdenoted⟩
  | some start =>
    cases he : snap.periodEnd with
    | none =>
      rw [hs, he] at hmatch
      rw [he] at hend
      cases hmatch
      cases hend
      exact .inl ⟨rfl, hdenoted.trans (periodOf_none_right startDt)⟩
    | some stop =>
      rw [hs, he] at hmatch
      cases startDt with
      | none =>
        cases hmatch
        exact .inl ⟨rfl, hdenoted⟩
      | some a =>
        cases endDt with
        | none =>
          cases hmatch
          exact .inl ⟨rfl, hdenoted⟩
        | some b =>
          by_cases hab : a < b
          · simp only [if_pos hab] at hmatch
            cases hmatch
            exact .inr ⟨(start, stop), (a, b), rfl, hdenoted.trans (if_pos hab), rfl, rfl⟩
          · simp only [if_neg hab] at hmatch
            cases hmatch
            exact .inl ⟨rfl, hdenoted.trans (if_neg hab)⟩

/-- Whether the code zeroes the ledger for an accepted period. -/
def rollsTo (m : UsageMeter) (weekId newId : String) : Bool :=
  !isProvisionalIsoPeriod m.periodId weekId m.periodAuthority && newId ≠ m.periodId

namespace UsageMeter

variable (m : UsageMeter) (snap : CreditsSnapshot)

@[simp] theorem applyPeriod_hardStopOverride (p : String × String) :
    (m.applyPeriod snap p).hardStopOverride = m.hardStopOverride := by
  simp only [applyPeriod]
  split_ifs <;> rfl

/-- A period is rolled to when its id is another one and the stored id is not provisional. -/
theorem applyPeriod_weekUsed (p : String × String) :
    (m.applyPeriod snap p).weekUsed =
      if rollsTo m m.weekId (newPeriodId snap p) then 0 else m.weekUsed := by
  unfold applyPeriod rollsTo
  cases hprov : isProvisionalIsoPeriod m.periodId m.weekId m.periodAuthority with
  | true =>
    rw [if_pos (Or.inr rfl)]
    rfl
  | false =>
    have hsuper : m.periodAuthority = .supergrok := by
      cases ha : m.periodAuthority with
      | iso => simp [isProvisionalIsoPeriod, ha] at hprov
      | supergrok => rfl
    rw [if_neg (by simp [hsuper])]
    by_cases hid : newPeriodId snap p = m.periodId
    · simp [hid]
    · rw [if_pos ⟨hsuper, hid⟩]
      simp [hid, zeroWeekLedger]

/-- The part of a merge that touches the ledger is the period. -/
theorem mergeSnapshot_ok {period : Option (String × String)} {t : UsageMeter}
    (h : m.mergeSnapshot snap period = .ok t) :
    SameLedger (m.applyIdentity snap period) t := by
  obtain ⟨storedStart, -, hrest⟩ := except_bind_ok h
  split at hrest
  · cases hrest
    exact ⟨rfl, rfl⟩
  · cases hrest
    exact ⟨rfl, rfl⟩

end UsageMeter

inductive Call where
  | record (usage : Option TokenUsage) (estimatedIfMissing : Int)
  | applyCreditsSnapshot (snap : CreditsSnapshot)
  | setHardStopOverride (active : Bool)
  | recordMediaCall (kind : MediaKind)
  | refreshWindows
  | snapshot

/-- A call, the clock as it reads it, and whether its persist succeeds. -/
structure Visit where
  call : Call
  clock : Readings
  writes : Bool

section Runs

variable [UsageFloat] (settings : UsageSettings)

def perform (c : Visit) : MeterPy Unit :=
  match c.call with
  | .record usage estimated => do let _ ← record settings usage estimated c.clock c.writes
  | .applyCreditsSnapshot snap => do let _ ← applyCreditsSnapshot settings snap c.clock c.writes
  | .setHardStopOverride active => do let _ ← setHardStopOverride settings active c.clock c.writes
  | .recordMediaCall kind => do let _ ← recordMediaCall settings kind c.clock c.writes
  | .refreshWindows => refreshWindows settings c.clock c.writes
  | .snapshot => do let _ ← snapshot settings c.clock

def step (m : UsageMeter) (c : Visit) : UsageMeter := after (perform settings c m)

/-- The call raised and took back what it had changed. -/
def undone (m : UsageMeter) (c : Visit) : Bool :=
  match c.call, perform settings c m with
  | .snapshot, _ => false
  | _, .ok _ _ => false
  | _, .error _ _ => true

/-- The billable tokens of a call that is not undone. -/
def billed (c : Visit) : Nat :=
  match c.call with
  | .record usage estimated => (recordedTokens usage estimated).1
  | _ => 0

/-- A period boundary: another ISO week under ISO authority, or an accepted billing period of
other instants than the stored one. -/
def boundary (m : UsageMeter) (c : Visit) : Bool :=
  match m.periodAuthority, c.call with
  | .iso, _ => (windowIds c.clock.refresh settings.hourBlockMinutes).weekId ≠ m.weekId
  | .supergrok, .applyCreditsSnapshot snap =>
    snapshotIsOk snap &&
      (denotedPeriod snap).any (fun p => storedPeriod m ≠ (some p.1, some p.2))
  | .supergrok, _ => false

/-- The ledger after one more call. -/
def tally (m : UsageMeter) (total : Nat) (c : Visit) : Nat :=
  if undone settings m c then total
  else (if boundary settings m c then 0 else total) + billed c

/-- The billable tokens recorded since the last boundary of a run. -/
def ledger : UsageMeter → Nat → List Visit → Nat
  | _, total, [] => total
  | m, total, c :: calls => ledger (step settings m c) (tally settings m total c) calls

/-- The week counter is the ledger, a persist that raises changes nothing, and the override
changes by its own call only. -/
def LedgerHolds (m : UsageMeter) (calls : List Visit) : Prop :=
  (run (step settings) m calls).weekUsed = ledger settings m m.weekUsed calls ∧
    ∀ before c rest, calls = before ++ c :: rest →
      let s := run (step settings) m before
      (∀ e t, c.call ≠ .snapshot → perform settings c s = .error e t → t = s) ∧
        ((step settings s c).hardStopOverride ≠ s.hardStopOverride →
          ∃ active, c.call = .setHardStopOverride active)

/-- The code's test for a new period agrees with the instants the snapshot denotes. -/
def RollsTo (m : UsageMeter) (weekId : String) (snap : CreditsSnapshot) : Prop :=
  m.periodAuthority = .supergrok → snapshotIsOk snap →
    (denotedPeriod snap).all (fun p =>
      rollsTo m weekId (newPeriodId snap (snap.periodStart.getD "", snap.periodEnd.getD "")) ↔
        storedPeriod m ≠ (some p.1, some p.2))

instance (m : UsageMeter) (weekId : String) (snap : CreditsSnapshot) :
    Decidable (RollsTo m weekId snap) :=
  inferInstanceAs (Decidable (_ → _ → (denotedPeriod snap).all _ = true))

def RollsByInstants (m : UsageMeter) (c : Visit) : Prop :=
  match c.call with
  | .applyCreditsSnapshot snap =>
    RollsTo m (windowIds c.clock.refresh settings.hourBlockMinutes).weekId snap
  | _ => True

instance (m : UsageMeter) : ∀ c, Decidable (RollsByInstants settings m c)
  | ⟨.applyCreditsSnapshot snap, clock, _⟩ =>
    inferInstanceAs (Decidable
      (RollsTo m (windowIds clock.refresh settings.hourBlockMinutes).weekId snap))
  | ⟨.record _ _, _, _⟩ | ⟨.setHardStopOverride _, _, _⟩ | ⟨.recordMediaCall _, _, _⟩
  | ⟨.refreshWindows, _, _⟩ | ⟨.snapshot, _, _⟩ => isTrue trivial

variable {settings}

theorem committed_ok {clock : Readings} {writes : Bool} {m t : UsageMeter} {v : UsageSnapshot}
    (h : committed settings clock writes m = .ok v t) : SameLedger m t := by
  obtain ⟨m', u, hget, hsyncs⟩ := run_bind_ok h
  obtain ⟨ha, hu⟩ := get_returns hget
  rw [ha, hu] at hsyncs
  obtain ⟨synced, u, hsync, hsets⟩ := run_bind_ok hsyncs
  obtain ⟨hsynced, -⟩ := ofExcept_returns hsync
  obtain ⟨_, u, hset, hpersists⟩ := run_bind_ok hsets
  obtain rfl := set_returns hset
  obtain ⟨_, u, hpersist, hview⟩ := run_bind_ok hpersists
  obtain ⟨-, hu⟩ := ofExcept_returns hpersist
  obtain ⟨-, ht⟩ := ofExcept_returns hview
  have hsame := UsageMeter.syncHardStopFields_ok settings clock.sync m hsynced
  rw [ht, hu]
  exact hsame

theorem refreshWindows_ok {clock : Readings} {writes : Bool} {m t : UsageMeter}
    (h : refreshWindows settings clock writes m = .ok () t) :
    SameLedger (m.refreshed settings clock.refresh) t := by
  obtain ⟨m', u, hget, hsets⟩ := run_bind_ok (undoable_ok h)
  obtain ⟨ha, hu⟩ := get_returns hget
  rw [ha, hu] at hsets
  obtain ⟨_, u, hset, hrest⟩ := run_bind_ok hsets
  obtain rfl := set_returns hset
  by_cases hrolls : m.rolls settings clock.refresh
  · rw [if_pos hrolls] at hrest
    obtain ⟨m', u, hget, hsyncs⟩ := run_bind_ok hrest
    obtain ⟨ha, hu⟩ := get_returns hget
    rw [ha, hu] at hsyncs
    obtain ⟨synced, u, hsync, hsets⟩ := run_bind_ok hsyncs
    obtain ⟨hsynced, -⟩ := ofExcept_returns hsync
    obtain ⟨_, u, hset, hpersist⟩ := run_bind_ok hsets
    obtain rfl := set_returns hset
    obtain ⟨-, ht⟩ := ofExcept_returns hpersist
    rw [ht]
    exact UsageMeter.syncHardStopFields_ok settings clock.sync _ hsynced
  · rw [if_neg hrolls] at hrest
    cases hrest
    exact ⟨rfl, rfl⟩

variable (settings)

/-- What a call does before the hard stop fields are synced. -/
def acts (m : UsageMeter) (c : Visit) : Except PyErr UsageMeter :=
  match c.call with
  | .record usage estimated =>
    let tokens := recordedTokens usage estimated
    .ok ((m.refreshed settings c.clock.refresh).addTokens tokens.1 tokens.2 c.clock.stamp)
  | .applyCreditsSnapshot snap => (m.refreshed settings c.clock.refresh).applySnapshot snap
  | .setHardStopOverride active =>
    .ok ({ m with hardStopOverride := active }.refreshed settings c.clock.refresh)
  | .recordMediaCall _ | .refreshWindows | .snapshot => .ok (m.refreshed settings c.clock.refresh)

variable {settings}

theorem snapshot_after (clock : Readings) (m : UsageMeter) :
    after (snapshot settings clock m) = m.refreshed settings clock.refresh := by
  simp only [snapshot, run_bind, run_modify, run_get]
  exact after_ofExcept _ _

theorem record_ok {usage : Option TokenUsage} {estimated : Int} {clock : Readings} {writes : Bool}
    {m t : UsageMeter} {v : UsageSnapshot}
    (h : record settings usage estimated clock writes m = .ok v t) :
    SameLedger ((m.refreshed settings clock.refresh).addTokens (recordedTokens usage estimated).1
      (recordedTokens usage estimated).2 clock.stamp) t := by
  obtain ⟨_, u, hrefresh, hadds⟩ := run_bind_ok (undoable_ok h)
  obtain rfl := modify_returns hrefresh
  obtain ⟨_, u, hadd, hend⟩ := run_bind_ok hadds
  obtain rfl := modify_returns hadd
  exact committed_ok hend

theorem applyCreditsSnapshot_ok {snap : CreditsSnapshot} {clock : Readings} {writes : Bool}
    {m t : UsageMeter} {v : UsageSnapshot}
    (h : applyCreditsSnapshot settings snap clock writes m = .ok v t) :
    ∃ u, (m.refreshed settings clock.refresh).applySnapshot snap = .ok u ∧ SameLedger u t := by
  obtain ⟨_, u, hrefresh, hgets⟩ := run_bind_ok (undoable_ok h)
  obtain rfl := modify_returns hrefresh
  obtain ⟨m', u, hget, happlies⟩ := run_bind_ok hgets
  obtain ⟨ha, hu⟩ := get_returns hget
  rw [ha, hu] at happlies
  obtain ⟨merged, u, happly, hsets⟩ := run_bind_ok happlies
  obtain ⟨hmerged, -⟩ := ofExcept_returns happly
  obtain ⟨_, u, hset, hend⟩ := run_bind_ok hsets
  rw [set_returns hset] at hend
  exact ⟨merged, hmerged, committed_ok hend⟩

theorem setHardStopOverride_ok {active : Bool} {clock : Readings} {writes : Bool}
    {m t : UsageMeter} {v : UsageSnapshot}
    (h : setHardStopOverride settings active clock writes m = .ok v t) :
    SameLedger ({ m with hardStopOverride := active }.refreshed settings clock.refresh) t := by
  obtain ⟨_, u, hoverride, hrefreshes⟩ := run_bind_ok (undoable_ok h)
  obtain rfl := modify_returns hoverride
  obtain ⟨_, u, hrefresh, hend⟩ := run_bind_ok hrefreshes
  obtain rfl := modify_returns hrefresh
  exact committed_ok hend

theorem recordMediaCall_ok {kind : MediaKind} {clock : Readings} {writes : Bool}
    {m t : UsageMeter} {v : UsageSnapshot}
    (h : recordMediaCall settings kind clock writes m = .ok v t) :
    SameLedger (m.refreshed settings clock.refresh) t := by
  obtain ⟨_, u, hrefresh, hcounts⟩ := run_bind_ok (undoable_ok h)
  obtain rfl := modify_returns hrefresh
  obtain ⟨_, u, hcount, hend⟩ := run_bind_ok hcounts
  obtain rfl := modify_returns hcount
  have hsame := committed_ok hend
  obtain ⟨hweek, hoverride⟩ := (m.refreshed settings clock.refresh).countCall_same kind
  exact ⟨hsame.weekUsed.trans hweek, hsame.hardStopOverride.trans hoverride⟩

theorem snapshot_ok {clock : Readings} {m t : UsageMeter} {v : UsageSnapshot}
    (h : snapshot settings clock m = .ok v t) : t = m.refreshed settings clock.refresh := by
  have hafter := @snapshot_after _ settings clock m
  rw [h] at hafter
  exact hafter

theorem perform_ok {c : Visit} {m t : UsageMeter} (h : perform settings c m = .ok () t) :
    ∃ u, acts settings m c = .ok u ∧ SameLedger u t := by
  unfold perform at h
  unfold acts
  cases hc : c.call with
  | record usage estimated =>
    rw [hc] at h
    obtain ⟨v, hcall⟩ := ok_of_discard h
    exact ⟨_, rfl, record_ok hcall⟩
  | applyCreditsSnapshot snap =>
    rw [hc] at h
    obtain ⟨v, hcall⟩ := ok_of_discard h
    exact applyCreditsSnapshot_ok hcall
  | setHardStopOverride active =>
    rw [hc] at h
    obtain ⟨v, hcall⟩ := ok_of_discard h
    exact ⟨_, rfl, setHardStopOverride_ok hcall⟩
  | recordMediaCall kind =>
    rw [hc] at h
    obtain ⟨v, hcall⟩ := ok_of_discard h
    exact ⟨_, rfl, recordMediaCall_ok hcall⟩
  | refreshWindows =>
    rw [hc] at h
    exact ⟨_, rfl, refreshWindows_ok h⟩
  | snapshot =>
    rw [hc] at h
    obtain ⟨v, hcall⟩ := ok_of_discard h
    rw [snapshot_ok hcall]
    exact ⟨_, rfl, rfl, rfl⟩

/-- A call that raises takes back what it changed; only `snapshot` has nothing to take back. -/
theorem perform_error {c : Visit} {m t : UsageMeter} {e : PyErr} (hc : c.call ≠ .snapshot)
    (h : perform settings c m = .error e t) : t = m := by
  unfold perform at h
  cases hcall : c.call with
  | record usage estimated =>
    rw [hcall] at h
    exact undoable_error (error_of_discard h)
  | applyCreditsSnapshot snap =>
    rw [hcall] at h
    exact undoable_error (error_of_discard h)
  | setHardStopOverride active =>
    rw [hcall] at h
    exact undoable_error (error_of_discard h)
  | recordMediaCall kind =>
    rw [hcall] at h
    exact undoable_error (error_of_discard h)
  | refreshWindows =>
    rw [hcall] at h
    exact undoable_error h
  | snapshot => exact absurd hcall hc

/-- A call is undone as a whole, or it acts and leaves the ledger it acted on. -/
theorem step_spec (m : UsageMeter) (c : Visit) :
    (undone settings m c = true ∧ step settings m c = m) ∨
      (undone settings m c = false ∧
        ∃ u, acts settings m c = .ok u ∧ SameLedger u (step settings m c)) := by
  by_cases hc : c.call = .snapshot
  · refine .inr ⟨by simp [undone, hc], m.refreshed settings c.clock.refresh, ?_, ?_⟩
    · rw [acts, hc]
    · have hstep : step settings m c = m.refreshed settings c.clock.refresh := by
        rw [step, perform, hc]
        exact (after_bind_pure _ () m).trans (snapshot_after c.clock m)
      rw [hstep]
      exact ⟨rfl, rfl⟩
  · cases hp : perform settings c m with
    | ok a t =>
      refine .inr ⟨?_, ?_⟩
      · unfold undone
        rw [hp]
        cases c.call <;> rfl
      · rw [step, hp]
        exact perform_ok hp
    | error e t =>
      refine .inl ⟨?_, ?_⟩
      · unfold undone
        rw [hp]
        cases hcall : c.call with
        | snapshot => exact absurd hcall hc
        | _ => rfl
      · rw [step, hp]
        exact perform_error hc hp

omit [UsageFloat] in
theorem iso_or_supergrok (m : UsageMeter) :
    m.periodAuthority = .iso ∨ m.periodAuthority = .supergrok := by
  cases m.periodAuthority <;> simp

omit [UsageFloat] in
/-- A refresh zeroes the ledger at the boundaries of a call that brings no snapshot. -/
theorem refreshed_weekUsed_boundary (m : UsageMeter) (c : Visit)
    (hc : ∀ snap, c.call ≠ .applyCreditsSnapshot snap) :
    (m.refreshed settings c.clock.refresh).weekUsed =
      if boundary settings m c then 0 else m.weekUsed := by
  rw [UsageMeter.refreshed_weekUsed]
  obtain hiso | hsuper := iso_or_supergrok m
  · simp [boundary, hiso]
  · have hfalse : boundary settings m c = false := by
      unfold boundary
      rw [hsuper]
      cases hcall : c.call with
      | applyCreditsSnapshot snap => exact absurd hcall (hc snap)
      | _ => rfl
    simp [hfalse, hsuper]

omit [UsageFloat] in
theorem applySnapshot_weekUsed {m u : UsageMeter} {c : Visit} {snap : CreditsSnapshot}
    (hc : c.call = .applyCreditsSnapshot snap) (hrolls : RollsByInstants settings m c)
    (h : (m.refreshed settings c.clock.refresh).applySnapshot snap = .ok u) :
    u.weekUsed = if boundary settings m c then 0 else m.weekUsed := by
  obtain ⟨period, hperiod, hmerge⟩ := except_bind_ok h
  rw [(UsageMeter.mergeSnapshot_ok _ snap hmerge).weekUsed]
  have hrefreshed := UsageMeter.refreshed_weekUsed settings c.clock.refresh m
  unfold RollsByInstants at hrolls
  rw [hc] at hrolls
  unfold UsageMeter.applyIdentity
  obtain ⟨rfl, hdenoted⟩ | ⟨p, q, rfl, hdenoted, hstart, hend⟩ := parseablePeriod_ok hperiod
  · obtain hiso | hsuper := iso_or_supergrok m
    · simp [boundary, hiso, hrefreshed]
    · simp [boundary, hsuper, hc, hdenoted, hrefreshed]
  · cases hok : snapshotIsOk snap with
    | false =>
      obtain hiso | hsuper := iso_or_supergrok m
      · simp [boundary, hiso, hrefreshed]
      · simp [boundary, hsuper, hc, hok, hrefreshed]
    | true =>
      simp only [if_true, UsageMeter.applyPeriod_weekUsed, UsageMeter.refreshed_weekId]
      obtain hiso | hsuper := iso_or_supergrok m
      · simp [boundary, hiso, hrefreshed, rollsTo, isProvisionalIsoPeriod]
      · obtain ⟨hid, -, -⟩ := UsageMeter.refreshed_period settings c.clock.refresh m hsuper
        have hcond := hrolls hsuper hok
        rw [hdenoted, hstart, hend] at hcond
        have hrolled : rollsTo m (windowIds c.clock.refresh settings.hourBlockMinutes).weekId
            (newPeriodId snap p) = true ↔ storedPeriod m ≠ (some q.1, some q.2) :=
          of_decide_eq_true hcond
        have hsame : ∀ weekId newId, rollsTo (m.refreshed settings c.clock.refresh) weekId newId =
            rollsTo m weekId newId := by
          intro weekId newId
          simp [rollsTo, hid]
        have hboundary : boundary settings m c = true ↔ storedPeriod m ≠ (some q.1, some q.2) := by
          simp [boundary, hsuper, hc, hok, hdenoted]
        rw [hsame, hrefreshed]
        rw [if_congr hrolled rfl rfl, if_congr hboundary rfl rfl]
        simp [hsuper]

omit [UsageFloat] in
theorem acts_weekUsed {m u : UsageMeter} {c : Visit} (hrolls : RollsByInstants settings m c)
    (h : acts settings m c = .ok u) :
    u.weekUsed = (if boundary settings m c then 0 else m.weekUsed) + billed c := by
  unfold acts at h
  cases hc : c.call with
  | record usage estimated =>
    rw [hc] at h
    obtain rfl := Except.ok.inj h
    rw [UsageMeter.addTokens_weekUsed, refreshed_weekUsed_boundary m c (by simp [hc]), billed, hc]
  | applyCreditsSnapshot snap =>
    rw [hc] at h
    rw [applySnapshot_weekUsed hc hrolls h, billed, hc]
    rfl
  | setHardStopOverride active =>
    rw [hc] at h
    obtain rfl := Except.ok.inj h
    rw [billed, hc]
    have hsame := UsageMeter.refreshed_weekUsed settings c.clock.refresh
      { m with hardStopOverride := active }
    rw [hsame, ← UsageMeter.refreshed_weekUsed settings c.clock.refresh m,
      refreshed_weekUsed_boundary m c (by simp [hc])]
    rfl
  | recordMediaCall kind =>
    rw [hc] at h
    obtain rfl := Except.ok.inj h
    rw [refreshed_weekUsed_boundary m c (by simp [hc]), billed, hc]
    rfl
  | refreshWindows =>
    rw [hc] at h
    obtain rfl := Except.ok.inj h
    rw [refreshed_weekUsed_boundary m c (by simp [hc]), billed, hc]
    rfl
  | snapshot =>
    rw [hc] at h
    obtain rfl := Except.ok.inj h
    rw [refreshed_weekUsed_boundary m c (by simp [hc]), billed, hc]
    rfl

theorem step_weekUsed (m : UsageMeter) (c : Visit) (hrolls : RollsByInstants settings m c) :
    (step settings m c).weekUsed = tally settings m m.weekUsed c := by
  unfold tally
  obtain ⟨hundone, hstep⟩ | ⟨hkept, u, hacts, hsame⟩ := @step_spec _ settings m c
  · rw [hstep, if_pos hundone]
  · rw [hsame.weekUsed, acts_weekUsed hrolls hacts, hkept]
    rfl

/-- Only its own call writes the override. -/
theorem step_hardStopOverride (m : UsageMeter) (c : Visit)
    (hc : ∀ active, c.call ≠ .setHardStopOverride active) :
    (step settings m c).hardStopOverride = m.hardStopOverride := by
  obtain ⟨-, hstep⟩ | ⟨-, u, hacts, hsame⟩ := @step_spec _ settings m c
  · rw [hstep]
  · rw [hsame.hardStopOverride]
    unfold acts at hacts
    cases hcall : c.call with
    | record usage estimated =>
      rw [hcall] at hacts
      obtain rfl := Except.ok.inj hacts
      rw [UsageMeter.addTokens_hardStopOverride, UsageMeter.refreshed_hardStopOverride]
    | applyCreditsSnapshot snap =>
      rw [hcall] at hacts
      obtain ⟨period, -, hmerge⟩ := except_bind_ok hacts
      rw [(UsageMeter.mergeSnapshot_ok _ snap hmerge).hardStopOverride]
      unfold UsageMeter.applyIdentity
      cases period with
      | none => exact UsageMeter.refreshed_hardStopOverride settings c.clock.refresh m
      | some p => cases snapshotIsOk snap <;> simp
    | setHardStopOverride active => exact absurd hcall (hc active)
    | recordMediaCall kind =>
      rw [hcall] at hacts
      obtain rfl := Except.ok.inj hacts
      exact UsageMeter.refreshed_hardStopOverride settings c.clock.refresh m
    | refreshWindows =>
      rw [hcall] at hacts
      obtain rfl := Except.ok.inj hacts
      exact UsageMeter.refreshed_hardStopOverride settings c.clock.refresh m
    | snapshot =>
      rw [hcall] at hacts
      obtain rfl := Except.ok.inj hacts
      exact UsageMeter.refreshed_hardStopOverride settings c.clock.refresh m

/-- In a run whose snapshots roll the period exactly when they denote another one, the week
counter holds the tokens recorded since the last boundary; no call that raises leaves a trace,
and the override is changed by its own call only. -/
theorem usage_ledger_holds (m : UsageMeter) (calls : List Visit)
    (hrolls : Along (step settings) (RollsByInstants settings) m calls) :
    LedgerHolds settings m calls := by
  refine ⟨?_, ?_⟩
  · induction calls generalizing m with
    | nil => rfl
    | cons c calls ih =>
      obtain ⟨hhead, htail⟩ := hrolls
      have hrest := ih (step settings m c) htail
      rw [step_weekUsed m c hhead] at hrest
      exact hrest
  · intro before c rest hcalls s
    refine ⟨?_, ?_⟩
    · intro e t hc herror
      exact perform_error hc herror
    · intro hne
      by_contra hnot
      push Not at hnot
      exact hne (step_hardStopOverride s c hnot)

end Runs

attribute [local instance] basicUsageFloat

def sampleSettings : UsageSettings where
  enabled := true
  weeklyAllowedTokens := 5000000
  hourBlockMinutes := 60
  dayAllowedTokens := none
  hourAllowedTokens := none
  dayHardStopEnabled := false
  hourHardStopEnabled := false
  accountHardStopPercent := .decimal false 95 0 [] none
  creditsStaleAfterS := .decimal false 3600 0 [] none

/-- 2026-01-05T00:00:00Z. -/
def sampleNow : Instant := ⟨63903168000000000, by decide⟩

def sampleClock : Readings := ⟨sampleNow, sampleNow, sampleNow, sampleNow⟩

def sampleSnapshot (periodStart periodEnd : String) : CreditsSnapshot where
  creditUsagePercent := none
  periodStart := some periodStart
  periodEnd := some periodEnd
  periodId := none
  periodType := none
  isUnified := none
  productUsage := none
  fetchedAt := none
  status := some "ok"
  detail := none
  ok := none

def sampleRecord (writes : Bool) : Visit := ⟨.record (some ⟨60, 40, 100, 0⟩) 0, sampleClock, writes⟩

def sampleApply (periodStart periodEnd : String) : Visit :=
  ⟨.applyCreditsSnapshot (sampleSnapshot periodStart periodEnd), sampleClock, true⟩

/-- A period adopted, delivered again, and rolled, with a failed record in between. -/
def sampleCalls : List Visit :=
  [sampleRecord true,
    sampleApply "2026-01-01T00:00:00Z" "2026-01-08T00:00:00Z",
    sampleRecord false,
    sampleApply "2026-01-01T00:00:00Z" "2026-01-08T00:00:00Z",
    sampleRecord true,
    sampleApply "2026-01-08T00:00:00Z" "2026-01-15T00:00:00Z",
    sampleRecord true]

theorem usage_ledger_holds_sample :
    LedgerHolds sampleSettings (.new sampleSettings sampleNow) sampleCalls :=
  usage_ledger_holds (.new sampleSettings sampleNow) sampleCalls (by decide +kernel)

/-- The adopted period, delivered again with `+00:00` for `Z`, zeroes the ledger. -/
theorem respelled_period_zeroes_ledger :
    ¬∀ calls, LedgerHolds sampleSettings (.new sampleSettings sampleNow) calls := by
  intro h
  have hledger := (h [sampleRecord true,
    sampleApply "2026-01-01T00:00:00Z" "2026-01-08T00:00:00Z",
    sampleApply "2026-01-01T00:00:00+00:00" "2026-01-08T00:00:00+00:00"]).1
  exact absurd hledger (by decide +kernel)

end Elyra.Llm
