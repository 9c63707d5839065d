import Elyra.Ladder.Cascade
import Elyra.Ladder.Rebuild

namespace Elyra.Ladder

open Json Memory

section Budget

variable [PyCoerce] [LadderDigest] {out : Outside} {settings : LadderSettings}

/-- No check of a cascade falls between its own budget and the deadline. -/
def EndsInTime (out : Outside) (settings : LadderSettings) (args : CascadeArgs) (now : Instant)
    (start budget deadline : Int) : List PeriodScale → CascadeState → LadderEnv → Prop
  | [], _, _ => True
  | p :: rest, c, e =>
    ¬(budget ≤ out.clock e.asked - start ∧ out.clock e.asked - start < deadline) ∧
      ∀ next t, cascadeLevel out settings args now p c { e with asked := e.asked + 1 } = .ok next t →
        out.clock e.asked - start < budget →
          scaleAllowedForInstanceAge settings out.createdAt now (countTipSummaries e.store) p →
            EndsInTime out settings args now start budget deadline rest next t

section Cascade

variable {args : CascadeArgs} {now : Instant} {start budget deadline : Int}
  {scales : List PeriodScale} {c c' : CascadeState} {e t : LadderEnv}

theorem cascadeLoop_cons (p : PeriodScale) (rest : List PeriodScale) (c : CascadeState)
    (e : LadderEnv) : cascadeLoop out settings args now start budget (p :: rest) c e =
      if budget ≤ out.clock e.asked - start then
        .ok (c, some .budget) { e with asked := e.asked + 1 }
      else if scaleAllowedForInstanceAge settings out.createdAt now (countTipSummaries e.store) p then
        match cascadeLevel out settings args now p c { e with asked := e.asked + 1 } with
        | .ok next t => cascadeLoop out settings args now start budget rest next t
        | .error err t => .error err t
      else .ok (c, some .instanceAge) { e with asked := e.asked + 1 } := by
  rw [cascadeLoop, run_bind, ask]
  dsimp only
  rw [run_ite]
  split_ifs with hbudget hallowed
  · rfl
  · rw [run_bind, readStore]
    dsimp only
    rw [if_pos hallowed, run_bind]
    cases cascadeLevel out settings args now p c { e with asked := e.asked + 1 } <;> rfl
  · rw [run_bind, readStore]
    dsimp only
    rw [if_neg hallowed]
    rfl

/-- A cascade that stops on its budget is in time when its last check was. -/
theorem cascadeLoop_budget (deadline : Int)
    (h : cascadeLoop out settings args now start budget scales c e = .ok (c', some .budget) t) :
    EndsInTime out settings args now start budget deadline scales c e ↔
      deadline ≤ out.clock (t.asked - 1) - start := by
  induction scales generalizing c e with
  | nil => cases h
  | cons p rest ih =>
    rw [cascadeLoop_cons] at h
    rw [EndsInTime]
    split_ifs at h with hbudget hallowed
    · cases h
      constructor
      · rintro ⟨hcheck, -⟩
        exact Int.not_lt.mp fun hlt => hcheck ⟨hbudget, hlt⟩
      · intro hle
        refine ⟨fun hcheck => absurd hcheck.2 (Int.not_lt.mpr hle), ?_⟩
        intro next t _ hlt
        exact absurd hbudget (Int.not_le.mpr hlt)
    · cases hlevel : cascadeLevel out settings args now p c { e with asked := e.asked + 1 } with
      | error err u =>
        rw [hlevel] at h
        cases h
      | ok next u =>
        rw [hlevel] at h
        have hrest := ih h
        constructor
        · rintro ⟨-, hnext⟩
          exact hrest.mp (hnext next u rfl (Int.not_le.mp hbudget) hallowed)
        · intro hle
          refine ⟨fun hcheck => hbudget hcheck.1, ?_⟩
          intro next' u' hrun _ _
          cases hrun
          exact hrest.mpr hle
    · cases h

theorem cascadeLoop_other {reason : Option StopReason}
    (h : cascadeLoop out settings args now start budget scales c e = .ok (c', reason) t)
    (hreason : reason ≠ some .budget) :
    EndsInTime out settings args now start budget deadline scales c e := by
  induction scales generalizing c e with
  | nil => trivial
  | cons p rest ih =>
    rw [cascadeLoop_cons] at h
    rw [EndsInTime]
    split_ifs at h with hbudget hallowed
    · cases h
      exact absurd rfl hreason
    · refine ⟨fun hcheck => hbudget hcheck.1, ?_⟩
      intro next u hrun _ _
      rw [hrun] at h
      exact ih h
    · refine ⟨fun hcheck => hbudget hcheck.1, ?_⟩
      intro next u _ _ hyes
      exact absurd hyes hallowed

end Cascade

section Hours

variable {limits : RebuildLimits} {wStart : Instant} {c c' : RebuildState} {e t : LadderEnv}

/-- A stop on the budget came when the budget was used. -/
def OnTime (budget : Int) (stopped : Option (StopReason × Int)) : Prop :=
  ∀ elapsed, stopped = some (.budget, elapsed) → budget ≤ elapsed

omit [PyCoerce] [LadderDigest] in
theorem onTime_none (budget : Int) : OnTime budget none := by
  intro elapsed h
  cases h

/-- The cascade of an hour, called at the state, is not cut off before the deadline. -/
def CascadeInTime (out : Outside) (settings : LadderSettings) (limits : RebuildLimits)
    (wStart : Instant) (c : RebuildState) (e : LadderEnv) : Prop :=
  EndsInTime out settings (rebuildCascadeArgs limits wStart (out.clock e.asked) c.callsLeft)
    limits.now limits.t0 (max 0 (limits.budget - (out.clock e.asked - limits.t0))) limits.budget
    PeriodScale.coarser { callsLeft := c.callsLeft, llm := limits.useLlm }
    { e with asked := e.asked + 1 }

/-- The cascade of an hour stops on time exactly when its checks are in time. -/
theorem rebuildCascade_spec {stop : Bool} (hc : c.stopped = none)
    (h : rebuildCascade out settings limits wStart c e = .ok (c', stop) t) :
    (stop = false → c'.stopped = none ∧ CascadeInTime out settings limits wStart c e) ∧
      (stop = true → (OnTime limits.budget c'.stopped ↔
        CascadeInTime out settings limits wStart c e)) := by
  rw [rebuildCascade, run_bind, ask] at h
  dsimp only at h
  obtain ⟨report, u, hcascade, h⟩ := run_bind_ok h
  rw [cascadeFromHour] at hcascade
  obtain ⟨start, v, hstart, hcascade⟩ := run_bind_ok hcascade
  cases hstart
  obtain ⟨now, v, hnow, hcascade⟩ := run_bind_ok hcascade
  cases hnow
  obtain ⟨⟨cas, stopped⟩, v, hloop, hcascade⟩ := run_bind_ok hcascade
  cases hcascade
  cases stopped with
  | none =>
    cases h
    constructor
    · intro _
      exact ⟨hc, cascadeLoop_other hloop (by decide)⟩
    · intro hfalse
      cases hfalse
  | some reason =>
    cases reason with
    | budget =>
      cases h
      refine ⟨fun hfalse => absurd hfalse (by decide), fun _ => ?_⟩
      have hlast := cascadeLoop_budget limits.budget hloop
      refine Iff.trans ?_ hlast.symm
      show OnTime limits.budget (some (c.stopped.getD _)) ↔ _
      rw [hc]
      constructor
      · intro hon
        exact hon _ rfl
      · intro hle elapsed helapsed
        cases helapsed
        exact hle
    | instanceAge =>
      cases h
      constructor
      · intro _
        exact ⟨hc, cascadeLoop_other hloop (by decide)⟩
      · intro hfalse
        cases hfalse
    | llmCap =>
      cases h
      refine ⟨fun hfalse => absurd hfalse (by decide), fun _ => ?_⟩
      refine ⟨fun _ => cascadeLoop_other hloop (by decide), fun _ => ?_⟩
      show OnTime limits.budget (some (c.stopped.getD _))
      rw [hc]
      intro elapsed helapsed
      cases helapsed

/-- Where an hour leads: only a spent budget ends the loop on the budget. -/
def HourEnd.Fine (budget : Int) : HourEnd → Prop
  | .next c => c.stopped = none
  | .finish c => OnTime budget c.stopped
  | .cascade c => c.stopped = none

omit [LadderDigest] in
theorem bookRebuild_stopped {a : Atom} {usedLlm : Bool}
    (h : bookRebuild limits usedLlm a c e = .ok c' t) : c'.stopped = c.stopped := by
  rw [bookRebuild, run_bind, modifyState] at h
  obtain ⟨left, u, -, h⟩ := run_bind_ok h
  cases h
  rfl

theorem rebuildHour_fine {r : HourEnd} (hc : c.stopped = none)
    (h : rebuildHour out settings limits wStart c e = .ok r t) : r.Fine limits.budget := by
  rw [rebuildHour, run_bind, ask] at h
  dsimp only at h
  rw [run_ite] at h
  split_ifs at h with hbudget hcap
  · cases h
    show OnTime limits.budget (some (c.stopped.getD _))
    rw [hc]
    intro elapsed helapsed
    cases helapsed
    exact hbudget
  · cases h
    show OnTime limits.budget (some (c.stopped.getD _))
    rw [hc]
    intro elapsed helapsed
    cases helapsed
  · obtain ⟨⟨first, wEnd⟩, u, -, h⟩ := run_bind_ok h
    obtain ⟨nothing, u, -, h⟩ := run_bind_ok h
    cases nothing with
    | true =>
      cases h
      exact hc
    | false =>
      obtain ⟨before, u, -, h⟩ := run_bind_ok h
      obtain ⟨refreshed, u, -, h⟩ := run_bind_ok h
      cases refreshed with
      | error err =>
        cases h
        exact hc
      | ok written =>
        cases written with
        | none =>
          cases h
          exact hc
        | some a =>
          obtain ⟨booked, u, hbook, h⟩ := run_bind_ok h
          cases h
          exact (bookRebuild_stopped hbook).trans hc

/-- Along the hours of a rebuild, every cascade it comes to is in time. -/
def HoursInTime (out : Outside) (settings : LadderSettings) (limits : RebuildLimits) :
    List Instant → RebuildState → LadderEnv → Prop
  | [], _, _ => True
  | wStart :: rest, c, e =>
    match rebuildHour out settings limits wStart c e with
    | .ok (.next c) t => HoursInTime out settings limits rest c t
    | .ok (.cascade c) t => CascadeInTime out settings limits wStart c t ∧
        ∀ next u, rebuildCascade out settings limits wStart c t = .ok (next, false) u →
          HoursInTime out settings limits rest next u
    | _ => True

theorem rebuildHours_iff {hours : List Instant} (hc : c.stopped = none)
    (h : rebuildHours out settings limits hours c e = .ok c' t) :
    OnTime limits.budget c'.stopped ↔ HoursInTime out settings limits hours c e := by
  induction hours generalizing c e with
  | nil =>
    cases h
    rw [hc]
    exact ⟨fun _ => trivial, fun _ => onTime_none _⟩
  | cons wStart rest ih =>
    rw [rebuildHours] at h
    obtain ⟨r, u, hhour, h⟩ := run_bind_ok h
    have hfine := rebuildHour_fine hc hhour
    rw [HoursInTime, hhour]
    cases r with
    | finish c₁ =>
      cases h
      exact ⟨fun _ => trivial, fun _ => hfine⟩
    | next c₁ => exact ih hfine h
    | cascade c₁ =>
      obtain ⟨⟨c₂, stop⟩, v, hcascade, h⟩ := run_bind_ok h
      obtain ⟨hgoes, hstops⟩ := rebuildCascade_spec hfine hcascade
      dsimp only
      cases stop with
      | true =>
        cases h
        rw [hstops rfl]
        refine ⟨fun hin => ⟨hin, ?_⟩, fun hin => hin.1⟩
        intro next w hnext
        rw [hcascade] at hnext
        cases hnext
      | false =>
        obtain ⟨hnone, hin⟩ := hgoes rfl
        rw [ih hnone h]
        constructor
        · intro hrest
          refine ⟨hin, ?_⟩
          intro next w hnext
          rw [hcascade] at hnext
          cases hnext
          exact hrest
        · rintro ⟨-, hrest⟩
          exact hrest c₂ v hcascade

end Hours

section Coarse

variable {limits : RebuildLimits} {scale : PeriodScale} {c c' : RebuildState} {e t : LadderEnv}

theorem rebuildScale_stopped (h : rebuildScale out settings limits scale c e = .ok c' t) :
    c'.stopped = c.stopped := by
  rw [rebuildScale] at h
  obtain ⟨⟨first, wEnd⟩, u, -, h⟩ := run_bind_ok h
  obtain ⟨before, u, -, h⟩ := run_bind_ok h
  obtain ⟨refreshed, u, -, h⟩ := run_bind_ok h
  cases refreshed with
  | error err =>
    cases h
    rfl
  | ok written =>
    cases written with
    | none =>
      cases h
      rfl
    | some a =>
      obtain ⟨wrote, u, -, h⟩ := run_bind_ok h
      cases wrote with
      | false =>
        cases h
        rfl
      | true =>
        obtain ⟨key, u, -, h⟩ := run_bind_ok h
        exact (bookRebuild_stopped h).trans rfl

/-- The coarse loop keeps an earlier stop, and stops on the budget only when it is used. -/
theorem rebuildCoarse_onTime {scales : List PeriodScale}
    (h : rebuildCoarse out settings limits scales c e = .ok c' t) :
    OnTime limits.budget c'.stopped ↔ OnTime limits.budget c.stopped := by
  induction scales generalizing c e with
  | nil =>
    cases h
    exact Iff.rfl
  | cons scale rest ih =>
    rw [rebuildCoarse, run_bind, readStore] at h
    dsimp only at h
    rw [run_ite] at h
    split_ifs at h with hallowed
    · rw [run_bind, ask] at h
      dsimp only at h
      rw [run_ite] at h
      split_ifs at h with hbudget
      · cases h
        rw [RebuildState.stop]
        cases hstopped : c.stopped with
        | some stopped => exact Iff.rfl
        | none =>
          refine ⟨fun _ => onTime_none _, ?_⟩
          intro _ elapsed helapsed
          cases helapsed
          exact hbudget
      · obtain ⟨next, u, hscale, h⟩ := run_bind_ok h
        rw [ih h, rebuildScale_stopped hscale]
    · exact ih h

end Coarse

/-- Every cascade that a rebuild comes to is in time. -/
def RebuildInTime (out : Outside) (settings : LadderSettings) (args : RebuildArgs)
    (e : LadderEnv) : Prop :=
  match openRebuild out settings args e with
  | .ok (limits, starts, start, _) t => HoursInTime out settings limits starts start t
  | .error _ _ => True

/-- What a call that returns reports. -/
def Reported (P : RebuildReport → Prop) : EStateM.Result PyErr LadderEnv RebuildReport → Prop
  | .ok report _ => P report
  | .error _ _ => True

omit [PyCoerce] [LadderDigest] in
theorem openRebuild_spec {args : RebuildArgs} {e t : LadderEnv} {limits : RebuildLimits}
    {starts : List Instant} {start : RebuildState} {hours : Int}
    (h : openRebuild out settings args e = .ok (limits, starts, start, hours) t) :
    limits.budget = rebuildBudget settings args ∧ start.stopped = none := by
  rw [openRebuild] at h
  obtain ⟨now, u, -, h⟩ := run_bind_ok h
  dsimp only at h
  obtain ⟨t0, u, -, h⟩ := run_bind_ok h
  obtain ⟨⟨curStart, curEnd⟩, u, -, h⟩ := run_bind_ok h
  obtain ⟨hourStarts, u, -, h⟩ := run_bind_ok h
  cases h
  exact ⟨rfl, rfl⟩

/-- A rebuild that reports a spent budget has spent it, exactly when no check of its cascades
falls between what was left of the budget and the budget itself. -/
theorem rebuild_budget_iff (out : Outside) (settings : LadderSettings) (args : RebuildArgs)
    (e : LadderEnv) :
    Reported (fun report => OnTime (rebuildBudget settings args) report.stopped ↔
      RebuildInTime out settings args e) (rebuildEpisodicSummaries out settings args e) := by
  cases hrun : rebuildEpisodicSummaries out settings args e with
  | error err t => trivial
  | ok report t =>
    rw [rebuildEpisodicSummaries] at hrun
    obtain ⟨⟨limits, starts, start, hours⟩, u, hopen, hrun⟩ := run_bind_ok hrun
    obtain ⟨hbudget, hnone⟩ := openRebuild_spec hopen
    obtain ⟨c₁, v, hhours, hrun⟩ := run_bind_ok hrun
    obtain ⟨c₂, w, hcoarse, hrun⟩ := run_bind_ok hrun
    cases hrun
    show OnTime (rebuildBudget settings args) c₂.stopped ↔ RebuildInTime out settings args e
    rw [← hbudget, rebuildCoarse_onTime hcoarse, rebuildHours_iff hnone hhours, RebuildInTime, hopen]

end Budget

section Sample

/-- Digests that are the bodies themselves. -/
@[reducible] def plainDigest : LadderDigest := ⟨id, id, id⟩

attribute [local instance] basicCoerce plainDigest

/-- A clock that reads 60 ms after the first hour is refreshed, then 200 ms after its cascade. -/
def sampleClock (n : Nat) : Int := if n ≤ 1 then 0 else if n ≤ 5 then 60000 else 200000

def sampleOutside : Outside where
  answers := fun _ => .text ""
  packRaises := fun _ => none
  clock := sampleClock
  putRaises := fun _ => false
  today := fun _ => firstInstant
  createdAt := none

def sampleRebuild : RebuildArgs where
  now := some ⟨7200000000, by decide⟩
  maxHours := some 1
  maxMicros := some 100000

def stoppedOf : EStateM.Result PyErr LadderEnv RebuildReport → Option (StopReason × Int)
  | .ok report _ => report.stopped
  | .error _ _ => none

/-- With 40 ms of 100 left, a cascade is cut off at once: the 60 ms used are counted twice. -/
theorem rebuild_stops_early :
    stoppedOf (rebuildEpisodicSummaries sampleOutside
      { defaultLadderSettings with ladderSkipEmpty := false } sampleRebuild
      ⟨⟨defaultMemorySettings, .empty, .empty, ⟨[], .empty⟩⟩, {}, 0, 0⟩) = some (.budget, 60000) ∧
    rebuildBudget defaultLadderSettings sampleRebuild = 100000 := by
  refine ⟨?_, rfl⟩
  decide +kernel

end Sample
end Elyra.Ladder
