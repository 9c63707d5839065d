import Elyra.Ladder.ClosedHours

namespace Elyra.Ladder

open Json Memory

/-- Times are microseconds. -/
structure RebuildArgs where
  llm : Bool := false
  now : Option Instant := none
  maxHours : Option Int := none
  maxMicros : Option Int := none
  maxLlmCalls : Option Int := none

/-- An entry of `cascade_notes`. -/
inductive RebuildNote where
  | refreshed (key : String)
  | hourFailed (wStart : Instant) (err : PyErr)
  | scaleFailed (scale : PeriodScale) (err : PyErr)

/-- What the loops of a rebuild carry; with the reason to stop, the elapsed time of the check that
stopped. -/
structure RebuildState where
  callsLeft : Int
  refreshed1h : List String := []
  skippedEmpty1h : List String := []
  notes : List RebuildNote := []
  stopped : Option (StopReason × Int) := none

namespace RebuildState

def note (n : RebuildNote) (c : RebuildState) : RebuildState := { c with notes := c.notes ++ [n] }

def skip (wStart : Instant) (c : RebuildState) : RebuildState :=
  { c with skippedEmpty1h := c.skippedEmpty1h ++ [isoZ wStart] }

/-- `stopped_reason or reason`. -/
def stop (reason : StopReason) (elapsed : Int) (c : RebuildState) : RebuildState :=
  { c with stopped := some (c.stopped.getD (reason, elapsed)) }

end RebuildState

/-- What a rebuild is given: whether the model is used, its clock, its budget and the time. -/
structure RebuildLimits where
  useLlm : Bool
  t0 : Int
  budget : Int
  now : Instant

structure RebuildReport where
  hoursRequested : Int
  refreshed1h : List String
  skippedEmpty1h : List String
  notes : List RebuildNote
  stopped : Option (StopReason × Int)
  callsLeft : Int
  writeSourceCounts : Dict String Int
  elapsed : Int
  allowed : List PeriodScale

/-- Where the refresh of an hour leads: the next hour, the end of the loop, or the cascade. -/
inductive HourEnd where
  | next (c : RebuildState)
  | finish (c : RebuildState)
  | cascade (c : RebuildState)

/-- Starts of the `n` closed hours before the current one, oldest first. -/
def closedStarts (curStart : Instant) (n : Nat) : Except PyErr (List Instant) := do
  let starts ← (List.range n).mapM fun i => do
    match Instant.ofMicros ((curStart.val : Int) - (i + 1) * microsPerHour) with
    | none => throw PyErr.overflowError
    | some t => return (← windowBounds .h1 t).1
  return sortBy isoZ starts.dedup

section Rebuild

variable [PyCoerce] [LadderDigest] (out : Outside) (settings : LadderSettings)

/-- Both loops ask for the model while calls are left. -/
def rebuildRefresh (limits : RebuildLimits) (preferChildren skipEmpty : Bool) (callsLeft : Int) :
    RefreshArgs :=
  let useLlm := limits.useLlm && decide (0 < callsLeft)
  { preferChildren, skipEmpty, useLlm, maxPasses := if useLlm then min 2 callsLeft else 1
    force := true }

/-- An hour with no source and no tip is passed over. -/
def nothingToRebuild (wStart wEnd : Instant) (s : JsonlMemoryStore) : Except PyErr Bool := do
  let (sources, _) ← collectWindowSources s .h1 wStart wEnd false
  if settings.ladderSkipEmpty && decide (sources = []) then
    return (← resolveTip s .h1 wStart wEnd).isNone
  else return false

/-- The books of a refresh that wrote. -/
def bookRebuild (limits : RebuildLimits) (usedLlm : Bool) (a : Atom) (c : RebuildState) :
    LadderPy RebuildState := do
  modifyState (recordWriteSource a)
  let left ← countLlmUsageFromAtom a c.callsLeft true limits.now usedLlm
  return { c with callsLeft := left }

def rebuildHour (limits : RebuildLimits) (wStart : Instant) (c : RebuildState) :
    LadderPy HourEnd := do
  let clock ← ask out.clock
  let elapsed := clock - limits.t0
  if limits.budget ≤ elapsed then return .finish (c.stop .budget elapsed)
  else if limits.useLlm && decide (c.callsLeft ≤ 0) then return .finish (c.stop .llmCap elapsed)
  else
    let (_, wEnd) ← ofExcept (windowBounds .h1 wStart)
    if ← readStore (nothingToRebuild settings wStart wEnd) then return .next (c.skip wStart)
    else
      let before ← readStore fun s => resolveTip s .h1 wStart wEnd
      -- the refresh of an hour that has a tip writes even without sources
      let args := rebuildRefresh limits false (before.isNone && settings.ladderSkipEmpty) c.callsLeft
      match ← attempt (refreshWindow out settings args .h1 wStart) with
      | .error err => return .next (c.note (.hourFailed wStart err))
      | .ok none => return .next (c.skip wStart)
      | .ok (some a) =>
        let booked ← bookRebuild limits args.useLlm a
          { c with refreshed1h := c.refreshed1h ++ [isoZ wStart] }
        return .cascade booked

/-- The cascade is given what is left of the budget and the start of the whole call. -/
def rebuildCascadeArgs (limits : RebuildLimits) (wStart : Instant) (clock callsLeft : Int) :
    CascadeArgs where
  hourStart := wStart
  llm := limits.useLlm
  maxMicros := some (max 0 (limits.budget - (clock - limits.t0)))
  t0 := some limits.t0
  llmCallsLeft := some callsLeft
  tracked := true
  now := some limits.now
  force := true

/-- The elapsed time that the cascade compared last: it asks the clock once more for its report. -/
def lastCompared (limits : RebuildLimits) : LadderPy Int := fun e =>
  .ok (out.clock (e.asked - 2) - limits.t0) e

/-- The cascade of a refreshed hour; the flag says that the loop breaks. -/
def rebuildCascade (limits : RebuildLimits) (wStart : Instant) (c : RebuildState) :
    LadderPy (RebuildState × Bool) := do
  let clock ← ask out.clock
  let report ← cascadeFromHour out settings (rebuildCascadeArgs limits wStart clock c.callsLeft)
  let elapsed ← lastCompared out limits
  let c := { c with
    callsLeft := report.callsLeft
    notes := c.notes ++ report.refreshed.map .refreshed }
  match report.stopped with
  | some .budget => return (c.stop .budget elapsed, true)
  | some .llmCap => return (c.stop .llmCap elapsed, true)
  | _ => return (c, false)

def rebuildHours (limits : RebuildLimits) : List Instant → RebuildState → LadderPy RebuildState
  | [], c => return c
  | wStart :: rest, c => do
    match ← rebuildHour out settings limits wStart c with
    | .finish c => return c
    | .next c => rebuildHours limits rest c
    | .cascade c => do
      let (c, stop) ← rebuildCascade out settings limits wStart c
      if stop then return c else rebuildHours limits rest c

/-- `scale:start` of the window of a written tip. -/
def writtenKey (scale : PeriodScale) (now : Instant) (a : Atom) : Except PyErr String := do
  let start ← if missing a.windowStart then pure (isoZ now) else toIsoZ (a.windowStart.getD "")
  return scale.text ++ ":" ++ start

/-- The refresh of an open coarser window. -/
def rebuildScale (limits : RebuildLimits) (scale : PeriodScale) (c : RebuildState) :
    LadderPy RebuildState := do
  let args := rebuildRefresh limits true settings.ladderSkipEmpty c.callsLeft
  -- the tip is looked up at the time itself, not at the start of its window
  let (_, wEnd) ← ofExcept (windowBounds scale limits.now)
  let before ← readStore fun s => resolveTip s scale limits.now wEnd
  match ← attempt (refreshWindow out settings args scale limits.now) with
  | .error err => return c.note (.scaleFailed scale err)
  | .ok none => return c
  | .ok (some a) =>
    if ← ofExcept (refreshWrote before a) then
      let key ← ofExcept (writtenKey scale limits.now a)
      bookRebuild limits args.useLlm a (c.note (.refreshed key))
    else return c

/-- The open coarser tips, covering spans of empty hours that never cascaded. -/
def rebuildCoarse (limits : RebuildLimits) : List PeriodScale → RebuildState → LadderPy RebuildState
  | [], c => return c
  | scale :: rest, c => do
    let tips ← readStore fun s => .ok (countTipSummaries s)
    if scaleAllowedForInstanceAge settings out.createdAt limits.now tips scale then
      let clock ← ask out.clock
      let elapsed := clock - limits.t0
      if limits.budget ≤ elapsed then return c.stop .budget elapsed
      else
        let c ← rebuildScale out settings limits scale c
        rebuildCoarse limits rest c
    else rebuildCoarse limits rest c

/-- The budget of a call. -/
def rebuildBudget (args : RebuildArgs) : Int :=
  args.maxMicros.getD (1000 * settings.ladderRebuildMaxMs)

/-- `now if now is not None else datetime.now(UTC)`. -/
def timeOf : Option Instant → LadderPy Instant
  | some now => pure now
  | none => ask out.today

/-- What a call reads before its loops: its limits, the hours and the calls left. -/
def openRebuild (args : RebuildArgs) :
    LadderPy (RebuildLimits × List Instant × RebuildState × Int) := do
  let now ← timeOf out args.now
  let hours := max 1 (min (args.maxHours.getD settings.ladderRebuildMaxHours) 168)
  let calls := max 0 (args.maxLlmCalls.getD settings.ladderRebuildMaxLlmCalls)
  let t0 ← ask out.clock
  let (curStart, _) ← ofExcept (windowBounds .h1 now)
  let starts ← ofExcept (closedStarts curStart hours.toNat)
  let limits : RebuildLimits :=
    ⟨args.llm && settings.modeLlm, t0, rebuildBudget settings args, now⟩
  return (limits, starts, { callsLeft := calls }, hours)

def finishRebuild (now : Instant) (c : RebuildState) (st : LadderState) : LadderState :=
  { st with
    lastHourlyProcess := some (isoZ now)
    lastClosed1hProcessed := c.refreshed1h.getLast?.or st.lastClosed1hProcessed }

/-- Operator force-rebuild: rewrite recent closed `1h` tips and cascade coarser. -/
def rebuildEpisodicSummaries (args : RebuildArgs) : LadderPy RebuildReport := do
  let (limits, starts, start, hours) ← openRebuild out settings args
  let c ← rebuildHours out settings limits starts start
  let c ← rebuildCoarse out settings limits PeriodScale.coarser c
  modifyState (finishRebuild limits.now c)
  let e ← get
  let clock ← ask out.clock
  let tips ← readStore fun s => .ok (countTipSummaries s)
  return {
    hoursRequested := hours
    refreshed1h := c.refreshed1h
    skippedEmpty1h := c.skippedEmpty1h
    notes := c.notes
    stopped := c.stopped
    callsLeft := c.callsLeft
    writeSourceCounts := e.state.writeSourceCounts
    elapsed := clock - limits.t0
    allowed := allowedScales settings out.createdAt limits.now tips }

end Rebuild
end Elyra.Ladder
