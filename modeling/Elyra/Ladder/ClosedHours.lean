import Elyra.Ladder.Cascade

namespace Elyra.Ladder

open Json Memory

def microsPerHour : Nat := 3600000000

/-- Windows backward from the one that starts at `start`, oldest first. -/
def windowsBack (scale : PeriodScale) : Nat → Instant → Except PyErr (List (Instant × Instant))
  | 0, _ => .ok []
  | n + 1, start => do
    let (wStart, wEnd) ← windowBounds scale start
    -- one microsecond before the window lies in the previous one
    if wStart.val = 0 then throw .overflowError
    else
      let before ← windowsBack scale n ⟨wStart.val - 1, Nat.lt_of_le_of_lt (Nat.sub_le _ _) wStart.isLt⟩
      return before ++ [(wStart, wEnd)]

/-- `windows_in_horizon` with a number of windows. -/
def windowsInHorizon (scale : PeriodScale) (now : Instant) (nWindows : Int) :
    Except PyErr (List (Instant × Instant)) := do
  let (start, _) ← windowBounds scale now
  windowsBack scale (max 1 nWindows).toNat start

/-- `parse_iso_z` with `except (TypeError, ValueError)`: an `OverflowError` is not caught. -/
def parsedHour (text : String) : Except PyErr (Option Instant) :=
  match utcOf text with
  | .ok t => .ok (some t)
  | .error (.valueError _) | .error .typeError => .ok none
  | .error err => .error err

def parsedHours (names : List String) : Except PyErr (List Instant) := do
  return (← names.mapM parsedHour).reduceOption

/-- The non-empty names of a list, each once. -/
def nameSet (names : List String) : List String := addNew [] (names.filter (· ≠ ""))

def without (key : String) (names : List String) : List String := names.filter (· ≠ key)

/-- The first `n`, or all but the last `-n`. -/
def sliceTo {α : Type} (n : Int) (l : List α) : List α :=
  if 0 ≤ n then l.take n.toNat else l.take (l.length - n.natAbs)

/-- Closed hours to look at: those of the horizon, the dirty ones and the pending ones. -/
def closedCandidates (settings : LadderSettings) (dirty pending : List String) (now : Instant) :
    Except PyErr (List Instant) := do
  let windows ← windowsInHorizon .h1 now (max (settings.ladderCatchupMaxHours + 1) 2)
  let dirtyHours ← parsedHours dirty
  let pendingHours ← parsedHours pending
  return (windows.filter fun w => w.2 ≤ now).map Prod.fst ++ dirtyHours ++ pendingHours

def cursorOf (st : LadderState) : Except PyErr (Option Instant) :=
  match st.catchupCursor with
  | none => .ok none
  | some text => if text = "" then .ok none else parsedHour text

/-- Unique, oldest first; a cursor hides the hours before it that are not forced. -/
def orderedHours (closed : List Instant) (cursor : Option Instant) (forced : List String) :
    List Instant :=
  let uniq := (Dict.ofList (closed.map fun c => (isoZ c, c))).values
  let ordered := sortBy (fun t : Instant => t.val) uniq
  match cursor with
  | none => ordered
  | some c => ordered.filter fun d => c ≤ d || isoZ d ∈ forced

/-- `_llm_calls_remaining`: the bucket is reset when it is of another hour. -/
def llmCallsRemaining (settings : LadderSettings) (now : Instant) : LadderPy Int := fun e =>
  let b := currentBucket now e.state.llmCallsHour
  .ok (max 0 (settings.ladderLlmMaxCallsPerHour - b.count))
    { e with state := { e.state with llmCallsHour := b } }

/-- What the loop over the hours carries. -/
structure HoursState where
  dirty : List String
  pending : List String
  remaining : Int
  processed : List String := []
  cascaded : List String := []
  examined : List Instant := []
  stopped : Option StopReason := none
  breakHour : Option Instant := none

namespace HoursState

def keepDirty (key : String) (c : HoursState) : HoursState :=
  { c with dirty := addNew c.dirty [key] }

def clean (key : String) (c : HoursState) : HoursState := { c with dirty := without key c.dirty }

def resolve (key : String) (c : HoursState) : HoursState :=
  { c with dirty := without key c.dirty, pending := without key c.pending }

def cutShort (hour : Instant) (c : HoursState) : HoursState :=
  { c with stopped := some .budget, breakHour := some hour }

end HoursState

/-- The hour the next call starts from. -/
def nextCursor (current : Instant) (c : HoursState) : Instant :=
  match c.breakHour with
  | some hour => hour
  | none =>
    match c.examined.getLast? with
    | none => current
    | some last =>
      if h : last.val + microsPerHour ≤ current.val then
        ⟨last.val + microsPerHour, Nat.lt_of_le_of_lt h current.isLt⟩
      else current

/-- The refresh of an hour: the model with calls left, one pass with one call left. -/
def hourRefresh (settings : LadderSettings) (llm : Bool) (remaining : Int) : RefreshArgs :=
  let useLlm := llm && settings.modeLlm && decide (0 < remaining)
  { preferChildren := false, skipEmpty := settings.ladderSkipEmpty, useLlm
    maxPasses := if useLlm then min 2 remaining else 1 }

structure HoursArgs where
  llm : Bool := false
  maxMicros : Option Int := none
  now : Option Instant := none

/-- What the loop is given: the clock it started at, its budget and the time. -/
structure HoursLimits where
  llm : Bool
  t0 : Int
  budget : Int
  now : Instant

structure HoursReport where
  processed : List String
  cascaded : List String
  stopped : Option StopReason
  callsLeft : Int
  examined : List String

section Hours

variable [PyCoerce] [LadderDigest] (out : Outside) (settings : LadderSettings)

/-- The books of a refreshed hour. -/
def bookHour (limits : HoursLimits) (wStart : Instant) (usedLlm : Bool) (existing : Option Atom)
    (c : HoursState) (a : Atom) : LadderPy (HoursState × Bool) := do
  if ← ofExcept (refreshWrote existing a) then modifyState (recordWriteSource a)
  -- debited whether or not the refresh wrote
  let left ← countLlmUsageFromAtom a c.remaining true limits.now usedLlm
  modifyState fun st => { st with lastClosed1hProcessed := some (isoZ wStart) }
  return ({ c with processed := c.processed ++ [isoZ wStart], remaining := left }, true)

/-- The refresh of a closed hour; the flag is false when the hour is left at that. -/
def refreshHour (limits : HoursLimits) (wStart : Instant) (noSources : Bool)
    (existing : Option Atom) (c : HoursState) : LadderPy (HoursState × Bool) := do
  let args := hourRefresh settings limits.llm c.remaining
  match ← attempt (refreshWindow out settings args .h1 wStart) with
  | .error _ => return (c.keepDirty (isoZ wStart), false)
  | .ok none =>
    if settings.ladderSkipEmpty && noSources then return (c.resolve (isoZ wStart), false)
    else return (c.keepDirty (isoZ wStart), false)
  | .ok (some a) => bookHour limits wStart args.useLlm existing c a

def hourCascade (limits : HoursLimits) (wStart : Instant) (c : HoursState) : CascadeArgs where
  hourStart := wStart
  llm := limits.llm && decide (0 < c.remaining)
  maxMicros := some limits.budget
  t0 := some limits.t0
  llmCallsLeft := some c.remaining
  tracked := true
  now := some limits.now

/-- The cascade of an hour; the flag says that the budget is spent. -/
def cascadeHour (limits : HoursLimits) (wStart : Instant) (c : HoursState) :
    LadderPy (HoursState × Bool) := do
  let report ← cascadeFromHour out settings (hourCascade limits wStart c)
  let c := { c with remaining := report.callsLeft, cascaded := c.cascaded ++ report.refreshed }
  if report.stopped = some .budget then
    modifyState fun st => { st with catchupCursor := some (isoZ wStart) }
    let c := { c with pending := addNew c.pending [isoZ wStart] }
    return ((c.clean (isoZ wStart)).cutShort wStart, true)
  else return (c.resolve (isoZ wStart), false)

/-- What to do about a closed hour: nothing more, its refresh, or the rest of its cascade. -/
inductive HourPlan where
  | leave (c : HoursState)
  | refresh (noSources : Bool) (existing : Option Atom)
  | cascade

def planHour (wStart wEnd : Instant) (c : HoursState) (s : JsonlMemoryStore) :
    Except PyErr HourPlan := do
  let key := isoZ wStart
  let (sources, _) ← collectWindowSources s .h1 wStart wEnd false
  let existing := s.getAtom (stableSummaryId .h1 wStart)
  let noSources := decide (sources = [])
  let tipEmpty := existing.any fun a => strip a.contentText.toList = []
  let isPending := decide (key ∈ c.pending)
  -- an empty tip with no sources stays dirty
  if tipEmpty && noSources then return .leave (c.keepDirty key)
  else if settings.ladderSkipEmpty && noSources && existing.isNone && !isPending then
    return .leave (c.resolve key)
  else if existing.isNone || decide (key ∈ c.dirty) || tipEmpty then
    return .refresh noSources existing
  else if isPending then return .cascade
  else return .leave (c.clean key)

def HoursState.examine (wStart : Instant) (c : HoursState) : HoursState :=
  { c with examined := c.examined ++ [wStart] }

/-- One hour of the loop; the flag says that the loop breaks. -/
def closeHour (limits : HoursLimits) (hourStart : Instant) (c : HoursState) :
    LadderPy (HoursState × Bool) := do
  let clock ← ask out.clock
  if limits.budget ≤ clock - limits.t0 then return (c.cutShort hourStart, true)
  else
    let (wStart, wEnd) ← ofExcept (windowBounds .h1 hourStart)
    if limits.now < wEnd then return (c, false)
    else
      let c := c.examine wStart
      match ← readStore (planHour settings wStart wEnd c) with
      | .leave left => return (left, false)
      | .cascade => cascadeHour out settings limits wStart c
      | .refresh noSources existing => do
        let (after, did1h) ← refreshHour out settings limits wStart noSources existing c
        if did1h then cascadeHour out settings limits wStart after else return (after, false)

def hoursLoop (limits : HoursLimits) : List Instant → HoursState → LadderPy HoursState
  | [], c => return c
  | hour :: rest, c => do
    let (c, stop) ← closeHour out settings limits hour c
    if stop then return c else hoursLoop limits rest c

def finishHours (now current : Instant) (c : HoursState) (st : LadderState) : LadderState :=
  { st with
    catchupCursor := some (isoZ (nextCursor current c))
    dirty1hWindows := sortBy id c.dirty
    cascadePending1h := sortBy id c.pending
    lastHourlyProcess := some (isoZ now) }

/-- The hours a call goes through, and what its loop starts from. -/
def plannedHours (now : Instant) (remaining : Int) (st : LadderState) :
    Except PyErr (List Instant × HoursState) := do
  let dirty := nameSet st.dirty1hWindows
  let pending := nameSet st.cascadePending1h
  let closed ← closedCandidates settings dirty pending now
  let cursor ← cursorOf st
  let ordered := orderedHours closed cursor (dirty ++ pending)
  return (sliceTo settings.ladderCatchupMaxHours ordered, { dirty, pending, remaining })

/-- What a call reads before its loop: the time, the clock, the calls left and the hours. -/
def openHours (args : HoursArgs) : LadderPy (HoursLimits × Instant × List Instant × HoursState) := do
  let now ← match args.now with
    | some now => pure now
    | none => ask out.today
  let t0 ← ask out.clock
  let hourRemaining ← llmCallsRemaining settings now
  let remaining :=
    if settings.modeLlm then min settings.ladderLlmMaxCallsPerTick hourRemaining else 0
  let (current, _) ← ofExcept (windowBounds .h1 now)
  let e ← get
  let (hours, start) ← ofExcept (plannedHours settings now remaining e.state)
  let budget := args.maxMicros.getD (1000 * settings.ladderHourlyMaxMs)
  return (⟨args.llm, t0, budget, now⟩, current, hours, start)

/-- Close due hours oldest first, cascade their parents, respect the budgets. -/
def processClosedHours (args : HoursArgs) : LadderPy HoursReport := do
  let (limits, current, hours, start) ← openHours out settings args
  let c ← hoursLoop out settings limits hours start
  modifyState (finishHours limits.now current c)
  let _ ← ask out.clock
  return ⟨c.processed, c.cascaded, c.stopped, c.remaining, c.examined.map isoZ⟩

end Hours
end Elyra.Ladder
