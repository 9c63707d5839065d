import Elyra.Ladder.Refresh
import Elyra.Ladder.RefreshSpec
import Elyra.Memory.Windows

namespace Elyra.Ladder

open Json Memory

def enough1dTips : Nat := 3

def enough1wTips : Nat := 2

def enough1mTips : Nat := 2

def daysAge (days : Int) : Int := days * microsPerDay

/-- `count_tip_summaries` of a scale; a look-up that raises counts as no tip. -/
def countTipSummaries (s : JsonlMemoryStore) (scale : PeriodScale) : Nat :=
  match s.listTips scale.text none 10000 with
  | .ok tips => tips.length
  | .error _ => 0

/-- Scales that the age gates let through: by the age of the instance or by enough child tips. -/
def allowedScales (settings : LadderSettings) (createdAt : Option Instant) (now : Instant)
    (tips : PeriodScale → Nat) : List PeriodScale :=
  if settings.ladderAgeGatesEnabled then
    let age : Int := now.val - (createdAt.getD now).val
    [.h1, .d1] ++ (if daysAge 7 ≤ age ∨ enough1dTips ≤ tips .d1 then [.w1] else []) ++
      (if daysAge 28 ≤ age ∨ enough1wTips ≤ tips .w1 then [.m1] else []) ++
      (if daysAge 365 ≤ age ∨ enough1mTips ≤ tips .m1 then [.y1] else [])
  else PeriodScale.writeOrder

/-- Legacy scales are not gated. -/
def scaleAllowedForInstanceAge (settings : LadderSettings) (createdAt : Option Instant)
    (now : Instant) (tips : PeriodScale → Nat) (scale : PeriodScale) : Bool :=
  scale ∈ [PeriodScale.m15, .h6] || scale ∈ allowedScales settings createdAt now tips

def metaText (a : Atom) (key fallback : String) : String :=
  match a.metadata.get? key with
  | some (.str s) => if s = "" then fallback else s
  | _ => fallback

def writeSourceKeys : List String := ["llm", "template", "llm_fallback_template"]

/-- `_record_write_source` of a written atom. -/
def recordWriteSource (a : Atom) (st : LadderState) : LadderState :=
  let given := metaText a "source" "template"
  let src := if given ∈ writeSourceKeys then given else "template"
  { st with
    writeSourceCounts := st.writeSourceCounts.set src ((st.writeSourceCounts.get? src).getD 0 + 1) }

def hourKey (now : Instant) : String := isoZ (windowStart .h1 now)

/-- The bucket of the hour of `now`, emptied when it was of another hour. -/
def currentBucket (now : Instant) (b : LlmBucket) : LlmBucket :=
  if b.hour = some (hourKey now) then b else ⟨some (hourKey now), 0⟩

/-- `_record_llm_calls`. -/
def recordLlmCalls (n : Int) (now : Instant) (st : LadderState) : LadderState :=
  if n ≤ 0 then st
  else
    let b := currentBucket now st.llmCallsHour
    { st with llmCallsHour := { b with count := b.count + n } }

section Cascade

variable [PyCoerce]

/-- `int(meta.get(key) or 0)`. -/
def metaInt (a : Atom) (key : String) : Except PyErr Int :=
  match a.metadata.get? key with
  | none => .ok 0
  | some v =>
    if truthy v then
      match pyInt v with
      | some n => .ok n
      | none => .error (.valueError [.text key])
    else .ok 0

/-- The calls that `_count_llm_usage_from_atom` reads off the meta of an atom. -/
def spentCalls (a : Atom) : Except PyErr Int := do
  let passes ← metaInt a "llm_passes"
  if a.metadata.get? "source" = some (.str "llm") then
    return if 0 < passes then max 1 passes else 0
  else if a.metadata.get? "source" = some (.str "llm_fallback_template") then
    return if 0 < passes then max 1 passes else 1
  else return 0

/-- Debit the calls of an atom from those left and, when a state is given, from its hour. -/
def countLlmUsageFromAtom (a : Atom) (remaining : Int) (tracked : Bool) (now : Instant)
    (usedLlm : Bool) : LadderPy Int := do
  if usedLlm then
    let spent ← ofExcept (spentCalls a)
    if spent ≤ 0 then return remaining
    else
      if tracked then modifyState (recordLlmCalls spent now)
      return max 0 (remaining - spent)
  else return remaining

/-- True when the refresh wrote rather than returned the tip it found. -/
def refreshWrote (before : Option Atom) (a : Atom) : Except PyErr Bool :=
  match before with
  | none => .ok true
  | some old =>
    if a.atomId ≠ old.atomId ∨ tipHash old ≠ tipHash a ∨ old.contentText ≠ a.contentText then
      .ok true
    else do return (← old.version) ≠ (← a.version)

variable [LadderDigest] (out : Outside) (settings : LadderSettings)

/-- The arguments of a cascade; times are microseconds. -/
structure CascadeArgs where
  hourStart : Instant
  llm : Bool := false
  maxMicros : Option Int := none
  t0 : Option Int := none
  llmCallsLeft : Option Int := none
  tracked : Bool := false
  now : Option Instant := none
  force : Bool := false

/-- What the loop carries: the budget, the windows refreshed and the scales whose refresh raised,
as logged. -/
structure CascadeState where
  callsLeft : Int
  llm : Bool
  refreshed : List String := []
  failed : List PeriodScale := []

inductive StopReason where
  | budget | instanceAge | llmCap
  deriving DecidableEq

def refreshedKey (scale : PeriodScale) (wStart : Instant) : String :=
  scale.text ++ ":" ++ isoZ wStart

/-- The books of a refresh: only a real put is counted and debited. -/
def settleLevel (args : CascadeArgs) (now : Instant) (p : PeriodScale) (wStart : Instant)
    (usedLlm : Bool) (before after : Option Atom) (c : CascadeState) : LadderPy CascadeState := do
  match after with
  | none => return c
  | some a =>
    if ← ofExcept (refreshWrote before a) then
      if args.tracked then modifyState (recordWriteSource a)
      let left ← countLlmUsageFromAtom a c.callsLeft args.tracked now usedLlm
      return { c with callsLeft := left, refreshed := c.refreshed ++ [refreshedKey p wStart] }
    else return c

/-- With no call left the rest of the cascade is template only. -/
def CascadeState.turnOff (settings : LadderSettings) (c : CascadeState) : CascadeState :=
  if settings.modeLlm && decide (c.callsLeft ≤ 0) then { c with llm := false } else c

/-- The refresh of one parent. An exception of the refresh is logged and stepped over. -/
def cascadeLevel (args : CascadeArgs) (now : Instant) (p : PeriodScale) (c : CascadeState) :
    LadderPy CascadeState := do
  let (wStart, wEnd) ← ofExcept (windowBounds p args.hourStart)
  let (sources, _) ← readStore fun s => collectWindowSources s p wStart wEnd true
  if settings.ladderSkipEmpty && decide (sources = []) then return c
  else
    let useLlm := c.llm && settings.modeLlm && decide (0 < c.callsLeft)
    let before ← readStore fun s => resolveTip s p wStart wEnd
    let refresh : RefreshArgs :=
      { preferChildren := true, skipEmpty := settings.ladderSkipEmpty, useLlm
        maxPasses := if useLlm then min 2 c.callsLeft else 1, force := args.force }
    match ← attempt (refreshWindow out settings refresh p wStart) with
    | .error _ => return { c with failed := c.failed ++ [p] }
    | .ok after =>
      let settled ← settleLevel args now p wStart useLlm before after c
      return settled.turnOff settings

/-- The parents still to refresh, until the budget or the age gate stops. -/
def cascadeLoop (args : CascadeArgs) (now : Instant) (start budget : Int) :
    List PeriodScale → CascadeState → LadderPy (CascadeState × Option StopReason)
  | [], c => return (c, none)
  | p :: rest, c => do
    let clock ← ask out.clock
    if budget ≤ clock - start then return (c, some .budget)
    else
      let tips ← readStore fun s => .ok (countTipSummaries s)
      if scaleAllowedForInstanceAge settings out.createdAt now tips p then
        let next ← cascadeLevel out settings args now p c
        cascadeLoop args now start budget rest next
      else return (c, some .instanceAge)

structure CascadeReport where
  refreshed : List String
  callsLeft : Int
  stopped : Option StopReason
  failed : List PeriodScale

/-- Recompute the coarser tips of an hour along its parents. -/
def cascadeFromHour (args : CascadeArgs) : LadderPy CascadeReport := do
  let start ← match args.t0 with
    | some t0 => pure t0
    | none => ask out.clock
  let budget := args.maxMicros.getD (1000 * settings.ladderHourlyMaxMs)
  let left := args.llmCallsLeft.getD settings.ladderLlmMaxCallsPerTick
  let now ← match args.now with
    | some now => pure now
    | none => ask out.today
  let (c, stopped) ← cascadeLoop out settings args now start budget PeriodScale.coarser
    { callsLeft := left, llm := args.llm }
  let _ ← ask out.clock
  return ⟨c.refreshed, c.callsLeft, stopped, c.failed⟩

end Cascade

end Elyra.Ladder
