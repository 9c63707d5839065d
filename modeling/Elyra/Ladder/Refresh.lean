import Elyra.Framework.Effects
import Elyra.Ladder.Summary

namespace Elyra.Ladder

open Json Memory

/-- What `llm.complete` does: a text, a `SummaryLlmError`, or any other exception. -/
inductive LlmAnswer where
  | text (s : String)
  | llmError (msg : String)
  | otherError (msg : String)

/-- What the ladder meets outside the store: its question number `n` is answered by place `n`. -/
structure Outside where
  answers : Nat → LlmAnswer
  packRaises : Nat → Option String
  clock : Nat → Int
  putRaises : Nat → Bool
  today : Nat → Instant
  createdAt : Option Instant

structure LlmBucket where
  hour : Option String := none
  count : Int := 0
  deriving DecidableEq

structure LadderState where
  roundRobinIdx : Int := 0
  lastRefresh : Dict String String := .empty
  lastHourlyProcess : Option String := none
  lastClosed1hProcessed : Option String := none
  dirty1hWindows : List String := []
  cascadePending1h : List String := []
  catchupCursor : Option String := none
  llmCallsHour : LlmBucket := {}
  writeSourceCounts : Dict String Int := .empty

/-- The store and the ladder state, the `complete` calls made and the questions asked so far. -/
structure LadderEnv where
  store : JsonlMemoryStore
  state : LadderState
  llmCalls : Nat
  asked : Nat

abbrev LadderPy := Py LadderEnv

def ask {α : Type} (answers : Nat → α) : LadderPy α := fun e =>
  .ok (answers e.asked) { e with asked := e.asked + 1 }

def complete (out : Outside) : LadderPy LlmAnswer := fun e =>
  .ok (out.answers e.asked) { e with asked := e.asked + 1, llmCalls := e.llmCalls + 1 }

/-- A read of the store. -/
def readStore {α : Type} (f : JsonlMemoryStore → Except PyErr α) : LadderPy α := fun e =>
  match f e.store with
  | .ok a => .ok a e
  | .error err => .error err e

def modifyState (f : LadderState → LadderState) : LadderPy Unit := fun e =>
  .ok () { e with state := f e.state }

/-- `except Exception`: the effects before it stay. -/
def attempt {α : Type} (m : LadderPy α) : LadderPy (Except PyErr α) := fun e =>
  match m e with
  | .ok a t => .ok (.ok a) t
  | .error err t => .ok (.error err) t

def softCharBudget : PeriodScale → Nat
  | .m15 => 2000
  | .h1 => 2400
  | .h6 => 4000
  | .d1 => 7200
  | .w1 => 10000
  | .m1 => 12000
  | .y1 => 16000

/-- How `_llm_generate_body` ends. -/
inductive Generated where
  | body (text : String) (passes : Nat) (draftChars : Int)
  | llmError (msg : String) (passes : Nat) (draftChars : Option Int)
  | unexpected (msg : String)

def stripped (text : String) : String := .ofList (strip text.toList)

def cutTo (n : Nat) (text : String) : String := .ofList (text.toList.take n)

/-- A blank body counts as a failure of the model. -/
def checkedBody (text : String) (passes : Nat) (draftChars : Int) : Generated :=
  if strip text.toList = [] then .llmError "empty_body" passes (some draftChars)
  else .body (stripped text) passes draftChars

section Refresh

variable (out : Outside)

def finalPass (draftChars : Int) : LadderPy Generated := do
  match ← complete out with
  | .text final => return checkedBody final 2 draftChars
  | .llmError msg => return .llmError msg 2 none
  | .otherError msg => return .unexpected msg

def wantFinal (scale : PeriodScale) (draft : String) : Bool :=
  usesVersionedIds scale || decide (softCharBudget scale < draft.length)

/-- Two passes at most; the second one only with a second call left. -/
def llmGenerateBody (scale : PeriodScale) (maxPasses : Int) : LadderPy Generated := do
  match ← ask out.packRaises with
  | some msg => return .unexpected msg
  | none =>
    match ← complete out with
    | .text draft =>
      if !wantFinal scale draft ∨ maxPasses < 2 then return checkedBody draft 1 draft.length
      else finalPass out draft.length
    | .llmError msg => return .llmError msg 1 none
    | .otherError msg => return .unexpected msg

def templateBody (scale : PeriodScale) (wStart wEnd : Instant) (sources : List Atom) :
    Except PyErr String := do
  let highlights ← selectHighlights sources (maxHighlights scale)
  renderTemplateSummary scale wStart wEnd sources highlights

/-- The body of a summary: the model's, or the template's when there is none or it failed. -/
def generation (settings : LadderSettings) (scale : PeriodScale) (wStart wEnd : Instant)
    (sources : List Atom) (useLlm : Bool) (maxPasses : Int) : LadderPy Generation := do
  if settings.modeLlm && useLlm then
    match ← llmGenerateBody out scale (max 1 maxPasses) with
    | .body text passes draftChars => return ⟨"llm", text, passes, none, some draftChars⟩
    | .llmError msg passes draftChars => do
      let body ← ofExcept (templateBody scale wStart wEnd sources)
      return ⟨"llm_fallback_template", body, passes, some (cutTo 200 msg), draftChars⟩
    | .unexpected msg => do
      let body ← ofExcept (templateBody scale wStart wEnd sources)
      return ⟨"llm_fallback_template", body, 0, some (cutTo 200 ("unexpected: " ++ msg)), none⟩
  else
    let body ← ofExcept (templateBody scale wStart wEnd sources)
    return ⟨"template", body, 0, none, none⟩

variable [PyCoerce] [LadderDigest]

/-- Build (do not store) a summary atom for the window. -/
def buildSummaryAtom (settings : LadderSettings) (scale : PeriodScale) (wStart wEnd : Instant)
    (preferChildren useLlm : Bool) (version : Int) (supersedes : Option String) (cch : String)
    (maxPasses : Int) : LadderPy Atom := do
  let (sources, fromChildren) ←
    readStore fun s => collectWindowSources s scale wStart wEnd preferChildren
  let g ← generation out settings scale wStart wEnd sources useLlm maxPasses
  let now ← ask out.today
  let ver := (max 1 version).toNat
  let metadata ← ofExcept
    (buildHonestyMeta settings scale sources fromChildren g ⟨ver, supersedes⟩ cch now)
  return summaryAtom scale wStart wEnd ver g.body metadata

/-- A put whose append may fail; the side file of the body is placed before. -/
def storePut (a : Atom) : LadderPy Atom := fun e =>
  let asked := e.asked + 1
  if out.putRaises e.asked then
    match JsonlMemoryStore.prepare a e.store with
    | .ok _ s => .error .osError { e with store := s, asked }
    | .error err s => .error err { e with store := s, asked }
  else
    match JsonlMemoryStore.putAtom a e.store with
    | .ok p s => .ok p { e with store := s, asked }
    | .error err s => .error err { e with store := s, asked }

/-- What a refresh of a window is asked to do. -/
structure RefreshArgs where
  preferChildren : Bool := true
  skipEmpty : Bool := true
  useLlm : Bool := false
  maxPasses : Int := 2
  force : Bool := false

/-- `(tip.meta or {}).get("child_content_hash")`, when it is a text. -/
def tipHash (a : Atom) : Option Json := a.metadata.get? "child_content_hash"

/-- The tip's hash is set and is the one given. -/
def sameHash (tip : Atom) (cch : String) : Bool := cch ≠ "" && tipHash tip = some (.str cch)

/-- The version after the tip's: `int(meta.get("version") or 1) + 1`. -/
def nextVersion (tip : Atom) : Except PyErr Int :=
  match tip.metadata.get? "version" with
  | none => .ok 2
  | some v =>
    if truthy v then
      match pyInt v with
      | some n => .ok (n + 1)
      | none => .error (.valueError [.text "version"])
    else .ok 2

/-- The put of a tip-replace scale, left out when neither body nor hash changed. -/
def replaceTip (force : Bool) (cch : String) (a : Atom) : LadderPy (Option Atom) := do
  let existing ← readStore fun s => .ok (s.getAtom a.atomId)
  match existing with
  | some old =>
    if !force && decide (old.contentText = a.contentText) &&
        decide (tipHash old = some (.str cch)) then
      return some old
    else return some (← storePut out a)
  | none => return some (← storePut out a)

/-- Build and put the summary of a window whose sources and tip are known. -/
def writeSummary (settings : LadderSettings) (args : RefreshArgs) (scale : PeriodScale)
    (wStart wEnd : Instant) (tip : Option Atom) (cch : String) : LadderPy (Option Atom) := do
  if usesVersionedIds scale then
    let version ← match tip with
      | none => pure 1
      | some t => ofExcept (nextVersion t)
    let a ← buildSummaryAtom out settings scale wStart wEnd args.preferChildren args.useLlm version
      (tip.map Atom.atomId) cch args.maxPasses
    return some (← storePut out a)
  else
    let a ← buildSummaryAtom out settings scale wStart wEnd args.preferChildren args.useLlm 1
      none cch args.maxPasses
    replaceTip out args.force cch a

/-- Build and put the summary of the window that contains `t`; `none` when there is nothing to
write. -/
def refreshWindow (settings : LadderSettings) (args : RefreshArgs) (scale : PeriodScale)
    (t : Instant) : LadderPy (Option Atom) := do
  if !scaleWritable settings scale then return none
  else
    let (wStart, wEnd) ← ofExcept (windowBounds scale t)
    let (sources, _) ←
      readStore fun s => collectWindowSources s scale wStart wEnd args.preferChildren
    if args.skipEmpty && decide (sources = []) then return none
    else
      let tip ← readStore fun s => resolveTip s scale wStart wEnd
      let cch := childContentHash sources
      if !args.force && tip.any (fun t => sameHash t cch) then return tip
      else writeSummary out settings args scale wStart wEnd tip cch

end Refresh
end Elyra.Ladder
