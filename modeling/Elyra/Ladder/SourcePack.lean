import Elyra.Framework.Groups
import Elyra.Ladder.GapSpans
import Elyra.Ladder.Summary

namespace Elyra.Ladder

open Json Memory

def packLineTruncate : Nat := 200

def maxMomentBlocks : Nat := 40

def maxAtomsPerMoment : Nat := 8

def childBlurbChars : Nat := 800

structure MomentBlock where
  momentId : Option String
  t0 : String
  t1 : String
  whyNow : Option String
  nAtoms : Nat
  lines : List String

/-- The moment an atom is grouped under; an atom without one is an orphan. -/
def momentKey (a : Atom) : Option String := if missing a.momentId then none else a.momentId

def packLine (a : Atom) : String := a.kind ++ ": " ++ truncated a.contentText packLineTruncate

/-- `t_end or t_start`. -/
def endText (a : Atom) : String := if missing a.tEnd then a.tStart else a.tEnd.getD ""

/-- The block of a moment; no group is empty. -/
def momentBlock (mid : String) (group : List Atom) : Except PyErr MomentBlock := do
  let groupSorted := (← sortKeyed startKey group).map Prod.snd
  match groupSorted.head?, groupSorted.getLast? with
  | some first, some last => do
    let whyNow ← whyNowOpenThread groupSorted
    let top := (← ranked groupSorted).take maxAtomsPerMoment
    return {
      momentId := some mid
      t0 := ← toIsoZ first.tStart
      t1 := ← toIsoZ (endText last)
      whyNow := whyNow
      nAtoms := groupSorted.length
      lines := top.map packLine }
  | _, _ => .error .typeError

/-- One block for the atoms without a moment, between the first and the last highlight of them. -/
def orphanBlock (orphan : List Atom) : Except PyErr (List MomentBlock) := do
  if orphan = [] then return []
  else
    let top := (← ranked orphan).take maxAtomsPerMoment
    match top.head?, top.getLast? with
    | some first, some last => do
      return [{
        momentId := none
        t0 := ← toIsoZ first.tStart
        t1 := ← toIsoZ last.tStart
        whyNow := none
        nAtoms := orphan.length
        lines := top.map packLine }]
    | _, _ => .error .typeError

/-- Raw experience in ordered moment blocks. -/
def momentBlocksForWindow (s : JsonlMemoryStore) (wStart wEnd : Instant) :
    Except PyErr (List MomentBlock) := do
  let atoms ← rawSources s wStart wEnd
  let blocks ← (groupRows momentKey atoms).items.mapM fun p => momentBlock p.1 p.2
  let blocks := sortBy MomentBlock.t0 blocks
  let orphan ← orphanBlock (atoms.filter fun a => momentKey a = none)
  return (blocks ++ orphan).take maxMomentBlocks

def blockLines (b : MomentBlock) : List String :=
  ("- " ++ b.momentId.getD "—" ++ " " ++ b.t0 ++ "–" ++ b.t1 ++ " why_now=" ++
    b.whyNow.getD "—" ++ " n_atoms=" ++ natText b.nAtoms) :: b.lines.map ("  - " ++ ·)

def gapLine (g : Instant × Instant) : String :=
  "- no moments from " ++ isoZ g.1 ++ " to " ++ isoZ g.2 ++ " (~" ++
    natText ((g.2.val - g.1.val) / 60000000) ++ "m)"

def packHighlight (a : Atom) : Except PyErr String := do
  return "- " ++ (← toIsoZ a.tStart) ++ " " ++ packLine a

/-- The grid windows of the child scale that start in the window, 400 at most. -/
def iterChildWindows (child : PeriodScale) (wStart wEnd : Instant) :
    Nat → Instant → Except PyErr (List Instant)
  | 0, _ => return []
  | rounds + 1, cursor => do
    if wEnd ≤ cursor then return []
    else
      let (cs, ce) ← windowBounds child cursor
      if wEnd ≤ cs then return []
      else
        let kept := if wStart ≤ cs then [cs] else []
        if ce ≤ cursor then return kept
        else return kept ++ (← iterChildWindows child wStart wEnd rounds ce)

/-- `window_start or t_start`. -/
def tipStart (a : Atom) : String := if missing a.windowStart then a.tStart else a.windowStart.getD ""

def missingChildWindows (child : PeriodScale) (wStart wEnd : Instant) (sources : List Atom) :
    Except PyErr (List String) := do
  let childWindows ← iterChildWindows child wStart wEnd 400 wStart
  let presentStarts ← (sources.filter fun a => tipStart a ≠ "").mapM fun a => toIsoZ (tipStart a)
  return (childWindows.filter fun cw =>
    isoZ cw ∉ presentStarts ∧ cw.val + 1 < wEnd.val).map isoZ

/-- What a source pack says; only a pack of raw sources lists gaps. -/
inductive SourcePack where
  | children (head tips missingWindows : List String)
  | raw (head : List String) (blocks : List MomentBlock) (gaps : List (Instant × Instant))
      (highlights : List String)

def SourcePack.gaps : SourcePack → List (Instant × Instant)
  | .children .. => []
  | .raw _ _ gaps _ => gaps

/-- `names.get(key) or names.get(other) or default`. -/
def nameOr (names : Dict String String) (key other default : String) : String :=
  let first := (names.get? key).getD ""
  let second := (names.get? other).getD ""
  if first ≠ "" then first else if second ≠ "" then second else default

def packHead (scale : PeriodScale) (wStart wEnd : Instant) (names : Dict String String) :
    List String :=
  ["[window " ++ scale.text ++ " | " ++ isoZ wStart ++ " → " ++ isoZ wEnd ++ "]",
    "[identity] self=" ++ nameOr names "self" "display_name" "Elyra" ++ "; user=" ++
      nameOr names "user" "user_display_name" "user" ++ " (soft names only)"]

def childPack (scale : PeriodScale) (wStart wEnd : Instant) (sources : List Atom)
    (names : Dict String String) : Except PyErr SourcePack := do
  let childText := match childScale scale with
    | some child => child.text
    | none => "None"
  let tips := sources.map fun a =>
    "- " ++ tipStart a ++ " " ++ a.atomId ++ ": " ++ truncated a.contentText childBlurbChars
  let missingWindows ← match childScale scale with
    | some child => missingChildWindows child wStart wEnd sources
    | none => pure []
  return .children (packHead scale wStart wEnd names ++ ["[child tips scale=" ++ childText ++ "]"])
    (if sources = [] then ["- (none)"] else tips) missingWindows

/-- The half-open span of a block. -/
def blockInterval (b : MomentBlock) : Except PyErr (Instant × Instant) := do
  return (← utcOf b.t0, ← utcOf b.t1)

def rawPack (s : JsonlMemoryStore) (scale : PeriodScale) (wStart wEnd : Instant)
    (sources : List Atom) (names : Dict String String) : Except PyErr SourcePack := do
  let blocks ← momentBlocksForWindow s wStart wEnd
  let intervals ← (blocks.filter fun b => b.t0 ≠ "" ∧ b.t1 ≠ "").mapM blockInterval
  let gaps ← gapSpans wStart wEnd intervals
  let highlights ← (← selectHighlights sources (maxHighlights scale)).mapM packHighlight
  return .raw (packHead scale wStart wEnd names) blocks gaps highlights

/-- What `build_source_pack` renders for a store. -/
def sourcePack (s : JsonlMemoryStore) (scale : PeriodScale) (wStart wEnd : Instant)
    (sources : List Atom) (names : Dict String String) (fromChildren : Bool) :
    Except PyErr SourcePack :=
  if fromChildren then childPack scale wStart wEnd sources names
  else rawPack s scale wStart wEnd sources names

def orNone (lines : List String) (none : String) : List String := if lines = [] then [none] else lines

def SourcePack.text : SourcePack → String
  | .children head tips missingWindows => String.intercalate "\n"
      (head ++ tips ++ if missingWindows = [] then []
        else "[missing child windows]" :: (missingWindows.take 48).map ("- " ++ ·))
  | .raw head blocks gaps highlights => String.intercalate "\n"
      (head ++ ["[moments]"] ++ orNone (blocks.flatMap blockLines) "- (none)" ++
        ["[gaps]"] ++ orNone (gaps.map gapLine) "- (none above threshold)" ++
        ["[highlights ranked]"] ++ orNone highlights "- (none)")

def buildSourcePack (s : JsonlMemoryStore) (scale : PeriodScale) (wStart wEnd : Instant)
    (sources : List Atom) (names : Dict String String) (fromChildren : Bool) :
    Except PyErr String := do
  return (← sourcePack s scale wStart wEnd sources names fromChildren).text

end Elyra.Ladder
