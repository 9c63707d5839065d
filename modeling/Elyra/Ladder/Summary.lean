import Elyra.Memory.RangeQueries
import Elyra.Framework.Framed
import Elyra.Memory.TipIndex

namespace Elyra.Ladder

open Json Memory

/-- SHA-256 digests of the UTF-8 text, whole or cut, that are stored and compared only. -/
class LadderDigest where
  bodyDigest : String → String
  childDigest : String → String
  summaryDigest : String → String

def maxHighlights : PeriodScale → Nat
  | .m15 => 12
  | .h1 => 16
  | _ => 20

/-- speak > observation > ledger > failed tool > other. -/
def highlightTier (a : Atom) : Nat :=
  if a.kind = "speak" then 0
  else if a.kind = "observation" then 1
  else if a.kind = "ledger" then 2
  else if a.kind = "tool" then
    if a.metadata.get? "ok" = some (.bool false) then 3 else 4
  else if a.kind = "model" then 5
  else if a.kind = "summary" then 6
  else 7

def highlightRank (a : Atom) : Except PyErr (Nat ×ₗ String ×ₗ String) := do
  return toLex (highlightTier a, toLex (← toIsoZ a.tStart, a.atomId))

def ranked (atoms : List Atom) : Except PyErr (List Atom) := do
  return (← sortKeyed highlightRank atoms).map Prod.snd

def selectHighlights (atoms : List Atom) (limit : Nat) : Except PyErr (List Atom) :=
  if limit = 0 ∨ atoms = [] then return []
  else return (← ranked atoms).take limit

def stripLine (text : List Char) : List Char :=
  strip (text.map fun c => if c = '\n' then ' ' else c)

/-- `_truncate`. -/
def truncated (text : String) (limit : Nat) : String :=
  let cs := stripLine text.toList
  if cs.length ≤ limit then .ofList cs
  else if limit ≤ 1 then .ofList (cs.take limit)
  else .ofList (cs.take (limit - 1) ++ ['…'])

/-- The texts in `xs` that are new, in order. -/
def addNew (seen xs : List String) : List String :=
  xs.foldl (fun seen x => if x ∈ seen then seen else seen ++ [x]) seen

/-- The non-empty texts a meta field names: one text or a list of texts. -/
def namedIds (a : Atom) (key : String) (single list : Bool) : List String :=
  match a.metadata.get? key with
  | some (.str s) => if single && s ≠ "" then [s] else []
  | some (.arr xs) =>
    if list then xs.filterMap fun x => match x with
      | .str s => if s ≠ "" then some s else none
      | _ => none
    else []
  | _ => []

def goalIdsFromAtoms (atoms : List Atom) : List String :=
  atoms.foldl (fun seen a => addNew seen (namedIds a "goal_id" true false ++
    namedIds a "goal_ids" false true)) []

def taskIdsFromAtoms (atoms : List Atom) : List String :=
  atoms.foldl (fun seen a => addNew (addNew seen (namedIds a "task_id" true true))
    (namedIds a "task_ids" true true)) []

def whyNow (a : Atom) : Option String :=
  match a.metadata.get? "why_now" with
  | some (.str s) => if strip s.toList = [] then none else some (.ofList (strip s.toList))
  | _ => none

/-- Last non-empty `why_now` in chronological order. -/
def whyNowOpenThread (atoms : List Atom) : Except PyErr (Option String) := do
  let sorted ← sortKeyed startKey atoms
  return (sorted.filterMap fun p => whyNow p.2).getLast?

/-- The moments the sources name, each once. -/
def momentsOf (sources : List Atom) : List String :=
  addNew [] (sources.filterMap fun a => if missing a.momentId then none else a.momentId)

def countKind (sources : List Atom) (kind : String) : Nat := sources.countP fun a => a.kind = kind

def natText (n : Nat) : String := .ofList (natChars n)

def goalsText (goals : List String) : String :=
  if goals = [] then "—"
  else
    let shown := String.intercalate ", " (goals.take 8)
    if 8 < goals.length then shown ++ ", +" ++ natText (goals.length - 8) else shown

def highlightLine (a : Atom) : Except PyErr String := do
  return "- " ++ (← toIsoZ a.tStart) ++ " " ++ a.kind ++ ": " ++ truncated a.contentText 160

/-- The template body of a window. -/
def renderTemplateSummary (scale : PeriodScale) (wStart wEnd : Instant)
    (sources highlights : List Atom) : Except PyErr String := do
  let lines ← highlights.mapM highlightLine
  let openThread ← whyNowOpenThread sources
  let thread := match openThread with
    | some text => "(open threads: " ++ truncated text 200 ++ ")"
    | none => "(open threads: —)"
  return String.intercalate "\n"
    (["[summary " ++ scale.text ++ " | " ++ isoZ wStart ++ " → " ++ isoZ wEnd ++ "]",
      "moments: " ++ natText (momentsOf sources).length ++ " | atoms: " ++
        natText sources.length ++ " | speaks: " ++ natText (countKind sources "speak") ++
        " | tools: " ++ natText (countKind sources "tool"),
      "goals touched: " ++ goalsText (goalIdsFromAtoms sources), "highlights:"] ++
      (if lines = [] then ["- (none)"] else lines) ++ [thread])

structure LadderSettings where
  summaryMode : String
  ladderEnabled : Bool
  ladderSkipEmpty : Bool
  ladderWriteLegacyScales : Bool
  ladderAgeGatesEnabled : Bool
  ladderSourceEdgeK : Int
  ladderHourlyMaxMs : Int
  ladderMaxMsPerTick : Int
  ladderCatchupMaxHours : Int
  ladderLlmMaxCallsPerTick : Int
  ladderLlmMaxCallsPerHour : Int
  ladderRebuildMaxHours : Int
  ladderRebuildMaxMs : Int
  ladderRebuildMaxLlmCalls : Int

def defaultLadderSettings : LadderSettings where
  summaryMode := "template"
  ladderEnabled := true
  ladderSkipEmpty := true
  ladderWriteLegacyScales := false
  ladderAgeGatesEnabled := false
  ladderSourceEdgeK := 24
  ladderHourlyMaxMs := 12000
  ladderMaxMsPerTick := 200
  ladderCatchupMaxHours := 24
  ladderLlmMaxCallsPerTick := 3
  ladderLlmMaxCallsPerHour := 40
  ladderRebuildMaxHours := 48
  ladderRebuildMaxMs := 120000
  ladderRebuildMaxLlmCalls := 80

def LadderSettings.modeLlm (settings : LadderSettings) : Bool :=
  settings.summaryMode.toList.map Char.toLower = "llm".toList

/-- Coarser scales get a new atom for each version. -/
def usesVersionedIds (scale : PeriodScale) : Bool := scale ∈ PeriodScale.coarser

def childScale : PeriodScale → Option PeriodScale
  | .m15 | .h1 => none
  | .h6 | .d1 => some .h1
  | .w1 => some .d1
  | .m1 => some .w1
  | .y1 => some .m1

def scaleWritable (settings : LadderSettings) (scale : PeriodScale) : Bool :=
  scale ∈ PeriodScale.writeOrder || settings.ladderWriteLegacyScales

def rangeLimit : Int := 5000

def rawExcludeKinds : List String := ["summary", "parcel", "moment_meta"]

/-- Sort key of a child tip: its window's start, or its own. -/
def childKey (a : Atom) : Except PyErr (String ×ₗ String) := do
  let start := if missing a.windowStart then a.tStart else a.windowStart.getD ""
  return toLex (← toIsoZ start, a.atomId)

/-- Raw experience of a window. -/
def rawSources (s : JsonlMemoryStore) (wStart wEnd : Instant) : Except PyErr (List Atom) := do
  let raw ← s.listRange (isoZ wStart) (isoZ wEnd) none none (some rangeLimit)
  return raw.filter fun a => a.kind ∉ rawExcludeKinds

/-- The sources of a window and whether they are child summaries. -/
def collectWindowSources (s : JsonlMemoryStore) (scale : PeriodScale) (wStart wEnd : Instant)
    (preferChildren : Bool) : Except PyErr (List Atom × Bool) := do
  match childScale scale with
  | none => return (← rawSources s wStart wEnd, false)
  | some child =>
    if preferChildren then
      let children ← s.listTips child.text (some (isoZ wStart, isoZ wEnd)) rangeLimit
      if children = [] then return (← rawSources s wStart wEnd, false)
      else return ((← sortKeyed childKey children).map Prod.snd, true)
    else return (← rawSources s wStart wEnd, false)

/-- The index's tip of a window, when the look-up of the window lists it. -/
def resolveTip (s : JsonlMemoryStore) (scale : PeriodScale) (wStart wEnd : Instant) :
    Except PyErr (Option Atom) := do
  let tips ← s.listTips scale.text (some (isoZ wStart, isoZ wEnd)) 32
  return tips.find? fun a => !missing a.windowStart &&
    match toIsoZ (a.windowStart.getD "") with
    | .ok iso => iso = isoZ wStart
    | .error _ => false

section Digest

variable [LadderDigest]

/-- Hash of a child set, whatever its order. -/
def childContentHash (sources : List Atom) : String :=
  LadderDigest.childDigest (String.intercalate "|"
    ((sortBy Atom.atomId sources).flatMap fun a =>
      [a.atomId, LadderDigest.bodyDigest a.contentText]))

def summaryKey (scale : PeriodScale) (wStart : Instant) : String :=
  scale.text ++ "|" ++ isoZ wStart

def stableSummaryId (scale : PeriodScale) (wStart : Instant) : String :=
  "as_" ++ LadderDigest.summaryDigest (summaryKey scale wStart)

def versionKey (scale : PeriodScale) (wStart : Instant) (version : Nat) : String :=
  summaryKey scale wStart ++ "|v" ++ natText version

def versionedSummaryId (scale : PeriodScale) (wStart : Instant) (version : Nat) : String :=
  "as_" ++ LadderDigest.summaryDigest (versionKey scale wStart version)

/-- The id a summary of the window is stored under. -/
def summaryId (scale : PeriodScale) (wStart : Instant) (version : Nat) : String :=
  if usesVersionedIds scale then versionedSummaryId scale wStart version
  else stableSummaryId scale wStart

end Digest

def optInt : Option Int → Json
  | none => .null
  | some n => .int n

def idArray (atoms : List Atom) : Json := .arr (atoms.map fun a => .str a.atomId)

def sourceEdgeK (settings : LadderSettings) : Nat := (min (max settings.ladderSourceEdgeK 0) 48).toNat

/-- How the body of a summary came about. -/
structure Generation where
  source : String
  body : String
  llmPasses : Nat
  llmError : Option String
  draftChars : Option Int

structure Supersedes where
  version : Nat
  atomId : Option String

def childIds (scale : PeriodScale) (sources : List Atom) (fromChildren : Bool) : Json :=
  if fromChildren ∨ scale = .h1 then idArray (sources.take 96) else .arr []

def honestyFields (settings : LadderSettings) (scale : PeriodScale) (sources sourceIds pointers : List Atom)
    (fromChildren : Bool) (g : Generation) (v : Supersedes) (cch : String) (now : Instant) :
    List (String × Json) :=
  let mode := if settings.modeLlm then "llm" else "template"
  [("source", .str g.source), ("summary_mode_requested", .str mode),
    ("from_children", .bool fromChildren),
    ("child_scale", optField ((childScale scale).map PeriodScale.text)),
    ("child_atom_ids", childIds scale sources fromChildren),
    ("source_atom_ids", idArray (sourceIds.take (sourceEdgeK settings))),
    ("n_atoms", .int sources.length), ("n_moments", .int (momentsOf sources).length),
    ("n_speak", .int (countKind sources "speak")), ("n_tool", .int (countKind sources "tool")),
    ("pointer_atom_ids", idArray (pointers.take 24)),
    ("pointer_goal_ids", .arr (((goalIdsFromAtoms sources).take 24).map .str)),
    ("pointer_task_ids", .arr (((taskIdsFromAtoms sources).take 24).map .str)),
    ("version", .int v.version), ("supersedes_atom_id", optField v.atomId),
    ("previous_version_id", optField v.atomId), ("child_content_hash", .str cch),
    ("llm_model", .null), ("llm_passes", .int g.llmPasses), ("llm_error", optField g.llmError),
    ("draft_chars", optInt g.draftChars), ("generated_at", .str (isoZ now))]

def buildHonestyMeta (settings : LadderSettings) (scale : PeriodScale) (sources : List Atom)
    (fromChildren : Bool) (g : Generation) (v : Supersedes) (cch : String) (now : Instant) :
    Except PyErr (Dict String Json) := do
  let sourceIds ← ranked (if fromChildren then [] else sources)
  let pointers ← selectHighlights sources 12
  return .ofList (honestyFields settings scale sources sourceIds pointers fromChildren g v cch now)

def summaryAtom [LadderDigest] (scale : PeriodScale) (wStart wEnd : Instant) (version : Nat)
    (body : String) (metadata : Dict String Json) : Atom where
  atomId := summaryId scale wStart version
  tStart := isoZ wStart
  tEnd := some (isoZ wEnd)
  kind := "summary"
  scale := some scale.text
  windowStart := some (isoZ wStart)
  windowEnd := some (isoZ wEnd)
  contentText := body
  metadata := metadata

end Elyra.Ladder

namespace Elyra.Ladder

open Json Memory

/-- The ladder key of a window. -/
def windowKeyOf (scale : PeriodScale) (wStart : Instant) : TipKey := (scale.text, isoZ wStart)

theorem text_ne_empty (scale : PeriodScale) : scale.text ≠ "" := by
  cases scale <;> decide

section Put

variable [LadderDigest] (scale : PeriodScale) (wStart wEnd : Instant) (version : Nat)
  (body : String) (metadata : Dict String Json)

omit [LadderDigest] in
theorem stampIso_isoZ (t : Instant) : stampIso (some (isoZ t)) = .ok (some (isoZ t)) := by
  rw [stampIso, if_neg (isoZ_ne_empty t), isoOr_isoZ]
  rfl

theorem stampsFixed_summaryAtom :
    StampsFixed (summaryAtom scale wStart wEnd version body metadata) :=
  ⟨isoOr_isoZ _ _, stampIso_isoZ _, stampIso_isoZ _, stampIso_isoZ _, rfl⟩

/-- What a put stores of a summary: all but the body, the locator and the mark of a cut body. -/
structure Stores (a p : Atom) : Prop where
  atomId : p.atomId = a.atomId
  kind : p.kind = a.kind
  tStart : p.tStart = a.tStart
  scale : p.scale = a.scale
  windowStart : p.windowStart = a.windowStart
  windowEnd : p.windowEnd = a.windowEnd
  metadata : ∀ key, key ≠ "truncated" → p.metadata.get? key = a.metadata.get? key

omit [LadderDigest] in
theorem stores_capContent (settings : MemorySettings) (a : Atom) :
    Stores a (fillDefaults (locate settings (capContent settings a))) := by
  rw [capContent]
  split_ifs
  · refine ⟨rfl, rfl, rfl, rfl, rfl, rfl, ?_⟩
    intro key hkey
    exact Dict.get?_set_ne _ _ (Ne.symm hkey)
  · exact ⟨rfl, rfl, rfl, rfl, rfl, rfl, fun _ _ => rfl⟩

theorem id_ne_empty (scale : PeriodScale) (wStart : Instant) (version : Nat) :
    summaryId scale wStart version ≠ "" := by
  rw [summaryId]
  split_ifs
  all_goals
    intro h
    have hchars := congrArg String.toList h
    simp [versionedSummaryId, stableSummaryId] at hchars

omit [LadderDigest] in
theorem text_mem_periodScales (scale : PeriodScale) : scale.text ∈ periodScales := by
  cases scale <;> decide

/-- A summary of the ladder is always stored. -/
theorem prepareForPut_summaryAtom (settings : MemorySettings) :
    ∃ p, prepareForPut settings (summaryAtom scale wStart wEnd version body metadata) = .ok p ∧
      Stores (summaryAtom scale wStart wEnd version body metadata) p := by
  let a := summaryAtom scale wStart wEnd version body metadata
  let p := fillDefaults (locate settings (capContent settings a))
  have hstores : Stores a p := stores_capContent settings a
  have hstatus : p.embeddingStatus = "none" := by
    show (if (capContent settings a).embeddingStatus = "" then "none" else _) = _
    rw [capContent]
    split_ifs <;> rfl
  have hschema : p.schemaVersion = Elyra.Memory.schemaVersion := by
    show (if (capContent settings a).schemaVersion = 0 then _ else _) = _
    rw [capContent]
    split_ifs <;> rfl
  have hwindow : ¬(missing p.windowStart ∨ missing p.windowEnd) := by
    rw [hstores.windowStart, hstores.windowEnd]
    simp [a, summaryAtom, missing, isoZ_ne_empty]
  have hscale : ¬∃ s ∈ p.scale, s ∉ periodScales := by
    rw [hstores.scale]
    simp [a, summaryAtom, text_mem_periodScales]
  have hid : p.atomId ≠ "" := by
    rw [hstores.atomId]
    exact id_ne_empty scale wStart version
  have hstart : p.tStart ≠ "" := by
    rw [hstores.tStart]
    exact isoZ_ne_empty wStart
  have hkind : ¬p.kind ∉ atomKinds := by
    rw [hstores.kind]
    show ¬"summary" ∉ atomKinds
    decide
  have hembed : ¬p.embeddingStatus ∉ embeddingStatuses := by
    rw [hstatus]
    decide
  refine ⟨p, ?_, hstores⟩
  rw [prepareForPut, (stampsFixed_summaryAtom scale wStart wEnd version body metadata).normalize]
  show validateAtom p = .ok p
  rw [validateAtom, if_neg hid, if_neg hstart, if_neg hkind, if_neg hembed, if_neg hscale,
    if_neg (fun h => hwindow h.2.2), if_neg (not_not_intro hschema)]

theorem tipKey_summaryAtom (p : Atom)
    (h : Stores (summaryAtom scale wStart wEnd version body metadata) p) :
    p.tipKey = some (windowKeyOf scale wStart) := by
  rw [Atom.tipKey, h.kind, h.scale, h.windowStart]
  show (if ("summary" : String) = "summary" then _ else _) = _
  rw [if_pos rfl]
  show (if scale.text ≠ "" ∧ isoZ wStart ≠ "" then _ else _) = _
  rw [if_pos ⟨text_ne_empty scale, isoZ_ne_empty wStart⟩]
  rfl

end Put
end Elyra.Ladder
