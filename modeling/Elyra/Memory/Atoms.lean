import Elyra.Framework.Effects
import Elyra.Memory.Edges

namespace Elyra.Memory

open Json

def schemaVersion : Int := 1

def atomKinds : List String :=
  ["observation", "speak", "tool", "model", "ledger", "summary", "parcel", "moment_meta"]

def periodScales : List String := ["15m", "1h", "6h", "1d", "1w", "1m", "1y"]

def embeddingStatuses : List String := ["none", "pending", "ready", "failed", "skipped"]

structure Atom where
  atomId : String
  tStart : String
  kind : String
  contentRef : String := "inline"
  contentText : String := ""
  tEnd : Option String := none
  momentId : Option String := none
  mediaIds : List String := []
  prevAtomId : Option String := none
  nextAtomId : Option String := none
  parentAtomId : Option String := none
  scale : Option String := none
  windowStart : Option String := none
  windowEnd : Option String := none
  sourceBeatTs : Option String := none
  sourceBeatType : Option String := none
  embeddingStatus : String := "none"
  metadata : Dict String Json := .empty
  schemaVersion : Int := Elyra.Memory.schemaVersion
  deriving DecidableEq

/-- `not value` on an optional text. -/
def missing (value : Option String) : Bool := value.getD "" = ""

/-- The first check that fails gives the error. -/
def validateAtom (a : Atom) : Except PyErr Atom :=
  if a.atomId = "" then .error (.valueError [.text "invalid atom_id: ", .repr a.atomId])
  else if a.tStart = "" then .error (.valueError [.text "t_start is required"])
  else if a.kind ∉ atomKinds then .error (.valueError [.text "invalid kind: ", .repr a.kind])
  else if a.embeddingStatus ∉ embeddingStatuses then
    .error (.valueError [.text "invalid embedding_status: ", .repr a.embeddingStatus])
  else if ∃ s ∈ a.scale, s ∉ periodScales then
    .error (.valueError [.text "invalid scale: ", .repr (a.scale.getD "")])
  else if a.kind = "summary" ∧ a.scale.isSome ∧ (missing a.windowStart ∨ missing a.windowEnd) then
    .error (.valueError
      [.text "summary atoms with scale require window_start and window_end"])
  else if a.schemaVersion ≠ Elyra.Memory.schemaVersion then
    .error (.valueError [.text "unsupported schema_version: ", .text (toString a.schemaVersion),
      .text " (Phase 1 requires 1)"])
  else .ok a

/-- A valid atom passes as it is. -/
theorem validateAtom_eq (a b : Atom) (h : validateAtom a = .ok b) : b = a := by
  rw [validateAtom] at h
  split_ifs at h
  exact (Except.ok.inj h).symm

def optField (s : Option String) : Json :=
  match s with
  | none => .null
  | some s => .str s

def atomRow (a : Atom) (contentText : String) : List (String × Json) :=
  [("atom_id", .str a.atomId), ("t_start", .str a.tStart), ("t_end", optField a.tEnd),
    ("moment_id", optField a.momentId), ("kind", .str a.kind), ("content_ref", .str a.contentRef),
    ("content_text", .str contentText), ("media_ids", .arr (a.mediaIds.map .str)),
    ("prev_atom_id", optField a.prevAtomId), ("next_atom_id", optField a.nextAtomId),
    ("parent_atom_id", optField a.parentAtomId), ("scale", optField a.scale),
    ("window_start", optField a.windowStart), ("window_end", optField a.windowEnd),
    ("source_beat_ts", optField a.sourceBeatTs), ("source_beat_type", optField a.sourceBeatType),
    ("embedding_status", .str a.embeddingStatus), ("qualia", .null),
    ("meta", .obj a.metadata.items), ("schema_version", .int a.schemaVersion)]

def atomToDict (a : Atom) : List (String × Json) := atomRow a a.contentText

section FromDict

variable [PyCoerce]

/-- `_normalize_ts`. -/
def normalizeTs (value : Option Json) : Except PyErr (Option String) :=
  match value with
  | none | some .null | some (.str "") => .ok none
  | some (.str s) => (isoOr s s).map some
  | some v => .ok (some (pyStr v))

/-- `data.get(key)` for a field that holds a text or nothing; the store writes no other value. -/
def textField (value : Option Json) : Except PyErr (Option String) :=
  match value with
  | none | some .null => .ok none
  | some (.str s) => .ok (some s)
  | some _ => .error .typeError

def mediaIdsOf (value : Option Json) : Except PyErr (List String) :=
  match value with
  | none => .ok []
  | some (.str s) => .ok (if s = "" then [] else [s])
  | some (.arr xs) => .ok (xs.map pyStr)
  | some (.obj kvs) => .ok (kvs.map Prod.fst)
  | some v => if truthy v then .error .typeError else .ok []

def embeddingStatusOf (value : Option Json) : Except PyErr String :=
  match value with
  | some (.str s) => .ok (if s ∈ embeddingStatuses then s else "none")
  | some (.arr _) | some (.obj _) => .error .typeError
  | _ => .ok "none"

def atomVersionOf (value : Option Json) : Except PyErr Int :=
  match value with
  | none => .ok schemaVersion
  | some v =>
    if truthy v then
      match pyInt v with
      | some n => .ok n
      | none => .error (.valueError [.text "schema_version"])
    else .ok schemaVersion

def atomMetaOf (value : Option Json) : Dict String Json :=
  match value with
  | some (.obj kvs) => .ofList kvs
  | _ => .empty

def atomKindOf (value : Option Json) : Except PyErr String :=
  match value with
  | some (.str s) =>
    if s ∈ atomKinds then .ok s else .error (.valueError [.text "invalid kind: ", .repr s])
  | _ => .error (.valueError [.text "invalid kind"])

def atomFromDict (row : List (String × Json)) : Except PyErr Atom := do
  let atomId ← requireText row "atom_id" "atom_id required"
  let rawStart ← requireText row "t_start" "t_start required"
  let tStart ← isoOr rawStart rawStart
  let kind ← atomKindOf (lookup row "kind")
  let mediaIds ← mediaIdsOf (lookup row "media_ids")
  let embeddingStatus ← embeddingStatusOf (lookup row "embedding_status")
  let tEnd ← normalizeTs (lookup row "t_end")
  let momentId ← textField (lookup row "moment_id")
  let prevAtomId ← textField (lookup row "prev_atom_id")
  let nextAtomId ← textField (lookup row "next_atom_id")
  let parentAtomId ← textField (lookup row "parent_atom_id")
  let scale ← textField (lookup row "scale")
  let windowStart ← normalizeTs (lookup row "window_start")
  let windowEnd ← normalizeTs (lookup row "window_end")
  let sourceBeatTs ← normalizeTs (lookup row "source_beat_ts")
  let sourceBeatType ← textField (lookup row "source_beat_type")
  let version ← atomVersionOf (lookup row "schema_version")
  return {
    atomId, tStart, kind, mediaIds, embeddingStatus, tEnd, momentId, prevAtomId, nextAtomId
    parentAtomId, scale, windowStart, windowEnd, sourceBeatTs, sourceBeatType
    contentRef := strOr (lookup row "content_ref") "inline"
    contentText := strOr (lookup row "content_text") ""
    metadata := atomMetaOf (lookup row "meta")
    schemaVersion := version }

end FromDict

/-- What a row that is read gives its atom. -/
theorem atomFromDict_ok [PyCoerce] {row : List (String × Json)} {a : Atom}
    (h : atomFromDict row = .ok a) :
    requireText row "atom_id" "atom_id required" = .ok a.atomId ∧
      (∃ raw, requireText row "t_start" "t_start required" = .ok raw ∧ isoOr raw raw = .ok a.tStart) ∧
      atomKindOf (lookup row "kind") = .ok a.kind := by
  unfold atomFromDict at h
  obtain ⟨atomId, hid, h⟩ := except_bind_ok h
  obtain ⟨raw, hraw, h⟩ := except_bind_ok h
  obtain ⟨tStart, hstart, h⟩ := except_bind_ok h
  obtain ⟨kind, hkind, h⟩ := except_bind_ok h
  obtain ⟨mediaIds, -, h⟩ := except_bind_ok h
  obtain ⟨status, -, h⟩ := except_bind_ok h
  obtain ⟨tEnd, -, h⟩ := except_bind_ok h
  obtain ⟨momentId, -, h⟩ := except_bind_ok h
  obtain ⟨prev, -, h⟩ := except_bind_ok h
  obtain ⟨next, -, h⟩ := except_bind_ok h
  obtain ⟨parent, -, h⟩ := except_bind_ok h
  obtain ⟨scale, -, h⟩ := except_bind_ok h
  obtain ⟨windowStart, -, h⟩ := except_bind_ok h
  obtain ⟨windowEnd, -, h⟩ := except_bind_ok h
  obtain ⟨beatTs, -, h⟩ := except_bind_ok h
  obtain ⟨beatType, -, h⟩ := except_bind_ok h
  obtain ⟨version, -, h⟩ := except_bind_ok h
  rw [← Except.ok.inj h]
  exact ⟨hid, ⟨raw, hraw, hstart⟩, hkind⟩

structure MemorySettings where
  atomMaxChars : Int
  inlineMaxChars : Int

def defaultMemorySettings : MemorySettings := ⟨8000, 4000⟩

/-- A set timestamp in its `Z` form where it parses; an empty one is left alone. -/
def stampIso (ts : Option String) : Except PyErr (Option String) :=
  match ts with
  | none => .ok none
  | some s => if s = "" then .ok (some s) else (isoOr s s).map some

def normalizeStamps (a : Atom) : Except PyErr Atom := do
  let tStart ← isoOr a.tStart a.tStart
  let tEnd ← stampIso a.tEnd
  let windowStart ← stampIso a.windowStart
  let windowEnd ← stampIso a.windowEnd
  let sourceBeatTs ← stampIso a.sourceBeatTs
  return { a with tStart, tEnd, windowStart, windowEnd, sourceBeatTs }

theorem isoOr_idem (text iso : String) (h : isoOr text text = .ok iso) :
    isoOr iso iso = .ok iso := by
  obtain heq | ⟨t, ht⟩ := isoOr_shape text text iso h
  · rw [heq] at h ⊢
    exact h
  · rw [ht]
    exact isoOr_isoZ t (isoZ t)

theorem stampIso_idem (ts stamped : Option String) (h : stampIso ts = .ok stamped) :
    stampIso stamped = .ok stamped := by
  cases ts with
  | none =>
    rw [← Except.ok.inj h]
    rfl
  | some s =>
    rw [stampIso] at h
    split_ifs at h with hs
    · rw [← Except.ok.inj h, stampIso, if_pos hs]
    · cases hiso : isoOr s s with
      | error e =>
        rw [hiso] at h
        cases h
      | ok iso =>
        rw [hiso] at h
        rw [← Except.ok.inj h, stampIso, isoOr_idem s iso hiso]
        exact ite_self _

/-- The timestamps of an atom are in the form that normalising gives. -/
structure StampsFixed (a : Atom) : Prop where
  tStart : isoOr a.tStart a.tStart = .ok a.tStart
  tEnd : stampIso a.tEnd = .ok a.tEnd
  windowStart : stampIso a.windowStart = .ok a.windowStart
  windowEnd : stampIso a.windowEnd = .ok a.windowEnd
  sourceBeatTs : stampIso a.sourceBeatTs = .ok a.sourceBeatTs

theorem StampsFixed.normalize {a : Atom} (h : StampsFixed a) : normalizeStamps a = .ok a := by
  rw [normalizeStamps, h.tStart, h.tEnd, h.windowStart, h.windowEnd, h.sourceBeatTs]
  rfl

def capContent (settings : MemorySettings) (a : Atom) : Atom :=
  if 0 < settings.atomMaxChars ∧ settings.atomMaxChars < a.contentText.length then
    { a with
      contentText := .ofList (a.contentText.toList.take settings.atomMaxChars.toNat)
      metadata := a.metadata.set "truncated" (.bool true) }
  else a

/-- The body goes to a side file. -/
def spills (settings : MemorySettings) (a : Atom) : Bool :=
  0 < settings.inlineMaxChars && decide (settings.inlineMaxChars < a.contentText.length)

def safeId (atomId : String) : List Char :=
  atomId.toList.map fun c => if c = '/' ∨ c = '\\' then '_' else c

def blobShard (safe : List Char) : List Char :=
  if safe = [] then ['x', 'x'] else safe.take 2

def blobRelpathForAtom (atomId : String) : String :=
  "atoms/" ++ .ofList (blobShard (safeId atomId)) ++ "/" ++ .ofList (safeId atomId) ++ ".txt"

/-- The locator after a put: re-derived from the body, never the given one. -/
def locate (settings : MemorySettings) (a : Atom) : Atom :=
  { a with
    contentRef :=
      if spills settings a then "blob:" ++ blobRelpathForAtom a.atomId else "inline" }

def fillDefaults (a : Atom) : Atom :=
  { a with
    embeddingStatus := if a.embeddingStatus = "" then "none" else a.embeddingStatus
    schemaVersion := if a.schemaVersion = 0 then Elyra.Memory.schemaVersion else a.schemaVersion }

/-- What `_prepare_for_put` makes of an atom, apart from its side file. -/
def prepareForPut (settings : MemorySettings) (a : Atom) : Except PyErr Atom := do
  let stamped ← normalizeStamps a
  validateAtom (fillDefaults (locate settings (capContent settings stamped)))

/-- Keep JSONL lines small when the body lives in a side file. -/
def rowForDisk (a : Atom) : List (String × Json) :=
  if "blob:".toList.isPrefixOf a.contentRef.toList then atomRow a "" else atomToDict a

end Elyra.Memory
