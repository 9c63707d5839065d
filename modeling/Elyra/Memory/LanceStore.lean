import Elyra.Memory.RecentBuffer
import Elyra.Memory.StoreCalls

namespace Elyra.Memory

open Json

/-- The `emb_` columns of a row, or the side map of an atom. -/
structure EmbColumns (Vec : Type) where
  embText : Option Vec := none
  embImage : Option Vec := none
  embAudio : Option Vec := none
  embVideo : Option Vec := none
  embJoint : Option Vec := none
  embedModel : Option String := none
  encodedAt : Option String := none
  deriving DecidableEq

/-- What a `float32` column of the table gives back of a vector that was written to it. -/
class VectorColumn (Vec : Type) where
  narrow : Vec → Vec

/-- The columns as the table gives them back. -/
def EmbColumns.narrowed {Vec : Type} [VectorColumn Vec] (m : EmbColumns Vec) : EmbColumns Vec :=
  { m with
    embText := m.embText.map VectorColumn.narrow
    embImage := m.embImage.map VectorColumn.narrow
    embAudio := m.embAudio.map VectorColumn.narrow
    embVideo := m.embVideo.map VectorColumn.narrow
    embJoint := m.embJoint.map VectorColumn.narrow }

/-- A row of the `atoms` table. -/
structure LanceRow (Vec : Type) where
  atomId : String
  tStart : String
  kind : String
  contentText : String
  contentRef : String
  tEnd : Option String
  momentId : Option String
  mediaIdsJson : String
  prevAtomId : Option String
  nextAtomId : Option String
  parentAtomId : Option String
  scale : Option String
  windowStart : Option String
  windowEnd : Option String
  sourceBeatTs : Option String
  sourceBeatType : Option String
  embeddingStatus : String
  metaJson : String
  schemaVersion : Int
  emb : EmbColumns Vec

section Codec

variable {Vec : Type}

/-- `value or None` on a text. -/
def textOrNone (s : String) : Option String := if s = "" then none else some s

def columnsOf (emb : EmbeddingSet Vec) : EmbColumns Vec :=
  ⟨emb.embText, emb.embImage, emb.embAudio, emb.embVideo, emb.embJoint, textOrNone emb.modelId,
    textOrNone emb.encodedAt⟩

def EmbColumns.hasVector (m : EmbColumns Vec) : Bool :=
  m.embText.isSome || m.embImage.isSome || m.embAudio.isSome || m.embVideo.isSome ||
    m.embJoint.isSome

def embeddingSetFromMap (atomId : String) (m : EmbColumns Vec) : Option (EmbeddingSet Vec) :=
  if m.hasVector then
    some ⟨atomId, m.embText, m.embImage, m.embAudio, m.embVideo, m.embJoint,
      m.embedModel.getD "", m.encodedAt.getD ""⟩
  else none

/-- The side map of a row; `none` when every column is null. -/
def embMapFromRow (m : EmbColumns Vec) : Option (EmbColumns Vec) :=
  let out := { m with
    embedModel := m.embedModel.bind textOrNone
    encodedAt := m.encodedAt.bind textOrNone }
  if m.hasVector || out.embedModel.isSome || out.encodedAt.isSome then some out else none

/-- `_row_for_disk`; a spilled body leaves its column empty. -/
def lanceRowForDisk (a : Atom) : LanceRow Vec where
  atomId := a.atomId
  tStart := a.tStart
  kind := a.kind
  contentText := if "blob:".toList.isPrefixOf a.contentRef.toList then "" else a.contentText
  contentRef := if a.contentRef = "" then "inline" else a.contentRef
  tEnd := a.tEnd
  momentId := a.momentId
  mediaIdsJson := .ofList (dumps (.arr (a.mediaIds.map .str)))
  prevAtomId := a.prevAtomId
  nextAtomId := a.nextAtomId
  parentAtomId := a.parentAtomId
  scale := a.scale
  windowStart := a.windowStart
  windowEnd := a.windowEnd
  sourceBeatTs := a.sourceBeatTs
  sourceBeatType := a.sourceBeatType
  embeddingStatus := if a.embeddingStatus = "" then "none" else a.embeddingStatus
  metaJson := .ofList (dumps (.obj a.metadata.items))
  schemaVersion := if a.schemaVersion = 0 then schemaVersion else a.schemaVersion
  emb := {}

/-- `_opt_str`: a null cell and an empty one both read as nothing. -/
def optCell (cell : Option String) : Json :=
  match cell.bind textOrNone with
  | none => .null
  | some s => .str s

def parsedCell (cell : String) (default : Json) : Json :=
  if cell = "" then default else (loads cell.toList).getD default

section Read

variable [PyCoerce]

def atomFromRow (r : LanceRow Vec) : Except PyErr Atom :=
  atomFromDict
    [("atom_id", .str r.atomId), ("t_start", .str r.tStart), ("t_end", optCell r.tEnd),
      ("moment_id", optCell r.momentId), ("kind", .str r.kind),
      ("content_ref", .str (if r.contentRef = "" then "inline" else r.contentRef)),
      ("content_text", .str r.contentText), ("media_ids", parsedCell r.mediaIdsJson (.arr [])),
      ("prev_atom_id", optCell r.prevAtomId), ("next_atom_id", optCell r.nextAtomId),
      ("parent_atom_id", optCell r.parentAtomId), ("scale", optCell r.scale),
      ("window_start", optCell r.windowStart), ("window_end", optCell r.windowEnd),
      ("source_beat_ts", optCell r.sourceBeatTs), ("source_beat_type", optCell r.sourceBeatType),
      ("embedding_status", .str (if r.embeddingStatus = "" then "none" else r.embeddingStatus)),
      ("meta", match parsedCell r.metaJson (.obj []) with
        | .obj kvs => .obj kvs
        | _ => .obj []),
      ("schema_version", .int (if r.schemaVersion = 0 then schemaVersion else r.schemaVersion))]

end Read

end Codec

/-- What both backends keep in the same way (settings, atoms by id, ladder, memory directory, of
which this one does not use the atoms file), the side map of vectors, and the `atoms` table, where
`merge_insert` is an upsert by `atom_id`. -/
structure LanceMemoryStore (Vec : Type) where
  indexes : JsonlMemoryStore
  embById : Dict String (EmbColumns Vec)
  table : Dict String (LanceRow Vec)
  vectorSchemaOk : Bool

namespace LanceMemoryStore

variable {Vec : Type}

def getAtom (s : LanceMemoryStore Vec) (atomId : String) : Option Atom := s.indexes.getAtom atomId

def getVectors (s : LanceMemoryStore Vec) (atomId : String) : Option (EmbeddingSet Vec) :=
  (s.embById.get? atomId).bind (embeddingSetFromMap atomId)

/-- The columns the table holds for an atom. -/
def columnsOnDisk (s : LanceMemoryStore Vec) (atomId : String) : Option (EmbColumns Vec) :=
  (s.table.get? atomId).map LanceRow.emb

/-- A call on what both backends share. -/
def onIndexes {α : Type} (m : Py JsonlMemoryStore α) : Py (LanceMemoryStore Vec) α := fun s =>
  match m s.indexes with
  | .ok a i => .ok a { s with indexes := i }
  | .error e i => .error e { s with indexes := i }

variable [VectorColumn Vec]

/-- The vectors of the side map go with every scalar write. -/
def attachEmbColumns (s : LanceMemoryStore Vec) (row : LanceRow Vec) : LanceRow Vec :=
  if s.vectorSchemaOk then { row with emb := ((s.embById.get? row.atomId).getD {}).narrowed }
  else row

/-- A write to the table; one that raises leaves the row. -/
def upsertRow (a : Atom) (fails : Bool) : Py (LanceMemoryStore Vec) Unit := fun s =>
  if fails then .error .osError s
  else .ok () { s with table := s.table.set a.atomId (s.attachEmbColumns (lanceRowForDisk a)) }

/-- The atom a vector write leaves ready. -/
def readiedAtom (a : Atom) (emb : EmbeddingSet Vec) : Atom :=
  let metadata := a.metadata
  let metadata :=
    if emb.modelId ≠ "" then metadata.set "embed_model" (.str emb.modelId) else metadata
  let metadata :=
    if emb.encodedAt ≠ "" then metadata.set "embed_encoded_at" (.str emb.encodedAt) else metadata
  { a with
    embeddingStatus := "ready"
    metadata :=
      (metadata.set "embed_channels" (.arr (emb.channelsPresent.map fun c => .str c.name))).set
        "embed_encode_ok" (.bool true) }

section Calls

variable [PyCoerce]

def putAtom (a : Atom) (fails : Bool) : Py (LanceMemoryStore Vec) Atom := do
  let prepared ← onIndexes (JsonlMemoryStore.prepare a)
  upsertRow prepared fails
  onIndexes (JsonlMemoryStore.indexPut prepared)
  return prepared

def updateLinks (atomId : String) (prev next : JsonlMemoryStore.LinkChange) (fails : Bool) :
    Py (LanceMemoryStore Vec) Atom := do
  let s ← get
  match s.getAtom atomId with
  | none => throw (.keyError [.text atomId])
  | some existing =>
    if prev = .unset ∧ next = .unset then return existing
    else
      let updated := { existing with
        prevAtomId := prev.apply existing.prevAtomId
        nextAtomId := next.apply existing.nextAtomId }
      upsertRow updated fails
      onIndexes (JsonlMemoryStore.indexPut updated)
      return updated

/-- The side map is set before the row is written, and emptied for the atom when that raises. -/
def upsertVectors (atomId : String) (emb : EmbeddingSet Vec) (fails : Bool) :
    Py (LanceMemoryStore Vec) Bool := fun s =>
  if !s.vectorSchemaOk then .ok false s
  else
    match s.getAtom atomId with
    | none => .ok false s
    | some a =>
      if emb.atomId ≠ "" ∧ emb.atomId ≠ atomId then .ok false s
      else if !emb.embeddingsAreReady false then .ok false s
      else
        let marked := { s with embById := s.embById.set atomId (columnsOf emb) }
        match upsertRow (readiedAtom a emb) fails marked with
        | .error _ t => .ok false { t with embById := t.embById.pop atomId }
        | .ok _ t =>
          match onIndexes (JsonlMemoryStore.indexPut (readiedAtom a emb)) t with
          | .error e u => .error e u
          | .ok _ u => .ok true u

/-- The joint copies of the ready atoms that lack them. -/
def repairCandidates (s : LanceMemoryStore Vec) : List (String × EmbeddingSet Vec) :=
  s.embById.keys.filterMap fun atomId =>
    match s.getAtom atomId with
    | none => none
    | some a =>
      if a.embeddingStatus ≠ "ready" then none
      else ((s.getVectors atomId).bind EmbeddingSet.jointCopyEmbeddingSet).map fun fixed =>
        (atomId, fixed)

/-- The loop of `repair_joint_copies`; a write that raises restores the side map. -/
def repairLoop (fails : String → Bool) :
    List (String × EmbeddingSet Vec) → List String → Py (LanceMemoryStore Vec) (List String)
  | [], repaired => return repaired
  | (atomId, fixed) :: rest, repaired => fun s =>
    match s.getAtom atomId with
    | none => repairLoop fails rest repaired s
    | some a =>
      let marked := { s with embById := s.embById.set atomId (columnsOf fixed) }
      match upsertRow (readiedAtom a fixed) (fails atomId) marked with
      | .error _ t =>
        repairLoop fails rest repaired { t with
          embById := match s.embById.get? atomId with
            | none => t.embById.pop atomId
            | some prev => t.embById.set atomId prev }
      | .ok _ t =>
        match onIndexes (JsonlMemoryStore.indexPut (readiedAtom a fixed)) t with
        | .error e u => .error e u
        | .ok _ u => repairLoop fails rest (repaired ++ [atomId]) u

def repairJointCopies (limit : Int) (fails : String → Bool) :
    Py (LanceMemoryStore Vec) (List String) := fun s =>
  if !s.vectorSchemaOk || limit ≤ 0 then .ok [] s
  else repairLoop fails (s.repairCandidates.take limit.toNat) [] s

/-- The row is deleted last. -/
def deleteAtom (atomId : String) (fails : Bool) : Py (LanceMemoryStore Vec) Bool := fun s =>
  match s.getAtom atomId with
  | none => .ok false s
  | some old =>
    let popped := { s with
      indexes := { s.indexes with
        byId := s.indexes.byId.pop atomId
        ladder := JsonlMemoryStore.dropTip (some old) s.indexes.ladder
        dir := s.indexes.dir.unlinkBlobIfAny old.contentRef }
      embById := s.embById.pop atomId }
    if fails then .error .osError popped
    else .ok true { popped with table := popped.table.pop atomId }

/-- A row that cannot be read is skipped. -/
def loadRow (d : MemoryDir) (vectors : Bool)
    (loaded : Dict String Atom × Dict String (EmbColumns Vec)) (row : LanceRow Vec) :
    Except PyErr (Dict String Atom × Dict String (EmbColumns Vec)) :=
  match atomFromRow row >>= JsonlMemoryStore.hydrateContent d with
  | .ok a =>
    let embById :=
      if vectors then
        match embMapFromRow row.emb with
        | some m => loaded.2.set a.atomId m
        | none => loaded.2
      else loaded.2
    .ok (loaded.1.set a.atomId a, embById)
  | .error (.valueError _) | .error .unicodeDecodeError | .error .typeError => .ok loaded
  | .error e => .error e

/-- A new store object on the same table, with its rows in the order the library gives them. -/
def load (rows : List (LanceRow Vec)) (s : LanceMemoryStore Vec) :
    Except PyErr (LanceMemoryStore Vec) := do
  let loaded ← rows.foldlM (loadRow s.indexes.dir s.vectorSchemaOk) (.empty, .empty)
  let ladder ← JsonlMemoryStore.rebuildLadder loaded.1
  return { s with indexes := { s.indexes with byId := loaded.1, ladder }, embById := loaded.2 }

/-- Opening repairs joint copies, and a repair that raises does not fail it. -/
def reopen (rows : List (LanceRow Vec)) (openCap : Int) (fails : String → Bool) :
    Py (LanceMemoryStore Vec) (List String) := fun s =>
  match s.load rows with
  | .error e => .error e s
  | .ok t =>
    match repairJointCopies openCap fails t with
    | .ok ids u => .ok ids u
    | .error _ u => .ok [] u

end Calls

end LanceMemoryStore
end Elyra.Memory
