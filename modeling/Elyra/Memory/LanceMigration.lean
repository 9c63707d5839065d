import Elyra.Framework.Faults
import Elyra.Framework.Run
import Elyra.Memory.LanceStore

namespace Elyra.Memory

open Json

structure AtomsTable (Vec : Type) where
  rows : Dict String (LanceRow Vec)
  hasEmb : Bool

/-- The lance directory with the backups beside it, by file name. The staging table is only ever
created with the vector columns. -/
structure LanceDir (Vec : Type) where
  atoms : Option (AtomsTable Vec)
  staging : Option (Dict String (LanceRow Vec))
  backups : Dict String String

/-- `_vector_error`: `interrupted_unrecoverable`, `restore_failed` with the backup, or the type of
the exception. -/
inductive VectorError where
  | interruptedUnrecoverable
  | restoreFailed (backup : String)
  | migrationFailed (e : PyErr)
  deriving DecidableEq

/-- A store object that is opening the directory. -/
structure LanceOpening (Vec : Type) where
  dir : LanceDir Vec
  vectorSchemaOk : Bool
  vectorError : Option VectorError

section Rows

variable {Vec : Type}

/-- The table of a list of rows. -/
def rowsDict (rows : List (LanceRow Vec)) : Dict String (LanceRow Vec) :=
  .ofList (rows.map fun r => (r.atomId, r))

/-- A row of a table without vector columns as the migration writes it. -/
def migratedRow (r : LanceRow Vec) : LanceRow Vec :=
  { r with
    schemaVersion := if r.schemaVersion = 0 then schemaVersion else r.schemaVersion
    emb := {} }

def cellJson : Option String → Json
  | none => .null
  | some s => .str s

/-- A line of the backup; the vector columns are null there. -/
def backupRow (r : LanceRow Vec) : List (String × Json) :=
  [("atom_id", .str r.atomId), ("t_start", .str r.tStart), ("kind", .str r.kind),
    ("content_text", .str r.contentText), ("content_ref", .str r.contentRef),
    ("t_end", cellJson r.tEnd), ("moment_id", cellJson r.momentId),
    ("media_ids_json", .str r.mediaIdsJson), ("prev_atom_id", cellJson r.prevAtomId),
    ("next_atom_id", cellJson r.nextAtomId), ("parent_atom_id", cellJson r.parentAtomId),
    ("scale", cellJson r.scale), ("window_start", cellJson r.windowStart),
    ("window_end", cellJson r.windowEnd), ("source_beat_ts", cellJson r.sourceBeatTs),
    ("source_beat_type", cellJson r.sourceBeatType),
    ("embedding_status", .str r.embeddingStatus), ("meta_json", .str r.metaJson),
    ("schema_version", .int r.schemaVersion), ("emb_text", .null), ("emb_image", .null),
    ("emb_audio", .null), ("emb_video", .null), ("emb_joint", .null), ("embed_model", .null),
    ("encoded_at", .null)]

def backupText (rows : List (LanceRow Vec)) : String := .ofList (rowsText (rows.map backupRow))

def textCell (kvs : List (String × Json)) (col : String) : Option String :=
  match lookup kvs col with
  | some (.str s) => some s
  | _ => none

def nullableCell (kvs : List (String × Json)) (col : String) : Option (Option String) :=
  match lookup kvs col with
  | none | some .null => some none
  | some (.str s) => some (some s)
  | _ => none

def versionCell (kvs : List (String × Json)) : Option Int :=
  match lookup kvs "schema_version" with
  | none => some schemaVersion
  | some (.int n) => some n
  | _ => none

/-- A row for the table from a line of a backup; `none` where it does not fit the schema. -/
def restoredRow (line : Json) : Option (LanceRow Vec) :=
  match line with
  | .obj kvs => do
    let atomId ← textCell kvs "atom_id"
    let tStart ← textCell kvs "t_start"
    let kind ← textCell kvs "kind"
    let contentText ← textCell kvs "content_text"
    let contentRef ← textCell kvs "content_ref"
    let tEnd ← nullableCell kvs "t_end"
    let momentId ← nullableCell kvs "moment_id"
    let mediaIdsJson ← textCell kvs "media_ids_json"
    let prevAtomId ← nullableCell kvs "prev_atom_id"
    let nextAtomId ← nullableCell kvs "next_atom_id"
    let parentAtomId ← nullableCell kvs "parent_atom_id"
    let scale ← nullableCell kvs "scale"
    let windowStart ← nullableCell kvs "window_start"
    let windowEnd ← nullableCell kvs "window_end"
    let sourceBeatTs ← nullableCell kvs "source_beat_ts"
    let sourceBeatType ← nullableCell kvs "source_beat_type"
    let embeddingStatus ← textCell kvs "embedding_status"
    let metaJson ← textCell kvs "meta_json"
    let version ← versionCell kvs
    return {
      atomId, tStart, kind, contentText, contentRef, tEnd, momentId, mediaIdsJson, prevAtomId
      nextAtomId, parentAtomId, scale, windowStart, windowEnd, sourceBeatTs, sourceBeatType
      embeddingStatus, metaJson, schemaVersion := version, emb := {} }
  | _ => none

def restoredRows (text : String) : Option (List (LanceRow Vec)) :=
  (loadedRows text.toList).mapM restoredRow

end Rows

namespace LanceDir

variable {Vec : Type} (d : LanceDir Vec)

/-- `newest_migration_backup`: the last file name. -/
def newestMigrationBackup : Option (String × String) :=
  (sortBy id d.backups.keys).getLast?.bind fun name =>
    (d.backups.get? name).map fun text => (name, text)

def hasRecoverableMigrationArtifacts : Bool :=
  d.staging.isSome || d.newestMigrationBackup.isSome

def atomsTableIsEmpty : Bool := d.atoms.all fun t => t.rows.items = []

def tableHasEmbColumns : Bool := d.atoms.any AtomsTable.hasEmb

end LanceDir

section Opening

variable {Vec : Type}

abbrev OpenM (Vec α : Type) := FileM (LanceOpening Vec) α

/-- `create_table` refuses a name that is taken. -/
def createAtoms (rows : List (LanceRow Vec)) : OpenM Vec Unit := do
  let o ← look
  if o.dir.atoms.isSome then raise (.valueError [.text "Table 'atoms' already exists"])
  else operation fun o => { o with dir := { o.dir with atoms := some ⟨rowsDict rows, true⟩ } }

def createStaging (rows : List (LanceRow Vec)) : OpenM Vec Unit := do
  let o ← look
  if o.dir.staging.isSome then
    raise (.valueError [.text "Table 'atoms__migrating' already exists"])
  else operation fun o => { o with dir := { o.dir with staging := some (rowsDict rows) } }

def dropAtoms : OpenM Vec Unit := operation fun o => { o with dir := { o.dir with atoms := none } }

def dropAtomsIfPresent : OpenM Vec Unit := do
  let o ← look
  if o.dir.atoms.isSome then dropAtoms else return ()

def dropStaging : OpenM Vec Unit :=
  operation fun o => { o with dir := { o.dir with staging := none } }

def vectorsReady (o : LanceOpening Vec) : LanceOpening Vec :=
  { o with vectorSchemaOk := true, vectorError := none }

def promoteStagingTable : OpenM Vec Unit := do
  let rows ← operationWith fun o => ((o.dir.staging.map Dict.values).getD [], o)
  dropAtomsIfPresent
  createAtoms rows
  tryExcept dropStaging fun _ => return ()
  note vectorsReady

def restoreFromMigrationBackup (text : String) : OpenM Vec Unit := do
  let rows ← operationWith fun o => (restoredRows text, o)
  match rows with
  | none => raise (.valueError [.text "backup row does not fit the schema"])
  | some rows => do
    dropAtomsIfPresent
    createAtoms rows
    note vectorsReady

/-- The staging table is the first choice. -/
def promoteIfStaged : OpenM Vec Bool := do
  let o ← look
  if o.dir.staging.isSome then tryExcept (do promoteStagingTable; return true) fun _ => return false
  else return false

/-- Else the newest backup. -/
def restoreNewestBackup : OpenM Vec Bool := do
  let o ← look
  match o.dir.newestMigrationBackup with
  | none => return false
  | some (name, text) =>
    tryExcept (do restoreFromMigrationBackup text; return true) fun _ => do
      note fun o => { o with vectorError := some (.restoreFailed name) }
      return false

def recoverInterruptedMigration : OpenM Vec Bool := do
  let promoted ← promoteIfStaged
  if promoted then return true else restoreNewestBackup

/-- Best effort: a backup that cannot be written is logged. -/
def writeMigrationBackup (stamp : String) (rows : List (LanceRow Vec)) : OpenM Vec Unit :=
  tryExcept
    (operation fun o => { o with
      dir := { o.dir with
        backups := o.dir.backups.set ("atoms-" ++ stamp ++ ".jsonl") (backupText rows) } })
    fun _ => return ()

def dropStagingIfPresent : OpenM Vec Unit := do
  let o ← look
  if o.dir.staging.isSome then tryExcept dropStaging fun _ => return () else return ()

/-- The recreation and copy of a table without the vector columns. -/
def recreateWithVectors (stamp : String) : OpenM Vec Unit := do
  let rows ← operationWith fun o => ((o.dir.atoms.map fun t => t.rows.values).getD [], o)
  let newRows := rows.map migratedRow
  writeMigrationBackup stamp newRows
  dropStagingIfPresent
  createStaging newRows
  dropAtomsIfPresent
  createAtoms newRows
  tryExcept dropStaging fun _ => return ()
  note vectorsReady

/-- What follows a migration that failed. -/
def reopenAfterFailure : OpenM Vec Unit := do
  let o ← look
  if o.dir.atoms.isSome && !(o.dir.atomsTableIsEmpty && o.dir.hasRecoverableMigrationArtifacts) then
    return ()
  else do
    let _ ← recoverInterruptedMigration
    return ()

def migrateVectorSchema (stamp : String) : OpenM Vec Unit := do
  let o ← look
  if o.dir.tableHasEmbColumns then note vectorsReady
  else
    tryExcept (recreateWithVectors stamp) fun e => do
      note fun o => { o with vectorSchemaOk := false, vectorError := some (.migrationFailed e) }
      tryExcept reopenAfterFailure fun _ => return ()

/-- The store stays usable without vectors, and says so. -/
def vectorsUnrecoverable (o : LanceOpening Vec) : LanceOpening Vec :=
  { o with
    vectorSchemaOk := false
    vectorError := some (o.vectorError.getD .interruptedUnrecoverable) }

def openDb (stamp : String) : OpenM Vec Unit := do
  let o ← look
  if o.dir.atoms.isSome then
    if o.dir.atomsTableIsEmpty && o.dir.hasRecoverableMigrationArtifacts then do
      let recovered ← recoverInterruptedMigration
      if recovered then return () else note vectorsUnrecoverable
    else migrateVectorSchema stamp
  else do
    let recovered ← recoverInterruptedMigration
    if recovered then return ()
    else do
      let o ← look
      createAtoms []
      if o.dir.hasRecoverableMigrationArtifacts then note vectorsUnrecoverable
      else note vectorsReady

/-- A new store object on the directory, the file operations going as planned. -/
def openLance (d : LanceDir Vec) (stamp : String) (plan : List Outcome) :
    EStateM.Result Fault (Faulty (LanceOpening Vec)) Unit :=
  openDb stamp ⟨⟨d, false, none⟩, plan⟩

/-- What an opening leaves on disk, however it ended. -/
def stepOpening (d : LanceDir Vec) (opening : String × List Outcome) : LanceDir Vec :=
  (after (openLance d opening.1 opening.2)).disk.dir

/-- What is done with an open store: a put upserts the row of an atom, a delete removes it. -/
inductive LanceUse (Vec : Type) where
  | put (row : LanceRow Vec)
  | delete (atomId : String)
  | reopen (stamp : String)

def stepUse (d : LanceDir Vec) : LanceUse Vec → LanceDir Vec
  | .put row => { d with atoms := d.atoms.map fun t => { t with rows := t.rows.set row.atomId row } }
  | .delete atomId => { d with atoms := d.atoms.map fun t => { t with rows := t.rows.pop atomId } }
  | .reopen stamp => stepOpening d (stamp, [])

/-- The rows put and not deleted since, of those there were. -/
def liveRows (rows : Dict String (LanceRow Vec)) (uses : List (LanceUse Vec)) :
    Dict String (LanceRow Vec) :=
  uses.foldl (fun rows use =>
    match use with
    | .put row => rows.set row.atomId row
    | .delete atomId => rows.pop atomId
    | .reopen _ => rows) rows

end Opening

end Elyra.Memory
