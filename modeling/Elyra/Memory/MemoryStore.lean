import Elyra.Framework.Effects
import Elyra.Framework.Sorted
import Elyra.Memory.Atoms
import Elyra.Memory.EdgeStores

namespace Elyra.Memory

open Json

/-- `(scale, window_start)`. -/
abbrev TipKey := String × String

/-- The files under the memory directory, by the parts of their path from `root`. -/
structure MemoryDir where
  root : List String
  files : Dict (List String) ByteArray

def atomsPath : List String := ["atoms.jsonl"]

/-- The parts of a path text, without empty and `.` parts. -/
def pathParts (cs : List Char) : List String :=
  ((cs.splitOn '/').map String.ofList).filter fun p => p ≠ "" ∧ p ≠ "."

/-- The file a locator names, when it lies inside the memory directory. -/
def blobPath (root : List String) (contentRef : String) : Option (List String) :=
  let cs := contentRef.toList
  if !"blob:".toList.isPrefixOf cs then none
  else
    let rel := cs.drop 5
    let parts := pathParts rel
    if rel = [] ∨ ".." ∈ parts then none
    else if rel.head? = some '/' then
      if root.isPrefixOf parts then some (parts.drop root.length) else none
    else some parts

namespace MemoryDir

def unlinkBlobIfAny (contentRef : String) (d : MemoryDir) : MemoryDir :=
  match blobPath d.root contentRef with
  | some path => { d with files := d.files.pop path }
  | none => d

def writeBlob (atomId contentText : String) (d : MemoryDir) : MemoryDir :=
  let path := pathParts (blobRelpathForAtom atomId).toList
  { d with files := d.files.set path (encodeUtf8 contentText.toList) }

def atomsFile (d : MemoryDir) : JsonlFile := ⟨(d.files.get? atomsPath).getD ByteArray.empty⟩

def setAtomsFile (f : JsonlFile) (d : MemoryDir) : MemoryDir :=
  { d with files := d.files.set atomsPath f.bytes }

def appendAtomRow (row : List (String × Json)) (d : MemoryDir) : MemoryDir :=
  d.setAtomsFile (JsonlEdgeStore.appendRow row d.atomsFile)

/-- The side file of a put: written when the body spills, else the given locator is unlinked. -/
def placeBody (settings : MemorySettings) (given capped : Atom) (d : MemoryDir) : MemoryDir :=
  if spills settings capped then d.writeBlob capped.atomId capped.contentText
  else d.unlinkBlobIfAny given.contentRef

end MemoryDir

structure JsonlMemoryStore where
  settings : MemorySettings
  byId : Dict String Atom
  ladder : Dict TipKey String
  dir : MemoryDir

/-- `kind == "summary" and scale and window_start`. -/
def Atom.tipKey (a : Atom) : Option TipKey :=
  if a.kind = "summary" then
    match a.scale, a.windowStart with
    | some s, some w => if s ≠ "" ∧ w ≠ "" then some (s, w) else none
    | _, _ => none
  else none

section Version

variable [PyCoerce]

/-- `int(meta.get("version") or 0)`. -/
def Atom.version (a : Atom) : Except PyErr Int :=
  match a.metadata.get? "version" with
  | none => .ok 0
  | some v =>
    if truthy v then
      match pyInt v with
      | some n => .ok n
      | none => .error (.valueError [.text "version"])
    else .ok 0

def Atom.summaryVersionKey (a : Atom) : Except PyErr (Int ×ₗ String) :=
  a.version.map fun n => toLex (n, a.atomId)

/-- `_summary_version_key(a) > _summary_version_key(b)`. -/
def newer (a b : Atom) : Except PyErr Bool := do
  let ka ← a.summaryVersionKey
  let kb ← b.summaryVersionKey
  return kb < ka

end Version

namespace JsonlMemoryStore

def getAtom (s : JsonlMemoryStore) (atomId : String) : Option Atom := s.byId.get? atomId

/-- The ladder without the entry of an atom that was its tip. -/
def dropTip (old : Option Atom) (ladder : Dict TipKey String) : Dict TipKey String :=
  match old with
  | none => ladder
  | some a =>
    match a.tipKey with
    | none => ladder
    | some key => if ladder.get? key = some a.atomId then ladder.pop key else ladder

section Operations

variable [PyCoerce]

/-- Move the tip only if vacant, of the same atom, or of a lower version. -/
def raiseTip (a : Atom) : Py JsonlMemoryStore Unit := fun s =>
  match a.tipKey with
  | none => .ok () s
  | some key =>
    let moved := { s with ladder := s.ladder.set key a.atomId }
    match s.ladder.get? key with
    | none => .ok () moved
    | some curId =>
      if curId = a.atomId then .ok () moved
      else
        match s.byId.get? curId with
        | none => .ok () moved
        | some cur =>
          match newer a cur with
          | .error e => .error e s
          | .ok true => .ok () moved
          | .ok false => .ok () s

def indexPut (a : Atom) : Py JsonlMemoryStore Unit := do
  modify fun s =>
    { s with
      ladder := dropTip (s.byId.get? a.atomId) s.ladder
      byId := s.byId.set a.atomId a }
  raiseTip a

/-- `_prepare_for_put`: the side file changes before the atom is validated. -/
def prepare (a : Atom) : Py JsonlMemoryStore Atom := fun s =>
  match normalizeStamps a with
  | .error e => .error e s
  | .ok stamped =>
    let capped := capContent s.settings stamped
    let t := { s with dir := s.dir.placeBody s.settings stamped capped }
    match validateAtom (fillDefaults (locate s.settings capped)) with
    | .error e => .error e t
    | .ok prepared => .ok prepared t

def appendRow (row : List (String × Json)) : Py JsonlMemoryStore Unit :=
  modify fun s => { s with dir := s.dir.appendAtomRow row }

def putAtom (a : Atom) : Py JsonlMemoryStore Atom := do
  let prepared ← prepare a
  appendRow (rowForDisk prepared)
  indexPut prepared
  return prepared

/-- A link to set, or one to leave as it is. -/
inductive LinkChange where
  | unset
  | to (atomId : Option String)
  deriving DecidableEq

def LinkChange.apply (c : LinkChange) (old : Option String) : Option String :=
  match c with
  | .unset => old
  | .to atomId => atomId

/-- Patch sequential links only. -/
def updateLinks (atomId : String) (prev next : LinkChange) : Py JsonlMemoryStore Atom := do
  let s ← get
  match s.byId.get? atomId with
  | none => throw (.keyError [.text atomId])
  | some existing =>
    if prev = .unset ∧ next = .unset then return existing
    else
      let updated := { existing with
        prevAtomId := prev.apply existing.prevAtomId
        nextAtomId := next.apply existing.nextAtomId }
      appendRow (rowForDisk updated)
      indexPut updated
      return updated

def tombstone (atomId : String) : List (String × Json) :=
  [("atom_id", .str atomId), ("_deleted", .bool true)]

def deleteAtom (atomId : String) : Py JsonlMemoryStore Bool := fun s =>
  match s.byId.get? atomId with
  | none => .ok false s
  | some old =>
    .ok true { s with
      byId := s.byId.pop atomId
      ladder := dropTip (some old) s.ladder
      dir := (s.dir.unlinkBlobIfAny old.contentRef).appendAtomRow (tombstone atomId) }

/-- One line for each atom, oldest first. -/
def compact (s : JsonlMemoryStore) : JsonlMemoryStore :=
  let atoms := sortBy (fun a : Atom => toLex (a.tStart, a.atomId)) s.byId.values
  { s with dir := s.dir.setAtomsFile ⟨encodeUtf8 (rowsText (atoms.map rowForDisk))⟩ }

/-- The body of an atom whose locator names a side file that is there. -/
def hydrateContent (d : MemoryDir) (a : Atom) : Except PyErr Atom :=
  match (blobPath d.root a.contentRef).bind d.files.get? with
  | none => .ok a
  | some bytes =>
    match decodeUtf8 bytes with
    | none => .error .unicodeDecodeError
    | some text => .ok { a with contentText := .ofList (universalNewlines text) }

/-- A row that cannot be read is skipped. -/
def loadRow (d : MemoryDir) (byId : Dict String Atom) (row : Json) :
    Except PyErr (Dict String Atom) :=
  match row with
  | .obj kvs =>
    if lookup kvs "_deleted" = some (.bool true) then
      match lookup kvs "atom_id" with
      | some (.str id) => .ok (if id = "" then byId else byId.pop id)
      | _ => .ok byId
    else
      match atomFromDict kvs >>= hydrateContent d with
      | .ok a => .ok (byId.set a.atomId a)
      | .error (.valueError _) | .error .unicodeDecodeError | .error .typeError => .ok byId
      | .error e => .error e
  | _ => .ok byId

/-- One step of the rebuild: the best atom of each key so far. -/
def bestStep (best : Dict TipKey Atom) (a : Atom) : Except PyErr (Dict TipKey Atom) :=
  match a.tipKey with
  | none => .ok best
  | some key =>
    match best.get? key with
    | none => .ok (best.set key a)
    | some cur => do
      if ← newer a cur then return best.set key a else return best

def rebuildLadder (byId : Dict String Atom) : Except PyErr (Dict TipKey String) := do
  let best ← byId.values.foldlM bestStep .empty
  return .ofList (best.items.map fun p => (p.1, p.2.atomId))

/-- A new store object on the directory. -/
def openStore (settings : MemorySettings) (d : MemoryDir) : Except PyErr JsonlMemoryStore :=
  match decodeUtf8 d.atomsFile.bytes with
  | none => .error .unicodeDecodeError
  | some cs => do
    let byId ← (loadedRows cs).foldlM (loadRow d) .empty
    let ladder ← rebuildLadder byId
    return ⟨settings, byId, ladder, d⟩

end Operations

end JsonlMemoryStore
end Elyra.Memory
