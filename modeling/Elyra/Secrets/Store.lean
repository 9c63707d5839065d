import Elyra.Framework.Dict
import Elyra.Framework.Json.Parse
import Elyra.Framework.Python
import Elyra.Framework.Run
import Elyra.Framework.Text

namespace Elyra.Secrets

open Json

/-- `str.casefold`. -/
class CaseFold where
  casefold : String → String

def reservedSecretNames : List String :=
  ["xai_api_key", "xai_api_key.tmp", "xai_oauth", "xai_oauth.json", "xai_oauth.json.tmp",
    "xai_access_token", "meta.json", "values"]

def managedByUser : String := "user"

def stripped (text : String) : String := .ofList (strip text.toList)

/-- A letter or digit, then letters, digits, dots, underscores and hyphens. -/
def secretNameRe : List Char → Bool
  | [] => false
  | c :: cs => c.isAlphanum && cs.all fun c => c.isAlphanum || c ∈ ['.', '_', '-']

def blank (text : String) : Bool := strip text.toList = []

/-- The file an atomic write of a value goes through. -/
def tmpName (key : String) : String := key ++ ".tmp"

section Policy

variable [CaseFold]

def isReservedSecretName (name : String) : Bool :=
  stripped name ∈ reservedSecretNames ||
    CaseFold.casefold (stripped name) ∈ reservedSecretNames.map CaseFold.casefold

def validateSecretName (name : String) : Except PyErr String :=
  let raw := stripped name
  if raw = "" then .error (.valueError [.text "invalid_secret_name"])
  else if isReservedSecretName raw then .error (.valueError [.text "reserved_secret_name"])
  else if !secretNameRe raw.toList then .error (.valueError [.text "invalid_secret_name"])
  else if raw ∈ [".", ".."] ∨ '/' ∈ raw.toList ∨ '\\' ∈ raw.toList then
    .error (.valueError [.text "invalid_secret_name"])
  else .ok raw

/-- Non-blank tool names, each once up to case, in order. -/
def normalizeNames (names : List String) : List String :=
  (names.foldl (fun (kept : List String × List String) item =>
    let g := stripped item
    let key := CaseFold.casefold g
    if g = "" ∨ key ∈ kept.2 then kept else (kept.1 ++ [g], kept.2 ++ [key])) ([], [])).1

def grantName : Json → Except PyErr String
  | .str g => .ok g
  | _ => .error (.valueError [.text "invalid_grants"])

def normalizeGrants : Json → Except PyErr (List String)
  | .null => .ok []
  | .arr items => do return normalizeNames (← items.mapM grantName)
  | _ => .error (.valueError [.text "invalid_grants"])

end Policy

/-- What `meta.json` says of one secret. -/
structure SecretEntry where
  managedBy : String
  createdAt : String
  updatedAt : String
  lastUsedAt : Option String
  grants : List String
  deriving DecidableEq

/-- `_public_entry`. -/
structure PublicEntry extends SecretEntry where
  name : String
  deriving DecidableEq

def publicEntry (name : String) (entry : SecretEntry) : PublicEntry :=
  { entry with
    name
    managedBy := if entry.managedBy = "" then managedByUser else entry.managedBy }

/-- The files under `values/` and the entries of `meta.json`. -/
structure SecretsStore where
  values : Dict String ByteArray
  entries : Dict String SecretEntry

/-- A value file without its last newline; an empty one is no value. -/
def valueText (bytes : ByteArray) : Option String :=
  (decodeUtf8 bytes).bind fun cs =>
    let text := universalNewlines cs
    let body := if text.getLast? = some '\n' then text.dropLast else text
    if body = [] then none else some (.ofList body)

namespace SecretsStore

def fresh : SecretsStore := ⟨.empty, .empty⟩

/-- The value in a file of `values/`. -/
def fileValue (s : SecretsStore) (key : String) : Option String :=
  (s.values.get? key).bind valueText

/-- `_load_meta`: an unreadable document counts as an empty one. -/
def loadMeta (readFails : Bool) (s : SecretsStore) : Dict String SecretEntry :=
  if readFails then .empty else s.entries

def writeValue (key value : String) (s : SecretsStore) : SecretsStore :=
  { s with values := (s.values.pop (tmpName key)).set key (encodeUtf8 (value.toList ++ ['\n'])) }

def writeMeta (entries : Dict String SecretEntry) (s : SecretsStore) : SecretsStore :=
  { s with entries }

variable [CaseFold]

def getMeta (s : SecretsStore) (name : String) : Option PublicEntry :=
  match validateSecretName name with
  | .error _ => none
  | .ok key => (s.entries.get? key).map (publicEntry key)

def getValue (s : SecretsStore) (name : String) : Option String :=
  match validateSecretName name with
  | .error _ => none
  | .ok key => s.fileValue key

/-- The values of the names that `meta.json` lists. -/
def knownValues (s : SecretsStore) : List String :=
  s.entries.keys.filterMap s.getValue

/-- What a `set_secret` is about to write: the file name and the entry. -/
def plannedEntry (now : String) (readFails : Bool) (name value : String) (grants : Option Json)
    (managedBy : String) (s : SecretsStore) : Except PyErr (String × SecretEntry) := do
  let key ← validateSecretName name
  if blank value then throw (.valueError [.text "empty_secret_value"])
  let given ← grants.mapM normalizeGrants
  let old := (s.loadMeta readFails).get? key
  return (key,
    { managedBy := if managedBy = "" then managedByUser else managedBy
      createdAt := (old.map SecretEntry.createdAt).getD now
      updatedAt := now
      lastUsedAt := old.bind SecretEntry.lastUsedAt
      grants := given.getD ((old.map fun e => normalizeNames e.grants).getD []) })

/-- The value is written before the entry. -/
def setSecret (now : String) (readFails : Bool) (name value : String) (grants : Option Json)
    (managedBy : String) (s : SecretsStore) : Except PyErr (PublicEntry × SecretsStore) := do
  let (key, entry) ← s.plannedEntry now readFails name value grants managedBy
  let written := s.writeValue key value
  return (publicEntry key entry, written.writeMeta ((s.loadMeta readFails).set key entry))

def deleteSecret (readFails : Bool) (name : String) (s : SecretsStore) :
    Except PyErr (Bool × SecretsStore) := do
  let key ← validateSecretName name
  let entries := s.loadMeta readFails
  let unlinked := { s with values := (s.values.pop key).pop (tmpName key) }
  let existed := key ∈ s.values.keys ∨ key ∈ entries.keys
  return (existed, if key ∈ entries.keys then unlinked.writeMeta (entries.pop key) else unlinked)

def setGrants (now : String) (readFails : Bool) (name : String) (grants : Json) (s : SecretsStore) :
    Except PyErr (PublicEntry × SecretsStore) := do
  let key ← validateSecretName name
  let grants ← normalizeGrants grants
  let entries := s.loadMeta readFails
  match entries.get? key with
  | none => throw (.valueError [.text "secret_not_found"])
  | some old =>
    let entry := { old with grants, updatedAt := now }
    return (publicEntry key entry, s.writeMeta (entries.set key entry))

def touchLastUsed (now : String) (readFails : Bool) (name : String) (s : SecretsStore) :
    SecretsStore :=
  match validateSecretName name with
  | .error _ => s
  | .ok key =>
    let entries := s.loadMeta readFails
    match entries.get? key with
    | none => s
    | some old => s.writeMeta (entries.set key { old with lastUsedAt := some now })

end SecretsStore

inductive SecretCall where
  | set (name value : String) (grants : Option Json) (managedBy : String)
  | delete (name : String)
  | setGrants (name : String) (grants : Json)
  | touch (name : String)

def SecretCall.name : SecretCall → String
  | set name _ _ _ | delete name | setGrants name _ | touch name => name

/-- A call, its clock reading and whether its read of `meta.json` fails. -/
structure SecretUse where
  call : SecretCall
  now : String
  readFails : Bool

/-- The store after a call; a call that raises leaves it as it was. -/
def SecretUse.perform [CaseFold] (s : SecretsStore) (u : SecretUse) : SecretsStore :=
  match u.call with
  | .set name value grants managedBy =>
    ((s.setSecret u.now u.readFails name value grants managedBy).map Prod.snd).toOption.getD s
  | .delete name => ((s.deleteSecret u.readFails name).map Prod.snd).toOption.getD s
  | .setGrants name grants =>
    ((s.setGrants u.now u.readFails name grants).map Prod.snd).toOption.getD s
  | .touch name => s.touchLastUsed u.now u.readFails name

end Elyra.Secrets
