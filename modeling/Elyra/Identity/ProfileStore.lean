import Elyra.Framework.Python
import Elyra.Framework.Text
import Elyra.Presence.PoisonFold
import Elyra.Secrets.Store

namespace Elyra.Identity

open Presence (intOrRaise)
open Secrets (stripped blank)

/-- `VERSION_ID_RE`: eight digits, `T`, six digits, `Z_` and six hexadecimal digits. -/
def isVersionId (s : String) : Bool :=
  let digit (c : Char) : Bool := '0' ≤ c && c ≤ '9'
  let hex (c : Char) : Bool := digit c || ('a' ≤ c && c ≤ 'f')
  let cs := s.toList
  cs.length = 23 && (cs.take 8).all digit && cs[8]? = some 'T' && ((cs.drop 9).take 6).all digit &&
    (cs.drop 15).take 2 = ['Z', '_'] && (cs.drop 17).all hex

/-- What `mint_version_id` returns. -/
abbrev VersionId := { s : String // isVersionId s = true }

/-- `VERSION_GC_LIMIT`. -/
def versionGcLimit : Nat := 50

abbrev Meta := Dict String Json

/-- The store of the self or of one user. -/
inductive Actor where
  | self
  | user (userId : String)

/-- The files of a store; `versions` holds the bodies of `versions/*.md` by version id. -/
structure Profile where
  doc : Option Meta
  current : Option String
  legacy : Option String
  draft : Option String
  versions : Dict String String

/-- What a call reads besides the files: the hash, the seed body, what the migration to version 2
makes of a body, the clock and the ids it mints. -/
structure Surroundings where
  sha256 : String → String
  seed : Option String
  migrated : String → Option String
  now : String
  mint : Nat → VersionId

/-- `load_json_object(meta.json)`: nothing when the file is missing or the read fails. -/
def Profile.load (p : Profile) (fails : Bool) : Option Meta := if fails then none else p.doc

/-- `self_digest` and `profile`: the live body. -/
def Profile.digest (p : Profile) : String := (p.current.or p.legacy).getD ""

section Versions

def rowId? : Json → Option String
  | .obj kvs =>
    match Json.lookup kvs "version_id" with
    | some (.str id) => some id
    | _ => none
  | _ => none

/-- The row of an index points to a version whose file is there. -/
def rowStands (versions : Dict String String) (row : Json) : Bool :=
  (rowId? row).any fun id => isVersionId id && (versions.get? id).isSome

/-- `prune_orphan_version_files`. -/
def pruneOrphans (rows : List Json) (versions : Dict String String) : Dict String String :=
  let keep := rows.filterMap fun row => (rowId? row).filter isVersionId
  versions.filterKeys fun id => !isVersionId id || keep.contains id

/-- `rebuild_versions_index`, with the dates of the rows there were. -/
def rebuiltRows (sha256 : String → String) (index : List Json) (versions : Dict String String) :
    List Json :=
  let ids := (versions.keys.filter isVersionId).mergeSort
  ids.map fun id =>
    let body := (versions.get? id).getD ""
    let old := (index.filter fun row => rowId? row = some id).getLast?
    let promotedAt := match old with
      | some (.obj kvs) => ((Json.lookup kvs "promoted_at").filter truthy).getD .null
      | _ => .null
    .obj [("version_id", .str id), ("promoted_at", promotedAt), ("sha256", .str (sha256 body)),
      ("bytes", .int body.utf8ByteSize)]

/-- `heal_versions_index`: the rows it leaves, and the files. -/
def healedVersions (sha256 : String → String) (index : List Json) (versions : Dict String String) :
    List Json × Dict String String :=
  let cleaned := index.filter (rowStands versions)
  if cleaned ≠ [] then (cleaned, pruneOrphans cleaned versions)
  else if versions.keys.any isVersionId then (rebuiltRows sha256 index versions, versions)
  else ([], versions)

/-- `list(v or [])`. -/
def pyList (v : Option Json) : Except PyErr (List Json) :=
  match v with
  | some (.arr xs) => .ok xs
  | some (.str s) => .ok (s.toList.map fun c => .str (.ofList [c]))
  | some (.obj kvs) => .ok (kvs.map fun kv => .str kv.1)
  | some v => if truthy v then .error .typeError else .ok []
  | none => .ok []

/-- The index of a document: its `versions` when that is a list. -/
def versionIndex (m : Meta) : List Json :=
  match m.get? "versions" with
  | some (.arr xs) => xs
  | _ => []

end Versions

section Defaults

/-- `_default_goes_by`. -/
def defaultGoesBy (userId : String) : String := if userId = "operator" then "Operator" else userId

/-- `_default_meta`. -/
def defaultMeta (a : Actor) (env : Surroundings) (id : VersionId) (body : String) : Meta :=
  let sha := if body = "" then .null else .str (env.sha256 body)
  match a with
  | .self => .ofList [("schema_version", .int 1), ("actor", .str "self"),
      ("display_name", .str "Elyra"), ("full_name", .null), ("goes_by", .str "Elyra"),
      ("real_name_known", .bool true), ("provisional", .bool false),
      ("current_version_id", .str id), ("draft_updated_at", .null), ("draft_meta", .null),
      ("current_promoted_at", .str env.now), ("current_content_sha256", sha),
      ("promote_count", .int 0), ("versions", .arr []), ("notes", .obj [])]
  | .user userId => .ofList [("schema_version", .int 1), ("actor", .str "user"),
      ("user_id", .str userId), ("display_name", .str (defaultGoesBy userId)), ("full_name", .null),
      ("goes_by", .str (defaultGoesBy userId)), ("real_name_known", .bool false),
      ("provisional", .bool false), ("created_at", .str env.now), ("current_version_id", .str id),
      ("draft_updated_at", .null), ("draft_meta", .null), ("current_promoted_at", .str env.now),
      ("current_content_sha256", sha), ("promote_count", .int 0), ("versions", .arr []),
      ("name_nudge", .obj [("last_moment_id", .null), ("last_at", .null), ("count", .int 0)]),
      ("notes", .obj [])]

/-- `load_json_object(...) or self._default_meta(...)`. -/
def Profile.loadOrDefault (p : Profile) (a : Actor) (env : Surroundings) (fails : Bool) : Meta :=
  match p.load fails with
  | some m => if m.items = [] then defaultMeta a env (env.mint 0) p.digest else m
  | none => defaultMeta a env (env.mint 0) p.digest

end Defaults

section Calls

abbrev ProfileM := Py Profile

def writeMeta (m : Meta) : ProfileM Unit := modify fun p => { p with doc := some m }

/-- The index heal at the end of `ensure_layout`. -/
def healIndex (env : Surroundings) (fails : Bool) : ProfileM Unit := do
  let p ← get
  match p.load fails with
  | none => return ()
  | some m =>
    let before ← ofExcept (pyList (m.get? "versions"))
    let (after, versions) := healedVersions env.sha256 (versionIndex m) p.versions
    modify fun p => { p with versions }
    if before ≠ after then
      writeMeta (m.set "versions" (.arr after))

/-- The live file is copied from the one of the layout before. -/
def Profile.withCurrent (p : Profile) : Profile := { p with current := p.current.or p.legacy }

/-- A store with a live body gets a document. -/
def Profile.withMeta (a : Actor) (env : Surroundings) (p : Profile) : Profile :=
  if (p.current.isSome || p.legacy.isSome) && p.doc.isNone then
    { p with doc := some (defaultMeta a env (env.mint 1) p.digest) }
  else p

/-- The seed-v1 migration of the live body, with its hash in the document. -/
def appendDrive (env : Surroundings) (fails : Bool) (p : Profile) : Profile :=
  match p.current with
  | some body =>
    match env.migrated body with
    | none => p
    | some body' =>
      let p := { p with current := some body' }
      match p.load fails with
      | none => p
      | some m => { p with doc := some (m.set "current_content_sha256" (.str (env.sha256 body'))) }
  | none => { p with legacy := p.legacy.map fun body => (env.migrated body).getD body }

/-- `_user_exists`; the self is there always. -/
def Profile.there (a : Actor) (p : Profile) : Bool :=
  match a with
  | .self => true
  | .user _ => p.current.isSome || p.legacy.isSome || p.doc.isSome

/-- Which reads of the document fail in `ensure_layout`. -/
structure EnsureReads where
  append : Bool
  heal : Bool

/-- `ensure_layout` for the self, `_ensure_one` for a user. -/
def ensureLayout (a : Actor) (env : Surroundings) (fails : EnsureReads) : ProfileM Unit := do
  if (← get).there a then
    match a with
    | .self =>
      modify fun p => if p.current.isNone && p.legacy.isNone then { p with current := env.seed }
        else p.withCurrent
      modify (Profile.withMeta a env)
      modify (appendDrive env fails.append)
    | .user _ =>
      modify Profile.withCurrent
      modify (Profile.withMeta a env)
    healIndex env fails.heal

/-- The answer of a call: done, or refused with an error code. -/
inductive Reply where
  | ok
  | refused (error : String)
  deriving DecidableEq

/-- What `full_name_change_requires_force` compares: `None` for a name that is blank. -/
def namedText [PyCoerce] : Option Json → Option String
  | none | some .null => none
  | some (.str s) => if blank s then none else some s
  | some v => some (pyStr v)

/-- `full_name_change_requires_force`. -/
def requiresForce [PyCoerce] (current patch : Option Json) : Bool :=
  namedText current ≠ namedText patch

def draftMetaKeys : List String :=
  ["display_name", "goes_by", "full_name", "real_name_known", "provisional"]

/-- The arguments of a `write_draft` call: the patch split as `strip_operational_keys` splits it. -/
structure DraftArgs where
  body : Option String
  patch : Meta
  reason : String
  momentId : Option String

namespace DraftArgs

def fields (d : DraftArgs) : Meta := d.patch.filterKeys draftMetaKeys.contains

def forced (d : DraftArgs) : Bool := d.patch.get? "force_full_name" = some (.bool true)

def nudges (d : DraftArgs) : Bool := d.patch.get? "record_name_nudge" = some (.bool true)

/-- The patch has one of the operational keys. -/
def operational (d : DraftArgs) : Bool :=
  (d.patch.get? "force_full_name").isSome || (d.patch.get? "record_name_nudge").isSome

end DraftArgs

/-- `check_body_size`. -/
def maxBodyBytes : Nat := 64 * 1024

/-- `dict.update`. -/
def Meta.update (m fields : Meta) : Meta := fields.items.foldl (fun m kv => m.set kv.1 kv.2) m

/-- The members of `draft_meta` when it is an object. -/
def draftFields (m : Meta) : Option Meta :=
  match m.get? "draft_meta" with
  | some (.obj kvs) => some (.ofList kvs)
  | _ => none

def Meta.withDraft (m : Meta) (draft : Meta) : Meta := m.set "draft_meta" (.obj draft.items)

/-- The document with the fields of a draft merged in. -/
def stageDraft (a : Actor) (env : Surroundings) (hasBody : Bool) (fields m : Meta) : Meta :=
  let m :=
    if fields.items ≠ [] then m.withDraft (((draftFields m).getD .empty).update fields)
    else
      match a with
      | .self =>
        if hasBody && ((m.get? "draft_meta").getD .null) = .null then m.set "draft_meta" .null
        else m
      | .user _ => m
  let m := match a with
    | .self => m.set "draft_updated_at" (.str env.now)
    | .user _ => m
  let m := match draftFields m with
    | some draft => m.withDraft (draft.filterKeys draftMetaKeys.contains)
    | none => m
  match a with
  | .self => m
  | .user _ => m.set "draft_updated_at" (.str env.now)

section Nudge

variable [PyCoerce]

def freshNudge : Dict String Json :=
  .ofList [("last_moment_id", .null), ("last_at", .null), ("count", .int 0)]

/-- `int(v or 0)`. -/
def countOf (v : Option Json) : Except PyErr Int :=
  match v with
  | some v => if truthy v then intOrRaise v else .ok 0
  | none => .ok 0

/-- Which reads of the document fail in `record_name_nudge`. -/
structure NudgeReads where
  ensure : EnsureReads
  load : Bool

/-- `record_name_nudge`. -/
def recordNameNudge (a : Actor) (env : Surroundings) (fails : NudgeReads) (momentId : String) :
    ProfileM Reply := do
  if blank momentId then return .refused "missing_moment_id"
  if !(← get).there a then return .refused "user_not_found"
  ensureLayout a env fails.ensure
  match (← get).load fails.load with
  | none => return .refused "user_not_found"
  | some m =>
    let nudge : Dict String Json := match m.get? "name_nudge" with
      | some (.obj kvs) => .ofList kvs
      | _ => freshNudge
    let count ← ofExcept (countOf (nudge.get? "count"))
    let nudge := ((nudge.set "last_moment_id" (.str (stripped momentId))).set "last_at"
      (.str env.now)).set "count" (.int (count + 1))
    writeMeta (m.set "name_nudge" (.obj nudge.items))
    return .ok

end Nudge

section Draft

variable [PyCoerce]

/-- Which reads of the document fail in `write_draft`: in its `ensure_layout`, at the gate of
`full_name`, in the nudge, and of the document that is staged. -/
structure DraftReads where
  ensure : EnsureReads
  gate : Bool
  nudge : NudgeReads
  main : Bool

/-- The call records a nudge; the store of the self has none. -/
def DraftArgs.wants (a : Actor) (args : DraftArgs) : Bool :=
  match a with
  | .self => false
  | .user _ => args.nudges

/-- The gate of `full_name` lets the patch through. -/
def gatePasses (a : Actor) (env : Surroundings) (gateFails : Bool) (args : DraftArgs)
    (p : Profile) : Bool :=
  match args.fields.get? "full_name" with
  | none => true
  | some name =>
    !requiresForce ((p.loadOrDefault a env gateFails).get? "full_name") (some name) || args.forced

/-- What `write_draft` says of its body: no text may be left out without another change. -/
def bodyError (a : Actor) (args : DraftArgs) : Option String :=
  match args.body with
  | some body =>
    if blank body then some "empty_body"
    else if maxBodyBytes < body.utf8ByteSize then some "body_too_large"
    else none
  | none =>
    let otherwise := match a with
      | .self => args.operational
      | .user _ => args.nudges
    if args.fields.items = [] ∧ !otherwise then some "empty_body" else none

/-- The nudge that comes with a draft. -/
def nudgeFirst (a : Actor) (env : Surroundings) (fails : NudgeReads) (args : DraftArgs) :
    ProfileM Reply :=
  if args.wants a then recordNameNudge a env fails (stripped (args.momentId.getD ""))
  else return .ok

/-- The part of `write_draft` that stages the draft. -/
def stage (a : Actor) (env : Surroundings) (fails : DraftReads) (args : DraftArgs) :
    ProfileM Reply := do
  match args.body with
  | some body => modify fun p => { p with draft := some body }
  | none => pure ()
  let p ← get
  writeMeta (stageDraft a env args.body.isSome args.fields (p.loadOrDefault a env fails.main))
  return .ok

/-- `write_draft`. -/
def writeDraft (a : Actor) (env : Surroundings) (fails : DraftReads) (args : DraftArgs) :
    ProfileM Reply := do
  if blank args.reason then return .refused "missing_reason"
  if !(← get).there a then return .refused "user_not_found"
  ensureLayout a env fails.ensure
  let wants := args.wants a
  if wants && (args.momentId.all blank) then return .refused "missing_moment_id"
  if !gatePasses a env fails.gate args (← get) then return .refused "full_name_force_required"
  match bodyError a args with
  | some error => return .refused error
  | none =>
    match ← nudgeFirst a env fails.nudge args with
    | .refused error => return .refused error
    | .ok =>
      if wants && args.body.isNone && args.fields.items = [] then return .ok
      stage a env fails args

end Draft

section Promote

variable [PyCoerce]

structure PromoteReads where
  ensure : EnsureReads
  load : Bool

structure PromoteArgs where
  reason : String
  expectedDraftSha256 : Option String

/-- `_norm_str`. -/
def normText : Option Json → Option String
  | none | some .null => none
  | some (.str s) => if blank s then none else some (stripped s)
  | some v => some (pyStr v)

/-- `_norm_bool`. -/
def normBool : Option Json → Option Bool
  | none | some .null => none
  | some v => some (truthy v)

/-- The id under which the outgoing body is archived. -/
def archiveId (env : Surroundings) (m : Meta) : String :=
  match m.get? "current_version_id" with
  | some (.str id) => if isVersionId id then id else env.mint 2
  | _ => env.mint 2

/-- `archive_index_entry`. -/
def archiveRow (env : Surroundings) (id body : String) : Json :=
  .obj [("version_id", .str id), ("promoted_at", .str env.now), ("sha256", .str (env.sha256 body)),
    ("bytes", .int body.utf8ByteSize)]

/-- The outgoing body goes to the archive, with a row of its own: the rows, those the trim drops,
and the files. -/
def archive (env : Surroundings) (m : Meta) (body : String) (rows : List Json)
    (versions : Dict String String) : List Json × List Json × Dict String String :=
  let id := archiveId env m
  let versions := if (versions.get? id).isSome then versions else versions.set id body
  let rows :=
    if rows.any fun row => rowId? row = some id then rows
    else rows ++ [archiveRow env id ((versions.get? id).getD "")]
  let excess := rows.length - versionGcLimit
  (rows.drop excess, rows.take excess, versions)

/-- `delete_version_files`. -/
def deleteVersions (drop : List Json) (versions : Dict String String) : Dict String String :=
  versions.filterKeys fun id => !(drop.filterMap rowId?).contains id

/-- The fields of a draft that are promoted. -/
def Meta.promoted (m : Meta) : Meta :=
  match draftFields m with
  | none => m
  | some draft => draftMetaKeys.foldl (fun m key =>
      match draft.get? key with
      | some v => m.set key v
      | none => m) m

/-- A user whose name changed is asked for it anew. -/
def resetNudge (a : Actor) (old m : Meta) : Meta :=
  match a with
  | .self => m
  | .user _ =>
    if normText (m.get? "goes_by") ≠ normText (old.get? "goes_by") ∨
        normBool (m.get? "real_name_known") ≠ normBool (old.get? "real_name_known") then
      m.set "name_nudge" (.obj freshNudge.items)
    else m

/-- A user whose real name is known is no longer provisional. -/
def clearProvisional (a : Actor) (m : Meta) : Meta :=
  match a with
  | .self => m
  | .user _ =>
    if m.get? "real_name_known" = some (.bool true) ∧ (m.get? "provisional").any truthy then
      m.set "provisional" (.bool false)
    else m

/-- The document of a promoted draft. -/
def promotedMeta (a : Actor) (env : Surroundings) (m : Meta) (sha : String) (rows : List Json)
    (count : Int) : Meta :=
  let m := resetNudge a m m.promoted
  let m := (((m.set "current_version_id" (.str (env.mint 3))).set "draft_meta" .null).set
    "draft_updated_at" .null).set "current_promoted_at" (.str env.now)
  let m := ((m.set "current_content_sha256" (.str sha)).set "promote_count" (.int count)).set
    "versions" (.arr rows)
  clearProvisional a m

/-- The draft of an earlier promote was left behind: it is what is live already. -/
def alreadyPromoted (m : Meta) (p : Profile) (draft sha : String) : Bool :=
  ((m.get? "draft_meta").getD .null = .null) && p.current.isSome && draft = p.digest &&
    m.get? "current_content_sha256" = some (.str sha)

/-- There is a live body to archive. -/
def Profile.archives (a : Actor) (p : Profile) : Bool :=
  p.digest ≠ "" && (p.current.isSome || match a with
    | .self => false
    | .user _ => p.legacy.isSome)

/-- `promote` on a draft that is there. -/
def promoteDraft (a : Actor) (env : Surroundings) (fails : PromoteReads) (draft : String) :
    ProfileM Reply := do
  let p ← get
  let sha := env.sha256 draft
  let m := p.loadOrDefault a env fails.load
  if alreadyPromoted m p draft sha then
    match (m.get? "versions").filter truthy with
    | none => modify fun p => { p with versions := pruneOrphans [] p.versions }
    | some (.arr rows) => modify fun p => { p with versions := pruneOrphans rows p.versions }
    | some _ => pure ()
    modify fun p => { p with draft := none }
    return .ok
  let rows ← ofExcept (pyList (m.get? "versions"))
  let (rows, drop, versions) :=
    if p.archives a then archive env m p.digest rows p.versions else (rows, [], p.versions)
  modify fun p => { p with versions, current := some draft }
  let count ← ofExcept (countOf (m.get? "promote_count"))
  writeMeta (promotedMeta a env m sha rows (count + 1))
  modify fun p => { p with versions := deleteVersions drop p.versions, draft := none }
  return .ok

/-- `promote`. -/
def promote (a : Actor) (env : Surroundings) (fails : PromoteReads) (args : PromoteArgs) :
    ProfileM Reply := do
  if blank args.reason then return .refused "missing_reason"
  if !(← get).there a then return .refused "user_not_found"
  ensureLayout a env fails.ensure
  match (← get).draft with
  | none => return .refused "draft_missing"
  | some draft =>
    if blank draft then return .refused "draft_missing"
    if args.expectedDraftSha256.any fun sha => sha ≠ env.sha256 draft then
      return .refused "draft_hash_mismatch"
    promoteDraft a env fails draft

end Promote

end Calls

end Elyra.Identity
