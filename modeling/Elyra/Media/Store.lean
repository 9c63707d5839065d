import Elyra.Framework.IsoText
import Elyra.Framework.Run
import Elyra.Framework.Sorted
import Mathlib.Data.Prod.Lex
import Mathlib.Data.String.Basic

namespace Elyra.Media

def attachmentKinds : List String := ["image", "audio", "video", "file", "tts_cache"]

def attachmentOrigins : List String :=
  ["user_upload", "user_recording", "tool", "speak", "view", "stt_source", "tts_cache", "system"]

def roleHints : List String := ["primary", "inline", "source", "derived"]

def embeddingStatuses : List String := ["none", "pending", "ready", "failed"]

/-- The meta record of an attachment. -/
structure Attachment where
  id : String
  kind : String
  origin : String
  filename : String
  mime : String
  byteSize : Int
  sha256 : String
  createdAt : String
  roleHint : String := "primary"
  sandboxRelpath : Option String := none
  xaiFileId : Option String := none
  xaiFileExpiresAt : Option String := none
  sourceMessageId : Option String := none
  voiceId : Option String := none
  transcriptOf : Option String := none
  embeddingStatus : String := "none"
  embeddingRef : Option String := none
  boundMessageId : Option String := none
  uploaderUserId : Option String := some "operator"
  deriving DecidableEq

/-- `text or default`. -/
def textOr (text default : String) : String := if text = "" then default else text

/-- `Attachment.from_dict` on a meta file that holds the record. -/
def Attachment.fromDict (raw : Attachment) : Attachment :=
  { raw with
    kind := textOr raw.kind "file"
    origin := textOr raw.origin "system"
    filename := textOr raw.filename "file"
    mime := textOr raw.mime "application/octet-stream"
    roleHint := textOr raw.roleHint "primary"
    embeddingStatus :=
      if raw.embeddingStatus ∈ embeddingStatuses then raw.embeddingStatus else "none" }

section Sniff

def asciiBytes (text : String) : List UInt8 := text.toList.map fun c => c.toNat.toUInt8

/-- `data[lo:hi] == piece`, the piece being as long as the slice. -/
def sliceIs (data : List UInt8) (lo : Nat) (piece : List UInt8) : Bool :=
  (data.drop lo).take piece.length = piece

inductive SniffSource where
  | magic | ambiguous | extension | claim | default
  deriving DecidableEq

/-- `str.lower` on the letters a file extension has. -/
def lowerAscii (text : String) : String := String.ofList (text.toList.map Char.toLower)

def startsWith (text start : String) : Bool := start.toList.isPrefixOf text.toList

def endsWith (text ending : String) : Bool := ending.toList.isSuffixOf text.toList

def extMap : List (String × String × String) :=
  [(".png", "image/png", "image"), (".jpg", "image/jpeg", "image"),
    (".jpeg", "image/jpeg", "image"), (".gif", "image/gif", "image"),
    (".webp", "image/webp", "image"), (".pdf", "application/pdf", "file"),
    (".txt", "text/plain", "file"), (".md", "text/markdown", "file"),
    (".json", "application/json", "file"), (".csv", "text/csv", "file"),
    (".wav", "audio/wav", "audio"), (".mp3", "audio/mpeg", "audio"),
    (".ogg", "audio/ogg", "audio"), (".webm", "audio/webm", "audio"),
    (".mp4", "video/mp4", "video")]

/-- The magic-byte table, then the claim and the file name; an empty claim counts as none. -/
def sniffMimeKindSource (data : List UInt8) (filename claimedMime : Option String) :
    String × String × SniffSource :=
  let name := lowerAscii (filename.getD "")
  let claimed := claimedMime.getD ""
  if [0x89, 0x50, 0x4e, 0x47, 0x0d, 0x0a, 0x1a, 0x0a].isPrefixOf data then
    ("image/png", "image", .magic)
  else if sliceIs data 0 [0xff, 0xd8, 0xff] then ("image/jpeg", "image", .magic)
  else if sliceIs data 0 (asciiBytes "GIF87a") || sliceIs data 0 (asciiBytes "GIF89a") then
    ("image/gif", "image", .magic)
  else if sliceIs data 0 (asciiBytes "RIFF") && sliceIs data 8 (asciiBytes "WEBP") then
    ("image/webp", "image", .magic)
  else if sliceIs data 0 (asciiBytes "%PDF") then ("application/pdf", "file", .magic)
  else if sliceIs data 0 (asciiBytes "RIFF") && sliceIs data 8 (asciiBytes "WAVE") then
    ("audio/wav", "audio", .magic)
  else if sliceIs data 0 [0x1a, 0x45, 0xdf, 0xa3] then
    if endsWith name ".webm" then
      if startsWith claimed "video/" then ("video/webm", "video", .ambiguous)
      else ("audio/webm", "audio", .ambiguous)
    else if startsWith claimed "video/" then (claimed, "video", .ambiguous)
    else if startsWith claimed "audio/" then (claimed, "audio", .ambiguous)
    else ("audio/webm", "audio", .ambiguous)
  else if 12 ≤ data.length && sliceIs data 4 (asciiBytes "ftyp") then
    if startsWith claimed "audio/" then (claimed, "audio", .ambiguous)
    else ("video/mp4", "video", .ambiguous)
  else
    match extMap.find? fun e => endsWith name e.1 with
    | some e => (e.2.1, e.2.2, .extension)
    | none =>
      if claimed = "" then ("application/octet-stream", "file", .default)
      else if startsWith claimed "image/" then (claimed, "image", .claim)
      else if startsWith claimed "audio/" then (claimed, "audio", .claim)
      else if startsWith claimed "video/" then (claimed, "video", .claim)
      else (claimed, "file", .claim)

end Sniff

section Names

def alphanumeric (c : Char) : Bool :=
  ('a' ≤ c && c ≤ 'z') || ('A' ≤ c && c ≤ 'Z') || ('0' ≤ c && c ≤ '9')

def nameChar (c : Char) : Bool := alphanumeric c || c = '.' || c = '_' || c = '-'

/-- `_ATT_ID_RE`. -/
def validateAttId (attId : String) : Bool :=
  match attId.toList with
  | [] => false
  | c :: cs => alphanumeric c && cs.all nameChar

/-- A run of other characters becomes one underscore. -/
def collapseRuns : Bool → List Char → List Char
  | _, [] => []
  | inRun, c :: cs =>
    if nameChar c then c :: collapseRuns false cs
    else if inRun then collapseRuns true cs
    else '_' :: collapseRuns true cs

/-- `Path(name).name`. -/
def lastPart (cs : List Char) : List Char :=
  (((cs.splitOn '/').filter fun p => p ≠ [] ∧ p ≠ ['.']).getLast?).getD []

def trimmed (cs : List Char) : List Char :=
  let edge := fun c => c = '.' ∨ c = '_'
  ((cs.dropWhile edge).reverse.dropWhile edge).reverse

def safeFilename (name : String) : String :=
  let base := if name = "" then "file".toList else lastPart name.toList
  let base := trimmed (collapseRuns false base)
  String.ofList ((if base = [] then "file".toList else base).take 180)

end Names

/-- The files of the store: metas by attachment id, blobs by digest. -/
structure MediaStore where
  metas : Dict String Attachment
  blobs : Dict String (List UInt8)

namespace MediaStore

def get (s : MediaStore) (attId : String) : Option Attachment :=
  if validateAttId attId then (s.metas.get? attId).map Attachment.fromDict else none

def listMetaIds (s : MediaStore) : List String := s.metas.keys

end MediaStore

/-- The arguments of `put_bytes`, the id it draws, and the time it reads. -/
structure PutRequest where
  data : List UInt8
  filename : String
  mime : Option String := none
  kind : Option String := none
  origin : String := "user_upload"
  roleHint : String := "primary"
  uploaderUserId : Option String := some "operator"
  attId : Option String := none
  boundMessageId : Option String := none
  uuid : String
  now : Instant
  deriving DecidableEq

namespace PutRequest

def newAttId (r : PutRequest) : String := "att_" ++ r.uuid

def sniffed (r : PutRequest) : String × String × SniffSource :=
  sniffMimeKindSource r.data (some r.filename) r.mime

def finalMime (r : PutRequest) : String :=
  if r.sniffed.2.2 = .magic then r.sniffed.1 else textOr (r.mime.getD "") r.sniffed.1

def finalKind (r : PutRequest) : String := textOr (r.kind.getD "") r.sniffed.2.1

/-- The record a put writes. -/
def attachment (sha256 : List UInt8 → String) (r : PutRequest) (aid : String) : Attachment where
  id := aid
  kind := r.finalKind
  origin := r.origin
  filename := safeFilename r.filename
  mime := r.finalMime
  byteSize := r.data.length
  sha256 := sha256 r.data
  createdAt := isoZ r.now
  roleHint := if r.roleHint ∈ roleHints then r.roleHint else "primary"
  sandboxRelpath := some ("media/" ++ aid ++ "/" ++ safeFilename r.filename)
  boundMessageId := r.boundMessageId
  uploaderUserId := r.uploaderUserId

end PutRequest

/-- The clock and limits of `gc_unbound_attachments`. -/
structure GcRequest where
  now : Instant
  maxAge : Int := 24 * 3600000000
  maxBytes : Int := 256 * 1024 * 1024
  deriving DecidableEq

section Gc

def parseCreatedAt (raw : String) : Option Instant :=
  match utcOf raw with
  | .ok t => some t
  | .error _ => none

/-- 1970 in microseconds, the `0.0` of a stamp that does not parse. -/
def epochMicros : Int := 719162 * 86400000000

/-- Oldest first. -/
def sortUnbound (atts : List Attachment) : List Attachment :=
  sortBy (fun a : Attachment =>
    toLex (((parseCreatedAt a.createdAt).map fun t => (t.val : Int)).getD epochMicros, a.id))
    (atts.filter fun a => a.boundMessageId = none)

def tooOld (r : GcRequest) (a : Attachment) : Bool :=
  match parseCreatedAt a.createdAt with
  | none => true
  | some t => (t.val : Int) ≤ r.now.val - r.maxAge

def totalBytes (atts : List Attachment) : Int := (atts.map fun a => max 0 a.byteSize).sum

/-- The oldest of the remaining ones, until the total is within the budget. -/
def overBudget (maxBytes : Int) : Int → List Attachment → List Attachment
  | _, [] => []
  | total, a :: rest =>
    if total ≤ maxBytes then []
    else a :: overBudget maxBytes (total - max 0 a.byteSize) rest

/-- What a pass deletes of the unbound attachments: those too old, then those over the budget. -/
def gcSelect (r : GcRequest) (unbound : List Attachment) : List Attachment :=
  let old := unbound.filter (tooOld r)
  let remaining := unbound.filter fun a => a.id ∉ old.map Attachment.id
  old ++ overBudget r.maxBytes (totalBytes remaining) remaining

end Gc

/-- What a call returned or raised. -/
inductive MediaReply where
  | stored (att : Attachment)
  | bound (att : Attachment) (messageId : String)
  | xaiSet (att : Attachment)
  | deleted (existed : Bool)
  | collected (deletedIds : List String) (unboundRemaining : Nat) (unboundBytes : Int)
  | valueError
  | notFound
  deriving DecidableEq

/-- Who deletes: a direct call, or a garbage collection with what it still has to delete. -/
inductive Deleter where
  | call (removeBlobIfOrphan : Bool)
  | gc (rest : List Attachment) (deletedIds : List String)
  deriving DecidableEq

/-- Where a thread is: the file operation it takes next. -/
inductive Place where
  | putGet (r : PutRequest) (aid : String)
  | putTest (r : PutRequest) (aid : String)
  | putBlob (r : PutRequest) (aid : String)
  | putMeta (r : PutRequest) (aid : String)
  | bindGet (attId messageId : String)
  | bindMeta (att : Attachment) (messageId : String)
  | xaiGet (attId fileId : String) (expiresAt : Option String)
  | xaiMeta (att : Attachment) (fileId : String) (expiresAt : Option String)
  | delGet (d : Deleter) (attId : String)
  | delMeta (d : Deleter) (attId sha : String)
  | delList (d : Deleter) (attId sha : String)
  | delScan (d : Deleter) (attId sha : String) (ids : List String)
  | delBlob (d : Deleter) (attId sha : String)
  | gcList (r : GcRequest)
  | gcGet (r : GcRequest) (ids : List String) (found : List Attachment)
  | gcRelist (deletedIds : List String)
  | gcReget (deletedIds : List String) (ids : List String) (found : List Attachment)
  | done (reply : MediaReply)
  deriving DecidableEq

inductive MediaCall where
  | putBytes (r : PutRequest)
  | bindMessage (attId messageId : String)
  | setXaiFile (attId fileId : String) (expiresAt : Option String)
  | deleteAttachment (attId : String) (removeBlobIfOrphan : Bool)
  | gcUnboundAttachments (r : GcRequest)

/-- The checks of a call before its first file operation. -/
def MediaCall.enter : MediaCall → Place
  | .putBytes r =>
    if r.origin ∉ attachmentOrigins ∨ r.finalKind ∉ attachmentKinds then .done .valueError
    else
      match r.attId with
      | none => .putTest r r.newAttId
      | some aid => if validateAttId aid then .putGet r aid else .done .valueError
  | .bindMessage attId messageId =>
    if strip messageId.toList = [] then .done .valueError else .bindGet attId messageId
  | .setXaiFile attId fileId expiresAt =>
    if strip fileId.toList = [] then .done .valueError else .xaiGet attId fileId expiresAt
  | .deleteAttachment attId removeBlobIfOrphan => .delGet (.call removeBlobIfOrphan) attId
  | .gcUnboundAttachments r => .gcList r

/-- The next attachment a garbage collection deletes; one that its list has as bound is refused. -/
def gcNext (deletedIds : List String) : List Attachment → Place
  | [] => .gcRelist deletedIds
  | a :: rest =>
    if a.boundMessageId.isSome then gcNext deletedIds rest else .delGet (.gc rest deletedIds) a.id

/-- What follows when a delete returns. -/
def Deleter.finish (d : Deleter) (attId : String) (existed : Bool) : Place :=
  match d with
  | .call _ => .done (.deleted existed)
  | .gc rest deletedIds => gcNext (if existed then deletedIds ++ [attId] else deletedIds) rest

def Deleter.removeBlob : Deleter → Bool
  | .call removeBlobIfOrphan => removeBlobIfOrphan
  | .gc _ _ => true

/-- The next meta to look at for a reference to the blob, or its unlink. -/
def scanNext (d : Deleter) (attId sha : String) (ids : List String) : Place :=
  if ids = [] then .delBlob d attId sha else .delScan d attId sha ids

/-- `_write_meta`. -/
def MediaStore.writeMeta (att : Attachment) (reply : MediaReply) (s : MediaStore) :
    Place × MediaStore :=
  if validateAttId att.id then (.done reply, { s with metas := s.metas.set att.id att })
  else (.done .valueError, s)

/-- One file operation of a thread. -/
def Place.step (sha256 : List UInt8 → String) (p : Place) (s : MediaStore) : Place × MediaStore :=
  match p with
  | .putGet r aid =>
    match s.get aid with
    | none => (.putTest r aid, s)
    | some att =>
      if att.sha256 = sha256 r.data then (.done (.stored att), s) else (.done .valueError, s)
  | .putTest r aid =>
    (if (s.blobs.get? (sha256 r.data)).isSome then .putMeta r aid else .putBlob r aid, s)
  | .putBlob r aid => (.putMeta r aid, { s with blobs := s.blobs.set (sha256 r.data) r.data })
  | .putMeta r aid =>
    s.writeMeta (r.attachment sha256 aid) (.stored (r.attachment sha256 aid))
  | .bindGet attId messageId =>
    match s.get attId with
    | none => (.done .notFound, s)
    | some att =>
      if att.boundMessageId ≠ none ∧ att.boundMessageId ≠ some messageId then (.done .valueError, s)
      else if att.boundMessageId = some messageId then (.done (.bound att messageId), s)
      else (.bindMeta att messageId, s)
  | .bindMeta att messageId =>
    let att := { att with boundMessageId := some messageId }
    s.writeMeta att (.bound att messageId)
  | .xaiGet attId fileId expiresAt =>
    match s.get attId with
    | none => (.done .notFound, s)
    | some att => (.xaiMeta att fileId expiresAt, s)
  | .xaiMeta att fileId expiresAt =>
    let att := { att with
      xaiFileId := some (.ofList (strip fileId.toList))
      xaiFileExpiresAt := expiresAt }
    s.writeMeta att (.xaiSet att)
  | .delGet d attId =>
    match s.get attId with
    | none => (d.finish attId false, s)
    | some att => (.delMeta d attId att.sha256, s)
  | .delMeta d attId sha =>
    (if d.removeBlob ∧ sha ≠ "" then .delList d attId sha else d.finish attId true,
      { s with metas := s.metas.pop attId })
  | .delList d attId sha => (scanNext d attId sha s.listMetaIds, s)
  | .delScan d attId sha [] => (.delBlob d attId sha, s)
  | .delScan d attId sha (otherId :: ids) =>
    if (s.get otherId).any fun other => other.sha256 = sha then (d.finish attId true, s)
    else (scanNext d attId sha ids, s)
  | .delBlob d attId sha => (d.finish attId true, { s with blobs := s.blobs.pop sha })
  | .gcList r => (.gcGet r s.listMetaIds [], s)
  | .gcGet r ids found =>
    match ids with
    | [] => (gcNext [] (gcSelect r (sortUnbound found)), s)
    | attId :: ids => (.gcGet r ids (found ++ (s.get attId).toList), s)
  | .gcRelist deletedIds => (.gcReget deletedIds s.listMetaIds [], s)
  | .gcReget deletedIds ids found =>
    match ids with
    | [] =>
      (.done (.collected deletedIds (sortUnbound found).length (totalBytes (sortUnbound found))), s)
    | attId :: ids => (.gcReget deletedIds ids (found ++ (s.get attId).toList), s)
  | .done reply => (.done reply, s)

/-- The store and every thread that entered a call. -/
structure MediaState where
  store : MediaStore
  threads : List Place

inductive MediaAction where
  | start (call : MediaCall)
  | step (i : Nat)

def stepMedia (sha256 : List UInt8 → String) (s : MediaState) : MediaAction → MediaState
  | .start call => { s with threads := s.threads ++ [call.enter] }
  | .step i =>
    match s.threads[i]? with
    | none => s
    | some p =>
      let next := p.step sha256 s.store
      ⟨next.2, s.threads.set i next.1⟩

end Elyra.Media
