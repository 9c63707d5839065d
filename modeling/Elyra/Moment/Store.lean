import Elyra.Framework.Effects
import Elyra.Framework.Json.Tape
import Elyra.Framework.Run

namespace Elyra.Moment

open Json

/-- `_MOMENT_ID_RE`: a letter or a digit, and then also dots, underscores and dashes. -/
def idHead (c : Char) : Bool :=
  ('A' ≤ c && c ≤ 'Z') || ('a' ≤ c && c ≤ 'z') || ('0' ≤ c && c ≤ '9')

def idRest (c : Char) : Bool := idHead c || c = '.' || c = '_' || c = '-'

def matchesIdRe : List Char → Bool
  | [] => false
  | c :: cs => idHead c && cs.all idRest

/-- A text that matches is a single path segment, so the checks on its path pass. -/
def validMomentId (text : String) : Bool :=
  matchesIdRe text.toList && text.toList.map Char.toLower ≠ "index".toList

structure MomentId where
  text : String
  valid : validMomentId text = true
  deriving DecidableEq

/-- What the store raises: a message that ends in `: {value!r}`, or the error of a read. -/
inductive Raised where
  | valueError (text : String) (shown : Json)
  | keyError (text : String) (shown : Json)
  | unicodeDecodeError
  | attributeError
  deriving DecidableEq

def validateMomentId (momentId : String) : Except Raised MomentId :=
  if h : validMomentId momentId = true then .ok ⟨momentId, h⟩
  else .error (.valueError "invalid moment_id" (.str momentId))

def STOP_REASONS : List String :=
  ["no_tools", "wait", "blocked", "policy", "time_continue_declined", "wall_clock", "interrupted",
    "error", "max_hops"]

def BEAT_TYPES : List String := ["model", "tool", "speak", "obs", "ledger", "skill_load", "stop"]

def SCHEMA_VERSION : Int := 1

def validateStopReason (stopReason : String) : Except Raised String :=
  if stopReason ∈ STOP_REASONS then .ok stopReason
  else .error (.valueError "invalid stop_reason" (.str stopReason))

/-- An index line or a beat. -/
abbrev Row := Dict String Json

inductive File where
  | index
  | tape (momentId : MomentId)
  deriving DecidableEq

/-- What a file of rows can do. -/
structure Storage (φ : Type) where
  empty : φ
  rows : φ → Except Raised (List Json)
  append : φ → Row → φ
  replaced : List Row → φ
  cut : φ → Nat → φ

/-- Files of bytes. The whole text is decoded as it is read, and a line that does not load is
skipped. -/
def bytes : Storage AppendFile where
  empty := .empty
  rows f :=
    match decodeUtf8 f.content with
    | some cs => .ok (loadedRows cs)
    | none => .error .unicodeDecodeError
  append f row := f.append row.items
  replaced rows := .replaced (rows.map Dict.items)
  cut f k := f.cut k

/-- Files that only say which rows were written. -/
def written : Storage Written where
  empty := .empty
  rows w := .ok (w.rows.map Json.obj)
  append w row := w.append row.items
  replaced rows := .replaced (rows.map Dict.items)
  cut w k := w.cut k

section Store

variable {φ : Type} (S : Storage φ)

/-- `data/moments`: an absent file reads as an empty one. -/
abbrev Moments (φ : Type) := File → φ

abbrev Act (φ : Type) := EStateM Raised (Moments φ)

def raise {α : Type} (e : Raised) : Act φ α := throw e

def check {α : Type} (r : Except Raised α) : Act φ α := fun s =>
  match r with
  | .ok a => .ok a s
  | .error e => .error e s

def readRows (file : File) : Act φ (List Json) := do
  let s ← get
  check (S.rows (s file))

def appendRow (file : File) (row : Row) : Act φ Unit :=
  modify (fun s => Function.update s file (S.append (s file) row))

/-- One line of the index: a row without a usable `id` is passed over. -/
def foldRow (byId : Dict String Row) : Json → Except Raised (Dict String Row)
  | .obj kvs =>
    match (Dict.ofList kvs).get? "id" with
    | some (.str mid) => .ok (if mid = "" then byId else byId.set mid (Dict.ofList kvs))
    | _ => .ok byId
  | _ => .error .attributeError

def foldRows (rows : List Json) : Except Raised (Dict String Row) := rows.foldlM foldRow .empty

def loadIndexById : Act φ (Dict String Row) := do
  let rows ← readRows S .index
  check (foldRows rows)

def rewriteIndex (byId : Dict String Row) : Act φ Unit :=
  modify (fun s => Function.update s .index (S.replaced byId.values))

/-- `meta.get("ended_at") is not None` -/
def ended (row : Row) : Bool :=
  match row.get? "ended_at" with
  | none | some .null => false
  | some _ => true

def optText : Option String → Json
  | none => .null
  | some s => .str s

def texts (xs : List String) : Json := .arr (xs.map .str)

structure OpenArgs where
  whyNow : String
  userId : Option String
  wakeId : Option String
  goalIds : List String
  taskIds : List String
  momentId : Option String

def newMeta (mid : String) (now : String) (a : OpenArgs) : Row :=
  Dict.ofList [("schema_version", .int SCHEMA_VERSION), ("id", .str mid), ("started_at", .str now),
    ("ended_at", .null), ("why_now", .str a.whyNow), ("user_id", optText a.userId),
    ("goal_ids", texts a.goalIds), ("task_ids", texts a.taskIds), ("skills_used", .arr []),
    ("stop_reason", .null), ("wake_id", optText a.wakeId), ("hop_count", .int 0)]

/-- `now` is the clock's reading and `fresh` the id `uuid4` draws. -/
def openMoment (a : OpenArgs) (now : String) (fresh : MomentId) : Act φ String := do
  let mid ← check (match a.momentId with
    | some momentId => validateMomentId momentId
    | none => .ok fresh)
  let existing ← loadIndexById S
  if (existing.get? mid.text).isSome then
    raise (.valueError "moment already exists" (.str mid.text))
  else
    appendRow S .index (newMeta mid.text now a)
    pure mid.text

def getMoment (momentId : String) : Act φ (Option Row) := do
  let mid ← check (validateMomentId momentId)
  let byId ← loadIndexById S
  pure (byId.get? mid.text)

/-- `beat.get("type")` must be one of the known types. -/
def beatType (beat : Row) : Except Raised Unit :=
  match beat.get? "type" with
  | some (.str t) =>
    if t ∈ BEAT_TYPES then .ok () else .error (.valueError "invalid beat type" (.str t))
  | some v => .error (.valueError "invalid beat type" v)
  | none => .error (.valueError "invalid beat type" .null)

def stamped (beat : Row) (now : String) : Row :=
  if (beat.get? "ts").any truthy then beat else beat.set "ts" (.str now)

def appendBeat (momentId : String) (beat : Row) (now : String) : Act φ Unit := do
  let mid ← check (validateMomentId momentId)
  let found ← getMoment S mid.text
  match found with
  | none => raise (.keyError "unknown moment_id" (.str mid.text))
  | some row =>
    if ended row then raise (.valueError "moment already closed" (.str mid.text))
    else
      check (beatType beat)
      appendRow S (.tape mid) (stamped beat now)

def setDefault (row : Row) (key : String) (v : Json) : Row :=
  if (row.get? key).isSome then row else row.set key v

def orKeep (row : Row) (key : String) : Option Json → Row
  | some v => row.set key v
  | none => row

def closedMeta (row : Row) (now reason : String) (hopCount : Option Int)
    (skillsUsed : Option (List String)) : Row :=
  let updated := (row.set "ended_at" (.str now)).set "stop_reason" (.str reason)
  let updated := orKeep updated "hop_count" (hopCount.map .int)
  let updated := orKeep updated "skills_used" (skillsUsed.map texts)
  setDefault updated "schema_version" (.int SCHEMA_VERSION)

def closeMoment (momentId stopReason : String) (hopCount : Option Int)
    (skillsUsed : Option (List String)) (now : String) : Act φ Row := do
  let mid ← check (validateMomentId momentId)
  let reason ← check (validateStopReason stopReason)
  let byId ← loadIndexById S
  match byId.get? mid.text with
  | none => raise (.keyError "unknown moment_id" (.str mid.text))
  | some row =>
    if ended row then pure row
    else
      let updated := closedMeta row now reason hopCount skillsUsed
      rewriteIndex S (byId.set mid.text updated)
      pure updated

/-- The loop over the snapshot of the items: the ids closed, and the index with them closed. -/
def recoverItems (now : String) (byId : Dict String Row) :
    List (String × Row) → List String × Dict String Row
  | [] => ([], byId)
  | (mid, row) :: rest =>
    if ended row then recoverItems now byId rest
    else
      let updated := closedMeta row now "interrupted" none none
      let (closed, byId) := recoverItems now (byId.set mid updated) rest
      (mid :: closed, byId)

def recoverOpenMoments (now : String) : Act φ (List String) := do
  let byId ← loadIndexById S
  let (closed, byId) := recoverItems now byId byId.items
  if closed = [] then pure closed
  else
    rewriteIndex S byId
    pure closed

def listOpenMoments : Act φ (List Row) := do
  let byId ← loadIndexById S
  pure (byId.values.filter (fun row => !ended row))

def listBeats (momentId : String) : Act φ (List Json) := do
  let mid ← check (validateMomentId momentId)
  readRows S (.tape mid)

inductive Call where
  | openMoment (a : OpenArgs) (now : String) (fresh : MomentId)
  | appendBeat (momentId : String) (beat : Row) (now : String)
  | closeMoment (momentId stopReason : String) (hopCount : Option Int)
      (skillsUsed : Option (List String)) (now : String)
  | recoverOpenMoments (now : String)
  | getMoment (momentId : String)
  | listOpenMoments
  | listBeats (momentId : String)

inductive Answer where
  | none
  | text (s : String)
  | texts (xs : List String)
  | row (r : Option Row)
  | rows (rs : List Row)
  | values (vs : List Json)

def exec : Call → Act φ Answer
  | .openMoment a now fresh => do return .text (← openMoment S a now fresh)
  | .appendBeat momentId beat now => do
    appendBeat S momentId beat now
    return .none
  | .closeMoment momentId stopReason hopCount skillsUsed now => do
    return .row (some (← closeMoment S momentId stopReason hopCount skillsUsed now))
  | .recoverOpenMoments now => do return .texts (← recoverOpenMoments S now)
  | .getMoment momentId => do return .row (← getMoment S momentId)
  | .listOpenMoments => do return .rows (← listOpenMoments S)
  | .listBeats momentId => do return .values (← listBeats S momentId)

/-- A call, or a crash that leaves `k` bytes of the line a file was appended last. The state a
call leaves as it raises is kept. -/
inductive Event where
  | call (c : Call)
  | crash (file : File) (k : Nat)

def stepEvent (s : Moments φ) : Event → Moments φ
  | .call c => after (exec S c s)
  | .crash file k => Function.update s file (S.cut (s file) k)

def start : Moments φ := fun _ => S.empty

end Store

end Elyra.Moment
