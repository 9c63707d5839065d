import Elyra.Framework.IsoText
import Elyra.Presence.Queue

namespace Elyra.Presence

open Json

inductive Status where
  | scheduled | fired | cancelled | pending | answered | timedOut
  | other (text : String)
  deriving DecidableEq

namespace Status

def text : Status → String
  | scheduled => "scheduled"
  | fired => "fired"
  | cancelled => "cancelled"
  | pending => "pending"
  | answered => "answered"
  | timedOut => "timed_out"
  | other text => text

def known : List Status := [scheduled, fired, cancelled, pending, answered, timedOut]

def ofText (s : String) : Status := (known.find? (fun x => x.text = s)).getD (other s)

theorem ofText_text (s : Status) (h : s ∈ known) : ofText s.text = s := by
  have hall : ∀ s ∈ known, ofText s.text = s := by decide
  exact hall s h

theorem text_ne_empty (s : Status) (h : s ∈ known) : s.text ≠ "" := by
  have hall : ∀ s ∈ known, s.text ≠ "" := by decide
  exact hall s h

end Status

/-- A string or nothing; the service writes no other value there. -/
def strOrNone : Option Json → Option String
  | some (.str s) => some s
  | _ => none

def optJson : Option String → Json
  | none => .null
  | some s => .str s

@[simp] theorem strOrNone_optJson (x : Option String) : strOrNone (some (optJson x)) = x := by
  cases x <;> rfl

structure PendingTimer where
  id : String
  wakeAt : String
  reason : String
  goalId : Json
  taskId : Json
  status : Status
  wakeId : Option String

def PendingTimer.toDict (t : PendingTimer) : List (String × Json) :=
  [("id", .str t.id), ("wake_at", .str t.wakeAt), ("reason", .str t.reason),
    ("goal_id", t.goalId), ("task_id", t.taskId), ("status", .str t.status.text),
    ("wake_id", optJson t.wakeId)]

/-- Durable wait snapshot row. -/
structure PendingWait where
  id : String
  prompt : String
  choices : List String
  userId : String
  momentId : String
  expiresAt : String
  timeout : Option FloatLit
  armedAt : Option String
  status : Status
  wakeId : Option String

def PendingWait.toDict (w : PendingWait) : List (String × Json) :=
  [("id", .str w.id), ("prompt", .str w.prompt), ("choices", .arr (w.choices.map Json.str)),
    ("user_id", .str w.userId), ("moment_id", .str w.momentId), ("expires_at", .str w.expiresAt),
    ("timeout", match w.timeout with | none => .null | some x => .float x),
    ("armed_at", optJson w.armedAt), ("status", .str w.status.text),
    ("wake_id", optJson w.wakeId)]

section Decode

variable [PyCoerce] [PyFloat]

omit [PyFloat] in
def PendingTimer.fromDict (data : List (String × Json)) : Except PyErr PendingTimer :=
  match lookup data "id", lookup data "wake_at" with
  | none, _ => .error (.keyError [.repr "id"])
  | some _, none => .error (.keyError [.repr "wake_at"])
  | some id, some wakeAt =>
    .ok { id := pyStr id
          wakeAt := pyStr wakeAt
          reason := strOr (lookup data "reason") ""
          goalId := (lookup data "goal_id").getD .null
          taskId := (lookup data "task_id").getD .null
          status := .ofText (strOr (lookup data "status") Status.scheduled.text)
          wakeId := strOrNone (lookup data "wake_id") }

omit [PyFloat] in
/-- `data.get("choices") or []` as a list of texts. -/
def readChoices : Option Json → Except PyErr (List String)
  | none => .ok []
  | some v =>
    if truthy v then
      match v with
      | .arr xs => .ok (xs.map pyStr)
      | .str s => .ok (s.toList.map (fun c => String.ofList [c]))
      | .obj kvs => .ok (Dict.ofList kvs).keys
      | _ => .error .typeError
    else .ok []

omit [PyCoerce] in
def readTimeout : Option Json → Except PyErr (Option FloatLit)
  | none | some .null => .ok none
  | some (.float x) => .ok (some x)
  | some v => (PyFloat.ofJson v).map some

def PendingWait.fromDict (data : List (String × Json)) : Except PyErr PendingWait := do
  let choices ← readChoices (lookup data "choices")
  let timeout ← readTimeout (lookup data "timeout")
  let waitId := match lookup data "wait_id" with | none => "None" | some v => pyStr v
  let deadline := strOr (lookup data "deadline_utc") ""
  return { id := strOr (lookup data "id") waitId
           prompt := strOr (lookup data "prompt") ""
           choices := choices
           userId := strOr (lookup data "user_id") "operator"
           momentId := strOr (lookup data "moment_id") ""
           expiresAt := strOr (lookup data "expires_at") deadline
           timeout := timeout
           armedAt := strOrNone (lookup data "armed_at")
           status := .ofText (strOr (lookup data "status") Status.pending.text)
           wakeId := strOrNone (lookup data "wake_id") }

end Decode

def timerPayload (t : PendingTimer) : Payload :=
  let payload : Payload := .ofList [("wake_at", .str t.wakeAt), ("reason", .str t.reason),
    ("timer_id", .str t.id)]
  let payload := if t.goalId = .null then payload else payload.set "goal_id" t.goalId
  if t.taskId = .null then payload else payload.set "task_id" t.taskId

section Elapsed

variable [PyFloat]

/-- Wall time from arming to `now`; a text that is no time is passed over. -/
def waitElapsed (w : PendingWait) (now : Instant) : Except PyErr (Option FloatLit) :=
  let fallback : Except PyErr (Option FloatLit) :=
    match w.timeout with
    | none => .ok none
    | some timeout =>
      if w.expiresAt = "" then .ok none
      else
        match utcOf w.expiresAt, PyFloat.timedelta timeout with
        | .error (.valueError _), _ => .ok none
        | .error e, _ => .error e
        | .ok _, .error (.valueError _) => .ok none
        | .ok _, .error e => .error e
        | .ok expires, .ok delta =>
          match Instant.ofMicros (expires.val - delta) with
          | none => .error .overflowError
          | some armed => .ok (some (PyFloat.totalSeconds (max 0 (now.val - armed.val))))
  match w.armedAt with
  | none => fallback
  | some armedAt =>
    if armedAt = "" then fallback
    else
      match utcOf armedAt with
      | .error (.valueError _) => fallback
      | .error e => .error e
      | .ok armed =>
        if armed ≤ now then .ok (some (PyFloat.totalSeconds (now.val - armed.val)))
        else fallback

def waitTimeoutPayload (w : PendingWait) (now : Instant) : Except PyErr Payload :=
  let payload : Payload := .ofList [("wait_id", .str w.id), ("moment_id", .str w.momentId),
    ("choices_offered", .arr (w.choices.map Json.str)), ("prompt", .str w.prompt),
    ("user_id", .str w.userId)]
  (waitElapsed w now).map (fun elapsed =>
    match elapsed with
    | none => payload
    | some seconds => payload.set "wait_elapsed_s" (.float seconds))

end Elapsed

/-- The two snapshot files. -/
inductive SnapshotName where
  | timers | waits
  deriving DecidableEq

def Row : SnapshotName → Type
  | .timers => PendingTimer
  | .waits => PendingWait

namespace SnapshotName

/-- The status of a row that has not fired yet. -/
def opened : SnapshotName → Status
  | timers => .scheduled
  | waits => .pending

def closed : SnapshotName → Status
  | timers => .fired
  | waits => .timedOut

def wakeKind : SnapshotName → WakeKind
  | timers => .timer
  | waits => .waitTimeout

/-- Where the payload of a wake names its row. -/
def idKey : SnapshotName → String
  | timers => "timer_id"
  | waits => "wait_id"

end SnapshotName

namespace Row

def id : {n : SnapshotName} → Row n → String
  | .timers, t => PendingTimer.id t
  | .waits, w => PendingWait.id w

def deadline : {n : SnapshotName} → Row n → String
  | .timers, t => PendingTimer.wakeAt t
  | .waits, w => PendingWait.expiresAt w

def status : {n : SnapshotName} → Row n → Status
  | .timers, t => PendingTimer.status t
  | .waits, w => PendingWait.status w

def wakeId : {n : SnapshotName} → Row n → Option String
  | .timers, t => PendingTimer.wakeId t
  | .waits, w => PendingWait.wakeId w

def setStatus : {n : SnapshotName} → Row n → Status → Row n
  | .timers, t, s => { (t : PendingTimer) with status := s }
  | .waits, w, s => { (w : PendingWait) with status := s }

def setWakeId : {n : SnapshotName} → Row n → Option String → Row n
  | .timers, t, x => { (t : PendingTimer) with wakeId := x }
  | .waits, w, x => { (w : PendingWait) with wakeId := x }

def toDict : {n : SnapshotName} → Row n → List (String × Json)
  | .timers, t => PendingTimer.toDict t
  | .waits, w => PendingWait.toDict w

def fromDict [PyCoerce] [PyFloat] : (n : SnapshotName) → List (String × Json) →
    Except PyErr (Row n)
  | .timers, data => PendingTimer.fromDict data
  | .waits, data => PendingWait.fromDict data

/-- Not fired yet and past its time. A wait with no deadline is never due. -/
def isDue : {n : SnapshotName} → Row n → Instant → Except PyErr Bool
  | .timers, t, now =>
    if PendingTimer.status t = .scheduled then
      (utcOf (PendingTimer.wakeAt t)).map (fun due => decide (due ≤ now))
    else .ok false
  | .waits, w, now =>
    if PendingWait.status w = .pending ∧ PendingWait.expiresAt w ≠ "" then
      (utcOf (PendingWait.expiresAt w)).map (fun due => decide (due ≤ now))
    else .ok false

def payload [PyFloat] : {n : SnapshotName} → Row n → Instant → Except PyErr Payload
  | .timers, t, _ => .ok (timerPayload t)
  | .waits, w, now => waitTimeoutPayload w now

/-- Rows are written and visited by deadline, then id. -/
def key {n : SnapshotName} (r : Row n) : String ×ₗ String := toLex (r.deadline, r.id)

def keyLe {n : SnapshotName} (a b : Row n) : Prop := a.key ≤ b.key

instance {n : SnapshotName} : DecidableRel (@keyLe n) :=
  fun a b => inferInstanceAs (Decidable (a.key ≤ b.key))

end Row
end Elyra.Presence
