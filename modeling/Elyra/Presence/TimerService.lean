import Elyra.Framework.Faults
import Elyra.Presence.Lifecycle
import Elyra.Presence.TimerRows

namespace Elyra.Presence

open Json

/-- The maps of the service, the rows of `timers.json` and `waits.json`, the wake log, whose fold
is what the queue holds, and the draws so far. -/
structure TimerService where
  timers : Dict String PendingTimer
  waits : Dict String PendingWait
  timersFile : List (List (String × Json))
  waitsFile : List (List (String × Json))
  log : List WakeEvent
  draws : Nat

namespace TimerService

/-- A service on an empty directory. -/
def start : TimerService := ⟨.empty, .empty, [], [], [], 0⟩

def rows (s : TimerService) : (n : SnapshotName) → Dict String (Row n)
  | .timers => s.timers
  | .waits => s.waits

def setRows (s : TimerService) : (n : SnapshotName) → Dict String (Row n) → TimerService
  | .timers, d => { s with timers := d }
  | .waits, d => { s with waits := d }

def file (s : TimerService) : SnapshotName → List (List (String × Json))
  | .timers => s.timersFile
  | .waits => s.waitsFile

def setFile (s : TimerService) (n : SnapshotName) (written : List (List (String × Json))) :
    TimerService :=
  match n with
  | .timers => { s with timersFile := written }
  | .waits => { s with waitsFile := written }

/-- The rows `_persist_timers` and `_persist_waits` write. -/
def dumpRows {n : SnapshotName} (d : Dict String (Row n)) : List (List (String × Json)) :=
  (d.values.insertionSort Row.keyLe).map Row.toDict

/-- `_wake_exists`: a wake that was ever enqueued is known to the queue. -/
def wakeExists (s : TimerService) (wakeId : String) : Bool := (lifeOf s.log wakeId).isSome

def unknownId (n : SnapshotName) (id : String) : PyErr :=
  .keyError [.text "unknown ", .text n.idKey, .text ": ", .text id]

/-- When a wait ends: at a given time, or a while from now. -/
def deadlineText [PyFloat] (expiresAt : Option String) (timeout : Option FloatLit)
    (now : Instant) : Except PyErr String :=
  match expiresAt, timeout with
  | none, none => .error (.valueError [.text "expires_at or timeout is required"])
  | none, some seconds =>
    match PyFloat.timedelta seconds with
    | .error e => .error e
    | .ok delta =>
      match Instant.ofMicros (now.val + delta) with
      | none => .error .overflowError
      | some expires => .ok (isoZ expires)
  | some text, _ => (utcOf text).map fun _ => text

/-- The rows that are due. -/
def collectDue {n : SnapshotName} (now : Instant) : List (Row n) → Except PyErr (List (Row n))
  | [] => .ok []
  | r :: rest => do
    let due ← r.isDue now
    let found ← collectDue now rest
    return if due then r :: found else found

abbrev ServiceM := FileM TimerService

section Service

variable (env : Env)

def draw (source : Nat → String) : ServiceM String := fun s =>
  .ok (source s.disk.draws) ⟨{ s.disk with draws := s.disk.draws + 1 }, s.plan⟩

/-- `x or str(uuid.uuid4())` -/
def orDrawn (x : Option String) : ServiceM String :=
  match x with
  | some text => if text = "" then draw env.uuid4 else pure text
  | none => draw env.uuid4

/-- `enqueue` of the queue, past the id of the wake. -/
def appendWake (kind : WakeKind) (payload : Payload) (id : String) : ServiceM WakeItem := do
  let created ← draw env.nowIso
  let ts ← draw env.nowIso
  let item : WakeItem := ⟨id, kind, kind.priority, created, payload, kind.banded⟩
  let s ← look
  match isLive ((lifeOf s.log id).map Life.op) with
  | some existing => raise (alreadyLive id existing)
  | none =>
    operation fun s => { s with log := s.log ++ [.enqueue ts item] }
    return item

def enqueue (kind : WakeKind) (payload : Payload) (wakeId : Option String) :
    ServiceM WakeItem := do
  let id ← orDrawn env wakeId
  appendWake env kind payload id

/-- `_write_json_list`: a temporary file, which nothing reads, replaces the snapshot. -/
def persist (n : SnapshotName) : ServiceM Unit := do
  operation id
  operation fun s => s.setFile n (dumpRows (s.rows n))

/-- The map is `changed` and persisted, and becomes `restored` when that raises. -/
def store {n : SnapshotName} (changed restored : Dict String (Row n)) : ServiceM Unit := do
  note fun s => s.setRows n changed
  tryExcept (persist n) fun e => do
    note fun s => s.setRows n restored
    raise e

/-- `_install_timer` and `_install_wait` -/
def install {n : SnapshotName} (r : Row n) : ServiceM Unit := do
  let s ← look
  let installed := (s.rows n).set r.id r
  store installed (match (s.rows n).get? r.id with
    | none => installed.pop r.id
    | some prev => installed.set r.id prev)

/-- A known row changes to `changed`, and back when the map cannot be persisted. -/
def changeRow {n : SnapshotName} (r changed : Row n) : ServiceM Unit := do
  let s ← look
  let edited := (s.rows n).set r.id changed
  store edited (edited.set r.id r)

/-- An open row gets a status that ends it; a row that has ended stays. -/
def settle (n : SnapshotName) (id : String) (status : Status) : ServiceM Unit := do
  let s ← look
  match (s.rows n).get? id with
  | none => raise (unknownId n id)
  | some r => if r.status = n.opened then changeRow r (r.setStatus status) else return ()

def cancelTimer (timerId : String) : ServiceM Unit := settle .timers timerId .cancelled

def cancelWait (waitId : String) : ServiceM Unit := settle .waits waitId .cancelled

def markWaitAnswered (waitId : String) : ServiceM Unit := settle .waits waitId .answered

def scheduleTimer (wakeAt reason : String) (goalId taskId : Json) (timerId : Option String) :
    ServiceM PendingTimer := do
  let _ ← attempt (utcOf wakeAt)
  let id ← orDrawn env timerId
  let timer : PendingTimer := ⟨id, wakeAt, reason, goalId, taskId, .scheduled, none⟩
  install (n := .timers) timer
  return timer

/-- What `arm_wait` is given. -/
structure WaitRequest where
  prompt : String
  userId : String
  momentId : String
  expiresAt : Option String
  timeout : Option FloatLit
  choices : List String
  waitId : Option String

section Clock

variable [PyFloat]

/-- `armed` and `now` are the two clock readings. -/
def armWait (a : WaitRequest) (armed now : Instant) : ServiceM PendingWait := do
  let expires ← attempt (deadlineText a.expiresAt a.timeout now)
  let id ← orDrawn env a.waitId
  let wait : PendingWait := ⟨id, a.prompt, a.choices, a.userId, a.momentId, expires, a.timeout,
    some (isoZ armed), .pending, none⟩
  install (n := .waits) wait
  return wait

/-- One due row: it is marked as fired under the id of its wake, and then the wake is enqueued. -/
def fire {n : SnapshotName} (now : Instant) (r : Row n) : ServiceM Unit := do
  let wakeId ← draw env.uuid4
  let fired := (r.setStatus n.closed).setWakeId (some wakeId)
  changeRow r fired
  let payload ← attempt (fired.payload now)
  let _ ← enqueue env n.wakeKind payload (some wakeId)

def fireEach {n : SnapshotName} (now : Instant) : List (Row n) → ServiceM Unit
  | [] => return ()
  | r :: rest => do
    fire env now r
    fireEach now rest

def fireDue (n : SnapshotName) (now : Instant) : ServiceM Unit := do
  let s ← look
  let due ← attempt (collectDue now (s.rows n).values)
  fireEach env now (due.insertionSort Row.keyLe)

def scheduleDue (now : Instant) : ServiceM Unit := fireDue env .timers now

def checkTimeouts (now : Instant) : ServiceM Unit := fireDue env .waits now

/-- A fired row whose wake never landed gets its wake, under the id it was marked with. -/
def reconcile {n : SnapshotName} (now : Instant) (r : Row n) : ServiceM Unit := do
  let s ← look
  match r.wakeId with
  | none => return ()
  | some wakeId =>
    if r.status ≠ n.closed ∨ wakeId = "" ∨ s.wakeExists wakeId = true then return ()
    else
      let payload ← attempt (r.payload now)
      let _ ← enqueue env n.wakeKind payload (some wakeId)

def reconcileEach {n : SnapshotName} (now : Instant) : List (Row n) → ServiceM Unit
  | [] => return ()
  | r :: rest => do
    reconcile env now r
    reconcileEach now rest

/-- `_reconcile_orphaned_timer_fires` and `_reconcile_orphaned_wait_timeouts` -/
def reconcileOrphaned (n : SnapshotName) (now : Instant) : ServiceM Unit := do
  let s ← look
  reconcileEach env now ((s.rows n).values.insertionSort Row.keyLe)

section Load

variable [PyCoerce]

def loadRows (n : SnapshotName) (written : List (List (String × Json))) :
    Except PyErr (Dict String (Row n)) :=
  (written.mapM (Row.fromDict n)).map fun found => Dict.ofList (found.map fun r => (r.id, r))

/-- `_load` -/
def load : ServiceM Unit := do
  let s ← look
  let timers ← attempt (loadRows .timers s.timersFile)
  note fun s => s.setRows .timers timers
  let waits ← attempt (loadRows .waits s.waitsFile)
  note fun s => s.setRows .waits waits

def rehydrate (now : Instant) : ServiceM Unit := do
  load
  reconcileOrphaned env .waits now
  reconcileOrphaned env .timers now
  checkTimeouts env now
  scheduleDue env now

end Load
end Clock
end Service

section Lookups

variable (s : TimerService) (n : SnapshotName)

@[simp] theorem rows_setRows (d : Dict String (Row n)) : (s.setRows n d).rows n = d := by
  cases n <;> rfl

theorem rows_setRows_ne {m : SnapshotName} (h : m ≠ n) (d : Dict String (Row n)) :
    (s.setRows n d).rows m = s.rows m := by
  cases n <;> cases m <;> first | rfl | exact absurd rfl h

@[simp] theorem file_setRows (d : Dict String (Row n)) (m : SnapshotName) :
    (s.setRows n d).file m = s.file m := by
  cases n <;> cases m <;> rfl

@[simp] theorem log_setRows (d : Dict String (Row n)) : (s.setRows n d).log = s.log := by
  cases n <;> rfl

@[simp] theorem draws_setRows (d : Dict String (Row n)) : (s.setRows n d).draws = s.draws := by
  cases n <;> rfl

@[simp] theorem file_setFile (written : List (List (String × Json))) :
    (s.setFile n written).file n = written := by
  cases n <;> rfl

theorem file_setFile_ne {m : SnapshotName} (h : m ≠ n) (written : List (List (String × Json))) :
    (s.setFile n written).file m = s.file m := by
  cases n <;> cases m <;> first | rfl | exact absurd rfl h

@[simp] theorem rows_setFile (written : List (List (String × Json))) (m : SnapshotName) :
    (s.setFile n written).rows m = s.rows m := by
  cases n <;> cases m <;> rfl

@[simp] theorem log_setFile (written : List (List (String × Json))) :
    (s.setFile n written).log = s.log := by
  cases n <;> rfl

@[simp] theorem draws_setFile (written : List (List (String × Json))) :
    (s.setFile n written).draws = s.draws := by
  cases n <;> rfl

end Lookups
end TimerService
end Elyra.Presence
