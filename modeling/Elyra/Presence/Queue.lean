import Elyra.Framework.Effects
import Elyra.Framework.Run
import Elyra.Presence.Continuous

namespace Elyra.Presence

open Json

/-- What the queue asks the platform for: the n-th draw of `uuid4` and of the clock, and the
order in which the n-th loop over a set visits it. -/
structure Env where
  uuid4 : Nat → String
  nowIso : Nat → String
  iterSet : Nat → List String → List String
  iterSet_perm : ∀ n l, (iterSet n l).Perm l

/-- Draws named by their number, sets visited in insertion order. -/
def countingEnv : Env where
  uuid4 n := String.ofList ('u' :: 'u' :: 'i' :: 'd' :: '-' :: natChars n)
  nowIso n := "2026-01-01T00:00:00." ++ String.ofList (padChars 6 n) ++ "Z"
  iterSet _ ids := ids
  iterSet_perm _ ids := .refl ids

theorem countingEnv_injective : Function.Injective countingEnv.uuid4 := by
  intro m n h
  have hchars := congrArg String.toList h
  simp only [countingEnv, String.toList_ofList, List.cons.injEq, true_and] at hchars
  exact natChars_injective hchars

theorem countingEnv_head (n : Nat) : (countingEnv.uuid4 n).toList.head? = some 'u' := by
  simp only [countingEnv, String.toList_ofList, List.head?_cons]

/-- The in-memory side of `WakeQueue`. -/
structure WakeQueue where
  items : Dict String WakeItem
  ops : Dict String WakeOp
  moments : Dict String (Option String)
  reasons : Dict String (Option String)
  pendingIds : Dict String Unit
  heap : Heap WakeKey
  deriving DecidableEq

/-- `events.jsonl` (an absent file reads as an empty one), the appends that are going to raise,
the draws so far and the queue. -/
structure World where
  log : ByteArray
  faults : List Bool
  draws : Nat
  queue : WakeQueue

namespace WakeQueue

def empty : WakeQueue := ⟨.empty, .empty, .empty, .empty, .empty, .empty⟩

section Load

variable [PyCoerce]

def applySlot (q : WakeQueue) (wakeId : String) (slot : FoldedWake) : WakeQueue :=
  match slot.item with
  | none => q
  | some item =>
    match slot.op with
    | none => { q with items := q.items.set wakeId item }
    | some op =>
      { items := q.items.set wakeId item
        ops := q.ops.set wakeId op
        moments := q.moments.set wakeId slot.momentId
        reasons := q.reasons.set wakeId slot.reason
        pendingIds := if op = .enqueue then q.pendingIds.set wakeId () else q.pendingIds
        heap := if op = .enqueue then q.heap.push (heapKey item) else q.heap }

def applyFold (folded : Dict String FoldedWake) : WakeQueue :=
  folded.items.foldl (fun q p => applySlot q p.1 p.2) empty

end Load

def isPending (q : WakeQueue) (wakeId : String) : Bool :=
  (q.pendingIds.get? wakeId).isSome && (q.items.get? wakeId).isSome &&
    q.ops.get? wakeId = some .enqueue

/-- Wakes of the pending set that are in enqueue state. -/
def pendingItems (q : WakeQueue) : List WakeItem :=
  (q.pendingIds.keys.filter q.isPending).filterMap q.items.get?

def keyLe (a b : WakeItem) : Prop := heapKey a ≤ heapKey b

instance : DecidableRel keyLe := fun a b => inferInstanceAs (Decidable (heapKey a ≤ heapKey b))

def pending (q : WakeQueue) : List WakeItem := q.pendingItems.insertionSort keyLe

def peek (q : WakeQueue) : Option WakeItem := q.pending.head?

def status (q : WakeQueue) (wakeId : String) : Option WakeOp := q.ops.get? wakeId

def claimedIds (q : WakeQueue) : List String :=
  (q.ops.items.filter (fun p => p.2 = .claimed)).map Prod.fst

def claimed (q : WakeQueue) : List WakeItem := q.claimedIds.filterMap q.items.get?

/-- The loop of `_pop_pending` over what is left on the heap. -/
def popLoop (q : WakeQueue) : (keys : List WakeKey) → keys.Pairwise (· ≤ ·) →
    Option WakeItem × WakeQueue
  | [], sorted => (none, { q with heap := ⟨[], sorted⟩ })
  | k :: keys, sorted =>
    if (q.pendingIds.get? k.wakeId).isNone then
      popLoop q keys sorted.of_cons
    else
      match q.items.get? k.wakeId with
      | none => popLoop { q with pendingIds := q.pendingIds.pop k.wakeId } keys sorted.of_cons
      | some item =>
        if q.ops.get? k.wakeId = some .enqueue then
          (some item, { q with
            pendingIds := q.pendingIds.pop k.wakeId, heap := ⟨keys, sorted.of_cons⟩ })
        else
          popLoop { q with pendingIds := q.pendingIds.pop k.wakeId } keys sorted.of_cons

def popPending (q : WakeQueue) : Option WakeItem × WakeQueue :=
  popLoop q q.heap.keys q.heap.sorted

/-- What `enqueue` writes to memory once its event is on disk. -/
def putEnqueued (q : WakeQueue) (item : WakeItem) : WakeQueue :=
  { items := q.items.set item.id item
    ops := q.ops.set item.id .enqueue
    moments := q.moments.set item.id none
    reasons := q.reasons.set item.id none
    pendingIds := q.pendingIds.set item.id ()
    heap := q.heap.push (heapKey item) }

def putClaimed (q : WakeQueue) (wakeId momentId : String) : WakeQueue :=
  { q with
    ops := q.ops.set wakeId .claimed
    moments := q.moments.set wakeId (some momentId)
    reasons := q.reasons.set wakeId none }

def putTerminal (q : WakeQueue) (wakeId : String) (op : WakeOp) (reason : Option String) :
    WakeQueue :=
  { q with
    ops := q.ops.set wakeId op
    reasons := q.reasons.set wakeId reason
    pendingIds := q.pendingIds.pop wakeId }

end WakeQueue

section Load

variable [PyCoerce]

def readEvents (log : ByteArray) : Except PyErr (List Json) :=
  match decodeUtf8 log with
  | none => .error .unicodeDecodeError
  | some text => .ok (loadedRows text)

/-- `WakeQueue.__init__` and `reload`. -/
def openQueue (log : ByteArray) : Except PyErr WakeQueue :=
  (readEvents log).map (fun events => WakeQueue.applyFold (foldEvents events))

end Load

def eventBytes (events : List WakeEvent) : ByteArray :=
  encodeUtf8 (rowsText (events.map WakeEvent.row))

/-- `_append_event`. A raising append leaves the file as it was. -/
def appendEvent (event : WakeEvent) : Py World Unit := fun w =>
  if w.faults.headD false then
    .error .osError { w with faults := w.faults.tail }
  else
    .ok () { w with faults := w.faults.tail, log := w.log ++ eventBytes [event] }

def draw (source : Nat → String) : Py World String := fun w =>
  .ok (source w.draws) { w with draws := w.draws + 1 }

def loopOver (env : Env) (set : Dict String Unit) : Py World (List String) := fun w =>
  .ok (env.iterSet w.draws set.keys) { w with draws := w.draws + 1 }

def getQueue : Py World WakeQueue := fun w => .ok w.queue w

def setQueue (q : WakeQueue) : Py World Unit := fun w => .ok () { w with queue := q }

/-- `x or default`. -/
def orDefault (x : Option String) (default : Py World String) : Py World String :=
  match x with
  | some s => if s = "" then default else pure s
  | none => default

def unknownKind (kind : String) : PyErr :=
  .valueError [.text "unknown wake kind: ", .repr kind]

def alreadyLive (wakeId : String) (existing : WakeOp) : PyErr :=
  .valueError [.text "wake_id ", .repr wakeId, .text " already non-terminal (",
    .text existing.text, .text "); cancel first or use a new id"]

def unknownWake (wakeId : String) : PyErr :=
  .keyError [.text "unknown wake_id: ", .text wakeId]

def isLive (op : Option WakeOp) : Option WakeOp := op.filter (fun o => !o.terminal)

section Operations

variable (env : Env)

/-- `enqueue`; an absent payload is the empty one. -/
def enqueue (kind : String) (payload : Payload) (wakeId createdAt : Option String) :
    Py World WakeItem := do
  match WakeKind.ofText kind with
  | none => throw (unknownKind kind)
  | some k =>
    let id ← orDefault wakeId (draw env.uuid4)
    let created ← orDefault createdAt (draw env.nowIso)
    let item : WakeItem := ⟨id, k, k.priority, created, payload, k.banded⟩
    let ts ← draw env.nowIso
    let q ← getQueue
    match isLive (q.ops.get? id) with
    | some existing => throw (alreadyLive id existing)
    | none =>
      appendEvent (.enqueue ts item)
      setQueue (q.putEnqueued item)
      return item

def claim (momentId : String) : Py World (Option WakeItem) := do
  if momentId = "" then
    throw (.valueError [.text "moment_id is required"])
  else
    let q ← getQueue
    let (item?, popped) := q.popPending
    setQueue popped
    match item? with
    | none => return none
    | some item =>
      let ts ← draw env.nowIso
      appendEvent (.claimed ts item.id momentId)
      setQueue (popped.putClaimed item.id momentId)
      return some item

/-- The common body of `mark_done` and `cancel`. -/
def finishWake (wakeId : String) (op : WakeOp) (reason : Option String)
    (event : String → WakeEvent) : Py World Unit := do
  let q ← getQueue
  match q.ops.get? wakeId with
  | none => throw (unknownWake wakeId)
  | some current =>
    if current.terminal then
      return ()
    else
      let ts ← draw env.nowIso
      appendEvent (event ts)
      setQueue (q.putTerminal wakeId op reason)

def markDone (wakeId : String) : Py World Unit :=
  finishWake env wakeId .done none (fun ts => .done ts wakeId)

def cancel (wakeId reason : String) : Py World Unit :=
  finishWake env wakeId .cancelled (some reason) (fun ts => .cancelled ts wakeId reason)

def cancelAll (reason : String) : List String → Py World Unit
  | [] => return ()
  | wakeId :: rest => do
    cancel env wakeId reason
    cancelAll reason rest

def recoverLoop : List String → Py World (List WakeItem)
  | [] => return []
  | wakeId :: rest => do
    let q ← getQueue
    match q.items.get? wakeId with
    | none =>
      cancel env wakeId reasonInterrupted
      recoverLoop rest
    | some item =>
      cancel env wakeId reasonInterrupted
      if item.kind.reEnqueueOnRecover then
        let clone ← enqueue env item.kind.text item.payload none none
        let clones ← recoverLoop rest
        return clone :: clones
      else
        recoverLoop rest

def recoverClaimed : Py World (List WakeItem) := do
  let q ← getQueue
  recoverLoop env q.claimedIds

def cancelAllPendingOfKind (kind reason : String) : Py World (List String) := do
  match WakeKind.ofText kind with
  | none => throw (unknownKind kind)
  | some k =>
    let q ← getQueue
    let ids ← loopOver env q.pendingIds
    let targets := ids.filter (fun id =>
      (q.items.get? id).any (fun item => item.kind = k) && q.ops.get? id = some .enqueue)
    cancelAll env reason targets
    return targets

def taskReadyItem (q : WakeQueue) (taskId id : String) : Option WakeItem :=
  (q.items.get? id).filter (fun item =>
    item.kind = .taskReady && q.ops.get? id = some .enqueue &&
      item.payload.get? "task_id" = some (.str taskId))

def pendingTaskReady (taskId : String) : Py World (List WakeItem) := do
  let q ← getQueue
  let ids ← loopOver env q.pendingIds
  return ids.filterMap (taskReadyItem q taskId)

def taskReadyBody (taskId : String) (goalId : Option String) (payload : Payload) : Payload :=
  let body := payload.set "task_id" (.str taskId)
  match goalId with
  | none => body
  | some goal => body.set "goal_id" (.str goal)

def enqueueTaskReady (taskId : String) (goalId : Option String) (payload : Payload) :
    Py World WakeItem := do
  if taskId = "" then
    throw (.valueError [.text "task_id is required"])
  else
    let olds ← pendingTaskReady env taskId
    cancelAll env reasonReplaced (olds.map WakeItem.id)
    enqueue env WakeKind.taskReady.text (taskReadyBody taskId goalId payload) none none

def resetEmpty : Py World Unit := fun w =>
  .ok () { w with log := ByteArray.empty, queue := WakeQueue.empty }

def reload [PyCoerce] : Py World Unit := fun w =>
  match openQueue w.log with
  | .ok q => .ok () { w with queue := q }
  | .error e => .error e w

end Operations

/-- A call on the queue. -/
inductive Call where
  | enqueue (kind : String) (payload : Payload) (wakeId createdAt : Option String)
  | claim (momentId : String)
  | markDone (wakeId : String)
  | cancel (wakeId reason : String)
  | recoverClaimed
  | cancelAllPendingOfKind (kind reason : String)
  | enqueueTaskReady (taskId : String) (goalId : Option String) (payload : Payload)
  | resetEmpty
  | reload

section Runs

variable [PyCoerce] (env : Env)

def exec : Call → Py World Unit
  | .enqueue kind payload wakeId createdAt => do
    let _ ← enqueue env kind payload wakeId createdAt
  | .claim momentId => do
    let _ ← claim env momentId
  | .markDone wakeId => markDone env wakeId
  | .cancel wakeId reason => cancel env wakeId reason
  | .recoverClaimed => do
    let _ ← recoverClaimed env
  | .cancelAllPendingOfKind kind reason => do
    let _ ← cancelAllPendingOfKind env kind reason
  | .enqueueTaskReady taskId goalId payload => do
    let _ ← enqueueTaskReady env taskId goalId payload
  | .resetEmpty => resetEmpty
  | .reload => reload

def stepCall (w : World) (c : Call) : World := after (exec env c w)

/-- A new queue over an empty log. -/
def World.start (faults : List Bool) : World := ⟨ByteArray.empty, faults, 0, WakeQueue.empty⟩

end Runs
end Elyra.Presence
