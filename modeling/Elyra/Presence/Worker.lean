import Elyra.Presence.Continuous
import Elyra.Presence.Moves
import Elyra.Presence.UserInput

namespace Elyra.Presence

open Json

/-- Where the presence thread is between two lock-held sections. -/
inductive Thread where
  | polling
  | running (wake : WakeItem) (momentId : String)
  | failing (inFlight : Option (WakeItem × String))
  | dead

/-- What the lock guards. A moment is open while the phase is `in_moment`. -/
structure Worker where
  world : World
  waits : Dict String PendingWait
  phase : Phase
  busy : Bool
  activeMoment : Option String
  interject : InterjectBuffer
  continuous : ContinuousRuntimeState
  thread : Thread

abbrev Section := Py Worker

def onQueue {α : Type} (m : Py World α) : Section α := fun s =>
  match m s.world with
  | .ok a w => .ok a { s with world := w }
  | .error e w => .error e { s with world := w }

/-- `try: … except KeyError: pass` -/
def exceptKeyError (m : Section Unit) : Section Unit := fun s =>
  match m s with
  | .error (.keyError _) t => .ok () t
  | r => r

/-- `list_waits(status=pending)`, earliest deadline first. -/
def waitLe (a b : PendingWait) : Prop := toLex (a.expiresAt, a.id) ≤ toLex (b.expiresAt, b.id)

instance : DecidableRel waitLe := fun a b =>
  inferInstanceAs (Decidable (toLex (a.expiresAt, a.id) ≤ toLex (b.expiresAt, b.id)))

def pendingWaits (waits : Dict String PendingWait) : List PendingWait :=
  (waits.values.filter (fun w => w.status = .pending)).insertionSort waitLe

def hasPendingWait (waits : Dict String PendingWait) : Bool := !(pendingWaits waits).isEmpty

/-- `mark_wait_answered` and `cancel_wait`: a pending wait gets the status. -/
def settleWait (waits : Dict String PendingWait) (waitId : String) (status : Status) :
    Dict String PendingWait :=
  match waits.get? waitId with
  | none => waits
  | some w => if w.status = .pending then waits.set waitId { w with status := status } else waits

def phaseFromPendingWaits (waits : Dict String PendingWait) : Phase :=
  if hasPendingWait waits then .waiting else .idle

/-- `pending_of_kind` -/
def pendingOfKind (q : WakeQueue) (kind : WakeKind) : List WakeItem :=
  (q.pendingItems.filter (fun item => item.kind = kind)).insertionSort WakeQueue.keyLe

/-- A timer or a wait that the clock finds due. -/
inductive Due where
  | timer (payload : Payload)
  | wait (waitId : String) (payload : Payload)

/-- What happens to a call of the moment store: it returns, it raises `KeyError` or
`ValueError`, or it raises something else. -/
inductive StoreCall where
  | returned | refused | raised
  deriving DecidableEq

structure WaitArm where
  waitId : String
  prompt : String
  choices : List String
  userId : String
  timeoutSeconds : FloatLit

/-- `arm_wait` computes the deadline, or raises an error that is caught, or one that is not. -/
inductive Arming where
  | armed (expiresAt armedAt : String)
  | refused
  | raised

structure MomentResult where
  stopReason : String
  armWait : Option WaitArm
  toolsRan : Bool
  ledgerMutated : Bool
  modelBeats : Int
  floodBeats : Int
  lastStopHopWasFlood : Bool

/-- What finalize finds outside the lock-guarded state: the moment store, the deadline of a wait
to arm, the ledger, and the clock at the cooldown gate and after it. -/
structure FinalizeWorld where
  closing : StoreCall
  arming : Arming
  hasOpenWork : Bool
  gateClock : Int
  stampClock : Int

def stopReasonTexts : List String :=
  ["no_tools", "wait", "blocked", "policy", "time_continue_declined", "wall_clock", "interrupted",
    "error", "max_hops"]

section Sections

variable (env : Env) (cfg : ContinuousSettings)

def enqueueWake (kind : WakeKind) (payload : Payload) (wakeId : Option String) :
    Section WakeItem :=
  onQueue (enqueue env kind.text payload wakeId none)

/-- `message_id or str(uuid.uuid4())` -/
def messageIdOr (messageId : Option String) : Section String :=
  onQueue (orDefault messageId (draw env.uuid4))

def userPayload (content userId messageId : String) : Payload :=
  Dict.ofList [("content", .str content), ("user_id", .str userId), ("message_id", .str messageId)]

def notInMomentReply (item : WakeItem) : Reply :=
  { ok := true, routed := some .userMessage, wakeId := some item.id,
    reason := some "not_in_moment" }

def overflowReply (item : WakeItem) : Reply :=
  { ok := false, routed := some .interject, reason := some InterjectBuffer.reasonBufferFull,
    wakeId := some item.id }

/-- The body of `interject` past the `resetting` guard. -/
def interjectOpen (content userId : String) (messageId : Option String) : Section Reply := do
  let s ← get
  if s.phase ≠ .inMoment then
    let mid ← messageIdOr env messageId
    let item ← enqueueWake env .userMessage (userPayload content userId mid) none
    return notInMomentReply item
  else
    match s.interject.tryAdd ⟨content, userId, messageId⟩ with
    | some buffer =>
      modify (fun s => { s with interject := buffer })
      return { ok := true, routed := some .interject }
    | none =>
      let mid ← messageIdOr env messageId
      let payload := (userPayload content userId mid).set "from_interject_overflow" (.bool true)
      let item ← enqueueWake env .userMessage payload none
      return overflowReply item

def resettingReply : Reply :=
  { ok := false, error := some "resetting", reason := some "resetting" }

def interject (content userId : String) (messageId : Option String) : Section Reply := do
  let s ← get
  if s.continuous.resetting then return resettingReply
  else interjectOpen env content userId messageId

def replyPayload (content userId choice messageId : String) (waitId : Option String) : Payload :=
  let payload : Payload := .ofList [("user_id", .str userId),
    ("content", .str (if content = "" then choice else content)), ("message_id", .str messageId)]
  let payload := match waitId with
    | none => payload
    | some wid => payload.set "wait_id" (.str wid)
  if choice = "" then payload else payload.set "choice" (.str choice)

def waitReplyReply (item : WakeItem) (waitId : Option String) (mid : String) : Reply :=
  { ok := true, routed := some .waitReply, wakeId := some item.id, waitId := waitId,
    messageId := some mid, cancelStaleWait := some false, answerWaitId := waitId }

def answerWait (waitId : Option String) (s : Worker) : Worker :=
  match waitId with
  | none => s
  | some wid => { s with waits := settleWait s.waits wid .answered }

/-- `_apply_wait_reply_unlocked`: the wait is answered, and the reply becomes a wake. -/
def applyWaitReply (content userId : String) (choice waitId messageId : Option String) :
    Section Reply := do
  modify (answerWait waitId)
  let mid ← messageIdOr env messageId
  let payload := replyPayload (stripText content) userId ((choice.map stripText).getD "") mid waitId
  let item ← enqueueWake env .waitReply payload none
  return waitReplyReply item waitId mid

/-- A stale wait of the user is cancelled, and waiting ends with the last wait. -/
def cancelStale (pending : Option PendingWait) (s : Worker) : Worker :=
  match waitIdOf pending with
  | none =>
    if s.phase = .waiting ∧ hasPendingWait s.waits = false then { s with phase := .idle } else s
  | some wid =>
    let waits := settleWait s.waits wid .cancelled
    { s with
      waits := waits
      phase := if s.phase = .waiting ∧ hasPendingWait waits = false then .idle else s.phase }

structure InputArgs where
  content : String
  userId : String
  choice : Option String
  fromWaitApi : Bool
  messageId : Option String
  hasAttachments : Bool

def decisionReply (d : InputDecision) : Reply :=
  { ok := d.ok, routed := some d.routed, reason := d.reason,
    cancelStaleWait := some d.cancelStaleWait, answerWaitId := d.answerWaitId }

def userMessageReply (d : InputDecision) (item : WakeItem) (mid : String) : Reply :=
  { decisionReply d with wakeId := some item.id, messageId := some mid }

/-- `out = dict(decision); out.update(result)` -/
def mergedReply (d : InputDecision) (r : Reply) : Reply :=
  { r with cancelStaleWait := some d.cancelStaleWait, answerWaitId := d.answerWaitId }

def resolveUserInput (a : InputArgs) : Section Reply := do
  let s ← get
  if s.continuous.resetting then return resettingReply
  else
    let pending := (pendingWaits s.waits).head?
    let d := decideUserInput a.content a.userId a.choice a.fromWaitApi s.phase pending
      a.hasAttachments
    if !d.ok then return decisionReply d
    else
      match d.routed with
      | .interject =>
        let result ← interject env a.content a.userId a.messageId
        return mergedReply d result
      | .waitReply =>
        applyWaitReply env a.content a.userId a.choice d.answerWaitId a.messageId
      | .userMessage =>
        modify (fun s => if d.cancelStaleWait then cancelStale pending s else s)
        let mid ← messageIdOr env a.messageId
        let item ← enqueueWake env .userMessage (userPayload a.content a.userId mid) none
        return userMessageReply d item mid

/-- One due timer or wait: it is marked, and then its wake is enqueued under the id it got. -/
def fireOne : Due → Section Unit
  | .timer payload => do
    let id ← onQueue (draw env.uuid4)
    let _ ← enqueueWake env .timer payload (some id)
  | .wait waitId payload => do
    let s ← get
    match s.waits.get? waitId with
    | none => return ()
    | some w =>
      if w.status = .pending then
        let id ← onQueue (draw env.uuid4)
        modify (fun s => { s with
          waits := s.waits.set waitId { w with status := .timedOut, wakeId := some id } })
        let _ ← enqueueWake env .waitTimeout payload (some id)

def fireAll : List Due → Section Unit
  | [] => return ()
  | due :: rest => do
    fireOne env due
    fireAll rest

/-- `_fire_due_unlocked`: an error ends the poll and is logged. -/
def fireDue (dues : List Due) : Section Unit := fun s => .ok () (after (fireAll env dues s))

def openPhase (wake : WakeItem) (momentId : String) (s : Worker) : Worker :=
  { s with
    phase := .inMoment
    busy := true
    activeMoment := some momentId
    interject := .empty
    continuous := { s.continuous with
      streak := if wake.kind.social then 0 else s.continuous.streak } }

/-- `_claim_and_open`; a moment that cannot be opened cancels its wake. -/
def claimAndOpen (dues : List Due) (available opens : Bool) :
    Section (Option (WakeItem × String)) := do
  let s ← get
  if s.continuous.resetting then return none
  else
    fireDue env dues
    if !available then return none
    else
      let momentId ← onQueue (draw env.uuid4)
      let wake? ← onQueue (claim env momentId)
      match wake? with
      | none => return none
      | some wake =>
        if opens then
          modify (openPhase wake momentId)
          return some (wake, momentId)
        else
          exceptKeyError (onQueue (cancel env wake.id "open_moment_failed"))
          throw .osError

/-- `_drain_interjections` -/
def drainInterjections : Section (List InterjectItem) := do
  let s ← get
  modify (fun s => { s with interject := .empty })
  return s.interject.items

def flushItems : List InterjectItem → Section Unit
  | [] => return ()
  | it :: rest => do
    let mid ← messageIdOr env it.messageId
    let payload := (userPayload it.content it.userId mid).set "from_interject_remainder"
      (.bool true)
    let _ ← enqueueWake env .userMessage payload none
    flushItems rest

/-- `_flush_interjects_as_wakes_unlocked` -/
def flushInterjects : Section Unit := do
  let items ← drainInterjections
  flushItems env items

/-- `_ensure_wait_armed_unlocked` -/
def ensureWaitArmed (arm : WaitArm) (momentId : String) (arming : Arming) : Section Unit := do
  let s ← get
  if (s.waits.get? arm.waitId).isSome then return ()
  else
    match arming with
    | .refused => return ()
    | .raised => throw .overflowError
    | .armed expiresAt armedAt =>
      let id ← onQueue (orDefault (some arm.waitId) (draw env.uuid4))
      let row : PendingWait := ⟨id, arm.prompt, arm.choices, arm.userId, momentId, expiresAt,
        some arm.timeoutSeconds, some armedAt, .pending, none⟩
      modify (fun s => { s with waits := s.waits.set id row })

def gatesOf (s : Worker) (wake : WakeItem) (result : MomentResult) (stop : String)
    (w : FinalizeWorld) : ContinueGates where
  continuousEnabled := s.continuous.enabled
  stopReason := stop
  wakeKind := wake.kind
  toolsRan := result.toolsRan
  ledgerMutated := result.ledgerMutated
  hasPendingWait := hasPendingWait s.waits
  pendingTaskReadyCount := (pendingOfKind s.world.queue .taskReady).length
  hasOpenWork := w.hasOpenWork
  pendingMomentContinues := (pendingOfKind s.world.queue .momentContinue).length
  streak := s.continuous.streak
  sinceLastEnqueue := s.continuous.lastEnqueueAt.map (fun last => w.gateClock - last)
  modelBeats := result.modelBeats
  floodBeats := result.floodBeats
  lastStopHopWasFlood := result.lastStopHopWasFlood

/-- The cooldown starts, and the reason of a skip is kept. -/
def noteDecision (d : MomentContinueDecision) (now : Int) (c : ContinuousRuntimeState) :
    ContinuousRuntimeState :=
  { c with
    lastEnqueueAt := if d.startCooldown then some now else c.lastEnqueueAt
    lastSkipReason :=
      if d.enqueue then none
      else if d.reason = "disabled" then c.lastSkipReason else some d.reason }

def continuePayload (wake : WakeItem) (momentId stop : String) (streak : Nat) : Payload :=
  Dict.ofList [("source_moment_id", .str momentId), ("source_wake_kind", .str wake.kind.text),
    ("source_stop_reason", .str stop), ("streak", .int streak)]

/-- `_maybe_enqueue_moment_continue_unlocked` -/
def maybeEnqueueMomentContinue (wake : WakeItem) (momentId : String) (result : MomentResult)
    (stop : String) (w : FinalizeWorld) : Section (Option WakeItem) := do
  let s ← get
  let d := shouldEnqueueMomentContinue cfg (gatesOf s wake result stop w)
  modify (fun s => { s with continuous := noteDecision d w.stampClock s.continuous })
  if d.enqueue then
    let item ← enqueueWake env .momentContinue
      (continuePayload wake momentId stop s.continuous.streak) none
    modify (fun s => { s with continuous := { s.continuous with
      lastContinueWakeId := some item.id
      lastSourceMomentId := some momentId } })
    return some item
  else return none

/-- The reason a moment ends with; an unknown one counts as an error. -/
def normalStop (stopReason : String) : String :=
  if stopReason ∈ stopReasonTexts then stopReason else "error"

def armGiven (armWait : Option WaitArm) (momentId : String) (arming : Arming) : Section Unit :=
  match armWait with
  | some arm => ensureWaitArmed env arm momentId arming
  | none => pure ()

/-- Phase and streak at the end of a moment. -/
def settlePhase (wake : WakeItem) (s : Worker) : Worker :=
  let counts := wake.kind = .momentContinue ∧ s.continuous.enabled
  { s with
    phase := phaseFromPendingWaits s.waits
    continuous := { s.continuous with
      streak := if counts then s.continuous.streak + 1 else s.continuous.streak } }

def leaveMoment (s : Worker) : Worker := { s with busy := false, activeMoment := none }

/-- `_finalize_moment`; the wake of the continue it enqueued, if any. -/
def finalizeMoment (wake : WakeItem) (momentId : String) (result : MomentResult)
    (w : FinalizeWorld) : Section (Option WakeItem) := do
  if w.closing = .raised then throw .osError
  else
    exceptKeyError (onQueue (markDone env wake.id))
    flushInterjects env
    armGiven env result.armWait momentId w.arming
    modify (settlePhase wake)
    let item? ← maybeEnqueueMomentContinue env cfg wake momentId result
      (normalStop result.stopReason) w
    modify leaveMoment
    return item?

def finishInFlight (inFlight : Option (WakeItem × String)) : Section Unit :=
  match inFlight with
  | none => pure ()
  | some (wake, _) => exceptKeyError (onQueue (markDone env wake.id))

def leaveFailed (s : Worker) : Worker :=
  leaveMoment { s with phase := phaseFromPendingWaits s.waits }

/-- `_fail_in_flight`; the moment store may raise again. -/
def failInFlight (inFlight : Option (WakeItem × String)) (store : StoreCall) : Section Unit := do
  if inFlight.isSome ∧ store = .raised then throw .osError
  else
    finishInFlight env inFlight
    flushInterjects env
    modify leaveFailed

/-- `set_continuous_enabled` -/
def setContinuousEnabled (enabled : Bool) : Section Bool := do
  let s ← get
  if s.continuous.resetting then return false
  else
    modify (fun s => { s with continuous := { s.continuous with enabled := enabled } })
    if enabled then return true
    else
      let _ ← onQueue (cancelAllPendingOfKind env WakeKind.momentContinue.text
        "continuous_disabled")
      modify (fun s => { s with
        continuous := { s.continuous with streak := 0, lastSkipReason := none } })
      return true

/-- The first locked part of `reset_runtime_state`. -/
def beginReset : Section Bool := do
  let s ← get
  if s.continuous.resetting || s.busy || s.phase = .inMoment then return false
  else
    modify (fun s => { s with continuous := { s.continuous with resetting := true } })
    return true

/-- The disk part empties the log; the queue forgets its wakes unless `clear_all` raised. -/
def clearQueue (wiped : Bool) : Section Unit :=
  if wiped then onQueue resetEmpty
  else modify (fun s => { s with world := { s.world with log := ByteArray.empty } })

/-- The second locked part of a reset. -/
def clearMemory (wiped : Bool) : Section Unit := do
  let s ← get
  if s.continuous.resetting then
    clearQueue wiped
    modify (fun s => { s with
      waits := .empty
      phase := .idle
      busy := false
      activeMoment := none
      interject := .empty
      continuous := { s.continuous with
        streak := 0
        lastEnqueueAt := none
        lastContinueWakeId := none
        lastSourceMomentId := none
        lastSkipReason := none } })
  else return ()

def endReset : Section Unit :=
  modify (fun s => { s with continuous := { s.continuous with resetting := false } })

end Sections

/-- Every lock-held section, in the order threads come to it. -/
inductive Event where
  | resolveUserInput (a : InputArgs)
  | interject (content userId : String) (messageId : Option String)
  | claimAndOpen (dues : List Due) (available opens : Bool)
  | drainInterjections
  | loopRaised
  | finalizeMoment (result : MomentResult) (w : FinalizeWorld)
  | failInFlight (store : StoreCall)
  | setContinuousEnabled (enabled : Bool)
  | enqueueWake (kind : WakeKind) (payload : Payload)
  | enqueueTaskReady (taskId : String) (goalId : Option String) (payload : Payload)
  | armWait (w : PendingWait)
  | cancelWait (waitId : String)
  | beginReset
  | clearMemory (wiped : Bool)
  | endReset

inductive Answer where
  | quiet
  | raised
  | reply (r : Reply)
  | drained (items : List InterjectItem)
  | claimed (wake : WakeItem)
  | finalized (continued : Option WakeItem)
  | accepted (ok : Bool)

/-- The thread goes where `next` sends it, or to `failed` on an error. -/
def perform {α : Type} (m : Section α) (s : Worker) (next : α → Thread × Answer)
    (failed : Thread) : Answer × Worker :=
  match m s with
  | .ok a t => ((next a).2, { t with thread := (next a).1 })
  | .error _ t => (.raised, { t with thread := failed })

section Step

variable (env : Env) (cfg : ContinuousSettings)

/-- A section of a thread that is not the presence thread leaves that thread alone. -/
def aside {α : Type} (m : Section α) (s : Worker) (answer : α → Answer) : Answer × Worker :=
  perform m s (fun a => (s.thread, answer a)) s.thread

def stepWorker (s : Worker) : Event → Answer × Worker
  | .resolveUserInput a => aside (resolveUserInput env a) s .reply
  | .interject content userId messageId => aside (interject env content userId messageId) s .reply
  | .claimAndOpen dues available opens =>
    match s.thread with
    | .polling => perform (claimAndOpen env dues available opens) s
        (fun
          | none => (.polling, .quiet)
          | some (wake, momentId) => (.running wake momentId, .claimed wake))
        (.failing none)
    | _ => (.quiet, s)
  | .drainInterjections =>
    match s.thread with
    | .running _ _ => aside drainInterjections s .drained
    | _ => (.quiet, s)
  | .loopRaised =>
    match s.thread with
    | .running wake momentId => (.quiet, { s with thread := .failing (some (wake, momentId)) })
    | _ => (.quiet, s)
  | .finalizeMoment result w =>
    match s.thread with
    | .running wake momentId => perform (finalizeMoment env cfg wake momentId result w) s
        (fun item? => (.polling, .finalized item?)) (.failing (some (wake, momentId)))
    | _ => (.quiet, s)
  | .failInFlight store =>
    match s.thread with
    | .failing inFlight => perform (failInFlight env inFlight store) s
        (fun _ => (.polling, .quiet)) .dead
    | _ => (.quiet, s)
  | .setContinuousEnabled enabled => aside (setContinuousEnabled env enabled) s .accepted
  | .enqueueWake kind payload =>
    if s.continuous.resetting then (.raised, s)
    else aside (enqueueWake env kind payload none) s (fun _ => .quiet)
  | .enqueueTaskReady taskId goalId payload =>
    if s.continuous.resetting then (.raised, s)
    else aside (onQueue (enqueueTaskReady env taskId goalId payload)) s (fun _ => .quiet)
  | .armWait w => (.quiet, { s with waits := s.waits.set w.id w })
  | .cancelWait waitId =>
    if s.waits.get? waitId = none then (.quiet, s)
    else
      let waits := settleWait s.waits waitId .cancelled
      (.quiet, { s with
        waits := waits
        phase := if s.phase = .waiting ∧ s.busy = false ∧ hasPendingWait waits = false then .idle
          else s.phase })
  | .beginReset => aside beginReset s .accepted
  | .clearMemory wiped => aside (clearMemory wiped) s (fun _ => .quiet)
  | .endReset => aside endReset s (fun _ => .quiet)

/-- A worker that starts on a queue and the waits it loaded. -/
def Worker.start (world : World) (waits : Dict String PendingWait) (enabled : Bool) : Worker :=
  ⟨world, waits, phaseFromPendingWaits waits, false, none, .empty,
    ContinuousRuntimeState.start enabled, .polling⟩

end Step

end Elyra.Presence
