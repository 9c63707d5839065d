import Elyra.Framework.Asking
import Elyra.Sandbox.Lifecycle

namespace Elyra.Sandbox.Ensure

/-- What a client call raises: `SandboxNotFoundError`, another `SandboxError`, or an exception of
another class. -/
inductive ClientErr where
  | notFound (text : String)
  | sandbox (text : String)
  | other (className text : String)
  deriving DecidableEq

namespace ClientErr

def text : ClientErr → String
  | .notFound text | .sandbox text | .other _ text => text

/-- `_is_not_found` on an exception that is no `SandboxError`. -/
def isNotFound : ClientErr → Bool
  | .notFound _ => true
  | .sandbox _ => false
  | .other className text =>
    decide ("notfound".toList <:+: className.toLower.toList) ||
      decide ("not found".toList <:+: text.toLower.toList) ||
      decide ("does not exist".toList <:+: text.toLower.toList)

end ClientErr

/-- The calls of one ensure; a connected handle is a number. -/
inductive ClientCall where
  | hostTree
  | createKwargs
  | hostReady
  | remaining
  | get (name : String)
  | connect (name : String)
  | start (name : String)
  | waitUntilStopped (name : String)
  | create (name : String)
  | remove (name : String)
  | ping (sb : Nat)
  | readiness (sb : Nat)
  | kill (sb : Nat)
  | detach (sb : Nat)
  deriving DecidableEq

/-- `none` where the wall budget was gone before the call; a call past its share of it raises. -/
abbrev Share (α : Type) := Option (Except ClientErr α)

@[reducible] def AnswerTo : ClientCall → Type
  | .hostTree | .createKwargs => Except ClientErr Unit
  | .hostReady => Except ClientErr (Bool × Option String)
  | .remaining => Bool
  | .get _ => Share String
  | .connect _ | .start _ | .create _ => Share Nat
  | .waitUntilStopped _ | .remove _ | .kill _ | .detach _ => Share Unit
  | .ping _ => Share Bool
  | .readiness _ => Share (Bool × Option String)

/-- The maps of the manager. -/
structure Manager where
  clientUnusable : Bool
  skipGuestReadiness : Bool
  connected : Dict String Nat := .empty
  ready : Dict String Bool := .empty
  fingerprints : Dict String String := .empty
  lastReason : Dict String (Option String) := .empty
  ensureAttempted : Dict String Bool := .empty

inductive Halt where
  | wall
  | raised (e : ClientErr)

inductive EnsureResult where
  | ready (sandbox : Nat)
  | degraded (reason : String)
  deriving DecidableEq

namespace Manager

def isReady (m : Manager) (name : String) : Bool :=
  (m.ready.get? name).getD false && (m.connected.get? name).isSome

def lastEnsureReason (m : Manager) (name : String) : Option String :=
  if m.clientUnusable then some "client_unusable" else (m.lastReason.get? name).join

def clearCache (name : String) (m : Manager) : Manager :=
  { m with ready := m.ready.set name false, connected := m.connected.pop name }

def cache (name fp : String) (sb : Nat) (m : Manager) : Manager :=
  { m with
    connected := m.connected.set name sb
    ready := m.ready.set name true
    fingerprints := m.fingerprints.set name fp }

def noteReason (name : String) (reason : Option String) (m : Manager) : Manager :=
  { m with
    lastReason := m.lastReason.set name reason
    ensureAttempted := m.ensureAttempted.set name true }

end Manager

abbrev Ensuring := EStateM Halt (Asked AnswerTo Manager)

/-- `_run`: past the wall nothing is called. -/
def inShare {α : Type} : Share α → Ensuring (Except ClientErr α)
  | none => throw .wall
  | some r => pure r

/-- A call whose exceptions are not caught. -/
def uncaught {α : Type} : Except ClientErr α → Ensuring α
  | .ok a => pure a
  | .error e => throw (.raised e)

/-- `a or b` on a reason. -/
def orReason (reason : Option String) (default : String) : String :=
  match reason with
  | none | some "" => default
  | some text => text

section Transition

variable (env : Environment AnswerTo) (name fp : String)

def degraded (reason : String) : Ensuring EnsureResult := do
  alter (Manager.clearCache name)
  return .degraded reason

def readyDetached (sb : Nat) (detachAfter : Bool) : Ensuring EnsureResult := do
  if detachAfter then
    let _ ← inShare (← ask env (.detach sb))
  alter (Manager.cache name fp sb)
  return .ready sb

def readyIfMounts (skip : Bool) (sb : Nat) (detachAfter : Bool) : Ensuring EnsureResult := do
  if skip then
    match ← uncaught (← ask env .hostReady) with
    | (false, reason) => degraded name (orReason reason "host_not_ready")
    | (true, _) => readyDetached env name fp sb detachAfter
  else
    match ← inShare (← ask env (.readiness sb)) with
    | .error e => degraded name ("readiness_error:" ++ e.text)
    | .ok (false, reason) => degraded name (orReason reason "mount_not_ready")
    | .ok (true, _) => readyDetached env name fp sb detachAfter

def createAndReady (skip : Bool) : Ensuring EnsureResult := do
  uncaught (← ask env .createKwargs)
  match ← inShare (← ask env (.create name)) with
  | .error e => degraded name ("create_failed:" ++ e.text)
  | .ok sb => readyIfMounts env name fp skip sb true

/-- The machine is killed before its removal, if it runs; what fails here is passed over. -/
def killRunning : Ensuring Unit := do
  match ← inShare (← ask env (.get name)) with
  | .error _ => return ()
  | .ok status =>
    if status.toLower = "running" then
      match ← inShare (← ask env (.connect name)) with
      | .error _ => return ()
      | .ok sb =>
        let _ ← inShare (← ask env (.kill sb))
        return ()

def recreateOnce (skip : Bool) : Ensuring EnsureResult := do
  alter (Manager.clearCache name)
  killRunning env name
  let _ ← inShare (← ask env (.remove name))
  createAndReady env name fp skip

/-- A machine that answers is made ready; one that does not is recreated. -/
def pingThen (skip : Bool) (sb : Nat) (detachAfter : Bool) : Ensuring EnsureResult := do
  match ← inShare (← ask env (.ping sb)) with
  | .ok true => readyIfMounts env name fp skip sb detachAfter
  | .error _ => recreateOnce env name fp skip
  | .ok false =>
    -- this recreate stands inside the `try` of the ping: what it raises starts a second one
    try recreateOnce env name fp skip
    catch
      | .wall => throw .wall
      | .raised _ => recreateOnce env name fp skip

def handleRunning (skip : Bool) : Ensuring EnsureResult := do
  match ← inShare (← ask env (.connect name)) with
  | .error _ => recreateOnce env name fp skip
  | .ok sb => pingThen env name fp skip sb false

def handleStopped (skip : Bool) : Ensuring EnsureResult := do
  match ← inShare (← ask env (.start name)) with
  | .error _ => recreateOnce env name fp skip
  | .ok sb => pingThen env name fp skip sb true

def handleDraining (skip : Bool) : Ensuring EnsureResult := do
  if ← ask env .remaining then
    match ← inShare (← ask env (.waitUntilStopped name)) with
    | .error _ => recreateOnce env name fp skip
    | .ok () => handleStopped env name fp skip
  else throw .wall

/-- The transition for a machine that the client found. -/
def ensureFound (skip : Bool) (stored : Option String) (status : String) :
    Ensuring EnsureResult :=
  if stored.any (· ≠ fp) then recreateOnce env name fp skip
  else if status = "running" then handleRunning env name fp skip
  else if status = "stopped" then handleStopped env name fp skip
  else if status = "crashed" then recreateOnce env name fp skip
  else if status = "draining" then handleDraining env name fp skip
  else degraded name ("unknown_status:" ++ status)

def ensureLocked : Ensuring EnsureResult := do
  uncaught (← ask env .hostTree)
  let skip := (← get).state.skipGuestReadiness
  match ← inShare (← ask env (.get name)) with
  | .error (.notFound _) => createAndReady env name fp skip
  | .error (.sandbox text) => degraded name ("get_failed:" ++ text)
  | .error e =>
    if e.isNotFound then createAndReady env name fp skip
    else degraded name ("get_failed:" ++ e.text)
  | .ok status =>
    ensureFound env name fp skip ((← get).state.fingerprints.get? name) status.toLower

end Transition

/-- How a call on the manager ends. -/
abbrev Ended := Except Halt EnsureResult

/-- `ensure`, given its answers, the current fingerprint and whether it gets the lock; with the
questions it asked. -/
def ensure (env : Environment AnswerTo) (name fp : String) (locked : Bool) (m : Manager) :
    Ended × Manager × List (Sigma AnswerTo) :=
  if m.clientUnusable then
    (.ok (.degraded "client_unusable"), m.noteReason name (some "client_unusable"), [])
  else if !locked then
    (.ok (.degraded "lock_timeout"), m.noteReason name (some "lock_timeout"), [])
  else
    match ensureLocked env name fp ⟨m, []⟩ with
    | .ok (.ready sb) s => (.ok (.ready sb), s.state.noteReason name none, s.trace)
    | .ok (.degraded reason) s =>
      (.ok (.degraded reason), s.state.noteReason name (some (orReason (some reason) "degraded")),
        s.trace)
    | .error .wall s =>
      (.ok (.degraded "ensure_wall_timeout"),
        (s.state.clearCache name).noteReason name (some "ensure_wall_timeout"), s.trace)
    | .error (.raised e) s => (.error (.raised e), s.state, s.trace)

/-- `with_ready_sandbox` under its lock: a cached sandbox that answers is yielded as it is. -/
def withReadyLocked (env : Environment AnswerTo) (name fp : String) : Ensuring EnsureResult := do
  let m := (← get).state
  match m.connected.get? name with
  | none => ensureLocked env name fp
  | some sb =>
    if (m.ready.get? name).getD false then
      match ← inShare (← ask env (.ping sb)) with
      | .ok true => return .ready sb
      | .ok false | .error _ => ensureLocked env name fp
    else ensureLocked env name fp

/-- `with_ready_sandbox` up to its yield; `none` where it raises. -/
def withReadySandbox (env : Environment AnswerTo) (name fp : String) (locked : Bool)
    (m : Manager) : Option Nat × Manager :=
  if m.clientUnusable || !locked then (none, m)
  else
    match withReadyLocked env name fp ⟨m, []⟩ with
    | .ok (.ready sb) s => (some sb, s.state)
    | .ok (.degraded _) s | .error _ s => (none, s.state)

inductive ManagerCall where
  | ensure (name fp : String) (locked : Bool) (env : Environment AnswerTo)
  | withReady (name fp : String) (locked : Bool) (env : Environment AnswerTo)
  | invalidate (name : String)

def managerStep (m : Manager) : ManagerCall → Manager
  | .ensure name fp locked env => (ensure env name fp locked m).2.1
  | .withReady name fp locked env => (withReadySandbox env name fp locked m).2
  | .invalidate name => m.clearCache name

end Elyra.Sandbox.Ensure
