import Elyra.Memory.StoreCalls
import Elyra.Framework.Run

namespace Elyra.Memory

open Json

structure ChannelEmbeddings where
  encodedAt : String
  channelsPresent : List String

/-- What `encode_atom` returns; `mediaSkipped` is the inventory its meta carries, if any. -/
structure EncodeResult where
  status : String
  error : Option String
  embeddings : Option ChannelEmbeddings
  mediaSkipped : Option (List Json)

/-- What one pass over an id meets outside the store: the health of the embedder, the gate (`none`
without one), the model's answer, and what `upsert` returns (`none` without an index, an error when
it raises). -/
structure EncodeJob where
  atomId : String
  embedderOk : Bool
  gateHeld : Option Bool
  result : Except PyErr EncodeResult
  upsert : Option (Except PyErr Bool)
  maxAttempts : Int

/-- A status with the meta keys written beside it. -/
structure StatusWrite where
  status : String
  updates : List (String × Json)

def contentFingerprint (a : Atom) : String :=
  a.contentText ++ "|" ++ String.intercalate "," (sortBy id (a.mediaIds.filter (· ≠ "")))

def isEmbeddable (a : Atom) : Bool :=
  a.kind ≠ "moment_meta" && (strip a.contentText.toList ≠ [] || a.mediaIds ≠ [])

section Pass

variable [PyCoerce]

/-- `int(meta.get("embed_attempts") or 0)`. -/
def attemptsOf (a : Atom) : Except PyErr Int :=
  match a.metadata.get? "embed_attempts" with
  | none => .ok 0
  | some v =>
    if truthy v then
      match pyInt v with
      | some n => .ok n
      | none => .error (.valueError [.text "embed_attempts"])
    else .ok 0

def encodeOk (a : Atom) : Bool :=
  match a.metadata.get? "embed_encode_ok" with
  | some v => truthy v
  | none => false

def skippedUpdate (r : EncodeResult) : List (String × Json) :=
  match r.mediaSkipped with
  | some l => [("embed_media_skipped", .arr l)]
  | none => []

/-- Only a confirmed upsert is `ready`; otherwise the atom stays pending with its vectors noted. -/
def encodedWrite (job : EncodeJob) (a : Atom) (attempts : Int) (r : EncodeResult)
    (e : ChannelEmbeddings) : StatusWrite :=
  let updates : List (String × Json) :=
    ("embed_attempts", .int attempts) :: skippedUpdate r ++
      [("embed_encode_ok", .bool true), ("embed_content_fp", .str (contentFingerprint a)),
        ("embed_encoded_at", .str e.encodedAt),
        ("embed_channels", .arr (e.channelsPresent.map .str))] ++
      if r.mediaSkipped.isNone then [("embed_media_skipped", .arr [])] else []
  match job.upsert with
  | some (.ok true) => ⟨"ready", updates⟩
  | some (.error _) => ⟨"pending", updates ++ [("embed_error", .str "index_upsert_failed")]⟩
  | _ => ⟨"pending", updates⟩

def errorOr (r : EncodeResult) (default : String) : Json :=
  .str (if missing r.error then default else r.error.getD "")

/-- A failed encode stays pending until the attempts are used up. -/
def failedWrite (job : EncodeJob) (attempts : Int) (r : EncodeResult) : StatusWrite :=
  ⟨if job.maxAttempts ≤ attempts then "failed" else "pending",
    ("embed_attempts", .int attempts) :: skippedUpdate r ++
      [("embed_error", errorOr r "encode_failed")]⟩

/-- The status write for what the model answered. -/
def resultWrite (job : EncodeJob) (a : Atom) (before : Int) (r : EncodeResult) : StatusWrite :=
  if r.error = some "media_unresolved" then
    ⟨"pending", ("embed_attempts", .int before) :: skippedUpdate r ++
      [("embed_error", .str "media_unresolved")]⟩
  else if r.status = "skipped" then
    ⟨"skipped", ("embed_attempts", .int (before + 1)) :: skippedUpdate r ++
      [("embed_error", errorOr r "skipped")]⟩
  else
    match r.embeddings with
    | none => failedWrite job (before + 1) r
    | some e =>
      if r.status = "failed" then failedWrite job (before + 1) r
      else encodedWrite job a (before + 1) r e

/-- `_process_one` from the row it read to its only write; nothing is written on the other paths. -/
def processOne (job : EncodeJob) (a : Atom) : Except PyErr (Option StatusWrite) :=
  if a.embeddingStatus = "ready" ∨ a.embeddingStatus = "skipped" then .ok none
  else if encodeOk a ∧ a.metadata.get? "embed_content_fp" = some (.str (contentFingerprint a)) ∧
      a.embeddingStatus = "pending" ∧ job.upsert.isNone then .ok none
  else if !isEmbeddable a then .ok (some ⟨"skipped", [("embed_error", .str "no modalities")]⟩)
  else if !job.embedderOk ∨ job.gateHeld = some false then .ok none
  else
    match job.result with
    | .error e => .error e
    | .ok r => (attemptsOf a).map fun before => some (resultWrite job a before r)

end Pass

/-- `_mark_atom_status`: the row that goes back. -/
def markAtomStatus (a : Atom) (w : StatusWrite) : Atom :=
  { a with
    embeddingStatus := w.status
    metadata := w.updates.foldl (fun d p => d.set p.1 p.2) a.metadata }

/-- The encode thread: the ids it goes through, and between reading one and writing it back the row
it read. -/
structure Encoder where
  jobs : List EncodeJob
  held : Option (Atom × StatusWrite)

def Encoder.idle (e : Encoder) : Bool := e.jobs.isEmpty && e.held.isNone

/-- The row a job leaves to be written back. -/
def heldRow [PyCoerce] (job : EncodeJob) (row : Option Atom) : Option (Atom × StatusWrite) :=
  match row with
  | none => none
  | some a =>
    match processOne job a with
    | .ok (some w) => some (a, w)
    | _ => none

/-- One store operation of the encode thread: read the next row, or put the last one back. -/
def Encoder.step [PyCoerce] (e : Encoder) (s : JsonlMemoryStore) : Encoder × JsonlMemoryStore :=
  match e.held with
  | some (a, w) => (⟨e.jobs, none⟩, after (JsonlMemoryStore.putAtom (markAtomStatus a w) s))
  | none =>
    match e.jobs with
    | [] => (e, s)
    | job :: rest => (⟨rest, heldRow job (s.getAtom job.atomId)⟩, s)


/-- The settings the encode path reads; they may change while the process runs. -/
structure EncodeFlags where
  semanticEnabled : Bool
  embedEnabled : Bool
  encodeWorkerEnabled : Bool

inductive EncodeOwner where
  | none | idle | worker
  deriving DecidableEq

/-- Where a thread is inside `_encode_poll_once`: `ready` is past the last look at the epoch,
`draining` is inside `EncodeQueue.drain`. -/
inductive Tick where
  | entered | current | caughtUp | loaded | ready | draining
  deriving DecidableEq

inductive ThreadPlace where
  | polling
  | ticking (tick : Tick)
  | polled
  | dead
  deriving DecidableEq

/-- An `EncodeWorker` with its thread: the epoch its ticks are bound to, and its stop event. -/
structure EncodeWorker where
  epoch : Nat
  stop : Bool
  place : ThreadPlace
  deriving DecidableEq

/-- Which presence call is inside a tick. -/
inductive TickCaller where
  | idle | gap
  deriving DecidableEq

/-- Which presence call waits in the join of a stop. -/
inductive Stopper where
  | flipIdle | flipNone | restart | shutdown

inductive PresencePlace where
  | starting
  | looping
  | joining (stopper : Stopper)
  | ticking (caller : TickCaller) (tick : Tick)
  | finished

/-- The encode fields of the presence worker, every encode thread ever started, and where the
presence thread is. -/
structure EncodeState where
  flags : EncodeFlags
  owner : EncodeOwner
  epoch : Nat
  shuttingDown : Bool
  gapDrainActive : Bool
  handle : Option Nat
  threads : List EncodeWorker
  presence : PresencePlace

def EncodeState.start (flags : EncodeFlags) : EncodeState :=
  ⟨flags, .none, 0, false, false, none, [], .starting⟩

def EncodeWorker.isAlive (w : EncodeWorker) : Bool := w.place ≠ .dead

/-- `w is not None and w.is_alive()` -/
def handleAlive (s : EncodeState) : Bool :=
  (s.handle.bind (fun i => s.threads[i]?)).any EncodeWorker.isAlive

/-- `_desired_encode_owner` -/
def desiredEncodeOwner (flags : EncodeFlags) : EncodeOwner :=
  if !flags.semanticEnabled || !flags.embedEnabled then .none
  else if flags.encodeWorkerEnabled then .worker
  else .idle

def setThread (i : Nat) (w : EncodeWorker) (s : EncodeState) : EncodeState :=
  { s with threads := s.threads.set i w }

/-- A new worker under the current epoch; the system may refuse the thread. -/
def spawn (starts : Bool) (s : EncodeState) : EncodeState :=
  { s with
    owner := .worker
    handle := some s.threads.length
    threads := s.threads ++ [⟨s.epoch, false, if starts then .polling else .dead⟩] }

/-- `_start_encode_worker_if_needed` -/
def startEncodeWorkerIfNeeded (starts : Bool) (s : EncodeState) : EncodeState :=
  if s.shuttingDown then s
  else
    let s := { s with owner := desiredEncodeOwner s.flags }
    if s.owner ≠ .worker then s
    else if handleAlive s then s
    else spawn starts s

/-- The handle goes once its thread is dead; a thread that outlives the join keeps it. -/
def dropDead (s : EncodeState) : EncodeState :=
  if handleAlive s then s else { s with handle := none }

/-- What the caller of a stop does after it. -/
def afterStop (stopper : Stopper) (starts : Bool) (s : EncodeState) : EncodeState :=
  match stopper with
  | .flipIdle => { s with owner := .idle, presence := .looping }
  | .flipNone => { s with owner := .none, presence := .looping }
  | .restart =>
    if handleAlive s then { s with presence := .looping }
    else { startEncodeWorkerIfNeeded starts s with presence := .looping }
  | .shutdown => { s with owner := .none, presence := .finished }

/-- A worker is told to stop, and then joined. -/
def signalStop (stopper : Stopper) (starts : Bool) (s : EncodeState) : EncodeState :=
  match s.handle.bind (fun i => (s.threads[i]?).map (fun w => (i, w))) with
  | none => afterStop stopper starts s
  | some (i, w) => { setThread i { w with stop := true } s with presence := .joining stopper }

/-- `_stop_encode_worker` up to the join: the epoch moves on first. -/
def stopEncodeWorker (stopper : Stopper) (starts : Bool) (s : EncodeState) : EncodeState :=
  signalStop stopper starts { s with epoch := s.epoch + 1 }

/-- `_maybe_restart_encode_worker`; `due` is what the restart times and the backoff say. -/
def maybeRestartEncodeWorker (due starts : Bool) (s : EncodeState) : EncodeState :=
  if s.shuttingDown then s
  else
    match desiredEncodeOwner s.flags with
    | .idle =>
      if s.owner = .worker then stopEncodeWorker .flipIdle starts s else { s with owner := .idle }
    | .none =>
      if s.owner = .worker then stopEncodeWorker .flipNone starts s else { s with owner := .none }
    | .worker =>
      let s := dropDead { s with owner := .worker }
      if handleAlive s then s
      else if due then stopEncodeWorker .restart starts s
      else s

/-- `_shutdown_encode` -/
def shutdownEncode (s : EncodeState) : EncodeState :=
  stopEncodeWorker .shutdown false { s with shuttingDown := true }

/-- `_idle_memory_encode` up to its tick; here nothing asks whether a worker is alive. -/
def idleMemoryEncode (s : EncodeState) : EncodeState :=
  let desired := desiredEncodeOwner s.flags
  let s := if s.owner = .none ∧ desired = .idle then { s with owner := .idle } else s
  if s.owner = .worker then s
  else if desired ≠ .idle then s
  else { s with owner := .idle, presence := .ticking .idle .entered }

/-- `_gap_drain_if_needed` up to its tick -/
def gapDrainIfNeeded (s : EncodeState) : EncodeState :=
  if s.owner ≠ .worker then s
  else if s.shuttingDown then s
  else if handleAlive s then s
  else if s.gapDrainActive then s
  else { s with gapDrainActive := true, presence := .ticking .gap .entered }

/-- A tick bound to an epoch that has passed. -/
def staleEpoch (s : EncodeState) (epoch : Option Nat) : Bool := epoch.any (fun e => e ≠ s.epoch)

/-- `_encode_poll_once` from one look at the shared fields to the next, or back to its caller.
`found` tells whether what the step needs (store, queue, embedder, index) is there. -/
def encodePollOnce (s : EncodeState) (epoch : Option Nat) (found : Bool) : Tick → Option Tick
  | .entered =>
    if staleEpoch s epoch then none
    else if epoch.isSome && s.shuttingDown then none
    else some .current
  | .current =>
    if !s.flags.semanticEnabled || !s.flags.embedEnabled then none
    else if s.owner = .none then none
    else if found then some .caughtUp else none
  | .caughtUp =>
    if staleEpoch s epoch then none
    else if found then some .loaded else none
  | .loaded => if staleEpoch s epoch then none else some .ready
  | .ready => if found then some .draining else none
  | .draining => none

/-- The next move of an encode thread: `_run` around `_encode_poll_once`. -/
def threadMove (s : EncodeState) (w : EncodeWorker) (found : Bool) : ThreadPlace :=
  match w.place with
  | .polling => if w.stop then .dead else .ticking .entered
  | .ticking tick =>
    match encodePollOnce s (some w.epoch) found tick with
    | some next => .ticking next
    | none => .polled
  | .polled => if w.stop then .dead else .polling
  | .dead => .dead

/-- The presence thread comes back from a tick. -/
def tickDone (caller : TickCaller) (s : EncodeState) : EncodeState :=
  match caller with
  | .idle => { s with presence := .looping }
  | .gap => { s with gapDrainActive := false, presence := .looping }

inductive EncodeEvent where
  | setFlags (flags : EncodeFlags)
  | start (starts : Bool)
  | maybeRestart (due starts : Bool)
  | joined (starts : Bool)
  | idleMemoryEncode
  | gapDrainIfNeeded
  | presenceTick (found : Bool)
  | shutdown
  | threadStep (i : Nat) (found : Bool)
  | threadDies (i : Nat)

/-- One step of a thread or of the settings; an event that does not fit where its thread is
changes nothing. A join may end before the thread it waits for. -/
def stepEncodeState (s : EncodeState) : EncodeEvent → EncodeState
  | .setFlags flags => { s with flags := flags }
  | .start starts =>
    match s.presence with
    | .starting => { startEncodeWorkerIfNeeded starts s with presence := .looping }
    | _ => s
  | .maybeRestart due starts =>
    match s.presence with
    | .looping => maybeRestartEncodeWorker due starts s
    | _ => s
  | .joined starts =>
    match s.presence with
    | .joining stopper => afterStop stopper starts (dropDead s)
    | _ => s
  | .idleMemoryEncode =>
    match s.presence with
    | .looping => idleMemoryEncode s
    | _ => s
  | .gapDrainIfNeeded =>
    match s.presence with
    | .looping => gapDrainIfNeeded s
    | _ => s
  | .presenceTick found =>
    match s.presence with
    | .ticking caller tick =>
      match encodePollOnce s none found tick with
      | some next => { s with presence := .ticking caller next }
      | none => tickDone caller s
    | _ => s
  | .shutdown =>
    match s.presence with
    | .starting | .looping => shutdownEncode s
    | _ => s
  | .threadStep i found =>
    match s.threads[i]? with
    | some w => setThread i { w with place := threadMove s w found } s
    | none => s
  | .threadDies i =>
    match s.threads[i]? with
    | some w => setThread i { w with place := .dead } s
    | none => s

/-- The threads inside `EncodeQueue.drain`. -/
def drainers (s : EncodeState) : Nat :=
  s.threads.countP (fun w => w.place = .ticking .draining) +
    match s.presence with
    | .ticking _ .draining => 1
    | _ => 0

def liveWorkers (s : EncodeState) : Nat := s.threads.countP EncodeWorker.isAlive

end Elyra.Memory
