import Elyra.Framework.Dict
import Elyra.Framework.Json.Parse
import Elyra.Framework.Run
import Elyra.Framework.Text

namespace Elyra.Sandbox

/-- SHA-256 of the compact JSON text with sorted keys. -/
class FingerprintDigest where
  digest : Json → String

def guestWorkspaceRoot : String := "/workspace"

/-- Guest path, host path under the root, read-only. -/
def mountSpec : List (String × String × Bool) :=
  [(guestWorkspaceRoot ++ "/lib", "lib", true), (guestWorkspaceRoot ++ "/general", "general", true),
    (guestWorkspaceRoot ++ "/fixtures", "fixtures", true),
    (guestWorkspaceRoot ++ "/media", "media", true), (guestWorkspaceRoot ++ "/tmp", "tmp", false),
    (guestWorkspaceRoot ++ "/tools", "tools", false)]

def msbNetworkPolicies : List String := ["none", "public_only", "allow_all"]

def msbNetworkDefault : String := "public_only"

/-- The value of `ELYRA_SANDBOX_NETWORK`, when it names a policy. -/
def resolveMsbNetworkPolicyId (env : Option String) : String :=
  let given := if env.getD "" = "" then msbNetworkDefault else env.getD ""
  let raw := (String.ofList (strip given.toList)).toLower
  if raw ∈ msbNetworkPolicies then raw else msbNetworkDefault

/-- The create-time parameters that a fingerprint covers. -/
structure MountParams where
  image : String
  networkPolicyId : String
  hostRoot : String
  deriving DecidableEq

def mountJson (hostRoot : String) (mount : String × String × Bool) : Json :=
  .obj [("guest", .str mount.1), ("host", .str (hostRoot ++ "/" ++ mount.2.1)),
    ("readonly", .bool mount.2.2)]

def mountFingerprint [FingerprintDigest] (name : String) (p : MountParams) : String :=
  FingerprintDigest.digest (.obj [("name", .str name), ("image", .str p.image),
    ("network_policy_id", .str p.networkPolicyId), ("host_root", .str p.hostRoot),
    ("mounts", .arr (mountSpec.map (mountJson p.hostRoot)))])

/-- The operator's side: image, network environment and host roots. -/
structure HostSide where
  image : String
  network : Option String
  hostRoot : String → String

def HostSide.params (h : HostSide) (name : String) : MountParams :=
  ⟨h.image, resolveMsbNetworkPolicyId h.network, h.hostRoot name⟩

/-- The virtual machines that exist, each with its parameters at creation, and the maps of the
lifecycle manager; a connected handle is the parameters of its machine. -/
structure SandboxWorld where
  host : HostSide
  vms : Dict String MountParams := .empty
  connected : Dict String MountParams := .empty
  ready : Dict String Bool := .empty
  fingerprints : Dict String String := .empty

inductive Reply where
  | ok | raises | timeout
  deriving DecidableEq

inductive GetReply where
  | notFound | raises | timeout
  | found (status : String)

inductive PingReply where
  | alive | dead | raises | timeout
  deriving DecidableEq

/-- The readiness of a sandbox; `escapes` where the check of the host's mounts, which stands for it
without a guest, raises: that is not caught. -/
inductive ReadyReply where
  | ready | raises | timeout | escapes
  | notReady (reason : String)

/-- What the client answers from a creation on. A creation that fails may have happened all the
same. -/
structure CreateAnswers where
  kwargsRaise : Bool
  create : Reply
  created : Bool
  readiness : ReadyReply
  detach : Reply

/-- A removal that fails may have happened all the same. -/
structure RecreateAnswers extends CreateAnswers where
  killTimesOut : Bool
  remove : Reply
  removed : Bool

/-- What the client answers during one ensure, with those of a second recreate apart. -/
structure ClientAnswers where
  get : GetReply
  connect : Reply
  ping : PingReply
  start : Reply
  drained : Reply
  readiness : ReadyReply
  detach : Reply
  first : RecreateAnswers
  second : RecreateAnswers

/-- How a transition ends. -/
inductive Outcome where
  | ready (sandbox : MountParams)
  | degraded (reason : String)
  | wallTimeout
  | raised
  deriving DecidableEq

namespace SandboxWorld

def clearCache (name : String) (w : SandboxWorld) : SandboxWorld :=
  { w with ready := w.ready.set name false, connected := w.connected.pop name }

def degraded (name reason : String) (w : SandboxWorld) : Outcome × SandboxWorld :=
  (.degraded reason, w.clearCache name)

/-- Readiness, and detach when owning; only a ready sandbox is cached and its fingerprint kept. -/
def readyIfMounts (name fp : String) (sb : MountParams) (readiness : ReadyReply) (detach : Reply)
    (detachAfter : Bool) (w : SandboxWorld) : Outcome × SandboxWorld :=
  match readiness with
  | .timeout => (.wallTimeout, w)
  | .escapes => (.raised, w)
  | .raises => w.degraded name "readiness_error"
  | .notReady reason => w.degraded name reason
  | .ready =>
    if detachAfter && detach = .timeout then (.wallTimeout, w)
    else
      (.ready sb, { w with
        connected := w.connected.set name sb
        ready := w.ready.set name true
        fingerprints := w.fingerprints.set name fp })

def createVm (name : String) (w : SandboxWorld) : SandboxWorld :=
  { w with vms := w.vms.set name (w.host.params name) }

def createAndReady (name fp : String) (ans : CreateAnswers) (w : SandboxWorld) :
    Outcome × SandboxWorld :=
  let made := if ans.created then w.createVm name else w
  if ans.kwargsRaise then (.raised, w)
  else
    match ans.create with
    | .timeout => (.wallTimeout, made)
    | .raises => made.degraded name "create_failed"
    | .ok =>
      (w.createVm name).readyIfMounts name fp (w.host.params name) ans.readiness ans.detach true

/-- One-shot remove, then create, whatever the removal came to. -/
def recreateOnce (name fp : String) (ans : RecreateAnswers) (w : SandboxWorld) :
    Outcome × SandboxWorld :=
  let cleared := w.clearCache name
  if ans.killTimesOut then (.wallTimeout, cleared)
  else
    let removed := if ans.removed then { cleared with vms := cleared.vms.pop name } else cleared
    if ans.remove = .timeout then (.wallTimeout, removed)
    else removed.createAndReady name fp ans.toCreateAnswers

/-- A machine that answers is made ready; one that does not is recreated. The recreate of a ping
that was answered `False` stands inside a `try`: what it raises starts a second one. -/
def pingThen (name fp : String) (vm : MountParams) (ans : ClientAnswers) (detachAfter : Bool)
    (w : SandboxWorld) : Outcome × SandboxWorld :=
  match ans.ping with
  | .timeout => (.wallTimeout, w)
  | .raises => w.recreateOnce name fp ans.first
  | .dead =>
    match w.recreateOnce name fp ans.first with
    | (.raised, t) => t.recreateOnce name fp ans.second
    | r => r
  | .alive => w.readyIfMounts name fp vm ans.readiness ans.detach detachAfter

def handleRunning (name fp : String) (vm : MountParams) (ans : ClientAnswers) (w : SandboxWorld) :
    Outcome × SandboxWorld :=
  match ans.connect with
  | .timeout => (.wallTimeout, w)
  | .raises => w.recreateOnce name fp ans.first
  | .ok => w.pingThen name fp vm ans false

def handleStopped (name fp : String) (vm : MountParams) (ans : ClientAnswers) (w : SandboxWorld) :
    Outcome × SandboxWorld :=
  match ans.start with
  | .timeout => (.wallTimeout, w)
  | .raises => w.recreateOnce name fp ans.first
  | .ok => w.pingThen name fp vm ans true

def handleDraining (name fp : String) (vm : MountParams) (ans : ClientAnswers) (w : SandboxWorld) :
    Outcome × SandboxWorld :=
  match ans.drained with
  | .timeout => (.wallTimeout, w)
  | .raises => w.recreateOnce name fp ans.first
  | .ok => w.handleStopped name fp vm ans

variable [FingerprintDigest]

/-- The fingerprint that is current for a name. -/
def currentFp (w : SandboxWorld) (name : String) : String := mountFingerprint name (w.host.params name)

/-- A fingerprint is kept and it is not the current one. -/
def mismatch (w : SandboxWorld) (name : String) : Bool :=
  (w.fingerprints.get? name).any fun stored => stored ≠ w.currentFp name

/-- The transition for a machine that the client found. -/
def ensureFound (name status : String) (vm : MountParams) (ans : ClientAnswers) (w : SandboxWorld) :
    Outcome × SandboxWorld :=
  let fp := w.currentFp name
  if w.mismatch name then w.recreateOnce name fp ans.first
  else if status = "running" then w.handleRunning name fp vm ans
  else if status = "stopped" then w.handleStopped name fp vm ans
  else if status = "crashed" then w.recreateOnce name fp ans.first
  else if status = "draining" then w.handleDraining name fp vm ans
  else w.degraded name ("unknown_status:" ++ status)

def ensureLocked (name : String) (ans : ClientAnswers) (w : SandboxWorld) :
    Outcome × SandboxWorld :=
  match ans.get with
  | .timeout => (.wallTimeout, w)
  | .raises => w.degraded name "get_failed"
  | .notFound => w.createAndReady name (w.currentFp name) ans.first.toCreateAnswers
  | .found status =>
    match w.vms.get? name with
    | none => w.createAndReady name (w.currentFp name) ans.first.toCreateAnswers
    | some vm => w.ensureFound name status.toLower vm ans

/-- `ensure`: a wall timeout degrades; without the instance lock nothing changes. -/
def ensure (name : String) (locked : Bool) (ans : ClientAnswers) (w : SandboxWorld) :
    Outcome × SandboxWorld :=
  if locked then
    match w.ensureLocked name ans with
    | (.wallTimeout, t) => t.degraded name "ensure_wall_timeout"
    | r => r
  else (.degraded "lock_timeout", w)

/-- The cached handle, when its sandbox counts as ready. -/
def cached (w : SandboxWorld) (name : String) : Option MountParams :=
  if (w.ready.get? name).getD false then w.connected.get? name else none

/-- `with_ready_sandbox` up to its yield: a cached sandbox that answers is yielded as it is. -/
def withReadySandbox (name : String) (locked : Bool) (ping : PingReply) (ans : ClientAnswers)
    (w : SandboxWorld) : Outcome × SandboxWorld :=
  if locked then
    match w.cached name, ping with
    | some sb, .alive => (.ready sb, w)
    | some _, .timeout => (.wallTimeout, w)
    | _, _ => w.ensureLocked name ans
  else (.degraded "lock_timeout", w)

end SandboxWorld

inductive SandboxCall where
  | ensure (name : String) (locked : Bool) (ans : ClientAnswers)
  | withReady (name : String) (locked : Bool) (ping : PingReply) (ans : ClientAnswers)
  | invalidate (name : String)
  | restart
  | retarget (host : HostSide)

namespace SandboxWorld

variable [FingerprintDigest]

/-- What a call hands out, and the name it is for. -/
def handsOut (w : SandboxWorld) : SandboxCall → Option (String × Outcome)
  | .ensure name locked ans => some (name, (w.ensure name locked ans).1)
  | .withReady name locked ping ans => some (name, (w.withReadySandbox name locked ping ans).1)
  | .invalidate _ | .restart | .retarget _ => none

/-- A restart forgets the maps; the machines live on. -/
def step (w : SandboxWorld) : SandboxCall → SandboxWorld
  | .ensure name locked ans => (w.ensure name locked ans).2
  | .withReady name locked ping ans => (w.withReadySandbox name locked ping ans).2
  | .invalidate name => w.clearCache name
  | .restart => { w with connected := .empty, ready := .empty, fingerprints := .empty }
  | .retarget host => { w with host }

/-- A sandbox handed out was created with the parameters of the current fingerprint. -/
def Lawful (w : SandboxWorld) (call : SandboxCall) : Prop :=
  ∀ name sb, w.handsOut call = some (name, .ready sb) → mountFingerprint name sb = w.currentFp name

end SandboxWorld
end Elyra.Sandbox
