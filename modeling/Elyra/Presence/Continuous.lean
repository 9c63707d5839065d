import Elyra.Framework.Sorted
import Elyra.Framework.Python
import Elyra.Framework.Json.Lines

namespace Elyra.Presence

open Json

inductive WakeKind where
  | userMessage | waitReply | waitTimeout | timer | taskReady | momentContinue | background
  deriving DecidableEq

namespace WakeKind

def text : WakeKind → String
  | userMessage => "user_message"
  | waitReply => "wait_reply"
  | waitTimeout => "wait_timeout"
  | timer => "timer"
  | taskReady => "task_ready"
  | momentContinue => "moment_continue"
  | background => "background"

/-- `KIND_PRIORITY`: the band of a kind, lower is sooner. -/
def priority : WakeKind → Nat
  | userMessage => 0
  | waitReply => 0
  | waitTimeout => 1
  | timer => 2
  | taskReady => 3
  | momentContinue => 3
  | background => 4

def known : List WakeKind :=
  [userMessage, waitReply, waitTimeout, timer, taskReady, momentContinue, background]

def ofText (s : String) : Option WakeKind := known.find? (fun k => k.text = s)

@[simp] theorem ofText_text (k : WakeKind) : ofText k.text = some k := by
  cases k <;> decide

/-- `RE_ENQUEUE_ON_RECOVER`. -/
def reEnqueueOnRecover : WakeKind → Bool
  | timer | taskReady | momentContinue => true
  | userMessage | waitReply | waitTimeout | background => false

end WakeKind

inductive WakeOp where
  | enqueue | claimed | done | cancelled
  deriving DecidableEq

namespace WakeOp

def text : WakeOp → String
  | enqueue => "enqueue"
  | claimed => "claimed"
  | done => "done"
  | cancelled => "cancelled"

def terminal : WakeOp → Bool
  | done | cancelled => true
  | enqueue | claimed => false

end WakeOp

def reasonInterrupted : String := "interrupted_redelivery"

def reasonReplaced : String := "replaced"

abbrev Payload := Dict String Json

theorem WakeKind.banded (kind : WakeKind) : kind.priority = kind.priority := rfl

/-- A wake whose priority is the band of its kind. -/
structure WakeItem where
  id : String
  kind : WakeKind
  priority : Nat
  createdAt : String
  payload : Payload
  banded : priority = kind.priority
  deriving DecidableEq

/-- Band, then `created_at`, then id. -/
abbrev WakeKey := ℕ ×ₗ String ×ₗ String

def WakeKey.wakeId (k : WakeKey) : String := (ofLex (ofLex k).2).2

def heapKey (item : WakeItem) : WakeKey := toLex (item.priority, toLex (item.createdAt, item.id))

@[simp] theorem wakeId_heapKey (item : WakeItem) : (heapKey item).wakeId = item.id := rfl

def WakeItem.toDict (item : WakeItem) : Json :=
  .obj [("id", .str item.id), ("kind", .str item.kind.text), ("priority", .int item.priority),
    ("created_at", .str item.createdAt), ("payload", .obj item.payload.items)]

/-- The rows `_append_event` is given. -/
inductive WakeEvent where
  | enqueue (ts : String) (item : WakeItem)
  | claimed (ts wakeId momentId : String)
  | done (ts wakeId : String)
  | cancelled (ts wakeId reason : String)

namespace WakeEvent

def wakeId : WakeEvent → String
  | enqueue _ item => item.id
  | claimed _ wakeId _ => wakeId
  | done _ wakeId => wakeId
  | cancelled _ wakeId _ => wakeId

def op : WakeEvent → WakeOp
  | enqueue _ _ => .enqueue
  | claimed _ _ _ => .claimed
  | done _ _ => .done
  | cancelled _ _ _ => .cancelled

def row : WakeEvent → List (String × Json)
  | enqueue ts item =>
    [("ts", .str ts), ("wake_id", .str item.id), ("op", .str "enqueue"), ("item", item.toDict)]
  | claimed ts wakeId momentId =>
    [("ts", .str ts), ("wake_id", .str wakeId), ("op", .str "claimed"),
      ("moment_id", .str momentId)]
  | done ts wakeId => [("ts", .str ts), ("wake_id", .str wakeId), ("op", .str "done")]
  | cancelled ts wakeId reason =>
    [("ts", .str ts), ("wake_id", .str wakeId), ("op", .str "cancelled"), ("reason", .str reason)]

end WakeEvent

/-- `WakeItem.from_dict` before its kind, id and priority are checked. -/
structure RawWakeItem where
  id : String
  kind : String
  priority : Int
  createdAt : String
  payload : Payload

section Fold

variable [PyCoerce]

def RawWakeItem.fromDict (data : List (String × Json)) : Option RawWakeItem := do
  let id ← lookup data "id"
  let kind ← lookup data "kind"
  let priority ← lookup data "priority"
  let priority ← pyInt priority
  let createdAt ← lookup data "created_at"
  let payload ← pyDict ((lookup data "payload").getD .null)
  return ⟨pyStr id, pyStr kind, priority, pyStr createdAt, payload⟩

/-- An enqueue row's item with its id repaired to the event's and its priority to the band;
a poison row or an unknown kind gives none. -/
def parseWakeItem (data : List (String × Json)) (wakeId : String) : Option WakeItem := do
  let item ← RawWakeItem.fromDict data
  let kind ← WakeKind.ofText item.kind
  return ⟨wakeId, kind, kind.priority, item.createdAt, item.payload, kind.banded⟩

/-- Latest lifecycle state of one wake id. -/
structure FoldedWake where
  item : Option WakeItem := none
  op : Option WakeOp := none
  momentId : Option String := none
  reason : Option String := none

def foldSlot (slot : FoldedWake) (wakeId op : String) (ev : List (String × Json)) : FoldedWake :=
  if op = "enqueue" then
    match lookup ev "item" with
    | some (.obj data) =>
      match parseWakeItem data wakeId with
      | some item => ⟨some item, some .enqueue, none, none⟩
      | none => slot
    | _ => slot
  else if op = "claimed" then
    { slot with op := some .claimed, momentId := optStr (lookup ev "moment_id"), reason := none }
  else if op = "done" then
    { slot with op := some .done, reason := none }
  else if op = "cancelled" then
    { slot with op := some .cancelled, reason := optStr (lookup ev "reason") }
  else
    slot

def foldEvent (state : Dict String FoldedWake) (ev : Json) : Dict String FoldedWake :=
  match ev with
  | .obj kvs =>
    match lookup kvs "wake_id", lookup kvs "op" with
    | some wakeId, some op =>
      let slot := (state.get? (pyStr wakeId)).getD {}
      state.set (pyStr wakeId) (foldSlot slot (pyStr wakeId) (pyStr op) kvs)
    | _, _ => state
  | _ => state

def foldEvents (events : List Json) : Dict String FoldedWake := events.foldl foldEvent .empty

end Fold

/-- `MOMENT_CONTINUE_STOP_ALLOWLIST` -/
def momentContinueStopAllowlist : List String :=
  ["no_tools", "time_continue_declined", "max_hops"]

/-- `SOCIAL_WAKE_KINDS` -/
def WakeKind.social : WakeKind → Bool
  | .userMessage | .waitReply => true
  | .waitTimeout | .timer | .taskReady | .momentContinue | .background => false

/-- The knobs of the outer chain. -/
structure ContinuousSettings where
  maxContinueStreak : Int
  cooldownSeconds : Int
  maxPendingContinues : Int
  requireProgress : Bool
  skipPureSocial : Bool

def ContinuousSettings.default : ContinuousSettings := ⟨8, 30, 1, true, true⟩

/-- `last_enqueue_at` is a clock reading in microseconds. -/
structure ContinuousRuntimeState where
  enabled : Bool
  streak : Nat
  lastEnqueueAt : Option Int
  lastContinueWakeId : Option String
  lastSourceMomentId : Option String
  lastSkipReason : Option String
  resetting : Bool

def ContinuousRuntimeState.start (enabled : Bool) : ContinuousRuntimeState :=
  ⟨enabled, 0, none, none, none, none, false⟩

structure MomentContinueDecision where
  enqueue : Bool
  reason : String
  skipForPendingTaskReady : Bool
  startCooldown : Bool
  deriving DecidableEq

/-- A flood deny and a successful enqueue tick the cooldown. -/
def momentContinueDecision (enqueue : Bool) (reason : String)
    (skipForPendingTaskReady : Bool) : MomentContinueDecision :=
  ⟨enqueue, reason, skipForPendingTaskReady, reason = "flood" || reason = "enqueued"⟩

def floodMajorityOrLastStop (modelBeats floodBeats : Int) (lastStopHopWasFlood : Bool) : Bool :=
  lastStopHopWasFlood || (1 ≤ floodBeats && modelBeats ≤ floodBeats * 2)

/-- What finalize hands to the gates. Elapsed time is in microseconds, none before a first
enqueue. -/
structure ContinueGates where
  continuousEnabled : Bool
  stopReason : String
  wakeKind : WakeKind
  toolsRan : Bool
  ledgerMutated : Bool
  hasPendingWait : Bool
  pendingTaskReadyCount : Nat
  hasOpenWork : Bool
  pendingMomentContinues : Nat
  streak : Nat
  sinceLastEnqueue : Option Int
  modelBeats : Int
  floodBeats : Int
  lastStopHopWasFlood : Bool

/-- `should_enqueue_moment_continue`: the eleven gates in order. -/
def shouldEnqueueMomentContinue (cfg : ContinuousSettings) (g : ContinueGates) :
    MomentContinueDecision :=
  if !g.continuousEnabled then momentContinueDecision false "disabled" false
  else if g.stopReason ∉ momentContinueStopAllowlist then
    momentContinueDecision false "stop_reason" false
  else if g.hasPendingWait then momentContinueDecision false "pending_wait" false
  else if cfg.maxPendingContinues ≤ g.pendingMomentContinues then
    momentContinueDecision false "dedupe" false
  else if cfg.maxContinueStreak ≤ g.streak then momentContinueDecision false "streak" false
  else if 0 < cfg.cooldownSeconds ∧
      g.sinceLastEnqueue.any (fun t => t < cfg.cooldownSeconds * 1000000) then
    momentContinueDecision false "cooldown" false
  else if cfg.requireProgress && !(g.toolsRan || g.ledgerMutated) then
    momentContinueDecision false "no_progress" false
  else if cfg.skipPureSocial && g.wakeKind.social && !g.toolsRan && !g.ledgerMutated then
    momentContinueDecision false "pure_social" false
  else if 0 < g.pendingTaskReadyCount then
    momentContinueDecision false "pending_task_ready" true
  else if !g.hasOpenWork then momentContinueDecision false "no_open_work" false
  else if floodMajorityOrLastStop g.modelBeats g.floodBeats g.lastStopHopWasFlood then
    momentContinueDecision false "flood" false
  else momentContinueDecision true "enqueued" false

/-- What must hold for a continue to be enqueued. -/
structure GatesOpen (cfg : ContinuousSettings) (g : ContinueGates) : Prop where
  enabled : g.continuousEnabled = true
  noWait : g.hasPendingWait = false
  pending : (g.pendingMomentContinues : Int) < cfg.maxPendingContinues
  streak : (g.streak : Int) < cfg.maxContinueStreak
  cooldown : 0 < cfg.cooldownSeconds → ∀ t ∈ g.sinceLastEnqueue, cfg.cooldownSeconds * 1000000 ≤ t
  noTaskReady : g.pendingTaskReadyCount = 0
  openWork : g.hasOpenWork = true

/-- A decision to enqueue went past the gate. -/
theorem past_gate {c : Prop} [Decidable c] {reason : String} {skip : Bool}
    {d : MomentContinueDecision}
    (h : (if c then momentContinueDecision false reason skip else d).enqueue = true) :
    ¬ c ∧ (if c then momentContinueDecision false reason skip else d) = d ∧ d.enqueue = true := by
  by_cases hc : c
  · rw [if_pos hc] at h
    cases h
  · rw [if_neg hc] at h
    exact ⟨hc, if_neg hc, h⟩

/-- The gates let a wake through only when all of them are open, and then the cooldown starts. -/
theorem gatesOpen_of_enqueue (cfg : ContinuousSettings) (g : ContinueGates)
    (h : (shouldEnqueueMomentContinue cfg g).enqueue = true) :
    GatesOpen cfg g ∧ (shouldEnqueueMomentContinue cfg g).startCooldown = true := by
  unfold shouldEnqueueMomentContinue at h ⊢
  obtain ⟨henabled, e1, h⟩ := past_gate h
  obtain ⟨-, e2, h⟩ := past_gate h
  obtain ⟨hwait, e3, h⟩ := past_gate h
  obtain ⟨hpending, e4, h⟩ := past_gate h
  obtain ⟨hstreak, e5, h⟩ := past_gate h
  obtain ⟨hcooldown, e6, h⟩ := past_gate h
  obtain ⟨-, e7, h⟩ := past_gate h
  obtain ⟨-, e8, h⟩ := past_gate h
  obtain ⟨htask, e9, h⟩ := past_gate h
  obtain ⟨hopen, e10, h⟩ := past_gate h
  obtain ⟨-, e11, h⟩ := past_gate h
  refine ⟨⟨?_, ?_, ?_, ?_, ?_, ?_, ?_⟩, ?_⟩
  · simpa using henabled
  · simpa using hwait
  · omega
  · omega
  · intro hpos t ht
    by_contra hlt
    apply hcooldown
    refine ⟨hpos, ?_⟩
    rw [Option.mem_def.mp ht]
    simpa using hlt
  · omega
  · simpa using hopen
  · rw [e1, e2, e3, e4, e5, e6, e7, e8, e9, e10, e11]
    rfl

end Elyra.Presence
