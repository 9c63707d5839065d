import Elyra.Presence.Invariant

namespace Elyra.Presence

open Json

/-- What an operation can do to the log and the memory in one go. Only a failing append loses
a popped wake. -/
inductive Move (clean : Bool) (w w' : World) : Prop
  | quiet (log : w'.log = w.log) (queue : w'.queue = w.queue)
  | enqueued (ts : String) (item : WakeItem) (free : isLive (w.queue.ops.get? item.id) = none)
      (log : w'.log = w.log ++ eventBytes [.enqueue ts item])
      (queue : w'.queue = w.queue.putEnqueued item)
  | claimed (ts momentId : String) (item : WakeItem) (popped : WakeQueue)
      (pop : w.queue.popPending = (some item, popped))
      (log : w'.log = w.log ++ eventBytes [.claimed ts item.id momentId])
      (queue : w'.queue = popped.putClaimed item.id momentId)
  | done (ts id : String) (op : WakeOp) (current : w.queue.ops.get? id = some op)
      (live : op.terminal = false) (log : w'.log = w.log ++ eventBytes [.done ts id])
      (queue : w'.queue = w.queue.putTerminal id .done none)
  | cancelled (ts id reason : String) (op : WakeOp) (current : w.queue.ops.get? id = some op)
      (live : op.terminal = false) (log : w'.log = w.log ++ eventBytes [.cancelled ts id reason])
      (queue : w'.queue = w.queue.putTerminal id .cancelled (some reason))
  | popped (nothing : clean = true → w.queue.popPending.1 = none) (log : w'.log = w.log)
      (queue : w'.queue = w.queue.popPending.2)

def isOsError : PyErr → Bool
  | .osError => true
  | _ => false

theorem osError_of_not_clean {α : Type} (r : EStateM.Result PyErr World α)
    (h : clean isOsError r = false) : r = .error .osError (after r) := by
  cases r with
  | ok a w => cases h
  | error e w =>
    cases e with
    | osError => rfl
    | valueError msg | keyError msg | unicodeDecodeError | overflowError | typeError | recursionError =>
      cases h

/-- `x or source()` and the draws made by then. -/
def chosen (x : Option String) (source : Nat → String) (n : Nat) : String × Nat :=
  match x with
  | some s => if s = "" then (source n, n + 1) else (s, n)
  | none => (source n, n + 1)

theorem draw_eq (source : Nat → String) (w : World) :
    draw source w = .ok (source w.draws) { w with draws := w.draws + 1 } := rfl

theorem getQueue_eq (w : World) : getQueue w = .ok w.queue w := rfl

theorem setQueue_eq (q : WakeQueue) (w : World) : setQueue q w = .ok () { w with queue := q } := rfl

theorem appendEvent_eq (event : WakeEvent) (w : World) :
    appendEvent event w =
      if w.faults.headD false then .error .osError { w with faults := w.faults.tail }
      else .ok () { w with faults := w.faults.tail, log := w.log ++ eventBytes [event] } := rfl

theorem orDefault_draw (x : Option String) (source : Nat → String) (w : World) :
    orDefault x (draw source) w =
      .ok (chosen x source w.draws).1 { w with draws := (chosen x source w.draws).2 } := by
  cases x with
  | none => rfl
  | some s =>
    by_cases hs : s = ""
    · simp only [orDefault, chosen, hs, if_true, draw_eq]
    · simp only [orDefault, chosen, if_neg hs, run_pure]

/-- The item and timestamp `enqueue` builds, and the draws made by then. -/
def newItem (env : Env) (kind : WakeKind) (payload : Payload) (wakeId createdAt : Option String)
    (n : Nat) : WakeItem × String × Nat :=
  let id := chosen wakeId env.uuid4 n
  let created := chosen createdAt env.nowIso id.2
  (⟨id.1, kind, kind.priority, created.1, payload, kind.banded⟩, env.nowIso created.2, created.2 + 1)

theorem enqueue_eq (env : Env) (kind : String) (k : WakeKind) (hk : WakeKind.ofText kind = some k)
    (payload : Payload) (wakeId createdAt : Option String) (w : World) :
    enqueue env kind payload wakeId createdAt w =
      let (item, ts, n) := newItem env k payload wakeId createdAt w.draws
      match isLive (w.queue.ops.get? item.id) with
      | some existing => .error (alreadyLive item.id existing) { w with draws := n }
      | none =>
        if w.faults.headD false then
          .error .osError { w with draws := n, faults := w.faults.tail }
        else
          .ok item ⟨w.log ++ eventBytes [.enqueue ts item], w.faults.tail, n,
            w.queue.putEnqueued item⟩ := by
  simp only [enqueue, hk, run_bind, orDefault_draw, draw_eq, getQueue_eq, newItem]
  cases isLive (w.queue.ops.get? (chosen wakeId env.uuid4 w.draws).1) with
  | some existing => rfl
  | none =>
    simp only [run_bind, appendEvent_eq]
    split_ifs <;> rfl

theorem enqueue_unknown (env : Env) (kind : String) (hk : WakeKind.ofText kind = none)
    (payload : Payload) (wakeId createdAt : Option String) (w : World) :
    enqueue env kind payload wakeId createdAt w = .error (unknownKind kind) w := by
  simp only [enqueue, hk, run_throw]

theorem claim_eq (env : Env) (momentId : String) (hm : momentId ≠ "") (w : World) :
    claim env momentId w =
      match w.queue.popPending with
      | (none, popped) => .ok none { w with queue := popped }
      | (some item, popped) =>
        if w.faults.headD false then
          .error .osError ⟨w.log, w.faults.tail, w.draws + 1, popped⟩
        else
          .ok (some item) ⟨w.log ++ eventBytes [.claimed (env.nowIso w.draws) item.id momentId],
            w.faults.tail, w.draws + 1, popped.putClaimed item.id momentId⟩ := by
  simp only [claim, if_neg hm, run_bind, getQueue_eq, setQueue_eq]
  cases w.queue.popPending with
  | mk item popped =>
    cases item with
    | none => rfl
    | some item =>
      simp only [run_bind, draw_eq, appendEvent_eq]
      split_ifs <;> rfl

theorem finishWake_eq (env : Env) (wakeId : String) (op : WakeOp) (reason : Option String)
    (event : String → WakeEvent) (w : World) :
    finishWake env wakeId op reason event w =
      match w.queue.ops.get? wakeId with
      | none => .error (unknownWake wakeId) w
      | some current =>
        if current.terminal then .ok () w
        else if w.faults.headD false then
          .error .osError { w with faults := w.faults.tail, draws := w.draws + 1 }
        else
          .ok () ⟨w.log ++ eventBytes [event (env.nowIso w.draws)], w.faults.tail, w.draws + 1,
            w.queue.putTerminal wakeId op reason⟩ := by
  simp only [finishWake, run_bind, getQueue_eq]
  cases w.queue.ops.get? wakeId with
  | none => rfl
  | some current =>
    simp only [run_ite, run_bind, draw_eq, appendEvent_eq]
    split_ifs <;> rfl

section Calls

variable (env : Env)

theorem move_mono (b : Bool) (w w' : World) (h : Move true w w') : Move b w w' := by
  cases h with
  | quiet log queue => exact .quiet log queue
  | enqueued ts item free log queue => exact .enqueued ts item free log queue
  | claimed ts momentId item popped pop log queue => exact .claimed ts momentId item popped pop log queue
  | done ts id op current live log queue => exact .done ts id op current live log queue
  | cancelled ts id reason op current live log queue =>
    exact .cancelled ts id reason op current live log queue
  | popped nothing log queue => exact .popped (fun _ => nothing rfl) log queue

theorem traces_enqueue (kind : String) (payload : Payload) (wakeId createdAt : Option String) :
    Traces Move isOsError (enqueue env kind payload wakeId createdAt) := by
  apply traces_of_step
  intro w
  cases hk : WakeKind.ofText kind with
  | none =>
    rw [enqueue_unknown env kind hk]
    exact .quiet rfl rfl
  | some k =>
    rw [enqueue_eq env kind k hk]
    obtain ⟨item, ts, n⟩ := newItem env k payload wakeId createdAt w.draws
    cases hlive : isLive (w.queue.ops.get? item.id) with
    | some existing =>
      simp only [hlive]
      exact .quiet rfl rfl
    | none =>
      simp only [hlive]
      split_ifs
      · exact .quiet rfl rfl
      · exact .enqueued ts item hlive rfl rfl

theorem traces_claim (momentId : String) : Traces Move isOsError (claim env momentId) := by
  apply traces_of_step
  intro w
  by_cases hm : momentId = ""
  · simp only [claim, hm, if_true, run_throw]
    exact .quiet rfl rfl
  · rw [claim_eq env momentId hm]
    cases hp : w.queue.popPending with
    | mk item popped =>
      cases item with
      | none => exact .popped (fun _ => by rw [hp]) rfl (by rw [hp]; rfl)
      | some item =>
        simp only []
        split_ifs
        · exact .popped (fun h => by cases h) rfl (by rw [hp]; rfl)
        · exact .claimed (env.nowIso w.draws) momentId item popped hp rfl rfl

theorem traces_markDone (wakeId : String) : Traces Move isOsError (markDone env wakeId) := by
  apply traces_of_step
  intro w
  rw [markDone, finishWake_eq]
  cases hop : w.queue.ops.get? wakeId with
  | none => exact .quiet rfl rfl
  | some op =>
    simp only []
    split_ifs with ht hf
    · exact .quiet rfl rfl
    · exact .quiet rfl rfl
    · exact .done _ wakeId op hop (by simpa using ht) rfl rfl

theorem traces_cancel (wakeId reason : String) :
    Traces Move isOsError (cancel env wakeId reason) := by
  apply traces_of_step
  intro w
  rw [cancel, finishWake_eq]
  cases hop : w.queue.ops.get? wakeId with
  | none => exact .quiet rfl rfl
  | some op =>
    simp only []
    split_ifs with ht hf
    · exact .quiet rfl rfl
    · exact .quiet rfl rfl
    · exact .cancelled _ wakeId reason op hop (by simpa using ht) rfl rfl

theorem traces_quiet {α : Type} (m : Py World α)
    (h : ∀ w, (after (m w)).log = w.log ∧ (after (m w)).queue = w.queue) :
    Traces Move isOsError m := by
  apply traces_of_step
  intro w
  exact .quiet (h w).1 (h w).2

theorem traces_cancelAll (reason : String) (ids : List String) :
    Traces Move isOsError (cancelAll env reason ids) := by
  induction ids with
  | nil => exact traces_pure Move isOsError ()
  | cons id ids ih => exact traces_bind move_mono (traces_cancel env id reason) (fun _ => ih)

theorem traces_recoverLoop (ids : List String) :
    Traces Move isOsError (recoverLoop env ids) := by
  induction ids with
  | nil => exact traces_pure Move isOsError []
  | cons id ids ih =>
    rw [recoverLoop]
    apply traces_bind move_mono (traces_quiet getQueue (fun _ => ⟨rfl, rfl⟩))
    intro q
    split
    · exact traces_bind move_mono (traces_cancel env id _) (fun _ => ih)
    · apply traces_bind move_mono (traces_cancel env id _)
      intro _
      split_ifs
      · apply traces_bind move_mono (traces_enqueue env _ _ _ _)
        intro clone
        exact traces_bind move_mono ih (fun _ => traces_pure Move isOsError _)
      · exact ih

theorem traces_cancelAllPendingOfKind (kind reason : String) :
    Traces Move isOsError (cancelAllPendingOfKind env kind reason) := by
  rw [cancelAllPendingOfKind]
  split
  · exact traces_throw Move isOsError _
  · apply traces_bind move_mono (traces_quiet getQueue (fun _ => ⟨rfl, rfl⟩))
    intro q
    apply traces_bind move_mono (traces_quiet (loopOver env q.pendingIds) (fun _ => ⟨rfl, rfl⟩))
    intro ids
    exact traces_bind move_mono (traces_cancelAll env reason _)
      (fun _ => traces_pure Move isOsError _)

theorem traces_pendingTaskReady (taskId : String) :
    Traces Move isOsError (pendingTaskReady env taskId) :=
  traces_quiet _ (fun _ => ⟨rfl, rfl⟩)

theorem traces_enqueueTaskReady (taskId : String) (goalId : Option String) (payload : Payload) :
    Traces Move isOsError (enqueueTaskReady env taskId goalId payload) := by
  rw [enqueueTaskReady]
  split_ifs
  · exact traces_throw Move isOsError _
  · apply traces_bind move_mono (traces_pendingTaskReady env taskId)
    intro olds
    exact traces_bind move_mono (traces_cancelAll env _ _)
      (fun _ => traces_enqueue env _ _ _ _)

theorem traces_recoverClaimed : Traces Move isOsError (recoverClaimed env) := by
  rw [recoverClaimed]
  exact traces_bind move_mono (traces_quiet getQueue (fun _ => ⟨rfl, rfl⟩))
    (fun q => traces_recoverLoop env q.claimedIds)

/-- A call moves the world step by step, unless it truncates the log or loads it again. -/
theorem stepCall_cases [PyCoerce] (c : Call) (w : World) :
    Relation.ReflTransGen (Move (clean isOsError (exec env c w))) w (stepCall env w c) ∨
      (c = .resetEmpty ∧ stepCall env w c = { w with log := ByteArray.empty, queue := .empty }) ∨
      (c = .reload ∧ ∃ q, openQueue w.log = .ok q ∧ stepCall env w c = { w with queue := q }) := by
  have discard {α : Type} {m : Py World α} (h : Traces Move isOsError m) :
      Traces Move isOsError (do let _ ← m) :=
    traces_bind move_mono h (fun _ => traces_pure Move isOsError ())
  cases c with
  | enqueue kind payload wakeId createdAt =>
    exact Or.inl (discard (traces_enqueue env _ _ _ _) w)
  | claim momentId => exact Or.inl (discard (traces_claim env momentId) w)
  | markDone wakeId => exact Or.inl (traces_markDone env wakeId w)
  | cancel wakeId reason => exact Or.inl (traces_cancel env wakeId reason w)
  | recoverClaimed => exact Or.inl (discard (traces_recoverClaimed env) w)
  | cancelAllPendingOfKind kind reason =>
    exact Or.inl (discard (traces_cancelAllPendingOfKind env kind reason) w)
  | enqueueTaskReady taskId goalId payload =>
    exact Or.inl (discard (traces_enqueueTaskReady env taskId goalId payload) w)
  | resetEmpty => exact Or.inr (Or.inl ⟨rfl, rfl⟩)
  | reload =>
    simp only [stepCall, exec, reload]
    cases ho : openQueue w.log with
    | ok q => exact Or.inr (Or.inr ⟨trivial, q, rfl, rfl⟩)
    | error e => exact Or.inl .refl

end Calls
end Elyra.Presence
