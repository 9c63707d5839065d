import Elyra.Presence.Refinement
import Elyra.Presence.Worker
import Mathlib.Algebra.Order.Group.Multiset
import Mathlib.Tactic.Abel

namespace Elyra.Presence

open Json

/-- What a user sent. -/
structure Input where
  content : String
  userId : String
  deriving DecidableEq

def InterjectItem.input (it : InterjectItem) : Input := ⟨it.content, it.userId⟩

def buffered (s : Worker) : Multiset Input := s.interject.items.map InterjectItem.input

/-- The input that a wake of a user carries. -/
def wakeInput (kind : WakeKind) (payload : Payload) : Option Input :=
  if kind.social then
    match payload.get? "content", payload.get? "user_id" with
    | some (.str content), some (.str userId) => some ⟨content, userId⟩
    | _, _ => none
  else none

def eventInput : WakeEvent → Option Input
  | .enqueue _ item => wakeInput item.kind item.payload
  | .claimed _ _ _ | .done _ _ | .cancelled _ _ _ => none

/-- The inputs that wakes of a piece of the queue log carry. -/
def waked (events : List WakeEvent) : Multiset Input := events.filterMap eventInput

theorem waked_nil : waked [] = 0 := rfl

theorem waked_append (a b : List WakeEvent) : waked (a ++ b) = waked a + waked b := by
  rw [waked, List.filterMap_append]
  rfl

section Delivery

variable (env : Env)

/-- No append fails, wakes stand under their ids, and the ids still to be drawn are unused. -/
structure Good (w : World) : Prop where
  faults : w.faults = []
  keyed : ∀ id item, w.queue.items.get? id = some item → item.id = id
  fresh : ∀ n, w.draws ≤ n → w.queue.ops.get? (env.uuid4 n) = none

/-- From `s` to `t` the inputs of `acc` came in, those of `dr` went to the do-loop, and the others
are in the buffer or in wakes logged since. -/
structure Moved (s t : Worker) (acc dr : Multiset Input) : Prop where
  log : ∃ new, t.world.log = s.world.log ++ eventBytes new ∧
    buffered t + dr + waked new = buffered s + acc
  good : Good env t.world

variable {env}

theorem Moved.refl {s : Worker} (h : Good env s.world) : Moved env s s 0 0 := by
  refine ⟨⟨[], ?_, ?_⟩, h⟩
  · rw [eventBytes_nil, ByteArray.append_empty]
  · rw [waked_nil]
    abel

theorem Moved.trans {s t u : Worker} {a b c d : Multiset Input} (h : Moved env s t a c)
    (k : Moved env t u b d) : Moved env s u (a + b) (c + d) := by
  obtain ⟨first, hlog, hfirst⟩ := h.log
  obtain ⟨second, klog, hsecond⟩ := k.log
  refine ⟨⟨first ++ second, ?_, ?_⟩, k.good⟩
  · rw [klog, hlog, eventBytes_append, ByteArray.append_assoc]
  · calc buffered u + (c + d) + waked (first ++ second)
        = (buffered u + d + waked second) + c + waked first := by
          rw [waked_append]
          abel
      _ = (buffered t + c + waked first) + b := by
          rw [hsecond]
          abel
      _ = buffered s + (a + b) := by
          rw [hfirst]
          abel

theorem Moved.step {s t u : Worker} (h : Moved env s t 0 0) (k : Moved env t u 0 0) :
    Moved env s u 0 0 := by
  have hboth := h.trans k
  rwa [add_zero] at hboth

/-- Only the queue and the waits may have changed, and no input with them. -/
structure Still (s t : Worker) : Prop where
  moved : Moved env s t 0 0
  interject : t.interject = s.interject
  phase : t.phase = s.phase

variable (env) in
def Quiet {α : Type} (m : Section α) : Prop :=
  ∀ s, Good env s.world → @Still env s (after (m s))

theorem Still.refl {s : Worker} (h : Good env s.world) : @Still env s s :=
  ⟨.refl h, rfl, rfl⟩

theorem Still.trans {s t u : Worker} (h : @Still env s t) (k : @Still env t u) :
    @Still env s u where
  moved := h.moved.step k.moved
  interject := k.interject.trans h.interject
  phase := k.phase.trans h.phase

theorem quiet_pure {α : Type} (a : α) : Quiet env (pure a) := fun _ h => .refl h

theorem quiet_throw {α : Type} (e : PyErr) : Quiet env (throw e : Section α) := fun _ h => .refl h

theorem quiet_bind {α β : Type} {m : Section α} {f : α → Section β} (hm : Quiet env m)
    (hf : ∀ a, Quiet env (f a)) : Quiet env (m >>= f) := by
  intro s h
  have hfirst := hm s h
  rw [run_bind]
  cases hms : m s with
  | error e t =>
    rw [hms] at hfirst
    exact hfirst
  | ok a t =>
    rw [hms] at hfirst
    exact hfirst.trans (hf a t hfirst.moved.good)

theorem quiet_get : Quiet env (get : Section Worker) := fun _ h => .refl h

/-- The state after a change that touches neither the queue nor the buffer. -/
theorem moved_of_same {s t : Worker} (h : Good env s.world) (hw : t.world = s.world)
    (hi : t.interject = s.interject) : Moved env s t 0 0 := by
  refine ⟨⟨[], ?_, ?_⟩, hw ▸ h⟩
  · rw [hw, eventBytes_nil, ByteArray.append_empty]
  · rw [waked_nil, buffered, buffered, hi]
    abel

theorem quiet_modify {f : Worker → Worker} (hw : ∀ s, (f s).world = s.world)
    (hi : ∀ s, (f s).interject = s.interject) (hp : ∀ s, (f s).phase = s.phase) :
    Quiet env (modify f) :=
  fun s h => ⟨moved_of_same h (hw s) (hi s), hi s, hp s⟩

theorem quiet_exceptKeyError {m : Section Unit} (hm : Quiet env m) :
    Quiet env (exceptKeyError m) := by
  intro s h
  have hsame : after (exceptKeyError m s) = after (m s) := by
    unfold exceptKeyError
    cases m s with
    | ok a t => rfl
    | error e t => cases e <;> rfl
  rw [hsame]
  exact hm s h

variable (env) in
/-- A queue operation that enqueues no wake of a user. -/
def QueueQuiet {α : Type} (m : Py World α) : Prop := ∀ w, Good env w →
  Good env (after (m w)) ∧ ∃ new, (after (m w)).log = w.log ++ eventBytes new ∧ waked new = 0

theorem queueQuiet_same {α : Type} {m : Py World α} {w : World} (h : Good env w)
    (hw : after (m w) = w) :
    Good env (after (m w)) ∧ ∃ new, (after (m w)).log = w.log ++ eventBytes new ∧ waked new = 0 := by
  rw [hw]
  refine ⟨h, [], ?_, rfl⟩
  rw [eventBytes_nil, ByteArray.append_empty]

theorem queueQuiet_bind {α β : Type} {m : Py World α} {f : α → Py World β}
    (hm : QueueQuiet env m) (hf : ∀ a, QueueQuiet env (f a)) : QueueQuiet env (m >>= f) := by
  intro w h
  have hfirst := hm w h
  rw [run_bind]
  cases hmw : m w with
  | error e u =>
    rw [hmw] at hfirst
    exact hfirst
  | ok a u =>
    rw [hmw] at hfirst
    obtain ⟨hgood, first, hlog, hnone⟩ := hfirst
    obtain ⟨hlast, second, klog, knone⟩ := hf a u hgood
    refine ⟨hlast, first ++ second, ?_, ?_⟩
    · rw [klog]
      change u.log = _ at hlog
      rw [hlog, eventBytes_append, ByteArray.append_assoc]
    · rw [waked_append, hnone, knone, add_zero]

theorem quiet_onQueue {α : Type} {m : Py World α} (hm : QueueQuiet env m) :
    Quiet env (onQueue m) := by
  intro s h
  obtain ⟨hgood, new, hlog, hnone⟩ := hm s.world h
  have hafter : after (onQueue m s) = { s with world := after (m s.world) } := by
    unfold onQueue
    cases m s.world <;> rfl
  rw [hafter]
  refine ⟨⟨⟨new, hlog, ?_⟩, hgood⟩, rfl, rfl⟩
  rw [hnone, add_zero]
  rfl

end Delivery

section Queue

variable {env : Env} (hinj : Function.Injective env.uuid4)

/-- What an append of a single event to a good queue leaves. -/
theorem good_draws {w : World} (h : Good env w) (n : Nat) (hn : w.draws ≤ n) :
    Good env { w with draws := n } :=
  ⟨h.faults, h.keyed, fun m hm => h.fresh m (hn.trans hm)⟩

theorem queueQuiet_draw (source : Nat → String) : QueueQuiet env (draw source) := by
  intro w h
  refine ⟨good_draws h (w.draws + 1) (by omega), [], ?_, rfl⟩
  rw [eventBytes_nil, ByteArray.append_empty]
  rfl

theorem draws_chosen (x : Option String) (source : Nat → String) (n : Nat) :
    n ≤ (chosen x source n).2 := by
  unfold chosen
  cases x with
  | none => simp
  | some s =>
    simp only
    split_ifs <;> simp

theorem queueQuiet_orDefault (x : Option String) (source : Nat → String) :
    QueueQuiet env (orDefault x (draw source)) := by
  intro w h
  rw [orDefault_draw]
  refine ⟨good_draws h _ (draws_chosen x source w.draws), [], ?_, rfl⟩
  rw [eventBytes_nil, ByteArray.append_empty]
  rfl

/-- A claimed or finished wake keeps the ids still to be drawn unused. -/
theorem fresh_set {w : World} (h : Good env w) {id : String} {op : WakeOp}
    (hid : ∃ current, w.queue.ops.get? id = some current) (n : Nat) (hn : w.draws ≤ n) :
    (w.queue.ops.set id op).get? (env.uuid4 n) = none := by
  obtain ⟨current, hcurrent⟩ := hid
  have hne : id ≠ env.uuid4 n := by
    rintro rfl
    rw [h.fresh n hn] at hcurrent
    cases hcurrent
  rw [Dict.get?_set_ne _ _ hne]
  exact h.fresh n hn

theorem queueQuiet_finishWake (wakeId : String) (op : WakeOp) (reason : Option String)
    (event : String → WakeEvent) (he : ∀ ts, eventInput (event ts) = none) :
    QueueQuiet env (finishWake env wakeId op reason event) := by
  intro w h
  rw [finishWake_eq]
  cases hop : w.queue.ops.get? wakeId with
  | none => exact queueQuiet_same (m := fun w => .error (unknownWake wakeId) w) h rfl
  | some current =>
    simp only
    split_ifs with hterminal hfault
    · exact queueQuiet_same (m := fun w => .ok () w) h rfl
    · rw [h.faults] at hfault
      cases hfault
    · refine ⟨⟨?_, h.keyed, ?_⟩, [event (env.nowIso w.draws)], rfl, ?_⟩
      · show w.faults.tail = []
        rw [h.faults]
        rfl
      · intro n hn
        have hn' : w.draws + 1 ≤ n := hn
        exact fresh_set h ⟨current, hop⟩ n (by omega)
      · simp [waked, he]

theorem queueQuiet_markDone (wakeId : String) : QueueQuiet env (markDone env wakeId) :=
  queueQuiet_finishWake wakeId .done none _ (fun _ => rfl)

theorem queueQuiet_cancel (wakeId reason : String) : QueueQuiet env (cancel env wakeId reason) :=
  queueQuiet_finishWake wakeId .cancelled (some reason) _ (fun _ => rfl)

theorem queueQuiet_cancelAll (reason : String) (ids : List String) :
    QueueQuiet env (cancelAll env reason ids) := by
  induction ids with
  | nil => exact fun w h => queueQuiet_same h rfl
  | cons id ids ih => exact queueQuiet_bind (queueQuiet_cancel id reason) (fun _ => ih)

theorem queueQuiet_read {α : Type} (m : Py World α) (h : ∀ w, (after (m w)).queue = w.queue ∧
    (after (m w)).log = w.log ∧ (after (m w)).faults = w.faults ∧ w.draws ≤ (after (m w)).draws) :
    QueueQuiet env m := by
  intro w hw
  obtain ⟨hqueue, hlog, hfaults, hdraws⟩ := h w
  refine ⟨⟨hfaults.trans hw.faults, ?_, ?_⟩, [], ?_, rfl⟩
  · rw [hqueue]
    exact hw.keyed
  · intro n hn
    rw [hqueue]
    exact hw.fresh n (hdraws.trans hn)
  · rw [eventBytes_nil, ByteArray.append_empty, hlog]

theorem queueQuiet_getQueue : QueueQuiet env getQueue :=
  queueQuiet_read _ (fun _ => ⟨rfl, rfl, rfl, le_refl _⟩)

theorem queueQuiet_loopOver (set : Dict String Unit) : QueueQuiet env (loopOver env set) :=
  queueQuiet_read _ (fun w => ⟨rfl, rfl, rfl, Nat.le_succ w.draws⟩)

theorem queueQuiet_pure {α : Type} (a : α) : QueueQuiet env (pure a) :=
  queueQuiet_read _ (fun _ => ⟨rfl, rfl, rfl, le_refl _⟩)

theorem queueQuiet_throw {α : Type} (e : PyErr) : QueueQuiet env (throw e : Py World α) :=
  queueQuiet_read _ (fun _ => ⟨rfl, rfl, rfl, le_refl _⟩)

theorem queueQuiet_cancelAllPendingOfKind (kind reason : String) :
    QueueQuiet env (cancelAllPendingOfKind env kind reason) := by
  unfold cancelAllPendingOfKind
  cases WakeKind.ofText kind with
  | none => exact queueQuiet_throw _
  | some k =>
    apply queueQuiet_bind queueQuiet_getQueue
    intro q
    apply queueQuiet_bind (queueQuiet_loopOver _)
    intro ids
    exact queueQuiet_bind (queueQuiet_cancelAll _ _) (fun _ => queueQuiet_pure _)

/-- What a pop takes off, and what it leaves alone. -/
theorem popLoop_frame (q : WakeQueue) (keys : List WakeKey) (sorted : keys.Pairwise (· ≤ ·)) :
    (q.popLoop keys sorted).2.ops = q.ops ∧ (q.popLoop keys sorted).2.items = q.items ∧
      ∀ item ∈ (q.popLoop keys sorted).1, ∃ id, q.items.get? id = some item ∧
        q.ops.get? id = some .enqueue := by
  induction keys generalizing q with
  | nil => exact ⟨rfl, rfl, by simp [WakeQueue.popLoop]⟩
  | cons k keys ih =>
    rw [WakeQueue.popLoop]
    by_cases hpending : (q.pendingIds.get? k.wakeId).isNone
    · rw [if_pos hpending]
      exact ih q sorted.of_cons
    · rw [if_neg hpending]
      cases hitem : q.items.get? k.wakeId with
      | none => exact ih { q with pendingIds := q.pendingIds.pop k.wakeId } sorted.of_cons
      | some item =>
        simp only
        by_cases hop : q.ops.get? k.wakeId = some .enqueue
        · rw [if_pos hop]
          refine ⟨rfl, rfl, ?_⟩
          intro found hfound
          obtain rfl := Option.some.inj hfound
          exact ⟨k.wakeId, hitem, hop⟩
        · rw [if_neg hop]
          exact ih { q with pendingIds := q.pendingIds.pop k.wakeId } sorted.of_cons

theorem queueQuiet_claim (momentId : String) : QueueQuiet env (claim env momentId) := by
  intro w h
  by_cases hm : momentId = ""
  · unfold claim
    rw [if_pos hm]
    exact queueQuiet_throw _ w h
  rw [claim_eq env momentId hm]
  have hframe := popLoop_frame w.queue w.queue.heap.keys w.queue.heap.sorted
  change (w.queue.popPending).2.ops = _ ∧ (w.queue.popPending).2.items = _ ∧
    ∀ item ∈ (w.queue.popPending).1, _ at hframe
  cases hpop : w.queue.popPending with
  | mk found popped =>
    rw [hpop] at hframe
    obtain ⟨hops, hitems, hfound⟩ := hframe
    change popped.ops = _ at hops
    change popped.items = _ at hitems
    have hpopped : Good env { w with queue := popped } := by
      refine ⟨h.faults, ?_, ?_⟩
      · show ∀ id item, popped.items.get? id = some item → _
        rw [hitems]
        exact h.keyed
      · intro n hn
        show popped.ops.get? _ = none
        rw [hops]
        exact h.fresh n hn
    cases found with
    | none =>
      refine ⟨hpopped, [], ?_, rfl⟩
      rw [eventBytes_nil, ByteArray.append_empty]
      rfl
    | some item =>
      obtain ⟨id, hid, hop⟩ := hfound item rfl
      have hsame := h.keyed id item hid
      simp only
      rw [h.faults]
      refine ⟨⟨rfl, hpopped.keyed, ?_⟩, [_], rfl, rfl⟩
      intro n hn
      have hn' : w.draws + 1 ≤ n := hn
      apply fresh_set hpopped ⟨.enqueue, ?_⟩ n (show w.draws ≤ n by omega)
      show popped.ops.get? item.id = _
      rw [hops, hsame]
      exact hop

include hinj in
/-- A wake under an id drawn for it is enqueued. -/
theorem enqueue_good (kind : WakeKind) (payload : Payload) (wakeId : Option String) {w : World}
    (h : Good env w) (hid : ∀ id ∈ wakeId, ∃ n, n < w.draws ∧ id = env.uuid4 n ∧
      w.queue.ops.get? id = none) :
    ∃ ts item w', enqueue env kind.text payload wakeId none w = .ok item w' ∧ Good env w' ∧
      w'.log = w.log ++ eventBytes [.enqueue ts item] ∧ item.kind = kind ∧
      item.payload = payload := by
  have hnew : ∃ m, m < (newItem env kind payload wakeId none w.draws).2.2 ∧
      (newItem env kind payload wakeId none w.draws).1.id = env.uuid4 m ∧
      w.queue.ops.get? (env.uuid4 m) = none := by
    have hlater : (chosen wakeId env.uuid4 w.draws).2 <
        (newItem env kind payload wakeId none w.draws).2.2 := by
      have hmore := draws_chosen none env.nowIso (chosen wakeId env.uuid4 w.draws).2
      exact Nat.lt_succ_of_le hmore
    have hdrawn : ∃ m, m < (chosen wakeId env.uuid4 w.draws).2 ∧
        (chosen wakeId env.uuid4 w.draws).1 = env.uuid4 m ∧
        w.queue.ops.get? (env.uuid4 m) = none := by
      have hnext : ∃ m, m < w.draws + 1 ∧ env.uuid4 w.draws = env.uuid4 m ∧
          w.queue.ops.get? (env.uuid4 m) = none :=
        ⟨w.draws, by omega, rfl, h.fresh w.draws (le_refl _)⟩
      cases wakeId with
      | none => exact hnext
      | some id =>
        unfold chosen
        by_cases hempty : id = ""
        · simp only [if_pos hempty]
          exact hnext
        · obtain ⟨m, hm, rfl, hnone⟩ := hid id rfl
          simp only [if_neg hempty]
          exact ⟨m, hm, rfl, hnone⟩
    obtain ⟨m, hm, hsame, hnone⟩ := hdrawn
    exact ⟨m, hm.trans hlater, hsame, hnone⟩
  obtain ⟨m, hm, hsame, hnone⟩ := hnew
  rw [enqueue_eq env kind.text kind (WakeKind.ofText_text kind)]
  have hlater : w.draws ≤ (newItem env kind payload wakeId none w.draws).2.2 := by
    have hfirst := draws_chosen wakeId env.uuid4 w.draws
    have hsecond := draws_chosen none env.nowIso (chosen wakeId env.uuid4 w.draws).2
    exact Nat.le_succ_of_le (hfirst.trans hsecond)
  have hitem : (newItem env kind payload wakeId none w.draws).1.kind = kind ∧
      (newItem env kind payload wakeId none w.draws).1.payload = payload := ⟨rfl, rfl⟩
  generalize newItem env kind payload wakeId none w.draws = built at hm hsame hlater hitem ⊢
  obtain ⟨item, ts, n⟩ := built
  change item.id = env.uuid4 m at hsame
  change m < n at hm
  change w.draws ≤ n at hlater
  simp only [hsame, hnone, isLive, Option.filter_none, h.faults, List.headD_nil]
  refine ⟨ts, item, _, rfl, ⟨rfl, ?_, ?_⟩, rfl, hitem.1, hitem.2⟩
  · intro id found hfound
    change (w.queue.items.set item.id item).get? id = _ at hfound
    rw [Dict.get?_set] at hfound
    split_ifs at hfound with hid
    · obtain rfl := Option.some.inj hfound
      exact hid
    · exact h.keyed id found hfound
  · intro k hk
    change n ≤ k at hk
    show (w.queue.ops.set item.id .enqueue).get? (env.uuid4 k) = none
    have hne : item.id ≠ env.uuid4 k := by
      rw [hsame]
      intro he
      have hmk := hinj he
      omega
    rw [Dict.get?_set_ne _ _ hne]
    exact h.fresh k (by omega)

end Queue

end Elyra.Presence
