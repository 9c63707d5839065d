import Elyra.Framework.Outbox
import Elyra.Presence.TimerFiles

namespace Elyra.Presence

open Json

/-- What a crash leaves: what the snapshots say of each row's firing, the wake log, and the draws
so far. -/
structure Persisted where
  marks : SnapshotName → String → Option Mark
  log : List WakeEvent
  draws : Nat

def enqueuedItem : WakeEvent → Option WakeItem
  | .enqueue _ item => some item
  | _ => none

def textAt (payload : Payload) (key : String) : Option String :=
  match payload.get? key with
  | some (.str text) => some text
  | _ => none

/-- The row a timer or wait_timeout wake fires for. -/
def sourceOf (item : WakeItem) : Option (SnapshotName × String) :=
  match item.kind with
  | .timer => (textAt item.payload SnapshotName.timers.idKey).map (Prod.mk .timers)
  | .waitTimeout => (textAt item.payload SnapshotName.waits.idKey).map (Prod.mk .waits)
  | _ => none

/-- The wait a wait_reply wake answers. -/
def replyTo (item : WakeItem) : Option String :=
  match item.kind with
  | .waitReply => textAt item.payload SnapshotName.waits.idKey
  | _ => none

theorem sourceOf_fired {n : SnapshotName} {item : WakeItem} {k : String}
    (hkind : item.kind = n.wakeKind) (hid : item.payload.get? n.idKey = some (.str k)) :
    sourceOf item = some (n, k) := by
  unfold sourceOf
  rw [hkind]
  cases n <;> simp [SnapshotName.wakeKind, textAt, hid]

theorem replyTo_fired {n : SnapshotName} {item : WakeItem} (hkind : item.kind = n.wakeKind) :
    replyTo item = none := by
  unfold replyTo
  rw [hkind]
  cases n <;> rfl

/-- What a mark says of its row. -/
def slotOf (n : SnapshotName) (m : Mark) : Slot String :=
  if m.1 = n.opened then .waiting
  else if m.1 = n.closed then
    match m.2 with
    | some id => .fired id
    | none => .withdrawn
  else .withdrawn

theorem opened_ne_closed (n : SnapshotName) : n.closed ≠ n.opened := by
  cases n <;> decide

@[simp] theorem slotOf_opened (n : SnapshotName) (x : Option String) :
    slotOf n (n.opened, x) = .waiting := if_pos rfl

@[simp] theorem slotOf_closed (n : SnapshotName) (id : String) :
    slotOf n (n.closed, some id) = .fired id := by
  rw [slotOf, if_neg (opened_ne_closed n), if_pos rfl]

/-- The statuses a caller ends a row with. -/
def endings : List Status := [.cancelled, .answered]

theorem slotOf_ended (n : SnapshotName) {status : Status} (h : status ∈ endings)
    (x : Option String) : slotOf n (status, x) = .withdrawn := by
  have hopened : status ≠ n.opened := by
    rintro rfl
    revert h
    cases n <;> decide
  have hclosed : status ≠ n.closed := by
    rintro rfl
    revert h
    cases n <;> decide
  rw [slotOf, if_neg hopened, if_neg hclosed]

theorem fired_of_slotOf {n : SnapshotName} {m : Mark} {id : String}
    (h : slotOf n m = .fired id) : m = (n.closed, some id) := by
  obtain ⟨status, wakeId⟩ := m
  unfold slotOf at h
  split_ifs at h with hopened hclosed
  cases wakeId with
  | none => cases h
  | some x =>
    cases h
    simp only at hclosed
    rw [hclosed]

namespace Persisted

def setMark (p : Persisted) (n : SnapshotName) (k : String) (m : Mark) : Persisted :=
  { p with marks := fun n' k' => if n = n' ∧ k = k' then some m else p.marks n' k' }

def append (p : Persisted) (e : WakeEvent) : Persisted := { p with log := p.log ++ [e] }

/-- The ids of the wakes that were ever enqueued. -/
def enqueued (p : Persisted) : List String := (p.log.filterMap enqueuedItem).map WakeItem.id

/-- The waits that wait_reply wakes answer. -/
def replied (p : Persisted) : List String := (p.log.filterMap enqueuedItem).filterMap replyTo

/-- A wake id in the log, or under which a row was fired. -/
def Used (p : Persisted) (id : String) : Prop :=
  id ∈ p.enqueued ∨ ∃ n k status, p.marks n k = some (status, some id)

/-- The sources of the service with their messages. -/
def outbox (p : Persisted) : Outbox (SnapshotName × String) String where
  slots k := (p.marks k.1 k.2).map (slotOf k.1)
  sent := (p.log.filterMap enqueuedItem).map fun item => (sourceOf item, item.id)

@[simp] theorem enqueued_append (p : Persisted) (ts : String) (item : WakeItem) :
    (p.append (.enqueue ts item)).enqueued = p.enqueued ++ [item.id] := by
  simp [enqueued, append, enqueuedItem]

@[simp] theorem replied_append (p : Persisted) (ts : String) (item : WakeItem) :
    (p.append (.enqueue ts item)).replied = p.replied ++ (replyTo item).toList := by
  cases h : replyTo item <;> simp [replied, append, enqueuedItem, h]

@[simp] theorem enqueued_setMark (p : Persisted) (n : SnapshotName) (k : String) (m : Mark) :
    (p.setMark n k m).enqueued = p.enqueued := rfl

@[simp] theorem replied_setMark (p : Persisted) (n : SnapshotName) (k : String) (m : Mark) :
    (p.setMark n k m).replied = p.replied := rfl

theorem marks_setMark (p : Persisted) (n : SnapshotName) (k : String) (m : Mark)
    (n' : SnapshotName) (k' : String) :
    (p.setMark n k m).marks n' k' = if n = n' ∧ k = k' then some m else p.marks n' k' := rfl

theorem sent_ids (p : Persisted) : p.outbox.sent.map Prod.snd = p.enqueued := by
  simp [outbox, enqueued, Function.comp_def]

end Persisted

section Effects

variable (env : Env)

namespace Persisted

/-- An id the service has drawn and that nothing bears yet. -/
structure Unused (p : Persisted) (id : String) : Prop where
  drawn : ∃ i < p.draws, id = env.uuid4 i
  unused : ¬p.Used id

end Persisted

/-- What the service can do to its files in one write. Rows are installed where `allowed` says so,
and callers end rows with a status of `ends`. -/
inductive Effect (allowed : Persisted → SnapshotName → String → Prop) (ends : Status → Prop)
    (p : Persisted) : Persisted → Prop
  | draw : Effect allowed ends p { p with draws := p.draws + 1 }
  | install (n : SnapshotName) (k : String) (h : allowed p n k) :
      Effect allowed ends p (p.setMark n k (n.opened, none))
  | settle (n : SnapshotName) (k : String) (x : Option String) (status : Status)
      (opened : p.marks n k = some (n.opened, x)) (ending : status ∈ endings)
      (h : ends status) : Effect allowed ends p (p.setMark n k (status, x))
  | fire (n : SnapshotName) (k : String) (x : Option String) (id : String)
      (opened : p.marks n k = some (n.opened, x)) (fresh : p.Unused env id) :
      Effect allowed ends p (p.setMark n k (n.closed, some id))
  | send (n : SnapshotName) (k ts : String) (item : WakeItem)
      (fired : p.marks n k = some (n.closed, some item.id)) (unsent : item.id ∉ p.enqueued)
      (kind : item.kind = n.wakeKind) (named : item.payload.get? n.idKey = some (.str k)) :
      Effect allowed ends p (p.append (.enqueue ts item))
  | reply (k ts : String) (x : Option String) (item : WakeItem)
      (answered : p.marks .waits k = some (.answered, x)) (unreplied : k ∉ p.replied)
      (target : replyTo item = some k) (fresh : p.Unused env item.id) :
      Effect allowed ends p (p.append (.enqueue ts item))
  | post (ts : String) (item : WakeItem) (source : sourceOf item = none)
      (target : replyTo item = none) (fresh : p.Unused env item.id) :
      Effect allowed ends p (p.append (.enqueue ts item))
  | other (e : WakeEvent) (h : enqueuedItem e = none) : Effect allowed ends p (p.append e)

/-- Ids in use were drawn, and only answered waits have a reply, and one. -/
structure Sane (p : Persisted) : Prop where
  drawn : ∀ id, p.Used id → ∃ i < p.draws, id = env.uuid4 i
  answered : ∀ k ∈ p.replied, ∃ x, p.marks .waits k = some (.answered, x)
  single : p.replied.Nodup

variable {env} {allowed : Persisted → SnapshotName → String → Prop} {ends : Status → Prop}

theorem used_setMark {p : Persisted} {n : SnapshotName} {k id : String} {m : Mark}
    (h : (p.setMark n k m).Used id) : p.Used id ∨ m.2 = some id := by
  obtain hlog | ⟨n', k', status, hmark⟩ := h
  · exact .inl (.inl hlog)
  · rw [Persisted.marks_setMark] at hmark
    split_ifs at hmark with hk
    · have hm := Option.some.inj hmark
      rw [hm]
      exact .inr rfl
    · exact .inl (.inr ⟨n', k', status, hmark⟩)

theorem used_append {p : Persisted} {ts id : String} {item : WakeItem}
    (h : (p.append (.enqueue ts item)).Used id) : p.Used id ∨ id = item.id := by
  obtain hlog | hmark := h
  · rw [Persisted.enqueued_append, List.mem_append, List.mem_singleton] at hlog
    exact hlog.imp .inl fun h => h
  · exact .inl (.inr hmark)

theorem log_other {p : Persisted} {e : WakeEvent} (h : enqueuedItem e = none) :
    (p.append e).log.filterMap enqueuedItem = p.log.filterMap enqueuedItem := by
  simp [Persisted.append, h]

theorem Effect.drawnKept {p q : Persisted} (he : Effect env allowed ends p q) (h : Sane env p) :
    ∀ id, q.Used id → ∃ i < q.draws, id = env.uuid4 i := by
  intro id hid
  have marked {n : SnapshotName} {k : String} {m : Mark}
      (hm : m.2 = some id → ∃ i < p.draws, id = env.uuid4 i)
      (hused : (p.setMark n k m).Used id) : ∃ i < p.draws, id = env.uuid4 i :=
    (used_setMark hused).elim (h.drawn id) hm
  have sent {ts : String} {item : WakeItem} (hitem : ∃ i < p.draws, item.id = env.uuid4 i)
      (hused : (p.append (.enqueue ts item)).Used id) : ∃ i < p.draws, id = env.uuid4 i := by
    obtain hold | rfl := used_append hused
    · exact h.drawn id hold
    · exact hitem
  cases he with
  | draw =>
    obtain ⟨i, hi, hx⟩ := h.drawn id hid
    exact ⟨i, Nat.lt_succ_of_lt hi, hx⟩
  | install n k hallowed =>
    apply marked _ hid
    intro hnone
    cases hnone
  | settle n k x status opened ending hends =>
    apply marked _ hid
    intro hx
    exact h.drawn id (.inr ⟨n, k, n.opened, by rw [opened, ← hx]⟩)
  | fire n k x id' opened fresh =>
    apply marked _ hid
    intro hx
    rw [← Option.some.inj hx]
    exact fresh.drawn
  | send n k ts item fired unsent kind named =>
    exact sent (h.drawn item.id (.inr ⟨n, k, n.closed, fired⟩)) hid
  | reply k ts x item answered unreplied target fresh => exact sent fresh.drawn hid
  | post ts item source target fresh => exact sent fresh.drawn hid
  | other e hother =>
    apply h.drawn id
    obtain hlog | hmark := hid
    · rw [Persisted.enqueued, log_other hother] at hlog
      exact .inl hlog
    · exact .inr hmark

/-- An answered wait stays answered where only unknown rows are installed. -/
theorem Sane.effect {p q : Persisted} (h : Sane env p)
    (hallowed : ∀ k ∈ p.replied, ¬allowed p .waits k) (he : Effect env allowed ends p q) :
    Sane env q := by
  have marked {n : SnapshotName} {k : String} {m : Mark}
      (hm : n = .waits → k ∉ p.replied) :
      ∀ k' ∈ p.replied, ∃ x, (p.setMark n k m).marks .waits k' = some (.answered, x) := by
    intro k' hk'
    obtain ⟨x, hx⟩ := h.answered k' hk'
    refine ⟨x, ?_⟩
    rw [Persisted.marks_setMark, if_neg, hx]
    rintro ⟨hn, rfl⟩
    exact hm hn hk'
  -- a wait that is pending has no reply
  have pending {n : SnapshotName} {k : String} {x : Option String}
      (opened : p.marks n k = some (n.opened, x)) : n = .waits → k ∉ p.replied := by
    rintro rfl hk
    obtain ⟨y, hy⟩ := h.answered k hk
    rw [opened] at hy
    cases hy
  have unreplied {item : WakeItem} (ts : String) (hto : replyTo item = none) :
      (p.append (.enqueue ts item)).replied = p.replied := by
    rw [Persisted.replied_append, hto, Option.toList_none, List.append_nil]
  refine ⟨he.drawnKept h, ?_, ?_⟩
  · cases he with
    | draw => exact h.answered
    | install n k hk =>
      apply marked
      rintro rfl hreplied
      exact hallowed k hreplied hk
    | settle n k x status opened ending hends => exact marked (pending opened)
    | fire n k x id opened fresh => exact marked (pending opened)
    | send n k ts item fired unsent kind named =>
      rw [unreplied ts (replyTo_fired kind)]
      exact h.answered
    | reply k ts x item answered hnew target fresh =>
      rw [Persisted.replied_append, target]
      intro k' hk'
      rw [Option.toList_some, List.mem_append, List.mem_singleton] at hk'
      obtain hold | rfl := hk'
      · exact h.answered k' hold
      · exact ⟨x, answered⟩
    | post ts item source target fresh =>
      rw [unreplied ts target]
      exact h.answered
    | other e hother =>
      intro k hk
      rw [Persisted.replied, log_other hother] at hk
      exact h.answered k hk
  · cases he with
    | draw | install | settle | fire => exact h.single
    | send n k ts item fired unsent kind named =>
      rw [unreplied ts (replyTo_fired kind)]
      exact h.single
    | reply k ts x item answered hnew target fresh =>
      rw [Persisted.replied_append, target, Option.toList_some, List.nodup_append]
      refine ⟨h.single, List.nodup_singleton k, ?_⟩
      intro a ha b hb hab
      rw [List.mem_singleton] at hb
      rw [hab, hb] at ha
      exact hnew ha
    | post ts item source target fresh =>
      rw [unreplied ts target]
      exact h.single
    | other e hother =>
      rw [Persisted.replied, log_other hother]
      exact h.single

theorem slots_setMark (p : Persisted) (n : SnapshotName) (k : String) (m : Mark) :
    (p.setMark n k m).outbox.slots =
      Function.update p.outbox.slots (n, k) (some (slotOf n m)) := by
  funext ⟨n', k'⟩
  rw [Outbox.update_slot]
  show ((p.setMark n k m).marks n' k').map (slotOf n') = _
  rw [Persisted.marks_setMark]
  by_cases h : n = n' ∧ k = k'
  · obtain ⟨rfl, rfl⟩ := h
    rw [if_pos ⟨rfl, rfl⟩, if_pos rfl]
    rfl
  · rw [if_neg h, if_neg]
    · rfl
    · intro heq
      exact h (Prod.mk.inj heq)

theorem sent_append (p : Persisted) (ts : String) (item : WakeItem) :
    (p.append (.enqueue ts item)).outbox.sent =
      p.outbox.sent ++ [(sourceOf item, item.id)] := by
  simp [Persisted.outbox, Persisted.append, enqueuedItem]

/-- What the outbox has in use the service has drawn. -/
theorem used_of_inUse {p : Persisted} {id : String} (h : p.outbox.InUse id) : p.Used id := by
  obtain hsent | ⟨⟨n, k⟩, hslot⟩ := h
  · rw [Persisted.sent_ids] at hsent
    exact .inl hsent
  · have hmap : (p.marks n k).map (slotOf n) = some (.fired id) := hslot
    obtain ⟨m, hm, hfired⟩ := Option.map_eq_some_iff.mp hmap
    rw [fired_of_slotOf hfired] at hm
    exact .inr ⟨n, k, _, hm⟩

/-- Every write of the service is one step of the outbox. -/
theorem Effect.step {p q : Persisted} (he : Effect env allowed ends p q) :
    Outbox.Step (fun k => allowed p k.1 k.2) p.outbox q.outbox := by
  have slot {n : SnapshotName} {k : String} {m : Mark} (hm : p.marks n k = some m) :
      p.outbox.slots (n, k) = some (slotOf n m) := by
    show (p.marks n k).map (slotOf n) = _
    rw [hm]
    rfl
  have fresh {id : String} (h : p.Unused env id) : ¬p.outbox.InUse id :=
    fun hused => h.unused (used_of_inUse hused)
  cases he with
  | draw => exact .skip rfl rfl
  | install n k h =>
    refine .install (n, k) h ?_ (by rfl)
    rw [slots_setMark, slotOf_opened]
  | settle n k x status opened ending h =>
    refine .withdraw (n, k) ?_ ?_ (by rfl)
    · rw [slot opened, slotOf_opened]
    · rw [slots_setMark, slotOf_ended n ending]
  | fire n k x id opened hid =>
    refine .mark (n, k) id ?_ (fresh hid) ?_ (by rfl)
    · rw [slot opened, slotOf_opened]
    · rw [slots_setMark, slotOf_closed]
  | send n k ts item fired unsent kind named =>
    refine .send (n, k) item.id ?_ ?_ (by rfl) ?_
    · rw [slot fired, slotOf_closed]
    · rw [Persisted.sent_ids]
      exact unsent
    · rw [sent_append, sourceOf_fired kind named]
  | reply k ts x item answered unreplied target hid =>
    refine .post item.id (fresh hid) (by rfl) ?_
    have hsource : sourceOf item = none := by
      unfold replyTo at target
      unfold sourceOf
      split at target
      · rw [‹item.kind = _›]
      · cases target
    rw [sent_append, hsource]
  | post ts item source target hid =>
    refine .post item.id (fresh hid) (by rfl) ?_
    rw [sent_append, source]
  | other e hother =>
    refine .skip (by rfl) ?_
    show ((p.append e).log.filterMap enqueuedItem).map _ = _
    rw [log_other hother]
    rfl

end Effects
end Elyra.Presence
