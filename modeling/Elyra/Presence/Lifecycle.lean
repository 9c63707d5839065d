import Elyra.Framework.Run
import Elyra.Presence.Queue

namespace Elyra.Presence

open Json

/-- The lifecycle of one wake id, as the event log determines it. -/
structure Life where
  item : WakeItem
  op : WakeOp
  momentId : Option String
  reason : Option String

def evolve (life : Option Life) : WakeEvent → Option Life
  | .enqueue _ item => some ⟨item, .enqueue, none, none⟩
  | .claimed _ _ momentId =>
    life.map (fun l => { l with op := .claimed, momentId := some momentId, reason := none })
  | .done _ _ => life.map (fun l => { l with op := .done, reason := none })
  | .cancelled _ _ reason => life.map (fun l => { l with op := .cancelled, reason := some reason })

def lifeOf (events : List WakeEvent) : String → Option Life := replay WakeEvent.wakeId evolve events

/-- What one more event makes of all lives. -/
def record (lives : String → Option Life) (e : WakeEvent) : String → Option Life :=
  Function.update lives e.wakeId (evolve (lives e.wakeId) e)

theorem record_apply (lives : String → Option Life) (e : WakeEvent) (id : String) :
    record lives e id = if e.wakeId = id then evolve (lives id) e else lives id := by
  unfold record
  by_cases h : e.wakeId = id
  · subst h
    simp
  · rw [Function.update_of_ne (Ne.symm h), if_neg h]

theorem lifeOf_snoc (events : List WakeEvent) (e : WakeEvent) :
    lifeOf (events ++ [e]) = record (lifeOf events) e := by
  funext id
  rw [record_apply]
  exact replay_snoc WakeEvent.wakeId evolve events e id

theorem lifeOf_append (events new : List WakeEvent) :
    lifeOf (events ++ new) = new.foldl record (lifeOf events) := by
  induction new using List.reverseRecOn with
  | nil => rw [List.append_nil, List.foldl_nil]
  | append_singleton new e ih =>
    rw [← List.append_assoc, lifeOf_snoc, ih, List.foldl_append, List.foldl_cons, List.foldl_nil]

/-- The four maps hold, for every wake id, what `lives` says of it. -/
structure Tracks (q : WakeQueue) (lives : String → Option Life) : Prop where
  items : ∀ id, q.items.get? id = (lives id).map Life.item
  ops : ∀ id, q.ops.get? id = (lives id).map Life.op
  moments : ∀ id, q.moments.get? id = (lives id).map Life.momentId
  reasons : ∀ id, q.reasons.get? id = (lives id).map Life.reason

section Fold

variable [PyCoerce]

def slotLife (slot : Option FoldedWake) : Option Life := do
  let slot ← slot
  let item ← slot.item
  let op ← slot.op
  return ⟨item, op, slot.momentId, slot.reason⟩

theorem fromDict_toDict (item : WakeItem) (kvs : List (String × Json))
    (h : item.toDict = .obj kvs) : parseWakeItem kvs item.id = some item := by
  obtain ⟨id, kind, priority, createdAt, payload, banded⟩ := item
  simp only [WakeItem.toDict, Json.obj.injEq] at h
  subst h
  subst banded
  simp [parseWakeItem, RawWakeItem.fromDict, lookup]

omit [PyCoerce] in
theorem lookup_row (e : WakeEvent) :
    lookup e.row "wake_id" = some (.str e.wakeId) ∧ lookup e.row "op" = some (.str e.op.text) := by
  cases e <;> exact ⟨rfl, rfl⟩

theorem foldEvent_row (state : Dict String FoldedWake) (e : WakeEvent) :
    foldEvent state (.obj e.row) = state.set e.wakeId
      (foldSlot ((state.get? e.wakeId).getD {}) e.wakeId e.op.text e.row) := by
  obtain ⟨hid, hop⟩ := lookup_row e
  rw [foldEvent, hid, hop]
  rfl

theorem slotLife_foldSlot (slot : Option FoldedWake) (e : WakeEvent)
    (hop : ∀ s, slot = some s → s.item.isSome → s.op.isSome) :
    slotLife (some (foldSlot (slot.getD {}) e.wakeId e.op.text e.row)) =
      evolve (slotLife slot) e := by
  have later (f : FoldedWake → FoldedWake) (g : Life → Life)
      (hitem : ∀ s, (f s).item = s.item)
      (hlife : ∀ s item op, s.item = some item → s.op = some op →
        slotLife (some (f s)) = some (g ⟨item, op, s.momentId, s.reason⟩)) :
      slotLife (some (f (slot.getD {}))) = (slotLife slot).map g := by
    cases slot with
    | none => simp [slotLife, hitem]
    | some s =>
      cases hi : s.item with
      | none => simp [slotLife, hitem, hi]
      | some item =>
        obtain ⟨op, ho⟩ := Option.isSome_iff_exists.mp (hop s rfl (by simp [hi]))
        rw [Option.getD_some, hlife s item op hi ho]
        simp [slotLife, hi, ho]
  cases e with
  | enqueue ts item =>
    have hrow : lookup (WakeEvent.enqueue ts item).row "item" = some item.toDict := rfl
    obtain ⟨kvs, hkvs⟩ : ∃ kvs, item.toDict = .obj kvs := ⟨_, rfl⟩
    have hparse := fromDict_toDict item kvs hkvs
    simp [foldSlot, hrow, hkvs, WakeEvent.op, WakeOp.text, WakeEvent.wakeId, hparse, slotLife,
      evolve]
  | claimed ts wakeId momentId =>
    refine later (fun s => { s with op := some .claimed, momentId := some momentId, reason := none })
      _ (fun s => rfl) ?_
    intro s item op hi ho
    simp [slotLife, hi]
  | done ts wakeId =>
    refine later (fun s => { s with op := some .done, reason := none }) _ (fun s => rfl) ?_
    intro s item op hi ho
    simp [slotLife, hi]
  | cancelled ts wakeId reason =>
    refine later (fun s => { s with op := some .cancelled, reason := some reason })
      _ (fun s => rfl) ?_
    intro s item op hi ho
    simp [slotLife, hi]

/-- Folding one of the queue's own rows moves the life of its wake id and of no other. -/
theorem slotLife_foldEvent (state : Dict String FoldedWake) (e : WakeEvent) (id : String)
    (hop : ∀ slot, state.get? e.wakeId = some slot → slot.item.isSome → slot.op.isSome) :
    slotLife ((foldEvent state (.obj e.row)).get? id) =
      if e.wakeId = id then evolve (slotLife (state.get? id)) e
      else slotLife (state.get? id) := by
  rw [foldEvent_row, Dict.get?_set]
  split_ifs with h
  · subst h
    exact slotLife_foldSlot (state.get? e.wakeId) e hop
  · rfl

/-- A slot that holds an item holds its own, and has a lifecycle state. -/
def Slotted (state : Dict String FoldedWake) : Prop :=
  ∀ id slot item, state.get? id = some slot → slot.item = some item →
    item.id = id ∧ slot.op.isSome

theorem parseWakeItem_id (data : List (String × Json)) (wakeId : String) (item : WakeItem)
    (h : parseWakeItem data wakeId = some item) : item.id = wakeId := by
  simp only [parseWakeItem, Option.bind_eq_bind, Option.pure_def, Option.bind_eq_some_iff,
    Option.some.injEq] at h
  obtain ⟨raw, -, kind, -, rfl⟩ := h
  rfl

theorem slotted_foldSlot (slot : FoldedWake) (wakeId op : String) (ev : List (String × Json))
    (h : ∀ item, slot.item = some item → item.id = wakeId ∧ slot.op.isSome) (item : WakeItem)
    (hi : (foldSlot slot wakeId op ev).item = some item) :
    item.id = wakeId ∧ (foldSlot slot wakeId op ev).op.isSome := by
  unfold foldSlot at hi ⊢
  split_ifs at hi ⊢
  · split at hi
    · split at hi
      · next parsed hp =>
        simp only [Option.some.injEq] at hi
        subst hi
        exact ⟨parseWakeItem_id _ wakeId _ hp, rfl⟩
      · exact h item hi
    · exact h item hi
  · exact ⟨(h item hi).1, rfl⟩
  · exact ⟨(h item hi).1, rfl⟩
  · exact ⟨(h item hi).1, rfl⟩
  · exact h item hi

theorem slotted_foldEvent (state : Dict String FoldedWake) (ev : Json) (h : Slotted state) :
    Slotted (foldEvent state ev) := by
  unfold foldEvent
  split
  · next kvs =>
    split
    · next wakeId op hw ho =>
      intro id slot item hget hitem
      rw [Dict.get?_set] at hget
      split_ifs at hget with hid
      · subst hid
        cases hget
        apply slotted_foldSlot _ _ _ _ _ item hitem
        intro old hold
        cases hs : state.get? (pyStr wakeId) with
        | none => simp [hs] at hold
        | some s =>
          rw [hs, Option.getD_some] at hold
          exact h _ s old hs hold
      · exact h id slot item hget hitem
    · exact h
  · exact h

theorem slotted_foldEvents (events : List Json) : Slotted (foldEvents events) := by
  have hempty : Slotted Dict.empty := by
    intro id slot item hget
    cases hget
  exact run_invariant Slotted slotted_foldEvent Dict.empty events hempty

/-- The fold of the queue's own rows is the replay of its events. -/
theorem slotLife_foldEvents (events : List WakeEvent) (id : String) :
    slotLife ((foldEvents (events.map (fun e => .obj e.row))).get? id) = lifeOf events id := by
  induction events using List.reverseRecOn generalizing id with
  | nil => rfl
  | append_singleton events e ih =>
    have hslots := slotted_foldEvents (events.map (fun e => Json.obj e.row))
    have hstep : foldEvents ((events ++ [e]).map (fun e => Json.obj e.row)) =
        foldEvent (foldEvents (events.map (fun e => Json.obj e.row))) (.obj e.row) := by
      simp [foldEvents]
    rw [hstep, slotLife_foldEvent, lifeOf_snoc, record_apply, ih]
    intro slot hget hitem
    obtain ⟨item, hi⟩ := Option.isSome_iff_exists.mp hitem
    exact (hslots e.wakeId slot item hget hi).2

end Fold
end Elyra.Presence
