import Elyra.Presence.Lifecycle

namespace Elyra.Presence

open Json

/-- Memory tells of every wake what `lives` does; a pending wake is in enqueue state and has a
key on the heap. -/
structure Sound (q : WakeQueue) (lives : String → Option Life) : Prop extends Tracks q lives where
  itemId : ∀ id l, lives id = some l → l.item.id = id
  pendingOp : ∀ id, q.pendingIds.get? id = some () → ∃ l, lives id = some l ∧ l.op = .enqueue
  pendingKey : ∀ id l, q.pendingIds.get? id = some () → lives id = some l →
    heapKey l.item ∈ q.heap

/-- No wake in enqueue state is missing from the pending set. -/
def Full (q : WakeQueue) (lives : String → Option Life) : Prop :=
  ∀ id l, lives id = some l → l.op = .enqueue → q.pendingIds.get? id = some ()

theorem sound_empty : Sound .empty (fun _ => none) := by
  refine { items := ?_, ops := ?_, moments := ?_, reasons := ?_, itemId := ?_, pendingOp := ?_,
           pendingKey := ?_ }
  all_goals simp [WakeQueue.empty]

theorem full_empty : Full .empty (fun _ => none) := by
  simp [Full]

theorem update_apply (lives : String → Option Life) (id x : String) (l : Life) :
    Function.update lives id (some l) x = if id = x then some l else lives x := by
  by_cases h : id = x
  · subst h
    simp
  · rw [Function.update_of_ne (Ne.symm h), if_neg h]

/-- Writing the four entries of one wake id updates its life. -/
theorem tracks_update {q : WakeQueue} {lives : String → Option Life} (h : Tracks q lives)
    (id : String) (l : Life) (p : WakeQueue)
    (hitems : ∀ x, p.items.get? x = if id = x then some l.item else q.items.get? x)
    (hops : ∀ x, p.ops.get? x = if id = x then some l.op else q.ops.get? x)
    (hmoments : ∀ x, p.moments.get? x = if id = x then some l.momentId else q.moments.get? x)
    (hreasons : ∀ x, p.reasons.get? x = if id = x then some l.reason else q.reasons.get? x) :
    Tracks p (Function.update lives id (some l)) := by
  constructor
  · intro x
    rw [hitems, update_apply, h.items]
    split_ifs <;> rfl
  · intro x
    rw [hops, update_apply, h.ops]
    split_ifs <;> rfl
  · intro x
    rw [hmoments, update_apply, h.moments]
    split_ifs <;> rfl
  · intro x
    rw [hreasons, update_apply, h.reasons]
    split_ifs <;> rfl

/-- Changing one life keeps the invariant when the other pending wakes stay on the heap. -/
theorem sound_update {q : WakeQueue} {lives : String → Option Life} (h : Sound q lives)
    (id : String) (l : Life) (p : WakeQueue) (ht : Tracks p (Function.update lives id (some l)))
    (hid : l.item.id = id)
    (hself : p.pendingIds.get? id = some () → l.op = .enqueue ∧ heapKey l.item ∈ p.heap)
    (hother : ∀ x, id ≠ x → p.pendingIds.get? x = some () → q.pendingIds.get? x = some () ∧
      ∀ k ∈ q.heap, k.wakeId = x → k ∈ p.heap) :
    Sound p (Function.update lives id (some l)) := by
  refine { ht with itemId := ?_, pendingOp := ?_, pendingKey := ?_ }
  · intro x y hy
    rw [update_apply] at hy
    split_ifs at hy with hx
    · cases hy
      exact hid.trans hx
    · exact h.itemId x y hy
  · intro x hx
    rw [update_apply]
    split_ifs with hix
    · subst hix
      exact ⟨l, rfl, (hself hx).1⟩
    · exact h.pendingOp x (hother x hix hx).1
  · intro x y hx hy
    rw [update_apply] at hy
    split_ifs at hy with hix
    · subst hix
      cases hy
      exact (hself hx).2
    · obtain ⟨hp, hkeys⟩ := hother x hix hx
      have hyid : (heapKey y.item).wakeId = x := h.itemId x y hy
      exact hkeys _ (h.pendingKey x y hp hy) hyid

theorem sound_putEnqueued {q : WakeQueue} {lives : String → Option Life} (h : Sound q lives)
    (ts : String) (item : WakeItem) :
    Sound (q.putEnqueued item) (record lives (.enqueue ts item)) := by
  apply sound_update h item.id ⟨item, .enqueue, none, none⟩
  · apply tracks_update h.toTracks <;> intro x <;> exact Dict.get?_set _ _ _ _
  · rfl
  · intro _
    exact ⟨rfl, (Heap.mem_push _ _ _).mpr (Or.inl rfl)⟩
  · intro x hx hp
    simp only [WakeQueue.putEnqueued, Dict.get?_set, if_neg hx] at hp
    exact ⟨hp, fun k hk _ => (Heap.mem_push _ _ _).mpr (Or.inr hk)⟩

theorem full_putEnqueued {q : WakeQueue} {lives : String → Option Life} (h : Full q lives)
    (ts : String) (item : WakeItem) :
    Full (q.putEnqueued item) (record lives (.enqueue ts item)) := by
  intro id l hl hop
  rw [record_apply] at hl
  change (if item.id = id then _ else _) = _ at hl
  rw [WakeQueue.putEnqueued, Dict.get?_set]
  split_ifs at hl ⊢ with hid
  · rfl
  · exact h id l hl hop

theorem sound_putTerminal {q : WakeQueue} {lives : String → Option Life} (h : Sound q lives)
    (id : String) (op : WakeOp) (reason : Option String) (l : Life) (hl : lives id = some l) :
    Sound (q.putTerminal id op reason)
      (Function.update lives id (some ⟨l.item, op, l.momentId, reason⟩)) := by
  apply sound_update h id ⟨l.item, op, l.momentId, reason⟩
  · apply tracks_update h.toTracks
    · intro x
      split_ifs with hx
      · subst hx
        simp [WakeQueue.putTerminal, h.items, hl]
      · rfl
    · intro x
      exact Dict.get?_set _ _ _ _
    · intro x
      split_ifs with hx
      · subst hx
        simp [WakeQueue.putTerminal, h.moments, hl]
      · rfl
    · intro x
      exact Dict.get?_set _ _ _ _
  · exact h.itemId id l hl
  · intro hp
    simp [WakeQueue.putTerminal, Dict.get?_pop] at hp
  · intro x hx hp
    simp only [WakeQueue.putTerminal, Dict.get?_pop, if_neg hx] at hp
    exact ⟨hp, fun k hk _ => hk⟩

theorem full_putTerminal {q : WakeQueue} {lives : String → Option Life} (h : Full q lives)
    (id : String) (op : WakeOp) (reason : Option String) (l : Life) (hop : op ≠ .enqueue) :
    Full (q.putTerminal id op reason)
      (Function.update lives id (some ⟨l.item, op, l.momentId, reason⟩)) := by
  intro x y hy hyop
  rw [update_apply] at hy
  split_ifs at hy with hx
  · cases hy
    exact absurd hyop hop
  · simp only [WakeQueue.putTerminal, Dict.get?_pop, if_neg hx]
    exact h x y hy hyop

/-- What `_pop_pending` can do: find no pending key, or take the first one. -/
inductive Popped (q : WakeQueue) (keys : List WakeKey) : Option WakeItem × WakeQueue → Prop
  | none (none_pending : ∀ k ∈ keys, q.pendingIds.get? k.wakeId = none) (heap : Heap WakeKey) :
      Popped q keys (none, { q with heap := heap })
  | some (skipped : List WakeKey) (k : WakeKey) (rest : Heap WakeKey) (item : WakeItem)
      (split : keys = skipped ++ k :: rest.keys)
      (skipped_stale : ∀ j ∈ skipped, q.pendingIds.get? j.wakeId = none)
      (pending : q.pendingIds.get? k.wakeId = some ())
      (found : q.items.get? k.wakeId = some item)
      (same_id : item.id = k.wakeId) :
      Popped q keys
        (some item, { q with pendingIds := q.pendingIds.pop k.wakeId, heap := rest })

theorem popLoop_popped {q : WakeQueue} {lives : String → Option Life} (h : Sound q lives)
    (keys : List WakeKey) (sorted : keys.Pairwise (· ≤ ·)) :
    Popped q keys (q.popLoop keys sorted) := by
  induction keys with
  | nil => exact .none (by simp) _
  | cons k keys ih =>
    rw [WakeQueue.popLoop]
    cases hp : q.pendingIds.get? k.wakeId with
    | none =>
      have hrest := ih sorted.of_cons
      rw [if_pos (by rfl)]
      generalize q.popLoop keys sorted.of_cons = r at hrest ⊢
      cases hrest with
      | none hnone heap =>
        apply Popped.none
        intro j hj
        rcases List.mem_cons.mp hj with rfl | hj
        · exact hp
        · exact hnone j hj
      | some skipped j rest item split stale pending found same =>
        refine .some (k :: skipped) j rest item (by rw [split]; rfl) ?_ pending found same
        intro i hi
        rcases List.mem_cons.mp hi with rfl | hi
        · exact hp
        · exact stale i hi
    | some u =>
      obtain ⟨l, hl, hop⟩ := h.pendingOp k.wakeId hp
      have hitem : q.items.get? k.wakeId = some l.item := by
        rw [h.items, hl]
        rfl
      have hops : q.ops.get? k.wakeId = some .enqueue := by
        rw [h.ops, hl, ← hop]
        rfl
      simp only [hitem, hops]
      exact .some [] k ⟨keys, sorted.of_cons⟩ l.item rfl (by simp) hp hitem (h.itemId _ l hl)

theorem popPending_popped {q : WakeQueue} {lives : String → Option Life} (h : Sound q lives) :
    Popped q q.heap.keys q.popPending :=
  popLoop_popped h q.heap.keys q.heap.sorted

/-- Nothing is popped only when nothing is pending. -/
theorem pending_none_of_keys {q : WakeQueue} {lives : String → Option Life} (h : Sound q lives)
    (hk : ∀ k ∈ q.heap.keys, q.pendingIds.get? k.wakeId = none) (id : String) :
    q.pendingIds.get? id = none := by
  cases hp : q.pendingIds.get? id with
  | none => rfl
  | some u =>
    obtain ⟨l, hl, -⟩ := h.pendingOp id hp
    have hkey := hk _ (h.pendingKey id l hp hl)
    rw [wakeId_heapKey, h.itemId id l hl, hp] at hkey
    cases hkey

theorem sound_popped {q : WakeQueue} {lives : String → Option Life} (h : Sound q lives)
    (r : Option WakeItem × WakeQueue) (hr : Popped q q.heap.keys r) : Sound r.2 lives := by
  cases hr with
  | none hnone heap =>
    have hempty := pending_none_of_keys h hnone
    refine { h.toTracks with itemId := h.itemId, pendingOp := ?_, pendingKey := ?_ }
    · intro id hp
      exact h.pendingOp id hp
    · intro id l hp
      rw [show q.pendingIds.get? id = none from hempty id] at hp
      cases hp
  | some skipped k rest item split stale pending found same =>
    have hkeep (id : String) (hp : (q.pendingIds.pop k.wakeId).get? id = some ()) :
        k.wakeId ≠ id ∧ q.pendingIds.get? id = some () := by
      rw [Dict.get?_pop] at hp
      split_ifs at hp with hk
      exact ⟨hk, hp⟩
    refine { h.toTracks with itemId := h.itemId, pendingOp := ?_, pendingKey := ?_ }
    · intro id hp
      exact h.pendingOp id (hkeep id hp).2
    · intro id l hp hl
      obtain ⟨hne, hp⟩ := hkeep id hp
      have hid : (heapKey l.item).wakeId = id := h.itemId id l hl
      have hkey : heapKey l.item ∈ skipped ++ k :: rest.keys := split ▸ h.pendingKey id l hp hl
      rw [List.mem_append, List.mem_cons] at hkey
      rcases hkey with hs | rfl | hrest
      · have hstale := stale _ hs
        rw [hid, hp] at hstale
        cases hstale
      · exact absurd hid hne
      · exact hrest

theorem sound_putClaimed {q p : WakeQueue} {lives : String → Option Life} (h : Sound q lives)
    (item : WakeItem) (hpop : Popped q q.heap.keys (some item, p)) (ts momentId : String) :
    Sound (p.putClaimed item.id momentId) (record lives (.claimed ts item.id momentId)) := by
  have hp : Sound p lives := sound_popped h _ hpop
  cases hpop with
  | some skipped k rest _ split stale pending found same =>
    obtain ⟨l, hl, -⟩ := h.pendingOp k.wakeId pending
    have hlid : lives item.id = some l := by rw [same, hl]
    have hrec : record lives (.claimed ts item.id momentId) =
        Function.update lives item.id (some ⟨l.item, .claimed, some momentId, none⟩) := by
      unfold record
      rw [WakeEvent.wakeId, hlid]
      rfl
    rw [hrec]
    apply sound_update hp item.id ⟨l.item, .claimed, some momentId, none⟩
    · apply tracks_update hp.toTracks
      · intro x
        split_ifs with hx
        · subst hx
          have hi := h.items item.id
          rw [hlid] at hi
          exact hi
        · rfl
      all_goals
        intro x
        exact Dict.get?_set _ _ _ _
    · exact h.itemId item.id l hlid
    · intro hpend
      simp [WakeQueue.putClaimed, Dict.get?_pop, same] at hpend
    · intro x hx hpend
      exact ⟨hpend, fun k hk _ => hk⟩

theorem full_putClaimed {q p : WakeQueue} {lives : String → Option Life} (h : Full q lives)
    (item : WakeItem) (hpop : Popped q q.heap.keys (some item, p)) (ts momentId : String) :
    Full (p.putClaimed item.id momentId) (record lives (.claimed ts item.id momentId)) := by
  cases hpop with
  | some skipped k rest _ split stale pending found same =>
    intro id l hl hop
    rw [record_apply] at hl
    change (if item.id = id then _ else _) = _ at hl
    split_ifs at hl with hid
    · simp only [evolve, Option.map_eq_some_iff] at hl
      obtain ⟨x, -, rfl⟩ := hl
      cases hop
    · simp only [WakeQueue.putClaimed, Dict.get?_pop]
      rw [if_neg (by rw [← same]; exact hid)]
      exact h id l hl hop

/-- A slot with an item adds one life, and is pending exactly in enqueue state. -/
theorem sound_applySlot {q : WakeQueue} {lives : String → Option Life} (h : Sound q lives)
    (hfull : Full q lives) (id : String) (slot : FoldedWake) (hnew : lives id = none)
    (hslot : ∀ item, slot.item = some item → item.id = id ∧ slot.op.isSome) :
    Sound (q.applySlot id slot) (Function.update lives id (slotLife (some slot))) ∧
      Full (q.applySlot id slot) (Function.update lives id (slotLife (some slot))) := by
  cases hi : slot.item with
  | none =>
    have hlife : slotLife (some slot) = none := by simp [slotLife, hi]
    have hsame : q.applySlot id slot = q := by simp [WakeQueue.applySlot, hi]
    rw [hsame, hlife, ← hnew, Function.update_eq_self]
    exact ⟨h, hfull⟩
  | some item =>
    obtain ⟨hid, hop⟩ := hslot item hi
    obtain ⟨op, ho⟩ := Option.isSome_iff_exists.mp hop
    have hlife : slotLife (some slot) = some ⟨item, op, slot.momentId, slot.reason⟩ := by
      simp [slotLife, hi, ho]
    have hnp : q.pendingIds.get? id = none := by
      cases hp : q.pendingIds.get? id with
      | none => rfl
      | some u =>
        obtain ⟨l, hl, -⟩ := h.pendingOp id hp
        rw [hnew] at hl
        cases hl
    rw [hlife]
    simp only [WakeQueue.applySlot, hi, ho]
    constructor
    · apply sound_update h id ⟨item, op, slot.momentId, slot.reason⟩
      · apply tracks_update h.toTracks <;> intro x <;> exact Dict.get?_set _ _ _ _
      · exact hid
      · intro hp
        by_cases he : op = .enqueue
        · simp only [he, if_true]
          exact ⟨trivial, (Heap.mem_push _ _ _).mpr (Or.inl rfl)⟩
        · simp only [if_neg he, hnp] at hp
          cases hp
      · intro x hx hp
        by_cases he : op = .enqueue
        · simp only [he, if_true, Dict.get?_set, if_neg hx] at hp ⊢
          exact ⟨hp, fun k hk _ => (Heap.mem_push _ _ _).mpr (Or.inr hk)⟩
        · simp only [if_neg he] at hp ⊢
          exact ⟨hp, fun k hk _ => hk⟩
    · intro x l hl hlop
      rw [update_apply] at hl
      split_ifs at hl with hx
      · subst hx
        cases hl
        have he : op = .enqueue := hlop
        simp [he]
      · have hp := hfull x l hl hlop
        split_ifs
        · rw [Dict.get?_set_ne _ _ hx]
          exact hp
        · exact hp

theorem sound_applySlots (slots : List (String × FoldedWake)) {q : WakeQueue}
    {lives : String → Option Life} (h : Sound q lives) (hfull : Full q lives)
    (hnodup : (slots.map Prod.fst).Nodup) (hnew : ∀ p ∈ slots, lives p.1 = none)
    (hslot : ∀ p ∈ slots, ∀ item, p.2.item = some item → item.id = p.1 ∧ p.2.op.isSome) :
    let q' := slots.foldl (fun q p => q.applySlot p.1 p.2) q
    let lives' := fun id =>
      match Dict.findItem slots id with
      | some slot => slotLife (some slot)
      | none => lives id
    Sound q' lives' ∧ Full q' lives' := by
  induction slots generalizing q lives with
  | nil => exact ⟨h, hfull⟩
  | cons p slots ih =>
    obtain ⟨id, slot⟩ := p
    simp only [List.map_cons, List.nodup_cons] at hnodup
    obtain ⟨hs, hf⟩ := sound_applySlot h hfull id slot (hnew (id, slot) (by simp))
      (hslot (id, slot) (by simp))
    have hrest := ih hs hf hnodup.2 (by
      intro p hp
      have hne : p.1 ≠ id := fun he => hnodup.1 (he ▸ List.mem_map_of_mem hp)
      rw [Function.update_of_ne hne]
      exact hnew p (List.mem_cons_of_mem _ hp)) (fun p hp => hslot p (List.mem_cons_of_mem _ hp))
    have hlives : (fun x => match Dict.findItem ((id, slot) :: slots) x with
        | some s => slotLife (some s)
        | none => lives x) = fun x => match Dict.findItem slots x with
        | some s => slotLife (some s)
        | none => Function.update lives id (slotLife (some slot)) x := by
      funext x
      by_cases hx : id = x
      · subst hx
        have hnf : Dict.findItem slots id = none := by
          rw [Option.eq_none_iff_forall_ne_some]
          intro v hv
          rw [Dict.findItem_eq_some_iff slots hnodup.2] at hv
          exact hnodup.1 (List.mem_map_of_mem (f := Prod.fst) hv)
        simp [Dict.findItem, hnf]
      · simp [Dict.findItem, hx, Function.update_of_ne (Ne.symm hx)]
    simp only [List.foldl_cons]
    rw [hlives]
    exact hrest

/-- `_apply_fold` loads exactly the lives the fold found. -/
theorem sound_applyFold (folded : Dict String FoldedWake) (h : Slotted folded) :
    Sound (WakeQueue.applyFold folded) (fun id => slotLife (folded.get? id)) ∧
      Full (WakeQueue.applyFold folded) (fun id => slotLife (folded.get? id)) := by
  have hslots := sound_applySlots folded.items sound_empty full_empty folded.nodup (by simp) (by
    intro p hp item hi
    exact h p.1 p.2 item ((Dict.get?_eq_some_iff folded p.1 p.2).mpr hp) hi)
  have hlives : (fun id => slotLife (folded.get? id)) = fun id =>
      match Dict.findItem folded.items id with
      | some slot => slotLife (some slot)
      | none => none := by
    funext id
    rw [Dict.get?]
    cases Dict.findItem folded.items id <;> rfl
  rw [hlives]
  exact hslots

theorem readEvents_eventBytes (events : List WakeEvent) (tail : List Char) :
    readEvents (eventBytes events ++ tail.utf8Encode) =
      .ok (events.map (fun e => .obj e.row) ++ loadedRows tail) := by
  have hbytes : eventBytes events ++ tail.utf8Encode =
      (rowsText (events.map WakeEvent.row) ++ tail).utf8Encode := by
    rw [eventBytes, encodeUtf8_eq, List.utf8Encode_append]
  rw [readEvents, hbytes, decodeUtf8_utf8Encode]
  simp only [loadedRows_rowsText, List.map_map]
  rfl

section Load

variable [PyCoerce]

theorem sound_openQueue (log : ByteArray) (q : WakeQueue) (h : openQueue log = .ok q) :
    ∃ lives, Sound q lives ∧ Full q lives := by
  unfold openQueue at h
  cases hr : readEvents log with
  | error e =>
    rw [hr] at h
    cases h
  | ok events =>
    rw [hr] at h
    cases h
    exact ⟨_, sound_applyFold _ (slotted_foldEvents events)⟩

/-- Reopening a log of the queue's own rows gives the replay of its events. -/
theorem openQueue_eventBytes (events : List WakeEvent) :
    ∃ q, openQueue (eventBytes events) = .ok q ∧ Sound q (lifeOf events) ∧
      Full q (lifeOf events) := by
  have hread := readEvents_eventBytes events []
  simp only [List.utf8Encode_nil, ByteArray.append_empty, loadedRows_nil, List.append_nil] at hread
  have hfold := sound_applyFold _ (slotted_foldEvents (events.map (fun e => Json.obj e.row)))
  have hlives : (fun id => slotLife ((foldEvents (events.map (fun e => Json.obj e.row))).get? id)) =
      lifeOf events := by
    funext id
    exact slotLife_foldEvents events id
  rw [hlives] at hfold
  refine ⟨_, ?_, hfold⟩
  rw [openQueue, hread]
  rfl

end Load
end Elyra.Presence
