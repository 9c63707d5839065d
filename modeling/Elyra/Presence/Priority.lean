import Elyra.Presence.Refinement

namespace Elyra.Presence

open Json

instance : Std.Total WakeQueue.keyLe := ⟨fun a b => le_total (heapKey a) (heapKey b)⟩

instance : IsTrans WakeItem WakeQueue.keyLe :=
  ⟨fun a _ c hab hbc => show heapKey a ≤ heapKey c from le_trans hab hbc⟩

section Pending

variable {q : WakeQueue} {lives : String → Option Life}

theorem isPending_iff (h : Sound q lives) (id : String) :
    q.isPending id = true ↔ q.pendingIds.get? id = some () := by
  constructor
  · intro hp
    simp only [WakeQueue.isPending, Bool.and_eq_true] at hp
    obtain ⟨u, hu⟩ := Option.isSome_iff_exists.mp hp.1.1
    exact hu
  · intro hp
    obtain ⟨l, hl, hop⟩ := h.pendingOp id hp
    simp [WakeQueue.isPending, hp, h.items, h.ops, hl, hop]

theorem mem_pendingItems (h : Sound q lives) (item : WakeItem) :
    item ∈ q.pendingItems ↔
      q.pendingIds.get? item.id = some () ∧ q.items.get? item.id = some item := by
  have hid (id : String) (hi : q.items.get? id = some item) : item.id = id := by
    rw [h.items, Option.map_eq_some_iff] at hi
    obtain ⟨l, hl, rfl⟩ := hi
    exact h.itemId id l hl
  simp only [WakeQueue.pendingItems, List.mem_filterMap, List.mem_filter, isPending_iff h]
  constructor
  · rintro ⟨id, ⟨-, hp⟩, hi⟩
    have he := hid id hi
    subst he
    exact ⟨hp, hi⟩
  · rintro ⟨hp, hi⟩
    exact ⟨item.id, ⟨(Dict.mem_keys _ _).mpr ⟨(), hp⟩, hp⟩, hi⟩

theorem mem_pending (h : Sound q lives) (item : WakeItem) :
    item ∈ q.pending ↔
      q.pendingIds.get? item.id = some () ∧ q.items.get? item.id = some item := by
  rw [WakeQueue.pending, List.mem_insertionSort, mem_pendingItems h]

/-- `peek` is the least pending wake. -/
theorem peek_least (best : WakeItem) (hp : q.peek = some best) :
    best ∈ q.pending ∧ ∀ item ∈ q.pending, heapKey best ≤ heapKey item := by
  have hsorted : q.pending.Pairwise WakeQueue.keyLe := List.pairwise_insertionSort _ q.pendingItems
  rw [WakeQueue.peek] at hp
  cases hq : q.pending with
  | nil =>
    rw [hq] at hp
    cases hp
  | cons first rest =>
    rw [hq] at hp hsorted
    cases hp
    refine ⟨by simp, ?_⟩
    intro item hm
    rcases List.mem_cons.mp hm with rfl | hm
    · exact le_refl _
    · exact (List.pairwise_cons.mp hsorted).1 item hm

theorem peek_none_iff : q.peek = none ↔ q.pending = [] := by
  rw [WakeQueue.peek, List.head?_eq_none_iff]

end Pending

/-- Before any key of another pending wake the heap holds a key of the best one. The keys this
is about are stale: a live one never sorts before the best wake. -/
def NotShadowed (q : WakeQueue) : Prop :=
  ∀ best ∈ q.peek, ∀ k ∈ q.heap.keys, q.pendingIds.get? k.wakeId = some () →
    k.wakeId ≠ best.id → ∃ j ∈ q.heap.keys, j.wakeId = best.id ∧ j < k

instance (q : WakeQueue) : Decidable (NotShadowed q) := by
  unfold NotShadowed
  infer_instance

section Pop

variable {q : WakeQueue} {lives : String → Option Life}

theorem pop_none (h : Sound q lives) (hpop : q.popPending.1 = none) : q.pending = [] := by
  have hp := popPending_popped h
  rw [List.eq_nil_iff_forall_not_mem]
  intro item hm
  rw [mem_pending h] at hm
  generalize q.popPending = r at hp hpop
  cases hp with
  | none hnone heap =>
    have hno := pending_none_of_keys h hnone item.id
    rw [hno] at hm
    cases hm.1
  | some skipped k rest first split stale pending found same => cases hpop

/-- The first pending key is the best wake's exactly when no stale key shadows it. -/
theorem pop_best_iff (h : Sound q lives) (best : WakeItem) (hpeek : q.peek = some best) :
    q.popPending.1 = some best ↔ NotShadowed q := by
  obtain ⟨hbest, -⟩ := peek_least best hpeek
  rw [mem_pending h] at hbest
  have hp := popPending_popped h
  have hsorted := q.heap.sorted
  generalize q.popPending = r at hp
  cases hp with
  | none hnone heap =>
    have hno := pending_none_of_keys h hnone best.id
    rw [hno] at hbest
    cases hbest.1
  | some skipped k rest first split stale pending found same =>
    rw [split, List.pairwise_append, List.pairwise_cons] at hsorted
    have hfirst (j : WakeKey) (hj : j ∈ q.heap.keys) (hjp : q.pendingIds.get? j.wakeId = some ()) :
        j = k ∨ (j ∈ rest.keys ∧ k ≤ j) := by
      rw [split, List.mem_append, List.mem_cons] at hj
      rcases hj with hs | rfl | hr
      · have hst := stale j hs
        rw [hjp] at hst
        cases hst
      · exact Or.inl rfl
      · exact Or.inr ⟨hr, hsorted.2.1.1 j hr⟩
    have hk : k ∈ q.heap.keys := by
      rw [split]
      simp
    constructor
    · intro hsame
      cases hsame
      intro best' hb' j hj hjp hne
      rw [hpeek] at hb'
      cases hb'
      refine ⟨k, hk, same.symm, ?_⟩
      rcases hfirst j hj hjp with rfl | ⟨-, hle⟩
      · exact absurd same.symm hne
      · apply lt_of_le_of_ne hle
        intro he
        rw [← he] at hne
        exact hne same.symm
    · intro hshadow
      have hid : k.wakeId = best.id := by
        by_contra hne
        obtain ⟨j, hj, hjid, hlt⟩ := hshadow best hpeek k hk pending hne
        rcases hfirst j hj (by rw [hjid]; exact hbest.1) with rfl | ⟨-, hle⟩
        · exact absurd hlt (lt_irrefl j)
        · exact absurd hlt (not_lt_of_ge hle)
      rw [hid, hbest.2] at found
      exact congrArg some (Option.some.inj found).symm

end Pop

section Claim

variable (env : Env)

/-- A queue opened on a log. -/
def World.opened (log : ByteArray) (faults : List Bool) (q : WakeQueue) : World :=
  ⟨log, faults, 0, q⟩

/-- The claim whose append succeeds returns what `peek` reports. -/
def ClaimsPeek (w : World) : Prop :=
  ∀ momentId, momentId ≠ "" →
    ∃ w', claim env momentId { w with faults := [] } = .ok w.queue.peek w'

theorem claim_result (momentId : String) (hm : momentId ≠ "") (w : World) :
    ∃ w', claim env momentId { w with faults := [] } = .ok w.queue.popPending.1 w' := by
  rw [claim_eq env momentId hm]
  obtain ⟨item, popped⟩ := w.queue.popPending
  cases item with
  | none => exact ⟨_, rfl⟩
  | some item => exact ⟨_, rfl⟩

/-- After any calls, failing appends included, `claim` returns what `peek` reports exactly when
no stale key shadows the best pending wake, and finds nothing only when nothing is pending. -/
theorem claim_returns_peek_iff [PyCoerce] (log : ByteArray) (faults : List Bool) (q : WakeQueue)
    (hopen : openQueue log = .ok q) (calls : List Call) :
    let w := run (stepCall env) (World.opened log faults q) calls
    (ClaimsPeek env w ↔ NotShadowed w.queue) ∧
      ∀ momentId w', claim env momentId w = .ok none w' → w.queue.pending = [] := by
  intro w
  obtain ⟨lives, hq, -⟩ := sound_openQueue log q hopen
  obtain ⟨lives', h⟩ := run_sound env calls (World.opened log faults q) ⟨lives, hq⟩
  change Sound w.queue lives' at h
  constructor
  · have hpop : ClaimsPeek env w ↔ w.queue.popPending.1 = w.queue.peek := by
      constructor
      · intro hc
        obtain ⟨w₁, h₁⟩ := hc "m" (by decide)
        obtain ⟨w₂, h₂⟩ := claim_result env "m" (by decide) w
        rw [h₁] at h₂
        exact (EStateM.Result.ok.inj h₂).1.symm
      · intro he momentId hm
        rw [← he]
        exact claim_result env momentId hm w
    rw [hpop]
    cases hpeek : w.queue.peek with
    | none =>
      have hnone : w.queue.popPending.1 = none := by
        have hp := popPending_popped h
        generalize w.queue.popPending = r at hp
        cases hp with
        | none hnone heap => rfl
        | some skipped k rest first split stale pending found same =>
          have hm : first ∈ w.queue.pending := by
            rw [mem_pending h, same]
            exact ⟨pending, found⟩
          rw [peek_none_iff.mp hpeek] at hm
          cases hm
      refine ⟨fun _ => ?_, fun _ => hnone⟩
      intro best hb
      rw [hpeek] at hb
      cases hb
    | some best => exact pop_best_iff h best hpeek
  · intro momentId w' hc
    have hm : momentId ≠ "" := by
      rintro rfl
      cases hc
    apply pop_none h
    rw [claim_eq env momentId hm] at hc
    generalize w.queue.popPending = r at hc
    obtain ⟨item, popped⟩ := r
    cases item with
    | none => rfl
    | some item =>
      simp only [] at hc
      split_ifs at hc
      cases hc

end Claim

section Sample

attribute [local instance] basicCoerce

/-- A background wake that re-uses the id of a cancelled user message is claimed before a timer. -/
def shadowCalls : List Call :=
  [.enqueue "user_message" .empty (some "x") (some "2026-01-01T00:00:01Z"),
    .cancel "x" "superseded",
    .enqueue "timer" .empty (some "y") (some "2026-01-01T00:00:02Z"),
    .enqueue "background" .empty (some "x") (some "2026-01-01T00:00:03Z")]

theorem shadowed_claim_misses_peek :
    let w := run (stepCall countingEnv) (World.start []) shadowCalls
    w.queue.peek.map WakeItem.id = some "y" ∧ w.queue.popPending.1.map WakeItem.id = some "x" ∧
      ¬ ClaimsPeek countingEnv w := by
  have hpeek : (run (stepCall countingEnv) (World.start []) shadowCalls).queue.peek.map
      WakeItem.id = some "y" := by decide +kernel
  have hpop : (run (stepCall countingEnv) (World.start []) shadowCalls).queue.popPending.1.map
      WakeItem.id = some "x" := by decide +kernel
  refine ⟨hpeek, hpop, ?_⟩
  intro hc
  obtain ⟨w₁, h₁⟩ := hc "m" (by decide)
  obtain ⟨w₂, h₂⟩ := claim_result countingEnv "m" (by decide)
    (run (stepCall countingEnv) (World.start []) shadowCalls)
  rw [h₁] at h₂
  rw [(EStateM.Result.ok.inj h₂).1, hpop] at hpeek
  exact absurd hpeek (by decide)

/-- The best wake is claimed while no stale key is in the way. -/
theorem claim_returns_peek_iff_start :
    let w := run (stepCall countingEnv) (World.opened ByteArray.empty [] .empty)
      (shadowCalls.take 3)
    ClaimsPeek countingEnv w :=
  (claim_returns_peek_iff countingEnv ByteArray.empty [] .empty (by decide +kernel)
    (shadowCalls.take 3)).1.mpr (by decide +kernel)

end Sample
end Elyra.Presence
