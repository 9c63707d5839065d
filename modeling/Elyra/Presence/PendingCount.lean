import Elyra.Presence.InputDelivery

namespace Elyra.Presence

section Count

/-- The ids of the pending wakes of a kind. -/
def pendingIdsOf (q : WakeQueue) (kind : WakeKind) : List String :=
  q.pendingIds.keys.filter (fun id =>
    q.isPending id && (q.items.get? id).any (fun item => item.kind = kind))

def countOf (q : WakeQueue) (kind : WakeKind) : Nat := (pendingOfKind q kind).length

theorem length_filter_filterMap {α β : Type} (l : List α) (p : α → Bool) (g : α → Option β)
    (r : β → Bool) : (((l.filter p).filterMap g).filter r).length =
      (l.filter (fun x => p x && (g x).any r)).length := by
  induction l with
  | nil => rfl
  | cons x l ih =>
    cases hp : p x with
    | false => simpa [hp] using ih
    | true =>
      cases hg : g x with
      | none => simpa [hp, hg] using ih
      | some y =>
        cases hr : r y with
        | false => simpa [hp, hg, hr] using ih
        | true => simpa [hp, hg, hr] using ih

theorem countOf_eq (q : WakeQueue) (kind : WakeKind) :
    countOf q kind = (pendingIdsOf q kind).length := by
  rw [countOf, pendingOfKind, List.length_insertionSort, WakeQueue.pendingItems]
  exact length_filter_filterMap _ _ _ _

theorem mem_pendingIdsOf (q : WakeQueue) (kind : WakeKind) (id : String) :
    id ∈ pendingIdsOf q kind ↔
      q.isPending id = true ∧ ∃ item, q.items.get? id = some item ∧ item.kind = kind := by
  have hkeys : q.isPending id = true → id ∈ q.pendingIds.keys := by
    intro hp
    simp only [WakeQueue.isPending, Bool.and_eq_true] at hp
    obtain ⟨u, hu⟩ := Option.isSome_iff_exists.mp hp.1.1
    exact (Dict.mem_keys _ _).mpr ⟨u, hu⟩
  have hany : (q.items.get? id).any (fun item => item.kind = kind) = true ↔
      ∃ item, q.items.get? id = some item ∧ item.kind = kind := by
    simp [Option.any_eq_true]
  rw [pendingIdsOf, List.mem_filter, Bool.and_eq_true, hany]
  constructor
  · rintro ⟨-, hp, hitem⟩
    exact ⟨hp, hitem⟩
  · rintro ⟨hp, hitem⟩
    exact ⟨hkeys hp, hp, hitem⟩

theorem pendingIdsOf_nodup (q : WakeQueue) (kind : WakeKind) : (pendingIdsOf q kind).Nodup :=
  q.pendingIds.keys_nodup.filter _

theorem countOf_le {q : WakeQueue} {kind : WakeKind} {l : List String}
    (h : ∀ id ∈ pendingIdsOf q kind, id ∈ l) : countOf q kind ≤ l.length := by
  rw [countOf_eq]
  exact ((pendingIdsOf_nodup q kind).subperm h).length_le

theorem countOf_mono {q p : WakeQueue} {kind : WakeKind}
    (h : ∀ id ∈ pendingIdsOf q kind, id ∈ pendingIdsOf p kind) : countOf q kind ≤ countOf p kind := by
  rw [countOf_eq p]
  exact countOf_le h

/-- What is pending stays pending in a queue with the same items, more pending ids and the same
enqueued wakes. -/
theorem isPending_mono {q p : WakeQueue} {id : String} (h : q.isPending id = true)
    (hids : q.pendingIds.get? id ≠ none → p.pendingIds.get? id ≠ none)
    (hitems : p.items.get? id = q.items.get? id)
    (hops : q.ops.get? id = some .enqueue → p.ops.get? id = some .enqueue) :
    p.isPending id = true := by
  simp only [WakeQueue.isPending, Bool.and_eq_true, Option.isSome_iff_ne_none,
    decide_eq_true_eq] at h ⊢
  exact ⟨⟨hids h.1.1, by rw [hitems]; exact h.1.2⟩, hops h.2⟩

/-- An enqueued wake counts once, for its kind. -/
theorem countOf_putEnqueued (q : WakeQueue) (item : WakeItem) (kind : WakeKind) :
    countOf (q.putEnqueued item) kind ≤ countOf q kind + if item.kind = kind then 1 else 0 := by
  have hold : ∀ id, id ≠ item.id → id ∈ pendingIdsOf (q.putEnqueued item) kind →
      id ∈ pendingIdsOf q kind := by
    intro id hne hmem
    rw [mem_pendingIdsOf] at hmem ⊢
    obtain ⟨hp, found, hfound, hkind⟩ := hmem
    have hitems : (q.putEnqueued item).items.get? id = q.items.get? id :=
      Dict.get?_set_ne _ _ (Ne.symm hne)
    refine ⟨?_, found, hitems ▸ hfound, hkind⟩
    apply isPending_mono hp
    · intro hpending
      have hsame : (q.putEnqueued item).pendingIds.get? id = q.pendingIds.get? id :=
        Dict.get?_set_ne _ _ (Ne.symm hne)
      rwa [hsame] at hpending
    · exact hitems.symm
    · intro hop
      have hsame : (q.putEnqueued item).ops.get? id = q.ops.get? id :=
        Dict.get?_set_ne _ _ (Ne.symm hne)
      rwa [hsame] at hop
  split_ifs with hkind
  · rw [countOf_eq q]
    apply countOf_le (l := item.id :: pendingIdsOf q kind)
    intro id hmem
    by_cases hne : id = item.id
    · rw [hne]
      exact List.mem_cons_self
    · exact List.mem_cons_of_mem _ (hold id hne hmem)
  · apply countOf_mono
    intro id hmem
    by_cases hne : id = item.id
    · exfalso
      rw [mem_pendingIdsOf] at hmem
      obtain ⟨-, found, hfound, hk⟩ := hmem
      change (q.items.set item.id item).get? id = some found at hfound
      rw [hne, Dict.get?_set_self] at hfound
      obtain rfl := Option.some.inj hfound
      exact hkind hk
    · exact hold id hne hmem

theorem countOf_putTerminal (q : WakeQueue) (wakeId : String) (op : WakeOp)
    (reason : Option String) (kind : WakeKind) :
    countOf (q.putTerminal wakeId op reason) kind ≤ countOf q kind := by
  apply countOf_mono
  intro id hmem
  rw [mem_pendingIdsOf] at hmem ⊢
  obtain ⟨hp, found, hfound, hkind⟩ := hmem
  have hne : id ≠ wakeId := by
    rintro rfl
    simp [WakeQueue.isPending, WakeQueue.putTerminal, Dict.get?_pop] at hp
  refine ⟨?_, found, hfound, hkind⟩
  apply isPending_mono hp
  · simp only [WakeQueue.putTerminal, Dict.get?_pop, if_neg (Ne.symm hne)]
    exact fun h => h
  · rfl
  · intro hop
    have hsame : (q.putTerminal wakeId op reason).ops.get? id = q.ops.get? id :=
      Dict.get?_set_ne _ _ (Ne.symm hne)
    rwa [hsame] at hop

theorem countOf_putClaimed (q : WakeQueue) (wakeId momentId : String) (kind : WakeKind) :
    countOf (q.putClaimed wakeId momentId) kind ≤ countOf q kind := by
  apply countOf_mono
  intro id hmem
  rw [mem_pendingIdsOf] at hmem ⊢
  obtain ⟨hp, found, hfound, hkind⟩ := hmem
  refine ⟨?_, found, hfound, hkind⟩
  apply isPending_mono hp
  · exact fun h => h
  · rfl
  · intro hop
    change (q.ops.set wakeId .claimed).get? id = _ at hop
    rw [Dict.get?_set] at hop
    split_ifs at hop
    · cases hop
    · exact hop

/-- What a wake that is taken counts for a kind. -/
def worth (kind : WakeKind) : Option WakeItem → Nat
  | none => 0
  | some item => if item.kind = kind then 1 else 0

/-- A pop takes its wake off what is pending. -/
theorem countOf_popLoop (q : WakeQueue) (keys : List WakeKey) (sorted : keys.Pairwise (· ≤ ·))
    (kind : WakeKind) :
    countOf (q.popLoop keys sorted).2 kind + worth kind (q.popLoop keys sorted).1 ≤
      countOf q kind := by
  induction keys generalizing q with
  | nil => exact Nat.le_refl _
  | cons k keys ih =>
    -- Dropping an id that is not pending changes no count.
    have hpop : ∀ heap : Heap WakeKey,
        ∀ id ∈ pendingIdsOf { q with pendingIds := q.pendingIds.pop k.wakeId, heap := heap } kind,
          id ∈ pendingIdsOf q kind ∧ id ≠ k.wakeId := by
      intro heap id hmem
      rw [mem_pendingIdsOf] at hmem ⊢
      obtain ⟨hp, found, hfound, hkind⟩ := hmem
      have hne : id ≠ k.wakeId := by
        rintro rfl
        simp [WakeQueue.isPending, Dict.get?_pop] at hp
      refine ⟨⟨?_, found, hfound, hkind⟩, hne⟩
      apply isPending_mono hp
      · simp only [Dict.get?_pop, if_neg (Ne.symm hne)]
        exact fun h => h
      · rfl
      · exact fun h => h
    have hskip : countOf { q with pendingIds := q.pendingIds.pop k.wakeId } kind ≤
        countOf q kind := countOf_mono (fun id hmem => (hpop q.heap id hmem).1)
    rw [WakeQueue.popLoop]
    by_cases hpending : (q.pendingIds.get? k.wakeId).isNone
    · rw [if_pos hpending]
      exact ih q sorted.of_cons
    · rw [if_neg hpending]
      cases hitem : q.items.get? k.wakeId with
      | none =>
        exact (ih { q with pendingIds := q.pendingIds.pop k.wakeId } sorted.of_cons).trans hskip
      | some item =>
        simp only
        by_cases hop : q.ops.get? k.wakeId = some .enqueue
        · rw [if_pos hop]
          have hafter := hpop ⟨keys, sorted.of_cons⟩
          generalize ({ q with pendingIds := q.pendingIds.pop k.wakeId
                               heap := ⟨keys, sorted.of_cons⟩ } : WakeQueue) = p at hafter ⊢
          show countOf p kind + (if item.kind = kind then 1 else 0) ≤ countOf q kind
          by_cases hkind : item.kind = kind
          · have hin : k.wakeId ∈ pendingIdsOf q kind := by
              rw [mem_pendingIdsOf]
              refine ⟨?_, item, hitem, hkind⟩
              simp only [WakeQueue.isPending, hitem, hop, Option.isSome_some, Bool.and_true,
                decide_true]
              simpa [Option.isNone_iff_eq_none, Option.isSome_iff_ne_none] using hpending
            have hless : countOf p kind ≤ ((pendingIdsOf q kind).erase k.wakeId).length := by
              apply countOf_le
              intro id hmem
              obtain ⟨hold, hne⟩ := hafter id hmem
              exact (List.mem_erase_of_ne hne).mpr hold
            rw [List.length_erase_of_mem hin] at hless
            have hpos := List.length_pos_of_mem hin
            rw [countOf_eq q, if_pos hkind]
            omega
          · rw [if_neg hkind, add_zero]
            exact countOf_mono (fun id hmem => (hafter id hmem).1)
        · rw [if_neg hop]
          exact (ih { q with pendingIds := q.pendingIds.pop k.wakeId } sorted.of_cons).trans hskip

end Count

section Queue

variable {env : Env} {kind : WakeKind}

/-- The operation leaves at most as many pending wakes of the kind. -/
def NoMore (kind : WakeKind) {α : Type} (m : Py World α) : Prop :=
  ∀ w, countOf (after (m w)).queue kind ≤ countOf w.queue kind

theorem noMore_same {α : Type} {m : Py World α} (h : ∀ w, (after (m w)).queue = w.queue) :
    NoMore kind m := by
  intro w
  rw [h]

theorem noMore_bind {α β : Type} {m : Py World α} {f : α → Py World β} (hm : NoMore kind m)
    (hf : ∀ a, NoMore kind (f a)) : NoMore kind (m >>= f) := by
  intro w
  have hfirst := hm w
  rw [run_bind]
  cases hmw : m w with
  | error e u =>
    rw [hmw] at hfirst
    exact hfirst
  | ok a u =>
    rw [hmw] at hfirst
    exact (hf a u).trans hfirst

/-- An enqueue adds at most one, and only to its own kind. -/
theorem countOf_enqueue (k : WakeKind) (payload : Payload) (wakeId : Option String) (w : World) :
    countOf (after (enqueue env k.text payload wakeId none w)).queue kind ≤
      countOf w.queue kind + if k = kind then 1 else 0 := by
  rw [enqueue_eq env k.text k (WakeKind.ofText_text k)]
  have hkind : (newItem env k payload wakeId none w.draws).1.kind = k := rfl
  generalize newItem env k payload wakeId none w.draws = built at hkind ⊢
  obtain ⟨item, ts, n⟩ := built
  change item.kind = k at hkind
  simp only
  cases isLive (w.queue.ops.get? item.id) with
  | some existing => exact Nat.le_add_right _ _
  | none =>
    by_cases hfault : w.faults.headD false = true
    · simp only [if_pos hfault]
      exact Nat.le_add_right _ _
    · simp only [if_neg hfault]
      have hput := countOf_putEnqueued w.queue item kind
      rw [hkind] at hput
      exact hput

theorem noMore_enqueue {k : WakeKind} (hk : k ≠ kind) (payload : Payload)
    (wakeId : Option String) : NoMore kind (enqueue env k.text payload wakeId none) := by
  intro w
  have h := @countOf_enqueue env kind k payload wakeId w
  rwa [if_neg hk, add_zero] at h

theorem noMore_finishWake (wakeId : String) (op : WakeOp) (reason : Option String)
    (event : String → WakeEvent) : NoMore kind (finishWake env wakeId op reason event) := by
  intro w
  rw [finishWake_eq]
  cases w.queue.ops.get? wakeId with
  | none => exact Nat.le_refl _
  | some current =>
    simp only
    split_ifs
    · exact Nat.le_refl _
    · exact Nat.le_refl _
    · exact countOf_putTerminal w.queue wakeId op reason kind

theorem noMore_cancelAll (reason : String) (ids : List String) :
    NoMore kind (cancelAll env reason ids) := by
  induction ids with
  | nil => exact noMore_same (fun _ => rfl)
  | cons id ids ih => exact noMore_bind (noMore_finishWake _ _ _ _) (fun _ => ih)

theorem noMore_cancelAllPendingOfKind (text reason : String) :
    NoMore kind (cancelAllPendingOfKind env text reason) := by
  unfold cancelAllPendingOfKind
  cases WakeKind.ofText text with
  | none => exact noMore_same (fun _ => rfl)
  | some k =>
    apply noMore_bind (noMore_same (fun _ => rfl))
    intro q
    apply noMore_bind (noMore_same (fun _ => rfl))
    intro ids
    exact noMore_bind (noMore_cancelAll _ _) (fun _ => noMore_same (fun _ => rfl))

theorem noMore_enqueueTaskReady (hk : WakeKind.taskReady ≠ kind) (taskId : String)
    (goalId : Option String) (payload : Payload) :
    NoMore kind (enqueueTaskReady env taskId goalId payload) := by
  unfold enqueueTaskReady
  split_ifs
  · exact noMore_same (fun _ => rfl)
  · apply noMore_bind (noMore_same (fun _ => rfl))
    intro olds
    apply noMore_bind (noMore_cancelAll _ _)
    intro _
    exact noMore_enqueue hk _ _

/-- The wake a claim returned. -/
def claimedItem : EStateM.Result PyErr World (Option WakeItem) → Option WakeItem
  | .ok found _ => found
  | .error _ _ => none

/-- A claim takes its wake off what is pending. -/
theorem countOf_claim (momentId : String) (w : World) :
    countOf (after (claim env momentId w)).queue kind +
      worth kind (claimedItem (claim env momentId w)) ≤ countOf w.queue kind := by
  by_cases hm : momentId = ""
  · unfold claim
    rw [if_pos hm]
    exact Nat.le_refl _
  rw [claim_eq env momentId hm]
  have hpop : countOf w.queue.popPending.2 kind + worth kind w.queue.popPending.1 ≤
      countOf w.queue kind := countOf_popLoop w.queue w.queue.heap.keys w.queue.heap.sorted kind
  generalize w.queue.popPending = r at hpop ⊢
  obtain ⟨found, popped⟩ := r
  change countOf popped kind + worth kind found ≤ _ at hpop
  cases found with
  | none => exact hpop
  | some item =>
    by_cases hfault : w.faults.headD false = true
    · simp only [if_pos hfault]
      show countOf popped kind + 0 ≤ _
      omega
    · simp only [if_neg hfault]
      have hclaimed := countOf_putClaimed popped item.id momentId kind
      show countOf (popped.putClaimed item.id momentId) kind + worth kind (some item) ≤ _
      omega

end Queue

end Elyra.Presence
