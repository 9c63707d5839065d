import Mathlib.Data.Set.Insert
import Mathlib.Logic.Relation

namespace Elyra

/-- What is recorded of one message source: it waits, it fired under a message id, or it was
withdrawn before it fired. -/
inductive Slot (ι : Type*) where
  | waiting
  | fired (id : ι)
  | withdrawn
  deriving DecidableEq

/-- A table of sources, and the messages sent so far with their sources (none: someone else's).
A source is marked as fired with the id of its message before the message is sent. -/
structure Outbox (κ ι : Type*) where
  slots : κ → Option (Slot ι)
  sent : List (Option κ × ι)

namespace Outbox

section Steps

variable {κ ι : Type*} [DecidableEq κ] [DecidableEq ι]

/-- A message bears the id, or a source fired under it. -/
def InUse (s : Outbox κ ι) (id : ι) : Prop :=
  id ∈ s.sent.map Prod.snd ∨ ∃ k, s.slots k = some (.fired id)

/-- One step; a source is installed where `P` allows it. -/
inductive Step (P : κ → Prop) (s s' : Outbox κ ι) : Prop
  | skip (slots : s'.slots = s.slots) (sent : s'.sent = s.sent)
  | post (id : ι) (fresh : ¬s.InUse id) (slots : s'.slots = s.slots)
      (sent : s'.sent = s.sent ++ [(none, id)])
  | install (k : κ) (allowed : P k) (slots : s'.slots = Function.update s.slots k (some .waiting))
      (sent : s'.sent = s.sent)
  | withdraw (k : κ) (waiting : s.slots k = some .waiting)
      (slots : s'.slots = Function.update s.slots k (some .withdrawn)) (sent : s'.sent = s.sent)
  | mark (k : κ) (id : ι) (waiting : s.slots k = some .waiting) (fresh : ¬s.InUse id)
      (slots : s'.slots = Function.update s.slots k (some (.fired id))) (sent : s'.sent = s.sent)
  | send (k : κ) (id : ι) (fired : s.slots k = some (.fired id))
      (unsent : id ∉ s.sent.map Prod.snd) (slots : s'.slots = s.slots)
      (sent : s'.sent = s.sent ++ [(some k, id)])

/-- No two sources fired under one id. -/
def Distinct (s : Outbox κ ι) : Prop :=
  ∀ j k id, s.slots j = some (.fired id) → s.slots k = some (.fired id) → j = k

/-- How many messages of a source were sent. -/
def count (s : Outbox κ ι) (k : κ) : Nat := s.sent.countP (fun p => p.1 = some k)

/-- One when the source has fired and its message was sent. -/
def landed (s : Outbox κ ι) (k : κ) : Nat :=
  match s.slots k with
  | some (.fired id) => if id ∈ s.sent.map Prod.snd then 1 else 0
  | _ => 0

omit [DecidableEq κ] in
theorem landed_le_one (s : Outbox κ ι) (k : κ) : s.landed k ≤ 1 := by
  unfold landed
  split
  · split_ifs <;> omega
  · omega

omit [DecidableEq ι] in
theorem update_slot (slots : κ → Option (Slot ι)) (j k : κ) (x : Slot ι) :
    Function.update slots j (some x) k = if j = k then some x else slots k := by
  by_cases h : j = k
  · subst h
    simp
  · rw [Function.update_of_ne (Ne.symm h), if_neg h]

omit [DecidableEq ι] in
theorem Distinct.step {P : κ → Prop} {s s' : Outbox κ ι} (h : Distinct s) (hs : Step P s s') :
    Distinct s' := by
  have same (slots : s'.slots = s.slots) : Distinct s' := by
    unfold Distinct
    rw [slots]
    exact h
  -- installing or withdrawing leaves no new fired slot
  have clear (k : κ) (x : Slot ι) (hx : ∀ id, x ≠ .fired id)
      (slots : s'.slots = Function.update s.slots k (some x)) : Distinct s' := by
    have old (j : κ) (id : ι) (hj : s'.slots j = some (.fired id)) :
        s.slots j = some (.fired id) := by
      rw [slots, update_slot] at hj
      split_ifs at hj
      · exact absurd (Option.some.inj hj) (hx id)
      · exact hj
    intro i j id hi hj
    exact h i j id (old i id hi) (old j id hj)
  cases hs with
  | skip slots sent => exact same slots
  | post id fresh slots sent => exact same slots
  | install k allowed slots sent => exact clear k .waiting (fun _ hid => nomatch hid) slots
  | withdraw k waiting slots sent => exact clear k .withdrawn (fun _ hid => nomatch hid) slots
  | mark k id waiting fresh slots sent =>
    have split (j : κ) (x : ι) (hj : s'.slots j = some (.fired x)) :
        k = j ∧ x = id ∨ s.slots j = some (.fired x) := by
      rw [slots, update_slot] at hj
      split_ifs at hj with hkj
      · cases hj
        exact Or.inl ⟨hkj, rfl⟩
      · exact Or.inr hj
    intro i j x hi hj
    obtain ⟨hki, hx⟩ | hold := split i x hi
    · obtain ⟨hkj, -⟩ | hold := split j x hj
      · exact hki.symm.trans hkj
      · rw [hx] at hold
        exact absurd (.inr ⟨j, hold⟩) fresh
    · obtain ⟨-, hx⟩ | hold' := split j x hj
      · rw [hx] at hold
        exact absurd (.inr ⟨i, hold⟩) fresh
      · exact h i j x hold hold'
  | send k id fired unsent slots sent => exact same slots

omit [DecidableEq κ] in
theorem landed_congr {s s' : Outbox κ ι} (k : κ) (slots : s'.slots k = s.slots k)
    (sent : s'.sent = s.sent) : s'.landed k = s.landed k := by
  unfold landed
  rw [slots, sent]

omit [DecidableEq κ] in
theorem landed_idle {s : Outbox κ ι} {k : κ} (h : ∀ id, s.slots k ≠ some (.fired id)) :
    s.landed k = 0 := by
  unfold landed
  split
  · exact absurd ‹_› (h _)
  · rfl

omit [DecidableEq κ] in
/-- A message under another id than the source's own is not the one it waits for. -/
theorem landed_added {s s' : Outbox κ ι} {k : κ} {source : Option κ} {id : ι}
    (slots : s'.slots = s.slots) (sent : s'.sent = s.sent ++ [(source, id)])
    (hne : s.slots k ≠ some (.fired id)) : s'.landed k = s.landed k := by
  unfold landed
  rw [slots, sent]
  cases hslot : s.slots k with
  | none => rfl
  | some x =>
    cases x with
    | waiting | withdrawn => rfl
    | fired x =>
      have hx : x ≠ id := by
        intro h
        rw [h] at hslot
        exact hne hslot
      have hmem : x ∈ (s.sent ++ [(source, id)]).map Prod.snd ↔ x ∈ s.sent.map Prod.snd := by
        simp [hx]
      simp only [hmem]

/-- A step sends a message of a source exactly when the source's firing lands, unless it installs
the source anew. -/
theorem Step.balanced {P : κ → Prop} {s s' : Outbox κ ι} (hs : Step P s s') (hd : Distinct s)
    {k : κ} (hk : P k → s.landed k = 0) :
    s'.count k + s.landed k = s.count k + s'.landed k := by
  have count_same (sent : s'.sent = s.sent) : s'.count k = s.count k := by
    unfold Outbox.count
    rw [sent]
  have count_added (source : Option κ) (id : ι) (hsource : source ≠ some k)
      (sent : s'.sent = s.sent ++ [(source, id)]) : s'.count k = s.count k := by
    unfold Outbox.count
    rw [sent, List.countP_append]
    simp [hsource]
  have other (j : κ) (x : Slot ι) (hj : j ≠ k)
      (slots : s'.slots = Function.update s.slots j (some x)) (sent : s'.sent = s.sent) :
      s'.count k + s.landed k = s.count k + s'.landed k := by
    have hsame : s'.slots k = s.slots k := by
      rw [slots, update_slot, if_neg hj]
    rw [count_same sent, landed_congr k hsame sent]
  -- a slot that waits or was withdrawn has no landed message
  have idle (x : Slot ι) (slots : s'.slots k = some x) (hx : ∀ id, x = .fired id → ¬s.InUse id)
      (hbefore : s.landed k = 0) (sent : s'.sent = s.sent) :
      s'.count k + s.landed k = s.count k + s'.landed k := by
    have hafter : s'.landed k = 0 := by
      unfold landed
      rw [slots]
      cases x with
      | waiting | withdrawn => rfl
      | fired id =>
        rw [sent]
        simp only []
        rw [if_neg]
        intro hm
        exact hx id rfl (.inl hm)
    rw [count_same sent, hbefore, hafter]
  have waits (waiting : s.slots k = some .waiting) : s.landed k = 0 := by
    apply landed_idle
    intro id hid
    rw [waiting] at hid
    cases hid
  cases hs with
  | skip slots sent => rw [count_same sent, landed_congr k (by rw [slots]) sent]
  | post id fresh slots sent =>
    rw [count_added none id (by simp) sent, landed_added slots sent]
    intro hfired
    exact fresh (.inr ⟨k, hfired⟩)
  | install j allowed slots sent =>
    by_cases hj : j = k
    · subst hj
      refine idle .waiting ?_ ?_ (hk allowed) sent
      · rw [slots, update_slot, if_pos rfl]
      · intro id hid
        cases hid
    · exact other j _ hj slots sent
  | withdraw j waiting slots sent =>
    by_cases hj : j = k
    · subst hj
      refine idle .withdrawn ?_ ?_ (waits waiting) sent
      · rw [slots, update_slot, if_pos rfl]
      · intro id hid
        cases hid
    · exact other j _ hj slots sent
  | mark j id waiting fresh slots sent =>
    by_cases hj : j = k
    · subst hj
      refine idle (.fired id) ?_ ?_ (waits waiting) sent
      · rw [slots, update_slot, if_pos rfl]
      · intro x hx
        cases hx
        exact fresh
    · exact other j _ hj slots sent
  | send j id fired unsent slots sent =>
    by_cases hj : j = k
    · subst hj
      have hbefore : s.landed j = 0 := by
        unfold landed
        rw [fired]
        exact if_neg unsent
      have hafter : s'.landed j = 1 := by
        unfold landed
        rw [slots, fired, sent]
        simp
      have hcount : s'.count j = s.count j + 1 := by
        unfold Outbox.count
        rw [sent, List.countP_append]
        simp
      rw [hbefore, hafter, hcount]
    · rw [count_added (some j) id (by simpa using hj) sent, landed_added slots sent]
      intro hfired
      exact hj (hd j k id fired hfired)

/-- Every message of a source comes from its present firing. -/
def Once (s : Outbox κ ι) : Prop := ∀ k, s.count k = s.landed k

/-- Where only idle sources are installed no source sends twice. -/
theorem Once.step {P : κ → Prop} {s s' : Outbox κ ι} (h : Once s)
    (hk : ∀ k, P k → s.landed k = 0) (hd : Distinct s) (hs : Step P s s') : Once s' := by
  intro k
  have hbalanced := hs.balanced hd (hk k)
  have hcount := h k
  omega

end Steps
end Outbox
end Elyra
