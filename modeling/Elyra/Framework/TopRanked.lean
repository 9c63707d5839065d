import Elyra.Framework.Sorted
import Mathlib.Data.List.Perm.Subperm

namespace Elyra

section TopRanked

variable {α β : Type*} [LinearOrder β] (rank : α → β)

/-- The first `k` by rank. -/
def topRanked (k : Nat) (l : List α) : List α := (sortBy rank l).take k

variable {rank}

theorem mem_of_topRanked {k : Nat} {l : List α} {a : α} (h : a ∈ topRanked rank k l) : a ∈ l :=
  (mem_sortBy rank l a).mp (List.mem_of_mem_take h)

theorem topRanked_take {k m : Nat} {l : List α} (h : k ≤ m) :
    (topRanked rank m l).take k = topRanked rank k l := by
  rw [topRanked, List.take_take, Nat.min_eq_left h]
  rfl

/-- The first `k` are those that fewer than `k` others rank before. -/
theorem mem_topRanked_iff {k : Nat} {l : List α} (hl : l.Nodup)
    (hinj : ∀ a ∈ l, ∀ b ∈ l, rank a = rank b → a = b) {a : α} (ha : a ∈ l) :
    a ∈ topRanked rank k l ↔ l.countP (fun b => rank b < rank a) < k := by
  have hperm := sortBy_perm rank l
  obtain ⟨before, behind, hsplit⟩ := List.append_of_mem ((mem_sortBy rank l a).mpr ha)
  have hnodup : (before ++ a :: behind).Nodup := by
    rw [← hsplit]
    exact hperm.nodup_iff.mpr hl
  have hsorted := pairwise_sortBy rank l
  rw [hsplit] at hsorted
  obtain ⟨-, htail, hacross⟩ := List.pairwise_append.mp hsorted
  have hapart := (List.nodup_append.mp hnodup).2.2
  have hbefore : before.countP (fun b => rank b < rank a) = before.length := by
    rw [List.countP_eq_length]
    intro b hb
    have hbl : b ∈ l := (mem_sortBy rank l b).mp (by rw [hsplit]; simp [hb])
    have hne : rank b ≠ rank a := fun heq =>
      hapart b hb a List.mem_cons_self (hinj b hbl a ha heq)
    simpa using lt_of_le_of_ne (hacross b hb a List.mem_cons_self) hne
  have hbehind : (a :: behind).countP (fun b => rank b < rank a) = 0 := by
    rw [List.countP_eq_zero]
    intro b hb
    obtain rfl | hb := List.mem_cons.mp hb
    · simp
    · simpa using (List.pairwise_cons.mp htail).1 b hb
  have hcount : l.countP (fun b => rank b < rank a) = before.length := by
    rw [← hperm.countP_eq, hsplit, List.countP_append, hbefore, hbehind, Nat.add_zero]
  rw [hcount, topRanked, hsplit, List.take_append, List.mem_append]
  constructor
  · rintro (hin | hin)
    · exact absurd rfl (hapart a (List.mem_of_mem_take hin) a List.mem_cons_self)
    · by_contra hlong
      rw [Nat.sub_eq_zero_of_le (Nat.le_of_not_lt hlong), List.take_zero] at hin
      cases hin
  · intro hshort
    obtain ⟨n, hn⟩ : ∃ n, k - before.length = n + 1 := ⟨k - before.length - 1, by omega⟩
    right
    rw [hn, List.take_succ_cons]
    exact List.mem_cons_self

variable [DecidableEq α]

/-- Sorting a part of a list keeps the order of the whole. -/
theorem sortBy_part {l part : List α} (hl : l.Nodup) (hpart : part.Nodup)
    (hsub : ∀ a ∈ part, a ∈ l) (hinj : ∀ a ∈ l, ∀ b ∈ l, rank a = rank b → a = b) :
    sortBy rank part = (sortBy rank l).filter (· ∈ part) := by
  have hsorted : (sortBy rank l).Nodup := (sortBy_perm rank l).nodup_iff.mpr hl
  have hperm : (sortBy rank part).Perm ((sortBy rank l).filter (· ∈ part)) := by
    apply (sortBy_perm rank part).trans
    rw [List.perm_ext_iff_of_nodup hpart (hsorted.filter _)]
    intro a
    simp only [List.mem_filter, mem_sortBy, decide_eq_true_eq]
    exact ⟨fun h => ⟨hsub a h, h⟩, fun h => h.2⟩
  apply hperm.eq_of_pairwise _ (pairwise_sortBy rank part)
    ((pairwise_sortBy rank l).sublist List.filter_sublist)
  intro a b ha hb hab hba
  have hal : a ∈ l := hsub a ((mem_sortBy rank part a).mp ha)
  have hbl : b ∈ l := (mem_sortBy rank l b).mp (List.mem_of_mem_filter hb)
  exact hinj a hal b hbl (le_antisymm hab hba)

/-- A part of a list that holds its first `k` has the same first `k`. -/
theorem topRanked_part {k : Nat} {l part : List α} (hl : l.Nodup) (hpart : part.Nodup)
    (hsub : ∀ a ∈ part, a ∈ l) (hinj : ∀ a ∈ l, ∀ b ∈ l, rank a = rank b → a = b)
    (htop : ∀ a ∈ topRanked rank k l, a ∈ part) :
    topRanked rank k part = topRanked rank k l := by
  have hsplit : (sortBy rank l).filter (· ∈ part) =
      topRanked rank k l ++ ((sortBy rank l).drop k).filter (· ∈ part) := by
    conv_lhs => rw [← List.take_append_drop k (sortBy rank l), List.filter_append]
    congr 1
    apply List.filter_eq_self.mpr
    intro a ha
    exact decide_eq_true (htop a ha)
  rw [topRanked, sortBy_part hl hpart hsub hinj, hsplit]
  obtain hlen | hlen := Nat.le_total k (sortBy rank l).length
  · apply List.take_left'
    rw [topRanked, List.length_take, Nat.min_eq_left hlen]
  · have hdrop : (sortBy rank l).drop k = [] := List.drop_of_length_le hlen
    rw [hdrop, List.filter_nil, List.append_nil, topRanked, List.take_take, Nat.min_self]

end TopRanked

section Nearest

variable {α β : Type*} [LinearOrder β]

/-- An answer of `n` items, or of all when there are fewer, such that no item left out is greater
than one of it. -/
structure Nearest (near : α → β) (n : Nat) (all part : List α) : Prop where
  nodup : part.Nodup
  subset : ∀ a ∈ part, a ∈ all
  length : part.length = min n all.length
  best : ∀ a ∈ part, ∀ b ∈ all, b ∉ part → near b ≤ near a

variable {near : α → β} {n : Nat} {all part : List α} {p : α}

theorem exists_nearest (near : α → β) (n : Nat) (hall : all.Nodup) :
    ∃ part, Nearest near n all part := by
  have hperm := sortBy_perm (fun a => OrderDual.toDual (near a)) all
  refine ⟨(sortBy (fun a => OrderDual.toDual (near a)) all).take n, ⟨?_, ?_, ?_, ?_⟩⟩
  · exact (hperm.nodup_iff.mpr hall).sublist (List.take_sublist _ _)
  · exact fun a ha => (mem_sortBy _ _ a).mp (List.mem_of_mem_take ha)
  · rw [List.length_take, length_sortBy]
  · intro a ha b hb hout
    have hsorted := (mem_sortBy (fun a => OrderDual.toDual (near a)) _ b).mpr hb
    rw [← List.take_append_drop n (sortBy _ _), List.mem_append] at hsorted
    exact take_le_drop (fun a => OrderDual.toDual (near a)) _ n a b ha (hsorted.resolve_left hout)

variable [DecidableEq α]

/-- The other items that are at least as near. -/
def rivals (near : α → β) (all : List α) (p : α) : List α :=
  all.filter fun a => a ≠ p ∧ near p ≤ near a

theorem Nearest.holds_of_rivals (h : Nearest near n all part) (hp : p ∈ all)
    (hfew : (rivals near all p).length < n) : p ∈ part := by
  by_contra hout
  have hrivals : part.length ≤ (rivals near all p).length := by
    apply List.Subperm.length_le
    apply List.subperm_of_subset h.nodup
    intro a ha
    have hne : a ≠ p := fun heq => hout (heq ▸ ha)
    exact List.mem_filter.mpr ⟨h.subset a ha, decide_eq_true ⟨hne, h.best a ha p hp hout⟩⟩
  have hall : (p :: part).length ≤ all.length := by
    apply List.Subperm.length_le
    apply List.subperm_of_subset (List.nodup_cons.mpr ⟨hout, h.nodup⟩)
    intro a ha
    obtain rfl | ha := List.mem_cons.mp ha
    · exact hp
    · exact h.subset a ha
  rw [List.length_cons] at hall
  have := h.length
  omega

/-- With `n` rivals some answer leaves the item out. -/
theorem exists_nearest_without (hall : all.Nodup) (hmany : n ≤ (rivals near all p).length) :
    ∃ part, Nearest near n all part ∧ p ∉ part := by
  have hmem (a : α) (ha : a ∈ sortBy (fun a => OrderDual.toDual (near a)) (rivals near all p)) :
      a ∈ all ∧ a ≠ p ∧ near p ≤ near a := by
    rw [mem_sortBy, rivals, List.mem_filter, decide_eq_true_eq] at ha
    exact ha
  have hperm := sortBy_perm (fun a => OrderDual.toDual (near a)) (rivals near all p)
  refine ⟨(sortBy (fun a => OrderDual.toDual (near a)) (rivals near all p)).take n, ⟨?_, ?_, ?_, ?_⟩,
    fun hin => (hmem p (List.mem_of_mem_take hin)).2.1 rfl⟩
  · exact (hperm.nodup_iff.mpr (hall.filter _)).sublist (List.take_sublist _ _)
  · exact fun a ha => (hmem a (List.mem_of_mem_take ha)).1
  · have hless : (rivals near all p).length ≤ all.length := List.length_filter_le _ _
    rw [List.length_take, length_sortBy]
    omega
  · intro a ha b hb hout
    have hnear := (hmem a (List.mem_of_mem_take ha)).2.2
    by_cases hrival : b ∈ rivals near all p
    · have hdrop : b ∈ (sortBy (fun a => OrderDual.toDual (near a)) (rivals near all p)).drop n := by
        have hsorted := (mem_sortBy (fun a => OrderDual.toDual (near a)) _ b).mpr hrival
        rw [← List.take_append_drop n (sortBy _ _), List.mem_append] at hsorted
        exact hsorted.resolve_left hout
      exact take_le_drop (fun a => OrderDual.toDual (near a)) _ n a b ha hdrop
    · rw [rivals, List.mem_filter, decide_eq_true_eq] at hrival
      by_cases hp : b = p
      · rw [hp]
        exact hnear
      · have hfar : ¬near p ≤ near b := fun hle => hrival ⟨hb, hp, hle⟩
        exact le_trans (le_of_lt (not_le.mp hfar)) hnear

/-- Every answer holds the item exactly when fewer than `n` others are as near. -/
theorem always_nearest_iff (hall : all.Nodup) (hp : p ∈ all) :
    (∀ part, Nearest near n all part → p ∈ part) ↔ (rivals near all p).length < n := by
  constructor
  · intro h
    by_contra hmany
    obtain ⟨part, hpart, hout⟩ := exists_nearest_without hall (Nat.le_of_not_lt hmany)
    exact hout (h part hpart)
  · intro hfew part hpart
    exact hpart.holds_of_rivals hp hfew

end Nearest
end Elyra
