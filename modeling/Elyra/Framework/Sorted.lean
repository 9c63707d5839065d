import Mathlib.Data.List.Sort
import Mathlib.Data.String.Basic
import Mathlib.Data.Prod.Lex

namespace Elyra

section SortBy

variable {α β : Type*} [LinearOrder β] (key : α → β)

/-- `sorted(l, key=key)`: stable and ascending. -/
def sortBy (l : List α) : List α := l.insertionSort (fun a b => key a ≤ key b)

theorem sortBy_perm (l : List α) : (sortBy key l).Perm l := List.perm_insertionSort _ l

@[simp] theorem mem_sortBy (l : List α) (a : α) : a ∈ sortBy key l ↔ a ∈ l :=
  List.mem_insertionSort _

@[simp] theorem length_sortBy (l : List α) : (sortBy key l).length = l.length :=
  List.length_insertionSort _ l

theorem pairwise_sortBy (l : List α) : (sortBy key l).Pairwise (fun a b => key a ≤ key b) := by
  have htotal : Std.Total (fun a b : α => key a ≤ key b) := ⟨fun a b => le_total (key a) (key b)⟩
  have htrans : IsTrans α (fun a b => key a ≤ key b) := ⟨fun _ _ _ => le_trans⟩
  exact List.pairwise_insertionSort _ l

/-- A sorted list of elements with distinct keys depends on its elements only. -/
theorem sortBy_congr (l m : List α) (hp : l.Perm m)
    (hinj : ∀ a ∈ l, ∀ b ∈ l, key a = key b → a = b) : sortBy key l = sortBy key m := by
  have hperm : (sortBy key l).Perm (sortBy key m) :=
    ((sortBy_perm key l).trans hp).trans (sortBy_perm key m).symm
  apply hperm.eq_of_pairwise _ (pairwise_sortBy key l) (pairwise_sortBy key m)
  intro a b ha hb hab hba
  have hal : a ∈ l := (mem_sortBy key l a).mp ha
  have hbl : b ∈ l := hp.mem_iff.mpr ((mem_sortBy key m b).mp hb)
  exact hinj a hal b hbl (le_antisymm hab hba)

/-- What the first places of a sorted list hold sorts before the rest. -/
theorem take_le_drop (l : List α) (n : Nat) (a b : α) (ha : a ∈ (sortBy key l).take n)
    (hb : b ∈ (sortBy key l).drop n) : key a ≤ key b := by
  have h := pairwise_sortBy key l
  rw [← List.take_append_drop n (sortBy key l), List.pairwise_append] at h
  exact h.2.2 a ha b hb

/-- `sorted(l, key=key, reverse=True)`: stable and descending. -/
def sortByDesc (l : List α) : List α := l.insertionSort (fun a b => key b ≤ key a)

theorem sortByDesc_perm (l : List α) : (sortByDesc key l).Perm l := List.perm_insertionSort _ l

theorem pairwise_sortByDesc (l : List α) :
    (sortByDesc key l).Pairwise (fun a b => key b ≤ key a) := by
  have htotal : Std.Total (fun a b : α => key b ≤ key a) := ⟨fun a b => le_total (key b) (key a)⟩
  have htrans : IsTrans α (fun a b => key b ≤ key a) :=
    ⟨fun _ _ _ hab hbc => le_trans hbc hab⟩
  exact List.pairwise_insertionSort _ l

end SortBy

/-- A priority heap, seen as the ascending list of the keys it holds. -/
structure Heap (α : Type*) [LinearOrder α] where
  keys : List α
  sorted : keys.Pairwise (· ≤ ·)
  deriving DecidableEq

namespace Heap

variable {α : Type*} [LinearOrder α]

def empty : Heap α := ⟨[], List.Pairwise.nil⟩

def push (h : Heap α) (k : α) : Heap α :=
  ⟨h.keys.orderedInsert (· ≤ ·) k, h.sorted.orderedInsert k h.keys⟩

instance : Membership α (Heap α) := ⟨fun h k => k ∈ h.keys⟩

theorem mem_push (h : Heap α) (k x : α) : x ∈ h.push k ↔ x = k ∨ x ∈ h := by
  show x ∈ h.keys.orderedInsert (· ≤ ·) k ↔ x = k ∨ x ∈ h.keys
  rw [List.mem_orderedInsert]

@[simp] theorem not_mem_empty (x : α) : x ∉ (empty : Heap α) := List.not_mem_nil

end Heap
end Elyra
