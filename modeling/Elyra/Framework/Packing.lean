import Mathlib.Algebra.BigOperators.Group.List.Basic
import Mathlib.Algebra.Order.BigOperators.Group.List
import Mathlib.Tactic.Common

namespace Elyra

/-- `l[-n:]` for a positive `n`. -/
def lastN {α : Type*} (n : Nat) (l : List α) : List α := l.drop (l.length - n)

section LastN

variable {α : Type*} {n : Nat} {l : List α}

theorem lastN_zero : lastN 0 l = [] := by
  rw [lastN, Nat.sub_zero, List.drop_length]

theorem reverse_lastN : (lastN n l).reverse = l.reverse.take n := by
  rw [lastN, List.reverse_drop]
  by_cases h : n ≤ l.length
  · congr 1
    omega
  · have hlen : l.reverse.length = l.length := List.length_reverse
    rw [List.take_of_length_le (by omega), List.take_of_length_le (by omega)]

theorem lastN_min : lastN (min n l.length) l = lastN n l := by
  rw [lastN, lastN]
  congr 1
  omega

end LastN

/-- Items in order under a cap: one is kept when it fits in what is left, and left out only when it
does not. -/
inductive Packs {α M : Type*} [Add M] [LE M] [LT M] (cost : α → M) (cap : M) :
    M → List α → List α → Prop
  | nil {used : M} : Packs cost cap used [] []
  | keep {used : M} {a : α} {items kept : List α} (hfits : used + cost a ≤ cap)
      (hrest : Packs cost cap (used + cost a) items kept) :
      Packs cost cap used (a :: items) (a :: kept)
  | skip {used : M} {a : α} {items kept : List α} (hover : cap < used + cost a)
      (hrest : Packs cost cap used items kept) : Packs cost cap used (a :: items) kept

namespace Packs

variable {α M : Type*} [AddCommMonoid M] [LinearOrder M] {cost : α → M}
  {cap used : M} {items kept : List α}

theorem sublist (h : Packs cost cap used items kept) : kept.Sublist items := by
  induction h with
  | nil => exact List.Sublist.slnil
  | keep _ _ ih => exact ih.cons_cons _
  | skip _ _ ih => exact ih.cons _

theorem total_le (h : Packs cost cap used items kept) (hused : used ≤ cap) :
    used + (kept.map cost).sum ≤ cap := by
  induction h with
  | nil => simpa using hused
  | keep hfits _ ih =>
    rw [List.map_cons, List.sum_cons, ← add_assoc]
    exact ih hfits
  | skip _ _ ih => exact ih hused

/-- Items at the front that fit together are all kept. -/
theorem front [IsOrderedAddMonoid M] (hcost : ∀ a, 0 ≤ cost a) {first rest : List α}
    (h : Packs cost cap used (first ++ rest) kept) (hfits : used + (first.map cost).sum ≤ cap) :
    first <+: kept := by
  induction first generalizing used kept with
  | nil => exact List.nil_prefix
  | cons a first ih =>
    have hnonneg : 0 ≤ (first.map cost).sum := by
      apply List.sum_nonneg
      intro c hc
      obtain ⟨x, -, rfl⟩ := List.mem_map.mp hc
      exact hcost x
    rw [List.map_cons, List.sum_cons, ← add_assoc] at hfits
    cases h with
    | keep _ hrest => exact List.cons_prefix_cons.mpr ⟨rfl, ih hrest hfits⟩
    | skip hover _ => exact absurd (le_trans (le_add_of_nonneg_right hnonneg) hfits) (not_le.mpr hover)

end Packs
end Elyra
