import Mathlib.Data.List.Basic
import Mathlib.Data.List.Nodup

namespace Elyra

section Linked

variable {α ι : Type*} (id : α → ι) (prev next : α → Option ι)

/-- Rows in order, each naming the row before it and the row after it. -/
def Linked : Option ι → List α → Prop
  | _, [] => True
  | before, [a] => prev a = before ∧ next a = none
  | before, a :: b :: rest => prev a = before ∧ next a = some (id b) ∧ Linked (some (id a)) (b :: rest)

variable {id prev next}

theorem Linked.head_prev {before : Option ι} {a : α} {rest : List α}
    (h : Linked id prev next before (a :: rest)) : prev a = before := by
  cases rest with
  | nil => exact h.1
  | cons b rest => exact h.1

theorem Linked.tail {before : Option ι} {a : α} {rest : List α}
    (h : Linked id prev next before (a :: rest)) : Linked id prev next (some (id a)) rest := by
  cases rest with
  | nil => trivial
  | cons b rest => exact h.2.2

/-- A new row after the last one, which now names it. -/
theorem Linked.snoc {before : Option ι} {l : List α} {a a' b : α}
    (h : Linked id prev next before (l ++ [a])) (hid : id a' = id a) (hprev : prev a' = prev a)
    (hnext : next a' = some (id b)) (hback : prev b = some (id a)) (hopen : next b = none) :
    Linked id prev next before (l ++ [a', b]) := by
  induction l generalizing before with
  | nil => exact ⟨hprev.trans h.1, hnext, hback.trans (by rw [hid]), hopen⟩
  | cons c l ih =>
    have hrest := ih h.tail
    cases l with
    | nil => exact ⟨h.1, h.2.1.trans (by rw [hid]), hrest⟩
    | cons d l => exact ⟨h.1, h.2.1, hrest⟩

end Linked
end Elyra
