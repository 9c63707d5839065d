import Mathlib.Data.List.Pairwise
import Mathlib.Data.List.Perm.Subperm
import Mathlib.Data.Prod.Lex

namespace Elyra

section TwoOrders

variable {α β γ : Type*} [LinearOrder β] [LinearOrder γ] {f : α → β} {g : α → γ} {l m : List α}

/-- The elements by ascending key. -/
def Ascending (f : α → β) (l : List α) : Prop := l.Pairwise fun x y => f x < f y

theorem Ascending.nodup (h : Ascending f l) : l.Nodup := by
  refine List.Pairwise.imp ?_ h
  rintro x y hlt rfl
  exact absurd hlt (lt_irrefl _)

theorem Ascending.take (h : Ascending f l) (n : Nat) : Ascending f (l.take n) :=
  List.Pairwise.sublist (List.take_sublist n l) h

/-- What comes before an element of a first part is in that part. -/
theorem Ascending.mem_take (h : Ascending f l) {n : Nat} {x y : α} (hx : x ∈ l.take n)
    (hy : y ∈ l) (hlt : f y < f x) : y ∈ l.take n := by
  rw [← List.take_append_drop n l, List.mem_append] at hy
  refine hy.resolve_right fun hlater => ?_
  rw [Ascending, ← List.take_append_drop n l, List.pairwise_append] at h
  exact lt_asymm hlt (h.2.2 x hx y hlater)

theorem Ascending.lt_or_lt (h : Ascending f l) {x y : α} (hx : x ∈ l) (hy : y ∈ l) (hne : x ≠ y) :
    f x < f y ∨ f y < f x := by
  have hsymm : Std.Symm fun x y => f x < f y ∨ f y < f x := ⟨fun _ _ hor => hor.symm⟩
  have hall : l.Pairwise fun x y => f x < f y ∨ f y < f x := List.Pairwise.imp Or.inl h
  exact hall.forall hx hy hne

/-- Two orders of one list agree. -/
theorem Ascending.agree (hf : Ascending f l) (hg : Ascending g l) {x y : α} (hx : x ∈ l)
    (hy : y ∈ l) (hlt : f y < f x) : g y < g x := by
  have hsymm : Std.Symm fun x y => f x < f y ∧ g x < g y ∨ f y < f x ∧ g y < g x :=
    ⟨fun _ _ hor => hor.symm⟩
  have hboth : l.Pairwise fun x y => f x < f y ∧ g x < g y ∨ f y < f x ∧ g y < g x :=
    List.Pairwise.imp Or.inl (List.Pairwise.and hf hg)
  have hne : y ≠ x := by
    rintro rfl
    exact absurd hlt (lt_irrefl _)
  obtain hsame | hcross := hboth.forall hy hx hne
  · exact hsame.2
  · exact absurd hlt (lt_asymm hcross.1)

/-- A list by ascending key that holds what comes before its elements is a first part. -/
theorem Ascending.take_eq (hl : Ascending f l) (hm : Ascending f m) (hsub : ∀ x ∈ m, x ∈ l)
    (hclosed : ∀ x ∈ m, ∀ y ∈ l, f y < f x → y ∈ m) : l.take m.length = m := by
  induction l generalizing m with
  | nil =>
    cases m with
    | nil => rfl
    | cons x m => exact absurd (hsub x List.mem_cons_self) List.not_mem_nil
  | cons a l ih =>
    cases m with
    | nil => rfl
    | cons x m =>
      obtain ⟨ha, hrest⟩ := List.pairwise_cons.mp hl
      obtain ⟨hx, hm⟩ := List.pairwise_cons.mp hm
      have heq : x = a := by
        by_contra hne
        have hlater : x ∈ l := (List.mem_cons.mp (hsub x List.mem_cons_self)).resolve_left hne
        have hbefore := ha x hlater
        have hmem := hclosed x List.mem_cons_self a List.mem_cons_self hbefore
        have hbehind : a ∈ m := (List.mem_cons.mp hmem).resolve_left (Ne.symm hne)
        exact lt_asymm hbefore (hx a hbehind)
      subst heq
      have hsub' : ∀ y ∈ m, y ∈ l := by
        intro y hy
        refine (List.mem_cons.mp (hsub y (List.mem_cons_of_mem _ hy))).resolve_left ?_
        rintro rfl
        exact absurd (hx y hy) (lt_irrefl _)
      have hclosed' : ∀ y ∈ m, ∀ z ∈ l, f z < f y → z ∈ m := by
        intro y hy z hz hlt
        have hmem := hclosed y (List.mem_cons_of_mem _ hy) z (List.mem_cons_of_mem _ hz) hlt
        refine (List.mem_cons.mp hmem).resolve_left ?_
        rintro rfl
        exact absurd (ha z hz) (lt_irrefl _)
      rw [List.length_cons, List.take_succ_cons, ih hrest hm hsub' hclosed']

/-- The first elements of two lists, each by its own key, are the same. -/
theorem take_eq_take_iff (hl : Ascending f l) (hm : Ascending g m) (n : Nat) :
    l.take n = m.take n ↔
      (∀ x ∈ m.take n, x ∈ l ∧ ∀ y ∈ l, f y < f x → y ∈ m ∧ g y < g x) ∧
        ((m.take n).length < n → ∀ y ∈ l, y ∈ m.take n) := by
  constructor
  · intro heq
    have hboth : Ascending f (m.take n) := heq ▸ hl.take n
    refine ⟨fun x hx => ⟨List.mem_of_mem_take (heq ▸ hx), fun y hy hlt => ?_⟩,
      fun hshort y hy => ?_⟩
    · have hyTake : y ∈ m.take n := heq ▸ hl.mem_take (heq.symm ▸ hx) hy hlt
      exact ⟨List.mem_of_mem_take hyTake, hboth.agree (hm.take n) hx hyTake hlt⟩
    · rw [← heq] at hshort ⊢
      rw [List.length_take] at hshort
      rwa [List.take_of_length_le (by omega)]
  · rintro ⟨hfirst, hall⟩
    have hsub : ∀ x ∈ m.take n, x ∈ l := fun x hx => (hfirst x hx).1
    have hascending : Ascending f (m.take n) := by
      refine List.Pairwise.imp_of_mem ?_ (hm.take n)
      intro x y hx hy hlt
      have hne : x ≠ y := by
        rintro rfl
        exact absurd hlt (lt_irrefl _)
      refine (hl.lt_or_lt (hsub x hx) (hsub y hy) hne).resolve_right fun hback => ?_
      exact lt_asymm hlt ((hfirst x hx).2 y (hsub y hy) hback).2
    have hclosed : ∀ x ∈ m.take n, ∀ y ∈ l, f y < f x → y ∈ m.take n := by
      intro x hx y hy hlt
      obtain ⟨hmem, hbefore⟩ := (hfirst x hx).2 y hy hlt
      exact hm.mem_take hx hmem hbefore
    have hprefix := hl.take_eq hascending hsub hclosed
    by_cases hshort : (m.take n).length < n
    · have hlength : l.length ≤ (m.take n).length :=
        (List.subperm_of_subset hl.nodup (hall hshort)).length_le
      rw [List.take_of_length_le hlength] at hprefix
      rw [List.take_of_length_le (by omega)]
      exact hprefix
    · have hfull : (m.take n).length = n :=
        le_antisymm (by rw [List.length_take]; exact Nat.min_le_left _ _) (not_lt.mp hshort)
      rwa [hfull] at hprefix

/-- Two lists, each by its own key, are the same. -/
theorem eq_iff_of_ascending (hl : Ascending f l) (hm : Ascending g m) :
    l = m ↔ (∀ x ∈ m, x ∈ l ∧ ∀ y ∈ l, f y < f x → g y < g x) ∧ ∀ y ∈ l, y ∈ m := by
  have hlarge := take_eq_take_iff hl hm (l.length + m.length + 1)
  rw [List.take_of_length_le (by omega), List.take_of_length_le (by omega)] at hlarge
  rw [hlarge]
  have hshort : m.length < l.length + m.length + 1 := by omega
  constructor
  · rintro ⟨hfirst, hall⟩
    exact ⟨fun x hx => ⟨(hfirst x hx).1, fun y hy hlt => ((hfirst x hx).2 y hy hlt).2⟩,
      hall hshort⟩
  · rintro ⟨hfirst, hall⟩
    exact ⟨fun x hx => ⟨(hfirst x hx).1, fun y hy hlt => ⟨hall y hy, (hfirst x hx).2 y hy hlt⟩⟩,
      fun _ => hall⟩

end TwoOrders

end Elyra
