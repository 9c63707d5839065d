import Mathlib.Data.List.Basic
import Mathlib.Logic.Function.Iterate
import Mathlib.Tactic.Common

namespace Elyra

section Backlog

variable {α : Type*} (window : Nat) (stuck : α → Bool)

/-- One round over a backlog: of the first `window` items only the stuck ones stay. -/
def advance (l : List α) : List α := (l.take window).filter stuck ++ l.drop window

variable {window stuck} {l : List α}

theorem advance_sublist : (advance window stuck l).Sublist l := by
  have h := (List.filter_sublist (p := stuck) (l := l.take window)).append
    (List.Sublist.refl (l.drop window))
  rwa [List.take_append_drop] at h

theorem iterate_advance_sublist (n : Nat) : ((advance window stuck)^[n] l).Sublist l := by
  induction n generalizing l with
  | zero => exact List.Sublist.refl l
  | succ n ih =>
    rw [Function.iterate_succ_apply]
    exact ih.trans advance_sublist

theorem mem_advance (hnodup : l.Nodup) {x : α} : x ∈ advance window stuck l ↔
    x ∈ l ∧ (x ∈ l.take window → stuck x = true) := by
  rw [advance, List.mem_append, List.mem_filter]
  have hsplit := List.take_append_drop window l
  rw [← hsplit] at hnodup
  have hapart := (List.nodup_append.mp hnodup).2.2
  constructor
  · rintro (⟨htake, hx⟩ | hdrop)
    · exact ⟨List.mem_of_mem_take htake, fun _ => hx⟩
    · exact ⟨List.mem_of_mem_drop hdrop, fun htake => absurd rfl (hapart x htake x hdrop)⟩
  · rintro ⟨hmem, hx⟩
    rw [← hsplit, List.mem_append] at hmem
    exact hmem.imp (fun htake => ⟨htake, hx htake⟩) id

/-- The stuck items of a window stand at the head of the next one. -/
theorem mem_next_window {x : α} (hmem : x ∈ l.take window) (hx : stuck x = true) :
    x ∈ (advance window stuck l).take window := by
  have hlen : ((l.take window).filter stuck).length ≤ window :=
    Nat.le_trans (List.length_filter_le _ _) (List.length_take_le _ _)
  rw [advance, List.take_append, List.take_of_length_le hlen, List.mem_append, List.mem_filter]
  exact .inl ⟨hmem, hx⟩

theorem countP_advance : (advance window stuck l).countP stuck = l.countP stuck := by
  rw [advance, List.countP_append, List.countP_filter, ← List.take_append_drop window l,
    List.countP_append]
  simp

/-- A window that is not full of stuck items loses one. -/
theorem length_advance_lt (hfull : window ≤ l.length) (h : l.countP stuck < window) :
    (advance window stuck l).length < l.length := by
  have hsplit : l.length = (l.take window).length + (l.drop window).length := by
    rw [← List.length_append, List.take_append_drop]
  have hwindow : (l.take window).length = window := List.length_take_of_le hfull
  have hstuck : ((l.take window).filter stuck).length ≤ l.countP stuck := by
    rw [← List.countP_eq_length_filter]
    exact (List.take_sublist window l).countP_le
  rw [advance, List.length_append]
  omega

/-- What stands before an item that the window does not reach advances on its own. -/
theorem advance_before {before behind : List α} {x : α} (h : window ≤ before.length) :
    advance window stuck (before ++ x :: behind) = advance window stuck before ++ x :: behind := by
  rw [advance, List.take_append_of_le_length h, List.drop_append_of_le_length h, advance,
    List.append_assoc]

/-- An item that is not stuck leaves when fewer than `window` stuck ones stand before it: every
round takes it or makes the list before it shorter. -/
theorem leaves {before behind : List α} {x : α} {n : Nat}
    (hnodup : (before ++ x :: behind).Nodup) (hx : stuck x = false)
    (hroom : before.countP stuck < window) (hn : before.length < n) :
    x ∉ (advance window stuck)^[n] (before ++ x :: behind) := by
  induction n generalizing before with
  | zero => omega
  | succ n ih =>
    rw [Function.iterate_succ_apply]
    by_cases hreach : before.length < window
    · intro hmem
      have hleft := (iterate_advance_sublist n).subset hmem
      rw [advance, List.mem_append, List.mem_filter, hx] at hleft
      obtain ⟨-, hfalse⟩ | hdrop := hleft
      · cases hfalse
      · obtain ⟨k, hk⟩ : ∃ k, window = before.length + (k + 1) :=
          ⟨window - before.length - 1, by omega⟩
        rw [hk, List.drop_append, List.drop_eq_nil_of_le (by omega), Nat.add_sub_cancel_left,
          List.nil_append, List.drop_succ_cons] at hdrop
        have hbehind : x ∈ behind := List.mem_of_mem_drop hdrop
        have htail := (List.nodup_append.mp hnodup).2.1
        exact (List.nodup_cons.mp htail).1 hbehind
    · have hfull : window ≤ before.length := Nat.le_of_not_lt hreach
      rw [advance_before hfull]
      apply ih
      · exact hnodup.sublist (advance_sublist.append (List.Sublist.refl _))
      · rwa [countP_advance]
      · have := length_advance_lt hfull hroom
        omega

/-- An item behind `window` stuck ones stays for ever. -/
theorem starves {before behind : List α} {x : α} (h : window ≤ before.countP stuck) (n : Nat) :
    x ∈ (advance window stuck)^[n] (before ++ x :: behind) := by
  induction n generalizing before with
  | zero => simp
  | succ n ih =>
    have hlen : window ≤ before.length := Nat.le_trans h List.countP_le_length
    rw [Function.iterate_succ_apply, advance_before hlen]
    apply ih
    rwa [countP_advance]

end Backlog
end Elyra
