import Mathlib.Data.List.Basic
import Mathlib.Data.List.Count
import Mathlib.Tactic.Common

namespace Elyra

/-- Permits for a number of uses under some terms: what is left of each, what each was issued
for, and who was spent when. -/
structure Quota (κ ε ι : Type*) where
  left : κ → Option (Int × ε)
  issued : κ → Option (Int × ε)
  spent : List (κ × ι)

namespace Quota

variable {κ ε ι : Type*} [DecidableEq κ]

def count (s : Quota κ ε ι) (k : κ) : Nat := s.spent.countP (fun p => p.1 = k)

/-- One step, `valid` saying when terms allow a spending; a permit that is issued may take the
place of all others where `D` holds. -/
inductive Step (valid : ε → ι → Prop) (D : Prop) (s s' : Quota κ ε ι) : Prop
  | idle (same : s' = s)
  | issue (k : κ) (p : Int × ε) (fresh : s.issued k = none)
      (left : (∀ j, s'.left j = if j = k then some p else s.left j) ∨
        D ∧ ∀ j, s'.left j = if j = k then some p else none)
      (issued : ∀ j, s'.issued j = if j = k then some p else s.issued j)
      (spent : s'.spent = s.spent)
  | spend (k : κ) (n : Int) (e : ε) (i : ι) (has : s.left k = some (n, e)) (pos : 0 < n)
      (allowed : valid e i)
      (left : ∀ j, s'.left j = if j = k then some (n - 1, e) else s.left j)
      (issued : s'.issued = s.issued) (spent : s'.spent = s.spent ++ [(k, i)])

structure Balanced (valid : ε → ι → Prop) (s : Quota κ ε ι) : Prop where
  known : ∀ k n e, s.left k = some (n, e) →
    ∃ m, s.issued k = some (m, e) ∧ n = m - s.count k
  bounded : ∀ k m e, s.issued k = some (m, e) → (s.count k : Int) ≤ max m 0
  unused : ∀ k, s.issued k = none → s.count k = 0
  timely : ∀ p ∈ s.spent, ∀ m e, s.issued p.1 = some (m, e) → valid e p.2

/-- A permit that has uses left and may still serve is there. -/
def Whole (live : ε → Prop) (s : Quota κ ε ι) : Prop :=
  ∀ k m e, s.issued k = some (m, e) → (s.count k : Int) < m → live e →
    s.left k = some (m - s.count k, e)

variable {valid : ε → ι → Prop} {D : Prop} {s s' : Quota κ ε ι}

theorem count_eq_zero {k : κ} : s.count k = 0 ↔ ∀ p ∈ s.spent, p.1 ≠ k := by
  simp [count, List.countP_eq_zero]

theorem count_congr (h : s'.spent = s.spent) (k : κ) : s'.count k = s.count k := by
  rw [count, count, h]

theorem count_spend {k : κ} {i : ι} (h : s'.spent = s.spent ++ [(k, i)]) (j : κ) :
    s'.count j = s.count j + if j = k then 1 else 0 := by
  rw [count, h, List.countP_append, ← count, List.countP_singleton]
  by_cases hj : j = k
  · simp [hj]
  · simp [hj, Ne.symm hj]

theorem Balanced.step (h : Balanced valid s) (hs : Step valid D s s') : Balanced valid s' := by
  cases hs with
  | idle same => rwa [same]
  | issue k p fresh left issued spent =>
    have hcount := count_congr spent
    have hnone : s.count k = 0 := h.unused k fresh
    constructor
    · intro j n e hj
      by_cases hk : j = k
      · have hp : s'.left j = some p := by
          obtain left | ⟨-, left⟩ := left <;> rw [left j, if_pos hk]
        rw [hp] at hj
        refine ⟨n, by rw [issued j, if_pos hk, hj], ?_⟩
        rw [hcount, hk, hnone]
        simp
      · have hold : s.left j = some (n, e) := by
          obtain left | ⟨-, left⟩ := left
          · rwa [left j, if_neg hk] at hj
          · rw [left j, if_neg hk] at hj
            cases hj
        obtain ⟨m, hm, hn⟩ := h.known j n e hold
        exact ⟨m, by rw [issued j, if_neg hk, hm], by rw [hcount, hn]⟩
    · intro j m e hj
      rw [hcount]
      by_cases hk : j = k
      · rw [hk, hnone]
        exact Int.le_max_right m 0
      · rw [issued j, if_neg hk] at hj
        exact h.bounded j m e hj
    · intro j hj
      rw [hcount]
      by_cases hk : j = k
      · rw [hk, hnone]
      · rw [issued j, if_neg hk] at hj
        exact h.unused j hj
    · intro q hq m e hj
      rw [spent] at hq
      have hne : q.1 ≠ k := count_eq_zero.mp hnone q hq
      rw [issued q.1, if_neg hne] at hj
      exact h.timely q hq m e hj
  | spend k n e i has pos allowed left issued spent =>
    have hcount := count_spend spent
    obtain ⟨m, hm, hn⟩ := h.known k n e has
    constructor
    · intro j n' e' hj
      rw [issued, hcount]
      by_cases hk : j = k
      · rw [left j, if_pos hk] at hj
        cases hj
        refine ⟨m, by rw [hk, hm], ?_⟩
        rw [if_pos hk, hk, hn]
        push_cast
        omega
      · rw [left j, if_neg hk] at hj
        rw [if_neg hk]
        exact h.known j n' e' hj
    · intro j m' e' hj
      rw [issued] at hj
      have hbound := h.bounded j m' e' hj
      rw [hcount]
      by_cases hk : j = k
      · have hsame : (m, e) = (m', e') := Option.some.inj (by rw [← hm, ← hj, hk])
        cases hsame
        rw [if_pos hk, hk]
        push_cast
        omega
      · rwa [if_neg hk]
    · intro j hj
      rw [issued] at hj
      have hne : j ≠ k := by
        rintro rfl
        rw [hm] at hj
        cases hj
      rw [hcount, if_neg hne, h.unused j hj]
    · intro q hq m' e' hj
      rw [issued] at hj
      rw [spent, List.mem_append, List.mem_singleton] at hq
      obtain hq | rfl := hq
      · exact h.timely q hq m' e' hj
      · rw [hm] at hj
        cases hj
        exact allowed

/-- Nothing that may still serve is lost by steps that drop only what may not. -/
theorem Whole.step {live : ε → Prop} (h : Whole live s) (hb : Balanced valid s)
    (hs : Step valid D s s')
    (hdrop : D → ∀ k n e, s.left k = some (n, e) → 0 < n → ¬live e) : Whole live s' := by
  cases hs with
  | idle same => rwa [same]
  | issue k p fresh left issued spent =>
    have hcount := count_congr spent
    intro j m e hj hlt hlive
    rw [hcount] at hlt ⊢
    by_cases hk : j = k
    · have hp : s'.left j = some p := by
        obtain left | ⟨-, left⟩ := left <;> rw [left j, if_pos hk]
      rw [issued j, if_pos hk] at hj
      rw [hp, hj, hk, hb.unused k fresh]
      simp
    · rw [issued j, if_neg hk] at hj
      have hold := h j m e hj hlt hlive
      obtain left | ⟨hD, left⟩ := left
      · rw [left j, if_neg hk, hold]
      · exact absurd hlive (hdrop hD j _ e hold (by omega))
  | spend k n e i has pos allowed left issued spent =>
    have hcount := count_spend spent
    obtain ⟨m, hm, hn⟩ := hb.known k n e has
    intro j m' e' hj hlt hlive
    rw [issued] at hj
    rw [hcount] at hlt ⊢
    by_cases hk : j = k
    · have hsame : (m, e) = (m', e') := Option.some.inj (by rw [← hm, ← hj, hk])
      cases hsame
      rw [left j, if_pos hk, if_pos hk, hk, hn]
      push_cast
      congr 2
      omega
    · rw [if_neg hk] at hlt ⊢
      rw [left j, if_neg hk]
      exact h j m' e' hj hlt hlive

end Quota
end Elyra
