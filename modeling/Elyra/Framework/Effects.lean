import Elyra.Framework.Python
import Mathlib.Logic.Relation

namespace Elyra

section Effects

variable {ε σ α β : Type} (step : Bool → σ → σ → Prop) (fails : ε → Bool)

theorem run_bind (m : EStateM ε σ α) (f : α → EStateM ε σ β) (s : σ) :
    (m >>= f) s = match m s with
      | .ok a t => f a t
      | .error e t => .error e t := rfl

theorem run_pure (a : α) (s : σ) : (pure a : EStateM ε σ α) s = .ok a s := rfl

theorem run_throw (e : ε) (s : σ) : (throw e : EStateM ε σ α) s = .error e s := rfl

theorem run_ite (c : Prop) [Decidable c] (m n : EStateM ε σ α) (s : σ) :
    (if c then m else n) s = if c then m s else n s := by
  by_cases h : c
  · rw [if_pos h, if_pos h]
  · rw [if_neg h, if_neg h]

theorem error_of_discard {m : EStateM ε σ α} {s t : σ} {e : ε}
    (h : (do let _ ← m) s = .error e t) : m s = .error e t := by
  rw [run_bind] at h
  cases hm : m s with
  | ok a u =>
    rw [hm] at h
    cases h
  | error d u =>
    rw [hm] at h
    cases h
    rfl

/-- The state a computation leaves, whether it returned or raised. -/
def after : EStateM.Result ε σ α → σ
  | .ok _ s => s
  | .error _ s => s

theorem after_bind_pure (m : EStateM ε σ α) (b : β) (s : σ) :
    after ((m >>= fun _ => pure b) s) = after (m s) := by
  rw [run_bind]
  cases m s <;> rfl

/-- A bind of `Except` that succeeds went through both parts. -/
theorem except_bind_ok {m : Except ε α} {f : α → Except ε β} {b : β}
    (h : (m >>= f) = .ok b) : ∃ a, m = .ok a ∧ f a = .ok b := by
  cases m with
  | error e => cases h
  | ok a => exact ⟨a, rfl, h⟩

theorem except_bind_error {m : Except ε α} {f : α → Except ε β} {e : ε}
    (h : m >>= f = .error e) : m = .error e ∨ ∃ a, m = .ok a ∧ f a = .error e := by
  cases m with
  | error e' =>
    cases h
    exact .inl rfl
  | ok a => exact .inr ⟨a, rfl, h⟩

/-- A bind that succeeds went through both parts. -/
theorem run_bind_ok {m : EStateM ε σ α} {f : α → EStateM ε σ β} {b : β} {s t : σ}
    (h : (m >>= f) s = .ok b t) : ∃ a u, m s = .ok a u ∧ f a u = .ok b t := by
  rw [run_bind] at h
  cases hm : m s with
  | error e u =>
    rw [hm] at h
    cases h
  | ok a u =>
    rw [hm] at h
    exact ⟨a, u, rfl, h⟩

theorem run_get (s : σ) : (get : EStateM ε σ σ) s = .ok s s := rfl

theorem run_modify (f : σ → σ) (s : σ) : (modify f : EStateM ε σ Unit) s = .ok () (f s) := rfl

theorem get_returns {s t a : σ} (h : (get : EStateM ε σ σ) s = .ok a t) : a = s ∧ t = s := by
  cases h
  exact ⟨rfl, rfl⟩

theorem set_returns {s t x : σ} {a : Unit} (h : (set x : EStateM ε σ Unit) s = .ok a t) :
    t = x := by
  cases h
  rfl

theorem modify_returns {s t : σ} {f : σ → σ} {a : Unit}
    (h : (modify f : EStateM ε σ Unit) s = .ok a t) : t = f s := by
  cases h
  rfl

/-- A computation whose value is dropped and that returns. -/
theorem ok_of_discard {x : EStateM ε σ α} {s t : σ} (h : (do let _ ← x) s = .ok () t) :
    ∃ a, x s = .ok a t := by
  obtain ⟨a, u, hx, hpure⟩ := run_bind_ok h
  cases hpure
  exact ⟨a, hx⟩

theorem after_ofExcept (r : Except PyErr α) (s : σ) : after (ofExcept r s) = s := by
  cases r <;> rfl

theorem ofExcept_returns {r : Except PyErr α} {s t : σ} {a : α} (h : ofExcept r s = .ok a t) :
    r = .ok a ∧ t = s := by
  cases r with
  | error e => cases h
  | ok b =>
    cases h
    exact ⟨rfl, rfl⟩

/-- The computation did not end in one of the failing errors. -/
def clean : EStateM.Result ε σ α → Bool
  | .ok _ _ => true
  | .error e _ => !fails e

/-- A computation changes the state by steps only; the flag of the steps is false only when it
ends in a failing error. -/
def Traces (m : EStateM ε σ α) : Prop :=
  ∀ s, Relation.ReflTransGen (step (clean fails (m s))) s (after (m s))

theorem traces_of_same (m : EStateM ε σ α) (h : ∀ s, after (m s) = s) : Traces step fails m := by
  intro s
  rw [h]

theorem traces_pure (a : α) : Traces step fails (pure a) :=
  traces_of_same step fails _ (fun _ => rfl)

theorem traces_throw (e : ε) : Traces step fails (throw e : EStateM ε σ α) :=
  traces_of_same step fails _ (fun _ => rfl)

variable {step fails}

theorem traces_of_step (m : EStateM ε σ α)
    (h : ∀ s, step (clean fails (m s)) s (after (m s))) : Traces step fails m := by
  intro s
  exact .single (h s)

theorem traces_bind (hmono : ∀ b s t, step true s t → step b s t) {m : EStateM ε σ α}
    {f : α → EStateM ε σ β} (hm : Traces step fails m) (hf : ∀ a, Traces step fails (f a)) :
    Traces step fails (m >>= f) := by
  intro s
  have hfirst := hm s
  rw [run_bind]
  cases hms : m s with
  | error e t =>
    rw [hms] at hfirst
    exact hfirst
  | ok a t =>
    rw [hms] at hfirst
    have hhead := Relation.ReflTransGen.mono (fun x y => hmono (clean fails (f a t)) x y) s t hfirst
    exact hhead.trans (hf a t)

/-- A computation keeps an invariant, however it ends, and returns values that meet `Q`. -/
def Keeps (I : σ → Prop) (m : EStateM ε σ α) (Q : α → Prop) : Prop :=
  ∀ s, I s → I (after (m s)) ∧ ∀ a t, m s = .ok a t → Q a

variable {I : σ → Prop}

theorem keeps_pure {Q : α → Prop} (a : α) (ha : Q a) : Keeps I (pure a : EStateM ε σ α) Q := by
  intro s hs
  refine ⟨hs, ?_⟩
  intro b t hb
  cases hb
  exact ha

theorem keeps_bind {m : EStateM ε σ α} {f : α → EStateM ε σ β} {Q : α → Prop} {R : β → Prop}
    (hm : Keeps I m Q) (hf : ∀ a, Q a → Keeps I (f a) R) : Keeps I (m >>= f) R := by
  intro s hs
  obtain ⟨hafter, hvalue⟩ := hm s hs
  rw [run_bind]
  cases hms : m s with
  | error e t =>
    rw [hms] at hafter
    refine ⟨hafter, ?_⟩
    intro b u hb
    cases hb
  | ok a t =>
    rw [hms] at hafter
    exact hf a (hvalue a t hms) t hafter

end Effects

section Simulate

variable {ε σ τ α β : Type} (R : σ → τ → Prop)

/-- Both ended the same way, in related states. -/
inductive Agree : EStateM.Result ε σ α → EStateM.Result ε τ α → Prop where
  | ok (a : α) {s : σ} {t : τ} (h : R s t) : Agree (.ok a s) (.ok a t)
  | error (e : ε) {s : σ} {t : τ} (h : R s t) : Agree (.error e s) (.error e t)

/-- From related states the two computations end alike. -/
def Simulates (m : EStateM ε σ α) (n : EStateM ε τ α) : Prop := ∀ s t, R s t → Agree R (m s) (n t)

/-- What the caller sees of a computation. -/
def outcome : EStateM.Result ε σ α → Except ε α
  | .ok a _ => .ok a
  | .error e _ => .error e

variable {R}

theorem Agree.outcome_eq {r : EStateM.Result ε σ α} {q : EStateM.Result ε τ α} (h : Agree R r q) :
    outcome r = outcome q := by
  cases h <;> rfl

theorem Agree.after {r : EStateM.Result ε σ α} {q : EStateM.Result ε τ α} (h : Agree R r q) :
    R (after r) (after q) := by
  cases h with
  | ok a h => exact h
  | error e h => exact h

theorem simulates_pure (a : α) : Simulates R (pure a : EStateM ε σ α) (pure a : EStateM ε τ α) :=
  fun _ _ h => .ok a h

theorem simulates_throw (e : ε) :
    Simulates R (throw e : EStateM ε σ α) (throw e : EStateM ε τ α) :=
  fun _ _ h => .error e h

theorem simulates_modify {f : σ → σ} {g : τ → τ} (h : ∀ s t, R s t → R (f s) (g t)) :
    Simulates R (modify f : EStateM ε σ Unit) (modify g : EStateM ε τ Unit) :=
  fun s t hst => .ok () (h s t hst)

theorem simulates_bind {m : EStateM ε σ α} {n : EStateM ε τ α} {f : α → EStateM ε σ β}
    {g : α → EStateM ε τ β} (hm : Simulates R m n) (hf : ∀ a, Simulates R (f a) (g a)) :
    Simulates R (m >>= f) (n >>= g) := by
  intro s t hst
  have hfirst := hm s t hst
  rw [run_bind, run_bind]
  cases hms : m s with
  | ok a u =>
    rw [hms] at hfirst
    cases hnt : n t with
    | ok b v =>
      rw [hnt] at hfirst
      cases hfirst with
      | ok a h => exact hf a u v h
    | error e v =>
      rw [hnt] at hfirst
      cases hfirst
  | error e u =>
    rw [hms] at hfirst
    cases hnt : n t with
    | ok b v =>
      rw [hnt] at hfirst
      cases hfirst
    | error d v =>
      rw [hnt] at hfirst
      cases hfirst with
      | error e h => exact .error e h

end Simulate
end Elyra
