import Elyra.Framework.Effects

namespace Elyra

section Ensures

variable {ε σ α β : Type}

/-- From a state that meets `P` a computation returns into `Q` or raises into `E`. -/
def Ensures (P : σ → Prop) (m : EStateM ε σ α) (Q : α → σ → Prop) (E : ε → σ → Prop) : Prop :=
  ∀ s, P s → match m s with
    | .ok a t => Q a t
    | .error e t => E e t

variable {P : σ → Prop} {Q : α → σ → Prop} {R : β → σ → Prop} {E : ε → σ → Prop}

theorem ensures_pure (a : α) (h : ∀ s, P s → Q a s) : Ensures P (pure a : EStateM ε σ α) Q E := h

theorem ensures_throw (e : ε) (h : ∀ s, P s → E e s) : Ensures P (throw e : EStateM ε σ α) Q E := h

theorem ensures_bind {m : EStateM ε σ α} {f : α → EStateM ε σ β} (hm : Ensures P m Q E)
    (hf : ∀ a, Ensures (Q a) (f a) R E) : Ensures P (m >>= f) R E := by
  intro s hs
  have hfirst := hm s hs
  rw [run_bind]
  cases hms : m s with
  | ok a t =>
    rw [hms] at hfirst
    exact hf a t hfirst
  | error e t =>
    rw [hms] at hfirst
    exact hfirst

theorem ensures_get_bind {f : σ → EStateM ε σ β}
    (hf : ∀ s, P s → Ensures (· = s) (f s) R E) : Ensures P (get >>= f) R E :=
  fun s hs => hf s hs s rfl

theorem ensures_modify {Q : Unit → σ → Prop} (f : σ → σ) (h : ∀ s, P s → Q () (f s)) :
    Ensures P (modify f : EStateM ε σ Unit) Q E := h

/-- What the first computation raises is met by the handler, in the state it was raised in. -/
theorem ensures_tryCatch {m : EStateM ε σ α} {f : ε → EStateM ε σ α} {E' : ε → σ → Prop}
    (hm : Ensures P m Q E) (hf : ∀ e, Ensures (E e) (f e) Q E') :
    Ensures P (tryCatch m f) Q E' := by
  intro s hs
  have hfirst := hm s hs
  show match EStateM.tryCatch m f s with
    | .ok a t => Q a t
    | .error e t => E' e t
  unfold EStateM.tryCatch
  cases hms : m s with
  | ok a t =>
    rw [hms] at hfirst
    exact hfirst
  | error e t =>
    rw [hms] at hfirst
    exact hf e t hfirst

theorem Ensures.weaken {P' : σ → Prop} {m : EStateM ε σ α} {Q' : α → σ → Prop}
    {E' : ε → σ → Prop} (hm : Ensures P m Q E) (hp : ∀ s, P' s → P s)
    (hq : ∀ a s, Q a s → Q' a s) (he : ∀ e s, E e s → E' e s) : Ensures P' m Q' E' := by
  intro s hs
  have h := hm s (hp s hs)
  cases hms : m s with
  | ok a t =>
    rw [hms] at h
    exact hq a t h
  | error e t =>
    rw [hms] at h
    exact he e t h

end Ensures

section Asking

variable {κ : Type} {Answer : κ → Type} {ε σ α : Type}

/-- A state beside the questions an environment was asked and what it answered. -/
structure Asked (Answer : κ → Type) (σ : Type) where
  state : σ
  trace : List (Sigma Answer)

/-- The environment answers a question as it likes, by the number of questions before it. -/
abbrev Environment (Answer : κ → Type) := Nat → (c : κ) → Answer c

def ask (env : Environment Answer) (c : κ) : EStateM ε (Asked Answer σ) (Answer c) := fun s =>
  .ok (env s.trace.length c) ⟨s.state, s.trace ++ [⟨c, env s.trace.length c⟩]⟩

/-- A change of the state alone. -/
def alter (f : σ → σ) : EStateM ε (Asked Answer σ) Unit := fun s => .ok () ⟨f s.state, s.trace⟩

/-- The state and the questions since a moment meet `P`. -/
def Since (n : Nat) (P : σ → List (Sigma Answer) → Prop) (s : Asked Answer σ) : Prop :=
  n ≤ s.trace.length ∧ P s.state (s.trace.drop n)

variable {n : Nat} {P : σ → List (Sigma Answer) → Prop} {E : ε → Asked Answer σ → Prop}

theorem Since.mono {P' : σ → List (Sigma Answer) → Prop} {s : Asked Answer σ} (h : Since n P s)
    (hp : ∀ x tail, P x tail → P' x tail) : Since n P' s := ⟨h.1, hp _ _ h.2⟩

theorem ensures_ask (env : Environment Answer) (c : κ)
    {Q : Answer c → σ → List (Sigma Answer) → Prop}
    (h : ∀ x tail a, P x tail → Q a x (tail ++ [⟨c, a⟩])) :
    Ensures (Since n P) (ask env c) (fun a => Since n (Q a)) E := by
  intro s hs
  refine ⟨?_, ?_⟩
  · simp only [List.length_append]
    exact Nat.le_add_right_of_le hs.1
  · rw [List.drop_append_of_le_length hs.1]
    exact h s.state (s.trace.drop n) _ hs.2

theorem ensures_alter (f : σ → σ) {Q : σ → List (Sigma Answer) → Prop}
    (h : ∀ x tail, P x tail → Q (f x) tail) :
    Ensures (Since n P) (alter f) (fun _ => Since n Q) E :=
  fun s hs => ⟨hs.1, h s.state (s.trace.drop n) hs.2⟩

end Asking
end Elyra
