import Elyra.Framework.Program

namespace Elyra

/-- Where a thread runs: how each call goes (the flag says whether the system refuses it), which
calls are considered, what the other threads may do and what this one promises them. -/
structure Setting (ε : Type) {κ : Type} (Reply : κ → Type) (σ : Type) where
  perform : Bool → (c : κ) → σ → Except ε (Reply c) × σ
  allowed : Bool → κ → σ → Prop
  rely : σ → σ → Prop
  guarantee : σ → σ → Prop

variable {ε κ σ α β : Type} {Reply : κ → Type}

namespace Setting

def Stable (S : Setting ε Reply σ) (A : σ → Prop) : Prop := ∀ s t, S.rely s t → A s → A t

theorem Stable.and {S : Setting ε Reply σ} {A B : σ → Prop} (ha : S.Stable A) (hb : S.Stable B) :
    S.Stable fun s => A s ∧ B s := by
  intro s t hst h
  exact ⟨ha s t hst h.1, hb s t hst h.2⟩

theorem Stable.imp {S : Setting ε Reply σ} (c : Prop) {A : σ → Prop} (ha : c → S.Stable A) :
    S.Stable fun s => c → A s := by
  intro s t hst h hc
  exact ha hc s t hst (h hc)

end Setting

namespace Program

variable (S : Setting ε Reply σ)

/-- Whatever the others do between its calls, a program started where `A` holds keeps its promise
and ends in `Q`. -/
def Meets (Q : α → σ → Prop) : Program ε Reply α → (σ → Prop) → Prop
  | .done a, A => S.Stable A ∧ ∀ s, A s → Q a s
  | .call c next, A => S.Stable A ∧ ∀ fails s, A s → S.allowed fails c s →
      S.guarantee s (S.perform fails c s).2 ∧
      ∃ B : σ → Prop, B (S.perform fails c s).2 ∧ Meets Q (next (S.perform fails c s).1) B

/-- The call a program comes to next is one of those considered. -/
def Permits (fails : Bool) (s : σ) : Program ε Reply α → Prop
  | .done _ => True
  | .call c _ => S.allowed fails c s

variable {S} {Q : α → σ → Prop} {R : β → σ → Prop} {A B : σ → Prop}

theorem Meets.stable {p : Program ε Reply α} (h : p.Meets S Q A) : S.Stable A := by
  cases p with
  | done a => exact h.1
  | call c next => exact h.1

theorem Meets.strengthen {p : Program ε Reply α} (h : p.Meets S Q B) (ha : S.Stable A)
    (hab : ∀ s, A s → B s) : p.Meets S Q A := by
  cases p with
  | done a => exact ⟨ha, fun s hs => h.2 s (hab s hs)⟩
  | call c next => exact ⟨ha, fun fails s hs => h.2 fails s (hab s hs)⟩

theorem Meets.weaken {p : Program ε Reply α} {Q' : α → σ → Prop} (h : p.Meets S Q A)
    (hq : ∀ a s, Q a s → Q' a s) : p.Meets S Q' A := by
  induction p generalizing A with
  | done a => exact ⟨h.1, fun s hs => hq a s (h.2 s hs)⟩
  | call c next ih =>
    refine ⟨h.1, ?_⟩
    intro fails s hs hallowed
    obtain ⟨hg, B, hb, hnext⟩ := h.2 fails s hs hallowed
    exact ⟨hg, B, hb, ih _ hnext⟩

theorem meets_bind {p : Program ε Reply α} {f : α → Program ε Reply β} (hp : p.Meets S Q A)
    (hf : ∀ a, (f a).Meets S R (Q a)) : (p >>= f).Meets S R A := by
  induction p generalizing A with
  | done a => exact (hf a).strengthen hp.1 hp.2
  | call c next ih =>
    refine ⟨hp.1, ?_⟩
    intro fails s hs hallowed
    obtain ⟨hg, B, hb, hnext⟩ := hp.2 fails s hs hallowed
    exact ⟨hg, B, hb, ih _ hnext⟩

/-- A step of the thread itself. -/
theorem Meets.step {p : Program ε Reply α} (h : p.Meets S Q A) {s : σ} (hs : A s) (fails : Bool)
    (hallowed : p.Permits S fails s) (hrefl : S.guarantee s s) :
    S.guarantee s (p.step (S.perform fails) s).2 ∧
      ∃ B : σ → Prop, B (p.step (S.perform fails) s).2 ∧
        (p.step (S.perform fails) s).1.Meets S Q B := by
  cases p with
  | done a => exact ⟨hrefl, A, hs, h⟩
  | call c next => exact h.2 fails s hs hallowed

end Program

namespace Fallible

variable (S : Setting ε Reply σ)

/-- The same of a program that may raise: it returns into `Q` or raises into `E`. -/
def Meets (A : σ → Prop) (m : Fallible ε Reply α) (Q : α → σ → Prop) (E : ε → σ → Prop) : Prop :=
  Program.Meets S (fun r s => match r with | .ok a => Q a s | .error e => E e s) (ExceptT.run m) A

variable {S} {A B : σ → Prop} {Q : α → σ → Prop} {R : β → σ → Prop} {E : ε → σ → Prop}

theorem meets_pure (a : α) (ha : S.Stable A) (h : ∀ s, A s → Q a s) :
    Meets S A (pure a : Fallible ε Reply α) Q E := ⟨ha, h⟩

theorem meets_throw (e : ε) (ha : S.Stable A) (h : ∀ s, A s → E e s) :
    Meets S A (throw e : Fallible ε Reply α) Q E := ⟨ha, h⟩

theorem meets_perform (c : κ) {Q : Reply c → σ → Prop} (ha : S.Stable A) (hq : ∀ a, S.Stable (Q a))
    (he : ∀ e, S.Stable (E e))
    (h : ∀ fails s, A s → S.allowed fails c s → S.guarantee s (S.perform fails c s).2 ∧
      (∀ a, (S.perform fails c s).1 = .ok a → Q a (S.perform fails c s).2) ∧
      ∀ e, (S.perform fails c s).1 = .error e → E e (S.perform fails c s).2) :
    Meets S A (perform c : Fallible ε Reply (Reply c)) Q E := by
  refine ⟨ha, ?_⟩
  intro fails s hs hallowed
  obtain ⟨hg, hok, herror⟩ := h fails s hs hallowed
  refine ⟨hg, ?_⟩
  cases hr : (S.perform fails c s).1 with
  | ok a => exact ⟨Q a, hok a hr, hq a, fun _ ht => ht⟩
  | error e => exact ⟨E e, herror e hr, he e, fun _ ht => ht⟩

theorem meets_bind {m : Fallible ε Reply α} {f : α → Fallible ε Reply β} (hm : Meets S A m Q E)
    (he : ∀ e, S.Stable (E e)) (hf : ∀ a, Meets S (Q a) (f a) R E) :
    Meets S A (m >>= f) R E := by
  apply Program.meets_bind hm
  intro r
  cases r with
  | ok a => exact hf a
  | error e => exact ⟨he e, fun _ ht => ht⟩

theorem meets_catch {m : Fallible ε Reply α} {f : ε → Fallible ε Reply α} {F : ε → σ → Prop}
    (hm : Meets S A m Q F) (hq : ∀ a, S.Stable (Q a)) (hf : ∀ e, Meets S (F e) (f e) Q E) :
    Meets S A (tryCatch m f) Q E := by
  apply Program.meets_bind hm
  intro r
  cases r with
  | ok a => exact ⟨hq a, fun _ ht => ht⟩
  | error e => exact hf e

theorem Meets.strengthen {m : Fallible ε Reply α} (h : Meets S B m Q E) (ha : S.Stable A)
    (hab : ∀ s, A s → B s) : Meets S A m Q E := Program.Meets.strengthen h ha hab

theorem Meets.weaken {m : Fallible ε Reply α} {Q' : α → σ → Prop} {E' : ε → σ → Prop}
    (h : Meets S A m Q E) (hq : ∀ a s, Q a s → Q' a s) (he : ∀ e s, E e s → E' e s) :
    Meets S A m Q' E' := by
  apply Program.Meets.weaken h
  intro r s
  cases r with
  | ok a => exact hq a s
  | error e => exact he e s

/-- What does not depend on the state may be assumed of the program. -/
theorem meets_of_fact {P : Prop} {m : Fallible ε Reply α} (h : P → Meets S A m Q E) :
    Meets S (fun s => P ∧ A s) m Q E := by
  by_cases hp : P
  · refine (h hp).strengthen ?_ fun _ hs => hs.2
    exact fun s t hst hs => ⟨hp, (h hp).stable s t hst hs.2⟩
  · have hnever : ∀ s, ¬(P ∧ A s) := fun _ hs => hp hs.1
    unfold Meets
    cases ExceptT.run m with
    | done r => exact ⟨fun s _ _ hs => absurd hs (hnever s), fun s hs => absurd hs (hnever s)⟩
    | call c next =>
      exact ⟨fun s _ _ hs => absurd hs (hnever s), fun _ s hs => absurd hs (hnever s)⟩

end Fallible
end Elyra
