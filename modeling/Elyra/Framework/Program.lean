import Mathlib.Logic.Basic

namespace Elyra

/-- What is left of a thread: every call is one atomic step on a state that threads share. -/
inductive Program (ε : Type) {κ : Type} (Reply : κ → Type) (α : Type) where
  | done (a : α)
  | call (c : κ) (next : Except ε (Reply c) → Program ε Reply α)

namespace Program

variable {ε κ σ α β : Type} {Reply : κ → Type}

def bind (p : Program ε Reply α) (f : α → Program ε Reply β) : Program ε Reply β :=
  match p with
  | .done a => f a
  | .call c next => .call c fun r => (next r).bind f

instance : Monad (Program ε Reply) where
  pure := .done
  bind := .bind

section Steps

variable (perform : (c : κ) → σ → Except ε (Reply c) × σ)

def step (p : Program ε Reply α) (s : σ) : Program ε Reply α × σ :=
  match p with
  | .done a => (.done a, s)
  | .call c next => (next (perform c s).1, (perform c s).2)

end Steps

def isDone : Program ε Reply α → Bool
  | .done _ => true
  | .call _ _ => false

section Blind

variable (Allowed : κ → Prop) (Alike : (c : κ) → Except ε (Reply c) → Except ε (Reply c) → Prop)

/-- A program that makes allowed calls only, cannot tell alike replies apart and ends in `Q`. A
reply is possible when it is alike to itself. -/
def Blind (Q : α → Prop) : Program ε Reply α → Prop
  | .done a => Q a
  | .call c next => Allowed c ∧ (∀ r r', Alike c r r' → next r = next r') ∧
      ∀ r, Alike c r r → Blind Q (next r)

variable {Allowed Alike} {Q : α → Prop} {R : β → Prop}

theorem blind_bind {p : Program ε Reply α} {f : α → Program ε Reply β}
    (hp : Blind Allowed Alike Q p) (hf : ∀ a, Q a → Blind Allowed Alike R (f a)) :
    Blind Allowed Alike R (p >>= f) := by
  induction p with
  | done a => exact hf a hp
  | call c next ih =>
    obtain ⟨hc, halike, hnext⟩ := hp
    refine ⟨hc, ?_, ?_⟩
    · intro r r' hr
      exact congrArg (fun q => q.bind f) (halike r r' hr)
    · intro r hr
      exact ih r (hnext r hr)

theorem Blind.weaken {p : Program ε Reply α} {Q' : α → Prop} (hp : Blind Allowed Alike Q p)
    (hq : ∀ a, Q a → Q' a) : Blind Allowed Alike Q' p := by
  induction p with
  | done a => exact hq a hp
  | call c next ih =>
    obtain ⟨hc, halike, hnext⟩ := hp
    exact ⟨hc, halike, fun r hr => ih r (hnext r hr)⟩

/-- A state relation that every allowed call keeps, with alike replies. -/
def Respects (perform : (c : κ) → σ → Except ε (Reply c) × σ) (Allowed : κ → Prop)
    (Alike : (c : κ) → Except ε (Reply c) → Except ε (Reply c) → Prop)
    (Sim : σ → σ → Prop) : Prop :=
  ∀ c s t, Allowed c → Sim s t →
    Alike c (perform c s).1 (perform c t).1 ∧ Sim (perform c s).2 (perform c t).2

variable {perform : (c : κ) → σ → Except ε (Reply c) × σ} {Sim : σ → σ → Prop}

/-- From related states a blind program goes the same way. -/
theorem Blind.step {p : Program ε Reply α} (hp : Blind Allowed Alike Q p)
    (hr : Respects perform Allowed Alike Sim) (hrefl : ∀ s, Sim s s) (s t : σ) (hst : Sim s t) :
    (p.step perform s).1 = (p.step perform t).1 ∧
      Sim (p.step perform s).2 (p.step perform t).2 ∧
      Blind Allowed Alike Q (p.step perform s).1 := by
  cases p with
  | done a => exact ⟨rfl, hst, hp⟩
  | call c next =>
    obtain ⟨hc, halike, hnext⟩ := hp
    obtain ⟨hreply, hafter⟩ := hr c s t hc hst
    have hself := (hr c s s hc (hrefl s)).1
    exact ⟨halike _ _ hreply, hafter, hnext _ hself⟩

end Blind
end Program

/-- A program that may raise. -/
abbrev Fallible (ε : Type) {κ : Type} (Reply : κ → Type) : Type → Type :=
  ExceptT ε (Program ε Reply)

namespace Fallible

variable {ε κ α β : Type} {Reply : κ → Type}

def perform (c : κ) : Fallible ε Reply (Reply c) := ExceptT.mk (.call c .done)

variable (Allowed : κ → Prop) (Alike : (c : κ) → Except ε (Reply c) → Except ε (Reply c) → Prop)

/-- A blind program whose values, when it does not raise, meet `Q`. -/
def Blind (Q : α → Prop) (m : Fallible ε Reply α) : Prop :=
  Program.Blind Allowed Alike (fun r => ∀ a, r = .ok a → Q a) (ExceptT.run m)

variable {Allowed Alike} {Q : α → Prop} {R : β → Prop}

theorem blind_pure (a : α) (ha : Q a) : Blind Allowed Alike Q (pure a : Fallible ε Reply α) := by
  intro b hb
  rw [← Except.ok.inj hb]
  exact ha

theorem blind_lift (r : Except ε α) (hr : ∀ a, r = .ok a → Q a) :
    Blind Allowed Alike Q (liftM r : Fallible ε Reply α) := hr

theorem blind_bind {m : Fallible ε Reply α} {f : α → Fallible ε Reply β}
    (hm : Blind Allowed Alike Q m) (hf : ∀ a, Q a → Blind Allowed Alike R (f a)) :
    Blind Allowed Alike R (m >>= f) := by
  apply Program.blind_bind hm
  intro r hr
  cases r with
  | ok a => exact hf a (hr a rfl)
  | error e =>
    intro b hb
    cases hb

theorem blind_catch {m : Fallible ε Reply α} {f : ε → Fallible ε Reply α}
    (hm : Blind Allowed Alike Q m) (hf : ∀ e, Blind Allowed Alike Q (f e)) :
    Blind Allowed Alike Q (tryCatch m f) := by
  apply Program.blind_bind hm
  intro r hr
  cases r with
  | ok a => exact hr
  | error e => exact hf e

theorem Blind.weaken {m : Fallible ε Reply α} {Q' : α → Prop} (hm : Blind Allowed Alike Q m)
    (hq : ∀ a, Q a → Q' a) : Blind Allowed Alike Q' m :=
  Program.Blind.weaken hm fun _ hr a ha => hq a (hr a ha)

/-- A call whose reply is used through `view` only. -/
theorem blind_view {c : κ} {view : Reply c → β} (hc : Allowed c)
    (hok : ∀ a b, Alike c (.ok a) (.ok b) → view a = view b)
    (herror : ∀ e r, Alike c (.error e) r ∨ Alike c r (.error e) → r = .error e)
    (hview : ∀ a, Alike c (.ok a) (.ok a) → R (view a)) :
    Blind Allowed Alike R (do let a ← perform c; return view a : Fallible ε Reply β) := by
  refine ⟨hc, ?_, ?_⟩
  · intro r r' hr
    cases r with
    | error e =>
      rw [herror e r' (.inl hr)]
    | ok a =>
      cases r' with
      | error e => cases herror e (.ok a) (.inr hr)
      | ok b =>
        show ExceptT.run (pure (view a) : Fallible ε Reply β) = ExceptT.run (pure (view b))
        rw [hok a b hr]
  · intro r hr
    cases r with
    | ok a => exact blind_pure (view a) (hview a hr)
    | error e =>
      intro b hb
      cases hb

end Fallible

section Execute

variable {ε κ σ α β : Type} {Reply : κ → Type}
variable (perform : (c : κ) → σ → Except ε (Reply c) × σ)

/-- The whole of a program that no other thread interrupts. -/
def Program.exec : Program ε Reply α → σ → α × σ
  | .done a, s => (a, s)
  | .call c next, s => (next (perform c s).1).exec (perform c s).2

theorem Program.exec_bind (p : Program ε Reply α) (f : α → Program ε Reply β) (s : σ) :
    (p >>= f).exec perform s =
      (f (p.exec perform s).1).exec perform (p.exec perform s).2 := by
  induction p generalizing s with
  | done a => rfl
  | call c next ih => exact ih (perform c s).1 (perform c s).2

variable {perform} in
/-- Two performers that agree on every call a program makes run it alike. -/
theorem Program.exec_agree {perform' : (c : κ) → σ → Except ε (Reply c) × σ} {Allowed : κ → Prop}
    (hsame : ∀ c s, Allowed c → perform c s = perform' c s) {Q : α → Prop}
    {p : Program ε Reply α} (hp : p.Blind Allowed (fun _ r r' => r = r') Q) (s : σ) :
    p.exec perform s = p.exec perform' s := by
  induction p generalizing s with
  | done a => rfl
  | call c next ih =>
    obtain ⟨hc, -, hnext⟩ := hp
    rw [exec, exec, hsame c s hc]
    exact ih _ (hnext _ rfl) _

namespace Fallible

/-- What a program that may raise returns, and the state it leaves. -/
def exec (m : Fallible ε Reply α) (s : σ) : Except ε α × σ := Program.exec perform (ExceptT.run m) s

theorem exec_bind (m : Fallible ε Reply α) (f : α → Fallible ε Reply β) (s : σ) :
    exec perform (m >>= f) s =
      match exec perform m s with
      | (.ok a, t) => exec perform (f a) t
      | (.error e, t) => (.error e, t) := by
  have hbind := Program.exec_bind perform (ExceptT.run m) (ExceptT.bindCont fun a => f a) s
  refine (show exec perform (m >>= f) s = _ from hbind).trans ?_
  show Program.exec perform (ExceptT.bindCont (fun a => f a) (exec perform m s).1)
    (exec perform m s).2 = _
  generalize exec perform m s = r
  obtain ⟨r, t⟩ := r
  cases r <;> rfl

theorem exec_catch (m : Fallible ε Reply α) (f : ε → Fallible ε Reply α) (s : σ) :
    exec perform (tryCatch m f) s =
      match exec perform m s with
      | (.ok a, t) => (.ok a, t)
      | (.error e, t) => exec perform (f e) t := by
  have hbind := Program.exec_bind perform (ExceptT.run m)
    (fun r => match r with | .ok a => pure (.ok a) | .error e => ExceptT.run (f e)) s
  refine (show exec perform (tryCatch m f) s = _ from hbind).trans ?_
  show Program.exec perform (match (exec perform m s).1 with
    | .ok a => pure (.ok a)
    | .error e => ExceptT.run (f e)) (exec perform m s).2 = _
  generalize exec perform m s = r
  obtain ⟨r, t⟩ := r
  cases r <;> rfl

variable {perform}

theorem exec_agree {perform' : (c : κ) → σ → Except ε (Reply c) × σ} {Allowed : κ → Prop}
    (hsame : ∀ c s, Allowed c → perform c s = perform' c s) {Q : α → Prop}
    {m : Fallible ε Reply α} (hm : Blind Allowed (fun _ r r' => r = r') Q m) (s : σ) :
    exec perform m s = exec perform' m s := Program.exec_agree hsame hm s

theorem blind_call {Allowed : κ → Prop} {c : κ} (hc : Allowed c) :
    Blind Allowed (fun _ r r' => r = r') (fun _ => True)
      (Fallible.perform c : Fallible ε Reply (Reply c)) := by
  refine ⟨hc, ?_, ?_⟩
  · intro r r' heq
    rw [heq]
  · intro _ _ _ _
    trivial

theorem exec_bind_ok {m : Fallible ε Reply α} {f : α → Fallible ε Reply β} {s t : σ} {a : α}
    (h : exec perform m s = (.ok a, t)) :
    exec perform (m >>= f) s = exec perform (f a) t := by
  rw [exec_bind, h]

theorem exec_bind_error {m : Fallible ε Reply α} {f : α → Fallible ε Reply β} {s t : σ} {e : ε}
    (h : exec perform m s = (.error e, t)) : exec perform (m >>= f) s = (.error e, t) := by
  rw [exec_bind, h]

theorem exec_catch_ok {m : Fallible ε Reply α} {f : ε → Fallible ε Reply α} {s t : σ} {a : α}
    (h : exec perform m s = (.ok a, t)) : exec perform (tryCatch m f) s = (.ok a, t) := by
  rw [exec_catch, h]

end Fallible
end Execute
end Elyra
