import Elyra.Framework.Effects

namespace Elyra

/-- How one file operation goes: done, refused by the system, or never reached because the process
died before it. -/
inductive Outcome where
  | done | raises | dies
  deriving DecidableEq

/-- What ends a computation early: an exception, or the death of the process. -/
inductive Fault where
  | raised (e : PyErr)
  | died
  deriving DecidableEq

/-- What the operations work on, and how the next of them go; past the plan every one is done. -/
structure Faulty (σ : Type) where
  disk : σ
  plan : List Outcome

abbrev FileM (σ α : Type) := EStateM Fault (Faulty σ) α

section Operations

variable {σ α β : Type}

/-- A file operation that returns something. -/
def operationWith (f : σ → α × σ) : FileM σ α := fun s =>
  match s.plan with
  | [] => .ok (f s.disk).1 ⟨(f s.disk).2, []⟩
  | .done :: plan => .ok (f s.disk).1 ⟨(f s.disk).2, plan⟩
  | .raises :: plan => .error (.raised .osError) ⟨s.disk, plan⟩
  | .dies :: plan => .error .died ⟨s.disk, plan⟩

def operation (f : σ → σ) : FileM σ Unit := operationWith fun d => ((), f d)

/-- What the operations so far left, without an operation. -/
def look : FileM σ σ := fun s => .ok s.disk s

/-- A change of what the process itself holds. -/
def note (f : σ → σ) : FileM σ Unit := fun s => .ok () ⟨f s.disk, s.plan⟩

def raise (e : PyErr) : FileM σ α := throw (.raised e)

/-- A step that touches no file and may raise. -/
def attempt : Except PyErr α → FileM σ α
  | .ok a => pure a
  | .error e => raise e

/-- `try: m except Exception: handle`; nothing catches a death. -/
def tryExcept (m : FileM σ α) (handle : PyErr → FileM σ α) : FileM σ α := fun s =>
  match m s with
  | .error (.raised e) t => handle e t
  | r => r

/-- From a disk that meets `P` a computation returns into `Q` or ends early in `E`. -/
def Triple (P : σ → Prop) (m : FileM σ α) (Q : α → σ → Prop) (E : Fault → σ → Prop) : Prop :=
  ∀ s : Faulty σ, P s.disk → match m s with
    | .ok a t => Q a t.disk
    | .error e t => E e t.disk

end Operations

section Rules

variable {σ α β : Type} {P : σ → Prop} {Q : α → σ → Prop} {E : Fault → σ → Prop}

theorem triple_pure (a : α) (h : ∀ d, P d → Q a d) : Triple P (pure a) Q E := fun s hs => h s.disk hs

theorem triple_raise (e : PyErr) (h : ∀ d, P d → E (.raised e) d) : Triple P (raise e) Q E :=
  fun s hs => h s.disk hs

theorem triple_note {Q : Unit → σ → Prop} (f : σ → σ) (h : ∀ d, P d → Q () (f d)) :
    Triple P (note f) Q E := fun s hs => h s.disk hs

theorem triple_operationWith (f : σ → α × σ) (hdone : ∀ d, P d → Q (f d).1 (f d).2)
    (hraised : ∀ d, P d → E (.raised .osError) d) (hdied : ∀ d, P d → E .died d) :
    Triple P (operationWith f) Q E := by
  intro s hs
  unfold operationWith
  cases s.plan with
  | nil => exact hdone s.disk hs
  | cons o plan =>
    cases o with
    | done => exact hdone s.disk hs
    | raises => exact hraised s.disk hs
    | dies => exact hdied s.disk hs

theorem triple_operation {Q : Unit → σ → Prop} (f : σ → σ) (hdone : ∀ d, P d → Q () (f d))
    (hraised : ∀ d, P d → E (.raised .osError) d) (hdied : ∀ d, P d → E .died d) :
    Triple P (operation f) Q E :=
  triple_operationWith _ hdone hraised hdied

theorem triple_bind {m : FileM σ α} {f : α → FileM σ β} {R : β → σ → Prop}
    (hm : Triple P m Q E) (hf : ∀ a, Triple (Q a) (f a) R E) : Triple P (m >>= f) R E := by
  intro s hs
  have hfirst := hm s hs
  rw [run_bind]
  cases h : m s with
  | ok a t =>
    rw [h] at hfirst
    exact hf a t hfirst
  | error e t =>
    rw [h] at hfirst
    exact hfirst

/-- What a look finds is what the rest starts from. -/
theorem triple_look_bind {f : σ → FileM σ β} {R : β → σ → Prop}
    (hf : ∀ d, P d → Triple (· = d) (f d) R E) : Triple P (look >>= f) R E :=
  fun s hs => hf s.disk hs s rfl

theorem triple_each {m : FileM σ α} (h : ∀ d, P d → Triple (· = d) m Q E) : Triple P m Q E :=
  fun s hs => h s.disk hs s rfl

theorem triple_attempt (r : Except PyErr α) (hok : ∀ a d, r = .ok a → P d → Q a d)
    (herror : ∀ e d, P d → E (.raised e) d) : Triple P (attempt r) Q E := by
  cases r with
  | ok a => exact triple_pure a fun d hd => hok a d rfl hd
  | error e => exact triple_raise e (herror e)

theorem triple_ite {c : Prop} [Decidable c] {m n : FileM σ α} (hm : c → Triple P m Q E)
    (hn : ¬c → Triple P n Q E) : Triple P (if c then m else n) Q E := by
  by_cases hc : c
  · rw [if_pos hc]
    exact hm hc
  · rw [if_neg hc]
    exact hn hc

theorem triple_tryExcept {m : FileM σ α} {handle : PyErr → FileM σ α} {F : Fault → σ → Prop}
    (hm : Triple P m Q F) (hdied : ∀ d, F .died d → E .died d)
    (hhandle : ∀ e, Triple (F (.raised e)) (handle e) Q E) :
    Triple P (tryExcept m handle) Q E := by
  intro s hs
  have hfirst := hm s hs
  unfold tryExcept
  cases h : m s with
  | ok a t =>
    rw [h] at hfirst
    exact hfirst
  | error e t =>
    rw [h] at hfirst
    cases e with
    | raised e => exact hhandle e t hfirst
    | died => exact hdied t.disk hfirst

theorem Triple.weaken {P' : σ → Prop} {m : FileM σ α} {Q' : α → σ → Prop} {E' : Fault → σ → Prop}
    (h : Triple P m Q E) (hp : ∀ d, P' d → P d) (hq : ∀ a d, Q a d → Q' a d)
    (he : ∀ e d, E e d → E' e d) : Triple P' m Q' E' := by
  intro s hs
  have hrun := h s (hp s.disk hs)
  cases hm : m s with
  | ok a t =>
    rw [hm] at hrun
    exact hq a t.disk hrun
  | error e t =>
    rw [hm] at hrun
    exact he e t.disk hrun

theorem Triple.start {m : FileM σ α} (h : Triple P m Q E) {d : σ} (hd : P d) :
    Triple (· = d) m Q E := by
  apply h.weaken
  · intro u hu
    rw [hu]
    exact hd
  · exact fun _ _ hq => hq
  · exact fun _ _ he => he

end Rules

end Elyra
