import Mathlib.Data.List.Basic
import Mathlib.Data.List.Induction

namespace Elyra

variable {σ α : Type*} (step : σ → α → σ)

/-- The state a list of calls leads to. -/
def run (s : σ) (calls : List α) : σ := calls.foldl step s

/-- Every call of a run meets `P` in the state it finds. -/
def Along (P : σ → α → Prop) : σ → List α → Prop
  | _, [] => True
  | s, a :: calls => P s a ∧ Along P (step s a) calls

instance decidableAlong (P : σ → α → Prop) [∀ s a, Decidable (P s a)] :
    ∀ s calls, Decidable (Along step P s calls)
  | _, [] => isTrue trivial
  | s, a :: calls =>
    have : Decidable (Along step P (step s a) calls) := decidableAlong P (step s a) calls
    inferInstanceAs (Decidable (P s a ∧ Along step P (step s a) calls))

@[simp] theorem run_nil (s : σ) : run step s [] = s := rfl

@[simp] theorem run_cons (s : σ) (a : α) (calls : List α) :
    run step s (a :: calls) = run step (step s a) calls := rfl

theorem run_append (s : σ) (as bs : List α) :
    run step s (as ++ bs) = run step (run step s as) bs := by
  rw [run, List.foldl_append]
  rfl

theorem run_snoc (s : σ) (as : List α) (a : α) :
    run step s (as ++ [a]) = step (run step s as) a := by
  rw [run_append]
  rfl

variable {step}

/-- What every call that meets `P` preserves holds after a run of such calls. -/
theorem Along.invariant {P : σ → α → Prop} (I : σ → Prop)
    (hstep : ∀ s a, P s a → I s → I (step s a)) (s : σ) (calls : List α)
    (hp : Along step P s calls) (hs : I s) : I (run step s calls) := by
  induction calls generalizing s with
  | nil => exact hs
  | cons a calls ih =>
    obtain ⟨ha, hrest⟩ := hp
    have hnext : I (step s a) := hstep s a ha hs
    exact ih (step s a) hrest hnext

/-- What every such call shows where the invariant holds is shown along the run. -/
theorem Along.shows {P Q : σ → α → Prop} (I : σ → Prop)
    (hstep : ∀ s a, P s a → I s → I (step s a) ∧ Q s a) (s : σ) (calls : List α)
    (hp : Along step P s calls) (hs : I s) :
    I (run step s calls) ∧ Along step Q s calls := by
  induction calls generalizing s with
  | nil => exact ⟨hs, trivial⟩
  | cons a calls ih =>
    obtain ⟨ha, hrest⟩ := hp
    obtain ⟨hnext, hq⟩ := hstep s a ha hs
    obtain ⟨hend, hqs⟩ := ih (step s a) hrest hnext
    exact ⟨hend, hq, hqs⟩

theorem run_invariant (I : σ → Prop) (hstep : ∀ s a, I s → I (step s a)) (s : σ)
    (calls : List α) (hs : I s) : I (run step s calls) := by
  induction calls generalizing s with
  | nil => exact hs
  | cons a calls ih => exact ih (step s a) (hstep s a hs)

theorem along_append {P : σ → α → Prop} (s : σ) (as bs : List α) :
    Along step P s (as ++ bs) ↔ Along step P s as ∧ Along step P (run step s as) bs := by
  induction as generalizing s with
  | nil => simp [Along]
  | cons a as ih => simp only [List.cons_append, Along, ih, run_cons, and_assoc]

theorem Along.mono {P Q : σ → α → Prop} (h : ∀ s a, P s a → Q s a) (s : σ) (calls : List α)
    (hp : Along step P s calls) : Along step Q s calls := by
  induction calls generalizing s with
  | nil => trivial
  | cons a calls ih => exact ⟨h s a hp.1, ih (step s a) hp.2⟩

theorem Along.and {P Q : σ → α → Prop} {s : σ} {calls : List α} (hp : Along step P s calls)
    (hq : Along step Q s calls) : Along step (fun s a => P s a ∧ Q s a) s calls := by
  induction calls generalizing s with
  | nil => trivial
  | cons a calls ih => exact ⟨⟨hp.1, hq.1⟩, ih hp.2 hq.2⟩


section Replay

variable {κ ε σ : Type*} [DecidableEq κ] (key : ε → κ) (evolve : Option σ → ε → Option σ)

/-- The state of each key after an event log: its own events applied in order. -/
def replay (events : List ε) (k : κ) : Option σ :=
  (events.filter (fun e => key e = k)).foldl evolve none

@[simp] theorem replay_nil (k : κ) : replay key evolve [] k = none := rfl

theorem replay_snoc (events : List ε) (e : ε) (k : κ) :
    replay key evolve (events ++ [e]) k =
      if key e = k then evolve (replay key evolve events k) e else replay key evolve events k := by
  unfold replay
  split_ifs with h <;> simp [List.filter_append, h]

theorem replay_of_not_mem (events : List ε) (k : κ) (h : ∀ e ∈ events, key e ≠ k) :
    replay key evolve events k = none := by
  have hnil : events.filter (fun e => key e = k) = [] := by
    rw [List.filter_eq_nil_iff]
    intro e he
    simpa using h e he
  rw [replay, hnil, List.foldl_nil]

end Replay
end Elyra
