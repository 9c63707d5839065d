import Elyra.Framework.Dict
import Elyra.Framework.Effects

namespace Elyra

section Emits

variable {σ α β : Type} {P Q : β → Prop}

/-- Every list that a computation returns holds items of which `P` is true. -/
def Emits (P : β → Prop) (m : Py σ (List β)) : Prop :=
  ∀ s bs t, m s = .ok bs t → ∀ b ∈ bs, P b

/-- A loop that appends what `f` gives; `stop` is asked before each element, with the number of
items so far. -/
def collect (stop : Nat → Py σ Bool) (f : α → Py σ (Option β)) : List α → List β → Py σ (List β)
  | [], acc => pure acc
  | a :: rest, acc => do
    if ← stop acc.length then return acc
    match ← f a with
    | none => collect stop f rest acc
    | some b => collect stop f rest (acc ++ [b])

namespace Emits

theorem nil : Emits P (pure [] : Py σ (List β)) := by
  intro s bs t h b hb
  cases h
  cases hb

theorem imp {m : Py σ (List β)} (h : Emits P m) (hPQ : ∀ b, P b → Q b) : Emits Q m :=
  fun s bs t hm b hb => hPQ b (h s bs t hm b hb)

theorem bind {γ : Type} {m : Py σ γ} {f : γ → Py σ (List β)} (h : ∀ c, Emits P (f c)) :
    Emits P (m >>= f) := by
  intro s bs t hm
  obtain ⟨c, u, -, hf⟩ := run_bind_ok hm
  exact h c u bs t hf

theorem ite {c : Prop} [Decidable c] {m n : Py σ (List β)} (hm : c → Emits P m)
    (hn : ¬c → Emits P n) : Emits P (if c then m else n) := by
  by_cases hc : c
  · rw [if_pos hc]
    exact hm hc
  · rw [if_neg hc]
    exact hn hc

/-- What comes after an emission may use that its items are as `P` says. -/
theorem bind_items {γ : Type} {m : Py σ (List γ)} {R : γ → Prop} (hm : Emits R m)
    {f : List γ → Py σ (List β)} (h : ∀ cs, (∀ c ∈ cs, R c) → Emits P (f cs)) :
    Emits P (m >>= f) := by
  intro s bs t hrun
  obtain ⟨cs, u, hcs, hf⟩ := run_bind_ok hrun
  exact h cs (hm s cs u hcs) u bs t hf

theorem return_of {bs : List β} (h : ∀ b ∈ bs, P b) : Emits P (pure bs : Py σ (List β)) := by
  intro s cs t hrun
  cases hrun
  exact h

theorem collect {stop : Nat → Py σ Bool} {f : α → Py σ (Option β)} {l : List α}
    (hf : ∀ a ∈ l, ∀ s b t, f a s = .ok (some b) t → P b) {acc : List β} (hacc : ∀ b ∈ acc, P b) :
    Emits P (collect stop f l acc) := by
  induction l generalizing acc with
  | nil => exact return_of hacc
  | cons a l ih =>
    have hrest := fun c hc => hf c (List.mem_cons_of_mem a hc)
    intro s bs t hrun
    obtain ⟨b, u, -, hrun⟩ := run_bind_ok hrun
    cases b with
    | true =>
      cases hrun
      exact hacc
    | false =>
      obtain ⟨o, v, ho, hrun⟩ := run_bind_ok hrun
      cases o with
      | none => exact ih hrest hacc v bs t hrun
      | some b =>
        refine ih hrest ?_ v bs t hrun
        intro c hc
        obtain hc | hc := List.mem_append.mp hc
        · exact hacc c hc
        · rw [List.mem_singleton.mp hc]
          exact hf a List.mem_cons_self u b v ho

end Emits
end Emits

section Best

variable {α κ : Type*} [DecidableEq κ] (key : α → κ) (beats : α → α → Bool)

/-- The first row of a key stays until one beats it. -/
def keepBestBy (best : Dict κ α) (a : α) : Dict κ α :=
  match best.get? (key a) with
  | none => best.set (key a) a
  | some prev => if beats a prev then best.set (key a) a else best

def bestBy (l : List α) : Dict κ α := l.foldl (keepBestBy key beats) .empty

variable {key beats}

theorem keepBestBy_get? {best : Dict κ α} {a b : α} {k : κ}
    (h : (keepBestBy key beats best a).get? k = some b) :
    best.get? k = some b ∨ b = a ∧ k = key a := by
  have hset (h : (best.set (key a) a).get? k = some b) :
      best.get? k = some b ∨ b = a ∧ k = key a := by
    rw [Dict.get?_set] at h
    split_ifs at h with hk
    · exact .inr ⟨(Option.some.inj h).symm, hk.symm⟩
    · exact .inl h
  rw [keepBestBy] at h
  cases hprev : best.get? (key a) with
  | none =>
    rw [hprev] at h
    exact hset h
  | some prev =>
    rw [hprev] at h
    dsimp only at h
    split_ifs at h
    · exact hset h
    · exact .inl h

/-- The best row of a key is a row of that key. -/
theorem bestBy_get? {l : List α} {k : κ} {a : α} (h : (bestBy key beats l).get? k = some a) :
    a ∈ l ∧ key a = k := by
  have hfold : ∀ (rest : List α) (best : Dict κ α),
      (∀ k a, best.get? k = some a → a ∈ l ∧ key a = k) → (∀ a ∈ rest, a ∈ l) →
      ∀ k a, (rest.foldl (keepBestBy key beats) best).get? k = some a → a ∈ l ∧ key a = k := by
    intro rest
    induction rest with
    | nil => exact fun _ hbest _ => hbest
    | cons b rest ih =>
      intro best hbest hrest
      apply ih _ _ (fun a ha => hrest a (List.mem_cons_of_mem b ha))
      intro k a ha
      obtain ha | ⟨rfl, rfl⟩ := keepBestBy_get? ha
      · exact hbest k a ha
      · exact ⟨hrest a List.mem_cons_self, rfl⟩
  exact hfold l .empty (fun _ _ h => (nomatch h)) (fun _ ha => ha) k a h

theorem mem_bestBy {l : List α} {a : α} (h : a ∈ (bestBy key beats l).values) : a ∈ l := by
  obtain ⟨k, hk⟩ := (Dict.mem_values _ a).mp h
  exact (bestBy_get? hk).1

/-- There is one row for each key. -/
theorem nodup_bestBy (l : List α) : ((bestBy key beats l).values.map key).Nodup := by
  have hkeys : (bestBy key beats l).values.map key = (bestBy key beats l).keys := by
    rw [Dict.values, Dict.keys, List.map_map]
    apply List.map_congr_left
    intro e he
    exact (bestBy_get? ((Dict.get?_eq_some_iff _ e.1 e.2).mpr he)).2
  rw [hkeys]
  exact (bestBy key beats l).keys_nodup

end Best
end Elyra
