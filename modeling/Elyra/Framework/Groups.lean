import Elyra.Framework.Dict
import Elyra.Framework.Effects
import Mathlib.Data.List.Induction

namespace Elyra

section Present

variable {κ ν : Type*} [DecidableEq κ]

theorem Dict.putItem_present (l : List (κ × ν)) (k : κ) (v : ν)
    (hnodup : (l.map Prod.fst).Nodup) (h : k ∈ l.map Prod.fst) :
    Dict.putItem l k v = l.map (fun p => if p.1 = k then (k, v) else p) := by
  induction l with
  | nil => cases h
  | cons p l ih =>
    obtain ⟨x, w⟩ := p
    rw [List.map_cons, List.nodup_cons] at hnodup
    obtain ⟨hhead, hnodup⟩ := hnodup
    by_cases hk : x = k
    · subst hk
      have hrest : l.map (fun q => if q.1 = x then (x, v) else q) = l.map (fun q => q) := by
        apply List.map_congr_left
        intro q hq
        rw [if_neg]
        intro heq
        have hmem : q.1 ∈ l.map Prod.fst := List.mem_map_of_mem hq
        rw [heq] at hmem
        exact hhead hmem
      rw [List.map_cons, if_pos rfl, hrest, List.map_id', Dict.putItem, if_pos rfl]
    · have hin : k ∈ l.map Prod.fst := by
        cases List.mem_cons.mp h with
        | inl heq => exact absurd heq.symm hk
        | inr hin => exact hin
      rw [List.map_cons, if_neg hk, ← ih hnodup hin, Dict.putItem, if_neg hk]

end Present

/-! Results collected row by row. -/

section Collect

variable {α β γ ε : Type} {R : α → β → Prop} {l : List α} {m : List β}

theorem mapM_forall₂ {f : α → Except ε β} (h : l.mapM f = .ok m) :
    List.Forall₂ (fun a b => f a = .ok b) l m := by
  induction l generalizing m with
  | nil =>
    rw [← Except.ok.inj h]
    exact List.Forall₂.nil
  | cons a l ih =>
    rw [List.mapM_cons] at h
    obtain ⟨b, hb, h⟩ := except_bind_ok h
    obtain ⟨rest, hrest, h⟩ := except_bind_ok h
    rw [← Except.ok.inj h]
    exact List.Forall₂.cons hb (ih hrest)

/-- A collected result is that of some row. -/
theorem mem_mapM {f : α → Except ε β} (h : l.mapM f = .ok m) {b : β} (hb : b ∈ m) :
    ∃ a ∈ l, f a = .ok b := by
  have hall := mapM_forall₂ h
  obtain ⟨i, hi, rfl⟩ := List.getElem_of_mem hb
  have hlen := hall.length_eq
  have hi' : i < l.length := by omega
  exact ⟨l[i], List.getElem_mem hi', hall.get hi' hi⟩

theorem exists_mem_forall₂ (h : List.Forall₂ R l m) {p : α → Prop} {q : β → Prop}
    (hpq : ∀ a b, R a b → (p a ↔ q b)) : (∃ a ∈ l, p a) ↔ ∃ b ∈ m, q b := by
  induction h with
  | nil => simp
  | cons hab _ ih => rw [List.exists_mem_cons_iff, List.exists_mem_cons_iff, hpq _ _ hab, ih]

theorem pairwise_forall₂ (h : List.Forall₂ R l m) {P : α → α → Prop} {Q : β → β → Prop}
    (hl : l.Pairwise P) (hPQ : ∀ a b c d, R a c → R b d → P a b → Q c d) : m.Pairwise Q := by
  rw [List.pairwise_iff_getElem] at hl ⊢
  intro i j hi hj hij
  have hlen := h.length_eq
  have hi' : i < l.length := by omega
  have hj' : j < l.length := by omega
  exact hPQ _ _ _ _ (h.get hi' hi) (h.get hj' hj) (hl i j hi' hj' hij)

end Collect

/-! Rows grouped by an optional key, in a dictionary that keeps its insertion order. -/

section Groups

variable {α κ : Type*} [DecidableEq κ] (key : α → Option κ)

/-- The row joins the group of its key. -/
def addToGroup (groups : Dict κ (List α)) (a : α) : Dict κ (List α) :=
  match key a with
  | none => groups
  | some k => groups.set k ((groups.get? k).getD [] ++ [a])

def groupRows (rows : List α) : Dict κ (List α) := rows.foldl (addToGroup key) .empty

def rowsOf (rows : List α) (k : κ) : List α := rows.filter fun a => key a = some k

def addKey (seen : List κ) (k : κ) : List κ := if k ∈ seen then seen else seen ++ [k]

/-- The keys of the rows, each where it comes first. -/
def firstKeys (rows : List α) : List κ := (rows.filterMap key).foldl addKey []

variable {key}

theorem groupRows_append (rows : List α) (a : α) :
    groupRows key (rows ++ [a]) = addToGroup key (groupRows key rows) a := by
  rw [groupRows, List.foldl_append]
  rfl

theorem firstKeys_none {a : α} (h : key a = none) (rows : List α) :
    firstKeys key (rows ++ [a]) = firstKeys key rows := by
  simp [firstKeys, h]

theorem firstKeys_some {a : α} {k : κ} (h : key a = some k) (rows : List α) :
    firstKeys key (rows ++ [a]) = addKey (firstKeys key rows) k := by
  simp [firstKeys, h]

theorem rowsOf_append (rows : List α) (a : α) (k : κ) :
    rowsOf key (rows ++ [a]) k = rowsOf key rows k ++ if key a = some k then [a] else [] := by
  rw [rowsOf, List.filter_append, rowsOf]
  congr 1
  split_ifs with hkey <;> simp [hkey]

theorem mem_addKey {seen : List κ} {k x : κ} : x ∈ addKey seen k ↔ x ∈ seen ∨ x = k := by
  unfold addKey
  split_ifs with hmem
  · constructor
    · exact .inl
    · rintro (hx | rfl)
      · exact hx
      · exact hmem
  · rw [List.mem_append, List.mem_singleton]

theorem mem_firstKeys (rows : List α) (k : κ) :
    k ∈ firstKeys key rows ↔ rowsOf key rows k ≠ [] := by
  induction rows using List.reverseRecOn with
  | nil => simp [firstKeys, rowsOf]
  | append_singleton rows a ih =>
    rw [rowsOf_append]
    cases hkey : key a with
    | none =>
      rw [firstKeys_none hkey, ih]
      simp
    | some x =>
      rw [firstKeys_some hkey, mem_addKey, ih]
      by_cases hx : x = k
      · subst hx
        simp
      · simp [hx, Ne.symm hx]

/-- The groups are the keys in order, each with its rows in order. -/
theorem groupRows_items (rows : List α) :
    (groupRows key rows).items = (firstKeys key rows).map fun k => (k, rowsOf key rows k) := by
  induction rows using List.reverseRecOn with
  | nil => rfl
  | append_singleton rows a ih =>
    rw [groupRows_append, addToGroup]
    cases hkey : key a with
    | none =>
      rw [firstKeys_none hkey, ih]
      apply List.map_congr_left
      intro k _
      rw [rowsOf_append, hkey]
      simp
    | some x =>
      have hrows : ∀ k, rowsOf key (rows ++ [a]) k =
          if k = x then rowsOf key rows k ++ [a] else rowsOf key rows k := by
        intro k
        rw [rowsOf_append, hkey]
        by_cases hk : k = x
        · rw [if_pos hk, if_pos (congrArg some hk.symm)]
        · have hne : some x ≠ some k := fun heq => hk (Option.some.inj heq).symm
          rw [if_neg hk, if_neg hne, List.append_nil]
      have hkeys : (groupRows key rows).items.map Prod.fst = firstKeys key rows := by
        rw [ih, List.map_map]
        exact List.map_id _
      rw [firstKeys_some hkey, addKey]
      show Dict.putItem (groupRows key rows).items x _ = _
      split_ifs with hmem
      · have hget : (groupRows key rows).get? x = some (rowsOf key rows x) := by
          rw [Dict.get?_eq_some_iff, ih]
          exact List.mem_map_of_mem hmem
        rw [Dict.putItem_present _ _ _ (groupRows key rows).nodup (by rw [hkeys]; exact hmem), hget,
          ih, List.map_map]
        apply List.map_congr_left
        intro k _
        rw [hrows]
        by_cases hk : k = x
        · subst hk
          simp
        · simp [hk]
      · have hget : (groupRows key rows).get? x = none := by
          rw [← Dict.not_mem_keys, Dict.keys, hkeys]
          exact hmem
        have hempty : rowsOf key rows x = [] := by
          by_contra hne
          exact hmem ((mem_firstKeys rows x).mpr hne)
        rw [Dict.putItem_of_not_mem _ _ _ (by rw [hkeys]; exact hmem), hget, ih, List.map_append]
        congr 1
        · apply List.map_congr_left
          intro k hk
          rw [hrows, if_neg]
          rintro rfl
          exact hmem hk
        · rw [List.map_singleton, hrows, if_pos rfl, hempty]
          rfl

/-- The first rows of the groups come in the order of the rows. -/
theorem firstKeys_heads {R : α → α → Prop} (rows : List α) (h : rows.Pairwise R) :
    (firstKeys key rows).Pairwise fun k l =>
      ∀ a ∈ (rowsOf key rows k).head?, ∀ b ∈ (rowsOf key rows l).head?, R a b := by
  induction rows using List.reverseRecOn with
  | nil => exact List.Pairwise.nil
  | append_singleton rows a ih =>
    rw [List.pairwise_append] at h
    obtain ⟨hrows, -, hlast⟩ := h
    have hhead : ∀ k ∈ firstKeys key rows,
        (rowsOf key (rows ++ [a]) k).head? = (rowsOf key rows k).head? := by
      intro k hk
      rw [rowsOf_append]
      exact List.head?_append_of_ne_nil _ ((mem_firstKeys rows k).mp hk)
    have hold : (firstKeys key rows).Pairwise fun k l =>
        ∀ b ∈ (rowsOf key (rows ++ [a]) k).head?, ∀ c ∈ (rowsOf key (rows ++ [a]) l).head?,
          R b c := by
      refine (ih hrows).imp_of_mem ?_
      intro k l hk hl hheads
      rw [hhead k hk, hhead l hl]
      exact hheads
    cases hkey : key a with
    | none =>
      rw [firstKeys_none hkey]
      exact hold
    | some x =>
      rw [firstKeys_some hkey, addKey]
      split_ifs with hmem
      · exact hold
      · rw [List.pairwise_append]
        refine ⟨hold, List.pairwise_singleton _ _, ?_⟩
        intro k hk l hl b hb c hc
        rw [List.mem_singleton.mp hl, rowsOf_append, hkey, if_pos rfl] at hc
        have hempty : rowsOf key rows x = [] := by
          by_contra hne
          exact hmem ((mem_firstKeys rows x).mpr hne)
        rw [hempty] at hc
        obtain rfl : a = c := by simpa using hc
        rw [hhead k hk] at hb
        have hin := List.mem_of_mem_head? hb
        exact hlast b (List.mem_filter.mp hin).1 a (List.mem_singleton.mpr rfl)

end Groups

end Elyra
