import Mathlib.Data.List.Nodup

namespace Elyra

/-- An insertion-ordered map: writing a present key keeps its position. -/
structure Dict (κ ν : Type*) where
  items : List (κ × ν)
  nodup : (items.map Prod.fst).Nodup
  deriving DecidableEq

namespace Dict

variable {κ ν : Type*} [DecidableEq κ]

def findItem : List (κ × ν) → κ → Option ν
  | [], _ => none
  | (k, v) :: rest, x => if k = x then some v else findItem rest x

def putItem : List (κ × ν) → κ → ν → List (κ × ν)
  | [], x, v => [(x, v)]
  | (k, w) :: rest, x, v => if k = x then (x, v) :: rest else (k, w) :: putItem rest x v

theorem findItem_putItem (l : List (κ × ν)) (x y : κ) (v : ν) :
    findItem (putItem l x v) y = if x = y then some v else findItem l y := by
  induction l with
  | nil => simp [putItem, findItem]
  | cons p rest ih =>
    obtain ⟨k, w⟩ := p
    by_cases hx : k = x
    · subst k
      by_cases hy : x = y <;> simp [putItem, findItem, hy]
    · by_cases hy : k = y
      · subst k
        simp [putItem, findItem, hx, Ne.symm hx]
      · simp [putItem, findItem, hx, hy, ih]

theorem keys_putItem (l : List (κ × ν)) (x : κ) (v : ν) :
    (putItem l x v).map Prod.fst =
      if x ∈ l.map Prod.fst then l.map Prod.fst else l.map Prod.fst ++ [x] := by
  induction l with
  | nil => simp [putItem]
  | cons p rest ih =>
    obtain ⟨k, w⟩ := p
    by_cases hx : k = x
    · subst k
      simp [putItem]
    · by_cases hm : x ∈ rest.map Prod.fst
      · rw [if_pos hm] at ih
        simp only [putItem, hx, if_false, List.map_cons, ih]
        rw [if_pos (List.mem_cons_of_mem _ hm)]
      · rw [if_neg hm] at ih
        have hn : x ∉ k :: rest.map Prod.fst := by
          simp only [List.mem_cons, not_or]
          exact ⟨Ne.symm hx, hm⟩
        simp only [putItem, hx, if_false, List.map_cons, ih]
        rw [if_neg hn, List.cons_append]

theorem nodup_putItem (l : List (κ × ν)) (x : κ) (v : ν) (h : (l.map Prod.fst).Nodup) :
    ((putItem l x v).map Prod.fst).Nodup := by
  rw [keys_putItem]
  split_ifs with hm
  · exact h
  · rw [List.nodup_append]
    refine ⟨h, by simp, ?_⟩
    intro a ha b hb
    rw [List.mem_singleton.mp hb]
    exact fun he => hm (he ▸ ha)

theorem findItem_eq_some_iff (l : List (κ × ν)) (h : (l.map Prod.fst).Nodup) (x : κ) (v : ν) :
    findItem l x = some v ↔ (x, v) ∈ l := by
  induction l with
  | nil => simp [findItem]
  | cons p rest ih =>
    obtain ⟨k, w⟩ := p
    simp only [List.map_cons, List.nodup_cons] at h
    by_cases hk : k = x
    · subst k
      have hr : (x, v) ∉ rest := fun hm => h.1 (List.mem_map_of_mem (f := Prod.fst) hm)
      simp [findItem, hr, eq_comm]
    · simp [findItem, hk, Ne.symm hk, ih h.2]

def empty : Dict κ ν := ⟨[], by simp⟩

def get? (d : Dict κ ν) (k : κ) : Option ν := findItem d.items k

def set (d : Dict κ ν) (k : κ) (v : ν) : Dict κ ν :=
  ⟨putItem d.items k v, nodup_putItem d.items k v d.nodup⟩

def pop (d : Dict κ ν) (k : κ) : Dict κ ν :=
  ⟨d.items.filter (fun p => p.1 ≠ k),
    d.nodup.sublist (List.Sublist.map Prod.fst List.filter_sublist)⟩

def keys (d : Dict κ ν) : List κ := d.items.map Prod.fst

def values (d : Dict κ ν) : List ν := d.items.map Prod.snd

/-- Python's `d == e`: the same keys with the same values, in any order. -/
def Same (d e : Dict κ ν) : Prop := ∀ k, d.get? k = e.get? k

@[simp] theorem get?_empty (k : κ) : (empty : Dict κ ν).get? k = none := rfl

omit [DecidableEq κ] in
@[simp] theorem keys_empty : (empty : Dict κ ν).keys = [] := rfl

@[grind =] theorem get?_set (d : Dict κ ν) (x y : κ) (v : ν) :
    (d.set x v).get? y = if x = y then some v else d.get? y :=
  findItem_putItem d.items x y v

@[simp] theorem get?_set_self (d : Dict κ ν) (x : κ) (v : ν) : (d.set x v).get? x = some v := by
  simp [get?_set]

theorem get?_set_ne (d : Dict κ ν) {x y : κ} (v : ν) (h : x ≠ y) :
    (d.set x v).get? y = d.get? y := by
  simp [get?_set, h]

theorem get?_eq_some_iff (d : Dict κ ν) (k : κ) (v : ν) :
    d.get? k = some v ↔ (k, v) ∈ d.items :=
  findItem_eq_some_iff d.items d.nodup k v

@[grind =] theorem get?_pop (d : Dict κ ν) (x y : κ) :
    (d.pop x).get? y = if x = y then none else d.get? y := by
  apply Option.ext
  intro v
  rw [get?_eq_some_iff]
  by_cases h : x = y
  · subst y
    simp [pop]
  · simp [pop, h, get?_eq_some_iff, Ne.symm h]

theorem mem_keys (d : Dict κ ν) (k : κ) : k ∈ d.keys ↔ ∃ v, d.get? k = some v := by
  simp only [get?_eq_some_iff, keys, List.mem_map, Prod.exists, exists_and_right, exists_eq_right]

theorem mem_values (d : Dict κ ν) (v : ν) : v ∈ d.values ↔ ∃ k, d.get? k = some v := by
  simp only [get?_eq_some_iff, values, List.mem_map, Prod.exists, exists_eq_right]

omit [DecidableEq κ] in
theorem keys_nodup (d : Dict κ ν) : d.keys.Nodup := d.nodup

theorem not_mem_keys (d : Dict κ ν) (k : κ) : k ∉ d.keys ↔ d.get? k = none := by
  rw [mem_keys, Option.eq_none_iff_forall_ne_some]
  simp

/-- `dict(pairs)`: of a repeated key the first place and the last value stay. -/
def ofList (l : List (κ × ν)) : Dict κ ν := l.foldl (fun d p => d.set p.1 p.2) empty

theorem putItem_of_not_mem (l : List (κ × ν)) (x : κ) (v : ν) (h : x ∉ l.map Prod.fst) :
    putItem l x v = l ++ [(x, v)] := by
  induction l with
  | nil => rfl
  | cons p rest ih =>
    obtain ⟨k, w⟩ := p
    simp only [List.map_cons, List.mem_cons, not_or] at h
    rw [putItem, if_neg (Ne.symm h.1), ih h.2, List.cons_append]

theorem ofList_items (d : Dict κ ν) : ofList d.items = d := by
  have hfold : ∀ (l : List (κ × ν)) (e : Dict κ ν), ((e.items ++ l).map Prod.fst).Nodup →
      (l.foldl (fun d p => d.set p.1 p.2) e).items = e.items ++ l := by
    intro l
    induction l with
    | nil => simp
    | cons p rest ih =>
      intro e h
      have hp : p.1 ∉ e.items.map Prod.fst := by
        intro hm
        rw [List.map_append, List.nodup_append] at h
        exact h.2.2 p.1 hm p.1 (by simp) rfl
      have hset : (e.set p.1 p.2).items = e.items ++ [p] := putItem_of_not_mem e.items p.1 p.2 hp
      rw [List.foldl_cons, ih (e.set p.1 p.2) (by rw [hset]; simpa using h), hset]
      simp
  have hitems : (ofList d.items).items = d.items := by
    have h := hfold d.items empty (by simpa [empty] using d.nodup)
    simpa [empty, ofList] using h
  cases hd : ofList d.items
  cases d
  simp_all

theorem get?_ofList (l : List (κ × ν)) (h : (l.map Prod.fst).Nodup) (k : κ) :
    (ofList l).get? k = findItem l k := by
  rw [ofList_items ⟨l, h⟩]
  rfl

theorem putItem_same (l : List (κ × ν)) (x : κ) (v : ν) (h : findItem l x = some v) :
    putItem l x v = l := by
  induction l with
  | nil => cases h
  | cons p rest ih =>
    obtain ⟨k, w⟩ := p
    by_cases hk : k = x
    · subst k
      simp only [findItem, if_true, Option.some.injEq] at h
      simp [putItem, h]
    · simp only [findItem, hk, if_false] at h
      simp [putItem, hk, ih h]

theorem set_same {d : Dict κ ν} {x : κ} {v : ν} (h : d.get? x = some v) : d.set x v = d := by
  cases d with
  | mk items nodup =>
    simp only [set, mk.injEq]
    exact putItem_same items x v h

section MapValues

variable {μ : Type*} (f : ν → μ)

theorem findItem_map (l : List (κ × ν)) (x : κ) :
    findItem (l.map fun p => (p.1, f p.2)) x = (findItem l x).map f := by
  induction l with
  | nil => rfl
  | cons p rest ih =>
    by_cases h : p.1 = x <;> simp [findItem, h, ih]

theorem map_putItem (l : List (κ × ν)) (x : κ) (v : ν) :
    (putItem l x v).map (fun p => (p.1, f p.2)) =
      putItem (l.map fun p => (p.1, f p.2)) x (f v) := by
  induction l with
  | nil => rfl
  | cons p rest ih =>
    by_cases h : p.1 = x <;> simp [putItem, h, ih]

end MapValues

/-- The entries whose key meets `p`. -/
def filterKeys (p : κ → Bool) (d : Dict κ ν) : Dict κ ν :=
  ⟨d.items.filter (fun e => p e.1), d.nodup.sublist (List.Sublist.map Prod.fst List.filter_sublist)⟩

omit [DecidableEq κ] in
theorem filterKeys_filterKeys (p : κ → Bool) (d : Dict κ ν) :
    (d.filterKeys p).filterKeys p = d.filterKeys p := by
  simp [filterKeys]

theorem filter_putItem (p : κ → Bool) (l : List (κ × ν)) (x : κ) (v : ν) (h : p x = false) :
    (putItem l x v).filter (fun e => p e.1) = l.filter (fun e => p e.1) := by
  induction l with
  | nil => simp [putItem, h]
  | cons e rest ih =>
    obtain ⟨k, w⟩ := e
    by_cases hk : k = x
    · subst k
      simp [putItem, h]
    · simp [putItem, hk, List.filter_cons, ih]

theorem filterKeys_set (p : κ → Bool) (d : Dict κ ν) (x : κ) (v : ν) (h : p x = false) :
    (d.set x v).filterKeys p = d.filterKeys p := by
  simp only [filterKeys, mk.injEq]
  exact filter_putItem p d.items x v h

theorem findItem_filter (p : κ → Bool) (l : List (κ × ν)) (x : κ) (h : p x = true) :
    findItem (l.filter fun e => p e.1) x = findItem l x := by
  induction l with
  | nil => rfl
  | cons e rest ih =>
    obtain ⟨k, w⟩ := e
    by_cases hk : k = x
    · subst k
      simp [findItem, h]
    · by_cases hp : p k = true
      · simp [findItem, hp, hk, ih]
      · simp [findItem, hp, hk, ih]

theorem get?_filterKeys (p : κ → Bool) (d : Dict κ ν) (x : κ) (h : p x = true) :
    (d.filterKeys p).get? x = d.get? x := findItem_filter p d.items x h

end Dict
end Elyra
