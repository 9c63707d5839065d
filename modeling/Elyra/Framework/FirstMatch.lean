import Mathlib.Data.List.Basic

namespace Elyra

section FirstMatch

variable {α β : Type*} (p : α → Bool) (e : α)

/-- The list with its first element that meets `p` replaced by `e`. -/
def putFirst : List α → List α
  | [] => []
  | x :: xs => if p x then e :: xs else x :: putFirst xs

variable {p e} {f : α → Option β} {xs : List α}

/-- A query that reads the new element as the old one answers as before. -/
theorem findSome?_putFirst_same (h : ∀ x, xs.find? p = some x → f e = f x) :
    (putFirst p e xs).findSome? f = xs.findSome? f := by
  induction xs with
  | nil => rfl
  | cons x xs ih =>
    by_cases hx : p x = true
    · have he := h x (by rw [List.find?_cons_of_pos hx])
      rw [putFirst, if_pos hx, List.findSome?_cons, List.findSome?_cons, he]
    · have hrest := ih fun y hy => h y (by rw [List.find?_cons_of_neg hx, hy])
      rw [putFirst, if_neg hx, List.findSome?_cons, List.findSome?_cons, hrest]

/-- As `findSome?_putFirst_same`, for a part of the answer. -/
theorem map_findSome?_putFirst {γ : Type*} {view : β → γ}
    (h : ∀ x, xs.find? p = some x → (f e).map view = (f x).map view) :
    ((putFirst p e xs).findSome? f).map view = (xs.findSome? f).map view := by
  rw [List.map_findSome?, List.map_findSome?]
  exact findSome?_putFirst_same h

/-- A query that only the new element answers answers it. -/
theorem findSome?_putFirst_new {x : α} {b : β} (hnone : xs.findSome? f = none)
    (hx : xs.find? p = some x) (he : f e = some b) :
    (putFirst p e xs).findSome? f = some b := by
  induction xs with
  | nil => cases hx
  | cons y xs ih =>
    rw [List.findSome?_cons] at hnone
    have hy : f y = none := by
      cases hfy : f y with
      | none => rfl
      | some b =>
        rw [hfy] at hnone
        cases hnone
    rw [hy] at hnone
    by_cases hp : p y = true
    · rw [putFirst, if_pos hp, List.findSome?_cons, he]
    · rw [List.find?_cons_of_neg hp] at hx
      rw [putFirst, if_neg hp, List.findSome?_cons, hy]
      exact ih hnone hx

/-- The query that chose the element finds the new one. -/
theorem findSome?_putFirst_hit {x : α} {b : β} (hp : ∀ y, p y = (f y).isSome)
    (hx : xs.find? p = some x) (he : f e = some b) :
    (putFirst p e xs).findSome? f = some b := by
  induction xs with
  | nil => cases hx
  | cons y xs ih =>
    by_cases hy : p y = true
    · rw [putFirst, if_pos hy, List.findSome?_cons, he]
    · rw [List.find?_cons_of_neg hy] at hx
      have hnone : f y = none := by
        rw [hp y] at hy
        simpa using hy
      rw [putFirst, if_neg hy, List.findSome?_cons, hnone]
      exact ih hx

/-- What a query finds is the answer of the first element that it answers on. -/
theorem find?_of_findSome? {b : β} (h : xs.findSome? f = some b) :
    ∃ x, xs.find? (fun y => (f y).isSome) = some x ∧ f x = some b := by
  induction xs with
  | nil => cases h
  | cons y xs ih =>
    rw [List.findSome?_cons] at h
    cases hfy : f y with
    | none =>
      rw [hfy] at h
      obtain ⟨x, hx, hfx⟩ := ih h
      exact ⟨x, by rw [List.find?_cons_of_neg (by simp [hfy]), hx], hfx⟩
    | some c =>
      rw [hfy] at h
      cases h
      exact ⟨y, by rw [List.find?_cons_of_pos (by simp [hfy])], hfy⟩

end FirstMatch
end Elyra
