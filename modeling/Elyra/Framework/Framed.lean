import Mathlib.Data.List.Basic
import Mathlib.Tactic.Common

namespace Elyra

section Framed

variable {α : Type*} {sep : α}

/-- What a separator ends is read off, where it holds no separator itself. -/
theorem separated_inj {xs ys as bs : List α} (hx : sep ∉ xs) (hy : sep ∉ ys)
    (h : xs ++ sep :: as = ys ++ sep :: bs) : xs = ys ∧ as = bs := by
  induction xs generalizing ys with
  | nil =>
    cases ys with
    | nil => exact ⟨rfl, (List.cons.inj h).2⟩
    | cons y ys => exact absurd (List.cons.inj h).1 (List.ne_of_not_mem_cons hy)
  | cons x xs ih =>
    cases ys with
    | nil => exact absurd (List.cons.inj h).1.symm (List.ne_of_not_mem_cons hx)
    | cons y ys =>
      obtain ⟨hhead, htail⟩ := List.cons.inj h
      obtain ⟨hxs, hrest⟩ :=
        ih (List.not_mem_of_not_mem_cons hx) (List.not_mem_of_not_mem_cons hy) htail
      exact ⟨by rw [hhead, hxs], hrest⟩

theorem intercalate_cons (x y : List α) (xs : List (List α)) :
    List.intercalate [sep] (x :: y :: xs) = x ++ sep :: List.intercalate [sep] (y :: xs) := by
  simp [List.intercalate, List.intersperse]

/-- What parts are joined to holds the separator and the parts. -/
theorem mem_intercalate {a : α} {xs : List (List α)} (h : a ∈ List.intercalate [sep] xs) :
    a = sep ∨ ∃ x ∈ xs, a ∈ x := by
  induction xs with
  | nil => simp [List.intercalate] at h
  | cons x xs ih =>
    cases xs with
    | nil =>
      right
      exact ⟨x, List.mem_cons_self, by simpa [List.intercalate] using h⟩
    | cons y xs =>
      rw [intercalate_cons, List.mem_append, List.mem_cons] at h
      obtain hx | hsep | hrest := h
      · exact .inr ⟨x, List.mem_cons_self, hx⟩
      · exact .inl hsep
      · obtain hsep | ⟨z, hz, ha⟩ := ih hrest
        · exact .inl hsep
        · exact .inr ⟨z, List.mem_cons_of_mem _ hz, ha⟩

/-- Parts without the separator are read back from what they are joined to. -/
theorem intercalate_inj {xs ys : List (List α)} (hx : xs ≠ []) (hy : ys ≠ [])
    (hxs : ∀ x ∈ xs, sep ∉ x) (hys : ∀ y ∈ ys, sep ∉ y)
    (h : List.intercalate [sep] xs = List.intercalate [sep] ys) : xs = ys := by
  have hsingle (x : List α) : List.intercalate [sep] [x] = x := by simp [List.intercalate]
  induction xs generalizing ys with
  | nil => exact absurd rfl hx
  | cons x xs ih =>
    have hfree := hxs x List.mem_cons_self
    match xs, ys with
    | _, [] => exact absurd rfl hy
    | [], [y] =>
      rw [hsingle, hsingle] at h
      rw [h]
    | [], y :: y' :: ys =>
      rw [hsingle, intercalate_cons] at h
      exact absurd (by rw [h]; simp) hfree
    | x' :: xs, [y] =>
      rw [hsingle, intercalate_cons] at h
      exact absurd (by rw [← h]; simp) (hys y List.mem_cons_self)
    | x' :: xs, y :: y' :: ys =>
      rw [intercalate_cons, intercalate_cons] at h
      obtain ⟨hhead, htail⟩ := separated_inj hfree (hys y List.mem_cons_self) h
      have hrest := ih (List.cons_ne_nil _ _) (List.cons_ne_nil _ _)
        (fun x hx => hxs x (List.mem_cons_of_mem _ hx))
        (fun y hy => hys y (List.mem_cons_of_mem _ hy)) htail
      rw [hhead, hrest]

variable (sep)

/-- A record: a key and a body, each with a separator after it. -/
def framed (r : List α × List α) : List α := r.1 ++ sep :: (r.2 ++ [sep])

def framedAll (rs : List (List α × List α)) : List α := rs.flatMap (framed sep)

variable {sep} {rs ss : List (List α × List α)} {k b : List α}

theorem framedAll_cons (r : List α × List α) (rs : List (List α × List α)) :
    framedAll sep (r :: rs) = r.1 ++ sep :: (r.2 ++ sep :: framedAll sep rs) := by
  show r.1 ++ sep :: (r.2 ++ [sep]) ++ framedAll sep rs = _
  simp

theorem framedAll_eq_nil : framedAll sep rs = [] ↔ rs = [] := by
  cases rs with
  | nil => exact ⟨fun _ => rfl, fun _ => rfl⟩
  | cons r rs =>
    rw [framedAll_cons]
    simp

/-- A stream of records ends with a separator. -/
theorem framedAll_last (hrs : rs ≠ []) : ∃ y, framedAll sep rs = y ++ [sep] := by
  induction rs with
  | nil => exact absurd rfl hrs
  | cons r rs ih =>
    rw [framedAll_cons]
    by_cases hnil : rs = []
    · refine ⟨r.1 ++ sep :: r.2, ?_⟩
      rw [hnil]
      simp [framedAll]
    · obtain ⟨y, hy⟩ := ih hnil
      refine ⟨r.1 ++ sep :: (r.2 ++ sep :: y), ?_⟩
      rw [hy]
      simp

/-- Records whose bodies hold no separator are read back. -/
theorem framedAll_inj (hrs : ∀ r ∈ rs, sep ∉ r.1 ∧ sep ∉ r.2)
    (hss : ∀ r ∈ ss, sep ∉ r.1 ∧ sep ∉ r.2) (h : framedAll sep rs = framedAll sep ss) :
    rs = ss := by
  induction rs generalizing ss with
  | nil => exact (framedAll_eq_nil.mp h.symm).symm
  | cons r rs ih =>
    cases ss with
    | nil => exact framedAll_eq_nil.mp h
    | cons s ss =>
      rw [framedAll_cons, framedAll_cons] at h
      have hr := hrs r List.mem_cons_self
      have hs := hss s List.mem_cons_self
      obtain ⟨hkey, h⟩ := separated_inj hr.1 hs.1 h
      obtain ⟨hbody, h⟩ := separated_inj hr.2 hs.2 h
      have htail := ih (fun r hr => hrs r (List.mem_cons_of_mem _ hr))
        (fun s hs => hss s (List.mem_cons_of_mem _ hs)) h
      rw [Prod.ext hkey hbody, htail]

/-- Several records read as one whose body holds the rest. -/
theorem framedAll_merge {y : List α} (h : framedAll sep rs = y ++ [sep]) :
    framedAll sep ((k, b) :: rs) = framedAll sep [(k, b ++ sep :: y)] := by
  rw [framedAll_cons, framedAll_cons, h]
  simp [framedAll]

/-- A record whose body holds a second one reads as two. -/
theorem framedAll_split (q y : List α) :
    framedAll sep [(k, b ++ sep :: (q ++ sep :: y))] = framedAll sep [(k, b), (q, y)] := by
  simp [framedAll, framed]

/-- One record is read as itself, or as several of which its body holds the second. -/
theorem framedAll_single (hk : sep ∉ k) (hrs : ∀ r ∈ rs, sep ∉ r.1)
    (h : framedAll sep [(k, b)] = framedAll sep rs) :
    rs = [(k, b)] ∨ ∃ x q y rest, rs = (k, x) :: (q, y) :: rest ∧
      ∃ z, b = x ++ sep :: (q ++ sep :: z) := by
  cases rs with
  | nil => exact absurd (framedAll_eq_nil.mp h) (List.cons_ne_nil _ _)
  | cons r rs =>
    obtain ⟨key, x⟩ := r
    rw [framedAll_cons, framedAll_cons] at h
    obtain ⟨rfl, h⟩ := separated_inj hk (hrs (key, x) List.mem_cons_self) h
    cases rs with
    | nil =>
      left
      obtain ⟨rfl, -⟩ := List.append_inj' h rfl
      rfl
    | cons second rest =>
      right
      obtain ⟨q, y⟩ := second
      refine ⟨x, q, y, rest, rfl, ?_⟩
      obtain ⟨z, hz⟩ : ∃ z, y ++ sep :: framedAll sep rest = z ++ [sep] := by
        by_cases hnil : rest = []
        · exact ⟨y, by rw [hnil]; rfl⟩
        · obtain ⟨z, hz⟩ := framedAll_last hnil
          exact ⟨y ++ sep :: z, by rw [hz]; simp⟩
      refine ⟨z, ?_⟩
      rw [framedAll_cons, hz] at h
      have hend : b ++ [sep] = (x ++ sep :: (q ++ sep :: z)) ++ [sep] := by
        simpa [framedAll] using h
      exact List.append_cancel_right hend

end Framed
end Elyra
