import Elyra.Tools.CuratedText

namespace Elyra.Tools

open Skills (splitlines)

section Entries

variable [Lower]

/-- `_parse_curated_entries`. -/
def parseCuratedEntries (text : List Char) : List Entry :=
  (rawLines text).map fun raw =>
    let stripped := strip raw
    if stripped = [] ∨ stripped.head? = some '#' then (none, raw)
    else ((parseRequirementLine stripped).map Prod.fst, raw)

/-- `by_name.get(name)`: the last of the specs with the name. -/
def byName (additions : List (List Char × List Char)) (name : List Char) : Option (List Char) :=
  (additions.reverse.find? fun addition => addition.1 = name).map Prod.snd

/-- The first spec with the name. -/
def firstSpec (additions : List (List Char × List Char)) (name : List Char) :
    Option (List Char) :=
  (additions.find? fun addition => addition.1 = name).map Prod.snd

def replaceEntry (additions : List (List Char × List Char)) (entry : Entry) : Entry :=
  match entry.1.bind (byName additions) with
  | some req => (entry.1, req)
  | none => entry

instance lawfulBEqChars : LawfulBEq (List Char) := inferInstance

/-- The second loop of `_merge_add`. -/
def appendUnseen : List (List Char) → List (List Char × List Char) → List Entry
  | _, [] => []
  | seen, (name, req) :: rest =>
    if name ∈ seen then appendUnseen seen rest
    else (some name, req) :: appendUnseen (name :: seen) rest

/-- `_merge_add`. -/
def mergeAdd (entries : List Entry) (additions : List (List Char × List Char)) : List Entry :=
  entries.map (replaceEntry additions) ++
    appendUnseen ((entries.filterMap Prod.fst).filter fun name => (byName additions name).isSome)
      additions

/-- `_apply_remove`. -/
def applyRemove (entries : List Entry) (names : List (List Char)) : List Entry :=
  entries.filter fun entry => entry.1.all (· ∉ names)

/-- The requirement's normalized name, if the line is one. -/
def nameOf (line : List Char) : Option (List Char) := (parseRequirementLine line).map Prod.fst

/-- The lines that are requirements for the name. -/
def requirementLines (name text : List Char) : List (List Char) :=
  (splitlines text).filter fun line => nameOf line = some name

/-- The line is no requirement for one of the names. -/
def isOther (names : List (List Char)) (line : List Char) : Bool := (nameOf line).all (· ∉ names)

def otherLines (names : List (List Char)) (text : List Char) : List (List Char) :=
  (splitlines text).filter (isOther names)

end Entries

section Names

variable [Lower] {names : List (List Char)} {name line l text : List Char} {s : Char}

@[simp] theorem nameOf_nil : nameOf [] = none := rfl

theorem nameOf_of_strip_eq {a b : List Char} (h : strip a = strip b) : nameOf a = nameOf b := by
  rw [nameOf, nameOf, ← parse_strip a, ← parse_strip b, h]

theorem parseCuratedEntries_eq (text : List Char) :
    parseCuratedEntries text = (rawLines text).map fun raw => (nameOf raw, raw) := by
  apply List.map_congr_left
  intro raw _
  by_cases hblank : strip raw = [] ∨ (strip raw).head? = some '#'
  · have hnone : parseRequirementLine raw = none := by
      simp only [parseRequirementLine]
      exact if_pos hblank
    simp only [if_pos hblank]
    rw [nameOf, hnone]
    rfl
  · simp only [if_neg hblank]
    rw [nameOf, parse_strip]

omit [Lower] in
theorem strip_concat (l : List Char) (hs : isSpace s = true) : strip (l ++ [s]) = strip l := by
  show stripBy isSpace (l ++ [s]) = stripBy isSpace l
  have hblank : ∀ x ∈ [s], isSpace x = true := List.forall_mem_singleton.mpr hs
  rw [stripBy, List.dropWhile_append]
  split_ifs with hnil
  · rw [List.isEmpty_iff] at hnil
    rw [stripBy, hnil, List.dropWhile_cons_of_pos hs]
    rfl
  · exact rdropWhile_append_blank _ hblank

/-- A terminator does not change what a line requires. -/
theorem nameOf_chop (h : Raw line) : nameOf (chop line) = nameOf line := by
  obtain ⟨l, hl, rfl | ⟨s, rfl, hs, -, -⟩⟩ := h
  · rw [chop_unbroken hl]
  · rw [chop_broken hl hs]
    exact nameOf_of_strip_eq (strip_concat l (isSpace_of_isLineBreak hs)).symm

theorem filter_expand (h : Raw line) (name : List Char) :
    (expand line).filter (fun l => nameOf l = some name) =
      if nameOf line = some name then [chop line] else [] := by
  rw [← nameOf_chop h]
  obtain ⟨l, hl, rfl | ⟨s, rfl, hs, -, hreturn⟩⟩ := h
  · rw [expand_unbroken hl, chop_unbroken hl, List.filter_singleton]
    simp
  · rw [expand_broken hl hs hreturn, chop_broken hl hs, List.filter_cons, List.filter_singleton]
    simp

theorem filter_flatMap_expand {lines : List (List Char)} (h : ∀ line ∈ lines, Raw line)
    (name : List Char) :
    (lines.flatMap expand).filter (fun l => nameOf l = some name) =
      (lines.filter fun l => nameOf l = some name).map chop := by
  induction lines with
  | nil => rfl
  | cons l lines ih =>
    rw [List.flatMap_cons, List.filter_append, filter_expand (h l List.mem_cons_self),
      ih fun x hx => h x (List.mem_cons_of_mem _ hx), List.filter_cons]
    by_cases hname : nameOf l = some name
    · simp [hname]
    · simp [hname]

omit [Lower] in
theorem filter_trimLast {p : List Char → Bool} (hp : p [] = false) (lines : List (List Char)) :
    (trimLast lines).filter p = lines.filter p := by
  unfold trimLast
  split_ifs with hlast
  · obtain ⟨init, rfl⟩ := List.getLast?_eq_some_iff.mp hlast
    rw [List.dropLast_concat, List.filter_append, List.filter_singleton, hp]
    simp
  · rfl

/-- The requirements that a written text has for a name. -/
theorem requirementLines_entriesToText {entries : List Entry}
    (h : ∀ entry ∈ entries, Raw entry.2) (name : List Char) :
    requirementLines name (entriesToText entries) =
      ((entries.map Prod.snd).filter fun l => nameOf l = some name).map chop := by
  have hraw : ∀ line ∈ trimLast (entries.map Prod.snd), Raw line := by
    intro line hline
    obtain ⟨entry, hentry, rfl⟩ := List.mem_map.mp ((trimLast_sublist _).subset hline)
    exact h entry hentry
  rw [requirementLines, splitlines_entriesToText h, filter_flatMap_expand hraw,
    filter_trimLast (by simp)]

theorem requirementLines_eq (hclean : '\r' ∉ text) (name : List Char) :
    requirementLines name text =
      ((rawLines text).filter fun l => nameOf l = some name).map chop := by
  rw [requirementLines, splitlines_eq_chop hclean, List.filter_map]
  congr 1
  apply List.filter_congr
  intro line hline
  show decide (nameOf (chop line) = some name) = _
  rw [nameOf_chop (raw_of_mem_rawLines hclean line hline).1]

theorem otherLines_eq (hclean : '\r' ∉ text) (names : List (List Char)) :
    otherLines names text = ((rawLines text).filter (isOther names)).map chop := by
  rw [otherLines, splitlines_eq_chop hclean, List.filter_map]
  congr 1
  apply List.filter_congr
  intro line hline
  show isOther names (chop line) = _
  rw [isOther, nameOf_chop (raw_of_mem_rawLines hclean line hline).1, isOther]

/-- A line of another name stays whole, and a line of one of the names has no terminator. -/
def Settled (names : List (List Char)) (line : List Char) : Prop :=
  Raw line ∧ (isOther names line = false → Unbroken line)

theorem filter_expand_other (h : Settled names line) :
    (expand line).filter (isOther names) = if isOther names line then expand line else [] := by
  obtain ⟨hraw, hunbroken⟩ := h
  cases hother : isOther names line with
  | false =>
    have hl := hunbroken hother
    rw [expand_unbroken hl, List.filter_singleton, hother]
    rfl
  | true =>
    have hchop : isOther names (chop line) = true := by
      rw [isOther, nameOf_chop hraw]
      exact hother
    obtain ⟨l, hl, rfl | ⟨s, rfl, hs, -, hreturn⟩⟩ := hraw
    · rw [expand_unbroken hl, List.filter_singleton, hother]
      rfl
    · rw [chop_broken hl hs] at hchop
      rw [expand_broken hl hs hreturn, List.filter_cons, hchop, List.filter_singleton]
      rfl

theorem filter_other_flatMap_expand {lines : List (List Char)}
    (h : ∀ line ∈ lines, Settled names line) :
    (lines.flatMap expand).filter (isOther names) =
      (lines.filter (isOther names)).flatMap expand := by
  induction lines with
  | nil => rfl
  | cons l lines ih =>
    rw [List.flatMap_cons, List.filter_append, filter_expand_other (h l List.mem_cons_self),
      ih fun x hx => h x (List.mem_cons_of_mem _ hx), List.filter_cons]
    split_ifs <;> rfl

theorem filter_other_trimLast (lines : List (List Char)) :
    (trimLast lines).filter (isOther names) =
      if lines.getLast? = some [] then (lines.filter (isOther names)).dropLast
      else lines.filter (isOther names) := by
  unfold trimLast
  split_ifs with hlast
  · obtain ⟨init, rfl⟩ := List.getLast?_eq_some_iff.mp hlast
    have hnil : isOther names [] = true := rfl
    rw [List.dropLast_concat, List.filter_append, List.filter_singleton, hnil]
    show _ = (_ ++ [[]]).dropLast
    rw [List.dropLast_concat]
  · rfl

end Names

end Elyra.Tools
