import Elyra.Framework.Lines

namespace Elyra.Tools

/-- `str.lower`. -/
class Lower where
  lower : List Char → List Char

section Grammar

variable [Lower]

def opChar (c : Char) : Bool := c ∈ ['<', '>', '=', '!', '~']

def dashChar (c : Char) : Bool := c ∈ ['-', '_', '.']

/-- `[-_.]+` becomes one hyphen; `inRun` behind a character of a run. -/
def collapseDashes : Bool → List Char → List Char
  | _, [] => []
  | inRun, c :: t =>
    if dashChar c then
      if inRun then collapseDashes true t else '-' :: collapseDashes true t
    else c :: collapseDashes false t

def normalizeDistName (name : List Char) : List Char :=
  Lower.lower (collapseDashes false (strip name))

/-- The characters that `_UNSAFE_IN_REQ` finds anywhere. -/
def unsafeChar (c : Char) : Bool :=
  c ∈ ['@', '/', '\\', '|', '&', '$', Char.ofNat 96, ';', '\n', '\r', '[', ']', '(', ')']

/-- `\s--`. -/
def spacedOption : List Char → Bool
  | c :: '-' :: '-' :: t => isSpace c || spacedOption ('-' :: '-' :: t)
  | _ :: t => spacedOption t
  | [] => false

/-- `_UNSAFE_IN_REQ.search` but for `^\s*-e\b`: a line that begins with `-` is no requirement
anyway. -/
def unsafeInReq (line : List Char) : Bool := line.any unsafeChar || spacedOption line

def distChar (c : Char) : Bool := c.isAlphanum || dashChar c

def versionChar (c : Char) : Bool := c.isAlphanum || c ∈ ['_', '.', '*', '+', '!', '-']

def versionOps : List (List Char) :=
  [['=', '=', '='], ['=', '='], ['!', '='], ['<', '='], ['>', '='], ['~', '='], ['<'], ['>']]

/-- One operator and a version. -/
def isClause (clause : List Char) : Bool :=
  versionOps.any fun op =>
    op.isPrefixOf clause && clause.drop op.length ≠ [] && (clause.drop op.length).all versionChar

/-- Clauses with commas between them, or nothing. -/
def isSpec (spec : List Char) : Bool :=
  spec = [] || (spec.splitOnP (· = ',')).all isClause

/-- It begins and ends with a letter or digit. -/
def isDistName (name : List Char) : Bool :=
  name.head?.any Char.isAlphanum && name.getLast?.any Char.isAlphanum

/-- The form in which a line is matched: without white space when it has an operator. -/
def compactLine (line : List Char) : List Char :=
  if line.any opChar then line.filter (!isSpace ·) else line

/-- The normalized name and the line as it is stored. -/
def parseRequirementLine (raw : List Char) : Option (List Char × List Char) :=
  let line := strip raw
  if line = [] ∨ line.head? = some '#' then none
  else if unsafeInReq line then none
  else
    let compact := compactLine line
    if isDistName (compact.takeWhile distChar) && isSpec (compact.dropWhile distChar) then
      some (normalizeDistName (compact.takeWhile distChar), compact)
    else none

end Grammar

section Stored

theorem unspaced_of_distChar {c : Char} (h : distChar c = true) : isSpace c = false := by
  rw [distChar, Bool.or_eq_true, dashChar, decide_eq_true_eq] at h
  obtain h | h := h
  · exact isSpace_of_alphanum h
  · have hall : ∀ c ∈ ['-', '_', '.'], isSpace c = false := by decide
    exact hall c h

/-- An operator begins with an operator's character. -/
theorem head_of_mem_versionOps :
    ∀ op ∈ versionOps, ∃ d s, op = d :: s ∧ opChar d = true := by
  intro op hop
  simp only [versionOps, List.mem_cons, List.not_mem_nil, or_false] at hop
  rcases hop with rfl | rfl | rfl | rfl | rfl | rfl | rfl | rfl <;> exact ⟨_, _, rfl, by decide⟩

/-- A specifier has an operator. -/
theorem any_op_of_isSpec {spec : List Char} (h : isSpec spec = true) (hne : spec ≠ []) :
    spec.any opChar = true := by
  rw [isSpec, Bool.or_eq_true, decide_eq_true_eq] at h
  have hclauses := h.resolve_left hne
  obtain ⟨c, t, rfl⟩ := List.exists_cons_of_ne_nil hne
  obtain ⟨clause, clauses, hsplit⟩ := List.exists_cons_of_ne_nil
    (List.splitOnP_ne_nil (fun x => decide (x = ',')) (c :: t))
  rw [hsplit] at hclauses
  have hclause := List.all_eq_true.mp hclauses clause List.mem_cons_self
  obtain ⟨op, hop, hfits⟩ := List.any_eq_true.mp hclause
  rw [Bool.and_eq_true, Bool.and_eq_true] at hfits
  obtain ⟨rest, hrest⟩ := List.isPrefixOf_iff_prefix.mp hfits.1.1
  obtain ⟨d, s, rfl, hd⟩ := head_of_mem_versionOps op hop
  have hcomma : c ≠ ',' := by
    rintro rfl
    rw [List.splitOnP_cons_eq_if_modifyHead, if_pos (by decide)] at hsplit
    rw [← (List.cons.inj hsplit).1] at hrest
    cases hrest
  rw [List.splitOnP_cons_eq_if_modifyHead, if_neg (by simpa using hcomma)] at hsplit
  obtain ⟨x, xs, hx⟩ := List.exists_cons_of_ne_nil
    (List.splitOnP_ne_nil (fun x => decide (x = ',')) t)
  rw [hx] at hsplit
  have hhead : clause = c :: x := ((List.cons.inj hsplit).1).symm
  rw [hhead] at hrest
  rw [List.any_cons, ← (List.cons.inj hrest).1, hd, Bool.true_or]

theorem spacedOption_eq_false {line : List Char} (h : ∀ c ∈ line, isSpace c = false) :
    spacedOption line = false := by
  fun_induction spacedOption line with
  | case1 c t ih =>
    rw [h c List.mem_cons_self, Bool.false_or]
    exact ih fun d hd => h d (List.mem_cons_of_mem _ hd)
  | case2 c t hno ih => exact ih fun d hd => h d (List.mem_cons_of_mem _ hd)
  | case3 => rfl

theorem strip_unspaced {line : List Char} (h : ∀ c ∈ line, isSpace c = false) :
    strip line = line := by
  apply (stripBy_eq_self_iff line).mpr
  exact ⟨fun c hc => h c (List.mem_of_mem_head? hc), fun c hc => h c (List.mem_of_getLast? hc)⟩

theorem mem_compactLine {line : List Char} {c : Char} (h : c ∈ compactLine line) : c ∈ line := by
  unfold compactLine at h
  split_ifs at h
  · exact List.mem_of_mem_filter h
  · exact h

theorem compactLine_unspaced {line : List Char} (h : ∀ c ∈ line, isSpace c = false) :
    compactLine line = line := by
  unfold compactLine
  split_ifs
  · exact List.filter_eq_self.mpr fun c hc => by rw [h c hc]; rfl
  · rfl

variable [Lower] {raw name spec : List Char}

/-- What is stored has no white space and is read as the same requirement. -/
theorem parse_stored (h : parseRequirementLine raw = some (name, spec)) :
    spec ≠ [] ∧ (∀ c ∈ spec, isSpace c = false) ∧
      parseRequirementLine spec = some (name, spec) := by
  simp only [parseRequirementLine] at h
  split_ifs at h with hblank hunsafe hfits
  obtain ⟨rfl, rfl⟩ := Prod.mk.inj (Option.some.inj h)
  rw [Bool.and_eq_true] at hfits
  have hname := (Bool.and_eq_true _ _).mp hfits.1
  have hunspaced : ∀ c ∈ compactLine (strip raw), isSpace c = false := by
    intro c hc
    by_cases hop : (strip raw).any opChar
    · rw [compactLine, if_pos hop] at hc
      simpa using List.of_mem_filter hc
    · have hrest : (compactLine (strip raw)).dropWhile distChar = [] := by
        by_contra hne
        obtain ⟨d, hd, hdop⟩ := List.any_eq_true.mp (any_op_of_isSpec hfits.2 hne)
        have hmem := mem_compactLine ((List.dropWhile_sublist _).subset hd)
        exact hop (List.any_eq_true.mpr ⟨d, hmem, hdop⟩)
      exact unspaced_of_distChar (List.dropWhile_eq_nil_iff.mp hrest c hc)
  have hsafe : unsafeInReq (compactLine (strip raw)) = false := by
    rw [unsafeInReq, spacedOption_eq_false hunspaced, Bool.or_false, List.any_eq_false]
    intro c hc hbad
    apply hunsafe
    rw [unsafeInReq, Bool.or_eq_true]
    exact .inl (List.any_eq_true.mpr ⟨c, mem_compactLine hc, hbad⟩)
  obtain ⟨d, t, hcons, hd⟩ : ∃ d t, compactLine (strip raw) = d :: t ∧ d.isAlphanum := by
    cases hcompact : compactLine (strip raw) with
    | nil =>
      rw [hcompact] at hname
      exact absurd hname.1 Bool.false_ne_true
    | cons d t =>
      refine ⟨d, t, rfl, ?_⟩
      rw [hcompact, List.takeWhile_cons] at hname
      split_ifs at hname with hdist
      · exact hname.1
      · exact absurd hname.1 Bool.false_ne_true
  have hne : compactLine (strip raw) ≠ [] := by
    rw [hcons]
    exact List.cons_ne_nil d t
  have hhash : (compactLine (strip raw)).head? ≠ some '#' := by
    rw [hcons]
    intro hhead
    obtain rfl := Option.some.inj hhead
    exact absurd hd (by decide)
  refine ⟨hne, hunspaced, ?_⟩
  simp only [parseRequirementLine]
  rw [strip_unspaced hunspaced, compactLine_unspaced hunspaced, if_neg (not_or.mpr ⟨hne, hhash⟩),
    if_neg (by rw [hsafe]; exact Bool.false_ne_true),
    if_pos (by rw [Bool.and_eq_true]; exact hfits)]

theorem parse_strip (raw : List Char) :
    parseRequirementLine (strip raw) = parseRequirementLine raw := by
  simp only [parseRequirementLine]
  rw [show strip (strip raw) = strip raw from stripBy_idem raw]

end Stored

end Elyra.Tools
