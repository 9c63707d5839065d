import Elyra.Framework.Dict
import Elyra.Framework.Lines

namespace Elyra.Skills

/-- What is left after `---`. -/
def afterDashes : List Char → Option (List Char)
  | '-' :: '-' :: '-' :: t => some t
  | _ => none

/-- `\s*(?:\n|$)`: the text after the longest match. -/
def fenceEnd : List Char → Option (List Char)
  | [] => some []
  | c :: t =>
    if isSpace c then
      match fenceEnd t with
      | some rest => some rest
      | none => if c = '\n' then some t else none
    else none

/-- `(.*?)\n---\s*(?:\n|$)`: the first group of the shortest match and the text after it. -/
def closeFence : List Char → Option (List Char × List Char)
  | [] => none
  | c :: t =>
    match if c = '\n' then (afterDashes t).bind fenceEnd else none with
    | some rest => some ([], rest)
    | none => (closeFence t).map fun m => (c :: m.1, m.2)

/-- `\s*\n` and then `closeFence`, where as much as possible is white space. -/
def openFence : List Char → Option (List Char × List Char)
  | [] => none
  | c :: t =>
    if isSpace c then
      match openFence t with
      | some m => some m
      | none => if c = '\n' then closeFence t else none
    else none

/-- `_FRONTMATTER_RE.match`: its group and the text after the match. -/
def frontmatterMatch (text : List Char) : Option (List Char × List Char) :=
  (afterDashes text).bind openFence

def splitlines (text : List Char) : List (List Char) :=
  linesBy isLineBreak (fun c d => c = '\r' && d = '\n') text

def quote (c : Char) : Bool := c = '"' || c = '\''

/-- `line.partition(":")` of a line with a colon. -/
def partitionColon (line : List Char) : Option (List Char × List Char) :=
  match line.dropWhile (· ≠ ':') with
  | [] => none
  | _ :: value => some (line.takeWhile (· ≠ ':'), value)

/-- The field on a line of the frontmatter. -/
def fieldOf (line : List Char) : Option (List Char × List Char) :=
  let line := strip line
  if line = [] ∨ line.head? = some '#' then none
  else
    match partitionColon line with
    | none => none
    | some (key, value) =>
      if strip key = [] then none else some (strip key, stripBy quote (strip value))

abbrev Fields := Dict (List Char) (List Char)

def addField (fields : Fields) (line : List Char) : Fields :=
  match fieldOf line with
  | some (key, value) => fields.set key value
  | none => fields

def parseFrontmatter (text : List Char) : Fields :=
  match frontmatterMatch text with
  | none => .empty
  | some (group, _) => (splitlines group).foldl addField .empty

def bodyAfterFrontmatter (text : List Char) : List Char :=
  match frontmatterMatch text with
  | none => text
  | some (_, rest) => rest

def nameKey : List Char := ['n', 'a', 'm', 'e']

def descriptionKey : List Char := ['d', 'e', 's', 'c', 'r', 'i', 'p', 't', 'i', 'o', 'n']

def field (fields : Fields) (key : List Char) : List Char := (fields.get? key).getD []

/-- `a or b`. -/
def orText (a b : List Char) : List Char := if a = [] then b else a

def assembleSkillMd (name description body : List Char) : List Char :=
  let content := ['-', '-', '-', '\n'] ++ nameKey ++ [':', ' '] ++ name ++ ['\n'] ++
    descriptionKey ++ [':', ' '] ++ orText (strip description) name ++
    ['\n', '-', '-', '-', '\n', '\n'] ++ body.dropWhile isSpace
  if content.getLast? = some '\n' then content else content ++ ['\n']

/-- The first line of a body that says something. -/
def fallbackDescription (body : List Char) : List Char :=
  ((splitlines body).findSome? fun line =>
    let shown := strip ((strip line).dropWhile (· = '#'))
    if shown = [] then none else some shown).getD []

/-- The description that `load_skill_meta` reads off a text. -/
def describe (text : List Char) : List Char :=
  let description := strip (field (parseFrontmatter text) descriptionKey)
  if description = [] then fallbackDescription (bodyAfterFrontmatter text) else description

section Fences

theorem fenceEnd_blank_line {t : List Char} (h : ∀ c r, t = c :: r → isSpace c = false) :
    fenceEnd ('\n' :: '\n' :: t) = some t := by
  cases t with
  | nil => rfl
  | cons c r =>
    have hnone : fenceEnd (c :: r) = none := by
      rw [fenceEnd, h c r rfl]
      rfl
    have hspace : isSpace '\n' = true := by decide
    rw [fenceEnd, if_pos hspace, fenceEnd, if_pos hspace, hnone]
    rfl

theorem closeFence_line {l : List Char} (hl : '\n' ∉ l) (t : List Char) :
    closeFence (l ++ '\n' :: t) =
      match (afterDashes t).bind fenceEnd with
      | some rest => some (l, rest)
      | none => (closeFence t).map fun m => (l ++ '\n' :: m.1, m.2) := by
  induction l with
  | nil =>
    rw [List.nil_append, closeFence, if_pos rfl]
    rfl
  | cons c l ih =>
    obtain ⟨hc, hl⟩ := not_or.mp (List.mem_cons.not.mp hl)
    rw [List.cons_append, closeFence, if_neg (Ne.symm hc), ih hl]
    cases (afterDashes t).bind fenceEnd with
    | some rest => rfl
    | none =>
      show Option.map _ (Option.map _ _) = _
      rw [Option.map_map]
      rfl

/-- A line `key: value`. -/
def fieldLine (key value : List Char) : List Char := key ++ ':' :: ' ' :: value

/-- The text of a package with these two fields and this body. -/
def packageText (name description body : List Char) : List Char :=
  '-' :: '-' :: '-' :: '\n' :: (fieldLine nameKey name ++ '\n' ::
    (fieldLine descriptionKey description ++ '\n' :: '-' :: '-' :: '-' :: '\n' :: '\n' :: body))

theorem not_mem_fieldLine {key value : List Char} {c : Char} (hkey : c ∉ key)
    (hmark : c ≠ ':' ∧ c ≠ ' ') (hvalue : c ∉ value) : c ∉ fieldLine key value := by
  rw [fieldLine, List.mem_append, List.mem_cons, List.mem_cons]
  rintro (h | h | h | h)
  · exact hkey h
  · exact hmark.1 h
  · exact hmark.2 h
  · exact hvalue h

/-- The fences of a package are the ones written when no field has a line feed. -/
theorem frontmatterMatch_packageText {name description body : List Char} (hname : '\n' ∉ name)
    (hdescription : '\n' ∉ description) (hbody : ∀ c r, body = c :: r → isSpace c = false) :
    frontmatterMatch (packageText name description body) =
      some (fieldLine nameKey name ++ '\n' :: fieldLine descriptionKey description, body) := by
  have hnameLine : '\n' ∉ fieldLine nameKey name :=
    not_mem_fieldLine (by decide) (by decide) hname
  have hdescriptionLine : '\n' ∉ fieldLine descriptionKey description :=
    not_mem_fieldLine (by decide) (by decide) hdescription
  have hlater (t : List Char) : openFence (fieldLine nameKey name ++ t) = none := by
    show (if isSpace 'n' = true then _ else none) = none
    exact if_neg (by decide)
  have hnodashes (t : List Char) :
      (afterDashes (fieldLine descriptionKey description ++ t)).bind fenceEnd = none := rfl
  have hend : (afterDashes ('-' :: '-' :: '-' :: '\n' :: '\n' :: body)).bind fenceEnd = some body :=
    fenceEnd_blank_line hbody
  show openFence ('\n' :: (fieldLine nameKey name ++ _)) = _
  rw [openFence, if_pos (by decide), hlater, if_pos rfl, closeFence_line hnameLine, hnodashes,
    closeFence_line hdescriptionLine, hend]
  rfl

theorem unbroken_of_space {c : Char} (h : isSpace c = false) : isLineBreak c = false := by
  cases hc : isLineBreak c with
  | false => rfl
  | true => rw [isSpace_of_isLineBreak hc] at h; cases h

theorem splitlines_pair {a b : List Char} (ha : ∀ c ∈ a, isLineBreak c = false) (hb : b ≠ [])
    (hbreaks : ∀ c ∈ b, isLineBreak c = false) : splitlines (a ++ '\n' :: b) = [a, b] := by
  rw [splitlines, linesBy_append ha (by decide) (fun d => rfl), linesBy_line hb hbreaks]

end Fences

section Fields

theorem takeWhile_key {key : List Char} (hkey : ':' ∉ key) (t : List Char) :
    (key ++ ':' :: t).takeWhile (· ≠ ':') = key ∧
      (key ++ ':' :: t).dropWhile (· ≠ ':') = ':' :: t := by
  have hall : ∀ c ∈ key, decide (c ≠ ':') = true := by
    intro c hc
    exact decide_eq_true fun heq => hkey (heq ▸ hc)
  rw [List.takeWhile_append_of_pos hall, List.dropWhile_append_of_pos hall,
    List.takeWhile_cons_of_neg (by decide), List.dropWhile_cons_of_neg (by decide)]
  exact ⟨List.append_nil key, rfl⟩

theorem strip_space_cons {value : List Char} (h : strip value = value) :
    strip (' ' :: value) = value := by
  show stripBy isSpace (' ' :: value) = value
  rw [stripBy, List.dropWhile_cons_of_pos (by decide)]
  exact h

/-- A line written from a key and a stripped value is read as them, but for quotes. -/
theorem fieldOf_fieldLine {key value : List Char} (hkey : key = nameKey ∨ key = descriptionKey)
    (hne : value ≠ []) (hvalue : strip value = value) :
    fieldOf (fieldLine key value) = some (key, stripBy quote value) := by
  obtain ⟨c, r, hkeycons, hspace, hhash⟩ : ∃ c r, key = c :: r ∧ isSpace c = false ∧ c ≠ '#' := by
    obtain rfl | rfl := hkey
    · exact ⟨'n', _, rfl, by decide, by decide⟩
    · exact ⟨'d', _, rfl, by decide, by decide⟩
  have hcolon : ':' ∉ key := by
    obtain rfl | rfl := hkey <;> decide
  have hkeystrip : strip key = key ∧ key ≠ [] := by
    obtain rfl | rfl := hkey <;> decide
  have hline : strip (fieldLine key value) = fieldLine key value := by
    refine (stripBy_eq_self_iff _).mpr ⟨?_, ?_⟩
    · intro d hd
      rw [fieldLine, hkeycons] at hd
      rwa [← Option.some.inj hd]
    · intro d hd
      have hlast : value.getLast? = some d := by
        rw [fieldLine, List.getLast?_append_of_ne_nil _ (List.cons_ne_nil _ _),
          List.getLast?_cons_cons] at hd
        cases value with
        | nil => exact absurd rfl hne
        | cons x xs => rwa [List.getLast?_cons_cons] at hd
      exact ((stripBy_eq_self_iff value).mp hvalue).2 d hlast
  have hstart : ¬(fieldLine key value = [] ∨ (fieldLine key value).head? = some '#') := by
    rw [fieldLine, hkeycons]
    rintro (h | h)
    · cases h
    · exact hhash (Option.some.inj h)
  have hparts : partitionColon (fieldLine key value) = some (key, ' ' :: value) := by
    obtain ⟨htake, hdrop⟩ := takeWhile_key hcolon (' ' :: value)
    rw [partitionColon, fieldLine, hdrop, htake]
  rw [fieldOf, hline, if_neg hstart, hparts]
  show (if strip key = [] then none else
    some (strip key, stripBy quote (strip (' ' :: value)))) = some (key, stripBy quote value)
  rw [hkeystrip.1, if_neg hkeystrip.2, strip_space_cons hvalue]

theorem mem_of_fieldOf {line : List Char} {kv : List Char × List Char}
    (h : fieldOf line = some kv) {c : Char} (hc : c ∈ kv.2) : c ∈ line := by
  rw [fieldOf] at h
  split_ifs at h with hskip
  cases hparts : partitionColon (strip line) with
  | none =>
    rw [hparts] at h
    cases h
  | some parts =>
    rw [hparts] at h
    dsimp only at h
    split_ifs at h with hkey
    cases h
    have hvalue : c ∈ parts.2 := mem_of_mem_stripBy (p := isSpace) (mem_of_mem_stripBy hc)
    have hline : c ∈ strip line := by
      rw [partitionColon] at hparts
      cases hdrop : (strip line).dropWhile (· ≠ ':') with
      | nil =>
        rw [hdrop] at hparts
        cases hparts
      | cons d value =>
        rw [hdrop] at hparts
        cases hparts
        refine (List.dropWhile_sublist (· ≠ ':')).subset ?_
        rw [hdrop]
        exact List.mem_cons_of_mem d hvalue
    exact mem_of_mem_stripBy (p := isSpace) hline

/-- No value of a field has a line break. -/
theorem unbroken_field (text : List Char) {key value : List Char}
    (h : (parseFrontmatter text).get? key = some value) : ∀ c ∈ value, isLineBreak c = false := by
  have hfold (lines : List (List Char)) (hlines : ∀ l ∈ lines, ∀ c ∈ l, isLineBreak c = false) :
      ∀ fields : Fields, (∀ k v, fields.get? k = some v → ∀ c ∈ v, isLineBreak c = false) →
        ∀ k v, (lines.foldl addField fields).get? k = some v → ∀ c ∈ v, isLineBreak c = false := by
    induction lines with
    | nil => exact fun fields hfields => hfields
    | cons line lines ih =>
      intro fields hfields
      obtain ⟨hline, hrest⟩ := List.forall_mem_cons.mp hlines
      refine ih hrest (addField fields line) ?_
      intro k v hv
      rw [addField] at hv
      cases hfield : fieldOf line with
      | none =>
        rw [hfield] at hv
        exact hfields k v hv
      | some kv =>
        rw [hfield] at hv
        by_cases hk : k = kv.1
        · rw [hk, Dict.get?_set_self] at hv
          cases hv
          intro c hc
          exact hline c (mem_of_fieldOf hfield hc)
        · rw [Dict.get?_set_ne _ _ (Ne.symm hk)] at hv
          exact hfields k v hv
  rw [parseFrontmatter] at h
  cases hmatch : frontmatterMatch text with
  | none =>
    rw [hmatch] at h
    cases h
  | some m =>
    rw [hmatch] at h
    exact hfold _ (unbroken_of_mem_linesBy m.1) .empty (fun k v hv => nomatch hv) key value h

end Fields

section RoundTrip

/-- A text that is read as these two fields, no others, and this body. -/
def Reads (text name description body : List Char) : Prop :=
  (parseFrontmatter text).items = [(nameKey, name), (descriptionKey, description)] ∧
    (bodyAfterFrontmatter text = body ∨ bodyAfterFrontmatter text = body ++ ['\n'])

/-- A name without white space and quotes. -/
structure PlainName (name : List Char) : Prop where
  ne_nil : name ≠ []
  unspaced : ∀ c ∈ name, isSpace c = false
  unquoted : ∀ c ∈ name, quote c = false

theorem stripBy_plain {p : Char → Bool} {l : List Char} (h : ∀ c ∈ l, p c = false) :
    stripBy p l = l := by
  refine (stripBy_eq_self_iff l).mpr ⟨fun c hc => ?_, fun c hc => ?_⟩
  · exact h c (List.mem_of_mem_head? hc)
  · exact h c (List.mem_of_getLast? hc)

/-- The fields of a package, when the description is one line. -/
theorem parseFrontmatter_packageText {name description body : List Char} (hname : PlainName name)
    (hne : description ≠ []) (hstrip : strip description = description)
    (hlines : ∀ c ∈ description, isLineBreak c = false)
    (hbody : ∀ c r, body = c :: r → isSpace c = false) :
    (parseFrontmatter (packageText name description body)).items =
        [(nameKey, name), (descriptionKey, stripBy quote description)] ∧
      bodyAfterFrontmatter (packageText name description body) = body := by
  have hnotbreak {l : List Char} (h : ∀ c ∈ l, isLineBreak c = false) : '\n' ∉ l :=
    fun hmem => absurd (h _ hmem) (by decide)
  have hnameLines : ∀ c ∈ name, isLineBreak c = false :=
    fun c hc => unbroken_of_space (hname.unspaced c hc)
  have hmatch := frontmatterMatch_packageText (hnotbreak hnameLines) (hnotbreak hlines) hbody
  have hline {key value : List Char} (hkey : key = nameKey ∨ key = descriptionKey)
      (hvalue : ∀ c ∈ value, isLineBreak c = false) :
      ∀ c ∈ fieldLine key value, isLineBreak c = false := by
    have hkeyLines : ∀ c ∈ key, isLineBreak c = false := by
      obtain rfl | rfl := hkey <;> decide
    intro c hc
    cases hbreak : isLineBreak c with
    | false => rfl
    | true =>
      refine absurd hc (not_mem_fieldLine ?_ ⟨?_, ?_⟩ ?_)
      · intro hmem
        rw [hkeyLines c hmem] at hbreak
        cases hbreak
      · rintro rfl
        cases hbreak
      · rintro rfl
        cases hbreak
      · intro hmem
        rw [hvalue c hmem] at hbreak
        cases hbreak
  have hsplit : splitlines (fieldLine nameKey name ++ '\n' ::
      fieldLine descriptionKey description) =
      [fieldLine nameKey name, fieldLine descriptionKey description] :=
    splitlines_pair (hline (.inl rfl) hnameLines) (List.append_ne_nil_of_left_ne_nil (by decide) _)
      (hline (.inr rfl) hlines)
  constructor
  · rw [parseFrontmatter, hmatch]
    dsimp only
    rw [hsplit, List.foldl_cons, List.foldl_cons, List.foldl_nil, addField, addField,
      fieldOf_fieldLine (.inl rfl) hname.ne_nil (stripBy_plain hname.unspaced),
      fieldOf_fieldLine (.inr rfl) hne hstrip, stripBy_plain hname.unquoted]
    rfl
  · rw [bodyAfterFrontmatter, hmatch]

/-- The body of a package as it is written. -/
def writtenBody (body : List Char) : List Char :=
  let shown := body.dropWhile isSpace
  if shown = [] ∨ shown.getLast? = some '\n' then shown else shown ++ ['\n']

theorem packageText_append (name description body : List Char) :
    packageText name description body = packageText name description [] ++ body := by
  simp only [packageText, fieldLine, List.append_assoc, List.cons_append, List.nil_append]

theorem packageText_last (name description body : List Char) :
    (packageText name description body).getLast? = ('\n' :: body).getLast? := by
  have hsplit : packageText name description body = ('-' :: '-' :: '-' :: '\n' ::
      (fieldLine nameKey name ++ '\n' :: (fieldLine descriptionKey description ++
        ['\n', '-', '-', '-', '\n']))) ++ '\n' :: body := by
    simp only [packageText, List.append_assoc, List.cons_append, List.nil_append]
  rw [hsplit, List.getLast?_append_of_ne_nil _ (List.cons_ne_nil '\n' body)]

theorem assembleSkillMd_eq (name body : List Char) {description : List Char}
    (hne : strip description ≠ []) :
    assembleSkillMd name description body =
      packageText name (strip description) (writtenBody body) := by
  have hprefix (shown : List Char) : ['-', '-', '-', '\n'] ++ nameKey ++ [':', ' '] ++ name ++
      ['\n'] ++ descriptionKey ++ [':', ' '] ++ strip description ++
      ['\n', '-', '-', '-', '\n', '\n'] ++ shown = packageText name (strip description) shown := by
    simp only [packageText, fieldLine, List.append_assoc, List.cons_append, List.nil_append]
  rw [assembleSkillMd, orText, if_neg hne, writtenBody, hprefix, packageText_last]
  generalize body.dropWhile isSpace = shown
  cases shown with
  | nil => rfl
  | cons c r =>
    rw [List.getLast?_cons_cons]
    by_cases hend : (c :: r).getLast? = some '\n'
    · rw [if_pos hend, if_pos (.inr hend)]
    · rw [if_neg hend, if_neg (not_or.mpr ⟨List.cons_ne_nil c r, hend⟩), packageText_append,
        packageText_append name (strip description) (c :: r ++ ['\n']), List.append_assoc]

theorem writtenBody_cases (body : List Char) : writtenBody body = body.dropWhile isSpace ∨
    writtenBody body = body.dropWhile isSpace ++ ['\n'] := by
  rw [writtenBody]
  split_ifs
  · exact .inl rfl
  · exact .inr rfl

/-- A body is written and read from its first character that is no white space. -/
theorem writtenBody_begins (body : List Char) :
    ∀ c r, universalNewlines (writtenBody body) = c :: r → isSpace c = false := by
  intro c r h
  cases hshown : body.dropWhile isSpace with
  | nil =>
    rw [writtenBody, hshown] at h
    cases h
  | cons d t =>
    have hfirst : isSpace d = false := by
      have hnot := List.head?_dropWhile_not isSpace body
      rw [hshown] at hnot
      exact hnot
    obtain ⟨s, hs⟩ : ∃ s, writtenBody body = d :: s := by
      obtain heq | heq := writtenBody_cases body
      · exact ⟨t, heq.trans hshown⟩
      · exact ⟨t ++ ['\n'], by rw [heq, hshown]; rfl⟩
    have hreturn : d ≠ '\r' := by
      rintro rfl
      exact absurd hfirst (by decide)
    rw [hs, universalNewlines_cons d s hreturn] at h
    rw [← (List.cons.inj h).1]
    exact hfirst

/-- The description is one line without quotes at its ends, and no `\r` is in the shown body. -/
structure Plain (description body : List Char) : Prop where
  one_line : ∀ c ∈ strip description, isLineBreak c = false
  begins : ∀ c, (strip description).head? = some c → quote c = false
  ends : ∀ c, (strip description).getLast? = some c → quote c = false
  no_return : '\r' ∉ body.dropWhile isSpace

/-- A package file is read as what it was assembled from exactly when that is plain. -/
theorem reads_assembled_iff {name description body : List Char} (hname : PlainName name)
    (hne : strip description ≠ []) :
    Reads (universalNewlines (assembleSkillMd name description body)) name (strip description)
        (body.dropWhile isSpace) ↔ Plain description body := by
  have hwritten := writtenBody_begins body
  have hread (hlines : ∀ c ∈ strip description, isLineBreak c = false) :
      universalNewlines (assembleSkillMd name description body) =
        packageText name (strip description) (universalNewlines (writtenBody body)) := by
    have hclean : '\r' ∉ packageText name (strip description) [] := by
      have hnameReturn : '\r' ∉ name := fun hmem => absurd (hname.unspaced _ hmem) (by decide)
      have hlineReturn : '\r' ∉ strip description := fun hmem => absurd (hlines _ hmem) (by decide)
      simp [packageText, fieldLine, nameKey, descriptionKey, hnameReturn, hlineReturn]
    rw [assembleSkillMd_eq name body hne, packageText_append, universalNewlines_append _ _ hclean,
      ← packageText_append]
  constructor
  · rintro ⟨hfields, hbody⟩
    have hlines : ∀ c ∈ strip description, isLineBreak c = false := by
      have hvalue : (parseFrontmatter (universalNewlines
          (assembleSkillMd name description body))).get? descriptionKey =
          some (strip description) := by
        rw [Dict.get?, hfields]
        rfl
      exact unbroken_field _ hvalue
    obtain ⟨hparsed, hafter⟩ := parseFrontmatter_packageText hname hne (stripBy_idem _) hlines
      hwritten
    rw [hread hlines] at hfields hbody
    rw [hparsed] at hfields
    rw [hafter] at hbody
    have hquotes : stripBy quote (strip description) = strip description := by
      simpa using hfields
    obtain ⟨hbegins, hends⟩ := (stripBy_eq_self_iff _).mp hquotes
    refine ⟨hlines, hbegins, hends, ?_⟩
    intro hmem
    have hnone := not_mem_universalNewlines (writtenBody body)
    obtain heq | heq := hbody
    · exact hnone (heq ▸ hmem)
    · exact hnone (heq ▸ List.mem_append_left _ hmem)
  · rintro ⟨hlines, hbegins, hends, hreturn⟩
    obtain ⟨hparsed, hafter⟩ := parseFrontmatter_packageText hname hne (stripBy_idem _) hlines
      hwritten
    have hclean : universalNewlines (writtenBody body) = writtenBody body := by
      apply universalNewlines_eq_self
      obtain heq | heq := writtenBody_cases body
      · rwa [heq]
      · rw [heq, List.mem_append, List.mem_singleton]
        exact fun h => h.elim hreturn (by decide)
    rw [Reads, hread hlines, hparsed, hafter, hclean, (stripBy_eq_self_iff _).mpr ⟨hbegins, hends⟩]
    exact ⟨rfl, writtenBody_cases body⟩

end RoundTrip

end Elyra.Skills
