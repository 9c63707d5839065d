import Elyra.Tools.Curated

namespace Elyra.Tools

open Skills (splitlines unbroken_of_space)

section Kept

instance (line : List Char) : Decidable (Unbroken line) :=
  inferInstanceAs (Decidable (∀ c ∈ line, isLineBreak c = false))

theorem expand_of_not_unbroken {line : List Char} (h : Raw line) (hbroken : ¬Unbroken line) :
    expand line = [chop line, []] := by
  obtain ⟨l, hl, rfl | ⟨s, rfl, hs, -, hreturn⟩⟩ := h
  · exact absurd hl hbroken
  · rw [expand_broken hl hs hreturn, chop_broken hl hs]

theorem length_le_flatMap_expand {lines : List (List Char)} (h : ∀ line ∈ lines, Raw line) :
    lines.length ≤ (lines.flatMap expand).length := by
  induction lines with
  | nil => exact Nat.le_refl 0
  | cons l lines ih =>
    have hrest := ih fun x hx => h x (List.mem_cons_of_mem _ hx)
    have hone : 1 ≤ (expand l).length := by
      by_cases hl : Unbroken l
      · rw [expand_unbroken hl]
        exact Nat.le_refl 1
      · rw [expand_of_not_unbroken (h l List.mem_cons_self) hl]
        exact Nat.le_succ 1
    rw [List.flatMap_cons, List.length_append, List.length_cons]
    omega

theorem flatMap_expand_unbroken {lines : List (List Char)} (h : ∀ line ∈ lines, Unbroken line) :
    lines.flatMap expand = lines := by
  induction lines with
  | nil => rfl
  | cons l lines ih =>
    rw [List.flatMap_cons, expand_unbroken (h l List.mem_cons_self),
      ih fun x hx => h x (List.mem_cons_of_mem _ hx)]
    rfl

theorem map_chop_unbroken {lines : List (List Char)} (h : ∀ line ∈ lines, Unbroken line) :
    lines.map chop = lines := by
  rw [List.map_congr_left fun line hline => chop_unbroken (h line hline), List.map_id']

theorem unbroken_of_length {lines : List (List Char)} (h : ∀ line ∈ lines, Raw line)
    (hlength : (lines.flatMap expand).length = lines.length) : ∀ line ∈ lines, Unbroken line := by
  induction lines with
  | nil => exact fun line hline => absurd hline List.not_mem_nil
  | cons l lines ih =>
    have hrest : ∀ line ∈ lines, Raw line := fun x hx => h x (List.mem_cons_of_mem _ hx)
    rw [List.flatMap_cons, List.length_append, List.length_cons] at hlength
    by_cases hl : Unbroken l
    · rw [expand_unbroken hl, List.length_singleton] at hlength
      exact List.forall_mem_cons.mpr ⟨hl, ih hrest (by omega)⟩
    · have hlong := length_le_flatMap_expand hrest
      rw [expand_of_not_unbroken (h l List.mem_cons_self) hl, List.length_cons,
        List.length_singleton] at hlength
      omega

/-- Lines are written as they were read exactly when none has another terminator. -/
theorem flatMap_expand_eq_iff {lines : List (List Char)} (h : ∀ line ∈ lines, Raw line) :
    lines.flatMap expand = lines.map chop ↔ ∀ line ∈ lines, Unbroken line := by
  constructor
  · intro heq
    apply unbroken_of_length h
    rw [heq, List.length_map]
  · intro hall
    rw [flatMap_expand_unbroken hall, map_chop_unbroken hall]

theorem eq_replicate_of_shift {lines : List (List Char)} (h : [] :: lines = lines ++ [[]]) :
    lines = List.replicate lines.length [] := by
  induction lines with
  | nil => rfl
  | cons l lines ih =>
    rw [List.cons_append] at h
    obtain ⟨rfl, hrest⟩ := List.cons.inj h
    rw [List.length_cons, List.replicate_succ, ← ih hrest]

/-- One other terminator makes up for the empty last line that gets no line feed, when only empty
lines stand between them. -/
theorem flatMap_expand_shift_iff {lines : List (List Char)} (h : ∀ line ∈ lines, Raw line) :
    lines.flatMap expand = lines.map chop ++ [[]] ↔
      ∃ front line n, lines = front ++ line :: List.replicate n [] ∧
        (∀ l ∈ front, Unbroken l) ∧ ¬Unbroken line := by
  constructor
  · intro heq
    induction lines with
    | nil => cases heq
    | cons l lines ih =>
      have hrest : ∀ line ∈ lines, Raw line := fun x hx => h x (List.mem_cons_of_mem _ hx)
      rw [List.flatMap_cons, List.map_cons, List.cons_append] at heq
      by_cases hl : Unbroken l
      · rw [expand_unbroken hl] at heq
        obtain ⟨front, line, n, rfl, hfront, hline⟩ := ih hrest (List.cons.inj heq).2
        exact ⟨l :: front, line, n, rfl, List.forall_mem_cons.mpr ⟨hl, hfront⟩, hline⟩
      · rw [expand_of_not_unbroken (h l List.mem_cons_self) hl] at heq
        have hshift : [] :: lines.flatMap expand = lines.map chop ++ [[]] := (List.cons.inj heq).2
        have hall : ∀ line ∈ lines, Unbroken line := by
          apply unbroken_of_length hrest
          have hlength := congrArg List.length hshift
          rw [List.length_cons, List.length_append, List.length_map, List.length_singleton]
            at hlength
          omega
        rw [flatMap_expand_unbroken hall, map_chop_unbroken hall] at hshift
        refine ⟨[], l, lines.length, ?_, fun x hx => absurd hx List.not_mem_nil, hl⟩
        rw [← eq_replicate_of_shift hshift]
        rfl
  · rintro ⟨front, line, n, rfl, hfront, hline⟩
    have hempty : ∀ l ∈ List.replicate n ([] : List Char), Unbroken l := by
      intro l hl
      rw [List.eq_of_mem_replicate hl]
      exact fun c hc => absurd hc List.not_mem_nil
    have hraw : Raw line := h line (List.mem_append_right _ List.mem_cons_self)
    rw [List.flatMap_append, List.flatMap_cons, List.map_append, List.map_cons,
      flatMap_expand_unbroken hfront, flatMap_expand_unbroken hempty, map_chop_unbroken hfront,
      map_chop_unbroken hempty, expand_of_not_unbroken hraw hline, List.append_assoc]
    show _ = front ++ (chop line :: (List.replicate n [] ++ [[]]))
    rw [← List.replicate_succ']
    rfl

end Kept

section Merge

variable [Lower] {additions : List (List Char × List Char)} {original name req : List Char}

/-- Each addition is what a package was read as. -/
def Stored (additions : List (List Char × List Char)) : Prop :=
  ∀ addition ∈ additions, ∃ raw, parseRequirementLine raw = some addition

theorem Stored.spec (h : Stored additions) (hmem : (name, req) ∈ additions) :
    req ≠ [] ∧ Unbroken req ∧ '\r' ∉ req ∧ nameOf req = some name := by
  obtain ⟨raw, hraw⟩ := h _ hmem
  obtain ⟨hne, hunspaced, hagain⟩ := parse_stored hraw
  refine ⟨hne, fun c hc => unbroken_of_space (hunspaced c hc), ?_, ?_⟩
  · intro hr
    exact absurd (hunspaced _ hr) (by decide)
  · rw [nameOf, hagain]
    rfl

omit [Lower] in
theorem mem_of_byName (h : byName additions name = some req) : (name, req) ∈ additions := by
  obtain ⟨addition, hfind, rfl⟩ := Option.map_eq_some_iff.mp h
  have hname := List.find?_some hfind
  have hmem := List.mem_of_find?_eq_some hfind
  rw [List.mem_reverse] at hmem
  rwa [← of_decide_eq_true hname]

omit [Lower] in
theorem byName_isSome (name : List Char) :
    (byName additions name).isSome ↔ name ∈ additions.map Prod.fst := by
  rw [byName, Option.isSome_map, List.find?_isSome, List.mem_map]
  simp

omit [Lower] in
theorem mem_appendUnseen {seen : List (List Char)} {entry : Entry}
    (h : entry ∈ appendUnseen seen additions) :
    ∃ name req, entry = (some name, req) ∧ (name, req) ∈ additions := by
  fun_induction appendUnseen seen additions with
  | case1 => exact absurd h List.not_mem_nil
  | case2 seen name req rest hseen ih =>
    obtain ⟨n, s, rfl, hmem⟩ := ih h
    exact ⟨n, s, rfl, List.mem_cons_of_mem _ hmem⟩
  | case3 seen name req rest hseen ih =>
    obtain rfl | h := List.mem_cons.mp h
    · exact ⟨name, req, rfl, List.mem_cons_self⟩
    · obtain ⟨n, s, rfl, hmem⟩ := ih h
      exact ⟨n, s, rfl, List.mem_cons_of_mem _ hmem⟩

omit [Lower] in
/-- A name that is not seen is appended with its first spec. -/
theorem filter_appendUnseen (seen : List (List Char)) (name : List Char) :
    (appendUnseen seen additions).filter (fun entry => entry.1 = some name) =
      if name ∈ seen then [] else ((firstSpec additions name).map (some name, ·)).toList := by
  fun_induction appendUnseen seen additions with
  | case1 => simp [firstSpec]
  | case2 seen n req rest hseen ih =>
    rw [ih]
    by_cases hn : n = name
    · rw [← hn, if_pos hseen, if_pos hseen]
    · simp [firstSpec, hn]
  | case3 seen n req rest hseen ih =>
    rw [List.filter_cons, ih]
    by_cases hn : n = name
    · subst hn
      simp [firstSpec, hseen]
    · have hother : ¬name = n := Ne.symm hn
      simp [firstSpec, hn, hother]

omit [Lower] in
theorem replaceEntry_fst (entry : Entry) : (replaceEntry additions entry).1 = entry.1 := by
  unfold replaceEntry
  split <;> rfl

omit [Lower] in
theorem replaceEntry_of_byName (h : byName additions name = some req) (line : List Char) :
    replaceEntry additions (some name, line) = (some name, req) := by
  simp [replaceEntry, h]

theorem replaceEntry_of_other {line : List Char}
    (h : isOther (additions.map Prod.fst) line = true) :
    replaceEntry additions (nameOf line, line) = (nameOf line, line) := by
  cases hname : nameOf line with
  | none => rfl
  | some name =>
    rw [isOther, hname, Option.all_some, decide_eq_true_eq, ← byName_isSome,
      Option.not_isSome_iff_eq_none] at h
    simp [replaceEntry, h]

theorem exists_of_not_other {line : List Char}
    (h : isOther (additions.map Prod.fst) line = false) :
    ∃ name req, nameOf line = some name ∧ byName additions name = some req := by
  cases hname : nameOf line with
  | none =>
    rw [isOther, hname] at h
    cases h
  | some name =>
    rw [isOther, hname, Option.all_some, decide_eq_false_iff_not, not_not, ← byName_isSome] at h
    obtain ⟨req, hreq⟩ := Option.isSome_iff_exists.mp h
    exact ⟨name, req, rfl, hreq⟩

/-- What holds of each entry that is written. -/
structure Written (names : List (List Char)) (entry : Entry) : Prop where
  name : nameOf entry.2 = entry.1
  settled : Settled names entry.2
  clean : '\r' ∉ entry.2

theorem Stored.written (h : Stored additions) (names : List (List Char))
    (hmem : (name, req) ∈ additions) : Written names (some name, req) := by
  obtain ⟨-, hunbroken, hclean, hname⟩ := h.spec hmem
  exact ⟨hname, ⟨⟨req, hunbroken, .inl rfl⟩, fun _ => hunbroken⟩, hclean⟩

theorem mergeAdd_written (h : Stored additions) (hclean : '\r' ∉ original) :
    ∀ entry ∈ mergeAdd (parseCuratedEntries original) additions,
      Written (additions.map Prod.fst) entry := by
  intro entry hentry
  rw [mergeAdd, List.mem_append] at hentry
  obtain hentry | hentry := hentry
  · rw [parseCuratedEntries_eq, List.map_map] at hentry
    obtain ⟨line, hline, rfl⟩ := List.mem_map.mp hentry
    obtain ⟨hraw, hline⟩ := raw_of_mem_rawLines hclean line hline
    show Written _ (replaceEntry additions (nameOf line, line))
    cases hother : isOther (additions.map Prod.fst) line with
    | true =>
      rw [replaceEntry_of_other hother]
      exact ⟨rfl, ⟨hraw, fun hfalse => nomatch hother.symm.trans hfalse⟩, hline⟩
    | false =>
      obtain ⟨name, req, hname, hreq⟩ := exists_of_not_other hother
      rw [hname, replaceEntry_of_byName hreq]
      exact h.written _ (mem_of_byName hreq)
  · obtain ⟨name, req, rfl, hmem⟩ := mem_appendUnseen hentry
    exact h.written _ hmem

/-- The names that a merge leaves in a text are in its lines. -/
theorem filter_written {names : List (List Char)} {entries : List Entry}
    (h : ∀ entry ∈ entries, Written names entry) (name : List Char) :
    (entries.map Prod.snd).filter (fun line => nameOf line = some name) =
      (entries.filter fun entry => entry.1 = some name).map Prod.snd := by
  rw [List.filter_map]
  congr 1
  apply List.filter_congr
  intro entry hentry
  show decide (nameOf entry.2 = some name) = _
  rw [(h entry hentry).name]

theorem filter_replaced (hreq : byName additions name = some req) (lines : List (List Char)) :
    (((lines.map fun line => (nameOf line, line)).map (replaceEntry additions)).filter
      fun entry => entry.1 = some name).map Prod.snd =
      List.replicate (lines.filter fun line => nameOf line = some name).length req := by
  induction lines with
  | nil => rfl
  | cons line lines ih =>
    rw [List.map_cons, List.map_cons, List.filter_cons, List.filter_cons]
    by_cases hname : nameOf line = some name
    · rw [hname, replaceEntry_of_byName hreq, if_pos (by simp), if_pos (by simp), List.map_cons,
        ih, List.length_cons, List.replicate_succ]
    · rw [if_neg (by simpa [replaceEntry_fst] using hname), if_neg (by simpa using hname), ih]

theorem mem_seen (hreq : byName additions name = some req) (text : List Char) :
    (name ∈ ((parseCuratedEntries text).filterMap Prod.fst).filter
      fun name => (byName additions name).isSome) ↔
    (rawLines text).filter (fun line => nameOf line = some name) ≠ [] := by
  rw [List.mem_filter, hreq, List.mem_filterMap, parseCuratedEntries_eq, Ne,
    List.filter_eq_nil_iff]
  simp

/-- The lines of a requested name: each of its old lines is the last spec, and a name without a
line gets the first spec. -/
theorem requirementLines_mergeAdd (h : Stored additions) (hclean : '\r' ∉ original)
    (hreq : byName additions name = some req) :
    requirementLines name
        (entriesToText (mergeAdd (parseCuratedEntries original) additions)) =
      if requirementLines name original = [] then (firstSpec additions name).toList
      else List.replicate (requirementLines name original).length req := by
  have hwritten := mergeAdd_written h hclean
  have hchop : chop req = req := chop_unbroken (h.spec (mem_of_byName hreq)).2.1
  have hempty : requirementLines name original = [] ↔
      (rawLines original).filter (fun line => nameOf line = some name) = [] := by
    rw [requirementLines_eq hclean, List.map_eq_nil_iff]
  have hcount : (requirementLines name original).length =
      ((rawLines original).filter fun line => nameOf line = some name).length := by
    rw [requirementLines_eq hclean, List.length_map]
  rw [requirementLines_entriesToText fun entry hentry => (hwritten entry hentry).settled.1,
    filter_written hwritten, mergeAdd, List.filter_append, List.map_append,
    filter_appendUnseen, hcount]
  by_cases hnone : (rawLines original).filter (fun line => nameOf line = some name) = []
  · have hunseen := (not_congr (mem_seen hreq original)).mpr (not_not.mpr hnone)
    rw [if_neg hunseen, if_pos (hempty.mpr hnone), parseCuratedEntries_eq, filter_replaced hreq,
      hnone]
    cases hfirst : firstSpec additions name with
    | none => rfl
    | some first =>
      obtain ⟨addition, hfind, rfl⟩ := Option.map_eq_some_iff.mp hfirst
      have hstored := (h.spec (List.mem_of_find?_eq_some hfind)).2.1
      show [chop addition.2] = [addition.2]
      rw [chop_unbroken hstored]
  · rw [if_pos ((mem_seen hreq original).mpr hnone), if_neg ((not_congr hempty).mpr hnone),
      parseCuratedEntries_eq, filter_replaced hreq, List.map_nil, List.append_nil,
      List.map_replicate, hchop]

/-- A merge leaves the lines of other names. -/
theorem filter_other_mergeAdd (h : Stored additions) (text : List Char) :
    ((mergeAdd (parseCuratedEntries text) additions).map Prod.snd).filter
        (isOther (additions.map Prod.fst)) =
      (rawLines text).filter (isOther (additions.map Prod.fst)) := by
  have hmine {name req : List Char} (hmem : (name, req) ∈ additions) :
      isOther (additions.map Prod.fst) req = false := by
    rw [isOther, (h.spec hmem).2.2.2]
    simpa using ⟨req, hmem⟩
  have happended : ((appendUnseen (((parseCuratedEntries text).filterMap Prod.fst).filter
      fun name => (byName additions name).isSome) additions).map Prod.snd).filter
        (isOther (additions.map Prod.fst)) = [] := by
    rw [List.filter_eq_nil_iff]
    intro line hline
    obtain ⟨entry, hentry, rfl⟩ := List.mem_map.mp hline
    obtain ⟨name, req, rfl, hmem⟩ := mem_appendUnseen hentry
    rw [hmine hmem]
    exact Bool.false_ne_true
  rw [mergeAdd, List.map_append, List.filter_append, happended, List.append_nil,
    parseCuratedEntries_eq]
  generalize rawLines text = lines
  induction lines with
  | nil => rfl
  | cons line lines ih =>
    rw [List.map_cons, List.map_cons, List.map_cons, List.filter_cons, List.filter_cons, ih]
    cases hother : isOther (additions.map Prod.fst) line with
    | true => rw [replaceEntry_of_other hother, if_pos hother]; rfl
    | false =>
      obtain ⟨name, req, hname, hreq⟩ := exists_of_not_other hother
      rw [hname, replaceEntry_of_byName hreq, hmine (mem_of_byName hreq)]
      rfl

/-- Every requested name has a line. -/
def AllListed (additions : List (List Char × List Char)) (original : List Char) : Prop :=
  ∀ name ∈ additions.map Prod.fst, requirementLines name original ≠ []

omit [Lower] in
theorem appendUnseen_eq_nil_iff (seen : List (List Char)) :
    appendUnseen seen additions = [] ↔ ∀ name ∈ additions.map Prod.fst, name ∈ seen := by
  induction additions generalizing seen with
  | nil => simp [appendUnseen]
  | cons addition rest ih =>
    obtain ⟨name, req⟩ := addition
    rw [appendUnseen, List.map_cons, List.forall_mem_cons]
    by_cases hseen : name ∈ seen
    · rw [if_pos hseen, ih]
      exact ⟨fun hrest => ⟨hseen, hrest⟩, And.right⟩
    · rw [if_neg hseen]
      exact ⟨fun hnil => absurd hnil (List.cons_ne_nil _ _), fun hall => absurd hall.1 hseen⟩

/-- The written text loses an empty last line exactly when nothing is written behind it. -/
theorem getLast_mergeAdd (h : Stored additions) (hclean : '\r' ∉ original) :
    ((mergeAdd (parseCuratedEntries original) additions).map Prod.snd).getLast? = some [] ↔
      AllListed additions original ∧ (rawLines original).getLast? = some [] := by
  have hseen (name : List Char) (hname : name ∈ additions.map Prod.fst) :
      (name ∈ ((parseCuratedEntries original).filterMap Prod.fst).filter
        fun name => (byName additions name).isSome) ↔ requirementLines name original ≠ [] := by
    obtain ⟨req, hreq⟩ := Option.isSome_iff_exists.mp ((byName_isSome name).mpr hname)
    rw [mem_seen hreq, requirementLines_eq hclean, Ne, Ne, List.map_eq_nil_iff]
  have hlisted : AllListed additions original ↔
      appendUnseen (((parseCuratedEntries original).filterMap Prod.fst).filter
        fun name => (byName additions name).isSome) additions = [] := by
    rw [appendUnseen_eq_nil_iff]
    exact forall₂_congr fun name hname => (hseen name hname).symm
  rw [hlisted, mergeAdd]
  by_cases hnil : appendUnseen (((parseCuratedEntries original).filterMap Prod.fst).filter
      fun name => (byName additions name).isSome) additions = []
  · have hblank (line : List Char) :
        (replaceEntry additions (nameOf line, line)).2 = [] ↔ line = [] := by
      cases hother : isOther (additions.map Prod.fst) line with
      | true => rw [replaceEntry_of_other hother]
      | false =>
        obtain ⟨name, req, hname, hreq⟩ := exists_of_not_other hother
        have hne := (h.spec (mem_of_byName hreq)).1
        rw [hname, replaceEntry_of_byName hreq]
        refine ⟨fun hreqNil => absurd hreqNil hne, ?_⟩
        rintro rfl
        cases hname
    rw [hnil, List.append_nil, parseCuratedEntries_eq, List.map_map, List.map_map,
      List.getLast?_map, Option.map_eq_some_iff]
    constructor
    · rintro ⟨line, hline, hreplaced⟩
      exact ⟨rfl, hline.trans (congrArg some ((hblank line).mp hreplaced))⟩
    · rintro ⟨-, hlast⟩
      exact ⟨[], hlast, (hblank []).mpr rfl⟩
  · constructor
    · intro hlast
      exfalso
      rw [List.map_append, List.getLast?_append_of_ne_nil _ (by simpa using hnil),
        List.getLast?_map, Option.map_eq_some_iff] at hlast
      obtain ⟨entry, hentry, hentryNil⟩ := hlast
      obtain ⟨name, req, rfl, hmem⟩ := mem_appendUnseen (List.mem_of_getLast? hentry)
      exact (h.spec hmem).1 hentryNil
    · exact fun hboth => absurd hboth.1 hnil

/-- Each requested name has one line with its last spec, and the other lines are the same. -/
def AddExact (additions : List (List Char × List Char)) (original text : List Char) : Prop :=
  (∀ name req, byName additions name = some req → requirementLines name text = [req]) ∧
    otherLines (additions.map Prod.fst) text = otherLines (additions.map Prod.fst) original

/-- A requested name has one line, or none and is first requested as it is last. -/
def OneLineEach (additions : List (List Char × List Char)) (original : List Char) : Prop :=
  ∀ name req, byName additions name = some req →
    (requirementLines name original).length = 1 ∨
      requirementLines name original = [] ∧ firstSpec additions name = some req

/-- No other line ends in a terminator that stays in the line. Where an empty last line gets no
line feed, one does, and only empty lines come behind it. -/
def KeptLinesEven (additions : List (List Char × List Char)) (original : List Char) : Prop :=
  (¬(AllListed additions original ∧ (rawLines original).getLast? = some []) ∧
      ∀ line ∈ (rawLines original).filter (isOther (additions.map Prod.fst)), Unbroken line) ∨
    (AllListed additions original ∧ (rawLines original).getLast? = some []) ∧
      ∃ front line n, (rawLines original).filter (isOther (additions.map Prod.fst)) =
          front ++ line :: List.replicate (n + 1) [] ∧
        (∀ l ∈ front, Unbroken l) ∧ ¬Unbroken line

theorem oneLineEach_iff (h : Stored additions) (hclean : '\r' ∉ original) :
    (∀ name req, byName additions name = some req → requirementLines name
      (entriesToText (mergeAdd (parseCuratedEntries original) additions)) = [req]) ↔
    OneLineEach additions original := by
  refine forall₃_congr fun name req hreq => ?_
  rw [requirementLines_mergeAdd h hclean hreq]
  by_cases hnone : requirementLines name original = []
  · rw [if_pos hnone, hnone]
    cases firstSpec additions name <;> simp
  · rw [if_neg hnone]
    constructor
    · intro hlines
      have hlength := congrArg List.length hlines
      rw [List.length_replicate] at hlength
      exact .inl hlength
    · rintro (hone | ⟨hnil, -⟩)
      · rw [hone]
        rfl
      · exact absurd hnil hnone

theorem keptLinesEven_iff (h : Stored additions) (hclean : '\r' ∉ original) :
    otherLines (additions.map Prod.fst)
        (entriesToText (mergeAdd (parseCuratedEntries original) additions)) =
      otherLines (additions.map Prod.fst) original ↔ KeptLinesEven additions original := by
  have hwritten := mergeAdd_written h hclean
  have hsettled : ∀ line ∈ trimLast
      ((mergeAdd (parseCuratedEntries original) additions).map Prod.snd),
      Settled (additions.map Prod.fst) line := by
    intro line hline
    obtain ⟨entry, hentry, rfl⟩ := List.mem_map.mp ((trimLast_sublist _).subset hline)
    exact (hwritten entry hentry).settled
  rw [otherLines_eq hclean, otherLines,
    splitlines_entriesToText fun entry hentry => (hwritten entry hentry).settled.1,
    filter_other_flatMap_expand hsettled, filter_other_trimLast, filter_other_mergeAdd h]
  have hraw : ∀ line ∈ (rawLines original).filter (isOther (additions.map Prod.fst)), Raw line :=
    fun line hline => (raw_of_mem_rawLines hclean line (List.mem_of_mem_filter hline)).1
  rw [KeptLinesEven]
  by_cases hlast : AllListed additions original ∧ (rawLines original).getLast? = some []
  · obtain ⟨init, hinit⟩ := List.getLast?_eq_some_iff.mp hlast.2
    have hkept : (rawLines original).filter (isOther (additions.map Prod.fst)) =
        init.filter (isOther (additions.map Prod.fst)) ++ [[]] := by
      rw [hinit, List.filter_append]
      rfl
    rw [hkept] at hraw ⊢
    rw [if_pos ((getLast_mergeAdd h hclean).mpr hlast), List.dropLast_concat, List.map_append,
      show [[]].map chop = [[]] from rfl,
      flatMap_expand_shift_iff fun line hline => hraw line (List.mem_append_left _ hline)]
    constructor
    · rintro ⟨front, line, n, hlines, hfront⟩
      refine .inr ⟨hlast, front, line, n, ?_, hfront⟩
      rw [hlines, List.append_assoc, List.cons_append, ← List.replicate_succ']
    · rintro (⟨hnot, -⟩ | ⟨-, front, line, n, hlines, hfront⟩)
      · exact absurd hlast hnot
      · refine ⟨front, line, n, ?_, hfront⟩
        rw [List.replicate_succ', ← List.cons_append, ← List.append_assoc] at hlines
        exact (List.append_inj' hlines rfl).1
  · rw [if_neg fun hend => hlast ((getLast_mergeAdd h hclean).mp hend),
      flatMap_expand_eq_iff hraw]
    exact ⟨fun hall => .inl ⟨hlast, hall⟩, fun hcase => (hcase.resolve_right fun hboth =>
      hlast hboth.1).2⟩

/-- When an added text is exact. -/
theorem addExact_iff (h : Stored additions) (hclean : '\r' ∉ original) :
    AddExact additions original
        (entriesToText (mergeAdd (parseCuratedEntries original) additions)) ↔
      OneLineEach additions original ∧ KeptLinesEven additions original :=
  and_congr (oneLineEach_iff h hclean) (keptLinesEven_iff h hclean)

end Merge

end Elyra.Tools
