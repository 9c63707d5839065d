import Elyra.Skills.Frontmatter
import Elyra.Tools.Requirements

namespace Elyra.Tools

open Skills (splitlines unbroken_of_space)

/-- `text.splitlines(keepends=True)`. -/
def keptLines : List Char → List (List Char)
  | [] => []
  | [c] => [[c]]
  | c :: d :: r =>
    if isLineBreak c then
      if c = '\r' ∧ d = '\n' then [c, d] :: keptLines r else [c] :: keptLines (d :: r)
    else consHeadOf c (keptLines (d :: r))

/-- `line.rstrip("\n\r")`. -/
def rstripNewlines (line : List Char) : List Char :=
  line.rdropWhile fun c => c = '\n' || c = '\r'

def rawLines (text : List Char) : List (List Char) := (keptLines text).map rstripNewlines

/-- A normalized name, if the line is read as a requirement, and the line. -/
abbrev Entry := Option (List Char) × List Char

/-- `_entries_to_text`. -/
def entriesToText (entries : List Entry) : List Char :=
  let body := ['\n'].intercalate (entries.map fun entry => rstripNewlines entry.2)
  if body ≠ [] ∧ body.getLast? ≠ some '\n' then body ++ ['\n'] else body

section Pieces

def Unbroken (line : List Char) : Prop := ∀ c ∈ line, isLineBreak c = false

/-- A line with the terminator it keeps when its line feed is dropped. -/
def Raw (line : List Char) : Prop :=
  ∃ l, Unbroken l ∧ (line = l ∨ ∃ s, line = l ++ [s] ∧ isLineBreak s ∧ s ≠ '\n' ∧ s ≠ '\r')

/-- The line without a terminator. -/
def chop (line : List Char) : List Char := line.rdropWhile isLineBreak

/-- The lines that a line becomes when a line feed is written behind it. -/
def expand (line : List Char) : List (List Char) := splitlines (line ++ ['\n'])

theorem lines_induction {P : List Char → Prop} (nil : P [])
    (last : ∀ l, l ≠ [] → Unbroken l → P l)
    (line : ∀ l s r, Unbroken l → isLineBreak s → P r → P (l ++ s :: r)) (t : List Char) : P t := by
  induction hn : t.length using Nat.strongRecOn generalizing t with
  | _ n ih =>
    obtain ⟨l, b, rfl, hended, hl⟩ := first_word (p := isLineBreak) t
    cases b with
    | nil =>
      rw [List.append_nil]
      by_cases hne : l = []
      · rw [hne]
        exact nil
      · exact last l hne hl
    | cons s r =>
      have hshort : r.length < n := by
        rw [← hn, List.length_append, List.length_cons]
        omega
      exact line l s r hl (hended s r rfl) (ih r.length hshort r rfl)

variable {l r : List Char} {s : Char}

theorem keptLines_cons {c : Char} (hc : isLineBreak c = false) (r : List Char) :
    keptLines (c :: r) = consHeadOf c (keptLines r) := by
  cases r with
  | nil => rfl
  | cons d r => rw [keptLines, if_neg (by rw [hc]; exact Bool.false_ne_true)]

theorem keptLines_line (hne : l ≠ []) (hl : Unbroken l) : keptLines l = [l] := by
  induction l with
  | nil => exact absurd rfl hne
  | cons c l ih =>
    rw [keptLines_cons (hl c List.mem_cons_self)]
    cases l with
    | nil => rfl
    | cons d l =>
      rw [ih (List.cons_ne_nil d l) fun x hx => hl x (List.mem_cons_of_mem _ hx)]
      rfl

theorem keptLines_append (hl : Unbroken l) (hs : isLineBreak s) (hreturn : s ≠ '\r')
    (r : List Char) : keptLines (l ++ s :: r) = (l ++ [s]) :: keptLines r := by
  induction l with
  | nil =>
    cases r with
    | nil => rfl
    | cons d r =>
      rw [List.nil_append, keptLines, if_pos hs, if_neg fun h => hreturn h.1]
      rfl
  | cons c l ih =>
    rw [List.cons_append, keptLines_cons (hl c List.mem_cons_self),
      ih fun x hx => hl x (List.mem_cons_of_mem _ hx)]
    rfl

theorem splitlines_append (hl : Unbroken l) (hs : isLineBreak s) (hreturn : s ≠ '\r')
    (r : List Char) : splitlines (l ++ s :: r) = l :: splitlines r := by
  apply linesBy_append hl hs
  intro d
  simp [hreturn]

theorem splitlines_line (hne : l ≠ []) (hl : Unbroken l) : splitlines l = [l] :=
  linesBy_line hne hl

theorem newline_of_unbroken (hl : Unbroken l) : '\n' ∉ l ∧ '\r' ∉ l :=
  ⟨fun h => absurd (hl _ h) (by decide), fun h => absurd (hl _ h) (by decide)⟩

theorem rstripNewlines_eq_self (h : ∀ c, l.getLast? = some c → c ≠ '\n' ∧ c ≠ '\r') :
    rstripNewlines l = l := by
  apply List.rdropWhile_eq_self_iff.mpr
  intro hne
  have hlast := h _ (List.getLast?_eq_some_getLast hne)
  simp [hlast]

theorem rstripNewlines_unbroken (hl : Unbroken l) : rstripNewlines l = l := by
  apply rstripNewlines_eq_self
  intro c hc
  have hmem := List.mem_of_getLast? hc
  obtain ⟨hn, hr⟩ := newline_of_unbroken hl
  exact ⟨fun h => hn (h ▸ hmem), fun h => hr (h ▸ hmem)⟩

theorem rstripNewlines_raw {line : List Char} (h : Raw line) : rstripNewlines line = line := by
  obtain ⟨l, hl, rfl | ⟨s, rfl, -, hn, hr⟩⟩ := h
  · exact rstripNewlines_unbroken hl
  · apply rstripNewlines_eq_self
    intro c hc
    rw [List.getLast?_concat] at hc
    obtain rfl := Option.some.inj hc
    exact ⟨hn, hr⟩

theorem chop_unbroken (hl : Unbroken l) : chop l = l := by
  apply List.rdropWhile_eq_self_iff.mpr
  intro hne
  rw [hl _ (List.getLast_mem hne)]
  exact Bool.false_ne_true

theorem chop_broken (hl : Unbroken l) (hs : isLineBreak s) : chop (l ++ [s]) = l := by
  rw [chop, List.rdropWhile_concat, if_pos hs]
  exact chop_unbroken hl

theorem expand_unbroken (hl : Unbroken l) : expand l = [l] :=
  splitlines_append hl (by decide) (by decide) []

theorem expand_broken (hl : Unbroken l) (hs : isLineBreak s) (hreturn : s ≠ '\r') :
    expand (l ++ [s]) = [l, []] := by
  rw [expand, List.append_assoc, List.singleton_append, splitlines_append hl hs hreturn]
  rfl

theorem splitlines_terminated {line : List Char} (h : Raw line) (rest : List Char) :
    splitlines (line ++ '\n' :: rest) = expand line ++ splitlines rest := by
  obtain ⟨l, hl, rfl | ⟨s, rfl, hs, -, hreturn⟩⟩ := h
  · rw [expand_unbroken hl, splitlines_append hl (by decide) (by decide)]
    rfl
  · rw [expand_broken hl hs hreturn, List.append_assoc, List.singleton_append,
      splitlines_append hl hs hreturn]
    show l :: splitlines ([] ++ '\n' :: rest) = _
    rw [splitlines_append (fun c hc => absurd hc List.not_mem_nil) (by decide) (by decide)]
    rfl

theorem rawLines_append (hl : Unbroken l) (hs : isLineBreak s) (hreturn : s ≠ '\r')
    (r : List Char) :
    rawLines (l ++ s :: r) = (if s = '\n' then l else l ++ [s]) :: rawLines r := by
  rw [rawLines, keptLines_append hl hs hreturn, List.map_cons]
  congr 1
  split_ifs with hn
  · rw [rstripNewlines, List.rdropWhile_concat, if_pos (by simp [hn])]
    exact rstripNewlines_unbroken hl
  · exact rstripNewlines_raw ⟨l, hl, .inr ⟨s, rfl, hs, hn, hreturn⟩⟩

theorem rawLines_line (hne : l ≠ []) (hl : Unbroken l) : rawLines l = [l] := by
  rw [rawLines, keptLines_line hne hl, List.map_singleton, rstripNewlines_unbroken hl]

variable {text : List Char}

theorem raw_of_mem_rawLines (hclean : '\r' ∉ text) :
    ∀ line ∈ rawLines text, Raw line ∧ '\r' ∉ line := by
  induction text using lines_induction with
  | nil => exact fun line h => absurd h List.not_mem_nil
  | last l hne hl =>
    rw [rawLines_line hne hl]
    intro line hline
    obtain rfl := List.mem_singleton.mp hline
    exact ⟨⟨line, hl, .inl rfl⟩, hclean⟩
  | line l s r hl hs ih =>
    rw [List.mem_append, List.mem_cons, not_or, not_or] at hclean
    have hreturn : s ≠ '\r' := fun h => hclean.2.1 h.symm
    rw [rawLines_append hl hs hreturn]
    refine List.forall_mem_cons.mpr ⟨?_, ih hclean.2.2⟩
    split_ifs with hn
    · exact ⟨⟨l, hl, .inl rfl⟩, hclean.1⟩
    · refine ⟨⟨l, hl, .inr ⟨s, rfl, hs, hn, hreturn⟩⟩, ?_⟩
      rw [List.mem_append, List.mem_singleton, not_or]
      exact ⟨hclean.1, hclean.2.1⟩

/-- The lines of a text are its raw lines without terminators. -/
theorem splitlines_eq_chop (hclean : '\r' ∉ text) :
    splitlines text = (rawLines text).map chop := by
  induction text using lines_induction with
  | nil => rfl
  | last l hne hl =>
    rw [splitlines_line hne hl, rawLines_line hne hl, List.map_singleton, chop_unbroken hl]
  | line l s r hl hs ih =>
    rw [List.mem_append, List.mem_cons, not_or, not_or] at hclean
    have hreturn : s ≠ '\r' := fun h => hclean.2.1 h.symm
    rw [splitlines_append hl hs hreturn, rawLines_append hl hs hreturn, List.map_cons,
      ih hclean.2.2]
    congr 1
    split_ifs
    · exact (chop_unbroken hl).symm
    · exact (chop_broken hl hs).symm

/-- The lines that get a line feed when a text is written: all but an empty last one. -/
def trimLast (lines : List (List Char)) : List (List Char) :=
  if lines.getLast? = some [] then lines.dropLast else lines

theorem intercalate_concat (lines : List (List Char)) (last : List Char) :
    ['\n'].intercalate (lines ++ [last]) = lines.flatMap (· ++ ['\n']) ++ last := by
  induction lines with
  | nil => simp [List.intercalate]
  | cons l lines ih =>
    obtain ⟨x, xs, hx⟩ : ∃ x xs, lines ++ [last] = x :: xs :=
      List.exists_cons_of_ne_nil (List.append_ne_nil_of_right_ne_nil _ (List.cons_ne_nil _ _))
    rw [List.cons_append, hx, List.intercalate_cons_cons, ← hx, ih, List.flatMap_cons,
      List.append_assoc, List.append_assoc, List.append_assoc]

theorem entriesToText_eq {entries : List Entry} (h : ∀ entry ∈ entries, Raw entry.2) :
    entriesToText entries = (trimLast (entries.map Prod.snd)).flatMap (· ++ ['\n']) := by
  have hraw : (entries.map fun entry => rstripNewlines entry.2) = entries.map Prod.snd :=
    List.map_congr_left fun entry hentry => rstripNewlines_raw (h entry hentry)
  obtain rfl | ⟨init, last, rfl⟩ := List.eq_nil_or_concat entries
  · rfl
  rw [List.concat_eq_append] at h hraw ⊢
  have hlast : Raw last.2 := h last (by simp)
  simp only [entriesToText]
  rw [hraw, List.map_append, List.map_singleton, intercalate_concat]
  by_cases hnil : last.2 = []
  · rw [hnil, List.append_nil, trimLast, List.getLast?_concat, if_pos rfl, List.dropLast_concat]
    apply if_neg
    rintro ⟨hne, hend⟩
    apply hend
    obtain hinit | ⟨as, a, hinit⟩ := List.eq_nil_or_concat (init.map Prod.snd)
    · rw [hinit] at hne
      exact absurd rfl hne
    · rw [hinit, List.concat_eq_append, List.flatMap_append, List.flatMap_singleton,
        ← List.append_assoc, List.getLast?_concat]
  · have htrim : trimLast (init.map Prod.snd ++ [last.2]) = init.map Prod.snd ++ [last.2] := by
      rw [trimLast, List.getLast?_concat, if_neg fun heq => hnil (Option.some.inj heq)]
    have hend : ((init.map Prod.snd).flatMap (· ++ ['\n']) ++ last.2).getLast? ≠ some '\n' := by
      rw [List.getLast?_append_of_ne_nil _ hnil]
      intro hbad
      have hself := rstripNewlines_raw hlast
      rw [rstripNewlines, List.rdropWhile_eq_self_iff] at hself
      apply hself hnil
      rw [List.getLast?_eq_some_getLast hnil] at hbad
      rw [Option.some.inj hbad]
      rfl
    rw [if_pos ⟨List.append_ne_nil_of_right_ne_nil _ hnil, hend⟩, htrim, List.flatMap_append,
      List.flatMap_singleton, List.append_assoc]

theorem splitlines_flatMap {lines : List (List Char)} (h : ∀ line ∈ lines, Raw line) :
    splitlines (lines.flatMap (· ++ ['\n'])) = lines.flatMap expand := by
  induction lines with
  | nil => rfl
  | cons l lines ih =>
    rw [List.flatMap_cons, List.append_assoc, List.singleton_append,
      splitlines_terminated (h l List.mem_cons_self),
      ih fun x hx => h x (List.mem_cons_of_mem _ hx), List.flatMap_cons]

theorem trimLast_sublist (lines : List (List Char)) : (trimLast lines).Sublist lines := by
  unfold trimLast
  split_ifs
  · exact List.dropLast_sublist lines
  · exact List.Sublist.refl lines

/-- The lines of a written text. -/
theorem splitlines_entriesToText {entries : List Entry} (h : ∀ entry ∈ entries, Raw entry.2) :
    splitlines (entriesToText entries) = (trimLast (entries.map Prod.snd)).flatMap expand := by
  rw [entriesToText_eq h]
  apply splitlines_flatMap
  intro line hline
  obtain ⟨entry, hentry, rfl⟩ := List.mem_map.mp ((trimLast_sublist _).subset hline)
  exact h entry hentry

theorem not_mem_entriesToText {entries : List Entry}
    (h : ∀ entry ∈ entries, Raw entry.2 ∧ '\r' ∉ entry.2) : '\r' ∉ entriesToText entries := by
  rw [entriesToText_eq fun entry hentry => (h entry hentry).1]
  intro hmem
  obtain ⟨line, hline, hr⟩ := List.mem_flatMap.mp hmem
  obtain ⟨entry, hentry, rfl⟩ := List.mem_map.mp ((trimLast_sublist _).subset hline)
  rw [List.mem_append, List.mem_singleton] at hr
  exact hr.elim (h entry hentry).2 (by decide)

end Pieces

end Elyra.Tools
