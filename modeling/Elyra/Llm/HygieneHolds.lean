import Elyra.Llm.ReasoningHygiene

namespace Elyra.Llm

open PyText (blankChar)

theorem blank_of_break {c : PyChar} (h : lineBreakChar c = true) : blankChar c = true := by
  cases c with
  | scalar c => exact isSpace_of_isLineBreak h
  | surrogate n => cases h

theorem blank_newline : blankChar newline = true := by decide

/-! A marker shows in the words of a text. -/

section Words

variable [WordChars]

theorem wordChar_of_blank {c : PyChar} (h : blankChar c = true) : wordChar c = false := by
  cases c with
  | surrogate n => rfl
  | scalar c =>
    have hspace : isSpace c = true := h
    rw [wordChar]
    split_ifs with hascii
    · have halnum : c.isAlphanum = false := by
        cases hc : c.isAlphanum with
        | false => rfl
        | true => rw [isSpace_of_alphanum hc] at hspace; cases hspace
      have hunderscore : c ≠ '_' := by
        rintro rfl
        exact absurd hspace (by decide)
      simp [halnum, hunderscore]
    · cases hc : WordChars.foreign c with
      | false => rfl
      | true => rw [WordChars.not_space c hc] at hspace; cases hspace

omit [WordChars] in
theorem unblank_of_spells {word : List Char} {h : PyText} (hspells : Spells word h)
    (hword : ∀ k ∈ word, isSpace k = false) : ∀ c ∈ h, blankChar c = false := by
  intro c hc
  have hmem : folded c ∈ word.map PyChar.scalar := by
    rw [← hspells]
    exact List.mem_map_of_mem hc
  obtain ⟨k, hk, hkc⟩ := List.mem_map.mp hmem
  cases c with
  | surrogate n => rfl
  | scalar d =>
    cases hd : isSpace d with
    | false => exact hd
    | true =>
      have hsame : k = d := (PyChar.scalar.inj hkc).trans (toLower_of_isSpace hd)
      rw [← hsame, hword k hk] at hd
      cases hd

/-- A word of a text, where `h` stands in it before `r` and other words follow. -/
def OpensWord (h r : PyText) (later : List PyText) : Prop :=
  (∃ word ∈ openTags, Spells word h) ∨
    (∃ word ∈ tagHeads, Spells word h) ∧ wordEnds r = true ∧ .scalar '>' ∈ r ++ later.flatten

def WordsMarked (ws : List PyText) : Prop :=
  ∃ us p h r vs, ws = us ++ (p ++ h ++ r) :: vs ∧ OpensWord h r vs

theorem Opens.unblank {h r : PyText} (hopens : Opens h r) : ∀ c ∈ h, blankChar c = false := by
  have htags : ∀ word ∈ openTags ++ tagHeads, ∀ k ∈ word, isSpace k = false := by decide
  obtain ⟨word, hword, hspells⟩ | ⟨⟨word, hword, hspells⟩, -⟩ := hopens
  · exact unblank_of_spells hspells (htags word (List.mem_append_left _ hword))
  · exact unblank_of_spells hspells (htags word (List.mem_append_right _ hword))

theorem wordEnds_append_of_ended {r b : PyText} (hb : Ended blankChar b) :
    wordEnds (r ++ b) = wordEnds r := by
  cases r with
  | cons c r => rfl
  | nil =>
    cases b with
    | nil => rfl
    | cons c b =>
      show (!wordChar c) = true
      rw [wordChar_of_blank (hb c b rfl)]
      rfl

/-- Whether a text has a marker depends on its words only. -/
theorem marked_iff_words (t : PyText) : Marked t ↔ WordsMarked (words blankChar t) := by
  constructor
  · rintro ⟨pre, h, rest, rfl, hopens⟩
    -- the word that the marker begins in, up to the next blank
    obtain ⟨a, p, rfl, ha, hp⟩ := last_word (p := blankChar) pre
    obtain ⟨r, b, rfl, hb, hr⟩ := first_word (p := blankChar) rest
    refine ⟨words blankChar a, p, h, r, words blankChar b, ?_, ?_⟩
    · have hword : ∀ x ∈ p ++ h ++ r, blankChar x = false := by
        intro x hx
        obtain (hx | hx) | hx := (List.mem_append.mp hx).imp_left List.mem_append.mp
        · exact hp x hx
        · exact hopens.unblank x hx
        · exact hr x hx
      have hne : p ++ h ++ r ≠ [] := by
        simp [hopens.ne_nil]
      rw [← words_around ha hne hword hb]
      simp only [List.append_assoc]
    · obtain htag | ⟨hhead, hends, hclose⟩ := hopens
      · exact .inl htag
      · refine .inr ⟨hhead, (wordEnds_append_of_ended hb).symm.trans hends, ?_⟩
        rw [List.mem_append, mem_flatten_words b (by decide)]
        exact List.mem_append.mp hclose
  · rintro ⟨us, p, h, r, vs, hwords, hopens⟩
    obtain ⟨a, b, rfl, hb, hvs⟩ := exists_of_words t us vs _ hwords
    refine ⟨a ++ p, h, r ++ b, by simp only [List.append_assoc], ?_⟩
    obtain htag | ⟨hhead, hends, hclose⟩ := hopens
    · exact .inl htag
    · refine .inr ⟨hhead, (wordEnds_append_of_ended hb).trans hends, ?_⟩
      rw [← hvs, List.mem_append, mem_flatten_words b (by decide)] at hclose
      exact List.mem_append.mpr hclose

end Words

/-! What the blanks of a text become keeps its words. -/

section Fold

theorem words_collapseFrom (run : Nat) (t a : PyText) (ha : run = 0 ∨ Begun blankChar a) :
    words blankChar (a ++ collapseFrom run t) = words blankChar (a ++ t) := by
  induction t generalizing run a with
  | nil => cases run <;> rfl
  | cons c t ih =>
    have hkept (next : Nat) (hnext : next = 0 ∨ Begun blankChar (a ++ [c])) :
        words blankChar (a ++ c :: collapseFrom next t) = words blankChar (a ++ c :: t) := by
      have hmoved := ih next (a ++ [c]) hnext
      rwa [List.append_assoc, List.append_assoc] at hmoved
    rw [collapseFrom]
    split_ifs with hc hrun
    · exact hkept (run + 1) (.inr (begun_concat a (by rw [hc]; exact blank_newline)))
    · obtain rfl | hbegun := ha
      · omega
      have hblank : blankChar c = true := by rw [hc]; exact blank_newline
      rw [ih (run + 1) a (.inr hbegun), words_append_cons _ _ hblank, words_append_of_begun hbegun]
    · exact hkept 0 (.inl rfl)

theorem flatMap_words_splitlines (t : PyText) :
    (splitlines t).flatMap (words blankChar) = words blankChar t := by
  refine flatMap_words_linesBy (fun c => blank_of_break) ?_ t
  intro c d h
  rw [crlf, Bool.and_eq_true, decide_eq_true_eq, decide_eq_true_eq] at h
  rw [h.2]
  exact blank_newline

theorem words_of_strip_nil {line : PyText} (h : line.strip = []) : words blankChar line = [] := by
  have hwords : words blankChar (stripBy blankChar line) = words blankChar line :=
    words_stripBy line
  rw [← hwords]
  show words blankChar line.strip = []
  rw [h]
  rfl

theorem flatMap_words_compactFrom (started : Bool) (run : Nat) (lines : List PyText) :
    (compactFrom started run lines).flatMap (words blankChar) =
      lines.flatMap (words blankChar) := by
  induction lines generalizing started run with
  | nil => rfl
  | cons line lines ih =>
    rw [compactFrom, List.flatMap_cons]
    split_ifs with hblank hkept
    · rw [List.flatMap_cons, ih, words_of_strip_nil hblank]
      rfl
    · rw [ih, words_of_strip_nil hblank]
      rfl
    · rw [List.flatMap_cons, ih]

theorem join_cons {ls : List PyText} (hls : ls ≠ []) (l : PyText) :
    join (l :: ls) = l ++ newline :: join ls := by
  rw [join, List.intercalate_cons_of_ne_nil hls, List.append_assoc]
  rfl

theorem join_single (l : PyText) : join [l] = l := List.intercalate_singleton

theorem words_join (lines : List PyText) :
    words blankChar (join lines) = lines.flatMap (words blankChar) := by
  induction lines with
  | nil => rfl
  | cons line lines ih =>
    by_cases hlast : lines = []
    · rw [hlast, join_single, List.flatMap_cons, List.flatMap_nil, List.append_nil]
    · rw [join_cons hlast, words_append_cons _ _ blank_newline, ih, List.flatMap_cons]

theorem words_foldBlanks (t : PyText) : words blankChar (foldBlanks t) = words blankChar t := by
  have hrstrip (lines : List PyText) :
      (lines.map rstrip).flatMap (words blankChar) = lines.flatMap (words blankChar) := by
    rw [List.flatMap_map]
    exact congrArg (lines.flatMap ·) (funext fun line => words_rdropWhile line)
  calc words blankChar (foldBlanks t)
      = words blankChar (join (compactFrom false 0 ((splitlines (collapseFrom 0 t)).map rstrip))) :=
        words_stripBy _
    _ = (splitlines (collapseFrom 0 t)).flatMap (words blankChar) := by
        rw [words_join, flatMap_words_compactFrom, hrstrip]
    _ = words blankChar (collapseFrom 0 t) := flatMap_words_splitlines _
    _ = words blankChar t := words_collapseFrom 0 t [] (.inl rfl)

/-- A line that is kept. -/
structure Line (l : PyText) : Prop where
  ne_nil : l ≠ []
  rstripped : l.rdropWhile blankChar = l
  unbroken : ∀ c ∈ l, lineBreakChar c = false

/-- Lines with at most one blank one between them. -/
inductive Spaced : List PyText → Prop
  | last {l} (h : Line l) : Spaced [l]
  | next {l ls} (h : Line l) (hls : Spaced ls) : Spaced (l :: ls)
  | gap {l ls} (h : Line l) (hls : Spaced ls) : Spaced (l :: [] :: ls)

theorem Line.strip_ne_nil {l : PyText} (h : Line l) : l.strip ≠ [] := by
  intro hnil
  have hall : ∀ x ∈ l, blankChar x = true := all_of_stripBy_eq_nil hnil
  have hl := List.rdropWhile_eq_nil_iff.mpr hall
  rw [h.rstripped] at hl
  exact h.ne_nil hl

theorem Spaced.ne_nil {ls : List PyText} (h : Spaced ls) : ls ≠ [] := by
  cases h <;> exact List.cons_ne_nil _ _

/-- The lines of `compact`, with a blank one at the end that stripping removes. -/
def Settled (ls : List PyText) : Prop := ∃ ms, Spaced ms ∧ (ls = ms ∨ ls = ms ++ [[]])

theorem Settled.next {l : PyText} {ls : List PyText} (hl : Line l) (h : Settled ls) :
    Settled (l :: ls) := by
  obtain ⟨ms, hms, rfl | rfl⟩ := h
  · exact ⟨l :: ls, .next hl hms, .inl rfl⟩
  · exact ⟨l :: ms, .next hl hms, .inr rfl⟩

theorem Settled.gap {l : PyText} {ls : List PyText} (hl : Line l) (h : Settled ls) :
    Settled (l :: [] :: ls) := by
  obtain ⟨ms, hms, rfl | rfl⟩ := h
  · exact ⟨l :: [] :: ls, .gap hl hms, .inl rfl⟩
  · exact ⟨l :: [] :: ms, .gap hl hms, .inr rfl⟩

/-- A line as the loop meets it. -/
def Read (l : PyText) : Prop :=
  l.rdropWhile blankChar = l ∧ ∀ c ∈ l, lineBreakChar c = false

theorem Read.line {l : PyText} (h : Read l) (hkept : l.strip ≠ []) : Line l :=
  ⟨fun hnil => hkept (by rw [hnil]; rfl), h.1, h.2⟩

theorem settled_compactFrom (lines : List PyText) (hlines : ∀ l ∈ lines, Read l) :
    ∀ l, Line l → Settled (l :: compactFrom true 0 lines) ∧
      ∀ run, Settled (l :: [] :: compactFrom true (run + 1) lines) := by
  induction lines with
  | nil =>
    intro l hl
    exact ⟨⟨[l], .last hl, .inl rfl⟩, fun run => ⟨[l], .last hl, .inr rfl⟩⟩
  | cons x lines ih =>
    have hrest := ih fun y hy => hlines y (List.mem_cons_of_mem _ hy)
    intro l hl
    by_cases hx : x.strip = []
    · constructor
      · rw [compactFrom, if_pos hx, if_pos ⟨Nat.le_refl 1, rfl⟩]
        exact (hrest l hl).2 0
      · intro run
        rw [compactFrom, if_pos hx, if_neg (by omega)]
        exact (hrest l hl).2 (run + 1)
    · have hline : Line x := (hlines x List.mem_cons_self).line hx
      constructor
      · rw [compactFrom, if_neg hx]
        exact (hrest x hline).1.next hl
      · intro run
        rw [compactFrom, if_neg hx]
        exact (hrest x hline).1.gap hl

theorem compactFrom_start (run : Nat) (lines : List PyText) (hlines : ∀ l ∈ lines, Read l) :
    compactFrom false run lines = [] ∨ Settled (compactFrom false run lines) := by
  induction lines generalizing run with
  | nil => exact .inl rfl
  | cons x lines ih =>
    have hrest : ∀ l ∈ lines, Read l := fun l hl => hlines l (List.mem_cons_of_mem _ hl)
    by_cases hx : x.strip = []
    · rw [compactFrom, if_pos hx, if_neg fun h => Bool.false_ne_true h.2]
      exact ih (run + 1) hrest
    · rw [compactFrom, if_neg hx]
      exact .inr (settled_compactFrom lines hrest x ((hlines x List.mem_cons_self).line hx)).1

theorem read_splitlines (t : PyText) : ∀ l ∈ (splitlines t).map rstrip, Read l := by
  intro l hl
  obtain ⟨line, hline, rfl⟩ := List.mem_map.mp hl
  refine ⟨List.rdropWhile_idempotent _ _, ?_⟩
  intro c hc
  exact unbroken_of_mem_linesBy t line hline c ((List.rdropWhile_prefix _ line).subset hc)

theorem Line.dropWhile {l : PyText} (h : Line l) :
    Line (l.dropWhile blankChar) ∧ ∃ c r, l.dropWhile blankChar = c :: r ∧ blankChar c = false := by
  have hsplit : l = l.takeWhile blankChar ++ l.dropWhile blankChar :=
    List.takeWhile_append_dropWhile.symm
  cases hdrop : l.dropWhile blankChar with
  | nil =>
    have hl := List.rdropWhile_eq_nil_iff.mpr (List.dropWhile_eq_nil_iff.mp hdrop)
    rw [h.rstripped] at hl
    exact absurd hl h.ne_nil
  | cons c r =>
    have hfirst := List.head?_dropWhile_not blankChar l
    rw [hdrop] at hsplit hfirst
    refine ⟨⟨List.cons_ne_nil c r, ?_, ?_⟩, c, r, rfl, hfirst⟩
    · have hlast := List.rdropWhile_eq_self_iff.mp h.rstripped h.ne_nil
      rw [List.rdropWhile_eq_self_iff]
      intro hne
      have hsame : l.getLast h.ne_nil = (c :: r).getLast hne := by
        rw [List.getLast_congr h.ne_nil (List.append_ne_nil_of_right_ne_nil _ hne) hsplit,
          List.getLast_append_of_ne_nil _ hne]
      rwa [← hsame]
    · intro x hx
      apply h.unbroken
      rw [hsplit]
      exact List.mem_append_right _ hx

theorem join_gap {ls : List PyText} (hls : ls ≠ []) (l : PyText) :
    join (l :: [] :: ls) = l ++ newline :: newline :: join ls := by
  rw [join_cons (List.cons_ne_nil _ _), join_cons hls]
  rfl

theorem Spaced.rstripped {ls : List PyText} (h : Spaced ls) :
    join ls ≠ [] ∧ (join ls).rdropWhile blankChar = join ls := by
  induction h with
  | last h =>
    rw [join_single]
    exact ⟨h.ne_nil, h.rstripped⟩
  | @next l ls h hls ih =>
    rw [join_cons hls.ne_nil]
    exact ⟨by simp [h.ne_nil], by
      rw [← List.singleton_append, ← List.append_assoc]
      exact rdropWhile_append_self _ ih.1 ih.2⟩
  | @gap l ls h hls ih =>
    rw [join_gap hls.ne_nil]
    refine ⟨by simp [h.ne_nil], ?_⟩
    have hsplit : l ++ newline :: newline :: join ls = (l ++ [newline, newline]) ++ join ls := by
      simp
    rw [hsplit]
    exact rdropWhile_append_self _ ih.1 ih.2

/-- Stripping such a text strips its first line. -/
theorem Spaced.lstrip {ls : List PyText} (h : Spaced ls) :
    ∃ s ms, join ls = s ++ join ms ∧ (∀ x ∈ s, blankChar x = true) ∧ Spaced ms ∧
      ∀ c r, join ms = c :: r → blankChar c = false := by
  have hblank (l : PyText) : ∀ x ∈ l.takeWhile blankChar, blankChar x = true :=
    fun x hx => List.mem_takeWhile_imp hx
  have hsplit (l : PyText) : l.takeWhile blankChar ++ l.dropWhile blankChar = l :=
    List.takeWhile_append_dropWhile
  have hhead {l : PyText} (hl : Line l) (t : PyText) :
      ∀ c r, l.dropWhile blankChar ++ t = c :: r → blankChar c = false := by
    intro c r hcr
    obtain ⟨-, d, m, hd, hdb⟩ := hl.dropWhile
    rw [hd] at hcr
    rwa [← (List.cons.inj hcr).1]
  cases h with
  | @last l hl =>
    refine ⟨_, [l.dropWhile blankChar], ?_, hblank l, .last hl.dropWhile.1, ?_⟩
    · rw [join_single, join_single, hsplit]
    · rw [join_single]
      have hfirst := hhead hl []
      rwa [List.append_nil] at hfirst
  | @next l ls hl hls =>
    refine ⟨_, l.dropWhile blankChar :: ls, ?_, hblank l, .next hl.dropWhile.1 hls, ?_⟩
    · rw [join_cons hls.ne_nil, join_cons hls.ne_nil, ← List.append_assoc, hsplit]
    · rw [join_cons hls.ne_nil]
      exact hhead hl _
  | @gap l ls hl hls =>
    refine ⟨_, l.dropWhile blankChar :: [] :: ls, ?_, hblank l, .gap hl.dropWhile.1 hls, ?_⟩
    · rw [join_gap hls.ne_nil, join_gap hls.ne_nil, ← List.append_assoc, hsplit]
    · rw [join_gap hls.ne_nil]
      exact hhead hl _

theorem join_append_blank {ls : List PyText} (hls : ls ≠ []) :
    join (ls ++ [[]]) = join ls ++ [newline] := by
  induction ls with
  | nil => exact absurd rfl hls
  | cons l ls ih =>
    by_cases hlast : ls = []
    · rw [hlast, join_single]
      exact join_cons (List.cons_ne_nil _ _) l
    · rw [List.cons_append, join_cons (List.append_ne_nil_of_left_ne_nil hlast _), ih hlast,
        join_cons hlast]
      simp

/-- What the folding of blanks leaves. -/
def Folded (t : PyText) : Prop :=
  t = [] ∨ ∃ ms, t = join ms ∧ Spaced ms ∧ ∀ c r, t = c :: r → blankChar c = false

theorem folded_foldBlanks (t : PyText) : Folded (foldBlanks t) := by
  have hstart := compactFrom_start 0 _ (read_splitlines (collapseFrom 0 t))
  rw [foldBlanks]
  obtain hnil | ⟨ls, hls, hcompact⟩ := hstart
  · rw [hnil]
    exact .inl rfl
  · obtain ⟨s, ms, hjoin, hs, hms, hfirst⟩ := hls.lstrip
    have hstrip {b : PyText} (hb : ∀ x ∈ b, blankChar x = true) :
        PyText.strip (join ls ++ b) = join ms := by
      rw [hjoin]
      exact stripBy_between hs hb hfirst hms.rstripped.2
    have hresult : PyText.strip (join (compactFrom false 0
        ((splitlines (collapseFrom 0 t)).map rstrip))) = join ms := by
      obtain heq | heq := hcompact
      · rw [heq, ← List.append_nil (join ls)]
        exact hstrip fun x hx => absurd hx List.not_mem_nil
      · rw [heq, join_append_blank hls.ne_nil]
        exact hstrip fun x hx => by rw [List.mem_singleton.mp hx]; exact blank_newline
    rw [hresult]
    exact .inr ⟨ms, rfl, hms, hfirst⟩

/-! Folding a folded text again. -/

theorem ne_newline_of_unbroken {c : PyChar} (h : lineBreakChar c = false) : c ≠ newline := by
  rintro rfl
  cases h

theorem collapseFrom_line {l : PyText} (h : Line l) (run : Nat) (t : PyText) :
    collapseFrom run (l ++ t) = l ++ collapseFrom 0 t := by
  obtain ⟨hne, -, hunbroken⟩ := h
  induction l generalizing run with
  | nil => exact absurd rfl hne
  | cons c l ih =>
    obtain ⟨hc, hl⟩ := List.forall_mem_cons.mp hunbroken
    rw [List.cons_append, collapseFrom, if_neg (ne_newline_of_unbroken hc)]
    by_cases hlast : l = []
    · rw [hlast]
      rfl
    · rw [ih 0 hlast hl]
      rfl

theorem collapseFrom_newline {run : Nat} (hrun : run < 2) (t : PyText) :
    collapseFrom run (newline :: t) = newline :: collapseFrom (run + 1) t := by
  rw [collapseFrom, if_pos rfl, if_pos hrun]

theorem Spaced.collapseFrom {ms : List PyText} (h : Spaced ms) (run : Nat) :
    collapseFrom run (join ms) = join ms := by
  induction h generalizing run with
  | @last l h =>
    have hline := collapseFrom_line h run []
    rw [List.append_nil] at hline
    rw [join_single, hline]
    exact List.append_nil l
  | next h hls ih =>
    rw [join_cons hls.ne_nil, collapseFrom_line h, collapseFrom_newline (by omega), ih]
  | gap h hls ih =>
    rw [join_gap hls.ne_nil, collapseFrom_line h, collapseFrom_newline (by omega),
      collapseFrom_newline (by omega), ih]

theorem Spaced.splitlines {ms : List PyText} (h : Spaced ms) : splitlines (join ms) = ms := by
  have hbreak : lineBreakChar newline = true := by decide
  have hpair : ∀ d, crlf newline d = false := fun d => rfl
  induction h with
  | last h =>
    rw [join_single]
    exact linesBy_line h.ne_nil h.unbroken
  | next h hls ih =>
    rw [join_cons hls.ne_nil, Llm.splitlines, linesBy_append h.unbroken hbreak hpair]
    exact congrArg _ ih
  | gap h hls ih =>
    rw [join_gap hls.ne_nil, Llm.splitlines, linesBy_append h.unbroken hbreak hpair,
      linesBy_break hbreak hpair]
    exact congrArg _ (congrArg _ ih)

theorem Spaced.map_rstrip {ms : List PyText} (h : Spaced ms) : ms.map rstrip = ms := by
  induction h with
  | last h => rw [List.map_cons, rstrip, h.rstripped, List.map_nil]
  | next h hls ih => rw [List.map_cons, rstrip, h.rstripped, ih]
  | gap h hls ih =>
    rw [List.map_cons, List.map_cons, ih, rstrip, h.rstripped]
    rfl

theorem Spaced.compactFrom {ms : List PyText} (h : Spaced ms) (started : Bool) (run : Nat) :
    compactFrom started run ms = ms := by
  induction h generalizing started run with
  | last h =>
    rw [Llm.compactFrom, if_neg h.strip_ne_nil]
    rfl
  | next h hls ih => rw [Llm.compactFrom, if_neg h.strip_ne_nil, ih]
  | gap h hls ih =>
    have hblank : PyText.strip [] = [] := rfl
    rw [Llm.compactFrom, if_neg h.strip_ne_nil, Llm.compactFrom, if_pos hblank,
      if_pos ⟨Nat.le_refl 1, rfl⟩, ih]

theorem foldBlanks_of_folded {t : PyText} (h : Folded t) : foldBlanks t = t := by
  obtain rfl | ⟨ms, rfl, hms, hfirst⟩ := h
  · rfl
  · have hstrip := stripBy_between (a := []) (b := []) (fun x hx => absurd hx List.not_mem_nil)
      (fun x hx => absurd hx List.not_mem_nil) hfirst hms.rstripped.2
    rw [List.nil_append, List.append_nil] at hstrip
    rw [foldBlanks, hms.collapseFrom, hms.splitlines, hms.map_rstrip, hms.compactFrom]
    exact hstrip

theorem foldBlanks_idem (t : PyText) : foldBlanks (foldBlanks t) = foldBlanks t :=
  foldBlanks_of_folded (folded_foldBlanks t)

end Fold

section Hygiene

variable [WordChars]

theorem marked_foldBlanks (t : PyText) : Marked (foldBlanks t) ↔ Marked t := by
  rw [marked_iff_words, words_foldBlanks, ← marked_iff_words]

theorem stripChannelMarkers_some (t : PyText) :
    stripChannelMarkers (some t) = foldBlanks (withoutMarkers t) := by
  rw [stripChannelMarkers]
  split_ifs with hnil
  · rw [hnil]
    rfl
  · rfl

/-- Stripping leaves no marker exactly where none was interrupted. -/
theorem marked_stripChannelMarkers (t : PyText) :
    Marked (stripChannelMarkers (some t)) ↔ Interrupted t := by
  rw [stripChannelMarkers_some, marked_foldBlanks, marked_withoutMarkers]

theorem stripChannelMarkers_idem {t : PyText} (h : ¬Interrupted t) :
    stripChannelMarkers (some (stripChannelMarkers (some t))) = stripChannelMarkers (some t) := by
  rw [← marked_stripChannelMarkers] at h
  rw [stripChannelMarkers_some (stripChannelMarkers (some t)), withoutMarkers_unmarked h,
    stripChannelMarkers_some]
  exact foldBlanks_idem _

theorem cleaned_unmarked {t : PyText} (h : ¬Marked t) : cleaned t = t :=
  if_pos ((channelMarkerCount_eq_zero t).mpr h)

theorem cleaned_marked {t : PyText} (h : Marked t) : cleaned t = stripChannelMarkers (some t) :=
  if_neg fun hzero => (channelMarkerCount_eq_zero t).mp hzero h

theorem not_marked_cleaned {t : PyText} (h : ¬Interrupted t) : ¬Marked (cleaned t) := by
  by_cases hmarked : Marked t
  · rw [cleaned_marked hmarked, marked_stripChannelMarkers]
    exact h
  · rw [cleaned_unmarked hmarked]
    exact hmarked

theorem sanitizeCompletion_fst (result : ChatCompletionResult) :
    (sanitizeCompletion result).1 = ⟨cleaned result.content, cleaned result.reasoningContent⟩ := by
  unfold sanitizeCompletion
  dsimp only
  split_ifs with hchange
  · rfl
  · rw [ChannelHygieneReport.anyChange, Bool.or_eq_true, decide_eq_true_eq, decide_eq_true_eq,
      not_or, not_not, not_not] at hchange
    rw [hchange.1, hchange.2]

theorem sanitizeCompletion_snd (result : ChatCompletionResult) :
    (sanitizeCompletion result).2 =
      { originalContentMarkers := channelMarkerCount (some result.content)
        originalReasoningMarkers := channelMarkerCount (some result.reasoningContent)
        contentChanged := cleaned result.content ≠ result.content
        reasoningChanged := cleaned result.reasoningContent ≠ result.reasoningContent
        contentFlood := isChannelFlood (some result.content)
        reasoningFlood := isChannelFlood (some result.reasoningContent) } := by
  unfold sanitizeCompletion
  dsimp only
  split_ifs <;> rfl

/-- What the hygiene of a completion promises. -/
structure Sanitized (result : ChatCompletionResult) : Prop where
  stripped : ∀ t ∈ [result.content, result.reasoningContent],
    channelMarkerCount (some (stripChannelMarkers (some t))) = 0 ∧
      stripChannelMarkers (some (stripChannelMarkers (some t))) = stripChannelMarkers (some t)
  again : (sanitizeCompletion (sanitizeCompletion result).1).1 = (sanitizeCompletion result).1
  quiet : (sanitizeCompletion (sanitizeCompletion result).1).2.anyMarkers = false ∧
    (sanitizeCompletion (sanitizeCompletion result).1).2.anyChange = false
  content_kept : channelMarkerCount (some result.content) = 0 →
    (sanitizeCompletion result).1.content = result.content
  reasoning_kept : channelMarkerCount (some result.reasoningContent) = 0 →
    (sanitizeCompletion result).1.reasoningContent = result.reasoningContent

/-- A completion is sanitized exactly when none of its markers has another within what it begins
with. -/
theorem sanitized_iff_uninterrupted (result : ChatCompletionResult) :
    Sanitized result ↔
      ¬Interrupted result.content ∧ ¬Interrupted result.reasoningContent := by
  constructor
  · intro h
    have hcontent := h.stripped result.content List.mem_cons_self
    have hreasoning := h.stripped result.reasoningContent
      (List.mem_cons_of_mem _ List.mem_cons_self)
    rw [← marked_stripChannelMarkers, ← marked_stripChannelMarkers]
    exact ⟨(channelMarkerCount_eq_zero _).mp hcontent.1,
      (channelMarkerCount_eq_zero _).mp hreasoning.1⟩
  · rintro ⟨hcontent, hreasoning⟩
    have hstripped {t : PyText} (h : ¬Interrupted t) :
        channelMarkerCount (some (stripChannelMarkers (some t))) = 0 := by
      rw [channelMarkerCount_eq_zero, marked_stripChannelMarkers]
      exact h
    have hc := not_marked_cleaned hcontent
    have hr := not_marked_cleaned hreasoning
    constructor
    case stripped =>
      intro t ht
      obtain rfl | rfl := List.mem_pair.mp ht
      · exact ⟨hstripped hcontent, stripChannelMarkers_idem hcontent⟩
      · exact ⟨hstripped hreasoning, stripChannelMarkers_idem hreasoning⟩
    case again =>
      rw [sanitizeCompletion_fst, sanitizeCompletion_fst, cleaned_unmarked hc, cleaned_unmarked hr]
    case quiet =>
      rw [sanitizeCompletion_snd, sanitizeCompletion_fst]
      constructor
      · rw [ChannelHygieneReport.anyMarkers, (channelMarkerCount_eq_zero _).mpr hc,
          (channelMarkerCount_eq_zero _).mpr hr]
        rfl
      · rw [ChannelHygieneReport.anyChange, cleaned_unmarked hc, cleaned_unmarked hr]
        simp
    case content_kept =>
      intro hzero
      rw [sanitizeCompletion_fst]
      exact if_pos hzero
    case reasoning_kept =>
      intro hzero
      rw [sanitizeCompletion_fst]
      exact if_pos hzero

end Hygiene

section Sample

/-- No word character beyond ASCII. -/
@[reducible] def asciiWords : WordChars := ⟨fun _ => false, fun _ h => nomatch h⟩

/-- A marker within the opening of another: `<|chan<channel>nel>`. -/
def nestedMarkers : ChatCompletionResult := ⟨PyText.ofString "<|chan<channel>nel>", []⟩

/-- The text is `<|channel>` when the marker in it is gone. -/
theorem nested_marker_survives : ¬∀ (w : WordChars) (result : ChatCompletionResult),
    @Sanitized w result := by
  intro hall
  let _ : WordChars := asciiWords
  have hstripped := (hall asciiWords nestedMarkers).stripped _ List.mem_cons_self
  exact absurd hstripped.1 (by decide +kernel)

end Sample

end Elyra.Llm
