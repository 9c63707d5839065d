import Elyra.Framework.Text
import Mathlib.Data.List.DropRight
import Mathlib.Data.List.TakeWhile

namespace Elyra

section Words

variable {α : Type} (p : α → Bool)

/-- The runs of a list between the elements with `p`. -/
def words (l : List α) : List (List α) := (l.splitOnP p).filter (· ≠ [])

variable {p}

@[simp] theorem words_nil : words p [] = [] := rfl

theorem words_append_cons (a b : List α) {s : α} (hs : p s) :
    words p (a ++ s :: b) = words p a ++ words p b := by
  rw [words, List.splitOnP_append_cons a b hs, List.filter_append]
  rfl

theorem words_cons (b : List α) {s : α} (hs : p s) : words p (s :: b) = words p b :=
  words_append_cons [] b hs

theorem words_single {w : List α} (hne : w ≠ []) (hw : ∀ x ∈ w, p x = false) :
    words p w = [w] := by
  rw [words, List.splitOnP_eq_singleton hw]
  exact List.filter_eq_self.mpr fun x hx => by simpa using List.mem_singleton.mp hx ▸ hne

theorem words_blank_append {s : List α} (hs : ∀ x ∈ s, p x) (b : List α) :
    words p (s ++ b) = words p b := by
  induction s with
  | nil => rfl
  | cons c s ih =>
    rw [List.cons_append, words_cons _ (hs c List.mem_cons_self)]
    exact ih fun x hx => hs x (List.mem_cons_of_mem _ hx)

theorem words_append_blank (a : List α) {s : List α} (hs : ∀ x ∈ s, p x) :
    words p (a ++ s) = words p a := by
  cases s with
  | nil => rw [List.append_nil]
  | cons c s =>
    have hrest : words p s = [] := by
      have hblank := words_blank_append (fun x hx => hs x (List.mem_cons_of_mem _ hx)) []
      rwa [List.append_nil] at hblank
    rw [words_append_cons a s (hs c List.mem_cons_self), hrest, List.append_nil]

/-- The list ends where a word ends. -/
def Ended (p : α → Bool) (b : List α) : Prop := ∀ c r, b = c :: r → p c

theorem words_append_of_ended (a : List α) {b : List α} (hb : Ended p b) :
    words p (a ++ b) = words p a ++ words p b := by
  cases b with
  | nil => rw [List.append_nil, words_nil, List.append_nil]
  | cons c r => rw [words_append_cons a r (hb c r rfl), words_cons r (hb c r rfl)]

theorem ended_dropWhile (l : List α) : Ended p (l.dropWhile fun x => !p x) := by
  intro c r h
  have hhead : (!p c) = false := by
    have hnot := List.head?_dropWhile_not (fun x => !p x) l
    rw [h] at hnot
    exact hnot
  simpa using hhead

theorem unspaced_takeWhile (l : List α) : ∀ x ∈ l.takeWhile fun x => !p x, p x = false := by
  intro x hx
  simpa using List.mem_takeWhile_imp hx

/-- The first word. -/
theorem words_cons_word {c : α} (hc : p c = false) (r : List α) :
    words p (c :: r) =
      (c :: r.takeWhile fun x => !p x) :: words p (r.dropWhile fun x => !p x) := by
  have hsplit : c :: r = (c :: r.takeWhile fun x => !p x) ++ r.dropWhile fun x => !p x := by
    rw [List.cons_append, List.takeWhile_append_dropWhile]
  have hword : ∀ x ∈ c :: r.takeWhile fun x => !p x, p x = false :=
    List.forall_mem_cons.mpr ⟨hc, unspaced_takeWhile r⟩
  rw [hsplit, words_append_of_ended _ (ended_dropWhile r),
    words_single (List.cons_ne_nil _ _) hword]
  rfl

/-- The list begins where a word begins. -/
def Begun (p : α → Bool) (a : List α) : Prop := a = [] ∨ ∃ m s, a = m ++ [s] ∧ p s

theorem begun_concat (m : List α) {s : α} (hs : p s) : Begun p (m ++ [s]) := .inr ⟨m, s, rfl, hs⟩

theorem words_append_of_begun {a : List α} (ha : Begun p a) (b : List α) :
    words p (a ++ b) = words p a ++ words p b := by
  obtain rfl | ⟨m, s, rfl, hs⟩ := ha
  · rfl
  · rw [List.append_assoc, List.singleton_append, words_append_cons m b hs,
      words_append_cons m [] hs, words_nil, List.append_nil]

/-- The word a list begins with. -/
theorem first_word (l : List α) :
    ∃ r b, l = r ++ b ∧ Ended p b ∧ ∀ x ∈ r, p x = false :=
  ⟨_, _, List.takeWhile_append_dropWhile.symm, ended_dropWhile l, unspaced_takeWhile l⟩

/-- The word a list ends with. -/
theorem last_word (l : List α) :
    ∃ a w, l = a ++ w ∧ Begun p a ∧ ∀ x ∈ w, p x = false := by
  refine ⟨_, l.rtakeWhile fun x => !p x, (List.rdropWhile_append_rtakeWhile).symm, ?_, ?_⟩
  swap
  · intro x hx
    simpa using List.mem_rtakeWhile_imp hx
  obtain hnil | ⟨m, s, hs⟩ := List.eq_nil_or_concat (l.rdropWhile fun x => !p x)
  · exact .inl hnil
  · rw [List.concat_eq_append] at hs
    refine .inr ⟨m, s, hs, ?_⟩
    have hne : l.rdropWhile (fun x => !p x) ≠ [] := by
      rw [hs]
      exact List.append_ne_nil_of_right_ne_nil m (List.cons_ne_nil s [])
    have hlast := List.rdropWhile_last_not (fun x => !p x) l hne
    simpa [hs] using hlast

theorem words_around {a w b : List α} (ha : Begun p a) (hne : w ≠ [])
    (hw : ∀ x ∈ w, p x = false) (hb : Ended p b) :
    words p (a ++ w ++ b) = words p a ++ w :: words p b := by
  rw [words_append_of_ended _ hb, words_append_of_begun ha, words_single hne hw, List.append_assoc]
  rfl

/-- Where a word of a list stands in it. -/
theorem exists_of_words (l : List α) (us vs : List (List α)) (w : List α)
    (h : words p l = us ++ w :: vs) :
    ∃ a b, l = a ++ w ++ b ∧ Ended p b ∧ words p b = vs := by
  induction hn : l.length using Nat.strongRecOn generalizing l us with
  | _ n ih =>
    cases l with
    | nil => cases us <;> cases h
    | cons c r =>
      cases hc : p c with
      | true =>
        rw [words_cons r hc] at h
        obtain ⟨a, b, hr, hb, hvs⟩ := ih r.length (by simp [← hn]) r us h rfl
        exact ⟨c :: a, b, by rw [hr]; rfl, hb, hvs⟩
      | false =>
        rw [words_cons_word hc] at h
        have hsplit : c :: r = (c :: r.takeWhile fun x => !p x) ++ r.dropWhile fun x => !p x := by
          rw [List.cons_append, List.takeWhile_append_dropWhile]
        cases us with
        | nil =>
          obtain ⟨rfl, rfl⟩ := List.cons.inj h
          exact ⟨[], _, hsplit, ended_dropWhile r, rfl⟩
        | cons u us =>
          have hrest := (List.cons.inj h).2
          have hshort : (r.dropWhile fun x => !p x).length < n := by
            have hle : (r.dropWhile fun x => !p x).length ≤ r.length :=
              (List.dropWhile_sublist _).length_le
            rw [← hn, List.length_cons]
            omega
          obtain ⟨a, b, hr, hb, hvs⟩ := ih _ hshort _ us hrest rfl
          refine ⟨(c :: r.takeWhile fun x => !p x) ++ a, b, ?_, hb, hvs⟩
          rw [hsplit, hr, List.append_assoc, List.append_assoc, List.append_assoc]

theorem mem_flatten_words (l : List α) {x : α} (hx : p x = false) :
    x ∈ (words p l).flatten ↔ x ∈ l := by
  induction hn : l.length using Nat.strongRecOn generalizing l with
  | _ n ih =>
    cases l with
    | nil => simp
    | cons c r =>
      cases hc : p c with
      | true =>
        have hne : x ≠ c := by
          rintro rfl
          rw [hx] at hc
          cases hc
        rw [words_cons r hc, ih r.length (by simp [← hn]) r rfl, List.mem_cons]
        exact ⟨.inr, fun h => h.resolve_left hne⟩
      | false =>
        have hshort : (r.dropWhile fun x => !p x).length < n := by
          have hle : (r.dropWhile fun x => !p x).length ≤ r.length :=
            (List.dropWhile_sublist _).length_le
          rw [← hn, List.length_cons]
          omega
        rw [words_cons_word hc, List.flatten_cons, List.mem_append, ih _ hshort _ rfl,
          List.mem_cons, List.mem_cons, or_assoc, ← List.mem_append, List.takeWhile_append_dropWhile]

end Words

section Stripping

variable {α : Type} {p : α → Bool}

/-- A list without its first and last elements with `p`. -/
def stripBy (p : α → Bool) (l : List α) : List α := (l.dropWhile p).rdropWhile p

theorem rdropWhile_append_blank (l : List α) {s : List α} (hs : ∀ x ∈ s, p x) :
    (l ++ s).rdropWhile p = l.rdropWhile p := by
  have hblank : ∀ x ∈ s.reverse, p x := fun x hx => hs x (List.mem_reverse.mp hx)
  rw [List.rdropWhile, List.reverse_append, List.dropWhile_append_of_pos hblank]
  rfl

theorem words_rdropWhile (l : List α) : words p (l.rdropWhile p) = words p l := by
  have hl : l = l.rdropWhile p ++ (l.reverse.takeWhile p).reverse := by
    rw [List.rdropWhile, ← List.reverse_append, List.takeWhile_append_dropWhile,
      List.reverse_reverse]
  conv_rhs => rw [hl]
  exact (words_append_blank _ fun x hx => List.mem_takeWhile_imp (List.mem_reverse.mp hx)).symm

theorem words_stripBy (l : List α) : words p (stripBy p l) = words p l := by
  have hfront : l = l.takeWhile p ++ l.dropWhile p := List.takeWhile_append_dropWhile.symm
  rw [stripBy, words_rdropWhile]
  conv_rhs => rw [hfront]
  exact (words_blank_append (fun x hx => List.mem_takeWhile_imp hx) _).symm

theorem all_of_stripBy_eq_nil {l : List α} (h : stripBy p l = []) : ∀ x ∈ l, p x := by
  have hall : ∀ x ∈ l.dropWhile p, p x := List.rdropWhile_eq_nil_iff.mp h
  cases hdrop : l.dropWhile p with
  | nil => exact List.dropWhile_eq_nil_iff.mp hdrop
  | cons c r =>
    have hfirst := List.head?_dropWhile_not p l
    rw [hdrop] at hall hfirst
    exact absurd (hall c List.mem_cons_self) (ne_true_of_eq_false hfirst)

theorem mem_of_mem_stripBy {l : List α} {x : α} (h : x ∈ stripBy p l) : x ∈ l :=
  (List.dropWhile_sublist p).subset ((List.rdropWhile_prefix p _).subset h)

/-- A list between blanks that begins and ends with no blank is what stripping leaves. -/
theorem stripBy_between {a b m : List α} (ha : ∀ x ∈ a, p x) (hb : ∀ x ∈ b, p x)
    (hfirst : ∀ c r, m = c :: r → p c = false) (hlast : m.rdropWhile p = m) :
    stripBy p (a ++ m ++ b) = m := by
  rw [stripBy, List.append_assoc, List.dropWhile_append_of_pos ha]
  cases m with
  | nil =>
    rw [List.nil_append, List.dropWhile_eq_nil_iff.mpr hb]
    rfl
  | cons c r =>
    rw [List.cons_append, List.dropWhile_cons_of_neg (by simp [hfirst c r rfl]), ← List.cons_append,
      rdropWhile_append_blank _ hb, hlast]

/-- What stripping leaves begins and ends with an element without `p`. -/
theorem stripBy_trimmed (l : List α) :
    (∀ c r, stripBy p l = c :: r → p c = false) ∧ (stripBy p l).rdropWhile p = stripBy p l := by
  refine ⟨?_, List.rdropWhile_idempotent _ _⟩
  intro c r h
  obtain ⟨s, hs⟩ := List.rdropWhile_prefix p (l.dropWhile p)
  have hdrop : l.dropWhile p = c :: (r ++ s) := by
    rw [← hs]
    show stripBy p l ++ s = _
    rw [h]
    rfl
  have hfirst := List.head?_dropWhile_not p l
  rw [hdrop] at hfirst
  exact hfirst

theorem stripBy_eq_self_iff (l : List α) :
    stripBy p l = l ↔ (∀ c, l.head? = some c → p c = false) ∧
      ∀ c, l.getLast? = some c → p c = false := by
  constructor
  · intro h
    obtain ⟨hfirst, hlast⟩ := stripBy_trimmed (p := p) l
    rw [h] at hfirst hlast
    refine ⟨?_, ?_⟩
    · intro c hc
      obtain ⟨r, hr⟩ := List.head?_eq_some_iff.mp hc
      exact hfirst c r hr
    · intro c hc
      obtain ⟨m, hm⟩ := List.getLast?_eq_some_iff.mp hc
      have hne : l ≠ [] := by
        rw [hm]
        exact List.append_ne_nil_of_right_ne_nil m (List.cons_ne_nil c [])
      have hnot := List.rdropWhile_eq_self_iff.mp hlast hne
      simpa [hm] using hnot
  · rintro ⟨hfirst, hlast⟩
    have hblank : ∀ x ∈ ([] : List α), p x := fun x hx => absurd hx List.not_mem_nil
    have hself : l.rdropWhile p = l := by
      rw [List.rdropWhile_eq_self_iff]
      intro hne
      rw [hlast _ (List.getLast?_eq_some_getLast hne)]
      exact Bool.false_ne_true
    have hhead : ∀ c r, l = c :: r → p c = false := fun c r h => hfirst c (by rw [h]; rfl)
    have hbetween := stripBy_between hblank hblank hhead hself
    rwa [List.nil_append, List.append_nil] at hbetween

theorem stripBy_idem (l : List α) : stripBy p (stripBy p l) = stripBy p l := by
  obtain ⟨hfirst, hlast⟩ := stripBy_trimmed (p := p) l
  have hblank : ∀ x ∈ ([] : List α), p x := fun x hx => absurd hx List.not_mem_nil
  have hbetween := stripBy_between hblank hblank hfirst hlast
  rwa [List.nil_append, List.append_nil] at hbetween

theorem rdropWhile_append_self (a : List α) {b : List α} (hne : b ≠ [])
    (hb : b.rdropWhile p = b) : (a ++ b).rdropWhile p = a ++ b := by
  rw [List.rdropWhile_eq_self_iff] at hb ⊢
  intro hl
  rw [List.getLast_append_of_ne_nil hl hne]
  exact hb hne

end Stripping

section Lines

variable {α : Type} {p brk : α → Bool} {pair : α → α → Bool}

def consHeadOf (c : α) : List (List α) → List (List α)
  | [] => [[c]]
  | l :: ls => (c :: l) :: ls

/-- The lines of a list: they end with an element with `brk`, or with two that are a `pair`. -/
def linesBy (brk : α → Bool) (pair : α → α → Bool) : List α → List (List α)
  | [] => []
  | [c] => if brk c then [[]] else [[c]]
  | c :: d :: r =>
    if brk c then
      if pair c d then [] :: linesBy brk pair r else [] :: linesBy brk pair (d :: r)
    else consHeadOf c (linesBy brk pair (d :: r))

theorem linesBy_cons {c : α} (hc : brk c = false) (r : List α) :
    linesBy brk pair (c :: r) = consHeadOf c (linesBy brk pair r) := by
  cases r with
  | nil => simp [linesBy, hc, consHeadOf]
  | cons d r => simp [linesBy, hc]

theorem linesBy_break {c : α} (hc : brk c) (hpair : ∀ d, pair c d = false) (r : List α) :
    linesBy brk pair (c :: r) = [] :: linesBy brk pair r := by
  cases r with
  | nil => simp [linesBy, hc]
  | cons d r => simp [linesBy, hc, hpair d]

theorem linesBy_line {l : List α} (hne : l ≠ []) (hl : ∀ x ∈ l, brk x = false) :
    linesBy brk pair l = [l] := by
  induction l with
  | nil => exact absurd rfl hne
  | cons c l ih =>
    rw [linesBy_cons (hl c List.mem_cons_self)]
    cases l with
    | nil => rfl
    | cons d l =>
      rw [ih (List.cons_ne_nil d l) fun x hx => hl x (List.mem_cons_of_mem _ hx)]
      rfl

theorem linesBy_append {l : List α} (hl : ∀ x ∈ l, brk x = false) {c : α} (hc : brk c)
    (hpair : ∀ d, pair c d = false) (r : List α) :
    linesBy brk pair (l ++ c :: r) = l :: linesBy brk pair r := by
  induction l with
  | nil => exact linesBy_break hc hpair r
  | cons d l ih =>
    rw [List.cons_append, linesBy_cons (hl d List.mem_cons_self),
      ih fun x hx => hl x (List.mem_cons_of_mem _ hx)]
    rfl

/-- No line has a break in it. -/
theorem unbroken_of_mem_linesBy (t : List α) :
    ∀ l ∈ linesBy brk pair t, ∀ x ∈ l, brk x = false := by
  have hcons (c : α) (hc : brk c = false) (ls : List (List α))
      (hls : ∀ l ∈ ls, ∀ x ∈ l, brk x = false) : ∀ l ∈ consHeadOf c ls, ∀ x ∈ l, brk x = false := by
    cases ls with
    | nil => simpa [consHeadOf] using hc
    | cons l ls =>
      have hl := List.forall_mem_cons.mp hls
      exact List.forall_mem_cons.mpr ⟨List.forall_mem_cons.mpr ⟨hc, hl.1⟩, hl.2⟩
  have hnil : ∀ x ∈ ([] : List α), brk x = false := fun x hx => absurd hx List.not_mem_nil
  induction t using linesBy.induct brk pair with
  | case1 => exact fun l hl => absurd hl List.not_mem_nil
  | case2 c hc => simp [linesBy, hc]
  | case3 c hc => simp [linesBy, hc]
  | case4 c d r hc hcd ih =>
    simp only [linesBy, if_pos hc, if_pos hcd]
    exact List.forall_mem_cons.mpr ⟨hnil, ih⟩
  | case5 c d r hc hcd ih =>
    simp only [linesBy, if_pos hc, if_neg hcd]
    exact List.forall_mem_cons.mpr ⟨hnil, ih⟩
  | case6 c d r hc ih =>
    simp only [linesBy, if_neg hc]
    exact hcons c (eq_false_of_ne_true hc) _ ih

/-- What the first line leaves, with what the others hold of its words. -/
def Leaves (brk p : α → Bool) (pair : α → α → Bool) (t : List α) : Prop :=
  ∀ l ls, linesBy brk pair t = l :: ls →
    ∃ rest, t = l ++ rest ∧ Ended p rest ∧ ls.flatMap (words p) = words p rest

theorem linesBy_ne_nil (c : α) (r : List α) : linesBy brk pair (c :: r) ≠ [] := by
  have hcons (ls : List (List α)) : consHeadOf c ls ≠ [] := by
    cases ls <;> exact List.cons_ne_nil _ _
  cases r with
  | nil => cases hc : brk c <;> simp [linesBy, hc]
  | cons d r =>
    cases hc : brk c with
    | false =>
      rw [linesBy_cons hc]
      exact hcons _
    | true =>
      rw [linesBy, if_pos hc]
      split_ifs <;> exact List.cons_ne_nil _ _

theorem Leaves.flatMap {t : List α} (h : Leaves brk p pair t) :
    (linesBy brk pair t).flatMap (words p) = words p t := by
  cases hlines : linesBy brk pair t with
  | nil =>
    cases t with
    | nil => rfl
    | cons c r => exact absurd hlines (linesBy_ne_nil c r)
  | cons l ls =>
    obtain ⟨rest, rfl, hrest, hls⟩ := h l ls hlines
    rw [List.flatMap_cons, hls, words_append_of_ended l hrest]

theorem leaves_linesBy (hspace : ∀ c, brk c → p c) (hpair : ∀ c d, pair c d → p d) (t : List α) :
    Leaves brk p pair t := by
  have hended {c : α} (hc : p c) (r : List α) : Ended p (c :: r) := by
    intro d s h
    rwa [← (List.cons.inj h).1]
  induction t using linesBy.induct brk pair with
  | case1 => exact fun l ls h => nomatch h
  | case2 c hc =>
    intro l ls h
    rw [linesBy, if_pos hc] at h
    obtain ⟨rfl, rfl⟩ := List.cons.inj h
    exact ⟨[c], rfl, hended (hspace c hc) [], (words_cons [] (hspace c hc)).symm⟩
  | case3 c hc =>
    intro l ls h
    rw [linesBy, if_neg hc] at h
    obtain ⟨rfl, rfl⟩ := List.cons.inj h
    exact ⟨[], rfl, (fun _ _ h => nomatch h), rfl⟩
  | case4 c d r hc hcd ih =>
    intro l ls h
    rw [linesBy, if_pos hc, if_pos hcd] at h
    obtain ⟨rfl, rfl⟩ := List.cons.inj h
    refine ⟨c :: d :: r, rfl, hended (hspace c hc) _, ?_⟩
    rw [ih.flatMap, words_cons _ (hspace c hc), words_cons _ (hpair c d hcd)]
  | case5 c d r hc hcd ih =>
    intro l ls h
    rw [linesBy, if_pos hc, if_neg hcd] at h
    obtain ⟨rfl, rfl⟩ := List.cons.inj h
    refine ⟨c :: d :: r, rfl, hended (hspace c hc) _, ?_⟩
    rw [ih.flatMap, words_cons _ (hspace c hc)]
  | case6 c d r hc ih =>
    intro l ls h
    rw [linesBy, if_neg hc] at h
    cases hlines : linesBy brk pair (d :: r) with
    | nil => exact absurd hlines (linesBy_ne_nil d r)
    | cons m ms =>
      rw [hlines] at h
      obtain ⟨rfl, rfl⟩ := List.cons.inj h
      obtain ⟨rest, ht, hrest, hms⟩ := ih m ms hlines
      exact ⟨rest, by rw [ht]; rfl, hrest, hms⟩

/-- Taking the breaks out leaves the words: a break is no part of one. -/
theorem flatMap_words_linesBy (hspace : ∀ c, brk c → p c) (hpair : ∀ c d, pair c d → p d)
    (t : List α) : (linesBy brk pair t).flatMap (words p) = words p t :=
  (leaves_linesBy hspace hpair t).flatMap

theorem isSpace_of_alphanum {c : Char} (h : c.isAlphanum = true) : isSpace c = false := by
  unfold Char.isAlphanum Char.isAlpha Char.isUpper Char.isLower Char.isDigit at h
  simp only [Bool.or_eq_true, Bool.and_eq_true, decide_eq_true_eq, ge_iff_le,
    UInt32.le_iff_toNat_le] at h
  change ((65 ≤ c.toNat ∧ c.toNat ≤ 90) ∨ (97 ≤ c.toNat ∧ c.toNat ≤ 122)) ∨
    (48 ≤ c.toNat ∧ c.toNat ≤ 57) at h
  unfold isSpace
  simp only [Bool.or_eq_false_iff, Bool.and_eq_false_iff, decide_eq_false_iff_not]
  omega

theorem toLower_of_isSpace {c : Char} (h : isSpace c = true) : c.toLower = c := by
  unfold Char.toLower
  split
  next hupper =>
    have hlow : 65 ≤ c.toNat := UInt32.le_iff_toNat_le.mp hupper.1
    have hhigh : c.toNat ≤ 90 := UInt32.le_iff_toNat_le.mp hupper.2
    simp only [isSpace, Bool.or_eq_true, Bool.and_eq_true, decide_eq_true_eq] at h
    omega
  next => rfl

/-- The characters of a text are tried, not all characters. -/
instance (priority := 10000) decidableMemText (text : List Char) (p : Char → Prop)
    [DecidablePred p] : Decidable (∀ c ∈ text, p c) :=
  List.decidableBAll p text

/-- The characters `str.splitlines` breaks at. -/
def isLineBreak (c : Char) : Bool :=
  let n := c.toNat
  (10 ≤ n && n ≤ 13) || (28 ≤ n && n ≤ 30) || n = 0x85 || n = 0x2028 || n = 0x2029

theorem isSpace_of_isLineBreak {c : Char} (h : isLineBreak c = true) : isSpace c = true := by
  simp only [isLineBreak, isSpace, Bool.or_eq_true, Bool.and_eq_true, decide_eq_true_eq] at h ⊢
  omega

end Lines

end Elyra
