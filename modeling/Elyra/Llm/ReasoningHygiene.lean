import Elyra.Framework.Lines
import Elyra.Llm.FreshAccess

namespace Elyra.Llm

/-- The characters beyond ASCII that `\w` matches: no white space is among them. -/
class WordChars where
  foreign : Char → Bool
  not_space : ∀ c, foreign c = true → isSpace c = false

def lineBreakChar : PyChar → Bool
  | .scalar c => isLineBreak c
  | .surrogate _ => false

def crlf (c d : PyChar) : Bool := c = .scalar '\r' && d = .scalar '\n'

def newline : PyChar := .scalar '\n'

section Markers

variable [WordChars]

def wordChar : PyChar → Bool
  | .scalar c => if c.toNat < 128 then c.isAlphanum || c = '_' else WordChars.foreign c
  | .surrogate _ => false

/-- A character without the case that `re.IGNORECASE` does not see. -/
def folded : PyChar → PyChar
  | .scalar c => .scalar c.toLower
  | .surrogate n => .surrogate n

/-- The text after `word`, matched at its start in any case. -/
def afterWord : List Char → PyText → Option PyText
  | [], t => some t
  | _ :: _, [] => none
  | k :: ks, c :: t => if folded c = .scalar k then afterWord ks t else none

/-- `[^>]*>`. -/
def afterClose : PyText → Option PyText
  | [] => none
  | c :: t => if c = .scalar '>' then some t else afterClose t

/-- `\b` after a letter. -/
def wordEnds : PyText → Bool
  | [] => true
  | c :: _ => !wordChar c

/-- `<|channel|>` and `<|channel>`. -/
def openTags : List (List Char) :=
  [['<', '|', 'c', 'h', 'a', 'n', 'n', 'e', 'l', '|', '>'],
    ['<', '|', 'c', 'h', 'a', 'n', 'n', 'e', 'l', '>']]

/-- `</?channel`. -/
def tagHeads : List (List Char) :=
  [['<', '/', 'c', 'h', 'a', 'n', 'n', 'e', 'l'], ['<', 'c', 'h', 'a', 'n', 'n', 'e', 'l']]

/-- What `_CHANNEL_MARKER_RE` leaves after a match at the start. -/
def afterMarker (t : PyText) : Option PyText :=
  match openTags.findSome? (afterWord · t) with
  | some rest => some (rest.dropWhile wordChar)
  | none =>
    match tagHeads.findSome? (afterWord · t) with
    | some rest => if wordEnds rest then afterClose rest else none
    | none => none

/-- Where the markers begin, what else is in them and what is between them. -/
inductive Tag where
  | plain | opens | inside
  deriving DecidableEq

/-- The matches of `_CHANNEL_MARKER_RE`, from a place with `skip` more characters of the last. -/
def tagFrom : Nat → PyText → List (PyChar × Tag)
  | _, [] => []
  | skip + 1, c :: t => (c, .inside) :: tagFrom skip t
  | 0, c :: t =>
    match afterMarker (c :: t) with
    | some rest => (c, .opens) :: tagFrom (t.length - rest.length) t
    | none => (c, .plain) :: tagFrom 0 t

def plainChar : PyChar × Tag → Option PyChar
  | (c, .plain) => some c
  | (_, .opens) | (_, .inside) => none

/-- `_CHANNEL_MARKER_RE.sub("", text)`. -/
def withoutMarkers (t : PyText) : PyText := (tagFrom 0 t).filterMap plainChar

def channelMarkerCount : Option PyText → Nat
  | none => 0
  | some t => (tagFrom 0 t).countP (·.2 = .opens)

def channelFloodMinMarkers : Nat := 5

def isChannelFlood (t : Option PyText) : Bool := channelFloodMinMarkers ≤ channelMarkerCount t

end Markers

/-- `_MULTI_BLANK_RE.sub("\n\n", text)`, after `run` newlines. -/
def collapseFrom : Nat → PyText → PyText
  | _, [] => []
  | run, c :: t =>
    if c = newline then
      if run < 2 then c :: collapseFrom (run + 1) t else collapseFrom (run + 1) t
    else c :: collapseFrom 0 t

/-- The loop over the lines: `started` when a line was kept, after `run` blank ones. -/
def compactFrom : Bool → Nat → List PyText → List PyText
  | _, _, [] => []
  | started, run, line :: lines =>
    if line.strip = [] then
      if run + 1 ≤ 1 ∧ started then [] :: compactFrom started (run + 1) lines
      else compactFrom started (run + 1) lines
    else line :: compactFrom true 0 lines

def splitlines (t : PyText) : List PyText := linesBy lineBreakChar crlf t

def rstrip (t : PyText) : PyText := t.rdropWhile PyText.blankChar

/-- `"\n".join(lines)`. -/
def join (lines : List PyText) : PyText := [newline].intercalate lines

/-- What `strip_channel_markers` does with the blanks that markers leave. -/
def foldBlanks (t : PyText) : PyText :=
  PyText.strip (join (compactFrom false 0 ((splitlines (collapseFrom 0 t)).map rstrip)))

section Sanitize

variable [WordChars]

def stripChannelMarkers : Option PyText → PyText
  | none => []
  | some t => if t = [] then [] else foldBlanks (withoutMarkers t)

structure ChatCompletionResult where
  content : PyText
  reasoningContent : PyText
  deriving DecidableEq

structure ChannelHygieneReport where
  originalContentMarkers : Nat
  originalReasoningMarkers : Nat
  contentChanged : Bool
  reasoningChanged : Bool
  contentFlood : Bool
  reasoningFlood : Bool
  deriving DecidableEq

def ChannelHygieneReport.anyMarkers (r : ChannelHygieneReport) : Bool :=
  0 < r.originalContentMarkers || 0 < r.originalReasoningMarkers

def ChannelHygieneReport.anyChange (r : ChannelHygieneReport) : Bool :=
  r.contentChanged || r.reasoningChanged

/-- A field as `sanitize_completion` leaves it. -/
def cleaned (raw : PyText) : PyText :=
  if channelMarkerCount (some raw) = 0 then raw else stripChannelMarkers (some raw)

def sanitizeCompletion (result : ChatCompletionResult) :
    ChatCompletionResult × ChannelHygieneReport :=
  let content := cleaned result.content
  let reasoning := cleaned result.reasoningContent
  let report : ChannelHygieneReport :=
    { originalContentMarkers := channelMarkerCount (some result.content)
      originalReasoningMarkers := channelMarkerCount (some result.reasoningContent)
      contentChanged := content ≠ result.content
      reasoningChanged := reasoning ≠ result.reasoningContent
      contentFlood := isChannelFlood (some result.content)
      reasoningFlood := isChannelFlood (some result.reasoningContent) }
  if report.anyChange then
    ({ result with content := content, reasoningContent := reasoning }, report)
  else (result, report)

end Sanitize

section Spelling

def Spells (word : List Char) (h : PyText) : Prop := h.map folded = word.map .scalar

theorem afterWord_eq_some (word : List Char) (t rest : PyText) :
    afterWord word t = some rest ↔ ∃ h, t = h ++ rest ∧ Spells word h := by
  induction word generalizing t with
  | nil =>
    constructor
    · intro h
      exact ⟨[], Option.some.inj h, rfl⟩
    · rintro ⟨h, rfl, hspells⟩
      rw [List.map_eq_nil_iff.mp hspells]
      rfl
  | cons k ks ih =>
    cases t with
    | nil =>
      constructor
      · intro h
        cases h
      · rintro ⟨h, hnil, hspells⟩
        rw [(List.append_eq_nil_iff.mp hnil.symm).1] at hspells
        cases hspells
    | cons c t =>
      rw [afterWord]
      constructor
      · intro hafter
        split_ifs at hafter with hc
        obtain ⟨h, rfl, hspells⟩ := (ih t).mp hafter
        refine ⟨c :: h, rfl, ?_⟩
        rw [Spells, List.map_cons, List.map_cons, hc, hspells]
      · rintro ⟨h, ht, hspells⟩
        cases h with
        | nil => cases hspells
        | cons d h =>
          obtain ⟨rfl, rfl⟩ := List.cons.inj ht
          obtain ⟨hc, hrest⟩ := List.cons.inj hspells
          rw [if_pos hc]
          exact (ih (h ++ rest)).mpr ⟨h, rfl, hrest⟩

theorem afterClose_isSome (t : PyText) : (afterClose t).isSome ↔ .scalar '>' ∈ t := by
  induction t with
  | nil => exact iff_of_false Bool.false_ne_true List.not_mem_nil
  | cons c t ih =>
    rw [afterClose, List.mem_cons]
    split_ifs with hc
    · exact iff_of_true rfl (.inl hc.symm)
    · rw [ih]
      exact ⟨.inr, fun h => h.resolve_left fun hc' => hc hc'.symm⟩

/-- No text begins with two words that differ in their second character. -/
theorem afterWord_unique {k a b : Char} {ks ls : List Char} {t rest : PyText} (hab : a ≠ b)
    (h : afterWord (k :: a :: ks) t = some rest) : afterWord (k :: b :: ls) t = none := by
  match t with
  | [] => rfl
  | [c] =>
    rw [afterWord]
    split_ifs <;> rfl
  | c :: d :: t =>
    rw [afterWord, afterWord] at h
    split_ifs at h with hc hd
    have hne : ¬folded d = .scalar b := by
      rw [hd]
      exact fun heq => hab (PyChar.scalar.inj heq)
    rw [afterWord, afterWord, if_pos hc, if_neg hne]

theorem eq_of_toLower {c k : Char} (hk : k.toNat < 97) (h : c.toLower = k) : c = k := by
  unfold Char.toLower at h
  split at h
  next hupper =>
    have hval : (c.val + ('a'.val - 'A'.val)).toNat < 97 := by
      rw [← h] at hk
      exact hk
    rw [UInt32.toNat_add] at hval
    have hlow : 65 ≤ c.val.toNat := UInt32.le_iff_toNat_le.mp hupper.1
    have hhigh : c.val.toNat ≤ 90 := UInt32.le_iff_toNat_le.mp hupper.2
    have hshift : ('a'.val - 'A'.val).toNat = 32 := rfl
    omega
  next => exact h

theorem eq_of_folded {c : PyChar} {k : Char} (hk : k.toNat < 97) (h : folded c = .scalar k) :
    c = .scalar k := by
  cases c with
  | scalar d => rw [eq_of_toLower hk (PyChar.scalar.inj h)]
  | surrogate n => cases h

variable [WordChars]

/-- `h` is what a marker begins with where `r` follows. -/
def Opens (h r : PyText) : Prop :=
  (∃ word ∈ openTags, Spells word h) ∨
    (∃ word ∈ tagHeads, Spells word h) ∧ wordEnds r = true ∧ .scalar '>' ∈ r

theorem afterMarker_isSome (t : PyText) :
    (afterMarker t).isSome ↔ ∃ h r, t = h ++ r ∧ Opens h r := by
  unfold afterMarker
  cases htag : openTags.findSome? (afterWord · t) with
  | some rest =>
    obtain ⟨word, hword, hafter⟩ := List.exists_of_findSome?_eq_some htag
    obtain ⟨h, ht, hspells⟩ := (afterWord_eq_some word t rest).mp hafter
    exact iff_of_true rfl ⟨h, rest, ht, .inl ⟨word, hword, hspells⟩⟩
  | none =>
    have hnotag : ∀ h r, t = h ++ r → ¬∃ word ∈ openTags, Spells word h := by
      rintro h r ht ⟨word, hword, hspells⟩
      have hnone := List.findSome?_eq_none_iff.mp htag word hword
      rw [(afterWord_eq_some word t r).mpr ⟨h, ht, hspells⟩] at hnone
      cases hnone
    cases hhead : tagHeads.findSome? (afterWord · t) with
    | none =>
      refine iff_of_false Bool.false_ne_true ?_
      rintro ⟨h, r, ht, htags | ⟨⟨word, hword, hspells⟩, -⟩⟩
      · exact hnotag h r ht htags
      · have hnone := List.findSome?_eq_none_iff.mp hhead word hword
        rw [(afterWord_eq_some word t r).mpr ⟨h, ht, hspells⟩] at hnone
        cases hnone
    | some rest =>
      have hrest : ∀ word ∈ tagHeads, ∀ r, afterWord word t = some r → r = rest := by
        intro word hword r hr
        obtain rfl | rfl := List.mem_pair.mp hword
        · rw [tagHeads, List.findSome?_cons, hr] at hhead
          exact Option.some.inj hhead
        · rw [tagHeads, List.findSome?_cons, afterWord_unique (by decide) hr,
            List.findSome?_cons, hr] at hhead
          exact Option.some.inj hhead
      have hmarker : (if wordEnds rest then afterClose rest else none).isSome ↔
          wordEnds rest = true ∧ .scalar '>' ∈ rest := by
        cases wordEnds rest with
        | false => exact iff_of_false Bool.false_ne_true fun h => Bool.false_ne_true h.1
        | true => exact (afterClose_isSome rest).trans ⟨fun h => ⟨rfl, h⟩, fun h => h.2⟩
      refine hmarker.trans ⟨fun hends => ?_, ?_⟩
      · obtain ⟨word, hword, hafter⟩ := List.exists_of_findSome?_eq_some hhead
        obtain ⟨h, ht, hspells⟩ := (afterWord_eq_some word t rest).mp hafter
        exact ⟨h, rest, ht, .inr ⟨⟨word, hword, hspells⟩, hends⟩⟩
      · rintro ⟨h, r, ht, htags | ⟨⟨word, hword, hspells⟩, hends⟩⟩
        · exact absurd htags (hnotag h r ht)
        · rwa [← hrest word hword r ((afterWord_eq_some word t r).mpr ⟨h, ht, hspells⟩)]

theorem Opens.ne_nil {h r : PyText} (hopens : Opens h r) : h ≠ [] := by
  rintro rfl
  obtain ⟨word, hword, hspells⟩ | ⟨⟨word, hword, hspells⟩, -⟩ := hopens
  · obtain rfl | rfl := List.mem_pair.mp hword <;> cases hspells
  · obtain rfl | rfl := List.mem_pair.mp hword <;> cases hspells

/-- A marker begins with `<`. -/
theorem Opens.head {c : PyChar} {h r : PyText} (hopens : Opens (c :: h) r) :
    folded c = .scalar '<' := by
  obtain ⟨word, hword, hspells⟩ | ⟨⟨word, hword, hspells⟩, -⟩ := hopens
  · obtain rfl | rfl := List.mem_pair.mp hword <;> exact (List.cons.inj hspells).1
  · obtain rfl | rfl := List.mem_pair.mp hword <;> exact (List.cons.inj hspells).1

end Spelling

section Tags

variable [WordChars]

theorem map_fst_tagFrom (skip : Nat) (t : PyText) : (tagFrom skip t).map Prod.fst = t := by
  induction t generalizing skip with
  | nil => cases skip <;> rfl
  | cons c t ih =>
    cases skip with
    | succ skip => rw [tagFrom, List.map_cons, ih]
    | zero =>
      rw [tagFrom]
      cases afterMarker (c :: t) with
      | none => rw [List.map_cons, ih]
      | some rest => rw [List.map_cons, ih]

/-- No marker begins at a character outside the markers, and behind it the search goes on. -/
theorem tagFrom_plain {skip : Nat} {t : PyText} {pre post : List (PyChar × Tag)} {c : PyChar}
    (h : tagFrom skip t = pre ++ (c, .plain) :: post) :
    afterMarker (c :: post.map Prod.fst) = none ∧ post = tagFrom 0 (post.map Prod.fst) := by
  induction t generalizing skip pre with
  | nil =>
    have hnil : tagFrom skip [] = [] := by cases skip <;> rfl
    rw [hnil] at h
    cases pre <;> cases h
  | cons d t ih =>
    cases skip with
    | succ skip =>
      rw [tagFrom] at h
      cases pre with
      | nil => cases h
      | cons x pre => exact ih (List.cons.inj h).2
    | zero =>
      rw [tagFrom] at h
      cases hmarker : afterMarker (d :: t) with
      | some rest =>
        rw [hmarker] at h
        cases pre with
        | nil => cases h
        | cons x pre => exact ih (List.cons.inj h).2
      | none =>
        rw [hmarker] at h
        cases pre with
        | cons x pre => exact ih (List.cons.inj h).2
        | nil =>
          obtain ⟨hc, rfl⟩ := List.cons.inj h
          cases hc
          rw [map_fst_tagFrom]
          exact ⟨hmarker, rfl⟩

/-- A text with a marker. -/
def Marked (t : PyText) : Prop := ∃ pre h r, t = pre ++ (h ++ r) ∧ Opens h r

theorem marked_cons (c : PyChar) (t : PyText) :
    Marked (c :: t) ↔ (afterMarker (c :: t)).isSome ∨ Marked t := by
  rw [afterMarker_isSome]
  constructor
  · rintro ⟨pre, h, r, ht, hopens⟩
    cases pre with
    | nil => exact .inl ⟨h, r, ht, hopens⟩
    | cons d pre => exact .inr ⟨pre, h, r, (List.cons.inj ht).2, hopens⟩
  · rintro (⟨h, r, ht, hopens⟩ | ⟨pre, h, r, ht, hopens⟩)
    · exact ⟨[], h, r, ht, hopens⟩
    · exact ⟨c :: pre, h, r, by rw [ht]; rfl, hopens⟩

theorem not_marked_nil : ¬Marked [] := by
  rintro ⟨pre, h, r, ht, hopens⟩
  have hnil := (List.append_eq_nil_iff.mp (List.append_eq_nil_iff.mp ht.symm).2).1
  exact hopens.ne_nil hnil

/-- Without a marker every character is outside the markers. -/
theorem tagFrom_unmarked {t : PyText} (h : ¬Marked t) : tagFrom 0 t = t.map (·, .plain) := by
  induction t with
  | nil => rfl
  | cons c t ih =>
    rw [marked_cons, not_or, Option.not_isSome_iff_eq_none] at h
    rw [tagFrom, h.1, ih h.2]
    rfl

theorem channelMarkerCount_eq_zero (t : PyText) :
    channelMarkerCount (some t) = 0 ↔ ¬Marked t := by
  constructor
  · intro hcount
    have hnone : ∀ x ∈ tagFrom 0 t, x.2 ≠ .opens := by
      intro x hx hopens
      exact List.countP_eq_zero.mp hcount x hx (by simpa using hopens)
    induction t with
    | nil => exact not_marked_nil
    | cons c t ih =>
      rw [marked_cons]
      rw [tagFrom] at hnone
      cases hmarker : afterMarker (c :: t) with
      | some rest =>
        rw [hmarker] at hnone
        exact absurd rfl (hnone _ List.mem_cons_self)
      | none =>
        rw [hmarker] at hnone
        have htail : ∀ x ∈ tagFrom 0 t, x.2 ≠ .opens :=
          fun x hx => hnone x (List.mem_cons_of_mem _ hx)
        have hzero : channelMarkerCount (some t) = 0 :=
          List.countP_eq_zero.mpr fun x hx => by simpa using htail x hx
        rintro (hsome | hmarked)
        · cases hsome
        · exact ih hzero htail hmarked
  · intro hunmarked
    rw [channelMarkerCount, tagFrom_unmarked hunmarked, List.countP_eq_zero]
    intro x hx
    obtain ⟨c, -, rfl⟩ := List.mem_map.mp hx
    exact Bool.false_ne_true

theorem withoutMarkers_unmarked {t : PyText} (h : ¬Marked t) : withoutMarkers t = t := by
  rw [withoutMarkers, tagFrom_unmarked h, List.filterMap_map]
  exact List.filterMap_some

/-- What a marker begins with is in the text with another marker within it. -/
def Interrupted (t : PyText) : Prop :=
  ∃ pre head post, tagFrom 0 t = pre ++ (head ++ post) ∧ (∃ x ∈ head, x.2 ≠ .plain) ∧
    Opens (head.filterMap plainChar) (post.filterMap plainChar)

omit [WordChars] in
theorem mem_of_plainChar {tags : List (PyChar × Tag)} {c : PyChar}
    (h : c ∈ tags.filterMap plainChar) : c ∈ tags.map Prod.fst := by
  obtain ⟨⟨d, tag⟩, hmem, hd⟩ := List.mem_filterMap.mp h
  cases tag with
  | plain => exact List.mem_map.mpr ⟨_, hmem, Option.some.inj hd⟩
  | opens | inside => cases hd

omit [WordChars] in
theorem filterMap_plain {tags : List (PyChar × Tag)} (h : ∀ x ∈ tags, x.2 = .plain) :
    tags.filterMap plainChar = tags.map Prod.fst := by
  induction tags with
  | nil => rfl
  | cons x tags ih =>
    obtain ⟨c, tag⟩ := x
    have htag : tag = .plain := h _ List.mem_cons_self
    rw [htag, List.map_cons, ← ih fun x hx => h x (List.mem_cons_of_mem _ hx)]
    rfl

/-- Markers are no letters: a word that ends between them ends in the text. -/
theorem wordEnds_of_plain {t : PyText}
    (h : wordEnds ((tagFrom 0 t).filterMap plainChar) = true) : wordEnds t = true := by
  cases t with
  | nil => rfl
  | cons c t =>
    rw [tagFrom] at h
    cases hmarker : afterMarker (c :: t) with
    | none =>
      rw [hmarker] at h
      exact h
    | some rest =>
      obtain ⟨m, r, hm, hopens⟩ := (afterMarker_isSome (c :: t)).mp (by rw [hmarker]; rfl)
      cases m with
      | nil => exact absurd rfl hopens.ne_nil
      | cons d m =>
        have hc := hopens.head
        rw [← (List.cons.inj hm).1] at hc
        have hlt : c = .scalar '<' := eq_of_folded (by decide) hc
        rw [hlt]
        rfl

/-- Nothing outside the markers begins one. -/
theorem unmarked_of_plain {t : PyText} {pre head post : List (PyChar × Tag)}
    (h : tagFrom 0 t = pre ++ head ++ post) (hplain : ∀ x ∈ head, x.2 = .plain) :
    ¬Opens (head.filterMap plainChar) (post.filterMap plainChar) := by
  intro hopens
  cases head with
  | nil => exact hopens.ne_nil rfl
  | cons x head =>
    obtain ⟨c, tag⟩ := x
    obtain rfl : tag = .plain := hplain _ List.mem_cons_self
    have hpost : post = tagFrom 0 (post.map Prod.fst) := by
      obtain hnil | ⟨init, y, hy⟩ := List.eq_nil_or_concat ((c, Tag.plain) :: head)
      · cases hnil
      · obtain ⟨d, tag⟩ := y
        rw [List.concat_eq_append] at hy
        obtain rfl : tag = .plain := hplain (d, tag) (by rw [hy]; simp)
        rw [hy, List.append_assoc, List.append_assoc, ← List.append_assoc] at h
        exact (tagFrom_plain h).2
    have hbegins : afterMarker (c :: (head ++ post).map Prod.fst) = none :=
      (tagFrom_plain (by rw [h, List.append_assoc]; rfl)).1
    have hsome : (afterMarker (c :: (head ++ post).map Prod.fst)).isSome := by
      rw [filterMap_plain hplain] at hopens
      refine (afterMarker_isSome _).mpr
        ⟨((c, Tag.plain) :: head).map Prod.fst, post.map Prod.fst, by rw [List.map_append]; rfl, ?_⟩
      obtain htag | ⟨hword, hends, hclose⟩ := hopens
      · exact .inl htag
      · refine .inr ⟨hword, ?_, mem_of_plainChar hclose⟩
        rw [hpost] at hends
        exact wordEnds_of_plain hends
    rw [hbegins] at hsome
    cases hsome

/-- Taking the markers out makes one exactly where one was interrupted. -/
theorem marked_withoutMarkers (t : PyText) : Marked (withoutMarkers t) ↔ Interrupted t := by
  constructor
  · rintro ⟨p, h, r, ht, hopens⟩
    obtain ⟨pre, rest, htags, -, hrest⟩ := List.filterMap_eq_append_iff.mp ht
    obtain ⟨head, post, rfl, hhead, hpost⟩ := List.filterMap_eq_append_iff.mp hrest
    cases h with
    | nil => exact absurd rfl hopens.ne_nil
    | cons c h =>
      obtain ⟨skipped, x, head', rfl, -, hx, hhead'⟩ := List.filterMap_eq_cons_iff.mp hhead
      obtain ⟨d, tag⟩ := x
      cases tag with
      | opens | inside => cases hx
      | plain =>
        cases hx
        have hopens' : Opens (((c, Tag.plain) :: head').filterMap plainChar)
            (post.filterMap plainChar) := by
          rw [hpost]
          show Opens (c :: head'.filterMap plainChar) r
          rwa [hhead']
        refine ⟨pre ++ skipped, (c, .plain) :: head', post, ?_, ?_, hopens'⟩
        · rw [htags, List.append_assoc, List.append_assoc]
        by_contra hnone
        have hplain : ∀ x ∈ (c, Tag.plain) :: head', x.2 = .plain := by
          intro x hx
          by_contra hne
          exact hnone ⟨x, hx, hne⟩
        have hwhole : tagFrom 0 t = (pre ++ skipped) ++ ((c, .plain) :: head') ++ post := by
          rw [htags]
          simp only [List.append_assoc]
        exact unmarked_of_plain hwhole hplain hopens'
  · rintro ⟨pre, head, post, htags, -, hopens⟩
    refine ⟨pre.filterMap plainChar, _, _, ?_, hopens⟩
    rw [withoutMarkers, htags, List.filterMap_append, List.filterMap_append]

end Tags

end Elyra.Llm
