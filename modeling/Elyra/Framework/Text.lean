import Mathlib.Data.List.Basic

namespace Elyra

/-- Strict UTF-8 decoding of a whole file: `none` is a `UnicodeDecodeError`. -/
def decodeUtf8 (b : ByteArray) : Option (List Char) := b.utf8Decode?.map Array.toList

def encodeUtf8 (cs : List Char) : ByteArray := (String.ofList cs).toByteArray

@[simp] theorem encodeUtf8_eq (cs : List Char) : encodeUtf8 cs = cs.utf8Encode := rfl

@[simp] theorem decodeUtf8_utf8Encode (cs : List Char) : decodeUtf8 cs.utf8Encode = some cs := by
  simp [decodeUtf8]

theorem utf8Encode_of_decodeUtf8 (b : ByteArray) (cs : List Char) (h : decodeUtf8 b = some cs) :
    b = cs.utf8Encode := by
  unfold decodeUtf8 at h
  cases hd : b.utf8Decode? with
  | none => simp [hd] at h
  | some a =>
    have hs : b.utf8Decode?.isSome = true := by rw [hd]; rfl
    have hb := ByteArray.utf8Encode_get_utf8Decode? (b := b) (h := hs)
    have ha : b.utf8Decode?.get hs = a := by simp [hd]
    simp only [hd, Option.map_some, Option.some.injEq] at h
    rw [ha, h] at hb
    exact hb.symm

theorem utf8Encode_injective (cs ds : List Char) (h : cs.utf8Encode = ds.utf8Encode) : cs = ds := by
  have hd := congrArg decodeUtf8 h
  simpa using hd

/-- Characters are self-delimiting: decoding goes through a decodable head. -/
theorem decodeUtf8_utf8Encode_append (cs : List Char) (b : ByteArray) :
    decodeUtf8 (cs.utf8Encode ++ b) = (decodeUtf8 b).map (cs ++ ·) := by
  induction cs with
  | nil => simp
  | cons c cs ih =>
    have hone (l : ByteArray) : decodeUtf8 ([c].utf8Encode ++ l) = (decodeUtf8 l).map (c :: ·) := by
      simp only [decodeUtf8, ByteArray.utf8Decode?_utf8Encode_singleton_append, Option.map_map]
      congr 1
      funext a
      simp
    rw [List.utf8Encode_cons, ByteArray.append_assoc, hone, ih, Option.map_map]
    rfl

/-- A decodable head of an encoded text is the encoding of a head of the text. -/
theorem prefix_of_utf8Encode_append (ds cs : List Char) (b : ByteArray)
    (h : ds.utf8Encode = cs.utf8Encode ++ b) : ∃ es, ds = cs ++ es ∧ b = es.utf8Encode := by
  have hd := congrArg decodeUtf8 h
  rw [decodeUtf8_utf8Encode, decodeUtf8_utf8Encode_append] at hd
  cases he : decodeUtf8 b with
  | none => simp [he] at hd
  | some es =>
    simp only [he, Option.map_some, Option.some.injEq] at hd
    exact ⟨es, hd, utf8Encode_of_decodeUtf8 b es he⟩

/-- A cut inside an encoded text either splits a character or leaves a head of the text. -/
theorem decodeUtf8_cut (text : List Char) (k : Nat) (hk : k < text.utf8Encode.size)
    (p : List Char) (hp : decodeUtf8 (text.utf8Encode.extract 0 k) = some p) :
    ∃ r, text = p ++ r ∧ r ≠ [] ∧ (k = 0 ↔ p = []) := by
  have hbytes := utf8Encode_of_decodeUtf8 _ p hp
  have hwhole : text.utf8Encode =
      text.utf8Encode.extract 0 k ++ text.utf8Encode.extract k text.utf8Encode.size := by
    rw [ByteArray.extract_append_extract, Nat.min_eq_left (Nat.zero_le _),
      Nat.max_eq_right (Nat.le_of_lt hk), ByteArray.extract_zero_size]
  rw [hbytes] at hwhole
  obtain ⟨r, hr, hrest⟩ := prefix_of_utf8Encode_append text p _ hwhole
  have hsize : p.utf8Encode.size = k := by
    rw [← hbytes, ByteArray.size_extract]
    omega
  refine ⟨r, hr, ?_, ?_, ?_⟩
  · rintro rfl
    rw [List.append_nil] at hr
    rw [hr, hsize] at hk
    omega
  · rintro rfl
    apply utf8Encode_injective
    rw [List.utf8Encode_nil, ← hbytes, ByteArray.extract_same]
  · rintro rfl
    rw [← hsize]
    rfl

/-- Text mode reads `\r\n` and `\r` as `\n`. -/
def universalNewlines : List Char → List Char
  | [] => []
  | '\r' :: '\n' :: r => '\n' :: universalNewlines r
  | c :: r => (if c = '\r' then '\n' else c) :: universalNewlines r

theorem universalNewlines_cons (c : Char) (r : List Char) (h : c ≠ '\r') :
    universalNewlines (c :: r) = c :: universalNewlines r := by
  rw [universalNewlines]
  · rw [if_neg h]
  · intro t hc
    exact absurd hc h

theorem universalNewlines_append (a b : List Char) (h : '\r' ∉ a) :
    universalNewlines (a ++ b) = a ++ universalNewlines b := by
  induction a with
  | nil => rfl
  | cons c a ih =>
    simp only [List.mem_cons, not_or] at h
    rw [List.cons_append, universalNewlines_cons c _ (Ne.symm h.1), ih h.2, List.cons_append]

theorem universalNewlines_eq_self (a : List Char) (h : '\r' ∉ a) : universalNewlines a = a := by
  have happ := universalNewlines_append a [] h
  simpa [universalNewlines] using happ

/-- No carriage return survives, so a text that holds one is not read back. -/
theorem not_mem_universalNewlines (a : List Char) : '\r' ∉ universalNewlines a := by
  fun_induction universalNewlines a with
  | case1 => simp
  | case2 r ih =>
    simp only [List.mem_cons, not_or]
    exact ⟨by decide, ih⟩
  | case3 c r h ih =>
    simp only [List.mem_cons, not_or]
    refine ⟨?_, ih⟩
    split_ifs with hc
    · decide
    · exact Ne.symm hc

theorem universalNewlines_eq_iff (a : List Char) : universalNewlines a = a ↔ '\r' ∉ a := by
  constructor
  · intro h hm
    rw [← h] at hm
    exact not_mem_universalNewlines a hm
  · exact universalNewlines_eq_self a

def consHead (c : Char) : List (List Char) → List (List Char)
  | [] => [[c]]
  | l :: ls => (c :: l) :: ls

def splitLines : List Char → List (List Char)
  | [] => [[]]
  | c :: r => if c = '\n' then [] :: splitLines r else consHead c (splitLines r)

theorem splitLines_append (a b : List Char) (h : '\n' ∉ a) :
    splitLines (a ++ '\n' :: b) = a :: splitLines b := by
  induction a with
  | nil => simp [splitLines]
  | cons c a ih =>
    simp only [List.mem_cons, not_or] at h
    rw [List.cons_append, splitLines, if_neg (Ne.symm h.1), ih h.2]
    rfl

theorem splitLines_single (a : List Char) (h : '\n' ∉ a) : splitLines a = [a] := by
  induction a with
  | nil => rfl
  | cons c a ih =>
    simp only [List.mem_cons, not_or] at h
    rw [splitLines, if_neg (Ne.symm h.1), ih h.2]
    rfl

/-- The last line of a text is determined by the text. -/
theorem last_line_unique (head line head' line' : List Char)
    (h : head ++ line = head' ++ line') (hline : '\n' ∉ line) (hline' : '\n' ∉ line')
    (hhead : head = [] ∨ head.getLast? = some '\n')
    (hhead' : head' = [] ∨ head'.getLast? = some '\n') : head = head' ∧ line = line' := by
  have none_between (a x : List Char) (hx : '\n' ∉ x)
      (ha : a ++ x = [] ∨ (a ++ x).getLast? = some '\n') : x = [] := by
    by_contra hne
    rcases ha with hnil | hlast
    · exact hne (List.append_eq_nil_iff.mp hnil).2
    · rw [List.getLast?_append_of_ne_nil _ hne] at hlast
      exact hx (List.mem_of_getLast? hlast)
  rcases List.append_eq_append_iff.mp h with ⟨x, hh, hl⟩ | ⟨x, hh, hl⟩
  · have hx : x = [] := by
      apply none_between head x
      · intro hm
        rw [hl] at hline
        exact hline (List.mem_append_left _ hm)
      · rw [← hh]
        exact hhead'
    subst hx
    exact ⟨by simpa using hh.symm, by simpa using hl⟩
  · have hx : x = [] := by
      apply none_between head' x
      · intro hm
        rw [hl] at hline'
        exact hline' (List.mem_append_left _ hm)
      · rw [← hh]
        exact hhead
    subst hx
    exact ⟨by simpa using hh, by simpa using hl.symm⟩

/-- `str.isspace` of one character. -/
def isSpace (c : Char) : Bool :=
  let n := c.toNat
  (9 ≤ n && n ≤ 13) || (28 ≤ n && n ≤ 32) || n = 0x85 || n = 0xA0 || n = 0x1680 ||
    (0x2000 ≤ n && n ≤ 0x200A) || n = 0x2028 || n = 0x2029 || n = 0x202F || n = 0x205F ||
    n = 0x3000

def strip (cs : List Char) : List Char :=
  ((cs.dropWhile isSpace).reverse.dropWhile isSpace).reverse

/-- `str.strip`. -/
def stripText (text : String) : String := .ofList (strip text.toList)

theorem strip_eq_self (c d : Char) (cs : List Char) (hc : isSpace c = false)
    (hd : isSpace d = false) : strip (c :: (cs ++ [d])) = c :: (cs ++ [d]) := by
  have hfront : (c :: (cs ++ [d])).dropWhile isSpace = c :: (cs ++ [d]) := by simp [hc]
  have hback : (c :: (cs ++ [d])).reverse.dropWhile isSpace = (c :: (cs ++ [d])).reverse := by
    simp [hd]
  rw [strip, hfront, hback, List.reverse_reverse]

@[simp] theorem strip_nil : strip [] = [] := rfl

/-- The non-empty stripped lines a reader loops over. -/
def textLines (cs : List Char) : List (List Char) :=
  ((splitLines (universalNewlines cs)).map strip).filter (· ≠ [])

theorem textLines_append (a b : List Char) (hn : '\n' ∉ a) (hr : '\r' ∉ a) :
    textLines (a ++ '\n' :: b) =
      (if strip a = [] then [] else [strip a]) ++ textLines b := by
  have hb : universalNewlines ('\n' :: b) = '\n' :: universalNewlines b :=
    universalNewlines_cons '\n' b (by decide)
  unfold textLines
  rw [universalNewlines_append a _ hr, hb, splitLines_append a _ hn, List.map_cons,
    List.filter_cons]
  split_ifs with h1 h2 h2 <;> simp_all

theorem textLines_single (a : List Char) (hn : '\n' ∉ a) (hr : '\r' ∉ a) :
    textLines a = if strip a = [] then [] else [strip a] := by
  unfold textLines
  rw [universalNewlines_eq_self a hr, splitLines_single a hn]
  split_ifs with h <;> simp [h]

@[simp] theorem textLines_nil : textLines [] = [] := rfl

end Elyra
