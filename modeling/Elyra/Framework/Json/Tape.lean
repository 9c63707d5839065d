import Elyra.Framework.Json.Lines
import Elyra.Framework.Json.Torn
import Mathlib.Data.List.DropRight

namespace Elyra.Json

/-- `_ensure_trailing_newline`: a file that is not empty and does not end a line ends it. -/
def repaired (b : ByteArray) : ByteArray :=
  if b.size > 0 ∧ b.data.back? ≠ some 10 then b ++ encodeUtf8 ['\n'] else b

/-- The last byte of an encoded character is a line feed for a line feed only. -/
theorem back_utf8EncodeChar (c : Char) (h : (String.utf8EncodeChar c).getLast? = some 10) :
    c = '\n' := by
  have hval : c.val.toNat = 10 := by
    revert h
    fun_cases String.utf8EncodeChar c with
    | case1 hle =>
      intro h
      have hbyte : (UInt8.ofNat c.val.toNat).toNat = 10 := congrArg UInt8.toNat (Option.some.inj h)
      rw [UInt8.toNat_ofNat'] at hbyte
      omega
    | case2 | case3 | case4 =>
      intro h
      have hbyte : (UInt8.ofNat (c.val.toNat % 64 + 128)).toNat = 10 :=
        congrArg UInt8.toNat (Option.some.inj h)
      rw [UInt8.toNat_ofNat'] at hbyte
      omega
  exact Char.ext (UInt32.toNat_inj.mp hval)

theorem back_utf8Encode (cs : List Char) (c : Char)
    (h : (cs ++ [c]).utf8Encode.data.back? = some 10) : c = '\n' := by
  apply back_utf8EncodeChar
  rw [List.utf8Encode_append, ByteArray.data_append, List.utf8Encode_singleton] at h
  have hne := String.utf8EncodeChar_ne_nil (c := c)
  simpa [Array.back?_append, List.getLast?_eq_none_iff, hne] using h

/-- A repaired text ends a line. -/
theorem repaired_text (cs : List Char) : ∃ ds, repaired cs.utf8Encode = ds.utf8Encode ∧
    (ds = [] ∨ ∃ head, ds = head ++ ['\n']) ∧ (ds = cs ∨ ds = cs ++ ['\n']) := by
  unfold repaired
  split_ifs with hopen
  · refine ⟨cs ++ ['\n'], ?_, .inr ⟨cs, rfl⟩, .inr rfl⟩
    rw [encodeUtf8_eq, List.utf8Encode_append]
  · refine ⟨cs, rfl, ?_, .inl rfl⟩
    cases cs using List.reverseRecOn with
    | nil => exact .inl rfl
    | append_singleton head c =>
      right
      have hpos : (head ++ [c]).utf8Encode.size > 0 := by
        rw [List.utf8Encode_append, ByteArray.size_append, List.utf8Encode_singleton]
        have hlen := String.length_utf8EncodeChar c
        have hsize := Char.utf8Size_pos c
        simp
        omega
      have hback : (head ++ [c]).utf8Encode.data.back? = some 10 := by
        by_contra hne
        exact hopen ⟨hpos, hne⟩
      exact ⟨head, by rw [back_utf8Encode head c hback]⟩

theorem splitLines_join (a b : List Char) :
    splitLines (a ++ '\n' :: b) = splitLines a ++ splitLines b := by
  induction a with
  | nil => rfl
  | cons c a ih =>
    by_cases hc : c = '\n'
    · simp only [List.cons_append, splitLines, if_pos hc, ih]
    · simp only [List.cons_append, splitLines, if_neg hc, ih]
      cases hs : splitLines a with
      | nil =>
        cases a with
        | nil => simp [splitLines] at hs
        | cons d a =>
          by_cases hd : d = '\n'
          · simp [splitLines, hd] at hs
          · rw [splitLines, if_neg hd] at hs
            cases hds : splitLines a <;> simp [hds, consHead] at hs
      | cons l ls => rfl

/-- A line feed ends a line whatever stands before it. -/
theorem universalNewlines_line (a b : List Char) : ∃ c,
    universalNewlines (a ++ '\n' :: b) = c ++ '\n' :: universalNewlines b ∧
      (universalNewlines a = c ∨ universalNewlines a = c ++ ['\n']) := by
  induction a using universalNewlines.induct with
  | case1 => exact ⟨[], universalNewlines_cons '\n' b (by decide), .inl rfl⟩
  | case2 r ih =>
    obtain ⟨c, hc, ha⟩ := ih
    refine ⟨'\n' :: c, ?_, ?_⟩
    · show '\n' :: universalNewlines (r ++ '\n' :: b) = _
      rw [hc, List.cons_append]
    · show '\n' :: universalNewlines r = _ ∨ '\n' :: universalNewlines r = _
      obtain ha | ha := ha
      · exact .inl (by rw [ha])
      · exact .inr (by rw [ha, List.cons_append])
  | case3 x r hno ih =>
    obtain ⟨c, hc, ha⟩ := ih
    by_cases hx : x = '\r'
    · subst hx
      cases r with
      | nil => exact ⟨[], rfl, .inr rfl⟩
      | cons y r =>
        have hy : ∀ t : List Char, y :: t = '\n' :: t → False := by
          intro t ht
          exact hno r rfl (by rw [(List.cons.inj ht).1])
        have hstep (t : List Char) : universalNewlines ('\r' :: y :: t) =
            '\n' :: universalNewlines (y :: t) := by
          rw [universalNewlines]
          · rw [if_pos rfl]
          · intro u _ hu
            exact hy t (by rw [(List.cons.inj hu).1])
        refine ⟨'\n' :: c, ?_, ?_⟩
        · rw [List.cons_append, List.cons_append, hstep, ← List.cons_append, hc, List.cons_append]
        · rw [hstep]
          obtain ha | ha := ha
          · exact .inl (by rw [ha])
          · exact .inr (by rw [ha, List.cons_append])
    · refine ⟨x :: c, ?_, ?_⟩
      · rw [List.cons_append, universalNewlines_cons x _ hx, hc, List.cons_append]
      · rw [universalNewlines_cons x r hx]
        obtain ha | ha := ha
        · exact .inl (by rw [ha])
        · exact .inr (by rw [ha, List.cons_append])

/-- Rows on both sides of a line feed are read on their own. -/
theorem loadedRows_join (a b : List Char) :
    loadedRows (a ++ '\n' :: b) = loadedRows a ++ loadedRows b := by
  obtain ⟨c, hc, ha⟩ := universalNewlines_line a b
  have hlines : textLines (a ++ '\n' :: b) = textLines a ++ textLines b := by
    unfold textLines
    rw [hc, splitLines_join, List.map_append, List.filter_append]
    congr 1
    obtain ha | ha := ha
    · rw [ha]
    · rw [ha, splitLines_join, List.map_append, List.filter_append]
      exact (List.append_nil _).symm
  unfold loadedRows
  rw [hlines, List.filterMap_append]

section Torn

/-- Past its last bracket a text holds white space only. -/
theorem scan_zero (m : Mode) (cs : List Char) (s : Nat × Mode) (h : scan (0, m) cs = some s) :
    ∀ c ∈ cs, isWs c = true := by
  induction cs generalizing m with
  | nil => simp
  | cons c cs ih =>
    rw [scan_cons] at h
    by_cases hc : isWs c = true
    · have hstep : scanChar (0, m) c = some (0, .value) := by
        cases m <;> simp [scanChar, hc]
      rw [hstep, Option.bind_some] at h
      intro x hx
      obtain rfl | hx := List.mem_cons.mp hx
      · exact hc
      · exact ih .value h x hx
    · have hstep : scanChar (0, m) c = none := by
        cases m <;> simp [scanChar, hc]
      rw [hstep] at h
      cases h

/-- An object's text loads as a whole only. -/
theorem loads_head (kvs : List (String × Json)) (p r : List Char)
    (h : dumps (.obj kvs) = '{' :: p ++ r) (hr : r ≠ []) : loads ('{' :: p) = none := by
  rw [Option.eq_none_iff_forall_ne_some]
  intro v hv
  have hhead := loads_scan p v hv 0
  have hwhole := loads_scan (p ++ r) (.obj kvs) (by rw [← List.cons_append, ← h]; exact loads_dumps _) 0
  rw [scan_append, hhead, Option.bind_some] at hwhole
  obtain ⟨body, hbody⟩ := dumps_obj kvs
  have hlast : r.getLast? = some '}' := by
    have hend : (dumps (.obj kvs)).getLast? = some '}' := by
      rw [hbody, ← List.cons_append]
      exact List.getLast?_concat
    rw [h, List.getLast?_append, Option.or_eq_some_iff] at hend
    obtain hend | ⟨hnone, -⟩ := hend
    · exact hend
    · exact absurd (List.getLast?_eq_none_iff.mp hnone) hr
  have hws := scan_zero .value r _ hwhole '}' (List.mem_of_getLast? hlast)
  exact absurd hws (by decide)

theorem noControl_head {kvs : List (String × Json)} {p r : List Char}
    (h : dumps (.obj kvs) = p ++ r) : NoControl p := by
  intro c hc
  apply noControl_print (.obj kvs) 0 c
  show c ∈ dumps (.obj kvs)
  rw [h]
  exact List.mem_append_left _ hc

/-- A torn row is skipped. -/
theorem loadedRows_head (kvs : List (String × Json)) (p r : List Char)
    (h : dumps (.obj kvs) = p ++ r) (hr : r ≠ []) : loadedRows p = [] := by
  have hcontrol := noControl_head h
  cases p with
  | nil => rfl
  | cons c t =>
    obtain ⟨body, hbody⟩ := dumps_obj kvs
    have hc : c = '{' := by
      rw [hbody, List.cons_append] at h
      exact (List.cons.inj h).1.symm
    subst hc
    -- Stripping takes characters off the end only, and never the opening brace.
    have hstrip : ∃ u v, strip ('{' :: t) = '{' :: u ∧ '{' :: t = '{' :: u ++ v := by
      have hfront : ('{' :: t).dropWhile isSpace = '{' :: t := by
        rw [List.dropWhile_cons_of_neg (by decide)]
      have hpre : strip ('{' :: t) <+: '{' :: t := by
        unfold strip
        rw [hfront]
        exact List.rdropWhile_prefix isSpace ('{' :: t)
      obtain ⟨v, hv⟩ := hpre
      cases hs : strip ('{' :: t) with
      | nil =>
        have hall : ∀ x ∈ ('{' :: t), isSpace x = true := by
          unfold strip at hs
          rw [hfront] at hs
          exact List.rdropWhile_eq_nil_iff.mp hs
        exact absurd (hall '{' List.mem_cons_self) (by decide)
      | cons d u =>
        rw [hs, List.cons_append] at hv
        obtain ⟨hd, htail⟩ := List.cons.inj hv
        rw [hd]
        exact ⟨u, v, rfl, by rw [← htail]; rfl⟩
    obtain ⟨u, v, hu, hsplit⟩ := hstrip
    have hlost : loads ('{' :: u) = none := by
      apply loads_head kvs u (v ++ r) _ (by simp [hr])
      rw [h, hsplit, List.append_assoc]
    unfold loadedRows
    rw [textLines_single _ hcontrol.not_newline hcontrol.not_return, hu]
    simp [hlost]

/-- A whole row is read with or without its line feed. -/
theorem loadedRows_dumps (kvs : List (String × Json)) :
    loadedRows (dumps (.obj kvs)) = [.obj kvs] := by
  have hc : NoControl (dumps (.obj kvs)) := noControl_print (.obj kvs) 0
  obtain ⟨body, hb⟩ := dumps_obj kvs
  have hne : dumps (.obj kvs) ≠ [] := by
    rw [hb]
    simp
  unfold loadedRows
  rw [textLines_single _ hc.not_newline hc.not_return, strip_dumps_obj, if_neg hne]
  simp [loads_dumps]

theorem loadedRows_rowText (kvs : List (String × Json)) : loadedRows (rowText kvs) = [.obj kvs] := by
  have h := loadedRows_rowsText [kvs] []
  simpa [rowsText, loadedRows_nil] using h

/-- The first `k` bytes of a row, cut between characters, hold the row or nothing: the row when
all its text is there. -/
theorem loadedRows_cut (kvs : List (String × Json)) (k : Nat) (p : List Char)
    (h : decodeUtf8 ((encodeUtf8 (rowText kvs)).extract 0 k) = some p) : '\r' ∉ p ∧
    loadedRows p = if (encodeUtf8 (dumps (.obj kvs))).size ≤ k then [.obj kvs] else [] := by
  have hcontrol : NoControl (dumps (.obj kvs)) := noControl_print (.obj kvs) 0
  have hreturn : '\r' ∉ rowText kvs := by
    simp [rowText, hcontrol.not_return]
  have hsize : (encodeUtf8 (rowText kvs)).size = (encodeUtf8 (dumps (.obj kvs))).size + 1 := by
    have hone : (['\n'].utf8Encode).size = 1 := by decide
    rw [encodeUtf8_eq, rowText, List.utf8Encode_append, ByteArray.size_append, hone]
    rfl
  by_cases hk : k < (encodeUtf8 (rowText kvs)).size
  · obtain ⟨r, hsplit, hr, -⟩ := decodeUtf8_cut (rowText kvs) k hk p h
    have hbytes := utf8Encode_of_decodeUtf8 _ p h
    have hlen : p.utf8Encode.size = k := by
      rw [← hbytes, ByteArray.size_extract]
      omega
    have hp : '\r' ∉ p := by
      rw [hsplit] at hreturn
      exact fun hm => hreturn (List.mem_append_left _ hm)
    refine ⟨hp, ?_⟩
    -- The cut stands before the line feed: what it leaves is a head of the row's text.
    obtain ⟨t, ht⟩ : ∃ t, dumps (.obj kvs) = p ++ t := by
      cases r using List.reverseRecOn with
      | nil => exact absurd rfl hr
      | append_singleton t c =>
        rw [rowText, ← List.append_assoc] at hsplit
        exact ⟨t, (List.append_inj' hsplit rfl).1⟩
    have htotal : (encodeUtf8 (dumps (.obj kvs))).size = k + t.utf8Encode.size := by
      rw [encodeUtf8_eq, ht, List.utf8Encode_append, ByteArray.size_append, hlen]
    split_ifs with hle
    · have hempty : t = [] := by
        cases t with
        | nil => rfl
        | cons c t =>
          have hpos := Char.utf8Size_pos c
          rw [List.utf8Encode_cons, ByteArray.size_append, List.utf8Encode_singleton] at htotal
          have hlength := String.length_utf8EncodeChar c
          have hchar : (String.utf8EncodeChar c).toByteArray.size = c.utf8Size := by
            rw [List.size_toByteArray, hlength]
          omega
      rw [hempty, List.append_nil] at ht
      rw [← ht]
      exact loadedRows_dumps kvs
    · apply loadedRows_head kvs p t ht
      intro hempty
      rw [hempty] at htotal
      have hzero : (([] : List Char).utf8Encode).size = 0 := rfl
      omega
  · have hwhole : (encodeUtf8 (rowText kvs)).extract 0 k = encodeUtf8 (rowText kvs) := by
      apply ByteArray.ext
      rw [ByteArray.data_extract, Array.extract_eq_self_of_le]
      simpa using not_lt.mp hk
    rw [hwhole, encodeUtf8_eq, decodeUtf8_utf8Encode] at h
    rw [← Option.some.inj h, if_pos (by omega)]
    exact ⟨hreturn, loadedRows_rowText kvs⟩

end Torn

/-- The file decodes, and its rows are these. -/
def Reads (b : ByteArray) (rows : List Json) : Prop :=
  ∃ cs, b = cs.utf8Encode ∧ '\r' ∉ cs ∧ loadedRows cs = rows

/-- The file also ends its last line. -/
def Whole (b : ByteArray) (rows : List Json) : Prop :=
  ∃ cs, b = cs.utf8Encode ∧ '\r' ∉ cs ∧ (cs = [] ∨ ∃ head, cs = head ++ ['\n']) ∧
    loadedRows cs = rows

theorem Reads.decode {b : ByteArray} {rows : List Json} (h : Reads b rows) :
    ∃ cs, decodeUtf8 b = some cs ∧ loadedRows cs = rows := by
  obtain ⟨cs, hb, -, hrows⟩ := h
  rw [hb]
  exact ⟨cs, decodeUtf8_utf8Encode cs, hrows⟩

theorem whole_empty : Whole ByteArray.empty [] := ⟨[], rfl, by simp, .inl rfl, rfl⟩

theorem Reads.repaired {b : ByteArray} {rows : List Json} (h : Reads b rows) :
    Whole (repaired b) rows := by
  obtain ⟨cs, hb, hr, hrows⟩ := h
  obtain ⟨ds, hrepaired, hends, hsame⟩ := repaired_text cs
  obtain rfl | rfl := hsame
  · exact ⟨ds, by rw [hb, hrepaired], hr, hends, hrows⟩
  · refine ⟨cs ++ ['\n'], by rw [hb, hrepaired], by simp [hr], hends, ?_⟩
    rw [loadedRows_join cs [], hrows, loadedRows_nil, List.append_nil]

/-- What is appended to whole lines is read on its own. -/
theorem Whole.append {b : ByteArray} {rows : List Json} (h : Whole b rows) (t : List Char)
    (ht : '\r' ∉ t) : Reads (b ++ t.utf8Encode) (rows ++ loadedRows t) := by
  obtain ⟨cs, hb, hr, hends, hrows⟩ := h
  refine ⟨cs ++ t, ?_, ?_, ?_⟩
  · rw [hb, List.utf8Encode_append]
  · simp [hr, ht]
  · obtain rfl | ⟨head, rfl⟩ := hends
    · rw [List.nil_append, ← hrows]
      rfl
    · rw [List.append_assoc, List.singleton_append, loadedRows_join head t, ← hrows,
        loadedRows_join head [], loadedRows_nil, List.append_nil]

theorem whole_rowsText (rows : List (List (String × Json))) :
    Whole (encodeUtf8 (rowsText rows)) (rows.map Json.obj) := by
  refine ⟨rowsText rows, rfl, ?_, ?_, ?_⟩
  · intro hm
    obtain ⟨kvs, -, hrow⟩ := List.mem_flatMap.mp hm
    have hcontrol : NoControl (dumps (.obj kvs)) := noControl_print (.obj kvs) 0
    simp [rowText, hcontrol.not_return] at hrow
  · cases rows using List.reverseRecOn with
    | nil => exact .inl rfl
    | append_singleton rows kvs =>
      refine .inr ⟨rowsText rows ++ dumps (.obj kvs), ?_⟩
      simp [rowsText, rowText]
  · have h := loadedRows_rowsText rows []
    simpa [loadedRows_nil] using h

/-- A file that is appended to line by line. A crash can still cut the line appended last. -/
structure AppendFile where
  base : ByteArray
  last : ByteArray

namespace AppendFile

def empty : AppendFile := ⟨ByteArray.empty, ByteArray.empty⟩

def content (f : AppendFile) : ByteArray := f.base ++ f.last

def append (f : AppendFile) (kvs : List (String × Json)) : AppendFile :=
  ⟨repaired f.content, encodeUtf8 (rowText kvs)⟩

/-- The file is replaced by a new one as a whole. -/
def replaced (rows : List (List (String × Json))) : AppendFile :=
  ⟨encodeUtf8 (rowsText rows), ByteArray.empty⟩

/-- Of the line appended last `k` bytes are left. -/
def cut (f : AppendFile) (k : Nat) : AppendFile := { f with last := f.last.extract 0 k }

/-- The cut leaves whole characters. -/
def CutsBetween (f : AppendFile) (k : Nat) : Prop := (decodeUtf8 (f.cut k).last).isSome = true

instance (f : AppendFile) (k : Nat) : Decidable (f.CutsBetween k) :=
  inferInstanceAs (Decidable (_ = true))

end AppendFile

/-- The rows written to such a file: of the row appended last, the crashes so far left all its
text or not. -/
structure Written where
  kept : List (List (String × Json))
  last : Option (List (String × Json))

namespace Written

def empty : Written := ⟨[], none⟩

def rows (w : Written) : List (List (String × Json)) := w.kept ++ w.last.toList

def append (w : Written) (kvs : List (String × Json)) : Written := ⟨w.rows, some kvs⟩

def replaced (rows : List (List (String × Json))) : Written := ⟨rows, none⟩

def cut (w : Written) (k : Nat) : Written :=
  { w with last := w.last.filter (fun kvs => (encodeUtf8 (dumps (.obj kvs))).size ≤ k) }

@[simp] theorem rows_append (w : Written) (kvs : List (String × Json)) :
    (w.append kvs).rows = w.rows ++ [kvs] := rfl

@[simp] theorem rows_replaced (rows : List (List (String × Json))) :
    (replaced rows).rows = rows := by simp [replaced, Written.rows]

end Written

/-- The file holds these rows, and maybe a torn head of one more. -/
structure Stores (f : AppendFile) (w : Written) : Prop where
  base : Whole f.base (w.kept.map Json.obj)
  last : ∃ kvs k, f.last = (encodeUtf8 (rowText kvs)).extract 0 k ∧
    (decodeUtf8 f.last).isSome = true ∧
    w.last = if (encodeUtf8 (dumps (.obj kvs))).size ≤ k then some kvs else none

theorem extract_all (b : ByteArray) : b.extract 0 b.size = b := by
  apply ByteArray.ext
  rw [ByteArray.data_extract]
  exact Array.extract_eq_self_of_le (Nat.le_refl _)

theorem extract_extract (b : ByteArray) (j k : Nat) :
    (b.extract 0 j).extract 0 k = b.extract 0 (min j k) := by
  apply ByteArray.ext
  simp [Nat.min_comm]

/-- An object's text takes at least one byte. -/
theorem size_dumps_obj (kvs : List (String × Json)) :
    0 < (encodeUtf8 (dumps (.obj kvs))).size := by
  obtain ⟨body, hbody⟩ := dumps_obj kvs
  rw [encodeUtf8_eq, hbody, List.utf8Encode_cons, ByteArray.size_append]
  have hone : (['{'].utf8Encode).size = 1 := by decide
  omega

theorem last_empty (kvs : List (String × Json)) : ∃ kvs' k,
    ByteArray.empty = (encodeUtf8 (rowText kvs')).extract 0 k ∧
    (decodeUtf8 ByteArray.empty).isSome = true ∧
    (none : Option (List (String × Json))) =
      if (encodeUtf8 (dumps (.obj kvs'))).size ≤ k then some kvs' else none := by
  refine ⟨kvs, 0, ?_, rfl, ?_⟩
  · apply ByteArray.ext
    simp
  · have hpos := size_dumps_obj kvs
    rw [if_neg (by omega)]

theorem stores_empty : Stores .empty .empty := ⟨whole_empty, last_empty []⟩

theorem stores_replaced (rows : List (List (String × Json))) :
    Stores (.replaced rows) (.replaced rows) := ⟨whole_rowsText rows, last_empty []⟩

/-- The file decodes, and exactly the written rows are read. -/
theorem Stores.reads {f : AppendFile} {w : Written} (h : Stores f w) :
    Reads f.content (w.rows.map Json.obj) := by
  obtain ⟨kvs, k, hlast, hsome, hw⟩ := h.last
  obtain ⟨p, hp⟩ := Option.isSome_iff_exists.mp hsome
  have hcut : decodeUtf8 ((encodeUtf8 (rowText kvs)).extract 0 k) = some p := by rw [← hlast, hp]
  obtain ⟨hreturn, hrows⟩ := loadedRows_cut kvs k p hcut
  have happend := h.base.append p hreturn
  have htext : f.last = p.utf8Encode := utf8Encode_of_decodeUtf8 _ p hp
  have hsame : loadedRows p = w.last.toList.map Json.obj := by
    rw [hrows, hw]
    split_ifs <;> rfl
  rw [AppendFile.content, htext, Written.rows, List.map_append, ← hsame]
  exact happend

theorem Stores.append {f : AppendFile} {w : Written} (h : Stores f w)
    (kvs : List (String × Json)) : Stores (f.append kvs) (w.append kvs) where
  base := h.reads.repaired
  last := by
    refine ⟨kvs, (encodeUtf8 (rowText kvs)).size, ?_, ?_, ?_⟩
    · rw [extract_all]
      rfl
    · simp [AppendFile.append, encodeUtf8_eq, decodeUtf8_utf8Encode]
    · rw [if_pos]
      · rfl
      · rw [encodeUtf8_eq, encodeUtf8_eq, rowText, List.utf8Encode_append, ByteArray.size_append]
        omega

/-- A cut between characters leaves the row appended last, or takes it away. -/
theorem Stores.cut {f : AppendFile} {w : Written} (h : Stores f w) (k : Nat)
    (hk : f.CutsBetween k) : Stores (f.cut k) (w.cut k) where
  base := h.base
  last := by
    obtain ⟨kvs, j, hlast, -, hw⟩ := h.last
    refine ⟨kvs, min j k, ?_, hk, ?_⟩
    · rw [AppendFile.cut, hlast, extract_extract]
    · show w.last.filter _ = _
      rw [hw]
      by_cases hj : (encodeUtf8 (dumps (.obj kvs))).size ≤ j
      · by_cases hkk : (encodeUtf8 (dumps (.obj kvs))).size ≤ k
        · rw [if_pos hj, if_pos (by omega), Option.filter_some, if_pos (decide_eq_true hkk)]
        · rw [if_pos hj, if_neg (by omega), Option.filter_some, if_neg (fun hd => hkk (of_decide_eq_true hd))]
      · rw [if_neg hj, if_neg (by omega), Option.filter_none]

end Elyra.Json
