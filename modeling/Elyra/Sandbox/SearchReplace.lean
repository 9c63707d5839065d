import Elyra.Framework.Faults
import Elyra.Framework.Replace
import Elyra.Llm.FreshAccess

namespace Elyra.Sandbox

open Llm (PyChar PyText)

/-- What a path of the sandbox leads to. -/
inductive Place where
  | outside | media | directory | missing | file
  deriving DecidableEq

/-- What is raised for a path that is no file to edit. -/
def Place.refusal : Place → Option PyErr
  | .outside => some (.valueError [.text "path escapes sandbox"])
  | .media | .directory | .missing => some .osError
  | .file => none

/-- A path with the bytes of the file there and the temporary file beside it. -/
structure Workspace where
  place : Place
  bytes : ByteArray
  tmp : Option ByteArray

abbrev WorkspaceM := FileM Workspace

/-- `s.encode("utf-8")`. -/
def encodeText (s : PyText) : Option ByteArray :=
  if s.encodable then some (encodeUtf8 s.shown) else none

/-- A text-mode read: the bytes are decoded and every line terminator becomes `\n`. -/
def readText : WorkspaceM PyText := do
  let bytes ← operationWith fun w => (w.bytes, w)
  match decodeUtf8 bytes with
  | some text => return (universalNewlines text).map .scalar
  | none => raise .unicodeDecodeError

/-- `f.write(content)`: nothing of a text that cannot be encoded is written. -/
def writeTmp (content : PyText) : WorkspaceM Unit :=
  match encodeText content with
  | some bytes => operation fun w => { w with tmp := some bytes }
  | none => raise (.valueError [.text "surrogates not allowed"])

def dropTmp : WorkspaceM Unit :=
  tryExcept (operation fun w => { w with tmp := none }) fun _ => pure ()

/-- `_atomic_write_text`. -/
def atomicWriteText (content : PyText) : WorkspaceM Unit := do
  operation id
  operation fun w => { w with tmp := some .empty }
  tryExcept (do
    writeTmp content
    operation id
    operation fun w => { w with bytes := w.tmp.getD w.bytes, tmp := none }) fun e => do
    dropTmp
    raise e

/-- `text.replace(old, new, count)`, where 0 stands for all. -/
def edited (old new text : PyText) (count : Nat) : PyText :=
  if count = 0 then replaceAll old new text else replaceUpTo old new text count

/-- How many replacements that makes. -/
def editCount (old text : PyText) (count : Nat) : Nat :=
  if count = 0 then occurrences old text else min count (occurrences old text)

/-- `search_replace` on the text of a file. -/
def editFile (old new : PyText) (count : Nat) : WorkspaceM Nat := do
  let original ← readText
  if editCount old original count = 0 then return 0
  else
    atomicWriteText (edited old new original count)
    return editCount old original count

def searchReplace (old new : PyText) (count : Nat) : WorkspaceM Nat := do
  if old = [] then raise (.valueError [.text "old must be non-empty"])
  else
    let w ← look
    match w.place.refusal with
    | some e => raise e
    | none => editFile old new count

/-- The file after an edit of its text: a call that raises leaves it, and one that returns made
exactly the replacements it reports. -/
def EditsExactly (w : Workspace) (text old new : PyText) (count : Nat) :
    EStateM.Result Fault (Faulty Workspace) Nat → Prop
  | .ok n s => n = editCount old text count ∧
      encodeText (edited old new text count) = some s.disk.bytes
  | .error (.raised _) s => s.disk.bytes = w.bytes
  | .error .died _ => True

section Edits

variable {old new text : PyText} {count : Nat}

theorem edited_eq_replaceUpTo (old new text : PyText) (count : Nat) : ∃ limit,
    edited old new text count = replaceUpTo old new text limit ∧
      editCount old text count = min limit (occurrences old text) := by
  by_cases hcount : count = 0
  · refine ⟨occurrences old text, ?_, ?_⟩
    · rw [edited, if_pos hcount]
      exact (replaceUpToFrom_eq text 0 _ (Nat.le_refl _)).symm
    · rw [editCount, if_pos hcount, Nat.min_self]
  · exact ⟨count, by rw [edited, if_neg hcount], by rw [editCount, if_neg hcount]⟩

theorem editCount_eq_zero (hold : old ≠ []) : editCount old text count = 0 ↔ ¬old <:+: text := by
  rw [← occurrences_eq_zero text hold, editCount]
  split_ifs with hcount
  · exact Iff.rfl
  · omega

/-- Without an occurrence nothing changes. -/
theorem edited_unfound (hold : old ≠ []) (h : ¬old <:+: text) :
    edited old new text count = text := by
  obtain ⟨limit, hedited, -⟩ := edited_eq_replaceUpTo old new text count
  have hnone : occurrencesFrom old text 0 ≤ limit := by
    rw [← occurrences, (occurrences_eq_zero text hold).mpr h]
    exact Nat.zero_le limit
  rw [hedited, replaceUpTo, replaceUpToFrom_eq text 0 limit hnone, ← replaceAll,
    replaceAll_of_not_infix old new text h]

theorem count_edited (x : PyChar) (hold : old ≠ []) (hx : x ∉ old) :
    (edited old new text count).count x =
      text.count x + editCount old text count * new.count x := by
  obtain ⟨limit, hedited, hn⟩ := edited_eq_replaceUpTo old new text count
  rw [hedited, hn]
  exact count_replaceUpToFrom x hold hx text 0 limit List.not_mem_nil

theorem encodable_iff (s : PyText) : s.encodable = true ↔ ∀ n, .surrogate n ∉ s := by
  rw [PyText.encodable, List.all_eq_true]
  constructor
  · intro h n hn
    exact Bool.false_ne_true (h _ hn)
  · intro h c hc
    cases c with
    | scalar c => rfl
    | surrogate n => exact absurd hc (h n)

theorem encodeText_eq_some {s : PyText} {bytes : ByteArray} (h : encodeText s = some bytes) :
    ∃ cs : List Char, s = cs.map .scalar ∧ bytes = encodeUtf8 cs := by
  unfold encodeText at h
  split_ifs at h with hs
  refine ⟨s.shown, ?_, (Option.some.inj h).symm⟩
  rw [PyText.shown, List.map_map]
  refine (List.map_id s).symm.trans (List.map_congr_left ?_)
  intro c hc
  cases c with
  | scalar c => rfl
  | surrogate n => exact absurd hc ((encodable_iff s).mp hs n)

theorem shown_scalar (cs : List Char) : PyText.shown (cs.map .scalar) = cs := by
  rw [PyText.shown, List.map_map]
  exact List.map_id cs

theorem encodeText_scalar (cs : List Char) :
    encodeText (cs.map .scalar) = some (encodeUtf8 cs) := by
  have hencodable : PyText.encodable (cs.map .scalar) = true := by
    rw [PyText.encodable, List.all_map]
    exact List.all_eq_true.mpr fun _ _ => rfl
  rw [encodeText, if_pos hencodable, shown_scalar]

theorem encodeText_inj {a b : PyText} {bytes : ByteArray} (ha : encodeText a = some bytes)
    (hb : encodeText b = some bytes) : a = b := by
  obtain ⟨as, rfl, rfl⟩ := encodeText_eq_some ha
  obtain ⟨bs, rfl, hbytes⟩ := encodeText_eq_some hb
  rw [utf8Encode_injective as bs hbytes]

theorem encodeText_decoded {bytes : ByteArray} {cs : List Char} (h : decodeUtf8 bytes = some cs) :
    encodeText (cs.map .scalar) = some bytes := by
  rw [encodeText_scalar, utf8Encode_of_decodeUtf8 bytes cs h]
  rfl

/-- A replacement in a text that UTF-8 can write can be written unless `new` cannot. -/
theorem encodable_edited (hold : old ≠ []) (hfound : old <:+: text)
    (htext : text.encodable = true) :
    (edited old new text count).encodable = true ↔ new.encodable = true := by
  have hn : 0 < editCount old text count :=
    Nat.pos_of_ne_zero fun hzero => (editCount_eq_zero hold).mp hzero hfound
  have hcount (n : Fin 2048) : (edited old new text count).count (.surrogate n) =
      editCount old text count * new.count (.surrogate n) := by
    have hnone : PyChar.surrogate n ∉ text := (encodable_iff text).mp htext n
    rw [count_edited _ hold fun hmem => hnone (hfound.subset hmem),
      List.count_eq_zero.mpr hnone, Nat.zero_add]
  rw [encodable_iff, encodable_iff]
  refine forall_congr' fun n => ?_
  rw [← List.count_eq_zero, ← List.count_eq_zero, hcount, Nat.mul_eq_zero]
  exact ⟨fun h => h.resolve_left hn.ne', .inr⟩

end Edits

section Calls

variable {w : Workspace} {cs : List Char} {old new : PyText} {count : Nat}

/-- What `read_text` gives of a file. -/
def readAs (cs : List Char) : PyText := (universalNewlines cs).map .scalar

theorem triple_readText (h : decodeUtf8 w.bytes = some cs) :
    Triple (· = w) readText (fun text u => text = readAs cs ∧ u = w)
      fun e u => e = .died ∨ u = w := by
  have hread : Triple (· = w) (operationWith fun u : Workspace => (u.bytes, u))
      (fun bytes u => bytes = w.bytes ∧ u = w) fun e u => e = .died ∨ u = w := by
    apply triple_operationWith
    · rintro u rfl
      exact ⟨rfl, rfl⟩
    · exact fun _ hu => .inr hu
    · exact fun _ _ => .inl rfl
  refine triple_bind hread ?_
  intro bytes
  apply triple_each
  rintro u ⟨rfl, rfl⟩
  rw [h]
  exact triple_pure _ fun _ hu => ⟨rfl, hu⟩

/-- The file still holds what it held. -/
def BytesKept (w : Workspace) (e : Fault) (u : Workspace) : Prop := e = .died ∨ u.bytes = w.bytes

theorem triple_keeping {Q : Workspace → Prop} (f : Workspace → Workspace) {P : Workspace → Prop}
    (hp : ∀ u, P u → u.bytes = w.bytes) (hdone : ∀ u, P u → Q (f u)) :
    Triple P (operation f) (fun _ => Q) (BytesKept w) :=
  triple_operation f hdone (fun u hu => .inr (hp u hu)) fun _ _ => .inl rfl

theorem triple_writeTmp (content : PyText) :
    Triple (fun u => u.bytes = w.bytes) (writeTmp content)
      (fun _ u => u.bytes = w.bytes ∧ encodeText content = some (u.tmp.getD u.bytes))
      (BytesKept w) := by
  unfold writeTmp
  cases hbytes : encodeText content with
  | none => exact triple_raise _ fun u hu => .inr hu
  | some bytes => exact triple_keeping _ (fun u hu => hu) fun u hu => ⟨hu, rfl⟩

/-- The file is replaced as a whole or left. -/
theorem triple_atomicWriteText (content : PyText) :
    Triple (fun u => u.bytes = w.bytes) (atomicWriteText content)
      (fun _ u => encodeText content = some u.bytes) (BytesKept w) := by
  have hkept : Triple (fun u => u.bytes = w.bytes) (operation id)
      (fun _ u => u.bytes = w.bytes) (BytesKept w) :=
    triple_keeping id (fun _ hu => hu) fun _ hu => hu
  have hmade : Triple (fun u => u.bytes = w.bytes)
      (operation fun u : Workspace => { u with tmp := some .empty })
      (fun _ u => u.bytes = w.bytes) (BytesKept w) :=
    triple_keeping _ (fun _ hu => hu) fun _ hu => hu
  refine triple_bind hkept ?_
  intro _
  refine triple_bind hmade ?_
  intro _
  refine triple_tryExcept (F := BytesKept w) ?_ (fun _ _ => .inl rfl) ?_
  · refine triple_bind (triple_writeTmp content) ?_
    intro _
    have hsynced : Triple (fun u => u.bytes = w.bytes ∧ encodeText content =
        some (u.tmp.getD u.bytes)) (operation id)
        (fun _ u => u.bytes = w.bytes ∧ encodeText content = some (u.tmp.getD u.bytes))
        (BytesKept w) := triple_keeping id (fun _ hu => hu.1) fun _ hu => hu
    refine triple_bind hsynced ?_
    intro _
    exact triple_keeping _ (fun _ hu => hu.1) fun _ hu => hu.2
  · intro e
    have hdrop : Triple (BytesKept w (.raised e)) dropTmp (fun _ u => u.bytes = w.bytes)
        (BytesKept w) := by
      refine triple_tryExcept (F := BytesKept w) ?_ (fun _ _ => .inl rfl) ?_
      · have hbytes : ∀ u, BytesKept w (.raised e) u → u.bytes = w.bytes :=
          fun u hu => hu.resolve_left fun h => nomatch h
        exact triple_keeping _ hbytes fun u hu => hbytes u hu
      · intro e'
        exact triple_pure _ fun u hu => hu.resolve_left fun h => nomatch h
    refine triple_bind hdrop ?_
    intro _
    exact triple_raise e fun u hu => .inr hu

/-- What `search_replace` does with a file. -/
theorem triple_editFile (h : decodeUtf8 w.bytes = some cs) :
    Triple (· = w) (editFile old new count)
      (fun n u => n = editCount old (readAs cs) count ∧
        (n = 0 ∧ u.bytes = w.bytes ∨
          n ≠ 0 ∧ encodeText (edited old new (readAs cs) count) = some u.bytes))
      (BytesKept w) := by
  refine triple_bind ((triple_readText h).weaken (fun _ hu => hu) (fun _ _ hu => hu) ?_) ?_
  · rintro e u (hdied | rfl)
    · exact .inl hdied
    · exact .inr rfl
  intro original
  apply triple_each
  rintro u ⟨rfl, rfl⟩
  refine triple_ite ?_ ?_
  · intro hzero
    refine triple_pure _ ?_
    rintro v rfl
    exact ⟨hzero.symm, .inl ⟨rfl, rfl⟩⟩
  · intro hsome
    have hwrite : Triple (· = u) (atomicWriteText (edited old new (readAs cs) count))
        (fun _ v => encodeText (edited old new (readAs cs) count) = some v.bytes) (BytesKept u) :=
      (triple_atomicWriteText _).start rfl
    refine triple_bind hwrite ?_
    intro _
    exact triple_pure _ fun v hv => ⟨rfl, .inr ⟨hsome, hv⟩⟩

theorem searchReplace_file (hplace : w.place = .file) (hold : old ≠ [])
    (plan : List Elyra.Outcome) :
    searchReplace old new count ⟨w, plan⟩ = editFile old new count ⟨w, plan⟩ := by
  unfold searchReplace
  rw [if_neg hold, run_bind]
  show (match w.place.refusal with
    | some e => raise e
    | none => editFile old new count) ⟨w, plan⟩ = _
  rw [hplace]
  rfl

/-- A write that nothing disturbs. -/
theorem atomicWriteText_undisturbed {content : PyText} {bytes : ByteArray}
    (h : encodeText content = some bytes) :
    atomicWriteText content ⟨w, []⟩ = .ok () ⟨{ w with bytes, tmp := none }, []⟩ := by
  have hwrite : writeTmp content = operation fun u => { u with tmp := some bytes } := by
    unfold writeTmp
    rw [h]
  unfold atomicWriteText
  rw [hwrite]
  rfl

theorem editFile_undisturbed (h : decodeUtf8 w.bytes = some cs) :
    editFile old new count ⟨w, []⟩ =
      (if editCount old (readAs cs) count = 0 then pure 0
      else do
        atomicWriteText (edited old new (readAs cs) count)
        return editCount old (readAs cs) count : WorkspaceM Nat) ⟨w, []⟩ := by
  have hread : readText ⟨w, []⟩ = .ok (readAs cs) ⟨w, []⟩ := by
    show (match decodeUtf8 w.bytes with
      | some text => (pure ((universalNewlines text).map .scalar) : WorkspaceM PyText)
      | none => raise .unicodeDecodeError) ⟨w, []⟩ = _
    rw [h]
    rfl
  unfold editFile
  rw [run_bind, hread]

theorem editFile_finds_none (h : decodeUtf8 w.bytes = some cs)
    (hnone : editCount old (readAs cs) count = 0) :
    editFile old new count ⟨w, []⟩ = .ok 0 ⟨w, []⟩ := by
  rw [editFile_undisturbed h, if_pos hnone]
  rfl

theorem editFile_finds (h : decodeUtf8 w.bytes = some cs)
    (hsome : editCount old (readAs cs) count ≠ 0) {bytes : ByteArray}
    (hbytes : encodeText (edited old new (readAs cs) count) = some bytes) :
    editFile old new count ⟨w, []⟩ =
      .ok (editCount old (readAs cs) count) ⟨{ w with bytes, tmp := none }, []⟩ := by
  rw [editFile_undisturbed h, if_neg hsome, run_bind, atomicWriteText_undisturbed hbytes]
  rfl

/-- An edit of the text as it was read that is no edit of the text. -/
theorem edits_differ (hold : old ≠ []) (hfound : old <:+: readAs cs) (hreturn : '\r' ∈ cs)
    (hcount : editCount old (readAs cs) count = editCount old (cs.map .scalar) count) :
    edited old new (readAs cs) count ≠ edited old new (cs.map .scalar) count := by
  intro heq
  have hnone : PyChar.scalar '\r' ∉ readAs cs := by
    intro hmem
    obtain ⟨c, hc, hcr⟩ := List.mem_map.mp hmem
    cases hcr
    exact not_mem_universalNewlines cs hc
  have hx : PyChar.scalar '\r' ∉ old := fun hmem => hnone (hfound.subset hmem)
  have hread : (edited old new (readAs cs) count).count (.scalar '\r') =
      (readAs cs).count (.scalar '\r') +
        editCount old (readAs cs) count * new.count (.scalar '\r') := count_edited _ hold hx
  have htext : (edited old new (cs.map .scalar) count).count (.scalar '\r') =
      (cs.map PyChar.scalar).count (.scalar '\r') +
        editCount old (cs.map .scalar) count * new.count (.scalar '\r') := count_edited _ hold hx
  have hpos : 0 < (cs.map PyChar.scalar).count (.scalar '\r') :=
    List.count_pos_iff.mpr (List.mem_map_of_mem hreturn)
  rw [List.count_eq_zero.mpr hnone, hcount] at hread
  rw [← heq, hread] at htext
  omega

theorem infix_readAs_encodable : (readAs cs).encodable = true := by
  rw [encodable_iff]
  intro n hmem
  obtain ⟨c, -, hc⟩ := List.mem_map.mp hmem
  cases hc

/-- `search_replace` edits a UTF-8 file exactly when it has no carriage return, or nothing is found
with or without them, or what is found cannot be written. -/
theorem search_replace_exact_iff (w : Workspace) (cs : List Char)
    (h : decodeUtf8 w.bytes = some cs) (old new : PyText) (hold : old ≠ []) (count : Nat) :
    (∀ plan, EditsExactly w (cs.map .scalar) old new count
      (searchReplace old new count ⟨w, plan⟩)) ↔
    w.place ≠ .file ∨ '\r' ∉ cs ∨
      ¬old <:+: readAs cs ∧ ¬old <:+: cs.map .scalar ∨
      old <:+: readAs cs ∧ new.encodable = false := by
  constructor
  · intro hall
    by_contra hnot
    rw [not_or, not_or, not_or, not_not, not_not] at hnot
    obtain ⟨hplace, hreturn, hsomewhere, hwritable⟩ := hnot
    have hrun := hall []
    rw [searchReplace_file hplace hold] at hrun
    by_cases hfound : old <:+: readAs cs
    · have hnew : new.encodable = true :=
        Bool.eq_true_of_not_eq_false fun hfalse => hwritable ⟨hfound, hfalse⟩
      have hsome : editCount old (readAs cs) count ≠ 0 :=
        fun hzero => (editCount_eq_zero hold).mp hzero hfound
      have hencodes : encodeText (edited old new (readAs cs) count) =
          some (encodeUtf8 (edited old new (readAs cs) count).shown) :=
        if_pos ((encodable_edited hold hfound infix_readAs_encodable).mpr hnew)
      rw [editFile_finds h hsome hencodes] at hrun
      obtain ⟨hn, hbytes⟩ := hrun
      exact edits_differ hold hfound hreturn hn (encodeText_inj hencodes hbytes)
    · have hzero : editCount old (readAs cs) count = 0 := (editCount_eq_zero hold).mpr hfound
      rw [editFile_finds_none h hzero] at hrun
      have hnone : ¬old <:+: cs.map .scalar := (editCount_eq_zero hold).mp hrun.1.symm
      exact hsomewhere ⟨hfound, hnone⟩
  · intro hcond plan
    by_cases hplace : w.place = .file
    · rw [searchReplace_file hplace hold]
      have hedit : Triple (· = w) (editFile old new count) _ (BytesKept w) := triple_editFile h
      have hspec := hedit ⟨w, plan⟩ rfl
      cases hrun : editFile old new count ⟨w, plan⟩ with
      | error e s =>
        rw [hrun] at hspec
        cases e with
        | died => trivial
        | raised e => exact hspec.resolve_left fun h => nomatch h
      | ok n s =>
        rw [hrun] at hspec
        obtain ⟨hn, hbytes⟩ := hspec
        have hunchanged (hzero : n = 0) (hnone : ¬old <:+: cs.map .scalar)
            (hsame : s.disk.bytes = w.bytes) : EditsExactly w (cs.map .scalar) old new count
              (.ok n s) := by
          refine ⟨hzero.trans ((editCount_eq_zero hold).mpr hnone).symm, ?_⟩
          rw [edited_unfound hold hnone, hsame]
          exact encodeText_decoded h
        obtain hplace' | hclean | ⟨hread, htext⟩ | ⟨hfound, hnew⟩ := hcond
        · exact absurd hplace hplace'
        · have hsame : readAs cs = cs.map .scalar := by
            rw [readAs, universalNewlines_eq_self cs hclean]
          rw [hsame] at hn hbytes
          obtain ⟨hzero, hkept⟩ | ⟨-, hwritten⟩ := hbytes
          · exact hunchanged hzero ((editCount_eq_zero hold).mp (hn.symm.trans hzero)) hkept
          · exact ⟨hn, hwritten⟩
        · have hzero : n = 0 := hn.trans ((editCount_eq_zero hold).mpr hread)
          obtain ⟨-, hkept⟩ | ⟨hsome, -⟩ := hbytes
          · exact hunchanged hzero htext hkept
          · exact absurd hzero hsome
        · obtain ⟨hzero, -⟩ | ⟨-, hwritten⟩ := hbytes
          · exact absurd hfound ((editCount_eq_zero hold).mp (hn.symm.trans hzero))
          · unfold encodeText at hwritten
            split_ifs at hwritten with hencodable
            have hyes := (encodable_edited hold hfound infix_readAs_encodable).mp hencodable
            rw [hnew] at hyes
            cases hyes
    · obtain ⟨e, he⟩ : ∃ e, w.place.refusal = some e := by
        cases hw : w.place with
        | file => exact absurd hw hplace
        | outside | media | directory | missing => exact ⟨_, rfl⟩
      have hraises : searchReplace old new count ⟨w, plan⟩ = .error (.raised e) ⟨w, plan⟩ := by
        unfold searchReplace
        rw [if_neg hold, run_bind]
        show (match w.place.refusal with
          | some e => raise e
          | none => editFile old new count) ⟨w, plan⟩ = _
        rw [he]
        rfl
      rw [hraises]
      rfl

end Calls

section Sample

/-- `a`, a carriage return, a line feed and `b`. -/
def crlfFile : Workspace := ⟨.file, encodeUtf8 ['a', '\r', '\n', 'b'], none⟩

def plainFile : Workspace := ⟨.file, encodeUtf8 ['a', '\n', 'b'], none⟩

theorem search_replace_exact_sample :
    EditsExactly plainFile [.scalar 'a', .scalar '\n', .scalar 'b'] [.scalar 'b'] [] 0
      (searchReplace [.scalar 'b'] [] 0 ⟨plainFile, []⟩) :=
  (search_replace_exact_iff plainFile ['a', '\n', 'b'] (decodeUtf8_utf8Encode _) [.scalar 'b'] []
    (List.cons_ne_nil _ _) 0).mpr (.inr (.inl (by decide))) []

/-- The line terminator that no edit was asked for is rewritten. -/
theorem line_terminator_rewritten : ¬∀ (w : Workspace) (cs : List Char) (old new : PyText)
    (count : Nat) (plan : List Elyra.Outcome), decodeUtf8 w.bytes = some cs → old ≠ [] →
      EditsExactly w (cs.map .scalar) old new count (searchReplace old new count ⟨w, plan⟩) := by
  intro hall
  have hread : decodeUtf8 crlfFile.bytes = some ['a', '\r', '\n', 'b'] := decodeUtf8_utf8Encode _
  have hrun : EditsExactly crlfFile (['a', '\r', '\n', 'b'].map .scalar) [.scalar 'b'] [.scalar 'c']
      0 (searchReplace [.scalar 'b'] [.scalar 'c'] 0 ⟨crlfFile, []⟩) :=
    hall crlfFile _ _ _ 0 [] hread (List.cons_ne_nil _ _)
  have hwritten : encodeText (edited [.scalar 'b'] [.scalar 'c']
      (readAs ['a', '\r', '\n', 'b']) 0) = some (encodeUtf8 ['a', '\n', 'c']) :=
    encodeText_scalar ['a', '\n', 'c']
  rw [searchReplace_file rfl (List.cons_ne_nil _ _),
    editFile_finds hread (by decide) hwritten] at hrun
  have hsame : edited [.scalar 'b'] [.scalar 'c'] (readAs ['a', '\r', '\n', 'b']) 0 =
      edited [.scalar 'b'] [.scalar 'c'] (['a', '\r', '\n', 'b'].map .scalar) 0 :=
    encodeText_inj hwritten hrun.2
  exact absurd hsame (by decide)

end Sample

end Elyra.Sandbox
