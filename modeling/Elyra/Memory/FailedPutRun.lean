import Elyra.Framework.Json.Tape
import Elyra.Framework.Run
import Elyra.Memory.FailedPut

namespace Elyra.Memory

open Json

/-- The side file of an atom whose body spills. -/
def bodyPath (atomId : String) : List String := pathParts (blobRelpathForAtom atomId).toList

/-- What a side file reads as after it was written. -/
def reread (text : String) : String := .ofList (universalNewlines text.toList)

theorem bodyPath_ne_atomsPath (atomId : String) : bodyPath atomId ≠ atomsPath := by
  have hchars : ∃ rest, (blobRelpathForAtom atomId).toList = "atoms".toList ++ '/' :: rest := by
    refine ⟨blobShard (safeId atomId) ++ "/".toList ++ safeId atomId ++ ".txt".toList, ?_⟩
    unfold blobRelpathForAtom
    simp
  obtain ⟨rest, hrest⟩ := hchars
  have hno : ∀ c ∈ "atoms".toList, (c == '/') = false := by simp
  have hsplit : ("atoms".toList ++ '/' :: rest).splitOn '/' =
      "atoms".toList :: rest.splitOn '/' := List.splitOnP_append_cons_of_forall_mem hno '/' rfl rest
  rw [bodyPath, pathParts, hrest, hsplit, List.map_cons, List.filter_cons_of_pos (by decide)]
  intro h
  have hhead : String.ofList "atoms".toList = "atoms.jsonl" := (List.cons.inj h).1
  exact absurd hhead (by decide)

namespace MemoryDir

variable {d : MemoryDir}

theorem AllText.set (h : d.AllText) (path : List String) (cs : List Char) :
    AllText ⟨d.root, d.files.set path cs.utf8Encode⟩ := by
  intro p bytes hget
  rw [Dict.get?_set] at hget
  split_ifs at hget with hp
  · rw [← Option.some.inj hget, decodeUtf8_utf8Encode]
    exact Option.some_ne_none cs
  · exact h p bytes hget

theorem AllText.pop (h : d.AllText) (path : List String) :
    AllText ⟨d.root, d.files.pop path⟩ := by
  intro p bytes hget
  rw [Dict.get?_pop] at hget
  split_ifs at hget
  exact h p bytes hget

theorem AllText.writeBlob (h : d.AllText) (atomId text : String) :
    (d.writeBlob atomId text).AllText :=
  h.set (bodyPath atomId) text.toList

theorem AllText.unlinkBlobIfAny (h : d.AllText) (contentRef : String) :
    (d.unlinkBlobIfAny contentRef).AllText := by
  rw [MemoryDir.unlinkBlobIfAny]
  cases blobPath d.root contentRef with
  | none => exact h
  | some path => exact h.pop path

theorem AllText.placeBody (h : d.AllText) (settings : MemorySettings) (given capped : Atom) :
    (d.placeBody settings given capped).AllText := by
  rw [MemoryDir.placeBody]
  split_ifs
  · exact h.writeBlob capped.atomId capped.contentText
  · exact h.unlinkBlobIfAny given.contentRef

theorem AllText.atomsFile (h : d.AllText) :
    ∃ cs : List Char, d.atomsFile.bytes = cs.utf8Encode := by
  rw [MemoryDir.atomsFile]
  cases hget : d.files.get? atomsPath with
  | none => exact ⟨[], rfl⟩
  | some bytes =>
    obtain ⟨cs, hcs⟩ := Option.ne_none_iff_exists'.mp (h atomsPath bytes hget)
    exact ⟨cs, utf8Encode_of_decodeUtf8 bytes cs hcs⟩

/-- An append to a text adds its row to those of the text. -/
theorem appendRow_rows (cs : List Char) (kvs : List (String × Json)) : ∃ ds : List Char,
    (JsonlEdgeStore.appendRow kvs ⟨cs.utf8Encode⟩).bytes = ds.utf8Encode ∧
      loadedRows ds = loadedRows cs ++ [.obj kvs] := by
  obtain ⟨ds, hrepaired, hends, hsame⟩ := repaired_text cs
  refine ⟨ds ++ rowText kvs, ?_, ?_⟩
  · have hnewline (b : ByteArray) : b.push 10 = b ++ encodeUtf8 ['\n'] := by
      have hone : ['\n'].utf8Encode = ⟨#[10]⟩ := by decide
      rw [encodeUtf8_eq, hone]
      exact ByteArray.ext (by simp)
    rw [List.utf8Encode_append, ← hrepaired, JsonlEdgeStore.appendRow, repaired, hnewline]
    rfl
  · obtain rfl | ⟨head, rfl⟩ := hends
    · have hempty : cs = [] := by simpa using hsame
      rw [hempty]
      exact loadedRows_rowText kvs
    · have hhead : loadedRows cs = loadedRows head := by
        obtain rfl | hcs := hsame
        · rw [loadedRows_join head [], loadedRows_nil, List.append_nil]
        · rw [List.append_cancel_right hcs]
      rw [List.append_assoc, List.singleton_append, loadedRows_join, loadedRows_rowText, hhead]

theorem AllText.appendAtomRow (h : d.AllText) (row : List (String × Json)) :
    (d.appendAtomRow row).AllText := by
  obtain ⟨cs, hcs⟩ := h.atomsFile
  have hfile : d.atomsFile = ⟨cs.utf8Encode⟩ := by rw [← hcs]
  obtain ⟨ds, hds, -⟩ := appendRow_rows cs row
  rw [MemoryDir.appendAtomRow, setAtomsFile, hfile, hds]
  exact h.set atomsPath ds

/-- An atom that cites the path. -/
def Cites (d : MemoryDir) (path : List String) (b : Atom) : Prop :=
  blobPath d.root b.contentRef = some path

theorem bodied_set (d : MemoryDir) (path : List String) (text : String) (b : Atom) :
    bodied ⟨d.root, d.files.set path (encodeUtf8 text.toList)⟩ b = d.bodied b ↔
      (d.Cites path b → (d.bodied b).contentText = reread text) := by
  unfold Cites
  by_cases hcites : blobPath d.root b.contentRef = some path
  · have hnew : bodied ⟨d.root, d.files.set path (encodeUtf8 text.toList)⟩ b =
        { b with contentText := reread text } := by
      unfold bodied
      dsimp only
      rw [hcites, Option.bind_some, Dict.get?_set_self]
      dsimp only
      rw [encodeUtf8_eq, decodeUtf8_utf8Encode]
      rfl
    rw [hnew, JsonlMemoryStore.bodied_frame d b]
    constructor
    · intro heq _
      exact (congrArg Atom.contentText heq).symm
    · intro htext
      have htext' := htext hcites
      dsimp only at htext'
      rw [htext']
  · have hold : bodied ⟨d.root, d.files.set path (encodeUtf8 text.toList)⟩ b = d.bodied b := by
      unfold bodied
      dsimp only
      cases hpath : blobPath d.root b.contentRef with
      | none => rfl
      | some p =>
        have hne : path ≠ p := by
          rintro rfl
          exact hcites hpath
        rw [Option.bind_some, Option.bind_some, Dict.get?_set_ne d.files _ hne]
    exact ⟨fun _ h => absurd h hcites, fun _ => hold⟩

theorem bodied_pop (d : MemoryDir) (path : List String) (b : Atom) :
    bodied ⟨d.root, d.files.pop path⟩ b = d.bodied b ↔
      (d.Cites path b → (d.bodied b).contentText = b.contentText) := by
  unfold Cites
  by_cases hcites : blobPath d.root b.contentRef = some path
  · have hnew : bodied ⟨d.root, d.files.pop path⟩ b = b := by
      unfold bodied
      dsimp only
      rw [hcites, Option.bind_some, Dict.get?_pop, if_pos rfl]
    rw [hnew]
    constructor
    · intro heq _
      rw [← heq]
    · intro htext
      rw [JsonlMemoryStore.bodied_frame d b, htext hcites]
  · have hold : bodied ⟨d.root, d.files.pop path⟩ b = d.bodied b := by
      unfold bodied
      dsimp only
      cases hpath : blobPath d.root b.contentRef with
      | none => rfl
      | some p =>
        have hne : path ≠ p := by
          rintro rfl
          exact hcites hpath
        rw [Option.bind_some, Option.bind_some, Dict.get?_pop, if_neg hne]
    exact ⟨fun _ h => absurd h hcites, fun _ => hold⟩

end MemoryDir

namespace JsonlMemoryStore

section Failures

/-- The store once the side file of a put is in place and nothing else is. -/
def sidelined (a : Atom) (s : JsonlMemoryStore) : JsonlMemoryStore :=
  match normalizeStamps a with
  | .error _ => s
  | .ok stamped =>
    { s with dir := s.dir.placeBody s.settings stamped (capContent s.settings stamped) }

theorem after_prepare (s : JsonlMemoryStore) (a : Atom) : after (prepare a s) = sidelined a s := by
  rw [prepare, sidelined]
  cases normalizeStamps a with
  | error e => rfl
  | ok stamped =>
    dsimp only
    cases validateAtom _ with
    | error e => rfl
    | ok p => rfl

variable [PyCoerce]

/-- A put that raises because the atom is rejected or because its row cannot be appended, with the
state it leaves. -/
def PutRaises (s : JsonlMemoryStore) (a : Atom) (t : JsonlMemoryStore) : Prop :=
  ∃ appendFails err, (appendFails = true ∨ ∃ e, prepareForPut s.settings a = .error e) ∧
    putAtomWith appendFails a s = .error err t

/-- A delete whose tombstone cannot be appended, with the state it leaves. -/
def DeleteRaises (s : JsonlMemoryStore) (atomId : String) (t : JsonlMemoryStore) : Prop :=
  ∃ err, deleteAtomWith true atomId s = .error err t

theorem PutRaises.state {s t : JsonlMemoryStore} {a : Atom} (h : PutRaises s a t) :
    t = sidelined a s := by
  obtain ⟨appendFails, err, hwhy, hrun⟩ := h
  have hafter := after_prepare s a
  obtain ⟨d, hprepare⟩ := prepare_run s a
  rw [putAtomWith, run_bind] at hrun
  rw [hprepare] at hrun hafter
  cases hp : prepareForPut s.settings a with
  | error e =>
    rw [hp] at hrun hafter
    rw [← hafter]
    exact (EStateM.Result.error.inj hrun).2.symm
  | ok p =>
    rw [hp] at hrun hafter
    obtain htrue | ⟨e, he⟩ := hwhy
    · rw [htrue] at hrun
      rw [← hafter]
      exact (EStateM.Result.error.inj hrun).2.symm
    · rw [hp] at he
      cases he

/-- Every put can fail so. -/
theorem putRaises_sidelined (s : JsonlMemoryStore) (a : Atom) : PutRaises s a (sidelined a s) := by
  have hafter := after_prepare s a
  cases hprepare : prepare a s with
  | error e t =>
    rw [hprepare] at hafter
    refine ⟨true, e, .inl rfl, ?_⟩
    rw [putAtomWith, run_bind, hprepare, ← hafter]
    rfl
  | ok p t =>
    rw [hprepare] at hafter
    refine ⟨true, .osError, .inl rfl, ?_⟩
    rw [putAtomWith, run_bind, hprepare, ← hafter]
    rfl

/-- The side file that a put of `a` writes or unlinks is not one that the stored rows need: a body
it writes reads as what each row that cites the file reads already, and a file it unlinks holds
what each row that cites it says without it. -/
def Harmless (s : JsonlMemoryStore) (a : Atom) : Prop :=
  match normalizeStamps a with
  | .error _ => True
  | .ok stamped =>
    let capped := capContent s.settings stamped
    if spills s.settings capped then
      ∀ rows, keptRows s.dir = .ok rows → ∀ b ∈ rows.values,
        s.dir.Cites (bodyPath capped.atomId) b →
          (s.dir.bodied b).contentText = reread capped.contentText
    else
      match blobPath s.dir.root stamped.contentRef with
      | none => True
      | some path =>
        if path = atomsPath then keptRows s.dir = .ok .empty
        else ∀ rows, keptRows s.dir = .ok rows → ∀ b ∈ rows.values,
          s.dir.Cites path b → (s.dir.bodied b).contentText = b.contentText

/-- What a spilled body has to agree with. -/
theorem Harmless.reads {s : JsonlMemoryStore} {a stamped : Atom} (h : Harmless s a)
    (hstamped : normalizeStamps a = .ok stamped)
    (hspills : spills s.settings (capContent s.settings stamped) = true)
    {rows : Dict String Atom} (hrows : keptRows s.dir = .ok rows) {b : Atom} (hb : b ∈ rows.values)
    (hcites : s.dir.Cites (bodyPath (capContent s.settings stamped).atomId) b) :
    (s.dir.bodied b).contentText = reread (capContent s.settings stamped).contentText := by
  rw [Harmless, hstamped] at h
  dsimp only at h
  rw [if_pos hspills] at h
  exact h rows hrows b hb hcites

theorem undone_dir_iff (s : JsonlMemoryStore) (d : MemoryDir) :
    Undone s { s with dir := d } ↔
      (openStore s.settings d).map (·.byId) = (openStore s.settings s.dir).map (·.byId) :=
  ⟨fun h => h.reopened, fun h => ⟨rfl, rfl, h⟩⟩

/-- Without `atoms.jsonl` a reopen finds nothing. -/
theorem openStore_unlinked (settings : MemorySettings) (d : MemoryDir)
    (h : d.files.get? atomsPath = none) : (openStore settings d).map (·.byId) = .ok .empty := by
  have hbytes : d.atomsFile.bytes = ByteArray.empty := by
    rw [MemoryDir.atomsFile, h]
    rfl
  rw [openStore, hbytes]
  rfl

theorem openStore_empty_iff (settings : MemorySettings) {d : MemoryDir} (h : d.AllText) :
    (openStore settings d).map (·.byId) = .ok .empty ↔ keptRows d = .ok .empty := by
  have hnil (rows : Dict String Atom) : rows = .empty ↔ rows.items = [] := by
    constructor
    · intro heq
      rw [heq]
      rfl
    · intro heq
      cases rows
      cases heq
      rfl
  obtain ⟨rows, loaded, hrows, hopen, hb⟩ | ⟨err, hrows, hopen⟩ := openStore_bodied settings h
  · rw [hrows, hopen, Except.ok.injEq, Except.ok.injEq, hnil, hnil, hb, List.map_eq_nil_iff]
  · rw [hrows, hopen]

theorem sidelined_undone_iff (s : JsonlMemoryStore) (h : s.dir.AllText) (a : Atom) :
    Undone s (sidelined a s) ↔ Harmless s a := by
  rw [sidelined, Harmless]
  cases normalizeStamps a with
  | error e => exact ⟨fun _ => trivial, fun _ => ⟨rfl, rfl, rfl⟩⟩
  | ok stamped =>
    dsimp only
    rw [undone_dir_iff, MemoryDir.placeBody]
    split_ifs with hspills
    · have hatoms : (s.dir.files.set (bodyPath (capContent s.settings stamped).atomId)
          (encodeUtf8 (capContent s.settings stamped).contentText.toList)).get? atomsPath =
            s.dir.files.get? atomsPath :=
        Dict.get?_set_ne s.dir.files _ (bodyPath_ne_atomsPath _)
      rw [openStore_eq_iff s.settings h (h.writeBlob _ _) rfl hatoms]
      have hread := MemoryDir.bodied_set s.dir (bodyPath (capContent s.settings stamped).atomId)
        (capContent s.settings stamped).contentText
      constructor
      · exact fun hall rows hrows b hb => (hread b).mp (hall rows hrows b hb)
      · exact fun hall rows hrows b hb => (hread b).mpr (hall rows hrows b hb)
    · rw [MemoryDir.unlinkBlobIfAny]
      cases blobPath s.dir.root stamped.contentRef with
      | none => exact ⟨fun _ => trivial, fun _ => rfl⟩
      | some path =>
        dsimp only
        split_ifs with hpath
        · have hgone : (s.dir.files.pop path).get? atomsPath = none := by
            rw [Dict.get?_pop, if_pos hpath]
          rw [openStore_unlinked s.settings _ hgone, ← openStore_empty_iff s.settings h]
          exact eq_comm
        · have hatoms : (s.dir.files.pop path).get? atomsPath = s.dir.files.get? atomsPath := by
            rw [Dict.get?_pop, if_neg hpath]
          rw [openStore_eq_iff s.settings h (h.pop path) rfl hatoms]
          have hread := MemoryDir.bodied_pop s.dir path
          constructor
          · exact fun hall rows hrows b hb => (hread b).mp (hall rows hrows b hb)
          · exact fun hall rows hrows b hb => (hread b).mpr (hall rows hrows b hb)

/-- The atom is gone from memory before the tombstone is appended. -/
theorem DeleteRaises.not_undone {s t : JsonlMemoryStore} {atomId : String}
    (h : DeleteRaises s atomId t) : ¬Undone s t := by
  obtain ⟨err, hrun⟩ := h
  rw [deleteAtomWith] at hrun
  intro hundone
  cases hold : s.byId.get? atomId with
  | none =>
    rw [hold] at hrun
    cases hrun
  | some old =>
    rw [hold] at hrun
    have ht := (EStateM.Result.error.inj hrun).2
    have hrow : t.byId.get? atomId = none := by
      rw [← ht]
      show (s.byId.pop atomId).get? atomId = none
      rw [Dict.get?_pop, if_pos rfl]
    rw [hundone.atoms, hold] at hrow
    cases hrow

/-- What a store object goes through. -/
inductive StoreUse where
  | put (a : Atom) (appendFails : Bool)
  | link (atomId : String) (prev next : LinkChange)
  | delete (atomId : String) (appendFails : Bool)
  | compact
  | reopen

def StoreUse.perform (s : JsonlMemoryStore) : StoreUse → JsonlMemoryStore
  | put a appendFails => after (putAtomWith appendFails a s)
  | link atomId prev next => after (updateLinks atomId prev next s)
  | delete atomId appendFails => after (deleteAtomWith appendFails atomId s)
  | compact => s.compact
  | reopen =>
    match openStore s.settings s.dir with
    | .ok t => t
    | .error _ => s

theorem allText_indexPut (s : JsonlMemoryStore) (h : s.dir.AllText) (a : Atom) :
    (after (indexPut a s)).dir.AllText := by
  rw [indexPut_eq]
  obtain hstay | ⟨key, -, hmove⟩ := raiseTip_run (replaced a s) a
  · rw [hstay]
    exact h
  · rw [hmove]
    exact h

theorem allText_putAtomWith (s : JsonlMemoryStore) (h : s.dir.AllText) (a : Atom)
    (appendFails : Bool) : (after (putAtomWith appendFails a s)).dir.AllText := by
  have hsidelined : (after (prepare a s)).dir.AllText := by
    rw [after_prepare, sidelined]
    cases normalizeStamps a with
    | error e => exact h
    | ok stamped => exact h.placeBody s.settings stamped (capContent s.settings stamped)
  rw [putAtomWith, run_bind]
  cases hprepare : prepare a s with
  | error e t =>
    rw [hprepare] at hsidelined
    exact hsidelined
  | ok p t =>
    rw [hprepare] at hsidelined
    cases appendFails with
    | true => exact hsidelined
    | false =>
      show (after ((indexPut p >>= fun _ => pure p : Py JsonlMemoryStore Atom)
        { t with dir := t.dir.appendAtomRow (rowForDisk p) })).dir.AllText
      rw [after_bind_pure]
      exact allText_indexPut _ (MemoryDir.AllText.appendAtomRow hsidelined (rowForDisk p)) p

theorem openStore_frame {settings : MemorySettings} {d : MemoryDir} {s : JsonlMemoryStore}
    (h : openStore settings d = .ok s) : s.settings = settings ∧ s.dir = d := by
  rw [openStore] at h
  cases hdecode : decodeUtf8 d.atomsFile.bytes with
  | none =>
    rw [hdecode] at h
    cases h
  | some cs =>
    rw [hdecode] at h
    obtain ⟨byId, -, h⟩ := except_bind_ok h
    obtain ⟨ladder, -, h⟩ := except_bind_ok h
    rw [← Except.ok.inj h]
    exact ⟨rfl, rfl⟩

theorem allText_perform (s : JsonlMemoryStore) (h : s.dir.AllText) (use : StoreUse) :
    (use.perform s).dir.AllText := by
  cases use with
  | put a appendFails => exact allText_putAtomWith s h a appendFails
  | link atomId prev next =>
    show (after (updateLinks atomId prev next s)).dir.AllText
    rw [updateLinks_eq]
    cases s.byId.get? atomId with
    | none => exact h
    | some a =>
      dsimp only
      split_ifs
      · exact h
      · show (after ((indexPut (LinkChange.applied a prev next) >>= fun _ => pure _ :
          Py JsonlMemoryStore Atom) _)).dir.AllText
        rw [after_bind_pure]
        exact allText_indexPut _ (MemoryDir.AllText.appendAtomRow h _) _
  | delete atomId appendFails =>
    show (after (deleteAtomWith appendFails atomId s)).dir.AllText
    rw [deleteAtomWith]
    cases s.byId.get? atomId with
    | none => exact h
    | some old =>
      have hunlinked := MemoryDir.AllText.unlinkBlobIfAny h old.contentRef
      cases appendFails with
      | true => exact hunlinked
      | false => exact hunlinked.appendAtomRow (tombstone atomId)
  | compact => exact MemoryDir.AllText.set h atomsPath _
  | reopen =>
    show (match openStore s.settings s.dir with
      | .ok t => t
      | .error _ => s).dir.AllText
    cases hopen : openStore s.settings s.dir with
    | error e => exact h
    | ok t =>
      show t.dir.AllText
      rw [(openStore_frame hopen).2]
      exact h

theorem allText_run (uses : List StoreUse) (s : JsonlMemoryStore) (h : s.dir.AllText) :
    (run StoreUse.perform s uses).dir.AllText :=
  run_invariant (fun u : JsonlMemoryStore => u.dir.AllText)
    (fun u use hu => allText_perform u hu use) s uses h

/-- After any use of a store that was opened on a text directory, a raising put leaves things as
they were exactly when its side file is harmless, and a raising delete never does. -/
theorem failed_writes_undone_iff (settings : MemorySettings) (d : MemoryDir) (hd : d.AllText)
    (opened : JsonlMemoryStore) (hopen : openStore settings d = .ok opened)
    (uses : List StoreUse) :
    (∀ a t, PutRaises (run StoreUse.perform opened uses) a t →
      (Undone (run StoreUse.perform opened uses) t ↔
        Harmless (run StoreUse.perform opened uses) a)) ∧
    ∀ atomId t, DeleteRaises (run StoreUse.perform opened uses) atomId t →
      ¬Undone (run StoreUse.perform opened uses) t := by
  have htext : (run StoreUse.perform opened uses).dir.AllText := by
    apply allText_run
    rw [(openStore_frame hopen).2]
    exact hd
  refine ⟨?_, fun atomId t h => h.not_undone⟩
  intro a t h
  rw [h.state]
  exact sidelined_undone_iff _ htext a

end Failures

section Sample

/-- Bodies of more than three characters go to side files. -/
def shortInline : MemorySettings := ⟨8000, 3⟩

def sampleBody (body : String) : Atom :=
  { atomId := "a", tStart := "0001-01-01T00:00:00Z", kind := "tool", contentText := body }

def freshDir : MemoryDir := ⟨[], .empty⟩

def freshStore : JsonlMemoryStore := ⟨shortInline, .empty, .empty, freshDir⟩

theorem freshDir_text : freshDir.AllText := fun _ _ h => nomatch h

/-- One atom put, then the same put with a failing append. -/
theorem failed_writes_undone_sample :
    let s := @run _ _ (@StoreUse.perform basicCoerce) freshStore [.put (sampleBody "first") false]
    @Undone basicCoerce s (sidelined (sampleBody "first") s) ↔
      @Harmless basicCoerce s (sampleBody "first") :=
  (@failed_writes_undone_iff basicCoerce shortInline freshDir freshDir_text freshStore
    (by rfl) [.put (sampleBody "first") false]).1 (sampleBody "first") _
    (@putRaises_sidelined basicCoerce _ (sampleBody "first"))

def storedRow : String :=
  "\x7b\"atom_id\":\"a\",\"t_start\":\"0001\",\"kind\":\"tool\"," ++
    "\"content_ref\":\"blob:atoms/a/a.txt\"\x7d"

/-- A directory with one stored row and its side file. -/
def storedDir : MemoryDir :=
  ⟨[], (Dict.empty.set atomsPath (encodeUtf8 storedRow.toList)).set (bodyPath "a")
    (encodeUtf8 "first".toList)⟩

theorem storedDir_text : storedDir.AllText :=
  (freshDir_text.set atomsPath storedRow.toList).set (bodyPath "a") "first".toList


/-- What the next put writes over the side file. -/
theorem sampleBody_normalized : ∃ stamped, normalizeStamps (sampleBody "other") = .ok stamped ∧
    spills shortInline (capContent shortInline stamped) = true ∧
    (capContent shortInline stamped).atomId = "a" ∧
    (capContent shortInline stamped).contentText = "other" :=
  ⟨_, by rfl, by decide, by decide, by decide⟩

theorem storedDir_rows :
    ((@keptRows basicCoerce storedDir).toOption.map fun rows => rows.values.map fun b =>
      (blobPath storedDir.root b.contentRef, (storedDir.bodied b).contentText)) =
        some [(some (bodyPath "a"), "first")] := by
  decide +kernel

/-- The new body overwrites the side file of the stored one before the append fails. -/
theorem failed_put_overwrites_body :
    ¬ ∀ (_ : PyCoerce) (settings : MemorySettings) (d : MemoryDir) (opened : JsonlMemoryStore)
      (uses : List StoreUse), d.AllText → openStore settings d = .ok opened →
        let s := run StoreUse.perform opened uses
        (∀ a t, PutRaises s a t → Undone s t) ∧ ∀ atomId t, DeleteRaises s atomId t → Undone s t := by
  intro h
  have hkept := storedDir_rows
  obtain ⟨rows, loaded, hrows, hopen, -⟩ | ⟨err, hrows, -⟩ :=
    @openStore_bodied storedDir basicCoerce shortInline storedDir_text
  · rw [hrows] at hkept
    have hvalues : rows.values.map (fun b =>
        (blobPath storedDir.root b.contentRef, (storedDir.bodied b).contentText)) =
          [(some (bodyPath "a"), "first")] := Option.some.inj hkept
    obtain ⟨b, hb, hpath, hbody⟩ : ∃ b ∈ rows.values,
        blobPath storedDir.root b.contentRef = some (bodyPath "a") ∧
          (storedDir.bodied b).contentText = "first" := by
      obtain ⟨b, hb, hrow⟩ := List.mem_map.mp (hvalues ▸ List.mem_cons_self)
      obtain ⟨hpath, hbody⟩ := Prod.mk.inj hrow
      exact ⟨b, hb, hpath, hbody⟩
    cases hopened : @openStore basicCoerce shortInline storedDir with
    | error err =>
      rw [hopened] at hopen
      cases hopen
    | ok opened =>
      have hputs := (h basicCoerce shortInline storedDir opened [] storedDir_text hopened).1
      have hundone := hputs (sampleBody "other") _
        (@putRaises_sidelined basicCoerce opened (sampleBody "other"))
      obtain ⟨hsettings, hdir⟩ := @openStore_frame basicCoerce _ _ _ hopened
      have htext : opened.dir.AllText := by
        rw [hdir]
        exact storedDir_text
      have hharmless := (@sidelined_undone_iff basicCoerce opened htext (sampleBody "other")).mp
        hundone
      obtain ⟨stamped, hstamped, hspills, hid, hbodyText⟩ := sampleBody_normalized
      rw [← hsettings] at hspills hid hbodyText
      rw [← hdir] at hrows hpath hbody
      have hcites : opened.dir.Cites (bodyPath (capContent opened.settings stamped).atomId) b := by
        rw [hid]
        exact hpath
      have hread := @Harmless.reads basicCoerce _ _ _ hharmless hstamped hspills _ hrows _ hb hcites
      rw [hbodyText, hbody] at hread
      exact absurd hread (by decide)
  · rw [hrows] at hkept
    cases hkept

end Sample
end JsonlMemoryStore
end Elyra.Memory
