import Elyra.Memory.FailedPutRun

namespace Elyra.Memory

open Json JsonlMemoryStore

/-- The atoms agree in their id and in all that the tips depend on. -/
structure SameTip (a b : Atom) : Prop where
  atomId : a.atomId = b.atomId
  tipKey : a.tipKey = b.tipKey
  metadata : a.metadata = b.metadata

/-- The tables hold such atoms under the same ids. -/
structure SameTips (rows live : Dict String Atom) : Prop where
  isLive : ∀ id b, rows.get? id = some b → ∃ a, live.get? id = some a ∧ SameTip b a
  onDisk : ∀ id a, live.get? id = some a → ∃ b, rows.get? id = some b ∧ SameTip b a

/-- An atom that a row of `atoms.jsonl` can hold. -/
structure Holdable (a : Atom) : Prop where
  atomId : a.atomId ≠ ""
  tStart : a.tStart ≠ ""
  kind : a.kind ∈ atomKinds

section Tables

variable {rows live : Dict String Atom} {a b : Atom}

theorem SameTips.set (h : SameTips rows live) (hab : SameTip b a) :
    SameTips (rows.set b.atomId b) (live.set a.atomId a) := by
  rw [hab.atomId]
  refine ⟨fun id x hx => ?_, fun id x hx => ?_⟩
  · rw [Dict.get?_set] at hx ⊢
    split_ifs at hx ⊢ with hid
    · exact ⟨a, rfl, by rwa [← Option.some.inj hx]⟩
    · exact h.isLive id x hx
  · rw [Dict.get?_set] at hx ⊢
    split_ifs at hx ⊢ with hid
    · exact ⟨b, rfl, by rwa [← Option.some.inj hx]⟩
    · exact h.onDisk id x hx

theorem SameTips.pop (h : SameTips rows live) (atomId : String) :
    SameTips (rows.pop atomId) (live.pop atomId) := by
  refine ⟨fun id x hx => ?_, fun id x hx => ?_⟩
  · rw [Dict.get?_pop] at hx ⊢
    split_ifs at hx ⊢ with hid
    exact h.isLive id x hx
  · rw [Dict.get?_pop] at hx ⊢
    split_ifs at hx ⊢ with hid
    exact h.onDisk id x hx

theorem Holdable.set {d : Dict String Atom} (h : ∀ id x, d.get? id = some x → Holdable x)
    (ha : Holdable a) : ∀ id x, (d.set a.atomId a).get? id = some x → Holdable x := by
  intro id x hx
  rw [Dict.get?_set] at hx
  split_ifs at hx with hid
  · rwa [← Option.some.inj hx]
  · exact h id x hx

theorem Holdable.pop {d : Dict String Atom} (h : ∀ id x, d.get? id = some x → Holdable x)
    (atomId : String) : ∀ id x, (d.pop atomId).get? id = some x → Holdable x := by
  intro id x hx
  rw [Dict.get?_pop] at hx
  split_ifs at hx
  exact h id x hx

end Tables

section Rows

variable [PyCoerce] {a : Atom}

theorem normalizeTs_optField {ts : Option String} (h : stampIso ts = .ok ts) :
    ∃ read, normalizeTs (some (optField ts)) = .ok read ∧ (read = ts ∨ ts = some "" ∧ read = none) := by
  cases ts with
  | none => exact ⟨none, rfl, .inl rfl⟩
  | some s =>
    by_cases hs : s = ""
    · subst hs
      exact ⟨none, rfl, .inr ⟨rfl, rfl⟩⟩
    · refine ⟨some s, ?_, .inl rfl⟩
      rw [stampIso, if_neg hs] at h
      show normalizeTs (some (.str s)) = _
      rw [normalizeTs]
      · exact h
      · intro hempty
        exact hs hempty

/-- A row on disk reads back with the id, the tip key and the metadata of its atom. -/
theorem atomFromDict_atomRow (h : Holdable a) (hstamps : StampsFixed a) (text : String) :
    ∃ b, atomFromDict (atomRow a text) = .ok b ∧ SameTip b a := by
  obtain ⟨tEnd, hend, -⟩ := normalizeTs_optField hstamps.tEnd
  obtain ⟨windowStart, hwindow, hread⟩ := normalizeTs_optField hstamps.windowStart
  obtain ⟨windowEnd, hwindowEnd, -⟩ := normalizeTs_optField hstamps.windowEnd
  obtain ⟨sourceBeatTs, hbeat, -⟩ := normalizeTs_optField hstamps.sourceBeatTs
  have htext (ts : Option String) : textField (some (optField ts)) = .ok ts := by
    cases ts <;> rfl
  have hid : requireText (atomRow a text) "atom_id" "atom_id required" = .ok a.atomId := if_neg h.atomId
  have hstart : requireText (atomRow a text) "t_start" "t_start required" = .ok a.tStart :=
    if_neg h.tStart
  have hkind : atomKindOf (some (.str a.kind)) = .ok a.kind := if_pos h.kind
  have hversion : ∃ n, atomVersionOf (some (.int a.schemaVersion)) = .ok n := by
    rw [atomVersionOf]
    split_ifs
    · exact ⟨_, rfl⟩
    · exact ⟨_, rfl⟩
  obtain ⟨n, hn⟩ := hversion
  have hbind {α β : Type} (x : α) (f : α → Except PyErr β) : (Except.ok x >>= f) = f x := rfl
  have hmeta : atomMetaOf (some (.obj a.metadata.items)) = a.metadata := Dict.ofList_items _
  have hlookup (field : String) (v : Json)
      (hfield : ((atomRow a text).reverse.find? (fun p => p.1 = field)).map Prod.snd = some v) :
      lookup (atomRow a text) field = some v := hfield
  obtain ⟨b, hb, hbid, hbkind, hbscale, hbwindow, hbmeta⟩ : ∃ b,
      atomFromDict (atomRow a text) = .ok b ∧ b.atomId = a.atomId ∧ b.kind = a.kind ∧
        b.scale = a.scale ∧ b.windowStart = windowStart ∧ b.metadata = a.metadata := by
    unfold atomFromDict
    simp only [hid, hstart, hbind, hstamps.tStart, hlookup "kind" _ rfl, hkind,
      hlookup "media_ids" _ rfl, hlookup "embedding_status" _ rfl, hlookup "t_end" _ rfl, hend,
      hlookup "moment_id" _ rfl, hlookup "prev_atom_id" _ rfl, hlookup "next_atom_id" _ rfl,
      hlookup "parent_atom_id" _ rfl, hlookup "scale" _ rfl, hlookup "window_start" _ rfl, hwindow,
      hlookup "window_end" _ rfl, hwindowEnd, hlookup "source_beat_ts" _ rfl, hbeat,
      hlookup "source_beat_type" _ rfl, hlookup "schema_version" _ rfl, hn, htext,
      hlookup "meta" _ rfl, hmeta, mediaIdsOf, embeddingStatusOf]
    exact ⟨_, rfl, rfl, rfl, rfl, rfl, rfl⟩
  refine ⟨b, hb, hbid, ?_, hbmeta⟩
  rw [Atom.tipKey, Atom.tipKey, hbkind, hbscale, hbwindow]
  obtain rfl | ⟨hempty, rfl⟩ := hread
  · rfl
  · rw [hempty]
    cases a.scale <;> simp

omit [PyCoerce] in
theorem lookup_deleted (a : Atom) : lookup (rowForDisk a) "_deleted" = none := by
  rw [rowForDisk, atomToDict]
  split_ifs <;> rfl

theorem loadRow_rowForDisk (d : MemoryDir) (rows : Dict String Atom) (h : Holdable a)
    (hstamps : StampsFixed a) :
    ∃ b, loadRow d.bare rows (.obj (rowForDisk a)) = .ok (rows.set b.atomId b) ∧ SameTip b a := by
  obtain ⟨text, htext⟩ : ∃ text, rowForDisk a = atomRow a text := by
    rw [rowForDisk, atomToDict]
    split_ifs
    · exact ⟨_, rfl⟩
    · exact ⟨_, rfl⟩
  obtain ⟨b, hb, hsame⟩ := atomFromDict_atomRow h hstamps text
  refine ⟨b, ?_, hsame⟩
  have hread : (atomFromDict (rowForDisk a) >>= hydrateContent d.bare) = .ok b := by
    rw [htext, hb]
    exact hydrate_bare d b
  rw [loadRow_obj, lookup_deleted, if_neg (by simp), hread]

theorem loadRow_tombstone (d : MemoryDir) (rows : Dict String Atom) {atomId : String}
    (h : atomId ≠ "") : loadRow d rows (.obj (JsonlMemoryStore.tombstone atomId)) =
      .ok (rows.pop atomId) := by
  show Except.ok (if atomId = "" then rows else rows.pop atomId) = _
  rw [if_neg h]

theorem foldlM_rowForDisk (d : MemoryDir) (atoms : List Atom)
    (h : ∀ a ∈ atoms, Holdable a ∧ StampsFixed a) (rows : Dict String Atom) :
    ∃ rows', (atoms.map fun a => Json.obj (rowForDisk a)).foldlM (loadRow d.bare) rows = .ok rows' ∧
      ∀ id, (∃ a ∈ atoms, a.atomId = id ∧ ∃ b, rows'.get? id = some b ∧ SameTip b a) ∨
        (id ∉ atoms.map Atom.atomId ∧ rows'.get? id = rows.get? id) := by
  induction atoms generalizing rows with
  | nil => exact ⟨rows, rfl, fun id => .inr ⟨List.not_mem_nil, rfl⟩⟩
  | cons a atoms ih =>
    obtain ⟨ha, hstamps⟩ := h a List.mem_cons_self
    obtain ⟨b, hload, hsame⟩ := loadRow_rowForDisk d rows ha hstamps
    obtain ⟨rows', hfold, hrows⟩ :=
      ih (fun x hx => h x (List.mem_cons_of_mem a hx)) (rows.set b.atomId b)
    refine ⟨rows', ?_, fun id => ?_⟩
    · rw [List.map_cons, List.foldlM_cons, hload]
      exact hfold
    · obtain ⟨x, hx, hid, hrow⟩ | ⟨hnot, hkept⟩ := hrows id
      · exact .inl ⟨x, List.mem_cons_of_mem a hx, hid, hrow⟩
      · by_cases hid : a.atomId = id
        · left
          refine ⟨a, List.mem_cons_self, hid, b, ?_, hsame⟩
          rw [hkept, Dict.get?_set, if_pos (hsame.atomId.trans hid)]
        · right
          refine ⟨?_, ?_⟩
          · rw [List.map_cons, List.mem_cons, not_or]
            exact ⟨Ne.symm hid, hnot⟩
          · rw [hkept, Dict.get?_set, if_neg (fun heq => hid (hsame.atomId.symm.trans heq))]

theorem holdable_of_fromDict {kvs : List (String × Json)} (h : atomFromDict kvs = .ok a) :
    Holdable a := by
  obtain ⟨hid, ⟨raw, hraw, hstart⟩, hkind⟩ := atomFromDict_ok h
  have hrequired {field msg text : String} (hf : requireText kvs field msg = .ok text) :
      text ≠ "" := by
    rw [requireText.eq_def] at hf
    split at hf
    · split_ifs at hf with hempty
      rwa [← Except.ok.inj hf]
    · cases hf
  refine ⟨hrequired hid, ?_, ?_⟩
  · obtain hsame | ⟨t, ht⟩ := isoOr_shape raw raw a.tStart hstart
    · rw [hsame]
      exact hrequired hraw
    · rw [ht]
      exact isoZ_ne_empty t
  · rw [atomKindOf.eq_def] at hkind
    split at hkind
    · split_ifs at hkind with hmem
      rwa [← Except.ok.inj hkind]
    · cases hkind

theorem loadRow_holdable (d : MemoryDir) {rows rows' : Dict String Atom} {row : Json}
    (hrows : ∀ id x, rows.get? id = some x → Holdable x) (h : loadRow d.bare rows row = .ok rows') :
    ∀ id x, rows'.get? id = some x → Holdable x := by
  cases row with
  | obj kvs =>
    rw [loadRow_obj] at h
    by_cases hdel : lookup kvs "_deleted" = some (.bool true)
    · rw [if_pos hdel] at h
      cases hid : lookup kvs "atom_id" with
      | none =>
        rw [hid] at h
        rwa [← Except.ok.inj h]
      | some v =>
        rw [hid] at h
        cases v with
        | str id =>
          dsimp only at h
          rw [← Except.ok.inj h]
          split_ifs
          · exact hrows
          · exact Holdable.pop hrows id
        | null | bool | int | float | arr | obj => rwa [← Except.ok.inj h]
    · rw [if_neg hdel] at h
      cases hread : atomFromDict kvs with
      | ok a =>
        have hbare : (Except.ok a >>= hydrateContent d.bare) = .ok a := hydrate_bare d a
        rw [hread, hbare] at h
        rw [← Except.ok.inj h]
        exact Holdable.set hrows (holdable_of_fromDict hread)
      | error err =>
        rw [hread] at h
        cases err with
        | valueError | unicodeDecodeError | typeError => rwa [← Except.ok.inj h]
        | keyError | osError | overflowError | recursionError => cases h
  | null | bool | int | float | str | arr => rwa [← Except.ok.inj h]

theorem foldlM_loadRow_holdable (d : MemoryDir) (lines : List Json) {rows rows' : Dict String Atom}
    (hrows : ∀ id x, rows.get? id = some x → Holdable x)
    (h : lines.foldlM (loadRow d.bare) rows = .ok rows') :
    ∀ id x, rows'.get? id = some x → Holdable x := by
  induction lines generalizing rows with
  | nil => rwa [← Except.ok.inj h]
  | cons line lines ih =>
    rw [List.foldlM_cons] at h
    obtain ⟨next, hnext, h⟩ := except_bind_ok h
    exact ih (loadRow_holdable d hrows hnext) h

end Rows

section Disk

variable [PyCoerce] {s : JsonlMemoryStore} {d : MemoryDir} {rows : Dict String Atom}

/-- The rows of `atoms.jsonl` have the tips of the live atoms. -/
structure OnDisk (s : JsonlMemoryStore) : Prop where
  text : s.dir.AllText
  rows : ∃ rows, storedRows s.dir = .ok rows ∧ SameTips rows s.byId
  holdable : ∀ id a, s.byId.get? id = some a → Holdable a

theorem storedRows_append (h : d.AllText) (hrows : storedRows d = .ok rows)
    (kvs : List (String × Json)) :
    storedRows (d.appendAtomRow kvs) = loadRow d.bare rows (.obj kvs) := by
  obtain ⟨cs, hcs⟩ := h.atomsFile
  have hfile : d.atomsFile = ⟨cs.utf8Encode⟩ := by rw [← hcs]
  obtain ⟨ds, hds, hlines⟩ := MemoryDir.appendRow_rows cs kvs
  have hnew : (d.appendAtomRow kvs).atomsFile.bytes = ds.utf8Encode := by
    rw [MemoryDir.appendAtomRow, MemoryDir.setAtomsFile, MemoryDir.atomsFile, Dict.get?_set_self, hfile,
      hds]
    rfl
  rw [storedRows, hcs, decodeUtf8_utf8Encode] at hrows
  rw [storedRows, hnew, decodeUtf8_utf8Encode]
  dsimp only at hrows ⊢
  rw [hlines, List.foldlM_append]
  show ((loadedRows cs).foldlM (loadRow d.bare) .empty >>= _) = _
  rw [hrows]
  show (loadRow d.bare rows (.obj kvs) >>= pure) = _
  rw [bind_pure]

/-- Side files of other paths do not matter to the rows. -/
theorem storedRows_congr {e : MemoryDir} (hroot : e.root = d.root)
    (hfile : e.files.get? atomsPath = d.files.get? atomsPath) : storedRows e = storedRows d := by
  rw [storedRows, storedRows, MemoryDir.atomsFile, MemoryDir.atomsFile, MemoryDir.bare,
    MemoryDir.bare, hroot, hfile]

theorem storedRows_unlink {ref : String} (h : blobPath d.root ref ≠ some atomsPath) :
    storedRows (d.unlinkBlobIfAny ref) = storedRows d := by
  rw [MemoryDir.unlinkBlobIfAny]
  cases hpath : blobPath d.root ref with
  | none => rfl
  | some path =>
    apply storedRows_congr
    · rfl
    · refine (Dict.get?_pop d.files path atomsPath).trans (if_neg ?_)
      rintro rfl
      exact h hpath

theorem storedRows_placeBody {settings : MemorySettings} {given capped : Atom}
    (h : spills settings capped = false → blobPath d.root given.contentRef ≠ some atomsPath) :
    storedRows (d.placeBody settings given capped) = storedRows d := by
  rw [MemoryDir.placeBody]
  split_ifs with hspills
  · apply storedRows_congr
    · rfl
    · exact Dict.get?_set_ne d.files _ (bodyPath_ne_atomsPath capped.atomId)
  · exact storedRows_unlink (h (by simpa using hspills))

omit [PyCoerce] in
theorem sameTip_bodied (d : MemoryDir) (a : Atom) : SameTip (d.bodied a) a := by
  rw [bodied_frame]
  exact ⟨rfl, rfl, rfl⟩

/-- A put unlinks no `atoms.jsonl`: its body spills, or its locator names another file. -/
def SparesAtoms (s : JsonlMemoryStore) (a : Atom) : Prop :=
  ∀ stamped, normalizeStamps a = .ok stamped →
    spills s.settings (capContent s.settings stamped) = false →
    blobPath s.dir.root stamped.contentRef ≠ some atomsPath

theorem OnDisk.opened {settings : MemorySettings} (hd : d.AllText)
    (h : openStore settings d = .ok s) : OnDisk s := by
  have hdir := (openStore_frame h).2
  obtain ⟨rows, loaded, hkept, hopen, hb⟩ | ⟨err, -, hopen⟩ := openStore_bodied settings hd
  · rw [h] at hopen
    obtain rfl := Except.ok.inj hopen
    obtain ⟨rows', hrows, hrest⟩ := except_bind_ok hkept
    obtain ⟨-, -, hsame⟩ := except_bind_ok hrest
    obtain rfl := Except.ok.inj hsame
    have hframe (b : Atom) : SameTip b (d.bodied b) := by
      rw [bodied_frame]
      exact ⟨rfl, rfl, rfl⟩
    have hholdable : ∀ id b, rows'.get? id = some b → Holdable b := by
      have hfold := hrows
      rw [storedRows] at hfold
      cases htext : decodeUtf8 d.atomsFile.bytes with
      | none =>
        rw [htext] at hfold
        cases hfold
      | some cs =>
        rw [htext] at hfold
        exact foldlM_loadRow_holdable d (loadedRows cs)
          (fun id x hnone => absurd hnone (by simp)) hfold
    refine ⟨by rwa [hdir], ⟨rows', by rwa [hdir], fun id b hrow => ?_, fun id a ha => ?_⟩,
      fun id a ha => ?_⟩
    · refine ⟨d.bodied b, ?_, hframe b⟩
      show s.byId.get? id = _
      rw [hb.get?, hrow]
      rfl
    · rw [hb.get?] at ha
      obtain ⟨b, hrow, rfl⟩ := Option.map_eq_some_iff.mp ha
      exact ⟨b, hrow, hframe b⟩
    · rw [hb.get?] at ha
      obtain ⟨b, hrow, rfl⟩ := Option.map_eq_some_iff.mp ha
      have hold := hholdable id b hrow
      rw [bodied_frame]
      exact ⟨hold.atomId, hold.tStart, hold.kind⟩
  · rw [h] at hopen
    cases hopen

/-- A row is appended and its atom indexed. -/
theorem OnDisk.write (h : OnDisk s) {p : Atom} (hp : Holdable p) (hstamps : StampsFixed p) :
    OnDisk (after (indexPut p { s with dir := s.dir.appendAtomRow (rowForDisk p) })) := by
  have hindexed : ∀ t : JsonlMemoryStore, (after (indexPut p t)).dir = t.dir ∧
      (after (indexPut p t)).byId = t.byId.set p.atomId p := by
    intro t
    rw [indexPut_eq]
    obtain hstay | ⟨key, -, hmove⟩ := raiseTip_run (replaced p t) p
    · rw [hstay]
      exact ⟨rfl, rfl⟩
    · rw [hmove]
      exact ⟨rfl, rfl⟩
  obtain ⟨rows, hrows, hsame⟩ := h.rows
  obtain ⟨b, hload, htip⟩ := loadRow_rowForDisk s.dir rows hp hstamps
  obtain ⟨hdir, hbyId⟩ := hindexed { s with dir := s.dir.appendAtomRow (rowForDisk p) }
  refine ⟨?_, ⟨rows.set b.atomId b, ?_, ?_⟩, ?_⟩
  · rw [hdir]
    exact h.text.appendAtomRow (rowForDisk p)
  · rw [hdir]
    exact (storedRows_append h.text hrows (rowForDisk p)).trans hload
  · rw [hbyId]
    exact hsame.set htip
  · rw [hbyId]
    exact Holdable.set h.holdable hp

theorem OnDisk.sidelined (h : OnDisk s) {a : Atom} (hspares : SparesAtoms s a) :
    OnDisk (sidelined a s) := by
  unfold JsonlMemoryStore.sidelined
  cases hstamped : normalizeStamps a with
  | error e => exact h
  | ok stamped =>
    obtain ⟨rows, hrows, hsame⟩ := h.rows
    exact ⟨h.text.placeBody s.settings stamped _,
      ⟨rows, (storedRows_placeBody (hspares stamped hstamped)).trans hrows, hsame⟩, h.holdable⟩

omit [PyCoerce] in
theorem prepared_holdable {settings : MemorySettings} {a p : Atom}
    (h : prepareForPut settings a = .ok p) : Holdable p ∧ StampsFixed p := by
  constructor
  · obtain ⟨stamped, -, h⟩ := except_bind_ok h
    have hp := validateAtom_eq _ _ h
    rw [← hp, validateAtom] at h
    split_ifs at h with hid hstart hkind
    exact ⟨hid, hstart, hkind⟩
  · obtain ⟨stamped, hstamped, rfl⟩ := prepareForPut_eq settings a p h
    exact stampsFixed_prepared settings stamped (stampsFixed_of_normalize a stamped hstamped)

theorem OnDisk.putAtom (h : OnDisk s) {a : Atom} (hspares : SparesAtoms s a) :
    OnDisk (after (putAtom a s)) := by
  have hside := h.sidelined hspares
  have hafter := after_prepare s a
  obtain ⟨d, hrun⟩ := prepare_run s a
  rw [JsonlMemoryStore.putAtom, run_bind]
  cases hp : prepareForPut s.settings a with
  | error e =>
    rw [hp] at hrun
    rw [hrun] at hafter ⊢
    rw [← hafter] at hside
    exact hside
  | ok p =>
    rw [hp] at hrun
    rw [hrun] at hafter ⊢
    rw [← hafter] at hside
    obtain ⟨hholdable, hstamps⟩ := prepared_holdable hp
    show OnDisk (after ((indexPut p >>= fun _ => pure p : Py JsonlMemoryStore Atom) _))
    rw [after_bind_pure]
    exact hside.write hholdable hstamps

theorem OnDisk.updateLinks (h : OnDisk s) {atomId : String} (prev next : LinkChange)
    (hstamps : ∀ a, s.byId.get? atomId = some a → StampsFixed a) :
    OnDisk (after (updateLinks atomId prev next s)) := by
  rw [updateLinks_eq]
  cases ha : s.byId.get? atomId with
  | none => exact h
  | some a =>
    dsimp only
    split_ifs
    · exact h
    · have hold := h.holdable atomId a ha
      have hfixed := hstamps a ha
      show OnDisk (after ((indexPut (LinkChange.applied a prev next) >>= fun _ => pure _ :
        Py JsonlMemoryStore Atom) _))
      rw [after_bind_pure]
      exact h.write ⟨hold.atomId, hold.tStart, hold.kind⟩
        ⟨hfixed.tStart, hfixed.tEnd, hfixed.windowStart, hfixed.windowEnd, hfixed.sourceBeatTs⟩

theorem OnDisk.deleteAtom (h : OnDisk s) (hs : Indexed s) {atomId : String}
    (hspares : ∀ old, s.byId.get? atomId = some old →
      blobPath s.dir.root old.contentRef ≠ some atomsPath) :
    OnDisk (after (deleteAtom atomId s)) := by
  rw [JsonlMemoryStore.deleteAtom]
  cases hold : s.byId.get? atomId with
  | none => exact h
  | some old =>
    obtain ⟨rows, hrows, hsame⟩ := h.rows
    have hid : atomId ≠ "" := by
      rw [← hs.keyed atomId old hold]
      exact (h.holdable atomId old hold).atomId
    have htext := h.text.unlinkBlobIfAny old.contentRef
    have hunlinked := (storedRows_unlink (hspares old hold)).trans hrows
    refine ⟨htext.appendAtomRow _, ⟨rows.pop atomId, ?_, hsame.pop atomId⟩,
      Holdable.pop h.holdable atomId⟩
    rw [← loadRow_tombstone (s.dir.unlinkBlobIfAny old.contentRef).bare rows hid]
    exact storedRows_append htext hunlinked _

theorem OnDisk.compact (h : OnDisk s) (hs : Indexed s)
    (hstamps : ∀ a ∈ s.byId.values, StampsFixed a) : OnDisk s.compact := by
  obtain ⟨atoms, hatoms⟩ : ∃ atoms,
      atoms = sortBy (fun a : Atom => toLex (a.tStart, a.atomId)) s.byId.values := ⟨_, rfl⟩
  have hlive (a : Atom) : a ∈ atoms ↔ s.byId.get? a.atomId = some a := by
    rw [hatoms, ← hs.mem_values]
    exact List.mem_insertionSort _
  obtain ⟨rows, hfold, hrows⟩ := foldlM_rowForDisk s.dir atoms (fun a ha =>
    ⟨h.holdable a.atomId a ((hlive a).mp ha),
      hstamps a ((hs.mem_values a).mpr ((hlive a).mp ha))⟩) .empty
  refine ⟨h.text.set atomsPath _, ⟨rows, ?_, fun id b hb => ?_, fun id a ha => ?_⟩, h.holdable⟩
  · have hfile : s.compact.dir.atomsFile.bytes = (rowsText (atoms.map rowForDisk)).utf8Encode := by
      rw [hatoms]
      show ((s.dir.files.set atomsPath _).get? atomsPath).getD _ = _
      rw [Dict.get?_set_self]
      rfl
    have hlines := loadedRows_rowsText (atoms.map rowForDisk) []
    rw [List.append_nil, loadedRows_nil, List.append_nil, List.map_map] at hlines
    rw [storedRows, hfile, decodeUtf8_utf8Encode]
    dsimp only
    rw [hlines]
    exact hfold
  · obtain ⟨a, ha, rfl, x, hx, hsame⟩ | ⟨-, hnone⟩ := hrows id
    · obtain rfl := Option.some.inj (hb.symm.trans hx)
      exact ⟨a, (hlive a).mp ha, hsame⟩
    · rw [hnone] at hb
      cases hb
  · obtain ⟨x, hx, rfl, b, hb, hsame⟩ | ⟨hnot, -⟩ := hrows id
    · obtain rfl := Option.some.inj (ha.symm.trans ((hlive x).mp hx))
      exact ⟨b, hb, hsame⟩
    · have hself := hs.keyed id a ha
      subst hself
      exact absurd (List.mem_map_of_mem ((hlive a).mpr ha)) hnot

end Disk

end Elyra.Memory
