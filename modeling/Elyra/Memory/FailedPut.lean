import Elyra.Memory.TipIndex

namespace Elyra.Memory

open Json

namespace MemoryDir

/-- Every file decodes. -/
def AllText (d : MemoryDir) : Prop :=
  ∀ path bytes, d.files.get? path = some bytes → decodeUtf8 bytes ≠ none

/-- The same directory without its side files. -/
def bare (d : MemoryDir) : MemoryDir := ⟨d.root, .empty⟩

/-- The atom with the body its locator leads to. -/
def bodied (d : MemoryDir) (a : Atom) : Atom :=
  match (blobPath d.root a.contentRef).bind d.files.get? with
  | none => a
  | some bytes => { a with contentText := .ofList (universalNewlines ((decodeUtf8 bytes).getD [])) }

end MemoryDir

namespace JsonlMemoryStore

section Faulty

variable [PyCoerce]

/-- `put_atom` with the append of the row going through or raising. -/
def putAtomWith (appendFails : Bool) (a : Atom) : Py JsonlMemoryStore Atom := do
  let prepared ← prepare a
  if appendFails then throw .osError
  else
    appendRow (rowForDisk prepared)
    indexPut prepared
    return prepared

/-- `delete_atom` with the append of the tombstone going through or raising. -/
def deleteAtomWith (appendFails : Bool) (atomId : String) : Py JsonlMemoryStore Bool := fun s =>
  match s.byId.get? atomId with
  | none => .ok false s
  | some old =>
    let popped : JsonlMemoryStore := { s with
      byId := s.byId.pop atomId
      ladder := dropTip (some old) s.ladder
      dir := s.dir.unlinkBlobIfAny old.contentRef }
    if appendFails then .error .osError popped
    else .ok true { popped with dir := popped.dir.appendAtomRow (tombstone atomId) }

theorem putAtomWith_false (a : Atom) : putAtomWith false a = putAtom a := rfl

/-- The rows of `atoms.jsonl` folded without their side files. -/
def storedRows (d : MemoryDir) : Except PyErr (Dict String Atom) :=
  match decodeUtf8 d.atomsFile.bytes with
  | none => .error .unicodeDecodeError
  | some cs => (loadedRows cs).foldlM (loadRow d.bare) .empty

/-- Memory and what a reopen reads are as they were. -/
structure Undone (s t : JsonlMemoryStore) : Prop where
  atoms : t.byId = s.byId
  tips : t.ladder = s.ladder
  reopened : (openStore s.settings t.dir).map (·.byId) = (openStore s.settings s.dir).map (·.byId)

end Faulty

section Reading

variable {d e : MemoryDir}

theorem hydrate_bodied (h : d.AllText) (a : Atom) : hydrateContent d a = .ok (d.bodied a) := by
  unfold hydrateContent MemoryDir.bodied
  cases hbytes : (blobPath d.root a.contentRef).bind d.files.get? with
  | none => rfl
  | some bytes =>
    obtain ⟨path, -, hget⟩ := Option.bind_eq_some_iff.mp hbytes
    cases htext : decodeUtf8 bytes with
    | none => exact absurd htext (h path bytes hget)
    | some text =>
      dsimp only
      rw [htext]
      rfl

theorem hydrate_bare (d : MemoryDir) (a : Atom) : hydrateContent d.bare a = .ok a := by
  unfold hydrateContent
  have hnone : (blobPath d.bare.root a.contentRef).bind d.bare.files.get? = none := by
    cases blobPath d.bare.root a.contentRef with
    | none => rfl
    | some path => exact Dict.get?_empty path
  rw [hnone]

theorem bodied_frame (d : MemoryDir) (a : Atom) :
    d.bodied a = { a with contentText := (d.bodied a).contentText } := by
  unfold MemoryDir.bodied
  cases (blobPath d.root a.contentRef).bind d.files.get? with
  | none => rfl
  | some bytes => rfl

/-- A table of atoms against the same table of bare rows. -/
def Bodies {κ : Type} [DecidableEq κ] (d : MemoryDir) (rows loaded : Dict κ Atom) : Prop :=
  loaded.items = rows.items.map fun p => (p.1, d.bodied p.2)

section Tables

variable {κ : Type} [DecidableEq κ] {rows loaded : Dict κ Atom}

theorem Bodies.get? (h : Bodies d rows loaded) (k : κ) :
    loaded.get? k = (rows.get? k).map d.bodied := by
  rw [Dict.get?, h, Dict.findItem_map]
  rfl

theorem Bodies.set (h : Bodies d rows loaded) (k : κ) (a : Atom) :
    Bodies d (rows.set k a) (loaded.set k (d.bodied a)) := by
  show Dict.putItem loaded.items k (d.bodied a) = (Dict.putItem rows.items k a).map _
  rw [h, Dict.map_putItem]

theorem Bodies.pop (h : Bodies d rows loaded) (k : κ) :
    Bodies d (rows.pop k) (loaded.pop k) := by
  show loaded.items.filter _ = (rows.items.filter _).map _
  rw [h, List.filter_map]
  rfl

theorem Bodies.values (h : Bodies d rows loaded) : loaded.values = rows.values.map d.bodied := by
  rw [Dict.values, h, Dict.values, List.map_map, List.map_map]
  rfl

/-- Two loads of one table agree exactly when they read the same bodies. -/
theorem Bodies.eq_iff {loaded' : Dict κ Atom} (h : Bodies d rows loaded)
    (h' : Bodies e rows loaded') : loaded' = loaded ↔ ∀ b ∈ rows.values, e.bodied b = d.bodied b := by
  have hitems : loaded' = loaded ↔ loaded'.items = loaded.items := by
    constructor
    · exact congrArg Dict.items
    · intro heq
      cases loaded
      cases loaded'
      cases heq
      rfl
  rw [hitems, h, h', List.map_inj_left]
  constructor
  · intro heq b hb
    obtain ⟨entry, hentry, rfl⟩ := List.mem_map.mp hb
    exact congrArg Prod.snd (heq entry hentry)
  · intro heq entry hentry
    have hb : entry.2 ∈ rows.values := List.mem_map_of_mem hentry
    rw [heq entry.2 hb]

end Tables

variable [PyCoerce]

theorem loadRow_obj (d : MemoryDir) (byId : Dict String Atom) (kvs : List (String × Json)) :
    loadRow d byId (.obj kvs) =
      if lookup kvs "_deleted" = some (.bool true) then
        match lookup kvs "atom_id" with
        | some (.str id) => .ok (if id = "" then byId else byId.pop id)
        | _ => .ok byId
      else
        match atomFromDict kvs >>= hydrateContent d with
        | .ok a => .ok (byId.set a.atomId a)
        | .error (.valueError _) | .error .unicodeDecodeError | .error .typeError => .ok byId
        | .error e => .error e := rfl

/-- A line that loads, loads alike with and without the side files. -/
theorem loadRow_bodied (h : d.AllText) {rows loaded : Dict String Atom}
    (hb : Bodies d rows loaded) (row : Json) :
    (∃ rows' loaded', loadRow d.bare rows row = .ok rows' ∧ loadRow d loaded row = .ok loaded' ∧
      Bodies d rows' loaded') ∨
    ∃ err, loadRow d.bare rows row = .error err ∧ loadRow d loaded row = .error err := by
  cases row with
  | obj kvs =>
    rw [loadRow_obj, loadRow_obj]
    by_cases hdel : lookup kvs "_deleted" = some (.bool true)
    · rw [if_pos hdel, if_pos hdel]
      left
      cases lookup kvs "atom_id" with
      | none => exact ⟨rows, loaded, rfl, rfl, hb⟩
      | some v =>
        cases v with
        | str id =>
          dsimp only
          by_cases hid : id = ""
          · rw [if_pos hid, if_pos hid]
            exact ⟨rows, loaded, rfl, rfl, hb⟩
          · rw [if_neg hid, if_neg hid]
            exact ⟨_, _, rfl, rfl, hb.pop id⟩
        | null | bool | int | float | arr | obj => exact ⟨rows, loaded, rfl, rfl, hb⟩
    · rw [if_neg hdel, if_neg hdel]
      cases atomFromDict kvs with
      | ok a =>
        left
        have hbare : (Except.ok a >>= hydrateContent d.bare) = .ok a := hydrate_bare d a
        have hfull : (Except.ok a >>= hydrateContent d) = .ok (d.bodied a) := hydrate_bodied h a
        rw [hbare, hfull]
        have hid : (d.bodied a).atomId = a.atomId := by rw [bodied_frame]
        refine ⟨_, _, rfl, rfl, ?_⟩
        rw [hid]
        exact hb.set a.atomId a
      | error err =>
        cases err with
        | valueError | unicodeDecodeError | typeError => exact .inl ⟨rows, loaded, rfl, rfl, hb⟩
        | keyError msg => exact .inr ⟨_, rfl, rfl⟩
        | osError => exact .inr ⟨_, rfl, rfl⟩
        | overflowError => exact .inr ⟨_, rfl, rfl⟩
        | recursionError => exact .inr ⟨_, rfl, rfl⟩
  | null | bool | int | float | str | arr => exact .inl ⟨rows, loaded, rfl, rfl, hb⟩

theorem loadRows_bodied (h : d.AllText) (lines : List Json) {rows loaded : Dict String Atom}
    (hb : Bodies d rows loaded) :
    (∃ rows' loaded', lines.foldlM (loadRow d.bare) rows = .ok rows' ∧
      lines.foldlM (loadRow d) loaded = .ok loaded' ∧ Bodies d rows' loaded') ∨
    ∃ err, lines.foldlM (loadRow d.bare) rows = .error err ∧
      lines.foldlM (loadRow d) loaded = .error err := by
  induction lines generalizing rows loaded with
  | nil => exact .inl ⟨rows, loaded, rfl, rfl, hb⟩
  | cons line lines ih =>
    rw [List.foldlM_cons, List.foldlM_cons]
    obtain ⟨rows', loaded', hrows, hloaded, hb'⟩ | ⟨err, hrows, hloaded⟩ := loadRow_bodied h hb line
    · rw [hrows, hloaded]
      exact ih hb'
    · rw [hrows, hloaded]
      exact .inr ⟨err, rfl, rfl⟩

theorem newer_bodied (a b : Atom) : newer (d.bodied a) (d.bodied b) = newer a b := by
  rw [bodied_frame d a, bodied_frame d b]
  rfl

theorem bestStep_bodied (best loaded : Dict TipKey Atom) (hb : Bodies d best loaded) (a : Atom) :
    (∃ best' loaded', bestStep best a = .ok best' ∧ bestStep loaded (d.bodied a) = .ok loaded' ∧
      Bodies d best' loaded') ∨
    ∃ err, bestStep best a = .error err ∧ bestStep loaded (d.bodied a) = .error err := by
  have htip : (d.bodied a).tipKey = a.tipKey := by
    rw [bodied_frame]
    rfl
  rw [bestStep, bestStep, htip]
  cases a.tipKey with
  | none => exact .inl ⟨best, loaded, rfl, rfl, hb⟩
  | some key =>
    dsimp only
    rw [hb.get? key]
    cases best.get? key with
    | none => exact .inl ⟨_, _, rfl, rfl, hb.set key a⟩
    | some cur =>
      dsimp only [Option.map_some]
      rw [newer_bodied]
      cases newer a cur with
      | error err => exact .inr ⟨err, rfl, rfl⟩
      | ok b =>
        cases b with
        | true => exact .inl ⟨_, _, rfl, rfl, hb.set key a⟩
        | false => exact .inl ⟨best, loaded, rfl, rfl, hb⟩

theorem foldlM_bestStep_bodied (atoms : List Atom) (best loaded : Dict TipKey Atom)
    (hb : Bodies d best loaded) :
    (∃ best' loaded', atoms.foldlM bestStep best = .ok best' ∧
      (atoms.map d.bodied).foldlM bestStep loaded = .ok loaded' ∧ Bodies d best' loaded') ∨
    ∃ err, atoms.foldlM bestStep best = .error err ∧
      (atoms.map d.bodied).foldlM bestStep loaded = .error err := by
  induction atoms generalizing best loaded with
  | nil => exact .inl ⟨best, loaded, rfl, rfl, hb⟩
  | cons a atoms ih =>
    rw [List.map_cons, List.foldlM_cons, List.foldlM_cons]
    obtain ⟨best', loaded', hbest, hloaded, hb'⟩ | ⟨err, hbest, hloaded⟩ :=
      bestStep_bodied best loaded hb a
    · rw [hbest, hloaded]
      exact ih best' loaded' hb'
    · rw [hbest, hloaded]
      exact .inr ⟨err, rfl, rfl⟩

/-- The tips do not depend on the bodies. -/
theorem rebuildLadder_bodied {rows loaded : Dict String Atom} (hb : Bodies d rows loaded) :
    rebuildLadder loaded = rebuildLadder rows := by
  rw [rebuildLadder, rebuildLadder, hb.values]
  obtain ⟨best, loaded', hbest, hloaded, hb'⟩ | ⟨err, hbest, hloaded⟩ :=
    foldlM_bestStep_bodied (d := d) rows.values .empty .empty rfl
  · rw [hbest, hloaded]
    show Except.ok (Dict.ofList (loaded'.items.map _)) = Except.ok (Dict.ofList (best.items.map _))
    rw [hb', List.map_map]
    congr 3
    funext p
    show (p.1, (d.bodied p.2).atomId) = (p.1, p.2.atomId)
    rw [bodied_frame]
  · rw [hbest, hloaded]

/-- The rows a reopen of the directory keeps, when it succeeds. -/
def keptRows (d : MemoryDir) : Except PyErr (Dict String Atom) := do
  let rows ← storedRows d
  let _ ← rebuildLadder rows
  return rows

/-- A reopen is the kept rows with their bodies read in. -/
theorem openStore_bodied (settings : MemorySettings) (h : d.AllText) :
    (∃ rows loaded, keptRows d = .ok rows ∧
      (openStore settings d).map (·.byId) = .ok loaded ∧ Bodies d rows loaded) ∨
    ∃ err, keptRows d = .error err ∧ (openStore settings d).map (·.byId) = .error err := by
  unfold keptRows storedRows openStore
  cases decodeUtf8 d.atomsFile.bytes with
  | none => exact .inr ⟨_, rfl, rfl⟩
  | some cs =>
    dsimp only
    obtain ⟨rows, loaded, hrows, hloaded, hb⟩ | ⟨err, hrows, hloaded⟩ :=
      @loadRows_bodied _ _ h (loadedRows cs) .empty .empty rfl
    · rw [hrows, hloaded]
      have htips : rebuildLadder loaded = rebuildLadder rows := rebuildLadder_bodied hb
      cases hrebuilt : rebuildLadder rows with
      | error err =>
        rw [hrebuilt] at htips
        have hkept : (rebuildLadder rows >>= fun _ => Except.ok rows) = .error err := by
          rw [hrebuilt]
          rfl
        have hopen : (rebuildLadder loaded >>= fun ladder =>
            Except.ok (JsonlMemoryStore.mk settings loaded ladder d)) = .error err := by
          rw [htips]
          rfl
        exact .inr ⟨err, hkept, congrArg (Except.map (·.byId)) hopen⟩
      | ok ladder =>
        rw [hrebuilt] at htips
        have hkept : (rebuildLadder rows >>= fun _ => Except.ok rows) = .ok rows := by
          rw [hrebuilt]
          rfl
        have hopen : (rebuildLadder loaded >>= fun ladder =>
            Except.ok (JsonlMemoryStore.mk settings loaded ladder d)) =
              .ok ⟨settings, loaded, ladder, d⟩ := by
          rw [htips]
          rfl
        exact .inl ⟨rows, loaded, hkept, congrArg (Except.map (·.byId)) hopen, hb⟩
    · rw [hrows, hloaded]
      exact .inr ⟨err, rfl, rfl⟩

/-- Two directories with one `atoms.jsonl` reopen alike when the kept rows read alike. -/
theorem openStore_eq_iff (settings : MemorySettings) (hd : d.AllText) (he : e.AllText)
    (hroot : e.root = d.root) (hatoms : e.files.get? atomsPath = d.files.get? atomsPath) :
    (openStore settings e).map (·.byId) = (openStore settings d).map (·.byId) ↔
      ∀ rows, keptRows d = .ok rows → ∀ b ∈ rows.values, e.bodied b = d.bodied b := by
  have hkept : keptRows e = keptRows d := by
    have hbare : e.bare = d.bare := by
      rw [MemoryDir.bare, MemoryDir.bare, hroot]
    have hfile : e.atomsFile = d.atomsFile := by
      rw [MemoryDir.atomsFile, MemoryDir.atomsFile, hatoms]
    rw [keptRows, keptRows, storedRows, storedRows, hbare, hfile]
  obtain ⟨rows, loaded, hrows, hopen, hb⟩ | ⟨err, hrows, hopen⟩ := openStore_bodied settings hd
  · obtain ⟨rows', loaded', hrows', hopen', hb'⟩ | ⟨err, hrows', -⟩ := openStore_bodied settings he
    · rw [hkept, hrows] at hrows'
      cases hrows'
      rw [hopen, hopen', hrows]
      constructor
      · intro heq rows' hrows'
        cases hrows'
        exact (hb.eq_iff hb').mp (Except.ok.inj heq)
      · intro heq
        exact congrArg Except.ok ((hb.eq_iff hb').mpr (heq rows rfl))
    · rw [hkept, hrows] at hrows'
      cases hrows'
  · obtain ⟨rows', loaded', hrows', -, -⟩ | ⟨err', hrows', hopen'⟩ := openStore_bodied settings he
    · rw [hkept, hrows] at hrows'
      cases hrows'
    · rw [hkept, hrows] at hrows'
      cases hrows'
      rw [hopen, hopen', hrows]
      constructor
      · intro _ rows hrows
        cases hrows
      · intro _
        rfl

end Reading

end JsonlMemoryStore
end Elyra.Memory
