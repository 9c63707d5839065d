import Elyra.Memory.LanceVectors

namespace Elyra.Memory

open LanceMemoryStore JsonlMemoryStore

section Reopen

variable {Vec : Type} [VectorColumn Vec] [PyCoerce]

omit [VectorColumn Vec] in
theorem atomFromRow_atomId {r : LanceRow Vec} {a : Atom} (h : atomFromRow r = .ok a) :
    a.atomId = r.atomId := by
  unfold atomFromRow at h
  obtain ⟨hid, -⟩ := atomFromDict_ok h
  replace hid : (if r.atomId = "" then Except.error (PyErr.valueError [.text "atom_id required"])
    else .ok r.atomId) = Except.ok a.atomId := hid
  split_ifs at hid
  exact (Except.ok.inj hid).symm

omit [PyCoerce] in
theorem hydrateContent_frame {d : MemoryDir} {a b : Atom} (h : hydrateContent d a = .ok b) :
    b.atomId = a.atomId ∧ b.metadata = a.metadata := by
  unfold hydrateContent at h
  cases hfile : (blobPath d.root a.contentRef).bind d.files.get? with
  | none =>
    rw [hfile] at h
    rw [← Except.ok.inj h]
    exact ⟨rfl, rfl⟩
  | some bytes =>
    rw [hfile] at h
    dsimp only at h
    cases htext : decodeUtf8 bytes with
    | none =>
      rw [htext] at h
      cases h
    | some text =>
      rw [htext] at h
      rw [← Except.ok.inj h]
      exact ⟨rfl, rfl⟩

variable {s : LanceMemoryStore Vec} {last : String → Option (EmbColumns Vec)}

/-- What a load has so far: atoms of rows of the table, with their last vectors. -/
structure LoadedAgree (s : LanceMemoryStore Vec) (last : String → Option (EmbColumns Vec))
    (loaded : Dict String Atom × Dict String (EmbColumns Vec)) : Prop where
  known : ∀ id a, loaded.1.get? id = some a →
    a.atomId = id ∧ VersionReads a ∧ s.columnsOnDisk id = some ((last id).getD {}) ∧
      loaded.2.get? id = last id
  unknown : ∀ id, loaded.1.get? id = none → loaded.2.get? id = none

theorem LoadedAgree.add (h : VectorsAgree s last)
    {loaded : Dict String Atom × Dict String (EmbColumns Vec)} (hl : LoadedAgree s last loaded)
    {row : LanceRow Vec} (hrow : row ∈ s.table.values) {a : Atom} (hown : a.atomId = row.atomId)
    (hread : VersionReads a) :
    LoadedAgree s last (loaded.1.set a.atomId a,
      if s.vectorSchemaOk then
        match embMapFromRow row.emb with
        | some m => loaded.2.set a.atomId m
        | none => loaded.2
      else loaded.2) := by
  obtain ⟨id, hid⟩ := (s.table.mem_values row).mp hrow
  obtain ⟨hrowid, hemb⟩ := h.disk id row hid
  obtain rfl : a.atomId = id := hown.trans hrowid
  have hdisk : s.columnsOnDisk a.atomId = some ((last a.atomId).getD {}) := by
    unfold columnsOnDisk
    rw [hid, ← hemb]
    rfl
  have hvectors : ∀ other, (if s.vectorSchemaOk then
        match embMapFromRow row.emb with
        | some m => loaded.2.set a.atomId m
        | none => loaded.2
      else loaded.2).get? other =
      if a.atomId = other then last other else loaded.2.get? other := by
    intro other
    have hold : last a.atomId = none → loaded.2.get? a.atomId = none := by
      intro hnone
      cases hfound : loaded.1.get? a.atomId with
      | none => exact hl.unknown _ hfound
      | some b => exact (hl.known _ b hfound).2.2.2.trans hnone
    cases hok : s.vectorSchemaOk with
    | false =>
      rw [if_neg (by decide)]
      split_ifs with hsame
      · rw [← hsame, h.schema hok, hold (h.schema hok _)]
      · rfl
    | true =>
      rw [if_pos rfl, hemb]
      cases hlast : last a.atomId with
      | none =>
        rw [Option.getD_none, embMapFromRow_empty]
        dsimp only
        split_ifs with hsame
        · rw [← hsame, hlast, hold hlast]
        · rfl
      | some m =>
        rw [Option.getD_some, (h.proper _ m hlast).embMapFromRow]
        dsimp only
        rw [Dict.get?_set]
        split_ifs with hsame
        · rw [← hsame, hlast]
        · rfl
  refine ⟨?_, ?_⟩
  · intro other b hb
    replace hb : (loaded.1.set a.atomId a).get? other = some b := hb
    rw [Dict.get?_set] at hb
    dsimp only
    rw [hvectors]
    split_ifs at hb ⊢ with hsame
    · rw [← Option.some.inj hb, ← hsame]
      exact ⟨rfl, hread, hdisk, rfl⟩
    · exact hl.known other b hb
  · intro other hb
    replace hb : (loaded.1.set a.atomId a).get? other = none := hb
    rw [Dict.get?_set] at hb
    dsimp only
    rw [hvectors]
    split_ifs at hb ⊢
    exact hl.unknown other hb

theorem LoadedAgree.loadRow (h : VectorsAgree s last)
    {loaded next : Dict String Atom × Dict String (EmbColumns Vec)}
    (hl : LoadedAgree s last loaded) {row : LanceRow Vec} (hrow : row ∈ s.table.values)
    (hread : ∀ a, atomFromRow row = .ok a → VersionReads a)
    (hrun : LanceMemoryStore.loadRow s.indexes.dir s.vectorSchemaOk loaded row = .ok next) :
    LoadedAgree s last next := by
  unfold LanceMemoryStore.loadRow at hrun
  cases hatom : atomFromRow row >>= hydrateContent s.indexes.dir with
  | ok a =>
    rw [hatom] at hrun
    obtain ⟨bare, hbare, hbody⟩ := except_bind_ok hatom
    obtain ⟨hid, hmeta⟩ := hydrateContent_frame hbody
    have hversion : VersionReads a := by
      unfold VersionReads Atom.version
      rw [hmeta]
      exact hread bare hbare
    rw [← Except.ok.inj hrun]
    exact hl.add h hrow (hid.trans (atomFromRow_atomId hbare)) hversion
  | error e =>
    rw [hatom] at hrun
    cases e with
    | valueError msg => exact Except.ok.inj hrun ▸ hl
    | unicodeDecodeError => exact Except.ok.inj hrun ▸ hl
    | typeError => exact Except.ok.inj hrun ▸ hl
    | _ => cases hrun

theorem LoadedAgree.rows (h : VectorsAgree s last) :
    ∀ (rows : List (LanceRow Vec)) (loaded next : Dict String Atom × Dict String (EmbColumns Vec)),
      LoadedAgree s last loaded → (∀ row ∈ rows, row ∈ s.table.values) →
      (∀ row ∈ rows, ∀ a, atomFromRow row = .ok a → VersionReads a) →
      rows.foldlM (LanceMemoryStore.loadRow s.indexes.dir s.vectorSchemaOk) loaded = .ok next →
      LoadedAgree s last next := by
  intro rows
  induction rows with
  | nil =>
    intro loaded next hl _ _ hrun
    rw [← Except.ok.inj hrun]
    exact hl
  | cons row rows ih =>
    intro loaded next hl hrows hread hrun
    rw [List.foldlM_cons] at hrun
    obtain ⟨mid, hmid, hrest⟩ := except_bind_ok hrun
    have hnext := hl.loadRow h (hrows row List.mem_cons_self) (hread row List.mem_cons_self) hmid
    exact ih mid next hnext (fun r hr => hrows r (List.mem_cons_of_mem _ hr))
      (fun r hr => hread r (List.mem_cons_of_mem _ hr)) hrest

/-- A load finds the last vectors on the table. -/
theorem VectorsAgree.load (h : VectorsAgree s last) {rows : List (LanceRow Vec)}
    (hrows : rows.Perm s.table.values)
    (hread : ∀ row ∈ rows, ∀ a, atomFromRow row = .ok a → VersionReads a)
    {t : LanceMemoryStore Vec} (ht : s.load rows = .ok t) : VectorsAgree t last ∧ VersionsRead t := by
  obtain ⟨loaded, hloaded, ht⟩ := except_bind_ok ht
  obtain ⟨ladder, -, ht⟩ := except_bind_ok ht
  have hempty : LoadedAgree s last (.empty, .empty) :=
    ⟨fun _ _ hfound => (nomatch hfound), fun _ _ => rfl⟩
  have hl := hempty.rows h rows _ _ (fun row hrow => hrows.mem_iff.mp hrow) hread hloaded
  rw [← Except.ok.inj ht]
  refine ⟨⟨?_, ?_, hl.unknown, h.disk, h.proper, h.schema⟩, ?_⟩
  · exact fun id a ha => (hl.known id a ha).1
  · exact fun id a ha => ⟨(hl.known id a ha).2.2.2, (hl.known id a ha).2.2.1⟩
  · exact fun id a ha => (hl.known id a ha).2.1

theorem VectorsAgree.reopen (h : VectorsAgree s last) {rows : List (LanceRow Vec)}
    {openCap : Int} {fails : String → Bool} (hc : LanceSteady s (.reopen rows openCap fails)) :
    VectorsAgree (after (reopen rows openCap fails s))
      (noteAll last (accepted s (.reopen rows openCap fails))) := by
  unfold accepted
  dsimp only
  unfold LanceMemoryStore.reopen
  cases hload : s.load rows with
  | error e => exact h
  | ok t =>
    obtain ⟨hagree, hreads⟩ := h.load hc.1 hc.2 hload
    obtain ⟨ids, u, hrun, hnext, -⟩ := hagree.repairJointCopies hreads openCap fails
    dsimp only
    rw [hrun]
    exact hnext

end Reopen

section Run

variable {Vec : Type} [VectorColumn Vec] [PyCoerce]

/-- The state a call leaves, and whether it returned a success. -/
def LanceCall.perform : LanceCall Vec → Py (LanceMemoryStore Vec) Bool
  | .putAtom a fails => do
    let _ ← LanceMemoryStore.putAtom a fails
    return true
  | .updateLinks id prev next fails => do
    let _ ← LanceMemoryStore.updateLinks id prev next fails
    return true
  | .upsertVectors id emb fails => LanceMemoryStore.upsertVectors id emb fails
  | .repairJointCopies limit fails => do
    let _ ← LanceMemoryStore.repairJointCopies limit fails
    return true
  | .deleteAtom id fails => LanceMemoryStore.deleteAtom id fails
  | .reopen rows openCap fails => do
    let _ ← LanceMemoryStore.reopen rows openCap fails
    return true

def LanceCall.Failed (s : LanceMemoryStore Vec) (call : LanceCall Vec) : Prop :=
  (∃ t, call.perform s = .ok false t) ∨ ∃ e t, call.perform s = .error e t

/-- A call on the store and the last vectors accepted for each atom. -/
def stepLance (p : LanceMemoryStore Vec × (String → Option (EmbColumns Vec)))
    (call : LanceCall Vec) : LanceMemoryStore Vec × (String → Option (EmbColumns Vec)) :=
  (after (call.perform p.1), noteAll p.2 (accepted p.1 call))

variable {s : LanceMemoryStore Vec} {last : String → Option (EmbColumns Vec)}

theorem VectorsAgree.step (h : VectorsAgree s last) {call : LanceCall Vec}
    (hc : LanceSteady s call) :
    VectorsAgree (stepLance (s, last) call).1 (stepLance (s, last) call).2 := by
  cases call with
  | putAtom a fails =>
    show VectorsAgree (after ((LanceMemoryStore.putAtom a fails >>= fun _ => pure true) s)) _
    rw [after_bind_pure]
    exact h.putAtom a fails
  | updateLinks id prev next fails =>
    show VectorsAgree
      (after ((LanceMemoryStore.updateLinks id prev next fails >>= fun _ => pure true) s)) _
    rw [after_bind_pure]
    exact h.updateLinks id prev next fails
  | upsertVectors id emb fails => exact h.upsertVectors hc
  | repairJointCopies limit fails =>
    obtain ⟨ids, t, hrun, hagree, -⟩ := h.repairJointCopies hc limit fails
    have haccepted : accepted s (.repairJointCopies limit fails) = repairedColumns s ids := by
      simp only [accepted, hrun]
    show VectorsAgree
      (after ((LanceMemoryStore.repairJointCopies limit fails >>= fun _ => pure true) s))
      (noteAll last (accepted s (.repairJointCopies limit fails)))
    rw [after_bind_pure, hrun, haccepted]
    exact hagree
  | deleteAtom id fails => exact h.deleteAtom hc
  | reopen rows openCap fails =>
    show VectorsAgree
      (after ((LanceMemoryStore.reopen rows openCap fails >>= fun _ => pure true) s)) _
    rw [after_bind_pure]
    exact h.reopen hc

/-- Each atom has the vectors last accepted for it, in memory and on disk. -/
def VectorsKept (s : LanceMemoryStore Vec) (last : String → Option (EmbColumns Vec)) : Prop :=
  ∀ id a, s.getAtom id = some a →
    s.getVectors id = (last id).bind (embeddingSetFromMap id) ∧
      s.columnsOnDisk id = some ((last id).getD {}) ∧
      ((last id).isSome → (s.getVectors id).isSome)

omit [PyCoerce] in
theorem VectorsAgree.kept (h : VectorsAgree s last) : VectorsKept s last := by
  intro id a ha
  obtain ⟨hmap, hdisk⟩ := h.live id a ha
  have hvectors : s.getVectors id = (last id).bind (embeddingSetFromMap id) := by
    unfold getVectors
    rw [hmap]
  refine ⟨hvectors, hdisk, ?_⟩
  intro hsome
  obtain ⟨m, hm⟩ := Option.isSome_iff_exists.mp hsome
  rw [hvectors, hm]
  show (embeddingSetFromMap id m).isSome = true
  unfold embeddingSetFromMap
  rw [if_pos (h.proper id m hm).vector]
  rfl

/-- A call leaves the vectors of an atom, in memory and on disk. -/
def SameVectors (s t : LanceMemoryStore Vec) (id : String) : Prop :=
  t.getVectors id = s.getVectors id ∧ t.columnsOnDisk id = s.columnsOnDisk id

omit [PyCoerce] in
theorem sameVectors_of_agree {t : LanceMemoryStore Vec}
    {lastT : String → Option (EmbColumns Vec)} (h : VectorsAgree s last)
    (ht : VectorsAgree t lastT) {id : String} (hs : (s.getAtom id).isSome)
    (hstay : (t.getAtom id).isSome) (hlast : lastT id = last id) : SameVectors s t id := by
  obtain ⟨a, ha⟩ := Option.isSome_iff_exists.mp hs
  obtain ⟨b, hb⟩ := Option.isSome_iff_exists.mp hstay
  obtain ⟨hs1, hs2⟩ := h.live id a ha
  obtain ⟨ht1, ht2⟩ := ht.live id b hb
  refine ⟨?_, ?_⟩
  · unfold getVectors
    rw [hs1, ht1, hlast]
  · rw [hs2, ht2, hlast]

theorem writeRow_keeps (a : Atom) (fails : Bool) {id : String} (h : (s.getAtom id).isSome) :
    ((after (writeRow a fails s)).getAtom id).isSome := by
  cases fails with
  | true => exact h
  | false =>
    obtain ⟨ladder, hafter⟩ := writeRow_after (s := s) a
    rw [hafter]
    show ((s.indexes.byId.set a.atomId a).get? id).isSome = true
    rw [Dict.get?_set]
    split_ifs
    · rfl
    · exact h

theorem putAtom_keeps (a : Atom) (fails : Bool) {id : String} (h : (s.getAtom id).isSome) :
    ((after (putAtom a fails s)).getAtom id).isSome := by
  obtain ⟨d, hprepare⟩ := prepare_run s.indexes a
  have hrun : putAtom a fails s =
      (onIndexes (prepare a) >>= fun p => writeRow p fails) s := rfl
  rw [hrun, run_bind]
  unfold onIndexes
  rw [hprepare]
  cases prepareForPut s.indexes.settings a with
  | error e => exact h
  | ok p => exact writeRow_keeps (s := { s with indexes := { s.indexes with dir := d } }) p fails h

theorem updateLinks_keeps (own : String) (prev next : LinkChange) (fails : Bool) {id : String}
    (h : (s.getAtom id).isSome) :
    ((after (updateLinks own prev next fails s)).getAtom id).isSome := by
  rw [updateLinks_run]
  cases s.getAtom own with
  | none => exact h
  | some a =>
    dsimp only
    split_ifs
    · exact h
    · exact writeRow_keeps _ fails h

omit [VectorColumn Vec] [PyCoerce] in
theorem creationNotes_other (t : LanceMemoryStore Vec) {own id : String}
    (h : (s.getAtom id).isSome) : noteAll last (creationNotes s t own) id = last id := by
  unfold creationNotes
  split_ifs with hnew
  · apply Function.update_of_ne
    rintro rfl
    obtain ⟨a, ha⟩ := Option.isSome_iff_exists.mp h
    rw [ha] at hnew
    cases hnew
  · rfl

/-- A failed call leaves the vectors of every atom there is. -/
theorem VectorsAgree.failed (h : VectorsAgree s last) {call : LanceCall Vec}
    (hc : LanceSteady s call) (hfailed : call.Failed s) {id : String}
    (hid : (s.getAtom id).isSome) : SameVectors s (stepLance (s, last) call).1 id := by
  have hnext := h.step hc
  cases call with
  | putAtom a fails =>
    have hstay := putAtom_keeps (s := s) a fails hid
    refine sameVectors_of_agree h hnext hid ?_ (creationNotes_other _ hid)
    show ((after ((LanceMemoryStore.putAtom a fails >>= fun _ => pure true) s)).getAtom id).isSome =
      true
    rw [after_bind_pure]
    exact hstay
  | updateLinks own prev next fails =>
    refine sameVectors_of_agree h hnext hid ?_ rfl
    show ((after ((LanceMemoryStore.updateLinks own prev next fails >>= fun _ => pure true) s)).getAtom
      id).isSome = true
    rw [after_bind_pure]
    exact updateLinks_keeps own prev next fails hid
  | upsertVectors own emb fails =>
    cases haccepts : Accepts s own emb with
    | false =>
      have hrun := upsertVectors_refused fails haccepts
      have hsame : (stepLance (s, last) (.upsertVectors own emb fails)).1 = s := by
        show after (LanceMemoryStore.upsertVectors own emb fails s) = s
        rw [hrun]
        rfl
      rw [hsame]
      exact ⟨rfl, rfl⟩
    | true =>
      have hstay : ((after (LanceMemoryStore.upsertVectors own emb fails s)).getAtom id).isSome := by
        obtain ⟨-, hexact, hread⟩ := hc haccepts
        have haccepts' := haccepts
        unfold Accepts at haccepts'
        simp only [Bool.and_eq_true] at haccepts'
        obtain ⟨⟨⟨hok, hsome⟩, -⟩, hready⟩ := haccepts'
        obtain ⟨a, ha⟩ := Option.isSome_iff_exists.mp hsome
        rw [upsertVectors_accepted haccepts ha]
        cases fails with
        | true => exact hid
        | false =>
          obtain ⟨t, u, hrow, hput, -, -, -, hkeep⟩ :=
            h.writeVectors ha (columnsOf_ready hready hexact) hok hread
          rw [hrow]
          dsimp only
          rw [hput]
          exact hkeep id hid
      have hnotes : accepted s (.upsertVectors own emb fails) = [] := by
        unfold accepted
        dsimp only
        obtain ⟨t, ht⟩ | ⟨e, t, ht⟩ := hfailed
        · rw [show LanceMemoryStore.upsertVectors own emb fails s = .ok false t from ht]
        · rw [show LanceMemoryStore.upsertVectors own emb fails s = .error e t from ht]
      refine sameVectors_of_agree h hnext hid hstay ?_
      show noteAll last (accepted s (.upsertVectors own emb fails)) id = last id
      rw [hnotes]
      rfl
  | repairJointCopies limit fails =>
    obtain ⟨ids, t, hrun, -⟩ := h.repairJointCopies hc limit fails
    have hperform : (LanceCall.repairJointCopies limit fails).perform s = .ok true t := by
      show (LanceMemoryStore.repairJointCopies limit fails >>= fun _ => pure true) s = _
      rw [run_bind, hrun]
      rfl
    obtain ⟨u, hu⟩ | ⟨e, u, hu⟩ := hfailed
    · rw [hperform] at hu
      cases hu
    · rw [hperform] at hu
      cases hu
  | deleteAtom own fails =>
    show SameVectors s (after (LanceMemoryStore.deleteAtom own fails s)) id
    have hreply : ∀ t, LanceMemoryStore.deleteAtom own fails s ≠ .ok true t := by
      intro t ht
      obtain ⟨u, hu⟩ | ⟨e, u, hu⟩ := hfailed
      · cases ht.symm.trans hu
      · cases ht.symm.trans hu
    unfold LanceMemoryStore.deleteAtom at hreply ⊢
    cases hold : s.getAtom own with
    | none => exact ⟨rfl, rfl⟩
    | some old =>
      rw [hold] at hreply
      cases fails with
      | false => exact absurd rfl (hreply _)
      | true =>
        refine ⟨?_, rfl⟩
        show ((s.embById.pop own).get? id).bind (embeddingSetFromMap id) = _
        unfold getVectors
        rw [Dict.get?_pop]
        split_ifs with hown
        · rw [← hown, hc rfl]
        · rfl
  | reopen rows openCap fails =>
    have hperform : (LanceCall.reopen rows openCap fails).perform s =
        (LanceMemoryStore.reopen rows openCap fails >>= fun _ => pure true) s := rfl
    show SameVectors s (after ((LanceCall.reopen rows openCap fails).perform s)) id
    unfold LanceCall.Failed at hfailed
    rw [hperform, run_bind] at hfailed ⊢
    unfold LanceMemoryStore.reopen at hfailed ⊢
    cases hload : s.load rows with
    | error e => exact ⟨rfl, rfl⟩
    | ok t =>
      rw [hload] at hfailed
      dsimp only at hfailed
      cases hrepair : LanceMemoryStore.repairJointCopies openCap fails t with
      | ok ids u =>
        rw [hrepair] at hfailed
        obtain ⟨v, hv⟩ | ⟨e, v, hv⟩ := hfailed
        · cases hv
        · cases hv
      | error e u =>
        rw [hrepair] at hfailed
        obtain ⟨v, hv⟩ | ⟨e, v, hv⟩ := hfailed
        · cases hv
        · cases hv

/-- A new store on an empty table. -/
def openEmpty (settings : MemorySettings) (dir : MemoryDir) (vectorSchemaOk : Bool) :
    LanceMemoryStore Vec :=
  ⟨⟨settings, .empty, .empty, dir⟩, .empty, .empty, vectorSchemaOk⟩

omit [PyCoerce] in
theorem openEmpty_agrees (settings : MemorySettings) (dir : MemoryDir) (vectorSchemaOk : Bool) :
    VectorsAgree (@openEmpty Vec settings dir vectorSchemaOk) (fun _ => none) :=
  ⟨fun _ _ h => (nomatch h), fun _ _ h => (nomatch h), fun _ _ => rfl, fun _ _ h => (nomatch h),
    fun _ _ h => (nomatch h), fun _ _ => rfl⟩

/-- In a run of steady calls every atom keeps the vectors last accepted for it, in memory and on
disk, and a further call that fails changes neither. -/
theorem vectors_survive_scalar_writes (settings : MemorySettings) (dir : MemoryDir)
    (vectorSchemaOk : Bool) (calls : List (LanceCall Vec))
    (hc : Along stepLance (fun p call => LanceSteady p.1 call)
      (openEmpty settings dir vectorSchemaOk, fun _ => none) calls) :
    let p := run stepLance (openEmpty settings dir vectorSchemaOk, fun _ => none) calls
    VectorsKept p.1 p.2 ∧ ∀ call, LanceSteady p.1 call → call.Failed p.1 →
      ∀ id a, p.1.getAtom id = some a → SameVectors p.1 (stepLance p call).1 id := by
  intro p
  have hagree : VectorsAgree p.1 p.2 := Along.invariant
    (fun q : LanceMemoryStore Vec × (String → Option (EmbColumns Vec)) => VectorsAgree q.1 q.2)
    (fun _ _ hcall hq => hq.step hcall) _ calls hc (openEmpty_agrees settings dir vectorSchemaOk)
  refine ⟨hagree.kept, ?_⟩
  intro call hcall hfailed id a ha
  exact hagree.failed hcall hfailed (by rw [ha]; rfl)

end Run

section Sample

def soleText : EmbeddingSet Nat :=
  { atomId := "a", embText := some 1, modelId := "m", encodedAt := "2026-01-01T00:00:00Z" }

def lanceAtom : Atom := { atomId := "a", tStart := "2026-01-01T00:00:00Z", kind := "observation" }

/-- A column whose vectors are all given back as they are. -/
@[reducible] def exactColumn {Vec : Type} : VectorColumn Vec := ⟨id⟩

def lanceStart : LanceMemoryStore Nat × (String → Option (EmbColumns Nat)) :=
  (openEmpty defaultMemorySettings ⟨[], .empty⟩ true, fun _ => none)

def acceptedCalls : List (LanceCall Nat) :=
  [.putAtom lanceAtom false, .upsertVectors "a" soleText false, .putAtom lanceAtom true]

theorem put_items :
    (@stepLance Nat exactColumn basicCoerce lanceStart (.putAtom lanceAtom false)).1.indexes.byId.items =
      [("a", lanceAtom)] := by
  decide +kernel

theorem acceptedCalls_steady : @Along _ _ (@stepLance Nat exactColumn basicCoerce)
    (fun p call => @LanceSteady Nat exactColumn basicCoerce p.1 call) lanceStart acceptedCalls := by
  refine ⟨trivial, ?_, trivial, trivial⟩
  refine fun _ => ⟨fun h => (nomatch h), rfl, ?_⟩
  intro id a ha
  have hmem := (Dict.get?_eq_some_iff _ id a).mp ha
  rw [put_items, List.mem_singleton] at hmem
  rw [(Prod.mk.inj hmem).2]
  exact ⟨0, rfl⟩

theorem vectors_survive_scalar_writes_sample :
    VectorsKept (@run _ _ (@stepLance Nat exactColumn basicCoerce) lanceStart acceptedCalls).1
      (@run _ _ (@stepLance Nat exactColumn basicCoerce) lanceStart acceptedCalls).2 :=
  (@vectors_survive_scalar_writes Nat exactColumn basicCoerce defaultMemorySettings ⟨[], .empty⟩ true
    acceptedCalls acceptedCalls_steady).1

/-- A failed vector write drops the vectors accepted before it. -/
theorem failed_upsert_drops_vectors :
    ¬ ∀ calls : List (LanceCall Nat), (∀ call ∈ calls, ∀ rows cap fails,
        call ≠ .reopen rows cap fails) →
      VectorsKept (@run _ _ (@stepLance Nat exactColumn basicCoerce) lanceStart calls).1
        (@run _ _ (@stepLance Nat exactColumn basicCoerce) lanceStart calls).2 := by
  intro hall
  let calls : List (LanceCall Nat) :=
    [.putAtom lanceAtom false, .upsertVectors "a" soleText false, .upsertVectors "a" soleText true]
  have hkept := hall calls (by simp [calls])
  have hatom : ((@run _ _ (@stepLance Nat exactColumn basicCoerce) lanceStart calls).1.getAtom "a").isSome := by
    decide +kernel
  obtain ⟨a, ha⟩ := Option.isSome_iff_exists.mp hatom
  have hsome := (hkept "a" a ha).2.2 (by decide +kernel)
  have hnone : ((@run _ _ (@stepLance Nat exactColumn basicCoerce) lanceStart calls).1.getVectors "a").isSome =
      false := by
    decide +kernel
  rw [hnone] at hsome
  cases hsome

end Sample

end Elyra.Memory
