import Elyra.Framework.Run
import Elyra.Memory.LanceStore
import Elyra.Memory.StoreCores

namespace Elyra.Memory

open LanceMemoryStore JsonlMemoryStore

variable {Vec : Type} [VectorColumn Vec]

/-- A call on the store; `fails` says which table writes raise. -/
inductive LanceCall (Vec : Type) where
  | putAtom (a : Atom) (fails : Bool)
  | updateLinks (atomId : String) (prev next : LinkChange) (fails : Bool)
  | upsertVectors (atomId : String) (emb : EmbeddingSet Vec) (fails : Bool)
  | repairJointCopies (limit : Int) (fails : String → Bool)
  | deleteAtom (atomId : String) (fails : Bool)
  | reopen (rows : List (LanceRow Vec)) (openCap : Int) (fails : String → Bool)

/-- A null cell and an empty text do not differ on reading, so the store writes no empty text; the
table gives the vectors back as they are. -/
structure Clean (m : EmbColumns Vec) : Prop where
  vector : m.hasVector = true
  exact : m.narrowed = m
  model : m.embedModel ≠ some ""
  encoded : m.encodedAt ≠ some ""

theorem textOrNone_ne (s : String) : textOrNone s ≠ some "" := by
  unfold textOrNone
  split_ifs with h
  · exact Option.some_ne_none "" |>.symm
  · exact fun heq => h (Option.some.inj heq)

theorem bind_textOrNone {cell : Option String} (h : cell ≠ some "") :
    cell.bind textOrNone = cell := by
  cases cell with
  | none => rfl
  | some s =>
    have hs : s ≠ "" := fun heq => h (congrArg some heq)
    exact if_neg hs

theorem Clean.embMapFromRow {m : EmbColumns Vec} (h : Clean m) : embMapFromRow m = some m := by
  unfold Memory.embMapFromRow
  simp only [bind_textOrNone h.model, bind_textOrNone h.encoded, h.vector, Bool.true_or, if_true]

omit [VectorColumn Vec] in
theorem embMapFromRow_empty : embMapFromRow ({} : EmbColumns Vec) = none := rfl

/-- Vectors that a `float32` column gives back as they are. -/
def Exact (emb : EmbeddingSet Vec) : Prop := (columnsOf emb).narrowed = columnsOf emb

theorem columnsOf_clean {emb : EmbeddingSet Vec} {c : Channel} {v : Vec}
    (h : emb.channelVector c = some v) (hexact : Exact emb) : Clean (columnsOf emb) := by
  refine ⟨?_, hexact, textOrNone_ne _, textOrNone_ne _⟩
  unfold EmbColumns.hasVector columnsOf
  cases c <;> simp_all [EmbeddingSet.channelVector]

/-- The side map, the table and the last accepted vectors of each atom agree. -/
structure VectorsAgree (s : LanceMemoryStore Vec) (last : String → Option (EmbColumns Vec)) :
    Prop where
  keyed : ∀ id a, s.getAtom id = some a → a.atomId = id
  live : ∀ id a, s.getAtom id = some a →
    s.embById.get? id = last id ∧ s.columnsOnDisk id = some ((last id).getD {})
  unknown : ∀ id, s.getAtom id = none → s.embById.get? id = none
  disk : ∀ id row, s.table.get? id = some row → row.atomId = id ∧ row.emb = (last id).getD {}
  proper : ∀ id m, last id = some m → Clean m
  schema : s.vectorSchemaOk = false → ∀ id, last id = none

section Writes

variable {s : LanceMemoryStore Vec} {last : String → Option (EmbColumns Vec)}

theorem VectorsAgree.same (h : VectorsAgree s last) (t : LanceMemoryStore Vec)
    (hatoms : t.indexes.byId = s.indexes.byId)
    (hemb : ∀ id, t.embById.get? id = s.embById.get? id)
    (htable : t.table = s.table) (hschema : t.vectorSchemaOk = s.vectorSchemaOk) :
    VectorsAgree t last := by
  have hget : t.getAtom = s.getAtom := by
    funext id
    exact congrArg (fun d => Dict.get? d id) hatoms
  have hdisk : t.columnsOnDisk = s.columnsOnDisk := by
    funext id
    rw [columnsOnDisk, columnsOnDisk, htable]
  refine ⟨?_, ?_, ?_, ?_, h.proper, ?_⟩
  · rw [hget]
    exact h.keyed
  · intro id a ha
    rw [hget] at ha
    rw [hemb, hdisk]
    exact h.live id a ha
  · intro id hid
    rw [hget] at hid
    rw [hemb]
    exact h.unknown id hid
  · rw [htable]
    exact h.disk
  · rw [hschema]
    exact h.schema

/-- A row is written with the vectors `cols` that the side map then holds for the atom. -/
theorem VectorsAgree.write (h : VectorsAgree s last) (t : LanceMemoryStore Vec) (a : Atom)
    (cols : Option (EmbColumns Vec)) (hcols : ∀ m, cols = some m → Clean m)
    (hschema : s.vectorSchemaOk = false → cols = none)
    (hatoms : t.indexes.byId = s.indexes.byId.set a.atomId a)
    (hemb : ∀ id, t.embById.get? id = if a.atomId = id then cols else s.embById.get? id)
    (row : LanceRow Vec) (hrow : row.atomId = a.atomId ∧ row.emb = cols.getD {})
    (htable : t.table = s.table.set a.atomId row)
    (hsame : t.vectorSchemaOk = s.vectorSchemaOk) :
    VectorsAgree t (Function.update last a.atomId cols) := by
  have hget : ∀ id, t.getAtom id = if a.atomId = id then some a else s.getAtom id := by
    intro id
    have hset : t.getAtom id = (s.indexes.byId.set a.atomId a).get? id :=
      congrArg (fun d => Dict.get? d id) hatoms
    rw [hset, Dict.get?_set]
    rfl
  have hdisk : ∀ id, t.columnsOnDisk id =
      if a.atomId = id then some (cols.getD {}) else s.columnsOnDisk id := by
    intro id
    rw [columnsOnDisk, htable, Dict.get?_set]
    split_ifs
    · exact congrArg some hrow.2
    · rfl
  have hlast : ∀ id, Function.update last a.atomId cols id =
      if a.atomId = id then cols else last id := by
    intro id
    by_cases hid : a.atomId = id
    · subst hid
      rw [Function.update_self, if_pos rfl]
    · rw [Function.update_of_ne (Ne.symm hid), if_neg hid]
  refine ⟨?_, ?_, ?_, ?_, ?_, ?_⟩
  · intro id b hb
    rw [hget] at hb
    split_ifs at hb with hid
    · rw [← Option.some.inj hb]
      exact hid
    · exact h.keyed id b hb
  · intro id b hb
    rw [hget] at hb
    rw [hemb, hdisk, hlast]
    split_ifs at hb ⊢ with hid
    · exact ⟨rfl, rfl⟩
    · exact h.live id b hb
  · intro id hb
    rw [hget] at hb
    rw [hemb]
    split_ifs at hb ⊢ with hid
    exact h.unknown id hb
  · intro id r hr
    rw [htable, Dict.get?_set] at hr
    rw [hlast]
    split_ifs at hr ⊢ with hid
    · rw [← Option.some.inj hr]
      exact ⟨hrow.1.trans hid, hrow.2⟩
    · exact h.disk id r hr
  · intro id m hm
    rw [hlast] at hm
    split_ifs at hm
    · exact hcols m hm
    · exact h.proper id m hm
  · intro hok id
    rw [hsame] at hok
    rw [hlast]
    split_ifs
    · exact hschema hok
    · exact h.schema hok id

end Writes

/-- What the calls since an atom was created last wrote for it. -/
def noteAll (last : String → Option (EmbColumns Vec))
    (notes : List (String × Option (EmbColumns Vec))) : String → Option (EmbColumns Vec) :=
  notes.foldl (fun last p => Function.update last p.1 p.2) last

section Scalar

variable [PyCoerce] {s : LanceMemoryStore Vec} {last : String → Option (EmbColumns Vec)}

/-- The write that a put and a link update end with. -/
def writeRow (a : Atom) (fails : Bool) : Py (LanceMemoryStore Vec) Atom := do
  upsertRow a fails
  onIndexes (indexPut a)
  return a

omit [VectorColumn Vec] [PyCoerce] in
theorem onIndexes_after {α : Type} (m : Py JsonlMemoryStore α) (s : LanceMemoryStore Vec) :
    after (onIndexes m s) = { s with indexes := after (m s.indexes) } := by
  unfold onIndexes
  cases m s.indexes <;> rfl

omit [PyCoerce] in
theorem attachEmbColumns_spec (h : VectorsAgree s last) (a : Atom) :
    (s.attachEmbColumns (lanceRowForDisk a)).atomId = a.atomId ∧
      (s.attachEmbColumns (lanceRowForDisk a)).emb = (s.embById.get? a.atomId).getD {} := by
  unfold attachEmbColumns
  split_ifs with hok
  · refine ⟨rfl, ?_⟩
    show ((s.embById.get? a.atomId).getD {}).narrowed = _
    cases hmap : s.embById.get? a.atomId with
    | none => rfl
    | some m =>
      cases hatom : s.getAtom a.atomId with
      | none => exact absurd (hmap.symm.trans (h.unknown _ hatom)) (Option.some_ne_none m)
      | some b => exact (h.proper _ m ((h.live _ b hatom).1.symm.trans hmap)).exact
  · refine ⟨rfl, ?_⟩
    have hnone : s.embById.get? a.atomId = none := by
      cases hatom : s.getAtom a.atomId with
      | none => exact h.unknown _ hatom
      | some b =>
        rw [(h.live _ b hatom).1]
        exact h.schema (Bool.eq_false_iff.mpr hok) _
    rw [hnone]
    rfl

theorem writeRow_after (a : Atom) : ∃ ladder, after (writeRow a false s) = { s with
    indexes := { s.indexes with ladder, byId := s.indexes.byId.set a.atomId a }
    table := s.table.set a.atomId (s.attachEmbColumns (lanceRowForDisk a)) } := by
  obtain ⟨ladder, hafter, -⟩ := indexPut_run s.indexes a
  refine ⟨ladder, ?_⟩
  unfold writeRow
  show after ((onIndexes (indexPut a) >>= fun _ => pure a) _) = _
  rw [after_bind_pure, onIndexes_after]
  dsimp only
  rw [hafter]

/-- A row write leaves the last vectors of the atom, and none for a new one. -/
theorem VectorsAgree.writeRow (h : VectorsAgree s last) (a : Atom) :
    VectorsAgree (after (writeRow a false s))
      (Function.update last a.atomId (s.embById.get? a.atomId)) := by
  obtain ⟨ladder, hafter⟩ := writeRow_after (s := s) a
  have hknown : s.embById.get? a.atomId = none ∨ s.embById.get? a.atomId = last a.atomId := by
    cases hatom : s.getAtom a.atomId with
    | none => exact .inl (h.unknown _ hatom)
    | some b => exact .inr (h.live _ b hatom).1
  rw [hafter]
  refine h.write { s with
    indexes := { s.indexes with ladder, byId := s.indexes.byId.set a.atomId a }
    table := s.table.set a.atomId (s.attachEmbColumns (lanceRowForDisk a)) } a _ ?_ ?_ rfl ?_ _
    (attachEmbColumns_spec h a) rfl rfl
  · intro m hm
    obtain hnone | hlast := hknown
    · rw [hnone] at hm
      cases hm
    · exact h.proper _ m (hlast.symm.trans hm)
  · intro hok
    obtain hnone | hlast := hknown
    · exact hnone
    · exact hlast.trans (h.schema hok _)
  · intro id
    show s.embById.get? id = _
    split_ifs with hid
    · rw [hid]
    · rfl

theorem writeRow_getAtom (a : Atom) : (after (Memory.writeRow a false s)).getAtom a.atomId = some a := by
  obtain ⟨ladder, hafter⟩ := writeRow_after (s := s) a
  rw [hafter]
  exact Dict.get?_set_self _ _ _

theorem writeRow_fails (a : Atom) : Memory.writeRow a true s = .error .osError s := rfl

/-- The vectors an atom starts with: none. -/
def creationNotes (before after : LanceMemoryStore Vec) (id : String) :
    List (String × Option (EmbColumns Vec)) :=
  if (before.getAtom id).isNone && (after.getAtom id).isSome then [(id, none)] else []

theorem VectorsAgree.writeRow_noted (h : VectorsAgree s last) (a : Atom) (fails : Bool) :
    VectorsAgree (after (Memory.writeRow a fails s))
      (noteAll last (creationNotes s (after (Memory.writeRow a fails s)) a.atomId)) := by
  unfold creationNotes
  cases fails with
  | true =>
    rw [writeRow_fails]
    show VectorsAgree s (noteAll last (if (_ && _ : Bool) then _ else _))
    cases hatom : s.getAtom a.atomId <;> simpa [noteAll, after, hatom] using h
  | false =>
    have hnext := h.writeRow a
    rw [writeRow_getAtom]
    cases hatom : s.getAtom a.atomId with
    | none =>
      rw [h.unknown _ hatom] at hnext
      exact hnext
    | some b =>
      rw [(h.live _ b hatom).1, Function.update_eq_self] at hnext
      exact hnext

theorem VectorsAgree.putAtom (h : VectorsAgree s last) (a : Atom) (fails : Bool) :
    VectorsAgree (after (putAtom a fails s))
      (noteAll last (creationNotes s (after (putAtom a fails s)) a.atomId)) := by
  obtain ⟨d, hprepare⟩ := prepare_run s.indexes a
  have hrun : LanceMemoryStore.putAtom a fails s = (onIndexes (prepare a) >>= fun p =>
      Memory.writeRow p fails) s := rfl
  rw [hrun, run_bind]
  unfold onIndexes
  rw [hprepare]
  have hdir : VectorsAgree { s with indexes := { s.indexes with dir := d } } last :=
    h.same _ rfl (fun _ => rfl) rfl rfl
  cases hp : prepareForPut s.indexes.settings a with
  | error e =>
    have hnotes : creationNotes s { s with indexes := { s.indexes with dir := d } } a.atomId =
        ([] : List (String × Option (EmbColumns Vec))) := by
      unfold creationNotes
      rw [if_neg]
      show ¬((s.getAtom a.atomId).isNone && (s.getAtom a.atomId).isSome) = true
      cases s.getAtom a.atomId <;> simp
    show VectorsAgree { s with indexes := { s.indexes with dir := d } }
      (noteAll last (creationNotes s { s with indexes := { s.indexes with dir := d } } a.atomId))
    rw [hnotes]
    exact hdir
  | ok p =>
    have hnext := hdir.writeRow_noted p fails
    rw [(prepareForPut_frame _ a p hp).1] at hnext
    exact hnext

theorem updateLinks_run (id : String) (prev next : LinkChange) (fails : Bool) :
    updateLinks id prev next fails s = match s.getAtom id with
      | none => .error (.keyError [.text id]) s
      | some a =>
        if prev = .unset ∧ next = .unset then .ok a s
        else Memory.writeRow (LinkChange.applied a prev next) fails s := by
  show (match s.getAtom id with
    | none => _
    | some a => _ : Py (LanceMemoryStore Vec) Atom) s = _
  cases s.getAtom id with
  | none => rfl
  | some a =>
    show (if _ then _ else _ : Py (LanceMemoryStore Vec) Atom) s = _
    rw [run_ite]
    rfl

theorem VectorsAgree.updateLinks (h : VectorsAgree s last) (id : String) (prev next : LinkChange)
    (fails : Bool) : VectorsAgree (after (updateLinks id prev next fails s)) last := by
  rw [updateLinks_run]
  cases hatom : s.getAtom id with
  | none => exact h
  | some a =>
    dsimp only
    split_ifs
    · exact h
    · have hown : (LinkChange.applied a prev next).atomId = id := h.keyed id a hatom
      have hnext := h.writeRow_noted (LinkChange.applied a prev next) fails
      have hnotes : creationNotes s (after (Memory.writeRow (LinkChange.applied a prev next) fails s))
          (LinkChange.applied a prev next).atomId = [] := by
        unfold creationNotes
        rw [hown, hatom]
        rfl
      rw [hnotes] at hnext
      exact hnext

/-- The version of an atom is a number, as a comparison of tips needs. -/
def VersionReads (a : Atom) : Prop := ∃ n, a.version = .ok n

def VersionsRead (s : LanceMemoryStore Vec) : Prop :=
  ∀ id a, s.getAtom id = some a → VersionReads a

omit [VectorColumn Vec] in
theorem readiedAtom_version (a : Atom) (emb : EmbeddingSet Vec) :
    (readiedAtom a emb).version = a.version := by
  have hmeta : (readiedAtom a emb).metadata.get? "version" = a.metadata.get? "version" := by
    unfold readiedAtom
    dsimp only
    rw [Dict.get?_set_ne _ _ (by decide), Dict.get?_set_ne _ _ (by decide)]
    split_ifs
    · rw [Dict.get?_set_ne _ _ (by decide), Dict.get?_set_ne _ _ (by decide)]
    · rw [Dict.get?_set_ne _ _ (by decide)]
    · rw [Dict.get?_set_ne _ _ (by decide)]
    · rfl
  unfold Atom.version
  rw [hmeta]

theorem indexPut_ok (i : JsonlMemoryStore) (a : Atom)
    (hall : ∀ id b, i.byId.get? id = some b → VersionReads b) (ha : VersionReads a) :
    ∃ ladder, indexPut a i = .ok () { i with ladder, byId := i.byId.set a.atomId a } := by
  rw [indexPut, run_bind]
  show ∃ ladder, raiseTip a _ = _
  rw [raiseTip]
  cases a.tipKey with
  | none => exact ⟨_, rfl⟩
  | some key =>
    dsimp only
    split
    · exact ⟨_, rfl⟩
    · split
      · exact ⟨_, rfl⟩
      · split
        · exact ⟨_, rfl⟩
        · rename_i cur hcur
          have hread : VersionReads cur := by
            rw [Dict.get?_set] at hcur
            split_ifs at hcur
            · rw [← Option.some.inj hcur]
              exact ha
            · exact hall _ _ hcur
          obtain ⟨n, hn⟩ := ha
          obtain ⟨m, hm⟩ := hread
          have hnewer : ∃ b, newer a cur = .ok b := by
            unfold newer Atom.summaryVersionKey
            rw [hn, hm]
            exact ⟨_, rfl⟩
          obtain ⟨b, hb⟩ := hnewer
          rw [hb]
          cases b <;> exact ⟨_, rfl⟩

/-- A vector write whose table write does not raise. -/
theorem VectorsAgree.writeVectors (h : VectorsAgree s last) {id : String} {a : Atom}
    (ha : s.getAtom id = some a) {emb : EmbeddingSet Vec} (hclean : Clean (columnsOf emb))
    (hok : s.vectorSchemaOk = true) (hread : VersionsRead s) :
    ∃ t u, upsertRow (readiedAtom a emb) false
        { s with embById := s.embById.set id (columnsOf emb) } = .ok () t ∧
      onIndexes (indexPut (readiedAtom a emb)) t = .ok () u ∧
      VectorsAgree u (Function.update last id (some (columnsOf emb))) ∧
      u.vectorSchemaOk = true ∧ VersionsRead u ∧
      ∀ other, (s.getAtom other).isSome → (u.getAtom other).isSome := by
  have hown : a.atomId = id := h.keyed id a ha
  have hversion : VersionReads (readiedAtom a emb) := by
    unfold VersionReads
    rw [readiedAtom_version]
    exact hread id a ha
  obtain ⟨ladder, hput⟩ := indexPut_ok s.indexes (readiedAtom a emb) hread hversion
  let marked : LanceMemoryStore Vec := { s with embById := s.embById.set id (columnsOf emb) }
  let row := marked.attachEmbColumns (lanceRowForDisk (readiedAtom a emb))
  let u : LanceMemoryStore Vec :=
    { marked with
      indexes := { s.indexes with
        ladder, byId := s.indexes.byId.set (readiedAtom a emb).atomId (readiedAtom a emb) }
      table := s.table.set (readiedAtom a emb).atomId row }
  have hrow : row.atomId = a.atomId ∧ row.emb = columnsOf emb := by
    show (marked.attachEmbColumns _).atomId = _ ∧ (marked.attachEmbColumns _).emb = _
    unfold attachEmbColumns
    rw [if_pos hok]
    refine ⟨rfl, ?_⟩
    show (((s.embById.set id (columnsOf emb)).get? a.atomId).getD {}).narrowed = _
    rw [hown, Dict.get?_set_self]
    exact hclean.exact
  have hget : ∀ other, u.getAtom other =
      if a.atomId = other then some (readiedAtom a emb) else s.getAtom other :=
    fun other => Dict.get?_set _ _ _ _
  refine ⟨_, u, rfl, ?_, ?_, hok, ?_, ?_⟩
  · unfold onIndexes
    dsimp only
    rw [hput]
  · rw [← hown]
    refine h.write u (readiedAtom a emb) _ ?_ ?_ rfl ?_ row hrow rfl rfl
    · intro m hm
      rw [← Option.some.inj hm]
      exact hclean
    · intro hbad
      rw [hok] at hbad
      cases hbad
    · intro other
      show (s.embById.set id (columnsOf emb)).get? other = _
      rw [Dict.get?_set, ← hown]
      rfl
  · intro other b hb
    rw [hget] at hb
    split_ifs at hb
    · rw [← Option.some.inj hb]
      exact hversion
    · exact hread other b hb
  · intro other hsome
    rw [hget]
    split_ifs
    · rfl
    · exact hsome

/-- A vector write that the store takes up. -/
def Accepts (s : LanceMemoryStore Vec) (id : String) (emb : EmbeddingSet Vec) : Bool :=
  s.vectorSchemaOk && (s.getAtom id).isSome && (emb.atomId = "" || emb.atomId = id) &&
    emb.embeddingsAreReady false

omit [PyCoerce] in
theorem columnsOf_ready {emb : EmbeddingSet Vec} (h : emb.embeddingsAreReady false = true)
    (hexact : Exact emb) : Clean (columnsOf emb) := by
  obtain ⟨c, v, hv⟩ := EmbeddingSet.ready_has_vector h
  exact columnsOf_clean hv hexact

omit [PyCoerce] in
/-- A joint copy holds no vector that its set does not hold. -/
theorem exact_jointCopy {id : String} {m : EmbColumns Vec} {emb fixed : EmbeddingSet Vec}
    (hm : m.narrowed = m) (hemb : embeddingSetFromMap id m = some emb)
    (hfixed : emb.jointCopyEmbeddingSet = some fixed) : Exact fixed := by
  have hvectors : ∀ c v, emb.channelVector c = some v → VectorColumn.narrow v = v := by
    unfold embeddingSetFromMap at hemb
    split_ifs at hemb
    rw [← Option.some.inj hemb]
    obtain ⟨text, image, audio, video, joint, model, encoded⟩ := m
    simp only [EmbColumns.narrowed, EmbColumns.mk.injEq] at hm
    obtain ⟨htext, himage, haudio, hvideo, hjoint, -⟩ := hm
    intro c v hv
    cases c <;> simp_all [EmbeddingSet.channelVector]
  rw [EmbeddingSet.jointCopyEmbeddingSet] at hfixed
  split_ifs at hfixed
  obtain ⟨sole, hsole, rfl⟩ := Option.map_eq_some_iff.mp hfixed
  have hkeep (c : Channel) : (emb.channelVector c).map VectorColumn.narrow = emb.channelVector c := by
    cases hc : emb.channelVector c with
    | none => rfl
    | some v => exact congrArg some (hvectors c v hc)
  have hcopy : VectorColumn.narrow sole.2 = sole.2 := by
    have hmem : sole ∈ Channel.modalities.filterMap
        fun c => (emb.channelVector c).map fun v => (c, v) := by
      unfold EmbeddingSet.soleNonJointVector at hsole
      split at hsole
      · rename_i found hlist
        rw [hlist, ← Option.some.inj hsole]
        exact List.mem_singleton_self found
      · cases hsole
    obtain ⟨c, -, hc⟩ := List.mem_filterMap.mp hmem
    obtain ⟨v, hv, rfl⟩ := Option.map_eq_some_iff.mp hc
    exact hvectors c v hv
  have htext := hkeep .text
  have himage := hkeep .image
  have haudio := hkeep .audio
  have hvideo := hkeep .video
  simp only [EmbeddingSet.channelVector] at htext himage haudio hvideo
  simp only [Exact, EmbColumns.narrowed, columnsOf, htext, himage, haudio, hvideo, Option.map_some,
    hcopy]

theorem upsertVectors_refused {id : String} {emb : EmbeddingSet Vec} (fails : Bool)
    (h : Accepts s id emb = false) : upsertVectors id emb fails s = .ok false s := by
  unfold upsertVectors
  unfold Accepts at h
  cases hok : s.vectorSchemaOk with
  | false => rfl
  | true =>
    cases ha : s.getAtom id with
    | none => rfl
    | some a =>
      rw [hok, ha] at h
      simp only [Option.isSome_some, Bool.and_self, Bool.true_and, Bool.and_eq_false_iff,
        Bool.or_eq_false_iff, decide_eq_false_iff_not] at h
      dsimp only [Bool.not_true]
      obtain hown | hready := h
      · rw [if_neg (by decide), if_pos hown]
      · rw [if_neg (by decide)]
        split_ifs with _ hgo
        · rfl
        · rfl
        · exact absurd (by rw [hready]; rfl) hgo

theorem upsertVectors_accepted {id : String} {emb : EmbeddingSet Vec} {a : Atom}
    (h : Accepts s id emb = true) (ha : s.getAtom id = some a) (fails : Bool) :
    upsertVectors id emb fails s =
      match upsertRow (readiedAtom a emb) fails
        { s with embById := s.embById.set id (columnsOf emb) } with
      | .error _ t => .ok false { t with embById := t.embById.pop id }
      | .ok _ t =>
        match onIndexes (indexPut (readiedAtom a emb)) t with
        | .error e u => .error e u
        | .ok _ u => .ok true u := by
  unfold Accepts at h
  simp only [Bool.and_eq_true, Bool.or_eq_true, decide_eq_true_eq] at h
  obtain ⟨⟨⟨hok, -⟩, hown⟩, hready⟩ := h
  unfold upsertVectors
  rw [if_neg (by rw [hok]; decide), ha]
  dsimp only
  exact (if_neg (by tauto)).trans (if_neg (by rw [hready]; decide))

/-- The joint copies that the ids stand for, which a repair wrote. -/
def repairedColumns (s : LanceMemoryStore Vec) (ids : List String) :
    List (String × Option (EmbColumns Vec)) :=
  ids.filterMap fun id =>
    ((s.getVectors id).bind EmbeddingSet.jointCopyEmbeddingSet).map fun fixed =>
      (id, some (columnsOf fixed))

/-- The vectors of atoms that a call changed, by its reply. -/
def accepted (s : LanceMemoryStore Vec) :
    LanceCall Vec → List (String × Option (EmbColumns Vec))
  | .putAtom a fails => creationNotes s (after (LanceMemoryStore.putAtom a fails s)) a.atomId
  | .updateLinks _ _ _ _ => []
  | .upsertVectors id emb fails =>
    match upsertVectors id emb fails s with
    | .ok true _ => [(id, some (columnsOf emb))]
    | _ => []
  | .repairJointCopies limit fails =>
    match repairJointCopies limit fails s with
    | .ok ids _ => repairedColumns s ids
    | .error _ _ => []
  | .deleteAtom id fails =>
    match deleteAtom id fails s with
    | .ok true _ => [(id, none)]
    | _ => []
  | .reopen rows openCap fails =>
    match s.load rows with
    | .ok t =>
      match repairJointCopies openCap fails t with
      | .ok ids _ => repairedColumns t ids
      | .error _ _ => []
    | .error _ => []

/-- What a call must meet: a table write fails only on an atom without vectors, apart from scalar
writes and repairs, the vectors a caller writes are `float32` values, and where vectors are written
the versions compared are numbers. -/
def LanceSteady (s : LanceMemoryStore Vec) : LanceCall Vec → Prop
  | .putAtom _ _ => True
  | .updateLinks _ _ _ _ => True
  | .upsertVectors id emb fails =>
    Accepts s id emb = true →
      (fails = true → s.embById.get? id = none) ∧ Exact emb ∧ VersionsRead s
  | .repairJointCopies _ _ => VersionsRead s
  | .deleteAtom id fails => fails = true → s.embById.get? id = none
  | .reopen rows _ _ => rows.Perm s.table.values ∧
    ∀ row ∈ rows, ∀ a, atomFromRow row = .ok a → VersionReads a

theorem VectorsAgree.upsertVectors (h : VectorsAgree s last) {id : String}
    {emb : EmbeddingSet Vec} {fails : Bool} (hc : LanceSteady s (.upsertVectors id emb fails)) :
    VectorsAgree (after (upsertVectors id emb fails s))
      (noteAll last (accepted s (.upsertVectors id emb fails))) := by
  unfold accepted
  dsimp only
  cases haccepts : Accepts s id emb with
  | false =>
    rw [upsertVectors_refused fails haccepts]
    exact h
  | true =>
    obtain ⟨hempty, hexact, hread⟩ := hc haccepts
    have haccepts' := haccepts
    unfold Accepts at haccepts'
    simp only [Bool.and_eq_true] at haccepts'
    obtain ⟨⟨⟨hok, hsome⟩, -⟩, hready⟩ := haccepts'
    obtain ⟨a, ha⟩ := Option.isSome_iff_exists.mp hsome
    rw [upsertVectors_accepted haccepts ha]
    cases fails with
    | false =>
      obtain ⟨t, u, hrow, hput, hagree, -⟩ := h.writeVectors ha (columnsOf_ready hready hexact) hok hread
      rw [hrow]
      dsimp only
      rw [hput]
      exact hagree
    | true =>
      refine h.same _ rfl ?_ rfl rfl
      intro other
      show ((s.embById.set id (columnsOf emb)).pop id).get? other = _
      rw [Dict.get?_pop, Dict.get?_set]
      split_ifs with hid
      · rw [← hid, hempty rfl]
      · rfl

/-- The loop writes the joint copies of the atoms whose write does not fail, and a failed one
leaves its vectors. -/
theorem VectorsAgree.repairLoop (fails : String → Bool) :
    ∀ (cands : List (String × EmbeddingSet Vec)) (repaired : List String)
      (s : LanceMemoryStore Vec) (last : String → Option (EmbColumns Vec)),
      VectorsAgree s last → s.vectorSchemaOk = true → VersionsRead s →
      (∀ p ∈ cands, (s.getAtom p.1).isSome ∧ Clean (columnsOf p.2)) →
      ∃ t, repairLoop fails cands repaired s =
          .ok (repaired ++ (cands.filter fun p => !fails p.1).map Prod.fst) t ∧
        VectorsAgree t (noteAll last ((cands.filter fun p => !fails p.1).map fun p =>
          (p.1, some (columnsOf p.2)))) ∧
        ∀ other, (s.getAtom other).isSome → (t.getAtom other).isSome := by
  intro cands
  induction cands with
  | nil =>
    intro repaired s last h _ _ _
    refine ⟨s, ?_, h, fun _ hsome => hsome⟩
    rw [List.filter_nil, List.map_nil, List.append_nil]
    rfl
  | cons p rest ih =>
    obtain ⟨id, fixed⟩ := p
    intro repaired s last h hok hread hcands
    obtain ⟨hsome, hclean⟩ := hcands _ List.mem_cons_self
    obtain ⟨a, ha⟩ := Option.isSome_iff_exists.mp hsome
    unfold LanceMemoryStore.repairLoop
    rw [ha]
    dsimp only
    cases hfails : fails id with
    | true =>
      let restored : LanceMemoryStore Vec := { s with
        embById := (s.embById.get? id).elim ((s.embById.set id (columnsOf fixed)).pop id)
          fun prev => (s.embById.set id (columnsOf fixed)).set id prev }
      have hrestored : VectorsAgree restored last := by
        refine h.same _ rfl ?_ rfl rfl
        intro other
        show ((s.embById.get? id).elim ((s.embById.set id (columnsOf fixed)).pop id)
          fun prev => (s.embById.set id (columnsOf fixed)).set id prev).get? other = _
        cases hprev : s.embById.get? id with
        | none =>
          rw [Option.elim_none, Dict.get?_pop, Dict.get?_set]
          split_ifs with hid
          · rw [← hid, hprev]
          · rfl
        | some prev =>
          rw [Option.elim_some, Dict.get?_set, Dict.get?_set]
          split_ifs with hid
          · rw [← hid, hprev]
          · rfl
      obtain ⟨t, hrun, hlast, hstay⟩ := ih repaired restored last hrestored hok hread
        (fun q hq => hcands q (List.mem_cons_of_mem _ hq))
      rw [List.filter_cons_of_neg (by rw [hfails]; decide)]
      refine ⟨t, (congrArg (fun held => LanceMemoryStore.repairLoop fails rest repaired
        { s with embById := held }) ?_).trans hrun, hlast, hstay⟩
      cases s.embById.get? id <;> rfl
    | false =>
      obtain ⟨t, u, hrow, hput, hagree, hschema, hreads, hkeep⟩ :=
        h.writeVectors ha hclean hok hread
      rw [List.filter_cons_of_pos (by rw [hfails]; decide), hrow]
      dsimp only
      rw [hput]
      obtain ⟨v, hrun, hlast, hstay⟩ := ih (repaired ++ [id]) u _ hagree hschema hreads
        (fun q hq => ⟨hkeep _ (hcands q (List.mem_cons_of_mem _ hq)).1,
          (hcands q (List.mem_cons_of_mem _ hq)).2⟩)
      refine ⟨v, ?_, hlast, fun other hother => hstay other (hkeep other hother)⟩
      rw [List.append_assoc] at hrun
      exact hrun

omit [VectorColumn Vec] [PyCoerce] in
theorem mem_repairCandidates {p : String × EmbeddingSet Vec} (h : p ∈ s.repairCandidates) :
    (s.getAtom p.1).isSome ∧
      (s.getVectors p.1).bind EmbeddingSet.jointCopyEmbeddingSet = some p.2 := by
  unfold repairCandidates at h
  obtain ⟨id, -, hid⟩ := List.mem_filterMap.mp h
  cases ha : s.getAtom id with
  | none =>
    rw [ha] at hid
    cases hid
  | some a =>
    rw [ha] at hid
    dsimp only at hid
    split_ifs at hid
    obtain ⟨fixed, hfixed, rfl⟩ := Option.map_eq_some_iff.mp hid
    exact ⟨by rw [ha]; rfl, hfixed⟩

omit [VectorColumn Vec] [PyCoerce] in
theorem repairedColumns_of_candidates {cands : List (String × EmbeddingSet Vec)}
    (h : ∀ p ∈ cands, (s.getVectors p.1).bind EmbeddingSet.jointCopyEmbeddingSet = some p.2) :
    repairedColumns s (cands.map Prod.fst) = cands.map fun p => (p.1, some (columnsOf p.2)) := by
  induction cands with
  | nil => rfl
  | cons p cands ih =>
    unfold repairedColumns at ih ⊢
    rw [List.map_cons, List.filterMap_cons, h p List.mem_cons_self]
    exact congrArg _ (ih fun q hq => h q (List.mem_cons_of_mem _ hq))

/-- A repair returns, and the ids it returns are those whose joint copy it wrote. -/
theorem VectorsAgree.repairJointCopies (h : VectorsAgree s last) (hread : VersionsRead s)
    (limit : Int) (fails : String → Bool) : ∃ ids t, repairJointCopies limit fails s = .ok ids t ∧
      VectorsAgree t (noteAll last (repairedColumns s ids)) ∧
      ∀ other, (s.getAtom other).isSome → (t.getAtom other).isSome := by
  unfold LanceMemoryStore.repairJointCopies
  by_cases hgo : (!s.vectorSchemaOk || decide (limit ≤ 0)) = true
  · rw [if_pos hgo]
    exact ⟨[], s, rfl, h, fun _ hsome => hsome⟩
  · rw [if_neg hgo]
    have hok : s.vectorSchemaOk = true := by
      cases hschema : s.vectorSchemaOk with
      | true => rfl
      | false =>
        rw [hschema] at hgo
        exact absurd rfl hgo
    have hcands : ∀ p ∈ s.repairCandidates.take limit.toNat, (s.getAtom p.1).isSome ∧
        Clean (columnsOf p.2) := by
      intro p hp
      obtain ⟨hsome, hcopy⟩ := mem_repairCandidates (List.mem_of_mem_take hp)
      obtain ⟨emb, hemb, hfixed⟩ := Option.bind_eq_some_iff.mp hcopy
      obtain ⟨m, hm, hset⟩ := Option.bind_eq_some_iff.mp hemb
      obtain ⟨a, ha⟩ := Option.isSome_iff_exists.mp hsome
      have hclean := h.proper _ m ((h.live _ a ha).1.symm.trans hm)
      obtain ⟨v, hv⟩ := EmbeddingSet.jointCopyEmbeddingSet_joint hfixed
      exact ⟨hsome, columnsOf_clean (c := .joint) hv (exact_jointCopy hclean.exact hset hfixed)⟩
    obtain ⟨t, hrun, hagree, hkeep⟩ := VectorsAgree.repairLoop fails _ [] s last h hok hread hcands
    refine ⟨_, t, hrun, ?_, hkeep⟩
    rw [List.nil_append, repairedColumns_of_candidates]
    · exact hagree
    · intro p hp
      exact (mem_repairCandidates (List.mem_of_mem_take (List.mem_of_mem_filter hp))).2

theorem VectorsAgree.deleteAtom (h : VectorsAgree s last) {id : String} {fails : Bool}
    (hc : LanceSteady s (.deleteAtom id fails)) :
    VectorsAgree (after (deleteAtom id fails s))
      (noteAll last (accepted s (.deleteAtom id fails))) := by
  unfold accepted
  dsimp only
  unfold LanceMemoryStore.deleteAtom
  cases ha : s.getAtom id with
  | none => exact h
  | some old =>
    dsimp only
    have hget : ∀ other, ((s.indexes.byId.pop id).get? other : Option Atom) =
        if id = other then none else s.getAtom other := fun other => Dict.get?_pop _ _ _
    have hpop : ∀ other, (s.embById.pop id).get? other =
        if id = other then none else s.embById.get? other := fun other => Dict.get?_pop _ _ _
    cases fails with
    | true =>
      have hlast : last id = none := (h.live id old ha).1.symm.trans (hc rfl)
      refine ⟨?_, ?_, ?_, h.disk, h.proper, h.schema⟩
      · intro other b hb
        have hb' := (hget other).symm.trans hb
        split_ifs at hb'
        exact h.keyed other b hb'
      · intro other b hb
        have hb' := (hget other).symm.trans hb
        split_ifs at hb' with hid
        refine ⟨?_, (h.live other b hb').2⟩
        exact (hpop other).trans (by rw [if_neg hid, (h.live other b hb').1]; rfl)
      · intro other hb
        have hb' := (hget other).symm.trans hb
        refine (hpop other).trans ?_
        split_ifs at hb' ⊢ with hid
        · rfl
        · exact h.unknown other hb'
    | false =>
      have htable : ∀ other, (s.table.pop id).get? other =
          if id = other then none else s.table.get? other := fun other => Dict.get?_pop _ _ _
      have hnote : ∀ other, noteAll last [(id, none)] other =
          if id = other then none else last other := by
        intro other
        show Function.update last id none other = _
        by_cases hid : id = other
        · subst hid
          rw [Function.update_self, if_pos rfl]
        · rw [Function.update_of_ne (Ne.symm hid), if_neg hid]
      let popped : LanceMemoryStore Vec := { s with
        indexes := { s.indexes with
          byId := s.indexes.byId.pop id
          ladder := dropTip (some old) s.indexes.ladder
          dir := s.indexes.dir.unlinkBlobIfAny old.contentRef }
        embById := s.embById.pop id
        table := s.table.pop id }
      show VectorsAgree popped (noteAll last [(id, none)])
      refine ⟨?_, ?_, ?_, ?_, ?_, ?_⟩
      · intro other b hb
        have hb' := (hget other).symm.trans hb
        split_ifs at hb'
        exact h.keyed other b hb'
      · intro other b hb
        have hb' := (hget other).symm.trans hb
        split_ifs at hb' with hid
        rw [hnote, if_neg hid]
        refine ⟨(hpop other).trans ?_, ?_⟩
        · rw [if_neg hid]
          exact (h.live other b hb').1
        · rw [← (h.live other b hb').2]
          show ((s.table.pop id).get? other).map LanceRow.emb = _
          rw [htable, if_neg hid]
          rfl
      · intro other hb
        have hb' := (hget other).symm.trans hb
        refine (hpop other).trans ?_
        split_ifs at hb' ⊢ with hid
        · rfl
        · exact h.unknown other hb'
      · intro other row hrow
        have hrow' := (htable other).symm.trans hrow
        split_ifs at hrow' with hid
        rw [hnote, if_neg hid]
        exact h.disk other row hrow'
      · intro other m hm
        rw [hnote] at hm
        split_ifs at hm
        exact h.proper other m hm
      · intro hok other
        rw [hnote, h.schema hok]
        split_ifs <;> rfl

end Scalar

end Elyra.Memory
