import Elyra.Memory.LanceMigration

namespace Elyra.Memory

open Json

variable {Vec : Type}

section Rows

def KeyedRows (rows : Dict String (LanceRow Vec)) : Prop :=
  ∀ id r, rows.get? id = some r → r.atomId = id

theorem rowsDict_values {rows : Dict String (LanceRow Vec)} (h : KeyedRows rows) :
    rowsDict rows.values = rows := by
  have hpairs : rows.values.map (fun r => (r.atomId, r)) = rows.items := by
    rw [Dict.values, List.map_map]
    calc rows.items.map ((fun r : LanceRow Vec => (r.atomId, r)) ∘ Prod.snd)
        = rows.items.map id := by
          apply List.map_congr_left
          intro p hp
          exact Prod.ext (h p.1 p.2 ((rows.get?_eq_some_iff p.1 p.2).mpr hp)) rfl
      _ = rows.items := List.map_id _
  rw [rowsDict, hpairs, Dict.ofList_items]

/-- The rows after the migration. -/
def migrated (rows : Dict String (LanceRow Vec)) : Dict String (LanceRow Vec) :=
  ⟨rows.items.map fun p => (p.1, migratedRow p.2), by
    rw [List.map_map]
    exact rows.nodup⟩

theorem get?_migrated (rows : Dict String (LanceRow Vec)) (id : String) :
    (migrated rows).get? id = (rows.get? id).map migratedRow :=
  Dict.findItem_map migratedRow rows.items id

theorem values_migrated (rows : Dict String (LanceRow Vec)) :
    (migrated rows).values = rows.values.map migratedRow := by
  rw [migrated, Dict.values, Dict.values, List.map_map, List.map_map]
  rfl

theorem KeyedRows.migrated {rows : Dict String (LanceRow Vec)} (h : KeyedRows rows) :
    KeyedRows (migrated rows) := by
  intro id r hr
  rw [get?_migrated] at hr
  obtain ⟨old, hold, rfl⟩ := Option.map_eq_some_iff.mp hr
  exact h id old hold

theorem rowsDict_migrated {rows : Dict String (LanceRow Vec)} (h : KeyedRows rows) :
    rowsDict (rows.values.map migratedRow) = migrated rows := by
  rw [← values_migrated]
  exact rowsDict_values h.migrated

theorem nullableCell_cellJson {kvs : List (String × Json)} {col : String} {cell : Option String}
    (h : lookup kvs col = some (cellJson cell)) : nullableCell kvs col = some cell := by
  rw [nullableCell, h]
  cases cell <;> rfl

theorem textCell_str {kvs : List (String × Json)} {col s : String}
    (h : lookup kvs col = some (.str s)) : textCell kvs col = some s := by
  rw [textCell, h]

/-- A row that the migration wrote to the backup reads back as it was. -/
theorem restoredRow_backupRow (r : LanceRow Vec) (h : r.emb = {}) :
    restoredRow (.obj (backupRow r)) = some r := by
  have hversion : versionCell (backupRow r) = some r.schemaVersion := rfl
  unfold restoredRow
  dsimp only
  rw [textCell_str (s := r.atomId) rfl, textCell_str (s := r.tStart) rfl,
    textCell_str (s := r.kind) rfl, textCell_str (s := r.contentText) rfl,
    textCell_str (s := r.contentRef) rfl, @nullableCell_cellJson _ _ r.tEnd rfl,
    @nullableCell_cellJson _ _ r.momentId rfl, textCell_str (s := r.mediaIdsJson) rfl,
    @nullableCell_cellJson _ _ r.prevAtomId rfl,
    @nullableCell_cellJson _ _ r.nextAtomId rfl,
    @nullableCell_cellJson _ _ r.parentAtomId rfl,
    @nullableCell_cellJson _ _ r.scale rfl, @nullableCell_cellJson _ _ r.windowStart rfl,
    @nullableCell_cellJson _ _ r.windowEnd rfl,
    @nullableCell_cellJson _ _ r.sourceBeatTs rfl,
    @nullableCell_cellJson _ _ r.sourceBeatType rfl,
    textCell_str (s := r.embeddingStatus) rfl, textCell_str (s := r.metaJson) rfl, hversion]
  cases r
  cases h
  rfl

theorem loadedRows_backupText (rows : List (LanceRow Vec)) :
    loadedRows (backupText rows).toList = rows.map fun r => .obj (backupRow r) := by
  have hloaded := loadedRows_rowsText (rows.map backupRow) []
  have hnil : loadedRows [] = [] := rfl
  rw [hnil, List.append_nil, List.append_nil, List.map_map] at hloaded
  rw [backupText, String.toList_ofList]
  exact hloaded

theorem restoredRows_backupText (rows : List (LanceRow Vec)) (h : ∀ r ∈ rows, r.emb = {}) :
    restoredRows (backupText rows) = some rows := by
  rw [restoredRows, loadedRows_backupText]
  induction rows with
  | nil => rfl
  | cons r rows ih =>
    have hrest := ih fun q hq => h q (List.mem_cons_of_mem _ hq)
    rw [List.map_cons, List.mapM_cons, restoredRow_backupRow r (h r List.mem_cons_self), hrest]
    rfl

end Rows

section Migrating

/-- Every crash point of a migration of `rows`: the table as it was, migrated, missing, or left empty
by an opening that could not recover; whatever else there is holds the migrated rows. -/
structure Migrating (rows : Dict String (LanceRow Vec)) (d : LanceDir Vec) : Prop where
  atoms : ∀ t, d.atoms = some t → t = ⟨rows, false⟩ ∨ t = ⟨migrated rows, true⟩ ∨
    (t = ⟨.empty, true⟩ ∧ d.hasRecoverableMigrationArtifacts)
  staging : ∀ st, d.staging = some st → st = migrated rows
  backups : ∀ name text, d.backups.get? name = some text →
    text = backupText (rows.values.map migratedRow)
  held : d.atoms = none → d.hasRecoverableMigrationArtifacts

variable {rows : Dict String (LanceRow Vec)} {d : LanceDir Vec}

theorem newest_spec {d : LanceDir Vec} {name text : String}
    (h : d.newestMigrationBackup = some (name, text)) : d.backups.get? name = some text := by
  obtain ⟨last, -, hlast⟩ := Option.bind_eq_some_iff.mp h
  obtain ⟨found, hfound, hpair⟩ := Option.map_eq_some_iff.mp hlast
  obtain ⟨rfl, rfl⟩ := Prod.mk.inj hpair
  exact hfound

theorem restored_migrated (rows : Dict String (LanceRow Vec)) :
    restoredRows (backupText (rows.values.map migratedRow)) =
      some (rows.values.map migratedRow) := by
  apply restoredRows_backupText
  intro r hr
  obtain ⟨old, -, rfl⟩ := List.mem_map.mp hr
  rfl

/-- The atoms table is gone, and something to recover it from is there. -/
theorem Migrating.dropped (h : Migrating rows d) (hart : d.hasRecoverableMigrationArtifacts) :
    Migrating rows { d with atoms := none } :=
  ⟨fun _ ht => (nomatch ht), h.staging, h.backups, fun _ => hart⟩

theorem Migrating.created (h : Migrating rows d) :
    Migrating rows { d with atoms := some ⟨migrated rows, true⟩ } := by
  refine ⟨?_, h.staging, h.backups, fun hnone => (nomatch hnone)⟩
  intro t ht
  exact .inr (.inl (Option.some.inj ht).symm)

/-- The staging table may go once the atoms table holds rows. -/
theorem Migrating.unstaged (h : Migrating rows d) {t : AtomsTable Vec} (ht : d.atoms = some t)
    (hfull : t = ⟨rows, false⟩ ∨ t = ⟨migrated rows, true⟩) :
    Migrating rows { d with staging := none } := by
  refine ⟨?_, fun _ hst => (nomatch hst), h.backups, ?_⟩
  · intro u hu
    rw [show d.atoms = some u from hu] at ht
    rw [Option.some.inj ht]
    exact hfull.imp_right .inl
  · intro hnone
    rw [show d.atoms = none from hnone] at ht
    cases ht

/-- An opening on its way; where `failing` is set an error has been noted. -/
def Underway (rows : Dict String (LanceRow Vec)) (failing : Bool) (o : LanceOpening Vec) : Prop :=
  Migrating rows o.dir ∧ (failing = true → o.vectorError ≠ none)

/-- The same, with something to recover the table from. -/
def Backed (rows : Dict String (LanceRow Vec)) (failing : Bool) (o : LanceOpening Vec) : Prop :=
  Underway rows failing o ∧ o.dir.hasRecoverableMigrationArtifacts

def Holds (rows : Dict String (LanceRow Vec)) (failing : Bool) (o : LanceOpening Vec) : Prop :=
  Underway rows failing o ∧ o.dir.atoms = some ⟨migrated rows, true⟩

/-- Wherever the process dies or an operation raises, the crash point is one of those above. -/
def Interrupted (rows : Dict String (LanceRow Vec)) (failing : Bool) (_ : Fault)
    (o : LanceOpening Vec) : Prop :=
  Underway rows failing o

/-- The opening has the migrated rows, and reports no error. -/
def Recovered (rows : Dict String (LanceRow Vec)) (o : LanceOpening Vec) : Prop :=
  Migrating rows o.dir ∧ o.dir.atoms = some ⟨migrated rows, true⟩ ∧ o.vectorError = none

variable {failing : Bool}

theorem createAtoms_triple (hkeyed : KeyedRows rows) :
    Triple (Backed rows failing) (createAtoms (rows.values.map migratedRow))
      (fun _ => Holds rows failing) (Interrupted rows failing) := by
  apply triple_look_bind
  intro o ho
  apply triple_ite
  · intro _
    exact triple_raise _ fun _ heq => heq ▸ ho.1
  · intro _
    apply Triple.start _ ho
    apply triple_operation
    · intro u hu
      rw [rowsDict_migrated hkeyed]
      exact ⟨⟨hu.1.1.created, hu.1.2⟩, rfl⟩
    · exact fun _ hu => hu.1
    · exact fun _ hu => hu.1

theorem dropAtomsIfPresent_triple :
    Triple (@Backed Vec rows failing) dropAtomsIfPresent (fun _ => Backed rows failing)
      (Interrupted rows failing) := by
  apply triple_look_bind
  intro o ho
  apply triple_ite
  · intro _
    apply Triple.start _ ho
    apply triple_operation
    · exact fun u hu => ⟨⟨hu.1.1.dropped hu.2, hu.1.2⟩, hu.2⟩
    · exact fun _ hu => hu.1
    · exact fun _ hu => hu.1
  · intro _
    exact triple_pure _ fun _ heq => heq ▸ ho

/-- The staging table goes, or stays with a warning. -/
theorem dropStaging_triple :
    Triple (Holds rows failing) (tryExcept dropStaging fun _ => return ())
      (fun _ => Holds rows failing) (Interrupted rows failing) := by
  apply triple_tryExcept (F := fun _ => Holds rows failing)
  · apply triple_operation
    · exact fun o ho => ⟨⟨ho.1.1.unstaged ho.2 (.inr rfl), ho.1.2⟩, ho.2⟩
    · exact fun _ ho => ho
    · exact fun _ ho => ho
  · exact fun _ ho => ho.1
  · intro e
    exact triple_pure _ fun _ ho => ho

theorem vectorsReady_triple :
    Triple (Holds rows failing) (note vectorsReady) (fun _ => Recovered rows)
      (Interrupted rows failing) :=
  triple_note _ fun _ ho => ⟨ho.1.1, ho.2, rfl⟩

/-- A step that hands `a` on when it returns `a`. -/
theorem triple_given {α β : Type} {a : α} {P : LanceOpening Vec → Prop} {m : OpenM Vec α}
    {f : α → OpenM Vec β} {R : β → LanceOpening Vec → Prop} {E : Fault → LanceOpening Vec → Prop}
    {Q : LanceOpening Vec → Prop} (hm : Triple P m (fun found o => found = a ∧ Q o) E)
    (hf : Triple Q (f a) R E) : Triple P (m >>= f) R E := by
  apply triple_bind hm
  rintro found s ⟨rfl, hs⟩
  exact hf s hs

theorem promoteStagingTable_triple (hkeyed : KeyedRows rows) :
    Triple (fun o : LanceOpening Vec => Underway rows failing o ∧ o.dir.staging.isSome)
      promoteStagingTable (fun _ => Recovered rows) (Interrupted rows failing) := by
  apply triple_given (a := rows.values.map migratedRow) (Q := Backed rows failing)
  · apply triple_operationWith
    · intro o ⟨ho, hst⟩
      obtain ⟨st, hstaging⟩ := Option.isSome_iff_exists.mp hst
      refine ⟨?_, ho, ?_⟩
      · show (o.dir.staging.map Dict.values).getD [] = _
        rw [hstaging, ho.1.staging st hstaging]
        exact values_migrated rows
      · show (_ || _) = true
        rw [hst, Bool.true_or]
    · exact fun _ ho => ho.1
    · exact fun _ ho => ho.1
  apply triple_bind dropAtomsIfPresent_triple
  intro _
  apply triple_bind (createAtoms_triple hkeyed)
  intro _
  apply triple_bind dropStaging_triple
  intro _
  exact vectorsReady_triple

theorem restoreFromMigrationBackup_triple (hkeyed : KeyedRows rows) {text : String}
    (htext : text = backupText (rows.values.map migratedRow)) :
    Triple (Backed rows failing) (@restoreFromMigrationBackup Vec text)
      (fun _ => Recovered rows) (Interrupted rows failing) := by
  have hparsed : restoredRows text = some (rows.values.map migratedRow) := by
    rw [htext]
    exact restored_migrated rows
  apply triple_given (a := some (rows.values.map migratedRow)) (Q := Backed rows failing)
  · apply triple_operationWith
    · exact fun _ ho => ⟨hparsed, ho⟩
    · exact fun _ ho => ho.1
    · exact fun _ ho => ho.1
  apply triple_bind dropAtomsIfPresent_triple
  intro _
  apply triple_bind (createAtoms_triple hkeyed)
  intro _
  exact vectorsReady_triple

/-- What a recovery leaves, with what it returned. -/
def RecoveredIf (rows : Dict String (LanceRow Vec)) (failing recovered : Bool)
    (o : LanceOpening Vec) : Prop :=
  (recovered = true → Recovered rows o) ∧ (recovered = false → Underway rows failing o)

theorem RecoveredIf.of_recovered {o : LanceOpening Vec} (h : Recovered rows o) :
    RecoveredIf rows failing true o := ⟨fun _ => h, fun hf => (nomatch hf)⟩

theorem RecoveredIf.not {o : LanceOpening Vec} (h : Underway rows failing o) :
    RecoveredIf rows failing false o := ⟨fun hf => (nomatch hf), fun _ => h⟩

theorem promoteIfStaged_triple (hkeyed : KeyedRows rows) :
    Triple (@Underway Vec rows failing) promoteIfStaged (RecoveredIf rows failing)
      (Interrupted rows failing) := by
  apply triple_look_bind
  intro o ho
  apply triple_ite
  · intro hst
    apply triple_tryExcept (F := Interrupted rows failing)
    · apply triple_bind ((promoteStagingTable_triple hkeyed).start ⟨ho, hst⟩)
      intro _
      exact triple_pure _ fun _ hr => .of_recovered hr
    · exact fun _ hr => hr
    · intro e
      exact triple_pure _ fun _ hr => .not hr
  · intro _
    exact triple_pure _ fun _ heq => heq ▸ .not ho

theorem restoreNewestBackup_triple (hkeyed : KeyedRows rows) :
    Triple (@Underway Vec rows failing) restoreNewestBackup (RecoveredIf rows failing)
      (Interrupted rows failing) := by
  apply triple_look_bind
  intro o ho
  cases hnewest : o.dir.newestMigrationBackup with
  | none => exact triple_pure _ fun _ heq => heq ▸ .not ho
  | some backup =>
    obtain ⟨name, text⟩ := backup
    have htext := ho.1.backups name text (newest_spec hnewest)
    have hart : o.dir.hasRecoverableMigrationArtifacts = true := by
      rw [LanceDir.hasRecoverableMigrationArtifacts, hnewest]
      exact Bool.or_true _
    apply triple_tryExcept (F := Interrupted rows failing)
    · apply triple_bind ((restoreFromMigrationBackup_triple hkeyed htext).start ⟨ho, hart⟩)
      intro _
      exact triple_pure _ fun _ hr => .of_recovered hr
    · exact fun _ hr => hr
    · intro e
      apply triple_bind (Q := fun (_ : Unit) => Underway rows failing)
      · exact triple_note _ fun _ hu => ⟨hu.1, fun _ herror => (nomatch herror)⟩
      · intro _
        exact triple_pure _ fun _ hu => .not hu

theorem recoverInterruptedMigration_triple (hkeyed : KeyedRows rows) :
    Triple (@Underway Vec rows failing) recoverInterruptedMigration
      (RecoveredIf rows failing) (Interrupted rows failing) := by
  apply triple_bind (promoteIfStaged_triple hkeyed)
  intro promoted
  apply triple_ite
  · intro hp
    exact triple_pure _ fun _ hr => .of_recovered (hr.1 hp)
  · intro hp
    exact (restoreNewestBackup_triple hkeyed).weaken
      (fun _ hr => hr.2 (Bool.eq_false_iff.mpr hp)) (fun _ _ hr => hr) fun _ _ hr => hr

/-- The table holds the rows of before or after the migration. -/
def Filled (rows : Dict String (LanceRow Vec)) (failing : Bool) (o : LanceOpening Vec) : Prop :=
  Underway rows failing o ∧
    (o.dir.atoms = some ⟨rows, false⟩ ∨ o.dir.atoms = some ⟨migrated rows, true⟩)

theorem Filled.unstaged {o : LanceOpening Vec} (h : Filled rows failing o) :
    Filled rows failing { o with dir := { o.dir with staging := none } } := by
  obtain ⟨⟨hm, herror⟩, hatoms | hatoms⟩ := h
  · exact ⟨⟨hm.unstaged hatoms (.inl rfl), herror⟩, .inl hatoms⟩
  · exact ⟨⟨hm.unstaged hatoms (.inr rfl), herror⟩, .inr hatoms⟩

theorem Filled.atoms {o : LanceOpening Vec} (h : Filled rows failing o) {t : AtomsTable Vec}
    (ht : o.dir.atoms = some t) : t = ⟨rows, false⟩ ∨ t = ⟨migrated rows, true⟩ := by
  obtain ⟨-, heq | heq⟩ := h
  · exact .inl (Option.some.inj (ht.symm.trans heq))
  · exact .inr (Option.some.inj (ht.symm.trans heq))

theorem Filled.atoms_ne_none {o : LanceOpening Vec} (h : Filled rows failing o) :
    o.dir.atoms ≠ none := by
  obtain ⟨-, heq | heq⟩ := h
  · rw [heq]
    exact Option.some_ne_none _
  · rw [heq]
    exact Option.some_ne_none _

theorem writeMigrationBackup_triple (stamp : String) :
    Triple (Filled rows failing) (writeMigrationBackup stamp (rows.values.map migratedRow))
      (fun _ => Filled rows failing) (Interrupted rows failing) := by
  apply triple_tryExcept (F := fun _ => Filled rows failing)
  · apply triple_operation
    · intro o ho
      refine ⟨⟨⟨?_, ho.1.1.staging, ?_, ?_⟩, ho.1.2⟩, ho.2⟩
      · exact fun t ht => (ho.atoms ht).imp_right .inl
      · intro name text hname
        replace hname : (o.dir.backups.set _ _).get? name = some text := hname
        rw [Dict.get?_set] at hname
        split_ifs at hname
        · exact (Option.some.inj hname).symm
        · exact ho.1.1.backups name text hname
      · exact fun hnone => absurd hnone ho.atoms_ne_none
    · exact fun _ ho => ho
    · exact fun _ ho => ho
  · exact fun _ ho => ho.1
  · intro e
    exact triple_pure _ fun _ ho => ho

theorem dropStagingIfPresent_triple :
    Triple (@Filled Vec rows failing) dropStagingIfPresent (fun _ => Filled rows failing)
      (Interrupted rows failing) := by
  apply triple_look_bind
  intro o ho
  apply triple_ite
  · intro _
    apply Triple.start _ ho
    apply triple_tryExcept (F := fun _ => Filled rows failing)
    · apply triple_operation
      · exact fun u hu => hu.unstaged
      · exact fun _ hu => hu
      · exact fun _ hu => hu
    · exact fun _ hu => hu.1
    · intro e
      exact triple_pure _ fun _ hu => hu
  · intro _
    exact triple_pure _ fun _ heq => heq ▸ ho

theorem createStaging_triple (hkeyed : KeyedRows rows) :
    Triple (Filled rows failing) (createStaging (rows.values.map migratedRow))
      (fun _ => Backed rows failing) (Interrupted rows failing) := by
  apply triple_look_bind
  intro o ho
  apply triple_ite
  · intro _
    exact triple_raise _ fun _ heq => heq ▸ ho.1
  · intro _
    apply Triple.start _ ho
    apply triple_operation
    · intro u hu
      refine ⟨⟨⟨?_, ?_, hu.1.1.backups, fun _ => rfl⟩, hu.1.2⟩, rfl⟩
      · exact fun t ht => (hu.atoms ht).imp_right .inl
      · intro st hst
        rw [← Option.some.inj hst]
        exact rowsDict_migrated hkeyed
    · exact fun _ hu => hu.1
    · exact fun _ hu => hu.1

theorem recreateWithVectors_triple (hkeyed : KeyedRows rows) (stamp : String) :
    Triple (fun o : LanceOpening Vec => Underway rows failing o ∧ o.dir.atoms = some ⟨rows, false⟩)
      (recreateWithVectors stamp) (fun _ => Recovered rows) (Interrupted rows failing) := by
  apply triple_given (a := rows.values) (Q := Filled rows failing)
  · apply triple_operationWith
    · intro o ⟨ho, hatoms⟩
      refine ⟨?_, ho, .inl hatoms⟩
      show (o.dir.atoms.map fun t => t.rows.values).getD [] = _
      rw [hatoms]
      rfl
    · exact fun _ ho => ho.1
    · exact fun _ ho => ho.1
  apply triple_bind (writeMigrationBackup_triple stamp)
  intro _
  apply triple_bind dropStagingIfPresent_triple
  intro _
  apply triple_bind (createStaging_triple hkeyed)
  intro _
  apply triple_bind dropAtomsIfPresent_triple
  intro _
  apply triple_bind (createAtoms_triple hkeyed)
  intro _
  apply triple_bind dropStaging_triple
  intro _
  exact vectorsReady_triple

/-- An opening that ends without a vector error has the migrated rows. -/
def Opened (rows : Dict String (LanceRow Vec)) (o : LanceOpening Vec) : Prop :=
  Migrating rows o.dir ∧ (o.vectorError = none → o.dir.atoms = some ⟨migrated rows, true⟩)

theorem Recovered.opened {o : LanceOpening Vec} (h : Recovered rows o) : Opened rows o :=
  ⟨h.1, fun _ => h.2.1⟩

theorem Underway.opened {o : LanceOpening Vec} (h : Underway rows true o) : Opened rows o :=
  ⟨h.1, fun hnone => absurd hnone (h.2 rfl)⟩

theorem RecoveredIf.opened {recovered : Bool} {o : LanceOpening Vec}
    (h : RecoveredIf rows true recovered o) : Opened rows o := by
  cases recovered with
  | true => exact (h.1 rfl).opened
  | false => exact (h.2 rfl).opened

theorem reopenAfterFailure_triple (hkeyed : KeyedRows rows) :
    Triple (@Underway Vec rows true) reopenAfterFailure (fun _ => Opened rows)
      (Interrupted rows true) := by
  apply triple_look_bind
  intro o ho
  apply triple_ite
  · intro _
    exact triple_pure _ fun _ heq => heq ▸ ho.opened
  · intro _
    apply triple_bind ((recoverInterruptedMigration_triple hkeyed).start ho)
    intro _
    exact triple_pure _ fun _ hr => hr.opened

theorem migrateVectorSchema_triple (hkeyed : KeyedRows rows) (stamp : String) :
    Triple (Filled rows false) (@migrateVectorSchema Vec stamp) (fun _ => Opened rows)
      (Interrupted rows false) := by
  apply triple_look_bind
  intro o ho
  apply triple_ite
  · intro hemb
    have hatoms : o.dir.atoms = some ⟨migrated rows, true⟩ := by
      obtain ⟨-, heq | heq⟩ := ho
      · rw [LanceDir.tableHasEmbColumns, heq] at hemb
        cases hemb
      · exact heq
    exact triple_note _ fun _ heq => heq ▸ ⟨ho.1.1, fun _ => hatoms⟩
  · intro hemb
    have hatoms : o.dir.atoms = some ⟨rows, false⟩ := by
      obtain ⟨-, heq | heq⟩ := ho
      · exact heq
      · rw [LanceDir.tableHasEmbColumns, heq] at hemb
        exact absurd rfl hemb
    apply triple_tryExcept (F := Interrupted rows false)
    · exact ((recreateWithVectors_triple hkeyed stamp).start ⟨ho.1, hatoms⟩).weaken (fun _ h => h)
        (fun _ _ hr => hr.opened) fun _ _ hi => hi
    · exact fun _ hi => hi
    · intro e
      apply triple_bind (Q := fun (_ : Unit) => Underway rows true)
      · exact triple_note _ fun _ hi => ⟨hi.1, fun _ herror => (nomatch herror)⟩
      · intro _
        apply triple_tryExcept (F := Interrupted rows true)
        · exact reopenAfterFailure_triple hkeyed
        · exact fun _ hi => ⟨hi.1, fun hf => (nomatch hf)⟩
        · intro _
          exact triple_pure _ fun _ hi => hi.opened

theorem vectorsUnrecoverable_triple :
    Triple (fun o : LanceOpening Vec => Migrating rows o.dir) (note vectorsUnrecoverable)
      (fun _ => Opened rows) (Interrupted rows false) :=
  triple_note _ fun _ ho => ⟨ho, fun hnone => (nomatch hnone)⟩

theorem createAtoms_empty_triple :
    Triple (@Underway Vec rows failing) (createAtoms []) (fun _ => Underway rows failing)
      (Interrupted rows failing) := by
  apply triple_look_bind
  intro o ho
  apply triple_ite
  · intro _
    exact triple_raise _ fun _ heq => heq ▸ ho
  · intro hfree
    have hart : o.dir.hasRecoverableMigrationArtifacts = true := by
      apply ho.1.held
      cases hatoms : o.dir.atoms with
      | none => rfl
      | some t =>
        rw [hatoms] at hfree
        exact absurd rfl hfree
    apply triple_operation
    · intro u hu
      obtain rfl : u = o := hu
      refine ⟨⟨?_, ho.1.staging, ho.1.backups, fun hnone => (nomatch hnone)⟩, ho.2⟩
      intro t ht
      exact .inr (.inr ⟨(Option.some.inj ht).symm, hart⟩)
    · exact fun _ hu => hu ▸ ho
    · exact fun _ hu => hu ▸ ho

/-- An opening that finds no table to keep makes an empty one, and says so. -/
theorem freshAtoms_triple {o : LanceOpening Vec} (ho : Underway rows false o) :
    Triple (· = o) (do
        createAtoms []
        if o.dir.hasRecoverableMigrationArtifacts then note vectorsUnrecoverable
        else note vectorsReady) (fun _ => Opened rows) (Interrupted rows false) := by
  by_cases hart : o.dir.hasRecoverableMigrationArtifacts = true
  · apply triple_bind (createAtoms_empty_triple.start ho)
    intro _
    rw [if_pos hart]
    exact vectorsUnrecoverable_triple.weaken (fun _ h => h.1) (fun _ _ h => h) fun _ _ h => h
  · have hsome : o.dir.atoms.isSome = true := by
      cases hatoms : o.dir.atoms with
      | none => exact absurd (ho.1.held hatoms) hart
      | some t => rfl
    apply triple_bind (Q := fun _ _ => False)
    · apply triple_look_bind
      intro u hu
      obtain rfl : u = o := hu
      rw [if_pos hsome]
      exact triple_raise _ fun _ heq => heq ▸ ho
    · exact fun _ _ hf => hf.elim

theorem openDb_triple (hkeyed : KeyedRows rows) (stamp : String) :
    Triple (@Underway Vec rows false) (openDb stamp) (fun _ => Opened rows)
      (Interrupted rows false) := by
  apply triple_look_bind
  intro o ho
  apply triple_ite
  · intro hsome
    obtain ⟨t, ht⟩ := Option.isSome_iff_exists.mp hsome
    apply triple_ite
    · intro _
      apply triple_bind ((recoverInterruptedMigration_triple hkeyed).start ho)
      intro recovered
      apply triple_ite
      · intro hr
        exact triple_pure _ fun _ h => (h.1 hr).opened
      · intro hr
        exact vectorsUnrecoverable_triple.weaken
          (fun _ h => (h.2 (Bool.eq_false_iff.mpr hr)).1) (fun _ _ h => h) fun _ _ h => h
    · intro hfull
      refine (migrateVectorSchema_triple hkeyed stamp).start ⟨ho, ?_⟩
      rw [ht]
      obtain heq | heq | ⟨heq, hart⟩ := ho.1.atoms t ht
      · exact .inl (congrArg some heq)
      · exact .inr (congrArg some heq)
      · rw [LanceDir.atomsTableIsEmpty, ht, heq, hart] at hfull
        exact absurd rfl hfull
  · intro hnone
    apply triple_bind ((recoverInterruptedMigration_triple hkeyed).start ho)
    intro recovered
    apply triple_ite
    · intro hr
      exact triple_pure _ fun _ h => (h.1 hr).opened
    · intro hr
      apply triple_look_bind
      intro u hu
      exact freshAtoms_triple (hu.2 (Bool.eq_false_iff.mpr hr))

end Migrating

section Later

/-- The rows a recovery would take: those of the staging table, else of the newest backup. -/
def LanceDir.recoverable (d : LanceDir Vec) : List (LanceRow Vec) :=
  match d.staging with
  | some st => st.values
  | none =>
    match d.newestMigrationBackup with
    | some backup => (restoredRows backup.2).getD []
    | none => []

variable {d : LanceDir Vec} {live : Dict String (LanceRow Vec)}

theorem dict_empty_of_items {rows : Dict String (LanceRow Vec)} (h : rows.items = []) :
    rows = .empty := by
  cases rows
  cases h
  rfl

/-- A reopening that does not recover leaves the table. -/
theorem stepOpening_filled (stamp : String) (hatoms : d.atoms = some ⟨live, true⟩)
    (hfull : (d.atomsTableIsEmpty && d.hasRecoverableMigrationArtifacts) = false) :
    (stepOpening d (stamp, [])).atoms = some ⟨live, true⟩ := by
  have hemb : d.tableHasEmbColumns = true := by
    rw [LanceDir.tableHasEmbColumns, hatoms]
    rfl
  have hopen : Triple (· = (⟨d, false, none⟩ : LanceOpening Vec)) (openDb stamp)
      (fun _ o => o.dir.atoms = some ⟨live, true⟩) (fun _ o => o.dir.atoms = some ⟨live, true⟩) := by
    apply triple_look_bind
    rintro _ rfl
    rw [if_pos (by rw [hatoms]; rfl), if_neg (by rw [hfull]; decide)]
    apply triple_look_bind
    rintro _ rfl
    rw [if_pos hemb]
    exact triple_note _ fun _ heq => heq ▸ hatoms
  have hrun := hopen ⟨⟨d, false, none⟩, []⟩ rfl
  unfold stepOpening openLance
  cases h : openDb stamp (⟨⟨d, false, none⟩, []⟩ : Faulty (LanceOpening Vec)) with
  | ok a t =>
    rw [h] at hrun
    exact hrun
  | error e t =>
    rw [h] at hrun
    exact hrun

theorem recover_staged {st : Dict String (LanceRow Vec)} {backups : Dict String String}
    (hst : st.values = []) (rows : Dict String (LanceRow Vec)) :
    ∃ o, recoverInterruptedMigration
        ⟨(⟨⟨some ⟨rows, true⟩, some st, backups⟩, false, none⟩ : LanceOpening Vec), []⟩ =
          .ok true ⟨o, []⟩ ∧ o.dir.atoms = some ⟨.empty, true⟩ := by
  refine ⟨vectorsReady ⟨⟨some ⟨rowsDict st.values, true⟩, none, backups⟩, false, none⟩, rfl, ?_⟩
  show some (⟨rowsDict st.values, true⟩ : AtomsTable Vec) = _
  rw [hst]
  rfl

theorem restoreFromMigrationBackup_run (text : String) (t : AtomsTable Vec)
    (staging : Option (Dict String (LanceRow Vec))) (backups : Dict String String) (ok : Bool)
    (error : Option VectorError) :
    restoreFromMigrationBackup text ⟨⟨⟨some t, staging, backups⟩, ok, error⟩, []⟩ =
      match restoredRows text with
      | none => .error (.raised (.valueError [.text "backup row does not fit the schema"]))
        ⟨⟨⟨some t, staging, backups⟩, ok, error⟩, []⟩
      | some rows => .ok () ⟨⟨⟨some ⟨rowsDict rows, true⟩, staging, backups⟩, true, none⟩, []⟩ := by
  have hrun : restoreFromMigrationBackup text
      (⟨⟨⟨some t, staging, backups⟩, ok, error⟩, []⟩ : Faulty (LanceOpening Vec)) =
      (match restoredRows text with
      | none => raise (.valueError [.text "backup row does not fit the schema"])
      | some rows => do
        dropAtomsIfPresent
        createAtoms rows
        note vectorsReady : OpenM Vec Unit) ⟨⟨⟨some t, staging, backups⟩, ok, error⟩, []⟩ := rfl
  rw [hrun]
  cases @restoredRows Vec text <;> rfl

theorem restoreNewestBackup_run {name text : String} {t : AtomsTable Vec}
    {staging : Option (Dict String (LanceRow Vec))} {backups : Dict String String} {ok : Bool}
    {error : Option VectorError}
    (hnewest : LanceDir.newestMigrationBackup (⟨some t, staging, backups⟩ : LanceDir Vec) =
      some (name, text)) :
    restoreNewestBackup ⟨⟨⟨some t, staging, backups⟩, ok, error⟩, []⟩ =
      match restoredRows text with
      | none => .ok false ⟨⟨⟨some t, staging, backups⟩, ok, some (.restoreFailed name)⟩, []⟩
      | some rows => .ok true ⟨⟨⟨some ⟨rowsDict rows, true⟩, staging, backups⟩, true, none⟩, []⟩ := by
  unfold restoreNewestBackup
  simp only [run_bind, look, hnewest]
  unfold tryExcept
  rw [run_bind, restoreFromMigrationBackup_run]
  cases @restoredRows Vec text <;> rfl

theorem recover_unstaged (atoms : Option (AtomsTable Vec)) (backups : Dict String String) (ok : Bool)
    (error : Option VectorError) :
    recoverInterruptedMigration ⟨(⟨⟨atoms, none, backups⟩, ok, error⟩ : LanceOpening Vec), []⟩ =
      restoreNewestBackup ⟨⟨⟨atoms, none, backups⟩, ok, error⟩, []⟩ := rfl

/-- A recovery that finds no rows leaves an empty table. -/
theorem recover_empty (hatoms : d.atoms = some ⟨.empty, true⟩)
    (hart : d.hasRecoverableMigrationArtifacts = true) (hnone : d.recoverable = []) :
    ∃ recovered u, recoverInterruptedMigration
        (⟨⟨d, false, none⟩, []⟩ : Faulty (LanceOpening Vec)) = .ok recovered ⟨u, []⟩ ∧
      u.dir.atoms = some ⟨.empty, true⟩ := by
  obtain ⟨atoms, staging, backups⟩ := d
  obtain rfl : atoms = some ⟨.empty, true⟩ := hatoms
  cases staging with
  | some st =>
    obtain ⟨u, hrun, hu⟩ := @recover_staged Vec _ backups hnone .empty
    exact ⟨true, u, hrun, hu⟩
  | none =>
    cases hnewest : LanceDir.newestMigrationBackup
        (⟨some ⟨.empty, true⟩, none, backups⟩ : LanceDir Vec) with
    | none =>
      rw [LanceDir.hasRecoverableMigrationArtifacts, hnewest] at hart
      cases hart
    | some backup =>
      obtain ⟨name, text⟩ := backup
      rw [LanceDir.recoverable, hnewest] at hnone
      replace hnone : (@restoredRows Vec text).getD [] = [] := hnone
      have hrun := @restoreNewestBackup_run Vec _ _ _ _ _ false none hnewest
      cases hparsed : @restoredRows Vec text with
      | none =>
        rw [hparsed] at hrun
        exact ⟨false, _, (recover_unstaged _ _ _ _).trans hrun, rfl⟩
      | some rows =>
        rw [hparsed] at hrun hnone
        replace hnone : rows = [] := hnone
        rw [hnone] at hrun
        exact ⟨true, _, (recover_unstaged _ _ _ _).trans hrun, rfl⟩

/-- An opening of an empty table with something left over goes by what the recovery does. -/
theorem stepOpening_recovers (stamp : String) {recovered : Bool} {u : LanceOpening Vec}
    (hsome : d.atoms.isSome = true) (hempty : d.atomsTableIsEmpty = true)
    (hart : d.hasRecoverableMigrationArtifacts = true)
    (hrun : recoverInterruptedMigration (⟨⟨d, false, none⟩, []⟩ : Faulty (LanceOpening Vec)) =
      .ok recovered ⟨u, []⟩) :
    (stepOpening d (stamp, [])).atoms = u.dir.atoms := by
  have hopen : openDb stamp (⟨⟨d, false, none⟩, []⟩ : Faulty (LanceOpening Vec)) =
      (do
        let recovered ← recoverInterruptedMigration
        if recovered then return () else note vectorsUnrecoverable : OpenM Vec Unit)
        ⟨⟨d, false, none⟩, []⟩ := by
    unfold openDb
    rw [run_bind]
    show (if _ then _ else _ : OpenM Vec Unit) _ = _
    rw [if_pos hsome, if_pos (by rw [hempty, hart]; rfl)]
  unfold stepOpening openLance
  rw [hopen, run_bind, hrun]
  cases recovered <;> rfl

/-- A reopening that recovers no rows leaves an empty table. -/
theorem stepOpening_empty (stamp : String) (hatoms : d.atoms = some ⟨.empty, true⟩)
    (hart : d.hasRecoverableMigrationArtifacts = true) (hnone : d.recoverable = []) :
    (stepOpening d (stamp, [])).atoms = some ⟨.empty, true⟩ := by
  obtain ⟨recovered, u, hrun, hu⟩ := recover_empty hatoms hart hnone
  rw [stepOpening_recovers stamp (by rw [hatoms]; rfl) (by rw [LanceDir.atomsTableIsEmpty, hatoms]; rfl)
    hart hrun]
  exact hu

/-- An opening of an empty table finds no rows to bring back. -/
def OpensHarmless (d : LanceDir Vec) : LanceUse Vec → Prop
  | .reopen _ => d.atomsTableIsEmpty = true → d.recoverable = []
  | _ => True

theorem stepUse_atoms (hatoms : d.atoms = some ⟨live, true⟩) {use : LanceUse Vec}
    (hc : OpensHarmless d use) :
    (stepUse d use).atoms = some ⟨liveRows live [use], true⟩ := by
  cases use with
  | put row =>
    show d.atoms.map _ = _
    rw [hatoms]
    rfl
  | delete atomId =>
    show d.atoms.map _ = _
    rw [hatoms]
    rfl
  | reopen stamp =>
    cases hfull : (d.atomsTableIsEmpty && d.hasRecoverableMigrationArtifacts) with
    | false => exact stepOpening_filled stamp hatoms hfull
    | true =>
      obtain ⟨hempty, hart⟩ := (Bool.and_eq_true _ _).mp hfull
      have hrows : live = .empty := by
        rw [LanceDir.atomsTableIsEmpty, hatoms] at hempty
        exact dict_empty_of_items (of_decide_eq_true hempty)
      rw [hrows] at hatoms ⊢
      exact stepOpening_empty stamp hatoms hart (hc hempty)

/-- In a run of harmless openings the table holds what was put and not deleted since. -/
theorem run_atoms (uses : List (LanceUse Vec)) (hatoms : d.atoms = some ⟨live, true⟩)
    (hc : Along stepUse OpensHarmless d uses) :
    (run stepUse d uses).atoms = some ⟨liveRows live uses, true⟩ := by
  induction uses generalizing d live with
  | nil => exact hatoms
  | cons use uses ih => exact ih (stepUse_atoms hatoms hc.1) hc.2

/-- The directory of a Phase 1 store: a table without vector columns, and nothing else. -/
def phaseOne (rows : Dict String (LanceRow Vec)) : LanceDir Vec := ⟨some ⟨rows, false⟩, none, .empty⟩

theorem phaseOne_migrating (rows : Dict String (LanceRow Vec)) : Migrating rows (phaseOne rows) :=
  ⟨fun _ ht => .inl (Option.some.inj ht).symm, fun _ hst => (nomatch hst),
    fun _ _ h => (nomatch h), fun hnone => (nomatch hnone)⟩

theorem openDb_migrating {rows : Dict String (LanceRow Vec)} (hkeyed : KeyedRows rows)
    (hd : Migrating rows d) (stamp : String) (plan : List Outcome) :
    match openLance d stamp plan with
    | .ok _ t => Opened rows t.disk
    | .error _ t => Underway rows false t.disk := by
  have hrun := openDb_triple hkeyed stamp ⟨⟨d, false, none⟩, plan⟩ ⟨hd, fun hf => (nomatch hf)⟩
  unfold openLance
  cases h : openDb stamp (⟨⟨d, false, none⟩, plan⟩ : Faulty (LanceOpening Vec)) with
  | ok a t =>
    rw [h] at hrun
    exact hrun
  | error e t =>
    rw [h] at hrun
    exact hrun

theorem run_migrating {rows : Dict String (LanceRow Vec)} (hkeyed : KeyedRows rows)
    (openings : List (String × List Outcome)) :
    Migrating rows (run stepOpening (phaseOne rows) openings) := by
  apply run_invariant (Migrating rows) _ _ openings (phaseOne_migrating rows)
  intro e opening he
  have hopen := openDb_migrating hkeyed he opening.1 opening.2
  unfold stepOpening
  cases h : openLance e opening.1 opening.2 with
  | ok a t =>
    rw [h] at hopen
    exact hopen.1
  | error f t =>
    rw [h] at hopen
    exact hopen.1

/-- After any number of openings of a Phase 1 store, each ended by a crash or a failing operation
at any point, an opening without a vector error has each original row migrated; and from then on
the table holds what was put or migrated and not deleted since, as long as no opening of an empty
table finds rows left over. -/
theorem migration_is_crash_safe (rows : Dict String (LanceRow Vec)) (hkeyed : KeyedRows rows)
    (openings : List (String × List Outcome)) (stamp : String) (plan : List Outcome)
    (t : Faulty (LanceOpening Vec))
    (hopen : openLance (run stepOpening (phaseOne rows) openings) stamp plan = .ok () t)
    (hok : t.disk.vectorError = none) :
    ∃ live, t.disk.dir.atoms = some ⟨live, true⟩ ∧
      (∀ id, live.get? id = (rows.get? id).map migratedRow) ∧
      ∀ uses, Along stepUse OpensHarmless t.disk.dir uses →
        (run stepUse t.disk.dir uses).atoms = some ⟨liveRows live uses, true⟩ := by
  have hopened := openDb_migrating hkeyed (run_migrating hkeyed openings) stamp plan
  rw [hopen] at hopened
  have hatoms := hopened.2 hok
  exact ⟨migrated rows, hatoms, get?_migrated rows, fun uses hc => run_atoms uses hatoms hc⟩

end Later

section Sample

def sampleRow : LanceRow Nat where
  atomId := "a"
  tStart := "2026-01-01T00:00:00Z"
  kind := "observation"
  contentText := "body"
  contentRef := "inline"
  tEnd := none
  momentId := some "m"
  mediaIdsJson := "[]"
  prevAtomId := none
  nextAtomId := none
  parentAtomId := none
  scale := none
  windowStart := none
  windowEnd := none
  sourceBeatTs := none
  sourceBeatType := none
  embeddingStatus := "none"
  metaJson := "{}"
  schemaVersion := 1
  emb := {}

def sampleRows : Dict String (LanceRow Nat) := .ofList [("a", sampleRow)]

theorem sampleRows_keyed : KeyedRows sampleRows := by
  intro id r hr
  have hmem : (id, r) ∈ [("a", sampleRow)] := (sampleRows.get?_eq_some_iff id r).mp hr
  obtain ⟨rfl, rfl⟩ := Prod.mk.inj (List.mem_singleton.mp hmem)
  rfl

/-- The first opening dies after the old table is dropped, before the new one is there. -/
def crashed : List (String × List Outcome) := [("t1", [.done, .done, .done, .done, .dies])]

def recoveredOpening : Faulty (LanceOpening Nat) :=
  after (openLance (run stepOpening (phaseOne sampleRows) crashed) "t2" [])

theorem migration_is_crash_safe_sample :
    ∃ live, recoveredOpening.disk.dir.atoms = some ⟨live, true⟩ ∧
      (∀ id, live.get? id = (sampleRows.get? id).map migratedRow) ∧
      ∀ uses, Along stepUse OpensHarmless recoveredOpening.disk.dir uses →
        (run stepUse recoveredOpening.disk.dir uses).atoms = some ⟨liveRows live uses, true⟩ :=
  migration_is_crash_safe sampleRows sampleRows_keyed crashed "t2" [] recoveredOpening rfl rfl

/-- The directory after the migration of the one atom, and its deletion. -/
def emptied : LanceDir Nat :=
  ⟨some ⟨.empty, true⟩, none, .ofList [("atoms-t1.jsonl", backupText [migratedRow sampleRow])]⟩

theorem emptied_reached :
    run stepUse (stepOpening (phaseOne sampleRows) ("t1", [])) [.delete "a"] = emptied := rfl

/-- The one migrated atom is deleted, and is back after a reopening. -/
theorem reopening_brings_deleted_atom_back :
    ¬ ∀ uses : List (LanceUse Nat),
      ((run stepUse (stepOpening (phaseOne sampleRows) ("t1", [])) uses).atoms.map fun t =>
        t.rows.keys) = some (liveRows (migrated sampleRows) uses).keys := by
  intro hall
  have hparsed : restoredRows (backupText [migratedRow sampleRow]) = some [migratedRow sampleRow] :=
    restoredRows_backupText _ (by simp [migratedRow])
  have hrun := @restoreNewestBackup_run Nat "atoms-t1.jsonl" (backupText [migratedRow sampleRow])
    ⟨.empty, true⟩ none emptied.backups false none rfl
  rw [hparsed] at hrun
  have hrecover : recoverInterruptedMigration ⟨⟨emptied, false, none⟩, []⟩ = _ :=
    (recover_unstaged (some ⟨.empty, true⟩) emptied.backups false none).trans hrun
  have hback := stepOpening_recovers "t2" rfl rfl rfl hrecover
  have hgone := hall ([.delete "a"] ++ [.reopen "t2"])
  rw [run_snoc, emptied_reached] at hgone
  have hkeys : ((stepOpening emptied ("t2", [])).atoms.map fun t => t.rows.keys) = some ["a"] := by
    rw [hback]
    rfl
  cases hkeys.symm.trans hgone

end Sample

end Elyra.Memory
