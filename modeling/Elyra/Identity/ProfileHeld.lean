import Elyra.Framework.Asking
import Elyra.Identity.ProfileStore

namespace Elyra.Identity

open Secrets (stripped blank)

theorem Meta.get?_update (m fields : Meta) (k : String) :
    (Meta.update m fields).get? k = (fields.get? k).or (m.get? k) := by
  have hfold : ∀ (l : List (String × Json)) (m : Meta), (l.map Prod.fst).Nodup →
      (l.foldl (fun m kv => m.set kv.1 kv.2) m).get? k = (Dict.findItem l k).or (m.get? k) := by
    intro l
    induction l with
    | nil => exact fun m _ => rfl
    | cons kv rest ih =>
      intro m hn
      obtain ⟨hfresh, hrest⟩ := List.nodup_cons.mp hn
      rw [List.foldl_cons, ih (m.set kv.1 kv.2) hrest, Dict.get?_set]
      by_cases hk : kv.1 = k
      · subst hk
        have hnone : Dict.findItem rest kv.1 = none :=
          (Dict.not_mem_keys ⟨rest, hrest⟩ kv.1).mp hfresh
        simp [Dict.findItem, hnone]
      · simp [Dict.findItem, hk]
  exact hfold fields.items m fields.nodup

section Index

variable {rows : List Json} {versions : Dict String String}

/-- The index lists files of distinct versions, and no file stands beside an empty one. -/
structure Indexed (rows : List Json) (versions : Dict String String) : Prop where
  stands : ∀ row ∈ rows, rowStands versions row = true
  distinct : (rows.filterMap rowId?).Nodup
  bare : rows = [] → ∀ id ∈ versions.keys, isVersionId id = false

theorem rowStands_iff (row : Json) : rowStands versions row = true ↔
    ∃ id, rowId? row = some id ∧ isVersionId id = true ∧ (versions.get? id).isSome = true := by
  simp only [rowStands, Option.any_eq_true, Bool.and_eq_true]

theorem get?_filterKeys_isSome {p : String → Bool} {id : String} (hp : p id = true) :
    ((versions.filterKeys p).get? id).isSome = (versions.get? id).isSome := by
  rw [Dict.get?_filterKeys p versions id hp]

theorem mem_keys_filterKeys {p : String → Bool} {id : String}
    (h : id ∈ (versions.filterKeys p).keys) : id ∈ versions.keys := by
  obtain ⟨kv, hkv, rfl⟩ := List.mem_map.mp h
  exact List.mem_map_of_mem (List.mem_of_mem_filter hkv)

/-- Files that no row lists may go. -/
theorem Indexed.filterKeys {p : String → Bool} (h : Indexed rows versions)
    (hp : ∀ row ∈ rows, ∀ id, rowId? row = some id → isVersionId id = true → p id = true) :
    Indexed rows (versions.filterKeys p) := by
  refine ⟨fun row hrow => ?_, h.distinct, fun hnil id hid => ?_⟩
  · obtain ⟨id, hid, hvalid, hfile⟩ := (rowStands_iff row).mp (h.stands row hrow)
    refine (rowStands_iff row).mpr ⟨id, hid, hvalid, ?_⟩
    rwa [get?_filterKeys_isSome (hp row hrow id hid hvalid)]
  · exact h.bare hnil id (mem_keys_filterKeys hid)

theorem Indexed.pruned (h : Indexed rows versions) : Indexed rows (pruneOrphans rows versions) := by
  unfold pruneOrphans
  apply h.filterKeys
  intro row hrow id hid hvalid
  have hkeep : id ∈ rows.filterMap fun row => (rowId? row).filter isVersionId :=
    List.mem_filterMap.mpr ⟨row, hrow, by rw [hid, Option.filter_some, if_pos hvalid]⟩
  simp only [Bool.or_eq_true, List.contains_eq_mem, decide_eq_true_eq]
  exact .inr hkeep

/-- The heal leaves an index that stands. -/
theorem Indexed.healed (sha256 : String → String) (h : Indexed rows versions) :
    ∃ versions', healedVersions sha256 rows versions = (rows, versions') ∧
      Indexed rows versions' := by
  have hclean : rows.filter (rowStands versions) = rows := List.filter_eq_self.mpr h.stands
  unfold healedVersions
  simp only [hclean]
  by_cases hnil : rows = []
  · have hnone : versions.keys.any isVersionId = false := by
      rw [List.any_eq_false]
      intro id hid
      rw [h.bare hnil id hid]
      decide
    rw [if_neg (fun hne => hne hnil), hnone]
    subst hnil
    exact ⟨versions, rfl, h⟩
  · rw [if_pos hnil]
    exact ⟨_, rfl, h.pruned⟩

theorem isVersionId_archiveId (env : Surroundings) (m : Meta) :
    isVersionId (archiveId env m) = true := by
  unfold archiveId
  split
  · split_ifs with h
    · exact h
    · exact (env.mint 2).2
  · exact (env.mint 2).2

theorem Indexed.dropped (h : Indexed rows versions) {n : Nat} (hn : rows.drop n ≠ []) :
    Indexed (rows.drop n) (deleteVersions (rows.take n) versions) := by
  have hids : (rows.take n ++ rows.drop n).filterMap rowId? = rows.filterMap rowId? := by
    rw [List.take_append_drop]
  rw [List.filterMap_append] at hids
  have hd := h.distinct
  rw [← hids, List.nodup_append] at hd
  obtain ⟨-, hdrop, hapart⟩ := hd
  have hpart : Indexed (rows.drop n) versions :=
    ⟨fun row hrow => h.stands row (List.mem_of_mem_drop hrow), hdrop, fun hnil => absurd hnil hn⟩
  unfold deleteVersions
  apply hpart.filterKeys
  intro row hrow id hid _
  rw [Bool.not_eq_true', List.contains_eq_mem, decide_eq_false_iff_not]
  intro htaken
  exact hapart id htaken id (List.mem_filterMap.mpr ⟨row, hrow, hid⟩) rfl

/-- A live body goes to the archive, and the rows the trim drops go with their files. -/
theorem Indexed.archived (env : Surroundings) (m : Meta) (body : String)
    (h : Indexed rows versions) {rows' dropped : List Json} {versions' : Dict String String}
    (ha : archive env m body rows versions = (rows', dropped, versions')) :
    Indexed rows' (deleteVersions dropped versions') := by
  have hvalid := isVersionId_archiveId env m
  generalize hid : archiveId env m = id at hvalid
  generalize hfiles :
    (if (versions.get? id).isSome then versions else versions.set id body) = files
  have hthere : (files.get? id).isSome = true := by
    rw [← hfiles]
    split_ifs with hold
    · exact hold
    · rw [Dict.get?_set_self]
      rfl
  have hkept : ∀ x, (versions.get? x).isSome = true → (files.get? x).isSome = true := by
    intro x hx
    rw [← hfiles]
    split_ifs
    · exact hx
    · rw [Dict.get?_set]
      split_ifs
      · rfl
      · exact hx
  generalize hrows : (if rows.any fun row => rowId? row = some id then rows
    else rows ++ [archiveRow env id ((files.get? id).getD "")]) = all
  have hall : Indexed all files ∧ all ≠ [] := by
    have hstands : ∀ row ∈ rows, rowStands files row = true := by
      intro row hrow
      obtain ⟨x, hx, hv, hf⟩ := (rowStands_iff row).mp (h.stands row hrow)
      exact (rowStands_iff row).mpr ⟨x, hx, hv, hkept x hf⟩
    rw [← hrows]
    split_ifs with hany
    · obtain ⟨row, hrow, -⟩ := List.any_eq_true.mp hany
      have hne : rows ≠ [] := List.ne_nil_of_mem hrow
      exact ⟨⟨hstands, h.distinct, fun hnil => absurd hnil hne⟩, hne⟩
    · have hrow : rowId? (archiveRow env id ((files.get? id).getD "")) = some id := rfl
      have hne : rows ++ [archiveRow env id ((files.get? id).getD "")] ≠ [] := by simp
      refine ⟨⟨?_, ?_, fun hnil => absurd hnil hne⟩, hne⟩
      · intro row hmem
        obtain hold | hnew := List.mem_append.mp hmem
        · exact hstands row hold
        · rw [List.mem_singleton.mp hnew]
          exact (rowStands_iff _).mpr ⟨id, hrow, hvalid, hthere⟩
      · rw [List.filterMap_append, List.nodup_append]
        refine ⟨h.distinct, by simp [List.filterMap, hrow], ?_⟩
        intro x hx y hy
        simp only [List.filterMap, hrow, List.mem_singleton] at hy
        subst hy
        obtain ⟨row, hmem, hrowid⟩ := List.mem_filterMap.mp hx
        intro heq
        exact hany (List.any_eq_true.mpr ⟨row, hmem, decide_eq_true (heq ▸ hrowid)⟩)
  have harch : archive env m body rows versions =
      (all.drop (all.length - versionGcLimit), all.take (all.length - versionGcLimit), files) := by
    unfold archive
    simp only [hid, hfiles, hrows]
  rw [harch] at ha
  obtain ⟨rfl, rfl, rfl⟩ : all.drop (all.length - versionGcLimit) = rows' ∧
      all.take (all.length - versionGcLimit) = dropped ∧ files = versions' := by
    simpa only [Prod.mk.injEq] using ha
  apply hall.1.dropped
  rw [Ne, List.drop_eq_nil_iff]
  have hpos := List.length_pos_iff.mpr hall.2
  unfold versionGcLimit
  omega

end Index

section Held

/-- A document whose index fits the files. -/
def Meta.Fits (m : Meta) (versions : Dict String String) : Prop :=
  m.items ≠ [] ∧ ∃ rows, m.get? "versions" = some (.arr rows) ∧ Indexed rows versions

/-- A store needs no heal: its index fits its files, and without a document there are none. -/
structure Settled (p : Profile) : Prop where
  bare : p.doc = none → ∀ id ∈ p.versions.keys, isVersionId id = false
  fits : ∀ m, p.doc = some m → m.Fits p.versions

/-- What becomes of a document of which only the fields `free` are written; a default one may be
made where there is none. -/
inductive Follows (free : List String) : Option Meta → Option Meta → Prop where
  | none : Follows free none none
  | start (a : Actor) (env : Surroundings) (id : VersionId) (body : String) (m : Meta)
      (h : ∀ f, f ∉ free → m.get? f = (defaultMeta a env id body).get? f) :
      Follows free none (some m)
  | kept (m m' : Meta) (h : ∀ f, f ∉ free → m'.get? f = m.get? f) : Follows free (some m) (some m')

theorem Follows.refl (free : List String) (o : Option Meta) : Follows free o o := by
  cases o with
  | none => exact .none
  | some m => exact .kept m m fun _ _ => rfl

theorem Follows.trans {free : List String} {o₁ o₂ o₃ : Option Meta} (h₁ : Follows free o₁ o₂)
    (h₂ : Follows free o₂ o₃) : Follows free o₁ o₃ := by
  cases h₁ with
  | none => exact h₂
  | start a env id body m h =>
    cases h₂ with
    | kept _ m' h' => exact .start a env id body m' fun f hf => (h' f hf).trans (h f hf)
  | kept m m' h =>
    cases h₂ with
    | kept _ m'' h' => exact .kept m m'' fun f hf => (h' f hf).trans (h f hf)

/-- A store that needs no heal keeps its draft and, but for the fields `free`, its document. -/
structure Held (free : List String) (p p' : Profile) : Prop where
  settled : Settled p'
  doc : Follows free p.doc p'.doc
  draft : p'.draft = p.draft

variable {free : List String} {p q r : Profile}

theorem Held.refl (free : List String) (h : Settled p) : Held free p p :=
  ⟨h, .refl free p.doc, rfl⟩

theorem Held.trans (h₁ : Held free p q) (h₂ : Held free q r) : Held free p r :=
  ⟨h₂.settled, h₁.doc.trans h₂.doc, h₂.draft.trans h₁.draft⟩

theorem items_set_ne_nil (m : Meta) (f : String) (v : Json) : (m.set f v).items ≠ [] := by
  intro hnil
  have hget : (m.set f v).get? f = some v := Dict.get?_set_self m f v
  rw [Dict.get?, hnil] at hget
  cases hget

theorem Meta.Fits.set {m : Meta} {versions : Dict String String} (h : m.Fits versions)
    {f : String} (v : Json) (hf : f ≠ "versions") : Meta.Fits (m.set f v) versions := by
  obtain ⟨-, rows, hrows, hindexed⟩ := h
  exact ⟨items_set_ne_nil m f v, rows, by rw [Dict.get?_set_ne m v hf, hrows], hindexed⟩

theorem defaultMeta_fields (a : Actor) (env : Surroundings) (id : VersionId) (body : String) :
    (defaultMeta a env id body).get? "versions" = some (.arr []) ∧
    (defaultMeta a env id body).get? "full_name" = some .null ∧
    (defaultMeta a env id body).get? "draft_meta" = some .null ∧
    (defaultMeta a env id body).get? "promote_count" = some (.int 0) := by
  cases a <;> simp [defaultMeta, Dict.ofList, Dict.get?_set]

theorem fits_defaultMeta (a : Actor) (env : Surroundings) (id : VersionId) (body : String)
    {versions : Dict String String} (h : ∀ id ∈ versions.keys, isVersionId id = false) :
    (defaultMeta a env id body).Fits versions := by
  have hrows := (defaultMeta_fields a env id body).1
  refine ⟨fun hnil => ?_, [], hrows, ⟨fun row hrow => (nomatch hrow), List.nodup_nil, fun _ => h⟩⟩
  rw [Dict.get?, hnil] at hrows
  cases hrows

/-- Writing a free field other than the index. -/
theorem held_set {m : Meta} {f : String} {v : Json} (h : Settled p) (hm : p.doc = some m)
    (hfree : f ∈ free) (hf : f ≠ "versions") (hdoc : q.doc = some (m.set f v))
    (hversions : q.versions = p.versions) (hdraft : q.draft = p.draft) : Held free p q := by
  refine ⟨⟨fun hnone => ?_, fun m' hm' => ?_⟩, ?_, hdraft⟩
  · rw [hdoc] at hnone
    cases hnone
  · rw [hdoc] at hm'
    cases hm'
    rw [hversions]
    exact (h.fits m hm).set v hf
  · rw [hm, hdoc]
    refine .kept m _ fun g hg => Dict.get?_set_ne m v fun heq => hg ?_
    rwa [← heq]

theorem held_same (h : Settled p) (hdoc : q.doc = p.doc) (hversions : q.versions = p.versions)
    (hdraft : q.draft = p.draft) : Held free p q := by
  refine ⟨⟨fun hnone => ?_, fun m hm => ?_⟩, ?_, hdraft⟩
  · rw [hversions]
    exact h.bare (hdoc.symm.trans hnone)
  · rw [hversions]
    exact h.fits m (hdoc.symm.trans hm)
  · rw [hdoc]
    exact .refl free p.doc

theorem held_withMeta (a : Actor) (env : Surroundings) (h : Settled p) :
    Held free p (Profile.withMeta a env p) := by
  unfold Profile.withMeta
  split_ifs with hnew
  · have hnone : p.doc = none := by
      rw [Bool.and_eq_true] at hnew
      exact Option.isNone_iff_eq_none.mp hnew.2
    refine ⟨⟨fun hdoc => (nomatch hdoc), fun m hm => ?_⟩, ?_, rfl⟩
    · cases hm
      exact fits_defaultMeta a env _ _ (h.bare hnone)
    · rw [hnone]
      exact .start a env _ _ _ fun _ _ => rfl
  · exact .refl free h

theorem load_some {fails : Bool} {m : Meta} (h : p.load fails = some m) : p.doc = some m := by
  unfold Profile.load at h
  split_ifs at h
  exact h

theorem held_appendDrive (env : Surroundings) (fails : Bool) (h : Settled p)
    (hfree : "current_content_sha256" ∈ free) : Held free p (appendDrive env fails p) := by
  unfold appendDrive
  cases hcur : p.current with
  | none => exact held_same h rfl rfl rfl
  | some body =>
    dsimp only
    cases env.migrated body with
    | none => exact .refl free h
    | some body' =>
      dsimp only
      cases hload : Profile.load { p with current := some body' } fails with
      | none => exact held_same h rfl rfl rfl
      | some m => exact held_set h (load_some hload) hfree (by decide) rfl rfl rfl

theorem held_healed {versions : Dict String String} {rows : List Json} {m : Meta}
    (hm : p.doc = some m) (hfits : m.items ≠ []) (hrows : m.get? "versions" = some (.arr rows))
    (hindexed : Indexed rows versions) : Held free p { p with versions } := by
  refine ⟨⟨fun hnone => ?_, fun m' hm' => ?_⟩, .refl free p.doc, rfl⟩
  · rw [hm] at hnone
    cases hnone
  · rw [hm] at hm'
    cases hm'
    exact ⟨hfits, rows, hrows, hindexed⟩

theorem ensures_healIndex (env : Surroundings) (fails : Bool) :
    Ensures (Held free p) (healIndex env fails) (fun _ => Held free p) (fun _ => Held free p) := by
  apply ensures_get_bind
  intro q hq
  cases hload : q.load fails with
  | none => exact ensures_pure () (by rintro s rfl; exact hq)
  | some m =>
    have hm := load_some hload
    obtain ⟨hne, rows, hrows, hindexed⟩ := hq.settled.fits m hm
    obtain ⟨versions, hhealed, hstands⟩ := hindexed.healed env.sha256
    have hindex : versionIndex m = rows := by rw [versionIndex, hrows]
    have hlist : pyList (m.get? "versions") = .ok rows := by rw [hrows]; rfl
    dsimp only
    rw [hlist, hindex, hhealed]
    refine ensures_bind (Q := fun before t => before = rows ∧ t = q) (fun s hs => ⟨rfl, hs⟩) ?_
    rintro before
    rintro t ⟨rfl, rfl⟩
    have hheld : Held free p { t with versions } := hq.trans (held_healed hm hne hrows hstands)
    simp only [ne_eq, not_true_eq_false, if_false]
    exact hheld

theorem ensures_held {f : Profile → Profile} (h : ∀ q, Settled q → Held free q (f q)) :
    Ensures (Held free p) (modify f : ProfileM Unit) (fun _ => Held free p)
      (fun _ => Held free p) :=
  ensures_modify f fun q hq => hq.trans (h q hq.settled)

theorem ensures_ensureLayout (a : Actor) (env : Surroundings) (fails : EnsureReads)
    (hfree : "current_content_sha256" ∈ free) :
    Ensures (Held free p) (ensureLayout a env fails) (fun _ => Held free p)
      (fun _ => Held free p) := by
  have hcurrent : ∀ q, Settled q → Held free q q.withCurrent := fun q h => held_same h rfl rfl rfl
  apply ensures_get_bind
  intro q hq
  split_ifs
  · apply Ensures.weaken (P := Held free p) _ (by rintro s rfl; exact hq) (fun _ _ h => h)
      (fun _ _ h => h)
    cases a with
    | self =>
      refine ensures_bind (ensures_held fun r h => ?_) fun _ => ?_
      · split_ifs
        · exact held_same h rfl rfl rfl
        · exact hcurrent r h
      refine ensures_bind (ensures_held fun r h => held_withMeta .self env h) fun _ => ?_
      exact ensures_bind (ensures_held fun r h => held_appendDrive env fails.append h hfree)
        fun _ => ensures_healIndex env fails.heal
    | user userId =>
      refine ensures_bind (ensures_held hcurrent) fun _ => ?_
      exact ensures_bind (ensures_held fun r h => held_withMeta (.user userId) env h)
        fun _ => ensures_healIndex env fails.heal
  · exact ensures_pure () (by rintro s rfl; exact hq)

end Held

section Staging

/-- What `ensure_layout` and the nudge may write of the watched and the unwatched fields. -/
def layoutFields : List String := ["current_content_sha256"]

def nudgeFields : List String := ["current_content_sha256", "name_nudge"]

theorem layoutFields_subset : layoutFields ⊆ nudgeFields := by decide

theorem Meta.get?_withDraft (m draft : Meta) {f : String} (hf : f ≠ "draft_meta") :
    (m.withDraft draft).get? f = m.get? f := Dict.get?_set_ne m _ (Ne.symm hf)

/-- The fields a draft has staged. -/
def Meta.staged (m : Meta) : Meta := (draftFields m).getD .empty

theorem draftFields_withDraft (m draft : Meta) : draftFields (m.withDraft draft) = some draft := by
  rw [draftFields, Meta.withDraft, Dict.get?_set_self]
  exact congrArg some (Dict.ofList_items draft)

theorem staged_withDraft (m draft : Meta) : Meta.staged (m.withDraft draft) = draft := by
  rw [Meta.staged, draftFields_withDraft]
  rfl

theorem staged_set (m : Meta) {f : String} (v : Json) (hf : f ≠ "draft_meta") :
    Meta.staged (m.set f v) = m.staged := by
  rw [Meta.staged, Meta.staged, draftFields, draftFields, Dict.get?_set_ne m v hf]

theorem staged_null {m : Meta} (h : (m.get? "draft_meta").getD .null = .null) :
    m.staged = .empty := by
  rw [Meta.staged, draftFields]
  cases hdraft : m.get? "draft_meta" with
  | none => rfl
  | some v =>
    rw [hdraft] at h
    obtain rfl : v = .null := h
    rfl

theorem get?_of_items_eq_nil {m : Meta} (h : m.items = []) (f : String) : m.get? f = none := by
  rw [Dict.get?, h]
  rfl

/-- The staging of a draft writes no other field. -/
theorem get?_stageDraft (a : Actor) (env : Surroundings) (hasBody : Bool) (fields m : Meta)
    {f : String} (hmeta : f ≠ "draft_meta") (hat : f ≠ "draft_updated_at") :
    (stageDraft a env hasBody fields m).get? f = m.get? f := by
  unfold stageDraft
  extract_lets m₁ m₂ m₃
  have h₁ : m₁.get? f = m.get? f := by
    unfold m₁
    by_cases hfields : fields.items ≠ []
    · rw [if_pos hfields]
      exact Meta.get?_withDraft m _ hmeta
    · rw [if_neg hfields]
      cases a with
      | self =>
        dsimp only
        split_ifs
        · exact Dict.get?_set_ne m _ (Ne.symm hmeta)
        · rfl
      | user _ => rfl
  have h₂ : m₂.get? f = m₁.get? f := by
    cases a with
    | self => exact Dict.get?_set_ne m₁ _ (Ne.symm hat)
    | user _ => rfl
  have h₃ : m₃.get? f = m₂.get? f := by
    unfold m₃
    cases draftFields m₂ with
    | none => rfl
    | some draft => exact Meta.get?_withDraft m₂ _ hmeta
  have h : m₃.get? f = m.get? f := h₃.trans (h₂.trans h₁)
  cases a with
  | self => exact h
  | user _ => exact (Dict.get?_set_ne m₃ _ (Ne.symm hat)).trans h

/-- What is staged is what the call gives, and else what was staged before. -/
theorem staged_stageDraft (a : Actor) (env : Surroundings) (hasBody : Bool) (fields m : Meta)
    {key : String} (hkey : draftMetaKeys.contains key = true) :
    (stageDraft a env hasBody fields m).staged.get? key =
      (fields.get? key).or (m.staged.get? key) := by
  unfold stageDraft
  extract_lets m₁ m₂ m₃
  have h₁ : m₁.staged.get? key = (fields.get? key).or (m.staged.get? key) := by
    unfold m₁
    by_cases hfields : fields.items ≠ []
    · rw [if_pos hfields, staged_withDraft]
      exact Meta.get?_update m.staged fields key
    · rw [if_neg hfields, get?_of_items_eq_nil (not_not.mp hfields), Option.none_or]
      cases a with
      | self =>
        dsimp only
        split_ifs with hnull
        · rw [Bool.and_eq_true, decide_eq_true_eq] at hnull
          rw [staged_null hnull.2, staged_null]
          rw [Dict.get?_set_self]
          rfl
        · rfl
      | user _ => rfl
  have h₂ : m₂.staged = m₁.staged := by
    cases a with
    | self => exact staged_set m₁ _ (by decide)
    | user _ => rfl
  have h₃ : m₃.staged.get? key = m₂.staged.get? key := by
    unfold m₃
    cases hdraft : draftFields m₂ with
    | none => rfl
    | some draft =>
      dsimp only
      rw [staged_withDraft, Dict.get?_filterKeys _ draft key hkey, Meta.staged, hdraft]
      rfl
  have h : m₃.staged.get? key = (fields.get? key).or (m.staged.get? key) := by
    rw [h₃, h₂, h₁]
  cases a with
  | self => exact h
  | user _ =>
    have hat : "draft_updated_at" ≠ "draft_meta" := by decide
    exact (congrArg (·.get? key) (staged_set m₃ _ hat)).trans h

end Staging

section Calls

variable [PyCoerce] {p q : Profile}

theorem ensures_recordNameNudge (a : Actor) (env : Surroundings) (fails : NudgeReads)
    (momentId : String) :
    Ensures (Held nudgeFields p) (recordNameNudge a env fails momentId)
      (fun _ => Held nudgeFields p) (fun _ => Held nudgeFields p) := by
  unfold recordNameNudge
  split_ifs
  · exact ensures_pure _ fun s hs => hs
  apply ensures_get_bind
  intro q hq
  split_ifs
  · exact ensures_pure _ (by rintro s rfl; exact hq)
  · refine ensures_bind ((ensures_ensureLayout a env fails.ensure (by decide)).weaken
      (by rintro s rfl; exact hq) (fun _ _ h => h) (fun _ _ h => h)) fun _ => ?_
    apply ensures_get_bind
    intro r hr
    cases hload : r.load fails.load with
    | none => exact ensures_pure _ (by rintro s rfl; exact hr)
    | some m =>
      dsimp only
      refine ensures_bind (Q := fun _ t => t = r) ?_ fun count => ?_
      · rintro s rfl
        generalize countOf _ = count
        cases count with
        | ok n => rfl
        | error e => exact hr
      · refine ensures_bind (Q := fun _ => Held nudgeFields p) ?_ fun _ =>
          ensures_pure _ fun s hs => hs
        rintro s rfl
        exact hr.trans (held_set hr.settled (load_some hload) (by decide) (by decide) rfl rfl rfl)

/-- The fields a `write_draft` may write besides what it stages. -/
def DraftArgs.besides (a : Actor) (args : DraftArgs) : List String :=
  if args.wants a then nudgeFields else layoutFields

omit [PyCoerce] in
theorem besides_subset (a : Actor) (args : DraftArgs) : args.besides a ⊆ nudgeFields := by
  unfold DraftArgs.besides
  split_ifs
  · exact List.Subset.refl _
  · exact layoutFields_subset

/-- The call stages its draft, by what it is given and by the store it finds. -/
def stages (a : Actor) (env : Surroundings) (fails : DraftReads) (args : DraftArgs)
    (p : Profile) : Bool :=
  !blank args.reason && p.there a && !(args.wants a && args.momentId.all blank) &&
    gatePasses a env fails.gate args p && (bodyError a args).isNone &&
    !(args.wants a && args.body.isNone && args.fields.items = [])

/-- A draft is staged in the document `m`. -/
def Staged (a : Actor) (env : Surroundings) (fails : DraftReads) (args : DraftArgs)
    (p p' : Profile) : Prop :=
  stages a env fails args p = true ∧ ∃ q, Held (args.besides a) p q ∧ p'.versions = q.versions ∧
    p'.doc = some (stageDraft a env args.body.isSome args.fields (q.loadOrDefault a env fails.main))

omit [PyCoerce] in
/-- The document that is read when the read does not fail. -/
theorem Held.loaded {free : List String} (h : Held free p q) (a : Actor) (env : Surroundings) :
    (q.loadOrDefault a env false).Fits q.versions ∧
      Follows free p.doc (some (q.loadOrDefault a env false)) := by
  have hload : q.load false = q.doc := rfl
  unfold Profile.loadOrDefault
  rw [hload]
  cases hdoc : q.doc with
  | none =>
    have hfollows := h.doc
    rw [hdoc] at hfollows
    cases hp : p.doc with
    | some m =>
      rw [hp] at hfollows
      cases hfollows
    | none =>
      exact ⟨fits_defaultMeta a env _ _ (h.settled.bare hdoc), .start a env _ _ _ fun _ _ => rfl⟩
  | some m =>
    have hfits := h.settled.fits m hdoc
    dsimp only
    rw [if_neg hfits.1]
    refine ⟨hfits, ?_⟩
    rw [← hdoc]
    exact h.doc

/-- The live name. -/
def Profile.name (p : Profile) : Option Json := p.doc.bind fun m => m.get? "full_name"

theorem namedText_default (a : Actor) (env : Surroundings) (id : VersionId) (body : String) :
    namedText ((defaultMeta a env id body).get? "full_name") = none := by
  rw [(defaultMeta_fields a env id body).2.1]
  rfl

theorem Follows.name {free : List String} {o : Option Meta} {m : Meta}
    (h : Follows free o (some m)) (hfree : "full_name" ∉ free) :
    namedText (m.get? "full_name") = namedText (o.bind fun m => m.get? "full_name") := by
  cases h with
  | start a env id body m h =>
    rw [h _ hfree]
    exact namedText_default a env id body
  | kept m m' h =>
    rw [h _ hfree]
    rfl

theorem Held.name {free : List String} (h : Held free p q) (hfree : "full_name" ∉ free) :
    namedText q.name = namedText p.name := by
  have hdoc := h.doc
  unfold Profile.name
  cases hq : q.doc with
  | none =>
    rw [hq] at hdoc
    cases hp : p.doc with
    | none => rfl
    | some m =>
      rw [hp] at hdoc
      cases hdoc
  | some m =>
    rw [hq] at hdoc
    exact hdoc.name hfree

theorem loadOrDefault_name (h : Settled p) (a : Actor) (env : Surroundings) (fails : Bool) :
    namedText ((p.loadOrDefault a env fails).get? "full_name") =
      if fails then none else namedText p.name := by
  cases fails with
  | true => exact namedText_default a env _ _
  | false =>
    have hload := ((Held.refl [] h).loaded a env).2
    exact hload.name (by decide)

theorem Held.gate {free : List String} (h : Held free p q) (hp : Settled p)
    (hfree : "full_name" ∉ free) (a : Actor) (env : Surroundings) (fails : Bool)
    (args : DraftArgs) : gatePasses a env fails args q = gatePasses a env fails args p := by
  unfold gatePasses requiresForce
  rw [loadOrDefault_name h.settled, loadOrDefault_name hp, h.name hfree]

omit [PyCoerce] in
theorem full_name_not_besides (a : Actor) (args : DraftArgs) : "full_name" ∉ args.besides a :=
  fun h => absurd (besides_subset a args h) (by decide)

theorem ensures_nudgeFirst (a : Actor) (env : Surroundings) (fails : NudgeReads)
    (args : DraftArgs) :
    Ensures (Held (args.besides a) p) (nudgeFirst a env fails args)
      (fun _ => Held (args.besides a) p) (fun _ => Held (args.besides a) p) := by
  unfold nudgeFirst
  by_cases hwants : args.wants a = true
  · have hbesides : args.besides a = nudgeFields := by rw [DraftArgs.besides, if_pos hwants]
    rw [if_pos hwants, hbesides]
    exact ensures_recordNameNudge a env fails _
  · rw [if_neg hwants]
    exact ensures_pure _ fun s hs => hs

theorem ensures_stage (a : Actor) (env : Surroundings) (fails : DraftReads) (args : DraftArgs)
    (hstages : stages a env fails args p = true) :
    Ensures (Held (args.besides a) p) (stage a env fails args)
      (fun reply p' => reply = .ok ∧ Staged a env fails args p p') (fun _ _ => False) := by
  intro q hq
  unfold stage
  cases hbody : args.body with
  | none =>
    refine ⟨rfl, hstages, q, hq, rfl, ?_⟩
    rw [hbody]
  | some body =>
    refine ⟨rfl, hstages, q, hq, rfl, ?_⟩
    rw [hbody]
    rfl

theorem ensures_writeDraft (a : Actor) (env : Surroundings) (fails : DraftReads)
    (args : DraftArgs) (hp : Settled p) :
    Ensures (· = p) (writeDraft a env fails args)
      (fun reply p' => Held (args.besides a) p p' ∨
        reply = .ok ∧ Staged a env fails args p p')
      (fun _ => Held (args.besides a) p) := by
  have hself : Held (args.besides a) p p := .refl _ hp
  unfold writeDraft
  dsimp only
  by_cases hreason : blank args.reason = true
  · rw [if_pos hreason]
    exact ensures_pure _ (by rintro s rfl; exact .inl hself)
  rw [if_neg hreason]
  apply ensures_get_bind
  rintro s hs
  obtain rfl : s = p := hs
  by_cases hthere : (!s.there a) = true
  · rw [if_pos hthere]
    exact ensures_pure _ (by rintro s rfl; exact .inl hself)
  rw [if_neg hthere]
  have hlayout : "current_content_sha256" ∈ args.besides a := by
    unfold DraftArgs.besides
    split_ifs <;> decide
  refine ensures_bind ((ensures_ensureLayout a env fails.ensure hlayout).weaken
    (by rintro t rfl; exact hself) (fun _ _ h => h) (fun _ _ h => h)) fun _ => ?_
  by_cases hmoment : (args.wants a && args.momentId.all blank) = true
  · rw [if_pos hmoment]
    exact ensures_pure _ fun s hs => .inl hs
  rw [if_neg hmoment]
  apply ensures_get_bind
  intro q hq
  by_cases hgate : (!gatePasses a env fails.gate args q) = true
  · rw [if_pos hgate]
    exact ensures_pure _ (by rintro s rfl; exact .inl hq)
  rw [if_neg hgate]
  cases hbody : bodyError a args with
  | some error => exact ensures_pure _ (by rintro t rfl; exact .inl hq)
  | none =>
    dsimp only
    refine ensures_bind ((ensures_nudgeFirst a env fails.nudge args).weaken
      (by rintro t rfl; exact hq) (fun _ _ h => h) (fun _ _ h => h)) fun nudged => ?_
    cases nudged with
    | refused error => exact ensures_pure _ fun t ht => .inl ht
    | ok =>
      dsimp only
      by_cases honly : (args.wants a && args.body.isNone && args.fields.items = []) = true
      · rw [if_pos honly]
        exact ensures_pure _ fun t ht => .inl ht
      rw [if_neg honly]
      rw [hq.gate hp (full_name_not_besides a args)] at hgate
      have hstages : stages a env fails args s = true := by
        rw [Bool.not_eq_true, Bool.not_eq_false'] at hthere hgate
        rw [stages, Bool.eq_false_of_not_eq_true hreason, Bool.eq_false_of_not_eq_true hmoment,
          Bool.eq_false_of_not_eq_true honly, hthere, hgate, hbody]
        rfl
      exact (ensures_stage a env fails args hstages).weaken (fun _ h => h)
        (fun _ _ h => .inr h) (fun _ _ h => h.elim)

/-- The draft is there to be promoted, by what the call is given and the store it finds. -/
def promotes (a : Actor) (env : Surroundings) (args : PromoteArgs) (p : Profile) : Bool :=
  !blank args.reason && p.there a && p.draft.any fun draft =>
    !blank draft && !args.expectedDraftSha256.any fun sha => sha ≠ env.sha256 draft

omit [PyCoerce] in
theorem get?_promoted (m : Meta) (k : String) : m.promoted.get? k =
    if k ∈ draftMetaKeys then (m.staged.get? k).or (m.get? k) else m.get? k := by
  have hfold : ∀ (draft : Meta) (copy : Meta → String → Meta) (_ : ∀ m key, copy m key =
      (draft.get? key).elim m fun v => m.set key v) (keys : List String) (m : Meta),
      (keys.foldl copy m).get? k =
      if k ∈ keys then (draft.get? k).or (m.get? k) else m.get? k := by
    intro draft copy hcopy keys
    induction keys with
    | nil => exact fun m => rfl
    | cons key rest ih =>
      intro m
      rw [List.foldl_cons, ih, hcopy]
      by_cases hk : k = key
      · subst hk
        cases hdraft : draft.get? k <;> simp
      · cases hdraft : draft.get? key with
        | none => simp [hk]
        | some v => simp [hk, Dict.get?_set_ne m v (Ne.symm hk)]
  unfold Meta.promoted Meta.staged
  cases draftFields m with
  | none => simp
  | some draft =>
    exact hfold draft _ (fun m key => by cases draft.get? key <;> rfl) draftMetaKeys m

/-- The fields of its own that a promote writes. -/
def promoteFields : List String :=
  ["current_version_id", "draft_meta", "draft_updated_at", "current_promoted_at",
    "current_content_sha256", "promote_count", "versions", "provisional"]

theorem get?_resetNudge (a : Actor) (old m : Meta) {f : String} (hf : f ≠ "name_nudge") :
    (resetNudge a old m).get? f = m.get? f := by
  cases a with
  | self => rfl
  | user _ =>
    dsimp only [resetNudge]
    split_ifs
    · exact Dict.get?_set_ne m _ (Ne.symm hf)
    · rfl

omit [PyCoerce] in
theorem get?_clearProvisional (a : Actor) (m : Meta) {f : String} (hf : f ≠ "provisional") :
    (clearProvisional a m).get? f = m.get? f := by
  cases a with
  | self => rfl
  | user _ =>
    dsimp only [clearProvisional]
    split_ifs
    · exact Dict.get?_set_ne m _ (Ne.symm hf)
    · rfl

theorem get?_promotedMeta (a : Actor) (env : Surroundings) (m : Meta) (sha : String)
    (rows : List Json) (count : Int) {f : String} (hf : f ∉ promoteFields) :
    (promotedMeta a env m sha rows count).get? f = (resetNudge a m m.promoted).get? f := by
  simp only [promoteFields, List.mem_cons, List.not_mem_nil, or_false, not_or] at hf
  obtain ⟨h₁, h₂, h₃, h₄, h₅, h₆, h₇, h₈⟩ := hf
  unfold promotedMeta
  dsimp only
  rw [get?_clearProvisional a _ h₈, Dict.get?_set_ne _ _ (Ne.symm h₇),
    Dict.get?_set_ne _ _ (Ne.symm h₆), Dict.get?_set_ne _ _ (Ne.symm h₅),
    Dict.get?_set_ne _ _ (Ne.symm h₄), Dict.get?_set_ne _ _ (Ne.symm h₃),
    Dict.get?_set_ne _ _ (Ne.symm h₂), Dict.get?_set_ne _ _ (Ne.symm h₁)]

theorem promotedMeta_fields (a : Actor) (env : Surroundings) (m : Meta) (sha : String)
    (rows : List Json) (count : Int) :
    (promotedMeta a env m sha rows count).get? "versions" = some (.arr rows) ∧
    (promotedMeta a env m sha rows count).get? "promote_count" = some (.int count) ∧
    (promotedMeta a env m sha rows count).get? "draft_meta" = some .null := by
  unfold promotedMeta
  dsimp only
  rw [get?_clearProvisional a _ (by decide), get?_clearProvisional a _ (by decide),
    get?_clearProvisional a _ (by decide)]
  simp [Dict.get?_set]

/-- A nudge is renewed only when a name is staged. -/
theorem name_nudge_kept (a : Actor) (m : Meta) (hgoes : m.staged.get? "goes_by" = none)
    (hknown : m.staged.get? "real_name_known" = none) :
    (resetNudge a m m.promoted).get? "name_nudge" = m.get? "name_nudge" := by
  have hpromoted : ∀ k, m.staged.get? k = none → m.promoted.get? k = m.get? k := by
    intro k hk
    rw [get?_promoted, hk, Option.none_or, ite_self]
  have hnudge : m.promoted.get? "name_nudge" = m.get? "name_nudge" := by
    rw [get?_promoted, if_neg (by decide)]
  cases a with
  | self => exact hnudge
  | user _ =>
    dsimp only [resetNudge]
    rw [hpromoted _ hgoes, hpromoted _ hknown, if_neg (by simp)]
    exact hnudge

/-- What a promote leaves of a store whose document is read as `m`. -/
def Promoted (a : Actor) (env : Surroundings) (m : Meta) (q p' : Profile) : Prop :=
  (p'.doc = q.doc ∧ Settled p' ∧ m.staged = .empty) ∨
    ∃ sha rows count, p'.doc = some (promotedMeta a env m sha rows count) ∧
      Indexed rows p'.versions

omit [PyCoerce] in
theorem truthy_rows (rows : List Json) :
    (some (Json.arr rows)).filter truthy = if rows = [] then none else some (.arr rows) := by
  cases rows <;> rfl

omit [PyCoerce] in
theorem settled_pruned {rows : List Json} (h : Settled q)
    (hindexed : Indexed rows q.versions) {m : Meta} (hrows : m.get? "versions" = some (.arr rows))
    (hdoc : q.doc = none ∨ q.doc = some m) (draft : Option String) :
    Settled { q with versions := pruneOrphans rows q.versions, draft } := by
  refine ⟨fun hnone id hid => ?_, fun m' hm' => ?_⟩
  · exact h.bare hnone id (mem_keys_filterKeys hid)
  · have hfits := h.fits m' hm'
    obtain hnone | hsome := hdoc
    · rw [hnone] at hm'
      cases hm'
    · obtain rfl : m = m' := Option.some.inj (hsome.symm.trans hm')
      exact ⟨hfits.1, rows, hrows, hindexed.pruned⟩

theorem ensures_promoteDraft (a : Actor) (env : Surroundings) (fails : PromoteReads)
    (draft : String) {m : Meta} (h : Settled q) (hm : q.loadOrDefault a env fails.load = m)
    (hfits : m.Fits q.versions) (hdoc : q.doc = none ∨ q.doc = some m)
    (hcount : ∃ n, countOf (m.get? "promote_count") = .ok n) :
    Ensures (· = q) (promoteDraft a env fails draft)
      (fun reply p' => reply = .ok ∧ Promoted a env m q p') (fun _ _ => False) := by
  obtain ⟨-, rows, hrows, hindexed⟩ := hfits
  obtain ⟨n, hn⟩ := hcount
  unfold promoteDraft
  apply ensures_get_bind
  intro s hs
  obtain rfl : s = q := hs
  dsimp only
  rw [hm]
  by_cases halready : alreadyPromoted m s draft (env.sha256 draft) = true
  · rw [if_pos halready]
    have hstaged : m.staged = .empty := by
      unfold alreadyPromoted at halready
      simp only [Bool.and_eq_true, decide_eq_true_eq] at halready
      exact staged_null halready.1.1.1
    rw [hrows, truthy_rows]
    have hpruned := settled_pruned h hindexed hrows hdoc none
    by_cases hnil : rows = []
    · rw [if_pos hnil]
      subst hnil
      rintro t rfl
      exact ⟨rfl, .inl ⟨rfl, hpruned, hstaged⟩⟩
    · rw [if_neg hnil]
      rintro t rfl
      exact ⟨rfl, .inl ⟨rfl, hpruned, hstaged⟩⟩
  · rw [if_neg halready, hrows]
    refine ensures_bind (Q := fun r t => r = rows ∧ t = s) (fun t ht => ⟨rfl, ht⟩) ?_
    rintro rows₁ t ⟨rfl, rfl⟩
    have hindexed' : ∀ kept dropped versions,
        (if t.archives a then archive env m t.digest rows₁ t.versions
          else (rows₁, [], t.versions)) = (kept, dropped, versions) →
        Indexed kept (deleteVersions dropped versions) := by
      intro kept dropped versions heq
      split_ifs at heq
      · exact hindexed.archived env m t.digest heq
      · simp only [Prod.mk.injEq] at heq
        obtain ⟨rfl, rfl, rfl⟩ := heq
        exact hindexed.filterKeys fun _ _ _ _ _ => rfl
    generalize (if t.archives a then archive env m t.digest rows₁ t.versions
      else (rows₁, [], t.versions)) = archived at hindexed' ⊢
    obtain ⟨kept, dropped, versions⟩ := archived
    dsimp only
    rw [hn]
    exact ⟨rfl, .inr ⟨_, _, _, rfl, hindexed' kept dropped versions rfl⟩⟩

end Calls

end Elyra.Identity
