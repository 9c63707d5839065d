import Elyra.Memory.EpisodicFits
import Elyra.Memory.EpisodicSelect
import Elyra.Memory.PutSpec
import Elyra.Memory.RangeQueries

namespace Elyra.Memory

section Packing

variable {P : String → Prop} {p : Packed}

/-- The seen ids are those of the items, each once, and all are as `P` says. -/
structure PackedOk (P : String → Prop) (p : Packed) : Prop where
  seen : p.seen = allAtomIds p.items
  nodup : p.seen.Nodup
  known : ∀ id ∈ p.seen, P id

theorem PackedOk.add (hp : PackedOk P p) {item : EpisodicItem} (hnodup : item.atomIds.Nodup)
    (hnew : ∀ id ∈ item.atomIds, id ∉ p.seen) (hknown : ∀ id ∈ item.atomIds, P id) :
    PackedOk P (p.add item) := by
  refine ⟨?_, ?_, ?_⟩
  · rw [Packed.add, allAtomIds, List.flatMap_append, List.flatMap_singleton, hp.seen]
    rfl
  · apply List.nodup_append.mpr
    refine ⟨hp.nodup, hnodup, ?_⟩
    rintro id hid _ hid' rfl
    exact hnew id hid' hid
  · intro id hid
    obtain hid | hid := List.mem_append.mp hid
    · exact hp.known id hid
    · exact hknown id hid

theorem PackedOk.tryPackSummary (hp : PackedOk P p) (summaryBudget cap : Int) (tip : Tip)
    (htip : P tip.atom.atomId) : PackedOk P (tryPackSummary summaryBudget cap p tip) := by
  rw [Memory.tryPackSummary]
  dsimp only
  split_ifs with hseen
  · exact hp
  · exact hp
  · exact hp
  · exact hp
  · have hone : (EpisodicItem.summary tip).atomIds.Nodup := List.nodup_singleton _
    apply hp.add hone
    · intro id hid
      rw [List.mem_singleton.mp hid]
      exact hseen
    · intro id hid
      rw [List.mem_singleton.mp hid]
      exact htip

/-- The pick takes atoms that were not seen, in the given order. -/
theorem pickPreferred_eq (cap : Int) (label : String) (seen : List String)
    (atoms selected : List Snapshot) (used : Int) :
    ∃ part, pickPreferred cap label seen atoms selected used = selected ++ part ∧
      part.Sublist atoms ∧ ∀ a ∈ part, a.atomId ∉ seen := by
  induction atoms generalizing selected used with
  | nil => exact ⟨[], (List.append_nil _).symm, List.Sublist.refl _, fun _ h => (nomatch h)⟩
  | cons a atoms ih =>
    rw [pickPreferred]
    split_ifs with hseen
    · obtain ⟨part, hpart, hsub, hnew⟩ := ih selected used
      exact ⟨part, hpart, hsub.cons a, hnew⟩
    · obtain ⟨part, hpart, hsub, hnew⟩ := ih selected used
      exact ⟨part, hpart, hsub.cons a, hnew⟩
    · obtain ⟨part, hpart, hsub, hnew⟩ := ih (selected ++ [a]) (used + lineCost label selected a)
      refine ⟨a :: part, by rw [hpart, List.append_assoc]; rfl, hsub.cons_cons a, ?_⟩
      intro b hb
      obtain rfl | hb := List.mem_cons.mp hb
      · exact hseen
      · exact hnew b hb

theorem pickUntilFull_eq (cap : Int) (label : String) (atoms selected : List Snapshot)
    (used : Int) : ∃ part, pickUntilFull cap label atoms selected used = selected ++ part ∧
      part.Sublist atoms := by
  induction atoms generalizing selected used with
  | nil => exact ⟨[], (List.append_nil _).symm, List.Sublist.refl _⟩
  | cons a atoms ih =>
    rw [pickUntilFull]
    split_ifs
    · exact ⟨[], (List.append_nil _).symm, List.nil_sublist _⟩
    · obtain ⟨part, hpart, hsub⟩ := ih (selected ++ [a]) (used + lineCost label selected a)
      exact ⟨a :: part, by rw [hpart, List.append_assoc]; rfl, hsub.cons_cons a⟩

/-- A block of unseen atoms of one moment joins the items. -/
theorem PackedOk.addBlock (hp : PackedOk P p) {momentId : String} {rows atoms : List Snapshot}
    (hnodup : (rows.map Snapshot.atomId).Nodup) (hrows : ∀ a ∈ rows, P a.atomId)
    (hsub : atoms.Subperm rows) (hnew : ∀ a ∈ atoms, a.atomId ∉ p.seen) {item : EpisodicItem}
    (hitem : rebuildPriorMomentItem momentId atoms = some item) : PackedOk P (p.add item) := by
  have hperm := atomIds_rebuild hitem
  obtain ⟨ids, hids, hsubids⟩ := hsub
  have hatoms : (atoms.map Snapshot.atomId).Nodup :=
    (hids.map _).nodup_iff.mp (hnodup.sublist (hsubids.map _))
  have hmem : ∀ id ∈ item.atomIds, ∃ a ∈ atoms, a.atomId = id := by
    intro id hid
    exact List.mem_map.mp (hperm.mem_iff.mp hid)
  apply hp.add (hperm.nodup_iff.mpr hatoms)
  · intro id hid
    obtain ⟨a, ha, rfl⟩ := hmem id hid
    exact hnew a ha
  · intro id hid
    obtain ⟨a, ha, rfl⟩ := hmem id hid
    exact hrows a (hsubids.subset (hids.mem_iff.mpr ha))

theorem PackedOk.packMoment (hp : PackedOk P p) (cap : Int) (momentId : String)
    {rows : List Snapshot} (hnodup : (rows.map Snapshot.atomId).Nodup)
    (hrows : ∀ a ∈ rows, P a.atomId) : PackedOk P (packMoment cap p momentId rows) := by
  obtain ⟨picked, hpicked, hsub, hnew⟩ := pickPreferred_eq cap
    (priorMomentLabel momentId) p.seen
    (sortBy Snapshot.preferKey (sortBy Snapshot.chronoKey rows)) [] p.used
  rw [List.nil_append] at hpicked
  have hsorted := sortBy_perm Snapshot.chronoKey picked
  have hall : (sortBy Snapshot.preferKey (sortBy Snapshot.chronoKey rows)).Perm rows :=
    (sortBy_perm _ _).trans (sortBy_perm _ _)
  have hselected : (sortBy Snapshot.chronoKey picked).Subperm rows :=
    hsorted.subperm.trans (hsub.subperm.trans hall.subperm)
  have hunseen : ∀ a ∈ sortBy Snapshot.chronoKey picked, a.atomId ∉ p.seen := by
    intro a ha
    exact hnew a (hsorted.mem_iff.mp ha)
  obtain ⟨part, hpart, hpartsub⟩ := pickUntilFull_eq cap (priorMomentLabel momentId)
    (sortBy Snapshot.chronoKey picked) [] p.used
  rw [List.nil_append] at hpart
  rw [Memory.packMoment, hpicked, hpart]
  cases hitem : rebuildPriorMomentItem momentId (sortBy Snapshot.chronoKey picked) with
  | none => exact hp
  | some item =>
    dsimp only
    split_ifs
    · cases hshort : rebuildPriorMomentItem momentId part with
      | none => exact hp
      | some short =>
        exact hp.addBlock hnodup hrows (hpartsub.subperm.trans hselected)
          (fun a ha => hunseen a (hpartsub.subset ha)) hshort
    · exact hp.addBlock hnodup hrows hselected hunseen hitem

/-- The moments hold atoms of the rows, each of a moment once. -/
theorem mem_orderedMoments {maxPriorMoments : Int} {raw : List (String × Snapshot)}
    {g : String × List Snapshot} (hg : g ∈ orderedMoments maxPriorMoments raw) :
    g.2.Sublist (raw.map Prod.snd) := by
  have hsorted := (sortByDesc_perm _ _).mem_iff.mp (List.mem_of_mem_take hg)
  obtain ⟨e, he, rfl⟩ := List.mem_map.mp hsorted
  rw [groupRows_items] at he
  obtain ⟨k, -, rfl⟩ := List.mem_map.mp he
  exact List.filter_sublist.map _

theorem packedOk_packEpisodic (cap maxPriorMoments : Int) (reads : EpisodicReads)
    (hnodup : (reads.raw.map fun row => row.2.atomId).Nodup)
    (htips : ∀ tip ∈ reads.tips, P tip.atom.atomId)
    (hraw : ∀ row ∈ reads.raw, P row.2.atomId) :
    PackedOk P (packEpisodic cap maxPriorMoments reads) := by
  have hsummaries : ∀ (tips : List Tip) (p : Packed), (∀ tip ∈ tips, P tip.atom.atomId) →
      PackedOk P p → PackedOk P (tips.foldl (tryPackSummary reads.summaryBudget cap) p) := by
    intro tips
    induction tips with
    | nil => exact fun p _ hp => hp
    | cons tip tips ih =>
      intro p hknown hp
      apply ih _ (fun t ht => hknown t (List.mem_cons_of_mem _ ht))
      exact hp.tryPackSummary _ _ tip (hknown tip List.mem_cons_self)
  have hblocks : ∀ (groups : List (String × List Snapshot)) (p : Packed),
      (∀ g ∈ groups, (g.2.map Snapshot.atomId).Nodup ∧ ∀ a ∈ g.2, P a.atomId) →
      PackedOk P p → PackedOk P (groups.foldl (fun p g => packMoment cap p g.1 g.2) p) := by
    intro groups
    induction groups with
    | nil => exact fun p _ hp => hp
    | cons g groups ih =>
      intro p hknown hp
      obtain ⟨hids, hatoms⟩ := hknown g List.mem_cons_self
      exact ih _ (fun g hg => hknown g (List.mem_cons_of_mem _ hg))
        (hp.packMoment cap g.1 hids hatoms)
  have hfirst : PackedOk P (reads.tips.foldl (tryPackSummary reads.summaryBudget cap) {}) := by
    apply hsummaries _ _ htips
    exact ⟨rfl, List.nodup_nil, fun _ h => (nomatch h)⟩
  rw [packEpisodic]
  apply hblocks _ _ _ hfirst
  intro g hg
  have hsub := (mem_orderedMoments hg).trans (List.filter_sublist.map Prod.snd)
  refine ⟨?_, ?_⟩
  · have hids : ((reads.raw.map Prod.snd).map Snapshot.atomId).Nodup := by
      rw [List.map_map]
      exact hnodup
    exact hids.sublist (hsub.map _)
  · intro a ha
    obtain ⟨row, hrow, rfl⟩ := List.mem_map.mp (hsub.subset ha)
    exact hraw row hrow

end Packing

section Reading

variable {s : JsonlMemoryStore} {now : Instant}

theorem findTip_mem {target : String} {hits : List Atom} {tip : Tip}
    (h : findTip target hits = .ok (some tip)) : tip.atom ∈ hits := by
  induction hits with
  | nil => cases h
  | cons a hits ih =>
    rw [findTip] at h
    split_ifs at h
    · exact List.mem_cons_of_mem _ (ih h)
    · split at h
      · cases h
      · split_ifs at h
        · rw [← Option.some.inj (Except.ok.inj h)]
          exact List.mem_cons_self
        · exact List.mem_cons_of_mem _ (ih h)

/-- A row that the ladder index names. -/
def IsTip (s : JsonlMemoryStore) (a : Atom) : Prop :=
  ∃ key id, s.ladder.get? key = some id ∧ s.byId.get? id = some a

theorem listTips_isTip {scale : String} {window : Option (String × String)} {limit : Int}
    {hits : List Atom} (h : s.listTips scale window limit = .ok hits) {a : Atom} (ha : a ∈ hits) :
    IsTip s a := by
  obtain ⟨bounds, -, h⟩ := except_bind_ok h
  obtain ⟨rows, hrows, h⟩ := except_bind_ok h
  obtain ⟨sorted, hsorted, h⟩ := except_bind_ok h
  obtain ⟨flagged, hflagged, hrows⟩ := except_bind_ok hrows
  obtain ⟨hperm, -⟩ := sortKeyed_spec rows sorted hsorted
  rw [← Except.ok.inj h] at ha
  have hin := hperm.mem_iff.mp (List.mem_of_mem_take ha)
  rw [← Except.ok.inj hrows] at hin
  obtain ⟨q, hq, rfl⟩ := List.mem_map.mp hin
  obtain ⟨hsnd, -⟩ := mapM_keyed _ flagged hflagged
  have htip : q.2 ∈ s.tipRows scale := by
    rw [← hsnd]
    exact List.mem_map_of_mem (List.mem_filter.mp hq).1
  obtain ⟨e, he, hrow⟩ := List.mem_filterMap.mp htip
  split_ifs at hrow
  exact ⟨e.1, e.2, (Dict.get?_eq_some_iff _ _ _).mpr he, hrow⟩

theorem loadWindowSummary_isTip {scale : PeriodScale} {window : Instant × Instant} {tip : Tip}
    (h : loadWindowSummary s scale window = .ok (some tip)) : IsTip s tip.atom := by
  obtain ⟨hits, hhits, h⟩ := except_bind_ok h
  exact listTips_isTip hhits (findTip_mem h)

theorem currentTip_isTip {scale : PeriodScale} {t : Instant} {tip : Tip}
    (h : currentTip s scale t = .ok (some tip)) : IsTip s tip.atom := by
  obtain ⟨window, -, h⟩ := except_bind_ok h
  exact loadWindowSummary_isTip h

/-- The tips that a pass over windows finds. -/
theorem mapM_isTip {α : Type} {f : α → Except PyErr (Option Tip)}
    (hf : ∀ a tip, f a = .ok (some tip) → IsTip s tip.atom) {l : List α}
    {found : List (Option Tip)} (h : l.mapM f = .ok found) {tip : Tip}
    (htip : tip ∈ found.filterMap id) : IsTip s tip.atom := by
  obtain ⟨o, ho, rfl⟩ := List.mem_filterMap.mp htip
  obtain ⟨a, -, ha⟩ := mem_mapM h ho
  exact hf a tip ha

theorem load1hRecentBand_spec {recentCount : Nat} {band : List Tip}
    (h : load1hRecentBand s now recentCount = .ok band) :
    (∃ window, windowBounds .h1 now = .ok window) ∧ ∀ tip ∈ band, IsTip s tip.atom := by
  obtain ⟨window, hwindow, h⟩ := except_bind_ok h
  obtain ⟨openTip, hopen, h⟩ := except_bind_ok h
  obtain ⟨closed, hclosed, h⟩ := except_bind_ok h
  refine ⟨⟨window, hwindow⟩, ?_⟩
  intro tip htip
  rw [← Except.ok.inj h, List.filterMap_cons] at htip
  have hold : tip ∈ closed.filterMap id → IsTip s tip.atom := by
    apply mapM_isTip _ hclosed
    intro i tip hi
    obtain ⟨t, -, hi⟩ := except_bind_ok hi
    exact currentTip_isTip hi
  cases openTip with
  | none => exact hold htip
  | some current =>
    obtain rfl | htip := List.mem_cons.mp htip
    · exact loadWindowSummary_isTip hopen
    · exact hold htip

theorem summaryCandidates_spec {recentCount : Nat} {tips : List Tip}
    (h : summaryCandidates s now recentCount = .ok tips) :
    (∃ window, windowBounds .h1 now = .ok window) ∧ ∀ tip ∈ tips, IsTip s tip.atom := by
  obtain ⟨coarse, hcoarse, h⟩ := except_bind_ok h
  obtain ⟨band, hband, h⟩ := except_bind_ok h
  obtain ⟨legacy, hlegacy, h⟩ := except_bind_ok h
  obtain ⟨hwindow, hbandTips⟩ := load1hRecentBand_spec hband
  refine ⟨hwindow, ?_⟩
  intro tip htip
  have hscale (scale : PeriodScale) (tip : Tip) (h : currentTip s scale now = .ok (some tip)) :
      IsTip s tip.atom :=
    currentTip_isTip h
  rw [← Except.ok.inj h, List.mem_append, List.mem_append] at htip
  obtain (htip | htip) | htip := htip
  · exact mapM_isTip hscale hcoarse htip
  · exact hbandTips tip htip
  · rw [legacyTips] at hlegacy
    split_ifs at hlegacy
    · exact mapM_isTip hscale hlegacy htip
    · rw [← Except.ok.inj hlegacy] at htip
      cases htip

theorem untilLimit_sublist {α : Type} (limit : Option Int) (l : List α) :
    (untilLimit limit l).Sublist l := by
  cases limit with
  | none => exact List.Sublist.refl _
  | some n => exact List.take_sublist _ _

theorem listRange_subperm {tStart tEnd : String} {kinds : Option (List String)}
    {exclude : Option String} {limit : Option Int} {listed : List Atom}
    (h : s.listRange tStart tEnd kinds exclude limit = .ok listed) : listed.Subperm (rows s) := by
  obtain ⟨start, -, h⟩ := except_bind_ok h
  obtain ⟨stop, -, h⟩ := except_bind_ok h
  obtain ⟨sorted, hsorted, h⟩ := except_bind_ok h
  obtain ⟨hperm, -⟩ := sortKeyed_spec _ sorted hsorted
  rw [← Except.ok.inj h]
  have hsub (p : (String ×ₗ String) × Atom → Bool) :=
    ((untilLimit_sublist limit (sorted.filter p)).trans List.filter_sublist).map Prod.snd
  exact (hsub _).subperm.trans hperm.subperm

theorem ofAtom_atomId {a : Atom} {snap : Snapshot} (h : Snapshot.ofAtom a = .ok snap) :
    snap.atomId = a.atomId := by
  rw [Snapshot.ofAtom.eq_def] at h
  split at h
  · cases h
  · rw [← Except.ok.inj h]

/-- The raw rows are rows of the store that may be shown, each once. -/
theorem rawRows_spec (hs : Keyed s) {horizonStart : Instant} {openMomentId : Option String}
    {raw : List (String × Snapshot)} (h : rawRows s now horizonStart openMomentId = .ok raw) :
    (raw.map fun row => row.2.atomId).Nodup ∧
      ∀ row ∈ raw, ∃ a ∈ rows s, a.atomId = row.2.atomId ∧ rawEligible openMomentId a = true := by
  obtain ⟨listed, hlisted, h⟩ := except_bind_ok h
  have hall := mapM_forall₂ h
  have hids : (raw.map fun row => row.2.atomId) =
      (listed.filter (rawEligible openMomentId)).map Atom.atomId := by
    have heq := hall.imp (S := fun a (row : String × Snapshot) => a.atomId = row.2.atomId) ?_
    · rw [← List.forall₂_map_right_iff, ← List.forall₂_map_left_iff, List.forall₂_eq_eq_eq] at heq
      exact heq.symm
    · intro a row hrow
      obtain ⟨snap, hsnap, hrow⟩ := except_bind_ok hrow
      rw [← Except.ok.inj hrow]
      exact (ofAtom_atomId hsnap).symm
  obtain ⟨l, hperm, hsub⟩ := listRange_subperm hlisted
  refine ⟨?_, ?_⟩
  · rw [hids]
    have hlist : (listed.map Atom.atomId).Nodup :=
      (hperm.map _).nodup_iff.mp (hs.ids_nodup.sublist (hsub.map _))
    exact hlist.sublist (List.filter_sublist.map _)
  · intro row hrow
    have hmem : row.2.atomId ∈ (listed.filter (rawEligible openMomentId)).map Atom.atomId := by
      rw [← hids]
      exact List.mem_map_of_mem hrow
    obtain ⟨a, ha, hid⟩ := List.mem_map.mp hmem
    obtain ⟨hin, heligible⟩ := List.mem_filter.mp ha
    exact ⟨a, hsub.subset (hperm.mem_iff.mpr hin), hid, heligible⟩

end Reading

variable {s : JsonlMemoryStore} {now : Instant} {openMomentId : Option String} {cap : Nat}
  {cfg : EpisodicSettings}

/-- The atom belongs to the open moment, when there is one. -/
def OfOpenMoment (openMomentId : Option String) (a : Atom) : Prop :=
  missing openMomentId = false ∧ a.momentId = openMomentId

/-- The selection returns items within the cap that show no atom twice and none of the open
moment. -/
def SelectsWell (s : JsonlMemoryStore) (now : Instant) (openMomentId : Option String) (cap : Nat)
    (cfg : EpisodicSettings) : Prop :=
  ∃ items, selectEpisodic s now openMomentId cap cfg = .ok items ∧ totalTokens items ≤ cap ∧
    (allAtomIds items).Nodup ∧
      ∀ id ∈ allAtomIds items, ∀ a, s.byId.get? id = some a → ¬OfOpenMoment openMomentId a

/-- The reads of the windows and of the store return, and the shrink of what was packed does not
empty a block while more atoms are to be dropped. -/
def Shrinkable (s : JsonlMemoryStore) (now : Instant) (openMomentId : Option String) (cap : Nat)
    (cfg : EpisodicSettings) : Prop :=
  ∃ reads, readEpisodic s now openMomentId cap cfg = .ok reads ∧
    ¬Strands cap (packEpisodic cap cfg.maxPriorMoments reads).items

/-- No tip of the ladder is an atom of the open moment. -/
def NoOpenTip (s : JsonlMemoryStore) (openMomentId : Option String) : Prop :=
  ∀ a, IsTip s a → ¬OfOpenMoment openMomentId a

theorem selectEpisodic_zero : selectEpisodic s now openMomentId (0 : Nat) cfg = .ok [] := rfl

theorem selectEpisodic_pos (hcap : 0 < cap) : selectEpisodic s now openMomentId cap cfg = do
    let reads ← (readEpisodic s now openMomentId cap cfg).mapError SelectError.python
    let items := (packEpisodic cap cfg.maxPriorMoments reads).items
    if (cap : Int) < totalTokens items then shrinkEpisodic cap now items else return items := by
  have hmax : max 0 (cap : Int) = cap := max_eq_right (Int.natCast_nonneg cap)
  rw [selectEpisodic, hmax]
  dsimp only
  rw [if_neg (by omega)]

/-- The reads return a window of the hour, tips of the ladder and rows to show. -/
theorem readEpisodic_spec (hs : Keyed s) {reads : EpisodicReads}
    (h : readEpisodic s now openMomentId cap cfg = .ok reads) :
    (∃ window, windowBounds .h1 now = .ok window) ∧
      (reads.raw.map fun row => row.2.atomId).Nodup ∧
      (∀ tip ∈ reads.tips, IsTip s tip.atom) ∧
      ∀ row ∈ reads.raw, ∃ a ∈ rows s, a.atomId = row.2.atomId ∧
        rawEligible openMomentId a = true := by
  obtain ⟨horizon, -, h⟩ := except_bind_ok h
  obtain ⟨horizonStart, -, h⟩ := except_bind_ok h
  obtain ⟨budget, -, h⟩ := except_bind_ok h
  obtain ⟨tips, htips, h⟩ := except_bind_ok h
  obtain ⟨raw, hraw, h⟩ := except_bind_ok h
  obtain ⟨hwindow, htip⟩ := summaryCandidates_spec htips
  obtain ⟨hnodup, hrows⟩ := rawRows_spec hs hraw
  rw [← Except.ok.inj h]
  exact ⟨hwindow, hnodup, htip, hrows⟩

/-- A tip or an atom of a prior moment. -/
def Shown (s : JsonlMemoryStore) (openMomentId : Option String) (id : String) : Prop :=
  (∃ a, IsTip s a ∧ a.atomId = id) ∨
    ∃ a ∈ rows s, a.atomId = id ∧ rawEligible openMomentId a = true

theorem Shown.not_open (hs : Keyed s) (htips : NoOpenTip s openMomentId) {id : String}
    (h : Shown s openMomentId id) {a : Atom} (ha : s.byId.get? id = some a) :
    ¬OfOpenMoment openMomentId a := by
  obtain ⟨b, htip, hid⟩ | ⟨b, hb, hid, heligible⟩ := h
  · obtain ⟨key, tipId, hlive, hrow⟩ := htip
    have hself := hs tipId b hrow
    rw [← hid, hself, hrow] at ha
    rw [← Option.some.inj ha]
    exact htips b ⟨key, tipId, hlive, hrow⟩
  · rw [hs.mem_rows, hid, ha] at hb
    rw [Option.some.inj hb]
    intro hopen
    rw [rawEligible, hopen.1, hopen.2] at heligible
    simp at heligible

theorem packed_spec (hs : Keyed s) {reads : EpisodicReads}
    (h : readEpisodic s now openMomentId cap cfg = .ok reads) :
    (allAtomIds (packEpisodic cap cfg.maxPriorMoments reads).items).Nodup ∧
      ∀ id ∈ allAtomIds (packEpisodic cap cfg.maxPriorMoments reads).items,
        Shown s openMomentId id := by
  obtain ⟨-, hnodup, htips, hrows⟩ := readEpisodic_spec hs h
  have hpacked : PackedOk (Shown s openMomentId) (packEpisodic cap cfg.maxPriorMoments reads) := by
    apply packedOk_packEpisodic _ _ _ hnodup
    · exact fun tip htip => .inl ⟨tip.atom, htips tip htip, rfl⟩
    · exact fun row hrow => .inr (hrows row hrow)
  rw [← hpacked.seen]
  exact ⟨hpacked.nodup, hpacked.known⟩

/-- Items that fit are not shrunk. -/
theorem not_strands {items : List EpisodicItem} (hfits : totalTokens items ≤ cap) :
    ¬Strands cap items := by
  rintro ⟨before, d, e, after, work, -, hwork, hover, -⟩
  have := foldlM_dropOne_tokens hwork
  omega

/-- With reads that return, the selection raises exactly when the shrink strands. -/
theorem selectEpisodic_raises (hs : Keyed s) (hcap : 0 < cap) {reads : EpisodicReads}
    (h : readEpisodic s now openMomentId cap cfg = .ok reads) :
    selectEpisodic s now openMomentId cap cfg = .error .noTokenEstimate ∧
        Strands cap (packEpisodic cap cfg.maxPriorMoments reads).items ∨
      (∃ items, selectEpisodic s now openMomentId cap cfg = .ok items ∧
        Lessened items (packEpisodic cap cfg.maxPriorMoments reads).items ∧
          totalTokens items ≤ cap) ∧
        ¬Strands cap (packEpisodic cap cfg.maxPriorMoments reads).items := by
  obtain ⟨⟨⟨a, b⟩, hwindow⟩, -⟩ := readEpisodic_spec hs h
  obtain ⟨hnodup, -⟩ := packed_spec hs h
  have hrun : selectEpisodic s now openMomentId cap cfg =
      if (cap : Int) < totalTokens (packEpisodic cap cfg.maxPriorMoments reads).items then
        shrinkEpisodic cap now (packEpisodic cap cfg.maxPriorMoments reads).items
      else .ok (packEpisodic cap cfg.maxPriorMoments reads).items := by
    rw [selectEpisodic_pos hcap, h]
    rfl
  rw [hrun]
  by_cases hover : (cap : Int) < totalTokens (packEpisodic cap cfg.maxPriorMoments reads).items
  · rw [if_pos hover]
    exact shrinkEpisodic_raises (Int.natCast_nonneg cap) hwindow hnodup
  · rw [if_neg hover]
    have hfits := not_lt.mp hover
    exact .inr ⟨⟨_, rfl, Lessened.refl _, hfits⟩, not_strands hfits⟩

/-- A selection that returns well had reads that return and a shrink that does not strand; with
these it returns well unless a tip of the ladder is an atom of the open moment. -/
theorem selectEpisodic_well (hs : Keyed s) :
    (SelectsWell s now openMomentId cap cfg → cap = 0 ∨ Shrinkable s now openMomentId cap cfg) ∧
      (NoOpenTip s openMomentId →
        (SelectsWell s now openMomentId cap cfg ↔
          cap = 0 ∨ Shrinkable s now openMomentId cap cfg)) := by
  have hneeds (h : SelectsWell s now openMomentId cap cfg) :
      cap = 0 ∨ Shrinkable s now openMomentId cap cfg := by
    obtain ⟨items, hrun, -⟩ := h
    obtain rfl | hcap := Nat.eq_zero_or_pos cap
    · exact .inl rfl
    · right
      cases hread : readEpisodic s now openMomentId cap cfg with
      | error e =>
        rw [selectEpisodic_pos hcap, hread] at hrun
        cases hrun
      | ok reads =>
        obtain ⟨hraises, -⟩ | ⟨-, hnot⟩ := selectEpisodic_raises hs hcap hread
        · rw [hraises] at hrun
          cases hrun
        · exact ⟨reads, hread, hnot⟩
  refine ⟨hneeds, fun htips => ⟨hneeds, ?_⟩⟩
  intro h
  obtain rfl | hcap := Nat.eq_zero_or_pos cap
  · exact ⟨[], selectEpisodic_zero, le_refl _, List.nodup_nil, fun _ hid => (nomatch hid)⟩
  · obtain hzero | ⟨reads, hread, hstrands⟩ := h
    · omega
    · obtain ⟨hnodup, hshown⟩ := packed_spec hs hread
      obtain ⟨-, hbad⟩ | ⟨⟨items, hrun, hless, hfits⟩, -⟩ := selectEpisodic_raises hs hcap hread
      · exact absurd hbad hstrands
      · refine ⟨items, hrun, hfits, hless.nodup hnodup, ?_⟩
        intro id hid a ha
        exact (hshown id (List.Subperm.subset hless hid)).not_open hs htips ha

/-- An hour of two moments: the later one holds a tool atom alone, the earlier one holds a tool atom
and two lines; a day of horizon, and seven tenths of the cap for the summaries. -/
def twoMoments : JsonlMemoryStore :=
  let row (id moment kind clock text : String) : String × Atom :=
    (id, { atomId := id, tStart := "2026-01-01T" ++ clock ++ ":00Z", kind := kind,
           contentText := text, momentId := some moment })
  ⟨defaultMemorySettings, .ofList [row "a1" "m1" "tool" "10:00" "abc",
    row "a2" "m1" "speak" "10:01" "hi", row "a3" "m1" "speak" "10:02" "yo",
    row "b1" "m2" "tool" "11:00" "abc"], .empty, ⟨[], .empty⟩⟩

def dayOfHorizon : EpisodicSettings :=
  { horizon := .ok 86400000000, summaryShare := fun cap => .ok (cap * 7 / 10) }

/-- 2026-01-01T12:00:00Z. -/
def noonInstant : Instant := ⟨63902865600000000, by decide⟩

theorem keyed_twoMoments : Keyed twoMoments := by
  have hrows : ∀ e ∈ twoMoments.byId.items, e.2.atomId = e.1 := by
    decide +kernel
  intro id a ha
  exact hrows (id, a) ((Dict.get?_eq_some_iff _ id a).mp ha)

theorem selectEpisodic_well_sample :
    (SelectsWell twoMoments noonInstant none 35 dayOfHorizon →
        35 = 0 ∨ Shrinkable twoMoments noonInstant none 35 dayOfHorizon) ∧
      (NoOpenTip twoMoments none →
        (SelectsWell twoMoments noonInstant none 35 dayOfHorizon ↔
          35 = 0 ∨ Shrinkable twoMoments noonInstant none 35 dayOfHorizon)) :=
  selectEpisodic_well keyed_twoMoments

/-- One token less: the tool atom of the later moment leaves an empty block. -/
theorem emptied_block_raises : ¬SelectsWell twoMoments noonInstant none 34 dayOfHorizon := by
  rintro ⟨items, hrun, -⟩
  have hraises : (selectEpisodic twoMoments noonInstant none (34 : Nat) dayOfHorizon).isOk =
      false := by
    decide +kernel
  rw [hrun] at hraises
  cases hraises

end Elyra.Memory
