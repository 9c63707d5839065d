import Elyra.Memory.FailingPuts
import Elyra.Memory.ParcelRoundTrip

namespace Elyra.Memory

open JsonlMemoryStore Fallible

/-- Rows doubly linked in their order. -/
abbrev InChain (kids : List Atom) : Prop :=
  Linked Atom.atomId Atom.prevAtomId Atom.nextAtomId none kids

/-- The parcels a store holds for an atom. -/
def parcelsOf (s : JsonlMemoryStore) (parentId : String) : List Atom :=
  (rows s).filter fun a => a.kind = "parcel" ∧ a.parentAtomId = some parentId

/-- The metadata of a parent tells which parcels are stored. -/
structure Describes (parent : Atom) (kids : List Atom) : Prop where
  count : parent.metadata.get? "parcel_count" =
    if kids = [] then none else some (.int kids.length)
  flag : parent.metadata.get? "has_parcels" = if kids = [] then none else some (.bool true)
  first : parent.metadata.get? "first_parcel_id" = kids.head?.map fun k => .str k.atomId
  cut : kids = [] → parent.metadata.get? "truncated" = some (.bool true)

/-- The stored parcels are linked in the order of their indexes, the parent stands behind the tail
of the chain, and its metadata tells of the parcels. -/
structure ConsistentFamily (t : JsonlMemoryStore) (parentId : String) (tail : Option String)
    (parent : Atom) (kids : List Atom) : Prop where
  stored : kids.Perm (parcelsOf t parentId)
  indexed : ∀ i (h : i < kids.length), kids[i].metadata.get? "parcel_index" = some (.int i)
  linked : InChain kids
  held : t.getAtom parentId = some parent
  place : parent.prevAtomId = tail ∧ parent.nextAtomId = none
  tail : ∀ id ∈ tail, ∃ a, t.getAtom id = some a ∧ a.nextAtomId = some parentId
  describes : Describes parent kids

section Chain

/-- The snapshots the loop keeps of the parcels it stored, against their rows. -/
structure Chained (snaps kids : List Atom) : Prop where
  rows : List.Forall₂ (fun a k => k = { a with nextAtomId := k.nextAtomId }) snaps kids
  opens : ∀ a ∈ snaps, a.nextAtomId = none
  linked : InChain kids

def lastId (kids : List Atom) : Option String := kids.getLast?.map Atom.atomId

theorem Chained.ids {snaps kids : List Atom} (h : Chained snaps kids) :
    kids.map Atom.atomId = snaps.map Atom.atomId := by
  have hrows := h.rows
  clear h
  induction hrows with
  | nil => rfl
  | cons hself _ ih =>
    rw [List.map_cons, List.map_cons, ih, hself]

theorem Chained.nil : Chained [] [] := ⟨.nil, by simp, trivial⟩

theorem forall₂_linkRow {snaps kids : List Atom} (q n : String)
    (h : List.Forall₂ (fun a k => k = { a with nextAtomId := k.nextAtomId }) snaps kids) :
    List.Forall₂ (fun a k => k = { a with nextAtomId := k.nextAtomId }) snaps
      (kids.map (linkRow q n)) := by
  induction h with
  | nil => exact .nil
  | @cons a k snaps kids hself _ ih =>
    refine .cons ?_ ih
    unfold linkRow
    split_ifs
    · rw [hself]
    · exact hself

/-- A parcel behind the last one, whose row now names it; the snapshots stay as they were. -/
theorem Chained.snoc {snaps kids : List Atom} {p : Atom} (h : Chained snaps kids)
    (hnodup : (kids.map Atom.atomId).Nodup) (hprev : p.prevAtomId = lastId kids)
    (hnext : p.nextAtomId = none) :
    Chained (snaps ++ [p]) (joinRow (lastId kids) p kids) := by
  have hself : p = { p with nextAtomId := p.nextAtomId } := rfl
  refine ⟨?_, ?_, ?_⟩
  · cases hlast : lastId kids with
    | none => exact List.rel_append h.rows (.cons hself .nil)
    | some q => exact List.rel_append (forall₂_linkRow q p.atomId h.rows) (.cons hself .nil)
  · intro a ha
    rcases List.mem_append.mp ha with hold | hnew
    · exact h.opens a hold
    · rw [List.mem_singleton.mp hnew]
      exact hnext
  · rcases List.eq_nil_or_concat kids with rfl | ⟨l, a, rfl⟩
    · exact ⟨hprev, hnext⟩
    · have hlast : lastId (l.concat a) = some a.atomId := by simp [lastId]
      rw [hlast] at hprev ⊢
      rw [List.concat_eq_append, List.map_append, List.nodup_append] at hnodup
      have hfront : l.map (linkRow a.atomId p.atomId) = l := by
        apply map_linkRow_other
        intro b hb
        exact hnodup.2.2 b.atomId (List.mem_map_of_mem hb) a.atomId (by simp)
      have hchain : InChain (l ++ [a]) := by
        rw [← List.concat_eq_append]
        exact h.linked
      have hmap : (l.concat a).map (linkRow a.atomId p.atomId) ++ [p] =
          l ++ [linkRow a.atomId p.atomId a, p] := by
        rw [List.concat_eq_append, List.map_append, hfront]
        simp
      show InChain ((l.concat a).map (linkRow a.atomId p.atomId) ++ [p])
      rw [hmap]
      apply hchain.snoc (linkRow_atomId _ _ _) _ _ hprev hnext
      · unfold linkRow
        split_ifs <;> rfl
      · unfold linkRow
        rw [if_pos rfl]

theorem lastId_joinRow (prevId : Option String) (p : Atom) (l : List Atom) :
    lastId (joinRow prevId p l) = some p.atomId := by
  cases prevId <;> simp [lastId, joinRow]

theorem ids_joinRow (prevId : Option String) (p : Atom) (l : List Atom) :
    (joinRow prevId p l).map Atom.atomId = l.map Atom.atomId ++ [p.atomId] := by
  cases prevId with
  | none => simp [joinRow]
  | some q => rw [joinRow, List.map_append, ids_linkRow, List.map_singleton]

end Chain

/-- The same parcel of the same parent. -/
structure SameParcel (a k : Atom) : Prop where
  atomId : k.atomId = a.atomId
  kind : k.kind = a.kind
  parentAtomId : k.parentAtomId = a.parentAtomId
  index : k.metadata.get? "parcel_index" = a.metadata.get? "parcel_index"

section Runs

variable [PyCoerce] (settings : PromoteSettings) (failing : String → Bool)

/-- The snapshot of a parcel that was put. -/
structure ParcelRow (c p : Atom) : Prop where
  atomId : p.atomId = c.atomId
  kind : p.kind = c.kind
  parentAtomId : p.parentAtomId = c.parentAtomId
  metadata : ∀ k, k ≠ "truncated" → p.metadata.get? k = c.metadata.get? k
  again : Puttable p

/-- A parcel that is put behind the others. -/
theorem exec_linkChild {base kids : List Atom} {p : Atom} {t : JsonlMemoryStore} (ht : Keyed t)
    (hrows : rows t = base ++ (kids ++ [p])) :
    ∃ u, exec (performFailing failing) (linkChild (lastId kids) p.atomId) t = (.ok (), u) ∧
      Keyed u ∧ rows u = base ++ joinRow (lastId kids) p kids := by
  rw [exec_spared (spares_linkChild _ _)]
  cases hlast : lastId kids with
  | none => exact ⟨t, rfl, ht, hrows⟩
  | some q =>
    obtain ⟨u, hrun, hurows, hukeyed⟩ := exec_linkNext q p.atomId ht
    refine ⟨u, hrun, hukeyed, ?_⟩
    obtain ⟨a, ha, rfl⟩ := Option.map_eq_some_iff.mp hlast
    have hmem : a ∈ kids := List.mem_of_getLast? ha
    have hids := ht.ids_nodup
    rw [hrows, List.map_append, List.map_append, List.nodup_append, List.nodup_append] at hids
    obtain ⟨-, ⟨-, -, hlastId⟩, hbase⟩ := hids
    have hother : ∀ b ∈ base, b.atomId ≠ a.atomId := by
      intro b hb
      apply hbase b.atomId (List.mem_map_of_mem hb)
      exact List.mem_append_left _ (List.mem_map_of_mem hmem)
    have hself : p.atomId ≠ a.atomId :=
      (hlastId a.atomId (List.mem_map_of_mem hmem) p.atomId (by simp)).symm
    rw [hurows, hrows, List.map_append, map_linkRow_other hother, List.map_append,
      List.map_singleton, linkRow_other hself]
    rfl

/-- The parcels before the first failing put are stored, linked in order. -/
theorem exec_children (children snaps kids base : List Atom) {s : JsonlMemoryStore} (hs : Keyed s)
    (hrows : rows s = base ++ kids) (hchained : Chained snaps kids)
    (hchildren : ∀ c ∈ children, Puttable c ∧ c.prevAtomId = none ∧ c.nextAtomId = none)
    (hfresh : ∀ c ∈ children, ∀ a ∈ rows s, a.atomId ≠ c.atomId)
    (hnodup : (children.map Atom.atomId).Nodup) :
    ∃ stored t kids', exec (performFailing failing)
        (putParcelChildren settings children snaps (lastId kids)) s = (.ok (snaps ++ stored), t) ∧
      rows t = base ++ kids' ∧ Keyed t ∧ Chained (snaps ++ stored) kids' ∧
      List.Forall₂ ParcelRow (children.takeWhile fun c => !failing c.atomId) stored := by
  induction children generalizing snaps kids s with
  | nil =>
    refine ⟨[], s, kids, ?_, hrows, hs, ?_, .nil⟩
    · rw [List.append_nil]
      rfl
    · rw [List.append_nil]
      exact hchained
  | cons child children ih =>
    rw [List.map_cons, List.nodup_cons] at hnodup
    obtain ⟨hput, hprev, hnext⟩ := hchildren child List.mem_cons_self
    obtain ⟨a, ha⟩ : ∃ a, chained (lastId kids) (withPromoteStatus settings child) = a := ⟨_, rfl⟩
    obtain ⟨hready, hid, hkind, hparent, hmeta, haprev, hanext⟩ :
        Puttable a ∧ a.atomId = child.atomId ∧ a.kind = child.kind ∧
          a.parentAtomId = child.parentAtomId ∧ a.metadata = child.metadata ∧
          a.prevAtomId = lastId kids ∧ a.nextAtomId = none := by
      rw [← ha]
      cases lastId kids with
      | none => exact ⟨hput.promoteStatus settings, rfl, rfl, rfl, rfl, hprev, hnext⟩
      | some q =>
        exact ⟨(hput.promoteStatus settings).relink (some q) none, rfl, rfl, rfl, rfl, rfl, rfl⟩
    cases hfails : failing child.atomId with
    | true =>
      obtain ⟨t, hrun, hsame⟩ := exec_tryPutAtom_failing (hid ▸ hfails) s
      refine ⟨[], t, kids, ?_, ?_, ?_, ?_, ?_⟩
      · rw [putParcelChildren, ha, exec_bind_ok hrun, List.append_nil]
        rfl
      · rw [rows, hsame]
        exact hrows
      · intro id b hb
        rw [hsame] at hb
        exact hs id b hb
      · rw [List.append_nil]
        exact hchained
      · rw [List.takeWhile_cons_of_neg (by simp [hfails])]
        exact .nil
    | false =>
      obtain ⟨p, t, hrun, hkept, hset, htkeyed⟩ :=
        exec_tryPutAtom_spared (hid ▸ hfails) hready hs
      have hpid : p.atomId = child.atomId := hkept.atomId.trans hid
      have hnone : s.byId.get? p.atomId = none := by
        rw [hpid]
        exact hs.none_of_fresh (hfresh child List.mem_cons_self)
      have htrows : rows t = base ++ (kids ++ [p]) := by
        rw [rows_set_fresh hnone hset, hrows, List.append_assoc]
      obtain ⟨u, hlink, hukeyed, hurows⟩ := exec_linkChild failing htkeyed htrows
      have hkidsNodup : (kids.map Atom.atomId).Nodup := by
        have hids := hs.ids_nodup
        rw [hrows, List.map_append, List.nodup_append] at hids
        exact hids.2.1
      have hnext := hchained.snoc hkidsNodup (hkept.prev.trans haprev) (hkept.next.trans hanext)
      have hrest : ∀ c ∈ children, ∀ b ∈ rows u, b.atomId ≠ c.atomId := by
        intro c hc b hb heq
        have hmem : b.atomId ∈ (rows s).map Atom.atomId ++ [p.atomId] := by
          rw [hrows, List.map_append, List.append_assoc, ← ids_joinRow (lastId kids) p kids,
            ← List.map_append, ← hurows]
          exact List.mem_map_of_mem hb
        rcases List.mem_append.mp hmem with hold | hlast
        · obtain ⟨d, hd, hdid⟩ := List.mem_map.mp hold
          exact hfresh c (List.mem_cons_of_mem _ hc) d hd (hdid.trans heq)
        · apply hnodup.1
          rw [← hpid, ← List.mem_singleton.mp hlast, heq]
          exact List.mem_map_of_mem hc
      obtain ⟨stored, v, kids', hvrun, hvrows, hvkeyed, hvchained, hall⟩ := ih (snaps ++ [p])
        (joinRow (lastId kids) p kids) hukeyed hurows hnext
        (fun c hc => hchildren c (List.mem_cons_of_mem _ hc)) hrest hnodup.2
      refine ⟨p :: stored, v, kids', ?_, hvrows, hvkeyed, ?_, ?_⟩
      · rw [putParcelChildren, ha, exec_bind_ok hrun]
        simp only
        rw [exec_bind_ok hlink]
        rw [lastId_joinRow] at hvrun
        rw [hvrun, List.append_assoc]
        rfl
      · rw [List.append_cons]
        exact hvchained
      · rw [List.takeWhile_cons_of_pos (by simp [hfails])]
        refine .cons ⟨hpid, hkept.kind.trans hkind, hkept.parentAtomId.trans hparent, ?_,
          hkept.again⟩ hall
        intro k hk
        rw [hkept.metadata k hk, hmeta]

/-- The row of a parcel that was written again from its snapshot. -/
structure Rewritten (a k : Atom) : Prop extends SameParcel a k where
  prev : k.prevAtomId = a.prevAtomId
  next : k.nextAtomId = a.nextAtomId

/-- Every stored parcel is written again as it was at its put, its later link lost. -/
theorem exec_reconcileChildren (planned actual : Nat) (snaps kids base : List Atom)
    {s : JsonlMemoryStore} (hs : Keyed s) (hrows : rows s = base ++ kids)
    (hids : kids.map Atom.atomId = snaps.map Atom.atomId) (hput : ∀ a ∈ snaps, Puttable a)
    (hgo : ∀ a ∈ snaps, failing a.atomId = false)
    (hplain : ∀ a ∈ snaps, a.metadata.get? "parcel_incomplete" = none) :
    ∃ t kids', exec (performFailing failing) (reconcileChildren planned actual snaps) s =
        (.ok (), t) ∧ rows t = base ++ kids' ∧ Keyed t ∧ List.Forall₂ Rewritten snaps kids' := by
  induction snaps generalizing base kids s with
  | nil =>
    obtain rfl : kids = [] := List.map_eq_nil_iff.mp hids
    exact ⟨s, [], rfl, hrows, hs, .nil⟩
  | cons a snaps ih =>
    cases kids with
    | nil => cases hids
    | cons k kids =>
      rw [List.map_cons, List.map_cons, List.cons.injEq] at hids
      have hnone := hplain a List.mem_cons_self
      have hready := hput a List.mem_cons_self
      obtain ⟨metadata, hwrite, hindex⟩ : ∃ metadata,
          reconciledChild planned actual a = some { a with metadata := metadata } ∧
            metadata.get? "parcel_index" = a.metadata.get? "parcel_index" := by
        unfold reconciledChild
        rw [hnone, if_neg (by simp)]
        refine ⟨_, rfl, ?_⟩
        rw [Dict.get?_set_ne _ _ (by decide), Dict.get?_set_ne _ _ (by decide),
          Dict.get?_set_ne _ _ (by decide)]
      obtain ⟨p, t, hrun, hkept, hset, htkeyed⟩ := exec_tryPutAtom_spared
        (a := { a with metadata := metadata }) (hgo a List.mem_cons_self)
        (hready.withMetadata metadata) hs
      have hpid : p.atomId = k.atomId := hkept.atomId.trans hids.1.symm
      have htrows : rows t = (base ++ [p]) ++ kids := by
        rw [rows_set_at hs hrows hpid hset]
        simp
      obtain ⟨u, kids', hurun, hurows, hukeyed, hall⟩ := ih kids (base ++ [p]) htkeyed htrows
        hids.2 (fun b hb => hput b (List.mem_cons_of_mem _ hb))
        (fun b hb => hgo b (List.mem_cons_of_mem _ hb))
        (fun b hb => hplain b (List.mem_cons_of_mem _ hb))
      refine ⟨u, p :: kids', ?_, ?_, hukeyed, .cons ?_ hall⟩
      · have hfirst : exec (performFailing failing) (rewriteChild planned actual a) s =
            (.ok (), t) := by
          unfold rewriteChild
          rw [hwrite]
          simp only
          rw [exec_bind_ok hrun]
          rfl
        rw [reconcileChildren, exec_bind_ok hfirst]
        exact hurun
      · rw [hurows]
        simp
      · exact ⟨⟨hkept.atomId, hkept.kind, hkept.parentAtomId,
          (hkept.metadata _ (by decide)).trans hindex⟩, hkept.prev, hkept.next⟩

end Runs

section Family

variable (settings : PromoteSettings) (d : Draft)

/-- How many parcels a body is cut into behind its parent. -/
def plannedParcels : Nat :=
  (splitOversizedText d.rawText.toList (parcelThreshold settings)).length - 1

/-- How many parcels are put before the first put that fails. -/
def putParcels (failing : String → Bool) (newAtomId : Nat → String) (planned : Nat) : Nat :=
  ((List.range planned).takeWhile fun i => !failing (newAtomId (i + 1))).length

variable {settings d}

/-- A body above the threshold does not fit into one chunk. -/
theorem plannedParcels_pos (h : shouldSplitIntoParcels d.rawText settings = true) :
    0 < plannedParcels settings d := by
  have hlong : parcelThreshold settings < d.rawText.toList.length := by
    unfold shouldSplitIntoParcels at h
    rw [Bool.and_eq_true, decide_eq_true_iff] at h
    rw [String.length_toList]
    exact h.2
  have hparts := splitOversizedText_partitions d.rawText.toList _ (parcelThreshold_pos settings)
  have hpos := parcelThreshold_pos settings
  unfold plannedParcels
  generalize splitOversizedText d.rawText.toList (parcelThreshold settings) = chunks at *
  have hwhole := hparts.whole
  rcases chunks with - | ⟨first, - | ⟨second, others⟩⟩
  · rw [← hwhole] at hlong
    simp at hlong
    omega
  · have hfits := hparts.fits first List.mem_cons_self
    rw [← hwhole] at hlong
    simp at hlong
    omega
  · simp

variable (newAtomId : Nat → String)

/-- The parent of a split body counts its parcels, and the parcels come in order. -/
theorem family_shape (h : 0 < plannedParcels settings d) :
    let family := makeParentAndParcels d (parcelThreshold settings) newAtomId
    (family.1.metadata.get? "parcel_count" = some (.int (plannedParcels settings d)) ∧
      family.1.metadata.get? "has_parcels" = some (.bool true) ∧
      family.1.metadata.get? "first_parcel_id" = some (.str (newAtomId 1))) ∧
    family.2.length = plannedParcels settings d ∧
    ∀ i (hi : i < family.2.length), ∃ chunk,
      family.2[i] = d.parcel (newAtomId 0) (newAtomId (i + 1)) i (plannedParcels settings d)
        chunk := by
  unfold makeParentAndParcels
  unfold plannedParcels at h ⊢
  generalize splitOversizedText d.rawText.toList (parcelThreshold settings) = chunks at h ⊢
  simp only
  split_ifs with hzero
  · omega
  refine ⟨⟨?_, ?_, ?_⟩, ?_, ?_⟩
  · show (Dict.set _ _ _).get? _ = _
    rw [Dict.get?_set_ne _ _ (by decide), Dict.get?_pop, if_neg (by decide),
      Dict.get?_set_ne _ _ (by decide), Dict.get?_set_self]
  · show (Dict.set _ _ _).get? _ = _
    rw [Dict.get?_set_ne _ _ (by decide), Dict.get?_pop, if_neg (by decide), Dict.get?_set_self]
  · exact Dict.get?_set_self _ _ _
  · rw [List.length_mapIdx, List.length_tail]
  · intro i hi
    rw [List.getElem_mapIdx]
    exact ⟨_, rfl⟩

end Family

section Metadata

theorem head_ids {kids snaps : List Atom} (h : kids.map Atom.atomId = snaps.map Atom.atomId) :
    kids.head?.map (fun k => Json.str k.atomId) = snaps.head?.map fun k => Json.str k.atomId := by
  cases kids with
  | nil =>
    obtain rfl : snaps = [] := List.map_eq_nil_iff.mp h.symm
    rfl
  | cons k kids =>
    cases snaps with
    | nil => cases h
    | cons a snaps =>
      rw [List.map_cons, List.map_cons, List.cons.injEq] at h
      exact congrArg (fun id => some (Json.str id)) h.1

/-- The rewritten metadata of a parent tells of the parcels that were stored. -/
theorem describes_reconciled {p q : Atom} {planned : Nat} {snaps kids : List Atom}
    (h : Kept (reconciledParent p planned snaps) q)
    (hids : kids.map Atom.atomId = snaps.map Atom.atomId) : Describes q kids := by
  have hlen : kids.length = snaps.length := by
    have hlength := congrArg List.length hids
    rw [List.length_map, List.length_map] at hlength
    exact hlength
  have hmeta := h.metadata
  have hcut := h.truncated
  have hhead := head_ids hids
  cases snaps with
  | nil =>
    obtain rfl : kids = [] := List.eq_nil_of_length_eq_zero hlen
    refine ⟨?_, ?_, ?_, fun _ => hcut ?_⟩
    · rw [hmeta _ (by decide)]
      simp [reconciledParent, Dict.get?_set, Dict.get?_pop]
    · rw [hmeta _ (by decide)]
      simp [reconciledParent, Dict.get?_set, Dict.get?_pop]
    · rw [hmeta _ (by decide)]
      simp [reconciledParent, Dict.get?_set, Dict.get?_pop]
    · exact Dict.get?_set_self _ _ _
  | cons first snaps =>
    have hne : kids ≠ [] := by
      intro hnil
      rw [hnil] at hlen
      cases hlen
    refine ⟨?_, ?_, ?_, fun hnil => absurd hnil hne⟩
    · rw [hmeta _ (by decide), if_neg hne, hlen]
      simp [reconciledParent, Dict.get?_set]
    · rw [hmeta _ (by decide), if_neg hne]
      simp [reconciledParent, Dict.get?_set]
    · rw [hmeta _ (by decide), hhead]
      simp [reconciledParent]

end Metadata
end Elyra.Memory
