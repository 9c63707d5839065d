import Elyra.Memory.ParcelFamily

namespace Elyra.Memory

open JsonlMemoryStore Fallible

/-- The rows before a new one, the one it is linked to naming it. -/
def namedRows (prevId : Option String) (nextId : String) (l : List Atom) : List Atom :=
  match prevId with
  | none => l
  | some id => l.map (linkRow id nextId)

theorem joinRow_named (prevId : Option String) (p : Atom) (l : List Atom) :
    joinRow prevId p l = namedRows prevId p.atomId l ++ [p] := by
  cases prevId <;> rfl

/-- What a promotion leaves: the parent behind the rows before, then its parcels, linked when every
put went through and without a next link otherwise. -/
structure Settled (d : Draft) (parentId : String) (tail : Option String) (front : List Atom)
    (planned : Nat) (t : JsonlMemoryStore) (parent : Atom) (kids : List Atom) : Prop where
  keyed : Keyed t
  rows : rows t = front ++ parent :: kids
  atomId : parent.atomId = parentId
  kind : parent.kind = d.kind
  prev : parent.prevAtomId = tail
  next : parent.nextAtomId = none
  describes : Describes parent kids
  each : ∀ i (h : i < kids.length), kids[i].kind = "parcel" ∧
    kids[i].parentAtomId = some parentId ∧
    kids[i].metadata.get? "parcel_index" = some (.int i)
  whole : kids.length = planned → InChain kids
  broken : kids.length ≠ planned → (∀ k ∈ kids, k.nextAtomId = none) ∧
    ∀ k ∈ kids.head?, k.prevAtomId = none

section Outcome

variable {d : Draft} {parentId : String} {tail : Option String} {before : List Atom}
variable {planned : Nat} {t : JsonlMemoryStore} {parent : Atom} {kids : List Atom}

/-- The parcels of the parent are those the call stored. -/
theorem Settled.parcelsOf (h : Settled d parentId tail (namedRows tail parentId before) planned t
    parent kids) (hchain : d.kind ∉ chainExcludeKinds)
    (hunnamed : ∀ a ∈ before, a.parentAtomId ≠ some parentId) : parcelsOf t parentId = kids := by
  have hfront : ∀ a ∈ namedRows tail parentId before, a.parentAtomId ≠ some parentId := by
    intro a ha
    cases tail with
    | none => exact hunnamed a ha
    | some id =>
      obtain ⟨b, hb, rfl⟩ := List.mem_map.mp ha
      unfold linkRow
      split_ifs
      · exact hunnamed b hb
      · exact hunnamed b hb
  have hparent : parent.kind ≠ "parcel" := by
    rw [h.kind]
    rintro heq
    apply hchain
    rw [heq]
    decide
  have hnone : (namedRows tail parentId before).filter
      (fun a => a.kind = "parcel" ∧ a.parentAtomId = some parentId) = [] := by
    rw [List.filter_eq_nil_iff]
    intro a ha
    rw [decide_eq_true_iff]
    exact fun hboth => hfront a ha hboth.2
  have hall : kids.filter (fun a => a.kind = "parcel" ∧ a.parentAtomId = some parentId) =
      kids := by
    rw [List.filter_eq_self]
    intro a ha
    obtain ⟨i, hi, rfl⟩ := List.mem_iff_getElem.mp ha
    rw [decide_eq_true_iff]
    exact ⟨(h.each i hi).1, (h.each i hi).2.1⟩
  unfold Memory.parcelsOf
  rw [h.rows, List.filter_append, hnone, List.filter_cons_of_neg (by simp [hparent]), hall,
    List.nil_append]

/-- With all of the parcels, or one at most, the family is consistent. -/
theorem Settled.consistent (h : Settled d parentId tail (namedRows tail parentId before) planned t
    parent kids) (hchain : d.kind ∉ chainExcludeKinds)
    (hunnamed : ∀ a ∈ before, a.parentAtomId ≠ some parentId)
    (htail : ∀ id ∈ tail, ∃ a ∈ before, a.atomId = id)
    (hfew : kids.length = planned ∨ kids.length ≤ 1) :
    ConsistentFamily t parentId tail parent kids := by
  have hheld : t.getAtom parentId = some parent := by
    rw [← h.atomId]
    apply (h.keyed.mem_rows parent).mp
    rw [h.rows]
    simp
  have hlinked : InChain kids := by
    by_cases hall : kids.length = planned
    · exact h.whole hall
    · obtain ⟨hopen, hhead⟩ := h.broken hall
      have hone : kids.length ≤ 1 := by omega
      rcases kids with - | ⟨k, - | ⟨l, kids⟩⟩
      · trivial
      · exact ⟨hhead k rfl, hopen k List.mem_cons_self⟩
      · simp at hone
  refine ⟨?_, fun i hi => (h.each i hi).2.2, hlinked, hheld, ⟨h.prev, h.next⟩, ?_, h.describes⟩
  · rw [h.parcelsOf hchain hunnamed]
  · rintro id hid
    obtain rfl : tail = some id := hid
    obtain ⟨a, ha, rfl⟩ := htail id rfl
    refine ⟨linkRow a.atomId parentId a, ?_, ?_⟩
    · have hmem : linkRow a.atomId parentId a ∈ Memory.rows t := by
        rw [h.rows]
        exact List.mem_append_left _ (List.mem_map_of_mem ha)
      have hget := (h.keyed.mem_rows _).mp hmem
      rw [linkRow_atomId] at hget
      exact hget
    · unfold linkRow
      rw [if_pos rfl]

/-- Some parcels, but not all: the first of them names no next one. -/
theorem Settled.inconsistent (h : Settled d parentId tail (namedRows tail parentId before) planned
    t parent kids) (hchain : d.kind ∉ chainExcludeKinds)
    (hunnamed : ∀ a ∈ before, a.parentAtomId ≠ some parentId) (hmissing : kids.length ≠ planned)
    (hmany : 2 ≤ kids.length) (p : Atom) (l : List Atom) :
    ¬ConsistentFamily t parentId tail p l := by
  intro hconsistent
  have hperm : l.Perm kids := by
    rw [← h.parcelsOf hchain hunnamed]
    exact hconsistent.stored
  rcases l with - | ⟨a, - | ⟨b, l⟩⟩
  · rw [← hperm.length_eq] at hmany
    simp at hmany
  · rw [← hperm.length_eq] at hmany
    simp at hmany
  · have hnext : a.nextAtomId = some b.atomId := hconsistent.linked.2.1
    rw [(h.broken hmissing).1 a (hperm.mem_iff.mp List.mem_cons_self)] at hnext
    cases hnext

end Outcome

section Same

theorem SameParcel.trans {a b c : Atom} (h : SameParcel a b) (k : SameParcel b c) :
    SameParcel a c :=
  ⟨k.atomId.trans h.atomId, k.kind.trans h.kind, k.parentAtomId.trans h.parentAtomId,
    k.index.trans h.index⟩

theorem same_trans {l m n : List Atom} (h : List.Forall₂ SameParcel l m)
    (k : List.Forall₂ SameParcel m n) : List.Forall₂ SameParcel l n := by
  induction h generalizing n with
  | nil => exact k
  | cons hab _ ih =>
    cases k with
    | cons hbc hrest => exact .cons (hab.trans hbc) (ih hrest)

theorem same_ids {l m : List Atom} (h : List.Forall₂ SameParcel l m) :
    m.map Atom.atomId = l.map Atom.atomId := by
  induction h with
  | nil => rfl
  | cons hab _ ih => rw [List.map_cons, List.map_cons, hab.atomId, ih]

theorem Chained.same {snaps kids : List Atom} (h : Chained snaps kids) :
    List.Forall₂ SameParcel snaps kids := by
  apply h.rows.imp
  intro a k hself
  rw [hself]
  exact ⟨rfl, rfl, rfl, rfl⟩

variable {d : Draft} {n : Nat} {newAtomId : Nat → String} {planned kids : List Atom}

/-- The parcels that are there are the first of those planned. -/
theorem each_of_same (h : List.Forall₂ SameParcel planned kids)
    (hplanned : ∀ i (hi : i < planned.length), ∃ chunk,
      planned[i] = d.parcel (newAtomId 0) (newAtomId (i + 1)) i n chunk)
    (i : Nat) (hi : i < kids.length) : kids[i].kind = "parcel" ∧
      kids[i].parentAtomId = some (newAtomId 0) ∧
      kids[i].metadata.get? "parcel_index" = some (.int i) := by
  have hlt : i < planned.length := by
    rw [h.length_eq]
    exact hi
  have hsame := h.get hlt hi
  obtain ⟨chunk, hchunk⟩ := hplanned i hlt
  rw [List.get_eq_getElem, List.get_eq_getElem, hchunk] at hsame
  exact ⟨hsame.kind, hsame.parentAtomId, hsame.index.trans (parcel_metadata d _ _ _ _ _)⟩

theorem first_of_same (h : List.Forall₂ SameParcel planned kids)
    (hplanned : ∀ i (hi : i < planned.length), ∃ chunk,
      planned[i] = d.parcel (newAtomId 0) (newAtomId (i + 1)) i n chunk) (hne : kids ≠ []) :
    kids.head?.map (fun k => Json.str k.atomId) = some (.str (newAtomId 1)) := by
  cases h with
  | nil => exact absurd rfl hne
  | cons hab _ =>
    obtain ⟨chunk, hchunk⟩ := hplanned 0 (by simp)
    rw [List.getElem_cons_zero] at hchunk
    rw [List.head?_cons, Option.map_some, hab.atomId, hchunk]
    rfl

/-- The stored parcels can all be put again, and none is marked incomplete yet. -/
theorem stored_ready {failing : String → Bool} {children snaps : List Atom}
    (h : List.Forall₂ ParcelRow (children.takeWhile fun c => !failing c.atomId) snaps)
    (hchildren : ∀ i (hi : i < children.length), ∃ chunk,
      children[i] = d.parcel (newAtomId 0) (newAtomId (i + 1)) i n chunk) (a : Atom)
    (ha : a ∈ snaps) : Puttable a ∧ failing a.atomId = false ∧
      a.metadata.get? "parcel_incomplete" = none := by
  obtain ⟨i, hi, rfl⟩ := List.mem_iff_getElem.mp ha
  have hlt : i < (children.takeWhile fun c => !failing c.atomId).length := by
    rw [h.length_eq]
    exact hi
  have hrow := h.get hlt hi
  rw [List.get_eq_getElem, List.get_eq_getElem] at hrow
  have hgo := List.mem_takeWhile_imp (List.getElem_mem hlt)
  have hprefix := (List.takeWhile_prefix fun c : Atom => !failing c.atomId).getElem hlt
  obtain ⟨chunk, hchunk⟩ := hchildren i (lt_of_lt_of_le hlt (List.takeWhile_prefix _).length_le)
  refine ⟨hrow.again, ?_, ?_⟩
  · rw [hrow.atomId]
    simpa using hgo
  · rw [hrow.metadata _ (by decide), hprefix, hchunk]
    show (Dict.ofList _).get? "parcel_incomplete" = none
    rw [Dict.get?_ofList _ (by simp)]
    simp [Dict.findItem]

/-- As many parcels are stored as are put before the first failing put. -/
theorem stored_length {failing : String → Bool} {children snaps : List Atom}
    (h : List.Forall₂ ParcelRow (children.takeWhile fun c => !failing c.atomId) snaps)
    (hids : children.map Atom.atomId = (List.range n).map fun i => newAtomId (i + 1)) :
    snaps.length = putParcels failing newAtomId n := by
  have hmap := congrArg (fun l => (l.takeWhile fun id => !failing id).length) hids
  simp only [List.takeWhile_map, List.length_map] at hmap
  rw [← h.length_eq]
  exact hmap

end Same

section Runs

variable [PyCoerce] (settings : PromoteSettings) (out : Outside) {d : Draft}
variable (failing : String → Bool)

/-- The rewrite of a parent and of its parcels when some of them are missing. -/
theorem exec_reconcile {front snaps kids : List Atom} {parent : Atom} {planned : Nat}
    (hmissing : snaps.length ≠ planned) (hparent : Puttable parent)
    (hgo : failing parent.atomId = false) {s : JsonlMemoryStore} (hs : Keyed s)
    (hrows : rows s = front ++ parent :: kids) (hids : kids.map Atom.atomId = snaps.map Atom.atomId)
    (hput : ∀ a ∈ snaps, Puttable a) (hspared : ∀ a ∈ snaps, failing a.atomId = false)
    (hplain : ∀ a ∈ snaps, a.metadata.get? "parcel_incomplete" = none) :
    ∃ p t kids', exec (performFailing failing) (reconcileParentParcelMeta parent planned snaps) s =
        (.ok p, t) ∧ Kept (reconciledParent parent planned snaps) p ∧
      rows t = front ++ p :: kids' ∧ Keyed t ∧ List.Forall₂ Rewritten snaps kids' := by
  have hready : Puttable (reconciledParent parent planned snaps) := hparent.withMetadata _
  obtain ⟨p, u, hrun, hkept, hset, hukeyed⟩ := exec_tryPutAtom_spared
    (a := reconciledParent parent planned snaps) hgo hready hs
  have hurows : rows u = (front ++ [p]) ++ kids := by
    rw [rows_set_at hs hrows hkept.atomId hset]
    simp
  obtain ⟨t, kids', hrest, htrows, htkeyed, hall⟩ := exec_reconcileChildren failing planned
    snaps.length snaps kids (front ++ [p]) hukeyed hurows hids hput hspared hplain
  refine ⟨p, t, kids', ?_, hkept, ?_, htkeyed, hall⟩
  · unfold reconcileParentParcelMeta
    rw [if_neg hmissing, exec_bind_ok hrun]
    simp only
    rw [exec_bind_ok hrest]
    rfl
  · rw [htrows]
    simp

/-- The parent and the parcels before the first failing put are what is left. -/
theorem exec_settles (hd : Sound d) (hsplit : shouldSplitIntoParcels d.rawText settings = true)
    {s : JsonlMemoryStore} (hs : Keyed s) (hfresh : FreshIds out s)
    (hparent : failing (out.newAtomId 0) = false) :
    ∃ p t kids, exec (performFailing failing) (linkAndPutWithParcels settings out d) s =
        (.ok p, t) ∧
      kids.length = putParcels failing out.newAtomId (plannedParcels settings d) ∧
      Settled d (out.newAtomId 0) (tailIdOf s d.momentId settings.linkAcrossMoments)
        (namedRows (tailIdOf s d.momentId settings.linkAcrossMoments) (out.newAtomId 0) (rows s))
        (plannedParcels settings d) t p kids := by
  have hpos := plannedParcels_pos hsplit
  have hshape := family_shape out.newAtomId hpos
  have hmade := parcels_make d hd (parcelThreshold settings) out hfresh.nonempty hfresh.injective
  suffices hwith : ∃ p t kids, exec (performFailing failing) (putWithParcels settings out d) s =
        (.ok p, t) ∧
      kids.length = putParcels failing out.newAtomId (plannedParcels settings d) ∧
      Settled d (out.newAtomId 0) (tailIdOf s d.momentId settings.linkAcrossMoments)
        (namedRows (tailIdOf s d.momentId settings.linkAcrossMoments) (out.newAtomId 0) (rows s))
        (plannedParcels settings d) t p kids by
    obtain ⟨p, t, kids, hrun, hrest⟩ := hwith
    refine ⟨p, t, kids, ?_, hrest⟩
    unfold linkAndPutWithParcels
    rw [if_pos hsplit]
    exact exec_catch_ok hrun
  unfold putWithParcels
  generalize plannedParcels settings d = planned at hpos hshape ⊢
  generalize makeParentAndParcels d (parcelThreshold settings) out.newAtomId = made at hshape hmade
  obtain ⟨parent, children⟩ := made
  simp only at hshape hmade ⊢
  obtain ⟨⟨hcount, hflag, hfirst⟩, hlen, hchildren⟩ := hshape
  obtain ⟨body, metadata, rfl, -⟩ := hmade.parent
  have hready := hd.puttable (hfresh.nonempty 0) body metadata
  obtain ⟨p, t, hput, hrow, htrows, htkeyed⟩ := exec_linkAndPut settings d.momentId hready rfl rfl
    hs (hs.none_of_fresh (hfresh.unused 0))
  have hagain := linkAndPut_again settings d.momentId hready hs hput
  have hpid : p.atomId = out.newAtomId 0 := hrow.atomId
  have htids := congrArg (List.map Atom.atomId) htrows
  rw [ids_joinRow, hpid] at htids
  rw [joinRow_named, hpid] at htrows
  rw [exec_bind_ok ((exec_spared (spares_linkAndPut settings d.momentId hparent) s).trans hput)]
  have hne : children ≠ [] := by
    rintro rfl
    rw [← hlen] at hpos
    cases hpos
  rw [if_neg hne]
  have hids : children.map Atom.atomId =
      (List.range planned).map fun i => out.newAtomId (i + 1) := by
    apply List.ext_getElem (by simp [hlen])
    intro i hi hj
    rw [List.length_map] at hi
    obtain ⟨chunk, hchunk⟩ := hchildren i hi
    rw [List.getElem_map, hchunk, List.getElem_map, List.getElem_range]
    rfl
  have hkidsReady : ∀ c ∈ children, Puttable c ∧ c.prevAtomId = none ∧ c.nextAtomId = none := by
    intro c hc
    obtain ⟨i, hi, rfl⟩ := List.mem_iff_getElem.mp hc
    obtain ⟨chunk, hchunk⟩ := hchildren i hi
    refine ⟨(hmade.each _ hc).1.puttable, ?_, ?_⟩
    · rw [hchunk]
      rfl
    · rw [hchunk]
      rfl
  have hkidsFresh : ∀ c ∈ children, ∀ a ∈ rows t, a.atomId ≠ c.atomId := by
    intro c hc a ha heq
    obtain ⟨-, i, hi⟩ := hmade.each c hc
    have hmem : a.atomId ∈ (rows s).map Atom.atomId ++ [out.newAtomId 0] :=
      htids ▸ List.mem_map_of_mem ha
    rcases List.mem_append.mp hmem with hold | hlast
    · obtain ⟨b, hb, hbid⟩ := List.mem_map.mp hold
      exact hfresh.unused (i + 1) b hb (by rw [hbid, heq, hi])
    · have hzero : i + 1 = 0 := by
        apply hfresh.injective
        rw [← hi, ← heq, List.mem_singleton.mp hlast]
      omega
  obtain ⟨snaps, u, kids, hchildrenRun, hurows, hukeyed, hchained, hall⟩ :=
    exec_children settings failing children [] [] (rows t) htkeyed (by simp)
      Chained.nil hkidsReady hkidsFresh hmade.nodup
  have hrun : exec (performFailing failing) (putParcelChildren settings children [] none) t =
      (.ok snaps, u) := hchildrenRun
  rw [exec_bind_ok hrun]
  rw [List.nil_append] at hchained
  have hsnaps := stored_length hall hids
  have hplanned : ∀ i (hi : i < (children.takeWhile fun c => !failing c.atomId).length), ∃ chunk,
      (children.takeWhile fun c => !failing c.atomId)[i] =
        d.parcel (out.newAtomId 0) (out.newAtomId (i + 1)) i planned chunk := by
    intro i hi
    rw [(List.takeWhile_prefix fun c : Atom => !failing c.atomId).getElem hi]
    exact hchildren i _
  have hrows : List.Forall₂ SameParcel (children.takeWhile fun c => !failing c.atomId) snaps :=
    hall.imp fun c a h => ⟨h.atomId, h.kind, h.parentAtomId, h.metadata _ (by decide)⟩
  have hfront : rows u = namedRows (tailIdOf s d.momentId settings.linkAcrossMoments)
      (out.newAtomId 0) (rows s) ++ p :: kids := by
    rw [hurows, htrows, List.append_assoc]
    rfl
  by_cases hwhole : snaps.length = children.length
  · -- No put failed: nothing is written again.
    have hlength : kids.length = planned := by
      rw [← hchained.rows.length_eq, hwhole, hlen]
    have hkept : kids ≠ [] := by
      rintro rfl
      simp at hlength
      omega
    have hsame := same_trans hrows hchained.same
    refine ⟨p, u, kids, ?_, ?_, hukeyed, hfront, hpid, hrow.kind, hrow.prev, hrow.next, ?_,
      each_of_same hsame hplanned, fun _ => hchained.linked,
      fun hmissing => absurd hlength hmissing⟩
    · unfold reconcileParentParcelMeta
      rw [if_pos hwhole]
      rfl
    · rw [← hchained.rows.length_eq, hsnaps]
    · refine ⟨?_, ?_, ?_, fun hnil => absurd hnil hkept⟩
      · rw [hrow.metadata _ (by decide), if_neg hkept, hlength]
        exact hcount
      · rw [hrow.metadata _ (by decide), if_neg hkept]
        exact hflag
      · rw [hrow.metadata _ (by decide), first_of_same hsame hplanned hkept]
        exact hfirst
  · have hfacts := stored_ready hall hchildren
    obtain ⟨q, v, kids', hreconcile, hkept, hvrows, hvkeyed, hrewritten⟩ :=
      exec_reconcile failing hwhole hagain (hpid ▸ hparent) hukeyed hfront
        hchained.ids (fun a ha => (hfacts a ha).1) (fun a ha => (hfacts a ha).2.1)
        (fun a ha => (hfacts a ha).2.2)
    have hlength : kids'.length = snaps.length := hrewritten.length_eq.symm
    have hagainSame : List.Forall₂ SameParcel snaps kids' :=
      hrewritten.imp fun a k h => h.toSameParcel
    have hsame := same_trans hrows hagainSame
    refine ⟨q, v, kids', hreconcile, hlength.trans hsnaps, hvkeyed, hvrows,
      hkept.atomId.trans hpid, hkept.kind.trans hrow.kind, hkept.prev.trans hrow.prev,
      hkept.next.trans hrow.next, describes_reconciled hkept (same_ids hagainSame),
      each_of_same hsame hplanned, fun heq => ?_, fun _ => ⟨?_, ?_⟩⟩
    · rw [hlength, ← hlen] at heq
      exact absurd heq hwhole
    · intro k hk
      obtain ⟨i, hi, rfl⟩ := List.mem_iff_getElem.mp hk
      have hlt : i < snaps.length := hlength ▸ hi
      have hnext := (hrewritten.get hlt hi).next
      exact hnext.trans (hchained.opens _ (List.get_mem _ _))
    · intro k hk
      cases hrewritten with
      | nil => cases hk
      | cons hfirstRow _ =>
        obtain rfl := Option.some.inj hk
        have hlinked := hchained.linked
        cases hchained.rows with
        | cons hself _ =>
          have hhead := hlinked.head_prev
          rw [hself] at hhead
          exact hfirstRow.prev.trans hhead

/-- Whichever puts of the parcels fail, the family that is left is consistent exactly when every
parcel was stored, or one at most. -/
theorem family_consistent_iff (hd : Sound d)
    (hsplit : shouldSplitIntoParcels d.rawText settings = true) {s : JsonlMemoryStore}
    (hs : Keyed s) (hfresh : FreshIds out s)
    (hunnamed : ∀ a ∈ rows s, a.parentAtomId ≠ some (out.newAtomId 0))
    (hparent : failing (out.newAtomId 0) = false) :
    let tail := tailIdOf s d.momentId settings.linkAcrossMoments
    let planned := plannedParcels settings d
    let stored := putParcels failing out.newAtomId planned
    ∃ p t, exec (performFailing failing) (linkAndPutWithParcels settings out d) s = (.ok p, t) ∧
      ((∃ parent kids, ConsistentFamily t (out.newAtomId 0) tail parent kids) ↔
        stored = planned ∨ stored ≤ 1) := by
  intro tail planned stored
  obtain ⟨p, t, kids, hrun, hlen, hsettled⟩ :=
    exec_settles settings out failing hd hsplit hs hfresh hparent
  refine ⟨p, t, hrun, ?_, ?_⟩
  · rintro ⟨parent, l, hconsistent⟩
    by_contra hnot
    rw [not_or, not_le] at hnot
    obtain ⟨hmissing, hmany⟩ := hnot
    exact hsettled.inconsistent hd.chain hunnamed (hlen ▸ hmissing) (hlen ▸ hmany) parent l
      hconsistent
  · intro hfew
    refine ⟨p, kids, hsettled.consistent hd.chain hunnamed ?_ (hlen ▸ hfew)⟩
    intro id hid
    obtain ⟨a, ha, haid⟩ := tailIdOf_mem hid
    exact ⟨a, List.mem_of_mem_filter ha, haid⟩

end Runs

section Lines

attribute [local instance] basicCoerce

def vacant : JsonlMemoryStore := ⟨⟨0, 4⟩, .empty, .empty, ⟨[], .empty⟩⟩

/-- A text that is cut into a parent and three parcels. -/
def fourLines : Draft where
  kind := "observation"
  rawText := "ab\ncd\nef\ngh"
  tStart := isoZ firstInstant
  momentId := "m"
  sourceBeatType := "user"
  baseMeta := .empty

theorem fourLines_sound : Sound fourLines :=
  ⟨by decide, by decide, isoZ firstInstant, isoOr_isoZ firstInstant _, isoZ_ne_empty firstInstant⟩

theorem vacant_keyed : Keyed vacant := by
  intro _ _ h
  cases h

theorem vacant_fresh : FreshIds numbered vacant :=
  ⟨numbered_nonempty, fun _ _ ha => absurd ha List.not_mem_nil, numbered_injective⟩

/-- The third parcel fails: the first two are stored, and no longer linked. -/
theorem third_parcel_unlinks :
    ∃ p t, exec (performFailing fun id => id = numbered.newAtomId 3)
        (linkAndPutWithParcels uncapped numbered fourLines) vacant = (.ok p, t) ∧
      ¬∃ parent kids, ConsistentFamily t (numbered.newAtomId 0)
        (tailIdOf vacant fourLines.momentId uncapped.linkAcrossMoments) parent kids := by
  obtain ⟨p, t, kids, hrun, hlen, hsettled⟩ := exec_settles uncapped numbered
    (fun id => id = numbered.newAtomId 3) fourLines_sound (by decide) vacant_keyed
    vacant_fresh (by decide)
  have hplanned : plannedParcels uncapped fourLines = 3 := by decide +kernel
  have hstored : putParcels (fun id => id = numbered.newAtomId 3) numbered.newAtomId 3 = 2 := by
    decide +kernel
  rw [hplanned, hstored] at hlen
  refine ⟨p, t, hrun, ?_⟩
  rintro ⟨parent, l, hconsistent⟩
  apply hsettled.inconsistent fourLines_sound.chain (fun a ha => absurd ha List.not_mem_nil) _ _
    parent l hconsistent
  · rw [hlen, hplanned]
    decide
  · rw [hlen]

/-- The second parcel fails: the first one is all that is stored, and the family is consistent. -/
theorem second_parcel_consistent :
    ∃ p t, exec (performFailing fun id => id = numbered.newAtomId 2)
        (linkAndPutWithParcels uncapped numbered fourLines) vacant = (.ok p, t) ∧
      ∃ parent kids, ConsistentFamily t (numbered.newAtomId 0)
        (tailIdOf vacant fourLines.momentId uncapped.linkAcrossMoments) parent kids := by
  obtain ⟨p, t, hrun, hiff⟩ := family_consistent_iff uncapped numbered
    (fun id => id = numbered.newAtomId 2) fourLines_sound (by decide) vacant_keyed
    vacant_fresh (fun a ha => absurd ha List.not_mem_nil) (by decide)
  refine ⟨p, t, hrun, hiff.mpr (.inr ?_)⟩
  decide +kernel

end Lines
end Elyra.Memory
