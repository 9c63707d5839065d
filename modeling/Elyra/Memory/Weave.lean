import Elyra.Framework.Linked
import Elyra.Memory.PutSpec

namespace Elyra.Memory

open JsonlMemoryStore Fallible

/-- The id `tailId` finds; a look-up that fails finds none. -/
def tailIdOf (s : JsonlMemoryStore) (momentId : String) (linkAcrossMoments : Bool) :
    Option String :=
  match s.momentTail momentId with
  | .error _ => none
  | .ok (some a) => some a.atomId
  | .ok none =>
    if linkAcrossMoments then
      match s.globalTail with
      | .error _ => none
      | .ok row => row.map Atom.atomId
    else none

/-- A new row behind the one it is linked to. -/
def joinRow (prevId : Option String) (p : Atom) (l : List Atom) : List Atom :=
  match prevId with
  | none => l ++ [p]
  | some id => l.map (linkRow id p.atomId) ++ [p]

section Tail

theorem foldlM_laterOf_mem (pool : List Atom) (best : Option ((String ×ₗ String) × Atom))
    (r : Option ((String ×ₗ String) × Atom)) (h : pool.foldlM laterOf best = .ok r)
    (b : (String ×ₗ String) × Atom) (hb : r = some b) : b.2 ∈ pool ∨ best = some b := by
  induction pool generalizing best with
  | nil =>
    right
    rw [← hb]
    exact Except.ok.inj h
  | cons a pool ih =>
    obtain ⟨next, hstep, hrest⟩ := except_bind_ok h
    cases ih next hrest with
    | inl hin => exact .inl (List.mem_cons_of_mem _ hin)
    | inr hnext =>
      obtain ⟨key, -, hchoice⟩ := except_bind_ok hstep
      rw [hnext] at hchoice
      cases best with
      | none =>
        have hself := Option.some.inj (Except.ok.inj hchoice)
        left
        rw [← hself]
        exact List.mem_cons_self
      | some old =>
        have hself := Option.some.inj (Except.ok.inj hchoice)
        split_ifs at hself
        · left
          rw [← hself]
          exact List.mem_cons_self
        · right
          rw [← hself]

theorem tailOf_mem {atoms : List Atom} {a : Atom} (h : tailOf atoms = .ok (some a)) :
    a ∈ chainAtoms atoms := by
  obtain ⟨best, hbest, hmap⟩ := except_bind_ok h
  obtain ⟨b, hb, rfl⟩ := Option.map_eq_some_iff.mp (Except.ok.inj hmap)
  cases foldlM_laterOf_mem _ none best hbest b hb with
  | inr hnone => cases hnone
  | inl hin =>
    unfold tailPool at hin
    simp only at hin
    split_ifs at hin with hempty
    · exact hin
    · exact List.mem_of_mem_filter hin

theorem mem_momentAtoms {atoms : List Atom} {momentId : String} {a : Atom} :
    a ∈ momentAtoms atoms momentId ↔ a ∈ atoms ∧ momentId ≠ "" ∧ a.momentId = some momentId := by
  simp [momentAtoms]

/-- The tail is a row of the chain. -/
theorem tailIdOf_mem {s : JsonlMemoryStore} {momentId id : String} {across : Bool}
    (h : tailIdOf s momentId across = some id) : ∃ a ∈ chainAtoms (rows s), a.atomId = id := by
  unfold tailIdOf at h
  cases hmoment : s.momentTail momentId with
  | error e =>
    rw [hmoment] at h
    cases h
  | ok found =>
    rw [hmoment] at h
    cases found with
    | some a =>
      have hmem := List.mem_filter.mp (tailOf_mem hmoment)
      exact ⟨a, List.mem_filter.mpr ⟨(mem_momentAtoms.mp hmem.1).1, hmem.2⟩, Option.some.inj h⟩
    | none =>
      simp only at h
      split_ifs at h
      cases hglobal : s.globalTail with
      | error e =>
        rw [hglobal] at h
        cases h
      | ok row =>
        rw [hglobal] at h
        obtain ⟨a, rfl, hid⟩ := Option.map_eq_some_iff.mp h
        exact ⟨a, tailOf_mem hglobal, hid⟩

end Tail

/-- A fresh row comes last. -/
theorem rows_set_fresh {s t : JsonlMemoryStore} {p : Atom} (hfresh : s.byId.get? p.atomId = none)
    (h : t.byId = s.byId.set p.atomId p) : rows t = rows s ++ [p] := by
  rw [rows, h]
  exact Dict.values_set_new s.byId p.atomId p hfresh

/-- What a joined row keeps of the atom it was made of. -/
structure JoinedRow (a p : Atom) (prevId : Option String) : Prop where
  atomId : p.atomId = a.atomId
  kind : p.kind = a.kind
  momentId : p.momentId = a.momentId
  prev : p.prevAtomId = prevId
  next : p.nextAtomId = none
  tStart : isoOr a.tStart a.tStart = .ok p.tStart
  metadata : ∀ k, k ≠ "truncated" → p.metadata.get? k = a.metadata.get? k

theorem Puttable.relink {a : Atom} (h : Puttable a) (prev next : Option String) :
    Puttable { a with prevAtomId := prev, nextAtomId := next } :=
  ⟨h.atomId, h.kind, h.stamp, h.source, h.tEnd, h.window, h.scale, h.status, h.version⟩

theorem Puttable.promoteStatus {a : Atom} (h : Puttable a) (settings : PromoteSettings) :
    Puttable (withPromoteStatus settings a) := by
  refine ⟨h.atomId, h.kind, h.stamp, h.source, h.tEnd, h.window, h.scale, ?_, h.version⟩
  show embeddingStatusForPromote settings a ∈ embeddingStatuses
  unfold embeddingStatusForPromote
  split_ifs <;> decide

section Join

variable [PyCoerce]

theorem exec_tailId (s : JsonlMemoryStore) (momentId : String) (across : Bool) :
    exec StoreCall.perform (tailId momentId across) s = (.ok (tailIdOf s momentId across), s) := by
  have hmoment : exec StoreCall.perform (momentTailId momentId) s =
      ((s.momentTail momentId).map (Option.map Atom.atomId), s) := by
    have hcall : exec StoreCall.perform (Fallible.perform (StoreCall.momentTail momentId)) s =
        (s.momentTail momentId, s) := rfl
    unfold momentTailId
    rw [exec_bind, hcall]
    cases s.momentTail momentId <;> rfl
  have hglobal : exec StoreCall.perform globalTailId s =
      (s.globalTail.map (Option.map Atom.atomId), s) := by
    have hcall : exec StoreCall.perform (Fallible.perform StoreCall.globalTail) s =
        (s.globalTail, s) := rfl
    unfold globalTailId
    rw [exec_bind, hcall]
    cases s.globalTail <;> rfl
  unfold tailId tailIdOf
  rw [exec_catch, exec_bind, hmoment]
  cases s.momentTail momentId with
  | error e => rfl
  | ok found =>
    cases found with
    | some a => rfl
    | none =>
      cases across with
      | false => rfl
      | true =>
        simp only [Except.map, Option.map_none, if_true]
        rw [hglobal]
        cases s.globalTail <;> rfl

/-- A fresh atom is joined behind the tail. -/
theorem exec_linkAndPut (settings : PromoteSettings) (momentId : String) {a : Atom}
    (h : Puttable a) (hprev : a.prevAtomId = none) (hnext : a.nextAtomId = none)
    {s : JsonlMemoryStore} (hs : Keyed s) (hfresh : s.byId.get? a.atomId = none) :
    ∃ p t, exec StoreCall.perform (linkAndPut settings momentId a) s = (.ok p, t) ∧
      JoinedRow a p (tailIdOf s momentId settings.linkAcrossMoments) ∧
      rows t = joinRow (tailIdOf s momentId settings.linkAcrossMoments) p (rows s) ∧ Keyed t := by
  have hstatus := h.promoteStatus settings
  have htail := exec_tailId s momentId settings.linkAcrossMoments
  unfold linkAndPut
  simp only
  rw [exec_bind_ok htail]
  cases hfound : tailIdOf s momentId settings.linkAcrossMoments with
  | none =>
    obtain ⟨p, t, hrun, hprepared, hset, hkeyed⟩ := exec_put hstatus hs
    have hid : p.atomId = a.atomId := hprepared.atomId
    exact ⟨p, t, hrun, ⟨hid, hprepared.kind, hprepared.momentId, hprepared.prev.trans hprev,
      hprepared.next.trans hnext, hprepared.tStart, hprepared.metadata⟩, rows_set_fresh (hid ▸ hfresh) hset, hkeyed⟩
  | some prevId =>
    obtain ⟨p, t, hrun, hprepared, hset, hkeyed⟩ := exec_put (hstatus.relink (some prevId) none) hs
    have hid : p.atomId = a.atomId := hprepared.atomId
    obtain ⟨u, hlink, hrows, hukeyed⟩ := exec_linkNext prevId p.atomId hkeyed
    refine ⟨p, u, ?_, ⟨hid, hprepared.kind, hprepared.momentId, hprepared.prev, hprepared.next,
      hprepared.tStart, hprepared.metadata⟩, ?_, hukeyed⟩
    · simp only
      rw [exec_bind_ok hrun, exec_bind_ok hlink]
      rfl
    · -- The new row is not the one it is linked to.
      obtain ⟨b, hb, hbid⟩ := tailIdOf_mem hfound
      have hne : p.atomId ≠ prevId := by
        rw [hid, ← hbid]
        exact (hs.fresh hfresh b (List.mem_of_mem_filter hb)).symm
      rw [hrows, rows_set_fresh (hid ▸ hfresh) hset, List.map_append, List.map_singleton,
        linkRow_other hne]
      rfl

end Join

/-- A row of a parcel: outside the chain, and without a key of its own. -/
structure IsParcel (momentId : String) (k : Atom) : Prop where
  kind : k.kind = "parcel"
  momentId : k.momentId = some momentId
  noKey : k.metadata.get? "idempotency_key" = none

/-- A parcel before its put. -/
structure Child (momentId : String) (c : Atom) : Prop where
  puttable : Puttable c
  parcel : IsParcel momentId c

theorem Keyed.none_of_fresh {s : JsonlMemoryStore} (h : Keyed s) {id : String}
    (hid : ∀ a ∈ rows s, a.atomId ≠ id) : s.byId.get? id = none := by
  cases hfound : s.byId.get? id with
  | none => rfl
  | some a =>
    have hself := h id a hfound
    exact absurd hself (hid a ((h.mem_rows a).mpr (hself ▸ hfound)))

theorem ids_linkRow (p n : String) (l : List Atom) :
    (l.map (linkRow p n)).map Atom.atomId = l.map Atom.atomId := by
  rw [List.map_map]
  apply List.map_congr_left
  intro a _
  exact linkRow_atomId p n a

/-- The keys of the metadata that say how a body was cut. -/
def cutKeys : List String := ["truncated", "parcel_count", "has_parcels", "first_parcel_id"]

/-- The ids a promote call draws are new, and all different. -/
structure FreshIds (out : Outside) (s : JsonlMemoryStore) : Prop where
  nonempty : ∀ i, out.newAtomId i ≠ ""
  unused : ∀ i, ∀ a ∈ rows s, a.atomId ≠ out.newAtomId i
  injective : Function.Injective out.newAtomId

/-- What a put needs of a draft. -/
structure Sound (d : Draft) : Prop where
  kind : d.kind ∈ atomKinds
  chain : d.kind ∉ chainExcludeKinds
  stamp : ∃ t, isoOr d.tStart d.tStart = .ok t ∧ t ≠ ""

theorem Sound.puttable {d : Draft} (h : Sound d) {id : String} (hid : id ≠ "") (body : List Char)
    (metadata : Dict String Json) : Puttable (d.atom id body metadata) := by
  have hnot : d.kind ≠ "summary" := by
    intro heq
    apply h.chain
    rw [heq]
    decide
  exact ⟨hid, ⟨h.kind, hnot⟩, h.stamp, rfl, rfl, ⟨rfl, rfl⟩, rfl,
    by show "none" ∈ embeddingStatuses; decide, rfl⟩

/-- What `make_parent_and_parcels` gives: a parent that keeps the metadata of the draft, and parcels
under further ids. -/
structure Parcels (d : Draft) (out : Outside) (parent : Atom) (children : List Atom) : Prop where
  parent : ∃ body metadata, parent = d.atom (out.newAtomId 0) body metadata ∧
    ∀ k ∉ cutKeys, metadata.get? k = d.baseMeta.get? k
  each : ∀ c ∈ children, Child d.momentId c ∧ ∃ i, c.atomId = out.newAtomId (i + 1)
  nodup : (children.map Atom.atomId).Nodup

theorem get?_pop_ne {d : Dict String Json} {k x : String} (h : k ≠ x) :
    (d.pop x).get? k = d.get? k := by
  rw [Dict.get?_pop, if_neg (Ne.symm h)]

theorem cut_ne {k x : String} (hk : k ∉ cutKeys) (hx : x ∈ cutKeys) : k ≠ x := by
  rintro rfl
  exact hk hx

theorem parcels_make (d : Draft) (h : Sound d) (maxChars : Int) (out : Outside)
    (hnonempty : ∀ i, out.newAtomId i ≠ "") (hinj : Function.Injective out.newAtomId) :
    Parcels d out (makeParentAndParcels d maxChars out.newAtomId).1
      (makeParentAndParcels d maxChars out.newAtomId).2 := by
  unfold makeParentAndParcels
  simp only
  split_ifs with hcount
  · refine ⟨⟨_, _, rfl, ?_⟩, by simp, by simp⟩
    intro k hk
    exact get?_pop_ne (cut_ne hk (by decide))
  · refine ⟨⟨_, _, rfl, ?_⟩, ?_, ?_⟩
    · intro k hk
      rw [Dict.get?_set_ne _ _ (Ne.symm (cut_ne hk (by decide))), get?_pop_ne (cut_ne hk (by decide)),
        Dict.get?_set_ne _ _ (Ne.symm (cut_ne hk (by decide))),
        Dict.get?_set_ne _ _ (Ne.symm (cut_ne hk (by decide)))]
    · intro c hc
      obtain ⟨i, hi, rfl⟩ := List.mem_mapIdx.mp hc
      refine ⟨⟨?_, rfl, rfl, ?_⟩, i, rfl⟩
      · exact ⟨hnonempty _, ⟨by show "parcel" ∈ atomKinds; decide, by show "parcel" ≠ "summary"; decide⟩,
          h.stamp, rfl, rfl, ⟨rfl, rfl⟩, rfl, by show "none" ∈ embeddingStatuses; decide, rfl⟩
      · show (Dict.ofList _).get? "idempotency_key" = none
        rw [Dict.get?_ofList _ (by simp)]
        simp [Dict.findItem]
    · rw [List.nodup_iff_injective_get]
      intro i j hij
      simp only [List.get_eq_getElem, List.getElem_map, List.getElem_mapIdx] at hij
      have heq : i.val + 1 = j.val + 1 := hinj hij
      exact Fin.ext (Nat.succ.inj heq)

end Elyra.Memory
