import Elyra.Memory.FailedPut
import Elyra.Memory.Weave

namespace Elyra.Memory

open JsonlMemoryStore Fallible

section Spared

/-- A call that no failing id is put by. -/
def Spared (failing : String → Bool) : StoreCall → Prop
  | .putAtom a => failing a.atomId = false
  | _ => True

abbrev Spares {α : Type} (failing : String → Bool) (m : Promoter α) : Prop :=
  Blind (Spared failing) (fun _ r r' => r = r') (fun _ => True) m

variable {failing : String → Bool}

theorem spares_put {a : Atom} (h : failing a.atomId = false) : Spares failing (put a) :=
  blind_call h

theorem spares_tryPutAtom {a : Atom} (h : failing a.atomId = false) :
    Spares failing (tryPutAtom a) := by
  apply blind_catch
  · exact blind_bind (spares_put h) fun _ _ => blind_pure _ trivial
  · exact fun _ => blind_pure _ trivial

theorem spares_momentTailId (momentId : String) : Spares failing (momentTailId momentId) :=
  blind_bind (blind_call trivial) fun _ _ => blind_pure _ trivial

theorem spares_globalTailId : Spares failing globalTailId :=
  blind_bind (blind_call trivial) fun _ _ => blind_pure _ trivial

theorem spares_tailId (momentId : String) (across : Bool) :
    Spares failing (tailId momentId across) := by
  apply blind_catch
  · apply blind_bind (spares_momentTailId momentId)
    intro row _
    cases row with
    | some a => exact blind_pure _ trivial
    | none =>
      cases across with
      | false => exact blind_pure _ trivial
      | true => exact spares_globalTailId
  · exact fun _ => blind_pure _ trivial

theorem spares_linkNext (prevId nextId : String) : Spares failing (linkNext prevId nextId) := by
  apply blind_catch
  · exact blind_bind (blind_call trivial) fun _ _ => blind_pure _ trivial
  · exact fun _ => blind_pure _ trivial

theorem spares_linkChild (prevId : Option String) (nextId : String) :
    Spares failing (linkChild prevId nextId) := by
  cases prevId with
  | none => exact blind_pure _ trivial
  | some p => exact spares_linkNext p nextId

theorem spares_linkAndPut (settings : PromoteSettings) (momentId : String) {a : Atom}
    (h : failing a.atomId = false) : Spares failing (linkAndPut settings momentId a) := by
  apply blind_bind (spares_tailId momentId settings.linkAcrossMoments)
  intro prev _
  cases prev with
  | none => exact spares_put h
  | some prevId =>
    apply blind_bind (spares_put (show failing _ = false from h))
    intro stored _
    apply blind_bind (spares_linkNext prevId stored.atomId)
    exact fun _ _ => blind_pure _ trivial

end Spared

section Performer

variable [PyCoerce]

/-- The store when the puts of some ids raise at their append. -/
def performFailing (failing : String → Bool) :
    (c : StoreCall) → JsonlMemoryStore → Except PyErr c.Reply × JsonlMemoryStore
  | .putAtom a, s => split (putAtomWith (failing a.atomId) a) s
  | c, s => c.perform s

variable {failing : String → Bool}

theorem perform_spared (c : StoreCall) (s : JsonlMemoryStore) (h : Spared failing c) :
    performFailing failing c s = c.perform s := by
  cases c with
  | putAtom a =>
    have hgo : failing a.atomId = false := h
    show split (putAtomWith (failing a.atomId) a) s = split (JsonlMemoryStore.putAtom a) s
    rw [hgo, putAtomWith_false]
  | _ => rfl

/-- Work that puts no failing id runs as it does on a store that never fails. -/
theorem exec_spared {α : Type} {m : Promoter α} (h : Spares failing m) (s : JsonlMemoryStore) :
    exec (performFailing failing) m s = exec StoreCall.perform m s :=
  exec_agree perform_spared h s

/-- A put that fails leaves the rows as they were. -/
theorem exec_tryPutAtom_failing {a : Atom} (h : failing a.atomId = true) (s : JsonlMemoryStore) :
    ∃ t, exec (performFailing failing) (tryPutAtom a) s = (.ok none, t) ∧ t.byId = s.byId := by
  have hcall : exec (performFailing failing) (put a) s = split (putAtomWith true a) s := by
    show split (putAtomWith (failing a.atomId) a) s = _
    rw [h]
  have hfails : ∃ e t, split (putAtomWith true a) s = (.error e, t) ∧ t.byId = s.byId := by
    unfold split putAtomWith
    rw [run_bind]
    unfold prepare
    cases normalizeStamps a with
    | error e => exact ⟨e, s, rfl, rfl⟩
    | ok stamped =>
      dsimp only
      cases validateAtom (fillDefaults (locate s.settings (capContent s.settings stamped))) with
      | error e => exact ⟨e, _, rfl, rfl⟩
      | ok p => exact ⟨_, _, rfl, rfl⟩
  obtain ⟨e, t, hrun, hsame⟩ := hfails
  refine ⟨t, ?_, hsame⟩
  unfold tryPutAtom
  rw [exec_catch, exec_bind, hcall, hrun]
  rfl

end Performer

section Kept

/-- What a put keeps of a row of a family, which can then be put again. -/
structure Kept (a p : Atom) : Prop extends Prepared a p where
  parentAtomId : p.parentAtomId = a.parentAtomId
  truncated : a.metadata.get? "truncated" = some (.bool true) →
    p.metadata.get? "truncated" = some (.bool true)
  again : Puttable p

theorem Puttable.withMetadata {a : Atom} (h : Puttable a) (metadata : Dict String Json) :
    Puttable { a with metadata := metadata } :=
  ⟨h.atomId, h.kind, h.stamp, h.source, h.tEnd, h.window, h.scale, h.status, h.version⟩

theorem Puttable.normalize {a : Atom} (h : Puttable a) :
    ∃ t, t ≠ "" ∧ isoOr t t = .ok t ∧
      normalizeStamps a = .ok { a with tStart := t, sourceBeatTs := some t } := by
  obtain ⟨t, ht, hne⟩ := h.stamp
  refine ⟨t, hne, isoOr_idem _ _ ht, ?_⟩
  have hempty : a.tStart ≠ "" := by
    intro heq
    rw [heq] at ht
    exact hne (Except.ok.inj (ht.symm.trans (by rfl)))
  have hsource : stampIso a.sourceBeatTs = .ok (some t) := by
    rw [h.source, stampIso, if_neg hempty, ht]
    rfl
  rw [normalizeStamps, ht, h.tEnd, h.window.1, h.window.2, hsource]
  rfl

/-- A put that cuts a body changes the metadata too, and no more. -/
theorem capContent_shape (settings : MemorySettings) (a : Atom) :
    ∃ body metadata, capContent settings a = { a with contentText := body, metadata := metadata } ∧
      (a.metadata.get? "truncated" = some (.bool true) →
        metadata.get? "truncated" = some (.bool true)) := by
  unfold capContent
  split_ifs
  · exact ⟨_, _, rfl, fun _ => Dict.get?_set_self _ _ _⟩
  · exact ⟨a.contentText, a.metadata, rfl, id⟩

variable [PyCoerce]

omit [PyCoerce] in
theorem kept_of_prepare {settings : MemorySettings} {a p : Atom} (h : Puttable a)
    (hp : prepareForPut settings a = .ok p) : Kept a p := by
  obtain ⟨q, hq, hprepared⟩ := prepareForPut_puttable h settings
  obtain rfl : q = p := Except.ok.inj (hq.symm.trans hp)
  obtain ⟨t, hne, hagain, hnormal⟩ := h.normalize
  obtain ⟨stamped, hstamped, hself⟩ := prepareForPut_eq settings a q hp
  obtain rfl := Except.ok.inj (hnormal.symm.trans hstamped)
  have hstatus : a.embeddingStatus ≠ "" := by
    intro hempty
    have hin := h.status
    rw [hempty] at hin
    revert hin
    decide
  obtain ⟨body, metadata, hshape, htruncated⟩ :=
    capContent_shape settings { a with tStart := t, sourceBeatTs := some t }
  have hfill : ∀ b : Atom, b.embeddingStatus = a.embeddingStatus →
      b.schemaVersion = a.schemaVersion → fillDefaults (locate settings b) = locate settings b := by
    intro b hembed hversion
    exact fillDefaults_eq (locate settings b) (fun heq => hstatus (hembed.symm.trans heq))
      (hversion.trans h.version)
  rw [hshape, hfill] at hself
  · subst hself
    exact ⟨hprepared, rfl, htruncated, ⟨h.atomId, h.kind, ⟨t, hagain, hne⟩, rfl, h.tEnd, h.window,
      h.scale, h.status, h.version⟩⟩
  · rfl
  · rfl

theorem kept_of_put {a p : Atom} (h : Puttable a) {s t : JsonlMemoryStore}
    (hrun : exec StoreCall.perform (put a) s = (.ok p, t)) : Kept a p := by
  have hreply := putAtom_reply s a h.kind.2
  have hsplit : split (JsonlMemoryStore.putAtom a) s = (.ok p, t) := hrun
  rw [hsplit] at hreply
  exact kept_of_prepare h hreply.symm

variable {failing : String → Bool}

/-- A put that does not fail stores the row it answers with. -/
theorem exec_tryPutAtom_spared {a : Atom} (hgo : failing a.atomId = false) (h : Puttable a)
    {s : JsonlMemoryStore} (hs : Keyed s) :
    ∃ p t, exec (performFailing failing) (tryPutAtom a) s = (.ok (some p), t) ∧ Kept a p ∧
      t.byId = s.byId.set p.atomId p ∧ Keyed t := by
  obtain ⟨p, t, hrun, -, hset, hkeyed⟩ := exec_put h hs
  refine ⟨p, t, ?_, kept_of_put h hrun, hset, hkeyed⟩
  rw [exec_spared (spares_tryPutAtom hgo)]
  unfold tryPutAtom
  apply exec_catch_ok
  rw [exec_bind_ok hrun]
  rfl

/-- The row that a linked put answers with can be put again. -/
theorem linkAndPut_again (settings : PromoteSettings) (momentId : String) {a p : Atom}
    (h : Puttable a) {s t : JsonlMemoryStore} (hs : Keyed s)
    (hrun : exec StoreCall.perform (linkAndPut settings momentId a) s = (.ok p, t)) :
    Puttable p := by
  have hstatus := h.promoteStatus settings
  unfold linkAndPut at hrun
  simp only at hrun
  rw [exec_bind_ok (exec_tailId s momentId settings.linkAcrossMoments)] at hrun
  cases hfound : tailIdOf s momentId settings.linkAcrossMoments with
  | none =>
    rw [hfound] at hrun
    exact (kept_of_put hstatus hrun).again
  | some prevId =>
    have hlinked := hstatus.relink (some prevId) none
    obtain ⟨q, u, hput, -, -, hkeyed⟩ := exec_put hlinked hs
    obtain ⟨v, hlink, -, -⟩ := exec_linkNext prevId q.atomId hkeyed
    rw [hfound] at hrun
    simp only at hrun
    rw [exec_bind_ok hput, exec_bind_ok hlink] at hrun
    obtain rfl : q = p := Except.ok.inj (congrArg Prod.fst hrun)
    exact (kept_of_put hlinked hput).again

end Kept

section Rows

/-- A row that is put again keeps its place. -/
theorem rows_set_at {s t : JsonlMemoryStore} (hs : Keyed s) {front back : List Atom} {old p : Atom}
    (hrows : rows s = front ++ old :: back) (hid : p.atomId = old.atomId)
    (hset : t.byId = s.byId.set p.atomId p) : rows t = front ++ p :: back := by
  have hold : s.byId.get? old.atomId = some old := by
    rw [← hs.mem_rows, hrows]
    simp
  have hids := hs.ids_nodup
  rw [hrows, List.map_append, List.map_cons, List.nodup_append, List.nodup_cons] at hids
  obtain ⟨-, ⟨hback, -⟩, hfront⟩ := hids
  have hother : ∀ l : List Atom, old.atomId ∉ l.map Atom.atomId →
      l.map (fun w => if w.atomId = p.atomId then p else w) = l := by
    intro l hnot
    have hsame : l.map (fun w => if w.atomId = p.atomId then p else w) = l.map (fun w => w) := by
      apply List.map_congr_left
      intro w hw
      apply if_neg
      intro heq
      rw [hid] at heq
      exact hnot (heq ▸ List.mem_map_of_mem hw)
    rw [hsame, List.map_id']
  rw [rows, hset, Dict.values_set_old s.byId Atom.atomId p.atomId p old hs (hid ▸ hold), ← rows,
    hrows, List.map_append, List.map_cons, hother back hback, if_pos hid.symm, hother front]
  intro hmem
  exact hfront _ hmem _ List.mem_cons_self rfl

end Rows
end Elyra.Memory
