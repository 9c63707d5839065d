import Elyra.Memory.StoreCalls

namespace Elyra.Memory

def embedKey (key : String) : Bool := "embed_".toList.isPrefixOf key.toList

/-- An atom without what a status write may change: the status, the `embed_` keys, and the locator
and version a put derives. -/
def Atom.core (a : Atom) : Atom :=
  { a with
    embeddingStatus := "none"
    contentRef := "inline"
    schemaVersion := Elyra.Memory.schemaVersion
    metadata := a.metadata.filterKeys fun key => !embedKey key }

theorem Atom.core_metadata (a : Atom) (key : String) (h : embedKey key = false) :
    a.core.metadata.get? key = a.metadata.get? key :=
  Dict.get?_filterKeys _ _ _ (by simp [h])

section Reads

variable (atoms : List Atom)

theorem filter_core (p : Atom → Bool) (hp : ∀ a, p a.core = p a) :
    (atoms.filter p).map Atom.core = (atoms.map Atom.core).filter p := by
  rw [List.filter_map]
  congr 1
  apply List.filter_congr
  intro a _
  exact (hp a).symm

theorem momentAtoms_core (momentId : String) :
    (momentAtoms atoms momentId).map Atom.core = momentAtoms (atoms.map Atom.core) momentId := by
  rw [momentAtoms, momentAtoms, sortBy, sortBy, ← filter_core atoms _ (fun a => rfl)]
  apply List.map_insertionSort
  intro a _ b _
  exact Iff.rfl

theorem laterOf_core (best : Option ((String ×ₗ String) × Atom)) (a : Atom) :
    laterOf (best.map fun p => (p.1, p.2.core)) a.core =
      (laterOf best a).map (Option.map fun p => (p.1, p.2.core)) := by
  show (toIsoZ a.tStart >>= _) = (toIsoZ a.tStart >>= _).map _
  cases toIsoZ a.tStart with
  | error e => rfl
  | ok iso =>
    cases best with
    | none => rfl
    | some b =>
      show Except.ok _ = Except.ok _
      by_cases h : b.1 < toLex (iso, a.atomId)
      · have hcore : b.1 < toLex (iso, a.core.atomId) := h
        simp only [Option.map, if_pos h, if_pos hcore]
        rfl
      · have hcore : ¬b.1 < toLex (iso, a.core.atomId) := h
        simp only [Option.map, if_neg h, if_neg hcore]

theorem foldlM_laterOf_core (best : Option ((String ×ₗ String) × Atom)) :
    (atoms.map Atom.core).foldlM laterOf (best.map fun p => (p.1, p.2.core)) =
      (atoms.foldlM laterOf best).map (Option.map fun p => (p.1, p.2.core)) := by
  induction atoms generalizing best with
  | nil => rfl
  | cons a atoms ih =>
    rw [List.map_cons, List.foldlM_cons, List.foldlM_cons, laterOf_core]
    cases h : laterOf best a with
    | error e => rfl
    | ok next => exact ih next

theorem tailPool_core : (tailPool atoms).map Atom.core = tailPool (atoms.map Atom.core) := by
  have htails : (atoms.filter fun a => a.nextAtomId = none).map Atom.core =
      (atoms.map Atom.core).filter fun a => a.nextAtomId = none :=
    filter_core atoms _ (fun a => rfl)
  rw [tailPool, tailPool, ← htails]
  by_cases h : (atoms.filter fun a => a.nextAtomId = none) = []
  · rw [if_pos h, if_pos (List.map_eq_nil_iff.mpr h)]
  · rw [if_neg h, if_neg (mt List.map_eq_nil_iff.mp h)]

theorem tailOf_core :
    tailOf (atoms.map Atom.core) = (tailOf atoms).map (Option.map Atom.core) := by
  have hchain : (chainAtoms atoms).map Atom.core = chainAtoms (atoms.map Atom.core) :=
    filter_core atoms _ (fun a => rfl)
  have hfold := foldlM_laterOf_core (tailPool (chainAtoms atoms)) none
  rw [Option.map_none, tailPool_core, hchain] at hfold
  rw [tailOf, tailOf, hfold]
  cases List.foldlM laterOf none (tailPool (chainAtoms atoms)) with
  | error e => rfl
  | ok best => cases best <;> rfl

theorem takeLimit_core (limit : Option Int) :
    (takeLimit limit atoms).map Atom.core = takeLimit limit (atoms.map Atom.core) := by
  cases limit with
  | none => rfl
  | some n => exact List.map_take

theorem kindsMatch_core (kinds : Option (List String)) (a : Atom) :
    kindsMatch kinds a.core = kindsMatch kinds a := by
  cases kinds <;> rfl

end Reads

namespace JsonlMemoryStore

def coreItems (s : JsonlMemoryStore) : List (String × Atom) :=
  s.byId.items.map fun p => (p.1, p.2.core)

/-- The same atoms up to what status writes change. -/
structure SameCores (s t : JsonlMemoryStore) : Prop where
  settings : s.settings = t.settings
  items : s.coreItems = t.coreItems

theorem SameCores.refl (s : JsonlMemoryStore) : SameCores s s := ⟨rfl, rfl⟩

variable {s t u : JsonlMemoryStore}

theorem SameCores.trans (h : SameCores s t) (k : SameCores t u) : SameCores s u :=
  ⟨h.settings.trans k.settings, h.items.trans k.items⟩

theorem SameCores.values (h : SameCores s t) :
    s.byId.values.map Atom.core = t.byId.values.map Atom.core := by
  have hmap (u : JsonlMemoryStore) :
      u.byId.values.map Atom.core = u.coreItems.map Prod.snd := by
    rw [Dict.values, coreItems, List.map_map, List.map_map]
    rfl
  rw [hmap s, hmap t, h.items]

theorem getAtom_core (s : JsonlMemoryStore) (atomId : String) :
    (s.getAtom atomId).map Atom.core = Dict.findItem s.coreItems atomId :=
  (Dict.findItem_map Atom.core s.byId.items atomId).symm

theorem SameCores.getAtom (h : SameCores s t) (atomId : String) :
    (s.getAtom atomId).map Atom.core = (t.getAtom atomId).map Atom.core := by
  rw [getAtom_core, getAtom_core, h.items]

theorem coreItems_set (s : JsonlMemoryStore) (atomId : String) (a : Atom) :
    (s.byId.set atomId a).items.map (fun p => (p.1, p.2.core)) =
      Dict.putItem s.coreItems atomId a.core :=
  Dict.map_putItem Atom.core s.byId.items atomId a

theorem SameCores.listByMoment (h : SameCores s t) (momentId : String)
    (kinds : Option (List String)) (limit : Option Int) :
    (s.listByMoment momentId kinds limit).map Atom.core =
      (t.listByMoment momentId kinds limit).map Atom.core := by
  have hlist (u : JsonlMemoryStore) : (u.listByMoment momentId kinds limit).map Atom.core =
      takeLimit limit ((momentAtoms (u.byId.values.map Atom.core) momentId).filter
        (kindsMatch kinds)) := by
    rw [JsonlMemoryStore.listByMoment, takeLimit_core,
      filter_core _ _ (kindsMatch_core kinds), momentAtoms_core]
  rw [hlist s, hlist t, h.values]

theorem SameCores.momentTail (h : SameCores s t) (momentId : String) :
    (s.momentTail momentId).map (Option.map Atom.core) =
      (t.momentTail momentId).map (Option.map Atom.core) := by
  have htail (u : JsonlMemoryStore) : (u.momentTail momentId).map (Option.map Atom.core) =
      tailOf (momentAtoms (u.byId.values.map Atom.core) momentId) := by
    rw [JsonlMemoryStore.momentTail, ← tailOf_core, momentAtoms_core]
  rw [htail s, htail t, h.values]

theorem SameCores.globalTail (h : SameCores s t) :
    s.globalTail.map (Option.map Atom.core) = t.globalTail.map (Option.map Atom.core) := by
  rw [JsonlMemoryStore.globalTail, JsonlMemoryStore.globalTail, ← tailOf_core, ← tailOf_core,
    h.values]

section Writes

variable [PyCoerce]

omit [PyCoerce] in
theorem prepareForPut_eq (settings : MemorySettings) (a p : Atom)
    (h : prepareForPut settings a = .ok p) :
    ∃ stamped, normalizeStamps a = .ok stamped ∧
      p = fillDefaults (locate settings (capContent settings stamped)) := by
  rw [prepareForPut] at h
  cases hn : normalizeStamps a with
  | error e =>
    rw [hn] at h
    cases h
  | ok stamped =>
    rw [hn] at h
    exact ⟨stamped, rfl, validateAtom_eq _ p h⟩

omit [PyCoerce] in
theorem normalizeStamps_frame (a b : Atom) (h : normalizeStamps a = .ok b) :
    b.atomId = a.atomId ∧ b.kind = a.kind := by
  obtain ⟨ts, -, h⟩ := except_bind_ok h
  obtain ⟨te, -, h⟩ := except_bind_ok h
  obtain ⟨ws, -, h⟩ := except_bind_ok h
  obtain ⟨we, -, h⟩ := except_bind_ok h
  obtain ⟨sb, -, h⟩ := except_bind_ok h
  rw [← Except.ok.inj h]
  exact ⟨rfl, rfl⟩

omit [PyCoerce] in
theorem capContent_frame (settings : MemorySettings) (a : Atom) :
    (capContent settings a).atomId = a.atomId ∧ (capContent settings a).kind = a.kind := by
  rw [capContent]
  split_ifs <;> exact ⟨rfl, rfl⟩

omit [PyCoerce] in
theorem prepareForPut_frame (settings : MemorySettings) (a p : Atom)
    (h : prepareForPut settings a = .ok p) : p.atomId = a.atomId ∧ p.kind = a.kind := by
  obtain ⟨stamped, hn, rfl⟩ := prepareForPut_eq settings a p h
  obtain ⟨hid, hkind⟩ := normalizeStamps_frame a stamped hn
  obtain ⟨hcid, hckind⟩ := capContent_frame settings stamped
  exact ⟨hcid.trans hid, hckind.trans hkind⟩

omit [PyCoerce] in
theorem stampsFixed_of_normalize (a b : Atom) (h : normalizeStamps a = .ok b) :
    StampsFixed b := by
  obtain ⟨tStart, hstart, h⟩ := except_bind_ok h
  obtain ⟨tEnd, hend, h⟩ := except_bind_ok h
  obtain ⟨windowStart, hws, h⟩ := except_bind_ok h
  obtain ⟨windowEnd, hwe, h⟩ := except_bind_ok h
  obtain ⟨sourceBeatTs, hts, h⟩ := except_bind_ok h
  rw [← Except.ok.inj h]
  exact ⟨isoOr_idem _ _ hstart, stampIso_idem _ _ hend, stampIso_idem _ _ hws,
    stampIso_idem _ _ hwe, stampIso_idem _ _ hts⟩

omit [PyCoerce] in
theorem stampsFixed_prepared (settings : MemorySettings) (a : Atom) (h : StampsFixed a) :
    StampsFixed (fillDefaults (locate settings (capContent settings a))) := by
  rw [capContent]
  split_ifs <;> exact ⟨h.tStart, h.tEnd, h.windowStart, h.windowEnd, h.sourceBeatTs⟩

omit [PyCoerce] in
theorem prepare_run (s : JsonlMemoryStore) (a : Atom) :
    ∃ d, prepare a s = match prepareForPut s.settings a with
      | .ok p => .ok p { s with dir := d }
      | .error e => .error e { s with dir := d } := by
  rw [prepare, prepareForPut]
  cases normalizeStamps a with
  | error e => exact ⟨s.dir, rfl⟩
  | ok stamped =>
    refine ⟨s.dir.placeBody s.settings stamped (capContent s.settings stamped), ?_⟩
    show _ = match validateAtom _ with
      | .ok p => _
      | .error e => _
    dsimp only
    cases validateAtom (fillDefaults (locate s.settings (capContent s.settings stamped))) <;> rfl

/-- Indexing sets the atom before the tip comparison, which may raise. -/
theorem indexPut_run (s : JsonlMemoryStore) (a : Atom) :
    ∃ ladder, after (indexPut a s) = { s with ladder, byId := s.byId.set a.atomId a } ∧
      (a.tipKey = none → indexPut a s = .ok () { s with ladder, byId := s.byId.set a.atomId a }) := by
  rw [indexPut, run_bind]
  show ∃ ladder, after (raiseTip a _) = _ ∧ (_ → raiseTip a _ = _)
  rw [raiseTip]
  cases a.tipKey with
  | none => exact ⟨_, rfl, fun _ => rfl⟩
  | some key =>
    dsimp only
    split
    · exact ⟨_, rfl, fun h => nomatch h⟩
    · split
      · exact ⟨_, rfl, fun h => nomatch h⟩
      · split
        · exact ⟨_, rfl, fun h => nomatch h⟩
        · split <;> exact ⟨_, rfl, fun h => nomatch h⟩

omit [PyCoerce] in
theorem tipKey_of_kind (a : Atom) (h : a.kind ≠ "summary") : a.tipKey = none := if_neg h

/-- What a put leaves: the prepared atom under its id, also when the tip comparison raises. -/
theorem after_putAtom (s : JsonlMemoryStore) (a : Atom) :
    (after (putAtom a s)).settings = s.settings ∧
      (after (putAtom a s)).byId =
        match prepareForPut s.settings a with
        | .ok p => s.byId.set p.atomId p
        | .error _ => s.byId := by
  obtain ⟨d, hprepare⟩ := prepare_run s a
  rw [putAtom, run_bind, hprepare]
  cases prepareForPut s.settings a with
  | error e => exact ⟨rfl, rfl⟩
  | ok p =>
    let t : JsonlMemoryStore := { s with dir := d.appendAtomRow (rowForDisk p) }
    obtain ⟨ladder, hafter, -⟩ := indexPut_run t p
    have hput : after ((indexPut p >>= fun _ => pure p) t) = { t with ladder, byId := _ } :=
      (after_bind_pure (indexPut p) p t).trans hafter
    have hsettings := congrArg JsonlMemoryStore.settings hput
    have hatoms := congrArg JsonlMemoryStore.byId hput
    exact ⟨hsettings, hatoms⟩

/-- The reply to a put of an atom outside the ladder does not depend on the other atoms. -/
theorem putAtom_reply (s : JsonlMemoryStore) (a : Atom) (h : a.kind ≠ "summary") :
    (split (putAtom a) s).1 = prepareForPut s.settings a := by
  obtain ⟨d, hprepare⟩ := prepare_run s a
  rw [split, putAtom, run_bind, hprepare]
  cases hp : prepareForPut s.settings a with
  | error e => rfl
  | ok p =>
    have hkind : p.kind ≠ "summary" := by
      rw [(prepareForPut_frame s.settings a p hp).2]
      exact h
    let t : JsonlMemoryStore := { s with dir := d.appendAtomRow (rowForDisk p) }
    obtain ⟨ladder, -, hok⟩ := indexPut_run t p
    have hput : (indexPut p >>= fun _ => pure p : Py JsonlMemoryStore Atom) t =
        .ok p { t with ladder, byId := t.byId.set p.atomId p } := by
      rw [run_bind, hok (tipKey_of_kind p hkind)]
      rfl
    show (split (indexPut p >>= fun _ => pure p) t).1 = _
    rw [split, hput]

def LinkChange.applied (a : Atom) (prev next : LinkChange) : Atom :=
  { a with
    prevAtomId := prev.apply a.prevAtomId
    nextAtomId := next.apply a.nextAtomId }

theorem updateLinks_eq (s : JsonlMemoryStore) (atomId : String) (prev next : LinkChange) :
    updateLinks atomId prev next s =
      match s.byId.get? atomId with
      | none => .error (.keyError [.text atomId]) s
      | some a =>
        if prev = .unset ∧ next = .unset then .ok a s
        else (do
          appendRow (rowForDisk (LinkChange.applied a prev next))
          indexPut (LinkChange.applied a prev next)
          return LinkChange.applied a prev next : Py JsonlMemoryStore Atom) s := by
  rw [updateLinks, run_bind]
  show (match s.byId.get? atomId with
    | none => _
    | some a => _ : Py JsonlMemoryStore Atom) s = _
  cases s.byId.get? atomId with
  | none => rfl
  | some a =>
    show (if _ then _ else _ : Py JsonlMemoryStore Atom) s = _
    rw [run_ite]
    rfl

theorem after_updateLinks (s : JsonlMemoryStore) (atomId : String) (prev next : LinkChange) :
    (after (updateLinks atomId prev next s)).settings = s.settings ∧
      (after (updateLinks atomId prev next s)).byId =
        match s.byId.get? atomId with
        | none => s.byId
        | some a =>
          if prev = .unset ∧ next = .unset then s.byId
          else s.byId.set a.atomId (LinkChange.applied a prev next) := by
  rw [updateLinks_eq]
  cases s.byId.get? atomId with
  | none => exact ⟨rfl, rfl⟩
  | some a =>
    dsimp only
    split_ifs with h
    · exact ⟨rfl, rfl⟩
    · let p := LinkChange.applied a prev next
      let t : JsonlMemoryStore := { s with dir := s.dir.appendAtomRow (rowForDisk p) }
      obtain ⟨ladder, hafter, -⟩ := indexPut_run t p
      have hput : after ((indexPut p >>= fun _ => pure p) t) = { t with ladder, byId := _ } :=
        (after_bind_pure (indexPut p) p t).trans hafter
      have hsettings := congrArg JsonlMemoryStore.settings hput
      have hatoms := congrArg JsonlMemoryStore.byId hput
      exact ⟨hsettings, hatoms⟩

theorem SameCores.putAtom (h : SameCores s t) (a : Atom) :
    SameCores (after (JsonlMemoryStore.putAtom a s)) (after (JsonlMemoryStore.putAtom a t)) := by
  obtain ⟨hs, hsb⟩ := after_putAtom s a
  obtain ⟨ht, htb⟩ := after_putAtom t a
  refine ⟨?_, ?_⟩
  · rw [hs, ht, h.settings]
  · rw [coreItems, coreItems, hsb, htb, ← h.settings]
    cases prepareForPut s.settings a with
    | error e => exact h.items
    | ok p =>
      dsimp only
      rw [coreItems_set, coreItems_set, h.items]

omit [PyCoerce] in
theorem applied_core (a : Atom) (prev next : LinkChange) :
    (LinkChange.applied a prev next).core = LinkChange.applied a.core prev next := rfl

theorem SameCores.updateLinks (h : SameCores s t) (atomId : String) (prev next : LinkChange) :
    SameCores (after (JsonlMemoryStore.updateLinks atomId prev next s))
      (after (JsonlMemoryStore.updateLinks atomId prev next t)) := by
  obtain ⟨hs, hsb⟩ := after_updateLinks s atomId prev next
  obtain ⟨ht, htb⟩ := after_updateLinks t atomId prev next
  refine ⟨?_, ?_⟩
  · rw [hs, ht, h.settings]
  · have hrow : (s.byId.get? atomId).map Atom.core = (t.byId.get? atomId).map Atom.core :=
      h.getAtom atomId
    rw [coreItems, coreItems, hsb, htb]
    cases hsa : s.byId.get? atomId with
    | none =>
      rw [hsa] at hrow
      rw [Option.map_eq_none_iff.mp hrow.symm]
      exact h.items
    | some a =>
      rw [hsa] at hrow
      obtain ⟨b, htb, hcore⟩ := Option.map_eq_some_iff.mp hrow.symm
      rw [htb]
      dsimp only
      split_ifs
      · exact h.items
      · have hid : b.core.atomId = a.core.atomId := congrArg Atom.atomId hcore
        rw [coreItems_set, coreItems_set, applied_core, applied_core, hcore, h.items]
        exact congrArg (fun id => Dict.putItem t.coreItems id _) hid.symm

end Writes
end JsonlMemoryStore

/-- Replies that differ in what status writes change only. A put returns an atom of the kind it was
given; the reply of a link update is unused. -/
def Alike : (c : StoreCall) → Except PyErr c.Reply → Except PyErr c.Reply → Prop
  | .getAtom _, r, r' | .momentTail _, r, r' | .globalTail, r, r' =>
    r.map (Option.map Atom.core) = r'.map (Option.map Atom.core)
  | .listByMoment _ _ _, r, r' => r.map (List.map Atom.core) = r'.map (List.map Atom.core)
  | .putAtom a, r, r' => r = r' ∧ ∀ p, r = .ok p → p.kind = a.kind
  | .updateLinks _ _ _, _, _ => True

/-- Promotion puts no ladder atom. -/
def Weaves : StoreCall → Prop
  | .putAtom a => a.kind ≠ "summary"
  | _ => True

theorem respects_sameCores [PyCoerce] :
    Program.Respects StoreCall.perform Weaves Alike JsonlMemoryStore.SameCores := by
  intro c s t hc h
  cases c with
  | getAtom atomId => exact ⟨congrArg Except.ok (h.getAtom atomId), h⟩
  | listByMoment momentId kinds limit =>
    exact ⟨congrArg Except.ok (h.listByMoment momentId kinds limit), h⟩
  | momentTail momentId => exact ⟨h.momentTail momentId, h⟩
  | globalTail => exact ⟨h.globalTail, h⟩
  | putAtom a =>
    refine ⟨⟨?_, ?_⟩, ?_⟩
    · show (split _ s).1 = (split _ t).1
      rw [JsonlMemoryStore.putAtom_reply s a hc, JsonlMemoryStore.putAtom_reply t a hc, h.settings]
    · intro p hp
      have hprep : (split (JsonlMemoryStore.putAtom a) s).1 = .ok p := hp
      rw [JsonlMemoryStore.putAtom_reply s a hc] at hprep
      exact (JsonlMemoryStore.prepareForPut_frame s.settings a p hprep).2
    · show JsonlMemoryStore.SameCores (split _ s).2 (split _ t).2
      rw [split_snd, split_snd]
      exact h.putAtom a
  | updateLinks atomId prev next =>
    refine ⟨trivial, ?_⟩
    show JsonlMemoryStore.SameCores (split _ s).2 (split _ t).2
    rw [split_snd, split_snd]
    exact h.updateLinks atomId prev next

end Elyra.Memory
