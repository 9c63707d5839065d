import Elyra.Framework.Program
import Elyra.Framework.Groups
import Elyra.Memory.Promote
import Elyra.Memory.TipIndex

namespace Elyra

section Values

variable {κ ν : Type*} [DecidableEq κ]

theorem Dict.values_set_new (d : Dict κ ν) (k : κ) (v : ν) (h : d.get? k = none) :
    (d.set k v).values = d.values ++ [v] := by
  have hkey : k ∉ d.items.map Prod.fst := (Dict.not_mem_keys d k).mpr h
  show (Dict.putItem d.items k v).map Prod.snd = _
  rw [Dict.putItem_of_not_mem d.items k v hkey, List.map_append]
  rfl

/-- A key that is there keeps its place. -/
theorem Dict.values_set_old (d : Dict κ ν) (key : ν → κ) (k : κ) (v old : ν)
    (hkeyed : ∀ x w, d.get? x = some w → key w = x) (h : d.get? k = some old) :
    (d.set k v).values = d.values.map (fun w => if key w = k then v else w) := by
  have hkey : k ∈ d.items.map Prod.fst := (Dict.mem_keys d k).mpr ⟨old, h⟩
  show (Dict.putItem d.items k v).map Prod.snd = (d.items.map Prod.snd).map _
  rw [Dict.putItem_present d.items k v d.nodup hkey, List.map_map, List.map_map]
  apply List.map_congr_left
  intro p hp
  have hself : key p.2 = p.1 := hkeyed p.1 p.2 ((Dict.get?_eq_some_iff d p.1 p.2).mpr hp)
  show (if p.1 = k then (k, v) else p).2 = if key p.2 = k then v else p.2
  rw [hself]
  split_ifs <;> rfl

end Values

namespace Memory

open JsonlMemoryStore Fallible

/-- Every row stands under its own id. -/
def Keyed (s : JsonlMemoryStore) : Prop := ∀ id a, s.byId.get? id = some a → a.atomId = id

def rows (s : JsonlMemoryStore) : List Atom := s.byId.values

theorem Keyed.mem_rows {s : JsonlMemoryStore} (h : Keyed s) (a : Atom) :
    a ∈ rows s ↔ s.byId.get? a.atomId = some a := mem_atoms h a

theorem Keyed.ids_nodup {s : JsonlMemoryStore} (h : Keyed s) :
    ((rows s).map Atom.atomId).Nodup := atomIds_nodup h

theorem Keyed.fresh {s : JsonlMemoryStore} (h : Keyed s) {id : String}
    (hid : s.byId.get? id = none) : ∀ a ∈ rows s, a.atomId ≠ id := by
  intro a ha heq
  rw [h.mem_rows, heq, hid] at ha
  cases ha

/-- The row that is named next is the one with this id. -/
def linkRow (prevId nextId : String) (a : Atom) : Atom :=
  if a.atomId = prevId then { a with nextAtomId := some nextId } else a

@[simp] theorem linkRow_atomId (p n : String) (a : Atom) : (linkRow p n a).atomId = a.atomId := by
  unfold linkRow
  split_ifs <;> rfl

theorem linkRow_other {p n : String} {a : Atom} (h : a.atomId ≠ p) : linkRow p n a = a := if_neg h

theorem map_linkRow_other {p n : String} {l : List Atom} (h : ∀ a ∈ l, a.atomId ≠ p) :
    l.map (linkRow p n) = l := by
  have hsame : l.map (linkRow p n) = l.map (fun a => a) :=
    List.map_congr_left (fun a ha => linkRow_other (h a ha))
  rw [hsame, List.map_id']

/-- What a put keeps of an atom as it was given. -/
structure Prepared (a p : Atom) : Prop where
  atomId : p.atomId = a.atomId
  kind : p.kind = a.kind
  momentId : p.momentId = a.momentId
  prev : p.prevAtomId = a.prevAtomId
  next : p.nextAtomId = a.nextAtomId
  tStart : isoOr a.tStart a.tStart = .ok p.tStart
  metadata : ∀ k, k ≠ "truncated" → p.metadata.get? k = a.metadata.get? k

/-- An atom outside the ladder that passes every check of a put. -/
structure Puttable (a : Atom) : Prop where
  atomId : a.atomId ≠ ""
  kind : a.kind ∈ atomKinds ∧ a.kind ≠ "summary"
  stamp : ∃ t, isoOr a.tStart a.tStart = .ok t ∧ t ≠ ""
  source : a.sourceBeatTs = some a.tStart
  tEnd : a.tEnd = none
  window : a.windowStart = none ∧ a.windowEnd = none
  scale : a.scale = none
  status : a.embeddingStatus ∈ embeddingStatuses
  version : a.schemaVersion = schemaVersion

theorem validateAtom_ok {b : Atom} (hid : b.atomId ≠ "") (hstart : b.tStart ≠ "")
    (hkind : b.kind ∈ atomKinds) (hstatus : b.embeddingStatus ∈ embeddingStatuses)
    (hscale : b.scale = none) (hnot : b.kind ≠ "summary")
    (hversion : b.schemaVersion = schemaVersion) : validateAtom b = .ok b := by
  have hperiod : ¬ ∃ s ∈ b.scale, s ∉ periodScales := by
    rintro ⟨s, hs, -⟩
    rw [hscale] at hs
    cases hs
  unfold validateAtom
  rw [if_neg hid, if_neg hstart, if_neg (not_not_intro hkind), if_neg (not_not_intro hstatus),
    if_neg hperiod, if_neg (fun hsum => hnot hsum.1), if_neg (not_not_intro hversion)]

theorem fillDefaults_eq (b : Atom) (hstatus : b.embeddingStatus ≠ "")
    (hversion : b.schemaVersion = schemaVersion) : fillDefaults b = b := by
  have hzero : b.schemaVersion ≠ 0 := by
    rw [hversion]
    decide
  unfold fillDefaults
  rw [if_neg hstatus, if_neg hzero]

theorem prepareForPut_puttable {a : Atom} (h : Puttable a) (settings : MemorySettings) :
    ∃ p, prepareForPut settings a = .ok p ∧ Prepared a p := by
  obtain ⟨t, ht, hne⟩ := h.stamp
  have hsource : ∃ ts, stampIso a.sourceBeatTs = .ok ts := by
    rw [h.source, stampIso]
    split_ifs
    · exact ⟨_, rfl⟩
    · rw [ht]
      exact ⟨_, rfl⟩
  obtain ⟨ts, hts⟩ := hsource
  have hstamped : normalizeStamps a = .ok { a with tStart := t, sourceBeatTs := ts } := by
    rw [normalizeStamps, ht, h.tEnd, h.window.1, h.window.2, hts]
    rfl
  have hcap : ∀ b : Atom, isoOr a.tStart a.tStart = .ok b.tStart →
      Prepared { b with tStart := a.tStart } (capContent settings b) ∧
      (capContent settings b).tStart = b.tStart ∧ (capContent settings b).scale = b.scale ∧
      (capContent settings b).embeddingStatus = b.embeddingStatus ∧
      (capContent settings b).schemaVersion = b.schemaVersion := by
    intro b hb
    unfold capContent
    split_ifs
    · refine ⟨⟨rfl, rfl, rfl, rfl, rfl, hb, ?_⟩, rfl, rfl, rfl, rfl⟩
      intro k hk
      exact Dict.get?_set_ne _ _ (Ne.symm hk)
    · exact ⟨⟨rfl, rfl, rfl, rfl, rfl, hb, fun _ _ => rfl⟩, rfl, rfl, rfl, rfl⟩
  obtain ⟨hframe, hstart, hscale, hstatus, hversion⟩ :=
    hcap { a with tStart := t, sourceBeatTs := ts } ht
  have hrun : prepareForPut settings a = validateAtom (fillDefaults (locate settings
      (capContent settings { a with tStart := t, sourceBeatTs := ts }))) := by
    rw [prepareForPut, hstamped]
    rfl
  rw [hrun]
  generalize capContent settings { a with tStart := t, sourceBeatTs := ts } = c at *
  refine ⟨fillDefaults (locate settings c), ?_, ?_⟩
  · have hid : c.atomId ≠ "" := by
      rw [hframe.atomId]
      exact h.atomId
    have hkind : c.kind ∈ atomKinds := by
      rw [hframe.kind]
      exact h.kind.1
    have hnot : c.kind ≠ "summary" := by
      rw [hframe.kind]
      exact h.kind.2
    have hok : c.embeddingStatus ∈ embeddingStatuses := by
      rw [hstatus]
      exact h.status
    have hnonempty : c.embeddingStatus ≠ "" := by
      intro hempty
      rw [hempty] at hok
      revert hok
      decide
    have hver : c.schemaVersion = schemaVersion := hversion.trans h.version
    have hsc : c.scale = none := hscale.trans h.scale
    have hts : c.tStart ≠ "" := by
      rw [hstart]
      exact hne
    rw [fillDefaults_eq (locate settings c) hnonempty hver]
    exact validateAtom_ok hid hts hkind hok hsc hnot hver
  · exact ⟨hframe.atomId, hframe.kind, hframe.momentId, hframe.prev, hframe.next, hframe.tStart,
      hframe.metadata⟩

section Writes

variable [PyCoerce]

/-- A put of such an atom goes through. -/
theorem exec_put {a : Atom} (h : Puttable a) {s : JsonlMemoryStore} (hs : Keyed s) :
    ∃ p t, exec StoreCall.perform (put a) s = (.ok p, t) ∧ Prepared a p ∧
      t.byId = s.byId.set p.atomId p ∧ Keyed t := by
  obtain ⟨p, hp, hprepared⟩ := prepareForPut_puttable h s.settings
  refine ⟨p, after (JsonlMemoryStore.putAtom a s), ?_, hprepared, ?_, ?_⟩
  · show (split (JsonlMemoryStore.putAtom a) s) = _
    rw [Prod.ext_iff, putAtom_reply s a h.kind.2, split_snd]
    exact ⟨hp, rfl⟩
  · have hafter := (after_putAtom s a).2
    rw [hp] at hafter
    exact hafter
  · have hafter := (after_putAtom s a).2
    rw [hp] at hafter
    intro id b hb
    rw [hafter, Dict.get?_set] at hb
    split_ifs at hb with hid
    · obtain rfl := Option.some.inj hb
      exact hid
    · exact hs id b hb

/-- A link that is set changes one row at most. -/
theorem exec_linkNext (prevId nextId : String) {s : JsonlMemoryStore} (hs : Keyed s) :
    ∃ t, exec StoreCall.perform (linkNext prevId nextId) s = (.ok (), t) ∧
      rows t = (rows s).map (linkRow prevId nextId) ∧ Keyed t := by
  let t := after (JsonlMemoryStore.updateLinks prevId .unset (.to (some nextId)) s)
  have hafter := (after_updateLinks s prevId .unset (.to (some nextId))).2
  refine ⟨t, ?_, ?_, ?_⟩
  · have hcall : exec StoreCall.perform
        (Fallible.perform (StoreCall.updateLinks prevId .unset (.to (some nextId)))) s =
        split (JsonlMemoryStore.updateLinks prevId .unset (.to (some nextId))) s := rfl
    rw [linkNext, exec_catch, exec_bind, hcall]
    have hsnd := split_snd (JsonlMemoryStore.updateLinks prevId .unset (.to (some nextId))) s
    generalize split (JsonlMemoryStore.updateLinks prevId .unset (.to (some nextId))) s = r at hsnd
    obtain ⟨reply, u⟩ := r
    obtain rfl : u = t := hsnd
    cases reply <;> rfl
  · change t.byId = _ at hafter
    rw [rows, hafter]
    cases hfound : s.byId.get? prevId with
    | none => exact (map_linkRow_other (hs.fresh hfound)).symm
    | some b =>
      have hb := hs prevId b hfound
      simp only [reduceCtorEq, and_false, if_false]
      rw [Dict.values_set_old s.byId Atom.atomId b.atomId _ b hs (hb ▸ hfound)]
      apply List.map_congr_left
      intro a ha
      unfold linkRow
      rw [hb]
      split_ifs with haid
      · have hself : a = b := by
          rw [← rows, hs.mem_rows, haid, hfound] at ha
          exact (Option.some.inj ha).symm
        rw [hself]
        rfl
      · rfl
  · intro id a ha
    change t.byId.get? id = some a at ha
    change t.byId = _ at hafter
    rw [hafter] at ha
    cases hfound : s.byId.get? prevId with
    | none =>
      rw [hfound] at ha
      exact hs id a ha
    | some b =>
      rw [hfound] at ha
      simp only [reduceCtorEq, and_false, if_false] at ha
      rw [Dict.get?_set] at ha
      split_ifs at ha with hid
      · rw [← Option.some.inj ha]
        exact hid
      · exact hs id a ha

end Writes
end Memory
end Elyra
