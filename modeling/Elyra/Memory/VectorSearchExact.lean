import Elyra.Framework.Effects
import Elyra.Memory.VectorSearch

namespace Elyra.Memory

/-- The bounds of a search are timestamps. -/
structure SearchFilters.Timed (f : SearchFilters) : Prop where
  tStart : ∀ t, f.tStart = some t → ∃ iso, toIsoZ t = .ok iso
  tEnd : ∀ t, f.tEnd = some t → ∃ iso, toIsoZ t = .ok iso

/-- A time inside the bounds. -/
structure SearchFilters.Holds (f : SearchFilters) (time : String) : Prop where
  tStart : ∀ t iso, f.tStart = some t → toIsoZ t = .ok iso → iso ≤ time
  tEnd : ∀ t iso, f.tEnd = some t → toIsoZ t = .ok iso → time < iso

theorem SearchFilters.Timed.tooEarly {f : SearchFilters} (hf : f.Timed) (time : String) :
    ∃ b, f.tooEarly time = .ok b ∧
      (b = false ↔ ∀ t iso, f.tStart = some t → toIsoZ t = .ok iso → iso ≤ time) := by
  rw [SearchFilters.tooEarly]
  cases hs : f.tStart with
  | none => exact ⟨false, rfl, by simp⟩
  | some t =>
    obtain ⟨iso, hiso⟩ := hf.tStart t hs
    refine ⟨decide (time < iso), congrArg (Except.map _) hiso, ?_⟩
    rw [decide_eq_false_iff_not, not_lt]
    constructor
    · rintro hle _ _ ⟨⟩ h
      rw [hiso] at h
      rwa [← Except.ok.inj h]
    · intro h
      exact h t iso rfl hiso

theorem SearchFilters.Timed.tooLate {f : SearchFilters} (hf : f.Timed) (time : String) :
    ∃ b, f.tooLate time = .ok b ∧
      (b = false ↔ ∀ t iso, f.tEnd = some t → toIsoZ t = .ok iso → time < iso) := by
  rw [SearchFilters.tooLate]
  cases he : f.tEnd with
  | none => exact ⟨false, rfl, by simp⟩
  | some t =>
    obtain ⟨iso, hiso⟩ := hf.tEnd t he
    refine ⟨decide (iso ≤ time), congrArg (Except.map _) hiso, ?_⟩
    rw [decide_eq_false_iff_not, not_le]
    constructor
    · rintro hlt _ _ ⟨⟩ h
      rw [hiso] at h
      rwa [← Except.ok.inj h]
    · intro h
      exact h t iso rfl hiso

theorem SearchFilters.Timed.within {f : SearchFilters} (hf : f.Timed) (time : String) :
    ∃ b, f.within time = .ok b ∧ (b = true ↔ f.Holds time) := by
  obtain ⟨early, hearly, hiff⟩ := hf.tooEarly time
  obtain ⟨late, hlate, hiff'⟩ := hf.tooLate time
  refine ⟨!early && !late, ?_, ?_⟩
  · rw [SearchFilters.within, hearly]
    cases early with
    | true => rfl
    | false =>
      show (f.tooLate time >>= fun late => _) = _
      rw [hlate]
      rfl
  · rw [Bool.and_eq_true, Bool.not_eq_true', Bool.not_eq_true', hiff, hiff']
    exact ⟨fun h => ⟨h.1, h.2⟩, fun h => ⟨h.tStart, h.tEnd⟩⟩

/-- A ready atom that meets the filters. -/
structure Passes (a : Atom) (f : SearchFilters) : Prop where
  ready : a.embeddingStatus = "ready"
  admitted : f.rejects a.kind a.momentId = false
  time : ∃ time, toIsoZ a.tStart = .ok time ∧ f.Holds time

/-- A row the filters let through: an atom that passes, or no atom and no filter that reads one. -/
def Allowed (atom : Option Atom) (f : SearchFilters) : Prop :=
  match atom with
  | none => f.plain = true
  | some a => Passes a f

/-- The start of every atom is a timestamp. -/
def Dated (atom : Option Atom) : Prop := ∀ a, atom = some a → ∃ iso, toIsoZ a.tStart = .ok iso

theorem passesFilters_spec {atom : Option Atom} (hd : Dated atom) {f : SearchFilters}
    (hf : f.Timed) (atomId : String) :
    ∃ b, passesFilters atom f atomId = .ok b ∧
      (b = true ↔ atomId ∉ f.excludeAtomIds ∧ Allowed atom f) := by
  unfold passesFilters
  by_cases hid : atomId ∈ f.excludeAtomIds
  · rw [if_pos hid]
    exact ⟨false, rfl, by simp [hid]⟩
  rw [if_neg hid]
  cases atom with
  | none => exact ⟨f.plain, rfl, by simp [hid, Allowed]⟩
  | some a =>
    dsimp only
    by_cases hready : a.embeddingStatus ≠ "ready"
    · rw [if_pos hready]
      exact ⟨false, rfl, iff_of_false Bool.false_ne_true fun h => hready h.2.ready⟩
    rw [if_neg hready]
    by_cases hrejects : f.rejects a.kind a.momentId = true
    · rw [if_pos hrejects]
      refine ⟨false, rfl, iff_of_false Bool.false_ne_true fun h => ?_⟩
      exact Bool.false_ne_true (h.2.admitted.symm.trans hrejects)
    rw [if_neg hrejects]
    obtain ⟨iso, hiso⟩ := hd a rfl
    obtain ⟨b, hb, hiff⟩ := hf.within iso
    refine ⟨b, ?_, ?_⟩
    · rw [hiso]
      exact hb
    · rw [hiff]
      constructor
      · intro h
        exact ⟨hid, not_not.mp hready, Bool.eq_false_iff.mpr hrejects, iso, hiso, h⟩
      · rintro ⟨-, -, -, time, htime, h⟩
        rw [hiso] at htime
        rw [Except.ok.inj htime]
        exact h

/-- The copies of an entry say of the atom what the store says. -/
structure Copies {Vec : Type} (e : RecentBufferEntry Vec) (a : Atom) : Prop where
  kind : e.kind = a.kind
  momentId : e.momentId = a.momentId
  tStart : toIsoZ a.tStart = .ok e.tStart

/-- On an entry whose copies hold the prefilter never lets through what the filters reject. -/
theorem bufferEntryPasses_spec {Vec : Type} (e : RecentBufferEntry Vec) {f : SearchFilters}
    (hf : f.Timed) :
    ∃ b, bufferEntryPasses e f = .ok b ∧ (b = true → e.atomId ∉ f.excludeAtomIds ∧
      ∀ a, Copies e a → a.embeddingStatus = "ready" → Passes a f) := by
  unfold bufferEntryPasses
  by_cases hid : e.atomId ∈ f.excludeAtomIds
  · rw [if_pos hid]
    exact ⟨false, rfl, by simp⟩
  rw [if_neg hid]
  by_cases hkind : (f.kinds.isSome && e.kind = "") = true
  · rw [if_pos hkind]
    exact ⟨false, rfl, by simp⟩
  rw [if_neg hkind]
  by_cases hrejects : f.rejects e.kind e.momentId = true
  · rw [if_pos hrejects]
    exact ⟨false, rfl, by simp⟩
  rw [if_neg hrejects]
  have hadmits : ∀ a, Copies e a → f.rejects a.kind a.momentId = false := by
    intro a ha
    rw [← ha.kind, ← ha.momentId]
    exact Bool.eq_false_iff.mpr hrejects
  by_cases hempty : e.tStart = ""
  · rw [if_pos hempty]
    refine ⟨_, rfl, ?_⟩
    intro hnone
    rw [Bool.and_eq_true, Option.isNone_iff_eq_none, Option.isNone_iff_eq_none] at hnone
    refine ⟨hid, fun a ha hready => ⟨hready, hadmits a ha, e.tStart, ha.tStart, ?_, ?_⟩⟩
    · intro t iso ht
      rw [hnone.1] at ht
      cases ht
    · intro t iso ht
      rw [hnone.2] at ht
      cases ht
  · rw [if_neg hempty]
    obtain ⟨b, hb, hiff⟩ := hf.within e.tStart
    refine ⟨b, hb, ?_⟩
    intro h
    exact ⟨hid, fun a ha hready => ⟨hready, hadmits a ha, e.tStart, ha.tStart, hiff.mp h⟩⟩

section Store

/-- What a put keeps of the facts that the filters read. -/
structure SameFacts (a p : Atom) : Prop where
  atomId : p.atomId = a.atomId
  kind : p.kind = a.kind
  momentId : p.momentId = a.momentId
  tStart : ∀ iso, toIsoZ a.tStart = .ok iso → toIsoZ p.tStart = .ok iso

theorem SameFacts.copies {a p : Atom} (h : SameFacts a p) {Vec : Type}
    {e : RecentBufferEntry Vec} (he : Copies e a) : Copies e p :=
  ⟨he.kind.trans h.kind.symm, he.momentId.trans h.momentId.symm, h.tStart _ he.tStart⟩

theorem toIsoZ_idem {text iso : String} (h : toIsoZ text = .ok iso) : toIsoZ iso = .ok iso := by
  rw [toIsoZ] at h
  cases hu : utcOf text with
  | error e =>
    rw [hu] at h
    cases h
  | ok t =>
    rw [hu] at h
    rw [← Except.ok.inj h]
    exact toIsoZ_isoZ t

theorem normalizeStamps_keeps {a b : Atom} (h : normalizeStamps a = .ok b) : SameFacts a b := by
  obtain ⟨tStart, hstart, h⟩ := except_bind_ok h
  obtain ⟨tEnd, -, h⟩ := except_bind_ok h
  obtain ⟨windowStart, -, h⟩ := except_bind_ok h
  obtain ⟨windowEnd, -, h⟩ := except_bind_ok h
  obtain ⟨sourceBeatTs, -, h⟩ := except_bind_ok h
  rw [← Except.ok.inj h]
  refine ⟨rfl, rfl, rfl, ?_⟩
  intro iso hiso
  rw [isoOr, hiso] at hstart
  rw [← Except.ok.inj hstart]
  exact toIsoZ_idem hiso

theorem prepareForPut_keeps {settings : MemorySettings} {a p : Atom}
    (h : prepareForPut settings a = .ok p) : SameFacts a p := by
  obtain ⟨stamped, hn, hvalid⟩ := except_bind_ok h
  obtain rfl := validateAtom_eq _ p hvalid
  have hkeeps := normalizeStamps_keeps hn
  rw [capContent]
  split_ifs <;> exact ⟨hkeeps.atomId, hkeeps.kind, hkeeps.momentId, hkeeps.tStart⟩

theorem IndexedStore.putAtom_some {s t : IndexedStore} {a : Atom} {fails : Bool}
    (h : s.putAtom a fails = some t) :
    ∃ p, SameFacts a p ∧ ∀ id, t.getAtom id = if a.atomId = id then some p else s.getAtom id := by
  rw [IndexedStore.putAtom] at h
  split_ifs at h
  split at h
  · cases h
  · rename_i p hp
    rw [← Option.some.inj h]
    have hkeeps := prepareForPut_keeps hp
    refine ⟨p, hkeeps, ?_⟩
    intro id
    rw [← hkeeps.atomId]
    exact Dict.get?_set s.byId p.atomId id p

end Store

variable {Vec : Type}

/-- An entry made from a set and an atom. -/
structure BufferedFrom (emb : EmbeddingSet Vec) (atom : Option Atom) (e : RecentBufferEntry Vec) :
    Prop where
  atomId : e.atomId = emb.atomId
  vector : emb.channelVector e.channel = some e.vector
  copies : ∀ a, atom = some a → Copies e a

theorem entryFromEmbAndAtom_spec [PyCoerce] {emb : EmbeddingSet Vec} {c : Channel} {v : Vec}
    (hv : emb.channelVector c = some v) {atom : Option Atom} (hd : Dated atom) (now : String) :
    ∃ e, entryFromEmbAndAtom emb atom now = .ok (some e) ∧ BufferedFrom emb atom e := by
  obtain ⟨channel, vector, hpick⟩ := EmbeddingSet.bufferChannelAndVector_of_vector hv .joint
  have hvec := EmbeddingSet.bufferChannelAndVector_spec hpick
  unfold entryFromEmbAndAtom
  rw [hpick]
  cases atom with
  | none => exact ⟨_, rfl, rfl, hvec, fun a ha => nomatch ha⟩
  | some a =>
    obtain ⟨iso, hiso⟩ := hd a rfl
    dsimp only
    rw [hiso]
    refine ⟨_, rfl, rfl, hvec, ?_⟩
    intro b hb
    obtain rfl := Option.some.inj hb
    exact ⟨rfl, rfl, hiso⟩

/-- The buffer holds only what the dict main holds, and its copies are those of the store. -/
structure Coherent (store : IndexedStore) (byId : Dict String (EmbeddingSet Vec))
    (buffer : RecentBuffer Vec) : Prop where
  stored : ∀ id a, store.getAtom id = some a → a.atomId = id
  dated : ∀ id, Dated (store.getAtom id)
  keyed : ∀ id emb, byId.get? id = some emb → emb.atomId = id
  filled : ∀ id emb, byId.get? id = some emb → ∃ c v, emb.channelVector c = some v
  unused : buffer.maxSize = 0 → ∀ id, buffer.get id = none
  buffered : ∀ id e, buffer.get id = some e →
    e.atomId = id ∧ ∃ emb, byId.get? id = some emb ∧ emb.channelVector e.channel = some e.vector
  copies : ∀ id e a, buffer.get id = some e → store.getAtom id = some a → Copies e a

namespace Coherent

variable {store : IndexedStore} {byId : Dict String (EmbeddingSet Vec)} {buffer : RecentBuffer Vec}

/-- A set goes into the dict main and its entry into the buffer. -/
theorem accept (h : Coherent store byId buffer) {emb : EmbeddingSet Vec} {c : Channel} {v : Vec}
    (hv : emb.channelVector c = some v) {e : RecentBufferEntry Vec}
    (he : BufferedFrom emb (store.getAtom emb.atomId) e) :
    Coherent store (byId.set emb.atomId emb) (buffer.push e) := by
  have hpush : ∀ id x, (buffer.push e).get id = some x →
      (id = emb.atomId ∧ x = e) ∨ (id ≠ emb.atomId ∧ buffer.get id = some x) := by
    intro id x hx
    by_cases hroom : buffer.maxSize = 0
    · rw [RecentBuffer.push, if_pos hroom, h.unused hroom] at hx
      cases hx
    · have hpushed := RecentBuffer.get_push hroom hx
      rwa [he.atomId] at hpushed
  refine ⟨h.stored, h.dated, ?_, ?_, ?_, ?_, ?_⟩
  · intro id x hx
    rw [Dict.get?_set] at hx
    split_ifs at hx with hid
    · rw [← Option.some.inj hx]
      exact hid
    · exact h.keyed id x hx
  · intro id x hx
    rw [Dict.get?_set] at hx
    split_ifs at hx
    · rw [← Option.some.inj hx]
      exact ⟨c, v, hv⟩
    · exact h.filled id x hx
  · intro hroom id
    rw [RecentBuffer.push_maxSize] at hroom
    rw [RecentBuffer.push, if_pos hroom]
    exact h.unused hroom id
  · intro id x hx
    obtain ⟨rfl, rfl⟩ | ⟨hid, hold⟩ := hpush id x hx
    · exact ⟨he.atomId, emb, Dict.get?_set_self _ _ _, he.vector⟩
    · obtain ⟨hsame, old, hget, hvec⟩ := h.buffered id x hold
      exact ⟨hsame, old, (Dict.get?_set_ne byId emb (Ne.symm hid)).trans hget, hvec⟩
  · intro id x a hx ha
    obtain ⟨rfl, rfl⟩ | ⟨-, hold⟩ := hpush id x hx
    · exact he.copies a ha
    · exact h.copies id x a hold ha

/-- A change of the store that keeps the copies true. -/
theorem restore (h : Coherent store byId buffer) {store' : IndexedStore}
    (hnew : ∀ id a, store'.getAtom id = some a → a.atomId = id ∧
      (∃ iso, toIsoZ a.tStart = .ok iso) ∧ ∀ e, buffer.get id = some e → Copies e a) :
    Coherent store' byId buffer :=
  ⟨fun id a ha => (hnew id a ha).1, fun id a ha => (hnew id a ha).2.1, h.keyed, h.filled, h.unused,
    h.buffered, fun id e a he ha => (hnew id a ha).2.2 e he⟩

/-- A put of an atom whose facts the buffer knows. -/
theorem put (h : Coherent store byId buffer) {a : Atom} (hdated : ∃ iso, toIsoZ a.tStart = .ok iso)
    (hcopies : ∀ e, buffer.get a.atomId = some e → Copies e a) {fails : Bool}
    {store' : IndexedStore} (hput : store.putAtom a fails = some store') :
    Coherent store' byId buffer := by
  obtain ⟨p, hsame, hget⟩ := IndexedStore.putAtom_some hput
  apply h.restore
  intro id b hb
  rw [hget] at hb
  split_ifs at hb with hid
  · obtain rfl := Option.some.inj hb
    obtain ⟨iso, hiso⟩ := hdated
    refine ⟨hsame.atomId.trans hid, ⟨iso, hsame.tStart iso hiso⟩, ?_⟩
    intro e he
    rw [← hid] at he
    exact hsame.copies (hcopies e he)
  · exact ⟨h.stored id b hb, h.dated id b hb, fun e he => h.copies id e b he hb⟩

/-- A put of a stored atom with another status and other metadata. -/
theorem putFacts (h : Coherent store byId buffer) {id : String} {a b : Atom}
    (ha : store.getAtom id = some a) (hid : b.atomId = a.atomId) (hkind : b.kind = a.kind)
    (hmoment : b.momentId = a.momentId) (hstart : b.tStart = a.tStart) {fails : Bool}
    {store' : IndexedStore} (hput : store.putAtom b fails = some store') :
    Coherent store' byId buffer := by
  have hown : b.atomId = id := hid.trans (h.stored id a ha)
  apply h.put _ _ hput
  · rw [hstart]
    exact h.dated id a ha
  · intro e he
    rw [hown] at he
    have hcopies := h.copies id e a he ha
    exact ⟨hcopies.kind.trans hkind.symm, hcopies.momentId.trans hmoment.symm,
      hstart ▸ hcopies.tStart⟩

theorem trim (h : Coherent store byId buffer) {buffer' : RecentBuffer Vec}
    (hmax : buffer'.maxSize = buffer.maxSize)
    (hsub : ∀ id e, buffer'.get id = some e → buffer.get id = some e) :
    Coherent store byId buffer' := by
  refine ⟨h.stored, h.dated, h.keyed, h.filled, ?_, ?_, ?_⟩
  · intro hzero id
    rw [hmax] at hzero
    apply Option.eq_none_iff_forall_not_mem.mpr
    intro e he
    have hold := hsub id e he
    rw [h.unused hzero id] at hold
    cases hold
  · exact fun id e he => h.buffered id e (hsub id e he)
  · exact fun id e a he ha => h.copies id e a (hsub id e he) ha

end Coherent

end Elyra.Memory
