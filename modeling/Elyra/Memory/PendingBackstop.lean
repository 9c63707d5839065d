import Elyra.Memory.EncodeOwner
import Elyra.Memory.EncodeQueue
import Elyra.Memory.RangeQueries
import Elyra.Memory.PutSpec

namespace Elyra.Memory

def listAtomsMax : Nat := 200

namespace JsonlMemoryStore

def statusMatch (status : Option String) (a : Atom) : Bool :=
  match status with
  | none => true
  | some st => a.embeddingStatus = st

/-- Listing by status and kinds; `glassCap` caps it at `listAtomsMax`. -/
def listAtoms (s : JsonlMemoryStore) (status : Option String) (kinds : Option (List String))
    (limit : Int) (newestFirst glassCap : Bool) : Except PyErr (List Atom) := do
  let cap := if glassCap then min limit.toNat listAtomsMax else limit.toNat
  let found := s.byId.values.filter fun a => statusMatch status a && kindsMatch kinds a
  let keyed ← found.mapM fun a => return (← startKey a, a)
  let sorted := if newestFirst then sortByDesc Prod.fst keyed else sortBy Prod.fst keyed
  return (sorted.map Prod.snd).take cap

end JsonlMemoryStore

/-- The embedder and the media of a drain: whether media ids resolve to an input, the skipped
inventory of the resolve, and the vectors of an encode that succeeds. -/
structure Encoding where
  resolves : List String → Bool
  skipped : List String → List Json
  forward : Atom → ChannelEmbeddings

/-- `encode_atom` with an embedder whose encodes succeed. -/
def encodeAtom (w : Encoding) (a : Atom) : EncodeResult :=
  if a.kind = "moment_meta" then ⟨"skipped", some "kind_skipped", none, none⟩
  else if strip a.contentText.toList = [] ∧ w.resolves a.mediaIds = false then
    if a.mediaIds ≠ [] then ⟨"failed", some "media_unresolved", none, some (w.skipped a.mediaIds)⟩
    else ⟨"skipped", some "no modalities", none, none⟩
  else ⟨"ready", none, some (w.forward a), some (w.skipped a.mediaIds)⟩

/-- The outcome `failed` of a pass, which is retried. -/
def encodeFailed (r : EncodeResult) : Bool :=
  r.error ≠ some "media_unresolved" && r.status ≠ "skipped" &&
    (r.status = "failed" || r.embeddings.isNone)

structure Backstop where
  store : JsonlMemoryStore
  queue : EncodeQueue

section Rounds

variable [PyCoerce]

/-- `_mark_atom_status`: a put that raises is logged. -/
def markStatus (s : JsonlMemoryStore) (a : Atom) (w : StatusWrite) : JsonlMemoryStore :=
  after (s.putAtom (markAtomStatus a w))

/-- `_mark_overflow`. -/
def markOverflow (q : EncodeQueue) (s : JsonlMemoryStore) (id : String) : JsonlMemoryStore :=
  if id ∈ q.queued then s
  else
    match s.getAtom id with
    | none => s
    | some a =>
      if a.embeddingStatus ∈ ["pending", "none", "failed"] then
        markStatus s a ⟨"skipped", [("embed_error", .str "queue_overflow")]⟩
      else s

/-- One row of a scan. -/
def scanRow (b : Backstop) (a : Atom) : Backstop :=
  if a.atomId ∈ b.queue.queued then b
  else
    let (_, dropped, q) := b.queue.enqueue a.atomId .catchup
    ⟨dropped.foldl (markOverflow q) b.store, q⟩

/-- A listing that raises enqueues nothing. -/
def scanPendingIntoQueue (limit : Int) (b : Backstop) : Backstop :=
  match b.store.listAtoms (some "pending") none limit true true with
  | .error _ => b
  | .ok found => found.foldl scanRow b

/-- The pass over one id, with an index that accepts every upsert: the store, and whether the id is
queued again after the drain. -/
def processed (w : Encoding) (maxAttempts : Int) (s : JsonlMemoryStore) (id : String) :
    JsonlMemoryStore × Bool :=
  match s.getAtom id with
  | none => (s, false)
  | some a =>
    let job : EncodeJob := ⟨id, true, none, .ok (encodeAtom w a), some (.ok true), maxAttempts⟩
    match processOne job a with
    | .error _ => (s, true)
    | .ok none => (s, false)
    | .ok (some write) =>
      let t := markStatus s a write
      (t, encodeFailed (encodeAtom w a) &&
        (t.getAtom id).any fun b => b.embeddingStatus = "pending")

/-- The loop of a drain; `pops` bounds the pops and `left` the items. -/
def drainLoop (w : Encoding) (maxAttempts : Int) : Nat → Nat → List String → Backstop →
    List (String × EncodePriority) → Backstop × List (String × EncodePriority)
  | 0, _, _, b, deferred => (b, deferred)
  | _ + 1, 0, _, b, deferred => (b, deferred)
  | pops + 1, left + 1, seen, b, deferred =>
    match b.queue.popNextBulk with
    | (none, _) => (b, deferred)
    | (some (id, pri), q) =>
      if id ∈ seen then
        drainLoop w maxAttempts pops (left + 1) seen ⟨b.store, q⟩ (deferred ++ [(id, pri)])
      else
        let (s, again) := processed w maxAttempts b.store id
        drainLoop w maxAttempts pops left (id :: seen) ⟨s, q⟩
          (if again then deferred ++ [(id, pri)] else deferred)

/-- A drain of up to `maxItems` without a time limit; what is deferred is queued after it. -/
def drain (w : Encoding) (maxAttempts : Int) (maxItems : Nat) (b : Backstop) : Backstop :=
  let (b', deferred) := drainLoop w (max 1 maxAttempts) (b.queue.p1.length + b.queue.p2.length)
    maxItems [] b []
  ⟨b'.store, deferred.foldl (fun q item => (q.enqueue item.1 item.2).2.2) b'.queue⟩

def round (w : Encoding) (maxAttempts : Int) (limit : Nat) (b : Backstop) : Backstop :=
  drain w maxAttempts limit (scanPendingIntoQueue limit b)

end Rounds


open JsonlMemoryStore

section Listing

variable {s : JsonlMemoryStore} {a : Atom} {k : String ×ₗ String}

def pendingAtoms (s : JsonlMemoryStore) : List Atom :=
  s.byId.values.filter fun a => a.embeddingStatus = "pending"

/-- The start keys of the pending rows, newest first. -/
def backlog (s : JsonlMemoryStore) : List (String ×ₗ String) :=
  sortByDesc id ((pendingAtoms s).filterMap fun a => (startKey a).toOption)

/-- The pending rows have starts that a listing can sort. -/
def DatedBacklog (s : JsonlMemoryStore) : Prop := ∀ a ∈ pendingAtoms s, ∃ k, startKey a = .ok k

theorem startKey_id (h : startKey a = .ok k) : k.2 = a.atomId := by
  obtain ⟨iso, -, h⟩ := except_bind_ok h
  rw [← Except.ok.inj h]
  rfl

theorem mem_pendingAtoms (hs : Keyed s) : a ∈ pendingAtoms s ↔
    s.getAtom a.atomId = some a ∧ a.embeddingStatus = "pending" := by
  rw [pendingAtoms, List.mem_filter, Dict.mem_values, decide_eq_true_eq]
  constructor
  · rintro ⟨⟨id, hid⟩, ha⟩
    rw [hs id a hid]
    exact ⟨hid, ha⟩
  · rintro ⟨hrow, ha⟩
    exact ⟨⟨a.atomId, hrow⟩, ha⟩

theorem mem_keys_pending : k ∈ (pendingAtoms s).filterMap (fun a => (startKey a).toOption) ↔
    ∃ a ∈ pendingAtoms s, startKey a = .ok k := by
  rw [List.mem_filterMap]
  constructor
  · rintro ⟨a, ha, hk⟩
    cases hkey : startKey a with
    | error e =>
      rw [hkey] at hk
      cases hk
    | ok l =>
      rw [hkey] at hk
      cases hk
      exact ⟨a, ha, hkey⟩
  · rintro ⟨a, ha, hk⟩
    exact ⟨a, ha, by rw [hk]; rfl⟩

theorem mem_backlog (hs : Keyed s) : k ∈ backlog s ↔
    ∃ a, s.getAtom k.2 = some a ∧ a.embeddingStatus = "pending" ∧ startKey a = .ok k := by
  rw [backlog, (sortByDesc_perm _ _).mem_iff, mem_keys_pending]
  constructor
  · rintro ⟨a, ha, hk⟩
    obtain ⟨hrow, hpending⟩ := (mem_pendingAtoms hs).mp ha
    rw [startKey_id hk]
    exact ⟨a, hrow, hpending, hk⟩
  · rintro ⟨a, hrow, hpending, hk⟩
    rw [startKey_id hk] at hrow
    exact ⟨a, (mem_pendingAtoms hs).mpr ⟨hrow, hpending⟩, hk⟩

theorem pendingAtoms_ids_nodup (hs : Keyed s) : ((pendingAtoms s).map Atom.atomId).Nodup := by
  have hids : s.byId.values.map Atom.atomId = s.byId.keys := by
    rw [Dict.values, Dict.keys, List.map_map]
    apply List.map_congr_left
    intro e he
    exact hs e.1 e.2 ((Dict.get?_eq_some_iff s.byId e.1 e.2).mpr he)
  have hsub : ((pendingAtoms s).map Atom.atomId).Sublist (s.byId.values.map Atom.atomId) :=
    List.filter_sublist.map Atom.atomId
  rw [hids] at hsub
  exact s.byId.keys_nodup.sublist hsub

theorem backlog_pairwise (hs : Keyed s) : (backlog s).Pairwise fun k l => l < k := by
  have hnodup : ((pendingAtoms s).filterMap fun a => (startKey a).toOption).Nodup := by
    have hpairs : (pendingAtoms s).Pairwise fun a b => a.atomId ≠ b.atomId :=
      List.pairwise_map.mp (pendingAtoms_ids_nodup hs)
    refine List.Pairwise.filterMap _ ?_ hpairs
    intro a b hne k hk l hl heq
    have hka : startKey a = .ok k := by
      cases hkey : startKey a <;> simp_all [Except.toOption]
    have hlb : startKey b = .ok l := by
      cases hkey : startKey b <;> simp_all [Except.toOption]
    apply hne
    rw [← startKey_id hka, ← startKey_id hlb, heq]
  have hdistinct : (backlog s).Nodup := (sortByDesc_perm _ _).nodup_iff.mpr hnodup
  refine (List.Pairwise.and (pairwise_sortByDesc _ _) hdistinct).imp ?_
  rintro k l ⟨hle, hne⟩
  exact lt_of_le_of_ne hle (Ne.symm hne)

/-- The window of a listing holds the newest of the pending rows. -/
theorem listAtoms_dated (hs : DatedBacklog s) (limit : Int) :
    ∃ found, s.listAtoms (some "pending") none limit true true = .ok found ∧
      found.map Atom.atomId = ((backlog s).take (min limit.toNat listAtomsMax)).map (·.2) ∧
      ∀ a ∈ found, a ∈ pendingAtoms s := by
  obtain ⟨keyed, hkeyed⟩ := @mapM_keyed_total _ _ startKey (pendingAtoms s) hs
  obtain ⟨hsnd, hkeys⟩ := mapM_keyed (pendingAtoms s) keyed hkeyed
  have hperm := sortByDesc_perm Prod.fst keyed
  have hfilter : (s.byId.values.filter fun a => statusMatch (some "pending") a &&
      kindsMatch none a) = pendingAtoms s := by
    simp [statusMatch, kindsMatch, pendingAtoms]
  have hfst : keyed.map Prod.fst = (pendingAtoms s).filterMap fun a => (startKey a).toOption := by
    rw [← hsnd, List.filterMap_map, ← List.filterMap_eq_map]
    apply List.filterMap_congr
    intro p hp
    rw [Function.comp_apply, Function.comp_apply, hkeys p hp]
    rfl
  have hsorted : (sortByDesc Prod.fst keyed).map Prod.fst = backlog s := by
    refine @List.Perm.eq_of_pairwise _ (fun k l => l ≤ k) _ _ ?_ ?_ ?_ ?_
    · exact fun k l _ _ hkl hlk => le_antisymm hlk hkl
    · exact List.pairwise_map.mpr (pairwise_sortByDesc Prod.fst keyed)
    · exact pairwise_sortByDesc _ _
    · refine (hperm.map Prod.fst).trans ?_
      rw [hfst]
      exact (sortByDesc_perm _ _).symm
  refine ⟨((sortByDesc Prod.fst keyed).map Prod.snd).take (min limit.toNat listAtomsMax),
    ?_, ?_, ?_⟩
  · rw [listAtoms, hfilter, hkeyed]
    rfl
  · rw [← hsorted, ← List.map_take, ← List.map_take, List.map_map, List.map_map]
    apply List.map_congr_left
    intro p hp
    have hmem : p ∈ keyed := hperm.mem_iff.mp (List.mem_of_mem_take hp)
    exact (startKey_id (hkeys p hmem)).symm
  · intro a ha
    obtain ⟨p, hp, rfl⟩ := List.mem_map.mp (List.mem_of_mem_take ha)
    rw [← hsnd]
    exact List.mem_map_of_mem (hperm.mem_iff.mp hp)

/-- A pending start that does not parse stops every listing. -/
theorem listAtoms_undated (hs : ¬DatedBacklog s) (limit : Int) :
    ∃ e, s.listAtoms (some "pending") none limit true true = .error e := by
  cases h : s.listAtoms (some "pending") none limit true true with
  | error e => exact ⟨e, rfl⟩
  | ok found =>
    exfalso
    apply hs
    obtain ⟨keyed, hkeyed, -⟩ := except_bind_ok h
    obtain ⟨hsnd, hkeys⟩ := mapM_keyed _ keyed hkeyed
    intro a ha
    have hmem : a ∈ keyed.map Prod.snd := by
      rw [hsnd]
      simpa [statusMatch, kindsMatch, pendingAtoms] using ha
    obtain ⟨p, hp, rfl⟩ := List.mem_map.mp hmem
    exact ⟨p.1, hkeys p hp⟩

theorem countP_backlog (hdated : DatedBacklog s) {p : String ×ₗ String → Bool}
    {q : Atom → Bool} (hpq : ∀ c ∈ pendingAtoms s, ∀ k, startKey c = .ok k → p k = q c) :
    (backlog s).countP p = (pendingAtoms s).countP q := by
  rw [backlog, (sortByDesc_perm _ _).countP_eq, List.countP_filterMap]
  apply List.countP_congr
  intro c hc
  obtain ⟨k, hk⟩ := hdated c hc
  rw [hk]
  simp [Except.toOption, hpq c hc k hk]

theorem length_backlog (hdated : DatedBacklog s) : (backlog s).length = (pendingAtoms s).length := by
  have hcount := @countP_backlog s hdated (fun _ => true) (fun _ => true) (fun _ _ _ _ => rfl)
  simpa using hcount

end Listing
end Elyra.Memory
