import Elyra.Framework.Run
import Elyra.Memory.EdgeStores

namespace Elyra.Memory

open Json EdgeIndex EdgeStore

/-- The same calls on a store of each kind; either one may be closed and opened again. -/
inductive EdgeCall where
  | putEdge (edge : DurableEdge)
  | deleteEdge (id : String)
  | replaceEdgesOfKind (src kind : String) (edges : List DurableEdge)
  | reopenJsonl (now : Instant)
  | reopenLance (scan : Scan) (now : Instant)

structure Backends where
  jsonl : EdgeStore JsonlFile
  lance : EdgeStore LanceTable

/-- Both stores on an empty directory. -/
def freshBackends : Backends := ⟨⟨.empty, ⟨.empty⟩, 0⟩, ⟨.empty, ⟨.empty⟩, 0⟩⟩

section Step

variable [PyCoerce] [PyFloat] (stampAt : Nat → Stamp)

def reopenJsonl (now : Instant) : Py (EdgeStore JsonlFile) Unit := fun s =>
  match JsonlEdgeStore.load s.disk (isoZ now) with
  | .ok ix => .ok () { s with index := ix }
  | .error e => .error e s

def reopenLance (scan : Scan) (now : Instant) : Py (EdgeStore LanceTable) Unit := fun s =>
  match LanceEdgeStore.load s.disk scan (isoZ now) with
  | .ok ix => .ok () { s with index := ix }
  | .error e => .error e s

def edgeStep (b : Backends) : EdgeCall → Backends
  | .putEdge edge => ⟨after (putEdge stampAt edge b.jsonl), after (putEdge stampAt edge b.lance)⟩
  | .deleteEdge id => ⟨after (deleteEdge id b.jsonl), after (deleteEdge id b.lance)⟩
  | .replaceEdgesOfKind src kind edges =>
    ⟨after (replaceEdgesOfKind stampAt src kind edges b.jsonl),
      after (replaceEdgesOfKind stampAt src kind edges b.lance)⟩
  | .reopenJsonl now => { b with jsonl := after (reopenJsonl now b.jsonl) }
  | .reopenLance scan now => { b with lance := after (reopenLance scan now b.lance) }

end Step

/-- Both entries name one id. -/
def SameId (e f : DurableEdge) : Prop := e.edgeId ≠ "" ∧ e.edgeId = f.edgeId

/-- No entry takes the destination of an earlier entry of another id, unless that id was put on
another destination in between. -/
def Undisplaced (edges : List DurableEdge) : Prop :=
  ∀ before e between f rest, edges = before ++ e :: (between ++ f :: rest) →
    e.dstAtomId = f.dstAtomId →
    SameId e f ∨ ∃ m ∈ between, SameId e m ∧ m.dstAtomId ≠ e.dstAtomId

/-- The condition on a call: a replacement list displaces none of its own entries. -/
def NoDisplacement : EdgeCall → Prop
  | .replaceEdgesOfKind _ _ edges => Undisplaced edges
  | _ => True

/-- What a reader of two stores can compare. -/
structure SameEdges (a b : EdgeIndex) : Prop where
  edges : ∀ e, e ∈ a.edges ↔ e ∈ b.edges
  atKey : ∀ key, a.atKey key = b.atKey key
  listFrom : ∀ src kinds limit, a.listEdgesFrom src kinds limit = b.listEdgesFrom src kinds limit
  listTo : ∀ dst kinds limit, a.listEdgesTo dst kinds limit = b.listEdgesTo dst kinds limit

theorem sameEdges_of_same {a b : EdgeIndex} (hs : Same a b) (ha : Coherent a) (hb : Coherent b) :
    SameEdges a b where
  edges := hs.edges ha hb
  atKey := hs.atKey ha hb
  listFrom src kinds limit := (hs.lists ha hb src kinds limit).1
  listTo dst kinds limit := (hs.lists ha hb dst kinds limit).2

/-- The claim about one state: the stores hold the same edges, one for each key, and reading
either back gives them again. -/
def StoresAgree [PyCoerce] [PyFloat] (b : Backends) : Prop :=
  SameEdges b.jsonl.index b.lance.index ∧
    (∀ e ∈ b.jsonl.index.edges, ∀ f ∈ b.jsonl.index.edges,
      e.identityKey = f.identityKey → e = f) ∧
    (∀ now, ∃ ix, JsonlEdgeStore.load b.jsonl.disk (isoZ now) = .ok ix ∧
      SameEdges ix b.jsonl.index) ∧
    ∀ scan now, ∃ ix, LanceEdgeStore.load b.lance.disk scan (isoZ now) = .ok ix ∧
      SameEdges ix b.lance.index

/-- The invariant of a run: each store persists its index and the indexes agree. -/
structure Agree (j : EdgeStore JsonlFile) (l : EdgeStore LanceTable) : Prop where
  jsonl : JsonlHolds j
  lance : LanceHolds l
  same : Same j.index l.index
  stamps : j.stamps = l.stamps

namespace Agree

variable {j : EdgeStore JsonlFile} {l : EdgeStore LanceTable}

theorem fresh : Agree freshBackends.jsonl freshBackends.lance where
  jsonl := ⟨⟨[], rfl, by simp, rfl⟩, coherent_empty, fun i e h => by cases h⟩
  lance := ⟨fun i => rfl, coherent_empty, fun i e h => by cases h⟩
  same i := rfl
  stamps := rfl

theorem tick (h : Agree j l) :
    Agree { j with stamps := j.stamps + 1 } { l with stamps := l.stamps + 1 } where
  jsonl := ⟨h.jsonl.log, h.jsonl.coherent, h.jsonl.stored⟩
  lance := ⟨h.lance.rows, h.lance.coherent, h.lance.stored⟩
  same := h.same
  stamps := congrArg (· + 1) h.stamps

theorem keep (h : Agree j l) (p : DurableEdge) (hp : Stored p)
    (hfree : ∀ i, l.index.byKey.get? p.identityKey = some i → i = p.edgeId) :
    Agree (j.keep p) (l.keep p) where
  jsonl := h.jsonl.keep p hp
  lance := h.lance.keep p hp hfree
  same i := by
    have hfind : j.index.find = l.index.find := funext h.same
    show (j.index.indexPut p).find i = (l.index.indexPut p).find i
    rw [find_indexPut h.jsonl.coherent, find_indexPut h.lance.coherent, hfind]
  stamps := h.stamps

theorem discard (h : Agree j l) (id : String) (hid : id ≠ "") :
    Agree (j.discard id) (l.discard id) where
  jsonl := h.jsonl.discard id hid
  lance := h.lance.discard id
  same i := by
    show (j.index.indexRemove id).find i = (l.index.indexRemove id).find i
    rw [find_indexRemove, find_indexRemove, h.same]
  stamps := h.stamps

end Agree

section Discards

variable {δ : Type}

theorem find_discardAll [EdgeDisk δ] (ids : List String) (s : EdgeStore δ) (j : String) :
    (discardAll ids s).index.find j = if j ∈ ids then none else s.index.find j := by
  induction ids generalizing s with
  | nil => rw [if_neg (by simp)]; rfl
  | cons id ids ih =>
    have hstep : (s.discard id).index.find j = if j = id then none else s.index.find j :=
      find_indexRemove s.index id j
    have hcons : discardAll (id :: ids) s = discardAll ids (s.discard id) := rfl
    rw [hcons, ih, hstep]
    by_cases hj : j ∈ ids
    · simp [hj]
    · simp [hj]

end Discards

theorem jsonlHolds_discardAll (ids : List String) (s : EdgeStore JsonlFile) (h : JsonlHolds s)
    (hids : ∀ i ∈ ids, i ≠ "") :
    JsonlHolds (discardAll ids s) ∧ (discardAll ids s).stamps = s.stamps := by
  induction ids generalizing s with
  | nil => exact ⟨h, rfl⟩
  | cons id ids ih =>
    exact ih (s.discard id) (h.discard id (hids id (by simp))) (fun i hi => hids i (by simp [hi]))

theorem lanceHolds_discardAll (ids : List String) (s : EdgeStore LanceTable) (h : LanceHolds s) :
    LanceHolds (discardAll ids s) ∧ (discardAll ids s).stamps = s.stamps := by
  induction ids generalizing s with
  | nil => exact ⟨h, rfl⟩
  | cons id ids ih => exact ih (s.discard id) (h.discard id)

/-- Removing all edges of a kind keeps the stores in step, in whatever order each removes them. -/
theorem Agree.removeKind {j : EdgeStore JsonlFile} {l : EdgeStore LanceTable} (h : Agree j l)
    (src kind : String) :
    Agree (discardAll ((j.ofKind src kind).map DurableEdge.edgeId) j)
      (discardAll ((l.ofKind src kind).map DurableEdge.edgeId) l) := by
  have hids := ofKind_ids_ne_empty ⟨h.jsonl.coherent, h.jsonl.stored⟩ src kind
  obtain ⟨hj, hjs⟩ := jsonlHolds_discardAll _ j h.jsonl hids
  obtain ⟨hl, hls⟩ := lanceHolds_discardAll ((l.ofKind src kind).map DurableEdge.edgeId) l h.lance
  refine ⟨hj, hl, ?_, by rw [hjs, hls, h.stamps]⟩
  intro i
  have hfind : j.index.find = l.index.find := funext h.same
  rw [find_discardAll, find_discardAll]
  simp only [mem_ofKind h.jsonl.coherent, mem_ofKind h.lance.coherent, hfind]

/-- After the removal no edge of the source and kind is left. -/
theorem removeKind_free {l : EdgeStore LanceTable} (h : LanceHolds l) (src kind dst : String) :
    (discardAll ((l.ofKind src kind).map DurableEdge.edgeId) l).index.byKey.get?
      (src, dst, kind) = none := by
  obtain ⟨hl, -⟩ := lanceHolds_discardAll ((l.ofKind src kind).map DurableEdge.edgeId) l h
  cases hk : (discardAll ((l.ofKind src kind).map DurableEdge.edgeId) l).index.byKey.get?
      (src, dst, kind) with
  | none => rfl
  | some i =>
    obtain ⟨e, he, hkey⟩ := (hl.coherent.keys _ i).mp hk
    rw [find_discardAll] at he
    split_ifs at he with hm
    have hsrc : e.srcAtomId = src := congrArg Prod.fst hkey
    have hkind : e.edgeKind = kind := congrArg (fun k => k.2.2) hkey
    exact absurd ((mem_ofKind h.coherent src kind i).mpr ⟨e, he, hsrc, hkind⟩) hm

section Runs

variable [PyCoerce] [PyFloat] (stampAt : Nat → Stamp)

/-- Each key of the source and kind is held by the last entry put there, under its own id. -/
def HeldBy (done : List DurableEdge) (src kind : String) (ix : EdgeIndex) : Prop :=
  ∀ dst i, ix.byKey.get? (src, dst, kind) = some i →
    ∃ before e after, done = before ++ e :: after ∧ e.dstAtomId = dst ∧
      (e.edgeId ≠ "" → e.edgeId = i) ∧ ∀ m ∈ after, m.edgeId ≠ "" → m.edgeId = i → m.dstAtomId = dst

omit [PyCoerce] [PyFloat] in
/-- Under the condition on the list, the next entry finds its key free or its own. -/
theorem HeldBy.free {done : List DurableEdge} {src kind : String} {ix : EdgeIndex}
    (hheld : HeldBy done src kind ix) (f p : DurableEdge) (rest : List DurableEdge)
    (hund : Undisplaced (done ++ f :: rest)) (hkey : p.identityKey = (src, f.dstAtomId, kind))
    (hid : f.edgeId ≠ "" → p.edgeId = f.edgeId) :
    ∀ i, ix.byKey.get? p.identityKey = some i → i = p.edgeId := by
  intro i hi
  rw [hkey] at hi
  obtain ⟨before, e, between, hdone, hdst, heid, hkeep⟩ := hheld f.dstAtomId i hi
  have hsplit : done ++ f :: rest = before ++ e :: (between ++ f :: rest) := by
    rw [hdone]
    simp
  obtain hsame | ⟨m, hm, hsame, hne⟩ := hund before e between f rest hsplit hdst
  · have hf : f.edgeId ≠ "" := by
      rw [← hsame.2]
      exact hsame.1
    rw [hid hf, ← hsame.2, heid hsame.1]
  · have hmid : m.edgeId = i := hsame.2.symm.trans (heid hsame.1)
    have hmne : m.edgeId ≠ "" := by
      rw [← hsame.2]
      exact hsame.1
    rw [hkeep m hm hmne hmid, hdst] at hne
    exact absurd rfl hne

omit [PyCoerce] [PyFloat] in
theorem HeldBy.put {done : List DurableEdge} {src kind : String} {ix : EdgeIndex}
    (hheld : HeldBy done src kind ix) (hc : Coherent ix) (f p : DurableEdge)
    (hkey : p.identityKey = (src, f.dstAtomId, kind))
    (hid : f.edgeId ≠ "" → p.edgeId = f.edgeId)
    (hfree : ∀ i, ix.byKey.get? p.identityKey = some i → i = p.edgeId) :
    HeldBy (done ++ [f]) src kind (ix.indexPut p) := by
  intro dst i hi
  obtain ⟨e, he, hek⟩ := ((hc.put p).keys _ i).mp hi
  rw [find_indexPut_of_free hc p hfree] at he
  by_cases hip : i = p.edgeId
  · rw [if_pos hip] at he
    rw [← Option.some.inj he, hkey] at hek
    have hdst : f.dstAtomId = dst := congrArg (fun k => k.2.1) hek
    exact ⟨done, f, [], rfl, hdst, fun hne => by rw [hip, hid hne], by simp⟩
  · rw [if_neg hip] at he
    obtain ⟨before, g, between, hdone, hdst, hgid, hkeep⟩ :=
      hheld dst i ((hc.keys _ i).mpr ⟨e, he, hek⟩)
    refine ⟨before, g, between ++ [f], by rw [hdone]; simp, hdst, hgid, ?_⟩
    intro m hm hne hmi
    rcases List.mem_append.mp hm with hm | hm
    · exact hkeep m hm hne hmi
    · rw [List.mem_singleton.mp hm] at hne hmi
      exact absurd (hmi.symm.trans (hid hne).symm) hip

omit [PyCoerce] [PyFloat] in
theorem agree_storeAll (src kind : String) (rest done : List DurableEdge)
    (j : EdgeStore JsonlFile) (l : EdgeStore LanceTable) (h : Agree j l)
    (hheld : HeldBy done src kind l.index) (hund : Undisplaced (done ++ rest)) :
    Agree (after (storeAll stampAt src kind rest j)) (after (storeAll stampAt src kind rest l)) := by
  induction rest generalizing done j l with
  | nil => exact h
  | cons f rest ih =>
    rw [after_storeAll_cons, after_storeAll_cons, h.stamps]
    cases hp : prepareEdgeForPut { f with srcAtomId := src, edgeKind := kind } none
        (stampAt l.stamps) with
    | error e =>
      have ht := h.tick
      rw [h.stamps] at ht
      exact ht
    | ok p =>
      obtain ⟨hstored, hkey⟩ := prepare_spec _ p none _ hp (by simp)
      have hpid := prepare_edgeId _ p none _ hp
      have hid : f.edgeId ≠ "" → p.edgeId = f.edgeId := by
        intro hne
        rw [hpid]
        exact if_neg hne
      have hfree := hheld.free f p rest hund hkey hid
      have ht := (h.tick).keep p hstored hfree
      rw [h.stamps] at ht
      apply ih (done ++ [f]) _ _ ht (hheld.put h.lance.coherent f p hkey hid hfree)
      rw [List.append_assoc]
      exact hund

omit [PyCoerce] [PyFloat] in
theorem agree_putEdge (edge : DurableEdge) (j : EdgeStore JsonlFile) (l : EdgeStore LanceTable)
    (h : Agree j l) :
    Agree (after (putEdge stampAt edge j)) (after (putEdge stampAt edge l)) := by
  have hat := h.same.atKey h.jsonl.coherent h.lance.coherent edge.identityKey
  rw [putEdge_eq, putEdge_eq, hat, h.stamps]
  cases hp : prepareEdgeForPut edge (l.index.atKey edge.identityKey) (stampAt l.stamps) with
  | error e =>
    have ht := h.tick
    rw [h.stamps] at ht
    exact ht
  | ok p =>
    have hold : ∀ old ∈ l.index.atKey edge.identityKey, Stored old ∧
        l.index.byKey.get? edge.identityKey = some old.edgeId :=
      fun old ho => h.lance.stored.atKey h.lance.coherent _ old ho
    obtain ⟨hstored, -⟩ := prepare_spec _ p _ _ hp (fun old ho => (hold old ho).1)
    have hsame := prepare_replaces _ p _ _ hp
    have hfree := prepare_free h.lance.coherent h.lance.stored edge p _ hp
    have ht := (h.tick).keep p hstored hfree
    rw [h.stamps] at ht
    dsimp only
    rw [dropReplaced_self _ p _ hsame, dropReplaced_self _ p _ hsame]
    exact ht

omit [PyCoerce] [PyFloat] in
theorem agree_deleteEdge (id : String) (j : EdgeStore JsonlFile) (l : EdgeStore LanceTable)
    (h : Agree j l) : Agree (after (deleteEdge id j)) (after (deleteEdge id l)) := by
  rw [deleteEdge, deleteEdge, h.same id]
  cases hf : l.index.find id with
  | none => exact h
  | some e =>
    rw [if_neg (by simp), if_neg (by simp)]
    apply h.discard id
    rw [← h.lance.coherent.ids id e hf]
    exact (h.lance.stored id e hf).edgeId

omit [PyCoerce] [PyFloat] in
theorem agree_replace (src kind : String) (edges : List DurableEdge) (j : EdgeStore JsonlFile)
    (l : EdgeStore LanceTable) (h : Agree j l) (hund : Undisplaced edges) :
    Agree (after (replaceEdgesOfKind stampAt src kind edges j))
      (after (replaceEdgesOfKind stampAt src kind edges l)) := by
  apply agree_storeAll stampAt src kind edges [] _ _ (h.removeKind src kind)
  · intro dst i hi
    rw [removeKind_free h.lance] at hi
    cases hi
  · exact hund

theorem JsonlHolds.reopenStep {s : EdgeStore JsonlFile} (h : JsonlHolds s) (now : Instant) :
    after (reopenJsonl now s) = s := by
  rw [reopenJsonl, h.reopen (isoZ now)]
  rfl

/-- Every call that meets the condition keeps the stores in step. -/
theorem agree_step (b : Backends) (call : EdgeCall) (hcall : NoDisplacement call)
    (h : Agree b.jsonl b.lance) :
    Agree (edgeStep stampAt b call).jsonl (edgeStep stampAt b call).lance := by
  cases call with
  | putEdge edge => exact agree_putEdge stampAt edge b.jsonl b.lance h
  | deleteEdge id => exact agree_deleteEdge id b.jsonl b.lance h
  | replaceEdgesOfKind src kind edges =>
    exact agree_replace stampAt src kind edges b.jsonl b.lance h hcall
  | reopenJsonl now =>
    have hsame := h.jsonl.reopenStep now
    show Agree (after (reopenJsonl now b.jsonl)) b.lance
    rw [hsame]
    exact h
  | reopenLance scan now =>
    obtain ⟨ix, hload, hcoh, hsame⟩ := h.lance.reopen scan (isoZ now)
    have hopen : after (reopenLance scan now b.lance) = { b.lance with index := ix } := by
      rw [reopenLance, hload]
      rfl
    show Agree b.jsonl (after (reopenLance scan now b.lance))
    rw [hopen]
    refine ⟨h.jsonl, ⟨?_, hcoh, ?_⟩, ?_, h.stamps⟩
    · intro i
      rw [hsame i]
      exact h.lance.rows i
    · intro i e he
      rw [hsame i] at he
      exact h.lance.stored i e he
    · intro i
      rw [hsame i]
      exact h.same i

theorem storesAgree_of_agree (b : Backends) (h : Agree b.jsonl b.lance) : StoresAgree b := by
  refine ⟨sameEdges_of_same h.same h.jsonl.coherent h.lance.coherent, ?_, ?_, ?_⟩
  · intro e he f hf hk
    rw [mem_edges h.jsonl.coherent] at he hf
    exact h.jsonl.coherent.unique e f he hf hk
  · intro now
    refine ⟨b.jsonl.index, h.jsonl.reopen (isoZ now), ?_⟩
    exact sameEdges_of_same (fun i => rfl) h.jsonl.coherent h.jsonl.coherent
  · intro scan now
    obtain ⟨ix, hload, hcoh, hsame⟩ := h.lance.reopen scan (isoZ now)
    exact ⟨ix, hload, sameEdges_of_same hsame hcoh h.lance.coherent⟩

/-- In every run whose replacement lists displace none of their own entries, the two stores agree
and survive reopening in every state reached. -/
theorem edge_stores_agree (calls : List EdgeCall) (hcalls : ∀ c ∈ calls, NoDisplacement c) :
    StoresAgree (run (edgeStep stampAt) freshBackends calls) := by
  apply storesAgree_of_agree
  have halong : Along (edgeStep stampAt) (fun _ c => NoDisplacement c) freshBackends calls := by
    generalize freshBackends = b
    induction calls generalizing b with
    | nil => trivial
    | cons c calls ih =>
      exact ⟨hcalls c (by simp), ih (fun d hd => hcalls d (by simp [hd])) _⟩
  exact halong.invariant (fun b => Agree b.jsonl b.lance)
    (fun b c hc hb => agree_step stampAt b c hc hb) freshBackends calls Agree.fresh

end Runs

section Reachable

theorem jsonlHolds_preserved : Preserved JsonlHolds where
  sound _ h := ⟨h.coherent, h.stored⟩
  keep _ p hp h := h.keep p hp
  discard _ id hid h := h.discard id hid
  tick _ h := ⟨h.log, h.coherent, h.stored⟩

/-- Every row of the table is the row of a stored edge, whether the index knows it or not. -/
structure LanceSound (s : EdgeStore LanceTable) : Prop where
  sound : SoundIndex s.index
  rows : ∀ i row, s.disk.rows.get? i = some row → ∃ e, Stored e ∧ row = edgeToLanceRow e

theorem lanceSound_preserved : Preserved LanceSound where
  sound s h := h.sound
  keep s p hp h := by
    refine ⟨h.sound.put p hp, ?_⟩
    intro i row hrow
    have hset : (s.keep p).disk.rows = s.disk.rows.set p.edgeId (edgeToLanceRow p) := rfl
    rw [hset, Dict.get?_set] at hrow
    split_ifs at hrow
    · exact ⟨p, hp, (Option.some.inj hrow).symm⟩
    · exact h.rows i row hrow
  discard s id _ h := by
    refine ⟨h.sound.remove id, ?_⟩
    intro i row hrow
    have hpop : (s.discard id).disk.rows = s.disk.rows.pop id := rfl
    rw [hpop, Dict.get?_pop] at hrow
    split_ifs at hrow
    exact h.rows i row hrow
  tick s h := ⟨h.sound, h.rows⟩

variable [PyCoerce] [PyFloat] (stampAt : Nat → Stamp)

theorem LanceSound.reopen {s : EdgeStore LanceTable} (h : LanceSound s) (scan : Scan)
    (now : Instant) : LanceSound (after (reopenLance scan now s)) := by
  have hrows : ∀ row ∈ scan.rows s.disk.rows.values,
      ∃ e, Stored e ∧ durableEdgeFromDict row (isoZ now) = .ok e := by
    intro row hrow
    obtain ⟨i, hi⟩ := (Dict.mem_values _ row).mp ((scan.perm _).mem_iff.mp hrow)
    obtain ⟨e, he, rfl⟩ := h.rows i row hi
    exact ⟨e, he, fromDict_lanceRow e _ he⟩
  have hfold : ∀ (rows : List (List (String × Json))) (ix : EdgeIndex), SoundIndex ix →
      (∀ row ∈ rows, ∃ e, Stored e ∧ durableEdgeFromDict row (isoZ now) = .ok e) →
      ∃ out, rows.foldlM (fun ix row => putDecoded ix (durableEdgeFromDict row (isoZ now))) ix =
        .ok out ∧ SoundIndex out := by
    intro rows
    induction rows with
    | nil => exact fun ix hix _ => ⟨ix, rfl, hix⟩
    | cons row rows ih =>
      intro ix hix hall
      obtain ⟨e, he, hdec⟩ := hall row (by simp)
      obtain ⟨out, hout, hsound⟩ :=
        ih (ix.indexPut e) (hix.put e he) (fun r hr => hall r (by simp [hr]))
      refine ⟨out, ?_, hsound⟩
      rw [List.foldlM_cons, hdec]
      exact hout
  obtain ⟨out, hout, hsound⟩ := hfold (scan.rows s.disk.rows.values) .empty
    ⟨coherent_empty, fun i e he => by cases he⟩ hrows
  rw [reopenLance, LanceEdgeStore.load, hout]
  exact ⟨hsound, h.rows⟩

/-- After any calls, displacing or not, the JSONL log replays to the index and both indexes are
sound. -/
theorem reachable_sound (calls : List EdgeCall) :
    JsonlHolds (run (edgeStep stampAt) freshBackends calls).jsonl ∧
      LanceSound (run (edgeStep stampAt) freshBackends calls).lance := by
  apply run_invariant (fun b : Backends => JsonlHolds b.jsonl ∧ LanceSound b.lance)
  · intro b call hb
    obtain ⟨hj, hl⟩ := hb
    cases call with
    | putEdge edge =>
      exact ⟨jsonlHolds_preserved.putEdge stampAt edge _ hj,
        lanceSound_preserved.putEdge stampAt edge _ hl⟩
    | deleteEdge id =>
      exact ⟨jsonlHolds_preserved.deleteEdge id _ hj, lanceSound_preserved.deleteEdge id _ hl⟩
    | replaceEdgesOfKind src kind edges =>
      exact ⟨jsonlHolds_preserved.replaceEdgesOfKind stampAt src kind edges _ hj,
        lanceSound_preserved.replaceEdgesOfKind stampAt src kind edges _ hl⟩
    | reopenJsonl now =>
      have hsame := hj.reopenStep now
      refine ⟨?_, hl⟩
      show JsonlHolds (after (reopenJsonl now b.jsonl))
      rw [hsame]
      exact hj
    | reopenLance scan now => exact ⟨hj, hl.reopen scan now⟩
  · exact ⟨Agree.fresh.jsonl, ⟨coherent_empty, fun i e h => by cases h⟩,
      fun i row h => by cases h⟩

end Reachable

theorem undisplaced_of_pairwise (edges : List DurableEdge)
    (h : edges.Pairwise (fun e f => e.dstAtomId ≠ f.dstAtomId)) : Undisplaced edges := by
  intro before e between f rest hsplit hdst
  rw [hsplit, List.pairwise_append, List.pairwise_cons] at h
  exact absurd hdst (h.2.1.1 f (by simp))

section Sample

attribute [local instance] basicCoerce basicFloat

def sampleEdge (id dst : String) : DurableEdge :=
  { edgeId := id, srcAtomId := "a", dstAtomId := dst, edgeKind := "recalls", createdAt := "" }

theorem edge_stores_agree_replaced :
    StoresAgree (run (edgeStep sampleStamp) freshBackends
      [.putEdge (sampleEdge "" "d"), .replaceEdgesOfKind "a" "recalls"
        [sampleEdge "e1" "d", sampleEdge "e2" "e"], .deleteEdge "e1",
        .reopenLance inTableOrder firstInstant]) := by
  apply edge_stores_agree
  intro c hc
  simp only [List.mem_cons, List.not_mem_nil, or_false] at hc
  obtain rfl | rfl | rfl | rfl := hc
  · trivial
  · apply undisplaced_of_pairwise
    simp [sampleEdge]
  · trivial
  · trivial

/-- The stored form of a sample edge. -/
def sampleStored (id : String) : DurableEdge :=
  { sampleEdge id "d" with createdAt := isoZ firstInstant, updatedAt := isoZ firstInstant }

theorem prepare_sample (id : String) (hid : id ≠ "") (n : Nat) :
    prepareEdgeForPut { sampleEdge id "d" with srcAtomId := "a", edgeKind := "recalls" } none
      (sampleStamp n) = .ok (sampleStored id) := by
  simp [prepareEdgeForPut, sampleEdge, sampleStored, orNow, textOr, hid, versionOr,
    edgeSchemaVersion, bind, Except.bind, pure, Except.pure, Stamp.nowIso, sampleStamp]

theorem sampleStored_stored (id : String) (hid : id ≠ "") : Stored (sampleStored id) :=
  (prepare_spec _ _ none (sampleStamp 0) (prepare_sample id hid 0) (by simp)).1

/-- Two entries of one replacement list on one destination: the second displaces the first in
memory, but the table keeps the row of the first, which comes back once the second is deleted. -/
theorem displaced_edge_resurrects :
    ¬ StoresAgree (run (edgeStep sampleStamp) freshBackends
      [.replaceEdgesOfKind "a" "recalls" [sampleEdge "e1" "d", sampleEdge "e2" "d"],
        .deleteEdge "e2"]) := by
  intro hagree
  let twice : EdgeStore LanceTable := keep (sampleStored "e2")
    { keep (sampleStored "e1") { freshBackends.lance with stamps := 1 } with stamps := 2 }
  have hreplace : after (replaceEdgesOfKind sampleStamp "a" "recalls"
      [sampleEdge "e1" "d", sampleEdge "e2" "d"] freshBackends.lance) = twice := by
    show after (storeAll sampleStamp "a" "recalls" [sampleEdge "e1" "d", sampleEdge "e2" "d"]
      freshBackends.lance) = _
    rw [after_storeAll_cons, prepare_sample "e1" (by decide)]
    dsimp only
    rw [after_storeAll_cons, prepare_sample "e2" (by decide)]
    rfl
  have hfirst : (EdgeIndex.empty.indexPut (sampleStored "e1")).find "e1" =
      some (sampleStored "e1") := by
    rw [find_indexPut coherent_empty]
    exact if_pos rfl
  have hcoh := coherent_empty.put (sampleStored "e1")
  have hheld : twice.index.find "e2" = some (sampleStored "e2") := by
    show ((EdgeIndex.empty.indexPut (sampleStored "e1")).indexPut (sampleStored "e2")).find "e2" = _
    rw [find_indexPut hcoh]
    exact if_pos rfl
  have hgone : twice.index.find "e1" = none := by
    show ((EdgeIndex.empty.indexPut (sampleStored "e1")).indexPut (sampleStored "e2")).find "e1" = _
    rw [find_indexPut hcoh]
    exact (if_neg (by decide)).trans (if_pos ⟨_, hfirst, rfl⟩)
  have hdelete : after (deleteEdge "e2" twice) = twice.discard "e2" := by
    rw [deleteEdge, hheld]
    rfl
  have hrows : (twice.discard "e2").disk.rows.values = [edgeToLanceRow (sampleStored "e1")] := by
    show (((Dict.empty.set "e1" (edgeToLanceRow (sampleStored "e1"))).set "e2"
      (edgeToLanceRow (sampleStored "e2"))).pop "e2").values = [edgeToLanceRow (sampleStored "e1")]
    simp [Dict.values, Dict.pop, Dict.set, Dict.putItem, Dict.empty]
  have hlance : (run (edgeStep sampleStamp) freshBackends
      [.replaceEdgesOfKind "a" "recalls" [sampleEdge "e1" "d", sampleEdge "e2" "d"],
        .deleteEdge "e2"]).lance = twice.discard "e2" := by
    show after (deleteEdge "e2" (after (replaceEdgesOfKind sampleStamp "a" "recalls"
      [sampleEdge "e1" "d", sampleEdge "e2" "d"] freshBackends.lance))) = _
    rw [hreplace, hdelete]
  obtain ⟨ix, hload, hsame⟩ := hagree.2.2.2 inTableOrder firstInstant
  rw [hlance] at hload hsame
  have hread : LanceEdgeStore.load (twice.discard "e2").disk inTableOrder (isoZ firstInstant) =
      .ok (EdgeIndex.empty.indexPut (sampleStored "e1")) := by
    rw [LanceEdgeStore.load, hrows]
    apply load_decoded _ [edgeToLanceRow (sampleStored "e1")] [sampleStored "e1"]
    rw [List.map_singleton, fromDict_lanceRow _ _ (sampleStored_stored "e1" (by decide))]
    rfl
  rw [hread] at hload
  rw [← Except.ok.inj hload] at hsame
  have hback : sampleStored "e1" ∈ (EdgeIndex.empty.indexPut (sampleStored "e1")).edges := by
    rw [mem_edges hcoh]
    exact hfirst
  have hcoh2 : Coherent (twice.discard "e2").index := (hcoh.put (sampleStored "e2")).remove "e2"
  have hin := (hsame.edges _).mp hback
  rw [mem_edges hcoh2] at hin
  have hout : (twice.discard "e2").index.find "e1" = none := by
    show (twice.index.indexRemove "e2").find "e1" = none
    rw [find_indexRemove, if_neg (by decide), hgone]
  rw [show (sampleStored "e1").edgeId = "e1" from rfl, hout] at hin
  cases hin

end Sample
end Elyra.Memory
