import Elyra.Framework.Effects
import Elyra.Memory.EdgeIndex

namespace Elyra.Memory

open Json EdgeIndex

/-- What a store keeps behind its index: a written edge, an erased id. `dropsReplaced` says
whether a put also erases the row of an edge that held its key under another id. -/
class EdgeDisk (δ : Type) where
  write : DurableEdge → δ → δ
  erase : String → δ → δ
  dropsReplaced : Bool

structure EdgeStore (δ : Type) where
  index : EdgeIndex
  disk : δ
  stamps : Nat

namespace EdgeStore

section Operations

variable (stampAt : Nat → Stamp) {δ : Type} [EdgeDisk δ]

/-- Persist an edge and index it. -/
def keep (p : DurableEdge) (s : EdgeStore δ) : EdgeStore δ :=
  { s with disk := EdgeDisk.write p s.disk, index := s.index.indexPut p }

/-- Take an edge out of the index and out of the disk. -/
def discard (id : String) (s : EdgeStore δ) : EdgeStore δ :=
  { s with disk := EdgeDisk.erase id s.disk, index := s.index.indexRemove id }

omit [EdgeDisk δ] in
def prepared (edge : DurableEdge) (existing : Option DurableEdge) : Py (EdgeStore δ) DurableEdge :=
  fun s =>
    match prepareEdgeForPut edge existing (stampAt s.stamps) with
    | .ok p => .ok p { s with stamps := s.stamps + 1 }
    | .error e => .error e { s with stamps := s.stamps + 1 }

def dropReplaced (existing : Option DurableEdge) (p : DurableEdge) (s : EdgeStore δ) :
    EdgeStore δ :=
  match existing with
  | some old =>
    if EdgeDisk.dropsReplaced δ ∧ old.edgeId ≠ p.edgeId then s.discard old.edgeId else s
  | none => s

def putEdge (edge : DurableEdge) : Py (EdgeStore δ) DurableEdge := do
  let s ← get
  let existing := s.index.atKey edge.identityKey
  let p ← prepared stampAt edge existing
  modify (dropReplaced existing p)
  modify (keep p)
  return p

def deleteEdge (id : String) : Py (EdgeStore δ) Bool := fun s =>
  if s.index.find id = none then .ok false s else .ok true (s.discard id)

/-- The outgoing edges of a kind, in filing order. -/
def ofKind (s : EdgeStore δ) (src kind : String) : List DurableEdge :=
  ((groupOf s.index.bySrc src).filterMap s.index.find).filter (fun e => e.edgeKind = kind)

def discardAll (ids : List String) (s : EdgeStore δ) : EdgeStore δ :=
  ids.foldl (fun s id => s.discard id) s

def storeAll (src kind : String) : List DurableEdge → Py (EdgeStore δ) (List DurableEdge)
  | [] => pure []
  | edge :: edges => do
    let p ← prepared stampAt { edge with srcAtomId := src, edgeKind := kind } none
    modify (keep p)
    let stored ← storeAll src kind edges
    return p :: stored

/-- Delete all outgoing of a kind from `src`, then put `edges`. -/
def replaceEdgesOfKind (src kind : String) (edges : List DurableEdge) :
    Py (EdgeStore δ) (List DurableEdge) := do
  let s ← get
  modify (discardAll ((s.ofKind src kind).map DurableEdge.edgeId))
  storeAll stampAt src kind edges

end Operations

end EdgeStore

/-- A decoded row goes in; one that does not decode is skipped. -/
def putDecoded (ix : EdgeIndex) (r : Except PyErr DurableEdge) : Except PyErr EdgeIndex :=
  match r with
  | .ok e => .ok (ix.indexPut e)
  | .error (.valueError _) | .error .typeError => .ok ix
  | .error e => .error e

/-- `edges.jsonl`. -/
structure JsonlFile where
  bytes : ByteArray

namespace JsonlEdgeStore

/-- `_append_row`: a missing newline at the end of the file is repaired first. -/
def appendRow (row : List (String × Json)) (f : JsonlFile) : JsonlFile :=
  let whole := if f.bytes.size > 0 ∧ f.bytes.data.back? ≠ some 10 then f.bytes.push 10 else f.bytes
  ⟨whole ++ encodeUtf8 (rowText row)⟩

def tombstone (id : String) : List (String × Json) :=
  [("edge_id", .str id), ("_deleted", .bool true)]

instance : EdgeDisk JsonlFile where
  write e := appendRow (durableEdgeToDict e)
  erase id := appendRow (tombstone id)
  dropsReplaced := false

section Load

variable [PyCoerce] [PyFloat]

def applyRow (now : String) (ix : EdgeIndex) (row : Json) : Except PyErr EdgeIndex :=
  match row with
  | .obj kvs =>
    if lookup kvs "_deleted" = some (.bool true) then
      match lookup kvs "edge_id" with
      | some (.str id) => .ok (if id = "" then ix else ix.indexRemove id)
      | _ => .ok ix
    else putDecoded ix (durableEdgeFromDict kvs now)
  | _ => .ok ix

def load (f : JsonlFile) (now : String) : Except PyErr EdgeIndex :=
  match decodeUtf8 f.bytes with
  | none => .error .unicodeDecodeError
  | some cs => (loadedRows cs).foldlM (applyRow now) .empty

end Load

end JsonlEdgeStore

/-- The `edges` table: `merge_insert("edge_id")` is an upsert by id, `delete` removes the row. -/
structure LanceTable where
  rows : Dict String (List (String × Json))

/-- A full read of the table gives its rows in some order. -/
structure Scan where
  rows : List (List (String × Json)) → List (List (String × Json))
  perm : ∀ l, (rows l).Perm l

def inTableOrder : Scan := ⟨fun l => l, .refl⟩

namespace LanceEdgeStore

instance : EdgeDisk LanceTable where
  write e t := ⟨t.rows.set e.edgeId (edgeToLanceRow e)⟩
  erase id t := ⟨t.rows.pop id⟩
  dropsReplaced := true

def load [PyCoerce] [PyFloat] (t : LanceTable) (scan : Scan) (now : String) :
    Except PyErr EdgeIndex :=
  (scan.rows t.rows.values).foldlM (fun ix row => putDecoded ix (durableEdgeFromDict row now)) .empty

end LanceEdgeStore

/-- Every edge of the index has the stored shape. -/
def AllStored (ix : EdgeIndex) : Prop := ∀ i e, ix.find i = some e → Stored e

theorem AllStored.put {ix : EdgeIndex} (h : AllStored ix) (hc : Coherent ix) (e : DurableEdge)
    (he : Stored e) : AllStored (ix.indexPut e) := by
  intro i f hf
  rw [find_indexPut hc] at hf
  split_ifs at hf
  · rw [← Option.some.inj hf]
    exact he
  · exact h i f hf

theorem AllStored.remove {ix : EdgeIndex} (h : AllStored ix) (id : String) :
    AllStored (ix.indexRemove id) := by
  intro i f hf
  rw [find_indexRemove] at hf
  split_ifs at hf
  exact h i f hf

theorem AllStored.atKey {ix : EdgeIndex} (h : AllStored ix) (hc : Coherent ix) (key : EdgeKey)
    (old : DurableEdge) (hold : ix.atKey key = some old) :
    Stored old ∧ ix.byKey.get? key = some old.edgeId := by
  unfold EdgeIndex.atKey at hold
  cases hk : ix.byKey.get? key with
  | none =>
    rw [hk] at hold
    cases hold
  | some i =>
    rw [hk] at hold
    have hf : ix.find i = some old := hold
    exact ⟨h i old hf, by rw [hc.ids i old hf]⟩

theorem atKey_none {ix : EdgeIndex} (hc : Coherent ix) (key : EdgeKey)
    (hnone : ix.atKey key = none) : ix.byKey.get? key = none := by
  cases hk : ix.byKey.get? key with
  | none => rfl
  | some i =>
    obtain ⟨e, he, -⟩ := (hc.keys key i).mp hk
    rw [EdgeIndex.atKey, hk] at hnone
    have hf : ix.find i = none := hnone
    rw [hf] at he
    cases he

/-- The index of a store that the operations reach. -/
structure SoundIndex (ix : EdgeIndex) : Prop where
  coherent : Coherent ix
  stored : AllStored ix

namespace SoundIndex

theorem put {ix : EdgeIndex} (h : SoundIndex ix) (p : DurableEdge) (hp : Stored p) :
    SoundIndex (ix.indexPut p) := ⟨h.coherent.put p, h.stored.put h.coherent p hp⟩

theorem remove {ix : EdgeIndex} (h : SoundIndex ix) (id : String) :
    SoundIndex (ix.indexRemove id) := ⟨h.coherent.remove id, h.stored.remove id⟩

end SoundIndex

section Put

open EdgeStore

variable (stampAt : Nat → Stamp) {δ : Type} [EdgeDisk δ]

theorem putEdge_eq (edge : DurableEdge) (s : EdgeStore δ) :
    putEdge stampAt edge s =
      match prepareEdgeForPut edge (s.index.atKey edge.identityKey) (stampAt s.stamps) with
      | .ok p => .ok p (keep p (dropReplaced (s.index.atKey edge.identityKey) p
          { s with stamps := s.stamps + 1 }))
      | .error e => .error e { s with stamps := s.stamps + 1 } := by
  rw [putEdge, run_bind]
  show (prepared stampAt edge (s.index.atKey edge.identityKey) >>= _) s = _
  rw [run_bind, prepared]
  cases prepareEdgeForPut edge (s.index.atKey edge.identityKey) (stampAt s.stamps) with
  | error e => rfl
  | ok p => rfl

/-- A put keeps the id of the edge it replaces, so neither store drops a row. -/
theorem dropReplaced_self (existing : Option DurableEdge)
    (p : DurableEdge) (s : EdgeStore δ) (h : ∀ old ∈ existing, p.edgeId = old.edgeId) :
    dropReplaced existing p s = s := by
  cases existing with
  | none => rfl
  | some old =>
    have hid := h old rfl
    rw [dropReplaced, if_neg]
    exact fun hc => hc.2 hid.symm

omit [EdgeDisk δ] in
theorem prepare_replaces (edge p : DurableEdge) (existing : Option DurableEdge) (stamp : Stamp)
    (hp : prepareEdgeForPut edge existing stamp = .ok p) :
    ∀ old ∈ existing, p.edgeId = old.edgeId := by
  intro old ho
  rw [prepare_edgeId _ p _ _ hp, Option.mem_def.mp ho]
  rfl

omit [EdgeDisk δ] in
/-- The key of a prepared edge is free or held by its own id. -/
theorem prepare_free {ix : EdgeIndex} (hc : Coherent ix) (hs : AllStored ix) (edge p : DurableEdge)
    (stamp : Stamp) (hp : prepareEdgeForPut edge (ix.atKey edge.identityKey) stamp = .ok p) :
    ∀ i, ix.byKey.get? p.identityKey = some i → i = p.edgeId := by
  have hold : ∀ old ∈ ix.atKey edge.identityKey, Stored old ∧
      ix.byKey.get? edge.identityKey = some old.edgeId := fun old ho => hs.atKey hc _ old ho
  obtain ⟨-, hkey⟩ := prepare_spec _ p _ _ hp (fun old ho => (hold old ho).1)
  intro i hi
  rw [hkey] at hi
  cases ho : ix.atKey edge.identityKey with
  | none =>
    rw [atKey_none hc _ ho] at hi
    cases hi
  | some old =>
    rw [(hold old ho).2] at hi
    rw [← Option.some.inj hi, prepare_replaces _ p _ _ hp old ho]

/-- A put stores an edge of the given key, under the id of the edge it replaces or under its own,
or raises and leaves the index alone. -/
theorem putEdge_spec (edge : DurableEdge) (s : EdgeStore δ) (hc : Coherent s.index)
    (hs : AllStored s.index) :
    (∃ p, putEdge stampAt edge s = .ok p (keep p { s with stamps := s.stamps + 1 }) ∧ Stored p ∧
      p.identityKey = edge.identityKey ∧
      (∀ i, s.index.byKey.get? p.identityKey = some i → i = p.edgeId) ∧
      (p.edgeId = textOr edge.edgeId (stampAt s.stamps).newEdgeId ∨
        ∃ old, s.index.find p.edgeId = some old ∧ old.identityKey = edge.identityKey)) ∨
    ∃ e, putEdge stampAt edge s = .error e { s with stamps := s.stamps + 1 } := by
  have heq := putEdge_eq stampAt edge s
  cases hp : prepareEdgeForPut edge (s.index.atKey edge.identityKey) (stampAt s.stamps) with
  | error e =>
    rw [hp] at heq
    exact .inr ⟨e, heq⟩
  | ok p =>
    have hsame := prepare_replaces _ p _ _ hp
    rw [hp] at heq
    dsimp only at heq
    rw [dropReplaced_self _ p _ hsame] at heq
    have hold : ∀ old ∈ s.index.atKey edge.identityKey, Stored old ∧
        s.index.byKey.get? edge.identityKey = some old.edgeId := fun old ho => hs.atKey hc _ old ho
    obtain ⟨hstored, hkey⟩ := prepare_spec _ p _ _ hp (fun old ho => (hold old ho).1)
    have hpid := prepare_edgeId _ p _ _ hp
    refine .inl ⟨p, heq, hstored, hkey, prepare_free hc hs edge p _ hp, ?_⟩
    cases ho : s.index.atKey edge.identityKey with
    | none =>
      rw [ho] at hpid
      exact .inl hpid
    | some old =>
      obtain ⟨f, hf, hfk⟩ := (hc.keys _ _).mp (hold old ho).2
      rw [hsame old ho]
      exact .inr ⟨f, hf, hfk⟩

/-- What writing a stored edge, removing an id and drawing a stamp preserve, the operations
preserve. -/
structure Preserved (P : EdgeStore δ → Prop) : Prop where
  sound : ∀ s, P s → SoundIndex s.index
  keep : ∀ s p, Stored p → P s → P (s.keep p)
  discard : ∀ s id, id ≠ "" → P s → P (s.discard id)
  tick : ∀ s : EdgeStore δ, P s → P { s with stamps := s.stamps + 1 }

variable {P : EdgeStore δ → Prop}

theorem Preserved.putEdge (h : Preserved P) (edge : DurableEdge) (s : EdgeStore δ) (hs : P s) :
    P (after (putEdge stampAt edge s)) := by
  have hsound := h.sound s hs
  obtain ⟨p, hput, hstored, -⟩ | ⟨e, hput⟩ :=
    putEdge_spec stampAt edge s hsound.coherent hsound.stored
  · rw [hput]
    exact h.keep _ p hstored (h.tick s hs)
  · rw [hput]
    exact h.tick s hs

theorem Preserved.deleteEdge (h : Preserved P) (id : String) (s : EdgeStore δ) (hs : P s) :
    P (after (deleteEdge id s)) := by
  have hsound := h.sound s hs
  rw [EdgeStore.deleteEdge]
  cases hf : s.index.find id with
  | none => exact hs
  | some e =>
    rw [if_neg (by simp)]
    apply h.discard s id _ hs
    rw [← hsound.coherent.ids id e hf]
    exact (hsound.stored id e hf).edgeId

theorem Preserved.discardAll (h : Preserved P) (ids : List String) (hids : ∀ i ∈ ids, i ≠ "")
    (s : EdgeStore δ) (hs : P s) : P (discardAll ids s) := by
  induction ids generalizing s with
  | nil => exact hs
  | cons id ids ih =>
    exact ih (fun i hi => hids i (by simp [hi])) (s.discard id)
      (h.discard s id (hids id (by simp)) hs)

theorem after_storeAll_cons (src kind : String) (edge : DurableEdge)
    (edges : List DurableEdge) (s : EdgeStore δ) :
    after (storeAll stampAt src kind (edge :: edges) s) =
      match prepareEdgeForPut { edge with srcAtomId := src, edgeKind := kind } none
          (stampAt s.stamps) with
      | .ok p => after (storeAll stampAt src kind edges
          (keep p { s with stamps := s.stamps + 1 }))
      | .error _ => { s with stamps := s.stamps + 1 } := by
  rw [storeAll, run_bind, prepared]
  cases prepareEdgeForPut { edge with srcAtomId := src, edgeKind := kind } none
      (stampAt s.stamps) with
  | error e => rfl
  | ok p =>
    dsimp only
    rw [run_bind]
    show after ((storeAll stampAt src kind edges >>= fun stored => pure (p :: stored))
      (keep p { s with stamps := s.stamps + 1 })) = _
    rw [run_bind]
    cases storeAll stampAt src kind edges (keep p { s with stamps := s.stamps + 1 }) with
    | ok stored t => rfl
    | error e t => rfl

theorem Preserved.storeAll (h : Preserved P) (src kind : String) (edges : List DurableEdge)
    (s : EdgeStore δ) (hs : P s) : P (after (storeAll stampAt src kind edges s)) := by
  induction edges generalizing s with
  | nil => exact hs
  | cons edge edges ih =>
    rw [after_storeAll_cons]
    cases hp : prepareEdgeForPut { edge with srcAtomId := src, edgeKind := kind } none
        (stampAt s.stamps) with
    | error e => exact h.tick s hs
    | ok p =>
      obtain ⟨hstored, -⟩ := prepare_spec _ p none _ hp (by simp)
      exact ih _ (h.keep _ p hstored (h.tick s hs))

omit [EdgeDisk δ] in
/-- The ids of a kind are what the removal of a replacement goes through. -/
theorem mem_ofKind {s : EdgeStore δ} (hc : Coherent s.index) (src kind i : String) :
    i ∈ (s.ofKind src kind).map DurableEdge.edgeId ↔
      ∃ e, s.index.find i = some e ∧ e.srcAtomId = src ∧ e.edgeKind = kind := by
  rw [List.mem_map]
  constructor
  · intro hex
    obtain ⟨e, he, rfl⟩ := hex
    rw [ofKind, List.mem_filter, mem_filed hc hc.src] at he
    exact ⟨e, he.1.1, he.1.2, by simpa using he.2⟩
  · intro hex
    obtain ⟨e, he, hsrc, hkind⟩ := hex
    have hid := hc.ids i e he
    refine ⟨e, ?_, hid⟩
    rw [ofKind, List.mem_filter, mem_filed hc hc.src, hid]
    exact ⟨⟨he, hsrc⟩, by simpa using hkind⟩

omit [EdgeDisk δ] in
theorem ofKind_ids_ne_empty {s : EdgeStore δ} (h : SoundIndex s.index) (src kind : String) :
    ∀ i ∈ (s.ofKind src kind).map DurableEdge.edgeId, i ≠ "" := by
  intro i hi
  obtain ⟨e, he, -⟩ := (mem_ofKind h.coherent src kind i).mp hi
  rw [← h.coherent.ids i e he]
  exact (h.stored i e he).edgeId

theorem Preserved.replaceEdgesOfKind (h : Preserved P) (src kind : String)
    (edges : List DurableEdge) (s : EdgeStore δ) (hs : P s) :
    P (after (replaceEdgesOfKind stampAt src kind edges s)) :=
  h.storeAll stampAt src kind edges _
    (h.discardAll _ (ofKind_ids_ne_empty (h.sound s hs) src kind) s hs)

end Put

section Jsonl

/-- One row of the log. -/
inductive EdgeEvent where
  | put (e : DurableEdge)
  | drop (id : String)

def EdgeEvent.row : EdgeEvent → List (String × Json)
  | .put e => durableEdgeToDict e
  | .drop id => JsonlEdgeStore.tombstone id

def EdgeEvent.apply (ix : EdgeIndex) : EdgeEvent → EdgeIndex
  | .put e => ix.indexPut e
  | .drop id => ix.indexRemove id

def EdgeEvent.Sound : EdgeEvent → Prop
  | .put e => Stored e
  | .drop id => id ≠ ""

def logText (events : List EdgeEvent) : List Char := rowsText (events.map EdgeEvent.row)

theorem back_newline (cs : List Char) : (encodeUtf8 (cs ++ ['\n'])).data.back? = some 10 := by
  have hnl : (['\n'].utf8Encode).data = #[10] := by decide
  rw [encodeUtf8_eq, List.utf8Encode_append, ByteArray.data_append, hnl]
  simp

theorem appendRow_logText (events : List EdgeEvent) (e : EdgeEvent) :
    JsonlEdgeStore.appendRow e.row ⟨encodeUtf8 (logText events)⟩ =
      ⟨encodeUtf8 (logText (events ++ [e]))⟩ := by
  have hrepair : ¬((encodeUtf8 (logText events)).size > 0 ∧
      (encodeUtf8 (logText events)).data.back? ≠ some 10) := by
    induction events using List.reverseRecOn with
    | nil => simp [logText, rowsText]
    | append_singleton events last =>
      have htext : logText (events ++ [last]) =
          (logText events ++ dumps (.obj last.row)) ++ ['\n'] := by
        simp [logText, rowsText, rowText]
      rw [htext, back_newline]
      simp
  have htext : logText (events ++ [e]) = logText events ++ rowText e.row := by
    simp [logText, rowsText]
  rw [JsonlEdgeStore.appendRow, if_neg hrepair, htext]
  simp only [encodeUtf8_eq, List.utf8Encode_append]

/-- The file is a log of sound events and the index is what they lead to. -/
structure JsonlHolds (s : EdgeStore JsonlFile) : Prop where
  log : ∃ events : List EdgeEvent, s.disk = ⟨encodeUtf8 (logText events)⟩ ∧
    (∀ e ∈ events, e.Sound) ∧ s.index = events.foldl EdgeEvent.apply .empty
  coherent : Coherent s.index
  stored : AllStored s.index

theorem JsonlHolds.step {s t : EdgeStore JsonlFile} (h : JsonlHolds s) (e : EdgeEvent)
    (he : e.Sound) (hdisk : t.disk = JsonlEdgeStore.appendRow e.row s.disk)
    (hindex : t.index = e.apply s.index) : JsonlHolds t where
  log := by
    obtain ⟨events, hd, hs, hi⟩ := h.log
    refine ⟨events ++ [e], ?_, ?_, ?_⟩
    · rw [hdisk, hd, appendRow_logText]
    · intro f hf
      rcases List.mem_append.mp hf with hf | hf
      · exact hs f hf
      · rw [List.mem_singleton.mp hf]
        exact he
    · rw [hindex, hi, List.foldl_append]
      rfl
  coherent := by
    rw [hindex]
    cases e with
    | put p => exact h.coherent.put p
    | drop id => exact h.coherent.remove id
  stored := by
    rw [hindex]
    cases e with
    | put p => exact h.stored.put h.coherent p he
    | drop id => exact h.stored.remove id

theorem JsonlHolds.keep {s : EdgeStore JsonlFile} (h : JsonlHolds s) (p : DurableEdge)
    (hp : Stored p) : JsonlHolds (s.keep p) :=
  h.step (.put p) hp rfl rfl

theorem JsonlHolds.discard {s : EdgeStore JsonlFile} (h : JsonlHolds s) (id : String)
    (hid : id ≠ "") : JsonlHolds (s.discard id) :=
  h.step (.drop id) hid rfl rfl

variable [PyCoerce] [PyFloat]

theorem applyRow_event (now : String) (ix : EdgeIndex) (e : EdgeEvent) (he : e.Sound) :
    JsonlEdgeStore.applyRow now ix (.obj e.row) = .ok (e.apply ix) := by
  cases e with
  | put p =>
    have hrow : lookup (durableEdgeToDict p) "_deleted" ≠ some (.bool true) := by
      simp [durableEdgeToDict, edgeRow, lookup]
    rw [JsonlEdgeStore.applyRow, EdgeEvent.row, if_neg hrow, fromDict_toDict p now he]
    rfl
  | drop id =>
    have hid : id ≠ "" := he
    simp [JsonlEdgeStore.applyRow, EdgeEvent.row, JsonlEdgeStore.tombstone, lookup, hid,
      EdgeEvent.apply]

/-- Reopening replays the log: the index comes back as it was. -/
theorem JsonlHolds.reopen {s : EdgeStore JsonlFile} (h : JsonlHolds s) (now : String) :
    JsonlEdgeStore.load s.disk now = .ok s.index := by
  obtain ⟨events, hd, hs, hi⟩ := h.log
  have hrows := loadedRows_rowsText (events.map EdgeEvent.row) []
  rw [List.append_nil, loadedRows_nil, List.append_nil] at hrows
  have hload : JsonlEdgeStore.load s.disk now =
      ((events.map EdgeEvent.row).map Json.obj).foldlM (JsonlEdgeStore.applyRow now) .empty := by
    rw [hd, JsonlEdgeStore.load, encodeUtf8_eq, decodeUtf8_utf8Encode]
    dsimp only
    rw [logText, hrows]
  have hfold : ∀ (es : List EdgeEvent) (ix : EdgeIndex), (∀ e ∈ es, e.Sound) →
      ((es.map EdgeEvent.row).map Json.obj).foldlM (JsonlEdgeStore.applyRow now) ix =
        .ok (es.foldl EdgeEvent.apply ix) := by
    intro es
    induction es with
    | nil => exact fun ix _ => rfl
    | cons e es ih =>
      intro ix hes
      rw [List.map_cons, List.map_cons, List.foldlM_cons,
        applyRow_event now ix e (hes e (by simp))]
      exact ih (e.apply ix) (fun f hf => hes f (by simp [hf]))
  rw [hload, hfold events .empty hs, hi]

end Jsonl

section Lance

/-- The table holds one row for each indexed edge. -/
structure LanceHolds (s : EdgeStore LanceTable) : Prop where
  rows : ∀ i, s.disk.rows.get? i = (s.index.find i).map edgeToLanceRow
  coherent : Coherent s.index
  stored : AllStored s.index

theorem LanceHolds.keep {s : EdgeStore LanceTable} (h : LanceHolds s) (p : DurableEdge)
    (hp : Stored p) (hfree : ∀ i, s.index.byKey.get? p.identityKey = some i → i = p.edgeId) :
    LanceHolds (s.keep p) where
  rows i := by
    have hset : (s.keep p).disk.rows = s.disk.rows.set p.edgeId (edgeToLanceRow p) := rfl
    have hindex : (s.keep p).index = s.index.indexPut p := rfl
    rw [hset, hindex, Dict.get?_set, find_indexPut_of_free h.coherent p hfree, h.rows]
    by_cases hi : p.edgeId = i
    · simp [hi]
    · simp [hi, Ne.symm hi]
  coherent := h.coherent.put p
  stored := h.stored.put h.coherent p hp

theorem LanceHolds.discard {s : EdgeStore LanceTable} (h : LanceHolds s) (id : String) :
    LanceHolds (s.discard id) where
  rows i := by
    have hpop : (s.discard id).disk.rows = s.disk.rows.pop id := rfl
    have hindex : (s.discard id).index = s.index.indexRemove id := rfl
    rw [hpop, hindex, Dict.get?_pop, find_indexRemove, h.rows]
    by_cases hi : id = i
    · simp [hi]
    · simp [hi, Ne.symm hi]
  coherent := h.coherent.remove id
  stored := h.stored.remove id

/-- Edges of distinct ids and keys that go into an index do not displace each other. -/
theorem find_putAll (es : List DurableEdge) (ix : EdgeIndex) (hc : Coherent ix)
    (hes : es.Pairwise (fun e f => e.edgeId ≠ f.edgeId ∧ e.identityKey ≠ f.identityKey))
    (hix : ∀ e ∈ es, ∀ j f, ix.find j = some f → j ≠ e.edgeId ∧ f.identityKey ≠ e.identityKey) :
    Coherent (es.foldl EdgeIndex.indexPut ix) ∧
      ∀ j e, (es.foldl EdgeIndex.indexPut ix).find j = some e ↔
        ix.find j = some e ∨ (e ∈ es ∧ e.edgeId = j) := by
  induction es generalizing ix with
  | nil => exact ⟨hc, fun j e => by simp⟩
  | cons p es ih =>
    have hfree : ∀ i, ix.byKey.get? p.identityKey = some i → i = p.edgeId := by
      intro i hi
      obtain ⟨f, hf, hfk⟩ := (hc.keys _ _).mp hi
      exact absurd hfk (hix p (by simp) i f hf).2
    have hput := find_indexPut_of_free hc p hfree
    obtain ⟨hp, hrest⟩ := List.pairwise_cons.mp hes
    have hix' : ∀ e ∈ es, ∀ j f, (ix.indexPut p).find j = some f →
        j ≠ e.edgeId ∧ f.identityKey ≠ e.identityKey := by
      intro e he j f hf
      rw [hput] at hf
      split_ifs at hf with hj
      · rw [hj, ← Option.some.inj hf]
        exact hp e he
      · exact hix e (by simp [he]) j f hf
    obtain ⟨hcoh, hfind⟩ := ih (ix.indexPut p) (hc.put p) hrest hix'
    refine ⟨hcoh, ?_⟩
    intro j e
    rw [List.foldl_cons, hfind, hput]
    by_cases hj : j = p.edgeId
    · have hnone : ix.find j = none := by
        cases hf : ix.find j with
        | none => rfl
        | some f => exact absurd hj (hix p (by simp) j f hf).1
      rw [if_pos hj, hnone]
      constructor
      · intro hor
        obtain he | he := hor
        · exact .inr ⟨by simp [Option.some.inj he], by rw [← Option.some.inj he, hj]⟩
        · exact .inr ⟨by simp [he.1], he.2⟩
      · intro hor
        obtain he | ⟨he, hid⟩ := hor
        · cases he
        · rcases List.mem_cons.mp he with he | he
          · exact .inl (by rw [he])
          · exact .inr ⟨he, hid⟩
    · rw [if_neg hj]
      constructor
      · intro hor
        obtain he | he := hor
        · exact .inl he
        · exact .inr ⟨by simp [he.1], he.2⟩
      · intro hor
        obtain he | ⟨he, hid⟩ := hor
        · exact .inl he
        · rcases List.mem_cons.mp he with he | he
          · rw [he] at hid
            exact absurd hid.symm hj
          · exact .inr ⟨he, hid⟩

section Decode

variable [PyCoerce] [PyFloat]

theorem load_decoded (now : String) (rows : List (List (String × Json))) (es : List DurableEdge)
    (hall : rows.map (fun row => durableEdgeFromDict row now) = es.map .ok) (ix : EdgeIndex) :
    rows.foldlM (fun ix row => putDecoded ix (durableEdgeFromDict row now)) ix =
      .ok (es.foldl EdgeIndex.indexPut ix) := by
  induction rows generalizing es ix with
  | nil =>
    cases es with
    | nil => rfl
    | cons e es => cases hall
  | cons row rows ih =>
    cases es with
    | nil => cases hall
    | cons e es =>
      simp only [List.map_cons, List.cons.injEq] at hall
      rw [List.foldlM_cons, hall.1]
      exact ih es hall.2 (ix.indexPut e)

end Decode

/-- The indexed edges, in table order. -/
def tableEdges (s : EdgeStore LanceTable) : List DurableEdge :=
  s.disk.rows.keys.filterMap s.index.find

theorem LanceHolds.values {s : EdgeStore LanceTable} (h : LanceHolds s) :
    s.disk.rows.values = (tableEdges s).map edgeToLanceRow := by
  have hitem : ∀ p ∈ s.disk.rows.items, (s.index.find p.1).map edgeToLanceRow = some p.2 := by
    intro p hp
    rw [← h.rows, Dict.get?_eq_some_iff]
    exact hp
  rw [tableEdges, Dict.values, Dict.keys]
  revert hitem
  induction s.disk.rows.items with
  | nil => simp
  | cons p items ih =>
    intro hitem
    have hp := hitem p (by simp)
    obtain ⟨e, he, her⟩ := Option.map_eq_some_iff.mp hp
    rw [List.map_cons, List.map_cons, List.filterMap_cons_some he, List.map_cons, her,
      ih (fun q hq => hitem q (by simp [hq]))]

theorem LanceHolds.mem_tableEdges {s : EdgeStore LanceTable} (h : LanceHolds s) (e : DurableEdge) :
    e ∈ tableEdges s ↔ s.index.find e.edgeId = some e := by
  rw [tableEdges, List.mem_filterMap]
  constructor
  · intro hex
    obtain ⟨i, -, hi⟩ := hex
    rw [h.coherent.ids i e hi]
    exact hi
  · intro he
    refine ⟨e.edgeId, ?_, he⟩
    rw [Dict.mem_keys, h.rows, he]
    exact ⟨_, rfl⟩

theorem LanceHolds.tableEdges_pairwise {s : EdgeStore LanceTable} (h : LanceHolds s) :
    (tableEdges s).Pairwise
      (fun e f => e.edgeId ≠ f.edgeId ∧ e.identityKey ≠ f.identityKey) := by
  have hids : (tableEdges s).map DurableEdge.edgeId = s.disk.rows.keys := by
    have hkeys : ∀ i ∈ s.disk.rows.keys, ∃ e, s.index.find i = some e := by
      intro i hi
      rw [Dict.mem_keys] at hi
      obtain ⟨row, hrow⟩ := hi
      rw [h.rows] at hrow
      obtain ⟨e, he, -⟩ := Option.map_eq_some_iff.mp hrow
      exact ⟨e, he⟩
    unfold tableEdges
    revert hkeys
    induction s.disk.rows.keys with
    | nil => simp
    | cons i is ih =>
      intro hkeys
      obtain ⟨e, he⟩ := hkeys i (by simp)
      rw [List.filterMap_cons_some he, List.map_cons, h.coherent.ids i e he,
        ih (fun j hj => hkeys j (by simp [hj]))]
  have hnodup : ((tableEdges s).map DurableEdge.edgeId).Nodup := by
    rw [hids]
    exact s.disk.rows.keys_nodup
  have hpair : (tableEdges s).Pairwise (fun e f => e.edgeId ≠ f.edgeId) :=
    List.pairwise_map.mp hnodup
  apply hpair.imp_of_mem
  intro e f he hf hne
  refine ⟨hne, ?_⟩
  intro hk
  have h1 := (h.mem_tableEdges e).mp he
  have h2 := (h.mem_tableEdges f).mp hf
  exact hne (congrArg DurableEdge.edgeId (h.coherent.unique e f h1 h2 hk))

/-- Reopening reads the same edges, whatever order the rows come in. -/
theorem LanceHolds.reopen [PyCoerce] [PyFloat] {s : EdgeStore LanceTable} (h : LanceHolds s) (scan : Scan)
    (now : String) : ∃ ix, LanceEdgeStore.load s.disk scan now = .ok ix ∧ Coherent ix ∧
      Same ix s.index := by
  let dec := fun row : List (String × Json) => (durableEdgeFromDict row now).toOption
  let es := (scan.rows s.disk.rows.values).filterMap dec
  have hdec : ∀ e, s.index.find e.edgeId = some e → durableEdgeFromDict (edgeToLanceRow e) now =
      .ok e := fun e he => fromDict_lanceRow e now (h.stored _ e he)
  have hperm : es.Perm (tableEdges s) := by
    have h1 := (scan.perm s.disk.rows.values).filterMap dec
    have h2 : s.disk.rows.values.filterMap dec = tableEdges s := by
      rw [h.values, List.filterMap_map]
      have hall : ∀ e ∈ tableEdges s, (dec ∘ edgeToLanceRow) e = some e := by
        intro e he
        show (durableEdgeFromDict (edgeToLanceRow e) now).toOption = some e
        rw [hdec e ((h.mem_tableEdges e).mp he)]
        rfl
      rw [List.filterMap_congr hall, List.filterMap_some]
    rw [h2] at h1
    exact h1
  have hrows : ∀ row ∈ scan.rows s.disk.rows.values, ∃ e, durableEdgeFromDict row now = .ok e := by
    intro row hrow
    have hm := (scan.perm s.disk.rows.values).mem_iff.mp hrow
    rw [h.values, List.mem_map] at hm
    obtain ⟨e, he, rfl⟩ := hm
    exact ⟨e, hdec e ((h.mem_tableEdges e).mp he)⟩
  have hmap : (scan.rows s.disk.rows.values).map (fun row => durableEdgeFromDict row now) =
      es.map .ok := by
    show _ = ((scan.rows s.disk.rows.values).filterMap dec).map Except.ok
    revert hrows
    induction scan.rows s.disk.rows.values with
    | nil => simp
    | cons row rows ih =>
      intro hrows
      obtain ⟨e, he⟩ := hrows row (by simp)
      have hsome : dec row = some e := by
        show (durableEdgeFromDict row now).toOption = some e
        rw [he]
        rfl
      rw [List.map_cons, List.filterMap_cons_some hsome, List.map_cons, he,
        ih (fun r hr => hrows r (by simp [hr]))]
  have hpair : es.Pairwise (fun e f => e.edgeId ≠ f.edgeId ∧ e.identityKey ≠ f.identityKey) := by
    apply (hperm.pairwise_iff _).mpr h.tableEdges_pairwise
    intro e f hef
    exact ⟨hef.1.symm, hef.2.symm⟩
  obtain ⟨hcoh, hfind⟩ := find_putAll es .empty coherent_empty hpair
    (fun e _ j f hf => by cases hf)
  refine ⟨es.foldl EdgeIndex.indexPut .empty, ?_, hcoh, ?_⟩
  · exact load_decoded now _ es hmap .empty
  · intro i
    apply Option.ext
    intro e
    rw [hfind, hperm.mem_iff, h.mem_tableEdges]
    constructor
    · intro hor
      obtain he | ⟨he, hid⟩ := hor
      · cases he
      · rw [← hid]
        exact he
    · intro he
      have hid := h.coherent.ids i e he
      exact .inr ⟨by rw [hid]; exact he, hid⟩

end Lance
end Elyra.Memory
