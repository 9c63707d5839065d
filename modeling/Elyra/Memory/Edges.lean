import Mathlib.Data.Prod.Lex
import Elyra.Framework.IsoText
import Elyra.Framework.Json.Lines

namespace Elyra.Memory

open Json

/-- `to_iso_z` on a text. -/
def toIsoZ (text : String) : Except PyErr String := (utcOf text).map isoZ

@[simp] theorem toIsoZ_isoZ (t : Instant) : toIsoZ (isoZ t) = .ok (isoZ t) := by
  rw [toIsoZ, utcOf_isoZ]
  rfl

theorem isoZ_ne_empty (t : Instant) : isoZ t ≠ "" := by
  intro h
  have hlen := congrArg (fun s => s.toList.length) h
  simp [isoZ] at hlen

/-- `except (TypeError, ValueError)` around `to_iso_z`: an `OverflowError` is not caught. -/
def isoOr (text fallback : String) : Except PyErr String :=
  match toIsoZ text with
  | .ok iso => .ok iso
  | .error (.valueError _) => .ok fallback
  | .error .typeError => .ok fallback
  | .error e => .error e

@[simp] theorem isoOr_isoZ (t : Instant) (fallback : String) :
    isoOr (isoZ t) fallback = .ok (isoZ t) := by
  rw [isoOr, toIsoZ_isoZ]

theorem isoOr_shape (text fallback iso : String) (h : isoOr text fallback = .ok iso) :
    iso = fallback ∨ ∃ t, iso = isoZ t := by
  cases ht : utcOf text with
  | ok t =>
    have hz : toIsoZ text = .ok (isoZ t) := by
      rw [toIsoZ, ht]
      rfl
    rw [isoOr, hz] at h
    exact .inr ⟨t, (Except.ok.inj h).symm⟩
  | error e =>
    have hz : toIsoZ text = .error e := by
      rw [toIsoZ, ht]
      rfl
    rw [isoOr, hz] at h
    cases e <;> first | exact .inl (Except.ok.inj h).symm | cases h

def edgeSchemaVersion : Int := 1

/-- One durable directed edge, a row of an edge store. -/
structure DurableEdge where
  edgeId : String
  srcAtomId : String
  dstAtomId : String
  edgeKind : String
  createdAt : String
  updatedAt : String := ""
  weight : Option FloatLit := none
  reason : String := ""
  metadata : Dict String Json := .empty
  schemaVersion : Int := edgeSchemaVersion
  deriving DecidableEq

/-- `(src, dst, kind)`. -/
abbrev EdgeKey := String × String × String

namespace DurableEdge

def identityKey (e : DurableEdge) : EdgeKey := (e.srcAtomId, e.dstAtomId, e.edgeKind)

/-- FIFO order: `created_at` first, `edge_id` for ties. -/
def fifoSortKey (e : DurableEdge) : String ×ₗ String := toLex (e.createdAt, e.edgeId)

end DurableEdge

def requireText (row : List (String × Json)) (field : String) (msg : String) :
    Except PyErr String :=
  match lookup row field with
  | some (.str s) => if s = "" then .error (.valueError [.text msg]) else .ok s
  | _ => .error (.valueError [.text msg])

/-- `data.get("edge_kind") or data.get("kind")`. -/
def kindOf (row : List (String × Json)) : Except PyErr String :=
  match lookup row "edge_kind" with
  | some v =>
    if truthy v then requireText row "edge_kind" "edge_kind required"
    else requireText row "kind" "edge_kind required"
  | none => requireText row "kind" "edge_kind required"

def createdAtOf (row : List (String × Json)) (now : String) : Except PyErr String :=
  match lookup row "created_at" with
  | some (.str s) => if s = "" then isoOr now now else isoOr s s
  | some v => if truthy v then .ok now else isoOr now now
  | none => isoOr now now

def updatedAtOf (row : List (String × Json)) (createdAt : String) : Except PyErr String :=
  match lookup row "updated_at" with
  | some (.str s) => if s = "" then isoOr createdAt createdAt else isoOr s s
  | some v => if truthy v then .ok createdAt else isoOr createdAt createdAt
  | none => isoOr createdAt createdAt

def weightOf [PyFloat] (row : List (String × Json)) : Except PyErr (Option FloatLit) :=
  match lookup row "weight" with
  | none | some .null | some (.str "") => .ok none
  | some (.float x) => .ok (some x)
  | some v =>
    match PyFloat.ofJson v with
    | .ok x => .ok (some x)
    | .error (.valueError _) | .error .typeError => .ok none
    | .error e => .error e

def reasonOf [PyCoerce] (row : List (String × Json)) : String := strOr (lookup row "reason") ""

/-- The `meta` object, or the text of one under `meta` or `meta_json`. -/
def metaOf (row : List (String × Json)) : Dict String Json :=
  let raw := match lookup row "meta" with
    | none | some .null => lookup row "meta_json"
    | some v => some v
  match raw with
  | some (.obj kvs) => .ofList kvs
  | some (.str s) =>
    match loads s.toList with
    | some (.obj kvs) => .ofList kvs
    | _ => .empty
  | _ => .empty

def schemaVersionOf [PyCoerce] (row : List (String × Json)) : Int :=
  match lookup row "schema_version" with
  | none => edgeSchemaVersion
  | some v => (pyInt v).getD edgeSchemaVersion

def durableEdgeFromDict [PyCoerce] [PyFloat] (row : List (String × Json)) (now : String) :
    Except PyErr DurableEdge := do
  let edgeId ← requireText row "edge_id" "edge_id required"
  let src ← requireText row "src_atom_id" "src_atom_id required"
  let dst ← requireText row "dst_atom_id" "dst_atom_id required"
  let kind ← kindOf row
  let createdAt ← createdAtOf row now
  let updatedAt ← updatedAtOf row createdAt
  let weight ← weightOf row
  return ⟨edgeId, src, dst, kind, createdAt, updatedAt, weight, reasonOf row, metaOf row,
    schemaVersionOf row⟩

/-- `x or y` on texts and on integers. -/
def textOr (s default : String) : String := if s = "" then default else s

def versionOr (n : Int) : Int := if n = 0 then edgeSchemaVersion else n

def weightJson : Option FloatLit → Json
  | none => .null
  | some x => .float x

/-- The row of an edge, with the given fields for its meta. -/
def edgeRow (e : DurableEdge) (metaFields : Json) (metaName : String) : List (String × Json) :=
  [("edge_id", .str e.edgeId), ("src_atom_id", .str e.srcAtomId),
    ("dst_atom_id", .str e.dstAtomId), ("edge_kind", .str e.edgeKind),
    ("created_at", .str e.createdAt), ("updated_at", .str (textOr e.updatedAt e.createdAt)),
    ("weight", weightJson e.weight), ("reason", .str e.reason), (metaName, metaFields),
    ("schema_version", .int (versionOr e.schemaVersion))]

def durableEdgeToDict (e : DurableEdge) : List (String × Json) :=
  edgeRow e (.obj e.metadata.items) "meta"

/-- A row of the `edges` table: the meta is a text column. -/
def edgeToLanceRow (e : DurableEdge) : List (String × Json) :=
  edgeRow e (.str (String.ofList (dumps (.obj e.metadata.items)))) "meta_json"

/-- What every edge in a store satisfies. -/
structure Stored (e : DurableEdge) : Prop where
  edgeId : e.edgeId ≠ ""
  src : e.srcAtomId ≠ ""
  dst : e.dstAtomId ≠ ""
  kind : e.edgeKind ≠ ""
  created : ∃ t, e.createdAt = isoZ t
  updated : ∃ t, e.updatedAt = isoZ t
  version : e.schemaVersion ≠ 0

section Codec

variable [PyCoerce] [PyFloat]

omit [PyCoerce] [PyFloat] in
theorem requireText_of_lookup (row : List (String × Json)) (field msg s : String)
    (hl : lookup row field = some (.str s)) (hs : s ≠ "") :
    requireText row field msg = .ok s := by
  rw [requireText, hl]
  exact if_neg hs

theorem fromDict_of_lookups (row : List (String × Json)) (now : String) (e : DurableEdge)
    (he : Stored e) (hid : lookup row "edge_id" = some (.str e.edgeId))
    (hsrc : lookup row "src_atom_id" = some (.str e.srcAtomId))
    (hdst : lookup row "dst_atom_id" = some (.str e.dstAtomId))
    (hkind : lookup row "edge_kind" = some (.str e.edgeKind))
    (hcreated : lookup row "created_at" = some (.str e.createdAt))
    (hupdated : lookup row "updated_at" = some (.str e.updatedAt))
    (hweight : lookup row "weight" = some (weightJson e.weight))
    (hreason : lookup row "reason" = some (.str e.reason))
    (hmeta : metaOf row = e.metadata)
    (hversion : lookup row "schema_version" = some (.int e.schemaVersion)) :
    durableEdgeFromDict row now = .ok e := by
  obtain ⟨t, ht⟩ := he.created
  obtain ⟨u, hu⟩ := he.updated
  have h1 := requireText_of_lookup row "edge_id" "edge_id required" _ hid he.edgeId
  have h2 := requireText_of_lookup row "src_atom_id" "src_atom_id required" _ hsrc he.src
  have h3 := requireText_of_lookup row "dst_atom_id" "dst_atom_id required" _ hdst he.dst
  have h4 : kindOf row = .ok e.edgeKind := by
    have hr := requireText_of_lookup row "edge_kind" "edge_kind required" _ hkind he.kind
    simp [kindOf, hkind, truthy, he.kind, hr]
  have h5 : createdAtOf row now = .ok e.createdAt := by
    simp [createdAtOf, hcreated, ht, isoZ_ne_empty]
  have h6 : updatedAtOf row e.createdAt = .ok e.updatedAt := by
    simp [updatedAtOf, hupdated, hu, isoZ_ne_empty]
  have h7 : weightOf row = .ok e.weight := by
    cases hw : e.weight <;> simp [weightOf, hweight, hw, weightJson]
  have h8 : reasonOf row = e.reason := by
    rw [reasonOf, hreason]
    apply strOr_str
    by_cases h : e.reason = ""
    · exact .inr h
    · exact .inl h
  have h9 : schemaVersionOf row = e.schemaVersion := by
    simp [schemaVersionOf, hversion]
  rw [durableEdgeFromDict, h1, h2, h3, h4]
  show (createdAtOf row now >>= _) = _
  rw [h5]
  show (updatedAtOf row e.createdAt >>= _) = _
  rw [h6, h7, h8, hmeta, h9]
  rfl

omit [PyCoerce] [PyFloat] in
theorem edgeRow_text (e : DurableEdge) (he : Stored e) :
    textOr e.updatedAt e.createdAt = e.updatedAt ∧ versionOr e.schemaVersion = e.schemaVersion := by
  obtain ⟨u, hu⟩ := he.updated
  refine ⟨if_neg ?_, if_neg he.version⟩
  rw [hu]
  exact isoZ_ne_empty u

theorem fromDict_toDict (e : DurableEdge) (now : String) (he : Stored e) :
    durableEdgeFromDict (durableEdgeToDict e) now = .ok e := by
  obtain ⟨hu, hv⟩ := edgeRow_text e he
  apply fromDict_of_lookups _ now e he
  all_goals simp [durableEdgeToDict, edgeRow, lookup, hu, hv, metaOf, Dict.ofList_items]

theorem fromDict_lanceRow (e : DurableEdge) (now : String) (he : Stored e) :
    durableEdgeFromDict (edgeToLanceRow e) now = .ok e := by
  obtain ⟨hu, hv⟩ := edgeRow_text e he
  apply fromDict_of_lookups _ now e he
  all_goals simp [edgeToLanceRow, edgeRow, lookup, hu, hv, metaOf, loads_dumps, Dict.ofList_items]

end Codec

/-- One reading of the clock and one draw of a new id. -/
structure Stamp where
  now : Instant
  hex : String

namespace Stamp

def nowIso (s : Stamp) : String := isoZ s.now

def newEdgeId (s : Stamp) : String := "e_" ++ s.hex

theorem newEdgeId_ne_empty (s : Stamp) : s.newEdgeId ≠ "" := by
  intro h
  have hlen := congrArg String.length h
  simp [newEdgeId] at hlen

end Stamp

def firstInstant : Instant := ⟨0, zero_lt_instantCount⟩

/-- Ids by number, under a clock that stands still. -/
def sampleStamp (n : Nat) : Stamp := ⟨firstInstant, String.ofList (natChars n)⟩

def orNow (text now : String) : Except PyErr String :=
  if text = "" then .ok now else isoOr text now

/-- Normalize timestamps and ids; an edge of the same key keeps its id and creation time. -/
def prepareEdgeForPut (edge : DurableEdge) (existing : Option DurableEdge) (stamp : Stamp) :
    Except PyErr DurableEdge := do
  let created ← orNow edge.createdAt stamp.nowIso
  let updated ← orNow edge.updatedAt stamp.nowIso
  let edgeId := textOr edge.edgeId stamp.newEdgeId
  if edge.srcAtomId = "" ∨ edge.dstAtomId = "" ∨ edge.edgeKind = "" then
    throw (.valueError [.text "src_atom_id, dst_atom_id, and edge_kind are required"])
  return { edge with
    edgeId := (existing.map DurableEdge.edgeId).getD edgeId
    createdAt := (existing.map (fun old => textOr old.createdAt created)).getD created
    updatedAt := (existing.map (fun _ => stamp.nowIso)).getD updated
    schemaVersion := versionOr edge.schemaVersion }

theorem orNow_shape (text iso : String) (s : Stamp) (h : orNow text s.nowIso = .ok iso) :
    ∃ t, iso = isoZ t := by
  unfold orNow at h
  split_ifs at h
  · exact ⟨s.now, (Except.ok.inj h).symm⟩
  · obtain rfl | ht := isoOr_shape _ _ _ h
    · exact ⟨s.now, rfl⟩
    · exact ht

theorem versionOr_ne_zero (n : Int) : versionOr n ≠ 0 := by
  unfold versionOr
  split_ifs with h
  · decide
  · exact h

theorem prepare_shape (edge p : DurableEdge) (existing : Option DurableEdge) (s : Stamp)
    (h : prepareEdgeForPut edge existing s = .ok p) :
    ∃ created updated, orNow edge.createdAt s.nowIso = .ok created ∧
      orNow edge.updatedAt s.nowIso = .ok updated ∧
      (edge.srcAtomId ≠ "" ∧ edge.dstAtomId ≠ "" ∧ edge.edgeKind ≠ "") ∧
      p = { edge with
        edgeId := (existing.map DurableEdge.edgeId).getD (textOr edge.edgeId s.newEdgeId)
        createdAt := (existing.map (fun old => textOr old.createdAt created)).getD created
        updatedAt := (existing.map (fun _ => s.nowIso)).getD updated
        schemaVersion := versionOr edge.schemaVersion } := by
  unfold prepareEdgeForPut at h
  cases hc : orNow edge.createdAt s.nowIso with
  | error e =>
    rw [hc] at h
    cases h
  | ok created =>
    cases hu : orNow edge.updatedAt s.nowIso with
    | error e =>
      rw [hc, hu] at h
      cases h
    | ok updated =>
      rw [hc, hu] at h
      by_cases hreq : edge.srcAtomId = "" ∨ edge.dstAtomId = "" ∨ edge.edgeKind = ""
      · simp only [bind, Except.bind, hreq, if_true] at h
        cases h
      · simp only [bind, Except.bind, hreq, if_false] at h
        simp only [not_or] at hreq
        exact ⟨created, updated, rfl, rfl, hreq, (Except.ok.inj h).symm⟩

theorem prepare_edgeId (edge p : DurableEdge) (existing : Option DurableEdge) (s : Stamp)
    (h : prepareEdgeForPut edge existing s = .ok p) :
    p.edgeId = (existing.map DurableEdge.edgeId).getD (textOr edge.edgeId s.newEdgeId) := by
  obtain ⟨created, updated, -, -, -, hp⟩ := prepare_shape edge p existing s h
  rw [hp]

theorem textOr_newEdgeId_ne_empty (id : String) (s : Stamp) : textOr id s.newEdgeId ≠ "" := by
  unfold textOr
  split_ifs with he
  · exact s.newEdgeId_ne_empty
  · exact he

/-- A prepared edge has the stored shape and the key of the edge that was given. -/
theorem prepare_spec (edge p : DurableEdge) (existing : Option DurableEdge) (s : Stamp)
    (h : prepareEdgeForPut edge existing s = .ok p) (hold : ∀ old ∈ existing, Stored old) :
    Stored p ∧ p.identityKey = edge.identityKey := by
  obtain ⟨created, updated, hc, hu, ⟨hsrc, hdst, hkind⟩, hp⟩ := prepare_shape edge p existing s h
  rw [hp]
  refine ⟨⟨?_, hsrc, hdst, hkind, ?_, ?_, versionOr_ne_zero _⟩, rfl⟩
  · cases existing with
    | none => exact textOr_newEdgeId_ne_empty edge.edgeId s
    | some old => exact (hold old rfl).edgeId
  · cases existing with
    | none => exact orNow_shape _ _ s hc
    | some old =>
      obtain ⟨t, ht⟩ := (hold old rfl).created
      refine ⟨t, ?_⟩
      show textOr old.createdAt created = isoZ t
      rw [textOr, ht, if_neg (isoZ_ne_empty t)]
  · cases existing with
    | none => exact orNow_shape _ _ s hu
    | some old => exact ⟨s.now, rfl⟩

end Elyra.Memory
