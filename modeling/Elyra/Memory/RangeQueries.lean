import Elyra.Memory.MemoryStore
import Elyra.Memory.Windows

namespace Elyra.Memory

/-- `to_iso_z` of a field that is empty when it is not set. -/
def isoOrEmpty (ts : Option String) : Except PyErr String :=
  if missing ts then .ok "" else toIsoZ (ts.getD "")

/-- Rows with a sort key each, by the key. -/
def sortKeyed {α β : Type} [LinearOrder β] (key : α → Except PyErr β) (rows : List α) :
    Except PyErr (List (β × α)) := do
  let keyed ← rows.mapM fun a => return (← key a, a)
  return sortBy Prod.fst keyed

/-- The sort key of an atom: its start in `Z` form, then its id. -/
def startKey (a : Atom) : Except PyErr (String ×ₗ String) := do
  return toLex (← toIsoZ a.tStart, a.atomId)

/-- The filters of a range query beside its bounds. -/
def passes (kinds : Option (List String)) (excludeMomentId : Option String) (a : Atom) : Bool :=
  !(!missing excludeMomentId && decide (a.momentId = excludeMomentId)) &&
    (match kinds with
      | none => true
      | some ks => a.kind ∈ ks)

/-- The rows kept until the limit is reached; the length is compared after a row was added. -/
def untilLimit {α : Type} (limit : Option Int) (rows : List α) : List α :=
  match limit with
  | none => rows
  | some n => rows.take (max 1 n.toNat)

namespace JsonlMemoryStore

/-- Half-open `[tStart, tEnd)` by the `Z` text of each start; oldest first. -/
def listRange (s : JsonlMemoryStore) (tStart tEnd : String) (kinds : Option (List String))
    (excludeMomentId : Option String) (limit : Option Int) : Except PyErr (List Atom) := do
  let start ← toIsoZ tStart
  let stop ← toIsoZ tEnd
  let rows ← sortKeyed startKey s.byId.values
  let inRange := rows.filter fun p => ¬p.1.1 < start ∧ p.1.1 < stop ∧ passes kinds excludeMomentId p.2
  return (untilLimit limit inRange).map Prod.snd

/-- The summary's window meets the given one; without a window every summary does. -/
def overlaps (overlapping : Option (String × String)) (a : Atom) : Except PyErr Bool :=
  match overlapping with
  | none => return true
  | some (start, stop) => do
    let ws ← isoOrEmpty a.windowStart
    let we ← isoOrEmpty a.windowEnd
    return ws < stop && start < we

def filterOverlaps (overlapping : Option (String × String)) (rows : List Atom) :
    Except PyErr (List Atom) := do
  let flagged ← rows.mapM fun a => return (← overlaps overlapping a, a)
  return (flagged.filter Prod.fst).map Prod.snd

def windowKey (a : Atom) : Except PyErr (String ×ₗ String) := do
  return toLex (← isoOrEmpty a.windowStart, a.atomId)

/-- The atoms the ladder index names for a scale. -/
def tipRows (s : JsonlMemoryStore) (scale : String) : List Atom :=
  s.ladder.items.filterMap fun p => if p.1.1 = scale then s.byId.get? p.2 else none

/-- The tips of a scale, by their window. -/
def listTips (s : JsonlMemoryStore) (scale : String) (overlapping : Option (String × String))
    (limit : Int) : Except PyErr (List Atom) := do
  let bounds ← overlapping.mapM fun o => return (← toIsoZ o.1, ← toIsoZ o.2)
  let rows ← filterOverlaps bounds (s.tipRows scale)
  let sorted ← sortKeyed windowKey rows
  return (sorted.map Prod.snd).take limit.toNat

section Archive

variable [PyCoerce]

def versionOrder (a : Atom) : Except PyErr (String ×ₗ Int ×ₗ String) := do
  return toLex (← isoOrEmpty a.windowStart, toLex (← a.version, a.atomId))

/-- Every summary of a scale, by window and version. -/
def listVersions (s : JsonlMemoryStore) (scale : String) (overlapping : Option (String × String))
    (limit : Int) : Except PyErr (List Atom) := do
  let bounds ← overlapping.mapM fun o => return (← toIsoZ o.1, ← toIsoZ o.2)
  let rows ← filterOverlaps bounds
    (s.byId.values.filter fun a => a.kind = "summary" ∧ a.scale = some scale)
  let sorted ← sortKeyed versionOrder rows
  return (sorted.map Prod.snd).take limit.toNat

def listSummaries (s : JsonlMemoryStore) (scale : String) (overlapping : Option (String × String))
    (limit : Int) (tipsOnly : Bool) : Except PyErr (List Atom) :=
  if tipsOnly then s.listTips scale overlapping limit
  else s.listVersions scale overlapping limit

end Archive
end JsonlMemoryStore

section Keyed

variable {α β : Type} [LinearOrder β] {key : α → Except PyErr β}

omit [LinearOrder β] in
theorem mapM_keyed (rows : List α) (keyed : List (β × α))
    (h : rows.mapM (fun a => do return (← key a, a)) = .ok keyed) :
    keyed.map Prod.snd = rows ∧ ∀ p ∈ keyed, key p.2 = .ok p.1 := by
  induction rows generalizing keyed with
  | nil =>
    rw [← Except.ok.inj h]
    exact ⟨rfl, fun _ hp => nomatch hp⟩
  | cons a rows ih =>
    rw [List.mapM_cons] at h
    obtain ⟨p, hp, h⟩ := except_bind_ok h
    obtain ⟨k, hk, hp⟩ := except_bind_ok hp
    obtain ⟨rest, hrest, h⟩ := except_bind_ok h
    obtain ⟨hsnd, hkeys⟩ := ih rest hrest
    rw [← Except.ok.inj h, ← Except.ok.inj hp]
    refine ⟨by rw [List.map_cons, hsnd], ?_⟩
    intro q hq
    obtain hhead | htail := List.mem_cons.mp hq
    · rw [hhead]
      exact hk
    · exact hkeys q htail

omit [LinearOrder β] in
theorem mapM_keyed_total (rows : List α) (hkey : ∀ a ∈ rows, ∃ k, key a = .ok k) :
    ∃ keyed, rows.mapM (fun a => do return (← key a, a)) = .ok keyed := by
  induction rows with
  | nil => exact ⟨[], rfl⟩
  | cons a rows ih =>
    obtain ⟨k, hk⟩ := hkey a List.mem_cons_self
    obtain ⟨rest, hrest⟩ := ih (fun b hb => hkey b (List.mem_cons_of_mem a hb))
    refine ⟨(k, a) :: rest, ?_⟩
    rw [List.mapM_cons, hk, hrest]
    rfl

/-- A keyed sort lists the rows with their keys, or raises when a key does. -/
theorem sortKeyed_spec (rows : List α) (sorted : List (β × α))
    (h : sortKeyed key rows = .ok sorted) :
    (sorted.map Prod.snd).Perm rows ∧ ∀ p ∈ sorted, key p.2 = .ok p.1 := by
  obtain ⟨keyed, hkeyed, h⟩ := except_bind_ok h
  obtain ⟨hsnd, hkeys⟩ := mapM_keyed rows keyed hkeyed
  rw [← Except.ok.inj h]
  refine ⟨?_, ?_⟩
  · rw [← hsnd]
    exact (sortBy_perm Prod.fst keyed).map Prod.snd
  · intro p hp
    exact hkeys p ((mem_sortBy Prod.fst keyed p).mp hp)

theorem sortKeyed_total (rows : List α) (hkey : ∀ a ∈ rows, ∃ k, key a = .ok k) :
    ∃ sorted, sortKeyed key rows = .ok sorted := by
  obtain ⟨keyed, hkeyed⟩ := mapM_keyed_total rows hkey
  refine ⟨sortBy Prod.fst keyed, ?_⟩
  rw [sortKeyed, hkeyed]
  rfl

theorem sortKeyed_keys (rows : List α) (sorted : List (β × α))
    (h : sortKeyed key rows = .ok sorted) : ∀ a ∈ rows, ∃ k, key a = .ok k ∧ (k, a) ∈ sorted := by
  obtain ⟨hperm, hkeys⟩ := sortKeyed_spec rows sorted h
  intro a ha
  obtain ⟨p, hp, rfl⟩ := List.mem_map.mp (hperm.mem_iff.mpr ha)
  exact ⟨p.1, hkeys p hp, hp⟩

theorem sortKeyed_pairwise {rows : List α} {sorted : List (β × α)}
    (h : sortKeyed key rows = .ok sorted) :
    (sorted.map Prod.snd).Pairwise fun a b => ∀ k l, key a = .ok k → key b = .ok l → k ≤ l := by
  obtain ⟨-, hkeys⟩ := sortKeyed_spec rows sorted h
  obtain ⟨keyed, -, hsort⟩ := except_bind_ok h
  have hpairs : sorted.Pairwise fun p q => p.1 ≤ q.1 := by
    rw [← Except.ok.inj hsort]
    exact pairwise_sortBy Prod.fst keyed
  rw [List.pairwise_map]
  refine hpairs.imp_of_mem ?_
  intro p q hp hq hle k l hk hl
  rw [hkeys p hp] at hk
  rw [hkeys q hq] at hl
  rw [← Except.ok.inj hk, ← Except.ok.inj hl]
  exact hle

/-- Rows in order stay as they are. -/
theorem sortKeyed_sorted {rows : List α} {sorted : List (β × α)}
    (h : sortKeyed key rows = .ok sorted)
    (hrows : rows.Pairwise fun a b => ∀ k l, key a = .ok k → key b = .ok l → k ≤ l) :
    sorted.map Prod.snd = rows := by
  obtain ⟨keyed, hkeyed, hsort⟩ := except_bind_ok h
  obtain ⟨hsnd, hkeys⟩ := mapM_keyed rows keyed hkeyed
  have hpairs : keyed.Pairwise fun p q => p.1 ≤ q.1 := by
    rw [← hsnd, List.pairwise_map] at hrows
    refine hrows.imp_of_mem ?_
    intro p q hp hq hle
    exact hle _ _ (hkeys p hp) (hkeys q hq)
  rw [← Except.ok.inj hsort, ← hsnd]
  exact congrArg (List.map Prod.snd) hpairs.insertionSort_eq

end Keyed

end Elyra.Memory
