import Elyra.Memory.EdgeBudgetHolds

namespace Elyra.Memory

open EdgeIndex EdgeStore

/-- A disk that also keeps what was written on it and erased from it. -/
structure Recorded (δ : Type) where
  disk : δ
  log : List EdgeEvent

instance {δ : Type} [EdgeDisk δ] : EdgeDisk (Recorded δ) where
  write e d := ⟨EdgeDisk.write e d.disk, d.log ++ [.put e]⟩
  erase id d := ⟨EdgeDisk.erase id d.disk, d.log ++ [.drop id]⟩
  dropsReplaced := EdgeDisk.dropsReplaced δ

/-- The index after a part of a log. -/
def indexAfter (ix : EdgeIndex) (events : List EdgeEvent) : EdgeIndex :=
  events.foldl EdgeEvent.apply ix

/-- The event at this place of a log drops this edge. -/
def DropsAt (ix : EdgeIndex) (events : List EdgeEvent) (i : Nat) (e : DurableEdge) : Prop :=
  events[i]? = some (.drop e.edgeId) ∧ (indexAfter ix (events.take i)).find e.edgeId = some e

deriving instance DecidableEq for EdgeEvent

def EdgeEvent.isPut : EdgeEvent → Bool
  | .put _ => true
  | .drop _ => false

def writes (events : List EdgeEvent) : Nat := events.countP EdgeEvent.isPut

def drops (events : List EdgeEvent) : Nat := events.countP fun e => !e.isPut

def dropEvents (edges : List DurableEdge) : List EdgeEvent :=
  edges.map fun e => .drop e.edgeId

section Log

variable {ix : EdgeIndex} {events more : List EdgeEvent}

theorem indexAfter_append (ix : EdgeIndex) (events more : List EdgeEvent) :
    indexAfter ix (events ++ more) = indexAfter (indexAfter ix events) more := List.foldl_append

theorem dropsAt_append {i : Nat} {e : DurableEdge} : DropsAt ix (events ++ more) i e ↔
    (i < events.length ∧ DropsAt ix events i e) ∨
      (events.length ≤ i ∧ DropsAt (indexAfter ix events) more (i - events.length) e) := by
  unfold DropsAt
  by_cases hlt : i < events.length
  · rw [List.getElem?_append_left hlt, List.take_append_of_le_length (le_of_lt hlt)]
    constructor
    · exact fun h => .inl ⟨hlt, h⟩
    · rintro (⟨-, h⟩ | ⟨hle, -⟩)
      · exact h
      · omega
  · have hle : events.length ≤ i := not_lt.mp hlt
    rw [List.getElem?_append_right hle, List.take_append, List.take_of_length_le hle,
      indexAfter_append]
    constructor
    · exact fun h => .inr ⟨hle, h⟩
    · rintro (⟨hin, -⟩ | ⟨-, h⟩)
      · exact absurd hin hlt
      · exact h

theorem writes_append (events more : List EdgeEvent) :
    writes (events ++ more) = writes events + writes more := List.countP_append

theorem drops_append (events more : List EdgeEvent) :
    drops (events ++ more) = drops events + drops more := List.countP_append

theorem writes_put (p : DurableEdge) (events : List EdgeEvent) :
    writes (.put p :: events) = writes events + 1 := List.countP_cons_of_pos rfl

/-- What is left after drops was there before. -/
theorem find_dropEvents (edges : List DurableEdge) (ix : EdgeIndex) (j : String) :
    (indexAfter ix (dropEvents edges)).find j =
      if j ∈ edges.map DurableEdge.edgeId then none else ix.find j := by
  induction edges generalizing ix with
  | nil => simp [dropEvents, indexAfter]
  | cons e edges ih =>
    show (indexAfter (ix.indexRemove e.edgeId) (dropEvents edges)).find j = _
    rw [ih, find_indexRemove, List.map_cons]
    by_cases hself : j = e.edgeId
    · simp [hself]
    · simp [hself]

/-- Drops of edges that are there drop those edges. -/
theorem mem_of_dropsAt {edges : List DurableEdge}
    (hin : ∀ e ∈ edges, ix.find e.edgeId = some e) {i : Nat} {e : DurableEdge}
    (h : DropsAt ix (dropEvents edges) i e) : e ∈ edges := by
  obtain ⟨hevent, hfind⟩ := h
  obtain ⟨f, hf, hid⟩ : ∃ f ∈ edges, f.edgeId = e.edgeId := by
    rw [dropEvents, List.getElem?_map] at hevent
    obtain ⟨f, hf, heq⟩ := Option.map_eq_some_iff.mp hevent
    exact ⟨f, List.mem_of_getElem? hf, EdgeEvent.drop.inj heq⟩
  have htake : (dropEvents edges).take i = dropEvents (edges.take i) := by
    rw [dropEvents, dropEvents, List.map_take]
  rw [htake, find_dropEvents] at hfind
  split_ifs at hfind
  rw [← hid, hin f hf] at hfind
  rw [← Option.some.inj hfind]
  exact hf

end Log

section Frame

/-- A put that takes no other edge's id and no other edge's key. -/
structure CleanPut (ix : EdgeIndex) (p : DurableEdge) : Prop where
  key : ∀ i, ix.byKey.get? p.identityKey = some i → i = p.edgeId
  id : ∀ f, ix.find p.edgeId = some f → f.identityKey = p.identityKey

def CleanLog (ix : EdgeIndex) : List EdgeEvent → Prop
  | [] => True
  | .put p :: events => CleanPut ix p ∧ CleanLog (ix.indexPut p) events
  | .drop id :: events => CleanLog (ix.indexRemove id) events

theorem clean_append {ix : EdgeIndex} {events more : List EdgeEvent} (h : CleanLog ix events)
    (hmore : CleanLog (indexAfter ix events) more) : CleanLog ix (events ++ more) := by
  induction events generalizing ix with
  | nil => exact hmore
  | cons event events ih =>
    cases event with
    | put p => exact ⟨h.1, ih h.2 hmore⟩
    | drop id => exact ih h hmore

theorem clean_dropEvents (ix : EdgeIndex) (edges : List DurableEdge) :
    CleanLog ix (dropEvents edges) := by
  induction edges generalizing ix with
  | nil => trivial
  | cons e edges ih => exact ih (ix.indexRemove e.edgeId)

end Frame
end Elyra.Memory
