import Elyra.Memory.RetargetLog

namespace Elyra.Memory

open Json EdgeIndex EdgeStore

section Plan

variable {cfg : EdgeSettings}

/-- One edge beyond a list within its caps. -/
structure OneMore (cfg : EdgeSettings) (p : DurableEdge) (old new : List DurableEdge) : Prop where
  within : WithinCaps cfg old
  nodup : (new.map DurableEdge.edgeId).Nodup
  rest : ∀ e ∈ new, e = p ∨ e ∈ old

variable {p : DurableEdge} {old new : List DurableEdge}

theorem OneMore.length (h : OneMore cfg p old new) : new.length ≤ old.length + 1 := by
  have hsub : new ⊆ p :: old := by
    intro e he
    rcases h.rest e he with rfl | hold
    · exact List.mem_cons_self
    · exact List.mem_cons_of_mem _ hold
  have hlen := (List.subperm_of_subset (List.Nodup.of_map _ h.nodup) hsub).length_le
  rw [List.length_cons] at hlen
  exact hlen

end Plan

section Books

variable {stampAt : Nat → Stamp} {δ : Type} [EdgeDisk δ] {atoms : AtomStore} {cfg : EdgeSettings}

/-- A run that writes at most `n` edges and drops no more than it writes. -/
structure Balanced (cfg : EdgeSettings) (src : String) (n : Nat)
    (s t : EdgeStore (Recorded δ)) : Prop where
  books : ∃ events, Ran s t events ∧ writes events ≤ n ∧ drops events ≤ writes events
  within : WithinCaps cfg (t.index.outgoing src)

omit [EdgeDisk δ] in
theorem Balanced.trans {src : String} {m n : Nat} {s t u : EdgeStore (Recorded δ)}
    (h : Balanced cfg src m s t) (k : Balanced cfg src n t u) :
    Balanced cfg src (m + n) s u := by
  obtain ⟨events, hran, hwrites, hdrops⟩ := h.books
  obtain ⟨more, hran', hwrites', hdrops'⟩ := k.books
  refine ⟨⟨events ++ more, hran.trans hran', ?_, ?_⟩, k.within⟩
  · rw [writes_append]
    omega
  · rw [writes_append, drops_append]
    omega

omit [EdgeDisk δ] in
theorem Balanced.refl {src : String} {s : EdgeStore (Recorded δ)}
    (h : WithinCaps cfg (s.index.outgoing src)) : Balanced cfg src 0 s s :=
  ⟨⟨[], Ran.refl s s.stamps, le_rfl, le_rfl⟩, h⟩

end Books

section Call

variable {stampAt : Nat → Stamp} {δ : Type} [EdgeDisk δ] {atoms : AtomStore} {cfg : EdgeSettings}

end Call

section Sample

deriving instance DecidableEq for AtomView

def toAtom (dst : String) : DurableEdge :=
  { edgeId := "", srcAtomId := "s", dstAtomId := dst, edgeKind := createdWith, createdAt := "" }

def written (id dst : String) : DurableEdge :=
  { toAtom dst with
    edgeId := id, createdAt := isoZ firstInstant, updatedAt := isoZ firstInstant }

end Sample
end Elyra.Memory
