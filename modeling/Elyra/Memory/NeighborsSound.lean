import Elyra.Memory.GraphNeighbors
import Elyra.Memory.PutSpec

namespace Elyra.Memory.Graph

variable {Score Vec : Type} {g : GraphView Score Vec} {late : Nat → Bool} {exclude : List String}

/-- An edge of some kind to a stored atom that is not excluded. -/
structure Reaches (g : GraphView Score Vec) (exclude : List String) (kind : EdgeKind)
    (e : GraphEdge Score) : Prop where
  kind : e.edgeKind = kind
  included : e.dstAtomId ∉ exclude
  stored : (g.store.byId.get? e.dstAtomId).isSome

/-- The hits of the index carry rows of the store. -/
def HitsStored (g : GraphView Score Vec) : Prop :=
  ∀ semantic, g.semantic = some semantic → ∀ vec k channel excluded hits,
    semantic.search vec k channel excluded = .ok hits →
      ∀ hit ∈ hits, ∀ a, hit.atom = some a → g.store.byId.get? hit.atomId = some a

section Projections

variable {atom : Atom}

theorem weightEdge_some {kind : EdgeKind} {srcId : String} {dst : Atom} {cosine : Option Score}
    {reason : String} {n t : Nat} {e : GraphEdge Score}
    (h : weightEdge g kind srcId dst cosine reason n = .ok (some e) t) :
    e.edgeKind = kind ∧ e.dstAtomId = dst.atomId := by
  obtain ⟨m, u, -, h⟩ := run_bind_ok h
  obtain ⟨w, v, -, h⟩ := run_bind_ok h
  rw [run_ite] at h
  split_ifs at h
  · cases h
    exact ⟨rfl, rfl⟩
  · cases h

/-- The edge to a stored atom. -/
theorem reaches_of_weight {kind : EdgeKind} {srcId : String} {dst : Atom} {cosine : Option Score}
    {reason : String} (hincluded : dst.atomId ∉ exclude)
    (hstored : g.store.byId.get? dst.atomId = some dst) {n t : Nat} {e : GraphEdge Score}
    (h : weightEdge g kind srcId dst cosine reason n = .ok (some e) t) :
    Reaches g exclude kind e := by
  obtain ⟨hkind, hdst⟩ := weightEdge_some h
  refine ⟨hkind, ?_, ?_⟩
  · rw [hdst]
    exact hincluded
  · rw [hdst, hstored]
    rfl

theorem edgeTo_reaches (hs : Keyed g.store) {kind : EdgeKind} {accepts : Atom → Bool}
    {cosine : Option Score} {reason dstId : String} {n t : Nat} {e : GraphEdge Score}
    (h : edgeTo g exclude kind atom accepts cosine reason dstId n = .ok (some e) t) :
    Reaches g exclude kind e := by
  rw [edgeTo, run_ite] at h
  split_ifs at h with hskip
  · cases h
  · cases hdst : g.store.byId.get? dstId with
    | none =>
      rw [hdst] at h
      cases h
    | some dst =>
      have hid := hs dstId dst hdst
      rw [hdst] at h
      dsimp only at h
      rw [run_ite] at h
      split_ifs at h
      · refine reaches_of_weight ?_ ?_ h
        · rw [hid]
          exact fun hin => hskip (.inr (.inl hin))
        · rw [hid]
          exact hdst
      · cases h

/-- An expansion whose edges are all of a kind. -/
abbrev Reaching (g : GraphView Score Vec) (exclude : List String) (kind : EdgeKind)
    (part : Expand (List (GraphEdge Score))) : Prop :=
  Emits (Reaches g exclude kind) part

theorem collect_edgeTo (hs : Keyed g.store) {kind : EdgeKind} {accepts : Atom → Bool}
    {reason : String} (stop : Nat → Expand Bool) (ids : List String) :
    Reaching g exclude kind
      (collect stop (edgeTo g exclude kind atom accepts none reason) ids []) :=
  Emits.collect (fun _ _ _ _ _ h => edgeTo_reaches hs h) (fun _ h => (nomatch h))

theorem one_edge {kind : EdgeKind} {part : Expand (Option (GraphEdge Score))}
    (h : ∀ n e t, part n = .ok (some e) t → Reaches g exclude kind e) :
    Reaching g exclude kind (do
      let e ← part
      return e.toList) := by
  intro n es t hrun e he
  obtain ⟨o, u, ho, hrun⟩ := run_bind_ok hrun
  cases hrun
  cases o with
  | none => cases he
  | some e' =>
    obtain rfl := List.mem_singleton.mp he
    exact h n e _ ho

theorem projectSequential_reaches (hs : Keyed g.store) :
    Reaching g exclude .sequential (projectSequential g late exclude atom) :=
  Emits.collect (fun _ _ _ _ _ h => edgeTo_reaches hs h) (fun _ h => (nomatch h))

theorem projectChildOf_reaches (hs : Keyed g.store) :
    Reaching g exclude .childOf (projectChildOf g exclude atom) :=
  one_edge fun _ _ _ h => edgeTo_reaches hs h

theorem walkFrom_mem (s : JsonlMemoryStore) (n : Nat) (cur : Atom) (seen : List String) :
    ∀ a ∈ walkFrom s n cur seen, ∃ id, s.byId.get? id = some a := by
  induction n generalizing cur seen with
  | zero => exact fun _ h => (nomatch h)
  | succ n ih =>
    intro a ha
    rw [walkFrom] at ha
    cases hnext : cur.nextAtomId with
    | none =>
      rw [hnext] at ha
      cases ha
    | some id =>
      rw [hnext] at ha
      dsimp only at ha
      split_ifs at ha
      · cases ha
      · cases hrow : s.byId.get? id with
        | none =>
          rw [hrow] at ha
          cases ha
        | some next =>
          rw [hrow] at ha
          obtain rfl | ha := List.mem_cons.mp ha
          · exact ⟨id, hrow⟩
          · exact ih next _ a ha

theorem walkNext_mem (s : JsonlMemoryStore) (atomId : String) (n : Nat) :
    ∀ a ∈ walkNext s atomId n, ∃ id, s.byId.get? id = some a := by
  intro a ha
  cases n with
  | zero => cases ha
  | succ n =>
    cases hstart : s.byId.get? atomId with
    | none =>
      simp only [walkNext, hstart] at ha
      cases ha
    | some start =>
      simp only [walkNext, hstart] at ha
      obtain rfl | ha := List.mem_cons.mp ha
      · exact ⟨atomId, hstart⟩
      · exact walkFrom_mem s n start _ a ha

theorem listByMoment_mem {s : JsonlMemoryStore} {momentId : String} {a : Atom}
    (h : a ∈ s.listByMoment momentId none none) : a ∈ rows s := by
  obtain ⟨hrow, -⟩ := List.mem_filter.mp h
  rw [momentAtoms, mem_sortBy] at hrow
  exact (List.mem_filter.mp hrow).1

section Parcels

variable [PyCoerce]

theorem resolveParentChildren_mem (hs : Keyed g.store) {a : Atom}
    (h : a ∈ resolveParentChildren g atom) : g.store.byId.get? a.atomId = some a := by
  have hchain (h : a ∈ parcelChain g atom) : g.store.byId.get? a.atomId = some a := by
    rw [parcelChain] at h
    cases hfirst : atom.metadata.get? "first_parcel_id" with
    | none =>
      rw [hfirst] at h
      cases h
    | some first =>
      rw [hfirst] at h
      dsimp only at h
      by_cases hset : truthy first = true
      · rw [if_pos hset] at h
        obtain ⟨id, hid⟩ := walkNext_mem g.store _ _ a (List.mem_filter.mp h).1
        rw [hs id a hid]
        exact hid
      · rw [if_neg hset] at h
        cases h
  have hmoment (h : a ∈ childrenViaMoment g atom) : g.store.byId.get? a.atomId = some a := by
    rw [childrenViaMoment] at h
    split_ifs at h
    · cases h
    · have hrow := (List.mem_filter.mp (List.mem_of_mem_take h)).1
      exact (hs.mem_rows a).mp (listByMoment_mem hrow)
  rw [resolveParentChildren] at h
  dsimp only at h
  split_ifs at h
  · cases h
  · exact hchain h
  · exact hmoment h

theorem projectParentOf_reaches (hs : Keyed g.store) :
    Reaching g exclude .parentOf (projectParentOf g late exclude atom) := by
  refine Emits.collect ?_ (fun _ h => (nomatch h))
  intro child hchild n e t h
  rw [run_ite] at h
  split_ifs at h with hskip
  · cases h
  · exact reaches_of_weight (fun hin => hskip (.inl hin)) (resolveParentChildren_mem hs hchild) h

theorem projectSummaryChild_reaches (hs : Keyed g.store) :
    Reaching g exclude .summaryChild (projectSummaryChild g late exclude atom) :=
  Emits.ite (fun _ => Emits.nil) fun _ => collect_edgeTo hs _ _

theorem projectSummarySource_reaches (hs : Keyed g.store) :
    Reaching g exclude .summarySource (projectSummarySource g late exclude atom) :=
  Emits.ite (fun _ => Emits.nil) fun _ => collect_edgeTo hs _ _

theorem projectSupersedes_reaches (hs : Keyed g.store) :
    Reaching g exclude .supersedes (projectSupersedes g exclude atom) :=
  Emits.ite (fun _ => Emits.nil) fun _ => one_edge fun _ _ _ h => edgeTo_reaches hs h

end Parcels

theorem projectSemanticHop_reaches (hs : Keyed g.store) (hhits : HitsStored g) :
    Reaching g exclude .semanticHop (projectSemanticHop g late exclude atom) := by
  rw [projectSemanticHop]
  cases hreads : (if g.cfg.allowSemantic then g.semantic else none) with
  | none => exact Emits.nil
  | some semantic =>
    have hsemantic : g.semantic = some semantic := by
      split_ifs at hreads
      exact hreads
    refine Emits.bind fun _ => Emits.ite (fun _ => Emits.nil) fun _ => ?_
    refine Emits.ite (fun _ => Emits.nil) fun _ => ?_
    cases attemptRead (semantic.encodeText (stripText atom.contentText)) with
    | none => exact Emits.nil
    | some vec =>
      cases vec with
      | none => exact Emits.nil
      | some vec =>
        refine Emits.bind fun _ => Emits.ite (fun _ => Emits.nil) fun _ => ?_
        refine Emits.bind fun channel => Emits.ite (fun _ => Emits.nil) fun _ => ?_
        cases hsearch : semantic.search vec (g.cfg.semanticK + 1) channel
            (exclude ++ [atom.atomId]) with
        | error err => exact Emits.nil
        | ok hits =>
          refine Emits.bind fun _ => Emits.collect ?_ (fun _ h => (nomatch h))
          intro hit hhit n e t h
          rw [hitEdge, run_ite] at h
          split_ifs at h with hskip
          · cases h
          · have hrow : ∀ dst, hit.atom.or (g.store.byId.get? hit.atomId) = some dst →
                g.store.byId.get? hit.atomId = some dst := by
              intro dst hdst
              cases hatom : hit.atom with
              | none =>
                rw [hatom] at hdst
                exact hdst
              | some a =>
                rw [hatom] at hdst
                rw [← Option.some.inj hdst]
                exact hhits semantic hsemantic vec _ channel _ hits hsearch hit hhit a hatom
            cases hdst : hit.atom.or (g.store.byId.get? hit.atomId) with
            | none =>
              rw [hdst] at h
              cases h
            | some dst =>
              have hstored := hrow dst hdst
              have hid := hs hit.atomId dst hstored
              rw [hdst] at h
              refine reaches_of_weight ?_ ?_ h
              · rw [hid]
                exact fun hin => hskip (.inr (.inr hin))
              · rw [hid]
                exact hstored

variable [LinearOrder Score]

theorem projectSameMoment_reaches (hs : Keyed g.store) :
    Reaching g exclude .sameMoment (projectSameMoment g late exclude atom) := by
  refine Emits.ite (fun _ => Emits.nil) fun _ => ?_
  refine Emits.bind_items (R := Reaches g exclude .sameMoment) ?_ ?_
  · refine Emits.collect ?_ (fun _ h => (nomatch h))
    intro peer hpeer n e t h
    obtain ⟨hrow, hkeep⟩ := List.mem_filter.mp hpeer
    have hincluded : peer.atomId ∉ exclude := (of_decide_eq_true hkeep).2
    exact reaches_of_weight hincluded ((hs.mem_rows peer).mp (listByMoment_mem hrow)) h
  · intro scored hscored
    refine Emits.return_of ?_
    intro e he
    exact hscored e ((mem_sortBy _ _ _).mp (List.mem_of_mem_take he))

theorem expandMoment_reaches (hs : Keyed g.store) (atomId momentId : Option String)
    (k : Option Int) : Reaching g exclude .inMoment (expandMoment g exclude atomId momentId k) := by
  refine Emits.ite (fun _ => Emits.nil) fun _ => ?_
  refine Emits.bind_items (R := Reaches g exclude .inMoment) ?_ ?_
  · refine Emits.collect ?_ (fun _ h => (nomatch h))
    intro id hid n e t h
    have hincluded : id ∉ exclude := by
      have hkeep := of_decide_eq_true (List.mem_filter.mp hid).2
      exact fun hin => hkeep (List.mem_append_left _ hin)
    cases hdst : g.store.byId.get? id with
    | none =>
      rw [hdst] at h
      cases h
    | some dst =>
      have hself := hs id dst hdst
      rw [hdst] at h
      refine reaches_of_weight ?_ ?_ h
      · rw [hself]
        exact hincluded
      · rw [hself]
        exact hdst
  · intro edges hedges
    refine Emits.return_of ?_
    intro e he
    exact hedges e ((mem_sortBy _ _ _).mp he)

end Projections
end Elyra.Memory.Graph
