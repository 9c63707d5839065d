import Elyra.Memory.NeighborsSound
import Mathlib.Data.List.ReduceOption

namespace Elyra.Memory.Graph

variable {Score Vec : Type} {g : GraphView Score Vec} {late : Nat → Bool} {exclude : List String}

section Gather

variable {atom : Atom} {wanted : List EdgeKind}

/-- An edge of a wanted kind to a stored atom that is not excluded. -/
structure Wanted (g : GraphView Score Vec) (exclude : List String) (wanted : List EdgeKind)
    (e : GraphEdge Score) : Prop where
  kind : e.edgeKind ∈ wanted
  included : e.dstAtomId ∉ exclude
  stored : (g.store.byId.get? e.dstAtomId).isSome

theorem Reaches.to_wanted {kind : EdgeKind} {e : GraphEdge Score} (h : Reaches g exclude kind e)
    (hkind : kind ∈ wanted) : Wanted g exclude wanted e :=
  ⟨by rw [h.kind]; exact hkind, h.included, h.stored⟩

theorem emits_inTime {P : GraphEdge Score → Prop} {c : Bool}
    {part : Expand (List (GraphEdge Score))} (h : c = true → Emits P part) :
    Emits P (inTime late c part) :=
  Emits.ite (fun hc => Emits.bind fun _ => Emits.ite (fun _ => Emits.nil) fun _ => h hc)
    fun _ => Emits.nil

theorem inTime_wanted {kind : EdgeKind} {part : Expand (List (GraphEdge Score))}
    (h : Reaching g exclude kind part) :
    Emits (Wanted g exclude wanted) (inTime late (kind ∈ wanted) part) := by
  refine emits_inTime fun hwanted => ?_
  exact h.imp fun e he => he.to_wanted (of_decide_eq_true hwanted)

theorem durableEdge_wanted (hs : Keyed g.store) {reverse : Bool} {de : DurableEdge} {n t : Nat}
    {e : GraphEdge Score} (h : durableEdge g exclude wanted atom reverse de n = .ok (some e) t) :
    Wanted g exclude wanted e := by
  rw [durableEdge] at h
  cases hkind : EdgeKind.ofText? de.edgeKind with
  | none =>
    rw [hkind] at h
    cases h
  | some kind =>
    rw [hkind] at h
    dsimp only at h
    by_cases hskip : kind ∉ wanted ∨ kind ∉ durableRealKinds
    · rw [if_pos hskip] at h
      cases h
    · rw [if_neg hskip] at h
      have hwanted : kind ∈ wanted := by
        by_contra hnot
        exact hskip (.inl hnot)
      by_cases hvirtual :
          isVirtualGraphId (stripText (if reverse then de.srcAtomId else de.dstAtomId)) = true
      · rw [if_pos hvirtual] at h
        cases h
      · rw [if_neg hvirtual] at h
        exact (edgeTo_reaches hs h).to_wanted hwanted

theorem append_all {P : GraphEdge Score → Prop} {a b : List (GraphEdge Score)}
    (ha : ∀ e ∈ a, P e) (hb : ∀ e ∈ b, P e) : ∀ e ∈ a ++ b, P e := by
  intro e he
  obtain he | he := List.mem_append.mp he
  · exact ha e he
  · exact hb e he

theorem semanticPart_wanted (hs : Keyed g.store) (hhits : HitsStored g) (a : NeighborArgs) :
    Emits (Wanted g exclude wanted) (semanticPart g late exclude a wanted atom) := by
  refine Emits.ite (fun hwanted => ?_) fun _ => Emits.nil
  have hpart : Emits (Wanted g exclude wanted) (projectSemanticHop g late exclude atom) :=
    (projectSemanticHop_reaches hs hhits).imp fun e he => he.to_wanted hwanted.1
  cases a.semanticDeadlineMs with
  | none => exact emits_inTime fun _ => hpart
  | some budget => exact Emits.ite (fun _ => Emits.nil) fun _ => hpart

theorem summaryPart_wanted [PyCoerce] (hs : Keyed g.store) (a : NeighborArgs) :
    Emits (Wanted g exclude wanted) (summaryPart g late exclude a wanted atom) := by
  have holder (walks : Bool) : Reaching g exclude .supersedes
      (if walks then projectSupersedes g exclude atom else return []) :=
    Emits.ite (fun _ => projectSupersedes_reaches hs) fun _ => Emits.nil
  refine Emits.ite (fun _ => Emits.nil) fun _ => ?_
  refine Emits.bind_items (inTime_wanted (projectSummaryChild_reaches hs)) fun children hc => ?_
  refine Emits.bind_items (inTime_wanted (projectSummarySource_reaches hs)) fun sources hsrc => ?_
  refine Emits.bind_items (inTime_wanted (holder _)) fun older ho => ?_
  exact Emits.return_of (append_all (append_all hc hsrc) ho)

variable [LinearOrder Score]

theorem projectDurable_wanted (hs : Keyed g.store) :
    Emits (Wanted g exclude wanted) (projectDurable g late exclude wanted atom) := by
  refine Emits.ite (fun _ => Emits.nil) fun _ => ?_
  have hpeers : Emits (Wanted g exclude wanted) (inTime late (decide (.inMoment ∈ wanted))
      (if !missing atom.momentId || g.edgeStore.isSome then
        expandMoment g exclude (some atom.atomId) atom.momentId none
      else return [])) := by
    apply inTime_wanted
    exact Emits.ite (fun _ => expandMoment_reaches hs _ _ _) fun _ => Emits.nil
  have hside (reverse : Bool) (edges : List DurableEdge) : Emits (Wanted g exclude wanted)
      (collect (fun _ => overTime late) (durableEdge g exclude wanted atom reverse) edges []) :=
    Emits.collect (fun _ _ _ _ _ h => durableEdge_wanted hs h) (fun _ h => (nomatch h))
  refine Emits.bind_items hpeers fun peers hp => ?_
  cases g.edgeStore with
  | none => exact Emits.return_of hp
  | some edges =>
    refine Emits.bind_items (hside false _) fun outgoing ho => ?_
    refine Emits.bind_items (emits_inTime fun _ => hside true _) fun incoming hi => ?_
    exact Emits.return_of (append_all (append_all hp ho) hi)

/-- Every source gives edges of wanted kinds to stored atoms that are not excluded. -/
theorem gatherEdges_wanted [PyCoerce] (hs : Keyed g.store) (hhits : HitsStored g)
    (a : NeighborArgs) :
    Emits (Wanted g exclude wanted) (gatherEdges g late exclude a wanted atom) := by
  refine Emits.bind_items (inTime_wanted (projectSequential_reaches hs)) fun _ hseq => ?_
  refine Emits.bind_items (inTime_wanted (projectChildOf_reaches hs)) fun _ hparents => ?_
  refine Emits.bind_items (inTime_wanted (projectParentOf_reaches hs)) fun _ hchildren => ?_
  refine Emits.bind_items (inTime_wanted (projectSameMoment_reaches hs)) fun _ hmoment => ?_
  refine Emits.bind_items (summaryPart_wanted hs a) fun _ hsummaries => ?_
  refine Emits.bind_items (emits_inTime fun _ => projectDurable_wanted hs) fun _ hdurable => ?_
  refine Emits.bind fun _ => ?_
  refine Emits.bind_items (semanticPart_wanted hs hhits a) fun _ hsemantic => ?_
  exact Emits.return_of (append_all (append_all (append_all (append_all (append_all
    (append_all hseq hparents) hchildren) hmoment) hsummaries) hdurable) hsemantic)

end Gather

section Ranking

variable [LinearOrder Score] {edges : List (GraphEdge Score)}

/-- Of the moment edges that were offered, each lost or is the winner of its destination. -/
def Settled (offered : List (GraphEdge Score)) (d : MomentDuals Score) : Prop :=
  ∀ e ∈ offered, isMomentKind e = true →
    edgeKey e ∈ d.dropKeys ∨ d.winners.get? e.dstAtomId = some e

theorem Settled.offer {offered : List (GraphEdge Score)} {d : MomentDuals Score}
    (h : Settled offered d) (e : GraphEdge Score) : Settled (offered ++ [e]) (d.offer e) := by
  intro f hf hmoment
  rw [MomentDuals.offer]
  by_cases he : isMomentKind e = true
  · have hother (winner : GraphEdge Score) (hne : f.dstAtomId ≠ e.dstAtomId)
        (hold : edgeKey f ∈ d.dropKeys ∨ d.winners.get? f.dstAtomId = some f) (lost : List _) :
        edgeKey f ∈ d.dropKeys ++ lost ∨
          (d.winners.set e.dstAtomId winner).get? f.dstAtomId = some f := by
      obtain hold | hold := hold
      · exact .inl (List.mem_append_left _ hold)
      · exact .inr ((Dict.get?_set_ne d.winners winner (Ne.symm hne)).trans hold)
    rw [if_neg (by rw [he]; decide)]
    cases hprev : d.winners.get? e.dstAtomId with
    | none =>
      obtain hf | hf := List.mem_append.mp hf
      · have hold := h f hf hmoment
        by_cases hdst : f.dstAtomId = e.dstAtomId
        · rw [hdst, hprev] at hold
          exact .inl (hold.resolve_right fun hnone => (nomatch hnone))
        · have hset := hother e hdst hold []
          rw [List.append_nil] at hset
          exact hset
      · rw [List.mem_singleton.mp hf]
        exact .inr (Dict.get?_set_self d.winners _ _)
    | some prev =>
      have hold (hf : f ∈ offered) (hdst : f.dstAtomId = e.dstAtomId) :
          edgeKey f ∈ d.dropKeys ∨ f = prev := by
        obtain hlost | hwon := h f hf hmoment
        · exact .inl hlost
        · rw [hdst, hprev] at hwon
          exact .inr (Option.some.inj hwon).symm
      dsimp only
      split_ifs with hstays
      · obtain hf | hf := List.mem_append.mp hf
        · by_cases hdst : f.dstAtomId = e.dstAtomId
          · obtain hlost | rfl := hold hf hdst
            · exact .inl (List.mem_append_left _ hlost)
            · rw [hdst]
              exact .inr (Dict.get?_set_self d.winners _ _)
          · exact hother prev hdst (h f hf hmoment) _
        · rw [List.mem_singleton.mp hf]
          exact .inl (List.mem_append_right _ (List.mem_singleton.mpr rfl))
      · obtain hf | hf := List.mem_append.mp hf
        · by_cases hdst : f.dstAtomId = e.dstAtomId
          · obtain hlost | rfl := hold hf hdst
            · exact .inl (List.mem_append_left _ hlost)
            · exact .inl (List.mem_append_right _ (List.mem_singleton.mpr rfl))
          · exact hother e hdst (h f hf hmoment) _
        · rw [List.mem_singleton.mp hf]
          exact .inr (Dict.get?_set_self d.winners _ _)
  · rw [Bool.not_eq_true] at he
    rw [if_pos (by rw [he]; decide)]
    obtain hf | hf := List.mem_append.mp hf
    · exact h f hf hmoment
    · rw [List.mem_singleton.mp hf, he] at hmoment
      cases hmoment

theorem settled_foldl (best : List (GraphEdge Score)) :
    Settled best (best.foldl MomentDuals.offer {}) := by
  have hfold : ∀ (rest offered : List (GraphEdge Score)) (d : MomentDuals Score),
      Settled offered d → Settled (offered ++ rest) (rest.foldl MomentDuals.offer d) := by
    intro rest
    induction rest with
    | nil =>
      intro offered d h
      rw [List.append_nil]
      exact h
    | cons e rest ih =>
      intro offered d h
      have hnext := ih (offered ++ [e]) _ (h.offer e)
      rwa [List.append_assoc] at hnext
  exact hfold best [] {} fun _ h => (nomatch h)

/-- The edges that are ranked, before the cut. -/
def rankedEdges (edges : List (GraphEdge Score)) : List (GraphEdge Score) :=
  let real := edges.filter fun e => !isVirtualGraphId e.dstAtomId
  let best := (bestBy edgeKey (fun e prev => decide (prev.weight < e.weight)) real).values
  let duals := best.foldl MomentDuals.offer {}
  sortBy rankKey (best.filter fun e => edgeKey e ∉ duals.dropKeys)

theorem rankEdges_eq (k : Nat) (edges : List (GraphEdge Score)) :
    rankEdges k edges = (rankedEdges edges).take k := rfl

theorem mem_rankedEdges {e : GraphEdge Score} (h : e ∈ rankedEdges edges) : e ∈ edges := by
  rw [rankedEdges, mem_sortBy] at h
  exact (List.mem_filter.mp (mem_bestBy (List.mem_filter.mp h).1)).1

theorem rankedEdges_nodup (edges : List (GraphEdge Score)) :
    ((rankedEdges edges).map edgeKey).Nodup := by
  have hbest (beats : GraphEdge Score → GraphEdge Score → Bool) :
      ((bestBy edgeKey beats (edges.filter fun e =>
        !isVirtualGraphId e.dstAtomId)).values.map edgeKey).Nodup :=
    nodup_bestBy _
  exact ((sortBy_perm _ _).map _).nodup_iff.mpr ((hbest _).sublist (List.filter_sublist.map _))

/-- A destination has at most one moment edge. -/
theorem rankedEdges_oneMoment {e f : GraphEdge Score} (he : e ∈ rankedEdges edges)
    (hf : f ∈ rankedEdges edges) (hmoment : isMomentKind e = true)
    (hmoment' : isMomentKind f = true) (hdst : e.dstAtomId = f.dstAtomId) : e = f := by
  rw [rankedEdges, mem_sortBy] at he hf
  obtain ⟨he, hkept⟩ := List.mem_filter.mp he
  obtain ⟨hf, hkept'⟩ := List.mem_filter.mp hf
  have hwins := (settled_foldl _ e he hmoment).resolve_left (of_decide_eq_true hkept)
  have hwins' := (settled_foldl _ f hf hmoment').resolve_left (of_decide_eq_true hkept')
  rw [hdst, hwins'] at hwins
  exact (Option.some.inj hwins).symm

end Ranking

section Listing

variable [LinearOrder Score] [PyCoerce]

/-- What the neighbour listing of a call promises of its edges. -/
structure Listed (g : GraphView Score Vec) (a : NeighborArgs) (edges : List (GraphEdge Score)) :
    Prop where
  length : edges.length ≤ (a.k.getD (max 1 g.cfg.neighborK)).toNat
  sorted : edges.Pairwise fun e f => rankKey e ≤ rankKey f
  kinds : ∀ e ∈ edges, e.edgeKind ∈ wantedKinds g a
  distinct : (edges.map edgeKey).Nodup
  notSource : ∀ e ∈ edges, e.dstAtomId ≠ a.atomId
  notExcluded : ∀ e ∈ edges, e.dstAtomId ∉ a.excludeIds
  stored : ∀ e ∈ edges, (g.store.byId.get? e.dstAtomId).isSome
  oneMoment : ∀ e ∈ edges, ∀ f ∈ edges, e.edgeKind = .sameMoment → f.edgeKind = .inMoment →
    e.dstAtomId ≠ f.dstAtomId

theorem neighbors_listed {a : NeighborArgs} {edges : List (GraphEdge Score)} (hs : Keyed g.store)
    (hhits : HitsStored g) (h : neighbors g late a = .ok edges) : Listed g a edges := by
  rw [neighbors] at h
  cases hatom : g.store.byId.get? a.atomId with
  | none =>
    rw [hatom] at h
    rw [← Except.ok.inj h]
    refine ⟨Nat.zero_le _, List.Pairwise.nil, ?_, List.nodup_nil, ?_, ?_, ?_, ?_⟩
    all_goals exact fun e he => (nomatch he)
  | some atom =>
    rw [hatom] at h
    cases hrun : gatherEdges g late (a.excludeIds ++ [a.atomId]) a (wantedKinds g a) atom 0 with
    | error err n =>
      simp only [hrun] at h
      cases h
    | ok gathered n =>
      simp only [hrun] at h
      have hall : ∀ e ∈ gathered, Wanted g (a.excludeIds ++ [a.atomId]) (wantedKinds g a) e :=
        gatherEdges_wanted hs hhits a 0 gathered n hrun
      rw [← Except.ok.inj h, rankEdges_eq]
      have hmem : ∀ e ∈ (rankedEdges gathered).take (a.k.getD (max 1 g.cfg.neighborK)).toNat,
          Wanted g (a.excludeIds ++ [a.atomId]) (wantedKinds g a) e :=
        fun e he => hall e (mem_rankedEdges (List.mem_of_mem_take he))
      refine ⟨List.length_take_le _ _, ?_, fun e he => (hmem e he).kind, ?_, ?_, ?_,
        fun e he => (hmem e he).stored, ?_⟩
      · exact (pairwise_sortBy rankKey _).sublist (List.take_sublist _ _)
      · exact (rankedEdges_nodup gathered).sublist ((List.take_sublist _ _).map _)
      · intro e he heq
        have hnot := (hmem e he).included
        rw [heq] at hnot
        exact hnot (List.mem_append_right _ (List.mem_singleton.mpr rfl))
      · intro e he hin
        exact (hmem e he).included (List.mem_append_left _ hin)
      · intro e he f hf hsame hin hdst
        have heq := rankedEdges_oneMoment (List.mem_of_mem_take he) (List.mem_of_mem_take hf)
          (by rw [isMomentKind, hsame]; rfl) (by rw [isMomentKind, hin]; rfl) hdst
        rw [heq, hin] at hsame
        cases hsame

/-- With no deadline passed, a greater `k` only appends. -/
theorem neighbors_appends {late' : Nat → Bool} (hlate : ∀ n, late n = false)
    (hlate' : ∀ n, late' n = false) {a : NeighborArgs} {k k' : Int} (hk : k ≤ k')
    {edges : List (GraphEdge Score)} (h : neighbors g late { a with k := some k } = .ok edges) :
    ∃ more, neighbors g late' { a with k := some k' } = .ok (edges ++ more) := by
  have hsame : late' = late := funext fun n => (hlate' n).trans (hlate n).symm
  rw [hsame]
  rw [neighbors] at h ⊢
  dsimp only at h ⊢
  cases hatom : g.store.byId.get? a.atomId with
  | none =>
    rw [hatom] at h
    rw [← Except.ok.inj h]
    exact ⟨[], rfl⟩
  | some atom =>
    rw [hatom] at h
    have hkinds (l : Option Int) : wantedKinds g { a with k := l } = wantedKinds g a := rfl
    have hgather (l : Option Int) :
        gatherEdges g late (a.excludeIds ++ [a.atomId]) { a with k := l } (wantedKinds g a) atom 0 =
          gatherEdges g late (a.excludeIds ++ [a.atomId]) a (wantedKinds g a) atom 0 := rfl
    simp only [hkinds, hgather] at h ⊢
    cases hrun : gatherEdges g late (a.excludeIds ++ [a.atomId]) a (wantedKinds g a) atom 0 with
    | error err n =>
      rw [hrun] at h
      cases h
    | ok gathered n =>
      rw [hrun] at h
      rw [← Except.ok.inj h, rankEdges_eq]
      refine ⟨(rankedEdges gathered).drop k.toNat |>.take (k'.toNat - k.toNat), ?_⟩
      have hle : k.toNat ≤ k'.toNat := Int.toNat_le_toNat hk
      have hsplit : (rankedEdges gathered).take k'.toNat =
          (rankedEdges gathered).take k.toNat ++
            ((rankedEdges gathered).drop k.toNat).take (k'.toNat - k.toNat) := by
        rw [← List.take_add, Nat.add_sub_cancel' hle]
      exact congrArg Except.ok hsplit

/-- Whatever the deadline checks answer, the listing is sound; when no deadline passes, a greater
`k` only appends to it. -/
theorem neighbors_sound (hs : Keyed g.store) (hhits : HitsStored g) (a : NeighborArgs) :
    (∀ edges, neighbors g late a = .ok edges → Listed g a edges) ∧
      ((∀ n, late n = false) → ∀ late' : Nat → Bool, (∀ n, late' n = false) →
        ∀ k k' : Int, k ≤ k' → ∀ edges, neighbors g late { a with k := some k } = .ok edges →
          ∃ more, neighbors g late' { a with k := some k' } = .ok (edges ++ more)) := by
  refine ⟨fun edges h => neighbors_listed hs hhits h, ?_⟩
  intro hlate late' hlate' k k' hk edges h
  exact neighbors_appends hlate hlate' hk h

end Listing

section Sample

attribute [local instance] basicCoerce

/-- Two atoms of a moment; the index finds the second one near the first. -/
def pairView : GraphView Nat Unit :=
  let row (id : String) : Atom := { atomId := id, tStart := isoZ ⟨0, zero_lt_instantCount⟩,
                                    kind := "speak", contentText := "hi", momentId := some "m" }
  { store := ⟨defaultMemorySettings, .ofList [("a", row "a"), ("b", row "b")], .empty, ⟨[], .empty⟩⟩
    semantic := some
      { encodeText := fun _ => .ok (some ())
        searchChannel := .ok .joint
        search := fun _ _ _ _ => .ok [⟨"b", 3, .joint, some (row "b")⟩] }
    edgeWeight := fun _ kind _ cosine => .ok (cosine.getD kind.priority)
    passesMinWeight := fun w => decide (0 < w)
    cosineOf := fun _ => none
    scoreText := toString }

theorem keyed_pairView : Keyed pairView.store := by
  have hrows : ∀ e ∈ pairView.store.byId.items, e.2.atomId = e.1 := by
    decide +kernel
  intro id a ha
  exact hrows (id, a) ((Dict.get?_eq_some_iff _ id a).mp ha)

theorem hitsStored_pairView : HitsStored pairView := by
  intro semantic hsemantic vec k channel excluded hits h hit hmem a ha
  obtain rfl := Option.some.inj hsemantic
  rw [← Except.ok.inj h, List.mem_singleton] at hmem
  subst hmem
  rw [← Option.some.inj ha]
  decide +kernel

theorem neighbors_sound_sample :
    (∀ edges, neighbors pairView (fun _ => false) ⟨"a", none, none, [], true, none⟩ = .ok edges →
        Listed pairView ⟨"a", none, none, [], true, none⟩ edges) ∧
      ((∀ n, (fun _ => false : Nat → Bool) n = false) → ∀ late' : Nat → Bool,
        (∀ n, late' n = false) → ∀ k k' : Int, k ≤ k' → ∀ edges,
          neighbors pairView (fun _ => false) ⟨"a", none, some k, [], true, none⟩ = .ok edges →
            ∃ more, neighbors pairView late' ⟨"a", none, some k', [], true, none⟩ =
              .ok (edges ++ more)) :=
  neighbors_sound keyed_pairView hitsStored_pairView ⟨"a", none, none, [], true, none⟩

end Sample
end Elyra.Memory.Graph
