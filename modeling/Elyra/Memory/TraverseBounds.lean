import Elyra.Framework.Run
import Elyra.Memory.Traverse
import Mathlib.Data.List.Sort

namespace Elyra.Memory.Traverse

/-- The considered nodes stay within the node and depth budgets. -/
structure NodesOk (s : TraversalSession) : Prop where
  nodup : s.consideredIds.Nodup
  length_le : s.considered.length ≤ s.budgets.maxNodes
  depth_le : ∀ n ∈ s.considered, n.depth ≤ s.budgets.maxDepth

structure SeedsOk (s : TraversalSession) : Prop where
  nodup : s.seedIds.Nodup
  considered : ∀ id ∈ s.seedIds, id ∈ s.consideredIds

structure FrontierOk (s : TraversalSession) : Prop where
  nodup : (s.frontier.map FrontierItem.atomId).Nodup
  considered : ∀ f ∈ s.frontier, f.atomId ∈ s.consideredIds
  length_le : s.frontier.length ≤ s.budgets.frontierMax

structure KeepsOk (s : TraversalSession) : Prop where
  nodup : s.keepIds.Nodup
  length_le : s.keepIds.length ≤ s.budgets.maxKeep
  considered : ∀ id ∈ s.keepIds, id ∈ s.consideredIds

/-- A session within its budgets. -/
structure WithinBudgets (s : TraversalSession) : Prop where
  nodes : NodesOk s
  seeds : SeedsOk s
  frontier : FrontierOk s
  keeps : KeepsOk s

/-- How often the steps of a session walked an edge. -/
def edgesWalked (s : TraversalSession) : Nat := s.edgeKindCounts.values.sum

theorem sum_putItem (l : List (String × Nat)) (k : String) (n : Nat) :
    ((Dict.putItem l k n).map Prod.snd).sum + (Dict.findItem l k).getD 0 =
      (l.map Prod.snd).sum + n := by
  induction l with
  | nil => simp [Dict.putItem, Dict.findItem]
  | cons e l ih =>
    obtain ⟨x, v⟩ := e
    by_cases hx : x = k
    · simp [Dict.putItem, Dict.findItem, hx]
      omega
    · simp only [Dict.putItem, Dict.findItem, hx, if_false, List.map_cons, List.sum_cons]
      omega

/-- Counting one more edge of a kind adds one to the edges walked. -/
theorem sum_count (d : Dict String Nat) (k : String) :
    (d.set k ((d.get? k).getD 0 + 1)).values.sum = d.values.sum + 1 := by
  have h := sum_putItem d.items k ((d.get? k).getD 0 + 1)
  have hget : (Dict.findItem d.items k).getD 0 = (d.get? k).getD 0 := rfl
  have hset : ((Dict.putItem d.items k ((d.get? k).getD 0 + 1)).map Prod.snd).sum =
      (d.set k ((d.get? k).getD 0 + 1)).values.sum := rfl
  have hsum : (d.items.map Prod.snd).sum = d.values.sum := rfl
  omega

section Frontier

variable [FloatOrder]

omit [FloatOrder] in
theorem fillPreview_atomId (s : TraversalSession) (f : FrontierItem) :
    (fillPreview s f).atomId = f.atomId := by
  unfold fillPreview
  cases s.find? f.atomId with
  | none => rfl
  | some node =>
    by_cases h : f.preview = ""
    · simp [h]
    · simp [h]

/-- The frontier lists considered nodes, each once, as far as its bound goes. -/
theorem rebuildFrontier_ok (s : TraversalSession) (prefer : List String)
    (h : s.consideredIds.Nodup) : FrontierOk (s.rebuildFrontier prefer) := by
  have hids : ∀ sorted : List FrontierItem,
      (sorted.map (fillPreview s)).map FrontierItem.atomId = sorted.map FrontierItem.atomId := by
    intro sorted
    rw [List.map_map]
    exact List.map_congr_left (fun f _ => fillPreview_atomId s f)
  have hitems : (s.considered.map (frontierItem prefer)).map FrontierItem.atomId =
      s.consideredIds := by
    rw [List.map_map]
    rfl
  have hperm := (List.mergeSort_perm (s.considered.map (frontierItem prefer))
    (fun a b => !b.before prefer a)).map FrontierItem.atomId
  rw [hitems] at hperm
  have hsub := (List.take_sublist s.budgets.frontierMax
    ((s.considered.map (frontierItem prefer)).mergeSort (fun a b => !b.before prefer a))).map
    FrontierItem.atomId
  refine ⟨?_, ?_, ?_⟩
  · show ((List.map (fillPreview s) _).map FrontierItem.atomId).Nodup
    rw [hids]
    exact hsub.nodup (hperm.nodup_iff.mpr h)
  · intro f hf
    have hmem : f.atomId ∈ (s.rebuildFrontier prefer).frontier.map FrontierItem.atomId :=
      List.mem_map_of_mem hf
    have hshow : (s.rebuildFrontier prefer).frontier.map FrontierItem.atomId = _ := hids _
    rw [hshow] at hmem
    exact hperm.mem_iff.mp (hsub.subset hmem)
  · show (List.map (fillPreview s) _).length ≤ s.budgets.frontierMax
    rw [List.length_map, List.length_take]
    exact Nat.min_le_left _ _

end Frontier

/-- A node that is known or has room is never refused. -/
def hasRoom (s : TraversalSession) (id : String) : Bool :=
  id ∈ s.consideredIds || s.considered.length < s.budgets.maxNodes

namespace TraversalSession

variable (s : TraversalSession) (node : ConsideredNode)

theorem addConsidered_new (h : node.atomId ∉ s.consideredIds)
    (hroom : s.considered.length < s.budgets.maxNodes) :
    s.addConsidered node = { s with considered := s.considered ++ [node] } := by
  rw [addConsidered, if_neg h, if_neg (by omega)]

theorem addConsidered_budgets : (s.addConsidered node).budgets = s.budgets := by
  unfold addConsidered
  split_ifs <;> rfl

/-- Whatever a node does to a session, the bounds on its nodes stay. -/
theorem addConsidered_nodes (hs : NodesOk s) (hd : node.depth ≤ s.budgets.maxDepth) :
    NodesOk (s.addConsidered node) := by
  unfold addConsidered
  split_ifs with hknown hfull
  · exact hs
  · exact hs
  · refine ⟨?_, ?_, ?_⟩
    · show ((s.considered ++ [node]).map ConsideredNode.atomId).Nodup
      rw [List.map_append]
      exact hs.nodup.append (List.nodup_singleton _) (by simpa using hknown)
    · show (s.considered ++ [node]).length ≤ s.budgets.maxNodes
      rw [List.length_append, List.length_singleton]
      omega
    · intro n hn
      obtain hn | hn := List.mem_append.mp hn
      · exact hs.depth_le n hn
      · rw [List.mem_singleton.mp hn]
        exact hd

theorem addConsidered_subset (id : String) (h : id ∈ s.consideredIds) :
    id ∈ (s.addConsidered node).consideredIds := by
  unfold addConsidered
  split_ifs
  · exact h
  · exact h
  · show id ∈ (s.considered ++ [node]).map ConsideredNode.atomId
    rw [List.map_append]
    exact List.mem_append_left _ h

theorem addConsidered_mem (hroom : s.considered.length < s.budgets.maxNodes) :
    node.atomId ∈ (s.addConsidered node).consideredIds := by
  by_cases hknown : node.atomId ∈ s.consideredIds
  · exact s.addConsidered_subset node _ hknown
  · rw [s.addConsidered_new node hknown hroom]
    simp [consideredIds]

end TraversalSession

section Keeps

/-- What only the keeps of a session changes. -/
structure SameNodes (s t : TraversalSession) : Prop where
  considered : t.considered = s.considered
  budgets : t.budgets = s.budgets
  seedIds : t.seedIds = s.seedIds
  edgeKindCounts : t.edgeKindCounts = s.edgeKindCounts

theorem SameNodes.refl (s : TraversalSession) : SameNodes s s := ⟨rfl, rfl, rfl, rfl⟩

theorem SameNodes.nodes {s t : TraversalSession} (h : SameNodes s t) (hs : NodesOk s) :
    NodesOk t := by
  refine ⟨?_, ?_, ?_⟩
  · rw [TraversalSession.consideredIds, h.considered]
    exact hs.nodup
  · rw [h.considered, h.budgets]
    exact hs.length_le
  · rw [h.considered, h.budgets]
    exact hs.depth_le

theorem SameNodes.seeds {s t : TraversalSession} (h : SameNodes s t) (hs : SeedsOk s) :
    SeedsOk t := by
  refine ⟨?_, ?_⟩
  · rw [h.seedIds]
    exact hs.nodup
  · rw [h.seedIds, TraversalSession.consideredIds, h.considered]
    exact hs.considered

theorem mergeKeeps_same (ids : List String) (s : TraversalSession) :
    SameNodes s (s.mergeKeeps ids) := by
  induction ids generalizing s with
  | nil => exact .refl s
  | cons aid ids ih =>
    unfold TraversalSession.mergeKeeps
    split_ifs
    · exact ih s
    · exact .refl s
    · have hrest := ih { s with keepIds := s.keepIds ++ [aid] }
      exact ⟨hrest.considered, hrest.budgets, hrest.seedIds, hrest.edgeKindCounts⟩
    · exact ih s

/-- Keeps are merged under the keep budget and from the considered nodes only. -/
theorem mergeKeeps_ok (ids : List String) (s : TraversalSession) (hs : KeepsOk s) :
    KeepsOk (s.mergeKeeps ids) := by
  induction ids generalizing s with
  | nil => exact hs
  | cons aid ids ih =>
    unfold TraversalSession.mergeKeeps
    split_ifs with hkept hknown hfull
    · exact ih s hs
    · exact hs
    · apply ih
      refine ⟨?_, ?_, ?_⟩
      · exact hs.nodup.append (List.nodup_singleton _) (by simpa using hkept)
      · show (s.keepIds ++ [aid]).length ≤ s.budgets.maxKeep
        rw [List.length_append, List.length_singleton]
        omega
      · intro id hid
        obtain hid | hid := List.mem_append.mp hid
        · exact hs.considered id hid
        · rw [List.mem_singleton.mp hid]
          exact hknown
    · exact ih s hs

end Keeps

section Seeds

variable (cfg : TraverseSettings) (g : GraphView)

/-- No seed that a phase records is refused for lack of room. -/
def seedsFit (via : SeedVia) (enough : SeedPass → Bool) : SeedPass → List SeedHit → Bool
  | _, [] => true
  | p, hit :: rest =>
    if enough p then true
    else
      match g.getAtom hit.atomId with
      | none => seedsFit via enough p rest
      | some atom =>
        (cfg.maxSeeds ≤ p.seedOrder.length || hasRoom p.session hit.atomId) &&
          seedsFit via enough (addSeed g cfg via atom hit p) rest

/-- The seeds so far are the considered nodes. -/
structure Seeding (b : BudgetState) (p : SeedPass) : Prop where
  order : p.seedOrder = p.session.consideredIds
  nodes : NodesOk p.session
  budgets : p.session.budgets = b
  keepIds : p.session.keepIds = []
  edgeKindCounts : p.session.edgeKindCounts = .empty

variable {cfg g} {b : BudgetState}

theorem Seeding.tag {p : SeedPass} (h : Seeding b p) (reason : String) :
    Seeding b (p.tag reason) := by
  unfold SeedPass.tag
  split_ifs
  · exact h
  · exact ⟨h.order, h.nodes, h.budgets, h.keepIds, h.edgeKindCounts⟩

theorem Seeding.addSeed {p : SeedPass} (h : Seeding b p) (via : SeedVia) (atom : Atom)
    (hit : SeedHit) (hatom : g.getAtom hit.atomId = some atom)
    (hroom : (decide (cfg.maxSeeds ≤ p.seedOrder.length) || hasRoom p.session hit.atomId) = true) :
    Seeding b (addSeed g cfg via atom hit p) := by
  unfold Traverse.addSeed
  split_ifs with hmany hknown
  · exact h
  · exact h
  · have hfree : p.session.considered.length < p.session.budgets.maxNodes := by
      simpa [hmany, hasRoom, hknown] using hroom
    have hid : atom.atomId = hit.atomId := g.keyed hit.atomId atom hatom
    apply Seeding.tag
    have hnew : hit.atomId ∉ p.session.consideredIds := hknown
    refine ⟨?_, ?_, ?_, ?_, ?_⟩
    · rw [p.session.addConsidered_new _ (by rw [nodeOf, hid]; exact hnew) hfree]
      simp [TraversalSession.consideredIds, h.order, nodeOf, hid]
    · exact p.session.addConsidered_nodes _ h.nodes (Nat.zero_le _)
    · exact (p.session.addConsidered_budgets _).trans h.budgets
    · rw [p.session.addConsidered_new _ (by rw [nodeOf, hid]; exact hnew) hfree]
      exact h.keepIds
    · rw [p.session.addConsidered_new _ (by rw [nodeOf, hid]; exact hnew) hfree]
      exact h.edgeKindCounts

theorem Seeding.offerSeeds (via : SeedVia) (enough : SeedPass → Bool) (hits : List SeedHit)
    {p : SeedPass} (h : Seeding b p) (hfit : seedsFit cfg g via enough p hits = true) :
    Seeding b (offerSeeds g cfg via enough p hits) := by
  induction hits generalizing p with
  | nil => exact h
  | cons hit rest ih =>
    unfold Traverse.offerSeeds
    unfold seedsFit at hfit
    by_cases hdone : enough p
    · rw [if_pos hdone]
      exact h
    · rw [if_neg hdone] at hfit ⊢
      cases hatom : g.getAtom hit.atomId with
      | none =>
        rw [hatom] at hfit
        exact ih h hfit
      | some atom =>
        rw [hatom] at hfit
        obtain ⟨hroom, hrest⟩ := Bool.and_eq_true_iff.mp hfit
        exact ih (h.addSeed via atom hit hatom hroom) hrest

end Seeds

section Start

variable [FloatOrder] (cfg : TraverseSettings) (g : GraphView) (a : StartArgs)

open StartArgs

/-- The seeds of every phase have room. -/
def startFits : Bool :=
  let p := a.explicitPass cfg g
  let q := a.semanticPass cfg g p
  seedsFit cfg g explicitVia (explicitEnough cfg) { session := a.session cfg } a.explicitHits &&
    (seedsFit cfg g semanticVia (a.semanticEnough cfg (a.semanticRoom cfg p)) p
      (a.search cfg g p).hits &&
      seedsFit cfg g temporalVia (temporalEnough cfg (a.temporalCap cfg q)) q
        (a.temporalHits cfg g q))

variable {cfg g a}

omit [FloatOrder] in
theorem seeding_start : Seeding (a.budgets cfg) { session := a.session cfg } :=
  ⟨rfl, ⟨List.nodup_nil, Nat.zero_le _, by simp [StartArgs.session]⟩, rfl, rfl, rfl⟩

omit [FloatOrder] in
theorem seeding_seeded (hfit : startFits cfg g a = true) :
    Seeding (a.budgets cfg) (a.seeded cfg g) := by
  obtain ⟨hexplicit, hrest⟩ := Bool.and_eq_true_iff.mp hfit
  obtain ⟨hsemantic, htemporal⟩ := Bool.and_eq_true_iff.mp hrest
  have hfirst : Seeding (a.budgets cfg) (a.explicitPass cfg g) :=
    Seeding.offerSeeds _ _ _ seeding_start hexplicit
  have hsecond : Seeding (a.budgets cfg) (a.semanticPass cfg g (a.explicitPass cfg g)) := by
    have hoffered := Seeding.offerSeeds semanticVia _ _ hfirst hsemantic
    have htagged : ∀ q : SeedPass, Seeding (a.budgets cfg) q → ∀ reason : Option String,
        Seeding (a.budgets cfg) ((reason.map q.tag).getD q) := by
      intro q hq reason
      cases reason with
      | none => exact hq
      | some reason => exact hq.tag reason
    unfold semanticPass
    simp only
    split_ifs
    · exact (htagged _ hoffered _).tag _
    · exact hoffered.tag _
    · exact htagged _ hoffered _
    · exact hoffered
  exact Seeding.offerSeeds _ _ _ hsecond htemporal

/-- The session a start leaves: its nodes are its seeds. -/
theorem started_ok {p : SeedPass} {b : BudgetState} (h : Seeding b p) (truncated : Bool) :
    WithinBudgets ((p.seeds truncated).rebuildFrontier []) ∧
      edgesWalked ((p.seeds truncated).rebuildFrontier []) = 0 := by
  have hnodes : NodesOk (p.seeds truncated) := ⟨h.nodes.nodup, h.nodes.length_le, h.nodes.depth_le⟩
  refine ⟨⟨⟨hnodes.nodup, hnodes.length_le, hnodes.depth_le⟩, ⟨?_, ?_⟩,
    rebuildFrontier_ok _ _ hnodes.nodup, ⟨?_, ?_, ?_⟩⟩, ?_⟩
  · show p.seedOrder.Nodup
    rw [h.order]
    exact h.nodes.nodup
  · show ∀ id ∈ p.seedOrder, id ∈ p.session.consideredIds
    rw [h.order]
    exact fun id hid => hid
  · show p.session.keepIds.Nodup
    rw [h.keepIds]
    exact List.nodup_nil
  · show p.session.keepIds.length ≤ _
    rw [h.keepIds]
    exact Nat.zero_le _
  · show ∀ id ∈ p.session.keepIds, _
    rw [h.keepIds]
    exact fun id hid => absurd hid List.not_mem_nil
  · show p.session.edgeKindCounts.values.sum = 0
    rw [h.edgeKindCounts]
    rfl

end Start

section Step

variable [FloatOrder] (cfg : TraverseSettings) (g : GraphView)

/-- No node that a packing records is refused for lack of room. -/
def packFits (srcId : String) (nextDepth : Nat) : StepPass → List Hop → Bool
  | _, [] => true
  | p, e :: es =>
    if p.session.budgets.nodesRemaining = 0 then true
    else if e.dstAtomId ∈ p.session.consideredIds then packFits srcId nextDepth p es
    else
      match g.getAtom e.dstAtomId with
      | none => packFits srcId nextDepth p es
      | some atom =>
        let node := nodeOf g cfg atom (some e.edgeKind) (some e.reason) nextDepth (some e.weight)
          (some srcId)
        hasRoom p.session e.dstAtomId && packFits srcId nextDepth (p.accept node e nextDepth) es

def focusFits (srcId : String) (nextDepth : Nat) (p : StepPass) : Bool :=
  let x := expandStructural g p srcId
  let q := packEdges cfg g srcId nextDepth (p.charge x) x.edges
  packFits cfg g srcId nextDepth (p.charge x) x.edges &&
    (!callsAnn cfg q ||
      packFits cfg g srcId nextDepth { q with annCalled := true } (expandSemantic cfg g q srcId))

/-- No node that the expansions of a step record is refused for lack of room. -/
def picksFit : StepPass → List String → Bool
  | _, [] => true
  | p, srcId :: rest =>
    if p.session.budgets.nodesRemaining = 0 then true
    else if structRemaining p = some 0 then true
    else
      match p.session.find? srcId with
      | none => picksFit p rest
      | some src =>
        if p.session.budgets.maxDepth < src.depth + 1 then picksFit p rest
        else
          focusFits cfg g srcId (src.depth + 1) p &&
            picksFit (expandFocus cfg g srcId (src.depth + 1) p) rest

def stepFits (args : StepArgs) (s : TraversalSession) : Bool :=
  !(canExpand s.budgets && args.expandIds ≠ []) ||
    picksFit cfg g { session := spendStep s } (picks args s)

/-- A step has added the nodes it calls new, and counted an edge for each. -/
structure Stepping (s : TraversalSession) (p : StepPass) : Prop where
  grown : ∃ added : List ConsideredNode, p.session.considered = s.considered ++ added ∧
    p.newly = added.map ConsideredNode.atomId ∧
    edgesWalked p.session = edgesWalked s + added.length
  nodes : NodesOk p.session
  maxNodes : p.session.budgets.maxNodes = s.budgets.maxNodes
  maxKeep : p.session.budgets.maxKeep = s.budgets.maxKeep
  seedIds : p.session.seedIds = s.seedIds
  keepIds : p.session.keepIds = s.keepIds

variable {cfg g} {s : TraversalSession}

omit [FloatOrder] in
theorem Stepping.charge {p : StepPass} (h : Stepping s p) (x : Expansion) :
    Stepping s (p.charge x) :=
  ⟨h.grown, h.nodes, h.maxNodes, h.maxKeep, h.seedIds, h.keepIds⟩

omit [FloatOrder] in
theorem Stepping.accept {p : StepPass} (h : Stepping s p) (node : ConsideredNode) (e : Hop)
    (nextDepth : Nat) (hid : node.atomId = e.dstAtomId) (hdepth : node.depth = nextDepth)
    (hnew : e.dstAtomId ∉ p.session.consideredIds) (hle : nextDepth ≤ p.session.budgets.maxDepth)
    (hroom : hasRoom p.session e.dstAtomId = true) : Stepping s (p.accept node e nextDepth) := by
  have hfree : p.session.considered.length < p.session.budgets.maxNodes := by
    simpa [hasRoom, hnew] using hroom
  have hadd := p.session.addConsidered_new node (by rw [hid]; exact hnew) hfree
  have hnodes := p.session.addConsidered_nodes node h.nodes (by rw [hdepth]; exact hle)
  rw [hadd] at hnodes
  obtain ⟨added, hconsidered, hnewly, hcount⟩ := h.grown
  unfold StepPass.accept
  rw [hadd]
  refine ⟨⟨added ++ [node], ?_, ?_, ?_⟩, ?_, h.maxNodes, h.maxKeep, h.seedIds, h.keepIds⟩
  · show p.session.considered ++ [node] = _
    rw [hconsidered, List.append_assoc]
  · show p.newly ++ [e.dstAtomId] = _
    rw [hnewly, List.map_append, ← hid]
    rfl
  · show (p.session.edgeKindCounts.set _ _).values.sum = _
    rw [sum_count, List.length_append]
    show edgesWalked p.session + 1 = _
    rw [hcount]
    rfl
  · exact ⟨hnodes.nodup, hnodes.length_le, hnodes.depth_le⟩

omit [FloatOrder] in
/-- Acceptance leaves the budgets a packing compares with alone. -/
theorem accept_budgets (p : StepPass) (node : ConsideredNode) (e : Hop) (nextDepth : Nat) :
    (p.accept node e nextDepth).session.budgets.maxDepth = p.session.budgets.maxDepth := by
  show (p.session.addConsidered node).budgets.maxDepth = _
  rw [p.session.addConsidered_budgets]

omit [FloatOrder] in
theorem Stepping.packEdges (srcId : String) (nextDepth : Nat) (es : List Hop) {p : StepPass}
    (h : Stepping s p) (hle : nextDepth ≤ p.session.budgets.maxDepth)
    (hfit : packFits cfg g srcId nextDepth p es = true) :
    Stepping s (packEdges cfg g srcId nextDepth p es) := by
  induction es generalizing p with
  | nil => exact h
  | cons e es ih =>
    unfold Traverse.packEdges
    unfold packFits at hfit
    by_cases hfull : p.session.budgets.nodesRemaining = 0
    · rw [if_pos hfull]
      exact h
    · rw [if_neg hfull] at hfit ⊢
      by_cases hknown : e.dstAtomId ∈ p.session.consideredIds
      · rw [if_pos hknown] at hfit ⊢
        exact ih h hle hfit
      · rw [if_neg hknown] at hfit ⊢
        cases hatom : g.getAtom e.dstAtomId with
        | none =>
          rw [hatom] at hfit
          exact ih h hle hfit
        | some atom =>
          rw [hatom] at hfit
          obtain ⟨hroom, hrest⟩ := Bool.and_eq_true_iff.mp hfit
          have hid : atom.atomId = e.dstAtomId := g.keyed e.dstAtomId atom hatom
          apply ih (h.accept _ e nextDepth hid rfl hknown hle hroom)
          · rw [accept_budgets]
            exact hle
          · exact hrest

omit [FloatOrder] in
theorem packEdges_maxDepth (srcId : String) (nextDepth : Nat) (es : List Hop) (p : StepPass) :
    (packEdges cfg g srcId nextDepth p es).session.budgets.maxDepth =
      p.session.budgets.maxDepth := by
  induction es generalizing p with
  | nil => rfl
  | cons e es ih =>
    unfold Traverse.packEdges
    split_ifs
    · rfl
    · exact ih p
    · cases g.getAtom e.dstAtomId with
      | none => exact ih p
      | some atom => exact (ih _).trans (accept_budgets p _ e nextDepth)

omit [FloatOrder] in
theorem Stepping.expandFocus (srcId : String) (nextDepth : Nat) {p : StepPass}
    (h : Stepping s p) (hle : nextDepth ≤ p.session.budgets.maxDepth)
    (hfit : focusFits cfg g srcId nextDepth p = true) :
    Stepping s (expandFocus cfg g srcId nextDepth p) := by
  obtain ⟨hstruct, hsem⟩ := Bool.and_eq_true_iff.mp hfit
  have hfirst := (h.charge (expandStructural g p srcId)).packEdges srcId nextDepth _ hle hstruct
  unfold Traverse.expandFocus
  simp only
  split_ifs with hann
  · have hpack := (Bool.or_eq_true_iff.mp hsem).resolve_left (by simp [hann])
    have hready : Stepping s { Traverse.packEdges cfg g srcId nextDepth
        (p.charge (expandStructural g p srcId)) (expandStructural g p srcId).edges with
        annCalled := true } :=
      ⟨hfirst.grown, hfirst.nodes, hfirst.maxNodes, hfirst.maxKeep, hfirst.seedIds, hfirst.keepIds⟩
    apply hready.packEdges srcId nextDepth _ ?_ hpack
    show nextDepth ≤ (Traverse.packEdges cfg g srcId nextDepth _ _).session.budgets.maxDepth
    rw [packEdges_maxDepth]
    exact hle
  · exact hfirst

omit [FloatOrder] in
theorem Stepping.expandPicks (ids : List String) {p : StepPass} (h : Stepping s p)
    (hfit : picksFit cfg g p ids = true) : Stepping s (expandPicks cfg g p ids) := by
  induction ids generalizing p with
  | nil => exact h
  | cons srcId rest ih =>
    unfold Traverse.expandPicks
    unfold picksFit at hfit
    by_cases hfull : p.session.budgets.nodesRemaining = 0
    · rw [if_pos hfull]
      exact h
    · rw [if_neg hfull] at hfit ⊢
      by_cases hwall : structRemaining p = some 0
      · rw [if_pos hwall]
        exact ⟨h.grown, h.nodes, h.maxNodes, h.maxKeep, h.seedIds, h.keepIds⟩
      · rw [if_neg hwall] at hfit ⊢
        cases hsrc : p.session.find? srcId with
        | none =>
          rw [hsrc] at hfit
          exact ih h hfit
        | some src =>
          rw [hsrc] at hfit
          simp only at hfit ⊢
          by_cases hdeep : p.session.budgets.maxDepth < src.depth + 1
          · rw [if_pos hdeep] at hfit ⊢
            exact ih h hfit
          · rw [if_neg hdeep] at hfit ⊢
            obtain ⟨hfocus, hrest⟩ := Bool.and_eq_true_iff.mp hfit
            exact ih (h.expandFocus srcId _ (by omega) hfocus) hrest

omit [FloatOrder] in
theorem Stepping.expanded (args : StepArgs) (hs : NodesOk s)
    (hfit : stepFits cfg g args s = true) : Stepping s (expanded cfg g args s) := by
  unfold Traverse.expanded
  split_ifs with hexpand
  · have hpicks := (Bool.or_eq_true_iff.mp hfit).resolve_left (by rw [hexpand]; decide)
    apply Stepping.expandPicks _ ?_ hpicks
    exact ⟨⟨[], by simp [spendStep], rfl, rfl⟩, ⟨hs.nodup, hs.length_le, hs.depth_le⟩, rfl, rfl, rfl,
      rfl⟩
  · exact ⟨⟨[], by simp, rfl, rfl⟩, hs, rfl, rfl, rfl, rfl⟩

/-- A step within its room: the bounds stay, and it adds and counts exactly what it calls new. -/
theorem stepped_ok {p : StepPass} (h : Stepping s p) (hseeds : SeedsOk s) (hkeeps : KeepsOk s) :
    WithinBudgets (stepped p) ∧ (stepped p).consideredIds = s.consideredIds ++ p.newly ∧
      edgesWalked (stepped p) = edgesWalked s + p.newly.length := by
  obtain ⟨added, hconsidered, hnewly, hcount⟩ := h.grown
  have hids : (stepped p).consideredIds = s.consideredIds ++ p.newly := by
    show p.session.considered.map ConsideredNode.atomId = _
    rw [hconsidered, List.map_append, hnewly]
    rfl
  have hkept : ∀ id, id ∈ s.consideredIds → id ∈ (stepped p).consideredIds := by
    intro id hid
    rw [hids]
    exact List.mem_append_left _ hid
  refine ⟨⟨⟨h.nodes.nodup, h.nodes.length_le, h.nodes.depth_le⟩, ⟨?_, ?_⟩,
    rebuildFrontier_ok _ _ h.nodes.nodup, ⟨?_, ?_, ?_⟩⟩, hids, ?_⟩
  · show p.session.seedIds.Nodup
    rw [h.seedIds]
    exact hseeds.nodup
  · show ∀ id ∈ p.session.seedIds, _
    rw [h.seedIds]
    exact fun id hid => hkept id (hseeds.considered id hid)
  · show p.session.keepIds.Nodup
    rw [h.keepIds]
    exact hkeeps.nodup
  · show p.session.keepIds.length ≤ p.session.budgets.maxKeep
    rw [h.keepIds, h.maxKeep]
    exact hkeeps.length_le
  · show ∀ id ∈ p.session.keepIds, _
    rw [h.keepIds]
    exact fun id hid => hkept id (hkeeps.considered id hid)
  · show edgesWalked p.session = _
    rw [hcount, hnewly, List.length_map]

end Step

section Finish

variable (cfg : TraverseSettings) (g : GraphView)

/-- A peer that will be kept is not refused for lack of room. -/
def peerFits (peerId : Option String) (p : AdjacentPass) : Bool :=
  let id := peerId.getD ""
  if id = "" ∨ id ∈ p.session.keepIds ∨ id ∈ p.extras then true
  else
    match g.getAtom id with
    | none => true
    | some _ =>
      hasRoom p.session id ||
        p.session.budgets.maxKeep ≤ p.session.keepIds.length + p.extras.length

def peersFit (p : AdjacentPass) (kid : String) : Bool :=
  match g.getAtom kid with
  | none => true
  | some atom =>
    peerFits g atom.prevAtomId p && peerFits g atom.nextAtomId (addPeer cfg g kid atom.prevAtomId p)

def adjacentFits : AdjacentPass → List String → Bool
  | _, [] => true
  | p, kid :: rest => peersFit cfg g p kid && adjacentFits (addPeers cfg g p kid) rest

def finishFits (args : FinishArgs) (s : TraversalSession) : Bool :=
  !(args.withGraph && cfg.keepAdjacent) ||
    adjacentFits cfg g { session := finalKeeps args s } (finalKeeps args s).keepIds

/-- The extras found so far: new, each once, and considered as far as they will be kept. -/
structure Adjoining (s : TraversalSession) (p : AdjacentPass) : Prop where
  keepIds : p.session.keepIds = s.keepIds
  budgets : p.session.budgets = s.budgets
  seedIds : p.session.seedIds = s.seedIds
  edgeKindCounts : p.session.edgeKindCounts = s.edgeKindCounts
  nodes : NodesOk p.session
  known : ∀ id ∈ s.consideredIds, id ∈ p.session.consideredIds
  extras_nodup : p.extras.Nodup
  extras_new : ∀ id ∈ p.extras, id ∉ s.keepIds
  extras_considered : ∀ id ∈ p.extras.take (s.budgets.maxKeep - s.keepIds.length),
    id ∈ p.session.consideredIds

variable {cfg g} {s : TraversalSession}

theorem adjacentNode_depth {p : AdjacentPass} (h : NodesOk p.session) (kid : String) (peer : Atom) :
    (adjacentNode cfg g kid peer p.session).depth ≤ p.session.budgets.maxDepth := by
  show ((p.session.find? kid).map ConsideredNode.depth).getD 0 ≤ _
  cases hfind : p.session.find? kid with
  | none => exact Nat.zero_le _
  | some node => exact h.depth_le node (List.mem_of_find?_eq_some hfind)

theorem mem_take_snoc {xs : List String} {x y : String} {n : Nat} (h : y ∈ (xs ++ [x]).take n) :
    y ∈ xs.take n ∨ y = x ∧ xs.length < n := by
  rw [List.take_append] at h
  obtain h | h := List.mem_append.mp h
  · exact .inl h
  · have hpos : 0 < n - xs.length := by
      by_contra hzero
      have hempty : n - xs.length = 0 := by omega
      rw [hempty] at h
      exact absurd h List.not_mem_nil
    exact .inr ⟨List.mem_singleton.mp (List.mem_of_mem_take h), by omega⟩

theorem Adjoining.addPeer {p : AdjacentPass} (h : Adjoining s p) (kid : String)
    (peerId : Option String) (hfit : peerFits g peerId p = true) :
    Adjoining s (addPeer cfg g kid peerId p) := by
  unfold Traverse.addPeer
  unfold peerFits at hfit
  simp only at hfit ⊢
  by_cases hskip : peerId.getD "" = "" ∨ peerId.getD "" ∈ p.session.keepIds ∨
      peerId.getD "" ∈ p.extras
  · rw [if_pos hskip]
    exact h
  · rw [if_neg hskip] at hfit ⊢
    obtain ⟨-, hkeeps⟩ := not_or.mp hskip
    obtain ⟨hunkept, hfresh⟩ := not_or.mp hkeeps
    generalize peerId.getD "" = id at hfit hunkept hfresh ⊢
    cases hpeer : g.getAtom id with
    | none => exact h
    | some peer =>
      rw [hpeer] at hfit
      have hid : (adjacentNode cfg g kid peer p.session).atomId = id := g.keyed id peer hpeer
      -- The session with or without the peer: nothing known is lost, and the peer is known if kept.
      have hsession : ∀ t : TraversalSession, t = (if id ∉ p.session.consideredIds ∧
          p.session.considered.length < p.session.budgets.maxNodes
          then p.session.addConsidered (adjacentNode cfg g kid peer p.session) else p.session) →
          t.keepIds = p.session.keepIds ∧ t.budgets = p.session.budgets ∧
            t.seedIds = p.session.seedIds ∧ t.edgeKindCounts = p.session.edgeKindCounts ∧
            NodesOk t ∧ (∀ x ∈ p.session.consideredIds, x ∈ t.consideredIds) ∧
            (hasRoom p.session id = true → id ∈ t.consideredIds) := by
        intro t ht
        by_cases hadd : id ∉ p.session.consideredIds ∧
            p.session.considered.length < p.session.budgets.maxNodes
        · rw [if_pos hadd] at ht
          have hmem := p.session.addConsidered_mem (adjacentNode cfg g kid peer p.session) hadd.2
          have hnew := p.session.addConsidered_new (adjacentNode cfg g kid peer p.session)
            (by rw [hid]; exact hadd.1) hadd.2
          have hnodes := p.session.addConsidered_nodes (adjacentNode cfg g kid peer p.session) h.nodes
            (adjacentNode_depth h.nodes kid peer)
          have hsub := p.session.addConsidered_subset (adjacentNode cfg g kid peer p.session)
          rw [hid] at hmem
          rw [← ht] at hmem hnew hnodes hsub
          refine ⟨?_, ?_, ?_, ?_, hnodes, hsub, fun _ => hmem⟩ <;> rw [hnew]
        · rw [if_neg hadd] at ht
          subst ht
          refine ⟨rfl, rfl, rfl, rfl, h.nodes, fun x hx => hx, ?_⟩
          intro hroom
          by_contra hunknown
          have hfree : p.session.considered.length < p.session.budgets.maxNodes := by
            simpa [hasRoom, hunknown] using hroom
          exact hadd ⟨hunknown, hfree⟩
      obtain ⟨hkeep, hbudget, hseed, hcount, hnodes, hsub, hmem⟩ := hsession _ rfl
      have hlimit : p.session.budgets.maxKeep - p.session.keepIds.length =
          s.budgets.maxKeep - s.keepIds.length := by rw [h.budgets, h.keepIds]
      refine ⟨hkeep.trans h.keepIds, hbudget.trans h.budgets, hseed.trans h.seedIds,
        hcount.trans h.edgeKindCounts, hnodes, fun x hx => hsub x (h.known x hx), ?_, ?_, ?_⟩
      · exact h.extras_nodup.append (List.nodup_singleton _) (by simpa using hfresh)
      · intro x hx
        obtain hx | hx := List.mem_append.mp hx
        · exact h.extras_new x hx
        · rw [List.mem_singleton.mp hx, ← h.keepIds]
          exact hunkept
      · intro x hx
        obtain hx | ⟨rfl, hlt⟩ := mem_take_snoc hx
        · exact hsub x (h.extras_considered x hx)
        · apply hmem
          obtain hroom | hfull := Bool.or_eq_true_iff.mp hfit
          · exact hroom
          · have hle := of_decide_eq_true hfull
            omega

theorem Adjoining.addPeers {p : AdjacentPass} (h : Adjoining s p) (kid : String)
    (hfit : peersFit cfg g p kid = true) : Adjoining s (addPeers cfg g p kid) := by
  unfold Traverse.addPeers
  unfold peersFit at hfit
  cases hatom : g.getAtom kid with
  | none => exact h
  | some atom =>
    rw [hatom] at hfit
    obtain ⟨hprev, hnext⟩ := Bool.and_eq_true_iff.mp hfit
    exact (h.addPeer kid atom.prevAtomId hprev).addPeer kid atom.nextAtomId hnext

theorem Adjoining.foldl (ids : List String) {p : AdjacentPass} (h : Adjoining s p)
    (hfit : adjacentFits cfg g p ids = true) :
    Adjoining s (ids.foldl (Traverse.addPeers cfg g) p) := by
  induction ids generalizing p with
  | nil => exact h
  | cons kid rest ih =>
    obtain ⟨hkid, hrest⟩ := Bool.and_eq_true_iff.mp hfit
    exact ih (h.addPeers kid hkid) hrest

/-- New extras are kept in order, as many as there are slots. -/
theorem takeExtras_eq (extras : List String) (s : TraversalSession) (hnodup : extras.Nodup)
    (hnew : ∀ id ∈ extras, id ∉ s.keepIds) :
    takeExtras s extras =
      { s with keepIds := s.keepIds ++ extras.take (s.budgets.maxKeep - s.keepIds.length) } := by
  induction extras generalizing s with
  | nil => simp [takeExtras]
  | cons id rest ih =>
    obtain ⟨hid, hrest⟩ := List.nodup_cons.mp hnodup
    unfold takeExtras
    by_cases hfull : s.budgets.maxKeep ≤ s.keepIds.length
    · rw [if_pos hfull, Nat.sub_eq_zero_of_le hfull]
      simp
    · rw [if_neg hfull, if_neg (hnew id (List.mem_cons_self))]
      have hlater : ∀ x ∈ rest, x ∉ s.keepIds ++ [id] := by
        intro x hx hmem
        obtain hmem | hmem := List.mem_append.mp hmem
        · exact hnew x (List.mem_cons_of_mem _ hx) hmem
        · rw [List.mem_singleton.mp hmem] at hx
          exact hid hx
      rw [ih { s with keepIds := s.keepIds ++ [id] } hrest hlater]
      have hslots : s.budgets.maxKeep - s.keepIds.length =
          (s.budgets.maxKeep - (s.keepIds ++ [id]).length) + 1 := by
        rw [List.length_append, List.length_singleton]
        omega
      simp only [hslots, List.take_succ_cons, List.append_assoc, List.singleton_append]

/-- The keeps and their neighbours stay within the keep budget and the considered nodes. -/
theorem keepAdjacent_ok (hnodes : NodesOk s) (hseeds : SeedsOk s) (hkeeps : KeepsOk s)
    (hfit : adjacentFits cfg g { session := s } s.keepIds = true) :
    NodesOk (keepAdjacent cfg g s) ∧ SeedsOk (keepAdjacent cfg g s) ∧
      KeepsOk (keepAdjacent cfg g s) ∧ edgesWalked (keepAdjacent cfg g s) = edgesWalked s := by
  have hstart : Adjoining s { session := s } :=
    ⟨rfl, rfl, rfl, rfl, hnodes, fun _ h => h, List.nodup_nil,
      fun _ h => absurd h List.not_mem_nil, fun _ h => absurd (List.mem_of_mem_take h) List.not_mem_nil⟩
  have h := hstart.foldl s.keepIds hfit
  generalize hp : s.keepIds.foldl (Traverse.addPeers cfg g) { session := s } = p at h
  have hextras := takeExtras_eq p.extras p.session h.extras_nodup
    (by rw [h.keepIds]; exact h.extras_new)
  have hlimit : p.session.budgets.maxKeep - p.session.keepIds.length =
      s.budgets.maxKeep - s.keepIds.length := by rw [h.budgets, h.keepIds]
  have hkept : (keepAdjacent cfg g s).keepIds =
      s.keepIds ++ p.extras.take (s.budgets.maxKeep - s.keepIds.length) := by
    unfold keepAdjacent
    simp only [hp, hextras]
    rw [hlimit, h.keepIds]
  have hsession : ∀ t, t = keepAdjacent cfg g s → t.considered = p.session.considered ∧
      t.budgets.maxNodes = p.session.budgets.maxNodes ∧
      t.budgets.maxDepth = p.session.budgets.maxDepth ∧
      t.budgets.maxKeep = p.session.budgets.maxKeep ∧ t.seedIds = p.session.seedIds ∧
      t.edgeKindCounts = p.session.edgeKindCounts := by
    intro t ht
    unfold keepAdjacent at ht
    simp only [hp, hextras] at ht
    subst ht
    exact ⟨rfl, rfl, rfl, rfl, rfl, rfl⟩
  generalize keepAdjacent cfg g s = t at hkept hsession
  obtain ⟨hconsidered, hmaxNodes, hmaxDepth, hmaxKeep, hseedIds, hcounts⟩ := hsession t rfl
  have hids : t.consideredIds = p.session.consideredIds := by
    rw [TraversalSession.consideredIds, hconsidered]
    rfl
  refine ⟨⟨?_, ?_, ?_⟩, ⟨?_, ?_⟩, ⟨?_, ?_, ?_⟩, ?_⟩
  · rw [hids]
    exact h.nodes.nodup
  · rw [hconsidered, hmaxNodes]
    exact h.nodes.length_le
  · rw [hconsidered, hmaxDepth]
    exact h.nodes.depth_le
  · rw [hseedIds, h.seedIds]
    exact hseeds.nodup
  · rw [hseedIds, h.seedIds, hids]
    exact fun id hid => h.known id (hseeds.considered id hid)
  · rw [hkept]
    apply hkeeps.nodup.append (h.extras_nodup.sublist (List.take_sublist _ _))
    intro id hid hextra
    exact h.extras_new id (List.mem_of_mem_take hextra) hid
  · rw [hkept, hmaxKeep, h.budgets, List.length_append, List.length_take]
    have hle := hkeeps.length_le
    omega
  · intro id hid
    rw [hkept] at hid
    rw [hids]
    obtain hid | hid := List.mem_append.mp hid
    · exact h.known id (hkeeps.considered id hid)
    · exact h.extras_considered id hid
  · rw [edgesWalked, hcounts, h.edgeKindCounts]
    rfl

theorem noKeeps_ok {t : TraversalSession} (h : t.keepIds = []) : KeepsOk t := by
  refine ⟨?_, ?_, ?_⟩ <;> rw [h]
  · exact List.nodup_nil
  · exact Nat.zero_le _
  · exact fun _ hid => absurd hid List.not_mem_nil

theorem confirmed_ok (args : FinishArgs) (hs : WithinBudgets s)
    (hfit : finishFits cfg g args s = true) :
    WithinBudgets (confirmed cfg g args s) ∧
      edgesWalked (confirmed cfg g args s) = edgesWalked s := by
  have hkeeps : KeepsOk (finalKeeps args s) ∧ SameNodes s (finalKeeps args s) := by
    unfold finalKeeps
    cases args.keepIds with
    | none =>
      exact ⟨⟨hs.keeps.nodup, hs.keeps.length_le, hs.keeps.considered⟩, rfl, rfl, rfl, rfl⟩
    | some ids =>
      have hsame := mergeKeeps_same ids { s with updatedAt := args.now, keepIds := [] }
      exact ⟨mergeKeeps_ok ids _ (noKeeps_ok rfl), hsame.considered, hsame.budgets,
        hsame.seedIds, hsame.edgeKindCounts⟩
  obtain ⟨hfinal, hsame⟩ := hkeeps
  have hnodes := hsame.nodes hs.nodes
  have hseeds := hsame.seeds hs.seeds
  have hwalked : edgesWalked (finalKeeps args s) = edgesWalked s := by
    rw [edgesWalked, hsame.edgeKindCounts]
    rfl
  have hfrontier : ∀ t : TraversalSession, FrontierOk { t with
      status := .confirmed, finishedAt := some args.now, frontier := [] } := by
    intro t
    exact ⟨List.nodup_nil, fun f hf => absurd hf List.not_mem_nil, Nat.zero_le _⟩
  unfold confirmed
  simp only
  split_ifs with hadjacent
  · have hroom := (Bool.or_eq_true_iff.mp hfit).resolve_left (by simp [hadjacent.1, hadjacent.2])
    obtain ⟨hn, hse, hk, hw⟩ := keepAdjacent_ok hnodes hseeds hfinal hroom
    exact ⟨⟨⟨hn.nodup, hn.length_le, hn.depth_le⟩, ⟨hse.nodup, hse.considered⟩, hfrontier _,
      ⟨hk.nodup, hk.length_le, hk.considered⟩⟩, hw.trans hwalked⟩
  · exact ⟨⟨⟨hnodes.nodup, hnodes.length_le, hnodes.depth_le⟩, ⟨hseeds.nodup, hseeds.considered⟩,
      hfrontier _, ⟨hfinal.nodup, hfinal.length_le, hfinal.considered⟩⟩, hwalked⟩

end Finish

/-- A call, with the settings and the graph it finds. -/
inductive Call where
  | start (cfg : TraverseSettings) (g : GraphView) (args : StartArgs)
  | step (cfg : TraverseSettings) (g : GraphView) (args : StepArgs)
  | finish (cfg : TraverseSettings) (g : GraphView) (args : FinishArgs)
  | abandon (cfg : TraverseSettings) (sessionId : Option String) (reason now : String)
  | sweepIdle (cfg : TraverseSettings) (ageMicros : Option Int) (now : String)
  | onMomentClose (momentId : Option String) (now : String)

section Runs

variable [FloatOrder]

def perform (reg : TraversalRegistry) : Call → TraversalRegistry × TraverseView
  | .start cfg g args => start cfg g args reg
  | .step cfg g args => step cfg g args reg
  | .finish cfg g args => finish cfg g args reg
  | .abandon cfg sessionId reason now => abandon cfg sessionId reason now reg
  | .sweepIdle cfg ageMicros now => sweepIdle cfg ageMicros now reg
  | .onMomentClose momentId now => onMomentClose momentId now reg

def activeCount (reg : TraversalRegistry) : Nat :=
  (reg.active.map (fun s => s.considered.length)).getD 0

/-- A registry, and how many nodes the steps of its two sessions have added. -/
structure Walk where
  registry : TraversalRegistry := {}
  activeAdded : Nat := 0
  lastAdded : Nat := 0

def walk (w : Walk) (c : Call) : Walk :=
  let result := perform w.registry c
  let done := result.2.refusal = none
  { registry := result.1
    activeAdded :=
      match c with
      | .start _ _ _ => if done then 0 else w.activeAdded
      | .step _ _ _ => w.activeAdded + (activeCount result.1 - activeCount w.registry)
      | _ => w.activeAdded
    lastAdded :=
      match c with
      | .finish _ _ _ => if done then w.activeAdded else w.lastAdded
      | _ => w.lastAdded }

/-- Both sessions are within their budgets and count the nodes their steps added. -/
structure WalkOk (w : Walk) : Prop where
  active : ∀ s ∈ w.registry.active, WithinBudgets s ∧ edgesWalked s = w.activeAdded
  last : ∀ s ∈ w.registry.lastSession, WithinBudgets s ∧ edgesWalked s = w.lastAdded

/-- The session a call shows is within its budgets; a step calls new exactly what it added. -/
structure ViewOk (reg : TraversalRegistry) (c : Call) : Prop where
  session : ∀ s ∈ (perform reg c).2.session, WithinBudgets s
  newlyExpanded : ∀ cfg g args, c = .step cfg g args → ∀ s ∈ (perform reg c).2.session,
    ∃ b ∈ reg.active, s.consideredIds = b.consideredIds ++ (perform reg c).2.newlyExpanded

/-- Every state a run reaches and every view it returns is within the budgets. -/
def TraversalHolds (calls : List Call) : Prop :=
  ∀ before c rest, calls = before ++ c :: rest →
    let w := run walk {} before
    WalkOk (walk w c) ∧ ViewOk w.registry c

/-- The call records no node that it is refused room for. -/
def fits (reg : TraversalRegistry) : Call → Bool
  | .start cfg g args => startFits cfg g args
  | .step cfg g args =>
    match reg.requireActive args.sessionId with
    | .ok s => stepFits cfg g args (noted cfg args s)
    | .error _ => true
  | .finish cfg g args =>
    match reg.requireActive args.sessionId with
    | .ok s => finishFits cfg g args s
    | .error _ => true
  | _ => true

omit [FloatOrder] in
theorem requireActive_ok {reg : TraversalRegistry} {sessionId : Option String}
    {s : TraversalSession} (h : reg.requireActive sessionId = .ok s) : reg.active = some s := by
  unfold TraversalRegistry.requireActive at h
  cases ha : reg.active with
  | none =>
    rw [ha] at h
    cases h
  | some t =>
    rw [ha] at h
    simp only at h
    split_ifs at h
    cases h
    rfl

/-- A refused call changes nothing. -/
theorem refused_ok {w : Walk} {c : Call} {r : Refusal} (hw : WalkOk w)
    (h : perform w.registry c = (w.registry, .refused r)) :
    WalkOk (walk w c) ∧ ViewOk w.registry c := by
  have hsame : walk w c = w := by
    unfold walk
    rw [h]
    cases c <;> simp [TraverseView.refused]
  refine ⟨?_, ?_, ?_⟩
  · rw [hsame]
    exact hw
  · rw [h]
    exact fun s hs => absurd hs (by simp [TraverseView.refused])
  · rw [h]
    exact fun _ _ _ _ s hs => absurd hs (by simp [TraverseView.refused])

omit [FloatOrder] in
theorem noted_ok (cfg : TraverseSettings) (args : StepArgs) {s : TraversalSession}
    (hs : WithinBudgets s) : SameNodes s (noted cfg args s) ∧ KeepsOk (noted cfg args s) := by
  unfold noted
  cases args.scratchpad with
  | none =>
    have hsame := mergeKeeps_same args.keepIds { s with updatedAt := args.now }
    exact ⟨⟨hsame.considered, hsame.budgets, hsame.seedIds, hsame.edgeKindCounts⟩,
      mergeKeeps_ok _ _ ⟨hs.keeps.nodup, hs.keeps.length_le, hs.keeps.considered⟩⟩
  | some text =>
    have hsame := mergeKeeps_same args.keepIds
      { s with updatedAt := args.now, scratchpad := clip text cfg.scratchpadChars }
    exact ⟨⟨hsame.considered, hsame.budgets, hsame.seedIds, hsame.edgeKindCounts⟩,
      mergeKeeps_ok _ _ ⟨hs.keeps.nodup, hs.keeps.length_le, hs.keeps.considered⟩⟩

omit [FloatOrder] in
/-- A dropped session keeps its nodes and loses its keeps. -/
theorem dropActive_ok (reg : TraversalRegistry) (status : SessionStatus) (now : String)
    (h : ∀ s ∈ reg.active, WithinBudgets s) :
    (reg.dropActive status now).1.active = none ∧
      (reg.dropActive status now).1.lastSession = reg.lastSession ∧
      ∀ s ∈ (reg.dropActive status now).2, WithinBudgets s := by
  unfold TraversalRegistry.dropActive
  cases ha : reg.active with
  | none => exact ⟨ha, rfl, fun s hs => absurd hs (by simp)⟩
  | some s =>
    obtain ⟨hn, hse, hf, -⟩ := h s ha
    refine ⟨rfl, rfl, ?_⟩
    intro t ht
    cases Option.mem_some_iff.mp ht
    exact ⟨⟨hn.nodup, hn.length_le, hn.depth_le⟩, ⟨hse.nodup, hse.considered⟩,
      ⟨hf.nodup, hf.considered, hf.length_le⟩, noKeeps_ok rfl⟩

theorem start_cases (cfg : TraverseSettings) (g : GraphView) (args : StartArgs)
    (reg : TraversalRegistry) : start cfg g args reg = (reg, .refused .traverseDisabled) ∨
      ∃ before : TraversalRegistry, ∃ truncated, before.lastSession = reg.lastSession ∧
        let session := ((args.seeded cfg g).seeds truncated).rebuildFrontier []
        start cfg g args reg = ({ before with active := some session }, ⟨some session, [], none⟩) := by
  unfold start
  by_cases henabled : cfg.directedTraversalEnabled
  · rw [if_neg (by simp [henabled])]
    right
    simp only
    split_ifs
    · refine ⟨(reg.dropActive .abandoned args.now).1, _, ?_, rfl⟩
      unfold TraversalRegistry.dropActive
      cases reg.active <;> rfl
    · exact ⟨reg, _, rfl, rfl⟩
  · exact .inl (if_pos (by simp [henabled]))

theorem step_cases (cfg : TraverseSettings) (g : GraphView) (args : StepArgs)
    (reg : TraversalRegistry) : (∃ r, step cfg g args reg = (reg, .refused r)) ∨
      ∃ s, reg.requireActive args.sessionId = .ok s ∧
        let p := expanded cfg g args (noted cfg args s)
        step cfg g args reg =
          ({ reg with active := some (stepped p) }, ⟨some (stepped p), p.newly, none⟩) := by
  unfold step
  by_cases henabled : cfg.directedTraversalEnabled
  · rw [if_neg (by simp [henabled])]
    cases hrequire : reg.requireActive args.sessionId with
    | error r => exact .inl ⟨r, rfl⟩
    | ok s => exact .inr ⟨s, rfl, rfl⟩
  · exact .inl ⟨.traverseDisabled, if_pos (by simp [henabled])⟩

omit [FloatOrder] in
theorem finish_cases (cfg : TraverseSettings) (g : GraphView) (args : FinishArgs)
    (reg : TraversalRegistry) : (∃ r, finish cfg g args reg = (reg, .refused r)) ∨
      ∃ s snap, reg.requireActive args.sessionId = .ok s ∧
        let frozen := confirmed cfg g args s
        finish cfg g args reg = (⟨none, some frozen, some snap⟩, ⟨some frozen, [], none⟩) := by
  unfold finish
  by_cases henabled : cfg.directedTraversalEnabled
  · rw [if_neg (by simp [henabled])]
    cases hrequire : reg.requireActive args.sessionId with
    | error r => exact .inl ⟨r, rfl⟩
    | ok s => exact .inr ⟨s, _, rfl, rfl⟩
  · exact .inl ⟨.traverseDisabled, if_pos (by simp [henabled])⟩

theorem start_ok {w : Walk} (hw : WalkOk w) (cfg : TraverseSettings) (g : GraphView)
    (args : StartArgs) (hfit : startFits cfg g args = true) :
    WalkOk (walk w (.start cfg g args)) ∧ ViewOk w.registry (.start cfg g args) := by
  obtain hrefused | ⟨before, truncated, hlast, hstart⟩ := start_cases cfg g args w.registry
  · exact refused_ok hw hrefused
  · obtain ⟨hsession, hwalked⟩ := started_ok (seeding_seeded hfit) truncated
    have hperform : perform w.registry (.start cfg g args) = _ := hstart
    refine ⟨⟨?_, ?_⟩, ?_, ?_⟩
    · intro s hs
      simp only [walk, hperform] at hs ⊢
      cases Option.mem_some_iff.mp hs
      exact ⟨hsession, hwalked⟩
    · intro s hs
      simp only [walk, hperform, hlast] at hs ⊢
      exact hw.last s hs
    · intro s hs
      rw [hperform] at hs
      cases Option.mem_some_iff.mp hs
      exact hsession
    · intro _ _ _ hc
      cases hc

theorem step_ok {w : Walk} (hw : WalkOk w) (cfg : TraverseSettings) (g : GraphView)
    (args : StepArgs) (hfit : fits w.registry (.step cfg g args) = true) :
    WalkOk (walk w (.step cfg g args)) ∧ ViewOk w.registry (.step cfg g args) := by
  obtain ⟨r, hrefused⟩ | ⟨s, hrequire, hstep⟩ := step_cases cfg g args w.registry
  · exact refused_ok hw hrefused
  · have hperform : perform w.registry (.step cfg g args) = _ := hstep
    have hactive := requireActive_ok hrequire
    obtain ⟨hs, hwalked⟩ := hw.active s hactive
    have hroom : stepFits cfg g args (noted cfg args s) = true := by
      simp only [fits, hrequire] at hfit
      exact hfit
    obtain ⟨hsame, hkeeps⟩ := noted_ok cfg args hs
    have hstepping := Stepping.expanded args (hsame.nodes hs.nodes) hroom
    obtain ⟨hok, hids, hcount⟩ := stepped_ok hstepping (hsame.seeds hs.seeds) hkeeps
    generalize expanded cfg g args (noted cfg args s) = p at hperform hok hids hcount
    have hbefore : (noted cfg args s).consideredIds = s.consideredIds := by
      rw [TraversalSession.consideredIds, hsame.considered]
      rfl
    have hedges : edgesWalked (noted cfg args s) = edgesWalked s := by
      rw [edgesWalked, hsame.edgeKindCounts]
      rfl
    rw [hbefore] at hids
    have hlength : (stepped p).considered.length = s.considered.length + p.newly.length := by
      have hlen := congrArg List.length hids
      simpa [TraversalSession.consideredIds] using hlen
    refine ⟨⟨?_, ?_⟩, ?_, ?_⟩
    · intro t ht
      simp only [walk, hperform] at ht ⊢
      cases Option.mem_some_iff.mp ht
      refine ⟨hok, ?_⟩
      rw [hcount, hedges, hwalked, activeCount, activeCount, hactive]
      simp only [Option.map_some, Option.getD_some]
      omega
    · intro t ht
      simp only [walk, hperform] at ht ⊢
      exact hw.last t ht
    · intro t ht
      rw [hperform] at ht
      cases Option.mem_some_iff.mp ht
      exact hok
    · intro _ _ _ _ t ht
      rw [hperform] at ht ⊢
      cases Option.mem_some_iff.mp ht
      exact ⟨s, hactive, hids⟩

theorem finish_ok {w : Walk} (hw : WalkOk w) (cfg : TraverseSettings) (g : GraphView)
    (args : FinishArgs) (hfit : fits w.registry (.finish cfg g args) = true) :
    WalkOk (walk w (.finish cfg g args)) ∧ ViewOk w.registry (.finish cfg g args) := by
  obtain ⟨r, hrefused⟩ | ⟨s, snap, hrequire, hfinish⟩ := finish_cases cfg g args w.registry
  · exact refused_ok hw hrefused
  · have hperform : perform w.registry (.finish cfg g args) = _ := hfinish
    obtain ⟨hs, hwalked⟩ := hw.active s (requireActive_ok hrequire)
    have hroom : finishFits cfg g args s = true := by
      simp only [fits, hrequire] at hfit
      exact hfit
    obtain ⟨hok, hedges⟩ := confirmed_ok args hs hroom
    refine ⟨⟨?_, ?_⟩, ?_, ?_⟩
    · intro t ht
      simp only [walk, hperform] at ht
      exact absurd ht (by simp)
    · intro t ht
      simp only [walk, hperform] at ht ⊢
      cases Option.mem_some_iff.mp ht
      exact ⟨hok, hedges.trans hwalked⟩
    · intro t ht
      rw [hperform] at ht
      cases Option.mem_some_iff.mp ht
      exact hok
    · intro _ _ _ hc
      cases hc

/-- A call that drops the active session or leaves the registry alone. -/
theorem dropping_ok {w : Walk} (hw : WalkOk w) (c : Call)
    (hreg : (perform w.registry c).1 = w.registry ∧ (perform w.registry c).2.session = none ∨
      ∃ status now, (perform w.registry c).1 = (w.registry.dropActive status now).1 ∧
        ∀ s ∈ (perform w.registry c).2.session, s ∈ (w.registry.dropActive status now).2)
    (hcounts : (walk w c).activeAdded = w.activeAdded ∧ (walk w c).lastAdded = w.lastAdded)
    (hstep : ∀ cfg g args, c ≠ .step cfg g args) : WalkOk (walk w c) ∧ ViewOk w.registry c := by
  have hview : ∀ (P : Prop), (∀ s ∈ (perform w.registry c).2.session, WithinBudgets s) → P →
      P ∧ ViewOk w.registry c := by
    intro P hsession hp
    exact ⟨hp, hsession, fun cfg g args hc => absurd hc (hstep cfg g args)⟩
  obtain ⟨hactive, hlast⟩ := hcounts
  obtain ⟨hsame, hnone⟩ | ⟨status, now, hdrop, hshown⟩ := hreg
  · apply hview
    · intro s hs
      rw [hnone] at hs
      exact absurd hs (by simp)
    · have hregistry : (walk w c).registry = w.registry := hsame
      refine ⟨?_, ?_⟩
      · rw [hregistry, hactive]
        exact hw.active
      · rw [hregistry, hlast]
        exact hw.last
  · obtain ⟨hempty, hkept, hdropped⟩ := dropActive_ok w.registry status now
      (fun s hs => (hw.active s hs).1)
    apply hview
    · exact fun s hs => hdropped s (hshown s hs)
    · have hregistry : (walk w c).registry = (w.registry.dropActive status now).1 := hdrop
      refine ⟨?_, ?_⟩
      · rw [hregistry, hempty]
        exact fun s hs => absurd hs (by simp)
      · rw [hregistry, hkept, hlast]
        exact hw.last

theorem call_ok {w : Walk} (hw : WalkOk w) (c : Call) (hfit : fits w.registry c = true) :
    WalkOk (walk w c) ∧ ViewOk w.registry c := by
  cases c with
  | start cfg g args => exact start_ok hw cfg g args hfit
  | step cfg g args => exact step_ok hw cfg g args hfit
  | finish cfg g args => exact finish_ok hw cfg g args hfit
  | abandon cfg sessionId reason now =>
    have hcases : (∃ r, abandon cfg sessionId reason now w.registry = (w.registry, .refused r)) ∨
        ∃ status, abandon cfg sessionId reason now w.registry =
          ((w.registry.dropActive status now).1,
            ⟨(w.registry.dropActive status now).2, [], none⟩) := by
      unfold abandon
      by_cases henabled : cfg.directedTraversalEnabled
      · rw [if_neg (by simp [henabled])]
        cases w.registry.requireActive sessionId with
        | error r => exact .inl ⟨r, rfl⟩
        | ok s => exact .inr ⟨_, rfl⟩
      · exact .inl ⟨.traverseDisabled, if_pos (by simp [henabled])⟩
    obtain ⟨r, hrefused⟩ | ⟨status, hdrop⟩ := hcases
    · exact refused_ok hw hrefused
    · have hperform : perform w.registry (.abandon cfg sessionId reason now) = _ := hdrop
      apply dropping_ok hw _ (.inr ⟨status, now, ?_, ?_⟩) ⟨rfl, rfl⟩ (by simp)
      · rw [hperform]
      · rw [hperform]
        exact fun s hs => hs
  | sweepIdle cfg ageMicros now =>
    apply dropping_ok hw _ ?_ ⟨rfl, rfl⟩ (by simp)
    show (sweepIdle cfg ageMicros now w.registry).1 = _ ∧
      (sweepIdle cfg ageMicros now w.registry).2.session = none ∨ _
    unfold sweepIdle
    simp only
    split_ifs with hidle
    · exact .inr ⟨.timedOut, now, by simp [perform, sweepIdle, hidle],
        by simp [perform, sweepIdle, hidle]⟩
    · exact .inl ⟨rfl, rfl⟩
  | onMomentClose momentId now =>
    apply dropping_ok hw _ ?_ ⟨rfl, rfl⟩ (by simp)
    show (onMomentClose momentId now w.registry).1 = _ ∧
      (onMomentClose momentId now w.registry).2.session = none ∨ _
    unfold onMomentClose
    simp only
    split_ifs with hmine
    · exact .inr ⟨.abandoned, now, by simp [perform, onMomentClose, hmine],
        by simp [perform, onMomentClose, hmine]⟩
    · exact .inl ⟨rfl, rfl⟩

/-- In a run whose calls record no node they are refused room for, every session state and every
view stays within its budgets. -/
theorem traversal_within_budgets (calls : List Call)
    (hfit : Along walk (fun w c => fits w.registry c = true) {} calls) : TraversalHolds calls := by
  intro before c rest hcalls w
  rw [hcalls] at hfit
  obtain ⟨hbefore, hrest⟩ := (along_append ({} : Walk) before (c :: rest)).mp hfit
  have hstart : WalkOk {} :=
    ⟨fun s hs => absurd hs (by simp), fun s hs => absurd hs (by simp)⟩
  have hw : WalkOk w :=
    Along.invariant WalkOk (fun w c hc hw => (call_ok hw c hc).1) {} before hbefore hstart
  exact call_ok hw c hrest.1

end Runs

attribute [local instance] basicFloatOrder

def sampleConfig : TraverseSettings where
  directedTraversalEnabled := true
  labelChars := 80
  previewChars := 400
  maxSeeds := 10
  maxNodes := 80
  maxDepth := 5
  maxSteps := 12
  keepMax := 20
  expandMaxMs := 120
  startExpandMaxMs := 250
  frontierMax := 24
  dualStart := true
  dualStartN := 2
  maxExpandPerStep := 5
  neighborK := 16
  defaultSeedMode := none
  keepAdjacent := true
  scratchpadChars := 200
  sessionTtlS := 900
  semanticDeadlineMs := 0

def sampleAtom (id : String) (nextId : Option String) : Atom where
  atomId := id
  tStart := "2026-01-05T00:00:00Z"
  kind := "speak"
  contentText := id
  nextAtomId := nextId

/-- Some atoms, and an edge to the second from everywhere. -/
def sampleGraph : GraphView where
  getAtom id := [sampleAtom "a" (some "b"), sampleAtom "b" none].find? (fun x => x.atomId = id)
  keyed id x h := by simpa using List.find?_some h
  structural _ _ _ _ := ⟨[⟨"b", "sequential", "next", floatOne⟩], 0, false⟩
  semanticHop _ _ _ _ := []
  seedFromQuery _ _ _ _ := ⟨[], false, none⟩
  seedTemporal _ _ _ := []
  momentTail _ := none
  globalTail := none

def sampleStart (seeds : List String) (maxNodes : Int) : Call :=
  .start sampleConfig sampleGraph
    { sessionId := "tr_1", now := "2026-01-05T00:00:00Z", goal := "", seedAtomIds := seeds,
      seedMode := some "explicit_only", overrides := { maxNodes := some maxNodes } }

def sampleWalk : List Call :=
  [sampleStart ["a"] 2,
    .step sampleConfig sampleGraph
      { now := "2026-01-05T00:00:01Z", expandIds := ["a"], keepIds := ["a"] },
    .finish sampleConfig sampleGraph { now := "2026-01-05T00:00:02Z" }]

theorem traversal_within_budgets_sample : TraversalHolds sampleWalk :=
  traversal_within_budgets sampleWalk (by decide +kernel)

/-- The second seed is refused for lack of room and recorded all the same. -/
theorem refused_seed_recorded : ¬∀ calls, TraversalHolds calls := by
  intro h
  have hstate := (h [sampleStart ["a", "b"] 1] [] _ [] rfl).1.active
  have hseeds := (hstate _ rfl).1.seeds.considered "b" (by decide +kernel)
  exact absurd hseeds (by decide +kernel)

end Elyra.Memory.Traverse
