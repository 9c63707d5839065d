import Elyra.Framework.Text
import Elyra.Memory.Atoms

namespace Elyra.Memory.Traverse

/-- `<` and `==` of floats. -/
class FloatOrder where
  lt : FloatLit → FloatLit → Bool
  eq : FloatLit → FloatLit → Bool

/-- Non-negative whole numbers only; the other values are not exact. -/
@[reducible] def basicFloatOrder : FloatOrder where
  lt
    | .decimal _ x _ _ _, .decimal _ y _ _ _ => x < y
    | _, _ => false
  eq x y := x = y

def floatZero : FloatLit := .decimal false 0 0 [] none

def floatOne : FloatLit := .decimal false 1 0 [] none

def traverseMaxStepsMax : Int := 24
def traverseMaxNodesMax : Int := 160
def traverseMaxDepthMax : Int := 8
def traverseKeepMaxMax : Int := 32
def traverseFrontierMaxMax : Int := 48
def traverseMaxExpandPerStepMax : Int := 10
def traverseNeighborKMax : Int := 32

/-- What the registry reads of the memory settings. -/
structure TraverseSettings where
  directedTraversalEnabled : Bool
  labelChars : Int
  previewChars : Int
  maxSeeds : Int
  maxNodes : Int
  maxDepth : Int
  maxSteps : Int
  keepMax : Int
  expandMaxMs : Int
  startExpandMaxMs : Int
  frontierMax : Int
  dualStart : Bool
  dualStartN : Int
  maxExpandPerStep : Int
  neighborK : Int
  defaultSeedMode : Option String
  keepAdjacent : Bool
  scratchpadChars : Int
  sessionTtlS : Int
  /-- `semantic_ann_deadline_ms(cfg, "traverse")`. -/
  semanticDeadlineMs : Int

inductive SeedMode where
  | auto | semanticOnly | temporalOnly | explicitOnly
  deriving DecidableEq

/-- `str(raw or "auto").strip().lower()`, another mode being `auto`. -/
def seedModeOf (raw : Option String) : SeedMode :=
  let mode := (strip (raw.getD "").toList).map Char.toLower
  if mode = "semantic_only".toList then .semanticOnly
  else if mode = "temporal_only".toList ∨ mode = "temporal".toList then .temporalOnly
  else if mode = "explicit_only".toList then .explicitOnly
  else .auto

/-- `clamp_budget` with its default lower end. -/
def clampBudget (request : Option Int) (productDefault hardMax : Int) : Int :=
  let raw := request.getD productDefault
  if hardMax < 1 then 1 else if raw < 1 then 1 else if hardMax < raw then hardMax else raw

structure BudgetOverrides where
  maxSteps : Option Int := none
  maxNodes : Option Int := none
  maxDepth : Option Int := none
  maxKeep : Option Int := none
  frontierMax : Option Int := none
  maxExpandPerStep : Option Int := none
  neighborK : Option Int := none

structure BudgetState where
  maxSteps : Nat
  maxNodes : Nat
  maxDepth : Nat
  maxKeep : Nat
  expandMsBudget : Int
  frontierMax : Nat
  maxExpandPerStep : Nat
  neighborK : Nat
  stepsSpent : Nat := 0
  nodesSpent : Nat := 0
  depthSpent : Nat := 0

namespace BudgetState

def stepsRemaining (b : BudgetState) : Nat := b.maxSteps - b.stepsSpent

def nodesRemaining (b : BudgetState) : Nat := b.maxNodes - b.nodesSpent

def depthRemaining (b : BudgetState) : Nat := b.maxDepth - b.depthSpent

end BudgetState

structure ConsideredNode where
  atomId : String
  kind : String
  label : String
  preview : String
  viaEdgeKind : Option String
  viaReason : Option String
  depth : Nat
  weight : Option FloatLit
  parentId : Option String

structure FrontierItem where
  atomId : String
  label : String
  preview : String
  kind : String
  edgeKind : Option String
  weight : FloatLit
  reason : String
  depth : Nat

inductive SessionStatus where
  | active | confirmed | abandoned | timedOut
  deriving DecidableEq

/-- `considered` lists its nodes in insertion order, each under its own id. -/
structure TraversalSession where
  sessionId : String
  goal : String
  status : SessionStatus
  seedIds : List String
  considered : List ConsideredNode
  frontier : List FrontierItem
  keepIds : List String
  scratchpad : String
  budgets : BudgetState
  createdAt : String
  updatedAt : String
  finishedAt : Option String := none
  momentId : Option String := none
  seedReasons : List String := []
  edgeKindCounts : Dict String Nat := .empty
  expandTruncated : Bool := false

/-- An edge that `GraphView.neighbors` returns. -/
structure Hop where
  dstAtomId : String
  edgeKind : String
  reason : String
  weight : FloatLit

/-- A seed that `GraphView` proposes: its id, score and reason. -/
structure SeedHit where
  atomId : String
  score : FloatLit
  reason : String

structure Expansion where
  edges : List Hop
  structuralMsSpent : Int
  truncated : Bool

structure SeedSearch where
  hits : List SeedHit
  truncated : Bool
  semanticReason : Option String

/-- The graph a call walks, and the store behind it, which keeps each atom under its own id. -/
structure GraphView where
  getAtom : String → Option Atom
  keyed : ∀ id a, getAtom id = some a → a.atomId = id
  /-- `neighbors(src, k, exclude_ids, allow_semantic=False, expand_deadline_ms)`. -/
  structural : String → Nat → List String → Option Int → Expansion
  /-- `neighbors(src, kinds=["semantic_hop"], k, exclude_ids, semantic_deadline_ms)`. -/
  semanticHop : String → Nat → List String → Int → List Hop
  seedFromQuery : Option String → List String → Int → Option String → SeedSearch
  seedTemporal : Option String → Option String → Int → List SeedHit
  momentTail : String → Option String
  globalTail : Option String

def ellipsis : Char := '…'

/-- `_clip`. -/
def clip (text : String) (n : Int) : String :=
  if text = "" ∨ n ≤ 0 then ""
  else
    let s := strip (text.toList.map (fun c => if c = '\n' then ' ' else c))
    if (s.length : Int) ≤ n then .ofList s
    else if n ≤ 1 then .ofList (s.take n.toNat)
    else .ofList (s.take (n - 1).toNat ++ [ellipsis])

def trimmed (text : String) : String := .ofList (strip text.toList)

/-- A parcel shows the text of its parent, when there is one. -/
def atomBody (g : GraphView) (atom : Atom) : String :=
  let text := trimmed atom.contentText
  match atom.parentAtomId with
  | some parentId =>
    if atom.kind = "parcel" ∧ parentId ≠ "" then
      match g.getAtom parentId with
      | some parent => if trimmed parent.contentText ≠ "" then trimmed parent.contentText else text
      | none => text
    else text
  | none => text

namespace TraversalSession

def find? (s : TraversalSession) (id : String) : Option ConsideredNode :=
  s.considered.find? (fun n => n.atomId = id)

def consideredIds (s : TraversalSession) : List String := s.considered.map ConsideredNode.atomId

/-- `_add_considered`: a known id, or one past the node budget, is refused without a word. -/
def addConsidered (s : TraversalSession) (node : ConsideredNode) : TraversalSession :=
  if node.atomId ∈ s.consideredIds then s
  else if s.budgets.maxNodes ≤ s.considered.length then s
  else { s with considered := s.considered ++ [node] }

def mergeKeeps (s : TraversalSession) : List String → TraversalSession
  | [] => s
  | aid :: rest =>
    if aid ∈ s.keepIds then s.mergeKeeps rest
    else if aid ∉ s.consideredIds then s.mergeKeeps rest
    else if s.budgets.maxKeep ≤ s.keepIds.length then s
    else { s with keepIds := s.keepIds ++ [aid] }.mergeKeeps rest

end TraversalSession

/-- The node of an atom, its texts cut to the settings. -/
def nodeOf (g : GraphView) (cfg : TraverseSettings) (atom : Atom) (viaEdgeKind viaReason : Option String)
    (depth : Nat) (weight : Option FloatLit) (parentId : Option String) : ConsideredNode where
  atomId := atom.atomId
  kind := atom.kind
  label := clip (atomBody g atom) cfg.labelChars
  preview := clip (atomBody g atom) cfg.previewChars
  viaEdgeKind := viaEdgeKind
  viaReason := viaReason
  depth := depth
  weight := weight
  parentId := parentId

section Frontier

variable [FloatOrder]

def frontierItem (prefer : List String) (node : ConsideredNode) : FrontierItem where
  atomId := node.atomId
  label := node.label
  preview := if node.atomId ∈ prefer ∨ node.depth = 0 then node.preview else ""
  kind := node.kind
  edgeKind := node.viaEdgeKind
  weight := node.weight.getD floatZero
  reason := if node.viaReason.getD "" ≠ "" then node.viaReason.getD "" else "seed"
  depth := node.depth

/-- New ids first, then by weight from the top, depth and id. -/
def FrontierItem.before (prefer : List String) (a b : FrontierItem) : Bool :=
  if decide (a.atomId ∈ prefer) ≠ decide (b.atomId ∈ prefer) then a.atomId ∈ prefer
  else if !FloatOrder.eq a.weight b.weight then FloatOrder.lt b.weight a.weight
  else if a.depth ≠ b.depth then a.depth < b.depth
  else a.atomId < b.atomId

def fillPreview (s : TraversalSession) (f : FrontierItem) : FrontierItem :=
  match s.find? f.atomId with
  | some node => if f.preview = "" then { f with preview := node.preview } else f
  | none => f

/-- `_rebuild_frontier`. -/
def TraversalSession.rebuildFrontier (s : TraversalSession) (prefer : List String) :
    TraversalSession :=
  let items := s.considered.map (frontierItem prefer)
  let sorted := items.mergeSort (fun a b => !b.before prefer a)
  { s with frontier := (sorted.take s.budgets.frontierMax).map (fillPreview s) }

end Frontier

inductive SeedSource where
  | explicit | semantic | temporal
  deriving DecidableEq

def SeedSource.text : SeedSource → String
  | explicit => "explicit"
  | semantic => "semantic"
  | temporal => "temporal"

/-- What `start` carries through its seed phases. -/
structure SeedPass where
  session : TraversalSession
  seedOrder : List String := []
  reasonTags : List String := []
  seedSources : SeedSource → Nat := fun _ => 0

def SeedPass.tag (p : SeedPass) (reason : String) : SeedPass :=
  if reason ∈ p.reasonTags then p else { p with reasonTags := p.reasonTags ++ [reason] }

/-- How a phase records the seeds it takes. -/
structure SeedVia where
  source : SeedSource
  viaEdgeKind : Option String

/-- `_add_seed`. -/
def addSeed (g : GraphView) (cfg : TraverseSettings) (via : SeedVia) (atom : Atom) (hit : SeedHit)
    (p : SeedPass) : SeedPass :=
  if cfg.maxSeeds ≤ p.seedOrder.length then p
  else if hit.atomId ∈ p.session.consideredIds then p
  else
    let node := nodeOf g cfg atom via.viaEdgeKind (some hit.reason) 0 (some hit.score) none
    { p with
      session := p.session.addConsidered node
      seedOrder := p.seedOrder ++ [hit.atomId]
      seedSources := fun x => if x = via.source then p.seedSources x + 1 else p.seedSources x
      }.tag via.source.text

/-- The seeds of one phase, offered in order until the phase has had enough. -/
def offerSeeds (g : GraphView) (cfg : TraverseSettings) (via : SeedVia) (enough : SeedPass → Bool) :
    SeedPass → List SeedHit → SeedPass
  | p, [] => p
  | p, hit :: rest =>
    if enough p then p
    else
      match g.getAtom hit.atomId with
      | none => offerSeeds g cfg via enough p rest
      | some atom => offerSeeds g cfg via enough (addSeed g cfg via atom hit p) rest

structure StartArgs where
  sessionId : String
  now : String
  goal : String
  seedQuery : Option String := none
  seedAtomIds : List String := []
  seedMediaIds : List String := []
  seedMode : Option String := none
  momentId : Option String := none
  overrides : BudgetOverrides := {}

namespace StartArgs

variable (cfg : TraverseSettings) (a : StartArgs)

def mode : SeedMode :=
  seedModeOf (if a.seedMode.isSome then a.seedMode else cfg.defaultSeedMode)

def dualN : Int :=
  if cfg.dualStart ∧ a.mode cfg = .auto then max 0 (min 4 cfg.dualStartN) else 0

def budgets : BudgetState where
  maxSteps := (clampBudget a.overrides.maxSteps cfg.maxSteps traverseMaxStepsMax).toNat
  maxNodes := (clampBudget a.overrides.maxNodes cfg.maxNodes traverseMaxNodesMax).toNat
  maxDepth := (clampBudget a.overrides.maxDepth cfg.maxDepth traverseMaxDepthMax).toNat
  maxKeep := (clampBudget a.overrides.maxKeep cfg.keepMax traverseKeepMaxMax).toNat
  expandMsBudget := cfg.expandMaxMs
  frontierMax := (clampBudget a.overrides.frontierMax cfg.frontierMax traverseFrontierMaxMax).toNat
  maxExpandPerStep := (clampBudget a.overrides.maxExpandPerStep cfg.maxExpandPerStep
    traverseMaxExpandPerStepMax).toNat
  neighborK := (clampBudget a.overrides.neighborK cfg.neighborK traverseNeighborKMax).toNat

def session : TraversalSession where
  sessionId := a.sessionId
  goal := if trimmed a.goal ≠ "" then trimmed a.goal else "explore"
  status := .active
  seedIds := []
  considered := []
  frontier := []
  keepIds := []
  scratchpad := ""
  budgets := a.budgets cfg
  createdAt := a.now
  updatedAt := a.now
  momentId := a.momentId

def explicitHits : List SeedHit := a.seedAtomIds.map (fun id => ⟨id, floatOne, "seed:explicit"⟩)

def explicitVia : SeedVia := ⟨.explicit, none⟩

def explicitEnough (p : SeedPass) : Bool := cfg.maxSeeds ≤ p.seedOrder.length

/-- Explicit seeds. -/
def explicitPass (g : GraphView) : SeedPass :=
  offerSeeds g cfg explicitVia (explicitEnough cfg) { session := a.session cfg } a.explicitHits

def wantSemantic : Bool := a.mode cfg = .auto || a.mode cfg = .semanticOnly

def mediaList : List String := a.seedMediaIds.filter (fun m => trimmed m ≠ "")

def query : String :=
  match a.seedQuery with
  | some q => trimmed q
  | none => if a.wantSemantic cfg then trimmed (a.session cfg).goal else ""

/-- Slots are reserved for the temporal anchors. -/
def semanticRoom (p : SeedPass) : Int := cfg.maxSeeds - p.seedOrder.length - a.dualN cfg

def semanticVia : SeedVia := ⟨.semantic, some "semantic_hop"⟩

def semanticEnough (room : Int) (p : SeedPass) : Bool :=
  cfg.maxSeeds - a.dualN cfg ≤ p.seedOrder.length || room ≤ p.seedSources .semantic

/-- Whether the semantic search is made. -/
def searches (p : SeedPass) : Bool :=
  a.wantSemantic cfg && (a.query cfg ≠ "" || a.mediaList ≠ []) &&
    (p.seedOrder.length : Int) < cfg.maxSeeds && 0 < a.semanticRoom cfg p

def search (g : GraphView) (p : SeedPass) : SeedSearch :=
  if a.searches cfg p then
    let q := if a.query cfg ≠ "" then some (a.query cfg) else none
    g.seedFromQuery q a.mediaList (a.semanticRoom cfg p) a.momentId
  else ⟨[], false, none⟩

/-- Semantic seeds. -/
def semanticPass (g : GraphView) (p : SeedPass) : SeedPass :=
  let found := a.search cfg g p
  let q := offerSeeds g cfg semanticVia (a.semanticEnough cfg (a.semanticRoom cfg p)) p found.hits
  let q := if found.hits = [] then (found.semanticReason.map q.tag).getD q else q
  if found.truncated then q.tag "expand_truncated" else q

/-- How many temporal seeds are filled in. -/
def temporalCap (p : SeedPass) : Int :=
  let room := cfg.maxSeeds - p.seedOrder.length
  match a.mode cfg with
  | .semanticOnly | .explicitOnly => 0
  | .temporalOnly => room
  | .auto =>
    if 0 < a.dualN cfg ∧ 1 ≤ p.seedSources .semantic then min (a.dualN cfg) room
    else if p.seedSources .semantic = 0 then room
    else 0

def around (g : GraphView) (p : SeedPass) : Option String :=
  match p.seedOrder.head? with
  | some id => some id
  | none =>
    match a.momentId with
    | some m => if m ≠ "" then g.momentTail m else g.globalTail
    | none => g.globalTail

def temporalVia : SeedVia := ⟨.temporal, none⟩

def temporalEnough (cap : Int) (p : SeedPass) : Bool :=
  cap ≤ p.seedSources .temporal || cfg.maxSeeds ≤ p.seedOrder.length

def temporalHits (g : GraphView) (p : SeedPass) : List SeedHit :=
  let cap := a.temporalCap cfg p
  if cap ≤ 0 ∨ cfg.maxSeeds ≤ p.seedOrder.length then []
  else g.seedTemporal (a.around g p) a.momentId (cap + p.seedOrder.length)

/-- Temporal seeds. -/
def temporalPass (g : GraphView) (p : SeedPass) : SeedPass :=
  offerSeeds g cfg temporalVia (temporalEnough cfg (a.temporalCap cfg p)) p (a.temporalHits cfg g p)

def seeded (g : GraphView) : SeedPass :=
  a.temporalPass cfg g (a.semanticPass cfg g (a.explicitPass cfg g))

end StartArgs

/-- A session as `start` leaves it, before its frontier. -/
def SeedPass.seeds (p : SeedPass) (truncated : Bool) : TraversalSession :=
  { p.session with
    seedIds := p.seedOrder
    seedReasons := p.reasonTags
    expandTruncated := truncated
    budgets := { p.session.budgets with nodesSpent := p.session.considered.length, depthSpent := 0 } }

structure ConfirmedKeepSnapshot where
  sessionId : String
  goal : String
  keepIds : List String
  finishedAt : String
  momentId : Option String

structure TraversalRegistry where
  active : Option TraversalSession := none
  lastSession : Option TraversalSession := none
  lastConfirmedKeep : Option ConfirmedKeepSnapshot := none

inductive Refusal where
  | traverseDisabled | noActiveSession | unknownSession
  deriving DecidableEq

/-- What a call returns: the session it shows, and the ids a step calls new. -/
structure TraverseView where
  session : Option TraversalSession
  newlyExpanded : List String := []
  refusal : Option Refusal := none

def TraverseView.refused (r : Refusal) : TraverseView := ⟨none, [], some r⟩

namespace TraversalRegistry

/-- `_drop_active`. -/
def dropActive (reg : TraversalRegistry) (status : SessionStatus) (now : String) :
    TraversalRegistry × Option TraversalSession :=
  match reg.active with
  | none => (reg, none)
  | some s =>
    let dropped := { s with status := status, finishedAt := some now, updatedAt := now, keepIds := [] }
    ({ reg with active := none }, some dropped)

def requireActive (reg : TraversalRegistry) (sessionId : Option String) :
    Except Refusal TraversalSession :=
  match reg.active with
  | none => .error .noActiveSession
  | some s =>
    if s.status ≠ .active then .error .noActiveSession
    else if ∃ id ∈ sessionId, s.sessionId ≠ id then .error .unknownSession
    else .ok s

end TraversalRegistry

section Calls

variable [FloatOrder] (cfg : TraverseSettings) (g : GraphView)

def start (args : StartArgs) (reg : TraversalRegistry) : TraversalRegistry × TraverseView :=
  if !cfg.directedTraversalEnabled then (reg, .refused .traverseDisabled)
  else
    let reg := if reg.active.any (fun s => s.status = .active) then
      (reg.dropActive .abandoned args.now).1 else reg
    let p := args.seeded cfg g
    let found := args.search cfg g (args.explicitPass cfg g)
    let session := (p.seeds found.truncated).rebuildFrontier []
    ({ reg with active := some session }, ⟨some session, [], none⟩)

/-- What a step carries through its expansions. -/
structure StepPass where
  session : TraversalSession
  newly : List String := []
  structSpent : Int := 0
  annCalled : Bool := false
  truncated : Bool := false

/-- A node accepted over an edge. -/
def StepPass.accept (p : StepPass) (node : ConsideredNode) (e : Hop) (nextDepth : Nat) : StepPass :=
  let s := p.session.addConsidered node
  { p with
    session := { s with
      edgeKindCounts := s.edgeKindCounts.set e.edgeKind ((s.edgeKindCounts.get? e.edgeKind).getD 0 + 1)
      budgets := { s.budgets with depthSpent := max s.budgets.depthSpent nextDepth } }
    newly := p.newly ++ [e.dstAtomId] }

/-- `_pack_edges`; the node budget it looks at is the one of the step's beginning. -/
def packEdges (srcId : String) (nextDepth : Nat) : StepPass → List Hop → StepPass
  | p, [] => p
  | p, e :: es =>
    if p.session.budgets.nodesRemaining = 0 then p
    else if e.dstAtomId ∈ p.session.consideredIds then packEdges srcId nextDepth p es
    else
      match g.getAtom e.dstAtomId with
      | none => packEdges srcId nextDepth p es
      | some atom =>
        let node := nodeOf g cfg atom (some e.edgeKind) (some e.reason) nextDepth (some e.weight)
          (some srcId)
        packEdges srcId nextDepth (p.accept node e nextDepth) es

/-- The structural time left; `none` is no wall. -/
def structRemaining (p : StepPass) : Option Int :=
  if 0 < p.session.budgets.expandMsBudget then
    some (max 0 (p.session.budgets.expandMsBudget - p.structSpent))
  else none

/-- The structural expansion of one focus. -/
def expandStructural (p : StepPass) (srcId : String) : Expansion :=
  g.structural srcId p.session.budgets.neighborK p.session.consideredIds (structRemaining p)

def StepPass.charge (p : StepPass) (x : Expansion) : StepPass :=
  { p with structSpent := p.structSpent + x.structuralMsSpent, truncated := p.truncated || x.truncated }

/-- Whether the one semantic expansion of a step is made now. -/
def callsAnn (p : StepPass) : Bool :=
  !p.annCalled && 0 < cfg.semanticDeadlineMs && 0 < p.session.budgets.nodesRemaining

def expandSemantic (p : StepPass) (srcId : String) : List Hop :=
  g.semanticHop srcId p.session.budgets.neighborK p.session.consideredIds cfg.semanticDeadlineMs

/-- Both expansions of one focus. -/
def expandFocus (srcId : String) (nextDepth : Nat) (p : StepPass) : StepPass :=
  let x := expandStructural g p srcId
  let p := packEdges cfg g srcId nextDepth (p.charge x) x.edges
  if callsAnn cfg p then
    packEdges cfg g srcId nextDepth { p with annCalled := true } (expandSemantic cfg g p srcId)
  else p

/-- The loop over the picked focus ids. -/
def expandPicks : StepPass → List String → StepPass
  | p, [] => p
  | p, srcId :: rest =>
    if p.session.budgets.nodesRemaining = 0 then p
    else if structRemaining p = some 0 then { p with truncated := true }
    else
      match p.session.find? srcId with
      | none => expandPicks p rest
      | some src =>
        if p.session.budgets.maxDepth < src.depth + 1 then expandPicks p rest
        else expandPicks (expandFocus cfg g srcId (src.depth + 1) p) rest

structure StepArgs where
  now : String
  sessionId : Option String := none
  expandIds : List String := []
  keepIds : List String := []
  scratchpad : Option String := none

def canExpand (b : BudgetState) : Bool :=
  0 < b.stepsRemaining && 0 < b.nodesRemaining && 0 < b.depthRemaining

/-- The session with the notes and keeps of the step. -/
def noted (args : StepArgs) (s : TraversalSession) : TraversalSession :=
  let s := { s with updatedAt := args.now }
  let s :=
    match args.scratchpad with
    | some text => { s with scratchpad := clip text cfg.scratchpadChars }
    | none => s
  s.mergeKeeps args.keepIds

/-- The focus ids of a step, cut to the budget. -/
def picks (args : StepArgs) (s : TraversalSession) : List String :=
  args.expandIds.take s.budgets.maxExpandPerStep

def spendStep (s : TraversalSession) : TraversalSession :=
  { s with budgets := { s.budgets with stepsSpent := s.budgets.stepsSpent + 1 } }

def expanded (args : StepArgs) (s : TraversalSession) : StepPass :=
  if canExpand s.budgets && args.expandIds ≠ [] then
    expandPicks cfg g { session := spendStep s } (picks args s)
  else { session := s }

/-- The session a step leaves. -/
def stepped (p : StepPass) : TraversalSession :=
  let s := { p.session with
    budgets := { p.session.budgets with nodesSpent := p.session.considered.length }
    expandTruncated := p.truncated || p.session.expandTruncated }
  s.rebuildFrontier p.newly

def step (args : StepArgs) (reg : TraversalRegistry) : TraversalRegistry × TraverseView :=
  if !cfg.directedTraversalEnabled then (reg, .refused .traverseDisabled)
  else
    match reg.requireActive args.sessionId with
    | .error r => (reg, .refused r)
    | .ok s =>
      let p := expanded cfg g args (noted cfg args s)
      let session := stepped p
      ({ reg with active := some session }, ⟨some session, p.newly, none⟩)

/-- What `_keep_adjacent` carries through the keeps. -/
structure AdjacentPass where
  session : TraversalSession
  extras : List String := []

def adjacentNode (kid : String) (peer : Atom) (s : TraversalSession) : ConsideredNode :=
  nodeOf g cfg peer (some "sequential") (some "keep_adjacent")
    (((s.find? kid).map ConsideredNode.depth).getD 0) none (some kid)

/-- One peer of a kept atom; it is taken even where the node budget has no room for it. -/
def addPeer (kid : String) (peerId : Option String) (p : AdjacentPass) : AdjacentPass :=
  let id := peerId.getD ""
  if id = "" ∨ id ∈ p.session.keepIds ∨ id ∈ p.extras then p
  else
    match g.getAtom id with
    | none => p
    | some peer =>
      { session :=
          if id ∉ p.session.consideredIds ∧ p.session.considered.length < p.session.budgets.maxNodes
          then p.session.addConsidered (adjacentNode cfg g kid peer p.session) else p.session
        extras := p.extras ++ [id] }

def addPeers (p : AdjacentPass) (kid : String) : AdjacentPass :=
  match g.getAtom kid with
  | none => p
  | some atom => addPeer cfg g kid atom.nextAtomId (addPeer cfg g kid atom.prevAtomId p)

/-- The extras, as far as the keep budget goes. -/
def takeExtras (s : TraversalSession) : List String → TraversalSession
  | [] => s
  | id :: rest =>
    if s.budgets.maxKeep ≤ s.keepIds.length then s
    else if id ∈ s.keepIds then takeExtras s rest
    else takeExtras { s with keepIds := s.keepIds ++ [id] } rest

def keepAdjacent (s : TraversalSession) : TraversalSession :=
  let p := s.keepIds.foldl (addPeers cfg g) { session := s }
  let s := takeExtras p.session p.extras
  { s with budgets := { s.budgets with nodesSpent := s.considered.length } }

structure FinishArgs where
  now : String
  /-- A graph is passed for the adjacent atoms. -/
  withGraph : Bool := true
  sessionId : Option String := none
  keepIds : Option (List String) := none

/-- The session with the final keep list. -/
def finalKeeps (args : FinishArgs) (s : TraversalSession) : TraversalSession :=
  let s := { s with updatedAt := args.now }
  match args.keepIds with
  | some ids => { s with keepIds := [] }.mergeKeeps ids
  | none => s

def confirmed (args : FinishArgs) (s : TraversalSession) : TraversalSession :=
  let s := finalKeeps args s
  let s := if args.withGraph ∧ cfg.keepAdjacent then keepAdjacent cfg g s else s
  { s with status := .confirmed, finishedAt := some args.now, frontier := [] }

def finish (args : FinishArgs) (reg : TraversalRegistry) : TraversalRegistry × TraverseView :=
  if !cfg.directedTraversalEnabled then (reg, .refused .traverseDisabled)
  else
    match reg.requireActive args.sessionId with
    | .error r => (reg, .refused r)
    | .ok s =>
      let frozen := confirmed cfg g args s
      let snap := ⟨frozen.sessionId, frozen.goal, frozen.keepIds, args.now, frozen.momentId⟩
      (⟨none, some frozen, some snap⟩, ⟨some frozen, [], none⟩)

def abandon (sessionId : Option String) (reason now : String) (reg : TraversalRegistry) :
    TraversalRegistry × TraverseView :=
  if !cfg.directedTraversalEnabled then (reg, .refused .traverseDisabled)
  else
    match reg.requireActive sessionId with
    | .error r => (reg, .refused r)
    | .ok _ =>
      let status := if reason ∈ ["timed_out", "idle_ttl", "timeout"] then .timedOut else .abandoned
      let dropped := reg.dropActive status now
      (dropped.1, ⟨dropped.2, [], none⟩)

/-- `ageMicros` is the time since the session's last touch, `none` when a stamp does not parse. -/
def sweepIdle (ageMicros : Option Int) (now : String) (reg : TraversalRegistry) :
    TraversalRegistry × TraverseView :=
  let idle := 0 < cfg.sessionTtlS && ageMicros.any (fun age => cfg.sessionTtlS * 1000000 ≤ age)
  if reg.active.any (fun s => s.status = .active) && idle then
    let dropped := reg.dropActive .timedOut now
    (dropped.1, ⟨dropped.2, [], none⟩)
  else (reg, ⟨none, [], none⟩)

def onMomentClose (momentId : Option String) (now : String) (reg : TraversalRegistry) :
    TraversalRegistry × TraverseView :=
  let mine := fun s : TraversalSession =>
    momentId = none || s.momentId = none || s.momentId = momentId
  if reg.active.any mine then ((reg.dropActive .abandoned now).1, ⟨none, [], none⟩)
  else (reg, ⟨none, [], none⟩)

end Calls
end Elyra.Memory.Traverse
