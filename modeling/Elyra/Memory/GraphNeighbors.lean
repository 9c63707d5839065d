import Elyra.Framework.Collected
import Elyra.Memory.StoreCalls
import Elyra.Memory.VectorSearch

namespace Elyra.Memory.Graph

inductive EdgeKind where
  | sequential | recalls | createdWith | inMoment | parentOf | childOf | summaryChild
  | summarySource | supersedes | sameMoment | semanticHop | hasChannel
  deriving DecidableEq

namespace EdgeKind

def text : EdgeKind → String
  | sequential => "sequential"
  | recalls => "recalls"
  | createdWith => "created_with"
  | inMoment => "in_moment"
  | parentOf => "parent_of"
  | childOf => "child_of"
  | summaryChild => "summary_child"
  | summarySource => "summary_source"
  | supersedes => "supersedes"
  | sameMoment => "same_moment"
  | semanticHop => "semantic_hop"
  | hasChannel => "has_channel"

/-- The kinds, the preferred ones first. -/
def priorityOrder : List EdgeKind :=
  [sequential, recalls, createdWith, inMoment, parentOf, childOf, summaryChild, summarySource,
    supersedes, sameMoment, semanticHop, hasChannel]

/-- Lower is better. -/
def priority (kind : EdgeKind) : Nat := priorityOrder.idxOf kind

def ofText? (text : String) : Option EdgeKind := priorityOrder.find? fun kind => kind.text = text

end EdgeKind

def momentHubPrefix : String := "moment:"

def channelVirtualSuffixes : List String := [":text", ":image", ":audio", ":video", ":joint"]

def isMomentHubId (nodeId : String) : Bool := momentHubPrefix.toList.isPrefixOf nodeId.toList

def isChannelVirtualId (nodeId : String) : Bool :=
  channelVirtualSuffixes.any fun suffix => suffix.toList.isSuffixOf nodeId.toList

/-- Moment hubs and channel stubs are storage only. -/
def isVirtualGraphId (nodeId : String) : Bool := isMomentHubId nodeId || isChannelVirtualId nodeId

def momentHubId (momentId : String) : String :=
  let mid := stripText momentId
  if isMomentHubId mid then mid else momentHubPrefix ++ mid

/-- One edge from an atom; the weight is that of the expansion. -/
structure GraphEdge (Score : Type) where
  srcAtomId : String
  dstAtomId : String
  edgeKind : EdgeKind
  weight : Score
  reason : String
  deriving DecidableEq

/-- The reads of an edge store; they may raise. -/
structure EdgeReads where
  listEdgesFrom : String → Except PyErr (List DurableEdge)
  listEdgesTo : String → Option (List String) → Except PyErr (List DurableEdge)

/-- A warm embedder with an index. -/
structure SemanticReads (Score Vec : Type) where
  encodeText : String → Except PyErr (Option Vec)
  searchChannel : Except PyErr Channel
  search : Vec → Int → Channel → List String → Except PyErr (List (ScoredAtom Score))

structure GraphSettings where
  parcelChildCap : Int := 32
  sameMomentK : Int := 8
  semanticK : Int := 10
  neighborK : Int := 16
  deepSummaries : Bool := false
  allowSemantic : Bool := true
  expandChannels : Bool := false

/-- What a graph view reads. The weight of an edge depends on the clock, so a call weighs its edges
by number; `cosineOf` is `float(meta["cosine"])`, and `scoreText` shows two decimals. -/
structure GraphView (Score Vec : Type) where
  store : JsonlMemoryStore
  edgeStore : Option EdgeReads := none
  semantic : Option (SemanticReads Score Vec) := none
  cfg : GraphSettings := {}
  edgeWeight : Nat → EdgeKind → Atom → Option Score → Except PyErr Score
  passesMinWeight : Score → Bool
  cosineOf : Json → Option Score
  scoreText : Score → String

/-- An expansion; the state counts its readings of the clock. -/
abbrev Expand := Py Nat

def tick : Expand Nat := fun n => .ok n (n + 1)

/-- A deadline check; `late` answers the checks of a call in their order. -/
def overTime (late : Nat → Bool) : Expand Bool := do return late (← tick)

def lift {α : Type} (r : Except PyErr α) : Expand α := fun n =>
  match r with
  | .ok a => .ok a n
  | .error e => .error e n

/-- `walk_next`: the links from an atom, with the ids seen so far. -/
def walkFrom (s : JsonlMemoryStore) : Nat → Atom → List String → List Atom
  | 0, _, _ => []
  | n + 1, cur, seen =>
    match cur.nextAtomId with
    | none => []
    | some id =>
      if id = "" ∨ id ∈ seen then []
      else
        match s.byId.get? id with
        | none => []
        | some next => next :: walkFrom s n next (id :: seen)

def walkNext (s : JsonlMemoryStore) (atomId : String) (n : Nat) : List Atom :=
  match n, s.byId.get? atomId with
  | 0, _ => []
  | _, none => []
  | n + 1, some start => start :: walkFrom s n start [atomId]

section Projection

variable {Score Vec : Type} (g : GraphView Score Vec)

/-- An edge that weighs enough. -/
def weightEdge (kind : EdgeKind) (srcId : String) (dst : Atom) (cosine : Option Score)
    (reason : String) : Expand (Option (GraphEdge Score)) := do
  let n ← tick
  let w ← lift (g.edgeWeight n kind dst cosine)
  if g.passesMinWeight w then return some ⟨srcId, dst.atomId, kind, w, reason⟩ else return none

/-- The edge to an id that may be excluded or missing. -/
def edgeTo (exclude : List String) (kind : EdgeKind) (atom : Atom) (accepts : Atom → Bool)
    (cosine : Option Score) (reason : String) (dstId : String) :
    Expand (Option (GraphEdge Score)) :=
  if dstId = "" ∨ dstId ∈ exclude ∨ dstId = atom.atomId then return none
  else
    match g.store.byId.get? dstId with
    | none => return none
    | some dst =>
      if accepts dst then weightEdge g kind atom.atomId dst cosine reason else return none

variable (late : Nat → Bool) (exclude : List String)

def projectSequential (atom : Atom) : Expand (List (GraphEdge Score)) :=
  collect (fun _ => overTime late)
    (fun p : String × Option String =>
      edgeTo g exclude .sequential atom (fun _ => true) none ("sequential:" ++ p.1) (p.2.getD ""))
    [("next", atom.nextAtomId), ("prev", atom.prevAtomId)] []

def projectChildOf (atom : Atom) : Expand (List (GraphEdge Score)) := do
  let e ← edgeTo g exclude .childOf atom (fun _ => true) none "child_of:parent"
    (atom.parentAtomId.getD "")
  return e.toList

section Parcels

variable [PyCoerce]

def parcelChildCap : Nat := g.cfg.parcelChildCap.toNat

def childrenViaMoment (parent : Atom) : List Atom :=
  if missing parent.momentId then []
  else
    ((g.store.listByMoment (parent.momentId.getD "") none none).filter fun a =>
      a.parentAtomId = some parent.atomId ∧ a.atomId ≠ parent.atomId).take (parcelChildCap g)

/-- The chain from the first parcel; it is empty when the link is stale. -/
def parcelChain (parent : Atom) : List Atom :=
  match parent.metadata.get? "first_parcel_id" with
  | none => []
  | some first =>
    if truthy first then
      let cap := parcelChildCap g
      let count : Int := match parent.metadata.get? "parcel_count" with
        | none | some .null => cap
        | some v => (pyInt v).getD cap
      let n := min cap (if 0 < count then count.toNat else cap)
      (walkNext g.store (pyStr first) n).filter fun a => a.parentAtomId = some parent.atomId
    else []

/-- The chain, else the atoms of the moment that name the parent. -/
def resolveParentChildren (parent : Atom) : List Atom :=
  if parcelChildCap g = 0 then []
  else
    let chain := parcelChain g parent
    if chain ≠ [] then chain else childrenViaMoment g parent

def projectParentOf (atom : Atom) : Expand (List (GraphEdge Score)) :=
  collect (fun _ => overTime late)
    (fun child : Atom =>
      if child.atomId ∈ exclude ∨ child.atomId = atom.atomId then return none
      else weightEdge g .parentOf atom.atomId child none "parent_of:child")
    (resolveParentChildren g atom) []

end Parcels

section Summaries

variable [PyCoerce]

def metaIdList (metadata : Dict String Json) (key : String) : List String :=
  match metadata.get? key with
  | some (.arr items) =>
    items.filterMap fun item =>
      if item = .null ∨ stripText (pyStr item) = "" then none else some (stripText (pyStr item))
  | _ => []

def projectSummaryChild (atom : Atom) : Expand (List (GraphEdge Score)) :=
  if atom.kind ≠ "summary" ∨ !(atom.metadata.get? "from_children").any truthy then return []
  else
    collect (fun _ => overTime late)
      (edgeTo g exclude .summaryChild atom (fun dst => dst.kind = "summary") none "summary_child")
      (metaIdList atom.metadata "child_atom_ids") []

def summarySourceK : Nat := if g.cfg.deepSummaries then 24 else 8

def projectSummarySource (atom : Atom) : Expand (List (GraphEdge Score)) :=
  if atom.kind ≠ "summary" ∨ atom.scale ≠ some "1h" then return []
  else
    collect (fun _ => overTime late)
      (edgeTo g exclude .summarySource atom (fun _ => true) none "summary_source")
      ((metaIdList atom.metadata "source_atom_ids").take (summarySourceK g)) []

def supersededId (atom : Atom) : String :=
  let named := strOr (atom.metadata.get? "supersedes_atom_id") ""
  stripText (if named ≠ "" then named
    else strOr (atom.metadata.get? "previous_version_id") "")

def projectSupersedes (atom : Atom) : Expand (List (GraphEdge Score)) :=
  if atom.kind ≠ "summary" then return []
  else do
    let e ← edgeTo g exclude .supersedes atom (fun _ => true) none "supersedes" (supersededId atom)
    return e.toList

end Summaries

variable [LinearOrder Score]

/-- By weight, then by the id of the destination. -/
def peerKey (e : GraphEdge Score) : Scoreᵒᵈ ×ₗ String :=
  toLex (OrderDual.toDual e.weight, e.dstAtomId)

def projectSameMoment (atom : Atom) : Expand (List (GraphEdge Score)) :=
  if missing atom.momentId ∨ g.cfg.sameMomentK ≤ 0 then return []
  else do
    let candidates := (g.store.listByMoment (atom.momentId.getD "") none none).filter fun a =>
      a.atomId ≠ atom.atomId ∧ a.atomId ∉ exclude
    let scored ← collect (fun _ => overTime late)
      (fun peer => weightEdge g .sameMoment atom.atomId peer none "same_moment") candidates []
    return (sortBy peerKey scored).take g.cfg.sameMomentK.toNat

end Projection

section Durable

variable {Score Vec : Type} (g : GraphView Score Vec) (late : Nat → Bool) (exclude : List String)

/-- The first of each id. -/
def distinctIds (ids : List String) : List String :=
  ids.foldl (fun seen id => if id ∈ seen then seen else seen ++ [id]) []

/-- Ids of members: neither empty nor virtual. -/
def memberIds (ids : List String) : List String :=
  (ids.map stripText).filter fun id => id ≠ "" ∧ !isVirtualGraphId id

/-- The sources of the hub's inbound edges; a read that raises gives none. -/
def hubMembers (hub : String) : List String :=
  match g.edgeStore with
  | none => []
  | some edges =>
    match edges.listEdgesTo hub (some [EdgeKind.inMoment.text]) with
    | .error _ => []
    | .ok inbound => memberIds (inbound.map DurableEdge.srcAtomId)

/-- The moment of the argument, else that of the atom. -/
def momentOf (seedId momentId : Option String) : String :=
  let given := stripText (momentId.getD "")
  if given ≠ "" then given
  else
    match seedId with
    | none => ""
    | some id =>
      match g.store.byId.get? id with
      | none => ""
      | some seed => stripText (seed.momentId.getD "")

variable [LinearOrder Score]

/-- Moment members as edges to atoms; members come from the edge store, else from the moment. -/
def expandMoment (atomId momentId : Option String) (k : Option Int) :
    Expand (List (GraphEdge Score)) :=
  let seedId := (atomId.map stripText).filter (· ≠ "")
  let mid := momentOf g seedId momentId
  if mid = "" then return []
  else do
    let hub := momentHubId mid
    let fromHub := hubMembers g hub
    let members := distinctIds (if fromHub ≠ [] then fromHub
      else memberIds ((g.store.listByMoment mid none none).map Atom.atomId))
    let excluded := exclude ++ seedId.toList
    let peers := members.filter fun id => id ∉ excluded
    let cap := match k with
      | none => peers.length
      | some k => k.toNat
    let edges ← collect (fun n => return decide (cap ≤ n))
      (fun id => match g.store.byId.get? id with
        | none => return none
        | some dst => weightEdge g .inMoment (seedId.getD hub) dst none
            "in_moment:peer") peers []
    return sortBy peerKey edges

end Durable

section Neighbors

variable {Score Vec : Type} (g : GraphView Score Vec) (late : Nat → Bool) (exclude : List String)

def durableRealKinds : List EdgeKind := [.createdWith, .recalls]

/-- A durable edge seen from the atom; the weight that is stored does not count. -/
def durableEdge (wanted : List EdgeKind) (atom : Atom) (reverse : Bool) (de : DurableEdge) :
    Expand (Option (GraphEdge Score)) :=
  match EdgeKind.ofText? de.edgeKind with
  | none => return none
  | some kind =>
    if kind ∉ wanted ∨ kind ∉ durableRealKinds then return none
    else
      let peerId := stripText (if reverse then de.srcAtomId else de.dstAtomId)
      if isVirtualGraphId peerId then return none
      else
        let fallback := "durable:" ++ kind.text ++ if reverse then ":reverse" else ""
        edgeTo g exclude kind atom (fun _ => true) ((de.metadata.get? "cosine").bind g.cosineOf)
          (if de.reason ≠ "" then de.reason else fallback) peerId

/-- A read of the edge store that raises gives no edges. -/
def readEdges (r : Except PyErr (List DurableEdge)) : List DurableEdge :=
  match r with
  | .error _ => []
  | .ok edges => edges

/-- A part of the expansion that is made when it is wanted and the deadline has not passed. -/
def inTime {α : Type} (wanted : Bool) (part : Expand (List α)) : Expand (List α) :=
  if wanted then do
    if ← overTime late then return [] else part
  else return []

/-- The edge to a hit; a hit without its atom is looked up. -/
def hitEdge (atom : Atom) (hit : ScoredAtom Score) : Expand (Option (GraphEdge Score)) :=
  if hit.atomId = "" ∨ hit.atomId = atom.atomId ∨ hit.atomId ∈ exclude then return none
  else
    match hit.atom.or (g.store.byId.get? hit.atomId) with
    | none => return none
    | some dst => weightEdge g .semanticHop atom.atomId dst (some hit.score)
        ("cosine=" ++ g.scoreText hit.score ++ " via " ++ hit.channel.name)

/-- A call of the embedder or of the index; one that raises gives nothing. -/
def attemptRead {α : Type} (r : Except PyErr α) : Option α := r.toOption

/-- The hits of the index that are close to the atom's text. -/
def projectSemanticHop (atom : Atom) : Expand (List (GraphEdge Score)) :=
  match (if g.cfg.allowSemantic then g.semantic else none) with
  | none => return []
  | some semantic => do
    if ← overTime late then return []
    let seed := stripText atom.contentText
    if seed = "" then return []
    match attemptRead (semantic.encodeText seed) with
    | none | some none => return []
    | some (some vec) =>
      if ← overTime late then return []
      let channel ← lift semantic.searchChannel
      let k := g.cfg.semanticK
      if k ≤ 0 then return []
      match attemptRead (semantic.search vec (k + 1) channel (exclude ++ [atom.atomId])) with
      | none => return []
      | some hits =>
        let _ ← overTime late
        collect (fun n => if k.toNat ≤ n then return true else overTime late) (hitEdge g exclude atom)
          hits []

/-- The arguments of a call; `semanticDeadlineMs` is given in dual mode. -/
structure NeighborArgs where
  atomId : String
  kinds : Option (List String) := none
  k : Option Int := none
  excludeIds : List String := []
  allowSemantic : Bool := true
  semanticDeadlineMs : Option Int := none

/-- The requested kinds; by default all but `has_channel`. -/
def wantedKinds (a : NeighborArgs) : List EdgeKind :=
  match a.kinds with
  | none => EdgeKind.priorityOrder.filter fun kind =>
      kind ≠ .hasChannel ∨ g.cfg.expandChannels = true
  | some kinds => EdgeKind.priorityOrder.filter fun kind => kind.text ∈ kinds

/-- The semantic part: under its own deadline in dual mode, else under the shared one. -/
def semanticPart (a : NeighborArgs) (wanted : List EdgeKind) (atom : Atom) :
    Expand (List (GraphEdge Score)) :=
  if .semanticHop ∈ wanted ∧ a.allowSemantic then
    match a.semanticDeadlineMs with
    | some budget => if budget ≤ 0 then return [] else projectSemanticHop g late exclude atom
    | none => inTime late true (projectSemanticHop g late exclude atom)
  else return []

section Summaries

variable [PyCoerce]

/-- The fabric of a summary. The default expansion walks to an older version in deep mode only. -/
def summaryPart (a : NeighborArgs) (wanted : List EdgeKind) (atom : Atom) :
    Expand (List (GraphEdge Score)) :=
  if atom.kind ≠ "summary" then return []
  else do
    let children ← inTime late (.summaryChild ∈ wanted) (projectSummaryChild g late exclude atom)
    let sources ← inTime late (.summarySource ∈ wanted) (projectSummarySource g late exclude atom)
    let walks := g.cfg.deepSummaries || (a.kinds.getD []).contains EdgeKind.supersedes.text
    let older ← inTime late (.supersedes ∈ wanted)
      (if walks then projectSupersedes g exclude atom else return [])
    return children ++ sources ++ older

end Summaries

def edgeKey (e : GraphEdge Score) : String × EdgeKind := (e.dstAtomId, e.edgeKind)

def isMomentKind (e : GraphEdge Score) : Bool :=
  e.edgeKind = .sameMoment || e.edgeKind = .inMoment

variable [LinearOrder Score]

/-- The durable edges in both directions; hubs are rewritten to the atoms of the moment. -/
def projectDurable (wanted : List EdgeKind) (atom : Atom) : Expand (List (GraphEdge Score)) :=
  if .createdWith ∉ wanted ∧ .recalls ∉ wanted ∧ .inMoment ∉ wanted ∧ .hasChannel ∉ wanted then
    return []
  else do
    let peers ← inTime late (.inMoment ∈ wanted)
      (if !missing atom.momentId || g.edgeStore.isSome then
        expandMoment g exclude (some atom.atomId) atom.momentId none
      else return [])
    match g.edgeStore with
    | none => return peers
    | some edges =>
      let outgoing ← collect (fun _ => overTime late) (durableEdge g exclude wanted atom false)
        (readEdges (edges.listEdgesFrom atom.atomId)) []
      let incoming ← inTime late (.createdWith ∈ wanted ∨ .recalls ∈ wanted)
        (collect (fun _ => overTime late) (durableEdge g exclude wanted atom true)
          (readEdges (edges.listEdgesTo atom.atomId none)) [])
      return peers ++ outgoing ++ incoming

/-- Every edge of the atom, each from its own source. -/
def gatherEdges [PyCoerce] (a : NeighborArgs) (wanted : List EdgeKind) (atom : Atom) :
    Expand (List (GraphEdge Score)) := do
  let sequential ← inTime late (.sequential ∈ wanted) (projectSequential g late exclude atom)
  let parents ← inTime late (.childOf ∈ wanted) (projectChildOf g exclude atom)
  let children ← inTime late (.parentOf ∈ wanted) (projectParentOf g late exclude atom)
  let moment ← inTime late (.sameMoment ∈ wanted) (projectSameMoment g late exclude atom)
  let summaries ← summaryPart g late exclude a wanted atom
  let durable ← inTime late true (projectDurable g late exclude wanted atom)
  let _ ← overTime late
  let semantic ← semanticPart g late exclude a wanted atom
  return sequential ++ parents ++ children ++ moment ++ summaries ++ durable ++ semantic

/-- Weight, then kind priority, then the id of the destination. -/
def rankKey (e : GraphEdge Score) : Scoreᵒᵈ ×ₗ Nat ×ₗ String :=
  toLex (OrderDual.toDual e.weight, toLex (e.edgeKind.priority, e.dstAtomId))

/-- The moment edges seen so far: the winner of each destination, and the keys that lost. -/
structure MomentDuals (Score : Type) where
  winners : Dict String (GraphEdge Score) := .empty
  dropKeys : List (String × EdgeKind) := []

/-- The earlier edge stays when its kind has priority, or the same one and no less weight. -/
def MomentDuals.offer (d : MomentDuals Score) (e : GraphEdge Score) : MomentDuals Score :=
  if !isMomentKind e then d
  else
    match d.winners.get? e.dstAtomId with
    | none => { d with winners := d.winners.set e.dstAtomId e }
    | some prev =>
      if prev.edgeKind.priority < e.edgeKind.priority ∨
          prev.edgeKind.priority = e.edgeKind.priority ∧ e.weight ≤ prev.weight then
        ⟨d.winners.set e.dstAtomId prev, d.dropKeys ++ [edgeKey e]⟩
      else ⟨d.winners.set e.dstAtomId e, d.dropKeys ++ [edgeKey prev]⟩

instance : LawfulBEq (String × EdgeKind) := inferInstance

/-- Drop virtual destinations, keep the best edge of each destination and kind, and one moment edge
of each destination; the best `k`, in order. -/
def rankEdges (k : Nat) (edges : List (GraphEdge Score)) : List (GraphEdge Score) :=
  let real := edges.filter fun e => !isVirtualGraphId e.dstAtomId
  let best := (bestBy edgeKey (fun e prev => decide (prev.weight < e.weight)) real).values
  let duals := best.foldl MomentDuals.offer {}
  (sortBy rankKey (best.filter fun e => edgeKey e ∉ duals.dropKeys)).take k

/-- The edges of an atom, best first. -/
def neighbors [PyCoerce] (a : NeighborArgs) : Except PyErr (List (GraphEdge Score)) :=
  let k := a.k.getD (max 1 g.cfg.neighborK)
  match g.store.byId.get? a.atomId with
  | none => .ok []
  | some atom =>
    match gatherEdges g late (a.excludeIds ++ [a.atomId]) a (wantedKinds g a) atom 0 with
    | .error e _ => .error e
    | .ok edges _ => .ok (rankEdges k.toNat edges)

end Neighbors
end Elyra.Memory.Graph
