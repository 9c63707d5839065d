import Elyra.Memory.EdgeBudget
import Elyra.Memory.Windows

namespace Elyra.Memory

open Json EdgeIndex EdgeStore

/-- What retargeting reads of an atom. -/
structure AtomView where
  atomId : String
  tStart : String
  windowStart : String
  metadata : Dict String Json

/-- The reads of the atom store; either may raise. -/
structure AtomStore where
  getAtom : String → Except PyErr (Option AtomView)
  listSummaries : PeriodScale → Instant × Instant → Nat → Except PyErr (List AtomView)

/-- `(window_start, atom_id)`, the window start normalized where it parses. -/
def tipKey (tip : AtomView) : Except PyErr (String ×ₗ String) :=
  if tip.windowStart = "" then .ok (toLex ("", tip.atomId))
  else (isoOr tip.windowStart tip.windowStart).map (fun ws => toLex (ws, tip.atomId))

/-- The youngest tip: the first of the tips sorted by key, newest first. -/
def youngest (tips : List AtomView) : Except PyErr (Option AtomView) := do
  let keyed ← tips.mapM (fun tip => (tipKey tip).map (fun key => (key, tip)))
  return ((sortByDesc Prod.fst keyed).head?).map Prod.snd

/-- `target in meta[field]`, where the field is a list. -/
def metaLists (tip : AtomView) (field id : String) : Bool :=
  match tip.metadata.get? field with
  | some (.arr xs) => .str id ∈ xs
  | _ => false

/-- `except (TypeError, ValueError): return None`. -/
def orNone {α : Type} (r : Except PyErr α) : Except PyErr (Option α) :=
  match r with
  | .ok a => .ok (some a)
  | .error (.valueError _) | .error .typeError => .ok none
  | .error e => .error e

def windowOf (scale : PeriodScale) (text : String) : Except PyErr (Instant × Instant) := do
  windowBounds scale (← utcOf text)

def findTipIn (tips : List AtomView) (targetId : String) : Except PyErr (Option AtomView) :=
  match if targetId = "" then none
    else tips.find? (fun tip => metaLists tip "source_atom_ids" targetId) with
  | some tip => .ok (some tip)
  | none => youngest tips

/-- The youngest 1h ladder tip for a target; a failing listing counts as no tip. -/
def find1hTipForTarget (atoms : AtomStore) (target : AtomView) : Except PyErr (Option AtomView) :=
  if target.tStart = "" then .ok none
  else do
    match ← orNone (windowOf .h1 target.tStart) with
    | none => return none
    | some window =>
      match atoms.listSummaries .h1 window 8 with
      | .error _ | .ok [] => return none
      | .ok tips => findTipIn tips target.atomId

/-- The tip that lists the 1h tip as a child, with tips built from children on the way. -/
def preferredTip (tipId : String) : List AtomView → Option AtomView → Option AtomView
  | [], preferred => preferred
  | tip :: tips, preferred =>
    if metaLists tip "child_atom_ids" tipId then some tip
    else
      let fromChildren := ((tip.metadata.get? "from_children").map truthy).getD false
      preferredTip tipId tips (if fromChildren ∧ preferred.isNone then some tip else preferred)

/-- The tip of one coarser scale over an anchor; failures are skipped. -/
def coarserTip (atoms : AtomStore) (tipId : String) (anchor : Instant) (scale : PeriodScale) :
    Except PyErr (Option AtomView) :=
  match windowBounds scale anchor with
  | .error _ => .ok none
  | .ok window =>
    match atoms.listSummaries scale window 4 with
    | .error _ | .ok [] => .ok none
    | .ok tips =>
      match if tipId = "" then none else preferredTip tipId tips none with
      | some tip => .ok (some tip)
      | none => youngest tips

/-- Existing coarser tips over the window of a 1h tip, fine to coarse. -/
def listCoarserTipsFor1h (atoms : AtomStore) (tip : AtomView) : Except PyErr (List AtomView) :=
  let anchor := textOr tip.windowStart tip.tStart
  if anchor = "" then .ok []
  else do
    match ← orNone (utcOf anchor) with
    | none => return []
    | some t => return (← PeriodScale.coarser.mapM (coarserTip atoms tip.atomId t)).filterMap id

/-- Virtual hubs and channel stubs are not retargeted. -/
def isVirtual (targetId : String) : Bool :=
  "moment:".toList.isPrefixOf targetId.toList ||
    [":text", ":image", ":audio", ":video", ":joint"].any
      (fun suffix => suffix.toList.isSuffixOf targetId.toList)

/-- `list(prior or [])`. -/
def listOr : Option Json → Except PyErr (List Json)
  | none => .ok []
  | some (.arr xs) => .ok xs
  | some (.str s) => .ok (s.toList.map (fun c => .str (String.singleton c)))
  | some (.obj kvs) => .ok (kvs.map (fun kv => .str kv.1))
  | some v => if truthy v then .error .typeError else .ok []

def retargetMeta (dropped : DurableEdge) (verticalIds : List String) :
    Except PyErr (Dict String Json) := do
  let base : Dict String Json := Dict.empty.set "retarget_from" (.str dropped.dstAtomId)
  let withVertical := if verticalIds = [] then base
    else base.set "retarget_vertical" (.arr (verticalIds.map .str))
  match dropped.metadata.get? "retarget_from" with
  | some source =>
    if truthy source ∧ source ≠ .str dropped.dstAtomId then
      let chain ← listOr (dropped.metadata.get? "retarget_chain")
      return withVertical.set "retarget_chain" (.arr (chain ++ [source]))
    else return withVertical
  | none => return withVertical

/-- Where a dropped edge goes, and the meta of the edge that replaces it. -/
def retargetPlan (atoms : AtomStore) (cfg : EdgeSettings) (dropped : DurableEdge) :
    Except PyErr (Option (String × Dict String Json)) :=
  if dropped.edgeKind ≠ createdWith ∨ ¬cfg.edgeRetargetEnabled ∨ dropped.srcAtomId = "" ∨
      dropped.dstAtomId = "" ∨ isVirtual dropped.dstAtomId then .ok none
  else
    match atoms.getAtom dropped.dstAtomId with
    | .error _ | .ok none => .ok none
    | .ok (some target) => do
      match ← find1hTipForTarget atoms target with
      | none => return none
      | some tip =>
        if tip.atomId = "" ∨ tip.atomId = dropped.srcAtomId ∨ tip.atomId = dropped.dstAtomId then
          return none
        else
          let vertical ← if cfg.edgeRetargetEnsureVertical then listCoarserTipsFor1h atoms tip
            else .ok []
          let ids := (vertical.map AtomView.atomId).filter (· ≠ "")
          return some (tip.atomId, ← retargetMeta dropped ids)

/-- `base_weight("created_with")`, which is 0.72. -/
def createdWithWeight : FloatLit := .decimal false 0 7 [2] none

section Retarget

variable (stampAt : Nat → Stamp) {δ : Type} [EdgeDisk δ]

/-- The clock and the id of a new edge. -/
def nextStamp : Py (EdgeStore δ) Stamp := fun s =>
  .ok (stampAt s.stamps) { s with stamps := s.stamps + 1 }

/-- `try: put_edge(edge) except Exception: return None`. -/
def tryPut (edge : DurableEdge) : Py (EdgeStore δ) (Option DurableEdge) := fun s =>
  match putEdge stampAt edge s with
  | .ok stored t => .ok (some stored) t
  | .error _ t => .ok none t

def retargetCreatedWithEdge (atoms : AtomStore) (cfg : EdgeSettings) (dropped : DurableEdge) :
    Py (EdgeStore δ) (Option DurableEdge) := do
  match ← ofExcept (retargetPlan atoms cfg dropped) with
  | none => return none
  | some (tipId, metadata) =>
    let stamp ← nextStamp stampAt
    tryPut stampAt
      { edgeId := stamp.newEdgeId, srcAtomId := dropped.srcAtomId, dstAtomId := tipId
        edgeKind := createdWith, createdAt := stamp.nowIso, updatedAt := stamp.nowIso
        weight := some createdWithWeight, reason := "retarget_1h_tip", metadata := metadata }

/-- One retarget write; it may push the kind or the total over its cap again. -/
def retargetOne (atoms : AtomStore) (cfg : EdgeSettings) (dropped : DurableEdge) :
    Py (EdgeStore δ) (Option (DurableEdge × List DurableEdge)) := do
  match ← retargetCreatedWithEdge stampAt atoms cfg dropped with
  | none => return none
  | some edge => return some (edge, ← dropOverBudget edge.srcAtomId cfg)

structure RetargetRound where
  seenTargets : List (String × String)
  produced : List DurableEdge
  nextPending : List DurableEdge

/-- One round over the pending drops. -/
def retargetRound (atoms : AtomStore) (cfg : EdgeSettings) :
    List DurableEdge → RetargetRound → Py (EdgeStore δ) RetargetRound
  | [], r => pure r
  | edge :: edges, r =>
    if (edge.srcAtomId, edge.dstAtomId) ∈ r.seenTargets then retargetRound atoms cfg edges r
    else do
      let r := { r with seenTargets := (edge.srcAtomId, edge.dstAtomId) :: r.seenTargets }
      match ← retargetOne stampAt atoms cfg edge with
      | none => retargetRound atoms cfg edges r
      | some (new, overflow) =>
        retargetRound atoms cfg edges
          { r with
            produced := r.produced ++ [new]
            nextPending := r.nextPending ++ overflow.filter (fun e => e.edgeKind = createdWith) }

/-- Bounded rounds, so a cascade of drops cannot loop forever. -/
def retargetRounds (atoms : AtomStore) (cfg : EdgeSettings) :
    Nat → List DurableEdge → RetargetRound → Py (EdgeStore δ) (List DurableEdge)
  | 0, _, r => pure r.produced
  | rounds + 1, pending, r =>
    if pending = [] then pure r.produced
    else do
      let next ← retargetRound stampAt atoms cfg pending { r with nextPending := [] }
      retargetRounds atoms cfg rounds next.nextPending next

def retargetCreatedWithDrops (atoms : AtomStore) (cfg : EdgeSettings)
    (dropped : List DurableEdge) (maxRounds : Nat) : Py (EdgeStore δ) (List DurableEdge) :=
  retargetRounds stampAt atoms cfg (max 1 maxRounds)
    (dropped.filter (fun e => e.edgeKind = createdWith)) ⟨[], [], []⟩

def doRetarget (cfg : EdgeSettings) (retarget : Option Bool) : Bool :=
  retarget.getD cfg.edgeRetargetEnabled

/-- The drops of created_with edges are retargeted when an atom store is at hand. -/
def retargetDropped (cfg : EdgeSettings) (atoms : Option AtomStore) (retarget : Option Bool)
    (dropped : List DurableEdge) : Py (EdgeStore δ) Unit := do
  match atoms with
  | none => return ()
  | some atoms =>
    if doRetarget cfg retarget ∧ dropped ≠ [] then
      let _ ← retargetCreatedWithDrops stampAt atoms cfg dropped 8
      return ()
    else return ()

def enforceOutgoingBudgets (src : String) (cfg : EdgeSettings) (atoms : Option AtomStore)
    (retarget : Option Bool) : Py (EdgeStore δ) (List DurableEdge) := do
  let dropped ← dropOverBudget src cfg
  retargetDropped stampAt cfg atoms retarget dropped
  return dropped

def putEdgeWithBudget (edge : DurableEdge) (cfg : EdgeSettings) (atoms : Option AtomStore)
    (retarget : Option Bool) : Py (EdgeStore δ) (DurableEdge × List DurableEdge) := do
  let stored ← putEdge stampAt edge
  let dropped ← enforceOutgoingBudgets stampAt stored.srcAtomId cfg atoms retarget
  return (stored, dropped)

end Retarget
end Elyra.Memory
