import Elyra.Framework.Groups
import Elyra.Memory.EpisodicItems

namespace Elyra.Memory

/-- The settings that the selection reads; the horizon is the one of the caller, when it names one.
`timedelta(hours=h)` gives microseconds, and `int(cap * 0.7)` goes through a float. -/
structure EpisodicSettings where
  horizon : Except PyErr Int
  summaryShare : Int → Except PyErr Int
  ladderRecent1hMeal : Option Int := some 6
  maxPriorMoments : Int := 18

def EpisodicSettings.recent1hCount (cfg : EpisodicSettings) : Nat :=
  (cfg.ladderRecent1hMeal.getD 6).toNat

def summaryPackOrder : List PeriodScale := [.y1, .m1, .w1, .d1]

def legacySummaryFallbackOrder : List PeriodScale := [.h6, .m15]

def nonSummaryKinds : List String := ["observation", "speak", "tool", "model", "ledger"]

def rawExcludeKinds : List String := ["summary", "parcel", "moment_meta"]

def rawRangeLimit : Int := 500

/-- `datetime - timedelta`. -/
def before (t : Instant) (micros : Int) : Except PyErr Instant :=
  match Instant.ofMicros (t.val - micros) with
  | none => .error .overflowError
  | some u => .ok u

/-- The first atom of the window that starts at `target`. -/
def findTip (target : String) : List Atom → Except PyErr (Option Tip)
  | [] => .ok none
  | a :: rest =>
    if missing a.windowStart then findTip target rest
    else match h : isoOrEmpty a.windowStart with
      | .error e => .error e
      | .ok key => if key = target then .ok (some ⟨a, key, h⟩) else findTip target rest

section Reads

variable (s : JsonlMemoryStore) (now : Instant)

/-- The tip of exactly this window, if present. -/
def loadWindowSummary (scale : PeriodScale) (window : Instant × Instant) :
    Except PyErr (Option Tip) := do
  let hits ← s.listTips scale.text (some (isoZ window.1, isoZ window.2)) 20
  findTip (isoZ window.1) hits

/-- The tip of the window of an instant. -/
def currentTip (scale : PeriodScale) (t : Instant) : Except PyErr (Option Tip) := do
  loadWindowSummary s scale (← windowBounds scale t)

/-- The tip of the open hour, then those of the last closed hours, newest first. -/
def load1hRecentBand (recentCount : Nat) : Except PyErr (List Tip) := do
  let current ← windowBounds .h1 now
  let openTip ← loadWindowSummary s .h1 current
  let closed ← (List.range recentCount).mapM fun i => do
    currentTip s .h1 (← before current.1 ((i + 1) * 3600000000))
  return (openTip :: closed).filterMap id

/-- The legacy scales are read only when there is no 1h tip. -/
def legacyTips (band : List Tip) : Except PyErr (List (Option Tip)) :=
  if band = [] then legacySummaryFallbackOrder.mapM fun scale => currentTip s scale now
  else .ok []

/-- The summary candidates in pack order. -/
def summaryCandidates (recentCount : Nat) : Except PyErr (List Tip) := do
  let coarse ← summaryPackOrder.mapM fun scale => currentTip s scale now
  let band ← load1hRecentBand s now recentCount
  let legacy ← legacyTips s now band
  return coarse.filterMap id ++ band ++ legacy.filterMap id

/-- An atom of a prior moment: neither a summary nor of the open moment. -/
def rawEligible (openMomentId : Option String) (a : Atom) : Bool :=
  a.kind ∉ rawExcludeKinds && !missing a.momentId &&
    !(!missing openMomentId && decide (a.momentId = openMomentId))

/-- The raw rows of the horizon, each with its moment. -/
def rawRows (horizonStart : Instant) (openMomentId : Option String) :
    Except PyErr (List (String × Snapshot)) := do
  let rows ← s.listRange (isoZ horizonStart) (isoZ now) (some nonSummaryKinds) openMomentId
    (some rawRangeLimit)
  (rows.filter (rawEligible openMomentId)).mapM fun a =>
    return (a.momentId.getD "", ← Snapshot.ofAtom a)

end Reads

/-- What the selection reads before it packs. -/
structure EpisodicReads where
  summaryBudget : Int
  tips : List Tip
  raw : List (String × Snapshot)

def readEpisodic (s : JsonlMemoryStore) (now : Instant) (openMomentId : Option String) (cap : Int)
    (cfg : EpisodicSettings) : Except PyErr EpisodicReads := do
  let horizonStart ← before now (← cfg.horizon)
  let summaryBudget ← cfg.summaryShare cap
  let tips ← summaryCandidates s now cfg.recent1hCount
  let raw ← rawRows s now horizonStart openMomentId
  return ⟨summaryBudget, tips, raw⟩

/-- The items packed so far, the ids they show and the tokens counted. -/
structure Packed where
  items : List EpisodicItem := []
  seen : List String := []
  used : Int := 0

def Packed.add (p : Packed) (item : EpisodicItem) : Packed :=
  ⟨p.items ++ [item], p.seen ++ item.atomIds, p.used + item.tokenEstimate⟩

/-- Append one summary if the budget allows; the first one is taken in any case. -/
def tryPackSummary (summaryBudget cap : Int) (p : Packed) (tip : Tip) : Packed :=
  if tip.atom.atomId ∈ p.seen then p
  else if !tip.sourceOk then p
  else
    let item := EpisodicItem.summary tip
    if summaryBudget < p.used + item.tokenEstimate ∧ p.items ≠ [] then p
    else if cap < p.used + item.tokenEstimate ∧ p.items ≠ [] then p
    else p.add item

section Blocks

variable (cap : Int) (label : String)

/-- The first atom of a block pays for the label. -/
def lineCost (selected : List Snapshot) (a : Snapshot) : Int :=
  if selected = [] then estimateTokens (labelHeader label ++ "\n" ++ a.line)
  else estimateTokens (a.line ++ "\n")

/-- Greedy: an atom that does not fit is passed over. -/
def pickPreferred (seen : List String) : List Snapshot → List Snapshot → Int → List Snapshot
  | [], selected, _ => selected
  | a :: rest, selected, used =>
    if a.atomId ∈ seen then pickPreferred seen rest selected used
    else if cap < used + lineCost label selected a then pickPreferred seen rest selected used
    else pickPreferred seen rest (selected ++ [a]) (used + lineCost label selected a)

/-- In order: the first atom that does not fit ends the block. -/
def pickUntilFull : List Snapshot → List Snapshot → Int → List Snapshot
  | [], selected, _ => selected
  | a :: rest, selected, used =>
    if cap < used + lineCost label selected a then selected
    else pickUntilFull rest (selected ++ [a]) (used + lineCost label selected a)

/-- The block of one moment. -/
def packMoment (p : Packed) (momentId : String) (rows : List Snapshot) : Packed :=
  let label := priorMomentLabel momentId
  let atoms := sortBy Snapshot.chronoKey rows
  let preferred := sortBy Snapshot.preferKey atoms
  let selected := sortBy Snapshot.chronoKey (pickPreferred cap label p.seen preferred [] p.used)
  match rebuildPriorMomentItem momentId selected with
  | none => p
  | some item =>
    if cap < p.used + item.tokenEstimate ∧ 0 < p.used then
      match rebuildPriorMomentItem momentId (pickUntilFull cap label selected [] p.used) with
      | none => p
      | some part => p.add part
    else p.add item

end Blocks

/-- The text of the latest start. -/
def latestStart (rows : List Snapshot) : String :=
  rows.foldl (fun latest a => if latest < isoZ a.start then isoZ a.start else latest) ""

/-- The moments of the rows with their rows, most recent moments first. -/
def orderedMoments (maxPriorMoments : Int) (raw : List (String × Snapshot)) :
    List (String × List Snapshot) :=
  let byMoment := (groupRows (fun row => some row.1) raw).items.map fun g =>
    (g.1, g.2.map Prod.snd)
  (sortByDesc (fun g => latestStart g.2) byMoment).take maxPriorMoments.toNat

/-- The summary pass and the raw fill. -/
def packEpisodic (cap maxPriorMoments : Int) (reads : EpisodicReads) : Packed :=
  let p := reads.tips.foldl (tryPackSummary reads.summaryBudget cap) {}
  let raw := reads.raw.filter fun row => row.2.atomId ∉ p.seen
  (orderedMoments maxPriorMoments raw).foldl (fun p g => packMoment cap p g.1 g.2) p

/-- Deterministic selection of the broader episodic channel. -/
def selectEpisodic (s : JsonlMemoryStore) (now : Instant) (openMomentId : Option String)
    (episodicCapTokens : Int) (cfg : EpisodicSettings) :
    Except SelectError (List EpisodicItem) := do
  let cap := max 0 episodicCapTokens
  if cap ≤ 0 then return []
  let reads ← (readEpisodic s now openMomentId cap cfg).mapError .python
  let items := (packEpisodic cap cfg.maxPriorMoments reads).items
  if cap < totalTokens items then shrinkEpisodic cap now items else return items

end Elyra.Memory
