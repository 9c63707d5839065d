import Elyra.Memory.GlassTail
import Elyra.Memory.RangeQueries
import Mathlib.Data.List.MinMax

namespace Elyra.Memory

/-- Short id for labels. -/
def momentIdShort (momentId : String) : String :=
  let raw := momentId.toList
  let payload :=
    if "moment_".toList.isPrefixOf raw ∧ 11 < raw.length then raw.drop 7
    else if "m_".toList.isPrefixOf raw ∧ 6 < raw.length then raw.drop 2
    else raw
  if raw = [] then "?" else String.ofList (payload.take 8)

/-- A stored atom as a block of the meal keeps it; its start parses. -/
structure Snapshot where
  atomId : String
  kind : String
  tStart : String
  contentText : String
  metadata : Dict String Json
  start : Instant
  parsed : utcOf tStart = .ok start

namespace Snapshot

def ofAtom (a : Atom) : Except PyErr Snapshot :=
  match h : utcOf a.tStart with
  | .error e => .error e
  | .ok start => .ok ⟨a.atomId, a.kind, a.tStart, a.contentText, a.metadata, start, h⟩

def hhmm (a : Snapshot) : String := String.ofList ((clockText a.start.secondOfDay).take 5)

/-- One atom as a dialogue-ish line. -/
def line (a : Snapshot) : String := "[" ++ a.hhmm ++ "] (" ++ a.kind ++ ") " ++ a.contentText

/-- `(to_iso_z(a.t_start), a.atom_id)`. -/
def chronoKey (a : Snapshot) : String ×ₗ String := toLex (isoZ a.start, a.atomId)

def tier (a : Snapshot) : Nat :=
  if a.kind = "speak" then 0
  else if a.kind = "observation" then 1
  else if a.kind = "ledger" then 2
  else if a.kind = "tool" ∧ a.metadata.get? "ok" = some (.bool false) then 3
  else if a.kind = "tool" then 4
  else if a.kind = "model" then 5
  else 6

/-- Lower is better for fill priority within a moment batch. -/
def preferKey (a : Snapshot) : Nat ×ₗ String ×ₗ String := toLex (a.tier, a.chronoKey)

end Snapshot

/-- A tip of the ladder that was found by its window. -/
structure Tip where
  atom : Atom
  windowKey : String
  parsed : isoOrEmpty atom.windowStart = .ok windowKey

namespace Tip

/-- A tip that the old templates wrote, or one that names no source, stays out of the meal. -/
def sourceOk (tip : Tip) : Bool :=
  match tip.atom.metadata.get? "source" with
  | none | some .null | some (.str "") | some (.str "template") => false
  | some _ => true

def scale (tip : Tip) : String := if missing tip.atom.scale then "?" else tip.atom.scale.getD "?"

end Tip

/-- The `meta` of an episodic item; the ids and kinds of a block are those of its snapshots. -/
inductive EpisodicMeta where
  | summary (scale : String) (windowStart windowEnd : Option String) (version : Option Json)
  | priorMoment (momentId : String) (atomSnapshots : List Snapshot)

/-- An item of the episodic channel: the tip of a window, or the block of a prior moment, which is
not empty. -/
inductive EpisodicItem where
  | summary (tip : Tip)
  | priorMoment (momentId : String) (first : Snapshot) (rest : List Snapshot)

def priorMomentLabel (momentId : String) : String :=
  "episodic/prior-moment " ++ momentIdShort momentId

def blockText (atoms : List Snapshot) : String := "\n".intercalate (atoms.map Snapshot.line)

namespace EpisodicItem

def mealItem : EpisodicItem → MealItem EpisodicMeta
  | .summary tip =>
    itemFromParts tip.atom.atomId "episodic" ("episodic/summary " ++ tip.scale) tip.atom.contentText
      (if tip.atom.tStart = "" then tip.atom.windowStart else some tip.atom.tStart)
      (.summary tip.scale tip.atom.windowStart tip.atom.windowEnd
        (tip.atom.metadata.get? "version")) "user"
  | .priorMoment mid first rest =>
    itemFromParts none "episodic" (priorMomentLabel mid) (blockText (first :: rest))
      (some first.tStart) (.priorMoment mid (first :: rest)) "user"

def tokenEstimate (item : EpisodicItem) : Int := item.mealItem.tokenEstimate

/-- The atoms an item shows. -/
def atomIds : EpisodicItem → List String
  | .summary tip => [tip.atom.atomId]
  | .priorMoment _ first rest => (first :: rest).map Snapshot.atomId

def summaryScale : EpisodicItem → Option String
  | .summary tip => some tip.scale
  | .priorMoment .. => none

end EpisodicItem

def totalTokens (items : List EpisodicItem) : Int := (items.map EpisodicItem.tokenEstimate).sum

def allAtomIds (items : List EpisodicItem) : List String := items.flatMap EpisodicItem.atomIds

/-- The block of some atoms of a moment, if there are any. -/
def rebuildPriorMomentItem (momentId : String) (atoms : List Snapshot) : Option EpisodicItem :=
  match sortBy Snapshot.chronoKey atoms with
  | [] => none
  | first :: rest => some (.priorMoment momentId first rest)

/-- The atoms of a block are those it was built of. -/
theorem atomIds_rebuild {momentId : String} {atoms : List Snapshot} {item : EpisodicItem}
    (h : rebuildPriorMomentItem momentId atoms = some item) :
    item.atomIds.Perm (atoms.map Snapshot.atomId) := by
  have hperm := sortBy_perm Snapshot.chronoKey atoms
  rw [rebuildPriorMomentItem] at h
  cases hsorted : sortBy Snapshot.chronoKey atoms with
  | nil =>
    rw [hsorted] at h
    cases h
  | cons first rest =>
    rw [hsorted] at h hperm
    rw [← Option.some.inj h]
    exact hperm.map _


/-- What the selection raises; `noTokenEstimate` is the `AttributeError` of `token_estimate` on a
block that was set to `None`. -/
inductive SelectError where
  | python (err : PyErr)
  | noTokenEstimate
  deriving DecidableEq

def isToolOrModel (a : Snapshot) : Bool := a.kind = "tool" || a.kind = "model"

def isSpeakOrObs (a : Snapshot) : Bool := a.kind = "speak" || a.kind = "observation"

/-- The tool and model atoms of the blocks, with the index of their block, oldest first in it. -/
def droppable (items : List EpisodicItem) : List (Nat × String) :=
  (items.mapIdx fun idx item =>
    match item with
    | .summary _ => []
    | .priorMoment _ first rest =>
      ((sortBy Snapshot.chronoKey (first :: rest)).filter isToolOrModel).map fun a =>
        (idx, a.atomId)).flatten

/-- A block without one atom; `none` when no atom is left. -/
def withoutAtom (atomId : String) : EpisodicItem → Option EpisodicItem
  | .summary tip => some (.summary tip)
  | .priorMoment mid first rest =>
    rebuildPriorMomentItem mid ((first :: rest).filter fun a => a.atomId ≠ atomId)

/-- The items that are left in the working list. -/
abbrev Work := List (Option EpisodicItem)

/-- `sum(i.token_estimate for i in work)`. -/
def Work.total (work : Work) : Except SelectError Int :=
  match work.mapM id with
  | none => .error .noTokenEstimate
  | some items => .ok (totalTokens items)

/-- An atom leaves its block; a block that is empty then is set to `None`. -/
def Work.dropAtom (work : Work) (idx : Nat) (atomId : String) : Work :=
  work.modify idx fun item => item.bind (withoutAtom atomId)

/-- The loop over the droppable atoms. -/
def dropLoop (cap : Int) : List (Nat × String) → Work → Except SelectError Work
  | [], work => .ok work
  | (idx, atomId) :: rest, work => do
    if (← work.total) ≤ cap then return work
    dropLoop cap rest (work.dropAtom idx atomId)

/-- Drop tool and model atoms, oldest first, from prior-moment blocks. -/
def dropRawKinds (cap : Int) (items : List EpisodicItem) :
    Except SelectError (List EpisodicItem) := do
  let work ← dropLoop cap (droppable items) (items.map some)
  return work.filterMap id

def keepLast : Nat := 3

/-- The loop over the speak and observation atoms of one block. -/
def trimLoop (cap : Int) (idx : Nat) (dropIds : List String) :
    List Snapshot → Work → Except SelectError Work
  | [], work => .ok work
  | a :: rest, work => do
    if (← work.total) ≤ cap then return work
    if a.atomId ∉ dropIds then trimLoop cap idx dropIds rest work
    else
      let work := work.dropAtom idx a.atomId
      match work[idx]? with
      | some none => return work
      | _ => trimLoop cap idx dropIds rest work

/-- The loop over the blocks; `idx` is the place of the first of them. -/
def trimBlocks (cap : Int) : Nat → List EpisodicItem → Work → Except SelectError Work
  | _, [], work => .ok work
  | idx, item :: rest, work => do
    if (← work.total) ≤ cap then return work
    match item with
    | .summary _ => trimBlocks cap (idx + 1) rest work
    | .priorMoment _ first others =>
      let speakObs := sortBy Snapshot.chronoKey ((first :: others).filter isSpeakOrObs)
      if speakObs.length ≤ keepLast then trimBlocks cap (idx + 1) rest work
      else
        let dropIds := (speakObs.take (speakObs.length - keepLast)).map Snapshot.atomId
        trimBlocks cap (idx + 1) rest (← trimLoop cap idx dropIds speakObs work)

/-- Drop speak and observation atoms beyond the last three per prior moment. -/
def trimSpeakObsPerMoment (cap : Int) (items : List EpisodicItem) :
    Except SelectError (List EpisodicItem) := do
  if (← Work.total (items.map some)) ≤ cap then return items
  let work ← trimBlocks cap 0 items (items.map some)
  return work.filterMap id

/-- The first place with the least key among those that `p` picks. -/
def oldestPlace (p : EpisodicItem → Bool) (key : EpisodicItem → String)
    (items : List EpisodicItem) : Option Nat :=
  (List.argmin (fun q : EpisodicItem × Nat => key q.1)
    (items.zipIdx.filter fun q => p q.1)).map Prod.snd

/-- The items without the oldest one that `p` picks. -/
def dropOldest (p : EpisodicItem → Bool) (key : EpisodicItem → String)
    (items : List EpisodicItem) : List EpisodicItem :=
  match oldestPlace p key items with
  | none => items
  | some i => items.eraseIdx i

namespace EpisodicItem

/-- The window start of a tip; a prior moment has none. -/
def windowKey : EpisodicItem → String
  | .summary tip => tip.windowKey
  | .priorMoment .. => ""

def startText (item : EpisodicItem) : String := item.mealItem.tStart.getD ""

def isPriorMoment : EpisodicItem → Bool
  | .summary _ => false
  | .priorMoment .. => true

def isSummary (item : EpisodicItem) : Bool := !item.isPriorMoment

def is1h (item : EpisodicItem) : Bool := item.summaryScale = some "1h"

def isOpen1h (open1hStart : String) (item : EpisodicItem) : Bool :=
  item.is1h && decide (item.windowKey = open1hStart)

def isClosed1h (open1hStart : String) (item : EpisodicItem) : Bool :=
  item.is1h && !item.isOpen1h open1hStart

end EpisodicItem

theorem oldestPlace_some {p : EpisodicItem → Bool} {key : EpisodicItem → String}
    {items : List EpisodicItem} {i : Nat} (h : oldestPlace p key items = some i) :
    i < items.length := by
  obtain ⟨q, hq, rfl⟩ := Option.map_eq_some_iff.mp h
  have hmem := (List.mem_filter.mp (List.argmin_mem hq)).1
  exact (List.mem_zipIdx' hmem).1

theorem oldestPlace_none {p : EpisodicItem → Bool} {key : EpisodicItem → String}
    {items : List EpisodicItem} (h : oldestPlace p key items = none) : items.filter p = [] := by
  rw [oldestPlace, Option.map_eq_none_iff, List.argmin_eq_none, List.filter_eq_nil_iff] at h
  rw [List.filter_eq_nil_iff]
  intro item hitem
  obtain ⟨i, hi, rfl⟩ := List.getElem_of_mem hitem
  exact h (items[i], i) (List.mem_zipIdx_iff_getElem?.mpr (List.getElem?_eq_getElem hi))

theorem length_eraseIdx_lt {items : List EpisodicItem} {i : Nat} (h : i < items.length) :
    (items.eraseIdx i).length < items.length := by
  rw [List.length_eraseIdx_of_lt h]
  omega

theorem dropOldest_length {p : EpisodicItem → Bool} {key : EpisodicItem → String}
    {items : List EpisodicItem} (h : items.filter p ≠ []) :
    (dropOldest p key items).length < items.length := by
  rw [dropOldest]
  cases hplace : oldestPlace p key items with
  | none => exact absurd (oldestPlace_none hplace) h
  | some i => exact length_eraseIdx_lt (oldestPlace_some hplace)

/-- Drop the oldest closed hours one at a time; the last one stays. -/
def dropClosedHours (cap : Int) (open1hStart : String) (items : List EpisodicItem) :
    List EpisodicItem :=
  if totalTokens items ≤ cap then items
  else if _h : (items.filter (EpisodicItem.isClosed1h open1hStart)).length ≤ 1 then items
  else dropClosedHours cap open1hStart
    (dropOldest (EpisodicItem.isClosed1h open1hStart) EpisodicItem.windowKey items)
termination_by items.length
decreasing_by
  apply dropOldest_length
  intro hnil
  rw [hnil] at _h
  exact _h (Nat.zero_le _)

/-- Drop the tip of the open hour; `kept` are the items before the rest. -/
def dropOpenHour (cap : Int) (open1hStart : String) :
    List EpisodicItem → List EpisodicItem → List EpisodicItem
  | kept, [] => kept
  | kept, item :: rest =>
    if item.isOpen1h open1hStart then
      if totalTokens (kept ++ rest) ≤ cap then kept ++ rest
      else dropOpenHour cap open1hStart kept rest
    else dropOpenHour cap open1hStart (kept ++ [item]) rest

/-- Drop one scale after the other until the items fit. -/
def dropScales (cap : Int) (scales : List String) (items : List EpisodicItem) :
    List EpisodicItem :=
  scales.foldl (fun items scale =>
    if totalTokens items ≤ cap then items
    else items.filter fun item => item.summaryScale ≠ some scale) items

/-- Drop the oldest prior moments, then the oldest summaries, until the items fit. -/
def dropLeftovers (cap : Int) (items : List EpisodicItem) : List EpisodicItem :=
  if totalTokens items ≤ cap then items
  else
    match _h : oldestPlace EpisodicItem.isPriorMoment EpisodicItem.startText items with
    | some i => dropLeftovers cap (items.eraseIdx i)
    | none =>
      match _h' : oldestPlace EpisodicItem.isSummary EpisodicItem.windowKey items with
      | some i => dropLeftovers cap (items.eraseIdx i)
      | none => items
termination_by items.length
decreasing_by
  · exact length_eraseIdx_lt (oldestPlace_some _h)
  · exact length_eraseIdx_lt (oldestPlace_some _h')

def coarserSummaryDropOrder : List String := ["1w", "1m", "1y"]

/-- The summaries that give way, in order, then the blocks. -/
def dropSummaries (cap : Int) (open1hStart : String) (items : List EpisodicItem) :
    List EpisodicItem :=
  let items := dropClosedHours cap open1hStart items
  let items := if totalTokens items ≤ cap then items
    else dropOldest (EpisodicItem.isClosed1h open1hStart) EpisodicItem.windowKey items
  let items := if totalTokens items ≤ cap then items else dropOpenHour cap open1hStart [] items
  let items := dropScales cap ["15m", "6h"] items
  let items := dropScales cap coarserSummaryDropOrder items
  let items := dropScales cap ["1d"] items
  let items := dropScales cap ["1h", "1y", "1m", "1w", "1d", "6h", "15m"] items
  dropLeftovers cap items

/-- Shrink the items until they fit under the cap. -/
def shrinkEpisodic (cap : Int) (now : Instant) (items : List EpisodicItem) :
    Except SelectError (List EpisodicItem) := do
  let open1h ← (windowBounds .h1 now).mapError SelectError.python
  let items ← dropRawKinds cap items
  if totalTokens items ≤ cap then return items
  let items ← trimSpeakObsPerMoment cap items
  if totalTokens items ≤ cap then return items
  return dropSummaries cap (isoZ open1h.1) items

end Elyra.Memory
