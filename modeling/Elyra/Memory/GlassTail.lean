import Elyra.Memory.MealTokens
import Elyra.Framework.Packing
import Elyra.Framework.Python
import Elyra.Framework.Text

namespace Elyra.Memory

/-- An item of a meal, with what its channel notes on it. -/
structure MealItem (μ : Type) where
  atomId : Option String
  channel : String
  label : String
  role : String
  content : String
  tokenEstimate : Int
  tStart : Option String
  metadata : μ
  deriving DecidableEq

def labelHeader (label : String) : String := "[context:" ++ label ++ "]"

/-- The estimate counts the label header. -/
def itemFromParts {μ : Type} (atomId : Option String) (channel label content : String)
    (tStart : Option String) (metadata : μ) (role : String) : MealItem μ :=
  let full := if content = "" then labelHeader label else labelHeader label ++ "\n" ++ content
  ⟨atomId, channel, label, role, content, estimateTokens full, tStart, metadata⟩

theorem estimateTokens_nonneg (text : String) : 0 ≤ estimateTokens text :=
  Int.ediv_nonneg (Int.natCast_nonneg _) (by decide)


abbrev GlassRow := Dict String Json

def glassTailChannel : String := "glass_tail"

def glassTailLabel : String := "glass-tail"

/-- A list of attachments that is not empty. -/
def hasAttachments (row : GlassRow) : Bool :=
  match row.get? "attachments" with
  | some (.arr (_ :: _)) => true
  | _ => false

section Rows

variable [PyCoerce]

def glassRowContent (row : GlassRow) : String := strOr (row.get? "content") ""

def glassRowEligible (row : GlassRow) : Bool :=
  (row.get? "role" = some (.str "user") || row.get? "role" = some (.str "assistant")) &&
    (glassRowContent row ≠ "" || hasAttachments row)

/-- Eligible and not excluded by its id. -/
def glassRowListed (exclude : List String) (row : GlassRow) : Bool :=
  glassRowEligible row &&
    match optStr (row.get? "id") with
    | none => true
    | some id => id ∉ exclude

def attachmentId : Json → Option String
  | .obj kvs =>
    match optStr ((Dict.ofList kvs).get? "id") with
    | some id => if strip id.toList ≠ [] then some id else none
    | none => none
  | .str s => if strip s.toList ≠ [] then some (String.ofList (strip s.toList)) else none
  | _ => none

def glassRowMediaIds (row : GlassRow) : List String :=
  match row.get? "attachments" with
  | some (.arr atts) => atts.filterMap attachmentId
  | _ => []

def glassTailMetaOf (row : GlassRow) : Dict String Json :=
  let noted : Dict String Json := .ofList [("source", .str "glass")]
  let noted := match optStr (row.get? "id") with
    | some id =>
      if id ≠ "" then (noted.set "wake_message_id" (.str id)).set "message_id" (.str id) else noted
    | none => noted
  let noted := match row.get? "attachments" with
    | some (.arr (att :: atts)) => noted.set "attachments" (.arr (att :: atts))
    | _ => noted
  if glassRowMediaIds row ≠ [] then
    noted.set "media_ids" (.arr ((glassRowMediaIds row).map .str))
  else noted

def glassTailItemFromRow (row : GlassRow) : MealItem (Dict String Json) :=
  let role := strOr (row.get? "role") "user"
  let tStart := match row.get? "created_at" with
    | some (.str ts) => some ts
    | _ => none
  itemFromParts none glassTailChannel glassTailLabel (glassRowContent row) tStart
    (glassTailMetaOf row) (if role = "user" ∨ role = "assistant" then role else "user")

def glassTailTokens (row : GlassRow) : Int := (glassTailItemFromRow row).tokenEstimate

/-- The cost of the floor set: the newest eligible rows. -/
def estimateGlassTailFloorTokens (glassRows : List GlassRow) (floorMessages maxMessages : Int)
    (exclude : List String) : Int :=
  let eligible := glassRows.filter (glassRowListed exclude)
  if eligible = [] ∨ floorMessages ≤ 0 then 0
  else
    let window := if 0 < maxMessages then lastN maxMessages.toNat eligible else eligible
    let floorRows := lastN (min floorMessages.toNat window.length) window
    (floorRows.map glassTailTokens).sum

/-- The loop of the pack, newest row first; whether it stopped at a floor row that does not fit. -/
def packTail (cap : Int) (targetFloor : Nat) : List GlassRow → List (MealItem (Dict String Json)) →
    Int → List (MealItem (Dict String Json)) × Bool
  | [], packed, _ => (packed, false)
  | row :: rest, packed, used =>
    let item := glassTailItemFromRow row
    if cap < used + item.tokenEstimate then
      if packed.length < targetFloor then (packed, true)
      else packTail cap targetFloor rest packed used
    else packTail cap targetFloor rest (packed ++ [item]) (used + item.tokenEstimate)

/-- The newest user text of the rows. -/
def lastGlassUserText (glassRows : List GlassRow) : Option String :=
  glassRows.reverse.findSome? fun row =>
    let body := strip (glassRowContent row).toList
    if strOr (row.get? "role") "" = "user" ∧ body ≠ [] then some (String.ofList body) else none

structure GlassTailMeta where
  packed : Nat
  available : Nat
  window : Nat
  capTokens : Int
  tokensUsed : Int
  floorMessages : Int
  floorApplied : Bool
  floorShortfall : Bool
  socialWake : Bool
  lastUserText : Option String
  floorStolenTokens : Option Int := none
  capTokensEffective : Option Int := none

def selectGlassTail (glassRows : List GlassRow) (capTokens floorMessages maxMessages : Int)
    (socialWake : Bool) (exclude : List String) :
    List (MealItem (Dict String Json)) × GlassTailMeta :=
  let cap := max 0 capTokens
  let maxN := max 0 maxMessages
  let floorN := if socialWake then max 0 floorMessages else 0
  let eligible := glassRows.filter (glassRowListed exclude)
  let window := if 0 < maxN then lastN maxN.toNat eligible else []
  let targetFloor := min floorN.toNat window.length
  let (newestFirst, stopped) := packTail cap targetFloor window.reverse [] 0
  let shortfall := stopped || decide (newestFirst.length < targetFloor)
  let items := newestFirst.reverse
  (items, {
    packed := items.length
    available := eligible.length
    window := window.length
    capTokens := cap
    tokensUsed := (items.map MealItem.tokenEstimate).sum
    floorMessages := floorN
    floorApplied := socialWake && decide (0 < targetFloor) && decide (targetFloor ≤ items.length) &&
      !shortfall
    floorShortfall := shortfall
    socialWake := socialWake
    lastUserText := lastGlassUserText (if window ≠ [] then window else eligible) })

end Rows

/-- The caps once the glass tail can pay for the floor, in the order semantic, directed_keep,
episodic, and the tokens taken. -/
def raiseGlassTailCapForFloor (floorCost : Int) (caps : Supports) : Supports × Int :=
  let need := max 0 (floorCost - caps.glassTail)
  if need ≤ 0 then (caps, 0)
  else
    let fromSemantic := min need caps.semantic
    let need := need - fromSemantic
    let fromKeep := min need caps.directedKeep
    let need := need - fromKeep
    let fromEpisodic := min need caps.episodic
    let stolen := fromSemantic + fromKeep + fromEpisodic
    (⟨caps.semantic - fromSemantic, caps.directedKeep - fromKeep, caps.episodic - fromEpisodic,
      caps.glassTail + stolen⟩, stolen)

structure GlassTailSettings where
  glassTailFloorMessages : Int := 6
  glassTailMaxMessages : Int := 20

namespace GlassTailSettings

/-- A setting of zero is the default. -/
def floorMessages (cfg : GlassTailSettings) : Int :=
  if cfg.glassTailFloorMessages = 0 then 6 else cfg.glassTailFloorMessages

def maxMessages (cfg : GlassTailSettings) : Int :=
  if cfg.glassTailMaxMessages = 0 then 20 else cfg.glassTailMaxMessages

end GlassTailSettings

/-- The glass tail of a meal: the caps of the channels after the raise, the items and their notes. -/
structure ComposedTail where
  caps : Supports
  items : List (MealItem (Dict String Json))
  noted : Option GlassTailMeta

/-- The part of `compose_meal` that raises the caps and selects the glass tail; `active` is the
argument `glass_tail_active`. -/
def composeGlassTail [PyCoerce] (cfg : GlassTailSettings) (glassRows : List GlassRow)
    (socialWake : Bool) (active : Option Bool) (caps : Supports) : ComposedTail :=
  if glassRows ≠ [] ∧ active.getD true then
    let (caps, stolen) :=
      if socialWake then
        raiseGlassTailCapForFloor
          (estimateGlassTailFloorTokens glassRows cfg.floorMessages cfg.maxMessages []) caps
      else (caps, 0)
    let (items, noted) := selectGlassTail glassRows caps.glassTail cfg.floorMessages cfg.maxMessages
      socialWake []
    ⟨caps, items, some (if stolen ≠ 0 then
      { noted with floorStolenTokens := some stolen, capTokensEffective := some caps.glassTail }
      else noted)⟩
  else ⟨caps, [], none⟩


section Raise

variable {floorCost : Int} {caps : Supports}

/-- The raise moves tokens between the channels, and pays for the floor where they can. -/
theorem raise_caps (h : caps.Nonneg) :
    (raiseGlassTailCapForFloor floorCost caps).1.total = caps.total ∧
      (raiseGlassTailCapForFloor floorCost caps).1.Nonneg ∧
      (floorCost ≤ caps.total → floorCost ≤ (raiseGlassTailCapForFloor floorCost caps).1.glassTail) := by
  obtain ⟨hsem, hkeep, hepi, htail⟩ := h
  unfold raiseGlassTailCapForFloor
  simp only
  split_ifs with hneed
  · refine ⟨rfl, ⟨hsem, hkeep, hepi, htail⟩, ?_⟩
    intro _
    show floorCost ≤ caps.glassTail
    omega
  · refine ⟨?_, ⟨?_, ?_, ?_, ?_⟩, ?_⟩ <;> simp only [Supports.total] <;> omega

end Raise

section Pack

variable [PyCoerce] {cap : Int} {target : Nat}

theorem glassTailTokens_nonneg (row : GlassRow) : 0 ≤ glassTailTokens row :=
  estimateTokens_nonneg _

/-- With the floor rows within the cap the loop does not stop early. -/
theorem packTail_packs {rows : List GlassRow} {packed : List (MealItem (Dict String Json))}
    {used : Int} (hfits : used + ((rows.take (target - packed.length)).map glassTailTokens).sum ≤ cap) :
    ∃ kept, packTail cap target rows packed used = (packed ++ kept.map glassTailItemFromRow, false) ∧
      Packs glassTailTokens cap used rows kept := by
  induction rows generalizing packed used with
  | nil => exact ⟨[], by simp [packTail], .nil⟩
  | cons row rest ih =>
    by_cases hover : cap < used + glassTailTokens row
    · have hfloor : ¬packed.length < target := by
        intro hunder
        obtain ⟨n, hn⟩ : ∃ n, target - packed.length = n + 1 :=
          ⟨target - packed.length - 1, by omega⟩
        rw [hn, List.take_succ_cons, List.map_cons, List.sum_cons] at hfits
        have hrest : 0 ≤ ((rest.take n).map glassTailTokens).sum := by
          apply List.sum_nonneg
          intro c hc
          obtain ⟨x, -, rfl⟩ := List.mem_map.mp hc
          exact glassTailTokens_nonneg x
        omega
      have hnone : target - packed.length = 0 := by omega
      rw [hnone] at hfits
      have hused : used ≤ cap := by simpa using hfits
      obtain ⟨kept, hrun, hpacks⟩ := @ih packed used (by rw [hnone]; simpa using hused)
      refine ⟨kept, ?_, .skip hover hpacks⟩
      rw [packTail]
      rw [if_pos (show cap < used + (glassTailItemFromRow row).tokenEstimate from hover),
        if_neg hfloor, hrun]
    · have hkeep : used + glassTailTokens row ≤ cap := not_lt.mp hover
      have hnext : used + glassTailTokens row + ((rest.take (target -
          (packed ++ [glassTailItemFromRow row]).length)).map glassTailTokens).sum ≤ cap := by
        rw [List.length_append, List.length_singleton]
        cases hn : target - packed.length with
        | zero =>
          have hnone : target - (packed.length + 1) = 0 := by omega
          rw [hnone]
          simpa using hkeep
        | succ n =>
          have hless : target - (packed.length + 1) = n := by omega
          rw [hn, List.take_succ_cons, List.map_cons, List.sum_cons] at hfits
          rw [hless]
          omega
      obtain ⟨kept, hrun, hpacks⟩ := ih hnext
      refine ⟨row :: kept, ?_, .keep hkeep hpacks⟩
      rw [packTail]
      rw [if_neg (show ¬cap < used + (glassTailItemFromRow row).tokenEstimate from hover)]
      refine hrun.trans ?_
      rw [List.map_cons, List.append_assoc]
      rfl

end Pack

section Floor

variable [PyCoerce] {rows : List GlassRow} {floor maxN : Int} {exclude : List String}

/-- The newest rows a glass tail may hold. -/
def newestRows (exclude : List String) (maxN : Int) (rows : List GlassRow) : List GlassRow :=
  lastN maxN.toNat (rows.filter (glassRowListed exclude))

/-- The cost of the floor is that of the rows the pack must hold. -/
theorem floorRows_cost : ((lastN floor.toNat (newestRows exclude maxN rows)).map
    glassTailTokens).sum ≤ estimateGlassTailFloorTokens rows floor maxN exclude := by
  unfold estimateGlassTailFloorTokens newestRows
  simp only
  generalize rows.filter (glassRowListed exclude) = eligible
  split_ifs with hnone hmax
  · obtain rfl | hfloor := hnone
    · simp [lastN]
    · rw [Int.toNat_of_nonpos hfloor, lastN_zero]
      rfl
  · rw [lastN_min]
  · have hempty : lastN floor.toNat ([] : List GlassRow) = [] := List.drop_nil
    rw [Int.toNat_of_nonpos (not_lt.mp hmax), lastN_zero, hempty]
    apply List.sum_nonneg
    intro c hc
    obtain ⟨x, -, rfl⟩ := List.mem_map.mp hc
    exact glassTailTokens_nonneg x

/-- What the floor promises of a glass tail under a cap. -/
structure TailHolds (exclude : List String) (floor maxN cap : Int) (rows : List GlassRow)
    (items : List (MealItem (Dict String Json))) (packed : List GlassRow) : Prop where
  items : items = packed.map glassTailItemFromRow
  floor : lastN floor.toNat (newestRows exclude maxN rows) <:+ packed
  order : packed.Sublist (newestRows exclude maxN rows)
  fits : (packed.map glassTailTokens).sum ≤ cap
  pressed : Packs glassTailTokens cap 0 (newestRows exclude maxN rows).reverse packed.reverse

theorem selectGlassTail_holds {cap : Int} (hcap : 0 ≤ cap)
    (hcost : estimateGlassTailFloorTokens rows floor maxN exclude ≤ cap) :
    ∃ packed, TailHolds exclude floor maxN cap rows
      (selectGlassTail rows cap floor maxN true exclude).1 packed := by
  have hwindow : (if 0 < max 0 maxN then
      lastN (max 0 maxN).toNat (rows.filter (glassRowListed exclude)) else []) =
      newestRows exclude maxN rows := by
    rw [newestRows]
    split_ifs with hmax
    · congr 1
      omega
    · have hzero : maxN.toNat = 0 := by omega
      rw [hzero, lastN_zero]
  have hrun : (selectGlassTail rows cap floor maxN true exclude).1 =
      (packTail cap (min (max 0 floor).toNat (newestRows exclude maxN rows).length)
        (newestRows exclude maxN rows).reverse [] 0).1.reverse := by
    unfold selectGlassTail
    simp only
    rw [hwindow, max_eq_right hcap]
    rfl
  have hfloor : (max 0 floor).toNat = floor.toNat := by omega
  rw [hfloor] at hrun
  have hcost' := le_trans floorRows_cost hcost
  generalize hnewest : newestRows exclude maxN rows = newest at hrun hcost'
  have hfits : 0 + ((newest.reverse.take (min floor.toNat newest.length - 0)).map
      glassTailTokens).sum ≤ cap := by
    rw [Nat.sub_zero, ← reverse_lastN, lastN_min, List.map_reverse, List.sum_reverse, zero_add]
    exact hcost'
  obtain ⟨kept, hpack, hpacks⟩ := @packTail_packs _ cap _ _ [] 0 hfits
  rw [hpack, List.nil_append] at hrun
  have hfront : newest.reverse.take floor.toNat <+: kept := by
    have hsplit : Packs glassTailTokens cap 0
        (newest.reverse.take floor.toNat ++ newest.reverse.drop floor.toNat) kept := by
      rw [List.take_append_drop]
      exact hpacks
    apply hsplit.front glassTailTokens_nonneg
    rw [← reverse_lastN, List.map_reverse, List.sum_reverse, zero_add]
    exact hcost'
  refine ⟨kept.reverse, ?_, ?_, ?_, ?_, ?_⟩
  · rw [hrun, List.map_reverse]
  · rw [hnewest, ← List.reverse_prefix, reverse_lastN, List.reverse_reverse]
    exact hfront
  · rw [hnewest]
    simpa using hpacks.sublist.reverse
  · have htotal := hpacks.total_le hcap
    rw [zero_add] at htotal
    rwa [List.map_reverse, List.sum_reverse]
  · rw [hnewest, List.reverse_reverse]
    exact hpacks

/-- On a social wake whose channels reach the cost of the floor, the raise keeps the caps' sum and
the tail holds the newest floor rows. -/
theorem glass_tail_floor_holds (cfg : GlassTailSettings) (rows : List GlassRow)
    (active : Option Bool) (hactive : active ≠ some false) (caps : Supports) (hcaps : caps.Nonneg)
    (hreach : estimateGlassTailFloorTokens rows cfg.floorMessages cfg.maxMessages [] ≤ caps.total) :
    let tail := composeGlassTail cfg rows true active caps
    tail.caps.total = caps.total ∧ tail.caps.Nonneg ∧
      ∃ packed, TailHolds [] cfg.floorMessages cfg.maxMessages tail.caps.glassTail rows tail.items
        packed := by
  intro tail
  by_cases hrows : rows = []
  · have htail : tail = ⟨caps, [], none⟩ := if_neg fun h => h.1 hrows
    have hnewest : newestRows [] cfg.maxMessages [] = [] := List.drop_nil
    have hfloor : lastN cfg.floorMessages.toNat ([] : List GlassRow) = [] := List.drop_nil
    rw [htail, hrows]
    refine ⟨rfl, hcaps, [], rfl, ?_, ?_, hcaps.tail, ?_⟩
    · simp only [hnewest, hfloor, List.nil_suffix]
    · rw [hnewest]
    · rw [hnewest]
      exact .nil
  · have hactive' : active.getD true = true := by
      cases active with
      | none => rfl
      | some b =>
        cases b with
        | true => rfl
        | false => exact absurd rfl hactive
    obtain ⟨htotal, hnonneg, hpaid⟩ := @raise_caps
      (estimateGlassTailFloorTokens rows cfg.floorMessages cfg.maxMessages []) caps hcaps
    have hcapsOf : tail.caps = (raiseGlassTailCapForFloor (estimateGlassTailFloorTokens rows
        cfg.floorMessages cfg.maxMessages []) caps).1 := by
      show (composeGlassTail cfg rows true active caps).caps = _
      unfold composeGlassTail
      rw [if_pos ⟨hrows, hactive'⟩]
      rfl
    have hitems : tail.items = (selectGlassTail rows tail.caps.glassTail cfg.floorMessages
        cfg.maxMessages true []).1 := by
      rw [hcapsOf]
      show (composeGlassTail cfg rows true active caps).items = _
      unfold composeGlassTail
      rw [if_pos ⟨hrows, hactive'⟩]
      rfl
    rw [← hcapsOf] at htotal hnonneg hpaid
    refine ⟨htotal, hnonneg, ?_⟩
    rw [hitems]
    exact selectGlassTail_holds hnonneg.tail (hpaid hreach)


end Floor

section Sample

attribute [local instance] basicCoerce

/-- A question and its answer, as glass keeps them. -/
def twoGlassRows : List GlassRow :=
  [.ofList [("id", .str "m1"), ("role", .str "user"), ("content", .str "What is the time?")],
    .ofList [("id", .str "m2"), ("role", .str "assistant"), ("content", .str "Five past ten.")]]

def thinCaps : Supports := ⟨20, 0, 10, 2⟩

theorem glass_tail_floor_holds_sample :
    let tail := composeGlassTail {} twoGlassRows true none thinCaps
    tail.caps.total = thinCaps.total ∧ tail.caps.Nonneg ∧
      ∃ packed, TailHolds [] ({} : GlassTailSettings).floorMessages
        ({} : GlassTailSettings).maxMessages tail.caps.glassTail twoGlassRows tail.items packed :=
  glass_tail_floor_holds {} twoGlassRows none (by decide) thinCaps
    ⟨by decide, by decide, by decide, by decide⟩ (by decide +kernel)

end Sample
end Elyra.Memory
