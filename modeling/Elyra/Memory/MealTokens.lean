import Mathlib.Data.Rat.Floor

namespace Elyra.Memory

/-- Rough token estimate. -/
def estimateTokens (text : String) : Int := text.length / 4

def clamp01 (value : Rat) : Rat := max 0 (min 1 value)

/-- `int(remaining * fraction)` with the fraction clamped. -/
def shareOf (remaining : Int) (fraction : Rat) : Int := ⌊(remaining : Rat) * clamp01 fraction⌋

/-- The arguments of the splits; a version reads those of its own channels. -/
structure SplitArgs where
  budgetTokens : Int
  systemText : String := ""
  orientText : String := ""
  semanticEnabled : Bool := false
  directedKeepActive : Bool := false
  glassTailActive : Bool := false
  glassTailFraction : Rat := 10 / 100
  semanticFraction : Rat := 12 / 100
  directedKeepFraction : Rat := 8 / 100
  episodicFraction : Rat := 24 / 100
  episodicFractionWithSemantic : Rat := 22 / 100
  temporalMinFraction : Rat := 55 / 100

/-- The channels that give way to the temporal one; a version without a channel has it at zero. -/
@[ext] structure Supports where
  semantic : Int := 0
  directedKeep : Int := 0
  episodic : Int := 0
  glassTail : Int := 0
  deriving DecidableEq

@[ext] structure MealSplit extends Supports where
  fixed : Int
  temporal : Int
  deriving DecidableEq

namespace Supports

def total (s : Supports) : Int := s.semantic + s.directedKeep + s.episodic + s.glassTail

/-- Take a deficit from the channels in the order semantic, directed_keep, episodic, glass_tail. -/
def cut (deficit : Int) (s : Supports) : Supports :=
  let fromSemantic := min deficit s.semantic
  let deficit := deficit - fromSemantic
  let fromKeep := min deficit s.directedKeep
  let deficit := deficit - fromKeep
  let fromEpisodic := min deficit s.episodic
  let deficit := deficit - fromEpisodic
  let fromTail := min deficit s.glassTail
  ⟨s.semantic - fromSemantic, s.directedKeep - fromKeep, s.episodic - fromEpisodic,
    s.glassTail - fromTail⟩

/-- The supports once the temporal channel has its floor. -/
def clampTo (remaining floor : Int) (s : Supports) : Supports :=
  if remaining - s.total < floor then
    let cut := s.cut (floor - (remaining - s.total))
    -- the floor is out of reach: all to temporal
    if remaining - cut.total < floor then {} else cut
  else s

end Supports

namespace SplitArgs

def fixedTokens (args : SplitArgs) : Int :=
  estimateTokens args.systemText + estimateTokens args.orientText

def remaining (args : SplitArgs) : Int := max 0 (args.budgetTokens - args.fixedTokens)

def temporalFloor (args : SplitArgs) : Int := shareOf args.remaining args.temporalMinFraction

/-- The split that leaves the rest to the temporal channel. -/
def split (args : SplitArgs) (s : Supports) : MealSplit :=
  { s with fixed := args.fixedTokens, temporal := args.remaining - s.total }

def semanticSoft (args : SplitArgs) : Int :=
  if args.semanticEnabled then shareOf args.remaining args.semanticFraction else 0

def episodicSoft (args : SplitArgs) : Int :=
  shareOf args.remaining (if args.semanticEnabled then args.episodicFractionWithSemantic
    else args.episodicFraction)

def keepSoft (args : SplitArgs) : Int :=
  if args.directedKeepActive then shareOf args.remaining args.directedKeepFraction else 0

def tailSoft (args : SplitArgs) : Int :=
  if args.glassTailActive then shareOf args.remaining args.glassTailFraction else 0

end SplitArgs

/-- Phase 1: the residual goes to the episodic and the temporal channel. -/
def splitMemoryBudget (args : SplitArgs) : MealSplit :=
  args.split { episodic := shareOf args.remaining args.episodicFraction }

def splitMemoryBudgetV2 (args : SplitArgs) : MealSplit :=
  if !args.semanticEnabled || decide (args.remaining = 0) then splitMemoryBudget args
  else
    let soft : Supports :=
      { semantic := shareOf args.remaining args.semanticFraction
        episodic := shareOf args.remaining args.episodicFractionWithSemantic }
    args.split (soft.clampTo args.remaining args.temporalFloor)

def splitMemoryBudgetV3 (args : SplitArgs) : MealSplit :=
  if !args.directedKeepActive then splitMemoryBudgetV2 args
  else if args.remaining = 0 then args.split {}
  else
    let soft : Supports :=
      { semantic := args.semanticSoft
        directedKeep := shareOf args.remaining args.directedKeepFraction
        episodic := args.episodicSoft }
    args.split (soft.clampTo args.remaining args.temporalFloor)

def splitMemoryBudgetV4 (args : SplitArgs) : MealSplit :=
  if !args.glassTailActive then splitMemoryBudgetV3 args
  else if args.remaining = 0 then args.split {}
  else
    let soft : Supports :=
      { semantic := args.semanticSoft
        directedKeep := args.keepSoft
        episodic := args.episodicSoft
        glassTail := shareOf args.remaining args.glassTailFraction }
    args.split (soft.clampTo args.remaining args.temporalFloor)

/-- No channel below its soft allocation while an earlier one has tokens left. -/
structure CutInOrder (soft s : Supports) : Prop where
  keep : s.directedKeep < soft.directedKeep → s.semantic = 0
  episodic : s.episodic < soft.episodic → s.semantic = 0 ∧ s.directedKeep = 0
  tail : s.glassTail < soft.glassTail → s.semantic = 0 ∧ s.directedKeep = 0 ∧ s.episodic = 0

/-- What a split of the residual promises when the channels of `active` are in use. -/
structure SplitOk (args : SplitArgs) (active : Bool) (soft : Supports) (s : MealSplit) : Prop where
  fixed : s.fixed = args.fixedTokens
  nonneg : 0 ≤ s.semantic ∧ 0 ≤ s.directedKeep ∧ 0 ≤ s.episodic ∧ 0 ≤ s.glassTail ∧ 0 ≤ s.temporal
  exact : s.semantic + s.directedKeep + s.episodic + s.glassTail + s.temporal = args.remaining
  floor : active → args.temporalFloor ≤ s.temporal
  order : CutInOrder soft s.toSupports

section Shares

variable {remaining : Int} (fraction : Rat)

theorem clamp01_nonneg : 0 ≤ clamp01 fraction := le_max_left _ _

theorem clamp01_le_one : clamp01 fraction ≤ 1 := max_le zero_le_one (min_le_left _ _)

theorem shareOf_nonneg (h : 0 ≤ remaining) : 0 ≤ shareOf remaining fraction := by
  rw [shareOf, Int.floor_nonneg]
  exact mul_nonneg (Int.cast_nonneg h) (clamp01_nonneg fraction)

theorem shareOf_le (h : 0 ≤ remaining) : shareOf remaining fraction ≤ remaining := by
  have hcast : (0 : Rat) ≤ remaining := Int.cast_nonneg h
  have hle : (remaining : Rat) * clamp01 fraction ≤ remaining :=
    mul_le_of_le_one_right hcast (clamp01_le_one fraction)
  calc
    shareOf remaining fraction ≤ ⌊(remaining : Rat)⌋ := Int.floor_le_floor hle
    _ = remaining := Int.floor_intCast remaining

theorem shareOf_zero : shareOf 0 fraction = 0 := by
  rw [shareOf, Int.cast_zero, zero_mul, Int.floor_zero]

end Shares

namespace Supports

variable {s : Supports} {deficit remaining floor : Int}

structure Nonneg (s : Supports) : Prop where
  semantic : 0 ≤ s.semantic
  keep : 0 ≤ s.directedKeep
  episodic : 0 ≤ s.episodic
  tail : 0 ≤ s.glassTail

theorem cutInOrder_self (s : Supports) : CutInOrder s s where
  keep := fun h => absurd h (lt_irrefl _)
  episodic := fun h => absurd h (lt_irrefl _)
  tail := fun h => absurd h (lt_irrefl _)

/-- A cut takes the whole deficit, in order, when the channels have it. -/
theorem cut_spec (h : s.Nonneg) (hroom : deficit ≤ s.total) :
    (s.cut deficit).Nonneg ∧ (s.cut deficit).total = s.total - deficit ∧
      CutInOrder s (s.cut deficit) := by
  obtain ⟨hsemantic, hkeep, hepisodic, htail⟩ := h
  rw [total] at hroom
  have hnonneg : (s.cut deficit).Nonneg := by
    unfold cut
    exact ⟨by dsimp only; omega, by dsimp only; omega, by dsimp only; omega, by dsimp only; omega⟩
  have htotal : (s.cut deficit).total = s.total - deficit := by
    unfold cut total
    dsimp only
    omega
  refine ⟨hnonneg, htotal, ?_⟩
  unfold cut
  constructor
  · dsimp only
    omega
  · dsimp only
    omega
  · dsimp only
    omega

/-- With a floor within the residual, the clamp always reaches it. -/
theorem clampTo_spec (h : s.Nonneg) (hfloor : floor ≤ remaining) :
    (s.clampTo remaining floor).Nonneg ∧ floor ≤ remaining - (s.clampTo remaining floor).total ∧
      CutInOrder s (s.clampTo remaining floor) := by
  rw [clampTo]
  by_cases hlow : remaining - s.total < floor
  · have hpos : 0 ≤ floor - (remaining - s.total) := by omega
    have hroom : floor - (remaining - s.total) ≤ s.total := by omega
    obtain ⟨hnonneg, htotal, horder⟩ := cut_spec h hroom
    have hreached : ¬remaining - (s.cut (floor - (remaining - s.total))).total < floor := by omega
    rw [if_pos hlow]
    dsimp only
    rw [if_neg hreached]
    exact ⟨hnonneg, Int.not_lt.mp hreached, horder⟩
  · rw [if_neg hlow]
    exact ⟨h, Int.not_lt.mp hlow, cutInOrder_self s⟩

end Supports

namespace SplitArgs

variable (args : SplitArgs)

theorem remaining_nonneg : 0 ≤ args.remaining := le_max_left _ _

theorem temporalFloor_nonneg : 0 ≤ args.temporalFloor := shareOf_nonneg _ args.remaining_nonneg

theorem temporalFloor_le : args.temporalFloor ≤ args.remaining :=
  shareOf_le _ args.remaining_nonneg

theorem semanticSoft_nonneg : 0 ≤ args.semanticSoft := by
  rw [semanticSoft]
  split_ifs
  · exact shareOf_nonneg _ args.remaining_nonneg
  · exact le_rfl

theorem keepSoft_nonneg : 0 ≤ args.keepSoft := by
  rw [keepSoft]
  split_ifs
  · exact shareOf_nonneg _ args.remaining_nonneg
  · exact le_rfl

theorem tailSoft_nonneg : 0 ≤ args.tailSoft := by
  rw [tailSoft]
  split_ifs
  · exact shareOf_nonneg _ args.remaining_nonneg
  · exact le_rfl

theorem episodicSoft_nonneg : 0 ≤ args.episodicSoft := shareOf_nonneg _ args.remaining_nonneg

/-- The soft allocations of the versions. -/
def softV2 : Supports := { semantic := args.semanticSoft, episodic := args.episodicSoft }

def softV3 : Supports := { args.softV2 with directedKeep := args.keepSoft }

def softV4 : Supports := { args.softV3 with glassTail := args.tailSoft }

theorem softV4_nonneg : args.softV4.Nonneg :=
  ⟨args.semanticSoft_nonneg, args.keepSoft_nonneg, args.episodicSoft_nonneg, args.tailSoft_nonneg⟩

variable {args} {soft : Supports} {active : Bool}

/-- A clamped split keeps the promise. -/
theorem split_clampTo (h : soft.Nonneg) :
    SplitOk args active soft (args.split (soft.clampTo args.remaining args.temporalFloor)) := by
  obtain ⟨hnonneg, hfloor, horder⟩ := Supports.clampTo_spec h args.temporalFloor_le
  have htemporal := args.temporalFloor_nonneg.trans hfloor
  refine ⟨rfl, ⟨hnonneg.semantic, hnonneg.keep, hnonneg.episodic, hnonneg.tail, htemporal⟩, ?_,
    fun _ => hfloor, horder⟩
  show (soft.clampTo args.remaining args.temporalFloor).total + (args.remaining - _) = _
  exact add_sub_cancel _ _

theorem split_zero (h : args.remaining = 0) (hsoft : soft = {}) :
    SplitOk args active soft (args.split {}) := by
  have hfloor := args.temporalFloor_le
  rw [h] at hfloor
  refine ⟨rfl, ⟨le_rfl, le_rfl, le_rfl, le_rfl, ?_⟩, ?_, fun _ => ?_, ?_⟩
  · show 0 ≤ args.remaining - 0
    rw [h]
    exact le_rfl
  · show 0 + 0 + 0 + 0 + (args.remaining - 0) = args.remaining
    omega
  · show args.temporalFloor ≤ args.remaining - 0
    rw [h]
    exact hfloor
  · rw [hsoft]
    exact Supports.cutInOrder_self _

theorem softV4_zero (h : args.remaining = 0) : args.softV4 = {} := by
  have hkeep : args.keepSoft = 0 := by
    rw [keepSoft, h]
    split_ifs
    · exact shareOf_zero _
    · rfl
  have hsemantic : args.semanticSoft = 0 := by
    rw [semanticSoft, h]
    split_ifs
    · exact shareOf_zero _
    · rfl
  have htail : args.tailSoft = 0 := by
    rw [tailSoft, h]
    split_ifs
    · exact shareOf_zero _
    · rfl
  have hepisodic : args.episodicSoft = 0 := by rw [episodicSoft, h, shareOf_zero]
  exact Supports.ext hsemantic hkeep hepisodic htail

end SplitArgs

variable (args : SplitArgs)

/-- Without the semantic channel nothing is active: the Phase 1 split. -/
theorem splitMemoryBudget_ok (h : args.semanticEnabled = false ∨ args.remaining = 0) :
    SplitOk args args.semanticEnabled args.softV2 (splitMemoryBudget args) := by
  have hpos := args.remaining_nonneg
  have hshare := shareOf_nonneg args.episodicFraction hpos
  have hle := shareOf_le args.episodicFraction hpos
  have hsemantic : args.semanticSoft = 0 := by
    rw [SplitArgs.semanticSoft]
    obtain hoff | hzero := h
    · rw [hoff]
      rfl
    · rw [hzero, shareOf_zero, ite_self]
  have hepisodic : args.episodicSoft = shareOf args.remaining args.episodicFraction := by
    rw [SplitArgs.episodicSoft]
    obtain hoff | hzero := h
    · rw [hoff]
      rfl
    · rw [hzero, shareOf_zero, shareOf_zero]
  have htotal : ({ episodic := shareOf args.remaining args.episodicFraction } : Supports).total =
      shareOf args.remaining args.episodicFraction := by
    show 0 + 0 + shareOf args.remaining args.episodicFraction + 0 = _
    omega
  have hsoft : args.softV2 = { episodic := shareOf args.remaining args.episodicFraction } :=
    Supports.ext hsemantic rfl hepisodic rfl
  rw [splitMemoryBudget, SplitArgs.split, htotal, hsoft]
  refine ⟨rfl, ⟨le_rfl, le_rfl, hshare, le_rfl, Int.sub_nonneg_of_le hle⟩, ?_, ?_,
    Supports.cutInOrder_self _⟩
  · show 0 + 0 + shareOf args.remaining args.episodicFraction + 0 +
      (args.remaining - shareOf args.remaining args.episodicFraction) = args.remaining
    omega
  · intro hactive
    obtain hoff | hzero := h
    · rw [hoff] at hactive
      cases hactive
    · have hfloor := args.temporalFloor_le
      dsimp only
      rw [hzero] at hle hfloor ⊢
      omega

theorem splitMemoryBudgetV2_ok :
    SplitOk args args.semanticEnabled args.softV2 (splitMemoryBudgetV2 args) := by
  rw [splitMemoryBudgetV2]
  split_ifs with h
  · apply splitMemoryBudget_ok
    rw [Bool.or_eq_true, Bool.not_eq_true', decide_eq_true_iff] at h
    exact h
  · rw [Bool.or_eq_true, Bool.not_eq_true', decide_eq_true_iff, not_or,
      Bool.not_eq_false] at h
    have hsoft : args.softV2 = { semantic := shareOf args.remaining args.semanticFraction
                                 episodic := shareOf args.remaining args.episodicFractionWithSemantic } := by
      rw [SplitArgs.softV2, SplitArgs.semanticSoft, SplitArgs.episodicSoft, h.1]
      rfl
    have hnonneg : args.softV2.Nonneg :=
      ⟨args.semanticSoft_nonneg, le_rfl, args.episodicSoft_nonneg, le_rfl⟩
    rw [hsoft] at hnonneg ⊢
    exact SplitArgs.split_clampTo hnonneg

theorem splitMemoryBudgetV3_ok :
    SplitOk args (args.semanticEnabled || args.directedKeepActive) args.softV3
      (splitMemoryBudgetV3 args) := by
  have hsame : args.softV3 = { args.softV4 with glassTail := 0 } := rfl
  rw [splitMemoryBudgetV3]
  by_cases hkeep : args.directedKeepActive = true
  · have hnot : ¬(!args.directedKeepActive) = true := by rw [hkeep]; decide
    have hsoft : args.softV3 = { semantic := args.semanticSoft
                                 directedKeep := shareOf args.remaining args.directedKeepFraction
                                 episodic := args.episodicSoft } := by
      rw [SplitArgs.softV3, SplitArgs.softV2, SplitArgs.keepSoft, if_pos hkeep]
    rw [if_neg hnot]
    split_ifs with hzero
    · apply SplitArgs.split_zero hzero
      rw [hsame, SplitArgs.softV4_zero hzero]
    · have hnonneg : args.softV3.Nonneg :=
        ⟨args.semanticSoft_nonneg, args.keepSoft_nonneg, args.episodicSoft_nonneg, le_rfl⟩
      rw [hsoft] at hnonneg ⊢
      exact SplitArgs.split_clampTo hnonneg
  · rw [Bool.not_eq_true] at hkeep
    have hsoft : args.softV3 = args.softV2 := by
      rw [SplitArgs.softV3, SplitArgs.keepSoft, hkeep]
      rfl
    rw [if_pos (by rw [hkeep]; rfl), hkeep, Bool.or_false, hsoft]
    exact splitMemoryBudgetV2_ok args

theorem splitMemoryBudgetV4_ok :
    SplitOk args (args.semanticEnabled || args.directedKeepActive || args.glassTailActive)
      args.softV4 (splitMemoryBudgetV4 args) := by
  rw [splitMemoryBudgetV4]
  by_cases htail : args.glassTailActive = true
  · have hnot : ¬(!args.glassTailActive) = true := by rw [htail]; decide
    have hsoft : args.softV4 = { semantic := args.semanticSoft
                                 directedKeep := args.keepSoft
                                 episodic := args.episodicSoft
                                 glassTail := shareOf args.remaining args.glassTailFraction } := by
      rw [SplitArgs.softV4, SplitArgs.softV3, SplitArgs.softV2, SplitArgs.tailSoft, if_pos htail]
    rw [if_neg hnot]
    split_ifs with hzero
    · exact SplitArgs.split_zero hzero (SplitArgs.softV4_zero hzero)
    · have hnonneg := args.softV4_nonneg
      rw [hsoft] at hnonneg ⊢
      exact SplitArgs.split_clampTo hnonneg
  · rw [Bool.not_eq_true] at htail
    have hsoft : args.softV4 = args.softV3 := by
      rw [SplitArgs.softV4, SplitArgs.tailSoft, htail]
      rfl
    rw [if_pos (by rw [htail]; rfl), htail, Bool.or_false, hsoft]
    exact splitMemoryBudgetV3_ok args

/-- The splits are exact, keep the temporal floor, cut in order and agree where their channels
are off. -/
theorem meal_splits (args : SplitArgs) :
    SplitOk args args.semanticEnabled args.softV2 (splitMemoryBudgetV2 args) ∧
    SplitOk args (args.semanticEnabled || args.directedKeepActive) args.softV3
      (splitMemoryBudgetV3 args) ∧
    SplitOk args (args.semanticEnabled || args.directedKeepActive || args.glassTailActive)
      args.softV4 (splitMemoryBudgetV4 args) ∧
    (args.glassTailActive = false → splitMemoryBudgetV4 args = splitMemoryBudgetV3 args) ∧
    (args.directedKeepActive = false → splitMemoryBudgetV3 args = splitMemoryBudgetV2 args) ∧
    (args.semanticEnabled = false → splitMemoryBudgetV2 args = splitMemoryBudget args) := by
  refine ⟨splitMemoryBudgetV2_ok args, splitMemoryBudgetV3_ok args, splitMemoryBudgetV4_ok args,
    ?_, ?_, ?_⟩
  · intro h
    rw [splitMemoryBudgetV4, h]
    rfl
  · intro h
    rw [splitMemoryBudgetV3, h]
    rfl
  · intro h
    rw [splitMemoryBudgetV2, h]
    rfl

end Elyra.Memory
