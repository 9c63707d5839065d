import Elyra.Framework.Effects
import Elyra.Framework.Gaps
import Elyra.Framework.IsoText
import Elyra.Framework.Python
import Elyra.Framework.Sorted

namespace Elyra.Ladder

def microsPerSecond : Nat := 1000000

def minGapMinutes : Nat := 5

/-- The default of `min_gap`, in microseconds. -/
def minGap : Int := minGapMinutes * 60000000

/-- A degenerate interval becomes one second long. -/
def lengthen (interval : Instant × Instant) : Except PyErr (Instant × Instant) :=
  if interval.2 ≤ interval.1 then
    if h : interval.1.val + microsPerSecond < instantCount then
      .ok (interval.1, ⟨interval.1.val + microsPerSecond, h⟩)
    else .error .overflowError
  else .ok interval

def clip (wStart wEnd : Instant) (span : Instant × Instant) : Instant × Instant :=
  (max span.1 wStart, min span.2 wEnd)

def longEnough (threshold : Int) (first last : Instant) : Bool :=
  threshold ≤ (last.val : Int) - first.val

/-- Half-open empty ranges with no moments, at least as long as the threshold. -/
def gapSpans (wStart wEnd : Instant) (momentIntervals : List (Instant × Instant))
    (threshold : Int := minGap) : Except PyErr (List (Instant × Instant)) :=
  if wEnd ≤ wStart then .ok []
  else do
    let lengthened ← momentIntervals.mapM lengthen
    let spans := (lengthened.map (clip wStart wEnd)).filter fun span => span.1 < span.2
    match sortBy Prod.fst spans with
    | [] => return if longEnough threshold wStart wEnd then [(wStart, wEnd)] else []
    | first :: rest => return sweep (longEnough threshold) wEnd wStart (mergeFrom first rest)

/-- Where an interval ends, a degenerate one counted as a second long. -/
def intervalEnd (interval : Instant × Instant) : Nat :=
  if interval.2 ≤ interval.1 then interval.1.val + microsPerSecond else interval.2.val

/-- An interval is at work at the instant. -/
def Touched (intervals : List (Instant × Instant)) (t : Instant) : Prop :=
  ∃ interval ∈ intervals, interval.1 ≤ t ∧ t.val < intervalEnd interval

/-- No date is left a second after the start of a degenerate interval. -/
def OffCalendar (interval : Instant × Instant) : Prop :=
  interval.2 ≤ interval.1 ∧ instantCount ≤ interval.1.val + microsPerSecond

variable {wStart wEnd : Instant} {intervals : List (Instant × Instant)} {threshold : Int}

theorem lengthen_cases (interval : Instant × Instant) :
    (lengthen interval = .error .overflowError ∧ OffCalendar interval) ∨
      (∃ stop : Instant, lengthen interval = .ok (interval.1, stop) ∧
        stop.val = intervalEnd interval ∧ ¬OffCalendar interval) := by
  rw [lengthen, intervalEnd]
  split_ifs with hdegenerate hroom
  · right
    refine ⟨_, rfl, rfl, ?_⟩
    rintro ⟨-, hfull⟩
    exact absurd hroom (Nat.not_lt.mpr hfull)
  · exact .inl ⟨rfl, hdegenerate, Nat.not_lt.mp hroom⟩
  · right
    refine ⟨interval.2, rfl, rfl, ?_⟩
    rintro ⟨hle, -⟩
    exact hdegenerate hle

theorem mapM_lengthen_error (h : ∃ interval ∈ intervals, OffCalendar interval) :
    intervals.mapM lengthen = .error .overflowError := by
  induction intervals with
  | nil =>
    obtain ⟨interval, hmem, -⟩ := h
    exact absurd hmem List.not_mem_nil
  | cons head rest ih =>
    rw [List.mapM_cons]
    obtain ⟨hrun, -⟩ | ⟨stop, hrun, -, hroom⟩ := lengthen_cases head
    · rw [hrun]
      rfl
    · have hrest : ∃ interval ∈ rest, OffCalendar interval := by
        obtain ⟨interval, hmem, hoff⟩ := h
        obtain rfl | hmem := List.mem_cons.mp hmem
        · exact absurd hoff hroom
        · exact ⟨interval, hmem, hoff⟩
      rw [hrun, ih hrest]
      rfl

theorem mapM_lengthen_ok (h : ¬∃ interval ∈ intervals, OffCalendar interval) :
    ∃ spans, intervals.mapM lengthen = .ok spans ∧ ∀ t, Covers spans t ↔ Touched intervals t := by
  induction intervals with
  | nil =>
    refine ⟨[], rfl, fun t => ⟨fun hc => absurd hc (covers_nil t), ?_⟩⟩
    rintro ⟨interval, hmem, -⟩
    exact absurd hmem List.not_mem_nil
  | cons head rest ih =>
    obtain ⟨spans, hspans, hcovers⟩ := ih fun hrest => by
      obtain ⟨interval, hmem, hoff⟩ := hrest
      exact h ⟨interval, List.mem_cons_of_mem _ hmem, hoff⟩
    obtain ⟨-, hoff⟩ | ⟨stop, hrun, hstop, -⟩ := lengthen_cases head
    · exact absurd ⟨head, List.mem_cons_self, hoff⟩ h
    · refine ⟨(head.1, stop) :: spans, ?_, ?_⟩
      · rw [List.mapM_cons, hrun, hspans]
        rfl
      · intro t
        rw [covers_cons, hcovers]
        dsimp only
        rw [Fin.lt_def, hstop]
        constructor
        · rintro (hin | ⟨interval, hmem, hin⟩)
          · exact ⟨head, List.mem_cons_self, hin⟩
          · exact ⟨interval, List.mem_cons_of_mem _ hmem, hin⟩
        · rintro ⟨interval, hmem, hin⟩
          obtain rfl | hmem := List.mem_cons.mp hmem
          · exact .inl hin
          · exact .inr ⟨interval, hmem, hin⟩

/-- The spans of a window: clipped, without the empty ones, by their starts. -/
def windowSpans (wStart wEnd : Instant) (lengthened : List (Instant × Instant)) :
    List (Instant × Instant) :=
  sortBy Prod.fst ((lengthened.map (clip wStart wEnd)).filter fun span => span.1 < span.2)

theorem windowSpans_ordered (wStart wEnd : Instant) (lengthened : List (Instant × Instant)) :
    Ordered wStart wEnd (windowSpans wStart wEnd lengthened) := by
  refine ⟨?_, ?_, pairwise_sortBy Prod.fst _⟩
  · intro span hspan
    rw [windowSpans, mem_sortBy, List.mem_filter] at hspan
    exact of_decide_eq_true hspan.2
  · intro span hspan
    rw [windowSpans, mem_sortBy, List.mem_filter, List.mem_map] at hspan
    obtain ⟨⟨old, -, rfl⟩, -⟩ := hspan
    exact ⟨le_max_right _ _, min_le_right _ _⟩

/-- Clipping loses no instant of the window. -/
theorem windowSpans_covers (lengthened : List (Instant × Instant)) {t : Instant}
    (hfirst : wStart ≤ t) (hlast : t < wEnd) :
    Covers (windowSpans wStart wEnd lengthened) t ↔ Covers lengthened t := by
  rw [windowSpans, covers_perm (sortBy_perm Prod.fst _)]
  constructor
  · rintro ⟨span, hmem, hin⟩
    rw [List.mem_filter, List.mem_map] at hmem
    obtain ⟨⟨old, hold, rfl⟩, -⟩ := hmem
    exact ⟨old, hold, (le_max_left _ _).trans hin.1, hin.2.trans_le (min_le_left _ _)⟩
  · rintro ⟨old, hold, hin⟩
    have hclip : (clip wStart wEnd old).1 ≤ t ∧ t < (clip wStart wEnd old).2 :=
      ⟨max_le hin.1 hfirst, lt_min hin.2 hlast⟩
    refine ⟨clip wStart wEnd old, List.mem_filter.mpr ⟨List.mem_map_of_mem hold, ?_⟩, hclip⟩
    exact decide_eq_true (hclip.1.trans_lt hclip.2)

theorem mem_merged {first : Instant × Instant} {rest : List (Instant × Instant)}
    (h : Ordered wStart wEnd (first :: rest)) {g : Instant × Instant} :
    g ∈ sweep (longEnough threshold) wEnd wStart (mergeFrom first rest) ↔
      IsGap (Covers (first :: rest)) wStart wEnd g ∧ longEnough threshold g.1 g.2 := by
  rw [mem_sweep (mergeFrom_ordered h)]
  refine and_congr_left fun _ => ?_
  exact ⟨IsGap.congr fun x _ _ => mergeFrom_covers h x,
    IsGap.congr fun x _ _ => (mergeFrom_covers h x).symm⟩

/-- What `gap_spans` returns of the spans of its window. -/
def spanGaps (wStart wEnd : Instant) (threshold : Int) :
    List (Instant × Instant) → List (Instant × Instant)
  | [] => if longEnough threshold wStart wEnd then [(wStart, wEnd)] else []
  | first :: rest => sweep (longEnough threshold) wEnd wStart (mergeFrom first rest)

theorem gapSpans_eq (hw : wStart < wEnd) {lengthened : List (Instant × Instant)}
    (h : intervals.mapM lengthen = .ok lengthened) :
    gapSpans wStart wEnd intervals threshold =
      .ok (spanGaps wStart wEnd threshold (windowSpans wStart wEnd lengthened)) := by
  rw [gapSpans, if_neg (not_le.mpr hw), h]
  cases hspans : windowSpans wStart wEnd lengthened with
  | nil =>
    rw [windowSpans] at hspans
    simp only [bind, Except.bind, hspans]
    rfl
  | cons first rest =>
    rw [windowSpans] at hspans
    simp only [bind, Except.bind, hspans]
    rfl

theorem mem_spanGaps (hw : wStart < wEnd) {spans : List (Instant × Instant)}
    (h : Ordered wStart wEnd spans) {g : Instant × Instant} :
    g ∈ spanGaps wStart wEnd threshold spans ↔
      IsGap (Covers spans) wStart wEnd g ∧ longEnough threshold g.1 g.2 := by
  cases spans with
  | nil =>
    rw [spanGaps, isGap_nil]
    split_ifs with hlong
    · rw [List.mem_singleton]
      constructor
      · rintro rfl
        exact ⟨⟨hw, rfl⟩, hlong⟩
      · rintro ⟨⟨-, rfl⟩, -⟩
        rfl
    · refine ⟨fun hg => absurd hg List.not_mem_nil, ?_⟩
      rintro ⟨⟨-, rfl⟩, hg⟩
      exact absurd hg hlong
  | cons first rest => exact mem_merged h

theorem spanGaps_pairwise {spans : List (Instant × Instant)} (h : Ordered wStart wEnd spans) :
    (spanGaps wStart wEnd threshold spans).Pairwise fun a b => a.2 < b.1 := by
  cases spans with
  | nil =>
    rw [spanGaps]
    split_ifs
    · exact List.pairwise_singleton _ _
    · exact List.Pairwise.nil
  | cons first rest => exact sweep_pairwise (mergeFrom_ordered h).nonempty wStart

/-- The gaps of a window are exactly its maximal untouched spans of the given length, in order;
only a degenerate interval in the last second of the calendar raises. -/
theorem gapSpans_exact (wStart wEnd : Instant) (intervals : List (Instant × Instant))
    (threshold : Int) :
    (wStart < wEnd ∧ (∃ interval ∈ intervals, OffCalendar interval) ∧
      gapSpans wStart wEnd intervals threshold = .error .overflowError) ∨
    (¬(wStart < wEnd ∧ ∃ interval ∈ intervals, OffCalendar interval) ∧
      ∃ gaps, gapSpans wStart wEnd intervals threshold = .ok gaps ∧
        gaps.Pairwise (fun a b => a.2 < b.1) ∧
        ∀ g, g ∈ gaps ↔ IsGap (Touched intervals) wStart wEnd g ∧
          threshold ≤ (g.2.val : Int) - g.1.val) := by
  obtain hempty | hw := le_or_gt wEnd wStart
  · right
    refine ⟨fun h => absurd h.1 (not_lt.mpr hempty), [], if_pos hempty, List.Pairwise.nil, ?_⟩
    intro g
    refine ⟨fun hg => absurd hg List.not_mem_nil, ?_⟩
    rintro ⟨⟨hfree, -⟩, -⟩
    have hin := (hfree.inside.1.trans_lt hfree.nonempty).trans_le hfree.inside.2
    exact absurd hin (not_lt.mpr hempty)
  · by_cases hoff : ∃ interval ∈ intervals, OffCalendar interval
    · left
      refine ⟨hw, hoff, ?_⟩
      rw [gapSpans, if_neg (not_le.mpr hw), mapM_lengthen_error hoff]
      rfl
    · right
      obtain ⟨lengthened, hrun, hcovers⟩ := mapM_lengthen_ok hoff
      have hordered := windowSpans_ordered wStart wEnd lengthened
      refine ⟨fun h => hoff h.2, _, gapSpans_eq hw hrun, spanGaps_pairwise hordered, ?_⟩
      intro g
      rw [mem_spanGaps hw hordered]
      refine and_congr ?_ decide_eq_true_iff
      have hsame : ∀ x, wStart ≤ x → x < wEnd →
          (Covers (windowSpans wStart wEnd lengthened) x ↔ Touched intervals x) :=
        fun x hx hy => (windowSpans_covers lengthened hx hy).trans (hcovers x)
      exact ⟨IsGap.congr hsame, IsGap.congr fun x hx hy => (hsame x hx hy).symm⟩

/-- Less than the threshold lies between two ends that enclose the instant: the end of an interval
or the start of the window, and the start of an interval or the end of the window. -/
def ShortStretch (intervals : List (Instant × Instant)) (wStart wEnd : Instant) (threshold : Int)
    (t : Instant) : Prop :=
  ∃ left right : Nat, left ≤ t.val ∧ t.val < right ∧ (right : Int) - left < threshold ∧
    (left = wStart.val ∨ ∃ interval ∈ intervals, left = intervalEnd interval) ∧
    (right = wEnd.val ∨ ∃ interval ∈ intervals, right = interval.1.val)

theorem mem_lengthened {lengthened : List (Instant × Instant)}
    (h : intervals.mapM lengthen = .ok lengthened) (span : Instant × Instant) :
    span ∈ lengthened ↔
      ∃ interval ∈ intervals, span.1 = interval.1 ∧ span.2.val = intervalEnd interval := by
  induction intervals generalizing lengthened with
  | nil =>
    rw [← Except.ok.inj h]
    simp
  | cons head rest ih =>
    rw [List.mapM_cons] at h
    obtain ⟨first, hfirst, h⟩ := except_bind_ok h
    obtain ⟨later, hlater, h⟩ := except_bind_ok h
    rw [← Except.ok.inj h, List.mem_cons, ih hlater, List.exists_mem_cons_iff]
    obtain ⟨herror, -⟩ | ⟨stop, hrun, hstop, -⟩ := lengthen_cases head
    · rw [herror] at hfirst
      cases hfirst
    · rw [hrun] at hfirst
      rw [← Except.ok.inj hfirst, Prod.ext_iff]
      dsimp only
      rw [Fin.ext_iff (a := span.2), hstop]

theorem lengthened_nonempty {lengthened : List (Instant × Instant)}
    (h : intervals.mapM lengthen = .ok lengthened) :
    ∀ span ∈ lengthened, span.1 < span.2 := by
  intro span hmem
  obtain ⟨interval, -, hstart, hstop⟩ := (mem_lengthened h span).mp hmem
  rw [Fin.lt_def, hstart, hstop, intervalEnd]
  split_ifs with hle
  · rw [microsPerSecond]
    omega
  · exact not_le.mp hle

/-- No gap holds an instant exactly when an interval is at work at it, or its stretch is short. -/
theorem gapSpans_clear_iff {gaps : List (Instant × Instant)} {t : Instant}
    (h : gapSpans wStart wEnd intervals threshold = .ok gaps) (hfirst : wStart ≤ t)
    (hlast : t < wEnd) :
    (∀ g ∈ gaps, ¬(g.1 ≤ t ∧ t < g.2)) ↔
      Touched intervals t ∨ ShortStretch intervals wStart wEnd threshold t := by
  have hw : wStart < wEnd := hfirst.trans_lt hlast
  obtain ⟨-, -, herror⟩ | ⟨hcal, found, hrun, -, hmem⟩ :=
    gapSpans_exact wStart wEnd intervals threshold
  · rw [herror] at h
    cases h
  rw [hrun] at h
  obtain rfl := Except.ok.inj h
  have hoff : ¬∃ interval ∈ intervals, OffCalendar interval := fun hoff => hcal ⟨hw, hoff⟩
  obtain ⟨lengthened, hlengthened, hcovers⟩ := mapM_lengthen_ok hoff
  have hspans := lengthened_nonempty hlengthened
  have hleft : ∀ left : Instant, (left = wStart ∨ ∃ span ∈ lengthened, left = span.2) ↔
      (left.val = wStart.val ∨ ∃ interval ∈ intervals, left.val = intervalEnd interval) := by
    intro left
    refine or_congr Fin.ext_iff ⟨?_, ?_⟩
    · rintro ⟨span, hspan, rfl⟩
      obtain ⟨interval, hmem, -, hstop⟩ := (mem_lengthened hlengthened span).mp hspan
      exact ⟨interval, hmem, hstop⟩
    · rintro ⟨interval, hmem, hstop⟩
      exact ⟨(interval.1, left),
        (mem_lengthened hlengthened _).mpr ⟨interval, hmem, rfl, hstop⟩, rfl⟩
  have hright : ∀ right : Instant, (right = wEnd ∨ ∃ span ∈ lengthened, right = span.1) ↔
      (right.val = wEnd.val ∨ ∃ interval ∈ intervals, right.val = interval.1.val) := by
    intro right
    refine or_congr Fin.ext_iff ⟨?_, ?_⟩
    · rintro ⟨span, hspan, rfl⟩
      obtain ⟨interval, hmem, hstart, -⟩ := (mem_lengthened hlengthened span).mp hspan
      exact ⟨interval, hmem, congrArg Fin.val hstart⟩
    · rintro ⟨interval, hmem, hstart⟩
      obtain ⟨-, hbad⟩ | ⟨stop, -, hstop, -⟩ := lengthen_cases interval
      · exact absurd ⟨interval, hmem, hbad⟩ hoff
      · exact ⟨(interval.1, stop),
          (mem_lengthened hlengthened _).mpr ⟨interval, hmem, rfl, hstop⟩, Fin.ext hstart⟩
  have htouch : ∀ x, wStart ≤ x → x < wEnd → (Covers lengthened x ↔ Touched intervals x) :=
    fun x _ _ => hcovers x
  constructor
  · intro hclear
    by_cases ht : Touched intervals t
    · exact .inl ht
    right
    obtain ⟨g, hgap, hle, hlt, hfirstEdge, hlastEdge⟩ :=
      exists_gap hspans hfirst hlast (fun hc => ht ((hcovers t).mp hc))
    refine ⟨g.1.val, g.2.val, hle, hlt, ?_, (hleft g.1).mp hfirstEdge, (hright g.2).mp hlastEdge⟩
    by_contra hlong
    exact hclear g ((hmem g).mpr ⟨hgap.congr htouch, not_lt.mp hlong⟩) ⟨hle, hlt⟩
  · intro hshelter g hg ⟨hle, hlt⟩
    obtain ⟨hgap, hlong⟩ := (hmem g).mp hg
    obtain ht | ⟨left, right, hl, hr, hshort, hleftEdge, hrightEdge⟩ := hshelter
    · exact hgap.1.untouched t hle hlt ht
    · have hfree : Free (Covers lengthened) wStart wEnd g :=
        hgap.1.congr fun x hx hy => (htouch x hx hy).symm
      have hbound : right < instantCount := by
        obtain rfl | ⟨interval, -, rfl⟩ := hrightEdge
        · exact wEnd.isLt
        · exact interval.1.isLt
      have hl' : (⟨left, hl.trans_lt t.isLt⟩ : Instant) ≤ t := hl
      have hr' : t < (⟨right, hbound⟩ : Instant) := hr
      have hwithin : left ≤ g.1.val ∧ g.2.val ≤ right := hfree.edges hspans hle hlt hl' hr'
        ((hleft _).mpr hleftEdge) ((hright _).mpr hrightEdge)
      omega

/-- The last instant of the calendar. -/
def lastInstant : Instant := ⟨instantCount - 1, by decide⟩

/-- A moment at the last instant has no second to last. -/
theorem gapSpans_off_calendar :
    gapSpans ⟨0, by decide⟩ ⟨3600000000, by decide⟩ [(lastInstant, lastInstant)] =
      .error .overflowError := by
  rfl

end Elyra.Ladder
