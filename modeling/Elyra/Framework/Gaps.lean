import Mathlib.Order.Defs.LinearOrder
import Mathlib.Order.MinMax
import Mathlib.Data.List.Basic

namespace Elyra

/-! Half-open spans of a linear order and the gaps that they leave in a window. -/

section Gaps

variable {α : Type*} [LinearOrder α]

def Covers (spans : List (α × α)) (x : α) : Prop := ∃ span ∈ spans, span.1 ≤ x ∧ x < span.2

/-- A non-empty span of the window with no point of `C`. -/
structure Free (C : α → Prop) (lo hi : α) (g : α × α) : Prop where
  inside : lo ≤ g.1 ∧ g.2 ≤ hi
  nonempty : g.1 < g.2
  untouched : ∀ x, g.1 ≤ x → x < g.2 → ¬C x

/-- A free span that no other free span includes. -/
def IsGap (C : α → Prop) (lo hi : α) (g : α × α) : Prop :=
  Free C lo hi g ∧ ∀ wider, Free C lo hi wider → wider.1 ≤ g.1 → g.2 ≤ wider.2 → wider = g

variable {C D : α → Prop} {lo hi : α} {g : α × α} {spans : List (α × α)}

theorem covers_nil (x : α) : ¬Covers ([] : List (α × α)) x := by
  rintro ⟨span, hmem, -⟩
  exact absurd hmem List.not_mem_nil

theorem covers_cons {span : α × α} {x : α} :
    Covers (span :: spans) x ↔ (span.1 ≤ x ∧ x < span.2) ∨ Covers spans x := by
  constructor
  · rintro ⟨other, hmem, hx⟩
    obtain rfl | hrest := List.mem_cons.mp hmem
    · exact .inl hx
    · exact .inr ⟨other, hrest, hx⟩
  · rintro (hx | ⟨other, hrest, hx⟩)
    · exact ⟨span, List.mem_cons_self, hx⟩
    · exact ⟨other, List.mem_cons_of_mem _ hrest, hx⟩

theorem covers_perm {others : List (α × α)} (h : spans.Perm others) {x : α} :
    Covers spans x ↔ Covers others x := by
  constructor
  · rintro ⟨span, hmem, hx⟩
    exact ⟨span, h.mem_iff.mp hmem, hx⟩
  · rintro ⟨span, hmem, hx⟩
    exact ⟨span, h.mem_iff.mpr hmem, hx⟩

theorem Free.congr (h : ∀ x, lo ≤ x → x < hi → (C x ↔ D x)) (hg : Free C lo hi g) :
    Free D lo hi g := by
  refine ⟨hg.inside, hg.nonempty, ?_⟩
  intro x hfirst hlast hD
  have hC := (h x (hg.inside.1.trans hfirst) (hlast.trans_le hg.inside.2)).mpr hD
  exact hg.untouched x hfirst hlast hC

/-- Only the points of the window matter. -/
theorem IsGap.congr (h : ∀ x, lo ≤ x → x < hi → (C x ↔ D x)) (hg : IsGap C lo hi g) :
    IsGap D lo hi g := by
  refine ⟨hg.1.congr h, ?_⟩
  intro wider hwider hfirst hlast
  have hback : Free C lo hi wider := hwider.congr fun x hx hy => (h x hx hy).symm
  exact hg.2 wider hback hfirst hlast

/-- A free span is a gap when no point before it and none after it can be added. -/
theorem isGap_iff : IsGap C lo hi g ↔ Free C lo hi g ∧
    (∀ a, lo ≤ a → a < g.1 → ∃ x, a ≤ x ∧ x < g.1 ∧ C x) ∧
      (∀ b, g.2 < b → b ≤ hi → ∃ x, g.2 ≤ x ∧ x < b ∧ C x) := by
  constructor
  · rintro ⟨hfree, hmax⟩
    refine ⟨hfree, ?_, ?_⟩
    · intro a hlo ha
      by_contra hnone
      have hwider : Free C lo hi (a, g.2) := by
        refine ⟨⟨hlo, hfree.inside.2⟩, ha.trans hfree.nonempty, ?_⟩
        intro x hfirst hlast hC
        obtain hx | hx := lt_or_ge x g.1
        · exact hnone ⟨x, hfirst, hx, hC⟩
        · exact hfree.untouched x hx hlast hC
      have heq := hmax _ hwider ha.le le_rfl
      exact absurd (congrArg Prod.fst heq) ha.ne
    · intro b hb hhi
      by_contra hnone
      have hwider : Free C lo hi (g.1, b) := by
        refine ⟨⟨hfree.inside.1, hhi⟩, hfree.nonempty.trans hb, ?_⟩
        intro x hfirst hlast hC
        obtain hx | hx := lt_or_ge x g.2
        · exact hfree.untouched x hfirst hx hC
        · exact hnone ⟨x, hx, hlast, hC⟩
      have heq := hmax _ hwider le_rfl hb.le
      exact absurd (congrArg Prod.snd heq) hb.ne'
  · rintro ⟨hfree, hleft, hright⟩
    refine ⟨hfree, ?_⟩
    intro wider hwider hfirst hlast
    obtain heq | hlt := hfirst.eq_or_lt
    · obtain heq' | hlt' := hlast.eq_or_lt
      · exact Prod.ext heq heq'.symm
      · obtain ⟨x, hx, hxb, hC⟩ := hright wider.2 hlt' hwider.inside.2
        have hgx := hfree.nonempty.le.trans hx
        exact absurd hC (hwider.untouched x (hfirst.trans hgx) hxb)
    · obtain ⟨x, hx, hxa, hC⟩ := hleft wider.1 hwider.inside.1 hlt
      have hxg := hxa.trans (hfree.nonempty.trans_le hlast)
      exact absurd hC (hwider.untouched x hx hxg)

theorem isGap_nil : IsGap (Covers []) lo hi g ↔ lo < hi ∧ g = (lo, hi) := by
  rw [isGap_iff]
  constructor
  · rintro ⟨hfree, hleft, hright⟩
    have hfirst : lo = g.1 := by
      apply hfree.inside.1.eq_of_not_lt
      intro hlt
      obtain ⟨x, -, -, hC⟩ := hleft lo le_rfl hlt
      exact covers_nil x hC
    have hlast : g.2 = hi := by
      apply hfree.inside.2.eq_of_not_lt
      intro hlt
      obtain ⟨x, -, -, hC⟩ := hright hi hlt le_rfl
      exact covers_nil x hC
    refine ⟨?_, Prod.ext hfirst.symm hlast⟩
    rw [hfirst, ← hlast]
    exact hfree.nonempty
  · rintro ⟨hlt, rfl⟩
    refine ⟨⟨⟨le_rfl, le_rfl⟩, hlt, fun x _ _ => covers_nil x⟩, ?_, ?_⟩
    · intro a hlo ha
      exact absurd hlo (not_le.mpr ha)
    · intro b hb hhi
      exact absurd hhi (not_le.mpr hb)

/-- The gaps of a window with a first span: the one before it, and those from its end on. -/
theorem isGap_cons {span : α × α} (hspan : span.1 < span.2) (hhi : span.2 ≤ hi)
    (hfirst : ∀ other ∈ spans, span.1 ≤ other.1) :
    IsGap (Covers (span :: spans)) lo hi g ↔
      (lo < span.1 ∧ g = (lo, span.1)) ∨ IsGap (Covers spans) (max lo span.2) hi g := by
  have hbefore : ∀ x, x < span.1 → ¬Covers (span :: spans) x := by
    rintro x hx ⟨other, hmem, hle, -⟩
    obtain rfl | hrest := List.mem_cons.mp hmem
    · exact absurd hle (not_le.mpr hx)
    · exact absurd ((hfirst other hrest).trans hle) (not_le.mpr hx)
  constructor
  · intro hgap
    obtain ⟨hfree, hleft, hright⟩ := isGap_iff.mp hgap
    -- the gap lies before the span or after it
    obtain hb | hb := le_or_gt g.2 span.1
    · left
      have hlo : lo = g.1 := by
        apply hfree.inside.1.eq_of_not_lt
        intro hlt
        obtain ⟨x, -, hx, hC⟩ := hleft lo le_rfl hlt
        exact hbefore x (hx.trans (hfree.nonempty.trans_le hb)) hC
      have hend : g.2 = span.1 := by
        apply hb.eq_of_not_lt
        intro hlt
        obtain ⟨x, -, hx, hC⟩ := hright span.1 hlt (hspan.le.trans hhi)
        exact hbefore x hx hC
      refine ⟨?_, Prod.ext hlo.symm hend⟩
      rw [hlo, ← hend]
      exact hfree.nonempty
    · right
      have hend : span.2 ≤ g.1 := by
        by_contra hlt
        have hin : max g.1 span.1 < span.2 := max_lt (not_le.mp hlt) hspan
        have hcov : Covers (span :: spans) (max g.1 span.1) :=
          covers_cons.mpr (.inl ⟨le_max_right _ _, hin⟩)
        exact hfree.untouched _ (le_max_left _ _) (max_lt hfree.nonempty hb) hcov
      have hafter : ∀ x, span.2 ≤ x → Covers (span :: spans) x → Covers spans x := by
        intro x hx hC
        obtain hC | hC := covers_cons.mp hC
        · exact absurd hx (not_le.mpr hC.2)
        · exact hC
      refine isGap_iff.mpr ⟨⟨⟨max_le hfree.inside.1 hend, hfree.inside.2⟩, hfree.nonempty, ?_⟩,
        ?_, ?_⟩
      · intro x hx hxb hC
        exact hfree.untouched x hx hxb (covers_cons.mpr (.inr hC))
      · intro a ha hag
        obtain ⟨x, hx, hxg, hC⟩ := hleft a ((le_max_left _ _).trans ha) hag
        exact ⟨x, hx, hxg, hafter x (((le_max_right _ _).trans ha).trans hx) hC⟩
      · intro b hgb hbhi
        obtain ⟨x, hx, hxb, hC⟩ := hright b hgb hbhi
        exact ⟨x, hx, hxb, hafter x ((hend.trans hfree.nonempty.le).trans hx) hC⟩
  · rintro (⟨hlo, rfl⟩ | hgap)
    · refine isGap_iff.mpr ⟨⟨⟨le_rfl, hspan.le.trans hhi⟩, hlo, fun x _ hx => hbefore x hx⟩,
        ?_, ?_⟩
      · intro a ha hag
        exact absurd ha (not_le.mpr hag)
      · intro b hb _
        exact ⟨span.1, le_rfl, hb, covers_cons.mpr (.inl ⟨le_rfl, hspan⟩)⟩
    · obtain ⟨hfree, hleft, hright⟩ := isGap_iff.mp hgap
      have hend : span.2 ≤ g.1 := (le_max_right _ _).trans hfree.inside.1
      refine isGap_iff.mpr ⟨⟨⟨(le_max_left _ _).trans hfree.inside.1, hfree.inside.2⟩,
        hfree.nonempty, ?_⟩, ?_, ?_⟩
      · intro x hx hxb hC
        obtain hC | hC := covers_cons.mp hC
        · exact absurd (hend.trans hx) (not_le.mpr hC.2)
        · exact hfree.untouched x hx hxb hC
      · intro a ha hag
        obtain hin | hin := le_or_gt span.2 a
        · obtain ⟨x, hx, hxg, hC⟩ := hleft a (max_le ha hin) hag
          exact ⟨x, hx, hxg, covers_cons.mpr (.inr hC)⟩
        · have hx : max a span.1 < span.2 := max_lt hin hspan
          exact ⟨max a span.1, le_max_left _ _, hx.trans_le hend,
            covers_cons.mpr (.inl ⟨le_max_right _ _, hx⟩)⟩
      · intro b hgb hbhi
        obtain ⟨x, hx, hxb, hC⟩ := hright b hgb hbhi
        exact ⟨x, hx, hxb, covers_cons.mpr (.inr hC)⟩

/-- Overlapping or touching spans are merged, from a first one on. -/
def mergeFrom : α × α → List (α × α) → List (α × α)
  | last, [] => [last]
  | last, span :: rest =>
    if span.1 ≤ last.2 then mergeFrom (last.1, max last.2 span.2) rest
    else last :: mergeFrom span rest

/-- Spans sorted by their starts, each non-empty and inside the window. -/
structure Ordered (lo hi : α) (spans : List (α × α)) : Prop where
  nonempty : ∀ span ∈ spans, span.1 < span.2
  inside : ∀ span ∈ spans, lo ≤ span.1 ∧ span.2 ≤ hi
  sorted : spans.Pairwise fun a b => a.1 ≤ b.1

theorem Ordered.tail {span : α × α} (h : Ordered lo hi (span :: spans)) : Ordered lo hi spans where
  nonempty := fun s hs => h.nonempty s (List.mem_cons_of_mem _ hs)
  inside := fun s hs => h.inside s (List.mem_cons_of_mem _ hs)
  sorted := (List.pairwise_cons.mp h.sorted).2

/-- Two first spans that touch may be replaced by one. -/
theorem Ordered.join {last span : α × α} (h : Ordered lo hi (last :: span :: spans)) :
    Ordered lo hi ((last.1, max last.2 span.2) :: spans) := by
  have hlast := List.mem_cons_self (a := last) (l := span :: spans)
  have hspan := List.mem_cons_of_mem last (List.mem_cons_self (a := span) (l := spans))
  obtain ⟨hfirst, -⟩ := List.pairwise_cons.mp h.sorted
  have hrest := h.tail.tail
  refine ⟨?_, ?_, List.pairwise_cons.mpr ⟨?_, hrest.sorted⟩⟩
  · intro s hs
    obtain rfl | hs := List.mem_cons.mp hs
    · exact (h.nonempty _ hlast).trans_le (le_max_left _ _)
    · exact hrest.nonempty s hs
  · intro s hs
    obtain rfl | hs := List.mem_cons.mp hs
    · exact ⟨(h.inside _ hlast).1, max_le (h.inside _ hlast).2 (h.inside _ hspan).2⟩
    · exact hrest.inside s hs
  · intro s hs
    exact hfirst s (List.mem_cons_of_mem _ hs)

theorem covers_join {last span : α × α} (hle : last.1 ≤ span.1) (htouch : span.1 ≤ last.2) {x : α} :
    Covers ((last.1, max last.2 span.2) :: spans) x ↔ Covers (last :: span :: spans) x := by
  rw [covers_cons, covers_cons, covers_cons, ← or_assoc]
  refine or_congr_left ?_
  dsimp only
  rw [lt_max_iff]
  constructor
  · rintro ⟨hfirst, hin | hin⟩
    · exact .inl ⟨hfirst, hin⟩
    · obtain hx | hx := lt_or_ge x last.2
      · exact .inl ⟨hfirst, hx⟩
      · exact .inr ⟨htouch.trans hx, hin⟩
  · rintro (⟨hfirst, hin⟩ | ⟨hfirst, hin⟩)
    · exact ⟨hfirst, .inl hin⟩
    · exact ⟨hle.trans hfirst, .inr hin⟩

theorem mergeFrom_covers {last : α × α} (h : Ordered lo hi (last :: spans)) (x : α) :
    Covers (mergeFrom last spans) x ↔ Covers (last :: spans) x := by
  induction spans generalizing last with
  | nil => exact Iff.rfl
  | cons span rest ih =>
    have hle := (List.pairwise_cons.mp h.sorted).1 span List.mem_cons_self
    rw [mergeFrom]
    split_ifs with htouch
    · rw [ih h.join]
      exact covers_join hle htouch
    · rw [covers_cons, ih h.tail, ← covers_cons]

theorem mem_mergeFrom_start {last span : α × α} (h : span ∈ mergeFrom last spans) :
    ∃ old ∈ last :: spans, old.1 = span.1 := by
  induction spans generalizing last with
  | nil =>
    rw [mergeFrom, List.mem_singleton] at h
    exact ⟨last, List.mem_cons_self, by rw [h]⟩
  | cons next rest ih =>
    rw [mergeFrom] at h
    split_ifs at h with htouch
    · obtain ⟨old, hold, heq⟩ := ih h
      obtain rfl | hrest := List.mem_cons.mp hold
      · exact ⟨last, List.mem_cons_self, heq⟩
      · exact ⟨old, List.mem_cons_of_mem _ (List.mem_cons_of_mem _ hrest), heq⟩
    · obtain rfl | hlater := List.mem_cons.mp h
      · exact ⟨span, List.mem_cons_self, rfl⟩
      · obtain ⟨old, hold, heq⟩ := ih hlater
        exact ⟨old, List.mem_cons_of_mem _ hold, heq⟩

theorem mergeFrom_ordered {last : α × α} (h : Ordered lo hi (last :: spans)) :
    Ordered lo hi (mergeFrom last spans) := by
  induction spans generalizing last with
  | nil => exact h
  | cons span rest ih =>
    rw [mergeFrom]
    split_ifs with htouch
    · exact ih h.join
    · have hmerged := ih h.tail
      have hlast := List.mem_cons_self (a := last) (l := span :: rest)
      refine ⟨?_, ?_, List.pairwise_cons.mpr ⟨?_, hmerged.sorted⟩⟩
      · intro s hs
        obtain rfl | hs := List.mem_cons.mp hs
        · exact h.nonempty _ hlast
        · exact hmerged.nonempty s hs
      · intro s hs
        obtain rfl | hs := List.mem_cons.mp hs
        · exact h.inside _ hlast
        · exact hmerged.inside s hs
      · intro s hs
        obtain ⟨old, hold, heq⟩ := mem_mergeFrom_start hs
        rw [← heq]
        exact (List.pairwise_cons.mp h.sorted).1 old hold

/-- The gaps that a cursor leaves behind on its way over the spans, when `keep` lets them. -/
def sweep (keep : α → α → Bool) (hi : α) : α → List (α × α) → List (α × α)
  | cursor, [] => if cursor < hi && keep cursor hi then [(cursor, hi)] else []
  | cursor, span :: rest =>
    (if cursor < span.1 && keep cursor span.1 then [(cursor, span.1)] else []) ++
      sweep keep hi (max cursor span.2) rest

variable {keep : α → α → Bool}

theorem mem_sweep (h : Ordered lo hi spans) (cursor : α) :
    g ∈ sweep keep hi cursor spans ↔ IsGap (Covers spans) cursor hi g ∧ keep g.1 g.2 := by
  induction spans generalizing cursor with
  | nil =>
    rw [sweep, isGap_nil]
    split_ifs with hkeep
    · rw [Bool.and_eq_true, decide_eq_true_iff] at hkeep
      rw [List.mem_singleton]
      constructor
      · rintro rfl
        exact ⟨⟨hkeep.1, rfl⟩, hkeep.2⟩
      · rintro ⟨⟨-, rfl⟩, -⟩
        rfl
    · refine ⟨fun hmem => absurd hmem List.not_mem_nil, ?_⟩
      rintro ⟨⟨hlt, rfl⟩, hk⟩
      rw [Bool.and_eq_true, decide_eq_true_iff] at hkeep
      exact absurd ⟨hlt, hk⟩ hkeep
  | cons span rest ih =>
    have hself := List.mem_cons_self (a := span) (l := rest)
    rw [sweep, List.mem_append, ih h.tail, isGap_cons (h.nonempty _ hself) (h.inside _ hself).2
      (List.pairwise_cons.mp h.sorted).1, or_and_right]
    refine or_congr_left ?_
    split_ifs with hkeep
    · rw [Bool.and_eq_true, decide_eq_true_iff] at hkeep
      rw [List.mem_singleton]
      constructor
      · rintro rfl
        exact ⟨⟨hkeep.1, rfl⟩, hkeep.2⟩
      · rintro ⟨⟨-, rfl⟩, -⟩
        rfl
    · refine ⟨fun hmem => absurd hmem List.not_mem_nil, ?_⟩
      rintro ⟨⟨hlt, rfl⟩, hk⟩
      rw [Bool.and_eq_true, decide_eq_true_iff] at hkeep
      exact absurd ⟨hlt, hk⟩ hkeep

theorem sweep_start (h : ∀ span ∈ spans, span.1 < span.2) {cursor : α}
    (hg : g ∈ sweep keep hi cursor spans) : cursor ≤ g.1 := by
  induction spans generalizing cursor with
  | nil =>
    rw [sweep] at hg
    split_ifs at hg
    · rw [List.mem_singleton] at hg
      rw [hg]
    · exact absurd hg List.not_mem_nil
  | cons span rest ih =>
    rw [sweep, List.mem_append] at hg
    obtain hg | hg := hg
    · split_ifs at hg
      · rw [List.mem_singleton] at hg
        rw [hg]
      · exact absurd hg List.not_mem_nil
    · have hlater := ih (fun s hs => h s (List.mem_cons_of_mem _ hs)) hg
      exact (le_max_left _ _).trans hlater

/-- The gaps come out in order, each ending before the next begins. -/
theorem sweep_pairwise (h : ∀ span ∈ spans, span.1 < span.2) (cursor : α) :
    (sweep keep hi cursor spans).Pairwise fun a b => a.2 < b.1 := by
  induction spans generalizing cursor with
  | nil =>
    rw [sweep]
    split_ifs
    · exact List.pairwise_singleton _ _
    · exact List.Pairwise.nil
  | cons span rest ih =>
    have hrest : ∀ s ∈ rest, s.1 < s.2 := fun s hs => h s (List.mem_cons_of_mem _ hs)
    rw [sweep]
    split_ifs
    · refine List.pairwise_cons.mpr ⟨?_, ih hrest _⟩
      intro later hlater
      have hstart := (le_max_right cursor span.2).trans (sweep_start hrest hlater)
      exact (h span List.mem_cons_self).trans_le hstart
    · exact ih hrest _

/-- The nearest end at or before a point, or the edge of the window. -/
theorem exists_left_edge {x : α} (hlo : lo ≤ x) (spans : List (α × α)) :
    ∃ left, lo ≤ left ∧ left ≤ x ∧ (left = lo ∨ ∃ span ∈ spans, left = span.2) ∧
      ∀ span ∈ spans, span.2 ≤ x → span.2 ≤ left := by
  induction spans with
  | nil => exact ⟨lo, le_rfl, hlo, .inl rfl, fun _ hmem => absurd hmem List.not_mem_nil⟩
  | cons head spans ih =>
    obtain ⟨left, hin, hle, hedge, hmax⟩ := ih
    by_cases hhead : head.2 ≤ x ∧ left < head.2
    · refine ⟨head.2, hin.trans hhead.2.le, hhead.1, .inr ⟨head, List.mem_cons_self, rfl⟩, ?_⟩
      intro span hmem hspan
      obtain rfl | hrest := List.mem_cons.mp hmem
      · exact le_rfl
      · exact (hmax span hrest hspan).trans hhead.2.le
    · refine ⟨left, hin, hle, hedge.imp_right ?_, ?_⟩
      · rintro ⟨span, hmem, heq⟩
        exact ⟨span, List.mem_cons_of_mem _ hmem, heq⟩
      · intro span hmem hspan
        obtain rfl | hrest := List.mem_cons.mp hmem
        · exact not_lt.mp fun hlt => hhead ⟨hspan, hlt⟩
        · exact hmax span hrest hspan

/-- The nearest start after a point, or the edge of the window. -/
theorem exists_right_edge {x : α} (hhi : x < hi) (spans : List (α × α)) :
    ∃ right, right ≤ hi ∧ x < right ∧ (right = hi ∨ ∃ span ∈ spans, right = span.1) ∧
      ∀ span ∈ spans, x < span.1 → right ≤ span.1 := by
  induction spans with
  | nil => exact ⟨hi, le_rfl, hhi, .inl rfl, fun _ hmem => absurd hmem List.not_mem_nil⟩
  | cons head spans ih =>
    obtain ⟨right, hin, hlt, hedge, hmin⟩ := ih
    by_cases hhead : x < head.1 ∧ head.1 < right
    · refine ⟨head.1, hhead.2.le.trans hin, hhead.1, .inr ⟨head, List.mem_cons_self, rfl⟩, ?_⟩
      intro span hmem hspan
      obtain rfl | hrest := List.mem_cons.mp hmem
      · exact le_rfl
      · exact hhead.2.le.trans (hmin span hrest hspan)
    · refine ⟨right, hin, hlt, hedge.imp_right ?_, ?_⟩
      · rintro ⟨span, hmem, heq⟩
        exact ⟨span, List.mem_cons_of_mem _ hmem, heq⟩
      · intro span hmem hspan
        obtain rfl | hrest := List.mem_cons.mp hmem
        · exact not_lt.mp fun hlt => hhead ⟨hspan, hlt⟩
        · exact hmin span hrest hspan

/-- A free point of the window lies in a gap between two edges. -/
theorem exists_gap (hspans : ∀ span ∈ spans, span.1 < span.2) {x : α} (hlo : lo ≤ x)
    (hhi : x < hi) (hx : ¬Covers spans x) :
    ∃ g, IsGap (Covers spans) lo hi g ∧ g.1 ≤ x ∧ x < g.2 ∧
      (g.1 = lo ∨ ∃ span ∈ spans, g.1 = span.2) ∧ (g.2 = hi ∨ ∃ span ∈ spans, g.2 = span.1) := by
  obtain ⟨left, hleftIn, hleft, hleftEdge, hmax⟩ := exists_left_edge hlo spans
  obtain ⟨right, hrightIn, hright, hrightEdge, hmin⟩ := exists_right_edge hhi spans
  refine ⟨(left, right), isGap_iff.mpr ⟨⟨⟨hleftIn, hrightIn⟩, hleft.trans_lt hright, ?_⟩, ?_, ?_⟩,
    hleft, hright, hleftEdge, hrightEdge⟩
  · rintro y hy hylast ⟨span, hmem, hstart, hstop⟩
    obtain hle | hlt := le_or_gt span.1 x
    · have hend : span.2 ≤ x := not_lt.mp fun hlt => hx ⟨span, hmem, hle, hlt⟩
      exact absurd ((hmax span hmem hend).trans hy) (not_le.mpr hstop)
    · exact absurd ((hmin span hmem hlt).trans hstart) (not_le.mpr hylast)
  · intro a hlo' ha
    obtain rfl | ⟨span, hmem, rfl⟩ := hleftEdge
    · exact absurd hlo' (not_le.mpr ha)
    · exact ⟨max a span.1, le_max_left _ _, max_lt ha (hspans span hmem), span, hmem,
        le_max_right _ _, max_lt ha (hspans span hmem)⟩
  · intro b hb hhi'
    obtain rfl | ⟨span, hmem, rfl⟩ := hrightEdge
    · exact absurd hhi' (not_le.mpr hb)
    · exact ⟨span.1, le_rfl, hb, span, hmem, le_rfl, hspans span hmem⟩

/-- No edge lies inside a free span. -/
theorem Free.edges (hspans : ∀ span ∈ spans, span.1 < span.2) (hg : Free (Covers spans) lo hi g)
    {x left right : α} (hfirst : g.1 ≤ x) (hlast : x < g.2) (hleft : left ≤ x) (hright : x < right)
    (hleftEdge : left = lo ∨ ∃ span ∈ spans, left = span.2)
    (hrightEdge : right = hi ∨ ∃ span ∈ spans, right = span.1) : left ≤ g.1 ∧ g.2 ≤ right := by
  constructor
  · obtain rfl | ⟨span, hmem, rfl⟩ := hleftEdge
    · exact hg.inside.1
    · by_contra hnot
      have hin := max_lt (not_le.mp hnot) (hspans span hmem)
      exact hg.untouched (max g.1 span.1) (le_max_left _ _) (hin.trans_le (hleft.trans hlast.le))
        ⟨span, hmem, le_max_right _ _, hin⟩
  · obtain rfl | ⟨span, hmem, rfl⟩ := hrightEdge
    · exact hg.inside.2
    · by_contra hnot
      exact hg.untouched span.1 (hfirst.trans hright.le) (not_le.mp hnot)
        ⟨span, hmem, le_rfl, hspans span hmem⟩

end Gaps
end Elyra
