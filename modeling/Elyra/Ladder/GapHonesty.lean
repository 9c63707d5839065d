import Elyra.Ladder.SourcePack
import Elyra.Memory.RangeQueries

namespace Elyra

namespace Ladder

open Memory JsonlMemoryStore

/-- The order of a range query. -/
def StartOrder (a b : Atom) : Prop :=
  ∀ k l, startKey a = .ok k → startKey b = .ok l → k ≤ l

theorem rawSources_sorted {s : JsonlMemoryStore} {wStart wEnd : Instant} {rows : List Atom}
    (h : rawSources s wStart wEnd = .ok rows) : rows.Pairwise StartOrder := by
  obtain ⟨listed, hlisted, h⟩ := except_bind_ok h
  rw [← Except.ok.inj h]
  refine List.Pairwise.filter _ ?_
  rw [listRange, toIsoZ_isoZ, toIsoZ_isoZ] at hlisted
  obtain ⟨sorted, hsorted, hlisted⟩ := except_bind_ok (m := sortKeyed startKey s.byId.values) hlisted
  rw [← Except.ok.inj hlisted]
  refine (sortKeyed_pairwise hsorted).sublist (List.Sublist.map Prod.snd ?_)
  rw [untilLimit]
  exact (List.take_sublist _ _).trans List.filter_sublist

section Blocks

theorem toIsoZ_ok {text iso : String} (h : toIsoZ text = .ok iso) :
    ∃ t, utcOf text = .ok t ∧ iso = isoZ t := by
  unfold toIsoZ at h
  cases hutc : utcOf text with
  | error e =>
    rw [hutc] at h
    cases h
  | ok t =>
    rw [hutc] at h
    exact ⟨t, rfl, (Except.ok.inj h).symm⟩

/-- The two texts a block gets its bounds from. -/
structure Bounds (b : MomentBlock) (t0 t1 : String) : Prop where
  t0 : toIsoZ t0 = .ok b.t0
  t1 : toIsoZ t1 = .ok b.t1

theorem Bounds.interval {b : MomentBlock} {t0 t1 : String} (h : Bounds b t0 t1) :
    (b.t0 ≠ "" ∧ b.t1 ≠ "") ∧ ∃ interval, blockInterval b = .ok interval ∧
      utcOf t0 = .ok interval.1 ∧ utcOf t1 = .ok interval.2 := by
  obtain ⟨first, hfirst, h0⟩ := toIsoZ_ok h.t0
  obtain ⟨last, hlast, h1⟩ := toIsoZ_ok h.t1
  refine ⟨⟨?_, ?_⟩, (first, last), ?_, hfirst, hlast⟩
  · rw [h0]
    exact isoZ_ne_empty first
  · rw [h1]
    exact isoZ_ne_empty last
  · rw [blockInterval, h0, h1, utcOf_isoZ, utcOf_isoZ]
    rfl

theorem momentBlock_bounds {mid : String} {group : List Atom} {b : MomentBlock}
    (hgroup : group.Pairwise StartOrder) (h : momentBlock mid group = .ok b) :
    ∃ first last, group.head? = some first ∧ group.getLast? = some last ∧
      Bounds b first.tStart (endText last) := by
  obtain ⟨sorted, hsorted, h⟩ := except_bind_ok h
  rw [sortKeyed_sorted hsorted hgroup] at h
  dsimp only at h
  cases hfirst : group.head? with
  | none =>
    rw [hfirst] at h
    cases h
  | some first =>
    cases hlast : group.getLast? with
    | none =>
      rw [hfirst, hlast] at h
      cases h
    | some last =>
      rw [hfirst, hlast] at h
      obtain ⟨whyNow, -, h⟩ := except_bind_ok h
      obtain ⟨top, -, h⟩ := except_bind_ok h
      obtain ⟨t0, h0, h⟩ := except_bind_ok h
      obtain ⟨t1, h1, h⟩ := except_bind_ok h
      rw [← Except.ok.inj h]
      exact ⟨first, last, rfl, rfl, h0, h1⟩

variable (rows : List Atom)

/-- The span of a moment: from its first row to the end, or else the start, of its last. -/
def MomentSpan (mid : String) (interval : Instant × Instant) : Prop :=
  ∃ first last, (rowsOf momentKey rows mid).head? = some first ∧
    (rowsOf momentKey rows mid).getLast? = some last ∧
    utcOf first.tStart = .ok interval.1 ∧ utcOf (endText last) = .ok interval.2

def orphans : List Atom := rows.filter fun a => momentKey a = none

/-- The span between the first and the last highlight without a moment. -/
def OrphanSpan (interval : Instant × Instant) : Prop :=
  ∃ top first last, ranked (orphans rows) = .ok top ∧
    (top.take maxAtomsPerMoment).head? = some first ∧
    (top.take maxAtomsPerMoment).getLast? = some last ∧
    utcOf first.tStart = .ok interval.1 ∧ utcOf last.tStart = .ok interval.2

/-- The spans that a pack takes into account: the first forty moments, and the orphans where there
are fewer. -/
def Shown (interval : Instant × Instant) : Prop :=
  (∃ mid ∈ (firstKeys momentKey rows).take maxMomentBlocks, MomentSpan rows mid interval) ∨
    ((firstKeys momentKey rows).length < maxMomentBlocks ∧ OrphanSpan rows interval)

variable {rows}

theorem orphanBlock_spans {blocks : List MomentBlock}
    (h : orphanBlock (orphans rows) = .ok blocks) :
    blocks.length ≤ 1 ∧ (∀ b ∈ blocks, b.t0 ≠ "" ∧ b.t1 ≠ "") ∧
      ∀ interval, (∃ b ∈ blocks, blockInterval b = .ok interval) ↔ OrphanSpan rows interval := by
  rw [orphanBlock] at h
  split_ifs at h with hnone
  · rw [← Except.ok.inj h]
    refine ⟨by simp, by simp, ?_⟩
    intro interval
    constructor
    · rintro ⟨b, hb, -⟩
      exact absurd hb List.not_mem_nil
    · rintro ⟨top, first, last, htop, hfirst, -⟩
      rw [hnone] at htop
      rw [← Except.ok.inj (show Except.ok [] = .ok top from htop)] at hfirst
      cases hfirst
  · obtain ⟨top, htop, h⟩ := except_bind_ok h
    dsimp only at h
    cases hfirst : (top.take maxAtomsPerMoment).head? with
    | none =>
      rw [hfirst] at h
      cases h
    | some first =>
      cases hlast : (top.take maxAtomsPerMoment).getLast? with
      | none =>
        rw [hfirst, hlast] at h
        cases h
      | some last =>
        rw [hfirst, hlast] at h
        obtain ⟨t0, h0, h⟩ := except_bind_ok h
        obtain ⟨t1, h1, h⟩ := except_bind_ok h
        rw [← Except.ok.inj h]
        have hbounds : Bounds ⟨none, t0, t1, none, (orphans rows).length,
            (top.take maxAtomsPerMoment).map packLine⟩ first.tStart last.tStart := ⟨h0, h1⟩
        obtain ⟨hne, interval, hrun, hstart, hstop⟩ := hbounds.interval
        refine ⟨by simp, ?_, ?_⟩
        · intro b hb
          rw [List.mem_singleton.mp hb]
          exact hne
        · intro other
          simp only [List.mem_singleton, exists_eq_left]
          rw [hrun, Except.ok.injEq]
          constructor
          · rintro rfl
            exact ⟨top, first, last, htop, hfirst, hlast, hstart, hstop⟩
          · rintro ⟨top', first', last', htop', hfirst', hlast', hstart', hstop'⟩
            rw [htop] at htop'
            obtain rfl := Except.ok.inj htop'
            rw [hfirst] at hfirst'
            rw [hlast] at hlast'
            obtain rfl := Option.some.inj hfirst'
            obtain rfl := Option.some.inj hlast'
            rw [hstart] at hstart'
            rw [hstop] at hstop'
            exact Prod.ext (Except.ok.inj hstart') (Except.ok.inj hstop')

/-- The moment `mid` has the block `b`. -/
def MomentOf (rows : List Atom) (mid : String) (b : MomentBlock) : Prop :=
  ∃ first last, (rowsOf momentKey rows mid).head? = some first ∧
    (rowsOf momentKey rows mid).getLast? = some last ∧ Bounds b first.tStart (endText last)

theorem MomentOf.span_iff {mid : String} {b : MomentBlock} (h : MomentOf rows mid b)
    (interval : Instant × Instant) :
    MomentSpan rows mid interval ↔ blockInterval b = .ok interval := by
  obtain ⟨first, last, hfirst, hlast, hbounds⟩ := h
  obtain ⟨-, found, hrun, hstart, hstop⟩ := hbounds.interval
  rw [hrun, Except.ok.injEq]
  constructor
  · rintro ⟨first', last', hfirst', hlast', hstart', hstop'⟩
    rw [hfirst] at hfirst'
    rw [hlast] at hlast'
    obtain rfl := Option.some.inj hfirst'
    obtain rfl := Option.some.inj hlast'
    rw [hstart] at hstart'
    rw [hstop] at hstop'
    exact Prod.ext (Except.ok.inj hstart') (Except.ok.inj hstop')
  · rintro rfl
    exact ⟨first, last, hfirst, hlast, hstart, hstop⟩

/-- Moments in the order of their first rows have blocks in the order of their starts. -/
theorem MomentOf.ordered {k l : String} {b c : MomentBlock} (hb : MomentOf rows k b)
    (hc : MomentOf rows l c)
    (h : ∀ x ∈ (rowsOf momentKey rows k).head?, ∀ y ∈ (rowsOf momentKey rows l).head?,
      StartOrder x y) : b.t0 ≤ c.t0 := by
  obtain ⟨first, last, hfirst, -, hbounds⟩ := hb
  obtain ⟨other, last', hother, -, hbounds'⟩ := hc
  have hkey : ∀ (a : Atom) (iso : String), toIsoZ a.tStart = .ok iso →
      startKey a = .ok (toLex (iso, a.atomId)) := by
    intro a iso hiso
    rw [startKey, hiso]
    rfl
  have hle := h first hfirst other hother _ _ (hkey _ _ hbounds.t0) (hkey _ _ hbounds'.t0)
  exact Prod.Lex.monotone_fst _ _ hle

theorem mem_take_append {α : Type} {l m : List α} (h : m.length ≤ 1) (n : Nat) (a : α) :
    a ∈ (l ++ m).take n ↔ a ∈ l.take n ∨ (l.length < n ∧ a ∈ m) := by
  rw [List.take_append, List.mem_append]
  refine or_congr_right ?_
  by_cases hlen : l.length < n
  · rw [List.take_of_length_le (by omega)]
    simp [hlen]
  · have hzero : n - l.length = 0 := by omega
    simp [hlen, hzero]

/-- The blocks of a window have the spans that the pack takes into account. -/
theorem momentBlocks_spans {s : JsonlMemoryStore} {wStart wEnd : Instant}
    {blocks : List MomentBlock} (hrows : rawSources s wStart wEnd = .ok rows)
    (h : momentBlocksForWindow s wStart wEnd = .ok blocks) :
    (∀ b ∈ blocks, b.t0 ≠ "" ∧ b.t1 ≠ "") ∧
      ∀ interval, (∃ b ∈ blocks, blockInterval b = .ok interval) ↔ Shown rows interval := by
  have hsorted := rawSources_sorted hrows
  rw [momentBlocksForWindow, hrows] at h
  obtain ⟨made, hmade, h⟩ := except_bind_ok
    (m := (groupRows momentKey rows).items.mapM fun p => momentBlock p.1 p.2) h
  obtain ⟨orphan, horphan, h⟩ := except_bind_ok h
  rw [groupRows_items, List.mapM_map] at hmade
  have hmoments : List.Forall₂ (MomentOf rows) (firstKeys momentKey rows) made := by
    refine (mapM_forall₂ hmade).imp ?_
    intro mid b hb
    exact momentBlock_bounds (hsorted.filter _) hb
  have hordered : made.Pairwise fun b c => b.t0 ≤ c.t0 :=
    pairwise_forall₂ hmoments (firstKeys_heads rows hsorted)
      fun _ _ _ _ hb hc hheads => hb.ordered hc hheads
  have hsame : sortBy MomentBlock.t0 made = made := hordered.insertionSort_eq
  obtain ⟨hone, horphanNe, horphanSpans⟩ := orphanBlock_spans horphan
  rw [hsame] at h
  have hblocks : blocks = (made ++ orphan).take maxMomentBlocks := (Except.ok.inj h).symm
  constructor
  · intro b hb
    rw [hblocks] at hb
    rcases List.mem_append.mp (List.mem_of_mem_take hb) with hmem | hmem
    · obtain ⟨i, hi, rfl⟩ := List.mem_iff_getElem.mp hmem
      have hi' : i < (firstKeys momentKey rows).length := hmoments.length_eq ▸ hi
      obtain ⟨first, last, -, -, hbounds⟩ := hmoments.get hi' hi
      exact hbounds.interval.1
    · exact horphanNe b hmem
  · intro interval
    have htake := exists_mem_forall₂ (List.forall₂_take maxMomentBlocks hmoments)
      fun mid b hb => hb.span_iff interval
    rw [Shown, htake, ← horphanSpans, hmoments.length_eq, hblocks]
    simp only [mem_take_append hone, or_and_right, exists_or, and_assoc, exists_and_left]

end Blocks

section Honesty

/-- Raw experience with a moment. -/
def RawMoment (a : Atom) : Prop := a.kind ∉ rawExcludeKinds ∧ momentKey a ≠ none

/-- A shown span is at work at the instant, or less than the threshold lies between the shown spans,
or edges of the window, around it. -/
def Sheltered (rows : List Atom) (wStart wEnd t : Instant) : Prop :=
  (∃ interval, Shown rows interval ∧ interval.1 ≤ t ∧ t.val < intervalEnd interval) ∨
    ∃ left right : Nat, left ≤ t.val ∧ t.val < right ∧ (right : Int) - left < minGap ∧
      (left = wStart.val ∨ ∃ interval, Shown rows interval ∧ left = intervalEnd interval) ∧
      (right = wEnd.val ∨ ∃ interval, Shown rows interval ∧ right = interval.1.val)

variable {s : JsonlMemoryStore} {scale : PeriodScale} {wStart wEnd : Instant}
  {sources : List Atom} {names : Dict String String}

theorem childPack_gaps {pack : SourcePack}
    (h : childPack scale wStart wEnd sources names = .ok pack) : pack.gaps = [] := by
  rw [childPack] at h
  cases hchild : childScale scale with
  | none =>
    rw [hchild] at h
    rw [← Except.ok.inj h]
    rfl
  | some child =>
    rw [hchild] at h
    obtain ⟨missingWindows, -, h⟩ := except_bind_ok h
    rw [← Except.ok.inj h]
    rfl

theorem rawPack_clear_iff {pack : SourcePack}
    (h : rawPack s scale wStart wEnd sources names = .ok pack) :
    ∃ rows, rawSources s wStart wEnd = .ok rows ∧ ∀ t, wStart ≤ t → t < wEnd →
      ((∀ g ∈ pack.gaps, ¬(g.1 ≤ t ∧ t < g.2)) ↔ Sheltered rows wStart wEnd t) := by
  obtain ⟨blocks, hblocks, h⟩ := except_bind_ok h
  obtain ⟨intervals, hintervals, h⟩ := except_bind_ok h
  obtain ⟨gaps, hgaps, h⟩ := except_bind_ok h
  obtain ⟨top, -, h⟩ := except_bind_ok h
  obtain ⟨highlights, -, h⟩ := except_bind_ok h
  obtain ⟨rows, hrows, -⟩ := except_bind_ok (m := rawSources s wStart wEnd) hblocks
  refine ⟨rows, hrows, ?_⟩
  obtain ⟨hne, hspans⟩ := momentBlocks_spans hrows hblocks
  have hkept : blocks.filter (fun b => b.t0 ≠ "" ∧ b.t1 ≠ "") = blocks := by
    rw [List.filter_eq_self]
    intro b hb
    exact decide_eq_true (hne b hb)
  rw [hkept] at hintervals
  have hshown : ∀ interval, interval ∈ intervals ↔ Shown rows interval := by
    intro interval
    rw [← hspans]
    have hmem := exists_mem_forall₂ (mapM_forall₂ hintervals)
      (p := fun b => blockInterval b = .ok interval) (q := fun found => found = interval) (by
        intro b found hb
        rw [hb, Except.ok.injEq])
    rw [hmem]
    simp
  intro t hfirst hlast
  rw [← Except.ok.inj h]
  show (∀ g ∈ gaps, _) ↔ _
  rw [gapSpans_clear_iff hgaps hfirst hlast, Touched, ShortStretch, Sheltered]
  simp only [hshown]

/-- A pack lists no gap at the start of a raw atom with a moment exactly when every such start is
sheltered by the spans that the pack shows. -/
theorem pack_gaps_honest_iff {fromChildren : Bool} {pack : SourcePack}
    (h : sourcePack s scale wStart wEnd sources names fromChildren = .ok pack) :
    (∀ a ∈ s.byId.values, RawMoment a → ∀ t, utcOf a.tStart = .ok t → wStart ≤ t → t < wEnd →
      ∀ g ∈ pack.gaps, ¬(g.1 ≤ t ∧ t < g.2)) ↔
    fromChildren = true ∨ ∃ rows, rawSources s wStart wEnd = .ok rows ∧
      ∀ a ∈ s.byId.values, RawMoment a → ∀ t, utcOf a.tStart = .ok t → wStart ≤ t → t < wEnd →
        Sheltered rows wStart wEnd t := by
  cases fromChildren with
  | true =>
    refine ⟨fun _ => .inl rfl, ?_⟩
    intro _ a _ _ t _ _ _ g hg
    rw [childPack_gaps h] at hg
    exact absurd hg List.not_mem_nil
  | false =>
    obtain ⟨rows, hrows, hclear⟩ := rawPack_clear_iff h
    constructor
    · intro hhonest
      refine .inr ⟨rows, hrows, ?_⟩
      intro a ha hraw t ht hfirst hlast
      exact (hclear t hfirst hlast).mp (hhonest a ha hraw t ht hfirst hlast)
    · rintro (hfalse | ⟨rows', hrows', hall⟩)
      · cases hfalse
      rw [hrows] at hrows'
      obtain rfl := Except.ok.inj hrows'
      intro a ha hraw t ht hfirst hlast
      exact (hclear t hfirst hlast).mpr (hall a ha hraw t ht hfirst hlast)

end Honesty

section Silence

def hourStart : Instant := ⟨0, zero_lt_instantCount⟩

def hourEnd : Instant := ⟨3600000000, by decide⟩

/-- Half a minute into the hour. -/
def secondBeat : Instant := ⟨30000000, by decide⟩

def beatAt (atomId : String) (t : Instant) : Atom where
  atomId := atomId
  tStart := isoZ t
  kind := "observation"
  momentId := some "m"

def twoBeats : JsonlMemoryStore where
  settings := defaultMemorySettings
  byId := .ofList [("a", beatAt "a" hourStart), ("b", beatAt "b" secondBeat)]
  ladder := .empty
  dir := ⟨[], .empty⟩

/-- The moment's span ends where its second beat starts, so that the gap behind it holds that start. -/
theorem second_beat_in_gap :
    ∃ pack, sourcePack twoBeats .h1 hourStart hourEnd [] .empty false = .ok pack ∧
      ∃ a ∈ twoBeats.byId.values, RawMoment a ∧ utcOf a.tStart = .ok secondBeat ∧
        (secondBeat, hourEnd) ∈ pack.gaps := by
  have hgaps : (sourcePack twoBeats .h1 hourStart hourEnd [] .empty false).map SourcePack.gaps =
      .ok [(secondBeat, hourEnd)] := by
    decide +kernel
  cases hpack : sourcePack twoBeats .h1 hourStart hourEnd [] .empty false with
  | error e =>
    rw [hpack] at hgaps
    cases hgaps
  | ok pack =>
    rw [hpack] at hgaps
    have hlist : pack.gaps = [(secondBeat, hourEnd)] := Except.ok.inj hgaps
    refine ⟨pack, rfl, beatAt "b" secondBeat, ?_, ⟨?_, ?_⟩, utcOf_isoZ secondBeat, ?_⟩
    · decide +kernel
    · decide
    · decide
    · rw [hlist]
      exact List.mem_singleton.mpr rfl

/-- The same pack: it is not honest, as the second beat is not sheltered. -/
theorem two_beats_honest_iff : ∃ pack,
    sourcePack twoBeats .h1 hourStart hourEnd [] .empty false = .ok pack ∧
    ((∀ a ∈ twoBeats.byId.values, RawMoment a → ∀ t, utcOf a.tStart = .ok t → hourStart ≤ t →
      t < hourEnd → ∀ g ∈ pack.gaps, ¬(g.1 ≤ t ∧ t < g.2)) ↔
    false = true ∨ ∃ rows, rawSources twoBeats hourStart hourEnd = .ok rows ∧
      ∀ a ∈ twoBeats.byId.values, RawMoment a → ∀ t, utcOf a.tStart = .ok t → hourStart ≤ t →
        t < hourEnd → Sheltered rows hourStart hourEnd t) := by
  have hsome : (sourcePack twoBeats .h1 hourStart hourEnd [] .empty false).isOk = true := by
    decide +kernel
  cases hpack : sourcePack twoBeats .h1 hourStart hourEnd [] .empty false with
  | error e =>
    rw [hpack] at hsome
    cases hsome
  | ok pack => exact ⟨pack, rfl, pack_gaps_honest_iff hpack⟩

end Silence

end Ladder
end Elyra
