import Elyra.Framework.TwoOrders
import Elyra.Memory.PutSpec
import Elyra.Memory.RangeQueries

namespace Elyra.Memory

/-- The instant an atom starts at, if it has one. -/
def startOf (a : Atom) : Instant :=
  match utcOf a.tStart with
  | .ok t => t
  | .error _ => ⟨0, zero_lt_instantCount⟩

/-- The atom has a start on datetime's calendar in UTC. -/
def HasStart (a : Atom) : Prop := ∃ t, utcOf a.tStart = .ok t

def timeKey (a : Atom) : Instant ×ₗ String := toLex (startOf a, a.atomId)

/-- The order of the texts of the starts, where a whole second comes after its fractions. -/
def textKey (a : Atom) : Nat ×ₗ String := toLex ((startOf a).textRank, a.atomId)

def inTime (start stop : Instant) (a : Atom) : Bool := start ≤ startOf a && startOf a < stop

def inText (start stop : Instant) (a : Atom) : Bool :=
  start.textRank ≤ (startOf a).textRank && (startOf a).textRank < stop.textRank

/-- The first `limit` of the rows; a limit below zero gives none. -/
def firstRows (limit : Option Int) (rows : List Atom) : List Atom :=
  match limit with
  | none => rows
  | some n => rows.take n.toNat

namespace JsonlMemoryStore

/-- The atoms in `[start, stop)` that pass the filters, oldest first. -/
def timeRows (s : JsonlMemoryStore) (start stop : Instant) (kinds : Option (List String))
    (excludeMomentId : Option String) : List Atom :=
  sortBy timeKey <| s.byId.values.filter fun a =>
    inTime start stop a && passes kinds excludeMomentId a

/-- The same by the texts. -/
def textRows (s : JsonlMemoryStore) (start stop : Instant) (kinds : Option (List String))
    (excludeMomentId : Option String) : List Atom :=
  sortBy textKey <| s.byId.values.filter fun a =>
    inText start stop a && passes kinds excludeMomentId a

/-- What a range query is to return. -/
def exactRange (s : JsonlMemoryStore) (start stop : Instant) (kinds : Option (List String))
    (excludeMomentId : Option String) (limit : Option Int) : List Atom :=
  firstRows limit (s.timeRows start stop kinds excludeMomentId)

end JsonlMemoryStore

open JsonlMemoryStore

section Rows

variable {s : JsonlMemoryStore}

theorem utcOf_startOf {a : Atom} (h : HasStart a) : utcOf a.tStart = .ok (startOf a) := by
  obtain ⟨t, ht⟩ := h
  rw [startOf, ht]

theorem startKey_hasStart {a : Atom} (h : HasStart a) :
    startKey a = .ok (toLex (isoZ (startOf a), a.atomId)) := by
  rw [startKey, toIsoZ, utcOf_startOf h]
  rfl

theorem hasStart_of_startKey {a : Atom} {k : String ×ₗ String} (h : startKey a = .ok k) :
    HasStart a := by
  obtain ⟨iso, hiso, -⟩ := except_bind_ok h
  rw [toIsoZ] at hiso
  cases hutc : utcOf a.tStart with
  | ok t => exact ⟨t, hutc⟩
  | error e => rw [hutc] at hiso; cases hiso

theorem Keyed.values_inj (h : Keyed s) {a b : Atom} (ha : a ∈ s.byId.values)
    (hb : b ∈ s.byId.values) (hid : a.atomId = b.atomId) : a = b := by
  obtain ⟨i, hi⟩ := (Dict.mem_values _ _).mp ha
  obtain ⟨j, hj⟩ := (Dict.mem_values _ _).mp hb
  have hij : i = j := (h i a hi).symm.trans (hid.trans (h j b hj))
  rw [hij, hj] at hi
  exact (Option.some.inj hi).symm

theorem Keyed.values_nodup (h : Keyed s) : s.byId.values.Nodup := by
  have hids := h.ids_nodup
  exact List.Nodup.of_map _ hids

/-- Rows sorted by a key that tells the atoms of a store apart. -/
theorem ascending_sortBy {β : Type} [LinearOrder β] (h : Keyed s) (key : Atom → β)
    (hkey : ∀ a b, key a = key b → a.atomId = b.atomId) (p : Atom → Bool) :
    Ascending key (sortBy key (s.byId.values.filter p)) := by
  have hnodup : (sortBy key (s.byId.values.filter p)).Nodup :=
    (sortBy_perm key _).nodup_iff.mpr (h.values_nodup.filter p)
  have hsorted := pairwise_sortBy key (s.byId.values.filter p)
  refine List.Pairwise.imp_of_mem ?_ (List.Pairwise.and hsorted hnodup)
  intro a b ha hb hab
  refine lt_of_le_of_ne hab.1 fun heq => hab.2 ?_
  rw [mem_sortBy] at ha hb
  exact h.values_inj (List.mem_of_mem_filter ha) (List.mem_of_mem_filter hb) (hkey a b heq)

theorem atomId_of_timeKey (a b : Atom) (h : timeKey a = timeKey b) : a.atomId = b.atomId :=
  congrArg Prod.snd (toLex.injective h)

theorem atomId_of_textKey (a b : Atom) (h : textKey a = textKey b) : a.atomId = b.atomId :=
  congrArg Prod.snd (toLex.injective h)

theorem textKey_lt_iff {a b : Atom} :
    textKey a < textKey b ↔ (toLex (isoZ (startOf a), a.atomId) : String ×ₗ String) <
      toLex (isoZ (startOf b), b.atomId) := by
  rw [textKey, textKey, Prod.Lex.toLex_lt_toLex, Prod.Lex.toLex_lt_toLex, isoZ_lt]
  have heq : (startOf a).textRank = (startOf b).textRank ↔
      isoZ (startOf a) = isoZ (startOf b) := by
    constructor
    · intro h
      rw [Instant.textRank_injective h]
    · intro h
      obtain hlt | heq | hgt := Nat.lt_trichotomy (startOf a).textRank (startOf b).textRank
      · have hlt' := isoZ_lt_of_textRank_lt _ _ hlt
        rw [h] at hlt'
        exact absurd hlt' (lt_irrefl _)
      · exact heq
      · have hgt' := isoZ_lt_of_textRank_lt _ _ hgt
        rw [h] at hgt'
        exact absurd hgt' (lt_irrefl _)
  rw [heq]

variable {start stop : Instant} {kinds : Option (List String)} {excludeMomentId : Option String}
  {limit : Option Int}

theorem untilLimit_map {α β : Type} (f : α → β) (limit : Option Int) (rows : List α) :
    (untilLimit limit rows).map f = untilLimit limit (rows.map f) := by
  cases limit with
  | none => rfl
  | some n => exact List.map_take

/-- A range query goes by the texts of the starts. -/
theorem listRange_eq (h : Keyed s) (hstarts : ∀ a ∈ s.byId.values, HasStart a) :
    s.listRange (isoZ start) (isoZ stop) kinds excludeMomentId limit =
      .ok (untilLimit limit (s.textRows start stop kinds excludeMomentId)) := by
  obtain ⟨sorted, hsorted⟩ := sortKeyed_total s.byId.values
    fun a ha => ⟨_, startKey_hasStart (hstarts a ha)⟩
  obtain ⟨hperm, hkeys⟩ := sortKeyed_spec _ sorted hsorted
  have hkey : ∀ p ∈ sorted, p.1 = toLex (isoZ (startOf p.2), p.2.atomId) := by
    intro p hp
    have hmem : p.2 ∈ s.byId.values := hperm.mem_iff.mp (List.mem_map_of_mem hp)
    exact (Except.ok.inj ((startKey_hasStart (hstarts p.2 hmem)).symm.trans (hkeys p hp))).symm
  have hfilter : (sorted.filter fun p => ¬p.1.1 < isoZ start ∧ p.1.1 < isoZ stop ∧
      passes kinds excludeMomentId p.2).map Prod.snd =
      (sorted.map Prod.snd).filter fun a =>
        inText start stop a && passes kinds excludeMomentId a := by
    rw [List.filter_map]
    congr 1
    apply List.filter_congr
    intro p hp
    have hfst : p.1.1 = isoZ (startOf p.2) := congrArg Prod.fst (hkey p hp)
    rw [Function.comp_apply, hfst, inText, Bool.eq_iff_iff]
    simp only [decide_eq_true_eq, Bool.and_eq_true, isoZ_lt, not_lt, and_assoc]
  have hrows : (sorted.filter fun p => ¬p.1.1 < isoZ start ∧ p.1.1 < isoZ stop ∧
      passes kinds excludeMomentId p.2).map Prod.snd =
      s.textRows start stop kinds excludeMomentId := by
    rw [hfilter, textRows]
    have hpairs := sortKeyed_pairwise hsorted
    have hle : (sorted.map Prod.snd).Pairwise fun a b => textKey a ≤ textKey b := by
      refine List.Pairwise.imp_of_mem ?_ hpairs
      intro a b ha hb hab
      have hkeysLe := hab _ _ (startKey_hasStart (hstarts a (hperm.mem_iff.mp ha)))
        (startKey_hasStart (hstarts b (hperm.mem_iff.mp hb)))
      exact not_lt.mp fun hlt => not_lt.mpr hkeysLe (textKey_lt_iff.mp hlt)
    refine List.Perm.eq_of_pairwise ?_ (hle.sublist List.filter_sublist)
      (pairwise_sortBy textKey _) ((hperm.filter _).trans (sortBy_perm textKey _).symm)
    intro a b ha hb hab hba
    have haMem := hperm.mem_iff.mp (List.mem_of_mem_filter ha)
    rw [mem_sortBy] at hb
    exact h.values_inj haMem (List.mem_of_mem_filter hb)
      (atomId_of_textKey a b (le_antisymm hab hba))
  rw [listRange, toIsoZ_isoZ, toIsoZ_isoZ, hsorted]
  show Except.ok _ = _
  rw [untilLimit_map, hrows]

theorem hasStart_of_listRange {listed : List Atom}
    (h : s.listRange (isoZ start) (isoZ stop) kinds excludeMomentId limit = .ok listed) :
    ∀ a ∈ s.byId.values, HasStart a := by
  rw [listRange, toIsoZ_isoZ, toIsoZ_isoZ] at h
  obtain ⟨sorted, hsorted, -⟩ := except_bind_ok (m := sortKeyed startKey s.byId.values) h
  intro a ha
  obtain ⟨k, hk, -⟩ := sortKeyed_keys _ sorted hsorted a ha
  exact hasStart_of_startKey hk

end Rows

section Exact

variable {s : JsonlMemoryStore}

/-- Each row of the answer is in the range by its text, and what comes before it by its text is in
the interval and comes before it in time. When the answer is not full, nothing else is in the range
by its text. -/
def TextsFit (s : JsonlMemoryStore) (start stop : Instant) (kinds : Option (List String))
    (excludeMomentId : Option String) (limit : Option Int) : Prop :=
  let answer := s.exactRange start stop kinds excludeMomentId limit
  (∀ a ∈ answer, inText start stop a ∧
    ∀ b ∈ s.byId.values, inText start stop b → passes kinds excludeMomentId b →
      textKey b < textKey a → inTime start stop b ∧ timeKey b < timeKey a) ∧
  ((∀ n, limit = some n → answer.length < n.toNat) →
    ∀ b ∈ s.byId.values, inText start stop b → passes kinds excludeMomentId b → b ∈ answer)

/-- The limit is positive, or nothing is in the range by its text. -/
def LimitFits (s : JsonlMemoryStore) (start stop : Instant) (kinds : Option (List String))
    (excludeMomentId : Option String) (limit : Option Int) : Prop :=
  ∀ n, limit = some n → n ≤ 0 → ∀ b ∈ s.byId.values, inText start stop b →
    passes kinds excludeMomentId b = false

variable {start stop : Instant} {kinds : Option (List String)} {excludeMomentId : Option String}
  {limit : Option Int}

theorem mem_textRows {a : Atom} : a ∈ s.textRows start stop kinds excludeMomentId ↔
    a ∈ s.byId.values ∧ inText start stop a = true ∧ passes kinds excludeMomentId a = true := by
  rw [textRows, mem_sortBy, List.mem_filter, Bool.and_eq_true]

theorem mem_timeRows {a : Atom} : a ∈ s.timeRows start stop kinds excludeMomentId ↔
    a ∈ s.byId.values ∧ inTime start stop a = true ∧ passes kinds excludeMomentId a = true := by
  rw [timeRows, mem_sortBy, List.mem_filter, Bool.and_eq_true]

theorem mem_of_firstRows {rows : List Atom} {a : Atom} (h : a ∈ firstRows limit rows) :
    a ∈ rows := by
  cases limit with
  | none => exact h
  | some n => exact List.mem_of_mem_take h

/-- Two lists of rows by the two orders have the same first rows. -/
theorem firstRows_eq_iff {texts times : List Atom} (htexts : Ascending textKey texts)
    (htimes : Ascending timeKey times) :
    firstRows limit texts = firstRows limit times ↔
      (∀ a ∈ firstRows limit times, a ∈ texts ∧
        ∀ b ∈ texts, textKey b < textKey a → b ∈ times ∧ timeKey b < timeKey a) ∧
      ((∀ n, limit = some n → (firstRows limit times).length < n.toNat) →
        ∀ b ∈ texts, b ∈ firstRows limit times) := by
  cases limit with
  | none =>
    rw [firstRows, firstRows, eq_iff_of_ascending htexts htimes]
    constructor
    · rintro ⟨hfirst, hall⟩
      exact ⟨fun a ha => ⟨(hfirst a ha).1, fun b hb hlt => ⟨hall b hb, (hfirst a ha).2 b hb hlt⟩⟩,
        fun _ => hall⟩
    · rintro ⟨hfirst, hall⟩
      exact ⟨fun a ha => ⟨(hfirst a ha).1, fun b hb hlt => ((hfirst a ha).2 b hb hlt).2⟩,
        hall fun n hn => nomatch hn⟩
  | some n =>
    rw [firstRows, firstRows, take_eq_take_iff htexts htimes]
    refine and_congr Iff.rfl (imp_congr ?_ Iff.rfl)
    constructor
    · intro hshort m hm
      rwa [← Option.some.inj hm]
    · exact fun hshort => hshort n rfl

theorem firstRows_eq_iff_fit (h : Keyed s) :
    firstRows limit (s.textRows start stop kinds excludeMomentId) =
        s.exactRange start stop kinds excludeMomentId limit ↔
      TextsFit s start stop kinds excludeMomentId limit := by
  have htexts : Ascending textKey (s.textRows start stop kinds excludeMomentId) :=
    ascending_sortBy h textKey atomId_of_textKey _
  have htimes : Ascending timeKey (s.timeRows start stop kinds excludeMomentId) :=
    ascending_sortBy h timeKey atomId_of_timeKey _
  rw [exactRange, firstRows_eq_iff htexts htimes, TextsFit, exactRange]
  have hanswer {a : Atom}
      (ha : a ∈ firstRows limit (s.timeRows start stop kinds excludeMomentId)) :
      a ∈ s.byId.values ∧ passes kinds excludeMomentId a = true := by
    obtain ⟨hmem, -, hpasses⟩ := mem_timeRows.mp (mem_of_firstRows ha)
    exact ⟨hmem, hpasses⟩
  constructor
  · rintro ⟨hfirst, hall⟩
    refine ⟨fun a ha => ⟨(mem_textRows.mp (hfirst a ha).1).2.1, ?_⟩, ?_⟩
    · intro b hb htext hpasses hlt
      obtain ⟨hmem, hbefore⟩ := (hfirst a ha).2 b (mem_textRows.mpr ⟨hb, htext, hpasses⟩) hlt
      exact ⟨(mem_timeRows.mp hmem).2.1, hbefore⟩
    · intro hshort b hb htext hpasses
      exact hall hshort b (mem_textRows.mpr ⟨hb, htext, hpasses⟩)
  · rintro ⟨hfirst, hall⟩
    refine ⟨fun a ha => ⟨?_, ?_⟩, ?_⟩
    · obtain ⟨hmem, hpasses⟩ := hanswer ha
      exact mem_textRows.mpr ⟨hmem, (hfirst a ha).1, hpasses⟩
    · intro b hb hlt
      obtain ⟨hmem, htext, hpasses⟩ := mem_textRows.mp hb
      obtain ⟨htime, hbefore⟩ := (hfirst a ha).2 b hmem htext hpasses hlt
      exact ⟨mem_timeRows.mpr ⟨hmem, htime, hpasses⟩, hbefore⟩
    · intro hshort b hb
      obtain ⟨hmem, htext, hpasses⟩ := mem_textRows.mp hb
      exact hall hshort b hmem htext hpasses

/-- The limit is compared after a row was added, so it is at least one. -/
theorem untilLimit_eq_iff (h : Keyed s) :
    untilLimit limit (s.textRows start stop kinds excludeMomentId) =
        s.exactRange start stop kinds excludeMomentId limit ↔
      LimitFits s start stop kinds excludeMomentId limit ∧
        TextsFit s start stop kinds excludeMomentId limit := by
  rw [← firstRows_eq_iff_fit h]
  cases limit with
  | none =>
    exact ⟨fun heq => ⟨fun n hn => (nomatch hn), heq⟩, And.right⟩
  | some n =>
    by_cases hn : n ≤ 0
    · have hzero : n.toNat = 0 := by omega
      rw [exactRange, firstRows, firstRows, untilLimit, hzero, List.take_zero, List.take_zero,
        Nat.max_eq_left (Nat.zero_le 1)]
      have hempty : LimitFits s start stop kinds excludeMomentId (some n) ↔
          s.textRows start stop kinds excludeMomentId = [] := by
        rw [List.eq_nil_iff_forall_not_mem]
        constructor
        · intro hfits b hb
          obtain ⟨hmem, htext, hpasses⟩ := mem_textRows.mp hb
          rw [hfits n rfl hn b hmem htext] at hpasses
          cases hpasses
        · intro hnone m _ _ b hb htext
          exact eq_false_of_ne_true fun hpasses =>
            hnone b (mem_textRows.mpr ⟨hb, htext, hpasses⟩)
      rw [hempty, List.take_eq_nil_iff]
      exact ⟨fun heq => ⟨heq.resolve_left Nat.one_ne_zero, rfl⟩, fun hboth => .inr hboth.1⟩
    · have hmax : max 1 n.toNat = n.toNat := Nat.max_eq_right (by omega)
      rw [untilLimit, hmax]
      refine ⟨fun heq => ⟨fun m hm hle => ?_, heq⟩, And.right⟩
      obtain rfl := Option.some.inj hm
      exact absurd hle hn

end Exact

section Hours

variable {s : JsonlMemoryStore}

/-- Each atom is listed in exactly the hours that hold its start. -/
def HoursPartition (s : JsonlMemoryStore) : Prop :=
  ∀ t start stop, windowBounds .h1 t = .ok (start, stop) →
    ∃ listed, s.listRange (isoZ start) (isoZ stop) none none none = .ok listed ∧
      ∀ a ∈ s.byId.values, a ∈ listed ↔ inTime start stop a = true

/-- No atom starts with a fraction in the first second of an hour. -/
def NoHourFraction (s : JsonlMemoryStore) : Prop :=
  ∀ a ∈ s.byId.values, (startOf a).second % 3600 = 0 → (startOf a).micro = 0

theorem hour_bounds {t start stop : Instant} (h : windowBounds .h1 t = .ok (start, stop)) :
    start.val = t.val / 3600000000 * 3600000000 ∧ stop.val = start.val + 3600000000 := by
  unfold windowBounds at h
  split_ifs at h with hstop
  obtain ⟨rfl, rfl⟩ := Prod.mk.inj (Except.ok.inj h)
  exact ⟨rfl, rfl⟩

theorem hour_of_lt {t : Instant} (h : t.val / 3600000000 * 3600000000 + 3600000000 < instantCount) :
    ∃ start stop, windowBounds .h1 t = .ok (start, stop) :=
  ⟨_, _, dif_pos h⟩

theorem whole_of_val {t : Instant} {k : Nat} (h : t.val = k * 3600000000) :
    t.micro = 0 ∧ t.second % 3600 = 0 := by
  unfold Instant.micro Instant.second
  omega

/-- Between whole hours the texts tell the times of a start that has no fraction in the first second
of an hour. -/
theorem inText_hour {start stop : Instant} {a : Atom} {j k : Nat}
    (hstart : start.val = j * 3600000000) (hstop : stop.val = k * 3600000000)
    (hwhole : (startOf a).second % 3600 = 0 → (startOf a).micro = 0) :
    inText start stop a = inTime start stop a := by
  obtain ⟨hstartMicro, hstartSecond⟩ := whole_of_val hstart
  obtain ⟨hstopMicro, hstopSecond⟩ := whole_of_val hstop
  have hlow : (startOf a).textRank < start.textRank ↔ startOf a < start := by
    apply textRank_lt_iff
    intro hsame
    rw [← hsame] at hstartSecond
    exact iff_of_true (hwhole hstartSecond) hstartMicro
  have hhigh : (startOf a).textRank < stop.textRank ↔ startOf a < stop := by
    apply textRank_lt_iff
    intro hsame
    rw [← hsame] at hstopSecond
    exact iff_of_true (hwhole hstopSecond) hstopMicro
  rw [inText, inTime, Bool.eq_iff_iff]
  simp only [Bool.and_eq_true, decide_eq_true_eq]
  rw [← not_lt, hlow, hhigh, not_lt]

theorem hoursPartition_iff (h : Keyed s) :
    HoursPartition s ↔ (∀ a ∈ s.byId.values, HasStart a) ∧ NoHourFraction s := by
  constructor
  · intro hpartition
    have hstarts : ∀ a ∈ s.byId.values, HasStart a := by
      obtain ⟨start, stop, hbounds⟩ := hour_of_lt (t := ⟨0, by decide⟩) (by decide)
      obtain ⟨listed, hlisted, -⟩ := hpartition _ _ _ hbounds
      exact hasStart_of_listRange hlisted
    refine ⟨hstarts, fun a ha hsecond => ?_⟩
    by_contra hmicro
    have hlist {t start stop : Instant} (hbounds : windowBounds .h1 t = .ok (start, stop)) :
        inText start stop a = inTime start stop a := by
      obtain ⟨listed, hlisted, hmem⟩ := hpartition _ _ _ hbounds
      rw [listRange_eq h hstarts] at hlisted
      obtain rfl := Except.ok.inj hlisted
      have hiff := hmem a ha
      rw [untilLimit, mem_textRows] at hiff
      rw [Bool.eq_iff_iff, ← hiff]
      exact ⟨fun htext => ⟨ha, htext, rfl⟩, fun hrow => hrow.2.1⟩
    have hval := (startOf a).val_eq
    have hmicroLt := (startOf a).micro_lt
    have hbound := (startOf a).isLt
    by_cases hfirst : (startOf a).second = 0
    · obtain ⟨start, stop, hbounds⟩ := hour_of_lt (t := startOf a) (by
        unfold instantCount
        omega)
      obtain ⟨hstart, hstop⟩ := hour_bounds hbounds
      have hsame := hlist hbounds
      have hin : inTime start stop a = true := by
        rw [inTime, Bool.and_eq_true, decide_eq_true_eq, decide_eq_true_eq, Fin.le_def, Fin.lt_def]
        omega
      have hout : inText start stop a = false := by
        rw [inText, Bool.and_eq_false_iff]
        left
        rw [decide_eq_false_iff_not, not_le]
        unfold Instant.textRank Instant.micro Instant.second at *
        split_ifs <;> omega
      rw [hin, hout] at hsame
      cases hsame
    · have hlast : (startOf a).second * 1000000 - 1 < instantCount := by
        rw [hval] at hbound
        omega
      obtain ⟨start, stop, hbounds⟩ := hour_of_lt (t := ⟨_, hlast⟩) (by
        rw [hval] at hbound
        dsimp only
        omega)
      obtain ⟨hstart, hstop⟩ := hour_bounds hbounds
      dsimp only at hstart hstop
      have hstopVal : stop.val = (startOf a).second * 1000000 := by omega
      have hsame := hlist hbounds
      have hout : inTime start stop a = false := by
        rw [inTime, Bool.and_eq_false_iff]
        right
        rw [decide_eq_false_iff_not, not_lt, Fin.le_def]
        omega
      have hstartSecond : start.second + 3600 = (startOf a).second := by
        unfold Instant.second at *
        omega
      have hstopSecond : stop.second = (startOf a).second ∧ stop.micro = 0 := by
        unfold Instant.second Instant.micro at *
        omega
      have hin : inText start stop a = true := by
        have hstartMicro := start.micro_lt
        rw [inText, Bool.and_eq_true, decide_eq_true_eq, decide_eq_true_eq]
        unfold Instant.textRank
        rw [hstopSecond.1, if_pos hstopSecond.2, if_neg hmicro]
        refine ⟨?_, by omega⟩
        split_ifs <;> omega
      rw [hin, hout] at hsame
      cases hsame
  · rintro ⟨hstarts, hwhole⟩ t start stop hbounds
    obtain ⟨hstart, hstop⟩ := hour_bounds hbounds
    refine ⟨_, listRange_eq h hstarts, fun a ha => ?_⟩
    have hnext : stop.val = (t.val / 3600000000 + 1) * 3600000000 := by
      rw [hstop, hstart, Nat.succ_mul]
    have hsame := inText_hour hstart hnext (hwhole a ha)
    rw [untilLimit, mem_textRows, hsame]
    exact ⟨fun hrow => hrow.2.1, fun htime => ⟨ha, htime, rfl⟩⟩

/-- `list_range` returns the first atoms of the interval in order exactly when the texts of their
starts fit, and the hours partition the atoms exactly when none starts with a fraction in the first
second of an hour. -/
theorem range_query_exact_iff (h : Keyed s) :
    (∀ start stop kinds excludeMomentId limit,
      s.listRange (isoZ start) (isoZ stop) kinds excludeMomentId limit =
          .ok (s.exactRange start stop kinds excludeMomentId limit) ↔
        (∀ a ∈ s.byId.values, HasStart a) ∧ LimitFits s start stop kinds excludeMomentId limit ∧
          TextsFit s start stop kinds excludeMomentId limit) ∧
      (HoursPartition s ↔ (∀ a ∈ s.byId.values, HasStart a) ∧ NoHourFraction s) := by
  refine ⟨fun start stop kinds excludeMomentId limit => ?_, hoursPartition_iff h⟩
  rw [← untilLimit_eq_iff h]
  constructor
  · intro hexact
    have hstarts := hasStart_of_listRange hexact
    rw [listRange_eq h hstarts] at hexact
    exact ⟨hstarts, Except.ok.inj hexact⟩
  · rintro ⟨hstarts, hrows⟩
    rw [listRange_eq h hstarts, hrows]

end Hours

section Sample

def halfSecond : Instant := ⟨500000, by decide⟩

/-- A row that starts half a second into an hour. -/
def halfSecondRow : Atom where
  atomId := "a"
  tStart := isoZ halfSecond
  kind := "observation"

def halfSecondStore : JsonlMemoryStore :=
  ⟨defaultMemorySettings, .ofList [("a", halfSecondRow)], .empty, ⟨[], .empty⟩⟩

theorem keyed_halfSecondStore : Keyed halfSecondStore := by
  intro id a ha
  obtain heq | hnil := List.mem_cons.mp ((Dict.get?_eq_some_iff _ id a).mp ha)
  · obtain ⟨rfl, rfl⟩ := Prod.mk.inj heq
    rfl
  · exact absurd hnil List.not_mem_nil

theorem range_query_exact_sample :
    (∀ start stop kinds excludeMomentId limit,
      halfSecondStore.listRange (isoZ start) (isoZ stop) kinds excludeMomentId limit =
          .ok (halfSecondStore.exactRange start stop kinds excludeMomentId limit) ↔
        (∀ a ∈ halfSecondStore.byId.values, HasStart a) ∧
          LimitFits halfSecondStore start stop kinds excludeMomentId limit ∧
          TextsFit halfSecondStore start stop kinds excludeMomentId limit) ∧
      (HoursPartition halfSecondStore ↔
        (∀ a ∈ halfSecondStore.byId.values, HasStart a) ∧ NoHourFraction halfSecondStore) :=
  range_query_exact_iff keyed_halfSecondStore

/-- A start half a second into an hour is listed in the hour before. -/
theorem half_second_in_the_hour_before : ¬∀ s : JsonlMemoryStore, Keyed s →
    (∀ a ∈ s.byId.values, HasStart a) →
      (∀ start stop kinds excludeMomentId limit,
        s.listRange (isoZ start) (isoZ stop) kinds excludeMomentId limit =
          .ok (s.exactRange start stop kinds excludeMomentId limit)) ∧ HoursPartition s := by
  intro hall
  have hmem : halfSecondRow ∈ halfSecondStore.byId.values := List.mem_cons_self
  have hutc : utcOf halfSecondRow.tStart = .ok halfSecond := utcOf_isoZ halfSecond
  have hstarts : ∀ a ∈ halfSecondStore.byId.values, HasStart a := by
    intro a ha
    obtain rfl := List.mem_singleton.mp ha
    exact ⟨halfSecond, hutc⟩
  have hpartition := (hall halfSecondStore keyed_halfSecondStore hstarts).2
  have hwhole := ((hoursPartition_iff keyed_halfSecondStore).mp hpartition).2 _ hmem
  have hstart : startOf halfSecondRow = halfSecond := by
    rw [startOf, hutc]
  rw [hstart] at hwhole
  exact absurd (hwhole (by decide)) (by decide)

end Sample

end Elyra.Memory
