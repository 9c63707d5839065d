import Elyra.Framework.TopRanked
import Elyra.Memory.LanceStore
import Elyra.Memory.VectorSearch
import Elyra.Memory.LanceVectorsRun
import Mathlib.Data.List.ReduceOption

namespace Elyra.Memory

/-- An `emb_` column. -/
def EmbColumns.vector {Vec : Type} (m : EmbColumns Vec) : Channel → Option Vec
  | .text => m.embText
  | .image => m.embImage
  | .audio => m.embAudio
  | .video => m.embVideo
  | .joint => m.embJoint

/-- The bounds of a search as the texts that are compared. -/
def SearchFilters.bounds (f : SearchFilters) : Except PyErr (Option String × Option String) := do
  let start ← f.tStart.mapM toIsoZ
  let stop ← f.tEnd.mapM toIsoZ
  return (start, stop)

/-- The ready, kind, moment and time filters of both paths. -/
def atomPassesVectorFilters (f : SearchFilters) (bounds : Option String × Option String)
    (a : Atom) : Except PyErr Bool :=
  if a.embeddingStatus ≠ "ready" then .ok false
  else if f.rejects a.kind a.momentId then .ok false
  else do
    let time ← toIsoZ a.tStart
    return !(bounds.1.any fun start => time < start) && !(bounds.2.any fun stop => stop ≤ time)

/-- The order of the hits: the greater score first, then the id. -/
def hitRank {Score : Type} (h : String × Score) : Scoreᵒᵈ ×ₗ String :=
  toLex (OrderDual.toDual h.2, h.1)

namespace LanceMemoryStore

section Search

variable {Vec Query Score : Type} [LinearOrder Score] (cosine : Query → Vec → Option Score)

/-- Ready atoms with a vector of the channel. -/
def readyVectors (s : LanceMemoryStore Vec) (c : Channel) : Nat :=
  s.embById.items.countP fun e =>
    ((s.getAtom e.1).any fun a => a.embeddingStatus = "ready") && (e.2.vector c).isSome

/-- The rows of the table with a vector of the channel. -/
def vectorRows (s : LanceMemoryStore Vec) (c : Channel) : List (LanceRow Vec) :=
  s.table.values.filter fun r => (r.emb.vector c).isSome

/-- The score of a live atom that passes the filters. -/
def hitOf (s : LanceMemoryStore Vec) (q : Query) (f : SearchFilters)
    (bounds : Option String × Option String) (id : String) (vector : Option Vec) :
    Except PyErr (Option (String × Score)) :=
  if id ∈ f.excludeAtomIds then .ok none
  else
    match s.getAtom id with
    | none => .ok none
    | some a => do
      if ← atomPassesVectorFilters f bounds a then
        return vector.bind fun v => (cosine q v).map fun score => (id, score)
      else return none

/-- The cosine over the side map. -/
def searchVectorsPython (s : LanceMemoryStore Vec) (q : Query) (c : Channel) (k : Int)
    (f : SearchFilters) : Except PyErr (List (String × Score)) := do
  let bounds ← f.bounds
  let hits ← s.embById.items.mapM fun e => s.hitOf cosine q f bounds e.1 (e.2.vector c)
  return topRanked hitRank k.toNat hits.reduceOption

/-- The rows asked of the table. -/
def fetchSize (ready k : Nat) : Nat :=
  if ready ≤ max 2000 (k * 50) then max ready k
  else min (max (k * 20) (max k 64)) ready

/-- The post-filter over the rows of an answer of the table. -/
def searchVectorsLance (s : LanceMemoryStore Vec) (answer : List (LanceRow Vec)) (q : Query)
    (c : Channel) (k : Int) (f : SearchFilters) : Except PyErr (List (String × Score)) :=
  if k ≤ 0 then .ok []
  else do
    let bounds ← f.bounds
    let hits ← answer.mapM fun r =>
      if r.atomId = "" then .ok none else s.hitOf cosine q f bounds r.atomId (r.emb.vector c)
    return topRanked hitRank k.toNat hits.reduceOption

/-- How near a row is: its cosine, or nothing where it has none. -/
def nearness (q : Query) (c : Channel) (r : LanceRow Vec) : WithBot Score :=
  (r.emb.vector c).bind (cosine q)

/-- What the table may answer to a search: the rows of smallest distance. -/
def Answers (s : LanceMemoryStore Vec) (q : Query) (c : Channel) (k : Int)
    (answer : List (LanceRow Vec)) : Prop :=
  Nearest (nearness cosine q c) (fetchSize (s.readyVectors c) k.toNat) (s.vectorRows c) answer

end Search
end LanceMemoryStore

open LanceMemoryStore

/-- For the live atoms the side map holds the vectors of the table. -/
structure SideMapAgrees {Vec : Type} (s : LanceMemoryStore Vec) (c : Channel) : Prop where
  keyed : ∀ id row, s.table.get? id = some row → row.atomId = id
  live : ∀ id a, s.getAtom id = some a →
    (s.embById.get? id).bind (fun m => m.vector c) =
      (s.table.get? id).bind fun row => row.emb.vector c

/-- Every row with a vector of the channel is of a loaded atom that is ready. -/
def AllReady {Vec : Type} (s : LanceMemoryStore Vec) (c : Channel) : Prop :=
  ∀ r ∈ s.vectorRows c, r.atomId ≠ "" ∧
    (s.getAtom r.atomId).any fun a => a.embeddingStatus = "ready"

theorem VectorsAgree.sideMapAgrees {Vec : Type} [VectorColumn Vec] {s : LanceMemoryStore Vec}
    {last : String → Option (EmbColumns Vec)} (h : VectorsAgree s last) (c : Channel) :
    SideMapAgrees s c := by
  refine ⟨fun id row hrow => (h.disk id row hrow).1, ?_⟩
  intro id a ha
  obtain ⟨hmap, hdisk⟩ := h.live id a ha
  obtain ⟨row, hrow, hemb⟩ := Option.map_eq_some_iff.mp hdisk
  rw [hmap, hrow]
  show _ = row.emb.vector c
  rw [hemb]
  cases last id with
  | none => cases c <;> rfl
  | some m => rfl

section Rows

variable {α β ε : Type}

/-- A pass over rows raises where the pass over one of them does. -/
theorem mapM_each {f : α → Except ε β} {rows : List α} {hits : List β}
    (h : rows.mapM f = .ok hits) : ∀ x ∈ rows, ∃ o, f x = .ok o := by
  induction rows generalizing hits with
  | nil => simp
  | cons x rows ih =>
    rw [List.mapM_cons] at h
    obtain ⟨o, ho, h⟩ := except_bind_ok h
    obtain ⟨rest, hrest, -⟩ := except_bind_ok h
    intro y hy
    obtain rfl | hy := List.mem_cons.mp hy
    · exact ⟨o, ho⟩
    · exact ih hrest y hy

theorem collected_iff {o : Except ε (Option β)} {h : β} :
    o.toOption.join = some h ↔ o = .ok (some h) := by
  cases o with
  | error e => exact ⟨fun h => (nomatch h), fun h => (nomatch h)⟩
  | ok o => exact ⟨fun h => congrArg Except.ok h, fun h => Except.ok.inj h⟩

theorem mapM_total {f : α → Except ε (Option β)} {rows : List α}
    (h : ∀ x ∈ rows, ∃ o, f x = .ok o) : ∃ hits, rows.mapM f = .ok hits ∧
      hits.reduceOption = rows.filterMap fun x => (f x).toOption.join := by
  induction rows with
  | nil => exact ⟨[], rfl, rfl⟩
  | cons x rows ih =>
    obtain ⟨o, ho⟩ := h x List.mem_cons_self
    obtain ⟨hits, hhits, hreduce⟩ := ih fun y hy => h y (List.mem_cons_of_mem x hy)
    refine ⟨o :: hits, ?_, ?_⟩
    · rw [List.mapM_cons, ho, hhits]
      rfl
    · cases o with
      | none =>
        rw [List.reduceOption_cons_of_none, hreduce, List.filterMap_cons_none]
        rw [ho]
        rfl
      | some y =>
        rw [List.reduceOption_cons_of_some, hreduce, List.filterMap_cons_some]
        rw [ho]
        rfl

end Rows

section Hits

variable {Vec Query Score : Type} {cosine : Query → Vec → Option Score}
  {s : LanceMemoryStore Vec} {q : Query} {f : SearchFilters} {c : Channel} {id : String}
  {bounds : Option String × Option String} {vector : Option Vec}

/-- The filters read the start of the atom. -/
def Examined (s : LanceMemoryStore Vec) (f : SearchFilters) (id : String) (a : Atom) : Prop :=
  id ∉ f.excludeAtomIds ∧ s.getAtom id = some a ∧ a.embeddingStatus = "ready" ∧
    f.rejects a.kind a.momentId = false

theorem hitOf_total (h : ∀ a, Examined s f id a → ∃ iso, toIsoZ a.tStart = .ok iso) :
    ∃ o, s.hitOf cosine q f bounds id vector = .ok o := by
  unfold hitOf
  by_cases hout : id ∈ f.excludeAtomIds
  · exact ⟨none, if_pos hout⟩
  rw [if_neg hout]
  cases ha : s.getAtom id with
  | none => exact ⟨none, rfl⟩
  | some a =>
    simp only
    unfold atomPassesVectorFilters
    by_cases hstatus : a.embeddingStatus = "ready"
    · rw [if_neg (not_not_intro hstatus)]
      cases hreject : f.rejects a.kind a.momentId with
      | true =>
        rw [if_pos rfl]
        exact ⟨none, rfl⟩
      | false =>
        obtain ⟨iso, hiso⟩ := h a ⟨hout, ha, hstatus, hreject⟩
        rw [if_neg Bool.false_ne_true, hiso]
        have hpass (pass : Bool) : ∃ o, (if pass then Except.ok (vector.bind fun v =>
            (cosine q v).map fun score => (id, score)) else .ok none : Except PyErr _) = .ok o := by
          cases pass <;> exact ⟨_, rfl⟩
        exact hpass _
    · rw [if_pos hstatus]
      exact ⟨none, rfl⟩

theorem hitOf_dated {a : Atom} (ha : Examined s f id a) {o : Option (String × Score)}
    (h : s.hitOf cosine q f bounds id vector = .ok o) : ∃ iso, toIsoZ a.tStart = .ok iso := by
  obtain ⟨hout, hatom, hstatus, hreject⟩ := ha
  unfold hitOf at h
  rw [if_neg hout, hatom] at h
  simp only at h
  obtain ⟨pass, hpass, -⟩ := except_bind_ok h
  unfold atomPassesVectorFilters at hpass
  rw [if_neg (not_not_intro hstatus), hreject, if_neg Bool.false_ne_true] at hpass
  obtain ⟨iso, hiso, -⟩ := except_bind_ok hpass
  exact ⟨iso, hiso⟩

/-- A hit is the score of the vector of a live atom. -/
theorem hitOf_some {h : String × Score} (hhit : s.hitOf cosine q f bounds id vector = .ok (some h)) :
    h.1 = id ∧ (∃ a, s.getAtom id = some a) ∧ vector.bind (cosine q) = some h.2 := by
  unfold hitOf at hhit
  by_cases hout : id ∈ f.excludeAtomIds
  · rw [if_pos hout] at hhit
    cases hhit
  rw [if_neg hout] at hhit
  cases ha : s.getAtom id with
  | none =>
    rw [ha] at hhit
    cases hhit
  | some a =>
    rw [ha] at hhit
    simp only at hhit
    obtain ⟨pass, -, hhit⟩ := except_bind_ok hhit
    cases pass with
    | false => cases hhit
    | true =>
      have hvalue := Except.ok.inj hhit
      obtain ⟨v, hv, hscore⟩ := Option.bind_eq_some_iff.mp hvalue
      obtain ⟨score, hcosine, hpair⟩ := Option.map_eq_some_iff.mp hscore
      rw [← hpair, hv]
      exact ⟨rfl, ⟨a, rfl⟩, hcosine⟩

end Hits

section Candidates

variable {Vec Query Score : Type} (cosine : Query → Vec → Option Score)

/-- The scores of the live atoms that pass the filters. -/
def candidates (s : LanceMemoryStore Vec) (q : Query) (c : Channel) (f : SearchFilters)
    (bounds : Option String × Option String) : List (String × Score) :=
  s.embById.items.filterMap fun e => (s.hitOf cosine q f bounds e.1 (e.2.vector c)).toOption.join

variable {cosine} {s : LanceMemoryStore Vec} {q : Query} {c : Channel} {f : SearchFilters}
  {bounds : Option String × Option String}

theorem hitRank_injective {g h : String × Score} (heq : hitRank g = hitRank h) : g = h := by
  have hpair := toLex.injective heq
  exact Prod.ext (Prod.mk.inj hpair).2 (OrderDual.toDual.injective (Prod.mk.inj hpair).1)

theorem mem_candidates {h : String × Score} : h ∈ candidates cosine s q c f bounds ↔
    ∃ id m, s.embById.get? id = some m ∧
      s.hitOf cosine q f bounds id (m.vector c) = .ok (some h) := by
  rw [candidates, List.mem_filterMap]
  constructor
  · rintro ⟨⟨id, m⟩, he, hhit⟩
    exact ⟨id, m, (Dict.get?_eq_some_iff _ id m).mpr he, collected_iff.mp hhit⟩
  · rintro ⟨id, m, hm, hhit⟩
    exact ⟨(id, m), (Dict.get?_eq_some_iff _ id m).mp hm, collected_iff.mpr hhit⟩

/-- Hits of entries under distinct ids are distinct. -/
theorem hits_nodup {α : Type} {rows : List α} {idOf : α → String}
    {hit : α → Except PyErr (Option (String × Score))} (hids : (rows.map idOf).Nodup)
    (hhit : ∀ x ∈ rows, ∀ h, hit x = .ok (some h) → h.1 = idOf x) :
    (rows.filterMap fun x => (hit x).toOption.join).Nodup := by
  have hpairs : rows.Pairwise fun x y => idOf x ≠ idOf y := List.pairwise_map.mp hids
  refine List.pairwise_filterMap.mpr (hpairs.imp_of_mem ?_)
  intro x y hx hy hne g hg h hh heq
  apply hne
  rw [← hhit x hx g (collected_iff.mp hg), ← hhit y hy h (collected_iff.mp hh), heq]

theorem candidates_nodup : (candidates cosine s q c f bounds).Nodup := by
  have hids : (s.embById.items.map fun e => e.1).Nodup := s.embById.nodup
  exact hits_nodup hids fun _ _ _ h => (hitOf_some h).1

/-- A row of the table is the one under its id. -/
theorem mem_vectorRows {Vec : Type} {s : LanceMemoryStore Vec} {c : Channel}
    (hs : SideMapAgrees s c) {r : LanceRow Vec} :
    r ∈ s.vectorRows c ↔ s.table.get? r.atomId = some r ∧ (r.emb.vector c).isSome = true := by
  rw [vectorRows, List.mem_filter, Dict.mem_values]
  constructor
  · rintro ⟨⟨id, hid⟩, hvector⟩
    rw [hs.keyed id r hid]
    exact ⟨hid, hvector⟩
  · rintro ⟨hrow, hvector⟩
    exact ⟨⟨r.atomId, hrow⟩, hvector⟩

theorem vectorRows_ids {Vec : Type} {s : LanceMemoryStore Vec} {c : Channel}
    (hs : SideMapAgrees s c) : ((s.vectorRows c).map LanceRow.atomId).Nodup := by
  have hids : s.table.values.map LanceRow.atomId = s.table.keys := by
    rw [Dict.values, Dict.keys, List.map_map]
    apply List.map_congr_left
    intro e he
    exact hs.keyed e.1 e.2 ((Dict.get?_eq_some_iff s.table e.1 e.2).mpr he)
  have hsub : ((s.vectorRows c).map LanceRow.atomId).Sublist (s.table.values.map LanceRow.atomId) :=
    List.filter_sublist.map LanceRow.atomId
  rw [hids] at hsub
  exact s.table.keys_nodup.sublist hsub

/-- The row of a candidate, as near as its score says. -/
theorem candidate_row (hs : SideMapAgrees s c) {h : String × Score}
    (hh : h ∈ candidates cosine s q c f bounds) :
    ∃ r, r ∈ s.vectorRows c ∧ r.atomId = h.1 ∧ nearness cosine q c r = (h.2 : WithBot Score) ∧
      s.hitOf cosine q f bounds r.atomId (r.emb.vector c) = .ok (some h) := by
  obtain ⟨id, m, hm, hhit⟩ := mem_candidates.mp hh
  obtain ⟨hid, ⟨a, ha⟩, hscore⟩ := hitOf_some hhit
  have hlive := hs.live id a ha
  rw [hm] at hlive
  change m.vector c = _ at hlive
  obtain ⟨v, hv, -⟩ := Option.bind_eq_some_iff.mp hscore
  rw [hv] at hlive
  obtain ⟨r, hr, hrv⟩ := Option.bind_eq_some_iff.mp hlive.symm
  have hrid : r.atomId = id := hs.keyed id r hr
  refine ⟨r, (mem_vectorRows hs).mpr ⟨by rw [hrid]; exact hr, by rw [hrv]; rfl⟩,
    hrid.trans hid.symm, ?_, ?_⟩
  · rw [nearness, hrv, ← hv]
    exact hscore
  · rw [hrid, hrv, ← hv]
    exact hhit

/-- A hit from a row of the table is a candidate. -/
theorem candidate_of_row (hs : SideMapAgrees s c) {r : LanceRow Vec} (hr : r ∈ s.vectorRows c)
    {h : String × Score}
    (hhit : s.hitOf cosine q f bounds r.atomId (r.emb.vector c) = .ok (some h)) :
    h ∈ candidates cosine s q c f bounds := by
  obtain ⟨-, ⟨a, ha⟩, -⟩ := hitOf_some hhit
  obtain ⟨hrow, hvector⟩ := (mem_vectorRows hs).mp hr
  have hlive := hs.live _ a ha
  rw [hrow] at hlive
  change _ = r.emb.vector c at hlive
  obtain ⟨v, hv⟩ := Option.isSome_iff_exists.mp hvector
  rw [hv] at hlive hhit
  obtain ⟨m, hm, hmv⟩ := Option.bind_eq_some_iff.mp hlive
  rw [← hmv] at hhit
  exact mem_candidates.mpr ⟨r.atomId, m, hm, hhit⟩

/-- The score a row of the answer gives. -/
def rowHit (cosine : Query → Vec → Option Score) (s : LanceMemoryStore Vec) (q : Query) (c : Channel)
    (f : SearchFilters) (bounds : Option String × Option String) (r : LanceRow Vec) :
    Except PyErr (Option (String × Score)) :=
  if r.atomId = "" then .ok none else s.hitOf cosine q f bounds r.atomId (r.emb.vector c)

theorem rowHit_some {r : LanceRow Vec} {h : String × Score}
    (hhit : rowHit cosine s q c f bounds r = .ok (some h)) :
    r.atomId ≠ "" ∧ s.hitOf cosine q f bounds r.atomId (r.emb.vector c) = .ok (some h) := by
  unfold rowHit at hhit
  by_cases hid : r.atomId = ""
  · rw [if_pos hid] at hhit
    cases hhit
  · rw [if_neg hid] at hhit
    exact ⟨hid, hhit⟩

/-- The rows of the table can be scored where the times of the side map read. -/
theorem rowHit_total (hs : SideMapAgrees s c)
    (hdated : ∀ id m a, s.embById.get? id = some m → Examined s f id a →
      ∃ iso, toIsoZ a.tStart = .ok iso) {r : LanceRow Vec} (hr : r ∈ s.vectorRows c) :
    ∃ o, rowHit cosine s q c f bounds r = .ok o := by
  unfold rowHit
  by_cases hid : r.atomId = ""
  · exact ⟨none, if_pos hid⟩
  rw [if_neg hid]
  apply hitOf_total
  intro a ha
  obtain ⟨hrow, hvector⟩ := (mem_vectorRows hs).mp hr
  have hlive := hs.live _ a ha.2.1
  rw [hrow] at hlive
  change _ = r.emb.vector c at hlive
  obtain ⟨v, hv⟩ := Option.isSome_iff_exists.mp hvector
  rw [hv] at hlive
  obtain ⟨m, hm, -⟩ := Option.bind_eq_some_iff.mp hlive
  exact hdated r.atomId m a hm ha

end Candidates

section Agree

variable {Vec Query Score : Type} [LinearOrder Score] (cosine : Query → Vec → Option Score)

/-- The rows of the table beside the hit's that are at least as near. -/
def nearRows (s : LanceMemoryStore Vec) (q : Query) (c : Channel) (h : String × Score) : Nat :=
  (s.vectorRows c).countP fun r => r.atomId ≠ h.1 ∧ (h.2 : WithBot Score) ≤ nearness cosine q c r

/-- Both paths return the same list, whatever the table answers. -/
def SameSearch (s : LanceMemoryStore Vec) (q : Query) (c : Channel) (k : Int)
    (f : SearchFilters) : Prop :=
  ∃ hits, s.searchVectorsPython cosine q c k f = .ok hits ∧
    ∀ answer, s.Answers cosine q c k answer →
      s.searchVectorsLance cosine answer q c k f = .ok hits

/-- The times read, and the rows fetched reach every candidate that fewer than `k` others
outrank. -/
structure FetchReaches (s : LanceMemoryStore Vec) (q : Query) (c : Channel) (k : Int)
    (f : SearchFilters) : Prop where
  timed : ∃ bounds, f.bounds = .ok bounds
  dated : ∀ id m a, s.embById.get? id = some m → Examined s f id a →
    ∃ iso, toIsoZ a.tStart = .ok iso
  reached : ∀ bounds, f.bounds = .ok bounds → ∀ h ∈ candidates cosine s q c f bounds,
    (candidates cosine s q c f bounds).countP (fun g => hitRank g < hitRank h) < k.toNat →
      h.1 ≠ "" ∧ nearRows cosine s q c h < max (s.readyVectors c) k.toNat

variable {cosine} {s : LanceMemoryStore Vec} {q : Query} {c : Channel} {k : Int} {f : SearchFilters}
  {bounds : Option String × Option String}

/-- Every answer of the table holds the row of a candidate exactly when few rows are as near. -/
theorem always_fetched_iff (hs : SideMapAgrees s c) {r : LanceRow Vec} (hr : r ∈ s.vectorRows c)
    {h : String × Score} (hid : r.atomId = h.1)
    (hnear : nearness cosine q c r = (h.2 : WithBot Score)) {n : Nat} :
    (∀ answer, Nearest (nearness cosine q c) n (s.vectorRows c) answer → r ∈ answer) ↔
      nearRows cosine s q c h < n := by
  classical
  have hids := vectorRows_ids hs
  have hcount : (rivals (nearness cosine q c) (s.vectorRows c) r).length =
      nearRows cosine s q c h := by
    rw [rivals, nearRows, List.countP_eq_length_filter]
    congr 1
    apply List.filter_congr
    intro u hu
    have hsame : u = r ↔ u.atomId = h.1 := by
      rw [← hid]
      constructor
      · exact fun heq => congrArg LanceRow.atomId heq
      · intro heq
        have hurow := ((mem_vectorRows hs).mp hu).1
        rw [heq, ((mem_vectorRows hs).mp hr).1] at hurow
        exact (Option.some.inj hurow).symm
    rw [hnear]
    simp only [ne_eq, hsame]
  rw [← hcount]
  exact always_nearest_iff hids.of_map hr

theorem searchVectorsPython_ok (hbounds : f.bounds = .ok bounds)
    (hdated : ∀ id m a, s.embById.get? id = some m → Examined s f id a →
      ∃ iso, toIsoZ a.tStart = .ok iso) : s.searchVectorsPython cosine q c k f =
      .ok (topRanked hitRank k.toNat (candidates cosine s q c f bounds)) := by
  have hall : ∀ e ∈ s.embById.items, ∃ o,
      s.hitOf cosine q f bounds e.1 (e.2.vector c) = .ok o := by
    intro e he
    exact hitOf_total fun a ha => hdated e.1 e.2 a ((Dict.get?_eq_some_iff _ e.1 e.2).mpr he) ha
  obtain ⟨hits, hhits, hreduce⟩ := mapM_total hall
  rw [searchVectorsPython, hbounds]
  show ((s.embById.items.mapM fun e => s.hitOf cosine q f bounds e.1 (e.2.vector c)) >>=
    fun hits => (Except.ok (topRanked hitRank k.toNat hits.reduceOption) : Except PyErr _)) = _
  rw [hhits]
  show Except.ok (topRanked hitRank k.toNat hits.reduceOption) = _
  rw [hreduce]
  rfl

/-- The reference search returns only where the times read. -/
theorem searchVectorsPython_reads {hits : List (String × Score)}
    (h : s.searchVectorsPython cosine q c k f = .ok hits) :
    (∃ bounds, f.bounds = .ok bounds) ∧ ∀ id m a, s.embById.get? id = some m →
      Examined s f id a → ∃ iso, toIsoZ a.tStart = .ok iso := by
  obtain ⟨bounds, hbounds, h⟩ := except_bind_ok h
  obtain ⟨collected, hcollected, -⟩ := except_bind_ok h
  refine ⟨⟨bounds, hbounds⟩, ?_⟩
  intro id m a hm ha
  obtain ⟨o, ho⟩ := mapM_each hcollected (id, m) ((Dict.get?_eq_some_iff _ id m).mp hm)
  exact hitOf_dated ha ho

theorem searchVectorsLance_ok (hk : 0 < k) (hbounds : f.bounds = .ok bounds)
    {answer : List (LanceRow Vec)}
    (hrows : ∀ r ∈ answer, ∃ o, rowHit cosine s q c f bounds r = .ok o) :
    s.searchVectorsLance cosine answer q c k f = .ok (topRanked hitRank k.toNat
      (answer.filterMap fun r => (rowHit cosine s q c f bounds r).toOption.join)) := by
  obtain ⟨hits, hhits, hreduce⟩ := mapM_total hrows
  rw [searchVectorsLance, if_neg (not_le.mpr hk), hbounds]
  show (answer.mapM (rowHit cosine s q c f bounds) >>= fun hits =>
    (Except.ok (topRanked hitRank k.toNat hits.reduceOption) : Except PyErr _)) = _
  rw [hhits]
  show Except.ok (topRanked hitRank k.toNat hits.reduceOption) = _
  rw [hreduce]

/-- A hit of the native search comes from a row of the answer. -/
theorem searchVectorsLance_row (hk : 0 < k) {answer : List (LanceRow Vec)}
    {hits : List (String × Score)}
    (hrun : s.searchVectorsLance cosine answer q c k f = .ok hits) {h : String × Score}
    (hh : h ∈ hits) : ∃ r ∈ answer, r.atomId ≠ "" ∧ h.1 = r.atomId := by
  unfold searchVectorsLance at hrun
  rw [if_neg (not_le.mpr hk)] at hrun
  obtain ⟨bounds, -, hrun⟩ := except_bind_ok hrun
  obtain ⟨all, hall, hrun⟩ := except_bind_ok hrun
  obtain ⟨collected, hcollected, hreduce⟩ := mapM_total (mapM_each hall)
  have hsame : all = collected := Except.ok.inj (hall.symm.trans hcollected)
  rw [← Except.ok.inj hrun, hsame] at hh
  have hin := mem_of_topRanked hh
  rw [hreduce] at hin
  obtain ⟨r, hr, hhit⟩ := List.mem_filterMap.mp hin
  obtain ⟨hid, hof⟩ := rowHit_some (collected_iff.mp hhit)
  exact ⟨r, hr, hid, (hitOf_some hof).1⟩

theorem AllReady.length_le (hs : SideMapAgrees s c) (hready : AllReady s c) :
    (s.vectorRows c).length ≤ s.readyVectors c := by
  have hsub : (s.vectorRows c).map LanceRow.atomId ⊆ (s.embById.items.filter fun e =>
      ((s.getAtom e.1).any fun a => a.embeddingStatus = "ready") &&
        (e.2.vector c).isSome).map Prod.fst := by
    intro id hid
    obtain ⟨r, hr, rfl⟩ := List.mem_map.mp hid
    obtain ⟨-, hstatus⟩ := hready r hr
    obtain ⟨a, ha, -⟩ := (Option.any_eq_true _ _).mp hstatus
    obtain ⟨hrow, hvector⟩ := (mem_vectorRows hs).mp hr
    have hlive := hs.live r.atomId a ha
    rw [hrow] at hlive
    change _ = r.emb.vector c at hlive
    obtain ⟨v, hv⟩ := Option.isSome_iff_exists.mp hvector
    rw [hv] at hlive
    obtain ⟨m, hm, hmv⟩ := Option.bind_eq_some_iff.mp hlive
    refine List.mem_map.mpr ⟨(r.atomId, m), List.mem_filter.mpr ?_, rfl⟩
    refine ⟨(Dict.get?_eq_some_iff _ r.atomId m).mp hm, ?_⟩
    rw [hstatus, hmv]
    rfl
  have hlength := ((vectorRows_ids hs).subperm hsub).length_le
  rwa [List.length_map, List.length_map, ← List.countP_eq_length_filter] at hlength

theorem AllReady.reaches (hs : SideMapAgrees s c) (hready : AllReady s c)
    {h : String × Score} (hh : h ∈ candidates cosine s q c f bounds) :
    h.1 ≠ "" ∧ nearRows cosine s q c h < s.readyVectors c := by
  obtain ⟨r, hr, hid, -⟩ := candidate_row hs hh
  refine ⟨hid ▸ (hready r hr).1, lt_of_lt_of_le ?_ (hready.length_le hs)⟩
  rw [nearRows, List.countP_lt_length_iff]
  exact ⟨r, hr, by simp [hid]⟩

theorem fetchSize_small (hsmall : (s.readyVectors c : Int) ≤ max 2000 (50 * k)) :
    fetchSize (s.readyVectors c) k.toNat = max (s.readyVectors c) k.toNat := by
  apply if_pos
  omega

theorem SameSearch.reaches (hs : SideMapAgrees s c)
    (hsmall : (s.readyVectors c : Int) ≤ max 2000 (50 * k))
    (hsearch : SameSearch cosine s q c k f) : FetchReaches cosine s q c k f := by
  obtain ⟨hits, hpython, hlance⟩ := hsearch
  obtain ⟨htimed, hdated⟩ := searchVectorsPython_reads hpython
  refine ⟨htimed, hdated, ?_⟩
  intro bounds hbounds h hh hfew
  have hk : 0 < k := by omega
  have htop : h ∈ hits := by
    rw [searchVectorsPython_ok hbounds hdated] at hpython
    rw [← Except.ok.inj hpython]
    exact (mem_topRanked_iff candidates_nodup (fun _ _ _ _ => hitRank_injective) hh).mpr hfew
  obtain ⟨r, hr, hid, hnear, -⟩ := candidate_row hs hh
  -- Whatever the table answers, the hit comes from a row of the answer.
  have hfetched : ∀ answer, s.Answers cosine q c k answer → r.atomId ≠ "" ∧ r ∈ answer := by
    intro answer hanswer
    obtain ⟨u, hu, hsome, hhu⟩ := searchVectorsLance_row hk (hlance answer hanswer) htop
    have hsame : u = r := by
      have hurow := ((mem_vectorRows hs).mp (hanswer.subset u hu)).1
      rw [← hhu, ← hid, ((mem_vectorRows hs).mp hr).1] at hurow
      exact (Option.some.inj hurow).symm
    rw [← hsame]
    exact ⟨hsome, hu⟩
  rw [← fetchSize_small hsmall, ← always_fetched_iff hs hr hid hnear]
  refine ⟨?_, fun answer hanswer => (hfetched answer hanswer).2⟩
  obtain ⟨answer, hanswer⟩ := exists_nearest (nearness cosine q c)
    (fetchSize (s.readyVectors c) k.toNat) (vectorRows_ids hs).of_map
  rw [← hid]
  exact (hfetched answer hanswer).1

theorem FetchReaches.same (hs : SideMapAgrees s c)
    (hsmall : (s.readyVectors c : Int) ≤ max 2000 (50 * k))
    (hfetched : FetchReaches cosine s q c k f) : SameSearch cosine s q c k f := by
  obtain ⟨⟨bounds, hbounds⟩, hdated, hreached⟩ := hfetched
  refine ⟨_, searchVectorsPython_ok hbounds hdated, ?_⟩
  intro answer hanswer
  by_cases hk : 0 < k
  · have hrows : ∀ r ∈ answer, ∃ o, rowHit cosine s q c f bounds r = .ok o :=
      fun r hr => rowHit_total hs hdated (hanswer.subset r hr)
    have hids : (answer.map LanceRow.atomId).Nodup := by
      apply List.Nodup.map_on _ hanswer.nodup
      intro r hr u hu heq
      have hrow := ((mem_vectorRows hs).mp (hanswer.subset r hr)).1
      rw [heq, ((mem_vectorRows hs).mp (hanswer.subset u hu)).1] at hrow
      exact (Option.some.inj hrow).symm
    rw [searchVectorsLance_ok hk hbounds hrows]
    refine congrArg Except.ok (topRanked_part candidates_nodup ?_ ?_
      (fun _ _ _ _ => hitRank_injective) ?_)
    · exact hits_nodup hids fun r _ h hhit => (hitOf_some (rowHit_some hhit).2).1
    · intro h hh
      obtain ⟨r, hr, hhit⟩ := List.mem_filterMap.mp hh
      exact candidate_of_row hs (hanswer.subset r hr) (rowHit_some (collected_iff.mp hhit)).2
    · intro h htop
      have hh := mem_of_topRanked htop
      have hfew := (mem_topRanked_iff candidates_nodup (fun _ _ _ _ => hitRank_injective) hh).mp
        htop
      obtain ⟨hsome, hnear⟩ := hreached bounds hbounds h hh hfew
      obtain ⟨r, hr, hid, hscore, hhit⟩ := candidate_row hs hh
      rw [← fetchSize_small hsmall, ← always_fetched_iff hs hr hid hscore] at hnear
      refine List.mem_filterMap.mpr ⟨r, hnear answer hanswer, collected_iff.mpr ?_⟩
      rw [rowHit, if_neg (by rw [hid]; exact hsome)]
      exact hhit
  · have hzero : k.toNat = 0 := by omega
    rw [searchVectorsLance, if_pos (not_lt.mp hk), hzero]
    rfl

/-- With few ready vectors of the channel both paths return the same list exactly where the rows
fetched reach the best candidates. -/
theorem native_search_agrees_iff (hs : SideMapAgrees s c)
    (hsmall : (s.readyVectors c : Int) ≤ max 2000 (50 * k)) :
    SameSearch cosine s q c k f ↔ FetchReaches cosine s q c k f :=
  ⟨fun h => h.reaches hs hsmall, fun h => h.same hs hsmall⟩

end Agree

section Reachable

variable {Vec : Type} [VectorColumn Vec] [PyCoerce]

/-- In the states of a run of steady calls the side map agrees with the table. -/
theorem run_sideMapAgrees (settings : MemorySettings) (dir : MemoryDir) (vectorSchemaOk : Bool)
    (calls : List (LanceCall Vec))
    (hc : Along stepLance (fun p call => LanceSteady p.1 call)
      (openEmpty settings dir vectorSchemaOk, fun _ => none) calls) (c : Channel) :
    SideMapAgrees (run stepLance (openEmpty settings dir vectorSchemaOk, fun _ => none) calls).1
      c := by
  have hagree := Along.invariant
    (fun p : LanceMemoryStore Vec × (String → Option (EmbColumns Vec)) => VectorsAgree p.1 p.2)
    (fun _ _ hcall hp => hp.step hcall) _ calls hc (openEmpty_agrees settings dir vectorSchemaOk)
  exact hagree.sideMapAgrees c

/-- After a run of steady calls both paths return the same list, where few vectors are ready, only
ready atoms have vectors and the times read. -/
theorem native_search_agrees_after {Query Score : Type} [LinearOrder Score]
    (cosine : Query → Vec → Option Score) (settings : MemorySettings) (dir : MemoryDir)
    (vectorSchemaOk : Bool) (calls : List (LanceCall Vec))
    (hc : Along stepLance (fun p call => LanceSteady p.1 call)
      (openEmpty settings dir vectorSchemaOk, fun _ => none) calls)
    (q : Query) (c : Channel) (k : Int) (f : SearchFilters) :
    let s := (run stepLance (openEmpty settings dir vectorSchemaOk, fun _ => none) calls).1
    (s.readyVectors c : Int) ≤ max 2000 (50 * k) → AllReady s c →
      (∃ bounds, f.bounds = .ok bounds) →
      (∀ id m a, s.embById.get? id = some m → Examined s f id a →
        ∃ iso, toIsoZ a.tStart = .ok iso) → SameSearch cosine s q c k f := by
  intro s hsmall hready htimed hdated
  have hs := run_sideMapAgrees settings dir vectorSchemaOk calls hc c
  apply FetchReaches.same hs hsmall
  refine ⟨htimed, hdated, ?_⟩
  intro bounds _ h hh _
  obtain ⟨hne, hnear⟩ := hready.reaches hs hh
  exact ⟨hne, lt_of_lt_of_le hnear (le_max_left _ _)⟩

end Reachable

section Sample

/-- The cosine of two unit vectors of the plane. -/
def planeCosine (q v : Rat × Rat) : Option Rat := some (q.1 * v.1 + q.2 * v.2)

def planeVector (id : String) (v : Rat × Rat) : EmbeddingSet (Rat × Rat) :=
  { atomId := id, embText := some v, modelId := "m", encodedAt := "2026-01-01T00:00:00Z" }

def planeAtom (id status : String) : Atom :=
  { lanceAtom with atomId := id, embeddingStatus := status }

/-- Two atoms get vectors, and the nearer one is put again as pending. -/
def pendingAgain : List (LanceCall (Rat × Rat)) :=
  [.putAtom (planeAtom "a" "none") false, .upsertVectors "a" (planeVector "a" (3 / 5, 4 / 5)) false,
    .putAtom (planeAtom "b" "none") false, .upsertVectors "b" (planeVector "b" (1, 0)) false,
    .putAtom (planeAtom "b" "pending") false]

def planeStore : LanceMemoryStore (Rat × Rat) :=
  (@run _ _ (@stepLance _ exactColumn basicCoerce) (openEmpty defaultMemorySettings ⟨[], .empty⟩ true,
    fun _ => none) pendingAgain).1

theorem sideMapAgrees_planeStore : SideMapAgrees planeStore .text := by
  have hrows : ∀ e ∈ planeStore.table.items, e.2.atomId = e.1 := by
    decide +kernel
  have hlive : ∀ e ∈ planeStore.indexes.byId.items,
      (planeStore.embById.get? e.1).bind (fun m => m.vector .text) =
        (planeStore.table.get? e.1).bind fun row => row.emb.vector .text := by
    decide +kernel
  refine ⟨?_, ?_⟩
  · exact fun id row hrow => hrows (id, row) ((Dict.get?_eq_some_iff _ id row).mp hrow)
  · exact fun id a ha => hlive (id, a) ((Dict.get?_eq_some_iff _ id a).mp ha)

theorem native_search_agrees_iff_sample :
    SameSearch planeCosine planeStore (1, 0) .text 2 {} ↔
      FetchReaches planeCosine planeStore (1, 0) .text 2 {} :=
  native_search_agrees_iff sideMapAgrees_planeStore (by decide +kernel)

/-- The one row fetched is the nearer, pending one. -/
theorem pending_row_exhausts_fetch :
    ¬ ∀ (q : Rat × Rat) (c : Channel) (k : Int) (f : SearchFilters),
      (planeStore.readyVectors c : Int) ≤ max 2000 (50 * k) →
        SameSearch planeCosine planeStore q c k f := by
  intro h
  have hsmall : (planeStore.readyVectors .text : Int) ≤ max 2000 (50 * 1) := by
    decide +kernel
  have hreaches := (h (1, 0) .text 1 {} hsmall).reaches sideMapAgrees_planeStore hsmall
  have hmany : ∃ g ∈ candidates planeCosine planeStore (1, 0) .text {} (none, none),
      (candidates planeCosine planeStore (1, 0) .text {} (none, none)).countP
          (fun g' => hitRank g' < hitRank g) < (1 : Int).toNat ∧
        max (planeStore.readyVectors .text) (1 : Int).toNat ≤
          nearRows planeCosine planeStore (1, 0) .text g := by
    decide +kernel
  obtain ⟨g, hg, hfew, hfull⟩ := hmany
  have hreached := (hreaches.reached (none, none) rfl g hg hfew).2
  exact absurd hreached (Nat.not_lt_of_le hfull)

attribute [local instance] exactColumn basicCoerce

/-- Three atoms get vectors, of which one is deleted. -/
def planeCalls : List (LanceCall (Rat × Rat)) :=
  [.putAtom (planeAtom "a" "none") false, .upsertVectors "a" (planeVector "a" (1, 0)) false,
    .putAtom (planeAtom "b" "none") false, .upsertVectors "b" (planeVector "b" (0, 1)) false,
    .putAtom (planeAtom "c" "none") false, .upsertVectors "c" (planeVector "c" (-1, 0)) false,
    .deleteAtom "c" false]

def planeStart : LanceMemoryStore (Rat × Rat) × (String → Option (EmbColumns (Rat × Rat))) :=
  (openEmpty defaultMemorySettings ⟨[], .empty⟩ true, fun _ => none)

/-- The rows of the table after them. -/
def planeRows : List (LanceRow (Rat × Rat)) :=
  (run stepLance planeStart planeCalls).1.table.values

/-- The table is opened again, which writes the joint copies. -/
def reopenedCalls : List (LanceCall (Rat × Rat)) :=
  planeCalls ++ [.reopen planeRows 10 fun _ => false]

theorem versionsRead_of_items {s : LanceMemoryStore (Rat × Rat)}
    (h : ∀ e ∈ s.indexes.byId.items, e.2.version = .ok 0) : VersionsRead s :=
  fun id a ha => ⟨0, h (id, a) ((Dict.get?_eq_some_iff _ id a).mp ha)⟩

theorem planeRows_versions : ∀ row ∈ planeRows, ∀ a, atomFromRow row = .ok a →
    VersionReads a := by
  have hall : ∀ row ∈ planeRows,
      (atomFromRow row).toOption.all (fun a => a.version = .ok 0) = true := by
    decide +kernel
  intro row hrow a ha
  have hrow := hall row hrow
  rw [ha] at hrow
  exact ⟨0, of_decide_eq_true hrow⟩

theorem planeCalls_steady : Along stepLance (fun p call => LanceSteady p.1 call) planeStart
    planeCalls := by
  refine ⟨trivial, ?_, trivial, ?_, trivial, ?_, ?_, trivial⟩
  · exact fun _ => ⟨fun h => (nomatch h), rfl, versionsRead_of_items (by decide +kernel)⟩
  · exact fun _ => ⟨fun h => (nomatch h), rfl, versionsRead_of_items (by decide +kernel)⟩
  · exact fun _ => ⟨fun h => (nomatch h), rfl, versionsRead_of_items (by decide +kernel)⟩
  · exact fun h => (nomatch h)

theorem reopenedCalls_steady : Along stepLance (fun p call => LanceSteady p.1 call) planeStart
    reopenedCalls := by
  rw [reopenedCalls, along_append]
  refine ⟨planeCalls_steady, ⟨?_, planeRows_versions⟩, trivial⟩
  rw [planeRows]

def reopenedStore : LanceMemoryStore (Rat × Rat) := (run stepLance planeStart reopenedCalls).1

theorem reopenedStore_eq : reopenedStore = (run stepLance
    (openEmpty defaultMemorySettings ⟨[], .empty⟩ true, fun _ => none) reopenedCalls).1 := by
  rw [reopenedStore, planeStart]

theorem dated_of_items {s : LanceMemoryStore (Rat × Rat)} {f : SearchFilters}
    (h : ∀ e ∈ s.indexes.byId.items, (toIsoZ e.2.tStart).isOk = true) :
    ∀ id m a, s.embById.get? id = some m → Examined s f id a →
      ∃ iso, toIsoZ a.tStart = .ok iso := by
  rintro id m a - ⟨-, ha, -, -⟩
  have hok := h (id, a) ((Dict.get?_eq_some_iff _ id a).mp ha)
  cases ht : toIsoZ a.tStart with
  | ok iso => exact ⟨iso, rfl⟩
  | error e =>
    rw [ht] at hok
    cases hok

theorem reopened_dated : ∀ e ∈ reopenedStore.indexes.byId.items,
    (toIsoZ e.2.tStart).isOk = true := by
  decide +kernel

theorem reopened_ready : AllReady reopenedStore .text := by
  unfold AllReady
  decide +kernel

theorem reopened_few : (reopenedStore.readyVectors .text : Int) ≤ max 2000 (50 * 2) := by
  decide +kernel

/-- The two atoms that are left, in the order of their cosines. -/
theorem native_search_agrees_after_sample :
    SameSearch planeCosine reopenedStore (3 / 5, 4 / 5) .text 2 { kinds := some ["observation"] } ∧
      reopenedStore.searchVectorsPython planeCosine (3 / 5, 4 / 5) .text 2
        { kinds := some ["observation"] } = .ok [("b", 4 / 5), ("a", 3 / 5)] := by
  constructor
  · have hfew := reopened_few
    have hready := reopened_ready
    have hdated := reopened_dated
    rw [reopenedStore_eq] at hfew hready hdated ⊢
    exact native_search_agrees_after planeCosine defaultMemorySettings ⟨[], .empty⟩ true
      reopenedCalls reopenedCalls_steady (3 / 5, 4 / 5) .text 2 { kinds := some ["observation"] }
      hfew hready ⟨_, rfl⟩ (dated_of_items hdated)
  · decide +kernel

end Sample
end Elyra.Memory
