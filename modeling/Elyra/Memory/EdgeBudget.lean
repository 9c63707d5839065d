import Elyra.Memory.EdgeStores

namespace Elyra.Memory

open EdgeIndex EdgeStore

/-- The settings the outgoing budgets read. -/
structure EdgeSettings where
  edgeCreatedWithMax : Int := 100
  edgeRecallsMax : Int := 8
  edgeMaxPerAtom : Int := 150
  edgeRetargetEnabled : Bool := true
  edgeRetargetEnsureVertical : Bool := true

def createdWith : String := "created_with"

def budgetFifoKinds : List String := [createdWith, "recalls", "in_moment", "has_channel"]

/-- `int(setting or default)`. -/
def capOr (n default : Int) : Int := if n = 0 then default else n

/-- Outgoing cap of a kind, or none if it is uncapped. -/
def kindOutgoingCap (kind : String) (cfg : EdgeSettings) : Option Int :=
  if kind = createdWith then some (capOr cfg.edgeCreatedWithMax 100)
  else if kind = "recalls" then some (capOr cfg.edgeRecallsMax 8)
  else if kind = "in_moment" then some 1
  else if kind = "has_channel" then some 5
  else none

def totalOutgoingCap (cfg : EdgeSettings) : Int := capOr cfg.edgeMaxPerAtom 150

structure PositiveCaps (cfg : EdgeSettings) : Prop where
  createdWith : 0 < cfg.edgeCreatedWithMax
  recalls : 0 < cfg.edgeRecallsMax
  total : 0 < cfg.edgeMaxPerAtom

/-- The oldest edges, so many that at most `keep` remain. -/
def selectFifoOverflow (edges : List DurableEdge) (keep : Int) : List DurableEdge :=
  if edges.length ≤ keep.toNat then []
  else (sortBy DurableEdge.fifoSortKey edges).take (edges.length - keep.toNat)

def overflowIds (edges : List DurableEdge) (keep : Int) : List String :=
  (selectFifoOverflow edges keep).map DurableEdge.edgeId

def without (edges : List DurableEdge) (ids : List String) : List DurableEdge :=
  edges.filter (fun e => e.edgeId ∉ ids)

def ofEdgeKind (edges : List DurableEdge) (kind : String) : List DurableEdge :=
  edges.filter (fun e => e.edgeKind = kind)

/-- The ids the per-kind windows drop. -/
def kindDrops (cfg : EdgeSettings) (outgoing : List DurableEdge) : List String :=
  (outgoing.map DurableEdge.edgeKind).dedup.flatMap fun kind =>
    match kindOutgoingCap kind cfg with
    | none => []
    | some cap => overflowIds (ofEdgeKind outgoing kind) cap

/-- Of the budgeted kinds, what goes so that the other kinds fit. -/
def fifoDrops (total : Int) (remaining : List DurableEdge) : List String :=
  let fifoPool := remaining.filter (fun e => e.edgeKind ∈ budgetFifoKinds)
  let other := remaining.filter (fun e => e.edgeKind ∉ budgetFifoKinds)
  overflowIds fifoPool (max 0 (total - other.length))

/-- The ids the hard cap drops. -/
def totalDrops (total : Int) (remaining : List DurableEdge) : List String :=
  if (remaining.length : Int) ≤ total then []
  else
    let first := fifoDrops total remaining
    let still := without remaining first
    if (still.length : Int) ≤ total then first else first ++ overflowIds still total

/-- The edges to drop for the kind caps and the total cap. -/
def planBudgetDrops (outgoing : List DurableEdge) (cfg : EdgeSettings) : List DurableEdge :=
  let dropIds := kindDrops cfg outgoing
  let allIds := dropIds ++ totalDrops (totalOutgoingCap cfg) (without outgoing dropIds)
  outgoing.filter (fun e => e.edgeId ∈ allIds)

section Plan

theorem without_append (edges : List DurableEdge) (a b : List String) :
    without edges (a ++ b) = without (without edges a) b := by
  simp only [without, List.filter_filter, List.mem_append, not_or]
  congr 1
  funext e
  simp [Bool.and_comm]

theorem without_sublist (edges : List DurableEdge) (ids : List String) :
    (without edges ids).Sublist edges := List.filter_sublist

theorem ids_nodup_of_sublist {xs ys : List DurableEdge} (h : xs.Sublist ys)
    (hn : (ys.map DurableEdge.edgeId).Nodup) : (xs.map DurableEdge.edgeId).Nodup :=
  hn.sublist (h.map DurableEdge.edgeId)

/-- What survives a FIFO window: in FIFO order, the newest `keep`. -/
theorem without_overflow (edges : List DurableEdge) (keep : Int)
    (hs : edges.Pairwise (fun a b => a.fifoSortKey ≤ b.fifoSortKey))
    (hn : (edges.map DurableEdge.edgeId).Nodup) :
    without edges (overflowIds edges keep) = edges.drop (edges.length - keep.toNat) := by
  have hsort : sortBy DurableEdge.fifoSortKey edges = edges := by
    apply fifo_ext
    · exact pairwise_sortBy _ edges
    · exact hs
    · rw [((sortBy_perm DurableEdge.fifoSortKey edges).map DurableEdge.edgeId).nodup_iff]
      exact hn
    · exact hn
    · exact mem_sortBy _ edges
  have hover : overflowIds edges keep =
      (edges.take (edges.length - keep.toNat)).map DurableEdge.edgeId := by
    unfold overflowIds selectFifoOverflow
    split_ifs with h
    · have hzero : edges.length - keep.toNat = 0 := by omega
      rw [hzero]
      rfl
    · rw [hsort]
  rw [hover]
  generalize edges.length - keep.toNat = n
  have hsplit := List.take_append_drop n edges
  have hids : ((edges.take n).map DurableEdge.edgeId ++
      (edges.drop n).map DurableEdge.edgeId).Nodup := by
    rw [← List.map_append, hsplit]
    exact hn
  rw [List.nodup_append] at hids
  have htake : without (edges.take n) ((edges.take n).map DurableEdge.edgeId) = [] := by
    rw [without, List.filter_eq_nil_iff]
    intro e he
    simp only [decide_eq_true_eq, not_not]
    exact List.mem_map_of_mem he
  have hdrop : without (edges.drop n) ((edges.take n).map DurableEdge.edgeId) = edges.drop n := by
    rw [without, List.filter_eq_self]
    intro e he
    simp only [decide_eq_true_eq]
    intro hm
    exact hids.2.2 e.edgeId hm e.edgeId (List.mem_map_of_mem he) rfl
  calc without edges ((edges.take n).map DurableEdge.edgeId)
      = without (edges.take n ++ edges.drop n) ((edges.take n).map DurableEdge.edgeId) := by
        rw [hsplit]
    _ = edges.drop n := by
        rw [without, List.filter_append]
        exact (congrArg₂ (· ++ ·) htake hdrop).trans (List.nil_append _)

theorem length_without_overflow (edges : List DurableEdge) (keep : Int)
    (hs : edges.Pairwise (fun a b => a.fifoSortKey ≤ b.fifoSortKey))
    (hn : (edges.map DurableEdge.edgeId).Nodup) :
    (without edges (overflowIds edges keep)).length ≤ keep.toNat := by
  rw [without_overflow edges keep hs hn, List.length_drop]
  omega

theorem mem_kindDrops (cfg : EdgeSettings) (outgoing : List DurableEdge) (kind : String)
    (cap : Int) (hcap : kindOutgoingCap kind cfg = some cap)
    (hn : (outgoing.map DurableEdge.edgeId).Nodup) (e : DurableEdge) (he : e ∈ outgoing)
    (hk : e.edgeKind = kind) :
    e.edgeId ∈ kindDrops cfg outgoing ↔ e.edgeId ∈ overflowIds (ofEdgeKind outgoing kind) cap := by
  have hover : ∀ k c, ∀ id ∈ overflowIds (ofEdgeKind outgoing k) c,
      ∃ f ∈ outgoing, f.edgeId = id ∧ f.edgeKind = k := by
    intro k c id hid
    obtain ⟨f, hf, rfl⟩ := List.mem_map.mp hid
    have hmem : f ∈ ofEdgeKind outgoing k := by
      unfold selectFifoOverflow at hf
      split_ifs at hf
      · cases hf
      · exact (mem_sortBy _ _ f).mp (List.mem_of_mem_take hf)
    rw [ofEdgeKind, List.mem_filter] at hmem
    exact ⟨f, hmem.1, rfl, by simpa using hmem.2⟩
  rw [kindDrops, List.mem_flatMap]
  constructor
  · intro hex
    obtain ⟨k, hkm, hid⟩ := hex
    cases hc : kindOutgoingCap k cfg with
    | none =>
      rw [hc] at hid
      cases hid
    | some c =>
      rw [hc] at hid
      obtain ⟨f, hf, hfid, hfk⟩ := hover k c _ hid
      have hfe : f = e := List.inj_on_of_nodup_map hn hf he hfid
      rw [hfe, hk] at hfk
      subst hfk
      rw [hcap] at hc
      rw [Option.some.inj hc]
      exact hid
  · intro hid
    refine ⟨kind, ?_, ?_⟩
    · rw [List.mem_dedup, ← hk]
      exact List.mem_map_of_mem he
    · rw [hcap]
      exact hid

/-- The kind windows leave of a capped kind the newest `cap`. -/
theorem kind_without_kindDrops (cfg : EdgeSettings) (outgoing : List DurableEdge) (kind : String)
    (cap : Int) (hcap : kindOutgoingCap kind cfg = some cap)
    (hs : outgoing.Pairwise (fun a b => a.fifoSortKey ≤ b.fifoSortKey))
    (hn : (outgoing.map DurableEdge.edgeId).Nodup) :
    ofEdgeKind (without outgoing (kindDrops cfg outgoing)) kind =
      (ofEdgeKind outgoing kind).drop ((ofEdgeKind outgoing kind).length - cap.toNat) := by
  have hsub : (ofEdgeKind outgoing kind).Sublist outgoing := List.filter_sublist
  rw [← without_overflow _ cap (hs.sublist hsub) (ids_nodup_of_sublist hsub hn)]
  simp only [ofEdgeKind, without, List.filter_filter]
  apply List.filter_congr
  intro e he
  by_cases hk : e.edgeKind = kind
  · have hm := mem_kindDrops cfg outgoing kind cap hcap hn e he hk
    simp only [hk, decide_true, Bool.true_and, Bool.and_true]
    exact decide_eq_decide.mpr (not_congr hm)
  · simp [hk]

theorem length_without_totalDrops (total : Int) (remaining : List DurableEdge)
    (hs : remaining.Pairwise (fun a b => a.fifoSortKey ≤ b.fifoSortKey))
    (hn : (remaining.map DurableEdge.edgeId).Nodup) (hpos : 0 < total) :
    ((without remaining (totalDrops total remaining)).length : Int) ≤ total := by
  unfold totalDrops
  by_cases hfits : (remaining.length : Int) ≤ total
  · rw [if_pos hfits]
    have hle := (without_sublist remaining []).length_le
    omega
  · rw [if_neg hfits]
    dsimp only
    by_cases hstill : ((without remaining (fifoDrops total remaining)).length : Int) ≤ total
    · rw [if_pos hstill]
      exact hstill
    · rw [if_neg hstill, without_append]
      have hsub := without_sublist remaining (fifoDrops total remaining)
      have hle := length_without_overflow _ total (hs.sublist hsub) (ids_nodup_of_sublist hsub hn)
      omega

/-- Outgoing edges within the total cap and within each kind's cap. -/
def WithinCaps (cfg : EdgeSettings) (outgoing : List DurableEdge) : Prop :=
  (outgoing.length : Int) ≤ totalOutgoingCap cfg ∧
    ∀ kind cap, kindOutgoingCap kind cfg = some cap →
      ((ofEdgeKind outgoing kind).length : Int) ≤ cap

theorem total_pos {cfg : EdgeSettings} (hcaps : PositiveCaps cfg) : 0 < totalOutgoingCap cfg := by
  have h := hcaps.total
  unfold totalOutgoingCap capOr
  split_ifs <;> omega

theorem cap_pos {cfg : EdgeSettings} (hcaps : PositiveCaps cfg) (kind : String) (cap : Int)
    (h : kindOutgoingCap kind cfg = some cap) : 0 < cap := by
  have h1 := hcaps.createdWith
  have h2 := hcaps.recalls
  unfold kindOutgoingCap capOr at h
  split_ifs at h <;> (rw [← Option.some.inj h]; omega)

/-- What is left after the planned drops. -/
theorem without_plan (outgoing : List DurableEdge) (cfg : EdgeSettings) :
    without outgoing ((planBudgetDrops outgoing cfg).map DurableEdge.edgeId) =
      without (without outgoing (kindDrops cfg outgoing))
        (totalDrops (totalOutgoingCap cfg) (without outgoing (kindDrops cfg outgoing))) := by
  rw [← without_append]
  apply List.filter_congr
  intro e he
  apply decide_eq_decide.mpr
  apply not_congr
  rw [List.mem_map]
  constructor
  · intro hex
    obtain ⟨f, hf, hfid⟩ := hex
    rw [planBudgetDrops, List.mem_filter] at hf
    rw [← hfid]
    simpa using hf.2
  · intro hm
    refine ⟨e, ?_, rfl⟩
    rw [planBudgetDrops, List.mem_filter]
    exact ⟨he, by simpa using hm⟩

/-- The plan brings any outgoing list within the caps. -/
theorem plan_within (outgoing : List DurableEdge) (cfg : EdgeSettings) (hcaps : PositiveCaps cfg)
    (hs : outgoing.Pairwise (fun a b => a.fifoSortKey ≤ b.fifoSortKey))
    (hn : (outgoing.map DurableEdge.edgeId).Nodup) :
    WithinCaps cfg
      (without outgoing ((planBudgetDrops outgoing cfg).map DurableEdge.edgeId)) := by
  have hsub := without_sublist outgoing (kindDrops cfg outgoing)
  rw [without_plan]
  constructor
  · exact length_without_totalDrops _ _ (hs.sublist hsub) (ids_nodup_of_sublist hsub hn)
      (total_pos hcaps)
  · intro kind cap hcap
    have hpos := cap_pos hcaps kind cap hcap
    have hkind := kind_without_kindDrops cfg outgoing kind cap hcap hs hn
    have hle : (ofEdgeKind (without (without outgoing (kindDrops cfg outgoing)) (totalDrops
        (totalOutgoingCap cfg) (without outgoing (kindDrops cfg outgoing)))) kind).length ≤
        (ofEdgeKind (without outgoing (kindDrops cfg outgoing)) kind).length :=
      ((without_sublist _ _).filter _).length_le
    rw [hkind, List.length_drop] at hle
    omega

/-- When the kind windows bring the list within the total cap, nothing else is dropped. -/
theorem plan_kind_only (outgoing : List DurableEdge) (cfg : EdgeSettings) (kind : String)
    (cap : Int) (hcap : kindOutgoingCap kind cfg = some cap)
    (hs : outgoing.Pairwise (fun a b => a.fifoSortKey ≤ b.fifoSortKey))
    (hn : (outgoing.map DurableEdge.edgeId).Nodup)
    (hfits : ((without outgoing (kindDrops cfg outgoing)).length : Int) ≤ totalOutgoingCap cfg) :
    ofEdgeKind (without outgoing ((planBudgetDrops outgoing cfg).map DurableEdge.edgeId)) kind =
      (ofEdgeKind outgoing kind).drop ((ofEdgeKind outgoing kind).length - cap.toNat) := by
  rw [without_plan, totalDrops, if_pos hfits, ← kind_without_kindDrops cfg outgoing kind cap hcap hs hn]
  congr 1
  rw [without, List.filter_eq_self]
  simp

end Plan

section Enforce

variable {δ : Type} [EdgeDisk δ]

/-- Delete each edge; the ones that were there are returned. -/
def dropEach : List DurableEdge → Py (EdgeStore δ) (List DurableEdge)
  | [] => pure []
  | edge :: edges => do
    let deleted ← deleteEdge edge.edgeId
    let dropped ← dropEach edges
    return if deleted then edge :: dropped else dropped

/-- The drops of `enforce_outgoing_budgets`, without its retargeting. -/
def dropOverBudget (src : String) (cfg : EdgeSettings) : Py (EdgeStore δ) (List DurableEdge) := do
  let s ← get
  dropEach (sortBy DurableEdge.fifoSortKey (planBudgetDrops (s.index.outgoing src) cfg))

theorem dropEach_spec (edges : List DurableEdge) (s : EdgeStore δ) (h : SoundIndex s.index) :
    ∃ dropped t, dropEach edges s = .ok dropped t ∧ SoundIndex t.index ∧ t.stamps = s.stamps ∧
      (∀ e ∈ dropped, e ∈ edges) ∧
      ∀ j, t.index.find j = if j ∈ edges.map DurableEdge.edgeId then none else s.index.find j := by
  induction edges generalizing s with
  | nil => exact ⟨[], s, rfl, h, rfl, by simp, fun j => by simp⟩
  | cons e edges ih =>
    cases hf : s.index.find e.edgeId with
    | none =>
      obtain ⟨dropped, t, ht, hsound, hstamps, hsub, hfind⟩ := ih s h
      have hdel : deleteEdge e.edgeId s = .ok false s := by
        rw [deleteEdge, if_pos hf]
      refine ⟨dropped, t, ?_, hsound, hstamps, fun f hm => by simp [hsub f hm], ?_⟩
      · rw [dropEach, run_bind, hdel]
        dsimp only
        rw [run_bind, ht]
        rfl
      · intro j
        rw [hfind, List.map_cons]
        by_cases hj : j = e.edgeId
        · simp [hj, hf]
        · simp [hj]
    | some old =>
      have hdel : deleteEdge e.edgeId s = .ok true (s.discard e.edgeId) := by
        rw [deleteEdge, if_neg (by simp [hf])]
      have hfind' : ∀ j, (s.discard e.edgeId).index.find j =
          if j = e.edgeId then none else s.index.find j := find_indexRemove s.index e.edgeId
      obtain ⟨dropped, t, ht, hsound, hstamps, hsub, hfind⟩ :=
        ih (s.discard e.edgeId) (h.remove e.edgeId)
      refine ⟨e :: dropped, t, ?_, hsound, hstamps, ?_, ?_⟩
      · rw [dropEach, run_bind, hdel]
        dsimp only
        rw [run_bind, ht]
        rfl
      · intro f hm
        rcases List.mem_cons.mp hm with hm | hm
        · simp [hm]
        · simp [hsub f hm]
      · intro j
        rw [hfind, hfind', List.map_cons]
        by_cases hj : j = e.edgeId
        · simp [hj]
        · simp [hj]

/-- The outgoing list of a store some of whose edges were dropped. -/
theorem outgoing_of_find {ix ix' : EdgeIndex} (h : Coherent ix) (h' : Coherent ix')
    (ids : List String) (hfind : ∀ j, ix'.find j = if j ∈ ids then none else ix.find j)
    (src : String) : ix'.outgoing src = without (ix.outgoing src) ids := by
  have hsub := without_sublist (ix.outgoing src) ids
  apply fifo_ext
  · exact outgoing_sorted ix' src
  · exact (outgoing_sorted ix src).sublist hsub
  · exact outgoing_ids_nodup h' src
  · exact ids_nodup_of_sublist hsub (outgoing_ids_nodup h src)
  · intro e
    rw [without, List.mem_filter, mem_outgoing h', mem_outgoing h, hfind]
    by_cases hm : e.edgeId ∈ ids
    · simp [hm]
    · simp [hm]

/-- Edges of other sources are the same in both states. -/
def Untouched (src : String) (ix ix' : EdgeIndex) : Prop :=
  ∀ e : DurableEdge, e.srcAtomId ≠ src →
    (ix'.find e.edgeId = some e ↔ ix.find e.edgeId = some e)

theorem Untouched.trans {src : String} {a b c : EdgeIndex} (h : Untouched src a b)
    (h' : Untouched src b c) : Untouched src a c :=
  fun e he => (h' e he).trans (h e he)

/-- Enforcing returns, leaves the source within its caps and touches no other source. -/
theorem dropOverBudget_spec (src : String) (cfg : EdgeSettings) (hcaps : PositiveCaps cfg)
    (s : EdgeStore δ) (h : SoundIndex s.index) :
    ∃ dropped t, dropOverBudget src cfg s = .ok dropped t ∧ SoundIndex t.index ∧
      t.stamps = s.stamps ∧ (∀ e ∈ dropped, e.srcAtomId = src) ∧
      Untouched src s.index t.index ∧
      (∀ j e, t.index.find j = some e → s.index.find j = some e) ∧
      t.index.outgoing src = without (s.index.outgoing src)
        ((planBudgetDrops (s.index.outgoing src) cfg).map DurableEdge.edgeId) ∧
      WithinCaps cfg (t.index.outgoing src) := by
  let planned := sortBy DurableEdge.fifoSortKey (planBudgetDrops (s.index.outgoing src) cfg)
  have hplanned : ∀ e ∈ planned, s.index.find e.edgeId = some e ∧ e.srcAtomId = src := by
    intro e he
    have hm := (mem_sortBy _ _ e).mp he
    rw [planBudgetDrops, List.mem_filter] at hm
    exact (mem_outgoing h.coherent src e).mp hm.1
  obtain ⟨dropped, t, ht, hsound, hstamps, hsub, hfind⟩ := dropEach_spec planned s h
  have hfind' : ∀ j, t.index.find j =
      if j ∈ (planBudgetDrops (s.index.outgoing src) cfg).map DurableEdge.edgeId then none
      else s.index.find j := by
    intro j
    have hids : j ∈ planned.map DurableEdge.edgeId ↔
        j ∈ (planBudgetDrops (s.index.outgoing src) cfg).map DurableEdge.edgeId :=
      ((sortBy_perm DurableEdge.fifoSortKey _).map DurableEdge.edgeId).mem_iff
    rw [hfind]
    simp only [hids]
  have hout := outgoing_of_find h.coherent hsound.coherent _ hfind' src
  refine ⟨dropped, t, ht, hsound, hstamps, fun e he => (hplanned e (hsub e he)).2, ?_, ?_, hout, ?_⟩
  · intro e he
    rw [hfind]
    by_cases hm : e.edgeId ∈ planned.map DurableEdge.edgeId
    · rw [if_pos hm]
      obtain ⟨f, hf, hfid⟩ := List.mem_map.mp hm
      have hfs := hplanned f hf
      constructor
      · intro hn
        cases hn
      · intro hs
        rw [hfid, hs] at hfs
        exact absurd (by rw [Option.some.inj hfs.1]; exact hfs.2) he
    · rw [if_neg hm]
  · intro j e he
    rw [hfind] at he
    split_ifs at he
    exact he
  · rw [hout]
    exact plan_within _ cfg hcaps (outgoing_sorted _ src) (outgoing_ids_nodup h.coherent src)

end Enforce
end Elyra.Memory
