import Elyra.Memory.EdgeRetarget

namespace Elyra.Memory

open Json EdgeIndex EdgeStore

/-- The newest `n` edges of a list in FIFO order. -/
def newest (n : Int) (edges : List DurableEdge) : List DurableEdge :=
  edges.drop (edges.length - n.toNat)

/-- The kind windows alone bring the outgoing edges within the total cap. -/
def OnlyKindCaps (cfg : EdgeSettings) (outgoing : List DurableEdge) : Prop :=
  ((without outgoing (kindDrops cfg outgoing)).length : Int) ≤ totalOutgoingCap cfg

section Budget

variable (stampAt : Nat → Stamp) {δ : Type} [EdgeDisk δ]

/-- A drawn id is not the id of an edge of another source. -/
def FreshFor (src : String) (s : EdgeStore δ) : Prop :=
  ∀ n, s.stamps ≤ n → ∀ e, s.index.find (stampAt n).newEdgeId = some e → e.srcAtomId = src

/-- What holds of the store while the drops of a put are retargeted. -/
structure Budgeted (cfg : EdgeSettings) (src : String) (start : EdgeIndex) (s : EdgeStore δ) :
    Prop where
  sound : SoundIndex s.index
  fresh : FreshFor stampAt src s
  within : WithinCaps cfg (s.index.outgoing src)
  untouched : Untouched src start s.index

omit [EdgeDisk δ] in
/-- A put touches another source only through the id it puts. -/
theorem untouched_put {ix : EdgeIndex} (hc : EdgeIndex.Coherent ix) (p : DurableEdge)
    (hfree : ∀ i, ix.byKey.get? p.identityKey = some i → i = p.edgeId) (e : DurableEdge)
    (hsrc : e.srcAtomId ≠ p.srcAtomId) (hid : ix.find p.edgeId = some e → e.edgeId ≠ p.edgeId) :
    (ix.indexPut p).find e.edgeId = some e ↔ ix.find e.edgeId = some e := by
  rw [find_indexPut_of_free hc p hfree]
  by_cases he : e.edgeId = p.edgeId
  · rw [if_pos he]
    constructor
    · intro hp
      rw [Option.some.inj hp] at hsrc
      exact absurd rfl hsrc
    · intro hf
      rw [he] at hf
      exact absurd he (hid hf)
  · rw [if_neg he]

omit [EdgeDisk δ] in
/-- The holder of the put id is replaced, or nothing of that id was there but the put edge's own
id. -/
theorem putEdge_untouched (edge : DurableEdge) (s : EdgeStore δ) (h : SoundIndex s.index)
    (p : DurableEdge) (hkey : p.identityKey = edge.identityKey)
    (hfree : ∀ i, s.index.byKey.get? p.identityKey = some i → i = p.edgeId)
    (hid : p.edgeId = textOr edge.edgeId (stampAt s.stamps).newEdgeId ∨
      ∃ old, s.index.find p.edgeId = some old ∧ old.identityKey = edge.identityKey)
    (e : DurableEdge) (hsrc : e.srcAtomId ≠ edge.srcAtomId)
    (hne : s.index.find e.edgeId = some e →
      e.edgeId ≠ textOr edge.edgeId (stampAt s.stamps).newEdgeId) :
    (s.index.indexPut p).find e.edgeId = some e ↔ s.index.find e.edgeId = some e := by
  have hps : p.srcAtomId = edge.srcAtomId := congrArg Prod.fst hkey
  apply untouched_put h.coherent p hfree e
  · rw [hps]
    exact hsrc
  · intro hf
    obtain hown | ⟨old, hold, hok⟩ := hid
    · have hself : e.edgeId = p.edgeId := h.coherent.ids p.edgeId e hf
      rw [hown]
      apply hne
      rw [hself]
      exact hf
    · rw [hf] at hold
      have hsame : e.srcAtomId = edge.srcAtomId := by
        rw [Option.some.inj hold]
        exact congrArg Prod.fst hok
      exact absurd hsame hsrc

section Retarget

variable (cfg : EdgeSettings) (atoms : AtomStore) (src : String) (start : EdgeIndex)

theorem retargetCreatedWithEdge_eq (dropped : DurableEdge) (s : EdgeStore δ) :
    retargetCreatedWithEdge stampAt atoms cfg dropped s =
      match retargetPlan atoms cfg dropped with
      | .error e => .error e s
      | .ok none => .ok none s
      | .ok (some (tipId, metadata)) =>
        tryPut stampAt
          { edgeId := (stampAt s.stamps).newEdgeId, srcAtomId := dropped.srcAtomId
            dstAtomId := tipId, edgeKind := createdWith, createdAt := (stampAt s.stamps).nowIso
            updatedAt := (stampAt s.stamps).nowIso, weight := some createdWithWeight
            reason := "retarget_1h_tip", metadata := metadata }
          { s with stamps := s.stamps + 1 } := by
  rw [retargetCreatedWithEdge, run_bind]
  cases retargetPlan atoms cfg dropped with
  | error e => rfl
  | ok plan =>
    cases plan with
    | none => rfl
    | some target => rfl

/-- The write of a retargeted edge: a put of an edge of the same source under a fresh id. -/
theorem tryPut_spec (edge : DurableEdge) (s : EdgeStore δ) (h : SoundIndex s.index)
    (hfresh : FreshFor stampAt edge.srcAtomId s) (hid : edge.edgeId ≠ "")
    (hnew : ∀ e, s.index.find edge.edgeId = some e → e.srcAtomId = edge.srcAtomId) :
    (∃ p t, tryPut stampAt edge s = .ok (some p) t ∧ p.srcAtomId = edge.srcAtomId ∧
      SoundIndex t.index ∧ FreshFor stampAt edge.srcAtomId t ∧
      Untouched edge.srcAtomId s.index t.index) ∨
    tryPut stampAt edge s = .ok none { s with stamps := s.stamps + 1 } := by
  obtain ⟨p, hput, hstored, hkey, hfree, hpid⟩ | ⟨err, hput⟩ :=
    putEdge_spec stampAt edge s h.coherent h.stored
  · have hps : p.srcAtomId = edge.srcAtomId := congrArg Prod.fst hkey
    have hfind := find_indexPut_of_free h.coherent p hfree
    refine .inl ⟨p, keep p { s with stamps := s.stamps + 1 }, ?_, hps, h.put p hstored, ?_, ?_⟩
    · rw [tryPut, hput]
    · intro n hn e he
      have he' : (s.index.indexPut p).find (stampAt n).newEdgeId = some e := he
      rw [hfind] at he'
      split_ifs at he' with hj
      · rw [← Option.some.inj he', hps]
      · exact hfresh n (Nat.le_of_succ_le hn) e he'
    · intro e hsrc
      apply putEdge_untouched stampAt edge s h p hkey hfree hpid e hsrc
      intro hf heq
      rw [textOr, if_neg hid] at heq
      rw [heq] at hf
      exact hsrc (hnew e hf)
  · refine .inr ?_
    rw [tryPut, hput]

omit [EdgeDisk δ] in
theorem Budgeted.tick {s : EdgeStore δ} (h : Budgeted stampAt cfg src start s) :
    Budgeted stampAt cfg src start { s with stamps := s.stamps + 1 } where
  sound := h.sound
  fresh n hn := h.fresh n (Nat.le_of_succ_le hn)
  within := h.within
  untouched := h.untouched

/-- Enforcing restores the budget that a retarget write may have broken. -/
theorem dropOverBudget_budgeted (hcaps : PositiveCaps cfg) (s : EdgeStore δ)
    (hsound : SoundIndex s.index) (hfresh : FreshFor stampAt src s)
    (huntouched : Untouched src start s.index) :
    ∃ dropped t, dropOverBudget src cfg s = .ok dropped t ∧ Budgeted stampAt cfg src start t ∧
      ∀ e ∈ dropped, e.srcAtomId = src := by
  obtain ⟨dropped, t, ht, hst, hstamps, hsrc, hun, hsub, -, hwithin⟩ :=
    dropOverBudget_spec src cfg hcaps s hsound
  refine ⟨dropped, t, ht, ⟨hst, ?_, hwithin, huntouched.trans hun⟩, hsrc⟩
  intro n hn e he
  rw [hstamps] at hn
  exact hfresh n hn e (hsub _ e he)

/-- One retarget keeps the budget: its put is followed by the drops it needs. -/
theorem keeps_retargetOne (hcaps : PositiveCaps cfg) (edge : DurableEdge)
    (hedge : edge.srcAtomId = src) :
    Keeps (Budgeted stampAt cfg src start)
      (retargetOne stampAt atoms cfg edge : Py (EdgeStore δ) _)
      (fun r => ∀ new overflow, r = some (new, overflow) → ∀ e ∈ overflow, e.srcAtomId = src) := by
  intro s hs
  have heq := retargetCreatedWithEdge_eq stampAt cfg atoms edge s
  rw [retargetOne, run_bind, heq]
  cases retargetPlan atoms cfg edge with
  | error err =>
    refine ⟨hs, ?_⟩
    intro r t hr
    cases hr
  | ok plan =>
    cases plan with
    | none =>
      refine ⟨hs, ?_⟩
      intro r t hr new overflow hsome
      cases hr
      cases hsome
    | some target =>
      obtain ⟨tipId, metadata⟩ := target
      have htick := hs.tick
      have hnew : ∀ e, s.index.find (stampAt s.stamps).newEdgeId = some e →
          e.srcAtomId = edge.srcAtomId := by
        intro e he
        rw [hedge]
        exact hs.fresh s.stamps (le_refl _) e he
      have hfresh := htick.fresh
      rw [← hedge] at hfresh
      dsimp only
      obtain ⟨p, t, hput, hps, hsound, hft, hun⟩ | hput := tryPut_spec stampAt
        { edgeId := (stampAt s.stamps).newEdgeId, srcAtomId := edge.srcAtomId
          dstAtomId := tipId, edgeKind := createdWith, createdAt := (stampAt s.stamps).nowIso
          updatedAt := (stampAt s.stamps).nowIso, weight := some createdWithWeight
          reason := "retarget_1h_tip", metadata := metadata }
        { s with stamps := s.stamps + 1 } htick.sound hfresh
        (Stamp.newEdgeId_ne_empty _) hnew
      · rw [hput]
        dsimp only
        dsimp only at hps hft hun
        rw [hedge] at hps hft hun
        obtain ⟨dropped, u, hdrop, hbudget, hsrc⟩ := dropOverBudget_budgeted stampAt cfg src start
          hcaps t hsound hft (htick.untouched.trans hun)
        rw [run_bind, hps, hdrop]
        refine ⟨hbudget, ?_⟩
        intro r v hr new overflow hsome
        cases hr
        cases hsome
        exact hsrc
      · rw [hput]
        refine ⟨htick.tick, ?_⟩
        intro r v hr new overflow hsome
        cases hr
        cases hsome

theorem keeps_retargetRound (hcaps : PositiveCaps cfg) (pending : List DurableEdge)
    (r : RetargetRound) (hpending : ∀ e ∈ pending, e.srcAtomId = src)
    (hr : ∀ e ∈ r.nextPending, e.srcAtomId = src) :
    Keeps (Budgeted stampAt cfg src start)
      (retargetRound stampAt atoms cfg pending r : Py (EdgeStore δ) _)
      (fun next => ∀ e ∈ next.nextPending, e.srcAtomId = src) := by
  induction pending generalizing r with
  | nil => exact keeps_pure r hr
  | cons edge pending ih =>
    have hrest : ∀ e ∈ pending, e.srcAtomId = src := fun e he => hpending e (by simp [he])
    rw [retargetRound]
    by_cases hseen : (edge.srcAtomId, edge.dstAtomId) ∈ r.seenTargets
    · rw [if_pos hseen]
      exact ih r hrest hr
    · rw [if_neg hseen]
      apply keeps_bind (keeps_retargetOne stampAt cfg atoms src start hcaps edge
        (hpending edge (by simp)))
      intro made hmade
      cases made with
      | none => exact ih _ hrest hr
      | some made =>
        obtain ⟨new, overflow⟩ := made
        apply ih _ hrest
        intro e he
        rcases List.mem_append.mp he with he | he
        · exact hr e he
        · exact hmade new overflow rfl e (List.mem_of_mem_filter he)

theorem keeps_retargetRounds (hcaps : PositiveCaps cfg) (rounds : Nat)
    (pending : List DurableEdge) (r : RetargetRound)
    (hpending : ∀ e ∈ pending, e.srcAtomId = src) :
    Keeps (Budgeted stampAt cfg src start)
      (retargetRounds stampAt atoms cfg rounds pending r : Py (EdgeStore δ) _)
      (fun _ => True) := by
  induction rounds generalizing pending r with
  | zero => exact keeps_pure _ trivial
  | succ rounds ih =>
    rw [retargetRounds]
    by_cases hnil : pending = []
    · rw [if_pos hnil]
      exact keeps_pure _ trivial
    · rw [if_neg hnil]
      apply keeps_bind (keeps_retargetRound stampAt cfg atoms src start hcaps pending _ hpending
        (by simp))
      intro next hnext
      exact ih next.nextPending next hnext

end Retarget

theorem keeps_retargetDropped (cfg : EdgeSettings) (atoms : Option AtomStore)
    (retarget : Option Bool) (src : String) (start : EdgeIndex) (hcaps : PositiveCaps cfg)
    (dropped : List DurableEdge) (hdropped : ∀ e ∈ dropped, e.srcAtomId = src) :
    Keeps (Budgeted stampAt cfg src start)
      (retargetDropped stampAt cfg atoms retarget dropped : Py (EdgeStore δ) _)
      (fun _ => True) := by
  cases atoms with
  | none => exact keeps_pure _ trivial
  | some atoms =>
    unfold retargetDropped
    by_cases hdo : doRetarget cfg retarget ∧ dropped ≠ []
    · simp only [if_pos hdo]
      apply keeps_bind (Q := fun _ => True) _ (fun _ _ => keeps_pure _ trivial)
      apply keeps_retargetRounds stampAt cfg atoms src start hcaps
      intro e he
      exact hdropped e (List.mem_of_mem_filter he)
    · simp only [if_neg hdo]
      exact keeps_pure _ trivial

theorem retargetDropped_off (cfg : EdgeSettings) (atoms : Option AtomStore)
    (retarget : Option Bool) (dropped : List DurableEdge) (s : EdgeStore δ)
    (hoff : atoms = none ∨ doRetarget cfg retarget = false) :
    retargetDropped stampAt cfg atoms retarget dropped s = .ok () s := by
  cases atoms with
  | none => rfl
  | some atoms =>
    obtain hnone | hoff := hoff
    · cases hnone
    · have hdo : ¬(doRetarget cfg retarget ∧ dropped ≠ []) := by simp [hoff]
      unfold retargetDropped
      simp only [if_neg hdo]
      rfl

/-- Running the write: the put, the drops, then the retargeting of what was dropped. -/
theorem putEdgeWithBudget_ok (edge : DurableEdge) (cfg : EdgeSettings) (atoms : Option AtomStore)
    (retarget : Option Bool) (s t u : EdgeStore δ) (p : DurableEdge) (dropped : List DurableEdge)
    (hput : putEdge stampAt edge s = .ok p t) (hdrop : dropOverBudget p.srcAtomId cfg t = .ok dropped u) :
    putEdgeWithBudget stampAt edge cfg atoms retarget s =
      match retargetDropped stampAt cfg atoms retarget dropped u with
      | .ok () v => .ok (p, dropped) v
      | .error e v => .error e v := by
  rw [putEdgeWithBudget, run_bind, hput]
  dsimp only
  rw [run_bind, enforceOutgoingBudgets, run_bind, hdrop]
  dsimp only
  rw [run_bind]
  cases retargetDropped stampAt cfg atoms retarget dropped u with
  | ok x v => rfl
  | error e v => rfl

/-- After a budgeted write the source is within its caps, other sources are as before, except
that the id of the written edge may have been taken from one, and without retargeting the
survivors of a capped kind are its newest edges. -/
theorem put_edge_with_budget (cfg : EdgeSettings) (hcaps : PositiveCaps cfg) (s : EdgeStore δ)
    (hs : SoundIndex s.index) (edge : DurableEdge)
    (hwithin : WithinCaps cfg (s.index.outgoing edge.srcAtomId))
    (hfresh : ∀ n, s.stamps ≤ n → s.index.find (stampAt n).newEdgeId = none)
    (atoms : Option AtomStore) (retarget : Option Bool) :
    let after := after (putEdgeWithBudget stampAt edge cfg atoms retarget s)
    WithinCaps cfg (after.index.outgoing edge.srcAtomId) ∧
      (∀ e : DurableEdge, e.srcAtomId ≠ edge.srcAtomId → e.edgeId ≠ edge.edgeId →
        (e ∈ after.index.edges ↔ e ∈ s.index.edges)) ∧
      (atoms = none ∨ doRetarget cfg retarget = false →
        ∀ stored t, putEdge stampAt edge s = .ok stored t → ∀ kind cap,
          kindOutgoingCap kind cfg = some cap → OnlyKindCaps cfg (t.index.outgoing edge.srcAtomId) →
            after.index.listEdgesFrom edge.srcAtomId (some [kind]) none =
              newest cap (t.index.listEdgesFrom edge.srcAtomId (some [kind]) none)) := by
  obtain ⟨p, hput, hstored, hkey, hfree, hpid⟩ | ⟨err, hput⟩ :=
    putEdge_spec stampAt edge s hs.coherent hs.stored
  · have hps : p.srcAtomId = edge.srcAtomId := congrArg Prod.fst hkey
    have hsound : SoundIndex (s.index.indexPut p) := hs.put p hstored
    have hft : FreshFor stampAt edge.srcAtomId (keep p { s with stamps := s.stamps + 1 }) := by
      intro n hn e he
      have he' : (s.index.indexPut p).find (stampAt n).newEdgeId = some e := he
      rw [find_indexPut_of_free hs.coherent p hfree] at he'
      split_ifs at he' with hj
      · rw [← Option.some.inj he', hps]
      · rw [hfresh n (Nat.le_of_succ_le hn)] at he'
        cases he'
    obtain ⟨dropped, u, hdrop, hbudget, hsrc⟩ := dropOverBudget_budgeted stampAt cfg
      edge.srcAtomId (s.index.indexPut p) hcaps (keep p { s with stamps := s.stamps + 1 }) hsound
      hft (fun e he => Iff.rfl)
    have hdrop' := hdrop
    rw [← hps] at hdrop'
    have hrun := putEdgeWithBudget_ok stampAt edge cfg atoms retarget s _ u p dropped hput hdrop'
    obtain ⟨hkept, -⟩ := keeps_retargetDropped stampAt cfg atoms retarget edge.srcAtomId
      (s.index.indexPut p) hcaps dropped hsrc u hbudget
    have hafter : after (putEdgeWithBudget stampAt edge cfg atoms retarget s) =
        after (retargetDropped stampAt cfg atoms retarget dropped u) := by
      rw [hrun]
      cases retargetDropped stampAt cfg atoms retarget dropped u with
      | ok x v => rfl
      | error e v => rfl
    dsimp only
    rw [hafter]
    refine ⟨hkept.within, ?_, ?_⟩
    · intro e he hid
      rw [mem_edges hkept.sound.coherent, mem_edges hs.coherent, hkept.untouched e he]
      apply putEdge_untouched stampAt edge s hs p hkey hfree hpid e he
      intro hf heq
      unfold textOr at heq
      split_ifs at heq with hempty
      · rw [heq, hfresh s.stamps (le_refl _)] at hf
        cases hf
      · exact hid heq
    · intro hoff stored t hst kind cap hcap honly
      rw [hput] at hst
      cases hst
      rw [retargetDropped_off stampAt cfg atoms retarget dropped u hoff]
      obtain ⟨dropped', u', hdrop2, hsu, -, -, -, -, hout, -⟩ := dropOverBudget_spec
        edge.srcAtomId cfg hcaps (keep p { s with stamps := s.stamps + 1 }) hsound
      rw [hdrop] at hdrop2
      cases hdrop2
      show u.index.listEdgesFrom edge.srcAtomId (some [kind]) none =
        newest cap ((s.index.indexPut p).listEdgesFrom edge.srcAtomId (some [kind]) none)
      rw [listEdgesFrom_kind hsu.coherent, listEdgesFrom_kind hsound.coherent, hout]
      exact plan_kind_only _ cfg kind cap hcap (outgoing_sorted _ _)
        (outgoing_ids_nodup hsound.coherent _) honly
  · have hrun : putEdgeWithBudget stampAt edge cfg atoms retarget s =
        .error err { s with stamps := s.stamps + 1 } := by
      rw [putEdgeWithBudget, run_bind, hput]
    dsimp only
    rw [hrun]
    refine ⟨hwithin, fun e _ _ => Iff.rfl, ?_⟩
    intro hoff stored t hst
    rw [hput] at hst
    cases hst

end Budget

section Sample

def emptyStore : EdgeStore JsonlFile := ⟨.empty, ⟨.empty⟩, 0⟩

theorem defaultCaps : PositiveCaps {} := ⟨by decide, by decide, by decide⟩

def edgeOf (src dst : String) : DurableEdge :=
  { edgeId := "e1", srcAtomId := src, dstAtomId := dst, edgeKind := "recalls", createdAt := "" }

theorem soundIndex_empty : SoundIndex .empty where
  coherent := coherent_empty
  stored i e h := by cases h

theorem withinCaps_nil (cfg : EdgeSettings) (hcaps : PositiveCaps cfg) : WithinCaps cfg [] :=
  ⟨Int.le_of_lt (total_pos hcaps), fun kind cap h => Int.le_of_lt (cap_pos hcaps kind cap h)⟩

/-- The store whose one edge leaves `src`. -/
def storeOf (src : String) : EdgeStore JsonlFile :=
  after (putEdge sampleStamp (edgeOf src "d") emptyStore)

theorem storeOf_spec {src : String} (hprep : ∃ p, prepareEdgeForPut (edgeOf src "d")
      (emptyStore.index.atKey (edgeOf src "d").identityKey) (sampleStamp 0) = .ok p) :
    SoundIndex (storeOf src).index ∧ ∃ p, (storeOf src).index.find "e1" = some p ∧
      p.edgeId = "e1" ∧ p.srcAtomId = src ∧ ∀ j, j ≠ "e1" → (storeOf src).index.find j = none := by
  obtain ⟨p, hput, hstored, hkey, hfree, hpid⟩ | ⟨err, hput⟩ :=
    putEdge_spec sampleStamp (edgeOf src "d") emptyStore coherent_empty soundIndex_empty.stored
  · have hid : p.edgeId = "e1" := by
      obtain hown | ⟨old, hold, -⟩ := hpid
      · exact hown
      · cases hold
    have hfind := find_indexPut_of_free coherent_empty p hfree
    have hindex : (storeOf src).index = EdgeIndex.empty.indexPut p := by
      rw [storeOf, hput]
      rfl
    rw [hindex]
    refine ⟨soundIndex_empty.put p hstored, p, ?_, hid, congrArg Prod.fst hkey, ?_⟩
    · rw [hfind, if_pos hid.symm]
    · intro j hj
      rw [hfind, hid, if_neg hj]
      rfl
  · obtain ⟨p, hp⟩ := hprep
    rw [putEdge_eq, show emptyStore.stamps = 0 from rfl, hp] at hput
    cases hput

def oneRecall : EdgeSettings := { edgeRecallsMax := 1 }

theorem withinCaps_storeOf : WithinCaps oneRecall ((storeOf "a").index.outgoing "a") := by
  have hlength : ((storeOf "a").index.outgoing "a").length ≤ 1 := by
    decide +kernel
  have hof (kind : String) : (ofEdgeKind ((storeOf "a").index.outgoing "a") kind).length ≤ 1 :=
    (List.length_filter_le ..).trans hlength
  have hcaps : PositiveCaps oneRecall := ⟨by decide, by decide, by decide⟩
  refine ⟨?_, fun kind cap hcap => ?_⟩
  · have hpos := total_pos hcaps
    omega
  · have hpos := cap_pos hcaps kind cap hcap
    have := hof kind
    omega

/-- The second edge pushes the first one out. -/
theorem put_edge_with_budget_drops :
    let later := { edgeOf "a" "e" with edgeId := "e2", createdAt := "2026-01-02T00:00:00Z" }
    let s := after (putEdgeWithBudget sampleStamp later oneRecall none none (storeOf "a"))
    WithinCaps oneRecall (s.index.outgoing "a") ∧
      (s.index.outgoing "a").map DurableEdge.edgeId = ["e2"] := by
  obtain ⟨hsound, -, -, -, -, hnone⟩ := @storeOf_spec "a" ⟨_, rfl⟩
  refine ⟨(put_edge_with_budget sampleStamp oneRecall ⟨by decide, by decide, by decide⟩
    (storeOf "a") hsound _ withinCaps_storeOf ?_ none none).1, by decide +kernel⟩
  intro n _
  apply hnone
  intro heq
  have hsecond := congrArg (fun id => id.toList[1]?) heq
  rw [Stamp.newEdgeId, String.toList_append] at hsecond
  change some '_' = some '1' at hsecond
  exact absurd hsecond (by decide)

/-- The store whose one edge leaves `b`. -/
def otherStore : EdgeStore JsonlFile := storeOf "b"

theorem otherStore_spec : SoundIndex otherStore.index ∧ ∃ p, otherStore.index.find "e1" = some p ∧
    p.edgeId = "e1" ∧ p.srcAtomId = "b" ∧ ∀ j, j ≠ "e1" → otherStore.index.find j = none :=
  storeOf_spec ⟨_, rfl⟩

/-- Writing an edge of `a` under the id of the edge of `b` takes that edge from `b`. -/
theorem reused_id_takes_edge :
    WithinCaps {} (otherStore.index.outgoing "a") ∧
      ∃ e ∈ otherStore.index.edges, e.srcAtomId ≠ (edgeOf "a" "c").srcAtomId ∧
        e ∉ (after (putEdgeWithBudget sampleStamp (edgeOf "a" "c") {} none none
          otherStore)).index.edges := by
  obtain ⟨hsound, other, hother, hid, hsrc, hnone⟩ := otherStore_spec
  have hout : otherStore.index.outgoing "a" = [] := by
    rw [List.eq_nil_iff_forall_not_mem]
    intro e he
    obtain ⟨hf, hes⟩ := (mem_outgoing hsound.coherent "a" e).mp he
    by_cases hj : e.edgeId = "e1"
    · rw [hj, hother] at hf
      rw [← Option.some.inj hf, hsrc] at hes
      exact absurd hes (by decide)
    · rw [hnone _ hj] at hf
      cases hf
  refine ⟨?_, other, ?_, ?_, ?_⟩
  · rw [hout]
    exact withinCaps_nil {} defaultCaps
  · rw [mem_edges hsound.coherent, hid]
    exact hother
  · rw [hsrc]
    decide
  · obtain ⟨p, hput, hstored, hkey, hfree, hpid⟩ | ⟨err, hput⟩ :=
      putEdge_spec sampleStamp (edgeOf "a" "c") otherStore hsound.coherent hsound.stored
    · have hps : p.srcAtomId = "a" := congrArg Prod.fst hkey
      have hpe : p.edgeId = "e1" := by
        obtain hown | ⟨old, hold, hok⟩ := hpid
        · exact hown
        · by_cases hj : p.edgeId = "e1"
          · exact hj
          · rw [hnone _ hj] at hold
            cases hold
      obtain ⟨dropped, u, hdrop, hsu, -, -, -, hsub, -, -⟩ := dropOverBudget_spec p.srcAtomId {}
        defaultCaps (keep p { otherStore with stamps := otherStore.stamps + 1 })
        (hsound.put p hstored)
      rw [putEdgeWithBudget_ok sampleStamp _ {} none none _ _ u p dropped hput hdrop,
        retargetDropped_off sampleStamp {} none none dropped u (.inl rfl)]
      show other ∉ u.index.edges
      rw [mem_edges hsu.coherent]
      intro hin
      have hput' : (otherStore.index.indexPut p).find other.edgeId = some other := hsub _ _ hin
      rw [find_indexPut_of_free hsound.coherent p hfree, hid, hpe, if_pos rfl] at hput'
      rw [Option.some.inj hput', hsrc] at hps
      exact absurd hps (by decide)
    · rw [putEdge_eq] at hput
      exfalso
      have hprep : ∀ existing stamp, ∃ p, prepareEdgeForPut (edgeOf "a" "c") existing stamp = .ok p :=
        fun existing stamp => ⟨_, rfl⟩
      obtain ⟨p, hp⟩ := hprep (otherStore.index.atKey (edgeOf "a" "c").identityKey)
        (sampleStamp otherStore.stamps)
      rw [hp] at hput
      cases hput

end Sample
end Elyra.Memory
