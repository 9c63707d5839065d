import Elyra.Memory.EdgeLog

namespace Elyra.Memory

open Json EdgeIndex EdgeStore

/-- The 1h tip over the hour of the atom that an edge leads to. -/
structure TipFor (atoms : AtomStore) (src dst : String) (tip : AtomView) : Prop where
  target : ∃ target, atoms.getAtom dst = .ok (some target) ∧
    find1hTipForTarget atoms target = .ok (some tip)
  real : isVirtual dst = false
  nonempty : tip.atomId ≠ ""
  notSrc : tip.atomId ≠ src
  notDst : tip.atomId ≠ dst

section Plan

variable {atoms : AtomStore} {cfg : EdgeSettings} {e : DurableEdge}

/-- The end of a plan: whatever the meta, the destination is the tip. -/
theorem vertical_ok {tip : AtomView} {plan : Option (String × Dict String Json)}
    (h : (do
      let vertical ← if cfg.edgeRetargetEnsureVertical then listCoarserTipsFor1h atoms tip
        else .ok []
      let ids := (vertical.map AtomView.atomId).filter (· ≠ "")
      return some (tip.atomId, ← retargetMeta e ids) : Except PyErr _) = .ok plan) :
    ∃ metadata, plan = some (tip.atomId, metadata) := by
  by_cases hvertical : cfg.edgeRetargetEnsureVertical
  · rw [if_pos hvertical] at h
    obtain ⟨vertical, -, h⟩ := except_bind_ok h
    obtain ⟨made, -, h⟩ := except_bind_ok h
    exact ⟨made, (Except.ok.inj h).symm⟩
  · rw [if_neg hvertical] at h
    obtain ⟨vertical, -, h⟩ := except_bind_ok h
    obtain ⟨made, -, h⟩ := except_bind_ok h
    exact ⟨made, (Except.ok.inj h).symm⟩

/-- A plan that does not raise leads to the tip, when there is one. -/
theorem retargetPlan_tip {plan : Option (String × Dict String Json)} {tip : AtomView}
    (h : retargetPlan atoms cfg e = .ok plan) (henabled : cfg.edgeRetargetEnabled = true)
    (hkind : e.edgeKind = createdWith) (hsrc : e.srcAtomId ≠ "") (hdst : e.dstAtomId ≠ "")
    (htip : TipFor atoms e.srcAtomId e.dstAtomId tip) :
    ∃ metadata, plan = some (tip.atomId, metadata) := by
  obtain ⟨target, hget, hfind⟩ := htip.target
  unfold retargetPlan at h
  rw [if_neg (by simp [hkind, henabled, hsrc, hdst, htip.real]), hget] at h
  simp only at h
  rw [hfind] at h
  obtain ⟨found, hfound, h⟩ := except_bind_ok h
  obtain rfl := Except.ok.inj hfound
  simp only at h
  rw [if_neg (by simp [htip.nonempty, htip.notSrc, htip.notDst])] at h
  exact vertical_ok h

end Plan

section Runs

variable {δ : Type} [EdgeDisk δ]

/-- The events that lead from one state of a store to another. -/
structure Ran (s t : EdgeStore (Recorded δ)) (events : List EdgeEvent) : Prop where
  log : t.disk.log = s.disk.log ++ events
  index : t.index = indexAfter s.index events

omit [EdgeDisk δ] in
theorem Ran.refl (s : EdgeStore (Recorded δ)) (n : Nat) : Ran s { s with stamps := n } [] :=
  ⟨(List.append_nil _).symm, rfl⟩

omit [EdgeDisk δ] in
theorem Ran.trans {s t u : EdgeStore (Recorded δ)} {events more : List EdgeEvent}
    (h : Ran s t events) (k : Ran t u more) : Ran s u (events ++ more) := by
  constructor
  · rw [k.log, h.log, List.append_assoc]
  · rw [k.index, h.index, indexAfter_append]

omit [EdgeDisk δ] in
/-- The log tells the events. -/
theorem Ran.unique {s t : EdgeStore (Recorded δ)} {events more : List EdgeEvent}
    (h : Ran s t events) (k : Ran s t more) : events = more :=
  List.append_cancel_left (h.log.symm.trans k.log)

end Runs

section Retarget

variable (stampAt : Nat → Stamp) {δ : Type} [EdgeDisk δ]

/-- A store in order, whose ids still to be drawn are not in use. -/
structure ReadyStore (s : EdgeStore (Recorded δ)) : Prop where
  sound : SoundIndex s.index
  fresh : ∀ n, s.stamps ≤ n → s.index.find (stampAt n).newEdgeId = none

variable {stampAt} {atoms : AtomStore} {cfg : EdgeSettings}

end Retarget

section Worked

variable (stampAt : Nat → Stamp) {δ : Type} [EdgeDisk δ] (atoms : AtomStore) (cfg : EdgeSettings)

/-- The log holds a put of an edge from a source to the tip of a destination. -/
def Handled (events : List EdgeEvent) (src dst : String) : Prop :=
  src ≠ "" → dst ≠ "" → ∀ tip, TipFor atoms src dst tip →
    ∃ (j : Nat) (p : DurableEdge), events[j]? = some (.put p) ∧
      p.identityKey = (src, tip.atomId, createdWith)

/-- What the rounds so far have done since `b`. -/
structure Worked (b u : EdgeStore (Recorded δ)) (events : List EdgeEvent)
    (seen : List (String × String)) : Prop where
  ran : Ran b u events
  ready : ReadyStore stampAt u
  clean : CleanLog b.index events
  handled : ∀ key ∈ seen, Handled atoms events key.1 key.2
  whole : ∀ i e, DropsAt b.index events i e → e.srcAtomId ≠ "" ∧ e.dstAtomId ≠ ""

/-- Every created_with drop is handled or still to come, the later ones behind more tip edges. -/
def Accounted (n : Nat) (b : EdgeStore (Recorded δ)) (events : List EdgeEvent)
    (seen : List (String × String)) (pending next : List DurableEdge) : Prop :=
  ∀ i e, DropsAt b.index events i e → e.edgeKind = createdWith →
    (e.srcAtomId, e.dstAtomId) ∈ seen ∨ (e ∈ pending ∧ n ≤ writes (events.take i)) ∨
      (e ∈ next ∧ n + 1 ≤ writes (events.take i))

variable {stampAt atoms cfg} {b u v : EdgeStore (Recorded δ)} {events : List EdgeEvent}
variable {seen : List (String × String)} {n : Nat} {pending next : List DurableEdge}

theorem Handled.more {src dst : String} (h : Handled atoms events src dst)
    (more : List EdgeEvent) : Handled atoms (events ++ more) src dst := by
  intro hsrc hdst tip htip
  obtain ⟨j, p, hput, hkey⟩ := h hsrc hdst tip htip
  refine ⟨j, p, ?_, hkey⟩
  obtain ⟨hlt, -⟩ := List.getElem?_eq_some_iff.mp hput
  rw [List.getElem?_append_left hlt]
  exact hput

/-- A drop among the events of one retarget write. -/
theorem dropsAt_write {ix : EdgeIndex} {p : DurableEdge} {overflow : List DurableEdge}
    (hover : ∀ e ∈ overflow, (ix.indexPut p).find e.edgeId = some e) {i : Nat} {e : DurableEdge}
    (h : DropsAt ix (.put p :: dropEvents overflow) i e) :
    e ∈ overflow ∧ 1 ≤ writes ((EdgeEvent.put p :: dropEvents overflow).take i) := by
  cases i with
  | zero =>
    obtain ⟨hevent, -⟩ := h
    cases hevent
  | succ i =>
    refine ⟨mem_of_dropsAt hover h, ?_⟩
    rw [List.take_succ_cons, writes_put]
    omega

omit [EdgeDisk δ] in
/-- A drop that leads nowhere is done with. -/
theorem Worked.skip (h : Worked stampAt atoms b u events seen) {edge : DurableEdge}
    (henabled : cfg.edgeRetargetEnabled = true) (hkind : edge.edgeKind = createdWith)
    (hplan : retargetPlan atoms cfg edge = .ok none) :
    Worked stampAt atoms b u events ((edge.srcAtomId, edge.dstAtomId) :: seen) := by
  refine ⟨h.ran, h.ready, h.clean, ?_, h.whole⟩
  intro key hkey
  rcases List.mem_cons.mp hkey with rfl | hold
  · intro hsrc hdst tip htip
    obtain ⟨metadata, hnone⟩ := retargetPlan_tip hplan henabled hkind hsrc hdst htip
    cases hnone
  · exact h.handled key hold

omit [EdgeDisk δ] in
/-- A drop whose tip's edge is put is done with, and may bring further drops. -/
theorem Worked.write (h : Worked stampAt atoms b u events seen) {edge p : DurableEdge}
    (henabled : cfg.edgeRetargetEnabled = true) (hkind : edge.edgeKind = createdWith)
    {tipId : String} {metadata : Dict String Json} {overflow : List DurableEdge}
    (hplan : retargetPlan atoms cfg edge = .ok (some (tipId, metadata)))
    (hkey : p.identityKey = (edge.srcAtomId, tipId, createdWith)) (hclean : CleanPut u.index p)
    (hsound : SoundIndex (u.index.indexPut p))
    (hover : ∀ e ∈ overflow, (u.index.indexPut p).find e.edgeId = some e)
    (hran : Ran u v (.put p :: dropEvents overflow)) (hready : ReadyStore stampAt v) :
    Worked stampAt atoms b v (events ++ .put p :: dropEvents overflow)
      ((edge.srcAtomId, edge.dstAtomId) :: seen) := by
  have hindex := h.ran.index
  refine ⟨h.ran.trans hran, hready, ?_, ?_, ?_⟩
  · apply clean_append h.clean
    rw [← hindex]
    exact ⟨hclean, clean_dropEvents _ _⟩
  · intro key hmem
    rcases List.mem_cons.mp hmem with rfl | hold
    · intro hsrc hdst tip htip
      obtain ⟨made, hmade⟩ := retargetPlan_tip hplan henabled hkind hsrc hdst htip
      obtain ⟨rfl, -⟩ := Prod.mk.inj (Option.some.inj hmade)
      refine ⟨events.length, p, ?_, hkey⟩
      rw [List.getElem?_append_right le_rfl, Nat.sub_self]
      rfl
    · exact (h.handled key hold).more _
  · intro i e hdrop
    rcases dropsAt_append.mp hdrop with ⟨-, hold⟩ | ⟨-, hnew⟩
    · exact h.whole i e hold
    · rw [← hindex] at hnew
      have hin := hover e (dropsAt_write hover hnew).1
      have hstored := hsound.stored e.edgeId e hin
      exact ⟨hstored.src, hstored.dst⟩

omit [EdgeDisk δ] in
/-- What one write brings is covered by what comes next. -/
theorem Accounted.write (h : Accounted n b events seen (edge :: pending) next)
    (hran : Ran b u events) {p : DurableEdge} {overflow : List DurableEdge}
    (hn : n ≤ writes events) (hover : ∀ e ∈ overflow, (u.index.indexPut p).find e.edgeId = some e) :
    Accounted n b (events ++ .put p :: dropEvents overflow)
      ((edge.srcAtomId, edge.dstAtomId) :: seen) pending
      (next ++ overflow.filter fun e => e.edgeKind = createdWith) := by
  intro i e hdrop hkind
  rcases dropsAt_append.mp hdrop with ⟨hlt, hold⟩ | ⟨hle, hnew⟩
  · rw [List.take_append_of_le_length (le_of_lt hlt)]
    rcases h i e hold hkind with hseen | ⟨hin, hcount⟩ | ⟨hin, hcount⟩
    · exact .inl (List.mem_cons_of_mem _ hseen)
    · rcases List.mem_cons.mp hin with rfl | hin
      · exact .inl List.mem_cons_self
      · exact .inr (.inl ⟨hin, hcount⟩)
    · exact .inr (.inr ⟨List.mem_append_left _ hin, hcount⟩)
  · rw [← hran.index] at hnew
    obtain ⟨hin, hcount⟩ := dropsAt_write hover hnew
    refine .inr (.inr ⟨List.mem_append_right _ ?_, ?_⟩)
    · rw [List.mem_filter]
      exact ⟨hin, by simpa using hkind⟩
    · rw [List.take_append, List.take_of_length_le hle, writes_append]
      omega

omit [EdgeDisk δ] in
/-- A drop that is seen or leads nowhere leaves the rest covered. -/
theorem Accounted.skip (h : Accounted n b events seen (edge :: pending) next)
    {seen' : List (String × String)} (hsub : ∀ key ∈ seen, key ∈ seen')
    (hself : (edge.srcAtomId, edge.dstAtomId) ∈ seen') :
    Accounted n b events seen' pending next := by
  intro i e hdrop hkind
  rcases h i e hdrop hkind with hseen | ⟨hin, hcount⟩ | hnext
  · exact .inl (hsub _ hseen)
  · rcases List.mem_cons.mp hin with rfl | hin
    · exact .inl hself
    · exact .inr (.inl ⟨hin, hcount⟩)
  · exact .inr (.inr hnext)

end Worked
end Elyra.Memory
