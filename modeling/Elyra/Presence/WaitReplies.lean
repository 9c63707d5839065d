import Elyra.Presence.WaitRun

namespace Elyra.Presence

open Json TimerService

/-- The two writes of a snapshot go through. -/
def wrote (plan : List Outcome) : Bool := (plan.take 2).all (· = .done)

/-- The snapshot is written, and the append after it is not done. -/
def cutsAppend (plan : List Outcome) : Bool := wrote plan && (plan.drop 2).head?.any (· ≠ .done)

/-- What a file write fails with. -/
def IsCut (e : Fault) : Prop := e = .died ∨ e = .raised .osError

theorem persist_wrote (n : SnapshotName) (s : TimerService) {plan : List Outcome}
    (h : wrote plan = true) :
    persist n ⟨s, plan⟩ = .ok () ⟨s.setFile n (dumpRows (s.rows n)), plan.drop 2⟩ := by
  match plan, h with
  | [], _ => rfl
  | [.done], _ => rfl
  | .done :: .done :: rest, _ => rfl

theorem persist_cut (n : SnapshotName) (s : TimerService) {plan : List Outcome}
    (h : wrote plan = false) : ∃ e rest, persist n ⟨s, plan⟩ = .error e ⟨s, rest⟩ ∧ IsCut e := by
  match plan, h with
  | [.raises], _ => exact ⟨_, _, rfl, .inr rfl⟩
  | [.dies], _ => exact ⟨_, _, rfl, .inl rfl⟩
  | .raises :: o :: rest, _ => exact ⟨_, _, rfl, .inr rfl⟩
  | .dies :: o :: rest, _ => exact ⟨_, _, rfl, .inl rfl⟩
  | .done :: .raises :: rest, _ => exact ⟨_, _, rfl, .inr rfl⟩
  | .done :: .dies :: rest, _ => exact ⟨_, _, rfl, .inl rfl⟩

theorem store_wrote {n : SnapshotName} (changed restored : Dict String (Row n)) (s : TimerService)
    {plan : List Outcome} (h : wrote plan = true) :
    ∃ t, store changed restored ⟨s, plan⟩ = .ok () ⟨t, plan.drop 2⟩ := by
  refine ⟨(s.setRows n changed).setFile n (dumpRows ((s.setRows n changed).rows n)), ?_⟩
  unfold store
  rw [run_bind]
  simp only [note, tryExcept, persist_wrote n _ h]

theorem settle_run {n : SnapshotName} {s : TimerService} {id : String} {r : Row n}
    (hr : (s.rows n).get? id = some r) (hopened : r.status = n.opened) (status : Status)
    (plan : List Outcome) :
    settle n id status ⟨s, plan⟩ = changeRow r (r.setStatus status) ⟨s, plan⟩ := by
  unfold settle
  rw [run_bind]
  simp only [look, hr, if_pos hopened]

theorem markAnswered_wrote {s : TimerService} {waitId : String} {r : Row .waits}
    (hr : (s.rows .waits).get? waitId = some r) (hopened : r.status = .pending)
    {plan : List Outcome} (h : wrote plan = true) :
    ∃ t, changeRow r (r.setStatus .answered) ⟨s, plan⟩ = .ok () ⟨t, plan.drop 2⟩ ∧
      WaitCall.markAnswered (some waitId) ⟨s, plan⟩ = .ok () ⟨t, plan.drop 2⟩ := by
  have hstore := store_wrote (((s.rows .waits).set r.id (r.setStatus .answered)))
    (((s.rows .waits).set r.id (r.setStatus .answered)).set r.id r) s h
  obtain ⟨t, hstore⟩ := hstore
  refine ⟨t, hstore, ?_⟩
  have hsettle : settle .waits waitId .answered ⟨s, plan⟩ = .ok () ⟨t, plan.drop 2⟩ := by
    rw [settle_run hr hopened]
    exact hstore
  show tryExcept (settle .waits waitId .answered) _ ⟨s, plan⟩ = _
  rw [tryExcept, hsettle]

theorem orDrawn_run (env : Env) (x : Option String) (s : TimerService) (plan : List Outcome) :
    ∃ text t, orDrawn env x ⟨s, plan⟩ = .ok text ⟨t, plan⟩ ∧ Kept s t ∧ t.log = s.log := by
  have hdraw : ∃ text t, TimerService.draw env.uuid4 ⟨s, plan⟩ = .ok text ⟨t, plan⟩ ∧ Kept s t ∧
      t.log = s.log :=
    ⟨_, _, rfl, ⟨fun n => by cases n <;> rfl, fun n => by cases n <;> rfl⟩, rfl⟩
  unfold orDrawn
  split
  · split_ifs
    · exact hdraw
    · exact ⟨_, s, rfl, ⟨fun _ => rfl, fun _ => rfl⟩, rfl⟩
  · exact hdraw

theorem enqueue_run (env : Env) (kind : WakeKind) (payload : Payload) {s : TimerService}
    (hfree : lifeOf s.log (env.uuid4 s.draws) = none) (plan : List Outcome) :
    (plan.head?.all (· = .done) = true → ∃ item t rest,
      TimerService.enqueue env kind payload none ⟨s, plan⟩ = .ok item ⟨t, rest⟩) ∧
    (plan.head?.any (· ≠ .done) = true → ∃ e t rest,
      TimerService.enqueue env kind payload none ⟨s, plan⟩ = .error e ⟨t, rest⟩ ∧ Kept s t ∧
        t.log = s.log) := by
  have hkept (t : TimerService) (ht : t = { s with draws := s.draws + 1 + 1 + 1 }) :
      Kept s t ∧ t.log = s.log := by
    rw [ht]
    exact ⟨⟨fun n => by cases n <;> rfl, fun n => by cases n <;> rfl⟩, rfl⟩
  unfold TimerService.enqueue orDrawn appendWake
  simp only [run_bind, TimerService.draw, look, hfree, Option.map_none, isLive, Option.filter_none]
  obtain _ | ⟨o, rest⟩ := plan
  · exact ⟨fun _ => ⟨_, _, _, rfl⟩, fun h => absurd h Bool.false_ne_true⟩
  · cases o with
    | done => exact ⟨fun _ => ⟨_, _, _, rfl⟩, fun h => absurd h Bool.false_ne_true⟩
    | raises =>
      exact ⟨fun h => absurd h Bool.false_ne_true, fun _ => ⟨_, _, _, rfl, hkept _ rfl⟩⟩
    | dies => exact ⟨fun h => absurd h Bool.false_ne_true, fun _ => ⟨_, _, _, rfl, hkept _ rfl⟩⟩

theorem textAt_replyPayload (content userId choice mid waitId : String) :
    textAt (replyPayload content userId choice mid (some waitId)) "wait_id" = some waitId := by
  unfold replyPayload textAt
  split_ifs <;> simp [Dict.get?_set]

theorem replied_congr {p q : Persisted} (h : q.log = p.log) : q.replied = p.replied := by
  unfold Persisted.replied
  rw [h]

section Runs

variable [PyCoerce] [PyFloat]

theorem store_cut {n : SnapshotName} (changed restored : Dict String (Row n)) (s : TimerService)
    {plan : List Outcome} (h : wrote plan = false) :
    ∃ e t rest, store changed restored ⟨s, plan⟩ = .error e ⟨t, rest⟩ ∧ IsCut e ∧
      t.persisted = s.persisted := by
  obtain ⟨e, rest, hrun, hcut⟩ := persist_cut n (s.setRows n changed) h
  unfold store
  rw [run_bind]
  simp only [note, tryExcept, hrun]
  obtain rfl | rfl := hcut
  · exact ⟨_, _, _, rfl, .inl rfl, persisted_setRows s n changed⟩
  · refine ⟨_, _, _, rfl, .inr rfl, ?_⟩
    rw [persisted_setRows, persisted_setRows]

theorem markAnswered_cut {s : TimerService} {waitId : String} {r : Row .waits}
    (hr : (s.rows .waits).get? waitId = some r) (hopened : r.status = .pending)
    {plan : List Outcome} (h : wrote plan = false) :
    ∃ e t rest, changeRow r (r.setStatus .answered) ⟨s, plan⟩ = .error e ⟨t, rest⟩ ∧
      WaitCall.markAnswered (some waitId) ⟨s, plan⟩ = .error e ⟨t, rest⟩ ∧
        t.persisted = s.persisted := by
  obtain ⟨e, t, rest, hstore, hcut, hpersisted⟩ :=
    store_cut (((s.rows .waits).set r.id (r.setStatus .answered)))
      (((s.rows .waits).set r.id (r.setStatus .answered)).set r.id r) s h
  refine ⟨e, t, rest, hstore, ?_, hpersisted⟩
  have hsettle : settle .waits waitId .answered ⟨s, plan⟩ = .error e ⟨t, rest⟩ := by
    rw [settle_run hr hopened]
    exact hstore
  show tryExcept (settle .waits waitId .answered) _ ⟨s, plan⟩ = _
  rw [tryExcept, hsettle]
  obtain rfl | rfl := hcut <;> rfl

variable {env : Env} {ends : Status → Prop} {p₀ : Persisted}

theorem orDrawn_triple {s : TimerService} (h : Serving env (waitFrame env ends p₀) s)
    (x : Option String) :
    Triple (· = s) (orDrawn env x)
      (fun _ t => Serving env (waitFrame env ends p₀) t ∧ Kept s t ∧ t.log = s.log)
      (Broken env (waitFrame env ends p₀)) := by
  rintro u rfl
  have hsafe := safe_orDrawn h x u rfl
  obtain ⟨text, t, hrun, hkept, hlog⟩ := orDrawn_run env x u.disk u.plan
  rw [hrun] at hsafe ⊢
  exact ⟨hsafe, hkept, hlog⟩

/-- The reply of an answered wait without one. -/
theorem sendReply_triple (hu : UuidDraws env) {s : TimerService}
    (h : Serving env (waitFrame env ends p₀) s) {waitId : String} {x : Option String}
    (hanswered : s.persisted.marks .waits waitId = some (.answered, x))
    (hnew : waitId ∉ s.persisted.replied) (content userId : String)
    (choice messageId : Option String) :
    Triple (· = s) (WaitCall.sendReply env content userId choice (some waitId) messageId)
      (fun _ t => Serving env (waitFrame env ends p₀) t ∧ Kept s t ∧
        t.persisted.replied = s.persisted.replied ++ [waitId])
      (Broken env (waitFrame env ends p₀)) := by
  apply triple_bind (orDrawn_triple h messageId)
  intro mid
  apply triple_each
  rintro t ⟨ht, hkept, hlog⟩
  have htarget (item : WakeItem) (hkind : item.kind = .waitReply) (hpay : item.payload =
      replyPayload (stripText content) userId ((choice.map stripText).getD "") mid (some waitId)) :
      replyTo item = some waitId := by
    unfold replyTo
    rw [hkind, hpay]
    exact textAt_replyPayload _ _ _ _ _
  apply triple_bind (enqueue_new_triple (waitFrame_sound env ends p₀) hu ht ?_)
  · intro item
    apply triple_pure
    rintro u ⟨happended, hlive⟩
    refine ⟨hlive, hkept.trans happended.toKept, ?_⟩
    obtain ⟨ts, hulog⟩ := happended.log
    have hlogged : u.persisted.log = (t.persisted.append (.enqueue ts item)).log := hulog
    rw [replied_congr hlogged, Persisted.replied_append,
      htarget item happended.kind happended.payload,
      replied_congr (show t.persisted.log = s.persisted.log from hlog)]
    rfl
  · intro id u hukept hulog _ hunused p ts item hmarks hplog hpdraws hid hkind hpay
    refine .reply waitId ts x item ?_ ?_ (htarget item hkind hpay) ?_
    · rw [hmarks, hukept.marks, hkept.marks]
      exact hanswered
    · rw [replied_congr (show p.log = s.persisted.log from hplog.trans (hulog.trans hlog))]
      exact hnew
    · rw [hid]
      exact hunused p hmarks hplog hpdraws

theorem enqueued_free (hu : UuidDraws env) {s : TimerService} (h : Sane env s.persisted) :
    lifeOf s.log (env.uuid4 s.draws) = none := by
  rw [← Option.not_isSome_iff_eq_none, lifeOf_isSome]
  intro hm
  obtain ⟨i, hi, heq⟩ := h.drawn _ (.inl hm)
  have hlt : i < s.draws := hi
  rw [hu.injective heq] at hlt
  exact lt_irrefl _ hlt

theorem sendReply_run (hu : UuidDraws env) {s : TimerService}
    (h : Serving env (waitFrame env ends p₀) s) (content userId : String)
    (choice waitId messageId : Option String) (plan : List Outcome) :
    (plan.head?.all (· = .done) = true → ∃ t rest,
      WaitCall.sendReply env content userId choice waitId messageId ⟨s, plan⟩ =
        .ok () ⟨t, rest⟩) ∧
    (plan.head?.any (· ≠ .done) = true → ∃ e t rest,
      WaitCall.sendReply env content userId choice waitId messageId ⟨s, plan⟩ =
        .error e ⟨t, rest⟩ ∧ Kept s t ∧ t.log = s.log) := by
  obtain ⟨mid, t, hmid, hkept, hlog⟩ := orDrawn_run env messageId s plan
  have ht := orDrawn_triple h messageId ⟨s, plan⟩ rfl
  rw [hmid] at ht
  obtain ⟨hdone, hcut⟩ := enqueue_run env .waitReply
    (replyPayload (stripText content) userId ((choice.map stripText).getD "") mid waitId)
    (enqueued_free hu ht.1.sane) plan
  unfold WaitCall.sendReply
  rw [run_bind, hmid]
  constructor
  · intro hplan
    obtain ⟨item, u, rest, hrun⟩ := hdone hplan
    refine ⟨u, rest, ?_⟩
    simp only [run_bind, hrun]
    rfl
  · intro hplan
    obtain ⟨e, u, rest, hrun, hukept, hulog⟩ := hcut hplan
    refine ⟨e, u, rest, ?_, hkept.trans hukept, hulog.trans hlog⟩
    simp only [run_bind, hrun]

/-- How a reply to a pending wait ends: the wait stays, or it is answered, with its wake or
without it. -/
inductive ReplyEnd (s : TimerService) (waitId : String) (x : Option String) (plan : List Outcome)
    (t : TimerService) : Prop
  | refused (cut : wrote plan = false) (same : t.persisted = s.persisted)
  | lost (cut : cutsAppend plan = true)
      (marks : t.persisted.marks = (s.persisted.setMark .waits waitId (.answered, x)).marks)
      (replied : t.persisted.replied = s.persisted.replied)
  | sent (whole : cutsAppend plan = false)
      (marks : t.persisted.marks = (s.persisted.setMark .waits waitId (.answered, x)).marks)
      (replied : t.persisted.replied = s.persisted.replied ++ [waitId])

theorem applyWaitReply_spec (hu : UuidDraws env) {s : TimerService}
    (h : Serving env (waitFrame env (fun _ => True) p₀) s) {waitId : String} {r : Row .waits}
    (hr : (s.rows .waits).get? waitId = some r) (hopened : r.status = .pending)
    (content userId : String) (choice messageId : Option String) (plan : List Outcome) :
    match WaitCall.applyWaitReply env content userId choice (some waitId) messageId
        ⟨s, plan⟩ with
    | .ok _ t => Serving env (waitFrame env (fun _ => True) p₀) t.disk ∧
        ReplyEnd s waitId r.wakeId plan t.disk
    | .error e t => Broken env (waitFrame env (fun _ => True) p₀) e t.disk ∧
        ReplyEnd s waitId r.wakeId plan t.disk := by
  have hid : r.id = waitId := (h.keyed .waits).id waitId r hr
  have hmark : s.persisted.marks .waits waitId = some (.pending, r.wakeId) := by
    rw [← h.agrees .waits waitId, hr, ← hopened]
    rfl
  have hnew : waitId ∉ s.persisted.replied := by
    intro hm
    obtain ⟨x, hx⟩ := h.sane.answered waitId hm
    rw [hmark] at hx
    cases hx
  have heff : Effect env (freshOnly env) (fun _ => True) s.persisted
      (s.persisted.setMark .waits r.id (r.setStatus .answered).mark) := by
    rw [Row.mark_setStatus]
    exact .settle .waits r.id r.wakeId .answered (hid ▸ hmark) (by decide) trivial
  have hchange := changeRow_triple (waitFrame_sound env (fun _ => True) p₀) h (hid ▸ hr)
    (Row.id_setStatus r .answered) (by rw [Row.status_setStatus]; decide) heff ⟨s, plan⟩ rfl
  unfold WaitCall.applyWaitReply
  rw [run_bind]
  cases hwrote : wrote plan with
  | false =>
    obtain ⟨e, t, rest, hrun, hmarked, hsame⟩ := markAnswered_cut hr hopened hwrote
    rw [hrun] at hchange
    rw [hmarked]
    exact ⟨hchange, .refused hwrote hsame⟩
  | true =>
    obtain ⟨t, hrun, hmarked⟩ := markAnswered_wrote hr hopened hwrote
    rw [hrun] at hchange
    obtain ⟨ht, hwritten⟩ := hchange
    rw [hmarked]
    have hpersisted : t.persisted = s.persisted.setMark .waits waitId (.answered, r.wakeId) := by
      rw [hwritten.persisted, Row.id_setStatus, hid, Row.mark_setStatus]
    have hanswered : t.persisted.marks .waits waitId = some (.answered, r.wakeId) := by
      rw [hpersisted, Persisted.marks_setMark, if_pos ⟨rfl, rfl⟩]
    have hnew' : waitId ∉ t.persisted.replied := by
      rw [hpersisted]
      exact hnew
    have hreply := sendReply_triple hu ht hanswered hnew' content userId choice messageId
      ⟨t, plan.drop 2⟩ rfl
    obtain ⟨hdone, hcut⟩ := sendReply_run hu ht content userId choice (some waitId) messageId
      (plan.drop 2)
    have hhead : cutsAppend plan = (plan.drop 2).head?.any (· ≠ .done) := by
      rw [cutsAppend, hwrote, Bool.true_and]
    cases happend : (plan.drop 2).head?.any (· ≠ .done) with
    | true =>
      obtain ⟨e, u, rest, hsend, hkept, hlog⟩ := hcut happend
      simp only [hsend] at hreply ⊢
      refine ⟨hreply, .lost (hhead.trans happend) ?_ ?_⟩
      · rw [hkept.marks, hpersisted]
      · rw [replied_congr (show u.persisted.log = t.persisted.log from hlog), hpersisted]
        rfl
    | false =>
      have hall : (plan.drop 2).head?.all (· = .done) = true := by
        cases hd : (plan.drop 2).head? with
        | none => rfl
        | some o =>
          rw [hd] at happend
          simpa using happend
      obtain ⟨u, rest, hsend⟩ := hdone hall
      simp only [hsend] at hreply ⊢
      obtain ⟨hlive, hkept, hreplied⟩ := hreply
      refine ⟨hlive, .sent (hhead.trans happend) ?_ ?_⟩
      · rw [hkept.marks, hpersisted]
      · rw [hreplied, hpersisted]
        rfl

end Runs
end Elyra.Presence
