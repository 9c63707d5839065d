import Elyra.Presence.WaitResolved

namespace Elyra.Presence

open Json TimerService

/-- The lock-held sections of the worker and its tools that touch timers, waits or the wake log. -/
inductive TimerCall where
  | wait (c : WaitCall)
  | scheduleTimer (wakeAt reason : String) (goalId taskId : Json)
  | cancelTimer (timerId : String)

/-- The tool leaves the id of a timer to be drawn. -/
def TimerCall.sectionOf (env : Env) [PyCoerce] [PyFloat] : TimerCall → ServiceM Unit
  | wait c => WaitCall.sectionOf env c
  | scheduleTimer wakeAt reason goalId taskId => do
    let _ ← TimerService.scheduleTimer env wakeAt reason goalId taskId none
  | cancelTimer timerId => TimerService.cancelTimer timerId

/-- How many wakes were enqueued for the firing of a row. -/
def firings (n : SnapshotName) (k : String) (log : List WakeEvent) : Nat :=
  (log.filterMap enqueuedItem).countP fun item => sourceOf item = some (n, k)

theorem firings_eq_count (n : SnapshotName) (k : String) (p : Persisted) :
    firings n k p.log = p.outbox.count (n, k) := by
  unfold firings Outbox.count Persisted.outbox
  rw [List.countP_map]
  rfl

/-- A row is open, or a caller ended it, or it was closed under the id of a wake. -/
def Marked (p : Persisted) : Prop :=
  ∀ n k m, p.marks n k = some m →
    m.1 = n.opened ∨ m.1 ∈ endings ∨ ∃ id, m = (n.closed, some id)

theorem Marked.effect {env : Env} {allowed : Persisted → SnapshotName → String → Prop}
    {ends : Status → Prop} {p q : Persisted} (h : Marked p) (he : Effect env allowed ends p q) :
    Marked q := by
  have marked {n : SnapshotName} {k : String} {m : Mark}
      (hm : m.1 = n.opened ∨ m.1 ∈ endings ∨ ∃ id, m = (n.closed, some id)) :
      Marked (p.setMark n k m) := by
    intro n' k' m' hk'
    rw [Persisted.marks_setMark] at hk'
    split_ifs at hk' with hsame
    · obtain ⟨rfl, rfl⟩ := hsame
      rw [← Option.some.inj hk']
      exact hm
    · exact h n' k' m' hk'
  cases he with
  | install n k hallowed => exact marked (.inl rfl)
  | settle n k x status opened ending hends => exact marked (.inr (.inl ending))
  | fire n k x id opened fresh => exact marked (.inr (.inr ⟨id, rfl⟩))
  | draw | send | reply | post | other => exact h

theorem Marked.effects {env : Env} {allowed : Persisted → SnapshotName → String → Prop}
    {ends : Status → Prop} {p q : Persisted} (h : Marked p)
    (he : Relation.ReflTransGen (Effect env allowed ends) p q) : Marked q := by
  induction he with
  | refl => exact h
  | tail _ hstep ih => exact ih.effect hstep

theorem closed_not_ending (n : SnapshotName) : n.closed ∉ endings := by
  cases n <;> decide

/-- How often a row has fired, by what its snapshot says of it. -/
theorem Fine.firings {env : Env} {p : Persisted} (h : Fine env p) (n : SnapshotName) (k : String) :
    firings n k p.log ≤ 1 ∧
      (0 < firings n k p.log → ∃ id, p.marks n k = some (n.closed, some id)) ∧
      (AllSent p n → ∀ id, p.marks n k = some (n.closed, some id) → firings n k p.log = 1) := by
  rw [firings_eq_count, h.once]
  refine ⟨Outbox.landed_le_one _ _, ?_, ?_⟩
  · intro hpos
    by_contra hnone
    refine absurd hpos (Nat.not_lt.mpr (Nat.le_of_eq (Outbox.landed_idle ?_)))
    intro id hid
    have hslot : (p.marks n k).map (slotOf n) = some (.fired id) := hid
    obtain ⟨m, hm, hfired⟩ := Option.map_eq_some_iff.mp hslot
    rw [fired_of_slotOf hfired] at hm
    exact hnone ⟨id, hm⟩
  · intro hsent id hid
    have hslot : p.outbox.slots (n, k) = some (.fired id) := by
      show (p.marks n k).map (slotOf n) = _
      rw [hid, Option.map_some, slotOf_closed]
    have hmem : id ∈ p.outbox.sent.map Prod.snd := by
      rw [Persisted.sent_ids]
      exact hsent k id hid
    unfold Outbox.landed
    rw [hslot]
    exact if_pos hmem

section Run

variable [PyCoerce] [PyFloat] {env : Env} {ends : Status → Prop} {p₀ : Persisted}

theorem safe_scheduleTimer (hu : UuidDraws env) {s : TimerService}
    (h : Serving env (waitFrame env ends p₀) s) (hnamed : Named env s.persisted)
    (wakeAt reason : String) (goalId taskId : Json) :
    Safe env ends p₀ s
      (do let _ ← TimerService.scheduleTimer env wakeAt reason goalId taskId none) := by
  apply Safe.bind
  · apply triple_bind (Q := fun _ d => d = s)
    · apply triple_attempt
      · exact fun _ _ _ hd => hd
      · exact fun _ _ hd => hd ▸ h.broken _
    intro _
    apply triple_bind (draw_triple (waitFrame_sound env ends p₀) h env.uuid4)
    intro timerId
    apply triple_each
    rintro t ⟨rfl, hd, ht⟩
    let timer : PendingTimer :=
      ⟨env.uuid4 s.draws, wakeAt, reason, goalId, taskId, .scheduled, none⟩
    have hfree : t.persisted.marks .timers (env.uuid4 s.draws) = none := by
      rw [hd.marks]
      by_contra hne
      obtain ⟨i, hi, heq⟩ := hnamed _ _ hne
      have hlt : i < s.draws := hi
      rw [hu.injective heq] at hlt
      exact lt_irrefl _ hlt
    have hdrawn : s.draws < t.draws := by
      rw [hd.draws]
      exact Nat.lt_succ_self _
    apply triple_bind (install_triple (n := .timers) (r := timer) (waitFrame_sound env ends p₀) ht
      (hu.filled s.draws) rfl ⟨hfree, s.draws, hdrawn, rfl⟩)
    intro _
    exact triple_pure _ fun _ hd => hd.1
  · exact fun _ t ht => safe_pure () ht

theorem safe_cancelTimer {s : TimerService} (h : Serving env (waitFrame env ends p₀) s)
    (hends : ends .cancelled) (timerId : String) :
    Safe env ends p₀ s (TimerService.cancelTimer timerId) :=
  (settle_triple (waitFrame_sound env ends p₀) h timerId (by decide) hends).weaken
    (fun _ hd => hd) (fun _ _ hq => hq.1) (fun _ _ he => he)

/-- What holds of the service after any run. -/
structure TimersOk (env : Env) (h : Host) : Prop where
  host : HostOk env h
  marked : Marked h.service.persisted

theorem TimersOk.advanced (ends : Status → Prop) {h h' : Host} (hok : TimersOk env h)
    (ha : Advanced env ends h h') : TimersOk env h' :=
  ⟨ha.ok, hok.marked.effects ha.effects⟩

/-- A section of the waits, as a step of the same host. -/
theorem TimersOk.wait (hu : UuidDraws env) {h : Host} (hok : TimersOk env h) (c : WaitCall)
    (plan : List Outcome) : TimersOk env (h.perform (WaitCall.sectionOf env c) plan) := by
  by_cases hreply : h.up = true ∧ ∃ a phase buffer, c = .resolveUserInput a phase buffer ∧
      (WaitCall.decision a phase h.service).ok = true ∧
        (WaitCall.decision a phase h.service).routed = .waitReply
  · obtain ⟨hup, a, phase, buffer, rfl, hdecided, hroute⟩ := hreply
    exact hok.advanced _ (perform_reply hu hok.host hup buffer hdecided hroute plan).1
  · apply hok.advanced (· ≠ .answered) (Host.perform_safe hok.host _ plan)
    intro hup
    apply safe_section hu hok.host hup
    rintro a phase buffer rfl ⟨hdecided, hroute⟩
    exact hreply ⟨hup, a, phase, buffer, rfl, hdecided, hroute⟩

theorem TimersOk.step (hu : UuidDraws env) {h : Host} (hok : TimersOk env h)
    (e : HostEvent TimerCall) : TimersOk env (h.step (TimerCall.sectionOf env) e) := by
  cases e with
  | restart => exact hok.advanced _ (step_restart hok.host)
  | call c plan =>
    cases c with
    | wait c => exact hok.wait hu c plan
    | scheduleTimer wakeAt reason goalId taskId =>
      apply hok.advanced (fun _ => True) (Host.perform_safe hok.host _ plan)
      intro hup
      exact safe_scheduleTimer hu (hok.host.live hup _) hok.host.fine.named wakeAt reason goalId
        taskId
    | cancelTimer timerId =>
      apply hok.advanced (fun _ => True) (Host.perform_safe hok.host _ plan)
      intro hup
      exact safe_cancelTimer (hok.host.live hup _) trivial timerId

theorem timersOk_start : TimersOk env Host.start := by
  refine ⟨hostOk_start, ?_⟩
  intro n k m hm
  rw [show Host.start.service.persisted.marks n k = none from marks_start n k] at hm
  cases hm

theorem timersOk_run (hu : UuidDraws env) (events : List (HostEvent TimerCall)) :
    TimersOk env (Host.run (TimerCall.sectionOf env) .start events) := by
  have hrun (h : Host) (hok : TimersOk env h) :
      TimersOk env (h.run (TimerCall.sectionOf env) events) := by
    induction events generalizing h with
    | nil => exact hok
    | cons e rest ih => exact ih _ (hok.step hu e)
  exact hrun _ timersOk_start

/-- Whatever is refused or cut by a crash, a row fires once at most, and only a row that is recorded
as fired has a wake: one that was cancelled or answered has none. -/
theorem timers_fire_at_most_once (hu : UuidDraws env) (events : List (HostEvent TimerCall))
    (n : SnapshotName) (k : String) :
    let s := (Host.run (TimerCall.sectionOf env) .start events).service
    firings n k s.log ≤ 1 ∧
      (0 < firings n k s.log → ∃ id, s.persisted.marks n k = some (n.closed, some id)) ∧
      ∀ m, s.persisted.marks n k = some m → m.1 = n.opened ∨ m.1 ∈ endings →
        firings n k s.log = 0 := by
  intro s
  have hok := timersOk_run hu events
  obtain ⟨hone, hclosed, -⟩ := hok.host.fine.firings n k
  refine ⟨hone, hclosed, ?_⟩
  intro m hm hstatus
  by_contra hpos
  obtain ⟨id, hid⟩ := hclosed (Nat.pos_of_ne_zero hpos)
  have hmark : m = (n.closed, some id) := Option.some.inj (hm.symm.trans hid)
  rw [hmark] at hstatus
  exact hstatus.elim (opened_ne_closed n) (closed_not_ending n)

/-- After a rehydrate that goes through, each row that nobody ended has fired exactly once or is not
due. -/
theorem rehydrated_exactly_once (hu : UuidDraws env) (events : List (HostEvent TimerCall))
    (now : Instant) (plan plan' : List Outcome) (t : TimerService)
    (hup : (Host.run (TimerCall.sectionOf env) .start events).up = true)
    (hrun : TimerCall.sectionOf env (.wait (.rehydrate now))
      ⟨(Host.run (TimerCall.sectionOf env) .start events).service, plan⟩ = .ok () ⟨t, plan'⟩)
    (n : SnapshotName) (k : String) (r : Row n) (hr : (t.rows n).get? k = some r)
    (hstatus : r.status ∉ endings) :
    r.status = n.opened ∧ r.isDue now = .ok false ∧ firings n k t.log = 0 ∨
      r.status = n.closed ∧ firings n k t.log = 1 := by
  have hok := timersOk_run hu events
  generalize Host.run (TimerCall.sectionOf env) .start events = h at hok hup hrun
  have hserving := hok.host.live hup (fun _ => True)
  have hresult : TimerService.rehydrate env now ⟨h.service, plan⟩ = .ok () ⟨t, plan'⟩ := hrun
  have hspec := @rehydrate_triple _ _ _ _ (waitFrame_sound env _ _) hu now _ hserving
    ⟨h.service, plan⟩ rfl
  rw [hresult] at hspec
  obtain ⟨ht, hdone⟩ := hspec
  have hfine := hok.host.fine.effects ht.effects
  obtain ⟨hone, hclosed, hsent⟩ := hfine.firings n k
  have hmark : t.persisted.marks n k = some r.mark := by
    rw [← ht.agrees n k, hr]
    rfl
  obtain hopened | hending | ⟨id, hid⟩ := (hok.marked.effects ht.effects) n k r.mark hmark
  · refine .inl ⟨hopened, hdone.settled n k r hr hopened, ?_⟩
    by_contra hpos
    obtain ⟨id, hid⟩ := hclosed (Nat.pos_of_ne_zero hpos)
    have heq : r.mark = (n.closed, some id) := Option.some.inj (hmark.symm.trans hid)
    rw [heq] at hopened
    exact opened_ne_closed n hopened
  · exact absurd hending hstatus
  · refine .inr ⟨congrArg Prod.fst hid, ?_⟩
    rw [hid] at hmark
    exact hsent (hdone.sent n) id hmark

end Run

section Sample

attribute [local instance] basicCoerce basicFloat

theorem pred_instantCount_lt : instantCount - 1 < instantCount := by
  decide

/-- A due timer is marked as fired, and the process dies before its wake. -/
def cutFiring : List (HostEvent TimerCall) :=
  [.call (.scheduleTimer "2026-01-01T00:00:00Z" "" .null .null) [],
    .call (.wait (.fireDue ⟨instantCount - 1, pred_instantCount_lt⟩)) [.done, .done, .dies],
    .restart]

def cutHost : Host := Host.run (TimerCall.sectionOf countingEnv) .start cutFiring

theorem timers_fire_at_most_once_sample : firings .timers "uuid-0" cutHost.service.log ≤ 1 :=
  (timers_fire_at_most_once countingEnv_uuidDraws cutFiring .timers "uuid-0").1

def recovered : EStateM.Result Fault (Faulty TimerService) Unit :=
  TimerCall.sectionOf countingEnv (.wait (.rehydrate ⟨0, zero_lt_instantCount⟩))
    ⟨cutHost.service, []⟩

/-- The next rehydrate makes up for it. -/
theorem rehydrated_exactly_once_sample :
    firings .timers "uuid-0" cutHost.service.log = 0 ∧
      firings .timers "uuid-0" (after recovered).disk.log = 1 := by
  refine ⟨by decide +kernel, ?_⟩
  have hok : clean (fun _ => true) recovered = true := by
    decide +kernel
  have hrun : recovered = .ok () ⟨(after recovered).disk, (after recovered).plan⟩ := by
    cases h : recovered with
    | ok a s => rfl
    | error e s => rw [h] at hok; cases hok
  have hstatus : (((after recovered).disk.rows .timers).get? "uuid-0").map Row.status =
      some .fired := by
    decide +kernel
  obtain ⟨r, hrow, hfired⟩ := Option.map_eq_some_iff.mp hstatus
  obtain ⟨hopened, -⟩ | ⟨-, hone⟩ := rehydrated_exactly_once countingEnv_uuidDraws cutFiring
    ⟨0, zero_lt_instantCount⟩ [] _ _ (by decide +kernel) hrun .timers "uuid-0" r hrow
    (by rw [hfired]; decide)
  · rw [hfired] at hopened
    cases hopened
  · exact hone

end Sample
end Elyra.Presence
