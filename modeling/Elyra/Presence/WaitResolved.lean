import Elyra.Presence.WaitReplies

namespace Elyra.Presence

open Json TimerService

/-- How many wakes of the kind name the wait. -/
def wakesFor (kind : WakeKind) (waitId : String) (log : List WakeEvent) : Nat :=
  (log.filterMap enqueuedItem).countP fun item =>
    item.kind = kind ∧ textAt item.payload "wait_id" = some waitId

theorem wakesFor_reply (waitId : String) (p : Persisted) :
    wakesFor .waitReply waitId p.log = p.replied.count waitId := by
  unfold wakesFor Persisted.replied
  generalize p.log.filterMap enqueuedItem = items
  rw [List.count, List.countP_filterMap]
  apply List.countP_congr
  intro item _
  unfold replyTo
  cases hkind : item.kind <;> simp [SnapshotName.idKey]
  cases textAt item.payload "wait_id" <;> simp

theorem wakesFor_timeout (waitId : String) (p : Persisted) :
    wakesFor .waitTimeout waitId p.log = p.outbox.count (.waits, waitId) := by
  unfold wakesFor Outbox.count Persisted.outbox
  rw [List.countP_map]
  apply List.countP_congr
  intro item _
  simp only [Function.comp_apply, sourceOf]
  cases hkind : item.kind <;> simp [SnapshotName.idKey]

/-- What holds of every disk the service leaves behind. -/
structure Fine (env : Env) (p : Persisted) : Prop where
  sane : Sane env p
  named : Named env p
  distinct : p.outbox.Distinct
  once : p.outbox.Once

theorem Fine.effect {env : Env} {ends : Status → Prop} {p q : Persisted} (h : Fine env p)
    (he : Effect env (freshOnly env) ends p q) : Fine env q := by
  refine ⟨h.sane.effect ?_ he, h.named.effect he, h.distinct.step he.step,
    h.once.step ?_ h.distinct he.step⟩
  · exact waitFrame_sound env ends p p h.sane
  · rintro ⟨n, k⟩ hk
    apply Outbox.landed_idle
    intro id hid
    have hslot : (p.marks n k).map (slotOf n) = some (.fired id) := hid
    rw [hk.1] at hslot
    cases hslot

theorem Fine.effects {env : Env} {ends : Status → Prop} {p q : Persisted} (h : Fine env p)
    (he : Relation.ReflTransGen (Effect env (freshOnly env) ends) p q) : Fine env q := by
  induction he with
  | refl => exact h
  | tail _ hstep ih => exact ih.effect hstep

/-- A wait has one wake at most, whichever way it ended. -/
theorem Fine.single {env : Env} {p : Persisted} (h : Fine env p) (waitId : String) :
    wakesFor .waitReply waitId p.log + wakesFor .waitTimeout waitId p.log ≤ 1 := by
  rw [wakesFor_reply, wakesFor_timeout, h.once]
  by_cases hk : waitId ∈ p.replied
  · obtain ⟨x, hx⟩ := h.sane.answered waitId hk
    have hidle : p.outbox.landed (.waits, waitId) = 0 := by
      apply Outbox.landed_idle
      intro id hid
      have hslot : (p.marks .waits waitId).map (slotOf .waits) = some (.fired id) := hid
      rw [hx, Option.map_some, slotOf_ended .waits (by decide)] at hslot
      cases hslot
    rw [hidle]
    exact List.nodup_iff_count_le_one.mp h.sane.single waitId
  · rw [List.count_eq_zero_of_not_mem hk, Nat.zero_add]
    exact Outbox.landed_le_one _ _

/-- Every answered wait has its reply. -/
def RepliesKept (p : Persisted) : Prop :=
  ∀ k x, p.marks .waits k = some (.answered, x) → k ∈ p.replied

theorem RepliesKept.effect {env : Env} {p q : Persisted} (h : RepliesKept p)
    (he : Effect env (freshOnly env) (· ≠ .answered) p q) : RepliesKept q := by
  have marked {n : SnapshotName} {k : String} {m : Mark} (hm : m.1 ≠ .answered) :
      RepliesKept (p.setMark n k m) := by
    intro k' x hk'
    rw [Persisted.marks_setMark] at hk'
    split_ifs at hk'
    · exact absurd (congrArg Prod.fst (Option.some.inj hk')) hm
    · exact h k' x hk'
  have sent (ts : String) (item : WakeItem) : RepliesKept (p.append (.enqueue ts item)) := by
    intro k x hk
    rw [Persisted.replied_append]
    exact List.mem_append_left _ (h k x hk)
  cases he with
  | draw => exact h
  | install n k hallowed =>
    apply marked
    cases n <;> decide
  | settle n k x status opened ending hends => exact marked hends
  | fire n k x id opened fresh =>
    apply marked
    show n.closed ≠ .answered
    cases n <;> decide
  | send n k ts item | reply k ts x item | post ts item => exact sent ts item
  | other e hother =>
    intro k x hk
    rw [Persisted.replied, log_other hother]
    exact h k x hk

theorem RepliesKept.effects {env : Env} {p q : Persisted} (h : RepliesKept p)
    (he : Relation.ReflTransGen (Effect env (freshOnly env) (· ≠ .answered)) p q) :
    RepliesKept q := by
  induction he with
  | refl => exact h
  | tail _ hstep ih => exact ih.effect hstep

theorem decision_reply {a : InputArgs} {phase : Phase} {s : TimerService}
    (hok : (WaitCall.decision a phase s).ok = true)
    (hroute : (WaitCall.decision a phase s).routed = .waitReply) :
    ∃ w, WaitCall.pendingWait s = some w ∧ w.status = .pending ∧
      (WaitCall.decision a phase s).answerWaitId = waitIdOf (some w) := by
  unfold WaitCall.decision decideUserInput at hok hroute ⊢
  by_cases hphase : phase = .inMoment
  · simp only [hphase, if_true] at hroute
    split_ifs at hroute
  · simp only [hphase, if_false] at hok hroute ⊢
    by_cases hmatches : pendingWaitMatchesUser (WaitCall.pendingWait s) a.userId = true
    · simp only [hmatches, if_true] at hok hroute ⊢
      cases hw : WaitCall.pendingWait s with
      | none =>
        rw [hw] at hmatches
        cases hmatches
      | some w =>
        rw [hw] at hmatches
        have hpending : w.status = .pending := by
          have hboth : (decide (w.status = .pending ∧ w.userId = a.userId)) = true := by
            simpa [pendingWaitMatchesUser] using hmatches
          exact (of_decide_eq_true hboth).1
        refine ⟨w, rfl, hpending, ?_⟩
        split_ifs at hok hroute ⊢
        rfl
    · rw [Bool.not_eq_true] at hmatches
      simp only [hmatches, Bool.false_and, Bool.false_eq_true, if_false] at hroute
      split_ifs at hroute

section Run

variable [PyCoerce] [PyFloat]

/-- The snapshots can be read, the invariant holds of them, and the maps of a live service agree. -/
structure HostOk (env : Env) (h : Host) : Prop where
  loadable : h.service.Loadable
  fine : Fine env h.service.persisted
  ready : h.up = true → Prepared h.service

variable {env : Env}

theorem HostOk.live {h : Host} (hok : HostOk env h) (hup : h.up = true) (ends : Status → Prop) :
    Serving env (waitFrame env ends h.service.persisted) h.service :=
  ⟨⟨hok.loadable, .refl, hok.fine.sane⟩, hok.ready hup⟩

/-- What a host is after a section, and what the section wrote. -/
structure Advanced (env : Env) (ends : Status → Prop) (h h' : Host) : Prop where
  ok : HostOk env h'
  effects : Relation.ReflTransGen (Effect env (freshOnly env) ends) h.service.persisted
    h'.service.persisted

theorem advanced_broken {ends : Status → Prop} {h : Host} (hok : HostOk env h) {e : Fault}
    {t : TimerService} (ht : Broken env (waitFrame env ends h.service.persisted) e t) :
    Advanced env ends h ⟨t, decide (e ≠ .died)⟩ := by
  obtain ⟨hreached, hready⟩ := ht
  exact ⟨⟨hreached.loadable, hok.fine.effects hreached.effects,
    fun hup => hready (of_decide_eq_true hup)⟩, hreached.effects⟩

theorem advanced_live {ends : Status → Prop} {h : Host} (hok : HostOk env h) {t : TimerService}
    (ht : Serving env (waitFrame env ends h.service.persisted) t) : Advanced env ends h ⟨t, true⟩ :=
  ⟨⟨ht.loadable, hok.fine.effects ht.effects, fun _ => ht.toPrepared⟩, ht.effects⟩

theorem Host.perform_safe {ends : Status → Prop} {h : Host} (hok : HostOk env h)
    {m : ServiceM Unit}
    (hm : h.up = true → Safe env ends h.service.persisted h.service m) (plan : List Outcome) :
    Advanced env ends h (h.perform m plan) := by
  unfold Host.perform
  by_cases hup : h.up = true
  · rw [if_pos hup]
    have hrun := hm hup ⟨h.service, plan⟩ rfl
    cases hresult : m ⟨h.service, plan⟩ with
    | ok a t =>
      rw [hresult] at hrun
      exact advanced_live hok hrun
    | error e t =>
      rw [hresult] at hrun
      exact advanced_broken hok hrun
  · rw [if_neg hup]
    exact ⟨hok, .refl⟩

/-- The input is taken as a reply, and the append of its wake is not done although the wait was
recorded as answered. -/
def CutsReply (h : Host) : HostEvent WaitCall → Prop
  | .call (.resolveUserInput a phase _) plan =>
    h.up = true ∧ (WaitCall.decision a phase h.service).ok = true ∧
      (WaitCall.decision a phase h.service).routed = .waitReply ∧ cutsAppend plan = true
  | _ => False

theorem pendingWait_row {h : Host} (hready : Prepared h.service) {w : PendingWait}
    (hw : WaitCall.pendingWait h.service = some w) :
    (h.service.rows .waits).get? w.id = some w ∧ w.id ≠ "" := by
  have hmem := List.mem_of_mem_head? (Option.mem_def.mpr hw)
  unfold pendingWaits at hmem
  rw [List.mem_insertionSort, List.mem_filter] at hmem
  have hget := (hready.keyed .waits).mem_values hmem.1
  exact ⟨hget, (hready.keyed .waits).filled _ _ hget⟩

/-- How an input that is taken as a reply ends. -/
theorem perform_reply (hu : UuidDraws env) {h : Host} (hok : HostOk env h) (hup : h.up = true)
    {a : InputArgs} {phase : Phase} (buffer : InterjectBuffer)
    (hreply : (WaitCall.decision a phase h.service).ok = true)
    (hroute : (WaitCall.decision a phase h.service).routed = .waitReply) (plan : List Outcome) :
    let h' := h.perform (WaitCall.resolveInput env a phase buffer) plan
    Advanced env (fun _ => True) h h' ∧ ∃ waitId x,
      h.service.persisted.marks .waits waitId = some (.pending, x) ∧
        ReplyEnd h.service waitId x plan h'.service := by
  obtain ⟨w, hw, hpending, hid⟩ := decision_reply hreply hroute
  obtain ⟨hget, hne⟩ := pendingWait_row (hok.ready hup) hw
  have hsome : (WaitCall.decision a phase h.service).answerWaitId = some w.id := by
    rw [hid, waitIdOf, Option.map_some, Option.filter_some, if_pos (by simpa using hne)]
  have hspec := applyWaitReply_spec hu (hok.live hup _) hget hpending a.content a.userId a.choice
    a.messageId plan
  have hrun : WaitCall.resolveInput env a phase buffer ⟨h.service, plan⟩ =
      WaitCall.applyWaitReply env a.content a.userId a.choice (some w.id) a.messageId
        ⟨h.service, plan⟩ := by
    unfold WaitCall.resolveInput
    rw [run_bind]
    simp only [look, hreply, if_true, hroute, hsome]
  have hmark : h.service.persisted.marks .waits w.id = some (.pending, w.wakeId) := by
    rw [← (hok.ready hup).agrees .waits w.id, hget, ← hpending]
    rfl
  simp only [Host.perform, if_pos hup, hrun]
  cases hresult : WaitCall.applyWaitReply env a.content a.userId a.choice (some w.id) a.messageId
      ⟨h.service, plan⟩ with
  | ok u t =>
    rw [hresult] at hspec
    exact ⟨advanced_live hok hspec.1, w.id, w.wakeId, hmark, hspec.2⟩
  | error e t =>
    rw [hresult] at hspec
    exact ⟨advanced_broken hok hspec.1, w.id, w.wakeId, hmark, hspec.2⟩

/-- Every section but a reply leaves the answered waits alone. -/
theorem safe_section (hu : UuidDraws env) {h : Host} (hok : HostOk env h) (hup : h.up = true)
    (c : WaitCall) (hc : ∀ a phase buffer, c = .resolveUserInput a phase buffer →
      ¬((WaitCall.decision a phase h.service).ok = true ∧
        (WaitCall.decision a phase h.service).routed = .waitReply)) :
    Safe env (· ≠ .answered) h.service.persisted h.service (WaitCall.sectionOf env c) := by
  have hlive := hok.live hup (· ≠ .answered)
  have hcancel : (Status.cancelled ≠ .answered) := by decide
  cases c with
  | waitUser a armed now => exact safe_armNew hu hlive hok.fine.named a armed now
  | ensureWaitArmed uuid a armed now => exact safe_armUnknown hu hlive uuid a armed now
  | resolveUserInput a phase buffer =>
    have hnot := hc a phase buffer rfl
    apply triple_look_bind
    rintro d rfl
    apply triple_ite
    · intro hdecided
      show Safe _ _ _ _ _
      cases hroute : (WaitCall.decision a phase h.service).routed with
      | interject => exact safe_interject hu hlive _ _ _ _
      | waitReply => exact absurd ⟨hdecided, hroute⟩ hnot
      | userMessage =>
        exact (safe_cancelStale hlive hcancel _ _).bind fun _ _ ht => safe_userMessage hu ht _ _ _
    · exact fun _ => safe_pure () hlive
  | cancelWait waitId => exact safe_exceptKeyError (safe_cancelWait hlive hcancel waitId)
  | fireDue now => exact safe_poll hu hlive now
  | rehydrate now => exact safe_rehydrate hu hlive now
  | enqueue kind payload other => exact safe_enqueue hu hlive payload other
  | finish e other => exact safe_finish hlive e other

theorem step_restart {h : Host} (hok : HostOk env h) :
    Advanced env (· ≠ .answered) h (h.step (WaitCall.sectionOf env) .restart) := by
  have hreached : Reached env (waitFrame env (· ≠ .answered) h.service.persisted) h.service :=
    ⟨hok.loadable, .refl, hok.fine.sane⟩
  have hdown : HostOk env ⟨h.service, false⟩ := ⟨hok.loadable, hok.fine, fun hup => nomatch hup⟩
  have hload := load_triple hreached ⟨h.service, []⟩ rfl
  show Advanced env _ h (Host.perform ⟨h.service, true⟩ load [])
  unfold Host.perform
  rw [if_pos rfl]
  cases hresult : load ⟨h.service, []⟩ with
  | ok u t =>
    rw [hresult] at hload
    exact advanced_live hok hload.1
  | error e t =>
    rw [hresult] at hload
    exact advanced_broken hok hload

/-- One event keeps the invariant, and it keeps the replies exactly when it cuts none. -/
theorem step_spec (hu : UuidDraws env) {h : Host} (hok : HostOk env h) (e : HostEvent WaitCall) :
    HostOk env (h.step (WaitCall.sectionOf env) e) ∧
      (RepliesKept h.service.persisted →
        (RepliesKept (h.step (WaitCall.sectionOf env) e).service.persisted ↔ ¬CutsReply h e)) := by
  have quiet (hadvanced : Advanced env (· ≠ .answered) h (h.step (WaitCall.sectionOf env) e))
      (hcut : ¬CutsReply h e) : HostOk env (h.step (WaitCall.sectionOf env) e) ∧
        (RepliesKept h.service.persisted →
          (RepliesKept (h.step (WaitCall.sectionOf env) e).service.persisted ↔
            ¬CutsReply h e)) :=
    ⟨hadvanced.ok, fun hkept => iff_of_true (hkept.effects hadvanced.effects) hcut⟩
  cases e with
  | restart => exact quiet (step_restart hok) (fun hcut => hcut)
  | call c plan =>
    by_cases hreply : h.up = true ∧ ∃ a phase buffer, c = .resolveUserInput a phase buffer ∧
        (WaitCall.decision a phase h.service).ok = true ∧
          (WaitCall.decision a phase h.service).routed = .waitReply
    · obtain ⟨hup, a, phase, buffer, rfl, hdecided, hroute⟩ := hreply
      obtain ⟨hadvanced, waitId, x, hpending, hend⟩ :=
        perform_reply hu hok hup buffer hdecided hroute plan
      refine ⟨hadvanced.ok, fun hkept => ?_⟩
      have hcuts : CutsReply h (.call (.resolveUserInput a phase buffer) plan) ↔
          cutsAppend plan = true := ⟨fun hc => hc.2.2.2, fun hc => ⟨hup, hdecided, hroute, hc⟩⟩
      rw [hcuts, Bool.not_eq_true]
      show RepliesKept (h.perform (WaitCall.resolveInput env a phase buffer) plan).service.persisted
        ↔ _
      cases hend with
      | refused cut same =>
        rw [same]
        refine iff_of_true hkept ?_
        rw [cutsAppend, cut, Bool.false_and]
      | lost cut marks replied =>
        rw [cut]
        refine iff_of_false ?_ (by simp)
        intro hafter
        have hin := hafter waitId x (by rw [marks, Persisted.marks_setMark, if_pos ⟨rfl, rfl⟩])
        rw [replied] at hin
        obtain ⟨y, hy⟩ := hok.fine.sane.answered waitId hin
        rw [hpending] at hy
        cases hy
      | sent whole marks replied =>
        refine iff_of_true ?_ whole
        intro k y hk
        rw [marks, Persisted.marks_setMark] at hk
        rw [replied, List.mem_append, List.mem_singleton]
        split_ifs at hk with hcase
        · exact .inr hcase.2.symm
        · exact .inl (hkept k y hk)
    · apply quiet
      · apply Host.perform_safe hok
        intro hup
        apply safe_section hu hok hup
        rintro a phase buffer rfl ⟨hdecided, hroute⟩
        exact hreply ⟨hup, a, phase, buffer, rfl, hdecided, hroute⟩
      · intro hcut
        cases c with
        | resolveUserInput a phase buffer =>
          exact hreply ⟨hcut.1, a, phase, buffer, rfl, hcut.2.1, hcut.2.2.1⟩
        | waitUser | ensureWaitArmed | cancelWait | fireDue | rehydrate | enqueue | finish =>
          exact hcut

/-- The wait's answer is on disk. -/
def RecordedAnswered (s : TimerService) (waitId : String) : Prop :=
  ∃ x, s.persisted.marks .waits waitId = some (.answered, x)

/-- A wait has one wake at most, and an answered one has its reply. -/
def WaitsResolved (s : TimerService) : Prop :=
  ∀ waitId, wakesFor .waitReply waitId s.log + wakesFor .waitTimeout waitId s.log ≤ 1 ∧
    (RecordedAnswered s waitId → 0 < wakesFor .waitReply waitId s.log)

theorem waitsResolved_iff {s : TimerService} (h : Fine env s.persisted) :
    WaitsResolved s ↔ RepliesKept s.persisted := by
  have hreplied (k : String) : 0 < wakesFor .waitReply k s.log ↔ k ∈ s.persisted.replied := by
    rw [show s.log = s.persisted.log from rfl, wakesFor_reply, List.count_pos_iff]
  constructor
  · intro hres k x hk
    exact (hreplied k).mp ((hres k).2 ⟨x, hk⟩)
  · intro hkept k
    refine ⟨h.single k, ?_⟩
    rintro ⟨x, hx⟩
    exact (hreplied k).mpr (hkept k x hx)

/-- No reply of the run is cut between the record of the answer and its wake. -/
def KeepsReplies (env : Env) (h : Host) : List (HostEvent WaitCall) → Prop
  | [] => True
  | e :: rest => ¬CutsReply h e ∧ KeepsReplies env (h.step (WaitCall.sectionOf env) e) rest

theorem run_resolved_iff (hu : UuidDraws env) {h : Host} (hok : HostOk env h)
    (hkept : RepliesKept h.service.persisted) (events : List (HostEvent WaitCall)) :
    (∀ seen, seen <+: events → WaitsResolved (h.run (WaitCall.sectionOf env) seen).service) ↔
      KeepsReplies env h events := by
  induction events generalizing h with
  | nil =>
    refine iff_of_true ?_ trivial
    intro seen hseen
    rw [List.prefix_nil.mp hseen]
    exact (waitsResolved_iff hok.fine).mpr hkept
  | cons e rest ih =>
    obtain ⟨hok', hcut⟩ := step_spec hu hok e
    have hone := hcut hkept
    constructor
    · intro hall
      have hfirst := hall [e] ⟨rest, rfl⟩
      have hkept' := (waitsResolved_iff hok'.fine).mp hfirst
      refine ⟨hone.mp hkept', (ih hok' hkept').mp ?_⟩
      intro seen hseen
      exact hall (e :: seen) (List.cons_prefix_cons.mpr ⟨rfl, hseen⟩)
    · rintro ⟨hnot, hkeeps⟩ seen hseen
      cases seen with
      | nil => exact (waitsResolved_iff hok.fine).mpr hkept
      | cons x seen =>
        obtain ⟨rfl, htail⟩ := List.cons_prefix_cons.mp hseen
        exact (ih hok' (hone.mpr hnot)).mpr hkeeps seen htail

theorem marks_start (n : SnapshotName) (k : String) :
    TimerService.start.persisted.marks n k = none := by
  cases n <;> rfl

theorem fine_start : Fine env TimerService.start.persisted := by
  have hslots (k : SnapshotName × String) (id : String) :
      TimerService.start.persisted.outbox.slots k ≠ some (.fired id) := by
    intro h
    have hmap : (TimerService.start.persisted.marks k.1 k.2).map (slotOf k.1) =
        some (.fired id) := h
    rw [marks_start] at hmap
    cases hmap
  refine ⟨⟨?_, ?_, .nil⟩, ?_, ?_, ?_⟩
  · rintro id (h | ⟨n, k, status, h⟩)
    · exact (List.not_mem_nil h).elim
    · rw [marks_start] at h
      cases h
  · exact fun k hk => (List.not_mem_nil hk).elim
  · intro n k h
    rw [marks_start] at h
    exact absurd rfl h
  · intro j k id hj
    exact absurd hj (hslots j id)
  · intro k
    rw [Outbox.landed_idle (hslots k)]
    rfl

theorem hostOk_start : HostOk env Host.start := by
  refine ⟨?_, fine_start, fun _ => ⟨?_, ?_⟩⟩
  · intro n
    refine ⟨.empty, ?_, keyed_empty⟩
    cases n <;> rfl
  · intro n
    cases n <;> exact keyed_empty
  · intro n k
    cases n <;> rfl

theorem repliesKept_start : RepliesKept TimerService.start.persisted := by
  intro k x hk
  rw [marks_start] at hk
  cases hk

/-- Along a run from an empty directory every wait has at most one wake and every answered wait
its reply, if and only if no reply is cut between its two writes. -/
theorem waits_resolved_iff (hu : UuidDraws env) (events : List (HostEvent WaitCall)) :
    (∀ seen, seen <+: events →
      WaitsResolved (Host.run (WaitCall.sectionOf env) .start seen).service) ↔
    KeepsReplies env .start events :=
  run_resolved_iff hu hostOk_start repliesKept_start events

end Run

def sampleArming : HostEvent WaitCall :=
  .call (.waitUser ⟨"Deploy?", "operator", "m1", some "2026-01-01T01:00:00Z", none, [], none⟩
    ⟨0, zero_lt_instantCount⟩ ⟨0, zero_lt_instantCount⟩) []

def sampleReply (plan : List Outcome) : HostEvent WaitCall :=
  .call (.resolveUserInput ⟨"yes", "operator", none, true, some "msg1", false⟩ .waiting .empty) plan

attribute [local instance] basicCoerce basicFloat

theorem waits_resolved_iff_sample : WaitsResolved
    (Host.run (WaitCall.sectionOf countingEnv) .start
      [sampleArming, sampleReply [], .restart]).service :=
  (waits_resolved_iff countingEnv_uuidDraws [sampleArming, sampleReply [], .restart]).mpr
    ⟨fun h => h, fun h => (nomatch h.2.2.2), fun h => h, trivial⟩ _ (List.prefix_refl _)

/-- The process dies between the two writes of a reply, starts again and rehydrates. -/
def lostReply : List (HostEvent WaitCall) :=
  [sampleArming, sampleReply [.done, .done, .dies], .restart,
    .call (.rehydrate ⟨0, zero_lt_instantCount⟩) []]

theorem cut_reply_is_lost : ¬WaitsResolved
    (Host.run (WaitCall.sectionOf countingEnv) .start lostReply).service := by
  intro h
  have hlost := (h "uuid-0").2 ⟨none, by decide +kernel⟩
  revert hlost
  decide +kernel

end Elyra.Presence
