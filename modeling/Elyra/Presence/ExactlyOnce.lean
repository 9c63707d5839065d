import Elyra.Presence.InputDelivery
import Elyra.Presence.Priority

namespace Elyra.Presence

open Json

section Sections

variable {env : Env} (hinj : Function.Injective env.uuid4)

/-- The input of a wake with this kind and payload. -/
def inputOf (kind : WakeKind) (payload : Payload) : Multiset Input :=
  ((wakeInput kind payload).toList : List Input)

theorem waked_enqueue (ts : String) (item : WakeItem) :
    waked [.enqueue ts item] = inputOf item.kind item.payload := by
  have hevent : eventInput (.enqueue ts item) = wakeInput item.kind item.payload := rfl
  unfold waked inputOf
  rw [List.filterMap_cons, hevent]
  cases wakeInput item.kind item.payload <;> rfl

theorem inputOf_quiet {kind : WakeKind} (hk : kind.social = false) (payload : Payload) :
    inputOf kind payload = 0 := by
  unfold inputOf wakeInput
  rw [hk]
  rfl

include hinj in
/-- An enqueue returns, and is the input its payload carries. -/
theorem enqueueWake_moved (kind : WakeKind) (payload : Payload) (wakeId : Option String)
    {s : Worker} (h : Good env s.world) (hid : ∀ id ∈ wakeId, ∃ n, n < s.world.draws ∧
      id = env.uuid4 n ∧ s.world.queue.ops.get? id = none) :
    ∃ item t, enqueueWake env kind payload wakeId s = .ok item t ∧
      Moved env s t (inputOf kind payload) 0 ∧ t.interject = s.interject ∧ t.phase = s.phase ∧
      t.waits = s.waits := by
  obtain ⟨ts, item, w, hrun, hgood, hlog, hkind, hpayload⟩ :=
    enqueue_good hinj kind payload wakeId h hid
  refine ⟨item, { s with world := w }, ?_, ⟨⟨_, hlog, ?_⟩, hgood⟩, rfl, rfl, rfl⟩
  · unfold enqueueWake onQueue
    rw [hrun]
  · rw [waked_enqueue, hkind, hpayload, add_zero]
    rfl

include hinj in
theorem quiet_enqueueWake {kind : WakeKind} (hk : kind.social = false) (payload : Payload) :
    Quiet env (enqueueWake env kind payload none) := by
  intro s h
  obtain ⟨item, t, hrun, hmoved, hinterject, hphase, -⟩ :=
    enqueueWake_moved hinj kind payload none h (by simp)
  rw [hrun]
  rw [inputOf_quiet hk] at hmoved
  exact ⟨hmoved, hinterject, hphase⟩

theorem messageIdOr_still (messageId : Option String) {s : Worker} (h : Good env s.world) :
    ∃ mid t, messageIdOr env messageId s = .ok mid t ∧ @Still env s t ∧
      t.waits = s.waits := by
  have hquiet := quiet_onQueue (queueQuiet_orDefault messageId env.uuid4) s h
  have hrun : messageIdOr env messageId s = .ok (chosen messageId env.uuid4 s.world.draws).1
      { s with world :=
        { s.world with draws := (chosen messageId env.uuid4 s.world.draws).2 } } := by
    unfold messageIdOr onQueue
    rw [orDefault_draw]
  refine ⟨_, _, hrun, ?_, rfl⟩
  unfold messageIdOr at hrun
  rw [hrun] at hquiet
  exact hquiet

theorem inputOf_userPayload (content userId mid : String) :
    inputOf .userMessage (userPayload content userId mid) = {⟨content, userId⟩} := by
  have hcontent : (userPayload content userId mid).get? "content" = some (.str content) := by
    rw [userPayload, Dict.get?_ofList _ (by simp)]
    rfl
  have huser : (userPayload content userId mid).get? "user_id" = some (.str userId) := by
    rw [userPayload, Dict.get?_ofList _ (by simp)]
    rfl
  unfold inputOf wakeInput
  rw [hcontent, huser]
  rfl

theorem inputOf_marked (content userId mid key : String) (v : Json) (hc : key ≠ "content")
    (hu : key ≠ "user_id") :
    inputOf .userMessage ((userPayload content userId mid).set key v) = {⟨content, userId⟩} := by
  rw [← inputOf_userPayload content userId mid]
  unfold inputOf wakeInput
  rw [Dict.get?_set_ne _ _ hc, Dict.get?_set_ne _ _ hu]

include hinj in
/-- A message of a user becomes one wake of the user's. -/
theorem send_moved (messageId : Option String) (payload : String → Payload) (x : Input)
    (hp : ∀ mid, inputOf .userMessage (payload mid) = {x}) {α : Type} (f : WakeItem → String → α)
    {s : Worker} (h : Good env s.world) :
    ∃ a t, (do
        let mid ← messageIdOr env messageId
        let item ← enqueueWake env .userMessage (payload mid) none
        return f item mid : Section α) s = .ok a t ∧ (∃ item mid, a = f item mid) ∧
      Moved env s t {x} 0 ∧ t.interject = s.interject ∧ t.phase = s.phase := by
  obtain ⟨mid, u, hmid, hstill, -⟩ := messageIdOr_still messageId h
  obtain ⟨item, t, hrun, hmoved, hinterject, hphase, -⟩ :=
    enqueueWake_moved hinj .userMessage (payload mid) none hstill.moved.good (by simp)
  refine ⟨f item mid, t, ?_, ⟨item, mid, rfl⟩, ?_, ?_, ?_⟩
  · rw [run_bind, hmid]
    show (enqueueWake env .userMessage (payload mid) none >>= _) u = _
    rw [run_bind, hrun]
    rfl
  · have hboth := hstill.moved.trans hmoved
    rw [hp mid, zero_add, add_zero] at hboth
    exact hboth
  · exact hinterject.trans hstill.interject
  · exact hphase.trans hstill.phase

/-- The answer counts the input as taken: answered ok, or refused for the full buffer only. -/
def Reply.taken (r : Reply) : Bool := r.ok || r.reason = some InterjectBuffer.reasonBufferFull

include hinj in
theorem interjectOpen_moved (content userId : String) (messageId : Option String) {s : Worker}
    (h : Good env s.world) :
    ∃ r t, interjectOpen env content userId messageId s = .ok r t ∧ r.taken = true ∧
      r.routed ≠ some .waitReply ∧ Moved env s t {⟨content, userId⟩} 0 ∧ t.phase = s.phase ∧
      (s.phase ≠ .inMoment → t.interject = s.interject) := by
  show ∃ r t, (if s.phase ≠ .inMoment then _ else _ : Section Reply) s = .ok r t ∧ _
  by_cases hphase : s.phase = .inMoment
  · rw [if_neg (not_not.mpr hphase)]
    cases hadd : s.interject.tryAdd ⟨content, userId, messageId⟩ with
    | some buffer =>
      refine ⟨_, { s with interject := buffer }, rfl, rfl, by simp, ?_, rfl,
        fun hne => absurd hphase hne⟩
      refine ⟨⟨[], ?_, ?_⟩, h⟩
      · rw [eventBytes_nil, ByteArray.append_empty]
      · have hitems := InterjectBuffer.items_tryAdd hadd
        show ((buffer.items.map InterjectItem.input : List Input) : Multiset Input) + 0 + 0 = _
        rw [hitems, List.map_append, ← Multiset.coe_add, add_zero, add_zero]
        rfl
    | none =>
      obtain ⟨r, t, hrun, ⟨item, mid, rfl⟩, hmoved, hinterject, hsame⟩ := send_moved hinj messageId
        (fun mid => (userPayload content userId mid).set "from_interject_overflow" (.bool true))
        ⟨content, userId⟩ (fun mid => inputOf_marked content userId mid _ _ (by decide) (by decide))
        (fun item _ => overflowReply item) h
      exact ⟨_, t, hrun, rfl, by simp [overflowReply], hmoved, hsame, fun _ => hinterject⟩
  · rw [if_pos hphase]
    obtain ⟨r, t, hrun, ⟨item, mid, rfl⟩, hmoved, hinterject, hsame⟩ := send_moved hinj messageId
      (userPayload content userId) ⟨content, userId⟩ (inputOf_userPayload content userId)
      (fun item _ => notInMomentReply item) h
    exact ⟨_, t, hrun, rfl, by simp [notInMomentReply], hmoved, hsame, fun _ => hinterject⟩

/-- An API call returned, and took in what its answer says. -/
structure Took (s : Worker) (r : Reply) (t : Worker) (x : Input) : Prop where
  moved : Moved env s t (if r.taken then {x} else 0) 0
  phase : t.phase = .inMoment ↔ s.phase = .inMoment
  interject : s.phase ≠ .inMoment → t.interject = s.interject

theorem took_nothing {s : Worker} (h : Good env s.world) (r : Reply) (hr : r.taken = false)
    (x : Input) : @Took env s r s x := by
  refine ⟨?_, Iff.rfl, fun _ => rfl⟩
  rw [hr]
  exact .refl h

include hinj in
theorem interject_took (content userId : String) (messageId : Option String) {s : Worker}
    (h : Good env s.world) : ∃ r t, interject env content userId messageId s = .ok r t ∧
      r.routed ≠ some .waitReply ∧ @Took env s r t ⟨content, userId⟩ := by
  show ∃ r t, (if s.continuous.resetting then _ else _ : Section Reply) s = .ok r t ∧ _
  split_ifs
  · exact ⟨resettingReply, s, rfl, by simp [resettingReply], took_nothing h _ rfl _⟩
  · obtain ⟨r, t, hrun, htaken, hroute, hmoved, hphase, hinterject⟩ :=
      interjectOpen_moved hinj content userId messageId h
    refine ⟨r, t, hrun, hroute, ?_, by rw [hphase], hinterject⟩
    rw [htaken]
    exact hmoved

/-- What a wait reply delivers: its text, or the choice when there is none. -/
def replyInput (a : InputArgs) : Input :=
  ⟨if stripText a.content = "" then (a.choice.map stripText).getD "" else stripText a.content,
    a.userId⟩

theorem inputOf_replyPayload (content userId choice mid : String) (waitId : Option String) :
    inputOf .waitReply (replyPayload content userId choice mid waitId) =
      {⟨if content = "" then choice else content, userId⟩} := by
  have hget : ∀ k, k ≠ "wait_id" → k ≠ "choice" →
      (replyPayload content userId choice mid waitId).get? k = Dict.findItem [("user_id",
        Json.str userId), ("content", .str (if content = "" then choice else content)),
        ("message_id", .str mid)] k := by
    intro k hw hc
    have hnodup : ([("user_id", Json.str userId),
        ("content", .str (if content = "" then choice else content)),
        ("message_id", .str mid)].map Prod.fst).Nodup := by simp
    rw [← Dict.get?_ofList _ hnodup k]
    have hskip : ∀ p : Payload, (if choice = "" then p else p.set "choice" (.str choice)).get? k =
        p.get? k := by
      intro p
      split_ifs
      · rfl
      · exact Dict.get?_set_ne _ _ (Ne.symm hc)
    unfold replyPayload
    rw [hskip]
    cases waitId with
    | none => rfl
    | some wid => exact Dict.get?_set_ne _ _ (Ne.symm hw)
  unfold inputOf wakeInput
  rw [hget "content" (by decide) (by decide), hget "user_id" (by decide) (by decide)]
  rfl

include hinj in
theorem applyWaitReply_took (a : InputArgs) (waitId : Option String) {s : Worker}
    (h : Good env s.world) :
    ∃ r t, applyWaitReply env a.content a.userId a.choice waitId a.messageId s = .ok r t ∧
      r.routed = some .waitReply ∧ @Took env s r t (replyInput a) := by
  have hsame : (answerWait waitId s).world = s.world ∧
      (answerWait waitId s).interject = s.interject ∧ (answerWait waitId s).phase = s.phase := by
    cases waitId <;> exact ⟨rfl, rfl, rfl⟩
  obtain ⟨hworld, hinterject, hphase⟩ := hsame
  have hgood : Good env (answerWait waitId s).world := by
    rw [hworld]
    exact h
  obtain ⟨mid, v, hmid, hstill, -⟩ := messageIdOr_still a.messageId hgood
  obtain ⟨item, t, hrun, hmoved, hi, hp, -⟩ := enqueueWake_moved hinj .waitReply
    (replyPayload (stripText a.content) a.userId ((a.choice.map stripText).getD "") mid waitId) none
    hstill.moved.good (by simp)
  refine ⟨waitReplyReply item waitId mid, t, ?_, rfl, ?_, ?_, ?_⟩
  · rw [applyWaitReply, run_bind, run_modify]
    show (messageIdOr env a.messageId >>= _) (answerWait waitId s) = _
    rw [run_bind, hmid]
    show (enqueueWake env .waitReply _ none >>= _) v = _
    rw [run_bind, hrun]
    rfl
  · have hfirst := moved_of_same h hworld hinterject
    have hboth := (hfirst.trans hstill.moved).trans hmoved
    rw [inputOf_replyPayload] at hboth
    rw [zero_add, zero_add, add_zero] at hboth
    exact hboth
  · rw [hp, hstill.phase, hphase]
  · intro _
    rw [hi, hstill.interject, hinterject]

theorem decide_refused (content userId : String) (choice : Option String) (fromWaitApi : Bool)
    (phase : Phase) (pendingWait : Option PendingWait) (hasAttachments : Bool)
    (h : (decideUserInput content userId choice fromWaitApi phase pendingWait hasAttachments).ok =
      false) :
    (decideUserInput content userId choice fromWaitApi phase pendingWait hasAttachments).reason =
      some "empty_content" := by
  revert h
  unfold decideUserInput
  by_cases hphase : phase = .inMoment
  · simp only [hphase, if_true]
    split_ifs <;> simp
  · simp only [hphase, if_false]
    split_ifs <;> simp

theorem cancelStale_frame (pending : Option PendingWait) (s : Worker) :
    (cancelStale pending s).world = s.world ∧ (cancelStale pending s).interject = s.interject ∧
      ((cancelStale pending s).phase = .inMoment ↔ s.phase = .inMoment) := by
  unfold cancelStale
  cases waitIdOf pending with
  | none =>
    simp only
    split_ifs with hidle
    · refine ⟨rfl, rfl, ?_⟩
      simp [hidle.1]
    · exact ⟨rfl, rfl, Iff.rfl⟩
  | some wid =>
    refine ⟨rfl, rfl, ?_⟩
    simp only
    split_ifs with hidle
    · simp [hidle.1]
    · exact Iff.rfl

/-- The input an accepted call of `resolve_user_input` brings in. -/
def resolvedInput (a : InputArgs) (r : Reply) : Input :=
  if r.routed = some .waitReply then replyInput a else ⟨a.content, a.userId⟩

include hinj in
theorem userMessage_took (a : InputArgs) (d : InputDecision) (pending : Option PendingWait)
    (hok : d.ok = true) (hroute : d.routed = .userMessage) {s : Worker} (h : Good env s.world) :
    ∃ r t, (do
        modify (fun s => if d.cancelStaleWait then cancelStale pending s else s)
        let mid ← messageIdOr env a.messageId
        let item ← enqueueWake env .userMessage (userPayload a.content a.userId mid) none
        return userMessageReply d item mid : Section Reply) s = .ok r t ∧
      @Took env s r t (resolvedInput a r) := by
  have hframe : ∀ f : Worker → Worker, f = (fun s => if d.cancelStaleWait then cancelStale pending s
      else s) → (f s).world = s.world ∧ (f s).interject = s.interject ∧
      ((f s).phase = .inMoment ↔ s.phase = .inMoment) := by
    rintro f rfl
    by_cases hstale : d.cancelStaleWait = true
    · simp only [hstale, if_true]
      exact cancelStale_frame pending s
    · simp only [hstale]
      exact ⟨rfl, rfl, Iff.rfl⟩
  obtain ⟨hworld, hinterject, hphase⟩ := hframe _ rfl
  have hgood : Good env (if d.cancelStaleWait then cancelStale pending s else s).world := by
    rw [hworld]
    exact h
  obtain ⟨r, t, hrun, ⟨item, mid, rfl⟩, hmoved, hi, hp⟩ := send_moved hinj a.messageId
    (userPayload a.content a.userId) ⟨a.content, a.userId⟩
    (inputOf_userPayload a.content a.userId) (fun item mid => userMessageReply d item mid) hgood
  have htaken : (userMessageReply d item mid).taken = true := by
    simp [Reply.taken, userMessageReply, decisionReply, hok]
  have hinput : resolvedInput a (userMessageReply d item mid) = ⟨a.content, a.userId⟩ := by
    simp [resolvedInput, userMessageReply, decisionReply, hroute]
  refine ⟨userMessageReply d item mid, t, ?_, ?_, ?_, ?_⟩
  · rw [run_bind, run_modify]
    exact hrun
  · have hboth := (moved_of_same h hworld hinterject).trans hmoved
    rw [htaken, hinput]
    rw [zero_add, add_zero] at hboth
    exact hboth
  · rw [hp]
    exact hphase
  · intro _
    rw [hi, hinterject]

include hinj in
theorem resolveUserInput_took (a : InputArgs) {s : Worker} (h : Good env s.world) :
    ∃ r t, resolveUserInput env a s = .ok r t ∧
      @Took env s r t (resolvedInput a r) := by
  rw [resolveUserInput, run_bind, run_get]
  show ∃ r t, (if s.continuous.resetting then _ else _ : Section Reply) s = .ok r t ∧ _
  by_cases hreset : s.continuous.resetting
  · rw [if_pos hreset]
    exact ⟨_, s, rfl, took_nothing h _ rfl _⟩
  rw [if_neg hreset]
  have hrefused := decide_refused a.content a.userId a.choice a.fromWaitApi s.phase
    (pendingWaits s.waits).head? a.hasAttachments
  have hinto := routed_interject_iff a.content a.userId a.choice a.fromWaitApi s.phase
    (pendingWaits s.waits).head? a.hasAttachments
  generalize decideUserInput a.content a.userId a.choice a.fromWaitApi s.phase
    (pendingWaits s.waits).head? a.hasAttachments = d at hrefused hinto ⊢
  by_cases hok : d.ok = true
  · rw [if_neg (by simp [hok])]
    cases hroute : d.routed with
    | interject =>
      obtain ⟨r, t, hrun, hnot, htook⟩ := interject_took hinj a.content a.userId a.messageId h
      refine ⟨mergedReply d r, t, ?_, ?_⟩
      · show (interject env a.content a.userId a.messageId >>= _) s = _
        rw [run_bind, hrun]
        rfl
      · have hinput : resolvedInput a (mergedReply d r) = ⟨a.content, a.userId⟩ := if_neg hnot
        rw [hinput]
        exact ⟨htook.moved, htook.phase, htook.interject⟩
    | waitReply =>
      obtain ⟨r, t, hrun, hroute', htook⟩ := applyWaitReply_took hinj a d.answerWaitId h
      refine ⟨r, t, hrun, ?_⟩
      have hinput : resolvedInput a r = replyInput a := if_pos hroute'
      rw [hinput]
      exact htook
    | userMessage => exact userMessage_took hinj a d _ hok hroute h
  · have hfalse : d.ok = false := by simpa using hok
    rw [if_pos (by simp [hfalse])]
    refine ⟨decisionReply d, s, rfl, took_nothing h _ ?_ _⟩
    simp [Reply.taken, decisionReply, hfalse, hrefused hfalse, InterjectBuffer.reasonBufferFull]

include hinj in
theorem fireOne_still (due : Due) : Quiet env (fireOne env due) := by
  have hfire : ∀ (kind : WakeKind) (payload : Payload), kind.social = false →
      ∀ (f : String → Worker → Worker), (∀ id s, (f id s).world = s.world) →
      (∀ id s, (f id s).interject = s.interject) → (∀ id s, (f id s).phase = s.phase) →
      Quiet env (do
        let id ← onQueue (draw env.uuid4)
        modify (f id)
        let _ ← enqueueWake env kind payload (some id)) := by
    intro kind payload hk f hw hi hp s h
    have hdrawn := quiet_onQueue (queueQuiet_draw env.uuid4) s h
    have hrun : onQueue (draw env.uuid4) s = .ok (env.uuid4 s.world.draws)
        { s with world := { s.world with draws := s.world.draws + 1 } } := rfl
    rw [hrun] at hdrawn
    rw [run_bind, hrun]
    generalize hu : ({ s with world := { s.world with draws := s.world.draws + 1 } } : Worker) = u
      at hdrawn
    have hstill : @Still env u (f (env.uuid4 s.world.draws) u) := by
      refine ⟨moved_of_same hdrawn.moved.good (hw _ _) (hi _ _), hi _ _, hp _ _⟩
    obtain ⟨item, t, henqueue, hmoved, hti, htp, -⟩ := enqueueWake_moved hinj kind payload
      (some (env.uuid4 s.world.draws)) (s := f (env.uuid4 s.world.draws) u)
      hstill.moved.good (by
        intro id hid
        obtain rfl := Option.some.inj hid
        refine ⟨s.world.draws, ?_, rfl, ?_⟩
        · rw [hw, ← hu]
          exact Nat.lt_succ_self _
        · rw [hw, ← hu]
          exact h.fresh _ (le_refl _))
    rw [inputOf_quiet hk] at hmoved
    show @Still env s (after ((modify (f (env.uuid4 s.world.draws)) >>= fun _ =>
      (do let _ ← enqueueWake env kind payload (some (env.uuid4 s.world.draws)) : Section Unit)) u))
    rw [run_bind, run_modify]
    show @Still env s (after ((enqueueWake env kind payload
      (some (env.uuid4 s.world.draws)) >>= fun _ => pure ()) (f (env.uuid4 s.world.draws) u)))
    rw [run_bind, henqueue]
    exact (hdrawn.trans hstill).trans ⟨hmoved, hti, htp⟩
  cases due with
  | timer payload =>
    intro s h
    exact hfire .timer payload rfl (fun _ s => s) (fun _ _ => rfl) (fun _ _ => rfl)
      (fun _ _ => rfl) s h
  | wait waitId payload =>
    apply quiet_bind quiet_get
    intro s
    cases s.waits.get? waitId with
    | none => exact quiet_pure ()
    | some w =>
      show Quiet env (if w.status = .pending then _ else _)
      split_ifs
      · exact hfire .waitTimeout payload rfl (fun id s => { s with
          waits := s.waits.set waitId { w with status := .timedOut, wakeId := some id } })
          (fun _ _ => rfl) (fun _ _ => rfl) (fun _ _ => rfl)
      · exact quiet_pure ()

include hinj in
theorem quiet_fireAll (dues : List Due) : Quiet env (fireAll env dues) := by
  induction dues with
  | nil => exact quiet_pure ()
  | cons due dues ih => exact quiet_bind (fireOne_still hinj due) (fun _ => ih)

/-- How a claim ends: it opened a moment over an empty buffer, or changed nothing of the users'. -/
def ClaimLands (s : Worker) : EStateM.Result PyErr Worker (Option (WakeItem × String)) → Prop
  | .ok (some _) t => Moved env s t 0 0 ∧ t.interject = .empty
  | .ok none t | .error _ t => @Still env s t

theorem claimLands_trans {s u : Worker} (h : @Still env s u)
    {r : EStateM.Result PyErr Worker (Option (WakeItem × String))} (hr : @ClaimLands env u r) :
    @ClaimLands env s r := by
  cases r with
  | error e t => exact h.trans hr
  | ok a t =>
    cases a with
    | none => exact h.trans hr
    | some p => exact ⟨h.moved.step hr.1, hr.2⟩

theorem openPhase_moved (wake : WakeItem) (momentId : String) {s : Worker}
    (h : Good env s.world) (hs : s.interject.items = []) :
    Moved env s (openPhase wake momentId s) 0 0 := by
  refine ⟨⟨[], ?_, ?_⟩, h⟩
  · rw [eventBytes_nil, ByteArray.append_empty]
    rfl
  · have hempty : buffered s = 0 := by
      unfold buffered
      rw [hs]
      rfl
    rw [hempty]
    rfl

include hinj in
theorem claimAndOpen_lands (dues : List Due) (available opens : Bool) {s : Worker}
    (h : Good env s.world) (hs : s.interject.items = []) :
    @ClaimLands env s (claimAndOpen env dues available opens s) := by
  rw [claimAndOpen, run_bind, run_get]
  show @ClaimLands env s ((if s.continuous.resetting then _ else _ :
    Section (Option (WakeItem × String))) s)
  by_cases hreset : s.continuous.resetting
  · rw [if_pos hreset]
    exact .refl h
  rw [if_neg hreset]
  have hfired := quiet_fireAll hinj dues s h
  rw [run_bind]
  show @ClaimLands env s ((if !available then _ else _ :
    Section (Option (WakeItem × String))) (after (fireAll env dues s)))
  generalize after (fireAll env dues s) = u at hfired ⊢
  apply claimLands_trans hfired
  have hu : Good env u.world := hfired.moved.good
  cases available with
  | false => exact Still.refl hu
  | true =>
    have hdrawn := quiet_onQueue (queueQuiet_draw env.uuid4) u hu
    show @ClaimLands env u ((onQueue (draw env.uuid4) >>= _) u)
    rw [run_bind]
    have hrun : onQueue (draw env.uuid4) u = .ok (env.uuid4 u.world.draws)
      { u with world := { u.world with draws := u.world.draws + 1 } } := rfl
    rw [hrun] at hdrawn ⊢
    generalize ({ u with world := { u.world with draws := u.world.draws + 1 } } : Worker) = v
      at hdrawn ⊢
    change @Still env u v at hdrawn
    apply claimLands_trans hdrawn
    have hclaimed := quiet_onQueue (queueQuiet_claim (env.uuid4 u.world.draws)) v
      hdrawn.moved.good
    show @ClaimLands env v ((onQueue (claim env (env.uuid4 u.world.draws)) >>= _) v)
    rw [run_bind]
    cases hclaim : onQueue (claim env (env.uuid4 u.world.draws)) v with
    | error e t =>
      rw [hclaim] at hclaimed
      exact hclaimed
    | ok wake? t =>
      rw [hclaim] at hclaimed
      change @Still env v t at hclaimed
      apply claimLands_trans hclaimed
      have ht : Good env t.world := hclaimed.moved.good
      cases wake? with
      | none => exact Still.refl ht
      | some wake =>
        cases opens with
        | true =>
          have hitems : t.interject.items = [] := by
            rw [hclaimed.interject, hdrawn.interject, hfired.interject]
            exact hs
          exact ⟨openPhase_moved wake _ ht hitems, rfl⟩
        | false =>
          have hcancel := quiet_bind (quiet_exceptKeyError (quiet_onQueue
            (@queueQuiet_cancel env wake.id "open_moment_failed")))
            (fun _ => quiet_throw (α := Option (WakeItem × String)) .osError) t ht
          show @ClaimLands env t ((exceptKeyError (onQueue
            (cancel env wake.id "open_moment_failed")) >>= fun _ => throw .osError) t)
          rw [run_bind] at hcancel ⊢
          cases hc : exceptKeyError (onQueue (cancel env wake.id "open_moment_failed")) t with
          | ok a x =>
            rw [hc] at hcancel
            exact hcancel
          | error e x =>
            rw [hc] at hcancel
            exact hcancel

include hinj in
/-- Every flushed message becomes a wake. -/
theorem flushItems_moved (items : List InterjectItem) {s : Worker} (h : Good env s.world) :
    ∃ t, flushItems env items s = .ok () t ∧
      Moved env s t ((items.map InterjectItem.input : List Input) : Multiset Input) 0 ∧
      t.interject = s.interject ∧ t.phase = s.phase := by
  induction items generalizing s with
  | nil => exact ⟨s, rfl, .refl h, rfl, rfl⟩
  | cons it items ih =>
    obtain ⟨mid, u, hmid, hstill, -⟩ := messageIdOr_still it.messageId h
    obtain ⟨item, v, hrun, hmoved, hvi, hvp, -⟩ := enqueueWake_moved hinj .userMessage
      ((userPayload it.content it.userId mid).set "from_interject_remainder" (.bool true)) none
      hstill.moved.good (by simp)
    obtain ⟨t, hrest, hlast, hti, htp⟩ := ih hmoved.good
    refine ⟨t, ?_, ?_, ?_, ?_⟩
    · rw [flushItems, run_bind, hmid]
      show (enqueueWake env .userMessage _ none >>= _) u = _
      rw [run_bind, hrun]
      exact hrest
    · have hall := (hstill.moved.trans hmoved).trans hlast
      rw [inputOf_marked it.content it.userId mid _ _ (by decide) (by decide)] at hall
      rw [zero_add, add_zero, add_zero] at hall
      exact hall
    · rw [hti, hvi, hstill.interject]
    · rw [htp, hvp, hstill.phase]

include hinj in
theorem flushInterjects_moved {s : Worker} (h : Good env s.world) :
    ∃ t, flushInterjects env s = .ok () t ∧ Moved env s t 0 0 ∧ t.interject = .empty ∧
      t.phase = s.phase := by
  obtain ⟨t, hrun, hmoved, hinterject, hphase⟩ :=
    flushItems_moved hinj s.interject.items (s := { s with interject := .empty }) h
  refine ⟨t, hrun, ⟨?_, hmoved.good⟩, hinterject, hphase⟩
  obtain ⟨new, hlog, hsum⟩ := hmoved.log
  refine ⟨new, hlog, ?_⟩
  rw [hsum, add_zero]
  show (0 : Multiset Input) + buffered s = buffered s
  exact zero_add _

theorem quiet_ensureWaitArmed (arm : WaitArm) (momentId : String) (arming : Arming) :
    Quiet env (ensureWaitArmed env arm momentId arming) := by
  apply quiet_bind quiet_get
  intro s
  split_ifs
  · exact quiet_pure ()
  · cases arming with
    | refused => exact quiet_pure ()
    | raised => exact quiet_throw _
    | armed expiresAt armedAt =>
      apply quiet_bind (quiet_onQueue (queueQuiet_orDefault _ _))
      intro id
      exact quiet_modify (fun _ => rfl) (fun _ => rfl) (fun _ => rfl)

theorem quiet_armGiven (armWait : Option WaitArm) (momentId : String) (arming : Arming) :
    Quiet env (armGiven env armWait momentId arming) := by
  cases armWait with
  | none => exact quiet_pure ()
  | some arm => exact quiet_ensureWaitArmed arm momentId arming

theorem phaseFromPendingWaits_ne (waits : Dict String PendingWait) :
    phaseFromPendingWaits waits ≠ .inMoment := by
  unfold phaseFromPendingWaits
  split_ifs <;> simp

include hinj in
theorem quiet_maybeEnqueue (cfg : ContinuousSettings) (wake : WakeItem) (momentId : String)
    (result : MomentResult) (stop : String) (w : FinalizeWorld) :
    Quiet env (maybeEnqueueMomentContinue env cfg wake momentId result stop w) := by
  intro s h
  let d := shouldEnqueueMomentContinue cfg (gatesOf s wake result stop w)
  have hrest : Quiet env (if d.enqueue then (do
      let item ← enqueueWake env .momentContinue
        (continuePayload wake momentId stop s.continuous.streak) none
      modify (fun s => { s with continuous := { s.continuous with
        lastContinueWakeId := some item.id
        lastSourceMomentId := some momentId } })
      return some item) else (return none : Section (Option WakeItem))) := by
    split_ifs
    · apply quiet_bind (quiet_enqueueWake hinj rfl _)
      intro item
      apply quiet_bind
      · exact quiet_modify (fun _ => rfl) (fun _ => rfl) (fun _ => rfl)
      · intro _
        exact quiet_pure _
    · exact quiet_pure _
  have hnoted : @Still env s
      { s with continuous := noteDecision d w.stampClock s.continuous } :=
    ⟨moved_of_same h rfl rfl, rfl, rfl⟩
  exact hnoted.trans (hrest _ h)

/-- How the end of a moment lands: with an empty buffer and no open moment, or, when a call
raised, with the buffer flushed or everything as it was. -/
def EndLands {α : Type} (s : Worker) : EStateM.Result PyErr Worker α → Prop
  | .ok _ t => Moved env s t 0 0 ∧ t.interject = .empty ∧ t.phase ≠ .inMoment
  | .error _ t => Moved env s t 0 0 ∧
      (t.interject = .empty ∨ (t.interject = s.interject ∧ t.phase = s.phase))

include hinj in
theorem finalizeMoment_lands (cfg : ContinuousSettings) (wake : WakeItem) (momentId : String)
    (result : MomentResult) (w : FinalizeWorld) {s : Worker} (h : Good env s.world) :
    @EndLands env _ s (finalizeMoment env cfg wake momentId result w s) := by
  unfold finalizeMoment
  by_cases hclosing : w.closing = .raised
  · rw [if_pos hclosing]
    exact ⟨.refl h, .inr ⟨rfl, rfl⟩⟩
  rw [if_neg hclosing, run_bind]
  have hdone := quiet_exceptKeyError (quiet_onQueue (@queueQuiet_markDone env wake.id)) s h
  cases hm : exceptKeyError (onQueue (markDone env wake.id)) s with
  | error e t =>
    rw [hm] at hdone
    exact ⟨hdone.moved, .inr ⟨hdone.interject, hdone.phase⟩⟩
  | ok a t =>
    rw [hm] at hdone
    change @Still env s t at hdone
    obtain ⟨u, hflush, hmoved, hempty, -⟩ := flushInterjects_moved hinj hdone.moved.good
    have hsu : Moved env s u 0 0 := hdone.moved.step hmoved
    show @EndLands env _ s ((flushInterjects env >>= _) t)
    rw [run_bind, hflush]
    show @EndLands env _ s ((armGiven env result.armWait momentId w.arming >>= _) u)
    have harm := @quiet_armGiven env result.armWait momentId w.arming u hmoved.good
    rw [run_bind]
    cases hset : armGiven env result.armWait momentId w.arming u with
    | error e v =>
      rw [hset] at harm
      exact ⟨hsu.step harm.moved, .inl (harm.interject.trans hempty)⟩
    | ok b v =>
      rw [hset] at harm
      change @Still env u v at harm
      have hsettled : Moved env v (settlePhase wake v) 0 0 :=
        moved_of_same harm.moved.good rfl rfl
      have hsv : Moved env s (settlePhase wake v) 0 0 := (hsu.step harm.moved).step hsettled
      have hvempty : (settlePhase wake v).interject = .empty := harm.interject.trans hempty
      have hmaybe := quiet_maybeEnqueue hinj cfg wake momentId result
        (normalStop result.stopReason) w (settlePhase wake v) hsettled.good
      show @EndLands env _ s ((maybeEnqueueMomentContinue env cfg wake momentId result
        (normalStop result.stopReason) w >>= _) (settlePhase wake v))
      rw [run_bind]
      cases hlast : maybeEnqueueMomentContinue env cfg wake momentId result
        (normalStop result.stopReason) w (settlePhase wake v) with
      | error e x =>
        rw [hlast] at hmaybe
        exact ⟨hsv.step hmaybe.moved, .inl (hmaybe.interject.trans hvempty)⟩
      | ok item? x =>
        rw [hlast] at hmaybe
        change @Still env _ x at hmaybe
        have hend : Moved env x (leaveMoment x) 0 0 := moved_of_same hmaybe.moved.good rfl rfl
        refine ⟨(hsv.step hmaybe.moved).step hend, ?_, ?_⟩
        · exact hmaybe.interject.trans hvempty
        · show x.phase ≠ .inMoment
          rw [hmaybe.phase]
          exact phaseFromPendingWaits_ne v.waits

theorem quiet_finishInFlight (inFlight : Option (WakeItem × String)) :
    Quiet env (finishInFlight env inFlight) := by
  cases inFlight with
  | none => exact quiet_pure ()
  | some p => exact quiet_exceptKeyError (quiet_onQueue (queueQuiet_markDone p.1.id))

include hinj in
theorem failInFlight_lands (inFlight : Option (WakeItem × String)) (store : StoreCall)
    {s : Worker} (h : Good env s.world) :
    @EndLands env _ s (failInFlight env inFlight store s) := by
  unfold failInFlight
  by_cases hraised : inFlight.isSome ∧ store = .raised
  · rw [if_pos hraised]
    exact ⟨.refl h, .inr ⟨rfl, rfl⟩⟩
  rw [if_neg hraised, run_bind]
  have hdone := @quiet_finishInFlight env inFlight s h
  cases hm : finishInFlight env inFlight s with
  | error e t =>
    rw [hm] at hdone
    exact ⟨hdone.moved, .inr ⟨hdone.interject, hdone.phase⟩⟩
  | ok a t =>
    rw [hm] at hdone
    change @Still env s t at hdone
    obtain ⟨u, hflush, hmoved, hempty, -⟩ := flushInterjects_moved hinj hdone.moved.good
    show @EndLands env _ s ((flushInterjects env >>= _) t)
    rw [run_bind, hflush]
    have hend : Moved env u (leaveFailed u) 0 0 := moved_of_same hmoved.good rfl rfl
    exact ⟨(hdone.moved.step hmoved).step hend, hempty, phaseFromPendingWaits_ne u.waits⟩

include hinj in
theorem queueQuiet_enqueueTaskReady (taskId : String) (goalId : Option String)
    (payload : Payload) : QueueQuiet env (enqueueTaskReady env taskId goalId payload) := by
  unfold enqueueTaskReady
  split_ifs
  · exact queueQuiet_throw _
  · apply queueQuiet_bind
    · apply queueQuiet_bind queueQuiet_getQueue
      intro q
      exact queueQuiet_bind (queueQuiet_loopOver _) (fun _ => queueQuiet_pure _)
    · intro olds
      apply queueQuiet_bind (queueQuiet_cancelAll _ _)
      intro _ w h
      obtain ⟨ts, item, w', hrun, hgood, hlog, hkind, -⟩ := enqueue_good hinj .taskReady
        (taskReadyBody taskId goalId payload) none h (by simp)
      rw [hrun]
      refine ⟨hgood, _, hlog, ?_⟩
      rw [waked_enqueue, hkind]
      exact inputOf_quiet rfl _

theorem quiet_setContinuousEnabled (enabled : Bool) :
    Quiet env (setContinuousEnabled env enabled) := by
  apply quiet_bind quiet_get
  intro s
  by_cases hreset : s.continuous.resetting
  · rw [if_pos hreset]
    exact quiet_pure _
  rw [if_neg hreset]
  apply quiet_bind
  · exact quiet_modify (fun _ => rfl) (fun _ => rfl) (fun _ => rfl)
  intro _
  cases enabled with
  | true => exact quiet_pure _
  | false =>
    apply quiet_bind (quiet_onQueue (queueQuiet_cancelAllPendingOfKind _ _))
    intro _
    apply quiet_bind
    · exact quiet_modify (fun _ => rfl) (fun _ => rfl) (fun _ => rfl)
    intro _
    exact quiet_pure _

end Sections

/-- The thread holds a moment that it still has to end. -/
def Thread.holds : Thread → Bool
  | .running _ _ | .failing (some _) | .dead => true
  | .polling | .failing none => false

/-- What holds between two sections. -/
structure Settled (env : Env) (s : Worker) : Prop where
  good : Good env s.world
  empty : s.phase ≠ .inMoment → s.interject.items = []
  held : s.phase = .inMoment → s.thread.holds = true

/-- The inputs of users that a section took in. -/
def takenInputs : Event → Answer → Multiset Input
  | .resolveUserInput a, .reply r => if r.taken then {resolvedInput a r} else 0
  | .interject content userId _, .reply r => if r.taken then {⟨content, userId⟩} else 0
  | _, _ => 0

/-- The inputs that a section handed to the do-loop. -/
def drainedInputs : Answer → Multiset Input
  | .drained items => items.map InterjectItem.input
  | _ => 0

/-- The sections that users, the worker, its tools and the timers run; a full reset and other
senders of user wakes are left out. -/
def Event.delivers : Event → Bool
  | .beginReset | .clearMemory _ | .endReset => false
  | .enqueueWake kind _ => !kind.social
  | _ => true

section Step

variable {env : Env} (hinj : Function.Injective env.uuid4) (cfg : ContinuousSettings)

theorem moved_thread {s t : Worker} {acc dr : Multiset Input} (h : Moved env s t acc dr)
    (thread : Thread) : Moved env s { t with thread := thread } acc dr := ⟨h.log, h.good⟩

theorem Settled.still {s t : Worker} (h : Settled env s) (k : @Still env s t)
    (thread : Thread) (hthread : s.thread.holds = true → thread.holds = true) :
    Settled env { t with thread := thread } where
  good := k.moved.good
  empty := by
    intro hphase
    show t.interject.items = []
    rw [k.interject]
    exact h.empty (k.phase ▸ hphase)
  held := fun hphase => hthread (h.held (k.phase ▸ hphase))

/-- A quiet section beside the presence thread. -/
theorem aside_quiet {α : Type} {m : Section α} (hm : Quiet env m) {s : Worker}
    (h : Settled env s) (answer : α → Answer) (e : Event)
    (htaken : ∀ a, takenInputs e (answer a) = 0 ∧ drainedInputs (answer a) = 0)
    (hraised : takenInputs e .raised = 0) :
    Moved env s (aside m s answer).2 (takenInputs e (aside m s answer).1)
      (drainedInputs (aside m s answer).1) ∧ Settled env (aside m s answer).2 := by
  have hstill := hm s h.good
  unfold aside perform
  cases hms : m s with
  | ok a t =>
    rw [hms] at hstill
    obtain ⟨htake, hdrain⟩ := htaken a
    simp only [htake, hdrain]
    exact ⟨moved_thread hstill.moved _, h.still hstill _ id⟩
  | error err t =>
    rw [hms] at hstill
    simp only [hraised, drainedInputs]
    exact ⟨moved_thread hstill.moved _, h.still hstill _ id⟩

/-- A call of a user beside the presence thread. -/
theorem aside_took {m : Section Reply} {s : Worker} (h : Settled env s) (e : Event)
    (x : Reply → Input)
    (hm : ∃ r t, m s = .ok r t ∧ @Took env s r t (x r))
    (htaken : ∀ r, takenInputs e (.reply r) = if r.taken then {x r} else 0) :
    Moved env s (aside m s .reply).2 (takenInputs e (aside m s .reply).1)
      (drainedInputs (aside m s .reply).1) ∧ Settled env (aside m s .reply).2 := by
  obtain ⟨r, t, hrun, htook⟩ := hm
  unfold aside perform
  rw [hrun]
  simp only [htaken r, drainedInputs]
  refine ⟨moved_thread htook.moved _, htook.moved.good, ?_, ?_⟩
  · intro hphase
    have hs : s.phase ≠ .inMoment := fun hs => hphase (htook.phase.mpr hs)
    show t.interject.items = []
    rw [htook.interject hs]
    exact h.empty hs
  · exact fun hphase => h.held (htook.phase.mp hphase)

/-- The end of a moment on the presence thread. -/
theorem perform_end {α : Type} {m : Section α} {s : Worker} (h : Settled env s)
    (hr : @EndLands env _ s (m s)) (next : α → Thread × Answer) (failed : Thread)
    (hfailed : failed.holds = true) :
    Moved env s (perform m s next failed).2 0 0 ∧ Settled env (perform m s next failed).2 := by
  unfold perform
  cases hms : m s with
  | ok a t =>
    rw [hms] at hr
    obtain ⟨hmoved, hempty, hphase⟩ := hr
    refine ⟨moved_thread hmoved _, hmoved.good, ?_, fun hin => absurd hin hphase⟩
    intro _
    show t.interject.items = []
    rw [hempty]
    rfl
  | error e t =>
    rw [hms] at hr
    obtain ⟨hmoved, hbuffer⟩ := hr
    refine ⟨moved_thread hmoved _, hmoved.good, ?_, fun _ => hfailed⟩
    intro hphase
    show t.interject.items = []
    obtain hempty | ⟨hsame, hp⟩ := hbuffer
    · rw [hempty]
      rfl
    · rw [hsame]
      exact h.empty (hp ▸ hphase)

theorem still_same {s t : Worker} (h : Settled env s) (hw : t.world = s.world)
    (hi : t.interject = s.interject)
    (hp : t.phase = .inMoment ↔ s.phase = .inMoment)
    (ht : s.thread.holds = true → t.thread.holds = true) :
    Moved env s t 0 0 ∧ Settled env t := by
  refine ⟨moved_of_same h.good hw hi, hw ▸ h.good, ?_, fun hin => ht (h.held (hp.mp hin))⟩
  intro hphase
  rw [hi]
  exact h.empty (fun hs => hphase (hp.mpr hs))

/-- Where a claim sends the presence thread. -/
def claimNext : Option (WakeItem × String) → Thread × Answer
  | none => (.polling, .quiet)
  | some (wake, momentId) => (.running wake momentId, .claimed wake)

include hinj in
theorem perform_claim {s : Worker} (h : Settled env s) (hthread : s.thread = .polling)
    (dues : List Due) (available opens : Bool) :
    Moved env s (perform (claimAndOpen env dues available opens) s claimNext (.failing none)).2 0 0 ∧
      Settled env
        (perform (claimAndOpen env dues available opens) s claimNext (.failing none)).2 := by
  have hphase : s.phase ≠ .inMoment := by
    intro hin
    have hheld := h.held hin
    rw [hthread] at hheld
    cases hheld
  have hlands := claimAndOpen_lands hinj dues available opens h.good (h.empty hphase)
  have hidle : ∀ t, @Still env s t → ∀ thread : Thread,
      Moved env s { t with thread := thread } 0 0 ∧ Settled env { t with thread := thread } := by
    intro t hstill thread
    refine ⟨moved_thread hstill.moved thread, hstill.moved.good, ?_, ?_⟩
    · intro _
      show t.interject.items = []
      rw [hstill.interject]
      exact h.empty hphase
    · intro hin
      exact absurd (hstill.phase.symm.trans hin) hphase
  unfold perform
  cases hc : claimAndOpen env dues available opens s with
  | error e t =>
    rw [hc] at hlands
    exact hidle t hlands _
  | ok claimed t =>
    rw [hc] at hlands
    cases claimed with
    | none => exact hidle t hlands _
    | some p =>
      obtain ⟨hmoved, hempty⟩ := hlands
      refine ⟨moved_thread hmoved _, hmoved.good, ?_, fun _ => rfl⟩
      intro _
      show t.interject.items = []
      rw [hempty]
      rfl

theorem drain_step {s : Worker} (h : Settled env s) (e : Event) :
    Moved env s (aside drainInterjections s .drained).2 (takenInputs e .quiet)
      (drainedInputs (aside drainInterjections s .drained).1) ∧
    Settled env (aside drainInterjections s .drained).2 := by
  have htaken : takenInputs e .quiet = 0 := by cases e <;> rfl
  rw [htaken]
  refine ⟨⟨⟨[], ?_, ?_⟩, h.good⟩, h.good, fun _ => rfl, h.held⟩
  · rw [eventBytes_nil, ByteArray.append_empty]
    rfl
  · rw [waked_nil, add_zero, add_zero]
    show (0 : Multiset Input) + buffered s = buffered s
    exact zero_add _

include hinj in
/-- Every section takes in what its answer says, and what it hands over is accounted for. -/
theorem stepWorker_moved (e : Event) (he : e.delivers = true) {s : Worker} (h : Settled env s) :
    Moved env s (stepWorker env cfg s e).2 (takenInputs e (stepWorker env cfg s e).1)
      (drainedInputs (stepWorker env cfg s e).1) ∧ Settled env (stepWorker env cfg s e).2 := by
  have hrest : Moved env s s 0 0 ∧ Settled env s := ⟨.refl h.good, h⟩
  cases e with
  | resolveUserInput a =>
    exact aside_took h (.resolveUserInput a) (resolvedInput a)
      (resolveUserInput_took hinj a h.good) (fun _ => rfl)
  | interject content userId messageId =>
    obtain ⟨r, t, hrun, -, htook⟩ := interject_took hinj content userId messageId h.good
    exact aside_took h (.interject content userId messageId) (fun _ => ⟨content, userId⟩)
      ⟨r, t, hrun, htook⟩ (fun _ => rfl)
  | claimAndOpen dues available opens =>
    cases hthread : s.thread with
    | polling =>
      have hstep : stepWorker env cfg s (.claimAndOpen dues available opens) =
          perform (claimAndOpen env dues available opens) s claimNext (.failing none) := by
        simp only [stepWorker, hthread]
        rfl
      have hdrained : drainedInputs
          (perform (claimAndOpen env dues available opens) s claimNext (.failing none)).1 = 0 := by
        unfold perform
        cases claimAndOpen env dues available opens s with
        | error e t => rfl
        | ok claimed t => cases claimed <;> rfl
      rw [hstep, hdrained]
      exact perform_claim hinj h hthread dues available opens
    | running wake momentId | failing inFlight | dead =>
      simp only [stepWorker, hthread]
      exact hrest
  | drainInterjections =>
    cases hthread : s.thread with
    | running wake momentId =>
      unfold stepWorker
      rw [hthread]
      exact drain_step h .drainInterjections
    | polling | failing inFlight | dead =>
      unfold stepWorker
      rw [hthread]
      exact hrest
  | loopRaised =>
    cases hthread : s.thread with
    | running wake momentId =>
      unfold stepWorker
      rw [hthread]
      exact still_same h rfl rfl Iff.rfl (fun _ => rfl)
    | polling | failing inFlight | dead =>
      unfold stepWorker
      rw [hthread]
      exact hrest
  | finalizeMoment result w =>
    cases hthread : s.thread with
    | running wake momentId =>
      have hend := perform_end h (finalizeMoment_lands hinj cfg wake momentId result w h.good)
        (fun item? => (.polling, .finalized item?)) (.failing (some (wake, momentId))) rfl
      have hdrained : drainedInputs (perform (finalizeMoment env cfg wake momentId result w) s
          (fun item? => (.polling, .finalized item?)) (.failing (some (wake, momentId)))).1 = 0 := by
        unfold perform
        cases finalizeMoment env cfg wake momentId result w s <;> rfl
      simp only [stepWorker, hthread]
      rw [hdrained]
      exact hend
    | polling | failing inFlight | dead =>
      simp only [stepWorker, hthread]
      exact hrest
  | failInFlight store =>
    cases hthread : s.thread with
    | failing inFlight =>
      have hend := perform_end h (failInFlight_lands hinj inFlight store h.good)
        (fun _ => (.polling, .quiet)) .dead rfl
      have hdrained : drainedInputs (perform (failInFlight env inFlight store) s
          (fun _ => (.polling, .quiet)) .dead).1 = 0 := by
        unfold perform
        cases failInFlight env inFlight store s <;> rfl
      simp only [stepWorker, hthread]
      rw [hdrained]
      exact hend
    | polling | running wake momentId | dead =>
      simp only [stepWorker, hthread]
      exact hrest
  | setContinuousEnabled enabled =>
    exact aside_quiet (quiet_setContinuousEnabled enabled) h .accepted
      (.setContinuousEnabled enabled) (fun _ => ⟨rfl, rfl⟩) rfl
  | enqueueWake kind payload =>
    have hkind : kind.social = false := by simpa [Event.delivers] using he
    unfold stepWorker
    split_ifs
    · exact hrest
    · exact aside_quiet (quiet_enqueueWake hinj hkind payload) h _ (.enqueueWake kind payload)
        (fun _ => ⟨rfl, rfl⟩) rfl
  | enqueueTaskReady taskId goalId payload =>
    unfold stepWorker
    split_ifs
    · exact hrest
    · exact aside_quiet (quiet_onQueue (queueQuiet_enqueueTaskReady hinj taskId goalId payload)) h _
        (.enqueueTaskReady taskId goalId payload) (fun _ => ⟨rfl, rfl⟩) rfl
  | armWait w => exact still_same h rfl rfl Iff.rfl id
  | cancelWait waitId =>
    simp only [stepWorker]
    by_cases hknown : s.waits.get? waitId = none
    · rw [if_pos hknown]
      exact still_same h rfl rfl Iff.rfl id
    · rw [if_neg hknown]
      refine still_same h rfl rfl ?_ id
      dsimp only
      split_ifs with hidle
      · simp [hidle.1]
      · exact Iff.rfl
  | beginReset | clearMemory wiped | endReset => cases he

end Step

/-- A worker with the inputs taken in and handed to the do-loop so far. -/
structure Record where
  worker : Worker
  taken : Multiset Input
  drained : Multiset Input

section Run

variable (env : Env) (cfg : ContinuousSettings)

def stepRecord (r : Record) (e : Event) : Record where
  worker := (stepWorker env cfg r.worker e).2
  taken := r.taken + takenInputs e (stepWorker env cfg r.worker e).1
  drained := r.drained + drainedInputs (stepWorker env cfg r.worker e).1

def recordFrom (s : Worker) (events : List Event) : Record :=
  events.foldl (stepRecord env cfg) ⟨s, 0, 0⟩

variable {env}

theorem settled_start [PyCoerce] (log : ByteArray) (q : WakeQueue) (hopen : openQueue log = .ok q)
    (hfresh : ∀ n, q.ops.get? (env.uuid4 n) = none) (waits : Dict String PendingWait)
    (enabled : Bool) : Settled env (Worker.start (World.opened log [] q) waits enabled) where
  good := by
    obtain ⟨lives, hsound, -⟩ := sound_openQueue log q hopen
    refine ⟨rfl, ?_, fun n _ => hfresh n⟩
    intro id item hitem
    change q.items.get? id = some item at hitem
    rw [hsound.items, Option.map_eq_some_iff] at hitem
    obtain ⟨l, hl, rfl⟩ := hitem
    exact hsound.itemId id l hl
  empty := fun _ => rfl
  held := fun hin => absurd hin (phaseFromPendingWaits_ne waits)

/-- Every input that was taken in is in the buffer, in a drain or in a logged wake of its user,
once, and outside of moments the buffer is empty. -/
theorem inputs_exactly_once [PyCoerce] (hinj : Function.Injective env.uuid4) (log : ByteArray)
    (q : WakeQueue) (hopen : openQueue log = .ok q) (hfresh : ∀ n, q.ops.get? (env.uuid4 n) = none)
    (waits : Dict String PendingWait) (enabled : Bool) (events : List Event)
    (hevents : ∀ e ∈ events, e.delivers = true) :
    let r := recordFrom env cfg (Worker.start (World.opened log [] q) waits enabled) events
    (∃ new, r.worker.world.log = log ++ eventBytes new ∧
      r.taken = buffered r.worker + r.drained + waked new) ∧
    (r.worker.phase ≠ .inMoment → r.worker.interject.items = []) := by
  intro r
  let start := Worker.start (World.opened log [] q) waits enabled
  have hall : Moved env start r.worker r.taken r.drained ∧ Settled env r.worker := by
    have hstart : Moved env start (Record.mk start 0 0).worker 0 0 ∧ Settled env start :=
      ⟨.refl (settled_start log q hopen hfresh waits enabled).good,
        settled_start log q hopen hfresh waits enabled⟩
    have hrun : ∀ (events : List Event) (r : Record), (∀ e ∈ events, e.delivers = true) →
        Moved env start r.worker r.taken r.drained ∧ Settled env r.worker →
        Moved env start (events.foldl (stepRecord env cfg) r).worker
          (events.foldl (stepRecord env cfg) r).taken
          (events.foldl (stepRecord env cfg) r).drained ∧
        Settled env (events.foldl (stepRecord env cfg) r).worker := by
      intro events
      induction events with
      | nil => exact fun _ _ h => h
      | cons e events ih =>
        intro r hdeliver h
        apply ih (stepRecord env cfg r e)
          (fun e' he' => hdeliver e' (List.mem_cons_of_mem _ he'))
        obtain ⟨hmoved, hsettled⟩ := stepWorker_moved hinj cfg e
          (hdeliver e List.mem_cons_self) h.2
        exact ⟨h.1.trans hmoved, hsettled⟩
    exact hrun events ⟨start, 0, 0⟩ hevents hstart
  obtain ⟨hmoved, hsettled⟩ := hall
  obtain ⟨new, hlog, hsum⟩ := hmoved.log
  refine ⟨⟨new, hlog, ?_⟩, hsettled.empty⟩
  have hempty : buffered start = 0 := rfl
  rw [hempty, zero_add] at hsum
  exact hsum.symm

end Run

/-- A message opens a moment, two more come in while it is open, and one of them is drained. -/
def chat : List Event :=
  [.resolveUserInput ⟨"hello", "operator", none, false, none, false⟩, .claimAndOpen [] true true,
    .interject "wait" "operator" none, .drainInterjections,
    .resolveUserInput ⟨"thanks", "operator", none, false, none, false⟩,
    .finalizeMoment ⟨"no_tools", none, true, false, 1, 0, false⟩ ⟨.returned, .refused, true, 0, 0⟩]

theorem openQueue_empty [PyCoerce] : openQueue ByteArray.empty = .ok WakeQueue.empty := rfl

theorem inputs_exactly_once_sample :
    let _ := basicCoerce
    let r := recordFrom countingEnv .default
      (Worker.start (World.opened ByteArray.empty [] .empty) .empty false) chat
    (∃ new, r.worker.world.log = ByteArray.empty ++ eventBytes new ∧
      r.taken = buffered r.worker + r.drained + waked new) ∧
    (r.worker.phase ≠ .inMoment → r.worker.interject.items = []) :=
  let _ := basicCoerce
  inputs_exactly_once .default countingEnv_injective ByteArray.empty .empty openQueue_empty
    (fun _ => rfl) .empty false chat (by decide)

end Elyra.Presence
