import Elyra.Presence.PendingCount
import Elyra.Presence.Priority

namespace Elyra.Presence

open Json

/-- Pending wakes of the outer chain. -/
def continues (s : Worker) : Nat := countOf s.world.queue .momentContinue

/-- Nothing was added to the outer chain, and its counters are as they were. -/
structure Tame (s t : Worker) : Prop where
  pending : continues t ≤ continues s
  streak : t.continuous.streak = s.continuous.streak
  stamp : t.continuous.lastEnqueueAt = s.continuous.lastEnqueueAt
  enabled : t.continuous.enabled = s.continuous.enabled

theorem Tame.refl (s : Worker) : Tame s s := ⟨Nat.le_refl _, rfl, rfl, rfl⟩

theorem Tame.trans {s t u : Worker} (h : Tame s t) (k : Tame t u) : Tame s u :=
  ⟨k.pending.trans h.pending, k.streak.trans h.streak, k.stamp.trans h.stamp,
    k.enabled.trans h.enabled⟩

def Tames {α : Type} (m : Section α) : Prop := ∀ s, Tame s (after (m s))

section Sections

variable {env : Env}

theorem tames_same {α : Type} {m : Section α} (h : ∀ s, (after (m s)).world = s.world ∧
    (after (m s)).continuous = s.continuous) : Tames m := by
  intro s
  obtain ⟨hworld, hcontinuous⟩ := h s
  refine ⟨?_, by rw [hcontinuous], by rw [hcontinuous], by rw [hcontinuous]⟩
  rw [continues, hworld]
  exact Nat.le_refl _

theorem tames_pure {α : Type} (a : α) : Tames (pure a) := tames_same (fun _ => ⟨rfl, rfl⟩)

theorem tames_throw {α : Type} (e : PyErr) : Tames (throw e : Section α) :=
  tames_same (fun _ => ⟨rfl, rfl⟩)

theorem tames_get : Tames (get : Section Worker) := tames_same (fun _ => ⟨rfl, rfl⟩)

theorem tames_bind {α β : Type} {m : Section α} {f : α → Section β} (hm : Tames m)
    (hf : ∀ a, Tames (f a)) : Tames (m >>= f) := by
  intro s
  have hfirst := hm s
  rw [run_bind]
  cases hms : m s with
  | error e t =>
    rw [hms] at hfirst
    exact hfirst
  | ok a t =>
    rw [hms] at hfirst
    exact hfirst.trans (hf a t)

theorem tames_onQueue {α : Type} {m : Py World α} (hm : NoMore .momentContinue m) :
    Tames (onQueue m) := by
  intro s
  have hafter : after (onQueue m s) = { s with world := after (m s.world) } := by
    unfold onQueue
    cases m s.world <;> rfl
  rw [hafter]
  exact ⟨hm s.world, rfl, rfl, rfl⟩

theorem tames_exceptKeyError {m : Section Unit} (hm : Tames m) : Tames (exceptKeyError m) := by
  intro s
  have hsame : after (exceptKeyError m s) = after (m s) := by
    unfold exceptKeyError
    cases m s with
    | ok a t => rfl
    | error e t => cases e <;> rfl
  rw [hsame]
  exact hm s

theorem tames_enqueueWake {kind : WakeKind} (hk : kind ≠ .momentContinue) (payload : Payload)
    (wakeId : Option String) : Tames (enqueueWake env kind payload wakeId) :=
  tames_onQueue (noMore_enqueue hk payload wakeId)

theorem tames_draw (x : Option String) : Tames (onQueue (orDefault x (draw env.uuid4))) := by
  apply tames_onQueue
  intro w
  rw [orDefault_draw]
  exact Nat.le_refl _

theorem tames_send {α : Type} {kind : WakeKind} (hk : kind ≠ .momentContinue)
    (messageId : Option String) (payload : String → Payload) (f : WakeItem → String → α) :
    Tames (do
      let mid ← messageIdOr env messageId
      let item ← enqueueWake env kind (payload mid) none
      return f item mid : Section α) := by
  apply tames_bind (tames_draw messageId)
  intro mid
  exact tames_bind (tames_enqueueWake hk _ _) (fun _ => tames_pure _)

theorem tames_modify {f : Worker → Worker} (hw : ∀ s, (f s).world = s.world)
    (hc : ∀ s, (f s).continuous = s.continuous) : Tames (modify f) :=
  tames_same (fun s => ⟨hw s, hc s⟩)

theorem tames_interject (content userId : String) (messageId : Option String) :
    Tames (interject env content userId messageId) := by
  apply tames_bind tames_get
  intro s
  by_cases hreset : s.continuous.resetting
  · rw [if_pos hreset]
    exact tames_pure _
  rw [if_neg hreset]
  apply tames_bind tames_get
  intro s
  by_cases hphase : s.phase ≠ .inMoment
  · rw [if_pos hphase]
    exact tames_send (by decide) messageId _ _
  · rw [if_neg hphase]
    cases s.interject.tryAdd ⟨content, userId, messageId⟩ with
    | some buffer =>
      exact tames_bind (tames_modify (fun _ => rfl) (fun _ => rfl)) (fun _ => tames_pure _)
    | none => exact tames_send (by decide) messageId _ _

theorem tames_applyWaitReply (content userId : String) (choice waitId messageId : Option String) :
    Tames (applyWaitReply env content userId choice waitId messageId) := by
  apply tames_bind
  · exact tames_modify (fun s => by cases waitId <;> rfl) (fun s => by cases waitId <;> rfl)
  intro _
  exact tames_send (by decide) messageId _ _

theorem cancelStale_same (pending : Option PendingWait) (s : Worker) :
    (cancelStale pending s).world = s.world ∧
      (cancelStale pending s).continuous = s.continuous := by
  unfold cancelStale
  cases waitIdOf pending with
  | none =>
    simp only
    split_ifs <;> exact ⟨rfl, rfl⟩
  | some wid => exact ⟨rfl, rfl⟩

theorem tames_resolveUserInput (a : InputArgs) : Tames (resolveUserInput env a) := by
  apply tames_bind tames_get
  intro s
  by_cases hreset : s.continuous.resetting
  · rw [if_pos hreset]
    exact tames_pure _
  rw [if_neg hreset]
  show Tames (if (!(decideUserInput a.content a.userId a.choice a.fromWaitApi s.phase
    (pendingWaits s.waits).head? a.hasAttachments).ok) = true then _ else _)
  generalize decideUserInput a.content a.userId a.choice a.fromWaitApi s.phase
    (pendingWaits s.waits).head? a.hasAttachments = d
  by_cases hok : (!d.ok) = true
  · rw [if_pos hok]
    exact tames_pure _
  rw [if_neg hok]
  cases d.routed with
  | interject => exact tames_bind (tames_interject _ _ _) (fun _ => tames_pure _)
  | waitReply => exact tames_applyWaitReply _ _ _ _ _
  | userMessage =>
    apply tames_bind
    · apply tames_modify
      · intro t
        split_ifs
        · exact (cancelStale_same _ t).1
        · rfl
      · intro t
        split_ifs
        · exact (cancelStale_same _ t).2
        · rfl
    · intro _
      exact tames_send (by decide) a.messageId _ _

theorem tames_fireOne (due : Due) : Tames (fireOne env due) := by
  have hdraw : Tames (onQueue (draw env.uuid4)) :=
    tames_onQueue (noMore_same (fun _ => rfl))
  cases due with
  | timer payload =>
    apply tames_bind hdraw
    intro id
    exact tames_bind (tames_enqueueWake (by decide) _ _) (fun _ => tames_pure _)
  | wait waitId payload =>
    apply tames_bind tames_get
    intro s
    cases s.waits.get? waitId with
    | none => exact tames_pure _
    | some w =>
      show Tames (if w.status = .pending then _ else _)
      split_ifs
      · apply tames_bind hdraw
        intro id
        apply tames_bind
        · exact tames_modify (fun _ => rfl) (fun _ => rfl)
        intro _
        exact tames_bind (tames_enqueueWake (by decide) _ _) (fun _ => tames_pure _)
      · exact tames_pure _

theorem tames_fireAll (dues : List Due) : Tames (fireAll env dues) := by
  induction dues with
  | nil => exact tames_pure _
  | cons due dues ih => exact tames_bind (tames_fireOne due) (fun _ => ih)

theorem tames_drain : Tames drainInterjections := by
  apply tames_bind tames_get
  intro s
  exact tames_bind (tames_modify (fun _ => rfl) (fun _ => rfl)) (fun _ => tames_pure _)

theorem tames_flushItems (items : List InterjectItem) : Tames (flushItems env items) := by
  induction items with
  | nil => exact tames_pure _
  | cons it items ih =>
    apply tames_bind (tames_draw it.messageId)
    intro mid
    exact tames_bind (tames_enqueueWake (by decide) _ _) (fun _ => ih)

theorem tames_flushInterjects : Tames (flushInterjects env) :=
  tames_bind tames_drain (fun _ => tames_flushItems _)

theorem tames_armGiven (armWait : Option WaitArm) (momentId : String) (arming : Arming) :
    Tames (armGiven env armWait momentId arming) := by
  cases armWait with
  | none => exact tames_pure _
  | some arm =>
    apply tames_bind tames_get
    intro s
    split_ifs
    · exact tames_pure _
    · cases arming with
      | refused => exact tames_pure _
      | raised => exact tames_throw _
      | armed expiresAt armedAt =>
        apply tames_bind (tames_draw _)
        intro id
        exact tames_modify (fun _ => rfl) (fun _ => rfl)

theorem tames_markDone (wakeId : String) :
    Tames (exceptKeyError (onQueue (markDone env wakeId))) :=
  tames_exceptKeyError (tames_onQueue (noMore_finishWake _ _ _ _))

theorem tames_failInFlight (inFlight : Option (WakeItem × String)) (store : StoreCall) :
    Tames (failInFlight env inFlight store) := by
  unfold failInFlight
  split_ifs
  · exact tames_throw _
  · apply tames_bind
    · cases inFlight with
      | none => exact tames_pure _
      | some p => exact tames_markDone p.1.id
    · intro _
      exact tames_bind tames_flushInterjects
        (fun _ => tames_modify (fun _ => rfl) (fun _ => rfl))

/-- What a claim leaves: the wake it took is off the pending ones, and only a wake of a user
resets the streak. -/
structure Claimed (s t : Worker) (wake? : Option WakeItem) : Prop where
  pending : continues t + worth .momentContinue wake? ≤ continues s
  streak : t.continuous.streak =
    if wake?.any (fun wake => wake.kind.social) then 0 else s.continuous.streak
  stamp : t.continuous.lastEnqueueAt = s.continuous.lastEnqueueAt

theorem Tame.claimed {s t u : Worker} (h : Tame s t) {wake? : Option WakeItem}
    (k : Claimed t u wake?) : Claimed s u wake? :=
  ⟨k.pending.trans h.pending, by rw [k.streak, h.streak], k.stamp.trans h.stamp⟩

theorem Tame.claimedNone {s t : Worker} (h : Tame s t) : Claimed s t none :=
  ⟨h.pending, h.streak, h.stamp⟩

/-- The wake of the moment a claim opened. -/
def openedWake : EStateM.Result PyErr Worker (Option (WakeItem × String)) → Option WakeItem
  | .ok opened _ => opened.map Prod.fst
  | .error _ _ => none

theorem claimAndOpen_claimed (dues : List Due) (available opens : Bool) (s : Worker) :
    Claimed s (after (claimAndOpen env dues available opens s))
      (openedWake (claimAndOpen env dues available opens s)) := by
  rw [claimAndOpen, run_bind, run_get]
  show Claimed s (after ((if s.continuous.resetting then _ else _ :
    Section (Option (WakeItem × String))) s)) (openedWake ((if s.continuous.resetting then _ else _ :
    Section (Option (WakeItem × String))) s))
  by_cases hreset : s.continuous.resetting
  · rw [if_pos hreset]
    exact (Tame.refl s).claimedNone
  rw [if_neg hreset, run_bind]
  have hfired := @tames_fireAll env dues s
  show Claimed s (after ((if !available then _ else _ : Section (Option (WakeItem × String)))
    (after (fireAll env dues s)))) (openedWake ((if !available then _ else _ :
    Section (Option (WakeItem × String))) (after (fireAll env dues s))))
  generalize after (fireAll env dues s) = u at hfired ⊢
  apply hfired.claimed
  cases available with
  | false => exact (Tame.refl u).claimedNone
  | true =>
    have hrun : onQueue (draw env.uuid4) u = .ok (env.uuid4 u.world.draws)
      { u with world := { u.world with draws := u.world.draws + 1 } } := rfl
    have hdrawn : Tame u { u with world := { u.world with draws := u.world.draws + 1 } } :=
      ⟨Nat.le_refl _, rfl, rfl, rfl⟩
    generalize env.uuid4 u.world.draws = momentId at hrun
    show Claimed u (after ((onQueue (draw env.uuid4) >>= _) u))
      (openedWake ((onQueue (draw env.uuid4) >>= _) u))
    rw [run_bind, hrun]
    generalize ({ u with world := { u.world with draws := u.world.draws + 1 } } : Worker) = v
      at hdrawn ⊢
    apply hdrawn.claimed
    have hclaim := @countOf_claim env .momentContinue momentId v.world
    show Claimed v (after ((onQueue (claim env momentId) >>= _) v))
      (openedWake ((onQueue (claim env momentId) >>= _) v))
    rw [run_bind]
    unfold onQueue
    cases hc : claim env momentId v.world with
    | error e w =>
      rw [hc] at hclaim
      exact ⟨hclaim, rfl, rfl⟩
    | ok wake? w =>
      rw [hc] at hclaim
      cases wake? with
      | none => exact ⟨hclaim, rfl, rfl⟩
      | some wake =>
        cases opens with
        | true => exact ⟨hclaim, rfl, rfl⟩
        | false =>
          have hless : continues { v with world := w } ≤ continues v :=
            (Nat.le_add_right _ _).trans hclaim
          have hcancelled : Tame { v with world := w } (after ((exceptKeyError
              (onQueue (cancel env wake.id "open_moment_failed")) >>= fun _ =>
              throw PyErr.osError : Section (Option (WakeItem × String))) { v with world := w })) := by
            apply tames_bind
            · exact tames_exceptKeyError (tames_onQueue (noMore_finishWake _ _ _ _))
            · exact fun _ => tames_throw _
          have hall : Tame v (after ((exceptKeyError
              (onQueue (cancel env wake.id "open_moment_failed")) >>= fun _ =>
              throw PyErr.osError : Section (Option (WakeItem × String))) { v with world := w })) :=
            Tame.trans ⟨hless, rfl, rfl, rfl⟩ hcancelled
          have hnone : openedWake ((exceptKeyError
              (onQueue (cancel env wake.id "open_moment_failed")) >>= fun _ =>
              throw PyErr.osError : Section (Option (WakeItem × String))) { v with world := w }) =
              none := by
            rw [run_bind]
            cases exceptKeyError (onQueue (cancel env wake.id "open_moment_failed"))
              { v with world := w } <;> rfl
          have hdone := hall.claimedNone
          rw [← hnone] at hdone
          exact hdone

end Sections

/-- Whether the end of a moment counts against the streak. -/
def counted (wake : WakeItem) (s : Worker) : Nat :=
  if wake.kind = .momentContinue ∧ s.continuous.enabled then 1 else 0

/-- A moment ended without a continue. -/
structure Stays (n : Nat) (w : FinalizeWorld) (s t : Worker) : Prop where
  pending : continues t ≤ continues s
  grows : s.continuous.streak ≤ t.continuous.streak
  atMost : t.continuous.streak ≤ s.continuous.streak + n
  stamp : t.continuous.lastEnqueueAt = s.continuous.lastEnqueueAt ∨
    t.continuous.lastEnqueueAt = some w.stampClock

/-- The conditions under which a continue may go out. -/
structure OpenGates (w : FinalizeWorld) (t : Worker) : Prop where
  enabled : t.continuous.enabled = true
  noWait : hasPendingWait t.waits = false
  noTaskReady : countOf t.world.queue .taskReady = 0
  openWork : w.hasOpenWork = true

/-- A moment ended with a continue. -/
structure GoesOn (cfg : ContinuousSettings) (n : Nat) (w : FinalizeWorld) (s t : Worker) : Prop
    where
  gates : OpenGates w t
  room : (continues t : Int) ≤ cfg.maxPendingContinues
  pending : continues t ≤ continues s + 1
  streak : t.continuous.streak = s.continuous.streak + n
  below : (t.continuous.streak : Int) < cfg.maxContinueStreak
  stamp : t.continuous.lastEnqueueAt = some w.stampClock
  cooldown : 0 < cfg.cooldownSeconds → ∀ l ∈ s.continuous.lastEnqueueAt,
    cfg.cooldownSeconds * 1000000 ≤ w.gateClock - l

/-- What the end of a moment leaves, when it counts `n` against the streak. -/
def Ended (cfg : ContinuousSettings) (n : Nat) (w : FinalizeWorld) (s : Worker) :
    EStateM.Result PyErr Worker (Option WakeItem) → Prop
  | .error _ t => Stays n w s t
  | .ok none t => Stays n w s t ∧ t.continuous.streak = s.continuous.streak + n
  | .ok (some _) t => GoesOn cfg n w s t

section Ended

variable {env : Env} {cfg : ContinuousSettings} {n : Nat} {w : FinalizeWorld} {s t : Worker}

theorem Tame.stays (h : Tame s t) : Stays n w s t :=
  ⟨h.pending, h.streak.ge, h.streak.le.trans (Nat.le_add_right _ _), .inl h.stamp⟩

/-- Past a tame section what comes after it counts. -/
theorem ended_bind {m : Section Unit} {f : Unit → Section (Option WakeItem)} (ht : Tame s t)
    (hm : Tames m) (h : ∀ u, Tame s u → Ended cfg n w s (f () u)) :
    Ended cfg n w s ((m >>= f) t) := by
  have hfirst := hm t
  rw [run_bind]
  cases hmt : m t with
  | error e u =>
    rw [hmt] at hfirst
    exact (ht.trans hfirst).stays
  | ok a u =>
    rw [hmt] at hfirst
    exact h u (ht.trans hfirst)

/-- The end may be seen from a state before, which differs in the counted streak. -/
theorem Ended.before {r : EStateM.Result PyErr Worker (Option WakeItem)} (h : Ended cfg 0 w t r)
    (hpending : continues t ≤ continues s)
    (hstreak : t.continuous.streak = s.continuous.streak + n)
    (hstamp : t.continuous.lastEnqueueAt = s.continuous.lastEnqueueAt) : Ended cfg n w s r := by
  have hstays : ∀ u, Stays 0 w t u → Stays n w s u := by
    intro u k
    have hgrows := k.grows
    have hmost := k.atMost
    refine ⟨k.pending.trans hpending, by omega, by omega, ?_⟩
    rw [← hstamp]
    exact k.stamp
  cases r with
  | error e u => exact hstays u h
  | ok item? u =>
    cases item? with
    | none => exact ⟨hstays u h.1, h.2.trans (by omega)⟩
    | some item =>
      have hmore := h.pending
      refine ⟨h.gates, h.room, by omega, h.streak.trans (by omega), h.below, h.stamp, ?_⟩
      rw [← hstamp]
      exact h.cooldown

/-- Leaving the moment touches none of this. -/
theorem Ended.leave {item? : Option WakeItem} (h : Ended cfg n w s (.ok item? t)) :
    Ended cfg n w s (.ok item? (leaveMoment t)) := by
  cases item? with
  | none => exact ⟨⟨h.1.pending, h.1.grows, h.1.atMost, h.1.stamp⟩, h.2⟩
  | some item =>
    exact ⟨⟨h.gates.enabled, h.gates.noWait, h.gates.noTaskReady, h.gates.openWork⟩, h.room,
      h.pending, h.streak, h.below, h.stamp, h.cooldown⟩

/-- A raise in an enqueue leaves the queue as it was. -/
theorem enqueue_raised (k : WakeKind) (payload : Payload) (wakeId : Option String) {v u : World}
    {e : PyErr} (h : enqueue env k.text payload wakeId none v = .error e u) : u.queue = v.queue := by
  rw [enqueue_eq env k.text k (WakeKind.ofText_text k)] at h
  generalize newItem env k payload wakeId none v.draws = built at h
  obtain ⟨item, ts, m⟩ := built
  simp only at h
  cases hlive : isLive (v.queue.ops.get? item.id) with
  | some existing =>
    rw [hlive] at h
    cases h
    rfl
  | none =>
    rw [hlive] at h
    simp only at h
    split_ifs at h
    cases h
    rfl

theorem maybeEnqueue_ended (wake : WakeItem) (momentId : String) (result : MomentResult)
    (stop : String) :
    Ended cfg 0 w s (maybeEnqueueMomentContinue env cfg wake momentId result stop w s) := by
  rw [maybeEnqueueMomentContinue, run_bind, run_get]
  have hgates := gatesOpen_of_enqueue cfg (gatesOf s wake result stop w)
  simp only
  generalize shouldEnqueueMomentContinue cfg (gatesOf s wake result stop w) = d at hgates ⊢
  rw [run_bind, run_modify]
  have hkept : ∀ u : Worker, u.world = s.world → u.continuous.streak = s.continuous.streak →
      u.continuous.lastEnqueueAt = (noteDecision d w.stampClock s.continuous).lastEnqueueAt →
      Stays 0 w s u := by
    intro u hworld hstreak hstamp
    refine ⟨?_, hstreak.ge, hstreak.le, ?_⟩
    · rw [continues, hworld]
      exact Nat.le_refl _
    · rw [hstamp]
      show (if d.startCooldown then some w.stampClock else _) = _ ∨ _
      by_cases hstart : d.startCooldown = true
      · exact .inr (if_pos hstart)
      · exact .inl (if_neg hstart)
  show Ended cfg 0 w s ((if d.enqueue = true then _ else _ : Section (Option WakeItem)) _)
  by_cases hd : d.enqueue = true
  · obtain ⟨hopen, hstart⟩ := hgates hd
    rw [if_pos hd]
    generalize continuePayload wake momentId stop s.continuous.streak = payload
    have hstamp : (noteDecision d w.stampClock s.continuous).lastEnqueueAt = some w.stampClock :=
      if_pos hstart
    have hown := @countOf_enqueue env .momentContinue .momentContinue payload none
      s.world
    have htask := @countOf_enqueue env .taskReady .momentContinue payload none
      s.world
    have hraised := fun e u => @enqueue_raised env .momentContinue payload none
      (v := s.world) (e := e) (u := u)
    show Ended cfg 0 w s ((onQueue (enqueue env WakeKind.momentContinue.text payload none none) >>=
      _) _)
    rw [run_bind]
    unfold onQueue
    simp only
    cases hrun : enqueue env WakeKind.momentContinue.text payload none none s.world with
    | error e u =>
      refine ⟨?_, Nat.le_refl _, Nat.le_refl _, .inr hstamp⟩
      show countOf u.queue _ ≤ countOf s.world.queue _
      rw [hraised e u hrun]
    | ok item u =>
      rw [hrun] at hown htask
      change countOf u.queue .momentContinue ≤ continues s + 1 at hown
      change countOf u.queue .taskReady ≤ countOf s.world.queue .taskReady + 0 at htask
      have hnone : countOf s.world.queue .taskReady = 0 := hopen.noTaskReady
      have hroom : (continues s : Int) < cfg.maxPendingContinues := hopen.pending
      refine ⟨⟨hopen.enabled, hopen.noWait, ?_, hopen.openWork⟩, ?_, hown, rfl, hopen.streak,
        hstamp, ?_⟩
      · show countOf u.queue .taskReady = 0
        omega
      · show (countOf u.queue .momentContinue : Int) ≤ _
        omega
      · intro hpos l hl
        apply hopen.cooldown hpos
        exact Option.mem_map.mpr ⟨l, hl, rfl⟩
  · rw [if_neg hd]
    exact ⟨hkept _ rfl rfl rfl, rfl⟩

/-- The end of a moment counts its wake, and may let one continue through. -/
theorem finalizeMoment_ended (wake : WakeItem) (momentId : String) (result : MomentResult) :
    Ended cfg (counted wake s) w s (finalizeMoment env cfg wake momentId result w s) := by
  unfold finalizeMoment
  by_cases hraised : w.closing = .raised
  · rw [if_pos hraised]
    exact (Tame.refl s).stays
  rw [if_neg hraised]
  apply ended_bind (Tame.refl s) (tames_markDone wake.id)
  intro t ht
  apply ended_bind ht tames_flushInterjects
  intro t ht
  apply ended_bind ht (tames_armGiven _ _ _)
  intro t ht
  rw [run_bind, run_modify]
  show Ended cfg (counted wake s) w s ((maybeEnqueueMomentContinue env cfg wake momentId result
    (normalStop result.stopReason) w >>= fun item? => modify leaveMoment >>= fun _ => pure item?)
      (settlePhase wake t))
  have hended := @maybeEnqueue_ended env cfg w (settlePhase wake t)
    wake momentId result (normalStop result.stopReason)
  have hbefore : Ended cfg (counted wake s) w s (maybeEnqueueMomentContinue env cfg wake momentId
      result (normalStop result.stopReason) w (settlePhase wake t)) := by
    apply hended.before ht.pending
    · show (if wake.kind = .momentContinue ∧ t.continuous.enabled then t.continuous.streak + 1
        else t.continuous.streak) = s.continuous.streak + counted wake s
      rw [counted, ht.enabled, ht.streak]
      split_ifs <;> rfl
    · exact ht.stamp
  rw [run_bind]
  cases hrun : maybeEnqueueMomentContinue env cfg wake momentId result
    (normalStop result.stopReason) w (settlePhase wake t) with
  | error e u =>
    rw [hrun] at hbefore
    exact hbefore
  | ok item? u =>
    rw [hrun] at hbefore
    exact hbefore.leave

end Ended

end Elyra.Presence
