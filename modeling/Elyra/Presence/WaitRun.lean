import Elyra.Presence.TimerFiring
import Elyra.Presence.Worker

namespace Elyra.Presence

open Json TimerService

/-- The service, and whether the process that holds it is alive. -/
structure Host where
  service : TimerService
  up : Bool

/-- A lock-held section with what happens to its file writes, or the process is killed, if it still
runs, and started again. -/
inductive HostEvent (γ : Type) where
  | call (c : γ) (plan : List Outcome)
  | restart

namespace Host

def start : Host := ⟨.start, true⟩

def perform (h : Host) (m : ServiceM Unit) (plan : List Outcome) : Host :=
  if h.up then
    match m ⟨h.service, plan⟩ with
    | .ok _ t => ⟨t.disk, true⟩
    | .error e t => ⟨t.disk, decide (e ≠ .died)⟩
  else h

section Run

variable [PyCoerce] [PyFloat] {γ : Type} (sectionOf : γ → ServiceM Unit)

def step (h : Host) : HostEvent γ → Host
  | .call c plan => h.perform (sectionOf c) plan
  | .restart => perform ⟨h.service, true⟩ load []

def run (h : Host) (events : List (HostEvent γ)) : Host := events.foldl (step sectionOf) h

end Run
end Host

/-- The lock-held sections of the worker that touch waits or the wake log, but not timers. -/
inductive WaitCall where
  | waitUser (a : WaitRequest) (armed now : Instant)
  | ensureWaitArmed (uuid : Nat) (a : WaitRequest) (armed now : Instant)
  | resolveUserInput (a : InputArgs) (phase : Phase) (buffer : InterjectBuffer)
  | cancelWait (waitId : String)
  | fireDue (now : Instant)
  | rehydrate (now : Instant)
  | enqueue (kind : WakeKind) (payload : Payload)
      (other : kind ∈ [.userMessage, .taskReady, .momentContinue, .background])
  | finish (e : WakeEvent) (other : enqueuedItem e = none)

namespace WaitCall

/-- `try: … except KeyError: pass` -/
def exceptKeyError (m : ServiceM Unit) : ServiceM Unit :=
  tryExcept m fun e =>
    match e with
    | .keyError _ => return ()
    | e => raise e

section Sections

variable (env : Env)

def markAnswered : Option String → ServiceM Unit
  | none => return ()
  | some waitId => exceptKeyError (markWaitAnswered waitId)

def sendReply (content userId : String) (choice waitId messageId : Option String) :
    ServiceM Unit := do
  let mid ← orDrawn env messageId
  let payload := replyPayload (stripText content) userId ((choice.map stripText).getD "") mid waitId
  let _ ← TimerService.enqueue env .waitReply payload none

/-- `_apply_wait_reply_unlocked`: the wait is answered, and then its wake is enqueued. -/
def applyWaitReply (content userId : String) (choice waitId messageId : Option String) :
    ServiceM Unit := do
  markAnswered waitId
  sendReply env content userId choice waitId messageId

/-- A message that the open moment's buffer has no room for becomes a wake. -/
def interject (content userId : String) (messageId : Option String) (buffer : InterjectBuffer) :
    ServiceM Unit :=
  match buffer.tryAdd ⟨content, userId, messageId⟩ with
  | some _ => return ()
  | none => do
    let mid ← orDrawn env messageId
    let payload := (userPayload content userId mid).set "from_interject_overflow" (.bool true)
    let _ ← TimerService.enqueue env .userMessage payload none

def cancelStale (stale : Bool) (pending : Option PendingWait) : ServiceM Unit :=
  match stale, waitIdOf pending with
  | true, some waitId => exceptKeyError (TimerService.cancelWait waitId)
  | _, _ => return ()

def userMessage (content userId : String) (messageId : Option String) : ServiceM Unit := do
  let mid ← orDrawn env messageId
  let _ ← TimerService.enqueue env .userMessage (userPayload content userId mid) none

/-- The wait an input is taken to be about: the pending one that ends first. -/
def pendingWait (s : TimerService) : Option PendingWait := (pendingWaits s.waits).head?

def decision (a : InputArgs) (phase : Phase) (s : TimerService) : InputDecision :=
  decideUserInput a.content a.userId a.choice a.fromWaitApi phase (pendingWait s) a.hasAttachments

def resolveInput (a : InputArgs) (phase : Phase) (buffer : InterjectBuffer) :
    ServiceM Unit := do
  let s ← look
  let d := decision a phase s
  if d.ok then
    match d.routed with
    | .interject => interject env a.content a.userId a.messageId buffer
    | .waitReply => applyWaitReply env a.content a.userId a.choice d.answerWaitId a.messageId
    | .userMessage =>
      cancelStale d.cancelStaleWait (pendingWait s)
      userMessage env a.content a.userId a.messageId
  else return ()

variable [PyFloat]

/-- The tool draws the id of its wait. -/
def armNew (a : WaitRequest) (armed now : Instant) : ServiceM Unit := do
  let waitId ← TimerService.draw env.uuid4
  let _ ← armWait env { a with waitId := some waitId } armed now

/-- A wait under an id that was drawn before is armed unless it is known. -/
def armUnknown (uuid : Nat) (a : WaitRequest) (armed now : Instant) : ServiceM Unit := do
  let s ← look
  if uuid < s.draws ∧ s.waits.get? (env.uuid4 uuid) = none then
    let _ ← armWait env { a with waitId := some (env.uuid4 uuid) } armed now
  else return ()

/-- `_fire_due_unlocked` -/
def poll (now : Instant) : ServiceM Unit :=
  tryExcept
    (do
      scheduleDue env now
      checkTimeouts env now)
    fun _ => return ()

def sectionOf [PyCoerce] : WaitCall → ServiceM Unit
  | waitUser a armed now => armNew env a armed now
  | ensureWaitArmed uuid a armed now => armUnknown env uuid a armed now
  | resolveUserInput a phase buffer => resolveInput env a phase buffer
  | cancelWait waitId => exceptKeyError (TimerService.cancelWait waitId)
  | fireDue now => poll env now
  | rehydrate now => TimerService.rehydrate env now
  | enqueue kind payload _ => do
    let _ ← TimerService.enqueue env kind payload none
  | finish e _ => operation fun s => { s with log := s.log ++ [e] }

end Sections
end WaitCall

/-- A row is installed under an id that was drawn and that no row bears. -/
def freshOnly (env : Env) (p : Persisted) (n : SnapshotName) (k : String) : Prop :=
  p.marks n k = none ∧ ∃ i < p.draws, k = env.uuid4 i

def waitFrame (env : Env) (ends : Status → Prop) (p : Persisted) : Frame := ⟨freshOnly env, ends, p⟩

/-- Rows bear ids that were drawn. -/
def Named (env : Env) (p : Persisted) : Prop :=
  ∀ n k, p.marks n k ≠ none → ∃ i < p.draws, k = env.uuid4 i

theorem waitFrame_sound (env : Env) (ends : Status → Prop) (p : Persisted) :
    (waitFrame env ends p).Sound env := by
  intro q hq k hk hallowed
  obtain ⟨x, hx⟩ := hq.answered k hk
  rw [hallowed.1] at hx
  cases hx

theorem Named.effect {env : Env} {ends : Status → Prop} {p q : Persisted} (h : Named env p)
    (he : Effect env (freshOnly env) ends p q) : Named env q := by
  have marked (n : SnapshotName) (k : String) (m : Mark) (hk : ∃ i < p.draws, k = env.uuid4 i) :
      Named env (p.setMark n k m) := by
    intro n' k' hne
    rw [Persisted.marks_setMark] at hne
    split_ifs at hne with hsame
    · obtain ⟨-, rfl⟩ := hsame
      exact hk
    · exact h n' k' hne
  have known {n : SnapshotName} {k : String} {m : Mark} (hm : p.marks n k = some m) :
      ∃ i < p.draws, k = env.uuid4 i := by
    apply h n k
    rw [hm]
    exact Option.some_ne_none m
  cases he with
  | draw =>
    intro n k hne
    obtain ⟨i, hi, hk⟩ := h n k hne
    exact ⟨i, Nat.lt_succ_of_lt hi, hk⟩
  | install n k hallowed => exact marked n k _ hallowed.2
  | settle n k x status opened ending hends => exact marked n k _ (known opened)
  | fire n k x id opened fresh => exact marked n k _ (known opened)
  | send | reply | post | other => exact h

theorem sourceOf_other {item : WakeItem}
    (h : item.kind ∈ [WakeKind.userMessage, .taskReady, .momentContinue, .background]) :
    sourceOf item = none ∧ replyTo item = none := by
  unfold sourceOf replyTo
  cases hkind : item.kind <;> rw [hkind] at h <;>
    first | exact ⟨rfl, rfl⟩ | exact absurd h (by decide)

section Sections

variable [PyCoerce] [PyFloat] {env : Env} {ends : Status → Prop} {p₀ : Persisted}

/-- From a live service a section leaves a live one, or breaks off. -/
def Safe (env : Env) (ends : Status → Prop) (p₀ : Persisted) {α : Type} (s : TimerService)
    (m : ServiceM α) : Prop :=
  Triple (· = s) m (fun _ t => Serving env (waitFrame env ends p₀) t)
    (Broken env (waitFrame env ends p₀))

theorem Safe.bind {α β : Type} {s : TimerService} {m : ServiceM α} {g : α → ServiceM β}
    (hm : Safe env ends p₀ s m)
    (hg : ∀ a t, Serving env (waitFrame env ends p₀) t → Safe env ends p₀ t (g a)) :
    Safe env ends p₀ s (m >>= g) := by
  apply triple_bind hm
  intro a
  apply triple_each
  exact fun t ht => hg a t ht

theorem safe_pure {α : Type} (a : α) {s : TimerService}
    (h : Serving env (waitFrame env ends p₀) s) : Safe env ends p₀ s (pure a) :=
  triple_pure a fun _ hd => hd ▸ h

theorem safe_tryExcept {s : TimerService} {m : ServiceM Unit} (hm : Safe env ends p₀ s m)
    {handle : PyErr → ServiceM Unit} (hhandle : ∀ e t,
      Serving env (waitFrame env ends p₀) t → Safe env ends p₀ t (handle e)) :
    Safe env ends p₀ s (tryExcept m handle) := by
  apply triple_tryExcept hm
  · exact fun _ hd => hd
  · intro e
    apply triple_each
    intro t ht
    exact hhandle e t ⟨ht.1, ht.2 (by simp)⟩

theorem safe_exceptKeyError {s : TimerService} {m : ServiceM Unit} (hm : Safe env ends p₀ s m) :
    Safe env ends p₀ s (WaitCall.exceptKeyError m) := by
  apply safe_tryExcept hm
  intro e t ht
  split
  · exact safe_pure () ht
  · exact triple_raise _ fun _ hd => hd ▸ ht.broken _

theorem safe_draw {s : TimerService} (h : Serving env (waitFrame env ends p₀) s)
    (source : Nat → String) : Safe env ends p₀ s (TimerService.draw source) :=
  (draw_triple (waitFrame_sound env ends p₀) h source).weaken (fun _ hd => hd)
    (fun _ _ hq => hq.2.2) (fun _ _ he => he)

theorem safe_orDrawn {s : TimerService} (h : Serving env (waitFrame env ends p₀) s)
    (x : Option String) : Safe env ends p₀ s (orDrawn env x) := by
  unfold orDrawn
  split
  · split_ifs
    · exact safe_draw h env.uuid4
    · exact safe_pure _ h
  · exact safe_draw h env.uuid4

/-- A wake that neither fires a row nor answers a wait. -/
theorem safe_enqueue (hu : UuidDraws env) {s : TimerService}
    (h : Serving env (waitFrame env ends p₀) s) {kind : WakeKind} (payload : Payload)
    (hkind : kind ∈ [WakeKind.userMessage, .taskReady, .momentContinue, .background]) :
    Safe env ends p₀ s (do let _ ← TimerService.enqueue env kind payload none) := by
  apply triple_bind (enqueue_new_triple (waitFrame_sound env ends p₀) hu h ?_)
  · intro item
    exact triple_pure _ fun _ hd => hd.2
  · intro id t hkept hlog hdraws hunused p ts item hmarks hplog hpdraws hid hitem hpay
    rw [← hitem] at hkind
    obtain ⟨hsource, htarget⟩ := sourceOf_other hkind
    apply Effect.post ts item hsource htarget
    rw [hid]
    exact hunused p hmarks hplog hpdraws

theorem safe_cancelWait {s : TimerService} (h : Serving env (waitFrame env ends p₀) s)
    (hends : ends .cancelled) (waitId : String) :
    Safe env ends p₀ s (TimerService.cancelWait waitId) :=
  (settle_triple (waitFrame_sound env ends p₀) h waitId (by decide) hends).weaken
    (fun _ hd => hd) (fun _ _ hq => hq.1) (fun _ _ he => he)

theorem safe_fireDue (hu : UuidDraws env) {s : TimerService}
    (h : Serving env (waitFrame env ends p₀) s) (n : SnapshotName) (now : Instant) :
    Safe env ends p₀ s (TimerService.fireDue env n now) :=
  (fireDue_triple (waitFrame_sound env ends p₀) hu h).weaken (fun _ hd => hd)
    (fun _ _ hq => hq.1) (fun _ _ he => he)

theorem safe_armWait (hu : UuidDraws env) {s : TimerService}
    (h : Serving env (waitFrame env ends p₀) s) (a : WaitRequest) (armed now : Instant) {i : Nat}
    (hi : i < s.draws) (hfree : s.persisted.marks .waits (env.uuid4 i) = none) :
    Safe env ends p₀ s
      (do let _ ← armWait env { a with waitId := some (env.uuid4 i) } armed now) := by
  apply Safe.bind
  · apply triple_bind (Q := fun _ d => d = s)
    · apply triple_attempt
      · exact fun _ _ _ hd => hd
      · exact fun _ _ hd => hd ▸ h.broken _
    intro expires
    apply triple_bind (Q := fun x d => x = env.uuid4 i ∧ d = s)
    · unfold orDrawn
      simp only [if_neg (hu.filled i)]
      exact triple_pure _ fun _ hd => ⟨rfl, hd⟩
    intro x
    apply triple_each
    rintro d ⟨rfl, rfl⟩
    let wait : PendingWait := ⟨env.uuid4 i, a.prompt, a.choices, a.userId, a.momentId, expires,
      a.timeout, some (isoZ armed), .pending, none⟩
    apply triple_bind (install_triple (n := .waits) (r := wait) (waitFrame_sound env ends p₀) h
      (hu.filled i) rfl ⟨hfree, i, hi, rfl⟩)
    intro _
    exact triple_pure _ fun _ hd => hd.1
  · exact fun _ t ht => safe_pure () ht

theorem safe_armNew (hu : UuidDraws env) {s : TimerService}
    (h : Serving env (waitFrame env ends p₀) s) (hnamed : Named env s.persisted) (a : WaitRequest)
    (armed now : Instant) : Safe env ends p₀ s (WaitCall.armNew env a armed now) := by
  apply triple_bind (draw_triple (waitFrame_sound env ends p₀) h env.uuid4)
  intro waitId
  apply triple_each
  rintro t ⟨rfl, hd, ht⟩
  apply safe_armWait hu ht a armed now
  · rw [hd.draws]
    exact Nat.lt_succ_self _
  · rw [hd.marks]
    by_contra hne
    obtain ⟨i, hi, heq⟩ := hnamed _ _ hne
    have hlt : i < s.draws := hi
    rw [hu.injective heq] at hlt
    exact lt_irrefl _ hlt

theorem safe_armUnknown (hu : UuidDraws env) {s : TimerService}
    (h : Serving env (waitFrame env ends p₀) s) (uuid : Nat) (a : WaitRequest)
    (armed now : Instant) : Safe env ends p₀ s (WaitCall.armUnknown env uuid a armed now) := by
  apply triple_look_bind
  rintro d rfl
  apply triple_ite
  · rintro ⟨hlt, hnone⟩
    apply safe_armWait hu h a armed now hlt
    rw [← h.agrees .waits]
    rw [show (d.rows .waits).get? (env.uuid4 uuid) = none from hnone]
    rfl
  · exact fun _ => safe_pure () h

theorem safe_poll (hu : UuidDraws env) {s : TimerService}
    (h : Serving env (waitFrame env ends p₀) s) (now : Instant) :
    Safe env ends p₀ s (WaitCall.poll env now) := by
  apply safe_tryExcept
  · exact (safe_fireDue hu h .timers now).bind fun _ _ ht => safe_fireDue hu ht .waits now
  · exact fun _ _ ht => safe_pure () ht

theorem safe_rehydrate (hu : UuidDraws env) {s : TimerService}
    (h : Serving env (waitFrame env ends p₀) s) (now : Instant) :
    Safe env ends p₀ s (TimerService.rehydrate env now) :=
  (rehydrate_triple (waitFrame_sound env ends p₀) hu h).weaken (fun _ hd => hd)
    (fun _ _ hq => hq.1) (fun _ _ he => he)

theorem safe_finish {s : TimerService} (h : Serving env (waitFrame env ends p₀) s) (e : WakeEvent)
    (he : enqueuedItem e = none) :
    Safe env ends p₀ s (operation fun s => { s with log := s.log ++ [e] }) := by
  apply triple_operation
  · rintro d rfl
    have hkept : Kept d { d with log := d.log ++ [e] } :=
      ⟨fun n => by cases n <;> rfl, fun n => by cases n <;> rfl⟩
    apply hkept.live (waitFrame_sound env ends p₀) h
    rw [hkept.persisted]
    exact .other e he
  · exact fun _ hd => hd ▸ h.broken _
  · exact fun _ hd => hd ▸ h.broken _

theorem safe_interject (hu : UuidDraws env) {s : TimerService}
    (h : Serving env (waitFrame env ends p₀) s) (content userId : String)
    (messageId : Option String) (buffer : InterjectBuffer) :
    Safe env ends p₀ s (WaitCall.interject env content userId messageId buffer) := by
  unfold WaitCall.interject
  split
  · exact safe_pure () h
  · exact (safe_orDrawn h messageId).bind fun _ _ ht => safe_enqueue hu ht _ (by decide)

theorem safe_userMessage (hu : UuidDraws env) {s : TimerService}
    (h : Serving env (waitFrame env ends p₀) s) (content userId : String)
    (messageId : Option String) :
    Safe env ends p₀ s (WaitCall.userMessage env content userId messageId) :=
  (safe_orDrawn h messageId).bind fun _ _ ht => safe_enqueue hu ht _ (by decide)

theorem safe_cancelStale {s : TimerService} (h : Serving env (waitFrame env ends p₀) s)
    (hends : ends .cancelled) (stale : Bool) (pending : Option PendingWait) :
    Safe env ends p₀ s (WaitCall.cancelStale stale pending) := by
  unfold WaitCall.cancelStale
  split
  · exact safe_exceptKeyError (safe_cancelWait h hends _)
  · exact safe_pure () h

end Sections
end Elyra.Presence
