import Elyra.Sandbox.EnsureHolds

namespace Elyra.Sandbox.Ensure

section Runs

variable {m : Manager} {name fp : String} {env : Environment AnswerTo} {locked : Bool}

theorem since_start (name : String) (m : Manager) :
    Since 0 (Books once name m 0 0) (⟨m, []⟩ : Asked AnswerTo Manager) :=
  ⟨Nat.le_refl 0, Frame.refl name m, id, Nat.le_refl 0, Nat.le_refl 0, trivial⟩

/-- A machine whose client cannot be used never caches anything. -/
def Idle (m : Manager) : Prop := m.clientUnusable = true → ∀ name, m.connected.get? name = none

/-- What one ensure does: it asks for at most one removal and one creation, and for two of each
only where the host raised after a ping answered `False`; a ready handle is cached and vouched
for by this call; and when it degrades for want of anything but the lock, nothing is cached. -/
structure Sound (m : Manager) (env : Environment AnswerTo) (name fp : String) (locked : Bool) :
    Prop where
  few : Few (ensure env name fp locked m).2.2
  ready : ∀ sb, (ensure env name fp locked m).1 = .ok (.ready sb) →
    (ensure env name fp locked m).2.1.connected.get? name = some sb ∧
      Obtained name sb (ensure env name fp locked m).2.2 ∧
      Checked m.skipGuestReadiness sb (ensure env name fp locked m).2.2
  degraded : ∀ reason, (ensure env name fp locked m).1 = .ok (.degraded reason) →
    reason ≠ "lock_timeout" →
    (ensure env name fp locked m).2.1.connected.get? name = none ∧
      (ensure env name fp locked m).2.1.isReady name = false

/-- The ways an ensure ends. -/
theorem ensure_cases (m : Manager) (env : Environment AnswerTo) (name fp : String)
    (locked : Bool) :
    (m.clientUnusable = true ∧ ensure env name fp locked m =
      (.ok (.degraded "client_unusable"), m.noteReason name (some "client_unusable"), [])) ∨
    m.clientUnusable = false ∧
      ((locked = false ∧ ensure env name fp locked m =
          (.ok (.degraded "lock_timeout"), m.noteReason name (some "lock_timeout"), [])) ∨
        (∃ sb x tail, Ends name m (.ready sb) x tail ∧
          ensure env name fp locked m = (.ok (.ready sb), x.noteReason name none, tail)) ∨
        (∃ reason text x tail, Frame name m x ∧ Few tail ∧
          x.connected.get? name = none ∧ ensure env name fp locked m =
            (.ok (.degraded reason), x.noteReason name (some text), tail)) ∨
        ∃ e x tail, Stopped name m x tail ∧
          ensure env name fp locked m = (.error (.raised e), x, tail)) := by
  unfold ensure
  split
  · rename_i hu
    exact .inl ⟨hu, rfl⟩
  · rename_i hu
    rw [Bool.not_eq_true] at hu
    refine .inr ⟨hu, ?_⟩
    split
    · rename_i hl
      exact .inl ⟨by simpa using hl, rfl⟩
    · have hmeets : Ensures (Since 0 (Books once name m 0 0)) (ensureLocked env name fp)
          (Post 0 name m) (Halts 0 name m) := ensures_ensureLocked
      have hrun := hmeets ⟨m, []⟩ (since_start name m)
      cases hr : ensureLocked env name fp ⟨m, []⟩ with
      | ok r s =>
        rw [hr] at hrun
        obtain ⟨-, hends⟩ := hrun
        rw [List.drop_zero] at hends
        cases r with
        | ready sb => exact .inr (.inl ⟨sb, s.state, s.trace, hends, rfl⟩)
        | degraded reason =>
          obtain ⟨hframe, hfew, hnone, -⟩ := hends
          exact .inr (.inr (.inl ⟨reason, _, s.state, s.trace, hframe, hfew, hnone, rfl⟩))
      | error e s =>
        rw [hr] at hrun
        obtain ⟨-, hstop, -⟩ := hrun
        rw [List.drop_zero] at hstop
        cases e with
        | wall =>
          exact .inr (.inr (.inl ⟨_, _, s.state.clearCache name, s.trace,
            hstop.frame.clearCache, hstop.few, clearCache_connected s.state name, rfl⟩))
        | raised e => exact .inr (.inr (.inr ⟨e, s.state, s.trace, hstop, rfl⟩))

theorem few_nil : Few [] :=
  ⟨Nat.zero_le 2, Nat.zero_le 2, fun _ => ⟨Nat.zero_le 1, Nat.zero_le 1⟩⟩

theorem ensure_sound (h : Idle m) : Sound m env name fp locked := by
  obtain ⟨hu, hr⟩ | ⟨-, hcases⟩ := ensure_cases m env name fp locked
  · constructor <;> rw [hr]
    · exact few_nil
    · exact fun _ hready => nomatch hready
    · exact fun _ _ _ => ⟨h hu name, not_isReady (h hu name)⟩
  obtain ⟨-, hr⟩ | ⟨sb, x, tail, hends, hr⟩ |
    ⟨reason, text, x, tail, -, hfew, hnone, hr⟩ | ⟨e, x, tail, hstop, hr⟩ := hcases
  · constructor <;> rw [hr]
    · exact few_nil
    · exact fun _ hready => nomatch hready
    · intro reason hreason hne
      cases hreason
      exact absurd rfl hne
  · obtain ⟨-, hfew, hcached, -, hobtained, hchecked⟩ := hends
    constructor <;> rw [hr]
    · exact hfew
    · intro sb' hready
      cases hready
      exact ⟨hcached, hobtained, hchecked⟩
    · exact fun _ hdegraded => nomatch hdegraded
  · constructor <;> rw [hr]
    · exact hfew
    · exact fun _ hready => nomatch hready
    · exact fun _ _ _ => ⟨hnone, not_isReady hnone⟩
  · constructor <;> rw [hr]
    · exact hstop.few
    · exact fun _ hready => nomatch hready
    · exact fun _ hdegraded => nomatch hdegraded

theorem withReady_frame (m : Manager) (env : Environment AnswerTo) (name fp : String)
    (locked : Bool) : Frame name m (withReadySandbox env name fp locked m).2 := by
  unfold withReadySandbox
  split
  · exact Frame.refl name m
  · have hmeets : Ensures (Since 0 (Books once name m 0 0)) (withReadyLocked env name fp)
        (fun _ => Since 0 fun x _ => Frame name m x) (Halts 0 name m) := ensures_withReadyLocked
    have hrun := hmeets ⟨m, []⟩ (since_start name m)
    cases hr : withReadyLocked env name fp ⟨m, []⟩ with
    | ok r s =>
      rw [hr] at hrun
      cases r with
      | ready sb => exact hrun.2
      | degraded reason => exact hrun.2
    | error e s =>
      rw [hr] at hrun
      exact hrun.2.1.frame

/-- A ready name has no reason. -/
def Unblamed (m : Manager) : Prop :=
  ∀ name, m.isReady name = true → m.lastEnsureReason name = none

/-- An ensure gets the lock unless its name is not ready, and a sandbox is asked for by
`with_ready_sandbox` only while no ensure has left a reason for it. -/
def Reporting (m : Manager) : ManagerCall → Prop
  | .ensure name _ locked _ => locked = false → m.isReady name = false
  | .withReady name _ locked _ => locked = true → m.lastEnsureReason name = none
  | .invalidate _ => True

instance (m : Manager) (c : ManagerCall) : Decidable (Reporting m c) := by
  cases c <;> unfold Reporting <;> infer_instance

theorem isReady_congr {m' : Manager} {name : String}
    (hc : m'.connected.get? name = m.connected.get? name)
    (hr : m'.ready.get? name = m.ready.get? name) : m'.isReady name = m.isReady name := by
  rw [Manager.isReady, Manager.isReady, hc, hr]

theorem lastReason_congr {m' : Manager} {name : String}
    (hu : m'.clientUnusable = m.clientUnusable)
    (hl : m'.lastReason.get? name = m.lastReason.get? name) :
    m'.lastEnsureReason name = m.lastEnsureReason name := by
  rw [Manager.lastEnsureReason, Manager.lastEnsureReason, hu, hl]

/-- A reason noted for one name says nothing of another. -/
theorem Frame.unblamed_other {m₀ x : Manager} {name other : String} (hf : Frame name m₀ x)
    (h : Unblamed m₀) (hne : other ≠ name) (reason : Option String) :
    (x.noteReason name reason).isReady other = true →
      (x.noteReason name reason).lastEnsureReason other = none := by
  intro hready
  have hsame : (x.noteReason name reason).isReady other = m₀.isReady other :=
    isReady_congr (hf.connected other hne) (hf.ready other hne)
  have hlast : (x.noteReason name reason).lastEnsureReason other = m₀.lastEnsureReason other := by
    apply lastReason_congr (show (x.noteReason name reason).clientUnusable = _ from hf.unusable)
    rw [Manager.noteReason, Dict.get?_set_ne _ _ hne.symm, hf.reasons]
  rw [hlast]
  exact h other (hsame ▸ hready)

theorem idle_of_frame {m₀ x : Manager} {name : String} (hf : Frame name m₀ x)
    (husable : m₀.clientUnusable = false) : Idle x := by
  intro hu
  rw [hf.unusable, husable] at hu
  cases hu

theorem Idle.noteReason (h : Idle m) (name : String) (reason : Option String) :
    Idle (m.noteReason name reason) := h

theorem withReady_unlocked (h : locked = false ∨ m.clientUnusable = true) :
    (withReadySandbox env name fp locked m).2 = m := by
  have hcond : (m.clientUnusable || !locked) = true := by
    obtain rfl | h := h
    · exact Bool.or_true _
    · rw [h]
      rfl
  rw [withReadySandbox, if_pos hcond]

theorem idle_step (h : Idle m) (c : ManagerCall) : Idle (managerStep m c) := by
  cases c with
  | ensure name fp locked env =>
    rw [managerStep]
    obtain ⟨hu, hr⟩ | ⟨hu, hcases⟩ := ensure_cases m env name fp locked
    · rw [hr]
      exact fun _ => h hu
    obtain ⟨-, hr⟩ | ⟨sb, x, tail, hends, hr⟩ | ⟨reason, text, x, tail, hframe, -, -, hr⟩ |
      ⟨e, x, tail, hstop, hr⟩ := hcases <;> rw [hr]
    · exact h
    · exact (idle_of_frame hends.1 hu).noteReason name none
    · exact (idle_of_frame hframe hu).noteReason name _
    · exact idle_of_frame hstop.frame hu
  | withReady name fp locked env =>
    rw [managerStep]
    cases hu : m.clientUnusable with
    | true =>
      rw [withReady_unlocked (.inr hu)]
      exact h
    | false => exact idle_of_frame (withReady_frame m env name fp locked) hu
  | invalidate name =>
    intro hu other
    rw [managerStep, Manager.clearCache, Dict.get?_pop]
    split
    · rfl
    · exact h hu other

theorem unblamed_step (hidle : Idle m) (h : Unblamed m) {c : ManagerCall} (hc : Reporting m c) :
    Unblamed (managerStep m c) := by
  cases c with
  | ensure name fp locked env =>
    rw [managerStep]
    obtain ⟨hu, hr⟩ | ⟨hu, hcases⟩ := ensure_cases m env name fp locked
    · rw [hr]
      intro other hready
      rw [show (m.noteReason name _).isReady other = m.isReady other from rfl,
        not_isReady (hidle hu other)] at hready
      cases hready
    obtain ⟨hlocked, hr⟩ | ⟨sb, x, tail, hends, hr⟩ |
      ⟨reason, text, x, tail, hframe, -, hnone, hr⟩ | ⟨e, x, tail, hstop, hr⟩ := hcases <;>
      rw [hr] <;> intro other
    · by_cases hne : other = name
      · intro hready
        have hnot : m.isReady name = false := hc hlocked
        rw [hne, show (m.noteReason name _).isReady name = m.isReady name from rfl, hnot] at hready
        cases hready
      · exact (Frame.refl name m).unblamed_other h hne _
    · by_cases hne : other = name
      · intro _
        have husable : x.clientUnusable = false := hends.1.unusable.trans hu
        rw [hne, Manager.lastEnsureReason, Manager.noteReason, if_neg (by rw [husable]; decide),
          Dict.get?_set_self]
        rfl
      · exact hends.1.unblamed_other h hne _
    · by_cases hne : other = name
      · intro hready
        rw [hne, show (x.noteReason name _).isReady name = x.isReady name from rfl,
          not_isReady hnone] at hready
        cases hready
      · exact hframe.unblamed_other h hne _
    · intro hready
      have hbefore : m.isReady other = true := by
        by_cases hne : other = name
        · rw [hne] at hready ⊢
          exact hstop.uncached hready
        · rw [← isReady_congr (hstop.frame.connected other hne) (hstop.frame.ready other hne)]
          exact hready
      have hlast : x.lastEnsureReason other = m.lastEnsureReason other :=
        lastReason_congr hstop.frame.unusable (by rw [hstop.frame.reasons])
      exact hlast.trans (h other hbefore)
  | withReady name fp locked env =>
    rw [managerStep]
    cases hlocked : locked with
    | false =>
      rw [withReady_unlocked (.inl rfl)]
      exact h
    | true =>
      have hframe := withReady_frame m env name fp true
      intro other hready
      have hlast : (withReadySandbox env name fp true m).2.lastEnsureReason other =
          m.lastEnsureReason other :=
        lastReason_congr hframe.unusable (by rw [hframe.reasons])
      rw [hlast]
      by_cases hne : other = name
      · exact hne ▸ hc hlocked
      · apply h other
        rw [← isReady_congr (hframe.connected other hne) (hframe.ready other hne)]
        exact hready
  | invalidate name =>
    intro other hready
    by_cases hne : other = name
    · rw [managerStep, hne, not_isReady (clearCache_connected m name)] at hready
      cases hready
    · have hframe : Frame name m (m.clearCache name) := (Frame.refl name m).clearCache
      apply h other
      rw [← isReady_congr (hframe.connected other hne) (hframe.ready other hne)]
      exact hready

/-- A manager as it is made. -/
def made (clientUnusable skipGuestReadiness : Bool) : Manager :=
  { clientUnusable, skipGuestReadiness }

/-- In every reachable state an ensure is sound; and a run whose calls report never has a name
that is ready and yet has a reason. -/
theorem ensure_machine (unusable skip : Bool) (calls : List ManagerCall) :
    (∀ env name fp locked, Sound (run managerStep (made unusable skip) calls) env name fp locked) ∧
      (Along managerStep Reporting (made unusable skip) calls →
        Unblamed (run managerStep (made unusable skip) calls)) := by
  have hmade : Idle (made unusable skip) := fun _ _ => rfl
  have hidle : Idle (run managerStep (made unusable skip) calls) :=
    run_invariant Idle (fun m c h => idle_step h c) _ calls hmade
  refine ⟨fun env name fp locked => ensure_sound hidle, ?_⟩
  intro hreports
  have hboth : Idle (run managerStep (made unusable skip) calls) ∧
      Unblamed (run managerStep (made unusable skip) calls) := by
    apply hreports.invariant (fun m => Idle m ∧ Unblamed m)
    · exact fun m c hc h => ⟨idle_step h.1 c, unblamed_step h.1 h.2 hc⟩
    · exact ⟨hmade, fun _ hready => nomatch hready⟩
  exact hboth.2

end Runs

section Sample

/-- A client that has no machine yet and creates one. -/
def creating : Environment AnswerTo := fun _ c =>
  match c with
  | .hostTree | .createKwargs => .ok ()
  | .hostReady => .ok (true, none)
  | .remaining => true
  | .get _ => some (.error (.notFound "sandbox0"))
  | .connect _ | .start _ | .create _ => some (.ok 7)
  | .waitUntilStopped _ | .remove _ | .kill _ | .detach _ => some (.ok ())
  | .ping _ => some (.ok true)
  | .readiness _ => some (.ok (true, none))

theorem ensure_machine_sample :
    Unblamed (run managerStep (made false false) [.withReady "sandbox0" "fp" true creating,
      .invalidate "sandbox0", .ensure "sandbox0" "fp" false creating,
      .ensure "sandbox0" "fp" true creating]) :=
  (ensure_machine false false _).2 (by decide +kernel)

/-- The same client before its service is up. -/
def down : Environment AnswerTo := fun n c =>
  match c with
  | .get _ => some (.error (.sandbox "service down"))
  | c => creating n c

/-- An ensure fails, and then `with_ready_sandbox` makes the sandbox ready. -/
def staleCalls : List ManagerCall :=
  [.ensure "sandbox0" "fp" true down, .withReady "sandbox0" "fp" true creating]

/-- A machine that runs and answers no ping, under a host that cannot make its mounts. -/
def dying : Environment AnswerTo := fun n c =>
  match c with
  | .get _ => some (.ok "running")
  | .ping _ => some (.ok false)
  | .createKwargs => .error (.other "AttributeError" "Volume")
  | c => creating n c

/-- The sandbox is ready while the reason of the failed ensure stands; and the ensure of a dying
machine asks for two removals. -/
theorem stale_reason :
    ¬Unblamed (run managerStep (made false false) staleCalls) ∧
      removes (ensure dying "sandbox0" "fp" true (made false false)).2.2 = 2 := by
  constructor
  · intro h
    have hready : (run managerStep (made false false) staleCalls).isReady "sandbox0" = true := by
      decide +kernel
    have hreason := h "sandbox0" hready
    revert hreason
    decide +kernel
  · decide +kernel

end Sample
end Elyra.Sandbox.Ensure
