import Elyra.Memory.EncodeOwner

namespace Elyra.Memory

/-- No tick of a live thread gets past its next look at the epoch. -/
def AllStale (s : EncodeState) : Prop :=
  ∀ w ∈ s.threads, w.isAlive = true → w.epoch < s.epoch

/-- Past its last look at the epoch. -/
def EncodeWorker.lastStretch (w : EncodeWorker) : Bool :=
  w.place = .ticking .ready || w.place = .ticking .draining

/-- The handle holds the one thread that may be alive, and without ownership it is stale. -/
structure Owned (s : EncodeState) : Prop where
  held : ∀ i w, s.threads[i]? = some w → w.isAlive = true → s.handle = some i
  bounded : ∀ w ∈ s.threads, w.epoch ≤ s.epoch
  stale : s.owner ≠ .worker → AllStale s

/-- What every step keeps. The last part takes that idle drains begin `alone`. -/
structure EncodeInvariant (alone : Prop) (s : EncodeState) : Prop where
  owned : Owned s
  starting : s.presence = .starting → handleAlive s = false
  joining : ∀ stopper, s.presence = .joining stopper → AllStale s
  gap : ∀ tick, s.presence = .ticking .gap tick → handleAlive s = false
  idle : ∀ tick, s.presence = .ticking .idle tick → AllStale s
  draining : alone → s.presence = .ticking .idle .draining →
    ∀ w ∈ s.threads, w.lastStretch = false

section Threads

variable {s : EncodeState}

theorem Owned.noneAlive (h : Owned s) (hdead : handleAlive s = false) :
    ∀ w ∈ s.threads, w.isAlive = false := by
  intro w hw
  obtain ⟨i, hi⟩ := List.mem_iff_getElem?.mp hw
  by_contra halive
  rw [Bool.not_eq_false] at halive
  have hheld := h.held i w hi halive
  rw [handleAlive, hheld, Option.bind_some, hi, Option.any_some, halive] at hdead
  cases hdead

theorem allStale_of_dead (h : Owned s) (hdead : handleAlive s = false) : AllStale s := by
  intro w hw halive
  rw [h.noneAlive hdead w hw] at halive
  cases halive

/-- A move of one thread leaves its epoch, and wakes no dead thread. -/
structure Moved (s t : EncodeState) : Prop where
  back : ∀ (i : Nat) (w : EncodeWorker), t.threads[i]? = some w →
    ∃ v : EncodeWorker, s.threads[i]? = some v ∧ w.epoch = v.epoch ∧
      (w.isAlive = true → v.isAlive = true)
  handle : t.handle = s.handle
  epoch : t.epoch = s.epoch
  owner : t.owner = s.owner

theorem Moved.owned {t : EncodeState} (h : Moved s t) (hs : Owned s) : Owned t := by
  refine ⟨?_, ?_, ?_⟩
  · intro i w hi halive
    obtain ⟨v, hv, -, hback⟩ := h.back i w hi
    rw [h.handle]
    exact hs.held i v hv (hback halive)
  · intro w hw
    obtain ⟨i, hi⟩ := List.mem_iff_getElem?.mp hw
    obtain ⟨v, hv, hepoch, -⟩ := h.back i w hi
    rw [hepoch, h.epoch]
    exact hs.bounded v (List.mem_of_getElem? hv)
  · intro howner w hw halive
    obtain ⟨i, hi⟩ := List.mem_iff_getElem?.mp hw
    obtain ⟨v, hv, hepoch, hback⟩ := h.back i w hi
    rw [hepoch, h.epoch]
    exact hs.stale (h.owner ▸ howner) v (List.mem_of_getElem? hv) (hback halive)

theorem Moved.allStale {t : EncodeState} (h : Moved s t) (hs : AllStale s) : AllStale t := by
  intro w hw halive
  obtain ⟨i, hi⟩ := List.mem_iff_getElem?.mp hw
  obtain ⟨v, hv, hepoch, hback⟩ := h.back i w hi
  rw [hepoch, h.epoch]
  exact hs v (List.mem_of_getElem? hv) (hback halive)

theorem Moved.stillDead {t : EncodeState} (h : Moved s t) (hs : handleAlive s = false) :
    handleAlive t = false := by
  unfold handleAlive at hs ⊢
  rw [h.handle]
  cases hhandle : s.handle with
  | none => rfl
  | some i =>
    rw [hhandle] at hs
    simp only [Option.bind_some] at hs ⊢
    cases hi : t.threads[i]? with
    | none => rfl
    | some w =>
      obtain ⟨v, hv, -, hback⟩ := h.back i w hi
      rw [hv, Option.any_some] at hs
      rw [Option.any_some, Bool.eq_false_iff]
      intro halive
      rw [hback halive] at hs
      cases hs

theorem moved_setThread {i : Nat} {v w : EncodeWorker} (hi : s.threads[i]? = some v)
    (hepoch : w.epoch = v.epoch) (halive : w.isAlive = true → v.isAlive = true) :
    Moved s (setThread i w s) := by
  refine ⟨?_, rfl, rfl, rfl⟩
  intro j u hj
  change (s.threads.set i w)[j]? = some u at hj
  rw [List.getElem?_set] at hj
  by_cases hij : i = j
  · subst hij
    have hlt : i < s.threads.length := (List.getElem?_eq_some_iff.mp hi).1
    rw [if_pos rfl, if_pos hlt] at hj
    obtain rfl := Option.some.inj hj
    exact ⟨v, hi, hepoch, halive⟩
  · rw [if_neg hij] at hj
    exact ⟨u, hj, rfl, id⟩

/-- A new epoch leaves every thread behind. -/
theorem owned_nextEpoch (h : Owned s) : Owned { s with epoch := s.epoch + 1 } ∧
    AllStale { s with epoch := s.epoch + 1 } := by
  have hstale : AllStale { s with epoch := s.epoch + 1 } :=
    fun w hw _ => Nat.lt_succ_of_le (h.bounded w hw)
  exact ⟨⟨h.held, fun w hw => Nat.le_succ_of_le (h.bounded w hw), fun _ => hstale⟩, hstale⟩

theorem owned_dropDead (h : Owned s) : Owned (dropDead s) := by
  unfold dropDead
  by_cases halive : handleAlive s = true
  · rw [if_pos halive]
    exact h
  · rw [if_neg halive]
    have hnone := h.noneAlive (Bool.eq_false_iff.mpr halive)
    refine ⟨?_, h.bounded, h.stale⟩
    intro i w hi hw
    rw [hnone w (List.mem_of_getElem? hi)] at hw
    cases hw

theorem dropDead_presence : (dropDead s).presence = s.presence := by
  unfold dropDead
  split_ifs <;> rfl

theorem allStale_dropDead (h : AllStale s) : AllStale (dropDead s) := by
  unfold dropDead
  split_ifs
  · exact h
  · exact h

/-- A worker is started only where no thread is alive. -/
theorem owned_startEncodeWorker (starts : Bool) (h : Owned s) (hdead : handleAlive s = false) :
    Owned (startEncodeWorkerIfNeeded starts s) := by
  have hnone := h.noneAlive hdead
  unfold startEncodeWorkerIfNeeded
  by_cases hshut : s.shuttingDown = true
  · rw [if_pos hshut]
    exact h
  rw [if_neg hshut]
  simp only
  by_cases howner : desiredEncodeOwner s.flags ≠ .worker
  · rw [if_pos howner]
    have hstale := allStale_of_dead h hdead
    exact ⟨h.held, h.bounded, fun _ => hstale⟩
  rw [if_neg howner, if_neg]
  · refine ⟨?_, ?_, fun hne => absurd rfl hne⟩
    · intro i w hi halive
      change (s.threads ++ [_])[i]? = some w at hi
      rw [List.getElem?_append] at hi
      by_cases hlt : i < s.threads.length
      · rw [if_pos hlt] at hi
        rw [hnone w (List.mem_of_getElem? hi)] at halive
        cases halive
      · rw [if_neg hlt] at hi
        have hzero : i - s.threads.length = 0 := by
          by_contra hne
          rw [List.getElem?_singleton, if_neg hne] at hi
          cases hi
        have hlast : i = s.threads.length := by omega
        rw [hlast]
        rfl
    · intro w hw
      cases List.mem_append.mp hw with
      | inl hold => exact h.bounded w hold
      | inr hnew =>
        rw [List.mem_singleton.mp hnew]
        exact Nat.le_refl _
  · change ¬ handleAlive s = true
    rw [hdead]
    exact Bool.false_ne_true

end Threads

section Steps

variable {s : EncodeState} {alone : Prop}

/-- Away from ticks and joins only ownership is left to show. -/
theorem invariant_looping (h : Owned s)
    (hplace : s.presence = .looping ∨ s.presence = .finished) : EncodeInvariant alone s := by
  refine ⟨h, ?_, ?_, ?_, ?_, ?_⟩
  · intro hstart
    rw [hstart] at hplace
    simp at hplace
  · intro stopper hjoin
    rw [hjoin] at hplace
    simp at hplace
  · intro tick htick
    rw [htick] at hplace
    simp at hplace
  · intro tick htick
    rw [htick] at hplace
    simp at hplace
  · intro _ htick
    rw [htick] at hplace
    simp at hplace

/-- After a stop either the thread is gone, or its ticks are stale. -/
theorem invariant_afterStop (stopper : Stopper) (starts : Bool) (h : Owned s)
    (hstale : AllStale s) : EncodeInvariant alone (afterStop stopper starts s) := by
  cases stopper with
  | flipIdle => exact invariant_looping ⟨h.held, h.bounded, fun _ => hstale⟩ (.inl rfl)
  | flipNone => exact invariant_looping ⟨h.held, h.bounded, fun _ => hstale⟩ (.inl rfl)
  | shutdown => exact invariant_looping ⟨h.held, h.bounded, fun _ => hstale⟩ (.inr rfl)
  | restart =>
    unfold afterStop
    by_cases halive : handleAlive s = true
    · simp only [if_pos halive]
      exact invariant_looping ⟨h.held, h.bounded, h.stale⟩ (.inl rfl)
    · simp only [if_neg halive]
      have hstarted := owned_startEncodeWorker starts h (Bool.eq_false_iff.mpr halive)
      exact invariant_looping ⟨hstarted.held, hstarted.bounded, hstarted.stale⟩ (.inl rfl)

theorem invariant_signalStop (stopper : Stopper) (starts : Bool) (h : Owned s)
    (hstale : AllStale s) : EncodeInvariant alone (signalStop stopper starts s) := by
  unfold signalStop
  cases hfound : s.handle.bind (fun i => (s.threads[i]?).map (fun w => (i, w))) with
  | none => exact invariant_afterStop stopper starts h hstale
  | some p =>
    obtain ⟨i, w⟩ := p
    have hi : s.threads[i]? = some w := by
      obtain ⟨j, -, hj⟩ := Option.bind_eq_some_iff.mp hfound
      obtain ⟨v, hv, hpair⟩ := Option.map_eq_some_iff.mp hj
      obtain ⟨rfl, rfl⟩ := Prod.mk.inj hpair
      exact hv
    have hmoved : Moved s (setThread i { w with stop := true } s) := moved_setThread hi rfl id
    have howned := hmoved.owned h
    refine ⟨⟨howned.held, howned.bounded, howned.stale⟩, ?_, ?_, ?_, ?_, ?_⟩
    · intro hstart
      cases hstart
    · exact fun _ _ => hmoved.allStale hstale
    · intro tick htick
      cases htick
    · intro tick htick
      cases htick
    · intro _ htick
      cases htick

theorem invariant_stop (stopper : Stopper) (starts : Bool) (h : Owned s) :
    EncodeInvariant alone (stopEncodeWorker stopper starts s) := by
  obtain ⟨hnext, hstale⟩ := owned_nextEpoch h
  exact invariant_signalStop stopper starts hnext hstale

theorem invariant_maybeRestart (due starts : Bool) (h : EncodeInvariant alone s)
    (hplace : s.presence = .looping) :
    EncodeInvariant alone (maybeRestartEncodeWorker due starts s) := by
  unfold maybeRestartEncodeWorker
  by_cases hshut : s.shuttingDown = true
  · rw [if_pos hshut]
    exact h
  rw [if_neg hshut]
  have hreleased : ∀ owner, s.owner ≠ .worker → EncodeInvariant alone { s with owner := owner } :=
    fun owner hne => invariant_looping
      ⟨h.owned.held, h.owned.bounded, fun _ => h.owned.stale hne⟩ (.inl hplace)
  cases desiredEncodeOwner s.flags with
  | idle =>
    by_cases howner : s.owner = .worker
    · simp only [if_pos howner]
      exact invariant_stop _ _ h.owned
    · simp only [if_neg howner]
      exact hreleased _ howner
  | none =>
    by_cases howner : s.owner = .worker
    · simp only [if_pos howner]
      exact invariant_stop _ _ h.owned
    · simp only [if_neg howner]
      exact hreleased _ howner
  | worker =>
    have howned : Owned { s with owner := .worker } :=
      ⟨h.owned.held, h.owned.bounded, fun hne => absurd rfl hne⟩
    have hdropped := owned_dropDead howned
    have hlooping : (dropDead { s with owner := .worker }).presence = .looping := by
      rw [dropDead_presence]
      exact hplace
    simp only
    generalize dropDead { s with owner := .worker } = u at hdropped hlooping ⊢
    by_cases halive : handleAlive u = true
    · rw [if_pos halive]
      exact invariant_looping hdropped (.inl hlooping)
    rw [if_neg halive]
    cases due with
    | true => exact invariant_stop _ _ hdropped
    | false => exact invariant_looping hdropped (.inl hlooping)

theorem invariant_idleMemoryEncode (h : EncodeInvariant alone s) :
    EncodeInvariant alone (idleMemoryEncode s) := by
  have hidle : s.owner ≠ .worker →
      EncodeInvariant alone { s with owner := .idle, presence := .ticking .idle .entered } := by
    intro hne
    refine ⟨⟨h.owned.held, h.owned.bounded, fun _ => h.owned.stale hne⟩, ?_, ?_, ?_, ?_, ?_⟩
    · intro hp
      cases hp
    · intro stopper hp
      cases hp
    · intro tick hp
      cases hp
    · exact fun _ _ => h.owned.stale hne
    · intro _ hp
      cases hp
  unfold idleMemoryEncode
  simp only
  by_cases hfirst : s.owner = .none ∧ desiredEncodeOwner s.flags = .idle
  · have hne : s.owner ≠ .worker := by
      rw [hfirst.1]
      decide
    simp only [if_pos hfirst]
    rw [if_neg (by decide), if_neg (not_not_intro hfirst.2)]
    exact hidle hne
  · simp only [if_neg hfirst]
    by_cases howner : s.owner = .worker
    · rw [if_pos howner]
      exact h
    rw [if_neg howner]
    by_cases hdesired : desiredEncodeOwner s.flags ≠ .idle
    · rw [if_pos hdesired]
      exact h
    · rw [if_neg hdesired]
      exact hidle howner

theorem invariant_gapDrain (h : EncodeInvariant alone s) :
    EncodeInvariant alone (gapDrainIfNeeded s) := by
  unfold gapDrainIfNeeded
  split_ifs with howner hshut halive hactive
  · exact h
  · exact h
  · exact h
  · exact h
  · refine ⟨⟨h.owned.held, h.owned.bounded, h.owned.stale⟩, ?_, ?_, ?_, ?_, ?_⟩
    · intro hp
      cases hp
    · intro stopper hp
      cases hp
    · exact fun _ _ => Bool.eq_false_iff.mpr halive
    · intro tick hp
      cases hp
    · intro _ hp
      cases hp

/-- An encode thread gets into the last stretch only under the current epoch. -/
theorem threadMove_lastStretch {w : EncodeWorker} {found : Bool} (hstale : w.epoch < s.epoch)
    (hbefore : w.lastStretch = false) :
    ({ w with place := threadMove s w found } : EncodeWorker).lastStretch = false := by
  have hepoch : staleEpoch s (some w.epoch) = true := by
    simp only [staleEpoch, Option.any_some, decide_eq_true_eq]
    omega
  obtain ⟨epoch, stop, place⟩ := w
  simp only [threadMove]
  cases place with
  | polling => cases stop <;> rfl
  | polled => cases stop <;> rfl
  | dead => rfl
  | ticking tick =>
    cases tick with
    | entered =>
      simp only [encodePollOnce, hepoch]
      rfl
    | current =>
      simp only [encodePollOnce]
      split_ifs <;> rfl
    | caughtUp =>
      simp only [encodePollOnce, hepoch]
      rfl
    | loaded =>
      simp only [encodePollOnce, hepoch]
      rfl
    | ready => cases hbefore
    | draining => rfl

/-- A drain is entered from the last place before it alone. -/
theorem encodePollOnce_draining {epoch : Option Nat} {found : Bool} {tick : Tick}
    (h : encodePollOnce s epoch found tick = some .draining) : tick = .ready ∧ found = true := by
  cases tick with
  | ready =>
    cases found with
    | true => exact ⟨rfl, rfl⟩
    | false => cases h
  | draining => cases h
  | _ =>
    simp only [encodePollOnce] at h
    split_ifs at h
    all_goals cases h

theorem threadMove_alive {w : EncodeWorker} {found : Bool}
    (h : ({ w with place := threadMove s w found } : EncodeWorker).isAlive = true) :
    w.isAlive = true := by
  obtain ⟨epoch, stop, place⟩ := w
  cases place with
  | dead => cases h
  | _ => rfl

/-- A move of one thread keeps the invariant when no thread enters the last stretch with it. -/
theorem invariant_moved {i : Nat} {v w : EncodeWorker} (h : EncodeInvariant alone s)
    (hi : s.threads[i]? = some v) (hepoch : w.epoch = v.epoch)
    (halive : w.isAlive = true → v.isAlive = true)
    (hlast : v.lastStretch = false → AllStale s → w.lastStretch = false) :
    EncodeInvariant alone (setThread i w s) := by
  have hmoved := moved_setThread hi hepoch halive
  refine ⟨hmoved.owned h.owned, ?_, ?_, ?_, ?_, ?_⟩
  · exact fun hp => hmoved.stillDead (h.starting hp)
  · exact fun stopper hp => hmoved.allStale (h.joining stopper hp)
  · exact fun tick hp => hmoved.stillDead (h.gap tick hp)
  · exact fun tick hp => hmoved.allStale (h.idle tick hp)
  · intro halone hp u hu
    cases List.mem_or_eq_of_mem_set hu with
    | inl hold => exact h.draining halone hp u hold
    | inr hnew =>
      rw [hnew]
      exact hlast (h.draining halone hp v (List.mem_of_getElem? hi)) (h.idle _ hp)

/-- The presence thread does not begin an idle drain while an encode thread is past its last
look at the epoch. -/
def idleAlone (s : EncodeState) : EncodeEvent → Bool
  | .presenceTick true =>
    match s.presence with
    | .ticking .idle .ready => s.threads.all (fun w => !w.lastStretch)
    | _ => true
  | _ => true

theorem invariant_presenceTick (found : Bool) (h : EncodeInvariant alone s)
    (hidle : alone → idleAlone s (.presenceTick found) = true) :
    EncodeInvariant alone (stepEncodeState s (.presenceTick found)) := by
  cases hplace : s.presence with
  | starting =>
    simp only [stepEncodeState, hplace]
    exact h
  | looping =>
    simp only [stepEncodeState, hplace]
    exact h
  | joining stopper =>
    simp only [stepEncodeState, hplace]
    exact h
  | finished =>
    simp only [stepEncodeState, hplace]
    exact h
  | ticking caller tick =>
    simp only [stepEncodeState, hplace]
    cases hnext : encodePollOnce s none found tick with
    | none =>
      cases caller with
      | idle => exact invariant_looping ⟨h.owned.held, h.owned.bounded, h.owned.stale⟩ (.inl rfl)
      | gap => exact invariant_looping ⟨h.owned.held, h.owned.bounded, h.owned.stale⟩ (.inl rfl)
    | some next =>
      refine ⟨⟨h.owned.held, h.owned.bounded, h.owned.stale⟩, ?_, ?_, ?_, ?_, ?_⟩
      · intro hp
        cases hp
      · intro stopper hp
        cases hp
      · intro t hp
        obtain ⟨rfl, rfl⟩ := PresencePlace.ticking.inj hp
        exact h.gap tick hplace
      · intro t hp
        obtain ⟨rfl, rfl⟩ := PresencePlace.ticking.inj hp
        exact h.idle tick hplace
      · intro halone hp
        obtain ⟨rfl, rfl⟩ := PresencePlace.ticking.inj hp
        obtain ⟨rfl, rfl⟩ := encodePollOnce_draining hnext
        have hall := hidle halone
        simp only [idleAlone, hplace] at hall
        intro w hw
        simpa using List.all_eq_true.mp hall w hw

theorem invariant_step (e : EncodeEvent) (h : EncodeInvariant alone s)
    (hidle : alone → idleAlone s e = true) :
    EncodeInvariant alone (stepEncodeState s e) := by
  cases e with
  | setFlags flags =>
    exact ⟨⟨h.owned.held, h.owned.bounded, h.owned.stale⟩, h.starting, h.joining, h.gap, h.idle,
      h.draining⟩
  | start starts =>
    cases hplace : s.presence with
    | starting =>
      simp only [stepEncodeState, hplace]
      have hstarted := owned_startEncodeWorker starts h.owned (h.starting hplace)
      exact invariant_looping ⟨hstarted.held, hstarted.bounded, hstarted.stale⟩ (.inl rfl)
    | _ =>
      simp only [stepEncodeState, hplace]
      exact h
  | maybeRestart due starts =>
    cases hplace : s.presence with
    | looping =>
      simp only [stepEncodeState, hplace]
      exact invariant_maybeRestart due starts h hplace
    | _ =>
      simp only [stepEncodeState, hplace]
      exact h
  | joined starts =>
    cases hplace : s.presence with
    | joining stopper =>
      simp only [stepEncodeState, hplace]
      exact invariant_afterStop stopper starts (owned_dropDead h.owned)
        (allStale_dropDead (h.joining stopper hplace))
    | _ =>
      simp only [stepEncodeState, hplace]
      exact h
  | idleMemoryEncode =>
    cases hplace : s.presence with
    | looping =>
      simp only [stepEncodeState, hplace]
      exact invariant_idleMemoryEncode h
    | _ =>
      simp only [stepEncodeState, hplace]
      exact h
  | gapDrainIfNeeded =>
    cases hplace : s.presence with
    | looping =>
      simp only [stepEncodeState, hplace]
      exact invariant_gapDrain h
    | _ =>
      simp only [stepEncodeState, hplace]
      exact h
  | presenceTick found => exact invariant_presenceTick found h hidle
  | shutdown =>
    have hstop : EncodeInvariant alone (shutdownEncode s) :=
      invariant_stop .shutdown false ⟨h.owned.held, h.owned.bounded, h.owned.stale⟩
    cases hplace : s.presence with
    | starting =>
      simp only [stepEncodeState, hplace]
      exact hstop
    | looping =>
      simp only [stepEncodeState, hplace]
      exact hstop
    | _ =>
      simp only [stepEncodeState, hplace]
      exact h
  | threadStep i found =>
    simp only [stepEncodeState]
    cases hi : s.threads[i]? with
    | none => exact h
    | some v =>
      refine invariant_moved (w := { v with place := threadMove s v found }) h hi rfl
        threadMove_alive ?_
      intro hbefore hstale
      by_cases halive : v.isAlive = true
      · exact threadMove_lastStretch (hstale v (List.mem_of_getElem? hi) halive) hbefore
      · have hdead : v.place = .dead := by simpa [EncodeWorker.isAlive] using halive
        simp only [threadMove, hdead]
        rfl
  | threadDies i =>
    simp only [stepEncodeState]
    cases hi : s.threads[i]? with
    | none => exact h
    | some v =>
      apply invariant_moved (w := { v with place := .dead }) h hi rfl
      · intro halive
        cases halive
      · exact fun _ _ => rfl

/-- In a list where two members at most agree, one is counted. -/
theorem countP_le_one {α : Type} {p : α → Bool} {l : List α}
    (h : ∀ (i j : Nat) (a b : α), l[i]? = some a → l[j]? = some b → p a = true → p b = true →
      i = j) : l.countP p ≤ 1 := by
  induction l with
  | nil => exact Nat.zero_le _
  | cons a l ih =>
    rw [List.countP_cons]
    by_cases ha : p a = true
    · have hrest : l.countP p = 0 := by
        rw [List.countP_eq_zero]
        intro b hb hpb
        obtain ⟨j, hj⟩ := List.mem_iff_getElem?.mp hb
        have hzero := h 0 (j + 1) a b rfl hj ha hpb
        omega
      rw [if_pos ha]
      omega
    · rw [if_neg ha, Nat.add_zero]
      apply ih
      intro i j b c hi hj hb hc
      have hsucc := h (i + 1) (j + 1) b c hi hj hb hc
      omega

/-- At most one encode thread is alive. -/
theorem liveWorkers_le (h : Owned s) : liveWorkers s ≤ 1 := by
  apply countP_le_one
  intro i j v w hi hj hv hw
  have hfirst := h.held i v hi hv
  rw [h.held j w hj hw] at hfirst
  exact (Option.some.inj hfirst).symm

/-- At most one thread is inside the drain. -/
theorem drainers_le (h : EncodeInvariant True s) : drainers s ≤ 1 := by
  have hthreads : s.threads.countP (fun w => w.place = .ticking .draining) ≤ liveWorkers s := by
    apply List.countP_mono_left
    intro w _ hw
    have hplace : w.place = .ticking .draining := by simpa using hw
    simp only [EncodeWorker.isAlive, hplace]
    rfl
  have hone := liveWorkers_le h.owned
  unfold drainers
  split
  · rename_i caller hplace
    have hnone : s.threads.countP (fun w => w.place = .ticking .draining) = 0 := by
      rw [List.countP_eq_zero]
      intro w hw hdrains
      have hin : w.place = .ticking .draining := by simpa using hdrains
      cases caller with
      | idle =>
        have hlast := h.draining trivial hplace w hw
        rw [EncodeWorker.lastStretch, hin] at hlast
        cases hlast
      | gap =>
        have hdead := h.owned.noneAlive (h.gap _ hplace) w hw
        rw [EncodeWorker.isAlive, hin] at hdead
        cases hdead
    omega
  · omega

end Steps

theorem encodeInvariant_start (alone : Prop) (flags : EncodeFlags) :
    EncodeInvariant alone (EncodeState.start flags) := by
  refine ⟨⟨?_, ?_, ?_⟩, fun _ => rfl, ?_, ?_, ?_, ?_⟩
  · intro i w hi
    cases hi
  · intro w hw
    cases hw
  · intro _ w hw
    cases hw
  · intro stopper hp
    cases hp
  · intro tick hp
    cases hp
  · intro tick hp
    cases hp
  · intro _ hp
    cases hp

/-- At most one encode thread is alive in every run, and at most one thread is inside the drain
in every run whose idle drains begin alone. -/
theorem single_drainer (flags : EncodeFlags) (events : List EncodeEvent) :
    liveWorkers (run stepEncodeState (EncodeState.start flags) events) ≤ 1 ∧
    (Along stepEncodeState (fun s e => idleAlone s e = true) (EncodeState.start flags) events →
      drainers (run stepEncodeState (EncodeState.start flags) events) ≤ 1) := by
  constructor
  · have hinv : EncodeInvariant False (run stepEncodeState (EncodeState.start flags) events) := by
      apply run_invariant (EncodeInvariant False)
      · exact fun s e h => invariant_step e h False.elim
      · exact encodeInvariant_start False flags
    exact liveWorkers_le hinv.owned
  · intro halone
    apply drainers_le
    apply halone.invariant (EncodeInvariant True)
    · exact fun s e hidle h => invariant_step e h (fun _ => hidle)
    · exact encodeInvariant_start True flags

/-- A worker is inside its drain when the continuous mode is switched off, and the join of its
stop times out. -/
def switchedOff : List EncodeEvent :=
  [.start true, .threadStep 0 true, .threadStep 0 true, .threadStep 0 true, .threadStep 0 true,
    .threadStep 0 true, .threadStep 0 true, .setFlags ⟨true, true, false⟩,
    .maybeRestart true true, .joined true]

/-- The idle path drains too. -/
def idleDrain : List EncodeEvent :=
  [.idleMemoryEncode, .presenceTick true, .presenceTick true, .presenceTick true,
    .presenceTick true, .presenceTick true]

/-- Nothing keeps the idle path from draining beside the thread that outlived its stop. -/
theorem zombie_and_idle_drain :
    drainers (run stepEncodeState (EncodeState.start ⟨true, true, true⟩)
      (switchedOff ++ idleDrain)) = 2 := by
  decide

theorem single_drainer_sample :
    liveWorkers (run stepEncodeState (EncodeState.start ⟨true, true, true⟩) switchedOff) ≤ 1 ∧
    drainers (run stepEncodeState (EncodeState.start ⟨true, true, true⟩) switchedOff) ≤ 1 :=
  ⟨(single_drainer ⟨true, true, true⟩ switchedOff).1,
    (single_drainer ⟨true, true, true⟩ switchedOff).2 (by decide)⟩

end Elyra.Memory
