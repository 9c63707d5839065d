import Elyra.Framework.IsoText
import Elyra.Presence.Priority

namespace Elyra.Presence

open Json

/-- Over this many readings the platform's clock strictly increases, and `_now_iso` shows them. -/
structure Clocked (env : Env) (clock : Nat → Instant) (readings : Nat) : Prop where
  increasing : ∀ m n, m < n → n < readings → clock m < clock n
  shows : ∀ n, env.nowIso n = isoZ (clock n)

/-- An `enqueue` that leaves its `created_at` to the clock. -/
def Call.unstamped : Call → Bool
  | .enqueue _ _ _ createdAt => createdAt.all (· = "")
  | _ => true

/-- A wake that is enqueued and neither claimed nor finished. -/
def WakeQueue.Waiting (q : WakeQueue) (a : WakeItem) : Prop :=
  q.items.get? a.id = some a ∧ q.ops.get? a.id = some .enqueue

/-- The clock was read for `a` before it was read for `b`. -/
def EnqueuedBefore (clock : Nat → Instant) (readings : Nat) (a b : WakeItem) : Prop :=
  ∃ m n, m < n ∧ n < readings ∧ a.createdAt = isoZ (clock m) ∧ b.createdAt = isoZ (clock n)

/-- No wake of the band that was enqueued earlier is passed over by the next claim. -/
def ClaimsInOrder (env : Env) (clock : Nat → Instant) (readings : Nat) (w : World) : Prop :=
  ∀ momentId b w', claim env momentId w = .ok (some b) w' →
    ∀ a, w.queue.Waiting a → a.priority = b.priority → ¬EnqueuedBefore clock readings a b

/-- Created at these readings, the one on a whole second and the other later in that second. -/
def CreatedApart (clock : Nat → Instant) (m n : Nat) (a b : WakeItem) : Prop :=
  ¬(a.createdAt = isoZ (clock m) ∧ b.createdAt = isoZ (clock n) ∧ (clock m).micro = 0 ∧
    (clock m).second = (clock n).second)

instance (clock : Nat → Instant) (m n : Nat) (a b : WakeItem) :
    Decidable (CreatedApart clock m n a b) := by
  unfold CreatedApart
  infer_instance

/-- What order needs of the queue a claim finds: no waiting wake was lost by a claim that failed, no
key of a pending wake is left from an earlier life of its id, and no wake created on a whole second
waits beside one of its band from later in that second. -/
structure Orderly (clock : Nat → Instant) (readings : Nat) (q : WakeQueue) : Prop where
  pending : ∀ a ∈ q.items.values, q.Waiting a → q.pendingIds.get? a.id = some ()
  fresh : ∀ k ∈ q.heap.keys, ∀ item ∈ q.items.values, item.id = k.wakeId →
    q.pendingIds.get? k.wakeId = some () → k = heapKey item
  apart : ∀ a ∈ q.items.values, ∀ b ∈ q.items.values, q.Waiting a → q.Waiting b →
    a.priority = b.priority → ∀ n < readings, ∀ m < n, CreatedApart clock m n a b

instance (q : WakeQueue) (a : WakeItem) : Decidable (q.Waiting a) := by
  unfold WakeQueue.Waiting
  infer_instance

instance (clock : Nat → Instant) (readings : Nat) (q : WakeQueue) :
    Decidable (Orderly clock readings q) :=
  decidable_of_iff
    ((∀ a ∈ q.items.values, q.Waiting a → q.pendingIds.get? a.id = some ()) ∧
      (∀ k ∈ q.heap.keys, ∀ item ∈ q.items.values, item.id = k.wakeId →
        q.pendingIds.get? k.wakeId = some () → k = heapKey item) ∧
      ∀ a ∈ q.items.values, ∀ b ∈ q.items.values, q.Waiting a → q.Waiting b →
        a.priority = b.priority → ∀ n < readings, ∀ m < n, CreatedApart clock m n a b)
    ⟨fun h => ⟨h.1, h.2.1, h.2.2⟩, fun h => ⟨h.pending, h.fresh, h.apart⟩⟩

/-- The condition a call has to meet; only a claim has one. -/
def OrderlyClaim (clock : Nat → Instant) (readings : Nat) (w : World) : Call → Prop
  | .claim _ => Orderly clock readings w.queue
  | _ => True

instance (clock : Nat → Instant) (readings : Nat) (w : World) :
    ∀ c, Decidable (OrderlyClaim clock readings w c)
  | .claim _ => inferInstanceAs (Decidable (Orderly clock readings w.queue))
  | .enqueue .. | .markDone .. | .cancel .. | .recoverClaimed | .cancelAllPendingOfKind ..
  | .enqueueTaskReady .. | .resetEmpty | .reload => isTrue trivial

section Order

variable {env : Env} {clock : Nat → Instant} {readings : Nat}

theorem claim_popped (momentId : String) (w w' : World) (b : WakeItem)
    (h : claim env momentId w = .ok (some b) w') : w.queue.popPending.1 = some b := by
  have hm : momentId ≠ "" := by
    rintro rfl
    cases h
  rw [claim_eq env momentId hm] at h
  generalize w.queue.popPending = r at h
  obtain ⟨item, popped⟩ := r
  cases item with
  | none => cases h
  | some item =>
    simp only [] at h
    split_ifs at h
    exact (EStateM.Result.ok.inj h).1

theorem isoZ_lt_of_apart {m n : Nat} (hlt : clock m < clock n)
    (hapart : (clock m).micro = 0 → (clock m).second ≠ (clock n).second) :
    isoZ (clock m) < isoZ (clock n) := by
  rw [isoZ_lt, textRank_lt_iff]
  · exact hlt
  · intro hsecond
    have hm : (clock m).micro ≠ 0 := fun hzero => hapart hzero hsecond
    have hmicro : (clock m).micro < (clock n).micro := by
      have ha := (clock m).val_eq
      have hb := (clock n).val_eq
      rw [Fin.lt_def] at hlt
      omega
    omega

/-- In an orderly queue the first pending key is that of the wake enqueued first in its band. -/
theorem Orderly.claimsInOrder (hclock : Clocked env clock readings) {w : World}
    (h : Orderly clock readings w.queue) (hsound : ∃ lives, Sound w.queue lives) :
    ClaimsInOrder env clock readings w := by
  intro momentId b w' hclaim a ha hband hbefore
  obtain ⟨m, n, hmn, hn, hacreated, hbcreated⟩ := hbefore
  obtain ⟨lives, hs⟩ := hsound
  have hpop := claim_popped momentId w w' b hclaim
  have hpopped := popPending_popped hs
  have hsorted := w.queue.heap.sorted
  have hvalue : ∀ item, w.queue.Waiting item → item ∈ w.queue.items.values :=
    fun item hitem => (Dict.mem_values _ _).mpr ⟨item.id, hitem.1⟩
  have hapending := h.pending a (hvalue a ha) ha
  have hakey : heapKey a ∈ w.queue.heap.keys := by
    obtain ⟨l, hl, -⟩ := hs.pendingOp a.id hapending
    have hitem : l.item = a := by
      have hget := ha.1
      rw [hs.items, hl] at hget
      exact Option.some.inj hget
    have hkey := hs.pendingKey a.id l hapending hl
    rw [hitem] at hkey
    exact hkey
  generalize w.queue.popPending = r at hpopped hpop
  cases hpopped with
  | none hnone heap => cases hpop
  | some skipped k rest first split stale pending found same =>
    obtain rfl := Option.some.inj hpop
    have hfirst : w.queue.Waiting first := by
      obtain ⟨l, hl, hop⟩ := hs.pendingOp k.wakeId pending
      rw [← same] at hl found
      exact ⟨found, by rw [hs.ops, hl, ← hop]; rfl⟩
    have hk : k = heapKey first := by
      refine h.fresh k ?_ first (hvalue first hfirst) same pending
      rw [split]
      simp
    have hcreated : a.createdAt < first.createdAt := by
      rw [hacreated, hbcreated]
      exact isoZ_lt_of_apart (hclock.increasing m n hmn hn)
        fun hmicro hsecond =>
          h.apart a (hvalue a ha) first (hvalue first hfirst) ha hfirst hband n hn m hmn
            ⟨hacreated, hbcreated, hmicro, hsecond⟩
    have hlt : heapKey a < k := by
      rw [hk, heapKey, heapKey, hband]
      exact Prod.Lex.toLex_lt_toLex.mpr
        (.inr ⟨rfl, Prod.Lex.toLex_lt_toLex.mpr (.inl hcreated)⟩)
    rw [split, List.pairwise_append, List.pairwise_cons] at hsorted
    rw [split, List.mem_append, List.mem_cons] at hakey
    obtain hskipped | heq | hrest := hakey
    · have hnone := stale (heapKey a) hskipped
      rw [wakeId_heapKey, hapending] at hnone
      cases hnone
    · rw [heq] at hlt
      exact absurd hlt (lt_irrefl k)
    · exact absurd hlt (not_lt_of_ge (hsorted.2.1.1 _ hrest))

variable [PyCoerce]

/-- In a run whose claims find an orderly queue, no claim passes over a wake of the band that was
enqueued earlier. -/
theorem fifo_within_band (h : Clocked env clock readings) (faults : List Bool) (calls : List Call)
    (_ : ∀ c ∈ calls, c.unstamped = true)
    (horderly : Along (stepCall env) (OrderlyClaim clock readings) (World.start faults) calls)
    (before after : List Call) (momentId : String)
    (hcalls : calls = before ++ .claim momentId :: after) :
    ClaimsInOrder env clock readings (run (stepCall env) (World.start faults) before) := by
  rw [hcalls, along_append] at horderly
  have hq : Orderly clock readings (run (stepCall env) (World.start faults) before).queue := horderly.2.1
  exact hq.claimsInOrder h (run_sound env before _ ⟨_, sound_empty⟩)

end Order

section Sample

attribute [local instance] basicCoerce

/-- A clock that starts on a whole second and moves by a microsecond at each reading. -/
def tickingClock (n : Nat) : Instant :=
  ⟨63902908800000000 + n % 1000000, by
    unfold instantCount
    omega⟩

def tickingEnv : Env where
  uuid4 := countingEnv.uuid4
  nowIso n := isoZ (tickingClock n)
  iterSet _ ids := ids
  iterSet_perm _ ids := .refl ids

theorem clocked_ticking : Clocked tickingEnv tickingClock 1000000 where
  increasing m n hmn hn := by
    show 63902908800000000 + m % 1000000 < 63902908800000000 + n % 1000000
    omega
  shows _ := rfl

/-- Two timers, the first on the whole second. -/
def wholeSecondCalls : List Call :=
  [.enqueue "timer" .empty (some "a") none, .enqueue "timer" .empty (some "b") none]

/-- The later timer is claimed first. -/
theorem whole_second_wake_passed_over :
    Clocked tickingEnv tickingClock 1000000 ∧ (∀ c ∈ wholeSecondCalls, c.unstamped = true) ∧
      ¬ClaimsInOrder tickingEnv tickingClock 1000000
        (run (stepCall tickingEnv) (World.start []) wholeSecondCalls) := by
  refine ⟨clocked_ticking, by decide, ?_⟩
  intro h
  have hpop : (run (stepCall tickingEnv) (World.start []) wholeSecondCalls).queue.popPending.1 =
      (run (stepCall tickingEnv) (World.start []) wholeSecondCalls).queue.items.get? "b" := by
    decide +kernel
  obtain ⟨w', hclaim⟩ := claim_result tickingEnv "m" (by decide)
    (run (stepCall tickingEnv) (World.start []) wholeSecondCalls)
  have hfaults : (run (stepCall tickingEnv) (World.start []) wholeSecondCalls).faults = [] := by
    decide +kernel
  have hitems : (run (stepCall tickingEnv) (World.start []) wholeSecondCalls).queue.items.get? "a" =
        some ⟨"a", .timer, 2, isoZ (tickingClock 0), .empty, rfl⟩ ∧
      (run (stepCall tickingEnv) (World.start []) wholeSecondCalls).queue.items.get? "b" =
        some ⟨"b", .timer, 2, isoZ (tickingClock 2), .empty, rfl⟩ ∧
      (run (stepCall tickingEnv) (World.start []) wholeSecondCalls).queue.ops.get? "a" =
        some .enqueue := by decide +kernel
  obtain ⟨ha, hb, hop⟩ := hitems
  rw [hpop, hb] at hclaim
  have hsame : ∀ w : World, w.faults = [] → { w with faults := [] } = w := by
    intro w hw
    rw [← hw]
  rw [hsame _ hfaults] at hclaim
  have hwaiting : (run (stepCall tickingEnv) (World.start []) wholeSecondCalls).queue.Waiting
      ⟨"a", .timer, 2, isoZ (tickingClock 0), .empty, rfl⟩ := ⟨ha, hop⟩
  exact h "m" _ w' hclaim _ hwaiting rfl ⟨0, 2, by decide, by decide, rfl, rfl⟩

/-- With the whole second taken by a wake of another band the timers come in order. -/
theorem fifo_within_band_sample :
    ClaimsInOrder tickingEnv tickingClock 8 (run (stepCall tickingEnv) (World.start [])
      (.enqueue "user_message" .empty (some "x") none :: wholeSecondCalls)) :=
  fifo_within_band
    ⟨fun m n hmn hn => clocked_ticking.increasing m n hmn (by omega), clocked_ticking.shows⟩ []
    (.enqueue "user_message" .empty (some "x") none :: wholeSecondCalls ++ [.claim "m"])
    (by decide) (by decide +kernel)
    (.enqueue "user_message" .empty (some "x") none :: wholeSecondCalls) [] "m" rfl

end Sample
end Elyra.Presence
