import Elyra.Framework.Run
import Mathlib.Data.Finset.Card
import Mathlib.Data.Set.Card
import Mathlib.Logic.Function.Basic

namespace Elyra.Memory

inductive GateKind where
  | bulk | lookup
  deriving DecidableEq

structure EmbedderGate where
  holder : Option GateKind
  lookupWaiters : Nat
  gateLookupWaits : Nat
  gateBulkYields : Nat

/-- Where a thread stands: in `acquire` it waits on the condition, or it was notified or timed out
and has yet to take the lock again. -/
inductive Phase where
  | outside
  | waiting (kind : GateKind) (timed : Bool)
  | woken (kind : GateKind) (timed : Bool)
  | holding (kind : GateKind)
  deriving DecidableEq

namespace EmbedderGate

def new : EmbedderGate := ⟨none, 0, 0, 0⟩

def arrive (g : EmbedderGate) : GateKind → EmbedderGate
  | .lookup => { g with lookupWaiters := g.lookupWaiters + 1,
                        gateLookupWaits := g.gateLookupWaits + 1 }
  | .bulk => g

/-- The `finally` block of `acquire`. -/
def depart (g : EmbedderGate) : GateKind → EmbedderGate
  | .lookup => { g with lookupWaiters := g.lookupWaiters - 1 }
  | .bulk => g

def grants (g : EmbedderGate) : GateKind → Prop
  | .lookup => g.holder = none
  | .bulk => g.holder = none ∧ g.lookupWaiters = 0

instance (g : EmbedderGate) (k : GateKind) : Decidable (g.grants k) :=
  match k with
  | .lookup => inferInstanceAs (Decidable (_ = _))
  | .bulk => inferInstanceAs (Decidable (_ ∧ _))

def yieldBulk (g : EmbedderGate) : GateKind → EmbedderGate
  | .bulk => { g with gateBulkYields := g.gateBulkYields + 1 }
  | .lookup => g

/-- One pass of the loop of `acquire` under the lock, up to its return or its wait. -/
def attempt (g : EmbedderGate) (k : GateKind) (timed expired : Bool) : EmbedderGate × Phase :=
  if g.grants k then (({ g with holder := some k } : EmbedderGate).depart k, .holding k)
  else if timed && expired then ((g.yieldBulk k).depart k, .outside)
  else (g, .waiting k timed)

def release (g : EmbedderGate) : EmbedderGate := { g with holder := none }

end EmbedderGate

section Threads

variable {τ : Type*} [DecidableEq τ]

structure GateState (τ : Type*) where
  gate : EmbedderGate
  phase : τ → Phase

def GateState.start : GateState τ := ⟨.new, fun _ => .outside⟩

/-- What one thread does under the lock in one go. A deadline may have passed at any pass, and
the callers release only what they were granted. -/
inductive GateAction (τ : Type*) where
  | acquire (t : τ) (kind : GateKind) (timed expired : Bool)
  | timeout (t : τ)
  | recheck (t : τ) (expired : Bool)
  | release (t : τ)

def Phase.notified : Phase → Phase
  | .waiting k timed => .woken k timed
  | p => p

namespace GateState

def put (s : GateState τ) (t : τ) (r : EmbedderGate × Phase) : GateState τ :=
  ⟨r.1, Function.update s.phase t r.2⟩

end GateState

def stepGate (s : GateState τ) : GateAction τ → GateState τ
  | .acquire t k timed expired =>
    match s.phase t with
    | .outside => s.put t ((s.gate.arrive k).attempt k timed expired)
    | _ => s
  | .timeout t =>
    match s.phase t with
    | .waiting k true => s.put t (s.gate, .woken k true)
    | _ => s
  | .recheck t expired =>
    match s.phase t with
    | .woken k timed => s.put t (s.gate.attempt k timed expired)
    | _ => s
  | .release t =>
    match s.phase t with
    | .holding _ => ⟨s.gate.release, Function.update (fun u => (s.phase u).notified) t .outside⟩
    | _ => s

/-- A lookup acquire that has not returned. -/
def Phase.isLookup : Phase → Bool
  | .waiting .lookup _ | .woken .lookup _ => true
  | _ => false

structure GateInv (s : GateState τ) : Prop where
  holder : ∀ t k, s.phase t = .holding k → s.gate.holder = some k
  exclusive : ∀ t u j k, s.phase t = .holding j → s.phase u = .holding k → t = u
  held : ∀ k, s.gate.holder = some k → ∃ t, s.phase t = .holding k
  waiters : ∃ lookups : Finset τ, (∀ t, t ∈ lookups ↔ (s.phase t).isLookup = true) ∧
    lookups.card = s.gate.lookupWaiters
  awake : s.gate.holder = none → ∀ t k timed, s.phase t = .waiting k timed →
    k = .bulk ∧ ∃ u b, s.phase u = .woken .lookup b

omit [DecidableEq τ] in
theorem gateInv_start : GateInv (GateState.start (τ := τ)) := by
  refine ⟨?_, ?_, ?_, ⟨∅, ?_, rfl⟩, ?_⟩
  · intro t k h
    cases h
  · intro t u j k h
    cases h
  · intro k h
    cases h
  · intro t
    simp [GateState.start, Phase.isLookup]
  · intro _ t k timed h
    cases h

theorem put_phase (s : GateState τ) (t u : τ) (r : EmbedderGate × Phase) :
    (s.put t r).phase u = if t = u then r.2 else s.phase u := by
  unfold GateState.put
  by_cases h : t = u
  · subst h
    simp
  · rw [if_neg h]
    exact Function.update_of_ne (Ne.symm h) _ _

/-- A thread that enters `acquire` counts as woken until its first pass. -/
theorem gateInv_arrive {s : GateState τ} (h : GateInv s) (t : τ) (k : GateKind) (timed : Bool)
    (hout : s.phase t = .outside) : GateInv (s.put t (s.gate.arrive k, .woken k timed)) := by
  have hholder : (s.gate.arrive k).holder = s.gate.holder := by
    cases k <;> rfl
  have hold (u : τ) (p : Phase) (hp : ∀ j b, p ≠ .woken j b)
      (hu : (s.put t (s.gate.arrive k, .woken k timed)).phase u = p) : s.phase u = p := by
    rw [put_phase] at hu
    split_ifs at hu with htu
    · exact absurd hu.symm (hp k timed)
    · exact hu
  refine ⟨?_, ?_, ?_, ?_, ?_⟩
  · intro u j hu
    have hj := h.holder u j (hold u _ (by simp) hu)
    exact hholder.trans hj
  · intro u v i j hu hv
    exact h.exclusive u v i j (hold u _ (by simp) hu) (hold v _ (by simp) hv)
  · intro j hj
    obtain ⟨u, hu⟩ := h.held j (hholder.symm.trans hj)
    refine ⟨u, ?_⟩
    rw [put_phase, if_neg, hu]
    intro htu
    rw [← htu, hout] at hu
    cases hu
  · obtain ⟨lookups, hmem, hcard⟩ := h.waiters
    have hnot : t ∉ lookups := by
      rw [hmem, hout]
      simp [Phase.isLookup]
    cases k with
    | lookup =>
      refine ⟨insert t lookups, ?_, ?_⟩
      · intro u
        rw [put_phase, Finset.mem_insert, hmem]
        by_cases htu : t = u
        · simp [htu, Phase.isLookup]
        · simp [htu, Ne.symm htu]
      · rw [Finset.card_insert_of_notMem hnot, hcard]
        rfl
    | bulk =>
      refine ⟨lookups, ?_, hcard⟩
      intro u
      rw [put_phase, hmem]
      by_cases htu : t = u
      · subst htu
        simp [hout, Phase.isLookup]
      · simp [htu]
  · intro hfree u j b hu
    obtain ⟨hbulk, v, c, hv⟩ := h.awake (hholder.symm.trans hfree) u j b (hold u _ (by simp) hu)
    refine ⟨hbulk, v, c, ?_⟩
    rw [put_phase, if_neg, hv]
    intro htv
    rw [← htv, hout] at hv
    cases hv

/-- One pass of a woken acquire. -/
theorem gateInv_attempt {s : GateState τ} (h : GateInv s) (t : τ) (k : GateKind)
    (timed expired : Bool) (hwoken : s.phase t = .woken k timed) :
    GateInv (s.put t (s.gate.attempt k timed expired)) := by
  obtain ⟨lookups, hmem, hcard⟩ := h.waiters
  -- the thread leaves the waiters when it returns
  have hleave (g : EmbedderGate) (p : Phase) (hg : g.lookupWaiters = s.gate.lookupWaiters)
      (hp : p.isLookup = false) : ∃ lookups : Finset τ,
      (∀ u, u ∈ lookups ↔ ((s.put t (g.depart k, p)).phase u).isLookup = true) ∧
      lookups.card = (g.depart k).lookupWaiters := by
    refine ⟨lookups.erase t, ?_, ?_⟩
    · intro u
      rw [put_phase, Finset.mem_erase, hmem]
      by_cases htu : t = u
      · simp [htu, hp]
      · simp [htu, Ne.symm htu]
    · cases k with
      | lookup =>
        have hin : t ∈ lookups := by
          rw [hmem, hwoken]
          rfl
        rw [Finset.card_erase_of_mem hin, hcard, ← hg]
        rfl
      | bulk =>
        have hnot : t ∉ lookups := by
          rw [hmem, hwoken]
          simp [Phase.isLookup]
        rw [Finset.erase_eq_of_notMem hnot, hcard, ← hg]
        rfl
  have hother (r : EmbedderGate × Phase) (u : τ) (hu : s.phase u ≠ .woken k timed) :
      (s.put t r).phase u = s.phase u := by
    rw [put_phase, if_neg]
    intro htu
    rw [← htu] at hu
    exact hu hwoken
  unfold EmbedderGate.attempt
  split_ifs with hgrant hexpired
  · have hfree : s.gate.holder = none := by
      cases k with
      | lookup => exact hgrant
      | bulk => exact hgrant.1
    have hnone (u : τ) (j : GateKind) : s.phase u ≠ .holding j := by
      intro hu
      have hj := h.holder u j hu
      rw [hfree] at hj
      cases hj
    have hheld : (({ s.gate with holder := some k } : EmbedderGate).depart k).holder = some k := by
      cases k <;> rfl
    have hself (u : τ) (j : GateKind) (hu : (s.put t
        (({ s.gate with holder := some k } : EmbedderGate).depart k, .holding k)).phase u =
        .holding j) : t = u ∧ j = k := by
      rw [put_phase] at hu
      split_ifs at hu with htu
      · cases hu
        exact ⟨htu, rfl⟩
      · exact absurd hu (hnone u j)
    refine ⟨?_, ?_, ?_, hleave { s.gate with holder := some k } _ rfl rfl, ?_⟩
    · intro u j hu
      rw [(hself u j hu).2]
      exact hheld
    · intro u v i j hu hv
      exact (hself u i hu).1.symm.trans (hself v j hv).1
    · intro j hj
      have hkj : some k = some j := hheld.symm.trans hj
      cases hkj
      refine ⟨t, ?_⟩
      rw [put_phase, if_pos rfl]
    · intro hf
      have hno : some k = none := hheld.symm.trans hf
      cases hno
  · have hholder : ((s.gate.yieldBulk k).depart k).holder = s.gate.holder := by
      cases k <;> rfl
    have hsame (u : τ) (p : Phase) (hp : p ≠ .outside)
        (hu : (s.put t ((s.gate.yieldBulk k).depart k, .outside)).phase u = p) :
        s.phase u = p := by
      rw [put_phase] at hu
      split_ifs at hu
      · exact absurd hu.symm hp
      · exact hu
    refine ⟨?_, ?_, ?_, hleave (s.gate.yieldBulk k) .outside (by cases k <;> rfl) rfl, ?_⟩
    · intro u j hu
      exact hholder.trans (h.holder u j (hsame u _ (by simp) hu))
    · intro u v i j hu hv
      exact h.exclusive u v i j (hsame u _ (by simp) hu) (hsame v _ (by simp) hv)
    · intro j hj
      obtain ⟨u, hu⟩ := h.held j (hholder.symm.trans hj)
      refine ⟨u, ?_⟩
      rw [hother _ u (by simp [hu]), hu]
    · intro hf u j b hu
      have hfree : s.gate.holder = none := hholder.symm.trans hf
      obtain ⟨hbulk, v, c, hv⟩ := h.awake hfree u j b (hsame u _ (by simp) hu)
      refine ⟨hbulk, v, c, ?_⟩
      rw [hother _ v, hv]
      -- a lookup that finds the gate free does not time out
      cases k with
      | lookup => exact absurd hfree hgrant
      | bulk => simp [hv]
  · have hsame (u : τ) (p : Phase) (hp : p ≠ .waiting k timed)
        (hu : (s.put t (s.gate, .waiting k timed)).phase u = p) : s.phase u = p := by
      rw [put_phase] at hu
      split_ifs at hu
      · exact absurd hu.symm hp
      · exact hu
    refine ⟨?_, ?_, ?_, ⟨lookups, ?_, hcard⟩, ?_⟩
    · intro u j hu
      exact h.holder u j (hsame u _ (by simp) hu)
    · intro u v i j hu hv
      exact h.exclusive u v i j (hsame u _ (by simp) hu) (hsame v _ (by simp) hv)
    · intro j hj
      obtain ⟨u, hu⟩ := h.held j hj
      refine ⟨u, ?_⟩
      rw [hother _ u (by simp [hu]), hu]
    · intro u
      rw [put_phase, hmem]
      by_cases htu : t = u
      · subst htu
        cases k <;> simp [hwoken, Phase.isLookup]
      · simp [htu]
    · intro hfree u j b hu
      cases k with
      | lookup => exact absurd hfree hgrant
      | bulk =>
        -- some lookup is in progress, and with the gate free it is awake
        have hwaiters : s.gate.lookupWaiters ≠ 0 := fun hz => hgrant ⟨hfree, hz⟩
        have hone : lookups.Nonempty := by
          rw [← Finset.card_ne_zero, hcard]
          exact hwaiters
        obtain ⟨v, hv⟩ := hone
        have hlookup := (hmem v).mp hv
        have hawake : ∃ c, s.phase v = .woken .lookup c := by
          cases hp : s.phase v with
          | outside | holding i =>
            rw [hp] at hlookup
            cases hlookup
          | waiting i c =>
            have hbulk := (h.awake hfree v i c hp).1
            rw [hp, hbulk] at hlookup
            cases hlookup
          | woken i c =>
            cases i with
            | bulk =>
              rw [hp] at hlookup
              cases hlookup
            | lookup => exact ⟨c, rfl⟩
        obtain ⟨c, hc⟩ := hawake
        refine ⟨?_, v, c, ?_⟩
        · rw [put_phase] at hu
          split_ifs at hu
          · cases hu
            rfl
          · exact (h.awake hfree u j b hu).1
        · rw [hother _ v (by simp [hc]), hc]

theorem gateInv_timeout {s : GateState τ} (h : GateInv s) (t : τ) (k : GateKind)
    (hwait : s.phase t = .waiting k true) : GateInv (s.put t (s.gate, .woken k true)) := by
  obtain ⟨lookups, hmem, hcard⟩ := h.waiters
  have hsame (u : τ) (p : Phase) (hp : p ≠ .woken k true)
      (hu : (s.put t (s.gate, .woken k true)).phase u = p) : s.phase u = p := by
    rw [put_phase] at hu
    split_ifs at hu
    · exact absurd hu.symm hp
    · exact hu
  have hother (u : τ) (hu : s.phase u ≠ .waiting k true) :
      (s.put t (s.gate, .woken k true)).phase u = s.phase u := by
    rw [put_phase, if_neg]
    intro htu
    rw [← htu] at hu
    exact hu hwait
  refine ⟨?_, ?_, ?_, ⟨lookups, ?_, hcard⟩, ?_⟩
  · intro u j hu
    exact h.holder u j (hsame u _ (by simp) hu)
  · intro u v i j hu hv
    exact h.exclusive u v i j (hsame u _ (by simp) hu) (hsame v _ (by simp) hv)
  · intro j hj
    obtain ⟨u, hu⟩ := h.held j hj
    exact ⟨u, by rw [hother u (by simp [hu]), hu]⟩
  · intro u
    rw [put_phase, hmem]
    by_cases htu : t = u
    · subst htu
      cases k <;> simp [hwait, Phase.isLookup]
    · simp [htu]
  · intro hfree u j b hu
    obtain ⟨hbulk, v, c, hv⟩ := h.awake hfree u j b (hsame u _ (by simp) hu)
    exact ⟨hbulk, v, c, by rw [hother v (by simp [hv]), hv]⟩

theorem isLookup_notified (p : Phase) : p.notified.isLookup = p.isLookup := by
  cases p with
  | outside | holding k => rfl
  | waiting k timed | woken k timed => cases k <;> rfl

/-- A release wakes every waiting acquire. -/
theorem gateInv_release {s : GateState τ} (h : GateInv s) (t : τ) (k : GateKind)
    (hhold : s.phase t = .holding k) : GateInv (stepGate s (.release t)) := by
  obtain ⟨lookups, hmem, hcard⟩ := h.waiters
  have hphase (u : τ) : (stepGate s (.release t)).phase u =
      if t = u then .outside else (s.phase u).notified := by
    simp only [stepGate, hhold]
    by_cases htu : t = u
    · subst htu
      simp
    · rw [if_neg htu]
      exact Function.update_of_ne (Ne.symm htu) _ _
  have hgate : (stepGate s (.release t)).gate = s.gate.release := by
    simp only [stepGate, hhold]
  have hnone (u : τ) (j : GateKind) : (stepGate s (.release t)).phase u ≠ .holding j := by
    intro hu
    rw [hphase] at hu
    split_ifs at hu with htu
    cases hp : s.phase u with
    | holding i => exact htu (h.exclusive t u k i hhold hp)
    | outside | waiting i b | woken i b =>
      rw [hp] at hu
      cases hu
  refine ⟨?_, ?_, ?_, ⟨lookups, ?_, ?_⟩, ?_⟩
  · intro u j hu
    exact absurd hu (hnone u j)
  · intro u v i j hu
    exact absurd hu (hnone u i)
  · intro j hj
    rw [hgate] at hj
    cases hj
  · intro u
    rw [hphase, hmem]
    by_cases htu : t = u
    · subst htu
      simp [hhold, Phase.isLookup]
    · simp [htu, isLookup_notified]
  · rw [hgate, hcard]
    rfl
  · intro _ u j b hu
    rw [hphase] at hu
    split_ifs at hu
    cases hp : s.phase u <;> rw [hp] at hu <;> cases hu

theorem gateInv_step (s : GateState τ) (a : GateAction τ) (h : GateInv s) :
    GateInv (stepGate s a) := by
  cases a with
  | acquire t k timed expired =>
    cases hp : s.phase t with
    | outside =>
      have harrive := gateInv_arrive h t k timed hp
      have hpass := gateInv_attempt harrive t k timed expired (by rw [put_phase, if_pos rfl])
      simpa [GateState.put, stepGate, hp] using hpass
    | waiting j b | woken j b | holding j => simpa only [stepGate, hp] using h
  | timeout t =>
    cases hp : s.phase t with
    | waiting j b =>
      cases b with
      | true => simpa only [stepGate, hp] using gateInv_timeout h t j hp
      | false => simpa only [stepGate, hp] using h
    | outside | woken j b | holding j => simpa only [stepGate, hp] using h
  | recheck t expired =>
    cases hp : s.phase t with
    | woken j b => simpa only [stepGate, hp] using gateInv_attempt h t j b expired hp
    | outside | waiting j b | holding j => simpa only [stepGate, hp] using h
  | release t =>
    cases hp : s.phase t with
    | holding j => exact gateInv_release h t j hp
    | outside | waiting j b | woken j b => simpa only [stepGate, hp] using h

/-- A pass that grants a bulk acquire found the gate free of waiting lookups. -/
theorem attempt_bulk (g : EmbedderGate) (k : GateKind) (timed expired : Bool)
    (h : (g.attempt k timed expired).2 = .holding .bulk) : k = .bulk ∧ g.lookupWaiters = 0 := by
  unfold EmbedderGate.attempt at h
  split_ifs at h with hgrant
  simp only [Phase.holding.injEq] at h
  subst h
  exact ⟨rfl, hgrant.2⟩

/-- Any threads, any interleaving: one holder at most, no bulk grant while a lookup waits, the
waiter count is the number of lookups in progress, and no blocked acquire is forgotten. -/
theorem gate_safe (actions : List (GateAction τ)) :
    let s := run stepGate GateState.start actions
    (∀ t u j k, s.phase t = .holding j → s.phase u = .holding k → t = u) ∧
    (∀ a t, s.phase t ≠ .holding .bulk → (stepGate s a).phase t = .holding .bulk →
      ∀ u, (s.phase u).isLookup = false) ∧
    ({t | (s.phase t).isLookup = true}.Finite ∧
      {t | (s.phase t).isLookup = true}.ncard = s.gate.lookupWaiters) ∧
    ¬∃ t k timed, s.gate.holder = none ∧ s.phase t = .waiting k timed ∧
      s.gate.lookupWaiters = 0 := by
  intro s
  have h : GateInv s := run_invariant GateInv gateInv_step GateState.start actions gateInv_start
  obtain ⟨lookups, hmem, hcard⟩ := h.waiters
  have hset : {t | (s.phase t).isLookup = true} = (lookups : Set τ) := by
    apply Set.ext
    intro t
    exact (hmem t).symm
  have hnolookup (hz : s.gate.lookupWaiters = 0) (u : τ) : (s.phase u).isLookup = false := by
    rw [hz, Finset.card_eq_zero] at hcard
    have hu := hmem u
    rw [hcard] at hu
    simpa using hu
  refine ⟨h.exclusive, ?_, ⟨?_, ?_⟩, ?_⟩
  · intro a t hbefore hafter
    have hput (r : EmbedderGate × Phase) (v : τ) (hv : (s.put v r).phase t = .holding .bulk) :
        r.2 = .holding .bulk := by
      rw [put_phase] at hv
      split_ifs at hv
      · exact hv
      · exact absurd hv hbefore
    cases a with
    | acquire v k timed expired =>
      cases hp : s.phase v with
      | outside =>
        simp only [stepGate, hp] at hafter
        obtain ⟨hk, hz⟩ := attempt_bulk _ k timed expired (hput _ v hafter)
        subst hk
        exact hnolookup hz
      | waiting j b | woken j b | holding j =>
        simp only [stepGate, hp] at hafter
        exact absurd hafter hbefore
    | timeout v =>
      simp only [stepGate] at hafter
      split at hafter
      · cases hput _ v hafter
      · exact absurd hafter hbefore
    | recheck v expired =>
      simp only [stepGate] at hafter
      split at hafter
      · obtain ⟨-, hz⟩ := attempt_bulk _ _ _ expired (hput _ v hafter)
        exact hnolookup hz
      · exact absurd hafter hbefore
    | release v =>
      simp only [stepGate] at hafter
      split at hafter
      · simp only [Function.update_apply] at hafter
        split_ifs at hafter
        cases hp : s.phase t with
        | holding i =>
          rw [hp] at hafter
          rw [hp] at hbefore
          exact absurd hafter hbefore
        | outside | waiting i b | woken i b =>
          rw [hp] at hafter
          cases hafter
      · exact absurd hafter hbefore
  · rw [hset]
    exact lookups.finite_toSet
  · rw [hset, Set.ncard_coe_finset, hcard]
  · intro hlost
    obtain ⟨t, k, timed, hfree, hwait, hz⟩ := hlost
    obtain ⟨-, u, b, hu⟩ := h.awake hfree t k timed hwait
    have hno := hnolookup hz u
    rw [hu] at hno
    cases hno

end Threads
end Elyra.Memory
