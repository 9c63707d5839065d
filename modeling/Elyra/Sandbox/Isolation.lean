import Elyra.Sandbox.Lifecycle

namespace Elyra.Sandbox

namespace SandboxWorld

section Told

variable [FingerprintDigest] {name fp : String} {w : SandboxWorld}

/-- The fingerprint of the parameters a machine was created with is the current one. -/
def Current (w : SandboxWorld) (name : String) (vm : MountParams) : Prop :=
  mountFingerprint name vm = w.currentFp name

/-- The kept fingerprint of a name is that of the parameters. -/
def Stamped (w : SandboxWorld) (name : String) (vm : MountParams) : Prop :=
  w.fingerprints.get? name = some (mountFingerprint name vm)

/-- The maps tell a machine whose parameters have changed: a cached one is under its own
fingerprint, and one that is not under its own is current. -/
structure Told (w : SandboxWorld) : Prop where
  cached : ∀ name sb, w.cached name = some sb → w.Stamped name sb
  vms : ∀ name vm, w.vms.get? name = some vm → w.Stamped name vm ∨ w.Current name vm

/-- A transition for one name leaves the host and a world that tells, and a sandbox that it makes
ready is current. -/
structure Holds (w : SandboxWorld) (name : String) (r : Outcome × SandboxWorld) : Prop where
  told : r.2.Told
  host : r.2.host = w.host
  current : ∀ sb, r.1 = .ready sb → w.Current name sb

theorem Holds.quiet {r : Outcome × SandboxWorld} (htold : r.2.Told) (hhost : r.2.host = w.host)
    (hnot : ∀ sb, r.1 ≠ .ready sb) : Holds w name r :=
  ⟨htold, hhost, fun sb h => absurd h (hnot sb)⟩

/-- A transition that starts where the host is the same. -/
theorem Holds.rehost {t : SandboxWorld} {r : Outcome × SandboxWorld} (h : Holds t name r)
    (hhost : t.host = w.host) : Holds w name r := by
  refine ⟨h.told, h.host.trans hhost, ?_⟩
  intro sb hsb
  have hcurrent := h.current sb hsb
  rw [Current, currentFp, hhost] at hcurrent
  exact hcurrent

theorem Told.clearCache (h : Told w) (name : String) : Told (w.clearCache name) := by
  refine ⟨?_, h.vms⟩
  intro other sb hsb
  apply h.cached other sb
  rw [SandboxWorld.cached, SandboxWorld.clearCache, Dict.get?_set, Dict.get?_pop] at hsb
  by_cases hsame : name = other
  · simp [hsame] at hsb
  · rw [if_neg hsame, if_neg hsame] at hsb
    exact hsb

theorem Told.createVm (h : Told w) (name : String) : Told (w.createVm name) := by
  refine ⟨h.cached, ?_⟩
  intro other vm hvm
  rw [SandboxWorld.createVm, Dict.get?_set] at hvm
  split_ifs at hvm with hsame
  · right
    rw [← Option.some.inj hvm, ← hsame]
    rfl
  · exact h.vms other vm hvm

theorem Told.popVm (h : Told w) (name : String) : Told { w with vms := w.vms.pop name } := by
  refine ⟨h.cached, ?_⟩
  intro other vm hvm
  rw [Dict.get?_pop] at hvm
  split_ifs at hvm
  exact h.vms other vm hvm

omit [FingerprintDigest] in
theorem createVm_vm (w : SandboxWorld) (name : String) :
    (w.createVm name).vms.get? name = some (w.host.params name) := Dict.get?_set_self _ _ _

theorem degraded_holds (h : Told w) (name reason : String) :
    Holds w name (w.degraded name reason) :=
  .quiet (h.clearCache name) rfl (by rintro _ ⟨⟩)

/-- Only a current machine is made ready, under the current fingerprint. -/
theorem readyIfMounts_holds (h : Told w) {sb : MountParams} (hsb : w.Current name sb)
    (hvm : w.vms.get? name = some sb) (hfp : fp = w.currentFp name) (readiness : ReadyReply)
    (detach : Reply) (detachAfter : Bool) :
    Holds w name (w.readyIfMounts name fp sb readiness detach detachAfter) := by
  have hstopped (o : Outcome) (ho : ∀ sb, o ≠ .ready sb) : Holds w name (o, w) := .quiet h rfl ho
  cases readiness with
  | timeout => exact hstopped _ (by rintro _ ⟨⟩)
  | escapes => exact hstopped _ (by rintro _ ⟨⟩)
  | raises => exact degraded_holds h name _
  | notReady reason => exact degraded_holds h name reason
  | ready =>
    unfold readyIfMounts
    dsimp only
    split_ifs
    · exact hstopped _ (by rintro _ ⟨⟩)
    · refine ⟨⟨?_, ?_⟩, rfl, ?_⟩
      · intro other x hx
        rw [Stamped, Dict.get?_set]
        rw [SandboxWorld.cached, Dict.get?_set, Dict.get?_set] at hx
        by_cases hsame : name = other
        · rw [if_pos hsame, if_pos hsame] at hx
          rw [if_pos hsame, hfp, ← hsame, ← Option.some.inj hx]
          exact congrArg some hsb.symm
        · rw [if_neg hsame, if_neg hsame] at hx
          rw [if_neg hsame]
          exact h.cached other x hx
      · intro other x hx
        rw [Stamped, Dict.get?_set]
        by_cases hsame : name = other
        · right
          rw [← hsame] at hx ⊢
          rw [hvm] at hx
          rw [← Option.some.inj hx]
          exact hsb
        · rw [if_neg hsame]
          exact h.vms other x hx
      · intro x hx
        rw [← Outcome.ready.inj hx]
        exact hsb

/-- What is created has the parameters in force. -/
theorem createAndReady_holds (h : Told w) (hfp : fp = w.currentFp name) (ans : CreateAnswers) :
    Holds w name (w.createAndReady name fp ans) := by
  have hmade : Told (if ans.created then w.createVm name else w) ∧
      (if ans.created then w.createVm name else w).host = w.host := by
    split_ifs
    · exact ⟨h.createVm name, rfl⟩
    · exact ⟨h, rfl⟩
  unfold createAndReady
  dsimp only
  generalize (if ans.created then w.createVm name else w) = made at hmade ⊢
  by_cases hraise : ans.kwargsRaise = true
  · rw [if_pos hraise]
    exact .quiet h rfl (by rintro _ ⟨⟩)
  rw [if_neg hraise]
  cases ans.create with
  | timeout => exact .quiet hmade.1 hmade.2 (by rintro _ ⟨⟩)
  | raises => exact (degraded_holds hmade.1 name _).rehost hmade.2
  | ok =>
    have hnew := readyIfMounts_holds (h.createVm name) rfl (createVm_vm w name) hfp
      ans.readiness ans.detach true
    exact hnew.rehost rfl

theorem recreateOnce_holds (h : Told w) (hfp : fp = w.currentFp name) (ans : RecreateAnswers) :
    Holds w name (w.recreateOnce name fp ans) := by
  have hcleared := h.clearCache name
  have hremoved : Told (if ans.removed then
        { w.clearCache name with vms := (w.clearCache name).vms.pop name }
      else w.clearCache name) ∧
      (if ans.removed then { w.clearCache name with vms := (w.clearCache name).vms.pop name }
      else w.clearCache name).host = w.host := by
    split_ifs
    · exact ⟨hcleared.popVm name, rfl⟩
    · exact ⟨hcleared, rfl⟩
  unfold recreateOnce
  dsimp only at hremoved ⊢
  by_cases hkill : ans.killTimesOut = true
  · rw [if_pos hkill]
    exact .quiet hcleared rfl (by rintro _ ⟨⟩)
  rw [if_neg hkill]
  generalize (if ans.removed then _ else _ : SandboxWorld) = removed at hremoved ⊢
  by_cases htimeout : ans.remove = .timeout
  · rw [if_pos htimeout]
    exact .quiet hremoved.1 hremoved.2 (by rintro _ ⟨⟩)
  rw [if_neg htimeout]
  have hsame : fp = removed.currentFp name := by rw [hfp, currentFp, currentFp, hremoved.2]
  exact (createAndReady_holds hremoved.1 hsame _).rehost hremoved.2

variable {vm : MountParams}

theorem pingThen_holds (h : Told w) (hvm : w.vms.get? name = some vm) (hcurrent : w.Current name vm)
    (hfp : fp = w.currentFp name) (ans : ClientAnswers) (detachAfter : Bool) :
    Holds w name (w.pingThen name fp vm ans detachAfter) := by
  unfold pingThen
  cases ans.ping with
  | timeout => exact .quiet h rfl (by rintro _ ⟨⟩)
  | raises => exact recreateOnce_holds h hfp ans.first
  | alive => exact readyIfMounts_holds h hcurrent hvm hfp _ _ detachAfter
  | dead =>
    have hfirst := recreateOnce_holds h hfp ans.first
    dsimp only
    split
    · rename_i t ht
      rw [ht] at hfirst
      have hsame : t.host = w.host := hfirst.host
      have hagain : fp = t.currentFp name := by rw [hfp, currentFp, currentFp, hsame]
      exact (recreateOnce_holds hfirst.told hagain ans.second).rehost hsame
    · exact hfirst

theorem handleRunning_holds (h : Told w) (hvm : w.vms.get? name = some vm)
    (hcurrent : w.Current name vm) (hfp : fp = w.currentFp name) (ans : ClientAnswers) :
    Holds w name (w.handleRunning name fp vm ans) := by
  unfold handleRunning
  cases ans.connect with
  | timeout => exact .quiet h rfl (by rintro _ ⟨⟩)
  | raises => exact recreateOnce_holds h hfp ans.first
  | ok => exact pingThen_holds h hvm hcurrent hfp ans false

theorem handleStopped_holds (h : Told w) (hvm : w.vms.get? name = some vm)
    (hcurrent : w.Current name vm) (hfp : fp = w.currentFp name) (ans : ClientAnswers) :
    Holds w name (w.handleStopped name fp vm ans) := by
  unfold handleStopped
  cases ans.start with
  | timeout => exact .quiet h rfl (by rintro _ ⟨⟩)
  | raises => exact recreateOnce_holds h hfp ans.first
  | ok => exact pingThen_holds h hvm hcurrent hfp ans true

theorem handleDraining_holds (h : Told w) (hvm : w.vms.get? name = some vm)
    (hcurrent : w.Current name vm) (hfp : fp = w.currentFp name) (ans : ClientAnswers) :
    Holds w name (w.handleDraining name fp vm ans) := by
  unfold handleDraining
  cases ans.drained with
  | timeout => exact .quiet h rfl (by rintro _ ⟨⟩)
  | raises => exact recreateOnce_holds h hfp ans.first
  | ok => exact handleStopped_holds h hvm hcurrent hfp ans

/-- Where the kept fingerprint of a machine is its own, the comparison finds the change. -/
theorem current_of_stamped (h : w.Stamped name vm) (hsame : w.mismatch name = false) :
    w.Current name vm := by
  rw [mismatch, show w.fingerprints.get? name = _ from h] at hsame
  simpa [Current] using hsame

theorem ensureFound_holds (h : Told w) (hvm : w.vms.get? name = some vm) (status : String)
    (ans : ClientAnswers) : Holds w name (w.ensureFound name status vm ans) := by
  unfold ensureFound
  dsimp only
  by_cases hmismatch : w.mismatch name = true
  · rw [if_pos hmismatch]
    exact recreateOnce_holds h rfl ans.first
  have hcurrent : w.Current name vm := by
    obtain hstamped | hcurrent := h.vms name vm hvm
    · exact current_of_stamped hstamped (Bool.eq_false_iff.mpr hmismatch)
    · exact hcurrent
  rw [if_neg hmismatch]
  split_ifs
  · exact handleRunning_holds h hvm hcurrent rfl ans
  · exact handleStopped_holds h hvm hcurrent rfl ans
  · exact recreateOnce_holds h rfl ans.first
  · exact handleDraining_holds h hvm hcurrent rfl ans
  · exact degraded_holds h name _

theorem ensureLocked_holds (h : Told w) (name : String) (ans : ClientAnswers) :
    Holds w name (w.ensureLocked name ans) := by
  unfold ensureLocked
  cases ans.get with
  | timeout => exact .quiet h rfl (by rintro _ ⟨⟩)
  | raises => exact degraded_holds h name _
  | notFound => exact createAndReady_holds h rfl _
  | found status =>
    dsimp only
    cases hvm : w.vms.get? name with
    | none => exact createAndReady_holds h rfl _
    | some vm => exact ensureFound_holds h hvm status.toLower ans

theorem ensure_holds (h : Told w) (name : String) (locked : Bool) (ans : ClientAnswers) :
    Holds w name (w.ensure name locked ans) := by
  unfold ensure
  split_ifs
  · have hlocked := ensureLocked_holds h name ans
    split
    · rename_i t ht
      rw [ht] at hlocked
      exact (degraded_holds hlocked.told name _).rehost hlocked.host
    · exact hlocked
  · exact .quiet h rfl (by rintro _ ⟨⟩)

end Told

section Runs

variable [FingerprintDigest]

/-- What a call must find: a cached sandbox is yielded only where its kept fingerprint is the
current one; the maps are forgotten only while every machine is current; and the operator changes
the parameters of a machine only while it is under its own fingerprint. -/
def Telling (w : SandboxWorld) : SandboxCall → Prop
  | .ensure _ _ _ | .invalidate _ => True
  | .withReady name locked ping _ => locked = true → (w.cached name).isSome = true →
    ping = .alive → w.mismatch name = false
  | .restart => ∀ name vm, w.vms.get? name = some vm → w.Current name vm
  | .retarget host => ∀ name vm, w.vms.get? name = some vm → w.Stamped name vm ∨
    mountFingerprint name (host.params name) = w.currentFp name

omit [FingerprintDigest] in
theorem forall_vms_iff {w : SandboxWorld} {P : String → MountParams → Prop} :
    (∀ e ∈ w.vms.items, P e.1 e.2) ↔ ∀ name vm, w.vms.get? name = some vm → P name vm :=
  ⟨fun h name vm hvm => h (name, vm) ((Dict.get?_eq_some_iff _ name vm).mp hvm),
    fun h e he => h e.1 e.2 ((Dict.get?_eq_some_iff _ e.1 e.2).mpr he)⟩

instance decidableTelling (w : SandboxWorld) : ∀ call, Decidable (Telling w call)
  | .ensure _ _ _ | .invalidate _ => isTrue trivial
  | .withReady name locked ping _ => inferInstanceAs (Decidable (locked = true →
    (w.cached name).isSome = true → ping = .alive → w.mismatch name = false))
  | .restart => decidable_of_iff (∀ e ∈ w.vms.items,
    mountFingerprint e.1 e.2 = w.currentFp e.1) (forall_vms_iff (P := w.Current))
  | .retarget host => decidable_of_iff (∀ e ∈ w.vms.items,
    w.fingerprints.get? e.1 = some (mountFingerprint e.1 e.2) ∨
      mountFingerprint e.1 (host.params e.1) = w.currentFp e.1)
    (forall_vms_iff (P := fun name vm => w.Stamped name vm ∨
      mountFingerprint name (host.params name) = w.currentFp name))

theorem withReady_holds {w : SandboxWorld} (h : Told w) {name : String} {locked : Bool}
    {ping : PingReply} {ans : ClientAnswers} (hc : Telling w (.withReady name locked ping ans)) :
    Holds w name (w.withReadySandbox name locked ping ans) := by
  unfold withReadySandbox
  cases locked with
  | false => exact .quiet h rfl (by rintro _ ⟨⟩)
  | true =>
    rw [if_pos rfl]
    cases hcached : w.cached name with
    | none => exact ensureLocked_holds h name ans
    | some sb =>
      cases ping with
      | alive =>
        refine ⟨h, rfl, ?_⟩
        intro x hx
        rw [← Outcome.ready.inj hx]
        exact current_of_stamped (h.cached name sb hcached)
          (hc rfl (by rw [hcached]; rfl) rfl)
      | timeout => exact .quiet h rfl (by rintro _ ⟨⟩)
      | dead => exact ensureLocked_holds h name ans
      | raises => exact ensureLocked_holds h name ans

theorem told_step {w : SandboxWorld} {call : SandboxCall} (hc : Telling w call) (h : Told w) :
    Told (w.step call) ∧ w.Lawful call := by
  cases call with
  | ensure name locked ans =>
    have hholds := ensure_holds h name locked ans
    refine ⟨hholds.told, ?_⟩
    intro n sb hout
    obtain ⟨rfl, hready⟩ := Prod.mk.inj (Option.some.inj hout)
    exact hholds.current sb hready
  | withReady name locked ping ans =>
    have hholds := withReady_holds h hc
    refine ⟨hholds.told, ?_⟩
    intro n sb hout
    obtain ⟨rfl, hready⟩ := Prod.mk.inj (Option.some.inj hout)
    exact hholds.current sb hready
  | invalidate name =>
    refine ⟨h.clearCache name, ?_⟩
    rintro n sb ⟨⟩
  | restart =>
    refine ⟨⟨?_, fun name vm hvm => .inr (hc name vm hvm)⟩, ?_⟩
    · rintro name sb ⟨⟩
    · rintro n sb ⟨⟩
  | retarget host =>
    refine ⟨⟨h.cached, ?_⟩, ?_⟩
    · intro name vm hvm
      obtain hstamped | hcurrent := h.vms name vm hvm
      · exact .inl hstamped
      · obtain hstamped | hsame := hc name vm hvm
        · exact .inl hstamped
        · exact .inr (hcurrent.trans hsame.symm)
    · rintro n sb ⟨⟩

/-- In a run in which the maps never stop telling a change, every sandbox that is handed out is of
the fingerprint current at its call. -/
theorem isolation_holds (host : HostSide) (calls : List SandboxCall)
    (hc : Along step Telling { host } calls) : Along step Lawful { host } calls := by
  have hstart : Told ({ host } : SandboxWorld) :=
    ⟨fun _ _ h => (nomatch h), fun _ _ h => (nomatch h)⟩
  exact (hc.shows Told (fun _ _ hcall h => told_step hcall h) _ calls hstart).2

end Runs

end SandboxWorld

section Sample

open SandboxWorld

/-- The texts of the payload in place of its hash; they name its mounts as well. -/
@[reducible] def plainDigest : FingerprintDigest := ⟨fun j =>
  match j with
  | .obj kvs => kvs.foldl (fun text kv =>
    match kv.2 with
    | .str value => text ++ "|" ++ value
    | _ => text) ""
  | _ => ""⟩

def sampleHost (network : String) : HostSide := ⟨"python", some network, fun _ => "/home/sandbox0"⟩

/-- Everything works. -/
def sampleRecreate : RecreateAnswers where
  kwargsRaise := false
  create := .ok
  created := true
  readiness := .ready
  detach := .ok
  killTimesOut := false
  remove := .ok
  removed := true

/-- What `get` finds; everything else works. -/
def sampleAnswers (get : GetReply) : ClientAnswers where
  get := get
  connect := .ok
  ping := .alive
  start := .ok
  drained := .ok
  readiness := .ready
  detach := .ok
  first := sampleRecreate
  second := sampleRecreate

/-- The network is closed after the machine was created, and the machine is yielded as it is. -/
theorem closed_network_bypassed :
    ¬ ∀ (_ : FingerprintDigest) (host : HostSide) (calls : List SandboxCall),
      Along step Lawful { host } calls := by
  intro h
  obtain ⟨-, -, hlawful, -⟩ := h plainDigest (sampleHost "public_only")
    [.ensure "sandbox0" true (sampleAnswers .notFound), .retarget (sampleHost "none"),
      .withReady "sandbox0" true .alive (sampleAnswers .notFound)]
  have hfp := hlawful "sandbox0" ⟨"python", "public_only", "/home/sandbox0"⟩ (by decide +kernel)
  exact absurd hfp (by decide +kernel)

/-- A machine is created, the network is closed, the machine is recreated, and the new one is
reconnected after a restart and then yielded from the cache. -/
def closedNetworkCalls : List SandboxCall :=
  [.ensure "sandbox0" true (sampleAnswers .notFound), .retarget (sampleHost "none"),
    .ensure "sandbox0" true (sampleAnswers (.found "Running")), .restart,
    .ensure "sandbox0" true (sampleAnswers (.found "Running")),
    .withReady "sandbox0" true .alive (sampleAnswers .notFound)]

attribute [local instance] plainDigest

theorem isolation_holds_sample :
    Along step Lawful { host := sampleHost "public_only" } closedNetworkCalls :=
  isolation_holds _ _ (by decide +kernel)

end Sample
end Elyra.Sandbox
