import Elyra.Framework.Interference
import Elyra.Instrument.GrokBuild

namespace Elyra.Instrument

section Logs

variable [PyCoerce] [TextPatterns] [JsonScan]

/-- The usage that the logs of a job report. -/
def loggedUsage (stdout : String) : Option TokenUsage :=
  match (do adaptHeadlessUsage (← parseHeadlessJson stdout) : Except OutputErr _) with
  | .ok usage => usage
  | .error _ => none

theorem loggedUsage_empty : loggedUsage "" = none := by
  have hparse : parseHeadlessJson "" = .ok none := by
    unfold parseHeadlessJson
    exact if_pos (by decide)
  rw [loggedUsage, hparse]
  rfl

end Logs

namespace World

variable (w : World)

def stdoutOf (jobId : String) : String := ((w.job? jobId).map Job.stdout).getD ""

def hasResult (jobId : String) : Bool := ((w.job? jobId).bind Job.result).isSome

/-- What the meter recorded for a job. -/
def entries (jobId : String) : List TokenUsage :=
  (w.metered.filter fun e => e.1 = jobId).map Prod.snd

/-- A finalization found the job unsettled. -/
def Begun (jobId : String) : Prop :=
  (∃ who, (jobId, who) ∈ w.unfinished) ∨ w.hasResult jobId = true

/-- A job without a process, whose log is empty. -/
def Untouched (jobId : String) : Prop :=
  ∃ job, w.job? jobId = some job ∧ job.proc = none ∧ job.stdout = ""

end World

section Usage

variable [PyCoerce] [TextPatterns] [JsonScan] (w : World)

def World.usage (jobId : String) : Option TokenUsage := loggedUsage (w.stdoutOf jobId)

/-- The tokens the meter recorded for a job, and those its logs report. -/
def World.tokensOf (jobId : String) : Nat := ((w.entries jobId).map TokenUsage.billableTokens).sum

def World.billed (jobId : String) : Nat := (w.usage jobId).elim 0 TokenUsage.billableTokens

/-- The usage of a job is recorded at most once, and once it has a result exactly once. -/
structure World.Metered : Prop where
  once : ∀ j, w.entries j = [] ∨ w.Begun j ∧ w.entries j = (w.usage j).toList
  settled : ∀ j, w.hasResult j = true → w.entries j = (w.usage j).toList
  alone : ∀ j a b, (j, a) ∈ w.unfinished → (j, b) ∈ w.unfinished → a ≠ b → w.usage j = none

end Usage

section Steps

variable [PyCoerce] [TextPatterns] [JsonScan]

/-- What a thread may count on while the others move: its own finalizations stay as they are, and
for the tool a job without a process stays untouched. -/
structure Rely (who : Caller) (w w' : World) : Prop where
  metered : w.Metered → w'.Metered
  mine : ∀ j, (j, who) ∈ w.unfinished →
    (j, who) ∈ w'.unfinished ∧ w'.entries j = w.entries j ∧ w'.usage j = w.usage j
  untouched : who = .tool → ∀ j, w.Untouched j → w'.Untouched j

/-- A finalization that passes its check finds no other one of a job with usage under way, or failed
before it wrote a result, and no result; and a log with usage does not change once a finalization
has passed. -/
def ClearCall (refused : Bool) (w : World) : JobCall → Prop
  | .checkSettled j terminal =>
    settledBy ((w.job? j).bind Job.result) terminal = false → w.usage j ≠ none → ¬w.Begun j
  | .writeStdout j text => refused = false → loggedUsage text ≠ w.usage j → ¬w.Begun j
  | _ => True

def meterSetting (who : Caller) : Setting JobErr JobCall.Reply World where
  perform := JobCall.perform who
  allowed refused c w := (who = .tool → c.blocked w = false) ∧ ClearCall refused w c
  rely := Rely who
  guarantee w w' := ∀ other, other ≠ who → Rely other w w'

/-- A step that leaves logs, results and recordings alone. -/
structure Same (w w' : World) : Prop where
  unfinished : w'.unfinished = w.unfinished
  metered : w'.metered = w.metered
  stdout : ∀ j, w'.stdoutOf j = w.stdoutOf j
  result : ∀ j, w'.hasResult j = w.hasResult j

variable {w w' : World}

omit [PyCoerce] [TextPatterns] [JsonScan] in
theorem Same.refl (w : World) : Same w w := ⟨rfl, rfl, fun _ => rfl, fun _ => rfl⟩

theorem Same.usage (h : Same w w') (j : String) : w'.usage j = w.usage j := by
  rw [World.usage, h.stdout, World.usage]

omit [PyCoerce] [TextPatterns] [JsonScan] in
theorem Same.entries (h : Same w w') (j : String) : w'.entries j = w.entries j := by
  rw [World.entries, h.metered, World.entries]

omit [PyCoerce] [TextPatterns] [JsonScan] in
theorem Same.begun (h : Same w w') (j : String) : w'.Begun j ↔ w.Begun j := by
  rw [World.Begun, h.unfinished, h.result, World.Begun]

theorem Same.keeps (h : Same w w') (hm : w.Metered) : w'.Metered := by
  refine ⟨fun j => ?_, fun j => ?_, fun j => ?_⟩
  · rw [h.entries, h.begun, h.usage]
    exact hm.once j
  · rw [h.result, h.entries, h.usage]
    exact hm.settled j
  · rw [h.unfinished, h.usage]
    exact hm.alone j

theorem Same.rely (h : Same w w') {who : Caller}
    (hu : who = .tool → ∀ j, w.Untouched j → w'.Untouched j) : Rely who w w' :=
  ⟨h.keeps, fun j hj => ⟨by rw [h.unfinished]; exact hj, h.entries j, h.usage j⟩, hu⟩

end Steps

section Calls

/-- A change of one job that leaves its log, and whether it has a result. -/
theorem same_modify (w : World) (jobId : String) (f : Job → Job)
    (hstdout : ∀ job, (f job).stdout = job.stdout)
    (hresult : ∀ job, (f job).result.isSome = job.result.isSome) : Same w (w.modify jobId f) := by
  have haside := w.modify_aside jobId f
  refine ⟨haside.2, haside.1, fun j => ?_, fun j => ?_⟩
  · rw [World.stdoutOf, World.stdoutOf, World.job?_modify]
    split_ifs
    · cases w.job? j with
      | none => rfl
      | some job => exact hstdout job
    · rfl
  · rw [World.hasResult, World.hasResult, World.job?_modify]
    split_ifs
    · cases w.job? j with
      | none => rfl
      | some job => exact hresult job
    · rfl

theorem untouched_modify {w : World} (jobId : String) (f : Job → Job)
    (hstdout : ∀ job, job.proc = none → (f job).stdout = job.stdout)
    (hproc : ∀ job, job.proc = none → (f job).proc = none) {j : String} (h : w.Untouched j) :
    (w.modify jobId f).Untouched j := by
  obtain ⟨job, hjob, hnone, hempty⟩ := h
  rw [World.Untouched, World.job?_modify, hjob]
  split_ifs
  · exact ⟨f job, rfl, hproc job hnone, (hstdout job hnone).trans hempty⟩
  · exact ⟨job, rfl, hnone, hempty⟩

theorem same_modifyProc (w : World) (jobId : String) (f : Proc → Proc) :
    Same w (w.modifyProc jobId f) := same_modify w jobId _ (fun _ => rfl) fun _ => rfl

theorem untouched_modifyProc {w : World} (jobId : String) (f : Proc → Proc) {j : String}
    (h : w.Untouched j) : (w.modifyProc jobId f).Untouched j :=
  untouched_modify jobId (fun job => { job with proc := job.proc.map f }) (fun _ _ => rfl)
    (fun job hnone => by rw [hnone]; rfl) h

/-- A new job has an empty log and no result, as if it were not there. -/
theorem same_create (w : World) (jobId : String) (record : JobMeta) (h : w.job? jobId = none) :
    Same w { w with jobs := w.jobs.set jobId ⟨record, none, "", "", [], none⟩ } := by
  have hget : ∀ j, World.job? { w with
      jobs := w.jobs.set jobId ⟨record, none, "", "", [], none⟩ } j =
      if jobId = j then some ⟨record, none, "", "", [], none⟩ else w.job? j :=
    fun j => Dict.get?_set ..
  refine ⟨rfl, rfl, fun j => ?_, fun j => ?_⟩
  · rw [World.stdoutOf, World.stdoutOf, hget]
    split_ifs with hj
    · rw [← hj, h]
      rfl
    · rfl
  · rw [World.hasResult, World.hasResult, hget]
    split_ifs with hj
    · rw [← hj, h]
      rfl
    · rfl

theorem untouched_create {w : World} (jobId : String) (job : Job) (h : w.job? jobId = none)
    {j : String} (hj : w.Untouched j) :
    World.Untouched { w with jobs := w.jobs.set jobId job } j := by
  obtain ⟨old, hold, hrest⟩ := hj
  refine ⟨old, ?_, hrest⟩
  show (w.jobs.set jobId job).get? j = _
  rw [Dict.get?_set, if_neg ?_]
  · exact hold
  · rintro rfl
    rw [h] at hold
    cases hold

/-- Calls that leave logs, results and recordings alone. -/
def JobCall.plain : JobCall → Bool
  | .checkSettled _ _ | .recordUsage _ _ | .writeResult _ _ | .writeStdout _ _ => false
  | _ => true

/-- Calls that start no process and write no log. -/
def JobCall.calm : JobCall → Bool
  | .spawnGrok _ | .startGrok _ | .writeStdout _ _ => false
  | _ => true

theorem same_refusable {α : Type} (refused : Bool) (w : World) (r : Except JobErr α × World)
    (h : Same w r.2) : Same w (refusable refused w r).2 := by
  cases refused with
  | true => exact .refl w
  | false => exact h

theorem same_perform (who : Caller) (refused : Bool) (c : JobCall) (w : World)
    (hc : c.plain = true) : Same w (c.perform who refused w).2 := by
  cases c with
  | listJobs | loadJob | loadResult | readStdout | readStderr | listArtifacts | isPidAlive | now =>
    exact .refl w
  | checkSettled | recordUsage | writeResult | writeStdout => cases hc
  | updateJob jobId fields =>
    apply same_refusable
    unfold World.updateJob
    cases w.job? jobId with
    | none => exact .refl w
    | some job => exact same_modify w jobId _ (fun _ => rfl) fun _ => rfl
  | shredTokens jobId => exact same_modify w jobId _ (fun _ => rfl) fun _ => rfl
  | createJob jobId mode asyncJob =>
    apply same_refusable
    cases h : w.job? jobId with
    | some job => exact .refl w
    | none => exact same_create w jobId _ h
  | seedIsolatedHome jobId | spawnGrok jobId | startGrok jobId | writeStderr jobId text =>
    apply same_refusable
    exact same_modify w jobId _ (fun _ => rfl) fun _ => rfl
  | communicate jobId =>
    show Same w (w.communicate who jobId).2
    unfold World.communicate
    cases w.procOf (some jobId) with
    | none => exact .refl w
    | some found =>
      dsimp only
      cases found.2.state with
      | ended code => exact same_modifyProc w jobId _
      | running | handed => exact .refl w
  | reapInstrumentPid pid =>
    show Same w (w.waitpid who pid).2
    unfold World.waitpid
    cases w.procOf pid with
    | none => exact .refl w
    | some found =>
      dsimp only
      cases found.2.state with
      | ended code =>
        dsimp only
        split_ifs
        · exact same_modifyProc w found.1 _
        · exact .refl w
      | running | handed => exact .refl w
  | killPgid pid =>
    show Same w (w.kill pid)
    unfold World.kill
    cases w.procOf pid with
    | none => exact .refl w
    | some found =>
      dsimp only
      split_ifs
      · exact same_modifyProc w found.1 _
      · exact .refl w
  | claimWake jobId =>
    show Same w (w.claim jobId).2
    unfold World.claim
    split_ifs
    · exact .refl w
    · exact ⟨rfl, rfl, fun _ => rfl, fun _ => rfl⟩
  | forgetWake jobId => exact ⟨rfl, rfl, fun _ => rfl, fun _ => rfl⟩
  | enqueue payload =>
    apply same_refusable
    exact ⟨rfl, rfl, fun _ => rfl, fun _ => rfl⟩

theorem untouched_refusable {α : Type} (refused : Bool) {w : World} (r : Except JobErr α × World)
    {j : String} (h : w.Untouched j) (hr : w.Untouched j → r.2.Untouched j) :
    (refusable refused w r).2.Untouched j := by
  cases refused with
  | true => exact h
  | false => exact hr h

theorem untouched_perform (who : Caller) (refused : Bool) (c : JobCall) {w : World}
    (hc : c.calm = true) {j : String} (h : w.Untouched j) :
    (c.perform who refused w).2.Untouched j := by
  cases c with
  | listJobs | loadJob | loadResult | readStdout | readStderr | listArtifacts | isPidAlive | now =>
    exact h
  | spawnGrok | startGrok | writeStdout => cases hc
  | recordUsage | forgetWake => exact h
  | checkSettled jobId terminal =>
    show World.Untouched (if settledBy _ terminal then w else w.enters jobId who) j
    split_ifs
    · exact h
    · exact h
  | writeResult jobId result =>
    apply untouched_refusable refused _ h
    intro h
    unfold World.writeResult
    cases w.job? jobId with
    | none => exact h
    | some job =>
      dsimp only
      split_ifs
      · exact untouched_modify jobId (fun job => { job with result := some result })
          (fun _ _ => rfl) (fun _ hnone => hnone) h
      · exact h
  | updateJob jobId fields =>
    apply untouched_refusable refused _ h
    intro h
    unfold World.updateJob
    cases w.job? jobId with
    | none => exact h
    | some job =>
      refine untouched_modify jobId _ ?_ ?_ h
      · exact fun _ _ => rfl
      · exact fun _ hnone => hnone
  | shredTokens jobId =>
    exact untouched_modify jobId (fun job => { job with tokens := [] }) (fun _ _ => rfl)
      (fun _ hnone => hnone) h
  | createJob jobId mode asyncJob =>
    apply untouched_refusable refused _ h
    intro h
    cases hnone : w.job? jobId with
    | some job => exact h
    | none => exact untouched_create jobId _ hnone h
  | seedIsolatedHome jobId | writeStderr jobId text =>
    apply untouched_refusable refused _ h
    intro h
    refine untouched_modify jobId _ ?_ ?_ h
    · exact fun _ _ => rfl
    · exact fun _ hnone => hnone
  | communicate jobId =>
    show (w.communicate who jobId).2.Untouched j
    unfold World.communicate
    cases w.procOf (some jobId) with
    | none => exact h
    | some found =>
      dsimp only
      cases found.2.state with
      | ended code => exact untouched_modifyProc jobId _ h
      | running | handed => exact h
  | reapInstrumentPid pid =>
    show (w.waitpid who pid).2.Untouched j
    unfold World.waitpid
    cases w.procOf pid with
    | none => exact h
    | some found =>
      dsimp only
      cases found.2.state with
      | ended code =>
        dsimp only
        split_ifs
        · exact untouched_modifyProc found.1 _ h
        · exact h
      | running | handed => exact h
  | killPgid pid =>
    show (w.kill pid).Untouched j
    unfold World.kill
    cases w.procOf pid with
    | none => exact h
    | some found =>
      dsimp only
      split_ifs
      · exact untouched_modifyProc found.1 _ h
      · exact h
  | claimWake jobId =>
    show (w.claim jobId).2.Untouched j
    unfold World.claim
    split_ifs
    · exact h
    · exact h
  | enqueue payload => exact untouched_refusable refused _ h fun h => h

end Calls

section Recordings

variable {w : World}

theorem entries_recorded (w : World) (jobId : String) (usage : Option TokenUsage) (j : String) :
    (w.recorded jobId usage).entries j =
      w.entries j ++ if jobId = j then usage.toList else [] := by
  rw [World.entries, World.recorded, List.filter_append, List.map_append, World.entries]
  congr 1
  by_cases hj : jobId = j
  · subst hj
    cases usage <;> simp
  · cases usage <;> simp [hj]

/-- A result is written for a job whose usage is recorded. -/
def World.settledWith (w : World) (jobId : String) (who : Caller) (result : JobResult) : World :=
  (w.modify jobId fun job => { job with result := some result }).leaves jobId who

theorem stdoutOf_settledWith (w : World) (jobId : String) (who : Caller) (result : JobResult)
    (j : String) : (w.settledWith jobId who result).stdoutOf j = w.stdoutOf j := by
  show World.stdoutOf (w.modify jobId _) j = _
  rw [World.stdoutOf, World.stdoutOf, World.job?_modify]
  split_ifs
  · cases w.job? j <;> rfl
  · rfl

theorem hasResult_settledWith (w : World) {jobId : String} (who : Caller) (result : JobResult)
    {j : String} (hj : jobId ≠ j) :
    (w.settledWith jobId who result).hasResult j = w.hasResult j := by
  show World.hasResult (w.modify jobId _) j = _
  rw [World.hasResult, World.hasResult, World.job?_modify, if_neg hj]

theorem mem_settledWith {who c : Caller} {jobId j : String} (result : JobResult)
    (hne : (j, c) ≠ (jobId, who)) :
    (j, c) ∈ (w.settledWith jobId who result).unfinished ↔ (j, c) ∈ w.unfinished := by
  show (j, c) ∈ (w.modify jobId _).unfinished.filter _ ↔ _
  rw [(w.modify_aside jobId _).2, List.mem_filter, decide_eq_true_eq]
  exact ⟨fun h => h.1, fun h => ⟨h, hne⟩⟩

theorem entries_settledWith (w : World) (jobId : String) (who : Caller) (result : JobResult)
    (j : String) : (w.settledWith jobId who result).entries j = w.entries j := by
  rw [World.entries, World.entries]
  show ((w.modify jobId _).metered.filter _).map _ = _
  rw [(w.modify_aside jobId _).1]

variable [PyCoerce] [TextPatterns] [JsonScan]

/-- A finalization that passes its check begins. -/
theorem enters_metered (who : Caller) (jobId : String) (hm : w.Metered)
    (hclear : w.usage jobId ≠ none → ¬w.Begun jobId) : (w.enters jobId who).Metered := by
  refine ⟨fun j => ?_, hm.settled, fun j a b ha hb hab => ?_⟩
  · obtain hnone | ⟨hbegun, heq⟩ := hm.once j
    · exact .inl hnone
    · refine .inr ⟨?_, heq⟩
      obtain ⟨c, hc⟩ | hresult := hbegun
      · exact .inl ⟨c, List.mem_cons_of_mem _ hc⟩
      · exact .inr hresult
  · by_contra hsome
    obtain ha' | hold := List.mem_cons.mp ha
    · obtain ⟨rfl, rfl⟩ := Prod.mk.inj ha'
      obtain hb' | hb := List.mem_cons.mp hb
      · exact hab (Prod.mk.inj hb').2.symm
      · exact hclear hsome (.inl ⟨b, hb⟩)
    · obtain hb' | hb := List.mem_cons.mp hb
      · obtain ⟨rfl, rfl⟩ := Prod.mk.inj hb'
        exact hclear hsome (.inl ⟨a, hold⟩)
      · exact hsome (hm.alone j a b hold hb hab)

theorem enters_rely (who other : Caller) (jobId : String)
    (hclear : w.usage jobId ≠ none → ¬w.Begun jobId) : Rely other w (w.enters jobId who) :=
  ⟨fun hm => enters_metered who jobId hm hclear,
    fun _ hj => ⟨List.mem_cons_of_mem _ hj, rfl, rfl⟩, fun _ _ h => h⟩

/-- The usage of a job is recorded by the finalization it is open to. -/
theorem recorded_metered {who : Caller} {jobId : String} (hm : w.Metered)
    (hmine : (jobId, who) ∈ w.unfinished) (hnone : w.entries jobId = []) :
    (w.recorded jobId (w.usage jobId)).Metered := by
  have hentries : ∀ j, (w.recorded jobId (w.usage jobId)).entries j =
      if jobId = j then (w.usage j).toList else w.entries j := by
    intro j
    rw [entries_recorded]
    by_cases hj : jobId = j
    · subst hj
      rw [if_pos rfl, if_pos rfl, hnone, List.nil_append]
    · rw [if_neg hj, if_neg hj, List.append_nil]
  refine ⟨fun j => ?_, fun j hj => ?_, hm.alone⟩
  · rw [hentries]
    split_ifs with hj
    · subst hj
      exact .inr ⟨.inl ⟨who, hmine⟩, rfl⟩
    · exact hm.once j
  · rw [hentries]
    split_ifs
    · rfl
    · exact hm.settled j hj

theorem recorded_rely {who other : Caller} {jobId : String} (hm : w.Metered)
    (hmine : (jobId, who) ∈ w.unfinished) (hnone : w.entries jobId = []) (hne : other ≠ who) :
    Rely other w (w.recorded jobId (w.usage jobId)) := by
  refine ⟨fun _ => recorded_metered hm hmine hnone, fun j hj => ⟨hj, ?_, rfl⟩, fun _ _ h => h⟩
  rw [entries_recorded]
  split_ifs with heq
  · subst heq
    rw [hm.alone jobId other who hj hmine hne]
    exact List.append_nil _
  · exact List.append_nil _

theorem settledWith_metered {who : Caller} {jobId : String} (hm : w.Metered) (result : JobResult)
    (hthere : (w.job? jobId).isSome = true)
    (hrecorded : w.entries jobId = (w.usage jobId).toList) :
    (w.settledWith jobId who result).Metered := by
  have husage : ∀ j, (w.settledWith jobId who result).usage j = w.usage j := by
    intro j
    rw [World.usage, stdoutOf_settledWith, World.usage]
  have hself : (w.settledWith jobId who result).hasResult jobId = true := by
    obtain ⟨job, hjob⟩ := Option.isSome_iff_exists.mp hthere
    show World.hasResult (w.modify jobId _) jobId = _
    rw [World.hasResult, World.job?_modify, if_pos rfl, hjob]
    rfl
  refine ⟨fun j => ?_, fun j hj => ?_, fun j a b ha hb hab => ?_⟩
  · rw [entries_settledWith, husage]
    by_cases hj : jobId = j
    · subst hj
      exact .inr ⟨.inr hself, hrecorded⟩
    · obtain hnone | ⟨hbegun, heq⟩ := hm.once j
      · exact .inl hnone
      · refine .inr ⟨?_, heq⟩
        obtain ⟨c, hc⟩ | hresult := hbegun
        · exact .inl ⟨c, (mem_settledWith result fun h => hj (Prod.mk.inj h).1.symm).mpr hc⟩
        · exact .inr ((hasResult_settledWith w who result hj).trans hresult)
  · rw [entries_settledWith, husage]
    by_cases hj' : jobId = j
    · subst hj'
      exact hrecorded
    · rw [hasResult_settledWith w who result hj'] at hj
      exact hm.settled j hj
  · have hsub : ∀ c, (j, c) ∈ (w.settledWith jobId who result).unfinished →
        (j, c) ∈ w.unfinished := by
      intro c hc
      have hc' : (j, c) ∈ (w.modify jobId _).unfinished := (List.mem_filter.mp hc).1
      rwa [(w.modify_aside jobId _).2] at hc'
    rw [husage]
    exact hm.alone j a b (hsub a ha) (hsub b hb) hab

theorem settledWith_rely {who other : Caller} {jobId : String} (result : JobResult)
    (hm : w.Metered) (hthere : (w.job? jobId).isSome = true)
    (hrecorded : w.entries jobId = (w.usage jobId).toList) (hne : other ≠ who) :
    Rely other w (w.settledWith jobId who result) := by
  refine ⟨fun _ => settledWith_metered hm result hthere hrecorded, fun j hj => ⟨?_, ?_, ?_⟩, ?_⟩
  · exact (mem_settledWith result fun h => hne (Prod.mk.inj h).2).mpr hj
  · exact entries_settledWith w jobId who result j
  · rw [World.usage, stdoutOf_settledWith, World.usage]
  · intro _ j h
    exact untouched_modify jobId (fun job => { job with result := some result }) (fun _ _ => rfl)
      (fun _ hnone => hnone) h

/-- A log is written, of a job no finalization has begun, or without another usage. -/
theorem logged_metered (hm : w.Metered) (jobId : String) (f : Job → Job)
    (hresult : ∀ job, (f job).result = job.result)
    (hclear : (w.modify jobId f).usage jobId ≠ w.usage jobId → ¬w.Begun jobId) :
    (w.modify jobId f).Metered ∧
      ∀ j, w.Begun j → (w.modify jobId f).usage j = w.usage j := by
  have haside := w.modify_aside jobId f
  have hentries : ∀ j, (w.modify jobId f).entries j = w.entries j := by
    intro j
    rw [World.entries, haside.1, World.entries]
  have hresults : ∀ j, (w.modify jobId f).hasResult j = w.hasResult j := by
    intro j
    rw [World.hasResult, World.hasResult, World.job?_modify]
    split_ifs
    · cases w.job? j with
      | none => rfl
      | some job => exact congrArg Option.isSome (hresult job)
    · rfl
  have hbegun : ∀ j, (w.modify jobId f).Begun j ↔ w.Begun j := by
    intro j
    rw [World.Begun, haside.2, hresults, World.Begun]
  have husage : ∀ j, w.Begun j → (w.modify jobId f).usage j = w.usage j := by
    intro j hj
    by_cases heq : jobId = j
    · subst heq
      by_contra hne
      exact hclear hne hj
    · rw [World.usage, World.stdoutOf, World.job?_modify, if_neg heq, World.usage, World.stdoutOf]
  refine ⟨⟨fun j => ?_, fun j hj => ?_, fun j a b ha hb hab => ?_⟩, husage⟩
  · rw [hentries, hbegun]
    obtain hnone | ⟨hj, heq⟩ := hm.once j
    · exact .inl hnone
    · rw [husage j hj]
      exact .inr ⟨hj, heq⟩
  · rw [hresults] at hj
    rw [hentries, husage j (.inr hj)]
    exact hm.settled j hj
  · rw [haside.2] at ha hb
    rw [husage j (.inl ⟨a, ha⟩)]
    exact hm.alone j a b ha hb hab

theorem logged_rely (who : Caller) (jobId : String) (f : Job → Job)
    (hresult : ∀ job, (f job).result = job.result) (hm : w.Metered)
    (hclear : (w.modify jobId f).usage jobId ≠ w.usage jobId → ¬w.Begun jobId)
    (huntouched : who = .tool → ∀ j, w.Untouched j → (w.modify jobId f).Untouched j) :
    Rely who w (w.modify jobId f) := by
  obtain ⟨hmetered, husage⟩ := logged_metered hm jobId f hresult hclear
  have haside := w.modify_aside jobId f
  refine ⟨fun _ => hmetered, fun j hj => ⟨by rw [haside.2]; exact hj, ?_, ?_⟩, huntouched⟩
  · rw [World.entries, haside.1, World.entries]
  · exact husage j (.inl ⟨who, hj⟩)

end Recordings

open Fallible

theorem writeResult_cases (who : Caller) (jobId : String) (w : World) (refused : Bool)
    (result : JobResult) :
    (JobCall.perform who refused (.writeResult jobId result) w).2 = w ∨
      (w.job? jobId).isSome = true ∧
        (JobCall.perform who refused (.writeResult jobId result) w).2 =
          w.settledWith jobId who result := by
  show (refusable refused w (w.writeResult who jobId result)).2 = w ∨ _ ∧
    (refusable refused w (w.writeResult who jobId result)).2 = _
  cases refused with
  | true => exact .inl rfl
  | false =>
    rw [refusable, if_neg Bool.false_ne_true, World.writeResult]
    cases hjob : w.job? jobId with
    | none => exact .inl rfl
    | some job =>
      dsimp only
      split_ifs
      · exact .inr ⟨rfl, rfl⟩
      · exact .inl rfl

/-- What a thread knows of a finalization under way that has recorded nothing yet. -/
structure Opened [PyCoerce] [TextPatterns] [JsonScan] (who : Caller) (jobId : String)
    (w : World) : Prop where
  metered : w.Metered
  mine : (jobId, who) ∈ w.unfinished
  empty : w.entries jobId = []

/-- The usage of the job has been recorded. -/
structure Counted [PyCoerce] [TextPatterns] [JsonScan] (who : Caller) (jobId : String)
    (w : World) : Prop where
  metered : w.Metered
  mine : (jobId, who) ∈ w.unfinished
  counted : w.entries jobId = (w.usage jobId).toList

section Rules

variable [PyCoerce] [TextPatterns] [JsonScan] {who : Caller} {jobId : String}

theorem stable_metered : (meterSetting who).Stable World.Metered := fun _ _ h => h.metered

theorem stable_opened : (meterSetting who).Stable (Opened who jobId) := by
  intro w w' hrely h
  obtain ⟨hmine, hentries, -⟩ := hrely.mine jobId h.mine
  exact ⟨hrely.metered h.metered, hmine, hentries.trans h.empty⟩

theorem stable_counted : (meterSetting who).Stable (Counted who jobId) := by
  intro w w' hrely h
  obtain ⟨hmine, hentries, husage⟩ := hrely.mine jobId h.mine
  refine ⟨hrely.metered h.metered, hmine, ?_⟩
  rw [hentries, husage]
  exact h.counted

/-- The log a finalization read is still the one there is. -/
theorem stable_read (usage : Option TokenUsage) :
    (meterSetting who).Stable fun w => Opened who jobId w ∧ w.usage jobId = usage := by
  intro w w' hrely h
  refine ⟨stable_opened w w' hrely h.1, ?_⟩
  rw [(hrely.mine jobId h.1.mine).2.2]
  exact h.2

theorem stable_untouched : (meterSetting .tool).Stable fun w => w.Metered ∧ w.Untouched jobId :=
  fun _ _ hrely h => ⟨hrely.metered h.1, hrely.untouched rfl jobId h.2⟩

theorem rely_perform (other : Caller) (refused : Bool) (c : JobCall) (w : World)
    (hplain : c.plain = true) (hcalm : c.calm = true) :
    Rely other w (c.perform who refused w).2 :=
  (same_perform who refused c w hplain).rely fun _ _ h => untouched_perform who refused c hcalm h

/-- A call, by the world it leaves. -/
theorem meets_call (c : JobCall) {A E : World → Prop} {Q : c.Reply → World → Prop}
    (ha : (meterSetting who).Stable A) (hq : ∀ a, (meterSetting who).Stable (Q a))
    (he : (meterSetting who).Stable E)
    (h : ∀ refused w, A w → ClearCall refused w c → ∃ w', (c.perform who refused w).2 = w' ∧
      (∀ other, other ≠ who → Rely other w w') ∧
      (∀ a, (c.perform who refused w).1 = .ok a → Q a w') ∧
      ∀ e, (c.perform who refused w).1 = .error e → E w') :
    Meets (meterSetting who) A (call c) Q fun _ => E := by
  apply meets_perform c ha hq fun _ => he
  rintro refused w hw ⟨-, hclear⟩
  obtain ⟨w', rfl, hrely, hok, herror⟩ := h refused w hw hclear
  exact ⟨hrely, hok, herror⟩

theorem Rely.refl (other : Caller) (w : World) : Rely other w w :=
  ⟨fun h => h, fun _ hj => ⟨hj, rfl, rfl⟩, fun _ _ h => h⟩

/-- A call that leaves logs, results, recordings and processes alone keeps what is known. -/
theorem meets_calm (c : JobCall) {A : World → Prop} (ha : (meterSetting who).Stable A)
    (hplain : c.plain = true) (hcalm : c.calm = true) :
    Meets (meterSetting who) A (call c) (fun _ => A) fun _ => A := by
  apply meets_call c ha (fun _ => ha) ha
  intro refused w hw _
  have hafter : A (c.perform who refused w).2 :=
    ha w _ (rely_perform who refused c w hplain hcalm) hw
  exact ⟨_, rfl, fun other _ => rely_perform other refused c w hplain hcalm, fun _ _ => hafter,
    fun _ _ => hafter⟩

/-- A log is read. -/
theorem meets_readStdout :
    Meets (meterSetting who) (Opened who jobId) (readStdout jobId)
      (fun stdout w => Opened who jobId w ∧ w.usage jobId = loggedUsage stdout)
      fun _ => World.Metered := by
  apply meets_call (.readStdout jobId) stable_opened (fun _ => stable_read _) stable_metered
  intro refused w hw _
  refine ⟨w, rfl, fun other _ => .refl other w, ?_, fun _ h => nomatch h⟩
  intro stdout h
  rw [← Except.ok.inj h]
  exact ⟨hw, rfl⟩

/-- The check at the start of a finalization. -/
theorem meets_checkSettled (terminal : Bool) :
    Meets (meterSetting who) World.Metered (checkSettled jobId terminal)
      (fun existing w => w.Metered ∧ (settledBy existing terminal = false → Opened who jobId w))
      fun _ => World.Metered := by
  apply meets_call (.checkSettled jobId terminal) stable_metered
    (fun _ => stable_metered.and (Setting.Stable.imp _ fun _ => stable_opened)) stable_metered
  intro refused w hm hclear
  cases hset : settledBy ((w.job? jobId).bind Job.result) terminal with
  | true =>
    refine ⟨w, if_pos hset, fun other _ => .refl other w, ?_, fun _ h => nomatch h⟩
    intro existing h
    rw [← Except.ok.inj h]
    exact ⟨hm, fun hopen => nomatch hset.symm.trans hopen⟩
  | false =>
    have hbegin : w.usage jobId ≠ none → ¬w.Begun jobId := hclear hset
    refine ⟨w.enters jobId who, if_neg (Bool.eq_false_iff.mp hset),
      fun other _ => enters_rely who other jobId hbegin, ?_, fun _ h => nomatch h⟩
    intro existing _
    have hmetered := enters_metered who jobId hm hbegin
    refine ⟨hmetered, fun _ => ⟨hmetered, List.mem_cons_self .., ?_⟩⟩
    show w.entries jobId = []
    obtain hnone | ⟨hbegun, heq⟩ := hm.once jobId
    · exact hnone
    · rw [heq, not_not.mp fun hsome => hbegin hsome hbegun]
      rfl

/-- The usage that was read is recorded. -/
theorem meets_recordUsage (usage : Option TokenUsage) :
    Meets (meterSetting who) (fun w => Opened who jobId w ∧ w.usage jobId = usage)
      (recordUsage jobId usage) (fun _ => Counted who jobId) fun _ => World.Metered := by
  apply meets_call (.recordUsage jobId usage) (stable_read usage) (fun _ => stable_counted)
    stable_metered
  rintro refused w ⟨hopen, rfl⟩ -
  have hrely : ∀ other, other ≠ who → Rely other w (w.recorded jobId (w.usage jobId)) :=
    fun other hne => recorded_rely hopen.metered hopen.mine hopen.empty hne
  refine ⟨w.recorded jobId (w.usage jobId), rfl, hrely, ?_, fun _ h => nomatch h⟩
  intro _ _
  refine ⟨recorded_metered hopen.metered hopen.mine hopen.empty, hopen.mine, ?_⟩
  show (w.recorded jobId (w.usage jobId)).entries jobId = (w.usage jobId).toList
  rw [entries_recorded, if_pos rfl, hopen.empty, List.nil_append]

/-- A result is written where the usage has been recorded. -/
theorem meets_writeResult (result : JobResult) {A : World → Prop}
    (ha : (meterSetting who).Stable A) (hm : ∀ w, A w → w.Metered)
    (hcounted : ∀ w, A w → w.entries jobId = (w.usage jobId).toList) :
    Meets (meterSetting who) A (writeResult jobId result) (fun _ => World.Metered)
      fun _ => World.Metered := by
  apply meets_call (.writeResult jobId result) ha (fun _ => stable_metered) stable_metered
  intro refused w hw _
  have hmetered := hm w hw
  have hrecorded := hcounted w hw
  obtain hsame | ⟨hthere, hwritten⟩ := writeResult_cases who jobId w refused result
  · exact ⟨w, hsame, fun other _ => .refl other w, fun _ _ => hmetered, fun _ _ => hmetered⟩
  · have hafter : (w.settledWith jobId who result).Metered :=
      settledWith_metered hmetered result hthere hrecorded
    exact ⟨w.settledWith jobId who result, hwritten,
      fun other hne => settledWith_rely result hmetered hthere hrecorded hne,
      fun _ _ => hafter, fun _ _ => hafter⟩

/-- A log is written by the tool. -/
def World.logged (w : World) (jobId text : String) : World :=
  w.modify jobId fun job => { job with stdout := text }

theorem meets_writeStdout (text : String) :
    Meets (meterSetting .tool) World.Metered (writeStdout jobId text) (fun _ => World.Metered)
      fun _ => World.Metered := by
  apply meets_call (.writeStdout jobId text) stable_metered (fun _ => stable_metered)
    stable_metered
  intro refused w hm hclear
  cases refused with
  | true => exact ⟨w, rfl, fun other _ => .refl other w, fun _ _ => hm, fun _ _ => hm⟩
  | false =>
    have hbegun : (w.logged jobId text).usage jobId ≠ w.usage jobId → ¬w.Begun jobId := by
      intro hne
      apply hclear rfl
      intro heq
      apply hne
      rw [World.usage, World.stdoutOf, World.logged, World.job?_modify, if_pos rfl]
      cases hjob : w.job? jobId with
      | none =>
        rw [World.usage, World.stdoutOf, hjob]
        rfl
      | some job => exact heq
    have hafter : (w.logged jobId text).Metered :=
      (logged_metered hm jobId (fun job => { job with stdout := text }) (fun _ => rfl) hbegun).1
    refine ⟨w.logged jobId text, rfl, ?_, fun _ _ => hafter, fun _ _ => hafter⟩
    intro other hother
    exact logged_rely other jobId (fun job => { job with stdout := text }) (fun _ => rfl) hm hbegun
      fun h => absurd h hother

/-- A process is started by the tool, which knows its job to be untouched until then. -/
theorem meets_start (c : JobCall) (hplain : c.plain = true)
    (hrefused : ∀ w, c.perform .tool true w = (.error .osError, w))
    (hstarted : ∀ w e, (c.perform .tool false w).1 ≠ .error e) :
    Meets (meterSetting .tool) (fun w => w.Metered ∧ w.Untouched jobId) (call c)
      (fun _ => World.Metered) fun _ w => w.Metered ∧ w.Untouched jobId := by
  apply meets_call c stable_untouched (fun _ => stable_metered) stable_untouched
  rintro refused w ⟨hm, hu⟩ -
  have hsame := same_perform .tool refused c w hplain
  have hrely : ∀ other, other ≠ Caller.tool → Rely other w (c.perform .tool refused w).2 :=
    fun other hother => hsame.rely fun h => absurd h hother
  refine ⟨(c.perform .tool refused w).2, rfl, hrely, fun _ _ => hsame.keeps hm, ?_⟩
  intro e he
  cases refused with
  | true =>
    rw [hrefused]
    exact ⟨hm, hu⟩
  | false => exact absurd he (hstarted w e)

end Rules

end Elyra.Instrument
