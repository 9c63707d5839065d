import Elyra.Framework.Run
import Elyra.Instrument.GrokBuild
import Elyra.Instrument.Metering

namespace Elyra.Instrument

open Fallible

theorem prints_kept (job : Job) (output : RunOutput) :
    (job.prints output).record = job.record ∧ (job.prints output).result = job.result := by
  unfold Job.prints
  cases job.proc with
  | none => exact ⟨rfl, rfl⟩
  | some p =>
    dsimp only
    split <;> exact ⟨rfl, rfl⟩

theorem timesOut_kept (job : Job) :
    job.timesOut.record = job.record ∧ job.timesOut.result = job.result := by
  unfold Job.timesOut
  cases job.proc with
  | none => exact ⟨rfl, rfl⟩
  | some p =>
    dsimp only
    split <;> exact ⟨rfl, rfl⟩

section Runs

variable [PyCoerce] [TextPatterns] [JsonScan]

section Finalize

variable {who : Caller}

/-- A program that may start where the recordings are right, and leaves them right. -/
abbrev Meters {α : Type} (who : Caller) (m : JobProgram α) : Prop :=
  Meets (meterSetting who) World.Metered m (fun _ => World.Metered) fun _ => World.Metered

theorem meters_pure {α : Type} (a : α) : Meters who (pure a) :=
  meets_pure a stable_metered fun _ h => h

theorem meters_throw {α : Type} (e : JobErr) : Meters (α := α) who (throw e) :=
  meets_throw e stable_metered fun _ h => h

theorem meters_bind {α β : Type} {m : JobProgram α} {f : α → JobProgram β} (hm : Meters who m)
    (hf : ∀ a, Meters who (f a)) : Meters who (m >>= f) :=
  meets_bind hm (fun _ => stable_metered) hf

theorem meters_catch {α : Type} {m : JobProgram α} {f : JobErr → JobProgram α}
    (hm : Meters who m) (hf : ∀ e, Meters who (f e)) : Meters who (tryCatch m f) :=
  meets_catch hm (fun _ => stable_metered) hf

theorem meters_calm (c : JobCall) (hplain : c.plain = true) (hcalm : c.calm = true) :
    Meters who (call c) := meets_calm c stable_metered hplain hcalm

/-- Output is converted: the usage is the one the log reports. -/
theorem meets_fromOutput {α : Type} {A : World → Prop} (ha : (meterSetting who).Stable A)
    (hm : ∀ w, A w → w.Metered) (r : Except OutputErr α) :
    Meets (meterSetting who) A (fromOutput r) (fun a w => r = .ok a ∧ A w)
      fun _ => World.Metered := by
  cases r with
  | ok a => exact meets_pure a ha fun _ hw => ⟨rfl, hw⟩
  | error e => exact meets_throw _ ha hm

theorem meets_calm_bind {α : Type} {A : World → Prop} (c : JobCall) {f : c.Reply → JobProgram α}
    (ha : (meterSetting who).Stable A) (hm : ∀ w, A w → w.Metered) (hplain : c.plain = true)
    (hcalm : c.calm = true)
    (hf : ∀ a, Meets (meterSetting who) A (f a) (fun _ => World.Metered) fun _ => World.Metered) :
    Meets (meterSetting who) A (call c >>= f) (fun _ => World.Metered) fun _ => World.Metered := by
  have hcall : Meets (meterSetting who) A (call c) (fun _ => A) fun _ => World.Metered :=
    (meets_calm c ha hplain hcalm).weaken (fun _ _ hw => hw) fun _ => hm
  exact meets_bind hcall (fun _ => stable_metered) hf

-- What a goal says of a program is not evaluated along the program.
attribute [local irreducible] Program.Meets

theorem meets_finalizeOpen (jobId : String) (record : JobMeta) (args : FinalizeArgs) :
    Meets (meterSetting who) (Opened who jobId) (finalizeOpen jobId record args)
      (fun _ => World.Metered) fun _ => World.Metered := by
  refine meets_bind meets_readStdout (fun _ => stable_metered) ?_
  intro stdout
  have hread : (meterSetting who).Stable fun w =>
      Opened who jobId w ∧ w.usage jobId = loggedUsage stdout := stable_read _
  refine meets_calm_bind (.readStderr jobId) hread (fun _ hw => hw.1.metered) rfl rfl ?_
  intro stderr
  refine meets_bind (meets_fromOutput hread (fun _ hw => hw.1.metered) (parseHeadlessJson stdout))
    (fun _ => stable_metered) ?_
  intro headless
  apply meets_of_fact
  intro hparse
  refine meets_bind (meets_fromOutput hread (fun _ hw => hw.1.metered)
    (adaptHeadlessUsage headless)) (fun _ => stable_metered) ?_
  intro usage
  apply meets_of_fact
  intro hadapt
  have husage : loggedUsage stdout = usage := by
    have hlogged : (do adaptHeadlessUsage (← parseHeadlessJson stdout) : Except OutputErr _) =
        .ok usage := by
      rw [hparse]
      exact hadapt
    rw [loggedUsage, hlogged]
  rw [husage]
  refine meets_bind (meets_recordUsage usage) (fun _ => stable_metered) ?_
  intro _
  refine meets_calm_bind (.listArtifacts jobId) stable_counted (fun _ hw => hw.metered) rfl rfl ?_
  intro found
  refine meets_bind (meets_writeResult _ stable_counted (fun _ hw => hw.metered)
    fun _ hw => hw.counted) (fun _ => stable_metered) ?_
  intro _
  refine meters_bind (meters_calm (.updateJob jobId _) rfl rfl) ?_
  intro updated
  refine meters_bind (meters_calm (.shredTokens jobId) rfl rfl) ?_
  intro _
  exact meters_pure _

theorem meters_finalizeJob (jobId : String) (args : FinalizeArgs) :
    Meters who (finalizeJob jobId args) := by
  refine meters_bind (meters_calm (.loadJob jobId) rfl rfl) ?_
  intro record
  cases record with
  | none => exact meters_throw _
  | some record =>
    refine meets_bind (meets_checkSettled record.status.terminal) (fun _ => stable_metered) ?_
    intro existing
    have hstable : (meterSetting who).Stable fun w => w.Metered ∧
        (settledBy existing record.status.terminal = false → Opened who jobId w) :=
      stable_metered.and (Setting.Stable.imp _ fun _ => stable_opened)
    cases existing with
    | none => exact (meets_finalizeOpen jobId record args).strengthen hstable fun _ hw => hw.2 rfl
    | some existing =>
      show Meets _ _ (if record.status.terminal = true then _ else _) _ _
      by_cases hterm : record.status.terminal = true
      · rw [if_pos hterm]
        have hshred : Meters who (do
            shredTokens jobId
            return (record, existing)) := by
          refine meters_bind (meters_calm (.shredTokens jobId) rfl rfl) ?_
          intro _
          exact meters_pure _
        exact Meets.strengthen hshred hstable fun _ hw => hw.1
      · rw [if_neg hterm]
        have hopen : settledBy (some existing) record.status.terminal = false :=
          Bool.eq_false_iff.mpr hterm
        exact (meets_finalizeOpen jobId record args).strengthen hstable fun _ hw => hw.2 hopen

end Finalize

section Reaper

theorem meters_enqueueCompletion (record : JobMeta) (status : JobStatus) :
    Meters .reaper (enqueueCompletion record status) := by
  refine meters_bind (meters_calm (.claimWake record.jobId) rfl rfl) ?_
  intro fresh
  cases fresh with
  | true =>
    refine meters_catch (meters_calm (.enqueue _) rfl rfl) ?_
    intro _
    exact meters_calm (.forgetWake record.jobId) rfl rfl
  | false => exact meters_pure _

theorem meters_finalizeThen (jobId : String) (args : FinalizeArgs) :
    Meters .reaper (do
      let (updated, _) ← finalizeJob jobId args
      enqueueCompletion updated updated.status
      return true) := by
  refine meters_bind (meters_finalizeJob jobId args) ?_
  intro found
  refine meters_bind (meters_enqueueCompletion found.1 found.1.status) ?_
  intro _
  exact meters_pure _

theorem meters_handleOverdue (record : JobMeta) : Meters .reaper (handleOverdue record) := by
  refine meters_bind (meters_calm (.killPgid record.pid) rfl rfl) ?_
  intro _
  refine meters_bind (meters_calm (.reapInstrumentPid record.pid) rfl rfl) ?_
  intro reaped
  exact meters_finalizeThen record.jobId _

theorem meters_markFromResult (record : JobMeta) (existing : JobResult) :
    Meters .reaper (markFromResult record existing) := by
  refine meters_bind (meters_calm (.updateJob record.jobId _) rfl rfl) ?_
  intro updated
  refine meters_bind (meters_calm (.shredTokens record.jobId) rfl rfl) ?_
  intro _
  refine meters_bind (meters_enqueueCompletion updated existing.markedStatus) ?_
  intro _
  exact meters_pure _

theorem meters_handleDead (record : JobMeta) (reaped : Option Int) :
    Meters .reaper (handleDead record reaped) := by
  have hfinalize : Meters .reaper (finalizeDead record reaped) :=
    meters_finalizeThen record.jobId _
  refine meters_bind (meters_calm (.loadResult record.jobId) rfl rfl) ?_
  intro existing
  cases existing with
  | some existing => exact meters_markFromResult record existing
  | none =>
    show Meters .reaper (if record.pid = none then _ else _)
    split_ifs
    · refine meters_bind (meters_calm (.readStdout record.jobId) rfl rfl) ?_
      intro stdout
      split_ifs
      · exact meters_pure _
      · exact hfinalize
    · exact hfinalize

theorem meters_handleRunning (record : JobMeta) : Meters .reaper (handleRunning record) := by
  refine meters_bind (meters_calm .now rfl rfl) ?_
  intro now
  split_ifs
  · exact meters_handleOverdue record
  · refine meters_bind (meters_calm (.reapInstrumentPid record.pid) rfl rfl) ?_
    intro reaped
    cases reaped with
    | some code => exact meters_handleDead record (some code)
    | none =>
      refine meters_bind (meters_calm (.isPidAlive record.pid) rfl rfl) ?_
      intro alive
      cases alive with
      | true => exact meters_pure _
      | false => exact meters_handleDead record none

theorem meters_loadJobs (jobIds : List String) : Meters .reaper (loadJobs jobIds) := by
  induction jobIds with
  | nil => exact meters_pure _
  | cons jobId jobIds ih =>
    refine meters_bind (meters_calm (.loadJob jobId) rfl rfl) ?_
    intro record
    refine meters_bind ih ?_
    intro records
    exact meters_pure _

theorem meters_handleAll (records : List JobMeta) : Meters .reaper (handleAll records) := by
  induction records with
  | nil => exact meters_pure _
  | cons record records ih =>
    refine meters_bind (meters_catch (meters_handleRunning record) fun _ => meters_pure _) ?_
    intro _
    exact ih

theorem meters_pollRunning : Meters .reaper pollRunning := by
  refine meters_bind (meters_calm .listJobs rfl rfl) ?_
  intro jobIds
  refine meters_bind (meters_loadJobs jobIds) ?_
  intro records
  exact meters_handleAll _

end Reaper

section Tool

theorem meters_quietly {α : Type} {m : JobProgram α} (hm : Meters .tool m) :
    Meters .tool (quietly m) := by
  refine meters_catch (meters_bind hm fun _ => meters_pure _) ?_
  intro _
  exact meters_pure _

theorem meters_finalizeReply (jobId : String) (args : FinalizeArgs) :
    Meters .tool (finalizeReply jobId args) := by
  refine meters_catch (meters_bind (meters_finalizeJob jobId args) fun _ => meters_pure _) ?_
  intro _
  exact meters_pure _

theorem meters_finalizeSync (jobId : String) (r : ProcessResult) :
    Meters .tool (finalizeSync jobId r) := by
  have hlogs : Meters .tool (do
      writeStdout jobId r.stdout
      writeStderr jobId r.stderr) := by
    refine meters_bind (meets_writeStdout r.stdout) ?_
    intro _
    exact meters_calm (.writeStderr jobId r.stderr) rfl rfl
  refine meters_bind (meters_quietly hlogs) ?_
  intro _
  refine meters_catch (meters_bind (meters_finalizeJob jobId _) fun _ => meters_pure _) ?_
  intro _
  refine meters_bind (meters_calm (.shredTokens jobId) rfl rfl) ?_
  intro _
  exact meters_pure _

theorem meters_pollJob (jobId : String) : Meters .tool (pollJob jobId) := by
  refine meters_bind (meters_calm (.loadJob jobId) rfl rfl) ?_
  intro record
  cases record with
  | none => exact meters_pure _
  | some record =>
    refine meters_bind (meters_calm (.loadResult jobId) rfl rfl) ?_
    intro existing
    cases existing with
    | some result => exact meters_pure _
    | none =>
      show Meters .tool (if _ then _ else _)
      split_ifs
      · refine meters_bind (meters_calm (.reapInstrumentPid record.pid) rfl rfl) ?_
        intro reaped
        cases reaped with
        | some code => exact meters_finalizeReply jobId _
        | none =>
          refine meters_bind (meters_calm (.isPidAlive record.pid) rfl rfl) ?_
          intro alive
          cases alive with
          | true => exact meters_pure _
          | false => exact meters_finalizeReply jobId _
      · exact meters_pure _

/-- A job the tool made and has started nothing for. -/
def Fresh (jobId : String) (w : World) : Prop := w.Metered ∧ w.Untouched jobId

theorem meets_terminalizeOrphan (jobId : String) (mode : Mode) (reason : String) :
    Meets (meterSetting .tool) (Fresh jobId) (terminalizeOrphan jobId mode reason)
      (fun _ => World.Metered) fun _ => World.Metered := by
  have hfresh : (meterSetting .tool).Stable (Fresh jobId) := stable_untouched
  refine meets_calm_bind (.updateJob jobId _) hfresh (fun _ hw => hw.1) rfl rfl ?_
  intro _
  have hnothing : ∀ w, Fresh jobId w → w.entries jobId = (w.usage jobId).toList := by
    rintro w ⟨hm, job, hjob, -, hempty⟩
    have husage : w.usage jobId = none := by
      rw [World.usage, World.stdoutOf, hjob]
      show loggedUsage job.stdout = none
      rw [hempty, loggedUsage_empty]
    obtain hnone | ⟨-, heq⟩ := hm.once jobId
    · rw [hnone, husage]
      rfl
    · exact heq
  refine meets_bind (meets_writeResult _ hfresh (fun _ hw => hw.1) hnothing)
    (fun _ => stable_metered) ?_
  intro _
  refine meters_bind (meters_calm (.shredTokens jobId) rfl rfl) ?_
  intro _
  exact meters_pure _

/-- A step of the spawn path: it leaves a job that failed to start untouched. -/
theorem meets_orOrphan {α : Type} {jobId : String} {mode : Mode} {reason : String}
    {m : JobProgram α} {next : α → JobProgram ToolReply} {B : World → Prop}
    (hb : (meterSetting .tool).Stable B)
    (hm : Meets (meterSetting .tool) (Fresh jobId) m (fun _ => B) fun _ => Fresh jobId)
    (hnext : ∀ a, Meets (meterSetting .tool) B (next a) (fun _ => World.Metered)
      fun _ => World.Metered) :
    Meets (meterSetting .tool) (Fresh jobId) (orOrphan jobId mode reason m next)
      (fun _ => World.Metered) fun _ => World.Metered := by
  have hfresh : (meterSetting .tool).Stable (Fresh jobId) := stable_untouched
  let after : Option α → World → Prop := fun outcome w =>
    if outcome.isSome then B w else Fresh jobId w
  have hafter : ∀ outcome, (meterSetting .tool).Stable (after outcome) := by
    intro outcome
    cases outcome with
    | none => exact hfresh
    | some a => exact hb
  have hsome : Meets (meterSetting .tool) (Fresh jobId) (do
      let a ← m
      return some a) after fun _ => Fresh jobId := by
    refine meets_bind hm (fun _ => hfresh) ?_
    intro a
    exact meets_pure _ hb fun _ hw => hw
  have htried : Meets (meterSetting .tool) (Fresh jobId) (tryCatch (do
      let a ← m
      return some a) fun _ => return none) after fun _ => World.Metered := by
    refine meets_catch hsome hafter ?_
    intro _
    exact meets_pure _ hfresh fun _ hw => hw
  refine meets_bind htried (fun _ => stable_metered) ?_
  intro outcome
  cases outcome with
  | none => exact meets_terminalizeOrphan jobId mode reason
  | some a => exact hnext a

theorem meets_spawnPath (jobId : String) (mode : Mode) :
    Meets (meterSetting .tool) (Fresh jobId) (spawnPath jobId mode) (fun _ => World.Metered)
      fun _ => World.Metered := by
  refine meets_orOrphan stable_metered ?_ ?_
  · exact meets_start (.spawnGrok jobId) rfl (fun _ => rfl) fun _ _ => nofun
  · intro pid
    refine meters_bind (meters_quietly (meters_calm (.updateJob jobId _) rfl rfl)) ?_
    intro _
    exact meters_pure _

/-- The tool waits for its process, and gets an answer. -/
theorem meets_communicate (jobId : String) :
    Meets (meterSetting .tool) World.Metered (call (.communicate jobId)) (fun _ => World.Metered)
      fun _ => Fresh jobId := by
  apply meets_perform (.communicate jobId) stable_metered (fun _ => stable_metered)
    fun _ => stable_untouched
  rintro refused w hm ⟨hblocked, -⟩
  have hsame : Same w (JobCall.perform .tool refused (.communicate jobId) w).2 :=
    same_perform .tool refused (.communicate jobId) w rfl
  refine ⟨fun other hother => hsame.rely fun h => absurd h hother, fun _ _ => hsame.keeps hm, ?_⟩
  intro e he
  have hanswer : (w.communicate .tool jobId).1.isNone = false := hblocked rfl
  have herror : (w.communicate .tool jobId).1.elim (Except.error JobErr.osError) Except.ok =
      Except.error e := he
  cases hr : (w.communicate .tool jobId).1 with
  | none =>
    rw [hr] at hanswer
    cases hanswer
  | some r =>
    rw [hr] at herror
    cases herror

theorem meets_runGrok (jobId : String) :
    Meets (meterSetting .tool) (Fresh jobId) (runGrok jobId) (fun _ => World.Metered)
      fun _ => Fresh jobId := by
  have hfresh : (meterSetting .tool).Stable (Fresh jobId) := stable_untouched
  refine meets_bind (meets_start (.startGrok jobId) rfl (fun _ => rfl) fun _ _ => nofun)
    (fun _ => hfresh) ?_
  intro _
  exact meets_communicate jobId

theorem meets_syncPath (jobId : String) (mode : Mode) :
    Meets (meterSetting .tool) (Fresh jobId) (syncPath jobId mode) (fun _ => World.Metered)
      fun _ => World.Metered := by
  refine meets_orOrphan stable_metered (meets_runGrok jobId) ?_
  intro r
  refine meters_bind (meters_quietly (meters_calm (.updateJob jobId _) rfl rfl)) ?_
  intro _
  exact meters_finalizeSync jobId r

/-- The tool makes a job, or finds that there is one. -/
theorem meets_createJob (jobId : String) (mode : Mode) (asyncJob : Bool) :
    Meets (meterSetting .tool) World.Metered (createJob jobId mode asyncJob)
      (fun _ => Fresh jobId) fun _ => World.Metered := by
  apply meets_call (.createJob jobId mode asyncJob) stable_metered (fun _ => stable_untouched)
    stable_metered
  intro refused w hm _
  have hsame := same_perform .tool refused (.createJob jobId mode asyncJob) w rfl
  have hrely : ∀ other, other ≠ Caller.tool →
      Rely other w (JobCall.perform .tool refused (.createJob jobId mode asyncJob) w).2 :=
    fun other hother => hsame.rely fun h => absurd h hother
  refine ⟨_, rfl, hrely, ?_, fun _ _ => hsame.keeps hm⟩
  intro record hrecord
  refine ⟨hsame.keeps hm, ?_⟩
  cases refused with
  | true => cases hrecord
  | false =>
    cases hjob : w.job? jobId with
    | some job =>
      have hthere : (JobCall.perform .tool false (.createJob jobId mode asyncJob) w).1 =
          .error .fileExists := by
        simp only [JobCall.perform, hjob]
        rfl
      rw [hthere] at hrecord
      cases hrecord
    | none =>
      have hmade : (JobCall.perform .tool false (.createJob jobId mode asyncJob) w).2 =
          { w with
            jobs := w.jobs.set jobId
              ⟨newMeta jobId mode asyncJob w.clock, none, "", "", [], none⟩ } := by
        simp only [JobCall.perform, hjob]
        rfl
      rw [hmade]
      refine ⟨⟨newMeta jobId mode asyncJob w.clock, none, "", "", [], none⟩, ?_, rfl, rfl⟩
      exact Dict.get?_set_self w.jobs jobId _

theorem meters_grokBuild (jobId : String) (mode : Mode) (async : Option Bool) :
    Meters .tool (grokBuild jobId mode async) := by
  have hfresh : (meterSetting .tool).Stable (Fresh jobId) := stable_untouched
  let after : Bool → World → Prop := fun created w => if created then Fresh jobId w else w.Metered
  have hafter : ∀ created, (meterSetting .tool).Stable (after created) := by
    intro created
    cases created with
    | true => exact hfresh
    | false => exact stable_metered
  have hcreated : Meets (meterSetting .tool) World.Metered (tryCatch (do
      let _ ← createJob jobId mode (async.getD (defaultsAsync mode))
      return true) fun _ => return false) after fun _ => World.Metered := by
    refine meets_catch (F := fun _ => World.Metered) (meets_bind (meets_createJob jobId mode _)
      (fun _ => stable_metered) ?_) hafter ?_
    · intro _
      exact meets_pure _ hfresh fun _ hw => hw
    · intro _
      exact meets_pure _ stable_metered fun _ hw => hw
  refine meets_bind hcreated (fun _ => stable_metered) ?_
  intro created
  cases created with
  | false => exact meters_pure _
  | true =>
    refine meets_orOrphan hfresh (meets_calm (.seedIsolatedHome jobId) hfresh rfl rfl) ?_
    intro _
    show Meets _ _ (if _ then _ else _) _ _
    split_ifs
    · exact meets_spawnPath jobId mode
    · exact meets_syncPath jobId mode

theorem meters_begin (c : ToolCall) : Meters .tool (Machine.begin c) := by
  cases c with
  | build jobId mode async => exact meters_grokBuild jobId mode async
  | poll jobId => exact meters_pollJob jobId

end Tool

namespace Machine

variable (m : Machine)

/-- A move that neither begins a second finalization of a job with usage, nor changes what the log
of a job reports once a finalization has begun. -/
def Clear : Move → Prop
  | .reaper refused => (nextCall m.reaper).elim True (ClearCall refused m.world)
  | .tool refused =>
    m.toolBlocked = false → (nextCall m.tool).elim True (ClearCall refused m.world)
  | .prints jobId output =>
    (m.world.modify jobId fun job => job.prints output).usage jobId ≠ m.world.usage jobId →
      ¬m.world.Begun jobId
  | _ => True

/-- The recordings are right, and what is left of each thread leaves them right. -/
structure Right : Prop where
  metered : m.world.Metered
  reaper : ∃ A : World → Prop, A m.world ∧
    m.reaper.Meets (meterSetting .reaper) (fun _ => World.Metered) A
  tool : ∃ A : World → Prop, A m.world ∧
    m.tool.Meets (meterSetting .tool) (fun _ => World.Metered) A

variable {m}

/-- What happens beside the threads. -/
theorem Right.beside (h : m.Right) {w : World} (hrely : ∀ who, Rely who m.world w) :
    Right { m with world := w } := by
  obtain ⟨A, ha, hreaper⟩ := h.reaper
  obtain ⟨B, hb, htool⟩ := h.tool
  exact ⟨(hrely .reaper).metered h.metered, ⟨A, hreaper.stable _ _ (hrely .reaper) ha, hreaper⟩,
    ⟨B, htool.stable _ _ (hrely .tool) hb, htool⟩⟩

theorem right_prints (h : m.Right) (jobId : String) (output : RunOutput)
    (hclear : m.Clear (.prints jobId output)) : (m.step (.prints jobId output)).Right := by
  apply h.beside
  intro who
  refine logged_rely who jobId (fun job => job.prints output)
    (fun job => (prints_kept job output).2) h.metered hclear ?_
  intro _ j hj
  apply untouched_modify jobId (fun job => job.prints output) ?_ ?_ hj
  · intro job hnone
    show (Job.prints job output).stdout = _
    rw [Job.prints, hnone]
  · intro job hnone
    show (Job.prints job output).proc = none
    rw [Job.prints, hnone]
    exact hnone

theorem right_exits (h : m.Right) (jobId : String) (code : Int) :
    (m.step (.exits jobId code)).Right := by
  apply h.beside
  intro who
  exact (same_modifyProc m.world jobId fun p => p.exits code).rely fun _ _ hj =>
    untouched_modifyProc jobId _ hj

omit [PyCoerce] [TextPatterns] [JsonScan] in
theorem timesOut_stdout (job : Job) : job.timesOut.stdout = job.stdout := by
  unfold Job.timesOut
  cases job.proc with
  | none => rfl
  | some p =>
    dsimp only
    split_ifs <;> rfl

theorem right_timesOut (h : m.Right) (jobId : String) : (m.step (.timesOut jobId)).Right := by
  apply h.beside
  intro who
  have hsame : Same m.world (m.world.modify jobId Job.timesOut) :=
    same_modify m.world jobId _ timesOut_stdout fun job =>
      congrArg Option.isSome (timesOut_kept job).2
  refine hsame.rely fun _ j hj => untouched_modify jobId Job.timesOut ?_ ?_ hj
  · exact fun job _ => timesOut_stdout job
  · intro job hnone
    rw [Job.timesOut, hnone]
    exact hnone

theorem right_reaper (h : m.Right) (refused : Bool) (hclear : m.Clear (.reaper refused)) :
    (m.step (.reaper refused)).Right := by
  obtain ⟨A, ha, hreaper⟩ := h.reaper
  obtain ⟨B, hb, htool⟩ := h.tool
  have hpermits : m.reaper.Permits (meterSetting .reaper) refused m.world := by
    cases hprog : m.reaper with
    | done r => trivial
    | call c next =>
      rw [Clear, hprog] at hclear
      exact ⟨(fun h => nomatch h), hclear⟩
  obtain ⟨hrely, A', ha', hnext⟩ := hreaper.step ha refused hpermits fun other _ => .refl other _
  have hother := hrely .tool (fun h => nomatch h)
  exact ⟨hother.metered h.metered, ⟨A', ha', hnext⟩, ⟨B, htool.stable _ _ hother hb, htool⟩⟩

theorem right_tool (h : m.Right) (refused : Bool) (hclear : m.Clear (.tool refused)) :
    (m.step (.tool refused)).Right := by
  cases hblocked : m.toolBlocked with
  | true =>
    have hsame : m.step (.tool refused) = m := if_pos hblocked
    rw [hsame]
    exact h
  | false =>
    obtain ⟨A, ha, hreaper⟩ := h.reaper
    obtain ⟨B, hb, htool⟩ := h.tool
    have hclear' := hclear hblocked
    have hpermits : m.tool.Permits (meterSetting .tool) refused m.world := by
      cases hprog : m.tool with
      | done r => trivial
      | call c next =>
        rw [hprog] at hclear'
        rw [toolBlocked, hprog] at hblocked
        exact ⟨fun _ => hblocked, hclear'⟩
    obtain ⟨hrely, B', hb', hnext⟩ := htool.step hb refused hpermits fun other _ => .refl other _
    have hother := hrely .reaper (fun h => nomatch h)
    have hright : Right { m with
        world := (m.tool.step (JobCall.perform .tool refused) m.world).2
        tool := (m.tool.step (JobCall.perform .tool refused) m.world).1 } :=
      ⟨hother.metered h.metered, ⟨A, hreaper.stable _ _ hother ha, hreaper⟩, ⟨B', hb', hnext⟩⟩
    have hstep : m.step (.tool refused) = { m with
        world := (m.tool.step (JobCall.perform .tool refused) m.world).2
        tool := (m.tool.step (JobCall.perform .tool refused) m.world).1 } :=
      if_neg (Bool.eq_false_iff.mp hblocked)
    rw [hstep]
    exact hright

/-- A program of a thread that begins anew. -/
theorem meets_begun {who : Caller} {α : Type} {p : JobProgram α} (h : Meters who p) :
    (ExceptT.run p).Meets (meterSetting who) (fun _ => World.Metered) World.Metered := by
  apply Program.Meets.weaken h
  intro r w hw
  cases r with
  | ok a => exact hw
  | error e => exact hw

theorem right_step (m : Machine) (move : Move) (hclear : m.Clear move) (h : m.Right) :
    (m.step move).Right := by
  cases move with
  | reaper refused => exact right_reaper h refused hclear
  | tool refused => exact right_tool h refused hclear
  | beginPoll =>
    show Right (if m.reaper.isDone then { m with reaper := ExceptT.run pollRunning } else m)
    split_ifs
    · exact ⟨h.metered, ⟨_, h.metered, meets_begun meters_pollRunning⟩, h.tool⟩
    · exact h
  | beginCall c =>
    show Right (if m.tool.isDone then { m with tool := ExceptT.run (begin c) } else m)
    split_ifs
    · exact ⟨h.metered, h.reaper, ⟨_, h.metered, meets_begun (meters_begin c)⟩⟩
    · exact h
  | prints jobId output => exact right_prints h jobId output hclear
  | exits jobId code => exact right_exits h jobId code
  | timesOut jobId => exact right_timesOut h jobId
  | passes time =>
    apply h.beside
    intro who
    have hsame : Same m.world { m.world with clock := m.world.clock + time } :=
      ⟨rfl, rfl, fun _ => rfl, fun _ => rfl⟩
    exact hsame.rely fun _ _ hj => hj

theorem right_fresh : Machine.fresh.Right := by
  have hmetered : World.Metered ⟨.empty, [], [], [], [], 0, 0⟩ :=
    ⟨fun _ => .inl rfl, (fun _ h => nomatch h), fun _ _ _ h => nomatch h⟩
  exact ⟨hmetered, ⟨_, hmetered, stable_metered, fun _ h => h⟩,
    ⟨_, hmetered, stable_metered, fun _ h => h⟩⟩

end Machine

/-- In every run of clear moves the tokens of a job are recorded at most once, and once it has its
result they have been. -/
theorem tokens_metered_once (moves : List Move)
    (hclear : Along Machine.step Machine.Clear Machine.fresh moves) (jobId : String) :
    ((run Machine.step Machine.fresh moves).world.tokensOf jobId = 0 ∨
      (run Machine.step Machine.fresh moves).world.tokensOf jobId =
        (run Machine.step Machine.fresh moves).world.billed jobId) ∧
    ((run Machine.step Machine.fresh moves).world.hasResult jobId = true →
      (run Machine.step Machine.fresh moves).world.tokensOf jobId =
        (run Machine.step Machine.fresh moves).world.billed jobId) := by
  have hright : (run Machine.step Machine.fresh moves).Right :=
    hclear.invariant Machine.Right (fun m move hmove h => Machine.right_step m move hmove h) _ _
      Machine.right_fresh
  have hbilled : ∀ w : World, w.entries jobId = (w.usage jobId).toList →
      w.tokensOf jobId = w.billed jobId := by
    intro w h
    rw [World.tokensOf, h, World.billed]
    cases w.usage jobId with
    | none => rfl
    | some usage => exact Nat.add_zero _
  constructor
  · obtain hnone | ⟨-, heq⟩ := hright.metered.once jobId
    · left
      rw [World.tokensOf, hnone]
      rfl
    · exact .inr (hbilled _ heq)
  · exact fun hresult => hbilled _ (hright.metered.settled jobId hresult)

end Runs

section Sample

attribute [local instance] basicCoerce basicPatterns basicScan

instance decidableBegun (w : World) (jobId : String) : Decidable (w.Begun jobId) :=
  decidable_of_iff (w.unfinished.any (fun e => e.1 = jobId) = true ∨ w.hasResult jobId = true) (by
    rw [List.any_eq_true]
    constructor
    · rintro (⟨⟨j, who⟩, hmem, hj⟩ | hresult)
      · obtain rfl : j = jobId := of_decide_eq_true hj
        exact .inl ⟨who, hmem⟩
      · exact .inr hresult
    · rintro (⟨who, hmem⟩ | hresult)
      · exact .inl ⟨(jobId, who), hmem, decide_eq_true rfl⟩
      · exact .inr hresult)

instance decidableClearCall (refused : Bool) (w : World) :
    ∀ c, Decidable (ClearCall refused w c)
  | .checkSettled j terminal =>
    inferInstanceAs (Decidable (settledBy ((w.job? j).bind Job.result) terminal = false →
      w.usage j ≠ none → ¬w.Begun j))
  | .writeStdout j text =>
    inferInstanceAs (Decidable (refused = false → loggedUsage text ≠ w.usage j → ¬w.Begun j))
  | .listJobs | .loadJob _ | .loadResult _ | .readStdout _ | .readStderr _ | .recordUsage _ _
  | .listArtifacts _ | .writeResult _ _ | .updateJob _ _ | .shredTokens _ | .createJob _ _ _
  | .seedIsolatedHome _ | .spawnGrok _ | .startGrok _ | .communicate _ | .writeStderr _ _
  | .reapInstrumentPid _ | .isPidAlive _ | .killPgid _ | .now | .claimWake _ | .forgetWake _
  | .enqueue _ => isTrue trivial

instance decidableClearNext (refused : Bool) (w : World) :
    ∀ c : Option JobCall, Decidable (c.elim True (ClearCall refused w))
  | none => isTrue trivial
  | some c => decidableClearCall refused w c

instance decidableClear (m : Machine) : ∀ move, Decidable (m.Clear move)
  | .reaper refused => decidableClearNext refused m.world (nextCall m.reaper)
  | .tool refused =>
    inferInstanceAs (Decidable (m.toolBlocked = false →
      (nextCall m.tool).elim True (ClearCall refused m.world)))
  | .prints jobId output =>
    inferInstanceAs (Decidable ((m.world.modify jobId fun job => job.prints output).usage jobId ≠
      m.world.usage jobId → ¬m.world.Begun jobId))
  | .beginPoll | .beginCall _ | .exits _ _ | .timesOut _ | .passes _ => isTrue trivial

/-- An asynchronous run that prints its usage and ends. -/
def oneRun : List Move :=
  .beginCall (.build "job-1" .prompt (some true)) :: List.replicate 4 (.tool false) ++
    [.prints "job-1" ⟨"\x7b\"usage\": \x7b\"input_tokens\": 7\x7d\x7d", "", [], []⟩,
      .exits "job-1" 0]

/-- A poll that finds the run ended, up to the write of its result. -/
def pollWrites (reads : Nat) (refused : Bool) : List Move :=
  .beginPoll :: List.replicate reads (.reaper false) ++ [.reaper refused]

theorem tokens_metered_once_sample :
    (run Machine.step Machine.fresh (oneRun ++ pollWrites 11 false)).world.tokensOf "job-1" =
      (run Machine.step Machine.fresh (oneRun ++ pollWrites 11 false)).world.billed "job-1" :=
  (tokens_metered_once (oneRun ++ pollWrites 11 false) (by decide +kernel) "job-1").2
    (by decide +kernel)

/-- The write of the result is refused, and the next poll records the usage again. -/
theorem refused_write_records_twice : ¬∀ (moves : List Move) (jobId : String),
    (run Machine.step Machine.fresh moves).world.hasResult jobId = true →
      (run Machine.step Machine.fresh moves).world.tokensOf jobId =
        (run Machine.step Machine.fresh moves).world.billed jobId := by
  intro hall
  have hsame := hall (oneRun ++ pollWrites 11 true ++ pollWrites 12 false) "job-1"
    (by decide +kernel)
  have htwice : (run Machine.step Machine.fresh
      (oneRun ++ pollWrites 11 true ++ pollWrites 12 false)).world.tokensOf "job-1" = 14 := by
    decide +kernel
  have honce : (run Machine.step Machine.fresh
      (oneRun ++ pollWrites 11 true ++ pollWrites 12 false)).world.billed "job-1" = 7 := by
    decide +kernel
  rw [htwice, honce] at hsame
  cases hsame

end Sample

end Elyra.Instrument
