import Elyra.Instrument.Reaper
import Elyra.Instrument.UsageBridge

namespace Elyra.Instrument

open Json Fallible

section Scan

variable [JsonScan]

def object? (text : String) : Option Members :=
  match JsonScan.loads text with
  | .ok (.obj kvs) => some kvs
  | _ => none

/-- `json.loads` raises something else than `JSONDecodeError`. -/
def raises (text : String) : Option OutputErr :=
  match JsonScan.loads text with
  | .error (.other e) => some e
  | _ => none

theorem scanObject_eq (text : String) : scanObject text =
    match raises text with
    | some e => .error e
    | none => .ok (object? text) := by
  unfold scanObject raises object?
  cases JsonScan.loads text with
  | ok v => cases v <;> rfl
  | error e => cases e <;> rfl

/-- The lines that are tried: all up to the first that is an object. -/
def triedLines : List String → List String
  | [] => []
  | line :: lines => line :: if (object? line).isSome then [] else triedLines lines

theorem firstObject_ok (lines : List String) (h : ∀ t ∈ triedLines lines, raises t = none) :
    firstObject lines = .ok (lines.findSome? object?) := by
  induction lines with
  | nil => rfl
  | cons line lines ih =>
    have hline := h line (List.mem_cons_self ..)
    rw [firstObject, scanObject_eq, hline, List.findSome?_cons]
    cases hobj : object? line with
    | some kvs => rfl
    | none =>
      refine ih fun t ht => h t (List.mem_cons_of_mem _ ?_)
      rw [hobj]
      exact ht

theorem firstObject_error (lines : List String) (h : ∃ t ∈ triedLines lines, raises t ≠ none) :
    ∃ e, firstObject lines = .error e := by
  induction lines with
  | nil =>
    obtain ⟨t, ht, -⟩ := h
    cases ht
  | cons line lines ih =>
    rw [firstObject, scanObject_eq]
    cases hraises : raises line with
    | some e => exact ⟨e, rfl⟩
    | none =>
      obtain ⟨t, ht, hne⟩ := h
      obtain rfl | ht := List.mem_cons.mp ht
      · exact absurd hraises hne
      · cases hobj : object? line with
        | some kvs =>
          rw [hobj] at ht
          cases ht
        | none =>
          rw [hobj] at ht
          exact ih ⟨t, ht, hne⟩

variable [TextPatterns]

def trimmed (stdout : String) : String := String.ofList (strip stdout.toList)

/-- The texts that are tried: the whole output, then its lines. -/
def triedTexts (stdout : String) : List String :=
  if trimmed stdout = "" then []
  else
    trimmed stdout ::
      if (object? (trimmed stdout)).isSome then [] else triedLines (objectLines (trimmed stdout))

/-- The object the logs report, where no text that is tried raises. -/
def headlessOf (stdout : String) : Option Members :=
  if trimmed stdout = "" then none
  else (object? (trimmed stdout)).or ((objectLines (trimmed stdout)).findSome? object?)

theorem parseHeadlessJson_ok (stdout : String) (h : ∀ t ∈ triedTexts stdout, raises t = none) :
    parseHeadlessJson stdout = .ok (headlessOf stdout) := by
  unfold parseHeadlessJson headlessOf triedTexts at *
  dsimp only
  change (if trimmed stdout = "" then _ else _) = _
  by_cases hblank : trimmed stdout = ""
  · rw [if_pos hblank, if_pos hblank]
  rw [if_neg hblank] at h
  rw [if_neg hblank, if_neg hblank]
  have hwhole := h (trimmed stdout) (List.mem_cons_self ..)
  have htrimmed : String.ofList (strip stdout.toList) = trimmed stdout := rfl
  rw [htrimmed, scanObject_eq, hwhole]
  cases hobj : object? (trimmed stdout) with
  | some kvs => rfl
  | none =>
    refine firstObject_ok _ fun t ht => h t (List.mem_cons_of_mem _ ?_)
    rw [hobj]
    exact ht

theorem parseHeadlessJson_error (stdout : String) (h : ∃ t ∈ triedTexts stdout, raises t ≠ none) :
    ∃ e, parseHeadlessJson stdout = .error e := by
  obtain ⟨t, ht, hne⟩ := h
  unfold triedTexts at ht
  by_cases hblank : trimmed stdout = ""
  · rw [if_pos hblank] at ht
    cases ht
  rw [if_neg hblank] at ht
  unfold parseHeadlessJson
  dsimp only
  change ∃ e, (if trimmed stdout = "" then _ else _) = _
  have htrimmed : String.ofList (strip stdout.toList) = trimmed stdout := rfl
  rw [if_neg hblank, htrimmed, scanObject_eq]
  cases hraises : raises (trimmed stdout) with
  | some e => exact ⟨e, rfl⟩
  | none =>
    obtain rfl | ht := List.mem_cons.mp ht
    · exact absurd hraises hne
    · cases hobj : object? (trimmed stdout) with
      | some kvs =>
        rw [hobj] at ht
        cases ht
      | none =>
        rw [hobj] at ht
        exact firstObject_error _ ⟨t, ht, hne⟩

end Scan

section Outcome

theorem resolve_terminal (harvest : Harvest) (code : Option Int) :
    (resolveStatusFromHarvest harvest code).terminal = true := by
  unfold resolveStatusFromHarvest
  split_ifs <;> rfl

theorem resolve_completed {harvest : Harvest} {code : Option Int}
    (h : resolveStatusFromHarvest harvest code = .completed) : code = some 0 ∨ code = none := by
  unfold resolveStatusFromHarvest at h
  split_ifs at h with hhuman hmissing hcode
  simpa using hcode

/-- No caller passes a status that is not terminal, nor `completed`. -/
def FinalizeArgs.Lawful (args : FinalizeArgs) : Prop :=
  args.statusOverride = none ∨ args.statusOverride = some .failed

/-- The status is terminal, and `completed` only with an exit code of 0 or none. -/
theorem decideStatus_lawful {args : FinalizeArgs} (hargs : args.Lawful) (code : Option Int)
    (classified : Option (String × String)) (harvest : Harvest) :
    (decideStatus args code classified harvest).1.terminal = true ∧
      ((decideStatus args code classified harvest).1 = .completed →
        code = some 0 ∨ code = none) := by
  unfold decideStatus
  obtain hnone | hfailed := hargs
  · rw [hnone]
    dsimp only
    by_cases htimed : args.timedOut = true
    · rw [if_pos htimed]
      exact ⟨rfl, fun h => (nomatch h)⟩
    rw [if_neg htimed]
    by_cases hinterrupted : args.errorReason = some "interrupted"
    · rw [if_pos hinterrupted]
      exact ⟨rfl, fun h => (nomatch h)⟩
    rw [if_neg hinterrupted]
    cases classified with
    | some reason => exact ⟨rfl, fun h => (nomatch h)⟩
    | none =>
      have hterm := resolve_terminal harvest code
      have hdone := @resolve_completed harvest code
      dsimp only
      cases hresolve : resolveStatusFromHarvest harvest code with
      | running => rw [hresolve] at hterm; cases hterm
      | completed => exact ⟨rfl, fun _ => hdone hresolve⟩
      | failed | needsHuman | interrupted => exact ⟨rfl, fun h => (nomatch h)⟩
  · rw [hfailed]
    exact ⟨rfl, fun h => (nomatch h)⟩

variable [PyCoerce] [TextPatterns]

variable (mode : Mode) (stdout stderr : String) (headless : Option Members)
  (usage : Option TokenUsage) (found : RunOutput) (args : FinalizeArgs) (code : Option Int)

theorem jobResult_status : (jobResult mode stdout stderr headless usage found args code).status =
    (decideStatus args code (classifyInstrumentFailure stdout stderr headless code)
      (harvestArtifacts mode found stdout)).1 := by
  unfold jobResult
  dsimp only
  split_ifs <;> rfl

theorem jobResult_usage :
    (jobResult mode stdout stderr headless usage found args code).usage = usage := by
  unfold jobResult
  dsimp only
  split_ifs <;> rfl

end Outcome

section Exec

variable (who : Caller)

theorem exec_fromOutput {α : Type} (r : Except OutputErr α) (w : World) :
    exec (JobCall.perform who false) (fromOutput r) w =
      match r with
      | .ok a => (.ok a, w)
      | .error e => (.error (.badOutput e), w) := by
  cases r <;> rfl

variable [PyCoerce] [TextPatterns] [JsonScan] {jobId : String} {w : World} {job : Job}

/-- A finalization whose reads and conversions go well, up to what it writes. -/
theorem exec_finalizeOpen (hjob : w.job? jobId = some job) (record : JobMeta)
    (args : FinalizeArgs) {headless : Option Members} {usage : Option TokenUsage}
    (hscan : parseHeadlessJson job.stdout = .ok headless)
    (husage : adaptHeadlessUsage headless = .ok usage) :
    let found := ((job.proc.map Proc.output).getD emptyOutput)
    let code := args.code record.exitCode
    let result := jobResult record.mode job.stdout job.stderr headless usage found args code
    if usage.all TokenUsage.writable then
      ∃ updated w', exec (JobCall.perform who false) (finalizeOpen jobId record args) w =
          (.ok (updated, result), w') ∧ updated.status = result.status ∧
        w'.metered = w.metered ++ usage.toList.map (fun u => (jobId, u)) ∧
        ∃ job', w'.job? jobId = some job' ∧ job'.record = updated ∧ job'.tokens = []
    else exec (JobCall.perform who false) (finalizeOpen jobId record args) w =
      (.error (.badOutput .valueError), w.recorded jobId usage) := by
  intro found code result
  have hstdout : exec (JobCall.perform who false) (readStdout jobId) w = (.ok job.stdout, w) := by
    show (Except.ok (((w.job? jobId).map Job.stdout).getD ""), w) = _
    rw [hjob]
    rfl
  have hstderr : exec (JobCall.perform who false) (readStderr jobId) w = (.ok job.stderr, w) := by
    show (Except.ok (((w.job? jobId).map Job.stderr).getD ""), w) = _
    rw [hjob]
    rfl
  have hscan' : exec (JobCall.perform who false) (fromOutput (parseHeadlessJson job.stdout)) w =
      (.ok headless, w) := by rw [exec_fromOutput, hscan]
  have husage' : exec (JobCall.perform who false) (fromOutput (adaptHeadlessUsage headless)) w =
      (.ok usage, w) := by rw [exec_fromOutput, husage]
  have hrecord : exec (JobCall.perform who false) (recordUsage jobId usage) w =
      (.ok (), w.recorded jobId usage) := rfl
  have hfound : exec (JobCall.perform who false) (listArtifacts jobId) (w.recorded jobId usage) =
      (.ok found, w.recorded jobId usage) := by
    show (Except.ok ((((w.job? jobId).bind Job.proc).map Proc.output).getD emptyOutput),
      w.recorded jobId usage) = _
    rw [hjob]
    rfl
  unfold finalizeOpen
  rw [exec_bind_ok hstdout, exec_bind_ok hstderr, exec_bind_ok hscan', exec_bind_ok husage',
    exec_bind_ok hrecord, exec_bind_ok hfound]
  have hwritable : result.writable = usage.all TokenUsage.writable := by
    rw [JobResult.writable, jobResult_usage]
  have hthere : (w.recorded jobId usage).job? jobId = some job := hjob
  by_cases hw : usage.all TokenUsage.writable = true
  · rw [if_pos hw]
    generalize hw₂ : ((w.recorded jobId usage).modify jobId fun job =>
      { job with result := some result }).leaves jobId who = w₂
    have hwrite : exec (JobCall.perform who false) (writeResult jobId result)
        (w.recorded jobId usage) = (.ok (), w₂) := by
      show (w.recorded jobId usage).writeResult who jobId result = _
      rw [World.writeResult, hthere]
      dsimp only
      rw [if_pos (hwritable.trans hw), hw₂]
    have hjob₂ : w₂.job? jobId = some { job with result := some result } := by
      rw [← hw₂]
      refine (World.job?_modify _ jobId jobId _).trans ?_
      rw [if_pos rfl, hthere]
      rfl
    rw [exec_bind_ok hwrite]
    generalize hfields : (MetaFields.mk _ _ _ _ _) = fields
    have hstatus : fields.status = some result.status := by rw [← hfields]
    have hupdate : exec (JobCall.perform who false) (updateJob jobId fields) w₂ =
        (.ok (job.record.update fields w₂.clock), w₂.modify jobId fun job =>
          { job with record := job.record.update fields w₂.clock }) := by
      show w₂.updateJob jobId fields = _
      rw [World.updateJob, hjob₂]
    generalize hw₃ : (w₂.modify jobId fun job =>
      { job with record := job.record.update fields w₂.clock }) = w₃ at hupdate
    have hjob₃ : w₃.job? jobId = some { job with
        result := some result, record := job.record.update fields w₂.clock } := by
      rw [← hw₃, World.job?_modify, if_pos rfl, hjob₂]
      rfl
    have hshred : exec (JobCall.perform who false) (shredTokens jobId) w₃ =
        (.ok (), w₃.shredded jobId) := rfl
    rw [exec_bind_ok hupdate, exec_bind_ok hshred]
    refine ⟨_, _, rfl, ?_, ?_, ?_⟩
    · rw [JobMeta.update, hstatus]
      rfl
    · have hmetered : w₃.metered = (w.recorded jobId usage).metered := by
        rw [← hw₃, (World.modify_aside w₂ jobId _).1, ← hw₂]
        exact (World.modify_aside _ jobId _).1
      rw [World.shredded, (World.modify_aside w₃ jobId _).1, hmetered]
      rfl
    · rw [World.shredded, World.job?_modify, if_pos rfl, hjob₃]
      exact ⟨_, rfl, rfl, rfl⟩
  · rw [if_neg hw]
    have hwrite : exec (JobCall.perform who false) (writeResult jobId result)
        (w.recorded jobId usage) = (.error (.badOutput .valueError), w.recorded jobId usage) := by
      show (w.recorded jobId usage).writeResult who jobId result = _
      rw [World.writeResult, hthere]
      dsimp only
      rw [if_neg (by rw [hwritable]; exact hw)]
    exact exec_bind_error hwrite

end Exec

section Total

variable [PyCoerce] [TextPatterns] [JsonScan]

/-- The usage record the logs report. -/
def usageRecord (stdout : String) : Option Members := (headlessOf stdout).bind extractUsageDict

/-- The finalization returns, with the job terminal and its tokens gone; it records no usage without
a number in the logs, and where it settles the job no exit code but 0 is completed. -/
def FinalizesWell (who : Caller) (jobId : String) (args : FinalizeArgs) (w : World)
    (job : Job) : Prop :=
  ∃ record result w', exec (JobCall.perform who false) (finalizeJob jobId args) w =
      (.ok (record, result), w') ∧
    (∃ job', w'.job? jobId = some job' ∧ job'.record = record ∧ job'.tokens = []) ∧
    record.status.terminal = true ∧
    (w'.metered ≠ w.metered → ∃ raw, usageRecord job.stdout = some raw ∧ Known raw) ∧
    (settledBy job.result job.record.status.terminal = false → record.status = .completed →
      args.code job.record.exitCode = some 0 ∨ args.code job.record.exitCode = none)

/-- No text that is tried raises anything but `JSONDecodeError`, no usage value that is converted is
an infinite float, every count can be written, and a record without a number has no key that the
bridge takes for one. -/
structure Digestible (stdout : String) : Prop where
  scans : ∀ t ∈ triedTexts stdout, raises t = none
  finite : ∀ raw, usageRecord stdout = some raw → ∀ v ∈ usageReads raw, overflows v = false
  writable : ∀ raw, usageRecord stdout = some raw →
    (reportedUsage raw).all TokenUsage.writable = true
  known : ∀ raw, usageRecord stdout = some raw → Known raw ∨ Unrecorded raw

/-- The usage of the logs. -/
def usageOf (stdout : String) : Option TokenUsage := (usageRecord stdout).bind reportedUsage

theorem adaptHeadlessUsage_ok {stdout : String}
    (h : ∀ raw, usageRecord stdout = some raw → ∀ v ∈ usageReads raw, overflows v = false) :
    adaptHeadlessUsage (headlessOf stdout) = .ok (usageOf stdout) := by
  unfold adaptHeadlessUsage usageOf
  cases hraw : (headlessOf stdout).bind extractUsageDict with
  | none => rw [usageRecord, hraw]; rfl
  | some raw =>
    have hreads : (usageReads raw).any overflows = false := by
      rw [List.any_eq_false]
      intro v hv
      rw [h raw hraw v hv]
      decide
    have hconverts := converts_messagesUsage raw
    rw [Converts, hreads, if_neg (by decide)] at hconverts
    rw [usageRecord, hraw]
    exact hconverts

theorem adaptHeadlessUsage_error {stdout : String} {raw : Members}
    (hraw : usageRecord stdout = some raw) {v : Json} (hv : v ∈ usageReads raw)
    (hover : overflows v = true) :
    adaptHeadlessUsage (headlessOf stdout) = .error .overflowError := by
  unfold usageRecord at hraw
  have hreads : (usageReads raw).any overflows = true := List.any_eq_true.mpr ⟨v, hv, hover⟩
  have hconverts := converts_messagesUsage raw
  rw [Converts, hreads, if_pos rfl] at hconverts
  rw [adaptHeadlessUsage, hraw]
  exact hconverts

variable {who : Caller} {jobId : String} {w : World} {job : Job}

/-- A finalization that raises on its logs. -/
theorem exec_finalizeOpen_error (who : Caller) (hjob : w.job? jobId = some job) (record : JobMeta)
    (args : FinalizeArgs)
    (h : (∃ e, parseHeadlessJson job.stdout = .error e) ∨
      ∃ headless e, parseHeadlessJson job.stdout = .ok headless ∧
        adaptHeadlessUsage headless = .error e) :
    ∃ e, exec (JobCall.perform who false) (finalizeOpen jobId record args) w = (.error e, w) := by
  have hstdout : exec (JobCall.perform who false) (readStdout jobId) w = (.ok job.stdout, w) := by
    show (Except.ok (((w.job? jobId).map Job.stdout).getD ""), w) = _
    rw [hjob]
    rfl
  have hstderr : exec (JobCall.perform who false) (readStderr jobId) w = (.ok job.stderr, w) := by
    show (Except.ok (((w.job? jobId).map Job.stderr).getD ""), w) = _
    rw [hjob]
    rfl
  unfold finalizeOpen
  rw [exec_bind_ok hstdout, exec_bind_ok hstderr]
  obtain ⟨e, hscan⟩ | ⟨headless, e, hscan, husage⟩ := h
  · refine ⟨_, exec_bind_error (e := .badOutput e) ?_⟩
    rw [exec_fromOutput, hscan]
  · have hscan' : exec (JobCall.perform who false) (fromOutput (parseHeadlessJson job.stdout)) w =
        (.ok headless, w) := by rw [exec_fromOutput, hscan]
    rw [exec_bind_ok hscan']
    refine ⟨_, exec_bind_error (e := .badOutput e) ?_⟩
    rw [exec_fromOutput, husage]

theorem exec_finalizeJob_open (who : Caller) (hjob : w.job? jobId = some job) (args : FinalizeArgs)
    (hopen : settledBy job.result job.record.status.terminal = false) :
    exec (JobCall.perform who false) (finalizeJob jobId args) w =
      exec (JobCall.perform who false) (finalizeOpen jobId job.record args)
        (w.enters jobId who) := by
  have hload : exec (JobCall.perform who false) (loadJob jobId) w = (.ok (some job.record), w) := by
    show (Except.ok ((w.job? jobId).map Job.record), w) = _
    rw [hjob]
    rfl
  have hcheck : exec (JobCall.perform who false) (checkSettled jobId job.record.status.terminal)
      w = (.ok job.result, w.enters jobId who) := by
    show (Except.ok ((w.job? jobId).bind Job.result),
      if settledBy ((w.job? jobId).bind Job.result) job.record.status.terminal then w
      else w.enters jobId who) = _
    rw [hjob, Option.bind_some, hopen]
    rfl
  unfold finalizeJob
  rw [exec_bind_ok hload]
  dsimp only
  rw [exec_bind_ok hcheck]
  cases hresult : job.result with
  | none => rfl
  | some existing =>
    rw [hresult, settledBy, Option.isSome_some, Bool.true_and] at hopen
    dsimp only
    rw [hopen, if_neg (by decide)]

theorem finalizesWell_settled (hjob : w.job? jobId = some job) (args : FinalizeArgs)
    (hsettled : settledBy job.result job.record.status.terminal = true) :
    FinalizesWell who jobId args w job := by
  rw [settledBy, Bool.and_eq_true] at hsettled
  obtain ⟨existing, hresult⟩ := Option.isSome_iff_exists.mp hsettled.1
  have hload : exec (JobCall.perform who false) (loadJob jobId) w = (.ok (some job.record), w) := by
    show (Except.ok ((w.job? jobId).map Job.record), w) = _
    rw [hjob]
    rfl
  have hcheck : exec (JobCall.perform who false) (checkSettled jobId job.record.status.terminal)
      w = (.ok (some existing), w) := by
    show (Except.ok ((w.job? jobId).bind Job.result),
      if settledBy ((w.job? jobId).bind Job.result) job.record.status.terminal then w
      else w.enters jobId who) = _
    rw [hjob, Option.bind_some, hresult, settledBy, hsettled.2]
    rfl
  have hshred : exec (JobCall.perform who false) (shredTokens jobId) w =
      (.ok (), w.shredded jobId) := rfl
  have hexec : exec (JobCall.perform who false) (finalizeJob jobId args) w =
      (.ok (job.record, existing), w.shredded jobId) := by
    unfold finalizeJob
    rw [exec_bind_ok hload]
    dsimp only
    rw [exec_bind_ok hcheck]
    dsimp only
    rw [if_pos hsettled.2, exec_bind_ok hshred]
    rfl
  refine ⟨_, _, _, hexec, ⟨{ job with tokens := [] }, ?_, rfl, rfl⟩, hsettled.2, ?_, ?_⟩
  · rw [World.shredded, World.job?_modify, if_pos rfl, hjob]
    rfl
  · intro hmetered
    rw [World.shredded, (World.modify_aside w jobId _).1] at hmetered
    exact absurd rfl hmetered
  · intro hopen
    rw [settledBy, hsettled.1, hsettled.2] at hopen
    cases hopen

/-- What a finalization that returns has read. -/
theorem digested (hjob : w.job? jobId = some job) {args : FinalizeArgs}
    (hopen : settledBy job.result job.record.status.terminal = false)
    (hwell : FinalizesWell who jobId args w job) :
    (∀ t ∈ triedTexts job.stdout, raises t = none) ∧
      (∀ raw, usageRecord job.stdout = some raw → ∀ v ∈ usageReads raw, overflows v = false) ∧
      (usageOf job.stdout).all TokenUsage.writable = true := by
  obtain ⟨record, result, w', hexec, -⟩ := hwell
  rw [exec_finalizeJob_open who hjob args hopen] at hexec
  have hthere : (w.enters jobId who).job? jobId = some job := hjob
  have hscans : ∀ t ∈ triedTexts job.stdout, raises t = none := by
    intro t ht
    by_contra hne
    obtain ⟨e, he⟩ := exec_finalizeOpen_error who hthere job.record args
      (.inl (parseHeadlessJson_error job.stdout ⟨t, ht, hne⟩))
    rw [he] at hexec
    cases hexec
  have hparse := parseHeadlessJson_ok job.stdout hscans
  have hfinite : ∀ raw, usageRecord job.stdout = some raw →
      ∀ v ∈ usageReads raw, overflows v = false := by
    intro raw hraw v hv
    by_contra hne
    have hover := adaptHeadlessUsage_error hraw hv (Bool.eq_true_of_not_eq_false hne)
    obtain ⟨e, he⟩ := exec_finalizeOpen_error who hthere job.record args
      (.inr ⟨_, _, hparse, hover⟩)
    rw [he] at hexec
    cases hexec
  refine ⟨hscans, hfinite, ?_⟩
  by_contra hw
  have hrun := exec_finalizeOpen who hthere job.record args hparse
    (adaptHeadlessUsage_ok hfinite)
  dsimp only at hrun
  rw [if_neg hw] at hrun
  rw [hrun] at hexec
  cases hexec

/-- A finalization settles every job but one whose logs it cannot digest. -/
theorem finalization_total_iff (who : Caller) (jobId : String) (args : FinalizeArgs) (w : World)
    (job : Job) (hjob : w.job? jobId = some job) (hargs : args.Lawful) :
    FinalizesWell who jobId args w job ↔
      settledBy job.result job.record.status.terminal = true ∨ Digestible job.stdout := by
  cases hopen : settledBy job.result job.record.status.terminal with
  | true => exact ⟨fun _ => .inl rfl, fun _ => finalizesWell_settled hjob args hopen⟩
  | false =>
    have hthere : (w.enters jobId who).job? jobId = some job := hjob
    have hrun := exec_finalizeJob_open who hjob args hopen
    constructor
    · intro hwell
      obtain ⟨hscans, hfinite, hwritable⟩ := digested hjob hopen hwell
      refine .inr ⟨hscans, hfinite, fun raw hraw => ?_, fun raw hraw => ?_⟩
      · rw [usageOf, hraw] at hwritable
        exact hwritable
      · by_contra hunknown
        rw [not_or] at hunknown
        have hsome : reportedUsage raw ≠ none :=
          fun hnone => hunknown.2 ((reportedUsage_unknown hunknown.1).mp hnone)
        obtain ⟨u, hu⟩ := Option.ne_none_iff_exists'.mp hsome
        have hopened := exec_finalizeOpen who hthere job.record args
          (parseHeadlessJson_ok job.stdout hscans) (adaptHeadlessUsage_ok hfinite)
        dsimp only at hopened
        rw [if_pos hwritable] at hopened
        obtain ⟨updated, w', hexec, -, hmetered, -⟩ := hopened
        obtain ⟨record, result, w'', hexec', -, -, hreported, -⟩ := hwell
        rw [hrun, hexec] at hexec'
        obtain ⟨-, rfl⟩ := Prod.mk.inj hexec'
        have hgrew : w'.metered ≠ w.metered := by
          rw [hmetered, usageOf, hraw, Option.bind_some, hu]
          intro heq
          have hlen := congrArg List.length heq
          rw [List.length_append] at hlen
          exact absurd hlen (by simp [World.enters])
        obtain ⟨raw', hraw', hknown⟩ := hreported hgrew
        rw [hraw] at hraw'
        exact hunknown.1 (Option.some.inj hraw' ▸ hknown)
    · rintro (hsettled | hdigest)
      · cases hsettled
      have hwritable : (usageOf job.stdout).all TokenUsage.writable = true := by
        unfold usageOf
        cases hraw : usageRecord job.stdout with
        | none => rfl
        | some raw => exact hdigest.writable raw hraw
      have hopened := exec_finalizeOpen who hthere job.record args
        (parseHeadlessJson_ok job.stdout hdigest.scans) (adaptHeadlessUsage_ok hdigest.finite)
      dsimp only at hopened
      rw [if_pos hwritable] at hopened
      obtain ⟨updated, w', hexec, hstatus, hmetered, hleft⟩ := hopened
      rw [jobResult_status] at hstatus
      have hlawful := decideStatus_lawful hargs (args.code job.record.exitCode)
        (classifyInstrumentFailure job.stdout job.stderr (headlessOf job.stdout)
          (args.code job.record.exitCode))
        (harvestArtifacts job.record.mode ((job.proc.map Proc.output).getD emptyOutput)
          job.stdout)
      rw [← hstatus] at hlawful
      refine ⟨_, _, w', hrun.trans hexec, hleft, hlawful.1, fun hgrew => ?_, fun _ => hlawful.2⟩
      cases hraw : usageRecord job.stdout with
      | none =>
        rw [hmetered, usageOf, hraw] at hgrew
        exact absurd (List.append_nil _) hgrew
      | some raw =>
        refine ⟨raw, rfl, ?_⟩
        obtain hknown | hunrecorded := hdigest.known raw hraw
        · exact hknown
        · by_contra hunknown
          have hnone := (reportedUsage_unknown hunknown).mpr hunrecorded
          rw [hmetered, usageOf, hraw, Option.bind_some, hnone] at hgrew
          exact hgrew (List.append_nil _)

end Total

section Sample

attribute [local instance] basicCoerce basicPatterns basicScan

/-- A job whose process is gone, with its access token on disk. -/
def deadJob (stdout : String) : Job :=
  ⟨newMeta "job-1" .prompt true 0, none, stdout, "", ["grok_home/auth.json"], none⟩

def oneJob (job : Job) : World := ⟨.set .empty "job-1" job, [], [], [], [], 0, 0⟩

def sevenTokens : Job :=
  deadJob "\x7b\"text\": \"done\", \"usage\": \x7b\"input_tokens\": 7\x7d\x7d"

theorem finalization_total_sample :
    FinalizesWell .reaper "job-1" { exitCode := some 0 } (oneJob sevenTokens) sevenTokens := by
  have hrecord : usageRecord sevenTokens.stdout = some [("input_tokens", .int 7)] := by
    decide +kernel
  refine (finalization_total_iff .reaper "job-1" { exitCode := some 0 } (oneJob sevenTokens)
    sevenTokens rfl (.inl rfl)).mpr (.inr ⟨by decide +kernel, ?_, ?_, ?_⟩)
  all_goals
    intro raw hraw
    obtain rfl := Option.some.inj (hrecord.symm.trans hraw)
  · decide +kernel
  · decide +kernel
  · exact .inl ⟨.int 7, by decide +kernel, rfl⟩

/-- `int` of an infinite count raises: the job goes on running, with its token on disk. -/
theorem infinite_count_raises : ¬∀ (who : Caller) (jobId : String) (args : FinalizeArgs)
    (w : World) (job : Job), w.job? jobId = some job → args.Lawful →
      FinalizesWell who jobId args w job := by
  intro hall
  have hwell := hall .reaper "job-1" { exitCode := some 0 }
    (oneJob (deadJob "\x7b\"usage\": \x7b\"input_tokens\": 1e999\x7d\x7d")) _ rfl (.inl rfl)
  obtain ⟨record, result, w', hexec, -⟩ := hwell
  have hraises : (exec (JobCall.perform .reaper false) (finalizeJob "job-1" { exitCode := some 0 })
      (oneJob (deadJob "\x7b\"usage\": \x7b\"input_tokens\": 1e999\x7d\x7d"))).1.isOk = false := by
    decide +kernel
  rw [hexec] at hraises
  cases hraises

end Sample

end Elyra.Instrument
