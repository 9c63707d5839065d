import Mathlib.Data.String.Basic
import Elyra.Framework.Program
import Elyra.Framework.Sorted
import Elyra.Instrument.Result

namespace Elyra.Instrument

inductive JobErr where
  | fileNotFound | fileExists | osError
  | badOutput (e : OutputErr)
  deriving DecidableEq

/-- The thread that makes a call. -/
inductive Caller where
  | reaper | tool
  deriving DecidableEq

/-- Pids are not used again here: a process goes by the job it was started for. -/
abbrev Pid := String

/-- `meta.json`; times are microseconds. -/
structure JobMeta where
  jobId : String
  mode : Mode
  status : JobStatus
  pid : Option Pid
  asyncJob : Bool
  timeoutS : Option Nat
  startedAt : Nat
  endedAt : Option Nat
  exitCode : Option Int
  errorReason : Option String
  timedOut : Bool
  deriving DecidableEq

/-- A zombie keeps its exit status for the one caller that waits for it. -/
inductive ProcState where
  | running
  | ended (code : Int)
  | handed (code : Int) (caller : Caller)
  deriving DecidableEq

/-- `timedOut`: its own `run_grok` killed it; `signalled`: the reaper did; `life`: the life of the
program it is a child of. -/
structure Proc where
  output : RunOutput
  state : ProcState
  timedOut : Bool
  signalled : Bool
  life : Nat
  deriving DecidableEq

/-- The directory of a job, with its process; `tokens` are the files that hold one. -/
structure Job where
  record : JobMeta
  result : Option JobResult
  stdout : String
  stderr : String
  tokens : List String
  proc : Option Proc
  deriving DecidableEq

/-- The payload of a completion wake. -/
structure CompletionWake where
  jobId : String
  runId : String
  status : JobStatus
  mode : Mode
  summaryPath : String
  deriving DecidableEq

/-- What the threads share: the job directories, the wake log, the ids the reaper of this life
announced, what the usage meter recorded for each job, the clock and the number of this life.
`unfinished` is no part of the program: the finalizations that found their job unsettled and have
written no result since. -/
structure World where
  jobs : Dict String Job
  wakes : List CompletionWake
  woken : List String
  metered : List (String × TokenUsage)
  unfinished : List (String × Caller)
  clock : Nat
  life : Nat
  deriving DecidableEq

/-- The fields an `update_job` call sets. -/
structure MetaFields where
  status : Option JobStatus := none
  errorReason : Option String := none
  exitCode : Option Int := none
  timedOut : Option Bool := none
  pid : Option Pid := none
  deriving DecidableEq

/-- What `run_grok` returns. -/
structure ProcessResult where
  pid : Pid
  exitCode : Int
  stdout : String
  stderr : String
  timedOut : Bool
  deriving DecidableEq

inductive JobCall where
  | listJobs
  | loadJob (jobId : String)
  | loadResult (jobId : String)
  | checkSettled (jobId : String) (terminal : Bool)
  | readStdout (jobId : String)
  | readStderr (jobId : String)
  | recordUsage (jobId : String) (usage : Option TokenUsage)
  | listArtifacts (jobId : String)
  | writeResult (jobId : String) (result : JobResult)
  | updateJob (jobId : String) (fields : MetaFields)
  | shredTokens (jobId : String)
  | createJob (jobId : String) (mode : Mode) (asyncJob : Bool)
  | seedIsolatedHome (jobId : String)
  | spawnGrok (jobId : String)
  | startGrok (jobId : String)
  | communicate (jobId : String)
  | writeStdout (jobId : String) (text : String)
  | writeStderr (jobId : String) (text : String)
  | reapInstrumentPid (pid : Option Pid)
  | isPidAlive (pid : Option Pid)
  | killPgid (pid : Option Pid)
  | now
  | claimWake (jobId : String)
  | forgetWake (jobId : String)
  | enqueue (payload : CompletionWake)

def JobCall.Reply : JobCall → Type
  | .listJobs => List String
  | .loadJob _ => Option JobMeta
  | .loadResult _ | .checkSettled _ _ => Option JobResult
  | .readStdout _ | .readStderr _ => String
  | .listArtifacts _ => RunOutput
  | .updateJob _ _ | .createJob _ _ _ => JobMeta
  | .spawnGrok _ => Pid
  | .communicate _ => ProcessResult
  | .reapInstrumentPid _ => Option Int
  | .isPidAlive _ | .claimWake _ => Bool
  | .now => Nat
  | _ => Unit

abbrev JobProgram := Fallible JobErr JobCall.Reply

def emptyOutput : RunOutput := ⟨"", "", [], []⟩

namespace World

variable (w : World)

def job? (jobId : String) : Option Job := w.jobs.get? jobId

def modify (jobId : String) (f : Job → Job) : World :=
  match w.jobs.get? jobId with
  | some job => { w with jobs := w.jobs.set jobId (f job) }
  | none => w

def modifyProc (jobId : String) (f : Proc → Proc) : World :=
  w.modify jobId fun job => { job with proc := job.proc.map f }

def startProc (jobId : String) : World :=
  w.modify jobId fun job => { job with proc := some ⟨emptyOutput, .running, false, false, w.life⟩ }

def procOf (pid : Option Pid) : Option (Pid × Proc) :=
  pid.bind fun jobId => ((w.job? jobId).bind Job.proc).map fun p => (jobId, p)

def handOver (jobId : String) (code : Int) (who : Caller) : World :=
  w.modifyProc jobId fun p => { p with state := .handed code who }

/-- `waitpid` without waiting: only a child of this life that has ended is handed over. -/
def waitpid (who : Caller) (pid : Option Pid) : Option Int × World :=
  match w.procOf pid with
  | none => (none, w)
  | some (jobId, p) =>
    match p.state with
    | .ended code => if p.life = w.life then (some code, w.handOver jobId code who) else (none, w)
    | _ => (none, w)

def isAlive (pid : Option Pid) : Bool := (w.procOf pid).any fun p => p.2.state = .running

def kill (pid : Option Pid) : World :=
  match w.procOf pid with
  | none => w
  | some (jobId, p) =>
    if p.state = .running then w.modifyProc jobId fun p => { p with signalled := true } else w

theorem job?_modify (jobId other : String) (f : Job → Job) :
    (w.modify jobId f).job? other =
      if jobId = other then (w.job? other).map f else w.job? other := by
  unfold modify
  cases h : w.jobs.get? jobId with
  | none =>
    by_cases ho : jobId = other
    · subst ho
      rw [if_pos rfl, job?, h]
      rfl
    · rw [if_neg ho]
  | some job =>
    show (w.jobs.set jobId (f job)).get? other = _
    rw [Dict.get?_set]
    by_cases ho : jobId = other
    · subst ho
      rw [if_pos rfl, if_pos rfl, job?, h]
      rfl
    · rw [if_neg ho, if_neg ho, job?]

theorem modify_aside (jobId : String) (f : Job → Job) :
    (w.modify jobId f).metered = w.metered ∧ (w.modify jobId f).unfinished = w.unfinished := by
  unfold modify
  cases w.jobs.get? jobId with
  | none => exact ⟨rfl, rfl⟩
  | some job => exact ⟨rfl, rfl⟩

end World

/-- `finalize_job` leaves the job alone: it has a result, and its record was terminal. -/
def settledBy (existing : Option JobResult) (terminal : Bool) : Bool := existing.isSome && terminal

/-- `update_job` on the record it reads. -/
def JobMeta.update (m : JobMeta) (fields : MetaFields) (now : Nat) : JobMeta :=
  let status := fields.status.getD m.status
  let endedAt :=
    if fields.status.any JobStatus.terminal then some now
    else if status.terminal && m.endedAt = none then some now
    else m.endedAt
  { m with
    status, endedAt
    errorReason := fields.errorReason.or m.errorReason
    exitCode := fields.exitCode.or m.exitCode
    timedOut := fields.timedOut.getD m.timedOut
    pid := fields.pid.or m.pid }

def newMeta (jobId : String) (mode : Mode) (asyncJob : Bool) (now : Nat) : JobMeta where
  jobId := jobId
  mode := mode
  status := .running
  pid := none
  asyncJob := asyncJob
  timeoutS := some mode.timeoutS
  startedAt := now
  endedAt := none
  exitCode := none
  errorReason := none
  timedOut := false

/-- The exit code `run_grok` reports: a timeout should not look like success. -/
def Proc.reported (p : Proc) (code : Int) : Int := if p.timedOut && code = 0 then -9 else code

/-- What `communicate` returns once the process has ended. -/
def World.communicate (w : World) (who : Caller) (jobId : String) : Option ProcessResult × World :=
  match w.procOf (some jobId) with
  | none => (none, w)
  | some (_, p) =>
    match p.state with
    | .ended code =>
      (some ⟨jobId, p.reported code, p.output.stdout, p.output.stderr, p.timedOut⟩,
        w.handOver jobId code who)
    | _ => (none, w)

/-- A call that cannot return yet. -/
def JobCall.blocked (w : World) : JobCall → Bool
  | .communicate jobId => (w.communicate .tool jobId).1.isNone
  | _ => false

/-- `result.json` can be written: it holds no integer with too many digits. -/
def JobResult.writable (r : JobResult) : Bool := r.usage.all TokenUsage.writable

namespace World

variable (w : World)

def enters (jobId : String) (who : Caller) : World :=
  { w with unfinished := (jobId, who) :: w.unfinished }

def leaves (jobId : String) (who : Caller) : World :=
  { w with unfinished := w.unfinished.filter (· ≠ (jobId, who)) }

def recorded (jobId : String) (usage : Option TokenUsage) : World :=
  { w with metered := w.metered ++ usage.toList.map fun u => (jobId, u) }

def shredded (jobId : String) : World := w.modify jobId fun job => { job with tokens := [] }

def claim (jobId : String) : Bool × World :=
  if w.woken.contains jobId then (false, w) else (true, { w with woken := jobId :: w.woken })

def writeResult (who : Caller) (jobId : String) (result : JobResult) : Except JobErr Unit × World :=
  match w.job? jobId with
  | some _ =>
    if result.writable then
      (.ok (), (w.modify jobId fun job => { job with result := some result }).leaves jobId who)
    else (.error (.badOutput .valueError), w)
  | none => (.error .fileNotFound, w)

def updateJob (jobId : String) (fields : MetaFields) : Except JobErr JobMeta × World :=
  match w.job? jobId with
  | some job =>
    (.ok (job.record.update fields w.clock),
      w.modify jobId fun job => { job with record := job.record.update fields w.clock })
  | none => (.error .fileNotFound, w)

end World

section Perform

variable (who : Caller) (refused : Bool)

def refusable {α : Type} (w : World) (r : Except JobErr α × World) : Except JobErr α × World :=
  if refused then (.error .osError, w) else r

/-- One call of a thread; a refused file operation raises and changes nothing. -/
def JobCall.perform : (c : JobCall) → World → Except JobErr c.Reply × World
  | .listJobs, w => (.ok (sortBy id w.jobs.keys), w)
  | .loadJob jobId, w => (.ok ((w.job? jobId).map Job.record), w)
  | .loadResult jobId, w => (.ok ((w.job? jobId).bind Job.result), w)
  | .checkSettled jobId terminal, w =>
    let existing := (w.job? jobId).bind Job.result
    (.ok existing, if settledBy existing terminal then w else w.enters jobId who)
  | .readStdout jobId, w => (.ok (((w.job? jobId).map Job.stdout).getD ""), w)
  | .readStderr jobId, w => (.ok (((w.job? jobId).map Job.stderr).getD ""), w)
  | .recordUsage jobId usage, w =>
    (.ok (), w.recorded jobId usage)
  | .listArtifacts jobId, w =>
    (.ok ((((w.job? jobId).bind Job.proc).map Proc.output).getD emptyOutput), w)
  | .writeResult jobId result, w =>
    refusable refused w (w.writeResult who jobId result)
  | .updateJob jobId fields, w =>
    refusable refused w (w.updateJob jobId fields)
  | .createJob jobId mode asyncJob, w =>
    refusable refused w (match w.job? jobId with
      | some _ => (.error .fileExists, w)
      | none =>
        let record := newMeta jobId mode asyncJob w.clock
        (.ok record, { w with jobs := w.jobs.set jobId ⟨record, none, "", "", [], none⟩ }))
  | .shredTokens jobId, w => (.ok (), w.shredded jobId)
  | .seedIsolatedHome jobId, w =>
    refusable refused w (.ok (), w.modify jobId fun job =>
      { job with tokens := ["grok_home/auth.json"] })
  | .spawnGrok jobId, w =>
    refusable refused w (.ok jobId, w.startProc jobId)
  | .startGrok jobId, w =>
    refusable refused w (.ok (), w.startProc jobId)
  | .communicate jobId, w =>
    let (r, w) := w.communicate who jobId
    (r.elim (.error .osError) .ok, w)
  | .writeStdout jobId text, w =>
    refusable refused w (.ok (), w.modify jobId fun job => { job with stdout := text })
  | .writeStderr jobId text, w =>
    refusable refused w (.ok (), w.modify jobId fun job => { job with stderr := text })
  | .reapInstrumentPid pid, w =>
    let (code, w) := w.waitpid who pid
    (.ok code, w)
  | .isPidAlive pid, w => (.ok (w.isAlive pid), w)
  | .killPgid pid, w => (.ok (), w.kill pid)
  | .now, w => (.ok w.clock, w)
  | .claimWake jobId, w =>
    let (fresh, w) := w.claim jobId
    (.ok fresh, w)
  | .forgetWake jobId, w => (.ok (), { w with woken := w.woken.filter (· ≠ jobId) })
  | .enqueue payload, w =>
    refusable refused w (.ok (), { w with wakes := w.wakes ++ [payload] })

end Perform

/-- A call as a program. -/
def call (c : JobCall) : JobProgram c.Reply := Fallible.perform c

def listJobs : JobProgram (List String) := call .listJobs

def loadJob (jobId : String) : JobProgram (Option JobMeta) := call (.loadJob jobId)

def loadResult (jobId : String) : JobProgram (Option JobResult) := call (.loadResult jobId)

def checkSettled (jobId : String) (terminal : Bool) : JobProgram (Option JobResult) :=
  call (.checkSettled jobId terminal)

def recordUsage (jobId : String) (usage : Option TokenUsage) : JobProgram Unit :=
  call (.recordUsage jobId usage)

def shredTokens (jobId : String) : JobProgram Unit := call (.shredTokens jobId)

def readStdout (jobId : String) : JobProgram String := call (.readStdout jobId)

def readStderr (jobId : String) : JobProgram String := call (.readStderr jobId)

def listArtifacts (jobId : String) : JobProgram RunOutput := call (.listArtifacts jobId)

def writeResult (jobId : String) (result : JobResult) : JobProgram Unit :=
  call (.writeResult jobId result)

def updateJob (jobId : String) (fields : MetaFields) : JobProgram JobMeta :=
  call (.updateJob jobId fields)

def createJob (jobId : String) (mode : Mode) (asyncJob : Bool) : JobProgram JobMeta :=
  call (.createJob jobId mode asyncJob)

def seedIsolatedHome (jobId : String) : JobProgram Unit := call (.seedIsolatedHome jobId)

def spawnGrok (jobId : String) : JobProgram Pid := call (.spawnGrok jobId)

/-- `run_grok`: the process is started, and waited for. -/
def runGrok (jobId : String) : JobProgram ProcessResult := do
  let _ ← call (.startGrok jobId)
  call (.communicate jobId)

def writeStdout (jobId text : String) : JobProgram Unit := call (.writeStdout jobId text)

def writeStderr (jobId text : String) : JobProgram Unit := call (.writeStderr jobId text)

def reapInstrumentPid (pid : Option Pid) : JobProgram (Option Int) := call (.reapInstrumentPid pid)

def isPidAlive (pid : Option Pid) : JobProgram Bool := call (.isPidAlive pid)

def killPgid (pid : Option Pid) : JobProgram Unit := call (.killPgid pid)

def now : JobProgram Nat := call .now

def claimWake (jobId : String) : JobProgram Bool := call (.claimWake jobId)

def forgetWake (jobId : String) : JobProgram Unit := call (.forgetWake jobId)

def enqueue (payload : CompletionWake) : JobProgram Unit := call (.enqueue payload)

section Finalize

variable [PyCoerce] [TextPatterns] [JsonScan]

/-- A conversion of child output that `finalize_job` does not guard. -/
def fromOutput {α : Type} (r : Except OutputErr α) : JobProgram α :=
  match r with
  | .ok a => return a
  | .error e => throw (.badOutput e)

/-- The rest of `finalize_job` on a job that is not settled; the usage meter is there and records
what it is given. -/
def finalizeOpen (jobId : String) (record : JobMeta) (args : FinalizeArgs) :
    JobProgram (JobMeta × JobResult) := do
  let stdout ← readStdout jobId
  let stderr ← readStderr jobId
  let headless ← fromOutput (parseHeadlessJson stdout)
  let usage ← fromOutput (adaptHeadlessUsage headless)
  recordUsage jobId usage
  let found ← listArtifacts jobId
  let code := args.code record.exitCode
  let result := jobResult record.mode stdout stderr headless usage found args code
  writeResult jobId result
  let updated ← updateJob jobId {
    status := some result.status
    errorReason := metaErrorReason record.mode stdout stderr headless found args code
    exitCode := code
    timedOut := if args.timedOut then some true else none }
  shredTokens jobId
  return (updated, result)

def finalizeJob (jobId : String) (args : FinalizeArgs) : JobProgram (JobMeta × JobResult) := do
  match ← loadJob jobId with
  | none => throw .fileNotFound
  | some record =>
    match ← checkSettled jobId record.status.terminal with
    | some existing =>
      if record.status.terminal then
        shredTokens jobId
        return (record, existing)
      else finalizeOpen jobId record args
    | none => finalizeOpen jobId record args

end Finalize

def completionPayload (record : JobMeta) (status : JobStatus) : CompletionWake where
  jobId := record.jobId
  runId := record.jobId
  status := status
  mode := record.mode
  summaryPath := record.jobId ++ "/result.json"

/-- `_enqueue_completion`: at most one wake for a job in one life of the reaper. -/
def enqueueCompletion (record : JobMeta) (status : JobStatus) : JobProgram Unit := do
  if ← claimWake record.jobId then
    tryCatch (enqueue (completionPayload record status)) fun _ =>
      forgetWake record.jobId
  else return ()

def JobMeta.isOverdue (m : JobMeta) (now : Nat) : Bool :=
  m.timeoutS.any fun t => 0 < t && m.startedAt + t * 1000000 ≤ now

/-- The status of a finished job whose `result.json` is there. -/
def JobResult.markedStatus (r : JobResult) : JobStatus :=
  if r.status.terminal then r.status else if r.ok then .completed else .failed

section Reaper

variable [PyCoerce] [TextPatterns] [JsonScan]

/-- The branch of `_handle_running` past the wall timeout. -/
def handleOverdue (record : JobMeta) : JobProgram Bool := do
  killPgid record.pid
  let reaped ← reapInstrumentPid record.pid
  let (updated, _) ← finalizeJob record.jobId {
    statusOverride := some .failed
    errorReason := some "timeout"
    timedOut := true
    exitCode := some (reaped.getD (-9)) }
  enqueueCompletion updated updated.status
  return true

/-- A dead process with its result on disk: the meta follows it. -/
def markFromResult (record : JobMeta) (existing : JobResult) : JobProgram Bool := do
  let updated ← updateJob record.jobId {
    status := some existing.markedStatus
    errorReason := existing.errorReason
    exitCode := existing.exitCode }
  shredTokens record.jobId
  enqueueCompletion updated existing.markedStatus
  return true

def finalizeDead (record : JobMeta) (reaped : Option Int) : JobProgram Bool := do
  let (updated, _) ← finalizeJob record.jobId { exitCode := some (reaped.getD (-1)) }
  enqueueCompletion updated updated.status
  return true

/-- The rest of `_handle_running` once there is no live process. -/
def handleDead (record : JobMeta) (reaped : Option Int) : JobProgram Bool := do
  match ← loadResult record.jobId with
  | some existing => markFromResult record existing
  | none =>
    if record.pid = none then
      let stdout ← readStdout record.jobId
      if strip stdout.toList = [] then return false else finalizeDead record reaped
    else finalizeDead record reaped

def handleRunning (record : JobMeta) : JobProgram Bool := do
  let now ← now
  if record.isOverdue now then handleOverdue record
  else
    match ← reapInstrumentPid record.pid with
    | some code => handleDead record (some code)
    | none =>
      if ← isPidAlive record.pid then return false else handleDead record none

/-- `list_jobs`: the records of the directories, one read after the other. -/
def loadJobs : List String → JobProgram (List JobMeta)
  | [] => return []
  | jobId :: jobIds => do
    let record ← loadJob jobId
    let records ← loadJobs jobIds
    return record.toList ++ records

/-- The loop of `_poll_running`; a job that raises is left for the next poll. -/
def handleAll : List JobMeta → JobProgram Unit
  | [] => return ()
  | record :: records => do
    let _ ← tryCatch (handleRunning record) fun _ => return false
    handleAll records

def pollRunning : JobProgram Unit := do
  let jobIds ← listJobs
  let records ← loadJobs jobIds
  handleAll (records.filter fun record => record.status = .running)

end Reaper

end Elyra.Instrument
