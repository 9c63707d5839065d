import Elyra.Instrument.Reaper

namespace Elyra.Instrument

/-- What a `grok_build` call gives back: the payload of a finished job, a job under way, or why
there is none. -/
inductive ToolReply where
  | finished (result : JobResult)
  | underway (status : JobStatus) (exitCode : Option Int)
  | spawned (jobId : String)
  | failed (reason : String)

/-- `try: m except Exception: pass`. -/
def quietly {α : Type} (m : JobProgram α) : JobProgram Unit :=
  tryCatch (do
    let _ ← m
    return ()) fun _ => return ()

def orphanResult (mode : Mode) (reason : String) : JobResult where
  ok := false
  status := .failed
  mode := mode
  errorReason := some reason
  exitCode := none
  summary := ""
  hint := none
  usage := none
  usageRecorded := false

/-- `_terminalize_orphan`. -/
def terminalizeOrphan (jobId : String) (mode : Mode) (reason : String) : JobProgram ToolReply := do
  let _ ← updateJob jobId { status := some .failed, errorReason := some reason }
  writeResult jobId (orphanResult mode reason)
  shredTokens jobId
  return .failed reason

/-- A step of the spawn path that ends the job when it raises. -/
def orOrphan {α : Type} (jobId : String) (mode : Mode) (reason : String) (m : JobProgram α)
    (next : α → JobProgram ToolReply) : JobProgram ToolReply := do
  let outcome ← tryCatch (do
    let a ← m
    return some a) fun _ => return none
  match outcome with
  | some a => next a
  | none => terminalizeOrphan jobId mode reason

section Tool

variable [PyCoerce] [TextPatterns] [JsonScan]

def finalizeReply (jobId : String) (args : FinalizeArgs) : JobProgram ToolReply :=
  tryCatch (do
    let (_, result) ← finalizeJob jobId args
    return .finished result) fun _ => return .failed "skill_failed"

/-- `_finalize_sync`. -/
def finalizeSync (jobId : String) (r : ProcessResult) : JobProgram ToolReply := do
  quietly do
    writeStdout jobId r.stdout
    writeStderr jobId r.stderr
  tryCatch (do
    let (_, result) ← finalizeJob jobId { exitCode := some r.exitCode, timedOut := r.timedOut }
    return .finished result) fun _ => do
    shredTokens jobId
    return .failed "skill_failed"

/-- `_poll_job`. -/
def pollJob (jobId : String) : JobProgram ToolReply := do
  match ← loadJob jobId with
  | none => return .failed "job_not_found"
  | some record =>
    match ← loadResult jobId with
    | some result => return .finished result
    | none =>
      if record.status = .running ∧ record.pid ≠ none then
        match ← reapInstrumentPid record.pid with
        | some code => finalizeReply jobId { exitCode := some code }
        | none =>
          if ← isPidAlive record.pid then
            return .underway record.status record.exitCode
          else finalizeReply jobId { exitCode := some (-1) }
      else return .underway record.status record.exitCode

/-- The asynchronous end of `grok_build`. -/
def spawnPath (jobId : String) (mode : Mode) : JobProgram ToolReply :=
  orOrphan jobId mode "skill_failed" (spawnGrok jobId) fun pid => do
    quietly (updateJob jobId { pid := some pid })
    return .spawned jobId

/-- The synchronous end of `grok_build`. -/
def syncPath (jobId : String) (mode : Mode) : JobProgram ToolReply :=
  orOrphan jobId mode "skill_failed" (runGrok jobId) fun r => do
    quietly (updateJob jobId {
      pid := some r.pid, exitCode := some r.exitCode, timedOut := some r.timedOut })
    finalizeSync jobId r

/-- `grok_build` from `create_job` on. -/
def grokBuild (jobId : String) (mode : Mode) (async : Option Bool) : JobProgram ToolReply := do
  let useAsync := async.getD (defaultsAsync mode)
  let created ← tryCatch (do
    let _ ← createJob jobId mode useAsync
    return true) fun _ => return false
  if created then
    orOrphan jobId mode "grok_skills_unavailable" (seedIsolatedHome jobId) fun _ =>
      if useAsync then spawnPath jobId mode else syncPath jobId mode
  else return .failed "skill_failed"

end Tool

/-- A call of the tool: a new run or a look at one. -/
inductive ToolCall where
  | build (jobId : String) (mode : Mode) (async : Option Bool)
  | poll (jobId : String)
  deriving DecidableEq

/-- The reaper's thread and the tool's over what they share. -/
structure Machine where
  world : World
  reaper : Program JobErr JobCall.Reply (Except JobErr Unit)
  tool : Program JobErr JobCall.Reply (Except JobErr ToolReply)

/-- Who moves: a thread by one call (which the system may refuse), a thread that has nothing to do
and begins anew, a process, or the clock. -/
inductive Move where
  | reaper (refused : Bool)
  | tool (refused : Bool)
  | beginPoll
  | beginCall (c : ToolCall)
  | prints (jobId : String) (output : RunOutput)
  | exits (jobId : String) (code : Int)
  | timesOut (jobId : String)
  | passes (time : Nat)
  deriving DecidableEq

/-- The call a thread comes to next. -/
def nextCall {α : Type} : Program JobErr JobCall.Reply α → Option JobCall
  | .done _ => none
  | .call c _ => some c

/-- A process writes; an asynchronous one writes to the log files itself. -/
def Job.prints (job : Job) (output : RunOutput) : Job :=
  match job.proc with
  | some p =>
    if p.state = .running then
      { job with
        stdout := if job.record.asyncJob then output.stdout else job.stdout
        stderr := if job.record.asyncJob then output.stderr else job.stderr
        proc := some { p with output } }
    else job
  | none => job

def Proc.exits (p : Proc) (code : Int) : Proc :=
  if p.state = .running then { p with state := .ended code } else p

/-- The timeout of `communicate`, which only a synchronous run has. -/
def Job.timesOut (job : Job) : Job :=
  match job.proc with
  | some p =>
    if p.state = .running ∧ job.record.asyncJob = false then
      { job with proc := some { p with timedOut := true } }
    else job
  | none => job

namespace Machine

variable [PyCoerce] [TextPatterns] [JsonScan] (m : Machine)

def begin (c : ToolCall) : JobProgram ToolReply :=
  match c with
  | .build jobId mode async => grokBuild jobId mode async
  | .poll jobId => pollJob jobId

def toolBlocked : Bool := (nextCall m.tool).any (JobCall.blocked m.world)

def step : Move → Machine
  | .reaper refused =>
    let (reaper, world) := m.reaper.step (JobCall.perform .reaper refused) m.world
    { m with reaper, world }
  | .tool refused =>
    if m.toolBlocked then m
    else
      let (tool, world) := m.tool.step (JobCall.perform .tool refused) m.world
      { m with tool, world }
  | .beginPoll => if m.reaper.isDone then { m with reaper := ExceptT.run pollRunning } else m
  | .beginCall c => if m.tool.isDone then { m with tool := ExceptT.run (begin c) } else m
  | .prints jobId output => { m with world := m.world.modify jobId fun job => job.prints output }
  | .exits jobId code => { m with world := m.world.modifyProc jobId fun p => p.exits code }
  | .timesOut jobId => { m with world := m.world.modify jobId Job.timesOut }
  | .passes time => { m with world := { m.world with clock := m.world.clock + time } }

end Machine

/-- No jobs yet, both threads idle. -/
def Machine.fresh : Machine where
  world := ⟨.empty, [], [], [], [], 0, 0⟩
  reaper := .done (.ok ())
  tool := .done (.ok (.failed ""))

end Elyra.Instrument
