import Elyra.Loop.ToolResults

namespace Elyra.Loop

structure LoopState where
  outerPrefix : List ChatMessage
  chainMessages : List ChatMessage := []
  hop : Nat := 0
  spoke : Bool := false
  lastActivity : Int
  continueInjects : Nat := 0
  noSpeakNudgeSent : Bool := false
  answerSpeakNudgeSent : Bool := false
  workContinueInjects : Nat := 0
  pendingSkillCommit : Option String := none
  skillCommitSent : Bool := false
  skillCommitInjects : Nat := 0
  toolsRan : Bool := false
  spokeSinceNonSpeakTool : Bool := true
  ledgerMutated : Bool := false
  modelBeats : Nat := 0
  channelFloodBeats : Nat := 0
  lastStopHopWasFlood : Bool := false
  armWait : Option WaitArm := none
  reouterCount : Nat := 0
  thrashLastFp : Option String := none
  thrashStreak : Nat := 0
  thrashLastOk : Option Bool := none
  thrashLastError : Option String := none
  thrashLastTool : Option String := none
  thrashHostSent : Nat := 0
  thrashTried : List String := []
  lessons : List String := []
  lessonRequestSent : Bool := false
  lessonCaptured : Bool := false
  lessonPinMessage : Option String := none
  lessonFailsSinceRequest : Nat := 0
  lessonSynthFp : Option String := none
  thrashSkipCount : Nat := 0

/-- What is fixed for one moment; `skipIdenticalEnabled` is a module constant of the source, off
by default. -/
structure LoopConfig where
  settings : LoopSettings
  socialWake : Bool
  wakeKind : String
  hasOpenGoalsSlice : Bool
  continuousEnabled : Bool
  workNudgeMax : Int
  skipIdenticalEnabled : Bool
  canRebuildOuter : Bool
  hasViewingDirtyFn : Bool
  startedAt : Int
  momentId : String

/-- What a registry call does: its result or exception, the clock when the tool last reported a
task change, and the clock when it has returned. -/
structure ToolOutcome where
  result : Except LoopError ToolResult
  taskChangedAt : Option Int := none
  clock : Int

/-- What the surroundings answer in one round of the loop. A dirty probe that raises counts as not
dirty, a forced rebuild that raises as `none`, and a drain that raises as no interjections. -/
structure HopInput where
  now : Int
  viewingDirty : Bool := false
  forcedRebuild : Option (List ChatMessage) := none
  budgetRebuild : Except LoopError (List ChatMessage)
  reply : Except LoopError ChatCompletionResult
  execute : Nat → ToolOutcome
  interjections : List Json := []

/-- How a round leaves the loop. -/
inductive Flow where
  | next (s : LoopState)
  | stop (reason : StopReason) (s : LoopState)
  | raised (e : LoopError) (s : LoopState)

inductive Nudge where
  | skillCommit | noSpeak | answerSpeak | workContinue
  deriving DecidableEq

/-- What one round did: the messages of its chat call and the tool it was pinned to, whether the
completion had no tool calls, the line injected after it, the tool results of its batch, whether it
sent the thrash line, and whether it ended the moment. -/
structure HopReport where
  call : Option (List ChatMessage) := none
  toolChoice : Option ToolChoice := none
  freeText : Bool := false
  nudge : Option Nudge := none
  results : List ToolResult := []
  thrashHost : Bool := false
  ended : Bool := false

/-- A successful speak is among the tool results of the round. -/
def HopReport.spoke (r : HopReport) : Bool := r.results.any fun tr => tr.ok && tr.countsAsSpeak

def LoopState.append (s : LoopState) (m : ChatMessage) : LoopState :=
  { s with chainMessages := s.chainMessages ++ [m] }

section Loop

variable [PyCoerce] [LoopText]

def enforceInTurnBudget (outer chain : List ChatMessage) (budgetTokens toolResultMaxChars : Int)
    (rebuildOuter : Option (Except LoopError (List ChatMessage))) :
    Except LoopError (List ChatMessage × List ChatMessage × Bool) :=
  let exceeds (outer chain : List ChatMessage) : Bool :=
    budgetTokens < (messagesTokens outer + messagesTokens chain : Nat)
  let chain := truncateChainToolContents chain toolResultMaxChars
  if !exceeds outer chain then .ok (outer, chain, false)
  else
    let chain := dropWhileOver (exceeds outer) chain.length chain
    if !exceeds outer chain then .ok (outer, chain, false)
    else
      let chain := truncateChainToolContents (compressChainForReouter chain) toolResultMaxChars
      match rebuildOuter with
      | none => .ok (outer, dropWhileOver (exceeds outer) chain.length chain, false)
      | some (.error e) => .error e
      | some (.ok rebuilt) => .ok (rebuilt, dropWhileOver (exceeds rebuilt) chain.length chain, true)

/-- The chain holds the user row `text`. -/
def chainHas (chain : List ChatMessage) (text : String) : Bool :=
  chain.any fun m => m.role = .user && m.content = .str text

def LoopState.appendMissing (s : LoopState) (text : String) : LoopState :=
  if chainHas s.chainMessages text then s else s.append (obsUserMessage text)

def ensureLessonPinInChain (s : LoopState) : LoopState :=
  match s.lessonPinMessage.filter (· ≠ "") with
  | none => s
  | some pin => s.appendMissing pin

def storeAndPinLesson (s : LoopState) (lesson : String) : LoopState :=
  let body := stripStr lesson
  if body = "" then s
  else
    let pin := lessonPinHostMessage body
    { s with
      lessons := lastRows maxLessonPins (s.lessons ++ [body])
      lessonCaptured := true
      lessonPinMessage := some pin }.appendMissing pin

def maybeCaptureFreeTextLesson (s : LoopState) (content : String) (hopWasFlood : Bool) :
    LoopState :=
  if !s.lessonRequestSent || s.lessonCaptured || hopWasFlood then s
  else
    let text := stripStr content
    if text = "" then s
    else
      let lesson := LoopText.compactLesson text
      if lesson = "" then s else storeAndPinLesson s lesson

/-- The text of a drained interjection; other items are skipped. -/
def interjectionText (item : Json) : Option String :=
  match item with
  | .str s => if s = "" then none else some s
  | .obj _ =>
    let given := [item.field? "content", item.field? "text"].reduceOption.find? truthy
    ((given.map pyStr).filter (· ≠ ""))
  | _ => none

def drainInterjections (s : LoopState) (items : List Json) : LoopState :=
  { s with chainMessages := s.chainMessages ++ (items.filterMap interjectionText).map obsUserMessage }

def precheck (cfg : LoopConfig) (s : LoopState) (now : Int) :
    Except LoopError (Option StopReason) := do
  let wall ← shouldStopWallClock cfg.settings cfg.startedAt now
  let declined ← shouldStopTimeContinueDeclined cfg.settings s.lastActivity s.continueInjects now
  return resolveHostPrecheckStop wall s.hop cfg.settings.maxToolHops declined

def injectContinue (cfg : LoopConfig) (s : LoopState) (now : Int) : Except LoopError LoopState := do
  if ← shouldInjectContinue cfg.settings s.lastActivity s.continueInjects now then
    let idle := LoopText.wholeMinutes (now - s.lastActivity)
    let hostLine := continueHostMessage (max idle cfg.settings.continueIdleMinutes)
    return { s with
      continueInjects := s.continueInjects + 1
      lastActivity := now }.append (obsUserMessage hostLine)
  else return s

def forceRebuild (cfg : LoopConfig) (s : LoopState) (input : HopInput) : LoopState :=
  if cfg.canRebuildOuter && cfg.hasViewingDirtyFn && input.viewingDirty then
    match input.forcedRebuild with
    | some outer => { s with outerPrefix := outer, reouterCount := s.reouterCount + 1 }
    | none => s
  else s

def trimInTurn (cfg : LoopConfig) (s : LoopState) (input : HopInput) :
    Except LoopError LoopState := do
  let budget := min cfg.settings.slidingInputTokens cfg.settings.inTurnMaxTokens
  let (outer, chain, didRe) ← enforceInTurnBudget s.outerPrefix s.chainMessages budget
    cfg.settings.toolResultMaxChars
    (if cfg.canRebuildOuter then some input.budgetRebuild else none)
  return { s with
    outerPrefix := outer
    chainMessages := chain
    reouterCount := if didRe then s.reouterCount + 1 else s.reouterCount }

/-- A round up to its chat call. -/
def prepareCall (cfg : LoopConfig) (s : LoopState) (input : HopInput) : Flow :=
  match precheck cfg s input.now with
  | .error e => .raised e s
  | .ok (some reason) => .stop reason s
  | .ok none =>
    match injectContinue cfg s input.now with
    | .error e => .raised e s
    | .ok t =>
      let u := forceRebuild cfg t input
      match trimInTurn cfg u input with
      | .error e => .raised e u
      | .ok v => .next (ensureLessonPinInChain v)

def callMessages (s : LoopState) : List ChatMessage := s.outerPrefix ++ s.chainMessages

def callToolChoice (cfg : LoopConfig) (s : LoopState) : Option ToolChoice :=
  (socialFirstHopToolChoice cfg.socialWake s.hop).or
    (postLoadSkillToolChoice s.pendingSkillCommit cfg.settings.postLoadSkillToolChoiceRequired)

def countBeat (s : LoopState) (hopWasFlood : Bool) : LoopState :=
  { s with
    hop := s.hop + 1
    modelBeats := s.modelBeats + 1
    channelFloodBeats := if hopWasFlood then s.channelFloodBeats + 1 else s.channelFloodBeats }

def executeOne (s : LoopState) (tc : ToolCall) (o : ToolOutcome) :
    LoopState × Except LoopError ToolResult :=
  if !tc.argumentsParseOk then
    (s, .ok { ok := false, payload := .obj [], errorReason := some "invalid_json_arguments" })
  else
    match o.taskChangedAt with
    | none => (s, o.result)
    | some t => ({ s with lastActivity := t, ledgerMutated := true }, o.result)

def optJson (s : Option String) : Json :=
  match s with
  | none => .null
  | some s => .str s

/-- The answer to a repeated failing call that is not run again. -/
def skippedResult (s : LoopState) (tc : ToolCall) : ToolResult :=
  { ok := false
    errorReason := some "skipped_identical"
    payload := .obj [
      ("blocked_duplicate", .bool true),
      ("prior_error_reason", optJson s.thrashLastError),
      ("attempt", .int (s.thrashStreak + 1)),
      ("args_echo", .obj (redactToolCallArguments tc.parsedArguments).items),
      ("next_actions",
        .arr [.str "change tool or arguments", .str "or free-text stop / thrash lesson"]),
      ("do_not", .arr [.str "repeat this exact call"]),
      ("host_note", .str ("HOST skipped re-exec of identical failing call " ++
        "— visible by design"))] }

def skipsCall (cfg : LoopConfig) (s : LoopState) (tc : ToolCall) : Bool :=
  s.thrashLastFp = some (toolFingerprint tc.name tc.parsedArguments) &&
    shouldSkipIdentical cfg.skipIdenticalEnabled s.thrashStreak s.thrashLastOk s.thrashSkipCount

def callTool (cfg : LoopConfig) (s : LoopState) (tc : ToolCall) (o : ToolOutcome) :
    LoopState × Except LoopError ToolResult :=
  if skipsCall cfg s tc then
    ({ s with thrashSkipCount := s.thrashSkipCount + 1 }, .ok (skippedResult s tc))
  else executeOne s tc o

def noteThrash (s : LoopState) (upd : ThrashUpdate) : LoopState :=
  { s with
    thrashLastFp := some upd.fingerprint
    thrashStreak := upd.streak
    thrashLastOk := some upd.ok
    thrashLastError := upd.errorReason
    thrashLastTool := some upd.toolName
    thrashTried :=
      if upd.fingerprint ∈ s.thrashTried then s.thrashTried
      else lastRows thrashTriedCap (s.thrashTried ++ [upd.fingerprint]) }

/-- The identical-fail streak after a lesson request. -/
def noteLessonFail (s : LoopState) (upd : ThrashUpdate) : LoopState :=
  if s.lessonRequestSent && !s.lessonCaptured then
    if !upd.ok && s.lessonSynthFp = some upd.fingerprint then
      { s with lessonFailsSinceRequest := s.lessonFailsSinceRequest + 1 }
    else if !upd.ok then
      { s with lessonSynthFp := some upd.fingerprint, lessonFailsSinceRequest := 1 }
    else { s with lessonFailsSinceRequest := 0, lessonSynthFp := none }
  else s

def withAttempt (tr : ToolResult) (streak : Nat) : ToolResult :=
  let payload := ((dictOf tr.payload).getD .empty).set "attempt" (.int streak)
  { tr with payload := .obj payload.items }

def toolMessage (cfg : LoopConfig) (tc : ToolCall) (tr : ToolResult) : ChatMessage :=
  { role := .tool
    toolCallId := some tc.id
    content := .str (toolResultToContent tr cfg.settings.toolResultMaxChars tc.name) }

/-- A successful `load_skill` arms or replaces the pending skill, another success clears it. -/
def armSkillCommit (s : LoopState) (tc : ToolCall) (tr : ToolResult) : LoopState :=
  if !tr.ok then s
  else if tc.name = "load_skill" then
    { s with pendingSkillCommit := (skillNameFromLoad tc tr).filter isCommitEligibleSkill }
  else { s with pendingSkillCommit := none }

def noteToolsRan (s : LoopState) (tr : ToolResult) : LoopState :=
  if tr.ok && !tr.countsAsSpeak then
    { s with toolsRan := true, spokeSinceNonSpeakTool := false }
  else s

/-- `mark_spoke` reads the clock. -/
def noteSpoke (s : LoopState) (tr : ToolResult) (clock : Int) : LoopState :=
  if tr.countsAsSpeak && tr.ok then
    { s with spokeSinceNonSpeakTool := true, spoke := true, lastActivity := clock }
  else s

def LoopState.thrashUpdate (s : LoopState) (tc : ToolCall) (tr : ToolResult) : ThrashUpdate :=
  updateThrashStreak s.thrashLastFp s.thrashStreak tc.name tc.parsedArguments tr.ok tr.errorReason

/-- What the loop does with a tool result: streaks, the tool row, and the flags it sets. -/
def recordResult (cfg : LoopConfig) (s : LoopState) (tc : ToolCall) (raw : ToolResult)
    (clock : Int) : LoopState × ToolResult :=
  let upd := s.thrashUpdate tc raw
  let tr := withAttempt raw upd.streak
  let t := (noteLessonFail (noteThrash s upd) upd).append (toolMessage cfg tc tr)
  (noteSpoke (noteToolsRan (armSkillCommit t tc tr) tr) tr clock, tr)

def armFrom (s : LoopState) (tr : ToolResult) : LoopState :=
  match tr.armWait with
  | some arm => { s with armWait := some arm }
  | none => s

/-- The calls of a batch in order, from call number `i`; `.next` when all of them were run. -/
def runCalls (cfg : LoopConfig) (execute : Nat → ToolOutcome) (i : Nat) (s : LoopState) :
    List ToolCall → List ToolResult × Flow
  | [] => ([], .next s)
  | tc :: rest =>
    match callTool cfg s tc (execute i) with
    | (t, .error e) => ([], .raised e t)
    | (t, .ok raw) =>
      let (u, tr) := recordResult cfg t tc raw (execute i).clock
      match stopFromToolResult tr.endsMoment tr.stopReason with
      | some reason => ([tr], .stop reason (armFrom u tr))
      | none =>
        let (results, flow) := runCalls cfg execute (i + 1) u rest
        (tr :: results, flow)

/-- The thrash line of this batch, when it is due. -/
def thrashHostLine (s : LoopState) : Option String :=
  match s.thrashLastTool.filter (· ≠ "") with
  | none => none
  | some tool =>
    match shouldInjectThrashHost s.thrashStreak s.thrashLastOk s.thrashHostSent
        s.thrashLastTool with
    | none => none
    | some _ =>
      some (thrashHostMessage tool s.thrashStreak (thrashDetail s.thrashLastOk s.thrashLastError))

def injectThrashHost (s : LoopState) : LoopState :=
  match thrashHostLine s with
  | none => s
  | some line =>
    { s with thrashHostSent := s.thrashHostSent + 1 }.append (obsUserMessage line)

def requestLesson (s : LoopState) : LoopState :=
  if 0 < s.thrashHostSent ∧ ¬ s.lessonRequestSent then
    { s with
      lessonRequestSent := true
      lessonFailsSinceRequest := 0
      lessonSynthFp := s.thrashLastFp }.append (obsUserMessage thrashLessonRequestMessage)
  else s

def synthesizeLessonOnce (s : LoopState) : LoopState :=
  if s.lessonRequestSent && !s.lessonCaptured &&
      decide (lessonSynthFailStreak ≤ s.lessonFailsSinceRequest) then
    storeAndPinLesson s (synthesizeLesson s.thrashTried s.thrashLastError
      (orStr (s.thrashLastTool.getD "") "tool"))
  else s

/-- What follows a batch whose calls were all run. -/
def finishBatch (s : LoopState) (interjections : List Json) : Bool × LoopState :=
  let t := drainInterjections s interjections
  ((thrashHostLine t).isSome, synthesizeLessonOnce (requestLesson (injectThrashHost t)))

def handleToolBatch (cfg : LoopConfig) (s : LoopState) (result : ChatCompletionResult)
    (input : HopInput) : List ToolResult × Bool × Flow :=
  match runCalls cfg input.execute 0 (s.append (assistantMessageFromResult result))
      result.toolCalls with
  | (results, .next t) =>
    let (thrash, u) := finishBatch t input.interjections
    (results, thrash, .next u)
  | (results, flow) => (results, false, flow)

/-- The line the free-text branch injects, in its fixed order; `none` stops the moment. -/
def freeTextNudge (cfg : LoopConfig) (s : LoopState) (content : String) (hopWasFlood : Bool) :
    Option Nudge :=
  let noSpeak := shouldAllowNoSpeak cfg.socialWake s.spoke s.noSpeakNudgeSent
    s.pendingSkillCommit s.skillCommitSent
  if shouldSkillCommitNudge s.pendingSkillCommit s.skillCommitSent true = .injected then
    some .skillCommit
  else if noSpeak then some .noSpeak
  else if shouldAnswerSpeakNudge cfg.socialWake s.spoke s.answerSpeakNudgeSent true content
      s.toolsRan s.spokeSinceNonSpeakTool hopWasFlood s.pendingSkillCommit
      s.skillCommitSent = .injected then
    some .answerSpeak
  else if shouldInMomentWorkNudge cfg.continuousEnabled cfg.socialWake s.spoke noSpeak
      s.workContinueInjects cfg.workNudgeMax
      (inMomentWorkContext cfg.socialWake s.toolsRan s.ledgerMutated cfg.wakeKind
        cfg.hasOpenGoalsSlice)
      hopWasFlood s.thrashHostSent = .injected then
    some .workContinue
  else none

def applyNudge (s : LoopState) : Nudge → LoopState
  | .skillCommit =>
    { s with
      skillCommitSent := true
      pendingSkillCommit := none
      skillCommitInjects := s.skillCommitInjects + 1 }.append
        (obsUserMessage (skillCommitHostMessage (s.pendingSkillCommit.getD "")))
  | .noSpeak => { s with noSpeakNudgeSent := true }.append (obsUserMessage noSpeakNudge)
  | .answerSpeak => { s with answerSpeakNudgeSent := true }.append (obsUserMessage answerSpeakHost)
  | .workContinue =>
    { s with workContinueInjects := s.workContinueInjects + 1 }.append
      (obsUserMessage workContinueHost)

/-- The free-text branch: the lesson is captured first, then at most one line is injected. -/
def handleFreeText (cfg : LoopConfig) (s : LoopState) (result : ChatCompletionResult)
    (hopWasFlood : Bool) : Option Nudge × Flow :=
  let t := maybeCaptureFreeTextLesson { s with lastStopHopWasFlood := hopWasFlood }
    result.content hopWasFlood
  match freeTextNudge cfg t result.content hopWasFlood with
  | some n => (some n, .next (applyNudge t n))
  | none => (none, .stop stopForNoTools t)

/-- A round from its chat call on. -/
def takeReply (cfg : LoopConfig) (s : LoopState) (input : HopInput) : HopReport × Flow :=
  let called : HopReport := { call := some (callMessages s), toolChoice := callToolChoice cfg s }
  match input.reply with
  | .error e => (called, .raised e s)
  | .ok raw =>
    let (result, hopWasFlood) := sanitizeCompletion raw
    let t := countBeat s hopWasFlood
    if result.toolCalls ≠ [] then
      let (results, thrash, flow) :=
        handleToolBatch cfg { t with lastStopHopWasFlood := false } result input
      ({ called with results := results, thrashHost := thrash }, flow)
    else
      let (nudge, flow) := handleFreeText cfg t result hopWasFlood
      ({ called with freeText := true, nudge := nudge }, flow)

/-- One round of `while True`. -/
def hop (cfg : LoopConfig) (s : LoopState) (input : HopInput) : HopReport × Flow :=
  match prepareCall cfg s input with
  | .next t => takeReply cfg t input
  | flow => ({}, flow)

structure DoLoopResult where
  stopReason : StopReason
  hopCount : Nat
  armWait : Option WaitArm
  spoke : Bool
  momentId : String
  reouterCount : Nat
  continueInjects : Nat
  workContinueInjects : Nat
  skillCommitInjects : Nat
  thrashHostInjects : Nat
  thrashSkips : Nat
  toolsRan : Bool
  ledgerMutated : Bool
  modelBeats : Nat
  channelFloodBeats : Nat
  lastStopHopWasFlood : Bool
  error : Option String

def finish (cfg : LoopConfig) (s : LoopState) (reason : StopReason) (error : Option String) :
    DoLoopResult :=
  { stopReason := reason
    hopCount := s.hop
    armWait := s.armWait
    spoke := s.spoke
    momentId := cfg.momentId
    reouterCount := s.reouterCount
    continueInjects := s.continueInjects
    workContinueInjects := s.workContinueInjects
    skillCommitInjects := s.skillCommitInjects
    thrashHostInjects := s.thrashHostSent
    thrashSkips := s.thrashSkipCount
    toolsRan := s.toolsRan
    ledgerMutated := s.ledgerMutated
    modelBeats := s.modelBeats
    channelFloodBeats := s.channelFloodBeats
    lastStopHopWasFlood := s.lastStopHopWasFlood
    error := error }

/-- `sub in text`. -/
def containsChars (text sub : List Char) : Bool := text.tails.any fun t => sub.isPrefixOf t

/-- The stop reason and error text of an exception that leaves the loop body. -/
def errorStop : LoopError → StopReason × String
  | .usageHardStop level reason => (.policy, "usage_hard_stop:" ++ level ++ ":" ++ reason)
  | .timeout _ msg => (.error, "provider_timeout:" ++ msg)
  | .runtime name msg =>
    if "chat request timed out".toList.isPrefixOf msg.toList ||
        containsChars msg.toList "timed out after".toList then
      (.error, "provider_timeout:" ++ msg)
    else (.error, name ++ ": " ++ msg)
  | .other name msg => (.error, name ++ ": " ++ msg)

/-- The rounds of a moment, one for each input, up to the one that ends it. -/
def runLoopBody (cfg : LoopConfig) (s : LoopState) :
    List HopInput → List HopReport × Option DoLoopResult
  | [] => ([], none)
  | input :: rest =>
    match hop cfg s input with
    | (r, .next t) =>
      let (reports, result) := runLoopBody cfg t rest
      (r :: reports, result)
    | (r, .stop reason t) => ([{ r with ended := true }], some (finish cfg t reason none))
    | (r, .raised e t) =>
      ([{ r with ended := true }], some (finish cfg t (errorStop e).1 (some (errorStop e).2)))

def initialState (outer : List ChatMessage) (startedAt : Int) : LoopState :=
  { outerPrefix := outer, lastActivity := startedAt }

def runDoLoop (cfg : LoopConfig) (outer : List ChatMessage) (inputs : List HopInput) :
    List HopReport × Option DoLoopResult :=
  runLoopBody cfg (initialState outer cfg.startedAt) inputs

end Loop
end Elyra.Loop
