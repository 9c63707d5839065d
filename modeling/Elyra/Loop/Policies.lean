import Elyra.Framework.Python
import Elyra.Framework.Text

namespace Elyra.Loop

/-- Text functions whose results the loop stores or compares only: Unicode case folding, the
channel-marker expressions, the stable form of tool arguments, the lesson trimmer, the `repr` of a
list of strings, and `int(delta.total_seconds() / 60.0)` of microseconds. -/
class LoopText where
  casefold : String → String
  channelMarkerCount : String → Nat
  stripChannelMarkers : String → String
  canonicalArgs : Dict String Json → String
  compactLesson : String → String
  reprList : List String → String
  wholeMinutes : Int → Int

inductive LoopError where
  | usageHardStop (level reason : String)
  | timeout (name msg : String)
  | runtime (name msg : String)
  | other (name msg : String)
  deriving DecidableEq

inductive StopReason where
  | noTools | wait | blocked | policy | timeContinueDeclined | wallClock | interrupted | error
  | maxHops
  deriving DecidableEq

def stopReasons : List (String × StopReason) :=
  [("no_tools", .noTools), ("wait", .wait), ("blocked", .blocked), ("policy", .policy),
    ("time_continue_declined", .timeContinueDeclined), ("wall_clock", .wallClock),
    ("interrupted", .interrupted), ("error", .error), ("max_hops", .maxHops)]

def stopForNoTools : StopReason := .noTools

/-- A missing or unknown reason with `ends_moment` falls back to `policy`. -/
def stopFromToolResult (endsMoment : Bool) (stopReason : Option String) : Option StopReason :=
  if endsMoment then
    some (((stopReason.bind fun r => stopReasons.find? (·.1 = r)).map Prod.snd).getD .policy)
  else none

def resolveHostPrecheckStop (wallClockExceeded : Bool) (hop : Nat) (maxToolHops : Int)
    (timeContinueDeclined : Bool) : Option StopReason :=
  if wallClockExceeded then some .wallClock
  else if maxToolHops ≤ hop then some .maxHops
  else if timeContinueDeclined then some .timeContinueDeclined
  else none

structure LoopSettings where
  slidingInputTokens : Int
  inTurnMaxTokens : Int
  toolResultMaxChars : Int
  continueIdleMinutes : Int
  momentWallClockMinutes : Int
  continueMaxInjects : Int
  maxToolHops : Int
  postLoadSkillToolChoiceRequired : Bool

/-- `timedelta(minutes=n)` in microseconds, for `n` at least zero. -/
def timedeltaMinutes (n : Int) : Except LoopError Int :=
  if n < 1440000000000 then .ok (n * 60000000)
  else .error (.other "OverflowError" "date value out of range")

def idleFor (lastActivity now minutes : Int) : Except LoopError Bool := do
  return (← timedeltaMinutes (max minutes 0)) ≤ now - lastActivity

def shouldInjectContinue (settings : LoopSettings) (lastActivity : Int) (injectsSoFar : Nat)
    (now : Int) : Except LoopError Bool :=
  if settings.continueMaxInjects ≤ injectsSoFar then .ok false
  else idleFor lastActivity now settings.continueIdleMinutes

def shouldStopTimeContinueDeclined (settings : LoopSettings) (lastActivity : Int)
    (injectsSoFar : Nat) (now : Int) : Except LoopError Bool :=
  if injectsSoFar < settings.continueMaxInjects then .ok false
  else idleFor lastActivity now settings.continueIdleMinutes

def shouldStopWallClock (settings : LoopSettings) (startedAt now : Int) : Except LoopError Bool :=
  idleFor startedAt now settings.momentWallClockMinutes

def continueHostMessage (idleMinutes : Int) : String :=
  "HOST: " ++ toString idleMinutes ++
    " minutes idle on this work — continue / speak / wait / stop / schedule?"

section Skills

variable [LoopText]

def stripStr (s : String) : String := .ofList (strip s.toList)

def normalizeSkillName (name : String) : String := LoopText.casefold (stripStr name)

def socialSkills : List String := ["talk", "rest"]

def noCommitSkills : List String := ["rest"]

def isSocialSkill (name : String) : Bool :=
  normalizeSkillName name ∈ socialSkills.map normalizeSkillName

/-- Whether a successful `load_skill` of `name` arms the pending skill. -/
def isCommitEligibleSkill (name : String) : Bool :=
  normalizeSkillName name ≠ "" && normalizeSkillName name ∉ noCommitSkills.map normalizeSkillName

def isWorkSkillOrUnknown (name : String) : Bool :=
  normalizeSkillName name ≠ "" && !isSocialSkill name

def rstrip (cs : List Char) : List Char := (cs.reverse.dropWhile isSpace).reverse

def playbookFollow (name : String) : String :=
  if normalizeSkillName name = "rest" then
    "Follow the playbook. Prefer honest stop with no tools when idle " ++
      "(see \"First action\" in the body). Do not invent busywork."
  else
    "Follow steps in order. Prefer a tool_call implementing step 1 " ++
      "(see \"First tool call\" in the body) over free-text re-planning."

/-- A line of the frame that is left out when its value is empty. -/
def playbookLine (label : String) (value : Option String) : List String :=
  match value with
  | some v => if v = "" then [] else [label ++ v]
  | none => []

def formatPlaybookActive (name body : String) (source description : Option String) : String :=
  "\n".intercalate
    (["PLAYBOOK ACTIVE: " ++ name] ++ playbookLine "source: " source ++
      playbookLine "catalog: " description ++
      ["", playbookFollow name, "", "## Playbook", "", .ofList (rstrip body.toList), ""])

def skillCommitHostMessage (name : String) : String :=
  "HOST: skill " ++ name ++ " is loaded — prefer the next playbook step via tools " ++
    "(ledger / growth / speak as the playbook says). Free-text alone does not " ++
    "advance the skill."

/-- A nudge decision; `injected` is the one reason that injects. -/
inductive NudgeDecision where
  | injected | notFreeText | alreadySent | nonePending | notEligible | notSocial | notSpoke | flood
  | skillCommitOwns | noContent | noPostToolGap | disabled | thrashRecovery | socialNudgeFirst
  | needSpoke | budget | notWorkish
  deriving DecidableEq

/-- The pending name when it is set and not empty. -/
def pendingName (pending : Option String) : Option String := pending.filter (· ≠ "")

def shouldSkillCommitNudge (pendingSkillName : Option String) (skillCommitSent : Bool)
    (freeTextNoTools : Bool) : NudgeDecision :=
  if !freeTextNoTools then .notFreeText
  else if skillCommitSent then .alreadySent
  else
    match pendingName pendingSkillName with
    | none => .nonePending
    | some name => if isCommitEligibleSkill name then .injected else .notEligible

/-- A work or unknown skill is pending and its commit line has not been sent. -/
def commitOwnsHop (pendingSkillName : Option String) (skillCommitSent : Bool) : Bool :=
  match pendingName pendingSkillName with
  | none => false
  | some name => isWorkSkillOrUnknown name && !skillCommitSent

def shouldAllowNoSpeak (socialWake spoke noSpeakNudgeSent : Bool)
    (pendingSkillName : Option String) (skillCommitSent : Bool) : Bool :=
  if !socialWake || spoke || noSpeakNudgeSent then false
  else !commitOwnsHop pendingSkillName skillCommitSent

def shouldAnswerSpeakNudge (socialWake spoke answerSpeakNudgeSent freeTextNoTools : Bool)
    (freeTextContent : String) (toolsRan spokeSinceNonSpeakTool hopWasFlood : Bool)
    (pendingSkillName : Option String) (skillCommitSent : Bool) : NudgeDecision :=
  if !freeTextNoTools then .notFreeText
  else if !socialWake then .notSocial
  else if !spoke then .notSpoke
  else if answerSpeakNudgeSent then .alreadySent
  else if hopWasFlood then .flood
  else if commitOwnsHop pendingSkillName skillCommitSent then .skillCommitOwns
  else if strip freeTextContent.toList = [] then .noContent
  else if toolsRan && !spokeSinceNonSpeakTool then .injected
  else .noPostToolGap

def noSpeakNudge : String :=
  "HOST: no speak tool used — if the user needs a reply, call speak; otherwise stop."

def answerSpeakHost : String :=
  "HOST: free-text never reaches glass. If tools returned something the user " ++
    "still needs on glass, call speak with that; otherwise stop (no free-text monologue)."

/-- A tool choice a call is pinned to. -/
inductive ToolChoice where
  | speak | required
  deriving DecidableEq

def socialFirstHopToolChoice (socialWake : Bool) (hop : Nat) : Option ToolChoice :=
  if socialWake ∧ hop = 0 then some .speak else none

def postLoadSkillToolChoice (pendingSkillName : Option String) (enabled : Bool) :
    Option ToolChoice :=
  if !enabled then none
  else
    match pendingName pendingSkillName with
    | none => none
    | some name => if isCommitEligibleSkill name then some .required else none

end Skills

def nonSocialWorkKinds : List String := ["task_ready", "moment_continue", "timer"]

def inMomentWorkContext (socialWake toolsRan ledgerMutated : Bool) (wakeKind : String)
    (hasOpenGoalsSlice : Bool) : Bool :=
  if toolsRan || ledgerMutated then true
  else if socialWake then false
  else if wakeKind ∈ nonSocialWorkKinds then true
  else hasOpenGoalsSlice

def shouldInMomentWorkNudge (continuousEnabled socialWake spoke noSpeakNudgePendingOrNeeded : Bool)
    (workNudgeSent : Nat) (maxNudges : Int) (workContext lastHopWasFlood : Bool)
    (thrashHostSent : Nat) : NudgeDecision :=
  if !continuousEnabled then .disabled
  else if 0 < thrashHostSent then .thrashRecovery
  else if lastHopWasFlood then .flood
  else if socialWake && !spoke then
    if noSpeakNudgePendingOrNeeded then .socialNudgeFirst else .needSpoke
  else if maxNudges ≤ 0 ∨ maxNudges ≤ workNudgeSent then .budget
  else if !workContext then .notWorkish
  else .injected

def workContinueHost : String :=
  "HOST: work still open — call tools to continue (load_skill / ledger / sandbox), " ++
    "speak if the user needs an update, or stop if truly done."

end Elyra.Loop
