import Elyra.Loop.Messages
import Elyra.Loop.Policies
import Elyra.Framework.Json.Parse

namespace Elyra.Loop

def failStreakThreshold : Nat := 3
def okStreakThreshold : Nat := 5
def maxThrashHosts : Nat := 1
def thrashTriedCap : Nat := 8
def maxLessonPins : Nat := 2
def lessonSynthFailStreak : Nat := 3
def skipIdenticalAfter : Nat := 5
def maxSkipsPerMoment : Nat := 8

section Thrash

variable [LoopText]

def normalizeToolName (toolName : String) : String := LoopText.casefold (stripStr toolName)

/-- `a or b` on strings. -/
def orStr (a b : String) : String := if a = "" then b else a

def toolFingerprint (toolName : String) (args : Dict String Json) : String :=
  normalizeToolName toolName ++ "|" ++
    if args.items = [] then "\x7b\x7d" else LoopText.canonicalArgs args

structure ThrashUpdate where
  fingerprint : String
  streak : Nat
  ok : Bool
  errorReason : Option String
  toolName : String

def updateThrashStreak (prevFp : Option String) (prevStreak : Nat) (toolName : String)
    (args : Dict String Json) (ok : Bool) (errorReason : Option String) : ThrashUpdate :=
  let fp := toolFingerprint toolName args
  { fingerprint := fp
    streak := if prevFp = some fp then prevStreak + 1 else 1
    ok := ok
    errorReason := errorReason
    toolName := orStr (orStr (normalizeToolName toolName) (stripStr toolName)) toolName }

inductive ThrashKind where
  | failStreak | speakRepeat | repeated
  deriving DecidableEq

/-- `none` where the source decides not to inject. -/
def shouldInjectThrashHost (streak : Nat) (lastOk : Option Bool) (thrashHostSent : Nat)
    (toolName : Option String) : Option ThrashKind :=
  match toolName with
  | none => none
  | some name =>
    if strip name.toList = [] then none
    else if maxThrashHosts ≤ 0 ∨ maxThrashHosts ≤ thrashHostSent then none
    else
      match lastOk with
      | some false => if failStreakThreshold ≤ streak then some .failStreak else none
      | some true =>
        if okStreakThreshold ≤ streak then
          some (if normalizeToolName name = "speak" then .speakRepeat else .repeated)
        else none
      | none => none

def isolationErrorPrefixes : List String := ["sandbox_unavailable", "guest_pytest_unavailable"]

def isIsolationError (errorReason : Option String) : Bool :=
  match errorReason with
  | none => false
  | some e =>
    let er := LoopText.casefold (stripStr e)
    er ≠ "" && isolationErrorPrefixes.any fun p =>
      er = p || (p ++ ":").toList.isPrefixOf er.toList

def thrashHostMessage (toolName : String) (streak : Nat) (detail : String) : String :=
  let detail := orStr detail "unknown"
  let head := "HOST: tool thrash — repeated " ++ toolName ++ " ×" ++ toString streak
  if isIsolationError (some detail) then
    head ++ " with isolation error (" ++ detail ++
      "). Sandbox unavailable / guest not ready — do not retry the same " ++
      "guest call. Change approach: update_task blocked with reason, speak if the " ++
      "operator must fix MSB/pyenv, or load_skill(\"rest\"). Rest is not a tool name."
  else
    head ++ " with same args (" ++ detail ++
      "). Do not repeat that call. Change tool or arguments, " ++
      "or stop with free-text (no tools). Rest means load_skill(\"rest\") " ++
      "or honest no-tool stop — rest is not a tool name."

def thrashDetail (lastOk : Option Bool) (lastError : Option String) : String :=
  if lastOk = some true then "ok"
  else orStr (lastError.getD "") (if lastOk = some false then "error" else "unknown")

/-- Whether a call with the fingerprint of the last one is answered without being run. -/
def shouldSkipIdentical (enabled : Bool) (streak : Nat) (lastOk : Option Bool)
    (skipCount : Nat) : Bool :=
  if !enabled then false
  else if lastOk ≠ some false then false
  else if streak < skipIdenticalAfter then false
  else if maxSkipsPerMoment ≤ 0 ∨ maxSkipsPerMoment ≤ skipCount then false
  else true

def thrashLessonRequestMessage : String :=
  "HOST: thrash lesson — reply in free-text only (1–3 sentences) OR structured:\n" ++
    "FAILURE: …\n" ++ "TRIED: …\n" ++ "WHY: …\n" ++ "NEXT: …\n" ++
    "Then change tool/args on a following hop (or honest no-tool stop). " ++
    "Do not repeat the thrashing call."

def lessonPinHostMessage (lesson : String) : String :=
  "HOST: moment lesson pin — " ++ orStr (stripStr lesson) "(empty)"

def synthesizeLesson (tried : List String) (lastError : Option String) (toolName : String) :
    String :=
  let name := orStr (stripStr toolName) "tool"
  let err := orStr (lastError.getD "") "ok_spam"
  let triedTail := LoopText.reprList (lastRows 4 tried)
  if isIsolationError lastError then
    "HOST-synthesized lesson: isolation blocked " ++ name ++ " (" ++ err ++ "); tried=" ++
      triedTail ++ "; next=block task / speak / rest — not retry same guest tool; " ++
      "not a first-person claim."
  else
    "HOST-synthesized lesson: failed repeating " ++ name ++ " (" ++ err ++ "); tried=" ++
      triedTail ++ "; next=change args or stop — not a first-person claim."

end Thrash

/-- One tool call of a completion; `arguments` is empty where they did not parse. -/
structure ToolCall where
  id : String
  name : String
  arguments : Dict String Json
  argumentsRaw : String := ""
  argumentsParseOk : Bool := true

structure ChatCompletionResult where
  content : String
  reasoningContent : String
  toolCalls : List ToolCall := []

structure WaitArm where
  waitId : String
  timeoutSeconds : Int
  prompt : String
  choices : List String
  userId : String

structure ToolResult where
  ok : Bool
  payload : Json
  errorReason : Option String := none
  endsMoment : Bool := false
  stopReason : Option String := none
  armWait : Option WaitArm := none
  countsAsSpeak : Bool := false

/-- The value when it is a dict. -/
def dictOf (v : Json) : Option (Dict String Json) :=
  match v with
  | .obj kvs => some (.ofList kvs)
  | _ => none

def strOf (v : Option Json) : Option String :=
  match v with
  | some (.str s) => some s
  | _ => none

def secretWriteTools : List String := ["secrets_set"]

def secretWriteArgKeys : List String := ["value", "secret", "token", "password", "api_key"]

def redactPlaceholder : String := "***"

def redactToolCallArguments (args : Dict String Json) : Dict String Json :=
  args.keys.foldl
    (fun out k => if k ∈ secretWriteArgKeys then out.set k (.str redactPlaceholder) else out) args

def ToolCall.parsedArguments (tc : ToolCall) : Dict String Json :=
  if tc.argumentsParseOk then tc.arguments else .empty

def chainFunctionArguments (tc : ToolCall) : String :=
  if tc.name ∈ secretWriteTools then
    let args :=
      if tc.argumentsParseOk then tc.arguments
      else ((Json.loads tc.argumentsRaw.toList).bind dictOf).getD .empty
    .ofList (Json.dumps (.obj (redactToolCallArguments args).items))
  else if tc.argumentsRaw ≠ "" then tc.argumentsRaw
  else .ofList (Json.dumps (.obj tc.arguments.items))

def ToolCall.toWire (tc : ToolCall) : WireCall := ⟨tc.id, tc.name, chainFunctionArguments tc⟩

def serializeToolResult (tr : ToolResult) : Dict String Json :=
  let body := Dict.empty.set "ok" (.bool tr.ok)
  let body :=
    match tr.errorReason with
    | some e => body.set "error_reason" (.str e)
    | none => body
  match dictOf tr.payload with
  | some d => d.items.foldl (fun b p => if b.get? p.1 = none then b.set p.1 p.2 else b) body
  | none => body

section Text

variable [LoopText]

/-- The playbook frame of a successful `load_skill` with a body. -/
def playbookContent (tr : ToolResult) : Option String := do
  let d ← dictOf tr.payload
  let body ← strOf (d.get? "body")
  if body = "" then none
  else
    let name := orStr ((strOf (d.get? "name")).getD "") "unknown"
    some (formatPlaybookActive name body (strOf (d.get? "source")) (strOf (d.get? "description")))

def toolResultToContent (tr : ToolResult) (maxChars : Int) (toolName : String) : String :=
  match if toolName = "load_skill" ∧ tr.ok then playbookContent tr else none with
  | some framed => truncateToolContent framed maxChars
  | none =>
    truncateToolContent (.ofList (Json.dumps (.obj (serializeToolResult tr).items))) maxChars

def channelFloodMinMarkers : Nat := 5

def channelMarkerCount (text : String) : Nat :=
  if text = "" then 0 else LoopText.channelMarkerCount text

def isChannelFlood (text : String) : Bool := channelFloodMinMarkers ≤ channelMarkerCount text

def stripChannelMarkers (text : String) : String :=
  if text = "" then "" else LoopText.stripChannelMarkers text

def cleanText (raw : String) : String :=
  if 0 < channelMarkerCount raw then stripChannelMarkers raw else raw

/-- The completion without channel markers, and whether either text was a flood of them. -/
def sanitizeCompletion (result : ChatCompletionResult) : ChatCompletionResult × Bool :=
  ({ result with
      content := cleanText result.content
      reasoningContent := cleanText result.reasoningContent },
    isChannelFlood result.content || isChannelFlood result.reasoningContent)

def assistantMessageFromResult (result : ChatCompletionResult) : ChatMessage :=
  let rc := stripStr result.reasoningContent
  { role := .assistant
    content := if result.content = "" then .null else .str result.content
    toolCalls := result.toolCalls.map ToolCall.toWire
    reasoningContent :=
      if rc ≠ "" ∧ ¬ isChannelFlood rc then some result.reasoningContent else none }

/-- A string that is more than white space, stripped. -/
def nonBlank (v : Option Json) : Option String :=
  (strOf v).bind fun s => if strip s.toList = [] then none else some (stripStr s)

def skillNameFromLoad (tc : ToolCall) (tr : ToolResult) : Option String :=
  match nonBlank ((dictOf tr.payload).bind (·.get? "name")) with
  | some name => some name
  | none => if tc.argumentsParseOk then nonBlank (tc.arguments.get? "name") else none

end Text
end Elyra.Loop
