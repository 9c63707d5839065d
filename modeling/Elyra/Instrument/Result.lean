import Elyra.Framework.Json.Parse
import Elyra.Framework.Text
import Elyra.Instrument.UsageBridge

namespace Elyra.Instrument

open Json

inductive JobStatus where
  | running | completed | failed | needsHuman | interrupted
  deriving DecidableEq

/-- Membership in `TERMINAL_STATUSES`. -/
def JobStatus.terminal : JobStatus → Bool
  | .running => false
  | _ => true

inductive Mode where
  | prompt | design | implement | executePlan | deepResearch | review
  deriving DecidableEq

/-- `DEFAULT_TIMEOUT_S`, which is also the cap of `_timeout_for`. -/
def Mode.timeoutS : Mode → Nat
  | .prompt => 10 * 60
  | .design => 90 * 60
  | .implement => 120 * 60
  | .executePlan => 6 * 60 * 60
  | .deepResearch => 60 * 60
  | .review => 45 * 60

def asyncTimeoutThresholdS : Nat := 15 * 60

def defaultsAsync (mode : Mode) : Bool := decide (asyncTimeoutThresholdS < mode.timeoutS)

/-- Whether a mode is in `ARTIFACT_REQUIRED_MODES`. -/
def Mode.requiresArtifact : Mode → Bool
  | .design | .review => true
  | _ => false

/-- What the code asks `str.lower`, `str.splitlines` and its regular expressions for: the matches of
`_ARTIFACT_PATH_RE` and of `NEEDS_HUMAN`. -/
class TextPatterns where
  lower : String → String
  splitlines : String → List String
  artifactPaths : String → List String
  needsHuman : String → Bool

/-- ASCII case and line feeds, on texts that name no path and no open question. -/
@[reducible] def basicPatterns : TextPatterns where
  lower text := String.ofList (text.toList.map Char.toLower)
  splitlines text := (splitLines text.toList).map String.ofList
  artifactPaths _ := []
  needsHuman _ := false

/-- What `json.loads` raises on a text: `JSONDecodeError`, or another error. -/
inductive ScanErr where
  | decode
  | other (e : OutputErr)
  deriving DecidableEq

/-- `json.loads`, with its limits on digits and on depth. -/
class JsonScan where
  loads : String → Except ScanErr Json

/-- The JSON parser on texts that stay below the limits. -/
@[reducible] def basicScan : JsonScan where
  loads text :=
    match Json.loads text.toList with
    | some v => .ok v
    | none => .error .decode

/-- What a run leaves: its two streams, the files under its artifacts directory and those it wrote
elsewhere, with their sizes. -/
structure RunOutput where
  stdout : String
  stderr : String
  artifacts : List (String × Nat)
  elsewhere : List (String × Nat)
  deriving DecidableEq

structure Harvest where
  primaryFound : Bool
  artifactMissing : Bool
  needsHuman : Bool
  deriving DecidableEq

/-- The `result.json` of a job. -/
structure JobResult where
  ok : Bool
  status : JobStatus
  mode : Mode
  errorReason : Option String
  exitCode : Option Int
  summary : String
  hint : Option String
  usage : Option TokenUsage
  usageRecorded : Bool
  deriving DecidableEq

section Harvesting

def baseName (path : String) : String :=
  String.ofList ((path.toList.reverse.takeWhile (· ≠ '/')).reverse)

def mentions (text part : String) : Bool :=
  text.toList.tails.any fun t => part.toList.isPrefixOf t

def preferredArtifactNames : Mode → List String
  | .design => ["design.md", "summary.md"]
  | .review => ["review.md"]
  | .executePlan => ["summary.md"]
  | _ => []

def kindForName (name : String) (mode : Mode) : String :=
  if name = "design.md" then "design_doc"
  else if name = "summary.md" then
    -- the design summary and the plan summary have one name, and the first test wins
    "design_summary"
  else if name = "review.md" then "review"
  else if mode = .design then "design_doc"
  else if mode = .review then "review"
  else "artifact"

def filled (files : List (String × Nat)) (name : String) : Bool :=
  files.any fun f => f.1 = name && 0 < f.2

def collectPromptDirectedArtifacts (files : List (String × Nat)) (mode : Mode) : List String :=
  ((preferredArtifactNames mode).filter (filled files)).map (kindForName · mode)

variable [TextPatterns]

open TextPatterns

/-- Where a parsed path goes under the artifacts directory, and as what. -/
def plannedCopy (mode : Mode) (path : String) : String × String :=
  let name := baseName path
  let low := lower name
  if mentions low "design-doc" || low = "design.md" then ("design.md", "design_doc")
  else if mentions low "design-summary" || low = "summary.md" then ("summary.md", "design_summary")
  else if mentions low "review" then ("review.md", "review")
  else (name, kindForName name mode)

def planCopiesFromParsedPaths (mode : Mode) :
    List String → List String → List (String × String)
  | [], _ => []
  | path :: paths, usedDest =>
    let (dest, kind) := plannedCopy mode path
    if dest ∈ usedDest then planCopiesFromParsedPaths mode paths usedDest
    else (path, kind) :: planCopiesFromParsedPaths mode paths (dest :: usedDest)

def hasPrimary (mode : Mode) (kinds : List String) : Bool :=
  match mode with
  | .design => kinds.contains "design_doc"
  | .review => kinds.contains "review"
  | _ => !kinds.isEmpty

/-- `harvest_artifacts`: the files the run was asked for, then those its output names. A copy lands
under a name that the next harvest finds, so it says the same again. -/
def harvestArtifacts (mode : Mode) (found : RunOutput) (stdout : String) : Harvest :=
  let human := stdout ≠ "" && needsHuman stdout
  let directed := collectPromptDirectedArtifacts found.artifacts mode
  let kinds :=
    if hasPrimary mode directed then directed
    else directed ++ ((planCopiesFromParsedPaths mode (artifactPaths stdout) []).filter
      fun p => filled found.elsewhere p.1).map Prod.snd
  let primaryFound := hasPrimary mode kinds
  { primaryFound
    artifactMissing := mode.requiresArtifact && !primaryFound && !human
    needsHuman := human }

def resolveStatusFromHarvest (harvest : Harvest) (exitCode : Option Int) : JobStatus :=
  if harvest.needsHuman then .needsHuman
  else if harvest.artifactMissing then .failed
  else if exitCode = some 0 || exitCode = none then .completed
  else .failed

end Harvesting

section Classifying

variable [PyCoerce] [TextPatterns]

open TextPatterns

/-- What `json.loads` makes of a text, when that is an object; only `JSONDecodeError` is caught. -/
def scanObject [JsonScan] (text : String) : Except OutputErr (Option Members) :=
  match JsonScan.loads text with
  | .ok (.obj kvs) => .ok (some kvs)
  | .ok _ | .error .decode => .ok none
  | .error (.other e) => .error e

/-- The first of the lines that is an object. -/
def firstObject [JsonScan] : List String → Except OutputErr (Option Members)
  | [] => .ok none
  | line :: lines => do
    match ← scanObject line with
    | some kvs => return some kvs
    | none => firstObject lines

/-- The lines that may be an object, the last first. -/
def objectLines (text : String) : List String :=
  ((splitlines text).reverse.map fun line => String.ofList (strip line.toList)).filter fun line =>
    line.toList.head? = some '{'

/-- `parse_headless_json`: the whole text, else its last line that is an object. -/
def parseHeadlessJson [JsonScan] (stdout : String) : Except OutputErr (Option Members) :=
  let text := String.ofList (strip stdout.toList)
  if text = "" then .ok none
  else do
    match ← scanObject text with
    | some kvs => return some kvs
    | none => firstObject (objectLines text)

def mapAuthMessage (text : String) : Option String :=
  let low := lower text
  if mentions low "not signed in" || mentions low "device-code" || mentions low "device code" then
    some "auth_unavailable"
  else if mentions low "no auth credentials" then some "auth_unavailable"
  else if mentions low "auth" &&
      ["expired", "reauth", "unauthorized", "401"].any (mentions low) then
    some (if mentions low "expired" then "auth_expired" else "auth_unavailable")
  else none

def hintFor (reason : String) : String :=
  if reason = "auth_unavailable" || reason = "auth_expired" then
    "xai_oauth login required (elyra auth login / Glass)"
  else ""

def isErrorType (headless : Members) : Bool :=
  lookup headless "type" = some (.str "error")

def take (n : Nat) (text : String) : String := String.ofList (text.toList.take n)

def errorShapedStdoutSlice (stdout : String) (headless : Option Members) : String :=
  if headless.any fun kvs => (lookup kvs "text").isSome && !isErrorType kvs then ""
  else
    let head := take 4000 stdout
    if (head.toList.dropWhile isSpace).head? = some '{' &&
        !mentions (take 80 (lower head)) "\"type\"" then ""
    else head

/-- `classify_instrument_failure`: the error reason and its hint. -/
def classifyInstrumentFailure (stdout stderr : String) (headless : Option Members)
    (exitCode : Option Int) : Option (String × String) :=
  match headless.filter isErrorType with
  | some kvs =>
    let reason := (mapAuthMessage (strOr (lookup kvs "message") "")).getD "nonzero_exit"
    some (reason, hintFor reason)
  | none =>
    if exitCode = some 0 || exitCode = none then none
    else
      ([stderr, errorShapedStdoutSlice stdout headless].filter (· ≠ "")).findSome? fun corpus =>
        (mapAuthMessage corpus).map fun reason => (reason, hintFor reason)

def summaryOf (stdout : String) (headless : Option Members) (harvest : Harvest) :
    String :=
  let summary :=
    match headless with
    | some kvs =>
      if isErrorType kvs then take 2000 (strOr (lookup kvs "message") stdout)
      else
        match lookup kvs "text" with
        | some (.str text) => take 2000 text
        | _ => take 2000 stdout
    | none => take 2000 stdout
  if harvest.needsHuman && summary = "" then "needs_human" else summary

end Classifying

/-- The keywords of a `finalize_job` call. -/
structure FinalizeArgs where
  statusOverride : Option JobStatus := none
  errorReason : Option String := none
  exitCode : Option Int := none
  timedOut : Bool := false
  deriving DecidableEq

section Outcome

variable [PyCoerce] [TextPatterns]

/-- The exit code `finalize_job` goes by. -/
def FinalizeArgs.code (args : FinalizeArgs) (metaExitCode : Option Int) : Option Int :=
  match args.exitCode.or metaExitCode with
  | some c => some c
  | none => if args.timedOut then some (-9) else none

/-- `value or fallback`. -/
def orText (value : Option String) (fallback : String) : String :=
  if value.getD "" = "" then fallback else value.getD ""

/-- The status `finalize_job` decides on, with the error reason and the hint. -/
def decideStatus (args : FinalizeArgs) (code : Option Int) (classified : Option (String × String))
    (harvest : Harvest) : JobStatus × Option String × Option String :=
  match args.statusOverride with
  | some status => (status, args.errorReason, none)
  | none =>
    if args.timedOut then (.failed, some (orText args.errorReason "timeout"), none)
    else if args.errorReason = some "interrupted" then (.interrupted, args.errorReason, none)
    else
      match classified with
      | some (reason, hint) => (.failed, some reason, if hint = "" then none else some hint)
      | none =>
        match resolveStatusFromHarvest harvest code with
        | .failed =>
          let missing := if harvest.artifactMissing then "artifact_missing" else "nonzero_exit"
          (.failed, some (orText args.errorReason missing), none)
        | .needsHuman => (.needsHuman, none, none)
        | status => (status, args.errorReason, none)

/-- What `finalize_job` writes to `result.json`; `usage` is what the logs report. -/
def jobResult (mode : Mode) (stdout stderr : String) (headless : Option Members)
    (usage : Option TokenUsage) (found : RunOutput) (args : FinalizeArgs) (code : Option Int) :
    JobResult :=
  let harvest := harvestArtifacts mode found stdout
  let classified := classifyInstrumentFailure stdout stderr headless code
  let (status, errorReason, hint) := decideStatus args code classified harvest
  let summary := summaryOf stdout headless harvest
  if status = .completed || status = .needsHuman then
    { ok := true, status, mode, errorReason := none, exitCode := some (code.getD 0), summary
      hint := none, usage, usageRecorded := usage.isSome }
  else
    { ok := false, status, mode, errorReason := some (orText errorReason "failed")
      exitCode := code, summary, hint, usage, usageRecorded := usage.isSome }

/-- The error reason `finalize_job` passes on to the meta. -/
def metaErrorReason (mode : Mode) (stdout stderr : String) (headless : Option Members)
    (found : RunOutput) (args : FinalizeArgs) (code : Option Int) : Option String :=
  let harvest := harvestArtifacts mode found stdout
  let classified := classifyInstrumentFailure stdout stderr headless code
  (decideStatus args code classified harvest).2.1

end Outcome

end Elyra.Instrument
