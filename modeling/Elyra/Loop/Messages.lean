import Elyra.Framework.Python
import Elyra.Framework.Text
import Elyra.Framework.Json.Parse

namespace Elyra.Loop

inductive Role where
  | system | user | assistant | tool
  deriving DecidableEq, Repr

/-- A tool call as the assistant row carries it on the wire. -/
structure WireCall where
  id : String
  name : String
  arguments : String
  deriving DecidableEq

/-- A row of the message list; `toolCalls` is empty where the row has no `tool_calls` key. -/
structure ChatMessage where
  role : Role
  content : Json := .null
  toolCalls : List WireCall := []
  toolCallId : Option String := none
  reasoningContent : Option String := none
  deriving DecidableEq

def obsUserMessage (text : String) : ChatMessage := { role := .user, content := .str text }

section Tokens

variable [PyCoerce]

def imagePartTokenHeuristic : Nat := 1024

def estimateTokens (text : List Char) : Nat := text.length / 4

/-- A positive `byte_size` of a part; booleans are integers. -/
def byteSize (part : Json) : Option Int :=
  match part.field? "byte_size" with
  | some (.int n) => if 0 < n then some n else none
  | some (.bool true) => some 1
  | _ => none

def estimatePartTokens (part : Json) : Nat :=
  match part with
  | .obj _ =>
    match part.field? "type" with
    | some (.str "text") => estimateTokens (strOr (part.field? "text") "").toList
    | some (.str "image_url") =>
      match byteSize part with
      | some n => min imagePartTokenHeuristic (max 1 (n / 750).toNat)
      | none => imagePartTokenHeuristic
    | some (.str "input_audio") | some (.str "video_url") | some (.str "input_video") =>
      imagePartTokenHeuristic
    | _ => estimateTokens (pyStr part).toList
  | _ => estimateTokens (pyStr part).toList

def estimateContentTokens (content : Json) : Nat :=
  match content with
  | .null => 0
  | .str s => estimateTokens s.toList
  | .arr parts => (parts.map estimatePartTokens).sum
  | v => estimateTokens (pyStr v).toList

def WireCall.toJson (c : WireCall) : Json :=
  .obj [("id", .str c.id), ("type", .str "function"),
    ("function", .obj [("name", .str c.name), ("arguments", .str c.arguments)])]

def messageTokens (m : ChatMessage) : Nat :=
  estimateContentTokens m.content +
    if m.toolCalls = [] then 0
    else estimateTokens (Json.dumps (.arr (m.toolCalls.map WireCall.toJson)))

def messagesTokens (ms : List ChatMessage) : Nat := (ms.map messageTokens).sum

end Tokens

def truncMarker : String := "…[truncated]"

def truncateToolContent (content : String) (maxChars : Int) : String :=
  if maxChars ≤ 0 ∨ (content.length : Int) ≤ maxChars then content
  else if maxChars ≤ truncMarker.length then .ofList (content.toList.take maxChars.toNat)
  else
    .ofList (content.toList.take (maxChars - truncMarker.length).toNat) ++ truncMarker

def ChatMessage.isToolBatchStart (m : ChatMessage) : Bool :=
  m.role = .assistant && m.toolCalls ≠ []

def ChatMessage.isHostInject (m : ChatMessage) : Bool :=
  match m.role, m.content with
  | .user, .str s => "HOST:".toList.isPrefixOf s.toList
  | _, _ => false

inductive SpanKind where
  | batch | inject | other
  deriving DecidableEq

/-- The rows from `start` up to and without `stop`. -/
structure Span where
  kind : SpanKind
  start : Nat
  stop : Nat
  deriving DecidableEq

def closeBatch (batch : Option Nat) (i : Nat) : List Span :=
  match batch with
  | some start => [⟨.batch, start, i⟩]
  | none => []

/-- The scan of `groupChainSpans` at row `i`; `batch` is where the batch it is in starts. -/
def groupSpansFrom (batch : Option Nat) (i : Nat) : List ChatMessage → List Span
  | [] => closeBatch batch i
  | m :: rest =>
    if batch.isSome ∧ m.role = .tool then groupSpansFrom batch (i + 1) rest
    else
      closeBatch batch i ++
        if m.isToolBatchStart then groupSpansFrom (some i) (i + 1) rest
        else if m.isHostInject then ⟨.inject, i, i + 1⟩ :: groupSpansFrom none (i + 1) rest
        else ⟨.other, i, i + 1⟩ :: groupSpansFrom none (i + 1) rest

def groupChainSpans (chain : List ChatMessage) : List Span := groupSpansFrom none 0 chain

def batchSpans (spans : List Span) : List Span := spans.filter (·.kind = .batch)

/-- `chain[s:e]`. -/
def rows (chain : List ChatMessage) (s : Span) : List ChatMessage :=
  (chain.take s.stop).drop s.start

/-- `none` where the source returns `False`. -/
def dropOldestBatch (chain : List ChatMessage) : Option (List ChatMessage) :=
  match batchSpans (groupChainSpans chain) with
  | oldest :: _ :: _ => some (chain.take oldest.start ++ chain.drop oldest.stop)
  | _ => none

def ChatMessage.truncate (maxChars : Int) (m : ChatMessage) : ChatMessage :=
  match m.role, m.content with
  | .tool, .str s => { m with content := .str (truncateToolContent s maxChars) }
  | _, _ => m

def truncateChainToolContents (chain : List ChatMessage) (maxChars : Int) : List ChatMessage :=
  chain.map (ChatMessage.truncate maxChars)

/-- `list[-n:]` for a positive `n`. -/
def lastRows {α : Type} (n : Nat) (l : List α) : List α := l.drop (l.length - n)

def reouterKeepGroups : Nat := 2

def compressChainForReouter (chain : List ChatMessage) : List ChatMessage :=
  let spans := groupChainSpans chain
  let keepStarts := (lastRows reouterKeepGroups (batchSpans spans)).map Span.start
  (spans.filter fun s => s.kind ≠ .batch ∨ s.start ∈ keepStarts).flatMap (rows chain)

/-- `while exceeds() and _drop_oldest_batch(chain): pass`, for at most `fuel` rounds. -/
def dropWhileOver (exceeds : List ChatMessage → Bool) : Nat → List ChatMessage → List ChatMessage
  | 0, chain => chain
  | fuel + 1, chain =>
    if exceeds chain then
      match dropOldestBatch chain with
      | some rest => dropWhileOver exceeds fuel rest
      | none => chain
    else chain

end Elyra.Loop
