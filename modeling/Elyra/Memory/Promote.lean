import Elyra.Memory.Parcel
import Elyra.Memory.StoreCalls

namespace Elyra.Memory

open Json JsonlMemoryStore

/-- The hash of a body that is stored and compared only. -/
class ContentHash where
  contentHash : String → String

def ledgerToolNames : List String := ["create_goal", "create_task", "update_goal", "update_task"]

def skipToolNames : List String := ["load_skill"]

/-- Per-moment promote counters held by the loop. -/
structure PromoteState where
  toolAtoms : Int := 0
  seenKeys : List String := []
  deriving DecidableEq

/-- What a promote call takes from outside: its fresh atom ids and the clock. -/
structure Outside where
  newAtomId : Nat → String
  now : Instant
  later : Instant

abbrev Beat := Dict String Json

def atomMax (settings : PromoteSettings) : Int :=
  if 0 < settings.atomMaxChars then settings.atomMaxChars else 8000

def toolPreview (settings : PromoteSettings) : Int :=
  if 0 < settings.toolOkPreviewChars then settings.toolOkPreviewChars else 240

def toolCap (settings : PromoteSettings) : Int :=
  if settings.maxToolAtomsPerMoment < 0 then 48 else settings.maxToolAtomsPerMoment

def modelMin (settings : PromoteSettings) : Int :=
  if settings.modelPromoteMinChars = 0 then 40 else max 0 settings.modelPromoteMinChars

def truncateText (text : String) (maxChars : Int) : String × Bool :=
  if maxChars ≤ 0 ∨ text.length ≤ maxChars then (text, false)
  else (.ofList (text.toList.take maxChars.toNat), true)

/-- `d.get(k1) or d.get(k2) or ...`. -/
def firstTruthy (d : Dict String Json) : List String → Json
  | [] => .null
  | [k] => (d.get? k).getD .null
  | k :: ks =>
    match d.get? k with
    | some v => if truthy v then v else firstTruthy d ks
    | none => firstTruthy d ks

def parseJsonish (content : String) : Option Json :=
  if stripText content = "" then none else loads (stripText content).toList

def parsedObject (content : String) : Option (Dict String Json) :=
  match parseJsonish content with
  | some (.obj kvs) => some (.ofList kvs)
  | _ => none

/-- `d.get(key)` when it is an object. -/
def subObject (d : Dict String Json) (key : String) : Option (Dict String Json) :=
  match d.get? key with
  | some (.obj kvs) => some (.ofList kvs)
  | _ => none

/-- `d.get(key)` with `None` for a missing key. -/
def getOrNull (d : Dict String Json) (key : String) : Json := (d.get? key).getD .null

/-- `if beat.get(key) is not None: meta[key] = beat.get(key)`. -/
def copyField (beat : Beat) (key : String) (metadata : Dict String Json) : Dict String Json :=
  if getOrNull beat key = .null then metadata else metadata.set key (getOrNull beat key)

def mediaFp (mediaIds : List String) : String :=
  String.intercalate "," (sortBy id (mediaIds.filter (· ≠ "")))

def idemKey (momentId sourceBeatTs kind chash : String) : String :=
  momentId ++ "|" ++ sourceBeatTs ++ "|" ++ kind ++ "|" ++ chash

def wakeIdemKey (momentId : String) (messageId : Option String) (chash : String) : String :=
  momentId ++ "|wake|" ++ if missing messageId then chash else messageId.getD ""

def viewIdemKey (momentId : String) (mediaIds : List String) : String :=
  "view:" ++ momentId ++ ":" ++ mediaFp mediaIds

section Promote

variable [PyCoerce] [ContentHash]

def contentHash (text : String) : String := ContentHash.contentHash text

def beatText (beat : Beat) (key : String) : String := strOr (beat.get? key) ""

def beatTs (out : Outside) (beat : Beat) : Except PyErr String :=
  match firstTruthy beat ["ts", "t", "t_start"] with
  | .str s => if stripText s = "" then .ok (isoZ out.now) else isoOr s (stripText s)
  | _ => .ok (isoZ out.now)

/-- `tuple(str(x) for x in raw if x)`, where what cannot be walked gives no ids. -/
def idsOf (raw : Json) : List String :=
  match raw with
  | .str s => if s = "" then [] else [s]
  | .arr xs => (xs.filter truthy).map pyStr
  | .obj kvs => (kvs.map Prod.fst).filter (· ≠ "")
  | _ => []

def mediaIdsFromBeat (beat : Beat) : List String :=
  let own := getOrNull beat "media_ids"
  let inMeta :=
    if own ≠ .null then own
    else
      match subObject beat "meta" with
      | some m => getOrNull m "media_ids"
      | none => .null
  let raw :=
    if inMeta ≠ .null then inMeta
    else
      match beat.get? "content" with
      | some (.str content) =>
        match parsedObject content with
        | some d => firstTruthy d ["attachment_ids", "media_ids"]
        | none => .null
      | _ => .null
  idsOf raw

def ledgerGoalOrTask (parsed : Option (Dict String Json)) (key : String) :
    Option (Dict String Json) :=
  parsed.bind fun d =>
    match subObject d key with
    | some g => some g
    | none => (subObject d "payload").bind fun p => subObject p key

/-- `str(d.get(key) or "").strip() or default`. -/
def stripOr (d : Dict String Json) (key default : String) : String :=
  let text := stripText (strOr (d.get? key) "")
  if text = "" then default else text

/-- `d.get(k1) or d.get(k2) or "?"`, as an f-string shows it. -/
def idOr (d : Dict String Json) (keys : List String) : String :=
  let v := firstTruthy d keys
  if truthy v then pyStr v else "?"

def ledgerOneLiner (name content : String) (ok : Bool) : String :=
  let parsed := parsedObject content
  let fallback :=
    let body := stripText content
    if body = "" then name ++ ": " ++ if ok then "ok" else "failed"
    else .ofList (body.toList.take 200)
  if name = "create_goal" ∨ name = "update_goal" then
    match ledgerGoalOrTask parsed "goal" with
    | some goal =>
      "goal " ++ idOr goal ["id", "goal_id"] ++ ": " ++ stripOr goal "title" "(untitled)" ++
        " [" ++ stripOr goal "status" "?" ++ "]"
    | none => fallback
  else if name = "create_task" ∨ name = "update_task" then
    match ledgerGoalOrTask parsed "task" with
    | some task =>
      "task " ++ idOr task ["id", "task_id"] ++ " → " ++ stripOr task "status" "?" ++ ": " ++
        stripOr task "title" "(untitled)"
    | none => fallback
  else fallback

/-- `parsed.get("reason") or parsed.get("error_reason") or error_reason`. -/
def failureReason (parsed : Dict String Json) (errorReason : Json) : Json :=
  let own := firstTruthy parsed ["reason", "error_reason"]
  if truthy own then own else errorReason

def plainSpeakText (content : String) (ok : Bool) (errorReason : Json) : String :=
  let body := stripText content
  if body ≠ "" then body
  else if !ok && truthy errorReason then "speak failed: " ++ pyStr errorReason
  else ""

def speakTextFromContent (content : String) (ok : Bool) (errorReason : Json) : String :=
  match parsedObject content with
  | none => plainSpeakText content ok errorReason
  | some parsed =>
    match getOrNull parsed "text" with
    | .str text =>
      if stripText text ≠ "" then text
      else if !ok && truthy (failureReason parsed errorReason) then
        "speak failed: " ++ pyStr (failureReason parsed errorReason)
      else plainSpeakText content ok errorReason
    | _ =>
      if !ok && truthy (failureReason parsed errorReason) then
        "speak failed: " ++ pyStr (failureReason parsed errorReason)
      else plainSpeakText content ok errorReason

def embeddingStatusForPromote (settings : PromoteSettings) (a : Atom) : String :=
  if !settings.semanticEnabled then "none"
  else if a.kind = "moment_meta" then "none"
  else if stripText a.contentText ≠ "" ∨ a.mediaIds ≠ [] then "pending"
  else "none"

def withPromoteStatus (settings : PromoteSettings) (a : Atom) : Atom :=
  { a with embeddingStatus := embeddingStatusForPromote settings a }

def put (a : Atom) : Promoter Atom := Fallible.perform (StoreCall.putAtom a)

/-- A put whose failure is logged only. -/
def tryPutAtom (a : Atom) : Promoter (Option Atom) :=
  tryCatch (do return some (← put a)) (fun _ => return none)

def momentTailId (momentId : String) : Promoter (Option String) := do
  let row ← Fallible.perform (StoreCall.momentTail momentId)
  return Option.map Atom.atomId row

def globalTailId : Promoter (Option String) := do
  let row ← Fallible.perform StoreCall.globalTail
  return Option.map Atom.atomId row

/-- The id of the tail a new atom is linked to; a failed look-up counts as no tail. -/
def tailId (momentId : String) (linkAcrossMoments : Bool) : Promoter (Option String) :=
  tryCatch
    (do
      match ← momentTailId momentId with
      | some a => return some a
      | none => if linkAcrossMoments then globalTailId else return none)
    (fun _ => return none)

/-- `store.update_links(prev, next_atom_id=next)` whose failure is logged only. -/
def linkNext (prevId nextId : String) : Promoter Unit :=
  tryCatch
    (do
      let _ ← Fallible.perform (StoreCall.updateLinks prevId .unset (.to (some nextId)))
      return ())
    (fun _ => return ())

def linkAndPut (settings : PromoteSettings) (momentId : String) (a : Atom) : Promoter Atom := do
  let a := withPromoteStatus settings a
  match ← tailId momentId settings.linkAcrossMoments with
  | none => put a
  | some prevId => do
    let stored ← put { a with prevAtomId := some prevId, nextAtomId := none }
    linkNext prevId stored.atomId
    return stored

def linkChild (prevId : Option String) (nextId : String) : Promoter Unit :=
  match prevId with
  | none => pure ()
  | some p => linkNext p nextId

def chained (prevId : Option String) (a : Atom) : Atom :=
  match prevId with
  | none => a
  | some p => { a with prevAtomId := some p, nextAtomId := none }

/-- The children put so far; a failed put ends the chain. -/
def putParcelChildren (settings : PromoteSettings) :
    List Atom → List Atom → Option String → Promoter (List Atom)
  | [], stored, _ => return stored
  | child :: children, stored, prevId => do
    match ← tryPutAtom (chained prevId (withPromoteStatus settings child)) with
    | none => return stored
    | some row => do
      linkChild prevId row.atomId
      putParcelChildren settings children (stored ++ [row]) (some row.atomId)

def reconciledParent (parent : Atom) (plannedCount : Nat) (storedChildren : List Atom) : Atom :=
  let metadata := (parent.metadata.set "parcel_incomplete" (.bool true)).set
    "parcel_planned_count" (.int plannedCount)
  let metadata :=
    match storedChildren with
    | [] => (((metadata.pop "has_parcels").pop "parcel_count").pop "first_parcel_id").set
        "truncated" (.bool true)
    | first :: _ => ((metadata.set "has_parcels" (.bool true)).set "parcel_count"
        (.int storedChildren.length)).set "first_parcel_id" (.str first.atomId)
  { parent with metadata := metadata }

def reconciledChild (plannedCount actual : Nat) (child : Atom) : Option Atom :=
  if child.metadata.get? "parcel_count" = some (.int actual) ∧
      child.metadata.get? "parcel_incomplete" = some (.bool true) then none
  else some { child with metadata := ((child.metadata.set "parcel_count" (.int actual)).set
    "parcel_incomplete" (.bool true)).set "parcel_planned_count" (.int plannedCount) }

def rewriteChild (plannedCount actual : Nat) (child : Atom) : Promoter Unit :=
  match reconciledChild plannedCount actual child with
  | none => pure ()
  | some c => do
    let _ ← tryPutAtom c
    return ()

def reconcileChildren (plannedCount actual : Nat) : List Atom → Promoter Unit
  | [] => return ()
  | child :: children => do
    rewriteChild plannedCount actual child
    reconcileChildren plannedCount actual children

def reconcileParentParcelMeta (parent : Atom) (plannedCount : Nat) (storedChildren : List Atom) :
    Promoter Atom := do
  if storedChildren.length = plannedCount then return parent
  else
    match ← tryPutAtom (reconciledParent parent plannedCount storedChildren) with
    | none => return reconciledParent parent plannedCount storedChildren
    | some row => do
      reconcileChildren plannedCount storedChildren.length storedChildren
      return row

def putWithParcels (settings : PromoteSettings) (out : Outside) (d : Draft) : Promoter Atom := do
  let (parent, children) := makeParentAndParcels d (parcelThreshold settings) out.newAtomId
  let storedParent ← linkAndPut settings d.momentId parent
  if children = [] then return storedParent
  else
    let storedChildren ← putParcelChildren settings children [] none
    reconcileParentParcelMeta storedParent children.length storedChildren

/-- The fallback of a failed split takes an id after those of the parcels. -/
def putTruncated (settings : PromoteSettings) (out : Outside) (d : Draft) : Promoter Atom :=
  let (body, truncated) := truncateText d.rawText (atomMax settings)
  let metadata := if truncated then d.baseMeta.set "truncated" (.bool true) else d.baseMeta
  linkAndPut settings d.momentId
    (d.atom (out.newAtomId (d.rawText.length + 1)) body.toList metadata)

def linkAndPutWithParcels (settings : PromoteSettings) (out : Outside) (d : Draft) :
    Promoter Atom :=
  if shouldSplitIntoParcels d.rawText settings then
    tryCatch (putWithParcels settings out d) (fun _ => putTruncated settings out d)
  else putTruncated settings out d

def keyIn (key : String) (rows : List Atom) : Bool :=
  rows.any fun a => a.metadata.get? "idempotency_key" = some (.str key)

def keySeen (momentId key : String) (state : Option PromoteState) : Promoter Bool :=
  if ∃ s ∈ state, key ∈ s.seenKeys then return true
  else
    tryCatch
      (do
        let rows ← Fallible.perform (StoreCall.listByMoment momentId none none)
        return keyIn key rows)
      (fun _ => return false)

/-- `datetime.fromisoformat(ts.replace("Z", "+00:00"))` in UTC microseconds. -/
def microsOf (ts : String) : Option Int :=
  (Iso.fromIsoFormat (ts.toList.flatMap fun c => if c = 'Z' then Iso.zoneText else [c])).map
    fun d => (d.wall.val : Int) - d.offset.getD 0

/-- The same body and media within two seconds. -/
def sameObservation (chash mfp : String) (t0 : Int) (a : Atom) : Bool :=
  (a.metadata.get? "content_hash" = some (.str chash) || contentHash a.contentText = chash) &&
    (match a.metadata.get? "media_fp" with
      | none | some .null => mediaFp a.mediaIds = mfp
      | some v => v = .str mfp) &&
    (match microsOf a.tStart with
      | none => false
      | some t => decide (|t - t0| ≤ 2000000))

def obsDedupeHit (out : Outside) (momentId text : String) (mediaIds : List String)
    (tStart : String) : Promoter Bool :=
  let t0 := (microsOf tStart).getD out.later.val
  tryCatch
    (do
      let rows ← Fallible.perform (StoreCall.listByMoment momentId (some ["observation"]) none)
      return List.any rows (sameObservation (contentHash text) (mediaFp mediaIds) t0))
    (fun _ => return false)

def rememberKey (key : String) (state : Option PromoteState) : Option PromoteState :=
  state.map fun s => { s with seenKeys := key :: s.seenKeys }

def incToolCount (state : Option PromoteState) : Option PromoteState :=
  state.map fun s => { s with toolAtoms := s.toolAtoms + 1 }

/-- What a promote call returns: the stored atom, if any, and the counters after it. -/
abbrev Promoted := Option Atom × Option PromoteState

/-- The put of a draft whose key was not seen. -/
def promoteOnce (settings : PromoteSettings) (out : Outside) (d : Draft) (key : String)
    (state : Option PromoteState) : Promoter Promoted := do
  if ← keySeen d.momentId key state then return (none, state)
  else return (some (← linkAndPutWithParcels settings out d), rememberKey key state)

def promoteSpeak (settings : PromoteSettings) (out : Outside) (momentId : String) (beat : Beat)
    (state : Option PromoteState) : Promoter Promoted := do
  let ok := truthy (getOrNull beat "ok")
  let text := speakTextFromContent (beatText beat "content") ok (getOrNull beat "error_reason")
  let tStart ← (beatTs out beat : Except PyErr String)
  let chash := contentHash text
  let key := idemKey momentId tStart "speak" chash
  let metadata := copyField beat "tool_call_id" (copyField beat "error_reason" (.ofList
    [("idempotency_key", .str key), ("content_hash", .str chash), ("tool_name", .str "speak"),
      ("ok", .bool ok), ("transport_ok", .bool ok)]))
  promoteOnce settings out
    { kind := "speak", rawText := text, tStart, momentId, mediaIds := mediaIdsFromBeat beat
      sourceBeatType := "tool", baseMeta := metadata } key state

def promoteLedger (settings : PromoteSettings) (out : Outside) (momentId : String) (beat : Beat)
    (state : Option PromoteState) : Promoter Promoted := do
  let name := beatText beat "name"
  let ok := truthy (getOrNull beat "ok")
  let one := ledgerOneLiner name (beatText beat "content") ok
  let tStart ← (beatTs out beat : Except PyErr String)
  let chash := contentHash one
  let key := idemKey momentId tStart "ledger" chash
  let metadata := copyField beat "error_reason" (.ofList
    [("idempotency_key", .str key), ("content_hash", .str chash), ("tool_name", .str name),
      ("ok", .bool ok)])
  promoteOnce settings out
    { kind := "ledger", rawText := one, tStart, momentId, sourceBeatType := "tool"
      baseMeta := metadata } key state

def toolCount (state : Option PromoteState) : Int := (state.map PromoteState.toolAtoms).getD 0

def toolMeta (beat : Beat) (key chash name : String) (ok : Bool)
    (more : List (String × Json)) : Dict String Json :=
  copyField beat "tool_call_id" (copyField beat "hop" (copyField beat "error_reason" (.ofList
    ([("idempotency_key", .str key), ("content_hash", .str chash), ("tool_name", .str name),
      ("ok", .bool ok)] ++ more))))

/-- A tool result that went well stays a preview and is never split. -/
def promoteToolOk (settings : PromoteSettings) (out : Outside) (momentId : String) (beat : Beat)
    (name content tStart : String) (state : Option PromoteState) : Promoter Promoted := do
  let (body, truncated) := truncateText content (toolPreview settings)
  let chash := contentHash body
  let key := idemKey momentId tStart "tool" chash
  if ← keySeen momentId key state then return (none, state)
  else
    let more := ("preview", .bool true) :: if truncated then [("truncated", .bool true)] else []
    let d : Draft :=
      { kind := "tool", rawText := body, tStart, momentId, sourceBeatType := "tool"
        baseMeta := toolMeta beat key chash name true more }
    let stored ← linkAndPut settings momentId (d.atom (out.newAtomId 0) body.toList d.baseMeta)
    return (some stored, incToolCount (rememberKey key state))

def promoteToolFailed (settings : PromoteSettings) (out : Outside) (momentId : String)
    (beat : Beat) (name content tStart : String) (state : Option PromoteState) :
    Promoter Promoted := do
  let chash := contentHash content
  let key := idemKey momentId tStart "tool" chash
  let (stored, after) ← promoteOnce settings out
    { kind := "tool", rawText := content, tStart, momentId, sourceBeatType := "tool"
      baseMeta := toolMeta beat key chash name false [] } key state
  return (stored, if stored.isSome then incToolCount after else after)

def promoteTool (settings : PromoteSettings) (out : Outside) (momentId : String) (beat : Beat)
    (state : Option PromoteState) : Promoter Promoted := do
  let name := beatText beat "name"
  let ok := truthy (getOrNull beat "ok")
  let content := stripText (beatText beat "content")
  if name ∈ skipToolNames ∨ content = "" then return (none, state)
  else if 0 < toolCap settings ∧ toolCap settings ≤ toolCount state ∧ ok then return (none, state)
  else
    let tStart ← (beatTs out beat : Except PyErr String)
    if ok then promoteToolOk settings out momentId beat name content tStart state
    else promoteToolFailed settings out momentId beat name content tStart state

def promoteModel (settings : PromoteSettings) (out : Outside) (momentId : String) (beat : Beat)
    (state : Option PromoteState) : Promoter Promoted := do
  let content := stripText (beatText beat "content")
  if truthy (getOrNull beat "tool_calls") ∨ content = "" ∨ content.length < modelMin settings ∨
      truthy (firstTruthy beat ["echo_of_host", "host_echo"]) then
    return (none, state)
  else
    let tStart ← (beatTs out beat : Except PyErr String)
    let chash := contentHash content
    let key := idemKey momentId tStart "model" chash
    let metadata := copyField beat "hop" (.ofList
      [("idempotency_key", .str key), ("content_hash", .str chash)])
    promoteOnce settings out
      { kind := "model", rawText := content, tStart, momentId, sourceBeatType := "model"
        baseMeta := metadata } key state

/-- An observation that is no repeat of one within two seconds. -/
def promoteFresh (settings : PromoteSettings) (out : Outside) (d : Draft) (key : String)
    (state : Option PromoteState) : Promoter Promoted := do
  if ← obsDedupeHit out d.momentId d.rawText d.mediaIds d.tStart then return (none, state)
  else promoteOnce settings out d key state

def promoteInterjection (settings : PromoteSettings) (out : Outside) (momentId : String)
    (beat : Beat) (state : Option PromoteState) : Promoter Promoted := do
  let text := stripText (beatText beat "content")
  let mediaIds := mediaIdsFromBeat beat
  if text = "" ∧ mediaIds = [] then return (none, state)
  else
    let tStart ← (beatTs out beat : Except PyErr String)
    let chash := contentHash text
    let key := idemKey momentId tStart "observation" chash
    promoteFresh settings out
      { kind := "observation", rawText := text, tStart, momentId, mediaIds
        sourceBeatType := "obs"
        baseMeta := .ofList [("idempotency_key", .str key), ("content_hash", .str chash),
          ("media_fp", .str (mediaFp mediaIds)), ("obs_kind", .str "interjection")] } key state

def promoteByType (settings : PromoteSettings) (out : Outside) (momentId : String) (beat : Beat)
    (state : Option PromoteState) : Promoter Promoted :=
  let beatType := beatText beat "type"
  let name := beatText beat "name"
  if beatType = "obs" then
    match optStr (beat.get? "kind") with
    | some "interjection" => promoteInterjection settings out momentId beat state
    | _ => return (none, state)
  else if beatType = "tool" then
    if name = "speak" then promoteSpeak settings out momentId beat state
    else if name ∈ ledgerToolNames then promoteLedger settings out momentId beat state
    else promoteTool settings out momentId beat state
  else if beatType = "model" then promoteModel settings out momentId beat state
  else return (none, state)

/-- `except Exception`: logged, nothing promoted. -/
def soft (state : Option PromoteState) (m : Promoter Promoted) : StoreProgram Promoted := do
  match ← m.run with
  | .ok r => return r
  | .error _ => return (none, state)

def promoteBeat (settings : PromoteSettings) (out : Outside) (momentId : String) (beat : Beat)
    (state : Option PromoteState) : StoreProgram Promoted :=
  if momentId = "" ∨ !settings.writeAtoms then return (none, state)
  else soft state (promoteByType settings out momentId beat state)

def wakeMeta (key chash whyNow : String) (messageId : Option String) (mediaIds : List String) :
    Dict String Json :=
  let metadata := Dict.ofList [("idempotency_key", Json.str key), ("content_hash", .str chash),
    ("media_fp", .str (mediaFp mediaIds)), ("source", .str "wake")]
  let metadata :=
    if missing messageId then metadata
    else metadata.set "wake_message_id" (.str (messageId.getD ""))
  if whyNow = "" then metadata else metadata.set "why_now" (.str whyNow)

def promoteWakeObservation (settings : PromoteSettings) (out : Outside) (momentId : String)
    (content messageId : Option String) (mediaIds : List String) (whyNow : String) :
    StoreProgram Promoted :=
  let text := stripText (content.getD "")
  let mids := mediaIds.filter (· ≠ "")
  if momentId = "" ∨ !settings.writeAtoms ∨ (text = "" ∧ mids = []) then return (none, none)
  else
    let chash := contentHash (if text ≠ "" then text else mediaFp mids)
    let key := wakeIdemKey momentId messageId chash
    soft none (promoteFresh settings out
      { kind := "observation", rawText := text, tStart := isoZ out.now, momentId, mediaIds := mids
        sourceBeatType := "wake", baseMeta := wakeMeta key chash whyNow messageId mids } key none)

def viewMeta (key chash : String) (mediaIds : List String) (sourceUrl : Option String) :
    Dict String Json :=
  let metadata := Dict.ofList [("idempotency_key", Json.str key), ("content_hash", .str chash),
    ("media_fp", .str (mediaFp mediaIds)), ("source", .str "view_media"), ("view", .bool true)]
  if missing sourceUrl then metadata else metadata.set "source_url" (.str (sourceUrl.getD ""))

def promoteViewObservation (settings : PromoteSettings) (out : Outside) (momentId : String)
    (mediaIds : List String) (note sourceUrl : Option String) : StoreProgram Promoted :=
  let mids := mediaIds.filter (· ≠ "")
  let text := stripText (note.getD "")
  if momentId = "" ∨ !settings.writeAtoms ∨ mids = [] then return (none, none)
  else
    let chash := contentHash (if text ≠ "" then text else mediaFp mids)
    let key := viewIdemKey momentId mids
    soft none (promoteOnce settings out
      { kind := "observation", rawText := text, tStart := isoZ out.now, momentId, mediaIds := mids
        sourceBeatType := "view_media", baseMeta := viewMeta key chash mids sourceUrl } key none)

end Promote
end Elyra.Memory
