import Elyra.Memory.Atoms

namespace Elyra.Memory

structure PromoteSettings extends MemorySettings where
  writeAtoms : Bool
  linkAcrossMoments : Bool
  semanticEnabled : Bool
  toolOkPreviewChars : Int
  maxToolAtomsPerMoment : Int
  modelPromoteMinChars : Int
  parcelsEnabled : Bool
  parcelThresholdChars : Int

def defaultPromoteSettings : PromoteSettings where
  toMemorySettings := defaultMemorySettings
  writeAtoms := true
  linkAcrossMoments := true
  semanticEnabled := false
  toolOkPreviewChars := 240
  maxToolAtomsPerMoment := 48
  modelPromoteMinChars := 40
  parcelsEnabled := false
  parcelThresholdChars := 8000

/-- Effective cap of a parcel, never above what a put keeps. -/
def parcelThreshold (settings : PromoteSettings) : Int :=
  let atomMax := if settings.atomMaxChars ≤ 0 then 8000 else settings.atomMaxChars
  let n := if settings.parcelThresholdChars ≤ 0 then atomMax else settings.parcelThresholdChars
  min n atomMax

def shouldSplitIntoParcels (text : String) (settings : PromoteSettings) : Bool :=
  settings.parcelsEnabled && decide (parcelThreshold settings < text.length)

/-- `str.rfind`. -/
def rfind (pat : List Char) : List Char → Option Nat
  | [] => if pat = [] then some 0 else none
  | c :: cs =>
    match rfind pat cs with
    | some i => some (i + 1)
    | none => if pat.isPrefixOf (c :: cs) then some 0 else none

/-- The end of the last paragraph, else of the last line, else of the window. -/
def bestCut (window : List Char) : Nat :=
  match rfind ['\n', '\n'] window, rfind ['\n'] window with
  | some (i + 1), _ => i + 3
  | _, some (i + 1) => i + 2
  | _, _ => window.length

/-- The loop of `split_oversized_text`; every pass takes at least one character. -/
def splitLoop (maxChars : Nat) : Nat → List Char → List (List Char)
  | 0, _ => []
  | passes + 1, remaining =>
    if remaining = [] then []
    else if remaining.length ≤ maxChars then [remaining]
    else
      let cut := bestCut (remaining.take maxChars)
      let cut := if cut = 0 then maxChars else cut
      remaining.take cut :: splitLoop maxChars passes (remaining.drop cut)

def splitOversizedText (text : List Char) (maxChars : Int) : List (List Char) :=
  if maxChars ≤ 0 ∨ text.length ≤ maxChars then [text]
  else splitLoop maxChars.toNat text.length text

/-- What a promoted atom is made of, before its body is cut. -/
structure Draft where
  kind : String
  rawText : String
  tStart : String
  momentId : String
  mediaIds : List String := []
  sourceBeatType : String
  baseMeta : Dict String Json

/-- The atom of a draft with a part of its body. -/
def Draft.atom (d : Draft) (atomId : String) (body : List Char) (metadata : Dict String Json) :
    Atom where
  atomId := atomId
  tStart := d.tStart
  kind := d.kind
  contentText := .ofList body
  momentId := some d.momentId
  mediaIds := d.mediaIds.filter (· ≠ "")
  sourceBeatTs := some d.tStart
  sourceBeatType := some d.sourceBeatType
  metadata := metadata

def Draft.parcel (d : Draft) (parentId atomId : String) (index count : Nat) (chunk : List Char) :
    Atom :=
  { d.atom atomId chunk (.ofList
      [("parcel_index", .int index), ("parcel_count", .int count),
        ("source_beat_type", .str d.sourceBeatType)]) with
    kind := "parcel"
    mediaIds := []
    parentAtomId := some parentId }

/-- `make_parent_and_parcels`: the parent takes id 0 and the parcels the next ids. -/
def makeParentAndParcels (d : Draft) (maxChars : Int) (newAtomId : Nat → String) :
    Atom × List Atom :=
  let chunks := splitOversizedText d.rawText.toList maxChars
  let count := chunks.length - 1
  let parentMeta := d.baseMeta.pop "truncated"
  if count = 0 then (d.atom (newAtomId 0) (chunks.headD []) parentMeta, [])
  else
    let parentMeta := ((d.baseMeta.set "parcel_count" (.int count)).set "has_parcels"
      (.bool true)).pop "truncated"
    (d.atom (newAtomId 0) (chunks.headD [])
        (parentMeta.set "first_parcel_id" (.str (newAtomId 1))),
      chunks.tail.mapIdx fun i chunk => d.parcel (newAtomId 0) (newAtomId (i + 1)) i count chunk)

end Elyra.Memory
