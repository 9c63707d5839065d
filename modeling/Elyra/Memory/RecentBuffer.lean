import Elyra.Memory.Atoms
import Mathlib.Data.List.MinMax
import Mathlib.Data.String.Basic

namespace Elyra.Memory

/-- The embedding channels of an atom. -/
inductive Channel where
  | text | image | audio | video | joint
  deriving DecidableEq, Repr

namespace Channel

/-- `CHANNELS`. -/
def all : List Channel := [.text, .image, .audio, .video, .joint]

def name : Channel → String
  | .text => "text"
  | .image => "image"
  | .audio => "audio"
  | .video => "video"
  | .joint => "joint"

/-- The channels one encoder input has, without the joint one. -/
def modalities : List Channel := [.text, .image, .audio, .video]

end Channel

/-- The vectors of one atom; an absent channel is `none`. -/
structure EmbeddingSet (Vec : Type) where
  atomId : String
  embText : Option Vec := none
  embImage : Option Vec := none
  embAudio : Option Vec := none
  embVideo : Option Vec := none
  embJoint : Option Vec := none
  modelId : String := ""
  encodedAt : String := ""
  deriving DecidableEq

namespace EmbeddingSet

variable {Vec : Type}

def channelVector (emb : EmbeddingSet Vec) : Channel → Option Vec
  | .text => emb.embText
  | .image => emb.embImage
  | .audio => emb.embAudio
  | .video => emb.embVideo
  | .joint => emb.embJoint

def channelsPresent (emb : EmbeddingSet Vec) : List Channel :=
  Channel.all.filter fun c => (emb.channelVector c).isSome

/-- The modality and vector of a set with exactly one modality beside the joint channel. -/
def soleNonJointVector (emb : EmbeddingSet Vec) : Option (Channel × Vec) :=
  match Channel.modalities.filterMap fun c => (emb.channelVector c).map fun v => (c, v) with
  | [found] => some found
  | _ => none

/-- A copy with the sole modality as the joint vector, where that is due. -/
def jointCopyEmbeddingSet (emb : EmbeddingSet Vec) : Option (EmbeddingSet Vec) :=
  if emb.embJoint.isSome then none
  else emb.soleNonJointVector.map fun sole => { emb with embJoint := some sole.2 }

def embeddingsAreReady (emb : EmbeddingSet Vec) (requireJoint : Bool) : Bool :=
  if emb.embJoint.isSome then true
  else if requireJoint then false
  else
    match emb.channelsPresent.filter (· ≠ .joint) with
    | [c] => (emb.channelVector c).isSome
    | _ => false

/-- The channel the buffer keeps: the preferred one, else the joint one, else the first there is. -/
def bufferChannelAndVector (emb : EmbeddingSet Vec) (preferred : Channel) :
    Option (Channel × Vec) :=
  (preferred :: .joint :: Channel.modalities).findSome? fun c =>
    (emb.channelVector c).map fun v => (c, v)

theorem bufferChannelAndVector_spec {emb : EmbeddingSet Vec} {preferred c : Channel} {v : Vec}
    (h : emb.bufferChannelAndVector preferred = some (c, v)) : emb.channelVector c = some v := by
  obtain ⟨d, -, hd⟩ := List.exists_of_findSome?_eq_some h
  obtain ⟨w, hw, hpair⟩ := Option.map_eq_some_iff.mp hd
  obtain ⟨rfl, rfl⟩ := Prod.mk.inj hpair
  exact hw

theorem bufferChannelAndVector_of_vector {emb : EmbeddingSet Vec} {c : Channel} {v : Vec}
    (h : emb.channelVector c = some v) (preferred : Channel) :
    ∃ d w, emb.bufferChannelAndVector preferred = some (d, w) := by
  cases hb : emb.bufferChannelAndVector preferred with
  | some p => exact ⟨p.1, p.2, rfl⟩
  | none =>
    have hnone := List.findSome?_eq_none_iff.mp hb c (by cases c <;> simp [Channel.modalities])
    rw [h] at hnone
    cases hnone

theorem jointCopyEmbeddingSet_atomId {emb fixed : EmbeddingSet Vec}
    (h : emb.jointCopyEmbeddingSet = some fixed) : fixed.atomId = emb.atomId := by
  rw [jointCopyEmbeddingSet] at h
  split_ifs at h
  obtain ⟨sole, -, rfl⟩ := Option.map_eq_some_iff.mp h
  rfl

theorem jointCopyEmbeddingSet_joint {emb fixed : EmbeddingSet Vec}
    (h : emb.jointCopyEmbeddingSet = some fixed) : ∃ v, fixed.embJoint = some v := by
  rw [jointCopyEmbeddingSet] at h
  split_ifs at h
  obtain ⟨sole, -, rfl⟩ := Option.map_eq_some_iff.mp h
  exact ⟨sole.2, rfl⟩

theorem ready_has_vector {emb : EmbeddingSet Vec} {requireJoint : Bool}
    (h : emb.embeddingsAreReady requireJoint = true) : ∃ c v, emb.channelVector c = some v := by
  rw [embeddingsAreReady] at h
  split_ifs at h with hj
  · obtain ⟨v, hv⟩ := Option.isSome_iff_exists.mp hj
    exact ⟨.joint, v, hv⟩
  · split at h
    · rename_i c _
      obtain ⟨v, hv⟩ := Option.isSome_iff_exists.mp h
      exact ⟨c, v, hv⟩
    · cases h

end EmbeddingSet

/-- A recent vector with copies of what the filters of a search read. -/
structure RecentBufferEntry (Vec : Type) where
  atomId : String
  channel : Channel
  vector : Vec
  encodedAt : String
  tStart : String := ""
  momentId : Option String := none
  kind : String := ""
  deriving DecidableEq

section Entry

variable {Vec : Type} [PyCoerce]

/-- `encoded_at` of the set, else of the atom, else the clock. -/
def entryEncodedAt (emb : EmbeddingSet Vec) (atom : Option Atom) (now : String) : String :=
  let stamped :=
    if emb.encodedAt ≠ "" then emb.encodedAt
    else atom.elim "" fun a => strOr (a.metadata.get? "embed_encoded_at") ""
  if stamped = "" then now else stamped

def entryFromEmbAndAtom (emb : EmbeddingSet Vec) (atom : Option Atom) (now : String) :
    Except PyErr (Option (RecentBufferEntry Vec)) :=
  match emb.bufferChannelAndVector .joint with
  | none => .ok none
  | some (channel, vector) =>
    let encodedAt := entryEncodedAt emb atom now
    match atom with
    | none => .ok (some { atomId := emb.atomId, channel, vector, encodedAt })
    | some a => do
      let tStart ← toIsoZ a.tStart
      return some {
        atomId := emb.atomId, channel, vector, encodedAt, tStart
        momentId := a.momentId
        kind := a.kind }

end Entry

/-- At most `maxSize` recent vectors, one an atom. -/
structure RecentBuffer (Vec : Type) where
  maxSize : Nat
  byId : Dict String (RecentBufferEntry Vec)

namespace RecentBuffer

variable {Vec : Type}

def items (b : RecentBuffer Vec) : List (RecentBufferEntry Vec) := b.byId.values

def size (b : RecentBuffer Vec) : Nat := b.byId.items.length

def get (b : RecentBuffer Vec) (atomId : String) : Option (RecentBufferEntry Vec) :=
  b.byId.get? atomId

def evictionKey (e : RecentBufferEntry Vec) : String ×ₗ String := toLex (e.encodedAt, e.atomId)

/-- `n` rounds of the loop of `_evict`. -/
def evictOldest : Nat → Dict String (RecentBufferEntry Vec) → Dict String (RecentBufferEntry Vec)
  | 0, byId => byId
  | n + 1, byId =>
    match byId.values.argmin evictionKey with
    | none => byId
    | some oldest => evictOldest n (byId.pop oldest.atomId)

/-- Each round removes one entry, until `maxSize` are left. -/
def evict (b : RecentBuffer Vec) : RecentBuffer Vec :=
  { b with byId := evictOldest (b.size - b.maxSize) b.byId }

def push (b : RecentBuffer Vec) (e : RecentBufferEntry Vec) : RecentBuffer Vec :=
  if b.maxSize = 0 then b else { b with byId := b.byId.set e.atomId e }.evict

def trimOlderThan (b : RecentBuffer Vec) (watermark : String) : RecentBuffer Vec :=
  if watermark = "" then b
  else
    let drop := (b.byId.items.filter fun p => p.2.encodedAt ≤ watermark).map Prod.fst
    { b with byId := drop.foldl Dict.pop b.byId }

theorem get_evictOldest {n : Nat} {byId : Dict String (RecentBufferEntry Vec)} {id : String}
    {e : RecentBufferEntry Vec} (h : (evictOldest n byId).get? id = some e) :
    byId.get? id = some e := by
  induction n generalizing byId with
  | zero => exact h
  | succ n ih =>
    rw [evictOldest] at h
    split at h
    · exact h
    · have hpop := ih h
      rw [Dict.get?_pop] at hpop
      split_ifs at hpop
      exact hpop

/-- What the buffer holds after a push: the new entry, or one of another atom that was there. -/
theorem get_push {b : RecentBuffer Vec} {new e : RecentBufferEntry Vec} {id : String}
    (hroom : b.maxSize ≠ 0) (h : (b.push new).get id = some e) :
    (id = new.atomId ∧ e = new) ∨ (id ≠ new.atomId ∧ b.get id = some e) := by
  rw [push, if_neg hroom] at h
  have hset := get_evictOldest h
  rw [Dict.get?_set] at hset
  split_ifs at hset with hid
  · exact .inl ⟨hid.symm, (Option.some.inj hset).symm⟩
  · exact .inr ⟨fun h => hid h.symm, hset⟩

@[simp] theorem push_maxSize (b : RecentBuffer Vec) (e : RecentBufferEntry Vec) :
    (b.push e).maxSize = b.maxSize := by
  rw [push]
  split_ifs <;> rfl

theorem get_foldl_pop (drop : List String) (byId : Dict String (RecentBufferEntry Vec))
    (id : String) :
    (drop.foldl Dict.pop byId).get? id = if id ∈ drop then none else byId.get? id := by
  induction drop generalizing byId with
  | nil => simp
  | cons x drop ih =>
    rw [List.foldl_cons, ih, Dict.get?_pop]
    by_cases hx : x = id
    · simp [hx]
    · simp [hx, Ne.symm hx]

/-- A trim keeps the entries newer than the watermark. -/
theorem get_trimOlderThan (b : RecentBuffer Vec) (watermark : String) (hw : watermark ≠ "")
    (id : String) :
    (b.trimOlderThan watermark).get id =
      (b.get id).filter fun e => ¬e.encodedAt ≤ watermark := by
  rw [trimOlderThan, if_neg hw, get, get_foldl_pop, get]
  cases h : b.byId.get? id with
  | none => simp
  | some e =>
    have hmem : id ∈ (b.byId.items.filter fun p => p.2.encodedAt ≤ watermark).map Prod.fst ↔
        e.encodedAt ≤ watermark := by
      simp only [List.mem_map, List.mem_filter, decide_eq_true_eq, Prod.exists, exists_and_right,
        exists_eq_right]
      constructor
      · rintro ⟨e', he', hle⟩
        have hsame := (b.byId.get?_eq_some_iff id e').mpr he'
        rw [h] at hsame
        rw [Option.some.inj hsame]
        exact hle
      · intro hle
        exact ⟨e, (b.byId.get?_eq_some_iff id e).mp h, hle⟩
    by_cases hle : e.encodedAt ≤ watermark
    · rw [if_pos (hmem.mpr hle)]
      simp [Option.filter, hle]
    · rw [if_neg (mt hmem.mp hle)]
      simp [Option.filter, hle]

theorem get_of_trimOlderThan {b : RecentBuffer Vec} {watermark id : String}
    {e : RecentBufferEntry Vec} (h : (b.trimOlderThan watermark).get id = some e) :
    b.get id = some e := by
  by_cases hw : watermark = ""
  · rwa [trimOlderThan, if_pos hw] at h
  · rw [get_trimOlderThan b watermark hw] at h
    exact (Option.filter_eq_some_iff.mp h).1

theorem trimOlderThan_maxSize (b : RecentBuffer Vec) (watermark : String) :
    (b.trimOlderThan watermark).maxSize = b.maxSize := by
  rw [trimOlderThan]
  split_ifs <;> rfl

end RecentBuffer

/-- The `ann_` settings. -/
structure AnnSettings where
  recentBufferMax : Nat := 256
  fullSearchBelow : Nat := 2000
  optimizeEveryNEncodes : Nat := 64
  optimizeIntervalS : Nat := 300
  forceFull : Bool := false
  ivfMinVectors : Nat := 256
  indexChannels : List Channel := [.joint]

/-- The freshness bookkeeping both indexes share; `lastOptimizeMono` is in seconds of the monotonic
clock. -/
structure FreshnessState (Vec : Type) where
  ann : AnnSettings
  buffer : RecentBuffer Vec
  encodesSinceOptimize : Nat
  lastOptimizeAt : Option String
  lastOptimizeMono : Option Int
  seedIncomplete : Bool
  annIndexBuilt : Bool
  annIndexChannels : List Channel

namespace FreshnessState

variable {Vec : Type}

def new (ann : AnnSettings) : FreshnessState Vec :=
  ⟨ann, ⟨ann.recentBufferMax, .empty⟩, 0, none, none, false, false, []⟩

def markUpsert (f : FreshnessState Vec) : FreshnessState Vec :=
  { f with encodesSinceOptimize := f.encodesSinceOptimize + 1 }

def isStale (f : FreshnessState Vec) (vectorsReady : Nat) (mono : Int) : Bool :=
  0 < f.buffer.size || f.seedIncomplete ||
    (f.ann.optimizeEveryNEncodes ≠ 0 && f.ann.optimizeEveryNEncodes ≤ f.encodesSinceOptimize) ||
    (f.ann.optimizeIntervalS ≠ 0 &&
      f.lastOptimizeMono.any fun last => (f.ann.optimizeIntervalS : Int) ≤ mono - last) ||
    (f.lastOptimizeAt.isNone && 0 < f.encodesSinceOptimize) ||
    (!f.annIndexBuilt && 0 < vectorsReady)

def useFullSearch (f : FreshnessState Vec) (vectorsReady : Nat) (mono : Int) : Bool :=
  f.ann.forceFull || vectorsReady < f.ann.fullSearchBelow || !f.annIndexBuilt ||
    (f.seedIncomplete && f.isStale vectorsReady mono)

/-- At least the newest buffered `encoded_at`. -/
def watermarkOf (f : FreshnessState Vec) (watermark : String) : String :=
  f.buffer.items.foldl (fun wm e => if e.encodedAt ≠ "" ∧ wm < e.encodedAt then e.encodedAt else wm)
    watermark

def markOptimized (f : FreshnessState Vec) (watermark : String) (mono : Int) (annBuilt : Bool)
    (builtChannels : List Channel) : FreshnessState Vec :=
  let wm := f.watermarkOf watermark
  { f with
    buffer := f.buffer.trimOlderThan wm
    encodesSinceOptimize := 0
    lastOptimizeAt := some (if wm = "" then watermark else wm)
    lastOptimizeMono := some mono
    annIndexBuilt := f.annIndexBuilt || annBuilt
    annIndexChannels :=
      if annBuilt then
        builtChannels.foldl (fun merged c => if c ∈ merged then merged else merged ++ [c])
          f.annIndexChannels
      else f.annIndexChannels }

end FreshnessState
end Elyra.Memory
