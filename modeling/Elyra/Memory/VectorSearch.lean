import Elyra.Framework.Run
import Elyra.Framework.TopRanked
import Elyra.Memory.RecentBuffer

namespace Elyra.Memory

open Json

/-- One search hit. -/
structure ScoredAtom (Score : Type) where
  atomId : String
  score : Score
  channel : Channel
  atom : Option Atom
  deriving DecidableEq

/-- The filters of a search; an empty set or moment to exclude excludes nothing. -/
structure SearchFilters where
  tStart : Option String := none
  tEnd : Option String := none
  momentId : Option String := none
  kinds : Option (List String) := none
  excludeAtomIds : List String := []
  excludeMomentId : Option String := none

namespace SearchFilters

/-- No filter that reads an atom. -/
def plain (f : SearchFilters) : Bool :=
  f.momentId.isNone && f.kinds.isNone && f.tStart.isNone && f.tEnd.isNone

def excludesMoment (f : SearchFilters) (momentId : Option String) : Bool :=
  !missing f.excludeMomentId && momentId = f.excludeMomentId

/-- The tests on kind and moment. -/
def rejects (f : SearchFilters) (kind : String) (momentId : Option String) : Bool :=
  (f.kinds.any fun kinds => kind ∉ kinds) || (f.momentId.isSome && momentId ≠ f.momentId) ||
    f.excludesMoment momentId

def tooEarly (f : SearchFilters) (time : String) : Except PyErr Bool :=
  match f.tStart with
  | none => .ok false
  | some t => (toIsoZ t).map fun iso => time < iso

def tooLate (f : SearchFilters) (time : String) : Except PyErr Bool :=
  match f.tEnd with
  | none => .ok false
  | some t => (toIsoZ t).map fun iso => iso ≤ time

/-- `t_start <= time < t_end` for the bounds that are given. -/
def within (f : SearchFilters) (time : String) : Except PyErr Bool := do
  if ← f.tooEarly time then return false
  return !(← f.tooLate time)

end SearchFilters

/-- Without an atom only the excluded ids count, and no filter that reads an atom may be set. -/
def passesFilters (atom : Option Atom) (f : SearchFilters) (atomId : String) :
    Except PyErr Bool :=
  if atomId ∈ f.excludeAtomIds then .ok false
  else
    match atom with
    | none => .ok f.plain
    | some a =>
      if a.embeddingStatus ≠ "ready" then .ok false
      else if f.rejects a.kind a.momentId then .ok false
      else toIsoZ a.tStart >>= f.within

section Buffer

variable {Vec Score : Type}

/-- The prefilter on the copies an entry holds. -/
def bufferEntryPasses (e : RecentBufferEntry Vec) (f : SearchFilters) : Except PyErr Bool :=
  if e.atomId ∈ f.excludeAtomIds then .ok false
  else if f.kinds.isSome && e.kind = "" then .ok false
  else if f.rejects e.kind e.momentId then .ok false
  else if e.tStart = "" then .ok (f.tStart.isNone && f.tEnd.isNone)
  else f.within e.tStart

variable [LinearOrder Score]

/-- Best score first, then by id. -/
def rank (h : ScoredAtom Score) : Scoreᵒᵈ ×ₗ String := toLex (OrderDual.toDual h.score, h.atomId)

def keepBest (byId : Dict String (ScoredAtom Score)) (hit : ScoredAtom Score) :
    Dict String (ScoredAtom Score) :=
  match byId.get? hit.atomId with
  | none => byId.set hit.atomId hit
  | some prev => if prev.score < hit.score then byId.set hit.atomId hit else byId

def mergeHits (main buffer : List (ScoredAtom Score)) (k : Int) : List (ScoredAtom Score) :=
  topRanked rank k.toNat ((main ++ buffer).foldl keepBest .empty).values

end Buffer

/-- The atoms of a store, as the index reads and writes them. -/
structure IndexedStore where
  settings : MemorySettings
  byId : Dict String Atom

namespace IndexedStore

def getAtom (s : IndexedStore) (atomId : String) : Option Atom := s.byId.get? atomId

/-- A put that raises leaves the atoms alone. -/
def putAtom (s : IndexedStore) (a : Atom) (fails : Bool) : Option IndexedStore :=
  if fails then none
  else
    match prepareForPut s.settings a with
    | .error _ => none
    | .ok prepared => some { s with byId := s.byId.set prepared.atomId prepared }

def deleteAtom (s : IndexedStore) (atomId : String) : IndexedStore :=
  { s with byId := s.byId.pop atomId }

end IndexedStore

structure MemoryEmbeddingIndex (Vec : Type) where
  store : IndexedStore
  byId : Dict String (EmbeddingSet Vec)
  fresh : FreshnessState Vec
  requireJoint : Bool

/-- A request after `strip().lower()`. -/
inductive ChannelRequest where
  | auto
  | channel (c : Channel)
  | unknown

namespace MemoryEmbeddingIndex

variable {Vec : Type}

/-- A new index: the dict main counts as built. -/
def new (store : IndexedStore) (ann : AnnSettings) (requireJoint : Bool) : MemoryEmbeddingIndex Vec :=
  ⟨store, .empty, { FreshnessState.new ann with annIndexBuilt := true }, requireJoint⟩

def pushEntry (entry : Option (RecentBufferEntry Vec)) (f : FreshnessState Vec) :
    FreshnessState Vec :=
  match entry with
  | none => f
  | some e => { f with buffer := f.buffer.push e }

/-- The atom that an accepted set makes ready. -/
def encodedAtom (a : Atom) (emb : EmbeddingSet Vec) : Atom :=
  let metadata := a.metadata.set "embed_encode_ok" (.bool true)
  let metadata :=
    if emb.modelId ≠ "" then metadata.set "embed_model" (.str emb.modelId) else metadata
  let metadata :=
    if emb.encodedAt ≠ "" then metadata.set "embed_encoded_at" (.str emb.encodedAt) else metadata
  { a with
    embeddingStatus := "ready"
    metadata := metadata.set "embed_channels" (.arr (emb.channelsPresent.map fun c => .str c.name)) }

/-- The atom that a joint copy leaves ready. -/
def repairedAtom (a : Atom) (fixed : EmbeddingSet Vec) : Atom :=
  { a with
    embeddingStatus := "ready"
    metadata :=
      (a.metadata.set "embed_channels"
        (.arr (fixed.channelsPresent.map fun c => .str c.name))).set "embed_encode_ok" (.bool true) }

/-- The status write after an upsert; its failure is logged only. -/
def markReady (emb : EmbeddingSet Vec) (fails : Bool) (store : IndexedStore) : IndexedStore :=
  match store.getAtom emb.atomId with
  | none => store
  | some a => (store.putAtom (encodedAtom a emb) fails).getD store

section Operations

variable [PyCoerce]

def upsert (emb : EmbeddingSet Vec) (now : String) (fails : Bool) (s : MemoryEmbeddingIndex Vec) :
    MemoryEmbeddingIndex Vec :=
  if !emb.embeddingsAreReady s.requireJoint then s
  else
    let stored := { s with byId := s.byId.set emb.atomId emb }
    match entryFromEmbAndAtom emb (s.store.getAtom emb.atomId) now with
    | .error _ => stored
    | .ok entry =>
      { stored with
        fresh := (pushEntry entry s.fresh).markUpsert
        store := markReady emb fails s.store }

/-- What a repair writes to the store; `none` when that fails. -/
def persistRepair (fixed : EmbeddingSet Vec) (atom : Option Atom) (fails : Bool)
    (store : IndexedStore) : Option IndexedStore :=
  match atom with
  | none => some store
  | some a => store.putAtom (repairedAtom a fixed) fails

/-- The loop of `repair_joint_copies` with the sets it made so far. -/
def repairLoop (cap : Nat) (now : String) (fails : String → Bool) :
    List (String × EmbeddingSet Vec) → List (EmbeddingSet Vec) → MemoryEmbeddingIndex Vec →
      MemoryEmbeddingIndex Vec × List (EmbeddingSet Vec)
  | [], repaired, s => (s, repaired)
  | (atomId, emb) :: rest, repaired, s =>
    if cap ≤ repaired.length then (s, repaired)
    else
      match emb.jointCopyEmbeddingSet with
      | none => repairLoop cap now fails rest repaired s
      | some fixed =>
        let atom := s.store.getAtom atomId
        match persistRepair fixed atom (fails atomId) s.store with
        | none => repairLoop cap now fails rest repaired s
        | some store =>
          let stored := { s with store, byId := s.byId.set atomId fixed }
          match entryFromEmbAndAtom fixed atom now with
          | .error _ => (stored, repaired ++ [fixed])
          | .ok entry =>
            repairLoop cap now fails rest (repaired ++ [fixed])
              { stored with fresh := pushEntry entry s.fresh }

def repairJointCopies (limit : Int) (now : String) (fails : String → Bool)
    (s : MemoryEmbeddingIndex Vec) : MemoryEmbeddingIndex Vec × List (EmbeddingSet Vec) :=
  repairLoop limit.toNat now fails s.byId.items [] s

/-- The pushes of a seed, newest first, with the number of entries pushed. -/
def seedLoop (now : String) :
    List (String × EmbeddingSet Vec) → Nat → MemoryEmbeddingIndex Vec →
      MemoryEmbeddingIndex Vec × Nat
  | [], seeded, s => (s, seeded)
  | (atomId, emb) :: rest, seeded, s =>
    match entryFromEmbAndAtom emb (s.store.getAtom atomId) now with
    | .error _ => (s, seeded)
    | .ok entry =>
      seedLoop now rest (seeded + entry.toList.length) { s with fresh := pushEntry entry s.fresh }

def seedBuffer (now : String) (s : MemoryEmbeddingIndex Vec) : MemoryEmbeddingIndex Vec :=
  let limit := s.fresh.ann.recentBufferMax
  let items := sortByDesc (fun p : String × EmbeddingSet Vec => toLex (p.2.encodedAt, p.1))
    s.byId.items
  let seeded := seedLoop now (items.take limit) 0 s
  let target := min limit items.length
  { seeded.1 with
    fresh := { seeded.1.fresh with seedIncomplete := 0 < target && seeded.2 < target } }

end Operations

def optimize (now : String) (mono : Int) (s : MemoryEmbeddingIndex Vec) :
    MemoryEmbeddingIndex Vec :=
  let channels := s.fresh.ann.indexChannels
  { s with
    fresh := s.fresh.markOptimized now mono true (if channels = [] then [.joint] else channels) }

def vectorsByChannel (s : MemoryEmbeddingIndex Vec) (c : Channel) : Nat :=
  (s.byId.values.filter fun emb => (emb.channelVector c).isSome).length

def jointRepairRemaining (s : MemoryEmbeddingIndex Vec) : Nat :=
  (s.byId.values.filter fun emb =>
    emb.embJoint.isNone && emb.soleNonJointVector.isSome).length

/-- `resolve_search_channel("auto")` without a seed: the first channel with vectors, and the joint
one first unless copies are missing. -/
def resolveAuto (counts : Channel → Nat) (remaining : Nat) : Channel :=
  let order := if 0 < remaining then Channel.modalities else .joint :: Channel.modalities
  (order.find? fun c => 0 < counts c).getD .joint

def resolveChannel (s : MemoryEmbeddingIndex Vec) : ChannelRequest → Option Channel
  | .auto => some (resolveAuto s.vectorsByChannel s.jointRepairRemaining)
  | .channel c => some c
  | .unknown => none

section Search

variable {Query Score : Type} [LinearOrder Score] (cosine : Query → Vec → Option Score)

/-- A vector scores unless its cosine is minus infinity. -/
def mainHit (s : MemoryEmbeddingIndex Vec) (query : Query) (channel : Channel) (f : SearchFilters)
    (atomId : String) (emb : EmbeddingSet Vec) : Except PyErr (Option (ScoredAtom Score)) := do
  let atom := s.store.getAtom atomId
  if ← passesFilters atom f atomId then
    return (emb.channelVector channel).bind fun vec =>
      (cosine query vec).map fun score => ⟨atomId, score, channel, atom⟩
  else return none

def searchMain (s : MemoryEmbeddingIndex Vec) (query : Query) (k : Nat) (channel : Channel)
    (f : SearchFilters) : Except PyErr (List (ScoredAtom Score)) := do
  let hits ← s.byId.items.mapM fun p => s.mainHit cosine query channel f p.1 p.2
  return topRanked rank k hits.reduceOption

def bufferHit (s : MemoryEmbeddingIndex Vec) (query : Query) (channel : Channel)
    (f : SearchFilters) (e : RecentBufferEntry Vec) :
    Except PyErr (Option (ScoredAtom Score)) := do
  if e.channel ≠ channel then return none
  if ← bufferEntryPasses e f then
    let atom := s.store.getAtom e.atomId
    if atom.any fun a => a.embeddingStatus ≠ "ready" then return none
    return (cosine query e.vector).map fun score => ⟨e.atomId, score, e.channel, atom⟩
  else return none

def searchBuffer (s : MemoryEmbeddingIndex Vec) (query : Query) (channel : Channel)
    (f : SearchFilters) : Except PyErr (List (ScoredAtom Score)) := do
  let hits ← s.fresh.buffer.items.mapM fun e => s.bufferHit cosine query channel f e
  return hits.reduceOption

/-- A search in full or hybrid mode. -/
def searchIn (full : Bool) (s : MemoryEmbeddingIndex Vec) (query : Query) (k : Int)
    (channel : Channel) (f : SearchFilters) : Except PyErr (List (ScoredAtom Score)) := do
  let n := s.byId.items.length
  let main ← s.searchMain cosine query (if full then max k.toNat n else k.toNat) channel f
  if full && s.fresh.buffer.size = 0 then return main.take k.toNat
  let buffered ← s.searchBuffer cosine query channel f
  return mergeHits main buffered k

def search (s : MemoryEmbeddingIndex Vec) (query : Query) (k : Int) (request : ChannelRequest)
    (f : SearchFilters) (mono : Int) : Except PyErr (List (ScoredAtom Score)) :=
  match s.resolveChannel request with
  | none => .ok []
  | some channel =>
    s.searchIn cosine (s.fresh.useFullSearch s.byId.items.length mono) query k channel f

end Search

end MemoryEmbeddingIndex

/-- What happens to an index and its store; `fails` says which puts raise. -/
inductive IndexCall (Vec : Type) where
  | upsert (emb : EmbeddingSet Vec) (now : String) (fails : Bool)
  | repairJointCopies (limit : Int) (now : String) (fails : String → Bool)
  | seedBuffer (now : String)
  | optimize (now : String) (mono : Int)
  | putAtom (a : Atom)
  | deleteAtom (atomId : String)

variable {Vec : Type} [PyCoerce]

open MemoryEmbeddingIndex in
def stepIndex (s : MemoryEmbeddingIndex Vec) : IndexCall Vec → MemoryEmbeddingIndex Vec
  | .upsert emb now fails => upsert emb now fails s
  | .repairJointCopies limit now fails => (repairJointCopies limit now fails s).1
  | .seedBuffer now => seedBuffer now s
  | .optimize now mono => optimize now mono s
  | .putAtom a => { s with store := (s.store.putAtom a false).getD s.store }
  | .deleteAtom atomId => { s with store := s.store.deleteAtom atomId }

/-- The sets a call stores. -/
def acceptedBy (s : MemoryEmbeddingIndex Vec) : IndexCall Vec → List (EmbeddingSet Vec)
  | .upsert emb _ _ => if emb.embeddingsAreReady s.requireJoint then [emb] else []
  | .repairJointCopies limit now fails => (s.repairJointCopies limit now fails).2
  | _ => []

/-- The sets a run stores, in order. -/
def acceptedAlong : MemoryEmbeddingIndex Vec → List (IndexCall Vec) → List (EmbeddingSet Vec)
  | _, [] => []
  | s, call :: calls => acceptedBy s call ++ acceptedAlong (stepIndex s call) calls

omit [PyCoerce] in
/-- The last set of an atom. -/
def lastAccepted (sets : List (EmbeddingSet Vec)) (atomId : String) : Option (EmbeddingSet Vec) :=
  (sets.filter fun emb => emb.atomId = atomId).getLast?

end Elyra.Memory
