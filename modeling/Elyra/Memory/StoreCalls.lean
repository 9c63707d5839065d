import Elyra.Framework.Program
import Elyra.Memory.MemoryStore

namespace Elyra.Memory

def chainExcludeKinds : List String := ["summary", "parcel", "moment_meta"]

/-- The atoms of a moment, oldest first. -/
def momentAtoms (atoms : List Atom) (momentId : String) : List Atom :=
  sortBy (fun a : Atom => toLex (a.tStart, a.atomId))
    (atoms.filter fun a => momentId ≠ "" ∧ a.momentId = some momentId)

/-- One step of `max(pool, key=...)`: the first of the greatest stays. -/
def laterOf (best : Option ((String ×ₗ String) × Atom)) (a : Atom) :
    Except PyErr (Option ((String ×ₗ String) × Atom)) := do
  let key := toLex (← toIsoZ a.tStart, a.atomId)
  match best with
  | none => return some (key, a)
  | some b => return some (if b.1 < key then (key, a) else b)

def chainAtoms (atoms : List Atom) : List Atom := atoms.filter fun a => a.kind ∉ chainExcludeKinds

/-- The atoms without a next link, or all of them when each has one. -/
def tailPool (chain : List Atom) : List Atom :=
  let tails := chain.filter fun a => a.nextAtomId = none
  if tails = [] then chain else tails

/-- The latest atom of the sequential weave, by preference one without a next link. -/
def tailOf (atoms : List Atom) : Except PyErr (Option Atom) := do
  let best ← (tailPool (chainAtoms atoms)).foldlM laterOf none
  return best.map Prod.snd

def kindsMatch (kinds : Option (List String)) (a : Atom) : Bool :=
  match kinds with
  | none => true
  | some ks => a.kind ∈ ks

/-- `rows[: max(0, int(limit))]`. -/
def takeLimit (limit : Option Int) (rows : List Atom) : List Atom :=
  match limit with
  | none => rows
  | some n => rows.take n.toNat

namespace JsonlMemoryStore

def listByMoment (s : JsonlMemoryStore) (momentId : String) (kinds : Option (List String))
    (limit : Option Int) : List Atom :=
  takeLimit limit ((momentAtoms s.byId.values momentId).filter (kindsMatch kinds))

def momentTail (s : JsonlMemoryStore) (momentId : String) : Except PyErr (Option Atom) :=
  tailOf (momentAtoms s.byId.values momentId)

def globalTail (s : JsonlMemoryStore) : Except PyErr (Option Atom) := tailOf s.byId.values

end JsonlMemoryStore

/-- The store operations a thread outside the store performs, each under the store's lock. -/
inductive StoreCall where
  | getAtom (atomId : String)
  | listByMoment (momentId : String) (kinds : Option (List String)) (limit : Option Int)
  | momentTail (momentId : String)
  | globalTail
  | putAtom (a : Atom)
  | updateLinks (atomId : String) (prev next : JsonlMemoryStore.LinkChange)

@[reducible] def StoreCall.Reply : StoreCall → Type
  | getAtom _ | momentTail _ | globalTail => Option Atom
  | listByMoment _ _ _ => List Atom
  | putAtom _ | updateLinks _ _ _ => Atom

/-- The value or error of a computation, and the state it leaves. -/
def split {σ α : Type} (m : Py σ α) (s : σ) : Except PyErr α × σ :=
  match m s with
  | .ok a t => (.ok a, t)
  | .error e t => (.error e, t)

theorem split_snd {σ α : Type} (m : Py σ α) (s : σ) : (split m s).2 = after (m s) := by
  rw [split]
  cases m s <;> rfl

def StoreCall.perform [PyCoerce] :
    (c : StoreCall) → JsonlMemoryStore → Except PyErr c.Reply × JsonlMemoryStore
  | getAtom atomId, s => (.ok (s.getAtom atomId), s)
  | listByMoment momentId kinds limit, s => (.ok (s.listByMoment momentId kinds limit), s)
  | momentTail momentId, s => (s.momentTail momentId, s)
  | globalTail, s => (s.globalTail, s)
  | putAtom a, s => split (JsonlMemoryStore.putAtom a) s
  | updateLinks atomId prev next, s => split (JsonlMemoryStore.updateLinks atomId prev next) s

abbrev StoreProgram : Type → Type := Program PyErr StoreCall.Reply

/-- Work on the store that may raise. -/
abbrev Promoter : Type → Type := Fallible PyErr StoreCall.Reply

end Elyra.Memory
