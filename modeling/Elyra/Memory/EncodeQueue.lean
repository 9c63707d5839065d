import Elyra.Framework.Dict
import Elyra.Framework.Run
import Mathlib.Data.Finset.Card

namespace Elyra.Memory

/-- Bulk encode lanes: live creates go before the historical scan. -/
inductive EncodePriority where
  | atomCreate | catchup
  deriving DecidableEq

structure EncodeQueue where
  maxsize : Nat
  p1 : List String
  p2 : List String
  queued : Finset String
  lane : Dict String EncodePriority
  droppedTotal : Nat

namespace EncodeQueue

def new (maxsize : Int) : EncodeQueue := ⟨(max 1 maxsize).toNat, [], [], ∅, .empty, 0⟩

def laneIds (q : EncodeQueue) : EncodePriority → List String
  | .atomCreate => q.p1
  | .catchup => q.p2

def clear (q : EncodeQueue) : EncodeQueue :=
  { q with p1 := [], p2 := [], queued := ∅, lane := .empty }

/-- What remains once an id was taken off the head of its lane. -/
def forget (q : EncodeQueue) (p1 p2 : List String) (id : String) : EncodeQueue :=
  { q with p1 := p1, p2 := p2, queued := q.queued.erase id, lane := q.lane.pop id }

/-- `_drop_oldest_locked`. -/
def dropOldest (q : EncodeQueue) : Option (String × EncodeQueue) :=
  match q.p2, q.p1 with
  | old :: rest, p1 => some (old, { q.forget p1 rest old with droppedTotal := q.droppedTotal + 1 })
  | [], old :: rest =>
    some (old, { q.forget rest [] old with droppedTotal := q.droppedTotal + 1 })
  | [], [] => none

/-- The loop that drops until an id fits; every pass takes one id off a lane. -/
def makeRoom : Nat → EncodeQueue → List String × EncodeQueue
  | 0, q => ([], q)
  | passes + 1, q =>
    if q.maxsize ≤ q.queued.card then
      match q.dropOldest with
      | none => ([], q)
      | some (old, q') => (old :: (makeRoom passes q').1, (makeRoom passes q').2)
    else ([], q)

def append (q : EncodeQueue) (id : String) : EncodePriority → EncodeQueue
  | .atomCreate => { q with p1 := q.p1 ++ [id], queued := insert id q.queued,
                            lane := q.lane.set id .atomCreate }
  | .catchup => { q with p2 := q.p2 ++ [id], queued := insert id q.queued,
                         lane := q.lane.set id .catchup }

def promote (q : EncodeQueue) (id : String) : EncodeQueue :=
  { q with p1 := q.p1 ++ [id], p2 := q.p2.erase id, lane := q.lane.set id .atomCreate }

/-- `enqueue`: whether the id is new or promoted, the ids dropped for it, and the queue. -/
def enqueue (q : EncodeQueue) (id : String) (pri : EncodePriority) :
    Bool × List String × EncodeQueue :=
  if id = "" then (false, [], q)
  else if id ∈ q.queued then
    if (q.lane.get? id).getD .catchup = .catchup ∧ pri = .atomCreate then
      (true, [], q.promote id)
    else (false, [], q)
  else
    let (dropped, room) := makeRoom (q.p1.length + q.p2.length) q
    if room.maxsize ≤ room.queued.card then (false, dropped, room)
    else (true, dropped, room.append id pri)

def popNextBulk (q : EncodeQueue) : Option (String × EncodePriority) × EncodeQueue :=
  match q.p1, q.p2 with
  | id :: rest, p2 => (some (id, .atomCreate), q.forget rest p2 id)
  | [], id :: rest => (some (id, .catchup), q.forget [] rest id)
  | [], [] => (none, q)

/-- The ids that pops with nothing in between return. -/
def popMany : Nat → EncodeQueue → List (String × EncodePriority)
  | 0, _ => []
  | n + 1, q =>
    match q.popNextBulk with
    | (none, _) => []
    | (some item, q') => item :: popMany n q'

end EncodeQueue

/-- How an id leaves the queue. -/
inductive Leave where
  | popped | dropped | cleared
  deriving DecidableEq

inductive QueueEvent where
  | accepted (id : String)
  | left (id : String) (how : Leave)
  deriving DecidableEq

def QueueEvent.atomId : QueueEvent → String
  | accepted id => id
  | left id _ => id

inductive EncodeCall where
  | enqueue (id : String) (priority : EncodePriority)
  | popNextBulk
  | clear

/-- A queue and what happened to it, in order. -/
structure Traced where
  queue : EncodeQueue
  trace : List QueueEvent

def Traced.start (maxsize : Int) : Traced := ⟨.new maxsize, []⟩

def Traced.leave (s : Traced) (q : EncodeQueue) (id : String) (how : Leave) : Traced :=
  ⟨q, s.trace ++ [.left id how]⟩

def Traced.enqueued (s : Traced) (id : String) : Bool × List String × EncodeQueue → Traced
  | (changed, dropped, q) =>
    ⟨q, s.trace ++ dropped.map (fun old => .left old .dropped) ++
      if changed then [.accepted id] else []⟩

def stepEncode (s : Traced) : EncodeCall → Traced
  | .enqueue id pri => s.enqueued id (s.queue.enqueue id pri)
  | .popNextBulk =>
    match s.queue.popNextBulk with
    | (none, q) => ⟨q, s.trace⟩
    | (some (id, _), q) => s.leave q id .popped
  | .clear =>
    ⟨s.queue.clear, s.trace ++ (s.queue.p1 ++ s.queue.p2).map (fun id => .left id .cleared)⟩

/-- How an id left since it was last accepted; nothing of an id never accepted. -/
def recordLeave (ways : Option (List Leave)) : QueueEvent → Option (List Leave)
  | .accepted _ => some []
  | .left _ how => ways.map (· ++ [how])

def waysLeft (trace : List QueueEvent) : String → Option (List Leave) :=
  replay QueueEvent.atomId recordLeave trace

/-- The last acceptance of `b` came after that of `a`. -/
def AcceptedBefore (trace : List QueueEvent) (a b : String) : Prop :=
  ∃ early late, trace = early ++ late ∧ .accepted a ∉ late ∧ .accepted b ∈ late

/-- The four structures agree. -/
structure Consistent (q : EncodeQueue) : Prop where
  nodup : (q.p1 ++ q.p2).Nodup
  queued : ∀ id, id ∈ q.queued ↔ id ∈ q.p1 ++ q.p2
  lane : ∀ id pri, q.lane.get? id = some pri ↔ id ∈ q.laneIds pri
  bound : q.queued.card ≤ q.maxsize
  roomy : 1 ≤ q.maxsize

/-- The queue is what its trace leaves in it. -/
structure Conserved (s : Traced) : Prop extends Consistent s.queue where
  fifo : ∀ pri, (s.queue.laneIds pri).Pairwise (AcceptedBefore s.trace)
  waiting : ∀ id, id ∈ s.queue.queued ↔ waysLeft s.trace id = some []
  leftOnce : ∀ id ways, waysLeft s.trace id = some ways → ways.length ≤ 1
  counted : s.queue.droppedTotal = s.trace.countP (fun e => e matches .left _ .dropped)

theorem consistent_new (maxsize : Int) : Consistent (.new maxsize) := by
  refine ⟨List.nodup_nil, ?_, ?_, ?_, ?_⟩
  · intro id
    simp [EncodeQueue.new]
  · intro id pri
    cases pri <;> simp [EncodeQueue.new, EncodeQueue.laneIds]
  · simp [EncodeQueue.new]
  · show 1 ≤ (max 1 maxsize).toNat
    omega

theorem conserved_start (maxsize : Int) : Conserved (.start maxsize) := by
  refine { consistent_new maxsize with fifo := ?_, waiting := ?_, leftOnce := ?_, counted := rfl }
  · intro pri
    cases pri <;> exact List.Pairwise.nil
  · intro id
    simp [Traced.start, EncodeQueue.new, waysLeft]
  · intro id ways h
    cases h

theorem Consistent.card {q : EncodeQueue} (h : Consistent q) :
    q.queued.card = q.p1.length + q.p2.length := by
  have hset : q.queued = (q.p1 ++ q.p2).toFinset := by
    apply Finset.ext
    intro id
    rw [h.queued, List.mem_toFinset]
  rw [hset, List.toFinset_card_of_nodup h.nodup, List.length_append]

theorem acceptedBefore_append (trace more : List QueueEvent) (a b : String)
    (h : AcceptedBefore trace a b) (hmore : .accepted a ∉ more) :
    AcceptedBefore (trace ++ more) a b := by
  obtain ⟨early, late, rfl, ha, hb⟩ := h
  refine ⟨early, late ++ more, List.append_assoc _ _ _, ?_, List.mem_append_left _ hb⟩
  intro hm
  obtain hm | hm := List.mem_append.mp hm
  · exact ha hm
  · exact hmore hm

theorem waysLeft_left (trace : List QueueEvent) (id x : String) (how : Leave) :
    waysLeft (trace ++ [.left id how]) x =
      if id = x then (waysLeft trace x).map (· ++ [how]) else waysLeft trace x :=
  replay_snoc QueueEvent.atomId recordLeave trace (.left id how) x

theorem waysLeft_accepted (trace : List QueueEvent) (id x : String) :
    waysLeft (trace ++ [.accepted id]) x = if id = x then some [] else waysLeft trace x :=
  replay_snoc QueueEvent.atomId recordLeave trace (.accepted id) x

/-- Taking the head id off a lane keeps the structures in agreement. -/
theorem consistent_forget {q : EncodeQueue} (h : Consistent q) (id : String) (p1 p2 : List String)
    (hsplit : q.p1 = id :: p1 ∧ q.p2 = p2 ∨ q.p1 = p1 ∧ q.p2 = id :: p2) :
    Consistent (q.forget p1 p2 id) ∧ id ∈ q.queued ∧
      ∀ pri, ((q.forget p1 p2 id).laneIds pri).Sublist (q.laneIds pri) := by
  have hn := h.nodup
  have hmem (x : String) : x ∈ p1 ++ p2 ↔ x ≠ id ∧ x ∈ q.p1 ++ q.p2 := by
    obtain ⟨h1, h2⟩ | ⟨h1, h2⟩ := hsplit
    · rw [h1, h2] at hn ⊢
      rw [List.cons_append, List.nodup_cons] at hn
      rw [List.cons_append, List.mem_cons]
      by_cases hx : x = id
      · subst hx
        simp [hn.1]
      · simp [hx]
    · rw [h1, h2] at hn ⊢
      rw [List.nodup_middle, List.nodup_cons] at hn
      by_cases hx : x = id
      · subst hx
        simp [hn.1]
      · simp [hx]
  have hid : id ∈ q.p1 ++ q.p2 := by
    obtain ⟨h1, h2⟩ | ⟨h1, h2⟩ := hsplit
    · simp [h1]
    · simp [h2]
  have hsub (pri : EncodePriority) :
      ((q.forget p1 p2 id).laneIds pri).Sublist (q.laneIds pri) := by
    obtain ⟨h1, h2⟩ | ⟨h1, h2⟩ := hsplit
    · cases pri <;> simp [EncodeQueue.forget, EncodeQueue.laneIds, h1, h2]
    · cases pri <;> simp [EncodeQueue.forget, EncodeQueue.laneIds, h1, h2]
  have hlane (x : String) (pri : EncodePriority) :
      x ∈ (q.forget p1 p2 id).laneIds pri ↔ x ≠ id ∧ x ∈ q.laneIds pri := by
    have hx := hmem x
    have hsubset : x ∈ (q.forget p1 p2 id).laneIds pri → x ∈ q.laneIds pri :=
      fun hm => (hsub pri).subset hm
    obtain ⟨h1, h2⟩ | ⟨h1, h2⟩ := hsplit
    · cases pri <;> simp [EncodeQueue.forget, EncodeQueue.laneIds, h1, h2] at hx hsubset ⊢ <;> grind
    · cases pri <;> simp [EncodeQueue.forget, EncodeQueue.laneIds, h1, h2] at hx hsubset ⊢ <;> grind
  refine ⟨⟨?_, ?_, ?_, ?_, h.roomy⟩, (h.queued id).mpr hid, hsub⟩
  · have hs := (hsub .atomCreate).append (hsub .catchup)
    exact hn.sublist hs
  · intro x
    show x ∈ q.queued.erase id ↔ x ∈ p1 ++ p2
    rw [Finset.mem_erase, h.queued, hmem]
  · intro x pri
    show (q.lane.pop id).get? x = some pri ↔ _
    rw [Dict.get?_pop, hlane]
    by_cases hx : id = x
    · simp [hx]
    · simp [hx, Ne.symm hx, h.lane]
  · exact (Finset.card_le_card (Finset.erase_subset id q.queued)).trans h.bound

/-- One id leaves: it was queued, and now it has left in one way. -/
theorem conserved_leave {s : Traced} (h : Conserved s) (id : String) (how : Leave)
    (p1 p2 : List String) (dropped : Nat)
    (hsplit : s.queue.p1 = id :: p1 ∧ s.queue.p2 = p2 ∨ s.queue.p1 = p1 ∧ s.queue.p2 = id :: p2)
    (hcount : dropped = s.queue.droppedTotal + if how = .dropped then 1 else 0) :
    Conserved (s.leave { s.queue.forget p1 p2 id with droppedTotal := dropped } id how) := by
  obtain ⟨hcons, hin, hsub⟩ := consistent_forget h.toConsistent id p1 p2 hsplit
  have hways := (h.waiting id).mp hin
  refine { nodup := hcons.nodup, queued := hcons.queued, lane := hcons.lane, bound := hcons.bound,
           roomy := hcons.roomy, fifo := ?_, waiting := ?_, leftOnce := ?_, counted := ?_ }
  · intro pri
    have hold := (h.fifo pri).sublist (hsub pri)
    refine List.Pairwise.imp ?_ hold
    intro a b hab
    exact acceptedBefore_append s.trace [.left id how] a b hab (by simp)
  · intro x
    show x ∈ s.queue.queued.erase id ↔ waysLeft (s.trace ++ [.left id how]) x = some []
    rw [Finset.mem_erase, waysLeft_left]
    by_cases hx : id = x
    · subst hx
      simp [hways]
    · rw [if_neg hx, ← h.waiting x]
      simp [Ne.symm hx]
  · intro x ways hx
    change waysLeft (s.trace ++ [.left id how]) x = some ways at hx
    rw [waysLeft_left] at hx
    split_ifs at hx with hid
    · subst hid
      rw [hways, Option.map_some, Option.some.injEq] at hx
      rw [← hx]
      simp
    · exact h.leftOnce x ways hx
  · show dropped = (s.trace ++ [QueueEvent.left id how]).countP _
    rw [List.countP_append, ← h.counted, hcount]
    cases how <;> rfl

theorem conserved_popNextBulk {s : Traced} (h : Conserved s) :
    Conserved (stepEncode s .popNextBulk) := by
  unfold stepEncode EncodeQueue.popNextBulk
  cases h1 : s.queue.p1 with
  | cons id rest =>
    exact conserved_leave h id .popped rest s.queue.p2 s.queue.droppedTotal
      (Or.inl ⟨h1, rfl⟩) rfl
  | nil =>
    cases h2 : s.queue.p2 with
    | cons id rest =>
      exact conserved_leave h id .popped [] rest s.queue.droppedTotal (Or.inr ⟨h1, h2⟩) rfl
    | nil => exact h

theorem conserved_dropOldest {s : Traced} (h : Conserved s) (old : String) (q : EncodeQueue)
    (hd : s.queue.dropOldest = some (old, q)) :
    Conserved (s.leave q old .dropped) ∧ q.maxsize = s.queue.maxsize ∧
      q.p1.length + q.p2.length + 1 = s.queue.p1.length + s.queue.p2.length ∧
      ∀ id, id ∈ q.queued → id ∈ s.queue.queued := by
  unfold EncodeQueue.dropOldest at hd
  cases h2 : s.queue.p2 with
  | cons id rest =>
    rw [h2] at hd
    cases hd
    refine ⟨?_, rfl, ?_, fun x hx => Finset.mem_of_mem_erase hx⟩
    · exact conserved_leave h old .dropped _ rest _ (Or.inr ⟨rfl, h2⟩) rfl
    · simp [EncodeQueue.forget]
      omega
  | nil =>
    cases h1 : s.queue.p1 with
    | cons id rest =>
      rw [h1, h2] at hd
      cases hd
      refine ⟨?_, rfl, ?_, fun x hx => Finset.mem_of_mem_erase hx⟩
      · exact conserved_leave h old .dropped rest [] _ (Or.inl ⟨h1, h2⟩) rfl
      · simp [EncodeQueue.forget]
    | nil =>
      rw [h1, h2] at hd
      cases hd

/-- Dropping goes on until an id fits. -/
theorem conserved_makeRoom (passes : Nat) {s : Traced} (h : Conserved s)
    (hpasses : s.queue.p1.length + s.queue.p2.length ≤ passes) :
    let r := s.queue.makeRoom passes
    Conserved ⟨r.2, s.trace ++ r.1.map (fun old => QueueEvent.left old .dropped)⟩ ∧
      r.2.queued.card < r.2.maxsize ∧ ∀ id, id ∈ r.2.queued → id ∈ s.queue.queued := by
  have hroomy := h.roomy
  have hcard := h.card
  induction passes generalizing s with
  | zero =>
    refine ⟨?_, ?_, fun id hid => hid⟩
    · simpa [EncodeQueue.makeRoom] using h
    · simp only [EncodeQueue.makeRoom]
      omega
  | succ passes ih =>
    unfold EncodeQueue.makeRoom
    split_ifs with hfull
    · cases hd : s.queue.dropOldest with
      | none =>
        exfalso
        unfold EncodeQueue.dropOldest at hd
        cases h2 : s.queue.p2 with
        | cons id rest =>
          rw [h2] at hd
          cases hd
        | nil =>
          cases h1 : s.queue.p1 with
          | cons id rest =>
            rw [h1, h2] at hd
            cases hd
          | nil =>
            rw [h1, h2] at hcard
            simp only [List.length_nil] at hcard
            omega
      | some dropped =>
        obtain ⟨old, q⟩ := dropped
        obtain ⟨hleave, -, hlen, hsub⟩ := conserved_dropOldest h old q hd
        have hfit : q.p1.length + q.p2.length ≤ passes := by omega
        obtain ⟨hrest, hroom, hmem⟩ := ih hleave hfit hleave.roomy hleave.card
        refine ⟨?_, hroom, fun id hid => hsub id (hmem id hid)⟩
        simpa [Traced.leave] using hrest
    · refine ⟨?_, Nat.lt_of_not_le hfull, fun id hid => hid⟩
      simpa using h

/-- An id is accepted at the end of a lane and is in no other. -/
theorem conserved_accept {s : Traced} (h : Conserved s) (q : EncodeQueue) (hq : Consistent q)
    (id : String) (pri : EncodePriority) (hlane : q.laneIds pri = s.queue.laneIds pri ++ [id])
    (hother : ∀ p, p ≠ pri → (q.laneIds p).Sublist (s.queue.laneIds p))
    (hqueued : q.queued = insert id s.queue.queued)
    (hdropped : q.droppedTotal = s.queue.droppedTotal) :
    Conserved ⟨q, s.trace ++ [.accepted id]⟩ := by
  have hapart (p : EncodePriority) (hp : p ≠ pri) : id ∉ q.laneIds p := by
    intro hm
    have hthere : id ∈ q.laneIds pri := by
      rw [hlane]
      simp
    have hone := (hq.lane id p).mpr hm
    rw [(hq.lane id pri).mpr hthere] at hone
    exact hp (Option.some.inj hone).symm
  have hfresh : id ∉ s.queue.laneIds pri := by
    have hn : (q.laneIds pri).Nodup := by
      have hsub : (q.laneIds pri).Sublist (q.p1 ++ q.p2) := by
        cases pri
        · exact List.sublist_append_left _ _
        · exact List.sublist_append_right _ _
      exact hq.nodup.sublist hsub
    rw [hlane, List.nodup_append] at hn
    intro hm
    exact hn.2.2 id hm id (by simp) rfl
  have hkeep (a b : String) (ha : a ≠ id) (hab : AcceptedBefore s.trace a b) :
      AcceptedBefore (s.trace ++ [.accepted id]) a b := by
    apply acceptedBefore_append s.trace _ a b hab
    simp [ha]
  refine { hq with fifo := ?_, waiting := ?_, leftOnce := ?_, counted := ?_ }
  · intro p
    by_cases hp : p = pri
    · subst hp
      rw [hlane, List.pairwise_append]
      refine ⟨?_, List.pairwise_singleton _ _, ?_⟩
      · refine List.Pairwise.imp_of_mem ?_ (h.fifo p)
        intro a b ha _ hab
        exact hkeep a b (fun he => hfresh (he ▸ ha)) hab
      · intro a ha b hb
        rw [List.mem_singleton.mp hb]
        refine ⟨s.trace, [.accepted id], rfl, ?_, by simp⟩
        intro hm
        simp only [List.mem_singleton, QueueEvent.accepted.injEq] at hm
        exact hfresh (hm ▸ ha)
    · refine List.Pairwise.imp_of_mem ?_ ((h.fifo p).sublist (hother p hp))
      intro a b ha _ hab
      exact hkeep a b (fun he => hapart p hp (he ▸ ha)) hab
  · intro x
    show x ∈ q.queued ↔ waysLeft (s.trace ++ [.accepted id]) x = some []
    rw [hqueued, Finset.mem_insert, waysLeft_accepted, h.waiting]
    by_cases hx : id = x
    · simp [hx]
    · simp [hx, Ne.symm hx]
  · intro x ways hx
    change waysLeft (s.trace ++ [.accepted id]) x = some ways at hx
    rw [waysLeft_accepted] at hx
    split_ifs at hx
    · cases hx
      simp
    · exact h.leftOnce x ways hx
  · show q.droppedTotal = (s.trace ++ [QueueEvent.accepted id]).countP _
    rw [hdropped, h.counted, List.countP_append]
    rfl

/-- An id that was not queued goes to the end of its lane. -/
theorem conserved_append {s : Traced} (h : Conserved s) (id : String) (pri : EncodePriority)
    (hnew : id ∉ s.queue.queued) (hroom : s.queue.queued.card < s.queue.maxsize) :
    Conserved ⟨s.queue.append id pri, s.trace ++ [.accepted id]⟩ := by
  have hout : id ∉ s.queue.p1 ++ s.queue.p2 := fun hm => hnew ((h.queued id).mpr hm)
  have hone : id ∉ s.queue.p1 := fun hm => hout (List.mem_append_left _ hm)
  have htwo : id ∉ s.queue.p2 := fun hm => hout (List.mem_append_right _ hm)
  have hbound : (insert id s.queue.queued).card ≤ s.queue.maxsize := by
    rw [Finset.card_insert_of_notMem hnew]
    omega
  have hq : Consistent (s.queue.append id pri) := by
    refine ⟨?_, ?_, ?_, ?_, ?_⟩
    · have hn := h.nodup
      cases pri <;> simp only [EncodeQueue.append] <;> grind
    · intro x
      have hx := h.queued x
      cases pri <;> simp only [EncodeQueue.append, Finset.mem_insert] <;> grind
    · intro x p
      have hx := h.lane x p
      cases pri <;> cases p <;> simp only [EncodeQueue.append, EncodeQueue.laneIds] at hx ⊢ <;> grind
    · cases pri <;> exact hbound
    · cases pri <;> exact h.roomy
  refine conserved_accept h _ hq id pri ?_ ?_ ?_ ?_
  · cases pri <;> rfl
  · intro p hp
    cases pri <;> cases p
    all_goals first
      | exact absurd rfl hp
      | exact List.Sublist.refl _
  · cases pri <;> rfl
  · cases pri <;> rfl

theorem conserved_promote {s : Traced} (h : Conserved s) (id : String)
    (hlane : id ∈ s.queue.p2) :
    Conserved ⟨s.queue.promote id, s.trace ++ [.accepted id]⟩ := by
  have hn := h.nodup
  have hin : id ∈ s.queue.queued := (h.queued id).mpr (List.mem_append_right _ hlane)
  have hq : Consistent (s.queue.promote id) := by
    have htwo := (List.nodup_append.mp hn).2.1
    refine ⟨?_, ?_, ?_, h.bound, h.roomy⟩
    · simp only [EncodeQueue.promote]
      have hperm : (s.queue.p1 ++ [id] ++ s.queue.p2.erase id).Perm (s.queue.p1 ++ s.queue.p2) := by
        rw [List.append_assoc]
        exact List.Perm.append_left _ (List.perm_cons_erase hlane).symm
      exact hperm.nodup_iff.mpr hn
    · intro x
      have hx := h.queued x
      have herase := htwo.mem_erase_iff (a := id) (b := x)
      simp only [EncodeQueue.promote, List.mem_append, List.mem_singleton] at hx ⊢
      grind
    · intro x p
      have hx := h.lane x p
      have herase := htwo.mem_erase_iff (a := id) (b := x)
      cases p <;> simp only [EncodeQueue.promote, EncodeQueue.laneIds] at hx ⊢ <;> grind
  refine conserved_accept h _ hq id .atomCreate rfl ?_ ?_ rfl
  · intro p hp
    cases p
    · exact absurd rfl hp
    · exact List.erase_sublist
  · exact (Finset.insert_eq_of_mem hin).symm

theorem conserved_enqueue {s : Traced} (h : Conserved s) (id : String) (pri : EncodePriority) :
    Conserved (stepEncode s (.enqueue id pri)) := by
  show Conserved (s.enqueued id (s.queue.enqueue id pri))
  have unchanged : Conserved (s.enqueued id (false, [], s.queue)) := by
    simpa [Traced.enqueued] using h
  unfold EncodeQueue.enqueue
  split_ifs with hempty hqueued hpromote
  · exact unchanged
  · have htwo : id ∈ s.queue.p2 := by
      rw [← show s.queue.laneIds .catchup = s.queue.p2 from rfl, ← h.lane]
      obtain hone | htwo := List.mem_append.mp ((h.queued id).mp hqueued)
      · have hl := (h.lane id .atomCreate).mpr hone
        rw [hl] at hpromote
        cases hpromote.1
      · exact (h.lane id .catchup).mpr htwo
    simpa [Traced.enqueued] using conserved_promote h id htwo
  · exact unchanged
  · obtain ⟨hroom, hfit, hsub⟩ :=
      conserved_makeRoom (s.queue.p1.length + s.queue.p2.length) h (le_refl _)
    simp only []
    rw [if_neg (by omega)]
    exact conserved_append hroom id pri (fun hm => hqueued (hsub id hm)) hfit

theorem waysLeft_cleared (trace : List QueueEvent) (ids : List String) (hn : ids.Nodup)
    (x : String) : waysLeft (trace ++ ids.map (fun id => .left id .cleared)) x =
      if x ∈ ids then (waysLeft trace x).map (· ++ [.cleared]) else waysLeft trace x := by
  induction ids using List.reverseRecOn with
  | nil => simp
  | append_singleton ids id ih =>
    have hids := hn
    rw [List.nodup_append] at hids
    rw [List.map_append, ← List.append_assoc, List.map_cons, List.map_nil, waysLeft_left,
      ih hids.1]
    by_cases hx : id = x
    · subst hx
      have hout : id ∉ ids := fun hm => hids.2.2 id hm id (by simp) rfl
      simp [hout]
    · have hiff : x ∈ ids ++ [id] ↔ x ∈ ids := by
        simp [Ne.symm hx]
      simp only [hiff, if_neg hx]

theorem conserved_clear {s : Traced} (h : Conserved s) : Conserved (stepEncode s .clear) := by
  have hways := waysLeft_cleared s.trace (s.queue.p1 ++ s.queue.p2) h.nodup
  refine { nodup := List.nodup_nil, queued := ?_, lane := ?_, bound := Nat.zero_le _,
           roomy := h.roomy, fifo := ?_, waiting := ?_, leftOnce := ?_, counted := ?_ }
  · intro id
    simp [stepEncode, EncodeQueue.clear]
  · intro id pri
    cases pri <;> simp [stepEncode, EncodeQueue.clear, EncodeQueue.laneIds]
  · intro pri
    cases pri <;> exact List.Pairwise.nil
  · intro id
    have hid := hways id
    simp only [stepEncode, EncodeQueue.clear, Finset.notMem_empty, false_iff]
    rw [hid]
    split_ifs with hm
    · rw [(h.waiting id).mp ((h.queued id).mpr hm)]
      simp
    · rw [← h.waiting, h.queued]
      exact hm
  · intro id ways hw
    change waysLeft (s.trace ++ _) id = some ways at hw
    rw [hways id] at hw
    split_ifs at hw with hm
    · rw [(h.waiting id).mp ((h.queued id).mpr hm), Option.map_some, Option.some.injEq] at hw
      rw [← hw]
      simp
    · exact h.leftOnce id ways hw
  · show s.queue.droppedTotal = (s.trace ++ _).countP _
    have hzero : ((s.queue.p1 ++ s.queue.p2).map (fun id => QueueEvent.left id .cleared)).countP
        (fun e => e matches .left _ .dropped) = 0 := by
      rw [List.countP_eq_zero]
      intro e he
      obtain ⟨id, -, rfl⟩ := List.mem_map.mp he
      simp
    rw [List.countP_append, hzero, h.counted, Nat.add_zero]

theorem conserved_step (s : Traced) (c : EncodeCall) (h : Conserved s) :
    Conserved (stepEncode s c) := by
  cases c with
  | enqueue id pri => exact conserved_enqueue h id pri
  | popNextBulk => exact conserved_popNextBulk h
  | clear => exact conserved_clear h

/-- Pops take the live creates in order, and then the catchup ids. -/
theorem popMany_eq (n : Nat) (q : EncodeQueue) : q.popMany n =
    (q.p1.map (fun id => (id, EncodePriority.atomCreate)) ++
      q.p2.map (fun id => (id, EncodePriority.catchup))).take n := by
  induction n generalizing q with
  | zero => rfl
  | succ n ih =>
    unfold EncodeQueue.popMany EncodeQueue.popNextBulk
    cases h1 : q.p1 with
    | cons id rest =>
      simp only [ih]
      simp [EncodeQueue.forget]
    | nil =>
      cases h2 : q.p2 with
      | cons id rest =>
        simp only [ih]
        simp [EncodeQueue.forget]
      | nil => rfl

/-- After any calls the lanes share no id and hold the queued ids in the order of their last
acceptance; an accepted id is queued or left in one way, and the drops are counted. -/
theorem encode_queue_conserves (maxsize : Int) (calls : List EncodeCall) :
    let s := run stepEncode (Traced.start maxsize) calls
    ((s.queue.p1 ++ s.queue.p2).Nodup ∧
      (∀ id, id ∈ s.queue.queued ↔ id ∈ s.queue.p1 ∨ id ∈ s.queue.p2) ∧
      (∀ id pri, s.queue.lane.get? id = some pri ↔ id ∈ s.queue.laneIds pri) ∧
      s.queue.queued.card ≤ s.queue.maxsize) ∧
    ((∀ n, s.queue.popMany n = (s.queue.p1.map (fun id => (id, EncodePriority.atomCreate)) ++
        s.queue.p2.map (fun id => (id, EncodePriority.catchup))).take n) ∧
      ∀ pri, (s.queue.laneIds pri).Pairwise (AcceptedBefore s.trace)) ∧
    (s.queue.droppedTotal = s.trace.countP (fun e => e matches .left _ .dropped) ∧
      ∀ id ways, waysLeft s.trace id = some ways →
        id ∈ s.queue.queued ∧ ways = [] ∨ id ∉ s.queue.queued ∧ ∃ how, ways = [how]) := by
  intro s
  have h : Conserved s :=
    run_invariant Conserved conserved_step (Traced.start maxsize) calls (conserved_start maxsize)
  refine ⟨⟨h.nodup, ?_, h.lane, h.bound⟩, ⟨fun n => popMany_eq n s.queue, h.fifo⟩, h.counted, ?_⟩
  · intro id
    rw [h.queued, List.mem_append]
  · intro id ways hw
    have hone := h.leftOnce id ways hw
    cases ways with
    | nil => exact Or.inl ⟨(h.waiting id).mpr hw, rfl⟩
    | cons how rest =>
      have hrest : rest = [] := by
        apply List.eq_nil_of_length_eq_zero
        simp only [List.length_cons] at hone
        omega
      subst hrest
      refine Or.inr ⟨?_, how, rfl⟩
      rw [h.waiting, hw]
      simp

end Elyra.Memory
