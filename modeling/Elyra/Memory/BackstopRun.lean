import Elyra.Memory.BackstopItem
import Elyra.Framework.Backlog
import Elyra.Memory.PendingBackstop

namespace Elyra.Memory

open JsonlMemoryStore

section Lanes

variable {q : EncodeQueue} {ids : List String} {id : String}

/-- The catchup lane holds these ids and the other lane none. -/
structure Lined (q : EncodeQueue) (ids : List String) : Prop where
  p1 : q.p1 = []
  p2 : q.p2 = ids
  queued : ∀ i, i ∈ q.queued ↔ i ∈ ids
  card : q.queued.card = ids.length

theorem lined_new (maxsize : Int) : Lined (.new maxsize) [] :=
  ⟨rfl, rfl, fun i => by simp [EncodeQueue.new], rfl⟩

theorem makeRoom_roomy (passes : Nat) (h : q.queued.card < q.maxsize) :
    q.makeRoom passes = ([], q) := by
  cases passes with
  | zero => rfl
  | succ passes => rw [EncodeQueue.makeRoom, if_neg (by omega)]

theorem enqueue_lined (h : Lined q ids) (hid : id ≠ "") (hnew : id ∉ ids)
    (hroom : ids.length < q.maxsize) :
    ∃ q', q.enqueue id .catchup = (true, [], q') ∧ Lined q' (ids ++ [id]) ∧
      q'.maxsize = q.maxsize := by
  have hcard : q.queued.card < q.maxsize := by
    rw [h.card]
    exact hroom
  have hout : id ∉ q.queued := fun hin => hnew ((h.queued id).mp hin)
  refine ⟨q.append id .catchup, ?_, ⟨h.p1, ?_, ?_, ?_⟩, rfl⟩
  · rw [EncodeQueue.enqueue, if_neg hid, if_neg hout, makeRoom_roomy _ hcard]
    simp only
    rw [if_neg (by omega)]
  · show q.p2 ++ [id] = _
    rw [h.p2]
  · intro i
    show i ∈ insert id q.queued ↔ _
    rw [Finset.mem_insert, h.queued, List.mem_append, List.mem_singleton, or_comm]
  · show (insert id q.queued).card = _
    rw [Finset.card_insert_of_notMem hout, h.card, List.length_append]
    rfl

theorem pop_lined (h : Lined q (id :: ids)) (hids : id ∉ ids) :
    ∃ q', q.popNextBulk = (some (id, .catchup), q') ∧ Lined q' ids ∧ q'.maxsize = q.maxsize := by
  refine ⟨q.forget [] ids id, ?_, ⟨rfl, rfl, ?_, ?_⟩, rfl⟩
  · unfold EncodeQueue.popNextBulk
    rw [h.p1, h.p2]
  · intro i
    show i ∈ q.queued.erase id ↔ _
    rw [Finset.mem_erase, h.queued, List.mem_cons]
    constructor
    · rintro ⟨hne, hin⟩
      exact hin.resolve_left hne
    · intro hin
      exact ⟨fun heq => hids (heq ▸ hin), .inr hin⟩
  · show (q.queued.erase id).card = _
    rw [Finset.card_erase_of_mem ((h.queued id).mpr List.mem_cons_self), h.card]
    rfl

/-- The deferred ids stand in the queue after the drain. -/
theorem flush_lined {ids queue : List String} {q : EncodeQueue} (h : Lined q queue)
    (hnodup : (queue ++ ids).Nodup) (hne : ∀ i ∈ ids, i ≠ "")
    (hroom : (queue ++ ids).length ≤ q.maxsize) :
    Lined ((ids.map fun i => (i, EncodePriority.catchup)).foldl
        (fun q item => (q.enqueue item.1 item.2).2.2) q) (queue ++ ids) ∧
      ((ids.map fun i => (i, EncodePriority.catchup)).foldl
        (fun q item => (q.enqueue item.1 item.2).2.2) q).maxsize = q.maxsize := by
  induction ids generalizing q queue with
  | nil => exact ⟨by simpa using h, rfl⟩
  | cons id ids ih =>
    have hnew : id ∉ queue := by
      intro hin
      exact (List.nodup_append.mp hnodup).2.2 id hin id List.mem_cons_self rfl
    have hlen : queue.length < q.maxsize := by
      rw [List.length_append, List.length_cons] at hroom
      omega
    obtain ⟨q', henqueue, hlined, hmax⟩ := enqueue_lined h (hne id List.mem_cons_self) hnew hlen
    have hsplit : queue ++ id :: ids = (queue ++ [id]) ++ ids := by simp
    rw [hsplit] at hnodup hroom ⊢
    have hrest := ih hlined hnodup (fun i hi => hne i (List.mem_cons_of_mem _ hi))
      (by rw [hmax]; exact hroom)
    rw [List.map_cons, List.foldl_cons, henqueue]
    exact ⟨hrest.1, hrest.2.trans hmax⟩

end Lanes

section Rounds

variable [PyCoerce] {w : Encoding} {maxAttempts : Int}

/-- A scan that fits the queue adds the listed ids that are not in it, and drops none. -/
theorem scan_lined {found : List Atom} {b : Backstop} {ids : List String}
    (hnodup : (found.map Atom.atomId).Nodup) (hne : ∀ a ∈ found, a.atomId ≠ "")
    (h : Lined b.queue ids)
    (hroom : (ids ++ (found.map Atom.atomId).filter (· ∉ ids)).length ≤ b.queue.maxsize) :
    (found.foldl scanRow b).store = b.store ∧
      Lined (found.foldl scanRow b).queue (ids ++ (found.map Atom.atomId).filter (· ∉ ids)) ∧
      (found.foldl scanRow b).queue.maxsize = b.queue.maxsize := by
  induction found generalizing b ids with
  | nil => exact ⟨rfl, by simpa using h, rfl⟩
  | cons a found ih =>
    rw [List.map_cons, List.nodup_cons] at hnodup
    have hrest := fun x hx => hne x (List.mem_cons_of_mem a hx)
    rw [List.foldl_cons]
    by_cases hin : a.atomId ∈ ids
    · have hstep : scanRow b a = b := if_pos ((h.queued a.atomId).mpr hin)
      have hsame : (List.map Atom.atomId (a :: found)).filter (· ∉ ids) =
          (found.map Atom.atomId).filter (· ∉ ids) := by
        rw [List.map_cons, List.filter_cons_of_neg (by simpa using hin)]
      rw [hsame] at hroom ⊢
      rw [hstep]
      exact ih hnodup.2 hrest h hroom
    · have hsame : (List.map Atom.atomId (a :: found)).filter (· ∉ ids) =
          a.atomId :: (found.map Atom.atomId).filter (· ∉ ids ++ [a.atomId]) := by
        rw [List.map_cons, List.filter_cons_of_pos (by simpa using hin)]
        congr 1
        apply List.filter_congr
        intro i hi
        have hother : i ≠ a.atomId := fun heq => hnodup.1 (heq ▸ hi)
        simp [hother]
      rw [hsame] at hroom ⊢
      have hlen : ids.length < b.queue.maxsize := by
        rw [List.length_append, List.length_cons] at hroom
        omega
      obtain ⟨q', henqueue, hlined, hmax⟩ :=
        enqueue_lined h (hne a List.mem_cons_self) hin hlen
      have hstep : scanRow b a = ⟨b.store, q'⟩ := by
        rw [scanRow, if_neg (fun hq => hin ((h.queued a.atomId).mp hq)), henqueue]
        rfl
      have hroom' : ((ids ++ [a.atomId]) ++
          (found.map Atom.atomId).filter (· ∉ ids ++ [a.atomId])).length ≤ q'.maxsize := by
        rw [hmax, List.append_assoc]
        exact hroom
      rw [hstep]
      have hfold := ih (b := ⟨b.store, q'⟩) hnodup.2 hrest hlined hroom'
      rw [List.append_assoc] at hfold
      exact ⟨hfold.1, hfold.2.1, hfold.2.2.trans hmax⟩

/-- The store after a pass over one id. -/
def pass (w : Encoding) (maxAttempts : Int) (s : JsonlMemoryStore) (id : String) :
    JsonlMemoryStore :=
  (processed w maxAttempts s id).1

/-- The ids that passes one after the other defer. -/
def deferrals (w : Encoding) (maxAttempts : Int) : JsonlMemoryStore → List String → List String
  | _, [] => []
  | s, id :: ids =>
    (if (processed w maxAttempts s id).2 then [id] else []) ++
      deferrals w maxAttempts (pass w maxAttempts s id) ids

/-- A drain with room for all queued ids passes over each of them once, in order. -/
theorem drainLoop_lined {ids seen : List String} {b : Backstop} {left : Nat}
    {deferred : List (String × EncodePriority)} (h : Lined b.queue ids) (hnodup : ids.Nodup)
    (hseen : ∀ i ∈ ids, i ∉ seen) (hleft : ids.length ≤ left) :
    ∃ q', drainLoop w maxAttempts ids.length left seen b deferred =
        (⟨ids.foldl (pass w maxAttempts) b.store, q'⟩,
          deferred ++ (deferrals w maxAttempts b.store ids).map fun i => (i, .catchup)) ∧
      Lined q' [] ∧ q'.maxsize = b.queue.maxsize := by
  induction ids generalizing b seen left deferred with
  | nil =>
    refine ⟨b.queue, ?_, h, rfl⟩
    simp [drainLoop, deferrals]
  | cons id ids ih =>
    obtain ⟨hid, hids⟩ := List.nodup_cons.mp hnodup
    obtain ⟨q₁, hpop, hlined, hmax⟩ := pop_lined h hid
    obtain ⟨left, rfl⟩ : ∃ n, left = n + 1 := ⟨left - 1, by rw [List.length_cons] at hleft; omega⟩
    have hfresh : id ∉ seen := hseen id List.mem_cons_self
    have hseen' : ∀ i ∈ ids, i ∉ id :: seen := by
      intro i hi
      rw [List.mem_cons, not_or]
      exact ⟨fun heq => hid (heq ▸ hi), hseen i (List.mem_cons_of_mem _ hi)⟩
    have hleft' : ids.length ≤ left := by
      rw [List.length_cons] at hleft
      omega
    have hrest := @ih (id :: seen) ⟨pass w maxAttempts b.store id, q₁⟩ left
      (if (processed w maxAttempts b.store id).2 then deferred ++ [(id, .catchup)] else deferred)
      hlined hids hseen' hleft'
    obtain ⟨q', hrun, hempty, hmax'⟩ := hrest
    refine ⟨q', ?_, hempty, hmax'.trans hmax⟩
    rw [List.length_cons, drainLoop, hpop]
    simp only
    rw [if_neg hfresh]
    refine hrun.trans ?_
    rw [List.foldl_cons, deferrals]
    by_cases hagain : (processed w maxAttempts b.store id).2 = true
    · rw [if_pos hagain, if_pos hagain, List.map_append, List.append_assoc]
      rfl
    · rw [if_neg hagain, if_neg hagain, List.nil_append]

/-- Passes over distinct pending rows: each meets its row as it was, the other rows stay, and the
deferred ids are those whose attempts do not read. -/
theorem foldl_pass {ids : List String} {s : JsonlMemoryStore} (hs : StoreOk s) (hnodup : ids.Nodup)
    (hpending : ∀ i ∈ ids, ∃ a, s.getAtom i = some a ∧ a.embeddingStatus = "pending") :
    StoreOk (ids.foldl (pass w maxAttempts) s) ∧
      (∀ j, j ∉ ids → (ids.foldl (pass w maxAttempts) s).getAtom j = s.getAtom j) ∧
      (∀ j ∈ ids, ∀ a, s.getAtom j = some a →
        ∃ p, (ids.foldl (pass w maxAttempts) s).getAtom j = some p ∧ Outcome w a p) ∧
      deferrals w maxAttempts s ids =
        ids.filter fun i => (s.getAtom i).any fun a => isEmbeddable a && !readable a := by
  induction ids generalizing s with
  | nil => exact ⟨hs, fun _ _ => rfl, by simp, rfl⟩
  | cons id ids ih =>
    obtain ⟨hid, hids⟩ := List.nodup_cons.mp hnodup
    obtain ⟨a, hget, ha⟩ := hpending id List.mem_cons_self
    have hstep := processed_outcome (w := w) hs hget ha maxAttempts
    obtain ⟨p, hp, houtcome, hothers, hok, hagain⟩ := hstep
    have hok : StoreOk (pass w maxAttempts s id) := hok
    have hp : (pass w maxAttempts s id).getAtom id = some p := hp
    have hothers : ∀ j, j ≠ id → (pass w maxAttempts s id).getAtom j = s.getAtom j := hothers
    have hkeep : ∀ j ∈ ids, (pass w maxAttempts s id).getAtom j = s.getAtom j :=
      fun j hj => hothers j fun heq => hid (heq ▸ hj)
    have hpending' : ∀ i ∈ ids, ∃ a, (pass w maxAttempts s id).getAtom i = some a ∧
        a.embeddingStatus = "pending" := by
      intro i hi
      rw [hkeep i hi]
      exact hpending i (List.mem_cons_of_mem _ hi)
    obtain ⟨hok', hothers', houtcomes, hdeferred⟩ := ih hok hids hpending'
    rw [List.foldl_cons]
    refine ⟨hok', ?_, ?_, ?_⟩
    · intro j hj
      rw [List.mem_cons, not_or] at hj
      rw [hothers' j hj.2]
      exact hothers j hj.1
    · intro j hj b hb
      obtain rfl | hj := List.mem_cons.mp hj
      · rw [hget] at hb
        cases hb
        exact ⟨p, (hothers' j hid).trans hp, houtcome⟩
      · exact houtcomes j hj b ((hkeep j hj).trans hb)
    · have hsame : (ids.filter fun i => ((pass w maxAttempts s id).getAtom i).any
          fun a => isEmbeddable a && !readable a) =
          ids.filter fun i => (s.getAtom i).any fun a => isEmbeddable a && !readable a := by
        apply List.filter_congr
        intro i hi
        rw [hkeep i hi]
      rw [deferrals, hdeferred, hsame, hagain, List.filter_cons, hget]
      cases hflag : (isEmbeddable a && !readable a) <;> simp [hflag]

end Rounds

open JsonlMemoryStore

/-- The ids a scan lists. -/
def scanWindow (limit : Nat) (s : JsonlMemoryStore) : List String :=
  ((backlog s).take (min limit listAtomsMax)).map (·.2)

/-- Between two rounds the queue holds ids of the window, and has room for all of it. -/
structure RoundStart (limit : Nat) (b : Backstop) : Prop where
  store : StoreOk b.store
  dated : DatedBacklog b.store
  queue : ∃ ids, Lined b.queue ids ∧ ids.Nodup ∧ ∀ i ∈ ids, i ∈ scanWindow limit b.store
  room : (scanWindow limit b.store).length ≤ b.queue.maxsize

section Window

variable {limit : Nat} {s : JsonlMemoryStore} {id : String}

theorem validateAtom_id {a p : Atom} (h : validateAtom a = .ok p) : a.atomId ≠ "" := by
  unfold validateAtom at h
  split_ifs at h with h1
  exact h1

theorem storable_id {settings : MemorySettings} {a : Atom} (h : Storable settings a) :
    a.atomId ≠ "" := by
  obtain ⟨p, hp⟩ := h
  obtain ⟨stamped, hstamped, hvalid⟩ := except_bind_ok hp
  obtain ⟨⟨hid, -⟩, -⟩ := normalizeStamps_rest hstamped
  have hsome : (fillDefaults (locate settings (capContent settings stamped))).atomId ≠ "" :=
    validateAtom_id hvalid
  change (capContent settings stamped).atomId ≠ "" at hsome
  rwa [(capped_capContent settings stamped).atomId, hid] at hsome

theorem mem_scanWindow (hs : Keyed s) : id ∈ scanWindow limit s ↔
    ∃ k a, k ∈ (backlog s).take (min limit listAtomsMax) ∧ k.2 = id ∧ s.getAtom id = some a ∧
      a.embeddingStatus = "pending" ∧ startKey a = .ok k := by
  rw [scanWindow, List.mem_map]
  constructor
  · rintro ⟨k, hk, rfl⟩
    obtain ⟨a, hrow, hpending, hkey⟩ := (mem_backlog hs).mp (List.mem_of_mem_take hk)
    exact ⟨k, a, hk, rfl, hrow, hpending, hkey⟩
  · rintro ⟨k, a, hk, hid, -⟩
    exact ⟨k, hk, hid⟩

theorem backlog_nodup (hs : Keyed s) : (backlog s).Nodup := by
  refine (backlog_pairwise hs).imp ?_
  intro k l hlt
  exact ne_of_gt hlt

theorem scanWindow_nodup (hs : Keyed s) : (scanWindow limit s).Nodup := by
  refine List.Nodup.map_on ?_ ((backlog_nodup hs).sublist (List.take_sublist _ _))
  intro k hk l hl heq
  obtain ⟨a, hrow, -, hkey⟩ := (mem_backlog hs).mp (List.mem_of_mem_take hk)
  obtain ⟨c, hrow', -, hkey'⟩ := (mem_backlog hs).mp (List.mem_of_mem_take hl)
  rw [← heq, hrow] at hrow'
  cases hrow'
  rw [hkey] at hkey'
  exact Except.ok.inj hkey'

/-- A key of the window is that of the row under its id. -/
theorem key_in_window (hs : Keyed s) {a : Atom} {k : String ×ₗ String}
    (ha : s.getAtom k.2 = some a) (hkey : startKey a = .ok k) :
    k.2 ∈ scanWindow limit s ↔ k ∈ (backlog s).take (min limit listAtomsMax) := by
  rw [mem_scanWindow hs]
  constructor
  · rintro ⟨l, c, hl, hid, hrow, -, hlkey⟩
    rw [ha] at hrow
    cases hrow
    rw [hkey] at hlkey
    cases hlkey
    exact hl
  · intro hk
    obtain ⟨c, hrow, hpending, hckey⟩ := (mem_backlog hs).mp (List.mem_of_mem_take hk)
    exact ⟨k, c, hk, rfl, hrow, hpending, hckey⟩

/-- The ids of the window behind those already queued. -/
theorem window_split {ids window : List String} (hids : ids.Nodup) (hwindow : window.Nodup)
    (hsub : ∀ i ∈ ids, i ∈ window) :
    (ids ++ window.filter (· ∉ ids)).Perm window := by
  apply (List.perm_ext_iff_of_nodup ?_ hwindow).mpr
  · intro i
    simp only [List.mem_append, List.mem_filter, decide_eq_true_eq]
    constructor
    · rintro (hi | ⟨hi, -⟩)
      · exact hsub i hi
      · exact hi
    · intro hi
      by_cases hin : i ∈ ids
      · exact .inl hin
      · exact .inr ⟨hi, hin⟩
  · refine List.nodup_append.mpr ⟨hids, hwindow.filter _, ?_⟩
    rintro i hi j hj rfl
    simp only [List.mem_filter, decide_eq_true_eq] at hj
    exact hj.2 hi

theorem start_new {maxsize : Int} (hs : StoreOk s) (hdated : DatedBacklog s)
    (hfits : min (min limit listAtomsMax) (pendingAtoms s).length ≤
      (EncodeQueue.new maxsize).maxsize) : RoundStart limit ⟨s, .new maxsize⟩ := by
  refine ⟨hs, hdated, ⟨[], lined_new maxsize, List.nodup_nil, by simp⟩, ?_⟩
  rw [scanWindow, List.length_map, List.length_take, length_backlog hdated]
  exact hfits

end Window

section Round

variable [PyCoerce] {w : Encoding} {maxAttempts : Int} {limit : Nat} {b : Backstop}

/-- What a round does: every row of the window is passed over once, and the ids that stay queued are
of stuck rows. -/
structure RoundDone (w : Encoding) (limit : Nat) (b b' : Backstop) : Prop where
  store : StoreOk b'.store
  others : ∀ j, j ∉ scanWindow limit b.store → b'.store.getAtom j = b.store.getAtom j
  passed : ∀ j ∈ scanWindow limit b.store, ∀ a, b.store.getAtom j = some a →
    ∃ p, b'.store.getAtom j = some p ∧ Outcome w a p
  queue : ∃ ids, Lined b'.queue ids ∧ ids.Nodup ∧ ∀ i ∈ ids, i ∈ scanWindow limit b.store ∧
    ∃ a, b.store.getAtom i = some a ∧ isStuck w a = true
  maxsize : b'.queue.maxsize = b.queue.maxsize

theorem round_done (h : RoundStart limit b) :
    RoundDone w limit b (round w maxAttempts limit b) := by
  obtain ⟨found, hfound, hids, hrows⟩ := listAtoms_dated h.dated (limit : Int)
  rw [Int.toNat_natCast] at hids
  change found.map Atom.atomId = scanWindow limit b.store at hids
  obtain ⟨queued, hlined, hqueued, hsub⟩ := h.queue
  have hkeyed := h.store.keyed
  have hwindow : (found.map Atom.atomId).Nodup := by
    rw [hids]
    exact scanWindow_nodup hkeyed
  have hperm := window_split hqueued hwindow (by rw [hids]; exact hsub)
  generalize hall : queued ++ (found.map Atom.atomId).filter (· ∉ queued) = all at hperm
  rw [hids] at hperm
  have hlen : all.length = (scanWindow limit b.store).length := hperm.length_eq
  have hnodup : all.Nodup := hperm.nodup_iff.mpr (scanWindow_nodup hkeyed)
  have hne : ∀ a ∈ found, a.atomId ≠ "" := by
    intro a ha
    obtain ⟨hrow, -⟩ := (mem_pendingAtoms hkeyed).mp (hrows a ha)
    exact storable_id (h.store.storable _ a hrow)
  obtain ⟨hstore, hscan, hmax⟩ := scan_lined hwindow hne hlined
    (by rw [hall, hlen]; exact h.room)
  rw [hall] at hscan
  have hstep : scanPendingIntoQueue limit b = found.foldl scanRow b := by
    rw [scanPendingIntoQueue, hfound]
  rw [← hstep] at hstore hscan hmax
  have hroom : all.length ≤ limit := by
    rw [hlen, scanWindow, List.length_map]
    exact Nat.le_trans (List.length_take_le _ _) (Nat.min_le_left _ _)
  obtain ⟨q', hdrain, hempty, hmax'⟩ := @drainLoop_lined _ w (max 1 maxAttempts) all []
    (scanPendingIntoQueue limit b) limit [] hscan hnodup (by simp) hroom
  rw [hstore] at hdrain
  have hpending : ∀ i ∈ all, ∃ a, b.store.getAtom i = some a ∧ a.embeddingStatus = "pending" := by
    intro i hi
    obtain ⟨k, a, -, -, hrow, ha, -⟩ := (mem_scanWindow hkeyed).mp (hperm.mem_iff.mp hi)
    exact ⟨a, hrow, ha⟩
  obtain ⟨hok, hothers, hpassed, hdeferred⟩ := @foldl_pass _ w (max 1 maxAttempts) all b.store
    h.store hnodup hpending
  -- The queue is empty when what was deferred is queued again.
  have hfew : (deferrals w (max 1 maxAttempts) b.store all).length ≤ q'.maxsize := by
    rw [hdeferred, hmax', hmax]
    refine Nat.le_trans (List.length_filter_le _ _) ?_
    rw [hlen]
    exact h.room
  have hagain : ∀ i ∈ deferrals w (max 1 maxAttempts) b.store all, i ∈ all ∧
      ∃ a, b.store.getAtom i = some a ∧ isStuck w a = true := by
    intro i hi
    rw [hdeferred, List.mem_filter] at hi
    obtain ⟨a, hrow, -⟩ := hpending i hi.1
    have hflag := hi.2
    rw [hrow] at hflag
    simp only [Option.any_some, Bool.and_eq_true, Bool.not_eq_true'] at hflag
    refine ⟨hi.1, a, hrow, ?_⟩
    rw [isStuck, hflag.1, hflag.2, Bool.and_false]
    rfl
  have hagain_nodup : (deferrals w (max 1 maxAttempts) b.store all).Nodup := by
    rw [hdeferred]
    exact hnodup.filter _
  have hflush := flush_lined hempty (by rw [List.nil_append]; exact hagain_nodup)
    (by
      intro i hi
      obtain ⟨-, a, hrow, -⟩ := hagain i hi
      rw [← hkeyed i a hrow]
      exact storable_id (h.store.storable i a hrow))
    (by rw [List.nil_append]; exact hfew)
  rw [List.nil_append] at hflush
  have hround : round w maxAttempts limit b = ⟨all.foldl (pass w (max 1 maxAttempts)) b.store,
      ((deferrals w (max 1 maxAttempts) b.store all).map fun i => (i, EncodePriority.catchup)).foldl
        (fun q item => (q.enqueue item.1 item.2).2.2) q'⟩ := by
    have hpops : (scanPendingIntoQueue limit b).queue.p1.length +
        (scanPendingIntoQueue limit b).queue.p2.length = all.length := by
      rw [hscan.p1, hscan.p2]
      exact Nat.zero_add _
    rw [round, drain, hpops, hdrain, List.nil_append]
  rw [hround]
  refine ⟨hok, ?_, ?_, ⟨_, hflush.1, hagain_nodup, ?_⟩, ?_⟩
  · exact fun j hj => hothers j fun hin => hj (hperm.mem_iff.mp hin)
  · exact fun j hj => hpassed j (hperm.mem_iff.mpr hj)
  · intro i hi
    obtain ⟨hin, hstuck⟩ := hagain i hi
    exact ⟨hperm.mem_iff.mp hin, hstuck⟩
  · exact (hflush.2.trans hmax').trans hmax

end Round

section Steps

variable [PyCoerce] {w : Encoding} {maxAttempts : Int} {limit : Nat} {b b' : Backstop}
  {stuck : String ×ₗ String → Bool}

/-- The key of a pending row tells whether the row is stuck. -/
def Agrees (w : Encoding) (stuck : String ×ₗ String → Bool) (s : JsonlMemoryStore) : Prop :=
  ∀ id a k, s.getAtom id = some a → a.embeddingStatus = "pending" → startKey a = .ok k →
    stuck k = isStuck w a

theorem Outcome.stuck_of_pending {a p : Atom} (h : Outcome w a p)
    (hp : p.embeddingStatus = "pending") : isStuck w a = true := by
  by_contra hne
  have hsettled := h.settled (by simpa using hne)
  rw [hp] at hsettled
  cases hencodes : encodes w a <;> rw [hencodes] at hsettled <;> exact absurd hsettled (by decide)

/-- A row that is pending after a round was so before it, under the same key; it is as it was or
stuck. -/
theorem RoundDone.pending_before (hb : StoreOk b.store) (h : RoundDone w limit b b') {id : String}
    {p : Atom} (hrow : b'.store.getAtom id = some p) (hp : p.embeddingStatus = "pending") :
    ∃ a, b.store.getAtom id = some a ∧ a.embeddingStatus = "pending" ∧ startKey p = startKey a ∧
      isStuck w p = isStuck w a ∧ (id ∈ scanWindow limit b.store → isStuck w a = true) := by
  by_cases hin : id ∈ scanWindow limit b.store
  · obtain ⟨k, a, -, -, ha, hpending, -⟩ := (mem_scanWindow hb.keyed).mp hin
    obtain ⟨q, hq, houtcome⟩ := h.passed id hin a ha
    rw [hrow] at hq
    cases hq
    have hstuck := houtcome.stuck_of_pending hp
    obtain ⟨-, hsame, hkey⟩ := houtcome.stuck hstuck
    exact ⟨a, ha, hpending, hkey, hsame.trans hstuck.symm, fun _ => hstuck⟩
  · rw [h.others id hin] at hrow
    exact ⟨p, hrow, hp, rfl, rfl, fun hmem => absurd hmem hin⟩

theorem RoundDone.agrees (hb : StoreOk b.store) (h : RoundDone w limit b b')
    (hagrees : Agrees w stuck b.store) : Agrees w stuck b'.store := by
  intro id p k hrow hp hkey
  obtain ⟨a, ha, hpending, hsame, hstuck, -⟩ := h.pending_before hb hrow hp
  rw [hsame] at hkey
  rw [hstuck]
  exact hagrees id a k ha hpending hkey

theorem RoundDone.dated (hb : RoundStart limit b) (h : RoundDone w limit b b') :
    DatedBacklog b'.store := by
  intro p hp
  obtain ⟨hrow, hpending⟩ := (mem_pendingAtoms h.store.keyed).mp hp
  obtain ⟨a, ha, hbefore, hsame, -⟩ := h.pending_before hb.store hrow hpending
  have hid : a.atomId = p.atomId := hb.store.keyed _ a ha
  rw [hsame]
  exact hb.dated a ((mem_pendingAtoms hb.store.keyed).mpr ⟨by rw [hid]; exact ha, hbefore⟩)

/-- A round advances the backlog. -/
theorem RoundDone.backlog (hb : StoreOk b.store) (h : RoundDone w limit b b')
    (hagrees : Agrees w stuck b.store) : Memory.backlog b'.store =
      advance (min limit listAtomsMax) stuck (Memory.backlog b.store) := by
  have hmem (k : String ×ₗ String) : k ∈ Memory.backlog b'.store ↔
      k ∈ advance (min limit listAtomsMax) stuck (Memory.backlog b.store) := by
    rw [mem_backlog h.store.keyed, mem_advance (backlog_nodup hb.keyed), mem_backlog hb.keyed]
    constructor
    · rintro ⟨p, hrow, hp, hkey⟩
      obtain ⟨a, ha, hpending, hsame, -, hwindow⟩ := h.pending_before hb hrow hp
      rw [hsame] at hkey
      refine ⟨⟨a, ha, hpending, hkey⟩, ?_⟩
      intro htake
      rw [hagrees _ a k ha hpending hkey]
      exact hwindow ((key_in_window hb.keyed ha hkey).mpr htake)
    · rintro ⟨⟨a, ha, hpending, hkey⟩, htake⟩
      by_cases hin : k.2 ∈ scanWindow limit b.store
      · have hstuck : isStuck w a = true := by
          rw [← hagrees _ a k ha hpending hkey]
          exact htake ((key_in_window hb.keyed ha hkey).mp hin)
        obtain ⟨p, hrow, houtcome⟩ := h.passed _ hin a ha
        obtain ⟨hp, -, hsame⟩ := houtcome.stuck hstuck
        exact ⟨p, hrow, hp, hsame.trans hkey⟩
      · exact ⟨a, (h.others _ hin).trans ha, hpending, hkey⟩
  have hsub := @advance_sublist _ (min limit listAtomsMax) stuck (Memory.backlog b.store)
  refine @List.Perm.eq_of_pairwise _ (fun k l => l < k) _ _ ?_ (backlog_pairwise h.store.keyed)
    ((backlog_pairwise hb.keyed).sublist hsub) ?_
  · exact fun k l _ _ hkl hlk => absurd hkl (lt_asymm hlk)
  · exact (List.perm_ext_iff_of_nodup (backlog_nodup h.store.keyed)
      ((backlog_nodup hb.keyed).sublist hsub)).mpr hmem

theorem RoundDone.start (hb : RoundStart limit b) (h : RoundDone w limit b b')
    (hagrees : Agrees w stuck b.store) : RoundStart limit b' := by
  have hadvance := h.backlog hb.store hagrees
  obtain ⟨ids, hlined, hnodup, hids⟩ := h.queue
  refine ⟨h.store, h.dated hb, ⟨ids, hlined, hnodup, ?_⟩, ?_⟩
  · intro i hi
    obtain ⟨hin, c, hc, hstuck⟩ := hids i hi
    obtain ⟨k, a, htake, rfl, ha, hpending, hkey⟩ := (mem_scanWindow hb.store.keyed).mp hin
    rw [hc] at ha
    cases ha
    rw [scanWindow, hadvance]
    apply List.mem_map_of_mem
    apply mem_next_window htake
    rw [hagrees _ c k hc hpending hkey]
    exact hstuck
  · refine Nat.le_trans ?_ (Nat.le_trans hb.room (Nat.le_of_eq h.maxsize.symm))
    have hshort := (@advance_sublist _ (min limit listAtomsMax) stuck
      (Memory.backlog b.store)).length_le
    rw [scanWindow, scanWindow, hadvance, List.length_map, List.length_map, List.length_take,
      List.length_take]
    omega

end Steps

section Rounds

variable [PyCoerce] {w : Encoding} {maxAttempts : Int} {limit : Nat} {b : Backstop}
  {stuck : String ×ₗ String → Bool}

theorem rounds_start (n : Nat) (hb : RoundStart limit b) (hagrees : Agrees w stuck b.store) :
    RoundStart limit ((round w maxAttempts limit)^[n] b) ∧
      backlog ((round w maxAttempts limit)^[n] b).store =
        (advance (min limit listAtomsMax) stuck)^[n] (backlog b.store) := by
  induction n generalizing b with
  | zero => exact ⟨hb, rfl⟩
  | succ n ih =>
    have hdone : RoundDone w limit b (round w maxAttempts limit b) := round_done hb
    obtain ⟨hstart, hbacklog⟩ := ih (hdone.start hb hagrees) (hdone.agrees hb.store hagrees)
    rw [Function.iterate_succ_apply, Function.iterate_succ_apply]
    refine ⟨hstart, ?_⟩
    rw [hbacklog, hdone.backlog hb.store hagrees]

/-- Rows that are not pending stay. -/
theorem rounds_keep (n : Nat) (hb : RoundStart limit b) (hagrees : Agrees w stuck b.store)
    {id : String} {a : Atom} (ha : b.store.getAtom id = some a)
    (hdone : a.embeddingStatus ≠ "pending") :
    ((round w maxAttempts limit)^[n] b).store.getAtom id = some a := by
  induction n generalizing b with
  | zero => exact ha
  | succ n ih =>
    have hround : RoundDone w limit b (round w maxAttempts limit b) := round_done hb
    rw [Function.iterate_succ_apply]
    apply ih (hround.start hb hagrees) (hround.agrees hb.store hagrees)
    rw [hround.others id ?_]
    · exact ha
    · intro hin
      obtain ⟨k, c, -, -, hc, hpending, -⟩ := (mem_scanWindow hb.store.keyed).mp hin
      rw [ha] at hc
      cases hc
      exact hdone hpending

/-- A row that was pending still is, or was not stuck and has the status its encode gives. -/
theorem rounds_row (n : Nat) (hb : RoundStart limit b) (hagrees : Agrees w stuck b.store)
    {id : String} {a : Atom} (ha : b.store.getAtom id = some a)
    (hpending : a.embeddingStatus = "pending") :
    ∃ p, ((round w maxAttempts limit)^[n] b).store.getAtom id = some p ∧
      (p.embeddingStatus = "pending" ∧ startKey p = startKey a ∨
        isStuck w a = false ∧ p.embeddingStatus = if encodes w a then "ready" else "skipped") := by
  induction n generalizing b a with
  | zero => exact ⟨a, ha, .inl ⟨hpending, rfl⟩⟩
  | succ n ih =>
    have hround : RoundDone w limit b (round w maxAttempts limit b) := round_done hb
    have hstart := hround.start hb hagrees
    have hnext := hround.agrees hb.store hagrees
    rw [Function.iterate_succ_apply]
    by_cases hin : id ∈ scanWindow limit b.store
    · obtain ⟨p, hp, houtcome⟩ := hround.passed id hin a ha
      cases hstuck : isStuck w a with
      | true =>
        obtain ⟨hstays, hpstuck, hkey⟩ := houtcome.stuck hstuck
        obtain ⟨q, hq, ⟨hqpending, hqkey⟩ | ⟨hfree, -⟩⟩ := ih hstart hnext hp hstays
        · exact ⟨q, hq, .inl ⟨hqpending, hqkey.trans hkey⟩⟩
        · rw [hpstuck] at hfree
          cases hfree
      | false =>
        have hsettled := houtcome.settled hstuck
        have hdone : p.embeddingStatus ≠ "pending" := by
          rw [hsettled]
          cases encodes w a <;> decide
        exact ⟨p, rounds_keep n hstart hnext hp hdone, .inr ⟨rfl, hsettled⟩⟩
    · have hsame := (hround.others id hin).trans ha
      exact ih hstart hnext hsame hpending

/-- The row is ready in the end exactly where it encodes, is not stuck and left the backlog. -/
theorem becomes_ready_iff (n : Nat) (hb : RoundStart limit b) (hagrees : Agrees w stuck b.store)
    {a : Atom} {k : String ×ₗ String} (ha : b.store.getAtom a.atomId = some a)
    (hpending : a.embeddingStatus = "pending") (hkey : startKey a = .ok k) :
    (∃ p, ((round w maxAttempts limit)^[n] b).store.getAtom a.atomId = some p ∧
        p.embeddingStatus = "ready") ↔
      isStuck w a = false ∧ encodes w a = true ∧
        k ∉ (advance (min limit listAtomsMax) stuck)^[n] (backlog b.store) := by
  obtain ⟨hend, hbacklog⟩ := @rounds_start _ w maxAttempts limit b stuck n hb hagrees
  obtain ⟨p, hp, hstatus⟩ := @rounds_row _ w maxAttempts limit b stuck n hb hagrees _ a ha hpending
  rw [← hbacklog, mem_backlog hend.store.keyed, startKey_id hkey, hp]
  constructor
  · rintro ⟨q, hq, hready⟩
    cases hq
    obtain ⟨hstill, -⟩ | ⟨hfree, hsettled⟩ := hstatus
    · rw [hstill] at hready
      exact absurd hready (by decide)
    · refine ⟨hfree, ?_, ?_⟩
      · cases hencodes : encodes w a with
        | true => rfl
        | false =>
          rw [hencodes, hready] at hsettled
          exact absurd hsettled (by decide)
      · rintro ⟨q, hq, hstill, -⟩
        cases hq
        rw [hready] at hstill
        exact absurd hstill (by decide)
  · rintro ⟨-, hencodes, hleft⟩
    refine ⟨p, rfl, ?_⟩
    obtain ⟨hstill, hsame⟩ | ⟨-, hsettled⟩ := hstatus
    · exact absurd ⟨p, rfl, hstill, hsame.trans hkey⟩ hleft
    · rw [hsettled, hencodes]
      rfl

end Rounds

section Newer

variable [PyCoerce]

/-- The listing puts the first row before the second. -/
def listsBefore (c a : Atom) : Bool :=
  match startKey c, startKey a with
  | .ok k, .ok l => decide (l < k)
  | _, _ => false

/-- The stuck rows that a listing puts before the row. -/
def stuckNewer (w : Encoding) (s : JsonlMemoryStore) (a : Atom) : Nat :=
  (pendingAtoms s).countP fun c => isStuck w c && listsBefore c a

/-- The rounds make the row ready. -/
def Served (w : Encoding) (limit : Nat) (s : JsonlMemoryStore) (a : Atom) : Prop :=
  DatedBacklog s ∧ encodes w a = true ∧ readable a = true ∧
    stuckNewer w s a < min limit listAtomsMax

/-- Whether the row under a key is stuck. -/
def stuckKey (w : Encoding) (s : JsonlMemoryStore) (k : String ×ₗ String) : Bool :=
  (s.getAtom k.2).any (isStuck w)

variable {w : Encoding} {maxAttempts maxsize : Int} {limit : Nat} {s : JsonlMemoryStore} {a : Atom}

theorem agrees_stuckKey (hs : Keyed s) : Agrees w (stuckKey w s) s := by
  intro id c k hrow _ hkey
  have hid : k.2 = id := (startKey_id hkey).trans (hs id c hrow)
  rw [stuckKey, hid, hrow]
  rfl

/-- The rows newer than one are those before its key in the backlog. -/
theorem stuckNewer_eq (hs : Keyed s) (hdated : DatedBacklog s) {k : String ×ₗ String}
    (hkey : startKey a = .ok k) {before behind : List (String ×ₗ String)}
    (hsplit : backlog s = before ++ k :: behind) :
    before.countP (stuckKey w s) = stuckNewer w s a := by
  have hsorted := backlog_pairwise hs
  rw [hsplit] at hsorted
  obtain ⟨-, htail, hacross⟩ := List.pairwise_append.mp hsorted
  have hbefore : before.countP (stuckKey w s) =
      (backlog s).countP fun l => stuckKey w s l && decide (k < l) := by
    have hnone : (k :: behind).countP (fun l => stuckKey w s l && decide (k < l)) = 0 := by
      rw [List.countP_eq_zero]
      intro l hl hflag
      simp only [Bool.and_eq_true, decide_eq_true_eq] at hflag
      obtain rfl | hl := List.mem_cons.mp hl
      · exact lt_irrefl _ hflag.2
      · exact lt_asymm ((List.pairwise_cons.mp htail).1 l hl) hflag.2
    rw [hsplit, List.countP_append, hnone, Nat.add_zero]
    apply List.countP_congr
    intro l hl
    simp [hacross l hl k List.mem_cons_self]
  rw [hbefore, stuckNewer]
  apply countP_backlog hdated
  intro c hc l hl
  have hrow := ((mem_pendingAtoms hs).mp hc).1
  rw [stuckKey, startKey_id hl, hrow, listsBefore, hl, hkey]
  rfl

/-- Where a start does not parse, rounds change nothing. -/
theorem rounds_undated (hs : ¬DatedBacklog s) (n : Nat) :
    (round w maxAttempts limit)^[n] ⟨s, .new maxsize⟩ = ⟨s, .new maxsize⟩ := by
  apply Function.iterate_fixed
  obtain ⟨e, he⟩ := listAtoms_undated hs (limit : Int)
  rw [round, scanPendingIntoQueue, he]
  rfl

/-- After as many rounds as there are pending rows. -/
theorem pending_row_served (hs : StoreOk s)
    (hfits : min (min limit listAtomsMax) (pendingAtoms s).length ≤
      (EncodeQueue.new maxsize).maxsize) (ha : a ∈ pendingAtoms s) :
    (∃ p, ((round w maxAttempts limit)^[(pendingAtoms s).length] ⟨s, .new maxsize⟩).store.getAtom
        a.atomId = some p ∧ p.embeddingStatus = "ready") ↔ Served w limit s a := by
  obtain ⟨hrow, hpending⟩ := (mem_pendingAtoms hs.keyed).mp ha
  by_cases hdated : DatedBacklog s
  · obtain ⟨k, hkey⟩ := hdated a ha
    have hagrees : Agrees w (stuckKey w s) s := agrees_stuckKey hs.keyed
    rw [becomes_ready_iff _ (start_new hs hdated hfits) hagrees hrow hpending hkey]
    have hmem : k ∈ backlog s := by
      rw [mem_backlog hs.keyed, startKey_id hkey]
      exact ⟨a, hrow, hpending, hkey⟩
    obtain ⟨before, behind, hsplit⟩ := List.append_of_mem hmem
    have hcount := @stuckNewer_eq _ w s a hs.keyed hdated k hkey before behind hsplit
    show _ ∧ _ ∧ k ∉ _^[_] (backlog s) ↔ _
    rw [hsplit]
    constructor
    · rintro ⟨hfree, hencodes, hleft⟩
      refine ⟨hdated, hencodes, ?_, ?_⟩
      · obtain ⟨hembed, -⟩ := Bool.and_eq_true_iff.mp hencodes
        rw [isStuck, hembed, hencodes, Bool.true_and, Bool.true_and] at hfree
        simpa using hfree
      · rw [← hcount]
        by_contra hfull
        exact hleft (starves (Nat.le_of_not_lt hfull) _)
    · rintro ⟨-, hencodes, hreadable, hroom⟩
      have hfree : isStuck w a = false := by
        rw [isStuck, hencodes, hreadable, Bool.and_true, Bool.not_true, Bool.and_false]
      refine ⟨hfree, hencodes, ?_⟩
      apply leaves
      · rw [← hsplit]
        exact backlog_nodup hs.keyed
      · rw [stuckKey, startKey_id hkey, hrow]
        exact hfree
      · rw [hcount]
        exact hroom
      · rw [← length_backlog hdated, hsplit, List.length_append, List.length_cons]
        omega
  · rw [rounds_undated hdated]
    constructor
    · rintro ⟨p, hp, hready⟩
      rw [hrow] at hp
      cases hp
      rw [hpending] at hready
      exact absurd hready (by decide)
    · exact fun h => absurd h.1 hdated

/-- With room for the window in the queue, the backstop reaches every pending row with text exactly
where each of them is served. -/
theorem backstop_reaches_iff (hs : StoreOk s)
    (hfits : min (min limit listAtomsMax) (pendingAtoms s).length ≤
      (EncodeQueue.new maxsize).maxsize) :
    (∀ a ∈ pendingAtoms s, a.contentText ≠ "" →
      ∃ p, ((round w maxAttempts limit)^[(pendingAtoms s).length] ⟨s, .new maxsize⟩).store.getAtom
        a.atomId = some p ∧ p.embeddingStatus = "ready") ↔
      ∀ a ∈ pendingAtoms s, a.contentText ≠ "" → Served w limit s a := by
  constructor
  · intro h a ha htext
    exact (pending_row_served hs hfits ha).mp (h a ha htext)
  · intro h a ha htext
    exact (pending_row_served hs hfits ha).mpr (h a ha htext)

end Newer

section Sample

attribute [local instance] basicCoerce

/-- An embedder that finds no media. -/
def textEncoding : Encoding := ⟨fun _ => false, fun _ => [], fun _ => ⟨"", ["text"]⟩⟩

/-- A row with text and, listed before it, one with a picture. -/
def twoPending : JsonlMemoryStore :=
  let text : Atom := { atomId := "a", tStart := isoZ firstInstant, kind := "observation",
                       contentText := "hello", embeddingStatus := "pending" }
  let picture : Atom := { atomId := "b", tStart := isoZ firstInstant, kind := "observation",
                          mediaIds := ["att"], embeddingStatus := "pending" }
  ⟨defaultMemorySettings, .ofList [("a", text), ("b", picture)], .empty, ⟨[], .empty⟩⟩

theorem storeOk_twoPending : StoreOk twoPending := by
  have hrows : ∀ e ∈ twoPending.byId.items, e.2.atomId = e.1 ∧
      (prepareForPut twoPending.settings e.2).toOption.isSome = true := by
    decide +kernel
  constructor
  · intro id a ha
    exact (hrows (id, a) ((Dict.get?_eq_some_iff _ id a).mp ha)).1
  · intro id a ha
    have hsome := (hrows (id, a) ((Dict.get?_eq_some_iff _ id a).mp ha)).2
    cases hp : prepareForPut twoPending.settings a with
    | ok p => exact ⟨p, hp⟩
    | error e =>
      rw [hp] at hsome
      cases hsome

theorem backstop_reaches_iff_sample :
    (∀ a ∈ pendingAtoms twoPending, a.contentText ≠ "" →
      ∃ p, ((round textEncoding 3 2)^[(pendingAtoms twoPending).length]
        ⟨twoPending, .new 1024⟩).store.getAtom a.atomId = some p ∧ p.embeddingStatus = "ready") ↔
      ∀ a ∈ pendingAtoms twoPending, a.contentText ≠ "" → Served textEncoding 2 twoPending a :=
  backstop_reaches_iff storeOk_twoPending (by decide +kernel)

/-- With a limit of one the picture that does not resolve keeps the text out of the window. -/
theorem stuck_row_starves_text :
    ¬ ∀ (_ : PyCoerce) (w : Encoding) (maxAttempts maxsize : Int) (limit : Nat)
      (s : JsonlMemoryStore), 1 ≤ limit → StoreOk s → ∀ a ∈ pendingAtoms s, a.contentText ≠ "" →
      ∃ p, ((round w maxAttempts limit)^[(pendingAtoms s).length] ⟨s, .new maxsize⟩).store.getAtom
        a.atomId = some p ∧ p.embeddingStatus = "ready" := by
  intro h
  have hrows : ∃ a ∈ pendingAtoms twoPending, a.contentText ≠ "" ∧
      ((((round textEncoding 3 1)^[(pendingAtoms twoPending).length]
        ⟨twoPending, .new 1024⟩).store.getAtom a.atomId).map Atom.embeddingStatus) =
          some "pending" := by
    decide +kernel
  obtain ⟨a, ha, htext, hstill⟩ := hrows
  obtain ⟨p, hp, hready⟩ := h basicCoerce textEncoding 3 1024 1 twoPending (by decide)
    storeOk_twoPending a ha htext
  rw [hp, Option.map_some, hready] at hstill
  exact absurd hstill (by decide)

end Sample
end Elyra.Memory
