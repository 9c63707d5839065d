import Elyra.Presence.Priority

namespace Elyra.Presence

open Json

/-- The two queues say the same of one wake. -/
structure SameWake (q p : WakeQueue) (id : String) : Prop where
  item : p.items.get? id = q.items.get? id
  op : p.ops.get? id = q.ops.get? id
  momentId : p.moments.get? id = q.moments.get? id
  reason : p.reasons.get? id = q.reasons.get? id
  pending : p.pendingIds.get? id = q.pendingIds.get? id

section Durable

variable [PyCoerce]

/-- The call returned. -/
def Returns (env : Env) (w : World) (c : Call) : Prop := ∃ w', exec env c w = .ok () w'

/-- Between two worlds an event of the wake was appended. -/
def Acted (w w' : World) (id : String) : Prop :=
  ∃ new, w'.log = w.log ++ eventBytes new ∧ ∃ e ∈ new, e.wakeId = id

/-- Some call of the run acted on the wake. -/
def Acknowledged (env : Env) (w : World) (calls : List Call) (id : String) : Prop :=
  ∃ before c rest, calls = before ++ c :: rest ∧
    Acted (run (stepCall env) w before) (run (stepCall env) w (before ++ [c])) id

/-- A queue opens on the log, and after any calls that all return, opening the log again shows
every wake they acted on as the queue has it. -/
def Durable (log : ByteArray) : Prop :=
  ∃ q, openQueue log = .ok q ∧ ∀ env faults calls,
    Along (stepCall env) (Returns env) (World.opened log faults q) calls →
    ∃ p, openQueue (run (stepCall env) (World.opened log faults q) calls).log = .ok p ∧
      ∀ id, Acknowledged env (World.opened log faults q) calls id →
        SameWake (run (stepCall env) (World.opened log faults q) calls).queue p id

omit [PyCoerce] in
theorem sameWake_of_agree {q p : WakeQueue} (h : Agree q p) (id : String) : SameWake q p id :=
  ⟨(h.items id).symm, (h.ops id).symm, (h.moments id).symm, (h.reasons id).symm,
    (h.pendingIds id).symm⟩

/-- A log of whole rows is durable. -/
theorem durable_eventBytes (events : List WakeEvent) : Durable (eventBytes events) := by
  obtain ⟨q, hopen, hq, hfull⟩ := openQueue_eventBytes events
  refine ⟨q, hopen, ?_⟩
  intro env faults calls hreturns
  have hsucceed := @Along.mono _ _ (stepCall env) (Returns env) (AppendsSucceed env)
    (by
      rintro w c ⟨w', hw⟩
      rw [AppendsSucceed, hw]
      rfl) (World.opened (eventBytes events) faults q) calls hreturns
  obtain ⟨after, hs, hf⟩ := run_inSync env calls _ hsucceed ⟨events, ⟨rfl, hq⟩, hfull⟩
  obtain ⟨p, hp, hps, hpf⟩ := openQueue_eventBytes after
  rw [← hs.log] at hp
  refine ⟨p, hp, ?_⟩
  intro id _
  exact sameWake_of_agree (agree_of_sound hs.sound hf hps hpf) id

omit [PyCoerce] in
theorem exists_fresh (ids : List String) : ∃ id, id ≠ "" ∧ id ∉ ids := by
  obtain ⟨n, hn⟩ : ∃ n, ∀ id ∈ ids, id.length < n := by
    induction ids with
    | nil => exact ⟨0, by simp⟩
    | cons id ids ih =>
      obtain ⟨n, hn⟩ := ih
      refine ⟨max n (id.length + 1), ?_⟩
      intro x hx
      rcases List.mem_cons.mp hx with rfl | hx
      · omega
      · have hlt := hn x hx
        omega
  have hlen : (String.ofList (List.replicate (n + 1) 'x')).length = n + 1 := by simp
  refine ⟨String.ofList (List.replicate (n + 1) 'x'), ?_, ?_⟩
  · intro he
    rw [he] at hlen
    simp at hlen
  · intro hm
    have hlt := hn _ hm
    omega

omit [PyCoerce] in
/-- An event row starts with its time stamp. -/
theorem dumps_row (e : WakeEvent) :
    ∃ rest, dumps (.obj e.row) = '{' :: '"' :: 't' :: rest := by
  obtain ⟨ts, kvs, hrow⟩ : ∃ ts kvs, e.row = ("ts", .str ts) :: kvs := by
    cases e with
    | enqueue ts item | claimed ts wakeId momentId | done ts wakeId
    | cancelled ts wakeId reason => exact ⟨ts, _, rfl⟩
  have hts : printStr "ts" = ['"', 't', 's', '"'] := by decide
  rw [hrow, dumps, print, hts]
  exact ⟨_, rfl⟩

omit [PyCoerce] in
/-- An enqueue under an unused id returns and is appended. -/
theorem enqueue_fresh (env : Env) (id : String) (w : World) (hid : id ≠ "")
    (hnew : w.queue.ops.get? id = none) (hf : w.faults = []) :
    ∃ ts item n, item.id = id ∧ enqueue env "user_message" .empty (some id) none w =
      .ok item ⟨w.log ++ eventBytes [.enqueue ts item], [], n, w.queue.putEnqueued item⟩ := by
  have hk : WakeKind.ofText "user_message" = some .userMessage := by decide
  have hitem : (newItem env .userMessage .empty (some id) none w.draws).1.id = id := by
    simp [newItem, chosen, hid]
  rw [enqueue_eq env _ _ hk]
  generalize newItem env .userMessage .empty (some id) none w.draws = built at hitem ⊢
  obtain ⟨item, ts, n⟩ := built
  refine ⟨ts, item, n, hitem, ?_⟩
  change item.id = id at hitem
  simp only [hitem, hnew, hf]
  rfl

/-- Behind a torn row the next acknowledged enqueue is lost. -/
theorem not_durable_torn (events : List WakeEvent) (e : WakeEvent) (p r : List Char)
    (hcut : dumps (.obj e.row) = p ++ r) (hp : p ≠ []) :
    ¬ Durable (eventBytes events ++ p.utf8Encode) := by
  rintro ⟨q, hopen, hdurable⟩
  obtain ⟨id, hne, hfresh⟩ := exists_fresh (q.ops.keys ++ events.map WakeEvent.wakeId)
  simp only [List.mem_append, not_or] at hfresh
  have hnew : q.ops.get? id = none := (Dict.not_mem_keys _ _).mp hfresh.1
  let w := World.opened (eventBytes events ++ p.utf8Encode) [] q
  obtain ⟨ts, item, n, hid, hrun⟩ := enqueue_fresh countingEnv id w hne hnew rfl
  let c : Call := .enqueue "user_message" .empty (some id) none
  let w' : World := ⟨w.log ++ eventBytes [.enqueue ts item], [], n, q.putEnqueued item⟩
  have hexec : exec countingEnv c w = .ok () w' := by
    simp only [exec, c, run_bind, hrun]
    rfl
  have hstep : stepCall countingEnv w c = w' := by
    rw [stepCall, hexec]
    rfl
  obtain ⟨p', hreopen, hsame⟩ := hdurable countingEnv [] [c] ⟨⟨w', hexec⟩, trivial⟩
  change openQueue (stepCall countingEnv w c).log = .ok p' at hreopen
  have hack : Acknowledged countingEnv w [c] id := by
    refine ⟨[], c, [], rfl, [.enqueue ts item], ?_, .enqueue ts item, by simp, hid⟩
    change (stepCall countingEnv w c).log = _
    rw [hstep]
    rfl
  have hitem := (hsame id hack).item
  change p'.items.get? id = (stepCall countingEnv w c).queue.items.get? id at hitem
  rw [hstep] at hreopen hitem
  have hlive : (q.putEnqueued item).items.get? id = some item := by
    rw [← hid]
    exact Dict.get?_set_self _ _ _
  change p'.items.get? id = (q.putEnqueued item).items.get? id at hitem
  rw [hlive] at hitem
  have hread : readEvents w'.log = .ok (events.map (fun e => .obj e.row)) := by
    obtain ⟨rest, hrest⟩ := dumps_row (.enqueue ts item)
    have htorn := loadedRows_torn e.row (WakeEvent.enqueue ts item).row p r rest 't' hcut hp hrest
      (by decide)
    have hlog : w'.log = eventBytes events ++
        (p ++ rowText (WakeEvent.enqueue ts item).row).utf8Encode := by
      change eventBytes events ++ p.utf8Encode ++ eventBytes [.enqueue ts item] = _
      rw [ByteArray.append_assoc, List.utf8Encode_append]
      simp [eventBytes, rowsText]
    rw [hlog, readEvents_eventBytes, htorn, List.append_nil]
  obtain ⟨p'', hopen'', hs, -⟩ := openQueue_eventBytes events
  have hsame' : openQueue w'.log = openQueue (eventBytes events) := by
    have hplain := readEvents_eventBytes events []
    simp only [List.utf8Encode_nil, ByteArray.append_empty, loadedRows_nil, List.append_nil]
      at hplain
    rw [openQueue, openQueue, hread, hplain]
  rw [hsame', hopen''] at hreopen
  cases hreopen
  have hnone : lifeOf events id = none := by
    apply replay_of_not_mem
    intro x hx he
    exact hfresh.2 (he ▸ List.mem_map_of_mem hx)
  rw [hs.items, hnone] at hitem
  cases hitem

omit [PyCoerce] in
theorem rowsText_last (rows : List (List (String × Json))) :
    rowsText rows = [] ∨ (rowsText rows).getLast? = some '\n' := by
  induction rows using List.reverseRecOn with
  | nil => exact Or.inl rfl
  | append_singleton rows kvs =>
    have hlast : rowsText (rows ++ [kvs]) = rowsText rows ++ dumps (.obj kvs) ++ ['\n'] := by
      simp [rowsText, rowText]
    rw [hlast]
    exact Or.inr (by simp)

omit [PyCoerce] in
/-- A log the queue wrote ends in the row of its last event. -/
theorem last_row (events : List WakeEvent) (head line : List Char)
    (hlog : eventBytes events = (head ++ line ++ ['\n']).utf8Encode) (hline : '\n' ∉ line)
    (hhead : head = [] ∨ head.getLast? = some '\n') :
    ∃ before e, events = before ++ [e] ∧ head = rowsText (before.map WakeEvent.row) ∧
      line = dumps (.obj e.row) := by
  have htext : rowsText (events.map WakeEvent.row) = head ++ line ++ ['\n'] :=
    utf8Encode_injective _ _ hlog
  induction events using List.reverseRecOn with
  | nil => simp [rowsText] at htext
  | append_singleton before e =>
    have hsplit : rowsText ((before ++ [e]).map WakeEvent.row) =
        rowsText (before.map WakeEvent.row) ++ dumps (.obj e.row) ++ ['\n'] := by
      simp [rowsText, rowText]
    rw [hsplit] at htext
    have hbody := List.append_cancel_right htext
    have hcontrol : NoControl (dumps (.obj e.row)) := noControl_print (.obj e.row) 0
    obtain ⟨h₁, h₂⟩ := last_line_unique _ _ _ _ hbody hcontrol.not_newline hline
      (rowsText_last _) hhead
    exact ⟨before, e, rfl, h₁.symm, h₂.symm⟩

/-- A log the queue wrote, cut inside its last line, is durable exactly when the cut keeps
nothing of that line. -/
theorem torn_append_durable_iff (env : Env) (faults : List Bool) (calls : List Call)
    (head line : List Char)
    (hlog : (run (stepCall env) (World.start faults) calls).log =
      (head ++ line ++ ['\n']).utf8Encode)
    (hline : '\n' ∉ line) (hhead : head = [] ∨ head.getLast? = some '\n') (k : Nat)
    (hk : k < (line ++ ['\n']).utf8Encode.size) :
    Durable (head.utf8Encode ++ (line ++ ['\n']).utf8Encode.extract 0 k) ↔ k = 0 := by
  obtain ⟨events, hs⟩ := run_synced env faults calls
  rw [hs.log] at hlog
  obtain ⟨before, e, -, rfl, rfl⟩ := last_row events head line hlog hline hhead
  change Durable (eventBytes before ++ _) ↔ _
  constructor
  · intro hd
    by_contra hpos
    have hopen : ∃ q, openQueue (eventBytes before ++
        (dumps (.obj e.row) ++ ['\n']).utf8Encode.extract 0 k) = .ok q := by
      obtain ⟨q, hq, -⟩ := hd
      exact ⟨q, hq⟩
    obtain ⟨q, hq⟩ := hopen
    cases hdec : decodeUtf8 ((dumps (.obj e.row) ++ ['\n']).utf8Encode.extract 0 k) with
    | none =>
      have hread : readEvents (eventBytes before ++
          (dumps (.obj e.row) ++ ['\n']).utf8Encode.extract 0 k) = .error .unicodeDecodeError := by
        rw [readEvents, eventBytes, encodeUtf8_eq, decodeUtf8_utf8Encode_append, hdec]
        rfl
      rw [openQueue, hread] at hq
      cases hq
    | some p =>
      obtain ⟨r, hcut, hr, hzero⟩ := decodeUtf8_cut _ k hk p hdec
      have hp : p ≠ [] := fun hnil => hpos (hzero.mpr hnil)
      obtain ⟨r', rfl⟩ : ∃ r', r = r' ++ ['\n'] := by
        have hlast := congrArg List.getLast? hcut
        rw [List.getLast?_append_of_ne_nil _ hr, List.getLast?_append_of_ne_nil _ (by simp)] at hlast
        exact List.getLast?_eq_some_iff.mp hlast.symm
      have hrow : dumps (.obj e.row) = p ++ r' := by
        rw [← List.append_assoc] at hcut
        exact List.append_cancel_right hcut
      rw [utf8Encode_of_decodeUtf8 _ p hdec] at hd
      exact not_durable_torn before e p r' hrow hp hd
  · rintro rfl
    rw [ByteArray.extract_same, ByteArray.append_empty]
    exact durable_eventBytes before

end Durable

section Sample

attribute [local instance] basicCoerce

def firstUser : Call := .enqueue "user_message" .empty (some "w1") none

def firstEvent : WakeEvent :=
  .enqueue (countingEnv.nowIso 1) ⟨"w1", .userMessage, 0, countingEnv.nowIso 0, .empty, rfl⟩

theorem log_firstUser :
    (run (stepCall countingEnv) (World.start []) [firstUser]).log = eventBytes [firstEvent] := by
  have hempty : (ByteArray.empty ++ eventBytes [firstEvent]) = eventBytes [firstEvent] :=
    ByteArray.empty_append
  rw [← hempty]
  rfl

/-- The log of one enqueue, cut to its first 40 characters: a queue that opens on it loses the
next acknowledged wake. -/
theorem torn_append_loses_wake :
    (run (stepCall countingEnv) (World.start []) [firstUser]).log = eventBytes [firstEvent] ∧
      ¬ Durable (encodeUtf8 ((dumps (.obj firstEvent.row)).take 40)) := by
  refine ⟨log_firstUser, ?_⟩
  have htorn : encodeUtf8 ((dumps (.obj firstEvent.row)).take 40) =
      eventBytes [] ++ ((dumps (.obj firstEvent.row)).take 40).utf8Encode := by
    rw [eventBytes_nil, ByteArray.empty_append, encodeUtf8_eq]
  rw [htorn]
  apply not_durable_torn [] firstEvent _ _ (List.take_append_drop 40 _).symm
  obtain ⟨rest, hrest⟩ := dumps_row firstEvent
  rw [hrest]
  simp

/-- A cut at the end of the last whole line is durable. -/
theorem torn_append_durable_iff_whole :
    Durable ([].utf8Encode ++ (dumps (.obj firstEvent.row) ++ ['\n']).utf8Encode.extract 0 0) := by
  have hcontrol : NoControl (dumps (.obj firstEvent.row)) := noControl_print _ 0
  have hlog : (run (stepCall countingEnv) (World.start []) [firstUser]).log =
      ([] ++ dumps (.obj firstEvent.row) ++ ['\n']).utf8Encode := by
    rw [log_firstUser, eventBytes, encodeUtf8_eq]
    simp [rowsText, rowText]
  have hsize : 0 < (dumps (.obj firstEvent.row) ++ ['\n']).utf8Encode.size := by
    rw [List.utf8Encode_append, ByteArray.size_append]
    exact Nat.add_pos_right _ (by decide)
  exact (torn_append_durable_iff countingEnv [] [firstUser] [] _ hlog hcontrol.not_newline
    (Or.inl rfl) 0 hsize).mpr rfl

end Sample

def Call.isClaim : Call → Bool
  | .claim _ => true
  | _ => false

/-- The operations that append one event. -/
def Call.single : Call → Bool
  | .enqueue _ _ _ _ | .claim _ | .markDone _ | .cancel _ _ => true
  | .recoverClaimed | .cancelAllPendingOfKind _ _ | .enqueueTaskReady _ _ _ | .resetEmpty
  | .reload => false

/-- What a caller can see of a queue, with the wake the next successful claim returns. -/
structure Indistinguishable (q p : WakeQueue) : Prop where
  pending : p.pending = q.pending
  peek : p.peek = q.peek
  claimed : p.claimed = q.claimed
  status : ∀ id, p.status id = q.status id
  nextClaim : p.popPending.1 = q.popPending.1

theorem indistinguishable_refl (q : WakeQueue) : Indistinguishable q q :=
  ⟨rfl, rfl, rfl, fun _ => rfl, rfl⟩

/-- The wake a claim takes off the heap is no longer pending. -/
theorem popped_not_pending {q : WakeQueue} {lives : String → Option Life} (h : Sound q lives)
    (item : WakeItem) (popped : WakeQueue) (hpop : q.popPending = (some item, popped)) :
    item ∈ q.pending ∧ item ∉ popped.pending := by
  have hp := popPending_popped h
  have hs : Sound popped lives := by
    have hsound := sound_popped h q.popPending hp
    rw [hpop] at hsound
    exact hsound
  rw [hpop] at hp
  rw [mem_pending h, mem_pending hs]
  cases hp with
  | some skipped k rest _ split stale pending found same =>
    rw [same]
    refine ⟨⟨pending, found⟩, ?_⟩
    rintro ⟨hkept, -⟩
    simp only [Dict.get?_pop, if_true] at hkept
    cases hkept

section Claim

variable (env : Env)

/-- Only a claim has touched memory when its append raises. -/
theorem queue_of_failed_append [PyCoerce] (c : Call) (hc : c.single = true) (w w' : World)
    (hfail : exec env c w = .error .osError w') :
    (c.isClaim = false ∧ w'.queue = w.queue) ∨
      c.isClaim = true ∧ ∃ item, w.queue.popPending = (some item, w'.queue) := by
  have finished (wakeId : String) (op : WakeOp) (reason : Option String)
      (event : String → WakeEvent)
      (h : finishWake env wakeId op reason event w = .error .osError w') : w'.queue = w.queue := by
    rw [finishWake_eq] at h
    cases hop : w.queue.ops.get? wakeId with
    | none =>
      rw [hop] at h
      cases h
    | some current =>
      rw [hop] at h
      simp only [] at h
      split_ifs at h
      cases h
      rfl
  cases c with
  | enqueue kind payload wakeId createdAt =>
    refine Or.inl ⟨rfl, ?_⟩
    have h := error_of_discard hfail
    cases hk : WakeKind.ofText kind with
    | none =>
      rw [enqueue_unknown env kind hk] at h
      cases h
    | some k =>
      rw [enqueue_eq env kind k hk] at h
      generalize newItem env k payload wakeId createdAt w.draws = built at h
      obtain ⟨item, ts, n⟩ := built
      simp only [] at h
      cases hlive : isLive (w.queue.ops.get? item.id) with
      | some existing =>
        rw [hlive] at h
        cases h
      | none =>
        rw [hlive] at h
        simp only [] at h
        split_ifs at h
        cases h
        rfl
  | claim momentId =>
    refine Or.inr ⟨rfl, ?_⟩
    have h := error_of_discard hfail
    have hm : momentId ≠ "" := by
      rintro rfl
      cases h
    rw [claim_eq env momentId hm] at h
    generalize w.queue.popPending = r at h
    obtain ⟨item, popped⟩ := r
    cases item with
    | none => cases h
    | some item =>
      simp only [] at h
      split_ifs at h
      cases h
      exact ⟨item, rfl⟩
  | markDone wakeId => exact Or.inl ⟨rfl, finished wakeId _ _ _ hfail⟩
  | cancel wakeId reason => exact Or.inl ⟨rfl, finished wakeId _ _ _ hfail⟩
  | recoverClaimed | cancelAllPendingOfKind kind reason | enqueueTaskReady taskId goalId payload
  | resetEmpty | reload => cases hc

/-- After any calls, an operation whose append raises leaves the queue as it was to every
observer, unless it is a claim; a claim never does. -/
theorem failed_append_unchanged_iff [PyCoerce] (log : ByteArray) (faults : List Bool)
    (q : WakeQueue) (hopen : openQueue log = .ok q) (calls : List Call) (c : Call)
    (hc : c.single = true) (w' : World)
    (hfail : exec env c (run (stepCall env) (World.opened log faults q) calls) =
      .error .osError w') :
    Indistinguishable (run (stepCall env) (World.opened log faults q) calls).queue w'.queue ↔
      c.isClaim = false := by
  obtain ⟨lives, hq, -⟩ := sound_openQueue log q hopen
  obtain ⟨lives', h⟩ := run_sound env calls (World.opened log faults q) ⟨lives, hq⟩
  rcases queue_of_failed_append env c hc _ w' hfail with ⟨hclaim, hsame⟩ | ⟨hclaim, item, hpop⟩
  · refine ⟨fun _ => hclaim, fun _ => ?_⟩
    rw [hsame]
    exact indistinguishable_refl _
  · obtain ⟨hbefore, hafter⟩ := popped_not_pending h item w'.queue hpop
    constructor
    · intro hind
      rw [hind.pending] at hafter
      exact absurd hbefore hafter
    · intro hno
      rw [hclaim] at hno
      cases hno

end Claim

section Sample

attribute [local instance] basicCoerce

def oneTimer : List Call := [.enqueue "timer" .empty (some "w1") none]

/-- A disk error during a claim: the wake is still in enqueue state and no longer pending. -/
theorem failed_claim_loses_wake :
    let w := run (stepCall countingEnv) (World.start [false, true]) oneTimer
    let w' := stepCall countingEnv w (.claim "m1")
    clean isOsError (exec countingEnv (.claim "m1") w) = false ∧
      w'.queue.status "w1" = some .enqueue ∧ w.queue.pending.length = 1 ∧
      w'.queue.pending = [] ∧ ¬ Indistinguishable w.queue w'.queue := by
  have hbefore : (run (stepCall countingEnv) (World.start [false, true]) oneTimer).queue.pending.length
      = 1 := by decide +kernel
  have hafter : (stepCall countingEnv (run (stepCall countingEnv) (World.start [false, true])
      oneTimer) (.claim "m1")).queue.pending = [] := by decide +kernel
  refine ⟨by decide +kernel, by decide +kernel, hbefore, hafter, ?_⟩
  intro hind
  rw [← hind.pending, hafter] at hbefore
  cases hbefore

theorem failed_enqueue_unchanged :
    ∃ w' : World, Indistinguishable
      (run (stepCall countingEnv) (World.opened ByteArray.empty [false, true] .empty)
        oneTimer).queue w'.queue :=
  ⟨_, (failed_append_unchanged_iff countingEnv ByteArray.empty [false, true] .empty
    (by decide +kernel) oneTimer (.cancel "w1" "stop") (by decide) _ rfl).mpr rfl⟩

end Sample
end Elyra.Presence
