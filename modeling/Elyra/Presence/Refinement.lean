import Elyra.Presence.Moves

namespace Elyra.Presence

open Json

theorem eventBytes_append (a b : List WakeEvent) :
    eventBytes (a ++ b) = eventBytes a ++ eventBytes b := by
  simp only [eventBytes, encodeUtf8_eq, List.map_append, rowsText_append, List.utf8Encode_append]

theorem eventBytes_nil : eventBytes [] = ByteArray.empty := by
  simp [eventBytes, rowsText]

theorem record_done {q : WakeQueue} {lives : String → Option Life} (h : Sound q lives)
    (ts id : String) (op : WakeOp) (hop : q.ops.get? id = some op) :
    ∃ l, lives id = some l ∧ l.op = op ∧ record lives (.done ts id) =
      Function.update lives id (some ⟨l.item, .done, l.momentId, none⟩) := by
  rw [h.ops, Option.map_eq_some_iff] at hop
  obtain ⟨l, hl, hlop⟩ := hop
  refine ⟨l, hl, hlop, ?_⟩
  simp only [record, WakeEvent.wakeId, hl, evolve, Option.map_some]

theorem record_cancelled {q : WakeQueue} {lives : String → Option Life} (h : Sound q lives)
    (ts id reason : String) (op : WakeOp) (hop : q.ops.get? id = some op) :
    ∃ l, lives id = some l ∧ l.op = op ∧ record lives (.cancelled ts id reason) =
      Function.update lives id (some ⟨l.item, .cancelled, l.momentId, some reason⟩) := by
  rw [h.ops, Option.map_eq_some_iff] at hop
  obtain ⟨l, hl, hlop⟩ := hop
  refine ⟨l, hl, hlop, ?_⟩
  simp only [record, WakeEvent.wakeId, hl, evolve, Option.map_some]

/-- A step appends at most one event, and memory follows it; a clean step loses no pending
wake. -/
theorem move_records {b : Bool} {w w' : World} (hm : Move b w w') (lives : String → Option Life)
    (h : Sound w.queue lives) : ∃ new, w'.log = w.log ++ eventBytes new ∧
      Sound w'.queue (new.foldl record lives) ∧
      (b = true → Full w.queue lives → Full w'.queue (new.foldl record lives)) := by
  cases hm with
  | quiet log queue =>
    refine ⟨[], by rw [log, eventBytes_nil, ByteArray.append_empty], ?_, ?_⟩
    · rw [queue]
      exact h
    · intro _ hfull
      rw [queue]
      exact hfull
  | enqueued ts item free log queue =>
    refine ⟨[.enqueue ts item], log, ?_, ?_⟩
    · rw [queue]
      exact sound_putEnqueued h ts item
    · intro _ hfull
      rw [queue]
      exact full_putEnqueued hfull ts item
  | claimed ts momentId item popped pop log queue =>
    have hpop := popPending_popped h
    rw [pop] at hpop
    refine ⟨[.claimed ts item.id momentId], log, ?_, ?_⟩
    · rw [queue]
      exact sound_putClaimed h item hpop ts momentId
    · intro _ hfull
      rw [queue]
      exact full_putClaimed hfull item hpop ts momentId
  | done ts id op current live log queue =>
    obtain ⟨l, hl, -, hrec⟩ := record_done h ts id op current
    refine ⟨[.done ts id], log, ?_, ?_⟩
    · rw [queue, List.foldl_cons, List.foldl_nil, hrec]
      exact sound_putTerminal h id .done none l hl
    · intro _ hfull
      rw [queue, List.foldl_cons, List.foldl_nil, hrec]
      exact full_putTerminal hfull id .done none l (by decide)
  | cancelled ts id reason op current live log queue =>
    obtain ⟨l, hl, -, hrec⟩ := record_cancelled h ts id reason op current
    refine ⟨[.cancelled ts id reason], log, ?_, ?_⟩
    · rw [queue, List.foldl_cons, List.foldl_nil, hrec]
      exact sound_putTerminal h id .cancelled (some reason) l hl
    · intro _ hfull
      rw [queue, List.foldl_cons, List.foldl_nil, hrec]
      exact full_putTerminal hfull id .cancelled (some reason) l (by decide)
  | popped nothing log queue =>
    have hpop := popPending_popped h
    refine ⟨[], by rw [log, eventBytes_nil, ByteArray.append_empty], ?_, ?_⟩
    · rw [queue]
      exact sound_popped h _ hpop
    · intro hb hfull
      rw [queue]
      cases hr : w.queue.popPending with
      | mk item popped =>
        have hitem : item = none := by
          have hn := nothing hb
          rw [hr] at hn
          exact hn
        subst hitem
        rw [hr] at hpop
        cases hpop with
        | none hnone heap => exact hfull

theorem moves_record {b : Bool} {w w' : World} (hm : Relation.ReflTransGen (Move b) w w')
    (lives : String → Option Life) (h : Sound w.queue lives) :
    ∃ new, w'.log = w.log ++ eventBytes new ∧ Sound w'.queue (new.foldl record lives) ∧
      (b = true → Full w.queue lives → Full w'.queue (new.foldl record lives)) := by
  induction hm with
  | refl =>
    refine ⟨[], by rw [eventBytes_nil, ByteArray.append_empty], h, ?_⟩
    intro _ hfull
    exact hfull
  | tail hchain hstep ih =>
    obtain ⟨new, hlog, hmid, hfull⟩ := ih
    obtain ⟨more, hlog', hlast, hkeep⟩ := move_records hstep _ hmid
    refine ⟨new ++ more, ?_, ?_, ?_⟩
    · rw [hlog', hlog, eventBytes_append, ByteArray.append_assoc]
    · rw [List.foldl_append]
      exact hlast
    · intro hb hf
      rw [List.foldl_append]
      exact hkeep hb (hfull hb hf)

section Runs

variable [PyCoerce] (env : Env)

/-- Memory stays sound under every call, whatever log the queue was opened on. -/
theorem stepCall_sound (c : Call) (w : World) (h : ∃ lives, Sound w.queue lives) :
    ∃ lives, Sound (stepCall env w c).queue lives := by
  obtain ⟨lives, hs⟩ := h
  rcases stepCall_cases env c w with hchain | ⟨-, heq⟩ | ⟨-, q, hopen, heq⟩
  · obtain ⟨new, -, hs', -⟩ := moves_record hchain lives hs
    exact ⟨_, hs'⟩
  · rw [heq]
    exact ⟨_, sound_empty⟩
  · obtain ⟨lives', hs', -⟩ := sound_openQueue w.log q hopen
    rw [heq]
    exact ⟨lives', hs'⟩

theorem run_sound (calls : List Call) (w : World) (h : ∃ lives, Sound w.queue lives) :
    ∃ lives, Sound (run (stepCall env) w calls).queue lives :=
  run_invariant (fun w : World => ∃ lives, Sound w.queue lives)
    (fun w c hw => stepCall_sound env c w hw) w calls h

/-- The log holds these events and memory is sound for their replay. -/
structure InSync (w : World) (events : List WakeEvent) : Prop where
  log : w.log = eventBytes events
  sound : Sound w.queue (lifeOf events)

omit [PyCoerce] in
theorem inSync_start (faults : List Bool) : InSync (World.start faults) [] := by
  refine ⟨?_, ?_⟩
  · rw [eventBytes_nil]
    rfl
  · have hnil : lifeOf [] = fun _ => none := by
      funext id
      rfl
    rw [hnil]
    exact sound_empty

/-- A call appends to the log, or truncates it; with no raising append every pending wake is in
the pending set. -/
theorem stepCall_inSync (c : Call) (w : World) (events : List WakeEvent) (h : InSync w events) :
    ∃ after, InSync (stepCall env w c) after ∧ (after = [] ∨ ∃ new, after = events ++ new) ∧
      (clean isOsError (exec env c w) = true → Full w.queue (lifeOf events) →
        Full (stepCall env w c).queue (lifeOf after)) := by
  rcases stepCall_cases env c w with hchain | ⟨-, heq⟩ | ⟨-, q, hopen, heq⟩
  · obtain ⟨new, hlog, hs, hf⟩ := moves_record hchain _ h.sound
    rw [← lifeOf_append] at hs hf
    refine ⟨events ++ new, ⟨?_, hs⟩, Or.inr ⟨new, rfl⟩, hf⟩
    rw [hlog, h.log, eventBytes_append]
  · refine ⟨[], ?_, Or.inl rfl, ?_⟩
    · rw [heq]
      exact ⟨(inSync_start []).log, (inSync_start []).sound⟩
    · intro _ _
      rw [heq]
      exact fun id l hl => by cases hl
  · obtain ⟨p, hp, hsound, hfull⟩ := openQueue_eventBytes events
    rw [← h.log, hopen] at hp
    cases hp
    refine ⟨events, ?_, Or.inr ⟨[], (List.append_nil _).symm⟩, ?_⟩
    · rw [heq]
      exact ⟨h.log, hsound⟩
    · intro _ _
      rw [heq]
      exact hfull

/-- After any calls, failing appends included, the log holds the events memory follows. -/
theorem run_synced (faults : List Bool) (calls : List Call) :
    ∃ events, InSync (run (stepCall env) (World.start faults) calls) events := by
  apply run_invariant (fun w : World => ∃ events, InSync w events) _ _ calls
    ⟨[], inSync_start faults⟩
  rintro w c ⟨events, hw⟩
  obtain ⟨after, hafter, -⟩ := stepCall_inSync env c w events hw
  exact ⟨after, hafter⟩

end Runs

/-- The two queues hold the same items, lifecycle states, moment ids, reasons and pending set. -/
structure Agree (q p : WakeQueue) : Prop where
  items : q.items.Same p.items
  ops : q.ops.Same p.ops
  moments : q.moments.Same p.moments
  reasons : q.reasons.Same p.reasons
  pendingIds : q.pendingIds.Same p.pendingIds

theorem pending_iff {q : WakeQueue} {lives : String → Option Life} (hs : Sound q lives)
    (hf : Full q lives) (id : String) :
    q.pendingIds.get? id = some () ↔ ∃ l, lives id = some l ∧ l.op = .enqueue := by
  constructor
  · exact hs.pendingOp id
  · rintro ⟨l, hl, hop⟩
    exact hf id l hl hop

/-- Only an enqueue event puts a wake into enqueue state. -/
theorem not_enqueue_append (events new : List WakeEvent) (id : String)
    (hnew : ∀ ts item, WakeEvent.enqueue ts item ∈ new → item.id ≠ id)
    (hold : ∀ l, lifeOf events id = some l → l.op ≠ .enqueue) (l : Life)
    (hl : lifeOf (events ++ new) id = some l) : l.op ≠ .enqueue := by
  induction new using List.reverseRecOn generalizing l with
  | nil =>
    rw [List.append_nil] at hl
    exact hold l hl
  | append_singleton new e ih =>
    have hrest : ∀ ts item, WakeEvent.enqueue ts item ∈ new → item.id ≠ id :=
      fun ts item hm => hnew ts item (List.mem_append_left _ hm)
    rw [← List.append_assoc, lifeOf_snoc, record_apply] at hl
    split_ifs at hl with hid
    · cases e with
      | enqueue ts item => exact absurd hid (hnew ts item (by simp))
      | claimed ts wakeId momentId | done ts wakeId | cancelled ts wakeId reason =>
        simp only [evolve, Option.map_eq_some_iff] at hl
        obtain ⟨x, -, rfl⟩ := hl
        simp
    · exact ih hrest l hl

theorem agree_of_sound {q p : WakeQueue} {lives : String → Option Life} (hq : Sound q lives)
    (hqf : Full q lives) (hp : Sound p lives) (hpf : Full p lives) : Agree q p := by
  refine ⟨?_, ?_, ?_, ?_, ?_⟩
  · intro id
    rw [hq.items, hp.items]
  · intro id
    rw [hq.ops, hp.ops]
  · intro id
    rw [hq.moments, hp.moments]
  · intro id
    rw [hq.reasons, hp.reasons]
  · intro id
    apply Option.ext
    intro u
    rw [pending_iff hq hqf, pending_iff hp hpf]

section Claim

variable [PyCoerce] (env : Env)

/-- No append of the call raises. -/
def AppendsSucceed (w : World) (c : Call) : Prop := clean isOsError (exec env c w) = true

instance (w : World) (c : Call) : Decidable (AppendsSucceed env w c) :=
  inferInstanceAs (Decidable (_ = true))

theorem run_inSync (calls : List Call) (w : World)
    (h : Along (stepCall env) (AppendsSucceed env) w calls)
    (hw : ∃ events, InSync w events ∧ Full w.queue (lifeOf events)) :
    ∃ events, InSync (run (stepCall env) w calls) events ∧
      Full (run (stepCall env) w calls).queue (lifeOf events) := by
  apply Along.invariant
    (fun w : World => ∃ events, InSync w events ∧ Full w.queue (lifeOf events)) _ w calls h hw
  rintro w c hc ⟨events, hs, hf⟩
  obtain ⟨after, hafter, -, hfull⟩ := stepCall_inSync env c w events hs
  exact ⟨after, hafter, hfull hc hf⟩

/-- After any calls whose appends succeed, memory is what a fresh queue loads from the log;
every known wake has one lifecycle state, and only an enqueue event of a terminal wake makes it
pending again. -/
theorem memory_refines_log (faults : List Bool) (calls : List Call)
    (h : Along (stepCall env) (AppendsSucceed env) (World.start faults) calls) :
    let w := run (stepCall env) (World.start faults) calls
    (∃ q, openQueue w.log = .ok q ∧ Agree w.queue q) ∧
    (∀ id, (w.queue.items.get? id).isSome → ∃! op, (id, op) ∈ w.queue.ops.items) ∧
    (∀ id, w.queue.pendingIds.get? id = some () ↔ w.queue.status id = some .enqueue) ∧
    ∀ c id op, w.queue.status id = some op → op.terminal = true →
      (stepCall env w c).queue.pendingIds.get? id = some () →
      ∃ new, (stepCall env w c).log = w.log ++ eventBytes new ∧
        ∃ ts item, WakeEvent.enqueue ts item ∈ new ∧ item.id = id := by
  intro w
  obtain ⟨events, hs, hf⟩ := run_inSync env calls _ h ⟨[], inSync_start faults, fun id l hl => by
    cases hl⟩
  change InSync w events at hs
  change Full w.queue (lifeOf events) at hf
  have hstatus (id : String) : w.queue.status id = (lifeOf events id).map Life.op :=
    hs.sound.ops id
  refine ⟨?_, ?_, ?_, ?_⟩
  · obtain ⟨q, hopen, hq, hqf⟩ := openQueue_eventBytes events
    rw [← hs.log] at hopen
    exact ⟨q, hopen, agree_of_sound hs.sound hf hq hqf⟩
  · intro id hid
    rw [hs.sound.items, Option.isSome_map] at hid
    obtain ⟨l, hl⟩ := Option.isSome_iff_exists.mp hid
    have hop : w.queue.ops.get? id = some l.op := by
      rw [hs.sound.ops, hl]
      rfl
    refine ⟨l.op, (Dict.get?_eq_some_iff _ _ _).mp hop, ?_⟩
    intro op hm
    have hsame : w.queue.ops.get? id = some op := (Dict.get?_eq_some_iff _ _ _).mpr hm
    rw [hop] at hsame
    exact (Option.some.inj hsame).symm
  · intro id
    rw [pending_iff hs.sound hf, hstatus, Option.map_eq_some_iff]
  · intro c id op hop hterm hpend
    obtain ⟨after, hafter, hgrew, -⟩ := stepCall_inSync env c w events hs
    obtain ⟨l, hl, hlop⟩ := hafter.sound.pendingOp id hpend
    rcases hgrew with rfl | ⟨new, rfl⟩
    · cases hl
    · refine ⟨new, ?_, ?_⟩
      · rw [hafter.log, hs.log, eventBytes_append]
      · by_contra hno
        have hold : ∀ l, lifeOf events id = some l → l.op ≠ .enqueue := by
          intro x hx he
          rw [hstatus, hx] at hop
          cases hop
          rw [he] at hterm
          cases hterm
        refine not_enqueue_append events new id ?_ hold l hl hlop
        intro ts item hm hid
        exact hno ⟨ts, item, hm, hid⟩

end Claim

section Sample

attribute [local instance] basicCoerce

def recoveredCalls : List Call :=
  [.enqueue "timer" .empty (some "w1") none, .claim "m1", .recoverClaimed]

theorem memory_refines_log_recovered :
    let w := run (stepCall countingEnv) (World.start []) recoveredCalls
    ∃ q, openQueue w.log = .ok q ∧ Agree w.queue q :=
  (memory_refines_log countingEnv [] recoveredCalls (by decide +kernel)).1

end Sample
end Elyra.Presence
