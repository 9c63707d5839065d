import Elyra.Framework.Run
import Elyra.Memory.EncodeOwner
import Elyra.Memory.PromoteBlind

namespace Elyra.Memory

open Json JsonlMemoryStore

/-- One `promote_*` call of the do-loop, or the counters of a new moment. -/
inductive PromoteCall where
  | beat (out : Outside) (momentId : String) (beat : Beat)
  | wake (out : Outside) (momentId : String) (content messageId : Option String)
      (mediaIds : List String) (whyNow : String)
  | view (out : Outside) (momentId : String) (mediaIds : List String)
      (note sourceUrl : Option String)
  | newMoment (state : Option PromoteState)

section Threads

variable [PyCoerce] [ContentHash]

def promoteOne (settings : PromoteSettings) (state : Option PromoteState) :
    PromoteCall → StoreProgram Promoted
  | .beat out momentId beat => promoteBeat settings out momentId beat state
  | .wake out momentId content messageId mediaIds whyNow => do
    let r ← promoteWakeObservation settings out momentId content messageId mediaIds whyNow
    return (r.1, state)
  | .view out momentId mediaIds note sourceUrl => do
    let r ← promoteViewObservation settings out momentId mediaIds note sourceUrl
    return (r.1, state)
  | .newMoment state => return (none, state)

/-- The do-loop thread: any sequence of calls. -/
def promoteAll (settings : PromoteSettings) :
    List PromoteCall → Option PromoteState → StoreProgram Unit
  | [], _ => return ()
  | c :: calls, state => do
    let r ← promoteOne settings state c
    promoteAll settings calls r.2

/-- The store and the two threads that use it. -/
structure World where
  store : JsonlMemoryStore
  loop : StoreProgram Unit
  encoder : Encoder

def World.start (store : JsonlMemoryStore) (settings : PromoteSettings)
    (calls : List PromoteCall) (jobs : List EncodeJob) : World :=
  ⟨store, promoteAll settings calls none, ⟨jobs, none⟩⟩

/-- Whose store operation comes next. -/
inductive Turn where
  | loop | encode
  deriving DecidableEq

def World.step (w : World) : Turn → World
  | .loop =>
    let (loop, store) := w.loop.step StoreCall.perform w.store
    { w with loop, store }
  | .encode =>
    let (encoder, store) := w.encoder.step w.store
    { w with encoder, store }

def World.quiescent (w : World) : Bool := w.loop.isDone && w.encoder.idle

/-- What the encode thread has no part in: the links, the body and the other meta keys. -/
def Atom.kept (a : Atom) : Option String × Option String × String × Dict String Json :=
  (a.prevAtomId, a.nextAtomId, a.contentText, a.metadata.filterKeys fun key => !embedKey key)

def World.kept (w : World) (atomId : String) :
    Option (Option String × Option String × String × Dict String Json) :=
  (w.store.getAtom atomId).map Atom.kept

/-- A row as a put stores it: its timestamps normalised and its body within the cap. -/
def InPutForm (settings : MemorySettings) (a : Atom) : Prop :=
  normalizeStamps a = .ok a ∧ capContent settings a = a

instance decidableInPutForm (settings : MemorySettings) (a : Atom) : Decidable (InPutForm settings a) :=
  match h : normalizeStamps a with
  | .ok b => decidable_of_iff (b = a ∧ capContent settings a = a) (by simp [InPutForm, h])
  | .error e => isFalse (by simp [InPutForm, h])

/-- A row goes back in put form, and to a row that is as it was read up to its status. -/
def RowUnchanged (w : World) : Turn → Prop
  | .loop => True
  | .encode => ∀ held ∈ w.encoder.held,
      (w.store.getAtom held.1.atomId).map Atom.core = some held.1.core ∧
        InPutForm w.store.settings held.1

instance decidableRowUnchanged (w : World) : ∀ turn, Decidable (RowUnchanged w turn)
  | .loop => isTrue trivial
  | .encode => inferInstanceAs (Decidable (∀ held ∈ w.encoder.held,
      (w.store.getAtom held.1.atomId).map Atom.core = some held.1.core ∧
        InPutForm w.store.settings held.1))

end Threads

section StatusWrites

theorem foldl_set_filterKeys (p : String → Bool) (updates : List (String × Json))
    (d : Dict String Json) (h : ∀ u ∈ updates, p u.1 = false) :
    (updates.foldl (fun d u => d.set u.1 u.2) d).filterKeys p = d.filterKeys p := by
  induction updates generalizing d with
  | nil => rfl
  | cons u updates ih =>
    have hu : p u.1 = false := h u (List.mem_cons_self ..)
    rw [List.foldl_cons, ih _ (fun v hv => h v (List.mem_cons_of_mem _ hv)),
      Dict.filterKeys_set p d u.1 u.2 hu]

/-- The keys of a status write all belong to the encode pass. -/
def StatusWrite.Embed (w : StatusWrite) : Prop := ∀ u ∈ w.updates, embedKey u.1 = true

theorem markAtomStatus_core (a : Atom) (w : StatusWrite) (h : w.Embed) :
    (markAtomStatus a w).core = a.core := by
  have hmeta : (markAtomStatus a w).metadata.filterKeys (fun key => !embedKey key) =
      a.metadata.filterKeys fun key => !embedKey key := by
    apply foldl_set_filterKeys
    intro u hu
    rw [h u hu]
    rfl
  show { a with embeddingStatus := _, contentRef := _, schemaVersion := _, metadata := _ } = _
  rw [hmeta]
  rfl

theorem normalizeStamps_mark (a : Atom) (w : StatusWrite) :
    normalizeStamps (markAtomStatus a w) =
      (normalizeStamps a).map fun b => markAtomStatus b w := by
  rw [normalizeStamps, normalizeStamps]
  show (isoOr a.tStart a.tStart >>= _) = (isoOr a.tStart a.tStart >>= _).map _
  cases isoOr a.tStart a.tStart with
  | error e => rfl
  | ok tStart =>
    show (stampIso a.tEnd >>= _) = (stampIso a.tEnd >>= _).map _
    cases stampIso a.tEnd with
    | error e => rfl
    | ok tEnd =>
      show (stampIso a.windowStart >>= _) = (stampIso a.windowStart >>= _).map _
      cases stampIso a.windowStart with
      | error e => rfl
      | ok windowStart =>
        show (stampIso a.windowEnd >>= _) = (stampIso a.windowEnd >>= _).map _
        cases stampIso a.windowEnd with
        | error e => rfl
        | ok windowEnd =>
          show (stampIso a.sourceBeatTs >>= _) = (stampIso a.sourceBeatTs >>= _).map _
          cases stampIso a.sourceBeatTs <;> rfl

/-- An atom that keeps its body under the cap is within it. -/
theorem within_of_capContent (settings : MemorySettings) (a : Atom)
    (h : capContent settings a = a) :
    ¬(0 < settings.atomMaxChars ∧ settings.atomMaxChars < a.contentText.length) := by
  intro hlong
  rw [capContent, if_pos hlong] at h
  have htext := congrArg (fun b : Atom => b.contentText.length) h
  have hlen : (String.ofList (a.contentText.toList.take settings.atomMaxChars.toNat)).length =
      a.contentText.length := htext
  rw [String.length_ofList, List.length_take, String.length_toList] at hlen
  omega

theorem within_capContent (settings : MemorySettings) (a : Atom) :
    ¬(0 < settings.atomMaxChars ∧
      settings.atomMaxChars < (capContent settings a).contentText.length) := by
  rw [capContent]
  split_ifs with h
  · have hlen : (String.ofList (a.contentText.toList.take settings.atomMaxChars.toNat)).length ≤
        settings.atomMaxChars.toNat := by
      rw [String.length_ofList]
      exact List.length_take_le ..
    intro hlong
    have hlt : settings.atomMaxChars < (String.ofList (a.contentText.toList.take
        settings.atomMaxChars.toNat)).length := hlong.2
    omega
  · exact h

/-- What a put stores is in put form. -/
theorem inPutForm_of_prepare [PyCoerce] (settings : MemorySettings) (a p : Atom)
    (h : prepareForPut settings a = .ok p) : InPutForm settings p := by
  obtain ⟨stamped, hn, rfl⟩ := prepareForPut_eq settings a p h
  have hfixed := stampsFixed_prepared settings stamped (stampsFixed_of_normalize a stamped hn)
  refine ⟨hfixed.normalize, ?_⟩
  exact if_neg (within_capContent settings stamped)

theorem prepareForPut_mark [PyCoerce] (settings : MemorySettings) (a p : Atom) (w : StatusWrite)
    (hw : w.Embed) (hform : InPutForm settings a)
    (h : prepareForPut settings (markAtomStatus a w) = .ok p) : p.core = a.core := by
  obtain ⟨stamped, hn, rfl⟩ := prepareForPut_eq settings _ p h
  rw [normalizeStamps_mark, hform.1] at hn
  have hstamped : stamped = markAtomStatus a w := (Except.ok.inj hn).symm
  have hcap : capContent settings (markAtomStatus a w) = markAtomStatus a w :=
    if_neg (within_of_capContent settings a hform.2)
  rw [hstamped, hcap]
  exact markAtomStatus_core a w hw

theorem embedKey_names : ∀ key ∈ ["embed_attempts", "embed_error", "embed_encode_ok",
    "embed_content_fp", "embed_encoded_at", "embed_channels", "embed_media_skipped"],
    embedKey key = true := by decide

theorem embed_of_names (w : StatusWrite) (h : ∀ u ∈ w.updates, u.1 ∈ ["embed_attempts",
    "embed_error", "embed_encode_ok", "embed_content_fp", "embed_encoded_at", "embed_channels",
    "embed_media_skipped"]) : w.Embed := fun u hu => embedKey_names u.1 (h u hu)

end StatusWrites

section Encoder

variable [PyCoerce]

omit [PyCoerce] in
/-- The write after a pass without vectors. -/
theorem embed_noted (status : String) (attempts : Int) (r : EncodeResult) (error : Json) :
    StatusWrite.Embed ⟨status, ("embed_attempts", .int attempts) :: skippedUpdate r ++
      [("embed_error", error)]⟩ := by
  apply embed_of_names
  rw [skippedUpdate]
  cases r.mediaSkipped <;> simp

omit [PyCoerce] in
theorem embed_encodedWrite (job : EncodeJob) (a : Atom) (attempts : Int) (r : EncodeResult)
    (e : ChannelEmbeddings) : (encodedWrite job a attempts r e).Embed := by
  apply embed_of_names
  rw [encodedWrite, skippedUpdate]
  cases r.mediaSkipped <;> split <;> simp

omit [PyCoerce] in
theorem embed_resultWrite (job : EncodeJob) (a : Atom) (before : Int) (r : EncodeResult) :
    (resultWrite job a before r).Embed := by
  rw [resultWrite]
  cases r.embeddings with
  | none => split_ifs <;> exact embed_noted _ _ r _
  | some e =>
    split_ifs
    · exact embed_noted _ _ r _
    · exact embed_noted _ _ r _
    · exact embed_noted _ _ r _
    · exact embed_encodedWrite job a _ r e

theorem embed_processOne (job : EncodeJob) (a : Atom) (w : StatusWrite)
    (h : processOne job a = .ok (some w)) : w.Embed := by
  rw [processOne] at h
  split_ifs at h
  · cases h
  · cases h
  · rw [← Option.some.inj (Except.ok.inj h)]
    apply embed_of_names
    simp
  · cases h
  · cases hr : job.result with
    | error e =>
      rw [hr] at h
      cases h
    | ok r =>
      rw [hr] at h
      dsimp only at h
      cases ha : attemptsOf a with
      | error e =>
        rw [ha] at h
        cases h
      | ok before =>
        rw [ha] at h
        rw [← Option.some.inj (Except.ok.inj h)]
        exact embed_resultWrite job a before r

/-- The write of a row that is held is one of the encode pass. -/
def Encoder.Embed (e : Encoder) : Prop := ∀ held ∈ e.held, held.2.Embed

theorem embed_heldRow (job : EncodeJob) (row : Option Atom) :
    ∀ held ∈ heldRow job row, held.2.Embed := by
  intro held hheld
  cases row with
  | none => cases hheld
  | some a =>
    rw [heldRow] at hheld
    split at hheld
    · rename_i w hw
      rw [← Option.mem_some_iff.mp hheld]
      exact embed_processOne job a w hw
    · cases hheld

theorem embed_step (e : Encoder) (s : JsonlMemoryStore) (h : e.Embed) : (e.step s).1.Embed := by
  obtain ⟨jobs, held⟩ := e
  cases held with
  | some row =>
    intro x hx
    cases hx
  | none =>
    cases jobs with
    | nil => exact h
    | cons job rest => exact embed_heldRow job (s.getAtom job.atomId)

/-- A write-back to an unchanged row leaves the cores as they are. -/
theorem sameCores_writeBack (s : JsonlMemoryStore) (a : Atom) (w : StatusWrite) (hw : w.Embed)
    (hrow : (s.getAtom a.atomId).map Atom.core = some a.core) (hform : InPutForm s.settings a) :
    SameCores (after (putAtom (markAtomStatus a w) s)) s := by
  obtain ⟨hsettings, hatoms⟩ := after_putAtom s (markAtomStatus a w)
  refine ⟨hsettings, ?_⟩
  rw [coreItems, hatoms]
  cases hp : prepareForPut s.settings (markAtomStatus a w) with
  | error e => rfl
  | ok p =>
    have hcore : p.core = a.core := prepareForPut_mark s.settings a p w hw hform hp
    have hid : p.atomId = a.atomId := (prepareForPut_frame s.settings _ p hp).1
    have hsame : Dict.findItem s.coreItems a.atomId = some a.core := by
      rw [← getAtom_core, hrow]
    show (s.byId.set p.atomId p).items.map _ = _
    rw [coreItems_set, hcore, hid]
    exact Dict.putItem_same s.coreItems a.atomId a.core hsame

end Encoder

section Run

variable [PyCoerce] [ContentHash]

/-- Two worlds with the same work left to the loop and the same cores; the second has no encode
thread. -/
structure Ahead (w alone : World) : Prop where
  store : SameCores w.store alone.store
  loop : w.loop = alone.loop
  core : CoreProgram w.loop
  encoder : w.encoder.Embed
  idle : alone.encoder = ⟨[], none⟩

omit [ContentHash] in
theorem ahead_step (w alone : World) (turn : Turn) (hturn : RowUnchanged w turn)
    (h : Ahead w alone) : Ahead (w.step turn) (alone.step turn) := by
  cases turn with
  | loop =>
    obtain ⟨hloop, hstore, hcore⟩ :=
      Program.Blind.step h.core respects_sameCores SameCores.refl w.store alone.store h.store
    refine ⟨?_, ?_, hcore, h.encoder, h.idle⟩
    · show SameCores (w.loop.step _ w.store).2 (alone.loop.step _ alone.store).2
      rw [← h.loop]
      exact hstore
    · show (w.loop.step _ w.store).1 = (alone.loop.step _ alone.store).1
      rw [← h.loop]
      exact hloop
  | encode =>
    have halone : alone.step .encode = alone := by
      obtain ⟨store, loop, encoder⟩ := alone
      have hidle : encoder = ⟨[], none⟩ := h.idle
      rw [hidle]
      rfl
    rw [halone]
    refine ⟨?_, h.loop, h.core, embed_step w.encoder w.store h.encoder, h.idle⟩
    show SameCores (w.encoder.step w.store).2 alone.store
    obtain ⟨store, loop, jobs, held⟩ := w
    cases held with
    | some row =>
      obtain ⟨hrow, hform⟩ := hturn row rfl
      exact (sameCores_writeBack store row.1 row.2 (h.encoder row rfl) hrow hform).trans h.store
    | none =>
      cases jobs with
      | nil => exact h.store
      | cons job rest => exact h.store

omit [ContentHash] in
theorem ahead_run (w alone : World) (turns : List Turn)
    (hturns : Along World.step RowUnchanged w turns) (h : Ahead w alone) :
    Ahead (run World.step w turns) (run World.step alone turns) := by
  induction turns generalizing w alone with
  | nil => exact h
  | cons turn turns ih =>
    obtain ⟨hturn, hrest⟩ := hturns
    exact ih (w.step turn) (alone.step turn) hrest (ahead_step w alone turn hturn h)

theorem coreProgram_promoteAll (settings : PromoteSettings) (calls : List PromoteCall)
    (state : Option PromoteState) : CoreProgram (promoteAll settings calls state) := by
  induction calls generalizing state with
  | nil => exact trivial
  | cons c calls ih =>
    have hone : CoreProgram (promoteOne settings state c) := by
      cases c with
      | beat out momentId beat => exact coreProgram_promoteBeat settings out momentId beat state
      | wake out momentId content messageId mediaIds whyNow =>
        exact Program.blind_bind (coreProgram_promoteWakeObservation settings out momentId content
          messageId mediaIds whyNow) (fun _ _ => trivial)
      | view out momentId mediaIds note sourceUrl =>
        exact Program.blind_bind (coreProgram_promoteViewObservation settings out momentId mediaIds
          note sourceUrl) (fun _ _ => trivial)
      | newMoment state => exact trivial
    exact Program.blind_bind hone (fun r _ => ih r.2)

/-- In every run whose write-backs find their row unchanged, each atom has in every state the links,
the body and the other meta keys it has without the encode thread. -/
theorem status_writes_lose_no_update (store : JsonlMemoryStore) (settings : PromoteSettings)
    (calls : List PromoteCall) (jobs : List EncodeJob) (turns : List Turn)
    (h : Along World.step RowUnchanged (World.start store settings calls jobs) turns) :
    let w := run World.step (World.start store settings calls jobs) turns
    let alone := run World.step (World.start store settings calls []) turns
    w.loop = alone.loop ∧ ∀ atomId, w.kept atomId = alone.kept atomId := by
  intro w alone
  have hstart : Ahead (World.start store settings calls jobs)
      (World.start store settings calls []) :=
    ⟨SameCores.refl store, rfl, coreProgram_promoteAll settings calls none,
      fun _ hx => (nomatch hx), rfl⟩
  have hrun : Ahead w alone := ahead_run _ _ turns h hstart
  refine ⟨hrun.loop, ?_⟩
  intro atomId
  have hkept (a : Atom) : a.kept = a.core.kept := by
    rw [Atom.kept, Atom.kept, Atom.core, Dict.filterKeys_filterKeys]
  have hrow : (w.store.getAtom atomId).map Atom.core = (alone.store.getAtom atomId).map Atom.core :=
    hrun.store.getAtom atomId
  have hmap (v : World) : v.kept atomId = ((v.store.getAtom atomId).map Atom.core).map Atom.kept := by
    rw [Option.map_map]
    exact congrArg (fun f => (v.store.getAtom atomId).map f) (funext hkept)
  rw [hmap w, hmap alone, hrow]

end Run

/-- A hash that is the body itself. -/
@[reducible] def plainHash : ContentHash := ⟨id⟩

section Sample

attribute [local instance] basicCoerce plainHash

def sampleOutside (atomId : String) : Outside := ⟨fun _ => atomId, firstInstant, firstInstant⟩

/-- A tool result that went well, as the loop records it. -/
def sampleToolBeat (content : String) : Beat :=
  .ofList [("type", .str "tool"), ("name", .str "t"), ("ok", .bool true),
    ("content", .str content), ("ts", .str (isoZ firstInstant))]

def sampleCalls : List PromoteCall :=
  [.beat (sampleOutside "a") "m" (sampleToolBeat "x"),
    .beat (sampleOutside "b") "m" (sampleToolBeat "y")]

def emptyMemory : JsonlMemoryStore := ⟨defaultMemorySettings, .empty, .empty, ⟨[], .empty⟩⟩

def sampleSettings : PromoteSettings := { defaultPromoteSettings with semanticEnabled := true }

/-- The encode of one atom, whose vectors the index takes. -/
def sampleJobs : List EncodeJob :=
  [⟨"a", true, none, .ok ⟨"ok", none, some ⟨"", ["text"]⟩, none⟩, some (.ok true), 3⟩]

/-- The first promotion, then a read and a write-back with `between` in the middle. -/
def sampleTurns (between after : List Turn) : List Turn :=
  List.replicate 4 .loop ++ .encode :: between ++ .encode :: after

/-- A write-back right after its read loses nothing. -/
theorem status_writes_lose_no_update_in_turn :
    let start := World.start emptyMemory sampleSettings sampleCalls
    let turns := sampleTurns [] (List.replicate 4 .loop)
    (run World.step (start sampleJobs) turns).loop = (run World.step (start []) turns).loop ∧
      ∀ atomId, (run World.step (start sampleJobs) turns).kept atomId =
        (run World.step (start []) turns).kept atomId :=
  status_writes_lose_no_update emptyMemory sampleSettings sampleCalls sampleJobs _
    (by decide +kernel)

/-- The second promotion links the first atom while its row is held; the write-back drops the
link. -/
theorem status_write_drops_link :
    ¬ ∀ (_ : PyCoerce) (_ : ContentHash) (store : JsonlMemoryStore) (settings : PromoteSettings)
      (calls : List PromoteCall) (jobs : List EncodeJob) (turns : List Turn),
      let w := run World.step (World.start store settings calls jobs) turns
      let alone := run World.step (World.start store settings calls []) turns
      w.quiescent = true → alone.quiescent = true →
        ∀ atomId, w.kept atomId = alone.kept atomId := by
  intro h
  have hkept := h basicCoerce plainHash emptyMemory sampleSettings sampleCalls sampleJobs
    (sampleTurns (List.replicate 4 .loop) []) (by decide +kernel) (by decide +kernel) "a"
  have hnext := congrArg (Option.map fun k => k.2.1) hkept
  exact absurd hnext (by decide +kernel)

end Sample
end Elyra.Memory
