import Elyra.Moment.Lifecycle

namespace Elyra.Moment

open Json

theorem after_check {α β : Type} (r : Except Raised α) (f : α → Act Written β)
    (t : Moments Written) (P : Moments Written → Prop) (herror : P t)
    (hok : ∀ a, r = .ok a → P (after (f a t))) : P (after ((check r >>= f) t)) := by
  cases r with
  | ok a => exact hok a rfl
  | error e => exact herror

theorem after_load {β : Type} (f : Dict String Row → Act Written β) (t : Moments Written) :
    after ((loadIndexById written >>= f) t) = after (f (byId t) t) := by
  rw [run_bind, loadIndexById_written]

theorem after_answer {α : Type} (m : Act Written α) (f : α → Answer) (t : Moments Written) :
    after ((m >>= fun a => pure (f a)) t) = after (m t) := by
  rw [run_bind]
  cases m t <;> rfl

theorem touches_refl (t : Moments Written) : Touches t t := .same rfl

theorem id_newMeta (mid now : String) (a : OpenArgs) :
    (newMeta mid now a).get? "id" = some (.str mid) := by
  rw [newMeta, Dict.get?_ofList _ (by simp)]
  rfl

theorem ended_newMeta (mid now : String) (a : OpenArgs) : ended (newMeta mid now a) = false := by
  have h : (newMeta mid now a).get? "ended_at" = some .null := by
    rw [newMeta, Dict.get?_ofList _ (by simp)]
    rfl
  unfold ended
  rw [h]

theorem MomentId.text_ne (mid : MomentId) : mid.text ≠ "" := by
  intro h
  have hvalid := mid.valid
  rw [h] at hvalid
  revert hvalid
  decide

theorem touches_openMoment (a : OpenArgs) (now : String) (fresh : MomentId) (t : Moments Written) :
    Touches t (after (openMoment written a now fresh t)) := by
  apply after_check (P := Touches t) _ _ t (touches_refl t)
  intro mid _
  rw [after_load]
  split_ifs with hknown
  · exact touches_refl t
  · apply Touches.opened mid.text (newMeta mid.text now a) mid.text_ne (id_newMeta mid.text now a)
      (Option.not_isSome_iff_eq_none.mp hknown) (ended_newMeta mid.text now a)
    exact Function.update_self _ _ t

theorem touches_closeMoment (momentId stopReason : String) (hopCount : Option Int)
    (skillsUsed : Option (List String)) (now : String) (t : Moments Written) :
    Touches t (after (closeMoment written momentId stopReason hopCount skillsUsed now t)) := by
  apply after_check (P := Touches t) _ _ t (touches_refl t)
  intro mid _
  apply after_check (P := Touches t) _ _ t (touches_refl t)
  intro reason _
  rw [after_load]
  have hkeyed : Keyed (byId t) := keyed_folded _
  cases hget : (byId t).get? mid.text with
  | none => exact touches_refl t
  | some row =>
    show Touches t (after ((if ended row then _ else _ : Act Written Row) t))
    split_ifs with hended
    · exact touches_refl t
    · apply Touches.rewritten _ (hkeyed.close now hget reason hopCount skillsUsed)
      · rintro k r ⟨hk, hr⟩
        have hm : mid.text ≠ k := by
          rintro rfl
          rw [hget] at hk
          obtain rfl := Option.some.inj hk
          exact hended hr
        exact ⟨by rw [Dict.get?_set_ne _ _ hm, hk], hr⟩
      · exact Function.update_self _ _ t

theorem after_recover (now : String) (t : Moments Written) :
    after (recoverOpenMoments written now t) =
      if (recoverItems now (byId t) (byId t).items).1 = [] then t
      else Function.update t .index (.replaced ((recovered now (byId t)).values.map Dict.items)) := by
  have h := after_load (fun d => show Act Written (List String) from
    if (recoverItems now d d.items).1 = [] then pure (recoverItems now d d.items).1
    else do
      rewriteIndex written (recoverItems now d d.items).2
      pure (recoverItems now d d.items).1) t
  refine h.trans ?_
  split_ifs <;> rfl

theorem touches_recover (now : String) (t : Moments Written) :
    Touches t (after (recoverOpenMoments written now t)) := by
  rw [after_recover]
  split_ifs with hnil
  · exact touches_refl t
  · have hkeyed : Keyed (byId t) := keyed_folded _
    apply Touches.rewritten (recovered now (byId t)) (keyed_recovered now hkeyed)
    · rintro k r ⟨hk, hr⟩
      refine ⟨?_, hr⟩
      rw [recovered_get?, hk, Option.map_some, if_pos hr]
    · exact Function.update_self _ _ t

theorem after_getMoment (momentId : String) (t : Moments Written) :
    after (getMoment written momentId t) = t := by
  apply after_check (P := fun u => u = t) _ _ t rfl
  intro mid _
  rw [after_load]
  rfl

theorem touches_appendBeat (momentId : String) (beat : Row) (now : String) (t : Moments Written) :
    Touches t (after (appendBeat written momentId beat now t)) := by
  apply after_check (P := Touches t) _ _ t (touches_refl t)
  intro mid _
  rw [run_bind]
  have hsame := after_getMoment mid.text t
  cases hfound : getMoment written mid.text t with
  | error e u =>
    rw [hfound] at hsame
    obtain rfl : u = t := hsame
    exact touches_refl u
  | ok found u =>
    rw [hfound] at hsame
    obtain rfl : u = t := hsame
    cases found with
    | none => exact touches_refl u
    | some row =>
      show Touches u (after ((if ended row then _ else _ : Act Written Unit) u))
      split_ifs
      · exact touches_refl u
      · apply after_check (P := Touches u) _ _ u (touches_refl u)
        intro _ _
        apply Touches.same
        exact Function.update_of_ne (by simp) _ u

theorem touches_listBeats (momentId : String) (t : Moments Written) :
    Touches t (after (listBeats written momentId t)) := by
  apply after_check (P := Touches t) _ _ t (touches_refl t)
  intro mid _
  exact touches_refl t

theorem touches_step (e : Event) (t : Moments Written) : Touches t (stepEvent written t e) := by
  cases e with
  | call c =>
    show Touches t (after (exec written c t))
    cases c with
    | openMoment a now fresh =>
      rw [exec, after_answer]
      exact touches_openMoment a now fresh t
    | appendBeat momentId beat now =>
      rw [exec, after_answer]
      exact touches_appendBeat momentId beat now t
    | closeMoment momentId stopReason hopCount skillsUsed now =>
      rw [exec, after_answer]
      exact touches_closeMoment momentId stopReason hopCount skillsUsed now t
    | recoverOpenMoments now =>
      rw [exec, after_answer]
      exact touches_recover now t
    | getMoment momentId =>
      rw [exec, after_answer, after_getMoment]
      exact touches_refl t
    | listOpenMoments =>
      rw [exec, after_answer, listOpenMoments, after_load]
      exact touches_refl t
    | listBeats momentId =>
      rw [exec, after_answer]
      exact touches_listBeats momentId t
  | crash file k =>
    by_cases hfile : file = .index
    · subst hfile
      exact .cut k (Function.update_self _ _ t)
    · exact .same (Function.update_of_ne (Ne.symm hfile) _ t)

theorem openedLast_run (events : List Event) (t : Moments Written) (h : OpenedLast (t .index)) :
    OpenedLast (run (stepEvent written) t events .index) :=
  run_invariant (fun t => OpenedLast (t .index))
    (fun t e ht => (touches_step e t).openedLast ht) t events h

theorem closed_run (events : List Event) (t : Moments Written) (h : OpenedLast (t .index))
    {mid : String} {row : Row} (hc : ClosedAs (byId t) mid row) :
    ClosedAs (byId (run (stepEvent written) t events)) mid row := by
  have hboth := @run_invariant _ _ (stepEvent written)
    (fun t => OpenedLast (t .index) ∧ ClosedAs (byId t) mid row)
    (fun t e ht => ⟨(touches_step e t).openedLast ht.1, (touches_step e t).closed ht.1 ht.2⟩)
    t events ⟨h, hc⟩
  exact hboth.2

section Errors

/-- The file could not be read. -/
def fileError : Raised → Bool
  | .unicodeDecodeError | .attributeError => true
  | .valueError _ _ | .keyError _ _ => false

/-- The computation never fails to read a file. -/
def Readable {α : Type} (m : Act Written α) : Prop :=
  ∀ t e, outcome (m t) = .error e → fileError e = false

theorem readable_pure {α : Type} (a : α) : Readable (pure a) := by
  intro t e h
  cases h

theorem readable_raise {α : Type} (e : Raised) (he : fileError e = false) :
    Readable (raise e : Act Written α) := by
  intro t d h
  obtain rfl := Except.error.inj h
  exact he

theorem readable_check {α : Type} (r : Except Raised α)
    (hr : ∀ e, r = .error e → fileError e = false) : Readable (check r) := by
  intro t e h
  cases r with
  | ok a => cases h
  | error d =>
    obtain rfl := Except.error.inj h
    exact hr d rfl

theorem readable_bind {α β : Type} {m : Act Written α} {f : α → Act Written β}
    (hm : Readable m) (hf : ∀ a, Readable (f a)) : Readable (m >>= f) := by
  intro t e h
  have hfirst := hm t
  rw [run_bind] at h
  cases hmt : m t with
  | ok a u =>
    rw [hmt] at h
    exact hf a u e h
  | error d u =>
    rw [hmt] at h hfirst
    obtain rfl := Except.error.inj h
    exact hfirst d rfl

theorem readable_load : Readable (loadIndexById written) := by
  intro t e h
  rw [loadIndexById_written] at h
  cases h

theorem readable_validateMomentId (momentId : String) :
    Readable (check (validateMomentId momentId)) := by
  apply readable_check
  intro e h
  unfold validateMomentId at h
  split_ifs at h
  obtain rfl := Except.error.inj h
  rfl

theorem readable_append (file : File) (row : Row) : Readable (appendRow written file row) := by
  intro t e h
  cases h

theorem readable_rewrite (d : Dict String Row) : Readable (rewriteIndex written d) := by
  intro t e h
  cases h

theorem readable_openMoment (a : OpenArgs) (now : String) (fresh : MomentId) :
    Readable (openMoment written a now fresh) := by
  apply readable_bind
  · cases a.momentId with
    | none => exact readable_pure fresh
    | some momentId => exact readable_validateMomentId momentId
  · intro mid
    apply readable_bind readable_load
    intro existing
    split_ifs
    · exact readable_raise _ rfl
    · exact readable_bind (readable_append _ _) (fun _ => readable_pure _)

theorem readable_getMoment (momentId : String) : Readable (getMoment written momentId) := by
  apply readable_bind (readable_validateMomentId momentId)
  intro mid
  exact readable_bind readable_load (fun _ => readable_pure _)

theorem readable_beatType (beat : Row) : Readable (check (beatType beat)) := by
  apply readable_check
  intro e h
  unfold beatType at h
  split at h
  · split_ifs at h
    obtain rfl := Except.error.inj h
    rfl
  · obtain rfl := Except.error.inj h
    rfl
  · obtain rfl := Except.error.inj h
    rfl

theorem readable_appendBeat (momentId : String) (beat : Row) (now : String) :
    Readable (appendBeat written momentId beat now) := by
  apply readable_bind (readable_validateMomentId momentId)
  intro mid
  apply readable_bind (readable_getMoment mid.text)
  intro found
  cases found with
  | none => exact readable_raise _ rfl
  | some row =>
    show Readable (if ended row then _ else _)
    split_ifs
    · exact readable_raise _ rfl
    · exact readable_bind (readable_beatType beat) (fun _ => readable_append _ _)

theorem readable_closeMoment (momentId stopReason : String) (hopCount : Option Int)
    (skillsUsed : Option (List String)) (now : String) :
    Readable (closeMoment written momentId stopReason hopCount skillsUsed now) := by
  apply readable_bind (readable_validateMomentId momentId)
  intro mid
  apply readable_bind
  · apply readable_check
    intro e h
    unfold validateStopReason at h
    split_ifs at h
    obtain rfl := Except.error.inj h
    rfl
  · intro reason
    apply readable_bind readable_load
    intro d
    cases d.get? mid.text with
    | none => exact readable_raise _ rfl
    | some row =>
      show Readable (if ended row then _ else _)
      split_ifs
      · exact readable_pure _
      · exact readable_bind (readable_rewrite _) (fun _ => readable_pure _)

theorem readable_recover (now : String) : Readable (recoverOpenMoments written now) := by
  apply readable_bind readable_load
  intro d
  show Readable (if (recoverItems now d d.items).1 = [] then _ else _)
  split_ifs
  · exact readable_pure _
  · exact readable_bind (readable_rewrite _) (fun _ => readable_pure _)

theorem readable_listBeats (momentId : String) : Readable (listBeats written momentId) := by
  apply readable_bind (readable_validateMomentId momentId)
  intro mid t e h
  cases h

theorem readable_exec (c : Call) : Readable (exec written c) := by
  cases c with
  | openMoment a now fresh =>
    exact readable_bind (readable_openMoment a now fresh) (fun _ => readable_pure _)
  | appendBeat momentId beat now =>
    exact readable_bind (readable_appendBeat momentId beat now) (fun _ => readable_pure _)
  | closeMoment momentId stopReason hopCount skillsUsed now =>
    exact readable_bind (readable_closeMoment momentId stopReason hopCount skillsUsed now)
      (fun _ => readable_pure _)
  | recoverOpenMoments now =>
    exact readable_bind (readable_recover now) (fun _ => readable_pure _)
  | getMoment momentId =>
    exact readable_bind (readable_getMoment momentId) (fun _ => readable_pure _)
  | listOpenMoments =>
    exact readable_bind (readable_bind readable_load (fun _ => readable_pure _))
      (fun _ => readable_pure _)
  | listBeats momentId =>
    exact readable_bind (readable_listBeats momentId) (fun _ => readable_pure _)

end Errors

def filesAfter (events : List Event) : Moments AppendFile :=
  run (stepEvent bytes) (start bytes) events

def rowsAfter (events : List Event) : Moments Written :=
  run (stepEvent written) (start written) events

/-- The index as the files have it. -/
def indexOf (s : Moments AppendFile) : Except Raised (Dict String Row) :=
  outcome (loadIndexById bytes s)

/-- What the store promises of the files a run leaves. -/
structure Durable (events : List Event) : Prop where
  /-- Calls answer as on the rows written completely, and none fails to read a file. -/
  answers : ∀ c, outcome (exec bytes c (filesAfter events)) =
    outcome (exec written c (rowsAfter events))
  readable : ∀ c e, outcome (exec bytes c (filesAfter events)) = .error e → fileError e = false
  index : indexOf (filesAfter events) = .ok (folded (rowsAfter events .index).rows)
  /-- What was closed at some point of the run stands unchanged. -/
  closed : ∀ before after, events = before ++ after →
    ∀ d mid row, indexOf (filesAfter before) = .ok d → ClosedAs d mid row →
      ∃ d', indexOf (filesAfter events) = .ok d' ∧ ClosedAs d' mid row
  accepted : ∀ mid beat now s, appendBeat bytes mid beat now (filesAfter events) = .ok () s →
    ∃ d row, indexOf (filesAfter events) = .ok d ∧ d.get? mid = some row ∧ ended row = false
  beats : ∀ mid : MomentId, outcome (listBeats bytes mid.text (filesAfter events)) =
    .ok ((rowsAfter events (.tape mid)).rows.map Json.obj)
  recovered : ∀ now, ∃ ids s d, recoverOpenMoments bytes now (filesAfter events) = .ok ids s ∧
    indexOf s = .ok d ∧ ∀ mid row, d.get? mid = some row → ended row = true

theorem Refines.index {s : Moments AppendFile} {t : Moments Written} (h : Refines s t) :
    indexOf s = .ok (byId t) := by
  rw [indexOf, (simulates_loadIndexById s t h).outcome_eq, loadIndexById_written]
  rfl

theorem validateMomentId_text (mid : MomentId) : validateMomentId mid.text = .ok mid := by
  rw [validateMomentId, dif_pos mid.valid]

theorem outcome_listBeats (mid : MomentId) (t : Moments Written) :
    outcome (listBeats written mid.text t) = .ok ((t (.tape mid)).rows.map Json.obj) := by
  rw [listBeats, validateMomentId_text]
  rfl

theorem recover_written (now : String) (t : Moments Written) : ∃ ids,
    recoverOpenMoments written now t = .ok ids (after (recoverOpenMoments written now t)) := by
  cases hr : recoverOpenMoments written now t with
  | ok ids u => exact ⟨ids, rfl⟩
  | error e u =>
    exfalso
    revert hr
    rw [recoverOpenMoments, run_bind, loadIndexById_written]
    show (if (recoverItems now (byId t) (byId t).items).1 = [] then _ else _ :
      Act Written (List String)) t = _ → False
    split_ifs
    · intro hr
      cases hr
    · intro hr
      cases hr

/-- After a recovery no moment is open. -/
theorem recovered_all (now : String) (t : Moments Written) (mid : String) (row : Row)
    (h : (byId (after (recoverOpenMoments written now t))).get? mid = some row) :
    ended row = true := by
  rw [after_recover] at h
  split_ifs at h with hnil
  · exact recoverItems_nil now (byId t) (byId t).items hnil (mid, row)
      ((Dict.get?_eq_some_iff _ _ _).mp h)
  · have hkeyed : Keyed (byId t) := keyed_folded _
    rw [byId, Function.update_self, Written.rows_replaced,
      folded_values _ (keyed_recovered now hkeyed)] at h
    exact recovered_ended now (byId t) mid row h

theorem append_accepted (mid : String) (beat : Row) (now : String) (t u : Moments Written)
    (h : appendBeat written mid beat now t = .ok () u) :
    ∃ row, (byId t).get? mid = some row ∧ ended row = false := by
  obtain ⟨id, v, hid, hrest⟩ := run_bind_ok h
  have hvalid : id.text = mid ∧ v = t := by
    unfold validateMomentId at hid
    split_ifs at hid with hok
    · cases hid
      exact ⟨rfl, rfl⟩
    · cases hid
  obtain ⟨htext, rfl⟩ := hvalid
  have hget : getMoment written id.text v = .ok ((byId v).get? id.text) v := by
    rw [getMoment, validateMomentId_text]
    show (loadIndexById written >>= fun d => pure (d.get? id.text)) v = _
    rw [run_bind, loadIndexById_written]
    rfl
  rw [run_bind, hget] at hrest
  rw [htext] at hrest
  cases hfound : (byId v).get? mid with
  | none =>
    rw [hfound] at hrest
    cases hrest
  | some row =>
    refine ⟨row, rfl, ?_⟩
    rw [hfound] at hrest
    by_contra hended
    rw [Bool.not_eq_false] at hended
    change (if ended row then _ else _ : Act Written Unit) v = _ at hrest
    rw [if_pos hended] at hrest
    cases hrest

theorem along_split {events before after : List Event} (h : events = before ++ after)
    (hp : Along (stepEvent bytes) AtCharacter (start bytes) events) :
    Along (stepEvent bytes) AtCharacter (start bytes) before := by
  rw [h, along_append] at hp
  exact hp.1

theorem openedLast_start : OpenedLast (start written .index) := by
  intro kvs h
  cases h

/-- While crashes leave whole characters, the store keeps its promises. -/
theorem durable_of_atCharacter (events : List Event)
    (h : Along (stepEvent bytes) AtCharacter (start bytes) events) : Durable events := by
  have hrefines : Refines (filesAfter events) (rowsAfter events) := refines_start.run events h
  have hanswers : ∀ c, outcome (exec bytes c (filesAfter events)) =
      outcome (exec written c (rowsAfter events)) :=
    fun c => (simulates_exec c _ _ hrefines).outcome_eq
  refine ⟨hanswers, ?_, hrefines.index, ?_, ?_, ?_, ?_⟩
  · intro c e he
    rw [hanswers c] at he
    exact readable_exec c _ e he
  · intro before after hsplit d mid row hd hclosed
    have hbefore : Refines (filesAfter before) (rowsAfter before) :=
      refines_start.run before (along_split hsplit h)
    rw [hbefore.index] at hd
    obtain rfl := Except.ok.inj hd
    refine ⟨_, hrefines.index, ?_⟩
    have hlast : OpenedLast (rowsAfter before .index) :=
      openedLast_run before _ openedLast_start
    have hrun : rowsAfter events = run (stepEvent written) (rowsAfter before) after := by
      rw [rowsAfter, hsplit, run_append]
      rfl
    rw [hrun]
    exact closed_run after _ hlast hclosed
  · intro mid beat now s hs
    have hsim := simulates_appendBeat mid beat now _ _ hrefines
    rw [hs] at hsim
    cases hw : appendBeat written mid beat now (rowsAfter events) with
    | error e u =>
      rw [hw] at hsim
      cases hsim
    | ok a u =>
      obtain ⟨row, hrow, hopen⟩ := append_accepted mid beat now _ u hw
      exact ⟨_, row, hrefines.index, hrow, hopen⟩
  · intro mid
    rw [(simulates_listBeats mid.text _ _ hrefines).outcome_eq, outcome_listBeats]
  · intro now
    obtain ⟨ids, hids⟩ := recover_written now (rowsAfter events)
    have hsim := simulates_recoverOpenMoments now _ _ hrefines
    have hnext := hsim.after
    cases hb : recoverOpenMoments bytes now (filesAfter events) with
    | error e s =>
      rw [hb, hids] at hsim
      cases hsim
    | ok found s =>
      rw [hb] at hnext
      exact ⟨found, s, _, rfl, hnext.index, recovered_all now _⟩

def openCall (mid whyNow : String) (h : validMomentId mid = true) : Event :=
  .call (.openMoment ⟨whyNow, none, none, [], [], none⟩ "t" ⟨mid, h⟩)

/-- The crash cuts the line between two characters. -/
def calmRun : List Event := [openCall "m" "é" (by decide), .crash .index 100]

theorem durable_of_atCharacter_sample : Durable calmRun :=
  durable_of_atCharacter calmRun (by decide +kernel)

/-- Of an index that does not decode no moment can be read. -/
theorem getMoment_unreadable (mid : MomentId) (s : Moments AppendFile)
    (h : decodeUtf8 (s .index).content = none) :
    outcome (exec bytes (.getMoment mid.text) s) = .error .unicodeDecodeError := by
  have hrows : bytes.rows (s .index) = .error .unicodeDecodeError := by
    simp only [bytes, h]
  have hread : readRows bytes .index s = .error .unicodeDecodeError s := by
    show check (bytes.rows (s .index)) s = _
    rw [hrows]
    rfl
  have hload : loadIndexById bytes s = .error .unicodeDecodeError s := by
    rw [loadIndexById, run_bind, hread]
  have hget : getMoment bytes mid.text s = .error .unicodeDecodeError s := by
    rw [getMoment, validateMomentId_text]
    show (loadIndexById bytes >>= fun d => pure (d.get? mid.text)) s = _
    rw [run_bind, hload]
  rw [exec, run_bind, hget]
  rfl

/-- The crash cuts the line inside the two bytes of its `é`. -/
def tornRun : List Event := [openCall "m" "é" (by decide), .crash .index 83]

theorem not_durable_inside_character : ¬ ∀ events, Durable events := by
  intro h
  have hnone : decodeUtf8 (filesAfter tornRun .index).content = none := by
    decide +kernel
  have hraised := getMoment_unreadable ⟨"m", by decide⟩ (filesAfter tornRun) hnone
  have hclean := (h tornRun).readable _ _ hraised
  cases hclean

end Elyra.Moment
