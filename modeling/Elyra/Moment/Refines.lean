import Elyra.Framework.Effects
import Elyra.Moment.Store

namespace Elyra.Moment

open Json

/-- Every file holds the rows written to it. -/
def Refines (s : Moments AppendFile) (t : Moments Written) : Prop :=
  ∀ file, Stores (s file) (t file)

theorem refines_start : Refines (start bytes) (start written) := fun _ => stores_empty

theorem Refines.update {s : Moments AppendFile} {t : Moments Written} (h : Refines s t)
    (file : File) {f : AppendFile} {w : Written} (hf : Stores f w) :
    Refines (Function.update s file f) (Function.update t file w) := by
  intro other
  by_cases ho : other = file
  · subst ho
    rw [Function.update_self, Function.update_self]
    exact hf
  · rw [Function.update_of_ne ho, Function.update_of_ne ho]
    exact h other

/-- Written files read as the rows written. -/
theorem Refines.rows {s : Moments AppendFile} {t : Moments Written} (h : Refines s t)
    (file : File) : bytes.rows (s file) = written.rows (t file) := by
  obtain ⟨cs, hdecode, hrows⟩ := (h file).reads.decode
  simp only [bytes, hdecode]
  exact congrArg Except.ok hrows

theorem simulates_check {α : Type} (r : Except Raised α) :
    Simulates Refines (check r) (check r) := by
  intro s t h
  cases r with
  | ok a => exact .ok a h
  | error e => exact .error e h

theorem simulates_readRows (file : File) :
    Simulates Refines (readRows bytes file) (readRows written file) := by
  intro s t h
  show Agree Refines (check (bytes.rows (s file)) s) (check (written.rows (t file)) t)
  rw [h.rows file]
  exact simulates_check _ s t h

theorem simulates_appendRow (file : File) (row : Row) :
    Simulates Refines (appendRow bytes file row) (appendRow written file row) :=
  simulates_modify (fun _ _ h => h.update file ((h file).append row.items))

theorem simulates_rewriteIndex (byId : Dict String Row) :
    Simulates Refines (rewriteIndex bytes byId) (rewriteIndex written byId) :=
  simulates_modify (fun _ _ h => h.update .index (stores_replaced _))

theorem simulates_loadIndexById :
    Simulates Refines (loadIndexById bytes) (loadIndexById written) :=
  simulates_bind (simulates_readRows .index) (fun _ => simulates_check _)

theorem simulates_openMoment (a : OpenArgs) (now : String) (fresh : MomentId) :
    Simulates Refines (openMoment bytes a now fresh) (openMoment written a now fresh) := by
  apply simulates_bind (simulates_check _)
  intro mid
  apply simulates_bind simulates_loadIndexById
  intro existing
  split_ifs
  · exact simulates_throw _
  · exact simulates_bind (simulates_appendRow _ _) (fun _ => simulates_pure _)

theorem simulates_getMoment (momentId : String) :
    Simulates Refines (getMoment bytes momentId) (getMoment written momentId) := by
  apply simulates_bind (simulates_check _)
  intro mid
  exact simulates_bind simulates_loadIndexById (fun _ => simulates_pure _)

theorem simulates_appendBeat (momentId : String) (beat : Row) (now : String) :
    Simulates Refines (appendBeat bytes momentId beat now)
      (appendBeat written momentId beat now) := by
  apply simulates_bind (simulates_check _)
  intro mid
  apply simulates_bind (simulates_getMoment mid.text)
  intro found
  cases found with
  | none => exact simulates_throw _
  | some row =>
    show Simulates Refines (if ended row then _ else _) (if ended row then _ else _)
    split_ifs
    · exact simulates_throw _
    · exact simulates_bind (simulates_check _) (fun _ => simulates_appendRow _ _)

theorem simulates_closeMoment (momentId stopReason : String) (hopCount : Option Int)
    (skillsUsed : Option (List String)) (now : String) :
    Simulates Refines (closeMoment bytes momentId stopReason hopCount skillsUsed now)
      (closeMoment written momentId stopReason hopCount skillsUsed now) := by
  apply simulates_bind (simulates_check _)
  intro mid
  apply simulates_bind (simulates_check _)
  intro reason
  apply simulates_bind simulates_loadIndexById
  intro byId
  cases byId.get? mid.text with
  | none => exact simulates_throw _
  | some row =>
    show Simulates Refines (if ended row then _ else _) (if ended row then _ else _)
    split_ifs
    · exact simulates_pure _
    · exact simulates_bind (simulates_rewriteIndex _) (fun _ => simulates_pure _)

theorem simulates_recoverOpenMoments (now : String) :
    Simulates Refines (recoverOpenMoments bytes now) (recoverOpenMoments written now) := by
  apply simulates_bind simulates_loadIndexById
  intro byId
  show Simulates Refines
    (if (recoverItems now byId byId.items).1 = [] then _ else _)
    (if (recoverItems now byId byId.items).1 = [] then _ else _)
  split_ifs
  · exact simulates_pure _
  · exact simulates_bind (simulates_rewriteIndex _) (fun _ => simulates_pure _)

theorem simulates_listOpenMoments :
    Simulates Refines (listOpenMoments bytes) (listOpenMoments written) :=
  simulates_bind simulates_loadIndexById (fun _ => simulates_pure _)

theorem simulates_listBeats (momentId : String) :
    Simulates Refines (listBeats bytes momentId) (listBeats written momentId) :=
  simulates_bind (simulates_check _) (fun _ => simulates_readRows _)

/-- Every call ends on the files as it ends on the rows written to them. -/
theorem simulates_exec (c : Call) : Simulates Refines (exec bytes c) (exec written c) := by
  cases c with
  | openMoment a now fresh =>
    exact simulates_bind (simulates_openMoment a now fresh) (fun _ => simulates_pure _)
  | appendBeat momentId beat now =>
    exact simulates_bind (simulates_appendBeat momentId beat now) (fun _ => simulates_pure _)
  | closeMoment momentId stopReason hopCount skillsUsed now =>
    exact simulates_bind (simulates_closeMoment momentId stopReason hopCount skillsUsed now)
      (fun _ => simulates_pure _)
  | recoverOpenMoments now =>
    exact simulates_bind (simulates_recoverOpenMoments now) (fun _ => simulates_pure _)
  | getMoment momentId =>
    exact simulates_bind (simulates_getMoment momentId) (fun _ => simulates_pure _)
  | listOpenMoments => exact simulates_bind simulates_listOpenMoments (fun _ => simulates_pure _)
  | listBeats momentId =>
    exact simulates_bind (simulates_listBeats momentId) (fun _ => simulates_pure _)

/-- A crash of the event leaves whole characters. -/
def AtCharacter (s : Moments AppendFile) : Event → Prop
  | .call _ => True
  | .crash file k => (s file).CutsBetween k

instance (s : Moments AppendFile) : ∀ e, Decidable (AtCharacter s e)
  | .call _ => isTrue trivial
  | .crash file k => inferInstanceAs (Decidable ((s file).CutsBetween k))

theorem Refines.step {s : Moments AppendFile} {t : Moments Written} (h : Refines s t) (e : Event)
    (he : AtCharacter s e) : Refines (stepEvent bytes s e) (stepEvent written t e) := by
  cases e with
  | call c => exact (simulates_exec c s t h).after
  | crash file k => exact h.update file ((h file).cut k he)

/-- While crashes leave whole characters, the files hold the rows written. -/
theorem Refines.run (events : List Event) {s : Moments AppendFile} {t : Moments Written}
    (h : Refines s t) (he : Along (stepEvent bytes) AtCharacter s events) :
    Refines (run (stepEvent bytes) s events) (run (stepEvent written) t events) := by
  induction events generalizing s t with
  | nil => exact h
  | cons e events ih => exact ih (h.step e he.1) he.2

end Elyra.Moment
