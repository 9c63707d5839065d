import Elyra.Memory.Promote
import Elyra.Memory.StoreCores

namespace Elyra.Memory

open Fallible

/-- A promotion step that depends on the cores only and puts no ladder atom. -/
def ReadsCores {α : Type} (Q : α → Prop) (m : Promoter α) : Prop := Fallible.Blind Weaves Alike Q m

section Calls

variable {β : Type}

theorem except_map_error {f : β → β} (e : PyErr) (r : Except PyErr β)
    (h : (Except.error e : Except PyErr β).map f = r.map f ∨
      r.map f = (Except.error e : Except PyErr β).map f) : r = .error e := by
  cases r with
  | error d => obtain h | h := h <;> cases h <;> rfl
  | ok b => obtain h | h := h <;> cases h

theorem readsCores_put (a : Atom) (h : a.kind ≠ "summary") :
    ReadsCores (fun p => p.kind = a.kind) (put a) := by
  refine ⟨h, ?_, ?_⟩
  · intro r r' hr
    rw [hr.1]
  · intro r hr p hp
    exact hr.2 p hp

theorem readsCores_tryPutAtom (a : Atom) (h : a.kind ≠ "summary") :
    ReadsCores (fun row => ∀ p ∈ row, p.kind = a.kind) (tryPutAtom a) := by
  apply blind_catch
  · apply blind_bind (readsCores_put a h)
    intro p hp
    apply blind_pure
    intro q hq
    rw [← Option.mem_some_iff.mp hq]
    exact hp
  · intro e
    apply blind_pure
    intro q hq
    cases hq

theorem tail_alike (r r' : Option Atom) (h : (Except.ok r : Except PyErr (Option Atom)).map
    (Option.map Atom.core) = (Except.ok r').map (Option.map Atom.core)) :
    r.map Atom.atomId = r'.map Atom.atomId := by
  have hcore : r.map Atom.core = r'.map Atom.core := Except.ok.inj h
  have hid (o : Option Atom) : o.map Atom.atomId = (o.map Atom.core).map Atom.atomId := by
    rw [Option.map_map]
    rfl
  rw [hid r, hid r', hcore]

theorem readsCores_momentTailId (momentId : String) :
    ReadsCores (fun _ => True) (momentTailId momentId) :=
  blind_view trivial tail_alike (fun e r => except_map_error e r) (fun _ _ => trivial)

theorem readsCores_globalTailId : ReadsCores (fun _ => True) globalTailId :=
  blind_view trivial tail_alike (fun e r => except_map_error e r) (fun _ _ => trivial)

theorem readsCores_tailId (momentId : String) (linkAcrossMoments : Bool) :
    ReadsCores (fun _ => True) (tailId momentId linkAcrossMoments) := by
  apply blind_catch
  · apply blind_bind (readsCores_momentTailId momentId)
    intro row _
    cases row with
    | some a => exact blind_pure _ trivial
    | none =>
      cases linkAcrossMoments with
      | false => exact blind_pure _ trivial
      | true => exact readsCores_globalTailId
  · intro e
    exact blind_pure _ trivial

theorem readsCores_linkNext (prevId nextId : String) :
    ReadsCores (fun _ => True) (linkNext prevId nextId) := by
  refine ⟨trivial, ?_, ?_⟩
  · intro r r' _
    cases r <;> cases r' <;> rfl
  · intro r _
    cases r <;> exact fun _ _ => trivial

theorem readsCores_linkChild (prevId : Option String) (nextId : String) :
    ReadsCores (fun _ => True) (linkChild prevId nextId) := by
  cases prevId with
  | none => exact blind_pure _ trivial
  | some p => exact readsCores_linkNext p nextId

/-- A listing that is used through a test on cores only. -/
theorem readsCores_list (momentId : String) (kinds : Option (List String)) (limit : Option Int)
    (p : Atom → Bool) (hp : ∀ a, p a.core = p a) :
    ReadsCores (fun _ => True) (do
      let rows ← Fallible.perform (StoreCall.listByMoment momentId kinds limit)
      return List.any rows p) := by
  apply blind_view trivial
  · intro l l' h
    have hcore : l.map Atom.core = l'.map Atom.core := Except.ok.inj h
    have hany (m : List Atom) : m.any p = (m.map Atom.core).any p := by
      rw [List.any_map]
      congr 1
      funext a
      exact (hp a).symm
    rw [hany l, hany l', hcore]
  · intro e r
    exact except_map_error e r
  · intro _ _
    exact trivial

end Calls

section Promotion

variable [PyCoerce] [ContentHash] (settings : PromoteSettings) (out : Outside)

omit [PyCoerce] [ContentHash] in
theorem readsCores_linkAndPut (momentId : String) (a : Atom) (h : a.kind ≠ "summary") :
    ReadsCores (fun p => p.kind = a.kind) (linkAndPut settings momentId a) := by
  apply blind_bind (readsCores_tailId momentId settings.linkAcrossMoments)
  intro prev _
  cases prev with
  | none => exact readsCores_put _ h
  | some prevId =>
    apply blind_bind (readsCores_put _ h)
    intro stored hstored
    apply blind_bind (readsCores_linkNext prevId stored.atomId)
    intro _ _
    exact blind_pure _ hstored

omit [PyCoerce] [ContentHash] in
theorem chained_kind (prevId : Option String) (a : Atom) : (chained prevId a).kind = a.kind := by
  cases prevId <;> rfl

omit [PyCoerce] [ContentHash] in
theorem readsCores_putParcelChildren (children stored : List Atom) (prevId : Option String)
    (h : ∀ c ∈ children, c.kind ≠ "summary") (hs : ∀ c ∈ stored, c.kind ≠ "summary") :
    ReadsCores (fun rows => ∀ c ∈ rows, c.kind ≠ "summary")
      (putParcelChildren settings children stored prevId) := by
  induction children generalizing stored prevId with
  | nil => exact blind_pure _ hs
  | cons child children ih =>
    have hchild : (chained prevId (withPromoteStatus settings child)).kind ≠ "summary" := by
      rw [chained_kind]
      exact h child (List.mem_cons_self ..)
    apply blind_bind (readsCores_tryPutAtom _ hchild)
    intro row hrow
    cases row with
    | none => exact blind_pure _ hs
    | some row =>
      apply blind_bind (readsCores_linkChild prevId row.atomId)
      intro _ _
      apply ih _ _ (fun c hc => h c (List.mem_cons_of_mem _ hc))
      intro c hc
      obtain hc | hc := List.mem_append.mp hc
      · exact hs c hc
      · rw [List.mem_singleton.mp hc, hrow row rfl]
        exact hchild

omit [PyCoerce] [ContentHash] in
theorem readsCores_reconcileChildren (plannedCount actual : Nat) (children : List Atom)
    (h : ∀ c ∈ children, c.kind ≠ "summary") :
    ReadsCores (fun _ => True) (reconcileChildren plannedCount actual children) := by
  induction children with
  | nil => exact blind_pure _ trivial
  | cons child children ih =>
    have hrewrite : ReadsCores (fun _ => True) (rewriteChild plannedCount actual child) := by
      rw [rewriteChild, reconciledChild]
      split_ifs
      · exact blind_pure _ trivial
      · apply blind_bind (readsCores_tryPutAtom _ (h child (List.mem_cons_self ..)))
        intro _ _
        exact blind_pure _ trivial
    apply blind_bind hrewrite
    intro _ _
    exact ih (fun c hc => h c (List.mem_cons_of_mem _ hc))

omit [PyCoerce] [ContentHash] in
theorem readsCores_reconcile (parent : Atom) (plannedCount : Nat) (children : List Atom)
    (hp : parent.kind ≠ "summary") (h : ∀ c ∈ children, c.kind ≠ "summary") :
    ReadsCores (fun _ => True) (reconcileParentParcelMeta parent plannedCount children) := by
  rw [reconcileParentParcelMeta]
  split_ifs
  · exact blind_pure _ trivial
  · apply blind_bind (readsCores_tryPutAtom (reconciledParent parent plannedCount children) hp)
    intro row _
    cases row with
    | none => exact blind_pure _ trivial
    | some row =>
      apply blind_bind (readsCores_reconcileChildren plannedCount children.length children h)
      intro _ _
      exact blind_pure _ trivial

omit [PyCoerce] [ContentHash] in
theorem makeParentAndParcels_kinds (d : Draft) (maxChars : Int) (newAtomId : Nat → String) :
    (makeParentAndParcels d maxChars newAtomId).1.kind = d.kind ∧
      ∀ c ∈ (makeParentAndParcels d maxChars newAtomId).2, c.kind = "parcel" := by
  rw [makeParentAndParcels]
  dsimp only
  split_ifs
  · exact ⟨rfl, fun c hc => absurd hc List.not_mem_nil⟩
  · refine ⟨rfl, ?_⟩
    intro c hc
    obtain ⟨i, hi, rfl⟩ := List.mem_mapIdx.mp hc
    rfl

omit [PyCoerce] [ContentHash] in
theorem readsCores_putTruncated (d : Draft) (h : d.kind ≠ "summary") :
    ReadsCores (fun _ => True) (putTruncated settings out d) :=
  (readsCores_linkAndPut settings d.momentId _ h).weaken fun _ _ => trivial

omit [PyCoerce] [ContentHash] in
theorem readsCores_putWithParcels (d : Draft) (h : d.kind ≠ "summary") :
    ReadsCores (fun _ => True) (putWithParcels settings out d) := by
  obtain ⟨hparent, hchildren⟩ :=
    makeParentAndParcels_kinds d (parcelThreshold settings) out.newAtomId
  rw [← hparent] at h
  have hkinds : ∀ c ∈ (makeParentAndParcels d (parcelThreshold settings) out.newAtomId).2,
      c.kind ≠ "summary" := by
    intro c hc
    rw [hchildren c hc]
    decide
  apply blind_bind (readsCores_linkAndPut settings d.momentId _ h)
  intro storedParent hstored
  show Fallible.Blind Weaves Alike _ (if _ then _ else _)
  split_ifs
  · exact blind_pure _ trivial
  · apply blind_bind (readsCores_putParcelChildren settings _ [] none hkinds
      (fun c hc => absurd hc List.not_mem_nil))
    intro storedChildren hrows
    have hparentKind : storedParent.kind ≠ "summary" := by
      rw [hstored]
      exact h
    exact readsCores_reconcile storedParent _ storedChildren hparentKind hrows

omit [PyCoerce] [ContentHash] in
theorem readsCores_linkAndPutWithParcels (d : Draft) (h : d.kind ≠ "summary") :
    ReadsCores (fun _ => True) (linkAndPutWithParcels settings out d) := by
  rw [linkAndPutWithParcels]
  split_ifs
  · exact blind_catch (readsCores_putWithParcels settings out d h)
      (fun _ => readsCores_putTruncated settings out d h)
  · exact readsCores_putTruncated settings out d h

omit [PyCoerce] [ContentHash] in
theorem readsCores_keySeen (momentId key : String) (state : Option PromoteState) :
    ReadsCores (fun _ => True) (keySeen momentId key state) := by
  rw [keySeen]
  split_ifs
  · exact blind_pure _ trivial
  · apply blind_catch
    · apply readsCores_list momentId none none
      intro a
      rw [Atom.core_metadata a "idempotency_key" (by decide)]
    · intro e
      exact blind_pure _ trivial

omit [PyCoerce] in
theorem sameObservation_core (chash mfp : String) (t0 : Int) (a : Atom) :
    sameObservation chash mfp t0 a.core = sameObservation chash mfp t0 a := by
  rw [sameObservation, sameObservation, Atom.core_metadata a "content_hash" (by decide),
    Atom.core_metadata a "media_fp" (by decide)]
  rfl

omit [PyCoerce] in
theorem readsCores_obsDedupeHit (momentId text : String) (mediaIds : List String)
    (tStart : String) :
    ReadsCores (fun _ => True) (obsDedupeHit out momentId text mediaIds tStart) := by
  apply blind_catch
  · exact readsCores_list momentId (some ["observation"]) none _ (sameObservation_core _ _ _)
  · intro e
    exact blind_pure _ trivial

omit [PyCoerce] [ContentHash] in
theorem readsCores_promoteOnce (d : Draft) (key : String) (state : Option PromoteState)
    (h : d.kind ≠ "summary") :
    ReadsCores (fun _ => True) (promoteOnce settings out d key state) := by
  apply blind_bind (readsCores_keySeen d.momentId key state)
  intro seen _
  cases seen with
  | true => exact blind_pure _ trivial
  | false =>
    apply blind_bind (readsCores_linkAndPutWithParcels settings out d h)
    intro _ _
    exact blind_pure _ trivial

omit [PyCoerce] in
theorem readsCores_promoteFresh (d : Draft) (key : String) (state : Option PromoteState)
    (h : d.kind ≠ "summary") :
    ReadsCores (fun _ => True) (promoteFresh settings out d key state) := by
  apply blind_bind (readsCores_obsDedupeHit out d.momentId d.rawText d.mediaIds d.tStart)
  intro hit _
  cases hit with
  | true => exact blind_pure _ trivial
  | false => exact readsCores_promoteOnce settings out d key state h

variable (momentId : String) (beat : Beat) (state : Option PromoteState)

section Beats

-- What a goal says of a program is not evaluated along the program.
attribute [local irreducible] Program.Blind

omit [PyCoerce] [ContentHash] in
/-- Work that starts from the time of the beat. -/
theorem readsCores_beatTs {α : Type} (f : String → Promoter α)
    (h : ∀ tStart, ReadsCores (fun _ => True) (f tStart)) :
    ReadsCores (fun _ => True) ((liftM (beatTs out beat) : Promoter String) >>= f) :=
  blind_bind (blind_lift (Q := fun _ => True) _ fun _ _ => trivial) (fun tStart _ => h tStart)

theorem readsCores_promoteSpeak :
    ReadsCores (fun _ => True) (promoteSpeak settings out momentId beat state) :=
  readsCores_beatTs out beat _ fun _ =>
    readsCores_promoteOnce settings out _ _ state (by decide : "speak" ≠ "summary")

theorem readsCores_promoteLedger :
    ReadsCores (fun _ => True) (promoteLedger settings out momentId beat state) :=
  readsCores_beatTs out beat _ fun _ =>
    readsCores_promoteOnce settings out _ _ state (by decide : "ledger" ≠ "summary")

omit [PyCoerce] in
theorem readsCores_promoteToolOk (name content tStart : String) :
    ReadsCores (fun _ => True)
      (promoteToolOk settings out momentId beat name content tStart state) := by
  apply blind_bind (readsCores_keySeen momentId _ state)
  intro seen _
  cases seen with
  | true => exact blind_pure _ trivial
  | false =>
    apply blind_bind (readsCores_linkAndPut settings momentId _ (by decide : "tool" ≠ "summary"))
    intro _ _
    exact blind_pure _ trivial

omit [PyCoerce] in
theorem readsCores_promoteToolFailed (name content tStart : String) :
    ReadsCores (fun _ => True)
      (promoteToolFailed settings out momentId beat name content tStart state) := by
  apply blind_bind
    (readsCores_promoteOnce settings out _ _ state (by decide : "tool" ≠ "summary"))
  intro _ _
  exact blind_pure _ trivial

theorem readsCores_promoteTool :
    ReadsCores (fun _ => True) (promoteTool settings out momentId beat state) := by
  rw [promoteTool]
  split_ifs
  · exact blind_pure _ trivial
  · exact blind_pure _ trivial
  · exact readsCores_beatTs out beat _ fun tStart =>
      readsCores_promoteToolOk settings out momentId beat state _ _ tStart
  · exact readsCores_beatTs out beat _ fun tStart =>
      readsCores_promoteToolFailed settings out momentId beat state _ _ tStart

theorem readsCores_promoteModel :
    ReadsCores (fun _ => True) (promoteModel settings out momentId beat state) := by
  rw [promoteModel]
  split_ifs
  · exact blind_pure _ trivial
  · exact readsCores_beatTs out beat _ fun _ =>
      readsCores_promoteOnce settings out _ _ state (by decide : "model" ≠ "summary")

theorem readsCores_promoteInterjection :
    ReadsCores (fun _ => True) (promoteInterjection settings out momentId beat state) := by
  rw [promoteInterjection]
  split_ifs
  · exact blind_pure _ trivial
  · exact readsCores_beatTs out beat _ fun _ =>
      readsCores_promoteFresh settings out _ _ state (by decide : "observation" ≠ "summary")

theorem readsCores_promoteByType :
    ReadsCores (fun _ => True) (promoteByType settings out momentId beat state) := by
  rw [promoteByType]
  split_ifs
  · split
    · exact readsCores_promoteInterjection settings out momentId beat state
    · exact blind_pure _ trivial
  · exact readsCores_promoteSpeak settings out momentId beat state
  · exact readsCores_promoteLedger settings out momentId beat state
  · exact readsCores_promoteTool settings out momentId beat state
  · exact readsCores_promoteModel settings out momentId beat state
  · exact blind_pure _ trivial

end Beats

/-- A program that depends on the cores only and puts no ladder atom. -/
def CoreProgram {α : Type} (p : StoreProgram α) : Prop :=
  Program.Blind Weaves Alike (fun _ => True) p

omit [PyCoerce] [ContentHash] in
theorem coreProgram_ite {α : Type} (c : Prop) [Decidable c] {p q : StoreProgram α}
    (hp : CoreProgram p) (hq : CoreProgram q) : CoreProgram (if c then p else q) := by
  by_cases h : c
  · rw [if_pos h]
    exact hp
  · rw [if_neg h]
    exact hq

omit [PyCoerce] [ContentHash] in
theorem coreProgram_soft {m : Promoter Promoted} (hm : ReadsCores (fun _ => True) m) :
    CoreProgram (soft state m) := by
  apply Program.blind_bind hm
  intro r _
  cases r <;> exact trivial

theorem coreProgram_promoteBeat :
    CoreProgram (promoteBeat settings out momentId beat state) := by
  apply coreProgram_ite
  · exact trivial
  · exact coreProgram_soft state (readsCores_promoteByType settings out momentId beat state)

omit [PyCoerce] in
theorem coreProgram_promoteWakeObservation (content messageId : Option String)
    (mediaIds : List String) (whyNow : String) :
    CoreProgram (promoteWakeObservation settings out momentId content messageId mediaIds
      whyNow) := by
  apply coreProgram_ite
  · exact trivial
  · exact coreProgram_soft none (readsCores_promoteFresh settings out _ _ none
      (by decide : "observation" ≠ "summary"))

omit [PyCoerce] in
theorem coreProgram_promoteViewObservation (mediaIds : List String)
    (note sourceUrl : Option String) :
    CoreProgram (promoteViewObservation settings out momentId mediaIds note sourceUrl) := by
  apply coreProgram_ite
  · exact trivial
  · exact coreProgram_soft none (readsCores_promoteOnce settings out _ _ none
      (by decide : "observation" ≠ "summary"))

end Promotion
end Elyra.Memory
