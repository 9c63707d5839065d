import Mathlib.Logic.Function.Basic
import Elyra.Framework.Faults

namespace Elyra.Tools

/-- The directories of one package that a swap handles: the live one, the new one, and where the
live one is put aside. -/
inductive Slot where
  | dest | stage | aside
  deriving DecidableEq

/-- What each directory holds, when it is there: the files of a package, its history included. -/
abbrev LocalDirs (F : Type) := Slot → Option (List F)

abbrev SwapM (F α : Type) := FileM (LocalDirs F) α

section Operations

variable {F : Type} [DecidableEq F]

def isThere (a : Slot) : SwapM F Bool := do
  let d ← look
  return (d a).isSome

def addFile (a : Slot) (f : F) (d : LocalDirs F) : LocalDirs F :=
  Function.update d a ((d a).map (· ++ [f]))

def removeFile (a : Slot) (f : F) (d : LocalDirs F) : LocalDirs F :=
  Function.update d a ((d a).map (·.erase f))

/-- A file that cannot be copied is noted, and the rest is copied. -/
def copyFiles (dst : Slot) : List F → Bool → SwapM F Bool
  | [], failed => return failed
  | f :: rest, failed => do
    let failed ← tryExcept (do operation (addFile dst f); return failed) fun _ => return true
    copyFiles dst rest failed

/-- `shutil.copytree` into a directory that is not there. -/
def copytree (src dst : Slot) : SwapM F Unit := do
  let d ← look
  operation id
  operation fun d => Function.update d dst (some [])
  let failed ← copyFiles dst ((d src).getD []) false
  if failed then raise .osError else return ()

def rmdir (a : Slot) : SwapM F Unit := do
  let d ← look
  if d a = some [] then operation fun d => Function.update d a none else raise .osError

def removeEach (a : Slot) : List F → SwapM F Unit
  | [] => rmdir a
  | f :: rest => do
    operation (removeFile a f)
    removeEach a rest

/-- `shutil.rmtree` -/
def rmtree (a : Slot) : SwapM F Unit := do
  let d ← look
  removeEach a ((d a).getD [])

def ignoring (m : SwapM F Unit) : SwapM F Unit := tryExcept m fun _ => return ()

def removeIgnoring (a : Slot) : List F → SwapM F Unit
  | [] => ignoring (rmdir a)
  | f :: rest => do
    ignoring (operation (removeFile a f))
    removeIgnoring a rest

/-- `shutil.rmtree(…, ignore_errors=True)` of what is there. -/
def rmtreeIgnoring (a : Slot) : SwapM F Unit := do
  let d ← look
  match d a with
  | none => return ()
  | some files => removeIgnoring a files

def moved (src dst : Slot) (d : LocalDirs F) : LocalDirs F :=
  Function.update (Function.update d dst (d src)) src none

variable (exdev : Slot → Slot → Bool)

/-- `_rename_path`: where the system answers `EXDEV`, the tree is copied and then removed. -/
def renamePath (src dst : Slot) : SwapM F Unit := do
  let d ← look
  if exdev src dst then
    if (d dst).isSome then raise .osError
    else
      copytree src dst
      rmtree src
  else if (d src).isNone ∨ (d dst).any (· ≠ []) then raise .osError
  else operation (moved src dst)

/-- The restoration of the live package when the new one could not be put in its place. -/
def recoverAside : SwapM F Unit :=
  ignoring do
    rmtreeIgnoring .dest
    renamePath exdev .aside .dest

def wholeTreeRenameSwap : SwapM F Unit := do
  if !(← isThere .dest) then renamePath exdev .stage .dest
  else do
    renamePath exdev .dest .aside
    tryExcept (renamePath exdev .stage .dest) fun e => do
      recoverAside exdev
      raise e
    ignoring (rmtree .aside)

/-- What `promote_draft_tool` and `revert_local_tool` do when the swap has raised. -/
def restoreLive : SwapM F Unit := do
  rmtreeIgnoring .stage
  let d ← look
  if (d .aside).isSome ∧ (d .dest).isNone then ignoring (renamePath exdev .aside .dest)
  else return ()

/-- The swap in `promote_draft_tool` and `revert_local_tool`: whether it went through. -/
def swapLive : SwapM F Bool := do
  let swapped ← tryExcept (do wholeTreeRenameSwap exdev; return true) fun _ => do
    restoreLive exdev
    return false
  if swapped then rmtreeIgnoring .stage
  return swapped

end Operations

section Specs

variable {F : Type} [DecidableEq F]

/-- All directories but one are as before. -/
def Off (a : Slot) (d d' : LocalDirs F) : Prop := ∀ c, c ≠ a → d' c = d c

omit [DecidableEq F] in
theorem Off.refl (a : Slot) (d : LocalDirs F) : Off a d d := fun _ _ => rfl

omit [DecidableEq F] in
theorem off_update (a : Slot) (x : Option (List F)) (d : LocalDirs F) :
    Off a d (Function.update d a x) := fun _ hc => Function.update_of_ne hc _ _

omit [DecidableEq F] in
theorem Off.trans {a : Slot} {d d' d'' : LocalDirs F} (h : Off a d d') (h' : Off a d' d'') :
    Off a d d'' := fun c hc => (h' c hc).trans (h c hc)

omit [DecidableEq F] in
/-- An operation on one directory. -/
theorem triple_update {a : Slot} {f : LocalDirs F → LocalDirs F} (d : LocalDirs F)
    (hf : Off a d (f d)) :
    Triple (· = d) (operation f) (fun _ d' => d' = f d ∧ Off a d d') fun _ d' => Off a d d' :=
  triple_operation f (fun _ hd => by rw [hd]; exact ⟨rfl, hf⟩) (fun _ hd => hd ▸ Off.refl a d)
    fun _ hd => hd ▸ Off.refl a d

omit [DecidableEq F] in
/-- The copy is whole when no file of it failed. -/
theorem copyFiles_triple (dst : Slot) (files : List F) (failed : Bool) (d : LocalDirs F)
    (done : List F) (hd : d dst = some done) :
    Triple (· = d) (copyFiles dst files failed)
      (fun failed' d' => Off dst d d' ∧
        (failed' = false → failed = false ∧ d' dst = some (done ++ files)))
      fun _ d' => Off dst d d' := by
  induction files generalizing failed d done with
  | nil =>
    apply triple_pure
    rintro d' rfl
    exact ⟨Off.refl dst d', fun h => ⟨h, by rw [hd, List.append_nil]⟩⟩
  | cons f rest ih =>
    have hadd : addFile dst f d dst = some (done ++ [f]) := by
      rw [addFile, Function.update_self, hd]
      rfl
    have hoff : Off dst d (addFile dst f d) := off_update dst _ d
    apply triple_bind (Q := fun failed' d' =>
      failed' = failed ∧ d' = addFile dst f d ∨ failed' = true ∧ d' = d)
    · apply triple_tryExcept (F := fun _ d' => d' = d)
      · apply triple_bind (Q := fun _ d' => d' = addFile dst f d)
        · exact triple_operation _ (fun _ h => h ▸ rfl) (fun _ h => h) fun _ h => h
        · intro _
          exact triple_pure _ fun d' h => .inl ⟨rfl, h⟩
      · rintro d' rfl
        exact Off.refl dst d'
      · intro e
        exact triple_pure _ fun d' h => .inr ⟨rfl, h⟩
    · intro failed'
      apply triple_each
      rintro d' (⟨rfl, rfl⟩ | ⟨rfl, rfl⟩)
      · apply (ih failed' _ (done ++ [f]) hadd).weaken
        · exact fun _ h => h
        · rintro r d' ⟨hrest, hdone⟩
          refine ⟨hoff.trans hrest, fun hr => ?_⟩
          obtain ⟨hfailed, hcopied⟩ := hdone hr
          exact ⟨hfailed, by rw [hcopied, List.append_assoc]; rfl⟩
        · exact fun _ d' h => hoff.trans h
      · apply (ih true d' done hd).weaken
        · exact fun _ h => h
        · rintro r d'' ⟨hrest, hdone⟩
          exact ⟨hrest, fun hr => absurd (hdone hr).1.symm Bool.false_ne_true⟩
        · exact fun _ _ h => h

omit [DecidableEq F] in
theorem copytree_triple (src dst : Slot) (d : LocalDirs F) (files : List F)
    (hd : d src = some files) :
    Triple (· = d) (copytree src dst) (fun _ d' => d' dst = some files ∧ Off dst d d')
      fun _ d' => Off dst d d' := by
  apply triple_look_bind
  rintro d rfl
  apply triple_bind (Q := fun _ d' => d' = d)
  · exact triple_operation _ (fun _ h => h) (fun _ h => h ▸ Off.refl dst d)
      fun _ h => h ▸ Off.refl dst d
  intro _
  apply triple_bind (triple_update (a := dst) d (off_update dst (some []) d))
  intro _
  apply triple_each
  rintro d' ⟨rfl, hoff⟩
  rw [hd]
  apply triple_bind ((copyFiles_triple dst files false _ [] (Function.update_self ..)).weaken
    (fun _ h => h) (fun _ _ h => h) fun _ _ h => hoff.trans h)
  intro failed
  apply triple_each
  rintro d' ⟨hrest, hdone⟩
  cases failed with
  | true => exact triple_raise _ fun _ h => h ▸ hoff.trans hrest
  | false => exact triple_pure _ fun _ h => h ▸ ⟨(hdone rfl).2, hoff.trans hrest⟩

theorem rmdir_triple (a : Slot) (d : LocalDirs F) :
    Triple (· = d) (rmdir a) (fun _ d' => d' a = none ∧ Off a d d') fun _ d' => Off a d d' := by
  apply triple_look_bind
  rintro d rfl
  apply triple_ite
  · intro _
    apply (triple_update (a := a) d (off_update a none d)).weaken
    · exact fun _ h => h
    · rintro _ _ ⟨rfl, hoff⟩
      exact ⟨Function.update_self .., hoff⟩
    · exact fun _ _ h => h
  · exact fun _ => triple_raise _ fun _ h => h ▸ Off.refl a d

theorem removeEach_triple (a : Slot) (files : List F) (d : LocalDirs F) :
    Triple (· = d) (removeEach a files) (fun _ d' => d' a = none ∧ Off a d d')
      fun _ d' => Off a d d' := by
  induction files generalizing d with
  | nil => exact rmdir_triple a d
  | cons f rest ih =>
    apply triple_bind (triple_update (a := a) (f := removeFile a f) d (off_update a _ d))
    intro _
    apply triple_each
    rintro d' ⟨-, hoff⟩
    exact (ih d').weaken (fun _ h => h) (fun _ _ h => ⟨h.1, hoff.trans h.2⟩)
      fun _ _ h => hoff.trans h

theorem rmtree_triple (a : Slot) (d : LocalDirs F) :
    Triple (· = d) (rmtree a) (fun _ d' => d' a = none ∧ Off a d d') fun _ d' => Off a d d' := by
  apply triple_look_bind
  rintro d rfl
  exact removeEach_triple a _ d

omit [DecidableEq F] in
/-- Only a death gets out of it. -/
theorem ignoring_triple {P : LocalDirs F → Prop} {Q : Unit → LocalDirs F → Prop}
    {R : LocalDirs F → Prop} {m : SwapM F Unit} (hm : Triple P m Q fun _ => R)
    (hq : ∀ d, Q () d → R d) :
    Triple P (ignoring m) (fun _ => R) fun e d => e = .died ∧ R d := by
  apply triple_tryExcept (F := fun _ => R)
  · exact hm.weaken (fun _ h => h) (fun _ d h => hq d h) fun _ _ h => h
  · exact fun d h => ⟨rfl, h⟩
  · exact fun e => triple_pure _ fun _ h => h

theorem removeIgnoring_triple (a : Slot) (files : List F) (d : LocalDirs F) :
    Triple (· = d) (removeIgnoring a files) (fun _ d' => Off a d d')
      fun e d' => e = .died ∧ Off a d d' := by
  induction files generalizing d with
  | nil => exact ignoring_triple (rmdir_triple a d) fun _ h => h.2
  | cons f rest ih =>
    apply triple_bind (ignoring_triple
      (triple_update (a := a) (f := removeFile a f) d (off_update a _ d)) fun _ h => h.2)
    intro _
    apply triple_each
    intro d' hoff
    exact (ih d').weaken (fun _ h => h) (fun _ _ h => hoff.trans h)
      fun _ _ h => ⟨h.1, hoff.trans h.2⟩

theorem rmtreeIgnoring_triple (a : Slot) (d : LocalDirs F) :
    Triple (· = d) (rmtreeIgnoring a)
      (fun _ d' => Off a d d' ∧ (d a = none → d' = d))
      fun e d' => e = .died ∧ Off a d d' ∧ d a ≠ none := by
  apply triple_look_bind
  rintro d rfl
  cases h : d a with
  | none =>
    apply triple_pure
    rintro d' rfl
    exact ⟨Off.refl a d', fun _ => rfl⟩
  | some files =>
    exact (removeIgnoring_triple a files d).weaken (fun _ hd => hd)
      (fun _ _ hoff => ⟨hoff, fun hn => absurd hn (Option.some_ne_none files)⟩)
      fun _ _ he => ⟨he.1, he.2, Option.some_ne_none files⟩

variable {exdev : Slot → Slot → Bool}

variable (exdev) in
/-- A rename that does not go through leaves the tree whole in one of the two places, and changes
nothing when it needs no copy. -/
theorem renamePath_triple (src dst : Slot) (hne : src ≠ dst) (d : LocalDirs F) {files : List F}
    (hsrc : d src = some files) :
    Triple (· = d) (renamePath exdev src dst)
      (fun _ d' => d' dst = some files ∧ d' src = none ∧ ∀ c, c ≠ src → c ≠ dst → d' c = d c)
      fun _ d' => (d' src = some files ∨ d' dst = some files) ∧
        (∀ c, c ≠ src → c ≠ dst → d' c = d c) ∧ (exdev src dst = false → d' = d) := by
  have hsame : (d src = some files ∨ d dst = some files) ∧
      (∀ c, c ≠ src → c ≠ dst → d c = d c) ∧ (exdev src dst = false → d = d) :=
    ⟨.inl hsrc, fun _ _ _ => rfl, fun _ => rfl⟩
  apply triple_look_bind
  rintro d rfl
  apply triple_ite
  · intro hdev
    have hcopy : ¬exdev src dst = false := by rw [hdev]; exact Bool.noConfusion
    apply triple_ite
    · exact fun _ => triple_raise _ fun _ h => h ▸ hsame
    · intro _
      apply triple_bind ((copytree_triple src dst d files hsrc).weaken (fun _ h => h)
        (fun _ _ h => h) fun _ d' hoff =>
          ⟨.inl ((hoff src hne).trans hsrc), fun c _ hc => hoff c hc, fun h => absurd h hcopy⟩)
      intro _
      apply triple_each
      rintro d' ⟨hdst, hoff⟩
      apply (rmtree_triple src d').weaken
      · exact fun _ h => h
      · rintro _ d'' ⟨hgone, hrest⟩
        exact ⟨(hrest dst (Ne.symm hne)).trans hdst, hgone,
          fun c hc hc' => (hrest c hc).trans (hoff c hc')⟩
      · intro _ d'' hrest
        exact ⟨.inr ((hrest dst (Ne.symm hne)).trans hdst),
          fun c hc hc' => (hrest c hc).trans (hoff c hc'), fun h => absurd h hcopy⟩
  · intro _
    apply triple_ite
    · exact fun _ => triple_raise _ fun _ h => h ▸ hsame
    · intro _
      apply triple_operation
      · rintro _ rfl
        refine ⟨?_, Function.update_self .., ?_⟩
        · rw [moved, Function.update_of_ne (Ne.symm hne), Function.update_self, hsrc]
        · intro c hc hc'
          rw [moved, Function.update_of_ne hc, Function.update_of_ne hc']
      · exact fun _ h => h ▸ hsame
      · exact fun _ h => h ▸ hsame

end Specs

section Swap

variable {F : Type} [DecidableEq F] {exdev : Slot → Slot → Bool} {old new : List F}

/-- The old package is whole, live or aside. -/
def Kept (old : List F) (d : LocalDirs F) : Prop := d .dest = some old ∨ d .aside = some old

/-- Where no rename needs a copy, the old package is live, or nothing is and it stands aside. -/
def Intact (exdev : Slot → Slot → Bool) (old : List F) (d : LocalDirs F) : Prop :=
  (∀ a b, exdev a b = false) → d .dest = some old ∨ d .dest = none ∧ d .aside = some old

/-- A package is live as a whole, the old or the new one, or none is. -/
def Unhollow (exdev : Slot → Slot → Bool) (old new : List F) (d : LocalDirs F) : Prop :=
  (∀ a b, exdev a b = false) → d .dest = none ∨ d .dest = some old ∨ d .dest = some new

omit [DecidableEq F] in
theorem Intact.unhollow {d : LocalDirs F} (h : Intact exdev old d) : Unhollow exdev old new d :=
  fun hplain => (h hplain).elim (fun hold => .inr (.inl hold)) fun hnone => .inl hnone.1

/-- The live package is put back from aside, or stays there. -/
theorem backAside_triple (d : LocalDirs F) (haside : d .aside = some old) :
    Triple (· = d) (renamePath exdev .aside .dest)
      (fun _ d' => Kept old d' ∧ (d .dest = none → Intact exdev old d'))
      fun _ d' => Kept old d' ∧ (d .dest = none → Intact exdev old d') := by
  apply (renamePath_triple exdev .aside .dest (by decide) d haside).weaken
  · exact fun _ h => h
  · rintro _ d' ⟨hdest, -⟩
    exact ⟨.inl hdest, fun _ _ => .inl hdest⟩
  · rintro e d' ⟨hwhere, -, hsame⟩
    refine ⟨hwhere.symm, fun hnone hplain => ?_⟩
    rw [hsame (hplain _ _)]
    exact .inr ⟨hnone, haside⟩

theorem recoverAside_triple (d : LocalDirs F) (haside : d .aside = some old) :
    Triple (· = d) (recoverAside exdev)
      (fun _ d' => Kept old d' ∧ (d .dest = none → Intact exdev old d'))
      fun e d' => e = .died ∧ Kept old d' ∧ (d .dest = none → Intact exdev old d') := by
  apply ignoring_triple
    (Q := fun _ d' => Kept old d' ∧ (d .dest = none → Intact exdev old d'))
  · apply triple_bind ((rmtreeIgnoring_triple .dest d).weaken (fun _ h => h) (fun _ _ h => h) ?_)
    · intro _
      apply triple_each
      rintro d' ⟨hoff, hsame⟩
      have haside' : d' .aside = some old := (hoff .aside (by decide)).trans haside
      apply (backAside_triple d' haside').weaken
      · exact fun _ h => h
      · exact fun _ _ h => ⟨h.1, fun hnone => h.2 (by rw [hsame hnone]; exact hnone)⟩
      · exact fun _ _ h => ⟨h.1, fun hnone => h.2 (by rw [hsame hnone]; exact hnone)⟩
    · rintro e d' ⟨-, hoff, hthere⟩
      exact ⟨.inr ((hoff .aside (by decide)).trans haside), fun hnone => absurd hnone hthere⟩
  · exact fun _ h => h

/-- From a live package: the new one is live in the end, or the call raises and the old one is
kept; where the process dies, one of the two is whole. -/
theorem wholeTreeRenameSwap_triple (d : LocalDirs F) (hdest : d .dest = some old)
    (hstage : d .stage = some new) :
    Triple (· = d) (wholeTreeRenameSwap exdev) (fun _ d' => d' .dest = some new)
      fun e d' => Kept old d' ∧ Intact exdev old d' ∨ e = .died ∧ d' .dest = some new := by
  apply triple_bind (Q := fun there d' => there = true ∧ d' = d)
  · apply triple_look_bind
    rintro d rfl
    rw [hdest]
    exact triple_pure _ fun _ h => ⟨rfl, h⟩
  intro there
  apply triple_each
  rintro d' ⟨rfl, rfl⟩
  rw [Bool.not_true, if_neg Bool.false_ne_true]
  apply triple_bind ((renamePath_triple exdev .dest .aside (by decide) d' hdest).weaken
    (fun _ h => h) (fun _ _ h => h) ?_)
  · intro _
    apply triple_each
    rintro d₁ ⟨haside, hnone, hrest⟩
    have hstage₁ : d₁ .stage = some new := (hrest .stage (by decide) (by decide)).trans hstage
    apply triple_bind (Q := fun _ d₂ => d₂ .dest = some new)
    · apply triple_tryExcept (F := fun _ d₂ => Kept old d₂ ∧ Intact exdev old d₂ ∧
        d₂ .aside = some old ∧ (d₂ .dest ≠ none → ¬∀ a b, exdev a b = false))
      · apply (renamePath_triple exdev .stage .dest (by decide) d₁ hstage₁).weaken
        · exact fun _ h => h
        · exact fun _ _ h => h.1
        · rintro e d₂ ⟨-, hrest₂, hsame⟩
          have haside₂ : d₂ .aside = some old :=
            (hrest₂ .aside (by decide) (by decide)).trans haside
          have hplain₂ (hplain : ∀ a b, exdev a b = false) : d₂ .dest = none := by
            rw [hsame (hplain _ _)]
            exact hnone
          exact ⟨.inr haside₂, fun hplain => .inr ⟨hplain₂ hplain, haside₂⟩, haside₂,
            fun hthere hplain => hthere (hplain₂ hplain)⟩
      · exact fun _ h => .inl ⟨h.1, h.2.1⟩
      · intro e
        apply triple_each
        rintro d₂ ⟨-, -, haside₂, hhollow⟩
        have hintact {d₃ : LocalDirs F} (h : d₂ .dest = none → Intact exdev old d₃) :
            Intact exdev old d₃ := by
          intro hplain
          by_cases hnone₂ : d₂ .dest = none
          · exact h hnone₂ hplain
          · exact absurd hplain (hhollow hnone₂)
        apply triple_bind ((recoverAside_triple d₂ haside₂).weaken (fun _ h => h) (fun _ _ h => h)
          fun _ _ h => .inl ⟨h.2.1, hintact h.2.2⟩)
        intro _
        exact triple_raise _ fun _ h => .inl ⟨h.1, hintact h.2⟩
    · intro _
      apply triple_each
      intro d₂ hnew
      have hkeep {d₃ : LocalDirs F} (hoff : Off .aside d₂ d₃) : d₃ .dest = some new :=
        (hoff .dest (by decide)).trans hnew
      exact (ignoring_triple (rmtree_triple .aside d₂) fun _ h => h.2).weaken (fun _ h => h)
        (fun _ _ h => hkeep h) fun _ _ h => .inr ⟨h.1, hkeep h.2⟩
  · rintro e d₁ ⟨hwhere, -, hsame⟩
    refine .inl ⟨hwhere, fun hplain => .inl ?_⟩
    rw [hsame (hplain _ _)]
    exact hdest

theorem restoreLive_triple (d : LocalDirs F) (hkept : Kept old d) (hintact : Intact exdev old d) :
    Triple (· = d) (restoreLive exdev) (fun _ d' => Kept old d' ∧ Intact exdev old d')
      fun e d' => e = .died ∧ Kept old d' ∧ Intact exdev old d' := by
  have hoffKept {d' : LocalDirs F} (hoff : Off .stage d d') :
      Kept old d' ∧ Intact exdev old d' := by
    unfold Kept Intact
    rw [hoff .dest (by decide), hoff .aside (by decide)]
    exact ⟨hkept, hintact⟩
  apply triple_bind ((rmtreeIgnoring_triple .stage d).weaken (fun _ h => h)
    (fun _ _ h => hoffKept h.1) fun _ _ h => ⟨h.1, hoffKept h.2.1⟩)
  intro _
  apply triple_look_bind
  rintro d' ⟨hkept', hintact'⟩
  apply triple_ite
  · rintro ⟨-, hnone⟩
    have hdest : d' .dest = none := Option.isNone_iff_eq_none.mp hnone
    have haside : d' .aside = some old := by
      obtain hlive | haside := hkept'
      · rw [hdest] at hlive
        cases hlive
      · exact haside
    exact (ignoring_triple (backAside_triple d' haside) fun _ h => h).weaken (fun _ h => h)
      (fun _ _ h => ⟨h.1, h.2 hdest⟩) fun _ _ h => ⟨h.1, h.2.1, h.2.2 hdest⟩
  · exact fun _ => triple_pure _ fun _ h => h ▸ ⟨hkept', hintact'⟩

/-- How a promotion or a revert ends for the live package. -/
def Swapped (exdev : Slot → Slot → Bool) (old new : List F) :
    EStateM.Result Fault (Faulty (LocalDirs F)) Bool → Prop
  | .ok true s => s.disk .dest = some new
  | .ok false s => Kept old s.disk ∧ Intact exdev old s.disk
  | .error _ s => (Kept old s.disk ∨ s.disk .dest = some new) ∧ Unhollow exdev old new s.disk

/-- Whatever is refused and wherever the process dies, no package is lost by a swap: a call that
says it went through leaves the new one live, another one the old one whole, live or aside; and
where no rename needs a copy, what is live is whole at every point. -/
theorem swap_keeps_package (d : LocalDirs F) (hdest : d .dest = some old)
    (hstage : d .stage = some new) (plan : List Outcome) :
    Swapped exdev old new (swapLive exdev ⟨d, plan⟩) := by
  have hspec : Triple (· = d) (swapLive exdev)
      (fun swapped d' => if swapped then d' .dest = some new else Kept old d' ∧ Intact exdev old d')
      fun _ d' => (Kept old d' ∨ d' .dest = some new) ∧ Unhollow exdev old new d' := by
    apply triple_bind (Q := fun swapped d' =>
      if swapped then d' .dest = some new else Kept old d' ∧ Intact exdev old d')
    · apply triple_tryExcept (F := fun e d' => Kept old d' ∧ Intact exdev old d' ∨
        e = .died ∧ d' .dest = some new)
      · apply triple_bind (wholeTreeRenameSwap_triple d hdest hstage)
        intro _
        exact triple_pure _ fun _ h => h
      · rintro d' (⟨hkept, hintact⟩ | ⟨-, hnew⟩)
        · exact ⟨.inl hkept, hintact.unhollow⟩
        · exact ⟨.inr hnew, fun _ => .inr (.inr hnew)⟩
      · intro e
        apply triple_each
        rintro d' (⟨hkept, hintact⟩ | ⟨hdied, -⟩)
        · apply triple_bind ((restoreLive_triple d' hkept hintact).weaken (fun _ h => h)
            (fun _ _ h => h) fun _ _ h => ⟨.inl h.2.1, h.2.2.unhollow⟩)
          intro _
          exact triple_pure _ fun _ h => h
        · cases hdied
    · intro swapped
      apply triple_each
      intro d' hswapped
      cases swapped with
      | false => exact triple_pure _ fun _ h => h ▸ hswapped
      | true =>
        have hkeep {d'' : LocalDirs F} (hoff : Off .stage d' d'') : d'' .dest = some new :=
          (hoff .dest (by decide)).trans hswapped
        apply triple_bind ((rmtreeIgnoring_triple .stage d').weaken (fun _ h => h)
          (fun _ _ h => hkeep h.1)
          fun _ _ h => ⟨.inr (hkeep h.2.1), fun _ => .inr (.inr (hkeep h.2.1))⟩)
        intro _
        exact triple_pure _ fun _ h => h
  have hrun := hspec ⟨d, plan⟩ rfl
  cases h : swapLive exdev ⟨d, plan⟩ with
  | ok swapped s =>
    rw [h] at hrun
    cases swapped with
    | true => exact hrun
    | false => exact hrun
  | error e s =>
    rw [h] at hrun
    exact hrun

def installed : LocalDirs Nat
  | .dest => some [1, 2]
  | .stage => some [3, 4]
  | .aside => none

/-- The second rename is refused, and the old package is put back. -/
theorem swap_keeps_package_refused :
    Swapped (fun _ _ => false) [1, 2] [3, 4]
      (swapLive (fun _ _ => false) ⟨installed, [.done, .raises]⟩) :=
  swap_keeps_package installed rfl rfl [.done, .raises]

-- A death during a copy leaves a part of the new package live.
example :
    (match swapLive (fun _ _ => true) ⟨installed, .replicate 10 .done ++ [.dies]⟩ with
      | .ok _ s => s.disk .dest
      | .error _ s => s.disk .dest) = some [3] := by
  decide

end Swap
end Elyra.Tools
