import Elyra.Loop.ToolChain

namespace Elyra.Loop

/-- The part of the state that bounds the injected lines. -/
structure NudgeView where
  spoke : Bool
  noSpeakSent : Bool
  answerSpeakSent : Bool
  skillCommitSent : Bool
  workContinues : Nat
  thrashHosts : Nat
  deriving DecidableEq

def LoopState.view (s : LoopState) : NudgeView :=
  ⟨s.spoke, s.noSpeakNudgeSent, s.answerSpeakNudgeSent, s.skillCommitSent,
    s.workContinueInjects, s.thrashHostSent⟩

def NudgeView.afterNudge (v : NudgeView) : Nudge → NudgeView
  | .skillCommit => { v with skillCommitSent := true }
  | .noSpeak => { v with noSpeakSent := true }
  | .answerSpeak => { v with answerSpeakSent := true }
  | .workContinue => { v with workContinues := v.workContinues + 1 }

/-- A batch can only add a speak and thrash lines. -/
def NudgeView.afterTools (v : NudgeView) (spoke thrashHost : Bool) : NudgeView :=
  { v with spoke := v.spoke || spoke, thrashHosts := v.thrashHosts + thrashHost.toNat }

/-- How often a line may be injected in a moment. -/
def nudgeBudget (cfg : LoopConfig) : Nudge → Nat
  | .workContinue => cfg.workNudgeMax.toNat
  | _ => 1

/-- What is left of a budget. -/
def NudgeView.left (cfg : LoopConfig) (v : NudgeView) : Nudge → Nat
  | .skillCommit => 1 - v.skillCommitSent.toNat
  | .noSpeak => 1 - v.noSpeakSent.toNat
  | .answerSpeak => 1 - v.answerSpeakSent.toNat
  | .workContinue => cfg.workNudgeMax.toNat - v.workContinues

theorem left_afterNudge_same (cfg : LoopConfig) (v : NudgeView) (n : Nudge)
    (h : 0 < v.left cfg n) : (v.afterNudge n).left cfg n + 1 = v.left cfg n := by
  cases n
  case workContinue =>
    have hlt : 0 < cfg.workNudgeMax.toNat - v.workContinues := h
    show cfg.workNudgeMax.toNat - (v.workContinues + 1) + 1 =
      cfg.workNudgeMax.toNat - v.workContinues
    omega
  case skillCommit =>
    have hlt : 0 < 1 - v.skillCommitSent.toNat := h
    show 1 - 1 + 1 = 1 - v.skillCommitSent.toNat
    omega
  case noSpeak =>
    have hlt : 0 < 1 - v.noSpeakSent.toNat := h
    show 1 - 1 + 1 = 1 - v.noSpeakSent.toNat
    omega
  case answerSpeak =>
    have hlt : 0 < 1 - v.answerSpeakSent.toNat := h
    show 1 - 1 + 1 = 1 - v.answerSpeakSent.toNat
    omega

theorem left_afterNudge_other (cfg : LoopConfig) (v : NudgeView) (n m : Nudge) (h : m ≠ n) :
    (v.afterNudge n).left cfg m = v.left cfg m := by
  cases n <;> cases m <;> first | rfl | exact absurd rfl h

theorem left_afterTools (cfg : LoopConfig) (v : NudgeView) (spoke thrashHost : Bool) (m : Nudge) :
    (v.afterTools spoke thrashHost).left cfg m = v.left cfg m := by
  cases m <;> rfl

section Views

variable [PyCoerce] [LoopText]

/-! Which steps leave the view alone. -/

omit [PyCoerce] [LoopText] in
theorem view_append (s : LoopState) (m : ChatMessage) : (s.append m).view = s.view := rfl

omit [PyCoerce] [LoopText] in
theorem view_appendMissing (s : LoopState) (text : String) :
    (s.appendMissing text).view = s.view := by
  rw [LoopState.appendMissing]
  split_ifs <;> rfl

omit [PyCoerce] [LoopText] in
theorem view_storeAndPinLesson (s : LoopState) (lesson : String) :
    (storeAndPinLesson s lesson).view = s.view := by
  rw [storeAndPinLesson]
  dsimp only
  split_ifs
  · rfl
  · rw [view_appendMissing]; rfl

omit [PyCoerce] in
theorem view_maybeCapture (s : LoopState) (content : String) (hopWasFlood : Bool) :
    (maybeCaptureFreeTextLesson s content hopWasFlood).view = s.view := by
  obtain hsame | ⟨lesson, hpinned⟩ := maybeCapture_cases s content hopWasFlood
  · rw [hsame]
  · rw [hpinned, view_storeAndPinLesson]

omit [PyCoerce] in
theorem view_injectContinue (cfg : LoopConfig) (s t : LoopState) (now : Int)
    (h : injectContinue cfg s now = .ok t) : t.view = s.view := by
  rw [injectContinue] at h
  cases hidle : shouldInjectContinue cfg.settings s.lastActivity s.continueInjects now with
  | error e =>
    rw [hidle] at h
    exact absurd h (by simp [bind, Except.bind])
  | ok idle =>
    rw [hidle] at h
    cases idle with
    | false => rw [← Except.ok.inj h]
    | true =>
      rw [← Except.ok.inj h]
      rfl

omit [PyCoerce] [LoopText] in
theorem view_forceRebuild (cfg : LoopConfig) (s : LoopState) (input : HopInput) :
    (forceRebuild cfg s input).view = s.view := by
  rw [forceRebuild]
  split_ifs
  · split <;> rfl
  · rfl

omit [LoopText] in
theorem view_trimInTurn (cfg : LoopConfig) (s t : LoopState) (input : HopInput)
    (h : trimInTurn cfg s input = .ok t) : t.view = s.view := by
  rw [trimInTurn] at h
  dsimp only at h
  cases hbudget : enforceInTurnBudget s.outerPrefix s.chainMessages
      (min cfg.settings.slidingInputTokens cfg.settings.inTurnMaxTokens)
      cfg.settings.toolResultMaxChars
      (if cfg.canRebuildOuter then some input.budgetRebuild else none) with
  | error e =>
    rw [hbudget] at h
    exact absurd h (by simp [bind, Except.bind])
  | ok result =>
    rw [hbudget] at h
    rw [← Except.ok.inj h]
    rfl

omit [PyCoerce] [LoopText] in
theorem view_ensureLessonPin (s : LoopState) : (ensureLessonPinInChain s).view = s.view := by
  rw [ensureLessonPinInChain]
  split
  · rfl
  · rw [view_appendMissing]

theorem view_prepareCall (cfg : LoopConfig) (s t : LoopState) (input : HopInput)
    (h : prepareCall cfg s input = .next t) : t.view = s.view := by
  rw [prepareCall] at h
  split at h
  · cases h
  · cases h
  · split at h
    · cases h
    · rename_i u hcontinue
      dsimp only at h
      split at h
      · cases h
      · rename_i v htrim
        rw [← Flow.next.inj h, view_ensureLessonPin, view_trimInTurn cfg _ v input htrim,
          view_forceRebuild, view_injectContinue cfg s u input.now hcontinue]

/-! A tool call sets `spoke` when its result is a successful speak, and nothing else of the view. -/

omit [PyCoerce] in
theorem view_callTool (cfg : LoopConfig) (s : LoopState) (tc : ToolCall) (o : ToolOutcome) :
    (callTool cfg s tc o).1.view = s.view := by
  rw [callTool]
  split_ifs
  · rfl
  · rw [executeOne]
    split_ifs
    · rfl
    · split <;> rfl

omit [PyCoerce] [LoopText] in
theorem view_noteLessonFail (s : LoopState) (upd : ThrashUpdate) :
    (noteLessonFail s upd).view = s.view := by
  rw [noteLessonFail]
  split_ifs <;> rfl

omit [PyCoerce] in
theorem view_armSkillCommit (s : LoopState) (tc : ToolCall) (tr : ToolResult) :
    (armSkillCommit s tc tr).view = s.view := by
  rw [armSkillCommit]
  split_ifs <;> rfl

omit [PyCoerce] [LoopText] in
theorem view_noteToolsRan (s : LoopState) (tr : ToolResult) :
    (noteToolsRan s tr).view = s.view := by
  rw [noteToolsRan]
  split_ifs <;> rfl

omit [PyCoerce] [LoopText] in
theorem view_noteSpoke (s : LoopState) (tr : ToolResult) (clock : Int) :
    (noteSpoke s tr clock).view = s.view.afterTools (tr.ok && tr.countsAsSpeak) false := by
  rw [noteSpoke, Bool.and_comm]
  cases tr.ok && tr.countsAsSpeak
  · show s.view = { s.view with spoke := s.view.spoke || false }
    rw [Bool.or_false]
  · show _ = { s.view with spoke := s.view.spoke || true }
    rw [Bool.or_true]
    rfl

omit [PyCoerce] in
theorem view_recordResult (cfg : LoopConfig) (s : LoopState) (tc : ToolCall) (raw : ToolResult)
    (clock : Int) : (recordResult cfg s tc raw clock).1.view =
      s.view.afterTools ((recordResult cfg s tc raw clock).2.ok &&
        (recordResult cfg s tc raw clock).2.countsAsSpeak) false := by
  rw [recordResult]
  dsimp only
  rw [view_noteSpoke, view_noteToolsRan, view_armSkillCommit, view_append, view_noteLessonFail]
  rfl

omit [PyCoerce] [LoopText] in
theorem afterTools_afterTools (v : NudgeView) (a b : Bool) :
    (v.afterTools a false).afterTools b false = v.afterTools (a || b) false := by
  simp [NudgeView.afterTools, Bool.or_assoc]

/-- A result of the list is a successful speak. -/
def anySpeak (results : List ToolResult) : Bool := results.any fun tr => tr.ok && tr.countsAsSpeak

omit [PyCoerce] in
theorem view_runCalls (cfg : LoopConfig) (execute : Nat → ToolOutcome) (i : Nat)
    (s t : LoopState) (calls : List ToolCall) (results : List ToolResult)
    (h : runCalls cfg execute i s calls = (results, .next t)) :
    t.view = s.view.afterTools (anySpeak results) false := by
  induction calls generalizing i s results with
  | nil =>
    obtain ⟨hresults, hflow⟩ := Prod.mk.inj h
    rw [← Flow.next.inj hflow, ← hresults]
    simp [NudgeView.afterTools, anySpeak]
  | cons tc calls ih =>
    have hcall := view_callTool cfg s tc (execute i)
    rw [runCalls] at h
    split at h
    · cases (Prod.mk.inj h).2
    · rename_i u raw hcalled
      rw [hcalled] at hcall
      have hrecord := view_recordResult cfg u tc raw (execute i).clock
      dsimp only at h
      split at h
      · cases (Prod.mk.inj h).2
      · obtain ⟨hresults, hflow⟩ := Prod.mk.inj h
        rw [ih (i + 1) _ _ (Prod.ext rfl hflow), hrecord, afterTools_afterTools, hcall,
          ← hresults]
        rfl

omit [PyCoerce] in
theorem view_injectThrashHost (s : LoopState) :
    (injectThrashHost s).view = s.view.afterTools false (thrashHostLine s).isSome := by
  rw [injectThrashHost]
  cases thrashHostLine s <;> simp [LoopState.view, NudgeView.afterTools, LoopState.append]

omit [PyCoerce] [LoopText] in
theorem view_requestLesson (s : LoopState) : (requestLesson s).view = s.view := by
  rw [requestLesson]
  split_ifs <;> rfl

omit [PyCoerce] in
theorem view_synthesizeLessonOnce (s : LoopState) : (synthesizeLessonOnce s).view = s.view := by
  rw [synthesizeLessonOnce]
  split_ifs
  · rw [view_storeAndPinLesson]
  · rfl

theorem view_finishBatch (s : LoopState) (items : List Json) :
    (finishBatch s items).2.view = s.view.afterTools false (finishBatch s items).1 := by
  rw [finishBatch]
  dsimp only
  rw [view_synthesizeLessonOnce, view_requestLesson, view_injectThrashHost]
  rfl

theorem view_handleToolBatch (cfg : LoopConfig) (s t : LoopState) (result : ChatCompletionResult)
    (input : HopInput) (results : List ToolResult) (thrash : Bool)
    (h : handleToolBatch cfg s result input = (results, thrash, .next t)) :
    t.view = s.view.afterTools (anySpeak results) thrash := by
  rw [handleToolBatch] at h
  split at h
  · rename_i ran u hran
    have hu := view_runCalls cfg _ _ _ _ _ _ hran
    have hdone := view_finishBatch u input.interjections
    dsimp only at h
    obtain ⟨hresults, h⟩ := Prod.mk.inj h
    obtain ⟨hthrash, h⟩ := Prod.mk.inj h
    rw [← Flow.next.inj h, hdone, hu, hresults, hthrash, view_append]
    simp [NudgeView.afterTools]
  · rename_i ran flow hflow hran
    obtain ⟨-, h⟩ := Prod.mk.inj h
    obtain ⟨-, h⟩ := Prod.mk.inj h
    exact absurd h (hflow t)

/-! Which line the free-text branch may inject. -/

/-- The line is within its budget; a social work-continue follows a speak, and none follows a
thrash line. -/
structure Allowed (cfg : LoopConfig) (v : NudgeView) (n : Nudge) : Prop where
  left : 0 < v.left cfg n
  spoke : n = .workContinue → cfg.socialWake = true → v.spoke = true
  noThrash : n = .workContinue → v.thrashHosts = 0

omit [PyCoerce] in
theorem skillCommit_unsent (pending : Option String) (sent : Bool)
    (h : shouldSkillCommitNudge pending sent true = .injected) : sent = false := by
  cases sent
  · rfl
  · simp [shouldSkillCommitNudge] at h

omit [PyCoerce] in
theorem noSpeak_unsent (social spoke sent : Bool) (pending : Option String) (committed : Bool)
    (h : shouldAllowNoSpeak social spoke sent pending committed = true) : sent = false := by
  cases sent
  · rfl
  · simp [shouldAllowNoSpeak] at h

omit [PyCoerce] in
theorem answerSpeak_unsent (social spoke sent : Bool) (content : String)
    (toolsRan spokeSince flood : Bool) (pending : Option String) (committed : Bool)
    (h : shouldAnswerSpeakNudge social spoke sent true content toolsRan spokeSince flood pending
      committed = .injected) : sent = false := by
  cases sent
  · rfl
  · cases social <;> cases spoke <;> simp [shouldAnswerSpeakNudge] at h

omit [PyCoerce] [LoopText] in
theorem workContinue_gates (continuous social spoke needed : Bool) (sent : Nat) (maxNudges : Int)
    (context flood : Bool) (thrash : Nat)
    (h : shouldInMomentWorkNudge continuous social spoke needed sent maxNudges context flood
      thrash = .injected) :
    (sent : Int) < maxNudges ∧ (social = true → spoke = true) ∧ thrash = 0 := by
  rw [shouldInMomentWorkNudge] at h
  split_ifs at h with _ hthrash _ hsocial _ hbudget
  refine ⟨?_, ?_, ?_⟩
  · omega
  · intro hs
    rw [hs] at hsocial
    simpa using hsocial
  · omega

omit [PyCoerce] in
theorem freeTextNudge_allowed (cfg : LoopConfig) (s : LoopState) (content : String)
    (hopWasFlood : Bool) (n : Nudge) (h : freeTextNudge cfg s content hopWasFlood = some n) :
    Allowed cfg s.view n := by
  rw [freeTextNudge] at h
  split_ifs at h with hskill hspeak hanswer hwork
  all_goals rw [← Option.some.inj h]
  · have hunsent : s.skillCommitSent = false := skillCommit_unsent _ _ hskill
    refine ⟨?_, nofun, nofun⟩
    show 0 < 1 - s.skillCommitSent.toNat
    rw [hunsent]
    exact Nat.one_pos
  · have hunsent : s.noSpeakNudgeSent = false := noSpeak_unsent _ _ _ _ _ hspeak
    refine ⟨?_, nofun, nofun⟩
    show 0 < 1 - s.noSpeakNudgeSent.toNat
    rw [hunsent]
    exact Nat.one_pos
  · have hunsent : s.answerSpeakNudgeSent = false :=
      answerSpeak_unsent _ _ _ _ _ _ _ _ _ hanswer
    refine ⟨?_, nofun, nofun⟩
    show 0 < 1 - s.answerSpeakNudgeSent.toNat
    rw [hunsent]
    exact Nat.one_pos
  · obtain ⟨hbudget, hspoke, hthrash⟩ := workContinue_gates _ _ _ _ _ _ _ _ _ hwork
    refine ⟨?_, fun _ => hspoke, fun _ => hthrash⟩
    show 0 < cfg.workNudgeMax.toNat - s.workContinueInjects
    omega

omit [PyCoerce] [LoopText] in
theorem view_applyNudge (s : LoopState) (n : Nudge) :
    (applyNudge s n).view = s.view.afterNudge n := by
  cases n <;> rfl

omit [PyCoerce] in
theorem handleFreeText_cases (cfg : LoopConfig) (s : LoopState) (result : ChatCompletionResult)
    (hopWasFlood : Bool) :
    (∃ n t, handleFreeText cfg s result hopWasFlood = (some n, .next t) ∧
      Allowed cfg s.view n ∧ t.view = s.view.afterNudge n) ∨
    ∃ reason t, handleFreeText cfg s result hopWasFlood = (none, .stop reason t) := by
  rw [handleFreeText]
  have hview : (maybeCaptureFreeTextLesson { s with lastStopHopWasFlood := hopWasFlood }
      result.content hopWasFlood).view = s.view := view_maybeCapture _ _ _
  split
  · rename_i n hn
    have hallowed := freeTextNudge_allowed cfg _ _ _ n hn
    rw [hview] at hallowed
    exact .inl ⟨n, _, rfl, hallowed, by rw [view_applyNudge, hview]⟩
  · exact .inr ⟨_, _, rfl⟩

/-! One round, and the rounds of a run. -/

/-- What one round may report and do to the view. -/
inductive RoundView (cfg : LoopConfig) (v : NudgeView) (r : HopReport) :
    Option NudgeView → Prop where
  | tools (hfree : r.freeText = false) (hnudge : r.nudge = none) :
      RoundView cfg v r (some (v.afterTools r.spoke r.thrashHost))
  | nudged (n : Nudge) (hnudge : r.nudge = some n) (hquiet : r.thrashHost = false)
      (hallowed : Allowed cfg v n) : RoundView cfg v r (some (v.afterNudge n))
  | ended (hnudge : r.nudge = none) : RoundView cfg v r none

/-- The view a round leaves for the next one. -/
def Flow.view : Flow → Option NudgeView
  | .next t => some t.view
  | _ => none

theorem takeReply_view (cfg : LoopConfig) (s : LoopState) (input : HopInput) :
    RoundView cfg s.view (takeReply cfg s input).1 (takeReply cfg s input).2.view := by
  rw [takeReply]
  dsimp only
  split
  · exact .ended rfl
  · rename_i raw hreply
    split_ifs with hcalls
    · generalize hbatch : handleToolBatch cfg _ _ input = batch
      obtain ⟨results, thrash, flow⟩ := batch
      cases flow with
      | next t =>
        have ht := view_handleToolBatch cfg _ t _ input results thrash hbatch
        show RoundView _ _ _ (some t.view)
        rw [ht]
        exact .tools rfl rfl
      | stop reason t => exact .ended rfl
      | raised e t => exact .ended rfl
    · obtain ⟨n, t, hfree, hallowed, hview⟩ | ⟨reason, t, hfree⟩ := handleFreeText_cases cfg
        (countBeat s (sanitizeCompletion raw).2) (sanitizeCompletion raw).1
        (sanitizeCompletion raw).2
      · rw [hfree]
        show RoundView _ _ _ (some t.view)
        rw [hview]
        exact .nudged n rfl rfl hallowed
      · rw [hfree]
        exact .ended rfl

theorem hop_view (cfg : LoopConfig) (s : LoopState) (input : HopInput) :
    RoundView cfg s.view (hop cfg s input).1 (hop cfg s input).2.view := by
  rw [hop]
  cases hprepare : prepareCall cfg s input with
  | next t =>
    rw [← view_prepareCall cfg s t input hprepare]
    exact takeReply_view cfg t input
  | stop reason t => exact .ended rfl
  | raised e t => exact .ended rfl

/-- The reports of a run that starts in a state with view `v`. -/
inductive RunView (cfg : LoopConfig) : NudgeView → List HopReport → Prop where
  | nil (v : NudgeView) : RunView cfg v []
  | last (v : NudgeView) (r : HopReport) (hnudge : r.nudge = none) (hended : r.ended = true) :
      RunView cfg v [r]
  | step (v w : NudgeView) (r : HopReport) (rest : List HopReport)
      (hround : RoundView cfg v r (some w)) (hrest : RunView cfg w rest) : RunView cfg v (r :: rest)

theorem runLoopBody_view (cfg : LoopConfig) (s : LoopState) (inputs : List HopInput) :
    RunView cfg s.view (runLoopBody cfg s inputs).1 := by
  induction inputs generalizing s with
  | nil => exact .nil _
  | cons input rest ih =>
    have hround := hop_view cfg s input
    rw [runLoopBody]
    generalize hop cfg s input = round at hround
    obtain ⟨r, flow⟩ := round
    cases flow with
    | next t => exact .step _ _ _ _ hround (ih t)
    | stop reason t =>
      apply RunView.last _ _ _ rfl
      cases hround with
      | ended hnudge => exact hnudge
    | raised e t =>
      apply RunView.last _ _ _ rfl
      cases hround with
      | ended hnudge => exact hnudge

end Views

variable {cfg : LoopConfig}

/-- A line is injected at most as often as its budget has left. -/
theorem RunView.count_nudge {v : NudgeView} {reports : List HopReport}
    (h : RunView cfg v reports) (n : Nudge) :
    reports.countP (fun r => r.nudge = some n) ≤ v.left cfg n := by
  induction h with
  | nil v => exact Nat.zero_le _
  | last v r hnudge hended => simp [hnudge]
  | step v w r rest hround hrest ih =>
    rw [List.countP_cons]
    cases hround with
    | tools hfree hnudge =>
      rw [left_afterTools] at ih
      simpa [hnudge] using ih
    | nudged m hnudge hquiet hallowed =>
      by_cases hm : n = m
      · have hleft := left_afterNudge_same cfg v m hallowed.left
        rw [hm] at ih ⊢
        rw [hnudge, if_pos (decide_eq_true rfl)]
        omega
      · rw [left_afterNudge_other cfg v m n hm] at ih
        have hne : ¬ some m = some n := fun he => hm (Option.some.inj he).symm
        simpa [hnudge, hne] using ih

/-- A completion without tool calls that does not end the moment was answered by a line. -/
theorem RunView.count_freeText {v : NudgeView} {reports : List HopReport}
    (h : RunView cfg v reports) :
    reports.countP (fun r => r.freeText && !r.ended) ≤
      reports.countP (fun r => r.nudge = some .skillCommit) +
      reports.countP (fun r => r.nudge = some .noSpeak) +
      reports.countP (fun r => r.nudge = some .answerSpeak) +
      reports.countP (fun r => r.nudge = some .workContinue) := by
  induction h with
  | nil v => simp
  | last v r hnudge hended => simp [hended]
  | step v w r rest hround hrest ih =>
    simp only [List.countP_cons]
    cases hround with
    | tools hfree hnudge =>
      simp only [hfree, hnudge]
      simpa using ih
    | nudged m hnudge hquiet hallowed =>
      have hone : (if (r.freeText && !r.ended) = true then 1 else 0) ≤ 1 := by
        split_ifs <;> omega
      generalize (if (r.freeText && !r.ended) = true then 1 else 0) = counted at hone ⊢
      rw [hnudge]
      cases m <;> simp <;> omega

/-- A work-continue of a social moment follows a successful speak, and none follows a thrash
line. -/
theorem RunView.workContinue_after {v : NudgeView} {reports : List HopReport}
    (h : RunView cfg v reports) (before after : List HopReport) (r : HopReport)
    (hsplit : reports = before ++ r :: after) (hnudge : r.nudge = some .workContinue) :
    (cfg.socialWake = true → v.spoke = true ∨ ∃ q ∈ before, q.spoke = true) ∧
      v.thrashHosts = 0 ∧ ∀ q ∈ before, q.thrashHost = false := by
  induction h generalizing before with
  | nil v => simp at hsplit
  | last v q hnone hended =>
    have hq : q = r := by
      cases before with
      | nil => simpa using (List.cons.inj hsplit).1
      | cons b bs => simp at hsplit
    rw [hq, hnudge] at hnone
    exact absurd hnone (by simp)
  | step v w q rest hround hrest ih =>
    cases before with
    | nil =>
      obtain ⟨hq, -⟩ := List.cons.inj hsplit
      rw [hq] at hround
      cases hround with
      | tools hfree hnone =>
        rw [hnudge] at hnone
        exact absurd hnone (by simp)
      | nudged m hm hquiet hallowed =>
        rw [hnudge] at hm
        rw [← Option.some.inj hm] at hallowed
        exact ⟨fun hs => .inl (hallowed.spoke rfl hs), hallowed.noThrash rfl, by simp⟩
    | cons b bs =>
      obtain ⟨hb, hrest⟩ := List.cons.inj hsplit
      obtain ⟨hspoke, hthrash, hquiet⟩ := ih bs hrest
      rw [hb] at hround
      cases hround with
      | tools hfree hnone =>
        have hzero : v.thrashHosts + b.thrashHost.toNat = 0 := hthrash
        have hbq : b.thrashHost = false := by
          cases hbt : b.thrashHost
          · rfl
          · rw [hbt] at hzero
            exact absurd hzero (by simp)
        refine ⟨?_, by omega, ?_⟩
        · intro hs
          obtain hv | ⟨p, hp, hps⟩ := hspoke hs
          · have hor : (v.spoke || b.spoke) = true := hv
            rw [Bool.or_eq_true] at hor
            obtain hvs | hbs := hor
            · exact .inl hvs
            · exact .inr ⟨b, List.mem_cons_self, hbs⟩
          · exact .inr ⟨p, List.mem_cons_of_mem _ hp, hps⟩
        · intro p hp
          obtain heq | hp := List.mem_cons.mp hp
          · rw [heq]
            exact hbq
          · exact hquiet p hp
      | nudged m hm hbq hallowed =>
        have hsame : (v.afterNudge m).spoke = v.spoke ∧
            (v.afterNudge m).thrashHosts = v.thrashHosts := by
          cases m <;> exact ⟨rfl, rfl⟩
        rw [hsame.1] at hspoke
        rw [hsame.2] at hthrash
        refine ⟨?_, hthrash, ?_⟩
        · intro hs
          obtain hv | ⟨p, hp, hps⟩ := hspoke hs
          · exact .inl hv
          · exact .inr ⟨p, List.mem_cons_of_mem _ hp, hps⟩
        · intro p hp
          obtain heq | hp := List.mem_cons.mp hp
          · rw [heq]
            exact hbq
          · exact hquiet p hp

/-- Completions without tool calls that do not end the moment. -/
def freeTextHops (reports : List HopReport) : Nat :=
  reports.countP fun r => r.freeText && !r.ended

/-- In every run the completions without tool calls that do not end the moment are at most three
more than a non-negative work budget, each line stays within its budget, a social work-continue
follows a successful speak, and no work-continue follows a thrash line. -/
theorem free_text_hops_bounded [PyCoerce] [LoopText] (cfg : LoopConfig)
    (outer : List ChatMessage) (inputs : List HopInput) :
    let reports := (runDoLoop cfg outer inputs).1
    (freeTextHops reports : Int) ≤ 3 + max 0 cfg.workNudgeMax ∧
      (∀ n, reports.countP (fun r => r.nudge = some n) ≤ nudgeBudget cfg n) ∧
      ∀ before r after, reports = before ++ r :: after → r.nudge = some .workContinue →
        (cfg.socialWake = true → ∃ q ∈ before, q.spoke = true) ∧
          ∀ q ∈ before, q.thrashHost = false := by
  intro reports
  have hrun : RunView cfg (initialState outer cfg.startedAt).view reports :=
    runLoopBody_view cfg _ inputs
  have hbudget (n : Nudge) : reports.countP (fun r => r.nudge = some n) ≤ nudgeBudget cfg n := by
    have hcount := hrun.count_nudge n
    cases n <;> exact hcount
  refine ⟨?_, hbudget, ?_⟩
  · have hfree : freeTextHops reports ≤ _ := hrun.count_freeText
    have hskill : _ ≤ 1 := hbudget .skillCommit
    have hspeak : _ ≤ 1 := hbudget .noSpeak
    have hanswer : _ ≤ 1 := hbudget .answerSpeak
    have hwork : _ ≤ cfg.workNudgeMax.toNat := hbudget .workContinue
    omega
  · intro before r after hsplit hnudge
    obtain ⟨hspoke, -, hquiet⟩ := hrun.workContinue_after before after r hsplit hnudge
    refine ⟨?_, hquiet⟩
    intro hs
    exact (hspoke hs).resolve_left (by simp [initialState, LoopState.view])

/-- With a negative work budget the three single lines alone exceed three more than it. -/
theorem negative_work_budget_exceeded :
    ¬ ∀ (_ : PyCoerce) (_ : LoopText) (cfg : LoopConfig) (outer : List ChatMessage)
      (inputs : List HopInput),
      (freeTextHops (runDoLoop cfg outer inputs).1 : Int) ≤ 3 + cfg.workNudgeMax := by
  intro h
  have hthree := h basicCoerce plainText (socialMoment (-1)) [] sampleRounds
  have hcount : @freeTextHops
      (@runDoLoop basicCoerce plainText (socialMoment (-1)) [] sampleRounds).1 = 3 := by
    decide +kernel
  rw [hcount] at hthree
  exact absurd hthree (by decide)

end Elyra.Loop
