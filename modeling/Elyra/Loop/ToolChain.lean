import Elyra.Loop.Blocks

namespace Elyra.Loop

section Chain

variable [PyCoerce] [LoopText]

/-! What each step does to the chain. -/

omit [PyCoerce] [LoopText] in
theorem wellFormed_append_user (s : LoopState) (text : String) (h : WellFormed s.chainMessages) :
    WellFormed (s.append (obsUserMessage text)).chainMessages := h.append (wellFormed_user text)

omit [PyCoerce] [LoopText] in
theorem wellFormed_appendMissing (s : LoopState) (text : String) (h : WellFormed s.chainMessages) :
    WellFormed (s.appendMissing text).chainMessages := by
  rw [LoopState.appendMissing]
  split_ifs
  · exact h
  · exact wellFormed_append_user s text h

omit [PyCoerce] [LoopText] in
theorem appendMissing_outer (s : LoopState) (text : String) :
    (s.appendMissing text).outerPrefix = s.outerPrefix := by
  rw [LoopState.appendMissing]
  split_ifs <;> rfl

omit [PyCoerce] [LoopText] in
theorem wellFormed_storeAndPinLesson (s : LoopState) (lesson : String)
    (h : WellFormed s.chainMessages) : WellFormed (storeAndPinLesson s lesson).chainMessages := by
  rw [storeAndPinLesson]
  dsimp only
  split_ifs
  · exact h
  · apply wellFormed_appendMissing
    exact h

omit [PyCoerce] [LoopText] in
theorem storeAndPinLesson_outer (s : LoopState) (lesson : String) :
    (storeAndPinLesson s lesson).outerPrefix = s.outerPrefix := by
  rw [storeAndPinLesson]
  dsimp only
  split_ifs
  · rfl
  · rw [appendMissing_outer]

omit [PyCoerce] in
theorem maybeCapture_cases (s : LoopState) (content : String) (hopWasFlood : Bool) :
    maybeCaptureFreeTextLesson s content hopWasFlood = s ∨
      ∃ lesson, maybeCaptureFreeTextLesson s content hopWasFlood = storeAndPinLesson s lesson := by
  rw [maybeCaptureFreeTextLesson]
  dsimp only
  split_ifs
  · exact .inl rfl
  · exact .inl rfl
  · exact .inl rfl
  · exact .inr ⟨_, rfl⟩

omit [LoopText] in
/-- The budget pass keeps whole batches, and its outer meal is the given or the rebuilt one. -/
theorem enforceInTurnBudget_spec (outer chain : List ChatMessage) (budget cap : Int)
    (rebuild : Option (Except LoopError (List ChatMessage)))
    (result : List ChatMessage × List ChatMessage × Bool) (hchain : WellFormed chain)
    (h : enforceInTurnBudget outer chain budget cap rebuild = .ok result) :
    WellFormed result.2.1 ∧ (result.1 = outer ∨ rebuild = some (.ok result.1)) := by
  have htrunc : WellFormed (truncateChainToolContents chain cap) := hchain.truncate cap
  rw [enforceInTurnBudget] at h
  dsimp only at h
  split_ifs at h with hfits hdropped
  · rw [← Except.ok.inj h]
    exact ⟨htrunc, .inl rfl⟩
  · rw [← Except.ok.inj h]
    exact ⟨htrunc.dropWhileOver _ _, .inl rfl⟩
  · have hcompressed := ((htrunc.dropWhileOver (fun c =>
      decide (budget < (messagesTokens outer + messagesTokens c : Nat)))
      (truncateChainToolContents chain cap).length).compress).truncate cap
    cases rebuild with
    | none =>
      rw [← Except.ok.inj h]
      exact ⟨hcompressed.dropWhileOver _ _, .inl rfl⟩
    | some rebuilt =>
      cases rebuilt with
      | error e => exact absurd h (by simp)
      | ok meal =>
        rw [← Except.ok.inj h]
        exact ⟨hcompressed.dropWhileOver _ _, .inr rfl⟩

/-- The outer meals a round may switch to. -/
def HopInput.meals (input : HopInput) : List (List ChatMessage) :=
  input.forcedRebuild.toList ++ input.budgetRebuild.toOption.toList

/-- The state between two rounds: the chain holds whole batches, and the outer meal is one of the
meals the caller supplied. -/
structure Healthy (meals : List (List ChatMessage)) (s : LoopState) : Prop where
  chain : WellFormed s.chainMessages
  outer : s.outerPrefix ∈ meals

variable {meals : List (List ChatMessage)}

omit [PyCoerce] in
theorem injectContinue_healthy (cfg : LoopConfig) (s t : LoopState) (now : Int)
    (h : injectContinue cfg s now = .ok t) (hs : Healthy meals s) : Healthy meals t := by
  rw [injectContinue] at h
  cases hidle : shouldInjectContinue cfg.settings s.lastActivity s.continueInjects now with
  | error e =>
    rw [hidle] at h
    exact absurd h (by simp [bind, Except.bind])
  | ok idle =>
    rw [hidle] at h
    cases idle with
    | false =>
      rw [← Except.ok.inj h]
      exact hs
    | true =>
      rw [← Except.ok.inj h]
      exact ⟨wellFormed_append_user s _ hs.chain, hs.outer⟩

omit [PyCoerce] [LoopText] in
theorem forceRebuild_healthy (cfg : LoopConfig) (s : LoopState) (input : HopInput)
    (hmeals : ∀ meal ∈ input.meals, meal ∈ meals) (hs : Healthy meals s) :
    Healthy meals (forceRebuild cfg s input) := by
  rw [forceRebuild]
  split_ifs
  · cases hforced : input.forcedRebuild with
    | none => exact hs
    | some meal =>
      have hmem : meal ∈ input.meals := by simp [HopInput.meals, hforced]
      exact ⟨hs.chain, hmeals meal hmem⟩
  · exact hs

omit [LoopText] in
theorem trimInTurn_healthy (cfg : LoopConfig) (s t : LoopState) (input : HopInput)
    (hmeals : ∀ meal ∈ input.meals, meal ∈ meals) (h : trimInTurn cfg s input = .ok t)
    (hs : Healthy meals s) : Healthy meals t := by
  rw [trimInTurn] at h
  dsimp only at h
  cases hbudget : enforceInTurnBudget s.outerPrefix s.chainMessages
      (min cfg.settings.slidingInputTokens cfg.settings.inTurnMaxTokens)
      cfg.settings.toolResultMaxChars
      (if cfg.canRebuildOuter then some input.budgetRebuild else none) with
  | error e =>
    rw [hbudget] at h
    exact absurd h (by simp [bind, Except.bind])
  | ok result =>
    rw [hbudget] at h
    obtain ⟨hchain, houter⟩ := enforceInTurnBudget_spec _ _ _ _ _ _ hs.chain hbudget
    rw [← Except.ok.inj h]
    refine ⟨hchain, ?_⟩
    show result.1 ∈ meals
    obtain hsame | hrebuilt := houter
    · rw [hsame]
      exact hs.outer
    · split_ifs at hrebuilt
      apply hmeals
      simp [HopInput.meals, Option.some.inj hrebuilt, Except.toOption]

omit [PyCoerce] [LoopText] in
theorem ensureLessonPin_healthy (s : LoopState) (hs : Healthy meals s) :
    Healthy meals (ensureLessonPinInChain s) := by
  rw [ensureLessonPinInChain]
  split
  · exact hs
  · exact ⟨wellFormed_appendMissing s _ hs.chain, by rw [appendMissing_outer]; exact hs.outer⟩

theorem prepareCall_healthy (cfg : LoopConfig) (s t : LoopState) (input : HopInput)
    (hmeals : ∀ meal ∈ input.meals, meal ∈ meals) (h : prepareCall cfg s input = .next t)
    (hs : Healthy meals s) : Healthy meals t := by
  rw [prepareCall] at h
  split at h
  · cases h
  · cases h
  · split at h
    · cases h
    · rename_i u hcontinue
      have hu := injectContinue_healthy cfg s u input.now hcontinue hs
      have hforced := forceRebuild_healthy cfg u input hmeals hu
      dsimp only at h
      split at h
      · cases h
      · rename_i v htrim
        have hv := trimInTurn_healthy cfg _ v input hmeals htrim hforced
        rw [← Flow.next.inj h]
        exact ensureLessonPin_healthy v hv

/-! A batch that is run to its end appends one answer a call. -/

omit [PyCoerce] in
theorem callTool_frame (cfg : LoopConfig) (s : LoopState) (tc : ToolCall) (o : ToolOutcome) :
    (callTool cfg s tc o).1.chainMessages = s.chainMessages ∧
      (callTool cfg s tc o).1.outerPrefix = s.outerPrefix := by
  rw [callTool]
  split_ifs
  · exact ⟨rfl, rfl⟩
  · rw [executeOne]
    split_ifs
    · exact ⟨rfl, rfl⟩
    · split <;> exact ⟨rfl, rfl⟩

omit [PyCoerce] [LoopText] in
theorem noteLessonFail_frame (s : LoopState) (upd : ThrashUpdate) :
    (noteLessonFail s upd).chainMessages = s.chainMessages ∧
      (noteLessonFail s upd).outerPrefix = s.outerPrefix := by
  rw [noteLessonFail]
  split_ifs <;> exact ⟨rfl, rfl⟩

omit [PyCoerce] in
theorem armSkillCommit_frame (s : LoopState) (tc : ToolCall) (tr : ToolResult) :
    (armSkillCommit s tc tr).chainMessages = s.chainMessages ∧
      (armSkillCommit s tc tr).outerPrefix = s.outerPrefix := by
  rw [armSkillCommit]
  split_ifs <;> exact ⟨rfl, rfl⟩

omit [PyCoerce] [LoopText] in
theorem noteToolsRan_frame (s : LoopState) (tr : ToolResult) :
    (noteToolsRan s tr).chainMessages = s.chainMessages ∧
      (noteToolsRan s tr).outerPrefix = s.outerPrefix := by
  rw [noteToolsRan]
  split_ifs <;> exact ⟨rfl, rfl⟩

omit [PyCoerce] [LoopText] in
theorem noteSpoke_frame (s : LoopState) (tr : ToolResult) (clock : Int) :
    (noteSpoke s tr clock).chainMessages = s.chainMessages ∧
      (noteSpoke s tr clock).outerPrefix = s.outerPrefix := by
  rw [noteSpoke]
  split_ifs <;> exact ⟨rfl, rfl⟩

omit [PyCoerce] in
/-- A recorded result appends its tool row. -/
theorem recordResult_chain (cfg : LoopConfig) (s : LoopState) (tc : ToolCall) (raw : ToolResult)
    (clock : Int) : ∃ tr,
      (recordResult cfg s tc raw clock).1.chainMessages =
        s.chainMessages ++ [toolMessage cfg tc tr] ∧
      (recordResult cfg s tc raw clock).1.outerPrefix = s.outerPrefix := by
  refine ⟨(recordResult cfg s tc raw clock).2, ?_⟩
  rw [recordResult]
  dsimp only
  rw [(noteSpoke_frame _ _ _).1, (noteSpoke_frame _ _ _).2, (noteToolsRan_frame _ _).1,
    (noteToolsRan_frame _ _).2, (armSkillCommit_frame _ _ _).1, (armSkillCommit_frame _ _ _).2,
    LoopState.append, (noteLessonFail_frame _ _).1, (noteLessonFail_frame _ _).2]
  exact ⟨rfl, rfl⟩

omit [PyCoerce] in
/-- A batch whose calls were all run has appended one tool row a call, with the call's id. -/
theorem runCalls_chain (cfg : LoopConfig) (execute : Nat → ToolOutcome) (i : Nat)
    (s t : LoopState) (calls : List ToolCall) (results : List ToolResult)
    (h : runCalls cfg execute i s calls = (results, .next t)) : ∃ rows : List ChatMessage,
      t.chainMessages = s.chainMessages ++ rows ∧ t.outerPrefix = s.outerPrefix ∧
      (∀ r ∈ rows, r.role = .tool) ∧
      rows.map (·.toolCallId) = calls.map fun tc => some tc.id := by
  induction calls generalizing i s results with
  | nil =>
    obtain ⟨-, hflow⟩ := Prod.mk.inj h
    rw [← Flow.next.inj hflow]
    exact ⟨[], by simp, rfl, by simp, rfl⟩
  | cons tc calls ih =>
    have hcall := callTool_frame cfg s tc (execute i)
    rw [runCalls] at h
    split at h
    · cases (Prod.mk.inj h).2
    · rename_i u raw hcalled
      rw [hcalled] at hcall
      obtain ⟨tr, hchain, houter⟩ := recordResult_chain cfg u tc raw (execute i).clock
      dsimp only at h
      split at h
      · cases (Prod.mk.inj h).2
      · obtain ⟨-, hflow⟩ := Prod.mk.inj h
        obtain ⟨rows, hrows, hmeal, htools, hids⟩ :=
          ih (i + 1) (recordResult cfg u tc raw (execute i).clock).1
            (runCalls cfg execute (i + 1) (recordResult cfg u tc raw (execute i).clock).1 calls).1
            (Prod.ext rfl hflow)
        refine ⟨toolMessage cfg tc tr :: rows, ?_, ?_, ?_, ?_⟩
        · rw [hrows, hchain, hcall.1, List.append_assoc]
          rfl
        · rw [hmeal, houter, hcall.2]
        · intro r hr
          obtain heq | hr := List.mem_cons.mp hr
          · rw [heq]
            rfl
          · exact htools r hr
        · rw [List.map_cons, List.map_cons, hids]
          rfl

omit [PyCoerce] in
theorem assistantMessage_starts (result : ChatCompletionResult) (h : result.toolCalls ≠ []) :
    (assistantMessageFromResult result).isToolBatchStart = true := by
  simp [assistantMessageFromResult, ChatMessage.isToolBatchStart, h]

omit [LoopText] in
theorem drainInterjections_healthy (s : LoopState) (items : List Json) (hs : Healthy meals s) :
    Healthy meals (drainInterjections s items) :=
  ⟨hs.chain.append (wellFormed_users _), hs.outer⟩

omit [PyCoerce] in
theorem injectThrashHost_healthy (s : LoopState) (hs : Healthy meals s) :
    Healthy meals (injectThrashHost s) := by
  rw [injectThrashHost]
  split
  · exact hs
  · exact ⟨wellFormed_append_user _ _ hs.chain, hs.outer⟩

omit [PyCoerce] [LoopText] in
theorem requestLesson_healthy (s : LoopState) (hs : Healthy meals s) :
    Healthy meals (requestLesson s) := by
  rw [requestLesson]
  split_ifs
  · exact ⟨wellFormed_append_user _ _ hs.chain, hs.outer⟩
  · exact hs

omit [PyCoerce] [LoopText] in
theorem storeAndPinLesson_healthy (s : LoopState) (lesson : String) (hs : Healthy meals s) :
    Healthy meals (storeAndPinLesson s lesson) :=
  ⟨wellFormed_storeAndPinLesson s lesson hs.chain, by
    rw [storeAndPinLesson_outer]
    exact hs.outer⟩

omit [PyCoerce] in
theorem synthesizeLessonOnce_healthy (s : LoopState) (hs : Healthy meals s) :
    Healthy meals (synthesizeLessonOnce s) := by
  rw [synthesizeLessonOnce]
  split_ifs
  · exact storeAndPinLesson_healthy s _ hs
  · exact hs

theorem finishBatch_healthy (s : LoopState) (items : List Json) (hs : Healthy meals s) :
    Healthy meals (finishBatch s items).2 := by
  have hdrained := drainInterjections_healthy s items hs
  have hthrash := injectThrashHost_healthy _ hdrained
  exact synthesizeLessonOnce_healthy _ (requestLesson_healthy _ hthrash)

theorem handleToolBatch_healthy (cfg : LoopConfig) (s t : LoopState)
    (result : ChatCompletionResult) (input : HopInput) (results : List ToolResult) (thrash : Bool)
    (hcalls : result.toolCalls ≠ [])
    (h : handleToolBatch cfg s result input = (results, thrash, .next t))
    (hs : Healthy meals s) : Healthy meals t := by
  rw [handleToolBatch] at h
  split at h
  · rename_i ran u hran
    obtain ⟨rows, hchain, houter, htools, hids⟩ := runCalls_chain cfg _ _ _ _ _ _ hran
    have hbatch := (Batch.mk (assistantMessageFromResult result) rows
      (assistantMessage_starts result hcalls) htools (by
        rw [hids]
        show _ = (result.toolCalls.map ToolCall.toWire).map fun c => some c.id
        rw [List.map_map]
        rfl)).wellFormed
    have hu : Healthy meals u := by
      refine ⟨?_, by rw [houter]; exact hs.outer⟩
      rw [hchain]
      show WellFormed (s.chainMessages ++ [assistantMessageFromResult result] ++ rows)
      rw [List.append_assoc]
      exact hs.chain.append hbatch
    have hdone := finishBatch_healthy u input.interjections hu
    obtain ⟨-, h⟩ := Prod.mk.inj h
    obtain ⟨-, h⟩ := Prod.mk.inj h
    rw [← Flow.next.inj h]
    exact hdone
  · rename_i ran flow hflow hran
    obtain ⟨-, h⟩ := Prod.mk.inj h
    obtain ⟨-, h⟩ := Prod.mk.inj h
    exact absurd h (hflow t)

omit [PyCoerce] [LoopText] in
theorem applyNudge_healthy (s : LoopState) (n : Nudge) (hs : Healthy meals s) :
    Healthy meals (applyNudge s n) := by
  cases n <;> exact ⟨wellFormed_append_user _ _ hs.chain, hs.outer⟩

omit [PyCoerce] in
theorem handleFreeText_healthy (cfg : LoopConfig) (s t : LoopState)
    (result : ChatCompletionResult) (hopWasFlood : Bool) (nudge : Option Nudge)
    (h : handleFreeText cfg s result hopWasFlood = (nudge, .next t)) (hs : Healthy meals s) :
    Healthy meals t := by
  rw [handleFreeText] at h
  split at h
  · obtain ⟨-, h⟩ := Prod.mk.inj h
    rw [← Flow.next.inj h]
    apply applyNudge_healthy
    obtain hsame | ⟨lesson, hpinned⟩ := maybeCapture_cases
      { s with lastStopHopWasFlood := hopWasFlood } result.content hopWasFlood
    · rw [hsame]
      exact ⟨hs.chain, hs.outer⟩
    · rw [hpinned]
      apply storeAndPinLesson_healthy
      exact ⟨hs.chain, hs.outer⟩
  · cases (Prod.mk.inj h).2

theorem takeReply_healthy (cfg : LoopConfig) (s t : LoopState) (input : HopInput) (r : HopReport)
    (h : takeReply cfg s input = (r, .next t)) (hs : Healthy meals s) : Healthy meals t := by
  rw [takeReply] at h
  dsimp only at h
  split at h
  · cases (Prod.mk.inj h).2
  · rename_i raw hreply
    split_ifs at h with hcalls
    · obtain ⟨-, hflow⟩ := Prod.mk.inj h
      apply handleToolBatch_healthy cfg _ t _ input _ _ hcalls
        (Prod.ext rfl (Prod.ext rfl hflow))
      exact ⟨hs.chain, hs.outer⟩
    · obtain ⟨-, hflow⟩ := Prod.mk.inj h
      apply handleFreeText_healthy cfg _ t _ _ _ (Prod.ext rfl hflow)
      exact ⟨hs.chain, hs.outer⟩

theorem takeReply_call (cfg : LoopConfig) (s : LoopState) (input : HopInput) :
    (takeReply cfg s input).1.call = some (callMessages s) := by
  rw [takeReply]
  dsimp only
  split
  · rfl
  · split_ifs <;> rfl

/-- One round keeps the state healthy, and the messages of its call come from a healthy state. -/
theorem hop_healthy (cfg : LoopConfig) (s : LoopState) (input : HopInput)
    (hmeals : ∀ meal ∈ input.meals, meal ∈ meals) (hs : Healthy meals s) :
    (∀ messages ∈ (hop cfg s input).1.call, ∃ t, Healthy meals t ∧ messages = callMessages t) ∧
      ∀ t, (hop cfg s input).2 = .next t → Healthy meals t := by
  rw [hop]
  cases hprepare : prepareCall cfg s input with
  | next t =>
    have ht := prepareCall_healthy cfg s t input hmeals hprepare hs
    constructor
    · intro messages hcall
      rw [takeReply_call, Option.mem_some_iff] at hcall
      exact ⟨t, ht, hcall.symm⟩
    · intro u hu
      exact takeReply_healthy cfg t u input _ (Prod.ext rfl hu) ht
  | stop reason t => exact ⟨by simp, by simp⟩
  | raised e t => exact ⟨by simp, by simp⟩

/-- The messages of every chat call of a run come from a healthy state. -/
theorem runLoopBody_healthy (cfg : LoopConfig) (s : LoopState) (inputs : List HopInput)
    (hmeals : ∀ input ∈ inputs, ∀ meal ∈ input.meals, meal ∈ meals) (hs : Healthy meals s) :
    ∀ messages ∈ (runLoopBody cfg s inputs).1.filterMap (·.call),
      ∃ t, Healthy meals t ∧ messages = callMessages t := by
  induction inputs generalizing s with
  | nil => simp [runLoopBody]
  | cons input rest ih =>
    obtain ⟨hcalls, hnext⟩ := hop_healthy cfg s input (hmeals input List.mem_cons_self) hs
    have hrest : ∀ i ∈ rest, ∀ meal ∈ i.meals, meal ∈ meals :=
      fun i hi => hmeals i (List.mem_cons_of_mem _ hi)
    intro messages hmem
    rw [runLoopBody] at hmem
    generalize hround : hop cfg s input = round at hmem hcalls hnext
    obtain ⟨r, flow⟩ := round
    cases flow with
    | next t =>
      obtain ⟨q, hq, hcall⟩ := List.mem_filterMap.mp hmem
      obtain heq | hq := List.mem_cons.mp hq
      · rw [heq] at hcall
        exact hcalls messages hcall
      · exact ih t hrest (hnext t rfl) messages (List.mem_filterMap.mpr ⟨q, hq, hcall⟩)
    | stop reason t =>
      obtain ⟨q, hq, hcall⟩ := List.mem_filterMap.mp hmem
      rw [List.mem_singleton.mp hq] at hcall
      exact hcalls messages hcall
    | raised e t =>
      obtain ⟨q, hq, hcall⟩ := List.mem_filterMap.mp hmem
      rw [List.mem_singleton.mp hq] at hcall
      exact hcalls messages hcall

/-- The outer meals of a run: the first one, and those its rounds rebuild. -/
def mealsOf (outer : List ChatMessage) (inputs : List HopInput) : List (List ChatMessage) :=
  outer :: inputs.flatMap HopInput.meals

/-- In the messages of every chat call of every run, the in-turn chain behind the outer meal
answers each tool call and holds no other tool row; where the meal carries no tool calls, as the
meals of presence do not, the whole list answers each call. -/
theorem tool_calls_answered_on_the_wire (cfg : LoopConfig) (outer : List ChatMessage)
    (inputs : List HopInput) (messages : List ChatMessage)
    (hcall : messages ∈ (runDoLoop cfg outer inputs).1.filterMap (·.call)) :
    ∃ meal ∈ mealsOf outer inputs, ∃ chain, messages = meal ++ chain ∧
      CallsAnswered chain ∧ NoStrayTool chain ∧
      ((∀ m ∈ meal, m.isToolBatchStart = false) → CallsAnswered messages) := by
  have hstart : Healthy (mealsOf outer inputs) (initialState outer cfg.startedAt) :=
    ⟨wellFormed_nil, List.mem_cons_self⟩
  have hmeals : ∀ input ∈ inputs, ∀ meal ∈ input.meals, meal ∈ mealsOf outer inputs :=
    fun input hinput meal hmeal =>
      List.mem_cons_of_mem _ (List.mem_flatMap.mpr ⟨input, hinput, hmeal⟩)
  obtain ⟨t, ht, hmessages⟩ := runLoopBody_healthy cfg _ inputs hmeals hstart messages hcall
  obtain ⟨blocks, hblocks⟩ := ht.chain
  have hanswered : CallsAnswered t.chainMessages := by
    rw [hblocks]
    exact callsAnswered_chainOf blocks
  refine ⟨t.outerPrefix, ht.outer, t.chainMessages, hmessages, hanswered, ?_, ?_⟩
  · rw [hblocks]
    exact noStrayTool_chainOf blocks
  · intro hmeal
    rw [hmessages]
    exact callsAnswered_append _ _ hmeal hanswered

end Chain

/-- Text functions that leave their argument alone. -/
@[reducible] def plainText : LoopText where
  casefold s := s
  channelMarkerCount _ := 0
  stripChannelMarkers s := s
  canonicalArgs _ := ""
  compactLesson s := s
  reprList _ := ""
  wholeMinutes n := n / 60000000

def defaultLoopSettings : LoopSettings where
  slidingInputTokens := 250000
  inTurnMaxTokens := 250000
  toolResultMaxChars := 8000
  continueIdleMinutes := 8
  momentWallClockMinutes := 45
  continueMaxInjects := 3
  maxToolHops := 200
  postLoadSkillToolChoiceRequired := false

/-- A social moment under the default settings. -/
def socialMoment (workNudgeMax : Int) : LoopConfig where
  settings := defaultLoopSettings
  socialWake := true
  wakeKind := "user_message"
  hasOpenGoalsSlice := false
  continuousEnabled := false
  workNudgeMax := workNudgeMax
  skipIdenticalEnabled := false
  canRebuildOuter := false
  hasViewingDirtyFn := false
  startedAt := 0
  momentId := "moment"

def sampleCall (name : String) (args : Dict String Json) : ToolCall :=
  { id := name, name := name, arguments := args }

/-- A round at the start of the moment in which every tool call succeeds. -/
def sampleRound (content : String) (calls : List ToolCall) (speaks : Nat → Bool) : HopInput where
  now := 0
  budgetRebuild := .ok []
  reply := .ok { content := content, reasoningContent := "", toolCalls := calls }
  execute i := { result := .ok { ok := true, payload := .obj [], countsAsSpeak := speaks i }
                 clock := 0 }

/-- A skill is loaded, two completions come without tool calls, a speak is followed by another
tool, and one more completion comes without tool calls. -/
def sampleRounds : List HopInput :=
  [sampleRound "" [sampleCall "load_skill" (Dict.empty.set "name" (.str "talk"))] fun _ => false,
    sampleRound "" [] fun _ => false, sampleRound "" [] fun _ => false,
    sampleRound "" [sampleCall "speak" .empty, sampleCall "look" .empty] fun i => i = 0,
    sampleRound "done" [] fun _ => false]

attribute [local instance] basicCoerce plainText

theorem tool_calls_answered_in_social_moment :
    ∃ messages ∈ (runDoLoop (socialMoment 1) [] sampleRounds).1.filterMap (·.call),
      messages.countP (·.role = .tool) = 3 ∧
      ∃ meal ∈ mealsOf [] sampleRounds, ∃ chain, messages = meal ++ chain ∧
        CallsAnswered chain ∧ NoStrayTool chain ∧
        ((∀ m ∈ meal, m.isToolBatchStart = false) → CallsAnswered messages) := by
  have hthird : ∃ messages ∈ (runDoLoop (socialMoment 1) [] sampleRounds).1.filterMap (·.call),
      messages.countP (·.role = .tool) = 3 := by decide +kernel
  obtain ⟨messages, hcall, hcount⟩ := hthird
  exact ⟨messages, hcall, hcount,
    tool_calls_answered_on_the_wire (socialMoment 1) [] sampleRounds messages hcall⟩

end Elyra.Loop
