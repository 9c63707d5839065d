import Elyra.Loop.DoLoop

namespace Elyra.Loop

/-- An assistant row with tool calls and the tool rows that answer it, in order. -/
structure Batch where
  call : ChatMessage
  results : List ChatMessage
  starts : call.isToolBatchStart = true
  tools : ∀ r ∈ results, r.role = .tool
  answers : results.map (·.toolCallId) = call.toolCalls.map fun c => some c.id

inductive Block where
  | batch (b : Batch)
  | single (m : ChatMessage) (noCalls : m.isToolBatchStart = false) (noTool : m.role ≠ .tool)

def Block.messages : Block → List ChatMessage
  | .batch b => b.call :: b.results
  | .single m _ _ => [m]

def chainOf (blocks : List Block) : List ChatMessage := blocks.flatMap Block.messages

/-- The chain is cut into whole batches and rows that belong to none. -/
def WellFormed (chain : List ChatMessage) : Prop := ∃ blocks, chain = chainOf blocks

@[simp] theorem chainOf_nil : chainOf [] = [] := rfl

@[simp] theorem chainOf_cons (b : Block) (bs : List Block) :
    chainOf (b :: bs) = b.messages ++ chainOf bs := List.flatMap_cons

@[simp] theorem chainOf_append (as bs : List Block) :
    chainOf (as ++ bs) = chainOf as ++ chainOf bs := List.flatMap_append

theorem wellFormed_nil : WellFormed [] := ⟨[], rfl⟩

theorem WellFormed.append {c d : List ChatMessage} (hc : WellFormed c) (hd : WellFormed d) :
    WellFormed (c ++ d) := by
  obtain ⟨as, ha⟩ := hc
  obtain ⟨bs, hb⟩ := hd
  exact ⟨as ++ bs, by rw [ha, hb, chainOf_append]⟩

theorem Batch.wellFormed (b : Batch) : WellFormed (b.call :: b.results) :=
  ⟨[.batch b], by simp [Block.messages]⟩

theorem wellFormed_user (text : String) : WellFormed [obsUserMessage text] :=
  ⟨[.single (obsUserMessage text) rfl (by simp [obsUserMessage])], rfl⟩

theorem wellFormed_users (texts : List String) : WellFormed (texts.map obsUserMessage) := by
  induction texts with
  | nil => exact wellFormed_nil
  | cons text texts ih =>
    have hone : WellFormed [obsUserMessage text] := wellFormed_user text
    exact hone.append ih

theorem not_tool_of_starts {m : ChatMessage} (h : m.isToolBatchStart = true) : m.role ≠ .tool := by
  intro htool
  rw [ChatMessage.isToolBatchStart, htool] at h
  exact absurd h (by simp)

theorem head_not_tool (blocks : List Block) (m : ChatMessage)
    (hm : m ∈ (chainOf blocks).head?) : m.role ≠ .tool := by
  cases blocks with
  | nil => simp at hm
  | cons b bs =>
    cases b with
    | batch b =>
      have heq : b.call = m := by simpa [Block.messages] using hm
      rw [← heq]
      exact not_tool_of_starts b.starts
    | single n hn ht =>
      have heq : n = m := by simpa [Block.messages] using hm
      rwa [← heq]

/-! What a well formed chain looks like row by row. -/

/-- Every assistant row with tool calls is followed at once by one tool row for each call, with the
same ids in the same order, and by no further tool row. -/
def CallsAnswered (ms : List ChatMessage) : Prop :=
  ∀ before a after, ms = before ++ a :: after → a.isToolBatchStart = true →
    ∃ results rest, after = results ++ rest ∧ (∀ r ∈ results, r.role = .tool) ∧
      results.map (·.toolCallId) = (a.toolCalls.map fun c => some c.id) ∧
      ∀ m ∈ rest.head?, m.role ≠ .tool

/-- Every tool row stands among the tool rows that follow an assistant row with tool calls. -/
def NoStrayTool (ms : List ChatMessage) : Prop :=
  ∀ before t after, ms = before ++ t :: after → t.role = .tool →
    ∃ head a results, before = head ++ a :: results ∧ a.isToolBatchStart = true ∧
      ∀ r ∈ results, r.role = .tool

/-- Where a row of a concatenation stands. -/
theorem append_eq_append_cons {α : Type*} (l m before after : List α) (a : α)
    (h : l ++ m = before ++ a :: after) :
    (∃ x, l = before ++ a :: x ∧ after = x ++ m) ∨ (∃ y, before = l ++ y ∧ m = y ++ a :: after) := by
  obtain hy | hx := List.append_eq_append_iff.mp h
  · exact .inr hy
  · obtain ⟨x, hl, hm⟩ := hx
    cases x with
    | nil =>
      refine .inr ⟨[], ?_, ?_⟩
      · rw [List.append_nil] at hl ⊢
        exact hl.symm
      · exact hm.symm
    | cons b x =>
      rw [List.cons_append, List.cons.injEq] at hm
      obtain ⟨hab, hafter⟩ := hm
      exact .inl ⟨x, by rw [hl, hab], hafter⟩

theorem callsAnswered_chainOf (blocks : List Block) : CallsAnswered (chainOf blocks) := by
  induction blocks with
  | nil =>
    intro before a after h
    simp at h
  | cons b bs ih =>
    intro before a after h hstarts
    rw [chainOf_cons] at h
    obtain ⟨x, hx, hafter⟩ | ⟨y, -, hy⟩ := append_eq_append_cons _ _ _ _ _ h
    · cases b with
      | batch b =>
        obtain ⟨-, hcons⟩ | ⟨p, -, hp⟩ := List.append_eq_cons_iff.mp hx.symm
        · rw [List.cons.injEq] at hcons
          obtain ⟨ha, hrest⟩ := hcons
          refine ⟨b.results, chainOf bs, ?_, b.tools, ?_, head_not_tool bs⟩
          · rw [hafter, hrest]
          · rw [ha]
            exact b.answers
        · have hmem : a ∈ b.results := by
            rw [hp]
            exact List.mem_append_right _ List.mem_cons_self
          exact absurd (b.tools a hmem) (not_tool_of_starts hstarts)
      | single m hm ht =>
        have hmem : a ∈ [m] := by
          show a ∈ Block.messages (.single m hm ht)
          rw [hx]
          exact List.mem_append_right _ List.mem_cons_self
        rw [List.mem_singleton] at hmem
        rw [hmem, hm] at hstarts
        exact absurd hstarts Bool.false_ne_true
    · exact ih y a after hy hstarts

theorem noStrayTool_chainOf (blocks : List Block) : NoStrayTool (chainOf blocks) := by
  induction blocks with
  | nil =>
    intro before t after h
    simp at h
  | cons b bs ih =>
    intro before t after h htool
    rw [chainOf_cons] at h
    obtain ⟨x, hx, -⟩ | ⟨y, hbefore, hy⟩ := append_eq_append_cons _ _ _ _ _ h
    · cases b with
      | batch b =>
        obtain ⟨-, hcons⟩ | ⟨p, hp, hq⟩ := List.append_eq_cons_iff.mp hx.symm
        · rw [List.cons.injEq] at hcons
          rw [hcons.1] at htool
          exact absurd htool (not_tool_of_starts b.starts)
        · refine ⟨[], b.call, p, hp, b.starts, ?_⟩
          intro r hr
          apply b.tools r
          rw [hq]
          exact List.mem_append_left _ hr
      | single m hm ht =>
        have hmem : t ∈ [m] := by
          show t ∈ Block.messages (.single m hm ht)
          rw [hx]
          exact List.mem_append_right _ List.mem_cons_self
        rw [List.mem_singleton] at hmem
        rw [hmem] at htool
        exact absurd htool ht
    · obtain ⟨head, a, results, hsplit, hstarts, htools⟩ := ih y t after hy htool
      refine ⟨b.messages ++ head, a, results, ?_, hstarts, htools⟩
      rw [hbefore, hsplit, List.append_assoc]

/-- Rows in front of a chain that carry no tool calls leave every call answered. -/
theorem callsAnswered_append (meal chain : List ChatMessage)
    (hmeal : ∀ m ∈ meal, m.isToolBatchStart = false) (hchain : CallsAnswered chain) :
    CallsAnswered (meal ++ chain) := by
  intro before a after h hstarts
  obtain ⟨x, hx, -⟩ | ⟨y, -, hy⟩ := append_eq_append_cons _ _ _ _ _ h
  · have hmem : a ∈ meal := by
      rw [hx]
      exact List.mem_append_right _ List.mem_cons_self
    rw [hmeal a hmem] at hstarts
    exact absurd hstarts Bool.false_ne_true
  · exact hchain y a after hy hstarts

/-! Spans of a well formed chain. -/

def Block.kind : Block → SpanKind
  | .batch _ => .batch
  | .single m _ _ => if m.isHostInject then .inject else .other

def Block.span (b : Block) (i : Nat) : Span := ⟨b.kind, i, i + b.messages.length⟩

/-- One span a block, starting at row `i`. -/
def spansOf (i : Nat) : List Block → List Span
  | [] => []
  | b :: bs => b.span i :: spansOf (i + b.messages.length) bs

/-- Tool rows extend the batch the scan is in. -/
theorem groupSpansFrom_tools (start i : Nat) (results rest : List ChatMessage)
    (h : ∀ r ∈ results, r.role = .tool) :
    groupSpansFrom (some start) i (results ++ rest) =
      groupSpansFrom (some start) (i + results.length) rest := by
  induction results generalizing i with
  | nil => rfl
  | cons r results ih =>
    have hr : r.role = .tool := h r List.mem_cons_self
    have hrest : ∀ q ∈ results, q.role = .tool := fun q hq => h q (List.mem_cons_of_mem _ hq)
    rw [List.cons_append, groupSpansFrom, if_pos ⟨rfl, hr⟩, ih (i + 1) hrest, List.length_cons]
    congr 1
    omega

/-- A row that is no tool row ends the batch the scan is in. -/
theorem groupSpansFrom_close (start i : Nat) (rest : List ChatMessage)
    (h : ∀ m ∈ rest.head?, m.role ≠ .tool) :
    groupSpansFrom (some start) i rest = ⟨.batch, start, i⟩ :: groupSpansFrom none i rest := by
  cases rest with
  | nil => rfl
  | cons m rest =>
    have hm : m.role ≠ .tool := h m rfl
    have hclosed (batch : Option Nat) : ¬ (batch.isSome = true ∧ m.role = .tool) :=
      fun hc => hm hc.2
    rw [groupSpansFrom, groupSpansFrom, if_neg (hclosed _), if_neg (hclosed _)]
    rfl

theorem groupSpansFrom_chainOf (i : Nat) (blocks : List Block) :
    groupSpansFrom none i (chainOf blocks) = spansOf i blocks := by
  induction blocks generalizing i with
  | nil => rfl
  | cons b bs ih =>
    cases b with
    | batch b =>
      have hopen : ¬ ((none : Option Nat).isSome = true ∧ b.call.role = .tool) := by simp
      rw [chainOf_cons, Block.messages, List.cons_append, groupSpansFrom, if_neg hopen,
        if_pos b.starts, groupSpansFrom_tools i (i + 1) b.results _ b.tools,
        groupSpansFrom_close _ _ _ (head_not_tool bs), ih]
      simp [closeBatch, spansOf, Block.span, Block.kind, Block.messages, Nat.add_comm,
        Nat.add_left_comm]
    | single m hm ht =>
      rw [chainOf_cons, Block.messages, List.cons_append, groupSpansFrom, hm]
      cases hinject : m.isHostInject <;>
        simp [hinject, closeBatch, spansOf, Block.span, Block.kind, Block.messages, ih]

theorem groupChainSpans_chainOf (blocks : List Block) :
    groupChainSpans (chainOf blocks) = spansOf 0 blocks := groupSpansFrom_chainOf 0 blocks

/-- The spans that a filter keeps cut out whole blocks. -/
theorem flatMap_rows_spansOf (front : List ChatMessage) (blocks : List Block)
    (p : Span → Bool) (chain : List ChatMessage) (hchain : chain = front ++ chainOf blocks) :
    ∃ kept, List.Sublist kept blocks ∧
      ((spansOf front.length blocks).filter p).flatMap (rows chain) = chainOf kept := by
  induction blocks generalizing front with
  | nil => exact ⟨[], List.Sublist.refl _, rfl⟩
  | cons b bs ih =>
    have hnext : chain = (front ++ b.messages) ++ chainOf bs := by
      rw [hchain, chainOf_cons, List.append_assoc]
    obtain ⟨kept, hsub, hrows⟩ := ih (front ++ b.messages) hnext
    rw [List.length_append] at hrows
    have hcut : rows chain (b.span front.length) = b.messages := by
      rw [rows, Block.span, hnext, ← List.length_append, List.take_left', List.drop_left']
      · rfl
      · rfl
    rw [spansOf, List.filter_cons]
    split_ifs with hp
    · refine ⟨b :: kept, hsub.cons_cons b, ?_⟩
      rw [List.flatMap_cons, hcut, hrows, chainOf_cons]
    · exact ⟨kept, hsub.cons b, hrows⟩

theorem WellFormed.compress {chain : List ChatMessage} (h : WellFormed chain) :
    WellFormed (compressChainForReouter chain) := by
  obtain ⟨blocks, hblocks⟩ := h
  have hspans : groupChainSpans chain = spansOf ([] : List ChatMessage).length blocks := by
    rw [hblocks, groupChainSpans_chainOf]
    rfl
  rw [compressChainForReouter, hspans]
  obtain ⟨kept, -, hkept⟩ := flatMap_rows_spansOf [] blocks _ chain hblocks
  exact ⟨kept, hkept⟩

/-- The oldest batch span is the first batch block. -/
theorem batchSpans_spansOf (i : Nat) (blocks : List Block) (s : Span) (rest : List Span)
    (h : batchSpans (spansOf i blocks) = s :: rest) :
    ∃ before b after, blocks = before ++ b :: after ∧ s = b.span (i + (chainOf before).length) := by
  induction blocks generalizing i with
  | nil => simp [spansOf, batchSpans] at h
  | cons b bs ih =>
    rw [batchSpans, spansOf, List.filter_cons] at h
    split_ifs at h with hkind
    · rw [List.cons.injEq] at h
      exact ⟨[], b, bs, rfl, h.1.symm⟩
    · obtain ⟨before, c, after, hsplit, hs⟩ := ih _ h
      refine ⟨b :: before, c, after, by rw [hsplit, List.cons_append], ?_⟩
      rw [hs, chainOf_cons, List.length_append, Nat.add_assoc]

theorem WellFormed.drop {chain rest : List ChatMessage} (h : WellFormed chain)
    (hdrop : dropOldestBatch chain = some rest) : WellFormed rest := by
  obtain ⟨blocks, hblocks⟩ := h
  unfold dropOldestBatch at hdrop
  split at hdrop
  · rename_i oldest second more hspans
    rw [hblocks, groupChainSpans_chainOf] at hspans
    obtain ⟨before, b, after, hsplit, hspan⟩ := batchSpans_spansOf 0 blocks oldest _ hspans
    refine ⟨before ++ after, ?_⟩
    have hchain : chain = chainOf before ++ (b.messages ++ chainOf after) := by
      rw [hblocks, hsplit, chainOf_append, chainOf_cons]
    have hfront : chain.take oldest.start = chainOf before := by
      rw [hspan, hchain, Block.span, Nat.zero_add, List.take_left']
      rfl
    have hback : chain.drop oldest.stop = chainOf after := by
      rw [hspan, hchain, Block.span, Nat.zero_add, ← List.append_assoc, List.drop_left']
      rw [List.length_append]
    rw [← Option.some.inj hdrop, hfront, hback, chainOf_append]
  · exact absurd hdrop (by simp)

theorem WellFormed.dropWhileOver {chain : List ChatMessage} (exceeds : List ChatMessage → Bool)
    (fuel : Nat) (h : WellFormed chain) : WellFormed (dropWhileOver exceeds fuel chain) := by
  induction fuel generalizing chain with
  | zero => exact h
  | succ fuel ih =>
    rw [Loop.dropWhileOver]
    split_ifs with hover
    · cases hdrop : dropOldestBatch chain with
      | none => exact h
      | some rest => exact ih (h.drop hdrop)
    · exact h

section Truncate

variable (maxChars : Int) (m : ChatMessage)

theorem truncate_frame : (m.truncate maxChars).role = m.role ∧
    (m.truncate maxChars).toolCalls = m.toolCalls ∧
    (m.truncate maxChars).toolCallId = m.toolCallId := by
  unfold ChatMessage.truncate
  split <;> exact ⟨rfl, rfl, rfl⟩

theorem truncate_starts : (m.truncate maxChars).isToolBatchStart = m.isToolBatchStart := by
  obtain ⟨hrole, hcalls, -⟩ := truncate_frame maxChars m
  rw [ChatMessage.isToolBatchStart, hrole, hcalls]
  rfl

end Truncate

def Batch.truncate (maxChars : Int) (b : Batch) : Batch where
  call := b.call.truncate maxChars
  results := truncateChainToolContents b.results maxChars
  starts := (truncate_starts maxChars b.call).trans b.starts
  tools := by
    intro r hr
    obtain ⟨q, hq, hqr⟩ := List.mem_map.mp hr
    rw [← hqr, (truncate_frame maxChars q).1]
    exact b.tools q hq
  answers := by
    have hids : (·.toolCallId) ∘ ChatMessage.truncate maxChars = (·.toolCallId) :=
      funext fun q => (truncate_frame maxChars q).2.2
    rw [truncateChainToolContents, List.map_map, hids, b.answers,
      (truncate_frame maxChars b.call).2.1]

def Block.truncate (maxChars : Int) : Block → Block
  | .batch b => .batch (b.truncate maxChars)
  | .single m hm ht =>
    .single (m.truncate maxChars) ((truncate_starts maxChars m).trans hm)
      (by rwa [(truncate_frame maxChars m).1])

theorem truncate_chainOf (maxChars : Int) (blocks : List Block) :
    truncateChainToolContents (chainOf blocks) maxChars =
      chainOf (blocks.map (Block.truncate maxChars)) := by
  induction blocks with
  | nil => rfl
  | cons b bs ih =>
    have hb : truncateChainToolContents b.messages maxChars = (b.truncate maxChars).messages := by
      cases b <;> rfl
    rw [List.map_cons, chainOf_cons, chainOf_cons, ← ih, ← hb]
    exact List.map_append

theorem WellFormed.truncate {chain : List ChatMessage} (maxChars : Int) (h : WellFormed chain) :
    WellFormed (truncateChainToolContents chain maxChars) := by
  obtain ⟨blocks, hblocks⟩ := h
  exact ⟨_, by rw [hblocks, truncate_chainOf]⟩

end Elyra.Loop
