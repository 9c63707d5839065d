import Elyra.Presence.TimerRows

namespace Elyra.Presence

open Json

inductive Phase where
  | idle | inMoment | waiting
  deriving DecidableEq

inductive Route where
  | interject | waitReply | userMessage
  deriving DecidableEq

namespace Interject

def maxMessages : Nat := 8

def maxChars : Nat := 16000

end Interject

structure InterjectItem where
  content : String
  userId : String
  messageId : Option String
  deriving DecidableEq

def charsOf (items : List InterjectItem) : Nat := (items.map (fun it => it.content.length)).sum

/-- The mid-moment buffer, with the characters it holds. -/
structure InterjectBuffer where
  items : List InterjectItem
  chars : Nat
  counted : chars = charsOf items

namespace InterjectBuffer

def empty : InterjectBuffer := ⟨[], 0, List.sum_nil.symm⟩

def reasonBufferFull : String := "interjection_buffer_full"

/-- The first limit that is hit refuses the message. -/
def tryAdd (b : InterjectBuffer) (item : InterjectItem) : Option InterjectBuffer :=
  if Interject.maxMessages ≤ b.items.length then none
  else if Interject.maxChars < b.chars + item.content.length then none
  else some ⟨b.items ++ [item], b.chars + item.content.length, by
    rw [b.counted, charsOf, charsOf, List.map_append, List.sum_append]
    rfl⟩

theorem items_tryAdd {b c : InterjectBuffer} {item : InterjectItem} (h : b.tryAdd item = some c) :
    c.items = b.items ++ [item] := by
  unfold tryAdd at h
  split_ifs at h
  obtain rfl := Option.some.inj h
  rfl

end InterjectBuffer

/-- What a caller is told of its input; an absent field is not in the answer. -/
structure Reply where
  ok : Bool
  routed : Option Route := none
  error : Option String := none
  reason : Option String := none
  wakeId : Option String := none
  waitId : Option String := none
  messageId : Option String := none
  cancelStaleWait : Option Bool := none
  answerWaitId : Option String := none

structure InputDecision where
  routed : Route
  ok : Bool
  reason : Option String
  cancelStaleWait : Bool
  answerWaitId : Option String

def pendingWaitMatchesUser (pendingWait : Option PendingWait) (userId : String) : Bool :=
  pendingWait.any (fun w => w.status = .pending && w.userId = userId)

def waitIdOf (pendingWait : Option PendingWait) : Option String :=
  (pendingWait.map PendingWait.id).filter (· ≠ "")

/-- `resolve_user_input` of `user_input.py`: where a text goes. -/
def decideUserInput (content userId : String) (choice : Option String) (fromWaitApi : Bool)
    (phase : Phase) (pendingWait : Option PendingWait) (hasAttachments : Bool) : InputDecision :=
  let text := stripText content
  let choiceS := (choice.map stripText).getD ""
  if phase = .inMoment then
    if text = "" && !hasAttachments then ⟨.interject, false, some "empty_content", false, none⟩
    else ⟨.interject, true, none, false, none⟩
  else
    let matched := pendingWaitMatchesUser pendingWait userId
    let wid := if matched then waitIdOf pendingWait else none
    if matched && (fromWaitApi || phase = .waiting) then
      if text = "" && choiceS = "" then ⟨.waitReply, false, some "empty_content", false, wid⟩
      else ⟨.waitReply, true, none, false, wid⟩
    else if text = "" && !hasAttachments then
      ⟨.userMessage, false, some "empty_content", false, none⟩
    else ⟨.userMessage, true, none, matched, none⟩

/-- The route of an input is the phase's: into the moment when one is open, and never otherwise. -/
theorem routed_interject_iff (content userId : String) (choice : Option String)
    (fromWaitApi : Bool) (phase : Phase) (pendingWait : Option PendingWait)
    (hasAttachments : Bool) :
    (decideUserInput content userId choice fromWaitApi phase pendingWait hasAttachments).routed =
      .interject ↔ phase = .inMoment := by
  unfold decideUserInput
  by_cases hphase : phase = .inMoment
  · simp only [hphase, if_true]
    split_ifs <;> simp
  · simp only [hphase, if_false, iff_false]
    split_ifs <;> simp

end Elyra.Presence
