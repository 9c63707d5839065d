import Elyra.Framework.Effects
import Elyra.Loop.Messages
import Mathlib.Data.List.Basic

namespace Elyra.Loop

/-- A row of the sliding history. The serial number tells equal rows apart, as `id(msg)` does. -/
structure HistoryRow where
  serial : Nat
  role : Role
  content : String
  id : Option Json := none
  attachments : List Json := []

/-- What fills the placeholders of the orient template. -/
structure OrientValues where
  now : String
  self : String := ""
  user : String := ""
  whyNow : String := ""
  goals : String := ""
  skillCatalog : String := ""
  skillBias : String := ""

def OrientValues.fields (v : OrientValues) : List (String × String) :=
  [("NOW", v.now), ("SELF", v.self), ("USER", v.user), ("WHY_NOW", v.whyNow), ("GOALS", v.goals),
    ("SKILL_CATALOG", v.skillCatalog), ("SKILL_BIAS", v.skillBias)]

/-- The placeholder at the head of a text: its value and its length. -/
def placeholderAt (fields : List (String × String)) (text : List Char) :
    Option (List Char × Nat) :=
  fields.findSome? fun field =>
    let mark := ("\x7b\x7b" ++ field.1 ++ "\x7d\x7d").toList
    if mark.isPrefixOf text then some (field.2.toList, mark.length) else none

/-- Substitution from left to right; `skip` counts the characters of a placeholder just filled. -/
def fillChars (fields : List (String × String)) : Nat → List Char → List Char
  | _, [] => []
  | skip + 1, _ :: rest => fillChars fields skip rest
  | 0, c :: rest =>
    match placeholderAt fields (c :: rest) with
    | some (value, length) => value ++ fillChars fields (length - 1) rest
    | none => c :: fillChars fields 0 rest

/-- `fill_orient`: one pass, values are not scanned again. -/
def fillOrient (template : String) (values : OrientValues) : String :=
  .ofList (fillChars values.fields 0 template.toList)

/-- Budget and texts are the resolved ones. -/
structure OuterMealArgs where
  glassHistory : List Json
  slidingInputTokens : Int
  wakeContent : Option String := none
  wakeMessageId : Option String := none
  systemText : String
  orientTemplate : String
  orient : OrientValues
  retainIds : Bool := false

structure WireRow where
  role : Role
  content : String
  id : Option Json := none

section History

variable [PyCoerce]

def glassRole (row : Json) : Option Role :=
  match row.field? "role" with
  | some (.str "user") => some .user
  | some (.str "assistant") => some .assistant
  | _ => none

def attachmentsOf (row : Json) : List Json :=
  match row.field? "attachments" with
  | some (.arr atts) => atts
  | _ => []

/-- `row.get(key)`, with `None` for a missing key. -/
def present (row : Json) (key : String) : Option Json :=
  match row.field? key with
  | some .null => none
  | found => found

/-- A user or assistant row with content or attachments; reasoning is left out. -/
def historyRow (serial : Nat) (row : Json) : Option HistoryRow :=
  match glassRole row with
  | none => none
  | some role =>
    let content := strOr (row.field? "content") ""
    let attachments := attachmentsOf row
    if content = "" ∧ attachments = [] then none
    else some { serial, role, content, id := present row "id", attachments }

def glassToHistory (glass : List Json) : List HistoryRow :=
  (glass.zipIdx).filterMap fun p => historyRow p.2 p.1

/-- `if text:`. -/
def given (text : Option String) : Bool := text.getD "" ≠ ""

/-- `msg.get("id") == message_id`. -/
def hasId (messageId : Option String) (m : HistoryRow) : Bool :=
  match messageId, m.id with
  | some id, some (.str s) => s = id
  | _, _ => false

/-- The last user row. -/
def lastUser (history : List HistoryRow) : Option HistoryRow :=
  history.reverse.find? fun m => m.role = .user

/-- The wake is in the history: by its id, or as the content of the last user row. -/
def historyContainsWake (wakeContent wakeMessageId : Option String) (history : List HistoryRow) :
    Bool :=
  (given wakeMessageId && history.any (hasId wakeMessageId)) ||
    match wakeContent with
    | none => false
    | some content => (lastUser history).any fun m => m.content = content

/-- The row with the wake id. -/
def wakeById (wakeMessageId : Option String) (history : List HistoryRow) : Option HistoryRow :=
  if given wakeMessageId then history.find? (hasId wakeMessageId) else none

/-- The last user row with the wake content. -/
def wakeByContent (wakeContent : Option String) (history : List HistoryRow) : Option HistoryRow :=
  if given wakeContent then
    history.reverse.find? fun m => m.role = .user && decide (some m.content = wakeContent)
  else none

/-- The row that is never dropped: the one with the wake id, else the one with the content. -/
def selectProtectedTrigger (wakeContent wakeMessageId : Option String)
    (history : List HistoryRow) : Option HistoryRow :=
  (wakeById wakeMessageId history).or (wakeByContent wakeContent history)

/-- `mid in protected_ids`: a list or an object has no hash. -/
def inProtectedIds (wakeMessageId : Option String) : Json → Except PyErr Bool
  | .arr _ | .obj _ => .error .typeError
  | .str s => .ok (given wakeMessageId && decide (some s = wakeMessageId))
  | _ => .ok false

def isProtected (trigger : Option HistoryRow) (wakeMessageId : Option String) (m : HistoryRow) :
    Except PyErr Bool :=
  if trigger.any fun t => t.serial = m.serial then .ok true
  else
    match m.id with
    | none => .ok false
    | some mid => inProtectedIds wakeMessageId mid

section Drop

variable (shielded : HistoryRow → Except PyErr Bool)

/-- What follows a dropped row: the assistant row that answers it goes with it. -/
def dropAnswer (m : HistoryRow) : List HistoryRow → Except PyErr (List HistoryRow)
  | [] => .ok []
  | next :: later =>
    if m.role = .user && next.role = .assistant then do
      if ← shielded next then return next :: later else return later
    else .ok (next :: later)

/-- Drop the oldest row that is not protected, preferring full pairs. -/
def dropOldestHistory : List HistoryRow → Except PyErr (Option (List HistoryRow))
  | [] => .ok none
  | m :: rest => do
    if ← shielded m then return (← dropOldestHistory rest).map (m :: ·)
    else return some (← dropAnswer shielded m rest)

def historyTokens (history : List HistoryRow) : Nat :=
  (history.map fun m => estimateContentTokens (.str m.content)).sum

end Drop

variable {shielded : HistoryRow → Except PyErr Bool} {l l' : List HistoryRow}

omit [PyCoerce] in
theorem dropAnswer_ok {m : HistoryRow} (h : dropAnswer shielded m l = .ok l') :
    l'.Sublist l ∧ ∀ x ∈ l, shielded x = .ok true → x ∈ l' := by
  cases l with
  | nil =>
    cases h
    exact ⟨List.Sublist.refl _, fun x hx _ => hx⟩
  | cons next later =>
    rw [dropAnswer] at h
    split_ifs at h with hpair
    · obtain ⟨keepNext, hnext, h⟩ := except_bind_ok h
      cases keepNext with
      | true =>
        cases h
        exact ⟨List.Sublist.refl _, fun x hx _ => hx⟩
      | false =>
        cases h
        refine ⟨List.sublist_cons_self _ _, ?_⟩
        intro x hx hshield
        obtain rfl | hx := List.mem_cons.mp hx
        · rw [hnext] at hshield
          cases hshield
        · exact hx
    · cases h
      exact ⟨List.Sublist.refl _, fun x hx _ => hx⟩

omit [PyCoerce] in
theorem dropAnswer_error {m : HistoryRow} {err : PyErr} (h : dropAnswer shielded m l = .error err) :
    ∃ x ∈ l, shielded x = .error err := by
  cases l with
  | nil => cases h
  | cons next later =>
    rw [dropAnswer] at h
    split_ifs at h with hpair
    cases hnext : shielded next with
    | error err' =>
      rw [hnext] at h
      cases h
      exact ⟨next, List.mem_cons_self, hnext⟩
    | ok keepNext =>
      rw [hnext] at h
      cases keepNext <;> cases h

omit [PyCoerce] in
theorem dropOldestHistory_cons (m : HistoryRow) (rest : List HistoryRow) :
    dropOldestHistory shielded (m :: rest) = match shielded m with
      | .error err => .error err
      | .ok true => (dropOldestHistory shielded rest).map (Option.map (m :: ·))
      | .ok false => (dropAnswer shielded m rest).map some := by
  rw [dropOldestHistory]
  cases shielded m with
  | error err => rfl
  | ok kept =>
    cases kept with
    | true => cases dropOldestHistory shielded rest <;> rfl
    | false => cases dropAnswer shielded m rest <;> rfl

omit [PyCoerce] in
theorem dropOldestHistory_some (h : dropOldestHistory shielded l = .ok (some l')) :
    l'.Sublist l ∧ l'.length < l.length ∧ ∀ m ∈ l, shielded m = .ok true → m ∈ l' := by
  induction l generalizing l' with
  | nil => cases h
  | cons m rest ih =>
    rw [dropOldestHistory_cons] at h
    cases hm : shielded m with
    | error err =>
      rw [hm] at h
      cases h
    | ok kept =>
      rw [hm] at h
      cases kept with
      | true =>
        cases hrest : dropOldestHistory shielded rest with
        | error err =>
          rw [hrest] at h
          cases h
        | ok found =>
          rw [hrest] at h
          cases found with
          | none => cases h
          | some later =>
            cases h
            obtain ⟨hsub, hlen, hkeep⟩ := ih hrest
            refine ⟨hsub.cons_cons m, Nat.succ_lt_succ hlen, ?_⟩
            intro x hx hshield
            obtain rfl | hx := List.mem_cons.mp hx
            · exact List.mem_cons_self
            · exact List.mem_cons_of_mem _ (hkeep x hx hshield)
      | false =>
        cases hrest : dropAnswer shielded m rest with
        | error err =>
          rw [hrest] at h
          cases h
        | ok later =>
          rw [hrest] at h
          cases h
          obtain ⟨hsub, hkeep⟩ := dropAnswer_ok hrest
          refine ⟨hsub.cons m, Nat.lt_succ_of_le hsub.length_le, ?_⟩
          intro x hx hshield
          obtain rfl | hx := List.mem_cons.mp hx
          · rw [hm] at hshield
            cases hshield
          · exact hkeep x hx hshield

omit [PyCoerce] in
/-- Nothing is left to drop only when every row is protected. -/
theorem dropOldestHistory_none (h : dropOldestHistory shielded l = .ok none) :
    ∀ m ∈ l, shielded m = .ok true := by
  induction l with
  | nil =>
    intro m hm
    exact absurd hm List.not_mem_nil
  | cons m rest ih =>
    rw [dropOldestHistory_cons] at h
    cases hm : shielded m with
    | error err =>
      rw [hm] at h
      cases h
    | ok kept =>
      rw [hm] at h
      cases kept with
      | true =>
        cases hrest : dropOldestHistory shielded rest with
        | error err =>
          rw [hrest] at h
          cases h
        | ok found =>
          rw [hrest] at h
          cases found with
          | some later => cases h
          | none =>
            intro x hx
            obtain rfl | hx := List.mem_cons.mp hx
            · exact hm
            · exact ih hrest x hx
      | false =>
        cases hrest : dropAnswer shielded m rest with
        | error err =>
          rw [hrest] at h
          cases h
        | ok later =>
          rw [hrest] at h
          cases h

omit [PyCoerce] in
theorem dropOldestHistory_error {err : PyErr} (h : dropOldestHistory shielded l = .error err) :
    ∃ m ∈ l, shielded m = .error err := by
  induction l with
  | nil => cases h
  | cons m rest ih =>
    rw [dropOldestHistory_cons] at h
    cases hm : shielded m with
    | error err' =>
      rw [hm] at h
      cases h
      exact ⟨m, List.mem_cons_self, hm⟩
    | ok kept =>
      rw [hm] at h
      have hrest : ∃ x ∈ rest, shielded x = .error err := by
        cases kept with
        | true =>
          cases hrest : dropOldestHistory shielded rest with
          | error err' =>
            rw [hrest] at h
            cases h
            exact ih hrest
          | ok found =>
            rw [hrest] at h
            cases h
        | false =>
          cases hrest : dropAnswer shielded m rest with
          | error err' =>
            rw [hrest] at h
            cases h
            exact dropAnswer_error hrest
          | ok later =>
            rw [hrest] at h
            cases h
      obtain ⟨x, hx, hshield⟩ := hrest
      exact ⟨x, List.mem_cons_of_mem _ hx, hshield⟩

/-- Drop rows until the history fits or only protected ones are left. -/
def dropToBudget (shielded : HistoryRow → Except PyErr Bool) (fixedTokens : Nat) (budget : Int)
    (history : List HistoryRow) : Except PyErr (List HistoryRow) :=
  if history = [] then .ok []
  else if (fixedTokens + historyTokens history : Nat) ≤ budget then .ok history
  else
    match _h : dropOldestHistory shielded history with
    | .error err => .error err
    | .ok none => .ok history
    | .ok (some shorter) => dropToBudget shielded fixedTokens budget shorter
  termination_by history.length
  decreasing_by exact (dropOldestHistory_some _h).2.1

/-- The loop keeps the order and every protected row, and stops within the budget or with
protected rows only. -/
theorem dropToBudget_ok {fixedTokens : Nat} {budget : Int} {history kept : List HistoryRow}
    (h : dropToBudget shielded fixedTokens budget history = .ok kept) :
    kept.Sublist history ∧ (∀ m ∈ history, shielded m = .ok true → m ∈ kept) ∧
      (((fixedTokens + historyTokens kept : Nat) : Int) ≤ budget ∨
        ∀ m ∈ kept, shielded m = .ok true) := by
  induction hn : history.length using Nat.strong_induction_on generalizing history with
  | _ n ih =>
    subst hn
    rw [dropToBudget] at h
    split_ifs at h with hnil hfits
    · subst hnil
      cases h
      refine ⟨List.Sublist.refl _, fun m hm _ => hm, .inr ?_⟩
      intro m hm
      exact absurd hm List.not_mem_nil
    · cases h
      exact ⟨List.Sublist.refl _, fun m hm _ => hm, .inl hfits⟩
    · split at h
      · cases h
      · rename_i hnone
        cases h
        exact ⟨List.Sublist.refl _, fun m hm _ => hm, .inr (dropOldestHistory_none hnone)⟩
      · rename_i shorter hsome
        obtain ⟨hsub, hlen, hkeep⟩ := dropOldestHistory_some hsome
        obtain ⟨hkept, hall, hend⟩ := ih shorter.length hlen h rfl
        exact ⟨hkept.trans hsub, fun m hm hshield => hall m (hkeep m hm hshield) hshield, hend⟩

theorem dropToBudget_error {fixedTokens : Nat} {budget : Int} {history : List HistoryRow}
    {err : PyErr} (h : dropToBudget shielded fixedTokens budget history = .error err) :
    budget < ((fixedTokens + historyTokens history : Nat) : Int) ∧
      ∃ m ∈ history, shielded m = .error err := by
  induction hn : history.length using Nat.strong_induction_on generalizing history with
  | _ n ih =>
    subst hn
    rw [dropToBudget] at h
    split_ifs at h with hnil hfits
    refine ⟨Int.not_le.mp hfits, ?_⟩
    split at h
    · rename_i err' herr
      cases h
      exact dropOldestHistory_error herr
    · cases h
    · rename_i shorter hsome
      obtain ⟨hsub, hlen, -⟩ := dropOldestHistory_some hsome
      obtain ⟨-, m, hm, hshield⟩ := ih shorter.length hlen h rfl
      exact ⟨m, hsub.subset hm, hshield⟩

/-- The filtered history, with the trigger at its end when it is not in it. -/
def extendedHistory (args : OuterMealArgs) : List HistoryRow :=
  let history := glassToHistory args.glassHistory
  if given args.wakeContent &&
      !historyContainsWake args.wakeContent args.wakeMessageId history then
    history ++ [{ serial := args.glassHistory.length, role := .user
                  content := args.wakeContent.getD "", id := args.wakeMessageId.map .str }]
  else history

def orientBody (args : OuterMealArgs) : String := fillOrient args.orientTemplate args.orient

def fixedTokens (args : OuterMealArgs) : Nat :=
  estimateTokens args.systemText.toList + estimateTokens (orientBody args).toList

def wireRow (retainIds : Bool) (m : HistoryRow) : WireRow where
  role := m.role
  content := m.content
  id := if retainIds then m.id else none

/-- The rows that the call protects. -/
def triggerShield (args : OuterMealArgs) : HistoryRow → Except PyErr Bool :=
  isProtected (selectProtectedTrigger args.wakeContent args.wakeMessageId (extendedHistory args))
    args.wakeMessageId

/-- Outer prefix messages: system, sliding history, orient. -/
def assembleOuterMeal (args : OuterMealArgs) : Except PyErr (List WireRow) := do
  let history ← dropToBudget (triggerShield args) (fixedTokens args) args.slidingInputTokens
    (extendedHistory args)
  return { role := .system, content := args.systemText } ::
    (history.map (wireRow args.retainIds) ++ [{ role := .user, content := orientBody args }])

/-- What the rows between system and orient are. -/
structure MealKeeps (args : OuterMealArgs) (kept : List HistoryRow) : Prop where
  inOrder : kept.Sublist (extendedHistory args)
  byId : ∀ t, wakeById args.wakeMessageId (extendedHistory args) = some t → t ∈ kept
  byContent : wakeById args.wakeMessageId (extendedHistory args) = none →
    given args.wakeContent → ∃ t, wakeByContent args.wakeContent (extendedHistory args) = some t ∧
      t ∈ kept
  fits : ((fixedTokens args + historyTokens kept : Nat) : Int) ≤ args.slidingInputTokens ∨
    ∀ m ∈ kept, triggerShield args m = .ok true

omit [PyCoerce] in
theorem wakeById_mem {messageId : Option String} {history : List HistoryRow} {t : HistoryRow}
    (h : wakeById messageId history = some t) : t ∈ history := by
  rw [wakeById] at h
  split_ifs at h
  exact List.mem_of_find?_eq_some h

omit [PyCoerce] in
theorem wakeByContent_mem {content : Option String} {history : List HistoryRow} {t : HistoryRow}
    (h : wakeByContent content history = some t) : t ∈ history := by
  rw [wakeByContent] at h
  split_ifs at h
  exact List.mem_reverse.mp (List.mem_of_find?_eq_some h)

/-- With a wake content and no row of the wake id, a user row has the content. -/
theorem wakeByContent_extended {args : OuterMealArgs} (hgiven : given args.wakeContent)
    (hid : wakeById args.wakeMessageId (extendedHistory args) = none) :
    ∃ t, wakeByContent args.wakeContent (extendedHistory args) = some t := by
  have huser : ∃ t ∈ extendedHistory args,
      (t.role = .user && decide (some t.content = args.wakeContent)) = true := by
    obtain ⟨content, hcontent⟩ : ∃ content, args.wakeContent = some content := by
      cases hc : args.wakeContent with
      | none =>
        rw [hc] at hgiven
        cases hgiven
      | some content => exact ⟨content, rfl⟩
    rw [extendedHistory] at hid ⊢
    split_ifs at hid ⊢ with hinject
    · refine ⟨_, List.mem_append_right _ List.mem_cons_self, ?_⟩
      rw [hcontent]
      simp
    · -- the wake is in the history, and not by its id
      rw [hgiven, Bool.true_and, Bool.not_eq_true', Bool.not_eq_false, hcontent] at hinject
      unfold historyContainsWake at hinject
      rw [Bool.or_eq_true] at hinject
      obtain hany | hlast := hinject
      · rw [Bool.and_eq_true, List.any_eq_true] at hany
        obtain ⟨hgivenId, m, hm, hmid⟩ := hany
        rw [wakeById, if_pos hgivenId] at hid
        exact absurd hmid (List.find?_eq_none.mp hid m hm)
      · rw [Option.any_eq_true] at hlast
        obtain ⟨m, hm, hsame⟩ := hlast
        have hrole := List.find?_some hm
        refine ⟨m, List.mem_reverse.mp (List.mem_of_find?_eq_some hm), ?_⟩
        rw [hcontent, Bool.and_eq_true]
        refine ⟨hrole, decide_eq_true ?_⟩
        rw [of_decide_eq_true hsame]
  obtain ⟨t, ht, hwake⟩ := huser
  rw [wakeByContent, if_pos hgiven]
  apply Option.isSome_iff_exists.mp
  rw [List.find?_isSome]
  exact ⟨t, List.mem_reverse.mpr ht, hwake⟩

theorem triggerShield_trigger {args : OuterMealArgs} {t : HistoryRow}
    (h : selectProtectedTrigger args.wakeContent args.wakeMessageId (extendedHistory args) = some t) :
    triggerShield args t = .ok true := by
  rw [triggerShield, isProtected, h]
  exact if_pos (decide_eq_true rfl)

omit [PyCoerce] in
theorem inProtectedIds_error {messageId : Option String} {mid : Json} {err : PyErr}
    (h : inProtectedIds messageId mid = .error err) :
    err = .typeError ∧ ((∃ xs, mid = .arr xs) ∨ ∃ kvs, mid = .obj kvs) := by
  cases mid with
  | arr xs =>
    cases h
    exact ⟨rfl, .inl ⟨xs, rfl⟩⟩
  | obj kvs =>
    cases h
    exact ⟨rfl, .inr ⟨kvs, rfl⟩⟩
  | null => cases h
  | bool b => cases h
  | int n => cases h
  | float x => cases h
  | str s => cases h

theorem triggerShield_error {args : OuterMealArgs} {m : HistoryRow} {err : PyErr}
    (h : triggerShield args m = .error err) :
    err = .typeError ∧ ((∃ xs, m.id = some (.arr xs)) ∨ ∃ kvs, m.id = some (.obj kvs)) := by
  rw [triggerShield, isProtected] at h
  split_ifs at h
  cases hid : m.id with
  | none =>
    rw [hid] at h
    cases h
  | some mid =>
    rw [hid] at h
    obtain ⟨herr, hmid⟩ := inProtectedIds_error h
    refine ⟨herr, ?_⟩
    obtain ⟨xs, rfl⟩ | ⟨kvs, rfl⟩ := hmid
    · exact .inl ⟨xs, rfl⟩
    · exact .inr ⟨kvs, rfl⟩

/-- The meal is system, a sub-list of the extended history with the trigger in it, and orient; it
fits or only protected rows are left. Only an id without a hash raises. -/
theorem outer_meal_selection (args : OuterMealArgs) :
    match assembleOuterMeal args with
    | .ok meal => ∃ kept, meal = { role := .system, content := args.systemText } ::
        (kept.map (wireRow args.retainIds) ++ [{ role := .user, content := orientBody args }]) ∧
        MealKeeps args kept
    | .error err => err = .typeError ∧
        args.slidingInputTokens < ((fixedTokens args + historyTokens (extendedHistory args) : Nat) : Int) ∧
        ∃ m ∈ extendedHistory args, (∃ xs, m.id = some (.arr xs)) ∨ ∃ kvs, m.id = some (.obj kvs) := by
  rw [assembleOuterMeal]
  cases hrun : dropToBudget (triggerShield args) (fixedTokens args) args.slidingInputTokens
      (extendedHistory args) with
  | error err =>
    obtain ⟨hbudget, m, hm, hshield⟩ := dropToBudget_error hrun
    obtain ⟨herr, hid⟩ := triggerShield_error hshield
    exact ⟨herr, hbudget, m, hm, hid⟩
  | ok kept =>
    obtain ⟨hsub, hkeep, hend⟩ := dropToBudget_ok hrun
    refine ⟨kept, rfl, hsub, ?_, ?_, hend⟩
    · intro t ht
      have htrigger : selectProtectedTrigger args.wakeContent args.wakeMessageId
          (extendedHistory args) = some t := by
        rw [selectProtectedTrigger, ht]
        rfl
      exact hkeep t (wakeById_mem ht) (triggerShield_trigger htrigger)
    · intro hid hgiven
      obtain ⟨t, ht⟩ := wakeByContent_extended hgiven hid
      have htrigger : selectProtectedTrigger args.wakeContent args.wakeMessageId
          (extendedHistory args) = some t := by
        rw [selectProtectedTrigger, hid, ht]
        rfl
      exact ⟨t, ht, hkeep t (wakeByContent_mem ht) (triggerShield_trigger htrigger)⟩

end History

section Sample

attribute [local instance] basicCoerce

/-- A row whose id is a list, in a history over the budget. -/
def listIdMeal : OuterMealArgs where
  glassHistory := [.obj [("role", .str "user"), ("content", .str "hello"), ("id", .arr [])]]
  slidingInputTokens := 0
  systemText := ""
  orientTemplate := ""
  orient := { now := "" }

theorem outer_meal_list_id : assembleOuterMeal listIdMeal = .error .typeError := by
  unfold assembleOuterMeal
  rw [dropToBudget]
  rfl

end Sample
end Elyra.Loop
