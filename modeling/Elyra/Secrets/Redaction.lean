import Elyra.Framework.Replace
import Elyra.Framework.Sorted
import Elyra.Secrets.Isolation

namespace Elyra.Secrets

open Json SecretsStore

def redactPlaceholder : List Char := ['*', '*', '*']

/-- One value replaced, when the text holds it. -/
def redactValue (text value : List Char) : List Char :=
  if value <:+: text then replaceAll value redactPlaceholder text else text

/-- The known values replaced, longest first. -/
def redactString (known : List String) (text : String) : String :=
  .ofList ((sortByDesc String.length (known.filter (· ≠ ""))).foldl
    (fun out value => redactValue out value.toList) text.toList)

mutual

def redactPayload (known : List String) : Json → Json
  | .str s => .str (redactString known s)
  | .arr xs => .arr (redactElems known xs)
  | .obj kvs => .obj (redactMembers known kvs)
  | .null => .null
  | .bool b => .bool b
  | .int n => .int n
  | .float x => .float x

def redactElems (known : List String) : List Json → List Json
  | [] => []
  | x :: xs => redactPayload known x :: redactElems known xs

def redactMembers (known : List String) : List (String × Json) → List (String × Json)
  | [] => []
  | (k, x) :: kvs => (k, redactPayload known x) :: redactMembers known kvs

end

structure WaitArm where
  waitId : String
  timeoutSeconds : Int
  prompt : String
  choices : List String
  userId : String
  deriving DecidableEq

structure ToolResult where
  ok : Bool
  payload : List (String × Json)
  errorReason : Option String := none
  endsMoment : Bool := false
  stopReason : Option String := none
  armWait : Option WaitArm := none
  countsAsSpeak : Bool := false

def controlToolKinds : List String := ["control", "speak"]

/-- `_enforce_control_policy`, for the kind in lower case. -/
def enforceControlPolicy (kind : String) (result : ToolResult) : ToolResult :=
  let free := kind ∈ controlToolKinds
  { result with
    endsMoment := if free then result.endsMoment else false
    stopReason := if free then result.stopReason else none
    armWait := if free then result.armWait else none
    countsAsSpeak := if kind = "speak" then result.countsAsSpeak else false }

mutual

/-- How many containers are nested in a payload. -/
def nesting : Json → Nat
  | .arr xs => elemNesting xs + 1
  | .obj kvs => memberNesting kvs + 1
  | .str _ | .null | .bool _ | .int _ | .float _ => 0

def elemNesting : List Json → Nat
  | [] => 0
  | x :: xs => max (nesting x) (elemNesting xs)

def memberNesting : List (String × Json) → Nat
  | [] => 0
  | (_, x) :: kvs => max (nesting x) (memberNesting kvs)

end

/-- `redact_tool_result_payload`: the copy and the walk go as deep as the stack has room for. -/
def redactToolResultPayload (room : Nat) (known : List String) (payload : List (String × Json)) :
    Except PyErr (List (String × Json)) :=
  if room < memberNesting payload then .error .recursionError
  else .ok (redactMembers known payload)

section Execute

variable [CaseFold]

/-- The values a result is redacted by: those of the store and those of the host's own login. -/
def redactionValues (s : SecretsStore) (authValues : List String) : List String :=
  if authValues = [] then s.knownValues else (s.knownValues ++ authValues).eraseDups

/-- What `execute` returns of the result of a tool that was started on the store. -/
def finishExecute (s : SecretsStore) (authValues : List String) (room : Nat) (kind : String)
    (result : ToolResult) : ToolResult :=
  let known := redactionValues s authValues
  enforceControlPolicy kind
    (if known = [] then result
    else
      match redactToolResultPayload room known result.payload with
      | .ok payload => { result with payload }
      | .error _ => result)

end Execute

mutual

/-- The texts of a payload that are not mapping keys. -/
def leaves : Json → List String
  | .str s => [s]
  | .arr xs => elemLeaves xs
  | .obj kvs => memberLeaves kvs
  | .null | .bool _ | .int _ | .float _ => []

def elemLeaves : List Json → List String
  | [] => []
  | x :: xs => leaves x ++ elemLeaves xs

def memberLeaves : List (String × Json) → List String
  | [] => []
  | (_, x) :: kvs => leaves x ++ memberLeaves kvs

end

mutual

/-- The mapping keys of a payload. -/
def payloadKeys : Json → List String
  | .arr xs => elemKeys xs
  | .obj kvs => memberKeys kvs
  | .str _ | .null | .bool _ | .int _ | .float _ => []

def elemKeys : List Json → List String
  | [] => []
  | x :: xs => payloadKeys x ++ elemKeys xs

def memberKeys : List (String × Json) → List String
  | [] => []
  | (k, x) :: kvs => k :: (payloadKeys x ++ memberKeys kvs)

end

def WaitArm.texts (w : WaitArm) : List String := w.waitId :: w.prompt :: w.userId :: w.choices

/-- The texts of a result that no redaction visits. -/
def ToolResult.plainTexts (r : ToolResult) : List String :=
  memberKeys r.payload ++ r.errorReason.toList ++ r.stopReason.toList ++
    (r.armWait.map WaitArm.texts).getD []

/-- The texts that `execute` passes on unread: those, and of a payload that is too deep the leaves
as well. -/
def ToolResult.unread (room : Nat) (kind : String) (r : ToolResult) : List String :=
  (enforceControlPolicy kind r).plainTexts ++
    if room < memberNesting r.payload then memberLeaves r.payload else []

def ToolResult.texts (r : ToolResult) : List String := r.plainTexts ++ memberLeaves r.payload

/-- The text holds the value. -/
def Holds (text value : String) : Prop := value.toList <:+: text.toList

section Redact

mutual

theorem leaves_redactPayload (known : List String) (j : Json) :
    leaves (redactPayload known j) = (leaves j).map (redactString known) := by
  cases j with
  | str s => rw [redactPayload, leaves, leaves, List.map_singleton]
  | arr xs => rw [redactPayload, leaves, leaves, elemLeaves_redactElems]
  | obj kvs => rw [redactPayload, leaves, leaves, memberLeaves_redactMembers]
  | null => rfl
  | bool b => rfl
  | int n => rfl
  | float x => rfl

theorem elemLeaves_redactElems (known : List String) (xs : List Json) :
    elemLeaves (redactElems known xs) = (elemLeaves xs).map (redactString known) := by
  cases xs with
  | nil => rfl
  | cons x xs =>
    rw [redactElems, elemLeaves, elemLeaves, List.map_append, leaves_redactPayload,
      elemLeaves_redactElems]

theorem memberLeaves_redactMembers (known : List String) (kvs : List (String × Json)) :
    memberLeaves (redactMembers known kvs) = (memberLeaves kvs).map (redactString known) := by
  cases kvs with
  | nil => rfl
  | cons p kvs =>
    rw [redactMembers, memberLeaves, memberLeaves, List.map_append, leaves_redactPayload,
      memberLeaves_redactMembers]

end

mutual

theorem payloadKeys_redactPayload (known : List String) (j : Json) :
    payloadKeys (redactPayload known j) = payloadKeys j := by
  cases j with
  | arr xs => rw [redactPayload, payloadKeys, payloadKeys, elemKeys_redactElems]
  | obj kvs => rw [redactPayload, payloadKeys, payloadKeys, memberKeys_redactMembers]
  | str s => rfl
  | null => rfl
  | bool b => rfl
  | int n => rfl
  | float x => rfl

theorem elemKeys_redactElems (known : List String) (xs : List Json) :
    elemKeys (redactElems known xs) = elemKeys xs := by
  cases xs with
  | nil => rfl
  | cons x xs =>
    rw [redactElems, elemKeys, elemKeys, payloadKeys_redactPayload, elemKeys_redactElems]

theorem memberKeys_redactMembers (known : List String) (kvs : List (String × Json)) :
    memberKeys (redactMembers known kvs) = memberKeys kvs := by
  cases kvs with
  | nil => rfl
  | cons p kvs =>
    rw [redactMembers, memberKeys, memberKeys, payloadKeys_redactPayload,
      memberKeys_redactMembers]

end

/-- A non-empty text without stars. -/
structure Plain (v : List Char) : Prop where
  nonempty : v ≠ []
  disjoint : List.Disjoint v redactPlaceholder

theorem plain_of_not_mem {v : List Char} (hne : v ≠ []) (hstar : '*' ∉ v) : Plain v := by
  refine ⟨hne, ?_⟩
  intro c hc hmem
  have heq : c = '*' := by simpa [redactPlaceholder] using hmem
  exact hstar (heq ▸ hc)

theorem Plain.infix {v w : List Char} (hv : Plain v) (hw : w ≠ []) (h : w <:+: v) : Plain w :=
  ⟨hw, fun _ hc => hv.disjoint (h.subset hc)⟩

theorem redactValue_keeps_out {v : List Char} (hv : Plain v) (text value : List Char)
    (h : ¬v <:+: text) : ¬v <:+: redactValue text value := by
  rw [redactValue]
  split_ifs
  · exact not_infix_replaceAll (by decide) hv.nonempty hv.disjoint text h
  · exact h

theorem redactValue_self {v : List Char} (hv : Plain v) (text : List Char) :
    ¬v <:+: redactValue text v := by
  rw [redactValue]
  split_ifs with hin
  · exact not_infix_replaceAll_self (by decide) hv.nonempty hv.disjoint text
  · exact hin

theorem foldl_keeps_out {v : List Char} (hv : Plain v) (values : List String) (text : List Char)
    (h : ¬v <:+: text) :
    ¬v <:+: values.foldl (fun out value => redactValue out value.toList) text := by
  induction values generalizing text with
  | nil => exact h
  | cons value values ih => exact ih _ (redactValue_keeps_out hv text value.toList h)

/-- A known value is not in any redacted text, whatever the other known values are. -/
theorem not_holds_redactString {known : List String} {value : String} (hv : Plain value.toList)
    (hknown : value ∈ known) (text : String) : ¬Holds (redactString known text) value := by
  have hne : value ≠ "" := by
    rintro rfl
    exact hv.nonempty rfl
  have hmem : value ∈ sortByDesc String.length (known.filter (· ≠ "")) := by
    rw [sortByDesc, List.mem_insertionSort, List.mem_filter]
    exact ⟨hknown, by simpa using hne⟩
  obtain ⟨before, after, hsplit⟩ := List.append_of_mem hmem
  rw [Holds, redactString, String.toList_ofList, hsplit, List.foldl_append, List.foldl_cons]
  exact foldl_keeps_out hv after _ (redactValue_self hv _)

/-- A text that holds no known value is not changed. -/
theorem redactString_of_free {known : List String} {text : String}
    (h : ∀ w ∈ known, w ≠ "" → ¬Holds text w) : redactString known text = text := by
  have hfree : ∀ w ∈ sortByDesc String.length (known.filter (· ≠ "")), ¬Holds text w := by
    intro w hw
    rw [sortByDesc, List.mem_insertionSort, List.mem_filter] at hw
    exact h w hw.1 (by simpa using hw.2)
  have hfold : ∀ values : List String, (∀ w ∈ values, ¬Holds text w) →
      values.foldl (fun out value => redactValue out value.toList) text.toList = text.toList := by
    intro values
    induction values with
    | nil => exact fun _ => rfl
    | cons w values ih =>
      intro hvalues
      have hw : redactValue text.toList w.toList = text.toList :=
        if_neg (hvalues w List.mem_cons_self)
      rw [List.foldl_cons, hw]
      exact ih fun u hu => hvalues u (List.mem_cons_of_mem w hu)
  rw [redactString, hfold _ hfree, String.ofList_toList]

end Redact

theorem valueText_ne {bytes : ByteArray} {value : String} (h : valueText bytes = some value) :
    value ≠ "" := by
  obtain ⟨cs, -, hbody⟩ := Option.bind_eq_some_iff.mp h
  dsimp only at hbody
  split_ifs at hbody with hlast hnil hnil
  all_goals
    rintro rfl
    have hempty := congrArg String.toList (Option.some.inj hbody)
    rw [String.toList_ofList] at hempty
    exact hnil hempty

section Leaks

variable [CaseFold]

/-- A value without `*` that the store holds. -/
def Stored (s : SecretsStore) (value : String) : Prop :=
  (∃ name, s.getValue name = some value) ∧ '*' ∉ value.toList

theorem Stored.plain {s : SecretsStore} {value : String} (h : Stored s value) :
    Plain value.toList := by
  obtain ⟨⟨name, hvalue⟩, hstar⟩ := h
  have hne : value ≠ "" := by
    cases hname : validateSecretName name with
    | error err =>
      rw [getValue, hname] at hvalue
      cases hvalue
    | ok key =>
      rw [getValue_eq hname] at hvalue
      obtain ⟨bytes, -, htext⟩ := Option.bind_eq_some_iff.mp hvalue
      exact valueText_ne htext
  apply plain_of_not_mem _ hstar
  intro hnil
  exact hne (String.toList_eq_nil_iff.mp hnil)

/-- No text of the result holds a stored value. -/
def NoLeak (s : SecretsStore) (r : ToolResult) : Prop :=
  ∀ value, Stored s value → ∀ text ∈ r.texts, ¬Holds text value

/-- The texts that are passed on unread hold no stored value: the mapping keys, the error reason,
of a control tool the stop reason and the wait, and every text of a payload that is too deep. -/
def Tidy (s : SecretsStore) (room : Nat) (kind : String) (r : ToolResult) : Prop :=
  ∀ value, Stored s value → ∀ text ∈ r.unread room kind, ¬Holds text value

/-- Every stored value has a known one in it. -/
def Covered (s : SecretsStore) (authValues : List String) : Prop :=
  ∀ value, Stored s value → ∃ w ∈ s.knownValues ++ authValues, w ≠ "" ∧ Holds value w

theorem mem_redactionValues (s : SecretsStore) (authValues : List String) (w : String) :
    w ∈ redactionValues s authValues ↔ w ∈ s.knownValues ++ authValues := by
  rw [redactionValues]
  split_ifs with hnil
  · rw [hnil, List.append_nil]
  · exact List.mem_eraseDups

theorem plainTexts_finish (s : SecretsStore) (authValues : List String) (room : Nat)
    (kind : String) (r : ToolResult) :
    (finishExecute s authValues room kind r).plainTexts =
      (enforceControlPolicy kind r).plainTexts := by
  by_cases hnil : redactionValues s authValues = []
  · simp only [finishExecute, if_pos hnil]
  by_cases hdeep : room < memberNesting r.payload
  · simp only [finishExecute, redactToolResultPayload, if_neg hnil, if_pos hdeep]
  simp only [finishExecute, redactToolResultPayload, if_neg hnil, if_neg hdeep]
  show memberKeys (redactMembers _ r.payload) ++ _ ++ _ ++ _ = _
  rw [memberKeys_redactMembers]
  rfl

theorem leaves_finish (s : SecretsStore) (authValues : List String) (room : Nat) (kind : String)
    (r : ToolResult) :
    memberLeaves (finishExecute s authValues room kind r).payload =
      if room < memberNesting r.payload then memberLeaves r.payload
      else (memberLeaves r.payload).map (redactString (redactionValues s authValues)) := by
  by_cases hnil : redactionValues s authValues = []
  · have hsame : redactString (redactionValues s authValues) = id := by
      funext text
      rw [hnil]
      exact redactString_of_free fun _ hw => absurd hw List.not_mem_nil
    simp only [finishExecute, if_pos hnil, hsame, List.map_id, ite_self]
    rfl
  by_cases hdeep : room < memberNesting r.payload
  · simp only [finishExecute, redactToolResultPayload, if_neg hnil, if_pos hdeep]
    rfl
  simp only [finishExecute, redactToolResultPayload, if_neg hnil, if_neg hdeep]
  exact memberLeaves_redactMembers _ _

omit [CaseFold] in
/-- No redacted text holds a value that has a known one in it. -/
theorem not_holds_of_covered {known : List String} {value w : String} (hv : Plain value.toList)
    (hw : w ∈ known) (hne : w ≠ "") (hin : Holds value w) (text : String) :
    ¬Holds (redactString known text) value := by
  intro hholds
  have hplain : Plain w.toList :=
    hv.infix (fun hnil => hne (String.toList_eq_nil_iff.mp hnil)) hin
  exact not_holds_redactString hplain hw text (hin.trans hholds)

/-- On a covered store a result leaks exactly by the texts that are passed on unread. -/
theorem noLeak_iff_tidy {s : SecretsStore} {authValues : List String} (h : Covered s authValues)
    (room : Nat) (kind : String) (r : ToolResult) :
    NoLeak s (finishExecute s authValues room kind r) ↔ Tidy s room kind r := by
  unfold NoLeak Tidy ToolResult.texts ToolResult.unread
  rw [plainTexts_finish, leaves_finish]
  by_cases hdeep : room < memberNesting r.payload
  · rw [if_pos hdeep, if_pos hdeep]
  rw [if_neg hdeep, if_neg hdeep, List.append_nil]
  constructor
  · exact fun hno value hvalue text htext => hno value hvalue text (List.mem_append_left _ htext)
  · intro htidy value hvalue text htext
    obtain hplain | hleaf := List.mem_append.mp htext
    · exact htidy value hvalue text hplain
    · obtain ⟨leaf, -, rfl⟩ := List.mem_map.mp hleaf
      obtain ⟨w, hw, hne, hin⟩ := h value hvalue
      exact not_holds_of_covered hvalue.plain ((mem_redactionValues s authValues w).mpr hw) hne
        hin leaf

/-- A tool that hands out one value. -/
def handsOut (value : String) : ToolResult := { ok := true, payload := [("", .str value)] }

omit [CaseFold] in
theorem handsOut_shallow (value : String) (room : Nat) :
    ¬room < memberNesting (handsOut value).payload := by
  simp [handsOut, memberNesting, nesting]

theorem tidy_handsOut (s : SecretsStore) (room : Nat) (kind value : String) :
    Tidy s room kind (handsOut value) := by
  intro v hv text htext
  rw [ToolResult.unread, if_neg (handsOut_shallow value room), List.append_nil] at htext
  have hplain := hv.plain
  have hempty : text = "" := by
    have hmem : text ∈ ["", ""].take 1 := by
      unfold enforceControlPolicy handsOut at htext
      by_cases hkind : kind ∈ controlToolKinds
      · simpa [ToolResult.plainTexts, hkind, memberKeys, payloadKeys] using htext
      · simpa [ToolResult.plainTexts, hkind, memberKeys, payloadKeys] using htext
    simpa using hmem
  intro hholds
  rw [hempty] at hholds
  exact hplain.nonempty (List.infix_nil.mp hholds)

/-- An uncovered value is handed out as it is. -/
theorem leak_of_uncovered {s : SecretsStore} {authValues : List String} {value : String}
    (hvalue : Stored s value)
    (hopen : ∀ w ∈ s.knownValues ++ authValues, w ≠ "" → ¬Holds value w) (room : Nat)
    (kind : String) : ¬NoLeak s (finishExecute s authValues room kind (handsOut value)) := by
  intro hno
  have hsame : redactString (redactionValues s authValues) value = value := by
    apply redactString_of_free
    intro w hw
    exact hopen w ((mem_redactionValues s authValues w).mp hw)
  apply hno value hvalue value
  · rw [ToolResult.texts, leaves_finish, if_neg (handsOut_shallow value room)]
    apply List.mem_append_right
    show value ∈ [redactString (redactionValues s authValues) value]
    rw [hsame]
    exact List.mem_singleton_self value
  · exact List.infix_rfl

/-- A step of a run: a call that goes through, or a `set_secret` cut off after the value write. -/
inductive SecretStep where
  | call (u : SecretUse)
  | cut (u : SecretUse)

def SecretStep.perform (s : SecretsStore) : SecretStep → SecretsStore
  | call u => u.perform s
  | cut u =>
    match u.call with
    | .set name value grants managedBy =>
      match s.plannedEntry u.now u.readFails name value grants managedBy with
      | .ok (key, _) => s.writeValue key value
      | .error _ => s
    | _ => s

/-- After any run: the tidy results leak nothing exactly when the store is covered, and then a
result leaks nothing exactly when it is tidy. -/
theorem tool_results_leak_iff (steps : List SecretStep) (authValues : List String) (room : Nat) :
    ((∀ kind r, Tidy (run SecretStep.perform fresh steps) room kind r →
        NoLeak (run SecretStep.perform fresh steps)
          (finishExecute (run SecretStep.perform fresh steps) authValues room kind r)) ↔
      Covered (run SecretStep.perform fresh steps) authValues) ∧
    (Covered (run SecretStep.perform fresh steps) authValues → ∀ kind r,
      (NoLeak (run SecretStep.perform fresh steps)
          (finishExecute (run SecretStep.perform fresh steps) authValues room kind r) ↔
        Tidy (run SecretStep.perform fresh steps) room kind r)) := by
  generalize run SecretStep.perform fresh steps = s
  refine ⟨⟨?_, ?_⟩, fun h => noLeak_iff_tidy h room⟩
  · intro hall value hvalue
    by_contra hopen
    have hfree : ∀ w ∈ s.knownValues ++ authValues, w ≠ "" → ¬Holds value w :=
      fun w hw hne hin => hopen ⟨w, hw, hne, hin⟩
    exact leak_of_uncovered hvalue hfree room "read"
      (hall "read" (handsOut value) (tidy_handsOut s room "read" value))
  · intro h kind r htidy
    exact (noLeak_iff_tidy h room kind r).mpr htidy

end Leaks

/-- The value of a `set_secret` that was cut off before the metadata write is not redacted. -/
theorem cut_secret_leaks :
    ¬ ∀ (_ : CaseFold) (steps : List SecretStep) (authValues : List String) (room : Nat)
      (kind : String) (r : ToolResult), NoLeak (run SecretStep.perform fresh steps)
        (finishExecute (run SecretStep.perform fresh steps) authValues room kind r) := by
  intro h
  have hno := h asciiFold [.cut (plainSet "gh_token" "x")] [] 1000 "read" (handsOut "x")
  have hvalue : @Stored asciiFold
      (@run _ _ (@SecretStep.perform asciiFold) fresh [.cut (plainSet "gh_token" "x")]) "x" :=
    ⟨⟨"gh_token", by decide +kernel⟩, by decide⟩
  exact hno "x" hvalue "x" (by decide +kernel) List.infix_rfl

end Elyra.Secrets
