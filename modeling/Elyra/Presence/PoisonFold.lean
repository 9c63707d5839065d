import Elyra.Presence.Continuous

namespace Elyra.Presence

open Json

section Infinite

/-- What rounds to an infinite float: twice the largest one less half its last place. -/
def overflowBound : Nat := 2 ^ 1024 - 2 ^ 970

/-- A decimal of these digits and this exponent of ten is past all finite floats. -/
def overflowsDecimal (digits : Nat) (exp : Int) : Bool :=
  if 0 ≤ exp then decide (overflowBound ≤ digits * 10 ^ exp.toNat)
  else decide (overflowBound * 10 ^ (-exp).toNat ≤ digits)

/-- A literal such as `1e999` parses to an infinite float. -/
def isInfinite : FloatLit → Bool
  | .decimal _ whole tenth frac exp =>
    overflowsDecimal ((tenth :: frac).foldl (fun n d => 10 * n + d.val) whole)
      (exp.getD 0 - (frac.length + 1))
  | .scientific _ whole exp => overflowsDecimal whole exp
  | .nan => false
  | .infinity _ => true

end Infinite

section Fold

variable [PyCoerce]

/-- `int(v)`: an infinite float overflows; what else it refuses is a `TypeError` or a
`ValueError`. -/
def intOrRaise (v : Json) : Except PyErr Int :=
  match v with
  | .float x => if isInfinite x then .error .overflowError else (pyInt v).elim (.error .typeError) .ok
  | _ => (pyInt v).elim (.error .typeError) .ok

def fieldOrRaise (data : List (String × Json)) (key : String) : Except PyErr Json :=
  (lookup data key).elim (.error (.keyError [.text key])) .ok

/-- `WakeItem.from_dict` with what it raises. -/
def RawWakeItem.fromDictOrRaise (data : List (String × Json)) : Except PyErr RawWakeItem := do
  let id ← fieldOrRaise data "id"
  let kind ← fieldOrRaise data "kind"
  let priority ← fieldOrRaise data "priority"
  let priority ← intOrRaise priority
  let createdAt ← fieldOrRaise data "created_at"
  let payload ← (pyDict ((lookup data "payload").getD .null)).elim (.error .typeError) .ok
  return ⟨pyStr id, pyStr kind, priority, pyStr createdAt, payload⟩

/-- What `_parse_wake_item` catches: `KeyError`, `TypeError` and `ValueError`. -/
def caught : PyErr → Bool
  | .keyError _ | .typeError | .valueError _ | .unicodeDecodeError => true
  | .osError | .overflowError | .recursionError => false

def parseOrRaise (data : List (String × Json)) (wakeId : String) :
    Except PyErr (Option WakeItem) :=
  match RawWakeItem.fromDictOrRaise data with
  | .ok item => .ok (do
    let kind ← WakeKind.ofText item.kind
    return ⟨wakeId, kind, kind.priority, item.createdAt, item.payload, kind.banded⟩)
  | .error e => if caught e then .ok none else .error e

def foldSlotOrRaise (slot : FoldedWake) (wakeId op : String) (ev : List (String × Json)) :
    Except PyErr FoldedWake :=
  if op = "enqueue" then
    match lookup ev "item" with
    | some (.obj data) => do
      match ← parseOrRaise data wakeId with
      | some item => return ⟨some item, some .enqueue, none, none⟩
      | none => return slot
    | _ => return slot
  else return foldSlot slot wakeId op ev

def foldEventOrRaise (state : Dict String FoldedWake) (ev : Json) :
    Except PyErr (Dict String FoldedWake) :=
  match ev with
  | .obj kvs =>
    match lookup kvs "wake_id", lookup kvs "op" with
    | some wakeId, some op => do
      let slot ← foldSlotOrRaise ((state.get? (pyStr wakeId)).getD {}) (pyStr wakeId) (pyStr op) kvs
      return state.set (pyStr wakeId) slot
    | _, _ => return state
  | _ => return state

/-- `fold_events` with what it raises. -/
def foldEventsOrRaise (events : List Json) : Except PyErr (Dict String FoldedWake) :=
  events.foldlM foldEventOrRaise .empty

/-- The id and the operation of an event that has both. -/
def eventHead (ev : Json) : Option (String × String × List (String × Json)) :=
  match ev with
  | .obj kvs => do
    let wakeId ← lookup kvs "wake_id"
    let op ← lookup kvs "op"
    return (pyStr wakeId, pyStr op, kvs)
  | _ => none

/-- An item whose priority is reached and is an infinite number. -/
def itemOverflows (data : List (String × Json)) : Bool :=
  (lookup data "id").isSome && (lookup data "kind").isSome &&
    match lookup data "priority" with
    | some (.float x) => isInfinite x
    | _ => false

def eventOverflows (ev : Json) : Bool :=
  match eventHead ev with
  | some (_, op, kvs) =>
    op = "enqueue" &&
      match lookup kvs "item" with
      | some (.obj data) => itemOverflows data
      | _ => false
  | none => false

/-- A well-formed event has an id and a known operation, and an enqueue an item that parses. -/
def wellFormed (ev : Json) : Bool :=
  match eventHead ev with
  | some (wakeId, op, kvs) =>
    if op = "enqueue" then
      match lookup kvs "item" with
      | some (.obj data) => (parseWakeItem data wakeId).isSome
      | _ => false
    else op = "claimed" || op = "done" || op = "cancelled"
  | none => false

theorem parseOrRaise_eq (data : List (String × Json)) (wakeId : String) :
    parseOrRaise data wakeId =
      if itemOverflows data then .error .overflowError else .ok (parseWakeItem data wakeId) := by
  unfold parseOrRaise RawWakeItem.fromDictOrRaise parseWakeItem RawWakeItem.fromDict itemOverflows
  unfold fieldOrRaise
  cases lookup data "id" with
  | none => rfl
  | some id =>
    cases lookup data "kind" with
    | none => rfl
    | some kind =>
      cases lookup data "priority" with
      | none => rfl
      | some priority =>
        have hrest : ∀ n : Except PyErr Int, ∀ m : Option Int,
            n = m.elim (.error .typeError) .ok →
            (match (do
                let n ← n
                let createdAt ← (lookup data "created_at").elim
                  (.error (.keyError [.text "created_at"])) .ok
                let payload ← (pyDict ((lookup data "payload").getD .null)).elim
                  (.error .typeError) .ok
                return (⟨pyStr id, pyStr kind, n, pyStr createdAt, payload⟩ : RawWakeItem)) with
              | .ok item => (.ok (do
                let kind ← WakeKind.ofText item.kind
                return ⟨wakeId, kind, kind.priority, item.createdAt, item.payload, rfl⟩) :
                  Except PyErr (Option WakeItem))
              | .error e => if caught e then .ok none else .error e) =
            .ok (do
              let item ← (do
                let n ← m
                let createdAt ← lookup data "created_at"
                let payload ← pyDict ((lookup data "payload").getD .null)
                return (⟨pyStr id, pyStr kind, n, pyStr createdAt, payload⟩ : RawWakeItem))
              let kind ← WakeKind.ofText item.kind
              return ⟨wakeId, kind, kind.priority, item.createdAt, item.payload, rfl⟩) := by
          rintro n m rfl
          cases m with
          | none => rfl
          | some n =>
            cases lookup data "created_at" with
            | none => rfl
            | some createdAt =>
              cases pyDict ((lookup data "payload").getD .null) with
              | none => rfl
              | some payload => rfl
        cases priority with
        | float x =>
          cases hx : isInfinite x with
          | true =>
            have hraise : ∀ n : Except PyErr Int, n = .error .overflowError →
                (match (do
                    let n ← n
                    let createdAt ← (lookup data "created_at").elim
                      (.error (.keyError [.text "created_at"])) .ok
                    let payload ← (pyDict ((lookup data "payload").getD .null)).elim
                      (.error .typeError) .ok
                    return (⟨pyStr id, pyStr kind, n, pyStr createdAt, payload⟩ : RawWakeItem)) with
                  | .ok item => (.ok (do
                    let kind ← WakeKind.ofText item.kind
                    return ⟨wakeId, kind, kind.priority, item.createdAt, item.payload, rfl⟩) :
                      Except PyErr (Option WakeItem))
                  | .error e => if caught e then .ok none else .error e) =
                .error .overflowError := by
              rintro n rfl
              rfl
            have hint : intOrRaise (.float x) = .error .overflowError := by
              simp only [intOrRaise, hx]
              rfl
            simp only [Option.isSome_some, Bool.and_self, hx]
            exact hraise _ hint
          | false =>
            have hint : intOrRaise (.float x) = (pyInt (.float x)).elim (.error .typeError) .ok := by
              simp only [intOrRaise, hx]
              rfl
            simp only [Option.isSome_some, Bool.and_self, hx]
            exact hrest _ _ hint
        | null => exact hrest _ (pyInt .null) rfl
        | bool b => exact hrest _ (pyInt (.bool b)) rfl
        | int n => exact hrest _ (pyInt (.int n)) rfl
        | str s => exact hrest _ (pyInt (.str s)) rfl
        | arr xs => exact hrest _ (pyInt (.arr xs)) rfl
        | obj kvs => exact hrest _ (pyInt (.obj kvs)) rfl

theorem foldEvent_head (state : Dict String FoldedWake) (ev : Json) :
    foldEvent state ev = match eventHead ev with
      | some (wakeId, op, kvs) =>
        state.set wakeId (foldSlot ((state.get? wakeId).getD {}) wakeId op kvs)
      | none => state := by
  cases ev with
  | obj kvs =>
    unfold foldEvent eventHead
    dsimp only
    cases lookup kvs "wake_id" with
    | none => rfl
    | some wakeId =>
      cases lookup kvs "op" with
      | none => rfl
      | some op => rfl
  | null | bool | int | float | str | arr => rfl

theorem foldEventOrRaise_head (state : Dict String FoldedWake) (ev : Json) :
    foldEventOrRaise state ev = match eventHead ev with
      | some (wakeId, op, kvs) =>
        (foldSlotOrRaise ((state.get? wakeId).getD {}) wakeId op kvs).map (state.set wakeId)
      | none => .ok state := by
  cases ev with
  | obj kvs =>
    unfold foldEventOrRaise eventHead
    dsimp only
    cases lookup kvs "wake_id" with
    | none => rfl
    | some wakeId =>
      cases lookup kvs "op" with
      | none => rfl
      | some op =>
        show (foldSlotOrRaise ((state.get? (pyStr wakeId)).getD {}) (pyStr wakeId) (pyStr op) kvs >>=
          _) = (foldSlotOrRaise _ (pyStr wakeId) (pyStr op) kvs).map _
        cases foldSlotOrRaise ((state.get? (pyStr wakeId)).getD {}) (pyStr wakeId) (pyStr op) kvs with
        | ok slot => rfl
        | error e => rfl
  | null | bool | int | float | str | arr => rfl

theorem foldEventOrRaise_eq (state : Dict String FoldedWake) (ev : Json) :
    foldEventOrRaise state ev =
      if eventOverflows ev then .error .overflowError else .ok (foldEvent state ev) := by
  rw [foldEventOrRaise_head, foldEvent_head, eventOverflows]
  cases eventHead ev with
  | none => rfl
  | some head =>
    obtain ⟨wakeId, op, kvs⟩ := head
    dsimp only
    unfold foldSlotOrRaise foldSlot
    by_cases henqueue : op = "enqueue"
    · simp only [henqueue, if_true, decide_true, Bool.true_and]
      cases lookup kvs "item" with
      | none => rfl
      | some item =>
        cases item with
        | obj data =>
          simp only [parseOrRaise_eq]
          cases itemOverflows data with
          | true => rfl
          | false => cases parseWakeItem data wakeId <;> rfl
        | null | bool | int | float | str | arr => rfl
    · simp only [henqueue, if_false, decide_false, Bool.false_and]
      rfl

/-- Only an infinite priority stops the fold. -/
theorem foldEventsOrRaise_eq (events : List Json) :
    foldEventsOrRaise events =
      if events.any eventOverflows then .error .overflowError else .ok (foldEvents events) := by
  have hfrom : ∀ (events : List Json) (state : Dict String FoldedWake),
      events.foldlM foldEventOrRaise state =
        if events.any eventOverflows then .error .overflowError
        else .ok (events.foldl foldEvent state) := by
    intro events
    induction events with
    | nil => exact fun _ => rfl
    | cons ev events ih =>
      intro state
      rw [List.foldlM_cons, foldEventOrRaise_eq, List.any_cons, List.foldl_cons]
      cases eventOverflows ev with
      | true => rfl
      | false => exact ih (foldEvent state ev)
  exact hfrom events .empty

theorem foldSlot_malformed (slot : FoldedWake) {ev : Json} {wakeId op : String}
    {kvs : List (String × Json)} (hhead : eventHead ev = some (wakeId, op, kvs))
    (hbad : wellFormed ev = false) : foldSlot slot wakeId op kvs = slot := by
  rw [wellFormed, hhead] at hbad
  dsimp only at hbad
  unfold foldSlot
  by_cases henqueue : op = "enqueue"
  · rw [if_pos henqueue] at hbad
    rw [if_pos henqueue]
    cases hitem : lookup kvs "item" with
    | none => rfl
    | some item =>
      rw [hitem] at hbad
      cases item with
      | obj data =>
        dsimp only at hbad ⊢
        rw [Option.isSome_eq_false_iff, Option.isNone_iff_eq_none] at hbad
        rw [hbad]
      | null | bool | int | float | str | arr => rfl
  · simp only [if_neg henqueue, Bool.or_eq_false_iff, decide_eq_false_iff_not] at hbad
    rw [if_neg henqueue, if_neg hbad.1.1, if_neg hbad.1.2, if_neg hbad.2]

/-- The fold of all events against that of the well-formed ones: a malformed one at most leaves an
empty slot. -/
theorem get?_foldEvents (events : List Json) (wakeId : String) :
    ((foldEvents events).get? wakeId).getD {} =
        ((foldEvents (events.filter wellFormed)).get? wakeId).getD {} ∧
      (((foldEvents events).get? wakeId).isSome = true ↔
        ∃ ev ∈ events, ∃ op kvs, eventHead ev = some (wakeId, op, kvs)) := by
  induction events using List.reverseRecOn with
  | nil => simp [foldEvents]
  | append_singleton events ev ih =>
    obtain ⟨hslot, hsome⟩ := ih
    have hsnoc : ∀ l : List Json, foldEvents (l ++ [ev]) = foldEvent (foldEvents l) ev := by
      intro l
      rw [foldEvents, List.foldl_append]
      rfl
    rw [hsnoc, List.filter_append]
    cases hhead : eventHead ev with
    | none =>
      have hbad : wellFormed ev = false := by
        rw [wellFormed, hhead]
      have hsame : foldEvent (foldEvents events) ev = foldEvents events := by
        rw [foldEvent_head, hhead]
      rw [hsame, List.filter_cons_of_neg (by rw [hbad]; decide), List.filter_nil, List.append_nil]
      refine ⟨hslot, hsome.trans ?_⟩
      simp only [List.mem_append, List.mem_singleton, or_and_right, exists_or, exists_eq_left, hhead]
      simp
    | some head =>
      obtain ⟨id, op, kvs⟩ := head
      have hset : foldEvent (foldEvents events) ev = (foldEvents events).set id
          (foldSlot (((foldEvents events).get? id).getD {}) id op kvs) := by
        rw [foldEvent_head, hhead]
      have hexists : (∃ e ∈ events ++ [ev], ∃ op kvs, eventHead e = some (wakeId, op, kvs)) ↔
          (∃ e ∈ events, ∃ op kvs, eventHead e = some (wakeId, op, kvs)) ∨ id = wakeId := by
        constructor
        · rintro ⟨e, he, op', kvs', hhead'⟩
          obtain hmem | heq := List.mem_append.mp he
          · exact .inl ⟨e, hmem, op', kvs', hhead'⟩
          · rw [List.mem_singleton.mp heq, hhead] at hhead'
            exact .inr (congrArg Prod.fst (Option.some.inj hhead'))
        · rintro (⟨e, he, hrest⟩ | rfl)
          · exact ⟨e, List.mem_append_left _ he, hrest⟩
          · exact ⟨ev, by simp, op, kvs, hhead⟩
      rw [hset, Dict.get?_set, hexists]
      refine ⟨?_, ?_⟩
      · cases hgood : wellFormed ev with
        | true =>
          rw [List.filter_cons_of_pos hgood, List.filter_nil, hsnoc, foldEvent_head, hhead]
          dsimp only
          rw [Dict.get?_set]
          by_cases hid : id = wakeId
          · subst hid
            rw [if_pos rfl, if_pos rfl, hslot]
          · rw [if_neg hid, if_neg hid, hslot]
        | false =>
          rw [List.filter_cons_of_neg (by rw [hgood]; decide), List.filter_nil, List.append_nil,
            foldSlot_malformed _ hhead hgood]
          by_cases hid : id = wakeId
          · subst hid
            rw [if_pos rfl, ← hslot]
            rfl
          · rw [if_neg hid, hslot]
      · by_cases hid : id = wakeId
        · simp [hid]
        · simp [hid, hsome]

/-- The fold returns, and says what the fold of the well-formed events says. -/
def PoisonIsolated (events : List Json) : Prop :=
  ∃ all good, foldEventsOrRaise events = .ok all ∧
    foldEventsOrRaise (events.filter wellFormed) = .ok good ∧ all.Same good

/-- A malformed line does no harm exactly when no enqueue carries an infinite priority and every
malformed event with an id and an operation shares its id with a well-formed one. -/
theorem poison_isolated_iff (events : List Json) :
    PoisonIsolated events ↔
      (∀ ev ∈ events, eventOverflows ev = false) ∧
        ∀ ev ∈ events, ∀ wakeId op kvs, eventHead ev = some (wakeId, op, kvs) →
          ∃ good ∈ events, wellFormed good = true ∧
            ∃ op kvs, eventHead good = some (wakeId, op, kvs) := by
  have hover : events.any eventOverflows = false ↔ ∀ ev ∈ events, eventOverflows ev = false := by
    rw [List.any_eq_false]
    simp only [Bool.not_eq_true]
  have hsub : (∀ ev ∈ events, eventOverflows ev = false) →
      foldEventsOrRaise (events.filter wellFormed) = .ok (foldEvents (events.filter wellFormed)) := by
    intro hnone
    rw [foldEventsOrRaise_eq, if_neg]
    rw [Bool.not_eq_true, List.any_eq_false]
    intro ev hev
    rw [hnone ev (List.mem_of_mem_filter hev)]
    decide
  have hfull : (∀ ev ∈ events, eventOverflows ev = false) →
      foldEventsOrRaise events = .ok (foldEvents events) := by
    intro hnone
    rw [foldEventsOrRaise_eq, hover.mpr hnone]
    rfl
  have hids : ∀ wakeId, (((foldEvents (events.filter wellFormed)).get? wakeId).isSome = true ↔
      ∃ good ∈ events, wellFormed good = true ∧
        ∃ op kvs, eventHead good = some (wakeId, op, kvs)) := by
    intro wakeId
    rw [(get?_foldEvents (events.filter wellFormed) wakeId).2]
    simp only [List.mem_filter, and_assoc]
  constructor
  · rintro ⟨all, good, hall, hgood, hsame⟩
    have hnone : ∀ ev ∈ events, eventOverflows ev = false := by
      rw [← hover]
      cases hany : events.any eventOverflows with
      | false => rfl
      | true =>
        rw [foldEventsOrRaise_eq, hany] at hall
        cases hall
    refine ⟨hnone, ?_⟩
    intro ev hev wakeId op kvs hhead
    rw [hfull hnone] at hall
    rw [hsub hnone] at hgood
    obtain rfl := Except.ok.inj hall
    obtain rfl := Except.ok.inj hgood
    rw [← hids wakeId, ← hsame wakeId, (get?_foldEvents events wakeId).2]
    exact ⟨ev, hev, op, kvs, hhead⟩
  · rintro ⟨hnone, hshared⟩
    refine ⟨_, _, hfull hnone, hsub hnone, ?_⟩
    intro wakeId
    obtain ⟨hslot, hsome⟩ := get?_foldEvents events wakeId
    have hboth : ((foldEvents events).get? wakeId).isSome =
        ((foldEvents (events.filter wellFormed)).get? wakeId).isSome := by
      rw [Bool.eq_iff_iff, hsome, hids wakeId]
      constructor
      · rintro ⟨ev, hev, op, kvs, hhead⟩
        exact hshared ev hev wakeId op kvs hhead
      · rintro ⟨good, hgood, -, hrest⟩
        exact ⟨good, hgood, hrest⟩
    cases hall : (foldEvents events).get? wakeId with
    | none =>
      rw [hall, Option.isSome_none] at hboth
      exact (Option.isSome_eq_false_iff.mp hboth.symm |> Option.isNone_iff_eq_none.mp).symm
    | some slot =>
      cases hgood : (foldEvents (events.filter wellFormed)).get? wakeId with
      | none =>
        rw [hall, hgood] at hboth
        cases hboth
      | some slot' =>
        rw [hall, hgood] at hslot
        exact congrArg some hslot

end Fold

section Sample

attribute [local instance] basicCoerce

/-- An enqueue whose priority reads `1e999`, before a healthy one. -/
def infinitePriorityEvents : List Json :=
  [.obj [("wake_id", .str "p"), ("op", .str "enqueue"), ("item", .obj [("id", .str "p"),
      ("kind", .str "timer"), ("priority", .float (.scientific false 1 999)),
      ("created_at", .str "2026-01-01T00:00:00.000001Z"), ("payload", .obj [])])],
    .obj [("wake_id", .str "w"), ("op", .str "enqueue"), ("item", .obj [("id", .str "w"),
      ("kind", .str "timer"), ("priority", .int 2),
      ("created_at", .str "2026-01-01T00:00:00.000002Z"), ("payload", .obj [])])]]

/-- The fold raises, and the healthy event is not loaded. -/
theorem infinite_priority_poisons_fold : ¬PoisonIsolated infinitePriorityEvents := by
  rintro ⟨all, good, hall, -⟩
  have hover : infinitePriorityEvents.any eventOverflows = true := by decide +kernel
  rw [foldEventsOrRaise_eq, hover] at hall
  cases hall

end Sample
end Elyra.Presence
