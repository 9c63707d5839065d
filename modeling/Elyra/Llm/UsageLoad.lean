import Elyra.Framework.Json.Parse
import Elyra.Llm.Usage
import Elyra.Presence.PoisonFold

namespace Elyra.Llm

open Json Presence

/-- The float nearest to an integer that is not past the finite ones. -/
class FloatOfInt where
  ofInt : Int → FloatLit

/-- `usage.json` as a start finds it. -/
inductive UsageFile where
  | missing
  | unreadable
  | bytes (content : ByteArray)

/-- The decoded file; `none` where the read, the text or the JSON is bad. What `json.loads` raises
beside its `JSONDecodeError` is not caught. -/
def readUsage [JsonLimits] : UsageFile → Except PyErr (Option Json)
  | .missing | .unreadable => .ok none
  | .bytes content =>
    match decodeUtf8 content with
    | none => .ok none
    | some text =>
      match JsonLimits.raises text with
      | some e => .error e
      | none => .ok (loads text)

section Load

variable [PyCoerce] [FloatOfInt]

/-- `float(v)` of a number; a boolean is none. -/
def numberField : Json → Option (Except PyErr FloatLit)
  | .int n => some (if overflowBound ≤ n.natAbs then .error .overflowError
      else .ok (FloatOfInt.ofInt n))
  | .float x => some (.ok x)
  | _ => none

/-- `int(v)` where a `TypeError` or a `ValueError` gives the default. -/
def intOrDefault (v : Json) (fallback : Int) : Except PyErr Int :=
  match intOrRaise v with
  | .ok n => .ok n
  | .error .overflowError => .error .overflowError
  | .error _ => .ok fallback

/-- A counter: a number that is not negative, else zero. -/
def intField (raw : List (String × Json)) (key : String) : Except PyErr Nat :=
  match lookup raw key with
  | some (.int n) => .ok n.toNat
  | some (.float x) => do return (← intOrDefault (.float x) 0).toNat
  | _ => .ok 0

def textOrNone (raw : List (String × Json)) (key : String) : Option String :=
  match lookup raw key with
  | some (.str s) => some s
  | _ => none

def boolOrNone (raw : List (String × Json)) (key : String) : Option Bool :=
  match lookup raw key with
  | some (.bool b) => some b
  | _ => none

/-- The schema version; one that is no number counts as the first. -/
def schemaVersion (raw : List (String × Json)) : Except PyErr Int :=
  match lookup raw "schema_version" with
  | none | some (.bool _) => .ok 1
  | some v => intOrDefault v 1

/-- The halves of a text around its first slash. -/
def splitSlash (text : String) : Option (String × String) :=
  let chars := text.toList
  if '/' ∈ chars then
    some (.ofList (chars.takeWhile (· ≠ '/')), .ofList ((chars.dropWhile (· ≠ '/')).drop 1))
  else none

/-- The authority of a period whose file names none. -/
def defaultPeriodAuthority (periodId weekId : String) : Except PyErr PeriodAuthority :=
  if periodId = "" ∨ isIsoWeekPeriodId periodId ∨ periodId = weekId then .ok .iso
  else
    match splitSlash periodId with
    | none => .ok .iso
    | some (start, stop) => do
      if (← parseIsoDatetime (some start)) = none then return .iso
      else if (← parseIsoDatetime (some stop)) = none then return .iso
      else return .supergrok

/-- The period id of the file, the week's when it has none. -/
def namedPeriod (raw : List (String × Json)) (weekId : String) : String :=
  match lookup raw "period_id" with
  | some (.str s) => if s = "" then weekId else s
  | _ => weekId

def declaredAuthority (raw : List (String × Json)) : Option PeriodAuthority :=
  match lookup raw "period_authority" with
  | some (.str s) => if s = "iso" then some .iso else if s = "supergrok" then some .supergrok else none
  | _ => none

def loadedAuthority (raw : List (String × Json)) (weekId : String) : Except PyErr PeriodAuthority :=
  match declaredAuthority raw with
  | some authority => .ok authority
  | none => defaultPeriodAuthority (namedPeriod raw weekId) weekId

/-- The nested object; what is no object is ignored. -/
def supergrokOf (raw : List (String × Json)) : List (String × Json) :=
  match lookup raw "supergrok" with
  | some (.obj sg) => sg
  | _ => []

def creditPercent (sg : List (String × Json)) : Except PyErr (Option FloatLit) :=
  match (lookup sg "credit_usage_percent").bind numberField with
  | some r => r.map some
  | none => .ok none

/-- A member of the billing list: its product and its percent. -/
def billedProduct : Json → Option (String × Json)
  | .obj item =>
    match lookup item "product" with
    | some (.str product) =>
      if product = "" then none
      else some (product, ((lookup item "usagePercent").or (lookup item "usage_percent")).getD .null)
    | _ => none
  | _ => none

/-- The products of `coerce_product_usage`, of an object or of a billing list. -/
def productPairs : Option Json → List (String × Json)
  | some (.obj kvs) => (Dict.ofList kvs).items
  | some (.arr items) => items.filterMap billedProduct
  | _ => []

def addProduct (out : Dict String FloatLit) (p : String × Json) :
    Except PyErr (Dict String FloatLit) :=
  match numberField p.2 with
  | some r => r.map fun x => out.set p.1 x
  | none => .ok out

def loadedProducts (raw : Option Json) : Except PyErr (Option (Dict String FloatLit)) := do
  let out ← (productPairs raw).foldlM addProduct .empty
  return if out.items = [] then none else some out

/-- `override is True`. -/
def loadedOverride (raw : List (String × Json)) : Bool :=
  lookup raw "hard_stop_override" = some (.bool true)

/-- `_apply_loaded_unlocked`; the last hard stop is left to the sync that follows. -/
def UsageMeter.applyLoaded (raw : List (String × Json)) (m : UsageMeter) :
    Except PyErr UsageMeter := do
  let weekId := strOr (lookup raw "week_id") m.weekId
  let weekUsed ← intField raw "week_used_tokens"
  let dayUsed ← intField raw "day_used_tokens"
  let hourUsed ← intField raw "hour_used_tokens"
  let weekCached ← intField raw "week_cached_tokens"
  let weekSttCalls ← intField raw "week_stt_calls"
  let weekTtsCalls ← intField raw "week_tts_calls"
  let schema ← schemaVersion raw
  let authority ← loadedAuthority raw weekId
  let sg := supergrokOf raw
  let percent ← creditPercent sg
  let products ← loadedProducts (lookup sg "product_usage")
  return { m with
    weekId, weekUsed, dayUsed, hourUsed, weekCached, weekSttCalls, weekTtsCalls
    dayId := strOr (lookup raw "day_id") m.dayId
    hourId := strOr (lookup raw "hour_id") m.hourId
    lastRecordAt := textOrNone raw "last_record_at"
    hardStopOverride := loadedOverride raw
    -- a first-version file has the identity of its ISO week
    periodId := if schema < 2 then weekId else namedPeriod raw weekId
    periodAuthority := if schema < 2 then .iso else authority
    sgCreditUsagePercent := percent.or m.sgCreditUsagePercent
    periodStart := (textOrNone sg "period_start").or m.periodStart
    periodEnd := (textOrNone sg "period_end").or m.periodEnd
    sgStatus := (textOrNone sg "status").or m.sgStatus
    sgFetchedAt := (textOrNone sg "fetched_at").or m.sgFetchedAt
    sgPeriodType := (textOrNone sg "period_type").or m.sgPeriodType
    sgIsUnified := (boolOrNone sg "is_unified").or m.sgIsUnified
    sgProductUsage := products.or m.sgProductUsage }

/-- The clock as a load reads it. -/
structure LoadClock where
  init : Instant
  roll : Instant
  sync : Instant

variable [UsageFloat]

/-- `UsageMeter.load`: a file that is missing, unreadable or no object starts a zeroed meter. -/
def loadMeter [JsonLimits] (settings : UsageSettings) (file : UsageFile) (clock : LoadClock) :
    Except PyErr UsageMeter := do
  match ← readUsage file with
  | some (.obj raw) =>
    let m ← (UsageMeter.new settings clock.init).applyLoaded raw
    (m.refreshed settings clock.roll).syncHardStopFields settings clock.sync
  | _ => return UsageMeter.new settings clock.roll

/-- The numbers of the file that are converted to integers. -/
def numberKeys : List String :=
  ["week_used_tokens", "day_used_tokens", "hour_used_tokens", "week_cached_tokens",
    "week_stt_calls", "week_tts_calls", "schema_version"]

/-- No infinite float under the key. -/
def FiniteAt (raw : List (String × Json)) (key : String) : Prop :=
  ∀ x, lookup raw key = some (.float x) → isInfinite x = false

/-- The integer has a float. -/
def Convertible (v : Json) : Prop := ∀ n, v = .int n → n.natAbs < overflowBound

/-- The zone of the text does not lead out of the years 1 to 9999. -/
def InRange (text : Option String) : Prop := ∃ t, parseIsoDatetime text = .ok t

def Dated (text : Option String) : Prop := ∃ t, parseIsoDatetime text = .ok (some t)

/-- Two texts that are read one after the other, the second only when the first is a date. -/
def ReadInTurn (first second : Option String) : Prop :=
  InRange first ∧ (Dated first → InRange second)

def IsNumber (v : Option Json) : Prop := (∃ n, v = some (.int n)) ∨ ∃ x, v = some (.float x)

/-- The text of the file keeps within the limits of `json.loads` on digits and nesting. -/
def WithinLimits [JsonLimits] (file : UsageFile) : Prop :=
  ∀ content text, file = .bytes content → decodeUtf8 content = some text →
    JsonLimits.raises text = none

/-- What an object must meet to be loaded by a start in the week of `weekId`. -/
structure Loadable (weekId : String) (raw : List (String × Json)) : Prop where
  numbers : ∀ key ∈ numberKeys, FiniteAt raw key
  period : declaredAuthority raw = none → ∀ start stop,
    let weekId := strOr (lookup raw "week_id") weekId
    let period := namedPeriod raw weekId
    ¬(period = "" ∨ isIsoWeekPeriodId period ∨ period = weekId) →
      splitSlash period = some (start, stop) → ReadInTurn (some start) (some stop)
  percent : ∀ v, lookup (supergrokOf raw) "credit_usage_percent" = some v → Convertible v
  products : ∀ p ∈ productPairs (lookup (supergrokOf raw) "product_usage"), Convertible p.2
  account : textOrNone (supergrokOf raw) "status" = some "ok" →
    IsNumber (lookup (supergrokOf raw) "credit_usage_percent") →
      ReadInTurn (textOrNone (supergrokOf raw) "period_start")
        (textOrNone (supergrokOf raw) "fetched_at")

section Steps

variable {raw sg : List (String × Json)} {key : String} {v : Json}

omit [PyCoerce] [FloatOfInt] [UsageFloat] in
theorem exists_bind_ok {α β : Type} {m : Except PyErr α} {f : α → Except PyErr β} :
    (∃ b, (m >>= f) = .ok b) ↔ ∃ a, m = .ok a ∧ ∃ b, f a = .ok b := by
  constructor
  · rintro ⟨b, h⟩
    obtain ⟨a, ha, hb⟩ := except_bind_ok h
    exact ⟨a, ha, b, hb⟩
  · rintro ⟨a, rfl, b, hb⟩
    exact ⟨b, hb⟩

omit [FloatOfInt] [UsageFloat] in
theorem intOrDefault_ok {fallback : Int} : (∃ n, intOrDefault v fallback = .ok n) ↔
    ∀ x, v = .float x → isInfinite x = false := by
  have hother : ∀ r : Option Int, ∃ n, (match r.elim (Except.error PyErr.typeError) Except.ok with
      | .ok n => Except.ok n
      | .error .overflowError => .error PyErr.overflowError
      | .error _ => .ok fallback) = .ok n := by
    intro r
    cases r with
    | none => exact ⟨fallback, rfl⟩
    | some n => exact ⟨n, rfl⟩
  rw [intOrDefault]
  cases v with
  | float x =>
    rw [intOrRaise]
    by_cases hx : isInfinite x = true
    · rw [if_pos hx]
      constructor
      · rintro ⟨n, hn⟩
        cases hn
      · intro h
        rw [h x rfl] at hx
        cases hx
    · rw [if_neg hx]
      refine ⟨fun _ y hy => ?_, fun _ => hother _⟩
      cases hy
      exact Bool.eq_false_iff.mpr hx
  | int n =>
    refine ⟨fun _ y hy => ?_, fun _ => ⟨n, rfl⟩⟩
    cases hy
  | _ =>
    refine ⟨fun _ y hy => ?_, fun _ => hother _⟩
    cases hy

omit [FloatOfInt] [UsageFloat] in
/-- A counter is read unless it is an infinite float. -/
theorem intField_ok : (∃ n, intField raw key = .ok n) ↔ FiniteAt raw key := by
  rw [intField, FiniteAt]
  cases hv : lookup raw key with
  | none => exact ⟨fun _ x hx => (nomatch hx), fun _ => ⟨0, rfl⟩⟩
  | some v =>
    cases v with
    | float x =>
      dsimp only
      rw [exists_bind_ok]
      constructor
      · rintro ⟨n, hn, -⟩ y hy
        cases hy
        exact intOrDefault_ok.mp ⟨n, hn⟩ x rfl
      · intro h
        have hread : ∃ n, intOrDefault (.float x) 0 = .ok n := by
          apply intOrDefault_ok.mpr
          intro y hy
          cases hy
          exact h x rfl
        obtain ⟨n, hn⟩ := hread
        exact ⟨n, hn, n.toNat, rfl⟩
    | _ => exact ⟨fun _ x hx => (nomatch hx), fun _ => ⟨_, rfl⟩⟩

omit [FloatOfInt] [UsageFloat] in
theorem schemaVersion_ok : (∃ n, schemaVersion raw = .ok n) ↔ FiniteAt raw "schema_version" := by
  rw [schemaVersion, FiniteAt]
  cases hv : lookup raw "schema_version" with
  | none => exact ⟨fun _ x hx => (nomatch hx), fun _ => ⟨1, rfl⟩⟩
  | some v =>
    have hsome : (∀ x, some v = some (.float x) → isInfinite x = false) ↔
        ∀ x, v = .float x → isInfinite x = false := by
      simp only [Option.some.injEq]
    rw [hsome]
    cases v with
    | bool b => exact ⟨fun _ x hx => (nomatch hx), fun _ => ⟨1, rfl⟩⟩
    | _ => exact intOrDefault_ok

omit [PyCoerce] [UsageFloat] in
theorem numberField_ok : (∀ r, numberField v = some r → ∃ x, r = .ok x) ↔ Convertible v := by
  cases v with
  | int n =>
    rw [numberField]
    split_ifs with hbound
    · constructor
      · intro h
        obtain ⟨x, hx⟩ := h _ rfl
        cases hx
      · intro h
        exact absurd hbound (Nat.not_le.mpr (h n rfl))
    · constructor
      · intro _ k hk
        cases hk
        exact Nat.not_le.mp hbound
      · intro _ r hr
        exact ⟨_, (Option.some.inj hr).symm⟩
  | float x =>
    refine ⟨fun _ n hn => (nomatch hn), fun _ r hr => ?_⟩
    exact ⟨x, (Option.some.inj hr).symm⟩
  | _ => exact ⟨fun _ n hn => (nomatch hn), fun _ r hr => (nomatch hr)⟩

omit [PyCoerce] [UsageFloat] in
theorem creditPercent_ok : (∃ p, creditPercent sg = .ok p) ↔
    ∀ v, lookup sg "credit_usage_percent" = some v → Convertible v := by
  rw [creditPercent]
  cases hv : lookup sg "credit_usage_percent" with
  | none => exact ⟨fun _ v hv => (nomatch hv), fun _ => ⟨none, rfl⟩⟩
  | some v =>
    have hsome : (∀ w, some v = some w → Convertible w) ↔ Convertible v :=
      ⟨fun h => h v rfl, fun h w hw => Option.some.inj hw ▸ h⟩
    rw [hsome, ← numberField_ok, Option.bind_some]
    cases hn : numberField v with
    | none => exact ⟨fun _ r hr => (nomatch hr), fun _ => ⟨none, rfl⟩⟩
    | some r =>
      cases r with
      | ok x => exact ⟨fun _ r hr => ⟨x, (Option.some.inj hr).symm⟩, fun _ => ⟨some x, rfl⟩⟩
      | error err =>
        constructor
        · rintro ⟨p, hp⟩
          cases hp
        · intro h
          obtain ⟨x, hx⟩ := h _ rfl
          cases hx

omit [PyCoerce] [UsageFloat] in
theorem creditPercent_some {p : Option FloatLit} (h : creditPercent sg = .ok p) :
    p ≠ none ↔ IsNumber (lookup sg "credit_usage_percent") := by
  rw [creditPercent] at h
  rw [IsNumber]
  cases hv : lookup sg "credit_usage_percent" with
  | none =>
    rw [hv] at h
    cases h
    simp
  | some v =>
    rw [hv, Option.bind_some] at h
    cases v with
    | int n =>
      rw [numberField] at h
      split_ifs at h with hbound
      · cases h
      · cases h
        simp
    | _ =>
      cases h
      simp

omit [PyCoerce] [UsageFloat] in
theorem addProducts_ok (pairs : List (String × Json)) (out : Dict String FloatLit) :
    (∃ d, pairs.foldlM addProduct out = .ok d) ↔ ∀ p ∈ pairs, Convertible p.2 := by
  induction pairs generalizing out with
  | nil => exact ⟨fun _ p hp => absurd hp List.not_mem_nil, fun _ => ⟨out, rfl⟩⟩
  | cons p rest ih =>
    rw [List.foldlM_cons, exists_bind_ok, List.forall_mem_cons, ← numberField_ok]
    constructor
    · rintro ⟨next, hnext, hrest⟩
      refine ⟨?_, (ih next).mp hrest⟩
      intro r hr
      rw [addProduct, hr] at hnext
      cases r with
      | ok x => exact ⟨x, rfl⟩
      | error err => cases hnext
    · rintro ⟨hp, hrest⟩
      have hadd : ∃ next, addProduct out p = .ok next := by
        rw [addProduct]
        cases hn : numberField p.2 with
        | none => exact ⟨out, rfl⟩
        | some r =>
          obtain ⟨x, rfl⟩ := hp r hn
          exact ⟨_, rfl⟩
      obtain ⟨next, hnext⟩ := hadd
      exact ⟨next, hnext, (ih next).mpr hrest⟩

omit [PyCoerce] [UsageFloat] in
theorem loadedProducts_ok {products : Option Json} :
    (∃ d, loadedProducts products = .ok d) ↔ ∀ p ∈ productPairs products, Convertible p.2 := by
  rw [loadedProducts, exists_bind_ok, ← addProducts_ok _ .empty]
  constructor
  · rintro ⟨out, hout, -⟩
    exact ⟨out, hout⟩
  · rintro ⟨out, hout⟩
    exact ⟨out, hout, _, rfl⟩

omit [PyCoerce] [FloatOfInt] [UsageFloat] in
/-- Reading two dates in turn raises only on one that leaves the calendar. -/
theorem readInTurn_iff {first second : Option String} {α : Type} {here : α}
    {next : Option Instant → Except PyErr α} (hnext : ∀ date, ∃ a, next date = .ok a) :
    (∃ a, (do
      let date ← parseIsoDatetime first
      if date = none then return here
      else
        let later ← parseIsoDatetime second
        next later) = .ok a) ↔ ReadInTurn first second := by
  rw [exists_bind_ok]
  constructor
  · rintro ⟨date, hdate, hrest⟩
    refine ⟨⟨date, hdate⟩, ?_⟩
    rintro ⟨t, ht⟩
    rw [hdate] at ht
    cases ht
    rw [if_neg (by simp), exists_bind_ok] at hrest
    obtain ⟨later, hlater, -⟩ := hrest
    exact ⟨later, hlater⟩
  · rintro ⟨⟨date, hdate⟩, hsecond⟩
    refine ⟨date, hdate, ?_⟩
    cases date with
    | none => exact ⟨here, rfl⟩
    | some t =>
      obtain ⟨later, hlater⟩ := hsecond ⟨t, hdate⟩
      rw [if_neg (by simp), exists_bind_ok]
      exact ⟨later, hlater, hnext later⟩

omit [PyCoerce] [FloatOfInt] [UsageFloat] in
theorem defaultPeriodAuthority_ok {period weekId : String} :
    (∃ a, defaultPeriodAuthority period weekId = .ok a) ↔
      ∀ start stop, ¬(period = "" ∨ isIsoWeekPeriodId period ∨ period = weekId) →
        splitSlash period = some (start, stop) → ReadInTurn (some start) (some stop) := by
  rw [defaultPeriodAuthority]
  by_cases hiso : period = "" ∨ isIsoWeekPeriodId period ∨ period = weekId
  · rw [if_pos hiso]
    exact ⟨fun _ _ _ hnot => absurd hiso hnot, fun _ => ⟨_, rfl⟩⟩
  · rw [if_neg hiso]
    cases hsplit : splitSlash period with
    | none => exact ⟨fun _ _ _ _ h => (nomatch h), fun _ => ⟨_, rfl⟩⟩
    | some halves =>
      obtain ⟨start, stop⟩ := halves
      have hturn : (∃ a, _ = Except.ok a) ↔ ReadInTurn (some start) (some stop) :=
        @readInTurn_iff _ _ _ PeriodAuthority.iso
          (fun date => if date = none then pure .iso else pure .supergrok)
          fun date => by split_ifs <;> exact ⟨_, rfl⟩
      refine hturn.trans ⟨fun h start' stop' _ heq => ?_, fun h => h start stop hiso rfl⟩
      cases heq
      exact h

omit [PyCoerce] [FloatOfInt] [UsageFloat] in
theorem loadedAuthority_ok {weekId : String} : (∃ a, loadedAuthority raw weekId = .ok a) ↔
    (declaredAuthority raw = none → ∀ start stop,
      ¬(namedPeriod raw weekId = "" ∨ isIsoWeekPeriodId (namedPeriod raw weekId) ∨
        namedPeriod raw weekId = weekId) →
          splitSlash (namedPeriod raw weekId) = some (start, stop) →
            ReadInTurn (some start) (some stop)) := by
  rw [loadedAuthority]
  cases declaredAuthority raw with
  | some authority => exact ⟨fun _ h => (nomatch h), fun _ => ⟨authority, rfl⟩⟩
  | none =>
    dsimp only
    rw [defaultPeriodAuthority_ok]
    exact ⟨fun h _ => h, fun h => h rfl⟩

end Steps

section Account

variable {settings : UsageSettings} {now sync : Instant} {m : UsageMeter}

omit [PyCoerce] [FloatOfInt] in
/-- The account is read from fields that a refresh of the windows leaves alone. -/
theorem accountUsage_refreshed :
    (m.refreshed settings now).accountUsage settings sync = m.accountUsage settings sync := by
  have hfields : (m.refreshed settings now).sgStatus = m.sgStatus ∧
      (m.refreshed settings now).sgCreditUsagePercent = m.sgCreditUsagePercent ∧
      (m.refreshed settings now).periodStart = m.periodStart ∧
      (m.refreshed settings now).sgFetchedAt = m.sgFetchedAt := by
    simp only [UsageMeter.refreshed, UsageMeter.refreshHour, UsageMeter.refreshDay,
      UsageMeter.refreshWeek]
    split_ifs <;> exact ⟨rfl, rfl, rfl, rfl⟩
  obtain ⟨hstatus, hpercent, hstart, hfetched⟩ := hfields
  rw [UsageMeter.accountUsage, UsageMeter.accountUsage, hstatus, hpercent, hstart, hfetched]

omit [PyCoerce] [FloatOfInt] in
theorem accountUsage_ok : (∃ a, m.accountUsage settings now = .ok a) ↔
    (m.sgStatus = some "ok" → m.sgCreditUsagePercent ≠ none →
      ReadInTurn m.periodStart m.sgFetchedAt) := by
  rw [UsageMeter.accountUsage]
  by_cases hstatus : m.sgStatus = some "ok"
  · rw [if_neg (not_not.mpr hstatus)]
    by_cases hpercent : m.sgCreditUsagePercent = none
    · simp only [if_pos hpercent]
      exact ⟨fun _ _ hne => absurd hpercent hne, fun _ => ⟨_, rfl⟩⟩
    · simp only [if_neg hpercent]
      refine Iff.trans (@readInTurn_iff _ _ _ (none : Option FloatLit) _ ?_)
        ⟨fun h _ _ => h, fun h => h hstatus hpercent⟩
      intro fetched
      cases fetched <;> exact ⟨_, rfl⟩
  · rw [if_pos hstatus]
    exact ⟨fun _ hok => absurd hok hstatus, fun _ => ⟨none, rfl⟩⟩

omit [PyCoerce] [FloatOfInt] in
theorem syncHardStopFields_iff : (∃ t, m.syncHardStopFields settings now = .ok t) ↔
    ∃ a, m.accountUsage settings now = .ok a := by
  rw [UsageMeter.syncHardStopFields, exists_bind_ok, UsageMeter.hardStopLevel]
  constructor
  · rintro ⟨level, hlevel, -⟩
    obtain ⟨account, haccount, -⟩ := except_bind_ok hlevel
    exact ⟨account, haccount⟩
  · rintro ⟨account, haccount⟩
    refine ⟨_, by rw [haccount]; rfl, ?_⟩
    rw [UsageMeter.hardStopReason, UsageMeter.hardStopLevel, haccount]
    exact ⟨_, rfl⟩

omit [PyCoerce] [FloatOfInt] in
theorem syncHardStopFields_override {t : UsageMeter}
    (h : m.syncHardStopFields settings now = .ok t) : t.hardStopOverride = m.hardStopOverride := by
  obtain ⟨level, -, h⟩ := except_bind_ok h
  obtain ⟨reason, -, h⟩ := except_bind_ok h
  cases h
  rfl

omit [PyCoerce] [FloatOfInt] [UsageFloat] in
theorem refreshed_override : (m.refreshed settings now).hardStopOverride = m.hardStopOverride := by
  simp only [UsageMeter.refreshed, UsageMeter.refreshHour, UsageMeter.refreshDay,
    UsageMeter.refreshWeek]
  split_ifs <;> rfl

end Account

section Whole

variable [JsonLimits]
variable {settings : UsageSettings} {clock : LoadClock} {raw : List (String × Json)}

omit [UsageFloat] [JsonLimits] in
/-- What `_apply_loaded_unlocked` leaves of a fresh meter. -/
theorem applyLoaded_spec {m t : UsageMeter} (h : m.applyLoaded raw = .ok t) :
    t.hardStopOverride = loadedOverride raw ∧
      t.sgStatus = (textOrNone (supergrokOf raw) "status").or m.sgStatus ∧
      t.periodStart = (textOrNone (supergrokOf raw) "period_start").or m.periodStart ∧
      t.sgFetchedAt = (textOrNone (supergrokOf raw) "fetched_at").or m.sgFetchedAt ∧
      ∃ percent, creditPercent (supergrokOf raw) = .ok percent ∧
        t.sgCreditUsagePercent = percent.or m.sgCreditUsagePercent := by
  rw [UsageMeter.applyLoaded] at h
  obtain ⟨weekUsed, -, h⟩ := except_bind_ok h
  obtain ⟨dayUsed, -, h⟩ := except_bind_ok h
  obtain ⟨hourUsed, -, h⟩ := except_bind_ok h
  obtain ⟨weekCached, -, h⟩ := except_bind_ok h
  obtain ⟨stt, -, h⟩ := except_bind_ok h
  obtain ⟨tts, -, h⟩ := except_bind_ok h
  obtain ⟨schema, -, h⟩ := except_bind_ok h
  obtain ⟨authority, -, h⟩ := except_bind_ok h
  obtain ⟨percent, hpercent, h⟩ := except_bind_ok h
  obtain ⟨products, -, h⟩ := except_bind_ok h
  cases h
  exact ⟨rfl, rfl, rfl, rfl, percent, hpercent, rfl⟩

omit [UsageFloat] [JsonLimits] in
/-- The fields are read exactly when no conversion overflows. -/
theorem applyLoaded_ok {m : UsageMeter} : (∃ t, m.applyLoaded raw = .ok t) ↔
    (∀ key ∈ numberKeys, FiniteAt raw key) ∧
      (∃ a, loadedAuthority raw (strOr (lookup raw "week_id") m.weekId) = .ok a) ∧
      (∀ v, lookup (supergrokOf raw) "credit_usage_percent" = some v → Convertible v) ∧
      ∀ p ∈ productPairs (lookup (supergrokOf raw) "product_usage"), Convertible p.2 := by
  simp only [numberKeys, List.forall_mem_cons, List.not_mem_nil, false_imp_iff, implies_true,
    and_true]
  rw [UsageMeter.applyLoaded]
  constructor
  · rintro ⟨t, h⟩
    obtain ⟨weekUsed, hweek, h⟩ := except_bind_ok h
    obtain ⟨dayUsed, hday, h⟩ := except_bind_ok h
    obtain ⟨hourUsed, hhour, h⟩ := except_bind_ok h
    obtain ⟨weekCached, hcached, h⟩ := except_bind_ok h
    obtain ⟨stt, hstt, h⟩ := except_bind_ok h
    obtain ⟨tts, htts, h⟩ := except_bind_ok h
    obtain ⟨schema, hschema, h⟩ := except_bind_ok h
    obtain ⟨authority, hauthority, h⟩ := except_bind_ok h
    obtain ⟨percent, hpercent, h⟩ := except_bind_ok h
    obtain ⟨products, hproducts, h⟩ := except_bind_ok h
    refine ⟨⟨intField_ok.mp ⟨_, hweek⟩, intField_ok.mp ⟨_, hday⟩, intField_ok.mp ⟨_, hhour⟩,
      intField_ok.mp ⟨_, hcached⟩, intField_ok.mp ⟨_, hstt⟩, intField_ok.mp ⟨_, htts⟩,
      schemaVersion_ok.mp ⟨_, hschema⟩⟩, ⟨authority, hauthority⟩, ?_, ?_⟩
    · exact creditPercent_ok.mp ⟨percent, hpercent⟩
    · exact loadedProducts_ok.mp ⟨products, hproducts⟩
  · rintro ⟨⟨hweek, hday, hhour, hcached, hstt, htts, hschema⟩, ⟨authority, hauthority⟩, hpercent,
      hproducts⟩
    obtain ⟨weekUsed, hweek⟩ := intField_ok.mpr hweek
    obtain ⟨dayUsed, hday⟩ := intField_ok.mpr hday
    obtain ⟨hourUsed, hhour⟩ := intField_ok.mpr hhour
    obtain ⟨weekCached, hcached⟩ := intField_ok.mpr hcached
    obtain ⟨stt, hstt⟩ := intField_ok.mpr hstt
    obtain ⟨tts, htts⟩ := intField_ok.mpr htts
    obtain ⟨schema, hschema⟩ := schemaVersion_ok.mpr hschema
    obtain ⟨percent, hpercent⟩ := creditPercent_ok.mpr hpercent
    obtain ⟨products, hproducts⟩ := loadedProducts_ok.mpr hproducts
    dsimp only
    rw [hweek, hday, hhour, hcached, hstt, htts, hschema, hauthority, hpercent, hproducts]
    exact ⟨_, rfl⟩

/-- A load gives a meter, and the override only where the file is an object with the literal
`true`. -/
def FailSoft (settings : UsageSettings) (file : UsageFile) (clock : LoadClock) : Prop :=
  ∃ m, loadMeter settings file clock = .ok m ∧ (m.hardStopOverride = true →
    ∃ raw, readUsage file = .ok (some (.obj raw)) ∧
      lookup raw "hard_stop_override" = some (.bool true))

omit [PyCoerce] [FloatOfInt] [UsageFloat] in
theorem readUsage_ok {file : UsageFile} : (∃ v, readUsage file = .ok v) ↔ WithinLimits file := by
  rw [WithinLimits]
  cases file with
  | bytes content =>
    cases htext : decodeUtf8 content with
    | none =>
      refine ⟨fun _ _ text hfile hdecoded => ?_, fun _ => ⟨none, by rw [readUsage, htext]⟩⟩
      cases hfile
      rw [htext] at hdecoded
      cases hdecoded
    | some text =>
      cases hlimit : JsonLimits.raises text with
      | none =>
        refine ⟨fun _ _ other hfile hdecoded => ?_, fun _ => ⟨loads text, ?_⟩⟩
        rotate_left
        · rw [readUsage, htext]
          dsimp only
          rw [hlimit]
        cases hfile
        rw [htext] at hdecoded
        cases hdecoded
        exact hlimit
      | some e =>
        constructor
        · rintro ⟨v, hv⟩
          rw [readUsage, htext] at hv
          dsimp only at hv
          rw [hlimit] at hv
          cases hv
        · intro h
          have hnone := h content text rfl htext
          rw [hlimit] at hnone
          cases hnone
  | _ => exact ⟨fun _ _ _ h => (nomatch h), fun _ => ⟨none, rfl⟩⟩

/-- A bad file never stops a start unless `json.loads` raises beside its decode error; an object
stops it when a conversion of it overflows. -/
theorem load_fail_soft_iff (settings : UsageSettings) (file : UsageFile) (clock : LoadClock) :
    FailSoft settings file clock ↔
      WithinLimits file ∧ ∀ raw, readUsage file = .ok (some (.obj raw)) →
        Loadable (windowIds clock.init settings.hourBlockMinutes).weekId raw := by
  rw [FailSoft, loadMeter, ← readUsage_ok]
  cases hread : readUsage file with
  | error e =>
    constructor
    · rintro ⟨m, hm, -⟩
      cases hm
    · rintro ⟨⟨v, hv⟩, -⟩
      cases hv
  | ok read =>
  have hzeroed : ∃ m, (pure (UsageMeter.new settings clock.roll) : Except PyErr _) = .ok m ∧
      (m.hardStopOverride = true → ∃ raw, Except.ok read = (.ok (some (.obj raw)) : Except PyErr _) ∧
        lookup raw "hard_stop_override" = some (.bool true)) :=
    ⟨_, rfl, fun h => (nomatch h)⟩
  rw [and_iff_right ⟨read, rfl⟩]
  cases read with
  | none => exact ⟨fun _ raw h => (nomatch h), fun _ => hzeroed⟩
  | some v =>
    cases v with
    | obj raw =>
      constructor
      · rintro ⟨m, hload, -⟩ raw' heq
        cases heq
        obtain ⟨_, hsame, hload⟩ := except_bind_ok hload
        cases hsame
        obtain ⟨loaded, hloaded, hsync⟩ := except_bind_ok hload
        obtain ⟨hnumbers, hauthority, hpercents, hproducts⟩ := applyLoaded_ok.mp ⟨loaded, hloaded⟩
        obtain ⟨-, hstatus, hstart, hfetched, percent, hpercent, hset⟩ := applyLoaded_spec hloaded
        refine ⟨hnumbers, loadedAuthority_ok.mp hauthority, hpercents, hproducts, ?_⟩
        intro hok hnumber
        obtain ⟨account, haccount⟩ := syncHardStopFields_iff.mp ⟨m, hsync⟩
        rw [accountUsage_refreshed] at haccount
        have hturn := accountUsage_ok.mp ⟨account, haccount⟩
        rw [hstatus, hstart, hfetched, hset, hok] at hturn
        have hknown : percent ≠ none := (creditPercent_some hpercent).mpr hnumber
        rw [show (UsageMeter.new settings clock.init).sgCreditUsagePercent = none from rfl,
          show (UsageMeter.new settings clock.init).periodStart = none from rfl,
          show (UsageMeter.new settings clock.init).sgFetchedAt = none from rfl, Option.or_none,
          Option.or_none, Option.or_none] at hturn
        exact hturn rfl hknown
      · intro h
        obtain ⟨hnumbers, hperiod, hpercents, hproducts, haccount⟩ := h raw rfl
        obtain ⟨loaded, hloaded⟩ := (applyLoaded_ok (m := UsageMeter.new settings clock.init)).mpr
          ⟨hnumbers, loadedAuthority_ok.mpr hperiod, hpercents, hproducts⟩
        obtain ⟨hover, hstatus, hstart, hfetched, percent, hpercent, hset⟩ :=
          applyLoaded_spec hloaded
        have hsync : ∃ t, (loaded.refreshed settings clock.roll).syncHardStopFields settings
            clock.sync = .ok t := by
          rw [syncHardStopFields_iff, accountUsage_refreshed, accountUsage_ok, hstatus, hstart,
            hfetched, hset, show (UsageMeter.new settings clock.init).sgStatus = none from rfl,
            show (UsageMeter.new settings clock.init).sgCreditUsagePercent = none from rfl,
            show (UsageMeter.new settings clock.init).periodStart = none from rfl,
            show (UsageMeter.new settings clock.init).sgFetchedAt = none from rfl, Option.or_none,
            Option.or_none, Option.or_none, Option.or_none]
          intro hok hknown
          exact haccount hok ((creditPercent_some hpercent).mp hknown)
        obtain ⟨m, hm⟩ := hsync
        refine ⟨m, ?_, ?_⟩
        · show ((UsageMeter.new settings clock.init).applyLoaded raw >>= fun m =>
            (m.refreshed settings clock.roll).syncHardStopFields settings clock.sync) = _
          rw [hloaded]
          exact hm
        · intro htrue
          rw [syncHardStopFields_override hm, refreshed_override, hover] at htrue
          exact ⟨raw, rfl, of_decide_eq_true htrue⟩
    | _ => exact ⟨fun _ raw h => (nomatch h), fun _ => hzeroed⟩

theorem loadMeter_counter_raises {file : UsageFile} {e : PyErr}
    (hread : readUsage file = .ok (some (.obj raw)))
    (hfield : intField raw "week_used_tokens" = .error e) :
    loadMeter settings file clock = .error e := by
  rw [loadMeter, hread]
  show ((UsageMeter.new settings clock.init).applyLoaded raw >>= fun m =>
    (m.refreshed settings clock.roll).syncHardStopFields settings clock.sync) = _
  rw [UsageMeter.applyLoaded, hfield]
  rfl

end Whole

end Load

section Sample

attribute [local instance] basicCoerce basicUsageFloat

/-- A text within the limits. -/
@[reducible] def basicJsonLimits : JsonLimits := ⟨fun _ => none⟩

/-- Integers under their own digits. -/
@[reducible] def basicFloatOfInt : FloatOfInt := ⟨fun n => .decimal (n < 0) n.natAbs 0 [] none⟩

attribute [local instance] basicFloatOfInt basicJsonLimits

def sampleUsageSettings : UsageSettings where
  enabled := true
  weeklyAllowedTokens := 1000
  hourBlockMinutes := 60
  dayAllowedTokens := none
  hourAllowedTokens := none
  dayHardStopEnabled := false
  hourHardStopEnabled := false
  accountHardStopPercent := .decimal false 95 0 [] none
  creditsStaleAfterS := .decimal false 3600 0 [] none

def infiniteCounterText : List Char := "\x7b\"week_used_tokens\": 1e999\x7d".toList

def sampleLoadClock : LoadClock :=
  ⟨⟨0, zero_lt_instantCount⟩, ⟨0, zero_lt_instantCount⟩, ⟨0, zero_lt_instantCount⟩⟩

/-- A counter that reads `1e999` raises out of the load. -/
theorem infinite_counter_stops_load :
    loadMeter sampleUsageSettings (.bytes (encodeUtf8 infiniteCounterText)) sampleLoadClock =
      .error .overflowError := by
  have hread : readUsage (.bytes (encodeUtf8 infiniteCounterText)) =
      .ok (loads infiniteCounterText) := by
    rw [readUsage, encodeUtf8_eq, decodeUtf8_utf8Encode]
    rfl
  have hloads : loads infiniteCounterText =
      some (.obj [("week_used_tokens", .float (.scientific false 1 999))]) := by
    decide +kernel
  have hfield : intField [("week_used_tokens", .float (.scientific false 1 999))]
      "week_used_tokens" = .error .overflowError := by
    decide +kernel
  exact loadMeter_counter_raises (hread.trans (congrArg Except.ok hloads)) hfield

end Sample
end Elyra.Llm
