import Elyra.Framework.Effects
import Elyra.Framework.IsoText

namespace Elyra.Llm

/-- Float arithmetic of the meter: `float(p) / 100.0 >= float(limit) / 100.0`, an age in
microseconds against a number of seconds, and `f"{x:g}"`. -/
class UsageFloat where
  reaches : FloatLit → FloatLit → Bool
  olderThan : Int → FloatLit → Bool
  general : FloatLit → String

/-- Whole numbers only; the other values are not exact. -/
@[reducible] def basicUsageFloat : UsageFloat where
  reaches
    | .decimal _ p _ _ _, .decimal _ limit _ _ _ => limit ≤ p
    | _, _ => false
  olderThan
    | age, .decimal _ seconds _ _ _ => seconds * 1000000 < age
    | _, _ => false
  general
    | .decimal _ p _ _ _ => toString p
    | _ => ""

structure UsageSettings where
  enabled : Bool
  weeklyAllowedTokens : Int
  hourBlockMinutes : Int
  dayAllowedTokens : Option Int
  hourAllowedTokens : Option Int
  dayHardStopEnabled : Bool
  hourHardStopEnabled : Bool
  accountHardStopPercent : FloatLit
  creditsStaleAfterS : FloatLit

structure TokenUsage where
  promptTokens : Int
  completionTokens : Int
  totalTokens : Int
  cachedTokens : Int

def TokenUsage.billableTokens (u : TokenUsage) : Int :=
  if 0 < u.totalTokens then u.totalTokens
  else
    let summed := u.promptTokens + u.completionTokens
    if 0 < summed then summed else 0

structure CreditsSnapshot where
  creditUsagePercent : Option FloatLit
  periodStart : Option String
  periodEnd : Option String
  periodId : Option String
  periodType : Option String
  isUnified : Option Bool
  productUsage : Option (Dict String FloatLit)
  fetchedAt : Option String
  status : Option String
  detail : Option String
  ok : Option Bool

inductive PeriodAuthority where
  | iso | supergrok
  deriving DecidableEq

inductive HardStop where
  | account | week | day | hour
  deriving DecidableEq

def canonicalPeriodId (periodStart periodEnd : String) : String := periodStart ++ "/" ++ periodEnd

/-- The zeros of the decimal digits `\d` matches. -/
def digitZeros : List Nat :=
  [0x30, 0x660, 0x6f0, 0x7c0, 0x966, 0x9e6, 0xa66, 0xae6, 0xb66, 0xbe6, 0xc66, 0xce6, 0xd66,
    0xde6, 0xe50, 0xed0, 0xf20, 0x1040, 0x1090, 0x17e0, 0x1810, 0x1946, 0x19d0, 0x1a80, 0x1a90,
    0x1b50, 0x1bb0, 0x1c40, 0x1c50, 0xa620, 0xa8d0, 0xa900, 0xa9d0, 0xa9f0, 0xaa50, 0xabf0,
    0xff10, 0x104a0, 0x10d30, 0x11066, 0x110f0, 0x11136, 0x111d0, 0x112f0, 0x11450, 0x114d0,
    0x11650, 0x116c0, 0x11730, 0x118e0, 0x11950, 0x11c50, 0x11d50, 0x11da0, 0x11f50, 0x16a60,
    0x16ac0, 0x16b50, 0x1d7ce, 0x1d7d8, 0x1d7e2, 0x1d7ec, 0x1d7f6, 0x1e140, 0x1e2f0, 0x1e4f0,
    0x1e950, 0x1fbf0]

def isDecimal (c : Char) : Bool := digitZeros.any (fun z => z ≤ c.toNat && c.toNat < z + 10)

/-- `^\d{4}-W\d{2}$`; the `$` also stands before a last newline. -/
def isIsoWeekPeriodId (periodId : String) : Bool :=
  match periodId.toList with
  | a :: b :: c :: d :: '-' :: 'W' :: x :: y :: rest =>
    [a, b, c, d, x, y].all isDecimal && (rest = [] || rest = ['\n'])
  | _ => false

def isProvisionalIsoPeriod (periodId weekId : String) (periodAuthority : PeriodAuthority) : Bool :=
  periodAuthority = .iso || (weekId ≠ "" && periodId = weekId) || isIsoWeekPeriodId periodId

def snapshotIsOk (snap : CreditsSnapshot) : Bool :=
  match snap.ok with
  | some b => b
  | none => snap.status = some "ok"

def coerceProductUsage (raw : Dict String FloatLit) : Option (Dict String FloatLit) :=
  if raw.items = [] then none else some raw

/-- An unusable text is `None`; one whose zone leads out of the years 1 to 9999 raises. -/
def parseIsoDatetime (value : Option String) : Except PyErr (Option Instant) :=
  match value with
  | none => .ok none
  | some s =>
    match Iso.fromIsoFormat (Iso.expandZ (strip s.toList)) with
    | none => .ok none
    | some d =>
      match d.toUtc with
      | none => .error .overflowError
      | some t => .ok (some t)

/-- `date.isocalendar()` of a day number: the ISO year and week. -/
def isocalendar (n : Nat) : Nat × Nat :=
  let year := yearOfDay n
  let isoYear :=
    if n < Iso.weekOneMonday year then year - 1
    else if Iso.weekOneMonday (year + 1) ≤ n then year + 1
    else year
  (isoYear, (n - Iso.weekOneMonday isoYear) / 7 + 1)

structure WindowIds where
  weekId : String
  dayId : String
  hourId : String

def windowIds (now : Instant) (hourBlockMinutes : Int) : WindowIds :=
  let iso := isocalendar now.day.val
  let weekId := toString iso.1 ++ "-W" ++ String.ofList (padChars 2 iso.2)
  let dayId := String.ofList (dateText now.date)
  let block := (max 1 hourBlockMinutes).toNat
  let minutesFromMidnight := now.secondOfDay / 60
  let blockStart := minutesFromMidnight / block * block
  let blockH := String.ofList (padChars 2 (blockStart / 60))
  let blockM := String.ofList (padChars 2 (blockStart % 60))
  let hourId := if block = 60 then dayId ++ "T" ++ blockH else dayId ++ "T" ++ blockH ++ ":" ++ blockM
  ⟨weekId, dayId, hourId⟩

structure Limits where
  week : Int
  day : Int
  hour : Int

def computeLimits (settings : UsageSettings) : Limits :=
  let allowedWeek := max 1 settings.weeklyAllowedTokens
  let allowedDay :=
    match settings.dayAllowedTokens with
    | some n => max 1 n
    | none => max 1 (allowedWeek / 7)
  let allowedHour :=
    match settings.hourAllowedTokens with
    | some n => max 1 n
    | none =>
      let block := max 1 settings.hourBlockMinutes
      let blocksPerDay := max 1 (1440 / block)
      max 1 (allowedDay / blocksPerDay)
  ⟨allowedWeek, allowedDay, allowedHour⟩

/-- The durable fields of `UsageMeter`. -/
structure UsageMeter where
  weekId : String
  dayId : String
  hourId : String
  periodId : String
  periodAuthority : PeriodAuthority
  periodStart : Option String
  periodEnd : Option String
  weekUsed : Nat
  dayUsed : Nat
  hourUsed : Nat
  weekCached : Nat
  weekSttCalls : Nat
  weekTtsCalls : Nat
  lastRecordAt : Option String
  lastHardStop : Option HardStop
  lastHardStopReason : Option String
  hardStopOverride : Bool
  sgCreditUsagePercent : Option FloatLit
  sgProductUsage : Option (Dict String FloatLit)
  sgFetchedAt : Option String
  sgStatus : Option String
  sgPeriodType : Option String
  sgIsUnified : Option Bool
  sgDetail : Option String

/-- The clock as one call reads it. -/
structure Readings where
  refresh : Instant
  stamp : Instant
  sync : Instant
  view : Instant

/-- A meter as `__init__` leaves it. -/
def UsageMeter.new (settings : UsageSettings) (now : Instant) : UsageMeter :=
  let ids := windowIds now settings.hourBlockMinutes
  { weekId := ids.weekId
    dayId := ids.dayId
    hourId := ids.hourId
    periodId := ids.weekId
    periodAuthority := .iso
    periodStart := none
    periodEnd := none
    weekUsed := 0
    dayUsed := 0
    hourUsed := 0
    weekCached := 0
    weekSttCalls := 0
    weekTtsCalls := 0
    lastRecordAt := none
    lastHardStop := none
    lastHardStopReason := none
    hardStopOverride := false
    sgCreditUsagePercent := none
    sgProductUsage := none
    sgFetchedAt := none
    sgStatus := none
    sgPeriodType := none
    sgIsUnified := none
    sgDetail := none }

/-- `_refresh_windows_unlocked` on the week. -/
def UsageMeter.refreshWeek (weekId : String) (m : UsageMeter) : UsageMeter :=
  if weekId ≠ m.weekId then
    -- The week ledger is zeroed only under ISO authority.
    if m.periodAuthority = .iso then
      { m with
        weekId := weekId, weekUsed := 0, weekCached := 0, weekSttCalls := 0, weekTtsCalls := 0,
        periodId := weekId }
    else { m with weekId := weekId }
  else m

def UsageMeter.refreshDay (dayId : String) (m : UsageMeter) : UsageMeter :=
  if dayId ≠ m.dayId then { m with dayId := dayId, dayUsed := 0 } else m

def UsageMeter.refreshHour (hourId : String) (m : UsageMeter) : UsageMeter :=
  if hourId ≠ m.hourId then { m with hourId := hourId, hourUsed := 0 } else m

/-- `_refresh_windows_unlocked`. -/
def UsageMeter.refreshed (settings : UsageSettings) (now : Instant) (m : UsageMeter) : UsageMeter :=
  let ids := windowIds now settings.hourBlockMinutes
  ((m.refreshWeek ids.weekId).refreshDay ids.dayId).refreshHour ids.hourId

/-- The value `_refresh_windows_unlocked` returns. -/
def UsageMeter.rolls (settings : UsageSettings) (now : Instant) (m : UsageMeter) : Bool :=
  let ids := windowIds now settings.hourBlockMinutes
  ids.weekId ≠ m.weekId || ids.dayId ≠ m.dayId || ids.hourId ≠ m.hourId

def UsageMeter.zeroWeekLedger (m : UsageMeter) : UsageMeter :=
  { m with weekUsed := 0, weekCached := 0, weekSttCalls := 0, weekTtsCalls := 0 }

/-- `_restore_durable_unlocked`. -/
def UsageMeter.restoreDurable (prev m : UsageMeter) : UsageMeter :=
  { m with
    weekId := prev.weekId
    dayId := prev.dayId
    hourId := prev.hourId
    periodId := prev.periodId
    periodAuthority := prev.periodAuthority
    periodStart := prev.periodStart
    periodEnd := prev.periodEnd
    weekUsed := prev.weekUsed
    dayUsed := prev.dayUsed
    hourUsed := prev.hourUsed
    weekCached := prev.weekCached
    weekSttCalls := prev.weekSttCalls
    weekTtsCalls := prev.weekTtsCalls
    lastRecordAt := prev.lastRecordAt
    lastHardStop := prev.lastHardStop
    lastHardStopReason := prev.lastHardStopReason
    hardStopOverride := prev.hardStopOverride
    sgCreditUsagePercent := prev.sgCreditUsagePercent
    sgProductUsage := prev.sgProductUsage
    sgFetchedAt := prev.sgFetchedAt
    sgStatus := prev.sgStatus
    sgPeriodType := prev.sgPeriodType
    sgIsUnified := prev.sgIsUnified
    sgDetail := prev.sgDetail }

/-- The bounds of a snapshot, when both parse and the end is after the start. -/
def parseablePeriod (snap : CreditsSnapshot) : Except PyErr (Option (String × String)) := do
  let startDt ← parseIsoDatetime snap.periodStart
  let endDt ← parseIsoDatetime snap.periodEnd
  match snap.periodStart, snap.periodEnd, startDt, endDt with
  | some start, some stop, some a, some b => return if a < b then some (start, stop) else none
  | _, _, _, _ => return none

def nonemptyStr (value : Option String) : Bool :=
  value.any (fun s => strip s.toList ≠ [])

/-- `snap.period_id or canonical_period_id(start, end)`. -/
def newPeriodId (snap : CreditsSnapshot) (period : String × String) : String :=
  match snap.periodId with
  | some s => if s ≠ "" then s else canonicalPeriodId period.1 period.2
  | none => canonicalPeriodId period.1 period.2

/-- Identity changes of `_apply_credits_snapshot_unlocked`. -/
def UsageMeter.applyPeriod (snap : CreditsSnapshot) (period : String × String) (m : UsageMeter) :
    UsageMeter :=
  let newId := newPeriodId snap period
  let provisional := isProvisionalIsoPeriod m.periodId m.weekId m.periodAuthority
  if m.periodAuthority = .iso ∨ provisional then
    -- First adoption retains the week ledger.
    { m with
      periodId := newId, periodAuthority := .supergrok, periodStart := some period.1,
      periodEnd := some period.2 }
  else if m.periodAuthority = .supergrok ∧ newId ≠ m.periodId then
    { m.zeroWeekLedger with
      periodId := newId, periodStart := some period.1, periodEnd := some period.2 }
  else { m with periodStart := some period.1, periodEnd := some period.2 }

/-- Identity changes are made by an ok snapshot of a parseable period only. -/
def UsageMeter.applyIdentity (snap : CreditsSnapshot) (period : Option (String × String))
    (m : UsageMeter) : UsageMeter :=
  match period with
  | some p => if snapshotIsOk snap then m.applyPeriod snap p else m
  | none => m

/-- The account cache after a snapshot that may refresh it. -/
def UsageMeter.refreshAccount (snap : CreditsSnapshot) (m : UsageMeter) : UsageMeter :=
  { m with
    sgCreditUsagePercent := snap.creditUsagePercent.or m.sgCreditUsagePercent
    sgProductUsage := (snap.productUsage.bind coerceProductUsage).or m.sgProductUsage
    sgFetchedAt := snap.fetchedAt.or m.sgFetchedAt
    sgStatus := some "ok"
    sgPeriodType := snap.periodType.or m.sgPeriodType
    sgIsUnified := snap.isUnified.or m.sgIsUnified
    sgDetail := snap.detail.or m.sgDetail }

/-- The detail a snapshot that may not refresh the account leaves. -/
def rejectedDetail (snap : CreditsSnapshot) (attemptedBadPeriod : Bool) : String :=
  match snap.detail with
  | some detail => detail
  | none =>
    if attemptedBadPeriod then "credits_apply_rejected:unparseable_period"
    else if snapshotIsOk snap then "credits_apply_rejected:no_period_basis"
    else
      let statusLabel := if snap.status.getD "" ≠ "" then snap.status.getD "" else "error"
      "credits_apply_rejected:" ++ statusLabel

/-- The stored start, once a billing period is adopted. -/
def UsageMeter.adoptedStart (m : UsageMeter) : Except PyErr (Option Instant) :=
  if m.periodAuthority = .supergrok then parseIsoDatetime m.periodStart else .ok none

/-- A snapshot whose bounds were parsed, merged. -/
def UsageMeter.mergeSnapshot (snap : CreditsSnapshot) (period : Option (String × String))
    (m : UsageMeter) : Except PyErr UsageMeter := do
  let ok := snapshotIsOk snap
  let attemptedBadPeriod :=
    period = none && (nonemptyStr snap.periodStart || nonemptyStr snap.periodEnd)
  let m := m.applyIdentity snap period
  let storedStart ← m.adoptedStart
  if ok && !attemptedBadPeriod && (period ≠ none || storedStart ≠ none) then
    return m.refreshAccount snap
  else
    return { m with sgDetail := some (rejectedDetail snap attemptedBadPeriod) }

/-- `_apply_credits_snapshot_unlocked`. -/
def UsageMeter.applySnapshot (snap : CreditsSnapshot) (m : UsageMeter) : Except PyErr UsageMeter :=
  do
    let period ← parseablePeriod snap
    m.mergeSnapshot snap period

section Levels

variable [UsageFloat]

/-- Whether the account fraction is known; it is the stored percent then. -/
def UsageMeter.accountUsage (settings : UsageSettings) (now : Instant) (m : UsageMeter) :
    Except PyErr (Option FloatLit) := do
  if m.sgStatus ≠ some "ok" then
    return none
  if m.sgCreditUsagePercent = none then
    return none
  let start ← parseIsoDatetime m.periodStart
  if start = none then
    return none
  let fetched ← parseIsoDatetime m.sgFetchedAt
  match fetched with
  | some t =>
    let age := (now.val : Int) - t.val
    return if UsageFloat.olderThan age settings.creditsStaleAfterS then none
      else m.sgCreditUsagePercent
  | none => return m.sgCreditUsagePercent

/-- Precedence is account, week, day, hour. -/
def UsageMeter.hardLevel (settings : UsageSettings) (account : Option FloatLit) (m : UsageMeter) :
    Option HardStop :=
  let limits := computeLimits settings
  if account.any (fun p => UsageFloat.reaches p settings.accountHardStopPercent) then some .account
  else if limits.week ≤ m.weekUsed then some .week
  else if settings.dayHardStopEnabled ∧ limits.day ≤ m.dayUsed then some .day
  else if settings.hourHardStopEnabled ∧ limits.hour ≤ m.hourUsed then some .hour
  else none

def UsageMeter.hardStopLevel (settings : UsageSettings) (now : Instant) (m : UsageMeter) :
    Except PyErr (Option HardStop) := do
  let account ← m.accountUsage settings now
  return m.hardLevel settings account

def exhausted (window : String) (used : Nat) (limit : Int) : String :=
  window ++ " budget exhausted (" ++ toString used ++ "/" ++ toString limit ++ " tokens)"

def UsageMeter.reasonOf (settings : UsageSettings) (m : UsageMeter) : HardStop → String
  | .account =>
    let pct := (m.sgCreditUsagePercent.map UsageFloat.general).getD "?"
    let cap := UsageFloat.general settings.accountHardStopPercent
    "account weekly budget nearly exhausted (" ++ pct ++ "/" ++ cap ++ "%)"
  | .week => exhausted "week" m.weekUsed (computeLimits settings).week
  | .day => exhausted "day" m.dayUsed (computeLimits settings).day
  | .hour => exhausted "hour" m.hourUsed (computeLimits settings).hour

def UsageMeter.hardStopReason (settings : UsageSettings) (now : Instant) (m : UsageMeter) :
    Except PyErr (Option String) := do
  let level ← m.hardStopLevel settings now
  return level.map (m.reasonOf settings)

/-- `_sync_hard_stop_fields_unlocked`. -/
def UsageMeter.syncHardStopFields (settings : UsageSettings) (now : Instant) (m : UsageMeter) :
    Except PyErr UsageMeter := do
  let level ← m.hardStopLevel settings now
  let reason ← m.hardStopReason settings now
  return { m with lastHardStop := level, lastHardStopReason := reason }

/-- The view `_snapshot_unlocked` returns, without the figures that are floats. -/
structure UsageSnapshot where
  enabled : Bool
  hardStop : Option HardStop
  hardStopReason : Option String
  overrideActive : Bool
  lastRecordAt : Option String
  weekUsedTokens : Nat
  dayUsedTokens : Nat
  hourUsedTokens : Nat
  limits : Limits
  periodId : String
  periodAuthority : PeriodAuthority
  dayHardStopEnabled : Bool
  hourHardStopEnabled : Bool
  daySoftExhausted : Bool
  hourSoftExhausted : Bool
  weekCachedTokens : Nat
  weekSttCalls : Nat
  weekTtsCalls : Nat
  creditUsagePercent : Option FloatLit
  creditsStatus : Option String

def UsageMeter.view (settings : UsageSettings) (now : Instant) (m : UsageMeter) :
    Except PyErr UsageSnapshot := do
  let limits := computeLimits settings
  let level ← m.hardStopLevel settings now
  let reason ← m.hardStopReason settings now
  return {
    enabled := settings.enabled
    hardStop := level
    hardStopReason := reason
    overrideActive := m.hardStopOverride
    lastRecordAt := m.lastRecordAt
    weekUsedTokens := m.weekUsed
    dayUsedTokens := m.dayUsed
    hourUsedTokens := m.hourUsed
    limits := limits
    periodId := m.periodId
    periodAuthority := m.periodAuthority
    dayHardStopEnabled := settings.dayHardStopEnabled
    hourHardStopEnabled := settings.hourHardStopEnabled
    daySoftExhausted := limits.day ≤ m.dayUsed
    hourSoftExhausted := limits.hour ≤ m.hourUsed
    weekCachedTokens := m.weekCached
    weekSttCalls := m.weekSttCalls
    weekTtsCalls := m.weekTtsCalls
    creditUsagePercent := m.sgCreditUsagePercent
    creditsStatus := m.sgStatus }

abbrev MeterPy := Py UsageMeter

/-- `_persist_unlocked`: the temporary file is written and moved in place, or it is an `OSError`. -/
def persist (writes : Bool) : MeterPy Unit := ofExcept (if writes then .ok () else .error .osError)

/-- The body of a method whose changes are undone when it raises. -/
def undoable {α : Type} (body : MeterPy α) : MeterPy α := do
  let prev ← get
  orUndo body prev.restoreDurable

/-- The end of every method that persists: sync the hard stop fields, persist, return the view. -/
def committed (settings : UsageSettings) (clock : Readings) (writes : Bool) :
    MeterPy UsageSnapshot := do
  let m ← get
  let m ← ofExcept (m.syncHardStopFields settings clock.sync)
  set m
  persist writes
  ofExcept (m.view settings clock.view)

def setHardStopOverride (settings : UsageSettings) (active : Bool) (clock : Readings)
    (writes : Bool) : MeterPy UsageSnapshot :=
  undoable do
    modify (fun m => { m with hardStopOverride := active })
    modify (fun m => m.refreshed settings clock.refresh)
    committed settings clock writes

def applyCreditsSnapshot (settings : UsageSettings) (snap : CreditsSnapshot) (clock : Readings)
    (writes : Bool) : MeterPy UsageSnapshot :=
  undoable do
    modify (fun m => m.refreshed settings clock.refresh)
    let m ← get
    let m ← ofExcept (m.applySnapshot snap)
    set m
    committed settings clock writes

/-- The tokens `record` adds to the ledger, and the cached ones. -/
def recordedTokens (usage : Option TokenUsage) (estimatedIfMissing : Int) : Nat × Nat :=
  match usage with
  | some u => ((max 0 u.billableTokens).toNat, (max 0 u.cachedTokens).toNat)
  | none => ((max 0 estimatedIfMissing).toNat, 0)

def UsageMeter.addTokens (tokens cached : Nat) (stamp : Instant) (m : UsageMeter) : UsageMeter :=
  if tokens ≠ 0 ∨ cached ≠ 0 then
    { m with
      weekUsed := m.weekUsed + tokens
      dayUsed := m.dayUsed + tokens
      hourUsed := m.hourUsed + tokens
      weekCached := m.weekCached + cached
      lastRecordAt := some (isoZ stamp) }
  else m

def record (settings : UsageSettings) (usage : Option TokenUsage) (estimatedIfMissing : Int)
    (clock : Readings) (writes : Bool) : MeterPy UsageSnapshot :=
  undoable do
    modify (fun m => m.refreshed settings clock.refresh)
    let tokens := recordedTokens usage estimatedIfMissing
    modify (fun m => m.addTokens tokens.1 tokens.2 clock.stamp)
    committed settings clock writes

inductive MediaKind where
  | stt | tts
  deriving DecidableEq

def UsageMeter.countCall (kind : MediaKind) (m : UsageMeter) : UsageMeter :=
  match kind with
  | .stt => { m with weekSttCalls := m.weekSttCalls + 1 }
  | .tts => { m with weekTtsCalls := m.weekTtsCalls + 1 }

/-- The call counter of a kind; another kind is refused before the meter is touched. -/
def recordMediaCall (settings : UsageSettings) (kind : MediaKind) (clock : Readings)
    (writes : Bool) : MeterPy UsageSnapshot :=
  undoable do
    modify (fun m => m.refreshed settings clock.refresh)
    modify (fun m => m.countCall kind)
    committed settings clock writes

def refreshWindows (settings : UsageSettings) (clock : Readings) (writes : Bool) : MeterPy Unit :=
  undoable do
    let m ← get
    set (m.refreshed settings clock.refresh)
    if m.rolls settings clock.refresh then
      let m ← get
      let m ← ofExcept (m.syncHardStopFields settings clock.sync)
      set m
      persist writes

/-- Nothing is persisted and nothing undone. -/
def snapshot (settings : UsageSettings) (clock : Readings) : MeterPy UsageSnapshot := do
  modify (fun m => m.refreshed settings clock.refresh)
  let m ← get
  ofExcept (m.view settings clock.view)

end Levels
end Elyra.Llm
