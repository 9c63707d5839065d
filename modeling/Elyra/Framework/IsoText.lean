import Elyra.Framework.Calendar
import Elyra.Framework.Digits
import Mathlib.Data.String.Basic
import Elyra.Framework.Python
import Elyra.Framework.Text

namespace Elyra


/-- Microseconds from the start of year 1 to the end of year 9999. -/
def instantCount : Nat := 315537897600000000

/-- A UTC `datetime`, as its microseconds since 0001-01-01T00:00:00. -/
abbrev Instant := Fin instantCount

theorem zero_lt_instantCount : 0 < instantCount := by decide

namespace Instant

/-- The instant at a number of microseconds, if it lies in the years 1 to 9999. -/
def ofMicros (n : Int) : Option Instant :=
  if h : 0 ≤ n ∧ n.toNat < instantCount then some ⟨n.toNat, h.2⟩ else none

@[simp] theorem ofMicros_val (t : Instant) : ofMicros t.val = some t := by
  have ht : 0 ≤ (t.val : Int) ∧ (t.val : Int).toNat < instantCount :=
    ⟨Int.natCast_nonneg _, t.isLt⟩
  rw [ofMicros, dif_pos ht, Option.some.injEq]
  exact Fin.ext (Int.toNat_natCast t.val)

def second (t : Instant) : Nat := t.val / 1000000

def micro (t : Instant) : Nat := t.val % 1000000

theorem val_eq (t : Instant) : t.val = 1000000 * t.second + t.micro :=
  (Nat.div_add_mod t.val 1000000).symm

theorem micro_lt (t : Instant) : t.micro < 1000000 := Nat.mod_lt _ (by decide)

theorem second_lt (t : Instant) : t.second < dayCount * 86400 := by
  have ht : t.val < 315537897600000000 := t.isLt
  unfold second dayCount
  omega

def day (t : Instant) : Fin dayCount :=
  ⟨t.second / 86400, by
    have h := t.second_lt
    omega⟩

def secondOfDay (t : Instant) : Nat := t.second % 86400

theorem second_eq (t : Instant) : t.second = 86400 * t.day.val + t.secondOfDay :=
  (Nat.div_add_mod t.second 86400).symm

theorem secondOfDay_lt (t : Instant) : t.secondOfDay < 86400 := Nat.mod_lt _ (by decide)

def date (t : Instant) : CivilDate := dateOfDay t.day

@[simp] theorem dayNumber_date (t : Instant) : t.date.dayNumber = t.day.val := by
  rw [date, dayNumber_dateOfDay]

end Instant

def dateText (d : CivilDate) : List Char :=
  padChars 4 d.year ++ ('-' :: (padChars 2 d.month ++ ('-' :: padChars 2 d.day)))

/-- A second of the day as `HH:MM:SS`. -/
def clockText (s : Nat) : List Char :=
  padChars 2 (s / 3600) ++ (':' :: (padChars 2 (s / 60 % 60) ++ (':' :: padChars 2 (s % 60))))

def fractionText (micro : Nat) : List Char := if micro = 0 then [] else '.' :: padChars 6 micro

def secondText (t : Instant) : List Char := dateText t.date ++ ('T' :: clockText t.secondOfDay)

/-- `isoformat()` with its `+00:00` replaced by `Z`. -/
def isoZ (t : Instant) : String :=
  String.ofList (secondText t ++ (fractionText t.micro ++ ['Z']))

@[simp] theorem length_dateText (d : CivilDate) : (dateText d).length = 10 := by
  simp [dateText]

@[simp] theorem length_clockText (s : Nat) : (clockText s).length = 8 := by
  simp [clockText]

@[simp] theorem length_secondText (t : Instant) : (secondText t).length = 19 := by
  simp [secondText]

theorem dateText_lt (d e : CivilDate) (h : d.dayNumber < e.dayNumber) :
    dateText d < dateText e := by
  have hlast := e.day_le
  have hmonth := e.month_le
  have hyear := e.year_le
  have hday : e.day < 10 ^ 2 := by
    unfold daysInMonth at hlast
    split_ifs at hlast <;> omega
  unfold dateText
  rw [lex_append _ _ _ _ (by simp), List.cons_lt_cons_iff, lex_append _ _ _ _ (by simp),
    List.cons_lt_cons_iff]
  -- the later date has the greater year, or then month, or then day
  obtain hlt | heq | hgt := Nat.lt_trichotomy d.year e.year
  · exact Or.inl (padChars_lt 4 _ _ (by omega) hlt)
  · obtain hlt | heq' | hgt := Nat.lt_trichotomy d.month e.month
    · exact Or.inr ⟨by rw [heq], Or.inr ⟨rfl, Or.inl (padChars_lt 2 _ _ (by omega) hlt)⟩⟩
    · obtain hlt | heq'' | hgt := Nat.lt_trichotomy d.day e.day
      · exact Or.inr ⟨by rw [heq], Or.inr ⟨rfl, Or.inr ⟨by rw [heq'], Or.inr ⟨rfl,
          padChars_lt 2 _ _ hday hlt⟩⟩⟩⟩
      · have hsame : d.dayNumber = e.dayNumber := by
          simp only [CivilDate.dayNumber, CivilDate.yearDay, heq, heq', heq'']
        omega
      · have hback := e.dayNumber_lt_dayNumber d (Or.inr ⟨heq.symm, Or.inr ⟨heq'.symm, hgt⟩⟩)
        omega
    · have hback := e.dayNumber_lt_dayNumber d (Or.inr ⟨heq.symm, Or.inl hgt⟩)
      omega
  · have hback := e.dayNumber_lt_dayNumber d (Or.inl hgt)
    omega

theorem clockText_lt (s u : Nat) (hu : u < 86400) (h : s < u) : clockText s < clockText u := by
  unfold clockText
  rw [lex_append _ _ _ _ (by simp), List.cons_lt_cons_iff, lex_append _ _ _ _ (by simp),
    List.cons_lt_cons_iff]
  obtain hlt | heq | hgt := Nat.lt_trichotomy (s / 3600) (u / 3600)
  · exact Or.inl (padChars_lt 2 _ _ (by omega) hlt)
  · obtain hlt | heq' | hgt := Nat.lt_trichotomy (s / 60 % 60) (u / 60 % 60)
    · exact Or.inr ⟨by rw [heq], Or.inr ⟨rfl, Or.inl (padChars_lt 2 _ _ (by omega) hlt)⟩⟩
    · exact Or.inr ⟨by rw [heq], Or.inr ⟨rfl, Or.inr ⟨by rw [heq'], Or.inr ⟨rfl,
        padChars_lt 2 _ _ (by omega) (by omega)⟩⟩⟩⟩
    · omega
  · omega

theorem secondText_lt (a b : Instant) (h : a.second < b.second) : secondText a < secondText b := by
  have ha := a.second_eq
  have hb := b.second_eq
  have hla := a.secondOfDay_lt
  have hlb := b.secondOfDay_lt
  unfold secondText
  rw [lex_append _ _ _ _ (by simp), List.cons_lt_cons_iff]
  obtain hlt | heq | hgt := Nat.lt_trichotomy a.day.val b.day.val
  · apply Or.inl
    apply dateText_lt
    rw [Instant.dayNumber_date, Instant.dayNumber_date]
    exact hlt
  · have hdate : a.date = b.date := by
      rw [Instant.date, Instant.date, Fin.ext heq]
    exact Or.inr ⟨by rw [hdate], Or.inr ⟨rfl, clockText_lt _ _ hlb (by omega)⟩⟩
  · omega

theorem secondText_congr (a b : Instant) (h : a.second = b.second) :
    secondText a = secondText b := by
  have hday : a.day = b.day := Fin.ext (by simp only [Instant.day, h])
  simp only [secondText, Instant.date, Instant.secondOfDay, hday, h]

/-- Where the text of an instant sorts: one with no microseconds comes after all others of
its second, since `Z` sorts after the point. -/
def Instant.textRank (t : Instant) : Nat :=
  t.second * 1000001 + if t.micro = 0 then 1000000 else t.micro

theorem Instant.textRank_injective : Function.Injective Instant.textRank := by
  intro a b h
  have ha := a.val_eq
  have hb := b.val_eq
  have hla := a.micro_lt
  have hlb := b.micro_lt
  unfold textRank at h
  apply Fin.ext
  split_ifs at h <;> omega

theorem fractionText_lt (m n : Nat) (hn : n < 1000000)
    (h : (if m = 0 then 1000000 else m) < if n = 0 then 1000000 else n) :
    fractionText m ++ ['Z'] < fractionText n ++ ['Z'] := by
  unfold fractionText
  by_cases hm : m = 0
  · rw [if_pos hm] at h
    split_ifs at h <;> omega
  · rw [if_neg hm] at h ⊢
    split_ifs at h ⊢ with hz
    · rw [List.cons_append, List.nil_append, List.cons_lt_cons_iff]
      exact Or.inl (by decide)
    · rw [List.cons_append, List.cons_append, List.cons_lt_cons_iff, lex_append _ _ _ _ (by simp)]
      exact Or.inr ⟨rfl, Or.inl (padChars_lt 6 _ _ (by omega) h)⟩

theorem isoZ_lt_of_textRank_lt (a b : Instant) (h : a.textRank < b.textRank) :
    isoZ a < isoZ b := by
  have hla := a.micro_lt
  have hlb := b.micro_lt
  unfold isoZ
  rw [String.lt_iff_toList_lt, String.toList_ofList, String.toList_ofList,
    lex_append _ _ _ _ (by simp)]
  unfold Instant.textRank at h
  obtain hlt | heq | hgt := Nat.lt_trichotomy a.second b.second
  · exact Or.inl (secondText_lt a b hlt)
  · refine Or.inr ⟨secondText_congr a b heq, fractionText_lt _ _ hlb ?_⟩
    omega
  · split_ifs at h <;> omega

/-- Texts of instants compare by their rank. -/
theorem isoZ_lt (a b : Instant) : isoZ a < isoZ b ↔ a.textRank < b.textRank := by
  constructor
  · intro h
    obtain hlt | heq | hgt := Nat.lt_trichotomy a.textRank b.textRank
    · exact hlt
    · rw [Instant.textRank_injective heq] at h
      exact absurd h (lt_irrefl _)
    · exact absurd h (lt_asymm (isoZ_lt_of_textRank_lt b a hgt))
  · exact isoZ_lt_of_textRank_lt a b

/-- The texts of two instants compare as the instants do unless just one of them has
microseconds and they share their second. -/
theorem textRank_lt_iff (a b : Instant)
    (h : a.second = b.second → (a.micro = 0 ↔ b.micro = 0)) :
    a.textRank < b.textRank ↔ a < b := by
  have ha := a.val_eq
  have hb := b.val_eq
  have hla := a.micro_lt
  have hlb := b.micro_lt
  rw [Fin.lt_def]
  unfold Instant.textRank
  split_ifs with h1 h2 h2
  · omega
  · by_cases hs : a.second = b.second
    · exact absurd ((h hs).mp h1) h2
    · omega
  · by_cases hs : a.second = b.second
    · exact absurd ((h hs).mpr h2) h1
    · omega
  · omega


/-- A `datetime`: its wall clock and, when it is aware, the microseconds it is ahead of UTC. -/
structure DateTime where
  wall : Instant
  offset : Option Int

/-- Naive values are taken as UTC; `none` is an `OverflowError`. -/
def DateTime.toUtc (d : DateTime) : Option Instant :=
  Instant.ofMicros (d.wall.val - d.offset.getD 0)

namespace Iso

/-- The number in the first `w` characters, all of them ASCII digits, and the rest. -/
def takeNat : Nat → List Char → Option (Nat × List Char)
  | 0, cs => some (0, cs)
  | _ + 1, [] => none
  | w + 1, c :: cs =>
    match digit? c, takeNat w cs with
    | some d, some (n, rest) => some (d.val * 10 ^ w + n, rest)
    | _, _ => none

def isDigit (c : Char) : Bool := (digit? c).isSome

/-- Where the separator of date and time stands; dates are `YYYY-MM-DD`, `YYYYMMDD`,
`YYYY-Www[-d]` and `YYYYWww[d]`. -/
def separatorAt (cs : List Char) : Option Nat :=
  if cs.length < 7 then none
  else if cs.length = 7 then some 7
  else if cs[4]? = some '-' then
    if cs[5]? = some 'W' then
      if cs[8]? = some '-' then
        if cs.length = 9 then none
        else if cs[10]?.any isDigit then some 8
        else some 10
      else some 8
    else some 10
  else if cs[4]? = some 'W' then
    let n := ((cs.drop 7).takeWhile isDigit).length
    if n < 2 then some (7 + n) else if n % 2 = 1 then some 7 else some 8
  else some 8

def dash : List Char → Bool × List Char
  | '-' :: cs => (true, cs)
  | cs => (false, cs)

def afterDash (dashed : Bool) (cs : List Char) : Option (List Char) :=
  if (dash cs).1 = dashed then some (dash cs).2 else none

/-- The day number of the Monday of week 1. -/
def weekOneMonday (year : Nat) : Nat :=
  let first := daysBeforeYear year
  let monday := first - first % 7
  if 3 < first % 7 then monday + 7 else monday

def weekDay (year week day : Nat) : Option Nat :=
  let first := daysBeforeYear year % 7
  let longYear := first = 3 ∨ first = 2 ∧ isLeap year
  if 1 ≤ year ∧ 1 ≤ week ∧ (week < 53 ∨ week = 53 ∧ longYear) ∧ 1 ≤ day ∧ day ≤ 7 then
    some (weekOneMonday year + (week - 1) * 7 + (day - 1))
  else none

def civilDay (year month day : Nat) : Option Nat :=
  if 1 ≤ year ∧ 1 ≤ month ∧ month ≤ 12 ∧ 1 ≤ day ∧ day ≤ daysInMonth (isLeap year) month then
    some (daysBeforeYear year + daysBeforeMonth (isLeap year) month + (day - 1))
  else none

/-- The day number a date text stands for. -/
def parseDate (cs : List Char) : Option Nat := do
  let (year, rest) ← takeNat 4 cs
  let (dashed, rest) := dash rest
  if rest.head? = some 'W' then
    let (week, rest) ← takeNat 2 rest.tail
    if rest = [] then
      weekDay year week 1
    else
      let rest ← afterDash dashed rest
      let (day, _) ← takeNat 1 rest
      weekDay year week day
  else
    let (month, rest) ← takeNat 2 rest
    let rest ← afterDash dashed rest
    let (day, _) ← takeNat 2 rest
    civilDay year month day

/-- The components of `HH[:MM[:SS[.ffffff]]]`. -/
structure Clock where
  hour : Nat
  minute : Nat
  second : Nat
  micro : Nat

def Clock.micros (c : Clock) : Nat :=
  (c.hour * 3600 + c.minute * 60 + c.second) * 1000000 + c.micro

/-- Digits past the sixth are cut off. -/
def parseFraction : List Char → Option Nat
  | [] => some 0
  | c :: cs =>
    if (c = '.' ∨ c = ',') ∧ cs ≠ [] ∧ cs.all isDigit then
      (takeNat 6 (cs ++ List.replicate 6 '0')).map Prod.fst
    else none

def afterColon (colon : Bool) (cs : List Char) : Option (List Char) :=
  if colon then (if cs.head? = some ':' then some cs.tail else none) else some cs

def parseClock (cs : List Char) : Option Clock := do
  let (hour, rest) ← takeNat 2 cs
  if rest = [] then
    return ⟨hour, 0, 0, 0⟩
  let colon := rest.head? = some ':'
  let rest ← afterColon colon rest
  let (minute, rest) ← takeNat 2 rest
  if rest = [] then
    return ⟨hour, minute, 0, 0⟩
  let rest ← afterColon colon rest
  let (second, rest) ← takeNat 2 rest
  let micro ← parseFraction rest
  return ⟨hour, minute, second, micro⟩

def isZone (c : Char) : Bool := c = '+' || c = '-' || c = 'Z'

/-- A zone is `Z` at the end or a signed clock of less than a day. -/
def parseZone : List Char → Option (Option Int)
  | [] => some none
  | z :: cs =>
    if z = 'Z' then (if cs = [] then some (some 0) else none)
    else do
      let clock ← parseClock cs
      if clock.micros < 86400000000 then
        return some (if z = '-' then -(clock.micros : Int) else clock.micros)
      else none

def parseTime (cs : List Char) : Option (Nat × Option Int) := do
  let clock ← parseClock (cs.takeWhile (fun c => !isZone c))
  let offset ← parseZone (cs.dropWhile (fun c => !isZone c))
  if clock.hour < 24 ∧ clock.minute < 60 ∧ clock.second < 60 then
    return (clock.micros, offset)
  else none

/-- Nothing after the separator is midnight. -/
def timePart (cs : List Char) : Option (Nat × Option Int) :=
  if cs = [] then some (0, none) else parseTime cs

def wallAt (n : Nat) (offset : Option Int) : Option DateTime :=
  (Instant.ofMicros n).map (fun wall => ⟨wall, offset⟩)

/-- `datetime.fromisoformat` after its documented grammar; `none` is a `ValueError`. Some malformed
texts the interpreter's C code reads or refuses otherwise. -/
def fromIsoFormat (cs : List Char) : Option DateTime := do
  let n ← separatorAt cs
  let day ← parseDate (cs.take n)
  let time ← timePart (cs.drop (n + 1))
  wallAt (day * 86400000000 + time.1) time.2

def zoneText : List Char := ['+', '0', '0', ':', '0', '0']

/-- A trailing `Z` is written as the zone it stands for. -/
def expandZ (cs : List Char) : List Char :=
  if cs.getLast? = some 'Z' then cs.dropLast ++ zoneText else cs

end Iso

/-- The UTC instant an ISO text stands for, as `parse_utc` and `parse_iso_z` read it. -/
def utcOf (ts : String) : Except PyErr Instant :=
  match Iso.fromIsoFormat (Iso.expandZ (strip ts.toList)) with
  | none => .error (.valueError [.text "Invalid isoformat string: ", .repr ts])
  | some d =>
    match d.toUtc with
    | none => .error .overflowError
    | some t => .ok t

namespace Iso

theorem takeNat_append (ds : List Digit) (rest : List Char) :
    takeNat ds.length (ds.map digitChar ++ rest) = some (natOfDigits ds, rest) := by
  induction ds with
  | nil => rfl
  | cons d ds ih =>
    simp only [List.length_cons, List.map_cons, List.cons_append, takeNat, digit?_digitChar, ih,
      natOfDigits_cons]

theorem takeNat_padChars (w n : Nat) (rest : List Char) (h : n < 10 ^ w) :
    takeNat w (padChars w n ++ rest) = some (n, rest) := by
  have happ := takeNat_append (padDigits w n) rest
  rw [length_padDigits, natOfDigits_padDigits w n h] at happ
  exact happ

theorem padChars_succ (w n : Nat) : ∃ d ds, padChars (w + 1) n = digitChar d :: ds := by
  have hlen : (padDigits (w + 1) n).length = w + 1 := length_padDigits (w + 1) n
  unfold padChars
  cases hp : padDigits (w + 1) n with
  | nil =>
    rw [hp] at hlen
    simp at hlen
  | cons d ds => exact ⟨d, ds.map digitChar, rfl⟩

theorem padChars_head_ne (w n : Nat) (rest : List Char) (c : Char) (hc : digit? c = none) :
    (padChars (w + 1) n ++ rest).head? ≠ some c := by
  obtain ⟨d, ds, hd⟩ := padChars_succ w n
  rw [hd, List.cons_append, List.head?_cons, ne_eq, Option.some.injEq]
  exact digitChar_ne d c hc

theorem separatorAt_dashed (year month : Nat) (rest : List Char) (h : 2 ≤ rest.length) :
    separatorAt (padChars 4 year ++ ('-' :: (padChars 2 month ++ rest))) = some 10 := by
  have hlen : (padChars 4 year ++ ('-' :: (padChars 2 month ++ rest))).length =
      7 + rest.length := by
    simp
    omega
  have hdash : (padChars 4 year ++ ('-' :: (padChars 2 month ++ rest)))[4]? = some '-' := by
    rw [List.getElem?_append_right (by simp), length_padChars]
    rfl
  have hmonth : (padChars 4 year ++ ('-' :: (padChars 2 month ++ rest)))[5]? ≠ some 'W' := by
    rw [List.getElem?_append_right (by simp), length_padChars]
    show (padChars 2 month ++ rest)[0]? ≠ some 'W'
    rw [← List.head?_eq_getElem?]
    exact padChars_head_ne 1 month rest 'W' rfl
  unfold separatorAt
  rw [if_neg (by omega), if_neg (by omega), if_pos hdash, if_neg hmonth]

theorem civilDay_date (d : CivilDate) : civilDay d.year d.month d.day = some d.dayNumber := by
  unfold civilDay
  rw [if_pos ⟨d.year_pos, d.month_pos, d.month_le, d.day_pos, d.day_le⟩, Nat.add_assoc]
  rfl

theorem day_lt (d : CivilDate) : d.day < 10 ^ 2 := by
  have hlast := d.day_le
  unfold daysInMonth at hlast
  split_ifs at hlast <;> omega

theorem parseDate_dateText (d : CivilDate) : parseDate (dateText d) = some d.dayNumber := by
  have hyear := d.year_le
  have hmonth := d.month_le
  have hday : takeNat 2 (padChars 2 d.day) = some (d.day, []) := by
    have h := takeNat_padChars 2 d.day [] (day_lt d)
    rw [List.append_nil] at h
    exact h
  have hrest := padChars_head_ne 1 d.month ('-' :: padChars 2 d.day) 'W' rfl
  unfold parseDate dateText
  rw [takeNat_padChars 4 _ _ (by omega)]
  simp only [Option.bind_eq_bind, Option.bind_some, dash]
  rw [if_neg hrest, takeNat_padChars 2 _ _ (by omega)]
  simp only [Option.bind_some, afterDash, dash, if_true, hday, civilDay_date]

theorem isZone_digitChar (d : Digit) : isZone (digitChar d) = false := by
  revert d
  decide

theorem padChars_zone (w n : Nat) : ∀ c ∈ padChars w n, isZone c = false := by
  intro c hc
  obtain ⟨d, -, rfl⟩ := List.mem_map.mp hc
  exact isZone_digitChar d

theorem clock_zone (s micro : Nat) :
    ∀ c ∈ clockText s ++ fractionText micro, isZone c = false := by
  intro c hc
  unfold clockText fractionText at hc
  split_ifs at hc
  all_goals
    simp only [List.mem_append, List.mem_cons, List.not_mem_nil, or_false] at hc
    have hpad := padChars_zone
    grind [isZone]

theorem parseFraction_fractionText (micro : Nat) (h : micro < 1000000) :
    parseFraction (fractionText micro) = some micro := by
  unfold fractionText
  split_ifs with hz
  · rw [hz]
    rfl
  · have hall : (padChars 6 micro).all isDigit = true := by
      rw [List.all_eq_true]
      intro c hc
      obtain ⟨d, -, rfl⟩ := List.mem_map.mp hc
      rw [isDigit, digit?_digitChar]
      rfl
    have hne : padChars 6 micro ≠ [] := by
      intro hnil
      have hlen := length_padChars 6 micro
      rw [hnil] at hlen
      simp at hlen
    rw [parseFraction, if_pos ⟨Or.inl rfl, hne, hall⟩, takeNat_padChars 6 _ _ (by omega)]
    rfl

theorem parseClock_clockText (s micro : Nat) (hs : s < 86400) (h : micro < 1000000) :
    parseClock (clockText s ++ fractionText micro) =
      some ⟨s / 3600, s / 60 % 60, s % 60, micro⟩ := by
  unfold parseClock clockText
  simp only [List.append_assoc, List.cons_append]
  rw [takeNat_padChars 2 _ _ (by omega)]
  simp only [Option.bind_eq_bind, Option.bind_some, afterColon]
  simp only [reduceCtorEq, if_false, List.head?_cons, decide_true, if_true, List.tail_cons,
    Option.bind_some]
  rw [takeNat_padChars 2 _ _ (by omega)]
  simp only [Option.bind_some, reduceCtorEq, if_false, List.head?_cons, if_true, List.tail_cons]
  rw [takeNat_padChars 2 _ _ (by omega)]
  simp only [Option.bind_some, parseFraction_fractionText micro h, Option.pure_def]

theorem parseTime_clockText (s micro : Nat) (hs : s < 86400) (h : micro < 1000000) :
    parseTime (clockText s ++ (fractionText micro ++ zoneText)) =
      some (s * 1000000 + micro, some 0) := by
  have hzone : ∀ c ∈ clockText s ++ fractionText micro, (!isZone c) = true := by
    intro c hc
    rw [clock_zone s micro c hc]
    rfl
  unfold parseTime
  rw [← List.append_assoc, List.takeWhile_append_of_pos hzone, List.dropWhile_append_of_pos hzone]
  have htake : zoneText.takeWhile (fun c => !isZone c) = [] := rfl
  have hdrop : zoneText.dropWhile (fun c => !isZone c) = zoneText := rfl
  have hutc : parseZone zoneText = some (some 0) := by decide
  rw [htake, hdrop, List.append_nil, parseClock_clockText s micro hs h, hutc]
  simp only [Option.bind_eq_bind, Option.bind_some, Clock.micros]
  rw [if_pos ⟨by omega, by omega, by omega⟩, Option.pure_def, Option.some.injEq, Prod.mk.injEq]
  exact ⟨by omega, rfl⟩

theorem fromIsoFormat_eq (cs : List Char) (n day micros : Nat) (offset : Option Int)
    (hsep : separatorAt cs = some n) (hday : parseDate (cs.take n) = some day)
    (htime : timePart (cs.drop (n + 1)) = some (micros, offset)) :
    fromIsoFormat cs = wallAt (day * 86400000000 + micros) offset := by
  rw [fromIsoFormat, hsep, Option.bind_eq_bind, Option.bind_some, hday, Option.bind_eq_bind,
    Option.bind_some, htime, Option.bind_some]

theorem wallAt_val (t : Instant) (n : Nat) (offset : Option Int) (h : n = t.val) :
    wallAt n offset = some ⟨t, offset⟩ := by
  rw [wallAt, h, Instant.ofMicros_val, Option.map_some]

theorem fromIsoFormat_parts (d : CivilDate) (s micro : Nat) (hs : s < 86400)
    (hm : micro < 1000000) :
    fromIsoFormat (dateText d ++ ('T' :: clockText s) ++ (fractionText micro ++ zoneText)) =
      wallAt (d.dayNumber * 86400000000 + (s * 1000000 + micro)) (some 0) := by
  have hsep : separatorAt (dateText d ++ ('T' :: clockText s) ++
      (fractionText micro ++ zoneText)) = some 10 := by
    simp only [dateText, List.append_assoc, List.cons_append]
    apply separatorAt_dashed
    simp only [List.length_cons, List.length_append]
    omega
  have hdate : (dateText d ++ ('T' :: clockText s) ++ (fractionText micro ++ zoneText)).take 10 =
      dateText d := by
    rw [List.append_assoc]
    exact List.take_left' (length_dateText d)
  have htime : (dateText d ++ ('T' :: clockText s) ++ (fractionText micro ++ zoneText)).drop
      (10 + 1) = clockText s ++ (fractionText micro ++ zoneText) := by
    rw [List.append_assoc, ← List.drop_drop, List.drop_left' (length_dateText d)]
    rfl
  have hclock : timePart (clockText s ++ (fractionText micro ++ zoneText)) =
      some (s * 1000000 + micro, some 0) := by
    rw [timePart, if_neg (by simp [zoneText])]
    exact parseTime_clockText s micro hs hm
  have hday := parseDate_dateText d
  rw [← hdate] at hday
  rw [← htime] at hclock
  exact fromIsoFormat_eq _ 10 _ _ _ hsep hday hclock

theorem instant_parts (t : Instant) :
    t.date.dayNumber * 86400000000 + (t.secondOfDay * 1000000 + t.micro) = t.val := by
  have ht := t.val_eq
  have hs := t.second_eq
  rw [Instant.dayNumber_date]
  omega

theorem fromIsoFormat_isoformat (t : Instant) :
    fromIsoFormat (secondText t ++ (fractionText t.micro ++ zoneText)) = some ⟨t, some 0⟩ := by
  rw [secondText, fromIsoFormat_parts _ _ _ t.secondOfDay_lt t.micro_lt]
  exact wallAt_val t _ _ (instant_parts t)

theorem isSpace_digitChar (d : Digit) : isSpace (digitChar d) = false := by
  revert d
  decide

theorem strip_isoZ (t : Instant) : strip (isoZ t).toList = (isoZ t).toList := by
  obtain ⟨d, ds, hd⟩ := padChars_succ 3 t.date.year
  have hshape : (isoZ t).toList = digitChar d :: ((ds ++ ('-' :: (padChars 2 t.date.month ++
      ('-' :: padChars 2 t.date.day))) ++ ('T' :: clockText t.secondOfDay) ++
      fractionText t.micro) ++ ['Z']) := by
    simp only [isoZ, String.toList_ofList, secondText, dateText, hd, List.append_assoc,
      List.cons_append]
  rw [hshape]
  exact strip_eq_self _ _ _ (isSpace_digitChar d) rfl

theorem expandZ_isoZ (t : Instant) : expandZ (isoZ t).toList =
    secondText t ++ (fractionText t.micro ++ zoneText) := by
  rw [isoZ, String.toList_ofList, ← List.append_assoc, expandZ, if_pos List.getLast?_concat,
    List.dropLast_concat, List.append_assoc]

end Iso

/-- An instant is read back from its text. -/
@[simp] theorem utcOf_isoZ (t : Instant) : utcOf (isoZ t) = .ok t := by
  have hutc : DateTime.toUtc ⟨t, some 0⟩ = some t := by
    rw [DateTime.toUtc, Option.getD_some, Int.sub_zero, Instant.ofMicros_val]
  rw [utcOf, Iso.strip_isoZ, Iso.expandZ_isoZ, Iso.fromIsoFormat_isoformat]
  simp only [hutc]

end Elyra
