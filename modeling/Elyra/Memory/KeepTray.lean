import Elyra.Framework.IsoText
import Elyra.Framework.Sorted
import Mathlib.Data.Prod.Lex
import Mathlib.Data.Rat.Defs
import Mathlib.Algebra.Order.Ring.Unbundled.Rat

namespace Elyra.Memory

/-- The float arithmetic of the tray, on ages in microseconds. -/
class TrayFloat extends PyFloat where
  /-- `hours > 0`. -/
  positive : FloatLit → Bool
  /-- `age > hours * 3600.0`. -/
  exceeds : FloatLit → Int → Bool
  /-- `max(0.0, age) >= max(0.0, hours) * 3600.0`. -/
  reaches : FloatLit → Int → Bool
  /-- `t.timestamp()`. -/
  timestamp : Instant → ℚ

def defaultHardTtlHours : FloatLit := .decimal false 24 0 [] none

def defaultSoftTtlHours : FloatLit := .decimal false 3 0 [] none

def defaultEntryCap : Int := 32

structure KeepTrayEntry where
  atomId : String
  confirmedAt : String
  lastReinforcedAt : String
  sourceSessionId : Option String
  sourceMomentId : Option String
  note : Option String
  deriving DecidableEq

structure DirectedKeepTray where
  entries : List KeepTrayEntry
  walkSummaryNl : Option String
  maxAgeHardHours : FloatLit
  softEvictAfterHours : FloatLit
  entryCap : Int

def emptyTray : DirectedKeepTray :=
  ⟨[], none, defaultHardTtlHours, defaultSoftTtlHours, defaultEntryCap⟩

namespace DirectedKeepTray

def trimmed (text : String) : String := .ofList (strip text.toList)

/-- `a or b` on texts. -/
def orText (a b : String) : String := if a = "" then b else a

section Load

variable [PyCoerce] [PyFloat]

/-- `KeepTrayEntry.from_dict`, at the time `utc_now_iso` gives. -/
def entryFromDict (now : String) (raw : Dict String Json) : Option KeepTrayEntry :=
  let aid := trimmed (strOr (raw.get? "atom_id") "")
  if aid = "" then none
  else
    let confirmed := orText (trimmed (strOr (raw.get? "confirmed_at") "")) now
    let reinforced := orText (trimmed (strOr (raw.get? "last_reinforced_at") "")) confirmed
    some
      { atomId := aid
        confirmedAt := confirmed
        lastReinforcedAt := reinforced
        sourceSessionId := optStr (raw.get? "source_session_id")
        sourceMomentId := optStr (raw.get? "source_moment_id")
        note := optStr (raw.get? "note") }

/-- `raw.get("entries") or ()` as an iterable; the keys of a dict and the characters of a text are
no mappings. -/
def rawEntries : Option Json → Except PyErr (List Json)
  | none => .ok []
  | some (.arr items) => .ok items
  | some v =>
    if truthy v then
      match v with
      | .str _ | .obj _ => .ok []
      | _ => .error .typeError
    else .ok []

/-- `_float_or`. -/
def floatOr (raw : Option Json) (default : FloatLit) : Except PyErr FloatLit :=
  match raw with
  | none | some .null => .ok default
  | some (.float .nan) => .ok default
  | some (.float x) => .ok x
  | some v =>
    match PyFloat.ofJson v with
    | .ok .nan => .ok default
    | .ok x => .ok x
    | .error .overflowError => .error .overflowError
    | .error _ => .ok default

/-- `_int_or`. -/
def intOr (raw : Option Json) (default : Int) : Except PyErr Int :=
  match raw with
  | none | some .null => .ok default
  | some (.float (.infinity _)) => .error .overflowError
  | some v => .ok ((pyInt v).getD default)

def mapping? : Option Json → Dict String Json
  | some (.obj kvs) => .ofList kvs
  | _ => .empty

/-- `DirectedKeepTray.from_dict`; `clock` is the time at each entry. -/
def fromDict (clock : Nat → Instant) (raw : Dict String Json) :
    Except PyErr DirectedKeepTray := do
  if raw.items = [] then return emptyTray
  let items ← rawEntries (raw.get? "entries")
  let entries := items.zipIdx.filterMap fun item =>
    match item.1 with
    | .obj kvs => entryFromDict (isoZ (clock item.2)) (.ofList kvs)
    | _ => none
  let policy := mapping? (raw.get? "policy")
  let hard ← floatOr (policy.get? "max_age_hard_hours") defaultHardTtlHours
  let soft ← floatOr (policy.get? "soft_evict_after_hours") defaultSoftTtlHours
  let cap ← intOr (policy.get? "entry_cap") defaultEntryCap
  let summary := raw.get? "walk_summary_nl"
  return ⟨entries, if summary.any truthy then summary.map fun v => trimmed (pyStr v) else none,
    hard, soft, max 1 cap⟩

/-- `load_directed_keep_tray` of a file that holds a JSON value, or of no readable file. -/
def load (clock : Nat → Instant) : Option Json → Except PyErr DirectedKeepTray
  | some (.obj kvs) => fromDict clock (.ofList kvs)
  | _ => .ok emptyTray

end Load

/-- `parse_iso_z` where a `ValueError` is caught and an `OverflowError` is not. -/
def parseTime (text : String) : Except PyErr (Option Instant) :=
  match utcOf text with
  | .ok t => .ok (some t)
  | .error .overflowError => .error .overflowError
  | .error _ => .ok none

def age (now t : Instant) : Int := (now.val : Int) - t.val

/-- Each entry with the time of its last reinforcement. -/
def timed (entries : List KeepTrayEntry) : Except PyErr (List (KeepTrayEntry × Option Instant)) :=
  entries.mapM fun e => do return (e, ← parseTime e.lastReinforcedAt)

section Ttl

variable [TrayFloat]

/-- An entry without a readable time is kept. -/
def withinTtl (hours : FloatLit) (now : Instant) : Option Instant → Bool
  | none => true
  | some t => !TrayFloat.exceeds hours (age now t)

def dropHardTtl (now : String) (hardHours : Option FloatLit) : Py DirectedKeepTray Nat := do
  let tray ← get
  let hard := hardHours.getD tray.maxAgeHardHours
  if !TrayFloat.positive hard then return 0
  let nowDt ← ofExcept (utcOf now)
  let aged ← ofExcept (timed tray.entries)
  let kept := aged.filter fun e => withinTtl hard nowDt e.2
  set { tray with entries := kept.map Prod.fst }
  return tray.entries.length - kept.length

/-- `_safe_ts` with the id. -/
def rank (e : KeepTrayEntry) (t : Option Instant) : ℚ ×ₗ String :=
  toLex (t.elim 0 TrayFloat.timestamp, e.atomId)

def lruTrim (entryCap : Option Int) : Py DirectedKeepTray Nat := do
  let tray ← get
  let cap := (max 0 (entryCap.getD tray.entryCap)).toNat
  if tray.entries.length ≤ cap then return 0
  let aged ← ofExcept (timed tray.entries)
  let ranked := sortBy (fun e => rank e.1 e.2) aged
  let keepSet := (ranked.drop (ranked.length - cap)).map fun e => e.1.atomId
  -- Survivors stay in the listed order.
  let kept := tray.entries.filter fun e => e.atomId ∈ keepSet
  set { tray with entries := kept }
  return tray.entries.length - kept.length

end Ttl

/-- The last element that meets `p`, changed in place. -/
def updateLast {α : Type} (p : α → Bool) (f : α → α) : List α → List α
  | [] => []
  | x :: xs => if p x && !xs.any p then f x :: xs else x :: updateLast p f xs

/-- What a confirmation writes on an entry that is there. -/
def reinforce (now : String) (sessionId momentId : Option String) (e : KeepTrayEntry) :
    KeepTrayEntry :=
  { e with
    lastReinforcedAt := now
    sourceSessionId := sessionId.orElse fun _ => e.sourceSessionId
    sourceMomentId := momentId.orElse fun _ => e.sourceMomentId }

/-- One id of `keep_ids`; of entries with one id `entry_map` holds the last. -/
def confirmId (now : String) (sessionId momentId : Option String) (entries : List KeepTrayEntry)
    (aid : String) : List KeepTrayEntry :=
  if aid = "" then entries
  else if entries.any fun e => e.atomId = aid then
    updateLast (fun e => e.atomId = aid) (reinforce now sessionId momentId) entries
  else entries ++ [⟨aid, now, now, sessionId, momentId, none⟩]

/-- The arguments of a merge; `now` is a text that stands for a time. -/
structure MergeArgs where
  keepIds : List Json
  now : String
  time : Instant
  parses : utcOf now = .ok time
  sessionId : Option String
  momentId : Option String
  walkSummaryNl : Option String
  hardHours : Option FloatLit
  softHours : Option FloatLit
  entryCap : Option Int

variable [PyCoerce]

namespace MergeArgs

/-- `str(raw_id or "").strip()` of each id. -/
def ids (args : MergeArgs) : List String := args.keepIds.map fun raw => trimmed (strOr (some raw) "")

end MergeArgs

/-- The tray before the two passes of a merge. -/
def confirmed (args : MergeArgs) (tray : DirectedKeepTray) : DirectedKeepTray :=
  { entries := args.ids.foldl (confirmId args.now args.sessionId args.momentId) tray.entries
    walkSummaryNl :=
      match args.walkSummaryNl with
      | some text => if trimmed text = "" then none else some (trimmed text)
      | none => tray.walkSummaryNl
    maxAgeHardHours := args.hardHours.getD tray.maxAgeHardHours
    softEvictAfterHours := args.softHours.getD tray.softEvictAfterHours
    entryCap := (args.entryCap.map (max 1)).getD tray.entryCap }

variable [TrayFloat]

def mergeConfirm (args : MergeArgs) : Py DirectedKeepTray Unit := do
  modify (confirmed args)
  let tray ← get
  let _ ← dropHardTtl args.now (some tray.maxAgeHardHours)
  let _ ← lruTrim (some tray.entryCap)

end DirectedKeepTray
end Elyra.Memory
