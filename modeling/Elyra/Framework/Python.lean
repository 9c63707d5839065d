import Elyra.Framework.Dict
import Elyra.Framework.Json.Parse

namespace Elyra

/-- A piece of an f-string: literal text, or a string shown by `!r`. -/
inductive Piece where
  | text (s : String)
  | repr (s : String)
  deriving DecidableEq

inductive PyErr where
  | valueError (msg : List Piece)
  | keyError (msg : List Piece)
  | osError
  | unicodeDecodeError
  | overflowError
  | typeError
  | recursionError
  deriving DecidableEq

/-- What the limits of the interpreter make `json.loads` raise on a text before its first syntax
error: `ValueError` at an integer of too many digits, `RecursionError` where it is nested too
deep. -/
class JsonLimits where
  raises : List Char → Option PyErr

/-- A computation that may raise; what it changed before raising stays changed. -/
abbrev Py (σ : Type) := EStateM PyErr σ

/-- `except Exception: undo; raise`. -/
def orUndo {σ α : Type} (m : Py σ α) (undo : σ → σ) : Py σ α := fun s =>
  match m s with
  | .ok a t => .ok a t
  | .error e t => .error e (undo t)

/-- A computation that raises without having changed anything. -/
def ofExcept {σ α : Type} (r : Except PyErr α) : Py σ α := fun s =>
  match r with
  | .ok a => .ok a s
  | .error e => .error e s

/-- `str(v)`, `int(v)` and `dict(v or {})` on decoded values that are not already a string,
an integer or an object. -/
class PyCoerce where
  strOf : Json → String
  intOf : Json → Option Int
  dictOf : Json → Option (Dict String Json)

/-- Python's conversions on `None`, booleans, integers and empty values; the other conversions
are not exact. -/
@[reducible] def basicCoerce : PyCoerce where
  strOf
    | .null => "None"
    | .bool true => "True"
    | .bool false => "False"
    | .int n => toString n
    | _ => ""
  intOf
    | .bool true => some 1
    | .bool false => some 0
    | _ => none
  dictOf
    | .bool false | .int 0 | .str "" | .arr [] => some .empty
    | _ => none

/-- Arithmetic of floats: `float(v)` of a value that is not a float, `timedelta(seconds=x)` in
microseconds, and `total_seconds()`. -/
class PyFloat where
  ofJson : Json → Except PyErr FloatLit
  timedelta : FloatLit → Except PyErr Int
  totalSeconds : Int → FloatLit

/-- Whole seconds only; the other values are not exact. -/
@[reducible] def basicFloat : PyFloat where
  ofJson
    | .int n => .ok (.decimal (n < 0) n.natAbs 0 [] none)
    | _ => .error .typeError
  timedelta
    | .decimal neg whole _ _ none => .ok ((if neg then -1 else 1) * whole * 1000000)
    | _ => .error .overflowError
  totalSeconds n := .decimal (n < 0) (n.natAbs / 1000000) 0 [] none

def FloatLit.isZero : FloatLit → Bool
  | .decimal _ whole tenth frac _ => whole = 0 && tenth = 0 && frac.all (· = 0)
  | .scientific _ whole _ => whole = 0
  | .nan | .infinity _ => false

def truthy : Json → Bool
  | .null => false
  | .bool b => b
  | .int n => n ≠ 0
  | .float x => !x.isZero
  | .str s => s ≠ ""
  | .arr xs => xs ≠ []
  | .obj kvs => kvs ≠ []

section Coerce

variable [PyCoerce]

def pyStr : Json → String
  | .str s => s
  | v => PyCoerce.strOf v

def pyInt : Json → Option Int
  | .int n => some n
  | v => PyCoerce.intOf v

def pyDict : Json → Option (Dict String Json)
  | .null => some .empty
  | .obj kvs => some (.ofList kvs)
  | v => PyCoerce.dictOf v

/-- `v if v is None else str(v)` on `d.get(key)`. -/
def optStr : Option Json → Option String
  | none | some .null => none
  | some v => some (pyStr v)

/-- `str(v or default)` on `d.get(key)`. -/
def strOr (v : Option Json) (default : String) : String :=
  match v with
  | some v => if truthy v then pyStr v else default
  | none => default

@[simp] theorem pyStr_str (s : String) : pyStr (.str s) = s := rfl

@[simp] theorem pyInt_int (n : Int) : pyInt (.int n) = some n := rfl

@[simp] theorem pyDict_items (d : Dict String Json) : pyDict (.obj d.items) = some d := by
  rw [pyDict, Dict.ofList_items]

@[simp] theorem optStr_str (s : String) : optStr (some (.str s)) = some s := rfl

theorem strOr_str (s default : String) (h : s ≠ "" ∨ s = default) :
    strOr (some (.str s)) default = s := by
  by_cases hs : s = ""
  · obtain hne | heq := h
    · exact absurd hs hne
    · simp [strOr, truthy, hs, ← heq]
  · simp [strOr, truthy, hs]

@[simp] theorem optStr_none : optStr none = none := rfl

end Coerce
end Elyra
