import Mathlib.Data.Nat.Digits.Defs
import Elyra.Framework.Digits

namespace Elyra

/-- A binary float, named by the digits its shortest decimal form prints. -/
inductive FloatLit where
  | decimal (neg : Bool) (whole : Nat) (tenth : Fin 10) (frac : List (Fin 10)) (exp : Option Int)
  | scientific (neg : Bool) (whole : Nat) (exp : Int)
  | nan
  | infinity (neg : Bool)
  deriving DecidableEq

/-- A decoded JSON value. An object is the list of its pairs in insertion order. -/
inductive Json where
  | null
  | bool (b : Bool)
  | int (n : Int)
  | float (x : FloatLit)
  | str (s : String)
  | arr (xs : List Json)
  | obj (kvs : List (String × Json))

namespace Json

mutual
def decEq : (a b : Json) → Decidable (a = b)
  | .null, .null => isTrue rfl
  | .bool a, .bool b => decidable_of_iff (a = b) (by simp)
  | .int a, .int b => decidable_of_iff (a = b) (by simp)
  | .float a, .float b => decidable_of_iff (a = b) (by simp)
  | .str a, .str b => decidable_of_iff (a = b) (by simp)
  | .arr xs, .arr ys =>
    match decEqElems xs ys with
    | isTrue h => isTrue (by rw [h])
    | isFalse h => isFalse (fun e => h (by simpa using e))
  | .obj xs, .obj ys =>
    match decEqMembers xs ys with
    | isTrue h => isTrue (by rw [h])
    | isFalse h => isFalse (fun e => h (by simpa using e))
  | .null, .bool _ | .null, .int _ | .null, .float _ | .null, .str _ | .null, .arr _
  | .null, .obj _ | .bool _, .null | .bool _, .int _ | .bool _, .float _ | .bool _, .str _
  | .bool _, .arr _ | .bool _, .obj _ | .int _, .null | .int _, .bool _ | .int _, .float _
  | .int _, .str _ | .int _, .arr _ | .int _, .obj _ | .float _, .null | .float _, .bool _
  | .float _, .int _ | .float _, .str _ | .float _, .arr _ | .float _, .obj _ | .str _, .null
  | .str _, .bool _ | .str _, .int _ | .str _, .float _ | .str _, .arr _ | .str _, .obj _
  | .arr _, .null | .arr _, .bool _ | .arr _, .int _ | .arr _, .float _ | .arr _, .str _
  | .arr _, .obj _ | .obj _, .null | .obj _, .bool _ | .obj _, .int _ | .obj _, .float _
  | .obj _, .str _ | .obj _, .arr _ => isFalse (by simp)

def decEqElems : (xs ys : List Json) → Decidable (xs = ys)
  | [], [] => isTrue rfl
  | [], _ :: _ => isFalse (by simp)
  | _ :: _, [] => isFalse (by simp)
  | x :: xs, y :: ys =>
    match decEq x y, decEqElems xs ys with
    | isTrue h, isTrue k => isTrue (by rw [h, k])
    | isFalse h, _ => isFalse (by simp [h])
    | _, isFalse k => isFalse (by simp [k])

def decEqMembers : (xs ys : List (String × Json)) → Decidable (xs = ys)
  | [], [] => isTrue rfl
  | [], _ :: _ => isFalse (by simp)
  | _ :: _, [] => isFalse (by simp)
  | (j, x) :: xs, (k, y) :: ys =>
    if hk : j = k then
      match decEq x y, decEqMembers xs ys with
      | isTrue h, isTrue t => isTrue (by rw [hk, h, t])
      | isFalse h, _ => isFalse (by simp [h])
      | _, isFalse t => isFalse (by simp [t])
    else isFalse (by simp [hk])
end

instance : DecidableEq Json := decEq

/-- Induction over a value, its elements and its members. -/
@[elab_as_elim] theorem induction {P : Json → Prop} {E : List Json → Prop}
    {M : List (String × Json) → Prop} (null : P .null) (bool : ∀ b, P (.bool b))
    (int : ∀ n, P (.int n)) (float : ∀ x, P (.float x)) (str : ∀ s, P (.str s))
    (arr : ∀ xs, E xs → P (.arr xs)) (obj : ∀ kvs, M kvs → P (.obj kvs))
    (nilE : E []) (consE : ∀ x xs, P x → E xs → E (x :: xs))
    (nilM : M []) (consM : ∀ k v kvs, P v → M kvs → M ((k, v) :: kvs)) (a : Json) : P a :=
  Json.rec (motive_1 := P) (motive_2 := E) (motive_3 := M) (motive_4 := fun p => P p.2)
    null bool int float str arr obj nilE consE nilM
    (fun p kvs hp hk => consM p.1 p.2 kvs hp hk) (fun _ _ h => h) a

/-- `d.get(key)` on a decoded object: of a repeated key the last pair counts. -/
def lookup (kvs : List (String × Json)) (key : String) : Option Json :=
  (kvs.reverse.find? (fun p => p.1 = key)).map Prod.snd

/-- `v[key]` where a missing key and a value that is no object are both refused. -/
def field? (v : Json) (key : String) : Option Json :=
  match v with
  | .obj kvs => lookup kvs key
  | _ => none

end Json
end Elyra

namespace Elyra.Json

def isWs (c : Char) : Bool := c = ' ' || c = '\t' || c = '\n' || c = '\r'

/-- The white space `json.dumps` puts after an opening bracket, after a comma and
before a closing bracket, by nesting depth. -/
structure Style where
  opening : Nat → List Char
  comma : Nat → List Char
  closing : Nat → List Char
  opening_ws : ∀ n, ∀ c ∈ opening n, isWs c = true
  comma_ws : ∀ n, ∀ c ∈ comma n, isWs c = true
  closing_ws : ∀ n, ∀ c ∈ closing n, isWs c = true

def compact : Style :=
  ⟨fun _ => [], fun _ => [' '], fun _ => [], by simp, by simp [isWs], by simp⟩

def hexChar (d : Nat) : Char := if d < 10 then Char.ofNat (48 + d) else Char.ofNat (87 + d)

/-- `ensure_ascii=False`: only the quote, the backslash and controls below a blank are escaped. -/
def escapeChar (c : Char) : List Char :=
  if c = '"' then ['\\', '"']
  else if c = '\\' then ['\\', '\\']
  else if c = '\n' then ['\\', 'n']
  else if c = '\r' then ['\\', 'r']
  else if c = '\t' then ['\\', 't']
  else if c = Char.ofNat 8 then ['\\', 'b']
  else if c = Char.ofNat 12 then ['\\', 'f']
  else if c.toNat < 32 then ['\\', 'u', '0', '0', hexChar (c.toNat / 16), hexChar (c.toNat % 16)]
  else [c]

def printStr (s : String) : List Char := '"' :: (s.toList.flatMap escapeChar ++ ['"'])

def signChars (neg : Bool) : List Char := if neg then ['-'] else []

def printInt (n : Int) : List Char := signChars (n < 0) ++ natChars n.natAbs

def expDigits (n : Nat) : List Digit := if n < 10 then [0, Fin.ofNat 10 n] else natDigits n

def printExp (e : Int) : List Char :=
  'e' :: (if e < 0 then '-' else '+') :: (expDigits e.natAbs).map digitChar

def printFloat : FloatLit → List Char
  | .decimal neg whole tenth frac exp =>
    signChars neg ++ natChars whole ++ '.' :: ((tenth :: frac).map digitChar ++
      match exp with | none => [] | some e => printExp e)
  | .scientific neg whole exp => signChars neg ++ natChars whole ++ printExp exp
  | .nan => ['N', 'a', 'N']
  | .infinity neg => signChars neg ++ ['I', 'n', 'f', 'i', 'n', 'i', 't', 'y']

def printAtom : Json → List Char
  | .null => ['n', 'u', 'l', 'l']
  | .bool true => ['t', 'r', 'u', 'e']
  | .bool false => ['f', 'a', 'l', 's', 'e']
  | .int n => printInt n
  | .float x => printFloat x
  | .str s => printStr s
  | .arr _ => ['[', ']']
  | .obj _ => ['{', '}']

mutual
def print (st : Style) (n : Nat) : Json → List Char
  | .arr (x :: xs) => '[' :: (st.opening n ++ (print st (n + 1) x ++ printElems st n xs))
  | .obj ((k, v) :: kvs) =>
    '{' :: (st.opening n ++ (printStr k ++ ':' :: ' ' :: (print st (n + 1) v ++
      printMembers st n kvs)))
  | .arr [] => printAtom (.arr [])
  | .obj [] => printAtom (.obj [])
  | .null => printAtom .null
  | .bool b => printAtom (.bool b)
  | .int n => printAtom (.int n)
  | .float x => printAtom (.float x)
  | .str s => printAtom (.str s)

def printElems (st : Style) (n : Nat) : List Json → List Char
  | [] => st.closing n ++ [']']
  | x :: xs => ',' :: (st.comma n ++ (print st (n + 1) x ++ printElems st n xs))

def printMembers (st : Style) (n : Nat) : List (String × Json) → List Char
  | [] => st.closing n ++ ['}']
  | (k, v) :: kvs =>
    ',' :: (st.comma n ++ (printStr k ++ ':' :: ' ' :: (print st (n + 1) v ++
      printMembers st n kvs)))
end

/-- `json.dumps(v, ensure_ascii=False)`. -/
def dumps (v : Json) : List Char := print compact 0 v

example : dumps (.obj [("id", .str "a\n"), ("n", .arr [.int (-3), .null])]) =
    "\x7b\"id\": \"a\\n\", \"n\": [-3, null]\x7d".toList := by decide

def skipWs (cs : List Char) : List Char := cs.dropWhile isWs

def hexVal (c : Char) : Option Nat :=
  if 48 ≤ c.toNat ∧ c.toNat ≤ 57 then some (c.toNat - 48)
  else if 97 ≤ c.toNat ∧ c.toNat ≤ 102 then some (c.toNat - 87)
  else if 65 ≤ c.toNat ∧ c.toNat ≤ 70 then some (c.toNat - 55)
  else none

def hex4 (a b c d : Char) : Option Nat :=
  match hexVal a, hexVal b, hexVal c, hexVal d with
  | some w, some x, some y, some z => some (((w * 16 + x) * 16 + y) * 16 + z)
  | _, _, _, _ => none

def simpleEscape (c : Char) : Option Char :=
  if c = '"' then some '"'
  else if c = '\\' then some '\\'
  else if c = '/' then some '/'
  else if c = 'b' then some (Char.ofNat 8)
  else if c = 'f' then some (Char.ofNat 12)
  else if c = 'n' then some '\n'
  else if c = 'r' then some '\r'
  else if c = 't' then some '\t'
  else none

def isHighSurrogate (u : Nat) : Bool := 0xD800 ≤ u && u ≤ 0xDBFF

def isLowSurrogate (u : Nat) : Bool := 0xDC00 ≤ u && u ≤ 0xDFFF

def consChar (c : Char) (r : Option (List Char × List Char)) : Option (List Char × List Char) :=
  r.map (fun p => (c :: p.1, p.2))

/-- The body of a string up to its closing quote, and the text after it. A lone
surrogate escape names no `Char` and is refused; `escapeChar` never writes one. -/
def parseStrBody : List Char → Option (List Char × List Char)
  | [] => none
  | c :: r =>
    if c = '"' then some ([], r)
    else if c = '\\' then
      match r with
      | 'u' :: a :: b :: d :: e :: r' =>
        match hex4 a b d e with
        | none => none
        | some u =>
          if isHighSurrogate u then
            match r' with
            | '\\' :: 'u' :: a' :: b' :: d' :: e' :: r'' =>
              match hex4 a' b' d' e' with
              | none => none
              | some l =>
                if isLowSurrogate l then
                  consChar (Char.ofNat (0x10000 + (u - 0xD800) * 1024 + (l - 0xDC00)))
                    (parseStrBody r'')
                else none
            | _ => none
          else if isLowSurrogate u then none
          else consChar (Char.ofNat u) (parseStrBody r')
      | x :: r' =>
        match simpleEscape x with
        | none => none
        | some y => consChar y (parseStrBody r')
      | [] => none
    else if c.toNat < 32 then none
    else consChar c (parseStrBody r)

def dropLit : List Char → List Char → Option (List Char)
  | [], cs => some cs
  | _ :: _, [] => none
  | l :: lit, c :: cs => if l = c then dropLit lit cs else none

def parseSign : List Char → Bool × List Char
  | '-' :: r => (true, r)
  | r => (false, r)

/-- A whole part is `0` or starts with a digit other than zero. -/
def parseWhole (cs : List Char) : Option (Nat × List Char) :=
  match cs with
  | [] => none
  | c :: r =>
    match digit? c with
    | none => none
    | some d =>
      if d = 0 then some (0, r) else some (natOfDigits (spanDigits cs).1, (spanDigits cs).2)

def parseFrac (cs : List Char) : Option (Digit × List Digit) × List Char :=
  match cs with
  | '.' :: r =>
    match spanDigits r with
    | (d :: ds, r') => (some (d, ds), r')
    | ([], _) => (none, cs)
  | _ => (none, cs)

def parseExpSign : List Char → Bool × List Char
  | '-' :: r => (true, r)
  | '+' :: r => (false, r)
  | r => (false, r)

def parseExp (cs : List Char) : Option Int × List Char :=
  match cs with
  | c :: r =>
    if c = 'e' ∨ c = 'E' then
      let (neg, r') := parseExpSign r
      match spanDigits r' with
      | ([], _) => (none, cs)
      | (ds, r'') =>
        (some (if neg then -(natOfDigits ds : Int) else natOfDigits ds), r'')
    else (none, cs)
  | [] => (none, cs)

def parseNumber (cs : List Char) : Option (Json × List Char) :=
  let (neg, r) := parseSign cs
  match parseWhole r with
  | none => none
  | some (whole, r1) =>
    let (frac, r2) := parseFrac r1
    let (exp, r3) := parseExp r2
    match frac, exp with
    | some (d, ds), e => some (.float (.decimal neg whole d ds e), r3)
    | none, some e => some (.float (.scientific neg whole e), r3)
    | none, none => some (.int (if neg then -(whole : Int) else whole), r3)

def litNull : List Char := ['n', 'u', 'l', 'l']
def litTrue : List Char := ['t', 'r', 'u', 'e']
def litFalse : List Char := ['f', 'a', 'l', 's', 'e']
def litNaN : List Char := ['N', 'a', 'N']
def litInfinity : List Char := ['I', 'n', 'f', 'i', 'n', 'i', 't', 'y']

def parseAtom (cs : List Char) : Option (Json × List Char) :=
  match dropLit litNull cs with
  | some r => some (.null, r)
  | none =>
    match dropLit litTrue cs with
    | some r => some (.bool true, r)
    | none =>
      match dropLit litFalse cs with
      | some r => some (.bool false, r)
      | none =>
        match parseNumber cs with
        | some p => some p
        | none =>
          match dropLit litNaN cs with
          | some r => some (.float .nan, r)
          | none =>
            match dropLit litInfinity cs with
            | some r => some (.float (.infinity false), r)
            | none => (dropLit ('-' :: litInfinity) cs).map (fun r => (.float (.infinity true), r))

mutual
/-- One value and the text after it; the fuel bounds the nesting. -/
def parseValue : Nat → List Char → Option (Json × List Char)
  | 0, _ => none
  | _, [] => none
  | fuel + 1, c :: r =>
    if c = '"' then (parseStrBody r).map (fun p => (.str (String.ofList p.1), p.2))
    else if c = '{' then
      match skipWs r with
      | '}' :: r' => some (.obj [], r')
      | r' => (parseMembers fuel r').map (fun p => (.obj p.1, p.2))
    else if c = '[' then
      match skipWs r with
      | ']' :: r' => some (.arr [], r')
      | r' => (parseElems fuel r').map (fun p => (.arr p.1, p.2))
    else parseAtom (c :: r)

def parseElems : Nat → List Char → Option (List Json × List Char)
  | 0, _ => none
  | fuel + 1, cs =>
    match parseValue fuel cs with
    | none => none
    | some (v, r) =>
      match skipWs r with
      | ']' :: r' => some ([v], r')
      | ',' :: r' => (parseElems fuel (skipWs r')).map (fun p => (v :: p.1, p.2))
      | _ => none

def parseMembers : Nat → List Char → Option (List (String × Json) × List Char)
  | 0, _ => none
  | fuel + 1, '"' :: cs =>
    match parseStrBody cs with
    | none => none
    | some (k, r) =>
      match skipWs r with
      | ':' :: r' =>
        match parseValue fuel (skipWs r') with
        | none => none
        | some (v, r'') =>
          match skipWs r'' with
          | '}' :: r3 => some ([(String.ofList k, v)], r3)
          | ',' :: r3 =>
            (parseMembers fuel (skipWs r3)).map (fun p => ((String.ofList k, v) :: p.1, p.2))
          | _ => none
      | _ => none
  | _ + 1, _ => none
end

/-- `json.loads`: `none` is a `JSONDecodeError`. -/
def loads (cs : List Char) : Option Json :=
  match parseValue (cs.length + 1) (skipWs cs) with
  | none => none
  | some (v, r) => if skipWs r = [] then some v else none

example : loads " \x7b\"a\" : [1.5e3,true]\x7d ".toList =
    some (.obj [("a", .arr [.float (.decimal false 1 5 [] (some 3)), .bool true])]) := by decide +kernel

end Elyra.Json
