import Elyra.Framework.Json.Parse

namespace Elyra.Json

theorem skipWs_append (ws cs : List Char) (h : ∀ c ∈ ws, isWs c = true) :
    skipWs (ws ++ cs) = skipWs cs :=
  List.dropWhile_append_of_pos h

theorem skipWs_cons (c : Char) (cs : List Char) (h : isWs c = false) :
    skipWs (c :: cs) = c :: cs := by
  simp [skipWs, h]

theorem hexVal_hexChar (d : Nat) (h : d < 16) : hexVal (hexChar d) = some d := by
  revert d
  decide

theorem parseStrBody_quote (rest : List Char) : parseStrBody ('"' :: rest) = some ([], rest) := by
  rw [parseStrBody.eq_def]
  simp

theorem parseStrBody_plain (c : Char) (rest : List Char) (hq : c ≠ '"') (hb : c ≠ '\\')
    (hc : ¬c.toNat < 32) : parseStrBody (c :: rest) = consChar c (parseStrBody rest) := by
  rw [parseStrBody.eq_def]
  simp [hq, hb, hc]

theorem parseStrBody_escapeChar (c : Char) (rest : List Char) :
    parseStrBody (escapeChar c ++ rest) = consChar c (parseStrBody rest) := by
  unfold escapeChar
  split_ifs with h1 h2 h3 h4 h5 h6 h7 h8
  all_goals try (subst c; simp [parseStrBody, simpleEscape])
  · have hc : c.toNat / 16 < 16 := by omega
    have hu : hex4 '0' '0' (hexChar (c.toNat / 16)) (hexChar (c.toNat % 16)) = some c.toNat := by
      simp only [hex4, hexVal_hexChar _ hc, hexVal_hexChar _ (Nat.mod_lt _ (by decide : 0 < 16)),
        show hexVal '0' = some 0 from rfl]
      congr 1
      omega
    have hi : isHighSurrogate c.toNat = false := by
      simp [isHighSurrogate]
      omega
    have lo : isLowSurrogate c.toNat = false := by
      simp [isLowSurrogate]
      omega
    simp [parseStrBody, hu, hi, lo]
  · exact parseStrBody_plain c rest h1 h2 h8

theorem parseStrBody_escape (cs rest : List Char) :
    parseStrBody (cs.flatMap escapeChar ++ '"' :: rest) = some (cs, rest) := by
  induction cs with
  | nil => exact parseStrBody_quote rest
  | cons c cs ih =>
    rw [List.flatMap_cons, List.append_assoc, parseStrBody_escapeChar, ih]
    rfl

/-- The text after a number does not go on with it. -/
def Stops (rest : List Char) : Prop :=
  ∀ c ∈ rest.head?, digit? c = none ∧ c ≠ '.' ∧ c ≠ 'e' ∧ c ≠ 'E'

theorem Stops.noDigit {rest : List Char} (h : Stops rest) : NoDigit rest :=
  fun c hc => (h c hc).1

theorem stops_nil : Stops [] := by simp [Stops]

theorem stops_cons (c : Char) (rest : List Char)
    (h : digit? c = none ∧ c ≠ '.' ∧ c ≠ 'e' ∧ c ≠ 'E') : Stops (c :: rest) := by
  intro d hd
  rw [← Option.some.inj hd]
  exact h

theorem stops_ws (c : Char) (rest : List Char) (h : isWs c = true) : Stops (c :: rest) := by
  apply stops_cons
  simp only [isWs, Bool.or_eq_true, decide_eq_true_eq] at h
  rcases h with ((rfl | rfl) | rfl) | rfl <;> decide

theorem stops_append_ws (ws : List Char) (c : Char) (rest : List Char)
    (h : ∀ d ∈ ws, isWs d = true) (hc : Stops (c :: rest)) : Stops (ws ++ c :: rest) := by
  cases ws with
  | nil => exact hc
  | cons d ws => exact stops_ws d _ (h d (by simp))

theorem natChars_cons (n : Nat) : ∃ d ds, natDigits n = d :: ds ∧
    natChars n = digitChar d :: ds.map digitChar := by
  cases h : natDigits n with
  | nil => exact absurd h (natDigits_ne_nil n)
  | cons d ds => exact ⟨d, ds, rfl, by simp [natChars, h]⟩

theorem parseWhole_natChars (n : Nat) (rest : List Char) (h : NoDigit rest) :
    parseWhole (natChars n ++ rest) = some (n, rest) := by
  obtain ⟨d, ds, hd, hc⟩ := natChars_cons n
  have hspan : spanDigits (natChars n ++ rest) = (natDigits n, rest) :=
    spanDigits_digits (natDigits n) rest h
  have htext : natChars n ++ rest = digitChar d :: (ds.map digitChar ++ rest) := by
    rw [hc, List.cons_append]
  rw [htext] at hspan ⊢
  simp only [parseWhole, digit?_digitChar]
  split_ifs with hz
  · obtain ⟨hn, hds⟩ := natDigits_head n d ds hd hz
    simp [hn, hds]
  · rw [hspan]
    simp [natOfDigits_natDigits]

theorem parseSign_signChars (neg : Bool) (c : Char) (rest : List Char) (h : c ≠ '-') :
    parseSign (signChars neg ++ c :: rest) = (neg, c :: rest) := by
  cases neg
  · simp only [signChars, Bool.false_eq_true, if_false, List.nil_append]
    unfold parseSign
    split
    · rename_i he
      exact absurd (List.cons.inj he).1 h
    · rfl
  · rfl

theorem parseSign_natChars (neg : Bool) (n : Nat) (rest : List Char) :
    parseSign (signChars neg ++ (natChars n ++ rest)) = (neg, natChars n ++ rest) := by
  obtain ⟨d, ds, -, hc⟩ := natChars_cons n
  rw [hc, List.cons_append]
  exact parseSign_signChars neg _ _ (digitChar_ne d '-' rfl)

theorem parseFrac_none (rest : List Char) (h : ∀ c ∈ rest.head?, c ≠ '.') :
    parseFrac rest = (none, rest) := by
  unfold parseFrac
  split
  · exact absurd rfl (h '.' (by simp))
  · rfl

theorem parseFrac_digits (d : Digit) (ds : List Digit) (rest : List Char) (h : NoDigit rest) :
    parseFrac ('.' :: ((d :: ds).map digitChar ++ rest)) = (some (d, ds), rest) := by
  simp only [parseFrac, spanDigits_digits (d :: ds) rest h]

theorem parseExp_none (rest : List Char) (h : ∀ c ∈ rest.head?, c ≠ 'e' ∧ c ≠ 'E') :
    parseExp rest = (none, rest) := by
  cases rest with
  | nil => rfl
  | cons c r =>
    have hc := h c (by simp)
    simp [parseExp, hc.1, hc.2]

theorem natOfDigits_expDigits (n : Nat) : natOfDigits (expDigits n) = n := by
  unfold expDigits
  split_ifs with h
  · simp only [natOfDigits, List.foldl_cons, List.foldl_nil, Fin.val_ofNat]
    simp only [Fin.val_zero]
    omega
  · exact natOfDigits_natDigits n

theorem expDigits_cons (n : Nat) : ∃ d ds, expDigits n = d :: ds := by
  unfold expDigits
  split_ifs
  · exact ⟨0, _, rfl⟩
  · obtain ⟨d, ds, h, -⟩ := natChars_cons n
    exact ⟨d, ds, h⟩

theorem parseExp_printExp (e : Int) (rest : List Char) (h : NoDigit rest) :
    parseExp (printExp e ++ rest) = (some e, rest) := by
  have hspan := spanDigits_digits (expDigits e.natAbs) rest h
  have hval := natOfDigits_expDigits e.natAbs
  obtain ⟨d, ds, hd⟩ := expDigits_cons e.natAbs
  rw [hd] at hspan hval
  by_cases hneg : e < 0
  · simp only [printExp, hneg, if_true, List.cons_append, parseExp, true_or, parseExpSign, hd,
      hspan, hval]
    congr 2
    omega
  · simp only [printExp, hneg, if_false, List.cons_append, parseExp, true_or, if_true,
      parseExpSign, hd, hspan, hval, Bool.false_eq_true]
    congr 2
    omega

theorem parseNumber_printInt (n : Int) (rest : List Char) (h : Stops rest) :
    parseNumber (printInt n ++ rest) = some (.int n, rest) := by
  unfold parseNumber printInt
  rw [List.append_assoc, parseSign_natChars]
  simp only [parseWhole_natChars _ _ h.noDigit, parseFrac_none rest (fun c hc => (h c hc).2.1),
    parseExp_none rest (fun c hc => (h c hc).2.2)]
  by_cases hn : n < 0
  · simp only [hn, decide_true, if_true]
    congr 3
    omega
  · simp only [hn, decide_false, Bool.false_eq_true, if_false]
    congr 3
    omega

theorem parseNumber_decimal (neg : Bool) (whole : Nat) (d : Digit) (ds : List Digit)
    (exp : Option Int) (rest : List Char) (h : Stops rest) :
    parseNumber (printFloat (.decimal neg whole d ds exp) ++ rest) =
      some (.float (.decimal neg whole d ds exp), rest) := by
  unfold parseNumber
  simp only [printFloat, List.append_assoc]
  rw [parseSign_natChars]
  have dot (t : List Char) : NoDigit ('.' :: t) := by
    intro c hc
    rw [← Option.some.inj hc]
    rfl
  cases exp with
  | none =>
    simp only [List.append_nil, List.cons_append, parseWhole_natChars _ _ (dot _),
      parseFrac_digits d ds rest h.noDigit,
      parseExp_none rest (fun c hc => (h c hc).2.2)]
  | some e =>
    have hexp : NoDigit (printExp e ++ rest) := by
      intro c hc
      rw [← Option.some.inj hc]
      rfl
    simp only [List.cons_append, List.append_assoc, parseWhole_natChars _ _ (dot _),
      parseFrac_digits d ds _ hexp, parseExp_printExp e rest h.noDigit]

theorem parseNumber_scientific (neg : Bool) (whole : Nat) (e : Int) (rest : List Char)
    (h : Stops rest) :
    parseNumber (printFloat (.scientific neg whole e) ++ rest) =
      some (.float (.scientific neg whole e), rest) := by
  unfold parseNumber
  simp only [printFloat, List.append_assoc]
  rw [parseSign_natChars]
  have hexp : NoDigit (printExp e ++ rest) := by
    intro c hc
    rw [← Option.some.inj hc]
    rfl
  have hdot : parseFrac (printExp e ++ rest) = (none, printExp e ++ rest) := by
    apply parseFrac_none
    intro c hc
    rw [← Option.some.inj hc]
    decide
  simp only [parseWhole_natChars _ _ hexp, hdot, parseExp_printExp e rest h.noDigit]

theorem dropLit_ne (l c : Char) (lit cs : List Char) (h : l ≠ c) :
    dropLit (l :: lit) (c :: cs) = none := by
  simp [dropLit, h]

/-- Texts no literal starts: those `parseAtom` reads as numbers. -/
theorem parseAtom_number (c : Char) (cs : List Char) (v : Json) (rest : List Char)
    (hn : c ≠ 'n') (ht : c ≠ 't') (hf : c ≠ 'f')
    (hp : parseNumber (c :: cs) = some (v, rest)) : parseAtom (c :: cs) = some (v, rest) := by
  simp only [parseAtom, litNull, litTrue, litFalse, dropLit_ne _ _ _ _ hn.symm,
    dropLit_ne _ _ _ _ ht.symm, dropLit_ne _ _ _ _ hf.symm, hp]

/-- The first characters of printed atoms. -/
def AtomHead (c : Char) : Prop :=
  c ≠ '"' ∧ c ≠ '{' ∧ c ≠ '[' ∧ c ≠ ']' ∧ c ≠ '}' ∧ isWs c = false

theorem atomHead_digit (d : Digit) : AtomHead (digitChar d) := by
  revert d
  unfold AtomHead
  decide

theorem sign_head (neg : Bool) (n : Nat) (t : List Char) : ∃ c r,
    signChars neg ++ (natChars n ++ t) = c :: r ∧ AtomHead c ∧ c ≠ 'n' ∧ c ≠ 't' ∧ c ≠ 'f' := by
  cases neg with
  | true => exact ⟨'-', _, rfl, by unfold AtomHead; decide, by decide, by decide, by decide⟩
  | false =>
    obtain ⟨d, ds, -, hc⟩ := natChars_cons n
    refine ⟨digitChar d, ds.map digitChar ++ t, by simp [signChars, hc], atomHead_digit d, ?_⟩
    exact ⟨digitChar_ne d _ rfl, digitChar_ne d _ rfl, digitChar_ne d _ rfl⟩

def IsAtom : Json → Prop
  | .null | .bool _ | .int _ | .float _ => True
  | _ => False

theorem number_spec (text : List Char) (neg : Bool) (n : Nat) (t rest : List Char) (v : Json)
    (ht : text ++ rest = signChars neg ++ (natChars n ++ t))
    (hp : parseNumber (text ++ rest) = some (v, rest)) : ∃ c r,
    text ++ rest = c :: r ∧ AtomHead c ∧ parseAtom (text ++ rest) = some (v, rest) := by
  obtain ⟨c, r, hc, ha, hn, h2, hf⟩ := sign_head neg n t
  rw [ht, hc] at hp ⊢
  exact ⟨c, r, rfl, ha, parseAtom_number c r v rest hn h2 hf hp⟩

/-- A printed atom is read back, whatever stops it. -/
theorem atom_spec (v : Json) (rest : List Char) (ha : IsAtom v) (h : Stops rest) : ∃ c r,
    printAtom v ++ rest = c :: r ∧ AtomHead c ∧ parseAtom (printAtom v ++ rest) = some (v, rest) := by
  cases v with
  | null => exact ⟨'n', _, rfl, by unfold AtomHead; decide, rfl⟩
  | bool b => cases b
              · exact ⟨'f', _, rfl, by unfold AtomHead; decide, rfl⟩
              · exact ⟨'t', _, rfl, by unfold AtomHead; decide, rfl⟩
  | int n =>
    exact number_spec (printInt n) (n < 0) n.natAbs rest rest (.int n)
      (by simp [printInt, List.append_assoc]) (parseNumber_printInt n rest h)
  | float x =>
    cases x with
    | decimal neg whole d ds exp =>
      exact number_spec (printFloat (.decimal neg whole d ds exp)) neg whole _ rest _
        (by simp only [printFloat, List.append_assoc]; rfl)
        (parseNumber_decimal neg whole d ds exp rest h)
    | scientific neg whole e =>
      exact number_spec (printFloat (.scientific neg whole e)) neg whole _ rest _
        (by rw [printFloat, List.append_assoc, List.append_assoc])
        (parseNumber_scientific neg whole e rest h)
    | nan => exact ⟨'N', _, rfl, by unfold AtomHead; decide, rfl⟩
    | infinity neg =>
      cases neg
      · exact ⟨'I', _, rfl, by unfold AtomHead; decide, rfl⟩
      · exact ⟨'-', _, rfl, by unfold AtomHead; decide, rfl⟩
  | str s => exact absurd ha (by simp [IsAtom])
  | arr xs => exact absurd ha (by simp [IsAtom])
  | obj kvs => exact absurd ha (by simp [IsAtom])

theorem parseValue_atom (v : Json) (fuel : Nat) (rest : List Char) (ha : IsAtom v)
    (hf : 0 < fuel) (h : Stops rest) :
    parseValue fuel (printAtom v ++ rest) = some (v, rest) := by
  obtain ⟨c, r, hc, hh, hp⟩ := atom_spec v rest ha h
  cases fuel with
  | zero => omega
  | succ fuel =>
    rw [hc] at hp ⊢
    simp only [parseValue, hh.1, hh.2.1, hh.2.2.1, if_false, hp]

theorem parseValue_str (s : String) (fuel : Nat) (rest : List Char) (hf : 0 < fuel) :
    parseValue fuel (printStr s ++ rest) = some (.str s, rest) := by
  cases fuel with
  | zero => omega
  | succ fuel =>
    simp only [printStr, List.cons_append, List.append_assoc, List.nil_append, parseValue, if_true,
      parseStrBody_escape, Option.map_some, String.ofList_toList]

/-- What opens a printed value: neither white space nor a closing bracket. -/
theorem print_head (st : Style) (n : Nat) (v : Json) : ∃ c r,
    print st n v = c :: r ∧ isWs c = false ∧ c ≠ ']' ∧ c ≠ '}' := by
  have atom (w : Json) (ha : IsAtom w) (hp : print st n w = printAtom w) : ∃ c r,
      print st n w = c :: r ∧ isWs c = false ∧ c ≠ ']' ∧ c ≠ '}' := by
    obtain ⟨c, r, hc, hh, -⟩ := atom_spec w [] ha stops_nil
    exact ⟨c, r, by rw [hp, ← hc, List.append_nil], hh.2.2.2.2.2, hh.2.2.2.1, hh.2.2.2.2.1⟩
  cases v with
  | null => exact atom _ trivial (by rw [print])
  | bool b => exact atom _ trivial (by rw [print])
  | int k => exact atom _ trivial (by rw [print])
  | float x => exact atom _ trivial (by rw [print])
  | str s => exact ⟨'"', _, by rw [print, printAtom, printStr], rfl, by decide, by decide⟩
  | arr xs =>
    cases xs with
    | nil => exact ⟨'[', _, by rw [print, printAtom], rfl, by decide, by decide⟩
    | cons x xs => exact ⟨'[', _, by rw [print], rfl, by decide, by decide⟩
  | obj kvs =>
    cases kvs with
    | nil => exact ⟨'{', _, by rw [print, printAtom], rfl, by decide, by decide⟩
    | cons p kvs =>
      obtain ⟨k, v⟩ := p
      exact ⟨'{', _, by rw [print], rfl, by decide, by decide⟩

theorem skipWs_print (st : Style) (n : Nat) (v : Json) (ws rest : List Char)
    (h : ∀ c ∈ ws, isWs c = true) : skipWs (ws ++ (print st n v ++ rest)) = print st n v ++ rest := by
  obtain ⟨c, r, hc, hw, -⟩ := print_head st n v
  rw [skipWs_append ws _ h, hc, List.cons_append, skipWs_cons c _ hw]

theorem printElems_stops (st : Style) (n : Nat) (xs : List Json) (rest : List Char) :
    Stops (printElems st n xs ++ rest) := by
  cases xs with
  | nil =>
    rw [printElems, List.append_assoc]
    exact stops_append_ws _ ']' rest (st.closing_ws n) (stops_cons _ _ (by decide))
  | cons x xs =>
    rw [printElems]
    exact stops_cons _ _ (by decide)

theorem printMembers_stops (st : Style) (n : Nat) (kvs : List (String × Json))
    (rest : List Char) : Stops (printMembers st n kvs ++ rest) := by
  cases kvs with
  | nil =>
    rw [printMembers, List.append_assoc]
    exact stops_append_ws _ '}' rest (st.closing_ws n) (stops_cons _ _ (by decide))
  | cons p kvs =>
    obtain ⟨k, v⟩ := p
    rw [printMembers]
    exact stops_cons _ _ (by decide)

theorem length_print_pos (st : Style) (n : Nat) (v : Json) : 0 < (print st n v).length := by
  obtain ⟨c, r, hc, -⟩ := print_head st n v
  simp [hc]

theorem length_printElems_pos (st : Style) (n : Nat) (xs : List Json) :
    0 < (printElems st n xs).length := by
  cases xs <;> simp [printElems]

theorem length_printMembers_pos (st : Style) (n : Nat) (kvs : List (String × Json)) :
    0 < (printMembers st n kvs).length := by
  cases kvs with
  | nil => simp [printMembers]
  | cons p kvs =>
    obtain ⟨k, v⟩ := p
    simp [printMembers]

section RoundTrip

variable (st : Style)

/-- Enough fuel reads the printed value back and leaves the rest. -/
def ReadsBack (v : Json) : Prop := ∀ n fuel rest, (print st n v).length < fuel → Stops rest →
  parseValue fuel (print st n v ++ rest) = some (v, rest)

def ReadsElems (xs : List Json) : Prop := ∀ x, ReadsBack st x → ∀ n fuel rest,
  (print st (n + 1) x).length + (printElems st n xs).length < fuel →
  parseElems fuel (print st (n + 1) x ++ (printElems st n xs ++ rest)) = some (x :: xs, rest)

def ReadsMembers (kvs : List (String × Json)) : Prop := ∀ k v, ReadsBack st v →
  ∀ n fuel rest, (print st (n + 1) v).length + (printMembers st n kvs).length < fuel →
  parseMembers fuel (printStr k ++ ':' :: ' ' :: (print st (n + 1) v ++
    (printMembers st n kvs ++ rest))) = some ((k, v) :: kvs, rest)

theorem readsElems_nil : ReadsElems st [] := by
  intro x hx n fuel rest hf
  have hpos := length_printElems_pos st n []
  cases fuel with
  | zero => omega
  | succ fuel =>
    have hv := hx (n + 1) fuel (printElems st n [] ++ rest) (by omega) (printElems_stops st n [] rest)
    have hclose : skipWs (printElems st n [] ++ rest) = ']' :: rest := by
      rw [printElems, List.append_assoc, skipWs_append _ _ (st.closing_ws n)]
      exact skipWs_cons _ _ rfl
    simp only [parseElems, hv, hclose]

theorem readsElems_cons (y : Json) (ys : List Json) (hy : ReadsBack st y)
    (ih : ReadsElems st ys) : ReadsElems st (y :: ys) := by
  intro x hx n fuel rest hf
  cases fuel with
  | zero => omega
  | succ fuel =>
    have hlen : (printElems st n (y :: ys)).length =
        1 + (st.comma n).length + (print st (n + 1) y).length + (printElems st n ys).length := by
      rw [printElems]
      simp only [List.length_cons, List.length_append]
      omega
    have hpos := length_print_pos st (n + 1) x
    have hv := hx (n + 1) fuel (printElems st n (y :: ys) ++ rest) (by omega)
      (printElems_stops st n (y :: ys) rest)
    have htail := ih y hy n fuel rest (by omega)
    have hnext : skipWs (printElems st n (y :: ys) ++ rest) =
        ',' :: (st.comma n ++ (print st (n + 1) y ++ (printElems st n ys ++ rest))) := by
      rw [printElems]
      simp only [List.cons_append, List.append_assoc]
      exact skipWs_cons _ _ rfl
    simp only [parseElems, hv, hnext, skipWs_print st (n + 1) y _ _ (st.comma_ws n), htail,
      Option.map_some]

theorem parseMembers_head (k : String) (v : Json) (hv : ReadsBack st v) (n fuel : Nat)
    (tail : List Char) (hf : (print st (n + 1) v).length < fuel) (ht : Stops tail) :
    parseMembers (fuel + 1) (printStr k ++ ':' :: ' ' :: (print st (n + 1) v ++ tail)) =
      match skipWs tail with
      | '}' :: r => some ([(k, v)], r)
      | ',' :: r => (parseMembers fuel (skipWs r)).map (fun p => ((k, v) :: p.1, p.2))
      | _ => none := by
  have hval := hv (n + 1) fuel tail hf ht
  have hcolon (t : List Char) : skipWs (':' :: t) = ':' :: t := skipWs_cons _ _ rfl
  have hblank := skipWs_print st (n + 1) v [' '] tail (by simp [isWs])
  simp only [List.cons_append, List.nil_append] at hblank
  apply Eq.trans
  · simp only [printStr, List.cons_append, List.append_assoc, List.nil_append, parseMembers,
      parseStrBody_escape, hcolon, hblank, hval, String.ofList_toList]
    rfl
  · rfl

theorem readsMembers_nil : ReadsMembers st [] := by
  intro k v hv n fuel rest hf
  have hpos := length_printMembers_pos st n []
  cases fuel with
  | zero => omega
  | succ fuel =>
    have hclose : skipWs (printMembers st n [] ++ rest) = '}' :: rest := by
      rw [printMembers, List.append_assoc, skipWs_append _ _ (st.closing_ws n)]
      exact skipWs_cons _ _ rfl
    rw [parseMembers_head st k v hv n fuel _ (by omega) (printMembers_stops st n [] rest), hclose]
    rfl

theorem readsMembers_cons (j : String) (w : Json) (kvs : List (String × Json))
    (hw : ReadsBack st w) (ih : ReadsMembers st kvs) : ReadsMembers st ((j, w) :: kvs) := by
  intro k v hv n fuel rest hf
  cases fuel with
  | zero => omega
  | succ fuel =>
    have hlen : (printMembers st n ((j, w) :: kvs)).length =
        3 + (st.comma n).length + (printStr j).length + (print st (n + 1) w).length +
          (printMembers st n kvs).length := by
      rw [printMembers]
      simp only [List.length_cons, List.length_append]
      omega
    have htail := ih j w hw n fuel rest (by omega)
    have hnext : skipWs (printMembers st n ((j, w) :: kvs) ++ rest) =
        ',' :: (st.comma n ++ (printStr j ++ ':' :: ' ' :: (print st (n + 1) w ++
          (printMembers st n kvs ++ rest)))) := by
      rw [printMembers]
      simp only [List.cons_append, List.append_assoc]
      exact skipWs_cons _ _ rfl
    have hquote (t : List Char) : skipWs (st.comma n ++ (printStr j ++ t)) = printStr j ++ t := by
      rw [skipWs_append _ _ (st.comma_ws n), printStr, List.cons_append, skipWs_cons _ _ rfl]
    rw [parseMembers_head st k v hv n fuel _ (by omega)
      (printMembers_stops st n ((j, w) :: kvs) rest), hnext]
    simp only [hquote, htail, Option.map_some]

theorem readsBack_arr (xs : List Json) (hx : ∀ x ∈ xs.head?, ReadsBack st x)
    (ih : ReadsElems st xs.tail) : ReadsBack st (.arr xs) := by
  intro n fuel rest hf hs
  cases fuel with
  | zero => omega
  | succ fuel =>
    cases xs with
    | nil => rfl
    | cons x xs =>
      have hlen : (print st n (.arr (x :: xs))).length =
          1 + (st.opening n).length + (print st (n + 1) x).length +
            (printElems st n xs).length := by
        rw [print]
        simp only [List.length_cons, List.length_append]
        omega
      have hbody := ih x (hx x (by simp)) n fuel rest (by simp only [List.tail_cons]; omega)
      obtain ⟨c, r, hc, -, hne, -⟩ := print_head st (n + 1) x
      simp only [List.tail_cons] at hbody
      rw [print]
      simp only [List.cons_append, List.append_assoc, parseValue,
        skipWs_print st (n + 1) x _ _ (st.opening_ws n)]
      rw [hc, List.cons_append] at hbody ⊢
      simp [hne, hbody]

theorem readsBack_obj (kvs : List (String × Json))
    (hx : ∀ p ∈ kvs.head?, ReadsBack st p.2) (ih : ReadsMembers st kvs.tail) :
    ReadsBack st (.obj kvs) := by
  intro n fuel rest hf hs
  cases fuel with
  | zero => omega
  | succ fuel =>
    cases kvs with
    | nil => rfl
    | cons p kvs =>
      obtain ⟨k, v⟩ := p
      have hlen : (print st n (.obj ((k, v) :: kvs))).length =
          3 + (st.opening n).length + (printStr k).length + (print st (n + 1) v).length +
            (printMembers st n kvs).length := by
        rw [print]
        simp only [List.length_cons, List.length_append]
        omega
      have hbody := ih k v (hx (k, v) (by simp)) n fuel rest
        (by simp only [List.tail_cons]; omega)
      have hquote (t : List Char) :
          skipWs (st.opening n ++ (printStr k ++ t)) = printStr k ++ t := by
        rw [skipWs_append _ _ (st.opening_ws n), printStr, List.cons_append, skipWs_cons _ _ rfl]
      simp only [List.tail_cons] at hbody
      rw [print]
      simp only [List.cons_append, List.append_assoc, parseValue, hquote]
      simp only [printStr, List.cons_append, List.append_assoc, List.nil_append] at hbody ⊢
      simp [hbody]

/-- The parser inverts the printer, in every style and before every stopping text. -/
theorem readsBack (v : Json) : ReadsBack st v := by
  have atom (w : Json) (ha : IsAtom w) (hp : ∀ n, print st n w = printAtom w) :
      ReadsBack st w := by
    intro n fuel rest hf hs
    have hpos := length_print_pos st n w
    rw [hp]
    exact parseValue_atom w fuel rest ha (by omega) hs
  induction v using Json.induction
    (E := fun xs => (∀ x ∈ xs.head?, ReadsBack st x) ∧ ReadsElems st xs ∧ ReadsElems st xs.tail)
    (M := fun kvs => (∀ p ∈ kvs.head?, ReadsBack st p.2) ∧ ReadsMembers st kvs ∧
      ReadsMembers st kvs.tail) with
  | null => exact atom _ trivial (fun n => by rw [print])
  | bool b => exact atom _ trivial (fun n => by rw [print])
  | int k => exact atom _ trivial (fun n => by rw [print])
  | float x => exact atom _ trivial (fun n => by rw [print])
  | str s =>
    intro n fuel rest hf hs
    have hpos := length_print_pos st n (.str s)
    rw [print]
    exact parseValue_str s fuel rest (by omega)
  | arr xs ih => exact readsBack_arr st xs ih.1 ih.2.2
  | obj kvs ih => exact readsBack_obj st kvs ih.1 ih.2.2
  | nilE => exact ⟨by simp, readsElems_nil st, readsElems_nil st⟩
  | consE x xs hx ih =>
    refine ⟨?_, readsElems_cons st x xs hx ih.2.1, ih.2.1⟩
    intro y hy
    rw [← Option.some.inj hy]
    exact hx
  | nilM => exact ⟨by simp, readsMembers_nil st, readsMembers_nil st⟩
  | consM k v kvs hv ih =>
    refine ⟨?_, readsMembers_cons st k v kvs hv ih.2.1, ih.2.1⟩
    intro p hp
    rw [← Option.some.inj hp]
    exact hv

/-- `json.loads(json.dumps(v)) == v` in every style, also with blanks after the text. -/
theorem loads_print (v : Json) (ws : List Char) (h : ∀ c ∈ ws, isWs c = true) :
    loads (print st 0 v ++ ws) = some v := by
  have hskip : skipWs (print st 0 v ++ ws) = print st 0 v ++ ws :=
    skipWs_print st 0 v [] ws (by simp)
  have hstop : Stops ws := by
    cases ws with
    | nil => exact stops_nil
    | cons c ws => exact stops_ws c ws (h c (by simp))
  have hread := readsBack st v 0 ((print st 0 v ++ ws).length + 1) ws
    (by rw [List.length_append]; omega) hstop
  have hend : skipWs ws = [] := by
    have := skipWs_append ws [] h
    simpa [skipWs] using this
  simp only [loads, hskip, hread, hend, if_true]

end RoundTrip

theorem loads_dumps (v : Json) : loads (dumps v) = some v := by
  have h := loads_print compact v [] (by simp)
  rwa [List.append_nil] at h

end Elyra.Json
