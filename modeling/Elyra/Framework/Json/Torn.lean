import Elyra.Framework.Json.RoundTrip
import Mathlib.Data.List.TakeWhile

namespace Elyra.Json

/-- Where a reader stands inside brackets: between tokens, inside a string, after a
backslash of a string, or right after a closing quote. -/
inductive Mode where
  | value | str | esc | close
  deriving DecidableEq

/-- A bracket counter for texts that open with a brace. Depth zero is the end of the text. -/
def scanChar : Nat × Mode → Char → Option (Nat × Mode)
  | (0, _), c => if isWs c then some (0, .value) else none
  | (d + 1, .str), c =>
    if c = '"' then some (d + 1, .close)
    else if c = '\\' then some (d + 1, .esc) else some (d + 1, .str)
  | (d + 1, .esc), _ => some (d + 1, .str)
  | (d + 1, .value), c =>
    if c = '{' ∨ c = '[' then some (d + 2, .value)
    else if c = '}' ∨ c = ']' then some (d, .value)
    else if c = '"' then some (d + 1, .str) else some (d + 1, .value)
  | (d + 1, .close), c =>
    if isWs c then some (d + 1, .close)
    else if c = ',' ∨ c = ':' then some (d + 1, .value)
    else if c = '}' ∨ c = ']' then some (d, .value) else none

def scan (s : Nat × Mode) (cs : List Char) : Option (Nat × Mode) := cs.foldlM scanChar s

@[simp] theorem scan_nil (s : Nat × Mode) : scan s [] = some s := rfl

theorem scan_cons (s : Nat × Mode) (c : Char) (cs : List Char) :
    scan s (c :: cs) = (scanChar s c).bind (fun t => scan t cs) := rfl

theorem scan_append (s : Nat × Mode) (a b : List Char) :
    scan s (a ++ b) = (scan s a).bind (fun t => scan t b) := by
  simp only [scan, List.foldlM_append]
  rfl

def Plain (c : Char) : Prop := c ≠ '{' ∧ c ≠ '[' ∧ c ≠ '}' ∧ c ≠ ']' ∧ c ≠ '"'

instance (c : Char) : Decidable (Plain c) := by unfold Plain; infer_instance

theorem scan_plain (d : Nat) (cs : List Char) (h : ∀ c ∈ cs, Plain c) :
    scan (d + 1, .value) cs = some (d + 1, .value) := by
  induction cs with
  | nil => rfl
  | cons c cs ih =>
    have hc := h c (by simp)
    have step : scanChar (d + 1, .value) c = some (d + 1, .value) := by
      simp [scanChar, hc.1, hc.2.1, hc.2.2.1, hc.2.2.2.1, hc.2.2.2.2]
    rw [scan_cons, step]
    exact ih (fun x hx => h x (by simp [hx]))

theorem plain_of_isWs (c : Char) (h : isWs c = true) : Plain c := by
  simp only [isWs, Bool.or_eq_true, decide_eq_true_eq] at h
  rcases h with ((rfl | rfl) | rfl) | rfl <;> decide

theorem scan_ws (d : Nat) (m : Mode) (hm : m = .value ∨ m = .close) (cs : List Char)
    (h : ∀ c ∈ cs, isWs c = true) : scan (d + 1, m) cs = some (d + 1, m) := by
  rcases hm with rfl | rfl
  · exact scan_plain d cs (fun c hc => plain_of_isWs c (h c hc))
  · induction cs with
    | nil => rfl
    | cons c cs ih =>
      have step : scanChar (d + 1, .close) c = some (d + 1, .close) := by
        simp [scanChar, h c (by simp)]
      rw [scan_cons, step]
      exact ih (fun x hx => h x (by simp [hx]))

theorem scan_ws_zero (cs : List Char) (h : ∀ c ∈ cs, isWs c = true) :
    scan (0, .value) cs = some (0, .value) := by
  induction cs with
  | nil => rfl
  | cons c cs ih =>
    rw [scan_cons, scanChar, if_pos (h c (by simp))]
    exact ih (fun x hx => h x (by simp [hx]))

theorem skipWs_split (cs : List Char) :
    ∃ ws, cs = ws ++ skipWs cs ∧ ∀ c ∈ ws, isWs c = true :=
  ⟨cs.takeWhile isWs, (List.takeWhile_append_dropWhile).symm,
    fun _ hc => List.mem_takeWhile_imp hc⟩

/-- `cs` is `body ++ rest`, where the body moves the counter from `s` to `t`. -/
def Moves (cs rest : List Char) (s t : Nat × Mode) : Prop :=
  ∃ body, cs = body ++ rest ∧ scan s body = some t

theorem Moves.cons {c : Char} {cs rest : List Char} {s t u : Nat × Mode}
    (hc : scanChar s c = some t) (h : Moves cs rest t u) : Moves (c :: cs) rest s u := by
  obtain ⟨body, hb, hs⟩ := h
  refine ⟨c :: body, by rw [hb, List.cons_append], ?_⟩
  rw [scan_cons, hc]
  exact hs

theorem Moves.trans {cs mid rest : List Char} {s t u : Nat × Mode} (h : Moves cs mid s t)
    (k : Moves mid rest t u) : Moves cs rest s u := by
  obtain ⟨a, ha, hs⟩ := h
  obtain ⟨b, hb, ht⟩ := k
  refine ⟨a ++ b, by rw [ha, hb, List.append_assoc], ?_⟩
  rw [scan_append, hs]
  exact ht

theorem Moves.refl (cs : List Char) (s : Nat × Mode) : Moves cs cs s s := ⟨[], rfl, rfl⟩

theorem moves_skipWs (d : Nat) (m : Mode) (hm : m = .value ∨ m = .close) (cs : List Char) :
    Moves cs (skipWs cs) (d + 1, m) (d + 1, m) := by
  obtain ⟨ws, hw, ha⟩ := skipWs_split cs
  exact ⟨ws, hw, scan_ws d m hm ws ha⟩

theorem moves_comma (d : Nat) (m : Mode) (hm : m = .value ∨ m = .close) (c : Char)
    (hc : c = ',' ∨ c = ':') (cs : List Char) : Moves (c :: cs) cs (d + 1, m) (d + 1, .value) := by
  refine Moves.cons ?_ (Moves.refl cs _)
  rcases hm with rfl | rfl <;> rcases hc with rfl | rfl <;> rfl

theorem moves_closing (d : Nat) (m : Mode) (hm : m = .value ∨ m = .close) (c : Char)
    (hc : c = '}' ∨ c = ']') (cs : List Char) : Moves (c :: cs) cs (d + 1, m) (d, .value) := by
  refine Moves.cons ?_ (Moves.refl cs _)
  rcases hm with rfl | rfl <;> rcases hc with rfl | rfl <;> rfl

theorem moves_consChar {c : Char} {cs body : List Char} {r : Option (List Char × List Char)}
    {rest : List Char} (h : consChar c r = some (body, rest)) {s t : Nat × Mode}
    (ih : ∀ b, r = some (b, rest) → Moves cs rest s t) : Moves cs rest s t := by
  unfold consChar at h
  cases hr : r with
  | none => simp [hr] at h
  | some p =>
    obtain ⟨b, r'⟩ := p
    simp only [hr, Option.map_some, Option.some.injEq, Prod.mk.injEq] at h
    obtain ⟨-, rfl⟩ := h
    exact ih b hr

theorem scanChar_str (d : Nat) (c : Char) (hq : c ≠ '"') (hb : c ≠ '\\') :
    scanChar (d + 1, .str) c = some (d + 1, .str) := by
  simp [scanChar, hq, hb]

theorem hexVal_str (d : Nat) (c : Char) (n : Nat) (h : hexVal c = some n) :
    scanChar (d + 1, .str) c = some (d + 1, .str) := by
  apply scanChar_str
  · rintro rfl
    simp [hexVal] at h
  · rintro rfl
    simp [hexVal] at h

theorem moves_hex4 (d : Nat) (a b e f : Char) (u : Nat) (h : hex4 a b e f = some u)
    (cs : List Char) :
    Moves ('\\' :: 'u' :: a :: b :: e :: f :: cs) cs (d + 1, .str) (d + 1, .str) := by
  unfold hex4 at h
  split at h
  · rename_i ha hb he hf
    exact (Moves.refl cs _).cons (hexVal_str d f _ hf) |>.cons (hexVal_str d e _ he)
      |>.cons (hexVal_str d b _ hb) |>.cons (hexVal_str d a _ ha)
      |>.cons (s := (d + 1, .esc)) rfl |>.cons rfl
  · simp at h

/-- A string body that parses moves the counter over its closing quote. -/
theorem moves_parseStrBody (d : Nat) (cs body rest : List Char)
    (h : parseStrBody cs = some (body, rest)) : Moves cs rest (d + 1, .str) (d + 1, .close) := by
  fun_induction parseStrBody cs generalizing body with
  | case1 => simp at h
  | case2 r =>
    simp only [Option.some.injEq, Prod.mk.injEq] at h
    obtain ⟨-, rfl⟩ := h
    exact (Moves.refl r _).cons rfl
  | case3 => simp at h
  | case4 => simp at h
  | case5 a b d' e u hu hi a' b' d'' e' r'' l hl lo hne ih =>
    exact moves_consChar h (fun t ht => (moves_hex4 d _ _ _ _ u hu _).trans
      ((moves_hex4 d _ _ _ _ l hl r'').trans (ih t ht)))
  | case6 => simp at h
  | case7 => simp at h
  | case8 => simp at h
  | case9 a b d' e r' u hu hi lo hne ih =>
    exact moves_consChar h (fun t ht => (moves_hex4 d _ _ _ _ u hu r').trans (ih t ht))
  | case10 => simp at h
  | case11 x r' hx y hy hne ih =>
    exact moves_consChar h (fun t ht => ((ih t ht).cons (s := (d + 1, .esc)) rfl).cons rfl)
  | case12 => simp at h
  | case13 => simp at h
  | case14 c r hq hb hc ih =>
    exact moves_consChar h (fun t ht => (ih t ht).cons (scanChar_str d c hq hb))

theorem plain_digitChar (d : Digit) : Plain (digitChar d) := by
  revert d
  decide

theorem moves_plain (d : Nat) (body rest : List Char) (h : ∀ c ∈ body, Plain c) :
    Moves (body ++ rest) rest (d + 1, .value) (d + 1, .value) :=
  ⟨body, rfl, scan_plain d body h⟩

theorem moves_plain_cons (d : Nat) (c : Char) (rest : List Char) (h : Plain c) :
    Moves (c :: rest) rest (d + 1, .value) (d + 1, .value) :=
  moves_plain d [c] rest (by simpa using h)

theorem moves_spanDigits (d : Nat) (cs : List Char) :
    Moves cs (spanDigits cs).2 (d + 1, .value) (d + 1, .value) := by
  have h := moves_plain d ((spanDigits cs).1.map digitChar) (spanDigits cs).2 (by
    intro c hc
    obtain ⟨e, -, rfl⟩ := List.mem_map.mp hc
    exact plain_digitChar e)
  rwa [← spanDigits_split] at h

theorem moves_parseSign (d : Nat) (cs : List Char) :
    Moves cs (parseSign cs).2 (d + 1, .value) (d + 1, .value) := by
  unfold parseSign
  split
  · exact moves_plain_cons d _ _ (by decide)
  · exact Moves.refl _ _

theorem moves_parseExpSign (d : Nat) (cs : List Char) :
    Moves cs (parseExpSign cs).2 (d + 1, .value) (d + 1, .value) := by
  unfold parseExpSign
  split
  · exact moves_plain_cons d _ _ (by decide)
  · exact moves_plain_cons d _ _ (by decide)
  · exact Moves.refl _ _

theorem moves_parseWhole (d : Nat) (cs rest : List Char) (n : Nat)
    (h : parseWhole cs = some (n, rest)) : Moves cs rest (d + 1, .value) (d + 1, .value) := by
  cases cs with
  | nil => simp [parseWhole] at h
  | cons c r =>
    cases hd : digit? c with
    | none => simp [parseWhole, hd] at h
    | some e =>
      simp only [parseWhole, hd] at h
      split_ifs at h
      · simp only [Option.some.injEq, Prod.mk.injEq] at h
        rw [← h.2, ← digitChar_of_digit? c e hd]
        exact moves_plain_cons d _ _ (plain_digitChar e)
      · simp only [Option.some.injEq, Prod.mk.injEq] at h
        rw [← h.2]
        exact moves_spanDigits d (c :: r)

theorem moves_parseFrac (d : Nat) (cs : List Char) :
    Moves cs (parseFrac cs).2 (d + 1, .value) (d + 1, .value) := by
  unfold parseFrac
  split
  · rename_i r
    split
    · rename_i e ds r' hs
      have h := moves_spanDigits d r
      rw [hs] at h
      exact (moves_plain_cons d '.' r (by decide)).trans h
    · exact Moves.refl _ _
  · exact Moves.refl _ _

theorem moves_parseExp (d : Nat) (cs : List Char) :
    Moves cs (parseExp cs).2 (d + 1, .value) (d + 1, .value) := by
  unfold parseExp
  split
  · rename_i c r
    split_ifs with hc
    · have hplain : Plain c := by
        rcases hc with rfl | rfl <;> decide
      have hsign := (moves_plain_cons d c r hplain).trans (moves_parseExpSign d r)
      have hspan := hsign.trans (moves_spanDigits d (parseExpSign r).2)
      split
      rename_i neg r' hr
      rw [hr] at hspan
      split
      · exact Moves.refl _ _
      · rename_i ds r'' hds hs
        rw [hs] at hspan
        exact hspan
    · exact Moves.refl _ _
  · exact Moves.refl _ _

theorem moves_parseNumber (d : Nat) (cs rest : List Char) (v : Json)
    (h : parseNumber cs = some (v, rest)) : Moves cs rest (d + 1, .value) (d + 1, .value) := by
  unfold parseNumber at h
  cases hw : parseWhole (parseSign cs).2 with
  | none => simp [hw] at h
  | some p =>
    obtain ⟨whole, r1⟩ := p
    have hm := (moves_parseSign d cs).trans (moves_parseWhole d _ r1 whole hw) |>.trans
      (moves_parseFrac d r1) |>.trans (moves_parseExp d (parseFrac r1).2)
    have hrest : rest = (parseExp (parseFrac r1).2).2 := by
      simp only [hw] at h
      split at h <;> simp only [Option.some.injEq, Prod.mk.injEq] at h <;> exact h.2.symm
    rw [hrest]
    exact hm

theorem dropLit_split (lit cs rest : List Char) (h : dropLit lit cs = some rest) :
    cs = lit ++ rest := by
  induction lit generalizing cs with
  | nil => simpa [dropLit] using h
  | cons l lit ih =>
    cases cs with
    | nil => simp [dropLit] at h
    | cons c cs =>
      simp only [dropLit] at h
      split_ifs at h with hl
      rw [hl, List.cons_append, ← ih cs h]

theorem moves_dropLit (d : Nat) (lit cs rest : List Char) (hp : ∀ c ∈ lit, Plain c)
    (h : dropLit lit cs = some rest) : Moves cs rest (d + 1, .value) (d + 1, .value) := by
  rw [dropLit_split lit cs rest h]
  exact moves_plain d lit rest hp

theorem moves_parseAtom (d : Nat) (cs rest : List Char) (v : Json)
    (h : parseAtom cs = some (v, rest)) : Moves cs rest (d + 1, .value) (d + 1, .value) := by
  have lit (l : List Char) (w : Json) (r : List Char)
      (hp : l.all (fun c => decide (Plain c)) = true) (hd : dropLit l cs = some r)
      (he : some (w, r) = some (v, rest)) :
      Moves cs rest (d + 1, .value) (d + 1, .value) := by
    simp only [Option.some.injEq, Prod.mk.injEq] at he
    rw [← he.2]
    have hplain (c : Char) (hc : c ∈ l) : Plain c :=
      of_decide_eq_true (List.all_eq_true.mp hp c hc)
    exact moves_dropLit d l cs r hplain hd
  unfold parseAtom at h
  split at h
  · rename_i r hr
    exact lit litNull _ r rfl hr h
  · split at h
    · rename_i r hr
      exact lit litTrue _ r rfl hr h
    · split at h
      · rename_i r hr
        exact lit litFalse _ r rfl hr h
      · split at h
        · rename_i p hp
          rw [h] at hp
          exact moves_parseNumber d cs rest v hp
        · split at h
          · rename_i r hr
            exact lit litNaN _ r rfl hr h
          · split at h
            · rename_i r hr
              exact lit litInfinity _ r rfl hr h
            · cases hr : dropLit ('-' :: litInfinity) cs with
              | none => simp [hr] at h
              | some r =>
                rw [hr, Option.map_some] at h
                exact lit ('-' :: litInfinity) _ r rfl hr h

/-- After a value the counter is between tokens or right after a closing quote. -/
def ValueMoves (cs rest : List Char) (d : Nat) : Prop :=
  ∃ m, (m = Mode.value ∨ m = Mode.close) ∧ Moves cs rest (d + 1, .value) (d + 1, m)

section Parse

variable (fuel : Nat)

def ValueScans : Prop := ∀ cs v rest d, parseValue fuel cs = some (v, rest) → ValueMoves cs rest d

def ElemsScan : Prop := ∀ cs vs rest d, parseElems fuel cs = some (vs, rest) →
  Moves cs rest (d + 1, .value) (d, .value)

def MembersScan : Prop := ∀ cs kvs rest d, parseMembers fuel cs = some (kvs, rest) →
  Moves cs rest (d + 1, .value) (d, .value)

theorem map_fst_some {α β : Type*} {o : Option (α × List Char)} {f : α → β} {b : β}
    {rest : List Char} (h : o.map (fun p => (f p.1, p.2)) = some (b, rest)) :
    ∃ a, o = some (a, rest) := by
  cases o with
  | none => simp at h
  | some p =>
    obtain ⟨a, r⟩ := p
    simp only [Option.map_some, Option.some.injEq, Prod.mk.injEq] at h
    exact ⟨a, by rw [h.2]⟩

theorem elemsScan_succ (hv : ValueScans fuel) (he : ElemsScan fuel) : ElemsScan (fuel + 1) := by
  intro cs vs rest d h
  rw [parseElems] at h
  cases hp : parseValue fuel cs with
  | none => simp [hp] at h
  | some p =>
    obtain ⟨v, r⟩ := p
    obtain ⟨m, hm, hmove⟩ := hv cs v r d hp
    have hws := hmove.trans (moves_skipWs d m hm r)
    simp only [hp] at h
    split at h
    · rename_i r' hr
      simp only [Option.some.injEq, Prod.mk.injEq] at h
      rw [hr] at hws
      rw [← h.2]
      exact hws.trans (moves_closing d m hm ']' (Or.inr rfl) r')
    · rename_i r' hr
      obtain ⟨ws, hrest⟩ := map_fst_some h
      rw [hr] at hws
      exact hws.trans ((moves_comma d m hm ',' (Or.inl rfl) r').trans
        ((moves_skipWs d .value (Or.inl rfl) r').trans (he _ ws rest d hrest)))
    · simp at h

theorem membersScan_succ (hv : ValueScans fuel) (hk : MembersScan fuel) :
    MembersScan (fuel + 1) := by
  intro cs kvs rest d h
  cases cs with
  | nil => simp [parseMembers] at h
  | cons c cs =>
    by_cases hq : c = '"'
    swap
    · rw [parseMembers] at h
      · simp at h
      · intro t ht
        exact hq (List.cons.inj ht).1
    subst c
    rw [parseMembers] at h
    cases hs : parseStrBody cs with
    | none => simp [hs] at h
    | some p =>
      obtain ⟨k, r⟩ := p
      have hkey : Moves ('"' :: cs) r (d + 1, .value) (d + 1, .close) :=
        (moves_parseStrBody d cs k r hs).cons rfl
      have hcolon := hkey.trans (moves_skipWs d .close (Or.inr rfl) r)
      simp only [hs] at h
      split at h
      · rename_i r' hr
        rw [hr] at hcolon
        have hbefore := hcolon.trans ((moves_comma d .close (Or.inr rfl) ':' (Or.inr rfl) r').trans
          (moves_skipWs d .value (Or.inl rfl) r'))
        cases hp : parseValue fuel (skipWs r') with
        | none => simp [hp] at h
        | some q =>
          obtain ⟨v, r2⟩ := q
          obtain ⟨m, hm, hmove⟩ := hv _ v r2 d hp
          have hws := hbefore.trans (hmove.trans (moves_skipWs d m hm r2))
          simp only [hp] at h
          split at h
          · rename_i r3 hr3
            simp only [Option.some.injEq, Prod.mk.injEq] at h
            rw [hr3] at hws
            rw [← h.2]
            exact hws.trans (moves_closing d m hm '}' (Or.inl rfl) r3)
          · rename_i r3 hr3
            obtain ⟨ws, hrest⟩ := map_fst_some h
            rw [hr3] at hws
            exact hws.trans ((moves_comma d m hm ',' (Or.inl rfl) r3).trans
              ((moves_skipWs d .value (Or.inl rfl) r3).trans (hk _ ws rest d hrest)))
          · simp at h
      · simp at h

/-- What follows an opening brace closes it: one depth less at the end. -/
theorem object_moves (he : MembersScan fuel) (r rest : List Char) (v : Json) (d : Nat)
    (h : (match skipWs r with
      | '}' :: r' => some (Json.obj [], r')
      | r' => (parseMembers fuel r').map (fun p => (Json.obj p.1, p.2))) = some (v, rest)) :
    Moves r rest (d + 1, .value) (d, .value) := by
  have hws := moves_skipWs d .value (Or.inl rfl) r
  split at h
  · rename_i r' hr
    simp only [Option.some.injEq, Prod.mk.injEq] at h
    rw [hr] at hws
    rw [← h.2]
    exact hws.trans (moves_closing d .value (Or.inl rfl) '}' (Or.inl rfl) r')
  · obtain ⟨kvs, hk⟩ := map_fst_some h
    exact hws.trans (he _ kvs rest d hk)

theorem valueScans_succ (he : ElemsScan fuel) (hk : MembersScan fuel) :
    ValueScans (fuel + 1) := by
  intro cs v rest d h
  cases cs with
  | nil => simp [parseValue] at h
  | cons c r =>
    rw [parseValue] at h
    split_ifs at h with hq hb ha
    · subst c
      obtain ⟨s, hs⟩ := map_fst_some (f := fun b => Json.str (String.ofList b)) h
      exact ⟨.close, Or.inr rfl, (moves_parseStrBody d r s rest hs).cons rfl⟩
    · subst c
      exact ⟨.value, Or.inl rfl, (object_moves fuel hk r rest v (d + 1) h).cons rfl⟩
    · subst c
      have hws := moves_skipWs (d + 1) .value (Or.inl rfl) r
      split at h
      · rename_i r' hr
        simp only [Option.some.injEq, Prod.mk.injEq] at h
        rw [hr] at hws
        rw [← h.2]
        exact ⟨.value, Or.inl rfl, (hws.trans
          (moves_closing (d + 1) .value (Or.inl rfl) ']' (Or.inr rfl) r')).cons rfl⟩
      · obtain ⟨vs, hv⟩ := map_fst_some h
        exact ⟨.value, Or.inl rfl, (hws.trans (he _ vs rest (d + 1) hv)).cons rfl⟩
    · exact ⟨.value, Or.inl rfl, moves_parseAtom d (c :: r) rest v h⟩

end Parse

theorem parse_scans (fuel : Nat) : ValueScans fuel ∧ ElemsScan fuel ∧ MembersScan fuel := by
  induction fuel with
  | zero =>
    refine ⟨?_, ?_, ?_⟩
    · intro cs v rest d h
      simp [parseValue] at h
    · intro cs v rest d h
      simp [parseElems] at h
    · intro cs v rest d h
      simp [parseMembers] at h
  | succ fuel ih =>
    exact ⟨valueScans_succ fuel ih.2.1 ih.2.2, elemsScan_succ fuel ih.1 ih.2.1,
      membersScan_succ fuel ih.1 ih.2.2⟩

/-- A text that loads and opens with a brace is balanced, at whatever depth it is met. -/
theorem loads_scan (t : List Char) (v : Json) (h : loads ('{' :: t) = some v) (d : Nat) :
    scan (d + 1, .value) t = some (d, .value) := by
  unfold loads at h
  rw [skipWs_cons '{' t rfl] at h
  cases hp : parseValue (('{' :: t).length + 1) ('{' :: t) with
  | none =>
    rw [hp] at h
    simp at h
  | some p =>
    obtain ⟨w, r⟩ := p
    rw [hp] at h
    simp only at h
    split_ifs at h with hr
    rw [parseValue] at hp
    simp only [show ('{' : Char) ≠ '"' by decide, if_false, if_true] at hp
    obtain ⟨body, hb, hs⟩ := object_moves _ (parse_scans _).2.2 t r w d hp
    obtain ⟨ws, hws, hall⟩ := skipWs_split r
    rw [hr, List.append_nil] at hws
    rw [hb, scan_append, hs, Option.bind_some, hws]
    cases d with
    | zero => exact scan_ws_zero ws hall
    | succ d => exact scan_ws d .value (Or.inl rfl) ws hall

/-- A torn object text with another object text written right after it does not load:
the second text opens inside the first, whose brackets never close, or inside one of
its strings, which the second text's first quote ends before a key character. -/
theorem loads_torn_append (p r q : List Char) (c : Char) (v w : Json) (hp : p ≠ [])
    (hv : loads (p ++ r) = some v) (hh : ∀ x ∈ p.head?, x = '{')
    (hw : loads ('{' :: '"' :: c :: q) = some w)
    (hc : isWs c = false ∧ c ≠ ',' ∧ c ≠ ':' ∧ c ≠ '}' ∧ c ≠ ']') :
    loads (p ++ '{' :: '"' :: c :: q) = none := by
  cases p with
  | nil => exact absurd rfl hp
  | cons x p =>
    have hx : x = '{' := hh x (by simp)
    subst x
    have hfull := loads_scan (p ++ r) v hv 0
    rw [scan_append] at hfull
    cases hs : scan (1, .value) p with
    | none => simp [hs] at hfull
    | some s =>
      rw [Option.eq_none_iff_forall_ne_some]
      intro u hu
      have hend := loads_scan (p ++ '{' :: '"' :: c :: q) u hu 0
      rw [scan_append, hs, Option.bind_some] at hend
      obtain ⟨d, m⟩ := s
      have keyStop (e : Nat) : scan (e + 1, .close) (c :: q) = none := by
        rw [scan_cons]
        simp [scanChar, hc.1, hc.2.1, hc.2.2.1, hc.2.2.2.1, hc.2.2.2.2]
      cases d with
      | zero =>
        rw [scan_cons] at hend
        simp [scanChar, isWs] at hend
      | succ d =>
        cases m with
        | str =>
          have h2 : scan (d + 1, .str) ('{' :: '"' :: c :: q) = scan (d + 1, .close) (c :: q) := rfl
          rw [h2, keyStop] at hend
          simp at hend
        | esc =>
          have h2 : scan (d + 1, .esc) ('{' :: '"' :: c :: q) = scan (d + 1, .close) (c :: q) := rfl
          rw [h2, keyStop] at hend
          simp at hend
        | close =>
          rw [scan_cons] at hend
          simp [scanChar, isWs] at hend
        | value =>
          have hin := loads_scan ('"' :: c :: q) w hw (d + 1)
          have h2 : scan (d + 1, .value) ('{' :: '"' :: c :: q) =
              scan (d + 2, .value) ('"' :: c :: q) := rfl
          rw [h2, hin] at hend
          simp at hend

end Elyra.Json
