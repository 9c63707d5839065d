import Mathlib.Data.Nat.Digits.Lemmas
import Mathlib.Tactic.Ring

namespace Elyra

abbrev Digit := Fin 10

instance neZeroTen : NeZero 10 := ⟨by decide⟩

def digitChar (d : Digit) : Char := Char.ofNat (48 + d.val)

/-- Only ASCII digits count, as in JSON numbers and ISO timestamps. -/
def digit? (c : Char) : Option Digit :=
  if h : 48 ≤ c.toNat ∧ c.toNat ≤ 57 then some ⟨c.toNat - 48, by omega⟩ else none

theorem toNat_digitChar (d : Digit) : (digitChar d).toNat = 48 + d.val := by
  revert d
  decide

@[simp] theorem digit?_digitChar (d : Digit) : digit? (digitChar d) = some d := by
  revert d
  decide

theorem digitChar_of_digit? (c : Char) (d : Digit) (h : digit? c = some d) : digitChar d = c := by
  unfold digit? at h
  split at h
  · rename_i hc
    have hd : d.val = c.toNat - 48 := by
      rw [← Option.some.inj h]
    have hn : 48 + d.val = c.toNat := by omega
    rw [digitChar, hn, Char.ofNat_toNat]
  · simp at h

theorem digitChar_ne (d : Digit) (c : Char) (h : digit? c = none) : digitChar d ≠ c := by
  intro he
  rw [← he, digit?_digitChar] at h
  simp at h

def spanDigits : List Char → List Digit × List Char
  | [] => ([], [])
  | c :: rest =>
    match digit? c with
    | some d => (d :: (spanDigits rest).1, (spanDigits rest).2)
    | none => ([], c :: rest)

/-- A text that does not go on with a digit. -/
def NoDigit (rest : List Char) : Prop := ∀ c ∈ rest.head?, digit? c = none

theorem spanDigits_digits (ds : List Digit) (rest : List Char) (h : NoDigit rest) :
    spanDigits (ds.map digitChar ++ rest) = (ds, rest) := by
  induction ds with
  | nil =>
    cases rest with
    | nil => rfl
    | cons c r =>
      have hc : digit? c = none := h c (by simp)
      simp [spanDigits, hc]
  | cons d ds ih =>
    simp only [List.map_cons, List.cons_append, spanDigits, digit?_digitChar, ih]

theorem spanDigits_split (cs : List Char) :
    cs = (spanDigits cs).1.map digitChar ++ (spanDigits cs).2 := by
  induction cs with
  | nil => rfl
  | cons c r ih =>
    cases h : digit? c with
    | none => simp [spanDigits, h]
    | some d =>
      simp only [spanDigits, h, List.map_cons, List.cons_append, ← ih]
      rw [digitChar_of_digit? c d h]

def natOfDigits (ds : List Digit) : Nat := ds.foldl (fun n d => 10 * n + d.val) 0

def natDigits (n : Nat) : List Digit :=
  if n = 0 then [0] else (Nat.digits 10 n).reverse.map (Fin.ofNat 10)

def natChars (n : Nat) : List Char := (natDigits n).map digitChar

theorem natOfDigits_eq_ofDigits (ds : List Digit) :
    natOfDigits ds = Nat.ofDigits 10 (ds.reverse.map Fin.val) := by
  have step (l : List Digit) (a : Nat) :
      l.foldl (fun n d => 10 * n + d.val) a =
        Nat.ofDigits 10 (l.reverse.map Fin.val) + a * 10 ^ l.length := by
    induction l generalizing a with
    | nil => simp
    | cons d l ih =>
      simp only [List.foldl_cons, ih, List.reverse_cons, List.map_append, List.map_cons,
        List.map_nil, Nat.ofDigits_append, Nat.ofDigits_singleton, List.length_map,
        List.length_reverse, List.length_cons, pow_succ]
      ring
  rw [natOfDigits, step]
  simp

theorem natOfDigits_cons (d : Digit) (ds : List Digit) :
    natOfDigits (d :: ds) = d.val * 10 ^ ds.length + natOfDigits ds := by
  rw [natOfDigits_eq_ofDigits, natOfDigits_eq_ofDigits, List.reverse_cons, List.map_append,
    List.map_cons, List.map_nil, Nat.ofDigits_append, Nat.ofDigits_singleton, List.length_map,
    List.length_reverse]
  ring

theorem natOfDigits_natDigits (n : Nat) : natOfDigits (natDigits n) = n := by
  by_cases h : n = 0
  · subst n
    rfl
  · have back : (Nat.digits 10 n).map (fun d => (Fin.ofNat 10 d).val) = Nat.digits 10 n := by
      calc
        (Nat.digits 10 n).map (fun d => (Fin.ofNat 10 d).val)
            = (Nat.digits 10 n).map id := by
              apply List.map_congr_left
              intro d hd
              exact Nat.mod_eq_of_lt (Nat.digits_lt_base (by decide) hd)
        _ = Nat.digits 10 n := List.map_id _
    rw [natOfDigits_eq_ofDigits, natDigits, if_neg h, ← List.map_reverse, List.reverse_reverse,
      List.map_map]
    change Nat.ofDigits 10 ((Nat.digits 10 n).map (fun d => (Fin.ofNat 10 d).val)) = n
    rw [back, Nat.ofDigits_digits]

theorem natChars_injective : Function.Injective natChars := by
  intro m n h
  have hdigit : Function.Injective digitChar := by
    intro d e hde
    have hd := digit?_digitChar d
    rw [hde, digit?_digitChar] at hd
    exact (Option.some.inj hd).symm
  have hdigits : natDigits m = natDigits n := List.map_injective_iff.mpr hdigit h
  rw [← natOfDigits_natDigits m, hdigits, natOfDigits_natDigits]

theorem natDigits_ne_nil (n : Nat) : natDigits n ≠ [] := by
  unfold natDigits
  split_ifs with h
  · simp
  · simp [Nat.digits_ne_nil_iff_ne_zero.mpr h]

/-- A printed number starts with zero only when it is zero. -/
theorem natDigits_head (n : Nat) (d : Digit) (ds : List Digit) (h : natDigits n = d :: ds)
    (hd : d = 0) : n = 0 ∧ ds = [] := by
  unfold natDigits at h
  split_ifs at h with hn
  · exact ⟨hn, by simpa using (List.cons.inj h).2.symm⟩
  · exfalso
    have hne : Nat.digits 10 n ≠ [] := Nat.digits_ne_nil_iff_ne_zero.mpr hn
    have hlast := Nat.getLast_digit_ne_zero 10 hn
    have hrev : (Nat.digits 10 n).reverse.map (Fin.ofNat 10) = d :: ds := h
    have hhead : ((Nat.digits 10 n).reverse.map (Fin.ofNat 10)).head? = some d := by rw [hrev]; rfl
    rw [List.head?_map, List.head?_reverse, List.getLast?_eq_some_getLast hne] at hhead
    have hval : (Fin.ofNat 10 ((Nat.digits 10 n).getLast hne)).val = 0 := by
      rw [Option.some.inj hhead, hd]
      rfl
    have hlt := Nat.digits_lt_base (b := 10) (m := n) (by decide) (List.getLast_mem hne)
    rw [Fin.val_ofNat, Nat.mod_eq_of_lt hlt] at hval
    exact hlast hval

/-- The `w` low decimal digits of `n`, zero-padded. -/
def padDigits : Nat → Nat → List Digit
  | 0, _ => []
  | w + 1, n => padDigits w (n / 10) ++ [Fin.ofNat 10 n]

def padChars (w n : Nat) : List Char := (padDigits w n).map digitChar

@[simp] theorem length_padDigits (w n : Nat) : (padDigits w n).length = w := by
  induction w generalizing n with
  | zero => rfl
  | succ w ih => simp [padDigits, ih]

@[simp] theorem length_padChars (w n : Nat) : (padChars w n).length = w := by
  simp [padChars]

theorem natOfDigits_append_singleton (ds : List Digit) (d : Digit) :
    natOfDigits (ds ++ [d]) = 10 * natOfDigits ds + d.val := by
  simp [natOfDigits]

theorem natOfDigits_padDigits (w n : Nat) (h : n < 10 ^ w) : natOfDigits (padDigits w n) = n := by
  induction w generalizing n with
  | zero =>
    have hn : n = 0 := by simpa using h
    subst n
    rfl
  | succ w ih =>
    have hq : n / 10 < 10 ^ w := by
      rw [pow_succ] at h
      omega
    rw [padDigits, natOfDigits_append_singleton, ih (n / 10) hq, Fin.val_ofNat]
    omega

theorem digitChar_lt (d e : Digit) : digitChar d < digitChar e ↔ d < e := by
  revert d e
  decide

theorem lex_append {α : Type*} [LT α] (a b x y : List α) (h : a.length = b.length) :
    a ++ x < b ++ y ↔ a < b ∨ a = b ∧ x < y := by
  induction a generalizing b with
  | nil =>
    have hb : b = [] := List.eq_nil_of_length_eq_zero (by simpa using h.symm)
    simp [hb]
  | cons u a ih =>
    cases b with
    | nil => simp at h
    | cons v b =>
      simp only [List.cons_append, List.cons_lt_cons_iff, List.cons.injEq,
        ih b (by simpa using h)]
      tauto

/-- Zero-padded numbers of one width compare as texts the way they compare as numbers. -/
theorem padChars_lt (w m n : Nat) (h : n < 10 ^ w) (hmn : m < n) :
    padChars w m < padChars w n := by
  induction w generalizing m n with
  | zero =>
    simp only [pow_zero] at h
    omega
  | succ w ih =>
    have hq : n / 10 < 10 ^ w := by
      rw [pow_succ] at h
      omega
    simp only [padChars, padDigits, List.map_append, List.map_cons, List.map_nil]
    rw [lex_append _ _ _ _ (by simp)]
    by_cases he : m / 10 = n / 10
    · right
      refine ⟨by rw [he], ?_⟩
      have hlast : Fin.ofNat 10 m < Fin.ofNat 10 n := by
        rw [Fin.lt_def, Fin.val_ofNat, Fin.val_ofNat]
        omega
      rw [List.cons_lt_cons_iff]
      exact Or.inl ((digitChar_lt _ _).mpr hlast)
    · left
      exact ih (m / 10) (n / 10) hq (by omega)

end Elyra
