import Mathlib.Data.List.Infix

namespace Elyra

variable {α : Type} [DecidableEq α]

/-- The rest of a left-to-right replacement, with `skip` letters of the last occurrence to pass. -/
def replaceFrom (old new : List α) : List α → Nat → List α
  | [], _ => []
  | _ :: cs, skip + 1 => replaceFrom old new cs skip
  | c :: cs, 0 =>
    if old <+: c :: cs then new ++ replaceFrom old new cs (old.length - 1)
    else c :: replaceFrom old new cs 0

/-- Every occurrence of `old`, from the left, becomes `new`. -/
def replaceAll (old new text : List α) : List α := replaceFrom old new text 0

section Avoid

variable {new v : List α} (hv : v ≠ []) (hdisjoint : List.Disjoint v new)

include hv hdisjoint

omit [DecidableEq α] in
/-- What shares no letter with a head is found behind it. -/
theorem infix_of_infix_append (tail : List α) (h : v <:+: new ++ tail) : v <:+: tail := by
  induction new with
  | nil => exact h
  | cons x new ih =>
    obtain ⟨hx, hrest⟩ := List.disjoint_cons_right.mp hdisjoint
    obtain hprefix | hinfix := List.infix_cons_iff.mp h
    · cases v with
      | nil => exact absurd rfl hv
      | cons y v =>
        have heq : y = x := (List.cons_prefix_cons.mp hprefix).1
        exact absurd (heq ▸ List.mem_cons_self) hx
    · exact ih hrest hinfix

end Avoid

section Prefix

variable {old new : List α} (hnew : new ≠ [])

include hnew

/-- A head of the result without letters of `new` is a head of the text. -/
theorem prefix_of_prefix_replaceFrom (text v : List α) (hdisjoint : List.Disjoint v new)
    (h : v <+: replaceFrom old new text 0) : v <+: text := by
  induction text generalizing v with
  | nil => exact h
  | cons c cs ih =>
    cases v with
    | nil => exact List.nil_prefix
    | cons y v =>
      obtain ⟨hy, hrest⟩ := List.disjoint_cons_left.mp hdisjoint
      rw [replaceFrom] at h
      split_ifs at h
      · cases new with
        | nil => exact absurd rfl hnew
        | cons x new =>
          have heq : y = x := (List.cons_prefix_cons.mp h).1
          exact absurd (heq ▸ List.mem_cons_self) hy
      · obtain ⟨hhead, htail⟩ := List.cons_prefix_cons.mp h
        exact List.cons_prefix_cons.mpr ⟨hhead, ih v hrest htail⟩

variable {v : List α} (hv : v ≠ []) (hdisjoint : List.Disjoint v new)

include hv hdisjoint

/-- The result holds no text without letters of `new` that occurs only where `old` does. -/
theorem not_infix_replaceFrom (text : List α) (skip : Nat)
    (h : ∀ tail, tail <:+ text → v <+: tail → old <+: tail) :
    ¬v <:+: replaceFrom old new text skip := by
  induction text generalizing skip with
  | nil =>
    intro hinfix
    exact hv (List.infix_nil.mp hinfix)
  | cons c cs ih =>
    have hrest : ∀ tail, tail <:+ cs → v <+: tail → old <+: tail :=
      fun tail hsuffix => h tail (hsuffix.trans (List.suffix_cons c cs))
    cases skip with
    | succ skip => exact ih skip hrest
    | zero =>
      rw [replaceFrom]
      split_ifs with hmatch
      · intro hinfix
        exact ih _ hrest (infix_of_infix_append hv hdisjoint _ hinfix)
      · intro hinfix
        obtain hprefix | hinside := List.infix_cons_iff.mp hinfix
        · have hcopy : v <+: replaceFrom old new (c :: cs) 0 := by
            rw [replaceFrom, if_neg hmatch]
            exact hprefix
          have htext := prefix_of_prefix_replaceFrom hnew (c :: cs) v hdisjoint hcopy
          exact hmatch (h (c :: cs) List.suffix_rfl htext)
        · exact ih 0 hrest hinside

/-- The replaced text is gone. -/
theorem not_infix_replaceAll_self (text : List α) : ¬v <:+: replaceAll v new text :=
  not_infix_replaceFrom hnew hv hdisjoint text 0 fun _ _ hprefix => hprefix

/-- A text that was not there does not come. -/
theorem not_infix_replaceAll (text : List α) (h : ¬v <:+: text) :
    ¬v <:+: replaceAll old new text := by
  apply not_infix_replaceFrom hnew hv hdisjoint text 0
  intro tail hsuffix hhead
  exact absurd (hhead.isInfix.trans hsuffix.isInfix) h

end Prefix

/-- Nothing to replace. -/
theorem replaceAll_of_not_infix (old new text : List α) (h : ¬old <:+: text) :
    replaceAll old new text = text := by
  rw [replaceAll]
  induction text with
  | nil => rfl
  | cons c cs ih =>
    have hhere : ¬old <+: c :: cs := fun hhead => h hhead.isInfix
    have hrest : ¬old <:+: cs := fun hinside =>
      h (hinside.trans (List.infix_cons (List.infix_refl cs)))
    rw [replaceFrom, if_neg hhere, ih hrest]

/-- The same with at most `limit` replacements. -/
def replaceUpToFrom (old new : List α) : List α → Nat → Nat → List α
  | [], _, _ => []
  | _ :: cs, skip + 1, limit => replaceUpToFrom old new cs skip limit
  | c :: cs, 0, 0 => c :: cs
  | c :: cs, 0, limit + 1 =>
    if old <+: c :: cs then new ++ replaceUpToFrom old new cs (old.length - 1) limit
    else c :: replaceUpToFrom old new cs 0 (limit + 1)

def replaceUpTo (old new text : List α) (limit : Nat) : List α :=
  replaceUpToFrom old new text 0 limit

/-- The occurrences a left-to-right replacement finds. -/
def occurrencesFrom (old : List α) : List α → Nat → Nat
  | [], _ => 0
  | _ :: cs, skip + 1 => occurrencesFrom old cs skip
  | c :: cs, 0 =>
    if old <+: c :: cs then occurrencesFrom old cs (old.length - 1) + 1
    else occurrencesFrom old cs 0

def occurrences (old text : List α) : Nat := occurrencesFrom old text 0

section Occurrences

variable {old new : List α}

/-- A limit that is not reached does not count. -/
theorem replaceUpToFrom_eq (text : List α) (skip limit : Nat)
    (h : occurrencesFrom old text skip ≤ limit) :
    replaceUpToFrom old new text skip limit = replaceFrom old new text skip := by
  induction text generalizing skip limit with
  | nil => rfl
  | cons c cs ih =>
    cases skip with
    | succ skip => exact ih skip limit h
    | zero =>
      rw [occurrencesFrom] at h
      by_cases hmatch : old <+: c :: cs
      · rw [if_pos hmatch] at h
        cases limit with
        | zero => omega
        | succ limit =>
          rw [replaceUpToFrom, replaceFrom, if_pos hmatch, if_pos hmatch,
            ih _ limit (Nat.le_of_succ_le_succ h)]
      · rw [if_neg hmatch] at h
        cases limit with
        | zero =>
          have hrest := ih 0 0 h
          rw [replaceFrom, if_neg hmatch, ← hrest]
          cases cs <;> rfl
        | succ limit => rw [replaceUpToFrom, replaceFrom, if_neg hmatch, if_neg hmatch, ih 0 _ h]

theorem occurrences_eq_zero (text : List α) (hold : old ≠ []) :
    occurrences old text = 0 ↔ ¬old <:+: text := by
  rw [occurrences]
  induction text with
  | nil =>
    have hnil : ¬old <:+: [] := fun h => hold (List.infix_nil.mp h)
    exact ⟨fun _ => hnil, fun _ => rfl⟩
  | cons c cs ih =>
    rw [occurrencesFrom]
    split_ifs with hmatch
    · constructor
      · exact fun h => nomatch h
      · exact fun h => absurd hmatch.isInfix h
    · rw [ih, List.infix_cons_iff]
      exact ⟨fun h => not_or.mpr ⟨hmatch, h⟩, fun h => (not_or.mp h).2⟩

/-- A letter that `old` lacks stands in the result where it stood, and once more for each `new` that
holds it. -/
theorem count_replaceUpToFrom (x : α) (hold : old ≠ []) (hx : x ∉ old) (text : List α) (skip limit : Nat)
    (hskip : x ∉ text.take skip) :
    (replaceUpToFrom old new text skip limit).count x =
      text.count x + min limit (occurrencesFrom old text skip) * new.count x := by
  induction text generalizing skip limit with
  | nil => simp [replaceUpToFrom, occurrencesFrom]
  | cons c cs ih =>
    cases skip with
    | succ skip =>
      obtain ⟨hc, hrest⟩ := List.ne_and_not_mem_of_not_mem_cons hskip
      rw [replaceUpToFrom, occurrencesFrom, ih skip limit hrest,
        List.count_cons_of_ne (Ne.symm hc)]
    | zero =>
      cases limit with
      | zero => simp [replaceUpToFrom]
      | succ limit =>
        rw [replaceUpToFrom, occurrencesFrom]
        by_cases hmatch : old <+: c :: cs
        · rw [if_pos hmatch, if_pos hmatch]
          cases old with
          | nil => exact absurd rfl hold
          | cons o old =>
            obtain ⟨heq, htail⟩ := List.cons_prefix_cons.mp hmatch
            subst heq
            obtain ⟨ho, hrest⟩ := List.ne_and_not_mem_of_not_mem_cons hx
            have htake : cs.take old.length = old := (List.prefix_iff_eq_take.mp htail).symm
            have hnone : x ∉ cs.take ((o :: old).length - 1) := by
              rw [List.length_cons, Nat.add_sub_cancel, htake]
              exact hrest
            rw [List.count_append, ih _ limit hnone, List.count_cons_of_ne (Ne.symm ho),
              Nat.succ_min_succ, Nat.succ_mul]
            omega
        · rw [if_neg hmatch, if_neg hmatch, List.count_cons, List.count_cons,
            ih 0 (limit + 1) List.not_mem_nil]
          omega

end Occurrences

end Elyra
