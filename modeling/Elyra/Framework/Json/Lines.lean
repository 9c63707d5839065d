import Elyra.Framework.Json.Torn
import Elyra.Framework.Text

namespace Elyra.Json

def NoControl (cs : List Char) : Prop := ∀ c ∈ cs, 32 ≤ c.toNat

instance (cs : List Char) : Decidable (NoControl cs) := List.decidableBAll _ cs

theorem NoControl.append {a b : List Char} (ha : NoControl a) (hb : NoControl b) :
    NoControl (a ++ b) := by
  intro c hc
  rcases List.mem_append.mp hc with h | h
  · exact ha c h
  · exact hb c h

theorem NoControl.cons {c : Char} {a : List Char} (hc : 32 ≤ c.toNat) (ha : NoControl a) :
    NoControl (c :: a) := by
  intro d hd
  rcases List.mem_cons.mp hd with rfl | h
  · exact hc
  · exact ha d h

theorem NoControl.not_newline {a : List Char} (h : NoControl a) : '\n' ∉ a :=
  fun hm => absurd (h '\n' hm) (by decide)

theorem NoControl.not_return {a : List Char} (h : NoControl a) : '\r' ∉ a :=
  fun hm => absurd (h '\r' hm) (by decide)

theorem noControl_single (c : Char) (h : 32 ≤ c.toNat) : NoControl [c] := by
  intro d hd
  rw [List.mem_singleton.mp hd]
  exact h

theorem noControl_digits (ds : List Digit) : NoControl (ds.map digitChar) := by
  intro c hc
  obtain ⟨d, -, rfl⟩ := List.mem_map.mp hc
  rw [toNat_digitChar]
  omega

theorem noControl_sign (neg : Bool) : NoControl (signChars neg) := by
  cases neg
  · simp [signChars, NoControl]
  · exact noControl_single '-' (by decide)

theorem noControl_exp (e : Int) : NoControl (printExp e) := by
  refine NoControl.cons (by decide) (NoControl.cons ?_ (noControl_digits _))
  split_ifs <;> decide

theorem noControl_escapeChar (c : Char) : NoControl (escapeChar c) := by
  have hex (d : Nat) (hd : d < 16) : 32 ≤ (hexChar d).toNat := by
    revert d
    decide
  unfold escapeChar
  split_ifs with h1 h2 h3 h4 h5 h6 h7 h8
  all_goals try decide
  · have hlo := hex (c.toNat % 16) (Nat.mod_lt _ (by decide))
    have hhi := hex (c.toNat / 16) (by omega)
    exact .cons (by decide) (.cons (by decide) (.cons (by decide) (.cons (by decide)
      (.cons hhi (.cons hlo (by simp [NoControl]))))))
  · exact .cons (by omega) (by simp [NoControl])

theorem noControl_str (s : String) : NoControl (printStr s) := by
  refine .cons (by decide) (.append ?_ (.cons (by decide) (by simp [NoControl])))
  intro c hc
  obtain ⟨d, -, hd⟩ := List.mem_flatMap.mp hc
  exact noControl_escapeChar d c hd

theorem noControl_atom (v : Json) : NoControl (printAtom v) := by
  have number (neg : Bool) (n : Nat) : NoControl (signChars neg ++ natChars n) :=
    (noControl_sign neg).append (noControl_digits _)
  cases v with
  | null => decide
  | bool b => cases b <;> decide
  | int n => exact number _ _
  | float x =>
    cases x with
    | decimal neg whole d ds exp =>
      refine (number neg whole).append (.cons (by decide) ((noControl_digits _).append ?_))
      cases exp
      · simp [NoControl]
      · exact noControl_exp _
    | scientific neg whole e => exact (number neg whole).append (noControl_exp e)
    | nan => decide
    | infinity neg => exact (noControl_sign neg).append (by decide)
  | str s => exact noControl_str s
  | arr xs => exact .cons (by decide) (noControl_single ']' (by decide))
  | obj kvs => exact .cons (by decide) (noControl_single '}' (by decide))

theorem noControl_comma (n : Nat) : NoControl (compact.comma n) := noControl_single ' ' (by decide)

/-- A dumped value is one line: every control character in it is escaped. -/
theorem noControl_print (v : Json) : ∀ n, NoControl (print compact n v) := by
  induction v using Json.induction
    (E := fun xs => ∀ n, NoControl (printElems compact n xs) ∧
      ∀ x ∈ xs.head?, NoControl (print compact (n + 1) x) ∧
        NoControl (printElems compact n xs.tail))
    (M := fun kvs => ∀ n, NoControl (printMembers compact n kvs) ∧
      ∀ p ∈ kvs.head?, NoControl (print compact (n + 1) p.2) ∧
        NoControl (printMembers compact n kvs.tail)) with
  | null => exact fun n => by rw [print]; exact noControl_atom _
  | bool b => exact fun n => by rw [print]; exact noControl_atom _
  | int k => exact fun n => by rw [print]; exact noControl_atom _
  | float x => exact fun n => by rw [print]; exact noControl_atom _
  | str s => exact fun n => by rw [print]; exact noControl_atom _
  | arr xs ih =>
    intro n
    cases xs with
    | nil => rw [print]; exact noControl_atom _
    | cons x xs =>
      have h := (ih n).2 x (by simp)
      rw [print]
      exact .cons (by decide) (.append (by simp [compact, NoControl]) (h.1.append h.2))
  | obj kvs ih =>
    intro n
    cases kvs with
    | nil => rw [print]; exact noControl_atom _
    | cons p kvs =>
      obtain ⟨k, v⟩ := p
      have h := (ih n).2 (k, v) (by simp)
      rw [print]
      exact .cons (by decide) (.append (by simp [compact, NoControl])
        ((noControl_str k).append (.cons (by decide) (.cons (by decide) (h.1.append h.2)))))
  | nilE n => exact ⟨by rw [printElems]; exact noControl_single ']' (by decide), by simp⟩
  | consE x xs hx ih n =>
    refine ⟨?_, ?_⟩
    · rw [printElems]
      exact .cons (by decide) ((noControl_comma n).append ((hx (n + 1)).append (ih n).1))
    · intro y hy
      rw [← Option.some.inj hy]
      exact ⟨hx (n + 1), (ih n).1⟩
  | nilM n => exact ⟨by rw [printMembers]; exact noControl_single '}' (by decide), by simp⟩
  | consM k v kvs hv ih n =>
    refine ⟨?_, ?_⟩
    · rw [printMembers]
      exact .cons (by decide) ((noControl_comma n).append ((noControl_str k).append
        (.cons (by decide) (.cons (by decide) ((hv (n + 1)).append (ih n).1)))))
    · intro p hp
      rw [← Option.some.inj hp]
      exact ⟨hv (n + 1), (ih n).1⟩

theorem printMembers_last (n : Nat) (kvs : List (String × Json)) :
    ∃ body, printMembers compact n kvs = body ++ ['}'] := by
  induction kvs with
  | nil => exact ⟨_, by rw [printMembers]⟩
  | cons p kvs ih =>
    obtain ⟨k, v⟩ := p
    obtain ⟨body, hb⟩ := ih
    refine ⟨',' :: (compact.comma n ++ (printStr k ++ ':' :: ' ' ::
      (print compact (n + 1) v ++ body))), ?_⟩
    rw [printMembers, hb]
    simp

theorem dumps_obj (kvs : List (String × Json)) : ∃ body, dumps (.obj kvs) = '{' :: (body ++ ['}']) := by
  cases kvs with
  | nil => exact ⟨[], by rw [dumps, print, printAtom, List.nil_append]⟩
  | cons p kvs =>
    obtain ⟨k, v⟩ := p
    obtain ⟨body, hb⟩ := printMembers_last 0 kvs
    refine ⟨compact.opening 0 ++ (printStr k ++ ':' :: ' ' :: (print compact 1 v ++ body)), ?_⟩
    rw [dumps, print, hb]
    simp

theorem strip_dumps_obj (kvs : List (String × Json)) :
    strip (dumps (.obj kvs)) = dumps (.obj kvs) := by
  obtain ⟨body, hb⟩ := dumps_obj kvs
  rw [hb]
  exact strip_eq_self '{' '}' body rfl rfl

/-- One row of a JSONL file. -/
def rowText (kvs : List (String × Json)) : List Char := dumps (.obj kvs) ++ ['\n']

def rowsText (rows : List (List (String × Json))) : List Char := rows.flatMap rowText

theorem rowsText_append (a b : List (List (String × Json))) :
    rowsText (a ++ b) = rowsText a ++ rowsText b := by
  simp [rowsText]

/-- A JSONL reader sees every whole row, then whatever follows them. -/
theorem textLines_rowsText (rows : List (List (String × Json))) (tail : List Char) :
    textLines (rowsText rows ++ tail) =
      rows.map (fun kvs => dumps (.obj kvs)) ++ textLines tail := by
  induction rows with
  | nil => simp [rowsText]
  | cons kvs rows ih =>
    have hc : NoControl (dumps (.obj kvs)) := noControl_print (.obj kvs) 0
    obtain ⟨body, hb⟩ := dumps_obj kvs
    have hne : dumps (.obj kvs) ≠ [] := by
      rw [hb]
      simp
    have htext : rowsText (kvs :: rows) ++ tail =
        dumps (.obj kvs) ++ '\n' :: (rowsText rows ++ tail) := by
      simp [rowsText, rowText]
    rw [htext, textLines_append _ _ hc.not_newline hc.not_return, strip_dumps_obj, if_neg hne, ih,
      List.map_cons, List.cons_append, List.nil_append, List.cons_append]

/-- Rows of the file that load; the others are skipped. -/
def loadedRows (cs : List Char) : List Json := (textLines cs).filterMap loads

theorem loadedRows_rowsText (rows : List (List (String × Json))) (tail : List Char) :
    loadedRows (rowsText rows ++ tail) = rows.map Json.obj ++ loadedRows tail := by
  rw [loadedRows, textLines_rowsText, List.filterMap_append, List.filterMap_map]
  have hall : (loads ∘ fun kvs => dumps (.obj kvs)) = fun kvs => some (.obj kvs) := by
    funext kvs
    exact loads_dumps (.obj kvs)
  rw [hall, List.filterMap_eq_map']
  rfl

/-- A row written after a torn one is lost with it. -/
theorem loadedRows_torn (kvs next : List (String × Json)) (p r q : List Char) (c : Char)
    (hcut : dumps (.obj kvs) = p ++ r) (hp : p ≠ [])
    (hnext : dumps (.obj next) = '{' :: '"' :: c :: q)
    (hc : isWs c = false ∧ c ≠ ',' ∧ c ≠ ':' ∧ c ≠ '}' ∧ c ≠ ']') :
    loadedRows (p ++ rowText next) = [] := by
  obtain ⟨body, hbody⟩ := dumps_obj kvs
  obtain ⟨t, rfl⟩ : ∃ t, p = '{' :: t := by
    cases p with
    | nil => exact absurd rfl hp
    | cons x t =>
      rw [hbody, List.cons_append] at hcut
      exact ⟨t, by rw [(List.cons.inj hcut).1]⟩
  have hlost : loads ('{' :: t ++ dumps (.obj next)) = none := by
    have hwhole : loads ('{' :: t ++ r) = some (.obj kvs) := by
      rw [← hcut]
      exact loads_dumps _
    rw [hnext]
    refine loads_torn_append _ r q c _ (.obj next) hp hwhole (by simp) ?_ hc
    rw [← hnext]
    exact loads_dumps _
  have hcontrol : NoControl ('{' :: t ++ dumps (.obj next)) := by
    apply NoControl.append
    · intro d hd
      exact noControl_print (.obj kvs) 0 d (by
        rw [show print compact 0 (.obj kvs) = dumps (.obj kvs) from rfl, hcut]
        exact List.mem_append_left _ hd)
    · exact noControl_print (.obj next) 0
  have hstrip : strip ('{' :: t ++ dumps (.obj next)) = '{' :: t ++ dumps (.obj next) := by
    obtain ⟨tail, htail⟩ := dumps_obj next
    have hshape : '{' :: t ++ dumps (.obj next) = '{' :: ((t ++ '{' :: tail) ++ ['}']) := by
      rw [htail]
      simp
    rw [hshape]
    exact strip_eq_self '{' '}' _ rfl rfl
  have hline : '{' :: t ++ rowText next = ('{' :: t ++ dumps (.obj next)) ++ '\n' :: [] := by
    simp [rowText]
  rw [loadedRows, hline, textLines_append _ _ hcontrol.not_newline hcontrol.not_return, hstrip,
    textLines_nil, List.append_nil]
  split_ifs
  · rfl
  · rw [List.filterMap_cons_none hlost]
    rfl

@[simp] theorem loadedRows_nil : loadedRows [] = [] := rfl

end Elyra.Json
