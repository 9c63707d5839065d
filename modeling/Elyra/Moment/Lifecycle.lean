import Elyra.Moment.Refines

namespace Elyra.Moment

open Json

/-- The fold of rows that are all objects. -/
def foldMeta (byId : Dict String Row) (kvs : List (String × Json)) : Dict String Row :=
  match (Dict.ofList kvs).get? "id" with
  | some (.str mid) => if mid = "" then byId else byId.set mid (Dict.ofList kvs)
  | _ => byId

def folded (rows : List (List (String × Json))) : Dict String Row := rows.foldl foldMeta .empty

theorem foldRow_obj (byId : Dict String Row) (kvs : List (String × Json)) :
    foldRow byId (.obj kvs) = .ok (foldMeta byId kvs) := by
  show (match (Dict.ofList kvs).get? "id" with
    | some (.str mid) => Except.ok (if mid = "" then byId else byId.set mid (Dict.ofList kvs))
    | _ => .ok byId) = _
  unfold foldMeta
  cases (Dict.ofList kvs).get? "id" with
  | none => rfl
  | some v => cases v <;> rfl

theorem foldRows_objs (rows : List (List (String × Json))) :
    foldRows (rows.map Json.obj) = .ok (folded rows) := by
  have h : ∀ byId, (rows.map Json.obj).foldlM foldRow byId = .ok (rows.foldl foldMeta byId) := by
    induction rows with
    | nil =>
      intro byId
      rfl
    | cons kvs rows ih =>
      intro byId
      rw [List.map_cons, List.foldlM_cons, foldRow_obj]
      exact ih (foldMeta byId kvs)
  exact h .empty

/-- The index as the written rows have it. -/
def byId (t : Moments Written) : Dict String Row := folded (t .index).rows

theorem loadIndexById_written (t : Moments Written) :
    loadIndexById written t = .ok (byId t) t := by
  show check (foldRows ((t .index).rows.map Json.obj)) t = _
  rw [foldRows_objs]
  rfl

theorem folded_snoc (rows : List (List (String × Json))) (kvs : List (String × Json)) :
    folded (rows ++ [kvs]) = foldMeta (folded rows) kvs := by
  rw [folded, List.foldl_append]
  rfl

/-- Each row stands under its own id. -/
def Keyed (d : Dict String Row) : Prop :=
  ∀ mid row, d.get? mid = some row → mid ≠ "" ∧ row.get? "id" = some (.str mid)

theorem keyed_folded (rows : List (List (String × Json))) : Keyed (folded rows) := by
  induction rows using List.reverseRecOn with
  | nil =>
    intro mid row h
    cases h
  | append_singleton rows kvs ih =>
    rw [folded_snoc]
    intro mid row h
    unfold foldMeta at h
    split at h
    · next own hown =>
      by_cases hempty : own = ""
      · rw [if_pos hempty] at h
        exact ih mid row h
      · rw [if_neg hempty, Dict.get?_set] at h
        by_cases hm : own = mid
        · rw [if_pos hm] at h
          obtain rfl := Option.some.inj h
          exact ⟨hm ▸ hempty, hm ▸ hown⟩
        · rw [if_neg hm] at h
          exact ih mid row h
    · exact ih mid row h

theorem foldMeta_items (d : Dict String Row) (row : Row) (mid : String) (hne : mid ≠ "")
    (hid : row.get? "id" = some (.str mid)) : foldMeta d row.items = d.set mid row := by
  unfold foldMeta
  rw [Dict.ofList_items, hid]
  exact if_neg hne

/-- A rewritten index folds to what was written. -/
theorem folded_values (d : Dict String Row) (h : Keyed d) :
    folded (d.values.map Dict.items) = d := by
  have hpairs : ∀ (l : List (String × Row)) (acc : Dict String Row),
      (∀ p ∈ l, p.1 ≠ "" ∧ p.2.get? "id" = some (.str p.1)) →
      ((l.map Prod.snd).map Dict.items).foldl foldMeta acc =
        l.foldl (fun d p => d.set p.1 p.2) acc := by
    intro l
    induction l with
    | nil =>
      intro acc _
      rfl
    | cons p l ih =>
      intro acc hl
      obtain ⟨hne, hid⟩ := hl p List.mem_cons_self
      simp only [List.map_cons, List.foldl_cons, foldMeta_items acc p.2 p.1 hne hid]
      exact ih _ (fun q hq => hl q (List.mem_cons_of_mem _ hq))
  have hall : ∀ p ∈ d.items, p.1 ≠ "" ∧ p.2.get? "id" = some (.str p.1) := by
    intro p hp
    exact h p.1 p.2 ((Dict.get?_eq_some_iff d p.1 p.2).mpr hp)
  rw [folded, Dict.values, hpairs d.items .empty hall]
  exact Dict.ofList_items d

/-- The row under `mid` is a closed moment. -/
def ClosedAs (d : Dict String Row) (mid : String) (row : Row) : Prop :=
  d.get? mid = some row ∧ ended row = true

/-- The row appended last opened a moment the rows before it do not know. -/
def OpenedLast (w : Written) : Prop := ∀ kvs ∈ w.last, ∃ mid row, kvs = Dict.items row ∧
  mid ≠ "" ∧ row.get? "id" = some (.str mid) ∧ (folded w.kept).get? mid = none ∧ ended row = false

theorem folded_last {w : Written} {kvs : List (String × Json)} (h : w.last = some kvs) :
    folded w.rows = foldMeta (folded w.kept) kvs := by
  rw [Written.rows, h]
  exact folded_snoc w.kept kvs

/-- What is closed does not stand in the row appended last. -/
theorem closed_kept {w : Written} (h : OpenedLast w) {mid : String} {row : Row}
    (hc : ClosedAs (folded w.rows) mid row) : ClosedAs (folded w.kept) mid row := by
  cases hlast : w.last with
  | none =>
    have hrows : w.rows = w.kept := by simp [Written.rows, hlast]
    rwa [hrows] at hc
  | some kvs =>
    obtain ⟨own, opened, rfl, hne, hid, -, hopen⟩ := h kvs hlast
    obtain ⟨hget, hended⟩ := hc
    rw [folded_last hlast, foldMeta_items _ opened own hne hid, Dict.get?_set] at hget
    by_cases hm : own = mid
    · rw [if_pos hm] at hget
      obtain rfl := Option.some.inj hget
      rw [hopen] at hended
      cases hended
    · rw [if_neg hm] at hget
      exact ⟨hget, hended⟩

theorem closed_cut {w : Written} (h : OpenedLast w) (k : Nat) {mid : String} {row : Row}
    (hc : ClosedAs (folded w.rows) mid row) : ClosedAs (folded (w.cut k).rows) mid row := by
  have hkept := closed_kept h hc
  cases hlast : w.last with
  | none =>
    have hsame : (w.cut k).rows = w.rows := by simp [Written.cut, Written.rows, hlast]
    rwa [hsame]
  | some kvs =>
    by_cases hk : (encodeUtf8 (dumps (.obj kvs))).size ≤ k
    · have hsame : (w.cut k).rows = w.rows := by
        unfold Written.cut Written.rows
        rw [hlast, Option.filter_some, if_pos (decide_eq_true hk)]
      rwa [hsame]
    · have hgone : (w.cut k).rows = w.kept := by
        unfold Written.cut Written.rows
        rw [hlast, Option.filter_some, if_neg (fun hd => hk (of_decide_eq_true hd))]
        exact List.append_nil w.kept
      rwa [hgone]

theorem openedLast_cut {w : Written} (h : OpenedLast w) (k : Nat) : OpenedLast (w.cut k) := by
  intro kvs hkvs
  obtain ⟨hlast, -⟩ := Option.mem_filter_iff.mp hkvs
  exact h kvs hlast

theorem openedLast_replaced (rows : List (List (String × Json))) :
    OpenedLast (.replaced rows) := by
  intro kvs h
  cases h

section Recover

variable (now : String)

theorem get?_orKeep (row : Row) {key k : String} (v : Option Json) (h : key ≠ k) :
    (orKeep row key v).get? k = row.get? k := by
  cases v with
  | none => rfl
  | some v => exact Dict.get?_set_ne row v h

theorem get?_setDefault (row : Row) {key k : String} (v : Json) (h : key ≠ k) :
    (setDefault row key v).get? k = row.get? k := by
  unfold setDefault
  split_ifs
  · rfl
  · exact Dict.get?_set_ne row v h

theorem ended_closedMeta (row : Row) (reason : String) (hopCount : Option Int)
    (skillsUsed : Option (List String)) :
    ended (closedMeta row now reason hopCount skillsUsed) = true := by
  have hended : (closedMeta row now reason hopCount skillsUsed).get? "ended_at" =
      some (.str now) := by
    unfold closedMeta
    rw [get?_setDefault _ _ (by decide), get?_orKeep _ _ (by decide), get?_orKeep _ _ (by decide),
      Dict.get?_set_ne _ _ (by decide), Dict.get?_set_self]
  unfold ended
  rw [hended]

theorem id_closedMeta (row : Row) (reason : String) (hopCount : Option Int)
    (skillsUsed : Option (List String)) :
    (closedMeta row now reason hopCount skillsUsed).get? "id" = row.get? "id" := by
  unfold closedMeta
  rw [get?_setDefault _ _ (by decide), get?_orKeep _ _ (by decide), get?_orKeep _ _ (by decide),
    Dict.get?_set_ne _ _ (by decide), Dict.get?_set_ne _ _ (by decide)]

theorem Keyed.close {d : Dict String Row} (h : Keyed d) {mid : String} {row : Row}
    (hget : d.get? mid = some row) (reason : String) (hopCount : Option Int)
    (skillsUsed : Option (List String)) :
    Keyed (d.set mid (closedMeta row now reason hopCount skillsUsed)) := by
  intro k r hk
  rw [Dict.get?_set] at hk
  by_cases hm : mid = k
  · rw [if_pos hm] at hk
    obtain rfl := Option.some.inj hk
    obtain ⟨hne, hid⟩ := h mid row hget
    rw [id_closedMeta]
    exact ⟨hm ▸ hne, hm ▸ hid⟩
  · rw [if_neg hm] at hk
    exact h k r hk

/-- The loop closes what is open among its items, and touches nothing else. -/
theorem recoverItems_get? (d : Dict String Row) (items : List (String × Row))
    (hnodup : (items.map Prod.fst).Nodup) (k : String) :
    (recoverItems now d items).2.get? k =
      match Dict.findItem items k with
      | some row => if ended row then d.get? k
        else some (closedMeta row now "interrupted" none none)
      | none => d.get? k := by
  induction items generalizing d with
  | nil => rfl
  | cons p items ih =>
    obtain ⟨mid, row⟩ := p
    obtain ⟨hfresh, hrest⟩ := List.nodup_cons.mp hnodup
    have hnone : Dict.findItem items mid = none := by
      rw [← Option.not_isSome_iff_eq_none, Option.isSome_iff_exists]
      rintro ⟨v, hv⟩
      have hmem := (Dict.findItem_eq_some_iff items hrest mid v).mp hv
      exact hfresh (List.mem_map.mpr ⟨(mid, v), hmem, rfl⟩)
    unfold recoverItems Dict.findItem
    by_cases hk : mid = k
    · subst hk
      rw [if_pos rfl]
      by_cases hended : ended row = true
      · rw [if_pos hended, ih d hrest, hnone]
        simp [hended]
      · rw [if_neg hended]
        show (recoverItems now _ items).2.get? mid = _
        rw [ih _ hrest, hnone]
        simp [hended]
    · rw [if_neg hk]
      by_cases hended : ended row = true
      · rw [if_pos hended]
        exact ih d hrest
      · rw [if_neg hended]
        show (recoverItems now _ items).2.get? k = _
        rw [ih _ hrest, Dict.get?_set_ne _ _ hk]

theorem recoverItems_keyed (d : Dict String Row) (items : List (String × Row))
    (hitems : ∀ p ∈ items, p.1 ≠ "" ∧ p.2.get? "id" = some (.str p.1)) (h : Keyed d) :
    Keyed (recoverItems now d items).2 := by
  induction items generalizing d with
  | nil => exact h
  | cons p items ih =>
    obtain ⟨mid, row⟩ := p
    have hrest : ∀ p ∈ items, p.1 ≠ "" ∧ p.2.get? "id" = some (.str p.1) :=
      fun q hq => hitems q (List.mem_cons_of_mem _ hq)
    obtain ⟨hne, hid⟩ := hitems (mid, row) List.mem_cons_self
    unfold recoverItems
    split_ifs with hended
    · exact ih d hrest h
    · apply ih _ hrest
      intro k r hk
      rw [Dict.get?_set] at hk
      by_cases hm : mid = k
      · rw [if_pos hm] at hk
        obtain rfl := Option.some.inj hk
        rw [id_closedMeta]
        exact ⟨hm ▸ hne, hm ▸ hid⟩
      · rw [if_neg hm] at hk
        exact h k r hk

theorem recoverItems_nil (d : Dict String Row) (items : List (String × Row))
    (h : (recoverItems now d items).1 = []) : ∀ p ∈ items, ended p.2 = true := by
  induction items generalizing d with
  | nil => simp
  | cons p items ih =>
    obtain ⟨mid, row⟩ := p
    unfold recoverItems at h
    by_cases hended : ended row = true
    · rw [if_pos hended] at h
      intro q hq
      obtain rfl | hq := List.mem_cons.mp hq
      · exact hended
      · exact ih d h q hq
    · rw [if_neg hended] at h
      cases h

/-- The index a recovery writes. -/
def recovered (d : Dict String Row) : Dict String Row := (recoverItems now d d.items).2

theorem recovered_get? (d : Dict String Row) (k : String) :
    (recovered now d).get? k = (d.get? k).map (fun row => if ended row then row
      else closedMeta row now "interrupted" none none) := by
  have h := recoverItems_get? now d d.items d.nodup k
  rw [recovered, h]
  show (match d.get? k with
    | some row => if ended row then d.get? k
      else some (closedMeta row now "interrupted" none none)
    | none => d.get? k) = _
  cases d.get? k with
  | none => rfl
  | some row =>
    simp only [Option.map_some]
    split_ifs <;> rfl

theorem recovered_ended (d : Dict String Row) (k : String) (row : Row)
    (h : (recovered now d).get? k = some row) : ended row = true := by
  rw [recovered_get?] at h
  obtain ⟨before, -, rfl⟩ := Option.map_eq_some_iff.mp h
  split_ifs with hended
  · exact hended
  · exact ended_closedMeta now before "interrupted" none none

theorem keyed_recovered {d : Dict String Row} (h : Keyed d) : Keyed (recovered now d) :=
  recoverItems_keyed now d d.items
    (fun p hp => h p.1 p.2 ((Dict.get?_eq_some_iff d p.1 p.2).mpr hp)) h

end Recover

/-- What an event does to the index. -/
inductive Touches (t t' : Moments Written) : Prop where
  | same (h : t' .index = t .index)
  | opened (mid : String) (row : Row) (hne : mid ≠ "") (hid : row.get? "id" = some (.str mid))
      (hnew : (byId t).get? mid = none) (hopen : ended row = false)
      (h : t' .index = (t .index).append row.items)
  | rewritten (d : Dict String Row) (hkeyed : Keyed d)
      (hclosed : ∀ mid row, ClosedAs (byId t) mid row → ClosedAs d mid row)
      (h : t' .index = .replaced (d.values.map Dict.items))
  | cut (k : Nat) (h : t' .index = (t .index).cut k)

/-- A closed moment stays as it is. -/
theorem Touches.closed {t t' : Moments Written} (h : Touches t t') (hlast : OpenedLast (t .index))
    {mid : String} {row : Row} (hc : ClosedAs (byId t) mid row) : ClosedAs (byId t') mid row := by
  cases h with
  | same h =>
    rw [byId, h]
    exact hc
  | opened own opened hne hid hnew hopen h =>
    have hfold : byId t' = (byId t).set own opened := by
      rw [byId, h, Written.rows_append, folded_snoc, foldMeta_items _ opened own hne hid]
      rfl
    have hm : own ≠ mid := by
      rintro rfl
      rw [hc.1] at hnew
      cases hnew
    refine ⟨?_, hc.2⟩
    rw [hfold, Dict.get?_set_ne _ _ hm]
    exact hc.1
  | rewritten d hkeyed hclosed h =>
    have hfold : byId t' = d := by
      rw [byId, h, Written.rows_replaced, folded_values d hkeyed]
    rw [hfold]
    exact hclosed mid row hc
  | cut k h =>
    rw [byId, h]
    exact closed_cut hlast k hc

theorem Touches.openedLast {t t' : Moments Written} (h : Touches t t')
    (hlast : OpenedLast (t .index)) : OpenedLast (t' .index) := by
  cases h with
  | same h =>
    rw [h]
    exact hlast
  | opened mid row hne hid hnew hopen h =>
    rw [h]
    intro kvs hkvs
    obtain rfl := Option.some.inj hkvs
    exact ⟨mid, row, rfl, hne, hid, hnew, hopen⟩
  | rewritten d hkeyed hclosed h =>
    rw [h]
    exact openedLast_replaced _
  | cut k h =>
    rw [h]
    exact openedLast_cut hlast k

end Elyra.Moment
