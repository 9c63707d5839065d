import Elyra.Presence.TimerService

namespace Elyra.Presence

open Json

/-- What a restart sees of a row's firing. -/
abbrev Mark := Status × Option String

namespace Row

def mark {n : SnapshotName} (r : Row n) : Mark := (r.status, r.wakeId)

/-- A row after it was written and read: a wait of nobody is the operator's. -/
def reread : {n : SnapshotName} → Row n → Row n
  | .timers, t => t
  | .waits, w => { (w : PendingWait) with
      userId := if PendingWait.userId w = "" then "operator" else PendingWait.userId w }

@[simp] theorem id_reread {n : SnapshotName} (r : Row n) : r.reread.id = r.id := by
  cases n <;> rfl

@[simp] theorem mark_reread {n : SnapshotName} (r : Row n) : r.reread.mark = r.mark := by
  cases n <;> rfl

theorem strOr_text [PyCoerce] (s default : String) :
    strOr (some (.str s)) default = if s = "" then default else s := by
  by_cases h : s = ""
  · rw [if_pos h, h]
    rfl
  · rw [if_neg h]
    exact strOr_str s default (.inl h)

theorem readTimeout_toDict [PyFloat] (timeout : Option FloatLit) :
    readTimeout (some (match timeout with | none => .null | some x => .float x)) = .ok timeout := by
  cases timeout <;> rfl

theorem readChoices_toDict [PyCoerce] (choices : List String) :
    readChoices (some (.arr (choices.map Json.str))) = .ok choices := by
  unfold readChoices
  cases choices with
  | nil => rfl
  | cons c rest => simp [truthy, Function.comp_def]

theorem fromDict_toDict [PyCoerce] [PyFloat] {n : SnapshotName} (r : Row n) (hid : r.id ≠ "")
    (hstatus : r.status ∈ Status.known) : fromDict n r.toDict = .ok r.reread := by
  have htext : r.status.text ≠ "" := Status.text_ne_empty _ hstatus
  have hof : Status.ofText r.status.text = r.status := Status.ofText_text _ hstatus
  have blank (s : String) : (if s = "" then "" else s) = s := by
    by_cases h : s = ""
    · rw [if_pos h, h]
    · rw [if_neg h]
  cases n with
  | timers =>
    obtain ⟨id, wakeAt, reason, goalId, taskId, status, wakeId⟩ := r
    show PendingTimer.fromDict (PendingTimer.toDict _) = _
    simp only [Row.status] at htext hof
    simp [PendingTimer.fromDict, PendingTimer.toDict, lookup, strOr_text, htext, hof, blank, reread]
    rfl
  | waits =>
    obtain ⟨id, prompt, choices, userId, momentId, expiresAt, timeout, armedAt, status, wakeId⟩ := r
    have hne : id ≠ "" := hid
    show PendingWait.fromDict (PendingWait.toDict _) = _
    simp only [Row.status] at htext hof
    have hread : readChoices (lookup (PendingWait.toDict ⟨id, prompt, choices, userId, momentId,
        expiresAt, timeout, armedAt, status, wakeId⟩) "choices") = .ok choices :=
      readChoices_toDict choices
    have htimeout : readTimeout (lookup (PendingWait.toDict ⟨id, prompt, choices, userId, momentId,
        expiresAt, timeout, armedAt, status, wakeId⟩) "timeout") = .ok timeout :=
      readTimeout_toDict timeout
    rw [PendingWait.fromDict, hread, htimeout]
    have hnone : strOr none "" = "" := rfl
    simp [PendingWait.toDict, lookup, strOr_text, htext, hof, hne, hnone, blank, reread]
    rfl
end Row

namespace TimerService

/-- Rows stand under their ids, and with a status of the service. -/
structure Keyed {n : SnapshotName} (d : Dict String (Row n)) : Prop where
  id : ∀ k r, d.get? k = some r → r.id = k
  filled : ∀ k r, d.get? k = some r → k ≠ ""
  status : ∀ k r, d.get? k = some r → r.status ∈ Status.known

theorem keyed_empty {n : SnapshotName} : Keyed (.empty : Dict String (Row n)) := by
  refine ⟨?_, ?_, ?_⟩ <;> intro k r h <;> cases h

theorem Keyed.set {n : SnapshotName} {d : Dict String (Row n)} (h : Keyed d) {r : Row n}
    {k : String} (hid : r.id = k) (hfilled : k ≠ "") (hstatus : r.status ∈ Status.known) :
    Keyed (d.set k r) := by
  have entry (x : String) (q : Row n) (hq : (d.set k r).get? x = some q) :
      k = x ∧ q = r ∨ d.get? x = some q := by
    rw [Dict.get?_set] at hq
    split_ifs at hq with hx
    · cases hq
      exact .inl ⟨hx, rfl⟩
    · exact .inr hq
  refine ⟨?_, ?_, ?_⟩
  · intro x q hq
    obtain ⟨rfl, rfl⟩ | hold := entry x q hq
    · exact hid
    · exact h.id x q hold
  · intro x q hq
    obtain ⟨rfl, rfl⟩ | hold := entry x q hq
    · exact hfilled
    · exact h.filled x q hold
  · intro x q hq
    obtain ⟨rfl, rfl⟩ | hold := entry x q hq
    · exact hstatus
    · exact h.status x q hold

theorem Keyed.mem_values {n : SnapshotName} {d : Dict String (Row n)} (h : Keyed d) {r : Row n}
    (hr : r ∈ d.values) : d.get? r.id = some r := by
  obtain ⟨k, hk⟩ := (Dict.mem_values d r).mp hr
  rw [h.id k r hk]
  exact hk

theorem Keyed.ids {n : SnapshotName} {d : Dict String (Row n)} (h : Keyed d) :
    (d.values.map Row.id).Nodup := by
  have hkeys : d.values.map Row.id = d.keys := by
    rw [Dict.values, Dict.keys, List.map_map]
    apply List.map_congr_left
    intro p hp
    exact h.id p.1 p.2 ((Dict.get?_eq_some_iff d p.1 p.2).mpr hp)
  rw [hkeys]
  exact d.keys_nodup

theorem mapM_ok {α β : Type} {f : α → Except PyErr β} {g : α → β} (l : List α)
    (h : ∀ x ∈ l, f x = .ok (g x)) : l.mapM f = .ok (l.map g) := by
  induction l with
  | nil => rfl
  | cons x rest ih =>
    rw [List.mapM_cons, h x (List.mem_cons_self), ih fun y hy => h y (List.mem_cons_of_mem x hy)]
    rfl

/-- What was written is read back, row by row. -/
theorem loadRows_dumpRows [PyCoerce] [PyFloat] {n : SnapshotName} {d : Dict String (Row n)}
    (h : Keyed d) : ∃ e, loadRows n (dumpRows d) = .ok e ∧ Keyed e ∧
      ∀ k, e.get? k = (d.get? k).map Row.reread := by
  let written := d.values.insertionSort Row.keyLe
  have hmem (r : Row n) : r ∈ written ↔ r ∈ d.values := List.mem_insertionSort _
  have hread : (dumpRows d).mapM (Row.fromDict n) = .ok (written.map Row.reread) := by
    rw [dumpRows, List.mapM_map]
    apply mapM_ok
    intro r hr
    have hget := h.mem_values ((hmem r).mp hr)
    exact Row.fromDict_toDict r (h.filled _ r hget) (h.status _ r hget)
  let pairs := (written.map Row.reread).map fun r => (r.id, r)
  have hpairs : (pairs.map Prod.fst).Nodup := by
    have heq : pairs.map Prod.fst = written.map Row.id := by
      simp [pairs, Function.comp_def]
    rw [heq]
    have hperm := ((List.perm_insertionSort Row.keyLe d.values).map Row.id)
    exact hperm.nodup_iff.mpr h.ids
  have hget (k : String) : (Dict.ofList pairs).get? k = (d.get? k).map Row.reread := by
    rw [Dict.get?_ofList pairs hpairs]
    apply Option.ext
    intro q
    rw [Dict.findItem_eq_some_iff pairs hpairs, Option.map_eq_some_iff]
    simp only [pairs, List.mem_map, Prod.mk.injEq, exists_exists_and_eq_and]
    constructor
    · rintro ⟨r, hr, hk, rfl⟩
      refine ⟨r, ?_, rfl⟩
      rw [Row.id_reread] at hk
      rw [← hk]
      exact h.mem_values ((hmem r).mp hr)
    · rintro ⟨r, hr, rfl⟩
      refine ⟨r, (hmem r).mpr ((Dict.mem_values d r).mpr ⟨k, hr⟩), ?_, rfl⟩
      rw [Row.id_reread]
      exact h.id k r hr
  refine ⟨Dict.ofList pairs, ?_, ?_, hget⟩
  · rw [loadRows, hread]
    rfl
  · have back (k : String) (q : Row n) (hq : (Dict.ofList pairs).get? k = some q) :
        ∃ r, d.get? k = some r ∧ r.reread = q := by
      rw [hget, Option.map_eq_some_iff] at hq
      exact hq
    refine ⟨?_, ?_, ?_⟩
    · intro k q hq
      obtain ⟨r, hr, rfl⟩ := back k q hq
      rw [Row.id_reread]
      exact h.id k r hr
    · intro k q hq
      obtain ⟨r, hr, rfl⟩ := back k q hq
      exact h.filled k r hr
    · intro k q hq
      obtain ⟨r, hr, rfl⟩ := back k q hq
      have hmark := congrArg Prod.fst (Row.mark_reread r)
      rw [show r.reread.status = r.status from hmark]
      exact h.status k r hr

end TimerService
end Elyra.Presence
