import Elyra.Presence.TimerWrites

namespace Elyra.Presence

open Json

namespace TimerService

/-- The maps and the snapshots are as before. -/
structure Kept (s t : TimerService) : Prop where
  rows : ∀ n, t.rows n = s.rows n
  file : ∀ n, t.file n = s.file n

theorem Kept.trans {s t u : TimerService} (h : Kept s t) (k : Kept t u) : Kept s u :=
  ⟨fun n => (k.rows n).trans (h.rows n), fun n => (k.file n).trans (h.file n)⟩

/-- A draw, and what else it leaves. -/
structure Drawn (s t : TimerService) : Prop extends Kept s t where
  log : t.log = s.log
  draws : t.draws = s.draws + 1

theorem used_congr {p q : Persisted} (hmarks : q.marks = p.marks) (hlog : q.log = p.log)
    (id : String) : q.Used id ↔ p.Used id := by
  unfold Persisted.Used Persisted.enqueued
  rw [hmarks, hlog]

/-- A wake names the row it fires for. -/
theorem payload_names [PyFloat] {n : SnapshotName} (r : Row n) {now : Instant} {payload : Payload}
    (h : r.payload now = .ok payload) : payload.get? n.idKey = some (.str r.id) := by
  cases n with
  | timers =>
    cases h
    show (timerPayload r).get? "timer_id" = _
    unfold timerPayload
    have hid (p : Payload) (key : String) (v : Json) (hkey : key ≠ "timer_id") :
        (p.set key v).get? "timer_id" = p.get? "timer_id" := Dict.get?_set_ne p v hkey
    have hbase : (Dict.ofList [("wake_at", Json.str (PendingTimer.wakeAt r)),
        ("reason", .str (PendingTimer.reason r)),
        ("timer_id", .str (PendingTimer.id r))] : Payload).get? "timer_id" =
          some (.str (PendingTimer.id r)) := rfl
    split_ifs
    · exact hbase
    · rw [hid _ _ _ (by decide)]
      exact hbase
    · rw [hid _ _ _ (by decide)]
      exact hbase
    · rw [hid _ _ _ (by decide), hid _ _ _ (by decide)]
      exact hbase
  | waits =>
    change waitTimeoutPayload r now = .ok payload at h
    unfold waitTimeoutPayload at h
    cases helapsed : waitElapsed r now with
    | error e =>
      rw [helapsed] at h
      cases h
    | ok elapsed =>
      rw [helapsed] at h
      cases h
      cases elapsed with
      | none => rfl
      | some seconds =>
        show (Dict.set _ "wait_elapsed_s" _).get? "wait_id" = _
        rw [Dict.get?_set_ne _ _ (by decide)]
        rfl

section Specs

variable [PyCoerce] [PyFloat] {env : Env} {f : Frame}

theorem Kept.marks {s t : TimerService} (h : Kept s t) : t.persisted.marks = s.persisted.marks := by
  funext n k
  simp only [persisted, h.file]

theorem Kept.persisted {s t : TimerService} (h : Kept s t) :
    t.persisted = ⟨s.persisted.marks, t.log, t.draws⟩ := by
  rw [← h.marks]
  rfl

theorem Kept.live (hf : f.Sound env) {s t : TimerService} (h : Serving env f s) (hk : Kept s t)
    (he : Effect env f.allowed f.ends s.persisted t.persisted) : Serving env f t := by
  refine ⟨h.toReached.effect hf ?_ he, ?_, ?_⟩
  · intro n
    rw [hk.file]
    exact h.loadable n
  · intro n
    rw [hk.rows]
    exact h.keyed n
  · intro n k
    rw [hk.rows, hk.marks]
    exact h.agrees n k

theorem draw_triple (hf : f.Sound env) {s : TimerService} (h : Serving env f s)
    (source : Nat → String) :
    Triple (· = s) (draw source) (fun x t => x = source s.draws ∧ Drawn s t ∧ Serving env f t)
      (Broken env f) := by
  rintro u rfl
  have hdrawn : Drawn u.disk { u.disk with draws := u.disk.draws + 1 } :=
    ⟨⟨fun n => by cases n <;> rfl, fun n => by cases n <;> rfl⟩, rfl, rfl⟩
  refine ⟨rfl, hdrawn, hdrawn.toKept.live hf h ?_⟩
  rw [hdrawn.persisted]
  exact .draw

/-- The next draw of `uuid4` is an id that nothing bears. -/
theorem unused_drawn (hu : UuidDraws env) {s t : TimerService} (h : Serving env f s)
    (hd : Drawn s t) : t.persisted.Unused env (env.uuid4 s.draws) := by
  refine ⟨⟨s.draws, ?_, rfl⟩, ?_⟩
  · show s.draws < t.draws
    rw [hd.draws]
    exact Nat.lt_succ_self _
  · rw [used_congr hd.marks hd.log]
    intro hused
    obtain ⟨i, hi, heq⟩ := h.sane.drawn _ hused
    have hlt : i < s.draws := hi
    rw [hu.injective heq] at hlt
    exact lt_irrefl _ hlt

/-- A wake of the id is appended, and nothing else changes. -/
structure Appended (kind : WakeKind) (payload : Payload) (s : TimerService) (item : WakeItem)
    (t : TimerService) : Prop extends Kept s t where
  kind : item.kind = kind
  payload : item.payload = payload
  log : ∃ ts, t.log = s.log ++ [.enqueue ts item]

theorem Appended.enqueued {kind : WakeKind} {payload : Payload} {s t : TimerService}
    {item : WakeItem} (h : Appended kind payload s item t) :
    t.persisted.enqueued = s.persisted.enqueued ++ [item.id] := by
  obtain ⟨ts, hlog⟩ := h.log
  show (t.log.filterMap enqueuedItem).map WakeItem.id = _
  rw [hlog]
  exact Persisted.enqueued_append s.persisted ts item

/-- The write of a wake is an effect, whatever its times. -/
def Appendable (env : Env) (f : Frame) (kind : WakeKind) (payload : Payload) (id : String)
    (s : TimerService) : Prop :=
  ∀ (p : Persisted) (ts : String) (item : WakeItem), p.marks = s.persisted.marks →
    p.log = s.log → s.draws ≤ p.draws → item.id = id → item.kind = kind →
    item.payload = payload → Effect env f.allowed f.ends p (p.append (.enqueue ts item))

theorem appendWake_triple (hf : f.Sound env) {s : TimerService} (h : Serving env f s)
    {kind : WakeKind} {payload : Payload} {id : String} (hnew : id ∉ s.persisted.enqueued)
    (he : Appendable env f kind payload id s) :
    Triple (· = s) (appendWake env kind payload id)
      (fun item t => item.id = id ∧ Appended kind payload s item t ∧ Serving env f t)
      (Broken env f) := by
  apply triple_bind (draw_triple hf h env.nowIso)
  intro created
  apply triple_each
  rintro s₁ ⟨-, hd₁, h₁⟩
  apply triple_bind (draw_triple hf h₁ env.nowIso)
  intro ts
  apply triple_each
  rintro s₂ ⟨-, hd₂, h₂⟩
  apply triple_look_bind
  rintro d rfl
  have hkept : Kept s d := hd₁.toKept.trans hd₂.toKept
  have hlog : d.log = s.log := hd₂.log.trans hd₁.log
  have hdead : lifeOf d.log id = none := by
    rw [← Option.not_isSome_iff_eq_none, lifeOf_isSome, hlog]
    exact hnew
  simp only [hdead, Option.map_none, isLive, Option.filter_none]
  let item : WakeItem := ⟨id, kind, kind.priority, created, payload, rfl⟩
  have happend (u : TimerService) (hu : u = { d with log := d.log ++ [.enqueue ts item] }) :
      Appended kind payload s item u ∧ Serving env f u := by
    have hrest : Kept d u := by
      rw [hu]
      exact ⟨fun n => by cases n <;> rfl, fun n => by cases n <;> rfl⟩
    refine ⟨⟨hkept.trans hrest, rfl, rfl, ts, by rw [hu, ← hlog]⟩, hrest.live hf h₂ ?_⟩
    have hpersisted : u.persisted = d.persisted.append (.enqueue ts item) := by
      rw [hrest.persisted, hu]
      rfl
    rw [hpersisted]
    apply he d.persisted ts item hkept.marks hlog _ rfl rfl rfl
    show s.draws ≤ d.draws
    rw [hd₂.draws, hd₁.draws]
    omega
  apply triple_bind (Q := fun _ u => u = { d with log := d.log ++ [.enqueue ts item] })
  · apply triple_operation
    · rintro u rfl
      rfl
    · exact fun _ hd => hd ▸ h₂.broken _
    · exact fun _ hd => hd ▸ h₂.broken _
  · intro _
    apply triple_pure
    intro u hu
    exact ⟨rfl, happend u hu⟩

/-- A wake under a given id. -/
theorem enqueue_given_triple (hf : f.Sound env) {s : TimerService} (h : Serving env f s)
    {kind : WakeKind} {payload : Payload} {id : String} (hid : id ≠ "")
    (hnew : id ∉ s.persisted.enqueued) (he : Appendable env f kind payload id s) :
    Triple (· = s) (enqueue env kind payload (some id))
      (fun item t => item.id = id ∧ Appended kind payload s item t ∧ Serving env f t)
      (Broken env f) := by
  apply triple_bind (Q := fun x t => x = id ∧ t = s)
  · unfold orDrawn
    simp only [if_neg hid]
    exact triple_pure _ fun _ hd => ⟨rfl, hd⟩
  · rintro x
    apply triple_each
    rintro d ⟨rfl, rfl⟩
    exact appendWake_triple hf h hnew he

/-- A wake under a new id. -/
theorem enqueue_new_triple (hf : f.Sound env) (hu : UuidDraws env) {s : TimerService}
    (h : Serving env f s) {kind : WakeKind} {payload : Payload}
    (he : ∀ id t, Kept s t → t.log = s.log → s.draws ≤ t.draws →
      (∀ p : Persisted, p.marks = t.persisted.marks → p.log = t.log → t.draws ≤ p.draws →
        p.Unused env id) → Appendable env f kind payload id t) :
    Triple (· = s) (enqueue env kind payload none)
      (fun item t => Appended kind payload s item t ∧ Serving env f t) (Broken env f) := by
  apply triple_bind (draw_triple hf h env.uuid4)
  intro id
  apply triple_each
  rintro t ⟨rfl, hd, ht⟩
  have hunused := unused_drawn hu h hd
  have hnew : env.uuid4 s.draws ∉ t.persisted.enqueued := fun hm => hunused.unused (.inl hm)
  have hstill (p : Persisted) (hmarks : p.marks = t.persisted.marks) (hlog : p.log = t.log)
      (hdraws : t.draws ≤ p.draws) : p.Unused env (env.uuid4 s.draws) := by
    obtain ⟨i, hi, heq⟩ := hunused.drawn
    refine ⟨⟨i, hi.trans_le hdraws, heq⟩, ?_⟩
    rw [used_congr hmarks hlog]
    exact hunused.unused
  have happendable := he _ t hd.toKept hd.log (by rw [hd.draws]; omega) hstill
  apply (appendWake_triple hf ht hnew happendable).weaken
  · exact fun _ hu => hu
  · rintro item u ⟨-, happended, hlive⟩
    refine ⟨⟨hd.toKept.trans happended.toKept, happended.kind, happended.payload, ?_⟩, hlive⟩
    obtain ⟨ts, hlog⟩ := happended.log
    exact ⟨ts, by rw [hlog, hd.log]⟩
  · exact fun _ _ hbroken => hbroken

/-- Every fired row has its wake in the log. -/
def AllSent (p : Persisted) (n : SnapshotName) : Prop :=
  ∀ k id, p.marks n k = some (n.closed, some id) → id ∈ p.enqueued

/-- The rows are fired and their wakes sent; the others stay. -/
structure Fired {n : SnapshotName} (s : TimerService) (fired : List (Row n)) (t : TimerService) :
    Prop where
  rows : ∀ k, k ∉ fired.map Row.id → (t.rows n).get? k = (s.rows n).get? k
  closed : ∀ k ∈ fired.map Row.id, ∀ q, (t.rows n).get? k = some q → q.status = n.closed
  others : ∀ m, m ≠ n → t.rows m = s.rows m
  sent : ∀ m, AllSent s.persisted m → AllSent t.persisted m

theorem fire_triple (hf : f.Sound env) (hu : UuidDraws env) {n : SnapshotName}
    {s : TimerService} (h : Serving env f s) {now : Instant} {r : Row n}
    (hr : (s.rows n).get? r.id = some r) (hopened : r.status = n.opened) :
    Triple (· = s) (fire env now r) (fun _ t => Serving env f t ∧ Fired s [r] t)
      (Broken env f) := by
  apply triple_bind (draw_triple hf h env.uuid4)
  intro wakeId
  apply triple_each
  rintro s₁ ⟨rfl, hd, h₁⟩
  have hr₁ : (s₁.rows n).get? r.id = some r := by
    rw [hd.rows]
    exact hr
  have hunused := unused_drawn hu h hd
  have hmark : s₁.persisted.marks n r.id = some (n.opened, r.wakeId) := by
    rw [← h₁.agrees n r.id, hr₁, ← hopened]
    rfl
  let fired := (r.setStatus n.closed).setWakeId (some (env.uuid4 s.draws))
  have hid : fired.id = r.id := by simp [fired]
  have hfiredMark : fired.mark = (n.closed, some (env.uuid4 s.draws)) := by simp [fired]
  have hstatus : fired.status = n.closed := congrArg Prod.fst hfiredMark
  have hfire : Effect env f.allowed f.ends s₁.persisted
      (s₁.persisted.setMark n r.id fired.mark) := by
    rw [hfiredMark]
    exact .fire n r.id r.wakeId _ hmark hunused
  have hknown : fired.status ∈ Status.known := by
    rw [hstatus]
    cases n <;> decide
  apply triple_bind (changeRow_triple hf h₁ hr₁ hid hknown hfire)
  intro _
  apply triple_each
  rintro s₂ ⟨h₂, hw⟩
  have hw' : s₂.persisted = s₁.persisted.setMark n r.id fired.mark := by rw [hw.persisted, hid]
  apply triple_bind (Q := fun payload t => fired.payload now = .ok payload ∧ t = s₂)
  · apply triple_attempt
    · rintro payload d hok rfl
      exact ⟨hok, rfl⟩
    · rintro e d rfl
      exact h₂.broken _
  intro payload
  apply triple_each
  rintro d ⟨hpayload, rfl⟩
  have hnew : env.uuid4 s.draws ∉ d.persisted.enqueued := by
    rw [hw', Persisted.enqueued_setMark]
    exact fun hm => hunused.unused (.inl hm)
  have happendable : Appendable env f n.wakeKind payload (env.uuid4 s.draws) d := by
    intro p ts item hmarks hlog hdraws hitem hkind hpay
    refine .send n r.id ts item ?_ ?_ hkind ?_
    · rw [hmarks, hw', Persisted.marks_setMark, if_pos ⟨rfl, rfl⟩, hitem, hfiredMark]
    · rw [hitem]
      unfold Persisted.enqueued at hnew ⊢
      rw [hlog]
      exact hnew
    · rw [hpay, ← hid]
      exact payload_names fired hpayload
  apply triple_bind (enqueue_given_triple hf h₂ (hu.filled _) hnew happendable)
  intro item
  apply triple_pure
  rintro t ⟨hitem, happended, ht⟩
  refine ⟨ht, ?_, ?_, ?_, ?_⟩
  · intro k hk
    rw [List.map_singleton, List.mem_singleton] at hk
    rw [happended.rows, hw.rows, hd.rows, Dict.get?_set_ne]
    rw [hid]
    exact Ne.symm hk
  · intro k hk q hq
    rw [List.map_singleton, List.mem_singleton] at hk
    rw [hk, happended.rows, hw.rows, hid, Dict.get?_set_self] at hq
    cases hq
    exact hstatus
  · intro m hm
    rw [happended.rows, hw.others m hm, hd.rows]
  · intro m hsent k id hk
    rw [happended.enqueued, List.mem_append, List.mem_singleton]
    rw [happended.marks, hw', Persisted.marks_setMark] at hk
    split_ifs at hk with hcase
    · rw [hfiredMark] at hk
      have hsame := (Prod.mk.inj (Option.some.inj hk)).2
      exact .inr ((Option.some.inj hsame).symm.trans hitem.symm)
    · left
      rw [hw', Persisted.enqueued_setMark]
      rw [hd.marks] at hk
      have hold := hsent k id hk
      unfold Persisted.enqueued at hold ⊢
      show id ∈ (s₁.log.filterMap enqueuedItem).map WakeItem.id
      rw [hd.log]
      exact hold

theorem fireEach_triple (hf : f.Sound env) (hu : UuidDraws env) {n : SnapshotName}
    {now : Instant} (due : List (Row n)) {s : TimerService} (h : Serving env f s)
    (hdue : ∀ r ∈ due, (s.rows n).get? r.id = some r ∧ r.status = n.opened)
    (hids : (due.map Row.id).Nodup) :
    Triple (· = s) (fireEach env now due) (fun _ t => Serving env f t ∧ Fired s due t)
      (Broken env f) := by
  induction due generalizing s with
  | nil =>
    apply triple_pure
    rintro d rfl
    exact ⟨h, fun _ _ => rfl, fun k hk => (List.not_mem_nil hk).elim, fun _ _ => rfl,
      fun _ hsent => hsent⟩
  | cons r rest ih =>
    obtain ⟨hr, hopened⟩ := hdue r List.mem_cons_self
    rw [List.map_cons, List.nodup_cons] at hids
    apply triple_bind (fire_triple hf hu h hr hopened)
    intro _
    apply triple_each
    rintro s₁ ⟨h₁, hfired⟩
    have hapart (q : Row n) (hq : q ∈ rest) : q.id ∉ [r].map Row.id := by
      rw [List.map_singleton, List.mem_singleton]
      intro heq
      exact hids.1 (heq ▸ List.mem_map_of_mem hq)
    have hrest : ∀ q ∈ rest, (s₁.rows n).get? q.id = some q ∧ q.status = n.opened := by
      intro q hq
      rw [hfired.rows q.id (hapart q hq)]
      exact hdue q (List.mem_cons_of_mem r hq)
    apply (ih h₁ hrest hids.2).weaken
    · exact fun _ hd => hd
    · rintro _ t ⟨ht, hall⟩
      refine ⟨ht, ?_, ?_, ?_, fun m hsent => hall.sent m (hfired.sent m hsent)⟩
      · intro k hk
        rw [List.map_cons, List.mem_cons, not_or] at hk
        rw [hall.rows k hk.2, hfired.rows k (by simpa using hk.1)]
      · intro k hk q hq
        by_cases hin : k ∈ rest.map Row.id
        · exact hall.closed k hin q hq
        · rw [List.map_cons, List.mem_cons] at hk
          rw [hall.rows k hin] at hq
          exact hfired.closed k (by simpa using hk.resolve_right hin) q hq
      · intro m hm
        rw [hall.others m hm, hfired.others m hm]
    · exact fun _ _ hbroken => hbroken

omit [PyCoerce] [PyFloat] in
theorem collectDue_spec {n : SnapshotName} {now : Instant} {l found : List (Row n)}
    (h : collectDue now l = .ok found) :
    found.Sublist l ∧ (∀ r ∈ found, r.isDue now = .ok true) ∧
      ∀ r ∈ l, r ∉ found → r.isDue now = .ok false := by
  induction l generalizing found with
  | nil =>
    cases h
    exact ⟨.slnil, fun r hr => (List.not_mem_nil hr).elim, fun r hr => (List.not_mem_nil hr).elim⟩
  | cons x rest ih =>
    obtain ⟨due, hx, h⟩ := except_bind_ok h
    obtain ⟨tail, hrest, h⟩ := except_bind_ok h
    cases h
    obtain ⟨hsub, hin, hout⟩ := ih hrest
    cases due with
    | true =>
      refine ⟨hsub.cons_cons x, ?_, ?_⟩
      · intro r hr
        obtain rfl | hr := List.mem_cons.mp hr
        · exact hx
        · exact hin r hr
      · intro r hr hnot
        rw [if_pos rfl, List.mem_cons, not_or] at hnot
        exact hout r ((List.mem_cons.mp hr).resolve_left hnot.1) hnot.2
    | false =>
      refine ⟨hsub.cons x, hin, ?_⟩
      intro r hr hnot
      obtain rfl | hr := List.mem_cons.mp hr
      · exact hx
      · exact hout r hr hnot

omit [PyCoerce] [PyFloat] in
theorem opened_of_due {n : SnapshotName} {r : Row n} {now : Instant} (h : r.isDue now = .ok true) :
    r.status = n.opened := by
  cases n with
  | timers =>
    unfold Row.isDue at h
    dsimp only at h
    split_ifs at h with hstatus
    · exact hstatus
    · cases h
  | waits =>
    unfold Row.isDue at h
    dsimp only at h
    split_ifs at h with hstatus
    · exact hstatus.1
    · cases h

/-- The due rows of one snapshot are fired; no row that is still open is due. -/
structure Polled (n : SnapshotName) (now : Instant) (s t : TimerService) : Prop where
  settled : ∀ k r, (t.rows n).get? k = some r → r.status = n.opened → r.isDue now = .ok false
  others : ∀ m, m ≠ n → t.rows m = s.rows m
  sent : ∀ m, AllSent s.persisted m → AllSent t.persisted m

theorem fireDue_triple (hf : f.Sound env) (hu : UuidDraws env) {n : SnapshotName}
    {now : Instant} {s : TimerService} (h : Serving env f s) :
    Triple (· = s) (fireDue env n now) (fun _ t => Serving env f t ∧ Polled n now s t)
      (Broken env f) := by
  apply triple_look_bind
  rintro d rfl
  apply triple_bind (Q := fun due t => collectDue now (d.rows n).values = .ok due ∧ t = d)
  · apply triple_attempt
    · rintro due u hok rfl
      exact ⟨hok, rfl⟩
    · rintro e u rfl
      exact h.broken _
  intro due
  apply triple_each
  rintro u ⟨hcollect, rfl⟩
  obtain ⟨hsub, hin, hout⟩ := collectDue_spec hcollect
  have hmem (r : Row n) : r ∈ due.insertionSort Row.keyLe ↔ r ∈ due := List.mem_insertionSort _
  have hrows (r : Row n) (hr : r ∈ due) : (u.rows n).get? r.id = some r :=
    (h.keyed n).mem_values (hsub.subset hr)
  have hids : ((due.insertionSort Row.keyLe).map Row.id).Nodup := by
    have hperm := (List.perm_insertionSort Row.keyLe due).map Row.id
    rw [hperm.nodup_iff]
    exact (h.keyed n).ids.sublist (hsub.map Row.id)
  apply (fireEach_triple hf hu _ h ?_ hids).weaken
  · exact fun _ hd => hd
  · rintro _ t ⟨ht, hfired⟩
    refine ⟨ht, ?_, hfired.others, hfired.sent⟩
    intro k r hr hopened
    by_cases hk : k ∈ (due.insertionSort Row.keyLe).map Row.id
    · have hclosed := hfired.closed k hk r hr
      rw [hopened] at hclosed
      exact absurd hclosed.symm (opened_ne_closed n)
    · rw [hfired.rows k hk] at hr
      apply hout r ((Dict.mem_values _ r).mpr ⟨k, hr⟩)
      intro hdue
      apply hk
      rw [← (h.keyed n).id k r hr]
      exact List.mem_map_of_mem ((hmem r).mpr hdue)
  · exact fun _ _ hbroken => hbroken
  · intro r hr
    rw [hmem] at hr
    exact ⟨hrows r hr, opened_of_due (hin r hr)⟩

/-- The orphaned rows get their wakes; the maps stay. -/
structure Reconciled {n : SnapshotName} (s : TimerService) (checked : List (Row n))
    (t : TimerService) : Prop extends Kept s t where
  landed : ∀ r ∈ checked, ∀ id, r.mark = (n.closed, some id) → id ∈ t.persisted.enqueued
  grows : ∀ id ∈ s.persisted.enqueued, id ∈ t.persisted.enqueued

theorem reconcile_triple (hf : f.Sound env) (hu : UuidDraws env) {n : SnapshotName}
    {now : Instant} {s : TimerService} (h : Serving env f s) {r : Row n}
    (hr : (s.rows n).get? r.id = some r) :
    Triple (· = s) (reconcile env now r) (fun _ t => Serving env f t ∧ Reconciled s [r] t)
      (Broken env f) := by
  apply triple_look_bind
  rintro d rfl
  have idle (hnone : ∀ id, r.mark = (n.closed, some id) → id ∈ d.persisted.enqueued) :
      Triple (· = d) (return () : ServiceM Unit)
        (fun _ t => Serving env f t ∧ Reconciled d [r] t) (Broken env f) := by
    apply triple_pure
    rintro u rfl
    refine ⟨h, ⟨fun _ => rfl, fun _ => rfl⟩, ?_, fun _ hid => hid⟩
    intro q hq
    rw [List.mem_singleton.mp hq]
    exact hnone
  have hmark : d.persisted.marks n r.id = some r.mark := by
    rw [← h.agrees n r.id, hr]
    rfl
  cases hwake : r.wakeId with
  | none =>
    apply idle
    intro id hid
    have hnone : r.wakeId = some id := congrArg Prod.snd hid
    rw [hwake] at hnone
    cases hnone
  | some wakeId =>
    have hmarked : r.mark = (r.status, some wakeId) := by
      rw [← hwake]
      rfl
    apply triple_ite
    · intro hskip
      apply idle
      intro id hid
      rw [hmarked] at hid
      obtain ⟨hstatus, hsome⟩ := Prod.mk.inj hid
      cases hsome
      obtain hopen | hempty | hexists := hskip
      · exact absurd hstatus hopen
      · obtain ⟨i, -, heq⟩ := h.sane.drawn wakeId (.inr ⟨n, r.id, r.status, by rw [hmark, hmarked]⟩)
        exact absurd (heq.symm.trans hempty) (hu.filled i)
      · exact (lifeOf_isSome d.log wakeId).mp hexists
    · intro hsend
      rw [not_or, not_or, not_not] at hsend
      obtain ⟨hclosed, hempty, hexists⟩ := hsend
      rw [hclosed] at hmarked
      have hnew : wakeId ∉ d.persisted.enqueued := fun hm =>
        hexists ((lifeOf_isSome d.log wakeId).mpr hm)
      apply triple_bind (Q := fun payload t => r.payload now = .ok payload ∧ t = d)
      · apply triple_attempt
        · rintro payload u hok rfl
          exact ⟨hok, rfl⟩
        · rintro e u rfl
          exact h.broken _
      intro payload
      apply triple_each
      rintro u ⟨hpayload, rfl⟩
      have happendable : Appendable env f n.wakeKind payload wakeId u := by
        intro p ts item hmarks hlog hdraws hitem hkind hpay
        refine .send n r.id ts item ?_ ?_ hkind ?_
        · rw [hmarks, hmark, hmarked, hitem]
        · rw [hitem]
          unfold Persisted.enqueued at hnew ⊢
          rw [hlog]
          exact hnew
        · rw [hpay]
          exact payload_names r hpayload
      apply triple_bind (enqueue_given_triple hf h hempty hnew happendable)
      intro item
      apply triple_pure
      rintro t ⟨hitem, happended, ht⟩
      refine ⟨ht, happended.toKept, ?_, ?_⟩
      · intro q hq id hid
        rw [List.mem_singleton.mp hq, hmarked] at hid
        cases hid
        rw [happended.enqueued, hitem]
        exact List.mem_append_right _ (List.mem_singleton_self _)
      · intro id hid
        rw [happended.enqueued]
        exact List.mem_append_left _ hid

theorem reconcileEach_triple (hf : f.Sound env) (hu : UuidDraws env) {n : SnapshotName}
    {now : Instant} (checked : List (Row n)) {s : TimerService} (h : Serving env f s)
    (hrows : ∀ r ∈ checked, (s.rows n).get? r.id = some r) :
    Triple (· = s) (reconcileEach env now checked)
      (fun _ t => Serving env f t ∧ Reconciled s checked t) (Broken env f) := by
  induction checked generalizing s with
  | nil =>
    apply triple_pure
    rintro d rfl
    exact ⟨h, ⟨fun _ => rfl, fun _ => rfl⟩, fun r hr => (List.not_mem_nil hr).elim,
      fun _ hid => hid⟩
  | cons r rest ih =>
    apply triple_bind (reconcile_triple hf hu h (hrows r List.mem_cons_self))
    intro _
    apply triple_each
    rintro s₁ ⟨h₁, hfirst⟩
    have hrest : ∀ q ∈ rest, (s₁.rows n).get? q.id = some q := by
      intro q hq
      rw [hfirst.rows]
      exact hrows q (List.mem_cons_of_mem r hq)
    apply (ih h₁ hrest).weaken
    · exact fun _ hd => hd
    · rintro _ t ⟨ht, hall⟩
      refine ⟨ht, hfirst.toKept.trans hall.toKept, ?_, ?_⟩
      · intro q hq id hid
        obtain rfl | hq := List.mem_cons.mp hq
        · exact hall.grows id (hfirst.landed q (List.mem_singleton_self q) id hid)
        · exact hall.landed q hq id hid
      · exact fun id hid => hall.grows id (hfirst.grows id hid)
    · exact fun _ _ hbroken => hbroken

/-- Every fired row of the snapshot has its wake, and the maps stay. -/
structure Landed (n : SnapshotName) (s t : TimerService) : Prop extends Kept s t where
  sent : AllSent t.persisted n
  grows : ∀ id ∈ s.persisted.enqueued, id ∈ t.persisted.enqueued

theorem reconcileOrphaned_triple (hf : f.Sound env) (hu : UuidDraws env) (n : SnapshotName)
    {now : Instant} {s : TimerService} (h : Serving env f s) :
    Triple (· = s) (reconcileOrphaned env n now) (fun _ t => Serving env f t ∧ Landed n s t)
      (Broken env f) := by
  apply triple_look_bind
  rintro d rfl
  have hmem (r : Row n) : r ∈ (d.rows n).values.insertionSort Row.keyLe ↔ r ∈ (d.rows n).values :=
    List.mem_insertionSort _
  apply (reconcileEach_triple hf hu _ h ?_).weaken
  · exact fun _ hd => hd
  · rintro _ t ⟨ht, hall⟩
    refine ⟨ht, hall.toKept, ?_, hall.grows⟩
    intro k id hk
    rw [hall.marks, ← h.agrees n k, Option.map_eq_some_iff] at hk
    obtain ⟨r, hr, hmark⟩ := hk
    exact hall.landed r ((hmem r).mpr ((Dict.mem_values _ r).mpr ⟨k, hr⟩)) id hmark
  · exact fun _ _ hbroken => hbroken
  · intro r hr
    exact (h.keyed n).mem_values ((hmem r).mp hr)

theorem load_triple {s : TimerService} (h : Reached env f s) :
    Triple (· = s) load (fun _ t => Serving env f t ∧ t.persisted = s.persisted) (Broken env f) := by
  obtain ⟨timers, htimers, hkeyed⟩ := h.loadable .timers
  obtain ⟨waits, hwaits, hkeyed'⟩ := h.loadable .waits
  let u := s.setRows .timers timers
  let t := u.setRows .waits waits
  have hfile (n : SnapshotName) : t.file n = s.file n := by
    rw [file_setRows, file_setRows]
  have hpersisted : t.persisted = s.persisted := by
    rw [persisted_setRows, persisted_setRows]
  have hlive : Serving env f t := by
    refine ⟨h.same hfile hpersisted, ?_, ?_⟩
    · intro n
      cases n with
      | timers => exact hkeyed
      | waits => exact hkeyed'
    · intro n k
      rw [hpersisted]
      cases n with
      | timers =>
        show (timers.get? k).map Row.mark = s.persisted.marks .timers k
        simp only [persisted, file, htimers] at htimers ⊢
      | waits =>
        show (waits.get? k).map Row.mark = s.persisted.marks .waits k
        simp only [persisted, file, hwaits] at hwaits ⊢
  apply triple_look_bind
  rintro d rfl
  apply triple_bind (Q := fun found x => found = timers ∧ x = d)
  · rw [show loadRows .timers d.timersFile = .ok timers from htimers]
    exact triple_pure _ fun _ hx => ⟨rfl, hx⟩
  intro found
  apply triple_each
  rintro x ⟨rfl, rfl⟩
  apply triple_bind (Q := fun _ y => y = u)
  · exact triple_note _ fun y hy => hy ▸ rfl
  intro _
  apply triple_bind (Q := fun found y => found = waits ∧ y = u)
  · rw [show loadRows .waits x.waitsFile = .ok waits from hwaits]
    exact triple_pure _ fun _ hy => ⟨rfl, hy⟩
  intro found'
  apply triple_each
  rintro y ⟨rfl, rfl⟩
  exact triple_note _ fun z hz => hz ▸ ⟨hlive, hpersisted⟩

/-- After a rehydrate no fired row lacks its wake, and no open row is due. -/
structure Rehydrated (now : Instant) (t : TimerService) : Prop where
  sent : ∀ n, AllSent t.persisted n
  settled : ∀ n k (r : Row n), (t.rows n).get? k = some r → r.status = n.opened →
    r.isDue now = .ok false

theorem rehydrate_triple (hf : f.Sound env) (hu : UuidDraws env) {now : Instant}
    {s : TimerService} (h : Serving env f s) :
    Triple (· = s) (rehydrate env now) (fun _ t => Serving env f t ∧ Rehydrated now t)
      (Broken env f) := by
  apply triple_bind (load_triple h.toReached)
  intro _
  apply triple_each
  rintro s₁ ⟨h₁, -⟩
  apply triple_bind (reconcileOrphaned_triple hf hu .waits h₁)
  intro _
  apply triple_each
  rintro s₂ ⟨h₂, hwaits⟩
  apply triple_bind (reconcileOrphaned_triple hf hu .timers h₂)
  intro _
  apply triple_each
  rintro s₃ ⟨h₃, htimers⟩
  have hsent (n : SnapshotName) : AllSent s₃.persisted n := by
    cases n with
    | timers => exact htimers.sent
    | waits =>
      intro k id hk
      rw [htimers.marks] at hk
      exact htimers.grows id (hwaits.sent k id hk)
  apply triple_bind (fireDue_triple hf hu h₃)
  intro _
  apply triple_each
  rintro s₄ ⟨h₄, hchecked⟩
  apply (fireDue_triple hf hu h₄).weaken
  · exact fun _ hd => hd
  · rintro _ t ⟨ht, hscheduled⟩
    refine ⟨ht, fun n => hscheduled.sent n (hchecked.sent n (hsent n)), ?_⟩
    intro n
    cases n with
    | timers => exact hscheduled.settled
    | waits =>
      rw [hscheduled.others .waits (by decide)]
      exact hchecked.settled
  · exact fun _ _ hbroken => hbroken

end Specs
end TimerService
end Elyra.Presence
