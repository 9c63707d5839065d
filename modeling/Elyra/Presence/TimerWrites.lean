import Elyra.Presence.TimerEffects

namespace Elyra.Presence

open Json

namespace Row

variable {n : SnapshotName} (r : Row n)

@[simp] theorem id_setStatus (status : Status) : (r.setStatus status).id = r.id := by
  cases n <;> rfl

@[simp] theorem id_setWakeId (x : Option String) : (r.setWakeId x).id = r.id := by
  cases n <;> rfl

@[simp] theorem status_setStatus (status : Status) : (r.setStatus status).status = status := by
  cases n <;> rfl

@[simp] theorem status_setWakeId (x : Option String) : (r.setWakeId x).status = r.status := by
  cases n <;> rfl

@[simp] theorem mark_setStatus (status : Status) :
    (r.setStatus status).mark = (status, r.wakeId) := by
  cases n <;> rfl

@[simp] theorem mark_setWakeId (x : Option String) :
    (r.setWakeId x).mark = (r.status, x) := by
  cases n <;> rfl

end Row

/-- `str(uuid.uuid4())` never gives the same text twice, and never an empty one. -/
structure UuidDraws (env : Env) : Prop where
  injective : Function.Injective env.uuid4
  filled : ∀ i, env.uuid4 i ≠ ""

theorem countingEnv_uuidDraws : UuidDraws countingEnv := by
  refine ⟨countingEnv_injective, ?_⟩
  intro i h
  have hhead := countingEnv_head i
  rw [h] at hhead
  cases hhead

theorem lifeOf_isSome (log : List WakeEvent) (id : String) :
    (lifeOf log id).isSome = true ↔ id ∈ (log.filterMap enqueuedItem).map WakeItem.id := by
  induction log using List.reverseRecOn with
  | nil => exact iff_of_false (fun h => nomatch h) List.not_mem_nil
  | append_singleton log e ih =>
    rw [lifeOf_snoc, record_apply, List.filterMap_append, List.map_append, List.mem_append, ← ih]
    cases e with
    | enqueue ts item =>
      by_cases h : item.id = id
      · simp [WakeEvent.wakeId, h, evolve, enqueuedItem]
      · simp [WakeEvent.wakeId, h, Ne.symm h, enqueuedItem]
    | claimed ts wakeId momentId | done ts wakeId | cancelled ts wakeId reason =>
      by_cases h : wakeId = id
      · simp [WakeEvent.wakeId, h, evolve, enqueuedItem]
      · simp [WakeEvent.wakeId, h, enqueuedItem]

namespace TimerService

section Disk

variable [PyCoerce] [PyFloat]

/-- What a restart would find. -/
def persisted (s : TimerService) : Persisted where
  marks n k :=
    match loadRows n (s.file n) with
    | .ok d => (d.get? k).map Row.mark
    | .error _ => none
  log := s.log
  draws := s.draws

theorem persisted_congr {s t : TimerService} (hfile : ∀ n, t.file n = s.file n)
    (hlog : t.log = s.log) (hdraws : t.draws = s.draws) : t.persisted = s.persisted := by
  unfold persisted
  rw [hlog, hdraws]
  congr 1
  funext n k
  rw [hfile]

@[simp] theorem persisted_setRows (s : TimerService) (n : SnapshotName) (d : Dict String (Row n)) :
    (s.setRows n d).persisted = s.persisted :=
  persisted_congr (file_setRows s n d) (log_setRows s n d) (draws_setRows s n d)

theorem persisted_written (s : TimerService) {n : SnapshotName} {d : Dict String (Row n)}
    (hd : Keyed d) {k : String} {m : Mark}
    (hmarks : ∀ k', (d.get? k').map Row.mark = if k = k' then some m else s.persisted.marks n k') :
    (s.setFile n (dumpRows d)).persisted = s.persisted.setMark n k m := by
  have hmarked : (s.setFile n (dumpRows d)).persisted.marks =
      (s.persisted.setMark n k m).marks := by
    funext n' k'
    rw [Persisted.marks_setMark]
    by_cases hn : n = n'
    · subst hn
      obtain ⟨e, he, -, hget⟩ := loadRows_dumpRows hd
      simp only [persisted, file_setFile, he, hget, Option.map_map]
      have hmark : Row.mark ∘ Row.reread = (Row.mark : Row n → Mark) :=
        funext Row.mark_reread
      rw [hmark, hmarks k']
      simp only [true_and]
      rfl
    · rw [if_neg (fun h => hn h.1)]
      simp only [persisted, file_setFile_ne s n (Ne.symm hn)]
  show Persisted.mk _ _ _ = Persisted.mk _ _ _
  have hlog := log_setFile s n (dumpRows d)
  have hdraws := draws_setFile s n (dumpRows d)
  rw [Persisted.mk.injEq]
  exact ⟨hmarked, hlog, hdraws⟩

/-- Both snapshots can be read back. -/
def Loadable (s : TimerService) : Prop := ∀ n, ∃ d, loadRows n (s.file n) = .ok d ∧ Keyed d

/-- The maps of a live service say what the snapshots say. -/
structure Prepared (s : TimerService) : Prop where
  keyed : ∀ n, Keyed (s.rows n)
  agrees : ∀ n k, ((s.rows n).get? k).map Row.mark = s.persisted.marks n k

end Disk

/-- Where a service runs: what may be installed, how rows may be ended, and what was on disk at
the start. -/
structure Frame where
  allowed : Persisted → SnapshotName → String → Prop
  ends : Status → Prop
  start : Persisted

section Specs

variable [PyCoerce] [PyFloat] (env : Env) (f : Frame)

/-- The disk came about by the service's writes. -/
structure Reached (s : TimerService) : Prop where
  loadable : s.Loadable
  effects : Relation.ReflTransGen (Effect env f.allowed f.ends) f.start s.persisted
  sane : Sane env s.persisted

structure Serving (s : TimerService) : Prop extends Reached env f s, Prepared s

/-- A death leaves the disk; an exception leaves the maps in order too. -/
def Broken (e : Fault) (s : TimerService) : Prop := Reached env f s ∧ (e ≠ .died → Prepared s)

/-- No answered wait is installed anew. -/
def Frame.Sound (f : Frame) : Prop :=
  ∀ p, Sane env p → ∀ k ∈ p.replied, ¬f.allowed p .waits k

variable {env f}

theorem Serving.broken {s : TimerService} (h : Serving env f s) (e : Fault) : Broken env f e s :=
  ⟨h.toReached, fun _ => h.toPrepared⟩

theorem Reached.effect (hf : f.Sound env) {s t : TimerService} (h : Reached env f s)
    (hloadable : t.Loadable) (he : Effect env f.allowed f.ends s.persisted t.persisted) :
    Reached env f t :=
  ⟨hloadable, h.effects.tail he, h.sane.effect (hf _ h.sane) he⟩

theorem Reached.same {s t : TimerService} (h : Reached env f s) (hfile : ∀ n, t.file n = s.file n)
    (hpersisted : t.persisted = s.persisted) : Reached env f t := by
  refine ⟨?_, ?_, ?_⟩
  · intro n
    rw [hfile]
    exact h.loadable n
  · rw [hpersisted]
    exact h.effects
  · rw [hpersisted]
    exact h.sane

/-- A map with one row changed is written, or the old map stays. -/
theorem store_triple (hf : f.Sound env) {n : SnapshotName} {s : TimerService}
    {changed restored : Dict String (Row n)} (h : Serving env f s) (hchanged : Keyed changed)
    (hrestored : ∀ k, restored.get? k = (s.rows n).get? k) {k : String} {m : Mark}
    (hmarks : ∀ k', (changed.get? k').map Row.mark =
      if k = k' then some m else s.persisted.marks n k')
    (he : Effect env f.allowed f.ends s.persisted (s.persisted.setMark n k m)) :
    Triple (· = s) (store changed restored)
      (fun _ t => t = (s.setRows n changed).setFile n (dumpRows changed) ∧ Serving env f t ∧
        t.persisted = s.persisted.setMark n k m) (Broken env f) := by
  let u := s.setRows n changed
  have hu : Reached env f u :=
    h.toReached.same (file_setRows s n changed) (persisted_setRows s n changed)
  let t := u.setFile n (dumpRows changed)
  have hpersisted : t.persisted = s.persisted.setMark n k m := by
    rw [show t.persisted = u.persisted.setMark n k m from
      persisted_written u hchanged (by rw [persisted_setRows]; exact hmarks), persisted_setRows]
  have hrows : t.rows n = changed := by rw [rows_setFile, rows_setRows]
  have hothers (m : SnapshotName) (hm : m ≠ n) : t.rows m = s.rows m := by
    rw [rows_setFile, rows_setRows_ne s n hm]
  have hreached : Reached env f t := by
    apply h.toReached.effect hf
    · intro n'
      by_cases hn : n' = n
      · subst hn
        obtain ⟨e, hread, hkeyed, -⟩ := loadRows_dumpRows hchanged
        exact ⟨e, by rw [file_setFile]; exact hread, hkeyed⟩
      · rw [file_setFile_ne u n hn, file_setRows]
        exact h.loadable n'
    · rw [hpersisted]
      exact he
  have hready : Prepared t := by
    refine ⟨?_, ?_⟩
    · intro n'
      by_cases hn : n' = n
      · subst hn
        rw [hrows]
        exact hchanged
      · rw [hothers n' hn]
        exact h.keyed n'
    · intro n' k'
      rw [hpersisted, Persisted.marks_setMark]
      by_cases hn : n' = n
      · subst hn
        rw [hrows, hmarks k']
        simp only [true_and]
      · rw [hothers n' hn, if_neg (fun hk => hn hk.1.symm)]
        exact h.agrees n' k'
  have hback : Prepared (u.setRows n restored) := by
    have hkeyed : Keyed restored :=
      ⟨fun k r hr => (h.keyed n).id k r (hrestored k ▸ hr),
        fun k r hr => (h.keyed n).filled k r (hrestored k ▸ hr),
        fun k r hr => (h.keyed n).status k r (hrestored k ▸ hr)⟩
    refine ⟨?_, ?_⟩
    · intro n'
      by_cases hn : n' = n
      · subst hn
        rw [rows_setRows]
        exact hkeyed
      · rw [rows_setRows_ne u n hn, rows_setRows_ne s n hn]
        exact h.keyed n'
    · intro n' k'
      rw [persisted_setRows, persisted_setRows]
      by_cases hn : n' = n
      · subst hn
        rw [rows_setRows, hrestored]
        exact h.agrees n' k'
      · rw [rows_setRows_ne u n hn, rows_setRows_ne s n hn]
        exact h.agrees n' k'
  apply triple_bind (Q := fun _ d => d = u)
  · exact triple_note _ fun d hd => hd ▸ rfl
  intro _
  apply triple_tryExcept (F := fun _ d => d = u)
  · apply triple_bind (Q := fun _ d => d = u)
    · exact triple_operation id (fun _ hd => hd) (fun _ hd => hd) (fun _ hd => hd)
    · intro _
      apply triple_operation
      · rintro d rfl
        have hwritten : u.setFile n (dumpRows (u.rows n)) = t := by
          show u.setFile n (dumpRows ((s.setRows n changed).rows n)) = t
          rw [rows_setRows]
        show u.setFile n (dumpRows (u.rows n)) = t ∧ _
        rw [hwritten]
        exact ⟨rfl, ⟨hreached, hready⟩, hpersisted⟩
      · exact fun _ hd => hd
      · exact fun _ hd => hd
  · rintro d rfl
    exact ⟨hu, fun hne => absurd rfl hne⟩
  · intro e
    apply triple_bind (Q := fun _ d => d = u.setRows n restored)
    · exact triple_note _ fun d hd => hd ▸ rfl
    · intro _
      apply triple_raise
      rintro d rfl
      exact ⟨hu.same (file_setRows u n restored) (persisted_setRows u n restored), fun _ => hback⟩

/-- A row that is on disk under its id, and what a write makes of it. -/
theorem marks_set {n : SnapshotName} {s : TimerService} (h : Prepared s) (r : Row n) (k' : String) :
    (((s.rows n).set r.id r).get? k').map Row.mark =
      if r.id = k' then some r.mark else s.persisted.marks n k' := by
  rw [Dict.get?_set, ← h.agrees n k']
  split_ifs <;> rfl

/-- What a write of one row leaves. -/
structure RowWritten {n : SnapshotName} (s : TimerService) (r : Row n) (t : TimerService) :
    Prop where
  rows : t.rows n = (s.rows n).set r.id r
  others : ∀ m, m ≠ n → t.rows m = s.rows m
  log : t.log = s.log
  draws : t.draws = s.draws
  persisted : t.persisted = s.persisted.setMark n r.id r.mark

theorem rowWritten {n : SnapshotName} {s t : TimerService} {r : Row n}
    (ht : t = (s.setRows n ((s.rows n).set r.id r)).setFile n
      (dumpRows ((s.rows n).set r.id r)))
    (hpersisted : t.persisted = s.persisted.setMark n r.id r.mark) : RowWritten s r t := by
  refine ⟨?_, ?_, ?_, ?_, hpersisted⟩
  · rw [ht, rows_setFile, rows_setRows]
  · intro m hm
    rw [ht, rows_setFile, rows_setRows_ne s n hm]
  · rw [ht, log_setFile, log_setRows]
  · rw [ht, draws_setFile, draws_setRows]

theorem changeRow_triple (hf : f.Sound env) {n : SnapshotName} {s : TimerService}
    (h : Serving env f s) {r changed : Row n} (hr : (s.rows n).get? r.id = some r)
    (hid : changed.id = r.id) (hstatus : changed.status ∈ Status.known)
    (he : Effect env f.allowed f.ends s.persisted (s.persisted.setMark n r.id changed.mark)) :
    Triple (· = s) (changeRow r changed) (fun _ t => Serving env f t ∧ RowWritten s changed t)
      (Broken env f) := by
  apply triple_look_bind
  rintro d rfl
  rw [← hid] at he
  have hmarks := marks_set h.toPrepared changed
  have hkeyed := (h.keyed n).set rfl (hid ▸ (h.keyed n).filled _ _ hr) hstatus
  have hrestored (k : String) :
      (((d.rows n).set r.id changed).set r.id r).get? k = (d.rows n).get? k := by
    rw [Dict.get?_set, Dict.get?_set]
    split_ifs with hk
    · rw [← hk, hr]
    · rfl
  rw [hid] at hmarks hkeyed he
  apply (store_triple hf h hkeyed hrestored hmarks he).weaken
  · exact fun _ hd => hd
  · rintro _ t ⟨ht, hlive, hpersisted⟩
    rw [← hid] at ht hpersisted
    exact ⟨hlive, rowWritten ht hpersisted⟩
  · exact fun _ _ hbroken => hbroken

theorem install_triple (hf : f.Sound env) {n : SnapshotName} {s : TimerService}
    (h : Serving env f s) {r : Row n} (hid : r.id ≠ "") (hmark : r.mark = (n.opened, none))
    (hallowed : f.allowed s.persisted n r.id) :
    Triple (· = s) (install r) (fun _ t => Serving env f t ∧ RowWritten s r t) (Broken env f) := by
  apply triple_look_bind
  rintro d rfl
  have hstatus : r.status ∈ Status.known := by
    rw [show r.status = n.opened from congrArg Prod.fst hmark]
    cases n <;> decide
  have hkeyed := (h.keyed n).set (r := r) rfl hid hstatus
  have he : Effect env f.allowed f.ends d.persisted (d.persisted.setMark n r.id r.mark) := by
    rw [hmark]
    exact .install n r.id hallowed
  apply (store_triple hf h hkeyed _ (marks_set h.toPrepared r) he).weaken
  · exact fun _ hd => hd
  · rintro _ t ⟨ht, hlive, hpersisted⟩
    exact ⟨hlive, rowWritten ht hpersisted⟩
  · exact fun _ _ hbroken => hbroken
  · intro k
    cases hprev : (d.rows n).get? r.id with
    | none =>
      show (((d.rows n).set r.id r).pop r.id).get? k = _
      rw [Dict.get?_pop, Dict.get?_set]
      split_ifs with hk
      · rw [← hk, hprev]
      · rfl
    | some prev =>
      show (((d.rows n).set r.id r).set r.id prev).get? k = _
      rw [Dict.get?_set, Dict.get?_set]
      split_ifs with hk
      · rw [← hk, hprev]
      · rfl

/-- An open row is ended, or nothing changes. -/
def Ended (n : SnapshotName) (id : String) (status : Status) (s t : TimerService) : Prop :=
  t = s ∨ ∃ r : Row n, (s.rows n).get? id = some r ∧ r.status = n.opened ∧
    RowWritten s (r.setStatus status) t

theorem settle_triple (hf : f.Sound env) {n : SnapshotName} {s : TimerService}
    (h : Serving env f s) (id : String) {status : Status} (hending : status ∈ endings)
    (hends : f.ends status) :
    Triple (· = s) (settle n id status) (fun _ t => Serving env f t ∧ Ended n id status s t)
      (Broken env f) := by
  apply triple_look_bind
  rintro d rfl
  cases hr : (d.rows n).get? id with
  | none => exact triple_raise _ fun _ hd => hd ▸ h.broken _
  | some r =>
    have hid : r.id = id := (h.keyed n).id id r hr
    apply triple_ite
    · intro hopened
      have hknown : status ∈ Status.known := by
        revert hending
        unfold endings
        simp only [List.mem_cons, List.not_mem_nil, or_false]
        rintro (rfl | rfl) <;> decide
      have hmark : d.persisted.marks n r.id = some (n.opened, r.wakeId) := by
        rw [← h.agrees n r.id, hid, hr, ← hopened]
        rfl
      have he : Effect env f.allowed f.ends d.persisted
          (d.persisted.setMark n r.id (r.setStatus status).mark) := by
        rw [Row.mark_setStatus]
        exact .settle n r.id r.wakeId status hmark hending hends
      apply (changeRow_triple hf h (hid ▸ hr) (Row.id_setStatus r status)
        (by rw [Row.status_setStatus]; exact hknown) he).weaken
      · exact fun _ hd => hd
      · rintro _ t ⟨hlive, hwritten⟩
        exact ⟨hlive, .inr ⟨r, hr, hopened, hwritten⟩⟩
      · exact fun _ _ hbroken => hbroken
    · intro _
      exact triple_pure _ fun _ hd => ⟨hd ▸ h, .inl hd⟩

end Specs
end TimerService
end Elyra.Presence
