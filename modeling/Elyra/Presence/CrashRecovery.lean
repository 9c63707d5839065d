import Elyra.Presence.Priority

namespace Elyra.Presence

open Json

/-- The log, the memory and the draws still to come agree with `lives`. -/
structure Ready (env : Env) (w : World) (lives : String → Option Life) : Prop where
  log : ∃ events, w.log = eventBytes events ∧ lifeOf events = lives
  sound : Sound w.queue lives
  fresh : ∀ n, w.draws ≤ n → lives (env.uuid4 n) = none

theorem Ready.later {env : Env} {w w' : World} {lives : String → Option Life}
    (h : Ready env w lives) (hlog : w'.log = w.log) (hqueue : w'.queue = w.queue)
    (hdraws : w.draws ≤ w'.draws) : Ready env w' lives := by
  obtain ⟨events, hevents, hlives⟩ := h.log
  refine ⟨⟨events, hlog.trans hevents, hlives⟩, ?_, ?_⟩
  · rw [hqueue]
    exact h.sound
  · intro n hn
    exact h.fresh n (hdraws.trans hn)

theorem Ready.snoc {env : Env} {w w' : World} {lives : String → Option Life}
    (h : Ready env w lives) (e : WakeEvent) (hlog : w'.log = w.log ++ eventBytes [e])
    (hsound : Sound w'.queue (record lives e))
    (hfresh : ∀ n, w'.draws ≤ n → record lives e (env.uuid4 n) = none) :
    Ready env w' (record lives e) := by
  obtain ⟨events, hevents, hlives⟩ := h.log
  refine ⟨⟨events ++ [e], ?_, ?_⟩, hsound, hfresh⟩
  · rw [hlog, hevents, eventBytes_append]
  · rw [lifeOf_snoc, hlives]

/-- The life of a wake after its cancellation. -/
def cancelledLife (l : Life) (reason : String) : Life :=
  { l with op := .cancelled, reason := some reason }

section Steps

variable {env : Env} {w : World} {lives : String → Option Life}

theorem ready_cancel (h : Ready env w lives) (id reason : String) (l : Life)
    (hl : lives id = some l) (hlive : l.op.terminal = false) (hf : w.faults.headD false = false) :
    ∃ w', cancel env id reason w = .ok () w' ∧ w'.faults = w.faults.tail ∧
      (Full w.queue lives →
        Full w'.queue (Function.update lives id (some (cancelledLife l reason)))) ∧
      Ready env w' (Function.update lives id (some (cancelledLife l reason))) := by
  have hop : w.queue.ops.get? id = some l.op := by
    rw [h.sound.ops, hl]
    rfl
  obtain ⟨x, hx, -, hrec⟩ := record_cancelled h.sound (env.nowIso w.draws) id reason l.op hop
  rw [hl] at hx
  cases hx
  rw [cancel, finishWake_eq, hop]
  simp only [hlive, hf]
  refine ⟨_, rfl, rfl, ?_, ?_⟩
  · intro hfull
    exact full_putTerminal hfull id .cancelled (some reason) l (by decide)
  · change Ready env _ (Function.update lives id (some ⟨l.item, .cancelled, l.momentId, some reason⟩))
    rw [← hrec]
    apply h.snoc (.cancelled (env.nowIso w.draws) id reason) rfl
    · rw [hrec]
      exact sound_putTerminal h.sound id .cancelled (some reason) l hl
    · intro n hn
      have hnone := h.fresh n (by change w.draws + 1 ≤ n at hn; omega)
      rw [record_apply]
      split_ifs with hid
      · rw [hnone]
        rfl
      · exact hnone

theorem cancel_crash (h : Ready env w lives) (id reason : String) (l : Life)
    (hl : lives id = some l) (hlive : l.op.terminal = false) (hf : w.faults.headD false = true) :
    ∃ w', cancel env id reason w = .error .osError w' ∧ Ready env w' lives := by
  have hop : w.queue.ops.get? id = some l.op := by
    rw [h.sound.ops, hl]
    rfl
  rw [cancel, finishWake_eq, hop]
  simp only [hlive, hf]
  exact ⟨_, rfl, h.later rfl rfl (Nat.le_succ _)⟩

theorem newItem_clone (env : Env) (k : WakeKind) (payload : Payload) (n : Nat) :
    newItem env k payload none none n =
      (⟨env.uuid4 n, k, k.priority, env.nowIso (n + 1), payload, rfl⟩, env.nowIso (n + 2), n + 3) :=
  rfl

theorem ready_enqueue (h : Ready env w lives) (hinj : Function.Injective env.uuid4)
    (k : WakeKind) (payload : Payload) (hf : w.faults.headD false = false) :
    ∃ item w', enqueue env k.text payload none none w = .ok item w' ∧
      w'.faults = w.faults.tail ∧ item.kind = k ∧ item.payload = payload ∧
      lives item.id = none ∧
      (Full w.queue lives →
        Full w'.queue (Function.update lives item.id (some ⟨item, .enqueue, none, none⟩))) ∧
      Ready env w' (Function.update lives item.id (some ⟨item, .enqueue, none, none⟩)) := by
  have hnew : lives (env.uuid4 w.draws) = none := h.fresh w.draws (le_refl _)
  have hop : w.queue.ops.get? (env.uuid4 w.draws) = none := by
    rw [h.sound.ops, hnew]
    rfl
  rw [enqueue_eq env k.text k (WakeKind.ofText_text k), newItem_clone]
  simp only [hop, hf]
  refine ⟨_, _, rfl, rfl, rfl, rfl, hnew, ?_, ?_⟩
  · intro hfull
    exact full_putEnqueued hfull (env.nowIso (w.draws + 2)) _
  · apply h.snoc (.enqueue (env.nowIso (w.draws + 2)) _) rfl
    · exact sound_putEnqueued h.sound _ _
    · intro n hn
      change w.draws + 3 ≤ n at hn
      rw [record_apply, if_neg]
      · exact h.fresh n (by omega)
      · intro he
        have hsame := hinj he
        omega

theorem enqueue_crash (h : Ready env w lives) (k : WakeKind) (payload : Payload)
    (hf : w.faults.headD false = true) :
    ∃ w', enqueue env k.text payload none none w = .error .osError w' ∧ Ready env w' lives := by
  have hop : w.queue.ops.get? (env.uuid4 w.draws) = none := by
    rw [h.sound.ops, h.fresh w.draws (le_refl _)]
    rfl
  rw [enqueue_eq env k.text k (WakeKind.ofText_text k), newItem_clone]
  simp only [hop, hf]
  exact ⟨_, rfl, h.later rfl rfl (by change w.draws ≤ w.draws + 3; omega)⟩

end Steps

/-- The wake is pending or claimed and has this kind and payload. -/
def Live (lives : String → Option Life) (id : String) (kind : WakeKind) (payload : Payload) :
    Prop :=
  ∃ l, lives id = some l ∧ l.op.terminal = false ∧ l.item.kind = kind ∧ l.item.payload = payload

theorem live_cancelled (lives : String → Option Life) (id x : String) (l : Life) (reason : String)
    (kind : WakeKind) (payload : Payload) :
    Live (Function.update lives id (some (cancelledLife l reason))) x kind payload ↔
      id ≠ x ∧ Live lives x kind payload := by
  unfold Live
  rw [update_apply]
  constructor
  · rintro ⟨y, hy, hop, hk, hp⟩
    split_ifs at hy with hx
    · cases hy
      cases hop
    · exact ⟨hx, y, hy, hop, hk, hp⟩
  · rintro ⟨hx, y, hy, hop, hk, hp⟩
    rw [if_neg hx]
    exact ⟨y, hy, hop, hk, hp⟩

theorem live_enqueued (lives : String → Option Life) (item : WakeItem) (hnew : lives item.id = none)
    (x : String) (kind : WakeKind) (payload : Payload) :
    Live (Function.update lives item.id (some ⟨item, .enqueue, none, none⟩)) x kind payload ↔
      (x = item.id ∧ item.kind = kind ∧ item.payload = payload) ∨ Live lives x kind payload := by
  unfold Live
  rw [update_apply]
  constructor
  · rintro ⟨y, hy, hop, hk, hp⟩
    split_ifs at hy with hx
    · cases hy
      exact Or.inl ⟨hx.symm, hk, hp⟩
    · exact Or.inr ⟨y, hy, hop, hk, hp⟩
  · rintro (⟨rfl, hk, hp⟩ | ⟨y, hy, hop, hk, hp⟩)
    · rw [if_pos rfl]
      exact ⟨_, rfl, rfl, hk, hp⟩
    · have hx : item.id ≠ x := by
        rintro rfl
        rw [hnew] at hy
        cases hy
      rw [if_neg hx]
      exact ⟨y, hy, hop, hk, hp⟩

/-- Between two rounds of the recovery loop: the claims still to do are untouched, no other wake
is claimed, and the durable wakes outside them are those there were at the start. -/
structure Mirrors (start lives : String → Option Life) (todo : List String) : Prop where
  same : ∀ id ∈ todo, lives id = start id
  claimed : ∀ id l, lives id = some l → l.op = .claimed → id ∈ todo
  cover : ∀ kind payload, kind.reEnqueueOnRecover = true →
    ((∃ id, id ∉ todo ∧ Live lives id kind payload) ↔
      ∃ id, id ∉ todo ∧ Live start id kind payload)

/-- Right after the loop cancelled a wake: the durable wakes are all but that one. -/
theorem cover_cancelled {start lives : String → Option Life} {id : String} {todo : List String}
    (h : Mirrors start lives (id :: todo)) (l : Life) (reason : String) (kind : WakeKind)
    (payload : Payload) (hk : kind.reEnqueueOnRecover = true) :
    (∃ x, Live (Function.update lives id (some (cancelledLife l reason))) x kind payload) ↔
      ∃ x, id ≠ x ∧ Live start x kind payload := by
  have hcover := h.cover kind payload hk
  have hlive (x : String) (hx : x ∈ todo) : Live lives x kind payload ↔ Live start x kind payload := by
    unfold Live
    rw [h.same x (List.mem_cons_of_mem _ hx)]
  simp only [live_cancelled]
  constructor
  · rintro ⟨x, hx, hl⟩
    by_cases hm : x ∈ todo
    · exact ⟨x, hx, (hlive x hm).mp hl⟩
    · obtain ⟨y, hy, hl'⟩ := hcover.mp ⟨x, by simp [Ne.symm hx, hm], hl⟩
      simp only [List.mem_cons, not_or] at hy
      exact ⟨y, Ne.symm hy.1, hl'⟩
  · rintro ⟨x, hx, hl⟩
    by_cases hm : x ∈ todo
    · exact ⟨x, hx, (hlive x hm).mpr hl⟩
    · obtain ⟨y, hy, hl'⟩ := hcover.mpr ⟨x, by simp [Ne.symm hx, hm], hl⟩
      simp only [List.mem_cons, not_or] at hy
      exact ⟨y, Ne.symm hy.1, hl'⟩

theorem mirrors_cancelled {start lives : String → Option Life} {id : String} {todo : List String}
    (h : Mirrors start lives (id :: todo)) (hnodup : id ∉ todo) (l : Life)
    (hl : start id = some l) (reason : String) (hk : l.item.kind.reEnqueueOnRecover = false) :
    Mirrors start (Function.update lives id (some (cancelledLife l reason))) todo := by
  refine ⟨?_, ?_, ?_⟩
  · intro x hx
    have hne : x ≠ id := fun he => hnodup (he ▸ hx)
    rw [Function.update_of_ne hne]
    exact h.same x (List.mem_cons_of_mem _ hx)
  · intro x y hy hop
    rw [update_apply] at hy
    split_ifs at hy with hx
    · cases hy
      cases hop
    · have hm := h.claimed x y hy hop
      exact (List.mem_cons.mp hm).resolve_left (Ne.symm hx)
  · intro kind payload hkind
    have hself : ¬ Live start id kind payload := by
      rintro ⟨y, hy, -, hyk, -⟩
      rw [hl] at hy
      cases hy
      rw [hyk, hkind] at hk
      cases hk
    have hcover := h.cover kind payload hkind
    simp only [List.mem_cons, not_or] at hcover
    constructor
    · rintro ⟨x, hx, hlive⟩
      rw [live_cancelled] at hlive
      obtain ⟨y, hy, hly⟩ := hcover.mp ⟨x, ⟨Ne.symm hlive.1, hx⟩, hlive.2⟩
      exact ⟨y, hy.2, hly⟩
    · rintro ⟨x, hx, hlive⟩
      have hne : x ≠ id := fun he => hself (he ▸ hlive)
      obtain ⟨y, hy, hly⟩ := hcover.mpr ⟨x, ⟨hne, hx⟩, hlive⟩
      exact ⟨y, hy.2, (live_cancelled _ _ _ _ _ _ _).mpr ⟨Ne.symm hy.1, hly⟩⟩

/-- The clone stands for the wake it was made from. -/
theorem mirrors_cloned {start lives : String → Option Life} {id : String} {todo : List String}
    (h : Mirrors start lives (id :: todo)) (hnodup : id ∉ todo) (l : Life)
    (hl : start id = some l) (hlive : l.op.terminal = false) (reason : String) (clone : WakeItem)
    (hkind : clone.kind = l.item.kind) (hpayload : clone.payload = l.item.payload)
    (hnew : Function.update lives id (some (cancelledLife l reason)) clone.id = none)
    (hknown : ∀ x ∈ todo, ∃ y, start x = some y) :
    Mirrors start (Function.update (Function.update lives id (some (cancelledLife l reason)))
      clone.id (some ⟨clone, .enqueue, none, none⟩)) todo := by
  have hclone : clone.id ∉ todo := by
    intro hm
    obtain ⟨y, hy⟩ := hknown _ hm
    have hne : id ≠ clone.id := fun he => hnodup (he ▸ hm)
    rw [update_apply, if_neg hne, h.same _ (List.mem_cons_of_mem _ hm), hy] at hnew
    cases hnew
  refine ⟨?_, ?_, ?_⟩
  · intro x hx
    have h₁ : x ≠ clone.id := fun he => hclone (he ▸ hx)
    have h₂ : x ≠ id := fun he => hnodup (he ▸ hx)
    rw [Function.update_of_ne h₁, Function.update_of_ne h₂]
    exact h.same x (List.mem_cons_of_mem _ hx)
  · intro x y hy hop
    rw [update_apply] at hy
    split_ifs at hy with hx
    · cases hy
      cases hop
    · rw [update_apply] at hy
      split_ifs at hy with hx'
      · cases hy
        cases hop
      · exact (List.mem_cons.mp (h.claimed x y hy hop)).resolve_left (Ne.symm hx')
  · intro kind payload hk
    have hcover := h.cover kind payload hk
    simp only [List.mem_cons, not_or] at hcover
    constructor
    · rintro ⟨x, hx, hlx⟩
      rw [live_enqueued _ _ hnew] at hlx
      rcases hlx with ⟨-, rfl, rfl⟩ | hlx
      · exact ⟨id, hnodup, l, hl, hlive, hkind.symm, hpayload.symm⟩
      · rw [live_cancelled] at hlx
        obtain ⟨y, hy, hly⟩ := hcover.mp ⟨x, ⟨Ne.symm hlx.1, hx⟩, hlx.2⟩
        exact ⟨y, hy.2, hly⟩
    · rintro ⟨x, hx, hlx⟩
      by_cases he : x = id
      · subst he
        obtain ⟨y, hy, -, hyk, hyp⟩ := hlx
        rw [hl] at hy
        cases hy
        refine ⟨clone.id, hclone, ?_⟩
        rw [live_enqueued _ _ hnew]
        exact Or.inl ⟨rfl, hkind.trans hyk, hpayload.trans hyp⟩
      · obtain ⟨y, hy, hly⟩ := hcover.mpr ⟨x, ⟨he, hx⟩, hlx⟩
        refine ⟨y, hy.2, ?_⟩
        rw [live_enqueued _ _ hnew, live_cancelled]
        exact Or.inr ⟨Ne.symm hy.1, hly⟩

section Loop

variable {env : Env} {start : String → Option Life}

/-- Every id still to do was claimed at the start. -/
def AllClaimed (start : String → Option Life) (ids : List String) : Prop :=
  ids.Nodup ∧ ∀ id ∈ ids, ∃ l, start id = some l ∧ l.op = .claimed

theorem AllClaimed.tail {id : String} {ids : List String} (h : AllClaimed start (id :: ids)) :
    AllClaimed start ids :=
  ⟨(List.nodup_cons.mp h.1).2, fun x hx => h.2 x (List.mem_cons_of_mem _ hx)⟩

/-- Without a crash the loop turns every claimed durable wake into a pending one. -/
theorem recoverLoop_complete (hinj : Function.Injective env.uuid4) (ids : List String)
    (hids : AllClaimed start ids) (w : World) (lives : String → Option Life)
    (h : Ready env w lives) (hf : w.faults = []) (hm : Mirrors start lives ids) :
    ∃ clones w' lives', recoverLoop env ids w = .ok clones w' ∧ Ready env w' lives' ∧
      (Full w.queue lives → Full w'.queue lives') ∧ Mirrors start lives' [] := by
  induction ids generalizing w lives with
  | nil => exact ⟨[], w, lives, rfl, h, id, hm⟩
  | cons id ids ih =>
    obtain ⟨l, hl, hop⟩ := hids.2 id (by simp)
    have hnodup : id ∉ ids := (List.nodup_cons.mp hids.1).1
    have hlive : l.op.terminal = false := by
      rw [hop]
      rfl
    have hcur : lives id = some l := (hm.same id (by simp)).trans hl
    have hitem : w.queue.items.get? id = some l.item := by
      rw [h.sound.items, hcur]
      rfl
    obtain ⟨w₁, hc, hf₁, hfull₁, hr₁⟩ := ready_cancel h id reasonInterrupted l hcur hlive (by rw [hf]; rfl)
    rw [recoverLoop, run_bind, getQueue_eq]
    simp only [hitem, run_bind, hc, run_ite]
    have hf₁' : w₁.faults = [] := by
      rw [hf₁, hf]
      rfl
    cases hk : l.item.kind.reEnqueueOnRecover with
    | false =>
      obtain ⟨clones, w', lives', hrun, hr', hfull', hm'⟩ := ih hids.tail w₁ _ hr₁ hf₁'
        (mirrors_cancelled hm hnodup l hl _ hk)
      exact ⟨clones, w', lives', hrun, hr', fun hfull => hfull' (hfull₁ hfull), hm'⟩
    | true =>
      obtain ⟨clone, w₂, he, hf₂, hkind, hpay, hnew, hfull₂, hr₂⟩ := ready_enqueue hr₁ hinj
        l.item.kind l.item.payload (by rw [hf₁']; rfl)
      have hm₂ := mirrors_cloned hm hnodup l hl hlive reasonInterrupted clone hkind hpay hnew
        (fun x hx => (hids.tail.2 x hx).imp (fun _ hy => hy.1))
      obtain ⟨clones, w', lives', hrun, hr', hfull', hm'⟩ := ih hids.tail w₂ _ hr₂
        (by rw [hf₂, hf₁']; rfl) hm₂
      refine ⟨clone :: clones, w', lives', ?_, hr', fun hfull => hfull' (hfull₂ (hfull₁ hfull)), hm'⟩
      simp only [if_true, he, hrun]
      rfl

/-- The wake whose cancellation is the last of the first `j` rows recovery appends, if its clone
is still to come. -/
def cutAfterCancel : List WakeItem → Nat → Option WakeItem
  | [], _ => none
  | _ :: _, 0 => none
  | item :: rest, j + 1 =>
    if item.kind.reEnqueueOnRecover then
      match j with
      | 0 => some item
      | k + 1 => cutAfterCancel rest k
    else
      cutAfterCancel rest j

/-- After a crash the durable wakes are those of the start, but for the one just cancelled. -/
def CoversBut (start lives : String → Option Life) (lost : Option WakeItem) : Prop :=
  ∀ kind payload, kind.reEnqueueOnRecover = true →
    ((∃ x, Live lives x kind payload) ↔
      ∃ x, (∀ item ∈ lost, item.id ≠ x) ∧ Live start x kind payload)

theorem covers_of_mirrors {lives : String → Option Life} {todo : List String}
    (h : Mirrors start lives todo) : CoversBut start lives none := by
  intro kind payload hk
  have hcover := h.cover kind payload hk
  have hlive (x : String) (hx : x ∈ todo) : Live lives x kind payload ↔ Live start x kind payload := by
    unfold Live
    rw [h.same x hx]
  constructor
  · rintro ⟨x, hl⟩
    by_cases hx : x ∈ todo
    · exact ⟨x, by simp, (hlive x hx).mp hl⟩
    · obtain ⟨y, -, hy⟩ := hcover.mp ⟨x, hx, hl⟩
      exact ⟨y, by simp, hy⟩
  · rintro ⟨x, -, hl⟩
    by_cases hx : x ∈ todo
    · exact ⟨x, (hlive x hx).mpr hl⟩
    · obtain ⟨y, -, hy⟩ := hcover.mpr ⟨x, hx, hl⟩
      exact ⟨y, hy⟩

/-- The items of claimed wakes, in the order of their ids. -/
def ItemsOf (start : String → Option Life) : List String → List WakeItem → Prop :=
  List.Forall₂ (fun id item => item.id = id ∧ ∃ l, start id = some l ∧ l.item = item)

/-- A crash of the loop before its (j+1)-th append. -/
theorem recoverLoop_crash (hinj : Function.Injective env.uuid4) (ids : List String)
    (hids : AllClaimed start ids) (items : List WakeItem) (hitems : ItemsOf start ids items)
    (j : Nat) (w : World) (lives : String → Option Life)
    (h : Ready env w lives) (hf : w.faults = List.replicate j false ++ [true])
    (hm : Mirrors start lives ids) (w' : World)
    (hcrash : recoverLoop env ids w = .error .osError w') :
    ∃ lives', Ready env w' lives' ∧ CoversBut start lives' (cutAfterCancel items j) := by
  induction hitems generalizing j w lives with
  | nil => cases hcrash
  | @cons id item ids items hhead htail ih =>
    obtain ⟨hitemId, l, hl, rfl⟩ := hhead
    obtain ⟨l', hl', hop⟩ := hids.2 id (by simp)
    rw [hl] at hl'
    cases hl'
    have hnodup : id ∉ ids := (List.nodup_cons.mp hids.1).1
    have hlive : l.op.terminal = false := by
      rw [hop]
      rfl
    have hcur : lives id = some l := (hm.same id (by simp)).trans hl
    have hitem : w.queue.items.get? id = some l.item := by
      rw [h.sound.items, hcur]
      rfl
    rw [recoverLoop, run_bind, getQueue_eq] at hcrash
    simp only [hitem, run_bind, run_ite] at hcrash
    cases j with
    | zero =>
      -- the crash comes before the cancellation of this wake
      obtain ⟨w₁, hc, hr₁⟩ := cancel_crash h id reasonInterrupted l hcur hlive (by rw [hf]; rfl)
      rw [hc] at hcrash
      cases hcrash
      exact ⟨lives, hr₁, covers_of_mirrors hm⟩
    | succ j =>
      obtain ⟨w₁, hc, hf₁, -, hr₁⟩ := ready_cancel h id reasonInterrupted l hcur hlive
        (by rw [hf]; rfl)
      have hf₁' : w₁.faults = List.replicate j false ++ [true] := by
        rw [hf₁, hf]
        rfl
      rw [hc] at hcrash
      simp only [] at hcrash
      cases hk : l.item.kind.reEnqueueOnRecover with
      | false =>
        rw [if_neg (by rw [hk]; decide)] at hcrash
        have hrest := ih hids.tail j w₁ _ hr₁ hf₁' (mirrors_cancelled hm hnodup l hl _ hk) hcrash
        simp only [cutAfterCancel, hk]
        exact hrest
      | true =>
        rw [if_pos hk] at hcrash
        simp only [cutAfterCancel, hk, if_true]
        cases j with
        | zero =>
          -- the crash comes between the cancellation and its clone
          obtain ⟨w₂, he, hr₂⟩ := enqueue_crash hr₁ l.item.kind l.item.payload
            (by rw [hf₁']; rfl)
          rw [he] at hcrash
          cases hcrash
          refine ⟨_, hr₂, ?_⟩
          intro kind payload hkind
          rw [cover_cancelled hm l reasonInterrupted kind payload hkind]
          simp only [Option.mem_def, Option.some.injEq, forall_eq', hitemId]
        | succ k =>
          obtain ⟨clone, w₂, he, hf₂, hkind, hpay, hnew, -, hr₂⟩ := ready_enqueue hr₁ hinj
            l.item.kind l.item.payload (by rw [hf₁']; rfl)
          have hm₂ := mirrors_cloned hm hnodup l hl hlive reasonInterrupted clone hkind hpay hnew
            (fun x hx => (hids.tail.2 x hx).imp (fun _ hy => hy.1))
          have hf₂' : w₂.faults = List.replicate k false ++ [true] := by
            rw [hf₂, hf₁']
            rfl
          have hrest : recoverLoop env ids w₂ = .error .osError w' := by
            rw [he] at hcrash
            simp only [] at hcrash
            cases hr : recoverLoop env ids w₂ with
            | ok clones t =>
              rw [hr] at hcrash
              cases hcrash
            | error e t =>
              rw [hr] at hcrash
              cases hcrash
              rfl
          exact ih hids.tail k w₂ _ hr₂ hf₂' hm₂ hrest

end Loop

section Replace

variable {env : Env}

/-- The lives after some wakes were cancelled. -/
def dropped (lives : String → Option Life) (ids : List String) (reason : String) :
    String → Option Life :=
  fun x => if x ∈ ids then (lives x).map (fun l => cancelledLife l reason) else lives x

theorem live_dropped (lives : String → Option Life) (ids : List String) (reason : String)
    (x : String) (kind : WakeKind) (payload : Payload) :
    Live (dropped lives ids reason) x kind payload ↔ x ∉ ids ∧ Live lives x kind payload := by
  unfold Live dropped
  by_cases hx : x ∈ ids
  · simp only [if_pos hx, Option.map_eq_some_iff]
    constructor
    · rintro ⟨y, ⟨z, -, rfl⟩, hop, -⟩
      cases hop
    · rintro ⟨hno, -⟩
      exact absurd hx hno
  · simp only [hx, if_false, not_false_eq_true, true_and]

theorem dropped_cons (lives : String → Option Life) (id : String) (ids : List String)
    (reason : String) (l : Life) (hl : lives id = some l) (hid : id ∉ ids) :
    dropped (Function.update lives id (some (cancelledLife l reason))) ids reason =
      dropped lives (id :: ids) reason := by
  funext x
  unfold dropped
  rw [update_apply]
  by_cases hx : id = x
  · subst hx
    simp [hid, hl]
  · simp [hx, Ne.symm hx]

/-- Cancelling a list of pending wakes, with a crash before the (j+1)-th append at the latest. -/
theorem cancelAll_prefix (reason : String) (ids : List String) (hnodup : ids.Nodup) (j : Nat)
    (w : World) (lives : String → Option Life) (h : Ready env w lives)
    (hlive : ∀ id ∈ ids, ∃ l, lives id = some l ∧ l.op.terminal = false)
    (hf : w.faults = List.replicate j false ++ [true]) :
    ∃ w', Ready env w' (dropped lives (ids.take j) reason) ∧
      (j < ids.length → cancelAll env reason ids w = .error .osError w') ∧
      (ids.length ≤ j → cancelAll env reason ids w = .ok () w' ∧
        w'.faults = List.replicate (j - ids.length) false ++ [true]) := by
  induction ids generalizing j w lives with
  | nil =>
    have hsame : dropped lives [] reason = lives := by
      funext x
      simp [dropped]
    refine ⟨w, ?_, fun hj => absurd hj (Nat.not_lt_zero j), fun _ => ⟨rfl, hf⟩⟩
    rw [List.take_nil, hsame]
    exact h
  | cons id ids ih =>
    obtain ⟨hid, hrest⟩ := List.nodup_cons.mp hnodup
    obtain ⟨l, hl, hop⟩ := hlive id (by simp)
    rw [cancelAll]
    cases j with
    | zero =>
      obtain ⟨w₁, hc, hr₁⟩ := cancel_crash h id reason l hl hop (by rw [hf]; rfl)
      refine ⟨w₁, ?_, ?_, fun hj => absurd hj (Nat.not_succ_le_zero _)⟩
      · have hsame : dropped lives [] reason = lives := by
          funext x
          simp [dropped]
        rw [List.take_zero, hsame]
        exact hr₁
      · intro _
        rw [run_bind, hc]
    | succ j =>
      obtain ⟨w₁, hc, hf₁, -, hr₁⟩ := ready_cancel h id reason l hl hop (by rw [hf]; rfl)
      have hf₁' : w₁.faults = List.replicate j false ++ [true] := by
        rw [hf₁, hf]
        rfl
      have hlive₁ : ∀ x ∈ ids, ∃ y,
          Function.update lives id (some (cancelledLife l reason)) x = some y ∧
            y.op.terminal = false := by
        intro x hx
        have hne : x ≠ id := fun he => hid (he ▸ hx)
        rw [Function.update_of_ne hne]
        exact hlive x (List.mem_cons_of_mem _ hx)
      obtain ⟨w', hr', herr, hok⟩ := ih hrest j w₁ _ hr₁ hlive₁ hf₁'
      have htake : id ∉ ids.take j := fun hm => hid (List.mem_of_mem_take hm)
      rw [dropped_cons _ _ _ _ _ hl htake] at hr'
      refine ⟨w', hr', ?_, ?_⟩
      · intro hj
        rw [run_bind, hc]
        exact herr (Nat.lt_of_succ_lt_succ hj)
      · intro hj
        obtain ⟨hrun, hfaults⟩ := hok (Nat.le_of_succ_le_succ hj)
        rw [run_bind, hc, List.length_cons, Nat.add_sub_add_right]
        exact ⟨hrun, hfaults⟩

end Replace

/-- A `task_ready` wake of the task. -/
def isTask (taskId : String) (item : WakeItem) : Bool :=
  item.kind = .taskReady && item.payload.get? "task_id" = some (.str taskId)

def WakeQueue.isLiveId (q : WakeQueue) (id : String) : Prop :=
  q.status id = some .enqueue ∨ q.status id = some .claimed

section Queue

variable {q : WakeQueue} {lives : String → Option Life}

theorem item_id (h : Sound q lives) (id : String) (item : WakeItem)
    (hi : q.items.get? id = some item) : item.id = id := by
  rw [h.items, Option.map_eq_some_iff] at hi
  obtain ⟨l, hl, rfl⟩ := hi
  exact h.itemId id l hl

theorem live_iff (h : Sound q lives) (id : String) (kind : WakeKind) (payload : Payload) :
    Live lives id kind payload ↔ ∃ item ∈ q.items.values, item.id = id ∧ q.isLiveId id ∧
      item.kind = kind ∧ item.payload = payload := by
  have hop (l : Life) (hl : lives id = some l) : l.op.terminal = false ↔ q.isLiveId id := by
    simp only [WakeQueue.isLiveId, WakeQueue.status, h.ops, hl, Option.map_some]
    cases l.op <;> simp [WakeOp.terminal]
  constructor
  · rintro ⟨l, hl, ht, hk, hp⟩
    have hitem : q.items.get? id = some l.item := by
      rw [h.items, hl]
      rfl
    exact ⟨l.item, (Dict.mem_values _ _).mpr ⟨id, hitem⟩, h.itemId id l hl, (hop l hl).mp ht, hk, hp⟩
  · rintro ⟨item, hm, rfl, hlive, hk, hp⟩
    obtain ⟨x, hx⟩ := (Dict.mem_values _ _).mp hm
    have hid := item_id h x item hx
    subst hid
    rw [h.items, Option.map_eq_some_iff] at hx
    obtain ⟨l, hl, rfl⟩ := hx
    exact ⟨l, hl, (hop l hl).mpr hlive, hk, hp⟩

theorem mem_claimedIds (id : String) : id ∈ q.claimedIds ↔ q.ops.get? id = some .claimed := by
  simp only [WakeQueue.claimedIds, List.mem_map, List.mem_filter, decide_eq_true_eq, Prod.exists,
    Dict.get?_eq_some_iff]
  constructor
  · rintro ⟨x, op, ⟨hm, rfl⟩, rfl⟩
    exact hm
  · intro hm
    exact ⟨id, .claimed, ⟨hm, rfl⟩, rfl⟩

theorem allClaimed (h : Sound q lives) : AllClaimed lives q.claimedIds := by
  refine ⟨?_, ?_⟩
  · exact q.ops.nodup.sublist (List.filter_sublist.map Prod.fst)
  · intro id hm
    rw [mem_claimedIds, h.ops, Option.map_eq_some_iff] at hm
    exact hm

theorem itemsOf_claimed (h : Sound q lives) : ItemsOf lives q.claimedIds q.claimed := by
  have hall : ∀ ids : List String, (∀ id ∈ ids, id ∈ q.claimedIds) →
      ItemsOf lives ids (ids.filterMap q.items.get?) := by
    intro ids
    induction ids with
    | nil => exact fun _ => List.Forall₂.nil
    | cons id ids ih =>
      intro hm
      obtain ⟨l, hl, -⟩ := (allClaimed h).2 id (hm id (by simp))
      have hitem : q.items.get? id = some l.item := by
        rw [h.items, hl]
        rfl
      rw [List.filterMap_cons_some hitem]
      exact .cons ⟨h.itemId id l hl, l, hl, rfl⟩
        (ih (fun x hx => hm x (List.mem_cons_of_mem _ hx)))
  exact hall q.claimedIds (fun _ hm => hm)

theorem mirrors_start (h : Sound q lives) : Mirrors lives lives q.claimedIds := by
  refine ⟨fun _ _ => rfl, ?_, fun _ _ _ => Iff.rfl⟩
  intro id l hl hop
  rw [mem_claimedIds, h.ops, hl, ← hop]
  rfl

/-- Every listed wake is pending or claimed. -/
theorem live_of_listed (h : Sound q lives) (item : WakeItem) (hm : item ∈ q.pending ++ q.claimed) :
    Live lives item.id item.kind item.payload ∧ q.items.get? item.id = some item := by
  rcases List.mem_append.mp hm with hp | hc
  · obtain ⟨hpend, hi⟩ := (mem_pending h item).mp hp
    obtain ⟨l, hl, hop⟩ := h.pendingOp item.id hpend
    have hsame := hi
    rw [h.items, hl] at hsame
    cases hsame
    refine ⟨⟨l, hl, ?_, rfl, rfl⟩, hi⟩
    rw [hop]
    rfl
  · rw [WakeQueue.claimed, List.mem_filterMap] at hc
    obtain ⟨id, hid, hi⟩ := hc
    obtain ⟨l, hl, hop⟩ := (allClaimed h).2 id hid
    have hitemId := item_id h id item hi
    subst hitemId
    have hsame := hi
    rw [h.items, hl] at hsame
    cases hsame
    refine ⟨⟨l, hl, ?_, rfl, rfl⟩, hi⟩
    rw [hop]
    rfl

end Queue

theorem cutAfterCancel_mem (items : List WakeItem) (j : Nat) (item : WakeItem)
    (h : cutAfterCancel items j = some item) :
    item ∈ items ∧ item.kind.reEnqueueOnRecover = true := by
  induction items generalizing j with
  | nil => cases h
  | cons first rest ih =>
    cases j with
    | zero => cases h
    | succ j =>
      cases hk : first.kind.reEnqueueOnRecover with
      | false =>
        simp only [cutAfterCancel, hk] at h
        obtain ⟨hm, hd⟩ := ih j h
        exact ⟨List.mem_cons_of_mem _ hm, hd⟩
      | true =>
        cases j with
        | zero =>
          simp only [cutAfterCancel, hk, if_true] at h
          cases h
          exact ⟨by simp, hk⟩
        | succ k =>
          simp only [cutAfterCancel, hk, if_true] at h
          obtain ⟨hm, hd⟩ := ih k h
          exact ⟨List.mem_cons_of_mem _ hm, hd⟩

section Restart

variable [PyCoerce] {env : Env}

/-- After a restart a complete recovery leaves the live durable wakes of the log pending. -/
theorem restart_recovers (hinj : Function.Injective env.uuid4) (w : World)
    (lives : String → Option Life) (h : Ready env w lives) :
    ∃ q clones w', openQueue w.log = .ok q ∧
      recoverClaimed env ⟨w.log, [], w.draws, q⟩ = .ok clones w' ∧
      ∀ kind payload, kind.reEnqueueOnRecover = true →
        ((∃ item ∈ w'.queue.pending, item.kind = kind ∧ item.payload = payload) ↔
          ∃ id, Live lives id kind payload) := by
  obtain ⟨events, hlog, rfl⟩ := h.log
  obtain ⟨q, hopen, hq, hfull⟩ := openQueue_eventBytes events
  rw [← hlog] at hopen
  have hready : Ready env ⟨w.log, [], w.draws, q⟩ (lifeOf events) :=
    ⟨⟨events, hlog, rfl⟩, hq, h.fresh⟩
  obtain ⟨clones, w', lives', hrun, hr', hfull', hm⟩ := recoverLoop_complete hinj q.claimedIds
    (allClaimed hq) _ _ hready rfl (mirrors_start hq)
  refine ⟨q, clones, w', hopen, hrun, ?_⟩
  intro kind payload hk
  have hcover := hm.cover kind payload hk
  simp only [List.not_mem_nil, not_false_eq_true, true_and] at hcover
  rw [← hcover]
  constructor
  · rintro ⟨item, hi, rfl, rfl⟩
    exact ⟨item.id, (live_of_listed hr'.sound item (List.mem_append_left _ hi)).1⟩
  · rintro ⟨id, l, hl, hop, hlk, hlp⟩
    have hnot : l.op ≠ .claimed := fun he => absurd (hm.claimed id l hl he) List.not_mem_nil
    have henq : l.op = .enqueue := by
      cases ho : l.op with
      | enqueue => rfl
      | claimed => exact absurd ho hnot
      | done | cancelled =>
        rw [ho] at hop
        cases hop
    have hitem : w'.queue.items.get? l.item.id = some l.item := by
      rw [hr'.sound.itemId id l hl, hr'.sound.items, hl]
      rfl
    refine ⟨l.item, (mem_pending hr'.sound _).mpr ⟨?_, hitem⟩, hlk, hlp⟩
    rw [hr'.sound.itemId id l hl]
    exact hfull' hfull id l hl henq

end Restart

/-- The two operations that cancel before they enqueue. -/
inductive RecoveryOp where
  | recover
  | replace (taskId : String) (goalId : Option String) (payload : Payload)

def RecoveryOp.call : RecoveryOp → Call
  | .recover => .recoverClaimed
  | .replace taskId goalId payload => .enqueueTaskReady taskId goalId payload

/-- Fresh draws of `uuid4`: none is in use, and no two are the same. -/
structure FreshUuids (env : Env) (w : World) : Prop where
  unused : ∀ n, w.draws ≤ n → w.queue.status (env.uuid4 n) = none
  injective : Function.Injective env.uuid4

/-- After a restart and a complete recovery every timer, task_ready and moment_continue wake that
was pending or claimed has a pending wake of its kind and payload; where a task's wakes are being
replaced, one for the task. -/
def WakesKept [PyCoerce] (env : Env) (op : RecoveryOp) (before : WakeQueue) (crashed : World) :
    Prop :=
  ∃ q clones w', openQueue crashed.log = .ok q ∧
    recoverClaimed env ⟨crashed.log, [], crashed.draws, q⟩ = .ok clones w' ∧
    ∀ item ∈ before.pending ++ before.claimed, item.kind.reEnqueueOnRecover = true →
      (∃ other ∈ w'.queue.pending, other.kind = item.kind ∧ other.payload = item.payload) ∨
      match op with
      | .recover => False
      | .replace taskId _ _ => isTask taskId item = true ∧
          ∃ other ∈ w'.queue.pending, isTask taskId other = true

/-- Recovery: the crash is not between the cancellation of a durable wake and its clone, or
another live wake has its kind and payload. Replacement: nothing is cancelled yet, a replaced
wake is still pending, or the task has a live wake that is not replaced. -/
def SafeCrash (q : WakeQueue) (j : Nat) : RecoveryOp → Prop
  | .recover => ∀ item ∈ cutAfterCancel q.claimed j, ∃ other ∈ q.items.values,
      other.id ≠ item.id ∧ q.isLiveId other.id ∧ other.kind = item.kind ∧
        other.payload = item.payload
  | .replace taskId _ _ => j = 0 ∨ j < (q.pending.filter (isTask taskId)).length ∨
      ∃ other ∈ q.items.values, isTask taskId other = true ∧ q.isLiveId other.id ∧
        q.pendingIds.get? other.id = none

section Crash

variable {env : Env} {q : WakeQueue} {lives : String → Option Life}

/-- The wakes a replacement cancels: the pending ones of its task, each once. -/
structure Olds (q : WakeQueue) (taskId : String) (ids : List String) : Prop where
  nodup : ids.Nodup
  mem : ∀ id, id ∈ ids ↔ ∃ item ∈ q.pending, item.id = id ∧ isTask taskId item = true
  length : ids.length = (q.pending.filter (isTask taskId)).length

theorem map_filterMap_eq_filter {α β : Type} (f : α → Option β) (g : β → α) (l : List α)
    (h : ∀ a b, f a = some b → g b = a) :
    (l.filterMap f).map g = l.filter (fun a => (f a).isSome) := by
  induction l with
  | nil => rfl
  | cons a l ih =>
    cases hf : f a with
    | none => rw [List.filterMap_cons_none hf, List.filter_cons_of_neg (by simp [hf]), ih]
    | some b =>
      rw [List.filterMap_cons_some hf, List.filter_cons_of_pos (by simp [hf]), List.map_cons,
        h a b hf, ih]

theorem pending_ids_nodup (h : Sound q lives) : (q.pending.map WakeItem.id).Nodup := by
  have hperm : (q.pending.map WakeItem.id).Perm (q.pendingItems.map WakeItem.id) :=
    (List.perm_insertionSort WakeQueue.keyLe q.pendingItems).map WakeItem.id
  rw [hperm.nodup_iff, WakeQueue.pendingItems,
    map_filterMap_eq_filter q.items.get? WakeItem.id _ (fun id item => item_id h id item)]
  exact (q.pendingIds.nodup.filter _).filter _

theorem taskReadyItem_iff (taskId id : String) (item : WakeItem) :
    taskReadyItem q taskId id = some item ↔ q.items.get? id = some item ∧
      q.ops.get? id = some .enqueue ∧ isTask taskId item = true := by
  simp only [taskReadyItem, isTask, Option.filter_eq_some_iff, Bool.and_eq_true, decide_eq_true_eq]
  constructor
  · rintro ⟨hi, ⟨hk, ho⟩, hp⟩
    exact ⟨hi, ho, hk, hp⟩
  · rintro ⟨hi, ho, hk, hp⟩
    exact ⟨hi, ⟨hk, ho⟩, hp⟩

theorem pendingTaskReady_eq (h : Sound q lives) (env : Env) (taskId : String) (w : World)
    (hw : w.queue = q) : ∃ olds, pendingTaskReady env taskId w =
      .ok olds { w with draws := w.draws + 1 } ∧ Olds q taskId (olds.map WakeItem.id) := by
  let keys := env.iterSet w.draws q.pendingIds.keys
  have hperm : keys.Perm q.pendingIds.keys := env.iterSet_perm _ _
  have hids : (keys.filterMap (taskReadyItem q taskId)).map WakeItem.id =
      keys.filter (fun id => (taskReadyItem q taskId id).isSome) :=
    map_filterMap_eq_filter _ _ _
      (fun id item hi => item_id h id item ((taskReadyItem_iff taskId id item).mp hi).1)
  have hnodup : ((keys.filterMap (taskReadyItem q taskId)).map WakeItem.id).Nodup := by
    rw [hids]
    exact (hperm.nodup_iff.mpr q.pendingIds.nodup).filter _
  have hmem (id : String) : id ∈ (keys.filterMap (taskReadyItem q taskId)).map WakeItem.id ↔
      ∃ item ∈ q.pending, item.id = id ∧ isTask taskId item = true := by
    rw [hids, List.mem_filter, hperm.mem_iff, Option.isSome_iff_exists]
    constructor
    · rintro ⟨hk, item, hi⟩
      obtain ⟨hitem, hop, htask⟩ := (taskReadyItem_iff taskId id item).mp hi
      have hid := item_id h id item hitem
      subst hid
      obtain ⟨u, hu⟩ := (Dict.mem_keys _ _).mp hk
      exact ⟨item, (mem_pending h item).mpr ⟨hu, hitem⟩, rfl, htask⟩
    · rintro ⟨item, hm, rfl, htask⟩
      obtain ⟨hu, hitem⟩ := (mem_pending h item).mp hm
      obtain ⟨l, hl, hop⟩ := h.pendingOp item.id hu
      refine ⟨(Dict.mem_keys _ _).mpr ⟨(), hu⟩, item, (taskReadyItem_iff taskId _ _).mpr
        ⟨hitem, ?_, htask⟩⟩
      rw [h.ops, hl, ← hop]
      rfl
  refine ⟨keys.filterMap (taskReadyItem q taskId), ?_, hnodup, hmem, ?_⟩
  · subst hw
    rfl
  · have hsame : ((keys.filterMap (taskReadyItem q taskId)).map WakeItem.id).Perm
        ((q.pending.filter (isTask taskId)).map WakeItem.id) := by
      rw [List.perm_ext_iff_of_nodup hnodup
        ((pending_ids_nodup h).sublist (List.filter_sublist.map WakeItem.id))]
      intro id
      rw [hmem]
      simp only [List.mem_map, List.mem_filter]
      constructor
      · rintro ⟨item, hm, hid, htask⟩
        exact ⟨item, ⟨hm, htask⟩, hid⟩
      · rintro ⟨item, ⟨hm, htask⟩, hid⟩
        exact ⟨item, hm, hid, htask⟩
    rw [hsame.length_eq, List.length_map]

/-- What a crash of a replacement before its (j+1)-th append leaves. -/
theorem replace_crash (hinj : Function.Injective env.uuid4) (taskId : String)
    (goalId : Option String) (payload : Payload) (j : Nat) (w w' : World)
    (h : Ready env w lives) (hf : w.faults = List.replicate j false ++ [true])
    (hcrash : enqueueTaskReady env taskId goalId payload w = .error .osError w') :
    ∃ ids, Olds w.queue taskId ids ∧ j ≤ ids.length ∧
      Ready env w' (dropped lives (ids.take j) reasonReplaced) := by
  have htask : taskId ≠ "" := by
    rintro rfl
    cases hcrash
  obtain ⟨olds, hrun, hold⟩ := pendingTaskReady_eq h.sound env taskId w rfl
  have hready : Ready env { w with draws := w.draws + 1 } lives :=
    h.later rfl rfl (Nat.le_succ _)
  have hlive : ∀ id ∈ olds.map WakeItem.id, ∃ l, lives id = some l ∧ l.op.terminal = false := by
    intro id hm
    obtain ⟨item, hp, rfl, -⟩ := (hold.mem id).mp hm
    obtain ⟨⟨l, hl, hop, -⟩, -⟩ := live_of_listed h.sound item (List.mem_append_left _ hp)
    exact ⟨l, hl, hop⟩
  obtain ⟨w₁, hr₁, herr, hok⟩ := cancelAll_prefix reasonReplaced (olds.map WakeItem.id) hold.nodup j
    _ lives hready hlive hf
  rw [enqueueTaskReady, if_neg htask, run_bind, hrun] at hcrash
  simp only [run_bind] at hcrash
  by_cases hj : j < (olds.map WakeItem.id).length
  · rw [herr hj] at hcrash
    cases hcrash
    exact ⟨_, hold, Nat.le_of_lt hj, hr₁⟩
  · obtain ⟨hcancel, hfaults⟩ := hok (Nat.le_of_not_lt hj)
    rw [hcancel] at hcrash
    simp only [] at hcrash
    cases hd : j - (olds.map WakeItem.id).length with
    | zero =>
      obtain ⟨w₂, he, hr₂⟩ := enqueue_crash hr₁ .taskReady (taskReadyBody taskId goalId payload)
        (by rw [hfaults, hd]; rfl)
      rw [he] at hcrash
      cases hcrash
      exact ⟨_, hold, by omega, hr₂⟩
    | succ n =>
      obtain ⟨item, w₂, he, -⟩ := ready_enqueue hr₁ hinj .taskReady
        (taskReadyBody taskId goalId payload) (by rw [hfaults, hd]; rfl)
      rw [he] at hcrash
      cases hcrash

end Crash

section Claim

variable [PyCoerce] (env : Env)

theorem ready_run (faults : List Bool) (calls : List Call)
    (hfresh : FreshUuids env (run (stepCall env) (World.start faults) calls)) :
    ∃ lives, Ready env (run (stepCall env) (World.start faults) calls) lives := by
  obtain ⟨events, hs⟩ := run_synced env faults calls
  refine ⟨lifeOf events, ⟨events, hs.log, rfl⟩, hs.sound, ?_⟩
  intro n hn
  have hnone := hfresh.unused n hn
  rw [WakeQueue.status, hs.sound.ops, Option.map_eq_none_iff] at hnone
  exact hnone

omit [PyCoerce] in
theorem recoverClaimed_crash {w w' : World} {lives : String → Option Life}
    (hinj : Function.Injective env.uuid4) (h : Ready env w lives) (j : Nat)
    (hcrash : recoverClaimed env { w with faults := List.replicate j false ++ [true] } =
      .error .osError w') :
    ∃ lives', Ready env w' lives' ∧
      CoversBut lives lives' (cutAfterCancel w.queue.claimed j) := by
  have hready : Ready env { w with faults := List.replicate j false ++ [true] } lives :=
    h.later rfl rfl (le_refl _)
  rw [recoverClaimed, run_bind, getQueue_eq] at hcrash
  exact recoverLoop_crash hinj _ (allClaimed h.sound) _ (itemsOf_claimed h.sound) j _ lives hready
    rfl (mirrors_start h.sound) w' hcrash

theorem recover_kept_iff {w w' : World} {lives : String → Option Life}
    (hinj : Function.Injective env.uuid4) (h : Ready env w lives) (j : Nat)
    (hcrash : recoverClaimed env { w with faults := List.replicate j false ++ [true] } =
      .error .osError w') :
    WakesKept env .recover w.queue w' ↔ SafeCrash w.queue j .recover := by
  obtain ⟨lives', hr', hcover⟩ := recoverClaimed_crash env hinj h j hcrash
  obtain ⟨q, clones, w'', hopen, hrun, hpend⟩ := restart_recovers hinj w' lives' hr'
  constructor
  · intro hkept item hcut
    obtain ⟨q', clones', x, hopen', hrun', hall⟩ := hkept
    rw [hopen] at hopen'
    cases hopen'
    rw [hrun] at hrun'
    cases hrun'
    obtain ⟨hm, hk⟩ := cutAfterCancel_mem _ _ _ hcut
    have hother := hall item (List.mem_append_right _ hm) hk
    rcases hother with hother | hfalse
    · obtain ⟨x, hne, hlive⟩ := (hcover _ _ hk).mp ((hpend _ _ hk).mp hother)
      obtain ⟨other, hv, rfl, hst, hkind, hpay⟩ := (live_iff h.sound x _ _).mp hlive
      exact ⟨other, hv, Ne.symm (hne item hcut), hst, hkind, hpay⟩
    · exact absurd hfalse id
  · intro hsafe
    refine ⟨q, clones, w'', hopen, hrun, ?_⟩
    intro item hm hk
    obtain ⟨hlive, hitem⟩ := live_of_listed h.sound item hm
    refine Or.inl ((hpend _ _ hk).mpr ((hcover _ _ hk).mpr ?_))
    by_cases hcut : ∀ lost ∈ cutAfterCancel w.queue.claimed j, lost.id ≠ item.id
    · exact ⟨item.id, hcut, hlive⟩
    · simp only [not_forall, not_not] at hcut
      obtain ⟨lost, hlost, hid⟩ := hcut
      obtain ⟨hlm, -⟩ := cutAfterCancel_mem _ _ _ hlost
      obtain ⟨-, hli⟩ := live_of_listed h.sound lost (List.mem_append_right _ hlm)
      rw [hid, hitem] at hli
      cases hli
      obtain ⟨other, hv, hne, hst, hkind, hpay⟩ := hsafe _ hlost
      refine ⟨other.id, ?_, (live_iff h.sound _ _ _).mpr ⟨other, hv, rfl, hst, hkind, hpay⟩⟩
      intro lost' hlost'
      rw [Option.mem_unique hlost' hlost]
      exact Ne.symm hne

omit [PyCoerce] in
theorem isTask_iff (taskId : String) (item : WakeItem) : isTask taskId item = true ↔
    item.kind = .taskReady ∧ item.payload.get? "task_id" = some (.str taskId) := by
  simp [isTask]

theorem replace_kept_iff {w w' : World} {lives : String → Option Life}
    (hinj : Function.Injective env.uuid4) (h : Ready env w lives) (taskId : String)
    (goalId : Option String) (payload : Payload) (j : Nat)
    (hcrash : enqueueTaskReady env taskId goalId payload
      { w with faults := List.replicate j false ++ [true] } = .error .osError w') :
    WakesKept env (.replace taskId goalId payload) w.queue w' ↔
      SafeCrash w.queue j (.replace taskId goalId payload) := by
  have hready : Ready env { w with faults := List.replicate j false ++ [true] } lives :=
    h.later rfl rfl (le_refl _)
  obtain ⟨ids, hold, hle, hr'⟩ := replace_crash hinj taskId goalId payload j _ w' hready rfl hcrash
  change Olds w.queue taskId ids at hold
  obtain ⟨q, clones, w'', hopen, hrun, hpend⟩ := restart_recovers hinj w' _ hr'
  simp only [live_dropped] at hpend
  -- a pending wake of the task comes from a live one that was not cancelled
  have htask (x : WakeItem) (hx : isTask taskId x = true) :
      (∃ id, id ∉ ids.take j ∧ Live lives id x.kind x.payload) →
        j < ids.length ∨ ∃ other ∈ w.queue.items.values, isTask taskId other = true ∧
          w.queue.isLiveId other.id ∧ w.queue.pendingIds.get? other.id = none := by
    intro hlive
    obtain ⟨id, hid, hlive⟩ := hlive
    by_cases hj : j < ids.length
    · exact Or.inl hj
    · have hall : ids.take j = ids := List.take_of_length_le (Nat.le_of_not_lt hj)
      rw [hall] at hid
      obtain ⟨other, hv, rfl, hst, hkind, hpay⟩ := (live_iff h.sound id _ _).mp hlive
      have hot : isTask taskId other = true := by
        rw [isTask_iff] at hx ⊢
        rw [hkind, hpay]
        exact hx
      refine Or.inr ⟨other, hv, hot, hst, ?_⟩
      cases hp : w.queue.pendingIds.get? other.id with
      | none => rfl
      | some u =>
        obtain ⟨y, hy⟩ := (Dict.mem_values _ _).mp hv
        have hyid := item_id h.sound y other hy
        subst hyid
        exact absurd ((hold.mem other.id).mpr
          ⟨other, (mem_pending h.sound other).mpr ⟨hp, hy⟩, rfl, hot⟩) hid
  constructor
  · intro hkept
    obtain ⟨q', clones', x, hopen', hrun', hall⟩ := hkept
    rw [hopen] at hopen'
    cases hopen'
    rw [hrun] at hrun'
    cases hrun'
    rw [SafeCrash, ← hold.length]
    cases ids with
    | nil =>
      have hzero : j = 0 := by simpa using hle
      exact Or.inl hzero
    | cons id rest =>
      obtain ⟨item, hm, -, hitask⟩ := (hold.mem id).mp (by simp)
      have hk : item.kind.reEnqueueOnRecover = true := by
        rw [((isTask_iff taskId item).mp hitask).1]
        rfl
      refine Or.inr ?_
      rcases hall item (List.mem_append_left _ hm) hk with hother | ⟨-, other, ho, hot⟩
      · exact htask item hitask ((hpend _ _ hk).mp hother)
      · have hok : other.kind.reEnqueueOnRecover = true := by
          rw [((isTask_iff taskId other).mp hot).1]
          rfl
        exact htask other hot ((hpend _ _ hok).mp ⟨other, ho, rfl, rfl⟩)
  · intro hsafe
    refine ⟨q, clones, w'', hopen, hrun, ?_⟩
    intro item hm hk
    obtain ⟨hlive, hitem⟩ := live_of_listed h.sound item hm
    by_cases hcut : item.id ∈ ids.take j
    · obtain ⟨old, hom, hoid, hot⟩ := (hold.mem item.id).mp (List.mem_of_mem_take hcut)
      obtain ⟨-, hoi⟩ := live_of_listed h.sound old (List.mem_append_left _ hom)
      rw [hoid, hitem] at hoi
      cases hoi
      have hleft : ∃ other, isTask taskId other = true ∧
          ∃ id, id ∉ ids.take j ∧ Live lives id other.kind other.payload := by
        rw [SafeCrash, ← hold.length] at hsafe
        rcases hsafe with hzero | hj | ⟨other, hv, hot', hst, hnp⟩
        · rw [hzero, List.take_zero] at hcut
          exact absurd hcut List.not_mem_nil
        · obtain ⟨other, hotm, hotid, hot'⟩ := (hold.mem ids[j]).mp (List.getElem_mem hj)
          refine ⟨other, hot', ids[j], ?_, ?_⟩
          · intro hmem
            obtain ⟨i, hi, heq⟩ := List.mem_take_iff_getElem.mp hmem
            have hij := (List.Nodup.getElem_inj_iff hold.nodup).mp heq
            omega
          · rw [← hotid]
            exact (live_of_listed h.sound other (List.mem_append_left _ hotm)).1
        · refine ⟨other, hot', other.id, ?_,
            (live_iff h.sound _ _ _).mpr ⟨other, hv, rfl, hst, rfl, rfl⟩⟩
          intro hmem
          obtain ⟨old', hom', hoid', -⟩ := (hold.mem other.id).mp (List.mem_of_mem_take hmem)
          have hp := ((mem_pending h.sound old').mp hom').1
          rw [hoid', hnp] at hp
          cases hp
      obtain ⟨other, hot', hcover⟩ := hleft
      have hok : other.kind.reEnqueueOnRecover = true := by
        rw [((isTask_iff taskId other).mp hot').1]
        rfl
      obtain ⟨found, hfm, hfk, hfp⟩ := (hpend _ _ hok).mpr hcover
      refine Or.inr ⟨hot, found, hfm, ?_⟩
      rw [isTask_iff] at hot' ⊢
      rw [hfk, hfp]
      exact hot'
    · exact Or.inl ((hpend _ _ hk).mpr ⟨item.id, hcut, hlive⟩)

/-- After any calls, a crash of recovery or of a replacement before its (j+1)-th append loses no
durable wake exactly when it is a safe one. -/
theorem crash_keeps_wakes_iff (faults : List Bool) (calls : List Call) (op : RecoveryOp) (j : Nat)
    (w' : World) (hfresh : FreshUuids env (run (stepCall env) (World.start faults) calls))
    (hcrash : exec env op.call { run (stepCall env) (World.start faults) calls with
      faults := List.replicate j false ++ [true] } = .error .osError w') :
    WakesKept env op (run (stepCall env) (World.start faults) calls).queue w' ↔
      SafeCrash (run (stepCall env) (World.start faults) calls).queue j op := by
  obtain ⟨lives, hready⟩ := ready_run env faults calls hfresh
  cases op with
  | recover => exact recover_kept_iff env hfresh.injective hready j (error_of_discard hcrash)
  | replace taskId goalId payload =>
    exact replace_kept_iff env hfresh.injective hready taskId goalId payload j
      (error_of_discard hcrash)

end Claim

section Sample

attribute [local instance] basicCoerce

def claimedTimer : List Call := [.enqueue "timer" .empty (some "w1") none, .claim "m1"]

def claimedMessage : List Call :=
  .enqueue "user_message" .empty (some "w0") none :: .claim "m0" :: claimedTimer

/-- The crash of a recovery before its second append. -/
def crashedRecovery (calls : List Call) : World :=
  after (exec countingEnv .recoverClaimed
    { run (stepCall countingEnv) (World.start []) calls with faults := [false, true] })

theorem fresh_sample (calls : List Call) (ids : List String)
    (hids : (run (stepCall countingEnv) (World.start []) calls).queue.ops.keys = ids)
    (hw : ∀ id ∈ ids, id.toList.head? = some 'w') :
    FreshUuids countingEnv (run (stepCall countingEnv) (World.start []) calls) := by
  refine ⟨?_, countingEnv_injective⟩
  intro n _
  rw [WakeQueue.status, ← Dict.not_mem_keys, hids]
  intro hm
  have hhead := hw _ hm
  rw [countingEnv_head] at hhead
  cases hhead

/-- A crash right after the cancellation of a claimed timer loses the timer. -/
theorem recovery_crash_loses_timer :
    (run (stepCall countingEnv) (World.start []) claimedTimer).queue.status "w1" = some .claimed ∧
      ¬ WakesKept countingEnv .recover
        (run (stepCall countingEnv) (World.start []) claimedTimer).queue
        (crashedRecovery claimedTimer) := by
  refine ⟨by decide +kernel, ?_⟩
  have hkeys : (run (stepCall countingEnv) (World.start []) claimedTimer).queue.ops.keys = ["w1"] := by
    decide +kernel
  obtain ⟨lives, hready⟩ := ready_run countingEnv [] claimedTimer
    (fresh_sample claimedTimer ["w1"] hkeys (by decide))
  have hcrash := osError_of_not_clean (exec countingEnv .recoverClaimed
    { run (stepCall countingEnv) (World.start []) claimedTimer with faults := [false, true] })
    (by decide +kernel)
  have hiff : WakesKept countingEnv .recover
      (run (stepCall countingEnv) (World.start []) claimedTimer).queue
      (crashedRecovery claimedTimer) ↔ SafeCrash _ 1 .recover :=
    recover_kept_iff countingEnv countingEnv_injective hready 1 (error_of_discard hcrash)
  rw [hiff]
  intro hsafe
  let timer : WakeItem := ⟨"w1", .timer, 2, countingEnv.nowIso 0, .empty, rfl⟩
  have hcut : cutAfterCancel
      (run (stepCall countingEnv) (World.start []) claimedTimer).queue.claimed 1 = some timer := by
    decide +kernel
  have hvalues : (run (stepCall countingEnv) (World.start []) claimedTimer).queue.items.values =
      [timer] := by decide +kernel
  obtain ⟨other, hm, hne, -⟩ := hsafe timer hcut
  rw [hvalues, List.mem_singleton] at hm
  exact hne (congrArg WakeItem.id hm)

/-- A crash between the cancellations of a user message and of a timer keeps the timer. -/
theorem crash_keeps_wakes_iff_message :
    WakesKept countingEnv .recover
      (run (stepCall countingEnv) (World.start []) claimedMessage).queue
      (crashedRecovery claimedMessage) :=
  (crash_keeps_wakes_iff countingEnv [] claimedMessage .recover 1 (crashedRecovery claimedMessage)
    (fresh_sample claimedMessage ["w0", "w1"] (by decide +kernel) (by decide))
    (osError_of_not_clean _ (by decide +kernel))).mpr
    (by
      have hcut : cutAfterCancel
          (run (stepCall countingEnv) (World.start []) claimedMessage).queue.claimed 1 = none := by
        decide +kernel
      intro item hitem
      rw [hcut] at hitem
      cases hitem)

end Sample
end Elyra.Presence
