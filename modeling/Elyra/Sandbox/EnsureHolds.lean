import Elyra.Sandbox.Ensure

namespace Elyra.Sandbox.Ensure

section Books

def isCreate : ClientCall → Bool
  | .create _ => true
  | _ => false

def isRemove : ClientCall → Bool
  | .remove _ => true
  | _ => false

def creates (tail : List (Sigma AnswerTo)) : Nat := tail.countP fun e => isCreate e.1

def removes (tail : List (Sigma AnswerTo)) : Nat := tail.countP fun e => isRemove e.1

/-- A ping that was answered `False`. -/
def isDead : Sigma AnswerTo → Bool
  | ⟨.ping _, some (.ok false)⟩ => true
  | _ => false

/-- A call whose exception nothing around it catches, and that raised. -/
def isRaise : Sigma AnswerTo → Bool
  | ⟨.hostTree, .error _⟩ | ⟨.createKwargs, .error _⟩ | ⟨.hostReady, .error _⟩ => true
  | _ => false

/-- After a ping that was answered `False` such a call raised. -/
def retried : List (Sigma AnswerTo) → Bool
  | [] => false
  | e :: rest => isDead e && rest.any isRaise || retried rest

/-- One creation and one removal, but for the second recreate after a `False` ping. -/
structure Few (tail : List (Sigma AnswerTo)) : Prop where
  creates : creates tail ≤ 2
  removes : removes tail ≤ 2
  once : retried tail = false → Ensure.creates tail ≤ 1 ∧ Ensure.removes tail ≤ 1

/-- How many creations and removals a part of the transition may reach beside its own, and what
the answers before it show. -/
structure Bound where
  spare : Nat
  past : List (Sigma AnswerTo) → Prop
  keep : ∀ tail e, past tail → past (tail ++ [e])
  few : ∀ tail, past tail → creates tail ≤ spare + 1 → removes tail ≤ spare + 1 → Few tail

/-- A transition for one name leaves the rest of the manager and all reasons alone. -/
structure Frame (name : String) (m₀ m : Manager) : Prop where
  unusable : m.clientUnusable = m₀.clientUnusable
  skip : m.skipGuestReadiness = m₀.skipGuestReadiness
  reasons : m.lastReason = m₀.lastReason
  connected : ∀ other, other ≠ name → m.connected.get? other = m₀.connected.get? other
  ready : ∀ other, other ≠ name → m.ready.get? other = m₀.ready.get? other

/-- So far the transition made at most so many creations and removals and cached nothing. -/
structure Books (b : Bound) (name : String) (m₀ : Manager) (k j : Nat) (m : Manager)
    (tail : List (Sigma AnswerTo)) : Prop where
  frame : Frame name m₀ m
  uncached : m.isReady name = true → m₀.isReady name = true
  creates : creates tail ≤ k
  removes : removes tail ≤ j
  past : b.past tail

/-- Where the transition may stop. -/
structure Stopped (name : String) (m₀ m : Manager) (tail : List (Sigma AnswerTo)) : Prop where
  frame : Frame name m₀ m
  uncached : m.isReady name = true → m₀.isReady name = true
  few : Few tail

/-- The last answer of a part of the transition is what it raised. -/
structure Raised (b : Bound) (tail : List (Sigma AnswerTo)) : Prop where
  creates : creates tail ≤ b.spare + 1
  removes : removes tail ≤ b.spare + 1
  last : ∃ before e, tail = before ++ [e] ∧ b.past before ∧ isRaise e = true

/-- Where a handle comes from: it was created, or its machine was there and answered a ping. -/
def Obtained (name : String) (sb : Nat) (tail : List (Sigma AnswerTo)) : Prop :=
  ⟨.create name, some (.ok sb)⟩ ∈ tail ∨
    (⟨.connect name, some (.ok sb)⟩ ∈ tail ∨ ⟨.start name, some (.ok sb)⟩ ∈ tail) ∧
      ⟨.ping sb, some (.ok true)⟩ ∈ tail

/-- The readiness check succeeded: in the guest, or of the host's mounts where that is skipped. -/
def Checked (skip : Bool) (sb : Nat) (tail : List (Sigma AnswerTo)) : Prop :=
  if skip then ∃ reason, ⟨.hostReady, .ok (true, reason)⟩ ∈ tail
  else ∃ reason, ⟨.readiness sb, some (.ok (true, reason))⟩ ∈ tail

variable {name fp : String} {m₀ m : Manager} {k j : Nat} {tail : List (Sigma AnswerTo)} {sb : Nat}
variable {skip : Bool} {b : Bound}

theorem Frame.refl (name : String) (m : Manager) : Frame name m m :=
  ⟨rfl, rfl, rfl, fun _ _ => rfl, fun _ _ => rfl⟩

theorem Frame.clearCache (h : Frame name m₀ m) : Frame name m₀ (m.clearCache name) where
  unusable := h.unusable
  skip := h.skip
  reasons := h.reasons
  connected other hne := by
    rw [Manager.clearCache, Dict.get?_pop, if_neg hne.symm]
    exact h.connected other hne
  ready other hne := by
    rw [Manager.clearCache, Dict.get?_set_ne _ _ hne.symm]
    exact h.ready other hne

theorem Frame.cache (h : Frame name m₀ m) : Frame name m₀ (m.cache name fp sb) where
  unusable := h.unusable
  skip := h.skip
  reasons := h.reasons
  connected other hne := by
    rw [Manager.cache, Dict.get?_set_ne _ _ hne.symm]
    exact h.connected other hne
  ready other hne := by
    rw [Manager.cache, Dict.get?_set_ne _ _ hne.symm]
    exact h.ready other hne

theorem creates_snoc (c : ClientCall) (a : AnswerTo c) :
    creates (tail ++ [⟨c, a⟩]) = creates tail + if isCreate c then 1 else 0 := by
  rw [creates, List.countP_append, ← creates, List.countP_singleton]

theorem removes_snoc (c : ClientCall) (a : AnswerTo c) :
    removes (tail ++ [⟨c, a⟩]) = removes tail + if isRemove c then 1 else 0 := by
  rw [removes, List.countP_append, ← removes, List.countP_singleton]

theorem retried_snoc (tail : List (Sigma AnswerTo)) (e : Sigma AnswerTo) :
    retried (tail ++ [e]) = (retried tail || tail.any isDead && isRaise e) := by
  induction tail with
  | nil => simp [retried]
  | cons d tail ih =>
    rw [List.cons_append, retried, ih, retried, List.any_append, List.any_cons, List.any_cons,
      List.any_nil, Bool.or_false]
    generalize isDead d = dead, isRaise e = raised, retried tail = before
    cases dead <;> cases raised <;> simp

theorem keep_trivial (_ : List (Sigma AnswerTo)) (_ : Sigma AnswerTo) (h : True) : True := h

theorem few_of_one (tail : List (Sigma AnswerTo)) (hcreates : creates tail ≤ 0 + 1)
    (hremoves : removes tail ≤ 0 + 1) : Few tail :=
  ⟨Nat.le_succ_of_le hcreates, Nat.le_succ_of_le hremoves, fun _ => ⟨hcreates, hremoves⟩⟩

theorem few_trivial (tail : List (Sigma AnswerTo)) (_ : True) (hcreates : creates tail ≤ 0 + 1)
    (hremoves : removes tail ≤ 0 + 1) : Few tail := few_of_one tail hcreates hremoves

/-- The whole transition, before anything is known of it. -/
def once : Bound where
  spare := 0
  past _ := True
  keep := keep_trivial
  few := few_trivial

theorem keep_dead (tail : List (Sigma AnswerTo)) (e : Sigma AnswerTo)
    (h : tail.any isDead = true) : (tail ++ [e]).any isDead = true := by
  rw [List.any_append, h]
  rfl

theorem few_dead (tail : List (Sigma AnswerTo)) (_ : tail.any isDead = true)
    (hcreates : creates tail ≤ 0 + 1) (hremoves : removes tail ≤ 0 + 1) : Few tail :=
  few_of_one tail hcreates hremoves

/-- The recreate of a ping that was answered `False`. -/
def afterDead : Bound where
  spare := 0
  past tail := tail.any isDead = true
  keep := keep_dead
  few := few_dead

theorem keep_retried (tail : List (Sigma AnswerTo)) (e : Sigma AnswerTo)
    (h : retried tail = true) : retried (tail ++ [e]) = true := by
  rw [retried_snoc, h]
  rfl

theorem few_retried (tail : List (Sigma AnswerTo)) (h : retried tail = true)
    (hcreates : creates tail ≤ 1 + 1) (hremoves : removes tail ≤ 1 + 1) : Few tail :=
  ⟨hcreates, hremoves, fun hnot => absurd h (Bool.eq_false_iff.mp hnot)⟩

/-- The recreate that follows on what that one raised. -/
def again : Bound where
  spare := 1
  past tail := retried tail = true
  keep := keep_retried
  few := few_retried

/-- What the recreate of a dead machine raises makes the answers those of a retry. -/
theorem Raised.again (h : Raised afterDead tail) : again.past tail := by
  obtain ⟨before, e, rfl, hdead, hraise⟩ := h.last
  show retried (before ++ [e]) = true
  rw [retried_snoc, show before.any isDead = true from hdead, hraise]
  exact Bool.or_true _

theorem Books.stopped (h : Books b name m₀ k j m tail) (hk : k ≤ b.spare + 1)
    (hj : j ≤ b.spare + 1) : Stopped name m₀ m tail :=
  ⟨h.frame, h.uncached,
    b.few tail h.past (Nat.le_trans h.creates hk) (Nat.le_trans h.removes hj)⟩

theorem Books.asked (h : Books b name m₀ k j m tail) {c : ClientCall} (a : AnswerTo c) {k' j' : Nat}
    (hk : k + (if isCreate c then 1 else 0) ≤ k') (hj : j + (if isRemove c then 1 else 0) ≤ j') :
    Books b name m₀ k' j' m (tail ++ [⟨c, a⟩]) where
  frame := h.frame
  uncached := h.uncached
  creates := by
    rw [creates_snoc]
    exact Nat.le_trans (Nat.add_le_add_right h.creates _) hk
  removes := by
    rw [removes_snoc]
    exact Nat.le_trans (Nat.add_le_add_right h.removes _) hj
  past := b.keep tail _ h.past

theorem not_isReady (h : m.connected.get? name = none) : m.isReady name = false := by
  rw [Manager.isReady, h]
  exact Bool.and_false _

theorem clearCache_connected (m : Manager) (name : String) :
    (m.clearCache name).connected.get? name = none := by
  rw [Manager.clearCache, Dict.get?_pop, if_pos rfl]

theorem Books.clearCache (h : Books b name m₀ k j m tail) :
    Books b name m₀ k j (m.clearCache name) tail where
  frame := h.frame.clearCache
  uncached hready := by
    rw [not_isReady (clearCache_connected m name)] at hready
    cases hready
  creates := h.creates
  removes := h.removes
  past := h.past

theorem Obtained.asked (h : Obtained name sb tail) (e : Sigma AnswerTo) :
    Obtained name sb (tail ++ [e]) := by
  have keep {x : Sigma AnswerTo} (hx : x ∈ tail) : x ∈ tail ++ [e] := List.mem_append_left _ hx
  exact h.imp keep fun ⟨hfrom, hping⟩ => ⟨hfrom.imp keep keep, keep hping⟩

theorem Checked.asked (h : Checked skip sb tail) (e : Sigma AnswerTo) :
    Checked skip sb (tail ++ [e]) := by
  cases skip with
  | true =>
    obtain ⟨reason, hmem⟩ := h
    exact ⟨reason, List.mem_append_left _ hmem⟩
  | false =>
    obtain ⟨reason, hmem⟩ := h
    exact ⟨reason, List.mem_append_left _ hmem⟩

/-- How a transition ends: a ready handle is cached, and vouched for by this call; otherwise
nothing is cached. -/
def Ends (name : String) (m₀ : Manager) (r : EnsureResult) (m : Manager)
    (tail : List (Sigma AnswerTo)) : Prop :=
  Frame name m₀ m ∧ Few tail ∧
    match r with
    | .ready sb => m.connected.get? name = some sb ∧ m.ready.get? name = some true ∧
        Obtained name sb tail ∧ Checked m₀.skipGuestReadiness sb tail
    | .degraded _ => m.connected.get? name = none ∧ m.ready.get? name = some false

end Books

section Rules

variable {name fp : String} {m₀ : Manager} {n k j : Nat} {skip : Bool}
variable {env : Environment AnswerTo} {b : Bound} {R : List (Sigma AnswerTo) → Prop}

/-- A transition may stop at any time within its books; the answers of what it raised meet `R`. -/
def Stops (R : List (Sigma AnswerTo) → Prop) (n : Nat) (name : String) (m₀ : Manager) (h : Halt) :
    Asked AnswerTo Manager → Prop :=
  Since n fun x tail => Stopped name m₀ x tail ∧ ∀ e, h = .raised e → R tail

/-- Where a part of the transition stops that anything may follow. -/
abbrev Halts : Nat → String → Manager → Halt → Asked AnswerTo Manager → Prop :=
  Stops fun _ => True

theorem Stops.halts {h : Halt} {s : Asked AnswerTo Manager} (hs : Stops R n name m₀ h s) :
    Halts n name m₀ h s :=
  hs.mono fun _ _ hstop => ⟨hstop.1, fun _ _ => trivial⟩

abbrev Post (n : Nat) (name : String) (m₀ : Manager) (r : EnsureResult) :
    Asked AnswerTo Manager → Prop := Since n (Ends name m₀ r)

theorem ensures_inShare {α : Type} {a : Share α} {P : Asked AnswerTo Manager → Prop}
    {Q : Except ClientErr α → Asked AnswerTo Manager → Prop}
    (hok : ∀ r, a = some r → ∀ s, P s → Q r s)
    (hwall : ∀ s, P s → Stops R n name m₀ Halt.wall s) :
    Ensures P (inShare a) Q (Stops R n name m₀) := by
  cases a with
  | none => exact ensures_throw Halt.wall hwall
  | some r => exact ensures_pure r (hok r rfl)

/-- A call in its share of the budget, and what follows on its reply. -/
theorem ensures_call {α β : Type} {c : ClientCall} {P : Manager → List (Sigma AnswerTo) → Prop}
    {Q : Except ClientErr α → Manager → List (Sigma AnswerTo) → Prop}
    {T : β → Asked AnswerTo Manager → Prop} {f : Except ClientErr α → Ensuring β}
    (share : AnswerTo c → Share α) (hbooks : ∀ x tail, P x tail → Books b name m₀ k j x tail)
    (hk : k + (if isCreate c then 1 else 0) ≤ b.spare + 1)
    (hj : j + (if isRemove c then 1 else 0) ≤ b.spare + 1)
    (hQ : ∀ x tail a r, P x tail → share a = some r → Q r x (tail ++ [⟨c, a⟩]))
    (hf : ∀ r, Ensures (Since n (Q r)) (f r) T (Stops R n name m₀)) :
    Ensures (Since n P) (do f (← inShare (share (← ask env c)))) T (Stops R n name m₀) := by
  apply ensures_bind (ensures_ask env c (Q := fun a x tail =>
    Stopped name m₀ x tail ∧ ∀ r, share a = some r → Q r x tail) ?_)
  · intro a
    apply ensures_bind (Q := fun r => Since n (Q r))
    · apply ensures_inShare
      · intro r hr s hs
        exact hs.mono fun x tail h => h.2 r hr
      · intro s hs
        refine hs.mono fun x tail h => ⟨h.1, ?_⟩
        intro e he
        cases he
    · exact hf
  · intro x tail a h
    have hasked := (hbooks x tail h).asked a hk hj
    exact ⟨hasked.stopped (Nat.le_refl _) (Nat.le_refl _), fun r hr => hQ x tail a r h hr⟩

theorem ensures_degraded (reason : String) {P : Manager → List (Sigma AnswerTo) → Prop}
    (hP : ∀ x tail, P x tail → Stopped name m₀ x tail) :
    Ensures (Since n P) (degraded name reason) (Post n name m₀) (Stops R n name m₀) := by
  apply ensures_bind (Q := fun _ => Since n (Ends name m₀ (.degraded reason)))
  · apply ensures_alter
    intro x tail h
    have hstop := hP x tail h
    refine ⟨hstop.frame.clearCache, hstop.few, clearCache_connected x name, ?_⟩
    rw [Manager.clearCache, Dict.get?_set_self]
  · intro _
    exact ensures_pure _ fun s hs => hs

/-- A call whose exception ends the transition. -/
theorem ensures_uncaught {α β : Type} {c : ClientCall} {P : Manager → List (Sigma AnswerTo) → Prop}
    {Q : α → Manager → List (Sigma AnswerTo) → Prop} {T : β → Asked AnswerTo Manager → Prop}
    {f : α → Ensuring β} (value : AnswerTo c → Except ClientErr α)
    (hbooks : ∀ x tail, P x tail → Books b name m₀ k j x tail)
    (hk : k + (if isCreate c then 1 else 0) ≤ b.spare + 1)
    (hj : j + (if isRemove c then 1 else 0) ≤ b.spare + 1)
    (hraise : ∀ a e, value a = .error e → isRaise ⟨c, a⟩ = true)
    (hR : ∀ tail, Raised b tail → R tail)
    (hQ : ∀ x tail a r, P x tail → value a = .ok r → Q r x (tail ++ [⟨c, a⟩]))
    (hf : ∀ r, Ensures (Since n (Q r)) (f r) T (Stops R n name m₀)) :
    Ensures (Since n P) (do f (← uncaught (value (← ask env c)))) T (Stops R n name m₀) := by
  apply ensures_bind (ensures_ask env c (Q := fun a x tail =>
    (Stopped name m₀ x tail ∧ ∀ e, value a = .error e → R tail) ∧
      ∀ r, value a = .ok r → Q r x tail) ?_)
  · intro a
    apply ensures_bind (Q := fun r => Since n (Q r))
    · cases hv : value a with
      | error e =>
        exact ensures_throw _ fun s hs => hs.mono fun x tail h =>
          ⟨h.1.1, fun _ _ => h.1.2 e rfl⟩
      | ok r => exact ensures_pure r fun s hs => hs.mono fun x tail h => h.2 r rfl
    · exact hf
  · intro x tail a h
    have hbefore := hbooks x tail h
    have hasked := hbefore.asked a hk hj
    refine ⟨⟨hasked.stopped (Nat.le_refl _) (Nat.le_refl _), ?_⟩, fun r hr => hQ x tail a r h hr⟩
    intro e he
    exact hR _ ⟨hasked.creates, hasked.removes, tail, _, rfl, hbefore.past, hraise a e he⟩

theorem Books.mono {m : Manager} {tail : List (Sigma AnswerTo)} {k' j' : Nat}
    (h : Books b name m₀ k j m tail) (hk : k ≤ k') (hj : j ≤ j') : Books b name m₀ k' j' m tail :=
  ⟨h.frame, h.uncached, Nat.le_trans h.creates hk, Nat.le_trans h.removes hj, h.past⟩

theorem spare_le (b : Bound) : b.spare ≤ b.spare + 1 := Nat.le_succ b.spare

theorem ensures_readyDetached (sb : Nat) (detachAfter : Bool) :
    Ensures (Since n fun x tail => Books b name m₀ (b.spare + 1) (b.spare + 1) x tail ∧
        Obtained name sb tail ∧ Checked m₀.skipGuestReadiness sb tail)
      (readyDetached env name fp sb detachAfter) (Post n name m₀) (Stops R n name m₀) := by
  have hcache : Ensures (Since n fun x tail => Books b name m₀ (b.spare + 1) (b.spare + 1) x tail ∧
        Obtained name sb tail ∧ Checked m₀.skipGuestReadiness sb tail)
      (do alter (Manager.cache name fp sb); return EnsureResult.ready sb : Ensuring EnsureResult)
      (Post n name m₀) (Stops R n name m₀) := by
    apply ensures_bind (Q := fun _ => Since n (Ends name m₀ (.ready sb)))
    · apply ensures_alter
      rintro x tail ⟨hb, hobtained, hchecked⟩
      have hstop := hb.stopped (Nat.le_refl _) (Nat.le_refl _)
      refine ⟨hb.frame.cache, hstop.few, ?_, ?_, hobtained, hchecked⟩
      · rw [Manager.cache, Dict.get?_set_self]
      · rw [Manager.cache, Dict.get?_set_self]
    · intro _
      exact ensures_pure _ fun s hs => hs
  cases detachAfter with
  | false => exact hcache
  | true =>
    apply ensures_call (b := b) (k := b.spare + 1) (j := b.spare + 1) (c := .detach sb)
      (Q := fun _ x tail => Books b name m₀ (b.spare + 1) (b.spare + 1) x tail ∧
        Obtained name sb tail ∧ Checked m₀.skipGuestReadiness sb tail) id
    · exact fun x tail h => h.1
    · exact Nat.le_refl _
    · exact Nat.le_refl _
    · rintro x tail a r ⟨hb, hobtained, hchecked⟩ -
      exact ⟨hb.asked a (Nat.le_refl _) (Nat.le_refl _), hobtained.asked _, hchecked.asked _⟩
    · exact fun _ => hcache

theorem ensures_readyIfMounts (hR : ∀ tail, Raised b tail → R tail) (sb : Nat)
    (detachAfter : Bool) :
    Ensures (Since n fun x tail => Books b name m₀ (b.spare + 1) (b.spare + 1) x tail ∧
        Obtained name sb tail)
      (readyIfMounts env name fp m₀.skipGuestReadiness sb detachAfter) (Post n name m₀)
      (Stops R n name m₀) := by
  unfold readyIfMounts
  cases hskip : m₀.skipGuestReadiness with
  | true =>
    apply ensures_uncaught (b := b) (k := b.spare + 1) (j := b.spare + 1) (c := .hostReady)
      (Q := fun r x tail => Books b name m₀ (b.spare + 1) (b.spare + 1) x tail ∧
        Obtained name sb tail ∧ (r.1 = true → Checked true sb tail)) id
    · exact fun x tail h => h.1
    · exact Nat.le_refl _
    · exact Nat.le_refl _
    · rintro a e rfl
      rfl
    · exact hR
    · rintro x tail a r ⟨hb, hobtained⟩ ha
      refine ⟨hb.asked a (Nat.le_refl _) (Nat.le_refl _), hobtained.asked _, ?_⟩
      obtain ⟨ok, reason⟩ := r
      rintro rfl
      exact ⟨reason, ha ▸ List.mem_append_right _ List.mem_cons_self⟩
    · rintro ⟨ok, reason⟩
      cases ok with
      | false =>
        exact ensures_degraded _ fun x tail h => h.1.stopped (Nat.le_refl _) (Nat.le_refl _)
      | true =>
        apply (ensures_readyDetached sb detachAfter).weaken
        · exact fun s hs => hs.mono fun x tail ⟨hb, ho, hc⟩ => ⟨hb, ho, hskip ▸ hc rfl⟩
        · exact fun _ _ h => h
        · exact fun _ _ h => h
  | false =>
    apply ensures_call (b := b) (k := b.spare + 1) (j := b.spare + 1) (c := .readiness sb)
      (Q := fun r x tail => Books b name m₀ (b.spare + 1) (b.spare + 1) x tail ∧
        Obtained name sb tail ∧ ∀ reason, r = .ok (true, reason) → Checked false sb tail) id
    · exact fun x tail h => h.1
    · exact Nat.le_refl _
    · exact Nat.le_refl _
    · rintro x tail a r ⟨hb, hobtained⟩ ha
      refine ⟨hb.asked a (Nat.le_refl _) (Nat.le_refl _), hobtained.asked _, ?_⟩
      rintro reason rfl
      exact ⟨reason, ha ▸ List.mem_append_right _ List.mem_cons_self⟩
    · rintro (e | ⟨ok, reason⟩)
      · exact ensures_degraded _ fun x tail h => h.1.stopped (Nat.le_refl _) (Nat.le_refl _)
      · cases ok with
        | false =>
          exact ensures_degraded _ fun x tail h => h.1.stopped (Nat.le_refl _) (Nat.le_refl _)
        | true =>
          apply (ensures_readyDetached sb detachAfter).weaken
          · exact fun s hs => hs.mono fun x tail ⟨hb, ho, hc⟩ => ⟨hb, ho, hskip ▸ hc reason rfl⟩
          · exact fun _ _ h => h
          · exact fun _ _ h => h

theorem ensures_createAndReady (hR : ∀ tail, Raised b tail → R tail) :
    Ensures (Since n (Books b name m₀ b.spare (b.spare + 1)))
      (createAndReady env name fp m₀.skipGuestReadiness) (Post n name m₀)
      (Stops R n name m₀) := by
  apply ensures_uncaught (b := b) (k := b.spare) (j := b.spare + 1) (c := .createKwargs)
    (Q := fun _ => Books b name m₀ b.spare (b.spare + 1)) id
  · exact fun x tail h => h
  · exact spare_le b
  · exact Nat.le_refl _
  · rintro a e rfl
    rfl
  · exact hR
  · exact fun x tail a r h _ => h.asked a (Nat.le_refl _) (Nat.le_refl _)
  · intro _
    apply ensures_call (b := b) (k := b.spare) (j := b.spare + 1) (c := .create name)
      (Q := fun r x tail => Books b name m₀ (b.spare + 1) (b.spare + 1) x tail ∧
        ∀ sb, r = .ok sb → Obtained name sb tail) id
    · exact fun x tail h => h
    · exact Nat.le_refl _
    · exact Nat.le_refl _
    · intro x tail a r hb ha
      refine ⟨hb.asked a (Nat.le_refl _) (Nat.le_refl _), ?_⟩
      rintro sb rfl
      exact .inl (ha ▸ List.mem_append_right _ List.mem_cons_self)
    · rintro (e | sb)
      · exact ensures_degraded _ fun x tail h => h.1.stopped (Nat.le_refl _) (Nat.le_refl _)
      · apply (ensures_readyIfMounts hR sb true).weaken
        · exact fun s hs => hs.mono fun x tail h => ⟨h.1, h.2 sb rfl⟩
        · exact fun _ _ h => h
        · exact fun _ _ h => h

/-- A call that neither creates nor removes, whatever it answers. -/
theorem ensures_quiet {α β : Type} {c : ClientCall} {T : β → Asked AnswerTo Manager → Prop}
    {f : Except ClientErr α → Ensuring β} (share : AnswerTo c → Share α)
    (hc : isCreate c = false) (hr : isRemove c = false) (hk : k ≤ b.spare + 1)
    (hj : j ≤ b.spare + 1)
    (hf : ∀ r, Ensures (Since n (Books b name m₀ k j)) (f r) T (Stops R n name m₀)) :
    Ensures (Since n (Books b name m₀ k j)) (do f (← inShare (share (← ask env c)))) T
      (Stops R n name m₀) := by
  apply ensures_call (b := b) (k := k) (j := j) (Q := fun _ => Books b name m₀ k j) share
  · exact fun x tail h => h
  · rw [hc]
    exact hk
  · rw [hr]
    exact hj
  · intro x tail a r h _
    apply h.asked a
    · rw [hc]
      exact Nat.le_refl k
    · rw [hr]
      exact Nat.le_refl j
  · exact hf

theorem ensures_killRunning :
    Ensures (Since n (Books b name m₀ b.spare b.spare)) (killRunning env name)
      (fun _ => Since n (Books b name m₀ b.spare b.spare)) (Stops R n name m₀) := by
  apply ensures_quiet (c := .get name) id rfl rfl (spare_le b) (spare_le b)
  rintro (e | status)
  · exact ensures_pure () fun s hs => hs
  · dsimp only
    split
    · apply ensures_quiet (c := .connect name) id rfl rfl (spare_le b) (spare_le b)
      rintro (e | sb)
      · exact ensures_pure () fun s hs => hs
      · apply ensures_quiet (c := .kill sb) id rfl rfl (spare_le b) (spare_le b)
        exact fun _ => ensures_pure () fun s hs => hs
    · exact ensures_pure () fun s hs => hs

theorem ensures_recreateOnce (hR : ∀ tail, Raised b tail → R tail) :
    Ensures (Since n (Books b name m₀ b.spare b.spare))
      (recreateOnce env name fp m₀.skipGuestReadiness) (Post n name m₀) (Stops R n name m₀) := by
  apply ensures_bind (Q := fun _ => Since n (Books b name m₀ b.spare b.spare))
  · apply ensures_alter
    exact fun x tail h => h.clearCache
  · intro _
    apply ensures_bind (Q := fun _ => Since n (Books b name m₀ b.spare b.spare))
      ensures_killRunning
    intro _
    apply ensures_call (b := b) (k := b.spare) (j := b.spare) (c := .remove name)
      (Q := fun _ => Books b name m₀ b.spare (b.spare + 1)) id
    · exact fun x tail h => h
    · exact spare_le b
    · exact Nat.le_refl _
    · exact fun x tail a r h _ => h.asked a (Nat.le_refl _) (Nat.le_refl _)
    · exact fun _ => ensures_createAndReady hR

/-- A recreate from a state where nothing was created or removed. -/
theorem ensures_recreate :
    Ensures (Since n (Books once name m₀ 0 0)) (recreateOnce env name fp m₀.skipGuestReadiness)
      (Post n name m₀) (Halts n name m₀) := ensures_recreateOnce fun _ _ => trivial

/-- A machine that does not answer is recreated, and once more where that raises. -/
theorem ensures_recreateDead :
    Ensures (Since n (Books afterDead name m₀ 0 0))
      (tryCatch (recreateOnce env name fp m₀.skipGuestReadiness) fun
        | .wall => throw .wall
        | .raised _ => recreateOnce env name fp m₀.skipGuestReadiness)
      (Post n name m₀) (Halts n name m₀) := by
  apply ensures_tryCatch (E := Stops (Raised afterDead) n name m₀)
  · exact ensures_recreateOnce fun _ h => h
  · intro halt
    cases halt with
    | wall => exact ensures_throw Halt.wall fun s hs => hs.halts
    | raised e =>
      have hsecond : Ensures (Since n (Books again name m₀ 1 1))
          (recreateOnce env name fp m₀.skipGuestReadiness) (Post n name m₀) (Halts n name m₀) :=
        ensures_recreateOnce fun _ _ => trivial
      apply hsecond.weaken
      · intro s hs
        refine hs.mono fun x tail ⟨hstop, hraised⟩ => ?_
        have hlast := hraised e rfl
        exact ⟨hstop.frame, hstop.uncached, hlast.creates, hlast.removes, hlast.again⟩
      · exact fun _ _ h => h
      · exact fun _ _ h => h

/-- A handle of a machine that was there. -/
def Attached (name : String) (sb : Nat) (tail : List (Sigma AnswerTo)) : Prop :=
  ⟨.connect name, some (.ok sb)⟩ ∈ tail ∨ ⟨.start name, some (.ok sb)⟩ ∈ tail

theorem ensures_pingThen (sb : Nat) (detachAfter : Bool) :
    Ensures (Since n fun x tail => Books once name m₀ 0 0 x tail ∧ Attached name sb tail)
      (pingThen env name fp m₀.skipGuestReadiness sb detachAfter) (Post n name m₀)
      (Halts n name m₀) := by
  apply ensures_call (b := once) (k := 0) (j := 0) (c := .ping sb) (Q := fun r x tail =>
    Books once name m₀ 0 0 x tail ∧ (r = .ok true → Obtained name sb tail) ∧
      (r = .ok false → tail.any isDead = true)) id
  · exact fun x tail h => h.1
  · exact Nat.zero_le 1
  · exact Nat.zero_le 1
  · rintro x tail a r ⟨hb, hattached⟩ ha
    refine ⟨hb.asked a (Nat.le_refl 0) (Nat.le_refl 0), ?_, ?_⟩
    · rintro rfl
      have keep := fun e (he : e ∈ tail) => List.mem_append_left [⟨ClientCall.ping sb, a⟩] he
      refine .inr ⟨hattached.imp (keep _) (keep _), ?_⟩
      exact ha ▸ List.mem_append_right _ List.mem_cons_self
    · rintro rfl
      cases ha
      rw [List.any_append]
      exact Bool.or_true _
  · rintro (e | alive)
    · exact ensures_recreate.weaken (fun s hs => hs.mono fun x tail h => h.1) (fun _ _ h => h)
        (fun _ _ h => h)
    · cases alive with
      | false =>
        apply ensures_recreateDead.weaken
        · exact fun s hs => hs.mono fun x tail ⟨hb, _, hdead⟩ =>
            ⟨hb.frame, hb.uncached, hb.creates, hb.removes, hdead rfl⟩
        · exact fun _ _ h => h
        · exact fun _ _ h => h
      | true =>
        apply (ensures_readyIfMounts (b := once) (fun _ _ => trivial) sb detachAfter).weaken
        · exact fun s hs => hs.mono fun x tail h =>
            ⟨h.1.mono (Nat.zero_le 1) (Nat.zero_le 1), h.2.1 rfl⟩
        · exact fun _ _ h => h
        · exact fun _ _ h => h

theorem ensures_handleRunning :
    Ensures (Since n (Books once name m₀ 0 0))
      (handleRunning env name fp m₀.skipGuestReadiness) (Post n name m₀) (Halts n name m₀) := by
  apply ensures_call (b := once) (k := 0) (j := 0) (c := .connect name) (Q := fun r x tail =>
    Books once name m₀ 0 0 x tail ∧ ∀ sb, r = .ok sb → Attached name sb tail) id
  · exact fun x tail h => h
  · exact Nat.zero_le 1
  · exact Nat.zero_le 1
  · intro x tail a r hb ha
    refine ⟨hb.asked a (Nat.le_refl 0) (Nat.le_refl 0), ?_⟩
    rintro sb rfl
    exact .inl (ha ▸ List.mem_append_right _ List.mem_cons_self)
  · rintro (e | sb)
    · exact ensures_recreate.weaken (fun s hs => hs.mono fun x tail h => h.1)
        (fun _ _ h => h) (fun _ _ h => h)
    · exact (ensures_pingThen sb false).weaken
        (fun s hs => hs.mono fun x tail h => ⟨h.1, h.2 sb rfl⟩) (fun _ _ h => h) (fun _ _ h => h)

theorem ensures_handleStopped :
    Ensures (Since n (Books once name m₀ 0 0))
      (handleStopped env name fp m₀.skipGuestReadiness) (Post n name m₀) (Halts n name m₀) := by
  apply ensures_call (b := once) (k := 0) (j := 0) (c := .start name) (Q := fun r x tail =>
    Books once name m₀ 0 0 x tail ∧ ∀ sb, r = .ok sb → Attached name sb tail) id
  · exact fun x tail h => h
  · exact Nat.zero_le 1
  · exact Nat.zero_le 1
  · intro x tail a r hb ha
    refine ⟨hb.asked a (Nat.le_refl 0) (Nat.le_refl 0), ?_⟩
    rintro sb rfl
    exact .inr (ha ▸ List.mem_append_right _ List.mem_cons_self)
  · rintro (e | sb)
    · exact ensures_recreate.weaken (fun s hs => hs.mono fun x tail h => h.1)
        (fun _ _ h => h) (fun _ _ h => h)
    · exact (ensures_pingThen sb true).weaken
        (fun s hs => hs.mono fun x tail h => ⟨h.1, h.2 sb rfl⟩) (fun _ _ h => h) (fun _ _ h => h)

theorem ensures_handleDraining :
    Ensures (Since n (Books once name m₀ 0 0))
      (handleDraining env name fp m₀.skipGuestReadiness) (Post n name m₀) (Halts n name m₀) := by
  apply ensures_bind (ensures_ask env .remaining (Q := fun _ => Books once name m₀ 0 0) ?_)
  · intro left
    split
    · apply ensures_quiet (b := once) (c := .waitUntilStopped name) id rfl rfl (Nat.zero_le 1)
        (Nat.zero_le 1)
      rintro (e | ⟨⟩)
      · exact ensures_recreate
      · exact ensures_handleStopped
    · exact ensures_throw Halt.wall fun s hs => hs.mono fun x tail h =>
        ⟨h.stopped (Nat.zero_le 1) (Nat.zero_le 1), fun _ _ => trivial⟩
  · exact fun x tail a h => h.asked a (Nat.le_refl 0) (Nat.le_refl 0)

theorem ensures_ensureFound (stored : Option String) (status : String) :
    Ensures (Since n (Books once name m₀ 0 0))
      (ensureFound env name fp m₀.skipGuestReadiness stored status) (Post n name m₀)
      (Halts n name m₀) := by
  unfold ensureFound
  split
  · exact ensures_recreate
  · split
    · exact ensures_handleRunning
    · split
      · exact ensures_handleStopped
      · split
        · exact ensures_recreate
        · split
          · exact ensures_handleDraining
          · exact ensures_degraded _ fun x tail h =>
              h.stopped (Nat.zero_le 1) (Nat.zero_le 1)

/-- The whole transition, from a manager whose flags are those of the start. -/
theorem ensures_ensureLocked :
    Ensures (Since n (Books once name m₀ 0 0)) (ensureLocked env name fp) (Post n name m₀)
      (Halts n name m₀) := by
  apply ensures_uncaught (b := once) (k := 0) (j := 0) (c := .hostTree)
    (Q := fun _ => Books once name m₀ 0 0) id
  · exact fun x tail h => h
  · exact Nat.zero_le 1
  · exact Nat.zero_le 1
  · rintro a e rfl
    rfl
  · exact fun _ _ => trivial
  · exact fun x tail a r h _ => h.asked a (Nat.le_refl 0) (Nat.le_refl 0)
  · intro _
    apply ensures_get_bind
    intro s hs
    have hskip : s.state.skipGuestReadiness = m₀.skipGuestReadiness := hs.2.frame.skip
    rw [hskip]
    refine Ensures.weaken (P := Since n (Books once name m₀ 0 0)) ?_ (fun u hu => hu ▸ hs)
      (fun _ _ h => h) (fun _ _ h => h)
    apply ensures_quiet (b := once) (c := .get name) id rfl rfl (Nat.zero_le 1) (Nat.zero_le 1)
    have hcreate : Ensures (Since n (Books once name m₀ 0 0))
        (createAndReady env name fp m₀.skipGuestReadiness) (Post n name m₀)
        (Halts n name m₀) :=
      (ensures_createAndReady (b := once) fun _ _ => trivial).weaken
        (fun s hs => hs.mono fun x tail h => h.mono (Nat.le_refl 0) (Nat.zero_le 1))
        (fun _ _ h => h) (fun _ _ h => h)
    have hdegraded (text : String) : Ensures (Since n (Books once name m₀ 0 0))
        (degraded name text) (Post n name m₀) (Halts n name m₀) :=
      ensures_degraded text fun x tail h => h.stopped (Nat.zero_le 1) (Nat.zero_le 1)
    rintro (e | status)
    · cases e with
      | notFound text => exact hcreate
      | sandbox text => exact hdegraded _
      | other className text =>
        dsimp only
        split
        · exact hcreate
        · exact hdegraded _
    · apply ensures_get_bind
      rintro t ht
      exact (ensures_ensureFound _ _).weaken (fun u hu => hu ▸ ht) (fun _ _ h => h)
        (fun _ _ h => h)

theorem ensures_withReadyLocked :
    Ensures (Since n (Books once name m₀ 0 0)) (withReadyLocked env name fp)
      (fun _ => Since n fun x _ => Frame name m₀ x) (Halts n name m₀) := by
  have hlocked : Ensures (Since n (Books once name m₀ 0 0)) (ensureLocked env name fp)
      (fun _ => Since n fun x _ => Frame name m₀ x) (Halts n name m₀) :=
    ensures_ensureLocked.weaken (fun _ h => h) (fun _ s hs => hs.mono fun x tail h => h.1)
      (fun _ _ h => h)
  apply ensures_get_bind
  intro s hs
  have here {m : Ensuring EnsureResult} (hm : Ensures (Since n (Books once name m₀ 0 0)) m
      (fun _ => Since n fun x _ => Frame name m₀ x) (Halts n name m₀)) :
      Ensures (· = s) m (fun _ => Since n fun x _ => Frame name m₀ x) (Halts n name m₀) :=
    hm.weaken (fun t ht => ht ▸ hs) (fun _ _ h => h) (fun _ _ h => h)
  dsimp only
  split
  · exact here hlocked
  · rename_i sb _
    split
    · apply here
      apply ensures_quiet (b := once) (c := .ping sb) id rfl rfl (Nat.zero_le 1) (Nat.zero_le 1)
      rintro (e | alive)
      · exact hlocked
      · cases alive with
        | false => exact hlocked
        | true =>
          exact ensures_pure _ fun t ht => ht.mono fun x tail h => h.frame
    · exact here hlocked

end Rules

end Elyra.Sandbox.Ensure
