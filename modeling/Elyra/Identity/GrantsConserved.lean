import Elyra.Identity.GrantsRun

namespace Elyra.Identity

open Json
open Secrets (stripped)

section Expiry

/-- No expiry is set, or it is an instant still to come. -/
def Unexpired (expiresAt : Json) (now : Instant) : Prop :=
  expiresAt = .null ∨ expiresAt = .str "" ∨
    ∃ exp, parseExpires expiresAt = .ok (some exp) ∧ now < exp

theorem isExpired_none {expiresAt : Json} (h : parseExpires expiresAt = .ok none)
    (now : Instant) :
    isExpired expiresAt now = .ok (!(expiresAt = .null || expiresAt = .str "")) := by
  rw [isExpired, h]
  rfl

theorem isExpired_some {expiresAt : Json} {exp : Instant}
    (h : parseExpires expiresAt = .ok (some exp)) (now : Instant) :
    isExpired expiresAt now = .ok (decide (exp ≤ now)) := by
  rw [isExpired, h]
  rfl

theorem serves_iff (expiresAt : Json) (now : Instant) :
    Serves expiresAt now ↔ Unexpired expiresAt now := by
  have hnull : parseExpires .null = .ok none := rfl
  have hempty : parseExpires (.str "") = .ok none := rfl
  constructor
  · intro h
    cases hparse : parseExpires expiresAt with
    | error e =>
      rw [Serves, isExpired, hparse] at h
      cases h
    | ok exp =>
      cases exp with
      | none =>
        rw [Serves, isExpired_none hparse] at h
        have hor : expiresAt = .null ∨ expiresAt = .str "" := by
          simpa [or_iff_not_imp_left] using h
        exact hor.imp id .inl
      | some exp =>
        rw [Serves, isExpired_some hparse] at h
        exact .inr (.inr ⟨exp, hparse, by simpa using h⟩)
  · rintro (rfl | rfl | ⟨exp, hparse, hlt⟩)
    · rw [Serves, isExpired_none hnull]
      rfl
    · rw [Serves, isExpired_none hempty]
      rfl
    · rw [Serves, isExpired_some hparse, decide_eq_false (not_le.mpr hlt)]

def firstInstant : Instant := ⟨0, zero_lt_instantCount⟩

/-- What is unexpired at some clock was so at the first one. -/
theorem Serves.at_first {expiresAt : Json} {now : Instant} (h : Serves expiresAt now) :
    Serves expiresAt firstInstant := by
  rw [serves_iff] at h ⊢
  obtain h | h | ⟨exp, hparse, hlt⟩ := h
  · exact .inl h
  · exact .inr (.inl h)
  · exact .inr (.inr ⟨exp, hparse, Nat.lt_of_le_of_lt (Nat.zero_le now.val) hlt⟩)

/-- An expiry whose reading does not raise. -/
def Dated (expiresAt : Json) : Prop := (parseExpires expiresAt).isOk = true

instance (expiresAt : Json) : Decidable (Dated expiresAt) := inferInstanceAs (Decidable (_ = _))

theorem Dated.isExpired {expiresAt : Json} (h : Dated expiresAt) (now : Instant) :
    ∃ expired, isExpired expiresAt now = .ok expired := by
  unfold Dated at h
  cases hparse : parseExpires expiresAt with
  | error e =>
    rw [hparse] at h
    cases h
  | ok exp =>
    rw [Identity.isExpired, hparse]
    cases exp <;> exact ⟨_, rfl⟩

theorem activeRows_ok {rows : List GrantRow} (now : Instant)
    (h : ∀ row ∈ rows, 0 < row.usesRemaining → Dated row.expiresAt) :
    ∃ out, activeRows now rows = .ok out ∧
      ∀ row ∈ rows, 0 < row.usesRemaining → Serves row.expiresAt now → row.token ∈ out := by
  induction rows with
  | nil => exact ⟨[], rfl, fun row hrow => nomatch hrow⟩
  | cons row rows ih =>
    obtain ⟨out, hout, hmem⟩ := ih fun r hr => h r (List.mem_cons_of_mem row hr)
    rw [activeRows]
    by_cases huses : row.usesRemaining ≤ 0
    · rw [if_pos huses]
      refine ⟨out, hout, ?_⟩
      intro r hr hpos hserves
      obtain rfl | hr := List.mem_cons.mp hr
      · omega
      · exact hmem r hr hpos hserves
    · have hdated := h row List.mem_cons_self (by omega)
      obtain ⟨expired, hexp⟩ := hdated.isExpired now
      rw [if_neg huses, hexp, hout]
      refine ⟨if expired then out else row.token :: out, rfl, ?_⟩
      intro r hr hpos hserves
      obtain rfl | hr := List.mem_cons.mp hr
      · rw [Serves, hexp] at hserves
        cases hserves
        exact List.mem_cons_self
      · have hr' := hmem r hr hpos hserves
        cases expired with
        | true => exact hr'
        | false => exact List.mem_cons_of_mem row.token hr'

end Expiry

section Session

variable [PyCoerce] {start : GrantsFile} {s : GrantSession}

/-- A row that can be consumed at some clock. -/
def MayServe (row : GrantRow) : Prop := 0 < row.usesRemaining ∧ Serves row.expiresAt firstInstant

instance (row : GrantRow) : Decidable (MayServe row) := inferInstanceAs (Decidable (_ ∧ _))

/-- A mint that writes gives an expiry that can be read, and has read the file where a row of it
may still serve. -/
def Conserving (s : GrantSession) : GrantCall → Prop
  | .mint _ _ _ expiresAt uses f => Writes uses f s.file →
      Dated (textOrNull expiresAt) ∧ (f.readFails = true → ∀ row ∈ rowsOf s.file, ¬MayServe row)
  | _ => True

def DatedRows (file : GrantsFile) : Prop :=
  ∀ row ∈ rowsOf file, 0 < row.usesRemaining → Dated row.expiresAt

/-- Distinct tokens, so that a minted row is the one its token finds. -/
def Distinct (s : GrantSession) : Prop :=
  ∀ row ∈ s.minted, findRow row.token s.minted = some row

theorem Distinct.step (h : Distinct s) {c : GrantCall} (hfresh : FreshDraw start s c) :
    Distinct (grantStep s c) := by
  cases c with
  | mint hex created note expiresAt uses f =>
    obtain ⟨hgranted, -⟩ | ⟨-, hgranted, -⟩ := mint_rows hex created note expiresAt uses f s.file
    · rw [grantStep, hgranted, List.append_nil]
      exact h
    · rw [grantStep, hgranted]
      intro row hrow
      rw [findRow_append]
      obtain hrow | hrow := List.mem_append.mp hrow
      · rw [h row hrow]
        rfl
      · obtain rfl := List.mem_singleton.mp hrow
        have hnone : findRow (mintedRow hex created note expiresAt uses).token s.minted = none :=
          hfresh.1
        rw [hnone, if_pos rfl]
        rfl
  | consume token now f => exact h
  | load f => exact h

theorem positive_step (h : ∀ row ∈ s.minted, 1 ≤ row.usesRemaining) (c : GrantCall) :
    ∀ row ∈ (grantStep s c).minted, 1 ≤ row.usesRemaining := by
  cases c with
  | mint hex created note expiresAt uses f =>
    obtain ⟨hgranted, -⟩ | ⟨hw, hgranted, -⟩ := mint_rows hex created note expiresAt uses f s.file
    · rw [grantStep, hgranted, List.append_nil]
      exact h
    · rw [grantStep, hgranted]
      intro row hrow
      obtain hrow | hrow := List.mem_append.mp hrow
      · exact h row hrow
      · obtain rfl := List.mem_singleton.mp hrow
        exact hw.some_uses
  | consume token now f => exact h
  | load f => exact h

theorem dated_step (h : DatedRows s.file) {c : GrantCall} (hc : Conserving s c) :
    DatedRows (grantStep s c).file := by
  cases c with
  | mint hex created note expiresAt uses f =>
    obtain ⟨-, hfile⟩ | ⟨hw, -, hrows⟩ := mint_rows hex created note expiresAt uses f s.file
    · rw [grantStep, hfile]
      exact h
    · rw [DatedRows, grantStep, hrows]
      intro row hrow hpos
      obtain hrow | hrow := List.mem_append.mp hrow
      · split at hrow
        · cases hrow
        · exact h row hrow hpos
      · obtain rfl := List.mem_singleton.mp hrow
        exact (hc hw).1
  | consume token now f =>
    obtain ⟨-, hfile⟩ | ⟨old, hfind, -, hpos', -, hrows⟩ := consume_rows token now f s.file
    · rw [grantStep, hfile]
      exact h
    · rw [DatedRows, grantStep, hrows]
      intro row hrow hpos
      obtain rfl | hrow := mem_replaceRow hrow
      · exact h old (findRow_mem hfind) hpos'
      · exact h row hrow hpos
  | load f => exact h

/-- A permit that may serve is never dropped by such calls. -/
theorem whole_step (hb : Quota.Balanced Serves (ledger start s))
    (hw : Quota.Whole (Serves · firstInstant) (ledger start s)) {c : GrantCall}
    (hfresh : FreshDraw start s c) (hc : Conserving s c) :
    Quota.Whole (Serves · firstInstant) (ledger start (grantStep s c)) := by
  apply hw.step hb (ledger_step c hb hfresh)
  intro hblind token n e hleft hpos hlive
  cases c with
  | mint hex created note expiresAt uses f =>
    obtain ⟨hwrites, hreads⟩ := hblind
    rw [ledger_left, Option.map_eq_some_iff] at hleft
    obtain ⟨row, hfind, hrow⟩ := hleft
    cases hrow
    exact (hc hwrites).2 hreads row (findRow_mem hfind) ⟨hpos, hlive⟩
  | consume token now f => exact hblind
  | load f => exact hblind

/-- How often a token was consumed. -/
def consumed (s : GrantSession) (token : String) : Nat :=
  s.spent.countP fun p => p.1 = token

/-- A minted token is consumed no more often than it was minted for and never at or after its
expiry, and a consume that does not succeed leaves the file. -/
structure Spending (s : GrantSession) : Prop where
  within : ∀ row ∈ s.minted, (consumed s row.token : Int) ≤ row.usesRemaining
  in_time : ∀ row ∈ s.minted, ∀ now, (row.token, now) ∈ s.spent → Unexpired row.expiresAt now
  refused : ∀ token now f, spentTokens (consumeGrant "" token now f s.file).1 = [] →
    (consumeGrant "" token now f s.file).2 = s.file

/-- Moreover a minted token with uses left is active at every clock before its expiry. -/
structure Conserved (s : GrantSession) : Prop extends Spending s where
  active : ∀ row ∈ s.minted, (consumed s row.token : Int) < row.usesRemaining →
    ∀ now, Unexpired row.expiresAt now →
      ∃ out, loadActiveTokenSet "" true now noFaults s.file = .ok out ∧ row.token ∈ out

theorem issued_of_minted (h : Distinct s) {row : GrantRow} (hrow : row ∈ s.minted) :
    (ledger start s).issued row.token = some (row.usesRemaining, row.expiresAt) := by
  rw [ledger_issued, h row hrow]
  rfl

/-- What every run keeps. -/
structure Kept (start : GrantsFile) (s : GrantSession) : Prop where
  balanced : Quota.Balanced Serves (ledger start s)
  distinct : Distinct s
  positive : ∀ row ∈ s.minted, 1 ≤ row.usesRemaining

theorem Kept.step (h : Kept start s) {c : GrantCall} (hfresh : FreshDraw start s c) :
    Kept start (grantStep s c) where
  balanced := h.balanced.step (ledger_step c h.balanced hfresh)
  distinct := h.distinct.step hfresh
  positive := positive_step h.positive c

theorem kept_opened (start : GrantsFile) : Kept start (opened start) where
  balanced := ledger_opened start
  distinct := fun _ hrow => nomatch hrow
  positive := fun _ hrow => nomatch hrow

theorem Kept.spending (h : Kept start s) : Spending s := by
  constructor
  · intro row hrow
    have hbound := h.balanced.bounded row.token _ _ (issued_of_minted h.distinct hrow)
    have hpos := h.positive row hrow
    have hcount : consumed s row.token = (ledger start s).count row.token := rfl
    rw [hcount]
    omega
  · intro row hrow now hspent
    have hserves := h.balanced.timely _ hspent _ _ (issued_of_minted h.distinct hrow)
    exact (serves_iff row.expiresAt now).mp hserves
  · intro token now f
    exact consumeGrant_refused

theorem loadActive_ok (hdated : DatedRows s.file) (hrows : rowsOf s.file ≠ []) (now : Instant) :
    ∃ out, loadActiveTokenSet "" true now noFaults s.file = .ok out ∧
      ∀ row ∈ rowsOf s.file, 0 < row.usesRemaining → Serves row.expiresAt now →
        row.token ∈ out := by
  obtain ⟨out, hout, hmem⟩ := activeRows_ok now hdated
  refine ⟨out, ?_, hmem⟩
  cases hload : loadGrants noFaults s.file with
  | error e =>
    rw [rowsOf, hload] at hrows
    exact absurd rfl hrows
  | ok doc =>
    have hdoc : doc.tokens = rowsOf s.file := by rw [rowsOf, hload]
    have henv : envGrantToken "" = none := rfl
    rw [loadActiveTokenSet, hload]
    change activeTokenSet "" true doc now = .ok out
    rw [activeTokenSet, hdoc, hout, henv]
    exact congrArg Except.ok (List.append_nil out)

/-- Where nothing that may serve was dropped, what has uses left is active. -/
theorem Kept.conserved (h : Kept start s) (hdated : DatedRows s.file)
    (hwhole : Quota.Whole (Serves · firstInstant) (ledger start s)) : Conserved s := by
  refine ⟨h.spending, ?_⟩
  intro row hrow hleft now hnow
  have hserves := (serves_iff row.expiresAt now).mpr hnow
  have hhas := hwhole row.token _ _ (issued_of_minted h.distinct hrow) hleft hserves.at_first
  rw [ledger_left, Option.map_eq_some_iff] at hhas
  obtain ⟨r, hfind, hr⟩ := hhas
  have hmem := findRow_mem hfind
  have huses : r.usesRemaining = row.usesRemaining - (ledger start s).count row.token :=
    congrArg Prod.fst hr
  have hexp : r.expiresAt = row.expiresAt := congrArg Prod.snd hr
  have hcount : consumed s row.token = (ledger start s).count row.token := rfl
  obtain ⟨out, hout, hactive⟩ := loadActive_ok hdated (List.ne_nil_of_mem hmem) now
  refine ⟨out, hout, ?_⟩
  rw [← findRow_token hfind]
  exact hactive r hmem (by omega) (hexp ▸ hserves)

theorem whole_opened (start : GrantsFile) :
    Quota.Whole (Serves · firstInstant) (ledger start (opened start)) := by
  intro token m e hissued _ _
  have hleft : (ledger start (opened start)).left token = some (m, e) := hissued
  rw [hleft]
  simp [Quota.count, ledger, opened]

/-- Every run from any file keeps the bounds on spending; one whose mints each give an expiry
that can be read, and read the file while a row of it may serve, loses no token either. -/
theorem grants_conserved (start : GrantsFile) (calls : List GrantCall)
    (hfresh : Along grantStep (FreshDraw start) (opened start) calls) :
    Spending (run grantStep (opened start) calls) ∧
      (DatedRows start → Along grantStep Conserving (opened start) calls →
        Conserved (run grantStep (opened start) calls)) := by
  have hkept : Kept start (run grantStep (opened start) calls) :=
    hfresh.invariant (Kept start) (fun s c hc h => h.step hc) (opened start) calls
      (kept_opened start)
  refine ⟨hkept.spending, ?_⟩
  intro hdated hconserving
  have hrun : Kept start (run grantStep (opened start) calls) ∧
      DatedRows (run grantStep (opened start) calls).file ∧
      Quota.Whole (Serves · firstInstant) (ledger start (run grantStep (opened start) calls)) := by
    apply (hfresh.and hconserving).invariant (fun s => Kept start s ∧ DatedRows s.file ∧
      Quota.Whole (Serves · firstInstant) (ledger start s))
    · rintro s c ⟨hc, hkeeps⟩ ⟨h, hd, hw⟩
      exact ⟨h.step hc, dated_step hd hkeeps, whole_step h.balanced hw hc hkeeps⟩
    · exact ⟨kept_opened start, hdated, whole_opened start⟩
  exact hrun.1.conserved hrun.2.1 hrun.2.2

end Session

section Sample

attribute [local instance] basicCoerce

instance (s : GrantSession) (start : GrantsFile) (c : GrantCall) :
    Decidable (FreshDraw start s c) := by
  cases c <;> unfold FreshDraw <;> infer_instance

instance (s : GrantSession) (c : GrantCall) : Decidable (Conserving s c) := by
  cases c <;> unfold Conserving <;> infer_instance

instance (file : GrantsFile) : Decidable (DatedRows file) := by
  unfold DatedRows
  infer_instance

/-- A grant with an expiry is consumed between the mint of another and a write that fails. -/
def grantCalls : List GrantCall :=
  [.mint [1, 2] "2026-11-19T08:00:00+00:00" none (some "2026-12-01T00:00:00Z") 2 noFaults,
    .mint [3, 4] "2026-11-19T09:00:00+00:00" (some "second") none 1 noFaults,
    .consume " grant_12 " firstInstant noFaults,
    .consume "grant_12" firstInstant ⟨false, none, some "PermissionError"⟩,
    .consume "grant_34" firstInstant ⟨true, none, none⟩,
    .load noFaults]

theorem grants_conserved_sample :
    Conserved (run grantStep (opened (.ok none)) grantCalls) :=
  (grants_conserved (.ok none) grantCalls (by decide +kernel)).2 (by decide +kernel)
    (by decide +kernel)

/-- The second mint cannot read the file. -/
def blindMint : List GrantCall :=
  [.mint [1, 2] "2026-11-19T08:00:00+00:00" none none 1 noFaults,
    .mint [3, 4] "2026-11-19T09:00:00+00:00" none none 1 ⟨true, none, none⟩]

/-- The first grant is gone though it was never consumed. -/
theorem blind_mint_drops_grant :
    Along grantStep (FreshDraw (.ok none)) (opened (.ok none)) blindMint ∧
      ¬Conserved (run grantStep (opened (.ok none)) blindMint) := by
  refine ⟨by decide +kernel, ?_⟩
  intro h
  have hactive : loadActiveTokenSet "" true firstInstant noFaults
      (run grantStep (opened (.ok none)) blindMint).file = .ok ["grant_34"] := by decide +kernel
  obtain ⟨out, hout, hmem⟩ := h.active
    ⟨"grant_12", .str "2026-11-19T08:00:00+00:00", .null, 1, .null⟩ (by decide +kernel)
    (by decide +kernel) firstInstant (.inl rfl)
  rw [hactive] at hout
  cases hout
  revert hmem
  decide

end Sample
end Elyra.Identity
