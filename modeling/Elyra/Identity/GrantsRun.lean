import Elyra.Framework.Quota
import Elyra.Identity.Grants

namespace Elyra.Identity

open Json
open Secrets (stripped)

inductive GrantCall where
  | mint (hex : List (Fin 16)) (created : String) (note expiresAt : Option String) (uses : Int)
      (f : Faults)
  | consume (token : String) (now : Instant) (f : Faults)
  | load (f : Faults)

/-- The file, the rows minted so far and the tokens consumed so far, each at its clock. -/
structure GrantSession where
  file : GrantsFile
  minted : List GrantRow
  spent : List (String × Instant)

def opened (file : GrantsFile) : GrantSession := ⟨file, [], []⟩

def grantedRows : Except PyErr MintReply → List GrantRow
  | .ok (.granted row) => [row]
  | _ => []

def spentTokens : Except PyErr ConsumeReply → List String
  | .ok (.spent token _ _) => [token]
  | _ => []

def mintedRow (hex : List (Fin 16)) (created : String) (note expiresAt : Option String)
    (uses : Int) : GrantRow :=
  ⟨grantToken hex, .str created, textOrNull expiresAt, uses, textOrNull note⟩

theorem mintedRow_clean (hex : List (Fin 16)) (created : String) (note expiresAt : Option String)
    (uses : Int) : (mintedRow hex created note expiresAt uses).Clean := by
  refine ⟨stripped_grantToken hex, ?_⟩
  have hlen : (grantToken hex).length ≠ 0 := by simp [grantToken]
  exact fun h => hlen (by rw [show grantToken hex = "" from h]; rfl)

variable [PyCoerce]

/-- One call with `ELYRA_SELF_PROMOTE_GRANT` unset. -/
def grantStep (s : GrantSession) : GrantCall → GrantSession
  | .mint hex created note expiresAt uses f =>
    let r := mintGrant hex created note expiresAt uses f s.file
    { s with file := r.2, minted := s.minted ++ grantedRows r.1 }
  | .consume token now f =>
    let r := consumeGrant "" token now f s.file
    { s with file := r.2, spent := s.spent ++ (spentTokens r.1).map (·, now) }
  | .load _ => s

/-- The rows a read that succeeds gives. -/
def rowsOf (file : GrantsFile) : List GrantRow :=
  match loadGrants noFaults file with
  | .ok doc => doc.tokens
  | .error _ => []

section Calls

variable {f : Faults} {file : GrantsFile} {doc : GrantsDoc}

theorem loadGrants_clean (h : loadGrants f file = .ok doc) : ∀ row ∈ doc.tokens, row.Clean := by
  obtain ⟨raw, -, hdoc⟩ := except_bind_ok h
  exact normalizeDoc_clean hdoc

theorem rowsOf_load (h : loadGrants f file = .ok doc) :
    doc.tokens = if f.readFails then [] else rowsOf file := by
  cases hf : f.readFails with
  | true =>
    rw [loadGrants, loadJsonObject, hf] at h
    cases h
    rfl
  | false =>
    have hload : loadGrants f file = loadGrants noFaults file := by
      simp [loadGrants, loadJsonObject, hf, noFaults]
    rw [hload] at h
    simp [rowsOf, h]

theorem load_encode {rows : List GrantRow} (h : ∀ row ∈ rows, row.Clean) :
    loadGrants noFaults (.ok (some (GrantsDoc.encode ⟨grantsSchemaVersion, rows⟩))) =
      .ok ⟨grantsSchemaVersion, rows⟩ := normalizeDoc_encode h

theorem rowsOf_encode {rows : List GrantRow} (h : ∀ row ∈ rows, row.Clean) :
    rowsOf (.ok (some (GrantsDoc.encode ⟨grantsSchemaVersion, rows⟩))) = rows := by
  rw [rowsOf, load_encode h]

/-- A mint writes. -/
structure Writes (uses : Int) (f : Faults) (file : GrantsFile) : Prop where
  some_uses : 1 ≤ uses
  mkdir : f.mkdirFails = none
  write : f.writeFails = none
  reads : (loadGrants f file).isOk = true

instance (uses : Int) (f : Faults) (file : GrantsFile) : Decidable (Writes uses f file) :=
  decidable_of_iff (1 ≤ uses ∧ f.mkdirFails = none ∧ f.writeFails = none ∧
      (loadGrants f file).isOk = true)
    ⟨fun ⟨h, m, w, r⟩ => ⟨h, m, w, r⟩, fun ⟨h, m, w, r⟩ => ⟨h, m, w, r⟩⟩

/-- A mint adds its row to the rows it read, or changes nothing. -/
theorem mintGrant_cases (hex : List (Fin 16)) (created : String) (note expiresAt : Option String)
    (uses : Int) (f : Faults) (file : GrantsFile) :
    (grantedRows (mintGrant hex created note expiresAt uses f file).1 = [] ∧
      (mintGrant hex created note expiresAt uses f file).2 = file) ∨
    Writes uses f file ∧ ∃ doc, loadGrants f file = .ok doc ∧
      grantedRows (mintGrant hex created note expiresAt uses f file).1 =
        [mintedRow hex created note expiresAt uses] ∧
      (mintGrant hex created note expiresAt uses f file).2 =
        .ok (some (GrantsDoc.encode
          ⟨grantsSchemaVersion, doc.tokens ++ [mintedRow hex created note expiresAt uses]⟩)) := by
  rw [mintGrant]
  split
  · exact .inl ⟨rfl, rfl⟩
  · rename_i huses
    cases hm : f.mkdirFails with
    | some name => exact .inl ⟨rfl, rfl⟩
    | none =>
      cases hl : loadGrants f file with
      | error e => exact .inl ⟨rfl, rfl⟩
      | ok doc =>
        cases hw : f.writeFails with
        | some name => exact .inl ⟨rfl, rfl⟩
        | none => exact .inr ⟨⟨by omega, hm, hw, by rw [hl]; rfl⟩, doc, rfl, rfl, rfl⟩

/-- A consume takes one use from the row it read, or changes nothing. -/
theorem consumeGrant_cases (token : String) (now : Instant) (f : Faults) (file : GrantsFile) :
    (spentTokens (consumeGrant "" token now f file).1 = [] ∧
      (consumeGrant "" token now f file).2 = file) ∨
    ∃ doc row, loadGrants f file = .ok doc ∧ findRow (stripped token) doc.tokens = some row ∧
      isExpired row.expiresAt now = .ok false ∧ 0 < row.usesRemaining ∧
      spentTokens (consumeGrant "" token now f file).1 = [stripped token] ∧
      (consumeGrant "" token now f file).2 =
        .ok (some (GrantsDoc.encode
          ⟨grantsSchemaVersion, replaceRow (stripped token) row.spendOnce doc.tokens⟩)) := by
  have henv : envGrantToken "" = none := rfl
  rw [consumeGrant, henv]
  split
  · exact .inl ⟨rfl, rfl⟩
  · rw [if_neg (by simp)]
    cases hl : loadGrants f file with
    | error e => exact .inl ⟨rfl, rfl⟩
    | ok doc =>
      dsimp only
      rw [consumeFrom]
      cases hrow : findRow (stripped token) doc.tokens with
      | none => exact .inl ⟨rfl, rfl⟩
      | some row =>
        dsimp only
        cases hexp : isExpired row.expiresAt now with
        | error e => exact .inl ⟨rfl, rfl⟩
        | ok expired =>
          cases expired with
          | true => exact .inl ⟨rfl, rfl⟩
          | false =>
            dsimp only
            split
            · exact .inl ⟨rfl, rfl⟩
            · rename_i huses
              cases hw : f.mkdirFails.or f.writeFails with
              | some name => exact .inl ⟨rfl, rfl⟩
              | none => exact .inr ⟨doc, row, rfl, hrow, hexp, by omega, rfl, rfl⟩

theorem mint_rows (hex : List (Fin 16)) (created : String) (note expiresAt : Option String)
    (uses : Int) (f : Faults) (file : GrantsFile) :
    (grantedRows (mintGrant hex created note expiresAt uses f file).1 = [] ∧
      (mintGrant hex created note expiresAt uses f file).2 = file) ∨
    Writes uses f file ∧
      grantedRows (mintGrant hex created note expiresAt uses f file).1 =
        [mintedRow hex created note expiresAt uses] ∧
      rowsOf (mintGrant hex created note expiresAt uses f file).2 =
        (if f.readFails then [] else rowsOf file) ++
          [mintedRow hex created note expiresAt uses] := by
  obtain h | ⟨hw, doc, hload, hgranted, hfile⟩ :=
    mintGrant_cases hex created note expiresAt uses f file
  · exact .inl h
  · refine .inr ⟨hw, hgranted, ?_⟩
    rw [hfile, rowsOf_encode, rowsOf_load hload]
    intro r h
    obtain h | h := List.mem_append.mp h
    · exact loadGrants_clean hload r h
    · exact List.mem_singleton.mp h ▸ mintedRow_clean hex created note expiresAt uses

theorem consume_rows (token : String) (now : Instant) (f : Faults) (file : GrantsFile) :
    (spentTokens (consumeGrant "" token now f file).1 = [] ∧
      (consumeGrant "" token now f file).2 = file) ∨
    ∃ row, findRow (stripped token) (rowsOf file) = some row ∧
      isExpired row.expiresAt now = .ok false ∧ 0 < row.usesRemaining ∧
      spentTokens (consumeGrant "" token now f file).1 = [stripped token] ∧
      rowsOf (consumeGrant "" token now f file).2 =
        replaceRow (stripped token) row.spendOnce (rowsOf file) := by
  obtain h | ⟨doc, row, hload, hfind, hserves, hpos, hspent, hfile⟩ :=
    consumeGrant_cases token now f file
  · exact .inl h
  · have hread := rowsOf_load hload
    cases hf : f.readFails with
    | true =>
      rw [hf, if_pos rfl] at hread
      rw [hread] at hfind
      cases hfind
    | false =>
      rw [hf, if_neg Bool.false_ne_true] at hread
      refine .inr ⟨row, hread ▸ hfind, hserves, hpos, hspent, ?_⟩
      have hclean := loadGrants_clean hload
      rw [hfile, rowsOf_encode, hread]
      intro r h
      obtain rfl | h := mem_replaceRow h
      · have hold := hclean row (findRow_mem hfind)
        exact ⟨hold.stripped, hold.nonempty⟩
      · exact hclean r h

/-- A consume that does not succeed leaves the file. -/
theorem consumeGrant_refused {token : String} {now : Instant} {f : Faults} {file : GrantsFile}
    (h : spentTokens (consumeGrant "" token now f file).1 = []) :
    (consumeGrant "" token now f file).2 = file := by
  obtain ⟨-, hfile⟩ | ⟨doc, row, -, -, -, -, hspent, -⟩ := consumeGrant_cases token now f file
  · exact hfile
  · rw [hspent] at h
    cases h

end Calls

section Ledger

def allowance (row : GrantRow) : Int × Json := (row.usesRemaining, row.expiresAt)

/-- The rows as permits; those of the first file count as issued. -/
def ledger (start : GrantsFile) (s : GrantSession) : Quota String Json Instant where
  left token := (findRow token (rowsOf s.file)).map allowance
  issued token := ((findRow token s.minted).or (findRow token (rowsOf start))).map allowance
  spent := s.spent

theorem ledger_left (start : GrantsFile) (s : GrantSession) (token : String) :
    (ledger start s).left token = (findRow token (rowsOf s.file)).map allowance := rfl

theorem ledger_issued (start : GrantsFile) (s : GrantSession) (token : String) :
    (ledger start s).issued token =
      ((findRow token s.minted).or (findRow token (rowsOf start))).map allowance := rfl

/-- A token that may be consumed at a clock. -/
def Serves (expiresAt : Json) (now : Instant) : Prop := isExpired expiresAt now = .ok false

instance (expiresAt : Json) (now : Instant) : Decidable (Serves expiresAt now) :=
  inferInstanceAs (Decidable (_ = _))

/-- A draw is no token of the first file and none minted before. -/
def FreshDraw (start : GrantsFile) (s : GrantSession) : GrantCall → Prop
  | .mint hex _ _ _ _ _ =>
    findRow (grantToken hex) s.minted = none ∧ findRow (grantToken hex) (rowsOf start) = none
  | _ => True

/-- A mint writes without having read the file. -/
def WritesBlind (s : GrantSession) : GrantCall → Prop
  | .mint _ _ _ _ uses f => Writes uses f s.file ∧ f.readFails = true
  | _ => False

variable {start : GrantsFile} {s : GrantSession}

theorem left_none (hb : Quota.Balanced Serves (ledger start s)) {token : String}
    (hm : findRow token s.minted = none) (hs : findRow token (rowsOf start) = none) :
    findRow token (rowsOf s.file) = none := by
  cases hrow : findRow token (rowsOf s.file) with
  | none => rfl
  | some row =>
    have hleft : (ledger start s).left token = some (allowance row) := by
      rw [ledger_left, hrow]
      rfl
    obtain ⟨m, hissued, -⟩ := hb.known token row.usesRemaining row.expiresAt hleft
    rw [ledger_issued, hm, hs] at hissued
    cases hissued

theorem ledger_mint (hex : List (Fin 16)) (created : String) (note expiresAt : Option String)
    (uses : Int) (f : Faults) (hb : Quota.Balanced Serves (ledger start s))
    (hfresh : FreshDraw start s (.mint hex created note expiresAt uses f)) :
    Quota.Step Serves (WritesBlind s (.mint hex created note expiresAt uses f)) (ledger start s)
      (ledger start (grantStep s (.mint hex created note expiresAt uses f))) := by
  obtain ⟨hgranted, hfile⟩ | ⟨hw, hgranted, hrows⟩ :=
    mint_rows hex created note expiresAt uses f s.file
  · apply Quota.Step.idle
    rw [grantStep, hgranted, hfile, List.append_nil]
  · obtain ⟨hminted, hstart⟩ := hfresh
    have hrow : (mintedRow hex created note expiresAt uses).token = grantToken hex := rfl
    generalize mintedRow hex created note expiresAt uses = row at hgranted hrows hrow
    have hnone := left_none hb hminted hstart
    have hadded (rows : List GrantRow) (h : findRow (grantToken hex) rows = none) (j : String) :
        (findRow j (rows ++ [row])).map allowance =
          if j = grantToken hex then some (allowance row) else (findRow j rows).map allowance := by
      rw [findRow_append, hrow]
      by_cases hj : j = grantToken hex
      · rw [hj, h]
        simp
      · simp [hj, Ne.symm hj]
    apply Quota.Step.issue (grantToken hex) (allowance row)
    · rw [ledger_issued, hminted, hstart]
      rfl
    · cases hf : f.readFails with
      | false =>
        left
        intro j
        rw [ledger_left, ledger_left, grantStep, hrows, hf]
        exact hadded (rowsOf s.file) hnone j
      | true =>
        right
        refine ⟨⟨hw, hf⟩, ?_⟩
        intro j
        rw [ledger_left, grantStep, hrows, hf]
        exact hadded [] rfl j
    · intro j
      rw [ledger_issued, ledger_issued, grantStep, hgranted]
      rw [findRow_append, hrow]
      by_cases hj : j = grantToken hex
      · rw [hj, hminted]
        simp
      · simp [hj, Ne.symm hj]
    · rfl

theorem ledger_consume (token : String) (now : Instant) (f : Faults) :
    Quota.Step Serves False (ledger start s) (ledger start (grantStep s (.consume token now f))) := by
  obtain ⟨hspent, hfile⟩ | ⟨row, hfind, hserves, hpos, hspent, hrows⟩ :=
    consume_rows token now f s.file
  · apply Quota.Step.idle
    rw [grantStep, hspent, hfile, List.map_nil, List.append_nil]
  · have hold : row.token = stripped token := findRow_token hfind
    have hrow : row.spendOnce.token = stripped token := hold
    apply Quota.Step.spend (stripped token) row.usesRemaining row.expiresAt now
    · rw [ledger_left, hfind]
      rfl
    · exact hpos
    · exact hserves
    · intro j
      rw [ledger_left, ledger_left, grantStep, hrows, findRow_replaceRow hfind hrow]
      by_cases hj : j = stripped token
      · rw [hj, if_pos rfl, if_pos rfl]
        rfl
      · simp [hj]
    · rfl
    · rw [ledger, grantStep, hspent]
      rfl

/-- Every call is a step of the permits. -/
theorem ledger_step (c : GrantCall) (hb : Quota.Balanced Serves (ledger start s))
    (hfresh : FreshDraw start s c) :
    Quota.Step Serves (WritesBlind s c) (ledger start s) (ledger start (grantStep s c)) := by
  cases c with
  | mint hex created note expiresAt uses f =>
    exact ledger_mint hex created note expiresAt uses f hb hfresh
  | consume token now f => exact ledger_consume token now f
  | load f => exact .idle rfl

theorem ledger_opened (start : GrantsFile) :
    Quota.Balanced Serves (ledger start (opened start)) := by
  constructor
  · intro k n e h
    exact ⟨n, h, by simp [Quota.count, ledger, opened]⟩
  · intro k m e h
    exact Int.le_max_right m 0
  · intro k h
    rfl
  · intro p hp
    cases hp

end Ledger
end Elyra.Identity
