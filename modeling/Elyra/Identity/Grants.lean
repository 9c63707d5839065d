import Elyra.Framework.IsoText
import Elyra.Framework.Json.Parse
import Elyra.Framework.Run
import Elyra.Presence.PoisonFold
import Elyra.Secrets.Store
import Mathlib.Data.List.ReduceOption
import Elyra.Framework.Groups

namespace Elyra.Identity

open Json
open Presence (intOrRaise)
open Secrets (stripped blank)

def grantsSchemaVersion : Int := 1

/-- `load_json_object` on the grants file: `none` where it is missing, blank, no JSON or no
object; bytes that are not UTF-8 raise. -/
abbrev GrantsFile := Except PyErr (Option (Dict String Json))

/-- What fails in one call, an error by the name of its class. -/
structure Faults where
  readFails : Bool
  mkdirFails : Option String
  writeFails : Option String
  deriving DecidableEq

/-- A call whose file operations all succeed. -/
def noFaults : Faults := ⟨false, none, none⟩

structure GrantRow where
  token : String
  createdAt : Json
  expiresAt : Json
  usesRemaining : Int
  note : Json
  deriving DecidableEq

structure GrantsDoc where
  schemaVersion : Int
  tokens : List GrantRow
  deriving DecidableEq

def emptyDoc : GrantsDoc := ⟨grantsSchemaVersion, []⟩

def GrantRow.encode (row : GrantRow) : Json :=
  .obj [("token", .str row.token), ("created_at", row.createdAt), ("expires_at", row.expiresAt),
    ("uses_remaining", .int row.usesRemaining), ("note", row.note)]

def GrantsDoc.encode (doc : GrantsDoc) : Dict String Json :=
  .ofList [("schema_version", .int doc.schemaVersion),
    ("tokens", .arr (doc.tokens.map GrantRow.encode))]

section Expiry

/-- A value that is no text, an empty text and a text that is no date give `none`; a date whose
zone leads out of the years 1 to 9999 raises. -/
def parseExpires (expiresAt : Json) : Except PyErr (Option Instant) :=
  match expiresAt with
  | .str text =>
    if text = "" then .ok none
    else
      match Iso.fromIsoFormat (text.toList.flatMap fun c => if c = 'Z' then Iso.zoneText else [c]) with
      | none => .ok none
      | some exp => (exp.toUtc.map some).elim (.error .overflowError) .ok
  | _ => .ok none

/-- An expiry that cannot be read counts as passed. -/
def isExpired (expiresAt : Json) (now : Instant) : Except PyErr Bool := do
  match ← parseExpires expiresAt with
  | none => return !(expiresAt = .null || expiresAt = .str "")
  | some exp => return decide (exp ≤ now)

end Expiry

section Load

variable [PyCoerce]

/-- `int(uses)`, where a `TypeError` or a `ValueError` gives 0. -/
def usesOf (v : Json) : Except PyErr Int :=
  match intOrRaise v with
  | .error .overflowError => .error .overflowError
  | .error _ => .ok 0
  | .ok n => .ok n

def normalizeRow : Json → Except PyErr (Option GrantRow)
  | .obj row =>
    match lookup row "token" with
    | some (.str token) =>
      if blank token then .ok none
      else do
        let uses ← usesOf ((lookup row "uses_remaining").getD (.int 0))
        return some
          { token := stripped token
            createdAt := (lookup row "created_at").getD .null
            expiresAt := (lookup row "expires_at").getD .null
            usesRemaining := uses
            note := (lookup row "note").getD .null }
    | _ => .ok none
  | _ => .ok none

def rawTokens (raw : Dict String Json) : List Json :=
  match raw.get? "tokens" with
  | some (.arr tokens) => tokens
  | _ => []

def normalizeDoc : Option (Dict String Json) → Except PyErr GrantsDoc
  | none => .ok emptyDoc
  | some raw => do
    let clean ← (rawTokens raw).mapM normalizeRow
    let version := (raw.get? "schema_version").getD .null
    let schemaVersion ← intOrRaise (if truthy version then version else .int grantsSchemaVersion)
    return ⟨schemaVersion, clean.reduceOption⟩

def loadJsonObject (f : Faults) (file : GrantsFile) : Except PyErr (Option (Dict String Json)) :=
  if f.readFails then .ok none else file

def loadGrants (f : Faults) (file : GrantsFile) : Except PyErr GrantsDoc := do
  normalizeDoc (← loadJsonObject f file)

end Load

section Active

/-- `ELYRA_SELF_PROMOTE_GRANT`, of which an unset one is an empty text. -/
def envGrantToken (env : String) : Option String :=
  if stripped env = "" then none else some (stripped env)

/-- The tokens with uses left and an expiry to come, in the order of their rows. -/
def activeRows (now : Instant) : List GrantRow → Except PyErr (List String)
  | [] => .ok []
  | row :: rows =>
    if row.usesRemaining ≤ 0 then activeRows now rows
    else do
      let expired ← isExpired row.expiresAt now
      let rest ← activeRows now rows
      return if expired then rest else row.token :: rest

def activeTokenSet (env : String) (includeEnv : Bool) (doc : GrantsDoc) (now : Instant) :
    Except PyErr (List String) := do
  let out ← activeRows now doc.tokens
  return out ++ if includeEnv then (envGrantToken env).toList else []

variable [PyCoerce]

def loadActiveTokenSet (env : String) (includeEnv : Bool) (now : Instant) (f : Faults)
    (file : GrantsFile) : Except PyErr (List String) := do
  activeTokenSet env includeEnv (← loadGrants f file) now

end Active

section Calls

variable [PyCoerce]

/-- `secrets.token_hex(16)` with its prefix. -/
def grantToken (hex : List (Fin 16)) : String :=
  "grant_" ++ .ofList (hex.map fun d => hexChar d.val)

def textOrNull (text : Option String) : Json := text.elim .null .str

inductive MintReply where
  | refused (error : String)
  | granted (row : GrantRow)
  deriving DecidableEq

/-- `mint_grant`, given the draw of its token and the text of `utc_now_iso`. -/
def mintGrant (hex : List (Fin 16)) (created : String) (note expiresAt : Option String)
    (uses : Int) (f : Faults) (file : GrantsFile) : Except PyErr MintReply × GrantsFile :=
  if uses < 1 then (.ok (.refused "invalid_uses"), file)
  else
    let row : GrantRow :=
      ⟨grantToken hex, .str created, textOrNull expiresAt, uses, textOrNull note⟩
    match f.mkdirFails, loadGrants f file with
    | some _, _ => (.error .osError, file)
    | none, .error e => (.error e, file)
    | none, .ok doc =>
      match f.writeFails with
      | some name => (.ok (.refused ("grant_write_failed:" ++ name)), file)
      | none =>
        (.ok (.granted row),
          .ok (some (GrantsDoc.encode ⟨grantsSchemaVersion, doc.tokens ++ [row]⟩)))

inductive ConsumeReply where
  | refused (error : String)
  | spent (token source : String) (usesRemaining : Int)
  deriving DecidableEq

/-- The first row of a token is replaced. -/
def replaceRow (token : String) (row : GrantRow) : List GrantRow → List GrantRow
  | [] => []
  | r :: rows => if r.token = token then row :: rows else r :: replaceRow token row rows

def GrantRow.spendOnce (row : GrantRow) : GrantRow :=
  { row with usesRemaining := row.usesRemaining - 1 }

def findRow (token : String) (rows : List GrantRow) : Option GrantRow :=
  rows.find? fun r => r.token = token

/-- What `consume_grant` does with the document it read. -/
def consumeFrom (doc : GrantsDoc) (token : String) (now : Instant) (f : Faults)
    (file : GrantsFile) : Except PyErr ConsumeReply × GrantsFile :=
  match findRow token doc.tokens with
  | none => (.ok (.refused "grant_missing"), file)
  | some row =>
    match isExpired row.expiresAt now with
    | .error e => (.error e, file)
    | .ok true => (.ok (.refused "grant_expired"), file)
    | .ok false =>
      if row.usesRemaining ≤ 0 then (.ok (.refused "grant_exhausted"), file)
      else
        match f.mkdirFails.or f.writeFails with
        | some name => (.ok (.refused ("grant_write_failed:" ++ name)), file)
        | none =>
          (.ok (.spent token "file" row.spendOnce.usesRemaining),
            .ok (some (GrantsDoc.encode
              ⟨grantsSchemaVersion, replaceRow token row.spendOnce doc.tokens⟩)))

def consumeGrant (env token : String) (now : Instant) (f : Faults) (file : GrantsFile) :
    Except PyErr ConsumeReply × GrantsFile :=
  if stripped token = "" then (.ok (.refused "grant_missing"), file)
  else if envGrantToken env = some (stripped token) then
    (.ok (.spent (stripped token) "env" 0), file)
  else
    match loadGrants f file with
    | .error e => (.error e, file)
    | .ok doc => consumeFrom doc (stripped token) now f file

end Calls

section Text

theorem dropWhile_isSpace_idem (cs : List Char) :
    (cs.dropWhile isSpace).dropWhile isSpace = cs.dropWhile isSpace := by
  induction cs with
  | nil => rfl
  | cons c cs ih =>
    by_cases hc : isSpace c
    · simp [hc, ih]
    · simp [hc]

/-- What is stripped at the front stays so when its end is stripped. -/
theorem dropWhile_strip (cs : List Char) : (strip cs).dropWhile isSpace = strip cs := by
  cases hs : strip cs with
  | nil => rfl
  | cons c rest =>
    have hc : isSpace c = false := by
      have hprefix : strip cs <+: cs.dropWhile isSpace := by
        rw [strip, ← List.reverse_suffix, List.reverse_reverse]
        exact List.dropWhile_suffix _
      obtain ⟨tail, htail⟩ := hprefix
      rw [hs] at htail
      have hidem := dropWhile_isSpace_idem cs
      rw [← htail, List.cons_append, List.dropWhile_cons] at hidem
      by_contra hspace
      rw [Bool.not_eq_false] at hspace
      rw [if_pos hspace] at hidem
      have hlen := congrArg List.length hidem
      have hle := (List.dropWhile_sublist isSpace (l := rest ++ tail)).length_le
      rw [List.length_cons] at hlen
      omega
    rw [List.dropWhile_cons, hc]
    rfl

theorem strip_strip (cs : List Char) : strip (strip cs) = strip cs := by
  have hback : ((strip cs).reverse).dropWhile isSpace = (strip cs).reverse := by
    rw [strip, List.reverse_reverse, dropWhile_isSpace_idem]
  conv_lhs => rw [strip, dropWhile_strip, hback, List.reverse_reverse]

theorem stripped_stripped (text : String) : stripped (stripped text) = stripped text := by
  simp only [stripped, String.toList_ofList, strip_strip]

theorem blank_iff {text : String} : blank text = true ↔ stripped text = "" := by
  simp [blank, stripped]

/-- A drawn token has no blanks around it. -/
theorem stripped_grantToken (hex : List (Fin 16)) : stripped (grantToken hex) = grantToken hex := by
  have hspace : ∀ d : Fin 16, isSpace (hexChar d.val) = false := by decide
  have htext : (grantToken hex).toList =
      'g' :: ("rant_".toList ++ hex.map fun d => hexChar d.val) := by
    simp [grantToken]
  have hlast : ∃ cs d, "rant_".toList ++ hex.map (fun d => hexChar d.val) = cs ++ [d] ∧
      isSpace d = false := by
    cases hex using List.reverseRecOn with
    | nil => exact ⟨"rant".toList, '_', by decide, by decide⟩
    | append_singleton hex d =>
      exact ⟨"rant_".toList ++ hex.map fun d => hexChar d.val, hexChar d.val, by simp, hspace d⟩
  obtain ⟨cs, d, hcs, hd⟩ := hlast
  rw [hcs] at htext
  rw [stripped, htext, strip_eq_self 'g' d cs (by decide) hd, ← htext, String.ofList_toList]

end Text

section Rows

variable [PyCoerce]

/-- A row as the code keeps it. -/
structure GrantRow.Clean (row : GrantRow) : Prop where
  stripped : Secrets.stripped row.token = row.token
  nonempty : row.token ≠ ""

theorem normalizeRow_clean {v : Json} {row : GrantRow} (h : normalizeRow v = .ok (some row)) :
    row.Clean := by
  unfold normalizeRow at h
  split at h
  · split at h
    · split at h
      · cases h
      · rename_i token _ hblank
        obtain ⟨uses, -, hrow⟩ := except_bind_ok h
        obtain rfl := Option.some.inj (Except.ok.inj hrow)
        constructor
        · exact stripped_stripped token
        · intro hempty
          exact hblank (blank_iff.mpr hempty)
    · cases h
  · cases h

theorem usesOf_int (n : Int) : usesOf (.int n) = .ok n := rfl

/-- A kept row is read back as it was written. -/
theorem normalizeRow_encode {row : GrantRow} (h : row.Clean) :
    normalizeRow row.encode = .ok (some row) := by
  have hblank : blank row.token = false := by
    rw [Bool.eq_false_iff, Ne, blank_iff, h.stripped]
    exact h.nonempty
  simp [normalizeRow, GrantRow.encode, lookup, hblank, h.stripped, usesOf_int]

theorem mapM_normalizeRow_encode {rows : List GrantRow} (h : ∀ row ∈ rows, row.Clean) :
    (rows.map GrantRow.encode).mapM normalizeRow = .ok (rows.map some) := by
  induction rows with
  | nil => rfl
  | cons row rows ih =>
    have hrow := normalizeRow_encode (h row List.mem_cons_self)
    have hrest := ih fun r hr => h r (List.mem_cons_of_mem row hr)
    rw [List.map_cons, List.mapM_cons, hrow, hrest]
    rfl

theorem normalizeDoc_encode {rows : List GrantRow} (h : ∀ row ∈ rows, row.Clean) :
    normalizeDoc (some (GrantsDoc.encode ⟨grantsSchemaVersion, rows⟩)) =
      .ok ⟨grantsSchemaVersion, rows⟩ := by
  have htokens : rawTokens (GrantsDoc.encode ⟨grantsSchemaVersion, rows⟩) =
      rows.map GrantRow.encode := rfl
  have hversion : (GrantsDoc.encode ⟨grantsSchemaVersion, rows⟩).get? "schema_version" =
      some (.int 1) := rfl
  rw [normalizeDoc, htokens, mapM_normalizeRow_encode h, hversion]
  have hclean : (rows.map some).reduceOption = rows := by
    simp [List.reduceOption]
  simp only [bind, Except.bind, hclean]
  rfl

theorem normalizeDoc_clean {raw : Option (Dict String Json)} {doc : GrantsDoc}
    (h : normalizeDoc raw = .ok doc) : ∀ row ∈ doc.tokens, row.Clean := by
  cases raw with
  | none =>
    cases h
    exact fun row hrow => nomatch hrow
  | some raw =>
    obtain ⟨clean, hclean, h⟩ := except_bind_ok h
    obtain ⟨version, -, h⟩ := except_bind_ok h
    cases h
    intro row hrow
    have hsome : some row ∈ clean := List.reduceOption_mem_iff.mp hrow
    obtain ⟨v, -, hv⟩ := mem_mapM hclean hsome
    exact normalizeRow_clean hv

end Rows

section Find

theorem findRow_append {token : String} {rows : List GrantRow} (row : GrantRow) :
    findRow token (rows ++ [row]) =
      (findRow token rows).or (if row.token = token then some row else none) := by
  rw [findRow, List.find?_append, ← findRow]
  congr 1
  by_cases h : row.token = token
  · simp [h]
  · simp [h]

theorem findRow_token {token : String} {rows : List GrantRow} {row : GrantRow}
    (h : findRow token rows = some row) : row.token = token := by
  simpa using List.find?_some h

theorem findRow_mem {token : String} {rows : List GrantRow} {row : GrantRow}
    (h : findRow token rows = some row) : row ∈ rows := List.mem_of_find?_eq_some h

theorem findRow_replaceRow {token other : String} {rows : List GrantRow} {row old : GrantRow}
    (hold : findRow token rows = some old) (hrow : row.token = token) :
    findRow other (replaceRow token row rows) =
      if other = token then some row else findRow other rows := by
  induction rows with
  | nil => cases hold
  | cons r rows ih =>
    rw [replaceRow]
    by_cases hr : r.token = token
    · by_cases ho : other = token
      · simp [findRow, hr, hrow, ho]
      · simp [findRow, hr, hrow, ho, Ne.symm ho]
    · have htail : findRow token rows = some old := by
        simpa [findRow, List.find?_cons, hr] using hold
      rw [if_neg hr]
      by_cases ho : r.token = other
      · have hne : other ≠ token := ho ▸ hr
        simp [findRow, ho, hne]
      · simpa [findRow, List.find?_cons, ho] using ih htail

theorem mem_replaceRow {token : String} {rows : List GrantRow} {row r : GrantRow}
    (h : r ∈ replaceRow token row rows) : r = row ∨ r ∈ rows := by
  induction rows with
  | nil => cases h
  | cons q rows ih =>
    rw [replaceRow] at h
    split at h
    · obtain rfl | h := List.mem_cons.mp h
      · exact .inl rfl
      · exact .inr (List.mem_cons_of_mem q h)
    · obtain rfl | h := List.mem_cons.mp h
      · exact .inr List.mem_cons_self
      · exact (ih h).imp id (List.mem_cons_of_mem q)

end Find
end Elyra.Identity
