import Elyra.Framework.IsoText
import Elyra.Llm.OAuthRefresh
import Elyra.Presence.PoisonFold
import Mathlib.Data.List.ReduceOption
import Mathlib.Data.List.Basic

namespace Elyra.Llm

/-- A code point of a Python text; a lone surrogate is one that UTF-8 cannot write. -/
inductive PyChar where
  | scalar (c : Char)
  | surrogate (n : Fin 2048)
  deriving DecidableEq

abbrev PyText := List PyChar

namespace PyText

def ofString (s : String) : PyText := s.toList.map .scalar

def blankChar : PyChar → Bool
  | .scalar c => isSpace c
  | .surrogate _ => false

def strip (s : PyText) : PyText :=
  ((s.dropWhile blankChar).reverse.dropWhile blankChar).reverse

/-- `s.encode("utf-8")` raises nothing. -/
def encodable (s : PyText) : Bool :=
  s.all fun c => match c with
    | .scalar _ => true
    | .surrogate _ => false

/-- The text with a foreign character for every lone surrogate: equal to it where texts of ASCII
characters, digits and separators are looked for. -/
def shown (s : PyText) : List Char :=
  s.map fun c => match c with
    | .scalar c => c
    | .surrogate _ => '\uFFFD'

def lower (s : PyText) : String := (String.ofList s.shown).toLower

end PyText

/-- A member of a decoded object: a text, or a value that is not one. -/
inductive Value where
  | str (s : PyText)
  | other (v : Json)

abbrev Document := Dict String Value

namespace Value

def truthy : Value → Bool
  | .str s => s ≠ []
  | .other v => Elyra.truthy v

def text? : Option Value → Option PyText
  | some (.str s) => some s
  | _ => none

/-- The number is an infinite float, such as `1e999`. -/
def infinite : Option Value → Bool
  | some (.other (.float x)) => Presence.isInfinite x
  | _ => false

def truth (v : Option Value) : Bool := v.any truthy

section Coerce

variable [PyCoerce]

def toText : Value → PyText
  | .str s => s
  | .other v => .ofString (pyStr v)

def toInt : Value → Except PyErr Int
  | .str s =>
    if s.encodable then Presence.intOrRaise (.str (.ofList s.shown)) else .error (.valueError [])
  | .other v => Presence.intOrRaise v

end Coerce
end Value

/-- An exception that a call of `ensure_fresh_access` may meet. -/
inductive Raised where
  | fileNotFound | osError | httpException
  | valueError | jsonDecodeError | unicodeDecodeError | unicodeEncodeError
  | overflowError | recursionError
  deriving DecidableEq

/-- The exceptions that `except ValueError` catches. -/
def Raised.isValueError : Raised → Bool
  | valueError | jsonDecodeError | unicodeDecodeError | unicodeEncodeError => true
  | fileNotFound | osError | httpException | overflowError | recursionError => false

/-- What decoding some bytes as UTF-8 and then as JSON meets. -/
inductive Body where
  | undecodable
  | blank
  | notJson
  | tooManyDigits
  | tooDeep
  | object (d : Document)
  | otherValue

/-- `json.loads(raw.decode("utf-8"))`; `none` is a value that is not an object. -/
def Body.loads : Body → Except Raised (Option Document)
  | .undecodable => .error .unicodeDecodeError
  | .blank | .notJson => .error .jsonDecodeError
  | .tooManyDigits => .error .valueError
  | .tooDeep => .error .recursionError
  | .object d => .ok (some d)
  | .otherValue => .ok none

/-- The bundle `_parse_bundle` makes of the file. -/
structure StoredTokens where
  version : Int
  clientId : PyText
  accessToken : PyText
  refreshToken : Option PyText
  tokenType : PyText
  scope : Option PyText
  expiresAt : Option PyText
  email : Option PyText
  subject : Option PyText
  obtainedAt : Option PyText
  updatedAt : Option PyText
  authMethod : Option PyText
  reauthRequired : Bool
  deriving DecidableEq

/-- `_opt_str`. -/
def optPyText (v : Option Value) : Option PyText :=
  (Value.text? v).bind fun s => if s.strip = [] then none else some s.strip

/-- The access token of the file has to be a text with something in it. -/
def storedAccess (v : Option Value) : Except Raised PyText :=
  match Value.text? v with
  | none => .error .valueError
  | some s => if s.strip = [] then .error .valueError else .ok s.strip

/-- The refresh token of the file: one that is set has to be a text with something in it. -/
def storedRefresh : Option Value → Except Raised (Option PyText)
  | none | some (.other .null) => .ok none
  | some (.str s) =>
    if s = [] then .ok none else if s.strip = [] then .error .valueError else .ok (some s.strip)
  | some (.other _) => .error .valueError

section Parse

variable [PyCoerce]

/-- `int(raw.get("version", 1))` under `except (TypeError, ValueError)`; only version 1 is read. -/
def storedVersion (v : Option Value) : Except Raised Int :=
  match (v.getD (.other (.int 1))).toInt with
  | .ok n => if n = 1 then .ok n else .error .valueError
  | .error .overflowError => .error .overflowError
  | .error _ => .error .valueError

/-- `_parse_bundle`. -/
def parseTokens (raw : Option Document) : Except Raised StoredTokens :=
  match raw with
  | none => .error .valueError
  | some d => do
    let version ← storedVersion (d.get? "version")
    let access ← storedAccess (d.get? "access_token")
    let refresh ← storedRefresh (d.get? "refresh_token")
    let tokenType :=
      if Value.truth (d.get? "token_type") then
        (Value.text? (d.get? "token_type")).getD (.ofString "Bearer")
      else .ofString "Bearer"
    return {
      version := version
      clientId := (optPyText (d.get? "client_id")).getD []
      accessToken := access
      refreshToken := refresh
      tokenType := if tokenType.strip = [] then .ofString "Bearer" else tokenType.strip
      scope := optPyText (d.get? "scope")
      expiresAt := optPyText (d.get? "expires_at")
      email := optPyText (d.get? "email")
      subject := optPyText (d.get? "subject")
      obtainedAt := optPyText (d.get? "obtained_at")
      updatedAt := optPyText (d.get? "updated_at")
      authMethod := optPyText (d.get? "auth_method")
      reauthRequired := Value.truth (d.get? "reauth_required") }

/-- The bundle file. -/
inductive TokenFile where
  | missing
  | unreadable
  | content (body : Body)

/-- `load_oauth_bundle`: a number with too many digits passes as the `ValueError` it is. -/
def loadOAuthBundle : TokenFile → Except Raised StoredTokens
  | .missing => .error .fileNotFound
  | .unreadable => .error .valueError
  | .content body =>
    match body.loads with
    | .ok raw => parseTokens raw
    | .error .unicodeDecodeError | .error .jsonDecodeError => .error .valueError
    | .error e => .error e

end Parse

/-- `value.replace("Z", "+00:00")`. -/
def replaceZ (cs : List Char) : List Char :=
  cs.flatMap fun c => if c = 'Z' then Iso.zoneText else [c]

/-- `strftime("%Y-%m-%dT%H:%M:%SZ")`. -/
def secondZ (t : Instant) : PyText := .ofString (String.ofList (secondText t ++ ['Z']))

/-- `parse_iso_utc`; a text whose UTC instant falls outside the calendar overflows. -/
def parseIsoUtc (value : Option PyText) : Except Raised (Option Instant) :=
  match value with
  | none => .ok none
  | some s =>
    if s = [] then .ok none
    else
      match Iso.fromIsoFormat (replaceZ s.shown) with
      | none => .ok none
      | some d => d.toUtc.elim (.error .overflowError) (.ok ∘ some)

/-- `seconds_until_expiry`, in microseconds. -/
def untilExpiry (expiresAt : Option PyText) (now : Instant) : Except Raised (Option Int) :=
  (parseIsoUtc expiresAt).map fun t => t.map fun t => (t.val : Int) - now.val

/-- `expires_at_from_expires_in`. -/
def expiresAtFromExpiresIn (seconds : Int) (now : Instant) : Except Raised PyText :=
  (Instant.ofMicros (now.val + seconds * 1000000)).elim (.error .overflowError) fun t =>
    .ok (secondZ t)

/-- What the exchange with the token endpoint meets. `httpException` is an error of the client
library that is no `OSError`, such as an incomplete body. -/
inductive TokenAnswer where
  | answer (code : Nat) (body : Body)
  | httpError (code : Nat) (body : Option Body)
  | urlError
  | osError
  | httpException

def httpErrorDocument : Document := .ofList [("error", .str (.ofString "http_error"))]

/-- The object of an error answer; a body that cannot be read or decoded counts as blank. -/
def httpErrorBody : Option Body → Except Raised Document
  | none | some .undecodable | some .blank | some .notJson => .ok httpErrorDocument
  | some .tooManyDigits => .error .valueError
  | some .tooDeep => .error .recursionError
  | some (.object d) => .ok d
  | some .otherValue => .ok .empty

/-- A status that is missing counts as 200. -/
def statusOf (code : Nat) : Nat := if code = 0 then 200 else code

/-- `_http_form_post`: the form is encoded before the request is made. -/
def httpFormPost (fields : List PyText) (a : TokenAnswer) : Except Raised (Nat × Document) :=
  if fields.all PyText.encodable then
    match a with
    | .answer code body =>
      match body with
      | .blank => .ok (statusOf code, .empty)
      | .notJson | .otherValue => .error .valueError
      | .undecodable => .error .unicodeDecodeError
      | .tooManyDigits => .error .valueError
      | .tooDeep => .error .recursionError
      | .object d => .ok (statusOf code, d)
    | .httpError code body => (httpErrorBody body).map fun d => (code, d)
    | .urlError | .osError => .error .osError
    | .httpException => .error .httpException
  else .error .unicodeEncodeError

structure TokenPollResult where
  ok : Bool
  pending : Bool
  slowDown : Bool
  accessToken : Option PyText
  refreshToken : Option PyText
  expiresIn : Option Int
  tokenType : Option PyText
  scope : Option PyText
  idToken : Option PyText
  detail : Option String
  error : Option PyText

def TokenPollResult.failed (detail : String) (error : PyText) (pending slowDown : Bool := false) :
    TokenPollResult :=
  ⟨false, pending, slowDown, none, none, none, none, none, none, some detail, some error⟩

def httpCode (code : Nat) : String := "http_" ++ toString code

/-- The detail of an answer that grants nothing, with whether it is pending and slows down. -/
def errorDetail (code : Nat) (error : String) : String × Bool × Bool :=
  if error = "authorization_pending" then ("authorization_pending", true, false)
  else if error = "slow_down" then ("slow_down", true, true)
  else if error = "access_denied" ∨ error = "authorization_declined" then
    ("oauth_denied", false, false)
  else if error = "expired_token" ∨ error = "expired_token_code" then
    ("oauth_device_expired", false, false)
  else if error = "invalid_grant" then (oauthReauthRequired, false, false)
  else if error = "unauthorized_client" ∨ error = "invalid_scope" then
    ("oauth_ineligible", false, false)
  else (if error = "" then httpCode code else oauthRefreshFailed, false, false)

section Poll

variable [PyCoerce]

/-- `expires_in` under `except (TypeError, ValueError)`. -/
def grantedSeconds : Option Value → Except Raised (Option Int)
  | none | some (.other .null) => .ok none
  | some v =>
    match v.toInt with
    | .ok n => .ok (some n)
    | .error .overflowError => .error .overflowError
    | .error _ => .ok none

/-- The text of the error of an answer. -/
def errorText (code : Nat) (d : Document) : PyText :=
  match d.get? "error" with
  | none | some (.other .null) => .ofString (httpCode code)
  | some v => v.toText

/-- `_token_poll_result_from_body`. -/
def tokenPollResultFromBody (code : Nat) (d : Document) : Except Raised TokenPollResult :=
  if code = 200 ∧ Value.truth (d.get? "access_token") then do
    let expiresIn ← grantedSeconds (d.get? "expires_in")
    return {
      ok := true
      pending := false
      slowDown := false
      accessToken := (Value.text? (d.get? "access_token")).map PyText.strip
      refreshToken := optPyText (d.get? "refresh_token")
      expiresIn := expiresIn
      tokenType := Value.text? (d.get? "token_type")
      scope := Value.text? (d.get? "scope")
      idToken := Value.text? (d.get? "id_token")
      detail := none
      error := none }
  else
    let error := errorText code d
    let (detail, pending, slowDown) := errorDetail code error.lower
    .ok (.failed detail error pending slowDown)

/-- `refresh_access_token`; only an `OSError` of the exchange is caught. -/
def refreshAccessToken (refresh clientId : PyText) (a : TokenAnswer) :
    Except Raised TokenPollResult :=
  match httpFormPost [.ofString "refresh_token", refresh, clientId] a with
  | .ok (code, d) => tokenPollResultFromBody code d
  | .error .osError => .ok (.failed oauthRefreshFailed (.ofString "network"))
  | .error e => .error e

end Poll

/-- `claims_from_id_token`; `payload` gives what base64 makes of a segment. -/
def claimsFromIdToken (payload : PyText → Body) (idToken : Option PyText) :
    Except Raised Document :=
  match (idToken.getD []).splitOn (.scalar '.') with
  | _ :: segment :: _ =>
    match (payload segment).loads with
    | .ok d => .ok (d.getD .empty)
    | .error e => if e.isValueError then .ok .empty else .error e
  | _ => .ok .empty

/-- A text of the answer, or the stored one where it is empty. -/
def orStored (new old : Option PyText) : Option PyText := if new.getD [] = [] then old else new

/-- `bundle.client_id or XAI_OAUTH_CLIENT_ID`. -/
def StoredTokens.client (b : StoredTokens) : PyText :=
  if b.clientId = [] then .ofString xaiOAuthClientId else b.clientId

/-- `bundle_from_token_success` with an existing bundle and the stripped access token. -/
def newTokens (payload : PyText → Body) (poll : TokenPollResult) (access : PyText)
    (old : StoredTokens) (now : Instant) : Except Raised StoredTokens := do
  let expiresAt ← expiresAtFromExpiresIn (poll.expiresIn.getD 3600) now
  let claims ← claimsFromIdToken payload poll.idToken
  return {
    version := 1
    clientId := old.client
    accessToken := access
    refreshToken := orStored poll.refreshToken old.refreshToken
    tokenType := (orStored poll.tokenType (some (.ofString "Bearer"))).getD []
    scope := orStored poll.scope old.scope
    expiresAt := some expiresAt
    email := (optPyText (claims.get? "email")).or old.email
    subject := (optPyText (claims.get? "sub")).or old.subject
    obtainedAt := if old.obtainedAt.getD [] = [] then some (secondZ now) else old.obtainedAt
    updatedAt := some (secondZ now)
    authMethod := old.authMethod
    reauthRequired := false }

/-- The texts that are written to the file. -/
def StoredTokens.texts (b : StoredTokens) : List PyText :=
  [b.clientId, b.accessToken, b.tokenType] ++ [b.refreshToken, b.scope, b.expiresAt, b.email,
    b.subject, b.obtainedAt, b.updatedAt, b.authMethod].reduceOption

/-- `save_oauth_bundle`: a text that UTF-8 cannot write raises before anything is written. -/
def saveOAuthBundle (b : StoredTokens) : Except Raised Unit :=
  if b.texts.all PyText.encodable then .ok () else .error .unicodeEncodeError

def StoredTokens.marked (b : StoredTokens) (now : Instant) : StoredTokens :=
  { b with updatedAt := some (secondZ now), reauthRequired := true }

structure FreshAccessResult where
  ok : Bool
  accessToken : Option PyText
  expiresAt : Option PyText
  email : Option PyText
  detail : Option String
  rotated : Bool
  deriving DecidableEq

def FreshAccessResult.refused (detail : String) (b : Option StoredTokens) : FreshAccessResult :=
  ⟨false, none, b.bind StoredTokens.expiresAt, b.bind StoredTokens.email, some detail, false⟩

def FreshAccessResult.granted (b : StoredTokens) (rotated : Bool) : FreshAccessResult :=
  ⟨true, some b.accessToken, b.expiresAt, b.email, none, rotated⟩

/-- A call with what it meets: the file, the answer of the token endpoint, and the clock before and
after the exchange. -/
structure RefreshCall where
  file : TokenFile
  force : Bool
  skew : Int
  answer : TokenAnswer
  before : Instant
  after : Instant

/-- The server says that the refresh token is revoked. -/
def TokenPollResult.revoked (poll : TokenPollResult) : Bool :=
  poll.detail = some oauthReauthRequired || poll.error.map PyText.lower = some "invalid_grant"

section Fresh

variable [PyCoerce] (payload : PyText → Body)

/-- `_ensure_fresh_access_locked` after the exchange, with the bundle it writes. -/
def afterPoll (b : StoredTokens) (remaining : Option Int) (now : Instant) (poll : TokenPollResult) :
    Except Raised (FreshAccessResult × Option StoredTokens) :=
  if poll.ok ∧ poll.accessToken.getD [] ≠ [] then do
    let new ← newTokens payload poll (poll.accessToken.getD []) b now
    saveOAuthBundle new
    return (.granted new true, some new)
  else if poll.revoked then do
    saveOAuthBundle (b.marked now)
    return (.refused oauthReauthRequired (some b), some (b.marked now))
  else if remaining.any fun r => 0 < r then .ok (.granted b false, none)
  else .ok (.refused oauthRefreshFailed (some b), none)

/-- `_ensure_fresh_access_locked` with a bundle that is loaded and not marked. -/
def refreshLoaded (c : RefreshCall) (b : StoredTokens) :
    Except Raised (FreshAccessResult × Option StoredTokens) := do
  let remaining ← untilExpiry b.expiresAt c.before
  if !c.force && remaining.any fun r => c.skew * 1000000 < r then
    return (.granted b false, none)
  match b.refreshToken with
  | none => return (.refused oauthReauthRequired (some b), none)
  | some refresh =>
    let poll ← refreshAccessToken refresh b.client c.answer
    afterPoll payload b remaining c.after poll

/-- `ensure_fresh_access`: what it returns, and the bundle it writes to the file. -/
def ensureFreshAccess (c : RefreshCall) :
    Except Raised (FreshAccessResult × Option StoredTokens) :=
  match loadOAuthBundle c.file with
  | .error .fileNotFound => .ok (.refused missingOAuthTokens none, none)
  | .error e =>
    if e.isValueError then .ok (.refused invalidOAuthTokens none, none) else .error e
  | .ok b =>
    if b.reauthRequired then .ok (.refused oauthReauthRequired (some b), none)
    else if b.accessToken = [] then .ok (.refused invalidOAuthTokens (some b), none)
    else refreshLoaded payload c b

end Fresh

end Elyra.Llm
