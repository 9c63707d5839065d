import Elyra.Framework.Run
import Elyra.Framework.Text

namespace Elyra.Llm

structure OAuthBundle where
  version : Int
  clientId : String
  accessToken : String
  refreshToken : Option String
  tokenType : String
  scope : Option String
  expiresAt : Option String
  email : Option String
  subject : Option String
  obtainedAt : Option String
  updatedAt : Option String
  authMethod : Option String
  reauthRequired : Bool
  deriving DecidableEq

structure FreshAccess where
  ok : Bool
  accessToken : Option String
  expiresAt : Option String
  email : Option String
  detail : Option String
  rotated : Bool
  deriving DecidableEq

def missingOAuthTokens : String := "missing_oauth_tokens"

def invalidOAuthTokens : String := "invalid_oauth_tokens"

def oauthRefreshFailed : String := "oauth_refresh_failed"

def oauthReauthRequired : String := "oauth_reauth_required"

def xaiOAuthClientId : String := "b1a00492-073a-47ea-816f-4c329264a828"

/-- A text field of the file; a blank one counts as not set. -/
def optText (value : Option String) : Option String :=
  value.bind fun v => if stripText v = "" then none else some (stripText v)

/-- `_parse_bundle` of a stored bundle: `none` is `invalid_oauth_tokens`. -/
def parseBundle (b : OAuthBundle) : Option OAuthBundle :=
  if b.version ≠ 1 ∨ stripText b.accessToken = "" then none
  else if ∃ r ∈ b.refreshToken, r ≠ "" ∧ stripText r = "" then none
  else
    let tokenType := stripText b.tokenType
    some { b with
      clientId := stripText b.clientId
      accessToken := stripText b.accessToken
      refreshToken := optText b.refreshToken
      tokenType := if tokenType = "" then "Bearer" else tokenType
      scope := optText b.scope
      expiresAt := optText b.expiresAt
      email := optText b.email
      subject := optText b.subject
      obtainedAt := optText b.obtainedAt
      updatedAt := optText b.updatedAt
      authMethod := optText b.authMethod }

/-- What the token endpoint answers, with the clock reading and the identity claims that the new
bundle takes from it. -/
structure TokenReply where
  ok : Bool
  accessToken : Option String
  refreshToken : Option String
  tokenType : Option String
  scope : Option String
  email : Option String
  subject : Option String
  expiresAt : String
  now : String
  detail : Option String
  error : Option String

/-- The server rejected the refresh token. -/
def TokenReply.rejects (r : TokenReply) : Bool :=
  r.detail = some oauthReauthRequired || r.error.map String.toLower = some "invalid_grant"

def TokenReply.grants (r : TokenReply) : Bool := r.ok && r.accessToken.getD "" ≠ ""

/-- `bundle_from_token_success` with an existing bundle. -/
def bundleFromTokenSuccess (r : TokenReply) (access : String) (old : OAuthBundle) : OAuthBundle where
  version := 1
  clientId := if old.clientId = "" then xaiOAuthClientId else old.clientId
  accessToken := access
  refreshToken := if r.refreshToken.getD "" = "" then old.refreshToken else r.refreshToken
  tokenType := if r.tokenType.getD "" = "" then "Bearer" else r.tokenType.getD ""
  scope := if r.scope.getD "" = "" then old.scope else r.scope
  expiresAt := some r.expiresAt
  email := r.email.or old.email
  subject := r.subject.or old.subject
  obtainedAt := if old.obtainedAt.getD "" = "" then some r.now else old.obtainedAt
  updatedAt := some r.now
  authMethod := old.authMethod
  reauthRequired := false

def FreshAccess.refused (detail : String) (b : Option OAuthBundle) : FreshAccess :=
  ⟨false, none, b.bind OAuthBundle.expiresAt, b.bind OAuthBundle.email, some detail, false⟩

def FreshAccess.granted (b : OAuthBundle) (rotated : Bool) : FreshAccess :=
  ⟨true, some b.accessToken, b.expiresAt, b.email, none, rotated⟩

/-- Where `_ensure_fresh_access_locked` goes after the load. -/
inductive AfterLoad where
  | done (result : FreshAccess)
  | exchange (b : OAuthBundle)

/-- Up to the token exchange; `remaining` is the life of the access token at the clock reading. -/
def afterLoad (force : Bool) (skew : Int) (remaining : Option Int) (b : OAuthBundle) : AfterLoad :=
  if b.reauthRequired then .done (.refused oauthReauthRequired (some b))
  else if !force && remaining.any fun r => skew < r then .done (.granted b false)
  else
    match b.refreshToken with
    | none => .done (.refused oauthReauthRequired (some b))
    | some _ => .exchange b

/-- What the answer of the token endpoint leads to. -/
inductive AfterExchange where
  | done (result : FreshAccess)
  | saveNew (b : OAuthBundle)
  | saveMarked (b : OAuthBundle)

def afterExchange (remaining : Option Int) (r : TokenReply) (b : OAuthBundle) : AfterExchange :=
  if r.grants then
    .saveNew (bundleFromTokenSuccess r (r.accessToken.getD "") b)
  else if r.rejects then .saveMarked { b with updatedAt := some r.now, reauthRequired := true }
  else if remaining.any fun r => 0 < r then .done (.granted b false)
  else .done (.refused oauthRefreshFailed (some b))

def orNow (value : Option String) (now : String) : Option String :=
  if value.getD "" = "" then some now else value

/-- The tokens of a login given as a mapping. -/
def completed (tokens : OAuthBundle) (now : String) : OAuthBundle :=
  let updatedAt := orNow tokens.updatedAt now
  { tokens with
    reauthRequired := false
    updatedAt
    obtainedAt := orNow tokens.obtainedAt (updatedAt.getD now) }

/-- The tokens of a login given as a bundle. -/
def unmarked (tokens : OAuthBundle) (now : String) : OAuthBundle :=
  if tokens.reauthRequired then
    { tokens with reauthRequired := false, updatedAt := orNow tokens.updatedAt now }
  else tokens

/-- A bundle on disk and the login it goes back to. -/
structure Entry where
  bundle : OAuthBundle
  login : Nat

/-- The holder of the refresh lock. -/
inductive Refresher where
  | idle
  | exchanging (e : Entry) (remaining : Option Int)
  | saving (e : Entry) (marked : Bool)

/-- The disk and the lock holder, with the logins and rejections so far. -/
structure OAuthWorld where
  disk : Option Entry := none
  refresher : Refresher := .idle
  logins : Nat := 0
  current : Option Nat := none
  rejected : List Nat := []
  lapsed : Bool := false

inductive OAuthEvent where
  | login (tokens : OAuthBundle) (asDict : Bool) (now : String)
  | delete
  | load (force : Bool) (skew : Int) (remaining : OAuthBundle → Option Int)
  | exchange (reply : Option TokenReply)
  | save (fails : Bool)

namespace OAuthWorld

/-- The server has rejected a refresh token of the login in force. -/
def spent (w : OAuthWorld) : Bool := w.current.any fun g => g ∈ w.rejected

/-- The call ends and frees the lock. -/
def answer (w : OAuthWorld) (r : FreshAccess) : OAuthWorld :=
  { w with refresher := .idle, lapsed := w.lapsed || (r.ok && w.spent) }

/-- `persist_oauth_login`: tokens given as a mapping are completed and parsed first. -/
def persistLogin (tokens : OAuthBundle) (asDict : Bool) (now : String) (w : OAuthWorld) :
    OAuthWorld :=
  match if asDict then parseBundle (completed tokens now) else some (unmarked tokens now) with
  | none => w
  | some b =>
    { w with disk := some ⟨b, w.logins⟩, current := some w.logins, logins := w.logins + 1 }

def startRefresh (force : Bool) (skew : Int) (remaining : OAuthBundle → Option Int)
    (w : OAuthWorld) : OAuthWorld :=
  match w.disk with
  | none => w.answer (.refused missingOAuthTokens none)
  | some e =>
    match parseBundle e.bundle with
    | none => w.answer (.refused invalidOAuthTokens none)
    | some b =>
      match afterLoad force skew (remaining b) b with
      | .done r => w.answer r
      | .exchange b => { w with refresher := .exchanging ⟨b, e.login⟩ (remaining b) }

/-- A reply of the server, or an exception on the way. -/
def finishExchange (e : Entry) (remaining : Option Int) (reply : Option TokenReply)
    (w : OAuthWorld) : OAuthWorld :=
  match reply with
  | none => { w with refresher := .idle }
  | some r =>
    let w := if r.rejects && !r.grants then { w with rejected := e.login :: w.rejected } else w
    match afterExchange remaining r e.bundle with
    | .done result => w.answer result
    | .saveNew b => { w with refresher := .saving ⟨b, e.login⟩ false }
    | .saveMarked b => { w with refresher := .saving ⟨b, e.login⟩ true }

/-- The save of the refreshed or marked bundle; a failure is raised. -/
def finishSave (e : Entry) (marked fails : Bool) (w : OAuthWorld) : OAuthWorld :=
  if fails then { w with refresher := .idle }
  else
    { w with disk := some e }.answer
      (if marked then .refused oauthReauthRequired (some e.bundle) else .granted e.bundle true)

def step (w : OAuthWorld) : OAuthEvent → OAuthWorld
  | .login tokens asDict now => w.persistLogin tokens asDict now
  | .delete => { w with disk := none, current := none }
  | .load force skew remaining =>
    match w.refresher with
    | .idle => w.startRefresh force skew remaining
    | _ => w
  | .exchange reply =>
    match w.refresher with
    | .exchanging e remaining => w.finishExchange e remaining reply
    | _ => w
  | .save fails =>
    match w.refresher with
    | .saving e marked => w.finishSave e marked fails
    | _ => w

/-- The bundle on disk goes back to the login in force, it is marked only after a rejection of that
login, and no call has returned ok once the server had rejected the login in force. -/
structure Lawful (w : OAuthWorld) : Prop where
  lineage : w.disk.map Entry.login = w.current
  marked : ∀ e, w.disk = some e → e.bundle.reauthRequired = true → e.login ∈ w.rejected
  held : w.lapsed = false

/-- A save finds the disk at the login it loaded, and the save of a mark does not fail. -/
def Clear (w : OAuthWorld) : OAuthEvent → Prop
  | .save fails =>
    match w.refresher with
    | .saving e marked => w.disk.map Entry.login = some e.login ∧ (marked = true → fails = false)
    | _ => True
  | _ => True

/-- What a refresh in flight knows. -/
def RefresherKnows (w : OAuthWorld) : Prop :=
  match w.refresher with
  | .idle => True
  | .exchanging e _ => e.login < w.logins ∧ w.spent = false
  | .saving e marked => e.login < w.logins ∧ e.bundle.reauthRequired = marked ∧
      (if marked then e.login ∈ w.rejected else w.spent = false)

/-- A rejected login in force is marked on disk, or about to be. -/
def MarkedSoon (w : OAuthWorld) : Prop :=
  w.spent = true → (∃ e, w.disk = some e ∧ e.bundle.reauthRequired = true) ∨
    ∃ e, w.refresher = .saving e true

structure Sound (w : OAuthWorld) : Prop extends Lawful w where
  fresh : (∀ g ∈ w.rejected, g < w.logins) ∧ ∀ g, w.current = some g → g < w.logins
  knows : RefresherKnows w
  soon : MarkedSoon w

theorem parseBundle_reauth {b c : OAuthBundle} (h : parseBundle b = some c) :
    c.reauthRequired = b.reauthRequired := by
  unfold parseBundle at h
  dsimp only at h
  split_ifs at h
  all_goals
    rw [← Option.some.inj h]

theorem unmarked_reauth (tokens : OAuthBundle) (now : String) :
    (unmarked tokens now).reauthRequired = false := by
  unfold unmarked
  split_ifs with h
  · rfl
  · simpa using h

theorem afterLoad_granted {force : Bool} {skew : Int} {remaining : Option Int} {b : OAuthBundle}
    {r : FreshAccess} (h : afterLoad force skew remaining b = .done r) (hok : r.ok = true) :
    b.reauthRequired = false := by
  cases hmark : b.reauthRequired with
  | false => rfl
  | true =>
    rw [afterLoad, if_pos hmark] at h
    cases h
    cases hok

theorem afterLoad_exchange {force : Bool} {skew : Int} {remaining : Option Int} {b c : OAuthBundle}
    (h : afterLoad force skew remaining b = .exchange c) : c = b ∧ b.reauthRequired = false := by
  unfold afterLoad at h
  split_ifs at h with hmark
  cases hrefresh : b.refreshToken with
  | none =>
    rw [hrefresh] at h
    cases h
  | some token =>
    rw [hrefresh] at h
    cases h
    exact ⟨rfl, by simpa using hmark⟩

theorem afterExchange_saveNew {remaining : Option Int} {r : TokenReply} {b c : OAuthBundle}
    (h : afterExchange remaining r b = .saveNew c) : c.reauthRequired = false := by
  unfold afterExchange at h
  split_ifs at h
  cases h
  rfl

theorem afterExchange_saveMarked {remaining : Option Int} {r : TokenReply} {b c : OAuthBundle}
    (h : afterExchange remaining r b = .saveMarked c) :
    c.reauthRequired = true ∧ (r.rejects && !r.grants) = true := by
  unfold afterExchange at h
  split_ifs at h with hgrants hrejects
  cases h
  exact ⟨rfl, by simp [hgrants, hrejects]⟩

/-- A reply that marks no bundle rejects no token. -/
theorem not_rejects {remaining : Option Int} {r : TokenReply} {b : OAuthBundle}
    (h : ∀ c, afterExchange remaining r b ≠ .saveMarked c) : (r.rejects && !r.grants) = false := by
  unfold afterExchange at h
  split_ifs at h with hgrants hrejects
  · simp [hgrants]
  · exact absurd rfl (h _)
  · simp [hrejects]
  · simp [hrejects]

section Steps

variable {w : OAuthWorld}

/-- A call may end with ok while the login in force is not rejected. -/
theorem Sound.answer (h : Sound w) (r : FreshAccess) (hok : r.ok = true → w.spent = false)
    (hsoon : w.spent = true → ∃ e, w.disk = some e ∧ e.bundle.reauthRequired = true) :
    Sound (w.answer r) := by
  refine ⟨⟨h.lineage, h.marked, ?_⟩, h.fresh, trivial, fun hspent => .inl (hsoon hspent)⟩
  show (w.lapsed || (r.ok && w.spent)) = false
  rw [h.held, Bool.false_or]
  cases hr : r.ok with
  | false => rfl
  | true =>
    rw [hok hr]
    rfl

/-- With the lock free a rejected login in force is marked on disk. -/
theorem Sound.marked_idle (h : Sound w) (hidle : w.refresher = .idle) (hspent : w.spent = true) :
    ∃ e, w.disk = some e ∧ e.bundle.reauthRequired = true := by
  obtain hdisk | ⟨e, hsaving⟩ := h.soon hspent
  · exact hdisk
  · rw [hidle] at hsaving
    cases hsaving

theorem Sound.not_spent_idle (h : Sound w) (hidle : w.refresher = .idle) {e : Entry}
    (hdisk : w.disk = some e) (hmark : e.bundle.reauthRequired = false) : w.spent = false := by
  by_contra hspent
  obtain ⟨e', hdisk', hmark'⟩ := h.marked_idle hidle (by simpa using hspent)
  rw [hdisk] at hdisk'
  cases hdisk'
  rw [hmark] at hmark'
  cases hmark'

theorem Sound.persistLogin (h : Sound w) (tokens : OAuthBundle) (asDict : Bool) (now : String) :
    Sound (w.persistLogin tokens asDict now) := by
  unfold OAuthWorld.persistLogin
  cases hparse : (if asDict then parseBundle (completed tokens now)
      else some (unmarked tokens now)) with
  | none => exact h
  | some b =>
    have hmark : b.reauthRequired = false := by
      cases asDict with
      | true => rw [parseBundle_reauth hparse, completed]
      | false =>
        rw [← Option.some.inj hparse]
        exact unmarked_reauth tokens now
    have hspent : OAuthWorld.spent
        { w with disk := some ⟨b, w.logins⟩, current := some w.logins, logins := w.logins + 1 } =
          false := by
      have hnew : w.logins ∉ w.rejected := fun hmem => Nat.lt_irrefl _ (h.fresh.1 w.logins hmem)
      simpa [spent] using hnew
    refine ⟨⟨rfl, ?_, h.held⟩, ⟨?_, ?_⟩, ?_, ?_⟩
    · intro e he hreauth
      cases he
      rw [hmark] at hreauth
      cases hreauth
    · exact fun g hg => Nat.lt_succ_of_lt (h.fresh.1 g hg)
    · intro g hg
      cases hg
      exact Nat.lt_succ_self w.logins
    · have hknows := h.knows
      unfold RefresherKnows at hknows ⊢
      dsimp only
      cases hr : w.refresher with
      | idle => trivial
      | exchanging e remaining =>
        rw [hr] at hknows
        exact ⟨Nat.lt_succ_of_lt hknows.1, hspent⟩
      | saving e marked =>
        rw [hr] at hknows
        obtain ⟨hlt, hbundle, hwhy⟩ := hknows
        refine ⟨Nat.lt_succ_of_lt hlt, hbundle, ?_⟩
        cases marked with
        | true => exact hwhy
        | false => exact hspent
    · intro hno
      rw [hspent] at hno
      cases hno

theorem Sound.delete (h : Sound w) : Sound { w with disk := none, current := none } := by
  refine ⟨⟨rfl, (fun _ he => nomatch he), h.held⟩, ⟨h.fresh.1, (fun _ hg => nomatch hg)⟩, ?_,
    (fun hspent => nomatch hspent)⟩
  have hknows := h.knows
  unfold RefresherKnows at hknows ⊢
  dsimp only
  cases hr : w.refresher with
  | idle => trivial
  | exchanging e remaining =>
    rw [hr] at hknows
    exact ⟨hknows.1, rfl⟩
  | saving e marked =>
    rw [hr] at hknows
    obtain ⟨hlt, hbundle, hwhy⟩ := hknows
    refine ⟨hlt, hbundle, ?_⟩
    cases marked with
    | true => exact hwhy
    | false => rfl

theorem Sound.startRefresh (h : Sound w) (hidle : w.refresher = .idle) (force : Bool) (skew : Int)
    (remaining : OAuthBundle → Option Int) : Sound (w.startRefresh force skew remaining) := by
  have hend (r : FreshAccess) (hok : r.ok = true → w.spent = false) : Sound (w.answer r) :=
    h.answer r hok (h.marked_idle hidle)
  unfold OAuthWorld.startRefresh
  split
  · exact hend _ (fun hok => nomatch hok)
  · rename_i e hdisk
    split
    · exact hend _ (fun hok => nomatch hok)
    · rename_i b hparse
      have hsame := parseBundle_reauth hparse
      split
      · rename_i r hload
        apply hend
        intro hok
        exact h.not_spent_idle hidle hdisk (hsame ▸ afterLoad_granted hload hok)
      · rename_i c hload
        obtain ⟨-, hmark⟩ := afterLoad_exchange hload
        have hspent := h.not_spent_idle hidle hdisk (hsame ▸ hmark)
        have hcurrent : w.current = some e.login := by
          rw [← h.lineage, hdisk]
          rfl
        refine ⟨⟨h.lineage, h.marked, h.held⟩, h.fresh, ⟨h.fresh.2 e.login hcurrent, hspent⟩, ?_⟩
        intro hno
        have hno' : w.spent = true := hno
        rw [hspent] at hno'
        cases hno'

theorem Sound.finishExchange (h : Sound w) {e : Entry} {remaining : Option Int}
    (hr : w.refresher = .exchanging e remaining) (reply : Option TokenReply) :
    Sound (w.finishExchange e remaining reply) := by
  have hknows := h.knows
  unfold RefresherKnows at hknows
  rw [hr] at hknows
  obtain ⟨hlt, hspent⟩ := hknows
  have hno : w.spent = true → False := by
    rw [hspent]
    exact fun hfalse => nomatch hfalse
  unfold OAuthWorld.finishExchange
  cases reply with
  | none =>
    exact ⟨⟨h.lineage, h.marked, h.held⟩, h.fresh, trivial, fun hs => absurd hs (by
      rw [show OAuthWorld.spent { w with refresher := .idle } = w.spent from rfl, hspent]
      decide)⟩
  | some r =>
    dsimp only
    cases hafter : afterExchange remaining r e.bundle with
    | done result =>
      rw [not_rejects fun c hc => nomatch hafter.symm.trans hc]
      exact h.answer result (fun _ => hspent) fun hs => (hno hs).elim
    | saveNew b =>
      rw [not_rejects fun c hc => nomatch hafter.symm.trans hc]
      exact ⟨⟨h.lineage, h.marked, h.held⟩, h.fresh,
        ⟨hlt, afterExchange_saveNew hafter, hspent⟩, fun hs => (hno hs).elim⟩
    | saveMarked b =>
      rw [(afterExchange_saveMarked hafter).2]
      refine ⟨⟨h.lineage, ?_, h.held⟩, ⟨?_, h.fresh.2⟩, ?_, ?_⟩
      · exact fun e' he' hmark => List.mem_cons_of_mem _ (h.marked e' he' hmark)
      · intro g hg
        obtain rfl | hg := List.mem_cons.mp hg
        · exact hlt
        · exact h.fresh.1 g hg
      · exact ⟨hlt, (afterExchange_saveMarked hafter).1, List.mem_cons_self⟩
      · exact fun _ => .inr ⟨_, rfl⟩

theorem Sound.finishSave (h : Sound w) {e : Entry} {marked fails : Bool}
    (hr : w.refresher = .saving e marked) (hdisk : w.disk.map Entry.login = some e.login)
    (hfails : marked = true → fails = false) : Sound (w.finishSave e marked fails) := by
  have hknows := h.knows
  unfold RefresherKnows at hknows
  rw [hr] at hknows
  obtain ⟨hlt, hbundle, hwhy⟩ := hknows
  have hwhyNew (hmark : marked = false) : w.spent = false := by
    rw [hmark] at hwhy
    exact hwhy
  unfold OAuthWorld.finishSave
  cases fails with
  | true =>
    have hmark : marked = false := by
      cases marked with
      | false => rfl
      | true => exact nomatch hfails rfl
    refine ⟨⟨h.lineage, h.marked, h.held⟩, h.fresh, trivial, fun hs => ?_⟩
    have hs' : w.spent = true := hs
    rw [hwhyNew hmark] at hs'
    cases hs'
  | false =>
    have hsaved : Sound { w with disk := some e } := by
      refine ⟨⟨?_, ?_, h.held⟩, h.fresh, h.knows, ?_⟩
      · show some e.login = w.current
        rw [← hdisk, h.lineage]
      · intro e' he' hmark
        cases he'
        rw [hbundle] at hmark
        rw [hmark] at hwhy
        exact hwhy
      · intro hs
        cases hmark : marked with
        | true => exact .inl ⟨e, rfl, hbundle.trans hmark⟩
        | false =>
          have hs' : w.spent = true := hs
          rw [hwhyNew hmark] at hs'
          cases hs'
    apply hsaved.answer
    · intro hok
      cases hmark : marked with
      | true =>
        rw [hmark] at hok
        cases hok
      | false => exact hwhyNew hmark
    · intro hs
      refine ⟨e, rfl, ?_⟩
      rw [hbundle]
      by_contra hmark
      have hs' : w.spent = true := hs
      rw [hwhyNew (by simpa using hmark)] at hs'
      cases hs'

theorem Sound.step (h : Sound w) (event : OAuthEvent) (hclear : Clear w event) :
    Sound (w.step event) := by
  cases event with
  | login tokens asDict now => exact h.persistLogin tokens asDict now
  | delete => exact h.delete
  | load force skew remaining =>
    unfold OAuthWorld.step
    cases hr : w.refresher with
    | idle => exact h.startRefresh hr force skew remaining
    | exchanging e left => exact h
    | saving e marked => exact h
  | exchange reply =>
    unfold OAuthWorld.step
    cases hr : w.refresher with
    | idle => exact h
    | exchanging e left => exact h.finishExchange hr reply
    | saving e marked => exact h
  | save fails =>
    unfold Clear at hclear
    unfold OAuthWorld.step
    cases hr : w.refresher with
    | idle => exact h
    | exchanging e left => exact h
    | saving e marked =>
      rw [hr] at hclear
      exact h.finishSave hr hclear.1 hclear.2

theorem sound_start : Sound {} := by
  exact ⟨⟨rfl, (fun _ h => nomatch h), rfl⟩, ⟨(fun _ h => nomatch h), (fun _ h => nomatch h)⟩,
    trivial, (fun h => nomatch h)⟩

end Steps

/-- In every run whose saves find the login they loaded, and whose marks are saved, no login is
undone. -/
theorem login_not_undone (events : List OAuthEvent)
    (h : Along OAuthWorld.step Clear {} events) : Lawful (run OAuthWorld.step {} events) :=
  (h.invariant Sound (fun _ event hclear hs => hs.step event hclear) {} events
    sound_start).toLawful

section Sample

def sampleTokens : OAuthBundle where
  version := 1
  clientId := "c"
  accessToken := "a"
  refreshToken := some "r"
  tokenType := "Bearer"
  scope := none
  expiresAt := none
  email := none
  subject := none
  obtainedAt := none
  updatedAt := none
  authMethod := none
  reauthRequired := false

/-- The server rejects the refresh token. -/
def sampleRejection : TokenReply where
  ok := false
  accessToken := none
  refreshToken := none
  tokenType := none
  scope := none
  email := none
  subject := none
  expiresAt := ""
  now := ""
  detail := some oauthReauthRequired
  error := some "invalid_grant"

/-- A login, a refresh that is rejected, and a second login. -/
def sampleEvents : List OAuthEvent :=
  [.login sampleTokens false "t", .load true 60 fun _ => none, .exchange (some sampleRejection),
    .save false, .login sampleTokens true "t", .load true 60 fun _ => none]

theorem login_not_undone_sample : Lawful (run OAuthWorld.step {} sampleEvents) := by
  apply login_not_undone
  refine ⟨trivial, trivial, trivial, ⟨rfl, fun _ => rfl⟩, trivial, trivial, trivial⟩

/-- A login between the exchange and the save of a rejected refresh is overwritten by the marked
bundle of the login before. -/
theorem refresh_overwrites_login :
    ¬ ∀ events : List OAuthEvent, Lawful (run OAuthWorld.step {} events) := by
  intro h
  have hlineage := (h [.login sampleTokens false "t", .load true 60 fun _ => none,
    .exchange (some sampleRejection), .login sampleTokens true "t", .save false]).lineage
  exact absurd hlineage (by decide)

end Sample

end OAuthWorld
end Elyra.Llm
