import Elyra.Framework.Effects
import Elyra.Llm.FreshAccess

namespace Elyra.Llm

/-- Status and object of an answer. -/
def TokenAnswer.reply : TokenAnswer → Option (Nat × Document)
  | .answer code (.object d) => some (statusOf code, d)
  | .httpError code (some (.object d)) => some (code, d)
  | _ => none

/-- The access token of an answer with status 200: a text that is not empty. -/
def TokenAnswer.token (a : TokenAnswer) : Option PyText :=
  match a.reply with
  | some (200, d) => (Value.text? (d.get? "access_token")).filter fun t => t ≠ []
  | _ => none

/-- The refresh token that comes with it. -/
def TokenAnswer.newRefresh (a : TokenAnswer) : Option PyText :=
  a.reply.bind fun r => optPyText (r.2.get? "refresh_token")

def StoredTokens.Unexpired (b : StoredTokens) (now : Instant) : Prop :=
  ∃ t, parseIsoUtc b.expiresAt = .ok (some t) ∧ now < t

section Claim

variable [PyCoerce]

def TokenAnswer.InvalidGrant (a : TokenAnswer) : Prop :=
  ∃ code d, a.reply = some (code, d) ∧ (errorText code d).lower = "invalid_grant"

/-- The call sends the refresh token of this bundle to the token endpoint. -/
structure RefreshCall.Asks (c : RefreshCall) (b : StoredTokens) : Prop where
  loads : loadOAuthBundle c.file = .ok b
  unmarked : b.reauthRequired = false
  refresh : b.refreshToken ≠ none
  due : ∃ remaining, untilExpiry b.expiresAt c.before = .ok remaining ∧
    (!c.force && remaining.any fun r => c.skew * 1000000 < r) = false

/-- What a call that returns has to give: a granted token is on disk with the newest refresh token,
and after a transient failure the stored token counts for as long as it lives. -/
structure Refreshes (c : RefreshCall) (r : FreshAccessResult) (saved : Option StoredTokens) :
    Prop where
  carries : ∀ b, c.Asks b → ∀ t, c.answer.token = some t → ∃ new, saved = some new ∧
    new.accessToken = t.strip ∧ new.refreshToken = c.answer.newRefresh.or b.refreshToken
  grace : ∀ b, c.Asks b → (∀ t, c.answer.token = some t → t.strip = []) →
    ¬c.answer.InvalidGrant → (r.ok = true ↔ b.Unexpired c.before)

/-- The file's JSON is not nested too deep for the decoder, nor its version an infinite float. -/
def TokenFile.Bounded : TokenFile → Prop
  | .content .tooDeep => False
  | .content (.object d) => Value.infinite (d.get? "version") = false
  | _ => True

/-- The stored expiry is no text whose UTC instant falls outside the calendar. -/
def InCalendar (expiresAt : Option PyText) : Prop :=
  ∀ s ∈ expiresAt, s ≠ [] → ∀ d, Iso.fromIsoFormat (replaceZ s.shown) = some d → d.toUtc.isSome

variable (payload : PyText → Body)

/-- The claims of the identity token of an answer. -/
def idClaims (d : Document) : Document :=
  match claimsFromIdToken payload (Value.text? (d.get? "id_token")) with
  | .ok claims => claims
  | .error _ => .empty

/-- The texts that a new bundle takes from the answer or keeps of the old one. -/
def grantTexts (b : StoredTokens) (d : Document) (t : PyText) : List PyText :=
  [b.client, t.strip,
    (orStored (Value.text? (d.get? "token_type")) (some (.ofString "Bearer"))).getD []] ++
  [orStored (optPyText (d.get? "refresh_token")) b.refreshToken,
    orStored (Value.text? (d.get? "scope")) b.scope,
    (optPyText ((idClaims payload d).get? "email")).or b.email,
    (optPyText ((idClaims payload d).get? "sub")).or b.subject,
    b.obtainedAt, b.authMethod].reduceOption

/-- A granted access token that is not blank, with a life that ends inside the calendar and texts
that can be written. -/
structure TextBounded (b : StoredTokens) (now : Instant) (d : Document) (t : PyText) : Prop where
  present : t.strip ≠ []
  ends : ∀ seconds, grantedSeconds (d.get? "expires_in") = .ok seconds →
    (Instant.ofMicros (now.val + seconds.getD 3600 * 1000000)).isSome
  shallow : claimsFromIdToken payload (Value.text? (d.get? "id_token")) ≠ .error .recursionError
  encodable : (grantTexts payload b d t).all PyText.encodable

def ReplyBounded (b : StoredTokens) (now : Instant) (code : Nat) (d : Document) : Prop :=
  if code = 200 ∧ Value.truth (d.get? "access_token") then
    Value.infinite (d.get? "expires_in") = false ∧
      ∀ t, Value.text? (d.get? "access_token") = some t → TextBounded payload b now d t
  else (errorText code d).lower = "invalid_grant" →
    { b with updatedAt := none }.texts.all PyText.encodable

/-- The answer can be decoded where that is not guarded, and its object is bounded. -/
def AnswerBounded (b : StoredTokens) (now : Instant) : TokenAnswer → Prop
  | .urlError | .osError | .answer _ .blank => True
  | .httpException => False
  | .answer code (.object d) => ReplyBounded payload b now (statusOf code) d
  | .answer _ _ => False
  | .httpError code (some (.object d)) => ReplyBounded payload b now code d
  | .httpError _ (some .tooManyDigits) | .httpError _ (some .tooDeep) => False
  | .httpError _ _ => True

structure Bounded (c : RefreshCall) : Prop where
  file : c.file.Bounded
  expiry : ∀ b, loadOAuthBundle c.file = .ok b → b.reauthRequired = false → InCalendar b.expiresAt
  request : ∀ b, c.Asks b → ∀ refresh ∈ b.refreshToken, refresh.encodable ∧ b.client.encodable
  answer : ∀ b, c.Asks b → AnswerBounded payload b c.after c.answer

end Claim

section Conversions

theorem storedAccess_error {v : Option Value} {e : Raised} (he : storedAccess v = .error e) :
    e = .valueError := by
  unfold storedAccess at he
  split at he
  · cases he
    rfl
  · split_ifs at he
    cases he
    rfl

theorem storedRefresh_error {v : Option Value} {e : Raised} (he : storedRefresh v = .error e) :
    e = .valueError := by
  unfold storedRefresh at he
  split at he
  · cases he
  · cases he
  · split_ifs at he
    cases he
    rfl
  · cases he
    rfl

variable [PyCoerce]

theorem intOrRaise_overflows (v : Json) :
    Presence.intOrRaise v = .error .overflowError ↔ Value.infinite (some (.other v)) = true := by
  have hplain (n : Option Int) : n.elim (.error .typeError) .ok ≠
      (.error .overflowError : Except PyErr Int) := by
    intro h
    cases n with
    | none => cases h
    | some n => cases h
  cases v with
  | float x =>
    show (if Presence.isInfinite x then _ else _) = _ ↔ Presence.isInfinite x = true
    cases hx : Presence.isInfinite x with
    | true => simp
    | false => simpa using hplain _
  | _ =>
    simp only [Presence.intOrRaise]
    exact ⟨fun h => absurd h (hplain _), fun h => absurd h Bool.false_ne_true⟩

theorem toInt_overflows (v : Value) :
    v.toInt = .error .overflowError ↔ Value.infinite (some v) = true := by
  cases v with
  | str s =>
    show (if s.encodable then _ else _) = _ ↔ _
    split_ifs
    · exact intOrRaise_overflows (.str _)
    · exact ⟨(fun h => nomatch h), fun h => nomatch h⟩
  | other v => exact intOrRaise_overflows v

theorem storedVersion_finite {v : Option Value} (h : Value.infinite v = false) {e : Raised}
    (he : storedVersion v = .error e) : e = .valueError := by
  unfold storedVersion at he
  split at he
  · split_ifs at he
    cases he
    rfl
  · rename_i hover
    rw [toInt_overflows] at hover
    cases v with
    | none => cases hover
    | some v =>
      rw [Option.getD_some, h] at hover
      cases hover
  · cases he
    rfl

theorem storedVersion_infinite {v : Option Value} (h : Value.infinite v = true) :
    storedVersion v = .error .overflowError := by
  cases v with
  | none => cases h
  | some v =>
    unfold storedVersion
    rw [Option.getD_some, (toInt_overflows v).mpr h]

theorem grantedSeconds_infinite {v : Option Value} (h : Value.infinite v = true) :
    grantedSeconds v = .error .overflowError := by
  unfold grantedSeconds
  split
  · cases h
  · cases h
  · rename_i v _
    rw [(toInt_overflows v).mpr h]

theorem grantedSeconds_finite {v : Option Value} (h : Value.infinite v = false) :
    ∃ seconds, grantedSeconds v = .ok seconds := by
  unfold grantedSeconds
  split
  · exact ⟨none, rfl⟩
  · exact ⟨none, rfl⟩
  · rename_i v _
    split
    · rename_i n _
      exact ⟨some n, rfl⟩
    · rename_i hover
      rw [toInt_overflows, h] at hover
      cases hover
    · exact ⟨none, rfl⟩

/-- An object whose version is not infinite fails to parse with a `ValueError` only. -/
theorem parseTokens_finite {d : Document} (h : Value.infinite (d.get? "version") = false)
    {e : Raised} (he : parseTokens (some d) = .error e) : e = .valueError := by
  obtain hversion | ⟨version, -, he⟩ := except_bind_error he
  · exact storedVersion_finite h hversion
  obtain haccess | ⟨access, -, he⟩ := except_bind_error he
  · exact storedAccess_error haccess
  obtain hrefresh | ⟨refresh, -, he⟩ := except_bind_error he
  · exact storedRefresh_error hrefresh
  · cases he

/-- A bundle that is loaded has an access token. -/
theorem loaded_access {file : TokenFile} {b : StoredTokens} (h : loadOAuthBundle file = .ok b) :
    b.accessToken ≠ [] := by
  have hparse (raw : Option Document) (hraw : parseTokens raw = .ok b) : b.accessToken ≠ [] := by
    cases raw with
    | none => cases hraw
    | some d =>
      obtain ⟨version, -, hraw⟩ := except_bind_ok hraw
      obtain ⟨access, haccess, hraw⟩ := except_bind_ok hraw
      obtain ⟨refresh, -, hraw⟩ := except_bind_ok hraw
      cases hraw
      unfold storedAccess at haccess
      split at haccess
      · cases haccess
      · split_ifs at haccess with hblank
        cases haccess
        exact hblank
  cases file with
  | missing => cases h
  | unreadable => cases h
  | content body =>
    cases body with
    | object d => exact hparse (some d) h
    | otherValue => exact hparse none h
    | _ => cases h

/-- A bounded file gives a bundle, is missing, or fails with a `ValueError`. -/
theorem load_bounded (file : TokenFile) :
    file.Bounded ↔
      ∀ e, loadOAuthBundle file = .error e → e = .fileNotFound ∨ e.isValueError = true := by
  cases file with
  | missing => exact ⟨fun _ e he => .inl (Except.error.inj he).symm, fun _ => trivial⟩
  | unreadable =>
    refine ⟨fun _ e he => ?_, fun _ => trivial⟩
    cases he
    exact .inr rfl
  | content body =>
    cases body with
    | tooDeep =>
      refine ⟨fun h => h.elim, fun h => ?_⟩
      obtain hfile | hvalue := h _ rfl
      · cases hfile
      · cases hvalue
    | object d =>
      show Value.infinite (d.get? "version") = false ↔
        ∀ e, parseTokens (some d) = .error e → _
      constructor
      · intro h e he
        rw [parseTokens_finite h he]
        exact .inr rfl
      · intro h
        cases hinf : Value.infinite (d.get? "version") with
        | false => rfl
        | true =>
          have he : parseTokens (some d) = .error .overflowError := by
            unfold parseTokens
            dsimp only
            rw [storedVersion_infinite hinf]
            rfl
          obtain hfile | hvalue := h _ he
          · cases hfile
          · cases hvalue
    | _ =>
      refine ⟨fun _ e he => ?_, fun _ => trivial⟩
      cases he
      exact .inr rfl

end Conversions

section Expiry

variable {expiresAt : Option PyText} {now : Instant}

theorem parseIsoUtc_returns : (∃ t, parseIsoUtc expiresAt = .ok t) ↔ InCalendar expiresAt := by
  cases expiresAt with
  | none => exact ⟨fun _ s hs => absurd hs.symm (Option.some_ne_none s), fun _ => ⟨none, rfl⟩⟩
  | some s =>
    have hshow : parseIsoUtc (some s) = if s = [] then .ok none else
        (Iso.fromIsoFormat (replaceZ s.shown)).elim (.ok none) fun d =>
          d.toUtc.elim (.error .overflowError) (.ok ∘ some) := by
      rw [parseIsoUtc]
      cases Iso.fromIsoFormat (replaceZ s.shown) <;> rfl
    rw [hshow]
    constructor
    · rintro ⟨t, ht⟩ s' hs' hempty d hd
      cases hs'
      rw [if_neg hempty, hd, Option.elim_some] at ht
      cases hutc : d.toUtc with
      | none =>
        rw [hutc] at ht
        cases ht
      | some u => rfl
    · intro h
      split_ifs with hempty
      · exact ⟨none, rfl⟩
      · cases hd : Iso.fromIsoFormat (replaceZ s.shown) with
        | none => exact ⟨none, rfl⟩
        | some d =>
          obtain ⟨u, hu⟩ := Option.isSome_iff_exists.mp (h s rfl hempty d hd)
          exact ⟨some u, by simp only [hu, Option.elim_some, Function.comp_apply]⟩

theorem untilExpiry_returns :
    (∃ remaining, untilExpiry expiresAt now = .ok remaining) ↔ InCalendar expiresAt := by
  rw [← parseIsoUtc_returns]
  unfold untilExpiry
  cases parseIsoUtc expiresAt with
  | error e => exact ⟨(fun ⟨_, h⟩ => nomatch h), fun ⟨_, h⟩ => nomatch h⟩
  | ok t => exact ⟨fun _ => ⟨t, rfl⟩, fun _ => ⟨_, rfl⟩⟩

theorem unexpired_iff {b : StoredTokens} {remaining : Option Int}
    (h : untilExpiry b.expiresAt now = .ok remaining) :
    b.Unexpired now ↔ (remaining.any fun r => 0 < r) = true := by
  unfold untilExpiry at h
  unfold StoredTokens.Unexpired
  cases hparse : parseIsoUtc b.expiresAt with
  | error e =>
    rw [hparse] at h
    cases h
  | ok parsed =>
    rw [hparse] at h
    cases h
    cases parsed with
    | none => exact ⟨(fun ⟨_, ht, _⟩ => nomatch ht), fun h => nomatch h⟩
    | some t =>
      show _ ↔ decide ((0 : Int) < t.val - now.val) = true
      rw [decide_eq_true_iff]
      constructor
      · rintro ⟨u, hu, hlt⟩
        cases hu
        have hval : now.val < t.val := hlt
        omega
      · intro hpos
        have hval : now.val < t.val := by omega
        exact ⟨t, rfl, hval⟩

end Expiry

section Texts

theorem ofString_encodable (s : String) : (PyText.ofString s).encodable = true := by
  unfold PyText.encodable PyText.ofString
  rw [List.all_map, List.all_eq_true]
  exact fun _ _ => rfl

theorem secondZ_encodable (now : Instant) : (secondZ now).encodable = true := by
  unfold secondZ
  exact ofString_encodable _

theorem all_reduceOption {α : Type} (p : α → Bool) (l : List (Option α)) :
    l.reduceOption.all p = l.all fun o => o.all p := by
  induction l with
  | nil => rfl
  | cons o l ih =>
    cases o with
    | none => rw [List.reduceOption_cons_of_none, List.all_cons, ih, Option.all_none, Bool.true_and]
    | some a =>
      rw [List.reduceOption_cons_of_some, List.all_cons, List.all_cons, ih, Option.all_some]

theorem obtained_encodable (old : Option PyText) (now : Instant) :
    (if old.getD [] = [] then some (secondZ now) else old).all PyText.encodable =
      old.all PyText.encodable := by
  split_ifs with h
  · rw [Option.all_some, secondZ_encodable]
    cases old with
    | none => rfl
    | some s =>
      obtain rfl : s = [] := h
      rfl
  · rfl

/-- A bundle with another update time can be written exactly if its other texts can. -/
theorem marked_encodable (b : StoredTokens) (now : Instant) :
    (b.marked now).texts.all PyText.encodable =
      { b with updatedAt := none }.texts.all PyText.encodable := by
  simp only [StoredTokens.marked, StoredTokens.texts, List.all_append, all_reduceOption,
    List.all_cons, Option.all_some, secondZ_encodable, Option.all_none]

theorem optPyText_ne_nil {v : Option Value} {s : PyText} (h : optPyText v = some s) : s ≠ [] := by
  unfold optPyText at h
  obtain ⟨t, -, ht⟩ := Option.bind_eq_some_iff.mp h
  split_ifs at ht with hblank
  cases ht
  exact hblank

theorem orStored_optPyText (v : Option Value) (old : Option PyText) :
    orStored (optPyText v) old = (optPyText v).or old := by
  unfold orStored
  cases h : optPyText v with
  | none => rfl
  | some s => exact if_neg (optPyText_ne_nil h)

variable {payload : PyText → Body} {now : Instant} {b : StoredTokens} {d : Document}
  {poll : TokenPollResult} {t : PyText}

theorem claims_error {idToken : Option PyText} {e : Raised}
    (h : claimsFromIdToken payload idToken = .error e) : e = .recursionError := by
  unfold claimsFromIdToken at h
  split at h
  · rename_i segment _ _
    cases hbody : payload segment with
    | tooDeep =>
      rw [hbody] at h
      cases h
      rfl
    | _ =>
      rw [hbody] at h
      cases h
  · cases h

theorem saveOAuthBundle_iff (b : StoredTokens) :
    saveOAuthBundle b = .ok () ↔ b.texts.all PyText.encodable = true := by
  unfold saveOAuthBundle
  split_ifs with h
  · exact ⟨fun _ => h, fun _ => rfl⟩
  · exact ⟨(fun hok => nomatch hok), fun hall => absurd hall h⟩

theorem newTokens_ok {access : PyText} {new : StoredTokens}
    (h : newTokens payload poll access b now = .ok new) :
    (Instant.ofMicros (now.val + poll.expiresIn.getD 3600 * 1000000)).isSome = true ∧
      claimsFromIdToken payload poll.idToken ≠ .error .recursionError := by
  obtain ⟨ends, hends, h⟩ := except_bind_ok h
  obtain ⟨claims, hclaims, -⟩ := except_bind_ok h
  constructor
  · unfold expiresAtFromExpiresIn at hends
    cases hlife : Instant.ofMicros (now.val + poll.expiresIn.getD 3600 * 1000000) with
    | none =>
      rw [hlife] at hends
      cases hends
    | some t => rfl
  · rw [hclaims]
    exact fun h => nomatch h

/-- A life that ends inside the calendar and an identity token that is not nested too deep make a
new bundle, of the texts of `grantTexts` and of the clock. -/
theorem newTokens_made (hid : poll.idToken = Value.text? (d.get? "id_token"))
    (hrefresh : poll.refreshToken = optPyText (d.get? "refresh_token"))
    (htype : poll.tokenType = Value.text? (d.get? "token_type"))
    (hscope : poll.scope = Value.text? (d.get? "scope"))
    (hends : (Instant.ofMicros (now.val + poll.expiresIn.getD 3600 * 1000000)).isSome = true)
    (hclaims : claimsFromIdToken payload poll.idToken ≠ .error .recursionError) :
    ∃ new, newTokens payload poll t.strip b now = .ok new ∧ new.accessToken = t.strip ∧
      new.refreshToken = (optPyText (d.get? "refresh_token")).or b.refreshToken ∧
      new.texts.all PyText.encodable = (grantTexts payload b d t).all PyText.encodable := by
  obtain ⟨ends, hlife⟩ := Option.isSome_iff_exists.mp hends
  cases hread : claimsFromIdToken payload poll.idToken with
  | error e =>
    obtain rfl := claims_error hread
    exact absurd hread hclaims
  | ok claims =>
    have hclaimed : idClaims payload d = claims := by
      unfold idClaims
      rw [← hid, hread]
    unfold newTokens expiresAtFromExpiresIn
    rw [hlife, hread]
    refine ⟨_, rfl, rfl, ?_, ?_⟩
    · rw [hrefresh, orStored_optPyText]
    · simp only [StoredTokens.texts, grantTexts, List.all_append, all_reduceOption, List.all_cons,
        Option.all_some, secondZ_encodable, obtained_encodable, hclaimed, hrefresh, htype, hscope,
        Bool.true_and]

end Texts

section Reply

variable {payload : PyText → Body} {c : RefreshCall} {b : StoredTokens} {remaining : Option Int}
  {now : Instant} {poll : TokenPollResult} {code : Nat} {d : Document}

/-- The grace of a failed exchange. -/
def graced (b : StoredTokens) (remaining : Option Int) : FreshAccessResult :=
  if remaining.any fun r => 0 < r then .granted b false
  else .refused oauthRefreshFailed (some b)

theorem graced_ok : (graced b remaining).ok = remaining.any fun r => 0 < r := by
  unfold graced
  split_ifs with h
  · exact h.symm
  · exact (Bool.eq_false_iff.mpr h).symm

theorem afterPoll_transient (hno : ¬(poll.ok = true ∧ poll.accessToken.getD [] ≠ []))
    (hrevoked : poll.revoked = false) :
    afterPoll payload b remaining now poll = .ok (graced b remaining, none) := by
  unfold afterPoll graced
  rw [if_neg hno, if_neg (by rw [hrevoked]; exact Bool.false_ne_true)]
  split_ifs <;> rfl

theorem httpCode_ne (code : Nat) : httpCode code ≠ oauthReauthRequired := by
  intro h
  have hhead : (httpCode code).toList.head? = some 'h' := by
    unfold httpCode
    rw [String.toList_append]
    rfl
  rw [h] at hhead
  exact absurd hhead (by decide)

/-- A failed answer revokes the refresh token exactly if its error is `invalid_grant`. -/
theorem failed_revoked (error : PyText) (pending slowDown : Bool) :
    (TokenPollResult.failed (errorDetail code error.lower).1 error pending slowDown).revoked =
        true ↔ error.lower = "invalid_grant" := by
  have hdetail : (errorDetail code error.lower).1 = oauthReauthRequired →
      error.lower = "invalid_grant" := by
    unfold errorDetail
    intro h
    split_ifs at h with h1 h2 h3 h4 h5 h6 h7
    all_goals first
      | exact absurd h (by decide)
      | assumption
      | exact absurd h (httpCode_ne code)
  unfold TokenPollResult.revoked TokenPollResult.failed
  simp only [Bool.or_eq_true, decide_eq_true_eq, Option.some.injEq, Option.map_some]
  exact ⟨fun h => h.elim hdetail id, .inr⟩

theorem truth_of_text {v : Option Value} {t : PyText} (h : Value.text? v = some t) :
    Value.truth v = true ↔ t ≠ [] := by
  unfold Value.text? at h
  split at h
  · cases h
    exact decide_eq_true_iff
  · cases h

theorem token_of_reply (hreply : c.answer.reply = some (code, d)) :
    c.answer.token = if code = 200 then
      (Value.text? (d.get? "access_token")).filter fun t => t ≠ [] else none := by
  unfold TokenAnswer.token
  rw [hreply]
  split_ifs with hcode
  · rw [hcode]
    rfl
  · split
    · rename_i heq
      cases heq
      exact absurd rfl hcode
    · rfl

theorem shown_ofString (s : String) : (PyText.ofString s).shown = s.toList := by
  unfold PyText.ofString PyText.shown
  rw [List.map_map]
  exact List.map_id _

theorem httpCode_lower (code : Nat) :
    (PyText.ofString (httpCode code)).lower ≠ "invalid_grant" := by
  intro h
  have hhead : ((httpCode code).toLower).toList.head? = some 'h' := by
    unfold httpCode String.toLower
    rw [String.toList_map, String.toList_append]
    rfl
  unfold PyText.lower at h
  rw [shown_ofString, String.ofList_toList] at h
  rw [h] at hhead
  exact absurd hhead (by decide)

variable [PyCoerce]

/-- Only one bundle is sent. -/
theorem RefreshCall.Asks.eq {b' : StoredTokens} (h : c.Asks b) (h' : c.Asks b') : b' = b := by
  have hloads := h'.loads
  rw [h.loads] at hloads
  exact (Except.ok.inj hloads).symm

/-- The grace is right where the answer holds no token. -/
theorem refreshes_graced (hasks : c.Asks b)
    (hleft : untilExpiry b.expiresAt c.before = .ok remaining)
    (htoken : c.answer.token = none) : Refreshes c (graced b remaining) none := by
  constructor
  · intro b' hb' t ht
    rw [htoken] at ht
    cases ht
  · intro b' hb' _ _
    rw [hasks.eq hb', unexpired_iff hleft, graced_ok]

/-- What a status 200 with an access token polls to. -/
def grantedPoll (d : Document) (seconds : Option Int) : TokenPollResult where
  ok := true
  pending := false
  slowDown := false
  accessToken := (Value.text? (d.get? "access_token")).map PyText.strip
  refreshToken := optPyText (d.get? "refresh_token")
  expiresIn := seconds
  tokenType := Value.text? (d.get? "token_type")
  scope := Value.text? (d.get? "scope")
  idToken := Value.text? (d.get? "id_token")
  detail := none
  error := none

/-- What any other object polls to. -/
def failedPoll (code : Nat) (d : Document) : TokenPollResult :=
  let detail := errorDetail code (errorText code d).lower
  .failed detail.1 (errorText code d) detail.2.1 detail.2.2

/-- A granted token is written exactly if it is bounded. -/
theorem granted_iff {t : PyText} {seconds : Option Int} (hasks : c.Asks b)
    (hreply : c.answer.reply = some (200, d))
    (hseconds : grantedSeconds (d.get? "expires_in") = .ok seconds)
    (htext : Value.text? (d.get? "access_token") = some t) (ht : t ≠ []) :
    (∃ r saved, afterPoll payload b remaining c.after (grantedPoll d seconds) = .ok (r, saved) ∧
      Refreshes c r saved) ↔ TextBounded payload b c.after d t := by
  have htoken : c.answer.token = some t := by
    rw [token_of_reply hreply, if_pos rfl, htext]
    exact if_pos (decide_eq_true ht)
  have haccess : (grantedPoll d seconds).accessToken = some t.strip := by
    show (Value.text? _).map PyText.strip = _
    rw [htext]
    rfl
  have hends (bounded : TextBounded payload b c.after d t) := bounded.ends seconds hseconds
  by_cases hblank : t.strip = []
  · have hno : ¬((grantedPoll d seconds).ok = true ∧
        (grantedPoll d seconds).accessToken.getD [] ≠ []) := by
      rw [haccess]
      exact fun h => h.2 hblank
    rw [afterPoll_transient hno rfl]
    constructor
    · rintro ⟨r, saved, hr, hrefreshes⟩
      obtain ⟨new, hnew, -⟩ := hrefreshes.carries b hasks t htoken
      cases hr
      cases hnew
    · exact fun bounded => absurd hblank bounded.present
  · have hafter : afterPoll payload b remaining c.after (grantedPoll d seconds) = (do
        let new ← newTokens payload (grantedPoll d seconds) t.strip b c.after
        saveOAuthBundle new
        return (.granted new true, some new)) := by
      unfold afterPoll
      rw [haccess]
      exact if_pos ⟨rfl, hblank⟩
    rw [hafter]
    constructor
    · rintro ⟨r, saved, hr, -⟩
      obtain ⟨new, hnew, hr⟩ := except_bind_ok hr
      obtain ⟨_, hsave, -⟩ := except_bind_ok hr
      obtain ⟨hlife, hclaims⟩ := newTokens_ok hnew
      obtain ⟨new', hnew', -, -, htexts⟩ :=
        newTokens_made (t := t) (b := b) (d := d) rfl rfl rfl rfl hlife hclaims
      rw [hnew] at hnew'
      cases hnew'
      refine ⟨hblank, ?_, hclaims, ?_⟩
      · intro seconds' hseconds'
        rw [hseconds] at hseconds'
        cases hseconds'
        exact hlife
      · rw [← htexts]
        exact (saveOAuthBundle_iff new).mp hsave
    · intro bounded
      have hlife : (Instant.ofMicros (c.after.val +
          (grantedPoll d seconds).expiresIn.getD 3600 * 1000000)).isSome = true := hends bounded
      obtain ⟨new, hnew, hnewAccess, hnewRefresh, htexts⟩ :=
        newTokens_made (t := t) (b := b) (d := d) rfl rfl rfl rfl hlife bounded.shallow
      refine ⟨.granted new true, some new, ?_, ?_, ?_⟩
      · rw [hnew]
        show (saveOAuthBundle new >>= fun _ => _) = _
        rw [(saveOAuthBundle_iff new).mpr (htexts.trans bounded.encodable)]
        rfl
      · intro b' hb' t' ht'
        rw [htoken] at ht'
        cases ht'
        refine ⟨new, rfl, hnewAccess, ?_⟩
        rw [hasks.eq hb', hnewRefresh, TokenAnswer.newRefresh, hreply]
        rfl
      · intro b' hb' hnone _
        exact absurd (hnone t htoken) hblank

/-- With an object for an answer a call does what it should exactly if the object is bounded. -/
theorem reply_iff (hasks : c.Asks b) (hleft : untilExpiry b.expiresAt c.before = .ok remaining)
    (hreply : c.answer.reply = some (code, d)) :
    (∃ r saved, (tokenPollResultFromBody code d >>= afterPoll payload b remaining c.after) =
        .ok (r, saved) ∧ Refreshes c r saved) ↔ ReplyBounded payload b c.after code d := by
  unfold ReplyBounded tokenPollResultFromBody
  by_cases hgrant : code = 200 ∧ Value.truth (d.get? "access_token") = true
  · rw [if_pos hgrant, if_pos hgrant]
    obtain ⟨rfl, htruth⟩ := hgrant
    cases hinf : Value.infinite (d.get? "expires_in") with
    | true =>
      rw [grantedSeconds_infinite hinf]
      exact ⟨(fun ⟨_, _, hr, _⟩ => nomatch hr), fun h => nomatch h.1⟩
    | false =>
      obtain ⟨seconds, hseconds⟩ := grantedSeconds_finite hinf
      rw [hseconds]
      show (∃ r saved, afterPoll payload b remaining c.after (grantedPoll d seconds) = _ ∧ _) ↔ _
      cases htext : Value.text? (d.get? "access_token") with
      | none =>
        have htoken : c.answer.token = none := by
          rw [token_of_reply hreply, htext]
          rfl
        have hno : ¬((grantedPoll d seconds).ok = true ∧
            (grantedPoll d seconds).accessToken.getD [] ≠ []) := by
          intro h
          apply h.2
          show ((Value.text? _).map PyText.strip).getD [] = _
          rw [htext]
          rfl
        rw [afterPoll_transient hno rfl]
        exact ⟨fun _ => ⟨rfl, fun _ ht => nomatch ht⟩,
          fun _ => ⟨_, _, rfl, refreshes_graced hasks hleft htoken⟩⟩
      | some t =>
        rw [granted_iff hasks hreply hseconds htext ((truth_of_text htext).mp htruth)]
        constructor
        · intro bounded
          refine ⟨rfl, fun t' ht' => ?_⟩
          cases ht'
          exact bounded
        · exact fun h => h.2 t rfl
  · rw [if_neg hgrant, if_neg hgrant]
    have htoken : c.answer.token = none := by
      rw [token_of_reply hreply]
      split_ifs with hcode
      · cases htext : Value.text? (d.get? "access_token") with
        | none => rfl
        | some t =>
          have hempty : ¬t ≠ [] := fun ht => hgrant ⟨hcode, (truth_of_text htext).mpr ht⟩
          exact if_neg fun h => hempty (of_decide_eq_true h)
      · rfl
    show (∃ r saved, afterPoll payload b remaining c.after (failedPoll code d) = _ ∧ _) ↔ _
    have hno : ¬((failedPoll code d).ok = true ∧ (failedPoll code d).accessToken.getD [] ≠ []) :=
      fun h => nomatch h.1
    have hrevoked : (failedPoll code d).revoked = true ↔
        (errorText code d).lower = "invalid_grant" := failed_revoked _ _ _
    by_cases herror : (errorText code d).lower = "invalid_grant"
    · have hafter : afterPoll payload b remaining c.after (failedPoll code d) = (do
          saveOAuthBundle (b.marked c.after)
          return (.refused oauthReauthRequired (some b), some (b.marked c.after))) := by
        unfold afterPoll
        rw [if_neg hno, if_pos (hrevoked.mpr herror)]
      rw [hafter]
      constructor
      · rintro ⟨r, saved, hr, -⟩ -
        obtain ⟨_, hsave, -⟩ := except_bind_ok hr
        rw [← marked_encodable b c.after]
        exact (saveOAuthBundle_iff _).mp hsave
      · intro h
        have hwritten := h herror
        rw [← marked_encodable b c.after] at hwritten
        refine ⟨.refused oauthReauthRequired (some b), some (b.marked c.after), ?_, ?_, ?_⟩
        · rw [(saveOAuthBundle_iff _).mpr hwritten]
          rfl
        · intro b' hb' t ht
          rw [htoken] at ht
          cases ht
        · exact fun b' hb' _ hvalid => absurd ⟨code, d, hreply, herror⟩ hvalid
    · have hvalid : (failedPoll code d).revoked = false :=
        Bool.eq_false_iff.mpr fun h => herror (hrevoked.mp h)
      rw [afterPoll_transient hno hvalid]
      exact ⟨fun _ h => absurd h herror,
        fun _ => ⟨_, _, rfl, refreshes_graced hasks hleft htoken⟩⟩

theorem refresh_error {refresh clientId : PyText}
    (h : ¬(refresh.encodable = true ∧ clientId.encodable = true)) (a : TokenAnswer) :
    refreshAccessToken refresh clientId a = .error .unicodeEncodeError := by
  unfold refreshAccessToken httpFormPost
  rw [if_neg]
  simpa [ofString_encodable] using h

/-- An object without a token and with another error polls to a failure. -/
theorem poll_plain (haccess : d.get? "access_token" = none)
    (herror : (errorText code d).lower ≠ "invalid_grant") :
    tokenPollResultFromBody code d = .ok (failedPoll code d) ∧
      (failedPoll code d).revoked = false := by
  constructor
  · unfold tokenPollResultFromBody
    rw [haccess]
    exact if_neg fun h => nomatch h.2
  · exact Bool.eq_false_iff.mpr fun h => herror ((failed_revoked _ _ _).mp h)

theorem poll_empty (code : Nat) :
    tokenPollResultFromBody code .empty = .ok (failedPoll code .empty) ∧
      (failedPoll code .empty).revoked = false :=
  poll_plain rfl (httpCode_lower code)

theorem poll_httpError (code : Nat) :
    tokenPollResultFromBody code httpErrorDocument = .ok (failedPoll code httpErrorDocument) ∧
      (failedPoll code httpErrorDocument).revoked = false :=
  poll_plain rfl (show (PyText.ofString "http_error").lower ≠ "invalid_grant" by decide +kernel)

theorem bounded_of_reply {a : TokenAnswer} (h : a.reply = some (code, d)) :
    AnswerBounded payload b now a ↔ ReplyBounded payload b now code d := by
  cases a with
  | answer code' body =>
    cases body with
    | object d' =>
      cases h
      exact Iff.rfl
    | _ => cases h
  | httpError code' body =>
    cases body with
    | none => cases h
    | some body =>
      cases body with
      | object d' =>
        cases h
        exact Iff.rfl
      | _ => cases h
  | _ => cases h

/-- What a request that is sent comes to: an answer with an object, a failure without one, or an
exception. -/
theorem refresh_answer (payload : PyText → Body) (b : StoredTokens) (now : Instant)
    {refresh clientId : PyText} (hrefresh : refresh.encodable = true)
    (hclient : clientId.encodable = true) (a : TokenAnswer) :
    (∃ code d, a.reply = some (code, d) ∧
        refreshAccessToken refresh clientId a = tokenPollResultFromBody code d) ∨
      a.reply = none ∧
        ((∃ poll, refreshAccessToken refresh clientId a = .ok poll ∧ poll.ok = false ∧
            poll.revoked = false ∧ AnswerBounded payload b now a) ∨
          (∃ e, refreshAccessToken refresh clientId a = .error e) ∧
            ¬AnswerBounded payload b now a) := by
  have hall : [PyText.ofString "refresh_token", refresh, clientId].all PyText.encodable = true := by
    simp [ofString_encodable, hrefresh, hclient]
  unfold refreshAccessToken httpFormPost
  rw [if_pos hall]
  cases a with
  | answer code body =>
    cases body with
    | object d => exact .inl ⟨_, d, rfl, rfl⟩
    | blank =>
      exact .inr ⟨rfl, .inl ⟨_, (poll_empty _).1, rfl, (poll_empty _).2, trivial⟩⟩
    | _ => exact .inr ⟨rfl, .inr ⟨⟨_, rfl⟩, id⟩⟩
  | httpError code body =>
    cases body with
    | none =>
      exact .inr ⟨rfl, .inl ⟨_, (poll_httpError _).1, rfl, (poll_httpError _).2, trivial⟩⟩
    | some body =>
      cases body with
      | object d => exact .inl ⟨_, d, rfl, rfl⟩
      | otherValue =>
        exact .inr ⟨rfl, .inl ⟨_, (poll_empty _).1, rfl, (poll_empty _).2, trivial⟩⟩
      | tooManyDigits => exact .inr ⟨rfl, .inr ⟨⟨_, rfl⟩, id⟩⟩
      | tooDeep => exact .inr ⟨rfl, .inr ⟨⟨_, rfl⟩, id⟩⟩
      | _ =>
        exact .inr ⟨rfl, .inl ⟨_, (poll_httpError _).1, rfl, (poll_httpError _).2, trivial⟩⟩
  | urlError => exact .inr ⟨rfl, .inl ⟨_, rfl, rfl, by decide +kernel, trivial⟩⟩
  | osError => exact .inr ⟨rfl, .inl ⟨_, rfl, rfl, by decide +kernel, trivial⟩⟩
  | httpException => exact .inr ⟨rfl, .inr ⟨⟨_, rfl⟩, id⟩⟩

/-- With a bundle that is loaded a call does what it should exactly if it is bounded. -/
theorem refreshLoaded_iff (hloads : loadOAuthBundle c.file = .ok b)
    (hunmarked : b.reauthRequired = false) :
    (∃ r saved, refreshLoaded payload c b = .ok (r, saved) ∧ Refreshes c r saved) ↔
      InCalendar b.expiresAt ∧
        (c.Asks b → (∀ refresh ∈ b.refreshToken, refresh.encodable ∧ b.client.encodable) ∧
          AnswerBounded payload b c.after c.answer) := by
  have hbundle {b' : StoredTokens} (h : c.Asks b') : b' = b := by
    have hb' := h.loads
    rw [hloads] at hb'
    exact (Except.ok.inj hb').symm
  unfold refreshLoaded
  cases hleft : untilExpiry b.expiresAt c.before with
  | error e =>
    refine ⟨(fun ⟨_, _, hr, _⟩ => nomatch hr), fun h => ?_⟩
    obtain ⟨remaining, hok⟩ := untilExpiry_returns.mpr h.1
    rw [hleft] at hok
    cases hok
  | ok remaining =>
    have hcalendar : InCalendar b.expiresAt := untilExpiry_returns.mp ⟨remaining, hleft⟩
    have hidle (hnot : ¬c.Asks b) (r : FreshAccessResult) : Refreshes c r none :=
      ⟨fun b' hb' => absurd (hbundle hb' ▸ hb') hnot, fun b' hb' => absurd (hbundle hb' ▸ hb') hnot⟩
    show (∃ r saved, (if (!c.force && remaining.any fun r => c.skew * 1000000 < r) = true then
      .ok (FreshAccessResult.granted b false, none) else _) = Except.ok (r, saved) ∧ _) ↔ _
    by_cases hfresh : (!c.force && remaining.any fun r => c.skew * 1000000 < r) = true
    · have hnot : ¬c.Asks b := by
        intro hasks
        obtain ⟨left, hleft', hdue⟩ := hasks.due
        rw [hleft] at hleft'
        cases hleft'
        rw [hfresh] at hdue
        cases hdue
      rw [if_pos hfresh]
      exact ⟨fun _ => ⟨hcalendar, fun h => absurd h hnot⟩, fun _ => ⟨_, _, rfl, hidle hnot _⟩⟩
    · rw [if_neg hfresh]
      cases hrefresh : b.refreshToken with
      | none =>
        have hnot : ¬c.Asks b := fun hasks => hasks.refresh hrefresh
        exact ⟨fun _ => ⟨hcalendar, fun h => absurd h hnot⟩, fun _ => ⟨_, _, rfl, hidle hnot _⟩⟩
      | some refresh =>
        have hasks : c.Asks b := by
          refine ⟨hloads, hunmarked, ?_, remaining, hleft, Bool.eq_false_iff.mpr hfresh⟩
          rw [hrefresh]
          exact fun h => nomatch h
        show (∃ r saved, (refreshAccessToken refresh b.client c.answer >>=
          afterPoll payload b remaining c.after) = .ok (r, saved) ∧ _) ↔ _
        by_cases hwritable : refresh.encodable = true ∧ b.client.encodable = true
        · have hgiven (h : AnswerBounded payload b c.after c.answer) :
              InCalendar b.expiresAt ∧ (c.Asks b →
                (∀ r ∈ some refresh, r.encodable = true ∧ b.client.encodable = true) ∧
                  AnswerBounded payload b c.after c.answer) := by
            refine ⟨hcalendar, fun _ => ⟨fun r hr => ?_, h⟩⟩
            cases hr
            exact hwritable
          obtain ⟨code, d, hreply, hpoll⟩ | ⟨hreply, hplain⟩ :=
            refresh_answer payload b c.after hwritable.1 hwritable.2 c.answer
          · rw [hpoll, reply_iff hasks hleft hreply, ← bounded_of_reply hreply]
            exact ⟨hgiven, fun h => (h.2 hasks).2⟩
          obtain ⟨poll, hpoll, hok, hvalid, hbounded⟩ | ⟨⟨e, he⟩, hnot⟩ := hplain
          · have htoken : c.answer.token = none := by
              unfold TokenAnswer.token
              rw [hreply]
            have hno : ¬(poll.ok = true ∧ poll.accessToken.getD [] ≠ []) := by
              rw [hok]
              exact fun h => nomatch h.1
            rw [hpoll]
            show (∃ r saved, afterPoll payload b remaining c.after poll = .ok (r, saved) ∧ _) ↔ _
            rw [afterPoll_transient hno hvalid]
            exact ⟨fun _ => hgiven hbounded,
              fun _ => ⟨_, _, rfl, refreshes_graced hasks hleft htoken⟩⟩
          · rw [he]
            exact ⟨(fun ⟨_, _, hr, _⟩ => nomatch hr), fun h => absurd (h.2 hasks).2 hnot⟩
        · rw [refresh_error hwritable]
          exact ⟨(fun ⟨_, _, hr, _⟩ => nomatch hr),
            fun h => absurd ((h.2 hasks).1 refresh rfl) hwritable⟩

end Reply

/-- For every file, answer and clock, a call returns, keeps a granted token and grants the stored
one for as long as it lives after a transient failure, exactly if what it meets is bounded. -/
theorem fresh_access_total [PyCoerce] (payload : PyText → Body) (c : RefreshCall) :
    (∃ r saved, ensureFreshAccess payload c = .ok (r, saved) ∧ Refreshes c r saved) ↔
      Bounded payload c := by
  have hnone (hnot : ∀ b, ¬c.Asks b) (r : FreshAccessResult) : Refreshes c r none :=
    ⟨fun b hb => absurd hb (hnot b), fun b hb => absurd hb (hnot b)⟩
  unfold ensureFreshAccess
  cases hloads : loadOAuthBundle c.file with
  | error e =>
    have hnot : ∀ b, ¬c.Asks b := by
      intro b hb
      have hb' := hb.loads
      rw [hloads] at hb'
      cases hb'
    have hgiven (h : e = .fileNotFound ∨ e.isValueError = true) : Bounded payload c := by
      refine ⟨(load_bounded c.file).mpr fun e' he' => ?_, fun b hb => ?_,
        fun b hb => absurd hb (hnot b), fun b hb => absurd hb (hnot b)⟩
      · rw [hloads] at he'
        cases he'
        exact h
      · rw [hloads] at hb
        cases hb
    have hkind (h : Bounded payload c) : e = .fileNotFound ∨ e.isValueError = true :=
      (load_bounded c.file).mp h.file e hloads
    cases e with
    | fileNotFound => exact ⟨fun _ => hgiven (.inl rfl), fun _ => ⟨_, _, rfl, hnone hnot _⟩⟩
    | valueError | jsonDecodeError | unicodeDecodeError | unicodeEncodeError =>
      exact ⟨fun _ => hgiven (.inr rfl), fun _ => ⟨_, _, rfl, hnone hnot _⟩⟩
    | osError | httpException | overflowError | recursionError =>
      refine ⟨(fun ⟨_, _, hr, _⟩ => nomatch hr), fun h => ?_⟩
      obtain hfile | hvalue := hkind h
      · cases hfile
      · cases hvalue
  | ok b =>
    have hbundle {b' : StoredTokens} (h : c.Asks b') : b' = b := by
      have hb' := h.loads
      rw [hloads] at hb'
      exact (Except.ok.inj hb').symm
    have hfile : c.file.Bounded := (load_bounded c.file).mpr fun e he => by
      rw [hloads] at he
      cases he
    show (∃ r saved, (if b.reauthRequired = true then
        .ok (.refused oauthReauthRequired (some b), none)
      else if b.accessToken = [] then .ok (.refused invalidOAuthTokens (some b), none)
      else refreshLoaded payload c b) = Except.ok (r, saved) ∧ Refreshes c r saved) ↔ _
    cases hmark : b.reauthRequired with
    | true =>
      have hnot : ∀ b', ¬c.Asks b' := by
        intro b' hb'
        have hunmarked := hb'.unmarked
        rw [hbundle hb', hmark] at hunmarked
        cases hunmarked
      rw [if_pos rfl]
      refine ⟨fun _ => ⟨hfile, fun b' hb' hunmarked => ?_, fun b' hb' => absurd hb' (hnot b'),
        fun b' hb' => absurd hb' (hnot b')⟩, fun _ => ⟨_, _, rfl, hnone hnot _⟩⟩
      rw [hloads] at hb'
      cases hb'
      rw [hmark] at hunmarked
      cases hunmarked
    | false =>
      rw [if_neg Bool.false_ne_true, if_neg (loaded_access hloads), refreshLoaded_iff hloads hmark]
      constructor
      · rintro ⟨hcalendar, hasked⟩
        refine ⟨hfile, fun b' hb' _ => ?_, fun b' hb' => ?_, fun b' hb' => ?_⟩
        · rw [hloads] at hb'
          cases hb'
          exact hcalendar
        · obtain rfl := hbundle hb'
          exact (hasked hb').1
        · obtain rfl := hbundle hb'
          exact (hasked hb').2
      · intro h
        exact ⟨h.expiry b hloads hmark, fun hasks => ⟨h.request b hasks, h.answer b hasks⟩⟩

section Sample

attribute [local instance] basicCoerce

/-- A refresh whose answer grants new tokens for `1e999` seconds. -/
def endlessGrant : RefreshCall where
  file := .content (.object (.ofList [("access_token", .str (.ofString "a")),
    ("refresh_token", .str (.ofString "r"))]))
  force := true
  skew := 120
  answer := .answer 200 (.object (.ofList [("access_token", .str (.ofString "b")),
    ("refresh_token", .str (.ofString "s")),
    ("expires_in", .other (.float (.scientific false 1 999)))]))
  before := ⟨0, zero_lt_instantCount⟩
  after := ⟨0, zero_lt_instantCount⟩

/-- The infinite life overflows, and the new refresh token is lost. -/
theorem endless_grant_raises :
    ¬∀ (payload : PyText → Body) (c : RefreshCall), ∃ r saved,
      ensureFreshAccess payload c = .ok (r, saved) ∧ Refreshes c r saved := by
  intro h
  obtain ⟨r, saved, hr, -⟩ := h (fun _ => .notJson) endlessGrant
  have hraises : ensureFreshAccess (fun _ => .notJson) endlessGrant = .error .overflowError := by
    decide +kernel
  rw [hraises] at hr
  cases hr

end Sample
end Elyra.Llm
