import HelixServer.Async.Front
import HelixServer.Codec.UrlEncoded
import HelixServer.Codec.Utf16
import HelixServer.Services.Guard
import Mathlib.Data.List.TakeWhile

/-!
# The routes of the auth service

`routes/auth`: every route reads its request, and hands what it has read to the auth service.  The
two routes of the Google sign-in send the browser to Google and, when it comes back with a code, ask
Google whose code it is.

* `requireEmailPassword`, `requireText` : what the routes require of a body.
* `googleRedirect` : where `GET /v1/auth/google` sends the browser.
* `GoogleOp` : the two requests to Google, and `TokenJson`, `ProfileJson`, what it sends.
* `googleProfile` : the profile that `GET /v1/auth/google/callback` asks for.
-/

namespace HelixServer

/-- `asOptionalString`. -/
def asOptionalString (value : Option Json) : Option String :=
  truthy ((value.bind Json.asString).map trim)

/-- `text.length`: the code units of a text. -/
def utf16Length (text : String) : ℕ := (text.toList.flatMap Codec.units).length

namespace Routes

/-- `POST /v1/auth/resend-verification`: the status of the reply. -/
def resendVerification (cfg : Config) (body : Json) : Promise ℕ := do
  -- `body.email` of `null` throws
  if body.isNull then .raise .typeError
  else
    match body.getString "email" with
    | none => .raise (.validation "A valid email is required")
    | some email =>
      if email.toList.contains '@' then do
        AuthService.resendVerificationEmail cfg email
        return 202
      else .raise (.validation "A valid email is required")

/-! ### What the routes require of a body -/

/-- `requireEmailPassword`. -/
def requireEmailPassword (body : Json) : Except HelixError (String × String) :=
  if body.isNull then .error .typeError
  else
    match (body.getString "email").filter fun email => email.toList.contains '@' with
    | none => .error (.validation "A valid email is required")
    | some email =>
      match (body.getString "password").filter fun password => 8 ≤ utf16Length password with
      | none => .error (.validation "password is required and must be at least 8 characters")
      | some password => .ok (email, password)

/-- A field of the body that is a text and not empty. -/
def requireText (field : String) (body : Json) : Except HelixError String :=
  if body.isNull then .error .typeError
  else
    match truthy (body.getString field) with
    | none => .error (.validation (field ++ " is required"))
    | some text => .ok text

/-- What `POST /v1/auth/register` hands to the service. -/
def registerInput (body : Json) : Except HelixError RegisterInput := do
  let (email, password) ← requireEmailPassword body
  return { email := email, password := password
           companyName := asOptionalString (body.prop "companyName")
           fieldOfOperation := asOptionalString (body.prop "fieldOfOperation") }

/-- What `POST /v1/auth/login` hands to the service. -/
def loginInput (body : Json) : Except HelixError LoginInput := do
  let (email, password) ← requireEmailPassword body
  return { email := email, password := password }

/-- Go on with what has been read, or end with the error. -/
def reading {α β : Type} (read : Except HelixError α) (f : α → Promise β) : Promise β :=
  match read with
  | .error e => .raise e
  | .ok a => f a

/-! ### The routes of the service -/

/-- `POST /v1/auth/register`: the status, the account and its tokens. -/
def register (cfg : Config) (body : Json) : Promise (ℕ × AccountSummary × AuthTokens) :=
  reading (registerInput body) fun input => do
    let (account, tokens) ← AuthService.register cfg input
    return (201, account, tokens)

/-- `POST /v1/auth/login`. -/
def login (cfg : Config) (body : Json) : Promise (ℕ × AccountSummary × AuthTokens) :=
  reading (loginInput body) fun input => do
    let (account, tokens) ← AuthService.login cfg input
    return (200, account, tokens)

/-- `POST /v1/auth/refresh`. -/
def refresh (cfg : Config) (body : Json) : Promise (ℕ × AuthTokens) :=
  reading (requireText "refreshToken" body) fun refreshToken => do
    let tokens ← AuthService.refresh cfg refreshToken
    return (200, tokens)

/-- `POST /v1/auth/logout`. -/
def logout (cfg : Config) (body : Json) : Promise ℕ :=
  reading (requireText "refreshToken" body) fun refreshToken => do
    AuthService.logout cfg refreshToken
    return 204

/-- `POST /v1/auth/verify-email`. -/
def verifyEmail (cfg : Config) (body : Json) : Promise (ℕ × AccountSummary) :=
  reading (requireText "token" body) fun token => do
    let account ← AuthService.verifyEmail cfg token
    return (200, account)

/-! ### The Google sign-in -/

/-- The configuration of the Google sign-in. -/
structure GoogleConfig where
  googleClientId : Option String := none
  googleClientSecret : Option String := none
  googleRedirectUri : Option String := none

/-- An answer that a Google route gives without the service. -/
inductive GoogleReply where
  | redirect (location : String)
  /-- `HelixError(VALIDATION_ERROR, message, status)`. -/
  | refused (message : String) (status : ℕ)
  /-- `GoogleOAuthFailedError`. -/
  | googleOAuthFailed (message : String)

/-- The refusal of both routes where the sign-in is not configured. -/
def notConfigured : GoogleReply := .refused "Google sign-in is not configured on this instance" 501

/-- The page of Google that asks for the user's consent. -/
def googleAuthPage : String := "https://accounts.google.com/o/oauth2/v2/auth"

/-- What the page is told. -/
def googleAuthParams (clientId redirectUri : String) : List (String × String) :=
  [("client_id", clientId), ("redirect_uri", redirectUri), ("response_type", "code"),
    ("scope", "openid email profile"), ("access_type", "online"), ("prompt", "select_account")]

/-- `GET /v1/auth/google`. -/
def googleRedirect (google : GoogleConfig) : GoogleReply :=
  match truthy google.googleClientId, truthy google.googleRedirectUri with
  | some clientId, some redirectUri =>
    .redirect (googleAuthPage ++ "?" ++
      Codec.UrlEncoded.serialize (googleAuthParams clientId redirectUri))
  | _, _ => notConfigured

/-- The requests to Google: a code is exchanged for an access token, and an access token shows a
profile. -/
inductive GoogleOp where
  | token (form : List (String × String))
  | userinfo (authorization : String)

/-- What the token endpoint sends: `{ access_token?: string }`. -/
structure TokenJson where
  accessToken : Option String

/-- What the profile endpoint sends:
`{ sub?: string; email?: string; email_verified?: boolean }`. -/
structure ProfileJson where
  sub : Option String
  email : Option String
  emailVerified : Option Bool

/-- What `fetch` answers: whether the status is one of success, and what `json()` reads, `some none`
for `null`.  The values have the types that the route gives them. -/
structure FetchResponse (α : Type) where
  ok : Bool
  json : Option (Option α)

/-- The answer to a request. -/
abbrev GoogleOp.Res : GoogleOp → Type
  | .token _ => FetchResponse TokenJson
  | .userinfo _ => FetchResponse ProfileJson

/-- The interface of Google. -/
abbrev googleSig : Async.Sig := ⟨GoogleOp, GoogleOp.Res⟩

/-- A program that asks Google. -/
abbrev GooglePromise (α : Type) := Async.Prog googleSig HelixError α

/-- `await fetch(..)`. -/
def fetch (o : GoogleOp) : GooglePromise o.Res := @Async.Prog.perform googleSig HelixError o

/-- `await response.json()`, of which a property is read. -/
def FetchResponse.object {α : Type} (response : FetchResponse α) : GooglePromise α :=
  match response.json with
  | none => .raise .rejected
  | some none => .raise .typeError
  | some (some json) => return json

/-- The `code` of a query: one that is repeated is an array, which is joined with commas. -/
def codeText : Option HeaderValue → Option String
  | none => none
  | some (.one code) => truthy (some code)
  | some (.many codes) => some (String.intercalate "," codes)

/-- The form that exchanges a code. -/
def tokenForm (code clientId clientSecret redirectUri : String) : List (String × String) :=
  [("code", code), ("client_id", clientId), ("client_secret", clientSecret),
    ("redirect_uri", redirectUri), ("grant_type", "authorization_code")]

/-- The profile of an access token. -/
def profileOf (accessToken : String) : GooglePromise (GoogleProfile ⊕ GoogleReply) := do
  let profileResponse ← fetch (.userinfo ("Bearer " ++ accessToken))
  if profileResponse.ok then
    let profileJson ← profileResponse.object
    match truthy profileJson.sub, truthy profileJson.email with
    | some sub, some email =>
      return .inl { googleId := sub, email := email
                    emailVerified := profileJson.emailVerified.getD false }
    | _, _ => return .inr (.googleOAuthFailed "Google profile response missing sub/email")
  else return .inr (.googleOAuthFailed "Failed to fetch Google profile")

/-- The access token of a code, and its profile. -/
def exchange (form : List (String × String)) : GooglePromise (GoogleProfile ⊕ GoogleReply) := do
  let tokenResponse ← fetch (.token form)
  if tokenResponse.ok then
    let tokenJson ← tokenResponse.object
    match truthy tokenJson.accessToken with
    | some accessToken => profileOf accessToken
    | none => return .inr (.googleOAuthFailed "Google token exchange returned no access token")
  else return .inr (.googleOAuthFailed "Google token exchange failed")

/-- `GET /v1/auth/google/callback`, up to the call of the service: the profile that Google shows for
the code, or an answer without the service. -/
def googleProfile (google : GoogleConfig) (code : Option HeaderValue) :
    GooglePromise (GoogleProfile ⊕ GoogleReply) :=
  match truthy google.googleClientId, truthy google.googleClientSecret,
      truthy google.googleRedirectUri with
  | some clientId, some clientSecret, some redirectUri =>
    match codeText code with
    | none => return .inr (.googleOAuthFailed "Missing authorization code")
    | some code => exchange (tokenForm code clientId clientSecret redirectUri)
  | _, _, _ => return .inr notConfigured

/-! ### Where the browser is sent -/

/-- The query of a URL: what stands between the first question mark and the fragment. -/
def queryOf (url : String) : String :=
  String.ofList (((url.toList.dropWhile (· != '?')).drop 1).takeWhile (· != '#'))

theorem queryOf_append {page query : String} (hpage : '?' ∉ page.toList)
    (hquery : '#' ∉ query.toList) : queryOf (page ++ "?" ++ query) = query := by
  have hskip : ∀ c ∈ page.toList, (c != '?') = true := by
    intro c hc
    refine bne_iff_ne.2 ?_
    rintro rfl
    exact hpage hc
  have hkeep : ∀ c ∈ query.toList, (c != '#') = true := by
    intro c hc
    refine bne_iff_ne.2 ?_
    rintro rfl
    exact hquery hc
  have htext : (page ++ "?" ++ query).toList = page.toList ++ '?' :: query.toList := by
    simp [String.toList_append]
  rw [queryOf, htext, List.dropWhile_append_of_pos hskip]
  simp [List.takeWhile_eq_self_iff.2 hkeep]

/-- **Google is told what is configured.**  Where the sign-in sends the browser to a page, it is
Google's, and the query of the URL reads back as the six parameters, whatever characters the client
id and the redirect URI contain. -/
theorem googleRedirect_params {google : GoogleConfig} {location : String}
    (h : googleRedirect google = .redirect location) :
    (googleAuthPage ++ "?").toList <+: location.toList ∧
      ∃ clientId redirectUri, google.googleClientId = some clientId ∧
        google.googleRedirectUri = some redirectUri ∧
        Codec.UrlEncoded.parse (queryOf location) = googleAuthParams clientId redirectUri := by
  unfold googleRedirect at h
  split at h
  · rename_i clientId redirectUri hid huri
    cases h
    refine ⟨?_, clientId, redirectUri, (Option.filter_eq_some_iff.1 hid).1,
      (Option.filter_eq_some_iff.1 huri).1, ?_⟩
    · rw [String.toList_append (s := googleAuthPage ++ "?")]
      exact List.prefix_append ..
    · have hfragment : Codec.UrlEncoded.Separates '#' := by decide
      rw [queryOf_append (by decide) (hfragment.notMem_serialize (by decide) (by decide) _),
        Codec.UrlEncoded.parse_serialize]
  · cases h

theorem googleRedirect_params_sample : ∃ location, googleRedirect
    { googleClientId := some "id&1", googleRedirectUri := some "https://a.b/c?d=é#e" } =
      .redirect location ∧ Codec.UrlEncoded.parse (queryOf location) =
        googleAuthParams "id&1" "https://a.b/c?d=é#e" := by
  refine ⟨_, rfl, ?_⟩
  obtain ⟨-, clientId, redirectUri, hid, huri, hparams⟩ := googleRedirect_params
    (show googleRedirect
      { googleClientId := some "id&1", googleRedirectUri := some "https://a.b/c?d=é#e" } =
        .redirect _ from rfl)
  cases hid
  cases huri
  exact hparams

end Routes

end HelixServer
