import HelixServer.Async.Protocol
import HelixServer.Routes.AuditLog

/-!
# The server as a machine

* `Call`, `Reply` : the requests modelled and their replies.
* `Call.prog` : the program that serves each request.
* `bearerAccount` : the account of the access token that a request carries.
* `server cfg core` : the machine.  Its runs are the interleavings of any number of requests, each
  awaited call a scheduling point, with rejected calls, passing time and late log writes.
-/

namespace HelixServer

open Async

/-- A request to the server. -/
inductive Call where
  | register (input : RegisterInput)
  | login (input : LoginInput)
  | loginWithGoogle (profile : GoogleProfile)
  | refresh (refreshToken : String)
  | logout (refreshToken : String)
  | verifyEmail (token : String)
  | resendVerificationEmail (email : String)
  | issueVC (request : Request) (params : Json)
  | enrollmentTokens (request : Request) (body : EnrollmentTokenBody)
  | enroll (requestId : String) (body : EnrollBody)
  | onboard (requestId : String) (body : OnboardBody)
  | onboardVerify (requestId : String) (body : OnboardVerifyBody)
  | listVCs (request : Request) (query : ListVCsQuery)
  | revokeVC (request : Request) (vcId : String)
  | renewVC (request : Request) (vcId : String) (overrides : Json)
  | ingest (route : IngestRoute) (request : Request) (body : Json)
  | listAuditLog (request : Request) (query : ListAuditLogQuery)

/-- How a condition on calls is decided.  Where nothing is said, it is no condition. -/
structure Call.Decides (P : Call → Prop) where
  register : ∀ input, Decidable (P (.register input)) := by exact fun _ => .isTrue trivial
  login : ∀ input, Decidable (P (.login input)) := by exact fun _ => .isTrue trivial
  loginWithGoogle : ∀ profile, Decidable (P (.loginWithGoogle profile)) :=
    by exact fun _ => .isTrue trivial
  refresh : ∀ refreshToken, Decidable (P (.refresh refreshToken)) :=
    by exact fun _ => .isTrue trivial
  logout : ∀ refreshToken, Decidable (P (.logout refreshToken)) := by exact fun _ => .isTrue trivial
  verifyEmail : ∀ token, Decidable (P (.verifyEmail token)) := by exact fun _ => .isTrue trivial
  resendVerificationEmail : ∀ email, Decidable (P (.resendVerificationEmail email)) :=
    by exact fun _ => .isTrue trivial
  issueVC : ∀ request params, Decidable (P (.issueVC request params)) :=
    by exact fun _ _ => .isTrue trivial
  enrollmentTokens : ∀ request body, Decidable (P (.enrollmentTokens request body)) :=
    by exact fun _ _ => .isTrue trivial
  enroll : ∀ requestId body, Decidable (P (.enroll requestId body)) :=
    by exact fun _ _ => .isTrue trivial
  onboard : ∀ requestId body, Decidable (P (.onboard requestId body)) :=
    by exact fun _ _ => .isTrue trivial
  onboardVerify : ∀ requestId body, Decidable (P (.onboardVerify requestId body)) :=
    by exact fun _ _ => .isTrue trivial
  listVCs : ∀ request query, Decidable (P (.listVCs request query)) :=
    by exact fun _ _ => .isTrue trivial
  revokeVC : ∀ request vcId, Decidable (P (.revokeVC request vcId)) :=
    by exact fun _ _ => .isTrue trivial
  renewVC : ∀ request vcId overrides, Decidable (P (.renewVC request vcId overrides)) :=
    by exact fun _ _ _ => .isTrue trivial
  ingest : ∀ route request body, Decidable (P (.ingest route request body)) :=
    by exact fun _ _ _ => .isTrue trivial
  listAuditLog : ∀ request query, Decidable (P (.listAuditLog request query)) :=
    by exact fun _ _ => .isTrue trivial

/-- The decision. -/
@[reducible] def Call.Decides.decide {P : Call → Prop} (d : Call.Decides P) : DecidablePred P
  | .register input => d.register input
  | .login input => d.login input
  | .loginWithGoogle profile => d.loginWithGoogle profile
  | .refresh refreshToken => d.refresh refreshToken
  | .logout refreshToken => d.logout refreshToken
  | .verifyEmail token => d.verifyEmail token
  | .resendVerificationEmail email => d.resendVerificationEmail email
  | .issueVC request params => d.issueVC request params
  | .enrollmentTokens request body => d.enrollmentTokens request body
  | .enroll requestId body => d.enroll requestId body
  | .onboard requestId body => d.onboard requestId body
  | .onboardVerify requestId body => d.onboardVerify requestId body
  | .listVCs request query => d.listVCs request query
  | .revokeVC request vcId => d.revokeVC request vcId
  | .renewVC request vcId overrides => d.renewVC request vcId overrides
  | .ingest route request body => d.ingest route request body
  | .listAuditLog request query => d.listAuditLog request query

/-- What a request ends with. -/
inductive Reply where
  | session (account : AccountSummary) (tokens : AuthTokens)
  | tokens (tokens : AuthTokens)
  | account (account : AccountSummary)
  | done
  | vc (vcId : String)
  | enrollmentToken (token : String)
  | challenge (challengeId : String)
  | vcs (summaries : List VcSummary)
  | revoked (result : Json)
  | renewed (vcId : String)
  | recorded (eventType timestamp : String)
  | auditLog (entries : List AuditEntry)

/-- The program of a request. -/
def Call.prog (cfg : Config) : Call → Promise Reply
  | .register input => do
    let (account, tokens) ← AuthService.register cfg input
    return .session account tokens
  | .login input => do
    let (account, tokens) ← AuthService.login cfg input
    return .session account tokens
  | .loginWithGoogle profile => do
    let (account, tokens) ← AuthService.loginWithGoogle cfg profile
    return .session account tokens
  | .refresh refreshToken => return .tokens (← AuthService.refresh cfg refreshToken)
  | .logout refreshToken => do
    AuthService.logout cfg refreshToken
    return .done
  | .verifyEmail token => return .account (← AuthService.verifyEmail cfg token)
  | .resendVerificationEmail email => do
    AuthService.resendVerificationEmail cfg email
    return .done
  | .issueVC request params => return .vc (← Routes.issueVC cfg request params)
  | .enrollmentTokens request body =>
    return .enrollmentToken (← Routes.enrollmentTokens cfg request body)
  | .enroll requestId body => return .vc (← Routes.enroll cfg requestId body)
  | .onboard requestId body => return .challenge (← Routes.onboard cfg requestId body)
  | .onboardVerify requestId body => return .vc (← Routes.onboardVerify requestId body)
  | .listVCs request query => return .vcs (← Routes.listVCs cfg request query)
  | .revokeVC request vcId => return .revoked (← Routes.revokeVC cfg request vcId)
  | .renewVC request vcId overrides =>
    return .renewed (← Routes.renewVC cfg request vcId overrides)
  | .ingest route request body => do
    let (eventType, timestamp) ← Routes.ingest cfg route request body
    return .recorded eventType timestamp
  | .listAuditLog request query => return .auditLog (← Routes.listAuditLog cfg request query)

/-- The server. -/
abbrev server (cfg : Config) (core : Core) : Machine where
  sig := serverSig
  Err := HelixError
  World := World core
  Call := Call
  Reply := Reply
  Env := EnvMove
  exec := fun o w => o.exec cfg w
  fallible := Op.fallible
  fault := .rejected
  prog := Call.prog cfg
  env := fun x w => x.exec w

/-- A state of the server. -/
abbrev State (cfg : Config) (core : Core) := Sys (server cfg core)

/-- In a run from accounts whose ids are not empty, no account has an empty id. -/
theorem ids_of_run {cfg : Config} {core : Core} {C : Discipline (server cfg core)}
    {s₀ s : State cfg core} (h : Run C s₀ s) (hids : ∀ r ∈ s₀.world.accounts, r.id ≠ "") :
    ∀ r ∈ s.world.accounts, r.id ≠ "" :=
  h.world (I := fun w : World core => ∀ r ∈ w.accounts, r.id ≠ "") hids
    (fun _ _ hw => Op.exec_ids hw) fun _ _ _ hw he => by rwa [EnvMove.exec_accounts he]

/-! ### What a request has shown -/

section Shown

variable {cfg : Config} {core : Core}

/-- The account that a call looks up. -/
def lookedUp : Op → Option String
  | .accounts (.findById a) => some a
  | _ => none

/-- The account whose access token a request carries: the guard looks it up. -/
def bearerAccount (t : Task (server cfg core)) : Option String :=
  t.done.findSome? fun e => lookedUp e.op

theorem bearerAccount_resume {t : Task (server cfg core)} {w : World core} {o : Op} {r : o.Res}
    {p : Promise Reply} : bearerAccount (t.resume w o r p) = (bearerAccount t).or (lookedUp o) := by
  simp [bearerAccount, Option.or]

end Shown

/-- The rule of the guard: it passes the operator, and where no account is required a request
without an access token; any other request presents one. -/
theorem obeys_guard {cfg : Config} {core : Core} {Q : Type} {P : Protocol (server cfg core) Q}
    {post : Q → Option String → Prop} {q : Q} {request : Request} {requireAuth : Bool}
    {quota : Option Quota} (hraise : P.raises q .adminAuthRequired)
    (hadmin : request.isAdmin cfg = true → post q none)
    (hnone : requireAuth = false → request.bearerToken = none → post q none)
    (hbearer : ∀ token, request.bearerToken = some token →
      P.Obeys post q (resolveBearer cfg token quota)) :
    P.Obeys post q (resolveAccountOrAdmin cfg request requireAuth quota) := by
  cases hoperator : request.isAdmin cfg with
  | true =>
    simp only [resolveAccountOrAdmin, hoperator, if_true]
    exact hadmin hoperator
  | false =>
    simp only [resolveAccountOrAdmin, hoperator, Bool.false_eq_true, if_false]
    cases htoken : request.bearerToken with
    | some token => exact hbearer token htoken
    | none =>
      cases requireAuth with
      | true => exact hraise
      | false => exact hnone rfl htoken

/-! ### A concrete server

A configuration on which runs can be evaluated: the hashes are the identity, the random sources
count the draws, and the core services number what they create. -/

/-- The number that a text of decimal digits is read as. -/
def readNat (text : String) : Option ℕ :=
  if text.toList.all Char.isDigit && !text.toList.isEmpty then
    some (text.toList.foldl (fun n c => 10 * n + (c.toNat - 48)) 0)
  else none

/-- A runtime whose functions are computed. -/
def Runtime.sample : Runtime where
  toLowerCase s := String.ofList (s.toList.map Char.toLower)
  mathRandom draw := [nibble (draw / 256), nibble (draw / 16), nibble draw]
  randomBytes draw size := List.replicate size (UInt8.ofNat draw)
  sha256Hex text := text
  hmacSha256 secret text := utf8 (secret ++ text)
  argon2Hash _ password := password
  argon2Verify passwordHash password := passwordHash == password
  generateKeyPair draw := ⟨toString draw, toString draw⟩
  derivePublicKey privateKey := privateKey
  aes256Gcm _ _ plaintext := (plaintext, [])
  aes256GcmOpen _ _ ciphertext _ := some ciphertext
  buildDIDDocument did publicKey := ⟨did, [⟨publicKey⟩]⟩
  extractPublicKeyHex document := (document.verificationMethod.map (·.publicKeyMultibase)).headD ""
  hashToken token := token
  base64UrlDecodeToString input := input
  jsonParse text := some (.obj [("accountId", .str text), ("exp", .num 1)])
  parseInt text := (readNat text).map Int.ofNat
  number text := (readNat text).map fun n => (n : ℚ)
  parseDate text := readNat text

/-- A configuration with computed functions. -/
def Config.sample : Config := { runtime := .sample, storage := .sqlite }

/-- What the sample core has created: a counter, the tokens, each challenge with its token, and what
it lists. -/
structure CoreState where
  next : ℕ := 0
  tokens : List String := []
  challenges : List (String × String) := []
  vcs : List VcSummary := []

/-- A core that numbers its credentials, tokens and challenges, and takes only its own. -/
def Core.sample : Core where
  State := CoreState
  exec o c :=
    let created := fun kind => kind ++ ":" ++ toString c.next
    match o with
    | .issueVC _ _ => (.ok (created "vc"), { c with next := c.next + 1 })
    | .generateEnrollmentToken _ _ =>
      (.ok (created "tok"), { c with next := c.next + 1, tokens := created "tok" :: c.tokens })
    | .enroll body _ =>
      if body.bootstrapToken ∈ c.tokens then (.ok (created "vc"), { c with next := c.next + 1 })
      else (.error (.core "TOKEN_INVALID"), c)
    | .processOnboardStep1 body _ =>
      if body.enrollmentToken ∈ c.tokens then
        (.ok (created "chl"), { c with
          next := c.next + 1
          challenges := (created "chl", body.enrollmentToken) :: c.challenges })
      else (.error (.core "TOKEN_INVALID"), c)
    | .processOnboardVerify body _ =>
      if c.challenges.any (·.1 == body.challengeId) then
        (.ok (created "vc"), { c with next := c.next + 1 })
      else (.error (.core "CHALLENGE_INVALID"), c)
  vcs o c :=
    match o with
    | .listVCs filter =>
      (.ok ((c.vcs.filter fun v => filter.subjectDid.all (· == v.subjectDid) &&
        filter.status.all (· == v.status)).take (filter.limit.getD c.vcs.length)), c)
    | .revokeVC _ _ => (.ok .null, c)
    | .renewVC _ _ _ => (.ok ("vc:" ++ toString c.next), { c with next := c.next + 1 })
  entryTime _ now := now
  listAuditLog q rows := rows.filter q.matches

/-- The empty world of the sample server. -/
def World.sample : World Core.sample := .empty 0 0 {}

/-- A configuration whose access tokens name their account. -/
def Config.sampleHosted : Config :=
  { Config.sample with verifyAccessToken := fun token _ => .ok ⟨token, [], 0, 0, ""⟩ }

/-- A world with a verified account. -/
def World.sampleHosted : World Core.sample :=
  { World.sample with
    accounts := [{ id := "acct:1", email := "a@b.c", passwordHash := none, googleId := none,
                   issuerDid := none, emailVerifiedAt := some 0, emailVerificationTokenHash := none,
                   emailVerificationExpiresAt := none, companyName := none,
                   fieldOfOperation := none, createdAt := 0, updatedAt := 0 }] }

/-- A request with the access token of that account. -/
def sampleRequest : Request := ⟨"req", [("authorization", .one "Bearer acct:1")]⟩

/-- The refresh token that the sample server generates at a draw. -/
def sampleToken (draw : ℕ) : String := opaqueToken "rft" (Runtime.sample.randomBytes draw 32)

/-- A sign-in that opens a session with the token `sampleToken 12`. -/
def sampleSignIn : List (Label (server Config.sample Core.sample)) :=
  .start (.loginWithGoogle ⟨"g", "a@b.c", true⟩) :: List.replicate 17 (.step 0)

end HelixServer
