import HelixServer.Services.KeyCustody

/-!
# The auth service

`services/auth/auth.service.ts`: registration, the two ways to sign in, rotation of refresh tokens
with reuse detection, logout, and e-mail verification.  Each method is a `Promise`: one call for
every `await` of the source, in its order, with the clock and the random source read where the
source reads them.
-/

namespace HelixServer

/-- `AuthTokens`. -/
structure AuthTokens where
  accessToken : String
  refreshToken : String
  expiresIn : ℕ

/-- `AccountSummary`. -/
structure AccountSummary where
  id : String
  email : String
  issuerDid : Option String
  hasPassword : Bool
  hasGoogle : Bool
  emailVerified : Bool
  companyName : Option String
  fieldOfOperation : Option String

/-- `toSummary`. -/
def toSummary (account : AccountRecord) : AccountSummary where
  id := account.id
  email := account.email
  issuerDid := account.issuerDid
  hasPassword := account.passwordHash.isSome
  hasGoogle := account.googleId.isSome
  emailVerified := account.emailVerifiedAt.isSome
  companyName := account.companyName
  fieldOfOperation := account.fieldOfOperation

/-- `RegisterInput`. -/
structure RegisterInput where
  email : String
  password : String
  companyName : Option String := none
  fieldOfOperation : Option String := none

/-- `LoginInput`. -/
structure LoginInput where
  email : String
  password : String

/-- `GoogleProfile`. -/
structure GoogleProfile where
  googleId : String
  email : String
  emailVerified : Bool

namespace AccountRepository

/-- `create`. -/
def create (data : AccountCreateData) : Promise AccountRecord := await (.accounts (.create data))

/-- `findById`. -/
def findById (id : String) : Promise (Option AccountRecord) := await (.accounts (.findById id))

/-- `findByEmail`. -/
def findByEmail (email : String) : Promise (Option AccountRecord) :=
  await (.accounts (.findByEmail email))

/-- `findByGoogleId`. -/
def findByGoogleId (googleId : String) : Promise (Option AccountRecord) :=
  await (.accounts (.findByGoogleId googleId))

/-- `linkGoogleId`. -/
def linkGoogleId (id googleId : String) : Promise AccountRecord :=
  await (.accounts (.update id [.googleId (some googleId)]))

/-- `setIssuerDid`. -/
def setIssuerDid (id issuerDid : String) : Promise AccountRecord :=
  await (.accounts (.update id [.issuerDid (some issuerDid)]))

/-- `setEmailVerificationToken`. -/
def setEmailVerificationToken (id tokenHash : String) (expiresAt : ℕ) : Promise AccountRecord :=
  await (.accounts (.update id
    [.emailVerificationTokenHash (some tokenHash), .emailVerificationExpiresAt (some expiresAt)]))

/-- `markEmailVerified`. -/
def markEmailVerified (id : String) : Promise AccountRecord := do
  let now ← dateNow
  await (.accounts (.update id [.emailVerifiedAt (some now), .emailVerificationTokenHash none,
    .emailVerificationExpiresAt none]))

/-- `findByEmailVerificationTokenHash`. -/
def findByEmailVerificationTokenHash (tokenHash : String) : Promise (Option AccountRecord) :=
  await (.accounts (.findByEmailVerificationTokenHash tokenHash))

end AccountRepository

namespace RefreshTokenRepository

/-- `create`. -/
def create (data : RefreshTokenCreateData) : Promise RefreshTokenRecord :=
  await (.refreshTokens (.create data))

/-- `findByTokenHash`. -/
def findByTokenHash (tokenHash : String) : Promise (Option RefreshTokenRecord) :=
  await (.refreshTokens (.findByTokenHash tokenHash))

/-- `revoke`. -/
def revoke (id : String) (replacedByTokenId : Option String := none) : Promise Unit :=
  await (.refreshTokens (.revoke id replacedByTokenId))

/-- `revokeAllForAccount`. -/
def revokeAllForAccount (accountId : String) : Promise Unit :=
  await (.refreshTokens (.revokeAllForAccount accountId))

end RefreshTokenRepository

/-- `argon2.hash`. -/
def argon2Hash (password : String) : Promise String := await (.runtime (.argon2Hash password))

/-- `argon2.verify`. -/
def argon2Verify (passwordHash password : String) : Promise Bool :=
  await (.runtime (.argon2Verify passwordHash password))

/-- `await auditLogger.log(eventType, payload)`. -/
def auditLog (eventType : String) (payload : AuditPayload) : Promise Unit :=
  await (.audit (.log eventType payload))

/-- The payload fields most events of the service start with. -/
def accountFields (accountId : String) : AuditPayload :=
  [("requestId", .str ("auth:" ++ accountId)), ("accountId", .str accountId)]

namespace AuthService

variable (cfg : Config)

/-- `sendVerificationEmail`. -/
def sendVerificationEmail (accountId email : String) : Promise Unit := do
  if cfg.emailSender then
    let rawToken ← generateOpaqueToken "vrf"
    let expiresAt := (← dateNow) + cfg.emailVerificationTtlHours * 60 * 60 * 1000
    let _ ← AccountRepository.setEmailVerificationToken accountId
      (hashOpaqueToken cfg.runtime rawToken) expiresAt
    let verificationUrl := cfg.consoleBaseUrl ++ "/account/verify-email?token=" ++ rawToken
    await (.sendMail { recipient := email, verificationUrl := verificationUrl })
  else
    return ()

/-- `issueSession`.  Token ids are never empty, so the test on `replacingTokenId` is for its
presence. -/
def issueSession (accountId : String) (replacingTokenId : Option String) : Promise AuthTokens := do
  let rawRefreshToken ← generateRefreshToken
  let tokenHash := hashRefreshToken cfg.runtime rawRefreshToken
  let expiresAt := (← dateNow) + cfg.refreshTokenTtlDays * 24 * 60 * 60 * 1000
  let created ← RefreshTokenRepository.create
    { accountId := accountId, tokenHash := tokenHash, expiresAt := expiresAt }
  match replacingTokenId with
  | some id => RefreshTokenRepository.revoke id (some created.id)
  | none => pure ()
  let accessToken ← issueAccessToken cfg.runtime accountId cfg.accessTokenSecret
    cfg.accessTokenTtlSeconds
  return { accessToken := accessToken, refreshToken := rawRefreshToken,
           expiresIn := cfg.accessTokenTtlSeconds }

/-- `register`. -/
def register (input : RegisterInput) : Promise (AccountSummary × AuthTokens) := do
  let email := normalizeEmail cfg.runtime input.email
  match ← AccountRepository.findByEmail email with
  | some _ => .raise .accountAlreadyExists
  | none =>
    let passwordHash ← argon2Hash input.password
    let account ← AccountRepository.create
      { email := email, passwordHash := some passwordHash, googleId := none,
        companyName := input.companyName, fieldOfOperation := input.fieldOfOperation }
    let issuerDid ← provisionAccountIssuerDid cfg account.id
    let withDid ← AccountRepository.setIssuerDid account.id issuerDid
    auditLog "ACCOUNT_REGISTERED" (accountFields account.id ++ [("issuerDid", .str issuerDid)])
    sendVerificationEmail cfg withDid.id withDid.email
    let tokens ← issueSession cfg account.id none
    return (toSummary withDid, tokens)

/-- `login`. -/
def login (input : LoginInput) : Promise (AccountSummary × AuthTokens) := do
  let email := normalizeEmail cfg.runtime input.email
  match ← AccountRepository.findByEmail email with
  | none =>
    auditLog "ACCOUNT_LOGIN_FAILED"
      [("requestId", .str "auth:unknown"), ("email", .str email), ("reason", .str "not_found")]
    .raise .invalidCredentials
  | some account =>
    match account.passwordHash with
    | none => .raise .accountHasNoPassword
    | some passwordHash =>
      let valid ← argon2Verify passwordHash input.password
      if valid then
        auditLog "ACCOUNT_LOGIN_SUCCEEDED"
          (accountFields account.id ++ [("method", .str "password")])
        let tokens ← issueSession cfg account.id none
        return (toSummary account, tokens)
      else
        auditLog "ACCOUNT_LOGIN_FAILED"
          (accountFields account.id ++ [("reason", .str "bad_password")])
        .raise .invalidCredentials

/-- `if (cond) account = await markEmailVerified(account.id)`. -/
def markVerifiedIf (cond : Bool) (account : AccountRecord) : Promise AccountRecord :=
  if cond then AccountRepository.markEmailVerified account.id else pure account

/-- `loginWithGoogle` when a profile's e-mail matches an account: link, do not create. -/
def linkByEmail (profile : GoogleProfile) (existingByEmail : AccountRecord) :
    Promise AccountRecord := do
  if profile.emailVerified then
    let linked ← AccountRepository.linkGoogleId existingByEmail.id profile.googleId
    let account ← markVerifiedIf linked.emailVerifiedAt.isNone linked
    auditLog "ACCOUNT_GOOGLE_LINKED" (accountFields account.id)
    return account
  else
    .raise (.accountNotFound "Google account email is not verified")

/-- `loginWithGoogle` when neither the Google id nor the e-mail matches: create. -/
def createFromGoogle (profile : GoogleProfile) (email : String) : Promise AccountRecord := do
  let created ← AccountRepository.create
    { email := email, passwordHash := none, googleId := some profile.googleId }
  let issuerDid ← provisionAccountIssuerDid cfg created.id
  let withDid ← AccountRepository.setIssuerDid created.id issuerDid
  let account ← markVerifiedIf profile.emailVerified withDid
  auditLog "ACCOUNT_REGISTERED"
    (accountFields created.id ++ [("issuerDid", .str issuerDid), ("method", .str "google")])
  return account

/-- The account that `loginWithGoogle` signs in: the one with the Google id, else the one with the
e-mail, else a new one. -/
def googleAccount (profile : GoogleProfile) : Promise AccountRecord := do
  match ← AccountRepository.findByGoogleId profile.googleId with
  | some account => return account
  | none =>
    let email := normalizeEmail cfg.runtime profile.email
    match ← AccountRepository.findByEmail email with
    | some existingByEmail => linkByEmail profile existingByEmail
    | none => createFromGoogle cfg profile email

/-- `loginWithGoogle`. -/
def loginWithGoogle (profile : GoogleProfile) : Promise (AccountSummary × AuthTokens) := do
  let account ← googleAccount cfg profile
  auditLog "ACCOUNT_LOGIN_SUCCEEDED" (accountFields account.id ++ [("method", .str "google")])
  let tokens ← issueSession cfg account.id none
  return (toSummary account, tokens)

/-- `refresh` with a token that has been rotated or revoked: burn every session of its account. -/
def burn (record : RefreshTokenRecord) : Promise AuthTokens := do
  RefreshTokenRepository.revokeAllForAccount record.accountId
  auditLog "REFRESH_TOKEN_REUSE_DETECTED"
    (accountFields record.accountId ++ [("refreshTokenId", .str record.id)])
  .raise .refreshTokenReuseDetected

/-- The end of `refresh` with a live token: exchange it for new tokens. -/
def rotate (record : RefreshTokenRecord) : Promise AuthTokens := do
  let tokens ← issueSession cfg record.accountId (some record.id)
  auditLog "REFRESH_TOKEN_ROTATED"
    (accountFields record.accountId ++ [("previousTokenId", .str record.id)])
  return tokens

/-- `refresh` with a token that is not revoked. -/
def rotateUnexpired (record : RefreshTokenRecord) : Promise AuthTokens := do
  let now ← dateNow
  if record.expiresAt ≤ now then .raise .refreshTokenExpired else rotate cfg record

/-- `refresh` after the look-up. -/
def refreshFound : Option RefreshTokenRecord → Promise AuthTokens
  | none => .raise .refreshTokenInvalid
  | some record => if record.revokedAt.isSome then burn record else rotateUnexpired cfg record

/-- `refresh`. -/
def refresh (refreshToken : String) : Promise AuthTokens := do
  let tokenHash := hashRefreshToken cfg.runtime refreshToken
  refreshFound cfg (← RefreshTokenRepository.findByTokenHash tokenHash)

/-- `logout`. -/
def logout (refreshToken : String) : Promise Unit := do
  let tokenHash := hashRefreshToken cfg.runtime refreshToken
  match ← RefreshTokenRepository.findByTokenHash tokenHash with
  | none => return ()
  | some record =>
    if record.revokedAt.isSome then
      return ()
    else
      RefreshTokenRepository.revoke record.id
      auditLog "ACCOUNT_LOGOUT" (accountFields record.accountId)

/-- `verifyEmail`. -/
def verifyEmail (token : String) : Promise AccountSummary := do
  let tokenHash := hashOpaqueToken cfg.runtime token
  match ← AccountRepository.findByEmailVerificationTokenHash tokenHash with
  | none => .raise .emailVerificationTokenInvalid
  | some account =>
    match account.emailVerificationExpiresAt with
    | none => .raise .emailVerificationTokenExpired
    | some expiresAt =>
      let now ← dateNow
      if expiresAt ≤ now then
        .raise .emailVerificationTokenExpired
      else
        let verified ← AccountRepository.markEmailVerified account.id
        return toSummary verified

/-- `resendVerificationEmail`. -/
def resendVerificationEmail (email : String) : Promise Unit := do
  match ← AccountRepository.findByEmail (normalizeEmail cfg.runtime email) with
  | none => return ()
  | some account =>
    if account.emailVerifiedAt.isSome then
      return ()
    else
      sendVerificationEmail cfg account.id account.email

end AuthService

end HelixServer
