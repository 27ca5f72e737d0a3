import HelixServer.Services.Guard

/-!
# The routes that create credentials

`routes/vc` and `routes/agent`: issuing a credential, generating an enrollment token, and the two
ways to redeem a token.  A route looks up the account before the core call and links the new key
to it after.

The handlers of `routes/agent` catch every error and answer with its mapped status; here such a
request ends with the error itself.
-/

namespace HelixServer

namespace AccountLinkRepository

/-- `link`. -/
def link (table : AccountLinkTable) (key accountId : String) : Promise Unit :=
  await (.links table (.link key accountId))

/-- `getAccountId`. -/
def getAccountId (table : AccountLinkTable) (key : String) : Promise (Option String) :=
  await (.links table (.getAccountId key))

end AccountLinkRepository

namespace Routes

variable (cfg : Config)

/-- `if (accountId) await linkRepository.link(key, accountId)`. -/
def linkIf (table : AccountLinkTable) (key : String) (accountId : Option String) : Promise Unit :=
  match truthy accountId with
  | some a => AccountLinkRepository.link table key a
  | none => return ()

/-- What the gated routes do for a hosted account after the core call: link the result to the
account, and start to log the event that counts it. -/
def linkAndLog (table : AccountLinkTable) (key eventType : String)
    (payload : String → AuditPayload) (accountId : Option String) : Promise Unit :=
  match truthy accountId with
  | some a => do
    AccountLinkRepository.link table key a
    await (.audit (.logDetached eventType (payload a)))
  | none => return ()

/-- The caller of `POST /v1/vcs`. -/
def issueVCCaller (request : Request) : Promise (Option String) :=
  if cfg.accountOrAdminGuardDeps then
    resolveAccountOrAdmin cfg request true (Quota.of accountVcIssued cfg.vcIssuanceDailyQuota)
  else do
    requireAdmin cfg request
    return none

/-- `POST /v1/vcs`: the id of the issued credential. -/
def issueVC (request : Request) (params : Json) : Promise String := do
  let accountId ← issueVCCaller cfg request
  let vcId ← await (.core (.issueVC params request.id))
  linkAndLog .vcAccountLinks vcId accountVcIssued
    (fun a => [("requestId", .str request.id), ("accountId", .str a), ("vcId", .str vcId)])
      accountId
  return vcId

/-- The caller of `POST /v1/enrollment-tokens`. -/
def enrollmentTokensCaller (request : Request) : Promise (Option String) :=
  if cfg.accountOrAdminGuardDeps then
    resolveAccountOrAdmin cfg request false
      (Quota.of accountEnrollmentTokenGenerated cfg.enrollmentTokenDailyQuota)
  else return none

/-- `POST /v1/enrollment-tokens`: the token. -/
def enrollmentTokens (request : Request) (body : EnrollmentTokenBody) : Promise String := do
  let accountId ← enrollmentTokensCaller cfg request
  let token ← await (.core (.generateEnrollmentToken body request.id))
  let tokenHash := cfg.runtime.hashToken token
  linkAndLog .enrollmentTokenAccountLinks tokenHash accountEnrollmentTokenGenerated
    (fun a => [("requestId", .str request.id), ("accountId", .str a),
      ("tokenIdHash", .str tokenHash)]) accountId
  return token

/-- A core call between the look-up of the account of `key` and the link of its result to that
account: the shape of the three redeeming routes. -/
def redeem (from_ : AccountLinkTable) (key : String) (o : CoreOp) (to_ : AccountLinkTable) :
    Promise String := do
  let accountId ← AccountLinkRepository.getAccountId from_ key
  let result ← await (.core o)
  linkIf to_ result accountId
  return result

/-- `POST /v1/enroll`: the id of the credential. -/
def enroll (requestId : String) (body : EnrollBody) : Promise String :=
  redeem .enrollmentTokenAccountLinks (cfg.runtime.hashToken body.bootstrapToken)
    (.enroll body requestId) .vcAccountLinks

/-- `POST /v1/onboard`: the id of the challenge. -/
def onboard (requestId : String) (body : OnboardBody) : Promise String :=
  redeem .enrollmentTokenAccountLinks (cfg.runtime.hashToken body.enrollmentToken)
    (.processOnboardStep1 body requestId) .challengeAccountLinks

/-- `POST /v1/onboard/verify`: the id of the credential. -/
def onboardVerify (requestId : String) (body : OnboardVerifyBody) : Promise String :=
  redeem .challengeAccountLinks body.challengeId (.processOnboardVerify body requestId)
    .vcAccountLinks

end Routes

end HelixServer
