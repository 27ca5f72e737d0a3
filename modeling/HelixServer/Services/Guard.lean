import HelixServer.Services.AuthService

/-!
# The guard of the hosted routes, and the daily quota

`services/auth/account-or-admin-guard.ts` and `services/auth/quota.ts`: a request is made by the
operator (admin key), by a hosted account (bearer token), or by nobody.  The quota counts the rows
of the account in the audit log of the last 24 hours.
-/

namespace HelixServer

/-- A header that was sent once or several times. -/
inductive HeaderValue where
  | one (value : String)
  | many (values : List String)

/-- A request, as far as the guard reads it. -/
structure Request where
  id : String
  headers : List (String × HeaderValue)

/-- `getHeader`: the header, or the first of several. -/
def Request.getHeader (request : Request) (name : String) : Option String :=
  match request.headers.find? (·.1 == name) with
  | none => none
  | some (_, .one value) => some value
  | some (_, .many values) => values.head?

/-- A string that is neither missing nor empty: what JavaScript takes for true. -/
def truthy (s : Option String) : Option String := s.filter (· != "")

/-- The token of an `authorization: Bearer …` header. -/
def Request.bearerToken (request : Request) : Option String :=
  match request.getHeader "authorization" with
  | none => none
  | some authHeader =>
    if "Bearer ".toList.isPrefixOf authHeader.toList then
      truthy (some (String.ofList (authHeader.toList.drop 7)))
    else none

/-- The submitted admin key is the configured one. -/
def Request.isAdmin (cfg : Config) (request : Request) : Bool :=
  (truthy cfg.adminApiKey).isSome && request.getHeader "x-admin-api-key" == cfg.adminApiKey

/-- `ONE_DAY_MS`. -/
def oneDayMs : ℕ := 24 * 60 * 60 * 1000

/-- `ACCOUNT_QUOTA_EVENTS.VC_ISSUED`. -/
def accountVcIssued : String := "ACCOUNT_VC_ISSUED"

/-- `ACCOUNT_QUOTA_EVENTS.ENROLLMENT_TOKEN_GENERATED`. -/
def accountEnrollmentTokenGenerated : String := "ACCOUNT_ENROLLMENT_TOKEN_GENERATED"

/-- The query of `assertUnderDailyQuota`. -/
def quotaQuery (eventType : String) (since : ℕ) : AuditQuery where
  eventType := some eventType
  since := some since
  limit := 100000

/-- `rows.filter((row) => row.payload['accountId'] === accountId).length`. -/
def countForAccount (accountId : String) (rows : List AuditLogRow) : ℕ :=
  rows.countP fun row => row.payload.getString "accountId" == some accountId

/-- `assertUnderDailyQuota`. -/
def assertUnderDailyQuota (accountId eventType : String) (dailyLimit : ℕ) : Promise Unit := do
  let since := (← dateNow) - oneDayMs
  let rows ← await (.audit (.list (quotaQuery eventType since)))
  if dailyLimit ≤ countForAccount accountId rows then
    let now ← dateNow
    .raise (.accountQuotaExceeded
      ("Daily limit of " ++ toString dailyLimit ++ " for " ++ eventType ++
      " reached for this account. Try again after " ++ toISOString (now + oneDayMs) ++ "."))
  else
    return ()

/-- The quota of a route: the event it counts and its daily limit. -/
structure Quota where
  eventType : String
  dailyLimit : ℕ

/-- A configured limit that is not zero. -/
def Quota.of (eventType : String) (dailyLimit : Option ℕ) : Option Quota :=
  (dailyLimit.filter (· != 0)).map fun n => ⟨eventType, n⟩

/-- `if (options.quota) await assertUnderDailyQuota(..)`. -/
def assertQuota (quota : Option Quota) (accountId : String) : Promise Unit :=
  match quota with
  | some q => assertUnderDailyQuota accountId q.eventType q.dailyLimit
  | none => return ()

/-- `resolveAccountOrAdmin` for a request with a bearer token. -/
def resolveBearer (cfg : Config) (bearerToken : String) (quota : Option Quota) :
    Promise (Option String) := do
  let now ← dateNow
  match cfg.verifyAccessToken bearerToken now with
  | .error e => .raise e
  | .ok payload =>
    let account ← AccountRepository.findById payload.accountId
    if (account.bind (·.emailVerifiedAt)).isNone then
      .raise .emailNotVerified
    else
      assertQuota quota payload.accountId
      return some payload.accountId

/-- `resolveAccountOrAdmin`: the hosted account that makes the request, if one does. -/
def resolveAccountOrAdmin (cfg : Config) (request : Request) (requireAuth : Bool)
    (quota : Option Quota) : Promise (Option String) :=
  if request.isAdmin cfg then
    return none
  else
    match request.bearerToken with
    | some bearerToken => resolveBearer cfg bearerToken quota
    | none => if requireAuth then .raise .adminAuthRequired else return none

/-- `requireAdmin` of the routes. -/
def requireAdmin (cfg : Config) (request : Request) : Promise Unit :=
  if request.isAdmin cfg then return () else .raise .adminAuthRequired

end HelixServer
