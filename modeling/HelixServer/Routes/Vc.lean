import HelixServer.Routes.Issuance

/-!
# The routes on credentials that exist

`routes/vc`: the list, which a hosted account sees filtered to its own credentials, the revocation,
which a hosted account can ask for its own credentials only, and the renewal, which is the
operator's.
-/

namespace HelixServer

namespace AccountLinkRepository

/-- `listKeysForAccount`. -/
def listKeysForAccount (table : AccountLinkTable) (accountId : String) : Promise (List String) :=
  await (.links table (.listKeysForAccount accountId))

end AccountLinkRepository

/-- The query of `GET /v1/vcs`. -/
structure ListVCsQuery where
  subjectDid : Option String := none
  status : Option String := none
  limit : Option String := none

/-- `VC_STATUSES`. -/
def vcStatuses : List String := ["active", "revoked", "expired"]

namespace Routes

variable (cfg : Config)

/-- The caller of a route with `requireAuth` and without a quota. -/
def authenticated (request : Request) : Promise (Option String) :=
  if cfg.accountOrAdminGuardDeps then resolveAccountOrAdmin cfg request true none
  else do
    requireAdmin cfg request
    return none

/-- The filter of a list query, or the error that it is refused with. -/
def vcFilter (rt : Runtime) (query : ListVCsQuery) : Except HelixError VcFilter :=
  match truthy query.status with
  | some status =>
    if vcStatuses.contains status then withLimit
    else .error (.validation ("Invalid status filter: " ++ status))
  | none => withLimit
where
  withLimit : Except HelixError VcFilter :=
    match query.limit with
    | none => .ok ⟨query.subjectDid, query.status, none⟩
    | some text =>
      match rt.parseInt text with
      | none => .error (.validation ("Invalid limit: " ++ text))
      | some n =>
        if n < 1 then .error (.validation ("Invalid limit: " ++ text))
        else .ok ⟨query.subjectDid, query.status, some n.toNat⟩

/-- `if (!accountId) result else result.filter(owned)`. -/
def ownedSummaries (result : List VcSummary) (accountId : Option String) :
    Promise (List VcSummary) :=
  match truthy accountId with
  | none => return result
  | some a => do
    let ownedVcIds ← AccountLinkRepository.listKeysForAccount .vcAccountLinks a
    return result.filter fun summary => ownedVcIds.contains summary.vcId

/-- `GET /v1/vcs`. -/
def listVCs (request : Request) (query : ListVCsQuery) : Promise (List VcSummary) := do
  let accountId ← authenticated cfg request
  match vcFilter cfg.runtime query with
  | .error e => .raise e
  | .ok filter =>
    let result ← await (.vcs (.listVCs filter))
    ownedSummaries result accountId

/-- A hosted account may revoke its own credentials only. -/
def assertOwner (vcId : String) (accountId : Option String) : Promise Unit :=
  match truthy accountId with
  | none => return ()
  | some a => do
    let owner ← AccountLinkRepository.getAccountId .vcAccountLinks vcId
    if owner == some a then return () else .raise (.vcNotFound "Credential not found")

/-- `POST /v1/vcs/:vcId/revoke`. -/
def revokeVC (request : Request) (vcId : String) : Promise Json := do
  let accountId ← authenticated cfg request
  assertOwner vcId accountId
  await (.vcs (.revokeVC vcId request.id))

/-- `POST /v1/vcs/:vcId/renew`: the id of the new credential. -/
def renewVC (request : Request) (vcId : String) (overrides : Json) : Promise String := do
  requireAdmin cfg request
  await (.vcs (.renewVC vcId overrides request.id))

end Routes

end HelixServer
