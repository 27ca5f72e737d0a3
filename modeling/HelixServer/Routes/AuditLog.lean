import HelixServer.Routes.Vc

/-!
# The audit-log routes

`routes/audit-log`: three routes by which the operator records events, and the log, which a hosted
account sees filtered to the rows that are attributed to it, by the payload or by a link table.

* `vpVerificationEntry`, `consentEntry`, `activityEntry` : what each route logs for a body.
* `isAttributed` : whether a row is shown to an account.
* `AuditEntry.of` : how a row is shown.
-/

namespace HelixServer

/-- The keys of an object with a value that is not `undefined`. -/
def AuditPayload.ofFields (fields : List (String × Option Json)) : AuditPayload :=
  fields.filterMap fun f => f.2.map fun value => (f.1, value)

theorem AuditPayload.get_ofFields {fields : List (String × Option Json)} {key : String}
    (h : ∀ f ∈ fields, f.1 ≠ key) : (ofFields fields).get key = none := by
  simp only [get, ofFields, Option.map_eq_none_iff, List.find?_eq_none, List.mem_filterMap]
  rintro _ ⟨f, hf, hx⟩ hkey
  obtain ⟨v, -, rfl⟩ := Option.map_eq_some_iff.1 hx
  exact h f hf (eq_of_beq hkey)

/-- `asString`, as a value of an object. -/
def stringField (value : Option String) : Option Json := value.map .str

/-- `asStringArray`. -/
def asStringArray (value : Option Json) : Option Json :=
  match value with
  | some (.arr l) => some (.arr (l.filter fun item => item.asString.isSome))
  | _ => none

/-- `value` when it is a number. -/
def numberField (value : Option Json) : Option Json :=
  match value with
  | some (.num n) => some (.num n)
  | _ => none

/-- `INGESTIBLE_EVENTS`. -/
def ingestibleEvents : List String :=
  ["VC_ISSUED", "VC_PRESENTED", "VP_VERIFIED", "VP_REJECTED", "AUTHZ_GRANTED", "AUTHZ_DENIED",
    "TOOL_INVOKED", "CONSENT_GRANTED", "CONSENT_REVOKED"]

/-- An entry to log: the event, the timestamp the body gives, and the fields. -/
structure AuditEntryData where
  event : String
  timestamp : Option String
  fields : List (String × Option Json)

/-- The payload of an entry, logged at a time. -/
def AuditEntryData.payload (entry : AuditEntryData) (timestamp : String) : AuditPayload :=
  .ofFields (("event", some (.str entry.event)) :: ("timestamp", some (.str timestamp)) ::
    entry.fields)

/-- `POST /v1/audit-log/vp-verification`. -/
def vpVerificationEntry (requestId : String) (body : Json) : Except HelixError AuditEntryData :=
  let agentDid := body.getString "agentDid" <|> body.getString "subjectDid"
  match truthy (body.getString "vpId"), truthy agentDid,
      (body.getString "result").filter fun r => r == "success" || r == "rejected" with
  | some vpId, some agentDid, some result => .ok
      { event := if result == "success" then "VP_VERIFIED" else "VP_REJECTED"
        timestamp := body.getString "verifiedAt"
        fields :=
          [("requestId", some (.str requestId)), ("vpId", some (.str vpId)),
            ("agentDid", some (.str agentDid)), ("subjectDid", some (.str agentDid)),
            ("targetService", stringField (body.getString "targetService")),
            ("result", some (.str result)), ("reason", stringField (body.getString "reason")),
            ("delegationChain", body.prop "delegationChain"),
            ("delegatedFrom", stringField (body.getString "delegatedFrom")),
            ("delegatedTo", stringField (body.getString "delegatedTo")),
            ("parentVcId", stringField (body.getString "parentVcId")),
            ("delegationDepth", numberField (body.prop "delegationDepth")),
            ("attemptedVcId", stringField (body.getString "attemptedVcId")),
            ("attemptedParentVcId", stringField (body.getString "attemptedParentVcId")),
            ("attemptedDelegatedFrom", stringField (body.getString "attemptedDelegatedFrom")),
            ("source", some (.str ((body.getString "source").getD "sdk")))] }
  | _, _, _ => .error (.validation
      "vpId, agentDid, and result must be provided for VP verification audit entries")

/-- `POST /v1/audit-log/consent-granted`. -/
def consentEntry (requestId : String) (body : Json) : Except HelixError AuditEntryData :=
  match truthy (body.getString "vcId"), truthy (body.getString "agentDid") with
  | some vcId, some agentDid => .ok
      { event := "CONSENT_GRANTED"
        timestamp := body.getString "grantedAt"
        fields :=
          [("requestId", some (.str requestId)), ("vcId", some (.str vcId)),
            ("agentDid", some (.str agentDid)), ("subjectDid", some (.str agentDid)),
            ("issuer", stringField (body.getString "issuer")),
            ("userDid", stringField (body.getString "userDid")),
            ("scopes", asStringArray (body.prop "scopes")),
            ("durability", stringField (body.getString "durability")),
            ("source", some (.str ((body.getString "source").getD "sdk")))] }
  | _, _ => .error (.validation
      "vcId and agentDid must be provided for consent audit entries")

/-- `POST /v1/audit-log/events`. -/
def activityEntry (requestId : String) (body : Json) : Except HelixError AuditEntryData :=
  match (body.getString "event").filter ingestibleEvents.contains with
  | none => .error (.validation ("event must be one of: " ++
      String.intercalate ", " (ingestibleEvents.mergeSort fun a b => decide (a ≤ b))))
  | some event =>
    let agentDid := body.getString "agentDid"
    let serviceDid := body.getString "serviceDid"
    if (truthy agentDid).isNone && (truthy serviceDid).isNone then
      .error (.validation "at least one of agentDid or serviceDid must be provided")
    else .ok
      { event := event
        timestamp := body.getString "timestamp"
        fields :=
          [("requestId", some (.str requestId)),
            ("correlationId", stringField (body.getString "correlationId")),
            ("agentDid", stringField agentDid),
            ("subjectDid", stringField (agentDid <|> serviceDid)),
            ("userDid", stringField (body.getString "userDid")),
            ("vcId", stringField (body.getString "vcId")),
            ("credentialType", stringField (body.getString "credentialType")),
            ("issuer", stringField (body.getString "issuer")),
            ("scopes", asStringArray (body.prop "scopes")),
            ("validUntil", stringField (body.getString "validUntil")),
            ("credentialStatus", stringField (body.getString "credentialStatus")),
            ("serviceDid", stringField serviceDid),
            ("serviceName", stringField (body.getString "serviceName")),
            ("targetService", stringField serviceDid),
            ("toolName", stringField (body.getString "toolName")),
            ("requiredScope", stringField (body.getString "requiredScope")),
            ("effectiveScopes", asStringArray (body.prop "effectiveScopes")),
            ("vpId", stringField (body.getString "vpId")),
            ("result", stringField (body.getString "result")),
            ("reason", stringField (body.getString "reason")),
            ("resultSummary", stringField (body.getString "resultSummary")),
            ("source", some (.str ((body.getString "source").getD "service")))] }

/-- An ingestion route. -/
inductive IngestRoute where
  | vpVerification
  | consentGranted
  | events

/-- What a route logs for a body. -/
def IngestRoute.entry : IngestRoute → (requestId : String) → (body : Json) →
    Except HelixError AuditEntryData
  | .vpVerification => vpVerificationEntry
  | .consentGranted => consentEntry
  | .events => activityEntry

/-! ### The log as it is shown -/

/-- `asString(payload[key])` when it is not empty. -/
def AuditPayload.named (payload : AuditPayload) (key : String) : Option String :=
  truthy (payload.getString key)

/-- The delegation chain of a payload from its last link but one. -/
def AuditPayload.delegationParent (payload : AuditPayload) : Option Json :=
  match payload.get "delegationChain" with
  | some (.arr chain) => if chain.length < 2 then none else chain[chain.length - 2]?
  | _ => none

/-- `getDelegationParentVcId`. -/
def getDelegationParentVcId (payload : AuditPayload) : Option String :=
  match payload.named "parentVcId" with
  | some direct => some direct
  | none => payload.delegationParent.bind (·.getString "vcId")

/-- `getDelegatedFrom`. -/
def getDelegatedFrom (payload : AuditPayload) : Option String :=
  match payload.named "delegatedFrom" with
  | some direct => some direct
  | none => payload.delegationParent.bind fun parent =>
    parent.getString "subjectDid" <|> parent.getString "subject"

/-- `getDelegatedTo`. -/
def getDelegatedTo (payload : AuditPayload) : Option String :=
  match payload.named "delegatedTo" with
  | some direct => some direct
  | none => payload.getString "subjectDid" <|> payload.getString "agentDid"

/-- `getDelegationDepth`. -/
def getDelegationDepth (payload : AuditPayload) : Option ℕ :=
  match (payload.get "delegationDepth").bind depth with
  | some direct => some direct
  | none =>
    match payload.get "delegationChain" with
    | some (.arr chain) => some (chain.length - 1)
    | _ => none
where
  depth : Json → Option ℕ
    | .num n => if n.den = 1 ∧ 0 ≤ n then some n.num.toNat else none
    | _ => none

/-- What is sent of a row.  The row itself stands for its `id`, which is drawn by the core. -/
structure AuditEntry where
  record : AuditLogRow
  eventType : String
  timestamp : String
  subjectDid : Option String
  vcId : Option String
  targetService : Option String
  result : Option String
  delegatedFrom : Option String
  delegatedTo : Option String
  parentVcId : Option String
  delegationDepth : Option ℕ
  attemptedVcId : Option String
  attemptedParentVcId : Option String
  attemptedDelegatedFrom : Option String
  issuer : Option String
  userDid : Option String
  scopes : Option Json
  durability : Option String
  correlationId : Option String
  credentialType : Option String
  validUntil : Option String
  credentialStatus : Option String
  serviceDid : Option String
  serviceName : Option String
  toolName : Option String
  requiredScope : Option String
  effectiveScopes : Option Json
  reason : Option String
  resultSummary : Option String

/-- The entry of a row. -/
def AuditEntry.of (record : AuditLogRow) : AuditEntry :=
  let payload := record.payload
  { record := record
    eventType := record.eventType
    timestamp := toISOString record.timestamp
    subjectDid := payload.getString "subjectDid" <|> payload.getString "agentDid" <|>
      payload.getString "did"
    vcId := payload.getString "vcId" <|> payload.getString "vpId"
    targetService := payload.getString "targetService"
    result := payload.getString "result"
    delegatedFrom := getDelegatedFrom payload
    delegatedTo := getDelegatedTo payload
    parentVcId := getDelegationParentVcId payload
    delegationDepth := getDelegationDepth payload
    attemptedVcId := payload.getString "attemptedVcId"
    attemptedParentVcId := payload.getString "attemptedParentVcId"
    attemptedDelegatedFrom := payload.getString "attemptedDelegatedFrom"
    issuer := payload.getString "issuer"
    userDid := payload.getString "userDid"
    scopes := asStringArray (payload.get "scopes")
    durability := payload.getString "durability"
    correlationId := payload.getString "correlationId"
    credentialType := payload.getString "credentialType"
    validUntil := payload.getString "validUntil"
    credentialStatus := payload.getString "credentialStatus"
    serviceDid := payload.getString "serviceDid"
    serviceName := payload.getString "serviceName"
    toolName := payload.getString "toolName"
    requiredScope := payload.getString "requiredScope"
    effectiveScopes := asStringArray (payload.get "effectiveScopes")
    reason := payload.getString "reason" <|> payload.getString "internalReason"
    resultSummary := payload.getString "resultSummary" }

/-- The query of `GET /v1/audit-log`. -/
structure ListAuditLogQuery where
  eventType : Option String := none
  since : Option String := none
  limit : Option String := none

/-- `normalizeLimit`. -/
def normalizeLimit (rt : Runtime) (limit : Option String) : Except HelixError ℕ :=
  match limit with
  | none => .ok 50
  | some text =>
    match rt.number text with
    | none => refused
    | some n => if n.den ≠ 1 ∨ n < 1 ∨ 500 < n then refused else .ok n.num.toNat
where
  refused : Except HelixError ℕ :=
    .error (.validation "limit must be an integer between 1 and 500")

/-- `normalizeSince`. -/
def normalizeSince (rt : Runtime) (since : Option String) : Except HelixError (Option ℕ) :=
  match truthy since with
  | none => .ok none
  | some text =>
    match rt.parseDate text with
    | none => .error (.validation "since must be an ISO timestamp")
    | some date => .ok (some date)

/-- The query of the log, or the error that it is refused with. -/
def auditQuery (rt : Runtime) (query : ListAuditLogQuery) : Except HelixError AuditQuery := do
  let since ← normalizeSince rt query.since
  let limit ← normalizeLimit rt query.limit
  return { eventType := query.eventType, since := since, limit := limit }

namespace Routes

variable (cfg : Config)

/-- The link table has the account `accountId` for the key, if there is a key. -/
def isLinkedTo (table : AccountLinkTable) (key : Option String) (accountId : String) :
    Promise Bool :=
  match truthy key with
  | none => return false
  | some key => do
    let owner ← AccountLinkRepository.getAccountId table key
    return owner == some accountId

/-- The row is attributed to the account: by its payload, by its credential, or by its token. -/
def isAttributed (accountId : String) (record : AuditLogRow) : Promise Bool :=
  if record.payload.getString "accountId" == some accountId then return true
  else do
    if ← isLinkedTo .vcAccountLinks (record.payload.getString "vcId") accountId then return true
    else isLinkedTo .enrollmentTokenAccountLinks (record.payload.getString "tokenIdHash") accountId

/-- The rows attributed to the account. -/
def scopeRecords (accountId : String) : List AuditLogRow → Promise (List AuditLogRow)
  | [] => return []
  | record :: records => do
    let shown ← isAttributed accountId record
    let rest ← scopeRecords accountId records
    return if shown then record :: rest else rest

/-- The rows that the caller sees. -/
def scopeRecordsFor (accountId : Option String) (records : List AuditLogRow) :
    Promise (List AuditLogRow) :=
  match truthy accountId with
  | none => return records
  | some a => scopeRecords a records

/-- `GET /v1/audit-log`. -/
def listAuditLog (request : Request) (query : ListAuditLogQuery) : Promise (List AuditEntry) := do
  let accountId ← authenticated cfg request
  match auditQuery cfg.runtime query with
  | .error e => .raise e
  | .ok q =>
    let records ← await (.audit (.list q))
    return (← scopeRecordsFor accountId records).map .of

/-- `asString(body.timestamp) ?? new Date().toISOString()`. -/
def entryTimestamp (timestamp : Option String) : Promise String :=
  match timestamp with
  | some text => return text
  | none => do
    let now ← dateNow
    return toISOString now

/-- The three ingestion routes: the event and the timestamp that are recorded. -/
def ingest (route : IngestRoute) (request : Request) (body : Json) : Promise (String × String) := do
  requireAdmin cfg request
  -- a property of a missing body cannot be read
  if body.isNull then .raise .typeError
  else
    match route.entry request.id body with
    | .error e => .raise e
    | .ok entry =>
      let timestamp ← entryTimestamp entry.timestamp
      await (.audit (.logEntry entry.event timestamp (entry.payload timestamp)))
      return (entry.event, timestamp)

end Routes

end HelixServer
