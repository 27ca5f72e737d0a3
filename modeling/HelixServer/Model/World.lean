import HelixServer.Async.Machine
import HelixServer.Repositories.Account
import HelixServer.Repositories.AccountLink
import HelixServer.Repositories.IssuerKey
import HelixServer.Repositories.RefreshToken

/-!
# The world the server's programs share

* `Config` : the configuration `server.ts` reads.
* `Core` : the services and the audit log of `@helixid/core`, whose code is not in the repository,
  as functions on a state of their own.
* `World` : the tables, the audit log, the mails sent, the state of `Core` and the clock.
* `Op` : every call the server's programs await, and `Op.exec` its effect.
* `EnvMove` : what happens without a program: time passes, a log write that a route started without
  awaiting it completes, and the core services log an event.
-/

namespace HelixServer

/-- The payload of an access token. -/
structure AccessTokenPayload where
  accountId : String
  scope : List String
  iat : ℕ
  exp : ℕ
  jti : String

/-- The configuration of the server. -/
structure Config where
  runtime : Runtime
  storage : StorageDriverKind
  /-- The 32-byte key of `AesGcmKeyCustody`. -/
  masterKey : List UInt8 := []
  accessTokenSecret : String := ""
  didDomain : String := "hosted.helixid.io"
  accessTokenTtlSeconds : ℕ := 900
  refreshTokenTtlDays : ℕ := 30
  /-- Whether an email sender is configured. -/
  emailSender : Bool := true
  consoleBaseUrl : String := "https://hosted.helixid.io"
  emailVerificationTtlHours : ℕ := 24
  /-- `authService.verifyAccessToken`, as the guard is given it: a token and the time. -/
  verifyAccessToken : String → ℕ → Except HelixError AccessTokenPayload :=
    fun _ _ => .error .accessTokenInvalid
  adminApiKey : Option String := none
  /-- Whether the routes are given `accountOrAdminGuardDeps`. -/
  accountOrAdminGuardDeps : Bool := true
  vcIssuanceDailyQuota : Option ℕ := none
  enrollmentTokenDailyQuota : Option ℕ := none

/-! ### The audit log -/

/-- A logged payload: the fields of an object. -/
abbrev AuditPayload := List (String × Json)

/-- `payload[key]`. -/
def AuditPayload.get (payload : AuditPayload) (key : String) : Option Json :=
  (payload.find? (·.1 == key)).map (·.2)

/-- `payload[key]` when it is a string. -/
def AuditPayload.getString (payload : AuditPayload) (key : String) : Option String :=
  (payload.get key).bind Json.asString

/-- A row of the audit log. -/
structure AuditLogRow where
  eventType : String
  timestamp : ℕ
  payload : AuditPayload

/-- A log write that has been started and not awaited. -/
structure PendingLog where
  eventType : String
  payload : AuditPayload
  startedAt : ℕ

/-- The argument of `AuditLogRepository.list`. -/
structure AuditQuery where
  eventType : Option String
  since : Option ℕ
  limit : ℕ

/-- The row is of the queried type and not older than the queried time. -/
def AuditQuery.matches (q : AuditQuery) (row : AuditLogRow) : Bool :=
  (q.eventType.all (· == row.eventType)) && (q.since.all (· ≤ row.timestamp))

/-! ### The services of `@helixid/core` -/

/-- The body of `POST /v1/enrollment-tokens`. -/
structure EnrollmentTokenBody where
  agentName : String
  requestedScopes : List String
  requestedDomains : Option (List String) := none
  maxDelegationDepth : Option ℕ := none

/-- The body of `POST /v1/enroll`. -/
structure EnrollBody where
  bootstrapToken : String
  agentDid : String
  timestamp : ℕ
  proofSignature : String

/-- The body of `POST /v1/onboard`. -/
structure OnboardBody where
  enrollmentToken : String
  publicKeyHex : String
  domains : Option (List String) := none

/-- The body of `POST /v1/onboard/verify`. -/
structure OnboardVerifyBody where
  challengeId : String
  signature : String
  didCreateSignature : Option String := none

/-- The calls of the core services that the routes make. -/
inductive CoreOp where
  | issueVC (params : Json) (requestId : String)
  | generateEnrollmentToken (body : EnrollmentTokenBody) (requestId : String)
  | enroll (body : EnrollBody) (requestId : String)
  | processOnboardStep1 (body : OnboardBody) (requestId : String)
  | processOnboardVerify (body : OnboardVerifyBody) (requestId : String)

/-- The filter of `listVCs`. -/
structure VcFilter where
  subjectDid : Option String
  status : Option String
  limit : Option ℕ

/-- What `listVCs` tells of a credential. -/
structure VcSummary where
  vcId : String
  subjectDid : String
  status : String
  details : Json

/-- The calls of the core's `VCService` on credentials that exist. -/
inductive VcOp where
  | listVCs (filter : VcFilter)
  | revokeVC (vcId requestId : String)
  | renewVC (vcId : String) (overrides : Json) (requestId : String)

/-- What each answers; of a renewal the new `vcId`. -/
def VcOp.Res : VcOp → Type
  | .listVCs _ => List VcSummary
  | .revokeVC _ _ => Json
  | .renewVC _ _ _ => String

/-- The core services and the audit log's query, on a state of their own.  Of what a `CoreOp`
answers the routes read one string: the `vcId`, the `token` or the `challengeId`. -/
structure Core where
  State : Type
  exec : CoreOp → State → Except HelixError String × State
  vcs : (o : VcOp) → State → Except HelixError o.Res × State
  /-- The time of the row that the audit logger writes for an entry with a timestamp of its own. -/
  entryTime : (timestamp : String) → (now : ℕ) → ℕ
  /-- The rows `AuditLogRepository.list` answers. -/
  listAuditLog : AuditQuery → List AuditLogRow → List AuditLogRow

/-! ### The world -/

/-- A mail sent. -/
structure Mail where
  recipient : String
  verificationUrl : String

/-- The shared state. -/
structure World (core : Core) where
  now : ℕ
  /-- The calls made so far, which index the random draws. -/
  draws : ℕ
  accounts : List AccountRecord
  dids : List DidRow
  issuerKeys : List IssuerKeyRecordRow
  refreshTokens : List RefreshTokenRecord
  vcAccountLinks : List AccountLink
  enrollmentTokenAccountLinks : List AccountLink
  challengeAccountLinks : List AccountLink
  auditLog : List AuditLogRow
  pendingLogs : List PendingLog
  mails : List Mail
  core : core.State

/-- The world before the first request: empty tables. -/
def World.empty {core : Core} (now draws : ℕ) (core₀ : core.State) : World core :=
  ⟨now, draws, [], [], [], [], [], [], [], [], [], [], core₀⟩

/-- The rows of a link table. -/
def World.links {core : Core} (w : World core) : AccountLinkTable → List AccountLink
  | .vcAccountLinks => w.vcAccountLinks
  | .enrollmentTokenAccountLinks => w.enrollmentTokenAccountLinks
  | .challengeAccountLinks => w.challengeAccountLinks

/-- The world with the rows of a link table replaced. -/
def World.setLinks {core : Core} (w : World core) (rows : List AccountLink) :
    AccountLinkTable → World core
  | .vcAccountLinks => { w with vcAccountLinks := rows }
  | .enrollmentTokenAccountLinks => { w with enrollmentTokenAccountLinks := rows }
  | .challengeAccountLinks => { w with challengeAccountLinks := rows }

/-- The world after `k` more draws. -/
def World.drawn {core : Core} (w : World core) (k : ℕ) : World core :=
  { w with draws := w.draws + k }

/-! ### Calls -/

/-- The audit log's methods. -/
inductive AuditOp where
  /-- `await auditLogger.log(..)`. -/
  | log (eventType : String) (payload : AuditPayload)
  /-- `await auditLogger.log(entry)`, with an entry that has its own timestamp. -/
  | logEntry (eventType timestamp : String) (payload : AuditPayload)
  /-- `auditLogger.log(..)`, started and not awaited. -/
  | logDetached (eventType : String) (payload : AuditPayload)
  | list (q : AuditQuery)

/-- What each method answers. -/
def AuditOp.Res : AuditOp → Type
  | .list _ => List AuditLogRow
  | _ => Unit

/-- The clock, the random source, `argon2` and the key generator. -/
inductive RuntimeOp where
  | now
  | randomBytes (size : ℕ)
  | argon2Hash (password : String)
  | argon2Verify (passwordHash password : String)
  | generateKeyPair

/-- What each answers. -/
def RuntimeOp.Res : RuntimeOp → Type
  | .now => ℕ
  | .randomBytes _ => List UInt8
  | .argon2Hash _ => String
  | .argon2Verify _ _ => Bool
  | .generateKeyPair => KeyPair

/-- Every call the programs of the server make. -/
inductive Op where
  | accounts (o : AccountOp)
  | dids (o : DidOp)
  | issuerKeys (o : IssuerKeyOp)
  | refreshTokens (o : RefreshTokenOp)
  | links (table : AccountLinkTable) (o : AccountLinkOp)
  | audit (o : AuditOp)
  | sendMail (mail : Mail)
  | core (o : CoreOp)
  | vcs (o : VcOp)
  | runtime (o : RuntimeOp)

/-- What each call answers. -/
def Op.Res : Op → Type
  | .accounts o => o.Res
  | .dids o => o.Res
  | .issuerKeys o => o.Res
  | .refreshTokens o => o.Res
  | .links _ o => o.Res
  | .audit o => o.Res
  | .sendMail _ => Unit
  | .core _ => String
  | .vcs o => o.Res
  | .runtime o => o.Res

/-- The calls that can reject for reasons outside the model: everything but the clock, the random
source and `argon2`. -/
def Op.fallible : Op → Bool
  | .runtime .generateKeyPair => true
  | .runtime _ => false
  | _ => true

/-- The interface of the server's programs. -/
abbrev serverSig : Async.Sig := ⟨Op, Op.Res⟩

/-- An `async` function of the server: what it awaits, and what it ends with. -/
abbrev Promise (α : Type) := Async.Prog serverSig HelixError α

/-- `await` a call. -/
abbrev await (o : Op) : Promise o.Res := @Async.Prog.perform serverSig HelixError o

section Exec

variable (cfg : Config) {core : Core}

/-- The effect of an audit-log call. -/
def AuditOp.exec (w : World core) : (o : AuditOp) → Except HelixError o.Res × World core
  | .log eventType payload =>
    (.ok (), { w with auditLog := w.auditLog ++ [⟨eventType, w.now, payload⟩] })
  | .logEntry eventType timestamp payload =>
    (.ok (), { w with
      auditLog := w.auditLog ++ [⟨eventType, core.entryTime timestamp w.now, payload⟩] })
  | .logDetached eventType payload =>
    (.ok (), { w with pendingLogs := w.pendingLogs ++ [⟨eventType, payload, w.now⟩] })
  | .list q => (.ok (core.listAuditLog q w.auditLog), w)

/-- The answer of a runtime call. -/
def RuntimeOp.exec (w : World core) : (o : RuntimeOp) → o.Res
  | .now => w.now
  | .randomBytes size => cfg.runtime.randomBytes w.draws size
  | .argon2Hash password => cfg.runtime.argon2Hash w.draws password
  | .argon2Verify passwordHash password => cfg.runtime.argon2Verify passwordHash password
  | .generateKeyPair => cfg.runtime.generateKeyPair w.draws

/-- The id that a `create` in `w` draws. -/
def World.freshId (w : World core) (kind : String) : String :=
  makeId kind (cfg.runtime.mathRandom w.draws)

/-- The effect of a call, apart from moving the random source on. -/
def Op.effect (w : World core) : (o : Op) → Except HelixError o.Res × World core
  | .accounts o =>
    let x := o.exec cfg.storage (w.freshId cfg "acct") w.now w.accounts
    (x.1, { w with accounts := x.2 })
  | .dids o => let x := o.exec w.dids; (x.1, { w with dids := x.2 })
  | .issuerKeys o =>
    let x := o.exec cfg.storage (w.freshId cfg "ikr") w.now w.issuerKeys
    (x.1, { w with issuerKeys := x.2 })
  | .refreshTokens o =>
    let x := o.exec cfg.storage (w.freshId cfg "rtk") w.now w.refreshTokens
    (x.1, { w with refreshTokens := x.2 })
  | .links table o => let x := o.exec w.now (w.links table); (x.1, w.setLinks x.2 table)
  | .audit o => o.exec w
  | .sendMail mail => (.ok (), { w with mails := w.mails ++ [mail] })
  | .core o => let x := core.exec o w.core; (x.1, { w with core := x.2 })
  | .vcs o => let x := core.vcs o w.core; (x.1, { w with core := x.2 })
  | .runtime o => (.ok (o.exec cfg w), w)

/-- The effect of a call. -/
def Op.exec (o : Op) (w : World core) : Except HelixError o.Res × World core :=
  let x := o.effect cfg w
  (x.1, { x.2 with draws := w.draws + 1 })

/-! ### What a call leaves alone -/

variable {cfg} {w w' : World core} {o : Op}

theorem Op.exec_error {e : HelixError} (h : o.exec cfg w = (.error e, w')) :
    (∃ o', o = .core o') ∨ (∃ o', o = .vcs o') ∨ ∃ message, e = .storage message := by
  simp only [Op.exec, Prod.mk.injEq] at h
  obtain ⟨he, -⟩ := h
  cases o with
  | accounts o => exact .inr (.inr (AccountOp.exec_error (Prod.ext he rfl)).2)
  | dids o => exact .inr (.inr (DidOp.exec_error (Prod.ext he rfl)).2)
  | issuerKeys o => exact .inr (.inr (IssuerKeyOp.exec_error (Prod.ext he rfl)).2)
  | refreshTokens o => exact .inr (.inr (RefreshTokenOp.exec_error (Prod.ext he rfl)).2.2)
  | links table o => cases o <;> cases he
  | audit o => cases o <;> cases he
  | sendMail mail => cases he
  | core o => exact .inl ⟨o, rfl⟩
  | vcs o => exact .inr (.inl ⟨o, rfl⟩)
  | runtime o => cases he

@[simp] theorem World.setLinks_refreshTokens (rows : List AccountLink) (table : AccountLinkTable) :
    (w.setLinks rows table).refreshTokens = w.refreshTokens := by
  cases table <;> rfl

theorem Op.exec_refreshTokens :
    (o.exec cfg w).2.refreshTokens = match o with
      | .refreshTokens o => (o.exec cfg.storage (w.freshId cfg "rtk") w.now w.refreshTokens).2
      | _ => w.refreshTokens := by
  cases o with
  | links table o => exact World.setLinks_refreshTokens _ _
  | audit o => cases o <;> rfl
  | _ => rfl

theorem Op.exec_accounts :
    (o.exec cfg w).2.accounts = match o with
      | .accounts o => (o.exec cfg.storage (w.freshId cfg "acct") w.now w.accounts).2
      | _ => w.accounts := by
  cases o with
  | links table o => cases table <;> rfl
  | audit o => cases o <;> rfl
  | _ => rfl

theorem Op.exec_unique (hk : cfg.storage.hasUniqueIndexes = true)
    (hu : Accounts.Unique w.accounts) : Accounts.Unique (o.exec cfg w).2.accounts := by
  rw [Op.exec_accounts]
  cases o with
  | accounts o => exact AccountOp.exec_unique hk hu
  | _ => exact hu

theorem Op.exec_ids (h : ∀ r ∈ w.accounts, r.id ≠ "") :
    ∀ r ∈ (o.exec cfg w).2.accounts, r.id ≠ "" := by
  intro r hr
  rw [Op.exec_accounts] at hr
  cases o with
  | accounts o =>
    rcases AccountOp.exec_ids hr with hid | ⟨r₀, hr₀, hid⟩
    · rw [hid]
      exact makeId_ne_empty _ _
    · rw [← hid]
      exact h r₀ hr₀
  | _ => exact h r hr

theorem Op.exec_dids :
    (o.exec cfg w).2.dids = match o with
      | .dids o => (o.exec w.dids).2
      | _ => w.dids := by
  cases o with
  | links table o => cases table <;> rfl
  | audit o => cases o <;> rfl
  | _ => rfl

theorem Op.exec_issuerKeys :
    (o.exec cfg w).2.issuerKeys = match o with
      | .issuerKeys o => (o.exec cfg.storage (w.freshId cfg "ikr") w.now w.issuerKeys).2
      | _ => w.issuerKeys := by
  cases o with
  | links table o => cases table <;> rfl
  | audit o => cases o <;> rfl
  | _ => rfl

theorem World.links_setLinks (rows : List AccountLink) (table table' : AccountLinkTable) :
    (w.setLinks rows table).links table' = if table = table' then rows else w.links table' := by
  cases table <;> cases table' <;> rfl

theorem Op.exec_links (table : AccountLinkTable) :
    (o.exec cfg w).2.links table = match o with
      | .links table' o =>
        if table' = table then (o.exec w.now (w.links table')).2 else w.links table
      | _ => w.links table := by
  cases o with
  | links table' o => exact World.links_setLinks _ _ _
  | audit o => cases o <;> cases table <;> rfl
  | _ => cases table <;> rfl

theorem Op.exec_runtime (w : World core) (o : RuntimeOp) :
    (Op.runtime o).exec cfg w = (.ok (o.exec cfg w), w.drawn 1) := rfl

theorem Op.exec_mails :
    (o.exec cfg w).2.mails = match o with
      | .sendMail mail => w.mails ++ [mail]
      | _ => w.mails := by
  cases o with
  | links table o => cases table <;> rfl
  | audit o => cases o <;> rfl
  | _ => rfl

@[simp] theorem Op.exec_now : (o.exec cfg w).2.now = w.now := by
  cases o with
  | links table o => cases table <;> rfl
  | audit o => cases o <;> rfl
  | _ => rfl

@[simp] theorem Op.exec_draws : (o.exec cfg w).2.draws = w.draws + 1 := rfl

theorem Op.exec_auditLog :
    (o.exec cfg w).2.auditLog = match o with
      | .audit (.log eventType payload) => w.auditLog ++ [⟨eventType, w.now, payload⟩]
      | .audit (.logEntry eventType timestamp payload) =>
        w.auditLog ++ [⟨eventType, core.entryTime timestamp w.now, payload⟩]
      | _ => w.auditLog := by
  cases o with
  | links table o => cases table <;> rfl
  | audit o => cases o <;> rfl
  | _ => rfl

theorem Op.exec_pendingLogs :
    (o.exec cfg w).2.pendingLogs = match o with
      | .audit (.logDetached eventType payload) => w.pendingLogs ++ [⟨eventType, payload, w.now⟩]
      | _ => w.pendingLogs := by
  cases o with
  | links table o => cases table <;> rfl
  | audit o => cases o <;> rfl
  | _ => rfl

theorem Op.exec_of_refreshTokens {o : RefreshTokenOp} {x : Except HelixError o.Res}
    (h : (Op.refreshTokens o).exec cfg w = (x, w')) :
    o.exec cfg.storage (w.freshId cfg "rtk") w.now w.refreshTokens = (x, w'.refreshTokens) := by
  cases h
  rfl

theorem Op.exec_of_accounts {o : AccountOp} {x : Except HelixError o.Res}
    (h : (Op.accounts o).exec cfg w = (x, w')) :
    o.exec cfg.storage (w.freshId cfg "acct") w.now w.accounts = (x, w'.accounts) := by
  cases h
  rfl

theorem Op.exec_of_dids {o : DidOp} {x : Except HelixError o.Res}
    (h : (Op.dids o).exec cfg w = (x, w')) : o.exec w.dids = (x, w'.dids) := by
  cases h
  rfl

theorem Op.exec_of_issuerKeys {o : IssuerKeyOp} {x : Except HelixError o.Res}
    (h : (Op.issuerKeys o).exec cfg w = (x, w')) :
    o.exec cfg.storage (w.freshId cfg "ikr") w.now w.issuerKeys = (x, w'.issuerKeys) := by
  cases h
  rfl

/-! ### New rows -/

/-- The account ids that are drawn are new, where no unique index makes sure of it. -/
def FreshAccountId (cfg : Config) (w : World core) : Op → Prop
  | .accounts (.create _) =>
    cfg.storage.hasUniqueIndexes = true ∨ ∀ r ∈ w.accounts, r.id ≠ w.freshId cfg "acct"
  | _ => True

/-- The same of the ids and the hashes of refresh tokens. -/
def FreshToken (cfg : Config) (w : World core) : Op → Prop
  | .refreshTokens (.create data) => cfg.storage.hasUniqueIndexes = true ∨
      RefreshTokens.Fresh data (w.freshId cfg "rtk") w.refreshTokens
  | _ => True

theorem freshAccountId_of_unique (hk : cfg.storage.hasUniqueIndexes = true) (w : World core)
    (o : Op) : FreshAccountId cfg w o := by
  cases o with
  | accounts o =>
    cases o with
    | create data => exact .inl hk
    | _ => trivial
  | _ => trivial

theorem freshToken_of_unique (hk : cfg.storage.hasUniqueIndexes = true) (w : World core) (o : Op) :
    FreshToken cfg w o := by
  cases o with
  | refreshTokens o =>
    cases o with
    | create data => exact .inl hk
    | _ => trivial
  | _ => trivial

/-- How a condition on calls is decided.  Where nothing is said, it is no condition. -/
structure Op.Decides (P : Op → Prop) where
  accounts : ∀ o, Decidable (P (.accounts o)) := by exact fun _ => .isTrue trivial
  dids : ∀ o, Decidable (P (.dids o)) := by exact fun _ => .isTrue trivial
  issuerKeys : ∀ o, Decidable (P (.issuerKeys o)) := by exact fun _ => .isTrue trivial
  refreshTokens : ∀ o, Decidable (P (.refreshTokens o)) := by exact fun _ => .isTrue trivial
  links : ∀ table o, Decidable (P (.links table o)) := by exact fun _ _ => .isTrue trivial
  audit : ∀ o, Decidable (P (.audit o)) := by exact fun _ => .isTrue trivial
  sendMail : ∀ mail, Decidable (P (.sendMail mail)) := by exact fun _ => .isTrue trivial
  core : ∀ o, Decidable (P (.core o)) := by exact fun _ => .isTrue trivial
  vcs : ∀ o, Decidable (P (.vcs o)) := by exact fun _ => .isTrue trivial
  runtime : ∀ o, Decidable (P (.runtime o)) := by exact fun _ => .isTrue trivial

/-- The decision. -/
@[reducible] def Op.Decides.decide {P : Op → Prop} (d : Op.Decides P) : DecidablePred P
  | .accounts o => d.accounts o
  | .dids o => d.dids o
  | .issuerKeys o => d.issuerKeys o
  | .refreshTokens o => d.refreshTokens o
  | .links table o => d.links table o
  | .audit o => d.audit o
  | .sendMail mail => d.sendMail mail
  | .core o => d.core o
  | .vcs o => d.vcs o
  | .runtime o => d.runtime o

instance (w : World core) : DecidablePred (FreshAccountId cfg w) :=
  Op.Decides.decide
    { accounts := fun o =>
        match o with
        | .create _ => inferInstanceAs (Decidable (_ ∨ _))
        | .findById _ | .findByEmail _ | .findByGoogleId _ | .findByEmailVerificationTokenHash _
        | .update _ _ => .isTrue trivial }

instance (w : World core) : DecidablePred (FreshToken cfg w) :=
  Op.Decides.decide
    { refreshTokens := fun o =>
        match o with
        | .create _ => inferInstanceAs (Decidable (_ ∨ _))
        | .findByTokenHash _ | .revoke _ _ | .revokeAllForAccount _ => .isTrue trivial }

/-- No two account rows share an id. -/
abbrev DistinctIds (w : World core) : Prop := (w.accounts.map (·.id)).Nodup

theorem DistinctIds.append (hd : DistinctIds w) {a : AccountRecord}
    (hnew : ∀ r ∈ w.accounts, r.id ≠ a.id) (hrows : w'.accounts = w.accounts ++ [a]) :
    DistinctIds w' := by
  rw [DistinctIds, hrows, List.map_append, List.nodup_append]
  refine ⟨hd, by simp, ?_⟩
  simp only [List.mem_map, List.map_cons, List.map_nil, List.mem_singleton]
  rintro _ ⟨r, hr, rfl⟩ _ rfl
  exact hnew r hr

end Exec

/-! ### Moves of the environment -/

/-- What happens without a program of the server. -/
inductive EnvMove where
  /-- Time passes. -/
  | tick (ms : ℕ)
  /-- The `k`-th started log write completes, with a timestamp between its start and now. -/
  | completeLog (k timestamp : ℕ)
  /-- The core services log an event of their own.  They have no concept of accounts, so its payload
  carries no `accountId`. -/
  | coreLog (row : AuditLogRow)

/-- The effect of a move. -/
def EnvMove.exec {core : Core} (w : World core) : EnvMove → Option (World core)
  | .tick ms => some { w with now := w.now + ms }
  | .completeLog k timestamp =>
    match w.pendingLogs[k]? with
    | none => none
    | some p =>
      if p.startedAt ≤ timestamp ∧ timestamp ≤ w.now then
        some { w with
          auditLog := w.auditLog ++ [⟨p.eventType, timestamp, p.payload⟩]
          pendingLogs := w.pendingLogs.eraseIdx k }
      else none
  | .coreLog row =>
    if (row.payload.get "accountId").isNone then some { w with auditLog := w.auditLog ++ [row] }
    else none

theorem EnvMove.exec_frame {core : Core} {w w' : World core} {x : EnvMove}
    (h : x.exec w = some w') :
    w' = { w with now := w'.now, auditLog := w'.auditLog, pendingLogs := w'.pendingLogs } := by
  cases x with
  | tick ms => cases h; rfl
  | completeLog k timestamp =>
    simp only [exec] at h
    split at h
    · cases h
    · split_ifs at h; cases h; rfl
  | coreLog row => simp only [exec] at h; split_ifs at h; cases h; rfl

theorem EnvMove.exec_accounts {core : Core} {w w' : World core} {x : EnvMove}
    (h : x.exec w = some w') : w'.accounts = w.accounts := by
  rw [EnvMove.exec_frame h]

theorem EnvMove.exec_links {core : Core} {w w' : World core} {x : EnvMove}
    (h : x.exec w = some w') (table : AccountLinkTable) : w'.links table = w.links table := by
  rw [EnvMove.exec_frame h]
  cases table <;> rfl

theorem EnvMove.exec_refreshTokens {core : Core} {w w' : World core} {x : EnvMove}
    (h : x.exec w = some w') : w'.refreshTokens = w.refreshTokens := by
  rw [EnvMove.exec_frame h]

end HelixServer
