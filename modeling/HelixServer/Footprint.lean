import HelixServer.Server

/-!
# What each request calls

An over-approximation of the calls of every program, by kind.  A result about a few kinds of calls
then treats every request that makes none of them in one step.

## Main definitions

* `SessionCall` : the token store, the clock and the random source, and the awaited log.
* `MailCall` : what e-mail verification uses.
* `IdentityCall` : what gives an account its issuer identity.
* `AccountCall` : what sign-ins use to find or create an account.
* `AuthCall` : everything the auth service uses.
* `GuardCall` : what the guard uses.
* `RouteCall` : everything the guard and the routes that create credentials use.
* `WatchCall` : everything the routes on existing credentials and on the audit log use.
* `Call.Outside` : the requests to these routes, which the auth service does not serve.
-/

namespace HelixServer

open Async

/-- The payload names no credential and no enrollment token. -/
def AuditPayload.NamesNone (payload : AuditPayload) : Prop :=
  payload.getString "vcId" = none ∧ payload.getString "tokenIdHash" = none

/-- The payload names no account and no enrollment token. -/
def AuditPayload.Posted (payload : AuditPayload) : Prop :=
  payload.getString "accountId" = none ∧ payload.getString "tokenIdHash" = none

/-- The token store, the clock and the random source, and the awaited log. -/
def SessionCall : Op → Prop
  | .refreshTokens _ | .runtime _ => True
  | .audit (.log _ payload) => payload.NamesNone
  | _ => False

/-- The assignment is of e-mail verification. -/
def AccountAssign.OfVerification : AccountAssign → Prop
  | .emailVerifiedAt _ | .emailVerificationTokenHash _ | .emailVerificationExpiresAt _ => True
  | _ => False

/-- Look-ups of accounts, updates of their verification, the clock and the random source, and the
mail. -/
def MailCall : Op → Prop
  | .accounts (.create _) => False
  | .accounts (.update _ patch) => ∀ x ∈ patch, x.OfVerification
  | .accounts _ | .runtime _ | .sendMail _ => True
  | _ => False

/-- The identities of accounts, and the key generator. -/
def IdentityCall : Op → Prop
  | .dids _ | .issuerKeys _ | .runtime _ => True
  | _ => False

/-- Accounts and their identities, the clock and the random source, the mail and the awaited log. -/
def AccountCall : Op → Prop
  | .accounts _ | .dids _ | .issuerKeys _ | .runtime _ | .sendMail _ => True
  | .audit (.log _ payload) => payload.NamesNone
  | _ => False

/-- The calls of the auth service. -/
def AuthCall (o : Op) : Prop := SessionCall o ∨ AccountCall o

/-- The calls of the guard. -/
def GuardCall : Op → Prop
  | .accounts (.findById _) | .runtime _ | .audit (.list _) => True
  | _ => False

/-- The calls of the guard and the routes that create credentials. -/
def RouteCall : Op → Prop
  | .accounts (.findById _) | .runtime _ | .links _ _ | .core _ => True
  | .audit (.list _) | .audit (.logDetached _ _) => True
  | _ => False

/-- The calls of the guard and the routes on existing credentials and on the audit log. -/
def WatchCall : Op → Prop
  | .accounts (.findById _) | .runtime _ | .vcs _ => True
  | .links _ (.getAccountId _) | .links _ (.listKeysForAccount _) => True
  | .audit (.list _) => True
  | .audit (.logEntry _ _ payload) => payload.Posted
  | _ => False

theorem GuardCall.routeCall {o : Op} (h : GuardCall o) : RouteCall o := by
  cases o with
  | accounts o => cases o <;> first | exact h.elim | trivial
  | audit o => cases o <;> first | exact h.elim | trivial
  | _ => first | exact h.elim | trivial

theorem GuardCall.watchCall {o : Op} (h : GuardCall o) : WatchCall o := by
  cases o with
  | accounts o => cases o <;> first | exact h.elim | trivial
  | audit o => cases o <;> first | exact h.elim | trivial
  | _ => first | exact h.elim | trivial

theorem MailCall.accountCall {o : Op} (h : MailCall o) : AccountCall o := by
  cases o <;> first | exact h.elim | trivial

theorem IdentityCall.accountCall {o : Op} (h : IdentityCall o) : AccountCall o := by
  cases o <;> first | exact h.elim | trivial

variable {cfg : Config} {R : HelixError → Prop} {N N' : Op → Prop} {α : Type}

theorem uses_widen {p : Promise α} (hp : p.Uses N R) (h : ∀ o, N o → N' o) : p.Uses N' R :=
  hp.mono h fun _ he => he

theorem uses_auth_of_session {p : Promise α} (hp : p.Uses SessionCall R) : p.Uses AuthCall R :=
  uses_widen hp fun _ => .inl

theorem uses_auth_of_account {p : Promise α} (hp : p.Uses AccountCall R) : p.Uses AuthCall R :=
  uses_widen hp fun _ => .inr

theorem uses_account_of_mail {p : Promise α} (hp : p.Uses MailCall R) : p.Uses AccountCall R :=
  uses_widen hp fun _ => MailCall.accountCall

theorem uses_account_of_identity {p : Promise α} (hp : p.Uses IdentityCall R) :
    p.Uses AccountCall R :=
  uses_widen hp fun _ => IdentityCall.accountCall

theorem await_uses {o : Op} (h : N o) : (await o).Uses N R := ⟨h, fun _ => trivial⟩

/-! ### Single calls -/

theorem accounts_uses {o : AccountOp} : (await (.accounts o)).Uses AccountCall R :=
  await_uses trivial

theorem runtime_uses {o : RuntimeOp} : (await (.runtime o)).Uses AccountCall R := await_uses trivial

theorem dateNow_uses : dateNow.Uses AccountCall R := await_uses trivial

theorem auditLog_uses {eventType : String} {payload : AuditPayload} (h : payload.NamesNone) :
    (auditLog eventType payload).Uses AccountCall R := await_uses h

theorem generateRefreshToken_uses : generateRefreshToken.Uses AccountCall R :=
  ⟨trivial, fun _ => trivial⟩

theorem issueAccessToken_uses {rt : Runtime} {accountId secret : String} {ttlSeconds : ℕ}
    {scope : List String} :
    (issueAccessToken rt accountId secret ttlSeconds scope).Uses AccountCall R :=
  ⟨trivial, fun _ => ⟨trivial, fun _ => trivial⟩⟩

/-! ### Sessions -/

theorem issueSession_uses {accountId : String} {replacing : Option String} :
    (AuthService.issueSession cfg accountId replacing).Uses SessionCall R := by
  refine ⟨trivial, fun raw => ⟨trivial, fun now => ⟨trivial, fun created => ?_⟩⟩⟩
  cases replacing with
  | none => exact ⟨trivial, fun _ => ⟨trivial, fun _ => trivial⟩⟩
  | some id => exact ⟨trivial, fun _ => ⟨trivial, fun _ => ⟨trivial, fun _ => trivial⟩⟩⟩

theorem refresh_uses {refreshToken : String} :
    (AuthService.refresh cfg refreshToken).Uses SessionCall fun _ => True := by
  refine Prog.Uses.bind (await_uses trivial) fun found => ?_
  cases found with
  | none => trivial
  | some record =>
    simp only [AuthService.refreshFound]
    split_ifs
    · exact Prog.Uses.bind (await_uses trivial) fun _ =>
        Prog.Uses.bind (await_uses ⟨rfl, rfl⟩) fun _ => trivial
    · refine Prog.Uses.bind (await_uses trivial) fun now => ?_
      split_ifs
      · trivial
      · exact Prog.Uses.bind issueSession_uses fun _ =>
          Prog.Uses.bind (await_uses ⟨rfl, rfl⟩) fun _ => trivial

theorem logout_uses {refreshToken : String} :
    (AuthService.logout cfg refreshToken).Uses SessionCall R := by
  refine Prog.Uses.bind (await_uses trivial) fun found => ?_
  cases found with
  | none => trivial
  | some record =>
    dsimp only
    split_ifs
    · trivial
    · exact Prog.Uses.bind (await_uses trivial) fun _ => await_uses ⟨rfl, rfl⟩

/-! ### E-mail verification -/

theorem sendVerificationEmail_uses {accountId email : String} :
    (AuthService.sendVerificationEmail cfg accountId email).Uses MailCall R := by
  have hpatch : ∀ h e, MailCall (.accounts (.update accountId
      [.emailVerificationTokenHash h, .emailVerificationExpiresAt e])) := by
    intro h e x hx
    simp only [List.mem_cons, List.not_mem_nil, or_false] at hx
    rcases hx with rfl | rfl <;> trivial
  unfold AuthService.sendVerificationEmail
  split_ifs
  · exact ⟨trivial, fun _ => ⟨trivial, fun _ => ⟨hpatch _ _, fun _ => await_uses trivial⟩⟩⟩
  · trivial

theorem markEmailVerified_uses {id : String} :
    (AccountRepository.markEmailVerified id).Uses MailCall R := by
  have hpatch : ∀ now, MailCall (.accounts (.update id [.emailVerifiedAt now,
      .emailVerificationTokenHash none, .emailVerificationExpiresAt none])) := by
    intro now x hx
    simp only [List.mem_cons, List.not_mem_nil, or_false] at hx
    rcases hx with rfl | rfl | rfl <;> trivial
  exact ⟨trivial, fun now => await_uses (hpatch _)⟩

theorem markVerifiedIf_uses {cond : Bool} {account : AccountRecord} :
    (AuthService.markVerifiedIf cond account).Uses MailCall R := by
  unfold AuthService.markVerifiedIf
  split_ifs
  · exact markEmailVerified_uses
  · trivial

theorem verifyEmail_uses {token : String} :
    (AuthService.verifyEmail cfg token).Uses MailCall fun _ => True := by
  refine Prog.Uses.bind (await_uses trivial) fun found => ?_
  cases found with
  | none => trivial
  | some account =>
    dsimp only
    cases account.emailVerificationExpiresAt with
    | none => trivial
    | some expiresAt =>
      refine Prog.Uses.bind (await_uses trivial) fun now => ?_
      split_ifs
      · trivial
      · exact Prog.Uses.bind markEmailVerified_uses fun _ => trivial

theorem resendVerificationEmail_uses {email : String} :
    (AuthService.resendVerificationEmail cfg email).Uses MailCall R := by
  refine Prog.Uses.bind (await_uses trivial) fun found => ?_
  cases found with
  | none => trivial
  | some account =>
    dsimp only
    split_ifs
    · trivial
    · exact sendVerificationEmail_uses

/-! ### Sign-ins -/

theorem provisionAccountIssuerDid_uses {accountId : String}
    (hR : ∀ did publicKey, (cfg.runtime.buildDIDDocument did publicKey).verificationMethod = [] →
      R .typeError) : (provisionAccountIssuerDid cfg accountId).Uses IdentityCall R := by
  refine Prog.Uses.bind (p := generateAndEncrypt cfg) ⟨trivial, fun _ => ?_⟩ fun x => ?_
  · exact ⟨trivial, fun _ => trivial⟩
  · dsimp only
    split
    · rename_i hnil
      exact hR _ _ hnil
    · exact ⟨trivial, fun _ => ⟨trivial, fun _ => trivial⟩⟩

theorem linkByEmail_uses {profile : GoogleProfile} {existingByEmail : AccountRecord}
    (hR : ∀ message, R (.accountNotFound message)) :
    (AuthService.linkByEmail profile existingByEmail).Uses AccountCall R := by
  unfold AuthService.linkByEmail
  split_ifs
  · refine Prog.Uses.bind (await_uses trivial) fun linked => ?_
    refine Prog.Uses.bind (uses_account_of_mail markVerifiedIf_uses) fun account => ?_
    exact Prog.Uses.bind (await_uses ⟨rfl, rfl⟩) fun _ => trivial
  · exact hR _

theorem createFromGoogle_uses {profile : GoogleProfile} {email : String} (hR : R .typeError) :
    (AuthService.createFromGoogle cfg profile email).Uses AccountCall R := by
  refine Prog.Uses.bind (await_uses trivial) fun created => ?_
  refine Prog.Uses.bind
    (uses_account_of_identity (provisionAccountIssuerDid_uses fun _ _ _ => hR)) fun issuerDid => ?_
  refine Prog.Uses.bind (await_uses trivial) fun withDid => ?_
  refine Prog.Uses.bind (uses_account_of_mail markVerifiedIf_uses) fun account => ?_
  exact Prog.Uses.bind (await_uses ⟨rfl, rfl⟩) fun _ => trivial

theorem googleAccount_uses {profile : GoogleProfile} (hR : ∀ message, R (.accountNotFound message))
    (hR' : R .typeError) : (AuthService.googleAccount cfg profile).Uses AccountCall R := by
  refine Prog.Uses.bind (await_uses trivial) fun found => ?_
  cases found with
  | some account => trivial
  | none =>
    refine Prog.Uses.bind (await_uses trivial) fun found => ?_
    cases found with
    | some existingByEmail => exact linkByEmail_uses hR
    | none => exact createFromGoogle_uses hR'

theorem register_uses {input : RegisterInput} :
    (AuthService.register cfg input).Uses AuthCall fun _ => True := by
  refine Prog.Uses.bind (await_uses (.inr trivial)) fun found => ?_
  cases found with
  | some existing => trivial
  | none =>
    refine Prog.Uses.bind (await_uses (.inr trivial)) fun passwordHash => ?_
    refine Prog.Uses.bind (await_uses (.inr trivial)) fun account => ?_
    refine Prog.Uses.bind (uses_auth_of_account (uses_account_of_identity
      (provisionAccountIssuerDid_uses fun _ _ _ => trivial))) fun did => ?_
    refine Prog.Uses.bind (await_uses (.inr trivial)) fun withDid => ?_
    refine Prog.Uses.bind (await_uses (.inr ⟨rfl, rfl⟩)) fun _ => ?_
    refine Prog.Uses.bind
      (uses_auth_of_account (uses_account_of_mail sendVerificationEmail_uses)) fun _ => ?_
    exact Prog.Uses.bind (uses_auth_of_session issueSession_uses) fun tokens => trivial

theorem login_uses {input : LoginInput} :
    (AuthService.login cfg input).Uses AuthCall fun _ => True := by
  refine Prog.Uses.bind (await_uses (.inr trivial)) fun found => ?_
  cases found with
  | none => exact Prog.Uses.bind (await_uses (.inr ⟨rfl, rfl⟩)) fun _ => trivial
  | some account =>
    dsimp only
    cases account.passwordHash with
    | none => trivial
    | some passwordHash =>
      refine Prog.Uses.bind (await_uses (.inr trivial)) fun valid => ?_
      cases valid with
      | true =>
        refine Prog.Uses.bind (await_uses (.inr ⟨rfl, rfl⟩)) fun _ => ?_
        exact Prog.Uses.bind (uses_auth_of_session issueSession_uses) fun tokens => trivial
      | false => exact Prog.Uses.bind (await_uses (.inr ⟨rfl, rfl⟩)) fun _ => trivial

theorem loginWithGoogle_uses {profile : GoogleProfile} :
    (AuthService.loginWithGoogle cfg profile).Uses AuthCall fun _ => True := by
  refine Prog.Uses.bind
    (uses_auth_of_account (googleAccount_uses (fun _ => trivial) trivial)) fun account => ?_
  refine Prog.Uses.bind (await_uses (.inr ⟨rfl, rfl⟩)) fun _ => ?_
  exact Prog.Uses.bind (uses_auth_of_session issueSession_uses) fun tokens => trivial

/-! ### The guard and the routes -/

theorem assertUnderDailyQuota_uses {accountId eventType : String} {dailyLimit : ℕ} :
    (assertUnderDailyQuota accountId eventType dailyLimit).Uses GuardCall fun _ => True := by
  refine Prog.Uses.bind (await_uses trivial) fun now =>
    Prog.Uses.bind (await_uses trivial) fun rows => ?_
  split_ifs
  · exact Prog.Uses.bind (await_uses trivial) fun _ => trivial
  · trivial

theorem assertQuota_uses {quota : Option Quota} {accountId : String} :
    (assertQuota quota accountId).Uses GuardCall fun _ => True := by
  cases quota with
  | none => trivial
  | some q => exact assertUnderDailyQuota_uses

theorem resolveAccountOrAdmin_uses {request : Request} {requireAuth : Bool}
    {quota : Option Quota} :
    (resolveAccountOrAdmin cfg request requireAuth quota).Uses GuardCall fun _ => True := by
  unfold resolveAccountOrAdmin
  split
  · trivial
  · split
    · refine Prog.Uses.bind (await_uses trivial) fun now => ?_
      split
      · trivial
      · refine Prog.Uses.bind (await_uses trivial) fun account => ?_
        split
        · trivial
        · exact Prog.Uses.bind assertQuota_uses fun _ => trivial
    · split <;> trivial

theorem requireAdmin_uses {request : Request} :
    (requireAdmin cfg request).Uses N fun _ => True := by
  unfold requireAdmin
  split <;> trivial

theorem linkIf_uses {table : AccountLinkTable} {key : String} {accountId : Option String} :
    (Routes.linkIf table key accountId).Uses RouteCall R := by
  unfold Routes.linkIf
  split
  · exact await_uses trivial
  · trivial

theorem linkAndLog_uses {table : AccountLinkTable} {key eventType : String}
    {payload : String → AuditPayload} {accountId : Option String} :
    (Routes.linkAndLog table key eventType payload accountId).Uses RouteCall R := by
  unfold Routes.linkAndLog
  split
  · exact ⟨trivial, fun _ => await_uses trivial⟩
  · trivial

theorem issueVC_uses {request : Request} {params : Json} :
    (Routes.issueVC cfg request params).Uses RouteCall fun _ => True := by
  refine Prog.Uses.bind ?_ fun accountId => Prog.Uses.bind (await_uses trivial) fun vcId =>
    Prog.Uses.bind linkAndLog_uses fun _ => trivial
  unfold Routes.issueVCCaller
  split
  · exact uses_widen resolveAccountOrAdmin_uses fun _ => GuardCall.routeCall
  · exact Prog.Uses.bind requireAdmin_uses fun _ => trivial

theorem enrollmentTokens_uses {request : Request} {body : EnrollmentTokenBody} :
    (Routes.enrollmentTokens cfg request body).Uses RouteCall fun _ => True := by
  refine Prog.Uses.bind ?_ fun accountId => Prog.Uses.bind (await_uses trivial) fun vcId =>
    Prog.Uses.bind linkAndLog_uses fun _ => trivial
  unfold Routes.enrollmentTokensCaller
  split
  · exact uses_widen resolveAccountOrAdmin_uses fun _ => GuardCall.routeCall
  · trivial

theorem redeem_uses {from_ to_ : AccountLinkTable} {key : String} {o : CoreOp} :
    (Routes.redeem from_ key o to_).Uses RouteCall R :=
  Prog.Uses.bind (await_uses trivial) fun _ => Prog.Uses.bind (await_uses trivial) fun _ =>
    Prog.Uses.bind linkIf_uses fun _ => trivial

/-! ### The routes on existing credentials and on the audit log -/

theorem authenticated_uses {request : Request} :
    (Routes.authenticated cfg request).Uses WatchCall fun _ => True := by
  unfold Routes.authenticated
  split
  · exact uses_widen resolveAccountOrAdmin_uses fun _ => GuardCall.watchCall
  · exact Prog.Uses.bind requireAdmin_uses fun _ => trivial

theorem listVCs_uses {request : Request} {query : ListVCsQuery} :
    (Routes.listVCs cfg request query).Uses WatchCall fun _ => True := by
  refine Prog.Uses.bind authenticated_uses fun accountId => ?_
  split
  · trivial
  · refine Prog.Uses.bind (await_uses trivial) fun result => ?_
    unfold Routes.ownedSummaries
    split
    · trivial
    · exact Prog.Uses.bind (await_uses trivial) fun _ => trivial

theorem revokeVC_uses {request : Request} {vcId : String} :
    (Routes.revokeVC cfg request vcId).Uses WatchCall fun _ => True := by
  refine Prog.Uses.bind authenticated_uses fun accountId => ?_
  refine Prog.Uses.bind ?_ fun _ => await_uses trivial
  unfold Routes.assertOwner
  split
  · trivial
  · refine Prog.Uses.bind (await_uses trivial) fun owner => ?_
    split <;> trivial

theorem renewVC_uses {request : Request} {vcId : String} {overrides : Json} :
    (Routes.renewVC cfg request vcId overrides).Uses WatchCall fun _ => True :=
  Prog.Uses.bind requireAdmin_uses fun _ => await_uses trivial

theorem posted_entry {route : IngestRoute} {requestId : String} {body : Json}
    {entry : AuditEntryData} (h : route.entry requestId body = .ok entry) (timestamp : String) :
    (entry.payload timestamp).Posted := by
  have hfields : ∀ f ∈ entry.fields, f.1 ≠ "accountId" ∧ f.1 ≠ "tokenIdHash" := by
    cases route with
    | vpVerification =>
      simp only [IngestRoute.entry, vpVerificationEntry] at h
      split at h <;> cases h
      simp
    | consentGranted =>
      simp only [IngestRoute.entry, consentEntry] at h
      split at h <;> cases h
      simp
    | events =>
      simp only [IngestRoute.entry, activityEntry] at h
      split at h
      · cases h
      · split_ifs at h
        cases h
        simp
  have hkeys : ∀ f ∈ ("event", some (.str entry.event)) :: ("timestamp", some (.str timestamp)) ::
      entry.fields, f.1 ≠ "accountId" ∧ f.1 ≠ "tokenIdHash" := by
    simpa using hfields
  have hnone : ∀ key, (∀ f ∈ ("event", some (.str entry.event)) ::
      ("timestamp", some (.str timestamp)) :: entry.fields, f.1 ≠ key) →
      (entry.payload timestamp).getString key = none := fun key hkey => by
    rw [AuditPayload.getString, AuditEntryData.payload, AuditPayload.get_ofFields hkey]
    rfl
  exact ⟨hnone _ fun f hf => (hkeys f hf).1, hnone _ fun f hf => (hkeys f hf).2⟩

theorem ingest_uses {route : IngestRoute} {request : Request} {body : Json} :
    (Routes.ingest cfg route request body).Uses WatchCall fun _ => True := by
  refine Prog.Uses.bind requireAdmin_uses fun _ => ?_
  split
  · trivial
  · split
    · trivial
    · rename_i entry hentry
      refine Prog.Uses.bind ?_ fun timestamp =>
        Prog.Uses.bind (await_uses (posted_entry hentry timestamp)) fun _ => trivial
      unfold Routes.entryTimestamp
      split
      · trivial
      · exact Prog.Uses.bind (await_uses trivial) fun _ => trivial

theorem isLinkedTo_uses {table : AccountLinkTable} {key : Option String} {accountId : String} :
    (Routes.isLinkedTo table key accountId).Uses WatchCall R := by
  unfold Routes.isLinkedTo
  split
  · trivial
  · exact Prog.Uses.bind (await_uses trivial) fun _ => trivial

theorem isAttributed_uses {accountId : String} {record : AuditLogRow} :
    (Routes.isAttributed accountId record).Uses WatchCall R := by
  unfold Routes.isAttributed
  split
  · trivial
  · refine Prog.Uses.bind isLinkedTo_uses fun linked => ?_
    split
    · trivial
    · exact isLinkedTo_uses

theorem scopeRecords_uses {accountId : String} {records : List AuditLogRow} :
    (Routes.scopeRecords accountId records).Uses WatchCall R := by
  induction records with
  | nil => trivial
  | cons record records ih =>
    exact Prog.Uses.bind isAttributed_uses fun shown => Prog.Uses.bind ih fun rest => trivial

theorem listAuditLog_uses {request : Request} {query : ListAuditLogQuery} :
    (Routes.listAuditLog cfg request query).Uses WatchCall fun _ => True := by
  refine Prog.Uses.bind authenticated_uses fun accountId => ?_
  split
  · trivial
  · refine Prog.Uses.bind (await_uses trivial) fun records => ?_
    refine Prog.Uses.bind ?_ fun rows => trivial
    unfold Routes.scopeRecordsFor
    split
    · trivial
    · exact scopeRecords_uses

/-! ### The requests outside the auth service -/

/-- A request that the auth service does not serve. -/
def Call.Outside : Call → Prop
  | .register _ | .login _ | .loginWithGoogle _ | .refresh _ | .logout _ | .verifyEmail _
  | .resendVerificationEmail _ => False
  | _ => True

/-- A reply to such a request. -/
def Reply.Outside : Reply → Prop
  | .session _ _ | .tokens _ | .account _ | .done => False
  | _ => True

theorem Call.Outside.uses {c : Call} (h : c.Outside) :
    ∃ (β : Type) (p : Promise β) (f : β → Reply), c.prog cfg = (p >>= fun b => pure (f b)) ∧
      p.Uses (fun o => RouteCall o ∨ WatchCall o) (fun _ => True) ∧ ∀ b, (f b).Outside := by
  have hroute : ∀ {β : Type} {p : Promise β}, p.Uses RouteCall (fun _ => True) →
      p.Uses (fun o => RouteCall o ∨ WatchCall o) fun _ => True :=
    fun hp => uses_widen hp fun _ => .inl
  have hwatch : ∀ {β : Type} {p : Promise β}, p.Uses WatchCall (fun _ => True) →
      p.Uses (fun o => RouteCall o ∨ WatchCall o) fun _ => True :=
    fun hp => uses_widen hp fun _ => .inr
  cases c with
  | issueVC request params => exact ⟨_, _, _, rfl, hroute issueVC_uses, fun _ => trivial⟩
  | enrollmentTokens request body =>
    exact ⟨_, _, _, rfl, hroute enrollmentTokens_uses, fun _ => trivial⟩
  | enroll requestId body => exact ⟨_, _, _, rfl, hroute redeem_uses, fun _ => trivial⟩
  | onboard requestId body => exact ⟨_, _, _, rfl, hroute redeem_uses, fun _ => trivial⟩
  | onboardVerify requestId body => exact ⟨_, _, _, rfl, hroute redeem_uses, fun _ => trivial⟩
  | listVCs request query => exact ⟨_, _, _, rfl, hwatch listVCs_uses, fun _ => trivial⟩
  | revokeVC request vcId => exact ⟨_, _, _, rfl, hwatch revokeVC_uses, fun _ => trivial⟩
  | renewVC request vcId overrides => exact ⟨_, _, _, rfl, hwatch renewVC_uses, fun _ => trivial⟩
  | ingest route request body => exact ⟨_, _, _, rfl, hwatch ingest_uses, fun _ => trivial⟩
  | listAuditLog request query => exact ⟨_, _, _, rfl, hwatch listAuditLog_uses, fun _ => trivial⟩
  | _ => exact h.elim

end HelixServer
