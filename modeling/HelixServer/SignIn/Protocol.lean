import HelixServer.Footprint

/-!
# How a sign-in comes by its session

A registration, a sign-in or a refresh finds out an account, by a password, a Google identity or a
refresh token, and then opens a session for it: it writes a refresh token of the account and answers
it with an access token.

## Main definitions

* `Stage` : where a request stands on the way to its session.
* `KeepsLogins` : calls that write no e-mail, password, Google id or refresh token.
* `SessionOf` : the tokens of a session.
* `protocol` : the calls of every request in terms of its stage.
-/

namespace HelixServer

namespace SignIn

open Async

/-- Where a request stands on the way to its session. -/
inductive Stage where
  /-- It opens no session. -/
  | aside
  /-- A registration. -/
  | register (input : RegisterInput)
  /-- No account has its e-mail. -/
  | hashing (input : RegisterInput)
  | hashed (input : RegisterInput) (passwordHash : String)
  /-- A sign-in with a password. -/
  | login (input : LoginInput)
  /-- It has found the account of its e-mail, which has a password. -/
  | checking (account : AccountRecord) (passwordHash password : String)
  /-- A Google sign-in. -/
  | google (profile : GoogleProfile)
  /-- No account has its Google id. -/
  | unbound (profile : GoogleProfile)
  /-- It has found the account of its e-mail, which Google has verified. -/
  | matched (profile : GoogleProfile) (account : AccountRecord)
  /-- No account has its e-mail either. -/
  | vacant (profile : GoogleProfile)
  /-- A refresh. -/
  | refresh (refreshToken : String)
  /-- It has found its token, which is not revoked. -/
  | holding (record : RefreshTokenRecord)
  /-- It has found out that it is refused. -/
  | refused (e : HelixError)
  /-- It may open a session for the account `id`; `bytes` is what it has drawn last. -/
  | ready (id : String) (bytes : Option (List UInt8))
  /-- The refresh token made of `bytes` is written. -/
  | opened (id : String) (bytes : List UInt8)

namespace Stage

/-- Where a request starts. -/
def start : Call → Stage
  | .register input => .register input
  | .login input => .login input
  | .loginWithGoogle profile => .google profile
  | .refresh refreshToken => .refresh refreshToken
  | _ => .aside

/-- A registration after its look-up. -/
def registering (input : RegisterInput) : Option AccountRecord → Stage
  | some _ => .refused .accountAlreadyExists
  | none => .hashing input

/-- A sign-in with a password after its look-up. -/
def loggingIn (password : String) : Option AccountRecord → Stage
  | none => .aside
  | some account =>
    match account.passwordHash with
    | none => .aside
    | some passwordHash => .checking account passwordHash password

/-- A Google sign-in after the look-up of its Google id. -/
def byGoogleId (profile : GoogleProfile) : Option AccountRecord → Stage
  | some account => .ready account.id none
  | none => .unbound profile

/-- A Google sign-in after the look-up of its e-mail. -/
def byEmail (profile : GoogleProfile) : Option AccountRecord → Stage
  | some account =>
    if profile.emailVerified then .matched profile account
    else .refused (.accountNotFound "Google account email is not verified")
  | none => .vacant profile

/-- A refresh after its look-up. -/
def presented : Option RefreshTokenRecord → Stage
  | none => .aside
  | some record => if record.revokedAt.isSome then .aside else .holding record

/-- How an answered call moves a request on. -/
def next : Stage → (o : Op) → o.Res → Stage
  | register input, .accounts (.findByEmail _), found => registering input found
  | hashing input, .runtime (.argon2Hash _), passwordHash => hashed input passwordHash
  | hashed _ _, .accounts (.create _), account => ready (AccountRecord.id account) none
  | login input, .accounts (.findByEmail _), found => loggingIn input.password found
  | checking account _ _, .runtime (.argon2Verify _ _), valid =>
    bif valid then ready account.id none else aside
  | google profile, .accounts (.findByGoogleId _), found => byGoogleId profile found
  | unbound profile, .accounts (.findByEmail _), found => byEmail profile found
  | matched _ account, .accounts (.update _ _), _ => ready account.id none
  | vacant _, .accounts (.create _), account => ready (AccountRecord.id account) none
  | refresh _, .refreshTokens (.findByTokenHash _), found => presented found
  | holding record, .runtime (.randomBytes _), bytes => ready record.accountId (some bytes)
  | ready id _, .runtime (.randomBytes _), bytes => ready id (some bytes)
  | ready id (some bytes), .refreshTokens (.create _), _ => opened id bytes
  | q, _, _ => q

end Stage

/-- The assignment is of a field by which an account is found or entered. -/
def IsLogin : AccountAssign → Prop
  | .email _ | .passwordHash _ | .googleId _ => True
  | _ => False

/-- The call writes no e-mail, password, Google id or refresh token. -/
def KeepsLogins : Op → Prop
  | .accounts (.create _) | .refreshTokens (.create _) => False
  | .accounts (.update _ patch) => ∀ x ∈ patch, ¬ IsLogin x
  | _ => True

variable (cfg : Config) (core : Core)

/-- The row of a registration. -/
def registered (input : RegisterInput) (passwordHash : String) : AccountCreateData where
  email := normalizeEmail cfg.runtime input.email
  passwordHash := some passwordHash
  googleId := none
  companyName := input.companyName
  fieldOfOperation := input.fieldOfOperation

/-- The row of a Google sign-in without an account. -/
def registeredByGoogle (profile : GoogleProfile) : AccountCreateData where
  email := normalizeEmail cfg.runtime profile.email
  passwordHash := none
  googleId := some profile.googleId

/-- The hash of the refresh token made of `bytes`. -/
def tokenHashOf (bytes : List UInt8) : String :=
  hashRefreshToken cfg.runtime (opaqueToken "rft" bytes)

/-- The tokens of a session of the account `id`, with the refresh token made of `bytes`. -/
def SessionOf (id : String) (bytes : List UInt8) (tokens : AuthTokens) : Prop :=
  tokens.refreshToken = opaqueToken "rft" bytes ∧ ∃ payload : AccessTokenPayload,
    payload.accountId = id ∧
      tokens.accessToken = encodeAccessToken cfg.runtime cfg.accessTokenSecret payload

namespace Stage

/-- The calls a request makes where it stands. -/
def Allows : Stage → Op → Prop
  | register input, o => o = .accounts (.findByEmail (normalizeEmail cfg.runtime input.email))
  | hashing input, o => o = .runtime (.argon2Hash input.password)
  | hashed input passwordHash, o => o = .accounts (.create (registered cfg input passwordHash))
  | login input, o => o = .accounts (.findByEmail (normalizeEmail cfg.runtime input.email))
  | checking _ passwordHash password, o => o = .runtime (.argon2Verify passwordHash password)
  | google profile, o => o = .accounts (.findByGoogleId profile.googleId)
  | unbound profile, o => o = .accounts (.findByEmail (normalizeEmail cfg.runtime profile.email))
  | matched profile account, o =>
    o = .accounts (.update account.id [.googleId (some profile.googleId)])
  | vacant profile, o => o = .accounts (.create (registeredByGoogle cfg profile))
  | refresh refreshToken, o =>
    o = .refreshTokens (.findByTokenHash (hashRefreshToken cfg.runtime refreshToken))
  | holding _, o => o = .runtime .now ∨ o = .runtime (.randomBytes 32)
  | refused _, _ => False
  | ready id bytes, .refreshTokens (.create data) =>
    data.accountId = id ∧ bytes.map (tokenHashOf cfg) = some data.tokenHash
  | aside, o | ready _ _, o | opened _ _, o => KeepsLogins o

/-- The replies a request ends with. -/
def Answers : Stage → Reply → Prop
  | opened id bytes, .session account tokens => account.id = id ∧ SessionOf cfg id bytes tokens
  | opened id bytes, .tokens tokens => SessionOf cfg id bytes tokens
  | aside, .session _ _ | aside, .tokens _ => False
  | aside, _ => True
  | _, _ => False

/-- The errors a request ends with.  A sign-in that has an account fails only on a DID document
without a key. -/
def Raises : Stage → HelixError → Prop
  | refused e', e => e = e'
  | ready _ _, e => e = .typeError ∧ ∃ did publicKey,
      (cfg.runtime.buildDIDDocument did publicKey).verificationMethod = []
  | aside, _ | holding _, _ => True
  | _, _ => False

end Stage

/-- The protocol of the requests with their sessions. -/
def protocol : Protocol (server cfg core) Stage where
  init := Stage.start
  next := fun q e => q.next e.op e.res
  allowed := Stage.Allows cfg
  answers := Stage.Answers cfg
  raises := Stage.Raises cfg
  fails := fun _ => False

/-! ### The programs obey the protocol -/

theorem keepsLogins_of_identity {o : Op} (h : IdentityCall o) : KeepsLogins o := by
  cases o <;> first | exact h.elim | trivial

theorem keepsLogins_of_mail {o : Op} (h : MailCall o) : KeepsLogins o := by
  cases o with
  | accounts o =>
    cases o with
    | create data => exact h.elim
    | update id patch =>
      intro x hx hlogin
      have := h x hx
      cases x <;> first | exact this | exact hlogin
    | _ => trivial
  | _ => first | exact h.elim | trivial

theorem keepsLogins_of_watch {o : Op} (h : WatchCall o) : KeepsLogins o := by
  cases o with
  | accounts o => cases o <;> first | exact h.elim | trivial
  | _ => first | exact h.elim | trivial

theorem keepsLogins_of_route {o : Op} (h : RouteCall o) : KeepsLogins o := by
  cases o with
  | accounts o => cases o <;> first | exact h.elim | trivial
  | _ => first | exact h.elim | trivial

variable {cfg core} {α : Type} {q : Stage} {N : Op → Prop} {id : String}
  {bytes : Option (List UInt8)}

theorem obeys_await (o : Op) (ha : q.Allows cfg o) :
    (protocol cfg core).Obeys (fun q' r => q' = q.next o r ∧
      ∃ w w' : World core, o.exec cfg w = (.ok r, w')) q (await o) :=
  ⟨ha, fun w _ w' he => ⟨rfl, w, w', he⟩⟩

theorem obeys_aside {p : Promise α} {f : α → Reply} (hp : p.Uses N fun _ => True)
    (hN : ∀ o, N o → KeepsLogins o) (hf : ∀ x, Stage.Answers cfg .aside (f x)) :
    (protocol cfg core).Obeys (Stage.Answers cfg) .aside (p >>= fun x => pure (f x)) := by
  have hstill : (protocol cfg core).Obeys (fun q _ => q = .aside) .aside p :=
    Protocol.obeys_of_uses hp (fun o ho => ⟨hN o ho, fun _ _ => rfl⟩) (fun _ _ => trivial)
      fun _ => rfl
  refine hstill.bind ?_
  rintro _ x rfl
  exact hf x

/-- Where a request stands that may open a session for the account `id`. -/
def Stage.Signing (id : String) (q : Stage) : Prop := ∃ bytes, q = .ready id bytes

/-- Calls that keep the logins leave a request ready, and one with its session where it is. -/
theorem keepsLogins_allowed {o : Op} (h : KeepsLogins o) (cfg : Config) (id : String)
    (bytes : Option (List UInt8)) :
    (Stage.ready id bytes).Allows cfg o ∧ ∀ r, ((Stage.ready id bytes).next o r).Signing id := by
  cases o with
  | refreshTokens o =>
    cases o with
    | create data => exact h.elim
    | _ => exact ⟨h, fun _ => ⟨bytes, by cases bytes <;> rfl⟩⟩
  | runtime o =>
    cases o with
    | randomBytes size => exact ⟨h, fun r => ⟨some r, by cases bytes <;> rfl⟩⟩
    | _ => exact ⟨h, fun _ => ⟨bytes, by cases bytes <;> rfl⟩⟩
  | _ => exact ⟨h, fun _ => ⟨bytes, by cases bytes <;> rfl⟩⟩

/-- Calls that keep the logins, made by a request that has its account. -/
theorem obeys_ready {p : Promise α} {R : HelixError → Prop} (hq : q.Signing id) (hp : p.Uses N R)
    (hN : ∀ o, N o → KeepsLogins o) (hR : ∀ e, R e → Stage.Raises cfg (.ready id none) e) :
    (protocol cfg core).Obeys (fun q _ => q.Signing id) q p := by
  refine Protocol.obeys_of_uses_keeping (I := Stage.Signing id) hq hp ?_ ?_ fun _ _ h => h
  · rintro _ o ⟨bytes, rfl⟩ ho
    obtain ⟨ha, hnext⟩ := keepsLogins_allowed (hN o ho) cfg id bytes
    exact ⟨ha, fun r w => hnext r⟩
  · rintro _ e ⟨bytes, rfl⟩ he
    exact hR e he

theorem obeys_auditLog {eventType : String} {payload : AuditPayload} (hq : q.Signing id) :
    (protocol cfg core).Obeys (fun q _ => q.Signing id) q (auditLog eventType payload) :=
  obeys_ready (N := KeepsLogins) (R := fun _ => False) hq (await_uses trivial) (fun _ h => h)
    fun _ h => h.elim

/-- An update that assigns no login, made by a request that has its account. -/
theorem obeys_update {a : String} {patch : AccountPatch} (hq : q.Signing id)
    (hpatch : ∀ x ∈ patch, ¬ IsLogin x) :
    (protocol cfg core).Obeys (fun q r => q.Signing id ∧ AccountRecord.id r = a) q
      (await (.accounts (.update a patch))) := by
  obtain ⟨bytes, rfl⟩ := hq
  have hkeep : KeepsLogins (.accounts (.update a patch)) := hpatch
  obtain ⟨ha, hnext⟩ := keepsLogins_allowed hkeep cfg id bytes
  refine (obeys_await _ ha).mono ?_
  rintro _ r ⟨rfl, w, w', he⟩
  exact ⟨hnext r, Accounts.update_id (Op.exec_of_accounts he)⟩

theorem obeys_opened {p : Promise α} {b : List UInt8} (hp : p.Uses KeepsLogins fun _ => False) :
    (protocol cfg core).Obeys (fun q _ => q = .opened id b) (.opened id b) p :=
  Protocol.obeys_of_uses hp (fun _ ho => ⟨ho, fun _ _ => rfl⟩) (fun _ h => h.elim) fun _ => rfl

theorem obeys_generateRefreshToken (hq : q.Signing id ∨
    ∃ record : RefreshTokenRecord, q = .holding record ∧ record.accountId = id) :
    (protocol cfg core).Obeys (fun q raw => ∃ b, q = .ready id (some b) ∧
      raw = opaqueToken "rft" b) q
      generateRefreshToken := by
  have hdrawn : ∀ {q : Stage}, q.Allows cfg (.runtime (.randomBytes 32)) →
      (∀ b, q.next (.runtime (.randomBytes 32)) b = .ready id (some b)) →
      (protocol cfg core).Obeys (fun q raw => ∃ b, q = .ready id (some b) ∧
        raw = opaqueToken "rft" b) q generateRefreshToken :=
    fun ha hnext => ⟨ha, fun _ b _ _ => ⟨b, hnext b, rfl⟩⟩
  rcases hq with ⟨bytes, rfl⟩ | ⟨record, rfl, rfl⟩
  · exact hdrawn trivial fun b => by cases bytes <;> rfl
  · exact hdrawn (.inr rfl) fun b => rfl

theorem obeys_issueAccessToken {b : List UInt8} :
    (protocol cfg core).Obeys (fun q token => q = .opened id b ∧ ∃ payload : AccessTokenPayload,
        payload.accountId = id ∧
          token = encodeAccessToken cfg.runtime cfg.accessTokenSecret payload) (.opened id b)
      (issueAccessToken cfg.runtime id cfg.accessTokenSecret cfg.accessTokenTtlSeconds) :=
  ⟨trivial, fun _ _ _ _ => ⟨trivial, fun _ _ _ _ => ⟨rfl, _, rfl, rfl⟩⟩⟩

/-- **A session is opened** for the account that the request has found out. -/
theorem obeys_issueSession {replacing : Option String} (hq : q.Signing id ∨
    ∃ record : RefreshTokenRecord, q = .holding record ∧ record.accountId = id) :
    (protocol cfg core).Obeys (fun q tokens => ∃ b, q = .opened id b ∧ SessionOf cfg id b tokens) q
      (AuthService.issueSession cfg id replacing) := by
  refine (obeys_generateRefreshToken hq).bind ?_
  rintro _ _ ⟨b, rfl, rfl⟩
  refine (obeys_await (q := .ready id (some b)) (.runtime .now) trivial).bind ?_
  rintro _ now ⟨rfl, -⟩
  refine (obeys_await (q := .ready id (some b)) (.refreshTokens (.create _)) ⟨rfl, rfl⟩).bind ?_
  rintro _ created ⟨rfl, -⟩
  have hend : (protocol cfg core).Obeys
      (fun q tokens => ∃ b, q = .opened id b ∧ SessionOf cfg id b tokens) (.opened id b)
      (issueAccessToken cfg.runtime id cfg.accessTokenSecret cfg.accessTokenTtlSeconds >>=
        fun accessToken => pure (AuthTokens.mk accessToken (opaqueToken "rft" b)
          cfg.accessTokenTtlSeconds)) := by
    refine obeys_issueAccessToken.bind ?_
    rintro _ _ ⟨rfl, payload, hid, rfl⟩
    exact ⟨b, rfl, rfl, payload, hid, rfl⟩
  cases replacing with
  | none => exact hend
  | some old =>
    refine (obeys_await (q := .opened id b) (.refreshTokens (.revoke _ _)) trivial).bind ?_
    rintro _ _ ⟨rfl, -⟩
    exact hend

/-! ### Sign-ins -/

theorem obeys_provision {accountId : String} (hq : q.Signing id) :
    (protocol cfg core).Obeys (fun q _ => q.Signing id) q
      (provisionAccountIssuerDid cfg accountId) :=
  obeys_ready (R := Stage.Raises cfg (.ready id none)) hq
    (provisionAccountIssuerDid_uses fun did publicKey h => ⟨rfl, did, publicKey, h⟩)
    (fun _ => keepsLogins_of_identity) fun _ h => h

theorem obeys_setIssuerDid {a did : String} (hq : q.Signing id) :
    (protocol cfg core).Obeys (fun q r => q.Signing id ∧ r.id = a) q
      (AccountRepository.setIssuerDid a did) :=
  obeys_update hq (by simp [IsLogin])

theorem obeys_markVerifiedIf {cond : Bool} {account : AccountRecord} (hq : q.Signing account.id) :
    (protocol cfg core).Obeys (fun q r => q.Signing account.id ∧ r.id = account.id) q
      (AuthService.markVerifiedIf cond account) := by
  unfold AuthService.markVerifiedIf
  split_ifs
  · have hnow : (protocol cfg core).Obeys (fun q _ => q.Signing account.id) q dateNow :=
      obeys_ready (N := KeepsLogins) (R := fun _ => False) hq (await_uses trivial) (fun _ h => h)
        fun _ h => h.elim
    refine hnow.bind ?_
    intro q now hq
    exact obeys_update hq (by simp [IsLogin])
  · exact ⟨hq, rfl⟩

theorem obeys_register {input : RegisterInput} :
    (protocol cfg core).Obeys (fun q x => ∃ b, q = .opened x.1.id b ∧ SessionOf cfg x.1.id b x.2)
      (.register input) (AuthService.register cfg input) := by
  refine (obeys_await (q := .register input) (.accounts (.findByEmail _)) rfl).bind ?_
  rintro _ found ⟨rfl, -⟩
  cases found with
  | some account => exact rfl
  | none =>
    refine (obeys_await (q := .hashing input) (.runtime (.argon2Hash _)) rfl).bind ?_
    rintro _ passwordHash ⟨rfl, -⟩
    refine (obeys_await (q := .hashed input passwordHash) (.accounts (.create _)) rfl).bind ?_
    rintro _ account ⟨rfl, -⟩
    have hready : (Stage.ready (AccountRecord.id account) none).Signing
        (AccountRecord.id account) :=
      ⟨none, rfl⟩
    refine (obeys_provision hready).bind ?_
    intro q issuerDid hq
    refine (obeys_setIssuerDid hq).bind ?_
    rintro q withDid ⟨hq, hid⟩
    refine (obeys_auditLog hq).bind ?_
    intro q _ hq
    refine (obeys_ready (R := fun _ => False) hq sendVerificationEmail_uses
      (fun _ => keepsLogins_of_mail) fun _ h => h.elim).bind ?_
    intro q _ hq
    refine (obeys_issueSession (.inl hq)).bind ?_
    rintro _ tokens ⟨b, rfl, hsession⟩
    have hsummary : (toSummary withDid).id = AccountRecord.id account := hid
    exact ⟨b, by rw [hsummary], by rw [hsummary]; exact hsession⟩

theorem obeys_login {input : LoginInput} :
    (protocol cfg core).Obeys (fun q x => ∃ b, q = .opened x.1.id b ∧ SessionOf cfg x.1.id b x.2)
      (.login input) (AuthService.login cfg input) := by
  refine (obeys_await (q := .login input) (.accounts (.findByEmail _)) rfl).bind ?_
  rintro _ found ⟨rfl, -⟩
  cases found with
  | none => exact ⟨trivial, fun _ _ _ _ => trivial⟩
  | some account =>
    have hnext : (Stage.login input).next (.accounts (.findByEmail
        (normalizeEmail cfg.runtime input.email))) (some account) =
        Stage.loggingIn input.password (some account) := rfl
    rw [hnext]
    simp only [Stage.loggingIn]
    cases account.passwordHash with
    | none => exact trivial
    | some passwordHash =>
      refine (obeys_await (q := .checking account passwordHash input.password)
        (.runtime (.argon2Verify _ _)) rfl).bind ?_
      rintro _ valid ⟨rfl, -⟩
      cases valid with
      | false => exact ⟨trivial, fun _ _ _ _ => trivial⟩
      | true =>
        have hready : (Stage.ready account.id none).Signing account.id := ⟨none, rfl⟩
        refine (obeys_auditLog hready).bind ?_
        intro q _ hq
        exact (obeys_issueSession (.inl hq)).bind fun _ _ h => h

theorem obeys_googleAccount {profile : GoogleProfile} :
    (protocol cfg core).Obeys (fun q account => q.Signing account.id) (.google profile)
      (AuthService.googleAccount cfg profile) := by
  refine (obeys_await (q := .google profile) (.accounts (.findByGoogleId _)) rfl).bind ?_
  rintro _ found ⟨rfl, -⟩
  cases found with
  | some account => exact ⟨none, rfl⟩
  | none =>
    refine (obeys_await (q := .unbound profile) (.accounts (.findByEmail _)) rfl).bind ?_
    rintro _ found ⟨rfl, -⟩
    cases found with
    | some existing =>
      have hnext : (Stage.unbound profile).next (.accounts (.findByEmail
          (normalizeEmail cfg.runtime profile.email))) (some existing) =
          Stage.byEmail profile (some existing) := rfl
      rw [hnext]
      simp only [Stage.byEmail, AuthService.linkByEmail]
      split_ifs
      · refine (obeys_await (q := .matched profile existing) (.accounts (.update _ _)) rfl).bind ?_
        rintro _ linked ⟨rfl, w, w', he⟩
        have hid : AccountRecord.id linked = existing.id :=
          Accounts.update_id (Op.exec_of_accounts he)
        have hq : ((Stage.matched profile existing).next (.accounts (.update existing.id
            [.googleId (some profile.googleId)])) linked).Signing (AccountRecord.id linked) :=
          ⟨none, by rw [hid]; rfl⟩
        refine (obeys_markVerifiedIf hq).bind ?_
        rintro q account ⟨hq, hid'⟩
        refine (obeys_auditLog hq).bind ?_
        intro q _ hq
        rwa [← hid'] at hq
      · exact rfl
    | none =>
      refine (obeys_await (q := .vacant profile) (.accounts (.create _)) rfl).bind ?_
      rintro _ created ⟨rfl, -⟩
      have hready : (Stage.ready (AccountRecord.id created) none).Signing
          (AccountRecord.id created) :=
        ⟨none, rfl⟩
      refine (obeys_provision hready).bind ?_
      intro q issuerDid hq
      refine (obeys_setIssuerDid hq).bind ?_
      rintro q withDid ⟨hq, hid⟩
      have hq' : q.Signing withDid.id := by rw [hid]; exact hq
      refine (obeys_markVerifiedIf hq').bind ?_
      rintro q account ⟨hq, hid'⟩
      refine (obeys_auditLog hq).bind ?_
      intro q _ hq
      rwa [← hid'] at hq

theorem obeys_loginWithGoogle {profile : GoogleProfile} :
    (protocol cfg core).Obeys (fun q x => ∃ b, q = .opened x.1.id b ∧ SessionOf cfg x.1.id b x.2)
      (.google profile) (AuthService.loginWithGoogle cfg profile) := by
  refine obeys_googleAccount.bind ?_
  intro q account hq
  refine (obeys_auditLog hq).bind ?_
  intro q _ hq
  exact (obeys_issueSession (.inl hq)).bind fun _ _ h => h

theorem obeys_refresh {refreshToken : String} :
    (protocol cfg core).Obeys (fun q tokens => ∃ id b, q = .opened id b ∧ SessionOf cfg id b tokens)
      (.refresh refreshToken) (AuthService.refresh cfg refreshToken) := by
  refine (obeys_await (q := .refresh refreshToken)
    (.refreshTokens (.findByTokenHash _)) rfl).bind ?_
  rintro _ found ⟨rfl, -⟩
  cases found with
  | none => exact trivial
  | some record =>
    have hnext : (Stage.refresh refreshToken).next (.refreshTokens (.findByTokenHash
        (hashRefreshToken cfg.runtime refreshToken))) (some record) =
        Stage.presented (some record) := rfl
    rw [hnext]
    simp only [Stage.presented, AuthService.refreshFound]
    split_ifs
    · exact ⟨trivial, fun _ _ _ _ => ⟨trivial, fun _ _ _ _ => trivial⟩⟩
    · refine (obeys_await (q := .holding record) (.runtime .now) (.inl rfl)).bind ?_
      rintro _ now ⟨rfl, -⟩
      split_ifs
      · exact trivial
      · refine (obeys_issueSession (q := .holding record) (.inr ⟨record, rfl, rfl⟩)).bind ?_
        rintro _ tokens ⟨b, rfl, hsession⟩
        refine (obeys_opened (p := auditLog _ _) (await_uses trivial)).bind ?_
        rintro _ _ rfl
        exact ⟨_, b, rfl, hsession⟩

theorem obeys_logout {refreshToken : String} :
    (protocol cfg core).Obeys (fun q _ => q = .aside) .aside
      (AuthService.logout cfg refreshToken) := by
  refine (obeys_await (q := .aside) (.refreshTokens (.findByTokenHash _)) trivial).bind ?_
  rintro _ found ⟨rfl, -⟩
  cases found with
  | none => exact rfl
  | some record =>
    dsimp only
    split_ifs
    · exact rfl
    · exact ⟨trivial, fun _ _ _ _ => ⟨trivial, fun _ _ _ _ => rfl⟩⟩

theorem obeys_outside {c : Call} (hc : c.Outside) :
    (protocol cfg core).Obeys (Stage.Answers cfg) .aside (c.prog cfg) := by
  obtain ⟨β, p, f, hprog, huses, hreply⟩ := Call.Outside.uses hc
  rw [hprog]
  refine obeys_aside huses
    (fun _ ho => ho.elim keepsLogins_of_route keepsLogins_of_watch) fun b => ?_
  have hout := hreply b
  cases hf : f b <;> rw [hf] at hout <;> first | exact hout.elim | trivial

/-- **Every request of the server obeys the protocol.** -/
theorem obeys_prog (c : Call) :
    (protocol cfg core).Obeys (Stage.Answers cfg) (Stage.start c) (c.prog cfg) := by
  cases c with
  | register input =>
    refine obeys_register.bind ?_
    rintro _ x ⟨b, rfl, hsession⟩; exact ⟨rfl, hsession⟩
  | login input =>
    refine obeys_login.bind ?_
    rintro _ x ⟨b, rfl, hsession⟩; exact ⟨rfl, hsession⟩
  | loginWithGoogle profile =>
    refine obeys_loginWithGoogle.bind ?_
    rintro _ x ⟨b, rfl, hsession⟩; exact ⟨rfl, hsession⟩
  | refresh refreshToken =>
    refine obeys_refresh.bind ?_
    rintro _ tokens ⟨id, b, rfl, hsession⟩; exact hsession
  | logout refreshToken =>
    refine obeys_logout.bind ?_
    rintro _ _ rfl; trivial
  | verifyEmail token =>
    exact obeys_aside verifyEmail_uses (fun _ => keepsLogins_of_mail) fun _ => trivial
  | resendVerificationEmail email =>
    exact obeys_aside (f := fun _ => .done) resendVerificationEmail_uses
      (fun _ => keepsLogins_of_mail) fun _ => trivial
  | _ => exact obeys_outside trivial

end SignIn

end HelixServer
