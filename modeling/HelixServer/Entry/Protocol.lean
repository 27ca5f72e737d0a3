import HelixServer.Tokens.AccessToken
import HelixServer.Verification.Growth

/-!
# What lets a request into an account

A request opens a session for an account that it has created, or for one that it has been let into
by a password, a Google id, a verified Google e-mail or a refresh token (`Passed`), and it answers
the tokens of that session (`Grants`).  An account is created with the password hash or the Google
id of its request (`Creates`), and gets another Google id only from a verified profile for its
e-mail (`Links`).  Along every run this is so for every call and every reply (`entry_kept`).
-/

namespace HelixServer

namespace Entry

open Async
open Verification (shown Found)

variable {cfg : Config} {core : Core}

/-! ### The conditions -/

/-- The account that a call has created. -/
def created (e : Event (server cfg core)) : Option String :=
  match e with
  | ⟨.accounts (.create _), row, _⟩ => some (AccountRecord.id row)
  | _ => none

/-- The calls have created the account. -/
def Made (es : List (Event (server cfg core))) (a : String) : Prop := ∃ e ∈ es, created e = some a

instance (es : List (Event (server cfg core))) (a : String) : Decidable (Made es a) :=
  inferInstanceAs (Decidable (∃ e ∈ es, created e = some a))

/-- The accounts that a request creates. -/
inductive Creates (cfg : Config) : Call → AccountCreateData → Prop
  | register {input : RegisterInput} {data : AccountCreateData} (draw : ℕ)
      (hemail : data.email = normalizeEmail cfg.runtime input.email)
      (hpassword : data.passwordHash = some (cfg.runtime.argon2Hash draw input.password))
      (hgoogle : data.googleId = none) : Creates cfg (.register input) data
  | google {profile : GoogleProfile} {data : AccountCreateData}
      (hemail : data.email = normalizeEmail cfg.runtime profile.email)
      (hpassword : data.passwordHash = none) (hgoogle : data.googleId = some profile.googleId) :
      Creates cfg (.loginWithGoogle profile) data

/-- The patches of accounts. -/
inductive Links (cfg : Config) :
    Call → List (Event (server cfg core)) → String → AccountPatch → Prop
  | google {profile : GoogleProfile} {es : List (Event (server cfg core))} {a : String}
      (hverified : profile.emailVerified = true)
      (hfound : Found es a (normalizeEmail cfg.runtime profile.email)) :
      Links cfg (.loginWithGoogle profile) es a [.googleId (some profile.googleId)]
  | other {c : Call} {es : List (Event (server cfg core))} {a : String} {patch : AccountPatch}
      (h : ∀ x ∈ patch, x.key ≠ "googleId") : Links cfg c es a patch

/-- The ways into an account. -/
inductive Passed (cfg : Config) : Call → List (Event (server cfg core)) → String → Prop
  | created {c : Call} {es : List (Event (server cfg core))} {a : String} (h : Made es a) :
      Passed cfg c es a
  | password {input : LoginInput} {es : List (Event (server cfg core))}
      {e : Event (server cfg core)} {r : AccountRecord} {passwordHash : String} (he : e ∈ es)
      (hshown : shown e = some r) (hhash : r.passwordHash = some passwordHash)
      (hvalid : cfg.runtime.argon2Verify passwordHash input.password = true) :
      Passed cfg (.login input) es r.id
  | google {profile : GoogleProfile} {es : List (Event (server cfg core))}
      {e : Event (server cfg core)} {r : AccountRecord} (he : e ∈ es) (hshown : shown e = some r)
      (hgoogle : r.googleId = some profile.googleId) : Passed cfg (.loginWithGoogle profile) es r.id
  | email {profile : GoogleProfile} {es : List (Event (server cfg core))} {a : String}
      (hverified : profile.emailVerified = true)
      (hfound : Found es a (normalizeEmail cfg.runtime profile.email)) :
      Passed cfg (.loginWithGoogle profile) es a
  | token {refreshToken : String} {es : List (Event (server cfg core))}
      {record : RefreshTokenRecord} {w : World core}
      (he : ⟨.refreshTokens (.findByTokenHash (hashRefreshToken cfg.runtime refreshToken)),
        some record, w⟩ ∈ es) : Passed cfg (.refresh refreshToken) es record.accountId

/-- The tokens are those of a session that the calls have opened for the account. -/
def Grants (cfg : Config) (es : List (Event (server cfg core))) (a : String)
    (tokens : AuthTokens) : Prop :=
  ∃ data w, ∃ row : RefreshTokenRecord, ∃ i : Tokens.Issuance,
    ⟨.refreshTokens (.create data), row, w⟩ ∈ es ∧ data.accountId = a ∧
      data.tokenHash = hashRefreshToken cfg.runtime tokens.refreshToken ∧ i.accountId = a ∧
      tokens.accessToken = i.token cfg.runtime cfg.accessTokenSecret

/-- The conditions on calls and replies. -/
def entry (cfg : Config) (core : Core) : History (server cfg core) where
  allowed c es
    | .accounts (.create data) => Creates cfg c data
    | .accounts (.update a patch) => Links cfg c es a patch
    | .refreshTokens (.create data) => Passed cfg c es data.accountId
    | _ => True
  answers _ es reply :=
    match reply with
    | .session account tokens => Grants cfg es account.id tokens
    | .tokens tokens => ∃ a, Grants cfg es a tokens
    | _ => True

/-! ### The programs -/

section Programs

variable {c : Call} {es es' : List (Event (server cfg core))} {a email : String}
  {profile : GoogleProfile} {account : AccountRecord} {α : Type}

theorem Made.mono (h : Made es a) (hes : es <+: es') : Made es' a := by
  obtain ⟨e, he, hcreated⟩ := h
  exact ⟨e, hes.subset he, hcreated⟩

theorem shown_of_created {e : Event (server cfg core)} (h : created e = some a) :
    ∃ r, shown e = some r ∧ r.id = a := by
  unfold created at h
  split at h
  · exact ⟨_, rfl, Option.some.inj h⟩
  · cases h

theorem Passed.mono (h : Passed cfg c es a) (hes : es <+: es') : Passed cfg c es' a := by
  cases h with
  | created h => exact .created (h.mono hes)
  | password he hshown hhash hvalid => exact .password (hes.subset he) hshown hhash hvalid
  | google he hshown hgoogle => exact .google (hes.subset he) hshown hgoogle
  | email hverified hfound => exact .email hverified (hfound.mono hes)
  | token he => exact .token (hes.subset he)

theorem Grants.mono {tokens : AuthTokens} (h : Grants cfg es a tokens) (hes : es <+: es') :
    Grants cfg es' a tokens := by
  obtain ⟨data, w, row, i, he, hrest⟩ := h
  exact ⟨data, w, row, i, hes.subset he, hrest⟩

/-- The calls that let nobody in. -/
def Plain : Op → Prop
  | .accounts (.create _) | .accounts (.update _ _) | .refreshTokens (.create _) => False
  | _ => True

theorem Plain.allowed {o : Op} (h : Plain o) : (entry cfg core).allowed c es o := by
  cases o with
  | accounts o => cases o <;> first | exact h.elim | trivial
  | refreshTokens o => cases o <;> first | exact h.elim | trivial
  | _ => trivial

theorem plain_of_identity {o : Op} (h : IdentityCall o) : Plain o := by
  cases o <;> first | exact h.elim | trivial

theorem plain_of_route {o : Op} (h : RouteCall o) : Plain o := by
  cases o with
  | accounts o => cases o <;> first | exact h.elim | trivial
  | _ => first | exact h.elim | trivial

theorem plain_of_watch {o : Op} (h : WatchCall o) : Plain o := by
  cases o with
  | accounts o => cases o <;> first | exact h.elim | trivial
  | _ => first | exact h.elim | trivial

theorem obeys_step {o : Op} (ha : (entry cfg core).allowed c es o) :
    (entry cfg core).protocol.Obeys
      (fun q r => ∃ w w', o.exec cfg w = (.ok r, w') ∧ q = (c, es ++ [⟨o, r, w⟩])) (c, es)
      (await o) :=
  History.obeys_step ha

theorem obeys_plain {R : HelixError → Prop} {p : Promise α} (hp : p.Uses Plain R) :
    (entry cfg core).protocol.Obeys (fun q _ => q.1 = c ∧ es <+: q.2) (c, es) p :=
  History.obeys_uses hp fun _ _ ho => ho.allowed

theorem obeys_auditLog {eventType : String} {payload : AuditPayload} :
    (entry cfg core).protocol.Obeys (fun q _ => q.1 = c ∧ es <+: q.2) (c, es)
      (auditLog eventType payload) :=
  obeys_plain (R := fun _ => True) (await_uses trivial)

theorem obeys_provision :
    (entry cfg core).protocol.Obeys (fun q _ => q.1 = c ∧ es <+: q.2) (c, es)
      (provisionAccountIssuerDid cfg a) :=
  obeys_plain (R := fun _ => True)
    (uses_widen (provisionAccountIssuerDid_uses fun _ _ _ => trivial) fun _ => plain_of_identity)

/-- A session is opened for an account that the request has been let into. -/
theorem obeys_issueSession {replacing : Option String} (h : Passed cfg c es a) :
    (entry cfg core).protocol.Obeys (fun q tokens => Grants cfg q.2 a tokens) (c, es)
      (AuthService.issueSession cfg a replacing) := by
  refine (obeys_step (o := .runtime (.randomBytes 32)) trivial).bind ?_
  rintro _ bytes ⟨w₁, -, -, rfl⟩
  refine (obeys_step (o := .runtime .now) trivial).bind ?_
  rintro _ now ⟨w₂, -, -, rfl⟩
  refine (obeys_step ?_).bind ?_
  · exact h.mono ((List.prefix_append ..).trans (List.prefix_append ..))
  rintro _ created ⟨w₃, w₃', -, rfl⟩
  set es₁ := es ++ [_] ++ [_] ++ [_]
  have hend : ∀ es₂, es₁ <+: es₂ → (entry cfg core).protocol.Obeys
      (fun q tokens => Grants cfg q.2 a tokens) (c, es₂)
      (issueAccessToken cfg.runtime a cfg.accessTokenSecret cfg.accessTokenTtlSeconds >>=
        fun accessToken => pure (AuthTokens.mk accessToken (opaqueToken "rft" bytes)
          cfg.accessTokenTtlSeconds)) := by
    intro es₂ hes
    refine (obeys_step (o := .runtime .now) trivial).bind ?_
    rintro _ now ⟨w₄, -, -, rfl⟩
    refine (obeys_step (o := .runtime (.randomBytes 9)) trivial).bind ?_
    rintro _ nonce ⟨w₅, -, -, rfl⟩
    exact ⟨_, w₃, created, ⟨a, _, cfg.accessTokenTtlSeconds, now, nonce⟩,
      List.mem_append_left _ (List.mem_append_left _ (hes.subset List.mem_concat_self)), rfl,
        rfl, rfl, rfl⟩
  cases replacing with
  | none => exact hend es₁ List.prefix_rfl
  | some old =>
    refine (obeys_step (by trivial)).bind ?_
    rintro _ _ ⟨w₄, -, -, rfl⟩
    exact hend _ (List.prefix_append ..)

theorem obeys_create {data : AccountCreateData} (h : Creates cfg c data) :
    (entry cfg core).protocol.Obeys (fun q r => q.1 = c ∧ es <+: q.2 ∧ Made q.2 r.id) (c, es)
      (await (.accounts (.create data))) := by
  refine (obeys_step ?_).mono ?_
  · exact h
  rintro _ row ⟨w, w', he, rfl⟩
  exact ⟨rfl, List.prefix_append .., _, List.mem_concat_self, rfl⟩

theorem obeys_update {patch : AccountPatch}
    (h : ∀ x ∈ patch, x.key ≠ "googleId") :
    (entry cfg core).protocol.Obeys (fun q r => q.1 = c ∧ es <+: q.2 ∧ r.id = a) (c, es)
      (await (.accounts (.update a patch))) := by
  refine (obeys_step ?_).mono ?_
  · exact Links.other h
  rintro _ row ⟨w, w', he, rfl⟩
  exact ⟨rfl, List.prefix_append .., Accounts.update_id (Op.exec_of_accounts he)⟩

theorem obeys_setIssuerDid {did : String} :
    (entry cfg core).protocol.Obeys (fun q r => q.1 = c ∧ es <+: q.2 ∧ r.id = a) (c, es)
      (AccountRepository.setIssuerDid a did) :=
  obeys_update (by simp [AccountAssign.key])

theorem obeys_markEmailVerified :
    (entry cfg core).protocol.Obeys (fun q r => q.1 = c ∧ es <+: q.2 ∧ r.id = a) (c, es)
      (AccountRepository.markEmailVerified a) := by
  refine (obeys_step (o := .runtime .now) trivial).bind ?_
  rintro _ now ⟨w, -, -, rfl⟩
  refine (obeys_update (by simp [AccountAssign.key])).mono ?_
  rintro ⟨c, es₁⟩ row ⟨rfl, hes, hid⟩
  exact ⟨rfl, (List.prefix_append ..).trans hes, hid⟩

theorem obeys_markVerifiedIf {cond : Bool} :
    (entry cfg core).protocol.Obeys (fun q r => q.1 = c ∧ es <+: q.2 ∧ r.id = account.id) (c, es)
      (AuthService.markVerifiedIf cond account) := by
  cases cond with
  | true => exact obeys_markEmailVerified
  | false => exact ⟨rfl, List.prefix_rfl, rfl⟩

theorem obeys_sendVerificationEmail :
    (entry cfg core).protocol.Obeys (fun q _ => q.1 = c ∧ es <+: q.2) (c, es)
      (AuthService.sendVerificationEmail cfg a email) := by
  unfold AuthService.sendVerificationEmail
  split_ifs
  · refine (obeys_step (o := .runtime (.randomBytes 32)) trivial).bind ?_
    rintro _ bytes ⟨w₁, -, -, rfl⟩
    refine (obeys_step (o := .runtime .now) trivial).bind ?_
    rintro _ now ⟨w₂, -, -, rfl⟩
    refine (obeys_update (by simp [AccountAssign.key])).bind ?_
    rintro ⟨c, es₁⟩ row ⟨rfl, hes₁, -⟩
    refine (obeys_step (by trivial)).mono ?_
    rintro _ _ ⟨w₃, -, -, rfl⟩
    exact ⟨rfl, ((List.prefix_append ..).trans (List.prefix_append ..)).trans
      (hes₁.trans (List.prefix_append ..))⟩
  · exact ⟨rfl, List.prefix_rfl⟩

theorem obeys_register {input : RegisterInput} :
    (entry cfg core).protocol.Obeys (fun q x => Grants cfg q.2 x.1.id x.2) (.register input, es)
      (AuthService.register cfg input) := by
  refine (obeys_step (by trivial)).bind ?_
  rintro _ found ⟨w, -, -, rfl⟩
  cases found with
  | some account => trivial
  | none =>
    refine (obeys_step (o := .runtime (.argon2Hash input.password)) trivial).bind ?_
    rintro _ passwordHash ⟨w₁, w₁', hexec, rfl⟩
    have hhash : passwordHash = cfg.runtime.argon2Hash w₁.draws input.password := by
      cases hexec
      rfl
    refine (obeys_create ?_).bind ?_
    · exact .register w₁.draws rfl (congrArg some hhash) rfl
    rintro ⟨c, es₀⟩ account ⟨rfl, -, hmade⟩
    refine obeys_provision.bind ?_
    rintro ⟨c, es₁⟩ did ⟨rfl, hes₁⟩
    refine obeys_setIssuerDid.bind ?_
    rintro ⟨c, es₂⟩ withDid ⟨rfl, hes₂, hid⟩
    refine obeys_auditLog.bind ?_
    rintro ⟨c, es₃⟩ _ ⟨rfl, hes₃⟩
    refine obeys_sendVerificationEmail.bind ?_
    rintro ⟨c, es₄⟩ _ ⟨rfl, hes₄⟩
    have hes : _ <+: es₄ := hes₁.trans (hes₂.trans (hes₃.trans hes₄))
    refine (obeys_issueSession (.created (hmade.mono hes))).bind ?_
    rintro ⟨c, es₅⟩ tokens hgrants
    change Grants cfg es₅ withDid.id tokens
    rw [hid]
    exact hgrants

theorem obeys_login {input : LoginInput} :
    (entry cfg core).protocol.Obeys (fun q x => Grants cfg q.2 x.1.id x.2) (.login input, es)
      (AuthService.login cfg input) := by
  refine (obeys_step (by trivial)).bind ?_
  rintro _ found ⟨w, -, -, rfl⟩
  cases found with
  | none =>
    refine obeys_auditLog.bind ?_
    rintro _ _ _
    trivial
  | some account =>
    dsimp only
    cases hhash : account.passwordHash with
    | none => trivial
    | some passwordHash =>
      refine (obeys_step (o := .runtime (.argon2Verify passwordHash input.password))
        trivial).bind ?_
      rintro _ valid ⟨w₁, w₁', hexec, rfl⟩
      have hvalid : valid = cfg.runtime.argon2Verify passwordHash input.password := by
        cases hexec
        rfl
      cases valid with
      | true =>
        refine obeys_auditLog.bind ?_
        rintro ⟨c, es₁⟩ _ ⟨rfl, hes₁⟩
        have hpassed : Passed cfg (.login input) es₁ account.id :=
          .password (hes₁.subset (List.mem_append_left _ List.mem_concat_self)) rfl
            hhash hvalid.symm
        refine (obeys_issueSession hpassed).bind ?_
        rintro ⟨c, es₂⟩ tokens hgrants
        exact hgrants
      | false =>
        refine obeys_auditLog.bind ?_
        rintro _ _ _
        trivial

theorem obeys_linkByEmail
    (hfound : Found es account.id (normalizeEmail cfg.runtime profile.email)) :
    (entry cfg core).protocol.Obeys
      (fun q r => q.1 = .loginWithGoogle profile ∧ Passed cfg q.1 q.2 r.id)
      (.loginWithGoogle profile, es) (AuthService.linkByEmail profile account) := by
  unfold AuthService.linkByEmail
  split_ifs with hverified
  · refine (obeys_step ?_).bind ?_
    · exact Links.google hverified hfound
    rintro _ linked ⟨w, w', he, rfl⟩
    have hid : linked.id = account.id := Accounts.update_id (Op.exec_of_accounts he)
    refine obeys_markVerifiedIf.bind ?_
    rintro ⟨c, es₁⟩ account' ⟨rfl, hes₁, hid'⟩
    refine obeys_auditLog.bind ?_
    rintro ⟨c, es₂⟩ _ ⟨rfl, hes₂⟩
    have hpassed : Passed cfg (.loginWithGoogle profile) es account.id := .email hverified hfound
    refine ⟨rfl, ?_⟩
    change Passed cfg _ es₂ account'.id
    rw [hid', hid]
    exact hpassed.mono ((List.prefix_append ..).trans (hes₁.trans hes₂))
  · trivial

theorem obeys_createFromGoogle (hemail : email = normalizeEmail cfg.runtime profile.email) :
    (entry cfg core).protocol.Obeys
      (fun q r => q.1 = .loginWithGoogle profile ∧ Passed cfg q.1 q.2 r.id)
      (.loginWithGoogle profile, es) (AuthService.createFromGoogle cfg profile email) := by
  refine (obeys_create ?_).bind ?_
  · exact .google hemail rfl rfl
  rintro ⟨c, es₀⟩ created ⟨rfl, -, hmade⟩
  refine obeys_provision.bind ?_
  rintro ⟨c, es₁⟩ did ⟨rfl, hes₁⟩
  refine obeys_setIssuerDid.bind ?_
  rintro ⟨c, es₂⟩ withDid ⟨rfl, hes₂, hid⟩
  refine obeys_markVerifiedIf.bind ?_
  rintro ⟨c, es₃⟩ account' ⟨rfl, hes₃, hid'⟩
  refine obeys_auditLog.bind ?_
  rintro ⟨c, es₄⟩ _ ⟨rfl, hes₄⟩
  refine ⟨rfl, .created ?_⟩
  change Made es₄ account'.id
  rw [hid', hid]
  exact hmade.mono (hes₁.trans (hes₂.trans (hes₃.trans hes₄)))

theorem obeys_googleAccount :
    (entry cfg core).protocol.Obeys
      (fun q r => q.1 = .loginWithGoogle profile ∧ Passed cfg q.1 q.2 r.id)
      (.loginWithGoogle profile, es) (AuthService.googleAccount cfg profile) := by
  refine (obeys_step (by trivial)).bind ?_
  rintro _ found ⟨w, w', hexec, rfl⟩
  cases found with
  | some account =>
    have hfind := congrArg Prod.fst (Op.exec_of_accounts hexec)
    have hgoogle : account.googleId = some profile.googleId := by
      simpa using List.find?_some (Except.ok.inj hfind)
    exact ⟨rfl, .google List.mem_concat_self rfl hgoogle⟩
  | none =>
    refine (obeys_step (by trivial)).bind ?_
    rintro _ found ⟨w₁, w₁', hexec₁, rfl⟩
    cases found with
    | some existingByEmail =>
      have hfind := congrArg Prod.fst (Op.exec_of_accounts hexec₁)
      have hemail : existingByEmail.email = normalizeEmail cfg.runtime profile.email := by
        simpa using List.find?_some (Except.ok.inj hfind)
      exact obeys_linkByEmail ⟨_, List.mem_concat_self, existingByEmail, rfl, rfl, hemail⟩
    | none => exact obeys_createFromGoogle rfl

theorem obeys_loginWithGoogle :
    (entry cfg core).protocol.Obeys (fun q x => Grants cfg q.2 x.1.id x.2)
      (.loginWithGoogle profile, es) (AuthService.loginWithGoogle cfg profile) := by
  refine obeys_googleAccount.bind ?_
  rintro ⟨c, es₁⟩ account ⟨rfl, hpassed⟩
  refine obeys_auditLog.bind ?_
  rintro ⟨c, es₂⟩ _ ⟨rfl, hes₂⟩
  refine (obeys_issueSession (hpassed.mono hes₂)).bind ?_
  rintro ⟨c, es₃⟩ tokens hgrants
  exact hgrants

theorem obeys_rotateUnexpired {record : RefreshTokenRecord} (h : Passed cfg c es record.accountId) :
    (entry cfg core).protocol.Obeys (fun q tokens => Grants cfg q.2 record.accountId tokens) (c, es)
      (AuthService.rotateUnexpired cfg record) := by
  refine (obeys_step (o := .runtime .now) trivial).bind ?_
  rintro _ now ⟨w, -, -, rfl⟩
  split_ifs
  · trivial
  · refine (obeys_issueSession (h.mono (List.prefix_append ..))).bind ?_
    rintro ⟨c, es₁⟩ tokens hgrants
    refine obeys_auditLog.bind ?_
    rintro ⟨c, es₂⟩ _ ⟨rfl, hes₂⟩
    exact hgrants.mono hes₂

theorem obeys_refresh {refreshToken : String} :
    (entry cfg core).protocol.Obeys (fun q tokens => ∃ a, Grants cfg q.2 a tokens)
      (.refresh refreshToken, es) (AuthService.refresh cfg refreshToken) := by
  refine (obeys_step (by trivial)).bind ?_
  rintro _ found ⟨w, -, -, rfl⟩
  cases found with
  | none => trivial
  | some record =>
    dsimp only [AuthService.refreshFound]
    split_ifs
    · -- a token that is revoked ends the request
      refine (obeys_step (by trivial)).bind ?_
      rintro _ _ ⟨w₁, -, -, rfl⟩
      refine obeys_auditLog.bind ?_
      rintro _ _ _
      trivial
    · refine (obeys_rotateUnexpired (.token List.mem_concat_self)).mono ?_
      rintro q tokens hgrants
      exact ⟨_, hgrants⟩

theorem obeys_verifyEmail {token : String} :
    (entry cfg core).protocol.Obeys (fun _ _ => True) (c, es)
      (AuthService.verifyEmail cfg token) := by
  refine (obeys_step (by trivial)).bind ?_
  rintro _ found ⟨w, -, -, rfl⟩
  cases found with
  | none => trivial
  | some account =>
    dsimp only
    cases account.emailVerificationExpiresAt with
    | none => trivial
    | some expiresAt =>
      refine (obeys_step (o := .runtime .now) trivial).bind ?_
      rintro _ now ⟨w₁, -, -, rfl⟩
      split_ifs
      · trivial
      · refine obeys_markEmailVerified.bind ?_
        rintro _ _ _
        trivial

theorem obeys_resend :
    (entry cfg core).protocol.Obeys (fun _ _ => True) (c, es)
      (AuthService.resendVerificationEmail cfg email) := by
  refine (obeys_step (by trivial)).bind ?_
  rintro _ found ⟨w, -, -, rfl⟩
  cases found with
  | none => trivial
  | some account =>
    dsimp only
    split_ifs
    · trivial
    · exact obeys_sendVerificationEmail.mono fun _ _ _ => trivial

theorem logout_plain {refreshToken : String} :
    (AuthService.logout cfg refreshToken).Uses Plain (fun _ => True) := by
  refine Prog.Uses.bind (await_uses trivial) fun found => ?_
  cases found with
  | none => trivial
  | some record =>
    dsimp only
    split_ifs
    · trivial
    · exact Prog.Uses.bind (await_uses trivial) fun _ => await_uses trivial

/-- **Every program of the server keeps to the conditions.** -/
theorem entry_kept : (entry cfg core).Kept := by
  -- requests that let nobody in
  have hplain : ∀ {c : Call} {β : Type} {p : Promise β} {f : β → Reply},
      p.Uses Plain (fun _ => True) → (∀ es b, (entry cfg core).answers c es (f b)) →
      (entry cfg core).protocol.Obeys (fun q a => (entry cfg core).answers q.1 q.2 a)
        (c, []) (p >>= fun b => return f b) := by
    intro c β p f hp hans
    refine (obeys_plain hp).bind ?_
    rintro ⟨c, es⟩ b ⟨rfl, -⟩
    exact hans es b
  have houtside : ∀ {c : Call}, c.Outside → (entry cfg core).protocol.Obeys
      (fun q a => (entry cfg core).answers q.1 q.2 a) (c, []) (c.prog cfg) := by
    intro c hc
    obtain ⟨β, p, f, hprog, huses, hreply⟩ := Call.Outside.uses hc
    rw [hprog]
    refine hplain (uses_widen huses fun _ ho => ho.elim plain_of_route plain_of_watch)
      fun es b => ?_
    have hb := hreply b
    cases hf : f b <;> rw [hf] at hb <;> first | exact hb.elim | trivial
  intro c
  cases c with
  | register input =>
    refine obeys_register.bind ?_
    rintro ⟨c, es⟩ _ hgrants
    exact hgrants
  | login input =>
    refine obeys_login.bind ?_
    rintro ⟨c, es⟩ _ hgrants
    exact hgrants
  | loginWithGoogle profile =>
    refine obeys_loginWithGoogle.bind ?_
    rintro ⟨c, es⟩ _ hgrants
    exact hgrants
  | refresh refreshToken =>
    refine obeys_refresh.bind ?_
    rintro ⟨c, es⟩ _ hgrants
    exact hgrants
  | verifyEmail token =>
    refine obeys_verifyEmail.bind ?_
    rintro _ _ _
    trivial
  | resendVerificationEmail email =>
    refine obeys_resend.bind ?_
    rintro _ _ _
    trivial
  | logout refreshToken => exact hplain (f := fun _ => .done) logout_plain fun _ _ => trivial
  | _ => exact houtside trivial

end Programs

end Entry

end HelixServer
