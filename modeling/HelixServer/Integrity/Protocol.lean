import HelixServer.Entry.Protocol

/-!
# What justifies a write

Every request that writes a row for an account has been answered that account before (`Known`): it
has found or created it, or found a refresh token or a link of it.  It marks an account as verified
only with a mailed token or a verified Google profile (`Confirmed`), revokes only tokens of the
account whose token it presents (`Presented`), and logs only what it has done (`Records`).  Along
every run this is so for every call and every reply (`causes_kept`).
-/

namespace HelixServer

namespace Integrity

open Async
open Verification (answered shown Found tokenPatch verifiedPatch)
open Entry (Made Passed Grants)

variable {cfg : Config} {core : Core}

/-! ### The conditions -/

/-- The account that a call has answered, or the account of the row that it has answered. -/
def named (e : Event (server cfg core)) : Option String :=
  match e with
  | ⟨.accounts o, r, _⟩ => (answered o r).map (·.id)
  | ⟨.refreshTokens (.findByTokenHash _), record, _⟩ =>
    Option.map RefreshTokenRecord.accountId record
  | ⟨.links _ (.getAccountId _), owner, _⟩ => owner
  | _ => none

/-- The request has been answered the account. -/
def Known (es : List (Event (server cfg core))) (a : String) : Prop := ∃ e ∈ es, named e = some a

/-- The call has been made. -/
def Did (es : List (Event (server cfg core))) (o : Op) : Prop := ∃ e ∈ es, e.op = o

/-- The request presents a refresh token, and has been answered its row. -/
inductive Presented (cfg : Config) :
    Call → List (Event (server cfg core)) → RefreshTokenRecord → Prop
  | refresh {refreshToken : String} {es : List (Event (server cfg core))}
      {record : RefreshTokenRecord} {w : World core}
        (he : ⟨.refreshTokens (.findByTokenHash (hashRefreshToken cfg.runtime refreshToken)),
        some record, w⟩ ∈ es) : Presented cfg (.refresh refreshToken) es record
  | logout {refreshToken : String} {es : List (Event (server cfg core))}
      {record : RefreshTokenRecord} {w : World core}
        (he : ⟨.refreshTokens (.findByTokenHash (hashRefreshToken cfg.runtime refreshToken)),
        some record, w⟩ ∈ es) : Presented cfg (.logout refreshToken) es record

/-- The request proves that the e-mail of the account is its user's: it presents the token that is
stored for the account before it expires, or a verified Google profile with the e-mail. -/
inductive Confirmed (cfg : Config) : Call → List (Event (server cfg core)) → String → Prop
  | token {token : String} {es : List (Event (server cfg core))} {account : AccountRecord}
      {expiresAt now : ℕ} {w w' : World core}
      (he : ⟨.accounts (.findByEmailVerificationTokenHash (hashOpaqueToken cfg.runtime token)),
        some account, w⟩ ∈ es) (hexpires : account.emailVerificationExpiresAt = some expiresAt)
      (hnow : ⟨.runtime .now, now, w'⟩ ∈ es) (hlt : now < expiresAt) :
      Confirmed cfg (.verifyEmail token) es account.id
  | google {profile : GoogleProfile} {es : List (Event (server cfg core))} {a : String}
      (hverified : profile.emailVerified = true)
      (hfound : Found es a (normalizeEmail cfg.runtime profile.email)) :
      Confirmed cfg (.loginWithGoogle profile) es a

/-- The patches of accounts. -/
inductive Patches (cfg : Config) (c : Call) (es : List (Event (server cfg core))) (a : String) :
    AccountPatch → Prop
  | googleId (h : Known es a) (googleId : String) : Patches cfg c es a [.googleId (some googleId)]
  | issuerDid (h : Known es a) :
      Patches cfg c es a [.issuerDid (some (buildAccountIssuerDid cfg.didDomain a))]
  | token (h : Known es a) (tokenHash : String) (expiresAt : ℕ) :
      Patches cfg c es a (tokenPatch tokenHash expiresAt)
  | verified (h : Confirmed cfg c es a) (now : ℕ) : Patches cfg c es a (verifiedPatch now)

/-- The access token of the request names the account, which has been found. -/
def Bearer (cfg : Config) (request : Request) (es : List (Event (server cfg core))) (a : String) :
    Prop :=
  ∃ token payload now w, request.bearerToken = some token ∧ ⟨.runtime .now, now, w⟩ ∈ es ∧
    cfg.verifyAccessToken token now = .ok payload ∧ payload.accountId = a ∧ Known es a

/-- What a request logs of what it has done. -/
inductive Records (cfg : Config) :
    Call → List (Event (server cfg core)) → String → AuditPayload → Prop
  | registered {c : Call} {es : List (Event (server cfg core))} {a : String} (fields : AuditPayload)
      (h : Made es a) : Records cfg c es "ACCOUNT_REGISTERED" (accountFields a ++ fields)
  | linked {c : Call} {es : List (Event (server cfg core))} {a : String} (fields : AuditPayload)
      (h : Passed cfg c es a) : Records cfg c es "ACCOUNT_GOOGLE_LINKED" (accountFields a ++ fields)
  | loginSucceeded {c : Call} {es : List (Event (server cfg core))} {a : String}
      (fields : AuditPayload) (h : Passed cfg c es a) :
      Records cfg c es "ACCOUNT_LOGIN_SUCCEEDED" (accountFields a ++ fields)
  /-- No account has the e-mail. -/
  | notFound {c : Call} {es : List (Event (server cfg core))} {payload : AuditPayload}
      (h : payload.getString "accountId" = none) : Records cfg c es "ACCOUNT_LOGIN_FAILED" payload
  | badPassword {input : LoginInput} {es : List (Event (server cfg core))}
      {e : Event (server cfg core)} {r : AccountRecord} {passwordHash : String}
      (fields : AuditPayload) (he : e ∈ es) (hshown : shown e = some r)
      (hhash : r.passwordHash = some passwordHash)
      (hvalid : cfg.runtime.argon2Verify passwordHash input.password = false) :
      Records cfg (.login input) es "ACCOUNT_LOGIN_FAILED" (accountFields r.id ++ fields)
  | rotated {c : Call} {es : List (Event (server cfg core))} {record : RefreshTokenRecord}
      {tokens : AuthTokens} (fields : AuditPayload) (h : Presented cfg c es record)
      (hgrants : Grants cfg es record.accountId tokens) :
      Records cfg c es "REFRESH_TOKEN_ROTATED" (accountFields record.accountId ++ fields)
  | reuseDetected {c : Call} {es : List (Event (server cfg core))} {record : RefreshTokenRecord}
      (fields : AuditPayload) (h : Presented cfg c es record)
        (hrevoked : record.revokedAt.isSome = true)
      (hburnt : Did es (.refreshTokens (.revokeAllForAccount record.accountId))) :
      Records cfg c es "REFRESH_TOKEN_REUSE_DETECTED" (accountFields record.accountId ++ fields)
  | loggedOut {c : Call} {es : List (Event (server cfg core))} {record : RefreshTokenRecord}
      (h : Presented cfg c es record) (hrevoked : Did es (.refreshTokens (.revoke record.id))) :
      Records cfg c es "ACCOUNT_LOGOUT" (accountFields record.accountId)
  | vcIssued {request : Request} {params : Json} {es : List (Event (server cfg core))}
      {a vcId : String} {w : World core} (h : Bearer cfg request es a)
      (he : ⟨.core (.issueVC params request.id), vcId, w⟩ ∈ es) :
      Records cfg (.issueVC request params) es accountVcIssued
        [("requestId", .str request.id), ("accountId", .str a), ("vcId", .str vcId)]
  | enrollmentTokenGenerated {request : Request} {body : EnrollmentTokenBody}
      {es : List (Event (server cfg core))} {a token : String} {w : World core}
      (h : Bearer cfg request es a)
      (he : ⟨.core (.generateEnrollmentToken body request.id), token, w⟩ ∈ es) :
      Records cfg (.enrollmentTokens request body) es accountEnrollmentTokenGenerated
        [("requestId", .str request.id), ("accountId", .str a),
          ("tokenIdHash", .str (cfg.runtime.hashToken token))]

/-- What the operator posts. -/
inductive Posts (cfg : Config) : Call → String → AuditPayload → Prop
  | ingest {route : IngestRoute} {request : Request} {body : Json} {entry : AuditEntryData}
      (timestamp : String) (hadmin : request.isAdmin cfg = true)
      (hentry : route.entry request.id body = .ok entry) :
      Posts cfg (.ingest route request body) entry.event (entry.payload timestamp)

/-- The request has logged the event of the account. -/
def Logged (es : List (Event (server cfg core))) (eventType a : String) : Prop :=
  ∃ fields, Did es (.audit (.log eventType (accountFields a ++ fields)))

/-- What a sign-in has logged. -/
def signInEvent : Call → String
  | .register _ => "ACCOUNT_REGISTERED"
  | _ => "ACCOUNT_LOGIN_SUCCEEDED"

/-- The conditions on calls and replies. -/
def causes (cfg : Config) (core : Core) : History (server cfg core) where
  allowed c es
    | .accounts (.update a patch) => Patches cfg c es a patch
    | .issuerKeys (.create data) => Known es data.accountId
    | .refreshTokens (.create data) => Known es data.accountId
    | .refreshTokens (.revoke id _) => ∃ record, Presented cfg c es record ∧ record.id = id
    | .refreshTokens (.revokeAllForAccount a) =>
      ∃ record, Presented cfg c es record ∧ record.accountId = a
    | .links _ (.link _ a) => Known es a
    | .audit (.log eventType payload) | .audit (.logDetached eventType payload) =>
      Records cfg c es eventType payload
    | .audit (.logEntry eventType _ payload) => Posts cfg c eventType payload
    | _ => True
  answers c es reply :=
    match c, reply with
    | c, .session account _ => Logged es (signInEvent c) account.id
    | c, .tokens _ => ∃ record, Presented cfg c es record ∧
        Logged es "REFRESH_TOKEN_ROTATED" record.accountId
    | .logout _, .done => ∀ id link, Did es (.refreshTokens (.revoke id link)) →
        ∃ record, Presented cfg c es record ∧ record.id = id ∧
          Logged es "ACCOUNT_LOGOUT" record.accountId
    | _, _ => True

/-! ### What a request knows -/

section Known

variable {c : Call} {es es' : List (Event (server cfg core))} {a email eventType : String} {o : Op}
  {payload : AuditPayload} {record : RefreshTokenRecord} {request : Request}
  {e : Event (server cfg core)} {r : AccountRecord}

theorem Known.mono (h : Known es a) (hes : es <+: es') : Known es' a := by
  obtain ⟨e, he, hnamed⟩ := h
  exact ⟨e, hes.subset he, hnamed⟩

theorem Did.mono (h : Did es o) (hes : es <+: es') : Did es' o := by
  obtain ⟨e, he, ho⟩ := h
  exact ⟨e, hes.subset he, ho⟩

theorem Presented.mono (h : Presented cfg c es record) (hes : es <+: es') :
    Presented cfg c es' record := by
  cases h with
  | refresh he => exact .refresh (hes.subset he)
  | logout he => exact .logout (hes.subset he)

theorem Confirmed.mono (h : Confirmed cfg c es a) (hes : es <+: es') : Confirmed cfg c es' a := by
  cases h with
  | token he hexpires hnow hlt => exact .token (hes.subset he) hexpires (hes.subset hnow) hlt
  | google hverified hfound => exact .google hverified (hfound.mono hes)

theorem Bearer.mono (h : Bearer cfg request es a) (hes : es <+: es') :
    Bearer cfg request es' a := by
  obtain ⟨token, payload, now, w, htoken, hnow, hverify, ha, hknown⟩ := h
  exact ⟨token, payload, now, w, htoken, hes.subset hnow, hverify, ha, hknown.mono hes⟩

theorem Did.last {res : o.Res} {w : World core} : Did (es ++ [⟨o, res, w⟩]) o :=
  ⟨_, List.mem_concat_self, rfl⟩

theorem known_of_shown (he : e ∈ es) (hshown : shown e = some r) : Known es r.id := by
  obtain ⟨o, res, w⟩ := e
  cases o with
  | accounts o =>
    refine ⟨_, he, ?_⟩
    change answered o res = some r at hshown
    change (answered o res).map (·.id) = some r.id
    rw [hshown]
    rfl
  | _ => cases hshown

theorem known_of_found (h : Found es a email) : Known es a := by
  obtain ⟨e, he, r, hshown, rfl, -⟩ := h
  exact known_of_shown he hshown

theorem known_of_made (h : Made es a) : Known es a := by
  obtain ⟨e, he, hcreated⟩ := h
  obtain ⟨r, hshown, rfl⟩ := Entry.shown_of_created hcreated
  exact known_of_shown he hshown

theorem Presented.known (h : Presented cfg c es record) : Known es record.accountId := by
  cases h with
  | refresh he => exact ⟨_, he, rfl⟩
  | logout he => exact ⟨_, he, rfl⟩

theorem known_of_passed (h : Passed cfg c es a) : Known es a := by
  cases h with
  | created h => exact known_of_made h
  | password he hshown _ _ => exact known_of_shown he hshown
  | google he hshown _ => exact known_of_shown he hshown
  | email _ hfound => exact known_of_found hfound
  | token he => exact ⟨_, he, rfl⟩

theorem Records.known (h : Records cfg c es eventType payload)
    (ha : payload.getString "accountId" = some a) : Known es a := by
  -- the payload names the account of its cause
  have hof : ∀ {a' : String}, Known es a' → payload.getString "accountId" = some a' →
      Known es a := by
    intro a' hknown ha'
    obtain rfl : a' = a := Option.some.inj (ha'.symm.trans ha)
    exact hknown
  cases h with
  | registered fields h => exact hof (known_of_made h) rfl
  | linked fields h => exact hof (known_of_passed h) rfl
  | loginSucceeded fields h => exact hof (known_of_passed h) rfl
  | notFound h => cases h.symm.trans ha
  | badPassword fields he hshown _ _ => exact hof (known_of_shown he hshown) rfl
  | rotated fields h _ => exact hof h.known rfl
  | reuseDetected fields h _ _ => exact hof h.known rfl
  | loggedOut h _ => exact hof h.known rfl
  | vcIssued h _ =>
    obtain ⟨_, _, _, _, -, -, -, -, hknown⟩ := h
    exact hof hknown rfl
  | enrollmentTokenGenerated h _ =>
    obtain ⟨_, _, _, _, -, -, -, -, hknown⟩ := h
    exact hof hknown rfl

end Known

/-! ### The programs of the auth service -/

section Programs

variable {c : Call} {es es' : List (Event (server cfg core))} {a email : String}
  {profile : GoogleProfile} {account : AccountRecord} {record : RefreshTokenRecord} {α : Type}

theorem obeys_step {o : Op} (ha : (causes cfg core).allowed c es o) :
    (causes cfg core).protocol.Obeys
      (fun q r => ∃ w w', o.exec cfg w = (.ok r, w') ∧ q = (c, es ++ [⟨o, r, w⟩])) (c, es)
      (await o) :=
  History.obeys_step ha

theorem obeys_auditLog {eventType : String} {payload : AuditPayload}
    (h : Records cfg c es eventType payload) :
    (causes cfg core).protocol.Obeys
      (fun q _ => q.1 = c ∧ es <+: q.2 ∧ Did q.2 (.audit (.log eventType payload))) (c, es)
      (auditLog eventType payload) := by
  refine (obeys_step (o := .audit (.log eventType payload)) ?_).mono ?_
  · exact h
  rintro _ _ ⟨w, -, -, rfl⟩
  exact ⟨rfl, List.prefix_append .., .last⟩

theorem obeys_update {patch : AccountPatch} (h : Patches cfg c es a patch) :
    (causes cfg core).protocol.Obeys (fun q r => q.1 = c ∧ es <+: q.2 ∧ r.id = a) (c, es)
      (await (.accounts (.update a patch))) := by
  refine (obeys_step ?_).mono ?_
  · exact h
  rintro _ row ⟨w, w', he, rfl⟩
  exact ⟨rfl, List.prefix_append .., Accounts.update_id (Op.exec_of_accounts he)⟩

theorem obeys_markEmailVerified (h : Confirmed cfg c es a) :
    (causes cfg core).protocol.Obeys (fun q r => q.1 = c ∧ es <+: q.2 ∧ r.id = a) (c, es)
      (AccountRepository.markEmailVerified a) := by
  refine (obeys_step (o := .runtime .now) trivial).bind ?_
  rintro _ now ⟨w, -, -, rfl⟩
  refine (obeys_update (.verified (h.mono (List.prefix_append ..)) now)).mono ?_
  rintro ⟨c, es₁⟩ row ⟨rfl, hes, hid⟩
  exact ⟨rfl, (List.prefix_append ..).trans hes, hid⟩

theorem obeys_markVerifiedIf {cond : Bool} (h : cond = true → Confirmed cfg c es account.id) :
    (causes cfg core).protocol.Obeys (fun q r => q.1 = c ∧ es <+: q.2 ∧ r.id = account.id) (c, es)
      (AuthService.markVerifiedIf cond account) := by
  cases cond with
  | true => exact obeys_markEmailVerified (h rfl)
  | false => exact ⟨rfl, List.prefix_rfl, rfl⟩

theorem obeys_sendVerificationEmail (h : Known es a) :
    (causes cfg core).protocol.Obeys (fun q _ => q.1 = c ∧ es <+: q.2) (c, es)
      (AuthService.sendVerificationEmail cfg a email) := by
  unfold AuthService.sendVerificationEmail
  split_ifs
  · refine (obeys_step (o := .runtime (.randomBytes 32)) trivial).bind ?_
    rintro _ bytes ⟨w₁, -, -, rfl⟩
    refine (obeys_step (o := .runtime .now) trivial).bind ?_
    rintro _ now ⟨w₂, -, -, rfl⟩
    refine (obeys_update (.token ?_ _ _)).bind ?_
    · exact h.mono ((List.prefix_append ..).trans (List.prefix_append ..))
    rintro ⟨c, es₁⟩ row ⟨rfl, hes₁, -⟩
    refine (obeys_step (by trivial)).mono ?_
    rintro _ _ ⟨w₃, -, -, rfl⟩
    exact ⟨rfl, ((List.prefix_append ..).trans (List.prefix_append ..)).trans
      (hes₁.trans (List.prefix_append ..))⟩
  · exact ⟨rfl, List.prefix_rfl⟩

theorem obeys_provision (h : Known es a) :
    (causes cfg core).protocol.Obeys
      (fun q did => q.1 = c ∧ es <+: q.2 ∧ did = buildAccountIssuerDid cfg.didDomain a) (c, es)
      (provisionAccountIssuerDid cfg a) := by
  refine (obeys_step (o := .runtime .generateKeyPair) trivial).bind ?_
  rintro _ keyPair ⟨w₁, -, -, rfl⟩
  refine (obeys_step (o := .runtime (.randomBytes 12)) trivial).bind ?_
  rintro _ iv ⟨w₂, -, -, rfl⟩
  dsimp only
  split
  · trivial
  · refine (obeys_step (by trivial)).bind ?_
    rintro _ _ ⟨w₃, -, -, rfl⟩
    refine (obeys_step ?_).bind ?_
    · exact h.mono (((List.prefix_append ..).trans (List.prefix_append ..)).trans
        (List.prefix_append ..))
    rintro _ row ⟨w₄, -, -, rfl⟩
    refine ⟨rfl, ?_, rfl⟩
    simp only [List.append_assoc]
    exact List.prefix_append ..

/-- A session is opened for an account that is known, and replaces a token that is presented. -/
theorem obeys_issueSession {replacing : Option String} (h : Known es a)
    (hreplacing : ∀ id ∈ replacing, ∃ record, Presented cfg c es record ∧ record.id = id) :
    (causes cfg core).protocol.Obeys
      (fun q tokens => q.1 = c ∧ es <+: q.2 ∧ Grants cfg q.2 a tokens)
      (c, es) (AuthService.issueSession cfg a replacing) := by
  refine (obeys_step (o := .runtime (.randomBytes 32)) trivial).bind ?_
  rintro _ bytes ⟨w₁, -, -, rfl⟩
  refine (obeys_step (o := .runtime .now) trivial).bind ?_
  rintro _ now ⟨w₂, -, -, rfl⟩
  refine (obeys_step ?_).bind ?_
  · exact h.mono ((List.prefix_append ..).trans (List.prefix_append ..))
  rintro _ created ⟨w₃, w₃', -, rfl⟩
  set es₁ := es ++ [_] ++ [_] ++ [_] with hes₁
  have hpre : es <+: es₁ := by
    simp only [hes₁, List.append_assoc]
    exact List.prefix_append ..
  have hend : ∀ es₂, es₁ <+: es₂ → (causes cfg core).protocol.Obeys
      (fun q tokens => q.1 = c ∧ es <+: q.2 ∧ Grants cfg q.2 a tokens) (c, es₂)
      (issueAccessToken cfg.runtime a cfg.accessTokenSecret cfg.accessTokenTtlSeconds >>=
        fun accessToken => pure (AuthTokens.mk accessToken (opaqueToken "rft" bytes)
          cfg.accessTokenTtlSeconds)) := by
    intro es₂ hes
    refine (obeys_step (o := .runtime .now) trivial).bind ?_
    rintro _ now ⟨w₄, -, -, rfl⟩
    refine (obeys_step (o := .runtime (.randomBytes 9)) trivial).bind ?_
    rintro _ nonce ⟨w₅, -, -, rfl⟩
    refine ⟨rfl, (hpre.trans hes).trans ((List.prefix_append ..).trans (List.prefix_append ..)), ?_⟩
    exact ⟨_, w₃, created, ⟨a, _, cfg.accessTokenTtlSeconds, now, nonce⟩, List.mem_append_left _
      (List.mem_append_left _ (hes.subset List.mem_concat_self)), rfl, rfl, rfl, rfl⟩
  cases replacing with
  | none => exact hend es₁ List.prefix_rfl
  | some old =>
    obtain ⟨record, hpresented, hid⟩ := hreplacing old rfl
    refine (obeys_step ?_).bind ?_
    · exact ⟨record, hpresented.mono hpre, hid⟩
    rintro _ _ ⟨w₄, -, -, rfl⟩
    exact hend _ (List.prefix_append ..)

theorem obeys_register {input : RegisterInput} :
    (causes cfg core).protocol.Obeys
      (fun q x => q.1 = .register input ∧ Logged q.2 "ACCOUNT_REGISTERED" x.1.id)
      (.register input, es) (AuthService.register cfg input) := by
  refine (obeys_step (by trivial)).bind ?_
  rintro _ found ⟨w, -, -, rfl⟩
  cases found with
  | some account => trivial
  | none =>
    refine (obeys_step (o := .runtime (.argon2Hash input.password)) trivial).bind ?_
    rintro _ passwordHash ⟨w₁, -, -, rfl⟩
    refine (obeys_step (by trivial)).bind ?_
    rintro _ account ⟨w₂, w₂', -, rfl⟩
    set es₀ := es ++ [_] ++ [_] ++ [_]
    have hmade : Made es₀ account.id := ⟨_, List.mem_concat_self, rfl⟩
    have hknown := known_of_made hmade
    refine (obeys_provision hknown).bind ?_
    rintro ⟨c, es₁⟩ did ⟨rfl, hes₁, rfl⟩
    refine (obeys_update (.issuerDid (hknown.mono hes₁))).bind ?_
    rintro ⟨c, es₂⟩ withDid ⟨rfl, hes₂, hid⟩
    refine (obeys_auditLog (.registered _ (hmade.mono (hes₁.trans hes₂)))).bind ?_
    rintro ⟨c, es₃⟩ _ ⟨rfl, hes₃, hlogged⟩
    have hes := hes₁.trans (hes₂.trans hes₃)
    refine (obeys_sendVerificationEmail (hid ▸ hknown.mono hes)).bind ?_
    rintro ⟨c, es₄⟩ _ ⟨rfl, hes₄⟩
    refine (obeys_issueSession (hknown.mono (hes.trans hes₄)) (by simp)).bind ?_
    rintro ⟨c, es₅⟩ tokens ⟨rfl, hes₅, -⟩
    refine ⟨rfl, ?_⟩
    change Logged es₅ "ACCOUNT_REGISTERED" withDid.id
    rw [hid]
    exact ⟨_, (hlogged.mono hes₄).mono hes₅⟩

theorem obeys_login {input : LoginInput} :
    (causes cfg core).protocol.Obeys
      (fun q x => q.1 = .login input ∧ Logged q.2 "ACCOUNT_LOGIN_SUCCEEDED" x.1.id)
      (.login input, es) (AuthService.login cfg input) := by
  refine (obeys_step (by trivial)).bind ?_
  rintro _ found ⟨w, -, -, rfl⟩
  cases found with
  | none =>
    refine (obeys_auditLog (.notFound rfl)).bind ?_
    rintro _ _ _
    trivial
  | some account =>
    dsimp only
    cases hhash : account.passwordHash with
    | none => trivial
    | some passwordHash =>
      refine (obeys_step (o := .runtime (.argon2Verify passwordHash input.password))
        trivial).bind ?_
      rintro _ valid ⟨w₁, w₁', hexec, rfl⟩
      have hvalid : valid = cfg.runtime.argon2Verify passwordHash input.password := by
        cases hexec
        rfl
      set es₁ := es ++ [_] ++ [_]
      have hfound : _ ∈ es₁ := List.mem_append_left _ List.mem_concat_self
      cases valid with
      | true =>
        have hpassed : Passed cfg (.login input) es₁ account.id :=
          .password hfound rfl hhash hvalid.symm
        refine (obeys_auditLog (.loginSucceeded _ hpassed)).bind ?_
        rintro ⟨c, es₂⟩ _ ⟨rfl, hes₂, hlogged⟩
        refine (obeys_issueSession (known_of_passed (hpassed.mono hes₂)) (by simp)).bind ?_
        rintro ⟨c, es₃⟩ tokens ⟨rfl, hes₃, -⟩
        exact ⟨rfl, _, hlogged.mono hes₃⟩
      | false =>
        refine (obeys_auditLog (.badPassword _ hfound rfl hhash hvalid.symm)).bind ?_
        rintro _ _ _
        trivial

theorem obeys_linkByEmail
    (hfound : Found es account.id (normalizeEmail cfg.runtime profile.email)) :
    (causes cfg core).protocol.Obeys
      (fun q r => q.1 = .loginWithGoogle profile ∧ Passed cfg q.1 q.2 r.id)
      (.loginWithGoogle profile, es) (AuthService.linkByEmail profile account) := by
  unfold AuthService.linkByEmail
  split_ifs with hverified
  · refine (obeys_update (.googleId (known_of_found hfound) _)).bind ?_
    rintro ⟨c, es₁⟩ linked ⟨rfl, hes₁, hid⟩
    have hconfirmed : Confirmed cfg (.loginWithGoogle profile) es₁ linked.id :=
      hid ▸ .google hverified (hfound.mono hes₁)
    refine (obeys_markVerifiedIf fun _ => hconfirmed).bind ?_
    rintro ⟨c, es₂⟩ account' ⟨rfl, hes₂, hid'⟩
    have hpassed : Passed cfg (.loginWithGoogle profile) es₂ account'.id :=
      .email hverified (hid' ▸ hid ▸ hfound.mono (hes₁.trans hes₂))
    refine (obeys_auditLog ?_).bind ?_
    · exact .linked [] hpassed
    rintro ⟨c, es₃⟩ _ ⟨rfl, hes₃, -⟩
    exact ⟨rfl, hpassed.mono hes₃⟩
  · trivial

theorem obeys_createFromGoogle (hemail : email = normalizeEmail cfg.runtime profile.email) :
    (causes cfg core).protocol.Obeys
      (fun q r => q.1 = .loginWithGoogle profile ∧ Passed cfg q.1 q.2 r.id)
      (.loginWithGoogle profile, es) (AuthService.createFromGoogle cfg profile email) := by
  refine (obeys_step (by trivial)).bind ?_
  rintro _ created ⟨w, w', hexec, rfl⟩
  have hcreated : created.email = email := by
    rw [Accounts.create_row (Op.exec_of_accounts hexec)]
    rfl
  set es₀ := es ++ [_]
  have hmade : Made es₀ created.id := ⟨_, List.mem_concat_self, rfl⟩
  have hfound : Found es₀ created.id (normalizeEmail cfg.runtime profile.email) :=
    ⟨_, List.mem_concat_self, created, rfl, rfl, hcreated.trans hemail⟩
  have hknown := known_of_made hmade
  refine (obeys_provision hknown).bind ?_
  rintro ⟨c, es₁⟩ did ⟨rfl, hes₁, rfl⟩
  refine (obeys_update (.issuerDid (hknown.mono hes₁))).bind ?_
  rintro ⟨c, es₂⟩ withDid ⟨rfl, hes₂, hid⟩
  have hconfirmed : profile.emailVerified = true →
      Confirmed cfg (.loginWithGoogle profile) es₂ withDid.id := fun hverified =>
    .google hverified (hid ▸ hfound.mono (hes₁.trans hes₂))
  refine (obeys_markVerifiedIf hconfirmed).bind ?_
  rintro ⟨c, es₃⟩ account' ⟨rfl, hes₃, hid'⟩
  have hes := hes₁.trans (hes₂.trans hes₃)
  refine (obeys_auditLog (.registered _ (hmade.mono hes))).bind ?_
  rintro ⟨c, es₄⟩ _ ⟨rfl, hes₄, -⟩
  refine ⟨rfl, .created ?_⟩
  change Made es₄ account'.id
  rw [hid', hid]
  exact hmade.mono (hes.trans hes₄)

theorem obeys_googleAccount :
    (causes cfg core).protocol.Obeys
      (fun q r => q.1 = .loginWithGoogle profile ∧ Passed cfg q.1 q.2 r.id)
      (.loginWithGoogle profile, es) (AuthService.googleAccount cfg profile) := by
  refine (obeys_step (by trivial)).bind ?_
  rintro _ found ⟨w, w', hexec, rfl⟩
  cases found with
  | some account =>
    have hfind := congrArg Prod.fst (Op.exec_of_accounts hexec)
    have hgoogle : account.googleId = some profile.googleId := by
      simpa using List.find?_some (Except.ok.inj hfind)
    exact ⟨rfl, .google List.mem_concat_self rfl hgoogle⟩
  | none =>
    refine (obeys_step (by trivial)).bind ?_
    rintro _ found ⟨w₁, w₁', hexec₁, rfl⟩
    cases found with
    | some existingByEmail =>
      have hfind := congrArg Prod.fst (Op.exec_of_accounts hexec₁)
      have hemail : existingByEmail.email = normalizeEmail cfg.runtime profile.email := by
        simpa using List.find?_some (Except.ok.inj hfind)
      exact obeys_linkByEmail ⟨_, List.mem_concat_self, existingByEmail, rfl, rfl, hemail⟩
    | none => exact obeys_createFromGoogle rfl

theorem obeys_loginWithGoogle :
    (causes cfg core).protocol.Obeys
      (fun q x => q.1 = .loginWithGoogle profile ∧ Logged q.2 "ACCOUNT_LOGIN_SUCCEEDED" x.1.id)
      (.loginWithGoogle profile, es) (AuthService.loginWithGoogle cfg profile) := by
  refine obeys_googleAccount.bind ?_
  rintro ⟨c, es₁⟩ account ⟨rfl, hpassed⟩
  refine (obeys_auditLog (.loginSucceeded _ hpassed)).bind ?_
  rintro ⟨c, es₂⟩ _ ⟨rfl, hes₂, hlogged⟩
  refine (obeys_issueSession (known_of_passed (hpassed.mono hes₂)) (by simp)).bind ?_
  rintro ⟨c, es₃⟩ tokens ⟨rfl, hes₃, -⟩
  exact ⟨rfl, _, hlogged.mono hes₃⟩

theorem obeys_rotateUnexpired (h : Presented cfg c es record) :
    (causes cfg core).protocol.Obeys
      (fun q _ => q.1 = c ∧ ∃ record, Presented cfg c q.2 record ∧
        Logged q.2 "REFRESH_TOKEN_ROTATED" record.accountId) (c, es)
      (AuthService.rotateUnexpired cfg record) := by
  refine (obeys_step (o := .runtime .now) trivial).bind ?_
  rintro _ now ⟨w, -, -, rfl⟩
  split_ifs
  · trivial
  · have hpresented := h.mono (List.prefix_append es [⟨.runtime .now, now, w⟩])
    refine (obeys_issueSession hpresented.known ?_).bind ?_
    · rintro id hid
      cases hid
      exact ⟨record, hpresented, rfl⟩
    rintro ⟨c, es₁⟩ tokens ⟨rfl, hes₁, hgrants⟩
    refine (obeys_auditLog (.rotated _ (hpresented.mono hes₁) hgrants)).bind ?_
    rintro ⟨c, es₂⟩ _ ⟨rfl, hes₂, hlogged⟩
    exact ⟨rfl, record, hpresented.mono (hes₁.trans hes₂), _, hlogged⟩

theorem obeys_refresh {refreshToken : String} :
    (causes cfg core).protocol.Obeys
      (fun q _ => q.1 = .refresh refreshToken ∧ ∃ record, Presented cfg q.1 q.2 record ∧
        Logged q.2 "REFRESH_TOKEN_ROTATED" record.accountId)
      (.refresh refreshToken, es) (AuthService.refresh cfg refreshToken) := by
  refine (obeys_step (by trivial)).bind ?_
  rintro _ found ⟨w, -, -, rfl⟩
  cases found with
  | none => trivial
  | some record =>
    have hpresented : Presented cfg (.refresh refreshToken)
      (es ++ [⟨.refreshTokens (.findByTokenHash
        (hashRefreshToken cfg.runtime refreshToken)), some record, w⟩]) record :=
      .refresh List.mem_concat_self
    dsimp only [AuthService.refreshFound]
    split_ifs with hrevoked
    · -- a token that is revoked burns the account's sessions
      refine (obeys_step ?_).bind ?_
      · exact ⟨record, hpresented, rfl⟩
      rintro _ _ ⟨w₁, -, -, rfl⟩
      refine (obeys_auditLog (.reuseDetected _ (hpresented.mono (List.prefix_append ..)) hrevoked
        .last)).bind ?_
      rintro _ _ _
      trivial
    · refine (obeys_rotateUnexpired hpresented).mono ?_
      rintro ⟨c, es₁⟩ tokens ⟨rfl, hlogged⟩
      exact ⟨rfl, hlogged⟩

theorem obeys_logout {refreshToken : String} :
    (causes cfg core).protocol.Obeys
      (fun q _ => q.1 = .logout refreshToken ∧
        ∀ id link, Did q.2 (.refreshTokens (.revoke id link)) →
        ∃ record, Presented cfg q.1 q.2 record ∧ record.id = id ∧
          Logged q.2 "ACCOUNT_LOGOUT" record.accountId)
      (.logout refreshToken, []) (AuthService.logout cfg refreshToken) := by
  refine (obeys_step (by trivial)).bind ?_
  rintro _ found ⟨w, -, -, rfl⟩
  -- the look-up revokes nothing
  have hnone : ∀ id link, ¬ Did ([] ++ [⟨.refreshTokens (.findByTokenHash
      (hashRefreshToken cfg.runtime refreshToken)), found, w⟩] : List (Event (server cfg core)))
      (.refreshTokens (.revoke id link)) := by
    rintro id link ⟨e, he, hop⟩
    rw [List.mem_singleton.1 he] at hop
    cases hop
  cases found with
  | none => exact ⟨rfl, fun id link hdid => absurd hdid (hnone id link)⟩
  | some record =>
    dsimp only
    split_ifs
    · exact ⟨rfl, fun id link hdid => absurd hdid (hnone id link)⟩
    · have hpresented : Presented cfg (.logout refreshToken)
          ([] ++ [⟨.refreshTokens (.findByTokenHash (hashRefreshToken cfg.runtime refreshToken)),
            some record, w⟩] : List (Event (server cfg core))) record :=
              .logout List.mem_concat_self
      refine (obeys_step ?_).bind ?_
      · exact ⟨record, hpresented, rfl⟩
      rintro _ _ ⟨w₁, -, -, rfl⟩
      refine (obeys_step
        (o := .audit (.log "ACCOUNT_LOGOUT" (accountFields record.accountId))) ?_).mono ?_
      · exact .loggedOut (hpresented.mono (List.prefix_append ..)) .last
      rintro _ _ ⟨w₂, -, -, rfl⟩
      refine ⟨rfl, ?_⟩
      rintro id link ⟨e, he, hop⟩
      simp only [List.nil_append, List.cons_append, List.mem_cons, List.not_mem_nil, or_false] at he
      rcases he with rfl | rfl | rfl
      · cases hop
      · cases hop
        exact ⟨record, hpresented.mono ((List.prefix_append ..).trans (List.prefix_append ..)), rfl,
          [], .last⟩
      · cases hop

theorem obeys_verifyEmail {token : String} :
    (causes cfg core).protocol.Obeys (fun q _ => q.1 = .verifyEmail token) (.verifyEmail token, es)
      (AuthService.verifyEmail cfg token) := by
  refine (obeys_step (by trivial)).bind ?_
  rintro _ found ⟨w, -, -, rfl⟩
  cases found with
  | none => trivial
  | some account =>
    dsimp only
    cases hexpires : account.emailVerificationExpiresAt with
    | none => trivial
    | some expiresAt =>
      refine (obeys_step (o := .runtime .now) trivial).bind ?_
      rintro _ now ⟨w₁, -, -, rfl⟩
      split_ifs with hlate
      · trivial
      · refine (obeys_markEmailVerified ?_).bind ?_
        · exact .token (List.mem_append_left _ List.mem_concat_self) hexpires List.mem_concat_self
            (Nat.lt_of_not_le hlate)
        rintro ⟨c, es₁⟩ verified ⟨rfl, -⟩
        rfl

theorem obeys_resend :
    (causes cfg core).protocol.Obeys (fun q _ => q.1 = c) (c, es)
      (AuthService.resendVerificationEmail cfg email) := by
  refine (obeys_step (by trivial)).bind ?_
  rintro _ found ⟨w, -, -, rfl⟩
  cases found with
  | none => rfl
  | some account =>
    dsimp only
    split_ifs
    · rfl
    · refine (obeys_sendVerificationEmail (known_of_shown List.mem_concat_self rfl)).mono ?_
      rintro q _ ⟨hq, -⟩
      exact hq

/-! ### The programs of the routes -/

/-- The calls on which there is no condition. -/
def Free : Op → Prop
  | .accounts (.update _ _) | .issuerKeys (.create _) | .refreshTokens (.create _)
  | .refreshTokens (.revoke _ _) | .refreshTokens (.revokeAllForAccount _) | .links _ (.link _ _)
  | .audit (.log _ _) | .audit (.logDetached _ _) | .audit (.logEntry _ _ _) => False
  | _ => True

theorem Free.allowed {o : Op} (h : Free o) : (causes cfg core).allowed c es o := by
  cases o with
  | accounts o => cases o <;> first | exact h.elim | trivial
  | issuerKeys o => cases o <;> first | exact h.elim | trivial
  | refreshTokens o => cases o <;> first | exact h.elim | trivial
  | links table o => cases o <;> first | exact h.elim | trivial
  | audit o => cases o <;> first | exact h.elim | trivial
  | _ => trivial

theorem free_of_guard {o : Op} (h : GuardCall o) : Free o := by
  cases o with
  | accounts o => cases o <;> first | exact h.elim | trivial
  | audit o => cases o <;> first | exact h.elim | trivial
  | _ => first | exact h.elim | trivial

theorem obeys_free {R : HelixError → Prop} {p : Promise α} (hp : p.Uses Free R) :
    (causes cfg core).protocol.Obeys (fun q _ => q.1 = c ∧ es <+: q.2) (c, es) p :=
  History.obeys_uses hp fun _ _ ho => ho.allowed

variable {request : Request}

/-- The account that the guard answers is that of the request's access token. -/
theorem obeys_resolveAccountOrAdmin {requireAuth : Bool} {quota : Option Quota} :
    (causes cfg core).protocol.Obeys (fun q accountId => q.1 = c ∧ es <+: q.2 ∧
        ∀ a ∈ accountId, Bearer cfg request q.2 a) (c, es)
      (resolveAccountOrAdmin cfg request requireAuth quota) := by
  have hnone : (c, es).1 = c ∧ es <+: (c, es).2 ∧ ∀ a ∈ (none : Option String),
      Bearer cfg request es a := ⟨rfl, List.prefix_rfl, by simp⟩
  refine obeys_guard trivial (fun _ => hnone) (fun _ _ => hnone) fun token htoken => ?_
  refine (obeys_step (o := .runtime .now) trivial).bind ?_
  rintro _ now ⟨w, -, -, rfl⟩
  cases hverify : cfg.verifyAccessToken token now with
  | error e => trivial
  | ok payload =>
    refine (obeys_step (by trivial)).bind ?_
    rintro _ account ⟨w₁, w₁', hexec, rfl⟩
    split_ifs with hunverified
    · trivial
    · -- the account that has been found has the id of the token
      have hknown : Known (es ++ [⟨.runtime .now, now, w⟩] ++
          [⟨.accounts (.findById payload.accountId), account, w₁⟩] : List (Event (server cfg core)))
          payload.accountId := by
        cases account with
        | none => exact absurd rfl hunverified
        | some r =>
          have hfind := congrArg Prod.fst (Op.exec_of_accounts hexec)
          have hid : r.id = payload.accountId := by
            simpa using List.find?_some (Except.ok.inj hfind)
          exact hid ▸ known_of_shown List.mem_concat_self rfl
      refine (obeys_free (uses_widen assertQuota_uses fun _ => free_of_guard)).bind ?_
      rintro ⟨c, es₁⟩ _ ⟨rfl, hes₁⟩
      refine ⟨rfl, ((List.prefix_append ..).trans (List.prefix_append ..)).trans hes₁, ?_⟩
      rintro a ⟨⟩
      exact ⟨token, payload, now, w, htoken,
        hes₁.subset (List.mem_append_left _ List.mem_concat_self), hverify, rfl, hknown.mono hes₁⟩

/-- The link and the log entry of a hosted account that a gated route has served. -/
theorem obeys_linkAndLog {table : AccountLinkTable} {key eventType : String}
    {payload : String → AuditPayload} {accountId : Option String}
    (hknown : ∀ a ∈ accountId, Known es a)
    (hrecords : ∀ a ∈ accountId, ∀ es', es <+: es' → Records cfg c es' eventType (payload a)) :
    (causes cfg core).protocol.Obeys (fun q _ => q.1 = c) (c, es)
      (Routes.linkAndLog table key eventType payload accountId) := by
  unfold Routes.linkAndLog
  split
  · rename_i a ha
    have ha' : a ∈ accountId := (Option.filter_eq_some_iff.1 ha).1
    refine (obeys_step ?_).bind ?_
    · exact hknown a ha'
    rintro _ _ ⟨w, -, -, rfl⟩
    refine (obeys_step ?_).mono ?_
    · exact hrecords a ha' _ (List.prefix_append ..)
    rintro _ _ ⟨w₁, -, -, rfl⟩
    rfl
  · rfl

theorem requireAdmin_free : (requireAdmin cfg request).Uses Free fun _ => True := requireAdmin_uses

theorem obeys_issueVC {params : Json} :
    (causes cfg core).protocol.Obeys (fun q _ => q.1 = .issueVC request params)
      (.issueVC request params, es) (Routes.issueVC cfg request params) := by
  have hcaller : (causes cfg core).protocol.Obeys
    (fun q accountId => q.1 = .issueVC request params ∧
      ∀ a ∈ accountId, Bearer cfg request q.2 a) (.issueVC request params, es)
      (Routes.issueVCCaller cfg request) := by
    unfold Routes.issueVCCaller
    split_ifs
    · refine obeys_resolveAccountOrAdmin.mono ?_
      rintro q accountId ⟨hq, -, hbearer⟩
      exact ⟨hq, hbearer⟩
    · refine (obeys_free requireAdmin_free).bind ?_
      rintro ⟨c, es₁⟩ _ ⟨rfl, -⟩
      exact ⟨rfl, by simp⟩
  refine hcaller.bind ?_
  rintro ⟨c, es₁⟩ accountId ⟨rfl, hbearer⟩
  refine (obeys_step (o := .core (.issueVC params request.id)) trivial).bind ?_
  rintro _ vcId ⟨w, -, -, rfl⟩
  have hcore : es₁ <+: es₁ ++ [⟨.core (.issueVC params request.id), vcId, w⟩] :=
    List.prefix_append ..
  refine (obeys_linkAndLog ?_ ?_).bind ?_
  · intro a ha
    obtain ⟨_, _, _, _, -, -, -, -, hknown⟩ := (hbearer a ha).mono hcore
    exact hknown
  · intro a ha es₂ hes₂
    exact .vcIssued ((hbearer a ha).mono (hcore.trans hes₂)) (hes₂.subset List.mem_concat_self)
  rintro ⟨c, es₂⟩ _ rfl
  rfl

theorem obeys_enrollmentTokens {body : EnrollmentTokenBody} :
    (causes cfg core).protocol.Obeys (fun q _ => q.1 = .enrollmentTokens request body)
      (.enrollmentTokens request body, es) (Routes.enrollmentTokens cfg request body) := by
  have hcaller : (causes cfg core).protocol.Obeys
      (fun q accountId => q.1 = .enrollmentTokens request body ∧
        ∀ a ∈ accountId, Bearer cfg request q.2 a) (.enrollmentTokens request body, es)
      (Routes.enrollmentTokensCaller cfg request) := by
    unfold Routes.enrollmentTokensCaller
    split_ifs
    · refine obeys_resolveAccountOrAdmin.mono ?_
      rintro q accountId ⟨hq, -, hbearer⟩
      exact ⟨hq, hbearer⟩
    · exact ⟨rfl, by simp⟩
  refine hcaller.bind ?_
  rintro ⟨c, es₁⟩ accountId ⟨rfl, hbearer⟩
  refine (obeys_step (o := .core (.generateEnrollmentToken body request.id)) trivial).bind ?_
  rintro _ token ⟨w, -, -, rfl⟩
  have hcore : es₁ <+: es₁ ++ [⟨.core (.generateEnrollmentToken body request.id), token, w⟩] :=
    List.prefix_append ..
  refine (obeys_linkAndLog ?_ ?_).bind ?_
  · intro a ha
    obtain ⟨_, _, _, _, -, -, -, -, hknown⟩ := (hbearer a ha).mono hcore
    exact hknown
  · intro a ha es₂ hes₂
    exact .enrollmentTokenGenerated ((hbearer a ha).mono (hcore.trans hes₂))
      (hes₂.subset List.mem_concat_self)
  rintro ⟨c, es₂⟩ _ rfl
  rfl

/-- The result of a redemption is linked to the account of the key that is redeemed. -/
theorem obeys_redeem {from_ to_ : AccountLinkTable} {key : String} {o : CoreOp} :
    (causes cfg core).protocol.Obeys (fun q _ => q.1 = c) (c, es)
      (Routes.redeem from_ key o to_) := by
  refine (obeys_step (by trivial)).bind ?_
  rintro _ accountId ⟨w, -, -, rfl⟩
  refine (obeys_step (o := .core o) trivial).bind ?_
  rintro _ result ⟨w₁, -, -, rfl⟩
  have hlink : (causes cfg core).protocol.Obeys (fun q _ => q.1 = c)
      (c, es ++ [⟨.links from_ (.getAccountId key), accountId, w⟩] ++ [⟨.core o, result, w₁⟩])
      (Routes.linkIf to_ result accountId) := by
    unfold Routes.linkIf
    split
    · rename_i a ha
      obtain rfl : accountId = some a := (Option.filter_eq_some_iff.1 ha).1
      refine (obeys_step ?_).mono ?_
      · exact ⟨_, List.mem_append_left _ List.mem_concat_self, rfl⟩
      rintro _ _ ⟨w₂, -, -, rfl⟩
      rfl
    · rfl
  refine hlink.bind ?_
  rintro ⟨c, es₁⟩ _ rfl
  rfl

theorem authenticated_free : (Routes.authenticated cfg request).Uses Free fun _ => True := by
  unfold Routes.authenticated
  split
  · exact uses_widen resolveAccountOrAdmin_uses fun _ => free_of_guard
  · exact Prog.Uses.bind requireAdmin_uses fun _ => trivial

theorem listVCs_free {query : ListVCsQuery} :
    (Routes.listVCs cfg request query).Uses Free fun _ => True := by
  refine Prog.Uses.bind authenticated_free fun accountId => ?_
  split
  · trivial
  · refine Prog.Uses.bind (await_uses trivial) fun result => ?_
    unfold Routes.ownedSummaries
    split
    · trivial
    · exact Prog.Uses.bind (await_uses trivial) fun _ => trivial

theorem revokeVC_free {vcId : String} :
    (Routes.revokeVC cfg request vcId).Uses Free fun _ => True := by
  refine Prog.Uses.bind authenticated_free fun accountId => ?_
  refine Prog.Uses.bind ?_ fun _ => await_uses trivial
  unfold Routes.assertOwner
  split
  · trivial
  · refine Prog.Uses.bind (await_uses trivial) fun owner => ?_
    split <;> trivial

theorem renewVC_free {vcId : String} {overrides : Json} :
    (Routes.renewVC cfg request vcId overrides).Uses Free fun _ => True :=
  Prog.Uses.bind requireAdmin_uses fun _ => await_uses trivial

theorem isLinkedTo_free {table : AccountLinkTable} {key : Option String} :
    (Routes.isLinkedTo table key a).Uses Free fun _ => True := by
  unfold Routes.isLinkedTo
  split
  · trivial
  · exact Prog.Uses.bind (await_uses trivial) fun _ => trivial

theorem scopeRecords_free {records : List AuditLogRow} :
    (Routes.scopeRecords a records).Uses Free fun _ => True := by
  induction records with
  | nil => trivial
  | cons row records ih =>
    refine Prog.Uses.bind ?_ fun shown => Prog.Uses.bind ih fun rest => trivial
    unfold Routes.isAttributed
    split
    · trivial
    · refine Prog.Uses.bind isLinkedTo_free fun linked => ?_
      split
      · trivial
      · exact isLinkedTo_free

theorem listAuditLog_free {query : ListAuditLogQuery} :
    (Routes.listAuditLog cfg request query).Uses Free fun _ => True := by
  refine Prog.Uses.bind authenticated_free fun accountId => ?_
  split
  · trivial
  · refine Prog.Uses.bind (await_uses trivial) fun records => ?_
    refine Prog.Uses.bind ?_ fun rows => trivial
    unfold Routes.scopeRecordsFor
    split
    · trivial
    · exact scopeRecords_free

theorem obeys_ingest {route : IngestRoute} {body : Json} :
    (causes cfg core).protocol.Obeys (fun q _ => q.1 = .ingest route request body)
      (.ingest route request body, es) (Routes.ingest cfg route request body) := by
  have hadmin : (causes cfg core).protocol.Obeys
      (fun q _ => q.1 = .ingest route request body ∧ request.isAdmin cfg = true)
      (.ingest route request body, es) (requireAdmin cfg request) := by
    unfold requireAdmin
    split_ifs with h
    · exact ⟨rfl, h⟩
    · trivial
  refine hadmin.bind ?_
  rintro ⟨c, es₁⟩ _ ⟨rfl, hoperator⟩
  split_ifs
  · trivial
  · cases hentry : route.entry request.id body with
    | error e => trivial
    | ok entry =>
      have htime : (Routes.entryTimestamp entry.timestamp).Uses Free fun _ => True := by
        unfold Routes.entryTimestamp
        split
        · trivial
        · exact Prog.Uses.bind (await_uses trivial) fun _ => trivial
      refine (obeys_free htime).bind ?_
      rintro ⟨c, es₂⟩ timestamp ⟨rfl, -⟩
      refine (obeys_step ?_).bind ?_
      · exact Posts.ingest timestamp hoperator hentry
      rintro _ _ ⟨w, -, -, rfl⟩
      rfl

/-- **Every program of the server keeps to the conditions.** -/
theorem causes_kept : (causes cfg core).Kept := by
  -- requests that only read
  have hfree : ∀ {c : Call} {β : Type} {p : Promise β} {f : β → Reply},
      p.Uses Free (fun _ => True) → (∀ es b, (causes cfg core).answers c es (f b)) →
      (causes cfg core).protocol.Obeys (fun q a => (causes cfg core).answers q.1 q.2 a)
        (c, []) (p >>= fun b => return f b) := by
    intro c β p f hp hans
    refine (obeys_free hp).bind ?_
    rintro ⟨c, es⟩ b ⟨rfl, -⟩
    exact hans es b
  intro c
  cases c with
  | register input =>
    refine obeys_register.bind ?_
    rintro ⟨c, es⟩ x ⟨rfl, hlogged⟩
    exact hlogged
  | login input =>
    refine obeys_login.bind ?_
    rintro ⟨c, es⟩ x ⟨rfl, hlogged⟩
    exact hlogged
  | loginWithGoogle profile =>
    refine obeys_loginWithGoogle.bind ?_
    rintro ⟨c, es⟩ x ⟨rfl, hlogged⟩
    exact hlogged
  | refresh refreshToken =>
    refine obeys_refresh.bind ?_
    rintro ⟨c, es⟩ tokens ⟨rfl, hlogged⟩
    exact hlogged
  | logout refreshToken =>
    refine obeys_logout.bind ?_
    rintro ⟨c, es⟩ _ ⟨rfl, hlogged⟩
    exact hlogged
  | verifyEmail token =>
    refine obeys_verifyEmail.bind ?_
    rintro ⟨c, es⟩ _ rfl
    trivial
  | resendVerificationEmail email =>
    refine obeys_resend.bind ?_
    rintro ⟨c, es⟩ _ rfl
    trivial
  | issueVC request params =>
    refine obeys_issueVC.bind ?_
    rintro ⟨c, es⟩ _ rfl
    trivial
  | enrollmentTokens request body =>
    refine obeys_enrollmentTokens.bind ?_
    rintro ⟨c, es⟩ _ rfl
    trivial
  | enroll requestId body | onboard requestId body | onboardVerify requestId body =>
    refine obeys_redeem.bind ?_
    rintro ⟨c, es⟩ _ rfl
    trivial
  | ingest route request body =>
    refine obeys_ingest.bind ?_
    rintro ⟨c, es⟩ _ rfl
    trivial
  | listVCs request query => exact hfree listVCs_free fun _ _ => trivial
  | revokeVC request vcId => exact hfree revokeVC_free fun _ _ => trivial
  | renewVC request vcId overrides => exact hfree renewVC_free fun _ _ => trivial
  | listAuditLog request query => exact hfree listAuditLog_free fun _ _ => trivial

end Programs

end Integrity

end HelixServer
