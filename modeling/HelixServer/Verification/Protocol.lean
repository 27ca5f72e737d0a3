import HelixServer.Async.History
import HelixServer.Footprint

/-!
# What the requests write of e-mail verification

Every request patches an account in one of four ways (`IsPatch`), sends a mail only right after it
has written the mail's token for an account that it has found (`Written`), and a Google sign-in
answers the account that its first call has found by the Google id, else one that it has seen
verified (`SignsIn`).  Along every run this is so for every call and every reply
(`verification_kept`).
-/

namespace HelixServer

namespace Verification

open Async

variable {cfg : Config} {core : Core}

/-! ### The conditions -/

/-- What `setEmailVerificationToken` writes. -/
def tokenPatch (tokenHash : String) (expiresAt : ℕ) : AccountPatch :=
  [.emailVerificationTokenHash (some tokenHash), .emailVerificationExpiresAt (some expiresAt)]

/-- What `markEmailVerified` writes. -/
def verifiedPatch (now : ℕ) : AccountPatch :=
  [.emailVerifiedAt (some now), .emailVerificationTokenHash none, .emailVerificationExpiresAt none]

/-- The patches of accounts. -/
inductive IsPatch : AccountPatch → Prop
  | googleId (googleId : String) : IsPatch [.googleId (some googleId)]
  | issuerDid (did : String) : IsPatch [.issuerDid (some did)]
  | token (tokenHash : String) (expiresAt : ℕ) : IsPatch (tokenPatch tokenHash expiresAt)
  | verified (now : ℕ) : IsPatch (verifiedPatch now)

/-- The link that a mail carries. -/
def verificationUrl (cfg : Config) (rawToken : String) : String :=
  cfg.consoleBaseUrl ++ "/account/verify-email?token=" ++ rawToken

/-- The account that a call of the store answers. -/
def answered : (o : AccountOp) → o.Res → Option AccountRecord
  | .create _, r | .update _ _, r => some r
  | .findById _, r | .findByEmail _, r | .findByGoogleId _, r
  | .findByEmailVerificationTokenHash _, r => r

/-- The account that a call has shown. -/
def shown (e : Event (server cfg core)) : Option AccountRecord :=
  match e with
  | ⟨.accounts o, r, _⟩ => answered o r
  | _ => none

/-- An account with this id and this e-mail has been found. -/
def Found (es : List (Event (server cfg core))) (a email : String) : Prop :=
  ∃ e ∈ es, ∃ r, shown e = some r ∧ r.id = a ∧ r.email = email

/-- The last call has written the token of the mail, for an account with the mail's recipient. -/
def Written (es : List (Event (server cfg core))) (mail : Mail) : Prop :=
  ∃ es' a bytes expiresAt row w,
    es = es' ++ [⟨.accounts (.update a (tokenPatch
      (hashOpaqueToken cfg.runtime (opaqueToken "vrf" bytes)) expiresAt)), row, w⟩] ∧
    mail.verificationUrl = verificationUrl cfg (opaqueToken "vrf" bytes) ∧
    Found es' a mail.recipient

/-- The account of a reply is the one that the first call has found by its Google id, or, if that
has found none, one that a later call has shown, verified if the profile is. -/
def SignsIn (profile : GoogleProfile) (es : List (Event (server cfg core)))
    (account : AccountSummary) : Prop :=
  ∃ e, [e] <+: es ∧ e.op = .accounts (.findByGoogleId profile.googleId) ∧
    ∃ r, account = toSummary r ∧ (shown e = some r ∨ shown e = none ∧
      (∃ e' ∈ es, shown e' = some r) ∧
        (profile.emailVerified = true → r.emailVerifiedAt.isSome = true))

/-- The conditions on calls and replies. -/
def verification (cfg : Config) (core : Core) : History (server cfg core) where
  allowed _ es
    | .accounts (.update _ patch) => IsPatch patch
    | .sendMail mail => Written es mail
    | _ => True
  answers c es reply :=
    match c, reply with
    | .loginWithGoogle profile, .session account _ => SignsIn profile es account
    | _, _ => True

/-! ### The programs -/

section Programs

variable {c : Call} {es es' : List (Event (server cfg core))} {a email : String}
  {profile : GoogleProfile} {account : AccountRecord} {α : Type}

theorem Found.mono (h : Found es a email) (hes : es <+: es') : Found es' a email := by
  obtain ⟨e, he, hshown⟩ := h
  exact ⟨e, hes.subset he, hshown⟩

/-- The calls that patch no account and send no mail. -/
def Aside : Op → Prop
  | .accounts (.update _ _) | .sendMail _ => False
  | _ => True

theorem Aside.allowed {o : Op} (h : Aside o) : (verification cfg core).allowed c es o := by
  cases o with
  | accounts o => cases o <;> first | exact h.elim | trivial
  | _ => first | exact h.elim | trivial

theorem aside_of_session {o : Op} (h : SessionCall o) : Aside o := by
  cases o <;> first | exact h.elim | trivial

theorem aside_of_identity {o : Op} (h : IdentityCall o) : Aside o := by
  cases o <;> first | exact h.elim | trivial

theorem aside_of_route {o : Op} (h : RouteCall o) : Aside o := by
  cases o with
  | accounts o => cases o <;> first | exact h.elim | trivial
  | _ => first | exact h.elim | trivial

theorem aside_of_watch {o : Op} (h : WatchCall o) : Aside o := by
  cases o with
  | accounts o => cases o <;> first | exact h.elim | trivial
  | _ => first | exact h.elim | trivial

theorem issueSession_aside {accountId : String} {replacing : Option String} :
    (AuthService.issueSession cfg accountId replacing).Uses Aside fun _ => True :=
  uses_widen issueSession_uses fun _ => aside_of_session

theorem provision_aside {accountId : String} :
    (provisionAccountIssuerDid cfg accountId).Uses Aside fun _ => True :=
  uses_widen (provisionAccountIssuerDid_uses fun _ _ _ => trivial) fun _ => aside_of_identity

theorem auditLog_aside {eventType : String} {payload : AuditPayload} :
    (auditLog eventType payload).Uses Aside fun _ => True := await_uses trivial

theorem login_aside {input : LoginInput} :
    (AuthService.login cfg input).Uses Aside fun _ => True := by
  refine Prog.Uses.bind (await_uses trivial) fun found => ?_
  cases found with
  | none => exact Prog.Uses.bind auditLog_aside fun _ => trivial
  | some account =>
    dsimp only
    cases account.passwordHash with
    | none => trivial
    | some passwordHash =>
      refine Prog.Uses.bind (await_uses trivial) fun valid => ?_
      cases valid with
      | true =>
        refine Prog.Uses.bind auditLog_aside fun _ => ?_
        exact Prog.Uses.bind issueSession_aside fun tokens => trivial
      | false => exact Prog.Uses.bind auditLog_aside fun _ => trivial

theorem obeys_step {o : Op} (ha : (verification cfg core).allowed c es o) :
    (verification cfg core).protocol.Obeys
      (fun q r => ∃ w w', o.exec cfg w = (.ok r, w') ∧ q = (c, es ++ [⟨o, r, w⟩])) (c, es)
      (await o) :=
  History.obeys_step ha

/-- The rule of a program that patches no account and sends no mail. -/
theorem obeys_aside {R : HelixError → Prop} {p : Promise α} (hp : p.Uses Aside R) :
    (verification cfg core).protocol.Obeys (fun q _ => q.1 = c ∧ es <+: q.2) (c, es) p :=
  History.obeys_uses hp fun _ _ ho => ho.allowed

theorem obeys_sendVerificationEmail (hfound : Found es a email) :
    (verification cfg core).protocol.Obeys (fun q _ => q.1 = c ∧ es <+: q.2) (c, es)
      (AuthService.sendVerificationEmail cfg a email) := by
  unfold AuthService.sendVerificationEmail
  split_ifs
  · refine (obeys_step (o := .runtime (.randomBytes 32)) trivial).bind ?_
    rintro _ bytes ⟨w₁, -, -, rfl⟩
    refine (obeys_step (o := .runtime .now) trivial).bind ?_
    rintro _ now ⟨w₂, -, -, rfl⟩
    refine (obeys_step ?_).bind ?_
    · exact IsPatch.token _ _
    rintro _ row ⟨w₃, -, -, rfl⟩
    refine (obeys_step ?_).mono ?_
    · exact ⟨_, a, bytes, _, row, w₃, rfl, rfl,
        hfound.mono ((List.prefix_append ..).trans (List.prefix_append ..))⟩
    · rintro _ _ ⟨w₄, -, -, rfl⟩
      refine ⟨rfl, ?_⟩
      simp only [List.append_assoc]
      exact List.prefix_append ..
  · exact ⟨rfl, List.prefix_rfl⟩

theorem obeys_markEmailVerified :
    (verification cfg core).protocol.Obeys (fun q r => q.1 = c ∧ es <+: q.2 ∧
        (∃ e ∈ q.2, shown e = some r) ∧ r.emailVerifiedAt.isSome = true)
      (c, es) (AccountRepository.markEmailVerified a) := by
  refine (obeys_step (o := .runtime .now) trivial).bind ?_
  rintro _ now ⟨w₁, -, -, rfl⟩
  refine (obeys_step ?_).mono ?_
  · exact IsPatch.verified _
  rintro _ row ⟨w₂, w₃, he, rfl⟩
  obtain ⟨r, -, -, rfl⟩ := Accounts.update_found (Op.exec_of_accounts he)
  exact ⟨rfl, (List.prefix_append ..).trans (List.prefix_append ..),
    ⟨_, List.mem_concat_self, rfl⟩, rfl⟩

theorem obeys_markVerifiedIf {cond : Bool} (hshown : ∃ e ∈ es, shown e = some account) :
    (verification cfg core).protocol.Obeys (fun q r => q.1 = c ∧ es <+: q.2 ∧
        (∃ e ∈ q.2, shown e = some r) ∧
          (r.emailVerifiedAt.isSome = true ∨ cond = false ∧ r = account))
      (c, es) (AuthService.markVerifiedIf cond account) := by
  cases cond with
  | true =>
    refine obeys_markEmailVerified.mono ?_
    rintro q r ⟨hq, hes, hshown, hverified⟩
    exact ⟨hq, hes, hshown, .inl hverified⟩
  | false => exact ⟨rfl, List.prefix_rfl, hshown, .inr ⟨rfl, rfl⟩⟩

theorem obeys_linkByEmail :
    (verification cfg core).protocol.Obeys
      (fun q r => q.1 = c ∧ es <+: q.2 ∧ (∃ e ∈ q.2, shown e = some r) ∧
        (profile.emailVerified = true → r.emailVerifiedAt.isSome = true)) (c, es)
      (AuthService.linkByEmail profile account) := by
  unfold AuthService.linkByEmail
  split_ifs
  · refine (obeys_step ?_).bind ?_
    · exact IsPatch.googleId _
    rintro _ linked ⟨w, -, -, rfl⟩
    refine (obeys_markVerifiedIf ⟨_, List.mem_concat_self, rfl⟩).bind ?_
    rintro ⟨c, es₁⟩ account' ⟨rfl, hes₁, hshown, hverified⟩
    refine (obeys_aside auditLog_aside).bind ?_
    rintro ⟨c, es₂⟩ _ ⟨rfl, hes⟩
    obtain ⟨e, he, hshown⟩ := hshown
    refine ⟨rfl, ((List.prefix_append ..).trans hes₁).trans hes, ⟨e, hes.subset he, hshown⟩,
      fun _ => ?_⟩
    -- an account that is not marked was verified
    rcases hverified with hverified | ⟨hcond, rfl⟩
    · exact hverified
    · rwa [Option.isNone_eq_false_iff] at hcond
  · trivial

theorem obeys_createFromGoogle :
    (verification cfg core).protocol.Obeys
      (fun q r => q.1 = c ∧ es <+: q.2 ∧ (∃ e ∈ q.2, shown e = some r) ∧
        (profile.emailVerified = true → r.emailVerifiedAt.isSome = true)) (c, es)
      (AuthService.createFromGoogle cfg profile email) := by
  refine (obeys_step (by trivial)).bind ?_
  rintro _ created ⟨w, -, -, rfl⟩
  refine (obeys_aside provision_aside).bind ?_
  rintro ⟨c, es₁⟩ did ⟨rfl, hes₁⟩
  refine (obeys_step ?_).bind ?_
  · exact IsPatch.issuerDid _
  rintro _ withDid ⟨w', -, -, rfl⟩
  refine (obeys_markVerifiedIf ⟨_, List.mem_concat_self, rfl⟩).bind ?_
  rintro ⟨c, es₂⟩ account' ⟨rfl, hes₂, hshown, hverified⟩
  refine (obeys_aside auditLog_aside).bind ?_
  rintro ⟨c, es₃⟩ _ ⟨rfl, hes⟩
  obtain ⟨e, he, hshown⟩ := hshown
  have hprefix : es <+: es₃ := ((List.prefix_append ..).trans hes₁).trans
    (((List.prefix_append ..).trans hes₂).trans hes)
  refine ⟨rfl, hprefix, ⟨e, hes.subset he, hshown⟩, fun hprofile => ?_⟩
  rcases hverified with hverified | ⟨hcond, -⟩
  · exact hverified
  · rw [hprofile] at hcond
    cases hcond

theorem obeys_googleAccount :
    (verification cfg core).protocol.Obeys
      (fun q r => q.1 = c ∧ SignsIn profile q.2 (toSummary r)) (c, [])
      (AuthService.googleAccount cfg profile) := by
  refine (obeys_step (by trivial)).bind ?_
  rintro _ found ⟨w, w', -, rfl⟩
  cases found with
  | some account => exact ⟨rfl, _, List.prefix_rfl, rfl, account, rfl, .inl rfl⟩
  | none =>
    refine (obeys_step (by trivial)).bind ?_
    rintro _ found ⟨w₁, w₁', -, rfl⟩
    cases found with
    | some existingByEmail =>
      refine obeys_linkByEmail.mono ?_
      rintro ⟨c, es₁⟩ account ⟨rfl, hes₁, hshown, hverified⟩
      exact ⟨rfl, _, (List.prefix_append ..).trans hes₁, rfl, account, rfl,
        .inr ⟨rfl, hshown, hverified⟩⟩
    | none =>
      refine obeys_createFromGoogle.mono ?_
      rintro ⟨c, es₁⟩ account ⟨rfl, hes₁, hshown, hverified⟩
      exact ⟨rfl, _, (List.prefix_append ..).trans hes₁, rfl, account, rfl,
        .inr ⟨rfl, hshown, hverified⟩⟩

theorem SignsIn.mono {summary : AccountSummary} (h : SignsIn profile es summary)
    (hes : es <+: es') : SignsIn profile es' summary := by
  obtain ⟨e, hfirst, hop, r, hr, hshown | ⟨hnone, ⟨e', he', hshown⟩, hverified⟩⟩ := h
  · exact ⟨e, hfirst.trans hes, hop, r, hr, .inl hshown⟩
  · exact ⟨e, hfirst.trans hes, hop, r, hr, .inr ⟨hnone, ⟨e', hes.subset he', hshown⟩, hverified⟩⟩

theorem obeys_loginWithGoogle :
    (verification cfg core).protocol.Obeys
      (fun q r => q.1 = c ∧ SignsIn profile q.2 r.1) (c, [])
      (AuthService.loginWithGoogle cfg profile) := by
  refine obeys_googleAccount.bind ?_
  rintro ⟨c, es₁⟩ account ⟨rfl, hsigns⟩
  refine (obeys_aside auditLog_aside).bind ?_
  rintro ⟨c, es₂⟩ _ ⟨rfl, hes₂⟩
  refine (obeys_aside issueSession_aside).bind ?_
  rintro ⟨c, es₃⟩ tokens ⟨rfl, hes₃⟩
  exact ⟨rfl, (hsigns.mono hes₂).mono hes₃⟩

theorem obeys_register {input : RegisterInput} :
    (verification cfg core).protocol.Obeys (fun q _ => q.1 = c) (c, es)
      (AuthService.register cfg input) := by
  refine (obeys_step (by trivial)).bind ?_
  rintro _ found ⟨w, -, -, rfl⟩
  cases found with
  | some account => trivial
  | none =>
    refine (obeys_step (o := .runtime (.argon2Hash input.password)) trivial).bind ?_
    rintro _ passwordHash ⟨w₁, -, -, rfl⟩
    refine (obeys_step (by trivial)).bind ?_
    rintro _ account ⟨w₂, -, -, rfl⟩
    refine (obeys_aside provision_aside).bind ?_
    rintro ⟨c, es₁⟩ did ⟨rfl, -⟩
    refine (obeys_step ?_).bind ?_
    · exact IsPatch.issuerDid _
    rintro _ withDid ⟨w₃, -, -, rfl⟩
    refine (obeys_aside auditLog_aside).bind ?_
    rintro ⟨c, es₂⟩ _ ⟨rfl, hes₂⟩
    refine (obeys_sendVerificationEmail ⟨_, hes₂.subset List.mem_concat_self, withDid, rfl,
      rfl, rfl⟩).bind ?_
    rintro ⟨c, es₃⟩ _ ⟨rfl, -⟩
    refine (obeys_aside issueSession_aside).bind ?_
    rintro ⟨c, es₄⟩ tokens ⟨rfl, -⟩
    rfl

theorem obeys_verifyEmail {token : String} :
    (verification cfg core).protocol.Obeys (fun q _ => q.1 = c) (c, es)
      (AuthService.verifyEmail cfg token) := by
  refine (obeys_step (by trivial)).bind ?_
  rintro _ found ⟨w, -, -, rfl⟩
  cases found with
  | none => trivial
  | some account =>
    dsimp only
    cases account.emailVerificationExpiresAt with
    | none => trivial
    | some expiresAt =>
      refine (obeys_step (o := .runtime .now) trivial).bind ?_
      rintro _ now ⟨w₁, -, -, rfl⟩
      split_ifs
      · trivial
      · refine obeys_markEmailVerified.bind ?_
        rintro ⟨c, es₁⟩ verified ⟨rfl, -⟩
        rfl

theorem obeys_resend {e : String} :
    (verification cfg core).protocol.Obeys (fun q _ => q.1 = c) (c, es)
      (AuthService.resendVerificationEmail cfg e) := by
  refine (obeys_step (by trivial)).bind ?_
  rintro _ found ⟨w, -, -, rfl⟩
  cases found with
  | none => rfl
  | some account =>
    dsimp only
    split_ifs
    · rfl
    · refine (obeys_sendVerificationEmail ⟨_, List.mem_concat_self, account, rfl, rfl, rfl⟩).mono ?_
      rintro ⟨c, es₁⟩ _ ⟨rfl, -⟩
      rfl

/-- **Every program of the server keeps to the conditions.** -/
theorem verification_kept : (verification cfg core).Kept := by
  -- requests that write no account and send no mail
  have haside : ∀ {c : Call} {β : Type} {p : Promise β} {f : β → Reply},
      p.Uses Aside (fun _ => True) →
      (∀ es reply, (verification cfg core).answers c es reply) →
      (verification cfg core).protocol.Obeys (fun q a => (verification cfg core).answers q.1 q.2 a)
        (c, []) (p >>= fun b => return f b) := by
    intro c β p f hp hans
    refine (obeys_aside hp).bind ?_
    rintro ⟨c, es⟩ b ⟨rfl, -⟩
    exact hans es _
  have houtside : ∀ {c : Call}, c.Outside → (verification cfg core).protocol.Obeys
      (fun q a => (verification cfg core).answers q.1 q.2 a) (c, []) (c.prog cfg) := by
    intro c hc
    obtain ⟨β, p, f, hprog, huses, -⟩ := Call.Outside.uses hc
    rw [hprog]
    refine haside (uses_widen huses fun _ ho => ho.elim aside_of_route aside_of_watch) ?_
    intro es reply
    cases c <;> first | exact hc.elim | trivial
  intro c
  cases c with
  | register input =>
    refine obeys_register.bind ?_
    rintro ⟨c, es⟩ _ rfl
    trivial
  | login input => exact haside login_aside fun _ _ => trivial
  | loginWithGoogle profile =>
    refine obeys_loginWithGoogle.bind ?_
    rintro ⟨c, es⟩ _ ⟨rfl, hsigns⟩
    exact hsigns
  | verifyEmail token =>
    refine obeys_verifyEmail.bind ?_
    rintro ⟨c, es⟩ _ rfl
    trivial
  | resendVerificationEmail email =>
    refine obeys_resend.bind ?_
    rintro ⟨c, es⟩ _ rfl
    trivial
  | refresh refreshToken =>
    exact haside (uses_widen refresh_uses fun _ => aside_of_session) fun _ _ => trivial
  | logout refreshToken =>
    exact haside (f := fun _ => .done) (uses_widen logout_uses fun _ => aside_of_session)
      fun _ _ => trivial
  | _ => exact houtside trivial

end Programs

end Verification

end HelixServer
