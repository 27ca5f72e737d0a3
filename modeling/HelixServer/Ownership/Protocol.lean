import HelixServer.Footprint

/-!
# How a request comes by an owner

A gated request has the account of its access token, a redeeming request the account that the link
table has for the token or challenge it presents.  The core call creates a token, a challenge or a
credential, and the request links it to that account.

## Main definitions

* `CoreOp.presents`, `CoreOp.creates` : what a core call redeems, and what it creates.
* `Stage` : where a request stands with its account, its core call and its link.
* `protocol` : the calls of every request in terms of its stage.
-/

namespace HelixServer

namespace Ownership

open Async

/-- The link table of what a core call creates. -/
def creates : CoreOp → AccountLinkTable
  | .generateEnrollmentToken _ _ => .enrollmentTokenAccountLinks
  | .processOnboardStep1 _ _ => .challengeAccountLinks
  | .issueVC _ _ | .enroll _ _ | .processOnboardVerify _ _ => .vcAccountLinks

/-- The token or the challenge that a core call redeems, and its link table. -/
def presents : CoreOp → Option (AccountLinkTable × String)
  | .enroll body _ => some (.enrollmentTokenAccountLinks, body.bootstrapToken)
  | .processOnboardStep1 body _ => some (.enrollmentTokenAccountLinks, body.enrollmentToken)
  | .processOnboardVerify body _ => some (.challengeAccountLinks, body.challengeId)
  | .issueVC _ _ | .generateEnrollmentToken _ _ => none

/-- The core call of a request. -/
def coreOp : Call → Option CoreOp
  | .issueVC request params => some (.issueVC params request.id)
  | .enrollmentTokens request body => some (.generateEnrollmentToken body request.id)
  | .enroll requestId body => some (.enroll body requestId)
  | .onboard requestId body => some (.processOnboardStep1 body requestId)
  | .onboardVerify requestId body => some (.processOnboardVerify body requestId)
  | _ => none

/-- The key of a token, a challenge or a credential in its link table: a token is hashed. -/
def keyIn (cfg : Config) : AccountLinkTable → String → String
  | .enrollmentTokenAccountLinks, token => cfg.runtime.hashToken token
  | _, x => x

/-- The field by which a log row names what a core call has created. -/
def keyField : AccountLinkTable → String
  | .vcAccountLinks => "vcId"
  | .enrollmentTokenAccountLinks => "tokenIdHash"
  | .challengeAccountLinks => "challengeId"

/-- The log row of what a core call has created for an account. -/
def loggedFor (cfg : Config) (o : CoreOp) (r a requestId : String) : AuditPayload :=
  [("requestId", .str requestId), ("accountId", .str a),
    (keyField (creates o), .str (keyIn cfg (creates o) r))]

/-- The reply that carries what a core call has created. -/
def replyOf (o : CoreOp) (r : String) : Reply :=
  match creates o with
  | .enrollmentTokenAccountLinks => .enrollmentToken r
  | .challengeAccountLinks => .challenge r
  | .vcAccountLinks => .vc r

/-- Where a request stands with its account and its core call `o`. -/
inductive Stage where
  /-- It makes no core call. -/
  | aside
  /-- A gated request. -/
  | gated (o : CoreOp)
  /-- The guard has looked up the account of the access token, and has found it or not. -/
  | known (o : CoreOp) (a : String) (found : Bool)
  /-- A redeeming request. -/
  | redeeming (o : CoreOp)
  /-- It has looked up the account of what it presents. -/
  | holding (o : CoreOp) (owner : Option String)
  /-- The core call has created `r`, which is still to be linked to `a`. -/
  | created (o : CoreOp) (r a : String)
  /-- What the core call has created is linked to its owner, if it has one. -/
  | settled (o : CoreOp) (r : String) (owner : Option String)

namespace Stage

/-- Where a request starts. -/
def start (c : Call) : Stage :=
  match coreOp c with
  | none => aside
  | some o => if (presents o).isSome then redeeming o else gated o

/-- After the core call of a request whose account is `owner`. -/
def made (o : CoreOp) (r : String) (owner : Option String) : Stage :=
  match truthy owner with
  | some a => created o r a
  | none => settled o r none

/-- How an answered call moves a request on. -/
def next : Stage → (o : Op) → o.Res → Stage
  | gated o, .accounts (.findById a), account => known o a (Option.isSome account)
  | gated o, .core _, r => settled o r none
  | known o a _, .core _, r => made o r (some a)
  | redeeming o, .links _ (.getAccountId _), owner => holding o owner
  | holding o owner, .core _, r => made o r owner
  | created o r a, .links _ (.link _ _), _ => settled o r (some a)
  | q, _, _ => q

/-- The calls a request makes where it stands. -/
def Allows (cfg : Config) : Stage → Op → Prop
  | aside, o => AuthCall o ∨ WatchCall o
  | gated _, .runtime .now | gated _, .accounts (.findById _) => True
  | gated o, .core o' => o' = o
  | known _ _ _, .runtime .now | known _ _ _, .audit (.list _) => True
  | known o _ found, .core o' => o' = o ∧ found = true
  | redeeming o, .links table (.getAccountId key) =>
    ∃ x, presents o = some (table, x) ∧ key = keyIn cfg table x
  | holding o _, .core o' => o' = o
  | created o r a, .links table (.link key b) =>
    table = creates o ∧ key = keyIn cfg table r ∧ b = a
  | settled o r owner, .audit (.logDetached _ payload) =>
    ∃ a requestId, owner = some a ∧ payload = loggedFor cfg o r a requestId
  | _, _ => False

/-- The replies a request ends with. -/
def Answers : Stage → Reply → Prop
  | aside, reply => ∀ v, reply ≠ .vc v
  | settled o r _, reply => reply = replyOf o r
  | _, _ => False

end Stage

variable (cfg : Config) (core : Core)

/-- The protocol of the requests with their owners.  A request between its core call and its link
does not end. -/
def protocol : Protocol (server cfg core) Stage where
  init := Stage.start
  next := fun q e => q.next e.op e.res
  allowed := Stage.Allows cfg
  answers := Stage.Answers
  raises := fun q _ => ∀ o r a, q ≠ .created o r a
  fails := fun q => ∀ o r a, q ≠ .created o r a

variable {cfg core} {α : Type}

/-! ### The programs obey the protocol -/

theorem obeys_await (q : Stage) (o : Op) (ha : q.Allows cfg o) :
    (protocol cfg core).Obeys (fun q' r => q' = q.next o r) q (await o) :=
  ⟨ha, fun _ _ _ _ => rfl⟩

theorem obeys_stay (q : Stage) (o : Op) (ha : q.Allows cfg o) (hn : ∀ r, q.next o r = q) :
    (protocol cfg core).Obeys (fun q' _ => q' = q) q (await o) :=
  (obeys_await q o ha).mono fun _ r h => h.trans (hn r)

theorem obeys_aside {β : Type} {N : Op → Prop} {p : Promise β} {f : β → Reply}
    (hp : p.Uses N fun _ => True) (hN : ∀ o, N o → AuthCall o ∨ WatchCall o)
    (hf : ∀ b v, f b ≠ .vc v) :
    (protocol cfg core).Obeys Stage.Answers .aside (p >>= fun b => return f b) := by
  have hstay : (protocol cfg core).Obeys (fun q _ => q = .aside) .aside p :=
    Protocol.obeys_of_uses hp (fun o ho => ⟨hN o ho, fun _ _ => rfl⟩) (fun _ _ _ _ _ => by simp)
      fun _ => rfl
  refine hstay.bind ?_
  rintro _ b rfl
  exact hf b

/-- The guard answers with the account that it has looked up and found, or with none. -/
def Guarded (o : CoreOp) (q : Stage) (accountId : Option String) : Prop :=
  match accountId with
  | some a => q = .known o a true
  | none => q = .gated o

theorem obeys_assertQuota {o : CoreOp} {a : String} {quota : Option Quota} :
    (protocol cfg core).Obeys (fun q _ => q = .known o a true) (.known o a true)
      (assertQuota quota a) := by
  cases quota with
  | none => rfl
  | some quota =>
    refine (obeys_stay (.known o a true) (.runtime .now) trivial fun _ => rfl).bind ?_
    rintro _ now rfl
    refine (obeys_stay (.known o a true) (.audit (.list _)) trivial fun _ => rfl).bind ?_
    rintro _ rows rfl
    by_cases hn : quota.dailyLimit ≤ countForAccount a rows
    · simp only [hn, if_true]
      refine (obeys_stay (.known o a true) (.runtime .now) trivial fun _ => rfl).bind ?_
      rintro _ _ rfl
      exact nofun
    · simp only [hn, if_false]
      rfl

theorem obeys_resolveBearer {o : CoreOp} {token : String} {quota : Option Quota} :
    (protocol cfg core).Obeys (Guarded o) (.gated o) (resolveBearer cfg token quota) := by
  refine (obeys_stay (.gated o) (.runtime .now) trivial fun _ => rfl).bind ?_
  rintro _ now rfl
  cases cfg.verifyAccessToken token now with
  | error e => exact nofun
  | ok payload =>
    refine (obeys_await (.gated o) (.accounts (.findById payload.accountId)) trivial).bind ?_
    rintro _ account rfl
    cases account with
    | none => exact nofun
    | some r =>
      by_cases hv : (Option.bind (some r) (·.emailVerifiedAt)).isNone = true
      · simp only [hv, if_true]
        exact nofun
      · simp only [hv]
        refine obeys_assertQuota.bind ?_
        rintro _ _ rfl
        rfl

theorem obeys_resolveAccountOrAdmin {o : CoreOp} {request : Request} {requireAuth : Bool}
    {quota : Option Quota} :
    (protocol cfg core).Obeys (Guarded o) (.gated o)
      (resolveAccountOrAdmin cfg request requireAuth quota) :=
  obeys_guard nofun (fun _ => rfl) (fun _ _ => rfl) fun _ _ => obeys_resolveBearer

theorem obeys_core {o : CoreOp} {q : Stage} {accountId : Option String}
    (h : Guarded o q accountId) :
    (protocol cfg core).Obeys (fun q r => q = .made o r accountId) q (await (.core o)) := by
  cases accountId with
  | some a => obtain rfl := h; exact obeys_await (.known o a true) (.core o) ⟨rfl, rfl⟩
  | none => obtain rfl := h; exact obeys_await (.gated o) (.core o) rfl

theorem obeys_link {o : CoreOp} {r a : String} :
    (protocol cfg core).Obeys (fun q _ => q = .settled o r (some a)) (.created o r a)
      (AccountLinkRepository.link (creates o) (keyIn cfg (creates o) r) a) :=
  (obeys_await (.created o r a) (.links _ (.link _ _)) ⟨rfl, rfl, rfl⟩).mono fun _ _ h => h

theorem obeys_linkIf {o : CoreOp} {r : String} {accountId : Option String} :
    (protocol cfg core).Obeys (fun q _ => ∃ owner, q = .settled o r owner) (.made o r accountId)
      (Routes.linkIf (creates o) (keyIn cfg (creates o) r) accountId) := by
  cases htruthy : truthy accountId with
  | none => simp only [Routes.linkIf, Stage.made, htruthy]; exact ⟨none, rfl⟩
  | some a =>
    simp only [Routes.linkIf, Stage.made, htruthy]
    exact obeys_link.mono fun _ _ h => ⟨some a, h⟩

theorem obeys_linkAndLog {o : CoreOp} {r eventType : String} {payload : String → AuditPayload}
    {accountId : Option String}
    (hpayload : ∀ a, ∃ requestId, payload a = loggedFor cfg o r a requestId) :
    (protocol cfg core).Obeys (fun q _ => ∃ owner, q = .settled o r owner) (.made o r accountId)
      (Routes.linkAndLog (creates o) (keyIn cfg (creates o) r) eventType payload accountId) := by
  cases htruthy : truthy accountId with
  | none => simp only [Routes.linkAndLog, Stage.made, htruthy]; exact ⟨none, rfl⟩
  | some a =>
    simp only [Routes.linkAndLog, Stage.made, htruthy]
    refine obeys_link.bind ?_
    rintro _ _ rfl
    obtain ⟨requestId, hrow⟩ := hpayload a
    exact (obeys_stay (.settled o r (some a)) (.audit (.logDetached _ _)) ⟨a, requestId, rfl, hrow⟩
      fun _ => rfl).mono fun _ _ h => ⟨some a, h⟩

theorem obeys_gated {o : CoreOp} {caller : Promise (Option String)} {eventType : String}
    {payload : String → String → AuditPayload}
    (hcaller : (protocol cfg core).Obeys (Guarded o) (.gated o) caller)
    (hpayload : ∀ r a, ∃ requestId, payload r a = loggedFor cfg o r a requestId) :
    (protocol cfg core).Obeys (fun q r => ∃ owner, q = .settled o r owner) (.gated o) (do
      let accountId ← caller
      let r ← await (.core o)
      Routes.linkAndLog (creates o) (keyIn cfg (creates o) r) eventType (payload r) accountId
      return r) := by
  refine hcaller.bind fun q accountId hq => ?_
  refine (obeys_core hq).bind ?_
  rintro _ r rfl
  exact (obeys_linkAndLog (hpayload r)).bind fun _ _ h => h

theorem obeys_redeem {o : CoreOp} {table : AccountLinkTable} {x : String}
    (hx : presents o = some (table, x)) :
    (protocol cfg core).Obeys (fun q r => ∃ owner, q = .settled o r owner) (.redeeming o) (do
      let accountId ← AccountLinkRepository.getAccountId table (keyIn cfg table x)
      let r ← await (.core o)
      Routes.linkIf (creates o) (keyIn cfg (creates o) r) accountId
      return r) := by
  refine (obeys_await (.redeeming o) (.links table (.getAccountId _)) ⟨x, hx, rfl⟩).bind ?_
  rintro _ accountId rfl
  refine (obeys_await (.holding o accountId) (.core o) rfl).bind ?_
  rintro _ r rfl
  exact obeys_linkIf.bind fun _ _ h => h

theorem obeys_issueVC {request : Request} {params : Json} :
    (protocol cfg core).Obeys
      (fun q r => ∃ owner, q = .settled (.issueVC params request.id) r owner)
      (.gated (.issueVC params request.id)) (Routes.issueVC cfg request params) := by
  refine obeys_gated (o := .issueVC params request.id) ?_ fun r a => ⟨request.id, rfl⟩
  simp only [Routes.issueVCCaller]
  split_ifs
  · exact obeys_resolveAccountOrAdmin
  · simp only [requireAdmin]
    split_ifs
    · rfl
    · exact nofun

theorem obeys_enrollmentTokens {request : Request} {body : EnrollmentTokenBody} :
    (protocol cfg core).Obeys
      (fun q r => ∃ owner, q = .settled (.generateEnrollmentToken body request.id) r owner)
      (.gated (.generateEnrollmentToken body request.id))
      (Routes.enrollmentTokens cfg request body) := by
  refine obeys_gated (o := .generateEnrollmentToken body request.id) ?_ fun r a => ⟨request.id, rfl⟩
  simp only [Routes.enrollmentTokensCaller]
  split_ifs
  · exact obeys_resolveAccountOrAdmin
  · rfl

/-- **Every request of the server obeys the protocol.** -/
theorem obeys_prog (c : Call) :
    (protocol cfg core).Obeys Stage.Answers (Stage.start c) (c.prog cfg) := by
  cases c with
  | register input => exact obeys_aside register_uses (fun _ => .inl) (by simp)
  | login input => exact obeys_aside login_uses (fun _ => .inl) (by simp)
  | loginWithGoogle profile => exact obeys_aside loginWithGoogle_uses (fun _ => .inl) (by simp)
  | refresh refreshToken =>
    exact obeys_aside (uses_auth_of_session refresh_uses) (fun _ => .inl) (by simp)
  | logout refreshToken =>
    exact obeys_aside (f := fun _ => .done) (uses_auth_of_session logout_uses) (fun _ => .inl)
      (by simp)
  | verifyEmail token =>
    exact obeys_aside (uses_auth_of_account (uses_account_of_mail verifyEmail_uses)) (fun _ => .inl)
      (by simp)
  | resendVerificationEmail email =>
    exact obeys_aside (f := fun _ => .done)
      (uses_auth_of_account (uses_account_of_mail resendVerificationEmail_uses)) (fun _ => .inl)
      (by simp)
  | listVCs request query => exact obeys_aside listVCs_uses (fun _ => .inr) (by simp)
  | revokeVC request vcId => exact obeys_aside revokeVC_uses (fun _ => .inr) (by simp)
  | renewVC request vcId overrides => exact obeys_aside renewVC_uses (fun _ => .inr) (by simp)
  | ingest route request body => exact obeys_aside ingest_uses (fun _ => .inr) (by simp)
  | listAuditLog request query => exact obeys_aside listAuditLog_uses (fun _ => .inr) (by simp)
  | issueVC request params =>
    refine obeys_issueVC.bind ?_
    rintro _ r ⟨owner, rfl⟩; exact rfl
  | enrollmentTokens request body =>
    refine obeys_enrollmentTokens.bind ?_
    rintro _ r ⟨owner, rfl⟩; exact rfl
  | enroll requestId body =>
    refine (obeys_redeem (o := .enroll body requestId) rfl).bind ?_
    rintro _ r ⟨owner, rfl⟩; exact rfl
  | onboard requestId body =>
    refine (obeys_redeem (o := .processOnboardStep1 body requestId) rfl).bind ?_
    rintro _ r ⟨owner, rfl⟩; exact rfl
  | onboardVerify requestId body =>
    refine (obeys_redeem (o := .processOnboardVerify body requestId) rfl).bind ?_
    rintro _ r ⟨owner, rfl⟩; exact rfl

end Ownership

end HelixServer
