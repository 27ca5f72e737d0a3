import HelixServer.Access.Hosted
import HelixServer.Async.History
import HelixServer.Footprint

/-!
# Privileged calls

Issuing, revoking and renewing credentials and writing and reading the audit log are calls that the
routes guard.  Along every run such a call is reached only by the operator, or by a request that has
shown an access token of a verified account together with what the route requires of an account
(`guarded_of_run`); an account is never taken for the operator, because its id is not empty.

## Main definitions

* `ShowsBearer cfg request es a` : among the calls `es` of the request are those by which the guard
  has found the account `a` of its access token.
* `requires es o` : what an account must have shown for the privileged call `o`; for other calls
  nothing is asked.
* `Admitted c es p` : the request is the operator's, or that of an account with `p`.
-/

namespace HelixServer

namespace Access

open Async

variable {cfg : Config} {core : Core}

/-- The request that the guard reads. -/
def requestOf : Call → Option Request
  | .issueVC request _ | .enrollmentTokens request _ | .listVCs request _ | .revokeVC request _
  | .renewVC request _ _ | .ingest _ request _ | .listAuditLog request _ => some request
  | _ => none

/-! ### What the calls of a request have shown -/

/-- The access token of the request was valid when its clock was read, and its account, when looked
up, existed and was verified. -/
structure ShowsBearer (request : Request) (es : List (Event (server cfg core))) (a : String) :
    Prop where
  token : ∃ token payload, request.bearerToken = some token ∧ payload.accountId = a ∧
    ∃ e ∈ es, e.op = .runtime .now ∧
      verifyAccessToken cfg.runtime cfg.accessTokenSecret token e.pre.now = .ok payload
  account : ∃ e ∈ es, e.op = .accounts (.findById a) ∧
    ∃ r ∈ e.pre.accounts, r.id = a ∧ r.emailVerifiedAt.isSome = true

/-- The log had fewer rows of the account in the last 24 hours than the daily limit, if there is
one. -/
def PassesQuota (quota : Option Quota) (es : List (Event (server cfg core))) (a : String) : Prop :=
  ∀ q ∈ quota, ∃ e₀ ∈ es, e₀.op = .runtime .now ∧
    ∃ e ∈ es, e.op = .audit (.list (quotaQuery q.eventType (e₀.pre.now - oneDayMs))) ∧
      countForAccount a (core.listAuditLog (quotaQuery q.eventType (e₀.pre.now - oneDayMs))
        e.pre.auditLog) < q.dailyLimit

/-- The key was linked to the account when it was looked up. -/
def SawLink (es : List (Event (server cfg core))) (table : AccountLinkTable) (key a : String) :
    Prop :=
  ∃ e ∈ es, e.op = .links table (.getAccountId key) ∧
    AccountLinks.getAccountId key (e.pre.links table) = some a

/-- The row was in the log, and listed. -/
def SawRow (es : List (Event (server cfg core))) (row : AuditLogRow) : Prop :=
  ∃ e ∈ es, ∃ q, e.op = .audit (.list q) ∧ row ∈ core.listAuditLog q e.pre.auditLog

/-- The row names the account, or a credential or an enrollment token that was linked to it. -/
def SawAttribution (es : List (Event (server cfg core))) (row : AuditLogRow) (a : String) : Prop :=
  row.payload.getString "accountId" = some a ∨
    (∃ key, row.payload.getString "vcId" = some key ∧ SawLink es .vcAccountLinks key a) ∨
    ∃ key, row.payload.getString "tokenIdHash" = some key ∧
      SawLink es .enrollmentTokenAccountLinks key a

/-- The credential was linked to the account when its credentials were listed. -/
def SawOwned (es : List (Event (server cfg core))) (vcId a : String) : Prop :=
  ∃ e ∈ es, ∃ l ∈ e.pre.vcAccountLinks, l.key = vcId ∧ l.accountId = a

/-- What an account must have shown for a privileged call. -/
def requires (es : List (Event (server cfg core))) : Op → Option (String → Prop)
  | .core (.issueVC _ _) =>
    some (PassesQuota (Quota.of accountVcIssued cfg.vcIssuanceDailyQuota) es)
  | .vcs (.revokeVC vcId _) => some (SawLink es .vcAccountLinks vcId)
  | .vcs (.listVCs _) | .audit (.list _) => some fun _ => True
  -- the operator's only
  | .vcs (.renewVC _ _ _) | .audit (.logEntry _ _ _) => some fun _ => False
  | _ => none

/-- What the account that is given a reply has shown for it. -/
def Sees (es : List (Event (server cfg core))) : Reply → String → Prop
  | .auditLog entries, a =>
    ∀ entry ∈ entries, SawRow es entry.record ∧ SawAttribution es entry.record a
  | .vcs summaries, a => ∀ v ∈ summaries, SawOwned es v.vcId a
  | .renewed _, _ | .recorded _ _, _ => False
  | _, _ => True

/-- The request is the operator's, or that of an account with `p`. -/
def Admitted (c : Call) (es : List (Event (server cfg core))) (p : String → Prop) : Prop :=
  ∃ request, requestOf c = some request ∧
    (request.isAdmin cfg = true ∨ ∃ a, ShowsBearer request es a ∧ p a)

/-- The replies that are given to the operator and to accounts. -/
def Answered (c : Call) (es : List (Event (server cfg core))) (reply : Reply)
    (adm : (String → Prop) → Prop) : Prop :=
  match c with
  | .issueVC _ _ | .listVCs _ _ | .revokeVC _ _ | .renewVC _ _ _ | .ingest _ _ _
  | .listAuditLog _ _ => adm (Sees es reply)
  -- the one route with the guard that takes a request of nobody
  | .enrollmentTokens request _ => cfg.accountOrAdminGuardDeps = true →
      request.bearerToken.isSome = true → adm fun _ => True
  | _ => True

section

variable {es es' : List (Event (server cfg core))} {request : Request} {c : Call} {a : String}
  {table : AccountLinkTable} {key : String} {row : AuditLogRow} {p p' : String → Prop}

theorem ShowsBearer.mono (h : ShowsBearer request es a) (hes : es ⊆ es') :
    ShowsBearer request es' a where
  token := by
    obtain ⟨token, payload, ht, ha, e, he, hnow⟩ := h.token
    exact ⟨token, payload, ht, ha, e, hes he, hnow⟩
  account := by
    obtain ⟨e, he, hfound⟩ := h.account
    exact ⟨e, hes he, hfound⟩

theorem SawLink.mono (h : SawLink es table key a) (hes : es ⊆ es') : SawLink es' table key a := by
  obtain ⟨e, he, hlink⟩ := h
  exact ⟨e, hes he, hlink⟩

theorem SawAttribution.mono (h : SawAttribution es row a) (hes : es ⊆ es') :
    SawAttribution es' row a :=
  h.imp_right (.imp (fun ⟨key, hkey, hl⟩ => ⟨key, hkey, hl.mono hes⟩)
    fun ⟨key, hkey, hl⟩ => ⟨key, hkey, hl.mono hes⟩)

theorem Admitted.imp (h : Admitted c es p)
    (hp : ∀ request a, ShowsBearer request es a → p a → p' a) : Admitted c es p' := by
  obtain ⟨request, hc, h⟩ := h
  exact ⟨request, hc, h.imp_right fun ⟨a, ha, hpa⟩ => ⟨a, ha, hp request a ha hpa⟩⟩

end

theorem Answered.imp {es : List (Event (server cfg core))} {c : Call} {reply : Reply}
    {adm adm' : (String → Prop) → Prop} (h : Answered c es reply adm) (hadm : ∀ p, adm p → adm' p) :
    Answered c es reply adm' := by
  cases c with
  | enrollmentTokens request body => exact fun hdeps htoken => hadm _ (h hdeps htoken)
  | issueVC _ _ | listVCs _ _ | revokeVC _ _ | renewVC _ _ _ | ingest _ _ _ | listAuditLog _ _ =>
    exact hadm _ h
  | _ => trivial

/-- A request with an access token is answered only if it is admitted. -/
theorem Answered.admitted {es : List (Event (server cfg core))} {c : Call} {reply : Reply}
    {request : Request} {adm : (String → Prop) → Prop} (h : Answered c es reply adm)
    (hdeps : cfg.accountOrAdminGuardDeps = true) (hc : requestOf c = some request)
    (htoken : request.bearerToken.isSome = true) : ∃ p, adm p := by
  cases c with
  | enrollmentTokens request' body => cases hc; exact ⟨_, h hdeps htoken⟩
  | issueVC _ _ | listVCs _ _ | revokeVC _ _ | renewVC _ _ _ | ingest _ _ _ | listAuditLog _ _ =>
    exact ⟨_, h⟩
  | _ => cases hc

/-! ### The programs -/

/-- The calls and replies that are justified if no account has an empty id: the routes take an
empty id for no account. -/
def privileged (cfg : Config) (core : Core) : History (server cfg core) where
  allowed c es o := ∀ p ∈ requires es o, Admitted c es fun a => a ≠ "" → p a
  answers c es reply := Answered c es reply fun p => Admitted c es fun a => a ≠ "" → p a

section Programs

/-- A request has made further calls. -/
def Grown (c : Call) (es : List (Event (server cfg core)))
    (q : Call × List (Event (server cfg core))) : Prop := q.1 = c ∧ es ⊆ q.2

/-- What the guard has shown for the account that it answers. -/
def Guarded (request : Request) (accountId : Option String)
    (es : List (Event (server cfg core))) : Prop :=
  match accountId with
  | none => request.isAdmin cfg = true
  | some a => ShowsBearer request es a

variable {es : List (Event (server cfg core))} {request : Request} {c : Call} {a : String}
  {accountId : Option String} {α : Type}
  {post : Call × List (Event (server cfg core)) → α → Prop}

theorem Guarded.mono {es' : List (Event (server cfg core))} (h : Guarded request accountId es)
    (hes : es ⊆ es') : Guarded request accountId es' := by
  cases accountId with
  | none => exact h
  | some a => exact ShowsBearer.mono h hes

theorem Guarded.admitted (h : Guarded request accountId es) (hc : requestOf c = some request)
    {p : String → Prop} (hp : ∀ a, truthy accountId = some a → p a) :
    Admitted c es fun a => a ≠ "" → p a := by
  refine ⟨request, hc, ?_⟩
  cases accountId with
  | none => exact .inl h
  | some a => exact .inr ⟨a, h, fun hne => hp a (by simp [truthy, hne])⟩

theorem not_required {o : Op} (h : requires es o = none) :
    (privileged cfg core).allowed c es o := by
  intro p hp
  rw [h] at hp
  cases hp

theorem obeys_step {o : Op} (ha : (privileged cfg core).allowed c es o) :
    (privileged cfg core).protocol.Obeys
      (fun q r => ∃ w w', o.exec cfg w = (.ok r, w') ∧ q = (c, es ++ [⟨o, r, w⟩])) (c, es)
      (await o) :=
  Protocol.obeys_perform ha fun w _ w' he => ⟨w, w', he, rfl⟩

theorem obeys_free {o : Op} (h : requires es o = none) :
    (privileged cfg core).protocol.Obeys
      (fun q r => ∃ w w', o.exec cfg w = (.ok r, w') ∧ q = (c, es ++ [⟨o, r, w⟩])) (c, es)
      (await o) :=
  obeys_step (not_required h)

theorem subset_snoc {e : Event (server cfg core)} : es ⊆ es ++ [e] := List.subset_append_left _ _

theorem Grown.refl : Grown c es (c, es) := ⟨rfl, fun _ h => h⟩

theorem obeys_assertQuota {quota : Option Quota} (hc : requestOf c = some request)
    (h : ShowsBearer request es a) :
    (privileged cfg core).protocol.Obeys (fun q _ => Grown c es q ∧ PassesQuota quota q.2 a) (c, es)
      (assertQuota quota a) := by
  cases quota with
  | none => exact ⟨.refl, nofun⟩
  | some quota =>
    refine (obeys_free rfl).bind ?_
    rintro _ now ⟨w₀, w₁, he₀, rfl⟩
    obtain rfl : w₀.now = now := Except.ok.inj (congrArg Prod.fst he₀)
    refine (obeys_step fun p hp => ?_).bind ?_
    · cases hp
      have hguarded : Guarded request (some a) es := h
      exact (hguarded.mono subset_snoc).admitted hc fun _ _ => trivial
    rintro _ rows ⟨w, w₂, he, rfl⟩
    obtain rfl : core.listAuditLog _ w.auditLog = rows := Except.ok.inj (congrArg Prod.fst he)
    by_cases hn : quota.dailyLimit ≤ countForAccount a (core.listAuditLog
        (quotaQuery quota.eventType (w₀.now - oneDayMs)) w.auditLog)
    · simp only [hn, if_true]
      refine (obeys_free rfl).bind ?_
      rintro _ now ⟨_, _, -, rfl⟩
      trivial
    · simp only [hn, if_false]
      refine ⟨⟨rfl, fun e he => subset_snoc (subset_snoc he)⟩, fun q hq => ?_⟩
      cases hq
      exact ⟨_, subset_snoc List.mem_concat_self, rfl, _, List.mem_concat_self, rfl,
        Nat.lt_of_not_le hn⟩

/-- The guard answers the account that it has found, which is under its quota, or takes the request
for the operator's or nobody's. -/
def Resolved (request : Request) (requireAuth : Bool) (quota : Option Quota)
    (accountId : Option String) (es : List (Event (server cfg core))) : Prop :=
  match accountId with
  | none => request.isAdmin cfg = true ∨ requireAuth = false ∧ request.bearerToken = none
  | some a => ShowsBearer request es a ∧ PassesQuota quota es a

theorem obeys_resolveBearer
    (hverify : cfg.verifyAccessToken = verifyAccessToken cfg.runtime cfg.accessTokenSecret)
    {token : String} {quota : Option Quota} {requireAuth : Bool} (hc : requestOf c = some request)
    (htoken : request.bearerToken = some token) :
    (privileged cfg core).protocol.Obeys
      (fun q accountId => Grown c es q ∧ Resolved request requireAuth quota accountId q.2) (c, es)
      (resolveBearer cfg token quota) := by
  refine (obeys_free rfl).bind ?_
  rintro _ now ⟨w₀, w₁, he₀, rfl⟩
  obtain rfl : w₀.now = now := Except.ok.inj (congrArg Prod.fst he₀)
  cases hpayload : cfg.verifyAccessToken token w₀.now with
  | error e => trivial
  | ok payload =>
    refine (obeys_free rfl).bind ?_
    rintro _ account ⟨w, w₂, he, rfl⟩
    obtain rfl : w.accounts.find? (·.id == payload.accountId) = account :=
      Except.ok.inj (congrArg Prod.fst he)
    cases hfind : w.accounts.find? (·.id == payload.accountId) with
    | none => trivial
    | some r =>
      by_cases hv : (Option.bind (some r) (·.emailVerifiedAt)).isNone = true
      · simp only [hv, if_true]
        trivial
      · have hverified : r.emailVerifiedAt.isSome = true :=
          Option.isSome_iff_ne_none.2 (by simpa using hv)
        have hshows : ShowsBearer request (es ++ [⟨.runtime .now, w₀.now, w₀⟩] ++
            [⟨.accounts (.findById payload.accountId), some r, w⟩]) payload.accountId := by
          refine ⟨⟨token, payload, htoken, rfl, _, subset_snoc List.mem_concat_self, rfl, ?_⟩,
            _, List.mem_concat_self, rfl,
            r, List.mem_of_find?_eq_some hfind, by simpa using List.find?_some hfind, hverified⟩
          rw [← hverify]
          exact hpayload
        simp only [hv]
        refine (obeys_assertQuota hc hshows).bind ?_
        rintro q _ ⟨⟨rfl, hgrown⟩, hquota⟩
        exact ⟨⟨rfl, fun e he => hgrown (subset_snoc (subset_snoc he))⟩, hshows.mono hgrown, hquota⟩

theorem obeys_resolveAccountOrAdmin
    (hverify : cfg.verifyAccessToken = verifyAccessToken cfg.runtime cfg.accessTokenSecret)
    {quota : Option Quota} {requireAuth : Bool} (hc : requestOf c = some request) :
    (privileged cfg core).protocol.Obeys
      (fun q accountId => Grown c es q ∧ Resolved request requireAuth quota accountId q.2) (c, es)
      (resolveAccountOrAdmin cfg request requireAuth quota) := by
  refine obeys_guard trivial ?_ ?_ fun token htoken => obeys_resolveBearer hverify hc htoken
  · exact fun hadmin => ⟨.refl, .inl hadmin⟩
  · exact fun hopen hnone => ⟨.refl, .inr ⟨hopen, hnone⟩⟩

theorem obeys_requireAdmin :
    (privileged cfg core).protocol.Obeys (fun q _ => Grown c es q ∧ request.isAdmin cfg = true)
      (c, es) (requireAdmin cfg request) := by
  cases hadmin : request.isAdmin cfg with
  | true => simp only [requireAdmin, hadmin, if_true]; exact ⟨.refl, trivial⟩
  | false => simp only [requireAdmin, hadmin]; trivial

theorem obeys_authenticated
    (hverify : cfg.verifyAccessToken = verifyAccessToken cfg.runtime cfg.accessTokenSecret)
    (hc : requestOf c = some request) :
    (privileged cfg core).protocol.Obeys
      (fun q accountId => Grown c es q ∧ Guarded request accountId q.2) (c, es)
      (Routes.authenticated cfg request) := by
  unfold Routes.authenticated
  split_ifs
  · refine (obeys_resolveAccountOrAdmin hverify hc).mono ?_
    rintro q (_ | a) ⟨hgrown, h⟩
    · exact ⟨hgrown, h.resolve_right nofun⟩
    · exact ⟨hgrown, h.1⟩
  · refine obeys_requireAdmin.bind ?_
    rintro q _ ⟨hgrown, hadmin⟩
    exact ⟨hgrown, hadmin⟩

theorem obeys_issueVCCaller
    (hverify : cfg.verifyAccessToken = verifyAccessToken cfg.runtime cfg.accessTokenSecret)
    (hc : requestOf c = some request) :
    (privileged cfg core).protocol.Obeys
      (fun q accountId => Grown c es q ∧ Guarded request accountId q.2 ∧ ∀ a, accountId = some a →
        PassesQuota (Quota.of accountVcIssued cfg.vcIssuanceDailyQuota) q.2 a) (c, es)
      (Routes.issueVCCaller cfg request) := by
  unfold Routes.issueVCCaller
  split_ifs
  · refine (obeys_resolveAccountOrAdmin hverify hc).mono ?_
    rintro q (_ | a) ⟨hgrown, h⟩
    · exact ⟨hgrown, h.resolve_right nofun, nofun⟩
    · refine ⟨hgrown, h.1, ?_⟩
      rintro _ ⟨⟩
      exact h.2
  · refine obeys_requireAdmin.bind ?_
    rintro q _ ⟨hgrown, hadmin⟩
    exact ⟨hgrown, hadmin, nofun⟩

/-- A call that asks for nothing of an account. -/
def Free (cfg : Config) (core : Core) (o : Op) : Prop :=
  ∀ es : List (Event (server cfg core)), requires es o = none

theorem obeys_uses_free {R : HelixError → Prop} {p : Promise α} (hp : p.Uses (Free cfg core) R) :
    (privileged cfg core).protocol.Obeys (fun q _ => Grown c es q) (c, es) p := by
  refine Protocol.obeys_of_uses_keeping (I := Grown c es) .refl hp (fun q o hq ho => ?_)
    (fun _ _ _ _ => trivial) fun _ _ hq => hq
  exact ⟨not_required (ho q.2), fun r w => ⟨hq.1, List.Subset.trans hq.2 subset_snoc⟩⟩

theorem free_of_auth {o : Op} (h : AuthCall o) : Free cfg core o := by
  intro es
  cases o with
  | core o => rcases h with h | h <;> exact h.elim
  | vcs o => rcases h with h | h <;> exact h.elim
  | audit o => cases o <;> first | rfl | (rcases h with h | h <;> exact h.elim)
  | _ => rfl

theorem linkAndLog_free {R : HelixError → Prop} {eventType : String}
    {payload : String → AuditPayload} {table : AccountLinkTable} {key : String} :
    (Routes.linkAndLog table key eventType payload accountId).Uses (Free cfg core) R := by
  unfold Routes.linkAndLog
  split
  · exact ⟨fun _ => rfl, fun _ => await_uses fun _ => rfl⟩
  · trivial

theorem redeem_free {R : HelixError → Prop} {from_ to_ : AccountLinkTable} {key : String}
    {o : CoreOp} (ho : Free cfg core (.core o)) :
    (Routes.redeem from_ key o to_).Uses (Free cfg core) R := by
  refine Prog.Uses.bind (await_uses fun _ => rfl) fun accountId => ?_
  refine Prog.Uses.bind (await_uses ho) fun result => Prog.Uses.bind ?_ fun _ => trivial
  unfold Routes.linkIf
  split
  · exact await_uses fun _ => rfl
  · trivial

theorem obeys_issueVC
    (hverify : cfg.verifyAccessToken = verifyAccessToken cfg.runtime cfg.accessTokenSecret)
    {params : Json} (hc : requestOf c = some request) :
    (privileged cfg core).protocol.Obeys
      (fun q _ => q.1 = c ∧ ∃ accountId, Guarded request accountId q.2) (c, es)
      (Routes.issueVC cfg request params) := by
  refine (obeys_issueVCCaller hverify hc).bind ?_
  rintro ⟨c, es₁⟩ accountId ⟨⟨rfl, -⟩, hguard, hquota⟩
  refine (obeys_step fun p hp => ?_).bind ?_
  · cases hp
    exact hguard.admitted hc fun a ha => hquota a (Option.eq_some_of_filter_eq_some ha)
  rintro _ vcId ⟨w, w', -, rfl⟩
  refine (obeys_uses_free linkAndLog_free (R := fun _ => True)).bind ?_
  rintro ⟨c, es₂⟩ _ ⟨rfl, hgrown⟩
  exact ⟨rfl, accountId, (hguard.mono subset_snoc).mono hgrown⟩

theorem obeys_revokeVC
    (hverify : cfg.verifyAccessToken = verifyAccessToken cfg.runtime cfg.accessTokenSecret)
    {vcId : String} (hc : requestOf c = some request) :
    (privileged cfg core).protocol.Obeys
      (fun q _ => q.1 = c ∧ ∃ accountId, Guarded request accountId q.2) (c, es)
      (Routes.revokeVC cfg request vcId) := by
  refine (obeys_authenticated hverify hc).bind ?_
  rintro ⟨c, es₁⟩ accountId ⟨⟨rfl, -⟩, hguard⟩
  have howner : (privileged cfg core).protocol.Obeys (fun q _ => Grown c es₁ q ∧
      ∀ a, truthy accountId = some a → SawLink q.2 .vcAccountLinks vcId a) (c, es₁)
      (Routes.assertOwner vcId accountId) := by
    unfold Routes.assertOwner
    cases truthy accountId with
    | none => exact ⟨.refl, nofun⟩
    | some a =>
      refine (obeys_free rfl).bind ?_
      rintro _ owner ⟨w, w', he, rfl⟩
      obtain rfl : AccountLinks.getAccountId vcId (w.links .vcAccountLinks) = owner :=
        Except.ok.inj (congrArg Prod.fst he)
      by_cases heq : AccountLinks.getAccountId vcId (w.links .vcAccountLinks) = some a
      · simp only [heq, beq_self_eq_true, if_true]
        refine ⟨⟨rfl, subset_snoc⟩, ?_⟩
        rintro _ ⟨⟩
        exact ⟨_, List.mem_concat_self, rfl, heq⟩
      · simp only [beq_eq_false_iff_ne.2 heq, Bool.false_eq_true, if_false]
        trivial
  refine howner.bind ?_
  rintro ⟨c, es₂⟩ _ ⟨⟨rfl, hgrown⟩, hlink⟩
  refine (obeys_step fun p hp => ?_).mono ?_
  · cases hp
    exact (hguard.mono hgrown).admitted hc hlink
  rintro _ result ⟨w, w', -, rfl⟩
  exact ⟨rfl, accountId, (hguard.mono hgrown).mono subset_snoc⟩

theorem obeys_renewVC {vcId : String} {overrides : Json} (hc : requestOf c = some request) :
    (privileged cfg core).protocol.Obeys (fun q _ => q.1 = c ∧ request.isAdmin cfg = true) (c, es)
      (Routes.renewVC cfg request vcId overrides) := by
  refine obeys_requireAdmin.bind ?_
  rintro ⟨c, es₁⟩ _ ⟨⟨rfl, -⟩, hadmin⟩
  refine (obeys_step fun p hp => ?_).mono ?_
  · cases hp
    exact ⟨request, hc, .inl hadmin⟩
  rintro _ result ⟨w, w', -, rfl⟩
  exact ⟨rfl, hadmin⟩

theorem obeys_ingest {route : IngestRoute} {body : Json} (hc : requestOf c = some request) :
    (privileged cfg core).protocol.Obeys (fun q _ => q.1 = c ∧ request.isAdmin cfg = true) (c, es)
      (Routes.ingest cfg route request body) := by
  refine obeys_requireAdmin.bind ?_
  rintro ⟨c, es₁⟩ _ ⟨⟨rfl, -⟩, hadmin⟩
  dsimp only
  split
  · trivial
  · split
    · trivial
    · rename_i entry _
      have htime : (Routes.entryTimestamp entry.timestamp).Uses (Free cfg core) fun _ => True := by
        unfold Routes.entryTimestamp
        split
        · trivial
        · exact Prog.Uses.bind (await_uses fun _ => rfl) fun _ => trivial
      refine (obeys_uses_free htime).bind ?_
      rintro ⟨c, es₂⟩ timestamp ⟨rfl, -⟩
      refine (obeys_step fun p hp => ?_).bind ?_
      · cases hp
        exact ⟨request, hc, .inl hadmin⟩
      rintro _ _ ⟨w, w', -, rfl⟩
      exact ⟨rfl, hadmin⟩

/-- The route that takes a request of nobody refuses a request with a bad access token. -/
theorem obeys_enrollmentTokens
    (hverify : cfg.verifyAccessToken = verifyAccessToken cfg.runtime cfg.accessTokenSecret)
    {body : EnrollmentTokenBody} (hc : requestOf c = some request) :
    (privileged cfg core).protocol.Obeys (fun q _ => q.1 = c ∧
      (cfg.accountOrAdminGuardDeps = true → request.bearerToken.isSome = true →
        Admitted c q.2 fun a => a ≠ "" → True)) (c, es)
      (Routes.enrollmentTokens cfg request body) := by
  have hcaller : (privileged cfg core).protocol.Obeys (fun q _ => Grown c es q ∧
      (cfg.accountOrAdminGuardDeps = true → request.bearerToken.isSome = true →
        Admitted c q.2 fun a => a ≠ "" → True)) (c, es)
      (Routes.enrollmentTokensCaller cfg request) := by
    unfold Routes.enrollmentTokensCaller
    split_ifs with hdeps
    · refine (obeys_resolveAccountOrAdmin hverify hc).mono ?_
      rintro q accountId ⟨hgrown, h⟩
      refine ⟨hgrown, fun _ htoken => ⟨request, hc, ?_⟩⟩
      cases accountId with
      | none =>
        refine h.imp_right fun hnone => ?_
        rw [hnone.2] at htoken
        cases htoken
      | some a => exact .inr ⟨a, h.1, fun _ => trivial⟩
    · exact ⟨.refl, fun h => absurd h hdeps⟩
  refine hcaller.bind ?_
  rintro ⟨c, es₁⟩ accountId ⟨⟨rfl, -⟩, hadm⟩
  refine (obeys_free rfl).bind ?_
  rintro _ token ⟨w, w', -, rfl⟩
  refine (obeys_uses_free linkAndLog_free (R := fun _ => True)).bind ?_
  rintro ⟨c, es₂⟩ _ ⟨rfl, hgrown⟩
  refine ⟨rfl, fun hdeps htoken => ?_⟩
  obtain ⟨request', hc', h⟩ := hadm hdeps htoken
  refine ⟨request', hc', h.imp_right fun ⟨a, ha, hp⟩ => ⟨a, ?_, hp⟩⟩
  exact (ha.mono subset_snoc).mono hgrown

theorem obeys_listVCs
    (hverify : cfg.verifyAccessToken = verifyAccessToken cfg.runtime cfg.accessTokenSecret)
    {query : ListVCsQuery} (hc : requestOf c = some request) :
    (privileged cfg core).protocol.Obeys (fun q summaries => q.1 = c ∧
      ∃ accountId, Guarded request accountId q.2 ∧ ∀ a, truthy accountId = some a →
        ∀ v ∈ summaries, SawOwned q.2 v.vcId a) (c, es) (Routes.listVCs cfg request query) := by
  refine (obeys_authenticated hverify hc).bind ?_
  rintro ⟨c, es₁⟩ accountId ⟨⟨rfl, -⟩, hguard⟩
  cases Routes.vcFilter cfg.runtime query with
  | error e => trivial
  | ok filter =>
    refine (obeys_step fun p hp => ?_).bind ?_
    · cases hp
      exact hguard.admitted hc fun _ _ => trivial
    rintro _ result ⟨w₁, w₁', -, rfl⟩
    unfold Routes.ownedSummaries
    cases htruthy : truthy accountId with
    | none => exact ⟨rfl, accountId, hguard.mono subset_snoc, by rw [htruthy]; exact nofun⟩
    | some a =>
      refine (obeys_free rfl).bind ?_
      rintro _ keys ⟨w, w', he, rfl⟩
      obtain rfl : AccountLinks.listKeysForAccount a w.vcAccountLinks = keys :=
        Except.ok.inj (congrArg Prod.fst he)
      refine ⟨rfl, accountId, hguard.mono fun e he => subset_snoc (subset_snoc he), ?_⟩
      intro b hb v hv
      obtain rfl : a = b := Option.some.inj (htruthy.symm.trans hb)
      have hkey := List.contains_iff_mem.1 (List.mem_filter.1 hv).2
      obtain ⟨l, hl, hkey⟩ := List.mem_map.1 hkey
      obtain ⟨hmem, ha⟩ := List.mem_filter.1 hl
      exact ⟨_, List.mem_concat_self, l, hmem, hkey, eq_of_beq ha⟩

theorem obeys_isLinkedTo {key : Option String} {table : AccountLinkTable} :
    (privileged cfg core).protocol.Obeys (fun q shown => Grown c es q ∧ (shown = true →
      ∃ k, key = some k ∧ SawLink q.2 table k a)) (c, es) (Routes.isLinkedTo table key a) := by
  unfold Routes.isLinkedTo
  cases hkey : truthy key with
  | none => exact ⟨.refl, nofun⟩
  | some k =>
    refine (obeys_free rfl).bind ?_
    rintro _ owner ⟨w, w', he, rfl⟩
    obtain rfl : AccountLinks.getAccountId k (w.links table) = owner :=
      Except.ok.inj (congrArg Prod.fst he)
    exact ⟨⟨rfl, subset_snoc⟩, fun heq =>
      ⟨k, Option.eq_some_of_filter_eq_some hkey, _, List.mem_concat_self, rfl, eq_of_beq heq⟩⟩

theorem obeys_isAttributed {row : AuditLogRow} :
    (privileged cfg core).protocol.Obeys (fun q shown => Grown c es q ∧
      (shown = true → SawAttribution q.2 row a)) (c, es) (Routes.isAttributed a row) := by
  unfold Routes.isAttributed
  cases hpayload : row.payload.getString "accountId" == some a with
  | true => exact ⟨.refl, fun _ => .inl (eq_of_beq hpayload)⟩
  | false =>
    refine obeys_isLinkedTo.bind ?_
    rintro ⟨c, es₁⟩ linked ⟨⟨rfl, hes₁⟩, hlinked⟩
    cases linked with
    | true => exact ⟨⟨rfl, hes₁⟩, fun _ => .inr (.inl (hlinked rfl))⟩
    | false =>
      refine obeys_isLinkedTo.mono ?_
      rintro ⟨c, es₂⟩ shown ⟨⟨rfl, hes₂⟩, hshown⟩
      exact ⟨⟨rfl, List.Subset.trans hes₁ hes₂⟩, fun h => .inr (.inr (hshown h))⟩

theorem obeys_scopeRecords {rows : List AuditLogRow} :
    (privileged cfg core).protocol.Obeys (fun q shown => Grown c es q ∧
      ∀ row ∈ shown, row ∈ rows ∧ SawAttribution q.2 row a) (c, es)
      (Routes.scopeRecords a rows) := by
  induction rows generalizing es with
  | nil => exact ⟨.refl, nofun⟩
  | cons row rows ih =>
    refine obeys_isAttributed.bind ?_
    rintro ⟨c, es₁⟩ shown ⟨⟨rfl, hes₁⟩, hshown⟩
    refine ih.bind ?_
    rintro ⟨c, es₂⟩ rest ⟨⟨rfl, hes₂⟩, hrest⟩
    refine ⟨⟨rfl, List.Subset.trans hes₁ hes₂⟩, ?_⟩
    have hrest' : ∀ row' ∈ rest, row' ∈ row :: rows ∧ SawAttribution es₂ row' a :=
      fun row' hrow' => ⟨List.mem_cons_of_mem row (hrest row' hrow').1, (hrest row' hrow').2⟩
    cases shown with
    | true =>
      intro row' hrow'
      rcases List.mem_cons.1 hrow' with rfl | hrow'
      · exact ⟨List.mem_cons_self, (hshown rfl).mono hes₂⟩
      · exact hrest' row' hrow'
    | false => exact hrest'

/-- The rows that a hosted account is shown are attributed to it. -/
theorem obeys_listAuditLog
    (hverify : cfg.verifyAccessToken = verifyAccessToken cfg.runtime cfg.accessTokenSecret)
    {query : ListAuditLogQuery} (hc : requestOf c = some request) :
    (privileged cfg core).protocol.Obeys (fun q entries => q.1 = c ∧
      ∃ accountId, Guarded request accountId q.2 ∧ ∀ a, truthy accountId = some a →
        ∀ entry ∈ entries, SawRow q.2 entry.record ∧ SawAttribution q.2 entry.record a) (c, es)
      (Routes.listAuditLog cfg request query) := by
  refine (obeys_authenticated hverify hc).bind ?_
  rintro ⟨c, es₁⟩ accountId ⟨⟨rfl, -⟩, hguard⟩
  cases auditQuery cfg.runtime query with
  | error e => trivial
  | ok q =>
    refine (obeys_step fun p hp => ?_).bind ?_
    · cases hp
      exact hguard.admitted hc fun _ _ => trivial
    rintro _ records ⟨w₁, w₁', he, rfl⟩
    obtain rfl : core.listAuditLog q w₁.auditLog = records := Except.ok.inj (congrArg Prod.fst he)
    unfold Routes.scopeRecordsFor
    cases htruthy : truthy accountId with
    | none => exact ⟨rfl, accountId, hguard.mono subset_snoc, by rw [htruthy]; exact nofun⟩
    | some a =>
      refine obeys_scopeRecords.bind ?_
      rintro ⟨c, es₂⟩ rows ⟨⟨rfl, hes₂⟩, hrows⟩
      refine ⟨rfl, accountId, (hguard.mono subset_snoc).mono hes₂, ?_⟩
      intro b hb entry hentry
      obtain rfl : a = b := Option.some.inj (htruthy.symm.trans hb)
      obtain ⟨row, hrow, rfl⟩ := List.mem_map.1 hentry
      obtain ⟨hlisted, hseen⟩ := hrows row hrow
      exact ⟨⟨_, hes₂ List.mem_concat_self, q, rfl, hlisted⟩, hseen⟩

/-- **Every program of the server keeps to the conditions.** -/
theorem privileged_kept
    (hverify : cfg.verifyAccessToken = verifyAccessToken cfg.runtime cfg.accessTokenSecret) :
    (privileged cfg core).Kept := by
  have haside : ∀ {c : Call} {β : Type} {p : Promise β} {f : β → Reply},
      p.Uses (Free cfg core) (fun _ => True) →
        (∀ es reply, (privileged cfg core).answers c es reply) →
      (privileged cfg core).protocol.Obeys (fun q a => (privileged cfg core).answers q.1 q.2 a)
        (c, []) (p >>= fun b => return f b) := by
    intro c β p f hp hans
    refine (obeys_uses_free hp).bind ?_
    rintro ⟨c, es⟩ b ⟨rfl, -⟩
    exact hans es _
  intro c
  cases c with
  | register input =>
    exact haside (uses_widen register_uses fun _ => free_of_auth) fun _ _ => trivial
  | login input => exact haside (uses_widen login_uses fun _ => free_of_auth) fun _ _ => trivial
  | loginWithGoogle profile =>
    exact haside (uses_widen loginWithGoogle_uses fun _ => free_of_auth) fun _ _ => trivial
  | refresh refreshToken =>
    exact haside (uses_widen (uses_auth_of_session refresh_uses) fun _ => free_of_auth)
      fun _ _ => trivial
  | logout refreshToken =>
    exact haside (f := fun _ => .done)
      (uses_widen (uses_auth_of_session logout_uses) fun _ => free_of_auth)
      fun _ _ => trivial
  | verifyEmail token =>
    exact haside (uses_widen (uses_auth_of_account (uses_account_of_mail verifyEmail_uses))
      fun _ => free_of_auth) fun _ _ => trivial
  | resendVerificationEmail email =>
    exact haside (f := fun _ => .done) (uses_widen (uses_auth_of_account
      (uses_account_of_mail resendVerificationEmail_uses)) fun _ => free_of_auth) fun _ _ => trivial
  | enroll requestId body => exact haside (redeem_free fun _ => rfl) fun _ _ => trivial
  | onboard requestId body => exact haside (redeem_free fun _ => rfl) fun _ _ => trivial
  | onboardVerify requestId body => exact haside (redeem_free fun _ => rfl) fun _ _ => trivial
  | issueVC request params =>
    refine (obeys_issueVC hverify rfl).bind ?_
    rintro ⟨_, es⟩ vcId ⟨rfl, accountId, hguard⟩
    exact hguard.admitted rfl fun _ _ => trivial
  | enrollmentTokens request body =>
    refine (obeys_enrollmentTokens hverify rfl).bind ?_
    rintro ⟨_, es⟩ token ⟨rfl, hresolved⟩
    exact hresolved
  | listVCs request query =>
    refine (obeys_listVCs hverify rfl).bind ?_
    rintro ⟨_, es⟩ summaries ⟨rfl, accountId, hguard, hsees⟩
    exact hguard.admitted rfl hsees
  | revokeVC request vcId =>
    refine (obeys_revokeVC hverify rfl).bind ?_
    rintro ⟨_, es⟩ result ⟨rfl, accountId, hguard⟩
    exact hguard.admitted rfl fun _ _ => trivial
  | renewVC request vcId overrides =>
    refine (obeys_renewVC rfl).bind ?_
    rintro ⟨_, es⟩ vcId' ⟨rfl, hadmin⟩
    exact ⟨request, rfl, .inl hadmin⟩
  | ingest route request body =>
    refine (obeys_ingest rfl).bind ?_
    rintro ⟨_, es⟩ recorded ⟨rfl, hadmin⟩
    exact ⟨request, rfl, .inl hadmin⟩
  | listAuditLog request query =>
    refine (obeys_listAuditLog hverify rfl).bind ?_
    rintro ⟨_, es⟩ entries ⟨rfl, accountId, hguard, hsees⟩
    exact hguard.admitted rfl hsees

end Programs

/-! ### Runs -/

section Runs

variable {C : Discipline (server cfg core)} {w₀ : World core} {s : State cfg core}
  {t : Task (server cfg core)}

/-- The account that the guard has found has an id that is not empty. -/
theorem admitted_of_run (hids : ∀ r ∈ w₀.accounts, r.id ≠ "") (h : Run C (Sys.init w₀) s)
    (ht : t ∈ s.tasks) {p : String → Prop}
    (hadm : Admitted t.call t.done fun a => a ≠ "" → p a) : Admitted t.call t.done p := by
  refine hadm.imp fun request a hshows hp => ?_
  obtain ⟨e, he, -, r, hr, rfl, -⟩ := hshows.account
  obtain ⟨-, s', h', -, hw⟩ := h.event rfl t ht e he
  rw [← hw] at hr
  exact hp (ids_of_run h' hids r hr)

/-- A privileged call is justified by what the request has shown. -/
theorem required_of_run
    (hverify : cfg.verifyAccessToken = verifyAccessToken cfg.runtime cfg.accessTokenSecret)
    (hids : ∀ r ∈ w₀.accounts, r.id ≠ "") (h : Run C (Sys.init w₀) s) (ht : t ∈ s.tasks) {o : Op}
    {k} (hp : t.prog = .call o k) : ∀ p ∈ requires t.done o, Admitted t.call t.done p := by
  obtain ⟨i, hi, hti⟩ := List.mem_iff_getElem.1 ht
  have hti' : s.tasks[i]? = some t := List.getElem?_eq_some_iff.2 ⟨hi, hti⟩
  intro p hreq
  exact admitted_of_run hids h ht ((privileged_kept hverify).allowed_of_run h hti' hp p hreq)

theorem answered_of_run
    (hverify : cfg.verifyAccessToken = verifyAccessToken cfg.runtime cfg.accessTokenSecret)
    (hids : ∀ r ∈ w₀.accounts, r.id ≠ "") (h : Run C (Sys.init w₀) s) (ht : t ∈ s.tasks)
    {reply : Reply} (hp : t.prog = .pure reply) :
    Answered t.call t.done reply (Admitted t.call t.done) := by
  obtain ⟨i, hi, hti⟩ := List.mem_iff_getElem.1 ht
  have hti' : s.tasks[i]? = some t := List.getElem?_eq_some_iff.2 ⟨hi, hti⟩
  have hans : Answered t.call t.done reply fun p => Admitted t.call t.done fun a => a ≠ "" → p a :=
    (privileged_kept hverify).answers_of_run h hti' hp
  exact hans.imp fun _ => admitted_of_run hids h ht

/-- **Privileged calls are reached, and their replies are given, only after the guard.**  In every
run, from any store in which no account has an empty id, a request that comes to a privileged call
is the operator's, or has shown an access token of a verified account with what the call requires of
it; the same is so for the requests that are answered, and the rows and the credentials that an
account is answered are its own.  A request without the key of the operator whose access token is
not valid when the clock is read is never answered, and comes to no privileged call. -/
theorem guarded_of_run
    (hverify : cfg.verifyAccessToken = verifyAccessToken cfg.runtime cfg.accessTokenSecret)
    (hdeps : cfg.accountOrAdminGuardDeps = true) (hids : ∀ r ∈ w₀.accounts, r.id ≠ "")
    (h : Run C (Sys.init w₀) s) (ht : t ∈ s.tasks) :
    (∀ o k, t.prog = .call o k → ∀ p ∈ requires t.done o, Admitted t.call t.done p) ∧
      (∀ reply, t.prog = .pure reply → Answered t.call t.done reply (Admitted t.call t.done)) ∧
      ∀ request token, requestOf t.call = some request → request.isAdmin cfg = false →
        request.bearerToken = some token → (∀ e ∈ t.done, e.op = .runtime .now → ∀ payload,
          verifyAccessToken cfg.runtime cfg.accessTokenSecret token e.pre.now ≠ .ok payload) →
        (∀ reply, t.prog ≠ .pure reply) ∧ ∀ o k, t.prog = .call o k → requires t.done o = none := by
  refine ⟨fun _ _ hp => required_of_run hverify hids h ht hp,
    fun _ hp => answered_of_run hverify hids h ht hp, fun request token hc hadmin htoken hbad => ?_⟩
  have hnot : ∀ p, ¬ Admitted t.call t.done p := by
    rintro p ⟨request', hc', hadm⟩
    obtain rfl : request = request' := Option.some.inj (hc.symm.trans hc')
    rcases hadm with hadm | ⟨a, hshows, -⟩
    · rw [hadmin] at hadm
      cases hadm
    · obtain ⟨token', payload, htoken', -, e, he, hnow, hok⟩ := hshows.token
      obtain rfl : token = token' := Option.some.inj (htoken.symm.trans htoken')
      exact hbad e he hnow payload hok
  refine ⟨fun reply hp => ?_, fun o k hp => ?_⟩
  · obtain ⟨p, hadm⟩ := (answered_of_run hverify hids h ht hp).admitted hdeps hc
      (by rw [htoken]; rfl)
    exact hnot p hadm
  · cases hreq : requires t.done o with
    | none => rfl
    | some p => exact absurd (required_of_run hverify hids h ht hp p hreq) (hnot p)

end Runs

/-! ### A revocation by the owner -/

/-- A configuration that verifies access tokens under its secret. -/
def signedConfig : Config :=
  { Config.sample with verifyAccessToken := verifyAccessToken .sample "" }

/-- A request with a signed access token of the sample account. -/
def signedRequest : Request :=
  ⟨"req", [("authorization", .one ("Bearer h.acct:1." ++ base64Url (utf8 "h.acct:1")))]⟩

/-- A store in which the sample account owns a credential. -/
def ownedVc : World Core.sample :=
  { World.sampleHosted with vcAccountLinks := [⟨"vc:2", "acct:1", 0⟩] }

/-- The call revokes the credential. -/
def isRevocation (vcId : String) : Op → Bool
  | .vcs (.revokeVC vcId' _) => vcId' == vcId
  | _ => false

/-- The owner of a credential comes to revoke it. -/
theorem guarded_of_run_revoke : ∃ (s : State signedConfig Core.sample) (t : _),
    t ∈ s.tasks ∧ t.prog.head.any (isRevocation "vc:2") = true ∧
      Admitted t.call t.done (SawLink t.done .vcAccountLinks "vc:2") := by
  obtain ⟨s, h, hp⟩ := exists_run_of_replay (C := fun _ _ => True)
    (s := (Sys.init ownedVc : State signedConfig Core.sample))
    (.start (.revokeVC signedRequest "vc:2") :: List.replicate 3 (.step 0))
    (fun s => (s.tasks[0]?).any fun t => t.prog.head.any (isRevocation "vc:2")) (by decide)
  obtain ⟨t, ht, hp⟩ := (Option.any_eq_true _ _).1 hp
  have hmem := List.mem_of_getElem? ht
  obtain ⟨hcall, -⟩ := guarded_of_run rfl rfl (by decide) h hmem
  refine ⟨s, t, hmem, hp, ?_⟩
  cases hprog : t.prog with
  | call o k =>
    rw [hprog] at hp
    cases o with
    | vcs o =>
      cases o with
      | revokeVC vcId requestId =>
        obtain rfl : vcId = "vc:2" := eq_of_beq hp
        exact hcall _ k hprog _ rfl
      | _ => cases hp
    | _ => cases hp
  | _ => rw [hprog] at hp; cases hp

/-! ### The operator with a bad access token -/

/-- The same configuration, with a key of the operator. -/
def keyedConfig : Config := { signedConfig with adminApiKey := some "key" }

/-- A request with the key of the operator and a text that is no access token. -/
def keyedRequest : Request :=
  ⟨"req", [("x-admin-api-key", .one "key"), ("authorization", .one "Bearer none")]⟩

/-- The request carries that text, and comes to revoke the credential. -/
def revokesWith (token vcId : String) (t : Task (server keyedConfig Core.sample)) : Bool :=
  (requestOf t.call).any (·.bearerToken == some token) && t.prog.head.any (isRevocation vcId)

/-- **The key of the operator is enough.**  A request that also carries a text that is an access
token at no time comes to a privileged call. -/
theorem badToken_isOperator :
    (∀ now payload, verifyAccessToken keyedConfig.runtime keyedConfig.accessTokenSecret "none" now ≠
        .ok payload) ∧
      ∃ (s : State keyedConfig Core.sample) (t : _),
        Run (fun _ _ => True) (Sys.init World.sample) s ∧
        t ∈ s.tasks ∧ revokesWith "none" "vc:2" t = true := by
  refine ⟨fun now payload hok => ?_, ?_⟩
  · have hparts : ("none".toList.splitOn '.').map String.ofList = ["none"] := by decide
    rw [verifyAccessToken, hparts] at hok
    cases hok
  · obtain ⟨s, h, hp⟩ := exists_run_of_replay (C := fun _ _ => True)
      (s := (Sys.init World.sample : State keyedConfig Core.sample))
      [.start (.revokeVC keyedRequest "vc:2")]
      (fun s => (s.tasks[0]?).any (revokesWith "none" "vc:2")) (by decide)
    obtain ⟨t, ht, hp⟩ := (Option.any_eq_true _ _).1 hp
    exact ⟨s, t, h, List.mem_of_getElem? ht, hp⟩

end Access

end HelixServer
