import HelixServer.Server

/-!
# How a gated request is admitted

A request of a hosted account on a gated route reads the audit log, makes its core call, links the
result, and starts to log the event that the next reading counts.

## Main definitions

* `GatedRoute` : the two routes with a daily quota.
* `Stage` : where a request stands with the quota of one route.
* `protocol` : the calls of every request in terms of its stage.
-/

namespace HelixServer

namespace Quota

open Async

/-- The routes with a daily quota. -/
inductive GatedRoute where
  /-- `POST /v1/vcs`. -/
  | vcs
  /-- `POST /v1/enrollment-tokens`. -/
  | enrollmentTokens
  deriving DecidableEq

/-- The event that the quota of the route counts. -/
def GatedRoute.eventType : GatedRoute → String
  | .vcs => accountVcIssued
  | .enrollmentTokens => accountEnrollmentTokenGenerated

/-- The daily limit of the route. -/
def GatedRoute.dailyLimit (cfg : Config) : GatedRoute → Option ℕ
  | .vcs => cfg.vcIssuanceDailyQuota
  | .enrollmentTokens => cfg.enrollmentTokenDailyQuota

/-- The gated route that a request is made on. -/
def gatedRoute : Call → Option GatedRoute
  | .issueVC _ _ => some .vcs
  | .enrollmentTokens _ _ => some .enrollmentTokens
  | _ => none

/-- A reading of the audit log that admitted a request. -/
structure Check where
  account : String
  /-- How far back it read. -/
  since : ℕ
  /-- Its place among all calls. -/
  order : ℕ

/-- Where a request stands with the quota of a route. -/
inductive Stage where
  /-- It is on another route. -/
  | aside
  | entered
  /-- The guard has looked up the account of the access token. -/
  | known (account : String)
  /-- The quota check has read the clock. -/
  | timed (account : String) (now : ℕ)
  | refused (account : String)
  | admitted (k : Check)
  /-- The core call was made at `time`. -/
  | issued (k : Check) (time : ℕ)
  /-- The log write is started. -/
  | logged (k : Check) (time : ℕ)
  /-- The core call was made for the operator or an anonymous caller. -/
  | unowned (time : ℕ)

namespace Stage

/-- Where a request starts. -/
def start (ρ : GatedRoute) (c : Call) : Stage :=
  if gatedRoute c = some ρ then .entered else .aside

/-- How an answered call moves a request on, when the limit is `n`.  The call was made at `now`, as
number `order`. -/
def next (n : ℕ) : Stage → (o : Op) → o.Res → (order now : ℕ) → Stage
  | .entered, .accounts (.findById a), _, _, _ => .known a
  | .entered, .core _, _, _, now => .unowned now
  | .known a, .runtime .now, t, _, _ => .timed a t
  | .timed a t, .audit (.list _), rows, order, _ =>
    if n ≤ countForAccount a rows then .refused a else .admitted ⟨a, t - oneDayMs, order⟩
  | .admitted k, .core _, _, _, now => .issued k now
  | .issued k t, .audit (.logDetached _ _), _, _, _ => .logged k t
  | q, _, _, _, _ => q

/-- The calls a request makes where it stands. -/
def Allows (ρ : GatedRoute) : Stage → Op → Prop
  | .aside, _ => True
  | .entered, .runtime .now | .entered, .accounts (.findById _) | .entered, .core _ => True
  | .known _, .runtime .now => True
  | .timed _ t, .audit (.list q) => q = quotaQuery ρ.eventType (t - oneDayMs)
  | .refused _, .runtime .now => True
  | .admitted _, .core _ => True
  | .issued _ _, .links _ (.link _ _) => True
  | .issued k _, .audit (.logDetached eventType payload) =>
    eventType = ρ.eventType ∧ payload.getString "accountId" = some k.account
  | _, _ => False

end Stage

variable (cfg : Config) (core : Core) (ρ : GatedRoute) (n : ℕ)

/-- The protocol of the requests with the quota `n` of the route `ρ`. -/
def protocol : Protocol (server cfg core) Stage where
  init := Stage.start ρ
  next := fun q e => q.next n e.op e.res e.pre.draws e.pre.now
  allowed := Stage.Allows ρ
  answers := fun _ _ => True
  raises := fun _ _ => True
  fails := fun _ => True

variable {cfg core ρ n} {α : Type}

/-! ### The programs obey the protocol -/

theorem obeys_aside {p : Promise α} : (protocol cfg core ρ n).Obeys (fun _ _ => True) .aside p := by
  induction p with
  | pure a => trivial
  | raise e => trivial
  | call o k ih => exact ⟨trivial, fun w r w' _ => ih r⟩

theorem obeys_await (q : Stage) (o : Op) (ha : q.Allows ρ o) :
    (protocol cfg core ρ n).Obeys (fun q' r => ∃ order now, q' = q.next n o r order now) q
      (await o) :=
  ⟨ha, fun w _ _ _ => ⟨w.draws, w.now, rfl⟩⟩

theorem obeys_assertUnderDailyQuota {a : String} :
    (protocol cfg core ρ n).Obeys (fun q _ => ∃ since order, q = .admitted ⟨a, since, order⟩)
      (.known a) (assertUnderDailyQuota a ρ.eventType n) := by
  refine (obeys_await (.known a) (.runtime .now) trivial).bind ?_
  rintro _ now ⟨_, _, rfl⟩
  refine (obeys_await (.timed a now) (.audit (.list _)) rfl).bind ?_
  rintro _ rows ⟨order, _, rfl⟩
  by_cases hn : n ≤ countForAccount a rows
  · simp only [Stage.next, hn, if_true]
    exact (obeys_await (.refused a) (.runtime .now) trivial).bind fun _ _ _ => trivial
  · simp only [Stage.next, hn, if_false]
    exact ⟨_, _, rfl⟩

/-- The guard answers with the account that it has admitted, or with none. -/
def Guarded (q : Stage) (accountId : Option String) : Prop :=
  match accountId with
  | some a => ∃ since order, q = .admitted ⟨a, since, order⟩
  | none => q = .entered

theorem obeys_resolveBearer {token : String} :
    (protocol cfg core ρ n).Obeys Guarded .entered
      (resolveBearer cfg token (some ⟨ρ.eventType, n⟩)) := by
  refine (obeys_await .entered (.runtime .now) trivial).bind ?_
  rintro _ now ⟨_, _, rfl⟩
  change (protocol cfg core ρ n).Obeys Guarded .entered _
  cases cfg.verifyAccessToken token now with
  | error e => trivial
  | ok payload =>
    refine (obeys_await .entered (.accounts (.findById payload.accountId)) trivial).bind ?_
    rintro _ account ⟨_, _, rfl⟩
    by_cases hv : (Option.bind account (·.emailVerifiedAt)).isNone = true
    · simp only [hv, if_true]
      trivial
    · simp only [hv]
      exact obeys_assertUnderDailyQuota.bind fun q _ hq => hq

theorem obeys_resolveAccountOrAdmin {request : Request} {requireAuth : Bool} :
    (protocol cfg core ρ n).Obeys Guarded .entered
      (resolveAccountOrAdmin cfg request requireAuth (some ⟨ρ.eventType, n⟩)) :=
  obeys_guard trivial (fun _ => rfl) (fun _ _ => rfl) fun _ _ => obeys_resolveBearer

/-- What follows the core call: the link, and the log write that is started. -/
theorem obeys_linkAndLog {table : AccountLinkTable} {key : String}
    {payload : String → AuditPayload} {accountId : Option String} {q : Stage}
    (hp : ∀ a, (payload a).getString "accountId" = some a)
    (hq : ∀ a, accountId = some a → ∃ k t, q = .issued k t ∧ k.account = a) :
    (protocol cfg core ρ n).Obeys (fun _ _ => True) q
      (Routes.linkAndLog table key ρ.eventType payload accountId) := by
  cases htruthy : truthy accountId with
  | none => simp only [Routes.linkAndLog, htruthy]; trivial
  | some a =>
    obtain ⟨k, t, rfl, hk⟩ := hq a (Option.eq_some_of_filter_eq_some htruthy)
    simp only [Routes.linkAndLog, htruthy]
    refine (obeys_await (.issued k t) (.links table (.link key a)) trivial).bind ?_
    rintro _ _ ⟨_, _, rfl⟩
    refine (obeys_await (.issued k t) (.audit (.logDetached _ _)) ?_).mono fun _ _ _ => trivial
    exact ⟨rfl, by rw [hp, hk]⟩

theorem obeys_core {o : CoreOp} {q : Stage} {accountId : Option String} (h : Guarded q accountId) :
    (protocol cfg core ρ n).Obeys (fun q _ => ∀ a, accountId = some a →
      ∃ k t, q = .issued k t ∧ k.account = a) q (await (.core o)) := by
  cases accountId with
  | none =>
    obtain rfl := h
    exact (obeys_await .entered (.core o) trivial).mono fun _ _ _ a ha => nomatch ha
  | some a =>
    obtain ⟨since, order, rfl⟩ := h
    refine (obeys_await (.admitted _) (.core o) trivial).mono ?_
    rintro _ _ ⟨_, now, rfl⟩ a' ha'
    exact ⟨_, now, rfl, Option.some.inj ha'⟩

theorem quota_of (hn : ρ.dailyLimit cfg = some n) (hpos : n ≠ 0) :
    Quota.of ρ.eventType (ρ.dailyLimit cfg) = some ⟨ρ.eventType, n⟩ := by
  simp [Quota.of, hn, hpos]

/-- A guarded core call that is linked and logged: the shape of the two gated routes. -/
theorem obeys_gated {caller : Promise (Option String)} {o : CoreOp} {table : AccountLinkTable}
    {key : String → String} {payload : String → String → AuditPayload}
    (hcaller : (protocol cfg core ρ n).Obeys Guarded .entered caller)
    (hp : ∀ result a, (payload result a).getString "accountId" = some a) :
    (protocol cfg core ρ n).Obeys (fun _ _ => True) .entered (do
      let accountId ← caller
      let result ← await (.core o)
      Routes.linkAndLog table (key result) ρ.eventType (payload result) accountId
      return result) := by
  refine hcaller.bind fun q accountId hq => ?_
  refine (obeys_core hq).bind fun q' result hq' => ?_
  exact (obeys_linkAndLog (hp result) hq').bind fun _ _ _ => trivial

theorem obeys_issueVC (hn : cfg.vcIssuanceDailyQuota = some n) (hpos : n ≠ 0) {request : Request}
    {params : Json} :
    (protocol cfg core .vcs n).Obeys (fun _ _ => True) .entered
      (Routes.issueVC cfg request params) := by
  refine @obeys_gated _ _ .vcs n _ _ _ id _ ?_ fun _ _ => rfl
  simp only [Routes.issueVCCaller]
  split_ifs
  · rw [show Quota.of accountVcIssued cfg.vcIssuanceDailyQuota = _ from
      quota_of (ρ := .vcs) hn hpos]
    exact obeys_resolveAccountOrAdmin
  · simp only [requireAdmin]
    split_ifs
    · rfl
    · trivial

theorem obeys_enrollmentTokens (hn : cfg.enrollmentTokenDailyQuota = some n) (hpos : n ≠ 0)
    {request : Request} {body : EnrollmentTokenBody} :
    (protocol cfg core .enrollmentTokens n).Obeys (fun _ _ => True) .entered
      (Routes.enrollmentTokens cfg request body) := by
  refine @obeys_gated _ _ .enrollmentTokens n _ _ _ cfg.runtime.hashToken _ ?_ fun _ _ => rfl
  simp only [Routes.enrollmentTokensCaller]
  split_ifs
  · rw [show Quota.of accountEnrollmentTokenGenerated cfg.enrollmentTokenDailyQuota = _ from
      quota_of (ρ := .enrollmentTokens) hn hpos]
    exact obeys_resolveAccountOrAdmin
  · rfl

/-- **Every request obeys the protocol** of a route with a limit. -/
theorem protocol_sound {C : Discipline (server cfg core)} (hn : ρ.dailyLimit cfg = some n)
    (hpos : n ≠ 0) : (protocol cfg core ρ n).Sound C where
  prog := by
    intro c
    by_cases hc : gatedRoute c = some ρ
    · have hinit : (protocol cfg core ρ n).init c = .entered := if_pos hc
      rw [hinit]
      cases c <;> cases hc
      · exact (obeys_issueVC hn hpos).bind fun _ _ _ => trivial
      · exact (obeys_enrollmentTokens hn hpos).bind fun _ _ _ => trivial
    · have hinit : (protocol cfg core ρ n).init c = .aside := if_neg hc
      rw [hinit]
      exact obeys_aside
  reject := fun _ _ _ _ _ _ _ _ _ _ _ _ => trivial
  fail := fun _ _ _ _ _ _ _ _ _ => trivial

end Quota

end HelixServer
