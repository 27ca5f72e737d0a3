import HelixServer.Access.Hosted
import HelixServer.Order.Page

/-!
# The credential list of a hosted account

`GET /v1/vcs` asks the core for a page of the matching credentials and then keeps those of the
account.  The account sees the page of its own matching credentials exactly when the page of the
core holds nothing of other accounts, or nothing of its own is left behind that page
(`listVCs_complete_iff`).

## Main definitions

* `ListsStored core stored matching` : what `listVCs` of the core answers.
* `isOwned w a` : the link table has the account `a` for a credential.
* `Undisturbed` : the condition under which the list is complete.
-/

namespace HelixServer

namespace Access

open Async

variable {cfg : Config} {core : Core} {w : World core} {request : Request} {a : String}

/-- `listVCs` answers the stored credentials that match the subject and the status, in an order of
its own, up to the limit. -/
def ListsStored (core : Core) (stored : core.State → List VcSummary)
    (matching : (subjectDid status : Option String) → VcSummary → Bool) : Prop :=
  ∀ subjectDid status n c, (core.vcs (.listVCs ⟨subjectDid, status, some n⟩) c).1 =
    .ok (((stored c).filter (matching subjectDid status)).take n)

/-- The credential is linked to the account. -/
def isOwned (w : World core) (a : String) (v : VcSummary) : Bool :=
  w.vcAccountLinks.any fun l => l.key == v.vcId && l.accountId == a

/-- The page of the first `n` credentials holds only those of the account, or none of the account's
is left behind it. -/
def Undisturbed (w : World core) (a : String) (vcs : List VcSummary) (n : ℕ) : Prop :=
  (∀ v ∈ vcs.take n, isOwned w a v = true) ∨ ∀ v ∈ vcs.drop n, ¬ isOwned w a v = true

theorem contains_listKeysForAccount (v : VcSummary) :
    (AccountLinks.listKeysForAccount a w.vcAccountLinks).contains v.vcId = isOwned w a v := by
  rw [Bool.eq_iff_iff]
  simp only [AccountLinks.listKeysForAccount, isOwned, List.contains_iff_mem, List.mem_map,
    List.mem_filter, List.any_eq_true, Bool.and_eq_true, beq_iff_eq]
  exact exists_congr fun l => ⟨fun ⟨⟨h, ha⟩, hk⟩ => ⟨h, hk, ha⟩, fun ⟨h, hk, ha⟩ => ⟨⟨h, ha⟩, hk⟩⟩

/-- The route alone answers the account's credentials among the page of the core. -/
theorem solo_listVCs {stored : core.State → List VcSummary}
    {matching : (subjectDid status : Option String) → VcSummary → Bool}
    (hlists : ListsStored core stored matching) (h : Hosted cfg w request a) {query : ListVCsQuery}
    {subjectDid status : Option String} {n : ℕ}
    (hq : Routes.vcFilter cfg.runtime query = .ok ⟨subjectDid, status, some n⟩) :
    ∃ w', (server cfg core).solo 4 (Routes.listVCs cfg request query) w =
      some (.pure ((((stored w.core).filter (matching subjectDid status)).take n).filter
        (isOwned w a)), w') := by
  obtain ⟨c, hcore⟩ : ∃ c, core.vcs (.listVCs ⟨subjectDid, status, some n⟩) w.core =
      (.ok (((stored w.core).filter (matching subjectDid status)).take n), c) :=
    ⟨_, Prod.ext (hlists subjectDid status n w.core) rfl⟩
  have hpage : (Op.vcs (.listVCs ⟨subjectDid, status, some n⟩)).exec cfg (w.drawn 2) =
      (.ok (((stored w.core).filter (matching subjectDid status)).take n),
        { w.drawn 3 with core := c }) :=
    congrArg (fun x => (x.1, { w.drawn 3 with core := x.2 })) hcore
  have howned : (Op.links .vcAccountLinks (.listKeysForAccount a)).exec cfg
      { w.drawn 3 with core := c } = (.ok (AccountLinks.listKeysForAccount a w.vcAccountLinks),
        { w.drawn 4 with core := c }) := rfl
  refine ⟨{ w.drawn 4 with core := c }, (solo_guarded h).trans ?_⟩
  simp only [hq]
  refine (solo_await hpage).trans ?_
  simp only [Routes.ownedSummaries, h.truthy, AccountLinkRepository.listKeysForAccount]
  refine (solo_await howned).trans ?_
  simp only [contains_listKeysForAccount]
  exact solo_zero

/-- **What the request answers.** -/
theorem returns_listVCs {stored : core.State → List VcSummary}
    {matching : (subjectDid status : Option String) → VcSummary → Bool}
    (hlists : ListsStored core stored matching) (h : Hosted cfg w request a) {query : ListVCsQuery}
    {subjectDid status : Option String} {n : ℕ}
    (hq : Routes.vcFilter cfg.runtime query = .ok ⟨subjectDid, status, some n⟩) {reply : Reply} :
    (server cfg core).Returns ((Call.listVCs request query).prog cfg) w reply ↔
      reply = .vcs ((((stored w.core).filter (matching subjectDid status)).take n).filter
        (isOwned w a)) := by
  obtain ⟨w', hsolo⟩ := solo_listVCs hlists h hq
  exact returns_of_solo hsolo

/-- **The list of an account is complete exactly when nothing of other accounts disturbs it.**  For
every set of stored credentials, every state of the link table, every filter and every limit, the
route answers the first `n` matching credentials of the account if and only if the first `n`
matching credentials hold only the account's, or none of the account's is left behind them; and then
two stores with the same matching credentials of the account give it the same answer. -/
theorem listVCs_complete_iff {stored : core.State → List VcSummary}
    {matching : (subjectDid status : Option String) → VcSummary → Bool}
    (hlists : ListsStored core stored matching) (h : Hosted cfg w request a) {query : ListVCsQuery}
    {subjectDid status : Option String} {n : ℕ}
    (hq : Routes.vcFilter cfg.runtime query = .ok ⟨subjectDid, status, some n⟩) :
    ((server cfg core).Returns ((Call.listVCs request query).prog cfg) w
        (.vcs
          ((((stored w.core).filter (matching subjectDid status)).filter (isOwned w a)).take n)) ↔
      Undisturbed w a ((stored w.core).filter (matching subjectDid status)) n) ∧
    ∀ w' : World core, Hosted cfg w' request a →
      ((stored w'.core).filter (matching subjectDid status)).filter (isOwned w' a) =
        ((stored w.core).filter (matching subjectDid status)).filter (isOwned w a) →
      Undisturbed w a ((stored w.core).filter (matching subjectDid status)) n →
      Undisturbed w' a ((stored w'.core).filter (matching subjectDid status)) n →
      ∀ reply, (server cfg core).Returns ((Call.listVCs request query).prog cfg) w' reply ↔
        (server cfg core).Returns ((Call.listVCs request query).prog cfg) w reply := by
  have hpage : ∀ {w : World core}, Hosted cfg w request a →
      (Undisturbed w a ((stored w.core).filter (matching subjectDid status)) n ↔
        (((stored w.core).filter (matching subjectDid status)).take n).filter (isOwned w a) =
          (((stored w.core).filter (matching subjectDid status)).filter (isOwned w a)).take n) :=
    fun _ => Page.filter_take_eq_iff.symm
  refine ⟨?_, fun w' h' hsame hw hw' reply => ?_⟩
  · rw [returns_listVCs hlists h hq, hpage h, Reply.vcs.injEq]
    exact eq_comm
  · rw [returns_listVCs hlists h hq, returns_listVCs hlists h' hq, (hpage h).1 hw, (hpage h').1 hw',
      hsame]

/-! ### Two accounts in one store -/

/-- A credential that the sample core lists. -/
def sampleVc (vcId : String) : VcSummary := ⟨vcId, "did:key:agent", "active", .null⟩

/-- A store with a credential of another account before one of the account. -/
def twoOwners : World Core.sample :=
  { World.sampleHosted with
    core := { vcs := [sampleVc "vc:1", sampleVc "vc:2"] }
    vcAccountLinks := [⟨"vc:1", "acct:2", 0⟩, ⟨"vc:2", "acct:1", 0⟩] }

theorem listsStored_sample : ListsStored Core.sample CoreState.vcs fun subjectDid status v =>
    subjectDid.all (· == v.subjectDid) && status.all (· == v.status) := fun _ _ _ _ => rfl

/-- A page of two credentials, which is the whole list. -/
theorem listVCs_complete_iff_two :
    (server Config.sampleHosted Core.sample).Returns
      ((Call.listVCs sampleRequest { limit := some "2" }).prog .sampleHosted) twoOwners
      (.vcs [sampleVc "vc:2"]) := by
  have hq : Routes.vcFilter Config.sampleHosted.runtime { limit := some "2" } =
      .ok ⟨none, none, some 2⟩ := rfl
  exact (listVCs_complete_iff listsStored_sample (hosted_sample (w := twoOwners) rfl) hq).1.2
    (.inr (by decide))

/-- **A page of one credential** is that of the other account, and the account sees nothing. -/
theorem listVCs_incomplete :
    (server Config.sampleHosted Core.sample).Returns
        ((Call.listVCs sampleRequest { limit := some "1" }).prog .sampleHosted)
          twoOwners (.vcs []) ∧
      ((CoreState.vcs twoOwners.core).filter (isOwned twoOwners "acct:1")).take 1 =
        [sampleVc "vc:2"] :=
  ⟨(returns_listVCs listsStored_sample (hosted_sample (w := twoOwners) rfl) (n := 1) rfl).2 rfl,
    rfl⟩

end Access

end HelixServer
