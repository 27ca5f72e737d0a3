import HelixServer.Access.Hosted
import HelixServer.Order.Page
import Mathlib.Data.List.Sort

/-!
# The audit page of a hosted account

`GET /v1/audit-log` fetches the newest rows of the shared log and keeps those that are attributed to
the account, by their payload, by a credential or by an enrollment token.  What the account sees is
its part of the page, and it is the page of its own rows exactly when the page holds nothing of
others, or nothing of its own is left behind the page (`listAuditLog_page`).

## Main definitions

* `NewestFirst core order` : what the query of the log answers.
* `isAttributedTo w a row` : the row is the account's.
* `Reads w p b` : the program `p` reads `b` from the world `w` and changes nothing.
-/

namespace HelixServer

namespace Access

open Async

variable {cfg : Config} {core : Core} {w : World core} {request : Request} {a : String}

/-- The query answers the matching rows, newest first, up to the limit; `order` sorts the log. -/
structure NewestFirst (core : Core) (order : List AuditLogRow → List AuditLogRow) : Prop where
  perm : ∀ rows, (order rows).Perm rows
  newest : ∀ rows, (order rows).Pairwise fun r r' => r'.timestamp ≤ r.timestamp
  answers : ∀ q rows, core.listAuditLog q rows = ((order rows).filter q.matches).take q.limit

/-- The link table has the account for the key, if there is a key. -/
def linkedTo (w : World core) (table : AccountLinkTable) (key : Option String) (a : String) :
    Bool :=
  (truthy key).any fun key => AccountLinks.getAccountId key (w.links table) == some a

/-- The row is the account's: its payload names the account, or a credential or an enrollment token
that is linked to it. -/
def isAttributedTo (w : World core) (a : String) (row : AuditLogRow) : Bool :=
  row.payload.getString "accountId" == some a ||
    linkedTo w .vcAccountLinks (row.payload.getString "vcId") a ||
    linkedTo w .enrollmentTokenAccountLinks (row.payload.getString "tokenIdHash") a

/-! ### Programs that only read -/

/-- Wherever the random source stands, the program reads `b` from the world and leaves it alone. -/
def Reads {α : Type} (cfg : Config) (w : World core) (p : Promise α) (b : α) : Prop :=
  ∀ m, ∃ n, (server cfg core).solo n p (w.drawn m) = some (.pure b, w.drawn (m + n))

theorem Reads.pure {α : Type} {b : α} : Reads cfg w (.pure b) b := fun _ => ⟨0, rfl⟩

theorem Reads.bind {α β : Type} {p : Promise α} {f : α → Promise β} {b : α} {c : β}
    (hp : Reads cfg w p b) (hf : Reads cfg w (f b) c) : Reads cfg w (p >>= f) c := by
  intro m
  obtain ⟨n, hn⟩ := hp m
  obtain ⟨n', hn'⟩ := hf (m + n)
  exact ⟨n + n', by rw [← Nat.add_assoc]; exact (solo_bind hn).trans hn'⟩

theorem reads_getAccountId {table : AccountLinkTable} {key : String} :
    Reads cfg w (AccountLinkRepository.getAccountId table key)
      (AccountLinks.getAccountId key (w.links table)) := by
  intro m
  refine ⟨1, ?_⟩
  cases table <;> rfl

theorem reads_isLinkedTo {table : AccountLinkTable} {key : Option String} :
    Reads cfg w (Routes.isLinkedTo table key a) (linkedTo w table key a) := by
  unfold Routes.isLinkedTo linkedTo
  cases truthy key with
  | none => exact .pure
  | some key => exact reads_getAccountId.bind .pure

theorem reads_isAttributed {row : AuditLogRow} :
    Reads cfg w (Routes.isAttributed a row) (isAttributedTo w a row) := by
  unfold Routes.isAttributed isAttributedTo
  cases row.payload.getString "accountId" == some a with
  | true => exact .pure
  | false =>
    simp only [Bool.false_eq_true, if_false, Bool.false_or]
    refine reads_isLinkedTo.bind ?_
    cases linkedTo w .vcAccountLinks (row.payload.getString "vcId") a with
    | true => exact .pure
    | false => simpa using reads_isLinkedTo

theorem reads_scopeRecords (rows : List AuditLogRow) :
    Reads cfg w (Routes.scopeRecords a rows) (rows.filter (isAttributedTo w a)) := by
  induction rows with
  | nil => exact .pure
  | cons row rows ih =>
    refine reads_isAttributed.bind (ih.bind ?_)
    rw [List.filter_cons]
    exact .pure

/-! ### The page -/

/-- **What the request answers**: of the newest matching rows, those of the account. -/
theorem returns_listAuditLog {order : List AuditLogRow → List AuditLogRow}
    (hlist : NewestFirst core order) (h : Hosted cfg w request a) {query : ListAuditLogQuery}
    {q : AuditQuery} (hq : auditQuery cfg.runtime query = .ok q) {reply : Reply} :
    (server cfg core).Returns ((Call.listAuditLog request query).prog cfg) w reply ↔
      reply = .auditLog (((((order w.auditLog).filter q.matches).take q.limit).filter
        (isAttributedTo w a)).map .of) := by
  have hpage : (Op.audit (.list q)).exec cfg (w.drawn 2) =
      (.ok (((order w.auditLog).filter q.matches).take q.limit), w.drawn 3) :=
    congrArg (fun rows => (Except.ok rows, w.drawn 3)) (hlist.answers q w.auditLog)
  have hreads : Reads cfg w (Routes.scopeRecords a _) _ :=
    reads_scopeRecords (((order w.auditLog).filter q.matches).take q.limit)
  obtain ⟨n, hscope⟩ := hreads 3
  have hsolo : (server cfg core).solo (n + 1 + 2) (Routes.listAuditLog cfg request query) w =
      some (.pure (((((order w.auditLog).filter q.matches).take q.limit).filter
        (isAttributedTo w a)).map .of), w.drawn (3 + n)) := by
    refine (solo_guarded h).trans ?_
    simp only [hq]
    refine (solo_await hpage).trans ?_
    simp only [Routes.scopeRecordsFor, h.truthy]
    exact (solo_bind (m := 0) hscope).trans solo_zero
  exact returns_of_solo hsolo

theorem auditEntry_injective : Function.Injective AuditEntry.of :=
  fun _ _ h => congrArg AuditEntry.record h

/-- **The page of an account** is its part of the page of the log.  For every log, all link tables,
every account and every query, the route answers those of the newest `limit` matching rows that are
attributed to the account, newest first; and these are the newest `limit` of the account's matching
rows if and only if the page holds only rows of the account, or no row of the account is left behind
it. -/
theorem listAuditLog_page {order : List AuditLogRow → List AuditLogRow}
    (hlist : NewestFirst core order) (h : Hosted cfg w request a) {query : ListAuditLogQuery}
    {q : AuditQuery} (hq : auditQuery cfg.runtime query = .ok q) :
    let rows := (order w.auditLog).filter q.matches
    (∀ reply, (server cfg core).Returns ((Call.listAuditLog request query).prog cfg) w reply ↔
        reply = .auditLog (((rows.take q.limit).filter (isAttributedTo w a)).map .of)) ∧
      ((server cfg core).Returns ((Call.listAuditLog request query).prog cfg) w
          (.auditLog (((rows.filter (isAttributedTo w a)).take q.limit).map .of)) ↔
        (∀ row ∈ rows.take q.limit, isAttributedTo w a row = true) ∨
          ∀ row ∈ rows.drop q.limit, ¬ isAttributedTo w a row = true) := by
  intro rows
  refine ⟨fun reply => returns_listAuditLog hlist h hq, ?_⟩
  rw [returns_listAuditLog hlist h hq, Reply.auditLog.injEq,
    (List.map_injective_iff.2 auditEntry_injective).eq_iff, ← Page.filter_take_eq_iff]
  exact eq_comm

/-! ### Two accounts in one log -/

/-- Rows by time, the newest first. -/
def byTime (rows : List AuditLogRow) : List AuditLogRow :=
  rows.insertionSort fun r r' => r'.timestamp ≤ r.timestamp

/-- The sample core with a log that is listed newest first. -/
def sortedCore : Core :=
  { Core.sample with listAuditLog := fun q rows => ((byTime rows).filter q.matches).take q.limit }

theorem newestFirst_sortedCore : NewestFirst sortedCore byTime where
  perm := List.perm_insertionSort _
  newest rows :=
    haveI : Std.Total fun r r' : AuditLogRow => r'.timestamp ≤ r.timestamp :=
      ⟨fun r r' => Nat.le_total r'.timestamp r.timestamp⟩
    haveI : IsTrans AuditLogRow fun r r' => r'.timestamp ≤ r.timestamp :=
      ⟨fun _ _ _ h h' => Nat.le_trans h' h⟩
    List.pairwise_insertionSort _ rows
  answers _ _ := rfl

/-- A row that names an account. -/
def rowOf (accountId : String) (timestamp : ℕ) : AuditLogRow :=
  ⟨accountVcIssued, timestamp, [("accountId", .str accountId)]⟩

/-- A log with an older row of the account and a newer one of another. -/
def twoTenants : World sortedCore :=
  { (World.empty 3 0 ({} : CoreState) : World sortedCore) with
    accounts := World.sampleHosted.accounts
    auditLog := [rowOf "acct:1" 1, rowOf "acct:2" 2] }

/-- A log with a row of a credential without a name, which is linked to the account. -/
def namelessVc : World sortedCore :=
  { (World.empty 3 0 ({} : CoreState) : World sortedCore) with
    accounts := World.sampleHosted.accounts
    vcAccountLinks := [⟨"", "acct:1", 0⟩]
    auditLog := [⟨"VC_ISSUED", 1, [("vcId", .str "")]⟩] }

/-- A page of two rows, which is the whole log. -/
theorem listAuditLog_page_two :
    (server Config.sampleHosted sortedCore).Returns
      ((Call.listAuditLog sampleRequest { limit := some "2" }).prog .sampleHosted) twoTenants
      (.auditLog [.of (rowOf "acct:1" 1)]) := by
  have hq : auditQuery Config.sampleHosted.runtime { limit := some "2" } =
      .ok ⟨none, none, 2⟩ := rfl
  exact ((listAuditLog_page newestFirst_sortedCore (hosted_sample (w := twoTenants) rfl) hq).1
    _).2 rfl

/-- **A page of one row** is that of the other account, and the account sees nothing; nor does it
see the row of a credential without a name. -/
theorem listAuditLog_incomplete :
    ((server Config.sampleHosted sortedCore).Returns
        ((Call.listAuditLog sampleRequest { limit := some "1" }).prog .sampleHosted) twoTenants
        (.auditLog []) ∧
      ((byTime twoTenants.auditLog).filter (isAttributedTo twoTenants "acct:1")).take 1 =
        [rowOf "acct:1" 1]) ∧
    (server Config.sampleHosted sortedCore).Returns
        ((Call.listAuditLog sampleRequest { limit := some "1" }).prog .sampleHosted) namelessVc
        (.auditLog []) := by
  have hq : auditQuery Config.sampleHosted.runtime { limit := some "1" } =
      .ok ⟨none, none, 1⟩ := rfl
  refine ⟨⟨?_, rfl⟩, ?_⟩
  · exact (returns_listAuditLog newestFirst_sortedCore (hosted_sample (w := twoTenants) rfl) hq).2
      rfl
  · exact (returns_listAuditLog newestFirst_sortedCore (hosted_sample (w := namelessVc) rfl) hq).2
      rfl

end Access

end HelixServer
