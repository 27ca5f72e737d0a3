import HelixServer.Access.AuditPage

/-!
# What the quota check counts

`assertUnderDailyQuota` reads the newest 100000 rows of its event type, of whatever account, and
counts those of the account among them.  Its verdict is that of the exact count as long as the row
that reaches the limit is among those that are read (`rejects_iff_reached`).

## Main definitions

* `recent order w eventType` : the rows of the type of the last 24 hours, as the log lists them.
* `Rejects cfg w a eventType n` : the check of the account `a`, alone in the world `w`, rejects.
* `Reached` : the row that reaches the limit is read.
-/

namespace HelixServer

namespace Quota

open Async Access

variable {cfg : Config} {core : Core} {w : World core} {a eventType : String} {n : ℕ}
  {order : List AuditLogRow → List AuditLogRow}

/-- The row names the account. -/
def names (a : String) (row : AuditLogRow) : Bool := row.payload.getString "accountId" == some a

/-- The row is of the type and not older than 24 hours. -/
def inLastDay (now : ℕ) (eventType : String) (row : AuditLogRow) : Bool :=
  eventType == row.eventType && decide (now - oneDayMs ≤ row.timestamp)

/-- The rows of the account that the quota is about. -/
def issued (w : World core) (a eventType : String) : ℕ :=
  w.auditLog.countP fun row => names a row && inLastDay w.now eventType row

/-- The rows of the type of the last 24 hours, of all accounts, as the log lists them. -/
def recent (order : List AuditLogRow → List AuditLogRow) (w : World core) (eventType : String) :
    List AuditLogRow :=
  (order w.auditLog).filter (inLastDay w.now eventType)

/-- The check, alone in the world `w`, rejects. -/
def Rejects (cfg : Config) (w : World core) (a eventType : String) (n : ℕ) : Prop :=
  ∃ message, (server cfg core).Raises (assertUnderDailyQuota a eventType n) w
    (.accountQuotaExceeded message)

/-- How many rows the check reads. -/
def scanLimit : ℕ := 100000

/-- The account has fewer than `n` rows of the last 24 hours, or fewer than 100000 rows of the type
are listed before the `n`-th of them. -/
def Reached (order : List AuditLogRow → List AuditLogRow) (w : World core) (a eventType : String)
    (n : ℕ) : Prop :=
  ∀ i ∈ Page.place (names a) (n - 1) (recent order w eventType), i < scanLimit

theorem quotaQuery_matches (since : ℕ) : (quotaQuery eventType since).matches =
    fun row => eventType == row.eventType && decide (since ≤ row.timestamp) := by
  funext row
  simp [AuditQuery.matches, quotaQuery]

theorem listAuditLog_recent (hlist : NewestFirst core order) :
    core.listAuditLog (quotaQuery eventType (w.now - oneDayMs)) w.auditLog =
      (recent order w eventType).take scanLimit := by
  have hlimit : (quotaQuery eventType (w.now - oneDayMs)).limit = scanLimit := rfl
  rw [hlist.answers, quotaQuery_matches, hlimit, recent]
  rfl

/-- The check counts the account's rows among those that it reads. -/
theorem rejects_iff (hlist : NewestFirst core order) :
    Rejects cfg w a eventType n ↔
      n ≤ ((recent order w eventType).take scanLimit).countP (names a) := by
  have hnow : (Op.runtime .now).exec cfg w = (.ok w.now, w.drawn 1) := rfl
  have hread : (Op.audit (.list (quotaQuery eventType (w.now - oneDayMs)))).exec cfg (w.drawn 1) =
      (.ok ((recent order w eventType).take scanLimit), w.drawn 2) :=
    congrArg (fun rows => (Except.ok rows, w.drawn 2)) (listAuditLog_recent hlist)
  have hcheck : ∀ e, (server cfg core).Raises (assertUnderDailyQuota a eventType n) w e ↔
      (server cfg core).Raises (if n ≤ ((recent order w eventType).take scanLimit).countP (names a)
        then dateNow >>= fun now => .raise
          (.accountQuotaExceeded ("Daily limit of " ++ toString n ++
          " for " ++ eventType ++ " reached for this account. Try again after " ++
          toISOString (now + oneDayMs) ++ "."))
        else return ()) (w.drawn 2) e := fun e =>
    (raises_call hnow).trans (raises_call hread)
  simp only [Rejects, hcheck]
  split_ifs with hn
  · have hnow' : (Op.runtime .now).exec cfg (w.drawn 2) = (.ok w.now, w.drawn 3) := rfl
    exact iff_of_true ⟨_, (raises_call hnow').2 (raises_raise.2 rfl)⟩ hn
  · refine iff_of_false ?_ hn
    rintro ⟨_, h⟩
    exact not_raises_pure h

theorem issued_eq (hlist : NewestFirst core order) :
    issued w a eventType = (recent order w eventType).countP (names a) := by
  rw [recent, List.countP_filter, issued]
  exact ((hlist.perm _).countP_eq _).symm

/-- **The verdict is exact** just if the row that reaches the limit is read.  For every log, every
account, every event type and every positive limit, the check rejects exactly the accounts with `n`
rows of the last 24 hours, if and only if the account has fewer, or fewer than 100000 rows of the
type, of whatever account, are listed before its `n`-th one. -/
theorem rejects_iff_reached (hlist : NewestFirst core order) (hn : 0 < n) :
    (Rejects cfg w a eventType n ↔ n ≤ issued w a eventType) ↔ Reached order w a eventType n := by
  obtain ⟨k, rfl⟩ : ∃ k, n = k + 1 := ⟨n - 1, by omega⟩
  rw [rejects_iff hlist, issued_eq hlist]
  exact Page.lt_countP_take_iff_lt_countP

/-! ### A crowded log -/

/-- A row of the account and, after it, 100000 rows of another account. -/
def crowded : World sortedCore :=
  { (World.empty 3 0 ({} : CoreState) : World sortedCore) with
    auditLog := rowOf "acct:1" 1 :: List.replicate scanLimit (rowOf "acct:2" 2) }

/-- A log with one row of each. -/
theorem rejects_iff_reached_two :
    Rejects Config.sample twoTenants "acct:1" accountVcIssued 1 ↔
      1 ≤ issued twoTenants "acct:1" accountVcIssued := by
  refine (rejects_iff_reached newestFirst_sortedCore Nat.one_pos).2 ?_
  have hplace : Page.place (names "acct:1") 0 (recent byTime twoTenants accountVcIssued) =
      some 1 := by
    decide
  intro i hi
  obtain rfl : 1 = i := Option.some.inj (hplace.symm.trans hi)
  exact Nat.lt_of_sub_pos (by decide)

/-- Rows of one time stay in their order, and an older row goes behind them. -/
theorem byTime_cons {r r' : AuditLogRow} (h : r.timestamp < r'.timestamp) (k : ℕ) :
    byTime (r :: List.replicate k r') = List.replicate k r' ++ [r] := by
  have hsorted : byTime (List.replicate k r') = List.replicate k r' :=
    List.Pairwise.insertionSort_eq (List.pairwise_replicate.2 (.inr (Nat.le_refl _)))
  rw [byTime, List.insertionSort_cons]
  rw [byTime] at hsorted
  rw [hsorted]
  clear hsorted
  induction k with
  | zero => rfl
  | succ k ih =>
    have hle : ¬ r'.timestamp ≤ r.timestamp := Nat.not_le.2 h
    rw [List.replicate_succ, List.orderedInsert_cons, if_neg hle, ih]
    rfl

/-- **Rows of other accounts hide those of the account**: it has as many as the limit allows, and
the check does not reject. -/
theorem rejects_fails : 1 ≤ issued crowded "acct:1" accountVcIssued ∧
    ¬ Rejects Config.sample crowded "acct:1" accountVcIssued 1 := by
  constructor
  · refine List.countP_pos_iff.2 ⟨rowOf "acct:1" 1, List.mem_cons_self, ?_⟩
    decide
  · have hnone : ∀ row ∈ List.replicate scanLimit (rowOf "acct:2" 2),
        ¬ names "acct:1" row = true := by
      intro row hrow
      obtain rfl := List.eq_of_mem_replicate hrow
      decide
    have hrecent : recent byTime crowded accountVcIssued =
        List.replicate scanLimit (rowOf "acct:2" 2) ++ [rowOf "acct:1" 1] := by
      rw [recent, crowded, byTime_cons (by decide)]
      refine List.filter_eq_self.2 fun row hrow => ?_
      rcases List.mem_append.1 hrow with hrow | hrow
      · obtain rfl := List.eq_of_mem_replicate hrow
        decide
      · obtain rfl := List.mem_singleton.1 hrow
        decide
    rw [rejects_iff newestFirst_sortedCore, hrecent, List.take_left' List.length_replicate,
      List.countP_eq_zero.2 hnone]
    decide

end Quota

end HelixServer
