import HelixServer.Order.Window
import HelixServer.Quota.Protocol
import Mathlib.Data.List.Perm.Basic

/-!
# The daily quota

The quota check counts log rows, and a request that it admits writes its row last, without waiting.
Requests that are admitted and not yet recorded are invisible to the check, and with two of them
the limit fails (`issuedIn_le_fails`).  It holds in every run whose checks leave room for them
(`issuedIn_le_of_paced`).

The proof: the admitted requests are tickets of a sliding window (`Window.Admitted`).  Each of them
that the check has to reckon with is unrecorded or has a row, so a check that leaves room for the
unrecorded ones leaves room for all.

## Main definitions

* `issuedIn s ρ a x` : the core operations for the account `a` on the route `ρ` in the 24 hours
  from `x`.
* `unrecorded s` : the requests admitted and not yet recorded.
* `Paced` : a check that admits has counted, with the unrecorded requests, less than the limit.
-/

namespace HelixServer

namespace Quota

open Async

variable {cfg : Config} {core : Core}

/-! ### What is counted -/

/-- The time of a core call made at `now`. -/
def coreTimeOf (now : ℕ) : Op → Option ℕ
  | .core _ => some now
  | _ => none

/-- When a request has made its core call. -/
def coreTime (t : Task (server cfg core)) : Option ℕ :=
  t.done.findSome? fun e => coreTimeOf e.pre.now e.op

/-- The request made its core call for `a` on `ρ` in the 24 hours from `x`. -/
def issuedFor (ρ : GatedRoute) (a : String) (x : ℕ) (t : Task (server cfg core)) : Bool :=
  gatedRoute t.call == some ρ && bearerAccount t == some a &&
    (coreTime t).any fun T => x ≤ T && T ≤ x + oneDayMs

/-- How many core calls were made for `a` on `ρ` in the 24 hours from `x`. -/
def issuedIn (s : State cfg core) (ρ : GatedRoute) (a : String) (x : ℕ) : ℕ :=
  s.tasks.countP (issuedFor ρ a x)

/-- The audit log answers every row that matches. -/
def ListsAll (core : Core) : Prop := ∀ q rows, core.listAuditLog q rows = rows.filter q.matches

/-! ### What a stage counts for -/

namespace Stage

/-- The account of the access token. -/
def account : Stage → Option String
  | known a | timed a _ | refused a => some a
  | admitted k | issued k _ | logged k _ => some k.account
  | _ => none

/-- When the core call was made. -/
def time : Stage → Option ℕ
  | issued _ t | logged _ t | unowned t => some t
  | _ => none

/-- The ticket of a request of the account `a`; one that has ended unused is void. -/
def ticket (a : String) (running : Bool) : Stage → Option Window.Ticket
  | admitted k => if k.account = a ∧ running = true then some ⟨k.order, k.since, none⟩ else none
  | issued k t | logged k t => if k.account = a then some ⟨k.order, k.since, some t⟩ else none
  | _ => none

/-- A request of the account `a` is admitted, and has not started to log its core call. -/
def unlogged (a : String) (running : Bool) : Stage → Bool
  | admitted k => k.account == a && running
  | issued k _ => k.account == a
  | _ => false

/-- A request of the account `a` has logged a core call made since `since`. -/
def loggedSince (a : String) (since : ℕ) : Stage → Bool
  | logged k t => k.account == a && decide (since ≤ t)
  | _ => false

/-- What a stage has read and written lies in the past. -/
def Past (w : World core) : Stage → Prop
  | timed _ t => t ≤ w.now
  | admitted k => k.order < w.draws ∧ k.since ≤ w.now - oneDayMs
  | issued k t | logged k t => k.order < w.draws ∧ k.since ≤ t - oneDayMs ∧ t ≤ w.now
  | _ => True

end Stage

/-- The row counts for the account `a` on the route. -/
def isRow (ρ : GatedRoute) (a : String) (since : ℕ) (row : AuditLogRow) : Bool :=
  row.payload.getString "accountId" == some a && (quotaQuery ρ.eventType since).matches row

/-- The started write will count for the account `a` on the route. -/
def isPending (ρ : GatedRoute) (a : String) (p : PendingLog) : Bool :=
  p.eventType == ρ.eventType && p.payload.getString "accountId" == some a

section Definitions

variable (ρ : GatedRoute) (n : ℕ) (a : String) (s : State cfg core)

/-- Where a request stands. -/
abbrev stageOf (t : Task (server cfg core)) : Stage := (protocol cfg core ρ n).state t

/-- The tickets of the account's requests. -/
def ledger : Window.Ledger := s.tasks.map fun t => (stageOf ρ n t).ticket a t.running

/-- The account's requests on the route that are admitted and not yet recorded in the log: they
have still to make their core call, or to start the write of its row, or the write has started. -/
def unrecorded : ℕ :=
  s.tasks.countP (fun t => (stageOf ρ n t).unlogged a t.running) +
    s.world.pendingLogs.countP (isPending ρ a)

/-- The rows that a check of the account looking back to `since` counts. -/
def recorded (since : ℕ) : ℕ :=
  countForAccount a (core.listAuditLog (quotaQuery ρ.eventType since) s.world.auditLog)

/-- How far back request `i` is about to look, if it is at its check for the account. -/
def lookBack (i : ℕ) : Option ℕ :=
  (s.tasks[i]?).bind fun t => match stageOf ρ n t with
    | .timed a' now => if a' = a then some (now - oneDayMs) else none
    | _ => none

/-- A check that admits a request of the account has counted, with the unrecorded requests, less
than the limit. -/
def Paced : Discipline (server cfg core) := fun s l =>
  match l with
  | .step i => ∀ since ∈ lookBack ρ n a s i,
      n ≤ recorded ρ a s since ∨ recorded ρ a s since + unrecorded ρ n a s < n
  | _ => True

instance (l : Label (server cfg core)) : Decidable (Paced ρ n a s l) :=
  match l with
  | .step i => inferInstanceAs (Decidable (∀ since ∈ lookBack ρ n a s i,
      n ≤ recorded ρ a s since ∨ recorded ρ a s since + unrecorded ρ n a s < n))
  | .start _ | .fail _ | .env _ => .isTrue trivial

end Definitions

/-! ### What a call does to a stage -/

section Calls

variable {ρ : GatedRoute} {n since : ℕ} {a : String} {q q' : Stage} {o : Op} {r : o.Res}
  {w w' : World core} {running running' : Bool}

/-- What a call `o` made in `w` does to the stage of its request. -/
inductive Turn (ρ : GatedRoute) (n : ℕ) (w : World core) : Stage → Op → Stage → Prop
  | other (o : Op) : Turn ρ n w .aside o .aside
  | clock (q : Stage) : Turn ρ n w q (.runtime .now) q
  | link (k : Check) (t : ℕ) (table : AccountLinkTable) (o : AccountLinkOp) :
      Turn ρ n w (.issued k t) (.links table o) (.issued k t)
  | lookUp (b : String) : Turn ρ n w .entered (.accounts (.findById b)) (.known b)
  | serve (c : CoreOp) : Turn ρ n w .entered (.core c) (.unowned w.now)
  | read (b : String) : Turn ρ n w (.known b) (.runtime .now) (.timed b w.now)
  | refuse (b : String) (t : ℕ) (q : AuditQuery) :
      Turn ρ n w (.timed b t) (.audit (.list q)) (.refused b)
  | grant (b : String) (t : ℕ)
      (h : countForAccount b
        (core.listAuditLog (quotaQuery ρ.eventType (t - oneDayMs)) w.auditLog) < n) :
      Turn ρ n w (.timed b t) (.audit (.list (quotaQuery ρ.eventType (t - oneDayMs))))
        (.admitted ⟨b, t - oneDayMs, w.draws⟩)
  | issue (k : Check) (c : CoreOp) : Turn ρ n w (.admitted k) (.core c) (.issued k w.now)
  | log (k : Check) (t : ℕ) (eventType : String) (payload : AuditPayload)
      (he : eventType = ρ.eventType) (hp : payload.getString "accountId" = some k.account) :
      Turn ρ n w (.issued k t) (.audit (.logDetached eventType payload)) (.logged k t)

theorem turn_of_call (ha : q.Allows ρ o) (he : o.exec cfg w = (.ok r, w')) :
    Turn ρ n w q o (q.next n o r w.draws w.now) := by
  cases q with
  | aside => exact .other o
  | entered =>
    cases o with
    | runtime o => cases o <;> first | exact ha.elim | exact .clock _
    | accounts o => cases o <;> first | exact ha.elim | exact .lookUp _
    | core c => exact .serve c
    | _ => exact ha.elim
  | known b =>
    cases o with
    | runtime o => cases o <;> first | exact ha.elim | (cases he; exact .read b)
    | _ => exact ha.elim
  | timed b t =>
    cases o with
    | audit o =>
      cases o with
      | list query =>
        obtain rfl : query = _ := ha
        cases he
        simp only [Stage.next]
        split_ifs with hn
        · exact .refuse b t _
        · exact .grant b t (Nat.not_le.1 hn)
      | _ => exact ha.elim
    | _ => exact ha.elim
  | refused b =>
    cases o with
    | runtime o => cases o <;> first | exact ha.elim | exact .clock _
    | _ => exact ha.elim
  | admitted k =>
    cases o with
    | core c => exact .issue k c
    | _ => exact ha.elim
  | issued k t =>
    cases o with
    | links table o => exact .link k t table o
    | audit o =>
      cases o with
      | logDetached eventType payload => exact .log k t eventType payload ha.1 ha.2
      | _ => exact ha.elim
    | _ => exact ha.elim
  | logged k t => cases o <;> exact ha.elim
  | unowned t => cases o <;> exact ha.elim

theorem Stage.Past.mono (h : q.Past w) (hn : w.now ≤ w'.now) (hd : w.draws ≤ w'.draws) :
    q.Past w' := by
  cases q with
  | timed a t => exact Nat.le_trans h hn
  | admitted k => exact ⟨Nat.lt_of_lt_of_le h.1 hd, by have := h.2; omega⟩
  | issued k t | logged k t => exact ⟨Nat.lt_of_lt_of_le h.1 hd, h.2.1, Nat.le_trans h.2.2 hn⟩
  | _ => trivial

theorem Turn.past (h : Turn ρ n w q o q') (hp : q.Past w) (hn : w'.now = w.now)
    (hd : w'.draws = w.draws + 1) : q'.Past w' := by
  have hmono : q.Past w' := hp.mono (Nat.le_of_eq hn.symm) (by omega)
  cases h with
  | other | lookUp | serve | refuse => trivial
  | clock | link | log => exact hmono
  | read b => exact Nat.le_of_eq hn.symm
  | grant b t hlt =>
    have ht : t ≤ w.now := hp
    exact ⟨by simp only [hd]; omega, by simp only [hn]; omega⟩
  | issue k c => exact ⟨hmono.1, hp.2, Nat.le_of_eq hn.symm⟩

/-- A request that ends where it stands voids a ticket that it has not used. -/
theorem Stage.moves_ticket (q : Stage) {now : ℕ} :
    Window.Moves now (q.ticket a true) (q.ticket a running') := by
  cases q with
  | admitted k =>
    cases running' with
    | true => exact .keep _
    | false => simp only [Stage.ticket, Bool.false_eq_true, and_false, if_false]; exact .drop _
  | _ => exact .keep _

/-- A call uses the ticket of its request, or leaves it, or voids it when the request ends; the
check alone makes a new one. -/
theorem Turn.ticket (h : Turn ρ n w q o q') :
    Window.Moves w.now (q.ticket a true) (q'.ticket a running') ∨
      ∃ t, q = .timed a t ∧ q'.ticket a running' = some ⟨w.draws, t - oneDayMs, none⟩ ∧
        countForAccount a
          (core.listAuditLog (quotaQuery ρ.eventType (t - oneDayMs)) w.auditLog) < n := by
  cases h with
  | other | lookUp | read | refuse | serve => exact .inl (.keep _)
  | clock | link => exact .inl (Stage.moves_ticket _)
  | grant b t hlt =>
    by_cases hb : b = a
    · subst hb
      cases running' with
      | true => exact .inr ⟨t, rfl, by simp [Stage.ticket], hlt⟩
      | false => exact .inl (by simp only [Stage.ticket]; exact .keep _)
    · simp only [Stage.ticket, hb, false_and, if_false]; exact .inl (.keep _)
  | issue k c =>
    by_cases hk : k.account = a
    · simp only [Stage.ticket, hk, and_self, if_true]; exact .inl (.use _ _)
    · simp only [Stage.ticket, hk, false_and, if_false]; exact .inl (.keep _)
  | log k t => exact .inl (.keep _)

theorem Stage.unlogged_or_loggedSince {u : Window.Ticket} (hu : q.ticket a running = some u)
    (hw : u.weighs since = true) : (q.unlogged a running || q.loggedSince a since) = true := by
  cases q with
  | admitted k =>
    simp only [Stage.ticket] at hu
    split_ifs at hu with hk
    simp [Stage.unlogged, hk.1, hk.2]
  | issued k T =>
    simp only [Stage.ticket] at hu
    split_ifs at hu with hk
    simp [Stage.unlogged, hk]
  | logged k T =>
    simp only [Stage.ticket] at hu
    split_ifs at hu with hk
    cases hu
    simpa [Stage.unlogged, Stage.loggedSince, hk, Window.Ticket.weighs] using hw
  | _ => cases hu

theorem Stage.usedIn_of_time {x span : ℕ} (hacc : q.account = some a)
    (hwin : q.time.any (fun T => x ≤ T && T ≤ x + span) = true) :
    (q.ticket a running).any (·.usedIn x span) = true := by
  cases q with
  | issued k T | logged k T =>
    have hk : k.account = a := Option.some.inj hacc
    simp only [Stage.ticket, hk, if_true, Option.any_some]
    exact hwin
  | unowned T => cases hacc
  | _ => cases hwin

/-- Every ticket of a stage in the past was looked for in the past, and far enough back. -/
theorem Stage.Past.ticket {u : Window.Ticket} (h : q.Past w) (hu : q.ticket a running = some u) :
    u.order < w.draws ∧ ∀ T ∈ u.time, u.since ≤ T - oneDayMs := by
  cases q with
  | admitted k =>
    simp only [Stage.ticket] at hu
    split_ifs at hu
    cases hu
    exact ⟨h.1, nofun⟩
  | issued k T | logged k T =>
    simp only [Stage.ticket] at hu
    split_ifs at hu
    cases hu
    refine ⟨h.1, ?_⟩
    rintro _ ⟨⟩
    exact h.2.1
  | _ => cases hu

/-- A request that has logged a core call has just started to write its row, or had it logged. -/
theorem Turn.loggedSince (h : Turn ρ n w q o q') (hp : q.Past w)
    (hl : q'.loggedSince a since = true) :
    q.loggedSince a since = true ∨ ∃ payload, o = .audit (.logDetached ρ.eventType payload) ∧
      payload.getString "accountId" = some a ∧ since ≤ w.now := by
  cases h with
  | clock => exact .inl hl
  | log k t eventType payload he hpay =>
    obtain ⟨hk, ht⟩ := Bool.and_eq_true_iff.1 hl
    have htime : t ≤ w.now := hp.2.2
    subst he
    exact .inr ⟨payload, rfl, by rw [hpay, eq_of_beq hk], Nat.le_trans (of_decide_eq_true ht) htime⟩
  | _ => cases hl

/-- The account and the time of a stage are what the calls have shown. -/
theorem Turn.traced (h : Turn ρ n w q o q') (hq : q ≠ .aside) :
    q'.account = q.account.or (lookedUp o) ∧ q'.time = q.time.or (coreTimeOf w.now o) ∧
      q' ≠ .aside := by
  cases h with
  | other => exact absurd rfl hq
  | clock => exact ⟨by simp [lookedUp], by simp [coreTimeOf], hq⟩
  | _ =>
    refine ⟨rfl, rfl, ?_⟩
    intro h
    cases h

end Calls

/-! ### Runs -/

section Runs

variable {ρ : GatedRoute} {n i since : ℕ} {a : String} {s s' : State cfg core}
  {t t' : Task (server cfg core)} {w' : World core}

/-- A started write for the account will be a row that a check back to `since` counts. -/
def pendingSince (ρ : GatedRoute) (a : String) (since : ℕ) (p : PendingLog) : Bool :=
  isPending ρ a p && decide (since ≤ p.startedAt)

variable (ρ n a) in
/-- What holds after every step of a paced run. -/
structure Kept (s : State cfg core) : Prop where
  past : ∀ t ∈ s.tasks, (stageOf ρ n t).Past s.world
  admitted : Window.Admitted n (ledger ρ n a s)
  rows : ∀ since, s.tasks.countP (fun t => (stageOf ρ n t).loggedSince a since) ≤
    s.world.auditLog.countP (isRow ρ a since) +
      s.world.pendingLogs.countP (pendingSince ρ a since)
  traced : ∀ t ∈ s.tasks, gatedRoute t.call = some ρ → stageOf ρ n t ≠ .aside ∧
    bearerAccount t = (stageOf ρ n t).account ∧ coreTime t = (stageOf ρ n t).time

theorem recorded_eq (h : ListsAll core) (since : ℕ) :
    recorded ρ a s since = s.world.auditLog.countP (isRow ρ a since) := by
  rw [recorded, h, countForAccount, List.countP_filter]
  rfl

theorem mem_ledger {u : Window.Ticket} (h : some u ∈ ledger ρ n a s) :
    ∃ t ∈ s.tasks, (stageOf ρ n t).ticket a t.running = some u := by
  obtain ⟨t, ht, hu⟩ := List.mem_map.1 h
  exact ⟨t, ht, hu⟩

/-- A look has to reckon with requests that are not logged, and with logged ones. -/
theorem weight_ledger_le : Window.weight (ledger ρ n a s) since ≤
    s.tasks.countP (fun t => (stageOf ρ n t).unlogged a t.running) +
      s.tasks.countP (fun t => (stageOf ρ n t).loggedSince a since) := by
  rw [Window.weight, ledger, List.countP_map]
  refine Window.countP_le_add fun t _ ht => ?_
  obtain ⟨u, hu, hw⟩ := (Option.any_eq_true _ _).1 ht
  exact Stage.unlogged_or_loggedSince hu hw

/-- What a check counts and leaves room for is all that it has to reckon with. -/
theorem Kept.weight_le (hk : Kept ρ n a s) (h : ListsAll core) :
    Window.weight (ledger ρ n a s) since ≤ recorded ρ a s since + unrecorded ρ n a s := by
  have hw : Window.weight (ledger ρ n a s) since ≤ _ := weight_ledger_le
  have hrows := hk.rows since
  have hpend : s.world.pendingLogs.countP (pendingSince ρ a since) ≤
      s.world.pendingLogs.countP (isPending ρ a) :=
    List.countP_mono_left fun p _ hp => (Bool.and_eq_true_iff.1 hp).1
  rw [recorded_eq h, unrecorded]
  omega

theorem ledger_put (w' : World core) :
    ledger ρ n a (s.put w' i t') =
      (ledger ρ n a s).set i ((stageOf ρ n t').ticket a t'.running) := by
  simp [ledger, Sys.put, List.map_set]

theorem ledger_getElem? (ht : s.tasks[i]? = some t) :
    (ledger ρ n a s)[i]? = some ((stageOf ρ n t).ticket a t.running) := by
  simp [ledger, ht]

/-- A log write that is started is one more write to come, one that completes one more row. -/
theorem rows_of_completeLog {k timestamp : ℕ} {w w' : World core}
    (he : (EnvMove.completeLog k timestamp).exec w = some w') :
    w.auditLog.countP (isRow ρ a since) + w.pendingLogs.countP (pendingSince ρ a since) ≤
      w'.auditLog.countP (isRow ρ a since) + w'.pendingLogs.countP (pendingSince ρ a since) := by
  simp only [EnvMove.exec] at he
  split at he
  · cases he
  · rename_i p hp
    split_ifs at he with htime
    cases he
    obtain ⟨hk, hpk⟩ := List.getElem?_eq_some_iff.1 hp
    have hperm := (List.getElem_cons_eraseIdx_perm hk).countP_eq (pendingSince ρ a since)
    rw [hpk, List.countP_cons] at hperm
    simp only [List.countP_append, List.countP_singleton]
    -- the row is as young as the write
    have hrow : pendingSince ρ a since p = true →
        isRow ρ a since ⟨p.eventType, timestamp, p.payload⟩ = true := by
      simp only [pendingSince, isPending, isRow, quotaQuery, AuditQuery.matches, Bool.and_eq_true,
        beq_iff_eq, decide_eq_true_eq, Option.all_some]
      rintro ⟨⟨he, hacc⟩, hsince⟩
      exact ⟨hacc, he.symm, Nat.le_trans hsince htime.1⟩
    by_cases hpend : pendingSince ρ a since p = true
    · rw [if_pos hpend] at hperm
      rw [if_pos (hrow hpend)]
      omega
    · rw [if_neg hpend] at hperm
      exact Nat.add_le_add (Nat.le_add_right _ _) (Nat.le_of_eq hperm.symm)

theorem Kept.env (hk : Kept ρ n a s) {x : EnvMove} (he : x.exec s.world = some w') :
    Kept ρ n a { s with world := w' } := by
  have hframe := EnvMove.exec_frame he
  have hdraws : w'.draws = s.world.draws := by rw [hframe]
  have hnow : s.world.now ≤ w'.now := by
    cases x with
    | tick ms => cases he; exact Nat.le_add_right _ _
    | completeLog k timestamp =>
      simp only [EnvMove.exec] at he
      split at he
      · cases he
      · split_ifs at he; cases he; exact Nat.le_refl _
    | coreLog row =>
      simp only [EnvMove.exec] at he
      split_ifs at he
      cases he
      exact Nat.le_refl _
  refine ⟨fun t ht => (hk.past t ht).mono hnow (Nat.le_of_eq hdraws.symm), hk.admitted,
    fun since => Nat.le_trans (hk.rows since) ?_, hk.traced⟩
  cases x with
  | tick ms => cases he; exact Nat.le_refl _
  | completeLog k timestamp => exact rows_of_completeLog he
  | coreLog row =>
    simp only [EnvMove.exec] at he
    split_ifs at he
    cases he
    rw [List.countP_append]
    exact Nat.add_le_add_right (Nat.le_add_right _ _) _

theorem Kept.start (hk : Kept ρ n a s) (c : Call) :
    Kept ρ n a { s with tasks := s.tasks ++ [.fresh c] } := by
  have hstage : stageOf ρ n (.fresh c : Task (server cfg core)) = Stage.start ρ c := rfl
  have hnew : Stage.start ρ c = .entered ∨ Stage.start ρ c = .aside := by
    unfold Stage.start; split_ifs <;> simp
  refine ⟨fun t ht => ?_, ?_, fun since => ?_, fun t ht hρ => ?_⟩
  · rcases List.mem_append.1 ht with ht | ht
    · exact hk.past t ht
    · obtain rfl := List.mem_singleton.1 ht
      rw [hstage]
      rcases hnew with h | h <;> rw [h] <;> trivial
  · have hledger : ledger ρ n a { s with tasks := s.tasks ++ [.fresh c] } =
        ledger ρ n a s ++ [none] := by
      have hticket : (stageOf ρ n (.fresh c : Task (server cfg core))).ticket a
          (Task.fresh c : Task (server cfg core)).running = none := by
        rw [hstage]
        rcases hnew with h | h <;> rw [h] <;> rfl
      rw [ledger, List.map_append, List.map_singleton, hticket]
      rfl
    rw [hledger]
    exact hk.admitted.append_none
  · have hnone : (stageOf ρ n (.fresh c : Task (server cfg core))).loggedSince a since = false := by
      rw [hstage]
      rcases hnew with h | h <;> rw [h] <;> rfl
    rw [List.countP_append, List.countP_singleton, if_neg (by rw [hnone]; exact Bool.false_ne_true)]
    exact hk.rows since
  · rcases List.mem_append.1 ht with ht | ht
    · exact hk.traced t ht hρ
    · obtain rfl := List.mem_singleton.1 ht
      have hent : Stage.start ρ c = .entered := if_pos hρ
      rw [hstage, hent]
      exact ⟨nofun, rfl, rfl⟩

theorem isRow_mono {o : Op} {w : World core} :
    w.auditLog.countP (isRow ρ a since) ≤ (o.exec cfg w).2.auditLog.countP (isRow ρ a since) := by
  rw [Op.exec_auditLog]
  split <;> simp

theorem pendingSince_mono {o : Op} {w : World core} :
    w.pendingLogs.countP (pendingSince ρ a since) ≤
      (o.exec cfg w).2.pendingLogs.countP (pendingSince ρ a since) := by
  rw [Op.exec_pendingLogs]
  split <;> simp

theorem Kept.put (hk : Kept ρ n a s) (ht : s.tasks[i]? = some t) (hr : t.running = true)
    (hnow : w'.now = s.world.now) (hdraws : s.world.draws ≤ w'.draws)
    (hcall : t'.call = t.call) (hpast : (stageOf ρ n t').Past w')
    (hadmitted : Window.Moves s.world.now ((stageOf ρ n t).ticket a true)
        ((stageOf ρ n t').ticket a t'.running) ∨
      ∃ u, (stageOf ρ n t).ticket a true = none ∧ u.order = s.world.draws ∧
        Window.weight (ledger ρ n a s) u.since < n ∧
        (stageOf ρ n t').ticket a t'.running = some u)
    (hrows : ∀ since, (s.put w' i t').tasks.countP (fun t => (stageOf ρ n t).loggedSince a since) ≤
      w'.auditLog.countP (isRow ρ a since) + w'.pendingLogs.countP (pendingSince ρ a since))
    (htraced : gatedRoute t.call = some ρ → stageOf ρ n t' ≠ .aside ∧
      bearerAccount t' = (stageOf ρ n t').account ∧ coreTime t' = (stageOf ρ n t').time) :
    Kept ρ n a (s.put w' i t') := by
  have hold : (ledger ρ n a s)[i]? = some ((stageOf ρ n t).ticket a true) := by
    rw [ledger_getElem? ht, hr]
  refine ⟨fun t₁ ht₁ => ?_, ?_, hrows, fun t₁ ht₁ hρ => ?_⟩
  · rcases List.mem_or_eq_of_mem_set ht₁ with hm | rfl
    · exact (hk.past t₁ hm).mono (Nat.le_of_eq hnow.symm) hdraws
    · exact hpast
  · rw [ledger_put]
    rcases hadmitted with hm | ⟨u, hnone, horder, hweight, hu⟩
    · exact hk.admitted.move hold hm
    · rw [hu]
      refine hk.admitted.grant (by rw [hold, hnone]) (fun u' hu' => ?_) hweight
      obtain ⟨t₁, ht₁, hticket⟩ := mem_ledger hu'
      rw [horder]
      exact ((hk.past t₁ ht₁).ticket hticket).1
  · rcases List.mem_or_eq_of_mem_set ht₁ with hm | rfl
    · exact hk.traced t₁ hm hρ
    · exact htraced (hcall ▸ hρ)

theorem Kept.rows_put (hk : Kept ρ n a s) (ht : s.tasks[i]? = some t)
    (hl : (stageOf ρ n t').loggedSince a since = true → (stageOf ρ n t).loggedSince a since = true)
    (ha : s.world.auditLog.countP (isRow ρ a since) ≤ w'.auditLog.countP (isRow ρ a since))
    (hp : s.world.pendingLogs.countP (pendingSince ρ a since) ≤
      w'.pendingLogs.countP (pendingSince ρ a since)) :
    (s.put w' i t').tasks.countP (fun t => (stageOf ρ n t).loggedSince a since) ≤
      w'.auditLog.countP (isRow ρ a since) + w'.pendingLogs.countP (pendingSince ρ a since) := by
  have hset : (s.put w' i t').tasks.countP (fun t => (stageOf ρ n t).loggedSince a since) ≤
      s.tasks.countP (fun t => (stageOf ρ n t).loggedSince a since) :=
    Window.countP_set_le (p := fun t => (stageOf ρ n t).loggedSince a since) ht hl
  exact Nat.le_trans hset (Nat.le_trans (hk.rows since) (Nat.add_le_add ha hp))

theorem Kept.rows_put_le_succ (hk : Kept ρ n a s) (ht : s.tasks[i]? = some t) (since : ℕ) :
    (s.put w' i t').tasks.countP (fun t => (stageOf ρ n t).loggedSince a since) ≤
      s.world.auditLog.countP (isRow ρ a since) +
        s.world.pendingLogs.countP (pendingSince ρ a since) + 1 :=
  Nat.le_trans (Window.countP_set_le_succ (p := fun t => (stageOf ρ n t).loggedSince a since) ht)
    (Nat.add_le_add_right (hk.rows since) 1)

/-- A rejected request keeps its stage, and voids its ticket if it is unused. -/
theorem Kept.reject (hk : Kept ρ n a s) (ht : s.tasks[i]? = some t) (hr : t.running = true)
    (e : HelixError) (hnow : w'.now = s.world.now) (hdraws : s.world.draws ≤ w'.draws)
    (ha : ∀ since, s.world.auditLog.countP (isRow ρ a since) ≤ w'.auditLog.countP (isRow ρ a since))
    (hp : ∀ since, s.world.pendingLogs.countP (pendingSince ρ a since) ≤
      w'.pendingLogs.countP (pendingSince ρ a since)) :
    Kept ρ n a (s.put w' i (t.reject e)) := by
  have hmem := List.mem_of_getElem? ht
  exact hk.put ht hr hnow hdraws rfl ((hk.past t hmem).mono (Nat.le_of_eq hnow.symm) hdraws)
    (.inl (Stage.moves_ticket _)) (fun since => hk.rows_put ht id (ha since) (hp since))
    (hk.traced t hmem)

theorem coreTime_resume {w : World core} {o : Op} {r : o.Res} {p : Promise Reply} :
    coreTime (t.resume w o r p) = (coreTime t).or (coreTimeOf w.now o) := by
  simp [coreTime]

/-- **An answered call keeps the invariant**, if its check is paced. -/
theorem Kept.call (hk : Kept ρ n a s) (hlist : ListsAll core) (ht : s.tasks[i]? = some t) {o : Op}
    {k : o.Res → Promise Reply} {r : o.Res} (hp : t.prog = .call o k)
    (ha : (stageOf ρ n t).Allows ρ o) (he : o.exec cfg s.world = (.ok r, w'))
    (hl : Paced ρ n a s (.step i)) : Kept ρ n a (s.put w' i (t.resume s.world o r (k r))) := by
  have hmem := List.mem_of_getElem? ht
  have hw : (o.exec cfg s.world).2 = w' := by rw [he]
  have hnow : w'.now = s.world.now := by rw [← hw, Op.exec_now]
  have hdraws : w'.draws = s.world.draws + 1 := by rw [← hw, Op.exec_draws]
  have hstage : stageOf ρ n (t.resume s.world o r (k r)) =
      (stageOf ρ n t).next n o r s.world.draws s.world.now :=
        Protocol.state_resume t s.world o r (k r)
  have hturn := turn_of_call ha he (n := n)
  rw [← hstage] at hturn
  refine hk.put ht (Task.running_of_call hp) hnow (by omega) rfl
    (hturn.past (hk.past t hmem) hnow hdraws) ?_ (fun since => ?_) fun hρ => ?_
  · rcases hturn.ticket (a := a) with hm | ⟨at_, htimed, hticket, hlt⟩
    · exact .inl hm
    · -- the check has admitted the request
      refine .inr ⟨_, by rw [htimed]; rfl, rfl, ?_, hticket⟩
      have hlook : lookBack ρ n a s i = some (at_ - oneDayMs) := by
        simp only [lookBack, ht, Option.bind_some, htimed, if_true]
      exact Nat.lt_of_le_of_lt (hk.weight_le hlist)
        ((hl _ hlook).resolve_left (Nat.not_le.2 hlt))
  · by_cases hnew : (stageOf ρ n (t.resume s.world o r (k r))).loggedSince a since = true →
        (stageOf ρ n t).loggedSince a since = true
    · exact hk.rows_put ht hnew (hw ▸ isRow_mono) (hw ▸ pendingSince_mono)
    · obtain ⟨hlogged, hnot⟩ := not_forall.1 hnew
      obtain ⟨payload, rfl, hpay, hsince⟩ :=
        (hturn.loggedSince (hk.past t hmem) hlogged).resolve_left hnot
      have hpend : pendingSince ρ a since ⟨ρ.eventType, payload, s.world.now⟩ = true := by
        simp [pendingSince, isPending, hpay, hsince]
      refine Nat.le_trans (hk.rows_put_le_succ ht since) ?_
      rw [← hw, Op.exec_auditLog, Op.exec_pendingLogs]
      simp only [List.countP_append, List.countP_singleton, hpend, if_true]
      omega
  · obtain ⟨hne, hacc, htime⟩ := hk.traced t hmem hρ
    obtain ⟨hacc', htime', hne'⟩ := hturn.traced hne
    exact ⟨hne', by rw [bearerAccount_resume, hacc, hacc'], by rw [coreTime_resume, htime, htime']⟩

/-- **Every paced step keeps the invariant.** -/
theorem Kept.step (hk : Kept ρ n a s) (hlist : ListsAll core)
    (ho : (protocol cfg core ρ n).Obeyed s) {l : Label (server cfg core)} (hl : Paced ρ n a s l)
    (hst : Step s l s') : Kept ρ n a s' := by
  cases hst with
  | start c => exact hk.start c
  | env he => exact hk.env he
  | @call i t o k r w ht hp he => exact hk.call hlist ht hp (ho.allowed ht hp) he hl
  | @reject i t o k e w ht hp he =>
    have hw : (o.exec cfg s.world).2 = w := by
      change (server cfg core).exec o s.world = _ at he; exact congrArg Prod.snd he
    subst hw
    exact hk.reject ht (Task.running_of_call hp) e Op.exec_now (by simp) (fun _ => isRow_mono)
      fun _ => pendingSince_mono
  | @fail i t o k ht hp hf =>
    exact hk.reject ht (Task.running_of_call hp) _ rfl (Nat.le_refl _) (fun _ => Nat.le_refl _)
      fun _ => Nat.le_refl _

theorem kept_of_run (hlist : ListsAll core) (hn : ρ.dailyLimit cfg = some n) (hpos : n ≠ 0)
    {w₀ : World core} (h : Run (Paced ρ n a) (Sys.init w₀ : State cfg core) s) : Kept ρ n a s := by
  refine h.invariant ?_ fun s l s' hr ih hl hst => ih.step hlist ?_ hl hst
  · refine ⟨nofun, Window.admitted_nil, fun since => ?_, nofun⟩
    exact Nat.zero_le _
  · exact Protocol.obeys_of_run (protocol_sound hn hpos) (Protocol.obeyed_init w₀) hr

/-- A core call counted in a window is the use of a ticket in it. -/
theorem Kept.usedIn (hk : Kept ρ n a s) {x : ℕ} (ht : t ∈ s.tasks) (hi : issuedFor ρ a x t = true) :
    ((stageOf ρ n t).ticket a t.running).any (·.usedIn x oneDayMs) = true := by
  simp only [issuedFor, Bool.and_eq_true, beq_iff_eq] at hi
  obtain ⟨⟨hρ, hacc⟩, hwin⟩ := hi
  obtain ⟨-, hacc', htime'⟩ := hk.traced t ht hρ
  rw [hacc'] at hacc
  rw [htime'] at hwin
  exact Stage.usedIn_of_time hacc hwin

/-- **The daily quota.**  In every run whose checks leave room for the requests not yet recorded, at
most `n` core calls are made for an account on the route in any 24 hours. -/
theorem issuedIn_le_of_paced (hlist : ListsAll core) (hn : ρ.dailyLimit cfg = some n)
    (hpos : n ≠ 0) {w₀ : World core} (h : Run (Paced ρ n a) (Sys.init w₀ : State cfg core) s)
    (x : ℕ) : issuedIn s ρ a x ≤ n := by
  have hk := kept_of_run hlist hn hpos h
  have hspan : ∀ u, some u ∈ ledger ρ n a s → ∀ T ∈ u.time, u.since ≤ T - oneDayMs := by
    intro u hu
    obtain ⟨t, ht, hticket⟩ := mem_ledger hu
    exact ((hk.past t ht).ticket hticket).2
  refine Nat.le_trans ?_ (hk.admitted.used_le (x := x) hspan)
  rw [ledger, List.countP_map]
  exact List.countP_mono_left fun t ht hi => hk.usedIn ht hi

end Runs

/-! ### Runs of a server with a limit of one -/

/-- The hosted sample server with one credential a day. -/
def limited : Config := { Config.sampleHosted with vcIssuanceDailyQuota := some 1 }

/-- A request of the account to issue a credential. -/
def limitedRequest : Call := .issueVC sampleRequest .null

theorem issuedIn_le_one : ∃ s : State limited Core.sample,
    issuedIn s .vcs "acct:1" 0 = 1 ∧ ∀ x, issuedIn s .vcs "acct:1" x ≤ 1 := by
  obtain ⟨s, h, hp⟩ := exists_run_of_replay (C := Paced .vcs 1 "acct:1")
    (s := (Sys.init .sampleHosted : State limited Core.sample))
    (.start limitedRequest :: List.replicate 7 (.step 0) ++
      .env (.completeLog 0 0) :: .start limitedRequest :: List.replicate 5 (.step 1))
    (fun s => issuedIn s .vcs "acct:1" 0 == 1) (by decide)
  exact ⟨s, eq_of_beq hp, issuedIn_le_of_paced (fun _ _ => rfl) rfl (by decide) h⟩

/-- No call is rejected from outside the model. -/
def Faultless : Discipline (server cfg core) := fun _ l =>
  match l with
  | .fail _ => False
  | _ => True

instance (s : State cfg core) (l : Label (server cfg core)) : Decidable (Faultless s l) :=
  match l with
  | .fail _ => .isFalse id
  | .start _ | .step _ | .env _ => .isTrue trivial

/-- **Two requests pass the check of a limit of one**, when both read the log before either is
recorded. -/
theorem issuedIn_le_fails : ListsAll Core.sample ∧
    GatedRoute.vcs.dailyLimit limited = some 1 ∧ ∃ s : State limited Core.sample,
      Run Faultless (Sys.init .sampleHosted) s ∧ ¬ issuedIn s .vcs "acct:1" 0 ≤ 1 := by
  refine ⟨fun _ _ => rfl, rfl, ?_⟩
  obtain ⟨s, h, hp⟩ := exists_run_of_replay (C := Faultless)
    (s := (Sys.init .sampleHosted : State limited Core.sample))
    (.start limitedRequest :: .start limitedRequest :: List.replicate 4 (.step 0) ++
      List.replicate 5 (.step 1) ++ [.step 0])
    (fun s => issuedIn s .vcs "acct:1" 0 == 2) (by decide)
  exact ⟨s, h, by rw [eq_of_beq hp]; decide⟩

end Quota

end HelixServer
