import HelixServer.Integrity.Growth

/-!
# The audit trail

The log tells the truth: every row of a run is one that the core services have written, that the
operator has posted, or that records what a request had done when it was written
(`truthful_of_run`).  And it is complete: no session is opened, renewed or ended for a request that
is answered without a row that says so (`complete_of_run`).
-/

namespace HelixServer

namespace Integrity

open Async

variable {cfg : Config} {core : Core} {w w₀ : World core} {o : Op} {row : AuditLogRow}
  {s s' : State cfg core} {l : Label (server cfg core)} {t : Task (server cfg core)}

/-! ### The log tells the truth -/

/-- Where a log row comes from: a request has written it, and when it did, or started to, its calls
justified it; or the operator has posted it; or it names no account. -/
inductive Origin (s : State cfg core) (row : AuditLogRow) : Prop
  | recorded {t : Task (server cfg core)} {es es' : List (Event (server cfg core))}
      {e : Event (server cfg core)} (ht : t ∈ s.tasks) (hdone : t.done = es ++ e :: es')
      (hop : e.op = .audit (.log row.eventType row.payload) ∨
        e.op = .audit (.logDetached row.eventType row.payload))
      (hrecords : Records cfg t.call es row.eventType row.payload)
      (hstart : e.pre.now ≤ row.timestamp) (hend : row.timestamp ≤ s.world.now)
  | posted {t : Task (server cfg core)} (ht : t ∈ s.tasks)
      (h : Posts cfg t.call row.eventType row.payload)
  | core (h : row.payload.get "accountId" = none)

/-- A log write that a request has started. -/
def Started (s : State cfg core) (p : PendingLog) : Prop :=
  ∃ t ∈ s.tasks, ∃ es e es', t.done = es ++ e :: es' ∧
    e.op = .audit (.logDetached p.eventType p.payload) ∧ e.pre.now = p.startedAt ∧
    Records cfg t.call es p.eventType p.payload

theorem Origin.step (h : Origin s row) (hst : Step s l s') : Origin s' row := by
  cases h with
  | @recorded t es es' e ht hdone hop hrecords hstart hend =>
    obtain ⟨t', ht', hcall, more, hmore⟩ := hst.exists_later ht
    have hdone' : t'.done = es ++ e :: (es' ++ more) := by
      rw [← hmore, hdone, List.append_assoc, List.cons_append]
    exact .recorded ht' hdone' hop (hcall ▸ hrecords) hstart (hend.trans (log_of_step hst).1)
  | posted ht h =>
    obtain ⟨t', ht', hcall, -⟩ := hst.exists_later ht
    exact .posted ht' (hcall ▸ h)
  | core h => exact .core h

theorem Started.step {p : PendingLog} (h : Started s p) (hst : Step s l s') : Started s' p := by
  obtain ⟨t, ht, es, e, es', hdone, hop, hstart, hrecords⟩ := h
  obtain ⟨t', ht', hcall, more, hmore⟩ := hst.exists_later ht
  refine ⟨t', ht', es, e, es' ++ more, ?_, hop, hstart, hcall ▸ hrecords⟩
  rw [← hmore, hdone, List.append_assoc, List.cons_append]

theorem row_of_exec (h : row ∈ (o.exec cfg w).2.auditLog) :
    row ∈ w.auditLog ∨ (o = .audit (.log row.eventType row.payload) ∧ row.timestamp = w.now) ∨
      ∃ timestamp, o = .audit (.logEntry row.eventType timestamp row.payload) := by
  rw [Op.exec_auditLog] at h
  cases o with
  | audit o =>
    cases o with
    | log eventType payload =>
      rcases List.mem_append.1 h with h | h
      · exact .inl h
      · obtain rfl := List.mem_singleton.1 h
        exact .inr (.inl ⟨rfl, rfl⟩)
    | logEntry eventType timestamp payload =>
      rcases List.mem_append.1 h with h | h
      · exact .inl h
      · obtain rfl := List.mem_singleton.1 h
        exact .inr (.inr ⟨timestamp, rfl⟩)
    | _ => exact .inl h
  | _ => exact .inl h

theorem pending_of_exec {p : PendingLog} (h : p ∈ (o.exec cfg w).2.pendingLogs) :
    p ∈ w.pendingLogs ∨
      (o = .audit (.logDetached p.eventType p.payload) ∧ p.startedAt = w.now) := by
  rw [Op.exec_pendingLogs] at h
  cases o with
  | audit o =>
    cases o with
    | logDetached eventType payload =>
      rcases List.mem_append.1 h with h | h
      · exact .inl h
      · obtain rfl := List.mem_singleton.1 h
        exact .inr ⟨rfl, rfl⟩
    | _ => exact .inl h
  | _ => exact .inl h

/-- A row after a move of the environment is an old one, one of a write that was started, or the
core services'. -/
theorem row_of_env {x : EnvMove} {w' : World core} (he : x.exec w = some w')
    (h : row ∈ w'.auditLog) :
    row ∈ w.auditLog ∨ (∃ p ∈ w.pendingLogs, row.eventType = p.eventType ∧ row.payload = p.payload ∧
      p.startedAt ≤ row.timestamp ∧ row.timestamp ≤ w'.now) ∨
        row.payload.get "accountId" = none := by
  cases x with
  | tick ms =>
    cases he
    exact .inl h
  | completeLog k timestamp =>
    simp only [EnvMove.exec] at he
    split at he
    · cases he
    · rename_i p hp
      split_ifs at he with htime
      cases he
      rcases List.mem_append.1 h with h | h
      · exact .inl h
      · obtain rfl := List.mem_singleton.1 h
        exact .inr (.inl ⟨p, List.mem_of_getElem? hp, rfl, rfl, htime.1, htime.2⟩)
  | coreLog row' =>
    simp only [EnvMove.exec] at he
    split_ifs at he with hnone
    cases he
    rcases List.mem_append.1 h with h | h
    · exact .inl h
    · obtain rfl := List.mem_singleton.1 h
      exact .inr (.inr (Option.isNone_iff_eq_none.1 hnone))

theorem pending_of_env {x : EnvMove} {w' : World core} {p : PendingLog} (he : x.exec w = some w')
    (h : p ∈ w'.pendingLogs) : p ∈ w.pendingLogs := by
  cases x with
  | tick ms =>
    cases he
    exact h
  | completeLog k timestamp =>
    simp only [EnvMove.exec] at he
    split at he
    · cases he
    · split_ifs at he
      cases he
      exact List.mem_of_mem_eraseIdx h
  | coreLog row' =>
    simp only [EnvMove.exec] at he
    split_ifs at he
    cases he
    exact h

/-- Every row has an origin, and every write under way has been started by a request. -/
structure Traced (w₀ : World core) (s : State cfg core) : Prop where
  rows : ∀ row ∈ s.world.auditLog, row ∈ w₀.auditLog ∨ Origin s row
  pending : ∀ p ∈ s.world.pendingLogs, Started s p

theorem Traced.same (h : Traced w₀ s) (hst : Step s l s')
    (hlog : s'.world.auditLog = s.world.auditLog)
    (hpending : s'.world.pendingLogs = s.world.pendingLogs) : Traced w₀ s' where
  rows row hrow := by
    rw [hlog] at hrow
    exact (h.rows row hrow).imp_right fun ho => ho.step hst
  pending p hp := by
    rw [hpending] at hp
    exact (h.pending p hp).step hst

theorem Traced.step (hob : (causes cfg core).protocol.Obeyed s) (h : Traced w₀ s)
    (hst : Step s l s') : Traced w₀ s' := by
  cases hst with
  | start c => exact h.same (.start s c) rfl rfl
  | fail ht hp hf => exact h.same (.fail ht hp hf) rfl rfl
  | @env x w he =>
    have hst : Step s (.env x) { s with world := w } := .env he
    refine ⟨fun row hrow => ?_, fun p hp => (h.pending p (pending_of_env he hp)).step hst⟩
    rcases row_of_env he hrow with hrow | ⟨p, hp, htype, hpayload, hstart, hend⟩ | hnone
    · exact (h.rows row hrow).imp_right fun ho => ho.step hst
    · obtain ⟨t, ht, es, e, es', hdone, hop, hnow, hrecords⟩ := h.pending p hp
      refine .inr (.recorded ht hdone (.inr ?_) ?_ (hnow ▸ hstart) hend)
      · rw [htype, hpayload]
        exact hop
      · rw [htype, hpayload]
        exact hrecords
    · exact .inr (.core hnone)
  | @reject i t o k e w ht hp he =>
    have hst : Step s (.step i) (s.put w i (t.reject e)) := .reject ht hp he
    -- a call that is rejected has logged nothing
    have hno : ∀ o', o = .audit o' → False := by
      rintro o' rfl
      cases o' <;> cases congrArg Prod.fst he
    have hw : w = (o.exec cfg s.world).2 := (congrArg Prod.snd he).symm
    refine ⟨fun row hrow => ?_, fun p hp => ?_⟩
    · change row ∈ w.auditLog at hrow
      rw [hw] at hrow
      rcases row_of_exec hrow with hrow | ⟨ho, -⟩ | ⟨timestamp, ho⟩
      · exact (h.rows row hrow).imp_right fun ho => ho.step hst
      · exact (hno _ ho).elim
      · exact (hno _ ho).elim
    · change p ∈ w.pendingLogs at hp
      rw [hw] at hp
      rcases pending_of_exec hp with hp | ⟨ho, -⟩
      · exact (h.pending p hp).step hst
      · exact (hno _ ho).elim
  | @call i t o k r w ht hp he =>
    have hst : Step s (.step i) (s.put w i (t.resume s.world o r (k r))) := .call ht hp he
    have hallowed := hob.allowed ht hp
    rw [History.state_eq] at hallowed
    have hw : w = (o.exec cfg s.world).2 := (congrArg Prod.snd he).symm
    have hnow : w.now = s.world.now := hw ▸ Op.exec_now
    have hmem : t.resume s.world o r (k r) ∈ (s.put w i (t.resume s.world o r (k r))).tasks :=
      List.mem_of_getElem? ((Sys.put_getElem? ht).trans (if_pos rfl))
    refine ⟨fun row hrow => ?_, fun p hp => ?_⟩
    · change row ∈ w.auditLog at hrow
      rw [hw] at hrow
      rcases row_of_exec hrow with hrow | ⟨rfl, htime⟩ | ⟨timestamp, rfl⟩
      · exact (h.rows row hrow).imp_right fun ho => ho.step hst
      · exact .inr (.recorded hmem rfl (.inl rfl) hallowed (Nat.le_of_eq htime.symm)
          (Nat.le_of_eq (htime.trans hnow.symm)))
      · exact .inr (.posted hmem hallowed)
    · change p ∈ w.pendingLogs at hp
      rw [hw] at hp
      rcases pending_of_exec hp with hp | ⟨rfl, htime⟩
      · exact (h.pending p hp).step hst
      · exact ⟨_, hmem, _, _, [], rfl, rfl, htime.symm, hallowed⟩

/-- **The log tells the truth.**  Along every run, with any calls rejected and any log writes
completed late, a row that was not there before records what a request had done when it was written,
or has been posted by the operator, or names no account. -/
theorem truthful_of_run {C : Discipline (server cfg core)} (h₀ : w₀.pendingLogs = [])
    (h : Run C (Sys.init w₀) s) : ∀ row ∈ s.world.auditLog, row ∈ w₀.auditLog ∨ Origin s row := by
  have htraced : Traced w₀ s := by
    refine h.invariant (I := Traced w₀) ⟨fun row hrow => .inl hrow, fun p hp => ?_⟩
      fun s l s' hr ih _ hst => ih.step (causes_kept.obeyed hr) hst
    change p ∈ w₀.pendingLogs at hp
    rw [h₀] at hp
    cases hp
  exact htraced.rows

/-- Every row that a sign-in with Google writes has its origin. -/
theorem truthful_of_run_signIn : ∃ s : State Config.sample Core.sample,
    Run (fun _ _ => True) (Sys.init World.sample) s ∧ s.world.auditLog.length = 2 ∧
      ∀ row ∈ s.world.auditLog, Origin s row := by
  obtain ⟨s, h, hp⟩ := exists_run_of_replay (C := fun _ _ => True) (s := Sys.init World.sample)
    sampleSignIn (fun s => s.world.auditLog.length == 2) (by decide)
  refine ⟨s, h, eq_of_beq hp, fun row hrow => ?_⟩
  exact (truthful_of_run rfl h row hrow).resolve_left List.not_mem_nil

/-! ### The log is complete -/

/-- The request has written the row of the event of the account, and the log has it. -/
def HasRow (s : State cfg core) (t : Task (server cfg core)) (eventType a : String) : Prop :=
  ∃ row ∈ s.world.auditLog, row.eventType = eventType ∧ row.payload.getString "accountId" = some a ∧
    Did t.done (.audit (.log eventType row.payload))

theorem hasRow_of_logged {C : Discipline (server cfg core)} {eventType a : String}
    (h : Run C (Sys.init w₀) s) (ht : t ∈ s.tasks) (hlogged : Logged t.done eventType a) :
    HasRow s t eventType a := by
  obtain ⟨fields, e, he, hop⟩ := hlogged
  obtain ⟨es, es', hes⟩ := List.append_of_mem he
  obtain ⟨i, ht⟩ := List.mem_iff_getElem?.1 ht
  obtain ⟨s₁, s₂, t₁, k, -, -, -, -, -, -, -, -, hexec, hlater⟩ := h.made rfl i t ht es e es' hes
  obtain ⟨o, res, pre⟩ := e
  cases hop
  have hlog : s₂.world.auditLog =
      pre.auditLog ++ [⟨eventType, pre.now, accountFields a ++ fields⟩] := by
    have hworld : (Op.exec cfg (.audit (.log eventType (accountFields a ++ fields))) pre).2 =
        s₂.world :=
      congrArg Prod.snd hexec
    rw [← hworld]
    rfl
  refine ⟨⟨eventType, pre.now, accountFields a ++ fields⟩,
    (log_of_run hlater).2.subset ?_, rfl, rfl, _,
    he, rfl⟩
  rw [hlog]
  exact List.mem_concat_self

/-- **The log is complete.**  A request that is answered a session has written the row of its
sign-in, one that is answered rotated tokens the row of the rotation, and a logout that has revoked
a token the row of the logout, each for the account concerned; and the rows are in the log. -/
theorem complete_of_run {C : Discipline (server cfg core)} (h : Run C (Sys.init w₀) s)
    (ht : t ∈ s.tasks) :
    (∀ account tokens, t.prog = .pure (.session account tokens) →
      HasRow s t (signInEvent t.call) account.id) ∧
    (∀ tokens, t.prog = .pure (.tokens tokens) → ∃ record, Presented cfg t.call t.done record ∧
      HasRow s t "REFRESH_TOKEN_ROTATED" record.accountId) ∧
    ∀ refreshToken, t.call = .logout refreshToken → t.prog = .pure .done →
      ∀ id link, Did t.done (.refreshTokens (.revoke id link)) →
        ∃ record, Presented cfg t.call t.done record ∧ record.id = id ∧
          HasRow s t "ACCOUNT_LOGOUT" record.accountId := by
  obtain ⟨i, hi⟩ := List.mem_iff_getElem?.1 ht
  refine ⟨fun account tokens hp => ?_, fun tokens hp => ?_,
    fun refreshToken hc hp id link hdid => ?_⟩
  · have hanswers := causes_kept.answers_of_run h hi hp
    refine hasRow_of_logged h ht ?_
    cases hcall : t.call <;> rw [hcall] at hanswers <;> exact hanswers
  · have hanswers : ∃ record, Presented cfg t.call t.done record ∧
        Logged t.done "REFRESH_TOKEN_ROTATED" record.accountId := by
      have hrun := causes_kept.answers_of_run h hi hp
      cases hcall : t.call <;> rw [hcall] at hrun <;> exact hrun
    obtain ⟨record, hpresented, hlogged⟩ := hanswers
    exact ⟨record, hpresented, hasRow_of_logged h ht hlogged⟩
  · have hanswers := causes_kept.answers_of_run h hi hp
    rw [hc] at hanswers
    obtain ⟨record, hpresented, hid, hlogged⟩ := hanswers id link hdid
    exact ⟨record, hc ▸ hpresented, hid, hasRow_of_logged h ht hlogged⟩

/-- The account of the session that a request has been answered. -/
def sessionAccount (t : Task (server cfg core)) : Option AccountSummary :=
  match t.prog with
  | .pure (.session account _) => some account
  | _ => none

theorem prog_of_sessionAccount {account : AccountSummary} (h : sessionAccount t = some account) :
    ∃ tokens, t.prog = .pure (.session account tokens) := by
  unfold sessionAccount at h
  split at h
  · rename_i account' tokens hp
    cases h
    exact ⟨tokens, hp⟩
  · cases h

/-- A sign-in with Google has logged itself. -/
theorem complete_of_run_signIn : ∃ s : State Config.sample Core.sample,
    Run (fun _ _ => True) (Sys.init World.sample) s ∧ ∃ t ∈ s.tasks, ∃ account tokens,
      t.prog = .pure (.session account tokens) ∧
        HasRow s t "ACCOUNT_LOGIN_SUCCEEDED" account.id := by
  obtain ⟨s, h, hp⟩ := exists_run_of_replay (C := fun _ _ => True) (s := Sys.init World.sample)
    sampleSignIn (fun s => s.tasks.any fun t => (sessionAccount t).isSome &&
      signInEvent t.call == "ACCOUNT_LOGIN_SUCCEEDED") (by decide)
  obtain ⟨t, ht, hp⟩ := List.any_eq_true.1 hp
  obtain ⟨haccount, hevent⟩ := Bool.and_eq_true_iff.1 hp
  obtain ⟨account, haccount⟩ := Option.isSome_iff_exists.1 haccount
  obtain ⟨tokens, hprog⟩ := prog_of_sessionAccount haccount
  have hrow := (complete_of_run h ht).1 account tokens hprog
  rw [eq_of_beq hevent] at hrow
  exact ⟨s, h, t, ht, account, tokens, hprog, hrow⟩

end Integrity

end HelixServer
