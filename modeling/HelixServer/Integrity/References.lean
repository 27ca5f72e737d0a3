import HelixServer.Integrity.Protocol

/-!
# References to accounts

The tables refer to accounts by their ids, without foreign keys between all of them: refresh tokens,
issuer keys, the three link tables, and the log rows that name an account.  Along every run, with
any calls rejected, every reference is to an account that exists (`intact_of_run`).
-/

namespace HelixServer

namespace Integrity

open Async
open Verification (answered shown)

variable {cfg : Config} {core : Core} {w w' : World core} {o : Op} {a : String}

/-- The account exists. -/
def HasAccount (w : World core) (a : String) : Prop := ∃ r ∈ w.accounts, r.id = a

/-- Every reference to an account is to one that exists. -/
structure Intact (w : World core) : Prop where
  refreshTokens : ∀ r ∈ w.refreshTokens, HasAccount w r.accountId
  issuerKeys : ∀ k ∈ w.issuerKeys, HasAccount w k.accountId
  links : ∀ table, ∀ l ∈ w.links table, HasAccount w l.accountId
  auditLog : ∀ row ∈ w.auditLog, ∀ a, row.payload.getString "accountId" = some a → HasAccount w a
  pendingLogs : ∀ p ∈ w.pendingLogs, ∀ a, p.payload.getString "accountId" = some a → HasAccount w a

/-- The account that a call refers to in what it writes. -/
def refersTo : Op → Option String
  | .issuerKeys (.create data) => some data.accountId
  | .refreshTokens (.create data) => some data.accountId
  | .links _ (.link _ a) => some a
  | .audit (.log _ payload) | .audit (.logDetached _ payload) | .audit (.logEntry _ _ payload) =>
    payload.getString "accountId"
  | _ => none

/-! ### One call -/

theorem HasAccount.exec (h : HasAccount w a) : HasAccount (o.exec cfg w).2 a := by
  obtain ⟨r, hr, rfl⟩ := h
  unfold HasAccount
  rw [Op.exec_accounts]
  cases o with
  | accounts o =>
    cases o with
    | create data =>
      simp only [AccountOp.exec, Accounts.create]
      split_ifs with hk hany hany
      · exact ⟨r, hr, rfl⟩
      · exact ⟨r, List.mem_append_left _ hr, rfl⟩
      · -- the entry that is replaced has the same id
        refine ⟨_, List.mem_map_of_mem hr, ?_⟩
        split_ifs with hid
        · exact (eq_of_beq hid).symm
        · rfl
      · exact ⟨r, List.mem_append_left _ hr, rfl⟩
    | update id patch =>
      simp only [AccountOp.exec, Accounts.update]
      split
      · exact ⟨r, hr, rfl⟩
      · rename_i r₀ hfound
        split_ifs
        · exact ⟨r, hr, rfl⟩
        · refine ⟨_, List.mem_map_of_mem hr, ?_⟩
          split_ifs with hid
          · have hid₀ : r₀.id = id := by simpa using List.find?_some hfound
            rw [AccountRecord.patched_id, hid₀, eq_of_beq hid]
          · rfl
    | _ => exact ⟨r, hr, rfl⟩
  | _ => exact ⟨r, hr, rfl⟩

/-- A refresh token is for the account that it was for, or for the one it is created for. -/
theorem accountId_of_refreshTokens {o : RefreshTokenOp} {kind : StorageDriverKind} {id : String}
    {now : ℕ} {rows : List RefreshTokenRecord} {r : RefreshTokenRecord}
    (h : r ∈ (o.exec kind id now rows).2) :
    (∃ r₀ ∈ rows, r₀.accountId = r.accountId) ∨ refersTo (.refreshTokens o) = some r.accountId := by
  have hold : ∀ {r}, r ∈ rows → ∃ r₀ ∈ rows, r₀.accountId = r.accountId := fun hr => ⟨_, hr, rfl⟩
  cases o with
  | create data =>
    simp only [RefreshTokenOp.exec, RefreshTokens.create] at h
    split_ifs at h
    · exact .inl (hold h)
    · rcases List.mem_append.1 h with h | h
      · exact .inl (hold h)
      · obtain rfl := List.mem_singleton.1 h
        exact .inr rfl
    · obtain ⟨r₁, hr₁, rfl⟩ := List.mem_map.1 h
      split_ifs
      · exact .inr rfl
      · exact .inl (hold hr₁)
    · rcases List.mem_append.1 h with h | h
      · exact .inl (hold h)
      · obtain rfl := List.mem_singleton.1 h
        exact .inr rfl
  | findByTokenHash tokenHash => exact .inl (hold h)
  | revoke id link =>
    obtain ⟨r₁, hr₁, rfl⟩ := List.mem_map.1 h
    refine .inl ⟨r₁, hr₁, ?_⟩
    unfold RefreshTokens.revokeRow
    split_ifs <;> rfl
  | revokeAllForAccount a =>
    obtain ⟨r₁, hr₁, rfl⟩ := List.mem_map.1 h
    refine .inl ⟨r₁, hr₁, ?_⟩
    unfold RefreshTokens.burnRow
    split_ifs <;> rfl

/-- An issuer key is for the account that it was for, or for the one it is created for. -/
theorem accountId_of_issuerKeys {o : IssuerKeyOp} {kind : StorageDriverKind} {id : String} {now : ℕ}
    {rows : List IssuerKeyRecordRow} {k : IssuerKeyRecordRow}
    (h : k ∈ (o.exec kind id now rows).2) :
    (∃ k₀ ∈ rows, k₀.accountId = k.accountId) ∨ refersTo (.issuerKeys o) = some k.accountId := by
  have hold : ∀ {k}, k ∈ rows → ∃ k₀ ∈ rows, k₀.accountId = k.accountId := fun hk => ⟨_, hk, rfl⟩
  cases o with
  | create data =>
    simp only [IssuerKeyOp.exec, IssuerKeys.create] at h
    split_ifs at h
    · exact .inl (hold h)
    · rcases List.mem_append.1 h with h | h
      · exact .inl (hold h)
      · obtain rfl := List.mem_singleton.1 h
        exact .inr rfl
    · obtain ⟨k₁, hk₁, rfl⟩ := List.mem_map.1 h
      split_ifs
      · exact .inr rfl
      · exact .inl (hold hk₁)
    · rcases List.mem_append.1 h with h | h
      · exact .inl (hold h)
      · obtain rfl := List.mem_singleton.1 h
        exact .inr rfl
  | findByAccountId a => exact .inl (hold h)

/-- A link is to the account that it was to, or to the one it is made to. -/
theorem accountId_of_links {o : AccountLinkOp} {table : AccountLinkTable} {now : ℕ}
    {rows : List AccountLink} {l : AccountLink} (h : l ∈ (o.exec now rows).2) :
    (∃ l₀ ∈ rows, l₀.accountId = l.accountId) ∨ refersTo (.links table o) = some l.accountId := by
  cases o with
  | link key a =>
    simp only [AccountLinkOp.exec, AccountLinks.link] at h
    split_ifs at h
    · exact .inl ⟨l, h, rfl⟩
    · rcases List.mem_append.1 h with h | h
      · exact .inl ⟨l, h, rfl⟩
      · obtain rfl := List.mem_singleton.1 h
        exact .inr rfl
  | getAccountId key => exact .inl ⟨l, h, rfl⟩
  | listKeysForAccount a => exact .inl ⟨l, h, rfl⟩

/-- A log row names the account that a row named before, or the one that is logged. -/
theorem accountId_of_auditLog {row : AuditLogRow} (h : row ∈ (o.exec cfg w).2.auditLog)
    (ha : row.payload.getString "accountId" = some a) :
    (∃ row₀ ∈ w.auditLog, row₀.payload.getString "accountId" = some a) ∨ refersTo o = some a := by
  rw [Op.exec_auditLog] at h
  cases o with
  | audit o =>
    cases o with
    | log eventType payload | logEntry eventType timestamp payload =>
      rcases List.mem_append.1 h with h | h
      · exact .inl ⟨row, h, ha⟩
      · obtain rfl := List.mem_singleton.1 h
        exact .inr ha
    | _ => exact .inl ⟨row, h, ha⟩
  | _ => exact .inl ⟨row, h, ha⟩

theorem accountId_of_pendingLogs {p : PendingLog} (h : p ∈ (o.exec cfg w).2.pendingLogs)
    (ha : p.payload.getString "accountId" = some a) :
    (∃ p₀ ∈ w.pendingLogs, p₀.payload.getString "accountId" = some a) ∨ refersTo o = some a := by
  rw [Op.exec_pendingLogs] at h
  cases o with
  | audit o =>
    cases o with
    | logDetached eventType payload =>
      rcases List.mem_append.1 h with h | h
      · exact .inl ⟨p, h, ha⟩
      · obtain rfl := List.mem_singleton.1 h
        exact .inr ha
    | _ => exact .inl ⟨p, h, ha⟩
  | _ => exact .inl ⟨p, h, ha⟩

/-- **A call keeps the references intact**, if the account that it refers to exists. -/
theorem Intact.exec (h : Intact w) (hnew : ∀ a ∈ refersTo o, HasAccount w a) :
    Intact (o.exec cfg w).2 := by
  -- the account of an old reference, or of the new one
  have hof : ∀ {a : String}, HasAccount w a ∨ refersTo o = some a → HasAccount (o.exec cfg w).2 a :=
    fun ha => (ha.elim id fun ha => hnew _ ha).exec
  constructor
  · intro r hr
    rw [Op.exec_refreshTokens] at hr
    refine hof ?_
    cases o with
    | refreshTokens o =>
      refine (accountId_of_refreshTokens hr).imp_left ?_
      rintro ⟨r₀, hr₀, hid⟩
      exact hid ▸ h.refreshTokens r₀ hr₀
    | _ => exact .inl (h.refreshTokens r hr)
  · intro k hk
    rw [Op.exec_issuerKeys] at hk
    refine hof ?_
    cases o with
    | issuerKeys o =>
      refine (accountId_of_issuerKeys hk).imp_left ?_
      rintro ⟨k₀, hk₀, hid⟩
      exact hid ▸ h.issuerKeys k₀ hk₀
    | _ => exact .inl (h.issuerKeys k hk)
  · intro table l hl
    rw [Op.exec_links] at hl
    refine hof ?_
    cases o with
    | links table' o =>
      dsimp only at hl
      split_ifs at hl with htable
      · refine (accountId_of_links hl).imp_left ?_
        rintro ⟨l₀, hl₀, hid⟩
        exact hid ▸ h.links table' l₀ hl₀
      · exact .inl (h.links table l hl)
    | _ => exact .inl (h.links table l hl)
  · intro row hrow a ha
    refine hof ((accountId_of_auditLog hrow ha).imp_left ?_)
    rintro ⟨row₀, hrow₀, ha₀⟩
    exact h.auditLog row₀ hrow₀ a ha₀
  · intro p hp a ha
    refine hof ((accountId_of_pendingLogs hp ha).imp_left ?_)
    rintro ⟨p₀, hp₀, ha₀⟩
    exact h.pendingLogs p₀ hp₀ a ha₀

/-- A move of the environment keeps the references intact: a write that completes was started. -/
theorem Intact.env (h : Intact w) {x : EnvMove} (he : x.exec w = some w') : Intact w' := by
  have hold : ∀ {a}, HasAccount w a → HasAccount w' a := by
    intro a ha
    unfold HasAccount
    rw [EnvMove.exec_accounts he]
    exact ha
  refine ⟨?_, ?_, ?_, ?_, ?_⟩
  · intro r hr
    rw [EnvMove.exec_refreshTokens he] at hr
    exact hold (h.refreshTokens r hr)
  · intro k hk
    rw [EnvMove.exec_frame he] at hk
    exact hold (h.issuerKeys k hk)
  · intro table l hl
    rw [EnvMove.exec_links he] at hl
    exact hold (h.links table l hl)
  · intro row hrow a ha
    refine hold ?_
    cases x with
    | tick ms => cases he; exact h.auditLog row hrow a ha
    | completeLog k timestamp =>
      simp only [EnvMove.exec] at he
      split at he
      · cases he
      · rename_i p hp
        split_ifs at he
        cases he
        rcases List.mem_append.1 hrow with hrow | hrow
        · exact h.auditLog row hrow a ha
        · obtain rfl := List.mem_singleton.1 hrow
          exact h.pendingLogs p (List.mem_of_getElem? hp) a ha
    | coreLog row' =>
      simp only [EnvMove.exec] at he
      split_ifs at he with hnone
      cases he
      rcases List.mem_append.1 hrow with hrow | hrow
      · exact h.auditLog row hrow a ha
      · -- the core services name no account
        obtain rfl := List.mem_singleton.1 hrow
        rw [AuditPayload.getString, Option.isNone_iff_eq_none.1 hnone] at ha
        cases ha
  · intro p hp a ha
    refine hold ?_
    cases x with
    | tick ms => cases he; exact h.pendingLogs p hp a ha
    | completeLog k timestamp =>
      simp only [EnvMove.exec] at he
      split at he
      · cases he
      · split_ifs at he
        cases he
        exact h.pendingLogs p (List.mem_of_mem_eraseIdx hp) a ha
    | coreLog row' =>
      simp only [EnvMove.exec] at he
      split_ifs at he
      cases he
      exact h.pendingLogs p hp a ha

/-! ### Runs -/

theorem hasAccount_of_named (h : Intact w) {r : o.Res} (he : o.exec cfg w = (.ok r, w'))
    (hnamed : named (⟨o, r, w⟩ : Event (server cfg core)) = some a) : HasAccount w' a := by
  have hafter : ∀ {a}, HasAccount w a → HasAccount w' a := by
    intro a ha
    have := @HasAccount.exec cfg _ _ o _ ha
    rwa [he] at this
  cases o with
  | accounts o =>
    obtain ⟨row, hrow, rfl⟩ := Option.map_eq_some_iff.1 hnamed
    exact ⟨row, Verification.answered_mem hrow (Op.exec_of_accounts he), rfl⟩
  | refreshTokens o =>
    cases o with
    | findByTokenHash tokenHash =>
      cases he
      obtain ⟨record, hrecord, rfl⟩ := Option.map_eq_some_iff.1 hnamed
      exact hafter (h.refreshTokens record (List.mem_of_find?_eq_some hrecord))
    | _ => cases hnamed
  | links table o =>
    cases o with
    | getAccountId key =>
      have hexec : AccountLinks.getAccountId key (w.links table) = r :=
        Except.ok.inj (congrArg Prod.fst he)
      obtain ⟨l, hl, rfl⟩ := Option.map_eq_some_iff.1 (hexec.trans hnamed)
      exact hafter (h.links table l (List.mem_of_find?_eq_some hl))
    | _ => cases hnamed
  | _ => cases hnamed

theorem known_of_refersTo {c : Call} {es : List (Event (server cfg core))}
    (h : (causes cfg core).allowed c es o) (ha : refersTo o = some a) : Known es a := by
  cases o with
  | issuerKeys o =>
    cases o with
    | create data => cases ha; exact h
    | _ => cases ha
  | refreshTokens o =>
    cases o with
    | create data => cases ha; exact h
    | _ => cases ha
  | links table o =>
    cases o with
    | link key a => cases ha; exact h
    | _ => cases ha
  | audit o =>
    cases o with
    | log eventType payload | logDetached eventType payload =>
      have hrecords : Records cfg c es eventType payload := h
      exact hrecords.known ha
    | logEntry eventType timestamp payload =>
      have hposts : Posts cfg c eventType payload := h
      cases hposts with
      | ingest timestamp _ hentry => cases ((posted_entry hentry timestamp).1).symm.trans ha
    | list q => cases ha
  | _ => cases ha

/-- The references are intact, and the accounts that have been answered exist. -/
structure Sound (s : State cfg core) : Prop where
  intact : Intact s.world
  known : ∀ t ∈ s.tasks, ∀ a, Known t.done a → HasAccount s.world a

theorem Sound.step {s s' : State cfg core} {l : Label (server cfg core)}
    (hob : (causes cfg core).protocol.Obeyed s) (h : Sound s) (hst : Step s l s') : Sound s' := by
  cases hst with
  | start c =>
    refine ⟨h.intact, fun t ht a ha => ?_⟩
    rcases List.mem_append.1 ht with ht | ht
    · exact h.known t ht a ha
    · obtain rfl := List.mem_singleton.1 ht
      obtain ⟨e, he, -⟩ := ha
      cases he
  | env he =>
    refine ⟨h.intact.env he, fun t ht a ha => ?_⟩
    obtain ⟨r, hr, hid⟩ := h.known t ht a ha
    exact ⟨r, by rw [EnvMove.exec_accounts he]; exact hr, hid⟩
  | @fail i t o k ht hp hf =>
    refine ⟨h.intact, fun t' ht' a ha => ?_⟩
    rcases Sys.mem_put ht' with rfl | ht'
    · exact h.known t (List.mem_of_getElem? ht) a ha
    · exact h.known t' ht' a ha
  | @reject i t o k e w ht hp he =>
    have hknown := h.known t (List.mem_of_getElem? ht)
    have hallowed := hob.allowed ht hp
    rw [History.state_eq] at hallowed
    have hw : w = (o.exec cfg s.world).2 := (congrArg Prod.snd he).symm
    refine ⟨hw ▸ h.intact.exec fun a ha => hknown a (known_of_refersTo hallowed ha),
      fun t' ht' a ha => ?_⟩
    have hold : HasAccount s.world a := by
      rcases Sys.mem_put ht' with rfl | ht'
      · exact hknown a ha
      · exact h.known t' ht' a ha
    exact hw ▸ hold.exec
  | @call i t o k r w ht hp he =>
    have hknown := h.known t (List.mem_of_getElem? ht)
    have hallowed := hob.allowed ht hp
    rw [History.state_eq] at hallowed
    have hw : w = (o.exec cfg s.world).2 := (congrArg Prod.snd he).symm
    refine ⟨hw ▸ h.intact.exec fun a ha => hknown a (known_of_refersTo hallowed ha),
      fun t' ht' a ha => ?_⟩
    rcases Sys.mem_put ht' with rfl | ht'
    · obtain ⟨e, he', hnamed⟩ := ha
      rcases List.mem_append.1 he' with he' | he'
      · exact hw ▸ (hknown a ⟨e, he', hnamed⟩).exec
      · -- what this call has answered
        obtain rfl := List.mem_singleton.1 he'
        exact hasAccount_of_named h.intact he hnamed
    · exact hw ▸ (h.known t' ht' a ha).exec

/-- **No reference dangles.**  From a world whose references are intact, along every run, every
refresh token, issuer key and link and every log row that names an account, written or under way,
belongs to an account that exists, and so does every account that a request has been answered. -/
theorem intact_of_run {C : Discipline (server cfg core)} {w₀ : World core} {s : State cfg core}
    (h₀ : Intact w₀) (h : Run C (Sys.init w₀) s) :
    Intact s.world ∧ ∀ t ∈ s.tasks, ∀ a, Known t.done a → HasAccount s.world a := by
  have hsound : Sound s := by
    refine h.invariant (I := Sound) ⟨h₀, ?_⟩ fun s l s' hr ih _ hst =>
      ih.step (causes_kept.obeyed hr) hst
    intro t ht
    cases ht
  exact ⟨hsound.intact, hsound.known⟩

theorem intact_sample : Intact (World.sample : World Core.sample) := by
  refine ⟨?_, ?_, ?_, ?_, ?_⟩
  · intro r hr
    cases hr
  · intro k hk
    cases hk
  · intro table l hl
    cases table <;> cases hl
  · intro row hrow
    cases hrow
  · intro p hp
    cases hp

/-- After a sign-in, whose token, key and log rows refer to the new account. -/
theorem intact_of_run_signIn : ∃ s : State Config.sample Core.sample,
    Run (fun _ _ => True) (Sys.init World.sample) s ∧ s.world.refreshTokens.length = 1 ∧
      s.world.auditLog.length = 2 ∧ Intact s.world := by
  obtain ⟨s, h, hp⟩ := exists_run_of_replay (C := fun _ _ => True) (s := Sys.init World.sample)
    sampleSignIn (fun s => s.world.refreshTokens.length == 1 && s.world.auditLog.length == 2)
    (by decide)
  obtain ⟨htokens, hlog⟩ := Bool.and_eq_true_iff.1 hp
  exact ⟨s, h, eq_of_beq htokens, eq_of_beq hlog, (intact_of_run intact_sample h).1⟩

end Integrity

end HelixServer
