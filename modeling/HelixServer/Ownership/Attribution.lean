import HelixServer.Access.Privileged
import HelixServer.Ownership.Links

/-!
# Each audit row is shown to one account

A row is attributed to an account by its payload, by a credential it names, or by an enrollment
token it names.  The three agree: a row that the server logs for an account names what is linked to
that account (`Attributed`), a row that the operator posts names no account and no token, and a row
of the core that names a token and a credential names the credential of that token.  So no row is
shown to two accounts (`auditRow_exclusive`).

## Main definitions

* `AnsweredPage t a entries` : the request has answered a page of the log to the account.
* `CoreRowsAgree s` : what is assumed of the rows of the core.
* `AttributedTo w row a` : the row is the account's.
* `Attributed w` : the invariant of the log.
-/

namespace HelixServer

namespace Ownership

open Async Access

variable {cfg : Config} {core : Core}

/-! ### What is shown -/

/-- The request carries an access token of the account. -/
def BearerOf (cfg : Config) (request : Request) (a : String) : Prop :=
  ∃ token now payload, request.bearerToken = some token ∧
    verifyAccessToken cfg.runtime cfg.accessTokenSecret token now = .ok payload ∧
    payload.accountId = a

/-- The request has answered a page of the log to the account. -/
def AnsweredPage (t : Task (server cfg core)) (a : String) (entries : List AuditEntry) : Prop :=
  ∃ request query, t.call = .listAuditLog request query ∧ request.isAdmin cfg = false ∧
    BearerOf cfg request a ∧ t.prog = .pure (.auditLog entries)

/-- The row is the account's: it names the account, or a credential or an enrollment token that is
linked to it. -/
def AttributedTo (w : World core) (row : AuditLogRow) (a : String) : Prop :=
  row.payload.getString "accountId" = some a ∨
    (∃ v, row.payload.getString "vcId" = some v ∧
      AccountLinks.getAccountId v (w.links .vcAccountLinks) = some a) ∨
    ∃ h, row.payload.getString "tokenIdHash" = some h ∧
      AccountLinks.getAccountId h (w.links .enrollmentTokenAccountLinks) = some a

/-! ### What is assumed of the core -/

/-- The credential of the request `t` comes from the enrollment token with the hash, at once or by
way of a challenge. -/
def ProducedFrom (s : State cfg core) (t : Task (server cfg core)) (tokenIdHash : String) : Prop :=
  ∃ x, (coreOp t.call).bind presents = some x ∧
    ((x.1 = .enrollmentTokenAccountLinks ∧ cfg.runtime.hashToken x.2 = tokenIdHash) ∨
      ∃ t' ∈ s.tasks, CreatedBy t' x ∧ ∃ token, (coreOp t'.call).bind presents =
        some (.enrollmentTokenAccountLinks, token) ∧ cfg.runtime.hashToken token = tokenIdHash)

/-- A row that names an enrollment token and a credential names the credential of that token.  Only
the core logs rows that name both. -/
def CoreRowsAgree (s : State cfg core) : Prop :=
  ∀ row ∈ s.world.auditLog, ∀ h v, row.payload.getString "tokenIdHash" = some h →
    row.payload.getString "vcId" = some v →
    ∀ t ∈ s.tasks, CreatedBy t (.vcAccountLinks, v) → ProducedFrom s t h

/-! ### What every step keeps -/

/-- If the payload names an account, what it names is linked to that account. -/
def Consistent (w : World core) (payload : AuditPayload) : Prop :=
  ∀ a, payload.getString "accountId" = some a →
    (∀ v, payload.getString "vcId" = some v →
      AccountLinks.getAccountId v (w.links .vcAccountLinks) = some a) ∧
    ∀ h, payload.getString "tokenIdHash" = some h →
      AccountLinks.getAccountId h (w.links .enrollmentTokenAccountLinks) = some a

/-- The rows of the log, and those that are still to be written, are consistent. -/
structure Attributed (w : World core) : Prop where
  logged : ∀ row ∈ w.auditLog, Consistent w row.payload
  pending : ∀ p ∈ w.pendingLogs, Consistent w p.payload

/-- The payload that a call logs. -/
def logs : Op → Option AuditPayload
  | .audit (.log _ payload) | .audit (.logEntry _ _ payload) | .audit (.logDetached _ payload) =>
    some payload
  | _ => none

section System

variable {s s' : State cfg core} {t : Task (server cfg core)} {w w' : World core} {o : Op}
  {payload : AuditPayload} {row : AuditLogRow} {a b : String}

theorem Consistent.mono (h : Consistent w payload) (hlinks : ∀ table key a,
    AccountLinks.getAccountId key (w.links table) = some a →
      AccountLinks.getAccountId key (w'.links table) = some a) : Consistent w' payload :=
  fun a ha =>
    ⟨fun v hv => hlinks _ v a ((h a ha).1 v hv), fun k hk => hlinks _ k a ((h a ha).2 k hk)⟩

theorem consistent_of_namesNone (h : payload.NamesNone) : Consistent w payload :=
  fun a _ => ⟨fun v hv => (by rw [h.1] at hv; cases hv), fun k hk => (by rw [h.2] at hk; cases hk)⟩

theorem consistent_of_unnamed (h : payload.getString "accountId" = none) :
    Consistent w payload := fun a ha => by rw [h] at ha; cases ha

/-- The rows before a call stay consistent, so those after it are if the call's own is. -/
theorem Attributed.exec (h : Attributed w) (hnew : ∀ p ∈ logs o, Consistent w p) :
    Attributed (o.exec cfg w).2 := by
  have hold : ∀ {p}, Consistent w p → Consistent (o.exec cfg w).2 p :=
    fun hp => hp.mono fun _ _ _ => exec_keeps_link
  constructor
  · rw [Op.exec_auditLog]
    intro row hrow
    refine hold ?_
    cases o with
    | audit o =>
      cases o with
      | log eventType payload | logEntry eventType timestamp payload =>
        rcases List.mem_append.1 hrow with hrow | hrow
        · exact h.logged row hrow
        · obtain rfl := List.mem_singleton.1 hrow
          exact hnew _ rfl
      | _ => exact h.logged row hrow
    | _ => exact h.logged row hrow
  · rw [Op.exec_pendingLogs]
    intro p hp
    refine hold ?_
    cases o with
    | audit o =>
      cases o with
      | logDetached eventType payload =>
        rcases List.mem_append.1 hp with hp | hp
        · exact h.pending p hp
        · obtain rfl := List.mem_singleton.1 hp
          exact hnew _ rfl
      | _ => exact h.pending p hp
    | _ => exact h.pending p hp

/-- The environment writes rows that were started, and rows of the core, which name no account. -/
theorem Attributed.env (h : Attributed w) {x : EnvMove} (he : x.exec w = some w') :
    Attributed w' := by
  have hold : ∀ {p}, Consistent w p → Consistent w' p :=
    fun hp => hp.mono fun table _ _ hl => by rw [EnvMove.exec_links he table]; exact hl
  cases x with
  | tick ms => cases he; exact ⟨fun row hrow => h.logged row hrow, fun p hp => h.pending p hp⟩
  | completeLog k timestamp =>
    simp only [EnvMove.exec] at he
    split at he
    · cases he
    · rename_i p hp
      split_ifs at he
      cases he
      refine ⟨fun row hrow => hold ?_, fun q hq => hold (h.pending q (List.mem_of_mem_eraseIdx hq))⟩
      rcases List.mem_append.1 hrow with hrow | hrow
      · exact h.logged row hrow
      · obtain rfl := List.mem_singleton.1 hrow
        exact h.pending p (List.mem_of_getElem? hp)
  | coreLog row =>
    simp only [EnvMove.exec] at he
    split_ifs at he with hnone
    cases he
    refine ⟨fun row' hrow => ?_, fun p hp => hold (h.pending p hp)⟩
    rcases List.mem_append.1 hrow with hrow | hrow
    · exact hold (h.logged row' hrow)
    · obtain rfl := List.mem_singleton.1 hrow
      refine consistent_of_unnamed ?_
      rw [AuditPayload.getString, Option.isNone_iff_eq_none.1 hnone]
      rfl

/-- What a request logs where it stands is consistent: it has linked what it names. -/
theorem Linking.consistent (hk : Linking s) (ht : t ∈ s.tasks) (ha : (stageOf t).Allows cfg o) :
    ∀ p ∈ logs o, Consistent s.world p := by
  intro p hp
  cases o with
  | audit o =>
    cases hq : stageOf t with
    | aside =>
      rw [hq] at ha
      cases o with
      | log eventType payload =>
        cases hp
        rcases ha with (h | h) | h
        · exact consistent_of_namesNone h
        · exact consistent_of_namesNone h
        · exact h.elim
      | logEntry eventType timestamp payload =>
        cases hp
        rcases ha with (h | h) | h
        · exact h.elim
        · exact h.elim
        · exact consistent_of_unnamed h.1
      | logDetached eventType payload => rcases ha with (h | h) | h <;> exact h.elim
      | list q => cases hp
    | settled c r owner =>
      rw [hq] at ha
      cases o with
      | logDetached eventType payload =>
        cases hp
        obtain ⟨b, requestId, rfl, rfl⟩ := ha
        have hlink : AccountLinks.getAccountId (keyIn cfg (creates c) r)
            (s.world.links (creates c)) = some b :=
          (hk.links (creates c, r) b).2 ⟨t, ht, by rw [hq]; exact ⟨rfl, rfl, nofun⟩⟩
        intro a hab
        obtain rfl : b = a := Option.some.inj hab
        unfold loggedFor
        cases hc : creates c <;> rw [hc] at hlink
        · exact ⟨fun v hv => by obtain rfl : _ = v := Option.some.inj hv; exact hlink, nofun⟩
        · exact ⟨nofun, fun k hk => by obtain rfl : _ = k := Option.some.inj hk; exact hlink⟩
        · exact ⟨nofun, nofun⟩
      | _ => exact ha.elim
    | _ =>
      rw [hq] at ha
      cases o <;> first | exact ha.elim | cases hp
  | _ => cases hp

/-- **The log stays consistent along every run.** -/
theorem attributed_of_run (hinj : Function.Injective cfg.runtime.hashToken) {w₀ : World core}
    (hids : ∀ r ∈ w₀.accounts, r.id ≠ "") (hlinks : ∀ table, w₀.links table = [])
    (hlog : w₀.auditLog = []) (hpending : w₀.pendingLogs = [])
    (h : Run Fresh (Sys.init w₀ : State cfg core) s) : Attributed s.world := by
  refine h.invariant (I := fun s => Attributed s.world) ?_ fun s l s' hr ih _ hst => ?_
  · refine ⟨fun row hrow => ?_, fun p hp => ?_⟩
    · rw [show (Sys.init w₀ : State cfg core).world.auditLog = [] from hlog] at hrow
      cases hrow
    · rw [show (Sys.init w₀ : State cfg core).world.pendingLogs = [] from hpending] at hp
      cases hp
  obtain ⟨ho, hk⟩ := linking_of_run hinj hids hlinks hr
  have hexec : ∀ {i : ℕ} {t : Task (server cfg core)} {o : Op} {k}, s.tasks[i]? = some t →
      t.prog = .call o k → Attributed (o.exec cfg s.world).2 := fun ht hp =>
    ih.exec (hk.consistent (List.mem_of_getElem? ht) (ho.allowed ht hp))
  cases hst with
  | start c => exact ih
  | env he => exact ih.env he
  | call ht hp he | reject ht hp he =>
    have hw := hexec ht hp
    rw [show (Op.exec _ _ _).2 = _ from congrArg Prod.snd he] at hw
    exact hw
  | fail ht hp hf => exact ih

/-! ### One account for each row -/

theorem Linking.found_of_links (hk : Linking s) (ht : t ∈ s.tasks) {x y : AccountLinkTable × String}
    (hx : (stageOf t).Links x a) (hy : (coreOp t.call).bind presents = some y) :
    AccountLinks.getAccountId (keyIn cfg y.1 y.2) (s.world.links y.1) = some a := by
  refine hk.found t ht y ?_ a hx.2.1
  rw [looked_of_makes hx.1, (hk.traced t ht).op]
  exact hy

/-- The owner of a credential is that of the enrollment token it comes from. -/
theorem Linking.owner_of_produced (hk : Linking s) {v h : String}
    (hv : AccountLinks.getAccountId v (s.world.links .vcAccountLinks) = some a)
    (hproduced : ∀ t ∈ s.tasks, CreatedBy t (.vcAccountLinks, v) → ProducedFrom s t h) :
    AccountLinks.getAccountId h (s.world.links .enrollmentTokenAccountLinks) = some a := by
  obtain ⟨t, ht, hlinks⟩ := (hk.links (.vcAccountLinks, v) a).1 hv
  have hcreated := (hk.traced t ht).createdBy_iff.2 hlinks.1
  obtain ⟨⟨table, x⟩, hx, hcase⟩ := hproduced t ht hcreated
  have hfound := hk.found_of_links ht hlinks hx
  rcases hcase with ⟨rfl, rfl⟩ | ⟨t', ht', hcreated', token, htoken, rfl⟩
  · exact hfound
  · -- the credential comes by way of a challenge, whose request has found the same account
    obtain ⟨t₁, ht₁, hlinks₁⟩ := (hk.links (table, x) a).1 hfound
    have hmakes' := (hk.traced t' ht').createdBy_iff.1 hcreated'
    obtain rfl := hk.eq_of_makes ht₁ ht' hlinks₁.1 hmakes'
    exact hk.found_of_links ht₁ hlinks₁ htoken

/-- **A row is one account's.** -/
theorem attributed_unique (hk : Linking s) (hw : Attributed s.world) (hagree : CoreRowsAgree s)
    (hrow : row ∈ s.world.auditLog) (ha : AttributedTo s.world row a)
    (hb : AttributedTo s.world row b) : a = b := by
  have hsame := hw.logged row hrow
  have hboth : ∀ {a b h v : String}, row.payload.getString "vcId" = some v →
      AccountLinks.getAccountId v (s.world.links .vcAccountLinks) = some a →
      row.payload.getString "tokenIdHash" = some h →
      AccountLinks.getAccountId h (s.world.links .enrollmentTokenAccountLinks) =
        some b → a = b := by
    intro a b h v hv hva hh hhb
    have hha := hk.owner_of_produced hva (hagree row hrow h v hh hv)
    exact Option.some.inj (hha.symm.trans hhb)
  rcases ha with ha | ⟨v, hv, hva⟩ | ⟨h, hh, hha⟩
  · rcases hb with hb | ⟨v, hv, hvb⟩ | ⟨h, hh, hhb⟩
    · exact Option.some.inj (ha.symm.trans hb)
    · exact Option.some.inj (((hsame a ha).1 v hv).symm.trans hvb)
    · exact Option.some.inj (((hsame a ha).2 h hh).symm.trans hhb)
  · rcases hb with hb | ⟨v', hv', hvb⟩ | ⟨h, hh, hhb⟩
    · exact Option.some.inj (hva.symm.trans ((hsame b hb).1 v hv))
    · obtain rfl : v = v' := Option.some.inj (hv.symm.trans hv')
      exact Option.some.inj (hva.symm.trans hvb)
    · exact hboth hv hva hh hhb
  · rcases hb with hb | ⟨v, hv, hvb⟩ | ⟨h', hh', hhb⟩
    · exact Option.some.inj (hha.symm.trans ((hsame b hb).2 h hh))
    · exact (hboth hv hvb hh hha).symm
    · obtain rfl : h = h' := Option.some.inj (hh.symm.trans hh')
      exact Option.some.inj (hha.symm.trans hhb)

/-! ### What the requests have answered -/

theorem bearerOf_unique {request : Request} (ha : BearerOf cfg request a)
    (hb : BearerOf cfg request b) : a = b := by
  obtain ⟨token, now, payload, htoken, hok, rfl⟩ := ha
  obtain ⟨token', now', payload', htoken', hok', rfl⟩ := hb
  obtain rfl : token = token' := Option.some.inj (htoken.symm.trans htoken')
  rw [verifyAccessToken_unique hok hok']

theorem row_of_later {C : Discipline (server cfg core)} (h : Run C s s')
    (hrow : row ∈ s.world.auditLog) : row ∈ s'.world.auditLog := by
  refine h.world (I := fun w : World core => row ∈ w.auditLog) hrow (fun o w hw => ?_)
    fun x w w' hw he => ?_
  · change row ∈ (o.exec cfg w).2.auditLog
    rw [Op.exec_auditLog]
    cases o with
    | audit o => cases o <;> first | exact hw | exact List.mem_append_left _ hw
    | _ => exact hw
  · cases x with
    | tick ms => cases he; exact hw
    | completeLog k timestamp =>
      have he' : EnvMove.exec w (.completeLog k timestamp) = some w' := he
      simp only [EnvMove.exec] at he'
      split at he'
      · cases he'
      · split_ifs at he'
        cases he'
        exact List.mem_append_left _ hw
    | coreLog row' =>
      have he' : EnvMove.exec w (.coreLog row') = some w' := he
      simp only [EnvMove.exec] at he'
      split_ifs at he'
      cases he'
      exact List.mem_append_left _ hw

theorem attributed_of_answered
    (hverify : cfg.verifyAccessToken = verifyAccessToken cfg.runtime cfg.accessTokenSecret)
    (hlist : ∀ q rows, core.listAuditLog q rows ⊆ rows) {C : Discipline (server cfg core)}
    {w₀ : World core} (hids : ∀ r ∈ w₀.accounts, r.id ≠ "") (h : Run C (Sys.init w₀) s)
    (ht : t ∈ s.tasks) {entries : List AuditEntry} (hpage : AnsweredPage t a entries) :
    ∀ e ∈ entries, e.record ∈ s.world.auditLog ∧ AttributedTo s.world e.record a := by
  obtain ⟨request, query, hc, hadmin, hbearer, hp⟩ := hpage
  have hans := answered_of_run hverify hids h ht hp
  rw [hc] at hans
  obtain ⟨request', hc', hadm⟩ := hans
  obtain rfl : request = request' := Option.some.inj hc'
  obtain ⟨b, hshows, hsees⟩ := hadm.resolve_left fun h => by rw [hadmin] at h; cases h
  -- the token that was verified is that of the account
  obtain rfl : b = a := by
    obtain ⟨token, payload, htoken, ha, e, -, -, hok⟩ := hshows.token
    exact bearerOf_unique ⟨token, _, payload, htoken, hok, ha⟩ hbearer
  have hlater : ∀ {table key}, SawLink t.done table key b →
      AccountLinks.getAccountId key (s.world.links table) = some b := by
    rintro table key ⟨e, he, -, hl⟩
    obtain ⟨-, s', -, hs', hw⟩ := h.event rfl t ht e he
    rw [← hw] at hl
    exact link_of_later hs' hl
  intro entry hentry
  obtain ⟨⟨e, he, q, -, hrow⟩, hattr⟩ := hsees entry hentry
  refine ⟨?_, hattr.imp_right (.imp (fun ⟨v, hv, hl⟩ => ⟨v, hv, hlater hl⟩)
    fun ⟨k, hk, hl⟩ => ⟨k, hk, hlater hl⟩)⟩
  obtain ⟨-, s', -, hs', hw⟩ := h.event rfl t ht e he
  refine row_of_later hs' ?_
  rw [hw]
  exact hlist q _ hrow

/-- **Each row of the log is shown to one account at most.**  In every run from empty link tables
and an empty log, with whatever is posted and whatever is rejected, the accounts that have been
answered one row are the same; and a posted row that an account has been answered names a credential
of that account. -/
theorem auditRow_exclusive
    (hverify : cfg.verifyAccessToken = verifyAccessToken cfg.runtime cfg.accessTokenSecret)
    (hinj : Function.Injective cfg.runtime.hashToken)
    (hlist : ∀ q rows, core.listAuditLog q rows ⊆ rows) {w₀ : World core}
    (hids : ∀ r ∈ w₀.accounts, r.id ≠ "") (hlinks : ∀ table, w₀.links table = [])
    (hlog : w₀.auditLog = []) (hpending : w₀.pendingLogs = [])
    (h : Run Fresh (Sys.init w₀ : State cfg core) s) (hagree : CoreRowsAgree s) :
    (∀ t ∈ s.tasks, ∀ t' ∈ s.tasks, ∀ a a' entries entries', AnsweredPage t a entries →
        AnsweredPage t' a' entries' → ∀ e ∈ entries, ∀ e' ∈ entries', e.record = e'.record →
        a = a') ∧
      ∀ (route : IngestRoute) requestId body posted timestamp,
        route.entry requestId body = .ok posted → ∀ t ∈ s.tasks, ∀ a entries,
        AnsweredPage t a entries → ∀ e ∈ entries, e.record.payload = posted.payload timestamp →
        ∃ v, e.record.payload.getString "vcId" = some v ∧ owner s v = some a := by
  obtain ⟨-, hk⟩ := linking_of_run hinj hids hlinks h
  have hw := attributed_of_run hinj hids hlinks hlog hpending h
  refine ⟨fun t ht t' ht' a a' entries entries' hpage hpage' e he e' he' hsame => ?_,
    fun route requestId body posted timestamp hposted t ht a entries hpage e he hpayload => ?_⟩
  · obtain ⟨hrow, ha⟩ := attributed_of_answered hverify hlist hids h ht hpage e he
    obtain ⟨-, ha'⟩ := attributed_of_answered hverify hlist hids h ht' hpage' e' he'
    exact attributed_unique hk hw hagree hrow ha (by rw [hsame]; exact ha')
  · obtain ⟨-, hattr⟩ := attributed_of_answered hverify hlist hids h ht hpage e he
    obtain ⟨haccount, htoken⟩ := posted_entry hposted timestamp
    rw [← hpayload] at haccount htoken
    rcases hattr with ha | ⟨v, hv, hl⟩ | ⟨k, hk', -⟩
    · rw [haccount] at ha; cases ha
    · exact ⟨v, hv, hl⟩
    · rw [htoken] at hk'; cases hk'

end System

/-! ### A page of the sample account -/

/-- The page of the log that a request has answered to an account, which is not the operator's. -/
def pageOf (a : String) (t : Task (server cfg core)) : Option (List AuditEntry) :=
  match t.call, t.prog with
  | .listAuditLog request _, .pure (.auditLog entries) =>
    if !request.isAdmin cfg && request.bearerToken.any (fun token =>
        (verifyAccessToken cfg.runtime cfg.accessTokenSecret token 0).toOption.any
          (·.accountId == a)) then some entries
    else none
  | _, _ => none

theorem answeredPage_of_pageOf {a : String} {t : Task (server cfg core)} {entries : List AuditEntry}
    (h : pageOf a t = some entries) : AnsweredPage t a entries := by
  unfold pageOf at h
  split at h
  · rename_i request query entries' hcall hprog
    split_ifs at h with hcond
    cases h
    obtain ⟨hadmin, htoken⟩ := Bool.and_eq_true_iff.1 hcond
    obtain ⟨token, htoken, hok⟩ := (Option.any_eq_true _ _).1 htoken
    obtain ⟨payload, hok, ha⟩ := (Option.any_eq_true _ _).1 hok
    have hverified : verifyAccessToken cfg.runtime cfg.accessTokenSecret token 0 = .ok payload := by
      cases hv : verifyAccessToken cfg.runtime cfg.accessTokenSecret token 0 with
      | error e => rw [hv] at hok; cases hok
      | ok payload' => rw [hv] at hok; cases hok; rfl
    exact ⟨request, query, hcall, by simpa using hadmin,
      ⟨token, 0, payload, htoken, hverified, eq_of_beq ha⟩, hprog⟩
  · cases h

/-- The account issues a credential, and sees the row of it. -/
theorem auditRow_exclusive_issue : ∃ (s : State signedConfig Core.sample) (t : _) (entries : _),
    t ∈ s.tasks ∧ AnsweredPage t "acct:1" entries ∧ entries ≠ [] ∧
      ∀ t' ∈ s.tasks, ∀ a' entries', AnsweredPage t' a' entries' →
        ∀ e ∈ entries, ∀ e' ∈ entries', e.record = e'.record → "acct:1" = a' := by
  obtain ⟨s, h, hp⟩ := exists_run_of_replay (C := Fresh)
    (s := (Sys.init .sampleHosted : State signedConfig Core.sample))
    (.start (.issueVC signedRequest .null) :: List.replicate 5 (.step 0) ++
      .env (.completeLog 0 0) :: .start (.listAuditLog signedRequest {}) ::
      List.replicate 3 (.step 1))
    (fun s => (s.world.auditLog.all fun row => (row.payload.getString "tokenIdHash").isNone) &&
      (s.tasks[1]?).any fun t => (pageOf "acct:1" t).any fun entries => !entries.isEmpty)
    (by decide)
  obtain ⟨hrows, hp⟩ := Bool.and_eq_true_iff.1 hp
  obtain ⟨t, ht, hp⟩ := (Option.any_eq_true _ _).1 hp
  obtain ⟨entries, hentries, hne⟩ := (Option.any_eq_true _ _).1 hp
  have hmem := List.mem_of_getElem? ht
  have hpage := answeredPage_of_pageOf hentries
  -- no row of the log names a token
  have hagree : CoreRowsAgree s := by
    intro row hrow k v hk _
    have hnone := List.all_eq_true.1 hrows row hrow
    rw [hk] at hnone
    cases hnone
  have hlist : ∀ q rows, Core.sample.listAuditLog q rows ⊆ rows :=
    fun _ rows => List.filter_subset_self rows
  obtain ⟨hone, -⟩ := auditRow_exclusive rfl (fun _ _ h => h) hlist (by decide)
    (by rintro (_ | _ | _) <;> rfl) rfl rfl h hagree
  exact ⟨s, t, entries, hmem, hpage, by simpa using hne, fun t' ht' a' entries' hpage' =>
    hone t hmem t' ht' _ a' entries entries' hpage hpage'⟩

end Ownership

end HelixServer
