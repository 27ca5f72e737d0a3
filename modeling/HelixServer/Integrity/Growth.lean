import HelixServer.Integrity.Protocol
import HelixServer.Store.Grows

/-!
# The store only grows

Nothing that has been written is lost: along every run whose new rows have new ids, an account keeps
its id, its e-mail, its password and its DID, a refresh token stays what it is and revoked once it
is, and published DIDs, links, log rows and mails stay as they are, in their order (`later_of_run`).
-/

namespace HelixServer

namespace Integrity

open Async
open Store (Grows)
open Verification (NewAccounts distinctIds_of_run)

variable {cfg : Config} {core : Core} {w w' w'' : World core} {o : Op}

/-! ### Rows -/

/-- What an account keeps. -/
structure KeptAccount (r r' : AccountRecord) : Prop where
  id : r'.id = r.id
  email : r'.email = r.email
  passwordHash : r'.passwordHash = r.passwordHash
  companyName : r'.companyName = r.companyName
  fieldOfOperation : r'.fieldOfOperation = r.fieldOfOperation
  createdAt : r'.createdAt = r.createdAt
  issuerDid : ∀ did, r.issuerDid = some did → r'.issuerDid = some did
  googleId : r.googleId.isSome = true → r'.googleId.isSome = true
  emailVerifiedAt : r.emailVerifiedAt.isSome = true → r'.emailVerifiedAt.isSome = true

/-- What a refresh token keeps. -/
structure KeptToken (r r' : RefreshTokenRecord) : Prop where
  id : r'.id = r.id
  accountId : r'.accountId = r.accountId
  tokenHash : r'.tokenHash = r.tokenHash
  expiresAt : r'.expiresAt = r.expiresAt
  createdAt : r'.createdAt = r.createdAt
  revokedAt : r.revokedAt.isSome = true → r'.revokedAt.isSome = true

theorem KeptAccount.refl (r : AccountRecord) : KeptAccount r r :=
  ⟨rfl, rfl, rfl, rfl, rfl, rfl, fun _ h => h, fun h => h, fun h => h⟩

theorem KeptAccount.trans {r r' r'' : AccountRecord} (h : KeptAccount r r')
    (h' : KeptAccount r' r'') : KeptAccount r r'' where
  id := h'.id.trans h.id
  email := h'.email.trans h.email
  passwordHash := h'.passwordHash.trans h.passwordHash
  companyName := h'.companyName.trans h.companyName
  fieldOfOperation := h'.fieldOfOperation.trans h.fieldOfOperation
  createdAt := h'.createdAt.trans h.createdAt
  issuerDid did hdid := h'.issuerDid did (h.issuerDid did hdid)
  googleId hid := h'.googleId (h.googleId hid)
  emailVerifiedAt hv := h'.emailVerifiedAt (h.emailVerifiedAt hv)

theorem KeptToken.refl (r : RefreshTokenRecord) : KeptToken r r :=
  ⟨rfl, rfl, rfl, rfl, rfl, fun h => h⟩

theorem KeptToken.trans {r r' r'' : RefreshTokenRecord} (h : KeptToken r r')
    (h' : KeptToken r' r'') : KeptToken r r'' where
  id := h'.id.trans h.id
  accountId := h'.accountId.trans h.accountId
  tokenHash := h'.tokenHash.trans h.tokenHash
  expiresAt := h'.expiresAt.trans h.expiresAt
  createdAt := h'.createdAt.trans h.createdAt
  revokedAt hr := h'.revokedAt (h.revokedAt hr)

/-- The DIDs of accounts are those of their ids. -/
def DidsNamed (cfg : Config) (w : World core) : Prop :=
  ∀ r ∈ w.accounts, ∀ did, r.issuerDid = some did → did = buildAccountIssuerDid cfg.didDomain r.id

theorem Patches.kept {c : Call} {es : List (Event (server cfg core))} {r : AccountRecord}
    {patch : AccountPatch} (h : Patches cfg c es r.id patch) (now : ℕ)
    (hnamed : ∀ did, r.issuerDid = some did → did = buildAccountIssuerDid cfg.didDomain r.id) :
    KeptAccount r (r.patched patch now) := by
  cases h with
  | googleId h googleId => exact ⟨rfl, rfl, rfl, rfl, rfl, rfl, fun _ => id, fun _ => rfl, id⟩
  | token h tokenHash expiresAt => exact ⟨rfl, rfl, rfl, rfl, rfl, rfl, fun _ => id, id, id⟩
  | verified h at_ => exact ⟨rfl, rfl, rfl, rfl, rfl, rfl, fun _ => id, id, fun _ => rfl⟩
  | issuerDid h =>
    refine ⟨rfl, rfl, rfl, rfl, rfl, rfl, fun did hdid => ?_, id, id⟩
    rw [hnamed did hdid]
    rfl

theorem Patches.didNamed {c : Call} {es : List (Event (server cfg core))} {r : AccountRecord}
    {patch : AccountPatch} (h : Patches cfg c es r.id patch) (now : ℕ)
    (hnamed : ∀ did, r.issuerDid = some did → did = buildAccountIssuerDid cfg.didDomain r.id) :
    ∀ did, (r.patched patch now).issuerDid = some did →
      did = buildAccountIssuerDid cfg.didDomain r.id := by
  cases h with
  | issuerDid h =>
    intro did hdid
    exact (Option.some.inj hdid).symm
  | _ => exact hnamed

theorem keptToken_revokeRow {id : String} {link : Option String} {now : ℕ}
    {r : RefreshTokenRecord} : KeptToken r (RefreshTokens.revokeRow id link now r) := by
  unfold RefreshTokens.revokeRow
  split_ifs
  · exact ⟨rfl, rfl, rfl, rfl, rfl, fun _ => rfl⟩
  · exact .refl r

theorem keptToken_burnRow {a : String} {now : ℕ} {r : RefreshTokenRecord} :
    KeptToken r (RefreshTokens.burnRow a now r) := by
  unfold RefreshTokens.burnRow
  split_ifs
  · exact ⟨rfl, rfl, rfl, rfl, rfl, fun _ => rfl⟩
  · exact .refl r

/-! ### Worlds -/

/-- What comes later: time has passed, rows are kept, and new ones have come after them.  The
in-memory driver of the issuer keys replaces the key of an account that gets another one. -/
structure Later (cfg : Config) (w w' : World core) : Prop where
  now : w.now ≤ w'.now
  accounts : Grows KeptAccount w.accounts w'.accounts
  refreshTokens : Grows KeptToken w.refreshTokens w'.refreshTokens
  dids : w.dids <+: w'.dids
  issuerKeys : cfg.storage.hasUniqueIndexes = true → w.issuerKeys <+: w'.issuerKeys
  links : ∀ table, w.links table <+: w'.links table
  auditLog : w.auditLog <+: w'.auditLog
  mails : w.mails <+: w'.mails

theorem Later.refl (w : World core) : Later cfg w w where
  now := Nat.le_refl _
  accounts := .refl fun r _ => .refl r
  refreshTokens := .refl fun r _ => .refl r
  dids := List.prefix_rfl
  issuerKeys _ := List.prefix_rfl
  links _ := List.prefix_rfl
  auditLog := List.prefix_rfl
  mails := List.prefix_rfl

theorem Later.trans (h : Later cfg w w') (h' : Later cfg w' w'') : Later cfg w w'' where
  now := h.now.trans h'.now
  accounts := h.accounts.trans (fun _ _ _ => KeptAccount.trans) h'.accounts
  refreshTokens := h.refreshTokens.trans (fun _ _ _ => KeptToken.trans) h'.refreshTokens
  dids := h.dids.trans h'.dids
  issuerKeys hk := (h.issuerKeys hk).trans (h'.issuerKeys hk)
  links table := (h.links table).trans (h'.links table)
  auditLog := h.auditLog.trans h'.auditLog
  mails := h.mails.trans h'.mails

/-! ### One call -/

section Exec

/-- The ids and hashes that a call draws are new, where no unique index makes sure of it. -/
def DrawsNew (cfg : Config) (w : World core) (o : Op) : Prop :=
  FreshAccountId cfg w o ∧ FreshToken cfg w o

instance (w : World core) (o : Op) : Decidable (DrawsNew cfg w o) :=
  inferInstanceAs (Decidable (FreshAccountId cfg w o ∧ FreshToken cfg w o))

theorem accounts_of_exec (hd : DistinctIds w) (hnamed : DidsNamed cfg w)
    (hf : FreshAccountId cfg w o) (hpatch : ∀ a patch, o = .accounts (.update a patch) →
      ∃ c, ∃ es : List (Event (server cfg core)), Patches cfg c es a patch) :
    Grows KeptAccount w.accounts (o.exec cfg w).2.accounts ∧ DidsNamed cfg (o.exec cfg w).2 := by
  have hsame : Grows KeptAccount w.accounts w.accounts := .refl fun r _ => .refl r
  unfold DidsNamed
  rw [Op.exec_accounts]
  cases o with
  | accounts o =>
    dsimp only
    cases hexec : o.exec cfg.storage (w.freshId cfg "acct") w.now w.accounts with
    | mk x rows =>
      cases x with
      | error e =>
        obtain ⟨rfl, -⟩ := AccountOp.exec_error hexec
        exact ⟨hsame, hnamed⟩
      | ok res =>
        cases o with
        | create data =>
          obtain ⟨rfl, rfl, -⟩ := Accounts.create_ok hf hexec
          refine ⟨.append (fun r _ => .refl r) _, fun r hr did hdid => ?_⟩
          rcases List.mem_append.1 hr with hr | hr
          · exact hnamed r hr did hdid
          · obtain rfl := List.mem_singleton.1 hr
            cases hdid
        | update a patch =>
          obtain ⟨c, es, hpatches⟩ := hpatch a patch rfl
          obtain ⟨-, rfl⟩ := Accounts.update_ok hd hexec
          refine ⟨.map fun r hr => ?_, fun r' hr' => ?_⟩
          · unfold Accounts.updateRow
            split_ifs with hid
            · obtain rfl : r.id = a := eq_of_beq hid
              exact hpatches.kept w.now (hnamed r hr)
            · exact .refl r
          · obtain ⟨r, hr, rfl⟩ := List.mem_map.1 hr'
            rw [Accounts.updateRow_id]
            unfold Accounts.updateRow
            split_ifs with hid
            · obtain rfl : r.id = a := eq_of_beq hid
              exact hpatches.didNamed w.now (hnamed r hr)
            · exact hnamed r hr
        | _ =>
          cases hexec
          exact ⟨hsame, hnamed⟩
  | _ => exact ⟨hsame, hnamed⟩

theorem refreshTokens_of_exec (hf : FreshToken cfg w o) :
    Grows KeptToken w.refreshTokens (o.exec cfg w).2.refreshTokens := by
  have hsame : Grows KeptToken w.refreshTokens w.refreshTokens := .refl fun r _ => .refl r
  rw [Op.exec_refreshTokens]
  cases o with
  | refreshTokens o =>
    dsimp only
    cases o with
    | create data =>
      cases hexec : RefreshTokenOp.exec cfg.storage (w.freshId cfg "rtk") w.now (.create data)
          w.refreshTokens with
      | mk x rows =>
        cases x with
        | error e =>
          obtain ⟨rfl, -⟩ := RefreshTokenOp.exec_error hexec
          exact hsame
        | ok res =>
          obtain ⟨-, -, rfl⟩ := RefreshTokens.create_ok hf hexec
          exact .append (fun r _ => .refl r) _
    | findByTokenHash tokenHash => exact hsame
    | revoke id link => exact .map fun r _ => keptToken_revokeRow
    | revokeAllForAccount a => exact .map fun r _ => keptToken_burnRow
  | _ => exact hsame

theorem dids_of_exec : w.dids <+: (o.exec cfg w).2.dids := by
  rw [Op.exec_dids]
  cases o with
  | dids o =>
    cases o with
    | createDid row =>
      simp only [DidOp.exec]
      split_ifs
      · exact List.prefix_rfl
      · exact List.prefix_append ..
    | findDidById did => exact List.prefix_rfl
  | _ => exact List.prefix_rfl

theorem issuerKeys_of_exec (hk : cfg.storage.hasUniqueIndexes = true) :
    w.issuerKeys <+: (o.exec cfg w).2.issuerKeys := by
  rw [Op.exec_issuerKeys]
  cases o with
  | issuerKeys o =>
    cases o with
    | create data =>
      simp only [IssuerKeyOp.exec, IssuerKeys.create, hk, if_true]
      split_ifs
      · exact List.prefix_rfl
      · exact List.prefix_append ..
    | findByAccountId a => exact List.prefix_rfl
  | _ => exact List.prefix_rfl

theorem links_of_exec (table : AccountLinkTable) :
    w.links table <+: (o.exec cfg w).2.links table := by
  rw [Op.exec_links]
  cases o with
  | links table' o =>
    dsimp only
    split_ifs with htable
    · subst htable
      cases o with
      | link key a =>
        simp only [AccountLinkOp.exec, AccountLinks.link]
        split_ifs
        · exact List.prefix_rfl
        · exact List.prefix_append ..
      | getAccountId key => exact List.prefix_rfl
      | listKeysForAccount a => exact List.prefix_rfl
    · exact List.prefix_rfl
  | _ => exact List.prefix_rfl

theorem auditLog_of_exec : w.auditLog <+: (o.exec cfg w).2.auditLog := by
  rw [Op.exec_auditLog]
  cases o with
  | audit o =>
    cases o with
    | log eventType payload | logEntry eventType timestamp payload => exact List.prefix_append ..
    | _ => exact List.prefix_rfl
  | _ => exact List.prefix_rfl

theorem mails_of_exec : w.mails <+: (o.exec cfg w).2.mails := by
  rw [Op.exec_mails]
  cases o with
  | sendMail mail => exact List.prefix_append ..
  | _ => exact List.prefix_rfl

end Exec

theorem log_of_env {x : EnvMove} (he : x.exec w = some w') :
    w.now ≤ w'.now ∧ w.auditLog <+: w'.auditLog := by
  cases x with
  | tick ms =>
    cases he
    exact ⟨Nat.le_add_right _ _, List.prefix_rfl⟩
  | completeLog k timestamp =>
    simp only [EnvMove.exec] at he
    split at he
    · cases he
    · split_ifs at he
      cases he
      exact ⟨Nat.le_refl _, List.prefix_append ..⟩
  | coreLog row =>
    simp only [EnvMove.exec] at he
    split_ifs at he
    cases he
    exact ⟨Nat.le_refl _, List.prefix_append ..⟩

theorem Later.env {x : EnvMove} (he : x.exec w = some w') : Later cfg w w' := by
  have hframe := EnvMove.exec_frame he
  have hlog := log_of_env he
  refine ⟨hlog.1, ?_, ?_, ?_, ?_, ?_, hlog.2, ?_⟩
  · rw [EnvMove.exec_accounts he]
    exact .refl fun r _ => .refl r
  · rw [EnvMove.exec_refreshTokens he]
    exact .refl fun r _ => .refl r
  · have hsame : w'.dids = w.dids := by rw [hframe]
    exact hsame ▸ List.prefix_rfl
  · have hsame : w'.issuerKeys = w.issuerKeys := by rw [hframe]
    exact fun _ => hsame ▸ List.prefix_rfl
  · intro table
    exact (EnvMove.exec_links he table) ▸ List.prefix_rfl
  · have hsame : w'.mails = w.mails := by rw [hframe]
    exact hsame ▸ List.prefix_rfl

/-! ### Runs -/

theorem log_of_step {s s' : State cfg core} {l : Label (server cfg core)} (hst : Step s l s') :
    s.world.now ≤ s'.world.now ∧ s.world.auditLog <+: s'.world.auditLog := by
  have hexec : ∀ (o : Op), s.world.now ≤ (o.exec cfg s.world).2.now ∧
      s.world.auditLog <+: (o.exec cfg s.world).2.auditLog :=
    fun o => ⟨Nat.le_of_eq Op.exec_now.symm, auditLog_of_exec⟩
  cases hst with
  | start c => exact ⟨Nat.le_refl _, List.prefix_rfl⟩
  | fail ht hp hf => exact ⟨Nat.le_refl _, List.prefix_rfl⟩
  | env he => exact log_of_env he
  | @call i t o k r w ht hp he | @reject i t o k e w ht hp he =>
    have hlater := hexec o
    rw [show Op.exec cfg o s.world = _ from he] at hlater
    exact hlater

theorem log_of_run {s s' : State cfg core} {C : Discipline (server cfg core)} (h : Run C s s') :
    s.world.now ≤ s'.world.now ∧ s.world.auditLog <+: s'.world.auditLog := by
  induction h with
  | refl => exact ⟨Nat.le_refl _, List.prefix_rfl⟩
  | tail _ hst ih =>
    obtain ⟨l, -, hst⟩ := hst
    obtain ⟨hnow, hlog⟩ := log_of_step hst
    exact ⟨ih.1.trans hnow, ih.2.trans hlog⟩

/-- The rows that a run draws are new. -/
def NewRows : Discipline (server cfg core) := fun s l =>
  match l with
  | .step i => ∀ o ∈ s.nextCall i, DrawsNew cfg s.world o
  | _ => True

instance (s : State cfg core) (l : Label (server cfg core)) : Decidable (NewRows s l) :=
  match l with
  | .step i => inferInstanceAs (Decidable (∀ o ∈ s.nextCall i, DrawsNew cfg s.world o))
  | .start _ | .fail _ | .env _ => .isTrue trivial

section Runs

variable {s s' : State cfg core} {l : Label (server cfg core)} {C : Discipline (server cfg core)}
  {w₀ : World core}

theorem newAccounts_of_newRows (h : NewRows s l) : NewAccounts s l := by
  cases l with
  | step i => exact fun o ho => (h o ho).1
  | _ => trivial

theorem later_of_step (hob : (causes cfg core).protocol.Obeyed s) (hd : DistinctIds s.world)
    (hnamed : DidsNamed cfg s.world) (hnew : NewRows s l) (hst : Step s l s') :
    Later cfg s.world s'.world ∧ DidsNamed cfg s'.world := by
  have hexec : ∀ {i : ℕ} {t : Task (server cfg core)} {o : Op} {k : o.Res → Promise Reply},
      l = .step i → s.tasks[i]? = some t → t.prog = .call o k →
      Later cfg s.world (o.exec cfg s.world).2 ∧ DidsNamed cfg (o.exec cfg s.world).2 := by
    rintro i t o k rfl ht hp
    obtain ⟨hf, hft⟩ := hnew o (Sys.nextCall_eq ht hp)
    have hallowed := hob.allowed ht hp
    obtain ⟨haccounts, hnamed'⟩ := accounts_of_exec hd hnamed hf fun a patch ho => by
      subst ho
      exact ⟨_, _, hallowed⟩
    exact ⟨⟨Nat.le_of_eq Op.exec_now.symm, haccounts, refreshTokens_of_exec hft, dids_of_exec,
      issuerKeys_of_exec, links_of_exec, auditLog_of_exec, mails_of_exec⟩, hnamed'⟩
  cases hst with
  | start c => exact ⟨.refl _, hnamed⟩
  | fail ht hp hf => exact ⟨.refl _, hnamed⟩
  | env he =>
    refine ⟨.env he, ?_⟩
    unfold DidsNamed
    rw [EnvMove.exec_accounts he]
    exact hnamed
  | call ht hp he | reject ht hp he =>
    have hlater := hexec rfl ht hp
    rw [show Op.exec cfg _ _ = _ from he] at hlater
    exact hlater

theorem didsNamed_of_run (hC : ∀ s l, C s l → NewRows s l) (hd : DistinctIds w₀)
    (hnamed : DidsNamed cfg w₀) (h : Run C (Sys.init w₀) s) : DidsNamed cfg s.world :=
  h.invariant (I := fun s => DidsNamed cfg s.world) hnamed fun s l _ hr ih hl hst =>
    (later_of_step (causes_kept.obeyed hr)
      (distinctIds_of_run (fun s l hl => newAccounts_of_newRows (hC s l hl)) hd hr) ih
        (hC s l hl) hst).2

/-- **Nothing is lost.**  In a run that draws new ids and hashes, whatever is rejected, a later
state has every account with its e-mail, its password and its DID, every refresh token, revoked if
it was, and every published DID, issuer key, link, log row and mail, in the same places. -/
theorem later_of_run (hC : ∀ s l, C s l → NewRows s l) (hd : DistinctIds w₀)
    (hnamed : DidsNamed cfg w₀) (h : Run C (Sys.init w₀) s) (h' : Run C s s') :
    Later cfg s.world s'.world := by
  induction h' with
  | refl => exact .refl _
  | @tail s₁ s₂ hr hst ih =>
    obtain ⟨l, hl, hst⟩ := hst
    have hrun : Run C (Sys.init w₀) s₁ := h.trans hr
    have hd₁ := distinctIds_of_run (fun s l hl => newAccounts_of_newRows (hC s l hl)) hd hrun
    exact ih.trans (later_of_step (causes_kept.obeyed hrun) hd₁ (didsNamed_of_run hC hd hnamed hrun)
      (hC _ l hl) hst).1

end Runs

/-- A sign-in, and the rotation of its token. -/
theorem later_of_run_rotation : ∃ s s' : State Config.sample Core.sample,
    Run NewRows (Sys.init .sample) s ∧ Run NewRows s s' ∧ s.world.refreshTokens.length = 1 ∧
      s'.world.refreshTokens.length = 2 ∧ Later Config.sample s.world s'.world := by
  have hd : DistinctIds (World.sample : World Core.sample) := .nil
  have hnamed : DidsNamed Config.sample (World.sample : World Core.sample) := by
    intro r hr
    cases hr
  obtain ⟨s, h, hp⟩ := exists_run_of_replay (C := NewRows) (s := Sys.init World.sample)
    sampleSignIn (fun s => s.world.refreshTokens.length == 1 &&
      (replay NewRows s (.start (.refresh (sampleToken 12)) :: List.replicate 9 (.step 1))).any
        fun s' => s'.world.refreshTokens.length == 2) (by decide)
  obtain ⟨hone, hp⟩ := Bool.and_eq_true_iff.1 hp
  obtain ⟨s', h', htwo⟩ := exists_run_of_replay _ _ hp
  exact ⟨s, s', h, h', eq_of_beq hone, eq_of_beq htwo,
    later_of_run (fun _ _ h => h) hd hnamed h h'⟩

end Integrity

end HelixServer
