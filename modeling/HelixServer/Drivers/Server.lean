import HelixServer.Async.Backing
import HelixServer.Drivers.Backends
import HelixServer.Verification.Resend

/-!
# The server on its storage drivers

The server is modelled on repositories over lists of rows.  Here its programs run on a backend: the
maps of the process, the tables of an SQLite file, or those of a Postgres database, each behind its
drivers.  Whatever the backend, and whatever SQL leaves open, a run of the server there is a run of
the model with the same requests, the same replies and the rows that the tables hold
(`run_of_storage`).

## Main definitions

* `Alike` : equal answers, up to the order of a list of keys.
* `DriverWorld B core` : the tables of a backend, and the rest of the world.
* `onBackend cfg core B` : the server on a backend.
* `Holds H v w` : the tables hold the rows of `w`.
* `NewHashes cfg` : the ids and the verification tokens that are written are new.
-/

namespace HelixServer

namespace Drivers

open Async Store Verification

variable {cfg : Config} {core : Core} {B : Backend}

/-! ### The order of lists -/

/-- Equal answers; SQL lists the keys of an account in any order. -/
def Alike : (o : Op) → o.Res → o.Res → Prop
  | .links _ (.listKeysForAccount _), (keys : List String), (keys' : List String) => keys.Perm keys'
  | _, r, r' => r = r'

/-- The call lists no keys. -/
def Keyless : Op → Prop
  | .links _ (.listKeysForAccount _) => False
  | _ => True

theorem Keyless.eq {o : Op} (h : Keyless o) {r r' : o.Res} (hr : Alike o r r') : r = r' := by
  cases o with
  | links table o =>
    cases o with
    | listKeysForAccount accountId => exact h.elim
    | _ => exact hr
  | _ => exact hr

section Programs

variable {α : Type} {R : HelixError → Prop} {N : Op → Prop} {p : Promise α}

theorem respects_of_uses (hp : p.Uses N R) (hN : ∀ o, N o → Keyless o) : p.Respects Alike :=
  hp.respects fun o ho _ _ => (hN o ho).eq

theorem await_respects {o : Op} (h : Keyless o) : (await o).Respects Alike :=
  ⟨fun _ _ hr => by rw [h.eq hr], fun _ => trivial⟩

theorem guard_respects (hp : p.Uses GuardCall R) : p.Respects Alike :=
  respects_of_uses hp fun o ho => by
    cases o <;> first | exact ho.elim | trivial

theorem auth_respects (hp : p.Uses AuthCall R) : p.Respects Alike :=
  respects_of_uses hp fun o ho => by
    cases o <;> first | exact ho.elim False.elim False.elim | trivial

theorem requireAdmin_respects {request : Request} : (requireAdmin cfg request).Respects Alike := by
  unfold requireAdmin
  split <;> trivial

theorem linkAndLog_respects {table : AccountLinkTable} {key eventType : String}
    {payload : String → AuditPayload} {accountId : Option String} :
    (Routes.linkAndLog table key eventType payload accountId).Respects Alike := by
  unfold Routes.linkAndLog
  split
  · exact .bind (await_respects trivial) fun _ => await_respects trivial
  · trivial

theorem redeem_respects {from_ to_ : AccountLinkTable} {key : String} {o : CoreOp} :
    (Routes.redeem from_ key o to_).Respects Alike := by
  refine .bind (await_respects trivial) fun _ => .bind (await_respects trivial) fun _ =>
    .bind ?_ fun _ => trivial
  unfold Routes.linkIf
  split
  · exact await_respects trivial
  · trivial

theorem authenticated_respects {request : Request} :
    (Routes.authenticated cfg request).Respects Alike := by
  unfold Routes.authenticated
  split
  · exact guard_respects resolveAccountOrAdmin_uses
  · exact .bind requireAdmin_respects fun _ => trivial

/-- The credentials that are shown do not depend on the order in which they are listed. -/
theorem ownedSummaries_respects {result : List VcSummary} {accountId : Option String} :
    (Routes.ownedSummaries result accountId).Respects Alike := by
  unfold Routes.ownedSummaries
  split
  · trivial
  · refine ⟨fun keys keys' hkeys => ?_, fun _ => trivial⟩
    have hperm : List.Perm (α := String) keys keys' := hkeys
    exact congrArg Prog.pure (List.filter_congr fun _ _ => hperm.contains_eq)

theorem isLinkedTo_respects {table : AccountLinkTable} {key : Option String} {accountId : String} :
    (Routes.isLinkedTo table key accountId).Respects Alike := by
  unfold Routes.isLinkedTo
  split
  · trivial
  · exact .bind (await_respects trivial) fun _ => trivial

theorem scopeRecords_respects {accountId : String} {records : List AuditLogRow} :
    (Routes.scopeRecords accountId records).Respects Alike := by
  induction records with
  | nil => trivial
  | cons record records ih =>
    refine .bind ?_ fun _ => .bind ih fun _ => trivial
    unfold Routes.isAttributed
    split
    · trivial
    · refine .bind isLinkedTo_respects fun linked => ?_
      split
      · trivial
      · exact isLinkedTo_respects

theorem ingest_respects {route : IngestRoute} {request : Request} {body : Json} :
    (Routes.ingest cfg route request body).Respects Alike := by
  refine .bind requireAdmin_respects fun _ => ?_
  split
  · trivial
  · split
    · trivial
    · refine .bind ?_ fun _ => .bind (await_respects trivial) fun _ => trivial
      unfold Routes.entryTimestamp
      split
      · trivial
      · exact .bind (await_respects trivial) fun _ => trivial

/-- **No request depends on the order of lists.** -/
theorem prog_respects (c : Call) : (c.prog cfg).Respects Alike := by
  have hreply : ∀ {β : Type} {p : Promise β} {f : β → Reply}, p.Respects Alike →
      (p >>= fun b => pure (f b)).Respects Alike := fun hp => .bind hp fun _ => trivial
  have hauth : ∀ {β : Type} {p : Promise β} {f : β → Reply}, p.Uses AuthCall (fun _ => True) →
      (p >>= fun b => pure (f b)).Respects Alike := fun hp => hreply (auth_respects hp)
  cases c with
  | register input => exact hauth register_uses
  | login input => exact hauth login_uses
  | loginWithGoogle profile => exact hauth loginWithGoogle_uses
  | refresh refreshToken => exact hauth (uses_auth_of_session refresh_uses)
  | logout refreshToken => exact hauth (f := fun _ => .done) (uses_auth_of_session logout_uses)
  | verifyEmail token => exact hauth (uses_auth_of_account (uses_account_of_mail verifyEmail_uses))
  | resendVerificationEmail email =>
    exact hauth (f := fun _ => .done)
      (uses_auth_of_account (uses_account_of_mail resendVerificationEmail_uses))
  | issueVC request params =>
    refine hreply (.bind ?_ fun _ => .bind (await_respects trivial) fun _ =>
      .bind linkAndLog_respects fun _ => trivial)
    unfold Routes.issueVCCaller
    split
    · exact guard_respects resolveAccountOrAdmin_uses
    · exact .bind requireAdmin_respects fun _ => trivial
  | enrollmentTokens request body =>
    refine hreply (.bind ?_ fun _ => .bind (await_respects trivial) fun _ =>
      .bind linkAndLog_respects fun _ => trivial)
    unfold Routes.enrollmentTokensCaller
    split
    · exact guard_respects resolveAccountOrAdmin_uses
    · trivial
  | enroll requestId body => exact hreply redeem_respects
  | onboard requestId body => exact hreply redeem_respects
  | onboardVerify requestId body => exact hreply redeem_respects
  | listVCs request query =>
    refine hreply (.bind authenticated_respects fun _ => ?_)
    split
    · trivial
    · exact .bind (await_respects trivial) fun _ => ownedSummaries_respects
  | revokeVC request vcId =>
    refine hreply (.bind authenticated_respects fun _ => .bind ?_ fun _ => await_respects trivial)
    unfold Routes.assertOwner
    split
    · trivial
    · refine .bind (await_respects trivial) fun owner => ?_
      split <;> trivial
  | renewVC request vcId overrides =>
    exact hreply (.bind requireAdmin_respects fun _ => await_respects trivial)
  | ingest route request body => exact hreply ingest_respects
  | listAuditLog request query =>
    refine hreply (.bind authenticated_respects fun _ => ?_)
    split
    · trivial
    · refine .bind (await_respects trivial) fun _ => .bind ?_ fun _ => trivial
      unfold Routes.scopeRecordsFor
      split
      · trivial
      · exact scopeRecords_respects

end Programs

/-! ### The world of a backend -/

/-- The tables of a backend, and the rest of the world, whose own rows are not used. -/
structure DriverWorld (B : Backend) (core : Core) where
  accounts : B.accounts.State
  refreshTokens : B.RefreshTokens
  issuerKeys : B.IssuerKeys
  links : AccountLinkTable → B.links.State
  rest : World core

/-- A driver has answered, or has failed without effect on the rest. -/
def settle {α T : Type} (x : Option α × T) (put : T → DriverWorld B core) :
    Except HelixError α × DriverWorld B core :=
  match x.1 with
  | some a => (.ok a, let v := put x.2; { v with rest := v.rest.drawn 1 })
  | none => (.error .rejected, put x.2)

instance : DecidablePred AccountOp.DistinctKeys := fun o =>
  match o with
  | .update _ patch => inferInstanceAs (Decidable (patch.map AccountAssign.key).Nodup)
  | .create _ | .findById _ | .findByEmail _ | .findByGoogleId _
  | .findByEmailVerificationTokenHash _ => .isTrue trivial

variable (cfg) in
/-- The effect of a call on a backend. -/
def Backend.exec (B : Backend) :
    (o : Op) → DriverWorld B core → Except HelixError o.Res × DriverWorld B core
  | .accounts o, v =>
    -- a patch is an object, which has each key once
    if h : o.DistinctKeys then
      settle (B.accounts.exec ⟨o, v.rest.freshId cfg "acct", v.rest.now, h⟩ v.accounts)
        fun t => { v with accounts := t }
    else (.error .rejected, v)
  | .refreshTokens o, v =>
    settle (B.refreshTokens v.accounts ⟨o, v.rest.freshId cfg "rtk", v.rest.now⟩ v.refreshTokens)
      fun t => { v with refreshTokens := t }
  | .issuerKeys o, v =>
    settle (B.issuerKeys v.accounts ⟨o, v.rest.freshId cfg "ikr", v.rest.now⟩ v.issuerKeys)
      fun t => { v with issuerKeys := t }
  | .links table o, v =>
    let x := B.links.exec ⟨o, v.rest.now⟩ (v.links table)
    (.ok x.1, { v with links := Function.update v.links table x.2, rest := v.rest.drawn 1 })
  | o, v => let x := o.exec cfg v.rest; (x.1, { v with rest := x.2 })

/-- The server on a backend. -/
abbrev onBackend (cfg : Config) (core : Core) (B : Backend) : Backing (server cfg core) where
  World := DriverWorld B core
  exec := B.exec cfg
  env x v := (x.exec v.rest).map fun w => { v with rest := w }

/-- The world without its rows. -/
def bare (w : World core) : World core :=
  { w with accounts := [], refreshTokens := [], issuerKeys := [], vcAccountLinks := [],
           enrollmentTokenAccountLinks := [], challengeAccountLinks := [] }

variable {kind : StorageDriverKind} (H : Holding B kind)

/-- The backend holds the links of a table. -/
structure HoldsLinks (rows : List AccountLink) (t : B.links.State) : Prop where
  entries : rows.map (entry AccountLink.key AccountLink.accountId) = H.links t
  nodup : ((H.links t).map Prod.fst).Nodup

/-- The tables hold the rows of `w`, and the rest is the same. -/
structure Holds (v : DriverWorld B core) (w : World core) : Prop where
  accounts : H.accounts w.accounts v.accounts
  refreshTokens : H.refreshTokens w.refreshTokens v.refreshTokens
  issuerKeys : H.issuerKeys w.issuerKeys v.issuerKeys
  links : ∀ table, HoldsLinks H (w.links table) (v.links table)
  rest : bare w = bare v.rest

variable {H} {v v' : DriverWorld B core} {w w' : World core}

section Settle

variable {α ρ T : Type} {R : ρ → T → Prop} {x : Option α × T} {y : Except HelixError α × ρ} {r : ρ}
  {put : T → DriverWorld B core}

theorem Fits.ok (h : Fits R x y r) {a : α} (hx : settle x put = (.ok a, v')) :
    y.1 = .ok a ∧ R y.2 x.2 ∧ v' = { put x.2 with rest := (put x.2).rest.drawn 1 } := by
  unfold settle at hx
  unfold Fits at h
  split at hx
  · rename_i b hb
    cases hx
    rw [hb] at h
    exact ⟨h.1, h.2, rfl⟩
  · cases hx

theorem Fits.error (h : Fits R x y r) {e : HelixError} (hx : settle x put = (.error e, v')) :
    e = .rejected ∧ R r x.2 ∧ v' = put x.2 := by
  unfold settle at hx
  unfold Fits at h
  split at hx
  · cases hx
  · rename_i hnone
    cases hx
    rw [hnone] at h
    exact ⟨rfl, h, rfl⟩

end Settle

/-! ### The calls of a backend -/

/-- What the requests keep to: the patches that they write, and no shared ids and tokens. -/
structure Proper (w : World core) (o : Op) : Prop where
  patch : ∀ a patch, o = .accounts (.update a patch) → IsPatch patch
  ids : DistinctIds w
  tokens : DistinctTokens w

theorem Proper.distinctKeys {o : AccountOp} (h : Proper w (.accounts o)) : o.DistinctKeys := by
  cases o with
  | update a patch =>
    change (patch.map AccountAssign.key).Nodup
    cases h.patch a patch rfl <;> simp [tokenPatch, verifiedPatch, AccountAssign.key]
  | _ => trivial

/-- The patches of the server assign no column that the SQLite driver does not write. -/
theorem Proper.stored {o : AccountOp} (h : Proper w (.accounts o)) {id : String} {now : ℕ}
    {hkeys : o.DistinctKeys} : AccountCall.Stored w.accounts ⟨o, id, now, hkeys⟩ := by
  cases o with
  | update a patch =>
    intro r _ _
    have hpatch := h.patch a patch rfl
    constructor <;> intro v hv <;> exfalso <;>
      cases hpatch <;> simp [tokenPatch, verifiedPatch] at hv
  | _ => trivial

theorem Proper.oneHolder {o : AccountOp} (h : Proper w (.accounts o)) {id : String} {now : ℕ}
    {hkeys : o.DistinctKeys} : AccountCall.OneHolder w.accounts ⟨o, id, now, hkeys⟩ := by
  cases o with
  | findByEmailVerificationTokenHash tokenHash =>
    intro r hr r' hr' hhash hhash'
    exact List.inj_on_of_nodup_map h.ids hr hr' (h.tokens r hr r' hr' tokenHash hhash hhash')
  | _ => trivial

/-- The call is not one of the four repositories. -/
def Untabled : Op → Prop
  | .accounts _ | .refreshTokens _ | .issuerKeys _ | .links _ _ => False
  | _ => True

theorem exec_bare {o : Op} (ho : Untabled o) (h : bare w = bare w') :
    (o.exec cfg w).1 = (o.exec cfg w').1 ∧ bare (o.exec cfg w).2 = bare (o.exec cfg w').2 := by
  obtain ⟨⟩ := w
  obtain ⟨⟩ := w'
  simp only [bare, World.mk.injEq, true_and] at h
  obtain ⟨rfl, rfl, rfl, rfl, rfl, rfl, rfl⟩ := h
  cases o with
  | audit o => cases o <;> exact ⟨rfl, rfl⟩
  | dids o | sendMail o | core o | vcs o | runtime o => exact ⟨rfl, rfl⟩
  | _ => exact ho.elim

theorem Holds.clock (h : Holds H v w) : w.now = v.rest.now ∧ w.draws = v.rest.draws :=
  ⟨(congrArg World.now h.rest :), (congrArg World.draws h.rest :)⟩

theorem Holds.freshId (h : Holds H v w) (name : String) :
    v.rest.freshId cfg name = w.freshId cfg name := by
  rw [World.freshId, World.freshId, h.clock.2]

/-- A call of another part of the world has the same effect there. -/
theorem Holds.exec_rest (h : Holds H v w) {o : Op} {x : Except HelixError o.Res}
    (he : B.exec cfg o v = (x, v')) (ho : Untabled o) :
    ∃ w', o.exec cfg w = (x, w') ∧ Holds H v' w' := by
  have hbackend : B.exec cfg o v =
      ((o.exec cfg v.rest).1, { v with rest := (o.exec cfg v.rest).2 }) := by
    cases o <;> first | exact ho.elim | rfl
  obtain ⟨rfl, rfl⟩ := Prod.mk.inj (hbackend.symm.trans he)
  obtain ⟨hanswer, hbare⟩ := @exec_bare cfg core _ _ o ho h.rest
  have haccounts : (o.exec cfg w).2.accounts = w.accounts := by
    rw [Op.exec_accounts]
    cases o <;> first | exact ho.elim | rfl
  have htokens : (o.exec cfg w).2.refreshTokens = w.refreshTokens := by
    rw [Op.exec_refreshTokens]
    cases o <;> first | exact ho.elim | rfl
  have hkeys : (o.exec cfg w).2.issuerKeys = w.issuerKeys := by
    rw [Op.exec_issuerKeys]
    cases o <;> first | exact ho.elim | rfl
  have hlinks : ∀ table, (o.exec cfg w).2.links table = w.links table := by
    intro table
    rw [Op.exec_links]
    cases o <;> first | exact ho.elim | rfl
  refine ⟨(o.exec cfg w).2, Prod.ext hanswer rfl, ?_, ?_, ?_, fun table => ?_, hbare⟩
  · exact haccounts ▸ h.accounts
  · exact htokens ▸ h.refreshTokens
  · exact hkeys ▸ h.issuerKeys
  · exact (hlinks table).symm ▸ h.links table

theorem Holds.env_rest (h : Holds H v w) {x : EnvMove} {w₁ : World core}
    (he : x.exec v.rest = some w₁) :
    ∃ w', x.exec w = some w' ∧ Holds H { v with rest := w₁ } w' := by
  have hbare : ∃ w', x.exec w = some w' ∧ bare w' = bare w₁ := by
    have hrest := h.rest
    obtain ⟨⟩ := w
    obtain ⟨a, t, k, l, ⟨⟩⟩ := v
    simp only [bare, World.mk.injEq, true_and] at hrest
    obtain ⟨rfl, rfl, rfl, rfl, rfl, rfl, rfl⟩ := hrest
    cases x with
    | tick ms =>
      cases he
      exact ⟨_, rfl, rfl⟩
    | completeLog k timestamp =>
      simp only [EnvMove.exec] at he ⊢
      split at he
      · cases he
      · split_ifs at he with htime
        cases he
        rw [if_pos htime]
        exact ⟨_, rfl, rfl⟩
    | coreLog row =>
      simp only [EnvMove.exec] at he ⊢
      split_ifs at he with hrow
      cases he
      rw [if_pos hrow]
      exact ⟨_, rfl, rfl⟩
  obtain ⟨w', hexec, hbare⟩ := hbare
  refine ⟨w', hexec, ?_, ?_, ?_, fun table => ?_, hbare⟩
  · exact (EnvMove.exec_accounts hexec).symm ▸ h.accounts
  · exact (EnvMove.exec_refreshTokens hexec).symm ▸ h.refreshTokens
  · rw [EnvMove.exec_frame hexec]
    exact h.issuerKeys
  · exact (EnvMove.exec_links hexec table).symm ▸ h.links table

theorem HoldsLinks.exec {rows : List AccountLink} {t : B.links.State} (h : HoldsLinks H rows t)
    (table : AccountLinkTable) (o : AccountLinkOp) (now : ℕ) :
    Alike (.links table o) (B.links.exec ⟨o, now⟩ t).1 (linkRepository.exec ⟨o, now⟩ rows).1 ∧
      HoldsLinks H (linkRepository.exec ⟨o, now⟩ rows).2 (B.links.exec ⟨o, now⟩ t).2 := by
  have hread : (∀ key a, o ≠ .link key a) → (B.links.exec ⟨o, now⟩ t).2 = t := H.links_read now t
  let m : FirstWrite String String := ⟨H.links t, h.nodup⟩
  cases o with
  | link key a =>
    have hwrite := H.links_exec.link t key a now
    refine ⟨rfl, ?_, ?_⟩
    · exact (isFirstWrite_linkRepository.link rows key a now).trans (hwrite ▸ h.entries ▸ rfl)
    · rw [hwrite]
      exact FirstWrite.nodup_writeEntry h.nodup
  | getAccountId key =>
    rw [hread (by simp)]
    refine ⟨?_, h⟩
    exact (H.links_exec.getAccountId m t key now rfl).trans
      (isFirstWrite_linkRepository.getAccountId m rows key now h.entries).symm
  | listKeysForAccount a =>
    rw [hread (by simp)]
    refine ⟨?_, h⟩
    exact (H.links_exec.listKeysForAccount m t a now rfl).trans
      (isFirstWrite_linkRepository.listKeysForAccount m rows a now h.entries).symm

/-- What the repositories of the model answer, the drivers answer. -/
theorem Holds.fits_accounts {H : Holding B cfg.storage} (h : Holds H v w) {o : AccountOp}
    (hg : Proper w (.accounts o)) {hkeys : o.DistinctKeys} :
    Fits H.accounts (B.accounts.exec ⟨o, v.rest.freshId cfg "acct", v.rest.now, hkeys⟩ v.accounts)
      (o.exec cfg.storage (w.freshId cfg "acct") w.now w.accounts) w.accounts := by
  rw [← h.freshId, h.clock.1]
  exact H.accounts_exec _ h.accounts hg.stored hg.oneHolder

theorem Holds.fits_refreshTokens {H : Holding B cfg.storage} (h : Holds H v w)
    (o : RefreshTokenOp) : Fits H.refreshTokens
      (B.refreshTokens v.accounts ⟨o, v.rest.freshId cfg "rtk", v.rest.now⟩ v.refreshTokens)
      (o.exec cfg.storage (w.freshId cfg "rtk") w.now w.refreshTokens) w.refreshTokens := by
  rw [← h.freshId, h.clock.1]
  exact H.refreshTokens_exec _ _ h.refreshTokens

theorem Holds.fits_issuerKeys {H : Holding B cfg.storage} (h : Holds H v w) (o : IssuerKeyOp) :
    Fits H.issuerKeys
      (B.issuerKeys v.accounts ⟨o, v.rest.freshId cfg "ikr", v.rest.now⟩ v.issuerKeys)
      (o.exec cfg.storage (w.freshId cfg "ikr") w.now w.issuerKeys) w.issuerKeys := by
  rw [← h.freshId, h.clock.1]
  exact H.issuerKeys_exec _ _ h.issuerKeys

theorem Holds.link (h : Holds H v w) (table : AccountLinkTable) (o : AccountLinkOp) :
    ∃ r', Alike (.links table o) (B.links.exec ⟨o, v.rest.now⟩ (v.links table)).1 r' ∧
      ((Op.links table o).exec cfg w).1 = .ok r' ∧
      Holds H { v with
          links := Function.update v.links table (B.links.exec ⟨o, v.rest.now⟩ (v.links table)).2
          rest := v.rest.drawn 1 } ((Op.links table o).exec cfg w).2 := by
  have hmodel : o.exec w.now (w.links table) =
      (.ok (linkRepository.exec ⟨o, v.rest.now⟩ (w.links table)).1,
        (linkRepository.exec ⟨o, v.rest.now⟩ (w.links table)).2) := by
    rw [h.clock.1]
    cases o <;> rfl
  obtain ⟨halike, hlinks⟩ := (h.links table).exec table o v.rest.now
  refine ⟨_, halike, congrArg Prod.fst hmodel, ?_, ?_, ?_, fun table' => ?_, ?_⟩
  · rw [Op.exec_accounts]
    exact h.accounts
  · rw [Op.exec_refreshTokens]
    exact h.refreshTokens
  · rw [Op.exec_issuerKeys]
    exact h.issuerKeys
  · rw [Op.exec_links]
    by_cases htable : table = table'
    · subst htable
      simp only [Function.update_self, hmodel]
      exact hlinks
    · simp only [Function.update_of_ne (Ne.symm htable), htable, if_false]
      exact h.links table'
  · have hrest := congrArg (World.drawn · 1) h.rest
    cases table <;> exact hrest

/-- **A backend represents the world of the server.** -/
theorem represents (H : Holding B cfg.storage) :
    (onBackend cfg core B).Represents (Holds H) Alike Proper where
  answer := by
    intro v w o r v' hw hg he
    have hrest := congrArg (World.drawn · 1) hw.rest
    cases o with
    | accounts o =>
      simp only [onBackend, Backend.exec, dif_pos hg.distinctKeys] at he
      obtain ⟨hy, hrows, rfl⟩ := (hw.fits_accounts hg).ok he
      exact ⟨r, _, rfl, Prod.ext hy rfl, hrows, hw.refreshTokens, hw.issuerKeys, hw.links, hrest⟩
    | refreshTokens o =>
      simp only [onBackend, Backend.exec] at he
      obtain ⟨hy, hrows, rfl⟩ := (hw.fits_refreshTokens o).ok he
      exact ⟨r, _, rfl, Prod.ext hy rfl, hw.accounts, hrows, hw.issuerKeys, hw.links, hrest⟩
    | issuerKeys o =>
      simp only [onBackend, Backend.exec] at he
      obtain ⟨hy, hrows, rfl⟩ := (hw.fits_issuerKeys o).ok he
      exact ⟨r, _, rfl, Prod.ext hy rfl, hw.accounts, hw.refreshTokens, hrows, hw.links, hrest⟩
    | links table o =>
      obtain ⟨r', halike, hexec, hholds⟩ := @Holds.link cfg core B _ H v w hw table o
      cases he
      exact ⟨r', _, halike, Prod.ext hexec rfl, hholds⟩
    | dids o | audit o | sendMail mail | core o | vcs o | runtime o =>
      obtain ⟨w', hexec, hholds⟩ := hw.exec_rest he trivial
      exact ⟨r, w', rfl, hexec, hholds⟩
  reject := by
    intro v w o e v' hw hg he
    cases o with
    | accounts o =>
      simp only [onBackend, Backend.exec, dif_pos hg.distinctKeys] at he
      obtain ⟨rfl, hrows, rfl⟩ := (hw.fits_accounts hg).error he
      exact .inr ⟨rfl, rfl, hrows, hw.refreshTokens, hw.issuerKeys, hw.links, hw.rest⟩
    | refreshTokens o =>
      simp only [onBackend, Backend.exec] at he
      obtain ⟨rfl, hrows, rfl⟩ := (hw.fits_refreshTokens o).error he
      exact .inr ⟨rfl, rfl, hw.accounts, hrows, hw.issuerKeys, hw.links, hw.rest⟩
    | issuerKeys o =>
      simp only [onBackend, Backend.exec] at he
      obtain ⟨rfl, hrows, rfl⟩ := (hw.fits_issuerKeys o).error he
      exact .inr ⟨rfl, rfl, hw.accounts, hw.refreshTokens, hrows, hw.links, hw.rest⟩
    | links table o => cases he
    | dids o | audit o | sendMail mail | core o | vcs o | runtime o =>
      -- the rest of the world rejects with an error of its own
      exact .inl (hw.exec_rest he trivial)
  env := by
    intro v w x v' hw he
    obtain ⟨w₁, hexec, rfl⟩ := Option.map_eq_some_iff.1 he
    exact hw.env_rest hexec

/-! ### Runs -/

/-- The account ids and the verification tokens that a call writes are new. -/
def NewHashes (cfg : Config) (w : World core) (o : Op) : Prop :=
  FreshAccountId cfg w o ∧
    ∀ h ∈ tokenHash o, ∀ r ∈ w.accounts, r.emailVerificationTokenHash ≠ some h

variable {P : World core → Op → Prop} {s : Sys (onBackend cfg core B).machine}

theorem fresh_of_stepwise (hP : ∀ w o, P w o → NewHashes cfg w o) {s : State cfg core}
    {l : Label (server cfg core)} (hl : Stepwise P s l) : Fresh s l := by
  cases l with
  | step i => exact ⟨fun o ho => (hP _ o (hl o ho)).1, fun o ho => (hP _ o (hl o ho)).2⟩
  | _ => exact ⟨trivial, trivial⟩

theorem distinctTokens_of_run (hP : ∀ w o, P w o → NewHashes cfg w o) {w₀ : World core}
    (hids : DistinctIds w₀) (htokens : DistinctTokens w₀) {s : State cfg core}
    (h : Run (Stepwise P) (Sys.init w₀) s) : DistinctTokens s.world := by
  refine h.invariant (I := fun s => DistinctTokens s.world) htokens fun s l _ hr ih hl hst => ?_
  have hd := distinctIds_of_run (fun _ _ hl => (fresh_of_stepwise hP hl).1) hids hr
  exact distinctTokens_of_step (verification_kept.obeyed hr) hd ih (fresh_of_stepwise hP hl) hst

theorem exists_run_of_holding (H : Holding B cfg.storage) (hP : ∀ w o, P w o → NewHashes cfg w o)
    {v₀ : DriverWorld B core} {w₀ : World core} (h₀ : Holds H v₀ w₀) (hids : DistinctIds w₀)
    (htokens : DistinctTokens w₀)
    (h : Run (Stepwise ((onBackend cfg core B).Under (Holds H) P)) (Sys.init v₀) s) :
    ∃ s' : State cfg core, Run (Stepwise P) (Sys.init w₀) s' ∧
      (onBackend cfg core B).Sim (Holds H) Alike s s' := by
  refine Backing.sim_of_run (represents H) prog_respects ?_ h₀ h
  intro s' hr t ht o k hp _
  obtain ⟨i, hi⟩ := List.mem_iff_getElem?.1 ht
  refine ⟨?_, ?_, distinctTokens_of_run hP hids htokens hr⟩
  · rintro a patch rfl
    exact verification_kept.allowed_of_run hr hi hp
  · exact distinctIds_of_run (fun _ _ hl => (fresh_of_stepwise hP hl).1) hids hr

/-- **The server on any storage is the server.**  Over the maps of the process, an SQLite file or a
Postgres database, whatever SQL leaves open, every run is one of the server on lists of rows, under
the same condition, with the same requests, calls and replies, and the rows that the tables hold. -/
theorem run_of_storage (E : Engines) (hP : ∀ w o, P w o → NewHashes cfg w o)
    {v₀ : DriverWorld (backend E cfg.storage) core} {w₀ : World core}
    (h₀ : Holds (holding E cfg.storage) v₀ w₀) (hids : DistinctIds w₀) (htokens : DistinctTokens w₀)
    {s : Sys (onBackend cfg core (backend E cfg.storage)).machine}
    (h : Run (Stepwise ((onBackend cfg core (backend E cfg.storage)).Under
      (Holds (holding E cfg.storage)) P)) (Sys.init v₀) s) :
    ∃ s' : State cfg core, Run (Stepwise P) (Sys.init w₀) s' ∧
      (onBackend cfg core (backend E cfg.storage)).Sim (Holds (holding E cfg.storage)) Alike s s' :=
  exists_run_of_holding (holding E cfg.storage) hP h₀ hids htokens h

/-! ### A sign-in on an SQLite file -/

/-- Engines that answer the row inserted first, and list the newest first. -/
def Engines.sample : Engines where
  dates := .unary
  sqliteAccounts := .oldest
  sqliteTokens := .oldest
  sqliteKeys := .oldest
  sqliteLinks := .oldest
  sqliteListing := ⟨List.reverse, List.reverse_perm⟩
  accounts := .oldest
  refreshTokens := .oldest
  issuerKeys := .oldest
  links := .oldest
  listing := ⟨List.reverse, List.reverse_perm⟩

/-- An empty SQLite file. -/
def emptyFile : DriverWorld (sqliteBackend .sample) Core.sample :=
  ⟨([] : List SqliteAccountRow), ([] : List SqliteRefreshTokenRow), ([] : List SqliteIssuerKeyRow),
    fun _ => ([] : List SqliteAccountLinkRow), .sample⟩

theorem holds_emptyFile : Holds (sqliteHolding .sample) emptyFile World.sample := by
  refine ⟨⟨rfl, ?_⟩, ⟨rfl, .nil⟩, ⟨rfl, .nil⟩, fun table => ?_, rfl⟩
  · intro r hr
    cases hr
  · cases table <;> exact ⟨rfl, .nil⟩

/-- The rows of two tables of the file. -/
def fileAccounts (v : DriverWorld (sqliteBackend .sample) Core.sample) : List SqliteAccountRow :=
  v.accounts

def fileTokens (v : DriverWorld (sqliteBackend .sample) Core.sample) : List SqliteRefreshTokenRow :=
  v.refreshTokens

/-- The verification token that a call writes is not in the file. -/
def newInFile (v : DriverWorld (sqliteBackend .sample) Core.sample) (o : Op) : Bool :=
  (tokenHash o).all fun h => (fileAccounts v).all fun row =>
    row.emailVerificationTokenHash != some h

theorem newHashes_of_newInFile {v : DriverWorld (sqliteBackend .sample) Core.sample} {o : Op}
    (h : newInFile v o = true) (w : World Core.sample) (hw : Holds (sqliteHolding .sample) v w) :
    NewHashes Config.sample w o := by
  refine ⟨freshAccountId_of_unique rfl w o, fun hash hhash r hr => ?_⟩
  have hrows : fileAccounts v = w.accounts.map (sqliteAccountRow DateText.unary) := hw.accounts.1
  have hnew := List.all_eq_true.1 (Option.all_eq_true _ _ |>.1 h hash hhash)
    _ (hrows ▸ List.mem_map_of_mem hr)
  exact bne_iff_ne.1 hnew

/-- The sample server on an SQLite file. -/
abbrev onFile : Backing (server Config.sample Core.sample) := onBackend _ _ (sqliteBackend .sample)

/-- A sign-in on an empty SQLite file, and the run of the server that it is. -/
theorem run_of_storage_file : ∃ s : Sys onFile.machine, (fileTokens s.world).length = 1 ∧
    ∃ s' : State Config.sample Core.sample,
      Run (Stepwise (NewHashes Config.sample)) (Sys.init World.sample) s' ∧
      onFile.Sim (Holds (sqliteHolding .sample)) Alike s s' := by
  obtain ⟨s, h, hone⟩ := exists_run_of_replay (M := onFile.machine)
    (C := Stepwise fun v o => newInFile v o = true) (s := Sys.init emptyFile)
    (.start (.loginWithGoogle ⟨"g", "a@b.c", true⟩) :: List.replicate 17 (.step 0))
    (fun s => (fileTokens s.world).length == 1) (by decide)
  have hids : DistinctIds (World.sample : World Core.sample) := .nil
  have htokens : DistinctTokens (World.sample : World Core.sample) := by
    intro r hr
    cases hr
  refine ⟨s, eq_of_beq hone, @run_of_storage Config.sample Core.sample
    (NewHashes Config.sample) .sample
    (fun _ _ h => h) emptyFile World.sample holds_emptyFile hids htokens s ?_⟩
  refine h.mono fun s l hl => ?_
  cases l with
  | step i => exact fun o ho => newHashes_of_newInFile (hl o ho)
  | _ => trivial

end Drivers

end HelixServer
