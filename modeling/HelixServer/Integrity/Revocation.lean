import HelixServer.Integrity.Growth

/-!
# Who ends a session

A refresh token is revoked by a rotation, by a logout, or by the detection of reuse, and each of
them presents a token of the same account: no request ends a session of an account of which it has
never held a token (`revoked_of_run`).
-/

namespace HelixServer

namespace Integrity

open Async

variable {cfg : Config} {core : Core} {w₀ w : World core} {s s' : State cfg core}
  {l : Label (server cfg core)} {t : Task (server cfg core)} {a : String} {o : Op}
  {C : Discipline (server cfg core)} {record : RefreshTokenRecord}

/-- The refresh token that a request presents. -/
def presents : Call → Option String
  | .refresh refreshToken | .logout refreshToken => some refreshToken
  | _ => none

/-- A request has presented a refresh token of the account. -/
def Holder (s : State cfg core) (a : String) : Prop :=
  ∃ t ∈ s.tasks, ∃ refreshToken, presents t.call = some refreshToken ∧
    ∃ r ∈ s.world.refreshTokens, r.tokenHash = hashRefreshToken cfg.runtime refreshToken ∧
      r.accountId = a

/-- No two refresh tokens share an id. -/
abbrev DistinctTokenIds (w : World core) : Prop := (w.refreshTokens.map (·.id)).Nodup

/-- A call with new draws keeps the ids of the refresh tokens distinct. -/
theorem DistinctTokenIds.exec (hd : DistinctTokenIds w) (hf : FreshToken cfg w o) :
    DistinctTokenIds (o.exec cfg w).2 := by
  unfold DistinctTokenIds
  rw [Op.exec_refreshTokens]
  cases o with
  | refreshTokens o =>
    dsimp only
    cases o with
    | create data =>
      cases hexec : RefreshTokenOp.exec cfg.storage (w.freshId cfg "rtk") w.now (.create data)
          w.refreshTokens with
      | mk x rows =>
        cases x with
        | error e =>
          obtain ⟨rfl, -⟩ := RefreshTokenOp.exec_error hexec
          exact hd
        | ok res =>
          obtain ⟨hfresh, rfl, rfl⟩ := RefreshTokens.create_ok hf hexec
          rw [List.map_append, List.nodup_append]
          refine ⟨hd, by simp, ?_⟩
          simp only [List.mem_map, List.map_cons, List.map_nil, List.mem_singleton]
          rintro _ ⟨r, hr, rfl⟩ _ rfl
          exact (hfresh r hr).1
    | findByTokenHash tokenHash => exact hd
    | revoke id link =>
      simp only [RefreshTokenOp.exec, RefreshTokens.revoke]
      rw [RefreshTokens.keeps_revokeRow.map_id]
      exact hd
    | revokeAllForAccount a =>
      simp only [RefreshTokenOp.exec, RefreshTokens.revokeAllForAccount]
      rw [RefreshTokens.keeps_burnRow.map_id]
      exact hd
  | _ => exact hd

theorem distinctTokenIds_of_run (hC : ∀ s l, C s l → NewRows s l) (hd : DistinctTokenIds w₀)
    (h : Run C (Sys.init w₀) s) : DistinctTokenIds s.world := by
  refine h.invariant (I := fun s => DistinctTokenIds s.world) hd fun s l s' _ ih hl hst => ?_
  have hnew := hC s l hl
  cases hst with
  | start c => exact ih
  | fail ht hp hf => exact ih
  | env he =>
    unfold DistinctTokenIds
    rw [EnvMove.exec_refreshTokens he]
    exact ih
  | @call i t o k r w ht hp he | @reject i t o k e w ht hp he =>
    have hexec := ih.exec (hnew o (Sys.nextCall_eq ht hp)).2
    rw [show Op.exec cfg o s.world = _ from he] at hexec
    exact hexec

theorem Presented.exists_event {c : Call} {es : List (Event (server cfg core))}
    (h : Presented cfg c es record) : ∃ refreshToken w, presents c = some refreshToken ∧
      ⟨.refreshTokens (.findByTokenHash (hashRefreshToken cfg.runtime refreshToken)),
        some record, w⟩ ∈
        es := by
  cases h with
  | refresh he => exact ⟨_, _, rfl, he⟩
  | logout he => exact ⟨_, _, rfl, he⟩

theorem exists_presented (hC : ∀ s l, C s l → NewRows s l) (hd : DistinctIds w₀)
    (hnamed : DidsNamed cfg w₀) (h : Run C (Sys.init w₀) s) (ht : t ∈ s.tasks)
    (hpresented : Presented cfg t.call t.done record) :
    ∃ refreshToken, presents t.call = some refreshToken ∧ ∃ r ∈ s.world.refreshTokens,
      r.tokenHash = hashRefreshToken cfg.runtime refreshToken ∧ KeptToken record r := by
  -- the look-up has found the row in a state of the run
  have hfound : ∀ {refreshToken : String} {w : World core},
      (⟨.refreshTokens (.findByTokenHash (hashRefreshToken cfg.runtime refreshToken)),
        some record, w⟩ :
        Event (server cfg core)) ∈ t.done → ∃ r ∈ s.world.refreshTokens,
          r.tokenHash = hashRefreshToken cfg.runtime refreshToken ∧ KeptToken record r := by
    intro refreshToken w he
    obtain ⟨⟨w', hexec⟩, s₁, h₁, h₂, hw⟩ := h.event rfl t ht _ he
    have hfind := congrArg Prod.fst (Op.exec_of_refreshTokens hexec)
    obtain ⟨hmem, hhash⟩ := RefreshTokens.findByTokenHash_some (Except.ok.inj hfind)
    have hlater := (later_of_run hC hd hnamed h₁ h₂).refreshTokens
    rw [hw] at hlater
    obtain ⟨r, hr, hkept⟩ := hlater.exists_mem hmem
    exact ⟨r, hr, hkept.tokenHash.trans hhash, hkept⟩
  obtain ⟨refreshToken, w, hpresents, he⟩ := hpresented.exists_event
  exact ⟨refreshToken, hpresents, hfound he⟩

theorem Holder.step (h : Holder s a) (hst : Step s l s')
    (hgrows : Store.Grows KeptToken s.world.refreshTokens s'.world.refreshTokens) :
    Holder s' a := by
  obtain ⟨t, ht, refreshToken, hpresents, r, hr, hhash, rfl⟩ := h
  obtain ⟨i, hi⟩ := List.mem_iff_getElem?.1 ht
  obtain ⟨t', ht', hcall, -, -⟩ := hst.getElem? hi
  obtain ⟨r', hr', hkept⟩ := hgrows.exists_mem hr
  exact ⟨t', List.mem_of_getElem? ht', refreshToken, hcall ▸ hpresents, r', hr',
    hkept.tokenHash.trans hhash, hkept.accountId⟩

theorem revoked_of_exec {r : RefreshTokenRecord} (hf : FreshToken cfg w o)
    (hr : r ∈ (o.exec cfg w).2.refreshTokens) (hrevoked : r.revokedAt.isSome = true) :
    (∃ r₀ ∈ w.refreshTokens, r₀.id = r.id ∧ r₀.accountId = r.accountId ∧
        r₀.revokedAt.isSome = true) ∨
      (∃ link, o = .refreshTokens (.revoke r.id link) ∧ ∃ r₀ ∈ w.refreshTokens, r₀.id = r.id ∧
        r₀.accountId = r.accountId) ∨
      o = .refreshTokens (.revokeAllForAccount r.accountId) := by
  rw [Op.exec_refreshTokens] at hr
  cases o with
  | refreshTokens o =>
    dsimp only at hr
    cases o with
    | create data =>
      cases hexec : RefreshTokenOp.exec cfg.storage (w.freshId cfg "rtk") w.now (.create data)
          w.refreshTokens with
      | mk x rows =>
        rw [hexec] at hr
        cases x with
        | error e =>
          obtain ⟨rfl, -⟩ := RefreshTokenOp.exec_error hexec
          exact .inl ⟨r, hr, rfl, rfl, hrevoked⟩
        | ok res =>
          obtain ⟨-, rfl, rfl⟩ := RefreshTokens.create_ok hf hexec
          rcases List.mem_append.1 hr with hr | hr
          · exact .inl ⟨r, hr, rfl, rfl, hrevoked⟩
          · -- a new token is not revoked
            obtain rfl := List.mem_singleton.1 hr
            cases hrevoked
    | findByTokenHash tokenHash => exact .inl ⟨r, hr, rfl, rfl, hrevoked⟩
    | revoke id link =>
      obtain ⟨r₀, hr₀, rfl⟩ := List.mem_map.1 hr
      by_cases hid : r₀.id = id
      · subst hid
        have hkept : KeptToken r₀ (RefreshTokens.revokeRow r₀.id link w.now r₀) :=
          keptToken_revokeRow
        rw [hkept.id]
        exact .inr (.inl ⟨link, rfl, r₀, hr₀, rfl, hkept.accountId.symm⟩)
      · rw [RefreshTokens.revokeRow_of_ne hid] at hrevoked ⊢
        exact .inl ⟨r₀, hr₀, rfl, rfl, hrevoked⟩
    | revokeAllForAccount a =>
      obtain ⟨r₀, hr₀, rfl⟩ := List.mem_map.1 hr
      have hkept : KeptToken r₀ (RefreshTokens.burnRow a w.now r₀) := keptToken_burnRow
      by_cases ha : r₀.accountId = a
      · rw [hkept.accountId, ha]
        exact .inr (.inr rfl)
      · have hsame : RefreshTokens.burnRow a w.now r₀ = r₀ := by simp [RefreshTokens.burnRow, ha]
        rw [hsame] at hrevoked ⊢
        exact .inl ⟨r₀, hr₀, rfl, rfl, hrevoked⟩
  | _ => exact .inl ⟨r, hr, rfl, rfl, hrevoked⟩

/-- **Only a holder of a token ends sessions of its account.**  In a run that draws new ids and
hashes, whatever is rejected, a refresh token that is revoked was so from the start, or some request
has presented a refresh token of the same account. -/
theorem revoked_of_run (hC : ∀ s l, C s l → NewRows s l) (hd : DistinctIds w₀)
    (hdt : DistinctTokenIds w₀) (hnamed : DidsNamed cfg w₀) (h : Run C (Sys.init w₀) s) :
    ∀ r ∈ s.world.refreshTokens, r.revokedAt.isSome = true →
      (∃ r₀ ∈ w₀.refreshTokens, r₀.id = r.id ∧ r₀.revokedAt.isSome = true) ∨
        Holder s r.accountId := by
  refine h.invariant (I := fun s => ∀ r ∈ s.world.refreshTokens, r.revokedAt.isSome = true →
      (∃ r₀ ∈ w₀.refreshTokens, r₀.id = r.id ∧ r₀.revokedAt.isSome = true) ∨ Holder s r.accountId)
    (fun r hr hrevoked => .inl ⟨r, hr, rfl, hrevoked⟩) fun s l s' hr ih hl hst => ?_
  have hgrows : Store.Grows KeptToken s.world.refreshTokens s'.world.refreshTokens :=
    (later_of_run hC hd hnamed hr (Lts.Run.single hl hst)).refreshTokens
  have hnew := hC s l hl
  -- a row that was revoked before the step
  have hold : ∀ {r r₀ : RefreshTokenRecord}, r₀ ∈ s.world.refreshTokens → r₀.id = r.id →
      r₀.accountId = r.accountId → r₀.revokedAt.isSome = true →
      (∃ r₀ ∈ w₀.refreshTokens, r₀.id = r.id ∧ r₀.revokedAt.isSome = true) ∨
        Holder s' r.accountId := by
    intro r r₀ hr₀ hid ha hrevoked
    rw [← hid, ← ha]
    exact (ih r₀ hr₀ hrevoked).imp_right fun hholder => hholder.step hst hgrows
  have hcall : ∀ {i : ℕ} {t : Task (server cfg core)} {o : Op} {k : o.Res → Promise Reply},
      l = .step i → s.tasks[i]? = some t → t.prog = .call o k →
      s'.world = (o.exec cfg s.world).2 → ∀ r ∈ s'.world.refreshTokens, r.revokedAt.isSome = true →
        (∃ r₀ ∈ w₀.refreshTokens, r₀.id = r.id ∧ r₀.revokedAt.isSome = true) ∨
          Holder s' r.accountId := by
    rintro i t o k rfl ht hp hw r hmem hrevoked
    rw [hw] at hmem
    have hallowed := causes_kept.allowed_of_run hr ht hp
    have htask := List.mem_of_getElem? ht
    -- a token that the request presents is of the account
    have hholder : ∀ {record : RefreshTokenRecord}, Presented cfg t.call t.done record →
        record.accountId = r.accountId → Holder s' r.accountId := by
      intro record hpresented ha
      obtain ⟨refreshToken, hpresents, r', hr', hhash, hkept⟩ :=
        exists_presented hC hd hnamed hr htask hpresented
      have hbefore : Holder s r.accountId :=
        ⟨t, htask, refreshToken, hpresents, r', hr', hhash, hkept.accountId.trans ha⟩
      exact hbefore.step hst hgrows
    rcases revoked_of_exec (hnew o (Sys.nextCall_eq ht hp)).2 hmem hrevoked with
      ⟨r₀, hr₀, hid, ha, hrevoked₀⟩ | ⟨link, rfl, r₀, hr₀, hid, ha⟩ | rfl
    · exact hold hr₀ hid ha hrevoked₀
    · obtain ⟨record, hpresented, hrecord⟩ := hallowed
      obtain ⟨refreshToken, -, r', hr', -, hkept⟩ :=
        exists_presented hC hd hnamed hr htask hpresented
      -- the row that is revoked is that of the token
      obtain rfl := List.inj_on_of_nodup_map (distinctTokenIds_of_run hC hdt hr) hr₀ hr'
        (hid.trans (hrecord.symm.trans hkept.id.symm))
      exact .inr (hholder hpresented (hkept.accountId.symm.trans ha))
    · obtain ⟨record, hpresented, ha⟩ := hallowed
      exact .inr (hholder hpresented ha)
  intro r hr' hrevoked
  cases hst with
  | start c => exact hold hr' rfl rfl hrevoked
  | fail ht hp hf => exact hold hr' rfl rfl hrevoked
  | env he =>
    have hsame := EnvMove.exec_refreshTokens he
    have hmem : r ∈ s.world.refreshTokens := by
      rw [← hsame]
      exact hr'
    exact hold hmem rfl rfl hrevoked
  | call ht hp he | reject ht hp he =>
    exact hcall rfl ht hp (congrArg Prod.snd he).symm r hr' hrevoked

/-- The token of a sign-in that has been rotated. -/
theorem revoked_of_run_rotation : ∃ s : State Config.sample Core.sample,
    Run NewRows (Sys.init .sample) s ∧
      ∃ r ∈ s.world.refreshTokens, r.revokedAt.isSome = true ∧ Holder s r.accountId := by
  have hd : DistinctIds (World.sample : World Core.sample) := .nil
  have hdt : DistinctTokenIds (World.sample : World Core.sample) := .nil
  have hnamed : DidsNamed Config.sample (World.sample : World Core.sample) := by
    intro r hr
    cases hr
  obtain ⟨s, h, hp⟩ := exists_run_of_replay (C := NewRows) (s := Sys.init World.sample)
    (sampleSignIn ++ .start (.refresh (sampleToken 12)) :: List.replicate 9 (.step 1))
    (fun s => s.world.refreshTokens.any (·.revokedAt.isSome)) (by decide)
  obtain ⟨r, hr, hrevoked⟩ := List.any_eq_true.1 hp
  refine ⟨s, h, r, hr, hrevoked, ?_⟩
  refine (revoked_of_run (fun _ _ h => h) hd hdt hnamed h r hr hrevoked).resolve_left ?_
  rintro ⟨_, hr₀, -⟩
  cases hr₀

end Integrity

end HelixServer
