import HelixServer.Async.Solo
import HelixServer.Sessions.Refinement

/-!
# A rotation whose storage or log call fails

`refresh` writes the successor, then revokes the old token, then logs, and only then hands the
successor out.  What a rejected call leaves behind depends on which one it is
(`failed_rotation`): a failed look-up or insert leaves the store as it was, a failed revocation
leaves a live successor that nobody holds, and a failed log write leaves the caller with a revoked
token whose next use burns the account (`failed_rotation_unusable`).

## Main definitions

* `FreshDraws` : the ids and hashes that the next draws make are new.
* `IsLive` : the store has a live, unexpired row for a token.
* `Renews`, `Burns` : what presenting the token again, alone, leads to.
* `Usable`, `Orphaned`, `Lost` : what a rejected call leaves behind.
-/

namespace HelixServer

open RefreshTokens Async

variable (cfg : Config) {core : Core}

/-- The id of the row that a `create` at the `k`-th next draw inserts. -/
def World.drawnId (w : World core) (k : ℕ) : String :=
  makeId "rtk" (cfg.runtime.mathRandom (w.draws + k))

/-- The hash of the refresh token that the `k`-th next draw generates. -/
def World.drawnHash (w : World core) (k : ℕ) : String :=
  hashRefreshToken cfg.runtime (opaqueToken "rft" (cfg.runtime.randomBytes (w.draws + k) 32))

/-- The row that `issueSession`, started in `w`, writes for an account. -/
def World.successor (w : World core) (accountId : String) : RefreshTokenRecord :=
  RefreshTokenCreateData.row
    ⟨accountId, w.drawnHash cfg 0, w.now + cfg.refreshTokenTtlDays * 24 * 60 * 60 * 1000⟩
    (w.drawnId cfg 2) w.now

/-- No row has the id or the hash of the row that `issueSession`, started in `w`, writes. -/
def World.FreshSuccessor (w : World core) : Prop :=
  ∀ r ∈ w.refreshTokens, r.id ≠ w.drawnId cfg 2 ∧ r.tokenHash ≠ w.drawnHash cfg 0

namespace Sessions

/-- The ids and hashes that the next `n` draws make are not in use, and all different. -/
structure FreshDraws (w : World core) (n : ℕ) : Prop where
  id : ∀ k < n, ∀ r ∈ w.refreshTokens, r.id ≠ w.drawnId cfg k
  tokenHash : ∀ k < n, ∀ r ∈ w.refreshTokens, r.tokenHash ≠ w.drawnHash cfg k
  idInj : ∀ k < n, ∀ l < n, w.drawnId cfg k = w.drawnId cfg l → k = l
  hashInj : ∀ k < n, ∀ l < n, w.drawnHash cfg k = w.drawnHash cfg l → k = l

instance (w : World core) (n : ℕ) : Decidable (FreshDraws cfg w n) :=
  decidable_of_iff ((∀ k < n, ∀ r ∈ w.refreshTokens, r.id ≠ w.drawnId cfg k) ∧
      (∀ k < n, ∀ r ∈ w.refreshTokens, r.tokenHash ≠ w.drawnHash cfg k) ∧
      (∀ k < n, ∀ l < n, w.drawnId cfg k = w.drawnId cfg l → k = l) ∧
      ∀ k < n, ∀ l < n, w.drawnHash cfg k = w.drawnHash cfg l → k = l)
    ⟨fun h => ⟨h.1, h.2.1, h.2.2.1, h.2.2.2⟩, fun h => ⟨h.id, h.tokenHash, h.idInj, h.hashInj⟩⟩

/-- The world after a rotation has written its successor. -/
def succeeded (cfg : Config) (w : World core) (accountId : String) : World core :=
  { w with refreshTokens := w.refreshTokens ++ [w.successor cfg accountId], draws := w.draws + 3 }

/-- The world after a rotation has revoked the old token. -/
def linked (cfg : Config) (w : World core) (accountId id : String) : World core :=
  { w with
    refreshTokens := revoke id (some (w.drawnId cfg 2)) w.now
      (w.refreshTokens ++ [w.successor cfg accountId])
    draws := w.draws + 4 }

variable {cfg} {w w' : World core} {accountId id : String} {o : Op}

theorem exec_create (hf : w.FreshSuccessor cfg) :
    (Op.refreshTokens (.create ⟨accountId, w.drawnHash cfg 0,
      w.now + cfg.refreshTokenTtlDays * 24 * 60 * 60 * 1000⟩)).exec cfg (w.drawn 2) =
      (.ok (w.successor cfg accountId), succeeded cfg w accountId) := by
  have hfresh : Fresh ⟨accountId, w.drawnHash cfg 0,
      w.now + cfg.refreshTokenTtlDays * 24 * 60 * 60 * 1000⟩ ((w.drawn 2).freshId cfg "rtk")
      (w.drawn 2).refreshTokens := hf
  simp only [Op.exec, Op.effect, RefreshTokenOp.exec]
  rw [create_of_fresh hfresh]
  rfl

/-- The tokens that `issueSession`, started in `w`, answers for a rotation. -/
def rotatedTokens (cfg : Config) (w : World core) (accountId : String) : AuthTokens where
  accessToken := encodeAccessToken cfg.runtime cfg.accessTokenSecret
    { accountId := accountId, scope := ["account"], iat := w.now / 1000
      exp := w.now / 1000 + cfg.accessTokenTtlSeconds
      jti := base64Url (cfg.runtime.randomBytes (w.draws + 5) 9) }
  refreshToken := opaqueToken "rft" (cfg.runtime.randomBytes w.draws 32)
  expiresIn := cfg.accessTokenTtlSeconds

/-- A rotation alone: the successor is appended, and the old token is revoked and linked to it. -/
theorem solo_issueSession (hf : w.FreshSuccessor cfg) :
    (server cfg core).solo 6 (AuthService.issueSession cfg accountId (some id)) w =
      some (.pure (rotatedTokens cfg w accountId), (linked cfg w accountId id).drawn 2) := by
  have hrandom : (Op.runtime (.randomBytes 32)).exec cfg w = (.ok _, w.drawn 1) := rfl
  have hnow : (Op.runtime .now).exec cfg (w.drawn 1) = (.ok w.now, w.drawn 2) := rfl
  have hlink : (Op.refreshTokens (.revoke id (some (w.drawnId cfg 2)))).exec cfg
    (succeeded cfg w accountId) = (.ok (), linked cfg w accountId id) := rfl
  have hnow' : (Op.runtime .now).exec cfg (linked cfg w accountId id) =
    (.ok w.now, (linked cfg w accountId id).drawn 1) := rfl
  have hrandom' : (Op.runtime (.randomBytes 9)).exec cfg ((linked cfg w accountId id).drawn 1) =
    (.ok _, (linked cfg w accountId id).drawn 2) := rfl
  refine (solo_ok hrandom).trans ?_
  refine (solo_ok hnow).trans ?_
  refine (solo_ok (exec_create hf)).trans ?_
  refine (solo_ok hlink).trans ?_
  refine (solo_ok hnow').trans ?_
  exact (solo_ok hrandom').trans solo_zero

theorem comes_issueSession (hf : w.FreshSuccessor cfg) (ho : o.fallible = true)
    (h : (server cfg core).Comes (AuthService.issueSession cfg accountId (some id)) w o w') :
    (∃ data, o = .refreshTokens (.create data) ∧ w' = w.drawn 2) ∨
      (o = .refreshTokens (.revoke id (some (w.drawnId cfg 2))) ∧
        w' = succeeded cfg w accountId) := by
  have hrandom : (Op.runtime (.randomBytes 32)).exec cfg w = (.ok _, w.drawn 1) := rfl
  have hnow : (Op.runtime .now).exec cfg (w.drawn 1) = (.ok w.now, w.drawn 2) := rfl
  have hlink : (Op.refreshTokens (.revoke id (some (w.drawnId cfg 2)))).exec cfg
    (succeeded cfg w accountId) = (.ok (), linked cfg w accountId id) := rfl
  have hnow' : (Op.runtime .now).exec cfg (linked cfg w accountId id) =
    (.ok w.now, (linked cfg w accountId id).drawn 1) := rfl
  have hrandom' : (Op.runtime (.randomBytes 9)).exec cfg ((linked cfg w accountId id).drawn 1) =
    (.ok _, (linked cfg w accountId id).drawn 2) := rfl
  rcases (comes_call hrandom).1 h with ⟨rfl, -⟩ | h
  · cases ho
  rcases (comes_call hnow).1 h with ⟨rfl, -⟩ | h
  · cases ho
  rcases (comes_call (exec_create hf)).1 h with ⟨rfl, rfl⟩ | h
  · exact .inl ⟨_, rfl, rfl⟩
  rcases (comes_call hlink).1 h with ⟨rfl, rfl⟩ | h
  · exact .inr ⟨rfl, rfl⟩
  rcases (comes_call hnow').1 h with ⟨rfl, -⟩ | h
  · cases ho
  rcases (comes_call hrandom').1 h with ⟨rfl, -⟩ | h
  · cases ho
  exact absurd h not_comes_pure

/-! ### The refresh of a live token -/

/-- The world has a live, unexpired row for the token. -/
structure IsLive (cfg : Config) (w : World core) (refreshToken : String) (t : RefreshTokenRecord) :
    Prop where
  found : findByTokenHash (hashRefreshToken cfg.runtime refreshToken) w.refreshTokens = some t
  live : t.revokedAt = none
  unexpired : w.now < t.expiresAt

/-- The live, unexpired row of the token. -/
def liveRow (cfg : Config) (w : World core) (refreshToken : String) : Option RefreshTokenRecord :=
  (findByTokenHash (hashRefreshToken cfg.runtime refreshToken) w.refreshTokens).filter fun t =>
    t.revokedAt.isNone && w.now < t.expiresAt

variable {refreshToken : String} {t : RefreshTokenRecord} {n : ℕ}

theorem isLive_iff : IsLive cfg w refreshToken t ↔ liveRow cfg w refreshToken = some t := by
  simp only [liveRow, Option.filter_eq_some_iff, Bool.and_eq_true, Option.isNone_iff_eq_none,
    decide_eq_true_eq]
  exact ⟨fun h => ⟨h.found, h.live, h.unexpired⟩, fun h => ⟨h.1, h.2.1, h.2.2⟩⟩

/-- The reply of a refresh. -/
def replying (p : Promise AuthTokens) : Promise Reply := p.bind fun tokens => .pure (.tokens tokens)

theorem prog_refresh : (Call.refresh refreshToken).prog cfg =
    .call (.refreshTokens (.findByTokenHash (hashRefreshToken cfg.runtime refreshToken)))
      fun found => replying (AuthService.refreshFound cfg found) := rfl

theorem refreshFound_live (ht : t.revokedAt = none) :
    replying (AuthService.refreshFound cfg (some t)) = dateNow.bind fun now =>
      replying (if t.expiresAt ≤ now then .raise .refreshTokenExpired
        else AuthService.rotate cfg t) := by
  have hlive : ¬ t.revokedAt.isSome = true := by simp [ht]
  rw [AuthService.refreshFound, if_neg hlive]
  rfl

theorem exec_find : (Op.refreshTokens (.findByTokenHash (hashRefreshToken cfg.runtime
    refreshToken))).exec cfg w = (.ok (findByTokenHash (hashRefreshToken cfg.runtime refreshToken)
      w.refreshTokens), w.drawn 1) := rfl

theorem solo_dateNow {f : ℕ → Promise Reply} : (server cfg core).solo (n + 1) (dateNow.bind f) w =
    (server cfg core).solo n (f w.now) (w.drawn 1) := rfl

theorem comes_dateNow {f : ℕ → Promise Reply} (ho : o.fallible = true)
    (h : (server cfg core).Comes (dateNow.bind f) w o w') :
    (server cfg core).Comes (f w.now) (w.drawn 1) o w' := by
  rcases (comes_call (M := server cfg core) (o := .runtime .now) rfl).1 h with ⟨rfl, -⟩ | h
  · cases ho
  · exact h

theorem solo_refresh (ht : IsLive cfg w refreshToken t) :
    (server cfg core).solo (n + 2) ((Call.refresh refreshToken).prog cfg) w =
      (server cfg core).solo n (replying (AuthService.rotate cfg t)) (w.drawn 2) := by
  have hexp : ¬ t.expiresAt ≤ (w.drawn 1).now := not_le.2 ht.unexpired
  rw [prog_refresh, solo_ok exec_find, ht.found, refreshFound_live ht.live, solo_dateNow,
    if_neg hexp]
  rfl

theorem comes_refresh (ht : IsLive cfg w refreshToken t) (ho : o.fallible = true)
    (h : (server cfg core).Comes ((Call.refresh refreshToken).prog cfg) w o w') :
    (o = .refreshTokens (.findByTokenHash (hashRefreshToken cfg.runtime refreshToken)) ∧ w' = w) ∨
      (server cfg core).Comes (replying (AuthService.rotate cfg t)) (w.drawn 2) o w' := by
  have hexp : ¬ t.expiresAt ≤ (w.drawn 1).now := not_le.2 ht.unexpired
  rw [prog_refresh, comes_call exec_find, ht.found, refreshFound_live ht.live] at h
  refine h.imp_right fun h => ?_
  have hrotate := comes_dateNow ho h
  rwa [if_neg hexp] at hrotate

/-- The log write that ends a rotation of `t`. -/
def rotatedLog (t : RefreshTokenRecord) : Op :=
  .audit (.log "REFRESH_TOKEN_ROTATED"
    (accountFields t.accountId ++ [("previousTokenId", .str t.id)]))

theorem replying_rotate : replying (AuthService.rotate cfg t) =
    (AuthService.issueSession cfg t.accountId (some t.id)).bind fun tokens =>
      (await (rotatedLog t)).bind fun _ => .pure (.tokens tokens) := by
  simp only [replying, AuthService.rotate, Prog.bind_def, Prog.bind_assoc]
  rfl

theorem solo_rotate (hf : w.FreshSuccessor cfg) :
    ∃ w', (server cfg core).solo 7 (replying (AuthService.rotate cfg t)) w =
      some (.pure (.tokens (rotatedTokens cfg w t.accountId)), w') := by
  rw [replying_rotate]
  exact ⟨_, (solo_bind (m := 1) (solo_issueSession hf)).trans rfl⟩

theorem comes_rotate (hf : w.FreshSuccessor cfg) (ho : o.fallible = true)
    (h : (server cfg core).Comes (replying (AuthService.rotate cfg t)) w o w') :
    (∃ data, o = .refreshTokens (.create data) ∧ w' = w.drawn 2) ∨
      (o = .refreshTokens (.revoke t.id (some (w.drawnId cfg 2))) ∧
        w' = succeeded cfg w t.accountId) ∨
      (o = rotatedLog t ∧ w' = (linked cfg w t.accountId t.id).drawn 2) := by
  rw [replying_rotate, comes_bind (solo_issueSession hf)] at h
  rcases h with h | h
  · exact (comes_issueSession hf ho h).imp_right .inl
  · rcases (comes_call (M := server cfg core) (o := rotatedLog t) rfl).1 h with h | h
    · exact .inr (.inr h)
    · exact absurd h not_comes_pure

theorem solo_refresh_revoked
    (hfind : findByTokenHash (hashRefreshToken cfg.runtime refreshToken) w.refreshTokens = some t)
    (hrev : t.revokedAt ≠ none) :
    ∃ w', (server cfg core).solo 3 ((Call.refresh refreshToken).prog cfg) w =
        some (.raise .refreshTokenReuseDetected, w') ∧
      w'.refreshTokens = revokeAllForAccount t.accountId w.now w.refreshTokens := by
  have hsome : t.revokedAt.isSome = true := Option.isSome_iff_ne_none.2 hrev
  have hburn : replying (AuthService.refreshFound cfg (some t)) =
      replying (AuthService.burn t) := by
    rw [AuthService.refreshFound, if_pos hsome]
  rw [prog_refresh, solo_ok exec_find, hfind, hburn]
  exact ⟨_, rfl, rfl⟩

/-! ### The draws of two attempts -/

section Draws

variable {k l : ℕ}

theorem FreshDraws.mono (h : FreshDraws cfg w k) (hl : l ≤ k) : FreshDraws cfg w l :=
  ⟨fun i hi => h.id i (by omega), fun i hi => h.tokenHash i (by omega),
    fun i hi j hj => h.idInj i (by omega) j (by omega),
    fun i hi j hj => h.hashInj i (by omega) j (by omega)⟩

theorem FreshDraws.drawn (h : FreshDraws cfg w (k + l)) : FreshDraws cfg (w.drawn k) l := by
  have hid : ∀ i, (w.drawn k).drawnId cfg i = w.drawnId cfg (k + i) := fun i => by
    simp [World.drawnId, World.drawn, Nat.add_assoc]
  have hhash : ∀ i, (w.drawn k).drawnHash cfg i = w.drawnHash cfg (k + i) := fun i => by
    simp [World.drawnHash, World.drawn, Nat.add_assoc]
  refine ⟨fun i hi r hr => ?_, fun i hi r hr => ?_, fun i hi j hj he => ?_, fun i hi j hj he => ?_⟩
  · rw [hid]; exact h.id _ (by omega) r hr
  · rw [hhash]; exact h.tokenHash _ (by omega) r hr
  · rw [hid, hid] at he
    have := h.idInj _ (by omega) _ (by omega) he
    omega
  · rw [hhash, hhash] at he
    have := h.hashInj _ (by omega) _ (by omega) he
    omega

theorem FreshDraws.successor (h : FreshDraws cfg w (3 + l)) : w.FreshSuccessor cfg :=
  fun r hr => ⟨h.id 2 (by omega) r hr, h.tokenHash 0 (by omega) r hr⟩

theorem FreshDraws.succeeded (h : FreshDraws cfg w (3 + l)) :
    FreshDraws cfg (succeeded cfg w accountId) l := by
  have hd : FreshDraws cfg (w.drawn 3) l := h.drawn
  refine ⟨fun i hi r hr => ?_, fun i hi r hr => ?_, hd.idInj, hd.hashInj⟩
  all_goals
    rcases List.mem_append.1 hr with hr | hr
    swap
    obtain rfl := List.mem_singleton.1 hr
  · -- the successor's id is an earlier draw
    intro he
    have := h.idInj 2 (by omega) (3 + i) (by omega)
      (he.trans (by simp [World.drawnId, Sessions.succeeded, Nat.add_assoc]))
    omega
  · exact hd.id i hi r hr
  · intro he
    have := h.hashInj 0 (by omega) (3 + i) (by omega)
      (he.trans (by simp [World.drawnHash, Sessions.succeeded, Nat.add_assoc]))
    omega
  · exact hd.tokenHash i hi r hr

end Draws

/-! ### Presenting the token again -/

section System

variable {s s' : State cfg core}

/-- A refresh with the token, made alone in `s`, is given new tokens. -/
def Renews (s : State cfg core) (refreshToken : String) : Prop :=
  ∃ s₁, s.alone (.refresh refreshToken) 9 = some s₁ ∧ Accepted s₁ s.tasks.length refreshToken

/-- A refresh with the token, made alone in `s`, is taken for a reuse, and leaves no live token of
the account. -/
def Burns (s : State cfg core) (refreshToken accountId : String) : Prop :=
  ∃ s₁, s.alone (.refresh refreshToken) 3 = some s₁ ∧ Reused s₁ s.tasks.length refreshToken ∧
    ∀ r ∈ s₁.world.refreshTokens, r.accountId = accountId → r.revokedAt ≠ none

theorem renews_of_live (ht : IsLive cfg s.world refreshToken t) (hf : FreshDraws cfg s.world 5) :
    Renews s refreshToken := by
  have hsuccessor : (s.world.drawn 2).FreshSuccessor cfg := FreshDraws.successor (l := 0) hf.drawn
  obtain ⟨w', hsolo⟩ := solo_rotate (t := t) hsuccessor
  obtain ⟨task, halone, hp, hc⟩ := exists_alone (s := s) (c := .refresh refreshToken)
    ((solo_refresh ht).trans hsolo)
  exact ⟨_, halone, task, getElem?_last, hc, _, hp⟩

theorem burns_of_revoked
    (hfind : findByTokenHash (hashRefreshToken cfg.runtime refreshToken) s.world.refreshTokens =
      some t) (hrev : t.revokedAt ≠ none) : Burns s refreshToken t.accountId := by
  obtain ⟨w', hsolo, hrows⟩ := @solo_refresh_revoked cfg core _ _ _ hfind hrev
  obtain ⟨task, halone, hp, hc⟩ := exists_alone (s := s) (c := .refresh refreshToken) hsolo
  refine ⟨_, halone, ⟨task, getElem?_last, hc, hp⟩, ?_⟩
  rw [hrows]
  intro r hr hacc
  obtain ⟨r₀, -, rfl⟩ := List.mem_map.1 hr
  rw [keeps_burnRow.accountId] at hacc
  exact burnRow_revokedAt hacc

/-! ### After the failure -/

/-- The holder of the token can go on with it, and no token has become live. -/
structure Usable (s s' : State cfg core) (refreshToken : String) (t : RefreshTokenRecord) :
    Prop where
  live : IsLive cfg s'.world refreshToken t
  noMore : ∀ r ∈ s'.world.refreshTokens, r.accountId = t.accountId → r.revokedAt = none →
    r ∈ s.world.refreshTokens
  renews : Renews s' refreshToken

/-- The holder of the token can go on with it, and one more token of the account is live. -/
structure Orphaned (s s' : State cfg core) (refreshToken : String) (t : RefreshTokenRecord) :
    Prop where
  live : IsLive cfg s'.world refreshToken t
  orphan : ∃ n, s'.world.refreshTokens = s.world.refreshTokens ++ [n] ∧
    n.accountId = t.accountId ∧ n.revokedAt = none
  renews : Renews s' refreshToken

/-- The token is revoked and linked to a new live token, and presenting it burns the account. -/
structure Lost (s s' : State cfg core) (refreshToken : String) (t : RefreshTokenRecord) :
    Prop where
  replaced : ∃ n now, s'.world.refreshTokens =
      revoke t.id (some n.id) now (s.world.refreshTokens ++ [n]) ∧
    n ∈ s'.world.refreshTokens ∧ n.accountId = t.accountId ∧ n.revokedAt = none
  revoked : ∃ t', findByTokenHash (hashRefreshToken cfg.runtime refreshToken)
      s'.world.refreshTokens = some t' ∧ t'.id = t.id ∧ t'.revokedAt ≠ none
  burns : Burns s' refreshToken t.accountId

/-- What the rejection of the call `o` in a rotation leaves. -/
def AfterFailure (s s' : State cfg core) (refreshToken : String) (t : RefreshTokenRecord) :
    Op → Prop
  | .refreshTokens (.findByTokenHash _) | .refreshTokens (.create _) => Usable s s' refreshToken t
  | .refreshTokens (.revoke _ _) => Orphaned s s' refreshToken t
  | .audit (.log _ _) => Lost s s' refreshToken t
  | _ => False

theorem usable_of_rows (ht : IsLive cfg s.world refreshToken t)
    (hrows : s'.world.refreshTokens = s.world.refreshTokens) (hnow : s'.world.now = s.world.now)
    (hf : FreshDraws cfg s'.world 5) : Usable s s' refreshToken t := by
  have hlive : IsLive cfg s'.world refreshToken t :=
    ⟨by rw [hrows]; exact ht.found, ht.live, by rw [hnow]; exact ht.unexpired⟩
  exact ⟨hlive, fun r hr _ _ => hrows ▸ hr, renews_of_live hlive hf⟩

theorem orphaned_of_succeeded (ht : IsLive cfg s.world refreshToken t)
    (hf : FreshDraws cfg (s.world.drawn 2) 8)
    (hw : s'.world = succeeded cfg (s.world.drawn 2) t.accountId) :
    Orphaned s s' refreshToken t := by
  have hlive : IsLive cfg s'.world refreshToken t := by
    rw [hw]
    exact ⟨findByTokenHash_append ht.found _, ht.live, ht.unexpired⟩
  refine ⟨hlive, ⟨(s.world.drawn 2).successor cfg t.accountId, by rw [hw]; rfl, rfl, rfl⟩,
    renews_of_live hlive ?_⟩
  rw [hw]
  exact FreshDraws.succeeded hf

theorem lost_of_linked (ht : IsLive cfg s.world refreshToken t)
    (hf : (s.world.drawn 2).FreshSuccessor cfg)
    (hw : s'.world = (linked cfg (s.world.drawn 2) t.accountId t.id).drawn 2) :
    Lost s s' refreshToken t := by
  have hrows : s'.world.refreshTokens = revoke t.id (some ((s.world.drawn 2).drawnId cfg 2))
      s.world.now (s.world.refreshTokens ++ [(s.world.drawn 2).successor cfg t.accountId]) := by
    rw [hw]; rfl
  have hfind : findByTokenHash (hashRefreshToken cfg.runtime refreshToken) s'.world.refreshTokens =
      some (revokeRow t.id (some ((s.world.drawn 2).drawnId cfg 2)) s.world.now t) := by
    rw [hrows, revoke, keeps_revokeRow.findByTokenHash, findByTokenHash_append ht.found]
    rfl
  have hne : ((s.world.drawn 2).successor cfg t.accountId).id ≠ t.id :=
    fun he => (hf t (findByTokenHash_some ht.found).1).1 he.symm
  refine ⟨⟨(s.world.drawn 2).successor cfg t.accountId, _, hrows, ?_, rfl, rfl⟩,
    ⟨_, hfind, keeps_revokeRow.id t, revokeRow_revokedAt rfl⟩, ?_⟩
  · rw [hrows]
    exact List.mem_map.2 ⟨_, List.mem_concat_self,
      revokeRow_of_ne hne⟩
  · have hburns := burns_of_revoked hfind (revokeRow_revokedAt rfl)
    rwa [keeps_revokeRow.accountId] at hburns

/-- **A failed rotation.**  A refresh with a live token, alone in any state of the server, has one
of its calls rejected.  It ends with the rejection, and what it leaves depends on the call: a
failed look-up or insert leaves the token usable, a failed revocation leaves an orphaned successor,
and a failed log write loses the session. -/
theorem failed_rotation (ht : IsLive cfg s.world refreshToken t) (hf : FreshDraws cfg s.world 10)
    (h : s.Fails (.refresh refreshToken) o s') :
    Served s' s.tasks.length (· = .refresh refreshToken) (· = .raise .rejected) ∧
      AfterFailure s s' refreshToken t o := by
  obtain ⟨ho, w, task, hcomes, rfl, hc, hp⟩ := h.comes
  refine ⟨⟨task, getElem?_last, hc, hp⟩, ?_⟩
  have hf₂ : FreshDraws cfg (s.world.drawn 2) 8 := FreshDraws.drawn hf
  have hsuccessor : (s.world.drawn 2).FreshSuccessor cfg := FreshDraws.successor (l := 5) hf₂
  rcases comes_refresh ht ho hcomes with ⟨rfl, rfl⟩ | hcomes
  · exact usable_of_rows ht rfl rfl (hf.mono (by omega))
  rcases comes_rotate hsuccessor ho hcomes with ⟨data, rfl, rfl⟩ | ⟨rfl, rfl⟩ | ⟨rfl, rfl⟩
  · exact usable_of_rows ht rfl rfl ((FreshDraws.drawn (l := 6) hf₂).mono (by omega))
  · exact orphaned_of_succeeded ht hf₂ rfl
  · exact lost_of_linked ht hsuccessor rfl

end System

/-- A sign-in, after which the last call of a refresh can be rejected. -/
theorem failed_rotation_log : ∃ (s s' : State Config.sample Core.sample) (t : RefreshTokenRecord)
    (o : Op), Run (Under Free) (Sys.init .sample) s ∧
      s.Fails (.refresh (sampleToken 12)) o s' ∧
      Served s' s.tasks.length (· = .refresh (sampleToken 12)) (· = .raise .rejected) ∧
      AfterFailure s s' (sampleToken 12) t o := by
  have h : ∃ s : State Config.sample Core.sample, Run (Under Free) (Sys.init .sample) s ∧
      ((liveRow Config.sample s.world (sampleToken 12)).isSome &&
        decide (FreshDraws Config.sample s.world 10) &&
        ((s.alone (.refresh (sampleToken 12)) 8).bind fun s₁ =>
          s₁.next (.fail s.tasks.length)).isSome) = true :=
    exists_run_of_replay sampleSignIn _ (by decide)
  obtain ⟨s, hr, hp⟩ := h
  simp only [Bool.and_eq_true, decide_eq_true_eq, Option.isSome_iff_exists] at hp
  obtain ⟨⟨⟨t, ht⟩, hf⟩, s', hs'⟩ := hp
  obtain ⟨o, ho, -⟩ := Sys.exists_fails hs'
  exact ⟨s, s', t, o, hr, ho, failed_rotation (isLive_iff.2 ht) hf ho⟩

/-- **A failed log write does not leave the session usable.** -/
theorem failed_rotation_unusable : ∃ (s s' : State Config.sample Core.sample)
    (t : RefreshTokenRecord) (o : Op), Run (Under Free) (Sys.init .sample) s ∧
      IsLive Config.sample s.world (sampleToken 12) t ∧
      s.Fails (.refresh (sampleToken 12)) o s' ∧ ¬ Usable s s' (sampleToken 12) t := by
  have h : ∃ s : State Config.sample Core.sample, Run (Under Free) (Sys.init .sample) s ∧
      ((liveRow Config.sample s.world (sampleToken 12)).isSome &&
        ((s.alone (.refresh (sampleToken 12)) 8).bind fun s₁ =>
          s₁.next (.fail s.tasks.length)).any fun s' =>
            (liveRow Config.sample s'.world (sampleToken 12)).isNone) = true :=
    exists_run_of_replay sampleSignIn _ (by decide)
  obtain ⟨s, hr, hp⟩ := h
  simp only [Bool.and_eq_true, Option.isSome_iff_exists, Option.any_eq_true] at hp
  obtain ⟨⟨t, ht⟩, s', hs', hnone⟩ := hp
  obtain ⟨o, ho, -⟩ := Sys.exists_fails hs'
  refine ⟨s, s', t, o, hr, isLive_iff.2 ht, ho, fun hu => ?_⟩
  rw [isLive_iff.1 hu.live] at hnone
  cases hnone

end Sessions

end HelixServer
