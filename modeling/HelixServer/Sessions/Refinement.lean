import HelixServer.Footprint
import HelixServer.Sessions.Descent

/-!
# The server's requests are parties of the session model
-/

namespace HelixServer

namespace Sessions

open Async

namespace Stage

/-- Where a request starts. -/
def start (cfg : Config) : Call → Stage
  | .register _ | .login _ | .loginWithGoogle _ => .opening
  | .refresh refreshToken => .presenting (hashRefreshToken cfg.runtime refreshToken)
  | .logout refreshToken => .leaving (hashRefreshToken cfg.runtime refreshToken)
  | _ => .aside

/-- How an answered call of the store moves a request on. -/
def next : Stage → (o : RefreshTokenOp) → o.Res → Stage
  | .opening, .create _, n => .opened n
  | .presenting h, .findByTokenHash _, found => .presented h found
  | .rotating r, .create _, n => .linking r n
  | .linking r n, .revoke _ _, _ => .rotated r n
  | .reusing r, .revokeAllForAccount _, _ => .burnt r
  | .leaving h, .findByTokenHash _, found => .found h found
  | .revoking r, .revoke _ _, _ => .left r
  | q, _, _ => q

/-- The calls of the store that a request makes. -/
def Allows : Stage → RefreshTokenOp → Prop
  | .opening, .create _ => True
  | .presenting h, .findByTokenHash h' => h' = h
  | .rotating r, .create data => data.accountId = r.accountId
  | .linking r n, .revoke id link => id = r.id ∧ link = some n.id
  | .reusing r, .revokeAllForAccount a => a = r.accountId
  | .leaving h, .findByTokenHash h' => h' = h
  | .revoking r, .revoke id link => id = r.id ∧ link = none
  | _, _ => False

/-- The replies a request ends with. -/
def Answers : Stage → Reply → Prop
  | .aside, _ => True
  | .opened _, .session _ _ => True
  | .rotated _ _, .tokens _ => True
  | .absent _, .done | .gone _, .done | .left _, .done => True
  | _, _ => False

/-- The errors a request ends with. -/
def Raises : Stage → HelixError → Prop
  | .aside, _ => True
  | .burnt _, _ => True
  | .linking _ _, _ => False
  | _, e => e ≠ .refreshTokenReuseDetected

end Stage

variable (cfg : Config) (core : Core)

/-- The protocol of the requests with the token store. -/
def protocol : Protocol (server cfg core) Stage where
  init := Stage.start cfg
  next := fun q e => match e with
    | ⟨.refreshTokens o, r, _⟩ => q.next o r
    | _ => q
  allowed := fun q o => match o with
    | .refreshTokens o => q.Allows o
    | .core _ | .vcs _ => q = .aside
    | _ => ∀ r n, q ≠ .linking r n
  answers := Stage.Answers
  raises := Stage.Raises
  fails := fun _ => True

variable {cfg core} {α : Type}

/-- Calls off the store do not move a request that is not between its two writes. -/
theorem obeys_of_offStore {q : Stage} {p : Promise α} (hq : ∀ r n, q ≠ .linking r n)
    (hp : p.Uses AccountCall (q.Raises ·)) :
    (protocol cfg core).Obeys (fun q' _ => q' = q) q p := by
  refine Protocol.obeys_of_uses hp ?_ (fun e he => he) fun _ => rfl
  intro o ho
  cases o <;> first | exact ho.elim | exact ⟨hq, fun _ _ => rfl⟩

/-! ### The programs obey the protocol -/

section Programs

theorem obeys_raise {post : Stage → α → Prop} {q : Stage} {e : HelixError} (h : q.Raises e) :
    (protocol cfg core).Obeys post q (.raise e) := h

theorem obeys_store (q : Stage) (o : RefreshTokenOp) (ha : q.Allows o) :
    (protocol cfg core).Obeys (fun q' r => q' = q.next o r) q (await (.refreshTokens o)) :=
  ⟨ha, fun _ _ _ _ => rfl⟩

theorem obeys_issueSession_open {accountId : String} :
    (protocol cfg core).Obeys (fun q _ => ∃ n, q = .opened n) .opening
      (AuthService.issueSession cfg accountId none) := by
  refine (obeys_of_offStore (by simp) generateRefreshToken_uses).bind ?_
  rintro _ raw rfl
  refine (obeys_of_offStore (by simp) dateNow_uses).bind ?_
  rintro _ now rfl
  refine (obeys_store .opening (.create _) trivial).bind ?_
  rintro _ n rfl
  refine (obeys_of_offStore (by simp [Stage.next]) issueAccessToken_uses).bind ?_
  rintro _ accessToken rfl
  exact ⟨n, rfl⟩

/-- A rotation writes the successor, then revokes the old token with a link to it. -/
theorem obeys_issueSession_rotate {r : RefreshTokenRecord} :
    (protocol cfg core).Obeys (fun q _ => ∃ n, q = .rotated r n) (.rotating r)
      (AuthService.issueSession cfg r.accountId (some r.id)) := by
  refine (obeys_of_offStore (by simp) generateRefreshToken_uses).bind ?_
  rintro _ raw rfl
  refine (obeys_of_offStore (by simp) dateNow_uses).bind ?_
  rintro _ now rfl
  refine (obeys_store (.rotating r) (.create ⟨r.accountId, _, _⟩) rfl).bind ?_
  rintro _ n rfl
  refine (obeys_store (.linking r n) (.revoke r.id (some n.id)) ⟨rfl, rfl⟩).bind ?_
  rintro _ _ rfl
  refine (obeys_of_offStore (by simp [Stage.next]) issueAccessToken_uses).bind ?_
  rintro _ accessToken rfl
  exact ⟨n, rfl⟩

theorem obeys_burn {r : RefreshTokenRecord} {post : Stage → AuthTokens → Prop} :
    (protocol cfg core).Obeys post (.reusing r) (AuthService.burn r) := by
  refine (obeys_store (.reusing r) (.revokeAllForAccount r.accountId) rfl).bind ?_
  rintro _ _ rfl
  refine (obeys_of_offStore (by simp [Stage.next]) (auditLog_uses ⟨rfl, rfl⟩)).bind ?_
  rintro _ _ rfl
  exact trivial

theorem obeys_rotate {r : RefreshTokenRecord} :
    (protocol cfg core).Obeys (fun q _ => ∃ n, q = .rotated r n) (.rotating r)
      (AuthService.rotate cfg r) := by
  refine obeys_issueSession_rotate.bind ?_
  rintro _ tokens ⟨n, rfl⟩
  refine (obeys_of_offStore (by simp) (auditLog_uses ⟨rfl, rfl⟩)).bind ?_
  rintro _ _ rfl
  exact ⟨n, rfl⟩

theorem obeys_rotateUnexpired {r : RefreshTokenRecord} :
    (protocol cfg core).Obeys (fun q _ => ∃ n, q = .rotated r n) (.rotating r)
      (AuthService.rotateUnexpired cfg r) := by
  refine (obeys_of_offStore (by simp) dateNow_uses).bind ?_
  rintro _ now rfl
  split_ifs
  · exact obeys_raise (by simp [Stage.Raises])
  · exact obeys_rotate

theorem obeys_refresh {refreshToken : String} :
    (protocol cfg core).Obeys (fun q _ => ∃ r n, q = .rotated r n)
      (.presenting (hashRefreshToken cfg.runtime refreshToken))
      (AuthService.refresh cfg refreshToken) := by
  refine (obeys_store (.presenting _) (.findByTokenHash _) rfl).bind ?_
  rintro _ found rfl
  cases found with
  | none => exact obeys_raise (by simp [Stage.next, Stage.presented, Stage.Raises])
  | some r =>
    by_cases hv : r.revokedAt.isSome = true
    · simp only [Stage.next, Stage.presented, AuthService.refreshFound, if_pos hv]
      exact obeys_burn
    · simp only [Stage.next, Stage.presented, AuthService.refreshFound, if_neg hv]
      refine obeys_rotateUnexpired.mono ?_
      rintro q _ ⟨n, hq⟩
      exact ⟨r, n, hq⟩

/-- The stages a logout ends in. -/
inductive Stage.Parted : Stage → Prop
  | absent (tokenHash : String) : Parted (.absent tokenHash)
  | gone (r : RefreshTokenRecord) : Parted (.gone r)
  | left (r : RefreshTokenRecord) : Parted (.left r)

theorem obeys_logout {refreshToken : String} :
    (protocol cfg core).Obeys (fun q _ => q.Parted)
      (.leaving (hashRefreshToken cfg.runtime refreshToken))
      (AuthService.logout cfg refreshToken) := by
  refine (obeys_store (.leaving _) (.findByTokenHash _) rfl).bind ?_
  rintro _ found rfl
  cases found with
  | none => exact .absent _
  | some r =>
    by_cases hv : r.revokedAt.isSome = true
    · simp only [Stage.next, Stage.found, if_pos hv]
      exact .gone r
    · simp only [Stage.next, Stage.found, if_neg hv]
      refine (obeys_store (.revoking r) (.revoke r.id) ⟨rfl, rfl⟩).bind ?_
      rintro _ _ rfl
      refine (obeys_of_offStore (by simp [Stage.next]) (auditLog_uses ⟨rfl, rfl⟩)).mono ?_
      rintro _ _ rfl
      exact .left r

theorem obeys_register {input : RegisterInput} :
    (protocol cfg core).Obeys (fun q _ => ∃ n, q = .opened n) .opening
      (AuthService.register cfg input) := by
  refine (obeys_of_offStore (by simp) accounts_uses).bind ?_
  rintro _ found rfl
  cases found with
  | some account => exact obeys_raise (by simp [Stage.Raises])
  | none =>
    refine (obeys_of_offStore (by simp) runtime_uses).bind ?_
    rintro _ passwordHash rfl
    refine (obeys_of_offStore (by simp) accounts_uses).bind ?_
    rintro _ account rfl
    refine (obeys_of_offStore (by simp)
      (uses_account_of_identity (provisionAccountIssuerDid_uses (by simp [Stage.Raises])))).bind ?_
    rintro _ issuerDid rfl
    refine (obeys_of_offStore (by simp) accounts_uses).bind ?_
    rintro _ withDid rfl
    refine (obeys_of_offStore (by simp) (auditLog_uses ⟨rfl, rfl⟩)).bind ?_
    rintro _ _ rfl
    refine (obeys_of_offStore (by simp)
      (uses_account_of_mail sendVerificationEmail_uses)).bind ?_
    rintro _ _ rfl
    refine obeys_issueSession_open.bind ?_
    rintro _ tokens ⟨n, rfl⟩
    exact ⟨n, rfl⟩

theorem obeys_login {input : LoginInput} :
    (protocol cfg core).Obeys (fun q _ => ∃ n, q = .opened n) .opening
      (AuthService.login cfg input) := by
  refine (obeys_of_offStore (by simp) accounts_uses).bind ?_
  rintro _ found rfl
  cases found with
  | none =>
    refine (obeys_of_offStore (by simp) (auditLog_uses ⟨rfl, rfl⟩)).bind ?_
    rintro _ _ rfl
    exact obeys_raise (by simp [Stage.Raises])
  | some account =>
    dsimp only
    cases account.passwordHash with
    | none => exact obeys_raise (by simp [Stage.Raises])
    | some passwordHash =>
      refine (obeys_of_offStore (by simp) runtime_uses).bind ?_
      rintro _ valid rfl
      split_ifs
      · refine (obeys_of_offStore (by simp) (auditLog_uses ⟨rfl, rfl⟩)).bind ?_
        rintro _ _ rfl
        refine obeys_issueSession_open.bind ?_
        rintro _ tokens ⟨n, rfl⟩
        exact ⟨n, rfl⟩
      · refine (obeys_of_offStore (by simp) (auditLog_uses ⟨rfl, rfl⟩)).bind ?_
        rintro _ _ rfl
        exact obeys_raise (by simp [Stage.Raises])

theorem obeys_loginWithGoogle {profile : GoogleProfile} :
    (protocol cfg core).Obeys (fun q _ => ∃ n, q = .opened n) .opening
      (AuthService.loginWithGoogle cfg profile) := by
  refine (obeys_of_offStore (by simp)
    (googleAccount_uses (by simp [Stage.Raises]) (by simp [Stage.Raises]))).bind ?_
  rintro _ account rfl
  refine (obeys_of_offStore (by simp) (auditLog_uses ⟨rfl, rfl⟩)).bind ?_
  rintro _ _ rfl
  refine obeys_issueSession_open.bind ?_
  rintro _ tokens ⟨n, rfl⟩
  exact ⟨n, rfl⟩

/-! ### Requests that do not use the store -/

theorem obeys_aside {N : Op → Prop} {p : Promise Reply} (hp : p.Uses N fun _ => True)
    (hN : ∀ o, ¬ N (.refreshTokens o)) : (protocol cfg core).Obeys Stage.Answers .aside p := by
  refine Protocol.obeys_of_uses hp ?_ (fun _ _ => trivial) fun _ => trivial
  intro o ho
  cases o with
  | refreshTokens o => exact absurd ho (hN o)
  | core o | vcs o => exact ⟨rfl, fun _ _ => rfl⟩
  | _ => exact ⟨fun _ _ h => (by cases h), fun _ _ => rfl⟩

theorem obeys_outside {c : Call} (hc : c.Outside) :
    (protocol cfg core).Obeys Stage.Answers .aside (c.prog cfg) := by
  obtain ⟨β, p, f, hprog, huses, -⟩ := Call.Outside.uses hc
  rw [hprog]
  exact obeys_aside (huses.bind fun _ => trivial) fun _ ho => ho.elim id id

/-- **Every request of the server obeys the protocol.** -/
theorem obeys_prog (c : Call) :
    (protocol cfg core).Obeys Stage.Answers (Stage.start cfg c) (c.prog cfg) := by
  cases c with
  | register input =>
    refine obeys_register.bind ?_
    rintro _ _ ⟨n, rfl⟩; exact trivial
  | login input =>
    refine obeys_login.bind ?_
    rintro _ _ ⟨n, rfl⟩; exact trivial
  | loginWithGoogle profile =>
    refine obeys_loginWithGoogle.bind ?_
    rintro _ _ ⟨n, rfl⟩; exact trivial
  | refresh refreshToken =>
    refine obeys_refresh.bind ?_
    rintro _ _ ⟨r, n, rfl⟩; exact trivial
  | logout refreshToken =>
    refine obeys_logout.bind ?_
    intro q _ hq
    cases hq <;> exact trivial
  | verifyEmail token => exact obeys_aside (verifyEmail_uses.bind fun _ => trivial) fun _ => id
  | resendVerificationEmail email =>
    exact obeys_aside (resendVerificationEmail_uses.bind fun _ => trivial) fun _ => id
  | _ => exact obeys_outside trivial

end Programs

theorem raises_storage {q : Stage} {message : String} (hq : ∀ r n, q ≠ .linking r n) :
    q.Raises (.storage message) := by
  cases q <;> first | trivial | exact (hq _ _ rfl).elim | exact fun h => by cases h

theorem protocol_sound {D : Discipline (server cfg core)} : (protocol cfg core).Sound D where
  prog := obeys_prog
  fail := fun _ _ _ _ _ _ _ _ _ => trivial
  reject := by
    intro s i t o k e w _ _ _ ha he
    generalize (protocol cfg core).state t = q at ha
    rcases Op.exec_error he with ⟨o', rfl⟩ | ⟨o', rfl⟩ | ⟨message, rfl⟩
    · obtain rfl : q = .aside := ha
      trivial
    · obtain rfl : q = .aside := ha
      trivial
    · refine raises_storage fun r n hq => ?_
      subst hq
      cases o with
      | refreshTokens o =>
        -- between its two writes a request only revokes, which is not rejected
        cases o <;> first | exact ha.elim | cases he
      | core o | vcs o => cases ha
      | _ => exact ha r n rfl

/-! ### Requests as parties -/

/-- A request, as the token store sees it. -/
def party (t : Task (server cfg core)) : Party :=
  ⟨Stage.start cfg t.call, (protocol cfg core).state t, t.running⟩

/-- The sessions of a state of the server. -/
def abs (s : State cfg core) : Model := ⟨s.world.refreshTokens, s.tasks.map party⟩

/-- The call of the token store that task `i` makes next. -/
def storeCall (s : State cfg core) (i : ℕ) : Option RefreshTokenOp :=
  match s.nextCall i with
  | some (.refreshTokens o) => some o
  | _ => none

/-- The move that a step of the server is. -/
def actOf (s : State cfg core) : Label (server cfg core) → Option Act
  | .start c => some (.join (Stage.start cfg c))
  | .step i =>
    match storeCall s i with
    | some o => some (.call i o)
    | none => some (.pass i)
  | .fail i => some (.stop i)
  | .env _ => none

/-- On a driver without unique indexes, the row that a `create` would insert has an id and a hash
that no row has. -/
def FreshAct (cfg : Config) {core : Core} (w : World core) : Act → Prop
  | .call _ (.create data) => cfg.storage.hasUniqueIndexes = true ∨
      RefreshTokens.Fresh data (w.freshId cfg "rtk") w.refreshTokens
  | _ => True

instance (w : World core) : DecidablePred (FreshAct cfg w) := fun a =>
  match a with
  | .call _ (.create data) => inferInstanceAs (Decidable (cfg.storage.hasUniqueIndexes = true ∨
      RefreshTokens.Fresh data (w.freshId cfg "rtk") w.refreshTokens))
  | .call _ (.findByTokenHash _) => .isTrue trivial
  | .call _ (.revoke _ _) => .isTrue trivial
  | .call _ (.revokeAllForAccount _) => .isTrue trivial
  | .join _ => .isTrue trivial
  | .pass _ => .isTrue trivial
  | .stop _ => .isTrue trivial

/-- The steps create new tokens only, and meet the condition `C` on sessions. -/
def Under (C : Model → Act → Prop) : Discipline (server cfg core) :=
  fun s l => ∀ a ∈ actOf s l, FreshAct cfg s.world a ∧ C (abs s) a

instance (C : Model → Act → Prop) [∀ m a, Decidable (C m a)] (s : State cfg core)
    (l : Label (server cfg core)) : Decidable (Under C s l) :=
  inferInstanceAs (Decidable (∀ a ∈ actOf s l, FreshAct cfg s.world a ∧ C (abs s) a))

theorem storeCall_eq {s : State cfg core} {i : ℕ} {t : Task (server cfg core)} {o : Op} {k}
    (ht : s.tasks[i]? = some t) (hp : t.prog = .call o k) :
    storeCall s i = match o with | .refreshTokens o => some o | _ => none := by
  simp only [storeCall, Sys.nextCall_eq ht hp]
  cases o <;> rfl

/-! ### The simulation -/

theorem isNew_of_create {kind : StorageDriverKind} {data : RefreshTokenCreateData} {id : String}
    {now : ℕ} {rows rows' : List RefreshTokenRecord} {n : RefreshTokenRecord}
    (hf : kind.hasUniqueIndexes = true ∨ RefreshTokens.Fresh data id rows)
    (h : RefreshTokens.create kind data id now rows = (.ok n, rows')) :
    IsNew data n rows ∧ rows' = rows ++ [n] := by
  obtain ⟨hfresh, rfl, rfl⟩ := RefreshTokens.create_ok hf h
  exact ⟨⟨rfl, rfl, rfl, rfl, hfresh⟩, rfl⟩

theorem move_of_exec {kind : StorageDriverKind} {id : String} {now : ℕ}
    {rows rows' : List RefreshTokenRecord} {q : Stage} {o : RefreshTokenOp} {r : o.Res}
    (ha : q.Allows o)
    (hf : ∀ data, o = .create data →
      kind.hasUniqueIndexes = true ∨ RefreshTokens.Fresh data id rows)
    (he : o.exec kind id now rows = (.ok r, rows')) : Move rows q o rows' (q.next o r) := by
  cases o with
  | create data =>
    obtain ⟨hn, rfl⟩ := isNew_of_create (hf data rfl) he
    cases q <;> first | exact ha.elim | exact .signIn hn | exact .succeed ha hn
  | findByTokenHash h =>
    cases he
    cases q <;> first | exact ha.elim | skip
    all_goals obtain rfl := ha
    · exact .present _
    · exact .leave _
  | revoke id link =>
    cases he
    cases q <;> first | exact ha.elim | skip
    all_goals obtain ⟨rfl, rfl⟩ := ha
    · exact .link _ _ _
    · exact .revoke _ _
  | revokeAllForAccount a =>
    cases he
    cases q <;> first | exact ha.elim | skip
    all_goals obtain rfl := ha
    exact .burn _ _

theorem abs_put {s : State cfg core} {w : World core} {i : ℕ} {t : Task (server cfg core)} :
    abs (s.put w i t) = (abs s).put w.refreshTokens i (party t) := by
  simp [abs, Sys.put, Model.put, List.map_set]

theorem party_resume {t : Task (server cfg core)} {w : World core} {o : Op} {r : o.Res}
    {p : Promise Reply} :
    party (t.resume w o r p) =
      (party t).to ((protocol cfg core).next ((protocol cfg core).state t) ⟨o, r, w⟩)
        p.running := by
  simp [party, Party.to, Task.running]

theorem party_reject {t : Task (server cfg core)} {e : HelixError} :
    party (t.reject e) = (party t).to (party t).stage false := by
  simp [party, Party.to]

theorem abs_getElem? {s : State cfg core} {i : ℕ} {t : Task (server cfg core)}
    (ht : s.tasks[i]? = some t) : (abs s).parties[i]? = some (party t) := by
  simp [abs, ht]

theorem actOf_step {s : State cfg core} {i : ℕ} {t : Task (server cfg core)} {o : Op} {k}
    (ht : s.tasks[i]? = some t) (hp : t.prog = .call o k) :
    actOf s (.step i) =
      match o with | .refreshTokens o => some (.call i o) | _ => some (.pass i) := by
  simp only [actOf, storeCall_eq ht hp]
  cases o <;> rfl

theorem running_of_linking {q : Stage} {r n : RefreshTokenRecord} {p : Promise Reply}
    (hq : q = .linking r n) (h : (protocol cfg core).Obeys (protocol cfg core).answers q p) :
    p.running = true := by
  subst hq
  cases p with
  | pure a => exact h.elim
  | raise e => exact h.elim
  | call o k => rfl

/-- A call off the store leaves rows and stage alone, and is not made between the two writes of a
rotation. -/
theorem pass_of_call {s : State cfg core} {i : ℕ} {t : Task (server cfg core)} {o : Op} {k}
    (ht : s.tasks[i]? = some t) (hp : t.prog = .call o k) (hno : ∀ o', o ≠ .refreshTokens o')
    (ha : (protocol cfg core).allowed ((protocol cfg core).state t) o) :
    actOf s (.step i) = some (.pass i) ∧ (∀ r n, (party t).stage ≠ .linking r n) ∧
      (o.exec cfg s.world).2.refreshTokens = s.world.refreshTokens ∧
      ∀ r w, (protocol cfg core).next ((protocol cfg core).state t) ⟨o, r, w⟩ =
        (party t).stage := by
  refine ⟨?_, ?_, ?_, ?_⟩
  · rw [actOf_step ht hp]
    cases o <;> first | rfl | exact absurd rfl (hno _)
  · cases o with
    | refreshTokens o => exact absurd rfl (hno o)
    | core o | vcs o => intro r n hq; cases ha.symm.trans hq
    | _ => exact ha
  · rw [Op.exec_refreshTokens]
    cases o <;> first | rfl | exact absurd rfl (hno _)
  · cases o <;> first | exact fun _ _ => rfl | exact absurd rfl (hno _)

/-- **Every step of the server is a step of the sessions**, or does not concern them. -/
theorem step_abs {s s' : State cfg core} {l : Label (server cfg core)}
    (ho : (protocol cfg core).Obeyed s) (hf : ∀ a ∈ actOf s l, FreshAct cfg s.world a)
    (hst : Async.Step s l s') :
    (actOf s l = none ∧ abs s' = abs s) ∨ ∃ a ∈ actOf s l, Step (abs s) a (abs s') := by
  cases hst with
  | start c =>
    refine .inr ⟨_, rfl, ?_⟩
    have h := Step.join (m := abs s) (Stage.start cfg c)
      (Task.fresh (M := server cfg core) c).running
      (by cases c <;> trivial)
    simpa [abs, party, protocol] using h
  | env he =>
    refine .inl ⟨rfl, ?_⟩
    simp only [abs]
    rw [EnvMove.exec_refreshTokens he]
  | @fail i t o k ht hp hfl =>
    refine .inr ⟨_, rfl, ?_⟩
    rw [abs_put, party_reject]
    exact Step.stop (abs_getElem? ht) (Task.running_of_call hp)
  | @call i t o k r w ht hp he =>
    have hob := ho.call ht hp
    have hrun : (party t).running = true := Task.running_of_call hp
    have hrows : w.refreshTokens = (o.exec cfg s.world).2.refreshTokens :=
      congrArg (fun x => x.2.refreshTokens) he.symm
    rw [abs_put]
    by_cases hno : ∀ o', o ≠ .refreshTokens o'
    · obtain ⟨hact, hl, hsame, hnext⟩ := pass_of_call ht hp hno hob.1
      refine .inr ⟨_, hact, ?_⟩
      rw [party_resume, hnext, hrows, hsame]
      exact Step.pass (k r).running (abs_getElem? ht) hrun hl
    · obtain ⟨o', rfl⟩ := not_forall_not.1 hno
      refine .inr ⟨_, actOf_step ht hp, ?_⟩
      have hexec := Op.exec_of_refreshTokens he
      have hmove := move_of_exec hob.1 (fun data h => by
        subst h; exact hf _ (actOf_step ht hp)) hexec
      rw [party_resume]
      exact Step.call (abs_getElem? ht) hrun hmove fun r' n hq =>
        running_of_linking hq (hob.2 _ _ _ he)
  | @reject i t o k e w ht hp he =>
    have hob := ho.call ht hp
    have hrun : (party t).running = true := Task.running_of_call hp
    have hrows : w.refreshTokens = (o.exec cfg s.world).2.refreshTokens :=
      congrArg (fun x => x.2.refreshTokens) he.symm
    rw [abs_put]
    by_cases hno : ∀ o', o ≠ .refreshTokens o'
    · obtain ⟨hact, hl, hsame, -⟩ := pass_of_call ht hp hno hob.1
      refine .inr ⟨_, hact, ?_⟩
      rw [party_reject, hrows, hsame]
      exact Step.pass false (abs_getElem? ht) hrun hl
    · obtain ⟨o', rfl⟩ := not_forall_not.1 hno
      refine .inr ⟨_, actOf_step ht hp, ?_⟩
      obtain ⟨hsame, ⟨data, rfl⟩, -⟩ := RefreshTokenOp.exec_error (Op.exec_of_refreshTokens he)
      rw [party_reject, hsame]
      refine Step.reject (abs_getElem? ht) hrun fun r n hq => ?_
      have ha : ((protocol cfg core).state t).Allows (.create data) := hob.1
      rw [show (protocol cfg core).state t = .linking r n from hq] at ha
      exact ha

/-- **The server's runs are runs of the sessions.** -/
theorem run_abs {C : Model → Act → Prop} {s₀ s : State cfg core}
    (ho : (protocol cfg core).Obeyed s₀) (h : Run (Under C) s₀ s) : lts.Run C (abs s₀) (abs s) := by
  refine h.map fun s l s' hr hc hst => ?_
  have ho' := Protocol.obeys_of_run protocol_sound ho hr
  rcases step_abs ho' (fun a ha => (hc a ha).1) hst with ⟨-, hs⟩ | ⟨a, ha, hs⟩
  · rw [hs]
  · exact .single (hc a ha).2 hs

/-! ### Where an ended request stands -/

/-- Request `i` is one that `asked` holds of, and where it stands `ended` holds. -/
def Served (s : State cfg core) (i : ℕ) (asked : Call → Prop) (ended : Promise Reply → Prop) :
    Prop :=
  ∃ t, s.tasks[i]? = some t ∧ asked t.call ∧ ended t.prog

instance (s : State cfg core) (i : ℕ) (asked : Call → Prop) (ended : Promise Reply → Prop)
    [DecidablePred asked] [DecidablePred ended] : Decidable (Served s i asked ended) :=
  decidable_of_iff ((s.tasks[i]?.any fun t => decide (asked t.call ∧ ended t.prog)) = true)
    (by simp [Served, Option.any_eq_true])

/-- The refresh token of a rotation. -/
def refreshOf : Call → Option String
  | .refresh refreshToken => some refreshToken
  | _ => none

/-- The refresh token of a logout. -/
def logoutOf : Call → Option String
  | .logout refreshToken => some refreshToken
  | _ => none

instance (refreshToken : String) : DecidablePred fun c : Call => c = .refresh refreshToken :=
  fun c => decidable_of_iff (refreshOf c = some refreshToken) (by cases c <;> simp [refreshOf])

instance (refreshToken : String) : DecidablePred fun c : Call => c = .logout refreshToken :=
  fun c => decidable_of_iff (logoutOf c = some refreshToken) (by cases c <;> simp [logoutOf])

instance : DecidablePred fun p : Promise Reply => ∃ reply, p = .pure reply :=
  fun p => match p with
    | .pure reply => .isTrue ⟨reply, rfl⟩
    | .raise _ | .call _ _ => .isFalse (by simp)

instance (e : HelixError) : DecidablePred fun p : Promise Reply => p = .raise e :=
  fun p => match p with
    | .raise e' => decidable_of_iff (e' = e) (by simp)
    | .pure _ | .call _ _ => .isFalse (by simp)

/-- Request `i` has presented `refreshToken` and was given new tokens. -/
abbrev Accepted (s : State cfg core) (i : ℕ) (refreshToken : String) : Prop :=
  Served s i (· = .refresh refreshToken) fun p => ∃ reply, p = .pure reply

/-- Request `i` has presented `refreshToken` and was told that it had been used before. -/
abbrev Reused (s : State cfg core) (i : ℕ) (refreshToken : String) : Prop :=
  Served s i (· = .refresh refreshToken) (· = .raise .refreshTokenReuseDetected)

/-- Request `i`, a logout with `refreshToken`, has returned. -/
abbrev LoggedOut (s : State cfg core) (i : ℕ) (refreshToken : String) : Prop :=
  Served s i (· = .logout refreshToken) fun p => ∃ reply, p = .pure reply

theorem Stage.rotated_of_answers {q : Stage} {h : String} {reply : Reply}
    (ho : q.origin = .presenting h) (ha : q.Answers reply) :
    ∃ r n, q = .rotated r n ∧ r.tokenHash = h := by
  cases q with
  | rotated r n => exact ⟨r, n, rfl, by injection ho⟩
  | presenting h' | unknown h' | rotating r | linking r n | reusing r | burnt r => cases ha
  | _ => cases ho

theorem Stage.burnt_of_raises {q : Stage} {h : String} (ho : q.origin = .presenting h)
    (hr : q.Raises .refreshTokenReuseDetected) : ∃ r, q = .burnt r ∧ r.tokenHash = h := by
  cases q with
  | burnt r => exact ⟨r, rfl, by injection ho⟩
  | linking r n => exact hr.elim
  | presenting h' | unknown h' | rotating r | rotated r n | reusing r => exact (hr rfl).elim
  | _ => cases ho

theorem Stage.spent_of_answers {q : Stage} {h : String} {reply : Reply}
    (ho : q.origin = .leaving h) (ha : q.Answers reply) :
    q = .absent h ∨ ∃ r, q.spent = some r ∧ r.tokenHash = h := by
  cases q with
  | absent h' => exact .inl (by injection ho with ho; rw [ho])
  | gone r | left r => exact .inr ⟨r, rfl, by injection ho⟩
  | leaving h' | revoking r => cases ha
  | _ => cases ho

section Ended

variable {s : State cfg core} {i : ℕ} {refreshToken : String}

theorem Accepted.stage (h : Accepted s i refreshToken) (ho : (protocol cfg core).Obeyed s)
    (hc : Consistent (abs s)) :
    ∃ p r n, (abs s).parties[i]? = some p ∧ p.stage = .rotated r n ∧
      r.tokenHash = hashRefreshToken cfg.runtime refreshToken := by
  obtain ⟨t, ht, hcall, reply, hp⟩ := h
  have hparty := abs_getElem? ht
  have horigin := hc.origin _ (List.mem_of_getElem? hparty)
  rw [show (party t).origin = .presenting (hashRefreshToken cfg.runtime refreshToken) by
    simp [party, hcall, Stage.start]] at horigin
  obtain ⟨r, n, hq, hh⟩ := Stage.rotated_of_answers horigin (ho.answers ht hp)
  exact ⟨_, r, n, hparty, hq, hh⟩

theorem Reused.stage (h : Reused s i refreshToken) (ho : (protocol cfg core).Obeyed s)
    (hc : Consistent (abs s)) :
    ∃ p r, (abs s).parties[i]? = some p ∧ p.stage = .burnt r ∧
      r.tokenHash = hashRefreshToken cfg.runtime refreshToken := by
  obtain ⟨t, ht, hcall, hp⟩ := h
  have hparty := abs_getElem? ht
  have horigin := hc.origin _ (List.mem_of_getElem? hparty)
  rw [show (party t).origin = .presenting (hashRefreshToken cfg.runtime refreshToken) by
    simp [party, hcall, Stage.start]] at horigin
  obtain ⟨r, hq, hh⟩ := Stage.burnt_of_raises horigin (ho.raises ht hp (by simp))
  exact ⟨_, r, hparty, hq, hh⟩

theorem LoggedOut.stage (h : LoggedOut s i refreshToken) (ho : (protocol cfg core).Obeyed s)
    (hc : Consistent (abs s)) :
    ∃ p, (abs s).parties[i]? = some p ∧
      (p.stage = .absent (hashRefreshToken cfg.runtime refreshToken) ∨
        ∃ r, p.stage.spent = some r ∧
          r.tokenHash = hashRefreshToken cfg.runtime refreshToken) := by
  obtain ⟨t, ht, hcall, reply, hp⟩ := h
  have hparty := abs_getElem? ht
  have horigin := hc.origin _ (List.mem_of_getElem? hparty)
  rw [show (party t).origin = .leaving (hashRefreshToken cfg.runtime refreshToken) by
    simp [party, hcall, Stage.start]] at horigin
  exact ⟨_, hparty, Stage.spent_of_answers horigin (ho.answers ht hp)⟩

end Ended

/-- A retired token, and every token obtained from one, is refused to late requests. -/
theorem Retired.refused {A : String → Prop} {k j : ℕ} {s : State cfg core}
    (hA : Retired A k (abs s)) (ho : (protocol cfg core).Obeyed s) (hc : Consistent (abs s))
    {x : String} {y : RefreshTokenRecord} {refreshToken : String} (hx : A x)
    (hy : y ∈ s.world.refreshTokens) (hd : Descends (abs s) x y.id) (hj : k ≤ j)
    (hh : y.tokenHash = hashRefreshToken cfg.runtime refreshToken) :
    ¬ Accepted s j refreshToken := by
  intro hacc
  obtain ⟨p, r, n, hp, hs, hr⟩ := hacc.stage ho hc
  obtain ⟨r', hr', hsame⟩ := (hc.holds p (List.mem_of_getElem? hp)).subject r (by rw [hs]; rfl)
  have heq : r' = y := hc.distinct.eq_of_tokenHash hr' hy (by rw [hsame.tokenHash, hr, hh])
  refine hA.late j p hj hp r n (by rw [hs]; rfl) ?_
  rw [← hsame.id, heq]
  exact hd.closed hA.closed hx

/-! ### Runs from an empty store -/

section Start

variable {w₀ : World core} {s : State cfg core} {C : Model → Act → Prop}

theorem obeyed_of_run {D : Discipline (server cfg core)} (h : Run D (Sys.init w₀) s) :
    (protocol cfg core).Obeyed s :=
  Protocol.obeys_of_run protocol_sound (Protocol.obeyed_init w₀) h

theorem consistent_init (hw : Distinct w₀.refreshTokens) :
    Consistent (abs (Sys.init w₀ : State cfg core)) :=
  ⟨hw, by simp [abs, Sys.init], by simp [abs, Sys.init]⟩

theorem run_init (h : Run (Under C) (Sys.init w₀) s) :
    lts.Run C (abs (Sys.init w₀ : State cfg core)) (abs s) :=
  run_abs (Protocol.obeyed_init w₀) h

theorem consistent_of_run (hw : Distinct w₀.refreshTokens) (h : Run (Under C) (Sys.init w₀) s) :
    Consistent (abs s) :=
  Consistent.run (run_init h) (consistent_init hw)

end Start

end Sessions

end HelixServer
