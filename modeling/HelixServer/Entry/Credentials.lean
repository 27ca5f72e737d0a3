import HelixServer.Entry.Protocol

/-!
# The credentials of a stranger

A principal sends the requests of some tasks, signs in with the passwords that it knows and the
Google ids that it holds, and never with a verified profile for the e-mail `e`; the others use
passwords for `e` and Google ids of their own (`Apart`).  Along every such run the accounts for `e`
that the principal has not created are closed to it: no password that it knows and no Google id that
it holds opens them (`shielded_of_run`).
-/

namespace HelixServer

namespace Entry

open Async
open Verification
  (NewAccounts Found IsPatch shown distinctIds_of_run grown_of_run verification_kept)

variable {cfg : Config} {core : Core}

/-! ### The principal -/

/-- A principal: the tasks that serve it, by their numbers, and what it can sign in with. -/
structure Principal where
  calls : ℕ → Bool
  /-- The passwords that it knows. -/
  knows : String → Bool
  /-- The Google ids that it holds. -/
  holds : String → Bool

/-- The tokens that a task has been answered. -/
def sessionOf (t : Task (server cfg core)) : Option AuthTokens :=
  match t.prog with
  | .pure (.session _ tokens) | .pure (.tokens tokens) => some tokens
  | _ => none

/-- The refresh token that a request presents. -/
def presentedBy : Call → Option String
  | .refresh refreshToken => some refreshToken
  | _ => none

namespace Principal

variable (M : Principal)

/-- The tasks that serve the principal. -/
def tasks (s : State cfg core) : List (Task (server cfg core)) :=
  (s.tasks.zipIdx.filter fun x => M.calls x.2).map (·.1)

/-- The tokens that the principal has been answered. -/
def sessions (s : State cfg core) : List AuthTokens := (M.tasks s).filterMap sessionOf

/-- What the principal can sign in with. -/
def Can (cfg : Config) (e : String) : Call → Prop
  | .login input => M.knows input.password = true
  | .loginWithGoogle profile => M.holds profile.googleId = true ∧
      (profile.emailVerified = true → normalizeEmail cfg.runtime profile.email ≠ e)
  | _ => True

/-- What the others sign up and sign in with. -/
def Others (cfg : Config) (e : String) : Call → Prop
  | .register input => normalizeEmail cfg.runtime input.email = e → M.knows input.password = false
  | .loginWithGoogle profile => M.holds profile.googleId = false
  | _ => True

/-- The request of task `i`. -/
def Plays (cfg : Config) (e : String) (i : ℕ) (c : Call) : Prop :=
  if M.calls i = true then M.Can cfg e c else M.Others cfg e c

/-- A refresh token that the principal presents has been answered to it, or is stored by nobody. -/
def Presents (s : State cfg core) (c : Call) : Prop :=
  ∀ refreshToken ∈ presentedBy c, (∃ tokens ∈ M.sessions s, tokens.refreshToken = refreshToken) ∨
    ∀ r ∈ s.world.refreshTokens, r.tokenHash ≠ hashRefreshToken cfg.runtime refreshToken

/-- A new refresh token is none that the principal has presented before. -/
def Unforeseen (s : State cfg core) : Op → Prop
  | .refreshTokens (.create data) => ∀ t ∈ M.tasks s, ∀ refreshToken ∈ presentedBy t.call,
      hashRefreshToken cfg.runtime refreshToken ≠ data.tokenHash
  | _ => True

end Principal

/-- The steps of a run in which the principal does not control the e-mail `e`. -/
def Starts (M : Principal) (e : String) : Discipline (server cfg core) := fun s l =>
  match l with
  | .start c => M.Plays cfg e s.tasks.length c ∧
      (M.calls s.tasks.length = true → M.Presents s c)
  | _ => True

/-- The refresh tokens that are drawn are new. -/
def NewSessions (M : Principal) : Discipline (server cfg core) := fun s l =>
  match l with
  | .step i => ∀ o ∈ s.nextCall i, FreshToken cfg s.world o ∧ M.Unforeseen s o
  | _ => True

/-- The runs in which the principal does not control the e-mail `e`. -/
def Apart (M : Principal) (e : String) : Discipline (server cfg core) := fun s l =>
  NewAccounts s l ∧ NewSessions M s l ∧ Starts M e s l

section

variable {M : Principal} {e : String}

instance : DecidablePred (M.Can cfg e) :=
  Call.Decides.decide
    { login := fun _ => inferInstanceAs (Decidable (_ = _))
      loginWithGoogle := fun _ => inferInstanceAs (Decidable (_ ∧ (_ → _ ≠ _))) }

instance : DecidablePred (M.Others cfg e) :=
  Call.Decides.decide
    { register := fun _ => inferInstanceAs (Decidable (_ = _ → _ = _))
      loginWithGoogle := fun _ => inferInstanceAs (Decidable (_ = _)) }

instance (i : ℕ) (c : Call) : Decidable (M.Plays cfg e i c) :=
  inferInstanceAs (Decidable (if M.calls i = true then M.Can cfg e c else M.Others cfg e c))

instance (s : State cfg core) (c : Call) : Decidable (M.Presents s c) :=
  inferInstanceAs (Decidable (∀ refreshToken ∈ presentedBy c,
    (∃ tokens ∈ M.sessions s, tokens.refreshToken = refreshToken) ∨
      ∀ r ∈ s.world.refreshTokens, r.tokenHash ≠ hashRefreshToken cfg.runtime refreshToken))

instance (s : State cfg core) : DecidablePred (M.Unforeseen s) :=
  Op.Decides.decide
    { refreshTokens := fun o =>
        match o with
        | .create _ => inferInstanceAs (Decidable (∀ t ∈ _, ∀ refreshToken ∈ _, _ ≠ _))
        | .findByTokenHash _ | .revoke _ _ | .revokeAllForAccount _ => .isTrue trivial }

instance (s : State cfg core) (l : Label (server cfg core)) : Decidable (Apart M e s l) :=
  match l with
  | .start c => inferInstanceAs (Decidable (NewAccounts s (.start c) ∧ True ∧
      M.Plays cfg e s.tasks.length c ∧ (M.calls s.tasks.length = true → M.Presents s c)))
  | .step i => inferInstanceAs (Decidable (NewAccounts s (.step i) ∧
      (∀ o ∈ s.nextCall i, FreshToken cfg s.world o ∧ M.Unforeseen s o) ∧ True))
  | .fail i => inferInstanceAs (Decidable (NewAccounts s (.fail i) ∧ True ∧ True))
  | .env x => inferInstanceAs (Decidable (NewAccounts s (.env x) ∧ True ∧ True))

end

/-! ### Accounts that are closed to the principal -/

/-- The principal has created the account. -/
def MadeBy (M : Principal) (s : State cfg core) (a : String) : Prop :=
  ∃ t ∈ M.tasks s, Made t.done a

instance (M : Principal) (s : State cfg core) (a : String) : Decidable (MadeBy M s a) :=
  inferInstanceAs (Decidable (∃ t ∈ M.tasks s, Made t.done a))

/-- Nothing that the principal signs in with opens the account. -/
structure Closed (cfg : Config) (M : Principal) (r : AccountRecord) : Prop where
  password : ∀ passwordHash ∈ r.passwordHash, ∀ password, M.knows password = true →
    cfg.runtime.argon2Verify passwordHash password = false
  google : ∀ googleId ∈ r.googleId, M.holds googleId = false

/-- The accounts for `e` that the principal has not created are closed to it. -/
def Shielded (M : Principal) (e : String) (s : State cfg core) : Prop :=
  ∀ r ∈ s.world.accounts, r.email = e → MadeBy M s r.id ∨ Closed cfg M r

/-- `argon2.verify` accepts the password of a hash only. -/
def Exact (rt : Runtime) : Prop :=
  ∀ draw password password', rt.argon2Verify (rt.argon2Hash draw password) password' = true →
    password' = password

section

variable {M : Principal} {e a : String} {s s' : State cfg core} {l : Label (server cfg core)}
  {t : Task (server cfg core)} {c : Call} {es : List (Event (server cfg core))}

theorem Principal.mem_tasks : t ∈ M.tasks s ↔ ∃ i, M.calls i = true ∧ s.tasks[i]? = some t := by
  simp only [tasks, List.mem_map, List.mem_filter, Prod.exists, List.mem_zipIdx_iff_getElem?,
    exists_and_right, exists_eq_right]
  exact exists_congr fun _ => and_comm

theorem Principal.mem_tasks_put {t' : Task (server cfg core)} {w : World core} {i : ℕ}
    (hi : M.calls i = true) (ht : s.tasks[i]? = some t) : t' ∈ M.tasks (s.put w i t') :=
  mem_tasks.2 ⟨i, hi, (Sys.put_getElem? ht).trans (if_pos rfl)⟩

theorem MadeBy.step (h : MadeBy M s a) (hst : Step s l s') : MadeBy M s' a := by
  obtain ⟨t, ht, hmade⟩ := h
  obtain ⟨i, hi, ht⟩ := Principal.mem_tasks.1 ht
  obtain ⟨t', ht', -, hdone, -⟩ := hst.getElem? ht
  exact ⟨t', Principal.mem_tasks.2 ⟨i, hi, ht'⟩, hmade.mono hdone⟩

theorem MadeBy.run {C : Discipline (server cfg core)} (h : MadeBy M s a) (hr : Run C s s') :
    MadeBy M s' a := by
  induction hr with
  | refl => exact h
  | tail _ hst ih =>
    obtain ⟨l, -, hst⟩ := hst
    exact ih.step hst

/-- Where the accounts are as before, they are shielded as before. -/
theorem Shielded.same (h : Shielded M e s) (hst : Step s l s')
    (hrows : s'.world.accounts = s.world.accounts) : Shielded M e s' := by
  intro r hr hemail
  rw [hrows] at hr
  exact (h r hr hemail).imp_left fun hmade => hmade.step hst

theorem Creates.closed {data : AccountCreateData} {id : String} {now : ℕ}
    (h : Creates cfg c data) (hexact : Exact cfg.runtime) (hothers : M.Others cfg e c)
    (hemail : data.email = e) : Closed cfg M (data.row id now) := by
  cases h with
  | @register input _ draw hregistered hpassword hgoogle =>
    have hunknown : M.knows input.password = false := hothers (hregistered.symm.trans hemail)
    constructor
    · intro passwordHash hhash password hknows
      obtain rfl : cfg.runtime.argon2Hash draw input.password = passwordHash :=
        Option.some.inj (hpassword.symm.trans hhash)
      refine Bool.eq_false_iff.2 fun hvalid => ?_
      rw [hexact draw _ _ hvalid, hunknown] at hknows
      cases hknows
    · intro googleId hid
      cases hgoogle.symm.trans hid
  | @google profile _ _ hpassword hgoogle =>
    constructor
    · intro passwordHash hhash
      cases hpassword.symm.trans hhash
    · intro googleId hid
      obtain rfl : profile.googleId = googleId := Option.some.inj (hgoogle.symm.trans hid)
      exact hothers

/-- A closed account is not opened by a patch of others, nor by one of the principal. -/
theorem Closed.patched {r : AccountRecord} {patch : AccountPatch} {now i : ℕ} (h : Closed cfg M r)
    (hpatch : IsPatch patch) (hlinks : Links cfg c es r.id patch) (hplays : M.Plays cfg e i c)
    (hfound : ∀ email, Found es r.id email → e = email) : Closed cfg M (r.patched patch now) := by
  cases hpatch with
  | issuerDid _ | token _ _ | verified _ => exact ⟨h.password, h.google⟩
  | googleId g =>
    refine ⟨h.password, fun googleId hid => ?_⟩
    obtain rfl : g = googleId := Option.some.inj hid
    cases hlinks with
    | @google profile _ _ hverified hf =>
      -- a verified profile for `e` is not one of the principal
      unfold Principal.Plays at hplays
      split_ifs at hplays
      · exact absurd (hfound _ hf).symm (hplays.2 hverified)
      · exact hplays
    | other hkeys => exact absurd rfl (hkeys _ (List.mem_singleton_self _))

/-! ### Runs -/

section Runs

variable {C : Discipline (server cfg core)} {w₀ : World core}

theorem plays_of_run (hC : ∀ s l, C s l → Starts M e s l) (h : Run C (Sys.init w₀) s) :
    ∀ i t, s.tasks[i]? = some t → M.Plays cfg e i t.call :=
  h.started (R := fun i c => M.Plays cfg e i c) (fun s _ hc => (hC s _ hc).1) rfl

theorem Shielded.call (hC : ∀ s l, C s l → NewAccounts s l) (hCs : ∀ s l, C s l → Starts M e s l)
    (hexact : Exact cfg.runtime) (hd : DistinctIds w₀) (hr : Run C (Sys.init w₀) s)
    (h : Shielded M e s) {i : ℕ} {o : Op} {k : o.Res → Promise Reply} {r : o.Res} {w : World core}
    (hl : C s (.step i)) (ht : s.tasks[i]? = some t) (hp : t.prog = .call o k)
    (he : o.exec cfg s.world = (.ok r, w)) :
    Shielded M e (s.put w i (t.resume s.world o r (k r))) := by
  have hst : Step s (.step i) (s.put w i (t.resume s.world o r (k r))) := .call ht hp he
  have hplays := plays_of_run hCs hr i t ht
  have hallowed := entry_kept.allowed_of_run hr ht hp
  have hsame : ∀ {rows}, (o.exec cfg s.world).2.accounts = rows → w.accounts = rows := by
    rintro _ rfl
    rw [he]
  rw [Op.exec_accounts] at hsame
  cases o with
  | accounts o =>
    cases o with
    | create data =>
      obtain ⟨rfl, hrows, -⟩ := Accounts.create_ok (hC s _ hl _ (Sys.nextCall_eq ht hp))
        (Op.exec_of_accounts he)
      intro r hr' hemail
      change r ∈ w.accounts at hr'
      rw [hrows] at hr'
      rcases List.mem_append.1 hr' with hr' | hr'
      · exact (h r hr' hemail).imp_left fun hmade => hmade.step hst
      · obtain rfl := List.mem_singleton.1 hr'
        by_cases hi : M.calls i = true
        · -- the principal creates the account
          exact .inl ⟨_, Principal.mem_tasks_put hi ht, _, List.mem_concat_self, rfl⟩
        · unfold Principal.Plays at hplays
          rw [if_neg hi] at hplays
          exact .inr (Creates.closed hallowed hexact hplays hemail)
    | update a patch =>
      have hd' := distinctIds_of_run hC hd hr
      have hpatch := verification_kept.allowed_of_run hr ht hp
      obtain ⟨-, hrows⟩ := Accounts.update_ok hd' (Op.exec_of_accounts he)
      intro r hr' hemail
      change r ∈ w.accounts at hr'
      rw [hrows] at hr'
      obtain ⟨r₀, hr₀, rfl⟩ := List.mem_map.1 hr'
      rw [Accounts.updateRow_id]
      unfold Accounts.updateRow at hemail ⊢
      split_ifs at hemail ⊢ with hid
      · obtain rfl : r₀.id = a := eq_of_beq hid
        have hemail₀ : r₀.email = e := ((hpatch.grown s.world.now r₀).1).symm.trans hemail
        refine (h r₀ hr₀ hemail₀).imp (fun hmade => hmade.step hst) fun hclosed => ?_
        refine hclosed.patched hpatch hallowed hplays fun email hfound => ?_
        exact hemail₀.symm.trans (hfound.email_eq hC hd hr (List.mem_of_getElem? ht) hr₀ rfl)
      · exact (h r₀ hr₀ hemail).imp_left fun hmade => hmade.step hst
    | _ => exact h.same hst (hsame rfl)
  | _ => exact h.same hst (hsame rfl)

/-- **What the principal has not created is closed to it.** -/
theorem shielded_of_run (hC : ∀ s l, C s l → NewAccounts s l)
    (hCs : ∀ s l, C s l → Starts M e s l) (hexact : Exact cfg.runtime) (hd : DistinctIds w₀)
    (h₀ : ∀ r ∈ w₀.accounts, r.email = e → Closed cfg M r) (h : Run C (Sys.init w₀) s) :
    Shielded M e s := by
  refine h.invariant (I := Shielded M e) (fun r hr hemail => .inr (h₀ r hr hemail))
    fun s l s' hr ih hl hst => ?_
  cases hst with
  | start c => exact ih.same (.start s c) rfl
  | env he => exact ih.same (.env he) (EnvMove.exec_accounts he)
  | fail ht hp hf => exact ih.same (.fail ht hp hf) rfl
  | reject ht hp he => exact ih.same (.reject ht hp he) (Verification.rows_of_error he)
  | call ht hp he => exact ih.call hC hCs hexact hd hr hl ht hp he

end Runs

end

end Entry

end HelixServer
