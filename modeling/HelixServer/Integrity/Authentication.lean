import HelixServer.Entry.Credentials
import HelixServer.Integrity.Trail

/-!
# Who is let in

The e-mail and the password hash of an account are those that its founder gave, for good
(`sourced_of_run`), so that a session is opened for somebody who has what opens the account as it is
stored (`session_of_run`), and a login with a password is one with the password of the registration
(`password_of_login`).
-/

namespace HelixServer

namespace Integrity

open Async
open Verification (NewAccounts distinctIds_of_run shown Found rows_of_error exists_shown)
open Entry (Made Passed Grants entry entry_kept Exact created)

variable {cfg : Config} {core : Core} {w₀ w w' : World core} {s s' : State cfg core}
  {l : Label (server cfg core)} {t : Task (server cfg core)} {r : AccountRecord} {o : Op}
  {C : Discipline (server cfg core)}

/-! ### What a step does to the accounts -/

/-- A step leaves the accounts alone, or a request creates one or patches one with good cause. -/
inductive AccountStep (s s' : State cfg core) : Prop
  | same (h : s'.world.accounts = s.world.accounts)
  | created {t : Task (server cfg core)} {data : AccountCreateData} {id : String} {now : ℕ}
      (ht : t ∈ s'.tasks) (hmade : Made t.done id) (hcreates : Entry.Creates cfg t.call data)
      (hrows : s'.world.accounts = s.world.accounts ++ [data.row id now])
  | updated {t : Task (server cfg core)} {es : List (Event (server cfg core))} {a : String}
      {patch : AccountPatch} {now : ℕ} (ht : t ∈ s'.tasks) (hes : es <+: t.done)
      (hpatch : Patches cfg t.call es a patch)
      (hrows : s'.world.accounts = s.world.accounts.map (Accounts.updateRow a patch now))

theorem accountStep_of_run (hC : ∀ s l, C s l → NewAccounts s l) (hd : DistinctIds w₀)
    (hrun : Run C (Sys.init w₀) s) (hl : C s l) (hst : Step s l s') : AccountStep s s' := by
  cases hst with
  | start c => exact .same rfl
  | fail ht hp hf => exact .same rfl
  | env he => exact .same (EnvMove.exec_accounts he)
  | reject ht hp he => exact .same (rows_of_error he)
  | @call i t o k res w ht hp he =>
    have hmem : t.resume s.world o res
        (k res) ∈ (s.put w i (t.resume s.world o res (k res))).tasks :=
      List.mem_of_getElem? ((Sys.put_getElem? ht).trans (if_pos rfl))
    have hrows : (o.exec cfg s.world).2.accounts = w.accounts := by
      rw [show o.exec cfg s.world = _ from he]
    rw [Op.exec_accounts] at hrows
    cases o with
    | accounts o =>
      cases o with
      | create data =>
        obtain ⟨hrow, hrows, -⟩ := Accounts.create_ok (hC _ _ hl _ (Sys.nextCall_eq ht hp))
          (Op.exec_of_accounts he)
        rw [hrow] at hrows
        refine .created hmem ⟨_, List.mem_concat_self, ?_⟩
          (entry_kept.allowed_of_run hrun ht hp) hrows
        exact congrArg (fun r : AccountRecord => some r.id) hrow
      | update a patch =>
        obtain ⟨-, hrows⟩ :=
          Accounts.update_ok (distinctIds_of_run hC hd hrun) (Op.exec_of_accounts he)
        exact .updated hmem (List.prefix_append ..) (causes_kept.allowed_of_run hrun ht hp) hrows
      | _ => exact .same hrows.symm
    | _ => exact .same hrows.symm

/-! ### Where the accounts come from -/

/-- The request has given the account its e-mail and its password hash. -/
inductive Founds (cfg : Config) : Call → AccountRecord → Prop
  | register {input : RegisterInput} {r : AccountRecord} (draw : ℕ)
      (hemail : r.email = normalizeEmail cfg.runtime input.email)
      (hpassword : r.passwordHash = some (cfg.runtime.argon2Hash draw input.password)) :
      Founds cfg (.register input) r
  | google {profile : GoogleProfile} {r : AccountRecord}
      (hemail : r.email = normalizeEmail cfg.runtime profile.email)
      (hpassword : r.passwordHash = none) : Founds cfg (.loginWithGoogle profile) r

/-- The account has been there from the start, or a request has created it as it is. -/
def Sourced (w₀ : World core) (s : State cfg core) (r : AccountRecord) : Prop :=
  (∃ r₀ ∈ w₀.accounts, r₀.id = r.id ∧ r₀.email = r.email ∧ r₀.passwordHash = r.passwordHash) ∨
    ∃ t ∈ s.tasks, Made t.done r.id ∧ Founds cfg t.call r

theorem Founds.same {c : Call} {r' : AccountRecord} (h : Founds cfg c r)
    (hemail : r'.email = r.email)
    (hpassword : r'.passwordHash = r.passwordHash) : Founds cfg c r' := by
  cases h with
  | register draw he hp => exact .register draw (hemail.trans he) (hpassword.trans hp)
  | google he hp => exact .google (hemail.trans he) (hpassword.trans hp)

theorem Sourced.step {r' : AccountRecord} (h : Sourced w₀ s r) (hst : Step s l s')
    (hid : r'.id = r.id)
    (hemail : r'.email = r.email) (hpassword : r'.passwordHash = r.passwordHash) :
    Sourced w₀ s' r' := by
  rcases h with ⟨r₀, hr₀, hid₀, hemail₀, hpassword₀⟩ | ⟨t, ht, hmade, hfounds⟩
  · exact .inl ⟨r₀, hr₀, hid₀.trans hid.symm, hemail₀.trans hemail.symm,
      hpassword₀.trans hpassword.symm⟩
  · obtain ⟨t', ht', hcall, hdone⟩ := hst.exists_later ht
    refine .inr ⟨t', ht', hid ▸ hmade.mono hdone, ?_⟩
    rw [hcall]
    exact hfounds.same hemail hpassword

theorem founds_of_creates {c : Call} {data : AccountCreateData} {id : String} {now : ℕ}
    (h : Entry.Creates cfg c data) : Founds cfg c (data.row id now) := by
  cases h with
  | register draw hemail hpassword _ => exact .register draw hemail hpassword
  | google hemail hpassword _ => exact .google hemail hpassword

theorem Patches.same {c : Call} {es : List (Event (server cfg core))} {a : String}
    {patch : AccountPatch} (h : Patches cfg c es a patch) (now : ℕ) :
    (r.patched patch now).email = r.email ∧
      (r.patched patch now).passwordHash = r.passwordHash := by
  cases h <;> exact ⟨rfl, rfl⟩

/-- **E-mails and passwords are those of the founders.**  In every state of a run, whatever is
rejected, an account has been there from the start with its e-mail and its password hash, or the
request that has created it has given it them. -/
theorem sourced_of_run (hC : ∀ s l, C s l → NewAccounts s l) (hd : DistinctIds w₀)
    (h : Run C (Sys.init w₀) s) : ∀ r ∈ s.world.accounts, Sourced w₀ s r := by
  refine h.invariant (I := fun s => ∀ r ∈ s.world.accounts, Sourced w₀ s r)
    (fun r hr => .inl ⟨r, hr, rfl, rfl, rfl⟩) fun s l s' hrun ih hl hst r hr => ?_
  cases accountStep_of_run hC hd hrun hl hst with
  | same hrows =>
    rw [hrows] at hr
    exact (ih r hr).step hst rfl rfl rfl
  | created ht hmade hcreates hrows =>
    rw [hrows] at hr
    rcases List.mem_append.1 hr with hr | hr
    · exact (ih r hr).step hst rfl rfl rfl
    · obtain rfl := List.mem_singleton.1 hr
      exact .inr ⟨_, ht, hmade, founds_of_creates hcreates⟩
  | @updated t es a patch now ht hes hpatch hrows =>
    rw [hrows] at hr
    obtain ⟨r₀, hr₀, rfl⟩ := List.mem_map.1 hr
    unfold Accounts.updateRow
    split_ifs
    · exact (ih r₀ hr₀).step hst AccountRecord.patched_id (hpatch.same now).1 (hpatch.same now).2
    · exact (ih r₀ hr₀).step hst rfl rfl rfl

/-! ### What a login looks up -/

/-- No account is looked up but by the e-mail. -/
def LooksUp (email : String) : Op → Prop
  | .accounts o => o = .findByEmail email
  | _ => True

/-- A login looks no account up but by its e-mail, and a refresh opens no session. -/
def lookups (cfg : Config) (core : Core) : History (server cfg core) where
  allowed c _ o :=
    match c with
    | .login input => LooksUp (normalizeEmail cfg.runtime input.email) o
    | _ => True
  answers c _ reply :=
    match c, reply with
    | .refresh _, .session _ _ => False
    | _, _ => True

theorem looksUp_of_session {email : String} {o : Op} (h : SessionCall o) : LooksUp email o := by
  cases o <;> first | exact h.elim | trivial

theorem login_looksUp {input : LoginInput} :
    (AuthService.login cfg input).Uses (LooksUp (normalizeEmail cfg.runtime input.email))
      fun _ => True := by
  have hissue : ∀ {a : String}, (AuthService.issueSession cfg a none).Uses
      (LooksUp (normalizeEmail cfg.runtime input.email)) fun _ => True :=
    uses_widen issueSession_uses fun _ => looksUp_of_session
  refine Prog.Uses.bind (await_uses rfl) fun found => ?_
  cases found with
  | none => exact Prog.Uses.bind (await_uses trivial) fun _ => trivial
  | some account =>
    dsimp only
    cases account.passwordHash with
    | none => trivial
    | some passwordHash =>
      refine Prog.Uses.bind (await_uses trivial) fun valid => ?_
      cases valid with
      | true =>
        exact Prog.Uses.bind (await_uses trivial) fun _ => Prog.Uses.bind hissue fun _ => trivial
      | false => exact Prog.Uses.bind (await_uses trivial) fun _ => trivial

theorem lookups_kept : (lookups cfg core).Kept := by
  intro c
  cases c with
  | login input =>
    refine (History.obeys_uses (N := LooksUp (normalizeEmail cfg.runtime input.email))
      login_looksUp fun _ _ ho => ho).bind ?_
    rintro ⟨c, es⟩ x ⟨rfl, -⟩
    trivial
  | refresh refreshToken =>
    refine (History.obeys_uses (Prog.uses_true _) fun _ _ _ => trivial).bind ?_
    rintro ⟨c, es⟩ tokens ⟨rfl, -⟩
    trivial
  | _ =>
    refine (History.obeys_uses (Prog.uses_true _) fun _ _ _ => trivial).mono ?_
    rintro ⟨c, es⟩ reply ⟨rfl, -⟩
    trivial

theorem email_of_login (h : Run C (Sys.init w₀) s) (ht : t ∈ s.tasks) {input : LoginInput}
    (hcall : t.call = .login input) {e : Event (server cfg core)} (he : e ∈ t.done)
    (hshown : shown e = some r) : r.email = normalizeEmail cfg.runtime input.email := by
  obtain ⟨i, hi⟩ := List.mem_iff_getElem?.1 ht
  obtain ⟨es, es', hes⟩ := List.append_of_mem he
  have hallowed := lookups_kept.allowed_of_done h hi hes
  obtain ⟨⟨w, hexec⟩, -⟩ := h.event rfl t ht e he
  obtain ⟨o, res, pre⟩ := e
  rw [hcall] at hallowed
  cases o with
  | accounts o =>
    obtain rfl : o = .findByEmail (normalizeEmail cfg.runtime input.email) := hallowed
    have hfind := congrArg Prod.fst (Op.exec_of_accounts hexec)
    obtain rfl : res = some r := hshown
    simpa using List.find?_some (Except.ok.inj hfind)
  | _ => cases hshown

/-! ### Sessions -/

/-- What opens the account, as it is stored. -/
inductive Opens (cfg : Config) : Call → List (Event (server cfg core)) → AccountRecord → Prop
  | founded {c : Call} {es : List (Event (server cfg core))} {r : AccountRecord}
      (hmade : Made es r.id) (h : Founds cfg c r) : Opens cfg c es r
  | password {input : LoginInput} {es : List (Event (server cfg core))} {r : AccountRecord}
      {passwordHash : String} (hemail : r.email = normalizeEmail cfg.runtime input.email)
      (hhash : r.passwordHash = some passwordHash)
      (hvalid : cfg.runtime.argon2Verify passwordHash input.password = true) :
      Opens cfg (.login input) es r
  /-- The account has been found with the Google id of the profile. -/
  | google {profile : GoogleProfile} {es : List (Event (server cfg core))} {r r₁ : AccountRecord}
      {e : Event (server cfg core)} (he : e ∈ es) (hshown : shown e = some r₁) (hid : r₁.id = r.id)
      (hgoogle : r₁.googleId = some profile.googleId) : Opens cfg (.loginWithGoogle profile) es r
  | email {profile : GoogleProfile} {es : List (Event (server cfg core))} {r : AccountRecord}
      (hverified : profile.emailVerified = true)
      (hemail : r.email = normalizeEmail cfg.runtime profile.email) :
      Opens cfg (.loginWithGoogle profile) es r

/-- A request that is answered a session has been let into its account. -/
theorem passed_of_session (h : Run C (Sys.init w₀) s) (ht : t ∈ s.tasks) {account : AccountSummary}
    {tokens : AuthTokens} (hp : t.prog = .pure (.session account tokens)) :
    Passed cfg t.call t.done account.id := by
  obtain ⟨i, hi⟩ := List.mem_iff_getElem?.1 ht
  obtain ⟨data, w, row, issued, he, ha, -, -, -⟩ := entry_kept.answers_of_run h hi hp
  obtain ⟨es, es', hes⟩ := List.append_of_mem he
  have hpassed : Passed cfg t.call es data.accountId := entry_kept.allowed_of_done h hi hes
  rw [← ha, hes]
  exact hpassed.mono (List.prefix_append ..)

/-- What a request has been shown is stored, and is still what it is. -/
theorem kept_of_shown (hC : ∀ s l, C s l → NewRows s l) (hd : DistinctIds w₀)
    (hnamed : DidsNamed cfg w₀) (h : Run C (Sys.init w₀) s) (ht : t ∈ s.tasks)
    {e : Event (server cfg core)} (he : e ∈ t.done) (hshown : shown e = some r) :
    ∃ r' ∈ s.world.accounts, KeptAccount r r' := by
  obtain ⟨s₁, h₁, hr, h₂⟩ := exists_shown h ht he hshown
  exact (later_of_run hC hd hnamed h₁ h₂).accounts.exists_mem hr

theorem create_of_created {e : Event (server cfg core)} {a : String} (h : created e = some a) :
    ∃ data row w, e = ⟨.accounts (.create data), row, w⟩ := by
  unfold created at h
  split at h
  · exact ⟨_, _, _, rfl⟩
  · cases h

/-- **A session is opened for somebody who has what opens its account.**  In a run that draws new
ids and hashes, whatever is rejected, a request that is answered a session has founded the account,
or has its e-mail and its password, or a profile with its Google id or a verified one with its
e-mail. -/
theorem session_of_run (hC : ∀ s l, C s l → NewRows s l) (hd : DistinctIds w₀)
    (hnamed : DidsNamed cfg w₀) (h : Run C (Sys.init w₀) s) (ht : t ∈ s.tasks)
    {account : AccountSummary} {tokens : AuthTokens}
    (hp : t.prog = .pure (.session account tokens)) :
    ∃ r ∈ s.world.accounts, r.id = account.id ∧ Opens cfg t.call t.done r := by
  obtain ⟨i, hi⟩ := List.mem_iff_getElem?.1 ht
  have hkept : ∀ {e : Event (server cfg core)} {r₁ : AccountRecord}, e ∈ t.done →
      shown e = some r₁ → ∃ r ∈ s.world.accounts, KeptAccount r₁ r :=
    fun he hshown => kept_of_shown hC hd hnamed h ht he hshown
  have hpassed := passed_of_session h ht hp
  generalize hid : account.id = a at hpassed
  generalize hcall : t.call = c at hpassed
  cases hpassed with
  | created hmade =>
    obtain ⟨e, he, hcreated⟩ := hmade
    obtain ⟨r₁, hshown, rfl⟩ := Entry.shown_of_created hcreated
    obtain ⟨r, hr, hk⟩ := hkept he hshown
    refine ⟨r, hr, hk.id, .founded ⟨e, he, hk.id ▸ hcreated⟩
      (Founds.same ?_ hk.email hk.passwordHash)⟩
    -- the request has created the row
    obtain ⟨⟨w, hexec⟩, -⟩ := h.event rfl t ht e he
    obtain ⟨es, es', hes⟩ := List.append_of_mem he
    have hallowed := entry_kept.allowed_of_done h hi hes
    obtain ⟨data, row, w', rfl⟩ := create_of_created hcreated
    obtain rfl : row = r₁ := Option.some.inj hshown
    have hrow : row = data.row (w'.freshId cfg "acct") w'.now :=
      Accounts.create_row (Op.exec_of_accounts hexec)
    have hfounds : Founds cfg t.call (data.row (w'.freshId cfg "acct") w'.now) :=
      founds_of_creates hallowed
    exact hcall ▸ hrow ▸ hfounds
  | password he hshown hhash hvalid =>
    obtain ⟨r, hr, hk⟩ := hkept he hshown
    exact ⟨r, hr, hk.id, .password (hk.email.trans (email_of_login h ht hcall he hshown))
      (hk.passwordHash.trans hhash) hvalid⟩
  | google he hshown hgoogle =>
    obtain ⟨r, hr, hk⟩ := hkept he hshown
    exact ⟨r, hr, hk.id, .google he hshown hk.id.symm hgoogle⟩
  | email hverified hfound =>
    obtain ⟨e, he, r₁, hshown, rfl, hemail⟩ := hfound
    obtain ⟨r, hr, hk⟩ := hkept he hshown
    exact ⟨r, hr, hk.id, .email hverified (hk.email.trans hemail)⟩
  | token he =>
    have hanswers := lookups_kept.answers_of_run h hi hp
    rw [hcall] at hanswers
    exact hanswers.elim

theorem session_of_run_signIn : ∃ s : State Config.sample Core.sample,
    Run NewRows (Sys.init .sample) s ∧ ∃ t ∈ s.tasks, ∃ account tokens,
      t.prog = .pure (.session account tokens) ∧ ∃ r ∈ s.world.accounts, r.id = account.id ∧
        Opens Config.sample t.call t.done r := by
  have hd : DistinctIds (World.sample : World Core.sample) := .nil
  have hnamed : DidsNamed Config.sample (World.sample : World Core.sample) := by
    intro r hr
    cases hr
  obtain ⟨s, h, hp⟩ := exists_run_of_replay (C := NewRows) (s := Sys.init World.sample)
    sampleSignIn (fun s => s.tasks.any fun t => (sessionAccount t).isSome) (by decide)
  obtain ⟨t, ht, hp⟩ := List.any_eq_true.1 hp
  obtain ⟨account, haccount⟩ := Option.isSome_iff_exists.1 hp
  obtain ⟨tokens, hprog⟩ := prog_of_sessionAccount haccount
  exact ⟨s, h, t, ht, account, tokens, hprog,
    session_of_run (fun _ _ h => h) hd hnamed h ht hprog⟩

/-- **A login is one with the password of the registration.**  If the password hash of a password
accepts no other one, a login that is answered a session has the e-mail and the password of an
account that has been there from the start, or of the request that has registered it. -/
theorem password_of_login (hC : ∀ s l, C s l → NewRows s l) (hd : DistinctIds w₀)
    (hnamed : DidsNamed cfg w₀) (hexact : Exact cfg.runtime) (h : Run C (Sys.init w₀) s)
    (ht : t ∈ s.tasks) {input : LoginInput} (hcall : t.call = .login input)
    {account : AccountSummary} {tokens : AuthTokens}
    (hp : t.prog = .pure (.session account tokens)) : (∃ r₀ ∈ w₀.accounts, r₀.id = account.id ∧
      r₀.email = normalizeEmail cfg.runtime input.email ∧ ∃ passwordHash ∈ r₀.passwordHash,
        cfg.runtime.argon2Verify passwordHash input.password = true) ∨
    ∃ t' ∈ s.tasks, ∃ input', t'.call = .register input' ∧ Made t'.done account.id ∧
      input'.password = input.password ∧
      normalizeEmail cfg.runtime input'.email = normalizeEmail cfg.runtime input.email := by
  obtain ⟨r, hr, hid, hopens⟩ := session_of_run hC hd hnamed h ht hp
  rw [hcall] at hopens
  cases hopens with
  | founded hmade hfounds => cases hfounds
  | @password _ _ _ passwordHash hemail hhash hvalid =>
    rcases sourced_of_run (fun s l hl => newAccounts_of_newRows (hC s l hl)) hd h r hr with
      ⟨r₀, hr₀, hid₀, hemail₀, hpassword₀⟩ | ⟨t', ht', hmade, hfounds⟩
    · exact .inl ⟨r₀, hr₀, hid₀.trans hid, hemail₀.trans hemail, passwordHash,
        hpassword₀.trans hhash, hvalid⟩
    · right
      generalize hcall' : t'.call = c at hfounds
      cases hfounds with
      | @register input' _ draw hemail' hpassword' =>
        obtain rfl := Option.some.inj (hhash.symm.trans hpassword')
        exact ⟨t', ht', input', hcall', hid ▸ hmade, (hexact _ _ _ hvalid).symm,
          hemail'.symm.trans hemail⟩
      | google _ hpassword' => cases hhash.symm.trans hpassword'

/-- A registration, and a login with its password. -/
def registersAndLogsIn : List (Label (server Config.sample Core.sample)) :=
  .start (.register { email := "a@b.c", password := "password" }) :: List.replicate 18 (.step 0) ++
    .start (.login ⟨"A@b.c", "password"⟩) :: List.replicate 8 (.step 1)

/-- The account of the session that the login with the password has been answered. -/
def loggedIn (t : Task (server Config.sample Core.sample)) : Bool :=
  match t.call with
  | .login input => input.password == "password" && (sessionAccount t).isSome
  | _ => false

set_option maxRecDepth 4000 in
theorem password_of_login_sample : ∃ s : State Config.sample Core.sample,
    Run NewRows (Sys.init .sample) s ∧ ∃ t ∈ s.tasks, ∃ input, t.call = .login input ∧
      ∃ t' ∈ s.tasks, ∃ input', t'.call = .register input' ∧ input'.password = input.password := by
  have hexact : Exact Config.sample.runtime := by
    intro draw password password' h
    exact (eq_of_beq h).symm
  have hd : DistinctIds (World.sample : World Core.sample) := .nil
  have hnamed : DidsNamed Config.sample (World.sample : World Core.sample) := by
    intro r hr
    cases hr
  obtain ⟨s, h, hp⟩ := exists_run_of_replay (C := NewRows) (s := Sys.init World.sample)
    registersAndLogsIn (fun s => s.tasks.any loggedIn) (by decide)
  obtain ⟨t, ht, hp⟩ := List.any_eq_true.1 hp
  unfold loggedIn at hp
  split at hp
  · rename_i input hcall
    obtain ⟨account, haccount⟩ := Option.isSome_iff_exists.1 (Bool.and_eq_true_iff.1 hp).2
    obtain ⟨tokens, hprog⟩ := prog_of_sessionAccount haccount
    rcases password_of_login (fun _ _ h => h) hd hnamed hexact h ht hcall hprog with
      ⟨_, hr₀, -⟩ | ⟨t', ht', input', hcall', -, hpassword, -⟩
    · cases hr₀
    · exact ⟨s, h, t, ht, input, hcall, t', ht', input', hcall', hpassword⟩
  · cases hp

end Integrity

end HelixServer
