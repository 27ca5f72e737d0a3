import HelixServer.Verification.Pending

/-!
# Tokens and their mails

A program that has written a token sends its mail next (`prompt_kept`).  So the token that an
account stores has been delivered to the account's e-mail, or its own send is open: its task has not
gone beyond the write, because the mail is still to be sent or has been rejected
(`delivered_or_open`).

* `Fresh` : new accounts have new ids, and a token that is written is stored by no account.
* `Delivered cfg w r` : a mail to the e-mail of `r` carries the token that `r` stores.
* `Open s r` : the last call of a task has written the token that `r` stores.
-/

namespace HelixServer

namespace Verification

open Async

variable {cfg : Config} {core : Core}

/-! ### A mail follows the write of its token -/

/-- After the write of a token a task can only send a mail. -/
def prompt (cfg : Config) (core : Core) : Protocol (server cfg core) Bool where
  init _ := false
  next _ e := (tokenWrite e.op).isSome
  allowed written o := written = true → ∃ mail, o = .sendMail mail
  answers _ _ := True
  raises _ _ := True
  fails _ := True

/-- The call writes no token. -/
def Quiet (o : Op) : Prop := tokenWrite o = none

section Programs

variable {α : Type} {a email : String}

theorem prompt_step {o : Op} (ho : Quiet o) :
    (prompt cfg core).Obeys (fun q _ => q = false) false (await o) := by
  refine Protocol.obeys_perform nofun fun w r w' _ => ?_
  change (tokenWrite o).isSome = false
  rw [ho]
  rfl

theorem prompt_quiet {R : HelixError → Prop} {p : Promise α} (hp : p.Uses Quiet R) :
    (prompt cfg core).Obeys (fun q _ => q = false) false p := by
  refine Protocol.obeys_of_uses hp (fun o ho => ⟨nofun, fun r w => ?_⟩) (fun _ _ => trivial)
    fun _ => rfl
  change (tokenWrite o).isSome = false
  rw [ho]
  rfl

theorem Aside.quiet {o : Op} (h : Aside o) : Quiet o := by
  cases o with
  | accounts o => cases o <;> first | exact h.elim | rfl
  | _ => rfl

theorem quiet_of_aside {p : Promise α} (hp : p.Uses Aside fun _ => True) :
    p.Uses Quiet fun _ => True :=
  uses_widen hp fun _ => Aside.quiet

theorem markEmailVerified_quiet :
    (AccountRepository.markEmailVerified a).Uses Quiet fun _ => True :=
  Prog.Uses.bind (await_uses rfl) fun _ => await_uses rfl

theorem markVerifiedIf_quiet {cond : Bool} {account : AccountRecord} :
    (AuthService.markVerifiedIf cond account).Uses Quiet fun _ => True := by
  unfold AuthService.markVerifiedIf
  split_ifs
  · exact markEmailVerified_quiet
  · trivial

theorem linkByEmail_quiet {profile : GoogleProfile} {account : AccountRecord} :
    (AuthService.linkByEmail profile account).Uses Quiet fun _ => True := by
  unfold AuthService.linkByEmail
  split_ifs
  · refine Prog.Uses.bind (await_uses rfl) fun linked => ?_
    refine Prog.Uses.bind markVerifiedIf_quiet fun account => ?_
    exact Prog.Uses.bind (quiet_of_aside auditLog_aside) fun _ => trivial
  · trivial

theorem createFromGoogle_quiet {profile : GoogleProfile} :
    (AuthService.createFromGoogle cfg profile email).Uses Quiet fun _ => True := by
  refine Prog.Uses.bind (await_uses rfl) fun created => ?_
  refine Prog.Uses.bind (quiet_of_aside provision_aside) fun did => ?_
  refine Prog.Uses.bind (await_uses rfl) fun withDid => ?_
  refine Prog.Uses.bind markVerifiedIf_quiet fun account => ?_
  exact Prog.Uses.bind (quiet_of_aside auditLog_aside) fun _ => trivial

theorem loginWithGoogle_quiet {profile : GoogleProfile} :
    (AuthService.loginWithGoogle cfg profile).Uses Quiet fun _ => True := by
  refine Prog.Uses.bind (Prog.Uses.bind (await_uses rfl) fun found => ?_) fun account => ?_
  · cases found with
    | some account => trivial
    | none =>
      refine Prog.Uses.bind (await_uses rfl) fun existing => ?_
      cases existing with
      | some account => exact linkByEmail_quiet
      | none => exact createFromGoogle_quiet
  · refine Prog.Uses.bind (quiet_of_aside auditLog_aside) fun _ => ?_
    exact Prog.Uses.bind (quiet_of_aside issueSession_aside) fun tokens => trivial

theorem verifyEmail_quiet {token : String} :
    (AuthService.verifyEmail cfg token).Uses Quiet fun _ => True := by
  refine Prog.Uses.bind (await_uses rfl) fun found => ?_
  cases found with
  | none => trivial
  | some account =>
    dsimp only
    cases account.emailVerificationExpiresAt with
    | none => trivial
    | some expiresAt =>
      refine Prog.Uses.bind (await_uses rfl) fun now => ?_
      split_ifs
      · trivial
      · exact Prog.Uses.bind markEmailVerified_quiet fun _ => trivial

theorem prompt_sendVerificationEmail :
    (prompt cfg core).Obeys (fun q _ => q = false) false
      (AuthService.sendVerificationEmail cfg a email) := by
  unfold AuthService.sendVerificationEmail
  split_ifs
  · refine (prompt_step (o := .runtime (.randomBytes 32)) rfl).bind ?_
    rintro _ bytes rfl
    refine (prompt_step (o := .runtime .now) rfl).bind ?_
    rintro _ now rfl
    exact ⟨nofun, fun _ _ _ _ => ⟨fun _ => ⟨_, rfl⟩, fun _ _ _ _ => rfl⟩⟩
  · exact rfl

theorem prompt_register {input : RegisterInput} :
    (prompt cfg core).Obeys (fun q _ => q = false) false (AuthService.register cfg input) := by
  refine (prompt_step (by rfl)).bind ?_
  rintro _ found rfl
  cases found with
  | some account => trivial
  | none =>
    refine (prompt_step (o := .runtime (.argon2Hash input.password)) rfl).bind ?_
    rintro _ passwordHash rfl
    refine (prompt_step (by rfl)).bind ?_
    rintro _ account rfl
    refine (prompt_quiet (quiet_of_aside provision_aside)).bind ?_
    rintro _ did rfl
    refine (prompt_step (by rfl)).bind ?_
    rintro _ withDid rfl
    refine (prompt_quiet (quiet_of_aside auditLog_aside)).bind ?_
    rintro _ _ rfl
    refine prompt_sendVerificationEmail.bind ?_
    rintro _ _ rfl
    refine (prompt_quiet (quiet_of_aside issueSession_aside)).bind ?_
    rintro _ tokens rfl
    rfl

theorem prompt_resend :
    (prompt cfg core).Obeys (fun q _ => q = false) false
      (AuthService.resendVerificationEmail cfg email) := by
  refine (prompt_step (by rfl)).bind ?_
  rintro _ found rfl
  cases found with
  | none => rfl
  | some account =>
    dsimp only
    split_ifs
    · rfl
    · exact prompt_sendVerificationEmail

/-- **A mail follows the write of its token**, in every program of the server. -/
theorem prompt_kept : ∀ c : Call,
    (prompt cfg core).Obeys (fun _ _ => True) false ((server cfg core).prog c) := by
  have hreply : ∀ {β : Type} {p : Promise β} {f : β → Reply},
      (prompt cfg core).Obeys (fun q _ => q = false) false p →
      (prompt cfg core).Obeys (fun _ _ => True) false (p >>= fun b => return f b) :=
    fun hp => hp.bind fun _ _ _ => trivial
  -- requests that write no token
  have hquiet : ∀ {β : Type} {p : Promise β} {f : β → Reply}, p.Uses Quiet (fun _ => True) →
      (prompt cfg core).Obeys (fun _ _ => True) false (p >>= fun b => return f b) :=
    fun hp => hreply (prompt_quiet hp)
  have houtside : ∀ {c : Call}, c.Outside →
      (prompt cfg core).Obeys (fun _ _ => True) false ((server cfg core).prog c) := by
    intro c hc
    obtain ⟨β, p, f, hprog, huses, -⟩ := Call.Outside.uses hc
    rw [show (server cfg core).prog c = _ from hprog]
    exact hquiet (uses_widen huses fun _ ho => (ho.elim aside_of_route aside_of_watch).quiet)
  intro c
  cases c with
  | register input => exact hreply prompt_register
  | login input => exact hquiet (quiet_of_aside login_aside)
  | loginWithGoogle profile => exact hquiet loginWithGoogle_quiet
  | verifyEmail token => exact hquiet verifyEmail_quiet
  | resendVerificationEmail email => exact hreply (f := fun _ => .done) prompt_resend
  | refresh refreshToken =>
    exact hquiet (uses_widen refresh_uses fun _ ho => (aside_of_session ho).quiet)
  | logout refreshToken =>
    exact hquiet (f := fun _ => .done)
      (uses_widen logout_uses fun _ ho => (aside_of_session ho).quiet)
  | _ => exact houtside (by trivial)

end Programs

/-! ### Stored and delivered tokens -/

/-- The hash that the call stores. -/
def tokenHash : Op → Option String
  | .accounts (.update _ patch) => patch.findSome? fun x => match x with
    | .emailVerificationTokenHash h => h
    | _ => none
  | _ => none

/-- A token that is written is stored by no account. -/
def NewTokens : Discipline (server cfg core) := fun s l =>
  match l with
  | .step i => ∀ o ∈ s.nextCall i, ∀ h ∈ tokenHash o, ∀ r ∈ s.world.accounts,
      r.emailVerificationTokenHash ≠ some h
  | _ => True

/-- New accounts have new ids, and new tokens new hashes. -/
def Fresh : Discipline (server cfg core) := fun s l => NewAccounts s l ∧ NewTokens s l

instance (s : State cfg core) (l : Label (server cfg core)) : Decidable (Fresh s l) :=
  match l with
  | .step i => inferInstanceAs (Decidable (NewAccounts s (.step i) ∧ ∀ o ∈ s.nextCall i,
      ∀ h ∈ tokenHash o, ∀ r ∈ s.world.accounts, r.emailVerificationTokenHash ≠ some h))
  | .start _ | .fail _ | .env _ => .isTrue ⟨trivial, trivial⟩

/-- No two accounts store the same token. -/
def DistinctTokens (w : World core) : Prop :=
  ∀ r ∈ w.accounts, ∀ r' ∈ w.accounts, ∀ h, r.emailVerificationTokenHash = some h →
    r'.emailVerificationTokenHash = some h → r.id = r'.id

/-- A mail to the e-mail of the account carries the token that it stores. -/
def Delivered (cfg : Config) (w : World core) (r : AccountRecord) : Prop :=
  ∃ mail ∈ w.mails, mail.recipient = r.email ∧ ∃ rawToken,
    mail.verificationUrl = verificationUrl cfg rawToken ∧
      r.emailVerificationTokenHash = some (hashOpaqueToken cfg.runtime rawToken)

/-- The last call of a task has written the token that the account stores. -/
def Open (s : State cfg core) (r : AccountRecord) : Prop :=
  ∃ t ∈ s.tasks, ∃ hash expiresAt, r.emailVerificationTokenHash = some hash ∧
    lastCall t = some (.accounts (.update r.id (tokenPatch hash expiresAt)))

section

variable {C : Discipline (server cfg core)} {w₀ w w' : World core} {s s' : State cfg core}
  {l : Label (server cfg core)} {t : Task (server cfg core)} {r : AccountRecord} {hash : String}

theorem prompt_state : (prompt cfg core).state t = ((lastCall t).bind tokenWrite).isSome := by
  obtain ⟨c, done, p⟩ := t
  rcases List.eq_nil_or_concat done with rfl | ⟨es, e, rfl⟩
  · rfl
  · simp only [Protocol.state, lastCall, List.concat_eq_append, List.foldl_append,
      List.getLast?_concat, Option.map_some, Option.bind_some]
    rfl

theorem prompt_of_run (h : Run C (Sys.init w₀) s) : (prompt cfg core).Obeyed s := by
  have hsound : (prompt cfg core).Sound C := ⟨prompt_kept, fun _ _ _ _ _ _ _ _ _ _ _ _ => trivial,
    fun _ _ _ _ _ _ _ _ _ => trivial⟩
  exact Protocol.obeys_of_run hsound (Protocol.obeyed_init w₀) h

/-- A token after a call has been stored before, or the call has written it. -/
theorem Wrote.token {o : Op} (h : Wrote cfg w w' o) (hr : r ∈ w'.accounts)
    (htoken : r.emailVerificationTokenHash = some hash) :
    (∃ r₀ ∈ w.accounts, r₀.id = r.id ∧ r₀.email = r.email ∧
      r₀.emailVerificationTokenHash = some hash) ∨
      ∃ expiresAt, o = .accounts (.update r.id (tokenPatch hash expiresAt)) := by
  cases h with
  | create data hnew hrows =>
    rw [hrows] at hr
    rcases List.mem_append.1 hr with hr | hr
    · exact .inl ⟨r, hr, rfl, rfl, htoken⟩
    · obtain rfl := List.mem_singleton.1 hr
      cases htoken
  | update a patch hpatch hrows =>
    rw [hrows] at hr
    obtain ⟨r₀, hr₀, rfl⟩ := List.mem_map.1 hr
    by_cases hid : (r₀.id == a) = true
    · rw [Accounts.updateRow, if_pos hid] at htoken ⊢
      obtain rfl : r₀.id = a := eq_of_beq hid
      cases hpatch with
      | googleId _ | issuerDid _ => exact .inl ⟨r₀, hr₀, rfl, rfl, htoken⟩
      | token tokenHash expiresAt =>
        obtain rfl : tokenHash = hash := Option.some.inj htoken
        exact .inr ⟨expiresAt, rfl⟩
      | verified at_ => cases htoken
    · rw [Accounts.updateRow, if_neg hid] at htoken ⊢
      exact .inl ⟨r₀, hr₀, rfl, rfl, htoken⟩

theorem token_of_step (hob : (verification cfg core).protocol.Obeyed s) (hd : DistinctIds s.world)
    (hnew : NewAccounts s l) (hst : Step s l s') (hr : r ∈ s'.world.accounts)
    (htoken : r.emailVerificationTokenHash = some hash) :
    (∃ r₀ ∈ s.world.accounts, r₀.id = r.id ∧ r₀.email = r.email ∧
      r₀.emailVerificationTokenHash = some hash) ∨
      ∃ i expiresAt, l = .step i ∧
        s.nextCall i = some (.accounts (.update r.id (tokenPatch hash expiresAt))) ∧
        ∃ t ∈ s'.tasks, lastCall t =
          some (.accounts (.update r.id (tokenPatch hash expiresAt))) := by
  rcases step_rows hob hd hnew hst with hrows | ⟨i, o, rfl, hnext, hlast, hwrote⟩
  · exact .inl ⟨r, hrows ▸ hr, rfl, rfl, htoken⟩
  · refine (hwrote.token hr htoken).imp_right fun ⟨expiresAt, ho⟩ => ⟨i, expiresAt, rfl, ?_⟩
    rw [← ho]
    exact ⟨hnext, hlast⟩

theorem distinctTokens_of_step (hob : (verification cfg core).protocol.Obeyed s)
    (hd : DistinctIds s.world) (ht : DistinctTokens s.world) (hl : Fresh s l) (hst : Step s l s') :
    DistinctTokens s'.world := by
  intro r hr r' hr' hash hhash hhash'
  rcases token_of_step hob hd hl.1 hst hr hhash with
    ⟨r₀, hr₀, hid, -, htoken⟩ | ⟨i, expiresAt, rfl, hnext, -⟩ <;>
  rcases token_of_step hob hd hl.1 hst hr' hhash' with
    ⟨r₁, hr₁, hid', -, htoken'⟩ | ⟨j, expiresAt', hij, hnext', -⟩
  · rw [← hid, ← hid']
    exact ht r₀ hr₀ r₁ hr₁ hash htoken htoken'
  · -- a new token is not an old one
    subst hij
    exact absurd htoken (hl.2 _ hnext' hash rfl r₀ hr₀)
  · exact absurd htoken' (hl.2 _ hnext hash rfl r₁ hr₁)
  · cases hij
    rw [hnext] at hnext'
    simp only [Option.some.injEq, Op.accounts.injEq, AccountOp.update.injEq] at hnext'
    exact hnext'.1

/-- A mail that is sent after the write of the account's token delivers it. -/
theorem delivered_of_written (hC : ∀ s l, C s l → NewAccounts s l) (hd : DistinctIds w₀)
    (h : Run C (Sys.init w₀) s) (ht : t ∈ s.tasks) {mail : Mail} (hwritten : Written t.done mail)
    (hr : r ∈ s.world.accounts) {expiresAt : ℕ}
    (hlast : lastCall t = some (.accounts (.update r.id (tokenPatch hash expiresAt)))) :
    mail.recipient = r.email ∧ ∃ rawToken, mail.verificationUrl = verificationUrl cfg rawToken ∧
      hash = hashOpaqueToken cfg.runtime rawToken := by
  obtain ⟨es, a, bytes, expiresAt', row, w, hdone, hurl, hfound⟩ := hwritten
  rw [lastCall, hdone, List.getLast?_concat] at hlast
  simp only [Option.map_some, Option.some.injEq, Op.accounts.injEq, AccountOp.update.injEq,
    tokenPatch, List.cons.injEq, AccountAssign.emailVerificationTokenHash.injEq] at hlast
  obtain ⟨rfl, hhash, -⟩ := hlast
  have hfound : Found t.done r.id mail.recipient :=
    hfound.mono (by rw [hdone]; exact List.prefix_append ..)
  exact ⟨(hfound.email_eq hC hd h ht hr rfl).symm, _, hurl, hhash.symm⟩

theorem Delivered.mono {r' : AccountRecord} (h : Delivered cfg w r) (hmails : w.mails ⊆ w'.mails)
    (hemail : r.email = r'.email)
    (htoken : r.emailVerificationTokenHash = r'.emailVerificationTokenHash) :
    Delivered cfg w' r' := by
  obtain ⟨mail, hmail, hrecipient, rawToken, hurl, hstored⟩ := h
  exact ⟨mail, hmails hmail, hrecipient.trans hemail, rawToken, hurl, htoken.symm.trans hstored⟩

theorem mails_of_step (hst : Step s l s') : s.world.mails ⊆ s'.world.mails := by
  have hexec : ∀ {o : Op} {x : Except HelixError o.Res} {w : World core},
      o.exec cfg s.world = (x, w) → s.world.mails ⊆ w.mails := by
    intro o x w he
    have hmails : (o.exec cfg s.world).2.mails = w.mails := by rw [he]
    rw [← hmails, Op.exec_mails]
    split
    · exact List.subset_append_left ..
    · exact List.Subset.refl _
  cases hst with
  | start c => exact List.Subset.refl _
  | call ht hp he | reject ht hp he => exact hexec he
  | fail ht hp hf => exact List.Subset.refl _
  | env he => rw [EnvMove.exec_frame he]; exact List.Subset.refl _

theorem open_of_step (hC : ∀ s l, C s l → NewAccounts s l) (hd : DistinctIds w₀)
    (h : Run C (Sys.init w₀) s) (hst : Step s l s') (hr : r ∈ s.world.accounts) (hopen : Open s r) :
    Delivered cfg s'.world r ∨ Open s' r := by
  obtain ⟨t₁, ht₁, hash, expiresAt, hhash, hlast⟩ := hopen
  cases hst with
  | start c => exact .inr ⟨t₁, List.mem_append_left _ ht₁, hash, expiresAt, hhash, hlast⟩
  | env he => exact .inr ⟨t₁, ht₁, hash, expiresAt, hhash, hlast⟩
  | reject ht hp he | fail ht hp he =>
    exact .inr (Sys.exists_mem_put ht id ⟨t₁, ht₁, hash, expiresAt, hhash, hlast⟩)
  | @call i t o k res w' ht hp he =>
    by_cases hwrote : lastCall t = some (.accounts (.update r.id (tokenPatch hash expiresAt)))
    · -- the task is the one that has written the token, and now sends its mail
      have hstate : (prompt cfg core).state t = true := by rw [prompt_state, hwrote]; rfl
      obtain ⟨mail, rfl⟩ := (prompt_of_run h).allowed ht hp hstate
      obtain ⟨hrecipient, rawToken, hurl, rfl⟩ := delivered_of_written hC hd h
        (List.mem_of_getElem? ht) (verification_kept.allowed_of_run h ht hp) hr hwrote
      have hmails : ((Op.sendMail mail).exec cfg s.world).2.mails = w'.mails := by
        rw [show (Op.sendMail mail).exec cfg s.world = _ from he]
      rw [Op.exec_mails] at hmails
      refine .inl ⟨mail, ?_, hrecipient, rawToken, hurl, hhash⟩
      rw [Sys.put_world, ← hmails]
      exact List.mem_concat_self
    · obtain ⟨t₂, ht₂, hlast⟩ := Sys.exists_mem_put (p := fun t => lastCall t = _) ht
        (fun hlast => absurd hlast hwrote) ⟨t₁, ht₁, hlast⟩
      exact .inr ⟨t₂, ht₂, hash, expiresAt, hhash, hlast⟩

/-- **A stored token has been delivered, or its send is open.**  In every state of every run,
whatever has been sent and has failed before, a token that an account stores has been delivered to
the e-mail of the account, or the task that has written it has not gone beyond the write. -/
theorem delivered_or_open (hC : ∀ s l, C s l → NewAccounts s l) (hd : DistinctIds w₀)
    (h₀ : ∀ r ∈ w₀.accounts, r.emailVerificationTokenHash = none) (h : Run C (Sys.init w₀) s) :
    ∀ r ∈ s.world.accounts, r.emailVerificationTokenHash.isSome = true →
      Delivered cfg s.world r ∨ Open s r := by
  refine h.invariant (I := fun s : State cfg core => ∀ r ∈ s.world.accounts,
    r.emailVerificationTokenHash.isSome = true → Delivered cfg s.world r ∨ Open s r)
    (fun r hr hsome => by rw [h₀ r hr] at hsome; cases hsome) fun s l s' hrun ih hl hst => ?_
  intro r hr hsome
  obtain ⟨hash, htoken⟩ := Option.isSome_iff_exists.1 hsome
  rcases token_of_step (verification_kept.obeyed hrun) (distinctIds_of_run hC hd hrun)
    (hC s l hl) hst
      hr htoken with
    ⟨r₀, hr₀, hid, hemail, htoken₀⟩ | ⟨i, expiresAt, -, -, t, ht, hlast⟩
  · -- an old token
    have hstored : Delivered cfg s'.world r₀ ∨ Open s' r₀ := by
      rcases ih r₀ hr₀ (by rw [htoken₀]; rfl) with hdelivered | hopen
      · exact .inl (hdelivered.mono (mails_of_step hst) rfl rfl)
      · exact open_of_step hC hd hrun hst hr₀ hopen
    refine hstored.imp (fun hdelivered => ?_) fun hopen => ?_
    · exact hdelivered.mono (List.Subset.refl _) hemail (htoken₀.trans htoken.symm)
    · obtain ⟨t, ht, hash', expiresAt, hhash', hlast⟩ := hopen
      exact ⟨t, ht, hash', expiresAt, by rw [htoken, ← htoken₀, hhash'], by rw [← hid, hlast]⟩
  · -- a token that the step has written
    exact .inr ⟨t, ht, hash, expiresAt, htoken, hlast⟩

end

end Verification

end HelixServer
