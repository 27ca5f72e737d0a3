import HelixServer.Async.Solo
import HelixServer.Verification.Mails
import HelixServer.Verification.Silence

/-!
# Resends that fail

A resend that is rejected before the e-mail sender is called leaves the token that the account
stores valid until it expires or is replaced; one that is rejected by the sender leaves the account
with the token that has not been delivered, and no other token is valid (`failed_resend`).

* `Verifies cfg w rawToken a` : run alone from `w`, `verifyEmail rawToken` verifies the account `a`.
* `Keeping a` : the runs in which the token of the account `a` is not written or cleared.
* `Consistent s` : what the calls of a state and its rows keep to.
-/

namespace HelixServer

namespace Verification

open Async

variable {cfg : Config} {core : Core}

/-- Run alone, `verifyEmail` verifies the account. -/
def Verifies (cfg : Config) (w : World core) (rawToken a : String) : Prop :=
  ∃ n account w', (server cfg core).solo n (AuthService.verifyEmail cfg rawToken) w =
      some (.pure account, w') ∧ account.id = a ∧ account.emailVerified = true ∧
    ∃ r ∈ w'.accounts, r.id = a ∧ r.emailVerifiedAt.isSome = true

/-- The token of the account is not written or cleared. -/
def Keeping (a : String) : Discipline (server cfg core) := fun s l => Fresh s l ∧
  match l with
  | .step i => ∀ patch, s.nextCall i = some (.accounts (.update a patch)) →
      ∀ x ∈ patch, x.key ≠ "emailVerificationTokenHash"
  | _ => True

section

variable {w₀ w w' : World core} {s s' : State cfg core} {l : Label (server cfg core)}
  {r : AccountRecord} {rawToken : String} {expiresAt : ℕ}

/-! ### The token alone -/

theorem exec_accounts_ok {o : AccountOp} {res : o.Res} {rows : List AccountRecord}
    (h : o.exec cfg.storage (w.freshId cfg "acct") w.now w.accounts = (.ok res, rows)) :
    (Op.accounts o).exec cfg w = (.ok res, { w.drawn 1 with accounts := rows }) := by
  simp only [Op.exec, Op.effect, h]
  rfl

theorem find_token {hash : String} (hids : DistinctIds w) (htokens : DistinctTokens w)
    (hr : r ∈ w.accounts) (hstored : r.emailVerificationTokenHash = some hash) :
    w.accounts.find? (·.emailVerificationTokenHash == some hash) = some r := by
  obtain ⟨r₁, hfind⟩ :
      ∃ r₁, w.accounts.find? (·.emailVerificationTokenHash == some hash) = some r₁ := by
    rw [← Option.isSome_iff_exists, List.find?_isSome]
    exact ⟨r, hr, by rw [hstored, beq_self_eq_true]⟩
  have hr₁ := List.mem_of_find?_eq_some hfind
  have htoken : r₁.emailVerificationTokenHash = some hash := by simpa using List.find?_some hfind
  rw [hfind, List.inj_on_of_nodup_map hids hr₁ hr (htokens r₁ hr₁ r hr hash htoken hstored)]

theorem verifies_of_stored (hu : cfg.storage.hasUniqueIndexes = true → Accounts.Unique w.accounts)
    (hids : DistinctIds w) (htokens : DistinctTokens w) (hr : r ∈ w.accounts)
    (hstored : r.emailVerificationTokenHash = some (hashOpaqueToken cfg.runtime rawToken))
    (hexpires : r.emailVerificationExpiresAt = some expiresAt) (hnow : w.now < expiresAt) :
    Verifies cfg w rawToken r.id := by
  have hfind := find_token hids htokens hr hstored
  obtain ⟨row, rows, hupdate⟩ :=
    Accounts.update_succeeds (verifiedPatch w.now) w.now hu hr fun _ _ => rfl
  have hlookup : (Op.accounts (.findByEmailVerificationTokenHash
      (hashOpaqueToken cfg.runtime rawToken))).exec cfg w = (.ok (some r), w.drawn 1) :=
    Prod.ext (congrArg Except.ok hfind) rfl
  have hexec : (AccountOp.update r.id (verifiedPatch w.now)).exec cfg.storage
      ((w.drawn 3).freshId cfg "acct") w.now w.accounts = (.ok row, rows) := hupdate
  have hwrite : (Op.accounts (.update r.id (verifiedPatch w.now))).exec cfg (w.drawn 3) =
      (.ok row, { w.drawn 4 with accounts := rows }) := exec_accounts_ok hexec
  have hsolo : (server cfg core).solo 4 (AuthService.verifyEmail cfg rawToken) w =
      some (.pure (toSummary row), { w.drawn 4 with accounts := rows }) := by
    refine (solo_ok (n := 3) hlookup).trans ?_
    cases r
    subst hexpires
    refine (solo_ok (M := server cfg core) (n := 2) (Op.exec_runtime _ .now)).trans ?_
    change (server cfg core).solo 2 (if expiresAt ≤ w.now then _ else _) (w.drawn 2) = _
    rw [if_neg (Nat.not_le.2 hnow)]
    refine (solo_ok (M := server cfg core) (n := 1) (Op.exec_runtime _ .now)).trans ?_
    exact (solo_ok (n := 0) hwrite).trans solo_zero
  obtain ⟨r₁, -, hid, rfl⟩ := Accounts.update_found hupdate
  have hrow : (r₁.patched (verifiedPatch w.now) w.now).id = r.id :=
    AccountRecord.patched_id.trans hid
  exact ⟨4, _, _, hsolo, hrow, rfl, _, answered_mem rfl hexec, hrow, rfl⟩

/-! ### Runs that keep the token -/

/-- What the calls of a state and its rows keep to. -/
structure Consistent (s : State cfg core) : Prop where
  obeyed : (verification cfg core).protocol.Obeyed s
  unique : cfg.storage.hasUniqueIndexes = true → Accounts.Unique s.world.accounts
  ids : DistinctIds s.world
  tokens : DistinctTokens s.world

theorem unique_of_step (hu : cfg.storage.hasUniqueIndexes = true → Accounts.Unique s.world.accounts)
    (hst : Step s l s') (hk : cfg.storage.hasUniqueIndexes = true) :
    Accounts.Unique s'.world.accounts := by
  have hexec : ∀ {o : Op} {x : Except HelixError o.Res} {w : World core},
      o.exec cfg s.world = (x, w) → Accounts.Unique w.accounts := by
    intro o x w he
    have huniq := Op.exec_unique (o := o) hk (hu hk)
    rwa [he] at huniq
  cases hst with
  | start c => exact hu hk
  | call ht hp he | reject ht hp he => exact hexec he
  | fail ht hp hf => exact hu hk
  | env he =>
    have hrows := EnvMove.exec_accounts he
    rw [hrows]
    exact hu hk

theorem Consistent.step (h : Consistent s) (hl : Fresh s l) (hst : Step s l s') :
    Consistent s' where
  obeyed := (verification_kept.sound (C := fun _ _ => True)).step h.obeyed trivial hst
  unique := unique_of_step h.unique hst
  ids := distinctIds_of_step h.obeyed h.ids hl.1 hst
  tokens := distinctTokens_of_step h.obeyed h.ids h.tokens hl hst

theorem consistent_of_run {C : Discipline (server cfg core)} (hC : ∀ s l, C s l → Fresh s l)
    (h₀ : Consistent s) (h : Run C s s') : Consistent s' :=
  h.invariant (I := Consistent) h₀ fun s l _ _ ih hl hst => ih.step (hC s l hl) hst

/-- An account keeps its token while no step writes or clears it. -/
theorem Wrote.keeps {o : Op} (h : Wrote cfg w w' o) (hr : r ∈ w.accounts)
    (hkeep : ∀ patch, o = .accounts (.update r.id patch) →
      ∀ x ∈ patch, x.key ≠ "emailVerificationTokenHash") :
    ∃ r' ∈ w'.accounts, r'.id = r.id ∧
      r'.emailVerificationTokenHash = r.emailVerificationTokenHash ∧
      r'.emailVerificationExpiresAt = r.emailVerificationExpiresAt := by
  cases h with
  | create data hnew hrows =>
    rw [hrows]
    exact ⟨r, List.mem_append_left _ hr, rfl, rfl, rfl⟩
  | update a patch hpatch hrows =>
    rw [hrows]
    refine ⟨_, List.mem_map_of_mem hr, Accounts.updateRow_id, ?_⟩
    by_cases hid : (r.id == a) = true
    · rw [Accounts.updateRow, if_pos hid]
      obtain rfl : r.id = a := eq_of_beq hid
      cases hpatch with
      | googleId _ | issuerDid _ => exact ⟨rfl, rfl⟩
      | token tokenHash expiresAt =>
        exact absurd rfl (hkeep _ rfl (.emailVerificationTokenHash (some tokenHash))
          List.mem_cons_self)
      | verified at_ =>
        exact absurd rfl (hkeep _ rfl (.emailVerificationTokenHash none)
          (List.mem_cons_of_mem _ List.mem_cons_self))
    · rw [Accounts.updateRow, if_neg hid]
      exact ⟨rfl, rfl⟩

theorem kept_of_run (h₀ : Consistent s) (hr : r ∈ s.world.accounts) (h : Run (Keeping r.id) s s') :
    ∃ r' ∈ s'.world.accounts, r'.id = r.id ∧
      r'.emailVerificationTokenHash = r.emailVerificationTokenHash ∧
      r'.emailVerificationExpiresAt = r.emailVerificationExpiresAt := by
  induction h with
  | refl => exact ⟨r, hr, rfl, rfl, rfl⟩
  | @tail s₁ s₂ hrun hst ih =>
    obtain ⟨l, hl, hst⟩ := hst
    obtain ⟨r₁, hr₁, hid, htoken, hexpires⟩ := ih
    have hconsistent := consistent_of_run (fun _ _ => And.left) h₀ hrun
    rcases step_rows hconsistent.obeyed hconsistent.ids hl.1.1 hst with
      hrows | ⟨i, o, rfl, hnext, -, hwrote⟩
    · exact ⟨r₁, hrows ▸ hr₁, hid, htoken, hexpires⟩
    · obtain ⟨r₂, hr₂, hid₂, htoken₂, hexpires₂⟩ := hwrote.keeps hr₁ fun patch ho => by
        subst ho
        exact hl.2 patch (by rw [hnext, hid])
      exact ⟨r₂, hr₂, hid₂.trans hid, htoken₂.trans htoken, hexpires₂.trans hexpires⟩

/-- A token that is not written or cleared verifies its account until it expires. -/
theorem verifies_of_run (h₀ : Consistent s) (hr : r ∈ s.world.accounts)
    (hstored : r.emailVerificationTokenHash = some (hashOpaqueToken cfg.runtime rawToken))
    (hexpires : r.emailVerificationExpiresAt = some expiresAt) (h : Run (Keeping r.id) s s')
    (hnow : s'.world.now < expiresAt) : Verifies cfg s'.world rawToken r.id := by
  obtain ⟨r', hr', hid, htoken', hexpires'⟩ := kept_of_run h₀ hr h
  have hconsistent := consistent_of_run (fun _ _ => And.left) h₀ h
  rw [← hid]
  exact verifies_of_stored hconsistent.unique hconsistent.ids hconsistent.tokens hr'
    (htoken'.trans hstored) (hexpires'.trans hexpires) hnow

/-! ### The calls of a resend -/

/-- The call sends a mail. -/
def isMail : Op → Bool
  | .sendMail _ => true
  | _ => false

theorem ne_sendMail {o : Op} (h : isMail o = false) : ∀ mail, o ≠ .sendMail mail := by
  rintro mail rfl
  cases h

/-- The calls that a resend for an account that is not verified comes to. -/
theorem comes_resend {email : String} {o : Op}
    (hu : cfg.storage.hasUniqueIndexes = true → Accounts.Unique w.accounts)
    (hfind : w.accounts.find? (·.email == normalizeEmail cfg.runtime email) = some r)
    (hunverified : r.emailVerifiedAt = none)
    (h : (server cfg core).Comes ((server cfg core).prog (.resendVerificationEmail email)) w o w') :
    ((∀ mail, o ≠ .sendMail mail) ∧ ∃ k, w' = w.drawn k) ∨
      ∃ newToken expiresAt row rows, o = .sendMail ⟨r.email, verificationUrl cfg newToken⟩ ∧
        Accounts.update cfg.storage r.id
          (tokenPatch (hashOpaqueToken cfg.runtime newToken) expiresAt)
          w.now w.accounts = (.ok row, rows) ∧ w' = { w.drawn 4 with accounts := rows } := by
  have hlookup : (Op.accounts (.findByEmail (normalizeEmail cfg.runtime email))).exec cfg w =
      (.ok (some r), w.drawn 1) := Prod.ext (congrArg Except.ok hfind) rfl
  rcases (comes_call (M := server cfg core) hlookup).1 h with ⟨rfl, rfl⟩ | h
  · exact .inl ⟨ne_sendMail rfl, 0, rfl⟩
  change (server cfg core).Comes ((if r.emailVerifiedAt.isSome = true then Prog.pure ()
    else AuthService.sendVerificationEmail cfg r.id r.email : Promise Unit).bind _) _ _ _ at h
  rw [hunverified, if_neg (by decide), AuthService.sendVerificationEmail] at h
  by_cases hsender : cfg.emailSender = true
  swap
  · rw [if_neg hsender] at h
    exact absurd h not_comes_pure
  rw [if_pos hsender] at h
  rcases (comes_call (M := server cfg core) (Op.exec_runtime _ _)).1 h with ⟨rfl, rfl⟩ | h
  · exact .inl ⟨ne_sendMail rfl, 1, rfl⟩
  rcases (comes_call (M := server cfg core) (Op.exec_runtime _ _)).1 h with ⟨rfl, rfl⟩ | h
  · exact .inl ⟨ne_sendMail rfl, 2, rfl⟩
  -- the token write
  obtain ⟨row, rows, hupdate⟩ := Accounts.update_succeeds
    (tokenPatch (hashOpaqueToken cfg.runtime (opaqueToken "vrf"
      (cfg.runtime.randomBytes (w.drawn 1).draws 32)))
      (w.now + cfg.emailVerificationTtlHours * 60 * 60 * 1000))
    w.now hu (List.mem_of_find?_eq_some hfind) fun _ _ => rfl
  have hexec : (AccountOp.update r.id _).exec cfg.storage ((w.drawn 3).freshId cfg "acct") w.now
    w.accounts = (.ok row, rows) := hupdate
  rcases (comes_call (M := server cfg core) (exec_accounts_ok hexec)).1 h with ⟨rfl, rfl⟩ | h
  · exact .inl ⟨ne_sendMail rfl, 3, rfl⟩
  rcases (comes_call (M := server cfg core) rfl).1 h with ⟨rfl, rfl⟩ | h
  · exact .inr ⟨_, _, row, rows, rfl, hupdate, rfl⟩
  · exact absurd h not_comes_pure

theorem replaced_of_update {hash : String} {row : AccountRecord} {rows : List AccountRecord}
    (hids : DistinctIds w) (hr : r ∈ w.accounts)
    (hupdate : Accounts.update cfg.storage r.id (tokenPatch hash expiresAt) w.now w.accounts =
      (.ok row, rows)) :
    ∃ r' ∈ rows, r'.id = r.id ∧ r'.emailVerificationTokenHash = some hash := by
  obtain ⟨-, rfl⟩ := Accounts.update_ok hids hupdate
  refine ⟨_, List.mem_map_of_mem hr, Accounts.updateRow_id, ?_⟩
  rw [Accounts.updateRow, if_pos (beq_self_eq_true r.id)]
  rfl

theorem raises_of_update {hash : String} {row : AccountRecord} {rows : List AccountRecord}
    (hids : DistinctIds w) (htokens : DistinctTokens w) (hr : r ∈ w.accounts)
    (hstored : r.emailVerificationTokenHash = some (hashOpaqueToken cfg.runtime rawToken))
    (hne : hash ≠ hashOpaqueToken cfg.runtime rawToken)
    (hupdate : Accounts.update cfg.storage r.id (tokenPatch hash expiresAt) w.now w.accounts =
      (.ok row, rows)) (hrows : w'.accounts = rows) :
    (server cfg core).Raises (AuthService.verifyEmail cfg rawToken) w'
      .emailVerificationTokenInvalid := by
  obtain ⟨-, rfl⟩ := Accounts.update_ok hids hupdate
  have hfind : w'.accounts.find? (·.emailVerificationTokenHash ==
      some (hashOpaqueToken cfg.runtime rawToken)) = none := by
    rw [hrows, List.find?_eq_none]
    intro r' hr' htoken
    obtain ⟨r₀, hr₀, rfl⟩ := List.mem_map.1 hr'
    rw [beq_iff_eq] at htoken
    by_cases hid : (r₀.id == r.id) = true
    · rw [Accounts.updateRow, if_pos hid] at htoken
      exact hne (Option.some.inj htoken)
    · rw [Accounts.updateRow, if_neg hid] at htoken
      exact hid (beq_iff_eq.2 (htokens r₀ hr₀ r hr _ htoken hstored))
  have hlookup : (Op.accounts (.findByEmailVerificationTokenHash
      (hashOpaqueToken cfg.runtime rawToken))).exec cfg w' = (.ok none, w'.drawn 1) :=
    Prod.ext (congrArg Except.ok hfind) rfl
  exact ⟨1, _, (solo_ok (n := 0) hlookup).trans solo_zero⟩

/-! ### After the failure -/

/-- **A resend that fails before it calls the sender leaves the stored token valid; one that the
sender rejects leaves the account with a token that has not been delivered.**  In the state in which
the resend starts, the stored token has been delivered, or its own send is open. -/
theorem failed_resend {email : String} {o : Op} (hids : DistinctIds w₀)
    (hu : cfg.storage.hasUniqueIndexes = true → Accounts.Unique w₀.accounts)
    (htokens : ∀ r ∈ w₀.accounts, r.emailVerificationTokenHash = none)
    (h : Run Fresh (Sys.init w₀) s)
    (hfind : s.world.accounts.find? (·.email == normalizeEmail cfg.runtime email) = some r)
    (hunverified : r.emailVerifiedAt = none)
    (hstored : r.emailVerificationTokenHash = some (hashOpaqueToken cfg.runtime rawToken))
    (hexpires : r.emailVerificationExpiresAt = some expiresAt)
    (hfails : s.Fails (.resendVerificationEmail email) o s') :
    (Delivered cfg s.world r ∨ Open s r) ∧ s'.world.mails = s.world.mails ∧
      ((∀ mail, o ≠ .sendMail mail) → s'.world.accounts = s.world.accounts ∧
        ∀ s'', Run (Keeping r.id) s' s'' → s''.world.now < expiresAt →
          Verifies cfg s''.world rawToken r.id) ∧
      ∀ mail, o = .sendMail mail → ∃ newToken, mail = ⟨r.email, verificationUrl cfg newToken⟩ ∧
        (∃ r' ∈ s'.world.accounts, r'.id = r.id ∧
          r'.emailVerificationTokenHash = some (hashOpaqueToken cfg.runtime newToken)) ∧
        (hashOpaqueToken cfg.runtime newToken ≠ hashOpaqueToken cfg.runtime rawToken →
          (server cfg core).Raises (AuthService.verifyEmail cfg rawToken) s'.world
            .emailVerificationTokenInvalid) := by
  have hr := List.mem_of_find?_eq_some hfind
  have h₀ : Consistent (Sys.init w₀) :=
    ⟨Protocol.obeyed_init w₀, hu, hids, fun r hr _ _ _ hnone _ => by
      rw [htokens r hr] at hnone
      cases hnone⟩
  have hs : Consistent s := consistent_of_run (fun _ _ => id) h₀ h
  have hlaw : Delivered cfg s.world r ∨ Open s r :=
    delivered_or_open (fun _ _ => And.left) hids htokens h r hr (by rw [hstored]; rfl)
  obtain ⟨-, w, t, hcomes, rfl, -, -⟩ := hfails.comes
  refine ⟨hlaw, ?_⟩
  rcases comes_resend hs.unique hfind hunverified hcomes with
    ⟨hbefore, k, rfl⟩ | ⟨newToken, expiresAt', row, rows, rfl, hupdate, rfl⟩
  · -- nothing has been written
    have hs' : Consistent (⟨s.world.drawn k, s.tasks ++ [t]⟩ : State cfg core) :=
      ⟨Protocol.obeys_of_run verification_kept.sound hs.obeyed hfails.run, hs.unique, hs.ids,
        hs.tokens⟩
    refine ⟨rfl, fun _ => ⟨rfl, fun s'' h'' hnow => ?_⟩, fun mail ho => absurd ho (hbefore mail)⟩
    exact verifies_of_run hs' hr hstored hexpires h'' hnow
  · -- the new token has been written
    refine ⟨rfl, fun hnot => absurd rfl (hnot _), fun mail ho => ?_⟩
    cases ho
    exact ⟨newToken, rfl, replaced_of_update hs.ids hr hupdate,
      fun hne => raises_of_update hs.ids hs.tokens hr hstored hne hupdate rfl⟩

end

/-! ### A token that has been replaced -/

/-- The token of the first mail. -/
def sampleLink : String := opaqueToken "vrf" (Runtime.sample.randomBytes 9 32)

/-- The row that stores it for an account that is not verified, before it expires. -/
def pendingRow (s : State Config.sample Core.sample) : Option AccountRecord :=
  (s.world.accounts.find? (·.email == normalizeEmail Config.sample.runtime "a@b.c")).filter fun r =>
    r.emailVerifiedAt.isNone && r.emailVerificationExpiresAt.any (s.world.now < ·) &&
      r.emailVerificationTokenHash == some (hashOpaqueToken Config.sample.runtime sampleLink)

/-- The state in which the call after `n` ones of a resend has been rejected. -/
def resendFailed (s : State Config.sample Core.sample) (n : ℕ) :
    Option (State Config.sample Core.sample) :=
  (s.alone (.resendVerificationEmail "a@b.c") n).bind fun s₁ => s₁.next (.fail s.tasks.length)

/-- The call of a resend after `n` ones. -/
def resendCall (s : State Config.sample Core.sample) (n : ℕ) : Option Op :=
  (s.alone (.resendVerificationEmail "a@b.c") n).bind (·.nextCall s.tasks.length)

/-- The verification with the token is rejected. -/
def isInvalid (s : State Config.sample Core.sample) : Bool :=
  match (server Config.sample Core.sample).solo 1
    (AuthService.verifyEmail Config.sample sampleLink) s.world with
  | some (.raise .emailVerificationTokenInvalid, _) => true
  | _ => false

theorem pendingRow_spec {s : State Config.sample Core.sample} {r : AccountRecord}
    (h : pendingRow s = some r) :
    s.world.accounts.find? (·.email == normalizeEmail Config.sample.runtime "a@b.c") = some r ∧
      r.emailVerifiedAt = none ∧
      r.emailVerificationTokenHash = some (hashOpaqueToken Config.sample.runtime sampleLink) ∧
      ∃ expiresAt, r.emailVerificationExpiresAt = some expiresAt ∧ s.world.now < expiresAt := by
  obtain ⟨hfind, hrow⟩ := Option.filter_eq_some_iff.1 h
  simp only [Bool.and_eq_true, Option.isNone_iff_eq_none, Option.any_eq_true, decide_eq_true_eq,
    beq_iff_eq] at hrow
  obtain ⟨⟨hunverified, hexpires⟩, hstored⟩ := hrow
  exact ⟨hfind, hunverified, hstored, hexpires⟩

theorem raises_of_isInvalid {s : State Config.sample Core.sample} (h : isInvalid s = true) :
    (server Config.sample Core.sample).Raises (AuthService.verifyEmail Config.sample sampleLink)
      s.world .emailVerificationTokenInvalid := by
  unfold isInvalid at h
  split at h
  · rename_i w hsolo
    exact ⟨1, w, hsolo⟩
  · cases h

set_option maxRecDepth 4000 in
/-- After a token write that fails, the token of the first mail verifies the account. -/
theorem failed_resend_write :
    ∃ (s s' : State Config.sample Core.sample) (r : AccountRecord) (o : Op),
    Run Fresh (Sys.init World.sample) s ∧ s.Fails (.resendVerificationEmail "a@b.c") o s' ∧
      (s'.world.now < 86400000 → Verifies Config.sample s'.world sampleLink r.id) := by
  obtain ⟨s, h, hp⟩ := exists_run_of_replay (C := Fresh) (s := Sys.init World.sample) registered
    (fun s => (pendingRow s).any (·.emailVerificationExpiresAt == some 86400000) &&
      (resendFailed s 3).isSome && (resendCall s 3).any (!isMail ·)) (by decide)
  simp only [Bool.and_eq_true, Option.any_eq_true, Option.isSome_iff_exists, beq_iff_eq] at hp
  obtain ⟨⟨⟨r, hrow, hexpires⟩, s', hfailed⟩, o, hcall, hmail⟩ := hp
  obtain ⟨hfind, hunverified, hstored, -⟩ := pendingRow_spec hrow
  obtain ⟨o', hfails, hcall'⟩ := Sys.exists_fails hfailed
  obtain rfl : o = o' := Option.some.inj (hcall.symm.trans hcall')
  have hbefore : ∀ mail, o ≠ .sendMail mail := ne_sendMail (by simpa using hmail)
  have hids : DistinctIds (World.sample : World Core.sample) := .nil
  have hu : Accounts.Unique (World.sample : World Core.sample).accounts := by
    intro r hr
    cases hr
  have htokens : ∀ r ∈ (World.sample : World Core.sample).accounts,
      r.emailVerificationTokenHash = none := by
    intro r hr
    cases hr
  have hafter := (failed_resend hids (fun _ => hu) htokens h hfind hunverified hstored hexpires
    hfails).2.2.1 hbefore
  exact ⟨s, s', r, o, h, hfails, hafter.2 s' (.refl _)⟩

set_option maxRecDepth 4000 in
/-- **A mail that the sender rejects kills the token of the last one that was delivered.** -/
theorem failed_resend_kills : ∃ (s s' : State Config.sample Core.sample) (r : AccountRecord)
    (expiresAt : ℕ) (mail mail' : Mail), Run Fresh (Sys.init World.sample) s ∧ s.Idle ∧
      r ∈ s.world.accounts ∧ r.emailVerifiedAt = none ∧
      r.emailVerificationExpiresAt = some expiresAt ∧ s.world.now < expiresAt ∧
      s.world.mails.getLast? = some mail ∧ mail.recipient = r.email ∧
      mail.verificationUrl = verificationUrl Config.sample sampleLink ∧
      s.Fails (.resendVerificationEmail "a@b.c") (.sendMail mail') s' ∧
      (server Config.sample Core.sample).Raises (AuthService.verifyEmail Config.sample sampleLink)
        s'.world .emailVerificationTokenInvalid := by
  obtain ⟨s, h, hp⟩ := exists_run_of_replay (C := Fresh) (s := Sys.init World.sample) registered
    (fun s => decide s.Idle && (pendingRow s).isSome && (resendFailed s 4).any isInvalid &&
      (resendCall s 4).any isMail &&
        (pendingRow s).any fun r => s.world.mails.getLast?.any fun mail =>
        mail.recipient == r.email &&
          mail.verificationUrl == verificationUrl Config.sample sampleLink)
    (by decide)
  simp only [Bool.and_eq_true, Option.any_eq_true, decide_eq_true_eq, beq_iff_eq] at hp
  obtain ⟨⟨⟨⟨hidle, -⟩, s', hfailed, hinvalid⟩, o, hcall, hmail⟩, r, hrow, mail, hlast,
    hrecipient, hurl⟩ := hp
  obtain ⟨hfind, hunverified, -, expiresAt, hexpires, hnow⟩ := pendingRow_spec hrow
  obtain ⟨o', hfails, hcall'⟩ := Sys.exists_fails hfailed
  obtain rfl : o = o' := Option.some.inj (hcall.symm.trans hcall')
  obtain ⟨mail', rfl⟩ : ∃ mail', o = .sendMail mail' := by
    cases o <;> first | exact ⟨_, rfl⟩ | cases hmail
  exact ⟨s, s', r, expiresAt, mail, mail', h, hidle, List.mem_of_find?_eq_some hfind, hunverified,
    hexpires, hnow, hlast, hrecipient, hurl, hfails, raises_of_isInvalid hinvalid⟩

end Verification

end HelixServer
