import HelixServer.Verification.Growth

/-!
# Sign-ins with a verified Google profile

A sign-in with a verified profile for the e-mail of its account leaves a verified account in exactly
the runs in which the account that carries the Google id at the sign-in's look-up, if there is one,
is verified (`signsInVerified_iff`): the sign-in marks an account that it links or creates, and
answers one that it finds by the Google id as it is.
-/

namespace HelixServer

namespace Verification

open Async

variable {cfg : Config} {core : Core}

/-- The account with the Google id of the profile in the world of the task's first call. -/
def boundAtLookup (t : Task (server cfg core)) (profile : GoogleProfile) : Option AccountRecord :=
  t.done.head?.bind fun e => e.pre.accounts.find? (·.googleId == some profile.googleId)

section

variable {w₀ : World core} {s : State cfg core} {i : ℕ} {t : Task (server cfg core)}
  {profile : GoogleProfile} {account : AccountSummary} {tokens : AuthTokens} {r : AccountRecord}

theorem verified_of_shown (hd : DistinctIds w₀) (h : Run NewAccounts (Sys.init w₀) s)
    (ht : s.tasks[i]? = some t) {e : Event (server cfg core)} (he : e ∈ t.done)
    (hshown : shown e = some r) (hverified : r.emailVerifiedAt.isSome = true) :
    ∃ r' ∈ s.world.accounts, r'.id = r.id ∧ r'.emailVerifiedAt.isSome = true := by
  obtain ⟨s₁, h₁, hr, h₂⟩ := exists_shown h (List.mem_of_getElem? ht) he hshown
  obtain ⟨r', hr', hid, -, hgrown⟩ := grown_of_run (fun _ _ => id) hd h₁ h₂ r hr
  exact ⟨r', hr', hid, hgrown hverified⟩

/-- The first call of a Google sign-in shows the account with the Google id. -/
theorem shown_lookup {e : Event (server cfg core)} {w : World core} (hfirst : [e] <+: t.done)
    (hop : e.op = .accounts (.findByGoogleId profile.googleId))
    (hexec : e.op.exec cfg e.pre = (.ok e.res, w)) : shown e = boundAtLookup t profile := by
  obtain ⟨es, hes⟩ := hfirst
  rw [boundAtLookup, ← hes]
  obtain ⟨o, res, pre⟩ := e
  obtain rfl : o = _ := hop
  have hres := congrArg Prod.fst (Op.exec_of_accounts hexec)
  exact (Except.ok.inj hres).symm

/-- **When a sign-in with a verified profile leaves a verified account.**  Whatever has run and
failed before and beside it, the account that a finished sign-in has answered (be its e-mail that of
the profile or not) is verified there and in the store if and only if the account that carried the
Google id at the look-up, if there was one, was verified. -/
theorem signsInVerified_iff (hd : DistinctIds w₀) (h : Run NewAccounts (Sys.init w₀) s)
    (ht : s.tasks[i]? = some t) (hcall : t.call = .loginWithGoogle profile)
    (hprofile : profile.emailVerified = true) (hp : t.prog = .pure (.session account tokens)) :
    (account.emailVerified = true ∧
        ∃ r ∈ s.world.accounts, r.id = account.id ∧ r.emailVerifiedAt.isSome = true) ↔
      ∀ r₀, boundAtLookup t profile = some r₀ → r₀.emailVerifiedAt.isSome = true := by
  have hans := verification_kept.answers_of_run h ht hp
  rw [hcall] at hans
  obtain ⟨e, hfirst, hop, r₁, rfl, hcases⟩ := hans
  have he : e ∈ t.done := hfirst.subset (List.mem_singleton_self e)
  obtain ⟨⟨w, hexec⟩, -⟩ := h.event rfl t (List.mem_of_getElem? ht) e he
  rw [shown_lookup hfirst hop hexec] at hcases
  rcases hcases with hbound | ⟨hbound, ⟨e', he', hshown⟩, hverified⟩
  · -- the account is answered as the look-up has found it
    have hshown : shown e = some r₁ := (shown_lookup hfirst hop hexec).trans hbound
    constructor
    · rintro ⟨hverified, -⟩ r₀ hr₀
      obtain rfl : r₁ = r₀ := Option.some.inj (hbound.symm.trans hr₀)
      exact hverified
    · intro hverified
      exact ⟨hverified r₁ hbound, verified_of_shown hd h ht he hshown (hverified r₁ hbound)⟩
  · -- nothing is found, and the account is marked
    have hverified := hverified hprofile
    refine iff_of_true ⟨hverified, verified_of_shown hd h ht he' hshown hverified⟩ ?_
    intro r₀ hr₀
    rw [hbound] at hr₀
    cases hr₀

end

/-! ### A profile that is verified later -/

/-- The sign-in of task `i` with the profile. -/
def signsIn (i n : ℕ) (emailVerified : Bool) : List (Label (server Config.sample Core.sample)) :=
  .start (.loginWithGoogle ⟨"g", "a@b.c", emailVerified⟩) :: List.replicate n (.step i)

/-- Task `i` has signed in with a verified profile for the e-mail of the account that it answers.
Its look-up has found an account or not, and the account and some stored one are verified, or
neither. -/
def hasSignedIn (i : ℕ) (bound verified : Bool) (s : State Config.sample Core.sample) : Bool :=
  match s.tasks[i]? with
  | some ⟨.loginWithGoogle profile, es, .pure (.session account tokens)⟩ =>
    profile.emailVerified && account.email == normalizeEmail Config.sample.runtime profile.email &&
      (boundAtLookup ⟨.loginWithGoogle profile, es, .pure (.session account tokens)⟩
        profile).isSome ==
        bound && account.emailVerified == verified &&
      s.world.accounts.any (fun r => r.id == account.id && r.emailVerifiedAt.isSome) == verified
  | _ => false

theorem exists_of_hasSignedIn {i : ℕ} {bound verified : Bool}
    {s : State Config.sample Core.sample} (h : hasSignedIn i bound verified s = true) :
    ∃ t profile account tokens, s.tasks[i]? = some t ∧ t.call = .loginWithGoogle profile ∧
      profile.emailVerified = true ∧ t.prog = .pure (.session account tokens) ∧
      account.email = normalizeEmail Config.sample.runtime profile.email ∧
      (boundAtLookup t profile).isSome = bound ∧ account.emailVerified = verified ∧
      s.world.accounts.any (fun r => r.id == account.id && r.emailVerifiedAt.isSome) =
        verified := by
  unfold hasSignedIn at h
  split at h
  · rename_i profile es account tokens ht
    simp only [Bool.and_eq_true, beq_iff_eq] at h
    obtain ⟨⟨⟨⟨hprofile, hemail⟩, hbound⟩, hverified⟩, hstored⟩ := h
    exact ⟨_, profile, account, tokens, ht, rfl, hprofile, rfl, hemail, hbound, hverified, hstored⟩
  · cases h

set_option maxRecDepth 8000 in
/-- A verified profile signs in twice: the first sign-in finds no account and leaves a verified one,
and the second has found a verified one, since it leaves one. -/
theorem signsInVerified_iff_created :
    ∃ s : State Config.sample Core.sample, Run NewAccounts (Sys.init World.sample) s ∧
      (∃ t profile account tokens, s.tasks[0]? = some t ∧ t.call = .loginWithGoogle profile ∧
        t.prog = .pure (.session account tokens) ∧ boundAtLookup t profile = none ∧
        account.emailVerified = true ∧
        ∃ r ∈ s.world.accounts, r.id = account.id ∧ r.emailVerifiedAt.isSome = true) ∧
      ∃ t profile r₀, s.tasks[1]? = some t ∧ t.call = .loginWithGoogle profile ∧
        boundAtLookup t profile = some r₀ ∧ r₀.emailVerifiedAt.isSome = true := by
  obtain ⟨s, h, hp⟩ := exists_run_of_replay (C := NewAccounts) (s := Sys.init World.sample)
    (signsIn 0 17 true ++ signsIn 1 7 true)
    (fun s => hasSignedIn 0 false true s && hasSignedIn 1 true true s) (by decide)
  rw [Bool.and_eq_true] at hp
  have hd : DistinctIds (World.sample : World Core.sample) := .nil
  refine ⟨s, h, ?_, ?_⟩
  · obtain ⟨t, profile, account, tokens, ht, hcall, hprofile, hp, -, hbound, -, -⟩ :=
      exists_of_hasSignedIn hp.1
    have hnone : boundAtLookup t profile = none := by simpa using hbound
    have hverified := (signsInVerified_iff hd h ht hcall hprofile hp).2 fun r₀ hr₀ => by
      rw [hnone] at hr₀
      cases hr₀
    exact ⟨t, profile, account, tokens, ht, hcall, hp, hnone, hverified⟩
  · obtain ⟨t, profile, account, tokens, ht, hcall, hprofile, hp, -, hbound, hverified, hstored⟩ :=
      exists_of_hasSignedIn hp.2
    obtain ⟨r₀, hr₀⟩ := Option.isSome_iff_exists.1 hbound
    obtain ⟨r, hr, hmatch⟩ := List.any_eq_true.1 hstored
    rw [Bool.and_eq_true, beq_iff_eq] at hmatch
    exact ⟨t, profile, r₀, ht, hcall, hr₀,
      (signsInVerified_iff hd h ht hcall hprofile hp).1 ⟨hverified, r, hr, hmatch⟩ r₀ hr₀⟩

set_option maxRecDepth 4000 in
/-- **The account of an unverified profile stays unverified** when the profile is verified. -/
theorem signsInVerified_fails :
    ∃ s : State Config.sample Core.sample, ∃ t profile account tokens,
      Run NewAccounts (Sys.init World.sample) s ∧ s.tasks[1]? = some t ∧
      t.call = .loginWithGoogle profile ∧ profile.emailVerified = true ∧
      t.prog = .pure (.session account tokens) ∧
      account.email = normalizeEmail Config.sample.runtime profile.email ∧
      account.emailVerified = false ∧
      ∀ r ∈ s.world.accounts, r.id = account.id → r.emailVerifiedAt.isSome = false := by
  obtain ⟨s, h, hp⟩ := exists_run_of_replay (C := NewAccounts) (s := Sys.init World.sample)
    (signsIn 0 15 false ++ signsIn 1 7 true) (hasSignedIn 1 true false) (by decide)
  obtain ⟨t, profile, account, tokens, ht, hcall, hprofile, hp, hemail, -, hverified, hstored⟩ :=
    exists_of_hasSignedIn hp
  refine ⟨s, t, profile, account, tokens, h, ht, hcall, hprofile, hp, hemail, hverified, ?_⟩
  intro r hr hid
  have hnone := List.any_eq_false.1 hstored r hr
  rw [hid, beq_self_eq_true, Bool.true_and, Bool.not_eq_true] at hnone
  exact hnone

end Verification

end HelixServer
