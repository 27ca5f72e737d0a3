import HelixServer.Integrity.Authentication
import HelixServer.Verification.Resend

/-!
# What verifies an account

An account is verified only by a request that shows its user to own the e-mail: it presents the
token that has been mailed to the e-mail, before it expires, or a profile in which Google has
verified the e-mail (`proved_of_run`).  The token may also be one whose mail the request that has
written it is still to send, or whose mail has been rejected.
-/

namespace HelixServer

namespace Integrity

open Async
open Verification (NewAccounts distinctIds_of_run shown Found exists_shown tokenPatch Delivered Open
  delivered_or_open grown_of_run)

variable {cfg : Config} {core : Core} {w₀ : World core} {s s' : State cfg core}
  {l : Label (server cfg core)} {t : Task (server cfg core)} {r : AccountRecord}
  {C : Discipline (server cfg core)} {a : String}

/-- A request has confirmed the e-mail of the account. -/
def ConfirmedBy (s : State cfg core) (a : String) : Prop :=
  ∃ t ∈ s.tasks, Confirmed cfg t.call t.done a

theorem ConfirmedBy.step (h : ConfirmedBy s a) (hst : Step s l s') : ConfirmedBy s' a := by
  obtain ⟨t, ht, hconfirmed⟩ := h
  obtain ⟨t', ht', hcall, hdone⟩ := hst.exists_later ht
  exact ⟨t', ht', hcall ▸ hconfirmed.mono hdone⟩

theorem Patches.confirmed {c : Call} {es : List (Event (server cfg core))} {patch : AccountPatch}
    {now : ℕ} (h : Patches cfg c es a patch)
    (hverified : (r.patched patch now).emailVerifiedAt.isSome = true) :
    r.emailVerifiedAt.isSome = true ∨ Confirmed cfg c es a := by
  cases h with
  | verified h _ => exact .inr h
  | _ => exact .inl hverified

/-- **Every verification has been confirmed.** -/
theorem confirmed_of_run (hC : ∀ s l, C s l → NewAccounts s l) (hd : DistinctIds w₀)
    (h : Run C (Sys.init w₀) s) : ∀ r ∈ s.world.accounts, r.emailVerifiedAt.isSome = true →
      (∃ r₀ ∈ w₀.accounts, r₀.id = r.id ∧ r₀.emailVerifiedAt.isSome = true) ∨
        ConfirmedBy s r.id := by
  refine h.invariant (I := fun s => ∀ r ∈ s.world.accounts, r.emailVerifiedAt.isSome = true →
      (∃ r₀ ∈ w₀.accounts, r₀.id = r.id ∧ r₀.emailVerifiedAt.isSome = true) ∨ ConfirmedBy s r.id)
    (fun r hr hverified => .inl ⟨r, hr, rfl, hverified⟩)
      fun s l s' hrun ih hl hst r hr hverified => ?_
  have hold : ∀ {r : AccountRecord}, r ∈ s.world.accounts → r.emailVerifiedAt.isSome = true →
      (∃ r₀ ∈ w₀.accounts, r₀.id = r.id ∧ r₀.emailVerifiedAt.isSome = true) ∨ ConfirmedBy s' r.id :=
    fun hr hverified => (ih _ hr hverified).imp_right fun hby => hby.step hst
  cases accountStep_of_run hC hd hrun hl hst with
  | same hrows => exact hold (hrows ▸ hr) hverified
  | created ht hmade hcreates hrows =>
    rw [hrows] at hr
    rcases List.mem_append.1 hr with hr | hr
    · exact hold hr hverified
    · -- a new account is not verified
      obtain rfl := List.mem_singleton.1 hr
      cases hverified
  | @updated t es a patch now ht hes hpatch hrows =>
    rw [hrows] at hr
    obtain ⟨r₀, hr₀, rfl⟩ := List.mem_map.1 hr
    by_cases hid : r₀.id = a
    · subst hid
      have hrow : Accounts.updateRow r₀.id patch now r₀ = r₀.patched patch now := if_pos (by simp)
      rw [hrow] at hverified ⊢
      rw [AccountRecord.patched_id]
      rcases hpatch.confirmed hverified with hverified | hconfirmed
      · exact hold hr₀ hverified
      · exact .inr ⟨t, ht, hconfirmed.mono hes⟩
    · have hrow : Accounts.updateRow a patch now r₀ = r₀ := if_neg (by simpa using hid)
      rw [hrow] at hverified ⊢
      exact hold hr₀ hverified

/-- What the request shows of the e-mail of the account. -/
inductive Proves (C : Discipline (server cfg core)) (w₀ : World core) (s : State cfg core)
    (t : Task (server cfg core)) (r : AccountRecord) : Prop
  /-- It presents a token.  In the state `s₁` in which it looked the token up, the account stored
  the token, which had been mailed to the e-mail of the account, or whose own send was open. -/
  | token {token : String} {s₁ : State cfg core} {t₁ : Task (server cfg core)}
      {k : Option AccountRecord → Promise Reply} {r₁ : AccountRecord}
      (hcall : t.call = .verifyEmail token) (h₁ : Run C (Sys.init w₀) s₁) (h₂ : Run C s₁ s)
      (ht₁ : t₁ ∈ s₁.tasks) (hdone : t₁.done <+: t.done)
      (hlook : t₁.prog = .call (.accounts (.findByEmailVerificationTokenHash
        (hashOpaqueToken cfg.runtime token))) k)
      (hr₁ : r₁ ∈ s₁.world.accounts) (hid : r₁.id = r.id) (hemail : r₁.email = r.email)
      (hstored : r₁.emailVerificationTokenHash = some (hashOpaqueToken cfg.runtime token))
      (hmail : Delivered cfg s₁.world r₁ ∨ Open s₁ r₁) : Proves C w₀ s t r
  /-- Google has verified the e-mail. -/
  | google {profile : GoogleProfile} (hcall : t.call = .loginWithGoogle profile)
      (hverified : profile.emailVerified = true)
      (hemail : r.email = normalizeEmail cfg.runtime profile.email) : Proves C w₀ s t r

/-- A request that has confirmed the e-mail of the account has proved it to be its user's. -/
theorem Confirmed.proves (hC : ∀ s l, C s l → NewAccounts s l) (hd : DistinctIds w₀)
    (h₀ : ∀ r ∈ w₀.accounts, r.emailVerificationTokenHash = none) (h : Run C (Sys.init w₀) s)
    (ht : t ∈ s.tasks) (hr : r ∈ s.world.accounts)
    (hconfirmed : Confirmed cfg t.call t.done r.id) : Proves C w₀ s t r := by
  generalize hid : r.id = a at hconfirmed
  generalize hcall : t.call = c at hconfirmed
  cases hconfirmed with
  | google hverified hfound =>
    exact .google hcall hverified (hfound.email_eq hC hd h ht hr hid)
  | @token token _ account expiresAt now w w' he hexpires hnow hlt =>
    -- the state in which the token has been looked up
    obtain ⟨i, hi⟩ := List.getElem?_of_mem ht
    obtain ⟨es, es', hdone⟩ := List.append_of_mem he
    obtain ⟨s₁, s₂, t₁, k, h₁, hl, hst, ht₁, -, hdone₁, hlook, hw, hexec, h₂⟩ :=
      h.made rfl i t hi es _ es' hdone
    have hrest : Run C s₁ s := (Lts.Run.single hl hst).trans h₂
    have hfind : s₁.world.accounts.find? (fun r => r.emailVerificationTokenHash ==
        some (hashOpaqueToken cfg.runtime token)) = some account := by
      rw [hw]
      exact Except.ok.inj (congrArg Prod.fst (Op.exec_of_accounts hexec))
    have hmem := List.mem_of_find?_eq_some hfind
    have hstored : account.emailVerificationTokenHash =
        some (hashOpaqueToken cfg.runtime token) := by
      simpa using List.find?_some hfind
    have hemail : r.email = account.email :=
      ((grown_of_run hC hd h₁ hrest).of_id (distinctIds_of_run hC hd h) hmem hr hid).1
    have hmail : Delivered cfg s₁.world account ∨ Open s₁ account :=
      delivered_or_open hC hd h₀ h₁ account hmem (by rw [hstored]; rfl)
    have hprefix : t₁.done <+: t.done := by
      rw [hdone₁, hdone]
      exact List.prefix_append ..
    exact .token hcall h₁ hrest (List.mem_of_getElem? ht₁) hprefix hlook hmem hid.symm hemail.symm
      hstored hmail

/-- **Who verifies an account owns its e-mail.**  From a world without pending tokens, along every
run that draws new account ids, whatever is rejected, an account that is verified was so from the
start, or a request has confirmed its e-mail: with the token that the account stored, before it
expired, which had been mailed to the e-mail when it was looked up, unless the task that had written
it had made no call since; or with a profile in which Google has verified it. -/
theorem proved_of_run (hC : ∀ s l, C s l → NewAccounts s l) (hd : DistinctIds w₀)
    (h₀ : ∀ r ∈ w₀.accounts, r.emailVerificationTokenHash = none) (h : Run C (Sys.init w₀) s) :
    ∀ r ∈ s.world.accounts, r.emailVerifiedAt.isSome = true →
      (∃ r₀ ∈ w₀.accounts, r₀.id = r.id ∧ r₀.emailVerifiedAt.isSome = true) ∨
        ∃ t ∈ s.tasks, Confirmed cfg t.call t.done r.id ∧ Proves C w₀ s t r := by
  intro r hr hverified
  rcases confirmed_of_run hC hd h r hr hverified with hinit | ⟨t, ht, hconfirmed⟩
  · exact .inl hinit
  · exact .inr ⟨t, ht, hconfirmed, hconfirmed.proves hC hd h₀ h ht hr⟩

set_option maxRecDepth 4000 in
/-- A registration whose link is opened. -/
theorem proved_of_run_link : ∃ s : State Config.sample Core.sample,
    Run NewAccounts (Sys.init .sample) s ∧ ∃ r ∈ s.world.accounts,
      r.emailVerifiedAt.isSome = true ∧ ∃ t ∈ s.tasks, Confirmed Config.sample t.call t.done r.id ∧
        Proves NewAccounts .sample s t r := by
  have hd : DistinctIds (World.sample : World Core.sample) := .nil
  have h₀ : ∀ r ∈ (World.sample : World Core.sample).accounts,
      r.emailVerificationTokenHash = none := by
    intro r hr
    cases hr
  obtain ⟨s, h, hp⟩ := exists_run_of_replay (C := NewAccounts) (s := Sys.init World.sample)
    (Verification.registered ++
      .start (.verifyEmail Verification.sampleLink) :: List.replicate 4 (.step 1))
    (fun s => s.world.accounts.any (·.emailVerifiedAt.isSome)) (by decide)
  obtain ⟨r, hr, hverified⟩ := List.any_eq_true.1 hp
  refine ⟨s, h, r, hr, hverified, ?_⟩
  refine (proved_of_run (fun _ _ h => h) hd h₀ h r hr hverified).resolve_left ?_
  rintro ⟨_, hr₀, -⟩
  cases hr₀

end Integrity

end HelixServer
