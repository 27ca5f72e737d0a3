import HelixServer.Async.Outcome
import HelixServer.Routes.Auth
import HelixServer.Server

/-!
# What resending a verification mail reveals

`resendVerificationEmail` makes two calls for an account that is registered and not verified, the
write of the new token and the sending of the mail, and none for any other e-mail.  So its outcome
tells whether there is such an account as soon as one of the two fails (`sameOutcome_iff`).

* `resendFaults write mail` : the behaviour of the token write and of the e-mail sender.
* `Pending cfg w email` : there is an account with the e-mail that is not verified.
-/

namespace HelixServer

open Async

/-- Reachable rows can be patched: the token write breaks no unique index. -/
theorem Accounts.update_succeeds {kind : StorageDriverKind} {rows : List AccountRecord}
    {r : AccountRecord} (patch : AccountPatch) (now : ℕ)
    (hu : kind.hasUniqueIndexes = true → Accounts.Unique rows) (hr : r ∈ rows)
    (hkeys : ∀ r r' : AccountRecord, (r.patched patch now).conflicts r' = r.conflicts r') :
    ∃ row rows', Accounts.update kind r.id patch now rows = (.ok row, rows') := by
  obtain ⟨r₀, hfind⟩ : ∃ r₀, rows.find? (·.id == r.id) = some r₀ := by
    rw [← Option.isSome_iff_exists, List.find?_isSome]
    exact ⟨r, hr, beq_self_eq_true _⟩
  have hid : r₀.id = r.id := by simpa using List.find?_some hfind
  have hany : ¬ (kind.hasUniqueIndexes && (rows.filter (·.id != r.id)).any
      (r₀.patched patch now).conflicts) = true := by
    intro hconflict
    simp only [Bool.and_eq_true, List.any_eq_true, List.mem_filter, bne_iff_ne, hkeys] at hconflict
    obtain ⟨hk, r', ⟨hr', hne⟩, hc⟩ := hconflict
    exact hne (((hu hk) r₀ (List.mem_of_find?_eq_some hfind) r' hr' hc).symm.trans hid)
  exact ⟨r₀.patched patch now, _, by simp only [Accounts.update, hfind, if_neg hany]; rfl⟩

namespace Verification

/-- The calls that are rejected: the token write, or the sending of the mail. -/
def resendFaults (write mail : Bool) : Op → Bool
  | .accounts (.update _ _) => write
  | .sendMail _ => mail
  | _ => false

section

variable {cfg : Config} {core : Core} {w w' : World core} {write mail : Bool} {email : String}

/-- The first account with the e-mail is not verified. -/
def Pending (cfg : Config) (w : World core) (email : String) : Prop :=
  ∃ account, w.accounts.find? (·.email == normalizeEmail cfg.runtime email) = some account ∧
    account.emailVerifiedAt = none

theorem outcome_lookup {α : Type} {found : Option AccountRecord}
    {f : Option AccountRecord → Promise α}
    (hfind : w.accounts.find? (·.email == normalizeEmail cfg.runtime email) = found) :
    (server cfg core).outcome (resendFaults write mail)
        (AccountRepository.findByEmail (normalizeEmail cfg.runtime email) >>= f) w =
      (server cfg core).outcome (resendFaults write mail) (f found) (w.drawn 1) := by
  subst hfind
  exact outcome_call rfl rfl

theorem outcome_sendVerificationEmail {account : AccountRecord} {a email : String}
    (hu : cfg.storage.hasUniqueIndexes = true → Accounts.Unique w.accounts)
    (hr : account ∈ w.accounts) (ha : account.id = a) (hsender : cfg.emailSender = true) :
    (server cfg core).outcome (resendFaults write mail)
        (AuthService.sendVerificationEmail cfg a email) w =
      if write || mail then .error .rejected else .ok () := by
  subst ha
  rw [AuthService.sendVerificationEmail, if_pos hsender]
  -- the random source and the clock do not fail
  refine (outcome_call rfl rfl).trans ((outcome_call rfl rfl).trans ?_)
  obtain ⟨row, rows, hupdate⟩ := Accounts.update_succeeds
    [.emailVerificationTokenHash (some (hashOpaqueToken cfg.runtime
        (opaqueToken "vrf" (cfg.runtime.randomBytes w.draws 32)))),
      .emailVerificationExpiresAt (some (w.now + cfg.emailVerificationTtlHours * 60 * 60 * 1000))]
    w.now hu hr fun _ _ => rfl
  cases write with
  | true => exact outcome_rejected rfl
  | false =>
    have hwritten := congrArg Prod.fst hupdate
    refine (outcome_call rfl (Prod.ext hwritten rfl)).trans ?_
    cases mail with
    | true => exact outcome_rejected rfl
    | false => exact (outcome_call rfl rfl).trans outcome_pure

/-- For an account that is not verified, resending ends with a rejection if one of its two calls is
rejected. -/
theorem outcome_resend_of_pending
    (hu : cfg.storage.hasUniqueIndexes = true → Accounts.Unique w.accounts)
    (hsender : cfg.emailSender = true) (hpending : Pending cfg w email) :
    (server cfg core).outcome (resendFaults write mail)
        (AuthService.resendVerificationEmail cfg email) w =
      if write || mail then .error .rejected else .ok () := by
  obtain ⟨account, hfind, hverified⟩ := hpending
  rw [AuthService.resendVerificationEmail]
  refine (outcome_lookup hfind).trans ?_
  change (server cfg core).outcome (resendFaults write mail) (if account.emailVerifiedAt.isSome =
    true then _ else _) (w.drawn 1) = _
  rw [hverified, if_neg (by decide)]
  exact outcome_sendVerificationEmail hu (List.mem_of_find?_eq_some hfind) rfl hsender

/-- For any other e-mail, and without a sender, resending succeeds. -/
theorem outcome_resend_of_silent (h : ¬ (cfg.emailSender = true ∧ Pending cfg w email)) :
    (server cfg core).outcome (resendFaults write mail)
        (AuthService.resendVerificationEmail cfg email) w = .ok () := by
  rw [AuthService.resendVerificationEmail]
  cases hfind : w.accounts.find? (·.email == normalizeEmail cfg.runtime email) with
  | none => exact (outcome_lookup hfind).trans outcome_pure
  | some account =>
    refine (outcome_lookup hfind).trans ?_
    change (server cfg core).outcome (resendFaults write mail) (if account.emailVerifiedAt.isSome =
      true then _ else _) (w.drawn 1) = _
    by_cases hverified : account.emailVerifiedAt.isSome = true
    · rw [if_pos hverified]
      exact outcome_pure
    · have hsender : cfg.emailSender = false := by
        rw [← Bool.not_eq_true]
        exact fun hsender => h ⟨hsender, account, hfind, Option.not_isSome_iff_eq_none.1 hverified⟩
      rw [if_neg hverified, AuthService.sendVerificationEmail, if_neg (by rw [hsender]; decide)]
      exact outcome_pure

/-- Resending ends with the same outcome in both worlds, as a method and as a route. -/
def SameOutcome (cfg : Config) (write mail : Bool) (w w' : World core) (email : String) : Prop :=
  (server cfg core).outcome (resendFaults write mail)
      (AuthService.resendVerificationEmail cfg email) w =
    (server cfg core).outcome (resendFaults write mail)
      (AuthService.resendVerificationEmail cfg email) w' ∧
  ∀ body : Json, body.getString "email" = some email →
    (server cfg core).outcome (resendFaults write mail) (Routes.resendVerification cfg body) w =
      (server cfg core).outcome (resendFaults write mail) (Routes.resendVerification cfg body) w'

theorem outcome_route {body : Json} (hbody : body.getString "email" = some email)
    (h : (server cfg core).outcome (resendFaults write mail)
        (AuthService.resendVerificationEmail cfg email) w =
      (server cfg core).outcome (resendFaults write mail)
        (AuthService.resendVerificationEmail cfg email) w') :
    (server cfg core).outcome (resendFaults write mail) (Routes.resendVerification cfg body) w =
      (server cfg core).outcome (resendFaults write mail)
        (Routes.resendVerification cfg body) w' := by
  rw [Routes.resendVerification, hbody]
  split_ifs
  · rw [outcome_raise, outcome_raise]
  · dsimp only
    split_ifs
    · exact (outcome_map fun _ => 202).trans ((congrArg _ h).trans (outcome_map fun _ => 202).symm)
    · rw [outcome_raise, outcome_raise]

/-- **When resending reveals nothing.**  The outcomes in two worlds are the same if and only if no
sender is configured, or neither the token write nor the sender fails, or both worlds have an
account with the e-mail that is not verified or neither has one. -/
theorem sameOutcome_iff (hu : cfg.storage.hasUniqueIndexes = true → Accounts.Unique w.accounts)
    (hu' : cfg.storage.hasUniqueIndexes = true → Accounts.Unique w'.accounts) :
    SameOutcome cfg write mail w w' email ↔ cfg.emailSender = false ∨
      (write = false ∧ mail = false) ∨ (Pending cfg w email ↔ Pending cfg w' email) := by
  have hmethod : SameOutcome cfg write mail w w' email ↔
      (server cfg core).outcome (resendFaults write mail)
          (AuthService.resendVerificationEmail cfg email) w =
        (server cfg core).outcome (resendFaults write mail)
          (AuthService.resendVerificationEmail cfg email) w' :=
    ⟨And.left, fun h => ⟨h, fun _ hbody => outcome_route hbody h⟩⟩
  rw [hmethod]
  by_cases hsender : cfg.emailSender = true
  · have hsilent : ∀ {w : World core}, ¬ Pending cfg w email →
        (server cfg core).outcome (resendFaults write mail)
          (AuthService.resendVerificationEmail cfg email) w = .ok () :=
      fun hnot => outcome_resend_of_silent fun h => hnot h.2
    by_cases hp : Pending cfg w email <;> by_cases hp' : Pending cfg w' email
    · simp [outcome_resend_of_pending hu hsender hp,
        outcome_resend_of_pending hu' hsender hp', hp, hp']
    · cases write <;> cases mail <;>
        simp [outcome_resend_of_pending hu hsender hp, hsilent hp', hp, hp', hsender]
    · cases write <;> cases mail <;>
        simp [outcome_resend_of_pending hu' hsender hp', hsilent hp, hp, hp', hsender]
    · simp [hsilent hp, hsilent hp', hp, hp']
  · rw [outcome_resend_of_silent fun h => hsender h.1,
      outcome_resend_of_silent fun h => hsender h.1]
    simp [hsender]

end

/-! ### A sender that fails -/

/-- An account that is not verified. -/
def sampleAccount : AccountRecord where
  id := "acct:1"
  email := "a@b.c"
  passwordHash := some "password"
  googleId := none
  issuerDid := none
  companyName := none
  fieldOfOperation := none
  emailVerifiedAt := none
  emailVerificationTokenHash := none
  emailVerificationExpiresAt := none
  createdAt := 0
  updatedAt := 0

/-- The world where it is registered. -/
def sampleRegistered : World Core.sample := { World.sample with accounts := [sampleAccount] }

theorem unique_sample : Accounts.Unique sampleRegistered.accounts := by
  intro r hr r' hr' _
  rw [List.mem_singleton.1 hr, List.mem_singleton.1 hr']

theorem sameOutcome_iff_sample :
    SameOutcome Config.sample false false sampleRegistered World.sample "a@b.c" :=
  (sameOutcome_iff (fun _ => unique_sample) fun _ _ hr => absurd hr List.not_mem_nil).2
    (.inr (.inl ⟨rfl, rfl⟩))

/-- While the sender fails, the outcome tells that the account is registered. -/
theorem sameOutcome_fails :
    ¬ SameOutcome Config.sample false true sampleRegistered World.sample "a@b.c" := by
  intro h
  have hfails : (server Config.sample Core.sample).outcome (resendFaults false true)
      (AuthService.resendVerificationEmail Config.sample "a@b.c") sampleRegistered =
    .error .rejected := rfl
  have hsilent : (server Config.sample Core.sample).outcome (resendFaults false true)
      (AuthService.resendVerificationEmail Config.sample "a@b.c") World.sample = .ok () := rfl
  have hsame := h.1
  rw [hfails, hsilent] at hsame
  cases hsame

end Verification

end HelixServer
