import HelixServer.Verification.Growth

/-!
# Pending tokens

A verified account has no pending token in every state of every run in which no token is written for
an account that is verified by then (`settled_of_run`).  The program of a resend reads that the
account is not verified several calls before it writes the token, so that a sign-in that verifies
the account in between leaves a verified account with a pending token (`settled_fails`).
-/

namespace HelixServer

namespace Verification

open Async

variable {cfg : Config} {core : Core}

/-- The patch sets a token. -/
def writesToken (patch : AccountPatch) : Bool :=
  patch.any fun x => match x with
    | .emailVerificationTokenHash h => h.isSome
    | _ => false

/-- The account that the call sets a token for. -/
def tokenWrite : Op → Option String
  | .accounts (.update a patch) => if writesToken patch then some a else none
  | _ => none

/-- No token is written for a verified account. -/
def TokensForUnverified : Discipline (server cfg core) := fun s l =>
  match l with
  | .step i => ∀ o ∈ s.nextCall i, ∀ a ∈ tokenWrite o, ∀ r ∈ s.world.accounts, r.id = a →
      r.emailVerifiedAt = none
  | _ => True

/-- New accounts have new ids, and no token is written for a verified account. -/
def Careful : Discipline (server cfg core) := fun s l => NewAccounts s l ∧ TokensForUnverified s l

instance (s : State cfg core) (l : Label (server cfg core)) : Decidable (Careful s l) :=
  match l with
  | .step i => inferInstanceAs (Decidable (NewAccounts s (.step i) ∧
      ∀ o ∈ s.nextCall i, ∀ a ∈ tokenWrite o, ∀ r ∈ s.world.accounts, r.id = a →
        r.emailVerifiedAt = none))
  | .start _ | .fail _ | .env _ => .isTrue ⟨trivial, trivial⟩

/-- The two token fields are set together, and null once the account is verified. -/
structure Settled (r : AccountRecord) : Prop where
  together : r.emailVerificationTokenHash.isSome = r.emailVerificationExpiresAt.isSome
  verified : r.emailVerifiedAt.isSome = true →
    r.emailVerificationTokenHash = none ∧ r.emailVerificationExpiresAt = none

theorem settled_row (data : AccountCreateData) (id : String) (now : ℕ) :
    Settled (data.row id now) :=
  ⟨rfl, fun _ => ⟨rfl, rfl⟩⟩

/-- A patch keeps the fields settled, if it sets no token of a verified account. -/
theorem IsPatch.settled {patch : AccountPatch} (h : IsPatch patch) {r : AccountRecord} (now : ℕ)
    (hr : Settled r) (htoken : writesToken patch = true → r.emailVerifiedAt = none) :
    Settled (r.patched patch now) := by
  cases h with
  | googleId g => exact ⟨hr.together, hr.verified⟩
  | issuerDid did => exact ⟨hr.together, hr.verified⟩
  | token tokenHash expiresAt =>
    refine ⟨rfl, fun hverified => ?_⟩
    have hnone : (r.patched (tokenPatch tokenHash expiresAt) now).emailVerifiedAt = none :=
      htoken rfl
    rw [hnone] at hverified
    cases hverified
  | verified at_ => exact ⟨rfl, fun _ => ⟨rfl, rfl⟩⟩

theorem Wrote.settled {w w' : World core} {o : Op} (h : Wrote cfg w w' o)
    (hw : ∀ r ∈ w.accounts, Settled r)
    (htoken : ∀ a ∈ tokenWrite o, ∀ r ∈ w.accounts, r.id = a → r.emailVerifiedAt = none) :
    ∀ r ∈ w'.accounts, Settled r := by
  intro r hr
  cases h with
  | create data hnew hrows =>
    rw [hrows] at hr
    rcases List.mem_append.1 hr with hr | hr
    · exact hw r hr
    · obtain rfl := List.mem_singleton.1 hr
      exact settled_row _ _ _
  | update a patch hpatch hrows =>
    rw [hrows] at hr
    obtain ⟨r₀, hr₀, rfl⟩ := List.mem_map.1 hr
    unfold Accounts.updateRow
    split_ifs with hid
    · refine hpatch.settled _ (hw r₀ hr₀) fun hwrites => htoken a ?_ r₀ hr₀ (by simpa using hid)
      simp [tokenWrite, hwrites]
    · exact hw r₀ hr₀

section

variable {w₀ : World core} {s s' : State cfg core}

theorem settled_rows (hd : DistinctIds w₀) (h₀ : ∀ r ∈ w₀.accounts, Settled r)
    (h : Run Careful (Sys.init w₀) s) : ∀ r ∈ s.world.accounts, Settled r := by
  refine h.invariant (I := fun s => ∀ r ∈ s.world.accounts, Settled r) h₀
    fun s l s' hr ih hl hst => ?_
  rcases step_rows (verification_kept.obeyed hr) (distinctIds_of_run (fun _ _ => And.left) hd hr)
    hl.1 hst with hrows | ⟨i, o, rfl, hnext, -, hwrote⟩
  · rw [hrows]
    exact ih
  · exact hwrote.settled ih (hl.2 o hnext)

/-- **A verified account carries no pending token.**  In every state of a run in which no token is
written for a verified account, the token fields of an account are null or set together, null if the
account is verified, and the account stays verified. -/
theorem settled_of_run (hd : DistinctIds w₀) (h₀ : ∀ r ∈ w₀.accounts, Settled r)
    (h : Run Careful (Sys.init w₀) s) :
    (∀ r ∈ s.world.accounts, Settled r) ∧
      ∀ s', Run Careful s s' → ∀ r ∈ s.world.accounts, r.emailVerifiedAt.isSome = true →
        ∃ r' ∈ s'.world.accounts, r'.id = r.id ∧ r'.emailVerifiedAt.isSome = true := by
  refine ⟨settled_rows hd h₀ h, fun s' h' r hr hverified => ?_⟩
  obtain ⟨r', hr', hid, -, hgrown⟩ := grown_of_run (fun _ _ => And.left) hd h h' r hr
  exact ⟨r', hr', hid, hgrown hverified⟩

end

/-! ### A resend beside a sign-in -/

/-- Some account is verified. -/
def hasVerified (s : State Config.sample Core.sample) : Bool :=
  s.world.accounts.any (·.emailVerifiedAt.isSome)

/-- No call is in progress, and a verified account has a pending token. -/
def hasPending (s : State Config.sample Core.sample) : Bool :=
  decide s.Idle && s.world.accounts.any fun r =>
    r.emailVerifiedAt.isSome && r.emailVerificationTokenHash.isSome

/-- A registration. -/
def registered : List (Label (server Config.sample Core.sample)) :=
  .start (.register { email := "a@b.c", password := "password" }) :: List.replicate 18 (.step 0)

/-- The sign-in with Google that links and verifies the account, as task `i`. -/
def linked (i : ℕ) : List (Label (server Config.sample Core.sample)) :=
  .start (.loginWithGoogle ⟨"g", "a@b.c", true⟩) :: List.replicate 12 (.step i)

/-- The sign-in runs between the look-up of a resend and its write. -/
def crossed : List (Label (server Config.sample Core.sample)) :=
  registered ++ [.start (.resendVerificationEmail "a@b.c"), .step 1] ++ linked 2 ++
    List.replicate 4 (.step 1)

set_option maxRecDepth 4000 in
theorem settled_of_run_linked :
    ∃ s, Run Careful (Sys.init World.sample) s ∧ hasVerified s = true ∧
      ∀ r ∈ s.world.accounts, Settled r := by
  obtain ⟨s, h, hverified⟩ := exists_run_of_replay (C := Careful) (s := Sys.init World.sample)
    (registered ++ linked 1) hasVerified (by decide)
  have hd : DistinctIds (World.sample : World Core.sample) := .nil
  have hsettled : ∀ r ∈ (World.sample : World Core.sample).accounts, Settled r := by
    intro r hr
    cases hr
  exact ⟨s, h, hverified, (settled_of_run hd hsettled h).1⟩

set_option maxRecDepth 4000 in
/-- **A verified account with a pending token.** -/
theorem settled_fails : ∃ s, Run NewAccounts (Sys.init World.sample) s ∧ hasPending s = true :=
  exists_run_of_replay crossed hasPending (by decide)

end Verification

end HelixServer
