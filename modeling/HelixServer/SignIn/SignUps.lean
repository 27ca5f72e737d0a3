import HelixServer.Async.Path
import HelixServer.SignIn.Refinement

/-!
# Registrations and Google sign-ins, one at a time

`alone` says how a registration or a Google sign-in ends that no other request overlaps, and what it
makes of the accounts.

## Main definitions

* `Member` : what sign-ups see of an account.
* `SignUp`, `Outcome`, `alone` : the calls, their ends, and how each ends alone.
* `spec` : the sequential executions.
* `Indexed` : no two accounts have one e-mail, or one Google id.
-/

namespace HelixServer

namespace SignIn

open Async

/-- What sign-ups see of an account. -/
structure Member where
  id : String
  email : String
  googleId : Option String
  deriving DecidableEq

/-- The member with the Google id `g`, if it is the account `id`. -/
def Member.bind (id g : String) (m : Member) : Member :=
  if m.id = id then { m with googleId := some g } else m

/-- A login without its password. -/
def memberOf (l : Login) : Member := ⟨l.id, l.email, l.googleId⟩

/-- The accounts of a directory. -/
def members (d : Directory) : List Member := d.logins.map memberOf

/-- The calls that can create an account. -/
inductive SignUp where
  | register (input : RegisterInput)
  | loginWithGoogle (profile : GoogleProfile)

namespace SignUp

/-- The call of the server. -/
def call : SignUp → Call
  | register input => .register input
  | loginWithGoogle profile => .loginWithGoogle profile

/-- The e-mail of a sign-up. -/
def email : SignUp → String
  | register input => input.email
  | loginWithGoogle profile => profile.email

end SignUp

/-- How a sign-up ends. -/
inductive Outcome where
  /-- With a session for the account `id`. -/
  | signedIn (id : String)
  | refused (e : HelixError)
  deriving DecidableEq

/-- The outcome that a request is bound to. -/
def Stage.outcome : Stage → Option Outcome
  | .ready id _ | .opened id _ => some (.signedIn id)
  | .refused e => some (.refused e)
  | _ => none

/-- How a sign-up ends alone, and what it makes of the accounts; `id` is the id that a new account
draws. -/
def alone (cfg : Config) (id : String) (ms : List Member) : SignUp → Outcome × List Member
  | .register input =>
    let email := normalizeEmail cfg.runtime input.email
    match ms.find? (·.email == email) with
    | some _ => (.refused .accountAlreadyExists, ms)
    | none => (.signedIn id, ms ++ [⟨id, email, none⟩])
  | .loginWithGoogle profile =>
    match ms.find? (·.googleId == some profile.googleId) with
    | some m => (.signedIn m.id, ms)
    | none =>
      let email := normalizeEmail cfg.runtime profile.email
      match ms.find? (·.email == email) with
      | some m =>
        if profile.emailVerified then (.signedIn m.id, ms.map (Member.bind m.id profile.googleId))
        else (.refused (.accountNotFound "Google account email is not verified"), ms)
      | none => (.signedIn id, ms ++ [⟨id, email, some profile.googleId⟩])

/-- A sign-up of the party `party`, and how it has ended. -/
structure Ending where
  party : ℕ
  signUp : SignUp
  outcome : Outcome

/-- Sign-ups one after another. -/
def spec (cfg : Config) : Lts (List Member) Ending :=
  ⟨fun ms x ms' => ∃ id, alone cfg id ms x.signUp = (x.outcome, ms')⟩

theorem spec_deterministic (cfg : Config) : (spec cfg).Deterministic := by
  rintro ms ⟨i, x, o⟩ ms₁ ms₂ ⟨id₁, h₁⟩ ⟨id₂, h₂⟩
  cases x with
  | register input =>
    simp only [alone] at h₁ h₂
    split at h₁ <;> rename_i hfind <;> simp only [hfind] at h₂
    · cases h₁; cases h₂; rfl
    · cases h₁; cases h₂; rfl
  | loginWithGoogle profile =>
    simp only [alone] at h₁ h₂
    split at h₁ <;> rename_i hfind <;> simp only [hfind] at h₂
    · cases h₁; cases h₂; rfl
    · split at h₁ <;> rename_i hfind' <;> simp only [hfind'] at h₂
      · split_ifs at h₁ h₂ <;> cases h₁ <;> cases h₂ <;> rfl
      · cases h₁; cases h₂; rfl

/-- No two accounts have one e-mail, or one Google id. -/
structure Indexed (ms : List Member) : Prop where
  email : ∀ m ∈ ms, ∀ m' ∈ ms, m.email = m'.email → m = m'
  googleId : ∀ m ∈ ms, ∀ m' ∈ ms, ∀ g, m.googleId = some g → m'.googleId = some g → m = m'

section Alone

variable {cfg : Config} {id : String} {ms : List Member} {m : Member} {input : RegisterInput}
  {profile : GoogleProfile}

theorem find?_email (h : Indexed ms) {email : String} (hm : m ∈ ms) (he : m.email = email) :
    ms.find? (·.email == email) = some m := by
  cases hf : ms.find? (·.email == email) with
  | none => exact absurd (by simpa using he) (by simpa using List.find?_eq_none.1 hf m hm)
  | some m' =>
    have he' : m'.email = email := by simpa using List.find?_some hf
    rw [h.email m' (List.mem_of_find?_eq_some hf) m hm (he'.trans he.symm)]

theorem find?_googleId (h : Indexed ms) {g : String} (hm : m ∈ ms) (hg : m.googleId = some g) :
    ms.find? (·.googleId == some g) = some m := by
  cases hf : ms.find? (·.googleId == some g) with
  | none => exact absurd (by simpa using hg) (by simpa using List.find?_eq_none.1 hf m hm)
  | some m' =>
    have hg' : m'.googleId = some g := by simpa using List.find?_some hf
    rw [h.googleId m' (List.mem_of_find?_eq_some hf) m hm g hg' hg]

theorem find?_free {p : Member → Bool} (h : ∀ m ∈ ms, p m = false) : ms.find? p = none := by
  simpa using h

theorem alone_taken (h : Indexed ms) (hm : m ∈ ms)
    (he : m.email = normalizeEmail cfg.runtime input.email) :
    alone cfg id ms (.register input) = (.refused .accountAlreadyExists, ms) := by
  simp only [alone, find?_email h hm he]

theorem alone_register (hfree : ∀ m ∈ ms, m.email ≠ normalizeEmail cfg.runtime input.email) :
    alone cfg id ms (.register input) =
      (.signedIn id, ms ++ [⟨id, normalizeEmail cfg.runtime input.email, none⟩]) := by
  have hnone : ms.find? (·.email == normalizeEmail cfg.runtime input.email) = none :=
    find?_free fun m hm => by simpa using hfree m hm
  simp only [alone, hnone]

theorem alone_bound (h : Indexed ms) (hm : m ∈ ms) (hg : m.googleId = some profile.googleId) :
    alone cfg id ms (.loginWithGoogle profile) = (.signedIn m.id, ms) := by
  simp only [alone, find?_googleId h hm hg]

/-- A Google sign-in whose Google id is not bound, and whose e-mail has an account. -/
theorem alone_match (h : Indexed ms) (hfree : ∀ m ∈ ms, m.googleId ≠ some profile.googleId)
    (hm : m ∈ ms) (he : m.email = normalizeEmail cfg.runtime profile.email) :
    alone cfg id ms (.loginWithGoogle profile) =
      if profile.emailVerified then
        (.signedIn m.id, ms.map (Member.bind m.id profile.googleId))
      else (.refused (.accountNotFound "Google account email is not verified"), ms) := by
  have hnone : ms.find? (·.googleId == some profile.googleId) = none :=
    find?_free fun m hm => by simpa using hfree m hm
  simp only [alone, hnone, find?_email h hm he]

theorem alone_create (hfree : ∀ m ∈ ms, m.googleId ≠ some profile.googleId)
    (hfree' : ∀ m ∈ ms, m.email ≠ normalizeEmail cfg.runtime profile.email) :
    alone cfg id ms (.loginWithGoogle profile) = (.signedIn id, ms ++
      [⟨id, normalizeEmail cfg.runtime profile.email, some profile.googleId⟩]) := by
  have hnone : ms.find? (·.googleId == some profile.googleId) = none :=
    find?_free fun m hm => by simpa using hfree m hm
  have hnone' : ms.find? (·.email == normalizeEmail cfg.runtime profile.email) = none :=
    find?_free fun m hm => by simpa using hfree' m hm
  simp only [alone, hnone, hnone']

end Alone

/-! ### The members of a directory -/

section Members

variable {d : Directory}

/-- No account has the e-mail. -/
def Directory.Free (d : Directory) (email : String) : Prop := ∀ l ∈ d.logins, l.email ≠ email

/-- No account has the Google id. -/
def Directory.Loose (d : Directory) (g : String) : Prop := ∀ l ∈ d.logins, l.googleId ≠ some g

theorem members_forall {p : Member → Prop} (h : ∀ l ∈ d.logins, p (memberOf l)) :
    ∀ m ∈ members d, p m := by
  intro m hm
  obtain ⟨l, hl, rfl⟩ := List.mem_map.1 hm
  exact h l hl

theorem mem_members {l : Login} (h : l ∈ d.logins) : memberOf l ∈ members d :=
  List.mem_map_of_mem h

theorem members_bind (id g : String) :
    members (d.bind id g) = (members d).map (Member.bind id g) := by
  simp only [members, Directory.bind, List.map_map]
  refine List.map_congr_left fun l _ => ?_
  by_cases h : l.id = id <;> simp [memberOf, Login.bind, Member.bind, h]

theorem members_enrol (l : Login) : members (d.enrol l) = members d ++ [memberOf l] := by
  simp [members, Directory.enrol]

end Members

end SignIn

end HelixServer
