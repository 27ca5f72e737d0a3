import HelixServer.Async.Solo
import HelixServer.Server

/-!
# Requests of a hosted account

`Hosted cfg w request a` : in the world `w` the guard takes the request for one of the account `a`.
Run alone, the guard of the routes without a quota then answers `a` after two calls
(`returns_authenticated`).
-/

namespace HelixServer

namespace Access

open Async

variable {cfg : Config} {core : Core} {w : World core} {request : Request} {a : String}

/-- The request carries an access token of the account `a`, which exists, is verified and has a
name, and no admin key. -/
structure Hosted (cfg : Config) (w : World core) (request : Request) (a : String) : Prop where
  deps : cfg.accountOrAdminGuardDeps = true
  notOperator : request.isAdmin cfg = false
  token : ∃ token payload, request.bearerToken = some token ∧
    cfg.verifyAccessToken token w.now = .ok payload ∧ payload.accountId = a
  verified : ∃ account, w.accounts.find? (·.id == a) = some account ∧
    account.emailVerifiedAt.isSome = true
  named : a ≠ ""

theorem Hosted.truthy (h : Hosted cfg w request a) : truthy (some a) = some a := by
  simp [HelixServer.truthy, h.named]

theorem solo_now {α : Type} {n : ℕ} {f : ℕ → Promise α} :
    (server cfg core).solo (n + 1) (dateNow >>= f) w =
      (server cfg core).solo n (f w.now) (w.drawn 1) := rfl

theorem solo_findById {α : Type} {n : ℕ} {f : Option AccountRecord → Promise α} :
    (server cfg core).solo (n + 1) (AccountRepository.findById a >>= f) w =
      (server cfg core).solo n (f (w.accounts.find? (·.id == a))) (w.drawn 1) := rfl

theorem solo_authenticated (h : Hosted cfg w request a) :
    (server cfg core).solo 2 (Routes.authenticated cfg request) w =
      some (.pure (some a), w.drawn 2) := by
  obtain ⟨hdeps, hadmin, ⟨token, payload, htoken, hverify, rfl⟩, haccount, -⟩ := h
  obtain ⟨account, hfind, hverified⟩ := haccount
  have hverified' : ((some account).bind (·.emailVerifiedAt)).isNone = false :=
    Option.isNone_eq_false_iff.2 hverified
  have hfind' : (w.drawn 1).accounts.find? (·.id == payload.accountId) = some account := hfind
  simp only [Routes.authenticated, hdeps, if_true, resolveAccountOrAdmin, hadmin,
    Bool.false_eq_true, if_false, htoken, resolveBearer]
  rw [solo_now, hverify, solo_findById, hfind']
  simp only [hverified', Bool.false_eq_true, if_false]
  rfl

theorem solo_await {α : Type} {n : ℕ} {o : Op} {r : o.Res} {w' : World core} {f : o.Res → Promise α}
    (h : o.exec cfg w = (.ok r, w')) :
    (server cfg core).solo (n + 1) (await o >>= f) w = (server cfg core).solo n (f r) w' :=
  solo_ok h

theorem solo_guarded {α : Type} {n : ℕ} {f : Option String → Promise α}
    (h : Hosted cfg w request a) :
    (server cfg core).solo (n + 2) (Routes.authenticated cfg request >>= f) w =
      (server cfg core).solo n (f (some a)) (w.drawn 2) := by
  rw [Nat.add_comm]
  exact solo_bind (solo_authenticated h)

theorem returns_of_solo {α β : Type} {n : ℕ} {p : Promise α} {b : α} {w' : World core} {f : α → β}
    {reply : β} (h : (server cfg core).solo n p w = some (.pure b, w')) :
    (server cfg core).Returns (p >>= fun b => pure (f b)) w reply ↔ reply = f b :=
  (returns_bind h).trans returns_pure

theorem hosted_sample (h : w.accounts = World.sampleHosted.accounts) :
    Hosted Config.sampleHosted w sampleRequest "acct:1" where
  deps := rfl
  notOperator := rfl
  token := ⟨"acct:1", ⟨"acct:1", [], 0, 0, ""⟩, by decide, rfl, rfl⟩
  verified := ⟨_, by rw [h]; rfl, rfl⟩
  named := by decide

end Access

end HelixServer
