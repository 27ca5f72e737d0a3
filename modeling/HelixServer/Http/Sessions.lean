import HelixServer.Http.Requests
import HelixServer.Integrity.Authentication

/-!
# The sessions of the HTTP server

Behind the routes a session is opened for a well-formed request that has what opens the account:
a body with the e-mail and the password of the account, or a code for which Google has shown a
profile of the account (`opened_of_run`).
-/

namespace HelixServer

namespace Http

open Async
open Integrity (DidsNamed DrawsNew NewRows Opens)
open Routes (GoogleConfig)

variable {cfg : Config} {google : GoogleConfig} {G : Google} {core : Core} {w : World core}
  {v : G.State} {s : Sys (front cfg google G core).machine}
  {t : Task (front cfg google G core).machine}

theorem newRows_of_stepwise {s : State cfg core} {l : Label (server cfg core)}
    (h : Stepwise (DrawsNew cfg) s l) : NewRows s l := by
  cases l with
  | step i => exact h
  | _ => trivial

/-- **Who is let in over HTTP.**  In a run of the HTTP server that draws new ids and hashes,
whatever Google answers and whatever is rejected, a request that is answered a session is well
formed, and the call that it says has what opens the account of the session. -/
theorem opened_of_run (hd : DistinctIds w) (hnamed : DidsNamed cfg w)
    (h : Run (Stepwise ((front cfg google G core).Behind (DrawsNew cfg))) (Sys.init (w, v)) s)
    (ht : t ∈ s.tasks) {status : ℕ} {account : AccountSummary} {tokens : AuthTokens}
    (hp : t.prog = .pure (.sent status (.session account tokens))) :
    ∃ c, Reads google t.call (Front.asked t) c ∧ ∃ r ∈ s.world.1.accounts, r.id = account.id ∧
      Opens cfg c (Front.served t) r := by
  obtain ⟨s', hr, hworld, hsent, -⟩ := served_of_run h
  obtain ⟨-, t', ht', hp', hdone, hreads⟩ := hsent t ht status _ hp
  obtain ⟨r, hrow, hid, hopens⟩ :=
    Integrity.session_of_run (fun _ _ => newRows_of_stepwise) hd hnamed hr ht' hp'
  exact ⟨t'.call, hreads, r, hworld ▸ hrow, hid, hdone ▸ hopens⟩

/-- A sign-in with a code for which Google shows a verified profile. -/
theorem opened_of_run_callback :
    ∃ s : Sys (front Config.sample GoogleConfig.sample .sample Core.sample).machine,
      ∃ t ∈ s.tasks, ∃ account tokens, t.prog = .pure (.sent 200 (.session account tokens)) ∧
        ∃ c, Reads GoogleConfig.sample t.call (Front.asked t) c ∧
          ∃ r ∈ s.world.1.accounts, r.id = account.id ∧
            Opens Config.sample c (Front.served t) r := by
  have hd : DistinctIds (World.sample : World Core.sample) := .nil
  have hnamed : DidsNamed Config.sample (World.sample : World Core.sample) := by
    intro r hr
    cases hr
  obtain ⟨s, h, hp⟩ := exists_run_of_replay
    (C := Stepwise ((front Config.sample GoogleConfig.sample .sample Core.sample).Behind
      (DrawsNew Config.sample)))
    (s := Sys.init (World.sample, ()))
    (.start (.googleCallback (some (.one "code"))) :: List.replicate 19 (.step 0))
    (fun s => s.tasks.any fun t => (sessionStatus t == some 200)) (by decide)
  obtain ⟨t, ht, hp⟩ := List.any_eq_true.1 hp
  obtain ⟨account, tokens, hprog⟩ := prog_of_sessionStatus (eq_of_beq hp)
  exact ⟨s, t, ht, account, tokens, hprog, opened_of_run hd hnamed h ht hprog⟩

end Http

end HelixServer
