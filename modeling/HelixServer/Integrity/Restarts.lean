import HelixServer.Async.Crash
import HelixServer.Identity.Permanence
import HelixServer.Integrity.Authentication
import HelixServer.Integrity.Trail

/-!
# Crashes of the server

With an SQLite or a Postgres database a crash of the server loses the requests it serves and the log
writes that no request awaits; the tables stay, and the server is started again on them.  Then a run
with crashes is a run without (`run_of_lives`), and what is proved of these holds across the
restarts (`durable_of_lives`).
-/

namespace HelixServer

namespace Integrity

open Async Identity

variable (cfg : Config) {core : Core}

/-- What a crash leaves of the world, with the core services in the state `core₀` where nothing is
durable. -/
def kept (core₀ : core.State) (w : World core) : World core :=
  if cfg.storage.hasUniqueIndexes then { w with pendingLogs := [] }
  else { World.empty w.now w.draws core₀ with mails := w.mails }

/-- The second world has, besides, log writes that crashes have lost. -/
def Lost (w v : World core) : Prop := ∃ lost, v = { w with pendingLogs := lost ++ w.pendingLogs }

variable {cfg} {w v w' : World core} {core₀ : core.State}

theorem lost_exec {o : Op} {x : Except HelixError o.Res} (h : Lost w v)
    (he : o.exec cfg w = (x, w')) : ∃ v', o.exec cfg v = (x, v') ∧ Lost w' v' := by
  obtain ⟨lost, rfl⟩ := h
  cases o with
  | audit o =>
    cases o with
    | logDetached eventType payload =>
      cases he
      exact ⟨_, rfl, lost, by simp [Op.effect, AuditOp.exec]⟩
    | _ => cases he; exact ⟨_, rfl, lost, rfl⟩
  | links table o => cases table <;> cases he <;> exact ⟨_, rfl, lost, rfl⟩
  | _ => cases he; exact ⟨_, rfl, lost, rfl⟩

theorem lost_env {x : EnvMove} (h : Lost w v) (he : x.exec w = some w') :
    ∃ (y : EnvMove) (v' : World core), y.exec v = some v' ∧ Lost w' v' := by
  obtain ⟨lost, rfl⟩ := h
  cases x with
  | tick ms => cases he; exact ⟨.tick ms, _, rfl, lost, rfl⟩
  | completeLog k timestamp =>
    simp only [EnvMove.exec] at he
    split at he
    · cases he
    · rename_i p hp
      split_ifs at he with htime
      cases he
      refine ⟨.completeLog (lost.length + k) timestamp, _, ?_, lost, rfl⟩
      simp only [EnvMove.exec]
      rw [List.getElem?_append_right (Nat.le_add_right ..), Nat.add_sub_cancel_left, hp]
      simp only [if_pos htime]
      rw [List.eraseIdx_append_of_length_le (Nat.le_add_right ..), Nat.add_sub_cancel_left]
  | coreLog row =>
    simp only [EnvMove.exec] at he
    split_ifs at he with hrow
    cases he
    exact ⟨.coreLog row, _, if_pos hrow, lost, rfl⟩

theorem lost_kept (hk : cfg.storage.hasUniqueIndexes = true) (h : Lost w v) :
    Lost (kept cfg core₀ w) v := by
  obtain ⟨lost, rfl⟩ := h
  rw [kept, if_pos hk]
  exact ⟨lost ++ w.pendingLogs, by simp⟩

theorem unseen_kept (hk : cfg.storage.hasUniqueIndexes = true) :
    Unseen (M := server cfg core) (kept cfg core₀) Lost :=
  ⟨fun h he => lost_exec h he, fun h he => lost_env h he, lost_kept hk⟩

section

variable {P : World core → Op → Prop} {w₀ : World core} {L L' : Lives (server cfg core)}
  {s : State cfg core}

/-- **A run with crashes is a run without**, which has the same tables in the end and the requests
of all lives, each as far as it has come. -/
theorem run_of_lives (hk : cfg.storage.hasUniqueIndexes = true)
    (hP : ∀ w v o, Lost w v → P w o → P v o)
    (h : CrashRun (kept cfg core₀) (Stepwise P) (.init w₀) L) :
    ∃ s : State cfg core, Run (Stepwise P) (Sys.init w₀) s ∧ Merged Lost L s :=
  exists_run_of_crashes (unseen_kept hk) hP ⟨[], rfl⟩ h

/-! ### What restarts leave -/

theorem exists_twin {es es' : List (Event (server cfg core))}
    (h : List.Forall₂ (EventTwin Lost) es es') {e' : Event (server cfg core)} (he' : e' ∈ es') :
    ∃ e ∈ es, EventTwin Lost e e' := by
  induction h with
  | nil => cases he'
  | cons htwin _ ih =>
    rcases List.mem_cons.1 he' with rfl | he'
    · exact ⟨_, List.mem_cons_self, htwin⟩
    · obtain ⟨e, he, htwin⟩ := ih he'
      exact ⟨e, List.mem_cons_of_mem _ he, htwin⟩

theorem created_twin {e e' : Event (server cfg core)} (h : EventTwin Lost e e') :
    Entry.created e = Entry.created e' := by
  obtain @⟨o, r, w, v, -⟩ := h
  cases o with
  | accounts o => cases o <;> rfl
  | _ => rfl

theorem shown_twin {e e' : Event (server cfg core)} (h : EventTwin Lost e e') :
    Verification.shown e = Verification.shown e' := by
  obtain @⟨o, r, w, v, -⟩ := h
  cases o <;> rfl

theorem Opens.of_twin {c : Call} {es es' : List (Event (server cfg core))} {r : AccountRecord}
    (h : Opens cfg c es' r) (hes : List.Forall₂ (EventTwin Lost) es es') : Opens cfg c es r := by
  cases h with
  | founded hmade h =>
    obtain ⟨e', he', hcreated⟩ := hmade
    obtain ⟨e, he, htwin⟩ := exists_twin hes he'
    exact .founded ⟨e, he, (created_twin htwin).trans hcreated⟩ h
  | password hemail hhash hvalid => exact .password hemail hhash hvalid
  | google he' hshown hid hgoogle =>
    obtain ⟨e, he, htwin⟩ := exists_twin hes he'
    exact .google he ((shown_twin htwin).trans hshown) hid hgoogle
  | email hverified hemail => exact .email hverified hemail

theorem Later.of_lost {w₁ v₁ : World core} (h : Later cfg v v₁) (hl : Lost w v)
    (hl₁ : Lost w₁ v₁) : Later cfg w w₁ := by
  obtain ⟨lost, rfl⟩ := hl
  obtain ⟨lost₁, rfl⟩ := hl₁
  exact ⟨h.now, h.accounts, h.refreshTokens, h.dids, h.issuerKeys, fun table => by
    cases table
    · exact h.links .vcAccountLinks
    · exact h.links .enrollmentTokenAccountLinks
    · exact h.links .challengeAccountLinks, h.auditLog, h.mails⟩

theorem Intact.of_lost (h : Intact v) (hl : Lost w v) : Intact w := by
  obtain ⟨lost, rfl⟩ := hl
  refine ⟨h.refreshTokens, h.issuerKeys, fun table => ?_, h.auditLog, fun p hp => ?_⟩
  · cases table
    · exact h.links .vcAccountLinks
    · exact h.links .enrollmentTokenAccountLinks
    · exact h.links .challengeAccountLinks
  · exact h.pendingLogs p (List.mem_append_right _ hp)

theorem Whole.of_lost (h : Whole cfg v) (hl : Lost w v) : Whole cfg w := by
  obtain ⟨lost, rfl⟩ := hl
  refine ⟨h.distinct, fun r hr did hdid => ?_⟩
  obtain ⟨d, k, hi⟩ := h.issued r hr did hdid
  exact ⟨d, k, hi.issuerDid, hi.did_eq, hi.published, hi.stored, hi.keyDid, hi.pair⟩

theorem newRows_of_unique (hk : cfg.storage.hasUniqueIndexes = true) (s : State cfg core)
    (l : Label (server cfg core)) : NewRows s l := by
  cases l with
  | step i => exact fun o _ => ⟨freshAccountId_of_unique hk _ o, freshToken_of_unique hk _ o⟩
  | _ => trivial

/-- **Restarts lose nothing.**  On a database, in every run with any number of crashes, at any
moments: whatever has been written is there later, no reference dangles, every account with a DID
has its identity, and whoever has been answered a session, in this life or an earlier one, has what
opens its account, and its sign-in is in the log. -/
theorem durable_of_lives (hk : cfg.storage.hasUniqueIndexes = true) (hrt : Correct cfg)
    (hwhole : Whole cfg w₀) (hintact : Intact w₀)
    (h : CrashRun (kept cfg core₀) (Stepwise fun _ _ => True) (.init w₀) L)
    (h' : CrashRun (kept cfg core₀) (Stepwise fun _ _ => True) L L') :
    Later cfg L.sys.world L'.sys.world ∧ Intact L'.sys.world ∧ Whole cfg L'.sys.world ∧
      ∀ t ∈ L'.past ++ L'.sys.tasks, ∀ account tokens, t.prog = .pure (.session account tokens) →
        (∃ r ∈ L'.sys.world.accounts, r.id = account.id ∧ Opens cfg t.call t.done r) ∧
        ∃ row ∈ L'.sys.world.auditLog, row.eventType = signInEvent t.call ∧
          row.payload.getString "accountId" = some account.id := by
  obtain ⟨s, hr, hm⟩ := run_of_lives hk (fun _ _ _ _ h => h) h
  obtain ⟨s', hr', hm'⟩ := hm.run (unseen_kept hk) (fun _ _ _ _ h => h) h'
  have hrun := hr.trans hr'
  have hnamed : DidsNamed cfg w₀ := fun r hr did hdid => by
    obtain ⟨d, k, hi⟩ := hwhole.issued r hr did hdid
    exact hi.did_eq
  have hnew : ∀ (s : State cfg core) l, Stepwise (fun _ _ => True) s l → NewRows s l :=
    fun s l _ => newRows_of_unique hk s l
  refine ⟨?_, ?_, ?_, fun t ht account tokens hp => ?_⟩
  · exact (later_of_run hnew hwhole.distinct hnamed hr hr').of_lost hm.world hm'.world
  · exact (intact_of_run hintact hrun).1.of_lost hm'.world
  · have hfresh : ∀ (w : World core) (o : Op), (fun _ _ => True : World core → Op → Prop) w o →
        FreshAccountId cfg w o := fun w o _ => freshAccountId_of_unique hk w o
    exact Whole.of_lost (held_of_run hrt hfresh hwhole hrun).inv hm'.world
  · obtain ⟨t', ht', htwin⟩ := hm'.mem ht
    have hp' : t'.prog = .pure (.session account tokens) := htwin.prog.trans hp
    obtain ⟨lost, hworld⟩ := hm'.world
    obtain ⟨r, hr₁, hid, hopens⟩ := session_of_run hnew hwhole.distinct hnamed hrun ht' hp'
    obtain ⟨row, hrow, hevent, haccount, -⟩ := (complete_of_run hrun ht').1 account tokens hp'
    rw [hworld] at hr₁ hrow
    rw [htwin.call] at hopens hevent
    exact ⟨⟨r, hr₁, hid, hopens.of_twin htwin.done⟩, row, hrow, hevent, haccount⟩

end

/-- A sign-in that a crash breaks off when it has written the key of its account, and the next one,
which finds the account. -/
theorem durable_of_lives_crash : ∃ L L' : Lives (server Config.sample Core.sample),
    L'.past.length = 1 ∧ Later Config.sample L.sys.world L'.sys.world ∧
      ∃ t ∈ L'.sys.tasks, ∃ account, sessionAccount t = some account ∧
        ∃ r ∈ L'.sys.world.accounts, r.id = account.id := by
  let C : Discipline (server Config.sample Core.sample) := fun _ _ => True
  let next : State Config.sample Core.sample → State Config.sample Core.sample := fun s =>
    Sys.init (@kept Config.sample Core.sample {} s.world)
  let q : State Config.sample Core.sample → Bool := fun s =>
    s.tasks.any fun t => (sessionAccount t).isSome
  let again : List (Label (server Config.sample Core.sample)) :=
    .start (.loginWithGoogle ⟨"g", "a@b.c", true⟩) :: List.replicate 7 (.step 0)
  obtain ⟨s₁, h₁, hp⟩ := exists_run_of_replay (C := C) (s := Sys.init World.sample)
    (.start (.loginWithGoogle ⟨"g", "a@b.c", true⟩) :: List.replicate 8 (.step 0))
    (fun s => s.tasks.length == 1 && (replay C (next s) again).any q) (by decide)
  obtain ⟨hone, hp⟩ := Bool.and_eq_true_iff.1 hp
  obtain ⟨s₂, h₂, hq⟩ := exists_run_of_replay again q hp
  obtain ⟨t, ht, hsome⟩ := List.any_eq_true.1 hq
  obtain ⟨account, haccount⟩ := Option.isSome_iff_exists.1 hsome
  obtain ⟨tokens, hprog⟩ := prog_of_sessionAccount haccount
  have hC : ∀ (s : State Config.sample Core.sample) l, C s l → Stepwise (fun _ _ => True) s l :=
    fun s l _ => by cases l <;> simp [Stepwise]
  have hwhole : Whole Config.sample (World.sample : World Core.sample) :=
    ⟨.nil, fun r hr => absurd hr List.not_mem_nil⟩
  obtain ⟨hlater, -, -, hsession⟩ := @durable_of_lives Config.sample Core.sample {} World.sample
    ⟨[], s₁⟩ ⟨s₁.tasks, s₂⟩ rfl correct_sample hwhole intact_sample
    (crashRun_of_run (h₁.mono hC)) (crashRun_crash.trans (crashRun_of_run (h₂.mono hC)))
  obtain ⟨⟨r, hr, hid, -⟩, -⟩ := hsession t (List.mem_append_right _ ht) account tokens hprog
  exact ⟨⟨[], s₁⟩, ⟨s₁.tasks, s₂⟩, eq_of_beq hone, hlater, t, ht, account, haccount, r, hr, hid⟩

end Integrity

end HelixServer
