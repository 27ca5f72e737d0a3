import HelixServer.Drivers.Server
import HelixServer.Integrity.References

/-!
# The foreign keys of the Postgres schema

The rows of refresh tokens and issuer keys refer to the accounts table, and a database refuses a row
of a missing account.  No request of the server is ever refused so: whenever one is about to write a
row that names an account, the account is in the table (`foreignKeys_of_run`), although most of them
have looked it up many calls ago, and other requests have been served since.
-/

namespace HelixServer

namespace Drivers

open Async Integrity Store Verification

/-- The configuration with a Postgres database. -/
def onPostgres (cfg : Config) : Config := { cfg with storage := .postgres }

/-- The server on a Postgres database. -/
abbrev database (cfg : Config) (core : Core) (E : Engines) :
    Backing (server (onPostgres cfg) core) :=
  onBackend (onPostgres cfg) core (prismaBackend E)

/-- The accounts table. -/
def accountsTable {core : Core} {E : Engines} (v : DriverWorld (prismaBackend E) core) :
    List AccountRecord := v.accounts

/-- The database holds the rows of a world. -/
abbrev HoldsRows {core : Core} (E : Engines) :
    DriverWorld (prismaBackend E) core → World core → Prop := Holds (prismaHolding E)

section

variable {cfg : Config} {core : Core} {E : Engines} {P : World core → Op → Prop}
  {s : Sys (database cfg core E).machine} {t : Task (database cfg core E).machine}

/-- **No foreign key is ever violated.**  In every run on a Postgres database that writes new
tokens, whatever is rejected, a request that is about to write a row that names an account finds the
account in the accounts table. -/
theorem foreignKeys_of_run (hP : ∀ w o, P w o → NewHashes (onPostgres cfg) w o)
    {v₀ : DriverWorld (prismaBackend E) core} {w₀ : World core} (h₀ : HoldsRows E v₀ w₀)
    (hids : DistinctIds w₀) (htokens : DistinctTokens w₀) (hintact : Intact w₀)
    (h : Run (Stepwise ((database cfg core E).Under (HoldsRows E) P)) (Sys.init v₀) s)
    (ht : t ∈ s.tasks) {o : Op} {k : o.Res → Promise Reply} (hp : t.prog = .call o k) {a : String}
    (ha : refersTo o = some a) : hasAccount (accountsTable s.world) a = true := by
  obtain ⟨s', hr, hsim⟩ := @exists_run_of_holding (onPostgres cfg) core (prismaBackend E) P s
    (prismaHolding E) hP v₀ w₀ h₀ hids htokens h
  obtain ⟨i, hi⟩ := List.mem_iff_getElem?.1 ht
  obtain ⟨t', ht', htask⟩ := hsim.task hi
  -- the request of the model is about to make the same call
  have hallowed := causes_kept.allowed_of_run hr ht' (htask.prog.symm.trans hp)
  obtain ⟨r, hrow, hid⟩ := (intact_of_run hintact hr).2 t' (List.mem_of_getElem? ht') a
    (known_of_refersTo hallowed ha)
  have htable : accountsTable s.world = s'.world.accounts := hsim.world.accounts.1
  rw [hasAccount, htable, List.any_eq_true]
  exact ⟨r, hrow, beq_iff_eq.2 hid⟩

end

/-! ### A sign-in on a Postgres database -/

/-- An empty database. -/
def emptyDatabase : DriverWorld (prismaBackend .sample) Core.sample :=
  ⟨([] : List AccountRecord), ([] : List RefreshTokenRecord), ([] : List IssuerKeyRecordRow),
    fun _ => ([] : List AccountLink), .sample⟩

theorem holds_emptyDatabase : HoldsRows .sample emptyDatabase World.sample := by
  refine ⟨⟨rfl, ?_⟩, ⟨rfl, .nil⟩, ⟨rfl, .nil⟩, fun table => ?_, rfl⟩
  · intro r hr
    cases hr
  · cases table <;> exact ⟨rfl, .nil⟩

/-- The verification token that a call writes is not in the accounts table. -/
def newInTable (v : DriverWorld (prismaBackend .sample) Core.sample) (o : Op) : Bool :=
  (tokenHash o).all fun h => (accountsTable v).all fun r => r.emailVerificationTokenHash != some h

theorem newHashes_of_newInTable {v : DriverWorld (prismaBackend .sample) Core.sample} {o : Op}
    (h : newInTable v o = true) (w : World Core.sample) (hw : HoldsRows .sample v w) :
    NewHashes (onPostgres .sample) w o := by
  refine ⟨freshAccountId_of_unique rfl w o, fun hash hhash r hr => ?_⟩
  have hrows : accountsTable v = w.accounts := hw.accounts.1
  exact bne_iff_ne.1
    (List.all_eq_true.1 (Option.all_eq_true _ _ |>.1 h hash hhash) r (hrows ▸ hr))

/-- What the next call of a task refers to. -/
def nextReference (t : Task (database .sample Core.sample .sample).machine) : Option String :=
  match t.prog with
  | .call o _ => refersTo o
  | _ => none

/-- A sign-in that is about to store the refresh token of the account that it has created. -/
theorem foreignKeys_of_run_signIn : ∃ s : Sys (database .sample Core.sample .sample).machine,
    (accountsTable s.world).length = 1 ∧
      ∃ t ∈ s.tasks, ∃ a, nextReference t = some a ∧
        hasAccount (accountsTable s.world) a = true := by
  obtain ⟨s, h, hp⟩ := exists_run_of_replay (M := (database .sample Core.sample .sample).machine)
    (C := Stepwise fun v o => newInTable v o = true) (s := Sys.init emptyDatabase)
    (.start (.loginWithGoogle ⟨"g", "a@b.c", true⟩) :: List.replicate 14 (.step 0))
    (fun s => (accountsTable s.world).length == 1 && s.tasks.any fun t => (nextReference t).isSome)
    (by decide)
  obtain ⟨hone, hp⟩ := Bool.and_eq_true_iff.1 hp
  obtain ⟨t, ht, hsome⟩ := List.any_eq_true.1 hp
  obtain ⟨a, ha⟩ := Option.isSome_iff_exists.1 hsome
  refine ⟨s, eq_of_beq hone, t, ht, a, ha, ?_⟩
  have hids : DistinctIds (World.sample : World Core.sample) := .nil
  have htokens : DistinctTokens (World.sample : World Core.sample) := by
    intro r hr
    cases hr
  have hrun : Run (Stepwise ((database .sample Core.sample .sample).Under (HoldsRows .sample)
      (NewHashes (onPostgres .sample)))) (Sys.init emptyDatabase) s := by
    refine h.mono fun s l hl => ?_
    cases l with
    | step i => exact fun o ho => newHashes_of_newInTable (hl o ho)
    | _ => trivial
  unfold nextReference at ha
  split at ha
  · rename_i o k hprog
    exact foreignKeys_of_run (fun _ _ h => h) holds_emptyDatabase hids htokens intact_sample
      hrun ht hprog ha
  · cases ha

end Drivers

end HelixServer
