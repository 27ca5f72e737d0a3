import HelixServer.SignIn.Refinement

/-!
# Google bindings

`linkGoogleId` writes the Google id of a verified profile into the account with its e-mail, whatever
Google id the account has.  So the Google id of an account is permanent exactly as long as the id is
linked to accounts only that have none, or have this one: in such a run an account keeps its
Google id and is entered with no other (`binding_permanent`).  Otherwise the second of two verified
profiles with one e-mail takes the account over (`binding_replaced`).

## Main definitions

* `Bound d id g` : the account `id` has the Google id `g`.
* `KeepsBindings`, `FirstLinks` : no link replaces a Google id.
-/

namespace HelixServer

namespace SignIn

open Async

/-- The account `id` has the Google id `g`. -/
def Bound (d : Directory) (id g : String) : Prop := ∃ l ∈ d.logins, l.id = id ∧ l.googleId = some g

/-- The account `id` has no Google id, or `g`. -/
def Unbound (d : Directory) (id g : String) : Prop :=
  ∀ l ∈ d.logins, l.id = id → l.googleId = none ∨ l.googleId = some g

/-- No link replaces a Google id. -/
def LinksUnbound (m : Model) : Act → Prop
  | .move i => ∀ p ∈ m.parties[i]?, ∀ profile r, p.stage = .matched profile r →
      Unbound m.directory r.id profile.googleId
  | .join _ => True

section Model

variable {cfg : Config} {d d' : Directory} {q q' : Stage} {m m' : Model} {a : Act} {id g : String}

theorem Move.keeps_bound (h : Move cfg d q d' q')
    (hfree : ∀ profile r, q = .matched profile r → Unbound d r.id profile.googleId)
    (hb : Bound d id g) : Bound d' id g := by
  obtain ⟨l, hl, hid, hg⟩ := hb
  cases h with
  | register _ _ _ _ | registerByGoogle _ _ _ => exact ⟨l, List.mem_append_left _ hl, hid, hg⟩
  | link profile r =>
    refine ⟨_, List.mem_map_of_mem hl, (sameAccount_bind _ _ l).id.trans hid, ?_⟩
    by_cases hr : l.id = r.id
    · -- the account that is linked has this Google id already
      rcases hfree profile r rfl l hl hr with hnone | hsame
      · rw [hg] at hnone; cases hnone
      · rw [Login.bind_googleId hr, ← hsame, hg]
    · rw [Login.bind_of_ne hr]; exact hg
  | _ => exact ⟨l, hl, hid, hg⟩

theorem Move.bound_of_google {profile : GoogleProfile} (h : Move cfg d q d' q')
    (hof : q.Of cfg (.loginWithGoogle profile)) (hknown : ∀ r ∈ q.subject, Known d r)
    (hkeep : ∀ id, Bound d id profile.googleId → Bound d' id profile.googleId)
    (hq : ∀ id ∈ q.account, Bound d id profile.googleId) :
    ∀ id ∈ q'.account, Bound d' id profile.googleId := by
  cases h with
  | stay _ => exact hq
  | bound profile' l hl hbound =>
    cases hof
    rintro _ ⟨⟩
    exact ⟨l, hl, rfl, hbound⟩
  | link profile' r =>
    obtain ⟨hcall, -, -⟩ := hof
    cases hcall
    rintro _ ⟨⟩
    obtain ⟨l, hl, hsame⟩ := hknown r rfl
    exact ⟨_, List.mem_map_of_mem hl, (sameAccount_bind _ _ l).id.trans hsame.id,
      Login.bind_googleId hsame.id⟩
  | registerByGoogle profile' id hid =>
    cases hof
    rintro _ ⟨⟩
    exact ⟨_, List.mem_concat_self, rfl, rfl⟩
  | draw id bytes bytes' => exact hq
  | issue id bytes hnew => exact hq
  | register input passwordHash id hid => obtain ⟨hcall, -⟩ := hof; cases hcall
  | pass r passwordHash password hvalid => obtain ⟨input, hcall, -⟩ := hof; cases hcall
  | renew r bytes => obtain ⟨refreshToken, hcall, -⟩ := hof; cases hcall
  | _ => intro id hid; cases hid

/-- The accounts that Google sign-ins enter have their Google ids. -/
structure Entered (cfg : Config) (m : Model) : Prop extends Consistent cfg m where
  bound : ∀ p ∈ m.parties, ∀ profile, p.call = .loginWithGoogle profile →
    ∀ id ∈ p.stage.account, Bound m.directory id profile.googleId

theorem Step.keeps_bound (h : Step cfg m a m') (ha : LinksUnbound m a)
    (hb : Bound m.directory id g) : Bound m'.directory id g := by
  cases h with
  | join _ => exact hb
  | move hp hm => exact hm.keeps_bound (ha _ hp) hb

theorem Entered.step (he : Entered cfg m) (ha : LinksUnbound m a) (h : Step cfg m a m') :
    Entered cfg m' := by
  have hkeep : ∀ {id g}, Bound m.directory id g → Bound m'.directory id g := h.keeps_bound ha
  refine ⟨he.toConsistent.step h, fun p hp profile hcall id hid => ?_⟩
  cases h with
  | join c =>
    rcases List.mem_append.1 hp with hp | hp
    · exact hkeep (he.bound p hp profile hcall id hid)
    · obtain rfl := List.mem_singleton.1 hp
      cases c <;> cases hid
  | move hi hm =>
    have hi' := List.mem_of_getElem? hi
    rcases Model.mem_put hp with rfl | hp
    · exact hm.bound_of_google (hcall ▸ he.of _ hi') (he.known _ hi') (fun _ => hkeep)
        (he.bound _ hi' profile hcall) id hid
    · exact hkeep (he.bound p hp profile hcall id hid)

variable {m₀ : Model}

/-- **Bindings are permanent** in a run whose links replace none. -/
theorem bound_of_run (h : (lts cfg).Run LinksUnbound m₀ m) (hb : Bound m₀.directory id g) :
    Bound m.directory id g :=
  h.invariant (I := fun m => Bound m.directory id g) hb fun _ _ _ _ ih ha hst =>
    Step.keeps_bound hst ha ih

theorem entered_of_run (h : (lts cfg).Run LinksUnbound m₀ m) (he : Entered cfg m₀) :
    Entered cfg m :=
  h.invariant he fun _ _ _ _ ih ha hst => ih.step ha hst

end Model

/-! ### The server -/

section Server

variable {cfg : Config} {core : Core} {w₀ : World core} {s s' : State cfg core}

/-- The account that a call links a Google id to, and the Google id. -/
def linkedTo : Op → Option (String × String)
  | .accounts (.update id [.googleId (some g)]) => some (id, g)
  | _ => none

/-- A Google id is linked to an account that has none, or has this one. -/
def KeepsBindings (w : World core) (o : Op) : Prop :=
  ∀ x ∈ linkedTo o, ∀ r ∈ w.accounts, r.id = x.1 → r.googleId = none ∨ r.googleId = some x.2

/-- What is drawn is new, and Google ids are linked only so. -/
def FirstLinks : Discipline (server cfg core) := fun s l =>
  NewDraws s l ∧ match l with
    | .step i => ∀ o ∈ s.nextCall i, KeepsBindings s.world o
    | _ => True

theorem linksUnbound_of_firstLinks {i : ℕ} {t : Task (server cfg core)} {o : Op} {k}
    (h : FirstLinks s (.step i)) (ht : s.tasks[i]? = some t) (hp : t.prog = .call o k)
    (ha : (stageOf t).Allows cfg o) : LinksUnbound (model s) (.move i) := by
  intro p hparty profile r hstage l hl hid
  obtain rfl : partyOf t = p := Option.some.inj ((model_parties ht).symm.trans hparty)
  have hq : stageOf t = .matched profile r := hstage
  rw [hq] at ha
  subst ha
  obtain ⟨row, hrow, rfl⟩ := List.mem_map.1 hl
  exact h.2 _ (Sys.nextCall_eq ht hp) (r.id, profile.googleId) rfl row hrow hid

theorem model_of_firstLinks {s₀ : State cfg core} (ho : (protocol cfg core).relax.Obeyed s₀)
    (hd : DistinctIds s₀.world) (h : Run FirstLinks s₀ s) :
    (lts cfg).Run LinksUnbound (model s₀) (model s) ∧ (protocol cfg core).relax.Obeyed s ∧
      DistinctIds s.world :=
  model_run (fun _ _ hl => hl.1) (fun _ _ _ => trivial)
    (fun _ _ _ _ _ hl ht hp ha => linksUnbound_of_firstLinks hl ht hp ha) ho hd h

/-- A session is answered for the account that the request has entered. -/
theorem account_of_answers {q : Stage} {account : AccountSummary} {tokens : AuthTokens}
    (h : q.Answers cfg (.session account tokens)) : account.id ∈ q.account := by
  cases q with
  | opened id bytes => exact congrArg some h.1.symm
  | _ => exact h.elim

/-- **A Google id is permanent, if no link replaces one.**  In every run whose links hit accounts
without a Google id, or with the linked one, an account keeps its Google id, and every session that
a Google sign-in opens for the account is one of this Google id. -/
theorem binding_permanent (hids : DistinctIds w₀)
    (h : Run FirstLinks (Sys.init w₀ : State cfg core) s)
    (h' : Run FirstLinks s s') {r : AccountRecord} (hr : r ∈ s.world.accounts) {g : String}
    (hg : r.googleId = some g) :
    (∃ r' ∈ s'.world.accounts, r'.id = r.id ∧ r'.googleId = some g) ∧
      ∀ t ∈ s'.tasks, ∀ profile account tokens, t.call = .loginWithGoogle profile →
        t.prog = .pure (.session account tokens) → account.id = r.id → profile.googleId = g := by
  have hids₀ : DistinctIds (Sys.init w₀ : State cfg core).world := hids
  obtain ⟨hm, ho, hd⟩ := model_of_firstLinks (Protocol.obeyed_init w₀) hids₀ h
  obtain ⟨hm', ho', -⟩ := model_of_firstLinks ho hd h'
  have hinit : Entered cfg (model (Sys.init w₀ : State cfg core)) :=
    ⟨consistent_init hids, fun p hp => absurd hp List.not_mem_nil⟩
  have hentered := entered_of_run (hm.trans hm') hinit
  have hbound : Bound (model s').directory r.id g :=
    bound_of_run hm' ⟨_, mem_logins hr, rfl, hg⟩
  refine ⟨?_, fun t ht profile account tokens hcall hp hid => ?_⟩
  · obtain ⟨l, hl, hid, hgoogle⟩ := hbound
    obtain ⟨r', hr', rfl⟩ := List.mem_map.1 hl
    exact ⟨r', hr', hid, hgoogle⟩
  · obtain ⟨i, hi, hti⟩ := List.mem_iff_getElem.1 ht
    have hans := ho'.answers (List.getElem?_eq_some_iff.2 ⟨hi, hti⟩) hp
    have hstage : account.id ∈ (stageOf t).account := account_of_answers hans
    obtain ⟨l, hl, hlid, hlg⟩ := hentered.bound _ (List.mem_map_of_mem ht) profile hcall _ hstage
    obtain ⟨l', hl', hlid', hlg'⟩ := hbound
    obtain rfl := hentered.distinct.eq_of_id hl hl' (by rw [hlid, hlid', hid])
    exact Option.some.inj (hlg.symm.trans hlg')

end Server

/-! ### Two profiles with one e-mail -/

instance {core : Core} (w : World core) : DecidablePred (KeepsBindings w) := fun o =>
  inferInstanceAs (Decidable (∀ x ∈ linkedTo o, ∀ r ∈ w.accounts, r.id = x.1 →
    r.googleId = none ∨ r.googleId = some x.2))

instance {cfg : Config} {core : Core} (s : State cfg core) (l : Label (server cfg core)) :
    Decidable (FirstLinks s l) :=
  match l with
  | .step i => inferInstanceAs (Decidable (NewDraws s (.step i) ∧
      ∀ o ∈ s.nextCall i, KeepsBindings s.world o))
  | .start c => inferInstanceAs (Decidable (NewDraws s (.start c) ∧ True))
  | .fail i => inferInstanceAs (Decidable (NewDraws s (.fail i) ∧ True))
  | .env x => inferInstanceAs (Decidable (NewDraws s (.env x) ∧ True))

/-- The Google id and the account of a Google sign-in that has ended with a session. -/
def enteredBy {cfg : Config} {core : Core} (t : Task (server cfg core)) :
    Option (String × String) :=
  match t.call, t.prog with
  | .loginWithGoogle profile, .pure (.session account _) => some (profile.googleId, account.id)
  | _, _ => none

theorem enteredBy_eq {cfg : Config} {core : Core} {t : Task (server cfg core)} {g id : String}
    (h : enteredBy t = some (g, id)) : ∃ profile account tokens, t.call = .loginWithGoogle profile ∧
      t.prog = .pure (.session account tokens) ∧ profile.googleId = g ∧ account.id = id := by
  unfold enteredBy at h
  split at h
  · rename_i profile account tokens hcall hprog
    cases h
    exact ⟨profile, account, tokens, hcall, hprog, rfl, rfl⟩
  · cases h

/-- The account of the sample server, with the Google id `g`. -/
def hasGoogleId (g : String) (s : State Config.sample Core.sample) : Bool :=
  s.world.accounts.any fun r => r.id == "acct:002" && r.googleId == some g

theorem hasGoogleId_iff {g : String} {s : State Config.sample Core.sample} :
    hasGoogleId g s = true ↔ ∃ r ∈ s.world.accounts, r.id = "acct:002" ∧ r.googleId = some g := by
  simp [hasGoogleId]

/-- A verified Google sign-in. -/
def googleSignIn (g : String) : Call := .loginWithGoogle ⟨g, "a@b.c", true⟩

/-- A Google sign-in that creates the account `acct:002`. -/
def firstSignIn : List (Label (server Config.sample Core.sample)) :=
  .start (googleSignIn "g1") :: List.replicate 17 (.step 0)

/-- Another one after it. -/
def secondSignIn (g : String) (calls : ℕ) : List (Label (server Config.sample Core.sample)) :=
  .start (googleSignIn g) :: List.replicate calls (.step 1)

/-- **The second of two profiles with one e-mail** replaces the Google id, and enters the
account. -/
theorem binding_replaced : ∃ s s' : State Config.sample Core.sample,
    Run NewDraws (Sys.init .sample) s ∧ Run NewDraws s s' ∧
      (∃ r ∈ s.world.accounts, r.id = "acct:002" ∧ r.googleId = some "g1") ∧
      (∃ r ∈ s'.world.accounts, r.id = "acct:002" ∧ r.googleId = some "g2") ∧
      ∃ t ∈ s'.tasks, ∃ profile account tokens, t.call = .loginWithGoogle profile ∧
        t.prog = .pure (.session account tokens) ∧ profile.googleId = "g2" ∧
          account.id = "acct:002" := by
  obtain ⟨s, h, hp⟩ := exists_run_of_replay (C := NewDraws)
    (s := (Sys.init .sample : State Config.sample Core.sample)) firstSignIn
    (fun s => hasGoogleId "g1" s && (replay NewDraws s (secondSignIn "g2" 10)).any fun s' =>
      hasGoogleId "g2" s' && (s'.tasks.any fun t => enteredBy t == some ("g2", "acct:002")))
    (by decide)
  obtain ⟨hg, hp⟩ := Bool.and_eq_true_iff.1 hp
  obtain ⟨s', h', hp'⟩ := exists_run_of_replay _ _ hp
  obtain ⟨hg', hp'⟩ := Bool.and_eq_true_iff.1 hp'
  obtain ⟨t, ht, hentered⟩ := List.any_eq_true.1 hp'
  exact ⟨s, s', h, h', hasGoogleId_iff.1 hg, hasGoogleId_iff.1 hg', t, ht,
    enteredBy_eq (eq_of_beq hentered)⟩

/-- A second sign-in with the same Google id. -/
theorem binding_permanent_again : ∃ s s' : State Config.sample Core.sample,
    Run FirstLinks (Sys.init .sample) s ∧ Run FirstLinks s s' ∧ s'.tasks.length = 2 ∧
      ∃ r ∈ s.world.accounts, r.id = "acct:002" ∧
        (∃ r' ∈ s'.world.accounts, r'.id = r.id ∧ r'.googleId = some "g1") ∧
        ∀ t ∈ s'.tasks, ∀ profile account tokens, t.call = .loginWithGoogle profile →
          t.prog = .pure (.session account tokens) → account.id = r.id →
            profile.googleId = "g1" := by
  obtain ⟨s, h, hp⟩ := exists_run_of_replay (C := FirstLinks)
    (s := (Sys.init .sample : State Config.sample Core.sample)) firstSignIn
    (fun s => hasGoogleId "g1" s && (replay FirstLinks s (secondSignIn "g1" 7)).any fun s' =>
      s'.tasks.length == 2) (by decide)
  obtain ⟨hg, hp⟩ := Bool.and_eq_true_iff.1 hp
  obtain ⟨s', h', hp'⟩ := exists_run_of_replay _ _ hp
  obtain ⟨r, hr, hid, hg⟩ := hasGoogleId_iff.1 hg
  exact ⟨s, s', h, h', eq_of_beq hp', r, hr, hid, binding_permanent (by decide) h h' hr hg⟩

end SignIn

end HelixServer
