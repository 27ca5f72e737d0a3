import HelixServer.SignIn.SignUps
import HelixServer.SignIn.Binding

/-!
# Concurrent sign-ups

Registrations and Google sign-ins for one address interleave.  A request that creates an account for
an address that has got one since it looked it up is rejected by the unique index, and a Google
sign-in can be refused by an account that has been created with its own Google id since it looked
that id up.  In runs without either nothing is rejected (`Regular.accepts`), and the e-mails and
Google ids stay unique.

## Main definitions

* `SignUps cfg e` : sign-ups for the address `e`, where nothing fails but for the unique indexes on
  e-mails and Google ids.
* `Overtaken` : another request has created the account with the Google id of this one.
* `Unraced` : no request creates an account for an address that has one, and no request that is
  overtaken looks up its address.
* `Regular` : the invariant.
-/

namespace HelixServer

namespace SignIn

open Async

variable {cfg : Config} {core : Core}

/-! ### The runs -/

/-- A sign-up for the address `e`. -/
def SignsUpAs (cfg : Config) (e : String) (c : Call) : Prop :=
  ∃ x : SignUp, c = x.call ∧ normalizeEmail cfg.runtime x.email = e

/-- The row that a call creates. -/
def creates : Op → Option AccountCreateData
  | .accounts (.create data) => some data
  | _ => none

/-- The unique indexes on e-mails and Google ids can reject the call. -/
def isIndexed (o : Op) : Bool := (creates o).isSome || (linkedTo o).isSome

/-- A new account has a new id, and no call fails but for the unique indexes on e-mails and Google
ids. -/
def Works (cfg : Config) (w : World core) (o : Op) : Prop :=
  (∀ _data ∈ creates o, ∀ r ∈ w.accounts, r.id ≠ w.freshId cfg "acct") ∧
    (isIndexed o = false → (o.exec cfg w).1.isOk = true)

/-- Sign-ups for the address `e`. -/
def SignUps (cfg : Config) (e : String) : Discipline (server cfg core) := fun s l =>
  match l with
  | .start c => SignsUpAs cfg e c
  | .step i => ∀ o ∈ s.nextCall i, Works cfg s.world o
  | .fail _ => False
  | .env _ => True

/-- The account that a call has created, and its Google id. -/
def createdWith : (o : Op) → o.Res → Option (String × Option String)
  | .accounts (.create data), r => some (AccountRecord.id r, data.googleId)
  | _, _ => none

/-- Some request has created the account `id` with the Google id `g`. -/
def CreatedWith (s : State cfg core) (id : String) (g : Option String) : Prop :=
  ∃ t ∈ s.tasks, ∃ ev ∈ t.done, createdWith ev.op ev.res = some (id, g)

/-- The address had no account when the request made its calls so far, and now has one that another
request has created with the Google id of this one. -/
def OvertakenBy (s : State cfg core) (t : Task (server cfg core)) (email g : String) : Prop :=
  (∀ ev ∈ t.done, ∀ r ∈ ev.pre.accounts, r.email ≠ email) ∧
    ∃ r ∈ s.world.accounts, r.email = email ∧ r.googleId = some g ∧ CreatedWith s r.id (some g)

/-- The same, for a Google sign-in whose e-mail is not verified. -/
def Overtaken (s : State cfg core) (t : Task (server cfg core)) : Prop :=
  match t.call with
  | .loginWithGoogle profile => profile.emailVerified = false ∧
      OvertakenBy s t (normalizeEmail cfg.runtime profile.email) profile.googleId
  | _ => False

/-- The call looks up an e-mail. -/
def looksUpEmail : Op → Bool
  | .accounts (.findByEmail _) => true
  | _ => false

/-- An account is created for an address that has none, and a request that looks up its address is
not overtaken. -/
def Unraced : Discipline (server cfg core) := fun s l =>
  match l with
  | .step i =>
    ∀ o ∈ s.nextCall i, (∀ data ∈ creates o, ∀ r ∈ s.world.accounts, r.email ≠ data.email) ∧
      (looksUpEmail o = true → ∀ t ∈ s.tasks[i]?, ¬ Overtaken s t)
  | _ => True

/-- Sign-ups for the address `e` that do not race. -/
def Orderly (cfg : Config) (e : String) : Discipline (server cfg core) := fun s l =>
  SignUps cfg e s l ∧ Unraced s l

/-! ### The invariant -/

/-- The Google profile of a request that has found its Google id not bound. -/
def Stage.seeking : Stage → Option GoogleProfile
  | .unbound profile | .matched profile _ | .vacant profile => some profile
  | _ => none

/-- The request inserts an account next. -/
def Stage.Creating : Stage → Prop
  | .hashed _ _ | .vacant _ => True
  | _ => False

/-- No account with another e-mail than `e` has the Google id that the request looks for. -/
def Stage.Loose (e : String) (d : Directory) (q : Stage) : Prop :=
  ∀ profile ∈ q.seeking, ∀ l ∈ d.logins, l.email ≠ e → l.googleId ≠ some profile.googleId

/-- The e-mails are in normal form. -/
def Directory.Normalized (cfg : Config) (d : Directory) : Prop :=
  ∀ l ∈ d.logins, ∃ x, l.email = normalizeEmail cfg.runtime x

/-- What holds of the state after every step. -/
structure Regular (cfg : Config) (e : String) (s : State cfg core) : Prop where
  obeyed : (protocol cfg core).Obeyed s
  consistent : Consistent cfg (model s)
  unique : Accounts.Unique s.world.accounts
  normalized : (directory s.world).Normalized cfg
  calls : ∀ t ∈ s.tasks, SignsUpAs cfg e t.call
  first : ∀ t ∈ s.tasks, ∀ profile, stageOf t = .google profile → t.done = []
  loose : ∀ t ∈ s.tasks, (stageOf t).Loose e (directory s.world)

/-! ### What a call does -/

section Calls

variable {w w' : World core} {o : Op} {r : o.Res} {e : String}

theorem mem_members_iff {m : Member} : m ∈ members (directory w) ↔
    ∃ r ∈ w.accounts, memberOf (loginOf r) = m := by
  simp [members, directory]

theorem indexed_of_unique (hd : DistinctIds w) (hu : Accounts.Unique w.accounts) :
    Indexed (members (directory w)) := by
  have heq : ∀ r ∈ w.accounts, ∀ r' ∈ w.accounts, r.conflicts r' = true → r = r' :=
    fun r hr r' hr' hc => List.inj_on_of_nodup_map hd hr hr' (hu r hr r' hr' hc)
  constructor
  · intro m hm m' hm' he
    obtain ⟨r, hr, rfl⟩ := mem_members_iff.1 hm
    obtain ⟨r', hr', rfl⟩ := mem_members_iff.1 hm'
    have hemail : r.email = r'.email := he
    rw [heq r hr r' hr' (by simp [AccountRecord.conflicts, hemail])]
  · intro m hm m' hm' g hg hg'
    obtain ⟨r, hr, rfl⟩ := mem_members_iff.1 hm
    obtain ⟨r', hr', rfl⟩ := mem_members_iff.1 hm'
    have hgoogle : r.googleId = some g := hg
    have hgoogle' : r'.googleId = some g := hg'
    rw [heq r hr r' hr' (by simp [AccountRecord.conflicts, sameSet, hgoogle, hgoogle'])]

/-- After a call every account is an old one, or the one that the call has created. -/
theorem created_or_old (hd : DistinctIds w) (hf : FreshAccountId cfg w o)
    (he : o.exec cfg w = (.ok r, w')) : ∀ l ∈ (directory w').logins,
      (∃ l₀ ∈ (directory w).logins, l₀.id = l.id) ∨ createdWith o r = some (l.id, l.googleId) := by
  have hsame : w'.accounts = w.accounts → ∀ l ∈ (directory w').logins,
      (∃ l₀ ∈ (directory w).logins, l₀.id = l.id) ∨ createdWith o r = some (l.id, l.googleId) := by
    intro heq l hl
    refine .inl ⟨l, ?_, rfl⟩
    rwa [directory, heq] at hl
  cases o with
  | accounts o =>
    cases o with
    | create data =>
      obtain ⟨hdir, -⟩ := directory_of_create hf he
      intro l hl
      rw [hdir] at hl
      rcases List.mem_append.1 hl with hl | hl
      · exact .inl ⟨l, hl, rfl⟩
      · obtain rfl := List.mem_singleton.1 hl
        exact .inr rfl
    | update id patch =>
      obtain ⟨-, hrows⟩ := Accounts.update_ok hd (Op.exec_of_accounts he)
      intro l hl
      simp only [directory, hrows, List.map_map] at hl
      obtain ⟨r₀, hr₀, rfl⟩ := List.mem_map.1 hl
      exact .inl ⟨loginOf r₀, mem_logins hr₀, Accounts.updateRow_id.symm⟩
    | _ => exact hsame (by rw [world_of_exec he, Op.exec_accounts]; rfl)
  | _ => exact hsame (by rw [world_of_exec he, Op.exec_accounts])

/-- A new account for a free address, with a Google id that is free too, is inserted. -/
theorem create_works {data : AccountCreateData} (hk : cfg.storage.hasUniqueIndexes = true)
    (hid : ∀ r ∈ w.accounts, r.id ≠ w.freshId cfg "acct")
    (hemail : ∀ r ∈ w.accounts, r.email ≠ data.email)
    (hgoogle : ∀ r ∈ w.accounts, ∀ g, data.googleId = some g → r.googleId ≠ some g) :
    ∃ r w', (Op.accounts (.create data)).exec cfg w = (.ok r, w') := by
  have hfree : ∀ r ∈ w.accounts,
      (data.row (w.freshId cfg "acct") w.now).conflicts r = false := by
    intro r hr
    have hset : sameSet data.googleId r.googleId = false := by
      cases hg : data.googleId with
      | none => rfl
      | some g => simpa [sameSet] using Ne.symm (hgoogle r hr g hg)
    have hnone : sameSet none r.issuerDid = false := rfl
    simp [AccountRecord.conflicts, AccountCreateData.row, hset, hnone, Ne.symm (hid r hr),
      Ne.symm (hemail r hr)]
  have hcreate : Accounts.create cfg.storage data (w.freshId cfg "acct") w.now w.accounts = _ :=
    Accounts.create_of_free hk hfree
  have hans : ((Op.accounts (.create data)).exec cfg w).1 =
      .ok (data.row (w.freshId cfg "acct") w.now) := congrArg Prod.fst hcreate
  exact ⟨_, _, Prod.ext hans rfl⟩

theorem link_works {r : AccountRecord} {g : String} (hd : DistinctIds w)
    (hu : Accounts.Unique w.accounts) (hr : r ∈ w.accounts)
    (hg : ∀ r' ∈ w.accounts, r'.id ≠ r.id → r'.googleId ≠ some g) :
    ∃ r' w', (Op.accounts (.update r.id [.googleId (some g)])).exec cfg w = (.ok r', w') := by
  have hfree : ∀ r' ∈ w.accounts, r'.id ≠ r.id →
      (r.patched [.googleId (some g)] w.now).conflicts r' = false := by
    intro r' hr' hid
    have hold : r.conflicts r' = false := by
      by_contra hc
      exact hid (hu r hr r' hr' (by simpa using hc)).symm
    have hset : sameSet (some g) r'.googleId = false := by
      simpa [sameSet] using Ne.symm (hg r' hr' hid)
    simp only [AccountRecord.conflicts, Bool.or_eq_false_iff] at hold ⊢
    exact ⟨⟨⟨hold.1.1.1, hold.1.1.2⟩, hset⟩, hold.2⟩
  have hans : ((Op.accounts (.update r.id [.googleId (some g)])).exec cfg w).1 =
      .ok (r.patched [.googleId (some g)] w.now) := Accounts.update_of_free hd hr hfree
  exact ⟨_, _, Prod.ext hans rfl⟩

end Calls

/-! ### What a step keeps -/

section Moves

variable {e : String} {x : SignUp} {q q' : Stage} {d d' : Directory} {o : Op} {r : o.Res}
  {profile : GoogleProfile}

/-- The look-up of its Google id is the first call of a Google sign-in. -/
theorem next_ne_google (hm : Move cfg d q d' (q.next o r)) (ha : q.Allows cfg o) :
    q.next o r ≠ .google profile := by
  intro h
  have hq : q = .google profile := by
    rw [h] at hm
    cases hm
    rfl
  subst hq ha
  cases r <;> cases h

/-- A Google sign-in looks up its e-mail next after its Google id. -/
theorem google_of_next (hm : Move cfg d q d' (q.next o r)) (ha : q.Allows cfg o)
    (h : q.next o r = .unbound profile) :
    q = .google profile ∧ d' = d ∧ d.Loose profile.googleId := by
  rw [h] at hm
  cases hm with
  | unbound _ hfree => exact ⟨rfl, rfl, hfree⟩
  | stay _ =>
    -- the look-up of the e-mail leaves the stage
    subst ha
    have hnext : Stage.byEmail profile r = .unbound profile := h
    cases r with
    | none => cases hnext
    | some account =>
      simp only [Stage.byEmail] at hnext
      split_ifs at hnext

theorem Move.normalized (h : Move cfg d q d' q') (hd : d.Normalized cfg) : d'.Normalized cfg := by
  cases h with
  | register input passwordHash id hid =>
    intro l hl
    rcases List.mem_append.1 hl with hl | hl
    · exact hd l hl
    · obtain rfl := List.mem_singleton.1 hl
      exact ⟨_, rfl⟩
  | registerByGoogle profile id hid =>
    intro l hl
    rcases List.mem_append.1 hl with hl | hl
    · exact hd l hl
    · obtain rfl := List.mem_singleton.1 hl
      exact ⟨_, rfl⟩
  | link profile r =>
    intro l hl
    obtain ⟨l₀, hl₀, rfl⟩ := List.mem_map.1 hl
    rw [(sameAccount_bind r.id profile.googleId l₀).email]
    exact hd l₀ hl₀
  | _ => exact hd

/-- Sign-ups for one address leave the accounts with other addresses alone. -/
theorem Move.others (h : Move cfg d q d' q') (hof : q.Of cfg x.call)
    (hx : normalizeEmail cfg.runtime x.email = e) (hd : d.Distinct)
    (hknown : ∀ r ∈ q.subject, Known d r) : ∀ l ∈ d'.logins, l.email ≠ e → l ∈ d.logins := by
  intro l hl hne
  cases h with
  | register input passwordHash id hid =>
    rcases List.mem_append.1 hl with hl | hl
    · exact hl
    · obtain rfl := List.mem_singleton.1 hl
      obtain ⟨hcall, -⟩ := hof
      cases x <;> cases hcall
      exact absurd hx hne
  | registerByGoogle profile id hid =>
    rcases List.mem_append.1 hl with hl | hl
    · exact hl
    · obtain rfl := List.mem_singleton.1 hl
      cases x <;> cases hof
      exact absurd hx hne
  | link profile r =>
    obtain ⟨l₀, hl₀, rfl⟩ := List.mem_map.1 hl
    obtain ⟨hcall, -, hemail⟩ := hof
    obtain ⟨l₁, hl₁, hsame⟩ := hknown r rfl
    have hid : l₀.id ≠ r.id := by
      rintro hid
      obtain rfl := hd.eq_of_id hl₀ hl₁ (hid.trans hsame.id.symm)
      rw [(sameAccount_bind r.id profile.googleId l₀).email, hsame.email] at hne
      cases x <;> cases hcall
      exact hne (hemail.trans hx)
    rwa [Login.bind_of_ne hid]
  | _ => exact hl

theorem Move.loose (h : Move cfg d q d' q') (hq : q.Loose e d) : q'.Loose e d' := by
  cases h with
  | stay _ | identify _ _ _ _ _ | vacant _ _ => exact hq
  | unbound profile hfree =>
    intro profile' hp l hl _
    obtain rfl : profile = profile' := Option.some.inj hp
    exact hfree l hl
  | _ => intro profile' hp; cases hp

end Moves

section Steps

variable {e : String} {s s' : State cfg core} {l : Label (server cfg core)} {i : ℕ}
  {t : Task (server cfg core)} {o : Op} {k : o.Res → Promise Reply} {r : o.Res} {w : World core}

theorem newDraws_of_indexed (hk : cfg.storage.hasUniqueIndexes = true) : NewDraws s l := by
  cases l with
  | step i => exact fun o _ => ⟨freshAccountId_of_unique hk _ o, freshToken_of_unique hk _ o⟩
  | _ => trivial

theorem Regular.indexed (h : Regular cfg e s) : Indexed (members (directory s.world)) :=
  indexed_of_unique (distinctIds_iff.2 h.consistent.distinct) h.unique

theorem Regular.task (h : Regular cfg e s) (ht : s.tasks[i]? = some t) :
    ∃ x : SignUp, t.call = x.call ∧ normalizeEmail cfg.runtime x.email = e ∧
      (stageOf t).Of cfg x.call ∧ ∀ r ∈ (stageOf t).subject, Known (directory s.world) r := by
  have hmem := List.mem_of_getElem? ht
  have hparty : partyOf t ∈ (model s).parties := List.mem_map_of_mem hmem
  obtain ⟨x, hcall, hx⟩ := h.calls t hmem
  exact ⟨x, hcall, hx, hcall ▸ h.consistent.of _ hparty, h.consistent.known _ hparty⟩

theorem free_of_unraced (h : Regular cfg e s) (hu : Unraced s (.step i))
    (ht : s.tasks[i]? = some t) (hp : t.prog = .call o k) (hq : (stageOf t).Creating) :
    (directory s.world).Free e := by
  obtain ⟨x, -, hx, hof, -⟩ := h.task ht
  have ha : (stageOf t).Allows cfg o := h.obeyed.allowed ht hp
  obtain ⟨hfree, -⟩ := hu o (Sys.nextCall_eq ht hp)
  revert hq hof ha
  generalize stageOf t = q
  intro hq hof ha
  cases q with
  | hashed input passwordHash =>
    subst ha
    obtain ⟨hcall, -⟩ := hof
    cases x <;> cases hcall
    exact logins_forall fun r hr => hx ▸ hfree _ rfl r hr
  | vacant profile =>
    subst ha
    cases x <;> cases hof
    exact logins_forall fun r hr => hx ▸ hfree _ rfl r hr
  | _ => exact hq.elim

theorem isIndexed_of_keepsLogins (h : KeepsLogins o) : isIndexed o = false := by
  have hcreates : creates o = none := by
    unfold creates
    split
    · exact h.elim
    · rfl
  have hlinked : linkedTo o = none := by
    unfold linkedTo
    split
    · exact absurd trivial (h _ (List.mem_singleton_self _))
    · rfl
  rw [isIndexed, hcreates, hlinked]
  rfl

/-- **No call is rejected**: where the sign-ups do not race, the unique indexes have nothing to
reject. -/
theorem Regular.accepts (h : Regular cfg e s) (hk : cfg.storage.hasUniqueIndexes = true)
    (hs : Orderly cfg e s l) : Protocol.Accepts s l := by
  cases l with
  | start c => trivial
  | env x => trivial
  | fail i => exact hs.1
  | step i =>
    intro t o k err w ht hp he
    obtain ⟨x, -, hx, hof, hknown⟩ := h.task ht
    have ha : (stageOf t).Allows cfg o := h.obeyed.allowed ht hp
    have hfree := free_of_unraced h hs.2 ht hp
    have hloose := h.loose t (List.mem_of_getElem? ht)
    obtain ⟨hid, hworks⟩ := hs.1 o (Sys.nextCall_eq ht hp)
    have herr : ∀ r w, o.exec cfg s.world ≠ (.ok r, w) := by
      intro r w he'
      cases he.symm.trans he'
    have hindexed : isIndexed o ≠ false := by
      intro hi
      have hok := hworks hi
      rw [show o.exec cfg s.world = (.error err, w) from he] at hok
      cases hok
    revert ha hof hknown hfree hloose
    generalize stageOf t = q
    intro hof hknown ha hfree hloose
    cases q with
    | hashed input passwordHash =>
      obtain ⟨hcall, -⟩ := hof
      cases x <;> cases hcall
      subst ha hx
      have hok : ∃ r w,
        (Op.accounts (.create (registered cfg input passwordHash))).exec cfg s.world =
          (.ok r, w) :=
        create_works hk (hid _ rfl) (fun r hr => hfree trivial _ (mem_logins hr)) fun _ _ _ hg => by
          cases hg
      obtain ⟨r, w, hok⟩ := hok
      exact herr r w hok
    | vacant profile =>
      cases x <;> cases hof
      subst ha hx
      have hemails : ∀ r ∈ s.world.accounts, r.email ≠ normalizeEmail cfg.runtime profile.email :=
        fun r hr => hfree trivial _ (mem_logins hr)
      have hok : ∃ r w, (Op.accounts (.create (registeredByGoogle cfg profile))).exec cfg s.world =
          (.ok r, w) :=
        create_works hk (hid _ rfl) hemails fun r hr g hg => by
          obtain rfl : profile.googleId = g := Option.some.inj hg
          exact hloose profile rfl _ (mem_logins hr) (hemails r hr)
      obtain ⟨r, w, hok⟩ := hok
      exact herr r w hok
    | matched profile account =>
      obtain ⟨hcall, -, hemail⟩ := hof
      cases x <;> cases hcall
      subst ha hx
      -- the account still has the e-mail, and no other account has it
      obtain ⟨l, hl, hsame⟩ := hknown account rfl
      obtain ⟨row, hrow, rfl⟩ := List.mem_map.1 hl
      have hrowid : row.id = account.id := hsame.id
      have hrowemail : row.email = account.email := hsame.email
      obtain ⟨r, w, hok⟩ := link_works (g := profile.googleId)
        (distinctIds_iff.2 h.consistent.distinct) h.unique hrow fun r hr hne hg => by
          by_cases hother : r.email = normalizeEmail cfg.runtime profile.email
          · have hsame := h.indexed.email _ (mem_members (mem_logins hr)) _
              (mem_members (mem_logins hrow)) (hother.trans (hemail.symm.trans hrowemail.symm))
            exact hne (congrArg Member.id hsame)
          · exact hloose profile rfl _ (mem_logins hr) hother hg
      rw [hrowid] at hok
      exact herr r w hok
    | aside => cases x <;> exact hof trivial
    | refused err => exact ha
    | ready id bytes =>
      refine hindexed ?_
      cases o with
      | refreshTokens o => cases o <;> rfl
      | _ => exact isIndexed_of_keepsLogins ha
    | opened id bytes => exact hindexed (isIndexed_of_keepsLogins ha)
    | holding record => rcases ha with rfl | rfl <;> exact hindexed rfl
    | _ => subst ha; exact hindexed rfl

theorem consistent_step (hk : cfg.storage.hasUniqueIndexes = true) (h : Regular cfg e s)
    (hst : Async.Step s l s') : Consistent cfg (model s') := by
  have hd := distinctIds_iff.2 h.consistent.distinct
  rcases model_step h.obeyed.relax hd (newDraws_of_indexed hk) hst with ⟨c, rfl, hstep⟩ |
    ⟨i, t, o, k, rfl, ht, hp, ha, hstep⟩ | heq
  · exact h.consistent.step hstep
  · exact h.consistent.step hstep
  · rw [heq]; exact h.consistent

theorem Regular.move (h : Regular cfg e s) (hk : cfg.storage.hasUniqueIndexes = true)
    (ht : s.tasks[i]? = some t) (hp : t.prog = .call o k)
    (he : o.exec cfg s.world = (.ok r, w)) :
    (stageOf t).Allows cfg o ∧
      Move cfg (directory s.world) (stageOf t) (directory w) ((stageOf t).next o r) := by
  have ha : (stageOf t).Allows cfg o := h.obeyed.allowed ht hp
  have hnew : NewDraws s (.step i) := newDraws_of_indexed hk
  obtain ⟨hid, htok⟩ := hnew o (Sys.nextCall_eq ht hp)
  exact ⟨ha, move_of_call (distinctIds_iff.2 h.consistent.distinct) hid htok ha he⟩

theorem stageOf_resume : stageOf (t.resume s.world o r (k r)) = (stageOf t).next o r :=
  Protocol.state_resume t _ o r _

/-- **What holds of the state holds after every step** of sign-ups that do not race. -/
theorem Regular.step (h : Regular cfg e s) (hk : cfg.storage.hasUniqueIndexes = true)
    (hs : Orderly cfg e s l) (hst : Async.Step s l s') : Regular cfg e s' := by
  have haccepts := h.accepts hk hs
  have hobeyed := (Protocol.sound_accepts obeys_prog).step h.obeyed haccepts hst
  have hconsistent := consistent_step hk h hst
  cases hst with
  | start c =>
    refine ⟨hobeyed, hconsistent, h.unique, h.normalized, fun t ht => ?_, fun t ht profile hq => ?_,
      fun t ht => ?_⟩
    all_goals rcases List.mem_append.1 ht with ht | ht
    · exact h.calls t ht
    · obtain rfl := List.mem_singleton.1 ht
      exact hs.1
    · exact h.first t ht profile hq
    · obtain rfl := List.mem_singleton.1 ht
      rfl
    · exact h.loose t ht
    · obtain rfl := List.mem_singleton.1 ht
      intro profile hq
      cases c <;> cases hq
  | env he =>
    have hdir := directory_of_env he
    refine ⟨hobeyed, hconsistent, ?_, ?_, h.calls, h.first, fun t ht => ?_⟩
    · rw [EnvMove.exec_accounts he]; exact h.unique
    · rw [hdir]; exact h.normalized
    · rw [hdir]; exact h.loose t ht
  | @call i t o k r w ht hp he =>
    obtain ⟨ha, hm⟩ := h.move hk ht hp he
    have hmem := List.mem_of_getElem? ht
    obtain ⟨x, hcall, hx, hof, hknown⟩ := h.task ht
    refine ⟨hobeyed, hconsistent, ?_, hm.normalized h.normalized, fun t' ht' => ?_,
      fun t' ht' profile hq => ?_, fun t' ht' => ?_⟩
    · have huniq := Op.exec_unique (o := o) hk h.unique
      rwa [← world_of_exec he] at huniq
    all_goals rcases Sys.mem_put ht' with rfl | ht'
    · exact h.calls t hmem
    · exact h.calls t' ht'
    · rw [stageOf_resume] at hq
      exact absurd hq (next_ne_google hm ha)
    · exact h.first t' ht' profile hq
    · rw [stageOf_resume]
      exact hm.loose (h.loose t hmem)
    · intro profile hq l hl hne
      exact h.loose t' ht' profile hq l (hm.others hof hx h.consistent.distinct hknown l hl hne) hne
  | @reject i t o k err w ht hp he => exact absurd he (haccepts t o k err w ht hp)
  | fail ht hp hf => exact haccepts.elim

end Steps

end SignIn

end HelixServer
