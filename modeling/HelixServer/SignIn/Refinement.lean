import HelixServer.SignIn.Model

/-!
# The sign-ins of the server are the abstract ones

Every answered call of the server is a move of its request on the directory (`move_of_call`), so a
run of the server is a run of the abstract sign-ins (`model_run`), provided that what is drawn at
random is new.

## Main definitions

* `model` : the directory of a state and the stages of its requests.
* `NewDraws` : account ids and refresh tokens are new.
-/

namespace HelixServer

namespace SignIn

open Async

/-- What sign-ins see of a world. -/
def directory {core : Core} (w : World core) : Directory :=
  ⟨w.accounts.map loginOf, w.refreshTokens.map tokenOf⟩

/-! ### The calls of the server are moves -/

section Calls

variable {cfg : Config} {core : Core} {w w' : World core} {q : Stage} {o : Op} {r : o.Res}

theorem mem_logins {r : AccountRecord} (h : r ∈ w.accounts) : loginOf r ∈ (directory w).logins :=
  List.mem_map_of_mem h

theorem logins_forall {p : Login → Prop} (h : ∀ r ∈ w.accounts, p (loginOf r)) :
    ∀ l ∈ (directory w).logins, p l := by
  intro l hl
  obtain ⟨r, hr, rfl⟩ := List.mem_map.1 hl
  exact h r hr

theorem found_or_free {p : AccountRecord → Bool} {found : Option AccountRecord}
    (h : w.accounts.find? p = found) :
    (∃ r, found = some r ∧ r ∈ w.accounts ∧ p r = true) ∨
      found = none ∧ ∀ r ∈ w.accounts, p r = false := by
  subst h
  cases hf : w.accounts.find? p with
  | some r => exact .inl ⟨r, rfl, List.mem_of_find?_eq_some hf, List.find?_some hf⟩
  | none => exact .inr ⟨rfl, by simpa using hf⟩

theorem loginOf_updateRow {id : String} {patch : AccountPatch} {now : ℕ} {r : AccountRecord}
    (h : ∀ x ∈ patch, ¬ IsLogin x) : loginOf (Accounts.updateRow id patch now r) = loginOf r := by
  unfold Accounts.updateRow
  split_ifs
  · refine AccountRecord.patched_field (fun _ => rfl) fun x hx r => ?_
    have hlogin := h x hx
    cases x <;> first | exact absurd trivial hlogin | rfl
  · rfl

theorem tokens_map {f : RefreshTokenRecord → RefreshTokenRecord} (hf : RefreshTokens.Keeps f)
    (rows : List RefreshTokenRecord) : (rows.map f).map tokenOf = rows.map tokenOf := by
  rw [List.map_map]
  exact List.map_congr_left fun r _ => by simp [tokenOf, hf.tokenHash, hf.accountId]

theorem world_of_exec {x : Except HelixError o.Res} (he : o.exec cfg w = (x, w')) :
    w' = (o.exec cfg w).2 := by
  rw [he]

theorem directory_of_keepsLogins (hd : DistinctIds w) (h : KeepsLogins o)
    (he : o.exec cfg w = (.ok r, w')) : directory w' = directory w := by
  have hw := world_of_exec he
  have haccounts : w'.accounts.map loginOf = w.accounts.map loginOf := by
    cases o with
    | accounts o =>
      cases o with
      | create data => exact h.elim
      | update id patch =>
        rw [(Accounts.update_ok hd (Op.exec_of_accounts he)).2, List.map_map]
        exact List.map_congr_left fun r _ => loginOf_updateRow h
      | _ => rw [hw]; rfl
    | _ => rw [hw, Op.exec_accounts]
  have htokens : w'.refreshTokens.map tokenOf = w.refreshTokens.map tokenOf := by
    rw [hw, Op.exec_refreshTokens]
    cases o with
    | refreshTokens o =>
      cases o with
      | create data => exact h.elim
      | findByTokenHash tokenHash => rfl
      | revoke id link => exact tokens_map RefreshTokens.keeps_revokeRow _
      | revokeAllForAccount a => exact tokens_map RefreshTokens.keeps_burnRow _
    | _ => rfl
  rw [directory, directory, haccounts, htokens]

theorem findByEmail_ok {email : String} {found : Option AccountRecord}
    (he : (Op.accounts (.findByEmail email)).exec cfg w = (.ok found, w')) :
    directory w' = directory w ∧
      ((∃ r, found = some r ∧ loginOf r ∈ (directory w).logins ∧ r.email = email) ∨
        found = none ∧ ∀ l ∈ (directory w).logins, l.email ≠ email) := by
  refine ⟨by cases he; rfl, ?_⟩
  have hfind : w.accounts.find? (·.email == email) = found := by cases he; rfl
  rcases found_or_free hfind with ⟨r, rfl, hr, hemail⟩ | ⟨rfl, hfree⟩
  · exact .inl ⟨r, rfl, mem_logins hr, by simpa using hemail⟩
  · exact .inr ⟨rfl, logins_forall fun r hr => by simpa [loginOf] using hfree r hr⟩

theorem findByGoogleId_ok {g : String} {found : Option AccountRecord}
    (he : (Op.accounts (.findByGoogleId g)).exec cfg w = (.ok found, w')) :
    directory w' = directory w ∧
      ((∃ r, found = some r ∧ loginOf r ∈ (directory w).logins ∧ r.googleId = some g) ∨
        found = none ∧ ∀ l ∈ (directory w).logins, l.googleId ≠ some g) := by
  refine ⟨by cases he; rfl, ?_⟩
  have hfind : w.accounts.find? (·.googleId == some g) = found := by cases he; rfl
  rcases found_or_free hfind with ⟨r, rfl, hr, hg⟩ | ⟨rfl, hfree⟩
  · exact .inl ⟨r, rfl, mem_logins hr, by simpa using hg⟩
  · exact .inr ⟨rfl, logins_forall fun r hr => by simpa [loginOf] using hfree r hr⟩

theorem directory_of_create {data : AccountCreateData} {r : AccountRecord}
    (hf : FreshAccountId cfg w (.accounts (.create data)))
    (he : (Op.accounts (.create data)).exec cfg w = (.ok r, w')) :
    directory w' = (directory w).enrol ⟨r.id, data.email, data.passwordHash, data.googleId⟩ ∧
      ∀ l ∈ (directory w).logins, l.id ≠ r.id := by
  obtain ⟨hr, hrows, hnew⟩ := Accounts.create_ok hf (Op.exec_of_accounts he)
  have hid : r.id = w.freshId cfg "acct" := by rw [hr]; rfl
  have hlogin : loginOf r = ⟨r.id, data.email, data.passwordHash, data.googleId⟩ := by
    rw [hid, hr]; rfl
  have htokens : w'.refreshTokens = w.refreshTokens := by
    rw [world_of_exec he, Op.exec_refreshTokens]
  refine ⟨?_, logins_forall fun r' hr' => by rw [hid]; exact hnew r' hr'⟩
  simp [directory, Directory.enrol, hrows, htokens, hlogin]

theorem directory_of_link {id g : String} {r : AccountRecord} (hd : DistinctIds w)
    (he : (Op.accounts (.update id [.googleId (some g)])).exec cfg w = (.ok r, w')) :
    directory w' = (directory w).bind id g := by
  obtain ⟨-, hrows⟩ := Accounts.update_ok hd (Op.exec_of_accounts he)
  have htokens : w'.refreshTokens = w.refreshTokens := by
    rw [world_of_exec he, Op.exec_refreshTokens]
  have hbind : ∀ r : AccountRecord,
      loginOf (Accounts.updateRow id [.googleId (some g)] w.now r) = (loginOf r).bind id g := by
    intro r
    unfold Accounts.updateRow Login.bind
    by_cases h : r.id = id
    · rw [if_pos (by simpa using h), if_pos (by simpa [loginOf] using h)]; rfl
    · rw [if_neg (by simpa using h), if_neg (by simpa [loginOf] using h)]
  simp only [directory, Directory.bind, hrows, htokens, List.map_map]
  congr 1
  exact List.map_congr_left fun r _ => hbind r

/-- A new refresh token is appended to the directory, under a new hash. -/
theorem directory_of_issue {data : RefreshTokenCreateData} {r : RefreshTokenRecord}
    (hf : FreshToken cfg w (.refreshTokens (.create data)))
    (he : (Op.refreshTokens (.create data)).exec cfg w = (.ok r, w')) :
    directory w' = (directory w).issue ⟨data.tokenHash, data.accountId⟩ ∧
      ∀ t ∈ (directory w).tokens, t.tokenHash ≠ data.tokenHash := by
  obtain ⟨hnew, hr, hrows⟩ := RefreshTokens.create_ok hf (Op.exec_of_refreshTokens he)
  have hlogins : w'.accounts = w.accounts := by
    rw [world_of_exec he, Op.exec_accounts]
  have htoken : tokenOf r = ⟨data.tokenHash, data.accountId⟩ := by rw [hr]; rfl
  refine ⟨by simp [directory, Directory.issue, hrows, hlogins, htoken], fun t ht => ?_⟩
  obtain ⟨r', hr', rfl⟩ := List.mem_map.1 ht
  exact (hnew r' hr').2

theorem directory_of_runtime {o : RuntimeOp} {r : o.Res}
    (he : (Op.runtime o).exec cfg w = (.ok r, w')) :
    directory w' = directory w ∧ r = o.exec cfg w := by
  cases he
  exact ⟨rfl, rfl⟩

/-- **Every answered call of the server is a move** of its request. -/
theorem move_of_call (hd : DistinctIds w) (hid : FreshAccountId cfg w o) (htok : FreshToken cfg w o)
    (ha : q.Allows cfg o) (he : o.exec cfg w = (.ok r, w')) :
    Move cfg (directory w) q (directory w') (q.next o r) := by
  cases q with
  | aside =>
    rw [directory_of_keepsLogins hd ha he]
    exact .stay _ _
  | register input =>
    subst ha
    obtain ⟨hdir, ⟨row, rfl, hl, hemail⟩ | ⟨rfl, hfree⟩⟩ := findByEmail_ok he
    · rw [hdir]; exact .taken input (loginOf row) hl hemail
    · rw [hdir]; exact .free input hfree
  | hashing input =>
    subst ha
    obtain ⟨hdir, rfl⟩ := directory_of_runtime he
    rw [hdir]; exact .hash input w.draws
  | hashed input passwordHash =>
    subst ha
    obtain ⟨hdir, hnew⟩ := directory_of_create hid he
    rw [hdir]; exact .register input passwordHash _ hnew
  | login input =>
    subst ha
    obtain ⟨hdir, ⟨row, rfl, hl, hemail⟩ | ⟨rfl, -⟩⟩ := findByEmail_ok he
    · rw [hdir]
      show Move cfg _ _ _ (Stage.loggingIn input.password (some row))
      cases hpassword : row.passwordHash with
      | none => simp only [Stage.loggingIn, hpassword]; exact .miss input
      | some passwordHash =>
        simp only [Stage.loggingIn, hpassword]
        exact .find input row passwordHash hl hemail hpassword
    · rw [hdir]; exact .miss input
  | checking account passwordHash password =>
    subst ha
    obtain ⟨hdir, hvalid⟩ := directory_of_runtime he
    rw [hdir]
    cases r with
    | true => exact .pass account passwordHash password hvalid.symm
    | false => exact .fail account passwordHash password
  | google profile =>
    subst ha
    obtain ⟨hdir, ⟨row, rfl, hl, hg⟩ | ⟨rfl, hfree⟩⟩ := findByGoogleId_ok he
    · rw [hdir]; exact .bound profile (loginOf row) hl hg
    · rw [hdir]; exact .unbound profile hfree
  | unbound profile =>
    subst ha
    obtain ⟨hdir, ⟨row, rfl, hl, hemail⟩ | ⟨rfl, hfree⟩⟩ := findByEmail_ok he
    · rw [hdir]
      show Move cfg _ _ _ (Stage.byEmail profile (some row))
      unfold Stage.byEmail
      split_ifs with hverified
      · exact .identify profile row hl hemail hverified
      · exact .unverified profile (loginOf row) hl hemail (by simpa using hverified)
    · rw [hdir]; exact .vacant profile hfree
  | matched profile account =>
    subst ha
    rw [directory_of_link hd he]
    exact .link profile account
  | vacant profile =>
    subst ha
    obtain ⟨hdir, hnew⟩ := directory_of_create hid he
    rw [hdir]; exact .registerByGoogle profile _ hnew
  | refresh refreshToken =>
    subst ha
    have hdir : directory w' = directory w := by cases he; rfl
    have hfound : RefreshTokens.findByTokenHash (hashRefreshToken cfg.runtime refreshToken)
        w.refreshTokens = r := by cases he; rfl
    rw [hdir]
    show Move cfg _ _ _ (Stage.presented r)
    unfold Stage.presented
    cases r with
    | none => exact .dismiss refreshToken
    | some row =>
      obtain ⟨hrow, hhash⟩ := RefreshTokens.findByTokenHash_some hfound
      dsimp only
      split_ifs
      · exact .dismiss refreshToken
      · exact .present refreshToken row (List.mem_map_of_mem hrow) hhash
  | holding record =>
    rcases ha with rfl | rfl
    · rw [(directory_of_runtime he).1]; exact .stay _ _
    · rw [(directory_of_runtime he).1]; exact .renew record r
  | refused e => exact ha.elim
  | ready id bytes =>
    by_cases hkeep : KeepsLogins o
    · rw [directory_of_keepsLogins hd hkeep he]
      obtain ⟨bytes', hnext⟩ : ((Stage.ready id bytes).next o r).Signing id :=
        (keepsLogins_allowed hkeep cfg id bytes).2 r
      rw [hnext]
      exact .draw id bytes bytes'
    · cases o with
      | refreshTokens o =>
        cases o with
        | create data =>
          obtain ⟨rfl, hhash⟩ := ha
          obtain ⟨b, rfl, hb⟩ := Option.map_eq_some_iff.1 hhash
          obtain ⟨hdir, hnew⟩ := directory_of_issue htok he
          rw [hdir, ← hb]
          exact .issue data.accountId b fun t ht => by rw [hb]; exact hnew t ht
        | _ => exact absurd trivial hkeep
      | _ => exact absurd ha hkeep
  | opened id bytes =>
    rw [directory_of_keepsLogins hd ha he]
    exact .stay _ _

theorem directory_of_error {e : HelixError} (he : o.exec cfg w = (.error e, w')) :
    directory w' = directory w := by
  have hw := world_of_exec he
  have haccounts : w'.accounts = w.accounts := by
    cases o with
    | accounts o => exact (AccountOp.exec_error (Op.exec_of_accounts he)).1
    | _ => rw [hw, Op.exec_accounts]
  have htokens : w'.refreshTokens = w.refreshTokens := by
    cases o with
    | refreshTokens o => exact (RefreshTokenOp.exec_error (Op.exec_of_refreshTokens he)).1
    | _ => rw [hw, Op.exec_refreshTokens]
  rw [directory, directory, haccounts, htokens]

end Calls

/-! ### The runs of the server are runs of the model -/

section Runs

variable {cfg : Config} {core : Core}

/-- Where a request stands. -/
abbrev stageOf (t : Task (server cfg core)) : Stage := (protocol cfg core).state t

/-- A request as a party. -/
def partyOf (t : Task (server cfg core)) : Party := ⟨t.call, stageOf t⟩

/-- The directory of a state and the stages of its requests. -/
def model (s : State cfg core) : Model := ⟨directory s.world, s.tasks.map partyOf⟩

/-- The account ids and the refresh tokens that a call draws are new. -/
def DrawsNew (cfg : Config) (w : World core) (o : Op) : Prop :=
  FreshAccountId cfg w o ∧ FreshToken cfg w o

/-- The same of the calls of a run. -/
def NewDraws : Discipline (server cfg core) := fun s l =>
  match l with
  | .step i => ∀ o ∈ s.nextCall i, DrawsNew cfg s.world o
  | _ => True

instance (w : World core) : DecidablePred (DrawsNew cfg w) := fun o =>
  inferInstanceAs (Decidable (FreshAccountId cfg w o ∧ FreshToken cfg w o))

instance (s : State cfg core) (l : Label (server cfg core)) : Decidable (NewDraws s l) :=
  match l with
  | .step i => inferInstanceAs (Decidable (∀ o ∈ s.nextCall i, DrawsNew cfg s.world o))
  | .start _ | .fail _ | .env _ => .isTrue trivial

variable {s s' : State cfg core} {l : Label (server cfg core)} {i : ℕ}
  {t t' : Task (server cfg core)} {w : World core}

theorem distinctIds_iff : DistinctIds w ↔ (directory w).Distinct := by
  simp [DistinctIds, Directory.Distinct, directory, Function.comp_def, loginOf]

theorem model_start (s : State cfg core) (c : Call) :
    model { s with tasks := s.tasks ++ [.fresh c] } =
      ⟨(model s).directory, (model s).parties ++ [⟨c, .start c⟩]⟩ := by
  simp [model, partyOf, stageOf, protocol]

theorem model_put (s : State cfg core) :
    model (s.put w i t) = (model s).put (directory w) i (partyOf t) := by
  simp [model, Model.put, Sys.put, List.map_set]

theorem model_parties (h : s.tasks[i]? = some t) : (model s).parties[i]? = some (partyOf t) := by
  simp [model, h]

theorem consistent_init {w₀ : World core} (hids : DistinctIds w₀) :
    Consistent cfg (model (Sys.init w₀ : State cfg core)) := by
  have hnone : ∀ p : Party, p ∉ (model (Sys.init w₀ : State cfg core)).parties :=
    fun p => List.not_mem_nil
  exact ⟨distinctIds_iff.1 hids, fun p hp => absurd hp (hnone p), fun p hp => absurd hp (hnone p)⟩

theorem model_reject (h : s.tasks[i]? = some t) (hw : directory w = directory s.world)
    (e : HelixError) : model (s.put w i (t.reject e)) = model s := by
  have hparty : partyOf (t.reject e) = partyOf t := rfl
  have hparties : (s.tasks.map partyOf).set i (partyOf t) = s.tasks.map partyOf := by
    refine List.ext_getElem? fun j => ?_
    rw [List.getElem?_set]
    split_ifs with hij hlt
    · subst hij; simp [h]
    · subst hij
      exact absurd (by simpa using (List.getElem?_eq_some_iff.1 h).1) hlt
    · rfl
  rw [model_put, hparty, hw, Model.put]
  exact congrArg (Model.mk _) hparties

theorem directory_of_env {w' : World core} {x : EnvMove} (he : x.exec w = some w') :
    directory w' = directory w := by
  rw [directory, directory, EnvMove.exec_accounts he, EnvMove.exec_refreshTokens he]

/-- **A step of the server** is a step of the model or leaves it alone. -/
theorem model_step (ho : (protocol cfg core).relax.Obeyed s) (hd : DistinctIds s.world)
    (hnew : NewDraws s l) (hst : Async.Step s l s') :
    (∃ c, l = .start c ∧ Step cfg (model s) (.join c) (model s')) ∨
      (∃ i t o k, l = .step i ∧ s.tasks[i]? = some t ∧ t.prog = .call o k ∧
        (stageOf t).Allows cfg o ∧ Step cfg (model s) (.move i) (model s')) ∨
      model s' = model s := by
  cases hst with
  | start c =>
    refine .inl ⟨c, rfl, ?_⟩
    rw [model_start]
    exact .join _ c
  | env he => exact .inr (.inr (by rw [model, model, directory_of_env he]))
  | @call i t o k r w ht hp he =>
    have ha : (stageOf t).Allows cfg o := ho.allowed ht hp
    obtain ⟨hid, htok⟩ := hnew o (Sys.nextCall_eq ht hp)
    have hmove := move_of_call hd hid htok ha he
    refine .inr (.inl ⟨i, t, o, k, rfl, ht, hp, ha, ?_⟩)
    have hparty : partyOf (t.resume s.world o r (k r)) = ⟨t.call, (stageOf t).next o r⟩ := by
      rw [partyOf, stageOf, Protocol.state_resume]; rfl
    rw [model_put, hparty]
    exact .move (model_parties ht) hmove
  | @reject i t o k e w ht hp he =>
    exact .inr (.inr (model_reject ht (directory_of_error he) e))
  | @fail i t o k ht hp hf => exact .inr (.inr (model_reject ht rfl _))

/-- **A run of the server is a run of the model.** -/
theorem model_run {C : Discipline (server cfg core)} {D : Model → Act → Prop} {s₀ : State cfg core}
    (hC : ∀ s l, C s l → NewDraws s l) (hjoin : ∀ s c, C s (.start c) → D (model s) (.join c))
    (hmove : ∀ s i t o k, C s (.step i) → s.tasks[i]? = some t → t.prog = .call o k →
      (stageOf t).Allows cfg o → D (model s) (.move i))
    (ho : (protocol cfg core).relax.Obeyed s₀) (hd : DistinctIds s₀.world) (h : Run C s₀ s) :
    (lts cfg).Run D (model s₀) (model s) ∧ (protocol cfg core).relax.Obeyed s ∧
      DistinctIds s.world := by
  have hsound : (protocol cfg core).relax.Sound C := ⟨fun c => (obeys_prog c).relax,
    fun _ _ _ _ _ _ _ _ _ _ _ _ => trivial, fun _ _ _ _ _ _ _ _ _ => trivial⟩
  refine h.invariant (I := fun s => (lts cfg).Run D (model s₀) (model s) ∧
    (protocol cfg core).relax.Obeyed s ∧ DistinctIds s.world) ⟨.refl _, ho, hd⟩ ?_
  rintro s l s' - ⟨hrun, ho, hd⟩ hc hst
  refine ⟨?_, hsound.step ho hc hst, ?_⟩
  · rcases model_step ho hd (hC s l hc) hst with ⟨c, rfl, hstep⟩ |
      ⟨i, t, o, k, rfl, ht, hp, ha, hstep⟩ | heq
    · exact hrun.tail (hjoin s c hc) hstep
    · exact hrun.tail (hmove s i t o k hc ht hp ha) hstep
    · rw [heq]; exact hrun
  · have hd' := distinctIds_iff.1 hd
    rw [distinctIds_iff]
    rcases model_step ho hd (hC s l hc) hst with ⟨c, rfl, hstep⟩ |
      ⟨i, t, o, k, rfl, ht, hp, ha, hstep⟩ | heq
    · exact hstep.distinct hd'
    · exact hstep.distinct hd'
    · rw [show directory s'.world = directory s.world from congrArg Model.directory heq]
      exact hd'

end Runs

end SignIn

end HelixServer
