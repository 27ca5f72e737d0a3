import HelixServer.Entry.Credentials

/-!
# What a stranger gets into

A principal that does not control the e-mail `e` is let into accounts for `e` only if it has created
them: its sessions, and the accounts of the refresh tokens that it presents, are of other accounts
(`Sessions`), in every state of every run (`sessions_of_run`).  So no token that it has ever been
answered opens an account for `e` that it has not created (`stranger_stays_out`).  One that it has
created stays open to it when the owner of the e-mail links and verifies the account
(`stranger_stays_in`).
-/

namespace HelixServer

namespace Entry

open Async
open Verification (NewAccounts Found shown distinctIds_of_run grown_of_run exists_shown
  verification_kept)

variable {cfg : Config} {core : Core}

/-! ### The owners of refresh tokens -/

/-- The hash and the account of every refresh token. -/
def owners (w : World core) : List (String × String) :=
  w.refreshTokens.map fun r => (r.tokenHash, r.accountId)

/-- A hash is of one account. -/
def Unambiguous (w : World core) : Prop :=
  ∀ r ∈ w.refreshTokens, ∀ r' ∈ w.refreshTokens, r.tokenHash = r'.tokenHash →
    r.accountId = r'.accountId

section

variable {w w' : World core} {h a a' : String} {o : Op}

theorem mem_owners : (h, a) ∈ owners w ↔
    ∃ r ∈ w.refreshTokens, r.tokenHash = h ∧ r.accountId = a := by
  simp [owners]

theorem unambiguous_iff : Unambiguous w ↔
    ∀ h a a', (h, a) ∈ owners w → (h, a') ∈ owners w → a = a' := by
  constructor
  · intro hw h a a' ha ha'
    obtain ⟨r, hr, rfl, rfl⟩ := mem_owners.1 ha
    obtain ⟨r', hr', hhash, rfl⟩ := mem_owners.1 ha'
    exact hw r hr r' hr' hhash.symm
  · intro hw r hr r' hr' hhash
    exact hw _ _ _ (mem_owners.2 ⟨r, hr, hhash, rfl⟩) (mem_owners.2 ⟨r', hr', rfl, rfl⟩)

theorem owners_create {data : RefreshTokenCreateData} {row : RefreshTokenRecord}
    (hf : FreshToken cfg w (.refreshTokens (.create data)))
    (he : (Op.refreshTokens (.create data)).exec cfg w = (.ok row, w')) :
    (∀ a, (data.tokenHash, a) ∉ owners w) ∧
      owners w' = owners w ++ [(data.tokenHash, data.accountId)] := by
  obtain ⟨hfresh, rfl, hrows⟩ := RefreshTokens.create_ok hf (Op.exec_of_refreshTokens he)
  constructor
  · intro a ha
    obtain ⟨r, hr, hhash, -⟩ := mem_owners.1 ha
    exact (hfresh r hr).2 hhash
  · rw [owners, hrows, List.map_append]
    rfl

theorem owners_eq {x : Except HelixError o.Res} (ho : ∀ data, o ≠ .refreshTokens (.create data))
    (he : o.exec cfg w = (x, w')) : owners w' = owners w := by
  have hkeeps : ∀ {f : RefreshTokenRecord → RefreshTokenRecord}, RefreshTokens.Keeps f →
      (w.refreshTokens.map f).map (fun r => (r.tokenHash, r.accountId)) = owners w := by
    intro f hf
    simp [owners, hf.tokenHash, hf.accountId]
  have hrows : (o.exec cfg w).2.refreshTokens = w'.refreshTokens := by rw [he]
  rw [Op.exec_refreshTokens] at hrows
  rw [owners, ← hrows]
  cases o with
  | refreshTokens o =>
    cases o with
    | create data => exact absurd rfl (ho data)
    | findByTokenHash tokenHash => rfl
    | revoke id link => exact hkeeps RefreshTokens.keeps_revokeRow
    | revokeAllForAccount accountId => exact hkeeps RefreshTokens.keeps_burnRow
  | _ => rfl

theorem owners_error {e : HelixError} (he : o.exec cfg w = (.error e, w')) :
    owners w' = owners w := by
  by_cases ho : ∃ data, o = .refreshTokens (.create data)
  · obtain ⟨data, rfl⟩ := ho
    have hrows := (RefreshTokenOp.exec_error (Op.exec_of_refreshTokens he)).1
    rw [owners, hrows, owners]
  · exact owners_eq (fun data hdata => ho ⟨data, hdata⟩) he

end

theorem owners_of_step {M : Principal} {s s' : State cfg core} {l : Label (server cfg core)}
    (hl : NewSessions M s l) (hst : Step s l s') : owners s'.world = owners s.world ∨
      ∃ data, M.Unforeseen s (.refreshTokens (.create data)) ∧
        (∀ a, (data.tokenHash, a) ∉ owners s.world) ∧
        owners s'.world = owners s.world ++ [(data.tokenHash, data.accountId)] := by
  cases hst with
  | start c => exact .inl rfl
  | env he => exact .inl (by rw [owners, EnvMove.exec_refreshTokens he, owners])
  | fail ht hp hf => exact .inl rfl
  | reject ht hp he => exact .inl (owners_error he)
  | @call i t o k r w ht hp he =>
    obtain ⟨hfresh, hunforeseen⟩ := hl o (Sys.nextCall_eq ht hp)
    by_cases ho : ∃ data, o = .refreshTokens (.create data)
    · obtain ⟨data, rfl⟩ := ho
      obtain ⟨hnew, howners⟩ := owners_create hfresh he
      exact .inr ⟨data, hunforeseen, hnew, howners⟩
    · exact .inl (owners_eq (fun data hdata => ho ⟨data, hdata⟩) he)

/-! ### The accounts that the principal gets into -/

/-- The account is not one for `e`, or the principal has created it. -/
def Clear (M : Principal) (e : String) (s : State cfg core) (a : String) : Prop :=
  ∃ r ∈ s.world.accounts, r.id = a ∧ (r.email = e → MadeBy M s a)

/-- The principal has been let into clear accounts only. -/
structure Sessions (M : Principal) (e : String) (s : State cfg core) : Prop where
  unambiguous : Unambiguous s.world
  /-- The sessions that its requests have opened. -/
  opened : ∀ t ∈ M.tasks s, ∀ data row w, ⟨.refreshTokens (.create data), row, w⟩ ∈ t.done →
    Clear M e s data.accountId ∧ (data.tokenHash, data.accountId) ∈ owners s.world
  /-- The refresh tokens that its requests present. -/
  presented : ∀ t ∈ M.tasks s, ∀ refreshToken ∈ presentedBy t.call, ∀ a,
    (hashRefreshToken cfg.runtime refreshToken, a) ∈ owners s.world → Clear M e s a
  /-- The refresh tokens that its requests have found. -/
  found : ∀ t ∈ M.tasks s, ∀ refreshToken ∈ presentedBy t.call, ∀ record w,
    ⟨.refreshTokens (.findByTokenHash (hashRefreshToken cfg.runtime refreshToken)),
      some record, w⟩ ∈ t.done → Clear M e s record.accountId

section

variable {M : Principal} {e a : String} {w₀ : World core} {s s' : State cfg core}
  {l : Label (server cfg core)} {t : Task (server cfg core)} {i : ℕ} {tokens : AuthTokens}

theorem newAccounts_of_apart : ∀ (s : State cfg core) l, Apart M e s l → NewAccounts s l :=
  fun _ _ => And.left

theorem Clear.run (hc : Clear M e s a) (hd : DistinctIds w₀) (h : Run (Apart M e) (Sys.init w₀) s)
    (h' : Run (Apart M e) s s') : Clear M e s' a := by
  obtain ⟨r, hr, hid, hmade⟩ := hc
  obtain ⟨r', hr', hid', hemail, -⟩ := grown_of_run newAccounts_of_apart hd h h' r hr
  exact ⟨r', hr', hid'.trans hid, fun hemail' => (hmade (hemail.symm.trans hemail')).run h'⟩

/-- An account that has been shown to the principal is clear, if it is not one for `e` that is
closed to it. -/
theorem clear_of_shown (hexact : Exact cfg.runtime) (hd : DistinctIds w₀)
    (h₀ : ∀ r ∈ w₀.accounts, r.email = e → Closed cfg M r) (h : Run (Apart M e) (Sys.init w₀) s)
    (ht : t ∈ s.tasks) {ev : Event (server cfg core)} (hev : ev ∈ t.done) {r : AccountRecord}
    (hshown : shown ev = some r) (hopen : r.email = e → ¬ Closed cfg M r) : Clear M e s r.id := by
  obtain ⟨s₁, h₁, hr, h₂⟩ := exists_shown h ht hev hshown
  have hshielded := shielded_of_run newAccounts_of_apart (fun _ _ hl => hl.2.2) hexact hd h₀ h₁
  obtain ⟨r', hr', hid, hemail, -⟩ := grown_of_run newAccounts_of_apart hd h₁ h₂ r hr
  refine ⟨r', hr', hid, fun hemail' => ?_⟩
  have hemail₁ : r.email = e := hemail.symm.trans hemail'
  rcases hshielded r hr hemail₁ with hmade | hclosed
  · exact hmade.run h₂
  · exact absurd hclosed (hopen hemail₁)

/-- **The ways into an account**: what lets the principal in is not for `e`, or its own creation. -/
theorem clear_of_passed (hexact : Exact cfg.runtime) (hd : DistinctIds w₀)
    (h₀ : ∀ r ∈ w₀.accounts, r.email = e → Closed cfg M r) (h : Run (Apart M e) (Sys.init w₀) s)
    (hs : Sessions M e s) (hi : M.calls i = true) (ht : s.tasks[i]? = some t)
    (hp : Passed cfg t.call t.done a) : Clear M e s a := by
  have hplays := plays_of_run (fun _ _ hl => hl.2.2) h i t ht
  have hmem : t ∈ s.tasks := List.mem_of_getElem? ht
  have hmine : t ∈ M.tasks s := Principal.mem_tasks.2 ⟨i, hi, ht⟩
  unfold Principal.Plays at hplays
  rw [if_pos hi] at hplays
  generalize hcall : t.call = c at hp hplays
  cases hp with
  | created hmade =>
    obtain ⟨ev, hev, hcreated⟩ := id hmade
    obtain ⟨r, hshown, rfl⟩ := shown_of_created hcreated
    obtain ⟨s₁, h₁, hr, h₂⟩ := exists_shown h hmem hev hshown
    obtain ⟨r', hr', hid, -⟩ := grown_of_run newAccounts_of_apart hd h₁ h₂ r hr
    exact ⟨r', hr', hid, fun _ => ⟨t, hmine, hmade⟩⟩
  | @password input _ ev r passwordHash hev hshown hhash hvalid =>
    refine clear_of_shown hexact hd h₀ h hmem hev hshown fun _ hclosed => ?_
    rw [hclosed.password passwordHash hhash _ hplays] at hvalid
    cases hvalid
  | @google profile _ ev r hev hshown hgoogle =>
    refine clear_of_shown hexact hd h₀ h hmem hev hshown fun _ hclosed => ?_
    have hheld := hclosed.google _ hgoogle
    rw [hplays.1] at hheld
    cases hheld
  | @email profile _ _ hverified hfound =>
    obtain ⟨ev, hev, r, hshown, rfl, hemail⟩ := hfound
    refine clear_of_shown hexact hd h₀ h hmem hev hshown fun hemail' => ?_
    exact absurd (hemail.symm.trans hemail') (hplays.2 hverified)
  | @token refreshToken _ record w hev =>
    exact hs.found t hmine refreshToken (by rw [hcall]; rfl) record w hev

/-- The tokens that the principal has been answered are of a clear account. -/
theorem Sessions.clear (hs : Sessions M e s) (h : Run (Apart M e) (Sys.init w₀) s)
    (htokens : tokens ∈ M.sessions s) : ∃ i : Tokens.Issuance, Clear M e s i.accountId ∧
      (hashRefreshToken cfg.runtime tokens.refreshToken, i.accountId) ∈ owners s.world ∧
      tokens.accessToken = i.token cfg.runtime cfg.accessTokenSecret := by
  obtain ⟨t, hmine, hsession⟩ := List.mem_filterMap.1 htokens
  obtain ⟨j, -, ht⟩ := Principal.mem_tasks.1 hmine
  have hgrants : ∃ a, Grants cfg t.done a tokens := by
    unfold sessionOf at hsession
    split at hsession
    · rename_i account tokens' hp
      cases hsession
      exact ⟨_, entry_kept.answers_of_run h ht hp⟩
    · rename_i tokens' hp
      cases hsession
      exact entry_kept.answers_of_run h ht hp
    · cases hsession
  obtain ⟨_, data, w, row, i, hev, rfl, hhash, hid, haccess⟩ := hgrants
  obtain ⟨hclear, howner⟩ := hs.opened t hmine data row w hev
  refine ⟨i, ?_, ?_, haccess⟩
  · rwa [hid]
  · rwa [hid, ← hhash]

theorem Sessions.step (hexact : Exact cfg.runtime) (hd : DistinctIds w₀)
    (h₀ : ∀ r ∈ w₀.accounts, r.email = e → Closed cfg M r) (h : Run (Apart M e) (Sys.init w₀) s)
    (hs : Sessions M e s) (hl : Apart M e s l) (hst : Step s l s') : Sessions M e s' := by
  have hrun : Run (Apart M e) s s' := Lts.Run.single hl hst
  have hstays : ∀ {a}, Clear M e s a → Clear M e s' a := fun hc => hc.run hd h hrun
  have howners := owners_of_step hl.2.1 hst
  have hkept : ∀ {x}, x ∈ owners s.world → x ∈ owners s'.world := by
    intro x hx
    rcases howners with howners | ⟨data, -, -, howners⟩ <;> rw [howners]
    · exact hx
    · exact List.mem_append_left _ hx
  constructor
  · rw [unambiguous_iff]
    have hold := unambiguous_iff.1 hs.unambiguous
    rcases howners with howners | ⟨data, -, hnew, howners⟩ <;> rw [howners]
    · exact hold
    · intro hash a a' ha ha'
      rcases List.mem_append.1 ha with ha | ha <;> rcases List.mem_append.1 ha' with ha' | ha'
      · exact hold hash a a' ha ha'
      · cases List.mem_singleton.1 ha'
        exact absurd ha (hnew a)
      · cases List.mem_singleton.1 ha
        exact absurd ha' (hnew a')
      · cases List.mem_singleton.1 ha
        cases List.mem_singleton.1 ha'
        rfl
  · intro t' hmine' data row w hev
    obtain ⟨j, hj, ht'⟩ := Principal.mem_tasks.1 hmine'
    rcases hst.grew ht' with ⟨c, -, -, rfl⟩ | ⟨t, ht, -, hdone⟩
    · cases hev
    have hmine : t ∈ M.tasks s := Principal.mem_tasks.2 ⟨j, hj, ht⟩
    have hold : ⟨.refreshTokens (.create data), row, w⟩ ∈ t.done →
        Clear M e s' data.accountId ∧ (data.tokenHash, data.accountId) ∈ owners s'.world := by
      intro hev
      obtain ⟨hclear, howner⟩ := hs.opened t hmine data row w hev
      exact ⟨hstays hclear, hkept howner⟩
    rcases hdone with hdone | ⟨o, k, r, rfl, hp, he, hdone⟩ <;> rw [hdone] at hev
    · exact hold hev
    rcases List.mem_append.1 hev with hev | hev
    · exact hold hev
    · -- the session has just been opened
      cases List.mem_singleton.1 hev
      have hpassed := entry_kept.allowed_of_run h ht hp
      have hfresh := (hl.2.1 _ (Sys.nextCall_eq ht hp)).1
      refine ⟨hstays (clear_of_passed hexact hd h₀ h hs hj ht hpassed), ?_⟩
      rw [(owners_create hfresh he).2]
      exact List.mem_concat_self
  · intro t' hmine' refreshToken hpresented a ha
    obtain ⟨j, hj, ht'⟩ := Principal.mem_tasks.1 hmine'
    rcases hst.grew ht' with ⟨c, rfl, rfl, rfl⟩ | ⟨t, ht, hcall, -⟩
    · have hworld : s'.world = s.world := by
        cases hst
        rfl
      rw [hworld] at ha
      rcases hl.2.2.2 hj refreshToken hpresented with ⟨tokens, htokens, rfl⟩ | hnone
      · -- the token has been answered to the principal
        obtain ⟨i, hclear, howner, -⟩ := hs.clear h htokens
        rw [unambiguous_iff.1 hs.unambiguous _ _ _ ha howner]
        exact hstays hclear
      · obtain ⟨r, hr, hhash, -⟩ := mem_owners.1 ha
        exact absurd hhash (hnone r hr)
    · have hmine : t ∈ M.tasks s := Principal.mem_tasks.2 ⟨j, hj, ht⟩
      rw [hcall] at hpresented
      rcases howners with howners | ⟨data, hunforeseen, -, howners⟩ <;> rw [howners] at ha
      · exact hstays (hs.presented t hmine refreshToken hpresented a ha)
      · rcases List.mem_append.1 ha with ha | ha
        · exact hstays (hs.presented t hmine refreshToken hpresented a ha)
        · -- a new token has not been presented before
          have hhash := congrArg Prod.fst (List.mem_singleton.1 ha)
          exact absurd hhash (hunforeseen t hmine refreshToken hpresented)
  · intro t' hmine' refreshToken hpresented record w hev
    obtain ⟨j, hj, ht'⟩ := Principal.mem_tasks.1 hmine'
    rcases hst.grew ht' with ⟨c, -, -, rfl⟩ | ⟨t, ht, hcall, hdone⟩
    · cases hev
    have hmine : t ∈ M.tasks s := Principal.mem_tasks.2 ⟨j, hj, ht⟩
    rw [hcall] at hpresented
    rcases hdone with hdone | ⟨o, k, r, rfl, hp, he, hdone⟩ <;> rw [hdone] at hev
    · exact hstays (hs.found t hmine refreshToken hpresented record w hev)
    rcases List.mem_append.1 hev with hev | hev
    · exact hstays (hs.found t hmine refreshToken hpresented record w hev)
    · -- the token has just been found
      cases List.mem_singleton.1 hev
      have hfind := congrArg Prod.fst (Op.exec_of_refreshTokens he)
      obtain ⟨hmem, hhash⟩ := RefreshTokens.findByTokenHash_some (Except.ok.inj hfind)
      exact hstays (hs.presented t hmine refreshToken hpresented _
        (mem_owners.2 ⟨record, hmem, hhash, rfl⟩))

/-- **The sessions of the principal** are of clear accounts, in every state of a run. -/
theorem sessions_of_run (hexact : Exact cfg.runtime) (hd : DistinctIds w₀)
    (h₀ : ∀ r ∈ w₀.accounts, r.email = e → Closed cfg M r) (hw : Unambiguous w₀)
    (h : Run (Apart M e) (Sys.init w₀) s) : Sessions M e s := by
  refine h.invariant (I := Sessions M e) ⟨hw, ?_, ?_, ?_⟩ fun s l s' hr ih hl hst =>
    ih.step hexact hd h₀ hr hl hst
  all_goals
    intro t ht
    cases ht

end

/-! ### The principal stays out -/

/-- The tokens open the account: the access token is valid and has not expired, or the refresh token
is live. -/
def Opens (cfg : Config) (w : World core) (tokens : AuthTokens) (a : String) : Prop :=
  (∃ payload, verifyAccessToken cfg.runtime cfg.accessTokenSecret tokens.accessToken w.now =
      .ok payload ∧ payload.accountId = a) ∨
    ∃ r ∈ w.refreshTokens, r.tokenHash = hashRefreshToken cfg.runtime tokens.refreshToken ∧
      r.accountId = a ∧ r.revokedAt = none ∧ w.now < r.expiresAt

/-- No token that the principal has been answered opens an account for `e` that it has not
created. -/
theorem not_opens_of_not_made {M : Principal} {e : String} {w₀ : World core} {s : State cfg core}
    (hexact : Exact cfg.runtime) (hnode : Tokens.NodeText cfg.runtime) (hd : DistinctIds w₀)
    (hw : Unambiguous w₀) (h₀ : ∀ r ∈ w₀.accounts, r.email = e → Closed cfg M r)
    (h : Run (Apart M e) (Sys.init w₀) s) {r : AccountRecord} (hr : r ∈ s.world.accounts)
    (hemail : r.email = e) (hmade : ¬ MadeBy M s r.id) {tokens : AuthTokens}
    (htokens : tokens ∈ M.sessions s) : ¬ Opens cfg s.world tokens r.id := by
  intro hopens
  have hs := sessions_of_run hexact hd h₀ hw h
  obtain ⟨i, ⟨r', hr', hid, hclear⟩, howner, haccess⟩ := hs.clear h htokens
  -- the tokens are of a clear account, and the account is not clear
  have hother : i.accountId ≠ r.id := by
    intro hsame
    have hd' : DistinctIds s.world := distinctIds_of_run newAccounts_of_apart hd h
    obtain rfl := List.inj_on_of_nodup_map hd' hr' hr (hid.trans hsame)
    rw [hsame] at hclear
    exact hmade (hclear hemail)
  rcases hopens with ⟨payload, hok, hpayload⟩ | ⟨r₁, hr₁, hhash, haccount, -⟩
  · rw [haccess] at hok
    exact hother ((Tokens.accountId_of_token hnode hok).symm.trans hpayload)
  · have hsame := unambiguous_iff.1 hs.unambiguous _ _ _ howner (mem_owners.2 ⟨r₁, hr₁, hhash, rfl⟩)
    exact hother (hsame.trans haccount)

/-! ### Verified accounts -/

/-- The account that a call marks verified. -/
def verifies : Op → Option String
  | .accounts (.update a patch) => if patch.any (·.key == "emailVerifiedAt") then some a else none
  | _ => none

/-- No step verifies an account for `e` that the principal has created. -/
def Unclaimed (M : Principal) (e : String) : Discipline (server cfg core) := fun s l =>
  match l with
  | .step i => ∀ o ∈ s.nextCall i, ∀ a ∈ verifies o, ∀ r ∈ s.world.accounts, r.id = a →
      r.email = e → ¬ MadeBy M s a
  | _ => True

/-- The principal does not control `e`, and creates no account for `e` that is verified later. -/
def ApartUnclaimed (M : Principal) (e : String) : Discipline (server cfg core) := fun s l =>
  Apart M e s l ∧ Unclaimed M e s l

instance (M : Principal) (e : String) (s : State cfg core) (l : Label (server cfg core)) :
    Decidable (ApartUnclaimed M e s l) :=
  match l with
  | .step i => inferInstanceAs (Decidable (Apart M e s (.step i) ∧
      ∀ o ∈ s.nextCall i, ∀ a ∈ verifies o, ∀ r ∈ s.world.accounts, r.id = a →
        r.email = e → ¬ MadeBy M s a))
  | .start c => inferInstanceAs (Decidable (Apart M e s (.start c) ∧ True))
  | .fail i => inferInstanceAs (Decidable (Apart M e s (.fail i) ∧ True))
  | .env x => inferInstanceAs (Decidable (Apart M e s (.env x) ∧ True))

section

variable {M : Principal} {e a : String} {w₀ : World core} {s s' : State cfg core}
  {l : Label (server cfg core)}

theorem MadeBy.of_step (hmade : MadeBy M s' a) (hst : Step s l s') : MadeBy M s a ∨
    ∃ i data, ∃ row : AccountRecord, l = .step i ∧ s.nextCall i = some (.accounts (.create data)) ∧
      (Op.accounts (.create data)).exec cfg s.world = (.ok row, s'.world) ∧ row.id = a := by
  obtain ⟨t', hmine', ev, hev, hcreated⟩ := hmade
  obtain ⟨j, hj, ht'⟩ := Principal.mem_tasks.1 hmine'
  rcases hst.grew ht' with ⟨c, -, -, rfl⟩ | ⟨t, ht, -, hdone⟩
  · cases hev
  have hold : ev ∈ t.done → MadeBy M s a :=
    fun hev => ⟨t, Principal.mem_tasks.2 ⟨j, hj, ht⟩, ev, hev, hcreated⟩
  rcases hdone with hdone | ⟨o, k, r, rfl, hp, he, hdone⟩ <;> rw [hdone] at hev
  · exact .inl (hold hev)
  rcases List.mem_append.1 hev with hev | hev
  · exact .inl (hold hev)
  · obtain rfl := List.mem_singleton.1 hev
    unfold created at hcreated
    split at hcreated
    · rename_i data row w heq
      cases heq
      exact .inr ⟨j, data, _, rfl, Sys.nextCall_eq ht hp, he, Option.some.inj hcreated⟩
    · cases hcreated

theorem MadeBy.of_old (hmade : MadeBy M s' a) (hl : NewAccounts s l) (hst : Step s l s')
    {r : AccountRecord} (hr : r ∈ s.world.accounts) (hid : r.id = a) : MadeBy M s a := by
  rcases hmade.of_step hst with hmade | ⟨i, data, row, rfl, hnext, he, rfl⟩
  · exact hmade
  · obtain ⟨rfl, -, hnew⟩ := Accounts.create_ok (hl _ hnext) (Op.exec_of_accounts he)
    exact absurd hid (hnew r hr)

theorem not_made_of_run (hd : DistinctIds w₀) (h : Run (ApartUnclaimed M e) (Sys.init w₀) s) :
    ∀ r ∈ s.world.accounts, r.email = e → r.emailVerifiedAt.isSome = true → ¬ MadeBy M s r.id := by
  refine h.invariant (I := fun s : State cfg core => ∀ r ∈ s.world.accounts, r.email = e →
    r.emailVerifiedAt.isSome = true → ¬ MadeBy M s r.id) ?_ fun s l s' hr ih hl hst => ?_
  · rintro r - - - ⟨t, ht, -⟩
    cases ht
  have hC : ∀ s l, (ApartUnclaimed M e : Discipline (server cfg core)) s l → NewAccounts s l :=
    fun s l hl => hl.1.1
  intro r hr' hemail hverified hmade
  -- it is enough that the account has been there before, and was not the principal's
  have hold : ∀ r₀ ∈ s.world.accounts, r₀.id = r.id → ¬ MadeBy M s r.id → False :=
    fun r₀ hr₀ hid hnot => hnot (hmade.of_old (hC s l hl) hst hr₀ hid)
  rcases Verification.step_rows (verification_kept.obeyed hr) (distinctIds_of_run hC hd hr)
    (hC s l hl) hst with hrows | ⟨i, o, rfl, hnext, -, hwrote⟩
  · rw [hrows] at hr'
    exact hold r hr' rfl (ih r hr' hemail hverified)
  cases hwrote with
  | create data hnew hrows =>
    rw [hrows] at hr'
    rcases List.mem_append.1 hr' with hr' | hr'
    · exact hold r hr' rfl (ih r hr' hemail hverified)
    · obtain rfl := List.mem_singleton.1 hr'
      cases hverified
  | update a patch hpatch hrows =>
    rw [hrows] at hr'
    obtain ⟨r₀, hr₀, rfl⟩ := List.mem_map.1 hr'
    refine hold r₀ hr₀ Accounts.updateRow_id.symm ?_
    rw [Accounts.updateRow_id]
    unfold Accounts.updateRow at hemail hverified
    split_ifs at hemail hverified with hid
    · obtain rfl : r₀.id = a := eq_of_beq hid
      have hemail₀ : r₀.email = e := ((hpatch.grown s.world.now r₀).1).symm.trans hemail
      cases hpatch with
      | verified at_ => exact hl.2 _ hnext r₀.id rfl r₀ hr₀ rfl hemail₀
      | _ => exact ih r₀ hr₀ hemail₀ hverified
    · exact ih r₀ hr₀ hemail hverified

/-- **A stranger stays out.**  In every state of a run in which a principal does not control the
e-mail `e`, and in which no account for `e` is verified that it has created, no token that it has
ever been answered opens a verified account for `e`. -/
theorem stranger_stays_out (hexact : Exact cfg.runtime) (hnode : Tokens.NodeText cfg.runtime)
    (hd : DistinctIds w₀) (hw : Unambiguous w₀)
    (h₀ : ∀ r ∈ w₀.accounts, r.email = e → Closed cfg M r)
    (h : Run (ApartUnclaimed M e) (Sys.init w₀) s) :
    ∀ r ∈ s.world.accounts, r.email = e → r.emailVerifiedAt.isSome = true →
      ∀ tokens ∈ M.sessions s, ¬ Opens cfg s.world tokens r.id := by
  intro r hr hemail hverified tokens htokens
  have hmade := not_made_of_run hd h r hr hemail hverified
  exact not_opens_of_not_made hexact hnode hd hw h₀
    (h.mono fun _ _ => And.left) hr hemail hmade htokens

end

/-! ### An account that a stranger has registered -/

open Tokens (sampleConfig)

/-- A principal that sends the requests 0 and 2, knows one password and holds no Google id. -/
def stranger : Principal := ⟨fun i => i == 0 || i == 2, (· == "mallory"), fun _ => false⟩

/-- The stranger registers with the e-mail, as task 0. -/
def registers (email : String) : List (Label (server sampleConfig Core.sample)) :=
  .start (.register { email := email, password := "mallory" }) :: List.replicate 18 (.step 0)

/-- The owner of the e-mail signs in with Google, as task 1. -/
def ownerSignsIn (n : ℕ) : List (Label (server sampleConfig Core.sample)) :=
  .start (.loginWithGoogle ⟨"g", "a@b.c", true⟩) :: List.replicate n (.step 1)

/-- The stranger signs in with its password, as task 2. -/
def strangerLogsIn : List (Label (server sampleConfig Core.sample)) :=
  .start (.login ⟨"a@b.c", "mallory"⟩) :: List.replicate 8 (.step 2)

/-- An account for the e-mail is verified. -/
def isVerified (s : State sampleConfig Core.sample) : Bool :=
  s.world.accounts.any fun r => r.email == "a@b.c" && r.emailVerifiedAt.isSome

/-- The stranger has `n` sessions; an account for the e-mail is verified, and each of them is a live
one of it. -/
def isLetIn (n : ℕ) (s : State sampleConfig Core.sample) : Bool :=
  (stranger.sessions s).length == n && s.world.accounts.any fun r => r.email == "a@b.c" &&
    r.emailVerifiedAt.isSome && (stranger.sessions s).all fun tokens =>
      s.world.refreshTokens.any fun t =>
        t.tokenHash == hashRefreshToken sampleConfig.runtime tokens.refreshToken &&
          t.accountId == r.id && t.revokedAt == none && decide (s.world.now < t.expiresAt)

theorem exact_sample : Exact sampleConfig.runtime := by
  intro draw password password' h
  exact (eq_of_beq h).symm

set_option maxRecDepth 4000 in
theorem stranger_stays_out_sample :
    ∃ s : State sampleConfig Core.sample,
      Run (ApartUnclaimed stranger "a@b.c") (Sys.init World.sample) s ∧
      (isVerified s && (stranger.sessions s).length == 1) = true ∧
      ∀ r ∈ s.world.accounts, r.email = "a@b.c" → r.emailVerifiedAt.isSome = true →
        ∀ tokens ∈ stranger.sessions s, ¬ Opens sampleConfig s.world tokens r.id := by
  obtain ⟨s, h, hp⟩ := exists_run_of_replay (C := ApartUnclaimed stranger "a@b.c")
    (s := Sys.init World.sample) (registers "m@b.c" ++ ownerSignsIn 17)
    (fun s => isVerified s && (stranger.sessions s).length == 1) (by decide)
  have hd : DistinctIds (World.sample : World Core.sample) := .nil
  have hw : Unambiguous (World.sample : World Core.sample) := by
    intro r hr
    cases hr
  have h₀ : ∀ r ∈ (World.sample : World Core.sample).accounts, r.email = "a@b.c" →
      Closed sampleConfig stranger r := by
    intro r hr
    cases hr
  exact ⟨s, h, hp, stranger_stays_out exact_sample Tokens.nodeText_sample hd hw h₀ h⟩

set_option maxRecDepth 4000 in
/-- **A stranger stays in.**  The account that it has registered stays open to it once the owner of
the e-mail has linked and verified the account: the session that it has opened before is live, and
its password opens another. -/
theorem stranger_stays_in :
    ∃ s : State sampleConfig Core.sample, Run (Apart stranger "a@b.c") (Sys.init World.sample) s ∧
      ∃ r ∈ s.world.accounts, r.email = "a@b.c" ∧ r.emailVerifiedAt.isSome = true ∧
        (stranger.sessions s).length = 2 ∧
        ∀ tokens ∈ stranger.sessions s, Opens sampleConfig s.world tokens r.id := by
  obtain ⟨s, h, hp⟩ := exists_run_of_replay (C := Apart stranger "a@b.c")
    (s := Sys.init World.sample) (registers "a@b.c" ++ ownerSignsIn 12 ++ strangerLogsIn)
    (isLetIn 2) (by decide)
  rw [isLetIn, Bool.and_eq_true, List.any_eq_true] at hp
  obtain ⟨hlength, r, hr, hp⟩ := hp
  rw [Bool.and_eq_true, Bool.and_eq_true, beq_iff_eq, List.all_eq_true] at hp
  obtain ⟨⟨hemail, hverified⟩, hlive⟩ := hp
  refine ⟨s, h, r, hr, hemail, hverified, eq_of_beq hlength, fun tokens htokens => .inr ?_⟩
  obtain ⟨t, ht, hmatch⟩ := List.any_eq_true.1 (hlive tokens htokens)
  simp only [Bool.and_eq_true, beq_iff_eq, decide_eq_true_eq] at hmatch
  obtain ⟨⟨⟨hhash, haccount⟩, hrevoked⟩, hexpires⟩ := hmatch
  exact ⟨t, ht, hhash, haccount, hrevoked, hexpires⟩

end Entry

end HelixServer
