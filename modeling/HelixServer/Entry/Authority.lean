import HelixServer.Access.Privileged
import HelixServer.Entry.Stranger

/-!
# A principal acts on its own sign-ins

A principal that presents no token of another is answered sessions of, and acts for, only accounts
that it has signed in to (`SignedIn`): an access token that the guard accepts was issued in one of
its sessions, and a session that a refresh token opens goes back to one that was opened with a
registration, a password, a Google id or a verified e-mail.

* `OnItsOwn M` : the runs in which the principal presents only tokens that it has been answered.
* `Authority M s` : the tokens that the principal has been answered, and presents, are of accounts
  that it has signed in to.
* `authority_of_run` : so are its privileged calls, and the replies to them.
-/

namespace HelixServer

namespace Entry

open Async
open Access (requestOf ShowsBearer requires Admitted Answered)

variable {cfg : Config} {core : Core}

/-- A request of the principal has signed in to the account: with its creation, a password, a Google
id or a verified e-mail. -/
def SignedIn (M : Principal) (s : State cfg core) (a : String) : Prop :=
  ∃ t ∈ M.tasks s, presentedBy t.call = none ∧ Passed cfg t.call t.done a

/-- The text ends with its signature. -/
def Signed (cfg : Config) (token : String) : Prop :=
  ∃ text, token = text ++ "." ++ base64Url (cfg.runtime.hmacSha256 cfg.accessTokenSecret text)

/-- A signed access token that the principal presents has been answered to it. -/
def Principal.Shows (M : Principal) (s : State cfg core) (c : Call) : Prop :=
  ∀ request ∈ requestOf c, ∀ token ∈ request.bearerToken, Signed cfg token →
    ∃ tokens ∈ M.sessions s, tokens.accessToken = token

/-- The runs in which the principal presents only tokens that it has been answered. -/
def OnItsOwn (M : Principal) : Discipline (server cfg core) := fun s l =>
  NewSessions M s l ∧
    match l with
    | .start c => M.calls s.tasks.length = true → M.Presents s c ∧ M.Shows s c
    | _ => True

/-- The tokens of the principal are of accounts that it has signed in to. -/
structure Authority (M : Principal) (s : State cfg core) : Prop where
  unambiguous : Unambiguous s.world
  /-- The sessions that its requests have opened. -/
  opened : ∀ t ∈ M.tasks s, ∀ data row w, ⟨.refreshTokens (.create data), row, w⟩ ∈ t.done →
    SignedIn M s data.accountId ∧ (data.tokenHash, data.accountId) ∈ owners s.world
  /-- The refresh tokens that its requests present. -/
  presented : ∀ t ∈ M.tasks s, ∀ refreshToken ∈ presentedBy t.call, ∀ a,
    (hashRefreshToken cfg.runtime refreshToken, a) ∈ owners s.world → SignedIn M s a
  /-- The refresh tokens that its requests have found. -/
  found : ∀ t ∈ M.tasks s, ∀ refreshToken ∈ presentedBy t.call, ∀ record w,
    ⟨.refreshTokens (.findByTokenHash (hashRefreshToken cfg.runtime refreshToken)),
      some record, w⟩ ∈ t.done → SignedIn M s record.accountId
  /-- The access tokens that its requests present. -/
  shown : ∀ t ∈ M.tasks s, ∀ request ∈ requestOf t.call, ∀ token ∈ request.bearerToken,
    Signed cfg token → ∃ i : Tokens.Issuance, SignedIn M s i.accountId ∧
      token = i.token cfg.runtime cfg.accessTokenSecret

/-! ### The requests of the principal -/

section

variable {M : Principal} {a : String} {w₀ : World core} {s s' : State cfg core}
  {l : Label (server cfg core)} {t t' : Task (server cfg core)} {i : ℕ} {tokens : AuthTokens}
  {C : Discipline (server cfg core)}

theorem SignedIn.step (h : SignedIn M s a) (hst : Step s l s') : SignedIn M s' a := by
  obtain ⟨t, ht, hcall, hpassed⟩ := h
  obtain ⟨i, hi, ht⟩ := Principal.mem_tasks.1 ht
  obtain ⟨t', ht', hcall', hdone, -⟩ := hst.getElem? ht
  refine ⟨t', Principal.mem_tasks.2 ⟨i, hi, ht'⟩, ?_, ?_⟩
  · rw [hcall', hcall]
  · rw [hcall']
    exact hpassed.mono hdone

/-- A request of the principal has just been started, or was there. -/
theorem Principal.call_of_step (hst : Step s l s') (ht' : t' ∈ M.tasks s') :
    (∃ c, l = .start c ∧ M.calls s.tasks.length = true ∧ t'.call = c) ∨
      ∃ t ∈ M.tasks s, t'.call = t.call := by
  obtain ⟨j, hj, ht'⟩ := Principal.mem_tasks.1 ht'
  rcases hst.grew ht' with ⟨c, rfl, rfl, rfl⟩ | ⟨t, ht, hcall, -⟩
  · exact .inl ⟨c, rfl, hj, rfl⟩
  · exact .inr ⟨t, Principal.mem_tasks.2 ⟨j, hj, ht⟩, hcall⟩

/-- A call of the principal has just been answered, or was before. -/
theorem Principal.event_of_step (hst : Step s l s') (ht' : t' ∈ M.tasks s') {o : Op} {r : o.Res}
    {w : World core} (he : ⟨o, r, w⟩ ∈ t'.done) : ∃ j t, M.calls j = true ∧ s.tasks[j]? = some t ∧
      t'.call = t.call ∧ (⟨o, r, w⟩ ∈ t.done ∨ ∃ k, l = .step j ∧ t.prog = .call o k ∧
        o.exec cfg s.world = (.ok r, s'.world)) := by
  obtain ⟨j, hj, ht'⟩ := Principal.mem_tasks.1 ht'
  rcases hst.grew ht' with ⟨c, -, -, rfl⟩ | ⟨t, ht, hcall, hdone⟩
  · cases he
  refine ⟨j, t, hj, ht, hcall, ?_⟩
  rcases hdone with hdone | ⟨o', k, r', rfl, hp, hexec, hdone⟩ <;> rw [hdone] at he
  · exact .inl he
  rcases List.mem_append.1 he with he | he
  · exact .inl he
  · cases List.mem_singleton.1 he
    exact .inr ⟨k, rfl, hp, hexec⟩

theorem presentedBy_of_made (h : Run C (Sys.init w₀) s) (ht : s.tasks[i]? = some t)
    (hmade : Made t.done a) : presentedBy t.call = none := by
  obtain ⟨⟨o, r, w⟩, he, hcreated⟩ := hmade
  obtain ⟨es, es', hes⟩ := List.append_of_mem he
  have hallowed := entry_kept.allowed_of_done h ht hes
  unfold created at hcreated
  split at hcreated
  · rename_i data row w' heq
    cases heq
    have hcreates : Creates cfg t.call data := hallowed
    generalize t.call = c at hcreates ⊢
    cases hcreates <;> rfl
  · cases hcreated

theorem exists_grants (h : Run C (Sys.init w₀) s) (ht : s.tasks[i]? = some t)
    (hsession : sessionOf t = some tokens) : ∃ a, Grants cfg t.done a tokens := by
  unfold sessionOf at hsession
  split at hsession
  · rename_i account tokens' hp
    cases hsession
    exact ⟨_, entry_kept.answers_of_run h ht hp⟩
  · rename_i tokens' hp
    cases hsession
    exact entry_kept.answers_of_run h ht hp
  · cases hsession

/-! ### One step -/

theorem Authority.signedIn (hs : Authority M s) (h : Run C (Sys.init w₀) s)
    (hi : M.calls i = true) (ht : s.tasks[i]? = some t) (hpassed : Passed cfg t.call t.done a) :
    SignedIn M s a := by
  have hmine : t ∈ M.tasks s := Principal.mem_tasks.2 ⟨i, hi, ht⟩
  by_cases hnone : presentedBy t.call = none
  · exact ⟨t, hmine, hnone, hpassed⟩
  · -- only a refresh token is left
    have hmade : ¬ Made t.done a := fun hmade => hnone (presentedBy_of_made h ht hmade)
    generalize hcall : t.call = c at hpassed hnone
    cases hpassed with
    | created hcreated => exact absurd hcreated hmade
    | @token refreshToken _ record w he =>
      exact hs.found t hmine refreshToken (by rw [hcall]; rfl) record w he
    | _ => exact absurd rfl hnone

/-- The tokens that a request of the principal has been answered. -/
theorem Authority.session (hs : Authority M s) (h : Run C (Sys.init w₀) s)
    (htokens : tokens ∈ M.sessions s) : ∃ i : Tokens.Issuance, SignedIn M s i.accountId ∧
      (hashRefreshToken cfg.runtime tokens.refreshToken, i.accountId) ∈ owners s.world ∧
      tokens.accessToken = i.token cfg.runtime cfg.accessTokenSecret := by
  obtain ⟨t, hmine, hsession⟩ := List.mem_filterMap.1 htokens
  obtain ⟨j, -, ht⟩ := Principal.mem_tasks.1 hmine
  obtain ⟨_, data, w, row, i, he, rfl, hhash, hid, haccess⟩ := exists_grants h ht hsession
  obtain ⟨hsigned, howner⟩ := hs.opened t hmine data row w he
  rw [← hid] at hsigned howner
  exact ⟨i, hsigned, hhash ▸ howner, haccess⟩

theorem unambiguous_of_step (hw : Unambiguous s.world) (hl : NewSessions M s l)
    (hst : Step s l s') : Unambiguous s'.world := by
  have hold := unambiguous_iff.1 hw
  rw [unambiguous_iff]
  rcases owners_of_step hl hst with howners | ⟨data, -, hnew, howners⟩ <;> rw [howners]
  · exact hold
  · intro hash a a' ha ha'
    rcases List.mem_append.1 ha with ha | ha <;> rcases List.mem_append.1 ha' with ha' | ha'
    · exact hold hash a a' ha ha'
    · cases List.mem_singleton.1 ha'
      exact absurd ha (hnew a)
    · cases List.mem_singleton.1 ha
      exact absurd ha' (hnew a')
    · exact congrArg Prod.snd ((List.mem_singleton.1 ha).trans (List.mem_singleton.1 ha').symm)

theorem mem_owners_of_step {x : String × String} (hx : x ∈ owners s.world) (hl : NewSessions M s l)
    (hst : Step s l s') : x ∈ owners s'.world := by
  rcases owners_of_step hl hst with howners | ⟨data, -, -, howners⟩ <;> rw [howners]
  · exact hx
  · exact List.mem_append_left _ hx

/-- **One step.** -/
theorem Authority.step (hs : Authority M s) (h : Run C (Sys.init w₀) s) (hl : OnItsOwn M s l)
    (hst : Step s l s') : Authority M s' := by
  obtain ⟨hnew, hstart⟩ := hl
  refine ⟨unambiguous_of_step hs.unambiguous hnew hst, ?_, ?_, ?_, ?_⟩
  · intro t' hmine' data row w he
    obtain ⟨j, t, hj, ht, -, he | ⟨k, rfl, hp, hexec⟩⟩ := Principal.event_of_step hst hmine' he
    · obtain ⟨hsigned, howner⟩ := hs.opened t (Principal.mem_tasks.2 ⟨j, hj, ht⟩) data row w he
      exact ⟨hsigned.step hst, mem_owners_of_step howner hnew hst⟩
    · -- the session has just been opened
      have hpassed : Passed cfg t.call t.done data.accountId := entry_kept.allowed_of_run h ht hp
      refine ⟨(hs.signedIn h hj ht hpassed).step hst, ?_⟩
      rw [(owners_create (hnew _ (Sys.nextCall_eq ht hp)).1 hexec).2]
      exact List.mem_concat_self
  · intro t' hmine' refreshToken hpresented a ha
    rcases Principal.call_of_step hst hmine' with ⟨c, rfl, hj, rfl⟩ | ⟨t, hmine, hcall⟩
    · have hworld : s'.world = s.world := by
        cases hst
        rfl
      rw [hworld] at ha
      rcases (hstart hj).1 refreshToken hpresented with ⟨tokens, htokens, rfl⟩ | hnone
      · -- the token has been answered to the principal
        obtain ⟨i, hsigned, howner, -⟩ := hs.session h htokens
        rw [unambiguous_iff.1 hs.unambiguous _ _ _ ha howner]
        exact hsigned.step hst
      · obtain ⟨r, hr, hhash, -⟩ := mem_owners.1 ha
        exact absurd hhash (hnone r hr)
    · rw [hcall] at hpresented
      rcases owners_of_step hnew hst with howners | ⟨data, hunforeseen, -, howners⟩ <;>
        rw [howners] at ha
      · exact (hs.presented t hmine refreshToken hpresented a ha).step hst
      · rcases List.mem_append.1 ha with ha | ha
        · exact (hs.presented t hmine refreshToken hpresented a ha).step hst
        · -- a new token has not been presented before
          have hhash := congrArg Prod.fst (List.mem_singleton.1 ha)
          exact absurd hhash (hunforeseen t hmine refreshToken hpresented)
  · intro t' hmine' refreshToken hpresented record w he
    obtain ⟨j, t, hj, ht, hcall, hevent⟩ := Principal.event_of_step hst hmine' he
    have hmine : t ∈ M.tasks s := Principal.mem_tasks.2 ⟨j, hj, ht⟩
    rw [hcall] at hpresented
    refine SignedIn.step ?_ hst
    rcases hevent with he | ⟨k, rfl, hp, hexec⟩
    · exact hs.found t hmine refreshToken hpresented record w he
    · -- the token has just been found
      have hfind := congrArg Prod.fst (Op.exec_of_refreshTokens hexec)
      obtain ⟨hmem, hhash⟩ := RefreshTokens.findByTokenHash_some (Except.ok.inj hfind)
      exact hs.presented t hmine refreshToken hpresented _
        (mem_owners.2 ⟨record, hmem, hhash, rfl⟩)
  · intro t' hmine' request hrequest token htoken hsigned
    rcases Principal.call_of_step hst hmine' with ⟨c, rfl, hj, rfl⟩ | ⟨t, hmine, hcall⟩
    · obtain ⟨tokens, htokens, rfl⟩ := (hstart hj).2 request hrequest token htoken hsigned
      obtain ⟨i, hin, -, haccess⟩ := hs.session h htokens
      exact ⟨i, hin.step hst, haccess⟩
    · rw [hcall] at hrequest
      obtain ⟨i, hin, haccess⟩ := hs.shown t hmine request hrequest token htoken hsigned
      exact ⟨i, hin.step hst, haccess⟩

/-! ### Runs -/

/-- **The tokens of the principal** are of accounts that it has signed in to, in every state. -/
theorem tokens_of_run (hw : Unambiguous w₀) (h : Run (OnItsOwn M) (Sys.init w₀) s) :
    Authority M s := by
  refine h.invariant (I := Authority M) ⟨hw, ?_, ?_, ?_, ?_⟩ fun s l s' hr ih hl hst =>
    ih.step hr hl hst
  all_goals
    intro t ht
    cases ht

theorem Authority.bearer (hnode : Tokens.NodeText cfg.runtime) (hs : Authority M s)
    (hmine : t ∈ M.tasks s) {request : Request} (hrequest : requestOf t.call = some request)
    (hshows : ShowsBearer request t.done a) : SignedIn M s a := by
  obtain ⟨token, payload, htoken, rfl, e, -, -, hok⟩ := hshows.token
  by_cases hsigned : Signed cfg token
  · obtain ⟨i, hin, rfl⟩ := hs.shown t hmine request hrequest token htoken hsigned
    rwa [Tokens.accountId_of_token hnode hok]
  · rw [Tokens.verifyAccessToken_unsigned fun text ht => hsigned ⟨text, ht⟩] at hok
    cases hok

/-- The request is the operator's, or that of an account with `p` that the principal has signed in
to. -/
def Acts (M : Principal) (s : State cfg core) (t : Task (server cfg core))
    (p : String → Prop) : Prop :=
  Admitted t.call t.done fun a => SignedIn M s a ∧ p a

/-- **A principal acts on its own sign-ins.**  In every state of a run in which a principal presents
only tokens that it has been answered, its sessions are of accounts that it has signed in to, and
its requests come to a privileged call, and are given a reply of the guarded routes, only as the
operator's or for an account that it has signed in to, with what the call requires of it. -/
theorem authority_of_run
    (hverify : cfg.verifyAccessToken = verifyAccessToken cfg.runtime cfg.accessTokenSecret)
    (hnode : Tokens.NodeText cfg.runtime) (hids : ∀ r ∈ w₀.accounts, r.id ≠ "")
    (hw : Unambiguous w₀) (h : Run (OnItsOwn M) (Sys.init w₀) s) (hmine : t ∈ M.tasks s) :
    (∀ tokens ∈ sessionOf t, ∃ a, Grants cfg t.done a tokens ∧ SignedIn M s a) ∧
      (∀ o k, t.prog = .call o k → ∀ p ∈ requires t.done o, Acts M s t p) ∧
      ∀ reply, t.prog = .pure reply → Answered t.call t.done reply (Acts M s t) := by
  have hs := tokens_of_run hw h
  obtain ⟨i, hi, ht⟩ := Principal.mem_tasks.1 hmine
  have hmem : t ∈ s.tasks := List.mem_of_getElem? ht
  -- the account that the guard has admitted
  have hacts : ∀ {p}, Admitted t.call t.done p → Acts M s t p := by
    rintro p ⟨request, hrequest, hadmitted⟩
    refine ⟨request, hrequest, hadmitted.imp_right ?_⟩
    rintro ⟨a, hshows, ha⟩
    exact ⟨a, hshows, hs.bearer hnode hmine hrequest hshows, ha⟩
  refine ⟨fun tokens hsession => ?_, fun o k hp p hreq => ?_, fun reply hp => ?_⟩
  · obtain ⟨a, hgrants⟩ := exists_grants h ht hsession
    obtain ⟨data, w, row, -, he, rfl, -⟩ := id hgrants
    exact ⟨_, hgrants, (hs.opened t hmine data row w he).1⟩
  · exact hacts (Access.required_of_run hverify hids h hmem hp p hreq)
  · exact (Access.answered_of_run hverify hids h hmem hp).imp fun _ => hacts

end

/-! ### A request with the token of a session -/

/-- A server that verifies its access tokens, with short signatures. -/
def signingConfig : Config :=
  let runtime := { Tokens.sampleRuntime with
    hmacSha256 := fun secret text => (utf8 (secret ++ text)).take 3 }
  { Config.sample with runtime, verifyAccessToken := verifyAccessToken runtime "" }

/-- A request with the access token of the first session that this server opens. -/
def bearerRequest : Request :=
  let i : Tokens.Issuance := ⟨"acct:002", ["account"], 900, 0, List.replicate 9 16⟩
  ⟨"req", [("authorization", .one ("Bearer " ++ i.token signingConfig.runtime ""))]⟩

/-- The principal presents only what it has been answered, signed or not. -/
def OnlyAnswered (M : Principal) : Discipline (server cfg core) := fun s l =>
  match l with
  | .start c => M.calls s.tasks.length = true → M.Presents s c ∧ ∀ request ∈ requestOf c,
      ∀ token ∈ request.bearerToken, ∃ tokens ∈ M.sessions s, tokens.accessToken = token
  | .step i => ∀ o ∈ s.nextCall i, FreshToken cfg s.world o ∧ M.Unforeseen s o
  | _ => True

instance (M : Principal) (s : State cfg core) (l : Label (server cfg core)) :
    Decidable (OnlyAnswered M s l) :=
  match l with
  | .start c => inferInstanceAs (Decidable (M.calls s.tasks.length = true → M.Presents s c ∧
      ∀ request ∈ requestOf c, ∀ token ∈ request.bearerToken,
        ∃ tokens ∈ M.sessions s, tokens.accessToken = token))
  | .step i => inferInstanceAs (Decidable
      (∀ o ∈ s.nextCall i, FreshToken cfg s.world o ∧ M.Unforeseen s o))
  | .fail _ | .env _ => .isTrue trivial

theorem onItsOwn_of_onlyAnswered {M : Principal} {s : State cfg core} {l : Label (server cfg core)}
    (h : OnlyAnswered M s l) : OnItsOwn M s l := by
  cases l with
  | start c =>
    refine ⟨trivial, fun hi => ⟨(h hi).1, ?_⟩⟩
    intro request hrequest token htoken _
    exact (h hi).2 request hrequest token htoken
  | step i => exact ⟨h, trivial⟩
  | _ => exact ⟨trivial, trivial⟩

/-- The call lists credentials. -/
def isListing : Op → Bool
  | .vcs (.listVCs _) => true
  | _ => false

set_option maxRecDepth 20000 in
/-- A principal signs in, and lists its credentials while another request is served. -/
theorem authority_of_run_list : ∃ (s : State signingConfig Core.sample) (t : _),
    t ∈ stranger.tasks s ∧ t.prog.head.any isListing = true ∧ Acts stranger s t fun _ => True := by
  obtain ⟨s, h, hp⟩ := exists_run_of_replay (C := OnlyAnswered stranger)
    (s := (Sys.init World.sample : State signingConfig Core.sample))
    (.start (.loginWithGoogle ⟨"g", "a@b.c", true⟩) :: List.replicate 17 (.step 0) ++
      .start (.logout "rft") :: .start (.listVCs bearerRequest {}) :: List.replicate 2 (.step 2))
    (fun s => (s.tasks[2]?).any fun t => t.prog.head.any isListing) (by decide +kernel)
  obtain ⟨t, ht, hp⟩ := (Option.any_eq_true _ _).1 hp
  have hmine : t ∈ stranger.tasks s := Principal.mem_tasks.2 ⟨2, rfl, ht⟩
  have hids : ∀ r ∈ (World.sample : World Core.sample).accounts, r.id ≠ "" := by
    intro r hr
    cases hr
  have hw : Unambiguous (World.sample : World Core.sample) := by
    intro r hr
    cases hr
  obtain ⟨-, hcall, -⟩ := authority_of_run rfl (.of_forall (fun _ => rfl) fun _ => rfl) hids hw
    (h.mono fun _ _ => onItsOwn_of_onlyAnswered) hmine
  refine ⟨s, t, hmine, hp, ?_⟩
  cases hprog : t.prog with
  | call o k =>
    rw [hprog] at hp
    cases o with
    | vcs o =>
      cases o with
      | listVCs filter => exact hcall _ k hprog _ rfl
      | _ => cases hp
    | _ => cases hp
  | _ => rw [hprog] at hp; cases hp

end Entry

end HelixServer
