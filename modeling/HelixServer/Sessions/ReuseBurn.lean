import HelixServer.Sessions.Refinement

/-!
# Reuse detection

A refresh that reads a revoked token revokes every token of the account in one call, and then ends
in an error.  A rotation of the account that has passed its own check before that call writes its
successor after it, and the successor is live (`reuse_burns_fails`).  Without such a rotation, and
without a sign-in that writes its token between the call and the error, every token that exists
when the error is raised is retired, with all its descendants (`reuse_burns`).

The proof: from the call on the account is *sealed* (all its tokens are revoked and no rotation of
one is about to write), and it stays sealed until a sign-in opens a new session.
-/

namespace HelixServer

namespace Sessions

open RefreshTokens Async

/-- The party has read a live token of the account and has not written the successor yet. -/
def Party.rotatingFor (p : Party) (accountId : String) : Bool :=
  match p.stage with
  | .rotating r => p.running && r.accountId == accountId
  | _ => false

/-- The party has revoked the tokens of the account and has not ended yet. -/
def Party.burningFor (p : Party) (accountId : String) : Bool :=
  match p.stage with
  | .burnt r => p.running && r.accountId == accountId
  | _ => false

/-- The tokens of an account are revoked only while no rotation of the account is between its check
and its write; and no sign-in of the account writes its token between that call and the end of the
request that made it. -/
def Cut (m : Model) : Act → Prop
  | .call _ (.revokeAllForAccount accountId) => ∀ p ∈ m.parties, p.rotatingFor accountId = false
  | .call i (.create data) => ∀ p ∈ m.parties[i]?, p.stage = .opening →
      ∀ p' ∈ m.parties, p'.burningFor data.accountId = false
  | _ => True

instance (m : Model) (a : Act) : Decidable (Cut m a) :=
  match a with
  | .call _ (.revokeAllForAccount accountId) =>
    inferInstanceAs (Decidable (∀ p ∈ m.parties, p.rotatingFor accountId = false))
  | .call i (.create data) => inferInstanceAs (Decidable (∀ p ∈ m.parties[i]?, p.stage = .opening →
      ∀ p' ∈ m.parties, p'.burningFor data.accountId = false))
  | .call _ (.findByTokenHash _) => .isTrue trivial
  | .call _ (.revoke _ _) => .isTrue trivial
  | .join _ => .isTrue trivial
  | .pass _ => .isTrue trivial
  | .stop _ => .isTrue trivial

/-- All tokens of the account are revoked, and no rotation is about to write one. -/
structure Sealed (accountId : String) (m : Model) : Prop where
  revoked : ∀ r ∈ m.rows, r.accountId = accountId → r.revokedAt ≠ none
  idle : ∀ p ∈ m.parties, p.running = true → ∀ r, p.stage = .rotating r → r.accountId ≠ accountId

section Sealed

variable {m m' : Model} {act : Act} {a : String} {i : ℕ} {p p' : Party}

/-- A sealed account stays sealed until a sign-in writes a token for it. -/
theorem Sealed.step (hs : Sealed a m) (hc : Consistent m) (hst : Step m act m')
    (hno : ∀ i d p, act = .call i (.create d) → m.parties[i]? = some p → p.stage = .opening →
      d.accountId ≠ a) : Sealed a m' where
  revoked := by
    intro r' hr' ha
    have hd' := (hc.step hst).distinct
    have old : ∀ r ∈ m.rows, SameToken r r' → r'.revokedAt ≠ none := by
      intro r hr hsame
      have hrev := hs.revoked r hr (hsame.accountId.symm.trans ha)
      obtain ⟨r₂, hr₂, hsame₂, hv⟩ := hst.evolves r hr
      rw [hd'.eq_of_id hr' hr₂ (hsame.id.trans hsame₂.id.symm)]
      exact hv hrev
    rcases hst.store with hrows | ⟨i, p, p', o, hp, hp', hrun, hact, hm⟩
    · rw [hrows] at hr'
      exact old r' hr' (.refl r')
    · rcases hm.mem hr' with ⟨r, hr, hsame⟩ | ⟨hq, -, d, rfl, hd⟩ | ⟨r, hq, -, hacc⟩
      · exact old r hr hsame
      · exact absurd (hd.trans ha) (hno i d p hact hp hq)
      · exact absurd (hacc.symm.trans ha) (hs.idle p (List.mem_of_getElem? hp) hrun r hq)
  idle := by
    intro p' hp' hrun r hq
    obtain ⟨j, hj, hp'⟩ := List.mem_iff_getElem.1 hp'
    rcases hst.party (List.getElem?_eq_some_iff.2 ⟨hj, hp'⟩) with
      ⟨-, hq'⟩ | ⟨p, hp, ⟨hq', hrun'⟩ | ⟨-, o, -, hm⟩⟩
    · rw [hq] at hq'
      exact hq'.elim
    · exact hs.idle p (List.mem_of_getElem? hp) (hrun' hrun) r (hq'.symm.trans hq)
    · rw [hq] at hm
      obtain ⟨-, -, hf, hlive⟩ := hm.rotating
      exact fun ha => hs.revoked r (findByTokenHash_some hf).1 ha hlive

/-- Every request that has burnt an account and not ended has left it sealed. -/
def Quelled (m : Model) : Prop :=
  ∀ p ∈ m.parties, p.running = true → ∀ r, p.stage = .burnt r → Sealed r.accountId m

theorem Move.burnt {rows rows' : List RefreshTokenRecord} {q : Stage} {o : RefreshTokenOp}
    {r : RefreshTokenRecord} (h : Move rows q o rows' (.burnt r)) :
    ∃ now, o = .revokeAllForAccount r.accountId ∧
      rows' = revokeAllForAccount r.accountId now rows := by
  generalize hq' : Stage.burnt r = q' at h
  cases h with
  | burn r now => cases hq'; exact ⟨now, rfl, rfl⟩
  | present h =>
    rcases Stage.presented_cases h (findByTokenHash h rows) with hs | ⟨r', -, -, hs⟩ |
      ⟨r', -, -, hs⟩
    all_goals rw [hs] at hq'; cases hq'
  | leave h =>
    rcases Stage.found_cases h (findByTokenHash h rows) with hs | ⟨r', -, -, hs⟩ | ⟨r', -, -, hs⟩
    all_goals rw [hs] at hq'; cases hq'
  | _ => cases hq'

theorem sealed_of_burn {r : RefreshTokenRecord} (ha : Cut m act) (hst : Step m act m')
    (hact : act = .call i (.revokeAllForAccount r.accountId)) {now : ℕ}
    (hrows : m'.rows = revokeAllForAccount r.accountId now m.rows) : Sealed r.accountId m' := by
  subst hact
  constructor
  · intro r' hr' hacc
    rw [hrows] at hr'
    obtain ⟨r₀, hr₀, rfl⟩ := List.mem_map.1 hr'
    exact burnRow_revokedAt (by rw [← keeps_burnRow.accountId]; exact hacc)
  · intro p' hp' hrun r' hq hacc
    obtain ⟨j, hj, hp'⟩ := List.mem_iff_getElem.1 hp'
    rcases hst.party (List.getElem?_eq_some_iff.2 ⟨hj, hp'⟩) with
      ⟨-, hq'⟩ | ⟨p, hp, ⟨hq', hrun'⟩ | ⟨-, o, hact, hm⟩⟩
    · rw [hq] at hq'
      exact hq'.elim
    · have hno := ha p (List.mem_of_getElem? hp)
      simp [Party.rotatingFor, hq'.symm.trans hq, hrun' hrun, hacc] at hno
    · rw [hq] at hm
      cases hact
      obtain ⟨-, hfind, -⟩ := hm.rotating
      cases hfind

/-- A request that ends after burning an account leaves it sealed. -/
theorem Quelled.sealed (hq : Quelled m) (hc : Consistent m) (ha : Cut m act)
    (hst : Step m act m') (hp : m.parties[i]? = some p) (hrun : p.running = true)
    (hp' : m'.parties[i]? = some p') {r : RefreshTokenRecord} (hs : p'.stage = .burnt r) :
    Sealed r.accountId m' := by
  obtain ⟨p₁, hp₁, hm⟩ := hst.getElem? hp
  obtain rfl : p₁ = p' := Option.some.inj (hp₁.symm.trans hp')
  rcases hm with ⟨hsame, -⟩ | ⟨-, o, hact, hm⟩
  · have hmem := List.mem_of_getElem? hp
    rw [hs] at hsame
    refine (hq p hmem hrun r hsame.symm).step hc hst fun j d p₂ hact hp₂ hopen hacc => ?_
    subst hact
    have hno := ha p₂ hp₂ hopen p hmem
    simp [Party.burningFor, ← hsame, hrun, hacc] at hno
  · rw [hs] at hm
    obtain ⟨now, rfl, hrows⟩ := hm.burnt
    exact sealed_of_burn ha hst hact hrows

theorem Quelled.step (hq : Quelled m) (hc : Consistent m) (ha : Cut m act)
    (hst : Step m act m') : Quelled m' := by
  intro p' hp' hrun r hs
  obtain ⟨j, hj, hp'⟩ := List.mem_iff_getElem.1 hp'
  have hp' : m'.parties[j]? = some p' := List.getElem?_eq_some_iff.2 ⟨hj, hp'⟩
  rcases hst.party hp' with ⟨-, hinit⟩ | ⟨p, hp, hm⟩
  · rw [hs] at hinit
    exact hinit.elim
  · refine hq.sealed hc ha hst hp ?_ hp' hs
    rcases hm with ⟨-, hrun'⟩ | ⟨hrun', -⟩
    · exact hrun' hrun
    · exact hrun'

theorem quelled_of_run {m₀ : Model} (hc : Consistent m₀) (hq : Quelled m₀)
    (h : lts.Run Cut m₀ m) : Quelled m :=
  (h.invariant (I := fun m => Consistent m ∧ Quelled m) ⟨hc, hq⟩ fun _ _ _ _ ih ha hst =>
    ⟨ih.1.step hst, ih.2.step ih.1 ha hst⟩).2

theorem Sealed.retired (hs : Sealed a m) (hc : Consistent m) (hf : Familial m) :
    Retired (fun x => ∃ r ∈ m.rows, r.id = x ∧ r.accountId = a) m.parties.length m where
  revoked := by
    rintro x ⟨r, hr, rfl, hacc⟩
    exact ⟨r, hr, rfl, hs.revoked r hr hacc⟩
  idle := by
    rintro p hp hrun r hq ⟨r', hr', hid, hacc⟩
    obtain ⟨r₁, hr₁, hsame⟩ := (hc.holds p hp).subject r (by rw [hq]; rfl)
    refine hs.idle p hp hrun r hq ?_
    rw [← hsame.accountId, hc.distinct.eq_of_id hr₁ hr' (hsame.id.trans hid.symm), hacc]
  closed := by
    rintro x y ⟨p, hp, r, n, hr, rfl, rfl⟩ ⟨r', hr', hid, hacc⟩
    have hsub : p.stage.subject = some r ∧ p.stage.made = some n := by
      cases hq : p.stage <;> rw [hq] at hr <;> cases hr <;> exact ⟨rfl, rfl⟩
    obtain ⟨r₁, hr₁, hsame₁⟩ := (hc.holds p hp).subject r hsub.1
    obtain ⟨n₁, hn₁, hsame₂⟩ := (hc.holds p hp).made n hsub.2
    refine ⟨n₁, hn₁, hsame₂.id, ?_⟩
    rw [hsame₂.accountId, hf p hp r n hr, ← hsame₁.accountId,
      hc.distinct.eq_of_id hr₁ hr' (hsame₁.id.trans hid.symm), hacc]
  late := by
    intro j p hj hp
    exact absurd (List.getElem?_eq_some_iff.1 hp).1 (by omega)

end Sealed

variable {cfg : Config} {core : Core}

/-- Of the tokens of the account, a request made after `s` is given new tokens, up to `s'`, only for
one that descends from a sign-in after `s`, and from none that existed in `s`. -/
def OnlyNewSessions (accountId : String) (s s' : State cfg core) : Prop :=
  ∀ (j : ℕ) (refreshToken : String) (y : RefreshTokenRecord), s.tasks.length ≤ j →
    Accepted s' j refreshToken → y ∈ s'.world.refreshTokens →
    y.tokenHash = hashRefreshToken cfg.runtime refreshToken →
    (∀ x ∈ s.world.refreshTokens, x.accountId = accountId → ¬ Descends (abs s') x.id y.id) ∧
    (y.accountId = accountId → ∃ p ∈ (abs s').parties, ∃ n, p.stage = .opened n ∧
      (∀ x ∈ s.world.refreshTokens, x.id ≠ n.id) ∧ Descends (abs s') n.id y.id)

/-- The step in which a request is told of a reuse is a step of that request. -/
theorem step_of_reused {s s' : State cfg core} {l : Label (server cfg core)} {i : ℕ}
    {refreshToken : String} (hst : Async.Step s l s') (hbefore : ¬ Reused s i refreshToken)
    (hafter : Reused s' i refreshToken) :
    ∃ t, s.tasks[i]? = some t ∧ t.running = true ∧ actOf s l ≠ none := by
  obtain ⟨t', ht', hcall, hp⟩ := hafter
  rcases hst.task ht' with ⟨c, rfl, rfl⟩ | hsame | ⟨t, ht, hrun, hl⟩
  · -- a refresh starts with a call
    obtain rfl : c = .refresh refreshToken := hcall
    cases hp
  · exact absurd ⟨t', hsame, hcall, hp⟩ hbefore
  · refine ⟨t, ht, hrun, ?_⟩
    rcases hl with rfl | rfl
    · simp only [actOf]; split <;> simp
    · simp [actOf]

/-- **Reuse detection burns the account.**  In every run in which the tokens of an account are
revoked only while no rotation of the account is between its check and its write, and no sign-in
writes a token between that call and the error, the following holds from the step on in which a
request ends with the error: no token of the account that exists then, and none obtained from one
by rotation, is accepted from a request made later; of the account's tokens only those of new
sign-ins, and their descendants, are. -/
theorem reuse_burns {w₀ : World core} {s s' s'' : State cfg core}
    {l : Label (server cfg core)} {i : ℕ} {refreshToken : String} (hw : w₀.refreshTokens = [])
    (h : Run (Under Cut) (Sys.init w₀) s) (hl : Under Cut s l) (hst : Async.Step s l s')
    (hbefore : ¬ Reused s i refreshToken) (hafter : Reused s' i refreshToken)
    (h' : Run (Under Cut) s' s'') :
    ∃ r ∈ s'.world.refreshTokens, r.tokenHash = hashRefreshToken cfg.runtime refreshToken ∧
      OnlyNewSessions r.accountId s' s'' := by
  have hinit : Consistent (abs (Sys.init w₀ : State cfg core)) :=
    consistent_init (by rw [hw]; exact distinct_nil)
  have hr' := h.tail hl hst
  have hr'' := hr'.trans h'
  have hc := hinit.run (run_init h)
  have hc' := hinit.run (run_init hr')
  have hc'' := hinit.run (run_init hr'')
  have hq := quelled_of_run hinit (by intro p hp; cases hp) (run_init h)
  -- the account is sealed after the step
  obtain ⟨t, ht, hrun, hact⟩ := step_of_reused hst hbefore hafter
  obtain ⟨a, ha, hs⟩ := (step_abs (obeyed_of_run h) (fun a ha => (hl a ha).1) hst).resolve_left
    fun hn => hact hn.1
  obtain ⟨p', r, hp', hburnt, hh⟩ := hafter.stage (obeyed_of_run hr') hc'
  have hsealed := hq.sealed hc (hl a ha).2 hs (abs_getElem? ht) hrun hp' hburnt
  -- so its tokens are retired
  have hfam := familial_of_run (by intro p hp; cases hp) (run_init hr')
  have hret := retired_of_run hc' (hsealed.retired hc' hfam) (run_abs (obeyed_of_run hr') h')
  have hroot := rooted_of_run hinit (by intro r hr; simp [abs, Sys.init, hw] at hr) (run_init hr'')
  obtain ⟨r₁, hr₁, hsame⟩ := (hc'.holds p' (List.mem_of_getElem? hp')).subject r
    (by rw [hburnt]; rfl)
  refine ⟨r₁, hr₁, hsame.tokenHash.trans hh, fun j refreshToken y hj hacc hy hhy => ?_⟩
  have hold : ∀ x ∈ s'.world.refreshTokens, x.accountId = r₁.accountId →
      ¬ Descends (abs s'') x.id y.id := by
    intro x hx hxa hd
    refine hret.refused (obeyed_of_run hr'') hc'' ⟨x, hx, rfl, ?_⟩ hy hd ?_ hhy hacc
    · rw [hxa, hsame.accountId]
    · simpa [abs] using hj
  refine ⟨hold, fun hya => ?_⟩
  obtain ⟨p, hp, n, hopen, hna, hd⟩ := hroot y hy
  refine ⟨p, hp, n, hopen, fun x hx hid => ?_, hd⟩
  -- a token of the account that existed in `s'` is no ancestor
  have hxa : x.accountId = r₁.accountId := by
    obtain ⟨x', hx', hsx, -⟩ := evolves_of_run (run_abs (obeyed_of_run hr') h') x hx
    obtain ⟨n', hn', hsn⟩ := (hc''.holds p hp).made n (by rw [hopen]; rfl)
    have heq : x' = n' := hc''.distinct.eq_of_id hx' hn' (by rw [hsx.id, hid, hsn.id])
    rw [← hya, ← hna, ← hsn.accountId, ← heq, hsx.accountId]
  exact hold x hx hxa (by rw [hid]; exact hd)

/-- A token is rotated; then it is presented again, and the request is about to end. -/
def sequentialReuse : List (Label (server Config.sample Core.sample)) :=
  sampleSignIn ++ .start (.refresh (sampleToken 12)) :: List.replicate 9 (.step 1) ++
    [.start (.refresh (sampleToken 12)), .step 2, .step 2]

/-- A new sign-in, and a refresh with its token. -/
def newSession : List (Label (server Config.sample Core.sample)) :=
  .start (.loginWithGoogle ⟨"g", "a@b.c", true⟩) :: List.replicate 7 (.step 3) ++
    .start (.refresh (sampleToken 31)) :: List.replicate 9 (.step 4)

theorem reuse_burns_sequential : ∃ s' s'' : State Config.sample Core.sample,
    Reused s' 2 (sampleToken 12) ∧ Accepted s'' 4 (sampleToken 31) ∧
    ∃ r ∈ s'.world.refreshTokens, r.tokenHash = sampleToken 12 ∧
      OnlyNewSessions r.accountId s' s'' := by
  obtain ⟨s, h₁, hp⟩ := exists_run_of_replay (C := Under Cut) (s := Sys.init World.sample)
    sequentialReuse (fun s => decide (¬ Reused s 2 (sampleToken 12) ∧ Under Cut s (.step 2)) &&
      (s.next (.step 2)).any fun s' => decide (Reused s' 2 (sampleToken 12)) &&
      (replay (Under Cut) s' newSession).any fun s'' =>
        decide (Accepted s'' 4 (sampleToken 31))) (by decide)
  obtain ⟨hs, hp⟩ := Bool.and_eq_true_iff.1 hp
  obtain ⟨hbefore, hl⟩ := of_decide_eq_true hs
  obtain ⟨s', hst, hp⟩ := exists_step_of_next _ hp
  obtain ⟨hs', hp⟩ := Bool.and_eq_true_iff.1 hp
  obtain ⟨s'', h₂, hp⟩ := exists_run_of_replay _ _ hp
  have hafter := of_decide_eq_true hs'
  exact ⟨s', s'', hafter, of_decide_eq_true hp, reuse_burns rfl h₁ hl hst hbefore hafter h₂⟩

/-- A token `sampleToken 12` is rotated to `sampleToken 19`.  A refresh looks the new token up; then
the old one is presented again. -/
def reuseDuringRotation : List (Label (server Config.sample Core.sample)) :=
  sampleSignIn ++ .start (.refresh (sampleToken 12)) :: List.replicate 9 (.step 1) ++
    [.start (.refresh (sampleToken 19)), .step 2,
      .start (.refresh (sampleToken 12)), .step 3, .step 3]

/-- The rotation goes on, and its token `sampleToken 31` is presented. -/
def rotationGoesOn : List (Label (server Config.sample Core.sample)) :=
  List.replicate 8 (.step 2) ++ .start (.refresh (sampleToken 31)) :: List.replicate 9 (.step 4)

/-- **A rotation in flight survives the burn.** -/
theorem reuse_burns_fails : ∃ (s s' s'' : State Config.sample Core.sample)
    (l : Label (server Config.sample Core.sample)), Run (Under Free) (Sys.init .sample) s ∧
    Under Free s l ∧ Async.Step s l s' ∧ ¬ Reused s 3 (sampleToken 12) ∧
    Reused s' 3 (sampleToken 12) ∧ Run (Under Free) s' s'' ∧
    ∀ r ∈ s'.world.refreshTokens, r.tokenHash = sampleToken 12 →
      ¬ OnlyNewSessions r.accountId s' s'' := by
  obtain ⟨s, h₁, hp⟩ := exists_run_of_replay (C := Under Free) (s := Sys.init World.sample)
    reuseDuringRotation (fun s => decide (¬ Reused s 3 (sampleToken 12) ∧ Under Free s (.step 3)) &&
      (s.next (.step 3)).any fun s' => decide (Reused s' 3 (sampleToken 12)) &&
      (replay (Under Free) s' rotationGoesOn).any fun s'' => decide (s'.tasks.length ≤ 4 ∧
        Accepted s'' 4 (sampleToken 31) ∧
        ∀ r ∈ s'.world.refreshTokens, r.tokenHash = sampleToken 12 →
          ∃ y ∈ s''.world.refreshTokens, y.tokenHash = sampleToken 31 ∧
            ∃ x ∈ s'.world.refreshTokens, x.accountId = r.accountId ∧
              Rotates (abs s'') x.id y.id)) (by decide)
  obtain ⟨hs, hp⟩ := Bool.and_eq_true_iff.1 hp
  obtain ⟨hbefore, hl⟩ := of_decide_eq_true hs
  obtain ⟨s', hst, hp⟩ := exists_step_of_next _ hp
  obtain ⟨hs', hp⟩ := Bool.and_eq_true_iff.1 hp
  obtain ⟨s'', h₂, hp⟩ := exists_run_of_replay _ _ hp
  obtain ⟨hlen, hacc, hrow⟩ := of_decide_eq_true hp
  refine ⟨s, s', s'', _, h₁, hl, hst, hbefore, of_decide_eq_true hs', h₂,
    fun r hr hh hnew => ?_⟩
  obtain ⟨y, hy, hhy, x, hx, hxa, hrot⟩ := hrow r hr hh
  exact (hnew 4 _ y hlen hacc hy hhy).1 x hx hxa (.single hrot)

end Sessions

end HelixServer
