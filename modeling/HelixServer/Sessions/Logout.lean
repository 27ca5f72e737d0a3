import HelixServer.Sessions.Refinement

/-!
# Logout

A logout looks its token up and then revokes it; it never looks at a successor.  A rotation that
has read the token before the logout revokes it goes on and writes a live successor
(`logout_ends_fails`).  Without one a returned logout has retired the token (`logout_ends`).
-/

namespace HelixServer

namespace Sessions

open RefreshTokens Async

/-- The party has read the token with this hash to rotate it and may still write a successor, or
has written one without revoking the token. -/
def Party.pending (p : Party) (tokenHash : String) : Bool :=
  match p.stage with
  | .rotating r => p.running && r.tokenHash == tokenHash
  | .linking r _ => r.tokenHash == tokenHash
  | _ => false

/-- No refresh reads the token with this hash while it is live. -/
def Quiet (tokenHash : String) (m : Model) : Act → Prop
  | .call i (.findByTokenHash h) => ∀ p ∈ m.parties[i]?, p.stage = .presenting h →
      h = tokenHash → ∀ r ∈ findByTokenHash h m.rows, r.revokedAt ≠ none
  | _ => True

instance (tokenHash : String) (m : Model) (a : Act) : Decidable (Quiet tokenHash m a) :=
  match a with
  | .call i (.findByTokenHash h) => inferInstanceAs (Decidable (∀ p ∈ m.parties[i]?,
      p.stage = .presenting h → h = tokenHash →
        ∀ r ∈ findByTokenHash h m.rows, r.revokedAt ≠ none))
  | .call _ (.create _) => .isTrue trivial
  | .call _ (.revoke _ _) => .isTrue trivial
  | .call _ (.revokeAllForAccount _) => .isTrue trivial
  | .join _ => .isTrue trivial
  | .pass _ => .isTrue trivial
  | .stop _ => .isTrue trivial

/-- Nobody is about to rotate the token with this hash, and nobody has. -/
structure Unrotated (tokenHash : String) (m : Model) : Prop where
  idle : ∀ p ∈ m.parties, p.running = true → ∀ r, p.stage = .rotating r → r.tokenHash ≠ tokenHash
  clear : ∀ p ∈ m.parties, ∀ r n, p.stage.rotation = some (r, n) → r.tokenHash ≠ tokenHash

section Unrotated

variable {m m' : Model} {a : Act} {h : String} {r₀ : RefreshTokenRecord}

theorem Unrotated.step (hu : Unrotated h m) (ha : Quiet h m a) (hst : Step m a m') :
    Unrotated h m' where
  idle := by
    intro p' hp' hrun r hs
    obtain ⟨j, hj, hp'⟩ := List.mem_iff_getElem.1 hp'
    rcases hst.party (List.getElem?_eq_some_iff.2 ⟨hj, hp'⟩) with
      ⟨-, hq⟩ | ⟨p, hp, ⟨hs', hrun'⟩ | ⟨-, o, rfl, hm⟩⟩
    · rw [hs] at hq
      exact hq.elim
    · exact hu.idle p (List.mem_of_getElem? hp) (hrun' hrun) r (hs'.symm.trans hs)
    · rw [hs] at hm
      obtain ⟨hq, rfl, hf, hlive⟩ := hm.rotating
      exact fun heq => ha p hp hq heq r hf hlive
  clear := by
    intro p' hp' r n hr
    obtain ⟨j, hj, hp'⟩ := List.mem_iff_getElem.1 hp'
    rcases hst.party (List.getElem?_eq_some_iff.2 ⟨hj, hp'⟩) with
      ⟨-, hq⟩ | ⟨p, hp, ⟨hs, -⟩ | ⟨hrun, o, -, hm⟩⟩
    · rw [Stage.rotation_of_initial hq] at hr
      cases hr
    · exact hu.clear p (List.mem_of_getElem? hp) r n (by rw [← hs]; exact hr)
    · rcases hm.rotation with ⟨-, r', n', d, hq, hq', -, -, -⟩ | hsame
      · rw [hq'] at hr
        cases hr
        exact hu.idle p (List.mem_of_getElem? hp) hrun _ hq
      · exact hu.clear p (List.mem_of_getElem? hp) r n (by rw [← hsame]; exact hr)

theorem unrotated_of_live (hc : Consistent m) (hr₀ : r₀ ∈ m.rows) (hlive : r₀.revokedAt = none)
    (hp : ∀ p ∈ m.parties, p.pending r₀.tokenHash = false) : Unrotated r₀.tokenHash m where
  idle := by
    intro p hmem hrun r hs heq
    have hno := hp p hmem
    simp [Party.pending, hs, hrun, heq] at hno
  clear := by
    intro p hmem r n hr heq
    have hno := hp p hmem
    have hholds := hc.holds p hmem
    cases hs : p.stage with
    | linking r' n' =>
      rw [hs] at hr
      cases hr
      simp [Party.pending, hs, heq] at hno
    | rotated r' n' =>
      rw [hs] at hr hholds
      cases hr
      obtain ⟨r₁, hr₁, hsame⟩ := hholds.subject r rfl
      have hid : r₁ = r₀ := hc.distinct.eq_of_tokenHash hr₁ hr₀ (hsame.tokenHash.trans heq)
      refine hc.distinct.not_revoked hr₀ hlive ?_
      rw [← hid, hsame.id]
      exact hholds.spent r rfl
    | _ => rw [hs] at hr; cases hr

theorem Unrotated.retired (hu : Unrotated r₀.tokenHash m) (hc : Consistent m)
    (hk : Known m.rows r₀) (hv : Revoked m.rows r₀.id) :
    Retired (fun x => x = r₀.id) m.parties.length m := by
  have hne : ∀ p ∈ m.parties, ∀ r, p.stage.subject = some r → r.tokenHash ≠ r₀.tokenHash →
      r.id ≠ r₀.id := by
    intro p hp r hs hneq hid
    obtain ⟨r₁, hr₁, hsame₁⟩ := (hc.holds p hp).subject r hs
    obtain ⟨r₂, hr₂, hsame₂⟩ := hk
    have heq : r₁ = r₂ := hc.distinct.eq_of_id hr₁ hr₂ (by rw [hsame₁.id, hsame₂.id, hid])
    exact hneq (by rw [← hsame₁.tokenHash, heq, hsame₂.tokenHash])
  constructor
  · rintro x rfl
    exact hv
  · intro p hp hrun r hs
    exact hne p hp r (by rw [hs]; rfl) (hu.idle p hp hrun r hs)
  · rintro x y ⟨p, hp, r, n, hr, rfl, rfl⟩ hx
    refine absurd hx (hne p hp r ?_ (hu.clear p hp r n hr))
    cases hs : p.stage <;> rw [hs] at hr <;> cases hr <;> rfl
  · intro j p hj hp
    exact absurd (List.getElem?_eq_some_iff.1 hp).1 (by omega)

theorem Move.absent {rows rows' : List RefreshTokenRecord} {q : Stage} {o : RefreshTokenOp}
    (hm : Move rows q o rows' (.absent h)) : findByTokenHash h rows = none := by
  generalize hq' : Stage.absent h = q' at hm
  cases hm with
  | present h =>
    rcases Stage.presented_cases h (findByTokenHash h rows) with hs | ⟨r', -, -, hs⟩ |
      ⟨r', -, -, hs⟩
    all_goals rw [hs] at hq'; cases hq'
  | leave h' =>
    cases hf : findByTokenHash h' rows with
    | none => rw [hf] at hq'; cases hq'; exact hf
    | some r =>
      rw [hf] at hq'
      simp only [Stage.found] at hq'
      split_ifs at hq'
  | _ => cases hq'

theorem not_absent (hk : Known m.rows r₀) (hst : Step m a m') {p' : Party} {k : ℕ}
    (hs : ∀ p, m.parties[k]? = some p → p.stage ≠ .absent r₀.tokenHash)
    (hp' : m'.parties[k]? = some p') : p'.stage ≠ .absent r₀.tokenHash := by
  intro habs
  rcases hst.party hp' with ⟨-, hq⟩ | ⟨p, hp, ⟨hsame, -⟩ | ⟨-, o, -, hm⟩⟩
  · rw [habs] at hq
    exact hq
  · exact hs p hp (hsame.symm.trans habs)
  · rw [habs] at hm
    obtain ⟨r, hr, hsame⟩ := hk
    have hnone := List.find?_eq_none.1 hm.absent r hr
    exact hnone (by simp [hsame.tokenHash])

/-- While a logout runs and no refresh reads its token live, nobody rotates the token. -/
theorem unrotated_of_run {m₀ : Model} {k : ℕ}
    (hu : Unrotated r₀.tokenHash m₀) (hk : Known m₀.rows r₀)
    (hs : ∀ p, m₀.parties[k]? = some p → p.stage ≠ .absent r₀.tokenHash)
    (hrun : lts.Run (Quiet r₀.tokenHash) m₀ m) :
    Unrotated r₀.tokenHash m ∧ Known m.rows r₀ ∧
      ∀ p, m.parties[k]? = some p → p.stage ≠ .absent r₀.tokenHash :=
  hrun.invariant (I := fun m => Unrotated r₀.tokenHash m ∧ Known m.rows r₀ ∧
    ∀ p, m.parties[k]? = some p → p.stage ≠ .absent r₀.tokenHash) ⟨hu, hk, hs⟩
    fun _ _ _ _ ih ha hst => ⟨ih.1.step ha hst, ih.2.1.mono (Step.evolves hst),
      fun _ hp' => not_absent ih.2.1 hst ih.2.2 hp'⟩

end Unrotated

variable {cfg : Config} {core : Core}

/-- From `s` on, up to `s'`, neither the token `r` nor any token obtained from it by rotation is
accepted from a request made after `s`. -/
def SessionEnded (r : RefreshTokenRecord) (s s' : State cfg core) : Prop :=
  ∀ (j : ℕ) (refreshToken : String) (y : RefreshTokenRecord), s.tasks.length ≤ j →
    y ∈ s'.world.refreshTokens → y.tokenHash = hashRefreshToken cfg.runtime refreshToken →
    Descends (abs s') r.id y.id → ¬ Accepted s' j refreshToken

/-- **Logout ends the session.**  A logout starts with a live token; at that time no refresh has
read the token without revoking it, but for those that ended before writing a successor, and none
reads it live while the logout runs.  Then the session has ended once the logout has returned. -/
theorem logout_ends {w₀ : World core} {s₀ s₁ s₂ s₃ : State cfg core} {refreshToken : String}
    {r : RefreshTokenRecord} (hw : Distinct w₀.refreshTokens)
    (h₀ : Run (Under Free) (Sys.init w₀) s₀) (hr : r ∈ s₀.world.refreshTokens)
    (hh : r.tokenHash = hashRefreshToken cfg.runtime refreshToken) (hlive : r.revokedAt = none)
    (hidle : ∀ p ∈ (abs s₀).parties, p.pending r.tokenHash = false)
    (hst : Async.Step s₀ (.start (.logout refreshToken)) s₁)
    (h₁ : Run (Under (Quiet r.tokenHash)) s₁ s₂)
    (hend : LoggedOut s₂ s₀.tasks.length refreshToken) (h₂ : Run (Under Free) s₂ s₃) :
    SessionEnded r s₂ s₃ := by
  have hinit : Consistent (abs (Sys.init w₀ : State cfg core)) := consistent_init hw
  have hl : Under Free s₀ (.start (.logout refreshToken)) := by
    intro a ha; cases ha; exact ⟨trivial, trivial⟩
  have hr₁ := h₀.tail hl hst
  have hr₂ : Run (Under Free) (Sys.init w₀) s₂ :=
    hr₁.trans (h₁.mono fun s l hc a ha => ⟨(hc a ha).1, trivial⟩)
  have hr₃ := hr₂.trans h₂
  have hc₀ := hinit.run (run_init h₀)
  have hc₂ := hinit.run (run_init hr₂)
  have hc₃ := hinit.run (run_init hr₃)
  -- the start of the logout touches no row and no other party
  obtain ⟨a, ha, hs⟩ := (step_abs (obeyed_of_run h₀) (fun a ha => (hl a ha).1) hst).resolve_left
    fun hn => by cases hn.1
  cases ha
  have hu := (unrotated_of_live hc₀ hr hlive hidle).step
    (show Quiet _ _ (.join _) from trivial) hs
  have hk := (known_of_mem hr).mono hs.evolves
  have hnew : ∀ p, (abs s₁).parties[s₀.tasks.length]? = some p →
      p.stage ≠ .absent r.tokenHash := by
    intro p hp
    rcases hs.party hp with ⟨-, hq⟩ | ⟨p₀, hp₀, -⟩
    · intro habs; rw [habs] at hq; exact hq
    · exact absurd (List.getElem?_eq_some_iff.1 hp₀).1 (by simp [abs])
  obtain ⟨hu₂, hk₂, hnew₂⟩ := unrotated_of_run hu hk hnew (run_abs (obeyed_of_run hr₁) h₁)
  -- the logout has revoked the token, or has found it revoked
  obtain ⟨p, hp, habs | ⟨r', hspent, hh'⟩⟩ := hend.stage (obeyed_of_run hr₂) hc₂
  · rw [← hh] at habs
    exact absurd habs (hnew₂ p hp)
  have hv : Revoked (abs s₂).rows r.id := by
    have hmem := List.mem_of_getElem? hp
    obtain ⟨r₁, hr₁, hid, hrev⟩ := (hc₂.holds p hmem).spent r' hspent
    obtain ⟨r₂, hr₂, hsame₂⟩ := (hc₂.holds p hmem).subject r' (by
      cases hs' : p.stage <;> rw [hs'] at hspent <;> cases hspent <;> rfl)
    obtain ⟨r₃, hr₃, hsame₃⟩ := hk₂
    have h₁₂ : r₁ = r₂ := hc₂.distinct.eq_of_id hr₁ hr₂ (hid.trans hsame₂.id.symm)
    have h₂₃ : r₂ = r₃ := hc₂.distinct.eq_of_tokenHash hr₂ hr₃ (by
      rw [hsame₂.tokenHash, hsame₃.tokenHash, hh, hh'])
    exact ⟨r₁, hr₁, by rw [h₁₂, h₂₃, hsame₃.id], hrev⟩
  have hret := retired_of_run hc₂ (hu₂.retired hc₂ hk₂ hv) (run_abs (obeyed_of_run hr₂) h₂)
  intro j refreshToken y hj hy hhy hd
  exact hret.refused (obeyed_of_run hr₃) hc₃ rfl hy hd (by simpa [abs] using hj) hhy

theorem logout_ends_alone : ∃ (r : RefreshTokenRecord) (s₂ s₃ : State Config.sample Core.sample),
    r.tokenHash = sampleToken 12 ∧ LoggedOut s₂ 1 (sampleToken 12) ∧ SessionEnded r s₂ s₃ := by
  obtain ⟨s₀, h₀, hp⟩ := exists_run_of_replay (C := Under Free) (s := Sys.init World.sample)
    sampleSignIn (fun s₀ => s₀.world.refreshTokens.any fun r =>
      decide (r.tokenHash = sampleToken 12 ∧ r.revokedAt = none ∧
        ∀ p ∈ (abs s₀).parties, p.pending r.tokenHash = false) &&
      (s₀.next (.start (.logout (sampleToken 12)))).any fun s₁ =>
        (replay (Under (Quiet r.tokenHash)) s₁ (List.replicate 3 (.step 1))).any fun s₂ =>
          decide (LoggedOut s₂ s₀.tasks.length (sampleToken 12) ∧ s₀.tasks.length = 1))
    (by decide)
  obtain ⟨r, hr, hp⟩ := List.any_eq_true.1 hp
  obtain ⟨hs, hp⟩ := Bool.and_eq_true_iff.1 hp
  obtain ⟨hh, hlive, hidle⟩ := of_decide_eq_true hs
  obtain ⟨s₁, hst, hp⟩ := exists_step_of_next _ hp
  obtain ⟨s₂, h₁, hp⟩ := exists_run_of_replay _ _ hp
  obtain ⟨hend, hlen⟩ := of_decide_eq_true hp
  exact ⟨r, s₂, s₂, hh, by rw [← hlen]; exact hend,
    logout_ends distinct_nil h₀ hr hh hlive hidle hst h₁ hend (.refl _)⟩

/-- A refresh looks its token up. -/
def rotationBegins : List (Label (server Config.sample Core.sample)) :=
  sampleSignIn ++ [.start (.refresh (sampleToken 12)), .step 1]

/-- The refresh goes on, and its token `sampleToken 22` is presented. -/
def rotationEnds : List (Label (server Config.sample Core.sample)) :=
  List.replicate 8 (.step 1) ++ .start (.refresh (sampleToken 22)) :: List.replicate 9 (.step 3)

/-- **A rotation in flight survives the logout.** -/
theorem logout_ends_fails : ∃ (r : RefreshTokenRecord)
    (s₀ s₁ s₂ s₃ : State Config.sample Core.sample), Run (Under Free) (Sys.init .sample) s₀ ∧
    r ∈ s₀.world.refreshTokens ∧ r.tokenHash = sampleToken 12 ∧ r.revokedAt = none ∧
    Async.Step s₀ (.start (.logout (sampleToken 12))) s₁ ∧ Run (Under Free) s₁ s₂ ∧
    LoggedOut s₂ s₀.tasks.length (sampleToken 12) ∧ Run (Under Free) s₂ s₃ ∧
    ¬ SessionEnded r s₂ s₃ := by
  obtain ⟨s₀, h₀, hp⟩ := exists_run_of_replay (C := Under Free) (s := Sys.init World.sample)
    rotationBegins (fun s₀ => s₀.world.refreshTokens.any fun r =>
      decide (r.tokenHash = sampleToken 12 ∧ r.revokedAt = none) &&
      (s₀.next (.start (.logout (sampleToken 12)))).any fun s₁ =>
        (replay (Under Free) s₁ (List.replicate 3 (.step 2))).any fun s₂ =>
          decide (LoggedOut s₂ s₀.tasks.length (sampleToken 12) ∧ s₂.tasks.length ≤ 3) &&
          (replay (Under Free) s₂ rotationEnds).any fun s₃ =>
            decide (Accepted s₃ 3 (sampleToken 22) ∧ ∃ y ∈ s₃.world.refreshTokens,
              y.tokenHash = sampleToken 22 ∧ Rotates (abs s₃) r.id y.id)) (by decide)
  obtain ⟨r, hr, hp⟩ := List.any_eq_true.1 hp
  obtain ⟨hs, hp⟩ := Bool.and_eq_true_iff.1 hp
  obtain ⟨hh, hlive⟩ := of_decide_eq_true hs
  obtain ⟨s₁, hst, hp⟩ := exists_step_of_next _ hp
  obtain ⟨s₂, h₁, hp⟩ := exists_run_of_replay _ _ hp
  obtain ⟨hs, hp⟩ := Bool.and_eq_true_iff.1 hp
  obtain ⟨hend, hlen⟩ := of_decide_eq_true hs
  obtain ⟨s₃, h₂, hp⟩ := exists_run_of_replay _ _ hp
  obtain ⟨hacc, y, hy, hhy, hrot⟩ := of_decide_eq_true hp
  exact ⟨r, s₀, s₁, s₂, s₃, h₀, hr, hh, hlive, hst, h₁, hend, h₂,
    fun hended => hended 3 _ y hlen hy hhy (.single hrot) hacc⟩

end Sessions

end HelixServer
