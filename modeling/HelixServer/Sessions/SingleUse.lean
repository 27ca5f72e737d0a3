import HelixServer.Sessions.Refinement

/-!
# Single use of refresh tokens

A rotation looks its token up in one call and revokes it in a later one, and the revocation does
not look again.  So a token is exchanged at most once when no two rotations of it overlap
(`singleUse_of_run`), and an overlap can exchange it twice (`singleUse_fails`).

The proof: a party *holds* a token while it is between the two calls, and for ever after it has
exchanged it.  Without overlaps two parties never hold one token (`Exclusive`): a token someone has
exchanged is revoked, so no look-up finds it live.
-/

namespace HelixServer

namespace Sessions

open RefreshTokens Async

/-- The token a party is exchanging now, or has exchanged. -/
def Party.holds (p : Party) : Option String :=
  match p.stage with
  | .rotating r | .linking r _ => if p.running then some r.id else none
  | .rotated r _ => some r.id
  | _ => none

/-- The party has looked up the token `id` to exchange it and has not revoked it yet. -/
def Party.exchanging (p : Party) (id : String) : Bool :=
  match p.stage with
  | .rotating r | .linking r _ => p.running && r.id == id
  | _ => false

/-- A refresh looks up a live token only while no other rotation of that token is under way. -/
def Alone (m : Model) : Act → Prop
  | .call i (.findByTokenHash h) => ∀ p ∈ m.parties[i]?, p.stage = .presenting h →
      ∀ r ∈ findByTokenHash h m.rows, r.revokedAt = none →
        ∀ p' ∈ m.parties, p'.exchanging r.id = false
  | _ => True

instance (m : Model) (a : Act) : Decidable (Alone m a) :=
  match a with
  | .call i (.findByTokenHash h) => inferInstanceAs (Decidable (∀ p ∈ m.parties[i]?,
      p.stage = .presenting h → ∀ r ∈ findByTokenHash h m.rows, r.revokedAt = none →
        ∀ p' ∈ m.parties, p'.exchanging r.id = false))
  | .call _ (.create _) => .isTrue trivial
  | .call _ (.revoke _ _) => .isTrue trivial
  | .call _ (.revokeAllForAccount _) => .isTrue trivial
  | .join _ => .isTrue trivial
  | .pass _ => .isTrue trivial
  | .stop _ => .isTrue trivial

/-- No two parties hold one token. -/
def Exclusive (m : Model) : Prop :=
  ∀ (i j : ℕ) (p p' : Party) (id : String), m.parties[i]? = some p → m.parties[j]? = some p' →
    p.holds = some id → p'.holds = some id → i = j

section Exclusive

variable {m m' : Model} {a : Act} {i : ℕ} {p q : Party} {rows : List RefreshTokenRecord}
  {id : String}

/-- A party that holds a token is exchanging it, or the token is revoked. -/
theorem Party.holds_cases (h : p.holds = some id) (hq : p.stage.Holds rows) :
    p.exchanging id = true ∨ Revoked rows id := by
  cases hs : p.stage with
  | rotating r =>
    simp only [holds, hs] at h
    split_ifs at h with hr
    cases h
    exact .inl (by simp [exchanging, hs, hr])
  | linking r n =>
    simp only [holds, hs] at h
    split_ifs at h with hr
    cases h
    exact .inl (by simp [exchanging, hs, hr])
  | rotated r n =>
    simp only [holds, hs] at h
    cases h
    exact .inr (hq.spent r (by simp [hs, Stage.spent]))
  | _ => simp [holds, hs] at h

/-- A party that comes to hold no more than it held, or a token that no other party holds. -/
theorem Exclusive.put (he : Exclusive m) (hp : m.parties[i]? = some p)
    (hq : ∀ id, q.holds = some id → p.holds = some id ∨
      ∀ p' ∈ m.parties, p'.holds ≠ some id) : Exclusive (m.put rows i q) := by
  intro j k p₁ p₂ id h₁ h₂ hid₁ hid₂
  rw [Model.put_getElem? hp] at h₁ h₂
  by_cases hj : i = j <;> by_cases hk : i = k
  · exact hj.symm.trans hk
  · rw [if_pos hj] at h₁
    rw [if_neg hk] at h₂
    cases h₁
    rcases hq id hid₁ with hsame | hnone
    · exact hj.symm.trans (he i k p p₂ id hp h₂ hsame hid₂)
    · exact absurd hid₂ (hnone p₂ (List.mem_of_getElem? h₂))
  · rw [if_neg hj] at h₁
    rw [if_pos hk] at h₂
    cases h₂
    rcases hq id hid₂ with hsame | hnone
    · exact (he j i p₁ p id h₁ hp hid₁ hsame).trans hk
    · exact absurd hid₁ (hnone p₁ (List.mem_of_getElem? h₁))
  · rw [if_neg hj] at h₁
    rw [if_neg hk] at h₂
    exact he j k p₁ p₂ id h₁ h₂ hid₁ hid₂

theorem Party.holds_stay {b : Bool} (hr : p.running = true) (h : (p.to p.stage b).holds = some id) :
    p.holds = some id := by
  cases hs : p.stage <;> simp_all [holds]

theorem holds_of_initial {b : Bool} {q : Stage} (hq : q.initial) :
    (⟨q, q, b⟩ : Party).holds = none := by
  cases q <;> first | rfl | exact hq.elim

theorem Exclusive.join (he : Exclusive m) (hq : q.holds = none) :
    Exclusive ⟨m.rows, m.parties ++ [q]⟩ := by
  intro j k p₁ p₂ id h₁ h₂ hid₁ hid₂
  have hold : ∀ {j : ℕ} {p' : Party}, (m.parties ++ [q])[j]? = some p' → p'.holds = some id →
      m.parties[j]? = some p' := by
    intro j p' h hid
    rw [List.getElem?_append] at h
    split_ifs at h with hj
    · exact h
    · obtain rfl := List.mem_singleton.1 (List.mem_of_getElem? h)
      rw [hq] at hid
      cases hid
  exact he j k p₁ p₂ id (hold h₁ hid₁) (hold h₂ hid₂) hid₁ hid₂

/-- A call of the store gives the caller a token it already held, or one that nobody holds. -/
theorem holds_of_move {o : RefreshTokenOp} {st : Stage} {b : Bool} (hc : Consistent m)
    (ha : Alone m (.call i o)) (hp : m.parties[i]? = some p) (hr : p.running = true)
    (hm : Move m.rows p.stage o rows st) (hid : (p.to st b).holds = some id) :
    p.holds = some id ∨ ∀ p' ∈ m.parties, p'.holds ≠ some id := by
  generalize hs : p.stage = q₀ at hm
  cases hm with
  | signIn hn => simp [Party.holds] at hid
  | present h =>
    refine .inr fun p' hp' hid' => ?_
    cases hf : findByTokenHash h m.rows with
    | none => simp [Party.holds, Stage.presented, hf] at hid
    | some r =>
      by_cases hv : r.revokedAt.isSome = true
      · simp [Party.holds, Stage.presented, hf, hv] at hid
      · -- the token read is live: nobody has exchanged it, and nobody is about to
        have hlive : r.revokedAt = none := by simpa using hv
        obtain rfl : r.id = id := by
          simp only [Party.holds, Party.to_stage, Stage.presented, hf, if_neg hv] at hid
          split_ifs at hid
          exact Option.some.inj hid
        rcases Party.holds_cases hid' (hc.holds p' hp') with hex | hrev
        · rw [ha p hp hs r hf hlive p' hp'] at hex
          cases hex
        · exact hc.distinct.not_revoked (findByTokenHash_some hf).1 hlive hrev
  | succeed had hn =>
    refine .inl ?_
    simp only [Party.holds, Party.to_stage] at hid
    split_ifs at hid
    simpa [Party.holds, hs, hr] using hid
  | link r n now => exact .inl (by simpa [Party.holds, hs, hr] using hid)
  | burn r now => simp [Party.holds] at hid
  | leave h =>
    simp only [Party.holds, Party.to_stage] at hid
    cases hf : findByTokenHash h m.rows <;> simp only [Stage.found, hf] at hid
    · cases hid
    · split_ifs at hid
  | revoke r now => simp [Party.holds] at hid

/-- **Rotations that do not overlap keep tokens exclusive.** -/
theorem Exclusive.step (hc : Consistent m) (he : Exclusive m) (ha : Alone m a)
    (h : Step m a m') : Exclusive m' := by
  cases h with
  | join q b hq => exact he.join (holds_of_initial hq)
  | pass b hp hr hl => exact he.put hp fun id hid => .inl (Party.holds_stay hr hid)
  | stop hp hr => exact he.put hp fun id hid => .inl (Party.holds_stay hr hid)
  | reject hp hr hl => exact he.put hp fun id hid => .inl (Party.holds_stay hr hid)
  | call hp hr hm hb => exact he.put hp fun id hid => holds_of_move hc ha hp hr hm hid

theorem exclusive_of_run {m₀ : Model} (hc : Consistent m₀) (he : Exclusive m₀)
    (h : lts.Run Alone m₀ m) : Exclusive m :=
  (h.invariant (I := fun m => Consistent m ∧ Exclusive m) ⟨hc, he⟩ fun _ _ _ _ ih ha hst =>
    ⟨ih.1.step hst, ih.2.step ih.1 ha hst⟩).2

end Exclusive

variable {cfg : Config} {core : Core}

/-- Of the requests that present one token, at most one is given new tokens, and every other one
that ends, ends in an error. -/
def SingleUse (s : State cfg core) : Prop :=
  ∀ (refreshToken : String) (i j : ℕ) (t : Task (server cfg core)),
    Accepted s i refreshToken → s.tasks[j]? = some t → t.call = .refresh refreshToken → j ≠ i →
      t.running = false → ∃ e, t.prog = .raise e

/-- **Single use.**  In every run in which a refresh looks up a live token only while no other
rotation of that token is between its look-up and its revocation, each token is exchanged at most
once. -/
theorem singleUse_of_run {w₀ : World core} {s : State cfg core}
    (hw : Distinct w₀.refreshTokens) (h : Run (Under Alone) (Sys.init w₀) s) : SingleUse s := by
  intro refreshToken i j t hi ht hcall hne hended
  have ho := obeyed_of_run h
  have hc := consistent_of_run hw h
  have he := exclusive_of_run (consistent_init hw) (by intro i j p p' id hp; cases hp) (run_init h)
  cases hp : t.prog with
  | raise e => exact ⟨e, rfl⟩
  | call o k => simp [Task.running, hp, Prog.running] at hended
  | pure reply =>
    exfalso
    obtain ⟨p, r, n, hpi, hs, hh⟩ := hi.stage ho hc
    obtain ⟨p', r', n', hpj, hs', hh'⟩ :=
      Accepted.stage (i := j) ⟨t, ht, hcall, reply, hp⟩ ho hc
    obtain ⟨r₁, hr₁, hsame₁⟩ := (hc.holds p (List.mem_of_getElem? hpi)).subject r (by rw [hs]; rfl)
    obtain ⟨r₂, hr₂, hsame₂⟩ := (hc.holds p' (List.mem_of_getElem? hpj)).subject r'
      (by rw [hs']; rfl)
    have heq : r₁ = r₂ := hc.distinct.eq_of_tokenHash hr₁ hr₂ (by
      rw [hsame₁.tokenHash, hsame₂.tokenHash, hh, hh'])
    have hid : r'.id = r.id := by rw [← hsame₁.id, ← hsame₂.id, heq]
    refine hne (he j i p' p r.id hpj hpi ?_ ?_)
    · simp [Party.holds, hs', hid]
    · simp [Party.holds, hs]

/-- Two refreshes with one token, the second after the first. -/
def sequentialRefreshes : List (Label (server Config.sample Core.sample)) :=
  sampleSignIn ++ [.start (.refresh (sampleToken 12)), .start (.refresh (sampleToken 12))] ++
    List.replicate 9 (.step 1) ++ List.replicate 3 (.step 2)

theorem singleUse_of_run_sequential : ∃ s : State Config.sample Core.sample,
    Run (Under Alone) (Sys.init .sample) s ∧ Accepted s 1 (sampleToken 12) ∧ SingleUse s := by
  have h : ∃ s : State Config.sample Core.sample, Run (Under Alone) (Sys.init .sample) s ∧
      decide (Accepted s 1 (sampleToken 12)) = true :=
    exists_run_of_replay sequentialRefreshes _ (by decide)
  obtain ⟨s, hr, hp⟩ := h
  exact ⟨s, hr, of_decide_eq_true hp, singleUse_of_run distinct_nil hr⟩

/-- Two refreshes look the token up before either revokes it. -/
def overlappingRefreshes : List (Label (server Config.sample Core.sample)) :=
  sampleSignIn ++ [.start (.refresh (sampleToken 12)), .start (.refresh (sampleToken 12)),
    .step 1, .step 2] ++ List.replicate 8 (.step 1) ++ List.replicate 8 (.step 2)

/-- **Overlapping refreshes exchange one token twice.** -/
theorem singleUse_fails : ∃ s : State Config.sample Core.sample,
    Run (Under Free) (Sys.init .sample) s ∧ ¬ SingleUse s := by
  have h : ∃ s : State Config.sample Core.sample, Run (Under Free) (Sys.init .sample) s ∧
      decide (Accepted s 1 (sampleToken 12) ∧ Accepted s 2 (sampleToken 12)) = true :=
    exists_run_of_replay overlappingRefreshes _ (by decide)
  obtain ⟨s, hr, hp⟩ := h
  obtain ⟨h₁, t, ht, hcall, reply, hp⟩ := of_decide_eq_true hp
  refine ⟨s, hr, fun hs => ?_⟩
  obtain ⟨e, he⟩ := hs _ 1 2 t h₁ ht hcall (by decide) (by simp [Task.running, hp, Prog.running])
  rw [hp] at he
  cases he

end Sessions

end HelixServer
