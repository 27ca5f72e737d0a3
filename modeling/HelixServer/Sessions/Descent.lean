import HelixServer.Sessions.Model

/-!
# Descent of tokens

A rotation makes a token a child of the one it was obtained with, from the moment the child's row
is written, whether or not the rotation ends.  Children belong to the account of their parent, and
every token descends from one that a sign-in has written.

## Main definitions

* `Rotates m x y` : some party has looked up the token `x` and created the token `y`.
* `Descends m x y` : `y` is obtained from `x` by any number of rotations.
-/

namespace HelixServer

namespace Sessions

open RefreshTokens Async

/-- The token a request has looked up and the one it has created from it. -/
def Stage.rotation : Stage → Option (RefreshTokenRecord × RefreshTokenRecord)
  | .linking r n | .rotated r n => some (r, n)
  | _ => none

/-- Some party has obtained the token `y` with the token `x`. -/
def Rotates (m : Model) (x y : String) : Prop :=
  ∃ p ∈ m.parties, ∃ r n, p.stage.rotation = some (r, n) ∧ r.id = x ∧ n.id = y

theorem rotates_iff {m : Model} {x y : String} :
    (m.parties.any fun p => p.stage.rotation.any fun rn => rn.1.id == x && rn.2.id == y) = true ↔
      Rotates m x y := by
  simp only [List.any_eq_true, Option.any_eq_true, Bool.and_eq_true, beq_iff_eq, Prod.exists]
  rfl

instance (m : Model) (x y : String) : Decidable (Rotates m x y) := decidable_of_iff _ rotates_iff

/-- `y` is obtained from `x` by any number of rotations. -/
def Descends (m : Model) : String → String → Prop := Relation.ReflTransGen (Rotates m)

variable {m m' : Model} {a : Act} {i : ℕ} {p p' : Party} {rows rows' : List RefreshTokenRecord}
  {q q' : Stage} {o : RefreshTokenOp}

/-! ### How a step changes a party -/

/-- What one step has done to a party: nothing but perhaps end it, or one call of the store. -/
def Moved (m : Model) (a : Act) (m' : Model) (i : ℕ) (p p' : Party) : Prop :=
  (p'.stage = p.stage ∧ (p'.running = true → p.running = true)) ∨
    (p.running = true ∧ ∃ o, a = .call i o ∧ Move m.rows p.stage o m'.rows p'.stage)

theorem moved_put {st : Stage} {b : Bool} {j : ℕ} (hp : m.parties[i]? = some p)
    (hm : Moved m a (m.put rows i (p.to st b)) i p (p.to st b))
    (hj : (m.put rows i (p.to st b)).parties[j]? = some p') :
    ∃ p₀, m.parties[j]? = some p₀ ∧ Moved m a (m.put rows i (p.to st b)) j p₀ p' := by
  rw [Model.put_getElem? hp] at hj
  by_cases hij : i = j
  · subst hij
    rw [if_pos rfl] at hj
    cases hj
    exact ⟨p, hp, hm⟩
  · rw [if_neg hij] at hj
    exact ⟨p', hj, .inl ⟨rfl, id⟩⟩

/-- A party after a step has just arrived, or was there before it. -/
theorem Step.party (h : Step m a m') {j : ℕ} (hj : m'.parties[j]? = some p') :
    (j = m.parties.length ∧ p'.stage.initial) ∨
      ∃ p, m.parties[j]? = some p ∧ Moved m a m' j p p' := by
  cases h with
  | join q b hq =>
    rw [List.getElem?_append] at hj
    split_ifs at hj with hlt
    · exact .inr ⟨p', hj, .inl ⟨rfl, id⟩⟩
    · obtain rfl := List.mem_singleton.1 (List.mem_of_getElem? hj)
      have hlen := (List.getElem?_eq_some_iff.1 hj).1
      simp only [List.length_singleton] at hlen
      exact .inl ⟨by omega, hq⟩
  | pass b hp hr hl => exact .inr (moved_put hp (.inl ⟨rfl, fun _ => hr⟩) hj)
  | stop hp hr => exact .inr (moved_put hp (.inl ⟨rfl, fun _ => hr⟩) hj)
  | reject hp hr hl => exact .inr (moved_put hp (.inl ⟨rfl, fun _ => hr⟩) hj)
  | call hp hr hm hb => exact .inr (moved_put hp (.inr ⟨hr, _, rfl, hm⟩) hj)

theorem Step.store (h : Step m a m') : m'.rows = m.rows ∨
    ∃ i p p' o, m.parties[i]? = some p ∧ m'.parties[i]? = some p' ∧ p.running = true ∧
      a = .call i o ∧ Move m.rows p.stage o m'.rows p'.stage := by
  cases h with
  | call hp hr hm hb =>
    exact .inr ⟨_, _, _, _, hp, (Model.put_getElem? hp).trans (if_pos rfl), hr, rfl, hm⟩
  | _ => exact .inl rfl

theorem Step.getElem? (h : Step m a m') (hp : m.parties[i]? = some p) :
    ∃ p', m'.parties[i]? = some p' ∧ Moved m a m' i p p' := by
  have hi : i < m'.parties.length := by
    have := (List.getElem?_eq_some_iff.1 hp).1
    cases h <;> simp [Model.put] <;> omega
  rcases h.party (List.getElem?_eq_getElem hi) with ⟨hlen, -⟩ | ⟨p₀, hp₀, hm⟩
  · exact absurd (List.getElem?_eq_some_iff.1 hp).1 (by omega)
  · obtain rfl : p = p₀ := Option.some.inj (hp.symm.trans hp₀)
    exact ⟨_, List.getElem?_eq_getElem hi, hm⟩

/-! ### Rotations over time -/

theorem Stage.rotation_of_initial (h : q.initial) : q.rotation = none := by
  cases q <;> first | rfl | exact h.elim

/-- What a call does to a rotation: begins it, or leaves it alone. -/
theorem Move.rotation (h : Move rows q o rows' q') :
    (q.rotation = none ∧ ∃ r n d, q = .rotating r ∧ q' = .linking r n ∧ IsNew d n rows ∧
      n.accountId = r.accountId ∧ rows' = rows ++ [n]) ∨ q'.rotation = q.rotation := by
  cases h with
  | succeed ha hn => exact .inl ⟨rfl, _, _, _, rfl, rfl, hn, hn.accountId.trans ha, rfl⟩
  | present h =>
    rcases Stage.presented_cases h (findByTokenHash h rows) with hs | ⟨r, -, -, hs⟩ | ⟨r, -, -, hs⟩
    all_goals rw [hs]; exact .inr rfl
  | leave h =>
    rcases Stage.found_cases h (findByTokenHash h rows) with hs | ⟨r, -, -, hs⟩ | ⟨r, -, -, hs⟩
    all_goals rw [hs]; exact .inr rfl
  | _ => exact .inr rfl

theorem Moved.rotation {r n : RefreshTokenRecord} (h : Moved m a m' i p p')
    (hr : p.stage.rotation = some (r, n)) : p'.stage.rotation = some (r, n) := by
  rcases h with ⟨hs, -⟩ | ⟨-, o, -, hm⟩
  · rw [hs]; exact hr
  · rcases hm.rotation with ⟨hnone, -⟩ | hs
    · rw [hr] at hnone; cases hnone
    · rw [hs]; exact hr

theorem Rotates.step {x y : String} (h : Rotates m x y) (hst : Step m a m') : Rotates m' x y := by
  obtain ⟨p, hp, r, n, hr, hx, hy⟩ := h
  obtain ⟨i, hi, hp⟩ := List.mem_iff_getElem.1 hp
  obtain ⟨p', hp', hm⟩ := hst.getElem? (List.getElem?_eq_some_iff.2 ⟨hi, hp⟩)
  exact ⟨p', List.mem_of_getElem? hp', r, n, hm.rotation hr, hx, hy⟩

theorem Descends.step {x y : String} (h : Descends m x y) (hst : Step m a m') : Descends m' x y :=
  Relation.ReflTransGen.mono (fun _ _ hr => Rotates.step hr hst) _ _ h

/-- A set of tokens that contains the children of its tokens contains all their descendants. -/
theorem Descends.closed {A : String → Prop} {x y : String} (h : Descends m x y)
    (hA : ∀ x y, Rotates m x y → A x → A y) (hx : A x) : A y := by
  induction h with
  | refl => exact hx
  | tail _ hr ih => exact hA _ _ hr ih

/-! ### Every token descends from a sign-in -/

/-- Every row descends from the token of a sign-in for the same account. -/
def Rooted (m : Model) : Prop :=
  ∀ r ∈ m.rows, ∃ p ∈ m.parties, ∃ n, p.stage = .opened n ∧ n.accountId = r.accountId ∧
    Descends m n.id r.id

theorem Moved.opened {n : RefreshTokenRecord} (h : Moved m a m' i p p')
    (hs : p.stage = .opened n) : p'.stage = .opened n := by
  rcases h with ⟨hs', -⟩ | ⟨-, o, -, hm⟩
  · rw [hs', hs]
  · rw [hs] at hm; cases hm

theorem Rooted.keep (hr : Rooted m) (hst : Step m a m') {r r' : RefreshTokenRecord}
    (hmem : r ∈ m.rows) (hs : SameToken r r') :
    ∃ p ∈ m'.parties, ∃ n, p.stage = .opened n ∧ n.accountId = r'.accountId ∧
      Descends m' n.id r'.id := by
  obtain ⟨p, hp, n, hopen, hacc, hd⟩ := hr r hmem
  obtain ⟨i, hi, hp⟩ := List.mem_iff_getElem.1 hp
  obtain ⟨p', hp', hm⟩ := hst.getElem? (List.getElem?_eq_some_iff.2 ⟨hi, hp⟩)
  refine ⟨p', List.mem_of_getElem? hp', n, hm.opened hopen, hacc.trans hs.accountId.symm, ?_⟩
  rw [hs.id]
  exact hd.step hst

theorem mem_map_of_keeps {f : RefreshTokenRecord → RefreshTokenRecord} (hf : Keeps f)
    {r' : RefreshTokenRecord} (h : r' ∈ rows.map f) : ∃ r ∈ rows, SameToken r r' := by
  obtain ⟨r, hr, rfl⟩ := List.mem_map.1 h
  exact ⟨r, hr, hf.id r, hf.tokenHash r, hf.accountId r⟩

/-- A row after a call was there before it, or has just been created. -/
theorem Move.mem {r' : RefreshTokenRecord} (h : Move rows q o rows' q') (hr : r' ∈ rows') :
    (∃ r ∈ rows, SameToken r r') ∨
      (q = .opening ∧ q' = .opened r' ∧ ∃ d, o = .create d ∧ d.accountId = r'.accountId) ∨
      ∃ r, q = .rotating r ∧ q' = .linking r r' ∧ r'.accountId = r.accountId := by
  cases h with
  | signIn hn =>
    rcases List.mem_append.1 hr with hr | hr
    · exact .inl ⟨r', hr, .refl r'⟩
    · obtain rfl := List.mem_singleton.1 hr
      exact .inr (.inl ⟨rfl, rfl, _, rfl, hn.accountId.symm⟩)
  | succeed ha hn =>
    rcases List.mem_append.1 hr with hr | hr
    · exact .inl ⟨r', hr, .refl r'⟩
    · obtain rfl := List.mem_singleton.1 hr
      exact .inr (.inr ⟨_, rfl, rfl, hn.accountId.trans ha⟩)
  | present h | leave h => exact .inl ⟨r', hr, .refl r'⟩
  | link r n now => exact .inl (mem_map_of_keeps keeps_revokeRow hr)
  | burn r now => exact .inl (mem_map_of_keeps keeps_burnRow hr)
  | revoke r now => exact .inl (mem_map_of_keeps keeps_revokeRow hr)

theorem Rooted.step (hr : Rooted m) (hc : Consistent m) (hst : Step m a m') : Rooted m' := by
  intro r' hr'
  rcases hst.store with hrows | ⟨i, p, p', o, hp, hp', hrun, -, hm⟩
  · rw [hrows] at hr'
    exact hr.keep hst hr' (.refl r')
  · have hmem' := List.mem_of_getElem? hp'
    rcases hm.mem hr' with ⟨r, hmem, hs⟩ | ⟨-, hopen, -⟩ | ⟨r, hq, hq', hacc⟩
    · exact hr.keep hst hmem hs
    · exact ⟨p', hmem', r', hopen, rfl, .refl⟩
    · -- the successor descends from the root of the old token
      obtain ⟨r₀, hr₀, hs₀⟩ := (hc.holds p (List.mem_of_getElem? hp)).subject r (by rw [hq]; rfl)
      obtain ⟨p₁, hp₁, n₁, hopen, hacc₁, hd⟩ := hr.keep hst hr₀ (.refl r₀)
      refine ⟨p₁, hp₁, n₁, hopen, ?_, hd.tail ?_⟩
      · rw [hacc₁, hs₀.accountId, hacc]
      · exact ⟨p', hmem', r, r', by rw [hq']; rfl, hs₀.id.symm, rfl⟩

theorem rooted_of_run {C : Model → Act → Prop} {m₀ : Model} (hc : Consistent m₀)
    (hr : Rooted m₀) (h : lts.Run C m₀ m) : Rooted m :=
  (h.invariant (I := fun m => Consistent m ∧ Rooted m) ⟨hc, hr⟩ fun _ _ _ _ ih _ hst =>
    ⟨ih.1.step hst, ih.2.step ih.1 hst⟩).2

/-- The two tokens of a rotation belong to one account. -/
def Familial (m : Model) : Prop :=
  ∀ p ∈ m.parties, ∀ r n, p.stage.rotation = some (r, n) → n.accountId = r.accountId

theorem Familial.step (hf : Familial m) (hst : Step m a m') : Familial m' := by
  intro p' hp' r n hr
  obtain ⟨i, hi, hp'⟩ := List.mem_iff_getElem.1 hp'
  rcases hst.party (List.getElem?_eq_some_iff.2 ⟨hi, hp'⟩) with
    ⟨-, hq⟩ | ⟨p, hp, ⟨hs, -⟩ | ⟨-, o, -, hm⟩⟩
  · rw [Stage.rotation_of_initial hq] at hr
    cases hr
  · exact hf p (List.mem_of_getElem? hp) r n (by rw [← hs]; exact hr)
  · rcases hm.rotation with ⟨-, r', n', d, -, hq', -, hacc, -⟩ | hsame
    · rw [hq'] at hr
      cases hr
      exact hacc
    · exact hf p (List.mem_of_getElem? hp) r n (by rw [← hsame]; exact hr)

theorem familial_of_run {C : Model → Act → Prop} {m₀ : Model} (hf : Familial m₀)
    (h : lts.Run C m₀ m) : Familial m :=
  h.invariant hf fun _ _ _ _ ih _ hst => ih.step hst

/-! ### Tokens that are retired for good -/

theorem Move.rotating {r : RefreshTokenRecord} (h : Move rows q o rows' (.rotating r)) :
    q = .presenting r.tokenHash ∧ o = .findByTokenHash r.tokenHash ∧
      findByTokenHash r.tokenHash rows = some r ∧ r.revokedAt = none := by
  generalize hq' : Stage.rotating r = q' at h
  cases h with
  | present h =>
    rcases Stage.presented_cases h (findByTokenHash h rows) with
      hs | ⟨r', hf, hv, hs⟩ | ⟨r', hf, hv, hs⟩
    all_goals rw [hs] at hq'; cases hq'
    obtain ⟨hmem, rfl⟩ := findByTokenHash_some hf
    exact ⟨rfl, rfl, hf, hv⟩
  | leave h =>
    rcases Stage.found_cases h (findByTokenHash h rows) with hs | ⟨r', -, -, hs⟩ | ⟨r', -, -, hs⟩
    all_goals rw [hs] at hq'; cases hq'
  | _ => cases hq'

/-- The tokens in `A` are revoked, nobody is about to rotate one, their descendants are among them,
and no party from the `k`-th on has rotated one. -/
structure Retired (A : String → Prop) (k : ℕ) (m : Model) : Prop where
  revoked : ∀ x, A x → Revoked m.rows x
  idle : ∀ p ∈ m.parties, p.running = true → ∀ r, p.stage = .rotating r → ¬ A r.id
  closed : ∀ x y, Rotates m x y → A x → A y
  late : ∀ (j : ℕ) (p : Party), k ≤ j → m.parties[j]? = some p →
    ∀ r n, p.stage.rotation = some (r, n) → ¬ A r.id

variable {A : String → Prop} {k : ℕ}

/-- A rotation after a step was there before it, or does not begin with a retired token. -/
theorem Retired.rotation (hA : Retired A k m) (hst : Step m a m') {j : ℕ}
    (hj : m'.parties[j]? = some p') {r n : RefreshTokenRecord}
    (hr : p'.stage.rotation = some (r, n)) :
    ¬ A r.id ∨ ∃ p, m.parties[j]? = some p ∧ p.stage.rotation = some (r, n) := by
  rcases hst.party hj with ⟨-, hq⟩ | ⟨p, hp, ⟨hs, -⟩ | ⟨hrun, o, -, hm⟩⟩
  · rw [Stage.rotation_of_initial hq] at hr
    cases hr
  · exact .inr ⟨p, hp, by rw [← hs]; exact hr⟩
  · rcases hm.rotation with ⟨-, r', n', d, hq, hq', -, -, -⟩ | hsame
    · rw [hq'] at hr
      cases hr
      exact .inl (hA.idle p (List.mem_of_getElem? hp) hrun _ hq)
    · exact .inr ⟨p, hp, by rw [← hsame]; exact hr⟩

/-- **Retired tokens stay retired.** -/
theorem Retired.step (hA : Retired A k m) (hc : Consistent m) (hst : Step m a m') :
    Retired A k m' where
  revoked := fun x hx => (hA.revoked x hx).mono hst.evolves
  idle := by
    intro p' hp' hrun r hs hx
    obtain ⟨j, hj, hp'⟩ := List.mem_iff_getElem.1 hp'
    rcases hst.party (List.getElem?_eq_some_iff.2 ⟨hj, hp'⟩) with
      ⟨-, hq⟩ | ⟨p, hp, ⟨hs', hrun'⟩ | ⟨-, o, -, hm⟩⟩
    · rw [hs] at hq
      exact hq.elim
    · exact hA.idle p (List.mem_of_getElem? hp) (hrun' hrun) r (hs'.symm.trans hs) hx
    · rw [hs] at hm
      obtain ⟨-, -, hf, hlive⟩ := hm.rotating
      exact hc.distinct.not_revoked (findByTokenHash_some hf).1 hlive (hA.revoked _ hx)
  closed := by
    rintro x y ⟨p', hp', r, n, hr, rfl, rfl⟩ hx
    obtain ⟨j, hj, hp'⟩ := List.mem_iff_getElem.1 hp'
    rcases hA.rotation hst (List.getElem?_eq_some_iff.2 ⟨hj, hp'⟩) hr with hno | ⟨p, hp, hr'⟩
    · exact absurd hx hno
    · exact hA.closed _ _ ⟨p, List.mem_of_getElem? hp, r, n, hr', rfl, rfl⟩ hx
  late := by
    intro j p' hk hj r n hr
    rcases hA.rotation hst hj hr with hno | ⟨p, hp, hr'⟩
    · exact hno
    · exact hA.late j p hk hp r n hr'

theorem retired_of_run {C : Model → Act → Prop} {m₀ : Model} (hc : Consistent m₀)
    (hA : Retired A k m₀) (h : lts.Run C m₀ m) : Retired A k m :=
  (h.invariant (I := fun m => Consistent m ∧ Retired A k m) ⟨hc, hA⟩ fun _ _ _ _ ih _ hst =>
    ⟨ih.1.step hst, ih.2.step ih.1 hst⟩).2

end Sessions

end HelixServer
