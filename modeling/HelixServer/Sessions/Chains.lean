import HelixServer.Order.Chains
import HelixServer.Sessions.Refinement

/-!
# Rotation chains

When requests are executed one after another and no call is rejected from outside the model, the
links `replacedByTokenId` arrange the tokens in disjoint chains, one for each sign-in, and only the
last token of a chain can be live (`chains_of_run`).

The proof: the only running request is the one that can change a row it has read, so the token it
has found live stays live until it revokes it (`Orderly.pending`).  A revocation therefore never
meets a row that is revoked or linked already, and the links are exactly the rotations that have
been completed (`Orderly.links`).  Each token is created by one request, which makes the links
injective and the tokens of sign-ins the sources of the chains.

## Main definitions

* `Serial` : requests one after another, without rejected calls.
* `Succeeds rows x y` : the row of token `x` is linked to token `y`.
* `ChainsFormed` : the shape of the store between requests.
-/

namespace HelixServer

namespace Sessions

open RefreshTokens Async Relation Chains

/-- A request starts when no other is running, and no call is rejected from outside the model. -/
def Serial (m : Model) : Act → Prop
  | .join _ => ∀ p ∈ m.parties, p.running = false
  | .stop _ => False
  | _ => True

instance (m : Model) (a : Act) : Decidable (Serial m a) :=
  match a with
  | .join _ => inferInstanceAs (Decidable (∀ p ∈ m.parties, p.running = false))
  | .stop _ => .isFalse id
  | .pass _ => .isTrue trivial
  | .call _ _ => .isTrue trivial

/-- The token a request has found live and not yet revoked. -/
def Stage.pending : Stage → Option RefreshTokenRecord
  | .rotating r | .linking r _ | .revoking r => some r
  | _ => none

/-- Some request has revoked the token `x` with a link to the token `y`. -/
def Exchanged (m : Model) (x y : String) : Prop :=
  ∃ p ∈ m.parties, ∃ r n, p.stage = .rotated r n ∧ r.id = x ∧ n.id = y

/-- The rows with this id are not revoked. -/
def Unrevoked (rows : List RefreshTokenRecord) (id : String) : Prop :=
  ∀ r ∈ rows, r.id = id → r.revokedAt = none

/-- What holds after every step of a serial run. -/
structure Orderly (m : Model) : Prop where
  alone : ∀ (i j : ℕ) (p p' : Party), m.parties[i]? = some p → m.parties[j]? = some p' →
    p.running = true →
    p'.running = true → i = j
  pending : ∀ (i : ℕ) (p : Party), m.parties[i]? = some p → p.running = true →
    ∀ r, p.stage.pending = some r → Unrevoked m.rows r.id
  linking : ∀ p ∈ m.parties, ∀ r n, p.stage = .linking r n → p.running = true
  unlinked : ∀ r ∈ m.rows, r.revokedAt = none → r.replacedByTokenId = none
  links : ∀ r ∈ m.rows, ∀ y, r.replacedByTokenId = some y ↔ Exchanged m r.id y
  makers : ∀ (i j : ℕ) (p p' : Party) (n n' : RefreshTokenRecord), m.parties[i]? = some p →
    m.parties[j]? = some p' → p.stage.made = some n → p'.stage.made = some n' → n.id = n'.id → i = j

variable {m m' : Model} {i : ℕ} {p : Party} {rows rows' : List RefreshTokenRecord} {q q' : Stage}
  {o : RefreshTokenOp} {a : Act} {b : Bool} {x y : String}

/-! ### What one call does -/

/-- A call begins with a stage that has not completed an exchange. -/
theorem Move.source_ne_rotated (h : Move rows q o rows' q') (r n : RefreshTokenRecord) :
    q ≠ .rotated r n := by
  rintro rfl; cases h

theorem Move.made (h : Move rows q o rows' q') :
    q'.made = q.made ∨ ∃ n d, q'.made = some n ∧ IsNew d n rows := by
  cases h with
  | signIn hn => exact .inr ⟨_, _, rfl, hn⟩
  | succeed ha hn => exact .inr ⟨_, _, rfl, hn⟩
  | present h =>
    rcases Stage.presented_cases h (findByTokenHash h rows) with hs | ⟨r, -, -, hs⟩ | ⟨r, -, -, hs⟩
    all_goals rw [hs]; exact .inl rfl
  | leave h =>
    rcases Stage.found_cases h (findByTokenHash h rows) with hs | ⟨r, -, -, hs⟩ | ⟨r, -, -, hs⟩
    all_goals rw [hs]; exact .inl rfl
  | _ => exact .inl rfl

theorem unrevoked_of_found (hd : Distinct rows) {h : String} {r : RefreshTokenRecord}
    (hf : findByTokenHash h rows = some r) (hv : r.revokedAt = none) : Unrevoked rows r.id := by
  intro r' hr' hid
  rw [hd.eq_of_id hr' (findByTokenHash_some hf).1 hid]
  exact hv

theorem Move.pending (h : Move rows q o rows' q') (hd : Distinct rows)
    (hq : ∀ r, q.pending = some r → Unrevoked rows r.id) {r : RefreshTokenRecord}
    (hr : q'.pending = some r) : Unrevoked rows' r.id := by
  cases h with
  | present h =>
    rcases Stage.presented_cases h (findByTokenHash h rows) with hs | ⟨r', -, -, hs⟩ |
      ⟨r', hf, hv, hs⟩
    all_goals rw [hs] at hr; cases hr
    exact unrevoked_of_found hd hf hv
  | leave h =>
    rcases Stage.found_cases h (findByTokenHash h rows) with hs | ⟨r', -, -, hs⟩ | ⟨r', hf, hv, hs⟩
    all_goals rw [hs] at hr; cases hr
    exact unrevoked_of_found hd hf hv
  | succeed ha hn =>
    cases hr
    intro r' hr' hid
    rcases List.mem_append.1 hr' with hr' | hr'
    · exact hq _ rfl r' hr' hid
    · obtain rfl := List.mem_singleton.1 hr'
      exact hn.revokedAt
  | _ => cases hr

/-- A row that was revoked before a call is as it was: the calls revoke live rows only. -/
theorem Move.frozen (h : Move rows q o rows' q')
    (hq : ∀ r, q.pending = some r → Unrevoked rows r.id) {r : RefreshTokenRecord} (hr : r ∈ rows)
    (hv : r.revokedAt ≠ none) : r ∈ rows' := by
  have hrevoke : ∀ {r₀ : RefreshTokenRecord} {link : Option String} {now : ℕ},
      Unrevoked rows r₀.id → r ∈ RefreshTokens.revoke r₀.id link now rows := fun hu =>
    List.mem_map.2 ⟨r, hr, revokeRow_of_ne fun hid => hv (hu r hr hid)⟩
  cases h with
  | signIn hn => exact List.mem_append_left _ hr
  | succeed ha hn => exact List.mem_append_left _ hr
  | present h => exact hr
  | leave h => exact hr
  | link r₀ n now => exact hrevoke (hq r₀ rfl)
  | revoke r₀ now => exact hrevoke (hq r₀ rfl)
  | burn r₀ now => exact List.mem_map.2 ⟨r, hr, by simp [burnRow, hv]⟩

theorem Move.unlinked (h : Move rows q o rows' q')
    (hl : ∀ r ∈ rows, r.revokedAt = none → r.replacedByTokenId = none) :
    ∀ r ∈ rows', r.revokedAt = none → r.replacedByTokenId = none := by
  have happend : ∀ {d n}, IsNew d n rows → ∀ r ∈ rows ++ [n], r.revokedAt = none →
      r.replacedByTokenId = none := by
    intro d n hn r hr hv
    rcases List.mem_append.1 hr with hr | hr
    · exact hl r hr hv
    · obtain rfl := List.mem_singleton.1 hr
      exact hn.replacedByTokenId
  have hrevoke : ∀ {id link now}, ∀ r ∈ RefreshTokens.revoke id link now rows,
      r.revokedAt = none → r.replacedByTokenId = none := by
    intro id link now r hr hv
    obtain ⟨r₀, hr₀, rfl⟩ := List.mem_map.1 hr
    unfold revokeRow at hv ⊢
    split_ifs at hv ⊢ with hid
    exact hl r₀ hr₀ hv
  cases h with
  | signIn hn => exact happend hn
  | succeed ha hn => exact happend hn
  | present h | leave h => exact hl
  | link r₀ n now | revoke r₀ now => exact hrevoke
  | burn r₀ now =>
    intro r hr hv
    obtain ⟨r₁, hr₁, rfl⟩ := List.mem_map.1 hr
    unfold burnRow at hv ⊢
    split_ifs at hv ⊢ with hc
    exact hl r₁ hr₁ hv

/-! ### Exchanges -/

theorem exchanged_put (hp : m.parties[i]? = some p)
    (hs : ∀ r n, p.stage = .rotated r n → q = .rotated r n) :
    Exchanged (m.put rows i (p.to q b)) x y ↔
      Exchanged m x y ∨ ∃ r n, q = .rotated r n ∧ r.id = x ∧ n.id = y := by
  have hnew : ∀ r n, q = .rotated r n → r.id = x → n.id = y →
      Exchanged (m.put rows i (p.to q b)) x y := by
    intro r n hq hx hy
    have hput : (m.put rows i (p.to q b)).parties[i]? = some (p.to q b) :=
      (Model.put_getElem? hp).trans (if_pos rfl)
    exact ⟨_, List.mem_of_getElem? hput, r, n, hq, hx, hy⟩
  constructor
  · rintro ⟨p', hp', r, n, hs', hx, hy⟩
    rcases Model.mem_put hp' with hp' | rfl
    · exact .inl ⟨p', hp', r, n, hs', hx, hy⟩
    · exact .inr ⟨r, n, hs', hx, hy⟩
  · rintro (⟨p', hp', r, n, hs', hx, hy⟩ | ⟨r, n, hq, hx, hy⟩)
    · obtain ⟨j, hj, hp'⟩ := List.mem_iff_getElem.1 hp'
      have hj' : m.parties[j]? = some p' := List.getElem?_eq_some_iff.2 ⟨hj, hp'⟩
      by_cases hij : i = j
      · subst hij
        obtain rfl : p = p' := Option.some.inj (hp.symm.trans hj')
        exact hnew r n (hs r n hs') hx hy
      · have hput : (m.put rows i (p.to q b)).parties[j]? = m.parties[j]? :=
          (Model.put_getElem? hp).trans (if_neg hij)
        exact ⟨p', List.mem_of_getElem? (hput.trans hj'), r, n, hs', hx, hy⟩
    · exact hnew r n hq hx hy

theorem Exchanged.known (h : Exchanged m x y) (hc : Consistent m) :
    (∃ r ∈ m.rows, r.id = x) ∧ ∃ r ∈ m.rows, r.id = y := by
  obtain ⟨p, hp, r, n, hs, rfl, rfl⟩ := h
  obtain ⟨r', hr', hsame⟩ := (hc.holds p hp).subject r (by rw [hs]; rfl)
  obtain ⟨n', hn', hsame'⟩ := (hc.holds p hp).made n (by rw [hs]; rfl)
  exact ⟨⟨r', hr', hsame.id⟩, n', hn', hsame'.id⟩

theorem not_exchanged_of_new (hc : Consistent m) {d : RefreshTokenCreateData}
    {n : RefreshTokenRecord} (hn : IsNew d n m.rows) : ¬ Exchanged m n.id y := by
  intro h
  obtain ⟨⟨r, hr, hid⟩, -⟩ := h.known hc
  exact (hn.fresh r hr).1 hid

theorem Orderly.not_exchanged (ho : Orderly m) {r r₀ : RefreshTokenRecord} (hr : r ∈ m.rows)
    (hu : Unrevoked m.rows r₀.id) (hid : r.id = r₀.id) : ¬ Exchanged m r.id y := by
  intro h
  have hlink := (ho.links r hr y).2 h
  rw [ho.unlinked r hr (hu r hr hid)] at hlink
  cases hlink

theorem Orderly.links_move (ho : Orderly m) (hc : Consistent m) (hp : m.parties[i]? = some p)
    (hr : p.running = true) (hm : Move m.rows p.stage o rows q) :
    ∀ r ∈ rows, ∀ y, r.replacedByTokenId = some y ↔
      Exchanged (m.put rows i (p.to q b)) r.id y := by
  have hpend := ho.pending i p hp hr
  intro r hr y
  rw [exchanged_put hp fun r n hs => absurd hs (hm.source_ne_rotated r n)]
  generalize hs : p.stage = q₀ at hm hpend
  have happend : ∀ {d n}, IsNew d n m.rows → r ∈ m.rows ++ [n] →
      (r.replacedByTokenId = some y ↔ Exchanged m r.id y) := by
    intro d n hn hr
    rcases List.mem_append.1 hr with hr | hr
    · exact ho.links r hr y
    · obtain rfl := List.mem_singleton.1 hr
      simp [hn.replacedByTokenId, not_exchanged_of_new hc hn]
  cases hm with
  | signIn hn => simpa using happend hn hr
  | succeed ha hn => simpa using happend hn hr
  | present h =>
    rcases Stage.presented_cases h (findByTokenHash h m.rows) with hs |
      ⟨_, -, -, hs⟩ | ⟨_, -, -, hs⟩
    all_goals simpa [hs] using ho.links r hr y
  | leave h =>
    rcases Stage.found_cases h (findByTokenHash h m.rows) with hs | ⟨_, -, -, hs⟩ | ⟨_, -, -, hs⟩
    all_goals simpa [hs] using ho.links r hr y
  | burn r₀ now =>
    obtain ⟨r₁, hr₁, rfl⟩ := List.mem_map.1 hr
    have hlink : (burnRow r₀.accountId now r₁).replacedByTokenId = r₁.replacedByTokenId := by
      unfold burnRow; split_ifs <;> rfl
    rw [keeps_burnRow.id, hlink]
    simpa using ho.links r₁ hr₁ y
  | revoke r₀ now =>
    obtain ⟨r₁, hr₁, rfl⟩ := List.mem_map.1 hr
    rw [keeps_revokeRow.id]
    by_cases hid : r₁.id = r₀.id
    · -- a live token has no link that the logout could clear
      have hno := ho.not_exchanged (y := y) hr₁ (hpend r₀ rfl) hid
      simp [revokeRow, hid, hid ▸ hno]
    · rw [revokeRow_of_ne hid]
      simpa using ho.links r₁ hr₁ y
  | link r₀ n now =>
    obtain ⟨r₁, hr₁, rfl⟩ := List.mem_map.1 hr
    rw [keeps_revokeRow.id]
    by_cases hid : r₁.id = r₀.id
    · -- a live token has no link that the rotation could replace
      have hno := ho.not_exchanged (y := y) hr₁ (hpend r₀ rfl) hid
      simp [revokeRow, hid, hid ▸ hno]
    · rw [revokeRow_of_ne hid]
      simpa [Ne.symm hid] using ho.links r₁ hr₁ y

/-- A token has one maker after a party has created no token or a new one. -/
theorem Orderly.makers_put (ho : Orderly m) (hc : Consistent m) (hp : m.parties[i]? = some p)
    (hm : q.made = p.stage.made ∨ ∃ n d, q.made = some n ∧ IsNew d n m.rows) (j k : ℕ)
    (p₁ p₂ : Party) (n₁ n₂ : RefreshTokenRecord)
    (h₁ : (m.put rows i (p.to q b)).parties[j]? = some p₁)
    (h₂ : (m.put rows i (p.to q b)).parties[k]? = some p₂) (hn₁ : p₁.stage.made = some n₁)
    (hn₂ : p₂.stage.made = some n₂) (hid : n₁.id = n₂.id) : j = k := by
  rw [Model.put_getElem? hp] at h₁ h₂
  -- a token that was there is not the new one
  have hold : ∀ {l : ℕ} {p' : Party} {n n' : RefreshTokenRecord} {d}, m.parties[l]? = some p' →
      p'.stage.made = some n → IsNew d n' m.rows → n.id ≠ n'.id := by
    intro l p' n n' d hl hn hnew he
    obtain ⟨r, hr, hsame⟩ := (hc.holds p' (List.mem_of_getElem? hl)).made n hn
    exact (hnew.fresh r hr).1 (hsame.id.trans he)
  by_cases hj : i = j <;> by_cases hk : i = k
  · exact hj.symm.trans hk
  · rw [if_pos hj] at h₁
    rw [if_neg hk] at h₂
    cases h₁
    rcases hm with hmade | ⟨n, d, hmade, hnew⟩
    · exact hj.symm.trans (ho.makers i k p p₂ n₁ n₂ hp h₂ (hmade.symm.trans hn₁) hn₂ hid)
    · obtain rfl : n = n₁ := Option.some.inj (hmade.symm.trans hn₁)
      exact absurd hid.symm (hold h₂ hn₂ hnew)
  · rw [if_neg hj] at h₁
    rw [if_pos hk] at h₂
    cases h₂
    rcases hm with hmade | ⟨n, d, hmade, hnew⟩
    · exact (ho.makers j i p₁ p n₁ n₂ h₁ hp hn₁ (hmade.symm.trans hn₂) hid).trans hk
    · obtain rfl : n = n₂ := Option.some.inj (hmade.symm.trans hn₂)
      exact absurd hid (hold h₁ hn₁ hnew)
  · rw [if_neg hj] at h₁
    rw [if_neg hk] at h₂
    exact ho.makers j k p₁ p₂ n₁ n₂ h₁ h₂ hn₁ hn₂ hid

theorem Orderly.eq_of_running (ho : Orderly m) (hp : m.parties[i]? = some p)
    (hr : p.running = true) {j : ℕ} {p' : Party}
    (hj : (m.put rows i (p.to q b)).parties[j]? = some p') (hr' : p'.running = true) :
    i = j ∧ p' = p.to q b := by
  rw [Model.put_getElem? hp] at hj
  by_cases hij : i = j
  · rw [if_pos hij] at hj
    cases hj
    exact ⟨hij, rfl⟩
  · rw [if_neg hij] at hj
    exact absurd (ho.alone i j p p' hp hj hr hr') hij

theorem Orderly.alone_put (ho : Orderly m) (hp : m.parties[i]? = some p) (hr : p.running = true)
    (j k : ℕ) (p₁ p₂ : Party) (h₁ : (m.put rows i (p.to q b)).parties[j]? = some p₁)
    (h₂ : (m.put rows i (p.to q b)).parties[k]? = some p₂) (hr₁ : p₁.running = true)
    (hr₂ : p₂.running = true) : j = k :=
  (ho.eq_of_running hp hr h₁ hr₁).1.symm.trans (ho.eq_of_running hp hr h₂ hr₂).1

theorem Orderly.stay (ho : Orderly m) (hc : Consistent m) (hp : m.parties[i]? = some p)
    (hr : p.running = true) (hl : ∀ r n, p.stage ≠ .linking r n) :
    Orderly (m.put m.rows i (p.to p.stage b)) where
  alone := ho.alone_put hp hr
  pending := by
    intro j p' hj hr' r hpend
    obtain ⟨-, rfl⟩ := ho.eq_of_running hp hr hj hr'
    exact ho.pending i p hp hr r hpend
  linking := by
    intro p' hp' r n hs
    rcases Model.mem_put hp' with hp' | rfl
    · exact ho.linking p' hp' r n hs
    · exact absurd hs (hl r n)
  unlinked := ho.unlinked
  links := by
    intro r hmem y
    rw [ho.links r hmem y, exchanged_put hp fun r n hs => hs, or_iff_left_of_imp]
    rintro ⟨r', n, hs, hx, hy⟩
    exact ⟨p, List.mem_of_getElem? hp, r', n, hs, hx, hy⟩
  makers := ho.makers_put hc hp (.inl rfl)

theorem Orderly.move (ho : Orderly m) (hc : Consistent m) (hp : m.parties[i]? = some p)
    (hr : p.running = true) (hm : Move m.rows p.stage o rows q)
    (hb : ∀ r n, q = .linking r n → b = true) : Orderly (m.put rows i (p.to q b)) where
  alone := ho.alone_put hp hr
  pending := by
    intro j p' hj hr' r hpend
    obtain ⟨-, rfl⟩ := ho.eq_of_running hp hr hj hr'
    exact hm.pending hc.distinct (ho.pending i p hp hr) hpend
  linking := by
    intro p' hp' r n hs
    rcases Model.mem_put hp' with hp' | rfl
    · exact ho.linking p' hp' r n hs
    · exact hb r n hs
  unlinked := hm.unlinked ho.unlinked
  links := ho.links_move hc hp hr hm
  makers := ho.makers_put hc hp hm.made

theorem Orderly.join (ho : Orderly m) (hq : q.initial) (hs : ∀ p ∈ m.parties, p.running = false) :
    Orderly ⟨m.rows, m.parties ++ [⟨q, q, b⟩]⟩ := by
  have hcases : ∀ {j : ℕ} {p' : Party}, (m.parties ++ [⟨q, q, b⟩])[j]? = some p' →
      m.parties[j]? = some p' ∨ j = m.parties.length ∧ p' = ⟨q, q, b⟩ := by
    intro j p' hj
    rw [List.getElem?_append] at hj
    split_ifs at hj with hlt
    · exact .inl hj
    · have hlen := (List.getElem?_eq_some_iff.1 hj).1
      simp only [List.length_singleton] at hlen
      exact .inr ⟨by omega, List.mem_singleton.1 (List.mem_of_getElem? hj)⟩
  have hmade : ∀ n, q.made ≠ some n := by cases q <;> first | exact hq.elim | simp [Stage.made]
  refine ⟨?_, ?_, ?_, ho.unlinked, ?_, ?_⟩
  · intro j k p₁ p₂ h₁ h₂ hr₁ hr₂
    rcases hcases h₁ with h₁ | ⟨hj, -⟩
    · rw [hs p₁ (List.mem_of_getElem? h₁)] at hr₁
      cases hr₁
    rcases hcases h₂ with h₂ | ⟨hk, -⟩
    · rw [hs p₂ (List.mem_of_getElem? h₂)] at hr₂
      cases hr₂
    exact hj.trans hk.symm
  · intro j p' hj hr' r hpend
    rcases hcases hj with hj | ⟨-, rfl⟩
    · exact ho.pending j p' hj hr' r hpend
    · cases q <;> first | exact hq.elim | cases hpend
  · intro p' hp' r n hst
    rcases List.mem_append.1 hp' with hp' | hp'
    · exact ho.linking p' hp' r n hst
    · obtain rfl := List.mem_singleton.1 hp'
      cases q <;> first | exact hq.elim | cases hst
  · intro r hmem y
    rw [ho.links r hmem y]
    constructor
    · rintro ⟨p', hp', h⟩
      exact ⟨p', List.mem_append_left _ hp', h⟩
    · rintro ⟨p', hp', r', n, hst, hx, hy⟩
      rcases List.mem_append.1 hp' with hp' | hp'
      · exact ⟨p', hp', r', n, hst, hx, hy⟩
      · obtain rfl := List.mem_singleton.1 hp'
        cases q <;> first | exact hq.elim | cases hst
  · intro j k p₁ p₂ n₁ n₂ h₁ h₂ hn₁ hn₂ hid
    rcases hcases h₁ with h₁ | ⟨-, rfl⟩
    · rcases hcases h₂ with h₂ | ⟨-, rfl⟩
      · exact ho.makers j k p₁ p₂ n₁ n₂ h₁ h₂ hn₁ hn₂ hid
      · exact absurd hn₂ (hmade n₂)
    · exact absurd hn₁ (hmade n₁)

/-- **Serial steps keep the store orderly.** -/
theorem Orderly.step (ho : Orderly m) (hc : Consistent m) (hs : Serial m a) (h : Step m a m') :
    Orderly m' := by
  cases h with
  | join q b hq => exact ho.join hq hs
  | pass b hp hr hl => exact ho.stay hc hp hr hl
  | stop hp hr => exact hs.elim
  | reject hp hr hl => exact ho.stay hc hp hr hl
  | call hp hr hm hb => exact ho.move hc hp hr hm hb

theorem Orderly.frozen (ho : Orderly m) (h : Step m a m') {r : RefreshTokenRecord}
    (hr : r ∈ m.rows) (hv : r.revokedAt ≠ none) : r ∈ m'.rows := by
  cases h with
  | call hp hrun hm hb => exact hm.frozen (ho.pending _ _ hp hrun) hr hv
  | _ => exact hr

theorem orderly_of_run {m₀ : Model} (hc : Consistent m₀) (ho : Orderly m₀)
    (h : lts.Run Serial m₀ m) : Orderly m :=
  (h.invariant (I := fun m => Consistent m ∧ Orderly m) ⟨hc, ho⟩ fun _ _ _ _ ih hs hst =>
    ⟨ih.1.step hst, ih.2.step ih.1 hs hst⟩).2

theorem frozen_of_run {m₀ : Model} (hc : Consistent m₀) (ho : Orderly m₀)
    (h : lts.Run Serial m₀ m) {r : RefreshTokenRecord} (hr : r ∈ m₀.rows)
    (hv : r.revokedAt ≠ none) : r ∈ m.rows :=
  h.invariant (I := fun m => r ∈ m.rows) hr fun _ _ _ hrun ih _ hst =>
    (orderly_of_run hc ho hrun).frozen hst ih hv

/-! ### The chains between requests -/

/-- The row of the token `x` is linked to the token `y`. -/
def Succeeds (rows : List RefreshTokenRecord) (x y : String) : Prop :=
  ∃ r ∈ rows, r.id = x ∧ r.replacedByTokenId = some y

/-- A sign-in has created the token `x`. -/
def SignedIn (m : Model) (x : String) : Prop := ∃ p ∈ m.parties, ∃ n, p.stage = .opened n ∧ n.id = x

/-- The tokens form disjoint chains, one for each sign-in, of which only the last can be live. -/
structure ChainsFormed (m : Model) : Prop where
  /-- A linked token is revoked, and its successor is a token of the same account that a rotation
  has obtained with it. -/
  linked : ∀ r ∈ m.rows, ∀ y, r.replacedByTokenId = some y → r.revokedAt ≠ none ∧
    Rotates m r.id y ∧ ∃ r' ∈ m.rows, r'.id = y ∧ r'.accountId = r.accountId
  injective : ∀ x x' y, Succeeds m.rows x y → Succeeds m.rows x' y → x = x'
  acyclic : ∀ x, ¬ TransGen (Succeeds m.rows) x x
  /-- Every token is in the chain of exactly one sign-in. -/
  rooted : ∀ r ∈ m.rows, ∃! x, SignedIn m x ∧ ReflTransGen (Succeeds m.rows) x r.id
  /-- Different sign-ins have different chains. -/
  apart : ∀ (i j : ℕ) (p p' : Party) (n n' : RefreshTokenRecord), m.parties[i]? = some p →
    m.parties[j]? = some p' → p.stage = .opened n → p'.stage = .opened n' → n.id = n'.id → i = j
  last : ∀ r ∈ m.rows, r.revokedAt = none → ∀ y, ¬ Succeeds m.rows r.id y
  live : ∀ r ∈ m.rows, ∀ r' ∈ m.rows, r.revokedAt = none → r'.revokedAt = none →
    ∀ x, ReflTransGen (Succeeds m.rows) x r.id → ReflTransGen (Succeeds m.rows) x r'.id → r = r'

theorem Orderly.succeeds_iff (ho : Orderly m) (hc : Consistent m) :
    Succeeds m.rows x y ↔ Exchanged m x y := by
  constructor
  · rintro ⟨r, hr, rfl, hlink⟩
    exact (ho.links r hr y).1 hlink
  · intro h
    obtain ⟨⟨r, hr, rfl⟩, -⟩ := h.known hc
    exact ⟨r, hr, rfl, (ho.links r hr y).2 h⟩

theorem Orderly.exchanged_iff (ho : Orderly m) (hq : ∀ p ∈ m.parties, p.running = false) :
    Exchanged m x y ↔ Rotates m x y := by
  constructor
  · rintro ⟨p, hp, r, n, hs, hx, hy⟩
    exact ⟨p, hp, r, n, by rw [hs]; rfl, hx, hy⟩
  · rintro ⟨p, hp, r, n, hr, hx, hy⟩
    cases hs : p.stage with
    | rotated r' n' =>
      rw [hs] at hr
      cases hr
      exact ⟨p, hp, r, n, hs, hx, hy⟩
    | linking r' n' =>
      have hrun := ho.linking p hp r' n' hs
      rw [hq p hp] at hrun
      cases hrun
    | _ => rw [hs] at hr; cases hr

theorem Orderly.leftUnique (ho : Orderly m) (hc : Consistent m) :
    Relator.LeftUnique (Succeeds m.rows) := by
  intro x y x' hx hx'
  obtain ⟨p, hp, r, n, hs, rfl, rfl⟩ := (ho.succeeds_iff hc).1 hx
  obtain ⟨p', hp', r', n', hs', rfl, hn⟩ := (ho.succeeds_iff hc).1 hx'
  obtain ⟨i, hi, hp⟩ := List.mem_iff_getElem.1 hp
  obtain ⟨j, hj, hp'⟩ := List.mem_iff_getElem.1 hp'
  have hij : i = j := ho.makers i j p p' n n' (List.getElem?_eq_some_iff.2 ⟨hi, hp⟩)
    (List.getElem?_eq_some_iff.2 ⟨hj, hp'⟩) (by rw [hs]; rfl) (by rw [hs']; rfl) hn.symm
  subst hij
  rw [← hp, hp'] at hs
  rw [hs'] at hs
  cases hs
  rfl

theorem rightUnique_of_distinct (hd : Distinct rows) : Relator.RightUnique (Succeeds rows) := by
  rintro _ y y' ⟨r, hr, rfl, hy⟩ ⟨r', hr', hid, hy'⟩
  rw [hd.eq_of_id hr' hr hid, hy] at hy'
  exact Option.some.inj hy'

/-- A token that a sign-in has created was not obtained by a rotation. -/
theorem Orderly.source (ho : Orderly m) (hc : Consistent m) (h : SignedIn m x) :
    Source (Succeeds m.rows) x := by
  intro y hy
  obtain ⟨p, hp, n, hs, rfl⟩ := h
  obtain ⟨p', hp', r', n', hs', rfl, hn⟩ := (ho.succeeds_iff hc).1 hy
  obtain ⟨i, hi, hp⟩ := List.mem_iff_getElem.1 hp
  obtain ⟨j, hj, hp'⟩ := List.mem_iff_getElem.1 hp'
  have hij : i = j := ho.makers i j p p' n n' (List.getElem?_eq_some_iff.2 ⟨hi, hp⟩)
    (List.getElem?_eq_some_iff.2 ⟨hj, hp'⟩) (by rw [hs]; rfl) (by rw [hs']; rfl) hn.symm
  subst hij
  rw [← hp, hp'] at hs
  rw [hs'] at hs
  cases hs

theorem Orderly.last (ho : Orderly m) (hc : Consistent m) {r : RefreshTokenRecord}
    (hr : r ∈ m.rows) (hv : r.revokedAt = none) : Last (Succeeds m.rows) r.id := by
  rintro y ⟨r', hr', hid, hlink⟩
  rw [hc.distinct.eq_of_id hr' hr hid, ho.unlinked r hr hv] at hlink
  cases hlink

theorem Orderly.successor_account (hc : Consistent m) (hf : Familial m) {r : RefreshTokenRecord}
    (hr : r ∈ m.rows) (h : Exchanged m r.id y) :
    ∃ r' ∈ m.rows, r'.id = y ∧ r'.accountId = r.accountId := by
  obtain ⟨p, hp, r₀, n, hs, hx, rfl⟩ := h
  obtain ⟨n', hn', hsame⟩ := (hc.holds p hp).made n (by rw [hs]; rfl)
  obtain ⟨r₁, hr₁, hsame₁⟩ := (hc.holds p hp).subject r₀ (by rw [hs]; rfl)
  refine ⟨n', hn', hsame.id, ?_⟩
  have hacc : n.accountId = r₀.accountId := hf p hp r₀ n (by rw [hs]; rfl)
  rw [hsame.accountId, hacc, ← hsame₁.accountId,
    hc.distinct.eq_of_id hr₁ hr (hsame₁.id.trans hx)]

/-- **The chains of an orderly store.** -/
theorem Orderly.chainsFormed (ho : Orderly m) (hc : Consistent m) (hf : Familial m)
    (hr : Rooted m) (hq : ∀ p ∈ m.parties, p.running = false) : ChainsFormed m := by
  have hleft := ho.leftUnique hc
  have hright := rightUnique_of_distinct hc.distinct
  have hroot : ∀ r ∈ m.rows, ∃ x, SignedIn m x ∧ ReflTransGen (Succeeds m.rows) x r.id := by
    intro r hmem
    obtain ⟨p, hp, n, hs, -, hd⟩ := hr r hmem
    refine ⟨n.id, ⟨p, hp, n, hs, rfl⟩, ReflTransGen.mono (fun x y h => ?_) _ _ hd⟩
    exact (ho.succeeds_iff hc).2 ((ho.exchanged_iff hq).2 h)
  refine ⟨?_, fun x x' y h h' => hleft h h', ?_, ?_, ?_, fun r hmem hv => ho.last hc hmem hv, ?_⟩
  · intro r hmem y hlink
    have hex := (ho.links r hmem y).1 hlink
    refine ⟨fun hv => ?_, (ho.exchanged_iff hq).1 hex, Orderly.successor_account hc hf hmem hex⟩
    rw [ho.unlinked r hmem hv] at hlink
    cases hlink
  · intro x hcycle
    obtain ⟨y, ⟨r, hmem, rfl, -⟩, -⟩ := TransGen.head'_iff.1 hcycle
    obtain ⟨z, hz, hreach⟩ := hroot r hmem
    exact not_transGen_of_source hleft (ho.source hc hz) hreach hcycle
  · intro r hmem
    obtain ⟨x, hx, hreach⟩ := hroot r hmem
    refine ⟨x, ⟨hx, hreach⟩, fun x' ⟨hx', hreach'⟩ => ?_⟩
    exact source_unique hleft (ho.source hc hx') (ho.source hc hx) hreach' hreach
  · intro i j p p' n n' hi hj hs hs' hid
    exact ho.makers i j p p' n n' hi hj (by rw [hs]; rfl) (by rw [hs']; rfl) hid
  · intro r hmem r' hmem' hv hv' x hx hx'
    exact hc.distinct.eq_of_id hmem hmem'
      (last_unique hright (ho.last hc hmem hv) (ho.last hc hmem' hv') hx hx')

/-! ### The server -/

variable {cfg : Config} {core : Core}

theorem parties_of_idle {s : State cfg core} (h : s.Idle) :
    ∀ p ∈ (abs s).parties, p.running = false := by
  intro p hp
  obtain ⟨t, ht, rfl⟩ := List.mem_map.1 hp
  exact h t ht

theorem orderly_init {w₀ : World core} (hw : w₀.refreshTokens = []) :
    Orderly (abs (Sys.init w₀ : State cfg core)) := by
  constructor <;> simp [abs, Sys.init, hw]

/-- **Rotation chains.**  The server starts with no tokens and serves requests one after another,
none of whose calls is rejected from outside the model.  Between requests the tokens form chains,
and a token that has been revoked or linked stays exactly as it is. -/
theorem chains_of_run {w₀ : World core} {s s' : State cfg core} (hw : w₀.refreshTokens = [])
    (h : Run (Under Serial) (Sys.init w₀) s) (h' : Run (Under Serial) s s') :
    (s'.Idle → ChainsFormed (abs s')) ∧
      ∀ r ∈ s.world.refreshTokens, r.revokedAt ≠ none ∨ r.replacedByTokenId ≠ none →
        r ∈ s'.world.refreshTokens := by
  have hd : Distinct w₀.refreshTokens := by rw [hw]; exact distinct_nil
  have hc₀ : Consistent (abs (Sys.init w₀ : State cfg core)) := consistent_init hd
  have ho := orderly_of_run hc₀ (orderly_init hw) (run_init h)
  have hrun := run_init (h.trans h')
  refine ⟨fun hq => ?_, fun r hr hv => ?_⟩
  · refine (orderly_of_run hc₀ (orderly_init hw) hrun).chainsFormed (Consistent.run hrun hc₀)
      (familial_of_run ?_ hrun) (rooted_of_run hc₀ ?_ hrun) (parties_of_idle hq)
    · intro p hp; simp [abs, Sys.init] at hp
    · intro r hr; simp [abs, Sys.init, hw] at hr
  · refine frozen_of_run (consistent_of_run hd h) ho
      (run_abs (obeyed_of_run h) h') hr fun hlive => ?_
    exact hv.elim (fun hne => hne hlive) fun hne => hne (ho.unlinked r hr hlive)

/-- A sign-in, a rotation, and a use of the old token. -/
theorem chains_of_run_reuse : ∃ s : State Config.sample Core.sample,
    Run (Under Serial) (Sys.init .sample) s ∧ s.Idle ∧ s.world.refreshTokens.length = 2 ∧
      ChainsFormed (abs s) := by
  have h : ∃ s : State Config.sample Core.sample, Run (Under Serial) (Sys.init .sample) s ∧
      decide (s.Idle ∧ s.world.refreshTokens.length = 2) = true :=
    exists_run_of_replay (sampleSignIn ++ .start (.refresh (sampleToken 12)) ::
      List.replicate 9 (.step 1) ++ .start (.refresh (sampleToken 12)) ::
      List.replicate 3 (.step 2)) _ (by decide)
  obtain ⟨s, hr, hp⟩ := h
  obtain ⟨hidle, hlen⟩ := of_decide_eq_true hp
  exact ⟨s, hr, hidle, hlen, (chains_of_run rfl hr (.refl s)).1 hidle⟩

end Sessions

end HelixServer
