import HelixServer.Async.Lts
import HelixServer.Repositories.RefreshToken
import Mathlib.Data.List.Nodup

/-!
# Token sessions, abstractly

What a server of refresh tokens does, with everything but the token store left out: requests open
sessions, exchange a token for its successor, or end a session, and each is a party that moves
through a few stages, one store call a move.  The moves of different parties interleave freely.

## Main definitions

* `Stage` : where a request stands with the store, and which records it has seen and made.
* `Model` : the rows of the store and the parties.
* `Move` : every call of the store.  A rotation makes three (look up, create the successor, revoke
  the old token with a link to it), reuse detection two (look up, revoke all).
* `Step` : a party arrives, calls the store, does something else, or is stopped.
* `Consistent` : what holds in every state, whatever the order of the moves: rows have distinct ids
  and hashes, a stage speaks of existing rows, a token that a party has seen revoked or has revoked
  itself stays revoked.
-/

namespace HelixServer

namespace Sessions

open RefreshTokens Async

/-- Where a request stands with the token store. -/
inductive Stage where
  /-- It does not use the store. -/
  | aside
  /-- A sign-in that has not written its token. -/
  | opening
  | opened (n : RefreshTokenRecord)
  /-- A refresh that has not looked up its token. -/
  | presenting (tokenHash : String)
  | unknown (tokenHash : String)
  /-- It has read `r`, not revoked. -/
  | rotating (r : RefreshTokenRecord)
  /-- It has written the successor `n` of `r`. -/
  | linking (r n : RefreshTokenRecord)
  | rotated (r n : RefreshTokenRecord)
  /-- It has read `r`, revoked. -/
  | reusing (r : RefreshTokenRecord)
  | burnt (r : RefreshTokenRecord)
  /-- A logout that has not looked up its token. -/
  | leaving (tokenHash : String)
  | absent (tokenHash : String)
  | gone (r : RefreshTokenRecord)
  | revoking (r : RefreshTokenRecord)
  | left (r : RefreshTokenRecord)
  deriving DecidableEq

namespace Stage

/-- The stages a request starts in. -/
def initial : Stage → Prop
  | .aside | .opening | .presenting _ | .leaving _ => True
  | _ => False

/-- The stage a request started in. -/
def origin : Stage → Stage
  | .opened _ => .opening
  | .unknown h => .presenting h
  | .rotating r | .linking r _ | .rotated r _ | .reusing r | .burnt r => .presenting r.tokenHash
  | .absent h => .leaving h
  | .gone r | .revoking r | .left r => .leaving r.tokenHash
  | q => q

/-- A refresh after its look-up. -/
def presented (h : String) : Option RefreshTokenRecord → Stage
  | none => .unknown h
  | some r => if r.revokedAt.isSome then .reusing r else .rotating r

/-- A logout after its look-up. -/
def found (h : String) : Option RefreshTokenRecord → Stage
  | none => .absent h
  | some r => if r.revokedAt.isSome then .gone r else .revoking r

/-- The record a request has looked up. -/
def subject : Stage → Option RefreshTokenRecord
  | .rotating r | .linking r _ | .rotated r _ | .reusing r | .burnt r => some r
  | .gone r | .revoking r | .left r => some r
  | _ => none

/-- The record a request has created. -/
def made : Stage → Option RefreshTokenRecord
  | .opened n | .linking _ n | .rotated _ n => some n
  | _ => none

/-- The record a request has seen revoked, or has revoked. -/
def spent : Stage → Option RefreshTokenRecord
  | .rotated r _ | .reusing r | .burnt r | .gone r | .left r => some r
  | _ => none

end Stage

/-- A request, as the token store sees it. -/
structure Party where
  origin : Stage
  stage : Stage
  running : Bool

/-- The party at another stage. -/
def Party.to (p : Party) (q : Stage) (b : Bool) : Party := { p with stage := q, running := b }

@[simp] theorem Party.to_origin (p : Party) (q : Stage) (b : Bool) : (p.to q b).origin = p.origin :=
  rfl

@[simp] theorem Party.to_stage (p : Party) (q : Stage) (b : Bool) : (p.to q b).stage = q := rfl

@[simp] theorem Party.to_running (p : Party) (q : Stage) (b : Bool) : (p.to q b).running = b := rfl

/-- The rows of the store and the requests made so far. -/
structure Model where
  rows : List RefreshTokenRecord
  parties : List Party

/-- The model with party `i` replaced. -/
def Model.put (m : Model) (rows : List RefreshTokenRecord) (i : ℕ) (p : Party) : Model :=
  ⟨rows, m.parties.set i p⟩

/-- Moves. -/
inductive Act where
  /-- A request arrives. -/
  | join (q : Stage)
  /-- Party `i` does something that is not a call of the store, or ends. -/
  | pass (i : ℕ)
  /-- A call of party `i` is rejected from outside the model. -/
  | stop (i : ℕ)
  /-- Party `i` calls the store. -/
  | call (i : ℕ) (o : RefreshTokenOp)

/-- `n` is a new row for `data`. -/
structure IsNew (data : RefreshTokenCreateData) (n : RefreshTokenRecord)
    (rows : List RefreshTokenRecord) : Prop where
  accountId : n.accountId = data.accountId
  tokenHash : n.tokenHash = data.tokenHash
  revokedAt : n.revokedAt = none
  replacedByTokenId : n.replacedByTokenId = none
  fresh : Fresh data n.id rows

/-- A call of the store: the rows and the caller's stage before it, and both after it. -/
inductive Move : List RefreshTokenRecord → Stage → RefreshTokenOp → List RefreshTokenRecord →
    Stage → Prop
  | signIn {rows : List RefreshTokenRecord} {d : RefreshTokenCreateData} {n : RefreshTokenRecord}
      (hn : IsNew d n rows) : Move rows .opening (.create d) (rows ++ [n]) (.opened n)
  | present {rows : List RefreshTokenRecord} (h : String) :
      Move rows (.presenting h) (.findByTokenHash h) rows (.presented h (findByTokenHash h rows))
  | succeed {rows : List RefreshTokenRecord} {d : RefreshTokenCreateData}
      {r n : RefreshTokenRecord} (ha : d.accountId = r.accountId) (hn : IsNew d n rows) :
      Move rows (.rotating r) (.create d) (rows ++ [n]) (.linking r n)
  | link {rows : List RefreshTokenRecord} (r n : RefreshTokenRecord) (now : ℕ) :
      Move rows (.linking r n) (.revoke r.id (some n.id))
        (RefreshTokens.revoke r.id (some n.id) now rows) (.rotated r n)
  | burn {rows : List RefreshTokenRecord} (r : RefreshTokenRecord) (now : ℕ) :
      Move rows (.reusing r) (.revokeAllForAccount r.accountId)
        (revokeAllForAccount r.accountId now rows) (.burnt r)
  | leave {rows : List RefreshTokenRecord} (h : String) :
      Move rows (.leaving h) (.findByTokenHash h) rows (.found h (findByTokenHash h rows))
  | revoke {rows : List RefreshTokenRecord} (r : RefreshTokenRecord) (now : ℕ) :
      Move rows (.revoking r) (.revoke r.id) (RefreshTokens.revoke r.id none now rows) (.left r)

/-- The steps.  A party that has written a successor next revokes the old token, whatever
happens. -/
inductive Step : Model → Act → Model → Prop
  | join {m : Model} (q : Stage) (b : Bool) (hq : q.initial) :
      Step m (.join q) ⟨m.rows, m.parties ++ [⟨q, q, b⟩]⟩
  | pass {m : Model} {i : ℕ} {p : Party} (b : Bool) (hp : m.parties[i]? = some p)
      (hr : p.running = true) (hl : ∀ r n, p.stage ≠ .linking r n) :
      Step m (.pass i) (m.put m.rows i (p.to p.stage b))
  | stop {m : Model} {i : ℕ} {p : Party} (hp : m.parties[i]? = some p) (hr : p.running = true) :
      Step m (.stop i) (m.put m.rows i (p.to p.stage false))
  | reject {m : Model} {i : ℕ} {p : Party} {d : RefreshTokenCreateData}
      (hp : m.parties[i]? = some p) (hr : p.running = true) (hl : ∀ r n, p.stage ≠ .linking r n) :
      Step m (.call i (.create d)) (m.put m.rows i (p.to p.stage false))
  | call {m : Model} {i : ℕ} {p : Party} {o : RefreshTokenOp} {rows : List RefreshTokenRecord}
      {q : Stage} {b : Bool} (hp : m.parties[i]? = some p) (hr : p.running = true)
      (hm : Move m.rows p.stage o rows q) (hb : ∀ r n, q = .linking r n → b = true) :
      Step m (.call i o) (m.put rows i (p.to q b))

/-- The sessions as a transition system. -/
def lts : Lts Model Act := ⟨Step⟩

/-- No condition on the moves. -/
def Free (_ : Model) (_ : Act) : Prop := True

instance (m : Model) (a : Act) : Decidable (Free m a) := .isTrue trivial

theorem Stage.presented_cases (h : String) (found : Option RefreshTokenRecord) :
    Stage.presented h found = .unknown h ∨
      (∃ r, found = some r ∧ r.revokedAt ≠ none ∧ Stage.presented h found = .reusing r) ∨
      ∃ r, found = some r ∧ r.revokedAt = none ∧ Stage.presented h found = .rotating r := by
  cases found with
  | none => exact .inl rfl
  | some r =>
    by_cases hv : r.revokedAt.isSome = true
    · exact .inr (.inl ⟨r, rfl, Option.isSome_iff_ne_none.1 hv, if_pos hv⟩)
    · exact .inr (.inr ⟨r, rfl, by simpa using hv, if_neg hv⟩)

theorem Stage.found_cases (h : String) (found : Option RefreshTokenRecord) :
    Stage.found h found = .absent h ∨
      (∃ r, found = some r ∧ r.revokedAt ≠ none ∧ Stage.found h found = .gone r) ∨
      ∃ r, found = some r ∧ r.revokedAt = none ∧ Stage.found h found = .revoking r := by
  cases found with
  | none => exact .inl rfl
  | some r =>
    by_cases hv : r.revokedAt.isSome = true
    · exact .inr (.inl ⟨r, rfl, Option.isSome_iff_ne_none.1 hv, if_pos hv⟩)
    · exact .inr (.inr ⟨r, rfl, by simpa using hv, if_neg hv⟩)

/-! ### Rows over time -/

section Rows

variable {rows rows' rows'' : List RefreshTokenRecord} {r r' n : RefreshTokenRecord} {id : String}

/-- `r'` is a later version of the row `r`. -/
structure SameToken (r r' : RefreshTokenRecord) : Prop where
  id : r'.id = r.id
  tokenHash : r'.tokenHash = r.tokenHash
  accountId : r'.accountId = r.accountId

theorem SameToken.refl (r : RefreshTokenRecord) : SameToken r r := ⟨rfl, rfl, rfl⟩

theorem SameToken.trans {r₁ r₂ r₃ : RefreshTokenRecord} (h : SameToken r₁ r₂)
    (h' : SameToken r₂ r₃) : SameToken r₁ r₃ :=
  ⟨h'.id.trans h.id, h'.tokenHash.trans h.tokenHash, h'.accountId.trans h.accountId⟩

/-- The store has a row of the token `r`. -/
def Known (rows : List RefreshTokenRecord) (r : RefreshTokenRecord) : Prop :=
  ∃ r' ∈ rows, SameToken r r'

/-- The store has a revoked row with this id. -/
def Revoked (rows : List RefreshTokenRecord) (id : String) : Prop :=
  ∃ r ∈ rows, r.id = id ∧ r.revokedAt ≠ none

/-- Every row stays, and stays revoked if it is. -/
def Evolves (rows rows' : List RefreshTokenRecord) : Prop :=
  ∀ r ∈ rows, ∃ r' ∈ rows', SameToken r r' ∧ (r.revokedAt ≠ none → r'.revokedAt ≠ none)

theorem Evolves.refl (rows : List RefreshTokenRecord) : Evolves rows rows :=
  fun r hr => ⟨r, hr, .refl r, fun h => h⟩

theorem Evolves.trans (h : Evolves rows rows') (h' : Evolves rows' rows'') :
    Evolves rows rows'' := by
  intro r hr
  obtain ⟨r₁, hr₁, hs₁, hv₁⟩ := h r hr
  obtain ⟨r₂, hr₂, hs₂, hv₂⟩ := h' r₁ hr₁
  exact ⟨r₂, hr₂, hs₁.trans hs₂, fun hv => hv₂ (hv₁ hv)⟩

theorem evolves_append (l : List RefreshTokenRecord) : Evolves rows (rows ++ l) :=
  fun r hr => ⟨r, List.mem_append_left l hr, .refl r, fun h => h⟩

theorem evolves_map {f : RefreshTokenRecord → RefreshTokenRecord} (hf : Keeps f) :
    Evolves rows (rows.map f) :=
  fun r hr => ⟨f r, List.mem_map_of_mem hr, ⟨hf.id r, hf.tokenHash r, hf.accountId r⟩,
    hf.revokedAt r⟩

theorem Known.mono (h : Known rows r) (he : Evolves rows rows') : Known rows' r := by
  obtain ⟨r₁, hr₁, hs₁⟩ := h
  obtain ⟨r₂, hr₂, hs₂, -⟩ := he r₁ hr₁
  exact ⟨r₂, hr₂, hs₁.trans hs₂⟩

theorem Revoked.mono (h : Revoked rows id) (he : Evolves rows rows') : Revoked rows' id := by
  obtain ⟨r₁, hr₁, hid, hv⟩ := h
  obtain ⟨r₂, hr₂, hs, hv₂⟩ := he r₁ hr₁
  exact ⟨r₂, hr₂, hs.id.trans hid, hv₂ hv⟩

theorem known_of_mem (h : r ∈ rows) : Known rows r := ⟨r, h, .refl r⟩

/-- No two rows share an id or a hash. -/
structure Distinct (rows : List RefreshTokenRecord) : Prop where
  id : (rows.map (·.id)).Nodup
  tokenHash : (rows.map (·.tokenHash)).Nodup

theorem distinct_nil : Distinct [] := ⟨List.nodup_nil, List.nodup_nil⟩

theorem Distinct.eq_of_id (h : Distinct rows) (hr : r ∈ rows) (hr' : r' ∈ rows)
    (he : r.id = r'.id) : r = r' :=
  List.inj_on_of_nodup_map h.id hr hr' he

theorem Distinct.eq_of_tokenHash (h : Distinct rows) (hr : r ∈ rows) (hr' : r' ∈ rows)
    (he : r.tokenHash = r'.tokenHash) : r = r' :=
  List.inj_on_of_nodup_map h.tokenHash hr hr' he

theorem Distinct.not_revoked (h : Distinct rows) (hr : r ∈ rows) (hv : r.revokedAt = none) :
    ¬ Revoked rows r.id := by
  rintro ⟨r', hr', hid, hv'⟩
  rw [h.eq_of_id hr' hr hid] at hv'
  exact hv' hv

theorem Distinct.map (h : Distinct rows) {f : RefreshTokenRecord → RefreshTokenRecord}
    (hf : Keeps f) : Distinct (rows.map f) :=
  ⟨by rw [hf.map_id]; exact h.id, by rw [hf.map_tokenHash]; exact h.tokenHash⟩

theorem Distinct.append (h : Distinct rows) {d : RefreshTokenCreateData} (hn : IsNew d n rows) :
    Distinct (rows ++ [n]) := by
  have hne : ∀ r ∈ rows, r.id ≠ n.id ∧ r.tokenHash ≠ n.tokenHash := by
    intro r hr
    rw [hn.tokenHash]
    exact hn.fresh r hr
  constructor
  · rw [List.map_append, List.nodup_append]
    refine ⟨h.id, by simp, ?_⟩
    simp only [List.mem_map, List.map_cons, List.map_nil, List.mem_singleton]
    rintro _ ⟨r, hr, rfl⟩ _ rfl
    exact (hne r hr).1
  · rw [List.map_append, List.nodup_append]
    refine ⟨h.tokenHash, by simp, ?_⟩
    simp only [List.mem_map, List.map_cons, List.map_nil, List.mem_singleton]
    rintro _ ⟨r, hr, rfl⟩ _ rfl
    exact (hne r hr).2

end Rows

/-! ### What a call of the store does -/

section Move

variable {rows rows' : List RefreshTokenRecord} {q q' : Stage} {o : RefreshTokenOp}

theorem Move.evolves (h : Move rows q o rows' q') : Evolves rows rows' := by
  cases h with
  | signIn hn => exact evolves_append _
  | present h => exact .refl _
  | succeed ha hn => exact evolves_append _
  | link r n now => exact evolves_map keeps_revokeRow
  | burn r now => exact evolves_map keeps_burnRow
  | leave h => exact .refl _
  | revoke r now => exact evolves_map keeps_revokeRow

theorem Move.distinct (h : Move rows q o rows' q') (hd : Distinct rows) : Distinct rows' := by
  cases h with
  | signIn hn => exact hd.append hn
  | present h => exact hd
  | succeed ha hn => exact hd.append hn
  | link r n now => exact hd.map keeps_revokeRow
  | burn r now => exact hd.map keeps_burnRow
  | leave h => exact hd
  | revoke r now => exact hd.map keeps_revokeRow

/-- What a stage says of the rows. -/
structure Stage.Holds (rows : List RefreshTokenRecord) (q : Stage) : Prop where
  subject : ∀ r, q.subject = some r → Known rows r
  made : ∀ n, q.made = some n → Known rows n
  spent : ∀ r, q.spent = some r → Revoked rows r.id

theorem Stage.Holds.mono (h : q.Holds rows) (he : Evolves rows rows') : q.Holds rows' :=
  ⟨fun r hr => (h.subject r hr).mono he, fun n hn => (h.made n hn).mono he,
    fun r hr => (h.spent r hr).mono he⟩

theorem Stage.holds_of_initial (h : q.initial) : q.Holds rows := by
  cases q <;> first | exact h.elim | exact ⟨by simp [subject], by simp [made], by simp [spent]⟩

theorem Stage.holds_of_read {r : RefreshTokenRecord} (hr : r ∈ rows) (hs : q.subject = some r)
    (hm : q.made = none) (hv : ∀ r', q.spent = some r' → r' = r ∧ r.revokedAt ≠ none) :
    q.Holds rows := by
  refine ⟨fun r' h => ?_, fun n h => ?_, fun r' h => ?_⟩
  · obtain rfl : r = r' := Option.some.inj (hs.symm.trans h)
    exact known_of_mem hr
  · rw [hm] at h; cases h
  · obtain ⟨rfl, hv'⟩ := hv r' h
    exact ⟨r', hr, rfl, hv'⟩

theorem Stage.holds_presented {h : String} :
    (Stage.presented h (findByTokenHash h rows)).Holds rows := by
  rcases Stage.presented_cases h (findByTokenHash h rows) with hs | ⟨r, hf, hv, hs⟩ |
    ⟨r, hf, hv, hs⟩
  all_goals rw [hs]
  · exact ⟨by simp [subject], by simp [made], by simp [spent]⟩
  · refine Stage.holds_of_read (findByTokenHash_some hf).1 rfl rfl ?_
    rintro _ ⟨⟩; exact ⟨rfl, hv⟩
  · exact Stage.holds_of_read (findByTokenHash_some hf).1 rfl rfl (by simp [spent])

theorem Stage.holds_found {h : String} :
    (Stage.found h (findByTokenHash h rows)).Holds rows := by
  rcases Stage.found_cases h (findByTokenHash h rows) with hs | ⟨r, hf, hv, hs⟩ | ⟨r, hf, hv, hs⟩
  all_goals rw [hs]
  · exact ⟨by simp [subject], by simp [made], by simp [spent]⟩
  · refine Stage.holds_of_read (findByTokenHash_some hf).1 rfl rfl ?_
    rintro _ ⟨⟩; exact ⟨rfl, hv⟩
  · exact Stage.holds_of_read (findByTokenHash_some hf).1 rfl rfl (by simp [spent])

theorem revoked_revoke {r : RefreshTokenRecord} {link : Option String} {now : ℕ}
    (h : Known rows r) : Revoked (revoke r.id link now rows) r.id := by
  obtain ⟨r', hr', hs⟩ := h
  exact ⟨_, List.mem_map_of_mem hr', by rw [keeps_revokeRow.id, hs.id], revokeRow_revokedAt hs.id⟩

theorem Move.holds (h : Move rows q o rows' q') (hq : q.Holds rows) : q'.Holds rows' := by
  have he := h.evolves
  cases h with
  | signIn hn =>
    refine ⟨by simp [Stage.subject], ?_, by simp [Stage.spent]⟩
    rintro _ ⟨⟩
    exact known_of_mem (List.mem_concat_self)
  | present h => exact Stage.holds_presented
  | succeed ha hn =>
    refine ⟨fun r hr => (hq.subject r hr).mono he, ?_, by simp [Stage.spent]⟩
    rintro _ ⟨⟩
    exact known_of_mem (List.mem_concat_self)
  | link r n now =>
    refine ⟨fun r hr => (hq.subject r hr).mono he, fun n hn => (hq.made n hn).mono he, ?_⟩
    rintro _ ⟨⟩
    exact revoked_revoke (hq.subject r rfl)
  | burn r now =>
    exact ⟨fun r hr => (hq.subject r hr).mono he, by simp [Stage.made],
      fun r hr => (hq.spent r hr).mono he⟩
  | leave h => exact Stage.holds_found
  | revoke r now =>
    refine ⟨fun r hr => (hq.subject r hr).mono he, by simp [Stage.made], ?_⟩
    rintro _ ⟨⟩
    exact revoked_revoke (hq.subject r rfl)

theorem Stage.origin_presented {h : String} :
    (Stage.presented h (findByTokenHash h rows)).origin = .presenting h := by
  rcases Stage.presented_cases h (findByTokenHash h rows) with hs | ⟨r, hf, hv, hs⟩ |
    ⟨r, hf, hv, hs⟩
  all_goals rw [hs]
  · rfl
  all_goals simp [origin, (findByTokenHash_some hf).2]

theorem Stage.origin_found {h : String} :
    (Stage.found h (findByTokenHash h rows)).origin = .leaving h := by
  rcases Stage.found_cases h (findByTokenHash h rows) with hs | ⟨r, hf, hv, hs⟩ | ⟨r, hf, hv, hs⟩
  all_goals rw [hs]
  · rfl
  all_goals simp [origin, (findByTokenHash_some hf).2]

theorem Move.origin (h : Move rows q o rows' q') : q'.origin = q.origin := by
  cases h with
  | present h => exact Stage.origin_presented
  | leave h => exact Stage.origin_found
  | _ => rfl

end Move

/-! ### What holds in every state -/

variable {m m' : Model} {i j : ℕ} {p p' q : Party} {a : Act} {rows : List RefreshTokenRecord}

theorem Model.put_getElem? (h : m.parties[i]? = some p) :
    (m.put rows i q).parties[j]? = if i = j then some q else m.parties[j]? := by
  have hi : i < m.parties.length := (List.getElem?_eq_some_iff.1 h).1
  simp only [Model.put, List.getElem?_set]
  split_ifs <;> simp_all

theorem Model.mem_put (h : p ∈ (m.put rows i q).parties) : p ∈ m.parties ∨ p = q :=
  List.mem_or_eq_of_mem_set h

theorem Step.evolves (h : Step m a m') : Evolves m.rows m'.rows := by
  cases h with
  | call hp hr hm hb => exact hm.evolves
  | _ => exact .refl _

/-- What holds in every state. -/
structure Consistent (m : Model) : Prop where
  distinct : Distinct m.rows
  holds : ∀ p ∈ m.parties, p.stage.Holds m.rows
  origin : ∀ p ∈ m.parties, p.stage.origin = p.origin

theorem Consistent.stay (hc : Consistent m) (hp : p ∈ m.parties) {b : Bool} :
    Consistent (m.put m.rows i (p.to p.stage b)) := by
  refine ⟨hc.distinct, fun p' hp' => ?_, fun p' hp' => ?_⟩
  all_goals rcases Model.mem_put hp' with hp' | rfl
  · exact hc.holds p' hp'
  · exact hc.holds p hp
  · exact hc.origin p' hp'
  · exact hc.origin p hp

/-- **Consistency is preserved by every step.** -/
theorem Consistent.step (hc : Consistent m) (h : Step m a m') : Consistent m' := by
  have he := h.evolves
  cases h with
  | join q b hq =>
    refine ⟨hc.distinct, fun p hp => ?_, fun p hp => ?_⟩
    all_goals rcases List.mem_append.1 hp with hp | hp
    · exact hc.holds p hp
    · obtain rfl := List.mem_singleton.1 hp
      exact Stage.holds_of_initial hq
    · exact hc.origin p hp
    · obtain rfl := List.mem_singleton.1 hp
      cases q <;> first | rfl | exact hq.elim
  | call hp hr hm hb =>
    have hmem := List.mem_of_getElem? hp
    refine ⟨hm.distinct hc.distinct, fun p' hp' => ?_, fun p' hp' => ?_⟩
    all_goals rcases Model.mem_put hp' with hp' | rfl
    · exact (hc.holds p' hp').mono he
    · exact hm.holds (hc.holds _ hmem)
    · exact hc.origin p' hp'
    · exact hm.origin.trans (hc.origin _ hmem)
  | pass b hp hr hl => exact hc.stay (List.mem_of_getElem? hp)
  | stop hp hr => exact hc.stay (List.mem_of_getElem? hp)
  | reject hp hr hl => exact hc.stay (List.mem_of_getElem? hp)

section Run

variable {C : Model → Act → Prop} {m₀ : Model}

theorem Consistent.run (h : lts.Run C m₀ m) (hc : Consistent m₀) : Consistent m :=
  h.invariant hc fun _ _ _ _ ih _ hst => ih.step hst

theorem evolves_of_run (h : lts.Run C m₀ m) : Evolves m₀.rows m.rows :=
  h.invariant (I := fun m => Evolves m₀.rows m.rows) (Evolves.refl _) fun _ _ _ _ ih _ hst =>
    ih.trans (Step.evolves hst)

end Run

end Sessions

end HelixServer
