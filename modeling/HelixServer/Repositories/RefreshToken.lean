import HelixServer.Model.Runtime

/-!
# The refresh-token repository

Refresh tokens are stored hashed; `revokedAt` marks a token that may not be presented again and
`replacedByTokenId` links a rotated token to its successor.

* `RefreshTokenRecord`, `RefreshTokenCreateData` : the source's records.
* `RefreshTokenOp` : the repository's methods as awaited calls, with `RefreshTokenOp.exec` their
  effect on the rows.  Both writes of `revoke` and `revokeAllForAccount` are the drivers': `revoke`
  is unconditional, `revokeAllForAccount` skips rows that are already revoked.
-/

namespace HelixServer

/-- A row of the refresh-token table. -/
structure RefreshTokenRecord where
  id : String
  accountId : String
  tokenHash : String
  expiresAt : ℕ
  revokedAt : Option ℕ
  replacedByTokenId : Option String
  createdAt : ℕ
  deriving DecidableEq

/-- The argument of `create`. -/
structure RefreshTokenCreateData where
  accountId : String
  tokenHash : String
  expiresAt : ℕ
  deriving DecidableEq

/-- The row `create` inserts. -/
def RefreshTokenCreateData.row (data : RefreshTokenCreateData) (id : String) (now : ℕ) :
    RefreshTokenRecord where
  id := id
  accountId := data.accountId
  tokenHash := data.tokenHash
  expiresAt := data.expiresAt
  revokedAt := none
  replacedByTokenId := none
  createdAt := now

/-- The repository's methods. -/
inductive RefreshTokenOp where
  | create (data : RefreshTokenCreateData)
  | findByTokenHash (tokenHash : String)
  | revoke (id : String) (replacedByTokenId : Option String := none)
  | revokeAllForAccount (accountId : String)

/-- What each method answers. -/
def RefreshTokenOp.Res : RefreshTokenOp → Type
  | .create _ => RefreshTokenRecord
  | .findByTokenHash _ => Option RefreshTokenRecord
  | .revoke _ _ => Unit
  | .revokeAllForAccount _ => Unit

namespace RefreshTokens

/-- `create`.  The SQL schemas reject a used id or hash; the in-memory driver is a map keyed by
the hash. -/
def create (kind : StorageDriverKind) (data : RefreshTokenCreateData) (id : String) (now : ℕ)
    (rows : List RefreshTokenRecord) :
    Except HelixError RefreshTokenRecord × List RefreshTokenRecord :=
  let row := data.row id now
  if kind.hasUniqueIndexes then
    if rows.any fun r => r.id == id || r.tokenHash == data.tokenHash then
      (.error (.storage "UNIQUE constraint failed: refresh_tokens"), rows)
    else (.ok row, rows ++ [row])
  else if rows.any (·.tokenHash == data.tokenHash) then
    (.ok row, rows.map fun r => if r.tokenHash == data.tokenHash then row else r)
  else (.ok row, rows ++ [row])

/-- `findByTokenHash`. -/
def findByTokenHash (tokenHash : String) (rows : List RefreshTokenRecord) :
    Option RefreshTokenRecord :=
  rows.find? (·.tokenHash == tokenHash)

/-- One row under `revoke`: set the revocation time and the link, whatever they were. -/
def revokeRow (id : String) (replacedByTokenId : Option String) (now : ℕ)
    (r : RefreshTokenRecord) : RefreshTokenRecord :=
  if r.id == id then { r with revokedAt := some now, replacedByTokenId := replacedByTokenId } else r

/-- `revoke`. -/
def revoke (id : String) (replacedByTokenId : Option String) (now : ℕ)
    (rows : List RefreshTokenRecord) : List RefreshTokenRecord :=
  rows.map (revokeRow id replacedByTokenId now)

/-- One row under `revokeAllForAccount`: revoke it if it is not revoked yet. -/
def burnRow (accountId : String) (now : ℕ) (r : RefreshTokenRecord) : RefreshTokenRecord :=
  if r.accountId == accountId && r.revokedAt.isNone then { r with revokedAt := some now } else r

/-- `revokeAllForAccount`. -/
def revokeAllForAccount (accountId : String) (now : ℕ) (rows : List RefreshTokenRecord) :
    List RefreshTokenRecord :=
  rows.map (burnRow accountId now)

end RefreshTokens

/-- The effect of a method; `freshId` is the id a `create` draws. -/
def RefreshTokenOp.exec (kind : StorageDriverKind) (freshId : String) (now : ℕ) :
    (o : RefreshTokenOp) → List RefreshTokenRecord →
      Except HelixError o.Res × List RefreshTokenRecord
  | .create data, rows => RefreshTokens.create kind data freshId now rows
  | .findByTokenHash tokenHash, rows => (.ok (RefreshTokens.findByTokenHash tokenHash rows), rows)
  | .revoke id link, rows => (.ok (), RefreshTokens.revoke id link now rows)
  | .revokeAllForAccount accountId, rows =>
    (.ok (), RefreshTokens.revokeAllForAccount accountId now rows)

/-! ### The rows after each method -/

namespace RefreshTokens

variable {kind : StorageDriverKind} {data : RefreshTokenCreateData} {id h a : String} {now : ℕ}
  {rows : List RefreshTokenRecord} {r : RefreshTokenRecord}

/-- The id and the hash of a new row are not in use. -/
def Fresh (data : RefreshTokenCreateData) (id : String) (rows : List RefreshTokenRecord) : Prop :=
  ∀ r ∈ rows, r.id ≠ id ∧ r.tokenHash ≠ data.tokenHash

instance (data : RefreshTokenCreateData) (id : String) (rows : List RefreshTokenRecord) :
    Decidable (Fresh data id rows) :=
  inferInstanceAs (Decidable (∀ r ∈ rows, r.id ≠ id ∧ r.tokenHash ≠ data.tokenHash))

theorem create_of_fresh (hf : Fresh data id rows) :
    create kind data id now rows = (.ok (data.row id now), rows ++ [data.row id now]) := by
  have h₁ : (rows.any fun r => r.id == id || r.tokenHash == data.tokenHash) = false := by
    simp only [List.any_eq_false, Bool.or_eq_true, beq_iff_eq, not_or]
    exact hf
  have h₂ : (rows.any fun r => r.tokenHash == data.tokenHash) = false := by
    simp only [List.any_eq_false, beq_iff_eq]
    exact fun r hr => (hf r hr).2
  simp [create, h₁, h₂]

theorem create_ok {row : RefreshTokenRecord} {rows' : List RefreshTokenRecord}
    (hf : kind.hasUniqueIndexes = true ∨ Fresh data id rows)
    (h : create kind data id now rows = (.ok row, rows')) :
    Fresh data id rows ∧ row = data.row id now ∧ rows' = rows ++ [row] := by
  have hfresh : Fresh data id rows := by
    rcases hf with hk | hf
    · simp only [create, hk, if_true] at h
      split_ifs at h with hany
      · cases h
      · simpa [Fresh, List.any_eq_true, not_or] using hany
    · exact hf
  rw [create_of_fresh hfresh] at h
  cases h
  exact ⟨hfresh, rfl, rfl⟩

theorem findByTokenHash_some (hf : findByTokenHash h rows = some r) : r ∈ rows ∧ r.tokenHash = h :=
  ⟨List.mem_of_find?_eq_some hf, by simpa using List.find?_some hf⟩

theorem findByTokenHash_append (hf : findByTokenHash h rows = some r)
    (l : List RefreshTokenRecord) : findByTokenHash h (rows ++ l) = some r := by
  simp only [findByTokenHash] at hf
  simp [findByTokenHash, List.find?_append, hf]

/-! ### Updates

Both revocations update rows in place: they keep the identity of a row and never clear its
revocation. -/

/-- The row keeps its identity under `f`, and stays revoked if it is. -/
structure Keeps (f : RefreshTokenRecord → RefreshTokenRecord) : Prop where
  id : ∀ r, (f r).id = r.id
  accountId : ∀ r, (f r).accountId = r.accountId
  tokenHash : ∀ r, (f r).tokenHash = r.tokenHash
  revokedAt : ∀ r, r.revokedAt ≠ none → (f r).revokedAt ≠ none

theorem keeps_revokeRow {link : Option String} : Keeps (revokeRow id link now) := by
  refine ⟨fun r => ?_, fun r => ?_, fun r => ?_, fun r hr => ?_⟩ <;> unfold revokeRow <;>
    split_ifs <;> simp_all

theorem keeps_burnRow : Keeps (burnRow a now) := by
  refine ⟨fun r => ?_, fun r => ?_, fun r => ?_, fun r hr => ?_⟩ <;> unfold burnRow <;>
    split_ifs <;> simp_all

theorem revokeRow_revokedAt {link : Option String} (h : r.id = id) :
    (revokeRow id link now r).revokedAt ≠ none := by
  simp [revokeRow, h]

theorem revokeRow_of_ne {link : Option String} (h : r.id ≠ id) : revokeRow id link now r = r := by
  simp [revokeRow, h]

theorem burnRow_revokedAt (h : r.accountId = a) : (burnRow a now r).revokedAt ≠ none := by
  unfold burnRow
  split_ifs with hc
  · simp
  · simpa [h] using hc

variable {f : RefreshTokenRecord → RefreshTokenRecord}

theorem Keeps.findByTokenHash (hf : Keeps f) :
    findByTokenHash h (rows.map f) = (findByTokenHash h rows).map f := by
  have hsame : (fun r : RefreshTokenRecord => r.tokenHash == h) ∘ f =
      fun r => r.tokenHash == h := by
    funext r
    exact congrArg (· == h) (hf.tokenHash r)
  rw [RefreshTokens.findByTokenHash, List.find?_map, hsame]
  rfl

theorem Keeps.map_id (hf : Keeps f) : (rows.map f).map (·.id) = rows.map (·.id) := by
  simp [List.map_map, Function.comp_def, hf.id]

theorem Keeps.map_tokenHash (hf : Keeps f) :
    (rows.map f).map (·.tokenHash) = rows.map (·.tokenHash) := by
  simp [List.map_map, Function.comp_def, hf.tokenHash]

end RefreshTokens

/-- Only `create` is rejected, and a rejected call leaves the rows alone. -/
theorem RefreshTokenOp.exec_error {kind : StorageDriverKind} {freshId : String} {now : ℕ}
    {rows rows' : List RefreshTokenRecord} {o : RefreshTokenOp} {e : HelixError}
    (h : o.exec kind freshId now rows = (.error e, rows')) :
    rows' = rows ∧ (∃ data, o = .create data) ∧ ∃ message, e = .storage message := by
  cases o with
  | create data =>
    simp only [exec, RefreshTokens.create] at h
    split_ifs at h <;> cases h
    exact ⟨rfl, ⟨_, rfl⟩, _, rfl⟩
  | _ => cases h

end HelixServer
