import HelixServer.Model.Runtime

/-!
# The issuer-key and DID repositories

* `IssuerKeyRecordRow` : a row of the issuer-key table, written once for each account.
* `DidRow` : what `@helixid/core`'s `DidRepository` stores of a DID, as far as the server reads it.
-/

namespace HelixServer

/-- A row of the issuer-key table. -/
structure IssuerKeyRecordRow where
  id : String
  accountId : String
  did : String
  encryptedPrivateKey : String
  iv : String
  authTag : String
  algorithm : String
  createdAt : ℕ
  deriving DecidableEq

/-- The argument of `create`: a row without id and creation time. -/
structure IssuerKeyCreateData where
  accountId : String
  did : String
  encryptedPrivateKey : String
  iv : String
  authTag : String
  algorithm : String
  deriving DecidableEq

/-- The row `create` inserts. -/
def IssuerKeyCreateData.row (data : IssuerKeyCreateData) (id : String) (now : ℕ) :
    IssuerKeyRecordRow where
  id := id
  accountId := data.accountId
  did := data.did
  encryptedPrivateKey := data.encryptedPrivateKey
  iv := data.iv
  authTag := data.authTag
  algorithm := data.algorithm
  createdAt := now

/-- The issuer-key repository's methods. -/
inductive IssuerKeyOp where
  | create (data : IssuerKeyCreateData)
  | findByAccountId (accountId : String)

/-- What each method answers. -/
def IssuerKeyOp.Res : IssuerKeyOp → Type
  | .create _ => IssuerKeyRecordRow
  | .findByAccountId _ => Option IssuerKeyRecordRow

/-- `create`.  The SQL schemas reject a used id, account or DID; the in-memory driver is a map
keyed by the account. -/
def IssuerKeys.create (kind : StorageDriverKind) (data : IssuerKeyCreateData) (id : String)
    (now : ℕ) (rows : List IssuerKeyRecordRow) :
    Except HelixError IssuerKeyRecordRow × List IssuerKeyRecordRow :=
  let row := data.row id now
  if kind.hasUniqueIndexes then
    if rows.any fun r => r.id == id || r.accountId == data.accountId || r.did == data.did then
      (.error (.storage "UNIQUE constraint failed: issuer_key_records"), rows)
    else (.ok row, rows ++ [row])
  else if rows.any (·.accountId == data.accountId) then
    (.ok row, rows.map fun r => if r.accountId == data.accountId then row else r)
  else (.ok row, rows ++ [row])

/-- The effect of a method; `freshId` is the id a `create` draws. -/
def IssuerKeyOp.exec (kind : StorageDriverKind) (freshId : String) (now : ℕ) :
    (o : IssuerKeyOp) → List IssuerKeyRecordRow →
      Except HelixError o.Res × List IssuerKeyRecordRow
  | .create data, rows => IssuerKeys.create kind data freshId now rows
  | .findByAccountId accountId, rows => (.ok (rows.find? (·.accountId == accountId)), rows)

/-- A stored DID: the argument of `createDid`. -/
structure DidRow where
  id : String
  subjectType : String
  controller : String
  publicKey : String
  publicKeyMultibase : String
  hederaTransactionId : String
  didDocument : DIDDocument
  deriving DecidableEq

/-- The DID repository's methods. -/
inductive DidOp where
  | createDid (row : DidRow)
  | findDidById (did : String)

/-- What each method answers. -/
def DidOp.Res : DidOp → Type
  | .createDid _ => Unit
  | .findDidById _ => Option DidRow

/-- The effect of a method: `createDid` stores a row under a DID not stored yet. -/
def DidOp.exec : (o : DidOp) → List DidRow → Except HelixError o.Res × List DidRow
  | .createDid row, rows =>
    if rows.any (·.id == row.id) then (.error (.storage "UNIQUE constraint failed: dids"), rows)
    else (.ok (), rows ++ [row])
  | .findDidById did, rows => (.ok (rows.find? (·.id == did)), rows)

theorem IssuerKeyOp.exec_error {kind : StorageDriverKind} {freshId : String} {now : ℕ}
    {rows rows' : List IssuerKeyRecordRow} {o : IssuerKeyOp} {e : HelixError}
    (h : o.exec kind freshId now rows = (.error e, rows')) :
    rows' = rows ∧ ∃ message, e = .storage message := by
  cases o with
  | create data =>
    simp only [exec, IssuerKeys.create] at h
    split_ifs at h <;> cases h
    exact ⟨rfl, _, rfl⟩
  | findByAccountId accountId => cases h

theorem DidOp.exec_error {rows rows' : List DidRow} {o : DidOp} {e : HelixError}
    (h : o.exec rows = (.error e, rows')) : rows' = rows ∧ ∃ message, e = .storage message := by
  cases o with
  | createDid row =>
    simp only [exec] at h
    split_ifs at h <;> cases h
    exact ⟨rfl, _, rfl⟩
  | findDidById did => cases h

/-! ### The rows after each method -/

/-- After `create` the account has the new row, and every other account has the row it had. -/
theorem IssuerKeys.create_ok {kind : StorageDriverKind} {data : IssuerKeyCreateData} {id : String}
    {now : ℕ} {rows rows' : List IssuerKeyRecordRow} {row : IssuerKeyRecordRow}
    (h : create kind data id now rows = (.ok row, rows')) :
    row = data.row id now ∧ rows'.find? (·.accountId == data.accountId) = some row ∧
      ∀ a, a ≠ data.accountId →
        rows'.find? (·.accountId == a) = rows.find? (·.accountId == a) := by
  have happend : (∀ r ∈ rows, r.accountId ≠ data.accountId) →
      (rows ++ [data.row id now]).find? (·.accountId == data.accountId) = some (data.row id now) ∧
        ∀ a, a ≠ data.accountId → (rows ++ [data.row id now]).find? (·.accountId == a) =
          rows.find? (·.accountId == a) := by
    intro hno
    have hnone : rows.find? (·.accountId == data.accountId) = none := by simpa using hno
    refine ⟨by simp [List.find?_append, hnone, IssuerKeyCreateData.row], fun a ha => ?_⟩
    have hne : (data.accountId == a) = false := by simpa using Ne.symm ha
    simp [List.find?_append, IssuerKeyCreateData.row, hne]
  simp only [create] at h
  split_ifs at h with hk hany hany
  · cases h
  · cases h
    refine ⟨rfl, happend fun r hr he => hany (List.any_eq_true.2 ⟨r, hr, ?_⟩)⟩
    simp [he]
  · cases h
    obtain ⟨r₀, hr₀, he₀⟩ := List.any_eq_true.1 hany
    refine ⟨rfl, ?_, fun a ha => ?_⟩
    · rw [List.find?_map]
      have hcomp : ((fun r : IssuerKeyRecordRow => r.accountId == data.accountId) ∘ fun r =>
          if r.accountId == data.accountId then data.row id now else r) =
          fun r => r.accountId == data.accountId := by
        funext r
        by_cases hr : r.accountId = data.accountId <;> simp [hr, IssuerKeyCreateData.row]
      rw [hcomp]
      cases hf : rows.find? (fun r => r.accountId == data.accountId) with
      | none =>
        have hno := List.find?_eq_none.1 hf r₀ hr₀
        exact absurd he₀ hno
      | some r =>
        have hr : r.accountId = data.accountId := by simpa using List.find?_some hf
        simp [hr]
    · have hne : (data.accountId == a) = false := by simpa using Ne.symm ha
      rw [List.find?_map]
      have hcomp : ((fun r : IssuerKeyRecordRow => r.accountId == a) ∘ fun r =>
          if r.accountId == data.accountId then data.row id now else r) =
          fun r => r.accountId == a := by
        funext r
        by_cases hr : r.accountId = data.accountId <;> simp [hr, IssuerKeyCreateData.row, hne]
      rw [hcomp]
      cases hf : rows.find? (fun r => r.accountId == a) with
      | none => rfl
      | some r =>
        have hr : r.accountId = a := by simpa using List.find?_some hf
        simp [hr, ha]
  · cases h
    exact ⟨rfl, happend fun r hr he => hany (List.any_eq_true.2 ⟨r, hr, by simp [he]⟩)⟩

/-- After `createDid` the DID has the new row, and every stored DID the row it had. -/
theorem DidOp.createDid_ok {row : DidRow} {rows rows' : List DidRow} {u : Unit}
    (h : (DidOp.createDid row).exec rows = (.ok u, rows')) :
    rows'.find? (·.id == row.id) = some row ∧
      ∀ did d, rows.find? (·.id == did) = some d → rows'.find? (·.id == did) = some d := by
  simp only [exec] at h
  split_ifs at h with hany <;> cases h
  have hnone : rows.find? (·.id == row.id) = none := by simpa using hany
  refine ⟨by simp [List.find?_append, hnone], fun did d hd => by simp [List.find?_append, hd]⟩

end HelixServer
