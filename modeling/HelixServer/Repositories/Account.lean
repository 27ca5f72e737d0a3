import HelixServer.Model.Runtime
import Mathlib.Data.List.Nodup

/-!
# The account repository

`AccountRepository` delegates to a storage driver; the drivers differ in one thing the callers can
see here: the SQL schemas declare unique indexes on the id, the email, the Google id and the issuer
DID, and an insert or update that breaks one is rejected.

* `AccountRecord`, `AccountCreateData` : the source's records.
* `AccountPatch` : a `Partial<AccountRecord>`, the assigned fields in order.
* `AccountOp` : the repository's methods as awaited calls, with `AccountOp.exec` their effect on
  the rows.
-/

namespace HelixServer

/-- A row of the accounts table. -/
structure AccountRecord where
  id : String
  email : String
  passwordHash : Option String
  googleId : Option String
  issuerDid : Option String
  companyName : Option String
  fieldOfOperation : Option String
  emailVerifiedAt : Option ℕ
  emailVerificationTokenHash : Option String
  emailVerificationExpiresAt : Option ℕ
  createdAt : ℕ
  updatedAt : ℕ
  deriving DecidableEq

/-- The argument of `create`. -/
structure AccountCreateData where
  email : String
  passwordHash : Option String
  googleId : Option String
  companyName : Option String := none
  fieldOfOperation : Option String := none

/-- One assigned field of a patch. -/
inductive AccountAssign where
  | email (v : String)
  | passwordHash (v : Option String)
  | googleId (v : Option String)
  | issuerDid (v : Option String)
  | companyName (v : Option String)
  | fieldOfOperation (v : Option String)
  | emailVerifiedAt (v : Option ℕ)
  | emailVerificationTokenHash (v : Option String)
  | emailVerificationExpiresAt (v : Option ℕ)
  | createdAt (v : ℕ)
  deriving DecidableEq

/-- A `Partial<AccountRecord>`. -/
abbrev AccountPatch := List AccountAssign

/-- Assign one field. -/
def AccountAssign.apply (r : AccountRecord) : AccountAssign → AccountRecord
  | .email v => { r with email := v }
  | .passwordHash v => { r with passwordHash := v }
  | .googleId v => { r with googleId := v }
  | .issuerDid v => { r with issuerDid := v }
  | .companyName v => { r with companyName := v }
  | .fieldOfOperation v => { r with fieldOfOperation := v }
  | .emailVerifiedAt v => { r with emailVerifiedAt := v }
  | .emailVerificationTokenHash v => { r with emailVerificationTokenHash := v }
  | .emailVerificationExpiresAt v => { r with emailVerificationExpiresAt := v }
  | .createdAt v => { r with createdAt := v }

/-- The key of an assigned field in the patch. -/
def AccountAssign.key : AccountAssign → String
  | .email _ => "email"
  | .passwordHash _ => "passwordHash"
  | .googleId _ => "googleId"
  | .issuerDid _ => "issuerDid"
  | .companyName _ => "companyName"
  | .fieldOfOperation _ => "fieldOfOperation"
  | .emailVerifiedAt _ => "emailVerifiedAt"
  | .emailVerificationTokenHash _ => "emailVerificationTokenHash"
  | .emailVerificationExpiresAt _ => "emailVerificationExpiresAt"
  | .createdAt _ => "createdAt"

/-- `{ ...record, ...patch, updatedAt: now }`. -/
def AccountRecord.patched (r : AccountRecord) (patch : AccountPatch) (now : ℕ) : AccountRecord :=
  { patch.foldl AccountAssign.apply r with updatedAt := now }

/-- The row `create` inserts. -/
def AccountCreateData.row (data : AccountCreateData) (id : String) (now : ℕ) : AccountRecord where
  id := id
  email := data.email
  passwordHash := data.passwordHash
  googleId := data.googleId
  issuerDid := none
  companyName := data.companyName
  fieldOfOperation := data.fieldOfOperation
  emailVerifiedAt := none
  emailVerificationTokenHash := none
  emailVerificationExpiresAt := none
  createdAt := now
  updatedAt := now

/-- Two set values are equal (SQL unique indexes do not compare nulls). -/
def sameSet (a b : Option String) : Bool := a.isSome && a == b

/-- The two rows break a unique index of the SQL schemas. -/
def AccountRecord.conflicts (r r' : AccountRecord) : Bool :=
  r.id == r'.id || r.email == r'.email || sameSet r.googleId r'.googleId ||
    sameSet r.issuerDid r'.issuerDid

/-- The repository's methods. -/
inductive AccountOp where
  | create (data : AccountCreateData)
  | findById (id : String)
  | findByEmail (email : String)
  | findByGoogleId (googleId : String)
  | findByEmailVerificationTokenHash (tokenHash : String)
  | update (id : String) (patch : AccountPatch)

/-- A patch is an object: it has each key once. -/
def AccountOp.DistinctKeys : AccountOp → Prop
  | .update _ patch => (patch.map AccountAssign.key).Nodup
  | _ => True

/-- What each method answers. -/
def AccountOp.Res : AccountOp → Type
  | .create _ => AccountRecord
  | .update _ _ => AccountRecord
  | _ => Option AccountRecord

namespace Accounts

/-- `create`: insert a row with the drawn id.  The in-memory driver sets the entry of its map. -/
def create (kind : StorageDriverKind) (data : AccountCreateData) (id : String) (now : ℕ)
    (rows : List AccountRecord) : Except HelixError AccountRecord × List AccountRecord :=
  let row := data.row id now
  if kind.hasUniqueIndexes then
    if rows.any row.conflicts then (.error (.storage "UNIQUE constraint failed: accounts"), rows)
    else (.ok row, rows ++ [row])
  else if rows.any (·.id == id) then
    (.ok row, rows.map fun r => if r.id == id then row else r)
  else (.ok row, rows ++ [row])

/-- `update`: patch the row with the given id. -/
def update (kind : StorageDriverKind) (id : String) (patch : AccountPatch) (now : ℕ)
    (rows : List AccountRecord) : Except HelixError AccountRecord × List AccountRecord :=
  match rows.find? (·.id == id) with
  | none => (.error (.storage "Account update affected no rows"), rows)
  | some r =>
    let row := r.patched patch now
    if kind.hasUniqueIndexes && (rows.filter (·.id != id)).any row.conflicts then
      (.error (.storage "UNIQUE constraint failed: accounts"), rows)
    else (.ok row, rows.map fun r' => if r'.id == id then row else r')

end Accounts

/-- The effect of a method; `freshId` is the id a `create` draws. -/
def AccountOp.exec (kind : StorageDriverKind) (freshId : String) (now : ℕ) :
    (o : AccountOp) → List AccountRecord → Except HelixError o.Res × List AccountRecord
  | .create data, rows => Accounts.create kind data freshId now rows
  | .findById id, rows => (.ok (rows.find? (·.id == id)), rows)
  | .findByEmail email, rows => (.ok (rows.find? (·.email == email)), rows)
  | .findByGoogleId googleId, rows => (.ok (rows.find? (·.googleId == some googleId)), rows)
  | .findByEmailVerificationTokenHash tokenHash, rows =>
    (.ok (rows.find? (·.emailVerificationTokenHash == some tokenHash)), rows)
  | .update id patch, rows => Accounts.update kind id patch now rows

theorem AccountOp.exec_error {kind : StorageDriverKind} {freshId : String} {now : ℕ}
    {rows rows' : List AccountRecord} {o : AccountOp} {e : HelixError}
    (h : o.exec kind freshId now rows = (.error e, rows')) :
    rows' = rows ∧ ∃ message, e = .storage message := by
  cases o with
  | create data =>
    simp only [exec, Accounts.create] at h
    split_ifs at h <;> cases h
    exact ⟨rfl, _, rfl⟩
  | update id patch =>
    simp only [exec, Accounts.update] at h
    split at h
    · cases h; exact ⟨rfl, _, rfl⟩
    · split_ifs at h <;> cases h
      exact ⟨rfl, _, rfl⟩
  | _ => cases h

/-! ### The rows after each method -/

section

variable {kind : StorageDriverKind} {data : AccountCreateData} {id : String} {now : ℕ}
  {patch : AccountPatch} {rows rows' : List AccountRecord} {r row : AccountRecord}

@[simp] theorem AccountCreateData.row_id : (data.row id now).id = id := rfl

@[simp] theorem AccountAssign.apply_id (x : AccountAssign) : (x.apply r).id = r.id := by
  cases x <;> rfl

theorem AccountRecord.patched_field {β : Type} {field : AccountRecord → β}
    (hu : ∀ r, field { r with updatedAt := now } = field r)
    (hp : ∀ x ∈ patch, ∀ r : AccountRecord, field (x.apply r) = field r) :
    field (r.patched patch now) = field r := by
  rw [patched, hu]
  induction patch generalizing r with
  | nil => rfl
  | cons x patch ih =>
    rw [List.foldl_cons, ih fun y hy => hp y (List.mem_cons_of_mem x hy)]
    exact hp x List.mem_cons_self r

@[simp] theorem AccountRecord.patched_id : (r.patched patch now).id = r.id :=
  @patched_field now patch r _ AccountRecord.id (fun _ => rfl) fun x _ _ => x.apply_id

/-- `mk` is the assignment of `field`. -/
structure AccountAssign.Assigns {β : Type} (field : AccountRecord → β) (mk : β → AccountAssign) :
    Prop where
  assigned : ∀ v r, field ((mk v).apply r) = v
  kept : ∀ (x : AccountAssign) r, field (x.apply r) = field r ∨ x = mk (field (x.apply r))
  key : ∀ v w, (mk v).key = (mk w).key
  updatedAt : ∀ r now, field { r with updatedAt := now } = field r

namespace AccountAssign

theorem assigns_email : Assigns AccountRecord.email .email :=
  ⟨fun _ _ => rfl, fun x _ => by cases x <;> simp [apply], fun _ _ => rfl, fun _ _ => rfl⟩

theorem assigns_googleId : Assigns AccountRecord.googleId .googleId :=
  ⟨fun _ _ => rfl, fun x _ => by cases x <;> simp [apply], fun _ _ => rfl, fun _ _ => rfl⟩

theorem assigns_issuerDid : Assigns AccountRecord.issuerDid .issuerDid :=
  ⟨fun _ _ => rfl, fun x _ => by cases x <;> simp [apply], fun _ _ => rfl, fun _ _ => rfl⟩

theorem assigns_companyName : Assigns AccountRecord.companyName .companyName :=
  ⟨fun _ _ => rfl, fun x _ => by cases x <;> simp [apply], fun _ _ => rfl, fun _ _ => rfl⟩

theorem assigns_fieldOfOperation : Assigns AccountRecord.fieldOfOperation .fieldOfOperation :=
  ⟨fun _ _ => rfl, fun x _ => by cases x <;> simp [apply], fun _ _ => rfl, fun _ _ => rfl⟩

theorem assigns_createdAt : Assigns AccountRecord.createdAt .createdAt :=
  ⟨fun _ _ => rfl, fun x _ => by cases x <;> simp [apply], fun _ _ => rfl, fun _ _ => rfl⟩

namespace Assigns

variable {β : Type} {field : AccountRecord → β} {mk : β → AccountAssign} (h : Assigns field mk)

include h

theorem apply_eq {x : AccountAssign} (hx : ∀ v, mk v = x → v = field r) :
    field (x.apply r) = field r :=
  (h.kept x r).elim id fun he => hx _ he.symm

theorem patched_cases (r : AccountRecord) (patch : AccountPatch) (now : ℕ) :
    field (r.patched patch now) = field r ∨ mk (field (r.patched patch now)) ∈ patch := by
  rw [AccountRecord.patched, h.updatedAt]
  induction patch generalizing r with
  | nil => exact .inl rfl
  | cons x patch ih =>
    rw [List.foldl_cons]
    rcases ih (x.apply r) with hfield | hmem
    · rw [hfield]
      exact (h.kept x r).imp_right fun hx => by rw [← hx]; exact List.mem_cons_self
    · exact .inr (List.mem_cons_of_mem x hmem)

theorem patched_of_mem (hd : (patch.map AccountAssign.key).Nodup) {v : β} (hv : mk v ∈ patch)
    (r : AccountRecord) (now : ℕ) : field (r.patched patch now) = v := by
  induction patch generalizing r with
  | nil => simp at hv
  | cons x patch ih =>
    have hstep : r.patched (x :: patch) now = (x.apply r).patched patch now := rfl
    rw [List.map_cons, List.nodup_cons] at hd
    rw [hstep]
    rcases List.mem_cons.1 hv with rfl | hv
    · -- the key is used up, so the rest of the patch keeps the field
      rcases h.patched_cases ((mk v).apply r) patch now with hfield | hmem
      · rw [hfield, h.assigned]
      · exact absurd (List.mem_map.2 ⟨_, hmem, h.key _ v⟩) hd.1
    · exact ih hd.2 hv _

/-- A field that has another value is patched to `v` by assigning it. -/
theorem patched_eq_iff (hd : (patch.map AccountAssign.key).Nodup) {v : β} (hne : field r ≠ v)
    (now : ℕ) : field (r.patched patch now) = v ↔ mk v ∈ patch := by
  refine ⟨fun hv => ?_, fun hv => h.patched_of_mem hd hv r now⟩
  rcases h.patched_cases r patch now with hold | hmem
  · exact absurd (hold.symm.trans hv) hne
  · rwa [hv] at hmem

end Assigns

end AccountAssign

namespace Accounts

theorem create_ok (hf : kind.hasUniqueIndexes = true ∨ ∀ r ∈ rows, r.id ≠ id)
    (h : create kind data id now rows = (.ok row, rows')) :
    row = data.row id now ∧ rows' = rows ++ [row] ∧ ∀ r ∈ rows, r.id ≠ id := by
  simp only [create] at h
  split_ifs at h with hk hany hany
  · cases h
  · cases h
    refine ⟨rfl, rfl, fun r hr hid => hany (List.any_eq_true.2 ⟨r, hr, ?_⟩)⟩
    simp [AccountRecord.conflicts, hid]
  · obtain ⟨r, hr, hid⟩ := List.any_eq_true.1 hany
    exact absurd (by simpa using hid) (hf.resolve_left hk r hr)
  · cases h
    exact ⟨rfl, rfl, hf.resolve_left hk⟩

theorem create_row (h : create kind data id now rows = (.ok row, rows')) :
    row = data.row id now := by
  simp only [create] at h
  split_ifs at h <;> cases h <;> rfl

/-- One row under `update`. -/
def updateRow (id : String) (patch : AccountPatch) (now : ℕ) (r : AccountRecord) : AccountRecord :=
  if r.id == id then r.patched patch now else r

@[simp] theorem updateRow_id : (updateRow id patch now r).id = r.id := by
  unfold updateRow
  split_ifs <;> simp

theorem update_ok (hd : (rows.map (·.id)).Nodup)
    (h : update kind id patch now rows = (.ok row, rows')) :
    (∃ r ∈ rows, r.id = id ∧ row = r.patched patch now) ∧
      rows' = rows.map (updateRow id patch now) := by
  simp only [update] at h
  split at h
  · cases h
  · rename_i r hr
    have hmem := List.mem_of_find?_eq_some hr
    have hid : r.id = id := by simpa using List.find?_some hr
    split_ifs at h <;> cases h
    refine ⟨⟨r, hmem, hid, rfl⟩, List.map_congr_left fun r' hr' => ?_⟩
    unfold updateRow
    split_ifs with he
    · have heq : r'.id = r.id := by rw [hid]; simpa using he
      rw [List.inj_on_of_nodup_map hd hr' hmem heq]
    · rfl

theorem update_found (h : update kind id patch now rows = (.ok row, rows')) :
    ∃ r ∈ rows, r.id = id ∧ row = r.patched patch now := by
  simp only [update] at h
  split at h
  · cases h
  · rename_i r hr
    split_ifs at h <;> cases h
    exact ⟨r, List.mem_of_find?_eq_some hr, by simpa using List.find?_some hr, rfl⟩

theorem update_id (h : update kind id patch now rows = (.ok row, rows')) : row.id = id := by
  obtain ⟨r, -, hid, rfl⟩ := update_found h
  rw [AccountRecord.patched_id, hid]

/-! ### Unique indexes -/

theorem conflicts_comm (r r' : AccountRecord) : r.conflicts r' = r'.conflicts r := by
  have hset : ∀ a b : Option String, sameSet a b = sameSet b a := by
    intro a b
    by_cases h : a = b
    · rw [h]
    · rw [sameSet, sameSet, beq_false_of_ne h, beq_false_of_ne (Ne.symm h), Bool.and_false,
        Bool.and_false]
  simp only [AccountRecord.conflicts, hset r.googleId, hset r.issuerDid, Bool.beq_comm]

/-- Different rows break no unique index. -/
def Unique (rows : List AccountRecord) : Prop :=
  ∀ r ∈ rows, ∀ r' ∈ rows, r.conflicts r' = true → r.id = r'.id

theorem create_of_free (hk : kind.hasUniqueIndexes = true)
    (h : ∀ r ∈ rows, (data.row id now).conflicts r = false) :
    create kind data id now rows = (.ok (data.row id now), rows ++ [data.row id now]) := by
  have hany : rows.any (data.row id now).conflicts = false := by simpa using h
  simp [create, hk, hany]

theorem update_of_free (hd : (rows.map (·.id)).Nodup) (hr : r ∈ rows)
    (h : ∀ r' ∈ rows, r'.id ≠ r.id → (r.patched patch now).conflicts r' = false) :
    (update kind r.id patch now rows).1 = .ok (r.patched patch now) := by
  have hfind : rows.find? (·.id == r.id) = some r := by
    cases hf : rows.find? (·.id == r.id) with
    | none => exact absurd (beq_self_eq_true r.id) (List.find?_eq_none.1 hf r hr)
    | some r' =>
      have hid : r'.id = r.id := by simpa using List.find?_some hf
      rw [List.inj_on_of_nodup_map hd (List.mem_of_find?_eq_some hf) hr hid]
  have hany : (rows.filter (·.id != r.id)).any (r.patched patch now).conflicts = false := by
    simpa using h
  simp [update, hfind, hany]

theorem Unique.create (hu : Unique rows) (hk : kind.hasUniqueIndexes = true) :
    Unique (create kind data id now rows).2 := by
  simp only [Accounts.create, hk, if_true]
  split_ifs with hany
  · exact hu
  · have hfree : ∀ r ∈ rows, (data.row id now).conflicts r = false := by simpa using hany
    intro r hr r' hr' hc
    rcases List.mem_append.1 hr with hr | hr <;> rcases List.mem_append.1 hr' with hr' | hr'
    · exact hu r hr r' hr' hc
    · obtain rfl := List.mem_singleton.1 hr'
      rw [conflicts_comm, hfree r hr] at hc; cases hc
    · obtain rfl := List.mem_singleton.1 hr
      rw [hfree r' hr'] at hc; cases hc
    · rw [List.mem_singleton.1 hr, List.mem_singleton.1 hr']

theorem Unique.update (hu : Unique rows) (hk : kind.hasUniqueIndexes = true) :
    Unique (update kind id patch now rows).2 := by
  unfold Accounts.update
  split
  · exact hu
  · rename_i r₀ hr₀
    have hid₀ : r₀.id = id := by simpa using List.find?_some hr₀
    simp only [hk, Bool.true_and]
    split_ifs with hany
    · exact hu
    · have hfree : ∀ r ∈ rows, r.id ≠ id → (r₀.patched patch now).conflicts r = false := by
        simpa using hany
      have hrow : ∀ r ∈ rows, (if (r.id == id) = true then r₀.patched patch now else r).id =
          r.id := by
        intro r _
        split_ifs with h
        · rw [AccountRecord.patched_id, hid₀]; exact (eq_of_beq h).symm
        · rfl
      rintro _ hr _ hr' hc
      obtain ⟨r, hmem, rfl⟩ := List.mem_map.1 hr
      obtain ⟨r', hmem', rfl⟩ := List.mem_map.1 hr'
      rw [hrow r hmem, hrow r' hmem']
      by_contra hne
      split_ifs at hc with h h' h'
      · exact hne ((eq_of_beq h).trans (eq_of_beq h').symm)
      · rw [hfree r' hmem' (by simpa using h')] at hc; cases hc
      · rw [conflicts_comm, hfree r hmem (by simpa using h)] at hc; cases hc
      · exact hne (hu r hmem r' hmem' hc)

end Accounts

theorem AccountOp.exec_unique {o : AccountOp} (hk : kind.hasUniqueIndexes = true)
    (hu : Accounts.Unique rows) : Accounts.Unique (o.exec kind id now rows).2 := by
  cases o with
  | create data => exact hu.create hk
  | update id patch => exact hu.update hk
  | _ => exact hu

theorem AccountOp.exec_ids {o : AccountOp} (h : r ∈ (o.exec kind id now rows).2) :
    r.id = id ∨ ∃ r₀ ∈ rows, r₀.id = r.id := by
  have hold : ∀ {r}, r ∈ rows → r.id = id ∨ ∃ r₀ ∈ rows, r₀.id = r.id := fun hr => .inr ⟨_, hr, rfl⟩
  cases o with
  | create data =>
    simp only [exec, Accounts.create] at h
    split_ifs at h
    · exact hold h
    · rcases List.mem_append.1 h with h | h
      · exact hold h
      · obtain rfl := List.mem_singleton.1 h
        exact .inl rfl
    · obtain ⟨r₁, hr₁, rfl⟩ := List.mem_map.1 h
      split_ifs
      · exact .inl rfl
      · exact hold hr₁
    · rcases List.mem_append.1 h with h | h
      · exact hold h
      · obtain rfl := List.mem_singleton.1 h
        exact .inl rfl
  | update id' patch =>
    simp only [exec, Accounts.update] at h
    split at h
    · exact hold h
    · rename_i r₀ hr₀
      split_ifs at h
      · exact hold h
      · obtain ⟨r₁, hr₁, rfl⟩ := List.mem_map.1 h
        split_ifs
        · exact .inr ⟨r₀, List.mem_of_find?_eq_some hr₀, AccountRecord.patched_id.symm⟩
        · exact hold hr₁
  | _ => exact hold h

end

end HelixServer
