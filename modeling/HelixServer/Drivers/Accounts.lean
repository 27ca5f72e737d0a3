import HelixServer.Drivers.Storage
import HelixServer.Repositories.Account
import HelixServer.Store.Impl

/-!
# The drivers of the account repository

`repositories/drivers/account.drivers.ts`: a map keyed by the id, an SQLite table whose `UPDATE`
names six columns, and a Postgres table whose `UPDATE` names every key of the patch.  They give the
same answers to exactly the sequences of calls that are harmless (`accounts_interchangeable_iff`).

## Main definitions

* `AccountCall` : a call with the id that `makeId` generates in it and the time.
* `memoryAccounts`, `sqliteAccounts`, `prismaAccounts` : the drivers.
* `accountRepository kind` : the repository that the auth service is modelled on.
* `AccountCall.Harmless` : the calls that no driver answers in its own way.
-/

namespace HelixServer

namespace Drivers

open Store

/-- A call of an account driver: the id that `makeId` generates in it, and the time. -/
structure AccountCall where
  op : AccountOp
  id : String
  now : ℕ
  distinctKeys : op.DistinctKeys := by trivial

/-- What a call answers, `none` if it fails. -/
abbrev AccountCall.Answer (c : AccountCall) : Type := Option c.op.Res

/-- The repository over a list of rows. -/
def accountRepository (kind : StorageDriverKind) : Impl AccountCall AccountCall.Answer where
  State := List AccountRecord
  exec c rows :=
    let x := c.op.exec kind c.id c.now rows
    (x.1.toOption, x.2)

/-! ### In memory -/

/-- `InMemoryAccountStorageDriver`: `rows`. -/
def memoryAccounts : Impl AccountCall AccountCall.Answer where
  State := List (String × AccountRecord)
  exec
    | ⟨.create data, id, now, _⟩, rows =>
      (some (data.row id now), JsMap.set id (data.row id now) rows)
    | ⟨.findById id, _, _, _⟩, rows => (some (JsMap.get id rows), rows)
    | ⟨.findByEmail email, _, _, _⟩, rows =>
      (some ((JsMap.values rows).find? (·.email == email)), rows)
    | ⟨.findByGoogleId googleId, _, _, _⟩, rows =>
      (some ((JsMap.values rows).find? (·.googleId == some googleId)), rows)
    | ⟨.findByEmailVerificationTokenHash tokenHash, _, _, _⟩, rows =>
      (some ((JsMap.values rows).find? (·.emailVerificationTokenHash == some tokenHash)), rows)
    | ⟨.update id patch, _, now, _⟩, rows =>
      match JsMap.get id rows with
      | none => (none, rows)
      | some record =>
        (some (record.patched patch now), JsMap.set id (record.patched patch now) rows)

/-- The map holds the rows. -/
def HoldsAccounts (rows : List AccountRecord) (m : List (String × AccountRecord)) : Prop :=
  JsMap.KeyedBy AccountRecord.id m ∧ JsMap.values m = rows

/-- **The in-memory driver refines the repository.** -/
theorem memoryAccounts_refines :
    Simulates (accountRepository .memory) memoryAccounts HoldsAccounts fun _ _ => True := by
  constructor
  · rintro _ (m : List (String × AccountRecord)) ⟨op, id, now, _⟩ ⟨hkey, rfl⟩ -
    cases op with
    | create data =>
      simp only [memoryAccounts, accountRepository, AccountOp.exec, Accounts.create]
      simp only [StorageDriverKind.hasUniqueIndexes, Bool.false_eq_true, if_false]
      split_ifs <;> rfl
    | findById id' => exact congrArg some (JsMap.get_eq_find? hkey)
    | update id' patch =>
      simp only [memoryAccounts, accountRepository, AccountOp.exec, Accounts.update,
        JsMap.get_eq_find? hkey]
      cases (JsMap.values m).find? (·.id == id') <;> rfl
    | _ => rfl
  · rintro _ (m : List (String × AccountRecord)) ⟨op, id, now, _⟩ ⟨hkey, rfl⟩ -
    cases op with
    | create data =>
      refine ⟨JsMap.keyedBy_set hkey rfl, ?_⟩
      simp only [memoryAccounts, accountRepository, AccountOp.exec, Accounts.create]
      simp only [StorageDriverKind.hasUniqueIndexes, Bool.false_eq_true, if_false]
      rw [JsMap.values_set hkey]
      split_ifs <;> rfl
    | update id' patch =>
      simp only [memoryAccounts, accountRepository, AccountOp.exec, Accounts.update,
        JsMap.get_eq_find? hkey]
      cases hr : (JsMap.values m).find? (·.id == id') with
      | none => exact ⟨hkey, rfl⟩
      | some r =>
        have hid : r.id = id' := by simpa using List.find?_some hr
        have hany : ((JsMap.values m).any fun r => r.id == id') = true :=
          List.any_eq_true.2 ⟨r, List.mem_of_find?_eq_some hr, by simp [hid]⟩
        refine ⟨JsMap.keyedBy_set hkey (by simp [hid]), ?_⟩
        rw [JsMap.values_set hkey, if_pos hany]
        rfl
    | _ => exact ⟨hkey, rfl⟩

/-! ### The unique indexes -/

/-- No two rows break a unique index of the SQL schemas. -/
def Unique (rows : List AccountRecord) : Prop :=
  ∀ r ∈ rows, ∀ r' ∈ rows, r.conflicts r' = true → r = r'

/-- `create` breaks no index, and neither does `update`. -/
def AccountCall.NoClash (rows : List AccountRecord) (c : AccountCall) : Prop :=
  match c.op with
  | .create data => ∀ r ∈ rows,
      r.id ≠ c.id ∧ r.email ≠ data.email ∧ (r.googleId.isSome → r.googleId ≠ data.googleId)
  | .update id patch => (∃ r ∈ rows, r.id = id) → ∀ r' ∈ rows, r'.id ≠ id →
      .email r'.email ∉ patch ∧ (r'.googleId.isSome → .googleId r'.googleId ∉ patch) ∧
        (r'.issuerDid.isSome → .issuerDid r'.issuerDid ∉ patch)
  | _ => True

section

variable {r r' : AccountRecord} {rows : List AccountRecord}

theorem sameSet_iff {a b : Option String} : sameSet a b = true ↔ b.isSome ∧ a = b := by
  simp only [sameSet, Bool.and_eq_true, beq_iff_eq]
  constructor
  · rintro ⟨ha, hab⟩
    exact ⟨hab ▸ ha, hab⟩
  · rintro ⟨hb, hab⟩
    exact ⟨hab ▸ hb, hab⟩

theorem conflicts_iff : r.conflicts r' = true ↔ r.id = r'.id ∨ r.email = r'.email ∨
    (r'.googleId.isSome ∧ r.googleId = r'.googleId) ∨
      (r'.issuerDid.isSome ∧ r.issuerDid = r'.issuerDid) := by
  simp only [AccountRecord.conflicts, Bool.or_eq_true, beq_iff_eq, sameSet_iff, or_assoc]

theorem conflicts_symm (h : r.conflicts r' = true) : r'.conflicts r = true := by
  rw [conflicts_iff] at h ⊢
  rcases h with h | h | ⟨hs, h⟩ | ⟨hs, h⟩
  · exact .inl h.symm
  · exact .inr (.inl h.symm)
  · exact .inr (.inr (.inl ⟨h ▸ hs, h.symm⟩))
  · exact .inr (.inr (.inr ⟨h ▸ hs, h.symm⟩))

theorem conflicts_create {data : AccountCreateData} {id : String} {now : ℕ} :
    (data.row id now).conflicts r = true ↔
      ¬(r.id ≠ id ∧ r.email ≠ data.email ∧ (r.googleId.isSome → r.googleId ≠ data.googleId)) := by
  have hdid : ¬(r.issuerDid.isSome ∧ (data.row id now).issuerDid = r.issuerDid) := by
    rintro ⟨hs, h⟩
    rw [← h] at hs
    cases hs
  rw [conflicts_iff, or_iff_left hdid]
  simp only [AccountCreateData.row, eq_comm (a := id), eq_comm (a := data.email),
    eq_comm (a := data.googleId), not_and_or, Classical.not_imp, not_not, ne_eq]

theorem conflicts_update {patch : AccountPatch} {now : ℕ}
    (hd : (patch.map AccountAssign.key).Nodup) (h : r.conflicts r' = false) :
    (r.patched patch now).conflicts r' = true ↔
      ¬(.email r'.email ∉ patch ∧ (r'.googleId.isSome → .googleId r'.googleId ∉ patch) ∧
        (r'.issuerDid.isSome → .issuerDid r'.issuerDid ∉ patch)) := by
  have hne := conflicts_iff.not.1 (Bool.eq_false_iff.1 h)
  simp only [not_or, not_and] at hne
  obtain ⟨hid, hemail, hgoogle, hissuer⟩ := hne
  have hemail := AccountAssign.assigns_email.patched_eq_iff hd hemail now
  have hgoogle := fun hs => AccountAssign.assigns_googleId.patched_eq_iff hd (hgoogle hs) now
  have hissuer := fun hs => AccountAssign.assigns_issuerDid.patched_eq_iff hd (hissuer hs) now
  rw [conflicts_iff, AccountRecord.patched_id, or_iff_right hid, hemail,
    and_congr_right hgoogle, and_congr_right hissuer]
  simp only [not_and_or, Classical.not_imp, not_not]

theorem Unique.conflicts_eq_false (h : Unique rows) (hr : r ∈ rows) (hr' : r' ∈ rows)
    (hne : r.id ≠ r'.id) : r.conflicts r' = false :=
  Bool.eq_false_iff.2 fun hc => hne (congrArg AccountRecord.id (h r hr r' hr' hc))

/-- The unique indexes are kept by the calls that the SQL schemas accept. -/
theorem Unique.exec {kind : StorageDriverKind} (hk : kind.hasUniqueIndexes = true)
    (h : Unique rows) (c : AccountCall) : Unique (c.op.exec kind c.id c.now rows).2 := by
  obtain ⟨op, id, now, -⟩ := c
  cases op with
  | create data =>
    simp only [AccountOp.exec, Accounts.create, hk, if_true]
    split_ifs with hany
    · exact h
    · simp only [List.any_eq_true, not_exists, not_and] at hany
      simp only [Unique, List.mem_append, List.mem_singleton]
      rintro r (hr | rfl) r' (hr' | rfl) hc
      · exact h r hr r' hr' hc
      · exact absurd (conflicts_symm hc) (hany r hr)
      · exact absurd hc (hany r' hr')
      · rfl
  | update id' patch =>
    simp only [AccountOp.exec, Accounts.update, hk, Bool.true_and]
    cases hfind : rows.find? (·.id == id') with
    | none => exact h
    | some r₀ =>
      dsimp only
      split_ifs with hany
      · exact h
      · simp only [List.any_eq_true, List.mem_filter, bne_iff_ne, not_exists, not_and, and_imp]
          at hany
        simp only [Unique, List.mem_map]
        rintro _ ⟨r, hr, rfl⟩ _ ⟨r', hr', rfl⟩
        split_ifs with hid hid'
        · exact fun _ => rfl
        · exact fun hc => absurd hc (hany r' hr' (by simpa using hid'))
        · exact fun hc => absurd (conflicts_symm hc) (hany r hr (by simpa using hid))
        · exact h r hr r' hr'
  | _ => exact h

/-- A call that breaks no index does the same in the repositories of all kinds. -/
theorem AccountCall.NoClash.exec {kind : StorageDriverKind} (h : Unique rows) {c : AccountCall}
    (hc : c.NoClash rows) :
    c.op.exec kind c.id c.now rows = c.op.exec .postgres c.id c.now rows := by
  obtain ⟨op, id, now, hd⟩ := c
  cases op with
  | create data =>
    have hclash : ∀ r ∈ rows, (data.row id now).conflicts r = false := fun r hr =>
      Bool.eq_false_iff.2 fun hr' => conflicts_create.1 hr' (hc r hr)
    have hconflicts : rows.any (data.row id now).conflicts = false :=
      List.any_eq_false.2 fun r hr => by simp [hclash r hr]
    have hid : (rows.any fun r => r.id == id) = false :=
      List.any_eq_false.2 fun r hr => by simpa using (hc r hr).1
    simp only [AccountOp.exec, Accounts.create, hconflicts, hid, Bool.false_eq_true, if_false,
      ite_self]
    rfl
  | update id' patch =>
    simp only [AccountOp.exec, Accounts.update]
    cases hfind : rows.find? (·.id == id') with
    | none => rfl
    | some r =>
      have hr := List.mem_of_find?_eq_some hfind
      have hid : r.id = id' := by simpa using List.find?_some hfind
      have hconflicts : (rows.filter (·.id != id')).any (r.patched patch now).conflicts =
          false := by
        refine List.any_eq_false.2 fun r' hr' => ?_
        obtain ⟨hr', hid'⟩ := List.mem_filter.1 hr'
        have hid' : r'.id ≠ id' := by simpa using hid'
        have hr'₀ := h.conflicts_eq_false hr hr' fun he => hid' (he ▸ hid)
        rw [conflicts_update hd hr'₀, not_not]
        exact hc ⟨r, hr, hid⟩ r' hr' hid'
      simp only [hconflicts, Bool.and_false, Bool.false_eq_true, if_false]
      rfl
  | _ => rfl

end

/-- Calls that break no index get the same answers from the repositories of all kinds. -/
theorem accountRepository_same (kind : StorageDriverKind) :
    Simulates (accountRepository .memory) (accountRepository kind)
      (fun rows rows' => rows' = rows ∧ Unique rows) fun rows c => c.NoClash rows := by
  have hsame : ∀ {rows : List AccountRecord} {c : AccountCall}, Unique rows → c.NoClash rows →
      c.op.exec kind c.id c.now rows = c.op.exec .memory c.id c.now rows := fun h hc =>
    (hc.exec h).trans (hc.exec h).symm
  constructor
  · rintro (rows : List AccountRecord) _ c ⟨rfl, h⟩ hc
    simp only [accountRepository, hsame h hc]
  · rintro (rows : List AccountRecord) _ c ⟨rfl, h⟩ hc
    refine ⟨by simp only [accountRepository, hsame h hc], ?_⟩
    simp only [accountRepository, hc.exec h]
    exact h.exec rfl c

/-! ### Postgres -/

/-- At most one account has the token hash that is looked up: it has no unique index. -/
def AccountCall.OneHolder (rows : List AccountRecord) (c : AccountCall) : Prop :=
  match c.op with
  | .findByEmailVerificationTokenHash tokenHash => ∀ r ∈ rows, ∀ r' ∈ rows,
      r.emailVerificationTokenHash = some tokenHash →
        r'.emailVerificationTokenHash = some tokenHash → r = r'
  | _ => True

/-- `PrismaAccountStorageDriver` on its raw-SQL path. -/
def prismaAccounts (e : Engine AccountRecord) : Impl AccountCall AccountCall.Answer where
  State := List AccountRecord
  exec
    | ⟨.create data, id, now, _⟩, table =>
      if table.any (data.row id now).conflicts then (none, table)
      else (some (data.row id now), table ++ [data.row id now])
    | ⟨.findById id, _, _, _⟩, table => (some (e.select (·.id == id) table), table)
    | ⟨.findByEmail email, _, _, _⟩, table => (some (e.select (·.email == email) table), table)
    | ⟨.findByGoogleId googleId, _, _, _⟩, table =>
      (some (e.select (·.googleId == some googleId) table), table)
    | ⟨.findByEmailVerificationTokenHash tokenHash, _, _, _⟩, table =>
      (some (e.select (·.emailVerificationTokenHash == some tokenHash) table), table)
    | ⟨.update id patch, _, now, _⟩, table =>
      -- one `SET` clause for each key of the patch, and one for `updatedAt`
      match e.select (·.id == id) table with
      | none => (none, table)
      | some r =>
        let row := r.patched patch now
        if (table.filter (·.id != id)).any row.conflicts then (none, table)
        else (some row, table.map fun r' => if r'.id == id then row else r')

section

variable {rows : List AccountRecord} {p : AccountRecord → Bool}

theorem Unique.select (h : Unique rows) (e : Engine AccountRecord)
    (hp : ∀ r r', p r = true → p r' = true → r.conflicts r' = true) :
    e.select p rows = rows.find? p :=
  e.select_of_unique fun r hr r' hr' hr₁ hr₂ => h r hr r' hr' (hp r r' hr₁ hr₂)

theorem conflicts_of_id {id : String} {r r' : AccountRecord} (h : (r.id == id) = true)
    (h' : (r'.id == id) = true) : r.conflicts r' = true :=
  conflicts_iff.2 (.inl ((eq_of_beq h).trans (eq_of_beq h').symm))

theorem conflicts_of_email {email : String} {r r' : AccountRecord} (h : (r.email == email) = true)
    (h' : (r'.email == email) = true) : r.conflicts r' = true :=
  conflicts_iff.2 (.inr (.inl ((eq_of_beq h).trans (eq_of_beq h').symm)))

theorem conflicts_of_googleId {googleId : String} {r r' : AccountRecord}
    (h : (r.googleId == some googleId) = true) (h' : (r'.googleId == some googleId) = true) :
    r.conflicts r' = true := by
  refine conflicts_iff.2 (.inr (.inr (.inl ⟨?_, (eq_of_beq h).trans (eq_of_beq h').symm⟩)))
  rw [eq_of_beq h']
  rfl

/-- **The Postgres driver refines the repository.** -/
theorem prismaAccounts_refines (e : Engine AccountRecord) :
    Simulates (accountRepository .postgres) (prismaAccounts e)
      (fun rows table => table = rows ∧ Unique rows) fun rows c => c.OneHolder rows := by
  have hexec : ∀ {rows : List AccountRecord} {c : AccountCall}, Unique rows → c.OneHolder rows →
      (prismaAccounts e).exec c rows = (accountRepository .postgres).exec c rows := by
    rintro rows ⟨op, id, now, _⟩ h hone
    cases op with
    | create data =>
      simp only [prismaAccounts, accountRepository, AccountOp.exec, Accounts.create]
      simp only [StorageDriverKind.hasUniqueIndexes, if_true]
      split_ifs <;> rfl
    | findById id' => simp only [prismaAccounts, h.select e fun _ _ => conflicts_of_id]; rfl
    | findByEmail email => simp only [prismaAccounts, h.select e fun _ _ => conflicts_of_email]; rfl
    | findByGoogleId googleId =>
      simp only [prismaAccounts, h.select e fun _ _ => conflicts_of_googleId]; rfl
    | findByEmailVerificationTokenHash tokenHash =>
      have hselect := e.select_of_unique fun r hr r' hr' hp hp' =>
        hone r hr r' hr' (eq_of_beq hp) (eq_of_beq hp')
      simp only [prismaAccounts, hselect]; rfl
    | update id' patch =>
      simp only [prismaAccounts, accountRepository, AccountOp.exec, Accounts.update,
        h.select e fun _ _ => conflicts_of_id]
      cases rows.find? (·.id == id') with
      | none => rfl
      | some r =>
        simp only [StorageDriverKind.hasUniqueIndexes, Bool.true_and]
        split_ifs <;> rfl
  constructor
  · rintro (rows : List AccountRecord) _ c ⟨rfl, h⟩ hone
    rw [hexec h hone]
  · rintro (rows : List AccountRecord) _ c ⟨rfl, h⟩ hone
    exact ⟨by rw [hexec h hone], h.exec rfl c⟩

end

/-! ### SQLite -/

/-- A row of the SQLite table. -/
structure SqliteAccountRow where
  id : String
  email : String
  passwordHash : Option String
  googleId : Option String
  issuerDid : Option String
  companyName : Option String
  fieldOfOperation : Option String
  emailVerifiedAt : Option String
  emailVerificationTokenHash : Option String
  emailVerificationExpiresAt : Option String
  createdAt : String
  updatedAt : String

/-- The two rows break a unique index. -/
def SqliteAccountRow.conflicts (r r' : SqliteAccountRow) : Bool :=
  r.id == r'.id || r.email == r'.email || sameSet r.googleId r'.googleId ||
    sameSet r.issuerDid r'.issuerDid

section Sqlite

variable (D : DateText)

/-- `fromSqliteRow`. -/
def SqliteAccountRow.toRecord (row : SqliteAccountRow) : AccountRecord where
  id := row.id
  email := row.email
  passwordHash := row.passwordHash
  googleId := row.googleId
  issuerDid := row.issuerDid
  companyName := row.companyName
  fieldOfOperation := row.fieldOfOperation
  emailVerifiedAt := D.readNullable row.emailVerifiedAt
  emailVerificationTokenHash := row.emailVerificationTokenHash
  emailVerificationExpiresAt := D.readNullable row.emailVerificationExpiresAt
  createdAt := D.read row.createdAt
  updatedAt := D.read row.updatedAt

/-- The `SET` clause of a key of the patch; four keys have none. -/
def SqliteAccountRow.setClause (row : SqliteAccountRow) : AccountAssign → SqliteAccountRow
  | .googleId v => { row with googleId := v }
  | .issuerDid v => { row with issuerDid := v }
  | .passwordHash v => { row with passwordHash := v }
  | .emailVerifiedAt v => { row with emailVerifiedAt := v.map D.write }
  | .emailVerificationTokenHash v => { row with emailVerificationTokenHash := v }
  | .emailVerificationExpiresAt v => { row with emailVerificationExpiresAt := v.map D.write }
  | .email _ => row
  | .companyName _ => row
  | .fieldOfOperation _ => row
  | .createdAt _ => row

/-- `UPDATE accounts SET …` on a row. -/
def SqliteAccountRow.set (row : SqliteAccountRow) (patch : AccountPatch) (now : ℕ) :
    SqliteAccountRow :=
  { patch.foldl (setClause D) row with updatedAt := D.write now }

/-- The row that holds a record. -/
def sqliteAccountRow (r : AccountRecord) : SqliteAccountRow where
  id := r.id
  email := r.email
  passwordHash := r.passwordHash
  googleId := r.googleId
  issuerDid := r.issuerDid
  companyName := r.companyName
  fieldOfOperation := r.fieldOfOperation
  emailVerifiedAt := r.emailVerifiedAt.map D.write
  emailVerificationTokenHash := r.emailVerificationTokenHash
  emailVerificationExpiresAt := r.emailVerificationExpiresAt.map D.write
  createdAt := D.write r.createdAt
  updatedAt := D.write r.updatedAt

/-- `SqliteAccountStorageDriver`. -/
def sqliteAccounts (e : Engine SqliteAccountRow) : Impl AccountCall AccountCall.Answer where
  State := List SqliteAccountRow
  exec
    | ⟨.create data, id, now, _⟩, table =>
      let row : SqliteAccountRow :=
        { id := id, email := data.email, passwordHash := data.passwordHash,
          googleId := data.googleId, issuerDid := none, companyName := data.companyName,
          fieldOfOperation := data.fieldOfOperation, emailVerifiedAt := none,
          emailVerificationTokenHash := none, emailVerificationExpiresAt := none,
          createdAt := D.write now, updatedAt := D.write now }
      if table.any row.conflicts then (none, table) else (some (data.row id now), table ++ [row])
    | ⟨.findById id, _, _, _⟩, table =>
      (some ((e.select (·.id == id) table).map (·.toRecord D)), table)
    | ⟨.findByEmail email, _, _, _⟩, table =>
      (some ((e.select (·.email == email) table).map (·.toRecord D)), table)
    | ⟨.findByGoogleId googleId, _, _, _⟩, table =>
      (some ((e.select (·.googleId == some googleId) table).map (·.toRecord D)), table)
    | ⟨.findByEmailVerificationTokenHash tokenHash, _, _, _⟩, table =>
      (some ((e.select (·.emailVerificationTokenHash == some tokenHash) table).map (·.toRecord D)),
        table)
    | ⟨.update id patch, _, now, _⟩, table =>
      let table' := table.map fun row => if row.id == id then row.set D patch now else row
      if table.any fun row =>
          row.id == id && (table.filter (·.id != id)).any (row.set D patch now).conflicts
      then (none, table)
      -- the row is read again, and its absence is the error
      else ((e.select (·.id == id) table').map (·.toRecord D), table')

@[simp] theorem toRecord_sqliteAccountRow (r : AccountRecord) :
    (sqliteAccountRow D r).toRecord D = r := by
  cases r
  simp [sqliteAccountRow, SqliteAccountRow.toRecord, D.read_write, D.readNullable_map]

/-- The patch assigns no new value to a column that the SQLite driver does not write. -/
structure KeepsUnwritten (patch : AccountPatch) (r : AccountRecord) : Prop where
  email : ∀ v, .email v ∈ patch → v = r.email
  companyName : ∀ v, .companyName v ∈ patch → v = r.companyName
  fieldOfOperation : ∀ v, .fieldOfOperation v ∈ patch → v = r.fieldOfOperation
  createdAt : ∀ v, .createdAt v ∈ patch → v = r.createdAt

/-- An update keeps the columns that the SQLite driver does not write. -/
def AccountCall.Stored (rows : List AccountRecord) (c : AccountCall) : Prop :=
  match c.op with
  | .update id patch => ∀ r ∈ rows, r.id = id → KeepsUnwritten patch r
  | _ => True

variable {D} {patch : AccountPatch} {r : AccountRecord} {now : ℕ}

theorem KeepsUnwritten.set (h : KeepsUnwritten patch r) :
    (sqliteAccountRow D r).set D patch now = sqliteAccountRow D (r.patched patch now) := by
  suffices hfold : patch.foldl (SqliteAccountRow.setClause D) (sqliteAccountRow D r) =
      sqliteAccountRow D (patch.foldl AccountAssign.apply r) by
    rw [SqliteAccountRow.set, hfold]
    rfl
  induction patch generalizing r with
  | nil => rfl
  | cons x patch ih =>
    -- an assignment without a clause does not change the record
    have hx : (sqliteAccountRow D r).setClause D x = sqliteAccountRow D (x.apply r) := by
      cases x with
      | email v => rw [h.email v List.mem_cons_self]; rfl
      | companyName v => rw [h.companyName v List.mem_cons_self]; rfl
      | fieldOfOperation v => rw [h.fieldOfOperation v List.mem_cons_self]; rfl
      | createdAt v => rw [h.createdAt v List.mem_cons_self]; rfl
      | _ => rfl
    have hnext : KeepsUnwritten patch (x.apply r) := by
      have hself : ∀ {y}, y = x → y ∈ x :: patch := fun hy => hy ▸ List.mem_cons_self
      have hrest : ∀ {y}, y ∈ patch → y ∈ x :: patch := List.mem_cons_of_mem x
      constructor <;> intro v hv
      · rw [AccountAssign.assigns_email.apply_eq fun v hv => h.email v (hself hv)]
        exact h.email v (hrest hv)
      · rw [AccountAssign.assigns_companyName.apply_eq fun v hv => h.companyName v (hself hv)]
        exact h.companyName v (hrest hv)
      · rw [AccountAssign.assigns_fieldOfOperation.apply_eq
          fun v hv => h.fieldOfOperation v (hself hv)]
        exact h.fieldOfOperation v (hrest hv)
      · rw [AccountAssign.assigns_createdAt.apply_eq fun v hv => h.createdAt v (hself hv)]
        exact h.createdAt v (hrest hv)
    rw [List.foldl_cons, List.foldl_cons, hx, ih hnext]

theorem set_unwritten (patch : AccountPatch) (now : ℕ) (row : SqliteAccountRow) :
    (row.set D patch now).email = row.email ∧ (row.set D patch now).companyName = row.companyName ∧
      (row.set D patch now).fieldOfOperation = row.fieldOfOperation ∧
      (row.set D patch now).createdAt = row.createdAt := by
  suffices hfold : (patch.foldl (SqliteAccountRow.setClause D) row).email = row.email ∧
      (patch.foldl (SqliteAccountRow.setClause D) row).companyName = row.companyName ∧
      (patch.foldl (SqliteAccountRow.setClause D) row).fieldOfOperation = row.fieldOfOperation ∧
      (patch.foldl (SqliteAccountRow.setClause D) row).createdAt = row.createdAt from hfold
  induction patch generalizing row with
  | nil => exact ⟨rfl, rfl, rfl, rfl⟩
  | cons x patch ih =>
    obtain ⟨hemail, hcompany, hfield, hcreated⟩ := ih (row.setClause D x)
    rw [List.foldl_cons, hemail, hcompany, hfield, hcreated]
    cases x <;> exact ⟨rfl, rfl, rfl, rfl⟩

/-- A patch that writes the patched record keeps the columns that are not written. -/
theorem keepsUnwritten_of_set (hd : (patch.map AccountAssign.key).Nodup)
    (h : ((sqliteAccountRow D r).set D patch now).toRecord D = r.patched patch now) :
    KeepsUnwritten patch r := by
  obtain ⟨hemail, hcompany, hfield, hcreated⟩ :=
    set_unwritten (D := D) patch now (sqliteAccountRow D r)
  constructor <;> intro v hv
  · rw [← AccountAssign.assigns_email.patched_of_mem hd hv r now, ← h]
    exact hemail
  · rw [← AccountAssign.assigns_companyName.patched_of_mem hd hv r now, ← h]
    exact hcompany
  · rw [← AccountAssign.assigns_fieldOfOperation.patched_of_mem hd hv r now, ← h]
    exact hfield
  · rw [← AccountAssign.assigns_createdAt.patched_of_mem hd hv r now, ← h]
    exact (congrArg D.read hcreated).trans (D.read_write r.createdAt)

variable {rows : List AccountRecord}

theorem any_conflicts (r : AccountRecord) :
    (rows.map (sqliteAccountRow D)).any (sqliteAccountRow D r).conflicts =
      rows.any r.conflicts := by
  rw [List.any_map]
  rfl

theorem filter_id (id : String) :
    (rows.map (sqliteAccountRow D)).filter (·.id != id) =
      (rows.filter (·.id != id)).map (sqliteAccountRow D) := by
  rw [List.filter_map]
  rfl

/-- The row of an existing account is updated as the repository updates the record. -/
theorem sqliteAccounts_update {id : String} (now : ℕ) (h : Unique rows)
    (hk : ∀ r ∈ rows, r.id = id → KeepsUnwritten patch r) (hr : r ∈ rows) (hid : r.id = id) :
    ((rows.map (sqliteAccountRow D)).any fun row => row.id == id &&
      ((rows.map (sqliteAccountRow D)).filter (·.id != id)).any (row.set D patch now).conflicts) =
        (rows.filter (·.id != id)).any (r.patched patch now).conflicts ∧
    (rows.map (sqliteAccountRow D)).map
        (fun row => if row.id == id then row.set D patch now else row) =
      (rows.map fun r' => if r'.id == id then r.patched patch now else r').map
        (sqliteAccountRow D) := by
  have hself : ∀ r' ∈ rows, r'.id = id → r' = r := fun r' hr' hid' =>
    h r' hr' r hr (conflicts_iff.2 (.inl (hid'.trans hid.symm)))
  constructor
  · rw [filter_id, List.any_map, Bool.eq_iff_iff, List.any_eq_true]
    constructor
    · rintro ⟨r', hr', hc⟩
      obtain ⟨hid', hc⟩ := Bool.and_eq_true_iff.1 hc
      obtain rfl := hself r' hr' (eq_of_beq hid')
      rwa [(hk _ hr hid).set, any_conflicts] at hc
    · refine fun hc => ⟨r, hr, Bool.and_eq_true_iff.2 ⟨by simp [sqliteAccountRow, hid], ?_⟩⟩
      rwa [(hk _ hr hid).set, any_conflicts]
  · simp only [List.map_map]
    refine List.map_congr_left fun r' hr' => ?_
    by_cases hid' : r'.id = id
    · obtain rfl := hself r' hr' hid'
      have hrow : (sqliteAccountRow D r').id = id := hid'
      simp only [Function.comp_apply, hrow, hid', beq_self_eq_true, if_true, (hk _ hr hid).set]
    · have hrow : (sqliteAccountRow D r').id ≠ id := hid'
      simp only [Function.comp_apply, beq_iff_eq, hrow, hid', if_false]

theorem sqliteAccounts_update_none {id : String} (patch : AccountPatch) (now : ℕ)
    (h : ∀ r ∈ rows, r.id ≠ id) :
    ((rows.map (sqliteAccountRow D)).any fun row => row.id == id &&
      ((rows.map (sqliteAccountRow D)).filter (·.id != id)).any (row.set D patch now).conflicts) =
        false ∧
    (rows.map (sqliteAccountRow D)).map
        (fun row => if row.id == id then row.set D patch now else row) =
      rows.map (sqliteAccountRow D) := by
  have hrow : ∀ r ∈ rows, ((sqliteAccountRow D r).id == id) = false := fun r hr =>
    beq_eq_false_iff_ne.2 (h r hr)
  constructor
  · rw [List.any_map, List.any_eq_false]
    intro r hr
    simp only [Function.comp_apply, hrow r hr, Bool.false_and, Bool.false_eq_true,
      not_false_eq_true]
  · rw [List.map_map]
    refine List.map_congr_left fun r hr => ?_
    simp only [Function.comp_apply, hrow r hr, Bool.false_eq_true, if_false]

theorem find?_update {id : String} (h : rows.find? (·.id == id) = some r) :
    ((rows.map fun r' => if r'.id == id then r.patched patch now else r').find? fun r' =>
      r'.id == id) = some (r.patched patch now) := by
  have hid : r.id = id := by simpa using List.find?_some h
  have hcomp : ((fun r' : AccountRecord => r'.id == id) ∘
      fun r' => if r'.id == id then r.patched patch now else r') = fun r' => r'.id == id := by
    funext r'
    by_cases hr' : r'.id = id <;> simp [hr', hid]
  rw [List.find?_map, hcomp, h]
  simp [hid]

/-- **The SQLite driver refines the repository**, for updates that keep the unwritten columns. -/
theorem sqliteAccounts_refines (e : Engine SqliteAccountRow) :
    Simulates (accountRepository .sqlite) (sqliteAccounts D e)
      (fun rows table => table = rows.map (sqliteAccountRow D) ∧ Unique rows)
      fun rows c => c.Stored rows ∧ c.OneHolder rows := by
  have hselect : ∀ {rows : List AccountRecord} {p : SqliteAccountRow → Bool}, Unique rows →
      (∀ r r', p (sqliteAccountRow D r) = true → p (sqliteAccountRow D r') = true →
        r.conflicts r' = true) →
      (e.select p (rows.map (sqliteAccountRow D))).map (·.toRecord D) =
        rows.find? fun r => p (sqliteAccountRow D r) := fun h hp =>
    e.select_map_of_unique (toRecord_sqliteAccountRow D) fun r hr r' hr' hpr hpr' =>
      h r hr r' hr' (hp r r' hpr hpr')
  have hexec : ∀ {rows : List AccountRecord} {c : AccountCall}, Unique rows → c.Stored rows →
      c.OneHolder rows → (sqliteAccounts D e).exec c (rows.map (sqliteAccountRow D)) =
        (((accountRepository .sqlite).exec c rows).1,
          ((accountRepository .sqlite).exec c rows).2.map (sqliteAccountRow D)) := by
    rintro rows ⟨op, id, now, hd⟩ h hk hone
    cases op with
    | create data =>
      show (if (rows.map (sqliteAccountRow D)).any (sqliteAccountRow D (data.row id now)).conflicts
        then (none, rows.map (sqliteAccountRow D))
        else (some (data.row id now),
          rows.map (sqliteAccountRow D) ++ [sqliteAccountRow D (data.row id now)])) = _
      simp only [any_conflicts, accountRepository, AccountOp.exec, Accounts.create]
      simp only [StorageDriverKind.hasUniqueIndexes, if_true]
      split_ifs
      · rfl
      · rw [List.map_append]
        rfl
    | findById id' =>
      exact congrArg (·, _) (congrArg some (hselect h fun _ _ => conflicts_of_id))
    | findByEmail email =>
      exact congrArg (·, _) (congrArg some (hselect h fun _ _ => conflicts_of_email))
    | findByGoogleId googleId =>
      exact congrArg (·, _) (congrArg some (hselect h fun _ _ => conflicts_of_googleId))
    | findByEmailVerificationTokenHash tokenHash =>
      refine congrArg (·, _) (congrArg some (e.select_map_of_unique (toRecord_sqliteAccountRow D)
        fun r hr r' hr' hp hp' => hone r hr r' hr' (eq_of_beq hp) (eq_of_beq hp')))
    | update id' patch =>
      simp only [sqliteAccounts, accountRepository, AccountOp.exec, Accounts.update]
      simp only [StorageDriverKind.hasUniqueIndexes, Bool.true_and]
      cases hfind : rows.find? (·.id == id') with
      | none =>
        have hno : ∀ r ∈ rows, r.id ≠ id' :=
          fun r hr => by simpa using List.find?_eq_none.1 hfind r hr
        obtain ⟨hany, hmap⟩ := sqliteAccounts_update_none (D := D) patch now hno
        rw [hany, hmap]
        refine congrArg (·, _) ((hselect h fun _ _ => conflicts_of_id).trans hfind)
      | some r =>
        have hr := List.mem_of_find?_eq_some hfind
        have hid : r.id = id' := by simpa using List.find?_some hfind
        obtain ⟨hany, hmap⟩ := sqliteAccounts_update (D := D) now h hk hr hid
        rw [hany, hmap]
        dsimp only
        split_ifs with hconflicts
        · rfl
        · have hsqlite : StorageDriverKind.sqlite.hasUniqueIndexes = true := rfl
          have hunique := h.exec hsqlite ⟨.update id' patch, id, now, hd⟩
          simp only [AccountOp.exec, Accounts.update, hfind, hconflicts, Bool.and_false,
            Bool.false_eq_true, if_false] at hunique
          refine congrArg (·, _) ((hselect hunique fun _ _ => conflicts_of_id).trans ?_)
          exact find?_update hfind
  constructor
  · rintro (rows : List AccountRecord) _ c ⟨rfl, h⟩ ⟨hk, hone⟩
    rw [hexec h hk hone]
  · rintro (rows : List AccountRecord) _ c ⟨rfl, h⟩ ⟨hk, hone⟩
    exact ⟨by rw [hexec h hk hone], h.exec rfl c⟩

/-- An update that answers the patched record keeps the columns that are not written. -/
theorem stored_of_answer {e : Engine SqliteAccountRow} {id : String} (h : Unique rows)
    (hd : (patch.map AccountAssign.key).Nodup) (hr : r ∈ rows) (hid : r.id = id)
    (ha : ((e.select (·.id == id) ((rows.map (sqliteAccountRow D)).map fun row =>
      if row.id == id then row.set D patch now else row)).map (·.toRecord D)) =
        some (r.patched patch now)) : KeepsUnwritten patch r := by
  obtain ⟨x, hx, hrecord⟩ := Option.map_eq_some_iff.1 ha
  obtain ⟨hmem, hxid⟩ := e.mem_of_select hx
  simp only [List.map_map, List.mem_map, Function.comp_apply] at hmem
  obtain ⟨r', hr', rfl⟩ := hmem
  split_ifs at hxid hrecord with hid'
  · -- the row that is read again is the one that was updated
    obtain rfl : r' = r := h r' hr' r hr (conflicts_iff.2 (.inl ((eq_of_beq hid').trans hid.symm)))
    exact keepsUnwritten_of_set hd hrecord
  · exact absurd hxid hid'

end Sqlite

/-! ### The drivers together -/

/-- A call that no driver answers in its own way: a new account has an unused id, address and Google
id; an update gives no account the Google id or the issuer DID of another one, and leaves the
address, the company, the field of operation and the creation date as they are; a token hash is
looked up that at most one account has. -/
structure AccountCall.Harmless (rows : List AccountRecord) (c : AccountCall) : Prop where
  noClash : c.NoClash rows
  stored : c.Stored rows
  oneHolder : c.OneHolder rows

/-- The SQL drivers, on any engine. -/
def sqlAccounts (D : DateText) :
    Engine SqliteAccountRow ⊕ Engine AccountRecord → Impl AccountCall AccountCall.Answer
  | .inl e => sqliteAccounts D e
  | .inr e => prismaAccounts e

/-- What an SQL driver has stored for the rows. -/
def StoredAs (D : DateText) : (i : Engine SqliteAccountRow ⊕ Engine AccountRecord) →
    List AccountRecord → (sqlAccounts D i).State → Prop
  | .inl _, rows, table => table = rows.map (sqliteAccountRow D) ∧ Unique rows
  | .inr _, rows, table => table = rows ∧ Unique rows

theorem sqlAccounts_refines (D : DateText) (i : Engine SqliteAccountRow ⊕ Engine AccountRecord) :
    Simulates (accountRepository .memory) (sqlAccounts D i) (StoredAs D i)
      fun rows c => c.Harmless rows := by
  have hsame := fun kind => (accountRepository_same kind).mono
    fun rows c (hc : c.Harmless rows) => hc.noClash
  cases i with
  | inl e =>
    have h := (hsame .sqlite).trans (sqliteAccounts_refines (D := D) e) fun rows _ c hrows hc =>
      hrows.1 ▸ ⟨hc.stored, hc.oneHolder⟩
    exact ⟨fun rows t c ht hc => h.answer rows t c ⟨rows, ⟨rfl, ht.2⟩, ht⟩ hc,
      fun rows t c ht hc => by
        obtain ⟨_, ⟨rfl, -⟩, hnext⟩ := h.next rows t c ⟨rows, ⟨rfl, ht.2⟩, ht⟩ hc
        exact hnext⟩
  | inr e =>
    have h := (hsame .postgres).trans (prismaAccounts_refines e) fun rows _ c hrows hc =>
      hrows.1 ▸ hc.oneHolder
    exact ⟨fun rows t c ht hc => h.answer rows t c ⟨rows, ⟨rfl, ht.2⟩, ht⟩ hc,
      fun rows t c ht hc => by
        obtain ⟨_, ⟨rfl, -⟩, hnext⟩ := h.next rows t c ⟨rows, ⟨rfl, ht.2⟩, ht⟩ hc
        exact hnext⟩

/-- A call that all SQL drivers answer as the in-memory one does is harmless. -/
theorem harmless_of_answers {D : DateText} {rows : List AccountRecord} (h : Unique rows)
    {c : AccountCall}
    (hs : ∀ e, ((sqliteAccounts D e).exec c (rows.map (sqliteAccountRow D))).1 =
      ((accountRepository .memory).exec c rows).1)
    (hp : ∀ e, ((prismaAccounts e).exec c rows).1 = ((accountRepository .memory).exec c rows).1) :
    c.Harmless rows := by
  obtain ⟨op, id, now, hd⟩ := c
  cases op with
  | create data =>
    refine ⟨fun r hr => ?_, trivial, trivial⟩
    by_contra hclash
    have hany : rows.any (data.row id now).conflicts = true :=
      List.any_eq_true.2 ⟨r, hr, conflicts_create.2 hclash⟩
    -- in memory every create succeeds
    have hsome : ((accountRepository .memory).exec ⟨.create data, id, now, hd⟩ rows).1 =
        some (data.row id now) := by
      simp only [accountRepository, AccountOp.exec, Accounts.create]
      simp only [StorageDriverKind.hasUniqueIndexes, Bool.false_eq_true, if_false]
      split_ifs <;> rfl
    have hnone := hp .oldest
    rw [hsome] at hnone
    simp only [prismaAccounts, hany, if_true] at hnone
    cases hnone
  | update id' patch =>
    suffices hr : ∀ r ∈ rows, r.id = id' → KeepsUnwritten patch r ∧ ∀ r' ∈ rows, r'.id ≠ id' →
        (r.patched patch now).conflicts r' = false by
      refine ⟨?_, fun r hr₀ hid => (hr r hr₀ hid).1, trivial⟩
      rintro ⟨r, hr₀, hid⟩ r' hr' hid'
      have hold := h.conflicts_eq_false hr₀ hr' fun he => hid' (he ▸ hid)
      have hc := Bool.eq_false_iff.1 ((hr r hr₀ hid).2 r' hr' hid')
      exact not_not.1 fun hclash => hc ((conflicts_update hd hold).2 hclash)
    intro r hr hid
    have hfind : rows.find? (·.id == id') = some r := by
      rw [← h.select (.preferring r) fun _ _ => conflicts_of_id]
      exact Engine.select_preferring hr (by simp [hid])
    -- in memory the update succeeds
    have hsome : ((accountRepository .memory).exec ⟨.update id' patch, id, now, hd⟩ rows).1 =
        some (r.patched patch now) := by
      simp only [accountRepository, AccountOp.exec, Accounts.update, hfind]
      rfl
    constructor
    · have hsqlite := hs .oldest
      rw [hsome] at hsqlite
      simp only [sqliteAccounts] at hsqlite
      split_ifs at hsqlite
      exact stored_of_answer h hd hr hid hsqlite
    · intro r' hr' hid'
      by_contra hc
      have hany : (rows.filter (·.id != id')).any (r.patched patch now).conflicts = true :=
        List.any_eq_true.2 ⟨r', List.mem_filter.2 ⟨hr', by simpa using hid'⟩, by simpa using hc⟩
      have hnone := hp .oldest
      rw [hsome] at hnone
      simp only [prismaAccounts, h.select .oldest fun _ _ => conflicts_of_id, hfind, hany, if_true]
        at hnone
      cases hnone
  | findByEmailVerificationTokenHash tokenHash =>
    refine ⟨trivial, trivial, ?_⟩
    -- an engine may answer any of the accounts with the hash
    have hany : ∀ r ∈ rows, r.emailVerificationTokenHash = some tokenHash →
        rows.find? (·.emailVerificationTokenHash == some tokenHash) = some r := by
      intro r hr hhash
      have hr' := hp (.preferring r)
      have hpreferred : (Engine.preferring r).select
          (fun r => r.emailVerificationTokenHash == some tokenHash) rows = some r :=
        Engine.select_preferring hr (by simp [hhash])
      simp only [prismaAccounts, hpreferred] at hr'
      exact (Option.some.inj hr').symm
    exact fun r hr r' hr' hhash hhash' =>
      Option.some.inj ((hany r hr hhash).symm.trans (hany r' hr' hhash'))
  | _ => exact ⟨trivial, trivial, trivial⟩

/-- **The account drivers agree exactly on the harmless calls.**  For every sequence of calls, the
SQLite and the Postgres driver answer as the in-memory one does, whatever row their engines choose,
if and only if every call is harmless when it is made. -/
theorem accounts_interchangeable_iff (D : DateText) (cs : List AccountCall) :
    (∀ e e', (sqliteAccounts D e).answers cs [] = memoryAccounts.answers cs [] ∧
      (prismaAccounts e').answers cs [] = memoryAccounts.answers cs []) ↔
      (accountRepository .memory).Along (fun rows c => c.Harmless rows) cs [] := by
  have hunique : Unique [] := by simp [Unique]
  have hmemory : memoryAccounts.answers cs [] = (accountRepository .memory).answers cs [] :=
    memoryAccounts_refines.answers ⟨by simp [JsMap.KeyedBy], rfl⟩
      (Impl.along_of_all (fun _ _ => trivial) cs _)
  have hiff := answers_iff_along (t := fun i => match i with | .inl _ => [] | .inr _ => [])
    (sqlAccounts_refines D) ?_ (s := []) ?_ cs
  · rw [← hiff, hmemory]
    exact ⟨fun h i => match i with
        | .inl e => (h e .oldest).1
        | .inr e => (h .oldest e).2,
      fun h e e' => ⟨h (.inl e), h (.inr e')⟩⟩
  · intro rows c t hr ha
    have hs := fun e => hr (.inl e)
    have hp := fun e => hr (.inr e)
    refine harmless_of_answers (D := D) (hp .oldest).2 (fun e => ?_) fun e => ?_
    · have hanswer := ha (.inl e)
      rw [(hs e).1] at hanswer
      exact hanswer
    · have hanswer := ha (.inr e)
      rw [(hp e).1] at hanswer
      exact hanswer
  · rintro (e | e)
    · exact ⟨rfl, hunique⟩
    · exact ⟨rfl, hunique⟩

/-- The company of an account is set after its creation. -/
def laterCompany : List AccountCall :=
  [{ op := .create ⟨"a@example.org", none, none, none, none⟩, id := "acct:1", now := 1 },
    { op := .update "acct:1" [.companyName (some "Acme")], id := "", now := 2,
      distinctKeys := List.nodup_singleton _ }]

/-- **A company set later** is stored in memory and in Postgres, but not in SQLite. -/
theorem laterCompany_differs :
    (prismaAccounts .oldest).answers laterCompany [] = memoryAccounts.answers laterCompany [] ∧
    (sqliteAccounts .unary .oldest).answers laterCompany [] ≠
      memoryAccounts.answers laterCompany [] := by
  refine ⟨rfl, fun h => ?_⟩
  simp only [laterCompany, Impl.answers, List.cons.injEq, Sigma.mk.injEq, heq_eq_eq, true_and,
    and_true] at h
  -- the company in the second answers
  have hcompany := congrArg (Option.map AccountRecord.companyName) h.2
  exact absurd hcompany (by decide)

end Drivers

end HelixServer
