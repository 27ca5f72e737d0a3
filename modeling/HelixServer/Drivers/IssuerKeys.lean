import HelixServer.Drivers.Storage
import HelixServer.Repositories.IssuerKey
import HelixServer.Store.Impl
import Mathlib.Data.List.Nodup
import Mathlib.Data.List.Pairwise

/-!
# The drivers of the issuer-key repository

`repositories/drivers/issuer-key.drivers.ts`: a map keyed by the account, which a second key of an
account replaces, an SQLite table with unique accounts and DIDs, and a Postgres table whose rows
also refer to the accounts table.  Each driver refines `IssuerKeyOp.exec`, the repository that the
provisioning of identities is modelled on.  The three give the same answers to exactly the sequences
of calls that use every id, account and DID once, for existing accounts
(`keys_interchangeable_iff`).

## Main definitions

* `KeyCall` : a call with the id that `makeId` generates in it and the time.
* `memoryKeys`, `sqliteKeys`, `prismaKeys` : the drivers.
* `keyRepository kind` : the repository.
-/

namespace HelixServer

namespace Drivers

open Store

/-- A call of an issuer-key driver: the id that `makeId` generates in it, and the time. -/
structure KeyCall where
  op : IssuerKeyOp
  id : String
  now : ℕ

/-- What a call answers, `none` if it fails. -/
abbrev KeyCall.Answer (c : KeyCall) : Type := Option c.op.Res

/-- The repository over a list of rows. -/
def keyRepository (kind : StorageDriverKind) : Impl KeyCall KeyCall.Answer where
  State := List IssuerKeyRecordRow
  exec c rows :=
    let x := c.op.exec kind c.id c.now rows
    (x.1.toOption, x.2)

/-! ### In memory -/

/-- `InMemoryIssuerKeyStorageDriver`: `rowsByAccount`. -/
def memoryKeys : Impl KeyCall KeyCall.Answer where
  State := List (String × IssuerKeyRecordRow)
  exec
    | ⟨.create data, id, now⟩, rowsByAccount =>
      let record := data.row id now
      (some record, JsMap.set data.accountId record rowsByAccount)
    | ⟨.findByAccountId accountId, _, _⟩, rowsByAccount =>
      (some (JsMap.get accountId rowsByAccount), rowsByAccount)

/-- The map holds the rows. -/
def HoldsKeys (rows : List IssuerKeyRecordRow) (m : List (String × IssuerKeyRecordRow)) : Prop :=
  JsMap.KeyedBy IssuerKeyRecordRow.accountId m ∧ JsMap.values m = rows

/-- **The in-memory driver refines the repository.** -/
theorem memoryKeys_refines :
    Simulates (keyRepository .memory) memoryKeys HoldsKeys fun _ _ => True := by
  constructor
  · rintro _ (m : List (String × IssuerKeyRecordRow)) ⟨op, id, now⟩ ⟨hkey, rfl⟩ -
    cases op with
    | create data =>
      simp only [memoryKeys, keyRepository, IssuerKeyOp.exec, IssuerKeys.create]
      simp only [StorageDriverKind.hasUniqueIndexes, Bool.false_eq_true, if_false]
      split_ifs <;> rfl
    | findByAccountId accountId => exact congrArg some (JsMap.get_eq_find? hkey)
  · rintro _ (m : List (String × IssuerKeyRecordRow)) ⟨op, id, now⟩ ⟨hkey, rfl⟩ -
    cases op with
    | create data =>
      refine ⟨JsMap.keyedBy_set hkey rfl, ?_⟩
      simp only [memoryKeys, keyRepository, IssuerKeyOp.exec, IssuerKeys.create]
      simp only [StorageDriverKind.hasUniqueIndexes, Bool.false_eq_true, if_false]
      rw [JsMap.values_set hkey]
      split_ifs <;> rfl
    | findByAccountId accountId => exact ⟨hkey, rfl⟩

/-! ### New keys -/

/-- What a row shares with no other row: its id, its account and its DID. -/
structure KeyIds where
  id : String
  accountId : String
  did : String
  deriving DecidableEq

/-- They share nothing. -/
structure KeyIds.Apart (k k' : KeyIds) : Prop where
  id : k.id ≠ k'.id
  accountId : k.accountId ≠ k'.accountId
  did : k.did ≠ k'.did

instance (k k' : KeyIds) : Decidable (k.Apart k') :=
  decidable_of_iff (k.id ≠ k'.id ∧ k.accountId ≠ k'.accountId ∧ k.did ≠ k'.did)
    ⟨fun h => ⟨h.1, h.2.1, h.2.2⟩, fun h => ⟨h.id, h.accountId, h.did⟩⟩

/-- The three of a row. -/
def keyIds (r : IssuerKeyRecordRow) : KeyIds := ⟨r.id, r.accountId, r.did⟩

/-- The three of the row that a call creates. -/
def KeyCall.creates (c : KeyCall) : Option KeyIds :=
  match c.op with
  | .create data => some ⟨c.id, data.accountId, data.did⟩
  | .findByAccountId _ => none

/-- A `create` shares nothing with a row. -/
def KeyCall.Fresh (rows : List IssuerKeyRecordRow) (c : KeyCall) : Prop :=
  ∀ k ∈ c.creates, ∀ r ∈ rows, (keyIds r).Apart k

/-- The rows share nothing: the unique indexes. -/
def DistinctKeys (rows : List IssuerKeyRecordRow) : Prop := (rows.map keyIds).Pairwise KeyIds.Apart

variable {rows : List IssuerKeyRecordRow} {c : KeyCall}

theorem fresh_iff {data : IssuerKeyCreateData} {id : String} {now : ℕ} :
    KeyCall.Fresh rows ⟨.create data, id, now⟩ ↔
      (rows.any fun r => r.id == id || r.accountId == data.accountId || r.did == data.did) =
        false := by
  simp only [KeyCall.Fresh, KeyCall.creates, Option.mem_some_iff, forall_eq']
  constructor
  · intro h
    simp only [List.any_eq_false, Bool.or_eq_true, beq_iff_eq, not_or]
    exact fun r hr => ⟨⟨(h r hr).id, (h r hr).accountId⟩, (h r hr).did⟩
  · intro h r hr
    simp only [List.any_eq_false, Bool.or_eq_true, beq_iff_eq, not_or] at h
    exact ⟨(h r hr).1.1, (h r hr).1.2, (h r hr).2⟩

theorem exec_of_fresh {kind : StorageDriverKind} {data : IssuerKeyCreateData}
    {id : String} {now : ℕ} (h : KeyCall.Fresh rows ⟨.create data, id, now⟩) :
    IssuerKeys.create kind data id now rows =
      (.ok (data.row id now), rows ++ [data.row id now]) := by
  have hany := fresh_iff.1 h
  have haccount : (rows.any (·.accountId == data.accountId)) = false := by
    simp only [List.any_eq_false, Bool.or_eq_true, not_or] at hany ⊢
    exact fun r hr => (hany r hr).1.2
  simp [IssuerKeys.create, hany, haccount]

theorem keyRepository_same (kind kind' : StorageDriverKind) :
    Simulates (keyRepository kind) (keyRepository kind') Eq KeyCall.Fresh := by
  have hsame : ∀ (rows : List IssuerKeyRecordRow) (c : KeyCall), c.Fresh rows →
      c.op.exec kind' c.id c.now rows = c.op.exec kind c.id c.now rows := by
    rintro rows ⟨op, id, now⟩ hf
    cases op with
    | create data => exact (exec_of_fresh hf).trans (exec_of_fresh hf).symm
    | findByAccountId accountId => rfl
  refine ⟨fun rows _ c heq hf => ?_, fun rows _ c heq hf => ?_⟩ <;> subst heq <;>
    simp only [keyRepository, hsame rows c hf]

theorem DistinctKeys.append (h : DistinctKeys rows) {data : IssuerKeyCreateData}
    {id : String} {now : ℕ}
    (hf : KeyCall.Fresh rows ⟨.create data, id, now⟩) :
    DistinctKeys (rows ++ [data.row id now]) := by
  rw [DistinctKeys, List.map_append, List.pairwise_append]
  refine ⟨h, List.pairwise_singleton _ _, ?_⟩
  simp only [List.mem_map, List.map_cons, List.map_nil, List.mem_singleton]
  rintro _ ⟨r, hr, rfl⟩ _ rfl
  exact hf _ rfl r hr

theorem DistinctKeys.exec {kind : StorageDriverKind} (hk : kind.hasUniqueIndexes = true)
    (h : DistinctKeys rows) (c : KeyCall) : DistinctKeys (c.op.exec kind c.id c.now rows).2 := by
  obtain ⟨op, id, now⟩ := c
  cases op with
  | create data =>
    by_cases hf : KeyCall.Fresh rows ⟨.create data, id, now⟩
    · rw [IssuerKeyOp.exec, exec_of_fresh hf]
      exact h.append hf
    · rw [fresh_iff, Bool.not_eq_false] at hf
      simp only [IssuerKeyOp.exec, IssuerKeys.create, hk, if_true, hf]
      exact h
  | findByAccountId accountId => exact h

theorem DistinctKeys.eq_of_account (h : DistinctKeys rows) {r r' : IssuerKeyRecordRow}
    (hr : r ∈ rows) (hr' : r' ∈ rows) (ha : r.accountId = r'.accountId) : r = r' := by
  have hnodup : (rows.map (·.accountId)).Nodup :=
    List.pairwise_map.2 ((List.pairwise_map.1 h).imp fun hapart => hapart.accountId)
  exact List.inj_on_of_nodup_map hnodup hr hr' ha

/-! ### The SQL drivers -/

/-- `PrismaIssuerKeyStorageDriver` on its raw-SQL path: a table with unique indexes on the id, the
account and the DID, and a foreign key into the accounts table, whose ids `accounts` tells. -/
def prismaKeys (accounts : String → Bool) (e : Engine IssuerKeyRecordRow) :
    Impl KeyCall KeyCall.Answer where
  State := List IssuerKeyRecordRow
  exec
    | ⟨.create data, id, now⟩, table =>
      if table.any fun r => r.id == id || r.accountId == data.accountId || r.did == data.did then
        (none, table)
      else if accounts data.accountId then (some (data.row id now), table ++ [data.row id now])
      else (none, table)
    | ⟨.findByAccountId accountId, _, _⟩, table =>
      (some (e.select (·.accountId == accountId) table), table)

/-- A `create` is for an account of the accounts table. -/
def KeyCall.OfAccount (accounts : String → Bool) (c : KeyCall) : Prop :=
  ∀ k ∈ c.creates, accounts k.accountId = true

/-- **The Postgres driver refines the repository**, for keys of existing accounts. -/
theorem prismaKeys_refines (accounts : String → Bool) (e : Engine IssuerKeyRecordRow) :
    Simulates (keyRepository .postgres) (prismaKeys accounts e)
      (fun rows table => table = rows ∧ DistinctKeys rows) fun _ c => c.OfAccount accounts := by
  constructor
  · rintro (rows : List IssuerKeyRecordRow) _ ⟨op, id, now⟩ ⟨rfl, hd⟩ haccount
    cases op with
    | create data =>
      have hexists : accounts data.accountId = true := haccount _ rfl
      simp only [prismaKeys, keyRepository, IssuerKeyOp.exec, IssuerKeys.create]
      simp only [StorageDriverKind.hasUniqueIndexes, hexists, if_true]
      split_ifs <;> rfl
    | findByAccountId accountId =>
      refine congrArg some (e.select_of_unique fun r hr r' hr' hp hp' => ?_)
      exact hd.eq_of_account hr hr' ((eq_of_beq hp).trans (eq_of_beq hp').symm)
  · rintro (rows : List IssuerKeyRecordRow) _ ⟨op, id, now⟩ ⟨rfl, hd⟩ haccount
    refine ⟨?_, hd.exec rfl ⟨op, id, now⟩⟩
    cases op with
    | create data =>
      have hexists : accounts data.accountId = true := haccount _ rfl
      simp only [prismaKeys, keyRepository, IssuerKeyOp.exec, IssuerKeys.create]
      simp only [StorageDriverKind.hasUniqueIndexes, hexists, if_true]
      split_ifs <;> rfl
    | findByAccountId accountId => rfl

/-- A row of the SQLite table. -/
structure SqliteIssuerKeyRow where
  id : String
  accountId : String
  did : String
  encryptedPrivateKey : String
  iv : String
  authTag : String
  algorithm : String
  createdAt : String

section Sqlite

variable (D : DateText)

/-- `fromSqliteRow`. -/
def SqliteIssuerKeyRow.toRecord (row : SqliteIssuerKeyRow) : IssuerKeyRecordRow where
  id := row.id
  accountId := row.accountId
  did := row.did
  encryptedPrivateKey := row.encryptedPrivateKey
  iv := row.iv
  authTag := row.authTag
  algorithm := row.algorithm
  createdAt := D.read row.createdAt

/-- `SqliteIssuerKeyStorageDriver`. -/
def sqliteKeys (e : Engine SqliteIssuerKeyRow) : Impl KeyCall KeyCall.Answer where
  State := List SqliteIssuerKeyRow
  exec
    | ⟨.create data, id, now⟩, table =>
      if table.any fun r => r.id == id || r.accountId == data.accountId || r.did == data.did then
        (none, table)
      else
        (some (data.row id now), table ++
          [{ id := id, accountId := data.accountId, did := data.did,
             encryptedPrivateKey := data.encryptedPrivateKey, iv := data.iv,
             authTag := data.authTag,
             algorithm := data.algorithm, createdAt := D.write now }])
    | ⟨.findByAccountId accountId, _, _⟩, table =>
      (some ((e.select (·.accountId == accountId) table).map (·.toRecord D)), table)

/-- The row that holds a record. -/
def sqliteKeyRow (r : IssuerKeyRecordRow) : SqliteIssuerKeyRow where
  id := r.id
  accountId := r.accountId
  did := r.did
  encryptedPrivateKey := r.encryptedPrivateKey
  iv := r.iv
  authTag := r.authTag
  algorithm := r.algorithm
  createdAt := D.write r.createdAt

@[simp] theorem toRecord_sqliteKeyRow (r : IssuerKeyRecordRow) :
    (sqliteKeyRow D r).toRecord D = r := by
  cases r
  simp [sqliteKeyRow, SqliteIssuerKeyRow.toRecord, D.read_write]

/-- **The SQLite driver refines the repository.** -/
theorem sqliteKeys_refines (e : Engine SqliteIssuerKeyRow) :
    Simulates (keyRepository .sqlite) (sqliteKeys D e)
      (fun rows table => table = rows.map (sqliteKeyRow D) ∧
        DistinctKeys rows) fun _ _ => True := by
  have hany : ∀ (rows : List IssuerKeyRecordRow) (id : String) (data : IssuerKeyCreateData),
      ((rows.map (sqliteKeyRow D)).any fun r =>
          r.id == id || r.accountId == data.accountId || r.did == data.did) =
        rows.any fun r => r.id == id || r.accountId == data.accountId || r.did == data.did := by
    intro rows id data
    rw [List.any_map]
    rfl
  constructor
  · rintro (rows : List IssuerKeyRecordRow) _ ⟨op, id, now⟩ ⟨rfl, hd⟩ -
    cases op with
    | create data =>
      simp only [sqliteKeys, keyRepository, IssuerKeyOp.exec, IssuerKeys.create, hany]
      simp only [StorageDriverKind.hasUniqueIndexes, if_true]
      split_ifs <;> rfl
    | findByAccountId accountId =>
      refine congrArg some (e.select_map_of_unique (toRecord_sqliteKeyRow D)
        fun r hr r' hr' hp hp' => ?_)
      exact hd.eq_of_account hr hr' ((eq_of_beq hp).trans (eq_of_beq hp').symm)
  · rintro (rows : List IssuerKeyRecordRow) _ ⟨op, id, now⟩ ⟨rfl, hd⟩ -
    refine ⟨?_, hd.exec rfl ⟨op, id, now⟩⟩
    cases op with
    | create data =>
      simp only [sqliteKeys, keyRepository, IssuerKeyOp.exec, IssuerKeys.create, hany]
      simp only [StorageDriverKind.hasUniqueIndexes, if_true]
      split_ifs
      · rfl
      · simp [sqliteKeyRow, IssuerKeyCreateData.row]
    | findByAccountId accountId => rfl

end Sqlite

/-! ### The drivers together -/

/-- A call is for an existing account, and shares nothing with a row. -/
def KeyCall.Harmless (accounts : String → Bool) (rows : List IssuerKeyRecordRow) (c : KeyCall) :
    Prop :=
  c.Fresh rows ∧ c.OfAccount accounts

/-- Calls that are harmless one after another create rows that share nothing, for existing
accounts. -/
theorem along_harmless_iff {accounts : String → Bool} {cs : List KeyCall}
    {rows : List IssuerKeyRecordRow} (hd : DistinctKeys rows) :
    (keyRepository .memory).Along (fun rows c => c.Harmless accounts rows) cs rows ↔
      (rows.map keyIds ++ cs.filterMap KeyCall.creates).Pairwise KeyIds.Apart ∧
        ∀ c ∈ cs, c.OfAccount accounts := by
  induction cs generalizing rows with
  | nil => simpa [Impl.Along, DistinctKeys] using hd
  | cons c cs ih =>
    obtain ⟨op, id, now⟩ := c
    simp only [Impl.Along, List.forall_mem_cons]
    cases op with
    | findByAccountId accountId =>
      have hharmless : KeyCall.Harmless accounts rows ⟨.findByAccountId accountId, id, now⟩ :=
        ⟨by simp [KeyCall.Fresh, KeyCall.creates], by simp [KeyCall.OfAccount, KeyCall.creates]⟩
      have hcreates : (⟨.findByAccountId accountId, id, now⟩ : KeyCall).creates = none := rfl
      rw [List.filterMap_cons_none hcreates]
      simp only [hharmless, hharmless.2, true_and]
      exact ih hd
    | create data =>
      have hcreates : (⟨.create data, id, now⟩ : KeyCall).creates =
        some (keyIds (data.row id now)) := rfl
      rw [List.filterMap_cons_some hcreates]
      -- the rows after the call, and the creates after it
      have hsplit : rows.map keyIds ++ keyIds (data.row id now) :: cs.filterMap KeyCall.creates =
          (rows ++ [data.row id now]).map keyIds ++ cs.filterMap KeyCall.creates := by simp
      by_cases hf : KeyCall.Fresh rows ⟨.create data, id, now⟩
      · have hexec : ((keyRepository .memory).exec ⟨.create data, id, now⟩ rows).2 =
            rows ++ [data.row id now] := congrArg Prod.snd (exec_of_fresh hf)
        rw [hexec, hsplit, ih (hd.append hf)]
        simp only [KeyCall.Harmless, hf, true_and]
        tauto
      · refine ⟨fun h => absurd h.1.1 hf, fun h => absurd (fun k hk r hr => ?_) hf⟩
        obtain rfl := Option.some.inj (hk.symm.trans hcreates)
        exact (List.pairwise_append.1 h.1).2.2 _ (List.mem_map_of_mem hr) _ List.mem_cons_self

/-- The SQL drivers. -/
def sqlKeys (accounts : String → Bool) (D : DateText) (e : Engine SqliteIssuerKeyRow)
    (e' : Engine IssuerKeyRecordRow) : Bool → Impl KeyCall KeyCall.Answer
  | true => sqliteKeys D e
  | false => prismaKeys accounts e'

/-- What an SQL driver has stored for the rows. -/
def StoresKeys (accounts : String → Bool) (D : DateText) (e : Engine SqliteIssuerKeyRow)
    (e' : Engine IssuerKeyRecordRow) :
    (sqlite : Bool) → List IssuerKeyRecordRow → (sqlKeys accounts D e e' sqlite).State → Prop
  | true, rows, table => table = rows.map (sqliteKeyRow D) ∧ DistinctKeys rows
  | false, rows, table => table = rows ∧ DistinctKeys rows

variable {accounts : String → Bool} {D : DateText} {e : Engine SqliteIssuerKeyRow}
  {e' : Engine IssuerKeyRecordRow}

theorem sqlKeys_refines (sqlite : Bool) :
    Simulates (keyRepository .memory) (sqlKeys accounts D e e' sqlite)
      (StoresKeys accounts D e e' sqlite) fun rows c => c.Harmless accounts rows := by
  have hsame : ∀ kind, Simulates (keyRepository .memory) (keyRepository kind) Eq
      fun rows c => c.Harmless accounts rows :=
    fun kind => (keyRepository_same .memory kind).mono fun _ _ hc => hc.1
  cases sqlite with
  | true =>
    have h := (hsame .sqlite).trans (sqliteKeys_refines D e) fun _ _ _ _ _ => trivial
    refine ⟨fun rows t c ht hc => h.answer rows t c ⟨rows, rfl, ht⟩ hc, fun rows t c ht hc => ?_⟩
    obtain ⟨_, rfl, hnext⟩ := h.next rows t c ⟨rows, rfl, ht⟩ hc
    exact hnext
  | false =>
    have h := (hsame .postgres).trans (prismaKeys_refines accounts e') fun _ _ _ _ hc => hc.2
    refine ⟨fun rows t c ht hc => h.answer rows t c ⟨rows, rfl, ht⟩ hc, fun rows t c ht hc => ?_⟩
    obtain ⟨_, rfl, hnext⟩ := h.next rows t c ⟨rows, rfl, ht⟩ hc
    exact hnext

/-- A call on which the SQL drivers do not fail is harmless: in memory no call fails. -/
theorem harmless_of_keys {rows : List IssuerKeyRecordRow} {c : KeyCall}
    (h : ((prismaKeys accounts e').exec c rows).1 = ((keyRepository .memory).exec c rows).1) :
    c.Harmless accounts rows := by
  obtain ⟨op, id, now⟩ := c
  cases op with
  | findByAccountId accountId =>
    exact ⟨by simp [KeyCall.Fresh, KeyCall.creates], by simp [KeyCall.OfAccount, KeyCall.creates]⟩
  | create data =>
    have hmemory : ((keyRepository .memory).exec ⟨.create data, id, now⟩ rows).1 =
        some (data.row id now) := by
      simp only [keyRepository, IssuerKeyOp.exec, IssuerKeys.create]
      simp only [StorageDriverKind.hasUniqueIndexes, Bool.false_eq_true, if_false]
      split_ifs <;> rfl
    rw [hmemory] at h
    simp only [prismaKeys] at h
    -- a call that fails does not answer the row
    split_ifs at h with hany haccount
    refine ⟨fresh_iff.2 (Bool.not_eq_true _ ▸ hany), ?_⟩
    rintro _ ⟨⟩
    exact haccount

/-- **The issuer-key drivers are interchangeable** on exactly the sequences of calls that use every
id, account and DID once, for existing accounts. -/
theorem keys_interchangeable_iff (accounts : String → Bool) (D : DateText)
    (e : Engine SqliteIssuerKeyRow) (e' : Engine IssuerKeyRecordRow) (cs : List KeyCall) :
    ((sqliteKeys D e).answers cs [] = memoryKeys.answers cs [] ∧
      (prismaKeys accounts e').answers cs [] = memoryKeys.answers cs []) ↔
    (cs.filterMap KeyCall.creates).Pairwise KeyIds.Apart ∧ ∀ c ∈ cs, c.OfAccount accounts := by
  have hdistinct : DistinctKeys [] := .nil
  have hmemory : memoryKeys.answers cs [] = (keyRepository .memory).answers cs [] :=
    memoryKeys_refines.answers ⟨by simp [JsMap.KeyedBy], rfl⟩
      (Impl.along_of_all (fun _ _ => trivial) cs _)
  have hiff := answers_iff_along (t := fun i => match i with | true => [] | false => [])
    (@sqlKeys_refines accounts D e e') ?_ (s := []) ?_ cs
  · have halong : (keyRepository .memory).Along (fun rows c => c.Harmless accounts rows) cs [] ↔
        (cs.filterMap KeyCall.creates).Pairwise KeyIds.Apart ∧ ∀ c ∈ cs, c.OfAccount accounts :=
      along_harmless_iff hdistinct
    rw [hmemory, ← halong, ← hiff]
    exact ⟨fun h i => match i with | true => h.1 | false => h.2, fun h => ⟨h true, h false⟩⟩
  · intro rows c t hr ha
    have hanswer := ha false
    rw [(hr false).1] at hanswer
    exact harmless_of_keys hanswer
  · rintro (_ | _)
    · exact ⟨rfl, hdistinct⟩
    · exact ⟨rfl, hdistinct⟩

end Drivers

end HelixServer
