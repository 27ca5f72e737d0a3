import HelixServer.Drivers.Storage
import HelixServer.Repositories.RefreshToken
import HelixServer.Store.Impl
import Mathlib.Data.List.Nodup

/-!
# The drivers of the refresh-token repository

`repositories/drivers/refresh-token.drivers.ts`: a map keyed by the hash, an SQLite table with dates
as text, and a Postgres table whose rows refer to the accounts table.  Each driver refines
`RefreshTokenOp.exec`, the repository that the auth service is modelled on.  With new ids and hashes
and tokens of existing accounts the three give the same answers to every sequence of calls
(`tokens_interchangeable`); the Postgres schema rejects a token of an unknown account, the others
store it (`unknownAccount_differs`).

## Main definitions

* `TokenCall` : a call with the id that `makeId` generates in it and the time.
* `memoryTokens`, `sqliteTokens`, `prismaTokens` : the drivers.
* `tokenRepository kind` : the repository.
-/

namespace HelixServer

namespace Drivers

open Store RefreshTokens

/-- A call of a refresh-token driver: the id that `makeId` generates in it, and the time. -/
structure TokenCall where
  op : RefreshTokenOp
  id : String
  now : ℕ

/-- What a call answers, `none` if it fails. -/
abbrev TokenCall.Answer (c : TokenCall) : Type := Option c.op.Res

/-- The repository over a list of rows. -/
def tokenRepository (kind : StorageDriverKind) : Impl TokenCall TokenCall.Answer where
  State := List RefreshTokenRecord
  exec c rows :=
    let x := c.op.exec kind c.id c.now rows
    (x.1.toOption, x.2)

/-! ### In memory -/

/-- `InMemoryRefreshTokenStorageDriver`: `rowsByHash`.  What it answers is the stored object itself;
the answer here is what the object is when it is answered. -/
def memoryTokens : Impl TokenCall TokenCall.Answer where
  State := SharedMap RefreshTokenRecord
  exec
    | ⟨.create data, id, now⟩, rowsByHash =>
      let stored := rowsByHash.set data.tokenHash (data.row id now)
      (stored.read rowsByHash.objects.length, stored)
    | ⟨.findByTokenHash tokenHash, _, _⟩, rowsByHash =>
      (some ((rowsByHash.get tokenHash).bind rowsByHash.read), rowsByHash)
    | ⟨.revoke id replacedByTokenId, _, now⟩, rowsByHash =>
      (some (), rowsByHash.update fun record => if record.id == id then
        { record with revokedAt := some now, replacedByTokenId := replacedByTokenId } else record)
    | ⟨.revokeAllForAccount accountId, _, now⟩, rowsByHash =>
      (some (), rowsByHash.update fun record =>
        if record.accountId == accountId && record.revokedAt.isNone then
          { record with revokedAt := some now } else record)

/-- The objects of the map are the rows. -/
def HoldsTokens (rows : List RefreshTokenRecord) (m : SharedMap RefreshTokenRecord) : Prop :=
  ∃ l, m.Shows l ∧ JsMap.KeyedBy RefreshTokenRecord.tokenHash l ∧ JsMap.values l = rows

theorem holdsTokens_empty : HoldsTokens [] .empty :=
  ⟨[], SharedMap.shows_empty, by simp [JsMap.KeyedBy], rfl⟩

/-- **The in-memory driver refines the repository**, as long as its answers are read at once. -/
theorem memoryTokens_refines :
    Simulates (tokenRepository .memory) memoryTokens HoldsTokens fun _ _ => True := by
  constructor
  · rintro _ (m : SharedMap RefreshTokenRecord) ⟨op, id, now⟩ ⟨l, hshows, hkey, rfl⟩ -
    cases op with
    | create data =>
      refine SharedMap.read_set_length.trans ?_
      simp only [tokenRepository, RefreshTokenOp.exec, RefreshTokens.create]
      simp only [StorageDriverKind.hasUniqueIndexes, Bool.false_eq_true, if_false]
      split_ifs <;> rfl
    | findByTokenHash tokenHash =>
      exact congrArg some (hshows.get.trans (JsMap.get_eq_find? hkey))
    | revoke id link => rfl
    | revokeAllForAccount accountId => rfl
  · rintro _ (m : SharedMap RefreshTokenRecord) ⟨op, id, now⟩ ⟨l, hshows, hkey, rfl⟩ -
    cases op with
    | create data =>
      refine ⟨_, hshows.set, JsMap.keyedBy_set hkey rfl, ?_⟩
      simp only [tokenRepository, RefreshTokenOp.exec, RefreshTokens.create]
      simp only [StorageDriverKind.hasUniqueIndexes, Bool.false_eq_true, if_false]
      rw [JsMap.values_set hkey]
      split_ifs <;> rfl
    | findByTokenHash tokenHash => exact ⟨l, hshows, hkey, rfl⟩
    | revoke id link =>
      exact ⟨_, hshows.update, JsMap.keyedBy_mapValues hkey keeps_revokeRow.tokenHash,
        JsMap.values_mapValues (revokeRow id link now)⟩
    | revokeAllForAccount accountId =>
      exact ⟨_, hshows.update, JsMap.keyedBy_mapValues hkey keeps_burnRow.tokenHash,
        JsMap.values_mapValues (burnRow accountId now)⟩

/-- The call creates no token with the hash. -/
def TokenCall.Spares (tokenHash : String) (c : TokenCall) : Prop :=
  ∀ data, c.op = .create data → data.tokenHash ≠ tokenHash

theorem get_after_memoryTokens {tokenHash : String} {cs : List TokenCall}
    (hcs : ∀ c ∈ cs, c.Spares tokenHash) (m : SharedMap RefreshTokenRecord) :
    SharedMap.get tokenHash (memoryTokens.after cs m) = m.get tokenHash := by
  induction cs generalizing m with
  | nil => rfl
  | cons c cs ih =>
    refine (ih (fun c hc => hcs c (List.mem_cons_of_mem _ hc)) (memoryTokens.exec c m).2).trans ?_
    have hc := hcs c List.mem_cons_self
    obtain ⟨op, id, now⟩ := c
    cases op with
    | create data => exact SharedMap.get_set_of_ne (hc data rfl).symm
    | _ => rfl

/-- **An answer of the in-memory driver is shared.**  Whoever has kept the object that a hash has
led to reads, after any further calls, what the driver would answer then. -/
theorem memoryTokens_shared {tokenHash : String} {ref : ℕ} {m : SharedMap RefreshTokenRecord}
    (href : m.get tokenHash = some ref) {cs : List TokenCall}
    (hcs : ∀ c ∈ cs, c.Spares tokenHash) (id : String) (now : ℕ) :
    (memoryTokens.exec ⟨.findByTokenHash tokenHash, id, now⟩ (memoryTokens.after cs m)).1 =
      some (SharedMap.read (memoryTokens.after cs m) ref) := by
  show some ((SharedMap.get tokenHash _).bind _) = _
  rw [get_after_memoryTokens hcs, href, Option.bind_some]

-- an object that is read before its account is burnt, and after
example : let m := memoryTokens.after [⟨.create ⟨"a", "h", 100⟩, "r1", 1⟩] .empty
    SharedMap.get "h" m = some 0 ∧ (SharedMap.read m 0).map (·.revokedAt) = some none ∧
      (SharedMap.read (memoryTokens.after [⟨.revokeAllForAccount "a", "", 2⟩] m) 0).map
        (·.revokedAt) = some (some 2) := ⟨rfl, rfl, rfl⟩

/-! ### The SQL drivers -/

/-- No two rows share a hash: the unique index. -/
def DistinctHashes (rows : List RefreshTokenRecord) : Prop := (rows.map (·.tokenHash)).Nodup

theorem DistinctHashes.exec {rows : List RefreshTokenRecord} {kind : StorageDriverKind}
    (hk : kind.hasUniqueIndexes = true) (h : DistinctHashes rows) (c : TokenCall) :
    DistinctHashes (c.op.exec kind c.id c.now rows).2 := by
  obtain ⟨op, id, now⟩ := c
  cases op with
  | create data =>
    simp only [RefreshTokenOp.exec, RefreshTokens.create, hk, if_true]
    split_ifs with hany
    · exact h
    · simp only [List.any_eq_true, Bool.or_eq_true, beq_iff_eq, not_exists, not_and, not_or] at hany
      rw [DistinctHashes, List.map_append, List.nodup_append]
      refine ⟨h, by simp, ?_⟩
      simp only [List.mem_map, List.map_cons, List.map_nil, List.mem_singleton]
      rintro _ ⟨r, hr, rfl⟩ _ rfl
      exact (hany r hr).2
  | findByTokenHash tokenHash => exact h
  | revoke id link =>
    show ((rows.map (revokeRow id link now)).map _).Nodup
    rw [keeps_revokeRow.map_tokenHash]
    exact h
  | revokeAllForAccount accountId =>
    show ((rows.map (burnRow accountId now)).map _).Nodup
    rw [keeps_burnRow.map_tokenHash]
    exact h

/-- `PrismaRefreshTokenStorageDriver` on its raw-SQL path: a table with the unique indexes on the id
and the hash, and a foreign key into the accounts table, whose ids `accounts` tells. -/
def prismaTokens (accounts : String → Bool) (e : Engine RefreshTokenRecord) :
    Impl TokenCall TokenCall.Answer where
  State := List RefreshTokenRecord
  exec
    | ⟨.create data, id, now⟩, table =>
      if table.any fun r => r.id == id || r.tokenHash == data.tokenHash then (none, table)
      else if accounts data.accountId then (some (data.row id now), table ++ [data.row id now])
      else (none, table)
    | ⟨.findByTokenHash tokenHash, _, _⟩, table =>
      (some (e.select (·.tokenHash == tokenHash) table), table)
    | ⟨.revoke id replacedByTokenId, _, now⟩, table =>
      (some (), table.map fun r => if r.id == id then
        { r with revokedAt := some now, replacedByTokenId := replacedByTokenId } else r)
    | ⟨.revokeAllForAccount accountId, _, now⟩, table =>
      (some (), table.map fun r => if r.accountId == accountId && r.revokedAt.isNone then
        { r with revokedAt := some now } else r)

/-- A `create` is for an account of the accounts table. -/
def TokenCall.OfAccount (accounts : String → Bool) (c : TokenCall) : Prop :=
  ∀ data, c.op = .create data → accounts data.accountId = true

/-- **The Postgres driver refines the repository**, for tokens of existing accounts. -/
theorem prismaTokens_refines (accounts : String → Bool) (e : Engine RefreshTokenRecord) :
    Simulates (tokenRepository .postgres) (prismaTokens accounts e)
      (fun rows table => table = rows ∧ DistinctHashes rows) fun _ c => c.OfAccount accounts := by
  constructor
  · rintro (rows : List RefreshTokenRecord) _ ⟨op, id, now⟩ ⟨rfl, hd⟩ haccount
    cases op with
    | create data =>
      simp only [prismaTokens, tokenRepository, RefreshTokenOp.exec, RefreshTokens.create]
      simp only [StorageDriverKind.hasUniqueIndexes, haccount data rfl, if_true]
      split_ifs <;> rfl
    | findByTokenHash tokenHash =>
      refine congrArg some (e.select_of_unique fun r hr r' hr' hp hp' => ?_)
      exact List.inj_on_of_nodup_map hd hr hr' ((eq_of_beq hp).trans (eq_of_beq hp').symm)
    | revoke id link => rfl
    | revokeAllForAccount accountId => rfl
  · rintro (rows : List RefreshTokenRecord) _ ⟨op, id, now⟩ ⟨rfl, hd⟩ haccount
    refine ⟨?_, hd.exec rfl ⟨op, id, now⟩⟩
    cases op with
    | create data =>
      simp only [prismaTokens, tokenRepository, RefreshTokenOp.exec, RefreshTokens.create]
      simp only [StorageDriverKind.hasUniqueIndexes, haccount data rfl, if_true]
      split_ifs <;> rfl
    | findByTokenHash tokenHash => rfl
    | revoke id link => rfl
    | revokeAllForAccount accountId => rfl

/-- A row of the SQLite table. -/
structure SqliteRefreshTokenRow where
  id : String
  accountId : String
  tokenHash : String
  expiresAt : String
  revokedAt : Option String
  replacedByTokenId : Option String
  createdAt : String

section Sqlite

variable (D : DateText)

/-- `fromSqliteRow`. -/
def SqliteRefreshTokenRow.toRecord (row : SqliteRefreshTokenRow) : RefreshTokenRecord where
  id := row.id
  accountId := row.accountId
  tokenHash := row.tokenHash
  expiresAt := D.read row.expiresAt
  revokedAt := D.readNullable row.revokedAt
  replacedByTokenId := row.replacedByTokenId
  createdAt := D.read row.createdAt

/-- `SqliteRefreshTokenStorageDriver`. -/
def sqliteTokens (e : Engine SqliteRefreshTokenRow) : Impl TokenCall TokenCall.Answer where
  State := List SqliteRefreshTokenRow
  exec
    | ⟨.create data, id, now⟩, table =>
      if table.any fun r => r.id == id || r.tokenHash == data.tokenHash then (none, table)
      else
        (some (data.row id now), table ++
          [{ id := id, accountId := data.accountId, tokenHash := data.tokenHash,
             expiresAt := D.write data.expiresAt, revokedAt := none, replacedByTokenId := none,
             createdAt := D.write now }])
    | ⟨.findByTokenHash tokenHash, _, _⟩, table =>
      (some ((e.select (·.tokenHash == tokenHash) table).map (·.toRecord D)), table)
    | ⟨.revoke id replacedByTokenId, _, now⟩, table =>
      (some (), table.map fun r => if r.id == id then
        { r with revokedAt := some (D.write now), replacedByTokenId := replacedByTokenId } else r)
    | ⟨.revokeAllForAccount accountId, _, now⟩, table =>
      (some (), table.map fun r => if r.accountId == accountId && r.revokedAt.isNone then
        { r with revokedAt := some (D.write now) } else r)

/-- The row that holds a record. -/
def sqliteRow (r : RefreshTokenRecord) : SqliteRefreshTokenRow where
  id := r.id
  accountId := r.accountId
  tokenHash := r.tokenHash
  expiresAt := D.write r.expiresAt
  revokedAt := r.revokedAt.map D.write
  replacedByTokenId := r.replacedByTokenId
  createdAt := D.write r.createdAt

@[simp] theorem toRecord_sqliteRow (r : RefreshTokenRecord) :
    (sqliteRow D r).toRecord D = r := by
  cases r
  simp [sqliteRow, SqliteRefreshTokenRow.toRecord, D.read_write, D.readNullable_map]

/-- **The SQLite driver refines the repository.** -/
theorem sqliteTokens_refines (e : Engine SqliteRefreshTokenRow) :
    Simulates (tokenRepository .sqlite) (sqliteTokens D e)
      (fun rows table => table = rows.map (sqliteRow D) ∧ DistinctHashes rows) fun _ _ => True := by
  have hany : ∀ (rows : List RefreshTokenRecord) (id tokenHash : String),
      ((rows.map (sqliteRow D)).any fun r => r.id == id || r.tokenHash == tokenHash) =
        rows.any fun r => r.id == id || r.tokenHash == tokenHash := by
    intro rows id tokenHash
    rw [List.any_map]
    rfl
  constructor
  · rintro (rows : List RefreshTokenRecord) _ ⟨op, id, now⟩ ⟨rfl, hd⟩ -
    cases op with
    | create data =>
      simp only [sqliteTokens, tokenRepository, RefreshTokenOp.exec, RefreshTokens.create, hany]
      simp only [StorageDriverKind.hasUniqueIndexes, if_true]
      split_ifs <;> rfl
    | findByTokenHash tokenHash =>
      refine congrArg some (e.select_map_of_unique (toRecord_sqliteRow D)
        fun r hr r' hr' hp hp' => ?_)
      exact List.inj_on_of_nodup_map hd hr hr' ((eq_of_beq hp).trans (eq_of_beq hp').symm)
    | revoke id link => rfl
    | revokeAllForAccount accountId => rfl
  · rintro (rows : List RefreshTokenRecord) _ ⟨op, id, now⟩ ⟨rfl, hd⟩ -
    refine ⟨?_, hd.exec rfl ⟨op, id, now⟩⟩
    cases op with
    | create data =>
      simp only [sqliteTokens, tokenRepository, RefreshTokenOp.exec, RefreshTokens.create, hany]
      simp only [StorageDriverKind.hasUniqueIndexes, if_true]
      split_ifs
      · rfl
      · simp [sqliteRow, RefreshTokenCreateData.row]
    | findByTokenHash tokenHash => rfl
    | revoke id link =>
      simp only [sqliteTokens, tokenRepository, RefreshTokenOp.exec, RefreshTokens.revoke,
        List.map_map]
      refine List.map_congr_left fun r _ => ?_
      simp only [Function.comp_apply, revokeRow, apply_ite (sqliteRow D)]
      rfl
    | revokeAllForAccount accountId =>
      simp only [sqliteTokens, tokenRepository, RefreshTokenOp.exec,
        RefreshTokens.revokeAllForAccount, List.map_map]
      refine List.map_congr_left fun r _ => ?_
      have hnone : (sqliteRow D r).revokedAt.isNone = r.revokedAt.isNone := by
        cases hr : r.revokedAt <;> simp [sqliteRow, hr]
      simp only [Function.comp_apply, burnRow, apply_ite (sqliteRow D), hnone]
      rfl

end Sqlite

/-! ### The drivers together -/

/-- A `create` has an id and a hash that no row has. -/
def TokenCall.Fresh (rows : List RefreshTokenRecord) (c : TokenCall) : Prop :=
  ∀ data, c.op = .create data → RefreshTokens.Fresh data c.id rows

/-- With new ids and hashes the repositories of all kinds are the same. -/
theorem tokenRepository_same (kind kind' : StorageDriverKind) :
    Simulates (tokenRepository kind) (tokenRepository kind') Eq TokenCall.Fresh := by
  have hsame : ∀ (rows : List RefreshTokenRecord) (c : TokenCall), c.Fresh rows →
      c.op.exec kind' c.id c.now rows = c.op.exec kind c.id c.now rows := by
    rintro rows ⟨op, id, now⟩ hf
    cases op with
    | create data =>
      simp only [RefreshTokenOp.exec, create_of_fresh (hf data rfl)]
      rfl
    | _ => rfl
  refine ⟨fun rows _ c heq hf => ?_, fun rows _ c heq hf => ?_⟩ <;> subst heq <;>
    simp only [tokenRepository, hsame rows c hf]

/-- The id and the hash of the row that a call creates. -/
def TokenCall.creates (c : TokenCall) : Option (String × String) :=
  match c.op with
  | .create data => some (c.id, data.tokenHash)
  | _ => none

/-- The `create` calls generate distinct ids and use every hash once. -/
structure NewTokens (cs : List TokenCall) : Prop where
  ids : ((cs.filterMap TokenCall.creates).map (·.1)).Nodup
  hashes : ((cs.filterMap TokenCall.creates).map (·.2)).Nodup

theorem mem_exec_tokens {kind : StorageDriverKind} {c : TokenCall} {rows : List RefreshTokenRecord}
    {r : RefreshTokenRecord} (h : r ∈ (c.op.exec kind c.id c.now rows).2) :
    (∃ r₀ ∈ rows, r₀.id = r.id ∧ r₀.tokenHash = r.tokenHash) ∨
      c.creates = some (r.id, r.tokenHash) := by
  have hold : ∀ {r : RefreshTokenRecord}, r ∈ rows →
      (∃ r₀ ∈ rows, r₀.id = r.id ∧ r₀.tokenHash = r.tokenHash) ∨
        c.creates = some (r.id, r.tokenHash) := fun hr => .inl ⟨_, hr, rfl, rfl⟩
  obtain ⟨op, id, now⟩ := c
  cases op with
  | create data =>
    simp only [RefreshTokenOp.exec, RefreshTokens.create] at h
    split_ifs at h
    · exact hold h
    · rcases List.mem_append.1 h with h | h
      · exact hold h
      · obtain rfl := List.mem_singleton.1 h
        exact .inr rfl
    · obtain ⟨r₁, hr₁, rfl⟩ := List.mem_map.1 h
      split_ifs
      · exact .inr rfl
      · exact hold hr₁
    · rcases List.mem_append.1 h with h | h
      · exact hold h
      · obtain rfl := List.mem_singleton.1 h
        exact .inr rfl
  | findByTokenHash tokenHash => exact hold h
  | revoke id' link =>
    obtain ⟨r₁, hr₁, rfl⟩ := List.mem_map.1 h
    exact .inl ⟨r₁, hr₁, (keeps_revokeRow.id r₁).symm, (keeps_revokeRow.tokenHash r₁).symm⟩
  | revokeAllForAccount accountId =>
    obtain ⟨r₁, hr₁, rfl⟩ := List.mem_map.1 h
    exact .inl ⟨r₁, hr₁, (keeps_burnRow.id r₁).symm, (keeps_burnRow.tokenHash r₁).symm⟩

/-- Creates that are new in the sequence are new when they are made. -/
theorem NewTokens.along {kind : StorageDriverKind} {cs : List TokenCall} (h : NewTokens cs)
    {rows : List RefreshTokenRecord}
    (hrows : ∀ r ∈ rows, ∀ x ∈ cs.filterMap TokenCall.creates, r.id ≠ x.1 ∧ r.tokenHash ≠ x.2) :
    (tokenRepository kind).Along TokenCall.Fresh cs rows := by
  induction cs generalizing rows with
  | nil => trivial
  | cons c cs ih =>
    have hcs : ∀ x ∈ cs.filterMap TokenCall.creates,
        x ∈ (c :: cs).filterMap TokenCall.creates := fun x hx => by
      obtain ⟨c', hc', hx⟩ := List.mem_filterMap.1 hx
      exact List.mem_filterMap.2 ⟨c', List.mem_cons_of_mem c hc', hx⟩
    refine ⟨fun data hop r hr => ?_, ih ?_ fun r hr x hx => ?_⟩
    · exact hrows r hr (c.id, data.tokenHash)
        (List.mem_filterMap.2 ⟨c, List.mem_cons_self, by simp [TokenCall.creates, hop]⟩)
    · have hsub : ((cs.filterMap TokenCall.creates)).Sublist
          ((c :: cs).filterMap TokenCall.creates) :=
        (List.sublist_cons_self c cs).filterMap _
      exact ⟨h.ids.sublist (hsub.map _), h.hashes.sublist (hsub.map _)⟩
    · rcases mem_exec_tokens hr with ⟨r₀, hr₀, hid, hhash⟩ | hc
      · rw [← hid, ← hhash]
        exact hrows r₀ hr₀ x (hcs x hx)
      · -- the row has just been created, and the later creates are others
        obtain ⟨hids, hhashes⟩ := h
        simp only [List.filterMap_cons, hc, List.map_cons, List.nodup_cons] at hids hhashes
        exact ⟨fun he => hids.1 (List.mem_map.2 ⟨x, hx, he.symm⟩),
          fun he => hhashes.1 (List.mem_map.2 ⟨x, hx, he.symm⟩)⟩

/-- **The refresh-token drivers are interchangeable.**  For every sequence of calls whose creates
are new and for existing accounts the three drivers give the same answers; and no client that
creates only such tokens and reads what it is answered at once can tell them apart, however it
chooses its calls. -/
theorem tokens_interchangeable (accounts : String → Bool) (D : DateText)
    (e : Engine SqliteRefreshTokenRow) (e' : Engine RefreshTokenRecord) :
    (∀ cs, NewTokens cs → (∀ c ∈ cs, c.OfAccount accounts) →
      (sqliteTokens D e).answers cs [] = memoryTokens.answers cs .empty ∧
      (prismaTokens accounts e').answers cs [] = memoryTokens.answers cs .empty) ∧
    ∀ next n, (tokenRepository .memory).DriveAlong
        (fun rows c => c.Fresh rows ∧ c.OfAccount accounts) next n [] [] →
      (sqliteTokens D e).drive next n [] [] = memoryTokens.drive next n [] .empty ∧
      (prismaTokens accounts e').drive next n [] [] = memoryTokens.drive next n [] .empty := by
  have hmemory := holdsTokens_empty
  have hdistinct : DistinctHashes [] := List.nodup_nil
  constructor
  · intro cs hnew haccounts
    have hfresh : ∀ {kind : StorageDriverKind},
        (tokenRepository kind).Along TokenCall.Fresh cs [] :=
      hnew.along (by simp)
    have hm := memoryTokens_refines.answers hmemory (Impl.along_of_all (fun _ _ => trivial) cs _)
    have hs := (sqliteTokens_refines D e).answers ⟨rfl, hdistinct⟩
      (Impl.along_of_all (fun _ _ => trivial) cs _)
    have hp := (prismaTokens_refines accounts e').answers ⟨rfl, hdistinct⟩
      (Impl.along_of_mem haccounts _)
    exact ⟨(hs.trans ((tokenRepository_same .memory .sqlite).answers rfl hfresh)).trans hm.symm,
      (hp.trans ((tokenRepository_same .memory .postgres).answers rfl hfresh)).trans hm.symm⟩
  · intro next n halong
    have hfresh : (tokenRepository .memory).DriveAlong TokenCall.Fresh next n [] [] :=
      halong.mono fun _ _ hc => hc.1
    -- on the Postgres side the calls are for existing accounts too, since they are the same calls
    have hpostgres := (tokenRepository_same .memory .postgres).driveAlong rfl hfresh
      (halong.mono fun _ _ hc => hc.2)
    have hm := memoryTokens_refines.drive hmemory
      (Impl.driveAlong_of_all (fun _ _ => trivial) next n [] _)
    have hs := (sqliteTokens_refines D e).drive ⟨rfl, hdistinct⟩
      (Impl.driveAlong_of_all (fun _ _ => trivial) next n [] _)
    have hp := (prismaTokens_refines accounts e').drive ⟨rfl, hdistinct⟩ hpostgres
    exact ⟨(hs.trans ((tokenRepository_same .memory .sqlite).drive rfl hfresh)).trans hm.symm,
      (hp.trans ((tokenRepository_same .memory .postgres).drive rfl hfresh)).trans hm.symm⟩

/-- A row that is revoked with its account, then again with a successor, and an id that no row
has. -/
def revokedTwice : List TokenCall :=
  [⟨.create ⟨"a", "h", 100⟩, "r1", 1⟩, ⟨.revokeAllForAccount "a", "", 2⟩,
    ⟨.revoke "r1" (some "r2"), "", 3⟩, ⟨.revoke "r9", "", 4⟩, ⟨.findByTokenHash "h", "", 5⟩]

/-- The calls of `revokedTwice`, each made when the one before has answered. -/
theorem tokens_interchangeable_revokedTwice :
    ((sqliteTokens .unary .oldest).answers revokedTwice [] =
        memoryTokens.answers revokedTwice .empty ∧
      (prismaTokens (· == "a") .newest).answers revokedTwice [] =
        memoryTokens.answers revokedTwice .empty) ∧
    (sqliteTokens .unary .oldest).drive (fun h => revokedTwice[h.length]?) 5 [] [] =
        memoryTokens.drive (fun h => revokedTwice[h.length]?) 5 [] .empty ∧
      (prismaTokens (· == "a") .newest).drive (fun h => revokedTwice[h.length]?) 5 [] [] =
        memoryTokens.drive (fun h => revokedTwice[h.length]?) 5 [] .empty := by
  obtain ⟨hsequence, hclient⟩ := tokens_interchangeable (· == "a") .unary .oldest .newest
  refine ⟨hsequence revokedTwice ⟨by decide, by decide⟩ ?_, hclient _ 5 ?_⟩
  · simp [revokedTwice, TokenCall.OfAccount]
  · simp [Impl.DriveAlong, revokedTwice, TokenCall.Fresh, TokenCall.OfAccount, tokenRepository,
      RefreshTokens.Fresh]

/-- A token of an account that is not in the accounts table. -/
def unknownAccount : List TokenCall :=
  [⟨.create ⟨"a", "h", 100⟩, "r1", 1⟩, ⟨.findByTokenHash "h", "", 2⟩]

/-- **A token of an unknown account** is found in memory and in SQLite; Postgres has rejected it. -/
theorem unknownAccount_differs :
    NewTokens unknownAccount ∧
    ((sqliteTokens .unary .oldest).answers unknownAccount []).getLast? =
      (memoryTokens.answers unknownAccount .empty).getLast? ∧
    ((prismaTokens (fun _ => false) .oldest).answers unknownAccount []).getLast? ≠
      (memoryTokens.answers unknownAccount .empty).getLast? := by
  refine ⟨⟨by decide, by decide⟩, rfl, ?_⟩
  simp only [unknownAccount, Impl.answers, prismaTokens, memoryTokens]
  simp [Engine.select_oldest]
  -- what is left compares no row with the row
  intro h
  cases Option.some.inj h

end Drivers

end HelixServer
