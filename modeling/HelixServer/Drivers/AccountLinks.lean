import HelixServer.Drivers.Storage
import HelixServer.Repositories.AccountLink
import HelixServer.Store.FirstWrite
import HelixServer.Store.Impl

/-!
# The backends of the account-link repository

`repositories/account-links.repository.ts`: one class with three backends, a Postgres table with
`ON CONFLICT DO NOTHING`, an SQLite table with `INSERT OR IGNORE`, and a map.  Each of them is a map
in which the first write of a key wins (`linkBackend_isFirstWrite`), so they give the same answers,
up to the order of lists (`links_firstWrite`).

## Main definitions

* `LinkCall` : a call of the repository and the time it is made at.
* `prismaLinks`, `sqliteLinks`, `memoryLinks` : the backends.
* `LinkBackend` : a backend with its empty store; `B.after ls` is the store after the links `ls`.
* `IsFirstWrite S entries` : seen through `entries`, the backend is a `FirstWrite`.
-/

namespace HelixServer

namespace Drivers

open Store

/-- A call of the link repository, and the time. -/
structure LinkCall where
  op : AccountLinkOp
  now : ℕ

/-- What a call answers. -/
abbrev LinkCall.Answer (c : LinkCall) : Type := c.op.Res

/-- The order in which a SQL engine lists the rows of a `SELECT` without `ORDER BY`. -/
structure Listing (ρ : Type) where
  list : List ρ → List ρ
  perm : ∀ l, (list l).Perm l

/-- The repository that the routes are modelled on. -/
def linkRepository : Impl LinkCall LinkCall.Answer where
  State := List AccountLink
  exec
    | ⟨.link key accountId, now⟩, rows => ((), AccountLinks.link key accountId now rows)
    | ⟨.getAccountId key, _⟩, rows => (AccountLinks.getAccountId key rows, rows)
    | ⟨.listKeysForAccount accountId, _⟩, rows =>
      (AccountLinks.listKeysForAccount accountId rows, rows)

/-- A SQL table of links: an insert of a key that is there does nothing. -/
def sqlLinks {ρ : Type} (row : (key accountId : String) → (now : ℕ) → ρ)
    (key accountId : ρ → String)
    (e : Engine ρ) (o : Listing ρ) : Impl LinkCall LinkCall.Answer where
  State := List ρ
  exec
    | ⟨.link k a, now⟩, table =>
      ((), if table.any (key · == k) then table else table ++ [row k a now])
    | ⟨.getAccountId k, _⟩, table => ((e.select (key · == k) table).map accountId, table)
    | ⟨.listKeysForAccount a, _⟩, table =>
      ((o.list (table.filter (accountId · == a))).map key, table)

/-- The Postgres backend: `INSERT … ON CONFLICT (key) DO NOTHING`. -/
def prismaLinks : Engine AccountLink → Listing AccountLink → Impl LinkCall LinkCall.Answer :=
  sqlLinks AccountLink.mk AccountLink.key AccountLink.accountId

/-- A row of an SQLite link table. -/
structure SqliteAccountLinkRow where
  key : String
  account_id : String
  created_at : String

/-- The SQLite backend: `INSERT OR IGNORE` into a table with the key as its primary key. -/
def sqliteLinks (D : DateText) :
    Engine SqliteAccountLinkRow → Listing SqliteAccountLinkRow → Impl LinkCall LinkCall.Answer :=
  sqlLinks (fun key accountId now => ⟨key, accountId, D.write now⟩) SqliteAccountLinkRow.key
    SqliteAccountLinkRow.account_id

/-- The backend of a process without a database: `memory`. -/
def memoryLinks : Impl LinkCall LinkCall.Answer where
  State := List (String × String)
  exec
    | ⟨.link key accountId, _⟩, memory =>
      ((), if memory.any (·.1 == key) then memory else JsMap.set key accountId memory)
    | ⟨.getAccountId key, _⟩, memory => (JsMap.get key memory, memory)
    | ⟨.listKeysForAccount accountId, _⟩, memory =>
      ((memory.filter (·.2 == accountId)).map (·.1), memory)

/-! ### Backends as maps -/

/-- Seen through `entries`, the implementation is a map in which the first write of a key wins. -/
structure IsFirstWrite (S : Impl LinkCall LinkCall.Answer)
    (entries : S.State → List (String × String)) : Prop where
  link : ∀ s key a now, entries (S.exec ⟨.link key a, now⟩ s).2 =
    FirstWrite.writeEntry key a (entries s)
  getAccountId : ∀ (m : FirstWrite String String) s key now, entries s = m.entries →
    (S.exec ⟨.getAccountId key, now⟩ s).1 = m.lookup key
  listKeysForAccount : ∀ (m : FirstWrite String String) s a now, entries s = m.entries →
    List.Perm (S.exec ⟨.listKeysForAccount a, now⟩ s).1 (m.keysOf a)

theorem setIfNew_eq (key a : String) (memory : List (String × String)) :
    (if memory.any (·.1 == key) then memory else JsMap.set key a memory) =
      FirstWrite.writeEntry key a memory := by
  unfold FirstWrite.writeEntry JsMap.set
  split_ifs <;> rfl

theorem isFirstWrite_memory : IsFirstWrite memoryLinks id where
  link m key a now := setIfNew_eq key a m
  getAccountId m s key now h := by
    obtain rfl : s = m.entries := h
    rfl
  listKeysForAccount m s a now h := by
    obtain rfl : s = m.entries := h
    exact List.Perm.refl _

section

variable {ρ : Type} {row : String → String → ℕ → ρ} {key accountId : ρ → String}

/-- The key and the account of a row. -/
def entry (key accountId : ρ → String) (r : ρ) : String × String := (key r, accountId r)

theorem map_insert (hkey : ∀ k a now, key (row k a now) = k)
    (haccount : ∀ k a now, accountId (row k a now) = a) (k a : String) (now : ℕ) (table : List ρ) :
    (if table.any (key · == k) then table else table ++ [row k a now]).map (entry key accountId) =
      FirstWrite.writeEntry k a (table.map (entry key accountId)) := by
  have hany : ((table.map (entry key accountId)).any fun e => e.1 == k) =
      table.any (key · == k) := by
    rw [List.any_map]
    rfl
  unfold FirstWrite.writeEntry
  rw [hany]
  split_ifs
  · rfl
  · rw [List.map_append, List.map_cons, List.map_nil, entry, hkey, haccount]

/-- **A table with a primary key** is such a map: at most one of its rows can answer a look-up. -/
theorem isFirstWrite_sqlLinks (hkey : ∀ k a now, key (row k a now) = k)
    (haccount : ∀ k a now, accountId (row k a now) = a) (e : Engine ρ) (o : Listing ρ) :
    IsFirstWrite (sqlLinks row key accountId e o) (List.map (entry key accountId)) where
  link table k a now := map_insert hkey haccount k a now table
  getAccountId := by
    intro m (table : List ρ) k now (h : table.map (entry key accountId) = m.entries)
    have hnodup : (table.map key).Nodup := by
      have hm := m.nodup
      rw [← h, List.map_map] at hm
      exact hm
    have hselect : e.select (key · == k) table = table.find? (key · == k) := by
      refine e.select_of_unique fun r hr r' hr' hk hk' => ?_
      exact List.inj_on_of_nodup_map hnodup hr hr' ((eq_of_beq hk).trans (eq_of_beq hk').symm)
    have hlookup : m.lookup k = (table.find? (key · == k)).map accountId := by
      rw [FirstWrite.lookup, ← h, List.find?_map, Option.map_map]
      rfl
    rw [hlookup, ← hselect]
    rfl
  listKeysForAccount := by
    intro m (table : List ρ) a now (h : table.map (entry key accountId) = m.entries)
    have hkeys : m.keysOf a = (table.filter (accountId · == a)).map key := by
      rw [FirstWrite.keysOf, ← h, List.filter_map, List.map_map]
      rfl
    rw [hkeys]
    exact (o.perm _).map key

end

theorem isFirstWrite_linkRepository :
    IsFirstWrite linkRepository (List.map (entry AccountLink.key AccountLink.accountId)) where
  link rows key a now :=
    @map_insert _ AccountLink.mk _ _ (fun _ _ _ => rfl) (fun _ _ _ => rfl) key a now rows
  getAccountId := by
    intro m (rows : List AccountLink) key now
      (h : rows.map (entry AccountLink.key AccountLink.accountId) = m.entries)
    rw [FirstWrite.lookup, ← h, List.find?_map, Option.map_map]
    rfl
  listKeysForAccount := by
    intro m (rows : List AccountLink) a now
      (h : rows.map (entry AccountLink.key AccountLink.accountId) = m.entries)
    have hkeys : m.keysOf a = AccountLinks.listKeysForAccount a rows := by
      rw [FirstWrite.keysOf, ← h, List.filter_map, List.map_map]
      rfl
    rw [hkeys]
    exact List.Perm.refl _

/-! ### What a sequence of links leaves -/

/-- A backend with its empty store. -/
structure LinkBackend where
  impl : Impl LinkCall LinkCall.Answer
  empty : impl.State

/-- A link: the key, the account, and the time. -/
structure Link where
  key : String
  accountId : String
  now : ℕ

namespace LinkBackend

variable (B : LinkBackend)

/-- The store after a sequence of links. -/
def after (links : List Link) : B.impl.State :=
  links.foldl (fun s l => (B.impl.exec ⟨.link l.key l.accountId, l.now⟩ s).2) B.empty

/-- What `getAccountId` then answers. -/
def getAccountId (links : List Link) (key : String) (now : ℕ) : Option String :=
  (B.impl.exec ⟨.getAccountId key, now⟩ (B.after links)).1

/-- What `listKeysForAccount` then answers. -/
def listKeysForAccount (links : List Link) (accountId : String) (now : ℕ) : List String :=
  (B.impl.exec ⟨.listKeysForAccount accountId, now⟩ (B.after links)).1

end LinkBackend

/-- The backend of each storage adapter; the choices that SQL leaves open are those of the
engines. -/
def linkBackend (D : DateText) (e : Engine SqliteAccountLinkRow) (o : Listing SqliteAccountLinkRow)
    (e' : Engine AccountLink) (o' : Listing AccountLink) : StorageDriverKind → LinkBackend
  | .postgres => ⟨prismaLinks e' o', []⟩
  | .sqlite => ⟨sqliteLinks D e o, []⟩
  | .memory => ⟨memoryLinks, []⟩

/-- The map of the first links. -/
def firstLinks (links : List Link) : FirstWrite String String :=
  FirstWrite.empty.writes (links.map fun l => (l.key, l.accountId))

/-- After every sequence of links, the store is the map of the first links. -/
theorem IsFirstWrite.entries_after {B : LinkBackend}
    {entries : B.impl.State → List (String × String)}
    (h : IsFirstWrite B.impl entries) (hempty : entries B.empty = []) (links : List Link) :
    entries (B.after links) = (firstLinks links).entries := by
  have hrun : ∀ (s : B.impl.State) (m : FirstWrite String String), entries s = m.entries →
      entries (links.foldl (fun s l => (B.impl.exec ⟨.link l.key l.accountId, l.now⟩ s).2) s) =
        (m.writes (links.map fun l => (l.key, l.accountId))).entries := by
    induction links with
    | nil => exact fun _ _ hs => hs
    | cons l links ih =>
      intro s m hs
      refine ih _ (m.write l.key l.accountId) ?_
      rw [h.link, hs, FirstWrite.entries_write]
  exact hrun B.empty FirstWrite.empty hempty

theorem IsFirstWrite.answers {B : LinkBackend} {entries : B.impl.State → List (String × String)}
    (h : IsFirstWrite B.impl entries) (hempty : entries B.empty = []) (links : List Link) :
    (∀ key now, B.getAccountId links key now = (firstLinks links).lookup key) ∧
      ∀ a now, (B.listKeysForAccount links a now).Perm ((firstLinks links).keysOf a) := by
  have hentries := h.entries_after hempty links
  exact ⟨fun key now => h.getAccountId _ _ key now hentries,
    fun a now => h.listKeysForAccount _ _ a now hentries⟩

variable {D : DateText} {e : Engine SqliteAccountLinkRow} {o : Listing SqliteAccountLinkRow}
  {e' : Engine AccountLink} {o' : Listing AccountLink}

/-- **Every backend is a map in which the first write of a key wins.** -/
theorem linkBackend_isFirstWrite (kind : StorageDriverKind) (links : List Link) :
    (∀ key now, (linkBackend D e o e' o' kind).getAccountId links key now =
        (firstLinks links).lookup key) ∧
      ∀ a now, ((linkBackend D e o e' o' kind).listKeysForAccount links a now).Perm
        ((firstLinks links).keysOf a) := by
  cases kind with
  | postgres =>
    exact (isFirstWrite_sqlLinks (fun _ _ _ => rfl) (fun _ _ _ => rfl) e' o').answers rfl links
  | sqlite =>
    exact (isFirstWrite_sqlLinks (fun _ _ _ => rfl) (fun _ _ _ => rfl) e o).answers rfl links
  | memory => exact isFirstWrite_memory.answers rfl links

/-- The repository that the routes are modelled on gives the answers of every backend. -/
theorem linkRepository_same (kind : StorageDriverKind) (links : List Link) :
    let repository : LinkBackend := ⟨linkRepository, []⟩
    (∀ key now, repository.getAccountId links key now =
        (linkBackend D e o e' o' kind).getAccountId links key now) ∧
      ∀ a now, (repository.listKeysForAccount links a now).Perm
        ((linkBackend D e o e' o' kind).listKeysForAccount links a now) := by
  intro repository
  have hrepository := @IsFirstWrite.answers repository _ isFirstWrite_linkRepository rfl links
  have hbackend := @linkBackend_isFirstWrite D e o e' o' kind links
  exact ⟨fun key now => (hrepository.1 key now).trans (hbackend.1 key now).symm,
    fun a now => (hrepository.2 a now).trans (hbackend.2 a now).symm⟩

/-- **Account links** are the same map on every backend.  After every sequence of links, a key has
the account of its first link, the list of an account has each key of the account once and no other,
no key is on the lists of two accounts, and all backends give the same answers, up to the order of
lists. -/
theorem links_firstWrite (D : DateText) (e : Engine SqliteAccountLinkRow)
    (o : Listing SqliteAccountLinkRow) (e' : Engine AccountLink) (o' : Listing AccountLink)
    (links : List Link) (now : ℕ) :
    let getAccountId := fun kind key => (linkBackend D e o e' o' kind).getAccountId links key now
    let listKeys := fun kind a => (linkBackend D e o e' o' kind).listKeysForAccount links a now
    (∀ kind, (∀ key, getAccountId kind key =
          (links.find? (·.key == key)).map (·.accountId)) ∧
        (∀ a, (listKeys kind a).Nodup ∧
          ∀ key, key ∈ listKeys kind a ↔ getAccountId kind key = some a) ∧
        ∀ a a', a ≠ a' → List.Disjoint (listKeys kind a) (listKeys kind a')) ∧
      ∀ kind kind', (∀ key, getAccountId kind key = getAccountId kind' key) ∧
        ∀ a, (listKeys kind a).Perm (listKeys kind' a) := by
  intro getAccountId listKeys
  have hget : ∀ kind key, getAccountId kind key = (firstLinks links).lookup key :=
    fun kind key => (linkBackend_isFirstWrite kind links).1 key now
  have hlist : ∀ kind a, (listKeys kind a).Perm ((firstLinks links).keysOf a) :=
    fun kind a => (linkBackend_isFirstWrite kind links).2 a now
  have hmem : ∀ kind a key, key ∈ listKeys kind a ↔ getAccountId kind key = some a := by
    intro kind a key
    rw [(hlist kind a).mem_iff, FirstWrite.mem_keysOf, hget]
  refine ⟨fun kind => ⟨fun key => ?_, fun a => ⟨?_, hmem kind a⟩, ?_⟩, fun kind kind' => ⟨?_, ?_⟩⟩
  · rw [hget, firstLinks, FirstWrite.lookup_writes, FirstWrite.lookup_empty, Option.none_or,
      List.find?_map, Option.map_map]
    rfl
  · exact (hlist kind a).nodup_iff.2 (FirstWrite.nodup_keysOf _ a)
  · intro a a' hne key hk hk'
    exact hne (Option.some.inj (((hmem kind a key).1 hk).symm.trans ((hmem kind a' key).1 hk')))
  · exact fun key => (hget kind key).trans (hget kind' key).symm
  · exact fun a => (hlist kind a).trans (hlist kind' a).symm

end Drivers

end HelixServer
