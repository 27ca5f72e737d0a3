import HelixServer.Drivers.AccountLinks
import HelixServer.Drivers.Accounts
import HelixServer.Drivers.IssuerKeys
import HelixServer.Drivers.RefreshTokens

/-!
# The storage backends

`server.ts` gives all repositories the same storage: a database of Postgres, an SQLite file, or
none.  A backend is the drivers of that storage over tables of their own, which are a map, rows with
dates as text, or rows that refer to the accounts table.  A call of a backend answers what the
repository of the model answers, or fails without effect (`Holding`).

## Main definitions

* `Backend` : the drivers of the four repositories.
* `Fits R x y r` : a driver answers `x` where the repository answers `y`, or fails and still holds
  `r`.
* `Holding B kind` : how the tables of the backend hold the rows of the repositories.
* `Engines`, `backend E kind`, `holding E kind` : the backend of each storage.
-/

namespace HelixServer

namespace Drivers

open Store

/-- The drivers of a storage.  A token or a key may refer to the accounts table. -/
structure Backend where
  accounts : Impl AccountCall AccountCall.Answer
  RefreshTokens : Type
  refreshTokens : accounts.State → (c : TokenCall) → RefreshTokens → c.Answer × RefreshTokens
  IssuerKeys : Type
  issuerKeys : accounts.State → (c : KeyCall) → IssuerKeys → c.Answer × IssuerKeys
  links : Impl LinkCall LinkCall.Answer

/-- The driver answers as the repository does, and then holds its rows, or it fails, and holds the
rows `r` that it held before. -/
def Fits {α ρ T : Type} (R : ρ → T → Prop) (x : Option α × T)
    (y : Except HelixError α × ρ) (r : ρ) : Prop :=
  match x.1 with
  | some a => y.1 = .ok a ∧ R y.2 x.2
  | none => R r x.2

theorem fits_of_same {α ρ T : Type} {R : ρ → T → Prop} {x : Option α × T}
    {y : Except HelixError α × ρ} {r : ρ} (hanswer : x.1 = y.1.toOption) (hnext : R y.2 x.2)
    (herror : ∀ e, y.1 = .error e → y.2 = r) : Fits R x y r := by
  unfold Fits
  rw [hanswer]
  cases hy : y.1 with
  | ok a => exact ⟨rfl, hnext⟩
  | error e => exact herror e hy ▸ hnext

/-- How the tables of a backend hold the rows of the repositories of a kind. -/
structure Holding (B : Backend) (kind : StorageDriverKind) where
  accounts : List AccountRecord → B.accounts.State → Prop
  refreshTokens : List RefreshTokenRecord → B.RefreshTokens → Prop
  issuerKeys : List IssuerKeyRecordRow → B.IssuerKeys → Prop
  links : B.links.State → List (String × String)
  accounts_exec : ∀ {rows t} (c : AccountCall), accounts rows t → c.Stored rows → c.OneHolder rows →
    Fits accounts (B.accounts.exec c t) (c.op.exec kind c.id c.now rows) rows
  refreshTokens_exec : ∀ {rows t} (a : B.accounts.State) (c : TokenCall), refreshTokens rows t →
    Fits refreshTokens (B.refreshTokens a c t) (c.op.exec kind c.id c.now rows) rows
  issuerKeys_exec : ∀ {rows t} (a : B.accounts.State) (c : KeyCall), issuerKeys rows t →
    Fits issuerKeys (B.issuerKeys a c t) (c.op.exec kind c.id c.now rows) rows
  links_exec : IsFirstWrite B.links links
  links_read : ∀ {o : AccountLinkOp} (now : ℕ) (t : B.links.State), (∀ key a, o ≠ .link key a) →
    (B.links.exec ⟨o, now⟩ t).2 = t

/-! ### Calls that fail, in the repositories -/

section Fits

variable {T : Type} {kind : StorageDriverKind}

theorem fits_accounts {D : Impl AccountCall AccountCall.Answer}
    {R : List AccountRecord → D.State → Prop}
    {G : List AccountRecord → AccountCall → Prop} (h : Simulates (accountRepository kind) D R G)
    {rows : List AccountRecord} {t : D.State} {c : AccountCall} (hr : R rows t) (hc : G rows c) :
    Fits R (D.exec c t) (c.op.exec kind c.id c.now rows) rows :=
  fits_of_same (h.answer rows t c hr hc) (h.next rows t c hr hc)
    fun _ he => (AccountOp.exec_error (Prod.ext he rfl)).1

theorem fits_tokens {D : Impl TokenCall TokenCall.Answer}
    {R : List RefreshTokenRecord → D.State → Prop} {G : List RefreshTokenRecord → TokenCall → Prop}
    (h : Simulates (tokenRepository kind) D R G) {rows : List RefreshTokenRecord} {t : D.State}
    {c : TokenCall} (hr : R rows t) (hc : G rows c) :
    Fits R (D.exec c t) (c.op.exec kind c.id c.now rows) rows :=
  fits_of_same (h.answer rows t c hr hc) (h.next rows t c hr hc)
    fun _ he => (RefreshTokenOp.exec_error (Prod.ext he rfl)).1

theorem fits_keys {D : Impl KeyCall KeyCall.Answer} {R : List IssuerKeyRecordRow → D.State → Prop}
    {G : List IssuerKeyRecordRow → KeyCall → Prop} (h : Simulates (keyRepository kind) D R G)
    {rows : List IssuerKeyRecordRow} {t : D.State} {c : KeyCall} (hr : R rows t) (hc : G rows c) :
    Fits R (D.exec c t) (c.op.exec kind c.id c.now rows) rows :=
  fits_of_same (h.answer rows t c hr hc) (h.next rows t c hr hc)
    fun _ he => (IssuerKeyOp.exec_error (Prod.ext he rfl)).1

end Fits

theorem sqlLinks_read {ρ : Type} {row : String → String → ℕ → ρ} {key accountId : ρ → String}
    {e : Engine ρ} {l : Listing ρ} {o : AccountLinkOp} (now : ℕ) (table : List ρ)
    (h : ∀ key a, o ≠ .link key a) :
    ((sqlLinks row key accountId e l).exec ⟨o, now⟩ table).2 = table := by
  cases o with
  | link key a => exact absurd rfl (h key a)
  | _ => rfl

/-! ### Without a database -/

/-- The maps of the process. -/
def memoryBackend : Backend where
  accounts := memoryAccounts
  RefreshTokens := memoryTokens.State
  refreshTokens _ := memoryTokens.exec
  IssuerKeys := memoryKeys.State
  issuerKeys _ := memoryKeys.exec
  links := memoryLinks

def memoryHolding : Holding memoryBackend .memory where
  accounts := HoldsAccounts
  refreshTokens := HoldsTokens
  issuerKeys := HoldsKeys
  links := id
  accounts_exec _ h _ _ := fits_accounts memoryAccounts_refines h trivial
  refreshTokens_exec _ _ h := fits_tokens memoryTokens_refines h trivial
  issuerKeys_exec _ _ h := fits_keys memoryKeys_refines h trivial
  links_exec := isFirstWrite_memory
  links_read := by
    intro o now t h
    cases o with
    | link key a => exact absurd rfl (h key a)
    | _ => rfl

/-! ### SQL -/

/-- What SQL leaves open: the text of dates, which of several rows is answered, and in what
order. -/
structure Engines where
  dates : DateText
  sqliteAccounts : Engine SqliteAccountRow
  sqliteTokens : Engine SqliteRefreshTokenRow
  sqliteKeys : Engine SqliteIssuerKeyRow
  sqliteLinks : Engine SqliteAccountLinkRow
  sqliteListing : Listing SqliteAccountLinkRow
  accounts : Engine AccountRecord
  refreshTokens : Engine RefreshTokenRecord
  issuerKeys : Engine IssuerKeyRecordRow
  links : Engine AccountLink
  listing : Listing AccountLink

variable (E : Engines)

/-- The tables of an SQLite file. -/
def sqliteBackend : Backend where
  accounts := sqliteAccounts E.dates E.sqliteAccounts
  RefreshTokens := (sqliteTokens E.dates E.sqliteTokens).State
  refreshTokens _ := (sqliteTokens E.dates E.sqliteTokens).exec
  IssuerKeys := (sqliteKeys E.dates E.sqliteKeys).State
  issuerKeys _ := (sqliteKeys E.dates E.sqliteKeys).exec
  links := sqliteLinks E.dates E.sqliteLinks E.sqliteListing

def sqliteHolding : Holding (sqliteBackend E) .sqlite where
  accounts rows table := table = rows.map (sqliteAccountRow E.dates) ∧ Unique rows
  refreshTokens rows table := table = rows.map (sqliteRow E.dates) ∧ DistinctHashes rows
  issuerKeys rows table := table = rows.map (sqliteKeyRow E.dates) ∧ DistinctKeys rows
  links := List.map (entry SqliteAccountLinkRow.key SqliteAccountLinkRow.account_id)
  accounts_exec _ h hstored hone :=
    fits_accounts (sqliteAccounts_refines E.sqliteAccounts) h ⟨hstored, hone⟩
  refreshTokens_exec _ _ h := fits_tokens (sqliteTokens_refines E.dates E.sqliteTokens) h trivial
  issuerKeys_exec _ _ h := fits_keys (sqliteKeys_refines E.dates E.sqliteKeys) h trivial
  links_exec := isFirstWrite_sqlLinks (fun _ _ _ => rfl) (fun _ _ _ => rfl) _ _
  links_read := sqlLinks_read

/-- The ids of the accounts table. -/
def hasAccount (table : List AccountRecord) (id : String) : Bool := table.any (·.id == id)

/-- The tables of a Postgres database. -/
def prismaBackend : Backend where
  accounts := prismaAccounts E.accounts
  RefreshTokens := List RefreshTokenRecord
  refreshTokens (table : List AccountRecord) :=
    (prismaTokens (hasAccount table) E.refreshTokens).exec
  IssuerKeys := List IssuerKeyRecordRow
  issuerKeys (table : List AccountRecord) := (prismaKeys (hasAccount table) E.issuerKeys).exec
  links := prismaLinks E.links E.listing

/-- A token of a missing account is refused; the driver refines the repository otherwise. -/
theorem fits_prismaTokens {accounts : String → Bool} {e : Engine RefreshTokenRecord}
    {rows table : List RefreshTokenRecord} (c : TokenCall)
    (h : table = rows ∧ DistinctHashes rows) :
    Fits (fun rows table => table = rows ∧ DistinctHashes rows)
      ((prismaTokens accounts e).exec c table)
      (c.op.exec .postgres c.id c.now rows) rows := by
  by_cases haccount : c.OfAccount accounts
  · exact fits_tokens (prismaTokens_refines accounts e) h haccount
  · obtain ⟨op, id, now⟩ := c
    cases op with
    | create data =>
      have hno : accounts data.accountId = false := by
        by_contra hyes
        exact haccount fun data' hdata' => by
          cases hdata'
          exact (Bool.not_eq_false _).mp hyes
      have hfails : (prismaTokens accounts e).exec ⟨.create data, id, now⟩ table =
          (none, table) := by
        simp [prismaTokens, hno]
      rw [hfails]
      exact h
    | _ => exact absurd (fun data hdata => by cases hdata) haccount

theorem fits_prismaKeys {accounts : String → Bool} {e : Engine IssuerKeyRecordRow}
    {rows table : List IssuerKeyRecordRow} (c : KeyCall) (h : table = rows ∧ DistinctKeys rows) :
    Fits (fun rows table => table = rows ∧ DistinctKeys rows) ((prismaKeys accounts e).exec c table)
      (c.op.exec .postgres c.id c.now rows) rows := by
  by_cases haccount : c.OfAccount accounts
  · exact fits_keys (prismaKeys_refines accounts e) h haccount
  · obtain ⟨op, id, now⟩ := c
    cases op with
    | create data =>
      have hno : accounts data.accountId = false := by
        by_contra hyes
        exact haccount fun k hk => by
          obtain rfl := Option.some.inj hk
          exact (Bool.not_eq_false _).mp hyes
      have hfails : (prismaKeys accounts e).exec ⟨.create data, id, now⟩ table = (none, table) := by
        simp [prismaKeys, hno]
      rw [hfails]
      exact h
    | findByAccountId accountId => exact absurd (fun k hk => by cases hk) haccount

def prismaHolding : Holding (prismaBackend E) .postgres where
  accounts rows table := table = rows ∧ Unique rows
  refreshTokens rows table := table = rows ∧ DistinctHashes rows
  issuerKeys rows table := table = rows ∧ DistinctKeys rows
  links := List.map (entry AccountLink.key AccountLink.accountId)
  accounts_exec _ h _ hone := fits_accounts (prismaAccounts_refines E.accounts) h hone
  refreshTokens_exec _ c h := fits_prismaTokens c h
  issuerKeys_exec _ c h := fits_prismaKeys c h
  links_exec := isFirstWrite_sqlLinks (fun _ _ _ => rfl) (fun _ _ _ => rfl) _ _
  links_read := sqlLinks_read

/-- The backend of each storage. -/
def backend : StorageDriverKind → Backend
  | .postgres => prismaBackend E
  | .sqlite => sqliteBackend E
  | .memory => memoryBackend

def holding : (kind : StorageDriverKind) → Holding (backend E kind) kind
  | .postgres => prismaHolding E
  | .sqlite => sqliteHolding E
  | .memory => memoryHolding

end Drivers

end HelixServer
