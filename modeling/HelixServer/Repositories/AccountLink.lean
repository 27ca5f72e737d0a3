import HelixServer.Model.Runtime

/-!
# The account-link repository

Three side tables with one shape, `key ↦ accountId`, attribute a credential, an enrollment token
or an onboarding challenge of `@helixid/core` to the hosted account that caused it.  The first
write of a key wins on every backend.
-/

namespace HelixServer

/-- The link tables. -/
inductive AccountLinkTable where
  | vcAccountLinks
  | enrollmentTokenAccountLinks
  | challengeAccountLinks
  deriving DecidableEq, Repr

/-- A row of a link table. -/
structure AccountLink where
  key : String
  accountId : String
  createdAt : ℕ
  deriving DecidableEq

/-- The repository's methods. -/
inductive AccountLinkOp where
  | link (key accountId : String)
  | getAccountId (key : String)
  | listKeysForAccount (accountId : String)

/-- What each method answers. -/
def AccountLinkOp.Res : AccountLinkOp → Type
  | .link _ _ => Unit
  | .getAccountId _ => Option String
  | .listKeysForAccount _ => List String

namespace AccountLinks

/-- `link`: insert the key unless it is there. -/
def link (key accountId : String) (now : ℕ) (rows : List AccountLink) : List AccountLink :=
  if rows.any (·.key == key) then rows else rows ++ [⟨key, accountId, now⟩]

/-- `getAccountId`. -/
def getAccountId (key : String) (rows : List AccountLink) : Option String :=
  (rows.find? (·.key == key)).map (·.accountId)

/-- `listKeysForAccount`. -/
def listKeysForAccount (accountId : String) (rows : List AccountLink) : List String :=
  (rows.filter (·.accountId == accountId)).map (·.key)

variable {rows : List AccountLink} {key k a : String} {now : ℕ}

/-- A new key is linked to the account of its first link; every other key keeps its account. -/
theorem getAccountId_link :
    getAccountId k (link key a now rows) =
      if key = k ∧ getAccountId key rows = none then some a else getAccountId k rows := by
  simp only [link]
  by_cases hany : rows.any (·.key == key) = true
  · have hne : getAccountId key rows ≠ none := by
      simp only [getAccountId, ne_eq, Option.map_eq_none_iff, List.find?_eq_none, not_forall,
        not_not]
      simpa using hany
    simp [hany, hne]
  · have hnone : rows.find? (fun x => x.key == key) = none := by simpa using hany
    have hk : getAccountId key rows = none := by simp [getAccountId, hnone]
    simp only [hany, Bool.false_eq_true, if_false, hk, and_true]
    by_cases h : key = k
    · subst h
      simp [getAccountId, List.find?_append, hnone]
    · simp [getAccountId, List.find?_append, h]

theorem getAccountId_ne_none (h : key ∈ listKeysForAccount a rows) :
    getAccountId key rows ≠ none := by
  obtain ⟨row, hrow, rfl⟩ := List.mem_map.1 h
  simp only [getAccountId, ne_eq, Option.map_eq_none_iff, List.find?_eq_none, not_forall, not_not]
  exact ⟨row, (List.mem_filter.1 hrow).1, beq_self_eq_true _⟩

end AccountLinks

/-- The effect of a method. -/
def AccountLinkOp.exec (now : ℕ) :
    (o : AccountLinkOp) → List AccountLink → Except HelixError o.Res × List AccountLink
  | .link key accountId, rows => (.ok (), AccountLinks.link key accountId now rows)
  | .getAccountId key, rows => (.ok (AccountLinks.getAccountId key rows), rows)
  | .listKeysForAccount accountId, rows =>
    (.ok (AccountLinks.listKeysForAccount accountId rows), rows)

end HelixServer
