import HelixServer.Repositories.Account
import HelixServer.Store.Update

/-!
# The `UPDATE` of the Postgres account driver

`PrismaAccountStorageDriver.update` builds its statement in a loop over the patch: a `SET` clause
and a value for each key, with a counter for the placeholder, and then two more values at other
offsets.  The statement is the update that the repository is modelled by (`prismaUpdate_refines`):
every value meets its own column (`prismaUpdate_binds`).

## Main definitions

* `SqlValue` : a value of a column.
* `UpdateBuilder` : the variables of the loop, and `UpdateBuilder.push` its body.
* `prismaUpdate id patch now` : the statement and the values that are sent with it.
* `accountRow` : an account as a row of the table.
-/

namespace HelixServer

namespace Drivers

open Store

/-- A value of a column. -/
inductive SqlValue where
  | null
  | text (value : String)
  | timestamp (ms : ℕ)
  deriving DecidableEq

/-- A nullable text. -/
def SqlValue.ofText : Option String → SqlValue
  | none => null
  | some value => text value

/-- A nullable date. -/
def SqlValue.ofDate : Option ℕ → SqlValue
  | none => null
  | some ms => timestamp ms

/-- The value of an entry of a patch. -/
def assignedValue : AccountAssign → SqlValue
  | .email v => .text v
  | .passwordHash v => .ofText v
  | .googleId v => .ofText v
  | .issuerDid v => .ofText v
  | .companyName v => .ofText v
  | .fieldOfOperation v => .ofText v
  | .emailVerifiedAt v => .ofDate v
  | .emailVerificationTokenHash v => .ofText v
  | .emailVerificationExpiresAt v => .ofDate v
  | .createdAt v => .timestamp v

/-- The variables of the loop. -/
structure UpdateBuilder where
  setClauses : List (SetClause String)
  values : List SqlValue
  i : ℕ

/-- The body of the loop, for one entry of the patch. -/
def UpdateBuilder.push (b : UpdateBuilder) (x : AccountAssign) : UpdateBuilder where
  setClauses := b.setClauses ++ [⟨x.key, b.i⟩]
  values := b.values ++ [assignedValue x]
  i := b.i + 1

/-- The statement and the values that `update` sends. -/
def prismaUpdate (id : String) (patch : AccountPatch) (now : ℕ) : Update String × List SqlValue :=
  let b := patch.foldl UpdateBuilder.push ⟨[], [], 1⟩
  ({ set := b.setClauses ++ [⟨"updatedAt", b.i⟩], key := "id", keyPlaceholder := b.i + 1 },
    b.values ++ [.timestamp now, .text id])

/-- The text of the statement. -/
def updateText (u : Update String) : String :=
  "UPDATE \"accounts\" SET " ++
    String.intercalate ", "
      (u.set.map fun x => "\"" ++ x.column ++ "\" = $" ++ toString x.placeholder) ++
    " WHERE \"" ++ u.key ++ "\" = $" ++ toString u.keyPlaceholder ++ " RETURNING *"

example : updateText (prismaUpdate "acct:1" [.googleId (some "g")] 5).1 =
    "UPDATE \"accounts\" SET \"googleId\" = $1, \"updatedAt\" = $2 WHERE \"id\" = $3 RETURNING *"
      := by
  decide

/-- The unique indexes of the table. -/
def accountsSchema : Schema String SqlValue := ⟨["id", "email", "googleId", "issuerDid"], .null⟩

/-! ### The loop -/

variable {id : String} {patch patch' : AccountPatch} {now now' : ℕ}

/-- **After the loop** the placeholders count the entries of the patch. -/
theorem foldl_push (patch : AccountPatch) (b : UpdateBuilder) :
    patch.foldl UpdateBuilder.push b =
      ⟨b.setClauses ++ (patch.zipIdx b.i).map fun x => ⟨x.1.key, x.2⟩,
        b.values ++ patch.map assignedValue, b.i + patch.length⟩ := by
  induction patch generalizing b with
  | nil => simp
  | cons x patch ih =>
    rw [List.foldl_cons, ih]
    simp only [UpdateBuilder.push, List.zipIdx_cons, List.map_cons, List.append_assoc,
      List.singleton_append, List.length_cons]
    congr 1
    omega

theorem prismaUpdate_eq : prismaUpdate id patch now =
    ({ set := ((patch.zipIdx 1).map fun x => ⟨x.1.key, x.2⟩) ++ [⟨"updatedAt", patch.length + 1⟩]
       key := "id"
       keyPlaceholder := patch.length + 2 },
      patch.map assignedValue ++ [.timestamp now, .text id]) := by
  simp only [prismaUpdate, foldl_push, List.nil_append, Nat.add_comm 1]

/-- The placeholders are `$1`, …, `$(k + 2)`, each used once, in this order. -/
theorem placeholders_prismaUpdate :
    (prismaUpdate id patch now).1.placeholders = List.range' 1 (patch.length + 2) := by
  have hloop : ((patch.zipIdx 1).map fun x => x.2) = List.range' 1 patch.length :=
    List.zipIdx_map_snd 1 patch
  have hend : List.range' 1 (patch.length + 2) =
      List.range' 1 patch.length ++ [patch.length + 1, patch.length + 2] := by
    rw [← List.range'_append_1, Nat.add_comm 1]
    rfl
  rw [prismaUpdate_eq, hend]
  simp only [Update.placeholders, List.map_append, List.map_map, List.map_cons, List.map_nil,
    Function.comp_def, hloop, List.append_assoc]
  rfl

theorem length_prismaUpdate : (prismaUpdate id patch now).2.length = patch.length + 2 := by
  rw [prismaUpdate_eq]
  simp

theorem columns_prismaUpdate :
    (prismaUpdate id patch now).1.set.map (·.column) =
      patch.map AccountAssign.key ++ ["updatedAt"] := by
  have hloop : ((patch.zipIdx 1).map fun x => x.1.key) = patch.map AccountAssign.key := by
    have hkeys := congrArg (List.map AccountAssign.key) (List.zipIdx_map_fst 1 patch)
    rwa [List.map_map] at hkeys
  rw [prismaUpdate_eq]
  simp only [List.map_append, List.map_map, Function.comp_def, hloop, List.map_cons, List.map_nil]

theorem clause_of_mem {x : AccountAssign} (hx : x ∈ patch) :
    ∃ clause ∈ (prismaUpdate id patch now).1.set, clause.column = x.key ∧
      param (prismaUpdate id patch now).2 clause.placeholder = some (assignedValue x) := by
  obtain ⟨k, hk, rfl⟩ := List.mem_iff_getElem.1 hx
  rw [prismaUpdate_eq]
  refine ⟨⟨patch[k].key, k + 1⟩, ?_, rfl, ?_⟩
  · refine List.mem_append_left _ (List.mem_map.2 ⟨(patch[k], k + 1), ?_, rfl⟩)
    rw [List.mk_mem_zipIdx_iff_le_and_getElem?_sub]
    exact ⟨by omega, List.getElem?_eq_getElem hk⟩
  · have hk' : k < (patch.map assignedValue).length := by simpa using hk
    simp [param, List.getElem?_append_left hk', hk]

theorem clause_updatedAt :
    ∃ clause ∈ (prismaUpdate id patch now).1.set, clause.column = "updatedAt" ∧
      param (prismaUpdate id patch now).2 clause.placeholder = some (.timestamp now) := by
  rw [prismaUpdate_eq]
  refine ⟨⟨"updatedAt", patch.length + 1⟩, by simp, rfl, ?_⟩
  simp [param]

theorem param_key : param (prismaUpdate id patch now).2
    (prismaUpdate id patch now).1.keyPlaceholder = some (.text id) := by
  rw [prismaUpdate_eq]
  simp [param]

theorem key_ne_updatedAt (x : AccountAssign) : x.key ≠ "updatedAt" := by
  cases x <;> simp [AccountAssign.key]

theorem key_ne_id (x : AccountAssign) : x.key ≠ "id" := by
  cases x <;> simp [AccountAssign.key]

theorem nodup_columns (hd : (patch.map AccountAssign.key).Nodup) :
    ((prismaUpdate id patch now).1.set.map (·.column)).Nodup := by
  rw [columns_prismaUpdate, List.nodup_append]
  refine ⟨hd, List.nodup_singleton _, ?_⟩
  simp only [List.mem_map, List.mem_singleton]
  rintro _ ⟨x, -, rfl⟩ _ rfl
  exact key_ne_updatedAt x

theorem sets_prismaUpdate {c : String} :
    (prismaUpdate id patch now).1.Sets c ↔ c ∈ patch.map AccountAssign.key ∨ c = "updatedAt" := by
  have hmem : (prismaUpdate id patch now).1.Sets c ↔
      c ∈ (prismaUpdate id patch now).1.set.map (·.column) := by
    simp [Update.Sets]
  rw [hmem, columns_prismaUpdate, List.mem_append, List.mem_singleton]

theorem accepted_prismaUpdate (hd : (patch.map AccountAssign.key).Nodup) :
    (prismaUpdate id patch now).1.Accepted (prismaUpdate id patch now).2 := by
  refine ⟨nodup_columns hd, ?_, ?_⟩
  · intro i hi
    rw [placeholders_prismaUpdate, List.mem_range'_1] at hi
    rw [length_prismaUpdate]
    omega
  · intro i hi
    rw [length_prismaUpdate] at hi
    rwa [placeholders_prismaUpdate]

/-! ### What the statement does -/

theorem applyRow_other {r : String → SqlValue} (h : r "id" ≠ .text id) :
    (prismaUpdate id patch now).1.applyRow (prismaUpdate id patch now).2 r = r := by
  refine if_neg ?_
  rw [param_key]
  intro heq
  exact h (Option.some.inj heq).symm

theorem applyRow_account (hd : (patch.map AccountAssign.key).Nodup) {r : String → SqlValue}
    (h : r "id" = .text id) :
    let r' := (prismaUpdate id patch now).1.applyRow (prismaUpdate id patch now).2 r
    (∀ x ∈ patch, r' x.key = assignedValue x) ∧ r' "updatedAt" = .timestamp now ∧
      ∀ c, c ∉ patch.map AccountAssign.key → c ≠ "updatedAt" → r' c = r c := by
  intro r'
  have hr' : r' = (prismaUpdate id patch now).1.assign (prismaUpdate id patch now).2 r := by
    refine if_pos ?_
    rw [param_key]
    exact congrArg some h.symm
  refine ⟨fun x hx => ?_, ?_, fun c hc hupdated => Update.applyRow_of_not_sets ?_⟩
  · obtain ⟨clause, hmem, hcolumn, hvalue⟩ := @clause_of_mem id patch now x hx
    rw [hr', ← hcolumn]
    exact Update.assign_of_mem (nodup_columns hd) hmem hvalue r
  · obtain ⟨clause, hmem, hcolumn, hvalue⟩ := @clause_updatedAt id patch now
    rw [hr', ← hcolumn]
    exact Update.assign_of_mem (nodup_columns hd) hmem hvalue r
  · rw [sets_prismaUpdate, not_or]
    exact ⟨hc, hupdated⟩

theorem apart_prismaUpdate
    (h : List.Disjoint (patch.map AccountAssign.key) (patch'.map AccountAssign.key)) :
    Schema.Apart (prismaUpdate id patch now).1 (prismaUpdate id patch' now').1 "updatedAt" := by
  have hid : ∀ {patch : AccountPatch} {now : ℕ}, ¬ (prismaUpdate id patch now).1.Sets "id" := by
    intro patch now hset
    rcases sets_prismaUpdate.1 hset with hkey | hupdated
    · obtain ⟨x, -, hx⟩ := List.mem_map.1 hkey
      exact key_ne_id x hx
    · exact absurd hupdated (by decide)
  refine ⟨fun c hc hset hset' => ?_, hid, hid⟩
  exact h ((sets_prismaUpdate.1 hset).resolve_right hc)
    ((sets_prismaUpdate.1 hset').resolve_right hc)

/-! ### The statement and the repository -/

/-- An account as a row. -/
def accountRow (r : AccountRecord) (column : String) : SqlValue :=
  if column = "id" then .text r.id
  else if column = "email" then .text r.email
  else if column = "passwordHash" then .ofText r.passwordHash
  else if column = "googleId" then .ofText r.googleId
  else if column = "issuerDid" then .ofText r.issuerDid
  else if column = "companyName" then .ofText r.companyName
  else if column = "fieldOfOperation" then .ofText r.fieldOfOperation
  else if column = "emailVerifiedAt" then .ofDate r.emailVerifiedAt
  else if column = "emailVerificationTokenHash" then .ofText r.emailVerificationTokenHash
  else if column = "emailVerificationExpiresAt" then .ofDate r.emailVerificationExpiresAt
  else if column = "createdAt" then .timestamp r.createdAt
  else if column = "updatedAt" then .timestamp r.updatedAt
  else .null

theorem accountRow_apply (x : AccountAssign) (r : AccountRecord) (column : String) :
    accountRow (x.apply r) column =
      if column = x.key then assignedValue x else accountRow r column := by
  by_cases h : column = x.key
  · rw [if_pos h, h]
    cases x <;> rfl
  · rw [if_neg h]
    cases x <;> simp only [AccountAssign.key] at h <;>
      simp only [accountRow, AccountAssign.apply, if_neg h]

theorem accountRow_updatedAt (r : AccountRecord) (column : String) :
    accountRow { r with updatedAt := now } column =
      if column = "updatedAt" then .timestamp now else accountRow r column := by
  by_cases h : column = "updatedAt"
  · rw [if_pos h, h]
    rfl
  · rw [if_neg h]
    simp only [accountRow, if_neg h]

theorem accountRow_foldl_of_notMem {column : String} (h : column ∉ patch.map AccountAssign.key)
    (r : AccountRecord) :
    accountRow (patch.foldl AccountAssign.apply r) column = accountRow r column := by
  induction patch generalizing r with
  | nil => rfl
  | cons x patch ih =>
    rw [List.map_cons, List.mem_cons, not_or] at h
    rw [List.foldl_cons, ih h.2, accountRow_apply, if_neg h.1]

theorem accountRow_foldl_of_mem (hd : (patch.map AccountAssign.key).Nodup) {x : AccountAssign}
    (hx : x ∈ patch) (r : AccountRecord) :
    accountRow (patch.foldl AccountAssign.apply r) x.key = assignedValue x := by
  induction patch generalizing r with
  | nil => cases hx
  | cons y patch ih =>
    rw [List.map_cons, List.nodup_cons] at hd
    rw [List.foldl_cons]
    rcases List.mem_cons.1 hx with rfl | hx
    · rw [accountRow_foldl_of_notMem hd.1, accountRow_apply, if_pos rfl]
    · exact ih hd.2 hx _

/-- **The statement is the update of the repository**: on the rows of accounts it does what
`Accounts.update` is modelled to do. -/
theorem prismaUpdate_refines (hd : (patch.map AccountAssign.key).Nodup)
    (rows : List AccountRecord) :
    (prismaUpdate id patch now).1.apply (prismaUpdate id patch now).2 (rows.map accountRow) =
      (rows.map (Accounts.updateRow id patch now)).map accountRow := by
  rw [Update.apply, List.map_map, List.map_map]
  refine List.map_congr_left fun r _ => ?_
  simp only [Function.comp_apply, Accounts.updateRow]
  by_cases hid : r.id = id
  · have hrow : accountRow r "id" = .text id := by simp [accountRow, hid]
    obtain ⟨hvalues, htime, hrest⟩ := @applyRow_account id patch now hd _ hrow
    rw [if_pos (beq_iff_eq.2 hid)]
    funext column
    rw [AccountRecord.patched, accountRow_updatedAt]
    by_cases hupdated : column = "updatedAt"
    · rw [if_pos hupdated, hupdated, htime]
    · rw [if_neg hupdated]
      by_cases hkey : column ∈ patch.map AccountAssign.key
      · obtain ⟨x, hx, rfl⟩ := List.mem_map.1 hkey
        rw [hvalues x hx, accountRow_foldl_of_mem hd hx]
      · rw [hrest column hkey hupdated, accountRow_foldl_of_notMem hkey]
  · have hrow : accountRow r "id" ≠ .text id := by simpa [accountRow] using hid
    rw [applyRow_other hrow, if_neg (by simpa using hid)]

/-! ### Executing it -/

/-- **Every value meets its own column.**  For every patch without a repeated key, the placeholders
are `$1`, …, `$(k + 2)`, each used once, for as many values, and the statement is accepted.  It
gives the row with the id the value of each entry in the column of its key and the time in
`updatedAt`, and leaves every other column and row as it was; it is executed on a table whenever the
unique indexes hold of the result, and on the rows of accounts it is the update of the repository.
Two updates of one account with different keys leave the same table in either order, but for
`updatedAt`. -/
theorem prismaUpdate_binds (id : String) (now : ℕ) (hd : (patch.map AccountAssign.key).Nodup) :
    let u := (prismaUpdate id patch now).1
    let values := (prismaUpdate id patch now).2
    (u.placeholders = List.range' 1 (patch.length + 2) ∧ values.length = patch.length + 2 ∧
        u.Accepted values) ∧
      (∃ f : (String → SqlValue) → String → SqlValue,
        (∀ r, (r "id" ≠ .text id → f r = r) ∧
          (r "id" = .text id → (∀ x ∈ patch, f r x.key = assignedValue x) ∧
            f r "updatedAt" = .timestamp now ∧
            ∀ c, c ∉ patch.map AccountAssign.key → c ≠ "updatedAt" → f r c = r c)) ∧
        ∀ table, accountsSchema.execute u values table =
          if accountsSchema.Holds (table.map f) then some (table.map f) else none) ∧
      (∀ rows : List AccountRecord,
        let rows' := (rows.map (Accounts.updateRow id patch now)).map accountRow
        accountsSchema.execute u values (rows.map accountRow) =
          if accountsSchema.Holds rows' then some rows' else none) ∧
      ∀ patch' now', (patch'.map AccountAssign.key).Nodup →
        List.Disjoint (patch.map AccountAssign.key) (patch'.map AccountAssign.key) →
        ∀ table, accountsSchema.Holds table → ∀ c, c ≠ "updatedAt" →
          let u' := (prismaUpdate id patch' now').1
          let values' := (prismaUpdate id patch' now').2
          (accountsSchema.run u values (accountsSchema.run u' values' table)).map (· c) =
            (accountsSchema.run u' values' (accountsSchema.run u values table)).map (· c) := by
  intro u values
  have haccepted : u.Accepted values := accepted_prismaUpdate hd
  refine ⟨⟨placeholders_prismaUpdate, length_prismaUpdate, haccepted⟩, ?_, ?_, ?_⟩
  · exact ⟨u.applyRow values, fun r => ⟨applyRow_other, applyRow_account hd⟩,
      fun table => Schema.execute_of_accepted haccepted⟩
  · intro rows rows'
    rw [Schema.execute_of_accepted haccepted, prismaUpdate_refines hd]
  · intro patch' now' _ hdisjoint table htable c hc
    exact Schema.run_comm (apart_prismaUpdate hdisjoint) (by decide) htable hc

/-- The patch of `markEmailVerified`. -/
def samplePatch : AccountPatch :=
  [.emailVerifiedAt (some 7), .emailVerificationTokenHash none, .emailVerificationExpiresAt none]

/-- An account with a pending verification. -/
def pendingAccount (id email : String) : AccountRecord where
  id := id
  email := email
  passwordHash := none
  googleId := none
  issuerDid := none
  emailVerifiedAt := none
  emailVerificationTokenHash := some "h"
  emailVerificationExpiresAt := some 9
  companyName := none
  fieldOfOperation := none
  createdAt := 1
  updatedAt := 1

/-- One of two accounts is marked as verified. -/
theorem prismaUpdate_binds_three :
    (prismaUpdate "acct:1" samplePatch 7).1.placeholders = [1, 2, 3, 4, 5] ∧
      accountsSchema.execute (prismaUpdate "acct:1" samplePatch 7).1
          (prismaUpdate "acct:1" samplePatch 7).2
          ([pendingAccount "acct:1" "a@b.c", pendingAccount "acct:2" "d@b.c"].map accountRow) =
        some ([{ pendingAccount "acct:1" "a@b.c" with
          emailVerifiedAt := some 7, emailVerificationTokenHash := none,
          emailVerificationExpiresAt := none, updatedAt := 7 },
          pendingAccount "acct:2" "d@b.c"].map accountRow) := by
  obtain ⟨⟨hplaceholders, -⟩, -, hrows, -⟩ :=
    @prismaUpdate_binds samplePatch "acct:1" 7 (by decide)
  refine ⟨hplaceholders, (hrows _).trans ?_⟩
  rw [if_pos (by decide)]
  rfl

end Drivers

end HelixServer
