import Mathlib.Data.List.Nodup
import Mathlib.Tactic.Common

/-!
# Parameterised `UPDATE` statements

`UPDATE table SET c₁ = $i₁, … WHERE w = $j`, executed with a list of positional values on a table of
rows.  A row gives a value to each column.

## Main definitions

* `Update C` : a statement over the columns `C`, and its placeholders.
* `Update.Accepted` : the values are those of the placeholders, and no column is set twice.
* `Update.apply` : the table after the statement.
* `Schema` : the unique columns; `Schema.run` executes a statement, which changes nothing if a
  unique index rejects it.

Two statements for the same row that set different columns commute (`run_comm`).
-/

namespace Store

/-- A clause `column = $placeholder`. -/
structure SetClause (C : Type) where
  column : C
  placeholder : ℕ

/-- `UPDATE … SET set WHERE key = $keyPlaceholder`. -/
structure Update (C : Type) where
  set : List (SetClause C)
  key : C
  keyPlaceholder : ℕ

/-- The value of a placeholder: `$1` is the first one. -/
def param {V : Type} (values : List V) (i : ℕ) : Option V := if i = 0 then none else values[i - 1]?

namespace Update

variable {C V : Type}

/-- The placeholders of the statement, in their order. -/
def placeholders (u : Update C) : List ℕ := u.set.map (·.placeholder) ++ [u.keyPlaceholder]

/-- The statement sets the column. -/
def Sets (u : Update C) (c : C) : Prop := ∃ x ∈ u.set, x.column = c

variable [DecidableEq C]

/-- No column is set twice, and the values are those of the placeholders. -/
def Accepted (u : Update C) (values : List V) : Prop :=
  (u.set.map (·.column)).Nodup ∧ (∀ i ∈ u.placeholders, 1 ≤ i ∧ i ≤ values.length) ∧
    ∀ i ∈ List.range' 1 values.length, i ∈ u.placeholders

instance (u : Update C) (values : List V) : Decidable (u.Accepted values) :=
  inferInstanceAs (Decidable (_ ∧ _ ∧ _))

/-- A row that the statement sets. -/
def assign (u : Update C) (values : List V) (r : C → V) : C → V := fun c =>
  match u.set.find? (·.column == c) with
  | some x => (param values x.placeholder).getD (r c)
  | none => r c

/-- A column that is set has its own value. -/
theorem assign_of_mem {u : Update C} {values : List V} (hcolumns : (u.set.map (·.column)).Nodup)
    {x : SetClause C} (hx : x ∈ u.set) {a : V} (ha : param values x.placeholder = some a)
    (r : C → V) : u.assign values r x.column = a := by
  have hfind : u.set.find? (·.column == x.column) = some x := by
    cases hf : u.set.find? (·.column == x.column) with
    | none => exact absurd (beq_self_eq_true x.column) (List.find?_eq_none.1 hf x hx)
    | some y =>
      have hcolumn : y.column = x.column := by simpa using List.find?_some hf
      rw [List.inj_on_of_nodup_map hcolumns (List.mem_of_find?_eq_some hf) hx hcolumn]
  simp only [assign, hfind, ha, Option.getD_some]

variable [DecidableEq V]

/-- One row under the statement. -/
def applyRow (u : Update C) (values : List V) (r : C → V) : C → V :=
  if param values u.keyPlaceholder = some (r u.key) then u.assign values r else r

/-- The table after the statement. -/
def apply (u : Update C) (values : List V) (table : List (C → V)) : List (C → V) :=
  table.map (u.applyRow values)

variable {u v : Update C} {values values' : List V} {r r' : C → V} {c : C}
  {table : List (C → V)}

/-- A column that is not set is kept. -/
theorem applyRow_of_not_sets (h : ¬ u.Sets c) : u.applyRow values r c = r c := by
  have hnone : u.set.find? (·.column == c) = none :=
    List.find?_eq_none.2 fun x hx hc => h ⟨x, hx, eq_of_beq hc⟩
  unfold applyRow
  split_ifs
  · simp only [assign, hnone]
  · rfl

/-- Of a row the statement reads its key, and in each column that column. -/
theorem applyRow_congr (hkey : r u.key = r' u.key) (hc : r c = r' c) :
    u.applyRow values r c = u.applyRow values r' c := by
  unfold applyRow
  rw [hkey]
  split_ifs
  · simp only [assign, hc]
  · exact hc

/-- A statement that sets neither the key nor the column makes no difference. -/
theorem applyRow_applyRow (hkey : ¬ v.Sets u.key) (hc : ¬ v.Sets c) :
    u.applyRow values (v.applyRow values' r) c = u.applyRow values r c :=
  applyRow_congr (applyRow_of_not_sets hkey) (applyRow_of_not_sets hc)

end Update

/-! ### Tables with unique columns -/

/-- The unique columns of a table, in which the value `null` may stand in many rows. -/
structure Schema (C V : Type) where
  unique : List C
  null : V

namespace Schema

variable {C V : Type} [DecidableEq V] (S : Schema C V)

/-- The column has no value in two rows. -/
def Distinct (table : List (C → V)) (c : C) : Prop := ((table.map (· c)).filter (· ≠ S.null)).Nodup

/-- The unique indexes hold. -/
def Holds (table : List (C → V)) : Prop := ∀ c ∈ S.unique, S.Distinct table c

instance (table : List (C → V)) : Decidable (S.Holds table) :=
  inferInstanceAs (Decidable (∀ c ∈ S.unique, ((table.map (· c)).filter (· ≠ S.null)).Nodup))

theorem distinct_congr {S : Schema C V} {table table' : List (C → V)} {c : C}
    (h : table.map (· c) = table'.map (· c)) : S.Distinct table c ↔ S.Distinct table' c := by
  rw [Distinct, Distinct, h]

variable [DecidableEq C]

/-- Execute a statement, `none` if it is not accepted or an index rejects it. -/
def execute (u : Update C) (values : List V) (table : List (C → V)) : Option (List (C → V)) :=
  if u.Accepted values ∧ S.Holds (u.apply values table) then some (u.apply values table) else none

/-- The table after a statement has been tried. -/
def run (u : Update C) (values : List V) (table : List (C → V)) : List (C → V) :=
  (S.execute u values table).getD table

variable {S} {u v : Update C} {values values' : List V} {c c₀ : C} {table : List (C → V)}

theorem execute_isSome :
    (S.execute u values table).isSome = true ↔
      u.Accepted values ∧ S.Holds (u.apply values table) := by
  unfold execute
  split_ifs with h
  · exact iff_of_true rfl h
  · exact iff_of_false Bool.false_ne_true h

/-- A statement that is accepted is executed unless an index rejects it. -/
theorem execute_of_accepted (h : u.Accepted values) : S.execute u values table =
    if S.Holds (u.apply values table) then some (u.apply values table) else none := by
  simp only [execute, h, true_and]

theorem run_eq : S.run u values table =
    if (S.execute u values table).isSome = true then u.apply values table else table := by
  unfold run execute
  split_ifs <;> first | rfl | contradiction

/-! ### Statements that commute -/

/-- The columns that `u` and `v` set are different, but for `c₀`; neither sets a key. -/
structure Apart {C : Type} (u v : Update C) (c₀ : C) : Prop where
  columns : ∀ c, c ≠ c₀ → u.Sets c → ¬ v.Sets c
  key : ¬ v.Sets u.key
  key' : ¬ u.Sets v.key

/-- A column of the table after both statements, in terms of one of them. -/
theorem column_apply_apply (hkey : ¬ v.Sets u.key) (hc : ¬ v.Sets c) :
    (u.apply values (v.apply values' table)).map (· c) = (u.apply values table).map (· c) := by
  simp only [Update.apply, List.map_map]
  exact List.map_congr_left fun r _ => Update.applyRow_applyRow hkey hc

theorem column_apply (hc : ¬ u.Sets c) : (u.apply values table).map (· c) = table.map (· c) := by
  simp only [Update.apply, List.map_map]
  exact List.map_congr_left fun r _ => Update.applyRow_of_not_sets hc

/-- **Whether a statement is executed** does not depend on one that sets other columns. -/
theorem execute_isSome_run (hcolumns : ∀ c, c ≠ c₀ → u.Sets c → ¬ v.Sets c)
    (hkey : ¬ v.Sets u.key) (hc₀ : c₀ ∉ S.unique) (htable : S.Holds table) :
    (S.execute u values (S.run v values' table)).isSome = (S.execute u values table).isSome := by
  rw [Bool.eq_iff_iff, execute_isSome, execute_isSome]
  refine and_congr_right fun _ => forall₂_congr fun c hc => ?_
  have hne : c ≠ c₀ := by rintro rfl; exact hc₀ hc
  rw [run_eq]
  split_ifs with hv
  · by_cases hset : v.Sets c
    · -- `u` leaves the column alone, so its index holds on both sides
      have hu : ¬ u.Sets c := fun hu => hcolumns c hne hu hset
      rw [distinct_congr (column_apply hu), distinct_congr (column_apply hu)]
      exact iff_of_true ((execute_isSome.1 hv).2 c hc) (htable c hc)
    · exact distinct_congr (column_apply_apply hkey hset)
  · rfl

/-- **Statements for different columns commute**, but for the one column that both set. -/
theorem run_comm (h : Apart u v c₀) (hc₀ : c₀ ∉ S.unique) (htable : S.Holds table) {c : C}
    (hc : c ≠ c₀) :
    (S.run u values (S.run v values' table)).map (· c) =
      (S.run v values' (S.run u values table)).map (· c) := by
  have hleft : S.run u values (S.run v values' table) =
      if (S.execute u values table).isSome = true then u.apply values (S.run v values' table)
      else S.run v values' table := by
    rw [run_eq, execute_isSome_run h.columns h.key hc₀ htable]
  have hright : S.run v values' (S.run u values table) =
      if (S.execute v values' table).isSome = true then v.apply values' (S.run u values table)
      else S.run u values table := by
    rw [run_eq, execute_isSome_run (fun c hc hv hu => h.columns c hc hu hv) h.key' hc₀ htable]
  rw [hleft, hright, run_eq, run_eq]
  split_ifs
  · by_cases hset : u.Sets c
    · rw [column_apply_apply h.key (h.columns c hc hset), column_apply (h.columns c hc hset)]
    · rw [column_apply hset, column_apply_apply h.key' hset]
  all_goals rfl

end Schema

end Store
