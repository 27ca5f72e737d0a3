import Mathlib.Data.List.Basic
import Mathlib.Tactic.Common

/-!
# Tables that only grow

A table grows when every row keeps its place and is related to what it was, and new rows come after
the old ones.  The rules are those of the operations of a table: new rows (`Grows.append`) and rows
that are updated in place (`Grows.map`).
-/

namespace Store

variable {α β : Type} {R : α → α → Prop} {rows rows' rows'' : List α}

/-- Every row is in its place, as it was up to `R`. -/
def Grows (R : α → α → Prop) (rows rows' : List α) : Prop :=
  ∀ (i : ℕ) (r : α), rows[i]? = some r → ∃ r', rows'[i]? = some r' ∧ R r r'

namespace Grows

theorem refl (h : ∀ r ∈ rows, R r r) : Grows R rows rows :=
  fun _ r hr => ⟨r, hr, h r (List.mem_of_getElem? hr)⟩

theorem trans (hR : ∀ a b c, R a b → R b c → R a c) (h : Grows R rows rows')
    (h' : Grows R rows' rows'') : Grows R rows rows'' := by
  intro i r hr
  obtain ⟨r', hr', hrel⟩ := h i r hr
  obtain ⟨r'', hr'', hrel'⟩ := h' i r' hr'
  exact ⟨r'', hr'', hR _ _ _ hrel hrel'⟩

/-- New rows come last. -/
theorem append (h : ∀ r ∈ rows, R r r) (new : List α) : Grows R rows (rows ++ new) := by
  intro i r hr
  refine ⟨r, ?_, h r (List.mem_of_getElem? hr)⟩
  rw [List.getElem?_append_left (List.getElem?_eq_some_iff.1 hr).1]
  exact hr

/-- Rows that are updated in place. -/
theorem map {f : α → α} (h : ∀ r ∈ rows, R r (f r)) : Grows R rows (rows.map f) := by
  intro i r hr
  exact ⟨f r, by rw [List.getElem?_map, hr]; rfl, h r (List.mem_of_getElem? hr)⟩

/-- What has become of a row. -/
theorem exists_mem (h : Grows R rows rows') {r : α} (hr : r ∈ rows) : ∃ r' ∈ rows', R r r' := by
  obtain ⟨i, hi⟩ := List.mem_iff_getElem?.1 hr
  obtain ⟨r', hr', hrel⟩ := h i r hi
  exact ⟨r', List.mem_of_getElem? hr', hrel⟩

end Grows

end Store
