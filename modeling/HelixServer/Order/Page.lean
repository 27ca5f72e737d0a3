import Mathlib.Data.List.Basic
import Mathlib.Tactic.Common

/-!
# Pages of a filtered list

A page of a list is its first `n` entries.  Filtering a page is not paging the filtered list: the
two agree exactly when nothing is filtered from the page, or nothing is left behind it
(`filter_take_eq_iff`).

Counting on a page decides whether the list has more than `k` entries of a kind exactly when the
entry that has `k` of them before it stands on the page (`lt_countP_take_iff_lt_countP`).
-/

namespace Page

variable {α : Type} {p : α → Bool} {l l' : List α} {n : ℕ}

/-- The first `n` entries with `p`, in terms of the first `n` entries. -/
theorem take_filter (p : α → Bool) (l : List α) (n : ℕ) :
    (l.filter p).take n =
      (l.take n).filter p ++ ((l.drop n).filter p).take (n - ((l.take n).filter p).length) := by
  have hsplit : l.filter p = (l.take n).filter p ++ (l.drop n).filter p := by
    rw [← List.filter_append, List.take_append_drop]
  have hle : ((l.take n).filter p).length ≤ n :=
    Nat.le_trans (List.length_filter_le p _) (List.length_take_le n l)
  rw [hsplit, List.take_append, List.take_of_length_le hle]

/-- **Filtering a page** gives the page of the filtered list exactly if the page loses nothing, or
there is nothing behind it to fill it up with. -/
theorem filter_take_eq_iff :
    (l.take n).filter p = (l.filter p).take n ↔
      (∀ x ∈ l.take n, p x = true) ∨ ∀ x ∈ l.drop n, ¬ p x = true := by
  have hfull : ((l.take n).filter p).length = n → ∀ x ∈ l.take n, p x = true := fun h => by
    refine List.length_filter_eq_length_iff.1 (Nat.le_antisymm (List.length_filter_le p _) ?_)
    rw [h]
    exact List.length_take_le n l
  rw [take_filter, List.self_eq_append_right, List.take_eq_nil_iff, List.filter_eq_nil_iff]
  constructor
  · rintro (hlen | hnone)
    · -- a page that is full after filtering has lost nothing
      refine .inl (hfull (Nat.le_antisymm ?_ (Nat.le_of_sub_eq_zero hlen)))
      exact Nat.le_trans (List.length_filter_le p _) (List.length_take_le n l)
    · exact .inr hnone
  · rintro (hall | hnone)
    · rw [List.filter_eq_self.2 hall, List.length_take]
      rcases Nat.le_total n l.length with hn | hn
      · exact .inl (by rw [Nat.min_eq_left hn, Nat.sub_self])
      · exact .inr (by rw [List.drop_eq_nil_of_le hn]; exact nofun)
    · exact .inr hnone

/-! ### Counting on a page -/

/-- The place of the entry with `p` that has `k` entries with `p` before it. -/
def place (p : α → Bool) : ℕ → List α → Option ℕ
  | _, [] => none
  | 0, x :: l => if p x then some 0 else (place p 0 l).map (· + 1)
  | k + 1, x :: l => (place p (if p x then k else k + 1) l).map (· + 1)

/-- A page holds more than `k` entries with `p` exactly if it reaches the place of the last of
them. -/
theorem lt_countP_take_iff {k : ℕ} :
    k < (l.take n).countP p ↔ ∃ i ∈ place p k l, i < n := by
  induction l generalizing k n with
  | nil => simp [place]
  | cons x l ih =>
    cases n with
    | zero => simp
    | succ n =>
      rw [List.take_succ_cons, List.countP_cons]
      have hrest : ∀ k, (∃ i ∈ (place p k l).map (· + 1), i < n + 1) ↔ k < (l.take n).countP p := by
        intro k
        rw [ih]
        simp
      cases hx : p x with
      | true =>
        cases k with
        | zero => simp [place, hx]
        | succ k =>
          simp only [place, hx, if_true, hrest]
          omega
      | false =>
        cases k with
        | zero => simp only [place, hx, Bool.false_eq_true, if_false, hrest]; omega
        | succ k => simp only [place, hx, Bool.false_eq_true, if_false, hrest]; omega

theorem lt_countP_iff {k : ℕ} : k < l.countP p ↔ (place p k l).isSome = true := by
  induction l generalizing k with
  | nil => simp [place]
  | cons x l ih =>
    rw [List.countP_cons]
    cases hx : p x with
    | true =>
      cases k with
      | zero => simp [place, hx]
      | succ k =>
        simp only [place, hx, if_true, Option.isSome_map, ← ih]
        omega
    | false =>
      cases k with
      | zero => simp only [place, hx, Bool.false_eq_true, if_false, Option.isSome_map, ← ih]; omega
      | succ k =>
        simp only [place, hx, Bool.false_eq_true, if_false, Option.isSome_map, ← ih]; omega

/-- **Counting on a page** tells whether the list has more than `k` entries with `p` exactly if the
page reaches the entry with `p` that has `k` of them before it, or there is none. -/
theorem lt_countP_take_iff_lt_countP {k : ℕ} :
    (k < (l.take n).countP p ↔ k < l.countP p) ↔ ∀ i ∈ place p k l, i < n := by
  rw [lt_countP_take_iff, lt_countP_iff]
  cases place p k l with
  | none => simp
  | some i => simp

end Page
