import Mathlib.Data.List.Basic
import Mathlib.Tactic.Common

/-!
# Hexadecimal digits

`hexValue` is the value of a digit of either case, `hexDecodeChars` the bytes of a list of digits.
-/

namespace Codec

/-- The value of a hexadecimal digit. -/
def hexValue (c : Char) : Option ℕ :=
  if '0' ≤ c ∧ c ≤ '9' then some (c.toNat - 48)
  else if 'a' ≤ c ∧ c ≤ 'f' then some (c.toNat - 87)
  else if 'A' ≤ c ∧ c ≤ 'F' then some (c.toNat - 55)
  else none

/-- The bytes of a list of hexadecimal digits, up to the first pair that is none. -/
def hexDecodeChars : List Char → List UInt8
  | a :: b :: rest =>
    match hexValue a, hexValue b with
    | some x, some y => UInt8.ofNat (x * 16 + y) :: hexDecodeChars rest
    | _, _ => []
  | _ => []

theorem length_hexDecodeChars {cs : List Char} (h : ∀ c ∈ cs, (hexValue c).isSome) :
    (hexDecodeChars cs).length = cs.length / 2 := by
  induction cs using hexDecodeChars.induct with
  | case1 a b rest x y hx hy ih =>
    rw [hexDecodeChars, hx, hy, List.length_cons, List.length_cons, List.length_cons,
      ih fun c hc => h c (List.mem_cons_of_mem _ (List.mem_cons_of_mem _ hc))]
    omega
  | case2 a b rest hnone =>
    obtain ⟨x, hx⟩ := Option.isSome_iff_exists.1 (h a (by simp))
    obtain ⟨y, hy⟩ := Option.isSome_iff_exists.1 (h b (by simp))
    exact absurd hy (hnone x y hx)
  | case3 cs hshort =>
    match cs with
    | [] | [_] => simp [hexDecodeChars]
    | a :: b :: rest => exact absurd rfl (hshort a b rest)

end Codec
