import Mathlib.Data.List.Basic
import Mathlib.Tactic.Common

/-!
# Lenient base64

Decoding base64 the way runtimes do that accept both alphabets at once, stop at the padding and
skip every other character.  `sextet` is the value of a character, `bytesOfSextets` groups values
into bytes.
-/

namespace Codec

/-- The value of a character of either base64 alphabet. -/
def sextet (c : Char) : Option ℕ :=
  if 'A' ≤ c ∧ c ≤ 'Z' then some (c.toNat - 65)
  else if 'a' ≤ c ∧ c ≤ 'z' then some (c.toNat - 71)
  else if '0' ≤ c ∧ c ≤ '9' then some (c.toNat + 4)
  else if c = '-' ∨ c = '+' then some 62
  else if c = '_' ∨ c = '/' then some 63
  else none

/-- The bytes of a list of six-bit values; a value that completes no byte is dropped. -/
def bytesOfSextets : List ℕ → List UInt8
  | a :: b :: c :: d :: rest =>
    UInt8.ofNat (a * 4 + b / 16) :: UInt8.ofNat (b % 16 * 16 + c / 4) ::
      UInt8.ofNat (c % 4 * 64 + d) :: bytesOfSextets rest
  | [a, b, c] => [UInt8.ofNat (a * 4 + b / 16), UInt8.ofNat (b % 16 * 16 + c / 4)]
  | [a, b] => [UInt8.ofNat (a * 4 + b / 16)]
  | _ => []

/-- The bytes of a base64 text, up to the first `=`. -/
def decodeBase64 (cs : List Char) : List UInt8 :=
  bytesOfSextets ((cs.takeWhile (· != '=')).filterMap sextet)

theorem ofNat_eq {b : UInt8} {n : ℕ} (h : n = b.toNat) : UInt8.ofNat n = b := by
  rw [h, UInt8.ofNat_toNat]

theorem bytesOfSextets_three (a b c : UInt8) (rest : List ℕ) :
    bytesOfSextets (a.toNat / 4 :: (a.toNat % 4 * 16 + b.toNat / 16) ::
      (b.toNat % 16 * 4 + c.toNat / 64) :: c.toNat % 64 :: rest) =
      a :: b :: c :: bytesOfSextets rest := by
  have ha := a.toNat_lt
  have hb := b.toNat_lt
  have hc := c.toNat_lt
  rw [bytesOfSextets, ofNat_eq (b := a) (by omega), ofNat_eq (b := b) (by omega),
    ofNat_eq (b := c) (by omega)]

theorem bytesOfSextets_two (a b : UInt8) :
    bytesOfSextets [a.toNat / 4, a.toNat % 4 * 16 + b.toNat / 16, b.toNat % 16 * 4] = [a, b] := by
  have ha := a.toNat_lt
  have hb := b.toNat_lt
  rw [bytesOfSextets, ofNat_eq (b := a) (by omega), ofNat_eq (b := b) (by omega)]

theorem bytesOfSextets_one (a : UInt8) :
    bytesOfSextets [a.toNat / 4, a.toNat % 4 * 16] = [a] := by
  have ha := a.toNat_lt
  rw [bytesOfSextets, ofNat_eq (b := a) (by omega)]

end Codec
