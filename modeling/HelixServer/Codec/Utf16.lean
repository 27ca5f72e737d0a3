import HelixServer.Codec.Utf8

/-!
# UTF-16

Some languages keep their strings as UTF-16 code units, and some formats escape them.  `units c` are
the units of a character, `decodeUtf16` reads units back, where a surrogate without its partner is
read as the replacement character (`decodeUtf16_units`).
-/

namespace Codec

/-- The code units of a character. -/
def units (c : Char) : List ℕ :=
  if c.toNat < 0x10000 then [c.toNat]
  else [0xD800 + (c.toNat - 0x10000) / 0x400, 0xDC00 + (c.toNat - 0x10000) % 0x400]

/-- The character of a unit that stands alone. -/
def unitChar (u : ℕ) : Char :=
  if 0xD800 ≤ u ∧ u < 0xE000 then replacement else Char.ofNat u

/-- The characters of a list of code units. -/
def decodeUtf16 : List ℕ → List Char
  | high :: low :: rest =>
    if (0xD800 ≤ high ∧ high < 0xDC00) ∧ 0xDC00 ≤ low ∧ low < 0xE000 then
      Char.ofNat (0x10000 + (high - 0xD800) * 0x400 + (low - 0xDC00)) :: decodeUtf16 rest
    else unitChar high :: decodeUtf16 (low :: rest)
  | [u] => [unitChar u]
  | [] => []

theorem decodeUtf16_cons {u : ℕ} {us : List ℕ} (h : u < 0xD800 ∨ 0xDFFF < u) :
    decodeUtf16 (u :: us) = Char.ofNat u :: decodeUtf16 us := by
  have hu : unitChar u = Char.ofNat u := if_neg (by omega)
  match us with
  | [] => simp [decodeUtf16, hu]
  | low :: us => rw [decodeUtf16, if_neg (by omega), hu]

theorem decodeUtf16_units_append (c : Char) (us : List ℕ) :
    decodeUtf16 (units c ++ us) = c :: decodeUtf16 us := by
  have hvalid : c.toNat < 0xD800 ∨ 0xDFFF < c.toNat ∧ c.toNat < 0x110000 := c.valid
  have hc : ∀ n, n = c.toNat → Char.ofNat n = c := by
    rintro _ rfl
    exact Char.ofNat_toNat c
  generalize hv : c.toNat = v at hvalid hc
  simp only [units, hv]
  split_ifs with hbmp
  · rw [List.singleton_append, decodeUtf16_cons (by omega), hc v rfl]
  · simp only [List.cons_append, List.nil_append, decodeUtf16]
    rw [if_pos (by omega), hc _ (by omega)]

theorem decodeUtf16_units (cs : List Char) : decodeUtf16 (cs.flatMap units) = cs := by
  induction cs with
  | nil => rfl
  | cons c cs ih => rw [List.flatMap_cons, decodeUtf16_units_append, ih]

end Codec
