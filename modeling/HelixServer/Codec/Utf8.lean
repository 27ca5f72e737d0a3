import Mathlib.Data.List.Basic
import Mathlib.Tactic.Common

/-!
# UTF-8

Decoding bytes as text the way runtimes do that never fail: a byte that no character can have at
its place ends the character begun, for which a replacement character stands, and is read again as
the first byte of a character.

## Main definitions

* `Utf8.State` : between characters, or inside one that still owes bytes.
* `Utf8.step` : one byte, with the characters it completes.
* `decodeUtf8` : the text of a list of bytes.

## Main results

* `decodeUtf8_encode` : the encoding of a text is read back as the text.
-/

namespace Codec

/-- U+FFFD, which stands for bytes that are no character. -/
def replacement : Char := Char.ofNat 0xFFFD

namespace Utf8

/-- Where the decoder stands between two bytes. -/
inductive State where
  /-- Between characters. -/
  | start
  /-- `needed + 1` bytes are owed, the next of them from `lower` to `upper`; the bits read so far
  are `point`. -/
  | inside (needed lower upper point : ℕ)

/-- The first byte of a character: the characters it completes and where it leads. -/
def lead (b : ℕ) : List Char × State :=
  if b ≤ 0x7F then ([Char.ofNat b], .start)
  else if 0xC2 ≤ b ∧ b ≤ 0xDF then ([], .inside 0 0x80 0xBF (b % 32))
  else if 0xE0 ≤ b ∧ b ≤ 0xEF then
    -- no overlong encodings and no surrogates
    ([], .inside 1 (if b = 0xE0 then 0xA0 else 0x80) (if b = 0xED then 0x9F else 0xBF) (b % 16))
  else if 0xF0 ≤ b ∧ b ≤ 0xF4 then
    -- no overlong encodings and nothing above U+10FFFF
    ([], .inside 2 (if b = 0xF0 then 0x90 else 0x80) (if b = 0xF4 then 0x8F else 0xBF) (b % 8))
  else ([replacement], .start)

/-- One byte: the characters it completes and the state after it. -/
def step : State → ℕ → List Char × State
  | .start, b => lead b
  | .inside needed lower upper point, b =>
    if lower ≤ b ∧ b ≤ upper then
      match needed with
      | 0 => ([Char.ofNat (point * 64 + b % 64)], .start)
      | needed + 1 => ([], .inside needed 0x80 0xBF (point * 64 + b % 64))
    else (replacement :: (lead b).1, (lead b).2)

/-- The characters of the rest of the bytes. -/
def run : State → List UInt8 → List Char
  | .start, [] => []
  | .inside _ _ _ _, [] => [replacement]
  | st, b :: bytes => (step st b.toNat).1 ++ run (step st b.toNat).2 bytes

variable {bytes : List UInt8}

theorem run_cons {st : State} {n : ℕ} (h : n < 256) :
    run st (UInt8.ofNat n :: bytes) = (step st n).1 ++ run (step st n).2 bytes := by
  have hn : (UInt8.ofNat n).toNat = n := by
    rw [UInt8.toNat_ofNat']
    exact Nat.mod_eq_of_lt h
  cases st <;> rw [run, hn]

theorem run_inside {needed lower upper point n : ℕ} (hl : lower ≤ n) (hu : n ≤ upper)
    (h : n < 256) :
    run (.inside (needed + 1) lower upper point) (UInt8.ofNat n :: bytes) =
      run (.inside needed 0x80 0xBF (point * 64 + n % 64)) bytes := by
  rw [run_cons h, step, if_pos ⟨hl, hu⟩]
  rfl

theorem run_last {lower upper point n : ℕ} (hl : lower ≤ n) (hu : n ≤ upper) (h : n < 256) :
    run (.inside 0 lower upper point) (UInt8.ofNat n :: bytes) =
      Char.ofNat (point * 64 + n % 64) :: run .start bytes := by
  rw [run_cons h, step, if_pos ⟨hl, hu⟩]
  rfl

theorem run_lead {n : ℕ} {st : State} (hs : lead n = ([], st)) (h : n < 256) :
    run .start (UInt8.ofNat n :: bytes) = run st bytes := by
  rw [run_cons h, step, hs]
  rfl

theorem lead_two {n : ℕ} (hl : 0xC2 ≤ n) (hu : n ≤ 0xDF) :
    lead n = ([], .inside 0 0x80 0xBF (n % 32)) := by
  rw [lead, if_neg (by omega), if_pos ⟨hl, hu⟩]

theorem lead_three {n : ℕ} (hl : 0xE0 ≤ n) (hu : n ≤ 0xEF) :
    lead n = ([], .inside 1 (if n = 0xE0 then 0xA0 else 0x80) (if n = 0xED then 0x9F else 0xBF)
      (n % 16)) := by
  rw [lead, if_neg (by omega), if_neg (by omega), if_pos ⟨hl, hu⟩]

theorem lead_four {n : ℕ} (hl : 0xF0 ≤ n) (hu : n ≤ 0xF4) :
    lead n = ([], .inside 2 (if n = 0xF0 then 0x90 else 0x80) (if n = 0xF4 then 0x8F else 0xBF)
      (n % 8)) := by
  rw [lead, if_neg (by omega), if_neg (by omega), if_neg (by omega), if_pos ⟨hl, hu⟩]

theorem run_encodeChar (c : Char) :
    run .start (String.utf8EncodeChar c ++ bytes) = c :: run .start bytes := by
  have hvalid : c.val.toNat < 0xD800 ∨ 0xDFFF < c.val.toNat ∧ c.val.toNat < 0x110000 := c.valid
  have hc : ∀ n, n = c.val.toNat → Char.ofNat n = c := by
    rintro _ rfl
    exact Char.ofNat_toNat c
  rw [String.utf8EncodeChar]
  generalize c.val.toNat = v at hvalid hc
  split_ifs with h₁ h₂ h₃
  · rw [List.singleton_append, run_cons (by omega), step, lead, if_pos h₁, hc v rfl]
    rfl
  · simp only [List.cons_append, List.nil_append]
    rw [run_lead (lead_two (by omega) (by omega)) (by omega),
      run_last (by omega) (by omega) (by omega), hc _ (by omega)]
  · simp only [List.cons_append, List.nil_append]
    rw [run_lead (lead_three (by omega) (by omega)) (by omega),
      run_inside (by split_ifs <;> omega) (by split_ifs <;> omega) (by omega),
      run_last (by omega) (by omega) (by omega), hc _ (by omega)]
  · simp only [List.cons_append, List.nil_append]
    rw [run_lead (lead_four (by omega) (by omega)) (by omega),
      run_inside (by split_ifs <;> omega) (by split_ifs <;> omega) (by omega),
      run_inside (by omega) (by omega) (by omega),
      run_last (by omega) (by omega) (by omega), hc _ (by omega)]

theorem run_encode (cs : List Char) : run .start (cs.flatMap String.utf8EncodeChar) = cs := by
  induction cs with
  | nil => rfl
  | cons c cs ih => rw [List.flatMap_cons, run_encodeChar, ih]

end Utf8

/-- The text of a list of bytes. -/
def decodeUtf8 (bytes : List UInt8) : String := String.ofList (Utf8.run .start bytes)

theorem bytes_eq_flatMap (s : String) :
    s.toUTF8.data.toList = s.toList.flatMap String.utf8EncodeChar := by
  rw [String.toUTF8_eq_toByteArray, ← String.utf8Encode_toList, List.utf8Encode]
  simp

theorem decodeUtf8_encode (s : String) : decodeUtf8 s.toUTF8.data.toList = s := by
  rw [decodeUtf8, bytes_eq_flatMap, Utf8.run_encode, String.ofList_toList]

-- A surrogate is no character: its three bytes are three replacement characters.
example : Utf8.run .start [0x61, 0xED, 0xA0, 0x80] =
    ['a', replacement, replacement, replacement] := by decide

end Codec
