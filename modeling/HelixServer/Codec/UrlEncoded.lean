import HelixServer.Codec.Hex
import HelixServer.Codec.Utf8

/-!
# Form-encoded texts

`application/x-www-form-urlencoded` writes a list of pairs as `name=value&name=value`, where a byte
that is neither a digit nor a letter nor one of `*-._` is escaped, and a space is a plus sign.  What
is written is read back, whatever the names and the values are (`parse_serialize`).
-/

namespace Codec

namespace UrlEncoded

/-- A byte that stands for itself. -/
def isPlain (n : ℕ) : Bool :=
  n == 0x2A || n == 0x2D || n == 0x2E || n == 0x5F || (0x30 ≤ n && n ≤ 0x39) ||
    (0x41 ≤ n && n ≤ 0x5A) || (0x61 ≤ n && n ≤ 0x7A)

/-- An upper-case hex digit. -/
def upperHex (d : ℕ) : Char := if d < 10 then Char.ofNat (48 + d) else Char.ofNat (55 + d)

/-- The characters that a byte is written with. -/
def writeByte (n : ℕ) : List Char :=
  if n = 0x20 then ['+']
  else if isPlain n then [Char.ofNat n]
  else ['%', upperHex (n / 16), upperHex (n % 16)]

/-- The characters that a text is written with. -/
def writeText (s : String) : List Char := s.toUTF8.data.toList.flatMap fun b => writeByte b.toNat

/-- One pair. -/
def writePair (p : String × String) : List Char := writeText p.1 ++ '=' :: writeText p.2

/-- The pairs of a list. -/
def serialize (pairs : List (String × String)) : String :=
  String.ofList (['&'].intercalate (pairs.map writePair))

/-- The bytes of a character that is no escape. -/
def plainBytes (c : Char) : List UInt8 := if c = '+' then [0x20] else String.utf8EncodeChar c

/-- The bytes of an escaped text: an escape that is not complete stands for itself. -/
def readBytes : List Char → List UInt8
  | c :: h :: l :: cs =>
    match if c = '%' then (hexValue h).bind fun a => (hexValue l).map fun b => 16 * a + b
        else none with
    | some n => UInt8.ofNat n :: readBytes cs
    | none => plainBytes c ++ readBytes (h :: l :: cs)
  | c :: cs => plainBytes c ++ readBytes cs
  | [] => []

/-- The text of its characters. -/
def readText (cs : List Char) : String := decodeUtf8 (readBytes cs)

/-- A name and a value: without an equals sign the value is empty. -/
def readPair (cs : List Char) : String × String :=
  (readText (cs.takeWhile (· != '=')), readText ((cs.dropWhile (· != '=')).drop 1))

/-- The pairs of a text. -/
def parse (text : String) : List (String × String) :=
  ((text.toList.splitOn '&').filter fun cs => !cs.isEmpty).map readPair

/-! ### Bytes -/

theorem hexValue_upperHex : ∀ d < 16, hexValue (upperHex d) = some d := by decide

theorem isPlain_upperHex : ∀ d < 16, isPlain (upperHex d).toNat = true := by decide

theorem plainBytes_ofNat : ∀ n < 128, isPlain n = true → Char.ofNat n ≠ '%' ∧
    (Char.ofNat n).toNat = n ∧ plainBytes (Char.ofNat n) = [UInt8.ofNat n] := by decide +kernel

theorem isPlain_lt {n : ℕ} (h : isPlain n = true) : n < 128 := by
  simp only [isPlain, Bool.or_eq_true, Bool.and_eq_true, beq_iff_eq, decide_eq_true_eq] at h
  omega

theorem readBytes_cons {c : Char} (hc : c ≠ '%') (cs : List Char) :
    readBytes (c :: cs) = plainBytes c ++ readBytes cs := by
  match cs with
  | [] => rfl
  | [_] => rfl
  | h :: l :: cs => rw [readBytes, if_neg hc]

theorem readBytes_writeByte {n : ℕ} (hn : n < 256) (cs : List Char) :
    readBytes (writeByte n ++ cs) = UInt8.ofNat n :: readBytes cs := by
  unfold writeByte
  split_ifs with hspace hplain
  · subst hspace
    rw [List.singleton_append, readBytes_cons (by decide)]
    rfl
  · obtain ⟨hpercent, -, hbytes⟩ := plainBytes_ofNat n (isPlain_lt hplain) hplain
    rw [List.singleton_append, readBytes_cons hpercent, hbytes]
    rfl
  · have hhigh : hexValue (upperHex (n / 16)) = some (n / 16) := hexValue_upperHex _ (by omega)
    have hlow : hexValue (upperHex (n % 16)) = some (n % 16) := hexValue_upperHex _ (by omega)
    simp only [List.cons_append, List.nil_append]
    rw [readBytes, if_pos rfl, hhigh, hlow, Option.bind_some, Option.map_some]
    dsimp only
    rw [Nat.div_add_mod]

/-- A character that no byte is written with. -/
def Separates (c : Char) : Prop := isPlain c.toNat = false ∧ c ≠ '+' ∧ c ≠ '%'

instance : DecidablePred Separates := fun c =>
  inferInstanceAs (Decidable (isPlain c.toNat = false ∧ c ≠ '+' ∧ c ≠ '%'))

theorem Separates.notMem_writeByte {c : Char} (hc : Separates c) {n : ℕ} (hn : n < 256) :
    c ∉ writeByte n := by
  obtain ⟨hplain, hplus, hpercent⟩ := hc
  have hne : ∀ c' : Char, isPlain c'.toNat = true → c ≠ c' := by
    rintro c' hc' rfl
    rw [hplain] at hc'
    cases hc'
  unfold writeByte
  split_ifs with hspace hn'
  · simpa using hplus
  · obtain ⟨-, htoNat, -⟩ := plainBytes_ofNat n (isPlain_lt hn') hn'
    simpa using hne (Char.ofNat n) (by rwa [htoNat])
  · have hhigh := hne _ (isPlain_upperHex (n / 16) (by omega))
    have hlow := hne _ (isPlain_upperHex (n % 16) (by omega))
    simp only [List.mem_cons, List.not_mem_nil, or_false, not_or]
    exact ⟨hpercent, hhigh, hlow⟩

/-! ### Texts -/

theorem readBytes_writeBytes (bytes : List UInt8) :
    readBytes (bytes.flatMap fun b => writeByte b.toNat) = bytes := by
  induction bytes with
  | nil => rfl
  | cons b bytes ih =>
    rw [List.flatMap_cons, readBytes_writeByte (UInt8.toNat_lt b), ih, UInt8.ofNat_toNat]

theorem readText_writeText (s : String) : readText (writeText s) = s := by
  rw [readText, writeText, readBytes_writeBytes, decodeUtf8_encode]

theorem Separates.notMem_writeText {c : Char} (hc : Separates c) (s : String) :
    c ∉ writeText s := by
  intro h
  obtain ⟨b, -, hb⟩ := List.mem_flatMap.1 h
  exact hc.notMem_writeByte (UInt8.toNat_lt b) hb

theorem Separates.notMem_writePair {c : Char} (hc : Separates c) (heq : c ≠ '=')
    (p : String × String) : c ∉ writePair p := by
  rw [writePair, List.mem_append, List.mem_cons, not_or, not_or]
  exact ⟨hc.notMem_writeText p.1, heq, hc.notMem_writeText p.2⟩

/-- A character that separates neither the pairs nor a name from its value is not written. -/
theorem Separates.notMem_serialize {c : Char} (hc : Separates c) (heq : c ≠ '=') (hand : c ≠ '&')
    (pairs : List (String × String)) : c ∉ (serialize pairs).toList := by
  rw [serialize, String.toList_ofList]
  have hwritten : ∀ cs ∈ pairs.map writePair, c ∉ cs := by
    intro cs hcs
    obtain ⟨p, -, rfl⟩ := List.mem_map.1 hcs
    exact hc.notMem_writePair heq p
  generalize pairs.map writePair = parts at hwritten
  induction parts with
  | nil => simp
  | cons cs parts ih =>
    have htail := ih fun cs' hcs' => hwritten cs' (List.mem_cons_of_mem _ hcs')
    have hhead := hwritten cs List.mem_cons_self
    cases parts with
    | nil => simpa using hhead
    | cons cs' parts =>
      rw [List.intercalate_cons_cons, List.mem_append, List.mem_append, not_or, not_or]
      exact ⟨⟨hhead, by simpa using hand⟩, htail⟩

theorem readPair_writePair (p : String × String) : readPair (writePair p) = p := by
  have hname : ∀ c ∈ writeText p.1, (c != '=') = true := by
    intro c hc
    refine bne_iff_ne.2 ?_
    rintro rfl
    exact (show Separates '=' by decide).notMem_writeText p.1 hc
  rw [readPair, writePair, List.takeWhile_append_of_pos hname, List.dropWhile_append_of_pos hname]
  simp [readText_writeText]

theorem writePair_ne_nil (p : String × String) : writePair p ≠ [] := by
  simp [writePair]

/-- **What is written is read back.** -/
theorem parse_serialize (pairs : List (String × String)) : parse (serialize pairs) = pairs := by
  rw [parse, serialize, String.toList_ofList]
  by_cases hpairs : pairs = []
  · subst hpairs
    rfl
  · rw [List.splitOn_intercalate]
    · have hfilter : (pairs.map writePair).filter (fun cs => !cs.isEmpty) =
          pairs.map writePair := by
        refine List.filter_eq_self.2 fun cs hcs => ?_
        obtain ⟨p, -, rfl⟩ := List.mem_map.1 hcs
        simp [writePair_ne_nil]
      rw [hfilter, List.map_map]
      conv_rhs => rw [← List.map_id pairs]
      exact List.map_congr_left fun p _ => readPair_writePair p
    · intro cs hcs
      obtain ⟨p, -, rfl⟩ := List.mem_map.1 hcs
      exact (show Separates '&' by decide).notMem_writePair (by decide) p
    · simpa using hpairs

example : serialize [("scope", "openid e&=é")] = "scope=openid+e%26%3D%C3%A9" := by decide +kernel

end UrlEncoded

end Codec
