import HelixServer.Codec.Double
import HelixServer.Codec.Utf16
import HelixServer.Services.KeyCustody
import Mathlib.Data.Rat.Cast.Defs

/-!
# `JSON.parse`

* `scanString`, `scanNumber` : the literals.  A string is read as UTF-16 code units, which its
  escapes denote, and a number as the nearest double.
* `parseValue`, `parseElements`, `parseMembers` : values, the elements of an array and the members
  of an object, with a bound on the depth and the number of elements.
* `Json.parse` : the whole text; the bound is one that no text reaches.

A key that occurs twice has its last value.

The last section reads back what `JSON.stringify` writes: a string (`parseValue_quoteJson`), a
natural number (`parseValue_toDigits`) and an array of strings (`parseValue_strings`).
-/

namespace HelixServer

namespace Json

/-- White space between the tokens of a JSON text. -/
def isSpace (c : Char) : Bool := c == ' ' || c == '\t' || c == '\n' || c == '\r'

/-- The text after the white space. -/
def skip (cs : List Char) : List Char := cs.dropWhile isSpace

/-- The code unit of an escape of one character. -/
def escape : Char → Option ℕ
  | '"' => some 0x22
  | '\\' => some 0x5C
  | '/' => some 0x2F
  | 'b' => some 0x08
  | 'f' => some 0x0C
  | 'n' => some 0x0A
  | 'r' => some 0x0D
  | 't' => some 0x09
  | _ => none

/-- The code unit of the escape by four hexadecimal digits. -/
def escapeHex (a b c d : Char) : Option ℕ :=
  match Codec.hexValue a, Codec.hexValue b, Codec.hexValue c, Codec.hexValue d with
  | some a, some b, some c, some d => some (((a * 16 + b) * 16 + c) * 16 + d)
  | _, _, _, _ => none

/-- The rest of a string literal: its code units and what follows the closing quote. -/
def scanString : List Char → Option (List ℕ × List Char)
  | '"' :: rest => some ([], rest)
  | '\\' :: 'u' :: a :: b :: c :: d :: rest =>
    match escapeHex a b c d with
    | some u => (scanString rest).map fun p => (u :: p.1, p.2)
    | none => none
  | '\\' :: c :: rest =>
    match escape c with
    | some u => (scanString rest).map fun p => (u :: p.1, p.2)
    | none => none
  | c :: rest =>
    -- no control characters
    if c.toNat < 0x20 then none
    else (scanString rest).map fun p => (Codec.units c ++ p.1, p.2)
  | [] => none

/-- The string with the given code units. -/
def text (us : List ℕ) : String := String.ofList (Codec.decodeUtf16 us)

/-- The part of a number after its integer part: the digits after the point, then the exponent. -/
def scanFraction : List Char → Option (List Char × List Char)
  | '.' :: cs =>
    if (cs.takeWhile Char.isDigit).isEmpty then none
    else some (cs.takeWhile Char.isDigit, cs.dropWhile Char.isDigit)
  | cs => some ([], cs)

/-- An exponent, with its sign. -/
def scanExponent : List Char → Option (ℤ × List Char)
  | c :: cs =>
    if c = 'e' ∨ c = 'E' then
      let negative := cs.head? = some '-'
      let cs := if cs.head? = some '-' ∨ cs.head? = some '+' then cs.tail else cs
      if (cs.takeWhile Char.isDigit).isEmpty then none
      else
        let digits : ℤ := Nat.ofDigitChars 10 (cs.takeWhile Char.isDigit) 0
        some (if negative then -digits else digits, cs.dropWhile Char.isDigit)
    else some (0, c :: cs)
  | [] => some (0, [])

/-- The double nearest to `mantissa * 10 ^ exponent`. -/
def scaled (mantissa : ℕ) (exponent : ℤ) : ℚ :=
  if exponent < 0 then Codec.toDouble mantissa (10 ^ exponent.natAbs)
  else Codec.toDouble (mantissa * 10 ^ exponent.natAbs) 1

/-- A number without its sign, and what follows it. -/
def scanUnsigned (cs : List Char) : Option (ℚ × List Char) :=
  let integer := cs.takeWhile Char.isDigit
  -- an integer part, without leading zeros
  if integer.isEmpty ∨ (integer.head? = some '0' ∧ integer.length ≠ 1) then none
  else
    match scanFraction (cs.dropWhile Char.isDigit) with
    | none => none
    | some (fraction, cs) =>
      match scanExponent cs with
      | none => none
      | some (exponent, cs) =>
        some (scaled (Nat.ofDigitChars 10 (integer ++ fraction) 0) (exponent - fraction.length), cs)

/-- A number, and what follows it. -/
def scanNumber : List Char → Option (ℚ × List Char)
  | '-' :: cs => (scanUnsigned cs).map fun p => (-p.1, p.2)
  | cs => scanUnsigned cs

/-- The fields of an object with one more before them, unless the key comes again. -/
def addField (key : String) (value : Json) (fields : List (String × Json)) : List (String × Json) :=
  if fields.any (·.1 == key) then fields else (key, value) :: fields

mutual

/-- A value, and what follows it. -/
def parseValue : ℕ → List Char → Option (Json × List Char)
  | 0, _ => none
  | n + 1, cs =>
    match skip cs with
    | '"' :: cs => (scanString cs).map fun p => (.str (text p.1), p.2)
    | '[' :: cs =>
      match skip cs with
      | ']' :: cs => some (.arr [], cs)
      | cs => (parseElements n cs).map fun p => (.arr p.1, p.2)
    | '\x7b' :: cs =>
      match skip cs with
      | '\x7d' :: cs => some (.obj [], cs)
      | cs => (parseMembers n cs).map fun p => (.obj p.1, p.2)
    | 't' :: 'r' :: 'u' :: 'e' :: cs => some (.bool true, cs)
    | 'f' :: 'a' :: 'l' :: 's' :: 'e' :: cs => some (.bool false, cs)
    | 'n' :: 'u' :: 'l' :: 'l' :: cs => some (.null, cs)
    | cs => (scanNumber cs).map fun p => (.num p.1, p.2)

/-- The elements of an array, and what follows the closing bracket. -/
def parseElements : ℕ → List Char → Option (List Json × List Char)
  | 0, _ => none
  | n + 1, cs =>
    match parseValue n cs with
    | none => none
    | some (value, cs) =>
      match skip cs with
      | ',' :: cs => (parseElements n cs).map fun p => (value :: p.1, p.2)
      | ']' :: cs => some ([value], cs)
      | _ => none

/-- The members of an object, and what follows the closing brace. -/
def parseMembers : ℕ → List Char → Option (List (String × Json) × List Char)
  | 0, _ => none
  | n + 1, cs =>
    match skip cs with
    | '"' :: cs =>
      match scanString cs with
      | none => none
      | some (key, cs) =>
        match skip cs with
        | ':' :: cs =>
          match parseValue n cs with
          | none => none
          | some (value, cs) =>
            match skip cs with
            | ',' :: cs =>
              (parseMembers n cs).map fun p => (addField (text key) value p.1, p.2)
            | '\x7d' :: cs => some ([(text key, value)], cs)
            | _ => none
        | _ => none
    | _ => none

end

/-- `JSON.parse`, `none` for a text that is not JSON. -/
def parse (s : String) : Option Json :=
  -- an opening bracket takes one character and two levels
  match parseValue (2 * s.length + 2) s.toList with
  | some (value, cs) => if (skip cs).isEmpty then some value else none
  | none => none

/-! ### Reading back what `JSON.stringify` writes -/

variable {n : ℕ} {rest cs : List Char}

theorem units_of_lt {c : Char} (h : c.toNat < 0x10000) : Codec.units c = [c.toNat] := by
  rw [Codec.units, if_pos h]

theorem escapeHex_control :
    ∀ n < 0x20, escapeHex '0' '0' (Char.ofNat (48 + n / 16)) (hexDigit (nibble n)) = some n := by
  decide

theorem scanString_cons {c : Char} (hquote : c ≠ '"') (hslash : c ≠ '\\') (hc : ¬ c.toNat < 0x20) :
    scanString (c :: rest) = (scanString rest).map fun p => (Codec.units c ++ p.1, p.2) := by
  rw [scanString, if_neg hc]
  · exact fun h => hquote h
  · rintro a b c d rest h -
    exact hslash h
  · rintro a rest h -
    exact hslash h

/-- The characters that stand for one character of a string are read as its code units. -/
theorem scanString_quoteJsonChar (c : Char) :
    scanString (quoteJsonChar c ++ rest) =
      (scanString rest).map fun p => (Codec.units c ++ p.1, p.2) := by
  have hc : ∀ {k}, c.toNat = k → k < 0x10000 → Codec.units c = [k] := by
    rintro _ rfl h
    exact units_of_lt h
  unfold quoteJsonChar
  split
  iterate 7
    · rename_i h
      rw [hc h (by decide)]
      rfl
  · split_ifs with hcontrol
    · rw [units_of_lt (by omega)]
      simp only [List.cons_append, List.nil_append]
      rw [scanString, escapeHex_control _ hcontrol]
    · rename_i hquote hslash
      refine scanString_cons ?_ ?_ hcontrol
      · rintro rfl
        exact hquote rfl
      · rintro rfl
        exact hslash rfl

theorem scanString_flatMap (cs : List Char) :
    scanString (cs.flatMap quoteJsonChar ++ '"' :: rest) =
      some (cs.flatMap Codec.units, rest) := by
  induction cs with
  | nil => rfl
  | cons c cs ih =>
    rw [List.flatMap_cons, List.append_assoc, scanString_quoteJsonChar, ih, List.flatMap_cons]
    rfl

theorem toList_quoteJson (s : String) :
    (quoteJson s).toList = '"' :: (s.toList.flatMap quoteJsonChar ++ ['"']) := by
  simp [quoteJson]

theorem text_units (s : String) : text (s.toList.flatMap Codec.units) = s := by
  rw [text, Codec.decodeUtf16_units, String.ofList_toList]

theorem parseValue_quoteJson (s : String) :
    parseValue (n + 1) ((quoteJson s).toList ++ rest) = some (.str s, rest) := by
  rw [toList_quoteJson, List.cons_append, List.append_assoc, List.singleton_append]
  change ((scanString (s.toList.flatMap quoteJsonChar ++ '"' :: rest)).map
    fun p => (Json.str (text p.1), p.2)) = _
  rw [scanString_flatMap, Option.map_some, text_units]

theorem takeWhile_digits {ds : List Char} {c : Char} (hds : ∀ d ∈ ds, d.isDigit = true)
    (hc : c.isDigit = false) : (ds ++ c :: rest).takeWhile Char.isDigit = ds := by
  rw [List.takeWhile_append_of_pos hds, List.takeWhile_cons, if_neg (by simp [hc]), List.append_nil]

theorem dropWhile_digits {ds : List Char} {c : Char} (hds : ∀ d ∈ ds, d.isDigit = true)
    (hc : c.isDigit = false) : (ds ++ c :: rest).dropWhile Char.isDigit = c :: rest := by
  rw [List.dropWhile_append_of_pos hds, List.dropWhile_cons, if_neg (by simp [hc])]

theorem isDigit_toDigits {k : ℕ} : ∀ d ∈ Nat.toDigits 10 k, d.isDigit = true :=
  fun _ hd => Nat.isDigit_of_mem_toDigits (by decide) (by decide) hd

theorem head_toDigits {k : ℕ} (h : (Nat.toDigits 10 k).head? = some '0') : k = 0 := by
  induction k using Nat.strongRecOn with
  | ind k ih =>
    by_cases hk : k < 10
    · rw [Nat.toDigits_of_lt_base hk] at h
      have := Nat.toNat_digitChar_sub_48_of_lt_ten hk
      rw [Option.some.inj h] at this
      exact this.symm
    · rw [Nat.toDigits_of_base_le (by decide) (by omega),
        List.head?_append_of_ne_nil _ Nat.toDigits_ne_nil] at h
      have := ih (k / 10) (by omega) h
      omega

/-- The decimal digits of a number are read back as the double nearest to it. -/
theorem scanUnsigned_toDigits (k : ℕ) :
    scanUnsigned (Nat.toDigits 10 k ++ ',' :: rest) =
      some (Codec.toDouble k 1, ',' :: rest) := by
  have hzero : ¬ ((Nat.toDigits 10 k).isEmpty ∨ (Nat.toDigits 10 k).head? = some '0' ∧
      (Nat.toDigits 10 k).length ≠ 1) := by
    rintro (hempty | ⟨hhead, hlength⟩)
    · exact Nat.toDigits_ne_nil (List.isEmpty_iff.1 hempty)
    · rw [head_toDigits hhead, Nat.toDigits_zero] at hlength
      exact hlength rfl
  rw [scanUnsigned, takeWhile_digits isDigit_toDigits (by decide),
    dropWhile_digits isDigit_toDigits (by decide)]
  simp only [if_neg hzero]
  simp [scanFraction, scanExponent, scaled, Nat.ofDigitChars_ten_toDigits]

theorem parseValue_digit {d : Char} (hd : d.isDigit = true) :
    parseValue (n + 1) (d :: cs) = (scanUnsigned (d :: cs)).map fun p => (.num p.1, p.2) := by
  have hskip : skip (d :: cs) = d :: cs := by
    rw [skip, List.dropWhile_cons, if_neg]
    intro hspace
    simp only [isSpace, Bool.or_eq_true, beq_iff_eq] at hspace
    rcases hspace with ((rfl | rfl) | rfl) | rfl <;> revert hd <;> decide
  have hne : ∀ c : Char, c.isDigit = false → ∀ cs', d :: cs ≠ c :: cs' := by
    rintro c hc cs' h
    rw [(List.cons.inj h).1, hc] at hd
    cases hd
  rw [parseValue, hskip]
  split <;> rename_i h
  iterate 6 exact absurd h (hne _ (by decide) _)
  rw [scanNumber]
  exact fun cs' h => hne _ (by decide) _ h

theorem parseValue_toDigits (k : ℕ) :
    parseValue (n + 1) (Nat.toDigits 10 k ++ ',' :: rest) =
      some (.num (Codec.toDouble k 1), ',' :: rest) := by
  obtain ⟨d, ds, hds⟩ := List.exists_cons_of_ne_nil (Nat.toDigits_ne_nil (n := k) (b := 10))
  have hd : d.isDigit = true := isDigit_toDigits d (by rw [hds]; exact List.mem_cons_self)
  have hnumber : scanUnsigned (Nat.toDigits 10 k ++ ',' :: rest) =
      some (Codec.toDouble k 1, ',' :: rest) := scanUnsigned_toDigits k
  rw [hds, List.cons_append] at hnumber ⊢
  rw [parseValue_digit hd, hnumber]
  rfl

theorem parseElements_strings {s : String} {ss : List String} (hn : ss.length + 2 ≤ n) :
    parseElements n ((String.intercalate "," ((s :: ss).map quoteJson)).toList ++ ']' :: rest) =
      some ((s :: ss).map .str, rest) := by
  induction ss generalizing s n with
  | nil =>
    obtain ⟨k, rfl⟩ : ∃ k, n = k + 2 := ⟨n - 2, by rw [List.length_nil] at hn; omega⟩
    rw [List.map_singleton, String.intercalate_singleton, parseElements, parseValue_quoteJson]
    rfl
  | cons s' ss ih =>
    obtain ⟨k, rfl⟩ : ∃ k, n = k + 2 := ⟨n - 2, by rw [List.length_cons] at hn; omega⟩
    have hrest := ih (n := k + 1) (s := s') (by rw [List.length_cons] at hn; omega)
    rw [List.map_cons, List.map_cons, String.intercalate_cons_cons, ← List.map_cons,
      String.toList_append, String.toList_append, List.append_assoc, List.append_assoc,
      parseElements, parseValue_quoteJson]
    change ((parseElements (k + 1) ((String.intercalate "," ((s' :: ss).map quoteJson)).toList ++
      ']' :: rest)).map fun p => (Json.str s :: p.1, p.2)) = _
    rw [hrest]
    rfl

theorem parseValue_strings (ss : List String) (hn : ss.length + 3 ≤ n) :
    parseValue n ('[' :: ((String.intercalate "," (ss.map quoteJson)).toList ++ ']' :: rest)) =
      some (.arr (ss.map .str), rest) := by
  obtain ⟨k, rfl⟩ : ∃ k, n = k + 1 := ⟨n - 1, by omega⟩
  match ss with
  | [] => rfl
  | s :: ss =>
    have helements : parseElements k ((String.intercalate "," ((s :: ss).map quoteJson)).toList ++
        ']' :: rest) = some ((s :: ss).map .str, rest) :=
      parseElements_strings (by rw [List.length_cons] at hn; omega)
    -- the first element starts with a quote, which is no closing bracket
    obtain ⟨cs, hcs⟩ : ∃ cs, (String.intercalate "," ((s :: ss).map quoteJson)).toList ++
        ']' :: rest = '"' :: cs := by
      cases ss with
      | nil =>
        rw [List.map_singleton, String.intercalate_singleton, toList_quoteJson]
        exact ⟨_, rfl⟩
      | cons s' ss =>
        rw [List.map_cons, List.map_cons, String.intercalate_cons_cons, String.toList_append,
          String.toList_append, toList_quoteJson]
        exact ⟨_, rfl⟩
    rw [hcs] at helements ⊢
    change (parseElements k ('"' :: cs)).map (fun p => (Json.arr p.1, p.2)) = _
    rw [helements]
    rfl

theorem parseMembers_key (k : String) :
    parseMembers (n + 1) ((quoteJson k).toList ++ ':' :: cs) =
      match parseValue n cs with
      | none => none
      | some (value, cs) =>
        match skip cs with
        | ',' :: cs => (parseMembers n cs).map fun p => (addField k value p.1, p.2)
        | '\x7d' :: cs => some ([(k, value)], cs)
        | _ => none := by
  have hscan : scanString (k.toList.flatMap quoteJsonChar ++ '"' :: ':' :: cs) =
      some (k.toList.flatMap Codec.units, ':' :: cs) := scanString_flatMap k.toList
  rw [toList_quoteJson, List.cons_append, List.append_assoc, List.singleton_append, parseMembers]
  have hskip : skip ('"' :: (k.toList.flatMap quoteJsonChar ++ '"' :: ':' :: cs)) =
      '"' :: (k.toList.flatMap quoteJsonChar ++ '"' :: ':' :: cs) := rfl
  have hcolon : skip (':' :: cs) = ':' :: cs := rfl
  simp only [hskip, hscan, hcolon, text_units]

theorem parseValue_members (k : String) :
    parseValue (n + 1) ('\x7b' :: ((quoteJson k).toList ++ cs)) =
      (parseMembers n ((quoteJson k).toList ++ cs)).map fun p => (.obj p.1, p.2) := by
  rw [toList_quoteJson]
  rfl

theorem parseMembers_cons {k : String} {v : Json} {value : List Char}
    (hvalue : parseValue n (value ++ ',' :: cs) = some (v, ',' :: cs)) :
    parseMembers (n + 1) ((quoteJson k).toList ++ ':' :: (value ++ ',' :: cs)) =
      (parseMembers n cs).map fun p => (addField k v p.1, p.2) := by
  rw [parseMembers_key, hvalue]
  rfl

theorem parseMembers_last {k : String} {v : Json} {value : List Char}
    (hvalue : parseValue n (value ++ '\x7d' :: cs) = some (v, '\x7d' :: cs)) :
    parseMembers (n + 1) ((quoteJson k).toList ++ ':' :: (value ++ '\x7d' :: cs)) =
      some ([(k, v)], cs) := by
  rw [parseMembers_key, hvalue]
  rfl

end Json

/-! ### The payload of an access token -/

namespace AccessTokenPayload

/-- The object that `JSON.parse` makes of the text of a payload. -/
def parsed (p : AccessTokenPayload) : Json :=
  .obj [("accountId", .str p.accountId), ("scope", .arr (p.scope.map .str)),
    ("iat", .num (Codec.toDouble p.iat 1)), ("exp", .num (Codec.toDouble p.exp 1)),
    ("jti", .str p.jti)]

/-- The numbers of a payload are safe integers of the language. -/
def Safe (p : AccessTokenPayload) : Prop := p.iat < 2 ^ 53 ∧ p.exp < 2 ^ 53

theorem toList_stringify (p : AccessTokenPayload) :
    p.stringify.toList = '\x7b' :: ((quoteJson "accountId").toList ++ ':' ::
      ((quoteJson p.accountId).toList ++ ',' :: ((quoteJson "scope").toList ++ ':' ::
      (('[' :: ((String.intercalate "," (p.scope.map quoteJson)).toList ++ [']'])) ++ ',' ::
      ((quoteJson "iat").toList ++ ':' :: (Nat.toDigits 10 p.iat ++ ',' ::
      ((quoteJson "exp").toList ++ ':' :: (Nat.toDigits 10 p.exp ++ ',' ::
      ((quoteJson "jti").toList ++ ':' :: ((quoteJson p.jti).toList ++ ['\x7d'])))))))))) := by
  have haccountId : "\x7b\"accountId\":".toList =
      '\x7b' :: ((quoteJson "accountId").toList ++ [':']) := by decide
  have hscope : ",\"scope\":[".toList =
    ',' :: ((quoteJson "scope").toList ++ [':', '[']) := by decide
  have hiat : "],\"iat\":".toList = ']' :: ',' :: ((quoteJson "iat").toList ++ [':']) := by decide
  have hexp : ",\"exp\":".toList = ',' :: ((quoteJson "exp").toList ++ [':']) := by decide
  have hjti : ",\"jti\":".toList = ',' :: ((quoteJson "jti").toList ++ [':']) := by decide
  have hclose : "\x7d".toList = ['\x7d'] := by decide
  delta stringify
  simp only [String.toList_append]
  rw [haccountId, hscope, hiat, hexp, hjti, hclose, Nat.toString_eq_ofList_toDigits,
    Nat.toString_eq_ofList_toDigits, String.toList_ofList, String.toList_ofList]
  simp only [List.append_assoc, List.cons_append, List.nil_append]

theorem parseValue_stringify (p : AccessTokenPayload) {n : ℕ} (hn : p.scope.length + 7 ≤ n) :
    Json.parseValue n p.stringify.toList = some (p.parsed, []) := by
  obtain ⟨k, rfl⟩ : ∃ k, n = k + 7 := ⟨n - 7, by omega⟩
  have hscope : ∀ rest, Json.parseValue (k + 4)
      (('[' :: ((String.intercalate "," (p.scope.map quoteJson)).toList ++ [']'])) ++ ',' :: rest) =
        some (.arr (p.scope.map .str), ',' :: rest) := by
    intro rest
    rw [List.cons_append, List.append_assoc, List.singleton_append]
    exact Json.parseValue_strings _ (by omega)
  rw [toList_stringify, Json.parseValue_members,
    Json.parseMembers_cons (Json.parseValue_quoteJson p.accountId),
    Json.parseMembers_cons (hscope _),
    Json.parseMembers_cons (Json.parseValue_toDigits p.iat),
    Json.parseMembers_cons (Json.parseValue_toDigits p.exp),
    Json.parseMembers_last (Json.parseValue_quoteJson p.jti)]
  simp [Json.addField, parsed]

/-- The text of an array of strings has a character for each of them. -/
theorem length_le_intercalate (ss : List String) :
    ss.length ≤ (String.intercalate "," (ss.map quoteJson)).toList.length := by
  induction ss with
  | nil => simp
  | cons s ss ih =>
    have hquote : 2 ≤ (quoteJson s).toList.length := by
      rw [Json.toList_quoteJson]
      simp
    cases ss with
    | nil => simpa using Nat.le_trans (by decide) hquote
    | cons s' ss =>
      rw [List.map_cons, List.map_cons, String.intercalate_cons_cons, ← List.map_cons,
        String.toList_append, String.toList_append, List.length_append, List.length_append,
        List.length_cons]
      omega

/-- **`JSON.parse` reads the text of a payload back.** -/
theorem parse_stringify (p : AccessTokenPayload) : Json.parse p.stringify = some p.parsed := by
  have hlength : p.scope.length + 7 ≤ 2 * p.stringify.length + 2 := by
    have hscope := length_le_intercalate p.scope
    rw [← String.length_toList, toList_stringify]
    simp only [List.length_cons, List.length_append]
    omega
  rw [Json.parse, parseValue_stringify p hlength]
  rfl

theorem ofJson_parsed_accountId (p : AccessTokenPayload) :
    (ofJson p.parsed).accountId = p.accountId := rfl

/-- The object is read back as the payload, if its numbers are safe. -/
theorem Safe.ofJson_parsed {p : AccessTokenPayload} (h : p.Safe) : ofJson p.parsed = p := by
  have hscope : (p.scope.map Json.str).filterMap Json.asString = p.scope := by
    induction p.scope with
    | nil => rfl
    | cons s ss ih => rw [List.map_cons, List.filterMap_cons]; simp only [Json.asString, ih]
  have hfloor : ∀ k : ℕ, (k : ℚ).floor = k := fun k => Rat.floor_intCast k
  simp [ofJson, parsed, Json.getString, Json.prop, Json.asString, Json.strings, Json.floor, hscope,
    Codec.toDouble_one h.1, Codec.toDouble_one h.2, hfloor]

end AccessTokenPayload

end HelixServer
