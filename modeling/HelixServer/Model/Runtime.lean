import Mathlib.Data.Rat.Defs
import Mathlib.Tactic.Common

/-!
# What the server runs on

The functions of Node, of `@helixid/core` and of `argon2` that the server calls but does not
define, the errors it raises, and the JSON values it logs.

* `Json` : JSON values, with rational numbers.
* `HelixError` : the errors of the modelled code.  `rejected` is the rejection of a storage,
  audit-log or email call for a reason outside the model.
* `Runtime` : the external functions.  Random sources are functions of the number of draws made
  before, so that a statement about every `Runtime` is one about every outcome of the draws.
* `makeId`, `normalizeEmail`, `toISOString` : the helpers of the source built on them.

Times are milliseconds since the epoch.
-/

namespace HelixServer

/-- A JSON value. -/
inductive Json where
  | null
  | bool (b : Bool)
  | num (n : ℚ)
  | str (s : String)
  | arr (l : List Json)
  | obj (fields : List (String × Json))

namespace Json

/-- `typeof value === 'string' ? value : undefined`. -/
def asString : Json → Option String
  | .str s => some s
  | _ => none

/-- `value[key]`, where a read of anything but an object is `undefined`. -/
def prop (value : Json) (key : String) : Option Json :=
  match value with
  | .obj fields => (fields.find? (·.1 == key)).map (·.2)
  | _ => none

/-- `asString(value[key])`. -/
def getString (value : Json) (key : String) : Option String := (value.prop key).bind asString

/-- The value is `null`, of which no property can be read. -/
def isNull : Json → Bool
  | .null => true
  | _ => false

end Json

/-- The errors of the modelled code. -/
inductive HelixError where
  | accountAlreadyExists
  | accountHasNoPassword
  | accountNotFound (message : String)
  | emailVerificationTokenInvalid
  | emailVerificationTokenExpired
  | invalidCredentials
  | refreshTokenExpired
  | refreshTokenInvalid
  | refreshTokenReuseDetected
  | accessTokenInvalid
  | accessTokenExpired
  | adminAuthRequired
  | emailNotVerified
  | accountQuotaExceeded (message : String)
  | vcNotFound (message : String)
  | validation (message : String)
  /-- An `Error` thrown by a storage driver. -/
  | storage (message : String)
  /-- A `TypeError`: a property read of `undefined`. -/
  | typeError
  /-- An error raised inside a service of `@helixid/core`. -/
  | core (code : String)
  /-- A call that rejected for a reason outside the model. -/
  | rejected
  deriving DecidableEq, Repr

/-- The storage adapters a process can be configured for. -/
inductive StorageDriverKind where
  | postgres
  | sqlite
  | memory
  deriving DecidableEq, Repr

/-- The SQL schemas declare unique indexes; the in-memory drivers have none. -/
def StorageDriverKind.hasUniqueIndexes : StorageDriverKind → Bool
  | .memory => false
  | _ => true

/-- An Ed25519 key pair, in hex. -/
structure KeyPair where
  publicKey : String
  privateKey : String

/-- A verification method of a DID document. -/
structure VerificationMethod where
  publicKeyMultibase : String
  deriving DecidableEq

/-- A DID document. -/
structure DIDDocument where
  id : String
  verificationMethod : List VerificationMethod
  deriving DecidableEq

/-- The functions the server is built on.  An argument `draw : ℕ` is the number of random draws
the process has made before. -/
structure Runtime where
  /-- `String.prototype.toLowerCase`. -/
  toLowerCase : String → String
  /-- The digits of `Math.random()` after the point, in base 16. -/
  mathRandom : (draw : ℕ) → List (Fin 16)
  /-- `randomBytes(size)`. -/
  randomBytes : (draw : ℕ) → (size : ℕ) → List UInt8
  /-- `createHash('sha256').update(text, 'utf8').digest('hex')`. -/
  sha256Hex : String → String
  /-- `createHmac('sha256', secret).update(text).digest()`. -/
  hmacSha256 : (secret text : String) → List UInt8
  /-- `argon2.hash`, which draws a salt. -/
  argon2Hash : (draw : ℕ) → (password : String) → String
  /-- `argon2.verify`. -/
  argon2Verify : (passwordHash password : String) → Bool
  /-- `generateKeyPair` of `@helixid/core`. -/
  generateKeyPair : (draw : ℕ) → KeyPair
  /-- `derivePublicKey` of `@helixid/core`. -/
  derivePublicKey : (privateKey : String) → String
  /-- AES-256-GCM encryption: ciphertext and authentication tag. -/
  aes256Gcm : (key iv plaintext : List UInt8) → List UInt8 × List UInt8
  /-- AES-256-GCM decryption, `none` when the tag does not match. -/
  aes256GcmOpen : (key iv ciphertext authTag : List UInt8) → Option (List UInt8)
  /-- `buildDIDDocument` of `@helixid/core`. -/
  buildDIDDocument : (did publicKey : String) → DIDDocument
  /-- `extractEd25519PublicKeyHexFromDIDDocument` of `@helixid/core`. -/
  extractPublicKeyHex : DIDDocument → String
  /-- `hashToken` of `@helixid/core`. -/
  hashToken : String → String
  /-- `Buffer.from(input, 'base64url').toString('utf8')`. -/
  base64UrlDecodeToString : String → String
  /-- `JSON.parse`, `none` for a text that is not JSON. -/
  jsonParse : String → Option Json
  /-- `Number.parseInt(text, 10)`, `none` for `NaN`. -/
  parseInt : String → Option ℤ
  /-- `Number(text)`, `none` for `NaN` and the infinities. -/
  number : String → Option ℚ
  /-- `new Date(text)`, `none` for an invalid date.  A date before the epoch is the epoch: no row of
  the audit log is older. -/
  parseDate : String → Option ℕ

/-! ### Strings -/

/-- A lower-case hex digit. -/
def hexDigit (d : Fin 16) : Char :=
  if d.val < 10 then Char.ofNat (48 + d.val) else Char.ofNat (87 + d.val)

/-- The last hex digit of a number. -/
def nibble (n : ℕ) : Fin 16 := Fin.ofNat 16 n

@[simp] theorem nibble_val (n : ℕ) : (nibble n : ℕ) = n % 16 := rfl

/-- `Math.random().toString(16)`: `0` without a fraction, else `0.` and the digits. -/
def randomToString16 : List (Fin 16) → List Char
  | [] => ['0']
  | ds => '0' :: '.' :: ds.map hexDigit

/-- `${kind}:${Math.random().toString(16).slice(2, 14)}`, the `makeId` of the storage drivers. -/
def makeId (kind : String) (digits : List (Fin 16)) : String :=
  kind ++ ":" ++ String.ofList (((randomToString16 digits).drop 2).take 12)

theorem makeId_ne_empty (kind : String) (digits : List (Fin 16)) : makeId kind digits ≠ "" := by
  intro h
  have hlist := congrArg String.toList h
  simp [makeId] at hlist

/-- The characters `String.prototype.trim` removes. -/
def isTrimmed (c : Char) : Bool :=
  [0x09, 0x0A, 0x0B, 0x0C, 0x0D, 0x20, 0xA0, 0x1680, 0x2028, 0x2029, 0x202F, 0x205F, 0x3000,
    0xFEFF].contains c.toNat || (0x2000 ≤ c.toNat && c.toNat ≤ 0x200A)

/-- `String.prototype.trim`. -/
def trim (s : String) : String :=
  String.ofList ((s.toList.dropWhile isTrimmed).reverse.dropWhile isTrimmed).reverse

/-- `normalizeEmail` of `auth.service.ts`. -/
def normalizeEmail (rt : Runtime) (email : String) : String := rt.toLowerCase (trim email)

/-! ### Dates -/

/-- `n` in decimal, padded with zeros to `width` digits. -/
def padded (width n : ℕ) : String :=
  String.ofList (List.replicate (width - (Nat.toDigits 10 n).length) '0' ++ Nat.toDigits 10 n)

/-- The civil date (year, month, day) of a number of days since 1970-01-01. -/
def civilFromDays (days : ℕ) : ℕ × ℕ × ℕ :=
  let z := days + 719468
  let doe := z % 146097
  let yoe := (doe - doe / 1460 + doe / 36524 - doe / 146096) / 365
  let doy := doe - (365 * yoe + yoe / 4 - yoe / 100)
  let mp := (5 * doy + 2) / 153
  let m := if mp < 10 then mp + 3 else mp - 9
  (yoe + z / 146097 * 400 + (if m ≤ 2 then 1 else 0), m, doy - (153 * mp + 2) / 5 + 1)

/-- `new Date(ms).toISOString()`, for the years 1970 to 9999. -/
def toISOString (ms : ℕ) : String :=
  let (y, m, d) := civilFromDays (ms / 86400000)
  let t := ms % 86400000
  padded 4 y ++ "-" ++ padded 2 m ++ "-" ++ padded 2 d ++ "T" ++ padded 2 (t / 3600000) ++ ":" ++
    padded 2 (t / 60000 % 60) ++ ":" ++ padded 2 (t / 1000 % 60) ++ "." ++ padded 3 (t % 1000) ++
    "Z"

example : toISOString 1709210096789 = "2024-02-29T12:34:56.789Z" := by decide

end HelixServer
