import HelixServer.Codec.Hex
import HelixServer.Codec.Utf8
import HelixServer.Services.Tokens

/-!
# Issuer keys: custody and provisioning

`services/auth/key-custody.ts` and `services/auth/provision-issuer-did.ts`.  A new account gets a
key pair whose private key is encrypted under the master key, a DID under the server's domain and
that DID's document; the DID row and the key row are two writes.
-/

namespace HelixServer

open Codec (hexValue hexDecodeChars length_hexDecodeChars)

/-- `Buffer.toString('hex')`. -/
def hexEncode (bytes : List UInt8) : String :=
  String.ofList (bytes.flatMap fun b =>
    [hexDigit (nibble (b.toNat / 16)), hexDigit (nibble b.toNat)])

/-- `Buffer.from(text, 'hex')`, of a text of ASCII characters. -/
def hexDecode (text : String) : List UInt8 := hexDecodeChars text.toList

theorem hexValue_hexDigit (d : Fin 16) : hexValue (hexDigit d) = some d.val := by
  revert d; decide

theorem hexDecode_hexEncode (bytes : List UInt8) : hexDecode (hexEncode bytes) = bytes := by
  simp only [hexDecode, hexEncode, String.toList_ofList]
  induction bytes with
  | nil => rfl
  | cons b bytes ih =>
    have hb := b.toNat_lt
    have hbyte : b.toNat / 16 % 16 * 16 + b.toNat % 16 = b.toNat := by omega
    simp only [List.flatMap_cons, List.cons_append, List.nil_append, hexDecodeChars,
      hexValue_hexDigit, nibble_val, ih, hbyte, UInt8.ofNat_toNat]

/-- An encrypted private key. -/
structure EncryptedKeyMaterial where
  encryptedPrivateKey : String
  iv : String
  authTag : String
  algorithm : String
  deriving DecidableEq

/-- The encrypted private key of a row. -/
def IssuerKeyRecordRow.material (row : IssuerKeyRecordRow) : EncryptedKeyMaterial where
  encryptedPrivateKey := row.encryptedPrivateKey
  iv := row.iv
  authTag := row.authTag
  algorithm := row.algorithm

/-- What `AesGcmKeyCustody.encrypt` makes of a private key with the given initialisation vector. -/
def encryptWith (cfg : Config) (iv : List UInt8) (plaintextHex : String) : EncryptedKeyMaterial :=
  let sealed := cfg.runtime.aes256Gcm cfg.masterKey iv (utf8 plaintextHex)
  { encryptedPrivateKey := hexEncode sealed.1
    iv := hexEncode iv
    authTag := hexEncode sealed.2
    algorithm := "aes-256-gcm" }

/-- `AesGcmKeyCustody.decrypt`, up to the last step that reads the bytes as text. -/
def decrypt (cfg : Config) (encrypted : EncryptedKeyMaterial) : Option (List UInt8) :=
  cfg.runtime.aes256GcmOpen cfg.masterKey (hexDecode encrypted.iv)
    (hexDecode encrypted.encryptedPrivateKey) (hexDecode encrypted.authTag)

/-- AES-256-GCM under the master key decrypts what it has encrypted. -/
def Config.GcmCorrect (cfg : Config) : Prop :=
  ∀ iv plaintext, cfg.runtime.aes256GcmOpen cfg.masterKey iv
    (cfg.runtime.aes256Gcm cfg.masterKey iv plaintext).1
    (cfg.runtime.aes256Gcm cfg.masterKey iv plaintext).2 = some plaintext

theorem decrypt_encryptWith {cfg : Config} (h : cfg.GcmCorrect) (iv : List UInt8)
    (plaintextHex : String) :
    decrypt cfg (encryptWith cfg iv plaintextHex) = some (utf8 plaintextHex) := by
  simp only [decrypt, encryptWith, hexDecode_hexEncode]
  exact h _ _

/-- `AesGcmKeyCustody.encrypt`. -/
def encrypt (cfg : Config) (plaintextHex : String) : Promise EncryptedKeyMaterial := do
  let iv ← randomBytes 12
  return encryptWith cfg iv plaintextHex

/-- `AesGcmKeyCustody.generateAndEncrypt`: the public key and the encrypted private key. -/
def generateAndEncrypt (cfg : Config) : Promise (String × EncryptedKeyMaterial) := do
  let keyPair ← await (.runtime .generateKeyPair)
  let encrypted ← encrypt cfg keyPair.privateKey
  return (keyPair.publicKey, encrypted)

/-- The constructor of `AesGcmKeyCustody`: the master key, or the text of the error it throws. -/
def AesGcmKeyCustody.masterKey (masterKeyHex : String) : Except String (List UInt8) :=
  if masterKeyHex.toList.length = 64 ∧ masterKeyHex.toList.all fun c => (hexValue c).isSome then
    .ok (hexDecode masterKeyHex)
  else .error "AesGcmKeyCustody: master key must be 64 hex chars (32 bytes)"

theorem AesGcmKeyCustody.length_masterKey {masterKeyHex : String} {key : List UInt8}
    (h : masterKey masterKeyHex = .ok key) : key.length = 32 := by
  rw [masterKey] at h
  split_ifs at h with hhex
  obtain ⟨hlength, hdigits⟩ := hhex
  cases h
  rw [hexDecode, length_hexDecodeChars (List.all_eq_true.1 hdigits), hlength]

/-- The signing functions of `@helixid/core`. -/
structure SignatureScheme where
  /-- `signData`, `none` when it rejects the key. -/
  signData : (data privateKeyHex : String) → Option String
  /-- The check of a signature under a public key. -/
  verifies : (data signature publicKey : String) → Bool

/-- `AesGcmKeyCustody.sign`, `none` when it throws. -/
def sign (cfg : Config) (scheme : SignatureScheme) (data : String)
    (encrypted : EncryptedKeyMaterial) : Option String :=
  (decrypt cfg encrypted).bind fun plaintext => scheme.signData data (Codec.decodeUtf8 plaintext)

/-- `buildAccountIssuerDid`. -/
def buildAccountIssuerDid (didDomain accountId : String) : String :=
  "did:web:" ++ didDomain ++ ":accounts:" ++ accountId

namespace DidRepository

/-- `createDid`. -/
def createDid (row : DidRow) : Promise Unit := await (.dids (.createDid row))

/-- `findDidById`. -/
def findDidById (did : String) : Promise (Option DidRow) := await (.dids (.findDidById did))

end DidRepository

namespace IssuerKeyRepository

/-- `create`. -/
def create (data : IssuerKeyCreateData) : Promise IssuerKeyRecordRow :=
  await (.issuerKeys (.create data))

/-- `findByAccountId`. -/
def findByAccountId (accountId : String) : Promise (Option IssuerKeyRecordRow) :=
  await (.issuerKeys (.findByAccountId accountId))

end IssuerKeyRepository

/-- The DID row that `provisionAccountIssuerDid` writes. -/
def issuerDidRow (accountId did publicKey publicKeyMultibase : String) (didDocument : DIDDocument) :
    DidRow where
  id := did
  subjectType := "user"
  controller := did
  publicKey := publicKey
  publicKeyMultibase := publicKeyMultibase
  hederaTransactionId := "hosted-account:" ++ accountId
  didDocument := didDocument

/-- The key row that `provisionAccountIssuerDid` writes. -/
def issuerKeyData (accountId did : String) (encrypted : EncryptedKeyMaterial) :
    IssuerKeyCreateData where
  accountId := accountId
  did := did
  encryptedPrivateKey := encrypted.encryptedPrivateKey
  iv := encrypted.iv
  authTag := encrypted.authTag
  algorithm := encrypted.algorithm

/-- `provisionAccountIssuerDid`. -/
def provisionAccountIssuerDid (cfg : Config) (accountId : String) : Promise String := do
  let did := buildAccountIssuerDid cfg.didDomain accountId
  let (publicKey, encrypted) ← generateAndEncrypt cfg
  let didDocument := cfg.runtime.buildDIDDocument did publicKey
  match didDocument.verificationMethod with
  | [] => .raise .typeError
  | method :: _ =>
    DidRepository.createDid
      (issuerDidRow accountId did publicKey method.publicKeyMultibase didDocument)
    let _ ← IssuerKeyRepository.create (issuerKeyData accountId did encrypted)
    return did

end HelixServer
