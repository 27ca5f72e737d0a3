import HelixServer.Async.Solo
import HelixServer.Server
import Mathlib.Data.Set.Insert

/-!
# Which records the key custody signs with

`AesGcmKeyCustody.decrypt` hands the stored tag to `setAuthTag` as it is, and Node compares a tag
of 4, 8 or 12 to 15 bytes with the beginning of the full tag.  So a record whose tag has been cut
short is decrypted like the one it was made from (`sign_shortened`), and every other record that
the custody has not made is rejected (`decrypt_rejects`).

* `NodeGcm rt` : what `aes256GcmOpen` does, in terms of the full tag.
* `EncryptedKeyMaterial.bytes` : what the three stored strings decode to.
* `Shortened` : the tag is a proper beginning of the full tag that `setAuthTag` accepts.
-/

namespace HelixServer

open Async

namespace Custody

/-- What a record decodes to. -/
structure SealedBytes where
  iv : List UInt8
  ciphertext : List UInt8
  authTag : List UInt8
  deriving DecidableEq

end Custody

/-- The bytes that `decrypt` reads from a record. -/
def EncryptedKeyMaterial.bytes (m : EncryptedKeyMaterial) : Custody.SealedBytes where
  iv := hexDecode m.iv
  ciphertext := hexDecode m.encryptedPrivateKey
  authTag := hexDecode m.authTag

namespace Custody

/-- The lengths of a tag that `setAuthTag` accepts. -/
def tagLengths : List ℕ := [4, 8, 12, 13, 14, 15, 16]

/-- AES-256-GCM as Node's `createCipheriv` and `createDecipheriv` do it. -/
structure NodeGcm (rt : Runtime) where
  /-- The full tag of a ciphertext. -/
  fullTag : (key iv ciphertext : List UInt8) → List UInt8
  /-- What `decipher.update` makes of a ciphertext. -/
  plaintext : (key iv ciphertext : List UInt8) → List UInt8
  /-- The initialisation vectors that `createDecipheriv` accepts. -/
  ivAccepted : List UInt8 → Prop
  length_fullTag : ∀ key iv ciphertext, (fullTag key iv ciphertext).length = 16
  ivAccepted_of_length : ∀ iv : List UInt8, iv.length = 12 → ivAccepted iv
  sealed_tag : ∀ key iv text, key.length = 32 →
    (rt.aes256Gcm key iv text).2 = fullTag key iv (rt.aes256Gcm key iv text).1
  sealed_plaintext : ∀ key iv text, key.length = 32 →
    plaintext key iv (rt.aes256Gcm key iv text).1 = text
  /-- `final()` compares the given tag with the beginning of the full tag. -/
  open_eq_some : ∀ key iv ciphertext authTag text, key.length = 32 →
    (rt.aes256GcmOpen key iv ciphertext authTag = some text ↔
      ivAccepted iv ∧ authTag.length ∈ tagLengths ∧
        authTag = (fullTag key iv ciphertext).take authTag.length ∧
        text = plaintext key iv ciphertext)

/-- A generated key pair signs, and its signatures verify. -/
def Signs (rt : Runtime) (scheme : SignatureScheme) : Prop :=
  ∀ draw data, ∃ signature,
    scheme.signData data (rt.generateKeyPair draw).privateKey = some signature ∧
      scheme.verifies data signature (rt.generateKeyPair draw).publicKey = true

section

variable {cfg : Config} {core : Core} {w : World core} (gcm : NodeGcm cfg.runtime)
  {scheme : SignatureScheme} {m m' : EncryptedKeyMaterial} {publicKey data masterKeyHex : String}

/-- The tag is a proper beginning of the full tag, of a length that `setAuthTag` accepts. -/
def Shortened (key : List UInt8) (b : SealedBytes) : Prop :=
  gcm.ivAccepted b.iv ∧ b.authTag.length ∈ [4, 8, 12, 13, 14, 15] ∧
    b.authTag = (gcm.fullTag key b.iv b.ciphertext).take b.authTag.length

/-- Nobody forges a full tag: a record that has one was made by the custody. -/
def Unforged (key : List UInt8) (records : Set EncryptedKeyMaterial) (b : SealedBytes) : Prop :=
  b.authTag = gcm.fullTag key b.iv b.ciphertext → ∃ r ∈ records, r.bytes = b

theorem returns_generateAndEncrypt
    (h : (server cfg core).Returns (generateAndEncrypt cfg) w (publicKey, m)) :
    publicKey = (cfg.runtime.generateKeyPair w.draws).publicKey ∧
      m = encryptWith cfg (cfg.runtime.randomBytes (w.draws + 1) 12)
        (cfg.runtime.generateKeyPair w.draws).privateKey := by
  rw [generateAndEncrypt] at h
  have h₁ := (returns_call (M := server cfg core) (Op.exec_runtime _ _)).1 h
  have h₂ := (returns_call (M := server cfg core) (Op.exec_runtime _ _)).1 h₁
  exact Prod.mk.inj (returns_pure.1 h₂)

@[simp] theorem bytes_encryptWith (iv : List UInt8) (text : String) :
    (encryptWith cfg iv text).bytes = ⟨iv, (cfg.runtime.aes256Gcm cfg.masterKey iv (utf8 text)).1,
      (cfg.runtime.aes256Gcm cfg.masterKey iv (utf8 text)).2⟩ := by
  simp [EncryptedKeyMaterial.bytes, encryptWith, hexDecode_hexEncode]

variable {gcm}

/-- A record is signed with if its tag is the beginning of the full tag and the text it decrypts to
is a key. -/
theorem sign_eq_some (gcm : NodeGcm cfg.runtime) (hkey : cfg.masterKey.length = 32)
    {signature : String} :
    sign cfg scheme data m = some signature ↔
      (gcm.ivAccepted m.bytes.iv ∧ m.bytes.authTag.length ∈ tagLengths ∧
        m.bytes.authTag =
          (gcm.fullTag cfg.masterKey m.bytes.iv m.bytes.ciphertext).take m.bytes.authTag.length) ∧
      scheme.signData data
          (Codec.decodeUtf8 (gcm.plaintext cfg.masterKey m.bytes.iv m.bytes.ciphertext)) =
        some signature := by
  rw [sign, Option.bind_eq_some_iff]
  constructor
  · rintro ⟨text, hopen, hsign⟩
    obtain ⟨hiv, hlength, htag, rfl⟩ := (gcm.open_eq_some _ _ _ _ _ hkey).1 hopen
    exact ⟨⟨hiv, hlength, htag⟩, hsign⟩
  · rintro ⟨⟨hiv, hlength, htag⟩, hsign⟩
    exact ⟨_, (gcm.open_eq_some _ _ _ _ _ hkey).2 ⟨hiv, hlength, htag, rfl⟩, hsign⟩

/-- The tag is accepted if it is the full tag or a shortened one. -/
theorem accepted_iff {key : List UInt8} {b : SealedBytes} :
    (gcm.ivAccepted b.iv ∧ b.authTag.length ∈ tagLengths ∧
        b.authTag = (gcm.fullTag key b.iv b.ciphertext).take b.authTag.length) ↔
      (gcm.ivAccepted b.iv ∧ b.authTag = gcm.fullTag key b.iv b.ciphertext) ∨
        Shortened gcm key b := by
  have hfull : (gcm.fullTag key b.iv b.ciphertext).take 16 = gcm.fullTag key b.iv b.ciphertext :=
    List.take_of_length_le (Nat.le_of_eq (gcm.length_fullTag ..))
  constructor
  · rintro ⟨hiv, hlength, htag⟩
    by_cases h16 : b.authTag.length = 16
    · rw [h16, hfull] at htag
      exact .inl ⟨hiv, htag⟩
    · refine .inr ⟨hiv, ?_, htag⟩
      simp only [tagLengths, List.mem_cons, List.not_mem_nil, or_false] at hlength ⊢
      omega
  · rintro (⟨hiv, htag⟩ | ⟨hiv, hlength, htag⟩)
    · have h16 : b.authTag.length = 16 := by rw [htag, gcm.length_fullTag]
      exact ⟨hiv, by simp [h16, tagLengths], by rw [h16, hfull]; exact htag⟩
    · refine ⟨hiv, ?_, htag⟩
      simp only [tagLengths, List.mem_cons, List.not_mem_nil, or_false] at hlength ⊢
      omega

/-- The record that `generateAndEncrypt` has made signs for its public key. -/
theorem sign_generated (hkey : cfg.masterKey.length = 32) (hsigns : Signs cfg.runtime scheme)
    (hbytes : ∀ draw size, (cfg.runtime.randomBytes draw size).length = size)
    (hm : (server cfg core).Returns (generateAndEncrypt cfg) w (publicKey, m))
    (gcm : NodeGcm cfg.runtime) :
    ∃ signature, sign cfg scheme data m = some signature ∧
      scheme.verifies data signature publicKey = true := by
  obtain ⟨rfl, rfl⟩ := returns_generateAndEncrypt hm
  obtain ⟨signature, hsign, hverifies⟩ := hsigns w.draws data
  refine ⟨signature, (sign_eq_some gcm hkey).2 ⟨accepted_iff.2 (.inl ⟨?_, ?_⟩), ?_⟩, hverifies⟩
  · rw [bytes_encryptWith]
    exact gcm.ivAccepted_of_length _ (hbytes _ _)
  · rw [bytes_encryptWith]
    exact gcm.sealed_tag _ _ _ hkey
  · simp only [bytes_encryptWith]
    rw [gcm.sealed_plaintext _ _ _ hkey, utf8, Codec.decodeUtf8_encode]
    exact hsign

/-- A record that differs from a made one in that its tag is cut short signs like it. -/
theorem sign_shortened (hkey : cfg.masterKey.length = 32)
    (hm : (server cfg core).Returns (generateAndEncrypt cfg) w (publicKey, m))
    (hiv : m'.bytes.iv = m.bytes.iv) (hciphertext : m'.bytes.ciphertext = m.bytes.ciphertext)
    (hshort : Shortened gcm cfg.masterKey m'.bytes) :
    sign cfg scheme data m' =
      scheme.signData data (cfg.runtime.generateKeyPair w.draws).privateKey := by
  obtain ⟨-, rfl⟩ := returns_generateAndEncrypt hm
  simp only [bytes_encryptWith] at hiv hciphertext
  ext signature
  rw [sign_eq_some gcm hkey, and_iff_right (accepted_iff.2 (.inr hshort)), hiv,
    hciphertext, gcm.sealed_plaintext _ _ _ hkey, utf8, Codec.decodeUtf8_encode]

/-- **Which records the custody rejects.**  A record with other bytes than every record made is
rejected if its tag is not a shortened one, while a record made always signs for its public key; of
the records that differ from a made one in the tag only, no others are rejected. -/
theorem decrypt_rejects (hkey : AesGcmKeyCustody.masterKey masterKeyHex = .ok cfg.masterKey)
    (hsigns : Signs cfg.runtime scheme)
    (hbytes : ∀ draw size, (cfg.runtime.randomBytes draw size).length = size)
    (hm : (server cfg core).Returns (generateAndEncrypt cfg) w (publicKey, m))
    {others : Set EncryptedKeyMaterial} (hother : ∀ r ∈ insert m others, r.bytes ≠ m'.bytes)
    (hideal : Unforged gcm cfg.masterKey (insert m others) m'.bytes) :
    (¬ Shortened gcm cfg.masterKey m'.bytes →
        sign cfg scheme data m' = none ∧ ∃ signature, sign cfg scheme data m = some signature ∧
          scheme.verifies data signature publicKey = true) ∧
      (m'.bytes.iv = m.bytes.iv → m'.bytes.ciphertext = m.bytes.ciphertext →
        ((sign cfg scheme data m' = none ∧ ∃ signature, sign cfg scheme data m = some signature ∧
          scheme.verifies data signature publicKey = true) ↔
            ¬ Shortened gcm cfg.masterKey m'.bytes)) := by
  have hlength := AesGcmKeyCustody.length_masterKey hkey
  have hmade : ∃ signature, sign cfg scheme data m = some signature ∧
      scheme.verifies data signature publicKey = true :=
    sign_generated hlength hsigns hbytes hm gcm
  -- a record that nobody has made does not have the full tag
  have hnotFull : m'.bytes.authTag ≠
      gcm.fullTag cfg.masterKey m'.bytes.iv m'.bytes.ciphertext := by
    intro hfull
    obtain ⟨r, hr, hsame⟩ := hideal hfull
    exact hother r hr hsame
  have hrejects : ¬ Shortened gcm cfg.masterKey m'.bytes → sign cfg scheme data m' = none := by
    intro hshort
    refine Option.eq_none_iff_forall_ne_some.2 fun signature hsign => ?_
    rcases accepted_iff.1 ((sign_eq_some gcm hlength).1 hsign).1 with ⟨-, hfull⟩ | hcut
    · exact hnotFull hfull
    · exact hshort hcut
  refine ⟨fun hshort => ⟨hrejects hshort, hmade⟩, fun hiv hciphertext => ⟨?_, fun hshort =>
    ⟨hrejects hshort, hmade⟩⟩⟩
  rintro ⟨hnone, -⟩ hshort
  obtain ⟨signature, hsign, -⟩ := hsigns w.draws data
  rw [sign_shortened hlength hm hiv hciphertext hshort, hsign] at hnone
  cases hnone

end

/-! ### A shortened tag -/

/-- A tag of 16 bytes that depends on every byte. -/
def sampleTag (key iv ciphertext : List UInt8) : List UInt8 :=
  (List.range 16).map fun i =>
    UInt8.ofNat ((key ++ iv ++ ciphertext).foldl (fun n b => n + b.toNat) i)

/-- The sample runtime with a cipher that checks tags as Node does. -/
def sampleRuntime : Runtime :=
  { Runtime.sample with
    aes256Gcm key iv text := (text, sampleTag key iv text)
    aes256GcmOpen key iv ciphertext authTag :=
      if iv ≠ [] ∧ authTag.length ∈ tagLengths ∧
          authTag = (sampleTag key iv ciphertext).take authTag.length then some ciphertext
      else none }

/-- The configuration with the master key of 32 zero bytes. -/
def sampleConfig : Config :=
  { runtime := sampleRuntime, storage := .sqlite, masterKey := List.replicate 32 0 }

/-- Its cipher is one of Node's kind. -/
def sampleGcm : NodeGcm sampleConfig.runtime where
  fullTag := sampleTag
  plaintext _ _ ciphertext := ciphertext
  ivAccepted iv := iv ≠ []
  length_fullTag _ _ _ := by simp [sampleTag]
  ivAccepted_of_length iv h := by rintro rfl; cases h
  sealed_tag _ _ _ _ := rfl
  sealed_plaintext _ _ _ _ := rfl
  open_eq_some key iv ciphertext authTag text _ := by
    simp only [sampleConfig, sampleRuntime, Option.ite_none_right_eq_some, Option.some.injEq]
    rw [and_assoc, and_assoc, eq_comm (a := ciphertext)]

/-- A signature is the data with the key. -/
def sampleScheme : SignatureScheme where
  signData data privateKeyHex := some (data ++ privateKeyHex)
  verifies data signature publicKey := signature == data ++ publicKey

theorem signs_sample : Signs sampleRuntime sampleScheme := fun draw data =>
  ⟨data ++ toString draw, rfl, beq_self_eq_true (data ++ toString draw)⟩

/-- The record made from the key pair of the first draw. -/
def sampleRecord : EncryptedKeyMaterial := encryptWith sampleConfig (List.replicate 12 1) "0"

/-- The record with its tag cut to 12 bytes. -/
def cutRecord : EncryptedKeyMaterial :=
  { sampleRecord with authTag := String.ofList (sampleRecord.authTag.toList.take 24) }

/-- The record with another tag. -/
def forgedRecord : EncryptedKeyMaterial :=
  { sampleRecord with authTag := hexEncode (List.replicate 16 0) }

theorem returns_sampleRecord :
    (server sampleConfig Core.sample).Returns (generateAndEncrypt sampleConfig) World.sample
      ("0", sampleRecord) := ⟨2, _, rfl⟩

set_option maxRecDepth 4000 in
theorem decrypt_rejects_forged :
    sign sampleConfig sampleScheme "data" forgedRecord = none ∧
      ∃ signature, sign sampleConfig sampleScheme "data" sampleRecord = some signature ∧
        sampleScheme.verifies "data" signature "0" = true := by
  have hkey : AesGcmKeyCustody.masterKey (String.ofList (List.replicate 64 '0')) =
      .ok sampleConfig.masterKey := rfl
  have hother : ∀ r ∈ insert sampleRecord (∅ : Set EncryptedKeyMaterial),
      r.bytes ≠ forgedRecord.bytes := by
    simp only [insert_empty_eq, Set.mem_singleton_iff, forall_eq]
    decide
  have hideal : Unforged sampleGcm sampleConfig.masterKey (insert sampleRecord ∅)
      forgedRecord.bytes := fun h => absurd h (by decide)
  exact ((decrypt_rejects hkey signs_sample (fun draw size => List.length_replicate)
    returns_sampleRecord hother hideal).2 rfl rfl).2 fun h => absurd h.2.1 (by decide)

set_option maxRecDepth 4000 in
/-- A record whose tag has been cut to 12 bytes signs. -/
theorem decrypt_rejects_fails :
    AesGcmKeyCustody.masterKey (String.ofList (List.replicate 64 '0')) =
        .ok sampleConfig.masterKey ∧
      (server sampleConfig Core.sample).Returns (generateAndEncrypt sampleConfig) World.sample
        ("0", sampleRecord) ∧
      cutRecord.bytes ≠ sampleRecord.bytes ∧
      Unforged sampleGcm sampleConfig.masterKey {sampleRecord} cutRecord.bytes ∧
      sign sampleConfig sampleScheme "data" cutRecord = some "data0" :=
  ⟨rfl, returns_sampleRecord, by decide, fun h => absurd h (by decide), by decide⟩

end Custody

end HelixServer
