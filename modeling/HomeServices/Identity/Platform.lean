import HomeServices.Text.Base64Url
import HomeServices.Text.Json

/-!
# What the identity service runs on

The functions the service takes from its libraries and from Postgres, with the documented laws
some results assume of them. A result that needs a law has it as a hypothesis.

* `Platform`: hashing, password hashing, AES-256-GCM, ECDSA, JSON text, protobuf, UUID text, LOWER.
* `OpensSealed`, `VerifiesSigned`, `UuidRoundTrip`, `EmailRoundTrip`: the laws.
-/

namespace Identity

abbrev Bytes := List UInt8

abbrev Uuid := BitVec 128

/-- The UTF-8 bytes of a string. -/
def asBytes (s : String) : Bytes := s.toByteArray.data.toList

theorem asBytes_inj {s t : String} (h : asBytes s = asBytes t) : s = t :=
  String.toByteArray_inj.mp (ByteArray.ext (Array.toList_inj.mp h))

inductive Algorithm where
  | ES256
  | ES384
  deriving DecidableEq, Repr

structure EmailVerification where
  verificationCode : String
  verificationLink : String
  expiresInMinutes : ℕ
  deriving DecidableEq

structure PasswordChanged where
  changedAtMs : ℕ
  changeIp : String
  changeLocation : String
  deriving DecidableEq

/-- The kinds of email; those the service never queues are kept as a field number and bytes. -/
inductive Payload where
  | emailVerification (email : EmailVerification)
  | passwordChanged (email : PasswordChanged)
  | other (field : ℕ) (bytes : Bytes)
  deriving DecidableEq

/-- Envelope message for all auth-related emails. -/
structure AuthEmailMessage where
  idempotencyKey : String
  recipientEmail : String
  recipientName : String
  traceId : String
  spanId : String
  producedAtMs : ℕ
  payload : Option Payload
  deriving DecidableEq

/-- The library functions of the service. Randomized ones take their random bytes. -/
class Platform where
  lower : String → String
  sha256 : Bytes → Bytes
  phcHash : String → Bytes → Option String
  phcValid : String → Bool
  phcVerify : String → String → Bool
  -- AES-256-GCM: key, nonce, additional data, plaintext; ciphertext and tag
  sealInPlace : Bytes → Bytes → Bytes → Bytes → Bytes
  openInPlace : Bytes → Bytes → Bytes → Bytes → Option Bytes
  -- the public key of a PKCS#8 document, when the document parses
  publicKey : Algorithm → Bytes → Option Bytes
  -- algorithm, PKCS#8 document, message, random bytes
  ecdsaSign : Algorithm → Bytes → Bytes → Bytes → Bytes
  -- algorithm, public key, message, signature
  ecdsaVerify : Algorithm → Bytes → Bytes → Bytes → Bool
  jsonPrint : Json → Bytes
  jsonParse : Bytes → Option Json
  -- what the library says of bytes that it does not parse
  jsonError : Bytes → String
  encodeEmail : AuthEmailMessage → Bytes
  decodeEmail : Bytes → Option AuthEmailMessage
  uuidText : Uuid → String
  parseUuid : String → Option Uuid
  uuidError : String → String

export Platform (lower sha256 phcHash phcValid phcVerify sealInPlace openInPlace publicKey
  ecdsaSign ecdsaVerify jsonPrint jsonParse jsonError encodeEmail decodeEmail uuidText
  parseUuid uuidError)

/-- A key pair parsed from a PKCS#8 document. -/
structure EcdsaKeyPair [Platform] where
  algorithm : Algorithm
  pkcs8 : Bytes
  point : Bytes
  valid : publicKey algorithm pkcs8 = some point

/-- `EcdsaKeyPair::from_pkcs8`. -/
def EcdsaKeyPair.fromPkcs8 [Platform] (algorithm : Algorithm) (pkcs8 : Bytes) :
    Option EcdsaKeyPair :=
  match h : publicKey algorithm pkcs8 with
  | none => none
  | some point => some ⟨algorithm, pkcs8, point, h⟩

theorem fromPkcs8_eq_some [Platform] {algorithm : Algorithm} {pkcs8 : Bytes} {kp : EcdsaKeyPair}
    (h : EcdsaKeyPair.fromPkcs8 algorithm pkcs8 = some kp) :
    kp.algorithm = algorithm ∧ kp.pkcs8 = pkcs8 := by
  unfold EcdsaKeyPair.fromPkcs8 at h
  split at h
  · cases h
  · cases h; exact ⟨rfl, rfl⟩

theorem fromPkcs8_self [Platform] (kp : EcdsaKeyPair) :
    EcdsaKeyPair.fromPkcs8 kp.algorithm kp.pkcs8 = some kp := by
  unfold EcdsaKeyPair.fromPkcs8
  split
  · rename_i h; rw [kp.valid] at h; cases h
  · rename_i point h
    have hp : kp.point = point := Option.some.inj (kp.valid.symm.trans h)
    subst hp
    rfl

section Laws

variable [Platform]

/-- Under a 256-bit key and a 96-bit nonce, `open_in_place` inverts `seal_in_place_append_tag`,
whose tag has 16 bytes. -/
def OpensSealed : Prop :=
  ∀ key nonce aad plaintext : Bytes, key.length = 32 → nonce.length = 12 →
    openInPlace key nonce aad (sealInPlace key nonce aad plaintext) = some plaintext ∧
      (sealInPlace key nonce aad plaintext).length = plaintext.length + 16

/-- Verification accepts what the matching key signed. -/
def VerifiesSigned : Prop :=
  ∀ (alg : Algorithm) (pkcs8 pk message rnd : Bytes), publicKey alg pkcs8 = some pk →
    ecdsaVerify alg pk message (ecdsaSign alg pkcs8 message rnd) = true

/-- A UUID parses back from its text. -/
def UuidRoundTrip : Prop := ∀ id : Uuid, parseUuid (uuidText id) = some id

/-- Protobuf decoding inverts `encode_to_vec` on the messages the service builds. -/
def EmailRoundTrip : Prop :=
  ∀ m : AuthEmailMessage, (∀ field bytes, m.payload ≠ some (.other field bytes)) →
    decodeEmail (encodeEmail m) = some m

end Laws

end Identity
