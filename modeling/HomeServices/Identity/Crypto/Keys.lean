import HomeServices.Identity.Session

/-!
# Passwords, tokens and keys

Password hashing, verification tokens, the envelope encryption of private keys, and the public
JWKs of ECDSA keys.

* `hashPassword`, `verifyPassword`; `generateVerificationToken`.
* `encryptPrivateKey`, `decryptPrivateKey`; **`decrypt_encrypted`**: decryption inverts encryption.
* `Jwk`, `publicJwkFromPkcs8`, `generateKeyPair`; `point_of_publicJwk`: a published JWK holds the
  coordinates of its key; `Jwk.ofJson_toJson`.
-/

namespace Identity

open Interaction

inductive CryptoError where
  | keyGeneration
  | signing
  | verification
  | encryption
  | decryption
  | invalidKeyMaterial
  | invalidKek
  | keyNotFound
  | serialization
  | invalidToken
  | tokenExpired
  | algorithmMismatch
  | kekLoad (reason : String)
  | rngFailure
  deriving DecidableEq

inductive PasswordError where
  | hashingFailed
  | verificationFailed
  | invalidFormat
  deriving DecidableEq

variable [Platform]

/-! ## Passwords -/

/-- Hash a password with a salt. -/
def hashPassword (password : String) (salt : Bytes) : Except PasswordError String :=
  match phcHash password salt with
  | some hash => .ok hash
  | none => .error .hashingFailed

/-- Verify a password against a PHC-format hash. -/
def verifyPassword (password hash : String) : Except PasswordError Unit :=
  if phcValid hash then
    if phcVerify password hash then .ok () else .error .verificationFailed
  else .error .invalidFormat

variable {ε : Type}

/-- Hash a password with a fresh salt, on a blocking thread. -/
def hashBlocking (err : PasswordError → ε) (password : String) : Handler Op Resp ε String := do
  let salt ← attempt .generateSalt .ok
  attempt .join (Except.mapError fun _ => err .hashingFailed)
  fromExcept ((hashPassword password salt).mapError err)

/-- Verify a password on a blocking thread; every refusal reads as `refused`. -/
def verifyBlocking (err : PasswordError → ε) (refused : ε) (password hash : String) :
    Handler Op Resp ε Unit := do
  attempt .join (Except.mapError fun _ => err .verificationFailed)
  fromExcept ((verifyPassword password hash).mapError fun _ => refused)

/-! ## Verification tokens -/

/-- A token's cleartext and the hash of its bytes. -/
def tokenOf (raw : Bytes) : String × Bytes := (Base64Url.encodeString raw, sha256 raw)

def generateVerificationToken (err : CryptoError → ε) : Handler Op Resp ε (String × Bytes) := do
  let raw ← attempt (.fillRandom 32) (Except.mapError fun _ => err .rngFailure)
  return tokenOf raw

/-! ## Envelope encryption -/

/-- A key encryption key: exactly 32 bytes. -/
structure Kek where
  bytes : Bytes
  length_eq : bytes.length = 32

/-- A private key under a KEK: nonce, ciphertext, tag. -/
structure EncryptedKey where
  data : Bytes

omit [Platform] in
/-- Construct from raw bytes, validating the minimum length. -/
def EncryptedKey.fromBytes (data : Bytes) : Except CryptoError EncryptedKey :=
  if data.length < 12 + 1 + 16 then .error .invalidKeyMaterial else .ok ⟨data⟩

def encryptPrivateKey (err : CryptoError → ε) (kek plaintext aad : Bytes) :
    Handler Op Resp ε EncryptedKey := do
  fromExcept (if kek.length = 32 then .ok () else .error (err .invalidKek))
  let nonce ← attempt (.fillRandom 12) (Except.mapError fun _ => err .encryption)
  return ⟨nonce.val ++ sealInPlace kek nonce aad plaintext⟩

def decryptPrivateKey (kek : Bytes) (encrypted : EncryptedKey) (aad : Bytes) :
    Except CryptoError Bytes :=
  if kek.length = 32 then
    match openInPlace kek (encrypted.data.take 12) aad (encrypted.data.drop 12) with
    | some plaintext => .ok plaintext
    | none => .error .decryption
  else .error .invalidKek

/-- **Decryption inverts encryption**, through storage. -/
theorem decrypt_encrypted (hlaw : OpensSealed) (kek : Kek) {nonce : Bytes} (hn : nonce.length = 12)
    {plaintext : Bytes} (hp : plaintext ≠ []) (aad : Bytes) :
    (EncryptedKey.fromBytes (nonce ++ sealInPlace kek.bytes nonce aad plaintext)).bind
      (decryptPrivateKey kek.bytes · aad) = .ok plaintext := by
  obtain ⟨hopens, htag⟩ := hlaw kek.bytes nonce aad plaintext kek.length_eq hn
  have hlen : ¬ (nonce ++ sealInPlace kek.bytes nonce aad plaintext).length < 12 + 1 + 16 := by
    have := List.length_pos_of_ne_nil hp
    rw [List.length_append, hn, htag]
    omega
  rw [EncryptedKey.fromBytes, if_neg hlen]
  change decryptPrivateKey _ _ _ = _
  rw [decryptPrivateKey, if_pos kek.length_eq, List.take_left' hn, List.drop_left' hn, hopens]

/-! ## Algorithms and JWKs -/

namespace Algorithm

def asStr : Algorithm → String
  | ES256 => "ES256"
  | ES384 => "ES384"

def curveName : Algorithm → String
  | ES256 => "P-256"
  | ES384 => "P-384"

def coordinateSize : Algorithm → ℕ
  | ES256 => 32
  | ES384 => 48

def parse (s : String) : Except CryptoError Algorithm :=
  if s = "ES256" then .ok ES256 else if s = "ES384" then .ok ES384 else .error .algorithmMismatch

omit [Platform] in
theorem parse_asStr (alg : Algorithm) : parse alg.asStr = .ok alg := by
  cases alg <;> rfl

end Algorithm

/-- A public JWK (RFC 7517). -/
structure Jwk where
  kty : String
  keyUse : String
  kid : String
  alg : String
  crv : String
  x : String
  y : String

namespace Jwk

def memberNames : List String := ["kty", "use", "kid", "alg", "crv", "x", "y"]

def toJson (k : Jwk) : Json :=
  Json.writeRecord memberNames [k.kty, k.keyUse, k.kid, k.alg, k.crv, k.x, k.y]

def ofJson (j : Json) : Option Jwk :=
  match Json.stringRecord memberNames j with
  | some [kty, keyUse, kid, alg, crv, x, y] => some { kty, keyUse, kid, alg, crv, x, y }
  | _ => none

omit [Platform] in
theorem ofJson_toJson (k : Jwk) : ofJson k.toJson = some k := by
  have hnd : memberNames.Nodup := by decide
  have hread : Json.stringRecord memberNames k.toJson =
      some [k.kty, k.keyUse, k.kid, k.alg, k.crv, k.x, k.y] :=
    Json.stringRecord_writeRecord hnd rfl
  rw [ofJson, hread]

/-- The uncompressed EC point of the coordinates. -/
def point (k : Jwk) : Except CryptoError Bytes :=
  match Base64Url.decodeVec k.x, Base64Url.decodeVec k.y with
  | some x, some y => .ok (0x04 :: x ++ y)
  | _, _ => .error .invalidKeyMaterial

end Jwk

/-- Reconstruct a public JWK from a PKCS#8 DER private key. -/
def publicJwkFromPkcs8 (kid : String) (algorithm : Algorithm) (pkcs8 : Bytes) :
    Except CryptoError Jwk :=
  match EcdsaKeyPair.fromPkcs8 algorithm pkcs8 with
  | none => .error .invalidKeyMaterial
  | some keyPair =>
    let size := algorithm.coordinateSize
    if keyPair.point.length ≠ 1 + 2 * size ∨ keyPair.point.head? ≠ some 0x04 then
      .error .invalidKeyMaterial
    else .ok
      { kty := "EC"
        keyUse := "sig"
        kid
        alg := algorithm.asStr
        crv := algorithm.curveName
        x := Base64Url.encodeString ((keyPair.point.drop 1).take size)
        y := Base64Url.encodeString (keyPair.point.drop (1 + size)) }

structure GeneratedKeyPair where
  kid : String
  algorithm : Algorithm
  privateKeyPkcs8 : Bytes
  publicJwk : Jwk

/-- Generate a new ECDSA key pair with a fresh UUID v4 `kid`. -/
def generateKeyPair (err : CryptoError → ε) (algorithm : Algorithm) :
    Handler Op Resp ε GeneratedKeyPair := do
  let pkcs8 ← attempt (.generatePkcs8 algorithm) (Except.mapError fun _ => err .keyGeneration)
  let id ← attempt .newV4 .ok
  let publicJwk ← fromExcept ((publicJwkFromPkcs8 (uuidText id) algorithm pkcs8).mapError err)
  return { kid := uuidText id, algorithm, privateKeyPkcs8 := pkcs8, publicJwk }

/-- A published JWK carries its `kid` and the coordinates of its key. -/
theorem point_of_publicJwk {kid : String} {algorithm : Algorithm} {pkcs8 : Bytes} {jwk : Jwk}
    (h : publicJwkFromPkcs8 kid algorithm pkcs8 = .ok jwk) :
    ∃ keyPair, EcdsaKeyPair.fromPkcs8 algorithm pkcs8 = some keyPair ∧ jwk.kid = kid ∧
      jwk.point = .ok keyPair.point := by
  unfold publicJwkFromPkcs8 at h
  cases hkp : EcdsaKeyPair.fromPkcs8 algorithm pkcs8 with
  | none => rw [hkp] at h; cases h
  | some keyPair =>
    simp only [hkp] at h
    split_ifs at h with hshape
    push Not at hshape
    cases h
    refine ⟨keyPair, rfl, rfl, ?_⟩
    simp only [Jwk.point, Base64Url.decodeVec_encodeString]
    congr 1
    cases hpt : keyPair.point with
    | nil => rw [hpt] at hshape; simp at hshape
    | cons b rest =>
      have hb : b = 0x04 := by simpa [hpt] using hshape.2
      subst hb
      rw [List.drop_succ_cons, List.drop_zero, Nat.add_comm, List.drop_succ_cons]
      rw [List.cons_append, List.take_append_drop]

end Identity
