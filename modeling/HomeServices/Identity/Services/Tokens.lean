import HomeServices.Identity.Services.Accounts

/-!
# The token handlers

`ensure_signing_key`, `get_active_signing_key`, `login`, `list_public_jwks` and `authenticate`.

* `EnsureSigningKey.execute`, `getActiveSigningKey`.
* `accessClaims`, `idClaims`, `Login.execute`.
* `extractBearerToken`, `decodeJwtHeader`, `findKey`, `checkToken`, `authenticate`.
-/

namespace Identity

open Interaction

/-- The gRPC status codes. -/
inductive Code where
  | ok
  | cancelled
  | unknown
  | invalidArgument
  | deadlineExceeded
  | notFound
  | alreadyExists
  | permissionDenied
  | resourceExhausted
  | failedPrecondition
  | aborted
  | outOfRange
  | unimplemented
  | internal
  | unavailable
  | dataLoss
  | unauthenticated
  deriving DecidableEq

structure Status where
  code : Code
  message : String
  deriving DecidableEq

def Status.unauthenticated (message : String) : Status := ⟨.unauthenticated, message⟩

def Status.internal (message : String) : Status := ⟨.internal, message⟩

variable [Platform] {ε : Type}

/-! ## Signing keys -/

inductive EnsureSigningKeyError where
  | pool
  | db (e : PgError)
  | crypto (e : CryptoError)

/-- Ensure at least one active signing key exists in the database. -/
def EnsureSigningKey.execute (kek : Kek) : Handler Op Resp EnsureSigningKeyError Unit := do
  attempt .getConnection (Except.mapError fun _ => .pool)
  let count ← query .db .countActiveKeys
  if 0 < count then return ()
  else
    let generated ← generateKeyPair .crypto .ES256
    let encrypted ← encryptPrivateKey .crypto kek.bytes generated.privateKeyPkcs8
      (asBytes generated.kid)
    let _ ← query .db (.insertSigningKey generated.kid generated.algorithm.asStr encrypted.data
      generated.publicJwk.toJson)
    return ()

/-- A decrypted signing key ready for JWT signing. -/
structure ActiveSigningKey where
  kid : String
  algorithm : Algorithm
  keyPair : EcdsaKeyPair

/-- Decrypt a stored key. -/
def openSigningKey (kek : Kek) (row : StoredKey) : Except CryptoError ActiveSigningKey := do
  let algorithm ← Algorithm.parse row.algorithm
  let encrypted ← EncryptedKey.fromBytes row.encryptedPrivateKey
  let pkcs8 ← decryptPrivateKey kek.bytes encrypted (asBytes row.kid)
  let keyPair ← orError .invalidKeyMaterial (EcdsaKeyPair.fromPkcs8 algorithm pkcs8)
  return { kid := row.kid, algorithm, keyPair }

/-- Fetch the most recent active signing key and decrypt it. -/
def getActiveSigningKey (err : CryptoError → ε) (kek : Kek) :
    Handler Op Resp ε ActiveSigningKey := do
  attempt .getConnection (Except.mapError fun _ => err .keyNotFound)
  let found ← query (fun _ => err .keyNotFound) .activeSigningKey
  let row ← fromExcept (orError (err .keyNotFound) found)
  fromExcept ((openSigningKey kek row).mapError err)

/-! ## login -/

inductive LoginError where
  | db (e : PgError)
  | pool
  | invalidCredentials
  | accountNotActive
  | crypto (e : CryptoError)
  | password (e : PasswordError)
  | noSigningKey

structure LoginResult where
  accessToken : String
  refreshToken : String
  idToken : String
  expiresAt : ℕ

def accessTokenLifetimeSecs : ℕ := 900

def idTokenLifetimeSecs : ℕ := 900

def refreshTokenLifetimeDays : ℕ := 7

def issuer : String := "https://home.ryanseipp.com"

def audience : String := "https://api.home.ryanseipp.com"

/-- `timestamp() as u64`. -/
def timestamp (t : ℕ) : UInt64 := UInt64.ofNat (t / second)

/-- Minimal claims for authorization. -/
def accessClaims (user : User) (now : ℕ) (jti : Uuid) : Claims :=
  { iss := some issuer
    sub := some (uuidText user.id)
    aud := some (.single audience)
    exp := some (timestamp (now + accessTokenLifetimeSecs * second))
    nbf := some (timestamp now)
    iat := some (timestamp now)
    jti := some (uuidText jti) }

/-- OIDC-style claims with the user's profile. -/
def idClaims (user : User) (now : ℕ) (jti : Uuid) : Claims :=
  { iss := some issuer
    sub := some (uuidText user.id)
    aud := some (.single audience)
    exp := some (timestamp (now + idTokenLifetimeSecs * second))
    nbf := some (timestamp now)
    iat := some (timestamp now)
    jti := some (uuidText jti)
    name := some (user.givenName ++ " " ++ user.familyName)
    givenName := some user.givenName
    familyName := some user.familyName
    email := some user.email
    emailVerified := some user.emailVerified
    preferredUsername := some user.username }

/-- Build the tokens of a user whose password and status were checked. -/
def Login.issue (kek : Kek) (user : User) : Handler Op Resp LoginError LoginResult := do
  let key ← getActiveSigningKey (fun _ => .noSigningKey) kek
  let now ← attempt .utcNow .ok
  let accessId ← attempt .newV4 .ok
  let accessJwt ← signJwt .crypto key.algorithm key.kid (accessClaims user now accessId) key.keyPair
  let idId ← attempt .newV4 .ok
  let idJwt ← signJwt .crypto key.algorithm key.kid (idClaims user now idId) key.keyPair
  let refresh ← generateVerificationToken .crypto
  let refreshId ← attempt .newV7 .ok
  attempt .getConnection (Except.mapError fun _ => .pool)
  let _ ← query .db (.insertRefreshToken refreshId user.id refresh.2
    (now + refreshTokenLifetimeDays * 24 * 3600 * second))
  return { accessToken := accessJwt.token, refreshToken := refresh.1, idToken := idJwt.token,
           expiresAt := now + accessTokenLifetimeSecs * second }

def Login.execute (kek : Kek) (email password : String) :
    Handler Op Resp LoginError LoginResult := do
  attempt .getConnection (Except.mapError fun _ => .pool)
  let found ← query .db (.userByEmail email)
  let user ← fromExcept (orError .invalidCredentials found)
  verifyBlocking .password .invalidCredentials password user.passwordHash
  fromExcept (require (user.status = .active) .accountNotActive)
  Login.issue kek user

/-! ## authenticate -/

omit [Platform] in
/-- `HeaderValue::to_str`: visible ASCII and tabs only. -/
def headerText (value : Bytes) : Option String :=
  if value.all fun b => (32 ≤ b ∧ b < 127) ∨ b = 9 then
    some (String.ofList (value.map fun b => Char.ofNat b.toNat))
  else none

omit [Platform] in
def stripPrefix (start s : String) : Option String :=
  (start.toList.isPrefixOf? s.toList).map String.ofList

omit [Platform] in
def extractBearerToken (authorization : Option Bytes) : Except Status String := do
  let value ← orError (.unauthenticated "missing authorization header") authorization
  let text ← orError (.unauthenticated "invalid authorization header") (headerText value)
  orError (.unauthenticated "invalid authorization scheme") (stripPrefix "Bearer " text)

def decodeJwtHeader (token : String) : Except Status JwtHeader := do
  let segment ← orError (.unauthenticated "malformed token") (segments token).head?
  orError (.unauthenticated "malformed token") (decodeHeader segment)

/-- All non-revoked public keys; one row that does not parse fails them all. -/
def listPublicJwks (err : ε) : Handler Op Resp ε (List Jwk) := do
  attempt .getConnection (Except.mapError fun _ => err)
  let rows ← query (fun _ => err) .publicJwks
  fromExcept (orError err (rows.mapM Jwk.ofJson))

omit [Platform] in
def findKey (jwks : List Jwk) (kid : String) : Except Status Jwk :=
  orError (.unauthenticated "unknown signing key") (jwks.find? fun k => k.kid = kid)

def authenticateOptions (now : UInt64) : VerificationOptions :=
  { allowedAlgorithms := [.ES256, .ES384]
    issuer := some issuer
    audience := some audience
    currentTime := now
    leeway := 30 }

/-- Verify the token under its key and read the user's id from `sub`. -/
def checkToken (token : String) (jwk : Jwk) (now : UInt64) : Except Status Uuid := do
  let claims ← (verifyJwt token jwk (authenticateOptions now)).mapError
    fun _ => .unauthenticated "invalid token"
  let sub ← orError (.unauthenticated "missing sub claim") claims.sub
  orError (.unauthenticated "invalid sub claim") (parseUuid sub)

/-- Authenticate a gRPC request by validating the Bearer JWT. -/
def authenticate (authorization : Option Bytes) : Handler Op Resp Status Uuid := do
  let token ← fromExcept (extractBearerToken authorization)
  let header ← fromExcept (decodeJwtHeader token)
  let jwks ← listPublicJwks (.internal "failed to load signing keys")
  let jwk ← fromExcept (findKey jwks header.kid)
  let now ← attempt .unixNow (Except.mapError fun _ => .internal "clock error")
  fromExcept (checkToken token jwk now)

end Identity
