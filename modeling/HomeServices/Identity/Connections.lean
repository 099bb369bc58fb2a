import HomeServices.Concurrent.Resources
import HomeServices.Identity.Responses

/-!
# The connections of a call

Every handler takes connections from the pool and returns each when its client is dropped: at the end
of the scope that took it, however that ends.

* `withClient`: the scope of a client.
* `SignUp.onPool` and the like: the handlers with their clients; `erased_signUp` and the like: without
  the returns they are the handlers.
* `Call`, `Call.onPool`: the calls of the service.
* `Frugal`, **`frugal_call`**: no call asks for a connection while it holds one.
-/

namespace Identity

open Interaction

/-- A handler with its clients. -/
abbrev PoolHandler [Platform] (ε α : Type) := Handler (Pooled Op) (PooledResp Resp) ε α

variable [Platform] {ε α β : Type}

/-- Run `x` with a client, which is dropped at its end. -/
def withClient (err : ε) (x : Handler Op Resp ε α) : PoolHandler ε α :=
  holding .getConnection (Except.mapError fun _ => err) x

/-! ## The handlers -/

def SignUp.onPool (webBaseUrl username email givenName familyName : String) (password : Option String) :
    PoolHandler SignUpError Unit := do
  lifted (fromExcept ((validateUsername username).mapError fun _ => .invalidUsername))
  lifted (fromExcept ((validateEmail email).mapError fun _ => .invalidEmail))
  let password ← lifted (fromExcept (orError .passwordRequired password))
  lifted (fromExcept ((validatePassword password).mapError fun e =>
    if containsText e "at least" then .passwordTooShort else .passwordTooLong))
  let passwordHash ← lifted (hashBlocking .password password)
  let userId ← lifted (attempt .newV7 .ok)
  let tokenId ← lifted (attempt .newV7 .ok)
  let outboxId ← lifted (attempt .newV7 .ok)
  let token ← lifted (generateVerificationToken .crypto)
  let now ← lifted (attempt .utcNow .ok)
  let trace ← lifted (attempt .traceContext .ok)
  let producedAt ← lifted (attempt .utcNow .ok)
  let message := verificationEvent webBaseUrl outboxId email givenName familyName trace producedAt
    token.1
  withClient .pool <| transaction .db do
    let _ ← query .ofInsertUser
      (.insertUser userId username email givenName familyName passwordHash)
    let _ ← query .db
      (.insertToken tokenId userId token.2 (now + tokenExpiresMinutes * 60 * second))
    let _ ← insertEvent .outbox outboxId userId message trace
    return ()

/-- The client is kept from the lookup of the user to the commit. -/
def ResendVerification.onPool (webBaseUrl email : String) : PoolHandler ResendVerificationError Unit :=
  withClient .pool do
    let user ← attempt (.sql (.userByEmail email)) fun
      | .ok user => .ok user
      | .error _ => .ok none
    match user with
    | none => return ()
    | some user =>
      if user.status = .pendingVerification then ResendVerification.issue webBaseUrl user
      else return ()

def VerifyEmail.onPool (rawToken : String) : PoolHandler VerifyEmailError Unit := do
  let tokenBytes ← lifted (fromExcept (orError .invalidToken (Base64Url.decodeVec rawToken)))
  withClient .pool <| transaction .db do
    let found ← query .db (.tokenByHash (sha256 tokenBytes))
    let tokenRow ← fromExcept (orError .invalidToken found)
    let now ← attempt .utcNow .ok
    fromExcept (require (¬ tokenRow.expiresAt < now.val) .invalidToken)
    VerifyEmail.consumeToken tokenRow.id
    VerifyEmail.markEmailVerified tokenRow.userId

/-- The first client is dropped before the passwords are hashed. -/
def UpdatePassword.onPool (userId : Uuid) (currentPassword newPassword : String) :
    PoolHandler UpdatePasswordError Unit := do
  lifted (fromExcept ((validatePassword newPassword).mapError .invalidNewPassword))
  let user ← withClient .pool do
    let found ← query .db (.userById userId)
    fromExcept (orError .notFound found)
  lifted (verifyBlocking .password .invalidCurrentPassword currentPassword user.passwordHash)
  let newHash ← lifted (hashBlocking .password newPassword)
  let trace ← lifted (attempt .traceContext .ok)
  let outboxId ← lifted (attempt .newV7 .ok)
  let producedAt ← lifted (attempt .utcNow .ok)
  let changedAt ← lifted (attempt .utcNow .ok)
  let message := passwordChangedEvent outboxId user.email user.givenName user.familyName trace
    producedAt changedAt
  withClient .pool <| transaction .db do
    let _ ← query .db (.updatePassword userId newHash)
    let _ ← insertEvent .outbox outboxId userId message trace
    return ()

def UpdateProfile.onPool (userId : Uuid) (givenName familyName username : Option String) :
    PoolHandler UpdateProfileError Unit := do
  lifted (fromExcept (require (¬ (givenName = none ∧ familyName = none ∧ username = none))
    .noFieldsProvided))
  lifted (fromExcept (match username with
    | some u => (validateUsername u).mapError .invalidUsername
    | none => .ok ()))
  withClient .pool do
    let _ ← query .ofUpdate (.updateProfile userId givenName familyName username)
    return ()

def getActiveSigningKeyOnPool (err : CryptoError → ε) (kek : Kek) : PoolHandler ε ActiveSigningKey :=
  withClient (err .keyNotFound) do
    let found ← query (fun _ => err .keyNotFound) .activeSigningKey
    let row ← fromExcept (orError (err .keyNotFound) found)
    fromExcept ((openSigningKey kek row).mapError err)

/-- One client to read the key, and another to store the refresh token. -/
def Login.issueOnPool (kek : Kek) (user : User) : PoolHandler LoginError LoginResult := do
  let key ← getActiveSigningKeyOnPool (fun _ => .noSigningKey) kek
  let now ← lifted (attempt .utcNow .ok)
  let accessId ← lifted (attempt .newV4 .ok)
  let accessJwt ← lifted
    (signJwt .crypto key.algorithm key.kid (accessClaims user now accessId) key.keyPair)
  let idId ← lifted (attempt .newV4 .ok)
  let idJwt ← lifted (signJwt .crypto key.algorithm key.kid (idClaims user now idId) key.keyPair)
  let refresh ← lifted (generateVerificationToken .crypto)
  let refreshId ← lifted (attempt .newV7 .ok)
  let _ ← withClient .pool (query .db (.insertRefreshToken refreshId user.id refresh.2
    (now + refreshTokenLifetimeDays * 24 * 3600 * second)))
  return { accessToken := accessJwt.token, refreshToken := refresh.1, idToken := idJwt.token,
           expiresAt := now + accessTokenLifetimeSecs * second }

/-- The first client is dropped before the password is verified. -/
def Login.onPool (kek : Kek) (email password : String) : PoolHandler LoginError LoginResult := do
  let user ← withClient .pool do
    let found ← query .db (.userByEmail email)
    fromExcept (orError .invalidCredentials found)
  lifted (verifyBlocking .password .invalidCredentials password user.passwordHash)
  lifted (fromExcept (require (user.status = .active) .accountNotActive))
  Login.issueOnPool kek user

def listPublicJwksOnPool (err : ε) : PoolHandler ε (List Jwk) :=
  withClient err do
    let rows ← query (fun _ => err) .publicJwks
    fromExcept (orError err (rows.mapM Jwk.ofJson))

def authenticateOnPool (authorization : Option Bytes) : PoolHandler Status Uuid := do
  let token ← lifted (fromExcept (extractBearerToken authorization))
  let header ← lifted (fromExcept (decodeJwtHeader token))
  let jwks ← listPublicJwksOnPool (.internal "failed to load signing keys")
  let jwk ← lifted (fromExcept (findKey jwks header.kid))
  let now ← lifted (attempt .unixNow (Except.mapError fun _ => .internal "clock error"))
  lifted (fromExcept (checkToken token jwk now))

/-! ## Without the returns -/

theorem erased_withClient (err : ε) (x : Handler Op Resp ε α) :
    erased (withClient err x) = attempt .getConnection (Except.mapError fun _ => err) >>= fun _ => x :=
  erased_holding ..

theorem erased_signUp (webBaseUrl username email givenName familyName : String)
    (password : Option String) :
    erased (SignUp.onPool webBaseUrl username email givenName familyName password) =
      SignUp.execute webBaseUrl username email givenName familyName password := by
  simp only [SignUp.onPool, SignUp.execute, erased_bind, erased_lifted, erased_withClient]

theorem erased_resendVerification (webBaseUrl email : String) :
    erased (ResendVerification.onPool webBaseUrl email) = ResendVerification.execute webBaseUrl email :=
  erased_withClient ..

theorem erased_verifyEmail (rawToken : String) :
    erased (VerifyEmail.onPool rawToken) = VerifyEmail.execute rawToken := by
  simp only [VerifyEmail.onPool, VerifyEmail.execute, erased_bind, erased_lifted, erased_withClient]

theorem erased_updatePassword (userId : Uuid) (currentPassword newPassword : String) :
    erased (UpdatePassword.onPool userId currentPassword newPassword) =
      UpdatePassword.execute userId currentPassword newPassword := by
  simp only [UpdatePassword.onPool, UpdatePassword.execute, erased_bind, erased_lifted, erased_withClient,
    bind_assoc]

theorem erased_updateProfile (userId : Uuid) (givenName familyName username : Option String) :
    erased (UpdateProfile.onPool userId givenName familyName username) =
      UpdateProfile.execute userId givenName familyName username := by
  cases username with
  | none =>
    simp only [UpdateProfile.onPool, UpdateProfile.execute, erased_bind, erased_lifted, erased_withClient]
  | some u =>
    simp only [UpdateProfile.onPool, UpdateProfile.execute, erased_bind, erased_lifted, erased_withClient]

theorem erased_getActiveSigningKey (err : CryptoError → ε) (kek : Kek) :
    erased (getActiveSigningKeyOnPool err kek) = getActiveSigningKey err kek :=
  erased_withClient ..

theorem erased_login (kek : Kek) (email password : String) :
    erased (Login.onPool kek email password) = Login.execute kek email password := by
  simp only [Login.onPool, Login.execute, Login.issueOnPool, Login.issue, erased_bind, erased_lifted,
    erased_withClient, erased_getActiveSigningKey, erased_pure, bind_assoc]

theorem erased_authenticate (authorization : Option Bytes) :
    erased (authenticateOnPool authorization) = authenticate authorization := by
  simp only [authenticateOnPool, authenticate, listPublicJwksOnPool, listPublicJwks, erased_bind,
    erased_lifted, erased_withClient, bind_assoc]

/-! ## The calls -/

inductive UserInfoError where
  | db (e : PgError)
  | pool
  | notFound

omit [Platform] in
def UserInfo.status : UserInfoError → Status
  | .notFound => .notFound "user not found"
  | .db _ | .pool => .internal "internal error"

def UserInfo.onPool (userId : Uuid) : PoolHandler UserInfoError User :=
  withClient .pool do
    let found ← query .db (.userById userId)
    fromExcept (orError .notFound found)

inductive GetJwksError where
  | db (e : PgError)
  | pool
  | serialization

omit [Platform] in
def GetJwks.status : GetJwksError → Status
  | .db _ => .internal "database error"
  | .pool => .internal "pool error"
  | .serialization => .internal "serialization failed"

/-- The JWKS as JSON text. -/
def GetJwks.onPool : PoolHandler GetJwksError Bytes := do
  let keys ← withClient .pool do
    let rows ← query .db .publicJwks
    fromExcept (orError .serialization (rows.mapM Jwk.ofJson))
  return jsonPrint (.obj [("keys", .arr (keys.map Jwk.toJson))])

/-- A call of the service, with the authorization of those that are authenticated. -/
inductive Call where
  | signUp (username email givenName familyName : String) (password : Option String)
  | login (email password : String)
  | userInfo (authorization : Option Bytes)
  | verifyEmail (token : String)
  | resendVerification (email : String)
  | getJwks
  | updateProfile (authorization : Option Bytes) (givenName familyName username : Option String)
  | updatePassword (authorization : Option Bytes) (currentPassword newPassword : String)

inductive Answer where
  | empty
  | tokens (result : LoginResult)
  | user (user : User)
  | keys (json : Bytes)

/-- The errors of a handler as statuses. -/
def answered (status : ε → Status) (x : PoolHandler ε α) : PoolHandler Status α :=
  ExceptT.mk (x.run.bind fun r => .ret (r.mapError status))

def Call.onPool (dep : Deployment) : Call → PoolHandler Status Answer
  | .signUp username email givenName familyName password => do
    answered SignUp.status
      (SignUp.onPool dep.webBaseUrl username email givenName familyName password)
    return .empty
  | .login email password => do
    let result ← answered Login.status (Login.onPool dep.kek email password)
    return .tokens result
  | .userInfo authorization => do
    let userId ← authenticateOnPool authorization
    let user ← answered UserInfo.status (UserInfo.onPool userId)
    return .user user
  | .verifyEmail token => do
    answered VerifyEmail.status (VerifyEmail.onPool token)
    return .empty
  | .resendVerification email => do
    answered ResendVerification.status (ResendVerification.onPool dep.webBaseUrl email)
    return .empty
  | .getJwks => do
    let json ← answered GetJwks.status GetJwks.onPool
    return .keys json
  | .updateProfile authorization givenName familyName username => do
    let userId ← authenticateOnPool authorization
    answered UpdateProfile.status (UpdateProfile.onPool userId givenName familyName username)
    return .empty
  | .updatePassword authorization currentPassword newPassword => do
    let userId ← authenticateOnPool authorization
    answered UpdatePassword.status (UpdatePassword.onPool userId currentPassword newPassword)
    return .empty

/-! ## No call asks while it holds a connection -/

/-- Whether an answer grants a connection. -/
def granted : (o : Op) → Resp o → Bool
  | .getConnection, r => r.isOk
  | _, _ => false

/-- The handler asks only while it holds no connection, and ends without one. -/
abbrev Frugal (x : PoolHandler ε α) : Prop := Within granted 0 (fun h _ => h = 0) 0 x.run

theorem frugal_pure (a : α) : Frugal (pure a : PoolHandler ε α) := rfl

theorem frugal_lifted (x : Handler Op Resp ε α) : Frugal (lifted x) := within_lift fun _ => rfl

theorem frugal_withClient (err : ε) (x : Handler Op Resp ε α) : Frugal (withClient err x) := by
  refine within_holding (fun r => ?_) (Nat.le_refl 0) fun _ => rfl
  cases r <;> rfl

theorem frugal_bind {x : PoolHandler ε α} {f : α → PoolHandler ε β} (hx : Frugal x)
    (hf : ∀ a, Frugal (f a)) : Frugal (x >>= f) := by
  unfold Frugal
  rw [run_bind]
  refine hx.bind ?_
  rintro _ r rfl
  cases r with
  | error e => rfl
  | ok a => exact hf a

theorem frugal_lifted_bind {x : Handler Op Resp ε α} {f : α → PoolHandler ε β}
    (hf : ∀ a, Frugal (f a)) : Frugal (lifted x >>= f) := frugal_bind (frugal_lifted x) hf

theorem frugal_answered {status : ε → Status} {x : PoolHandler ε α} (hx : Frugal x) :
    Frugal (answered status x) :=
  hx.bind fun _ _ h => h

theorem frugal_signUp (webBaseUrl username email givenName familyName : String) (password : Option String) :
    Frugal (SignUp.onPool webBaseUrl username email givenName familyName password) := by
  unfold SignUp.onPool
  repeat refine frugal_lifted_bind fun _ => ?_
  exact frugal_withClient ..

theorem frugal_verifyEmail (rawToken : String) : Frugal (VerifyEmail.onPool rawToken) :=
  frugal_lifted_bind fun _ => frugal_withClient ..

theorem frugal_updatePassword (userId : Uuid) (currentPassword newPassword : String) :
    Frugal (UpdatePassword.onPool userId currentPassword newPassword) := by
  unfold UpdatePassword.onPool
  refine frugal_lifted_bind fun _ => ?_
  refine frugal_bind (frugal_withClient ..) fun user => ?_
  repeat refine frugal_lifted_bind fun _ => ?_
  exact frugal_withClient ..

theorem frugal_updateProfile (userId : Uuid) (givenName familyName username : Option String) :
    Frugal (UpdateProfile.onPool userId givenName familyName username) :=
  frugal_lifted_bind fun _ => frugal_lifted_bind fun _ => frugal_withClient ..

theorem frugal_login (kek : Kek) (email password : String) : Frugal (Login.onPool kek email password) := by
  unfold Login.onPool Login.issueOnPool
  refine frugal_bind (frugal_withClient ..) fun user => ?_
  refine frugal_lifted_bind fun _ => frugal_lifted_bind fun _ => ?_
  refine frugal_bind (frugal_withClient ..) fun key => ?_
  repeat refine frugal_lifted_bind fun _ => ?_
  exact frugal_bind (frugal_withClient ..) fun _ => frugal_pure _

theorem frugal_authenticate (authorization : Option Bytes) : Frugal (authenticateOnPool authorization) := by
  unfold authenticateOnPool
  refine frugal_lifted_bind fun _ => frugal_lifted_bind fun _ => ?_
  refine frugal_bind (frugal_withClient ..) fun _ => ?_
  exact frugal_lifted_bind fun _ => frugal_lifted_bind fun _ => frugal_lifted _

/-- **No call asks for a connection while it holds one.** -/
theorem frugal_call (dep : Deployment) (call : Call) : Frugal (call.onPool dep) := by
  cases call with
  | signUp username email givenName familyName password =>
    exact frugal_bind (frugal_answered (frugal_signUp ..)) fun _ => frugal_pure _
  | login email password =>
    exact frugal_bind (frugal_answered (frugal_login ..)) fun _ => frugal_pure _
  | userInfo authorization =>
    refine frugal_bind (frugal_authenticate authorization) fun userId => ?_
    exact frugal_bind (frugal_answered (frugal_withClient ..)) fun _ => frugal_pure _
  | verifyEmail token =>
    exact frugal_bind (frugal_answered (frugal_verifyEmail token)) fun _ => frugal_pure _
  | resendVerification email =>
    exact frugal_bind (frugal_answered (frugal_withClient ..)) fun _ => frugal_pure _
  | getJwks =>
    refine frugal_bind (frugal_answered ?_) fun _ => frugal_pure _
    exact frugal_bind (frugal_withClient ..) fun _ => frugal_pure _
  | updateProfile authorization givenName familyName username =>
    refine frugal_bind (frugal_authenticate authorization) fun userId => ?_
    exact frugal_bind (frugal_answered (frugal_updateProfile ..)) fun _ => frugal_pure _
  | updatePassword authorization currentPassword newPassword =>
    refine frugal_bind (frugal_authenticate authorization) fun userId => ?_
    exact frugal_bind (frugal_answered (frugal_updatePassword ..)) fun _ => frugal_pure _

end Identity
