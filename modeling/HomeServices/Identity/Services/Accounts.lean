import HomeServices.Identity.Crypto.Jwt

/-!
# The account handlers

`sign_up`, `resend_verification`, `verify_email`, `update_password` and `update_profile`, step by
step as the source runs them.

* `validateUsername`, `validateEmail`, `validatePassword`.
* `verificationEvent`, `passwordChangedEvent`: the messages the handlers queue.
* `SignUp.execute`, `ResendVerification.execute`, `VerifyEmail.execute`, `UpdatePassword.execute`,
  `UpdateProfile.execute`.
-/

namespace Identity

open Interaction

/-! ## Validation -/

def containsText (s text : String) : Bool := s.toList.tails.any text.toList.isPrefixOf

/-- 1-64 ASCII alphanumeric, underscore, or hyphen. -/
def validateUsername (username : String) : Except String Unit :=
  if username.isEmpty ∨ 64 < username.utf8ByteSize then
    .error "must be 1-64 characters, alphanumeric, underscore, or hyphen"
  else if username.toList.all fun c => c.isAlphanum || c = '_' || c = '-' then .ok ()
  else .error "must be 1-64 characters, alphanumeric, underscore, or hyphen"

/-- 8-128 characters, counted as bytes. -/
def validatePassword (password : String) : Except String Unit :=
  if password.utf8ByteSize < 8 then .error "must be at least 8 characters"
  else if 128 < password.utf8ByteSize then .error "must be at most 128 characters"
  else .ok ()

def validateEmail (email : String) : Except String Unit :=
  if email.utf8ByteSize < 3 ∨ 254 < email.utf8ByteSize ∨ '@' ∉ email.toList then
    .error "invalid email address"
  else .ok ()

/-! ## Messages -/

inductive OutboxError where
  | db (e : PgError)
  | pool
  | kafka (reason : String)
  | unknownEventType (eventType : String)

/-- One second, in nanoseconds. -/
def second : ℕ := 1000000000

def tokenExpiresMinutes : ℕ := 60

def timestampMillis (t : ℕ) : ℕ := t / 1000000

variable [Platform]

/-- The envelope all queued emails share. -/
def emailMessage (outboxId : Uuid) (email givenName familyName : String)
    (trace : Option (String × String)) (producedAt : ℕ) (payload : Payload) : AuthEmailMessage :=
  { idempotencyKey := uuidText outboxId
    recipientEmail := email
    recipientName := givenName ++ " " ++ familyName
    traceId := (trace.map Prod.fst).getD ""
    spanId := (trace.map Prod.snd).getD ""
    producedAtMs := timestampMillis producedAt
    payload := some payload }

def verificationLink (webBaseUrl token : String) : String :=
  webBaseUrl ++ "/verify-email?token=" ++ token

def verificationEvent (webBaseUrl : String) (outboxId : Uuid) (email givenName familyName : String)
    (trace : Option (String × String)) (producedAt : ℕ) (token : String) : AuthEmailMessage :=
  emailMessage outboxId email givenName familyName trace producedAt (.emailVerification
    { verificationCode := token
      verificationLink := verificationLink webBaseUrl token
      expiresInMinutes := tokenExpiresMinutes })

def passwordChangedEvent (outboxId : Uuid) (email givenName familyName : String)
    (trace : Option (String × String)) (producedAt changedAt : ℕ) : AuthEmailMessage :=
  emailMessage outboxId email givenName familyName trace producedAt (.passwordChanged
    { changedAtMs := timestampMillis changedAt, changeIp := "", changeLocation := "" })

variable {ε : Type}

/-- Insert an outbox event of a user, within the transaction. -/
def insertEvent (err : OutboxError → ε) (id userId : Uuid) (message : AuthEmailMessage)
    (trace : Option (String × String)) : Handler Op Resp ε ℕ :=
  query (fun e => err (.db e)) (.insertEvent id "user" userId "auth_email" (encodeEmail message)
    (trace.map Prod.fst) (trace.map Prod.snd))

/-! ## sign_up -/

inductive SignUpError where
  | db (e : PgError)
  | pool
  | password (e : PasswordError)
  | crypto (e : CryptoError)
  | outbox (e : OutboxError)
  | usernameTaken
  | emailTaken
  | passwordRequired
  | passwordTooShort
  | passwordTooLong
  | invalidUsername
  | invalidEmail

omit [Platform] in
def SignUpError.ofInsertUser (e : PgError) : SignUpError :=
  if e = .constraint "idx_users_username" then .usernameTaken
  else if e = .constraint "idx_users_email" then .emailTaken
  else .db e

def SignUp.execute (webBaseUrl username email givenName familyName : String)
    (password : Option String) : Handler Op Resp SignUpError Unit := do
  fromExcept ((validateUsername username).mapError fun _ => .invalidUsername)
  fromExcept ((validateEmail email).mapError fun _ => .invalidEmail)
  let password ← fromExcept (orError .passwordRequired password)
  fromExcept ((validatePassword password).mapError fun e =>
    if containsText e "at least" then .passwordTooShort else .passwordTooLong)
  let passwordHash ← hashBlocking .password password
  let userId ← attempt .newV7 .ok
  let tokenId ← attempt .newV7 .ok
  let outboxId ← attempt .newV7 .ok
  let token ← generateVerificationToken .crypto
  let now ← attempt .utcNow .ok
  let trace ← attempt .traceContext .ok
  let producedAt ← attempt .utcNow .ok
  let message := verificationEvent webBaseUrl outboxId email givenName familyName trace producedAt
    token.1
  attempt .getConnection (Except.mapError fun _ => .pool)
  transaction .db do
    let _ ← query .ofInsertUser
      (.insertUser userId username email givenName familyName passwordHash)
    let _ ← query .db
      (.insertToken tokenId userId token.2 (now + tokenExpiresMinutes * 60 * second))
    let _ ← insertEvent .outbox outboxId userId message trace
    return ()

/-! ## resend_verification -/

inductive ResendVerificationError where
  | db (e : PgError)
  | pool
  | crypto (e : CryptoError)
  | outbox (e : OutboxError)
  | rateLimited

/-- Maximum verification emails per user per hour. -/
def maxTokensPerHour : ℕ := 3

/-- Issue another token to a pending user. -/
def ResendVerification.issue (webBaseUrl : String) (user : User) :
    Handler Op Resp ResendVerificationError Unit := do
  let recentCount ← query .db (.countRecentTokens user.id)
  fromExcept (require (¬ maxTokensPerHour ≤ recentCount) .rateLimited)
  let tokenId ← attempt .newV7 .ok
  let outboxId ← attempt .newV7 .ok
  let token ← generateVerificationToken .crypto
  let now ← attempt .utcNow .ok
  let trace ← attempt .traceContext .ok
  let producedAt ← attempt .utcNow .ok
  let message := verificationEvent webBaseUrl outboxId user.email user.givenName user.familyName
    trace producedAt token.1
  transaction .db do
    let _ ← query .db
      (.insertToken tokenId user.id token.2 (now + tokenExpiresMinutes * 60 * second))
    let _ ← insertEvent .outbox outboxId user.id message trace
    return ()

def ResendVerification.execute (webBaseUrl email : String) :
    Handler Op Resp ResendVerificationError Unit := do
  attempt .getConnection (Except.mapError fun _ => .pool)
  -- a failed lookup reads as no user
  let user ← attempt (.sql (.userByEmail email)) fun
    | .ok user => .ok user
    | .error _ => .ok none
  match user with
  | none => return ()
  | some user =>
    if user.status = .pendingVerification then ResendVerification.issue webBaseUrl user
    else return ()

/-! ## verify_email -/

inductive VerifyEmailError where
  | db (e : PgError)
  | pool
  | invalidToken
  | alreadyConsumed
  | userNotFound
  | alreadyVerified

def VerifyEmail.consumeToken (tokenId : Uuid) : Handler Op Resp VerifyEmailError Unit := do
  let rowsAffected ← query .db (.consumeToken tokenId)
  fromExcept (require (rowsAffected ≠ 0) .alreadyConsumed)

def VerifyEmail.markEmailVerified (userId : Uuid) : Handler Op Resp VerifyEmailError Unit := do
  let rowsAffected ← query .db (.markEmailVerified userId)
  fromExcept (require (rowsAffected ≠ 0) .userNotFound)

def VerifyEmail.execute (rawToken : String) : Handler Op Resp VerifyEmailError Unit := do
  let tokenBytes ← fromExcept (orError .invalidToken (Base64Url.decodeVec rawToken))
  attempt .getConnection (Except.mapError fun _ => .pool)
  transaction .db do
    let found ← query .db (.tokenByHash (sha256 tokenBytes))
    let tokenRow ← fromExcept (orError .invalidToken found)
    let now ← attempt .utcNow .ok
    fromExcept (require (¬ tokenRow.expiresAt < now.val) .invalidToken)
    VerifyEmail.consumeToken tokenRow.id
    VerifyEmail.markEmailVerified tokenRow.userId

/-! ## update_password -/

inductive UpdatePasswordError where
  | db (e : PgError)
  | pool
  | password (e : PasswordError)
  | outbox (e : OutboxError)
  | notFound
  | invalidCurrentPassword
  | invalidNewPassword (reason : String)

def UpdatePassword.execute (userId : Uuid) (currentPassword newPassword : String) :
    Handler Op Resp UpdatePasswordError Unit := do
  fromExcept ((validatePassword newPassword).mapError .invalidNewPassword)
  attempt .getConnection (Except.mapError fun _ => .pool)
  let found ← query .db (.userById userId)
  let user ← fromExcept (orError .notFound found)
  verifyBlocking .password .invalidCurrentPassword currentPassword user.passwordHash
  let newHash ← hashBlocking .password newPassword
  let trace ← attempt .traceContext .ok
  let outboxId ← attempt .newV7 .ok
  let producedAt ← attempt .utcNow .ok
  let changedAt ← attempt .utcNow .ok
  let message := passwordChangedEvent outboxId user.email user.givenName user.familyName trace
    producedAt changedAt
  attempt .getConnection (Except.mapError fun _ => .pool)
  transaction .db do
    -- the number of rows the UPDATE affected is not looked at
    let _ ← query .db (.updatePassword userId newHash)
    let _ ← insertEvent .outbox outboxId userId message trace
    return ()

/-! ## update_profile -/

inductive UpdateProfileError where
  | db (e : PgError)
  | pool
  | noFieldsProvided
  | invalidUsername (reason : String)
  | usernameTaken

omit [Platform] in
def UpdateProfileError.ofUpdate (e : PgError) : UpdateProfileError :=
  if e = .constraint "idx_users_username" then .usernameTaken else .db e

def UpdateProfile.execute (userId : Uuid) (givenName familyName username : Option String) :
    Handler Op Resp UpdateProfileError Unit := do
  fromExcept (require (¬ (givenName = none ∧ familyName = none ∧ username = none))
    .noFieldsProvided)
  fromExcept (match username with
    | some u => (validateUsername u).mapError .invalidUsername
    | none => .ok ())
  attempt .getConnection (Except.mapError fun _ => .pool)
  let _ ← query .ofUpdate (.updateProfile userId givenName familyName username)
  return ()

end Identity
