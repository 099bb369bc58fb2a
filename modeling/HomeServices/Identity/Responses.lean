import HomeServices.Identity.Service

/-!
# What the client is answered

How the service turns the result of a handler into a gRPC status.

* `SignUp.status`, `Login.status`, `VerifyEmail.status`, `ResendVerification.status`,
  `UpdateProfile.status`, `UpdatePassword.status`: the statuses of the errors.
* `Reply.status`: the status a call ends with, if it does not end well.
-/

namespace Identity

def Status.invalidArgument (message : String) : Status := ⟨.invalidArgument, message⟩

def Status.notFound (message : String) : Status := ⟨.notFound, message⟩

def Status.alreadyExists (message : String) : Status := ⟨.alreadyExists, message⟩

def Status.permissionDenied (message : String) : Status := ⟨.permissionDenied, message⟩

def Status.resourceExhausted (message : String) : Status := ⟨.resourceExhausted, message⟩

def SignUp.status : SignUpError → Status
  | .usernameTaken => .alreadyExists "username already taken"
  | .emailTaken => .alreadyExists "email already taken"
  | .passwordRequired => .invalidArgument "password is required"
  | .passwordTooShort => .invalidArgument "password must be at least 8 characters"
  | .passwordTooLong => .invalidArgument "password must be at most 128 characters"
  | .invalidUsername => .invalidArgument
      "invalid username: must be 1-64 characters, alphanumeric, underscore, or hyphen"
  | .invalidEmail => .invalidArgument "invalid email address"
  | .db _ | .pool | .password _ | .crypto _ | .outbox _ => .internal "internal error"

def Login.status : LoginError → Status
  | .invalidCredentials => .unauthenticated "invalid credentials"
  | .accountNotActive => .permissionDenied "account not active"
  | .db _ | .pool | .crypto _ | .password _ | .noSigningKey => .internal "internal error"

def VerifyEmail.status : VerifyEmailError → Status
  | .invalidToken => .notFound "invalid or expired verification token"
  | .alreadyConsumed => .alreadyExists "token already consumed"
  | .userNotFound => .notFound "user not found"
  | .alreadyVerified => .alreadyExists "email already verified"
  | .db _ | .pool => .internal "internal error"

def ResendVerification.status : ResendVerificationError → Status
  | .rateLimited => .resourceExhausted "too many verification requests, try again later"
  | .db _ | .pool | .crypto _ | .outbox _ => .internal "internal error"

def UpdateProfile.status : UpdateProfileError → Status
  | .noFieldsProvided => .invalidArgument "no fields provided"
  | .invalidUsername reason => .invalidArgument ("invalid username: " ++ reason)
  | .usernameTaken => .alreadyExists "username already taken"
  | .db _ | .pool => .internal "internal error"

def UpdatePassword.status : UpdatePasswordError → Status
  | .invalidCurrentPassword => .unauthenticated "invalid current password"
  | .invalidNewPassword reason => .invalidArgument ("invalid new password: " ++ reason)
  | .notFound => .notFound "user not found"
  | .db _ | .pool | .password _ | .outbox _ => .internal "internal error"

/-- The status of an error; `none` where the call ends well. -/
def failure {ε α : Type} (status : ε → Status) : Except ε α → Option Status
  | .ok _ => none
  | .error e => some (status e)

/-- The status the client is answered; `none` is OK. Statements and the start-up check of the
signing key are no calls of a client. -/
def Reply.status : Reply → Option Status
  | .signUp r => failure SignUp.status r
  | .login r => failure Login.status r
  | .verifyEmail r => failure VerifyEmail.status r
  | .resendVerification r => failure ResendVerification.status r
  | .updateProfile r => failure UpdateProfile.status r
  | .updatePassword r => failure UpdatePassword.status r
  | .authenticate r => failure id r
  | .ensureSigningKey _ | .statement _ => none

end Identity
