import HomeServices.Gateway.Sessions

/-!
# The gateway's routes

Handlers forward requests to the identity service. Authenticated ones take the session from the
cookie first, and forward its access token.

* `extractSessionCookie`, `setSessionCookie`, `clearSessionCookie`, `authSession`: the cookie and the
  extractor; `withAuth`: the authorization of a forwarded request.
* `Request`, `Response`, `handler`: the routes.
* `AppError.response`, `Response.status`: the HTTP status of an answer.
* `machine`: any number of requests, beside rows that expire.
-/

namespace Gateway

open Interaction
open Identity (Bytes Uuid Code Status Platform asBytes headerText stripPrefix)

/-! ## The session cookie -/

/-- Header fields, with lower-case names. -/
abbrev HeaderMap := List (String × Bytes)

def sessionCookie : String := "__Host-sid"

def sessionMaxAgeSecs : ℕ := 7 * 24 * 60 * 60

/-- `str::trim`; the text of a header holds no other white space. -/
def trim (s : String) : String :=
  String.ofList ((s.toList.dropWhile Char.isWhitespace).reverse.dropWhile Char.isWhitespace).reverse

/-- The value of the first pair that starts with the name of the cookie. -/
def findSessionCookie : List String → Except AppError String
  | [] => .error .unauthorized
  | pair :: pairs =>
    match stripPrefix sessionCookie (trim pair) with
    | none => findSessionCookie pairs
    | some value =>
      match stripPrefix "=" value with
      | none => .error .unauthorized
      | some value => .ok value

/-- Parse the `__Host-sid` value from the Cookie header. -/
def extractSessionCookie (headers : HeaderMap) : Except AppError String :=
  match headers.lookup "cookie" with
  | none => .error .unauthorized
  | some value =>
    match headerText value with
    | none => .error .unauthorized
    | some text => findSessionCookie ((text.toList.splitOn ';').map String.ofList)

/-- A `Set-Cookie` value for the session cookie. -/
def setSessionCookie (token : String) : String :=
  sessionCookie ++ "=" ++ token ++ "; HttpOnly; Secure; SameSite=Lax; Path=/; Max-Age=" ++
    toString sessionMaxAgeSecs

/-- A `Set-Cookie` value that clears the session cookie. -/
def clearSessionCookie : String :=
  sessionCookie ++ "=; HttpOnly; Secure; SameSite=Lax; Path=/; Max-Age=0"

/-- The authorization of a forwarded request. -/
def withAuth (session : Session) : Except AppError String :=
  let value := "Bearer " ++ session.accessToken
  match headerText (asBytes value) with
  | none => .error .panicked
  | some _ => .ok value

/-! ## Handlers -/

/-- A request, by its route; the authenticated ones with their headers. -/
inductive Request where
  | signUp (username givenName familyName email password : String)
  | verifyEmail (token : String)
  | login (email password : String)
  | logout (headers : HeaderMap)
  | userInfo (headers : HeaderMap)
  | updateProfile (headers : HeaderMap) (givenName familyName username : Option String)
  | updatePassword (headers : HeaderMap) (currentPassword newPassword : String)
  | resendVerification (email : String)

/-- The headers from which a request's session is taken. -/
def Request.headers : Request → Option HeaderMap
  | logout headers | userInfo headers | updateProfile headers _ _ _ | updatePassword headers _ _ => some headers
  | _ => none

inductive Response where
  | noContent
  -- the cookie that is set
  | loggedIn (cookie : String) (expiresAt : Int64)
  | loggedOut (cookie : String)
  | userInfo (body : UserInfoResponse)

abbrev Route := Handler Op Resp AppError Response

/-- A client of the identity service. -/
def identityClient : Handler Op Resp AppError Unit := attempt .client (Except.mapError .channel)

def forward (request : Rpc) : Handler Op Resp AppError request.Reply :=
  attempt (.rpc request) (Except.mapError .grpc)

/-- Errors of the session store are errors of the route. -/
def stored {α : Type} (x : Handler Op Resp SessionError α) : Handler Op Resp AppError α :=
  ExceptT.mk (x.run.bind fun r => .ret (r.mapError .session))

variable [Platform]

/-- The session of the request's cookie. -/
def authSession (headers : HeaderMap) : Handler Op Resp AppError Session := do
  let token ← fromExcept (extractSessionCookie headers)
  let tokenHash ← fromExcept ((hashSessionToken token).mapError fun _ => .unauthorized)
  let session ← stored (getSession tokenHash)
  fromExcept (session.elim (.error .unauthorized) .ok)

omit [Platform] in
def SignUp.route (username givenName familyName email password : String) : Route := do
  identityClient
  let () ← forward (.signUp username givenName familyName email (some password))
  return .noContent

omit [Platform] in
def VerifyEmail.route (token : String) : Route := do
  identityClient
  let () ← forward (.verifyEmail token)
  return .noContent

/-- The expiry in a login response. -/
def expiry (response : LoginResponse) : Except SessionError (Timestamp × DateTime) :=
  match response.expiresAt with
  | none => .error (.jwtDecode "missing expires_at in login response")
  | some t =>
    -- negative nanoseconds count as none
    match DateTime.fromTimestamp t.seconds t.nanos.toInt.toNat with
    | none => .error (.jwtDecode "invalid expires_at timestamp")
    | some at_ => .ok (t, at_)

def Login.route (email password : String) : Route := do
  identityClient
  let response ← forward (.login email password)
  let userId ← fromExcept ((decodeSubFromJwt response.accessToken).mapError .session)
  let (expiresAt, at_) ← fromExcept ((expiry response).mapError .session)
  let token ← stored
    (createSession userId response.accessToken response.idToken response.refreshToken at_)
  return .loggedIn (setSessionCookie token) expiresAt.seconds

def Logout.route (headers : HeaderMap) : Route := do
  let session ← authSession headers
  stored (deleteSession session.tokenHash)
  return .loggedOut clearSessionCookie

def UserInfo.route (headers : HeaderMap) : Route := do
  let session ← authSession headers
  identityClient
  let authorization ← fromExcept (withAuth session)
  let body ← forward (.userInfo authorization)
  return .userInfo body

def UpdateProfile.route (headers : HeaderMap) (givenName familyName username : Option String) : Route := do
  let session ← authSession headers
  identityClient
  let authorization ← fromExcept (withAuth session)
  let () ← forward (.updateProfile authorization givenName familyName username)
  return .noContent

def UpdatePassword.route (headers : HeaderMap) (currentPassword newPassword : String) : Route := do
  let session ← authSession headers
  identityClient
  let authorization ← fromExcept (withAuth session)
  let () ← forward (.updatePassword authorization currentPassword newPassword)
  return .noContent

omit [Platform] in
def ResendVerification.route (email : String) : Route := do
  identityClient
  let () ← forward (.resendVerification email)
  return .noContent

/-- The program of a request. -/
def route : Request → Route
  | .signUp username givenName familyName email password =>
    SignUp.route username givenName familyName email password
  | .verifyEmail token => VerifyEmail.route token
  | .login email password => Login.route email password
  | .logout headers => Logout.route headers
  | .userInfo headers => UserInfo.route headers
  | .updateProfile headers givenName familyName username =>
    UpdateProfile.route headers givenName familyName username
  | .updatePassword headers currentPassword newPassword =>
    UpdatePassword.route headers currentPassword newPassword
  | .resendVerification email => ResendVerification.route email

/-! ## Answers -/

/-- The status and message of an error; a handler that panicked does not answer. -/
def AppError.response : AppError → Option (ℕ × String)
  | .unauthorized => some (401, "unauthorized")
  | .session _ => some (500, "internal server error")
  | .channel _ => some (503, "service temporarily unavailable")
  | .grpc s =>
    match s.code with
    | .invalidArgument => some (400, s.message)
    | .alreadyExists => some (409, s.message)
    | .notFound => some (404, s.message)
    | .unauthenticated => some (401, s.message)
    | .permissionDenied => some (403, s.message)
    | .unavailable => some (503, s.message)
    | _ => some (500, "internal server error")
  | .panicked => none

def Response.status : Response → ℕ
  | .noContent | .loggedOut _ => 204
  | .loggedIn _ _ | .userInfo _ => 200

/-! ## The running gateway -/

abbrev Event := Entry Op Resp Request World

abbrev Hist := List Event

abbrev State := Config Op Resp Request World (Except AppError Response)

/-- The table without a row that expired. -/
def World.expire (g : World) (tokenHash : Bytes) : World :=
  { g with
    sessions := Function.update g.sessions tokenHash none
    expired := tokenHash :: g.expired }

/-- A row expires. -/
inductive Env (g : World) : World → Prop
  | expire {tokenHash : Bytes} {s : Session} : g.sessions tokenHash = some s → Env g (g.expire tokenHash)

/-- Some choice of the allowed ones executes the operation this way. -/
def Performs (allowed : Op → Choice → Prop) (o : Op) (l : Request) (g : World) (r : Resp o) (l' : Request)
    (g' : World) : Prop :=
  l' = l ∧ ∃ ch, allowed o ch ∧ perform ch g o = some (r, g')

/-- Any number of requests; the choices are limited to the allowed ones. -/
def machine (allowed : Op → Choice → Prop) : Machine Op Resp Request World (Except AppError Response) where
  start _ l p := p = (route l).run
  step _ := Performs allowed
  again _ := none
  env := Env

/-- The store does not fail. -/
def Reliable (o : Op) (ch : Choice) : Prop := o.stores = true → ch.fault = false

/-- The store may fail. -/
def Faulty (_ : Op) (_ : Choice) : Prop := True

/-- The gateway with a new session table. -/
def boot : State := Config.initial { sessions := fun _ => none, expired := [], drawn := [] }

end Gateway
