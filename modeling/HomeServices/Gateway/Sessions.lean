import HomeServices.Concurrent.Schedule
import HomeServices.Gateway.Pool
import HomeServices.Identity.Services.Tokens

/-!
# Gateway sessions

The gateway keeps the tokens of a login in a session, under the hash of a random token that only the
client keeps, in its cookie.

* `Session`, `DateTime`, `SessionError`: what is stored, and what goes wrong.
* `Rpc`, `Op`, `World`, `Choice`, `perform`: calls of the identity service, the session store, and what
  they leave open. Random tokens do not repeat.
* `generateSessionToken`, `hashSessionToken`, `createSession`, `getSession`, `deleteSession`: the store.
* `decodeSubFromJwt`: the user of an access token.
-/

namespace Gateway

open Interaction
open Identity (Bytes Uuid Status Platform segments sha256 jsonParse jsonError parseUuid uuidError)

/-! ## Data -/

/-- A time of chrono; nanoseconds from 10⁹ on are those of a leap second. -/
structure DateTime where
  seconds : ℤ
  nanos : ℕ
  deriving DecidableEq

/-- `DateTime::from_timestamp`, within the years that chrono represents. -/
def DateTime.fromTimestamp (seconds : Int64) (nanos : ℕ) : Option DateTime :=
  if -8334601228800 ≤ seconds.toInt ∧ seconds.toInt ≤ 8210266876799 ∧
      (nanos < 1000000000 ∨ nanos < 2000000000 ∧ seconds.toInt % 60 = 59) then
    some ⟨seconds.toInt, nanos⟩
  else none

/-- A time as the store keeps it, in milliseconds. -/
def DateTime.stored (t : DateTime) : DateTime :=
  let millis := t.seconds * 1000 + t.nanos / 1000000
  ⟨millis / 1000, (millis % 1000).toNat * 1000000⟩

/-- A stored user session with cached tokens of the identity service. -/
structure Session where
  tokenHash : Bytes
  userId : Uuid
  accessToken : String
  idToken : String
  refreshToken : String
  expiresAt : DateTime
  createdAt : DateTime
  deriving DecidableEq

/-- The row of a session. -/
def Session.row (s : Session) : Session :=
  { s with expiresAt := s.expiresAt.stored, createdAt := s.createdAt.stored }

/-- Errors of the session store. -/
inductive SessionError where
  | execution
  | intoRowsResult
  | maybeFirstRow
  | jwtDecode (message : String)
  | tokenGeneration
  | invalidToken

/-- Errors of a route. -/
inductive AppError where
  | grpc (status : Status)
  | channel (e : Pool.ChannelError)
  | session (e : SessionError)
  | unauthorized
  -- an access token that is no header value
  | panicked

structure Timestamp where
  seconds : Int64
  nanos : Int32

structure LoginResponse where
  accessToken : String
  idToken : String
  refreshToken : String
  expiresAt : Option Timestamp

structure UserInfoResponse where
  sub : String
  name : String
  givenName : String
  familyName : String
  username : String
  email : String
  emailVerified : Bool

/-- A request to the identity service; the authenticated ones carry an authorization. -/
inductive Rpc where
  | signUp (username givenName familyName email : String) (password : Option String)
  | verifyEmail (token : String)
  | login (email password : String)
  | userInfo (authorization : String)
  | updateProfile (authorization : String) (givenName familyName username : Option String)
  | updatePassword (authorization currentPassword newPassword : String)
  | resendVerification (email : String)

abbrev Rpc.Reply : Rpc → Type
  | login _ _ => LoginResponse
  | userInfo _ => UserInfoResponse
  | _ => Unit

/-! ## Operations -/

inductive Op where
  -- a client of the identity service
  | client
  | rpc (request : Rpc)
  | fill
  | utcNow
  | insert (session : Session)
  | select (tokenHash : Bytes)
  | delete (tokenHash : Bytes)

abbrev Resp : Op → Type
  | .client => Except Pool.ChannelError Unit
  | .rpc request => Except Status request.Reply
  | .fill => Except Unit Bytes
  | .utcNow => DateTime
  | .insert _ | .delete _ => Except SessionError Unit
  | .select _ => Except SessionError (Option Session)

/-- The operation is one of the session store. -/
def Op.stores : Op → Bool
  | insert _ | select _ | delete _ => true
  | _ => false

/-- The session table, a map by token hash, with the hashes whose rows expired; and the random
tokens drawn so far. -/
structure World where
  sessions : Bytes → Option Session
  expired : List Bytes
  drawn : List Bytes

/-- What an operation leaves open. -/
structure Choice where
  fault : Bool := false
  applied : Bool := false
  error : SessionError := .execution
  channel : Pool.ChannelError := .transport ""
  reply : (request : Rpc) → Except Status request.Reply
  bytes : Bytes := []
  now : DateTime := ⟨0, 0⟩

/-- Execute one operation; `none` where the choice does not fit. A statement of the store that fails was
applied, or never is. -/
def perform (ch : Choice) (g : World) : (o : Op) → Option (Resp o × World)
  | .client => some (if ch.fault then .error ch.channel else .ok (), g)
  | .rpc request => some (ch.reply request, g)
  | .fill =>
    if ch.fault then some (.error (), g)
    else if ch.bytes.length = 32 ∧ ch.bytes ∉ g.drawn then
      some (.ok ch.bytes, { g with drawn := ch.bytes :: g.drawn })
    else none
  | .utcNow => some (ch.now, g)
  | .insert s =>
    let inserted := { g with sessions := Function.update g.sessions s.tokenHash (some s.row) }
    if ch.fault then some (.error ch.error, if ch.applied then inserted else g) else some (.ok (), inserted)
  | .select tokenHash => some (if ch.fault then .error ch.error else .ok (g.sessions tokenHash), g)
  | .delete tokenHash =>
    let deleted := { g with sessions := Function.update g.sessions tokenHash none }
    if ch.fault then some (.error ch.error, if ch.applied then deleted else g) else some (.ok (), deleted)

/-! ## The session store -/

variable [Platform]

/-- A random token for the client, and its hash for the store. -/
def generateSessionToken : Handler Op Resp SessionError (String × Bytes) := do
  let raw ← attempt .fill (Except.mapError fun _ => .tokenGeneration)
  return (Base64Url.encodeString raw, sha256 raw)

/-- The hash that a client's token is stored under. -/
def hashSessionToken (token : String) : Except SessionError Bytes :=
  match Base64Url.decodeVec token with
  | none => .error .invalidToken
  | some raw => .ok (sha256 raw)

/-- Create a new session; the cleartext token is for the cookie. -/
def createSession (userId : Uuid) (accessToken idToken refreshToken : String) (expiresAt : DateTime) :
    Handler Op Resp SessionError String := do
  let (cleartext, tokenHash) ← generateSessionToken
  let createdAt ← attempt .utcNow Except.ok
  attempt (.insert { tokenHash, userId, accessToken, idToken, refreshToken, expiresAt, createdAt }) id
  return cleartext

omit [Platform] in
/-- Look up a session by token hash. -/
def getSession (tokenHash : Bytes) : Handler Op Resp SessionError (Option Session) :=
  attempt (.select tokenHash) id

omit [Platform] in
/-- Delete a session. -/
def deleteSession (tokenHash : Bytes) : Handler Op Resp SessionError Unit :=
  attempt (.delete tokenHash) id

/-- A member of a JSON object; of members of one name the last counts. -/
def member (j : Json) (name : String) : Json :=
  match j with
  | .obj members => (members.reverse.lookup name).getD .null
  | _ => .null

/-- The `sub` claim of a token, without verification. -/
def decodeSubFromJwt (token : String) : Except SessionError Uuid :=
  match (segments token)[1]? with
  | none => .error (.jwtDecode "missing payload segment")
  | some payload =>
    match Base64Url.decodeVec payload with
    | none => .error (.jwtDecode "base64 decode: invalid Base64 encoding")
    | some bytes =>
      match jsonParse bytes with
      | none => .error (.jwtDecode ("json parse: " ++ jsonError bytes))
      | some value =>
        match (member value "sub").asString with
        | none => .error (.jwtDecode "missing sub claim")
        | some sub =>
          match parseUuid sub with
          | none => .error (.jwtDecode ("sub is not a UUID: " ++ uuidError sub))
          | some id => .ok id

end Gateway
