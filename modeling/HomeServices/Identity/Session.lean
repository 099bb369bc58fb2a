import Mathlib.Algebra.Ring.Nat
import HomeServices.Concurrent.Program
import HomeServices.Identity.Sql

/-!
# Sessions

What a call does besides computing: it takes connections, opens and ends transactions, sends
statements, reads clocks and draws random values. Any of these may fail. Statements run at READ
COMMITTED: they see the committed rows and the transaction's own writes, and one that needs a key
another session has locked waits.

* `Op`, `Resp`: the operations and their answers.
* `World`, `Session`, `Request`: the shared state, a call's private state, what was asked.
* `Choice`, `perform`, `Performs`: what is left open, and one operation executed.
* `query`, `transaction`: statements and transactions of a handler.
-/

namespace Identity

open ReadCommitted Interaction

variable [Platform]

/-- An operation of a call. -/
inductive Op where
  | getConnection
  | begin
  | commit
  | rollback
  | sql (s : Sql)
  | utcNow
  | unixNow
  | fillRandom (n : ℕ)
  | generateSalt
  | newV7
  | newV4
  -- the join of a blocking task
  | join
  | traceContext
  | generatePkcs8 (algorithm : Algorithm)
  | sign (keyPair : EcdsaKeyPair) (message : Bytes)

/-- Nanoseconds since the epoch, within the range of chrono's `DateTime`. -/
abbrev Instant := Fin (2 ^ 73)

instance neZero_instant : NeZero (2 ^ 73) := ⟨by decide⟩

abbrev Resp : Op → Type
  | .getConnection | .join => Except Unit Unit
  | .begin | .commit => Except PgError Unit
  | .rollback => Unit
  | .sql s => Except PgError s.Out
  | .utcNow => Instant
  | .unixNow => Except Unit UInt64
  | .fillRandom n => Except Unit {bytes : Bytes // bytes.length = n}
  | .generateSalt => Bytes
  | .newV7 | .newV4 => Uuid
  | .traceContext => Option (String × String)
  | .generatePkcs8 _ | .sign _ _ => Except Unit Bytes

/-- What was asked of the service, of its database by an operator, or by its publisher. -/
inductive Request where
  | ensureSigningKey
  | signUp (username email givenName familyName : String) (password : Option String)
  | resendVerification (email : String)
  | verifyEmail (rawToken : String)
  | login (email password : String)
  | authenticate (authorization : Option Bytes)
  | updateProfile (userId : Uuid) (givenName familyName username : Option String)
  | updatePassword (userId : Uuid) (currentPassword newPassword : String)
  | setKeyStatus (kid status : String)
  | setUserStatus (userId : Uuid) (status : UserStatus)
  | softDelete (userId : Uuid)
  | markPublished (id : Uuid)

/-- A transaction: its start time, which is its `NOW()`, and its writes so far. -/
structure Tx where
  startedAt : ℕ
  writes : List (Write Row)

/-- A call's private state. -/
structure Session where
  pid : ℕ
  request : Request
  tx : Option Tx

/-- The database and its clock. -/
structure World where
  store : Store Row Ref
  clock : ℕ

abbrev World.db (g : World) : List Row := g.store.rows

/-- What one operation leaves open: whether it fails, whether a failed commit was applied, and the
values it draws. -/
structure Choice where
  fault : Bool := false
  applied : Bool := false
  pick : ℕ := 0
  instant : Instant := 0
  seconds : UInt64 := 0
  bytes : Bytes := []
  uuid : Uuid := 0
  trace : Option (String × String) := none

/-- Execute one operation; `none` when it waits for a lock. A statement locks its row and the unique keys
of what it writes in one step. -/
def perform (ch : Choice) (l : Session) (g : World) :
    (o : Op) → Option (Resp o × Session × World)
  | .getConnection | .join => some (if ch.fault then .error () else .ok (), l, g)
  | .begin =>
    match l.tx with
    | some _ => none
    | none =>
      if ch.fault then some (.error .fault, l, g)
      else some (.ok (), { l with tx := some ⟨g.clock, []⟩ }, g)
  | .commit =>
    match l.tx with
    | none => none
    | some tx =>
      let done : Session := { l with tx := none }
      if ch.fault && !ch.applied then
        some (.error .fault, done, { g with store := g.store.release l.pid })
      else
        some (if ch.fault then .error .fault else .ok (), done,
          { g with store := g.store.commit l.pid tx.writes })
  | .rollback => some ((), { l with tx := none }, { g with store := g.store.release l.pid })
  | .sql s =>
    match l.tx with
    | some tx =>
      if ch.fault then some (.error .fault, l, g)
      else
        let out := s.exec tx.startedAt ch.pick (applyAll tx.writes g.db)
        if g.store.Free l.pid out.touched then
          match out.result with
          | .error e => some (.error e, l, g)
          | .ok a =>
            some (.ok a, { l with tx := some { tx with writes := tx.writes ++ out.writes } },
              { g with store := g.store.acquire l.pid out.touched })
        else none
    | none =>
      -- outside a transaction a statement commits by itself
      if ch.fault && !ch.applied then some (.error .fault, l, g)
      else
        let out := s.exec g.clock ch.pick g.db
        if g.store.Free l.pid out.touched then
          match out.result with
          | .error e => some (.error e, l, g)
          | .ok a =>
            some (if ch.fault then .error .fault else .ok a, l,
              { g with store := (g.store.acquire l.pid out.touched).commit l.pid out.writes })
        else none
  | .utcNow => some (ch.instant, l, g)
  | .unixNow => some (if ch.fault then .error () else .ok ch.seconds, l, g)
  | .fillRandom n =>
    if ch.fault then some (.error (), l, g)
    else if h : ch.bytes.length = n then some (.ok ⟨ch.bytes, h⟩, l, g)
    else none
  | .generateSalt => some (ch.bytes, l, g)
  | .newV7 | .newV4 => some (ch.uuid, l, g)
  | .traceContext => some (ch.trace, l, g)
  | .generatePkcs8 _ => some (if ch.fault then .error () else .ok ch.bytes, l, g)
  | .sign kp message =>
    some (if ch.fault then .error ()
      else .ok (ecdsaSign kp.algorithm kp.pkcs8 message ch.bytes), l, g)

/-- Some choice executes the operation this way. -/
def Performs (o : Op) (l : Session) (g : World) (r : Resp o) (l' : Session) (g' : World) : Prop :=
  ∃ ch, perform ch l g o = some (r, l', g')

/-! ## Statements and transactions of a handler -/

variable {ε α : Type}

/-- Send a statement. -/
def query (err : PgError → ε) (s : Sql) : Handler Op Resp ε s.Out :=
  attempt (.sql s) (Except.mapError err)

/-- Run `body` in a transaction: commit its value, or roll back when the transaction is dropped. The
rollback, which the client sends then, and the release of what a lost connection had locked are taken as
immediate. -/
def transaction (err : PgError → ε) (body : Handler Op Resp ε α) : Handler Op Resp ε α :=
  ExceptT.mk <| .call .begin fun
    | .error e => .ret (.error (err e))
    | .ok () => body.run.bind fun
      | .error e => .call .rollback fun () => .ret (.error e)
      | .ok a => .call .commit fun
        | .error e => .ret (.error (err e))
        | .ok () => .ret (.ok a)

end Identity
