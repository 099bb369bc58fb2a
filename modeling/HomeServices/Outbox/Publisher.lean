import HomeServices.Concurrent.Program
import HomeServices.Identity.Services.Accounts
import Mathlib.Data.List.Sort

/-!
# The outbox publisher

Each replica polls the outbox for unpublished events and produces them to Kafka, if its dedicated
connection holds the advisory lock. Transactions insert events and lock connections are lost
beside it.

* `routeTopic`, `Record`, `Appended`: what is produced where.
* `World`: the table, the records of the topics, the lock and the connections it is taken on.
* `Op`, `Choice`, `perform`: the operations of a replica and what they leave open.
* `publish`, `round`, `run`: the loop, step by step as the source runs it.
* `Env`, `machine`: transactions, clocks and lost connections; any number of replicas.
-/

namespace Outbox

open Interaction
open Identity (Bytes Uuid PgError OutboxError OutboxRow StoredEvent Platform asBytes uuidText)

/-- Map `event_type` to Kafka topic. -/
def routeTopic (eventType : String) : Except OutboxError String :=
  if eventType = "auth_email" then .ok "email.auth" else .error (.unknownEventType eventType)

structure Record where
  key : Option Bytes
  value : Option Bytes
  headers : List (String × Bytes)
  timestamp : ℕ
  deriving DecidableEq

/-- A client of one topic's partition 0. -/
structure PartitionClient where
  topic : String
  deriving DecidableEq

/-- The publisher's own span, where it has a valid one. -/
structure SpanContext where
  traceId : String
  spanId : String
  traceFlags : String

/-- A record of a topic, with the event it was made of. -/
structure Appended where
  eventId : Uuid
  topic : String
  record : Record
  deriving DecidableEq

inductive Wake where
  | cancelled
  | tick

inductive Op where
  | buildClient
  -- the dedicated connection for the advisory lock
  | getLeader
  | select
  | tryAcquireLeaderLock
  | getConnection
  | fetchUnpublished (batchSize : ℤ)
  | currentSpan
  | partitionClient (topic : String)
  | utcNow
  | produce (client : PartitionClient) (eventId : Uuid) (record : Record)
  | markPublished (id : Uuid)

abbrev Resp : Op → Type
  | .buildClient => Except String Unit
  | .getLeader | .getConnection => Except Unit Unit
  | .select => Wake
  | .tryAcquireLeaderLock => Except PgError Bool
  | .fetchUnpublished _ => Except PgError (List OutboxRow)
  | .currentSpan => Option SpanContext
  | .partitionClient _ => Except String PartitionClient
  | .utcNow => ℕ
  | .produce .. => Except String Unit
  | .markPublished _ => Except PgError ℕ

/-- The outbox table, the topics, and the advisory lock. -/
structure World where
  rows : List StoredEvent
  clock : ℕ
  -- the records of all topics, oldest first, and those the brokers acknowledged
  log : List Appended
  acked : List Appended
  -- whether the lock connection of a replica is open, and which one holds the lock
  connected : ℕ → Bool
  leader : Option ℕ

def World.ofRows (rows : List StoredEvent) (clock : ℕ) : World :=
  { rows, clock, log := [], acked := [], connected := fun _ => false, leader := none }

/-! ## The operations -/

def unpublished (rows : List StoredEvent) : List StoredEvent := rows.filter (·.publishedAt.isNone)

/-- `ORDER BY created_at ASC`; rows of one time come in any order. -/
def Before (tie : Uuid → ℕ) (e e' : StoredEvent) : Prop :=
  e.createdAt < e'.createdAt ∨ e.createdAt = e'.createdAt ∧ tie e.id ≤ tie e'.id

instance (tie : Uuid → ℕ) : DecidableRel (Before tie) := fun e e' =>
  inferInstanceAs (Decidable (e.createdAt < e'.createdAt ∨ e.createdAt = e'.createdAt ∧ tie e.id ≤ tie e'.id))

def oldestFirst (tie : Uuid → ℕ) (rows : List StoredEvent) : List StoredEvent :=
  rows.insertionSort (Before tie)

def selected (tie : Uuid → ℕ) (batchSize : ℤ) (rows : List StoredEvent) : List OutboxRow :=
  ((oldestFirst tie (unpublished rows)).take batchSize.toNat).map StoredEvent.toOutboxRow

/-- `UPDATE outbox SET published_at = NOW() WHERE id = $1`. -/
def marked (id : Uuid) (now : ℕ) (rows : List StoredEvent) : List StoredEvent :=
  rows.map fun e => if e.id = id then { e with publishedAt := some now } else e

/-- What one operation leaves open: whether it fails, whether what failed was applied, what wakes
the loop, and the order of rows of one time. -/
structure Choice where
  fault : Bool := false
  applied : Bool := false
  reason : String := ""
  wake : Wake := .tick
  tie : Uuid → ℕ := fun _ => 0
  span : Option SpanContext := none
  now : ℕ := 0

/-- Execute one operation of the replica `i`. -/
def perform (ch : Choice) (i : ℕ) (g : World) : (o : Op) → Resp o × World
  | .buildClient => (if ch.fault then .error ch.reason else .ok (), g)
  | .getLeader =>
    if ch.fault then (.error (), g)
    else (.ok (), { g with connected := Function.update g.connected i true })
  | .select => (ch.wake, g)
  | .tryAcquireLeaderLock =>
    -- a closed connection fails every later query
    if !g.connected i || ch.fault && !ch.applied then (.error .fault, g)
    else if g.leader = none ∨ g.leader = some i then
      (if ch.fault then .error .fault else .ok true, { g with leader := some i })
    else (if ch.fault then .error .fault else .ok false, g)
  | .getConnection => (if ch.fault then .error () else .ok (), g)
  | .fetchUnpublished batchSize =>
    -- a negative LIMIT is refused
    (if ch.fault || batchSize < 0 then .error .fault
      else .ok (selected ch.tie batchSize g.rows), g)
  | .currentSpan => (ch.span, g)
  | .partitionClient topic => (if ch.fault then .error ch.reason else .ok ⟨topic⟩, g)
  | .utcNow => (ch.now, g)
  | .produce client eventId record =>
    let appended : Appended := ⟨eventId, client.topic, record⟩
    if ch.fault then
      (.error ch.reason, if ch.applied then { g with log := g.log ++ [appended] } else g)
    else (.ok (), { g with log := g.log ++ [appended], acked := g.acked ++ [appended] })
  | .markPublished id =>
    if ch.fault && !ch.applied then (.error .fault, g)
    else (if ch.fault then .error .fault else .ok (g.rows.countP (·.id = id)),
      { g with rows := marked id g.clock g.rows })

/-- Some choice executes the operation this way. -/
def Performs (o : Op) (i : ℕ) (g : World) (r : Resp o) (i' : ℕ) (g' : World) : Prop :=
  i' = i ∧ ∃ ch, perform ch i g o = (r, g')

/-! ## The loop -/

/-- What the loop keeps from round to round. -/
structure Loop where
  batchSize : ℤ
  isLeader : Bool
  partitionClients : List (String × PartitionClient)

inductive Outcome where
  | next (s : Loop)
  | shutDown
  | failed (e : OutboxError)

/-- The W3C traceparent of the trace the event originates from. -/
def buildTraceparent (event : OutboxRow) : Option String :=
  match event.traceId, event.spanId with
  | some tid, some sid =>
    if tid ≠ "" ∧ sid ≠ "" then some ("00-" ++ tid ++ "-" ++ sid ++ "-01") else none
  | _, _ => none

/-- The publisher's own span, or the trace the event originates from. -/
def buildHeaders (span : Option SpanContext) (event : OutboxRow) : List (String × Bytes) :=
  match span with
  | some sc => [("traceparent", asBytes ("00-" ++ sc.traceId ++ "-" ++ sc.spanId ++ "-" ++ sc.traceFlags))]
  | none => ((buildTraceparent event).map fun tp => ("traceparent", asBytes tp)).toList

/-- Get or create the partition client of a topic. -/
def partitionClient (s : Loop) (topic : String) : Prog Op Resp (Except String (PartitionClient × Loop)) :=
  match s.partitionClients.lookup topic with
  | some pc => .ret (.ok (pc, s))
  | none => .call (.partitionClient topic) fun
    | .error e => .ret (.error e)
    | .ok pc => .ret (.ok (pc, { s with partitionClients := (topic, pc) :: s.partitionClients }))

def markPublished (id : Uuid) : Prog Op Resp (Except OutboxError Unit) :=
  .call .getConnection fun
    | .error _ => .ret (.error .pool)
    | .ok () => .call (.markPublished id) fun
      | .error e => .ret (.error (.db e))
      | .ok _ => .ret (.ok ())

def fetchUnpublished (batchSize : ℤ) : Prog Op Resp (Except OutboxError (List OutboxRow)) :=
  .call .getConnection fun
    | .error _ => .ret (.error .pool)
    | .ok () => .call (.fetchUnpublished batchSize) fun
      | .error e => .ret (.error (.db e))
      | .ok events => .ret (.ok events)

variable [Platform]

def recordOf (event : OutboxRow) (headers : List (String × Bytes)) (now : ℕ) : Record :=
  { key := some (asBytes (uuidText event.aggregateId))
    value := some event.payload
    headers
    timestamp := now }

/-- Publish the events of a batch; the first that cannot be produced ends it. -/
def publish (s : Loop) : List OutboxRow → Prog Op Resp Loop
  | [] => .ret s
  | event :: events =>
    match routeTopic event.eventType with
    -- an unknown event type is skipped
    | .error _ => publish s events
    | .ok topic =>
      .call .currentSpan fun span =>
      (partitionClient s topic).bind fun
        | .error _ => .ret s
        | .ok (client, s) =>
          .call .utcNow fun now =>
          .call (.produce client event.id (recordOf event (buildHeaders span event) now)) fun
            | .error _ => .ret s
            | .ok () => (markPublished event.id).bind fun _ => publish s events

/-- One turn of the loop. -/
def round (s : Loop) : Prog Op Resp Outcome :=
  .call .select fun
    | .cancelled => .ret .shutDown
    | .tick => .call .tryAcquireLeaderLock fun
      | .error _ | .ok false => .ret (.next { s with isLeader := false })
      | .ok true => (fetchUnpublished s.batchSize).bind fun
        | .error _ => .ret (.next { s with isLeader := true })
        | .ok events => (publish { s with isLeader := true } events).bind fun s => .ret (.next s)

/-- Connect to Kafka, take the connection for the lock, and loop. -/
def run (batchSize : ℤ) : Prog Op Resp Outcome :=
  .call .buildClient fun
    | .error e => .ret (.failed (.kafka e))
    | .ok () => .call .getLeader fun
      | .error _ => .ret (.failed .pool)
      | .ok () => round { batchSize, isLeader := false, partitionClients := [] }

/-! ## The replicas -/

abbrev Event := Entry Op Resp ℕ World

abbrev Hist := List Event

abbrev State := Config Op Resp ℕ World Outcome

/-- What happens beside the replicas: transactions commit new events in `inserts`, the clock
advances, and lock connections are lost, with the lock. -/
inductive Env (inserts : StoredEvent → Prop) (g : World) : World → Prop
  | insert {new : List StoredEvent} : (∀ e ∈ new, e.publishedAt = none ∧ e.createdAt ≤ g.clock) →
      (∀ e ∈ new, inserts e) → ((g.rows ++ new).map (·.id)).Nodup →
      Env inserts g { g with rows := g.rows ++ new }
  | tick {clock : ℕ} : g.clock ≤ clock → Env inserts g { g with clock }
  | lose (i : ℕ) : Env inserts g { g with
      connected := Function.update g.connected i false
      leader := if g.leader = some i then none else g.leader }

def machine (inserts : StoredEvent → Prop) : Machine Op Resp ℕ World Outcome where
  start i l p := l = i ∧ ∃ batchSize, p = run batchSize
  step _ o i g r i' g' := Performs o i g r i' g'
  again
    | .next s => some (round s)
    | _ => none
  env := Env inserts

def boot (rows : List StoredEvent) (clock : ℕ) : State := Config.initial (World.ofRows rows clock)

end Outbox
