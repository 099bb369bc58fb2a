import HomeServices.Identity.Connections
import HomeServices.Identity.Execution
import HomeServices.Outbox.Publisher
import Mathlib.Algebra.BigOperators.Group.Finset.Piecewise

/-!
# The writer pool

Without a read replica the calls of the service and its publisher share one pool. The publisher keeps a
connection for the advisory lock as long as it runs, and asks for others besides.

* `runOnPool`, `roundOnPool`: the publisher with its connections; `erase_run`, `erase_round`: without
  the returns it is the publisher.
* `within_run`, `within_round`: it asks while it holds the connection of the lock, and no other.
* `poolOf`: any number of calls beside the publisher, over a pool of `n` connections.
* **`pool_live_iff`**: with two connections, and no fewer, a waiting task is always about to be served;
  `Sample.deadlocked`: with one connection the publisher waits for itself.
-/

namespace Outbox

open Interaction
open Identity (Uuid OutboxRow OutboxError Platform Deployment Call Answer Status)

/-! ## The publisher with its connections -/

abbrev PoolProg (α : Type) := Prog (Pooled Op) (PooledResp Resp) α

/-- Run `x` with a client, which is dropped at its end. -/
def withClient {α : Type} (x : Handler Op Resp OutboxError α) : PoolProg (Except OutboxError α) :=
  (holding .getConnection (Except.mapError fun _ => .pool) x).run

def markPublishedOnPool (id : Uuid) : PoolProg (Except OutboxError Unit) :=
  withClient (attempt (.markPublished id) fun
    | .error e => .error (.db e)
    | .ok _ => .ok ())

def fetchUnpublishedOnPool (batchSize : ℤ) : PoolProg (Except OutboxError (List OutboxRow)) :=
  withClient (attempt (.fetchUnpublished batchSize) (Except.mapError .db))

variable [Platform]

def publishOnPool (s : Loop) : List OutboxRow → PoolProg Loop
  | [] => .ret s
  | event :: events =>
    match routeTopic event.eventType with
    | .error _ => publishOnPool s events
    | .ok topic =>
      .call (.op .currentSpan) fun span =>
      (partitionClient s topic).lift.bind fun
        | .error _ => .ret s
        | .ok (client, s) =>
          .call (.op .utcNow) fun now =>
          .call (.op (.produce client event.id (recordOf event (buildHeaders span event) now))) fun
            | .error _ => .ret s
            | .ok () => (markPublishedOnPool event.id).bind fun _ => publishOnPool s events

/-- When it is cancelled, the publisher drops the connection of the lock. -/
def roundOnPool (s : Loop) : PoolProg Outcome :=
  .call (.op .select) fun
    | .cancelled => .call .put fun _ => .ret .shutDown
    | .tick => .call (.op .tryAcquireLeaderLock) fun
      | .error _ | .ok false => .ret (.next { s with isLeader := false })
      | .ok true => (fetchUnpublishedOnPool s.batchSize).bind fun
        | .error _ => .ret (.next { s with isLeader := true })
        | .ok events => (publishOnPool { s with isLeader := true } events).bind fun s => .ret (.next s)

def runOnPool (batchSize : ℤ) : PoolProg Outcome :=
  .call (.op .buildClient) fun
    | .error e => .ret (.failed (.kafka e))
    | .ok () => .call (.get .getLeader) fun
      | .error _ => .ret (.failed .pool)
      | .ok () => roundOnPool { batchSize, isLeader := false, partitionClients := [] }

/-! ## Without the returns -/

omit [Platform] in
theorem erase_withClient {α : Type} (x : Handler Op Resp OutboxError α) :
    (withClient x).erase = .call .getConnection fun
      | .error _ => .ret (.error .pool)
      | .ok () => x.run := by
  have herased : (erased (holding .getConnection (Except.mapError fun _ => .pool) x)).run = _ :=
    congrArg ExceptT.run (erased_holding ..)
  rw [run_bind] at herased
  refine herased.trans (congrArg (Prog.call Op.getConnection) (funext fun r => ?_))
  cases r <;> rfl

omit [Platform] in
theorem erase_markPublished (id : Uuid) : (markPublishedOnPool id).erase = markPublished id := by
  rw [markPublishedOnPool, erase_withClient, markPublished]
  refine congrArg (Prog.call Op.getConnection) (funext fun r => ?_)
  cases r with
  | error e => rfl
  | ok _ =>
    refine congrArg (Prog.call (Op.markPublished id)) (funext fun r => ?_)
    cases r <;> rfl

omit [Platform] in
theorem erase_fetchUnpublished (batchSize : ℤ) :
    (fetchUnpublishedOnPool batchSize).erase = fetchUnpublished batchSize := by
  rw [fetchUnpublishedOnPool, erase_withClient, fetchUnpublished]
  refine congrArg (Prog.call Op.getConnection) (funext fun r => ?_)
  cases r with
  | error e => rfl
  | ok _ =>
    refine congrArg (Prog.call (Op.fetchUnpublished batchSize)) (funext fun r => ?_)
    cases r <;> rfl

theorem erase_publish (s : Loop) (events : List OutboxRow) :
    (publishOnPool s events).erase = publish s events := by
  induction events generalizing s with
  | nil => rfl
  | cons event events ih =>
    unfold publishOnPool publish
    cases routeTopic event.eventType with
    | error e => exact ih s
    | ok topic =>
      refine congrArg (Prog.call Op.currentSpan) (funext fun span => ?_)
      rw [Prog.erase_bind, Prog.erase_lift]
      refine congrArg (Prog.bind _) (funext fun r => ?_)
      rcases r with e | ⟨client, s⟩
      · rfl
      · refine congrArg (Prog.call Op.utcNow) (funext fun now => ?_)
        refine congrArg (Prog.call (Op.produce ..)) (funext fun r => ?_)
        cases r with
        | error e => rfl
        | ok _ =>
          dsimp only
          rw [Prog.erase_bind, erase_markPublished]
          exact congrArg (Prog.bind _) (funext fun _ => ih s)

theorem erase_round (s : Loop) : (roundOnPool s).erase = round s := by
  refine congrArg (Prog.call Op.select) (funext fun wake => ?_)
  cases wake with
  | cancelled => rfl
  | tick =>
    refine congrArg (Prog.call Op.tryAcquireLeaderLock) (funext fun r => ?_)
    rcases r with e | _ | _
    · rfl
    · rfl
    · dsimp only
      rw [Prog.erase_bind, erase_fetchUnpublished]
      refine congrArg (Prog.bind _) (funext fun r => ?_)
      cases r with
      | error e => rfl
      | ok events =>
        dsimp only
        rw [Prog.erase_bind, erase_publish]
        rfl

theorem erase_run (batchSize : ℤ) : (runOnPool batchSize).erase = run batchSize := by
  refine congrArg (Prog.call Op.buildClient) (funext fun r => ?_)
  cases r with
  | error e => rfl
  | ok _ =>
    refine congrArg (Prog.call Op.getLeader) (funext fun r => ?_)
    cases r with
    | error e => rfl
    | ok _ => exact erase_round _

/-! ## What the publisher holds while it asks -/

/-- Whether an answer grants a connection. -/
def granted : (o : Op) → Resp o → Bool
  | .getLeader, r | .getConnection, r => r.isOk
  | _, _ => false

/-- The publisher holds the connection of the lock as long as it goes on. -/
def Kept (h : ℕ) : Outcome → Prop
  | .next _ => h = 1
  | .shutDown | .failed _ => h = 0

omit [Platform] in
theorem within_withClient {α : Type} (x : Handler Op Resp OutboxError α) :
    Within granted 1 (fun h _ => h = 1) 1 (withClient x) := by
  refine within_holding (fun r => ?_) (Nat.le_refl 1) fun _ => rfl
  cases r <;> rfl

theorem within_publish (s : Loop) (events : List OutboxRow) :
    Within granted 1 (fun h _ => h = 1) 1 (publishOnPool s events) := by
  induction events generalizing s with
  | nil => rfl
  | cons event events ih =>
    unfold publishOnPool
    cases routeTopic event.eventType with
    | error e => exact ih s
    | ok topic =>
      intro span
      refine (within_lift (Q := fun h _ => h = 1) fun _ => rfl).bind ?_
      rintro _ r rfl
      rcases r with e | ⟨client, s⟩
      · rfl
      · intro now r
        cases r with
        | error e => rfl
        | ok _ =>
          refine (within_withClient _).bind ?_
          rintro _ _ rfl
          exact ih s

/-- Between rounds the publisher keeps the connection of the lock, and asks for one more within. -/
theorem within_round (s : Loop) : Within granted 1 Kept 1 (roundOnPool s) := by
  intro wake
  cases wake with
  | cancelled => exact ⟨Nat.one_pos, rfl⟩
  | tick =>
    intro r
    rcases r with e | _ | _
    · rfl
    · rfl
    · refine (within_withClient _).bind ?_
      rintro _ r rfl
      cases r with
      | error e => rfl
      | ok events =>
        refine (within_publish _ events).bind ?_
        rintro _ _ rfl
        rfl

theorem within_run (batchSize : ℤ) : Within granted 1 Kept 0 (runOnPool batchSize) := by
  intro r
  cases r with
  | error e => rfl
  | ok _ =>
    refine ⟨Nat.zero_le 1, fun r => ?_⟩
    cases r with
    | error e => rfl
    | ok _ => exact within_round _

/-! ## One pool for all -/

/-- What a task ends with. -/
abbrev Result := Except Status Answer ⊕ Outcome

abbrev Task := Prog (Pooled (Identity.Op ⊕ Op)) (PooledResp (SumResp Identity.Resp Resp)) Result

/-- The first task is the publisher; any number of calls run beside it. -/
def taskStarts (dep : Deployment) (i : ℕ) (p : Task) : Prop :=
  (i = 0 ∧ ∃ batchSize, p = (runOnPool batchSize).inr .inr) ∨
    (i ≠ 0 ∧ ∃ call : Call, p = (call.onPool dep).run.inl .inl)

/-- The publisher goes on with its next round. -/
def nextRound : Result → Option Task
  | .inr (.next s) => some ((roundOnPool s).inr .inr)
  | _ => none

abbrev PoolState :=
  Config (Pooled (Identity.Op ⊕ Op)) (PooledResp (SumResp Identity.Resp Resp)) ℕ (List ℕ) Result

/-- A pool of `n` connections. Only the connections are modelled of the world: every other operation
may answer anything. -/
def poolOf (dep : Deployment) (n : ℕ) :
    Machine (Pooled (Identity.Op ⊕ Op)) (PooledResp (SumResp Identity.Resp Resp)) ℕ (List ℕ) Result :=
  poolMachine (grantedSum Identity.granted granted) n (taskStarts dep) nextRound

omit [Platform] in
/-- No task holds a connection. -/
def untouched : PoolState := .initial []

omit [Platform] in
/-- What a task may hold while it asks. -/
def reserve (i : ℕ) : ℕ := if i = 0 then 1 else 0

omit [Platform] in
/-- What a task holds at its end. -/
def Left (i h : ℕ) : Result → Prop
  | .inl _ => h = 0
  | .inr a => i = 0 ∧ Kept h a

theorem within_start {dep : Deployment} {i : ℕ} {p : Task} (h : taskStarts dep i p) :
    Within (grantedSum Identity.granted granted) (reserve i) (Left i) 0 p := by
  rcases h with ⟨rfl, batchSize, rfl⟩ | ⟨hi, call, rfl⟩
  · exact (within_run batchSize).inr fun _ _ hkept => ⟨rfl, hkept⟩
  · rw [reserve, if_neg hi]
    exact (Identity.frugal_call dep call).inl fun _ _ h => h

theorem within_again {i h : ℕ} {a : Result} {p : Task} (ha : Left i h a) (hagain : nextRound a = some p) :
    Within (grantedSum Identity.granted granted) (reserve i) (Left i) h p := by
  rcases a with a | s | _ | e
  · cases hagain
  · cases hagain
    obtain ⟨rfl, rfl⟩ := ha
    exact (within_round s).inr fun _ _ hkept => ⟨rfl, hkept⟩
  · cases hagain
  · cases hagain

omit [Platform] in
theorem left_le {i h : ℕ} {a : Result} (ha : Left i h a) : h ≤ reserve i := by
  rcases a with a | s | _ | e
  · exact le_of_eq_of_le ha (Nat.zero_le _)
  · obtain ⟨rfl, rfl⟩ := ha
    exact Nat.le_refl 1
  · exact le_of_eq_of_le ha.2 (Nat.zero_le _)
  · exact le_of_eq_of_le ha.2 (Nat.zero_le _)

omit [Platform] in
theorem sum_reserve_le (s : Finset ℕ) : ∑ i ∈ s, reserve i ≤ 1 := by
  have hsum : ∑ i ∈ s, reserve i = if 0 ∈ s then 1 else 0 := Finset.sum_ite_eq' s 0 fun _ => 1
  rw [hsum]
  split_ifs <;> omega

/-- With two connections a waiting task is always about to be served. -/
theorem pool_live {dep : Deployment} {n : ℕ} (hn : 2 ≤ n) {c : PoolState}
    (hc : Reachable (poolOf dep n) untouched c) : Live n c :=
  live_of_within (fun _ _ h => within_start h) (fun _ _ _ _ ha hagain => within_again ha hagain)
    (fun _ _ _ ha => left_le ha) (fun s => (sum_reserve_le s).trans_lt hn) hc

/-- With one connection the publisher waits for itself. -/
theorem publisher_waits (dep : Deployment) :
    ∃ c, Reachable (poolOf dep 1) untouched c ∧ Waiting 1 c 0 ∧ c.glob = [0] := by
  have hspawn : Reachable (poolOf dep 1) untouched
      ⟨[], Function.update (fun _ => none) 0 (some ⟨0, (runOnPool 1).inr .inr, []⟩)⟩ :=
    .single (.spawn rfl ⟨rfl, Or.inl ⟨rfl, 1, rfl⟩⟩)
  have hbuild := hspawn.tail (.call (i := 0) (r := .ok ()) rfl ⟨rfl, rfl⟩)
  have hleader := hbuild.tail (.call (i := 0) (r := .ok ()) rfl ⟨rfl, Nat.one_pos, rfl⟩)
  have htick := hleader.tail (.call (i := 0) (r := Wake.tick) rfl ⟨rfl, rfl⟩)
  have hlock := htick.tail (.call (i := 0) (r := .ok true) rfl ⟨rfl, rfl⟩)
  exact ⟨_, hlock, ⟨Nat.le_refl 1, _, _, _, _, rfl⟩, rfl⟩

/-- Without connections every call waits. -/
theorem call_waits (dep : Deployment) : ∃ c, Reachable (poolOf dep 0) untouched c ∧ Waiting 0 c 1 ∧ c.glob = [] := by
  have hspawn : Reachable (poolOf dep 0) untouched
      ⟨[], Function.update (fun _ => none) 1 (some ⟨1, (Call.getJwks.onPool dep).run.inl .inl, []⟩)⟩ :=
    .single (.spawn rfl ⟨rfl, Or.inr ⟨Nat.one_ne_zero, .getJwks, rfl⟩⟩)
  exact ⟨_, hspawn, ⟨Nat.le_refl 0, _, _, _, _, rfl⟩, rfl⟩

/-- If every connection is held by a task that waits, a waiting task is not about to be served. -/
theorem not_live {n i : ℕ} {c : PoolState} (hi : Waiting n c i) (hglob : ∀ j ∈ c.glob, Waiting n c j) :
    ¬ Live n c := by
  intro hlive
  obtain ⟨j, hj, hfree, -⟩ := hlive ⟨i, hi⟩
  exact hfree (hglob j hj)

/-- **The pool is live in every run exactly if it has two connections.** -/
theorem pool_live_iff (dep : Deployment) (n : ℕ) :
    (∀ c, Reachable (poolOf dep n) untouched c → Live n c) ↔ 2 ≤ n := by
  refine ⟨fun hlive => ?_, fun hn c hc => pool_live hn hc⟩
  by_contra hn
  obtain rfl | rfl : n = 0 ∨ n = 1 := by omega
  · obtain ⟨c, hc, hwaits, hglob⟩ := call_waits dep
    refine not_live hwaits (fun j hj => ?_) (hlive c hc)
    rw [hglob] at hj
    cases hj
  · obtain ⟨c, hc, hwaits, hglob⟩ := publisher_waits dep
    refine not_live hwaits (fun j hj => ?_) (hlive c hc)
    rw [hglob] at hj
    obtain rfl := List.mem_singleton.mp hj
    exact hwaits

end Outbox

namespace Outbox.Sample

open Interaction
open Identity.Sample

/-- **With one connection the publisher holds it and waits for another, and with it every task.** -/
theorem deadlocked : ∃ c, Reachable (poolOf Identity.Sample.deployment 1) untouched c ∧
    (∃ i, Waiting 1 c i) ∧ (∀ j ∈ c.glob, Waiting 1 c j) ∧ ¬ Live 1 c := by
  obtain ⟨c, hc, hwaits, hglob⟩ := publisher_waits Identity.Sample.deployment
  have hall : ∀ j ∈ c.glob, Waiting 1 c j := by
    intro j hj
    rw [hglob] at hj
    obtain rfl := List.mem_singleton.mp hj
    exact hwaits
  exact ⟨c, hc, ⟨0, hwaits⟩, hall, not_live hwaits hall⟩

end Outbox.Sample
