import HomeServices.Outbox.Publisher

/-!
# What a replica does in a batch

The contract of the loop, over the history of a replica: it produces the events of its last fetch
one after the other, each to the topic of its type, and marks only what the brokers acknowledged.

* `leading`, `fetched`, `sent`, `confirmed`: the current round of a history; `smooth`: a history in
  which no produce and no mark failed.
* `Carries`: a record made of an event.
* `Batch`: how far a replica is in its batch; `Meets`: what an operation requires.
* **`keeping_round`**, `keeping_run`: the loop meets it.
-/

namespace Outbox

open Interaction
open Identity (Bytes Uuid PgError OutboxError OutboxRow StoredEvent Platform asBytes uuidText)

/-! ## The current round -/

/-- The last check of the lock in this round succeeded. -/
def leading : Hist → Bool
  | [] => false
  | ⟨.select, _, _, _, _, _⟩ :: _ => false
  | ⟨.tryAcquireLeaderLock, .ok b, _, _, _, _⟩ :: _ => b
  | ⟨.tryAcquireLeaderLock, .error _, _, _, _, _⟩ :: _ => false
  | _ :: h => leading h

/-- The events fetched in this round. -/
def fetched : Hist → List OutboxRow
  | [] => []
  | ⟨.select, _, _, _, _, _⟩ :: _ => []
  | ⟨.fetchUnpublished _, .ok events, _, _, _, _⟩ :: _ => events
  | ⟨.fetchUnpublished _, .error _, _, _, _, _⟩ :: _ => []
  | _ :: h => fetched h

/-- The records acknowledged in this round, newest first. -/
def sent : Hist → List Appended
  | [] => []
  | ⟨.select, _, _, _, _, _⟩ :: _ => []
  | ⟨.produce client eventId record, .ok (), _, _, _, _⟩ :: h => ⟨eventId, client.topic, record⟩ :: sent h
  | _ :: h => sent h

/-- The events marked in this round, newest first. -/
def confirmed : Hist → List Uuid
  | [] => []
  | ⟨.select, _, _, _, _, _⟩ :: _ => []
  | ⟨.markPublished id, .ok _, _, _, _, _⟩ :: h => id :: confirmed h
  | _ :: h => confirmed h

def afterProduce : Hist → Bool
  | ⟨.produce _ _ _, _, _, _, _, _⟩ :: _ => true
  | _ => false

/-- No produce failed, and no mark, which takes its connection right after a produce. -/
def smooth : Hist → Bool
  | [] => true
  | ⟨.produce _ _ _, .error _, _, _, _, _⟩ :: _ => false
  | ⟨.markPublished _, .error _, _, _, _, _⟩ :: _ => false
  | ⟨.getConnection, .error _, _, _, _, _⟩ :: h => !afterProduce h && smooth h
  | _ :: h => smooth h

/-- Everything acknowledged in this round is marked. -/
def Settled (h : Hist) : Prop := smooth h = true → confirmed h = (sent h).map (·.eventId)

def routable (e : OutboxRow) : Bool := (routeTopic e.eventType).isOk

/-- Every client of the cache is the client of its topic. -/
def Loop.Sorted (s : Loop) : Prop := ∀ topic pc, s.partitionClients.lookup topic = some pc → pc.topic = topic

variable [Platform]

/-- The record is made of the event, for the topic of its type. -/
structure Carries (a : Appended) (e : OutboxRow) : Prop where
  id : a.eventId = e.id
  topic : routeTopic e.eventType = .ok a.topic
  key : a.record.key = some (asBytes (uuidText e.aggregateId))
  value : a.record.value = some e.payload

/-- The replica fetched `produced ++ rest`; it has produced the routable ones of `produced`, and
marked those of `marked`. -/
structure Batch (h : Hist) (produced marked rest : List OutboxRow) : Prop where
  leads : leading h = true
  events : fetched h = produced ++ rest
  records : List.Forall₂ Carries (sent h) (produced.filter routable).reverse
  marks : smooth h = true → confirmed h = ((marked.filter routable).map (·.id)).reverse

/-- What an operation requires of the history before it. -/
def Meets (h : Hist) : Op → Prop
  | .buildClient | .getLeader => Settled h ∧ leading h = false
  | .select => Settled h
  | .tryAcquireLeaderLock => Settled h ∧ fetched h = []
  | .produce client eventId record => ∃ before e rest, Batch h before before (e :: rest) ∧
      Carries ⟨eventId, client.topic, record⟩ e
  | .markPublished id => ∃ before e rest, Batch h (before ++ [e]) before rest ∧
      routable e = true ∧ e.id = id
  | _ => leading h = true

/-- The program of a replica meets the contract and ends in `Q`. -/
abbrev Keeping {α : Type} (Q : Hist → α → Prop) (h : Hist) (i : ℕ) (p : Prog Op Resp α) : Prop :=
  Safe (fun _ o i g r i' g' => Performs o i g r i' g') (fun _ _ => True) (fun h _ _ o => Meets h o)
    (fun h _ a => Q h a) h i p

variable {h : Hist} {i : ℕ} {s : Loop}

theorem keeping_call {α : Type} {Q : Hist → α → Prop} {o : Op} {k : Resp o → Prog Op Resp α}
    (ho : Meets h o) (hk : ∀ r g g', Performs o i g r i g' →
      Keeping Q (⟨o, r, i, g, i, g'⟩ :: h) i (k r)) : Keeping Q h i (.call o k) := by
  refine safe_call.mpr fun g _ => ⟨ho, fun r i' g' hp => ?_⟩
  obtain ⟨rfl, ch, hperform⟩ := hp
  exact hk r g g' ⟨rfl, ch, hperform⟩

theorem keeping_bind {α β : Type} {Q : Hist → β → Prop} {p : Prog Op Resp α} {f : α → Prog Op Resp β}
    (hp : Keeping (fun h a => ∀ i, Keeping Q h i (f a)) h i p) : Keeping Q h i (p.bind f) :=
  safe_bind.mpr (hp.mono fun _ i _ hf => hf i)

/-! ## The loop -/

/-- A step that produces and marks nothing keeps the batch. -/
theorem Batch.step {produced marked rest : List OutboxRow} {e : Event}
    (hb : Batch h produced marked rest) (hlead : leading (e :: h) = leading h)
    (hfetch : fetched (e :: h) = fetched h) (hsent : sent (e :: h) = sent h)
    (hconf : confirmed (e :: h) = confirmed h) (hsmooth : smooth (e :: h) = true → smooth h = true) :
    Batch (e :: h) produced marked rest where
  leads := hlead.trans hb.leads
  events := hfetch.trans hb.events
  records := hsent ▸ hb.records
  marks h := hconf.trans (hb.marks (hsmooth h))

/-- The ids sent are those of the routable events produced so far. -/
theorem Batch.sent_ids {produced marked rest : List OutboxRow} (hb : Batch h produced marked rest) :
    (sent h).map (·.eventId) = ((produced.filter routable).map (·.id)).reverse := by
  rw [← List.map_reverse]
  have hids : ∀ {as : List Appended} {es : List OutboxRow}, List.Forall₂ Carries as es →
      as.map (·.eventId) = es.map (·.id) := by
    intro as es h
    induction h with
    | nil => rfl
    | cons hab _ ih => rw [List.map_cons, List.map_cons, ih, hab.id]
  exact hids hb.records

theorem Batch.settled {produced rest : List OutboxRow} (hb : Batch h produced produced rest) :
    Settled h := fun hsmooth => by rw [hb.marks hsmooth, hb.sent_ids]

/-- An acknowledged record of the next event. -/
theorem Batch.produce {before rest : List OutboxRow} {e : OutboxRow} {client : PartitionClient}
    {record : Record} {g g' : World} (hb : Batch h before before (e :: rest))
    (hc : Carries ⟨e.id, client.topic, record⟩ e) (he : routable e = true) :
    Batch (⟨.produce client e.id record, .ok (), i, g, i, g'⟩ :: h) (before ++ [e]) before rest where
  leads := hb.leads
  events := by
    rw [List.append_assoc, List.singleton_append]
    exact hb.events
  records := by
    have hlast : [e].filter routable = [e] := by simp [he]
    rw [List.filter_append, List.reverse_append, hlast]
    exact List.Forall₂.cons hc hb.records
  marks := hb.marks

/-- A client for the topic, from the cache or new. -/
theorem keeping_partitionClient {topic : String} {produced rest : List OutboxRow} (hs : s.Sorted)
    (hb : Batch h produced produced rest) :
    Keeping (fun h r => Batch h produced produced rest ∧
      ∀ pc s', r = .ok (pc, s') → pc.topic = topic ∧ s'.Sorted) h i (partitionClient s topic) := by
  unfold partitionClient
  split
  · rename_i pc hpc
    refine ⟨hb, fun pc' s' he => ?_⟩
    cases he
    exact ⟨hs topic pc hpc, hs⟩
  · refine keeping_call hb.leads fun r g g' hp => ?_
    have hb' : Batch (⟨.partitionClient topic, r, i, g, i, g'⟩ :: h) produced produced rest :=
      hb.step rfl rfl rfl rfl id
    cases r with
    | error e => exact ⟨hb', fun pc s' he => by cases he⟩
    | ok pc =>
      refine ⟨hb', fun pc' s' he => ?_⟩
      obtain ⟨-, ch, hp⟩ := hp
      simp only [perform, Prod.mk.injEq] at hp
      obtain ⟨hp, -⟩ := hp
      split_ifs at hp
      cases hp
      cases he
      refine ⟨rfl, fun t c hc => ?_⟩
      rw [List.lookup_cons] at hc
      split at hc
      · cases hc
        exact (beq_iff_eq.mp ‹_›).symm
      · exact hs t c hc

/-- Mark the event that was just produced. -/
theorem keeping_markPublished {e : OutboxRow} {before rest : List OutboxRow} (he : routable e = true)
    (hafter : afterProduce h = true) (hb : Batch h (before ++ [e]) before rest) :
    Keeping (fun h _ => Batch h (before ++ [e]) (before ++ [e]) rest) h i (markPublished e.id) := by
  -- after a failure nothing is said about the marks
  have hrough : ∀ {h' : Hist}, leading h' = leading h → fetched h' = fetched h → sent h' = sent h →
      smooth h' = false → Batch h' (before ++ [e]) (before ++ [e]) rest :=
    fun hlead hfetch hsent hrough => ⟨hlead.trans hb.leads, hfetch.trans hb.events,
      hsent ▸ hb.records, fun hsmooth => by rw [hrough] at hsmooth; cases hsmooth⟩
  unfold markPublished
  refine keeping_call hb.leads fun r g g' _ => ?_
  cases r with
  | error _ =>
    refine hrough rfl rfl rfl ?_
    rw [smooth, hafter]
    rfl
  | ok _ =>
    have hb' : Batch (⟨.getConnection, .ok (), i, g, i, g'⟩ :: h) (before ++ [e]) before rest :=
      hb.step rfl rfl rfl rfl id
    refine keeping_call ⟨before, e, rest, hb', he, rfl⟩ fun r g₁ g₁' _ => ?_
    cases r with
    | error _ => exact hrough rfl rfl rfl rfl
    | ok n =>
      refine ⟨hb'.leads, hb'.events, hb'.records, fun hsmooth => ?_⟩
      rw [confirmed, hb'.marks hsmooth, List.filter_append, List.map_append, List.reverse_append]
      simp [he]

theorem keeping_publish (before : List OutboxRow) {events : List OutboxRow} (hs : s.Sorted)
    (hb : Batch h before before events) :
    Keeping (fun h s => s.Sorted ∧ Settled h) h i (publish s events) := by
  induction events generalizing h i s before with
  | nil => exact ⟨hs, hb.settled⟩
  | cons event events ih =>
    unfold publish
    split
    · -- an unknown event type is skipped
      rename_i e he
      have hrout : routable event = false := by rw [routable, he]; rfl
      refine ih (before ++ [event]) hs ⟨hb.leads, ?_, ?_, fun hsmooth => ?_⟩
      · rw [hb.events, List.append_assoc, List.singleton_append]
      · simpa [List.filter_append, hrout] using hb.records
      · simpa [List.filter_append, hrout] using hb.marks hsmooth
    · rename_i topic htopic
      have hrout : routable event = true := by rw [routable, htopic]; rfl
      refine keeping_call hb.leads fun span g g' _ => ?_
      refine keeping_bind ((keeping_partitionClient hs (hb.step rfl rfl rfl rfl id)).mono
        fun h i r ⟨hb, hclient⟩ i => ?_)
      cases r with
      | error e => exact ⟨hs, hb.settled⟩
      | ok found =>
        obtain ⟨client, s⟩ := found
        obtain ⟨hclient, hs⟩ := hclient client s rfl
        refine keeping_call hb.leads fun now g g' _ => ?_
        have hb := hb.step (e := ⟨.utcNow, now, i, g, i, g'⟩) rfl rfl rfl rfl id
        have hcarries : Carries
            ⟨event.id, client.topic, recordOf event (buildHeaders span event) now⟩ event :=
          ⟨rfl, hclient.symm ▸ htopic, rfl, rfl⟩
        refine keeping_call ⟨before, event, events, hb, hcarries⟩ fun r g g' _ => ?_
        cases r with
        | error e =>
          -- retried at the next poll
          exact ⟨hs, fun hsmooth => by cases hsmooth⟩
        | ok _ =>
          exact keeping_bind ((keeping_markPublished hrout rfl (hb.produce hcarries hrout)).mono
            fun h i _ hb i => ih _ hs hb)

/-- How a program of the loop ends. -/
def RoundPost (h : Hist) : Outcome → Prop
  | .next s => s.Sorted ∧ Settled h
  | _ => Settled h

/-- **The loop meets the contract, round by round.** -/
theorem keeping_round (hs : s.Sorted) (hsettled : Settled h) : Keeping RoundPost h i (round s) := by
  refine keeping_call hsettled fun wake g g' _ => ?_
  cases wake with
  | cancelled => exact fun _ => rfl
  | tick =>
    refine keeping_call ⟨fun _ => rfl, rfl⟩ fun r g₁ g₁' _ => ?_
    have hsettled : ∀ r, Settled (⟨.tryAcquireLeaderLock, r, i, g₁, i, g₁'⟩ ::
        ⟨.select, .tick, i, g, i, g'⟩ :: h) := fun _ _ => rfl
    rcases r with e | ⟨_ | _⟩
    · exact ⟨hs, hsettled _⟩
    · exact ⟨hs, hsettled _⟩
    · refine keeping_bind (keeping_call rfl fun r g₂ g₂' _ => ?_)
      cases r with
      | error _ => exact fun i => ⟨hs, fun _ => rfl⟩
      | ok _ =>
        refine keeping_call rfl fun r g₃ g₃' _ => ?_
        cases r with
        | error e => exact fun i => ⟨hs, fun _ => rfl⟩
        | ok events =>
          have hb : Batch (⟨.fetchUnpublished s.batchSize, .ok events, i, g₃, i, g₃'⟩ ::
              ⟨.getConnection, .ok (), i, g₂, i, g₂'⟩ ::
              ⟨.tryAcquireLeaderLock, .ok true, i, g₁, i, g₁'⟩ :: ⟨.select, .tick, i, g, i, g'⟩ :: h)
              [] [] events := ⟨rfl, rfl, List.Forall₂.nil, fun _ => rfl⟩
          exact fun j => keeping_bind ((keeping_publish (s := { s with isLeader := true }) [] hs hb).mono
            fun h i s hQ i => hQ)

theorem keeping_run (batchSize : ℤ) : Keeping RoundPost [] i (run batchSize) := by
  refine keeping_call ⟨fun _ => rfl, rfl⟩ fun r g g' _ => ?_
  cases r with
  | error e => exact fun _ => rfl
  | ok _ =>
    refine keeping_call ⟨fun _ => rfl, rfl⟩ fun r g₁ g₁' _ => ?_
    cases r with
    | error e => exact fun _ => rfl
    | ok _ => exact keeping_round (fun topic pc hpc => by cases hpc) fun _ => rfl

end Outbox
