import HomeServices.Concurrent.Schedule
import HomeServices.Identity.Sample
import HomeServices.Outbox.Runs

/-!
# Executing replicas

Schedules of the publisher: replicas poll, events are inserted, connections are lost.

* `driver`: the executable replicas.
* `poll`: a round of a replica; `Sample.event`: an event of a user.
-/

namespace Outbox

open Interaction
open Identity (Bytes Uuid OutboxRow StoredEvent Platform)

/-- What happens beside the replicas. -/
inductive Outside where
  | insert (e : StoredEvent)
  | tick (clock : ℕ)
  | lose (i : ℕ)

variable [Platform]

/-- Replicas, each with its batch size, and any events. -/
def driver : Driver (machine fun _ => True) ℤ Choice Outside where
  start i batchSize := some (i, run batchSize)
  perform ch _ i g o := some ((perform ch i g o).1, i, (perform ch i g o).2)
  outside
    | .insert e, g =>
      if (e.publishedAt = none ∧ e.createdAt ≤ g.clock) ∧ e.id ∉ g.rows.map (·.id) ∧
          (g.rows.map (·.id)).Nodup then
        some { g with rows := g.rows ++ [e] }
      else none
    | .tick clock, g => if g.clock ≤ clock then some { g with clock } else none
    | .lose i, g => some { g with
        connected := Function.update g.connected i false
        leader := if g.leader = some i then none else g.leader }
  start_ok h := by
    cases h
    exact ⟨rfl, _, rfl⟩
  perform_ok h := by
    cases h
    exact ⟨rfl, _, rfl⟩
  outside_ok {e g g'} h := by
    cases e with
    | insert e =>
      simp only at h
      split_ifs at h with hok
      cases h
      obtain ⟨⟨hpub, hcreated⟩, hid, hnodup⟩ := hok
      refine .insert ?_ (fun _ _ => trivial) ?_
      · intro e' he'
        cases List.mem_singleton.mp he'
        exact ⟨hpub, hcreated⟩
      · rw [List.map_append]
        refine List.Nodup.append hnodup (List.nodup_singleton _) ?_
        intro x hx hx'
        cases List.mem_singleton.mp hx'
        exact hid hx
    | tick clock =>
      simp only at h
      split_ifs at h with hle
      cases h
      exact .tick hle
    | lose i => cases h; exact .lose i

namespace Sample

open scoped Identity.Sample

/-- An unpublished event. -/
def event (id : Uuid) (eventType : String) (aggregateId : Uuid) (createdAt : ℕ) : StoredEvent :=
  { id, aggregateType := "user", aggregateId, eventType, payload := [UInt8.ofNat id.toNat],
    traceId := none, spanId := none, createdAt, publishedAt := none }

def fine : Choice := {}

abbrev Schedule := List (Command ℤ Choice Outside)

/-- A replica starts: it builds its client and takes its lock connection. -/
def start (i : ℕ) (batchSize : ℤ) : Schedule := [.start i batchSize, .act i fine, .act i fine]

/-- A replica performs this many operations. -/
def act (i n : ℕ) : Schedule := List.replicate n (.act i fine)

end Sample

end Outbox
