import HomeServices.Outbox.Execution
import HomeServices.Outbox.Rounds

/-!
# Recovery from failures

A replica takes its lock connection once, before its loop. Calls that failed leave nothing behind that
hinders a later round; a lost lock connection is never replaced.

* `Recovered`: a round published everything it selected, and something if anything was unpublished.
* **`recovers_iff`**: healthy rounds recover if and only if the lock connection is still open;
  `stuck_publisher`: a run in which it is not.
-/

namespace Outbox

open Interaction
open Identity (Bytes Uuid OutboxRow StoredEvent Platform)

section Recovery

variable [Platform] {inserts : StoredEvent → Prop} {rows : List StoredEvent} {clock : ℕ} {c : State}

/-- Every event that the fetch selected was delivered, and if a row was unpublished, it selected one. -/
def Recovered (inserts : StoredEvent → Prop) (batchSize : ℤ) (g g' : World) : Prop :=
  ∃ tie table, Grown inserts g.rows table ∧
    (∀ e ∈ selected tie batchSize table, Delivered g g' e) ∧
    (unpublished g.rows ≠ [] → selected tie batchSize table ≠ [])

omit [Platform] in
theorem selected_ne_nil {tie : Uuid → ℕ} {batchSize : ℤ} {rows : List StoredEvent}
    (hsize : 1 ≤ batchSize) (hne : unpublished rows ≠ []) : selected tie batchSize rows ≠ [] := by
  have hlength : (selected tie batchSize rows).length = min batchSize.toNat (unpublished rows).length := by
    simp [selected, oldestFirst]
  have hpos : 0 < (unpublished rows).length := List.length_pos_iff.mpr hne
  exact List.ne_nil_of_length_pos (by omega)

/-- With the lock connection, a healthy round recovers. -/
theorem recovers_of_open {s : Loop} (hs : s.Sorted) {i : ℕ} {g : World}
    (hopen : g.connected i = true) (hfree : g.leader = none ∨ g.leader = some i)
    (hrout : ∀ e ∈ unpublished g.rows, routable e.toOutboxRow = true)
    (hinserts : ∀ e, inserts e → routable e.toOutboxRow = true) (hsize : 1 ≤ s.batchSize) :
    Thrives (fun _ => True) inserts (fun _ g' _ => Recovered inserts s.batchSize g g') i g (round s) := by
  refine (healthy_round ⟨fun _ => 0, trivial⟩ hs (by omega) hopen hfree).mono ?_
  rintro l g' a ⟨-, s', g₁, tie, records, -, -, hgrown, hbefore, hcarries, hdone⟩
  have hunpublished : ∀ e ∈ unpublished g₁.rows, routable e.toOutboxRow = true := by
    obtain ⟨new, hnew, hnew'⟩ := hbefore.unpublished
    intro e he
    rw [hnew] at he
    rcases List.mem_append.mp he with he | he
    · exact hrout e (List.mem_filter.mp he).1
    · exact hinserts e (hnew' e he).1
  -- everything selected is routable
  have hall : (selected tie s.batchSize g₁.rows).filter routable = selected tie s.batchSize g₁.rows := by
    refine List.filter_eq_self.mpr fun e he => ?_
    obtain ⟨row, hrow, hpub, rfl⟩ := selected_sub he
    exact hunpublished row (mem_unpublished.mpr ⟨hrow, hpub⟩)
  rw [hall] at hcarries hdone
  refine ⟨tie, g₁.rows, hgrown, fun e he => ?_, fun hne => selected_ne_nil hsize ?_⟩
  · obtain ⟨row, hrow, hpub, rfl⟩ := selected_sub he
    obtain ⟨⟨records, hacked, ha⟩, hmarked⟩ := hdone.delivered hcarries hrow he
    exact ⟨⟨records, by rw [hacked, hbefore.acked, List.append_nil], ha⟩, hmarked⟩
  · obtain ⟨new, hnew, -⟩ := hbefore.unpublished
    obtain ⟨e, he⟩ := List.exists_mem_of_ne_nil _ hne
    refine List.ne_nil_of_mem (a := e) ?_
    rw [hnew]
    exact List.mem_append_left _ (List.mem_filter.mpr ⟨he, by simp⟩)

/-- With nothing unpublished there is nothing to recover. -/
theorem recovered_of_none {batchSize : ℤ} {g g' : World} (hnone : unpublished g.rows = []) :
    Recovered inserts batchSize g g' := by
  have hgrown : Grown inserts g.rows g.rows := (calm_refl g).grown
  refine ⟨fun _ => 0, g.rows, hgrown, fun e he => ?_, fun hne => (hne hnone).elim⟩
  rw [selected, hnone] at he
  simp [oldestFirst] at he

/-- A round that touches nothing leaves what is unpublished. -/
theorem not_recovered_of_untouched {batchSize : ℤ} {g g' : World} (h : Untouched g g')
    (hne : unpublished g.rows ≠ []) : ¬ Recovered inserts batchSize g g' := by
  rintro ⟨tie, table, -, hdelivered, hselected⟩
  obtain ⟨e, he⟩ := List.exists_mem_of_ne_nil _ (hselected hne)
  obtain ⟨records, hacked, a, ha, -⟩ := (hdelivered e he).produced
  rw [h.acked] at hacked
  rw [List.self_eq_append_right.mp hacked] at ha
  cases ha

/-- A healthy round that recovers has its lock connection. -/
theorem open_of_recovers {s : Loop} {i : ℕ} {g : World} (hne : unpublished g.rows ≠ [])
    (h : Thrives (fun _ => True) inserts (fun _ g' _ => Recovered inserts s.batchSize g g') i g (round s)) :
    g.connected i = true ∧ 1 ≤ s.batchSize := by
  by_contra hidle
  have hidle : g.connected i = false ∨ s.batchSize ≤ 0 := by
    rcases not_and_or.mp hidle with hclosed | hsize
    · exact Or.inl (Bool.eq_false_iff.mpr hclosed)
    · exact Or.inr (by omega)
  obtain ⟨l, g', a, hrecovered, huntouched⟩ :=
    h.meet calm_refl (healthy_idle ⟨fun _ => 0, trivial⟩ hidle)
  exact not_recovered_of_untouched huntouched hne hrecovered

/-- **Whatever happened before: if all unpublished rows are routable and no other replica holds the
lock, a healthy round publishes what it selects, and something if anything is unpublished, if and
only if the lock connection was not lost and batches are not empty, or nothing is unpublished.** -/
theorem recovers_iff (hc : Reachable (machine inserts) (boot rows clock) c) {i l : ℕ} {s : Loop}
    {h : Hist} (ht : c.thread i = some ⟨l, round s, h⟩)
    (hrout : ∀ e ∈ unpublished c.glob.rows, routable e.toOutboxRow = true)
    (hfree : c.glob.leader = none ∨ c.glob.leader = some i) :
    Thrives (fun _ => True) (fun e => routable e.toOutboxRow = true)
      (fun _ g' _ => Recovered (fun e => routable e.toOutboxRow = true) s.batchSize c.glob g') i c.glob
      (round s) ↔
    unpublished c.glob.rows = [] ∨ c.glob.connected i = true ∧ 1 ≤ s.batchSize := by
  constructor
  · intro hthrives
    by_cases hne : unpublished c.glob.rows = []
    · exact Or.inl hne
    · exact Or.inr (open_of_recovers hne hthrives)
  · intro hcond
    by_cases hopen : c.glob.connected i = true ∧ 1 ≤ s.batchSize
    · exact recovers_of_open (sorted_of_round hc ht) hopen.1 hfree hrout (fun _ he => he) hopen.2
    · have hnone := hcond.resolve_right hopen
      have hidle : c.glob.connected i = false ∨ s.batchSize ≤ 0 := by
        rcases not_and_or.mp hopen with hclosed | hsize
        · exact Or.inl (Bool.eq_false_iff.mpr hclosed)
        · exact Or.inr (by omega)
      exact (healthy_idle ⟨fun _ => 0, trivial⟩ hidle).mono fun _ g' _ _ => recovered_of_none hnone

end Recovery

open Sample
open scoped Identity.Sample

/-- The first poll of a replica, after its connections were lost or kept, and an event. -/
def firstPoll (outages : Schedule) : Schedule :=
  start 0 50 ++ outages ++ [.outside (.insert (event 1 "auth_email" 9 0))]

def firstLoop : Loop := { batchSize := 50, isLeader := false, partitionClients := [] }

/-- **A replica whose lock connection was lost publishes nothing, though everything is healthy again.** -/
theorem stuck_publisher : ∃ c l h, Reachable (machine fun _ => True) (boot [] 0) c ∧
    c.thread 0 = some ⟨l, round firstLoop, h⟩ ∧ unpublished c.glob.rows ≠ [] ∧
    (∀ e ∈ unpublished c.glob.rows, routable e.toOutboxRow = true) ∧ c.glob.leader = none ∧
    1 ≤ firstLoop.batchSize ∧
    ¬ Thrives (fun _ => True) (fun e => routable e.toOutboxRow = true)
      (fun _ g' _ => Recovered (fun e => routable e.toOutboxRow = true) firstLoop.batchSize c.glob g') 0
      c.glob (round firstLoop) := by
  obtain ⟨c, hexec, l, h, ht, hne, hrout, hfree, hclosed⟩ :
      ∃ c, driver.execute (boot [] 0) (firstPoll [.outside (.lose 0)]) = some c ∧
        ∃ l h, c.thread 0 = some ⟨l, round firstLoop, h⟩ ∧ unpublished c.glob.rows ≠ [] ∧
          (∀ e ∈ unpublished c.glob.rows, routable e.toOutboxRow = true) ∧ c.glob.leader = none ∧
          c.glob.connected 0 = false :=
    ⟨_, rfl, _, _, rfl, by decide, by decide, rfl, rfl⟩
  refine ⟨c, l, h, Driver.reachable hexec, ht, hne, hrout, hfree, by decide, fun hthrives => ?_⟩
  have hopen := (open_of_recovers hne hthrives).1
  rw [hclosed] at hopen
  cases hopen

theorem recovers_iff_firstPoll : ∃ c l h, Reachable (machine fun _ => True) (boot [] 0) c ∧
    c.thread 0 = some ⟨l, round firstLoop, h⟩ ∧ unpublished c.glob.rows ≠ [] ∧
    Thrives (fun _ => True) (fun e => routable e.toOutboxRow = true)
      (fun _ g' _ => Recovered (fun e => routable e.toOutboxRow = true) firstLoop.batchSize c.glob g') 0
      c.glob (round firstLoop) := by
  obtain ⟨c, hexec, l, h, ht, hne, hrout, hfree, hopen⟩ :
      ∃ c, driver.execute (boot [] 0) (firstPoll []) = some c ∧
        ∃ l h, c.thread 0 = some ⟨l, round firstLoop, h⟩ ∧ unpublished c.glob.rows ≠ [] ∧
          (∀ e ∈ unpublished c.glob.rows, routable e.toOutboxRow = true) ∧ c.glob.leader = none ∧
          c.glob.connected 0 = true :=
    ⟨_, rfl, _, _, rfl, by decide, by decide, rfl, rfl⟩
  refine ⟨c, l, h, Driver.reachable hexec, ht, hne, ?_⟩
  exact (recovers_iff (Driver.reachable hexec) ht hrout (Or.inl hfree)).mpr (Or.inr ⟨hopen, by decide⟩)

end Outbox
