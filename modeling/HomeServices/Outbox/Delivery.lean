import HomeServices.Outbox.Execution

/-!
# The publisher loses nothing

* `acked_of_mark`: what a replica is about to mark was acknowledged.
* **`publisher_loses_nothing`**: what is marked was acknowledged; everything else is still selected.
-/

namespace Outbox

open Interaction
open Identity (Uuid StoredEvent Platform)

section Delivery

variable [Platform] {inserts : StoredEvent → Prop} {rows : List StoredEvent} {clock : ℕ} {c : State}

/-- What a replica is about to mark was acknowledged. -/
theorem acked_of_mark (hrows : (rows.map (·.id)).Nodup)
    (hc : Reachable (machine inserts) (boot rows clock) c) {i l : ℕ} {id : Uuid}
    {k : Resp (.markPublished id) → Prog Op Resp Outcome} {h : Hist}
    (ht : c.thread i = some ⟨l, .call (.markPublished id) k, h⟩) {s : StoredEvent}
    (hs : s ∈ c.glob.rows) (hid : s.id = id) : ∃ a ∈ c.glob.acked, Carries a s.toOutboxRow := by
  obtain ⟨before, e, rest, hb, hrout, rfl⟩ := (keeping_thread hc ht c.glob trivial).1
  have hrecords := hb.records
  have hlast : [e].filter routable = [e] := by simp [hrout]
  rw [List.filter_append, List.reverse_append, hlast] at hrecords
  -- the newest record is the event's
  generalize hsent : sent h = records at hrecords
  cases hrecords with
  | @cons a _ as _ ha _ =>
    have hmem : a ∈ sent h := by rw [hsent]; exact List.mem_cons_self
    obtain ⟨s', hs', rfl⟩ := fetched_row hc ht (e := e) (by rw [hb.events]; simp)
    rw [row_unique (nodup_reachable hrows hc) hs hs' hid]
    exact ⟨a, sent_acked hc ht hmem, ha⟩

/-- **Every row marked as published had its record acknowledged, on the topic of its event type; and
rows are neither deleted nor altered, so that those that are not marked are still selected.** -/
theorem publisher_loses_nothing (hrows : (rows.map (·.id)).Nodup)
    (hunpublished : ∀ e ∈ rows, e.publishedAt = none)
    (hc : Reachable (machine inserts) (boot rows clock) c) :
    (∀ e ∈ c.glob.rows, e.publishedAt ≠ none → ∃ a ∈ c.glob.acked, Carries a e.toOutboxRow) ∧
    ∀ c', Reachable (machine inserts) c c' → ∀ e ∈ c.glob.rows,
      ∃ e' ∈ c'.glob.rows, e'.toOutboxRow = e.toOutboxRow ∧
        (e'.publishedAt = none → e' ∈ unpublished c'.glob.rows) := by
  refine ⟨?_, fun c' hc' e he => ?_⟩
  · refine hc.invariant (I := fun c => ∀ e ∈ c.glob.rows, e.publishedAt ≠ none →
      ∃ a ∈ c.glob.acked, Carries a e.toOutboxRow) (fun e he hpub => (hpub (hunpublished e he)).elim) ?_
    intro c c' hc ih hs e he hpub
    have hlater := (later_step hs).acked
    have hold : e ∈ c.glob.rows → ∃ a ∈ c'.glob.acked, Carries a e.toOutboxRow := fun he => by
      obtain ⟨a, ha, hcarries⟩ := ih e he hpub
      exact ⟨a, hlater.subset ha, hcarries⟩
    cases hs with
    | env henv =>
      cases henv with
      | insert hnew =>
        rcases List.mem_append.mp he with he | he
        · exact hold he
        · exact (hpub (hnew e he).1).elim
      | tick | lose => exact hold he
    | spawn | again => exact hold he
    | call hj hst =>
      cases performs_effect hst with
      | mark =>
        rcases mem_marked.mp he with ⟨he, -⟩ | ⟨s, hs', hid, rfl⟩
        · exact hold he
        · obtain ⟨a, ha, hcarries⟩ := acked_of_mark hrows hc hj hs' hid
          exact ⟨a, hlater.subset ha, hcarries.id, hcarries.topic, hcarries.key, hcarries.value⟩
      | _ => exact hold he
  · obtain ⟨p, hp, -⟩ := (later_reachable hc').rows e he
    exact ⟨_, hp, rfl, fun hnone => mem_unpublished.mpr ⟨hp, hnone⟩⟩

end Delivery

open Sample
open scoped Identity.Sample

/-- Two events are inserted and published. -/
def twoEvents : Schedule :=
  .outside (.insert (event 1 "auth_email" 9 0)) :: .outside (.insert (event 2 "auth_email" 9 0)) ::
    start 0 50 ++ act 0 15

theorem publisher_loses_nothing_twoEvents : ∃ c, driver.execute (boot [] 0) twoEvents = some c ∧
    (∀ e ∈ c.glob.rows, e.publishedAt ≠ none) ∧ c.glob.rows.length = 2 ∧
    ∀ e ∈ c.glob.rows, ∃ a ∈ c.glob.acked, Carries a e.toOutboxRow := by
  have hrun : (driver.execute (boot [] 0) twoEvents).any (fun c =>
      c.glob.rows.all (·.publishedAt.isSome) && c.glob.rows.length = 2) = true := by decide +kernel
  obtain ⟨c, hexec, hc, hrun⟩ := Driver.exists_of_execute hrun
  obtain ⟨hmarked, hlen⟩ := Bool.and_eq_true_iff.mp hrun
  have hmarked : ∀ e ∈ c.glob.rows, e.publishedAt ≠ none := fun e he =>
    Option.isSome_iff_ne_none.mp (List.all_eq_true.mp hmarked e he)
  have hempty : (([] : List StoredEvent).map (·.id)).Nodup := List.nodup_nil
  have hacked := (publisher_loses_nothing hempty (fun _ he => by cases he) hc).1
  exact ⟨c, hexec, hmarked, of_decide_eq_true hlen, fun e he => hacked e he (hmarked e he)⟩

end Outbox
