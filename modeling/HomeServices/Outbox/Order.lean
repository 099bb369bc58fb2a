import HomeServices.Outbox.Delivery

/-!
# The order of production

A batch holds what the table held when it was fetched, oldest first. Events are ordered by the time
at which their transactions began, and become visible when these commit.

* `FirstFetch`: the world from which the batch was fetched that first produced an event.
* `older_produced`: a batch produces the older rows of its table before the newer ones.
* **`produced_in_order`**: of two events the older one is produced first if and only if it was in the
  table of that fetch; `late_commit`: a run in which it was not.
-/

namespace Outbox

open Interaction
open Identity (Bytes Uuid OutboxRow StoredEvent Platform)

/-! ## Older rows come first -/

/-- In a selection, the unpublished rows older than one of it stand before it. -/
theorem older_before {tie : Uuid → ℕ} {batchSize : ℤ} {rows : List StoredEvent}
    {before rest : List OutboxRow} {e : OutboxRow}
    (hsel : selected tie batchSize rows = before ++ e :: rest) {s : StoredEvent}
    (hs : s ∈ unpublished rows) (hlt : s.createdAt < e.createdAt) : s.toOutboxRow ∈ before := by
  obtain ⟨pre, post, htake, rfl, hpost⟩ := List.map_eq_append_iff.mp hsel
  obtain ⟨s', post, rfl, rfl, rfl⟩ := List.map_eq_cons_iff.mp hpost
  have hsplit : oldestFirst tie (unpublished rows) =
      pre ++ s' :: (post ++ (oldestFirst tie (unpublished rows)).drop batchSize.toNat) := by
    rw [← List.cons_append, ← List.append_assoc, ← htake, List.take_append_drop]
  have hsorted : (oldestFirst tie (unpublished rows)).Pairwise (Before tie) :=
    List.pairwise_insertionSort (Before tie) _
  have hmem : s ∈ oldestFirst tie (unpublished rows) :=
    (List.perm_insertionSort (Before tie) _).mem_iff.mpr hs
  rw [hsplit] at hsorted hmem
  rcases List.mem_append.mp hmem with hpre | hpost
  · exact List.mem_map_of_mem hpre
  · exfalso
    rcases List.mem_cons.mp hpost with rfl | hpost
    · exact Nat.lt_irrefl _ hlt
    · have hafter := (List.pairwise_cons.mp (List.pairwise_append.mp hsorted).2.1).1 s hpost
      have hle : s'.createdAt ≤ s.createdAt := by
        rcases hafter with hlt' | ⟨heq, -⟩
        · exact Nat.le_of_lt hlt'
        · exact Nat.le_of_eq heq
      exact Nat.not_lt.mpr hle hlt

section Order

variable [Platform] {inserts : StoredEvent → Prop} {rows : List StoredEvent} {clock : ℕ}
  {c c' : State}

/-- What was acknowledged was produced. -/
theorem log_of_acked (hc : Reachable (machine inserts) (boot rows clock) c) :
    c.glob.acked ⊆ c.glob.log := by
  refine hc.invariant (I := fun c => c.glob.acked ⊆ c.glob.log) (List.Subset.refl _) fun c c' _ ih hs => ?_
  cases hs with
  | env henv => cases henv <;> exact ih
  | spawn | again => exact ih
  | call _ hst =>
    cases performs_effect hst with
    | append => exact fun a ha => List.mem_append_left _ (ih ha)
    | acknowledge =>
      intro a ha
      rcases List.mem_append.mp ha with ha | ha
      · exact List.mem_append_left _ (ih ha)
      · exact List.mem_append_right _ ha
    | _ => exact ih

/-- What was produced is made of a row of the table. -/
theorem carried_of_log (hc : Reachable (machine inserts) (boot rows clock) c) {a : Appended}
    (ha : a ∈ c.glob.log) : ∃ s ∈ c.glob.rows, Carries a s.toOutboxRow := by
  refine hc.invariant (I := fun c => ∀ a ∈ c.glob.log, ∃ s ∈ c.glob.rows, Carries a s.toOutboxRow)
    (fun a ha => by cases ha) ?_ a ha
  intro c c' hc ih hs a ha
  have hold : a ∈ c.glob.log → ∃ s ∈ c'.glob.rows, Carries a s.toOutboxRow := fun ha => by
    obtain ⟨s, hmem, hcarries⟩ := ih a ha
    obtain ⟨p, hp, -⟩ := (later_step hs).rows s hmem
    exact ⟨_, hp, hcarries⟩
  -- a new record is made of an event of the batch
  have hnew : ∀ {i l : ℕ} {client : PartitionClient} {id : Uuid} {record : Record}
      {k : Resp (.produce client id record) → Prog Op Resp Outcome} {h : Hist},
      c.thread i = some ⟨l, .call (.produce client id record) k, h⟩ →
      ∃ s ∈ c.glob.rows, Carries ⟨id, client.topic, record⟩ s.toOutboxRow := fun ht => by
    obtain ⟨before, e, rest, hb, hcarries⟩ := (keeping_thread hc ht c.glob trivial).1
    obtain ⟨s, hs', rfl⟩ := fetched_row hc ht (e := e) (by rw [hb.events]; simp)
    exact ⟨s, hs', hcarries⟩
  cases hs with
  | env henv => cases henv <;> exact hold ha
  | spawn | again => exact hold ha
  | call hj hst =>
    cases performs_effect hst with
    | append | acknowledge =>
      rcases List.mem_append.mp ha with ha | ha
      · exact hold ha
      · obtain rfl := List.mem_singleton.mp ha
        exact hnew hj
    | _ => exact hold ha

/-- What was produced is a row of the table, of a type with a topic. -/
theorem row_of_log (hc : Reachable (machine inserts) (boot rows clock) c) {a : Appended}
    (ha : a ∈ c.glob.log) : ∃ s ∈ c.glob.rows, s.id = a.eventId ∧ routable s.toOutboxRow = true := by
  obtain ⟨s, hs, hcarries⟩ := carried_of_log hc ha
  exact ⟨s, hs, hcarries.id.symm, by rw [routable, hcarries.topic]; rfl⟩

/-- **When a replica produces an event, the older rows of the table of its fetch that are ever
produced have been produced.** -/
theorem older_produced (hrows : (rows.map (·.id)).Nodup)
    (hunpublished : ∀ e ∈ rows, e.publishedAt = none)
    (hc : Reachable (machine inserts) (boot rows clock) c) {i l : ℕ} {client : PartitionClient}
    {id : Uuid} {record : Record} {k : Resp (.produce client id record) → Prog Op Resp Outcome}
    {h : Hist} (ht : c.thread i = some ⟨l, .call (.produce client id record) k, h⟩) {g : World}
    (hg : fetchedFrom h = some g) {s s' : StoredEvent} (hs : s ∈ g.rows) (hs' : s' ∈ c.glob.rows)
    (hid : s'.id = id) (hrout : routable s.toOutboxRow = true) (hlt : s.createdAt < s'.createdAt) :
    s.id ∈ c.glob.log.map (·.eventId) := by
  obtain ⟨⟨c₁, hc₁, rfl, hlater⟩, tie, b, hsel⟩ := selected_of_fetchedFrom hc ht hg
  have hearlier := (later_reachable hlater).acked
  by_cases hpub : s.publishedAt = none
  · obtain ⟨before, e, rest, hb, hcarries⟩ := (keeping_thread hc ht c.glob trivial).1
    obtain ⟨s₀, hs₀, rfl⟩ := fetched_row hc ht (e := e) (by rw [hb.events]; simp)
    obtain rfl : s' = s₀ :=
      row_unique (nodup_reachable hrows hc) hs' hs₀ (hid.trans hcarries.id)
    have hbefore := older_before (hsel.symm.trans hb.events) (mem_unpublished.mpr ⟨hs, hpub⟩) hlt
    -- it stands before the event in the batch, hence was sent
    have hsent : s.id ∈ (sent h).map (·.eventId) := by
      rw [hb.sent_ids, List.mem_reverse]
      exact List.mem_map.mpr ⟨_, List.mem_filter.mpr ⟨hbefore, hrout⟩, rfl⟩
    obtain ⟨a, ha, hid'⟩ := List.mem_map.mp hsent
    exact List.mem_map.mpr ⟨a, log_of_acked hc (sent_acked hc ht ha), hid'⟩
  · obtain ⟨a, ha, hcarries⟩ := (publisher_loses_nothing hrows hunpublished hc₁).1 s hs hpub
    exact List.mem_map.mpr ⟨a, log_of_acked hc (hearlier.subset ha), hcarries.id⟩

/-- A replica produces rows of the table of its fetch. -/
theorem produced_in_fetchedFrom (hc : Reachable (machine inserts) (boot rows clock) c) {i l : ℕ}
    {client : PartitionClient} {id : Uuid} {record : Record}
    {k : Resp (.produce client id record) → Prog Op Resp Outcome} {h : Hist}
    (ht : c.thread i = some ⟨l, .call (.produce client id record) k, h⟩) {g : World}
    (hg : fetchedFrom h = some g) : id ∈ g.rows.map (·.id) := by
  obtain ⟨before, e, rest, hb, hcarries⟩ := (keeping_thread hc ht c.glob trivial).1
  obtain ⟨-, tie, b, hsel⟩ := selected_of_fetchedFrom hc ht hg
  have hmem : e ∈ fetched h := by rw [hb.events]; simp
  obtain ⟨s, hs, -, rfl⟩ := selected_sub (hsel ▸ hmem)
  exact List.mem_map.mpr ⟨s, hs, hcarries.id.symm⟩

/-! ## A single publisher -/

/-- At most one replica runs. -/
def Single (c : State) : Prop := ∀ i j, c.thread i ≠ none → c.thread j ≠ none → i = j

theorem single_of_step (hs : Step (machine inserts) c c') (h : Single c') : Single c := by
  have hkept : ∀ i, c.thread i ≠ none → c'.thread i ≠ none := fun i hi => by
    obtain ⟨t, ht⟩ := Option.ne_none_iff_exists'.mp hi
    obtain ⟨t', ht', -⟩ := hs.hist_suffix ht
    rw [ht']
    exact Option.some_ne_none _
  exact fun i j hi hj => h i j (hkept i hi) (hkept j hj)

theorem single_of_reachable (hc : Reachable (machine inserts) c c') (h : Single c') : Single c := by
  induction hc with
  | refl => exact h
  | tail _ hs ih => exact ih (single_of_step hs h)

/-- A single publisher has produced nothing that was not in the table of its current batch. -/
theorem log_in_fetchedFrom (hc : Reachable (machine inserts) (boot rows clock) c) (hone : Single c)
    {i : ℕ} {t : Thread Op Resp ℕ World Outcome} (ht : c.thread i = some t) {g : World}
    (hg : fetchedFrom t.hist = some g) :
    ∀ id ∈ c.glob.log.map (·.eventId), id ∈ g.rows.map (·.id) := by
  revert i t g
  refine hc.invariant (I := fun c => Single c → ∀ {i : ℕ} {t : Thread Op Resp ℕ World Outcome},
    c.thread i = some t → ∀ {g : World}, fetchedFrom t.hist = some g →
      ∀ id ∈ c.glob.log.map (·.eventId), id ∈ g.rows.map (·.id)) (fun _ i t ht => by cases ht) ?_ hone
  intro c c' hc ih hs hone' i t ht g hg id hid
  have hone := single_of_step hs hone'
  cases hs with
  | env henv => cases henv <;> exact ih hone ht hg id hid
  | @spawn j l p hj hst =>
    by_cases hij : i = j
    · subst hij
      cases (Function.update_self ..).symm.trans ht
      cases hg
    · exact ih hone (by simpa [Function.update_of_ne hij] using ht) hg id hid
  | @again j l a h p hj hagain =>
    obtain rfl : i = j := hone' i j (by rw [ht]; exact Option.some_ne_none _)
      (by simp)
    cases (Function.update_self ..).symm.trans ht
    exact ih hone hj hg id hid
  | @call j l o k h r l' g' hj hst =>
    obtain rfl : i = j := hone' i j (by rw [ht]; exact Option.some_ne_none _)
      (by simp)
    cases (Function.update_self ..).symm.trans ht
    have hold : fetchedFrom h = some g → id ∈ c.glob.log.map (·.eventId) → id ∈ g.rows.map (·.id) :=
      fun hg hid => ih hone hj hg id hid
    cases performs_effect hst with
    | none =>
      cases o with
      | select => cases hg
      | fetchUnpublished b =>
        cases r with
        | error _ => cases hg
        | ok events =>
          cases hg
          obtain ⟨a, ha, rfl⟩ := List.mem_map.mp hid
          obtain ⟨s, hs, hid, -⟩ := row_of_log hc ha
          exact List.mem_map.mpr ⟨s, hs, hid⟩
      | _ => exact hold hg hid
    | connect | lead | mark => exact hold hg hid
    | append | acknowledge =>
      rw [List.map_append] at hid
      rcases List.mem_append.mp hid with hid | hid
      · exact hold hg hid
      · rw [List.mem_singleton.mp hid]
        exact produced_in_fetchedFrom hc hj hg

/-- The batch that first produced the event was fetched from the world `g`. -/
def FirstFetch (c : State) (id : Uuid) (g : World) : Prop :=
  ∃ i client record r l g₁ l' g₂ h,
    Happened c i ⟨.produce client id record, r, l, g₁, l', g₂⟩ h ∧ fetchedFrom h = some g ∧
      id ∉ g₁.log.map (·.eventId) ∧ id ∈ g₂.log.map (·.eventId)

theorem FirstFetch.step {id : Uuid} {g : World} (h : FirstFetch c id g)
    (hs : Step (machine inserts) c c') : FirstFetch c' id g := by
  obtain ⟨i, client, record, r, l, g₁, l', g₂, h, he, hrest⟩ := h
  exact ⟨i, client, record, r, l, g₁, l', g₂, h, he.step hs, hrest⟩

/-- Everything produced was first produced in some batch. -/
theorem exists_firstFetch (hc : Reachable (machine inserts) (boot rows clock) c) {id : Uuid}
    (hid : id ∈ c.glob.log.map (·.eventId)) : ∃ g, FirstFetch c id g := by
  refine hc.invariant (I := fun c => id ∈ c.glob.log.map (·.eventId) → ∃ g, FirstFetch c id g)
    (fun hid => by cases hid) ?_ hid
  intro c c' hc ih hs hid
  by_cases hold : id ∈ c.glob.log.map (·.eventId)
  · obtain ⟨g, hg⟩ := ih hold
    exact ⟨g, hg.step hs⟩
  cases hs with
  | env henv => cases henv <;> exact (hold hid).elim
  | spawn | again => exact (hold hid).elim
  | @call j l o k h r l' g' hj hst =>
    have hfirst : ∀ {client : PartitionClient} {id' : Uuid} {record : Record},
        o = .produce client id' record →
        g'.log = c.glob.log ++ [⟨id', client.topic, record⟩] → ∃ g, FirstFetch ⟨g', Function.update c.thread j
          (some ⟨l', k r, ⟨o, r, l, c.glob, l', g'⟩ :: h⟩)⟩ id g := by
      rintro client id' record rfl hlog
      obtain rfl : id = id' := by
        rw [hlog, List.map_append] at hid
        rcases List.mem_append.mp hid with hid | hid
        · exact (hold hid).elim
        · exact List.mem_singleton.mp hid
      obtain ⟨before, e, rest, hb, -⟩ := (keeping_thread hc hj c.glob trivial).1
      obtain ⟨g, hg⟩ := exists_fetchedFrom (h := h) (by rw [hb.events]; simp)
      exact ⟨g, j, client, record, r, l, c.glob, l', g', h,
        ⟨_, Function.update_self .., List.suffix_refl _⟩, hg, hold, hid⟩
    cases performs_effect hst with
    | append => exact hfirst rfl rfl
    | acknowledge => exact hfirst rfl rfl
    | _ => exact (hold hid).elim

omit [Platform] in
/-- The first production of an event appends it to what was produced before. -/
theorem first_production {client : PartitionClient} {id : Uuid} {record : Record}
    {r : Resp (.produce client id record)} {i i' : ℕ} {g g' : World}
    (hst : Performs (.produce client id record) i g r i' g') (hnew : id ∉ g.log.map (·.eventId))
    (hid : id ∈ g'.log.map (·.eventId)) : g'.log.map (·.eventId) = g.log.map (·.eventId) ++ [id] := by
  cases performs_effect hst with
  | append | acknowledge => exact List.map_append
  | none => exact (hnew hid).elim

omit [Platform] in
theorem idxOf_lt_iff {ids l : List Uuid} {id id' : Uuid} (hl : ids ++ [id'] <+: l) (hid' : id' ∉ ids) :
    l.idxOf id < l.idxOf id' ↔ id ∈ ids := by
  obtain ⟨rest, rfl⟩ := hl
  have hlast : (ids ++ [id'] ++ rest).idxOf id' = ids.length := by
    rw [List.append_assoc, List.idxOf_append_of_notMem hid']
    simp
  rw [hlast, List.append_assoc]
  by_cases hid : id ∈ ids
  · rw [List.idxOf_append_of_mem hid]
    exact iff_of_true (List.idxOf_lt_length_iff.mpr hid) hid
  · rw [List.idxOf_append_of_notMem hid]
    exact iff_of_false (Nat.not_lt.mpr (Nat.le_add_right ..)) hid

/-- A row of an earlier world is the row of its id. -/
theorem row_later (hrows : (rows.map (·.id)).Nodup)
    (hc : Reachable (machine inserts) (boot rows clock) c) (hc' : Reachable (machine inserts) c c')
    {s s' : StoredEvent} (hs : s ∈ c.glob.rows) (hs' : s' ∈ c'.glob.rows) (hid : s.id = s'.id) :
    s.toOutboxRow = s'.toOutboxRow := by
  obtain ⟨p, hp, -⟩ := (later_reachable hc').rows s hs
  rw [← row_unique (nodup_reachable hrows (hc.trans hc')) hp hs' hid]

/-- **Of two events that a single publisher produced, the older one was produced first if and only if
it was in the table when the batch was fetched that first produced the newer one.** -/
theorem produced_in_order (hrows : (rows.map (·.id)).Nodup)
    (hunpublished : ∀ e ∈ rows, e.publishedAt = none)
    (hc : Reachable (machine inserts) (boot rows clock) c) (hone : Single c) {s₁ s₂ : StoredEvent}
    (hs₁ : s₁ ∈ c.glob.rows) (hs₂ : s₂ ∈ c.glob.rows) (hlt : s₁.createdAt < s₂.createdAt)
    (hproduced₁ : s₁.id ∈ c.glob.log.map (·.eventId))
    (hproduced₂ : s₂.id ∈ c.glob.log.map (·.eventId)) :
    (∃ g, FirstFetch c s₂.id g) ∧ ∀ g, FirstFetch c s₂.id g →
      ((c.glob.log.map (·.eventId)).idxOf s₁.id < (c.glob.log.map (·.eventId)).idxOf s₂.id ↔
        s₁.id ∈ g.rows.map (·.id)) := by
  refine ⟨exists_firstFetch hc hproduced₂, ?_⟩
  rintro g ⟨i, client, record, r, l, g₁, l', g₂, h, he, hg, hnew, hid⟩
  have hlog := first_production (entry_step hc (fun _ => rfl) he) hnew hid
  obtain ⟨c₁, c₂, k, hc₁, ht, rfl, hs, rfl, hc₂⟩ := he.origin hc fun _ => rfl
  have hearlier := (later_reachable hc₂).log.map (·.eventId)
  rw [hlog] at hearlier
  rw [idxOf_lt_iff hearlier hnew]
  have hone₁ : Single c₁ := single_of_reachable (.head hs hc₂) hone
  constructor
  · exact log_in_fetchedFrom hc₁ hone₁ ht hg s₁.id
  · intro hmem
    obtain ⟨s, hsg, hsid⟩ := List.mem_map.mp hmem
    obtain ⟨⟨c₀, hc₀, rfl, hlater⟩, -⟩ := selected_of_fetchedFrom hc₁ ht hg
    have hrow := row_later hrows hc₀ (hlater.trans (.head hs hc₂)) hsg hs₁ hsid
    obtain ⟨s', hs', hid'⟩ := List.mem_map.mp (produced_in_fetchedFrom hc₁ ht hg)
    obtain ⟨p, hp, -⟩ := (later_reachable hlater).rows s' hs'
    have hrow' := row_later hrows hc₁ (.head hs hc₂) hp hs₂ hid'
    -- a row that was ever produced has a topic
    obtain ⟨a, ha, haid⟩ := List.mem_map.mp hproduced₁
    obtain ⟨s₃, hs₃, hid₃, hrout⟩ := row_of_log hc ha
    obtain rfl := row_unique (nodup_reachable hrows hc) hs₃ hs₁ (hid₃.trans haid)
    rw [← hsid]
    refine older_produced hrows hunpublished hc₁ ht hg hsg hp hid' (hrow ▸ hrout) ?_
    have htime : s.createdAt = s₃.createdAt := congrArg OutboxRow.createdAt hrow
    have htime' : s'.createdAt = s₂.createdAt := congrArg OutboxRow.createdAt hrow'
    rw [htime]
    exact htime' ▸ hlt

end Order

open Sample
open scoped Identity.Sample

/-- The transaction of event 1 began before that of event 2, and commits after event 2 was produced. -/
def lateCommit : Schedule :=
  .outside (.tick 5) :: .outside (.insert (event 2 "auth_email" 9 5)) :: start 0 50 ++ act 0 10 ++
    .outside (.insert (event 1 "auth_email" 9 3)) :: .again 0 :: act 0 9

/-- Event 1 was in the table when the batch of event 2 was fetched. -/
def earlyCommit : Schedule :=
  .outside (.tick 5) :: .outside (.insert (event 2 "auth_email" 9 5)) ::
    .outside (.insert (event 1 "auth_email" 9 3)) :: start 0 50 ++ act 0 15

/-- One replica executed the schedule, produced the two events in this order, and the table holds
them. -/
def bothProduced (cmds : Schedule) (order : List Uuid) : Bool :=
  cmds.all (fun cmd => cmd.target.all (· = 0)) && (driver.execute (boot [] 0) cmds).any fun c =>
    decide (c.glob.log.map (·.eventId) = order) &&
      decide (c.glob.rows.map (fun s => (s.id, s.aggregateId, s.createdAt)) = [(2, 9, 5), (1, 9, 3)])

theorem single_of_execute {cmds : Schedule} {c : State}
    (hcmds : cmds.all (fun cmd => cmd.target.all (· = 0)) = true)
    (hexec : driver.execute (boot [] 0) cmds = some c) : Single c := by
  have hzero : ∀ i, c.thread i ≠ none → i = 0 := fun i hi => by
    by_contra hne
    refine hi ((Driver.execute_thread (fun cmd hcmd htarget => ?_) hexec).trans rfl)
    have htarget' := List.all_eq_true.mp hcmds cmd hcmd
    rw [htarget] at htarget'
    exact hne (of_decide_eq_true htarget')
  exact fun i j hi hj => (hzero i hi).trans (hzero j hj).symm

theorem exists_of_bothProduced {cmds : Schedule} {order : List Uuid}
    (hrun : bothProduced cmds order = true) : ∃ c s₁ s₂,
      Reachable (machine fun _ => True) (boot [] 0) c ∧ Single c ∧
      c.glob.log.map (·.eventId) = order ∧ s₁ ∈ c.glob.rows ∧ s₂ ∈ c.glob.rows ∧
      (s₁.id = 1 ∧ s₂.id = 2) ∧ s₁.aggregateId = s₂.aggregateId ∧ s₁.createdAt < s₂.createdAt := by
  obtain ⟨hcmds, hrun⟩ := Bool.and_eq_true_iff.mp hrun
  obtain ⟨c, hexec, hc, hrun⟩ := Driver.exists_of_execute hrun
  obtain ⟨hlog, hrows⟩ := Bool.and_eq_true_iff.mp hrun
  obtain ⟨s₂, rest, hrows', hs₂, hrest⟩ := List.map_eq_cons_iff.mp (of_decide_eq_true hrows)
  obtain ⟨s₁, rest', rfl, hs₁, -⟩ := List.map_eq_cons_iff.mp hrest
  simp only [Prod.mk.injEq] at hs₁ hs₂
  obtain ⟨hid₁, hagg₁, htime₁⟩ := hs₁
  obtain ⟨hid₂, hagg₂, htime₂⟩ := hs₂
  refine ⟨c, s₁, s₂, hc, single_of_execute hcmds hexec, of_decide_eq_true hlog,
    ?_, ?_, ⟨hid₁, hid₂⟩, hagg₁.trans hagg₂.symm, ?_⟩
  · rw [hrows']
    exact List.mem_cons_of_mem _ List.mem_cons_self
  · rw [hrows']
    exact List.mem_cons_self
  · rw [htime₁, htime₂]
    decide

/-- **An event whose transaction commits late is produced after a newer one of its aggregate.** -/
theorem late_commit : ∃ c s₁ s₂, Reachable (machine fun _ => True) (boot [] 0) c ∧ Single c ∧
    s₁ ∈ c.glob.rows ∧ s₂ ∈ c.glob.rows ∧ s₁.aggregateId = s₂.aggregateId ∧
    s₁.createdAt < s₂.createdAt ∧ s₁.id ∈ c.glob.log.map (·.eventId) ∧
    s₂.id ∈ c.glob.log.map (·.eventId) ∧
    ¬ (c.glob.log.map (·.eventId)).idxOf s₁.id < (c.glob.log.map (·.eventId)).idxOf s₂.id := by
  have hrun : bothProduced lateCommit [2, 1] = true := by decide +kernel
  obtain ⟨c, s₁, s₂, hc, hone, hlog, hs₁, hs₂, ⟨hid₁, hid₂⟩, hagg, hlt⟩ := exists_of_bothProduced hrun
  refine ⟨c, s₁, s₂, hc, hone, hs₁, hs₂, hagg, hlt, ?_⟩
  rw [hlog, hid₁, hid₂]
  decide

theorem produced_in_order_earlyCommit : ∃ c s₁ s₂, Reachable (machine fun _ => True) (boot [] 0) c ∧
    s₁ ∈ c.glob.rows ∧ s₂ ∈ c.glob.rows ∧ s₁.createdAt < s₂.createdAt ∧
    c.glob.log.map (·.eventId) = [1, 2] ∧
    ∀ g, FirstFetch c s₂.id g → s₁.id ∈ g.rows.map (·.id) := by
  have hrun : bothProduced earlyCommit [1, 2] = true := by decide +kernel
  obtain ⟨c, s₁, s₂, hc, hone, hlog, hs₁, hs₂, ⟨hid₁, hid₂⟩, -, hlt⟩ := exists_of_bothProduced hrun
  have hempty : (([] : List StoredEvent).map (·.id)).Nodup := List.nodup_nil
  have horder := (produced_in_order hempty (fun _ he => by cases he) hc hone hs₁ hs₂ hlt
    (by rw [hlog, hid₁]; decide) (by rw [hlog, hid₂]; decide)).2
  refine ⟨c, s₁, s₂, hc, hs₁, hs₂, hlt, hlog, fun g hg => (horder g hg).mp ?_⟩
  rw [hlog, hid₁, hid₂]
  decide

end Outbox
