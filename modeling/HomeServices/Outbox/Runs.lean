import HomeServices.Outbox.Contract

/-!
# Runs of the publisher

What holds of every run of any number of replicas, beside transactions that insert events and
connections that are lost.

* `Effect`: what an operation does to the world.
* `Later`, **`later_reachable`**: rows stay, records stay, in order.
* `meets_thread`, `meets_of_happened`: every replica meets the contract of the loop.
* `fetchedFrom`: the world the current batch was fetched from.
* `selected_of_fetchedFrom`, `fetched_row`, `sent_acked`: what a history fetched was selected from the
  table, what it sent was acknowledged.
-/

namespace Outbox

open Interaction
open Identity (Bytes Uuid PgError OutboxError OutboxRow StoredEvent Platform asBytes uuidText)

/-! ## What an operation does -/

/-- What an operation of the replica `i` does to the world. -/
inductive Effect (i : ℕ) (g : World) : Op → World → Prop
  | none {o : Op} : Effect i g o g
  | connect : Effect i g .getLeader { g with connected := Function.update g.connected i true }
  | lead : g.connected i = true → (g.leader = .none ∨ g.leader = some i) →
      Effect i g .tryAcquireLeaderLock { g with leader := some i }
  | append {client : PartitionClient} {id : Uuid} {record : Record} :
      Effect i g (.produce client id record) { g with log := g.log ++ [⟨id, client.topic, record⟩] }
  | acknowledge {client : PartitionClient} {id : Uuid} {record : Record} :
      Effect i g (.produce client id record) { g with
        log := g.log ++ [⟨id, client.topic, record⟩]
        acked := g.acked ++ [⟨id, client.topic, record⟩] }
  | mark {id : Uuid} : Effect i g (.markPublished id) { g with rows := marked id g.clock g.rows }

theorem performs_effect {o : Op} {i i' : ℕ} {g g' : World} {r : Resp o}
    (h : Performs o i g r i' g') : Effect i g o g' := by
  obtain ⟨-, ch, h⟩ := h
  cases o with
  | getLeader =>
    simp only [perform] at h
    split_ifs at h <;> cases h
    · exact .none
    · exact .connect
  | tryAcquireLeaderLock =>
    simp only [perform] at h
    split_ifs at h with hclosed hfree <;> cases h
    · exact .none
    all_goals
      have hopen : g.connected i = true := by
        cases hcon : g.connected i with
        | true => rfl
        | false => exact (hclosed (by rw [hcon]; rfl)).elim
      first | exact .lead hopen hfree | exact .none
  | produce client id record =>
    simp only [perform] at h
    split_ifs at h <;> cases h
    · exact .append
    · exact .none
    · exact .acknowledge
  | markPublished id =>
    simp only [perform] at h
    split_ifs at h <;> cases h
    · exact .none
    · exact .mark
    · exact .mark
  | _ => simp only [perform, Prod.mk.injEq] at h; obtain ⟨-, rfl⟩ := h; exact .none

/-- An acknowledged record is a record of its topic. -/
theorem performs_produce_ok {client : PartitionClient} {id : Uuid} {record : Record} {i i' : ℕ}
    {g g' : World} (h : Performs (.produce client id record) i g (.ok ()) i' g') :
    g' = { g with
      log := g.log ++ [⟨id, client.topic, record⟩]
      acked := g.acked ++ [⟨id, client.topic, record⟩] } := by
  obtain ⟨-, ch, h⟩ := h
  simp only [perform] at h
  split_ifs at h <;> cases h
  rfl

theorem performs_fetch_ok {batchSize : ℤ} {i i' : ℕ} {g g' : World} {events : List OutboxRow}
    (h : Performs (.fetchUnpublished batchSize) i g (.ok events) i' g') :
    g' = g ∧ 0 ≤ batchSize ∧ ∃ tie, events = selected tie batchSize g.rows := by
  obtain ⟨-, ch, h⟩ := h
  simp only [perform, Prod.mk.injEq] at h
  obtain ⟨h, rfl⟩ := h
  split_ifs at h with hbad
  cases h
  refine ⟨rfl, ?_, ch.tie, rfl⟩
  simp only [Bool.or_eq_true, decide_eq_true_eq, not_or, not_lt] at hbad
  exact hbad.2

/-! ## The table -/

instance (tie : Uuid → ℕ) : Std.Total (Before tie) :=
  ⟨fun e e' => by unfold Before; omega⟩

instance (tie : Uuid → ℕ) : IsTrans StoredEvent (Before tie) :=
  ⟨fun a b c hab hbc => by unfold Before at *; omega⟩

theorem mem_unpublished {rows : List StoredEvent} {e : StoredEvent} :
    e ∈ unpublished rows ↔ e ∈ rows ∧ e.publishedAt = none := by
  simp [unpublished]

theorem selected_sub {tie : Uuid → ℕ} {batchSize : ℤ} {rows : List StoredEvent} {e : OutboxRow}
    (he : e ∈ selected tie batchSize rows) :
    ∃ s ∈ rows, s.publishedAt = none ∧ s.toOutboxRow = e := by
  obtain ⟨s, hs, rfl⟩ := List.mem_map.mp he
  have hs := (List.perm_insertionSort (Before tie) _).subset (List.mem_of_mem_take hs)
  exact ⟨s, (mem_unpublished.mp hs).1, (mem_unpublished.mp hs).2, rfl⟩

theorem nodup_selected {tie : Uuid → ℕ} {batchSize : ℤ} {rows : List StoredEvent}
    (hrows : (rows.map (·.id)).Nodup) : ((selected tie batchSize rows).map (·.id)).Nodup := by
  rw [selected, List.map_map]
  have hperm := (List.perm_insertionSort (Before tie) (unpublished rows)).map (·.id)
  have hsorted : ((oldestFirst tie (unpublished rows)).map (·.id)).Nodup :=
    hperm.nodup_iff.mpr (hrows.sublist (List.filter_sublist.map _))
  exact hsorted.sublist ((List.take_sublist _ _).map _)

theorem mem_marked {id : Uuid} {now : ℕ} {rows : List StoredEvent} {e : StoredEvent} :
    e ∈ marked id now rows ↔ (e ∈ rows ∧ e.id ≠ id) ∨
      ∃ s ∈ rows, s.id = id ∧ e = { s with publishedAt := some now } := by
  rw [marked, List.mem_map]
  constructor
  · rintro ⟨s, hs, rfl⟩
    split_ifs with hid
    · exact Or.inr ⟨s, hs, hid, rfl⟩
    · exact Or.inl ⟨hs, hid⟩
  · rintro (⟨he, hid⟩ | ⟨s, hs, hid, rfl⟩)
    · exact ⟨e, he, if_neg hid⟩
    · exact ⟨s, hs, if_pos hid⟩

theorem map_id_marked {id : Uuid} {now : ℕ} {rows : List StoredEvent} :
    (marked id now rows).map (·.id) = rows.map (·.id) := by
  rw [marked, List.map_map]
  refine List.map_congr_left fun e _ => ?_
  simp only [Function.comp_apply]
  split_ifs <;> rfl

theorem row_unique {rows : List StoredEvent} (hrows : (rows.map (·.id)).Nodup) {e e' : StoredEvent}
    (he : e ∈ rows) (he' : e' ∈ rows) (hid : e.id = e'.id) : e = e' :=
  List.inj_on_of_nodup_map hrows he he' hid

/-- Rows, records and time of an earlier world are still there. -/
structure Later (g g' : World) : Prop where
  rows : ∀ e ∈ g.rows, ∃ publishedAt, { e with publishedAt } ∈ g'.rows ∧
    (e.publishedAt ≠ none → publishedAt ≠ none)
  log : g.log <+: g'.log
  acked : g.acked <+: g'.acked
  clock : g.clock ≤ g'.clock

theorem later_refl (g : World) : Later g g :=
  ⟨fun e he => ⟨e.publishedAt, he, id⟩, List.prefix_refl _, List.prefix_refl _, Nat.le_refl _⟩

theorem Later.trans {g₁ g₂ g₃ : World} (h : Later g₁ g₂) (h' : Later g₂ g₃) : Later g₁ g₃ := by
  refine ⟨fun e he => ?_, h.log.trans h'.log, h.acked.trans h'.acked, h.clock.trans h'.clock⟩
  obtain ⟨p, hp, hpub⟩ := h.rows e he
  obtain ⟨p', hp', hpub'⟩ := h'.rows _ hp
  exact ⟨p', hp', fun hne => hpub' (hpub hne)⟩

theorem later_effect {i : ℕ} {g g' : World} {o : Op} (h : Effect i g o g') : Later g g' := by
  have hrows := (later_refl g).rows
  cases h with
  | none => exact later_refl _
  | connect | lead => exact ⟨hrows, List.prefix_refl _, List.prefix_refl _, Nat.le_refl _⟩
  | append => exact ⟨hrows, List.prefix_append _ _, List.prefix_refl _, Nat.le_refl _⟩
  | acknowledge => exact ⟨hrows, List.prefix_append _ _, List.prefix_append _ _, Nat.le_refl _⟩
  | @mark id =>
    refine ⟨fun e he => ?_, List.prefix_refl _, List.prefix_refl _, Nat.le_refl _⟩
    by_cases hid : e.id = id
    · exact ⟨some g.clock, mem_marked.mpr (Or.inr ⟨e, he, hid, rfl⟩), fun _ => Option.some_ne_none _⟩
    · exact ⟨e.publishedAt, mem_marked.mpr (Or.inl ⟨he, hid⟩), fun hne => hne⟩

theorem later_env {inserts : StoredEvent → Prop} {g g' : World} (h : Env inserts g g') : Later g g' := by
  have hrows := (later_refl g).rows
  cases h with
  | insert =>
    refine ⟨fun e he => ?_, List.prefix_refl _, List.prefix_refl _, Nat.le_refl _⟩
    exact ⟨e.publishedAt, List.mem_append_left _ he, fun hne => hne⟩
  | tick hle => exact ⟨hrows, List.prefix_refl _, List.prefix_refl _, hle⟩
  | lose => exact ⟨hrows, List.prefix_refl _, List.prefix_refl _, Nat.le_refl _⟩

section Runs

variable [Platform] {inserts : StoredEvent → Prop} {rows : List StoredEvent} {clock : ℕ}
  {c c' : State}

theorem later_step (hs : Step (machine inserts) c c') : Later c.glob c'.glob := by
  cases hs with
  | env henv => exact later_env henv
  | spawn | again => exact later_refl _
  | call _ hst => exact later_effect (performs_effect hst)

/-- **Rows stay, with what was inserted; records stay, in order.** -/
theorem later_reachable (hc : Reachable (machine inserts) c c') : Later c.glob c'.glob :=
  hc.invariant (I := fun c' => Later c.glob c'.glob) (later_refl _)
    fun _ _ _ ih hs => ih.trans (later_step hs)

/-- A run inserts what is in the table at its end. -/
theorem reachable_of_rows (hc : Reachable (machine fun _ => True) (boot rows clock) c)
    (hinserts : ∀ e ∈ c.glob.rows, inserts { e with publishedAt := none }) :
    Reachable (machine inserts) (boot rows clock) c := by
  induction hc with
  | refl => exact .refl
  | @tail c c' hc hs ih =>
    have hbefore : ∀ e ∈ c.glob.rows, inserts { e with publishedAt := none } := fun e he => by
      obtain ⟨p, hp, -⟩ := (later_step hs).rows e he
      have hrow := hinserts _ hp
      exact hrow
    refine (ih hbefore).tail ?_
    cases hs with
    | env henv =>
      cases henv with
      | insert hnew _ hnodup =>
        refine .env (.insert hnew (fun e he => ?_) hnodup)
        have hrow := hinserts e (List.mem_append_right _ he)
        rw [← (hnew e he).1] at hrow
        exact hrow
      | tick hle => exact .env (.tick hle)
      | lose i => exact .env (.lose i)
    | spawn hi hstart => exact .spawn hi hstart
    | call hi hst => exact .call hi hst
    | again hi hagain => exact .again hi hagain

/-- The ids of the table stay distinct. -/
theorem nodup_reachable (hrows : (rows.map (·.id)).Nodup)
    (hc : Reachable (machine inserts) (boot rows clock) c) : (c.glob.rows.map (·.id)).Nodup := by
  refine hc.invariant (I := fun c => (c.glob.rows.map (·.id)).Nodup) hrows fun c c' _ ih hs => ?_
  cases hs with
  | env henv =>
    cases henv with
    | insert _ _ hnodup => exact hnodup
    | tick | lose => exact ih
  | spawn | again => exact ih
  | call _ hst =>
    cases performs_effect hst with
    | mark =>
      change ((marked _ _ c.glob.rows).map (·.id)).Nodup
      rw [map_id_marked]
      exact ih
    | _ => exact ih

/-- Every replica acts under its own number. -/
theorem loc_reachable (hc : Reachable (machine inserts) (boot rows clock) c) :
    ∀ i t, c.thread i = some t → t.loc = i := by
  refine hc.invariant (I := fun c => ∀ i t, c.thread i = some t → t.loc = i)
    (fun i t ht => by cases ht) fun c c' _ ih hs i t ht => ?_
  cases hs.moved ht with
  | stayed hi => exact ih i t hi
  | spawned _ hst => exact hst.1
  | called hi hst => exact hst.1.trans (ih i _ hi)
  | again hi =>
    have hloc := ih i _ hi
    exact hloc

/-- Every replica of every run keeps the contract of the loop. -/
theorem keeping_thread (hc : Reachable (machine inserts) (boot rows clock) c) {i : ℕ}
    {t : Thread Op Resp ℕ World Outcome} (ht : c.thread i = some t) :
    Keeping RoundPost t.hist t.loc t.prog := by
  refine safe_reachable (M := machine inserts) (fun _ _ _ _ _ => trivial) (fun _ => rfl) ?_ ?_ hc i t ht
  · rintro i l p ⟨rfl, batchSize, rfl⟩
    exact keeping_run batchSize
  · intro h l a p hQ hagain
    cases a with
    | next s =>
      cases hagain
      exact keeping_round hQ.1 hQ.2
    | _ => cases hagain

theorem meets_of_happened (hc : Reachable (machine inserts) (boot rows clock) c) {i : ℕ} {e : Event}
    {h : Hist} (he : Happened c i e h) : Meets h e.op := by
  refine hc.entries (P := fun _ h e => Meets h e.op) (fun _ => rfl) ?_ i e h he
  intro c i e h k hc ht _ _
  exact (keeping_thread hc ht c.glob trivial).1

/-! ## What a history fetched and sent -/

/-- The world the batch of the current round was fetched from. -/
def fetchedFrom : Hist → Option World
  | [] => none
  | ⟨.select, _, _, _, _, _⟩ :: _ => none
  | ⟨.fetchUnpublished _, .ok _, _, g, _, _⟩ :: _ => some g
  | ⟨.fetchUnpublished _, .error _, _, _, _, _⟩ :: _ => none
  | _ :: h => fetchedFrom h

omit [Platform] in
/-- What was fetched in this round is the answer of one fetch. -/
theorem fetchedFrom_entry {h : Hist} {g : World} (hg : fetchedFrom h = some g) :
    ∃ batchSize l l' g',
      (⟨.fetchUnpublished batchSize, .ok (fetched h), l, g, l', g'⟩ : Event) ∈ h := by
  induction h with
  | nil => cases hg
  | cons entry h ih =>
    have hlater : fetchedFrom h = some g → ∃ batchSize l l' g',
        (⟨.fetchUnpublished batchSize, .ok (fetched h), l, g, l', g'⟩ : Event) ∈ entry :: h := by
      intro hg
      obtain ⟨b, l, l', g', hmem⟩ := ih hg
      exact ⟨b, l, l', g', List.mem_cons_of_mem _ hmem⟩
    obtain ⟨o, r, l, g₀, l', g'⟩ := entry
    cases o with
    | select => cases hg
    | fetchUnpublished b =>
      cases r with
      | error _ => cases hg
      | ok events =>
        cases hg
        exact ⟨b, l, l', g', List.mem_cons_self⟩
    | _ => exact hlater hg

omit [Platform] in
/-- What was fetched was fetched from some world. -/
theorem exists_fetchedFrom {h : Hist} (hne : fetched h ≠ []) : ∃ g, fetchedFrom h = some g := by
  induction h with
  | nil => exact (hne rfl).elim
  | cons entry h ih =>
    obtain ⟨o, r, l, g, l', g'⟩ := entry
    cases o with
    | select => exact (hne rfl).elim
    | fetchUnpublished b =>
      cases r with
      | error _ => exact (hne rfl).elim
      | ok events => exact ⟨g, rfl⟩
    | _ => exact ih hne

omit [Platform] in
theorem mem_sent {h : Hist} {a : Appended} (ha : a ∈ sent h) :
    ∃ client id record l g l' g', (⟨.produce client id record, .ok (), l, g, l', g'⟩ : Event) ∈ h ∧
      a = ⟨id, client.topic, record⟩ := by
  induction h with
  | nil => cases ha
  | cons entry h ih =>
    have hlater : a ∈ sent h → ∃ client id record l g l' g',
        (⟨.produce client id record, .ok (), l, g, l', g'⟩ : Event) ∈ entry :: h ∧
          a = ⟨id, client.topic, record⟩ := by
      intro ha
      obtain ⟨client, id, record, l, g, l', g', hmem, ha⟩ := ih ha
      exact ⟨client, id, record, l, g, l', g', List.mem_cons_of_mem _ hmem, ha⟩
    obtain ⟨o, r, l, g, l', g'⟩ := entry
    cases o with
    | select => cases ha
    | produce client id record =>
      cases r with
      | error _ => exact hlater ha
      | ok _ =>
        rcases List.mem_cons.mp ha with rfl | ha
        · exact ⟨client, id, record, l, g, l', g', List.mem_cons_self, rfl⟩
        · exact hlater ha
    | _ => exact hlater ha

/-- The batch of a replica was selected from the world it was fetched from. -/
theorem selected_of_fetchedFrom (hc : Reachable (machine inserts) (boot rows clock) c) {i : ℕ}
    {t : Thread Op Resp ℕ World Outcome} (ht : c.thread i = some t) {g : World}
    (hg : fetchedFrom t.hist = some g) :
    (∃ c₁, Reachable (machine inserts) (boot rows clock) c₁ ∧ c₁.glob = g ∧
      Reachable (machine inserts) c₁ c) ∧
    ∃ tie batchSize, fetched t.hist = selected tie batchSize g.rows := by
  obtain ⟨b, l, l', g', hmem⟩ := fetchedFrom_entry hg
  obtain ⟨h, htook⟩ := exists_took hmem
  obtain ⟨-, -, tie, hselected⟩ := performs_fetch_ok (entry_step hc (fun _ => rfl) ⟨t, ht, htook⟩)
  obtain ⟨c₁, c₂, hc₁, hpre, hs, -, hc₂⟩ := entry_reachable hc (fun _ => rfl) ⟨t, ht, htook⟩
  exact ⟨⟨c₁, hc₁, hpre, .head hs hc₂⟩, tie, b, hselected⟩

/-- What was fetched in this round was selected from the table of an earlier configuration. -/
theorem fetched_selected (hc : Reachable (machine inserts) (boot rows clock) c) {i : ℕ}
    {t : Thread Op Resp ℕ World Outcome} (ht : c.thread i = some t) (hne : fetched t.hist ≠ []) :
    ∃ c₁ tie batchSize, Reachable (machine inserts) (boot rows clock) c₁ ∧
      Reachable (machine inserts) c₁ c ∧ fetched t.hist = selected tie batchSize c₁.glob.rows := by
  obtain ⟨g, hg⟩ := exists_fetchedFrom hne
  obtain ⟨⟨c₁, hc₁, rfl, hlater⟩, tie, b, hselected⟩ := selected_of_fetchedFrom hc ht hg
  exact ⟨c₁, tie, b, hc₁, hlater, hselected⟩

/-- A fetched event is a row of the table. -/
theorem fetched_row (hc : Reachable (machine inserts) (boot rows clock) c) {i : ℕ}
    {t : Thread Op Resp ℕ World Outcome} (ht : c.thread i = some t) {e : OutboxRow}
    (he : e ∈ fetched t.hist) : ∃ s ∈ c.glob.rows, s.toOutboxRow = e := by
  obtain ⟨c₁, tie, b, -, hc₁, hselected⟩ := fetched_selected hc ht (List.ne_nil_of_mem he)
  rw [hselected] at he
  obtain ⟨s, hs, -, rfl⟩ := selected_sub he
  obtain ⟨p, hp, -⟩ := (later_reachable hc₁).rows s hs
  exact ⟨_, hp, rfl⟩

/-- The events of a batch are distinct. -/
theorem nodup_fetched (hrows : (rows.map (·.id)).Nodup)
    (hc : Reachable (machine inserts) (boot rows clock) c) {i : ℕ}
    {t : Thread Op Resp ℕ World Outcome} (ht : c.thread i = some t) :
    ((fetched t.hist).map (·.id)).Nodup := by
  by_cases hne : fetched t.hist = []
  · rw [hne]
    exact List.nodup_nil
  · obtain ⟨c₁, tie, b, hc₁, -, hselected⟩ := fetched_selected hc ht hne
    rw [hselected]
    exact nodup_selected (nodup_reachable hrows hc₁)

/-- A record sent was acknowledged. -/
theorem sent_acked (hc : Reachable (machine inserts) (boot rows clock) c) {i : ℕ}
    {t : Thread Op Resp ℕ World Outcome} (ht : c.thread i = some t) {a : Appended}
    (ha : a ∈ sent t.hist) : a ∈ c.glob.acked := by
  obtain ⟨client, id, record, l, g, l', g', hmem, rfl⟩ := mem_sent ha
  obtain ⟨h, htook⟩ := exists_took hmem
  have hpost := performs_produce_ok (entry_step hc (fun _ => rfl) ⟨t, ht, htook⟩)
  obtain ⟨c₁, c₂, -, -, -, hglob, hc₂⟩ := entry_reachable hc (fun _ => rfl) ⟨t, ht, htook⟩
  refine (later_reachable hc₂).acked.subset ?_
  rw [hglob, hpost]
  exact List.mem_append_right _ (List.mem_singleton_self _)

end Runs

end Outbox
