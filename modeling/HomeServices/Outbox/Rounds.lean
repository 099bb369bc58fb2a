import HomeServices.Concurrent.Alone
import HomeServices.Outbox.Runs

/-!
# Healthy rounds

Rounds in which every database and Kafka call succeeds, while transactions go on inserting events.
Only the lock connection may be one that was lost before.

* `Healthy`, `Calm`: the steps of such a round, and what happens between them.
* `Done`: what has been acknowledged and marked since an earlier world.
* `sorted_of_round`: the partition clients that a replica keeps are those of their topics.
* **`healthy_publish`**: everything routable of a batch is produced and marked.
* **`healthy_round`**: a round with the lock does so with a selection of the table; `healthy_idle`: a
  round without it does nothing.
-/

namespace Outbox

open Interaction
open Identity (Bytes Uuid OutboxRow StoredEvent Platform)

/-- A step that succeeds; the loop goes on, and rows of one time come in an order of `T`. -/
def Healthy (T : (Uuid → ℕ) → Prop) (o : Op) (i : ℕ) (g : World) (r : Resp o) (i' : ℕ) (g' : World) : Prop :=
  i' = i ∧ ∃ ch : Choice, ch.fault = false ∧ ch.wake = .tick ∧ T ch.tie ∧ perform ch i g o = (r, g')

/-- Transactions insert events, time passes, and no lock connection is lost. -/
def Calm (inserts : StoredEvent → Prop) : World → World → Prop :=
  Relation.ReflTransGen fun g g' =>
    Env inserts g g' ∧ g'.connected = g.connected ∧ g'.leader = g.leader

/-- The program of a replica, in healthy rounds. -/
abbrev Thrives {α : Type} (T : (Uuid → ℕ) → Prop) (inserts : StoredEvent → Prop) (Q : ℕ → World → α → Prop)
    (i : ℕ) (g : World) (p : Prog Op Resp α) : Prop :=
  Alone (Healthy T) (Calm inserts) Q i g p

variable {T : (Uuid → ℕ) → Prop} {inserts : StoredEvent → Prop} {i : ℕ} {g g' : World}

theorem calm_refl (g : World) : Calm inserts g g := .refl

/-- The table grew by unpublished rows of `inserts`; the rest is as it was. -/
theorem Calm.frame (h : Calm inserts g g') : ∃ new clock,
    g' = { g with rows := g.rows ++ new, clock } ∧ g.clock ≤ clock ∧
      (∀ e ∈ new, e.publishedAt = none ∧ inserts e ∧ e.id ∉ g.rows.map (·.id)) ∧
      ((g.rows.map (·.id)).Nodup → ((g.rows ++ new).map (·.id)).Nodup) := by
  induction h with
  | refl =>
    refine ⟨[], g.clock, ?_, Nat.le_refl _, fun e he => ?_, fun hnodup => ?_⟩
    · rw [List.append_nil]
    · cases he
    · rwa [List.append_nil]
  | tail _ hs ih =>
    obtain ⟨new, clock, rfl, hle, hnew, hnodup⟩ := ih
    obtain ⟨henv, hconnected, hleader⟩ := hs
    cases henv with
    | @insert more hmore hinserts hids =>
      refine ⟨new ++ more, clock, ?_, hle, fun e he => ?_, fun _ => ?_⟩
      · simp only [List.append_assoc]
      · rcases List.mem_append.mp he with he | he
        · exact hnew e he
        · have hfresh := List.disjoint_of_nodup_append (List.map_append ▸ hids)
          refine ⟨(hmore e he).1, hinserts e he, fun hold => hfresh ?_ (List.mem_map_of_mem he)⟩
          rw [List.map_append]
          exact List.mem_append_left _ hold
      · rw [← List.append_assoc]
        exact hids
    | tick hle' => exact ⟨new, _, rfl, hle.trans hle', hnew, hnodup⟩
    | lose =>
      refine ⟨new, clock, ?_, hle, hnew, hnodup⟩
      simp only at hconnected hleader ⊢
      rw [hconnected, hleader]

/-- The table, after transactions that inserted events of `inserts`. -/
def Grown (inserts : StoredEvent → Prop) (rows table : List StoredEvent) : Prop :=
  ∃ new, table = rows ++ new ∧
    (∀ e ∈ new, e.publishedAt = none ∧ inserts e ∧ e.id ∉ rows.map (·.id)) ∧
    ((rows.map (·.id)).Nodup → (table.map (·.id)).Nodup)

theorem Calm.grown (h : Calm inserts g g') : Grown inserts g.rows g'.rows := by
  obtain ⟨new, clock, rfl, -, hnew, hnodup⟩ := h.frame
  exact ⟨new, rfl, hnew, hnodup⟩

theorem Grown.trans {rows₁ rows₂ rows₃ : List StoredEvent} (h : Grown inserts rows₁ rows₂)
    (h' : Grown inserts rows₂ rows₃) : Grown inserts rows₁ rows₃ := by
  obtain ⟨new, rfl, hnew, hnodup⟩ := h
  obtain ⟨new', rfl, hnew', hnodup'⟩ := h'
  refine ⟨new ++ new', List.append_assoc .., fun e he => ?_, fun h => hnodup' (hnodup h)⟩
  rcases List.mem_append.mp he with he | he
  · exact hnew e he
  · obtain ⟨hpub, hinserts, hfresh⟩ := hnew' e he
    refine ⟨hpub, hinserts, fun hold => hfresh ?_⟩
    rw [List.map_append]
    exact List.mem_append_left _ hold

/-! ## The rule of operations -/

/-- **The rule of an operation of a healthy round.** -/
theorem thrives_call {α : Type} {Q : ℕ → World → α → Prop} {o : Op} {k : Resp o → Prog Op Resp α}
    (hT : ∃ tie, T tie) (H : ∀ g₁ ch, Calm inserts g g₁ → ch.fault = false → ch.wake = .tick → T ch.tie →
      Thrives T inserts Q i (perform ch i g₁ o).2 (k (perform ch i g₁ o).1)) :
    Thrives T inserts Q i g (.call o k) := by
  refine alone_call.mpr fun g₁ hcalm => ⟨?_, fun r i' g' hs => ?_⟩
  · obtain ⟨tie, htie⟩ := hT
    exact ⟨_, _, _, rfl, { fault := false, wake := .tick, tie }, rfl, rfl, htie, rfl⟩
  · obtain ⟨rfl, ch, hfault, hwake, htie, hperform⟩ := hs
    have hnext := H g₁ ch hcalm hfault hwake htie
    rw [hperform] at hnext
    exact hnext

/-! ## What a round did -/

/-- Since the world `g`, the replica `i`, which holds the lock, had the records acknowledged, and
marked the rows of `ids`. -/
structure Done (inserts : StoredEvent → Prop) (i : ℕ) (records : List Appended) (ids : List Uuid)
    (g g' : World) : Prop where
  connected : g'.connected i = true
  leader : g'.leader = some i
  acked : g'.acked = g.acked ++ records
  later : Later g g'
  nodup : (g.rows.map (·.id)).Nodup → (g'.rows.map (·.id)).Nodup
  unpublished : ∃ new, unpublished g'.rows = (unpublished g.rows).filter (fun e => e.id ∉ ids) ++ new ∧
    ∀ e ∈ new, inserts e ∧ e.id ∉ g.rows.map (·.id)

/-- The ids of an earlier table are ids of the table. -/
theorem Later.ids (h : Later g g') : g.rows.map (·.id) ⊆ g'.rows.map (·.id) := by
  intro id hid
  obtain ⟨e, he, rfl⟩ := List.mem_map.mp hid
  obtain ⟨p, hp, -⟩ := h.rows e he
  exact List.mem_map.mpr ⟨_, hp, rfl⟩

theorem Done.trans {records records' : List Appended} {ids ids' : List Uuid} {g₁ g₂ g₃ : World}
    (h : Done inserts i records ids g₁ g₂) (h' : Done inserts i records' ids' g₂ g₃) :
    Done inserts i (records ++ records') (ids ++ ids') g₁ g₃ where
  connected := h'.connected
  leader := h'.leader
  acked := by rw [h'.acked, h.acked, List.append_assoc]
  later := h.later.trans h'.later
  nodup hnodup := h'.nodup (h.nodup hnodup)
  unpublished := by
    obtain ⟨new, hnew, hinserts⟩ := h.unpublished
    obtain ⟨new', hnew', hinserts'⟩ := h'.unpublished
    refine ⟨new.filter (fun e => e.id ∉ ids') ++ new', ?_, fun e he => ?_⟩
    · have hboth : ((Outbox.unpublished g₁.rows).filter (fun e => e.id ∉ ids)).filter (fun e => e.id ∉ ids') =
          (Outbox.unpublished g₁.rows).filter (fun e => e.id ∉ ids ++ ids') := by
        rw [List.filter_filter]
        refine List.filter_congr fun e _ => ?_
        simp [not_or, Bool.and_comm]
      rw [hnew', hnew, List.filter_append, hboth, List.append_assoc]
    · rcases List.mem_append.mp he with he | he
      · exact hinserts e (List.mem_filter.mp he).1
      · exact ⟨(hinserts' e he).1, fun hold => (hinserts' e he).2 (h.later.ids hold)⟩

theorem unpublished_append {rows new : List StoredEvent} (hnew : ∀ e ∈ new, e.publishedAt = none) :
    unpublished (rows ++ new) = unpublished rows ++ new := by
  have hall : ∀ e ∈ new, e.publishedAt.isNone = true := fun e he => by rw [hnew e he]; rfl
  rw [unpublished, List.filter_append, List.filter_eq_self.mpr hall]
  rfl

theorem unpublished_marked {id : Uuid} {now : ℕ} {rows : List StoredEvent} :
    unpublished (marked id now rows) = (unpublished rows).filter (fun e => e.id ∉ [id]) := by
  induction rows with
  | nil => rfl
  | cons e rows ih =>
    have ih : (marked id now rows).filter (·.publishedAt.isNone) =
        (rows.filter (·.publishedAt.isNone)).filter (fun e => e.id ∉ [id]) := ih
    simp only [unpublished, marked, List.map_cons, List.filter_cons] at ih ⊢
    by_cases hid : e.id = id
    · cases e.publishedAt <;> simp [hid, ih]
    · cases hpub : e.publishedAt <;> simp [hid, hpub, ih]

theorem Calm.later (h : Calm inserts g g') : Later g g' := by
  induction h with
  | refl => exact later_refl _
  | tail _ hs ih => exact ih.trans (later_env hs.1)

/-- What happens between two steps marks nothing. -/
theorem Calm.done (hopen : g.connected i = true) (hlead : g.leader = some i)
    (h : Calm inserts g g') : Done inserts i [] [] g g' := by
  have hlater := h.later
  obtain ⟨new, clock, rfl, -, hnew, hnodup⟩ := h.frame
  refine ⟨hopen, hlead, (List.append_nil _).symm, hlater, hnodup, new, ?_, fun e he => (hnew e he).2⟩
  rw [unpublished_append fun e he => (hnew e he).1]
  simp

theorem Done.calm {records : List Appended} {ids : List Uuid} {g₁ g₂ g₃ : World}
    (h : Done inserts i records ids g₁ g₂) (hcalm : Calm inserts g₂ g₃) :
    Done inserts i records ids g₁ g₃ := by
  have hdone := h.trans (hcalm.done h.connected h.leader)
  rwa [List.append_nil, List.append_nil] at hdone

theorem Done.acknowledge {records : List Appended} {ids : List Uuid} {a : Appended}
    (h : Done inserts i records ids g g') :
    Done inserts i (records ++ [a]) ids g { g' with log := g'.log ++ [a], acked := g'.acked ++ [a] } where
  connected := h.connected
  leader := h.leader
  acked := by rw [h.acked, List.append_assoc]
  later := h.later.trans ⟨(later_refl g').rows, List.prefix_append _ _, List.prefix_append _ _, Nat.le_refl _⟩
  nodup := h.nodup
  unpublished := h.unpublished

theorem Done.mark {records : List Appended} {ids : List Uuid} {id : Uuid}
    (h : Done inserts i records ids g g') :
    Done inserts i records (ids ++ [id]) g { g' with rows := marked id g'.clock g'.rows } := by
  have hstep : Done inserts i [] [id] g' { g' with rows := marked id g'.clock g'.rows } := by
    refine ⟨h.connected, h.leader, (List.append_nil _).symm, later_effect (i := i) .mark, fun hnodup => ?_,
      [], ?_, fun e he => by cases he⟩
    · rw [map_id_marked]
      exact hnodup
    · rw [unpublished_marked, List.append_nil]
  have hdone := h.trans hstep
  rwa [List.append_nil] at hdone

theorem Calm.lead (hopen : g.connected i = true) (h : Calm inserts g g') :
    Done inserts i [] [] g { g' with leader := some i } := by
  have hlater := h.later
  obtain ⟨new, clock, rfl, -, hnew, hnodup⟩ := h.frame
  refine ⟨hopen, rfl, (List.append_nil _).symm, ⟨hlater.rows, hlater.log, hlater.acked, hlater.clock⟩,
    hnodup, new, ?_, fun e he => (hnew e he).2⟩
  rw [unpublished_append fun e he => (hnew e he).1]
  simp

/-- Nothing was acknowledged or marked. -/
structure Untouched (g g' : World) : Prop where
  acked : g'.acked = g.acked
  unpublished : unpublished g.rows ⊆ unpublished g'.rows

theorem Untouched.calm {g₁ g₂ g₃ : World} (h : Untouched g₁ g₂) (hcalm : Calm inserts g₂ g₃) :
    Untouched g₁ g₃ := by
  obtain ⟨new, clock, rfl, -, hnew, -⟩ := hcalm.frame
  refine ⟨h.acked, fun e he => ?_⟩
  rw [unpublished_append fun e he => (hnew e he).1]
  exact List.mem_append_left _ (h.unpublished he)

/-! ## A round -/

section Round

variable [Platform] {s : Loop} {records : List Appended} {ids : List Uuid} {g₀ : World}

omit [Platform] in
theorem healthy_partitionClient (hT : ∃ tie, T tie) {topic : String} (hs : s.Sorted)
    (hdone : Done inserts i records ids g₀ g) :
    Thrives T inserts (fun l g' r => l = i ∧ Done inserts i records ids g₀ g' ∧ ∃ pc s',
      r = .ok (pc, s') ∧ pc.topic = topic ∧ s'.Sorted ∧ s'.batchSize = s.batchSize) i g
      (partitionClient s topic) := by
  unfold partitionClient
  split
  · rename_i pc hpc
    exact ⟨rfl, hdone, pc, s, rfl, hs topic pc hpc, hs, rfl⟩
  · refine thrives_call hT fun g₁ ch hcalm hfault _ _ => ?_
    simp only [perform, hfault, Bool.false_eq_true, if_false]
    refine ⟨rfl, hdone.calm hcalm, _, _, rfl, rfl, fun t c hc => ?_, rfl⟩
    rw [List.lookup_cons] at hc
    split at hc
    · cases hc
      exact (beq_iff_eq.mp ‹_›).symm
    · exact hs t c hc

omit [Platform] in
theorem healthy_markPublished (hT : ∃ tie, T tie) {id : Uuid}
    (hdone : Done inserts i records ids g₀ g) :
    Thrives T inserts (fun l g' _ => l = i ∧ Done inserts i records (ids ++ [id]) g₀ g') i g
      (markPublished id) := by
  unfold markPublished
  refine thrives_call hT fun g₁ ch hcalm hfault _ _ => ?_
  simp only [perform, hfault, Bool.false_eq_true, if_false]
  refine thrives_call hT fun g₂ ch₂ hcalm₂ hfault₂ _ _ => ?_
  simp only [perform, hfault₂, Bool.false_and, Bool.false_eq_true, if_false]
  exact ⟨rfl, ((hdone.calm hcalm).calm hcalm₂).mark⟩

/-- **Every routable event of a batch is produced and marked.** -/
theorem healthy_publish (hT : ∃ tie, T tie) {events : List OutboxRow} (hs : s.Sorted)
    (hdone : Done inserts i records ids g₀ g) :
    Thrives T inserts (fun l g' s' => l = i ∧ s'.Sorted ∧ s'.batchSize = s.batchSize ∧ ∃ more,
      List.Forall₂ Carries more (events.filter routable) ∧
        Done inserts i (records ++ more) (ids ++ (events.filter routable).map (·.id)) g₀ g') i g
      (publish s events) := by
  induction events generalizing g s records ids with
  | nil =>
    refine ⟨rfl, hs, rfl, [], .nil, ?_⟩
    rw [List.append_nil, List.filter_nil, List.map_nil, List.append_nil]
    exact hdone
  | cons event events ih =>
    unfold publish
    split
    · rename_i e he
      have hrout : routable event = false := by rw [routable, he]; rfl
      rw [List.filter_cons_of_neg (by simp [hrout])]
      exact ih hs hdone
    · rename_i topic htopic
      have hrout : routable event = true := by rw [routable, htopic]; rfl
      rw [List.filter_cons_of_pos hrout]
      refine thrives_call hT fun g₁ ch₁ hcalm₁ hfault₁ _ _ => ?_
      refine alone_bind.mpr ((healthy_partitionClient hT hs (hdone.calm hcalm₁)).mono ?_)
      rintro l g₂ r ⟨rfl, hdone₂, pc, s', rfl, rfl, hs', hsize⟩
      refine thrives_call hT fun g₃ ch₃ hcalm₃ hfault₃ _ _ => ?_
      refine thrives_call hT fun g₄ ch₄ hcalm₄ hfault₄ _ _ => ?_
      simp only [perform, hfault₄, Bool.false_eq_true, if_false]
      refine alone_bind.mpr ((healthy_markPublished hT
        ((hdone₂.calm hcalm₃).calm hcalm₄).acknowledge).mono ?_)
      rintro l g₅ r ⟨rfl, hdone₅⟩
      refine (ih hs' hdone₅).mono ?_
      rintro l g₆ s₆ ⟨rfl, hs₆, hsize₆, more, hcarries, hdone₆⟩
      rw [List.append_assoc, List.append_assoc] at hdone₆
      refine ⟨rfl, hs₆, hsize₆.trans hsize, _, .cons ?_ hcarries, hdone₆⟩
      exact ⟨rfl, htopic, rfl, rfl⟩

/-- Whatever failed before, a replica keeps only partition clients of their topics. -/
theorem sorted_of_round {rows : List StoredEvent} {clock : ℕ} {c : State}
    (hc : Reachable (machine inserts) (boot rows clock) c) {l : ℕ} {h : Hist} (ht : c.thread i = some ⟨l, round s, h⟩) : s.Sorted := by
  have hkeeping := keeping_thread hc ht
  -- in a round whose lock check fails it keeps them all
  have htick := (hkeeping c.glob trivial).2 .tick l c.glob ⟨rfl, { wake := .tick }, rfl⟩
  have hfail := (htick c.glob trivial).2 (.error .fault) l c.glob
    ⟨rfl, { fault := true }, by simp [perform]⟩
  exact hfail.1

/-- **A round that can take the lock produces and marks the routable events of a selection.** -/
theorem healthy_round (hT : ∃ tie, T tie) (hs : s.Sorted) (hsize : 0 ≤ s.batchSize)
    (hopen : g.connected i = true) (hfree : g.leader = none ∨ g.leader = some i) :
    Thrives T inserts (fun l g' a => l = i ∧ ∃ s' g₁ tie records,
      (a = .next s' ∧ s'.Sorted ∧ s'.batchSize = s.batchSize) ∧ T tie ∧
      Grown inserts g.rows g₁.rows ∧ Done inserts i [] [] g g₁ ∧
      List.Forall₂ Carries records ((selected tie s.batchSize g₁.rows).filter routable) ∧
      Done inserts i records (((selected tie s.batchSize g₁.rows).filter routable).map (·.id)) g₁ g')
      i g (round s) := by
  refine thrives_call hT fun g₁ ch₁ hcalm₁ _ hwake₁ _ => ?_
  simp only [perform, hwake₁]
  refine thrives_call hT fun g₂ ch₂ hcalm₂ hfault₂ _ _ => ?_
  have hcalm : Calm inserts g g₂ := hcalm₁.trans hcalm₂
  have hlead := hcalm.lead hopen
  have hgrown := hcalm.grown
  obtain ⟨new, clock, rfl, -⟩ := hcalm.frame
  simp only [perform, hopen, hfault₂, Bool.not_true, Bool.false_and, Bool.or_false, Bool.false_eq_true,
    if_false, if_pos hfree]
  refine alone_bind.mpr (thrives_call hT fun g₃ ch₃ hcalm₃ hfault₃ _ _ => ?_)
  simp only [perform, hfault₃, Bool.false_eq_true, if_false]
  refine thrives_call hT fun g₄ ch₄ hcalm₄ hfault₄ _ htie => ?_
  have hfetch := (hlead.calm hcalm₃).calm hcalm₄
  have hgrown₄ := (hgrown.trans hcalm₃.grown).trans hcalm₄.grown
  have hbad : ¬ (false || decide (s.batchSize < 0)) = true := by simp [hsize]
  simp only [perform, hfault₄, if_neg hbad]
  have hstart : Done inserts i [] [] g₄ g₄ := (calm_refl g₄).done hfetch.connected hfetch.leader
  refine alone_bind.mpr ((healthy_publish (s := { s with isLeader := true }) hT hs hstart).mono ?_)
  rintro l g₅ s' ⟨rfl, hs', hsize', records, hcarries, hdone⟩
  exact ⟨rfl, s', g₄, ch₄.tie, records, ⟨rfl, hs', hsize'⟩, htie, hgrown₄, hfetch, hcarries, hdone⟩

/-- The event was produced and marked between the two worlds. -/
structure Delivered (g g' : World) (e : OutboxRow) : Prop where
  produced : ∃ records, g'.acked = g.acked ++ records ∧ ∃ a ∈ records, Carries a e
  marked : ∃ row ∈ g'.rows, row.toOutboxRow = e ∧ row.publishedAt ≠ none

/-- What was produced and marked was delivered. -/
theorem Done.delivered {es : List OutboxRow} (h : Done inserts i records (es.map (·.id)) g g')
    (hcarries : List.Forall₂ Carries records es) {e : StoredEvent} (he : e ∈ g.rows)
    (hes : e.toOutboxRow ∈ es) : Delivered g g' e.toOutboxRow := by
  constructor
  · obtain ⟨n, hn, hget⟩ := List.mem_iff_getElem.mp hes
    have hn' : n < records.length := hcarries.length_eq ▸ hn
    have hcarry : Carries records[n] es[n] := hcarries.get hn' hn
    rw [hget] at hcarry
    exact ⟨records, h.acked, records[n], List.getElem_mem hn', hcarry⟩
  · obtain ⟨p, hp, -⟩ := h.later.rows e he
    refine ⟨_, hp, rfl, fun hnone => ?_⟩
    obtain ⟨new, hunpublished, hnew⟩ := h.unpublished
    have hmem := mem_unpublished.mpr ⟨hp, hnone⟩
    rw [hunpublished] at hmem
    rcases List.mem_append.mp hmem with hmem | hmem
    · exact of_decide_eq_true (List.mem_filter.mp hmem).2 (List.mem_map_of_mem hes)
    · exact (hnew _ hmem).2 (List.mem_map.mpr ⟨e, he, rfl⟩)

/-- **A round without the lock connection, or without a batch size, does nothing.** -/
theorem healthy_idle (hT : ∃ tie, T tie)
    (hidle : g.connected i = false ∨ s.batchSize ≤ 0) :
    Thrives T inserts (fun _ g' _ => Untouched g g') i g (round s) := by
  have hstart : Untouched g g := ⟨rfl, List.Subset.refl _⟩
  refine thrives_call hT fun g₁ ch₁ hcalm₁ _ hwake₁ _ => ?_
  simp only [perform, hwake₁]
  refine thrives_call hT fun g₂ ch₂ hcalm₂ hfault₂ _ _ => ?_
  have hcalm : Calm inserts g g₂ := hcalm₁.trans hcalm₂
  have huntouched := hstart.calm hcalm
  obtain ⟨new, clock, rfl, -⟩ := hcalm.frame
  simp only [perform, hfault₂, Bool.false_and, Bool.or_false, Bool.false_eq_true, if_false]
  rcases hidle with hclosed | hsize
  · simp only [hclosed, Bool.not_false, if_true]
    exact huntouched
  · split_ifs
    · exact huntouched
    · -- the lock is taken, and nothing is selected
      refine alone_bind.mpr (thrives_call hT fun g₃ ch₃ hcalm₃ hfault₃ _ _ => ?_)
      simp only [perform, hfault₃, Bool.false_eq_true, if_false]
      refine thrives_call hT fun g₄ ch₄ hcalm₄ hfault₄ _ htie => ?_
      have hnone : selected ch₄.tie s.batchSize g₄.rows = [] := by
        rw [selected, Int.toNat_of_nonpos hsize, List.take_zero, List.map_nil]
      have hlocked : Untouched g { g with rows := g.rows ++ new, clock, leader := some i } :=
        ⟨huntouched.acked, huntouched.unpublished⟩
      simp only [perform, hnone]
      split_ifs <;> exact (hlocked.calm hcalm₃).calm hcalm₄
    · exact huntouched

end Round

end Outbox
