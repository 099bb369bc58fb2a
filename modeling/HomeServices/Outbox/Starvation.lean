import HomeServices.Outbox.Execution
import HomeServices.Outbox.Rounds

/-!
# Rows without a topic

A row whose type has no topic is skipped, never marked, and selected again by every later round. As
long as fewer of them than a batch holds are older than a routable row, that row is published.

* `obstructing`: the unpublished rows without a topic that are not newer than a row.
* `reached`: with few of them, a selection holds a routable row; `Adverse`, `unreached`: an order of
  the rows of one time in which, with many of them, it does not hold that row.
* `rounds`: rounds one after the other.
* **`drains`**: with few obstructing rows, finitely many rounds publish every routable row.
* **`starvation_free_iff`**: and with many, they do not; `starved`: a table in which they do not.
-/

namespace Outbox

open Interaction
open Identity (Bytes Uuid OutboxRow StoredEvent Platform)

/-- The unpublished rows without a topic that are not newer than `e`. -/
def obstructing (rows : List StoredEvent) (e : StoredEvent) : List StoredEvent :=
  (unpublished rows).filter fun u => !routable u.toOutboxRow && decide (u.createdAt ≤ e.createdAt)

/-! ## Selections -/

/-- What is left out of a prefix of a sorted list comes after a full prefix. -/
theorem full_of_not_mem_take {α : Type} {r : α → α → Prop} {l : List α} (hl : l.Pairwise r) {n : ℕ}
    {x : α} (hx : x ∈ l) (hnot : x ∉ l.take n) : (l.take n).length = n ∧ ∀ y ∈ l.take n, r y x := by
  rw [← List.take_append_drop n l] at hl hx
  have hdrop : x ∈ l.drop n := (List.mem_append.mp hx).resolve_left hnot
  refine ⟨?_, fun y hy => (List.pairwise_append.mp hl).2.2 y hy x hdrop⟩
  have hpos : 0 < (l.drop n).length := List.length_pos_of_mem hdrop
  rw [List.length_drop] at hpos
  rw [List.length_take]
  omega

/-- What does not come after an element of a prefix is within the prefix. -/
theorem length_filter_lt_of_mem_take {α : Type} {r : α → α → Prop} {l : List α} (hl : l.Pairwise r)
    {n : ℕ} {x : α} (hx : x ∈ l.take n) {p : α → Bool}
    (hp : ∀ y ∈ l, p y = true → y ≠ x ∧ ¬ r x y) :
    (l.filter p).length < n := by
  obtain ⟨pre, post, htake⟩ := List.append_of_mem hx
  have hsplit : l = pre ++ x :: (post ++ l.drop n) := by
    rw [← List.cons_append, ← List.append_assoc, ← htake, List.take_append_drop]
  have hafter : ∀ y ∈ x :: (post ++ l.drop n), ¬ p y = true := by
    intro y hy hpy
    have hmem : y ∈ l := hsplit ▸ List.mem_append_right _ hy
    rw [hsplit] at hl
    rcases List.mem_cons.mp hy with rfl | hy
    · exact (hp _ hmem hpy).1 rfl
    · exact (hp y hmem hpy).2 ((List.pairwise_cons.mp (List.pairwise_append.mp hl).2.1).1 y hy)
  have hfilter : l.filter p = pre.filter p := by
    rw [hsplit, List.filter_append, List.filter_eq_nil_iff.mpr hafter, List.append_nil]
  have hlength : (l.take n).length ≤ n := List.length_take_le ..
  rw [htake, List.length_append, List.length_cons] at hlength
  rw [hfilter]
  have hle := List.length_filter_le p pre
  omega

/-- A filter that drops an element counts fewer. -/
theorem countP_filter_lt {α : Type} {p q : α → Bool} {l : List α} {x : α} (hx : x ∈ l) (hq : q x = true)
    (hp : p x = false) : (l.filter p).countP q < l.countP q := by
  have hsub : ((l.filter p).filter q).Sublist (l.filter q) := List.filter_sublist.filter q
  rw [List.countP_eq_length_filter, List.countP_eq_length_filter]
  refine Nat.lt_of_le_of_ne hsub.length_le fun heq => ?_
  have hmem : x ∈ (l.filter p).filter q := by
    rw [hsub.eq_of_length heq]
    exact List.mem_filter.mpr ⟨hx, hq⟩
  have hkept := (List.mem_filter.mp (List.mem_filter.mp hmem).1).2
  rw [hp] at hkept
  cases hkept

theorem sorted_oldestFirst (tie : Uuid → ℕ) (rows : List StoredEvent) :
    (oldestFirst tie rows).Pairwise (Before tie) :=
  List.pairwise_insertionSort (Before tie) rows

theorem perm_oldestFirst (tie : Uuid → ℕ) (rows : List StoredEvent) : (oldestFirst tie rows).Perm rows :=
  List.perm_insertionSort (Before tie) rows

/-- **With few obstructing rows, every selection holds a routable row.** -/
theorem reached {t : Uuid → ℕ} {batchSize : ℤ} {rows : List StoredEvent} {e : StoredEvent}
    (he : e ∈ unpublished rows) (hrout : routable e.toOutboxRow = true)
    (hfew : ((obstructing rows e).length : ℤ) < batchSize) :
    ∃ e' ∈ unpublished rows, routable e'.toOutboxRow = true ∧
      e'.toOutboxRow ∈ selected t batchSize rows := by
  by_contra hnone
  push Not at hnone
  have hperm := perm_oldestFirst t (unpublished rows)
  have hunroutable : ∀ u ∈ (oldestFirst t (unpublished rows)).take batchSize.toNat,
      ¬ routable u.toOutboxRow = true := fun u hu hr =>
    hnone u (hperm.subset (List.mem_of_mem_take hu)) hr (List.mem_map_of_mem hu)
  have hnot : e ∉ (oldestFirst t (unpublished rows)).take batchSize.toNat := fun h =>
    hunroutable e h hrout
  obtain ⟨hfull, hbefore⟩ := full_of_not_mem_take (sorted_oldestFirst t _)
    (hperm.mem_iff.mpr he) hnot
  -- a full batch of obstructing rows
  have hall : ∀ u ∈ (oldestFirst t (unpublished rows)).take batchSize.toNat,
      (!routable u.toOutboxRow && decide (u.createdAt ≤ e.createdAt)) = true := fun u hu => by
    have hle : u.createdAt ≤ e.createdAt := by
      rcases hbefore u hu with hlt | ⟨heq, -⟩
      · exact Nat.le_of_lt hlt
      · exact Nat.le_of_eq heq
    simp [hunroutable u hu, hle]
  have hsub : ((oldestFirst t (unpublished rows)).take batchSize.toNat).Sublist
      ((oldestFirst t (unpublished rows)).filter
        fun u => !routable u.toOutboxRow && decide (u.createdAt ≤ e.createdAt)) := by
    rw [← List.filter_eq_self.mpr hall]
    exact (List.take_sublist _ _).filter _
  have hlength := hsub.length_le
  rw [hfull, (hperm.filter _).length_eq] at hlength
  have hobstructing : batchSize.toNat ≤ (obstructing rows e).length := hlength
  omega

/-- The order puts rows without a topic before routable ones of the same time. -/
def Adverse (tie : Uuid → ℕ) (rows : List StoredEvent) : Prop :=
  ∀ u ∈ unpublished rows, tie u.id = if routable u.toOutboxRow then 1 else 0

/-- **With many obstructing rows, a selection in that order does not hold the row.** -/
theorem unreached {tie : Uuid → ℕ} {batchSize : ℤ} {rows : List StoredEvent} {e : StoredEvent}
    (hadverse : Adverse tie rows) (he : e ∈ unpublished rows) (hrout : routable e.toOutboxRow = true)
    (hmany : batchSize ≤ (obstructing rows e).length) (hsize : 1 ≤ batchSize) :
    e.toOutboxRow ∉ selected tie batchSize rows := by
  intro hsel
  have hperm := perm_oldestFirst tie (unpublished rows)
  obtain ⟨e', he', heq⟩ := List.mem_map.mp hsel
  have hunpublished := hperm.subset (List.mem_of_mem_take he')
  obtain rfl : e' = e := by
    obtain ⟨row, pub⟩ := e
    obtain ⟨row', pub'⟩ := e'
    cases (mem_unpublished.mp he).2
    cases (mem_unpublished.mp hunpublished).2
    cases heq
    rfl
  have hlt : ((oldestFirst tie (unpublished rows)).filter
      fun u => !routable u.toOutboxRow && decide (u.createdAt ≤ e'.createdAt)).length < batchSize.toNat := by
    refine length_filter_lt_of_mem_take (sorted_oldestFirst tie _) he' fun u hu hpu => ?_
    obtain ⟨hunroutable, hle⟩ := Bool.and_eq_true_iff.mp hpu
    have hunroutable : routable u.toOutboxRow = false := by simpa using hunroutable
    have hle : u.createdAt ≤ e'.createdAt := of_decide_eq_true hle
    refine ⟨fun h => ?_, fun hbefore => ?_⟩
    · rw [h, hrout] at hunroutable
      cases hunroutable
    · have htie := hadverse u (hperm.subset hu)
      have htie' := hadverse e' he
      rw [hunroutable] at htie
      rw [hrout] at htie'
      simp only [Bool.false_eq_true, if_false, if_true] at htie htie'
      unfold Before at hbefore
      omega
  rw [(hperm.filter _).length_eq] at hlt
  have hobstructing : (obstructing rows e').length < batchSize.toNat := hlt
  omega

/-! ## Rounds -/

/-- `n` rounds, one after the other. -/
def rounds [Platform] : ℕ → Loop → Prog Op Resp Outcome
  | 0, s => .ret (.next s)
  | n + 1, s => (round s).bind fun
    | .next s => rounds n s
    | a => .ret a

section Rounds

variable [Platform] {T : (Uuid → ℕ) → Prop} {i : ℕ} {g g' g'' : World} {s : Loop}

theorem Delivered.later {e : OutboxRow} (h : Delivered g g' e) (hlater : Later g' g'') :
    Delivered g g'' e := by
  obtain ⟨⟨records, hacked, a, ha, hcarries⟩, row, hrow, rfl, hpub⟩ := h
  obtain ⟨more, hmore⟩ := hlater.acked
  obtain ⟨p, hp, hpub'⟩ := hlater.rows row hrow
  refine ⟨⟨records ++ more, ?_, a, List.mem_append_left _ ha, hcarries⟩, _, hp, rfl, hpub' hpub⟩
  rw [← hmore, hacked, List.append_assoc]

theorem Delivered.earlier {e : OutboxRow} (hlater : Later g g') (h : Delivered g' g'' e) :
    Delivered g g'' e := by
  obtain ⟨⟨records, hacked, a, ha, hcarries⟩, hmarked⟩ := h
  obtain ⟨more, hmore⟩ := hlater.acked
  refine ⟨⟨more ++ records, ?_, a, List.mem_append_right _ ha, hcarries⟩, hmarked⟩
  rw [hacked, ← hmore, List.append_assoc]

/-- A round, beside which nothing is inserted: the unpublished rows are those before it without the
routable ones of a selection. -/
theorem still_round (hT : ∃ tie, T tie) (hs : s.Sorted) (hsize : 0 ≤ s.batchSize)
    (hopen : g.connected i = true) (hfree : g.leader = none ∨ g.leader = some i) :
    Thrives T (fun _ => False) (fun l g' a => l = i ∧ ∃ s' tie records,
      (a = .next s' ∧ s'.Sorted ∧ s'.batchSize = s.batchSize) ∧ T tie ∧
      List.Forall₂ Carries records ((selected tie s.batchSize g.rows).filter routable) ∧
      Done (fun _ => False) i records (((selected tie s.batchSize g.rows).filter routable).map (·.id)) g g' ∧
      unpublished g'.rows = (unpublished g.rows).filter
        fun e => e.id ∉ ((selected tie s.batchSize g.rows).filter routable).map (·.id))
      i g (round s) := by
  refine (healthy_round hT hs hsize hopen hfree).mono ?_
  rintro l g' a ⟨hl, s', g₁, tie, records, ha, htie, hgrown, hbefore, hcarries, hdone⟩
  obtain ⟨new, hrows, hnew, -⟩ := hgrown
  obtain rfl : new = [] := List.eq_nil_iff_forall_not_mem.mpr fun e he => (hnew e he).2.1
  rw [List.append_nil] at hrows
  rw [hrows] at hcarries hdone
  have hboth := hbefore.trans hdone
  rw [List.nil_append, List.nil_append] at hboth
  obtain ⟨new, hunpublished, hnew⟩ := hboth.unpublished
  obtain rfl : new = [] := List.eq_nil_iff_forall_not_mem.mpr fun e he => (hnew e he).1
  rw [List.append_nil] at hunpublished
  exact ⟨hl, s', tie, records, ha, htie, hcarries, hboth, hunpublished⟩

/-- A routable row is delivered, if there is one. -/
def Progress (g g' : World) : Prop :=
  (∃ e ∈ unpublished g.rows, routable e.toOutboxRow = true) →
    ∃ e ∈ unpublished g.rows, routable e.toOutboxRow = true ∧ Delivered g g' e.toOutboxRow

/-- Every routable row is delivered. -/
def Drained (g g' : World) : Prop :=
  ∀ e ∈ unpublished g.rows, routable e.toOutboxRow = true → Delivered g g' e.toOutboxRow

omit [Platform] in
theorem selected_routable {tie : Uuid → ℕ} {batchSize : ℤ} {rows : List StoredEvent} {e : OutboxRow}
    (he : e ∈ (selected tie batchSize rows).filter routable) :
    ∃ row ∈ unpublished rows, routable row.toOutboxRow = true ∧ row.toOutboxRow = e := by
  obtain ⟨he, hrout⟩ := List.mem_filter.mp he
  obtain ⟨row, hrow, hpub, rfl⟩ := selected_sub he
  exact ⟨row, mem_unpublished.mpr ⟨hrow, hpub⟩, hrout, rfl⟩

theorem progress_of_few (hs : s.Sorted) (hsize : 0 ≤ s.batchSize) (hopen : g.connected i = true)
    (hfree : g.leader = none ∨ g.leader = some i) {e : StoredEvent} (he : e ∈ unpublished g.rows)
    (hrout : routable e.toOutboxRow = true) (hfew : ((obstructing g.rows e).length : ℤ) < s.batchSize) :
    Thrives (fun _ => True) (fun _ => False) (fun _ g' _ => Progress g g') i g (round s) := by
  refine (still_round ⟨fun _ => 0, trivial⟩ hs hsize hopen hfree).mono ?_
  rintro l g' a ⟨-, s', tie, records, -, -, hcarries, hdone, -⟩ -
  obtain ⟨e', he', hrout', hsel⟩ := reached (t := tie) he hrout hfew
  exact ⟨e', he', hrout', hdone.delivered hcarries (mem_unpublished.mp he').1
    (List.mem_filter.mpr ⟨hsel, hrout'⟩)⟩

/-- A round whose selection holds no routable row makes no progress. -/
theorem few_of_progress (hs : s.Sorted) (hsize : 1 ≤ s.batchSize) (hopen : g.connected i = true)
    (hfree : g.leader = none ∨ g.leader = some i) {tie : Uuid → ℕ} (hadverse : Adverse tie g.rows)
    (hprogress : Thrives (fun t => t = tie) (fun _ => False) (fun _ g' _ => Progress g g') i g (round s))
    (hsome : ∃ e ∈ unpublished g.rows, routable e.toOutboxRow = true) :
    ∃ e ∈ unpublished g.rows, routable e.toOutboxRow = true ∧
      ((obstructing g.rows e).length : ℤ) < s.batchSize := by
  by_contra hmany
  push Not at hmany
  obtain ⟨l, g', a, hdelivers, -, s', tie', records, -, rfl, hcarries, hdone, -⟩ :=
    hprogress.meet calm_refl (still_round ⟨tie, rfl⟩ hs (by omega) hopen hfree)
  have hnone : (selected tie' s.batchSize g.rows).filter routable = [] := by
    refine List.eq_nil_iff_forall_not_mem.mpr fun e he => ?_
    obtain ⟨row, hrow, hrout, rfl⟩ := selected_routable he
    exact unreached hadverse hrow hrout (hmany row hrow hrout) hsize (List.mem_filter.mp he).1
  rw [hnone] at hcarries
  cases hcarries
  obtain ⟨e, -, -, ⟨records, hacked, a, ha, -⟩, -⟩ := hdelivers hsome
  rw [hdone.acked, List.append_nil] at hacked
  rw [List.self_eq_append_right.mp hacked] at ha
  cases ha

/-- **With few obstructing rows, as many rounds as there are routable rows publish them all.** -/
theorem drains (hrows : (g.rows.map (·.id)).Nodup) (hs : s.Sorted) (hsize : 0 ≤ s.batchSize) (hopen : g.connected i = true)
    (hfree : g.leader = none ∨ g.leader = some i) {n : ℕ}
    (hn : (unpublished g.rows).countP (fun e => routable e.toOutboxRow) ≤ n)
    (hfew : ∀ e ∈ unpublished g.rows, routable e.toOutboxRow = true →
      ((obstructing g.rows e).length : ℤ) < s.batchSize) :
    Thrives (fun _ => True) (fun _ => False) (fun _ g' _ => Later g g' ∧ Drained g g') i g (rounds n s) := by
  induction n generalizing g s with
  | zero =>
    refine ⟨later_refl g, fun e he hrout => ?_⟩
    have hpos := List.countP_pos_iff (p := fun e : StoredEvent => routable e.toOutboxRow).mpr ⟨e, he, hrout⟩
    omega
  | succ n ih =>
    refine alone_bind.mpr ((still_round ⟨fun _ => 0, trivial⟩ hs hsize hopen hfree).mono ?_)
    rintro l g' a ⟨rfl, s', tie, records, ⟨rfl, hs', hsize'⟩, -, hcarries, hdone, hunpublished⟩
    have hsub : (unpublished g'.rows).Sublist (unpublished g.rows) := hunpublished ▸ List.filter_sublist
    have hn' : (unpublished g'.rows).countP (fun e => routable e.toOutboxRow) ≤ n := by
      by_cases hsome : ∃ e ∈ unpublished g.rows, routable e.toOutboxRow = true
      · -- a routable row was selected
        obtain ⟨e, he, hrout⟩ := hsome
        obtain ⟨e', he', hrout', hsel⟩ := reached (t := tie) he hrout (hfew e he hrout)
        have hmem : e'.id ∈ ((selected tie s.batchSize g.rows).filter routable).map (·.id) :=
          List.mem_map.mpr ⟨_, List.mem_filter.mpr ⟨hsel, hrout'⟩, rfl⟩
        have hlt := countP_filter_lt (q := fun e : StoredEvent => routable e.toOutboxRow) he' hrout'
          (p := fun e => e.id ∉ ((selected tie s.batchSize g.rows).filter routable).map (·.id))
          (decide_eq_false fun h => h hmem)
        rw [hunpublished]
        omega
      · have hzero : (unpublished g.rows).countP (fun e => routable e.toOutboxRow) = 0 :=
          List.countP_eq_zero.mpr fun e he hrout => hsome ⟨e, he, hrout⟩
        have hle := hsub.countP_le (p := fun e => routable e.toOutboxRow)
        omega
    have hfew' : ∀ e ∈ unpublished g'.rows, routable e.toOutboxRow = true →
        ((obstructing g'.rows e).length : ℤ) < s'.batchSize := fun e he hrout => by
      have hle := (hsub.filter fun u => !routable u.toOutboxRow && decide (u.createdAt ≤ e.createdAt)).length_le
      have hfew := hfew e (hsub.subset he) hrout
      rw [hsize']
      unfold obstructing at hfew ⊢
      omega
    refine (ih (hdone.nodup hrows) hs' (by omega) hdone.connected (Or.inr hdone.leader) hn' hfew').mono ?_
    rintro l₂ g₂ a₂ ⟨hlater, hdrained⟩
    refine ⟨hdone.later.trans hlater, fun e he hrout => ?_⟩
    by_cases hsel : e.id ∈ ((selected tie s.batchSize g.rows).filter routable).map (·.id)
    · -- the row selected under that id is the row
      obtain ⟨e', he', hid⟩ := List.mem_map.mp hsel
      obtain ⟨row, hrow, -, rfl⟩ := selected_routable he'
      obtain rfl := row_unique hrows (mem_unpublished.mp hrow).1 (mem_unpublished.mp he).1 hid
      exact (hdone.delivered hcarries (mem_unpublished.mp he).1 he').later hlater
    · refine (hdrained e ?_ hrout).earlier hdone.later
      rw [hunpublished]
      exact List.mem_filter.mpr ⟨he, decide_eq_true hsel⟩

/-- **With many obstructing rows, in that order no number of rounds publishes the row.** -/
theorem starves (hrows : (g.rows.map (·.id)).Nodup) (hs : s.Sorted) (hsize : 1 ≤ s.batchSize)
    (hopen : g.connected i = true) (hfree : g.leader = none ∨ g.leader = some i) {tie : Uuid → ℕ}
    (hadverse : Adverse tie g.rows) {e : StoredEvent} (he : e ∈ unpublished g.rows)
    (hrout : routable e.toOutboxRow = true) (hmany : s.batchSize ≤ (obstructing g.rows e).length) (n : ℕ) :
    Thrives (fun t => t = tie) (fun _ => False)
      (fun _ g' _ => (g'.rows.map (·.id)).Nodup ∧ e ∈ unpublished g'.rows) i g (rounds n s) := by
  induction n generalizing g s with
  | zero => exact ⟨hrows, he⟩
  | succ n ih =>
    have hround := still_round (T := fun t => t = tie) ⟨tie, rfl⟩ hs (by omega) hopen hfree
    refine alone_bind.mpr (hround.mono ?_)
    rintro l g' a ⟨rfl, s', tie', records, ⟨rfl, hs', hsize'⟩, rfl, -, hdone, hunpublished⟩
    -- rows that are not selected, or have no topic, stay unpublished
    have hstays : ∀ u ∈ unpublished g.rows, (routable u.toOutboxRow = true →
        u.toOutboxRow ∉ selected tie' s.batchSize g.rows) → u ∈ unpublished g'.rows := fun u hu hnot => by
      rw [hunpublished]
      refine List.mem_filter.mpr ⟨hu, decide_eq_true fun hid => ?_⟩
      obtain ⟨u', hu', hid⟩ := List.mem_map.mp hid
      obtain ⟨row, hrow, hrout', rfl⟩ := selected_routable hu'
      obtain rfl := row_unique hrows (mem_unpublished.mp hrow).1 (mem_unpublished.mp hu).1 hid
      exact hnot hrout' (List.mem_filter.mp hu').1
    have hobstructing : obstructing g'.rows e = obstructing g.rows e := by
      unfold obstructing
      rw [hunpublished, List.filter_filter]
      refine List.filter_congr fun u hu => ?_
      cases hr : routable u.toOutboxRow with
      | true => simp
      | false =>
        have hu' := hstays u hu fun h => by rw [hr] at h; cases h
        rw [hunpublished] at hu'
        rw [(List.mem_filter.mp hu').2, Bool.and_true]
    have hmany' : s'.batchSize ≤ (obstructing g'.rows e).length := by rw [hobstructing, hsize']; exact hmany
    have hsub : unpublished g'.rows ⊆ unpublished g.rows := hunpublished ▸ List.filter_subset_self _
    exact ih (hdone.nodup hrows) hs' (by omega) hdone.connected (Or.inr hdone.leader)
      (fun u hu => hadverse u (hsub hu)) (hstays e he fun _ => unreached hadverse he hrout hmany hsize) hmany'

omit [Platform] in
/-- Rows of one time may come in an adverse order. -/
theorem exists_adverse {rows : List StoredEvent} (hrows : (rows.map (·.id)).Nodup) :
    ∃ tie, Adverse tie rows := by
  refine ⟨fun id => if ∃ u ∈ rows, u.id = id ∧ routable u.toOutboxRow = true then 1 else 0, fun u hu => ?_⟩
  have hmem := (mem_unpublished.mp hu).1
  refine if_congr ⟨?_, fun hrout => ⟨u, hmem, rfl, hrout⟩⟩ rfl rfl
  rintro ⟨u', hu', hid, hrout⟩
  rwa [row_unique hrows hu' hmem hid] at hrout

omit [Platform] in
theorem healthy_weaken {tie : Uuid → ℕ} {α : Type} {Q : ℕ → World → α → Prop} {p : Prog Op Resp α}
    (h : Thrives (fun _ => True) (fun _ => False) Q i g p) :
    Thrives (fun t => t = tie) (fun _ => False) Q i g p := by
  refine h.weaken (fun o l g r l' g' ⟨hl, ch, hfault, hwake, _, hp⟩ => ⟨hl, ch, hfault, hwake, trivial, hp⟩) ?_
  exact fun o l g => ⟨_, _, _, rfl, { fault := false, wake := .tick, tie }, rfl, rfl, rfl, rfl⟩

variable {inserts : StoredEvent → Prop} {rows : List StoredEvent} {clock : ℕ} {c : State}

/-- **A fault-free round that holds the lock publishes a routable row, if there is one, if and only if
fewer rows without a topic than a batch holds are not newer than some routable row; and finitely many
such rounds publish every routable row if and only if this is so for every routable row.** -/
theorem starvation_free_iff (hrows : (rows.map (·.id)).Nodup)
    (hc : Reachable (machine inserts) (boot rows clock) c) {l : ℕ} {h : Hist}
    (ht : c.thread i = some ⟨l, round s, h⟩) (hopen : c.glob.connected i = true)
    (hfree : c.glob.leader = none ∨ c.glob.leader = some i) (hsize : 1 ≤ s.batchSize) :
    (Thrives (fun _ => True) (fun _ => False) (fun _ g' _ => Progress c.glob g') i c.glob (round s) ↔
      ((∃ e ∈ unpublished c.glob.rows, routable e.toOutboxRow = true) →
        ∃ e ∈ unpublished c.glob.rows, routable e.toOutboxRow = true ∧
          ((obstructing c.glob.rows e).length : ℤ) < s.batchSize)) ∧
    ((∃ n, Thrives (fun _ => True) (fun _ => False) (fun _ g' _ => Drained c.glob g') i c.glob (rounds n s)) ↔
      ∀ e ∈ unpublished c.glob.rows, routable e.toOutboxRow = true →
        ((obstructing c.glob.rows e).length : ℤ) < s.batchSize) := by
  have hnodup := nodup_reachable hrows hc
  have hsorted := sorted_of_round hc ht
  obtain ⟨tie, hadverse⟩ := exists_adverse hnodup
  refine ⟨⟨fun hprogress hsome => ?_, fun hfew => ?_⟩, ⟨fun ⟨n, hdrained⟩ e he hrout => ?_, fun hfew => ?_⟩⟩
  · exact few_of_progress hsorted hsize hopen hfree hadverse (healthy_weaken hprogress) hsome
  · by_cases hsome : ∃ e ∈ unpublished c.glob.rows, routable e.toOutboxRow = true
    · obtain ⟨e, he, hrout, hfew⟩ := hfew hsome
      exact progress_of_few hsorted (by omega) hopen hfree he hrout hfew
    · have hround := still_round (T := fun _ => True) ⟨fun _ => 0, trivial⟩ hsorted (by omega) hopen hfree
      exact hround.mono fun _ _ _ _ hsome' => (hsome hsome').elim
  · by_contra hmany
    obtain ⟨l, g', a, hdrained, hnodup', he'⟩ := (healthy_weaken hdrained).meet calm_refl
      (starves hnodup hsorted hsize hopen hfree hadverse he hrout (not_lt.mp hmany) n)
    obtain ⟨-, row, hrow, hid, hpub⟩ := hdrained e he hrout
    obtain rfl := row_unique hnodup' hrow (mem_unpublished.mp he').1 (congrArg OutboxRow.id hid)
    exact hpub (mem_unpublished.mp he').2
  · exact ⟨_, (drains hnodup hsorted (by omega) hopen hfree (Nat.le_refl _) hfew).mono fun _ _ _ h => h.2⟩

end Rounds

open Sample
open scoped Identity.Sample

def singly : Loop := { batchSize := 1, isLeader := false, partitionClients := [] }

/-- A row of the given type, and a newer routable one. -/
def twoRows (eventType : String) : List StoredEvent := [event 1 eventType 9 0, event 2 "auth_email" 9 1]

/-- **A row without a topic keeps a newer routable one from being published.** -/
theorem starved : ∃ c l h, Reachable (machine fun _ => True) (boot (twoRows "user_deleted") 1) c ∧
    c.thread 0 = some ⟨l, round singly, h⟩ ∧ c.glob.connected 0 = true ∧ c.glob.leader = none ∧
    1 ≤ singly.batchSize ∧ (∃ e ∈ unpublished c.glob.rows, routable e.toOutboxRow = true) ∧
    ¬ Thrives (fun _ => True) (fun _ => False) (fun _ g' _ => Progress c.glob g') 0 c.glob (round singly) := by
  obtain ⟨c, hexec, l, h, ht, hopen, hfree, hnodup, hsome, hmany⟩ :
      ∃ c, driver.execute (boot (twoRows "user_deleted") 1) (start 0 1) = some c ∧
        ∃ l h, c.thread 0 = some ⟨l, round singly, h⟩ ∧ c.glob.connected 0 = true ∧ c.glob.leader = none ∧
          (c.glob.rows.map (·.id)).Nodup ∧
          (∃ e ∈ unpublished c.glob.rows, routable e.toOutboxRow = true) ∧
          ∀ e ∈ unpublished c.glob.rows, routable e.toOutboxRow = true →
            ¬ ((obstructing c.glob.rows e).length : ℤ) < singly.batchSize :=
    ⟨_, rfl, _, _, rfl, rfl, rfl, by decide, by decide, by decide⟩
  have hc := Driver.reachable hexec
  refine ⟨c, l, h, hc, ht, hopen, hfree, by decide, hsome, fun hprogress => ?_⟩
  obtain ⟨tie, hadverse⟩ := exists_adverse hnodup
  obtain ⟨e, he, hrout, hfew⟩ := few_of_progress (sorted_of_round hc ht) (by decide) hopen (Or.inl hfree)
    hadverse (healthy_weaken hprogress) hsome
  exact hmany e he hrout hfew

theorem starvation_free_iff_twoRows : ∃ c l h,
    Reachable (machine fun _ => True) (boot (twoRows "auth_email") 1) c ∧
    c.thread 0 = some ⟨l, round singly, h⟩ ∧ (unpublished c.glob.rows).length = 2 ∧
    ∃ n, Thrives (fun _ => True) (fun _ => False) (fun _ g' _ => Drained c.glob g') 0 c.glob (rounds n singly) := by
  obtain ⟨c, hexec, l, h, ht, hopen, hfree, hlength, hfew⟩ :
      ∃ c, driver.execute (boot (twoRows "auth_email") 1) (start 0 1) = some c ∧
        ∃ l h, c.thread 0 = some ⟨l, round singly, h⟩ ∧ c.glob.connected 0 = true ∧ c.glob.leader = none ∧
          (unpublished c.glob.rows).length = 2 ∧
          ∀ e ∈ unpublished c.glob.rows, routable e.toOutboxRow = true →
            ((obstructing c.glob.rows e).length : ℤ) < singly.batchSize :=
    ⟨_, rfl, _, _, rfl, rfl, rfl, by decide, by decide⟩
  refine ⟨c, l, h, Driver.reachable hexec, ht, hlength, ?_⟩
  have hnodup : ((twoRows "auth_email").map (·.id)).Nodup := by decide
  exact (starvation_free_iff hnodup (Driver.reachable hexec) ht hopen (Or.inl hfree) (by decide)).2.mpr hfew

end Outbox
