import Mathlib.Data.Set.Card
import HomeServices.Concurrent.Protocol
import HomeServices.Outbox.Leadership

/-!
# What duplicates cost

An event may be produced more than once. Each production but one is paid for: by a produce or a mark of the
event that failed, or by a lock connection that was lost in the middle of a batch.

* `due`, `Awaits`, `prompt_round`: an event that was acknowledged is marked next.
* `Lapse`, `lapses`: the failures that concern an event; `Losing`: runs, by the lock connections lost.
* `owing`, `Open`, `Paid`, **`paid_step`**: what is paid for, and what is still to come.
* **`duplicates_paid`**: the bound; `duplicates_paid_unmarked`: an event that is produced twice.
-/

namespace Outbox

open Interaction
open Identity (Bytes Uuid PgError OutboxError OutboxRow StoredEvent Platform)

/-! ## An event that is to be marked -/

/-- The event that was acknowledged last, until the replica has tried to mark it. -/
def due : Hist → Option Uuid
  | ⟨.produce _ id _, .ok _, _, _, _, _⟩ :: _ => some id
  | ⟨.getConnection, .ok _, _, _, _, _⟩ :: h => due h
  | _ => none

/-- A produce has just failed. -/
def broken : Hist → Bool
  | ⟨.produce _ _ _, .error _, _, _, _, _⟩ :: _ => true
  | _ => false

/-- What was acknowledged is marked next, and what failed ends the batch. -/
structure Awaits (h : Hist) (o : Op) : Prop where
  marks : ∀ id, due h = some id → o = .getConnection ∨ o = .markPublished id
  stops : broken h = true → o.inBatch = false

theorem awaits_idle {h : Hist} {o : Op} (hdue : due h = none) (hbroken : broken h = false) : Awaits h o :=
  ⟨fun id hid => (by rw [hdue] at hid; cases hid), fun hb => by rw [hbroken] at hb; cases hb⟩

/-- What is to be marked was sent in this round. -/
theorem sent_of_due {h : Hist} {id : Uuid} (hdue : due h = some id) : id ∈ (sent h).map (·.eventId) := by
  induction h with
  | nil => cases hdue
  | cons e h ih =>
    obtain ⟨o, r, l, g, l', g'⟩ := e
    cases o with
    | produce client id' record =>
      cases r with
      | error _ => cases hdue
      | ok _ =>
        cases hdue
        exact List.mem_cons_self
    | getConnection =>
      cases r with
      | error _ => cases hdue
      | ok _ => exact ih hdue
    | _ => cases hdue

section Duplicates

variable [Platform]

/-- The program of a replica marks promptly and ends in `Q`. -/
abbrev Prompt {α : Type} (Q : Hist → ℕ → α → Prop) (h : Hist) (i : ℕ) (p : Prog Op Resp α) : Prop :=
  Safe (fun _ o i g r i' g' => Performs o i g r i' g') (fun _ _ => True) (fun h _ _ o => Awaits h o) Q h i p

/-- Nothing is to be marked, and nothing has just failed. -/
structure Idle (h : Hist) : Prop where
  due : due h = none
  whole : broken h = false

variable {h : Hist} {i : ℕ} {s : Loop}

omit [Platform] in
theorem Idle.awaits (hh : Idle h) {o : Op} : Awaits h o := awaits_idle hh.due hh.whole

omit [Platform] in
theorem prompt_call {α : Type} {Q : Hist → ℕ → α → Prop} {o : Op} {k : Resp o → Prog Op Resp α}
    (ho : Awaits h o) (hk : ∀ r i g i' g', Prompt Q (⟨o, r, i, g, i', g'⟩ :: h) i' (k r)) :
    Prompt Q h i (.call o k) :=
  safe_call.mpr fun _ _ => ⟨ho, fun r _ _ _ => hk r _ _ _ _⟩

omit [Platform] in
theorem prompt_partitionClient {topic : String} (hh : Idle h) :
    Prompt (fun h _ _ => Idle h) h i (partitionClient s topic) := by
  unfold partitionClient
  split
  · exact hh
  · refine prompt_call hh.awaits fun r i g i' g' => ?_
    cases r <;> exact ⟨rfl, rfl⟩

omit [Platform] in
theorem prompt_markPublished {id : Uuid} (hdue : due h = some id) (hwhole : broken h = false) :
    Prompt (fun h _ _ => Idle h) h i (markPublished id) := by
  refine prompt_call ⟨fun _ _ => Or.inl rfl, fun hb => by rw [hwhole] at hb; cases hb⟩ fun r i g i' g' => ?_
  cases r with
  | error _ => exact ⟨rfl, rfl⟩
  | ok _ =>
    refine prompt_call ⟨fun id' hid' => Or.inr ?_, fun hb => by cases hb⟩ fun r i g i' g' => ?_
    · cases hdue.symm.trans hid'
      rfl
    · cases r <;> exact ⟨rfl, rfl⟩

/-- What a batch acknowledged, it has tried to mark when it ends. -/
theorem prompt_publish {events : List OutboxRow} (hh : Idle h) :
    Prompt (fun h _ _ => due h = none) h i (publish s events) := by
  induction events generalizing h i s with
  | nil => exact hh.due
  | cons event events ih =>
    unfold publish
    split
    · exact ih hh
    · refine prompt_call hh.awaits fun span i g i' g' => ?_
      have hcalled : Idle (⟨.currentSpan, span, i, g, i', g'⟩ :: h) := ⟨rfl, rfl⟩
      refine safe_bind.mpr ((prompt_partitionClient hcalled).mono fun h i r hh => ?_)
      cases r with
      | error e => exact hh.due
      | ok found =>
        refine prompt_call hh.awaits fun now i g i' g' => ?_
        refine prompt_call (awaits_idle rfl rfl) fun r i g i' g' => ?_
        cases r with
        | error e => exact rfl
        | ok _ => exact safe_bind.mpr ((prompt_markPublished rfl rfl).mono fun h i _ hh => ih hh)

/-- **A replica tries to mark what was acknowledged, before it does anything else.** -/
theorem prompt_round (hdue : due h = none) : Prompt (fun h _ _ => due h = none) h i (round s) := by
  refine prompt_call ⟨fun id hid => (by rw [hdue] at hid; cases hid), fun _ => rfl⟩ fun wake i g i' g' => ?_
  cases wake with
  | cancelled => exact rfl
  | tick =>
    refine prompt_call (awaits_idle rfl rfl) fun r i g i' g' => ?_
    rcases r with e | ⟨_ | _⟩
    · exact rfl
    · exact rfl
    · refine safe_bind.mpr (prompt_call (awaits_idle rfl rfl) fun r i g i' g' => ?_)
      cases r with
      | error _ => exact rfl
      | ok _ =>
        refine prompt_call (awaits_idle rfl rfl) fun r i g i' g' => ?_
        cases r with
        | error e => exact rfl
        | ok events => exact safe_bind.mpr ((prompt_publish ⟨rfl, rfl⟩).mono fun _ _ _ hh => hh)

theorem prompt_run (batchSize : ℤ) : Prompt (fun h _ _ => due h = none) [] i (run batchSize) := by
  refine prompt_call (awaits_idle rfl rfl) fun r i g i' g' => ?_
  cases r with
  | error e => exact rfl
  | ok _ =>
    refine prompt_call (awaits_idle rfl rfl) fun r i g i' g' => ?_
    cases r with
    | error e => exact rfl
    | ok _ => exact prompt_round rfl

/-! ## What a run does -/

variable {inserts : StoredEvent → Prop} {rows : List StoredEvent} {clock n : ℕ} {c c' : State} {id : Uuid}

theorem prompt_thread (hc : Reachable (machine inserts) (boot rows clock) c)
    {t : Thread Op Resp ℕ World Outcome} (ht : c.thread i = some t) :
    Prompt (fun h _ _ => due h = none) t.hist t.loc t.prog := by
  refine safe_reachable (M := machine inserts) (fun _ _ _ _ _ => trivial) (fun _ => rfl) ?_ ?_ hc i t ht
  · rintro i l p ⟨-, batchSize, rfl⟩
    exact prompt_run batchSize
  · intro h l a p hQ hagain
    cases a with
    | next s =>
      cases hagain
      exact prompt_round hQ
    | _ => cases hagain

theorem awaits_of_call (hc : Reachable (machine inserts) (boot rows clock) c) {l : ℕ} {o : Op}
    {k : Resp o → Prog Op Resp Outcome} (ht : c.thread i = some ⟨l, .call o k, h⟩) : Awaits h o :=
  (prompt_thread hc ht c.glob trivial).1

/-- Who is to mark an event is in its batch. -/
theorem inBatch_of_due (hc : Reachable (machine inserts) (boot rows clock) c)
    {t : Thread Op Resp ℕ World Outcome} (ht : c.thread i = some t) (hdue : due t.hist = some id) :
    inBatch t = true := by
  obtain ⟨l, p, h⟩ := t
  cases p with
  | ret a =>
    have hnone : due h = none := prompt_thread hc ht
    cases hnone.symm.trans hdue
  | call o k => rcases (awaits_of_call hc ht).marks id hdue with rfl | rfl <;> rfl

/-- Who failed to produce is in no batch. -/
theorem not_inBatch_of_broken (hc : Reachable (machine inserts) (boot rows clock) c)
    {t : Thread Op Resp ℕ World Outcome} (ht : c.thread i = some t) (hbroken : broken t.hist = true) :
    inBatch t = false := by
  obtain ⟨l, p, h⟩ := t
  cases p with
  | ret a => rfl
  | call o k => exact (awaits_of_call hc ht).stops hbroken

/-- The replica `j` performed an operation. -/
structure Called (c c' : State) (j : ℕ) (o : Op) (r : Resp o) (k : Resp o → Prog Op Resp Outcome) (h : Hist) :
    Prop where
  pre : c.thread j = some ⟨j, .call o k, h⟩
  post : c'.thread j = some ⟨j, k r, ⟨o, r, j, c.glob, j, c'.glob⟩ :: h⟩
  others : ∀ i, i ≠ j → c'.thread i = c.thread i
  performs : Performs o j c.glob r j c'.glob

/-- What a step is: something outside, a replica that starts a round, or an operation. -/
theorem called_of_step (hc : Reachable (machine inserts) (boot rows clock) c)
    (hs : Step (machine inserts) c c') : (c'.thread = c.thread ∧ Env inserts c.glob c'.glob) ∨
    (c'.glob = c.glob ∧ ∃ j, (∀ i, i ≠ j → c'.thread i = c.thread i) ∧ publishing c j = false ∧
      publishing c' j = false) ∨
    ∃ j o r k h, Called c c' j o r k h := by
  cases hs with
  | env henv => exact Or.inl ⟨rfl, henv⟩
  | @spawn j l p hj hst =>
    obtain ⟨-, batchSize, rfl⟩ := hst
    refine Or.inr (Or.inl ⟨rfl, j, fun i hij => Function.update_of_ne hij .., ?_, ?_⟩)
    · rw [publishing, hj]
      rfl
    · simp only [publishing, Function.update_self]
      rfl
  | @call j l o k h r l' g hj hst =>
    obtain rfl : l = j := loc_reachable hc j _ hj
    obtain rfl : l' = l := hst.1
    exact Or.inr (Or.inr ⟨l', o, r, k, h, hj, Function.update_self .., fun i hij =>
      Function.update_of_ne hij .., hst⟩)
  | @again j l a h p hj hag =>
    refine Or.inr (Or.inl ⟨rfl, j, fun i hij => Function.update_of_ne hij .., ?_, ?_⟩)
    · rw [publishing, hj]
      rfl
    · simp only [publishing, Function.update_self]
      cases a with
      | next s =>
        cases hag
        rfl
      | _ => cases hag

omit [Platform] in
theorem connected_inBatch {o : Op} (ho : o.inBatch = true) {j j' : ℕ} {g g' : World} {r : Resp o}
    (h : Performs o j g r j' g') : g'.connected = g.connected ∧ g'.leader = g.leader := by
  cases performs_effect h with
  | connect | lead => cases ho
  | _ => exact ⟨rfl, rfl⟩

omit [Platform] in
theorem connected_other {o : Op} {i j j' : ℕ} (hij : i ≠ j) {g g' : World} {r : Resp o}
    (h : Performs o j g r j' g') : g'.connected i = g.connected i := by
  cases performs_effect h with
  | connect => exact Function.update_of_ne hij ..
  | _ => rfl

/-- A replica in its batch has the lock, unless it lost the connection. -/
def Leads (c : State) : Prop :=
  ∀ i, publishing c i = true → c.glob.connected i = true → c.glob.leader = some i

omit [Platform] in
theorem Leads.eq (h : Leads c) {i j : ℕ} (hi : publishing c i = true) (hopeni : c.glob.connected i = true)
    (hj : publishing c j = true) (hopenj : c.glob.connected j = true) : i = j :=
  Option.some.inj ((h i hi hopeni).symm.trans (h j hj hopenj))

theorem Called.leads (hc : Reachable (machine inserts) (boot rows clock) c)
    (hc' : Reachable (machine inserts) (boot rows clock) c') (h : Leads c) {j : ℕ} {o : Op} {r : Resp o}
    {k : Resp o → Prog Op Resp Outcome} {hist : Hist} (hcall : Called c c' j o r k hist) : Leads c' := by
  intro i hi hopen
  obtain ⟨t, ht, hbatch⟩ := publishing_iff.mp hi
  by_cases hij : i = j
  · subst hij
    cases hcall.post.symm.trans ht
    cases ho : o.inBatch with
    | false =>
      have hmeets := (keeping_thread hc hcall.pre c.glob trivial).1
      exact (enters_batch hc' ht hbatch ho hmeets hcall.performs).2.2.2
    | true =>
      obtain ⟨hconnected, hleader⟩ := connected_inBatch ho hcall.performs
      rw [hconnected] at hopen
      rw [hleader]
      exact h i (publishing_iff.mpr ⟨_, hcall.pre, ho⟩) hopen
  · rw [hcall.others i hij] at ht
    rw [connected_other hij hcall.performs] at hopen
    have hlead := h i (publishing_iff.mpr ⟨t, ht, hbatch⟩) hopen
    have heffect := performs_effect hcall.performs
    generalize c'.glob = g' at heffect ⊢
    cases heffect with
    | lead _ hfree =>
      rcases hfree with hfree | hfree
      · cases hlead.symm.trans hfree
      · cases hlead.symm.trans hfree
        exact (hij rfl).elim
    | _ => exact hlead

/-- **In every run a replica in its batch has the lock, unless it lost the connection.** -/
theorem leads_reachable (hc : Reachable (machine inserts) (boot rows clock) c) : Leads c := by
  refine hc.invariant (I := Leads) (fun i hi => by cases hi) fun c c' hc h hs => ?_
  rcases called_of_step hc hs with ⟨hthread, henv⟩ | ⟨hglob, j, hothers, -, hidle⟩ | ⟨j, o, r, k, hist, hcall⟩
  · intro i hi hopen
    rw [publishing, hthread] at hi
    generalize c'.glob = g' at henv hopen ⊢
    cases henv with
    | insert | tick => exact h i hi hopen
    | lose j =>
      by_cases hij : i = j
      · subst hij
        simp at hopen
      · have hlead := h i hi (by simpa [Function.update_of_ne hij] using hopen)
        simp only [hlead, Option.some.injEq, hij, if_false]
  · intro i hi hopen
    by_cases hij : i = j
    · subst hij
      rw [hidle] at hi
      cases hi
    · rw [publishing, hothers i hij] at hi
      rw [hglob] at hopen ⊢
      exact h i hi hopen
  · exact hcall.leads hc (hc.tail hs) h

/-! ## What is paid for -/

omit [Platform] in
/-- The operation failed to produce the event, or to mark it. -/
def Lapse (id : Uuid) (h : Hist) : Event → Prop
  | ⟨.produce _ id' _, .error _, _, _, _, _⟩ | ⟨.markPublished id', .error _, _, _, _, _⟩ => id' = id
  | ⟨.getConnection, .error _, _, _, _, _⟩ => due h = some id
  | _ => False

omit [Platform] in
/-- The failures that concern the event. -/
def lapses (c : State) (id : Uuid) : Set (ℕ × Event × Hist) :=
  {x | Happened c x.1 x.2.1 x.2.2 ∧ Lapse id x.2.2 x.2.1}

theorem finite_lapses (hc : Reachable (machine inserts) (boot rows clock) c) : (lapses c id).Finite :=
  (finite_happened (fun _ => rfl) hc).subset fun _ hx => hx.1

theorem lapses_le (hc' : Reachable (machine inserts) (boot rows clock) c')
    (hs : Step (machine inserts) c c') : (lapses c id).ncard ≤ (lapses c' id).ncard := by
  have hsub : lapses c id ⊆ lapses c' id := fun _ hx => ⟨hx.1.step hs, hx.2⟩
  exact Set.ncard_le_ncard hsub (finite_lapses hc')

/-- A failure is a new one. -/
theorem lapses_lt (hc' : Reachable (machine inserts) (boot rows clock) c') (hs : Step (machine inserts) c c')
    {j : ℕ} {o : Op} {r : Resp o} {k : Resp o → Prog Op Resp Outcome} (hcall : Called c c' j o r k h)
    (hlapse : Lapse id h ⟨o, r, j, c.glob, j, c'.glob⟩) : (lapses c id).ncard < (lapses c' id).ncard := by
  refine Set.ncard_lt_ncard ?_ (finite_lapses hc')
  have hsub : lapses c id ⊆ lapses c' id := fun _ hx => ⟨hx.1.step hs, hx.2⟩
  refine (Set.ssubset_iff_of_subset hsub).mpr
    ⟨(j, ⟨o, r, j, c.glob, j, c'.glob⟩, h), ⟨⟨_, hcall.post, List.suffix_refl _⟩, hlapse⟩, ?_⟩
  rintro ⟨⟨t, ht, htook⟩, -⟩
  cases hcall.pre.symm.trans ht
  have hlen := htook.length_le
  simp at hlen

omit [Platform] in
/-- How often the event was produced. -/
def produced (c : State) (id : Uuid) : ℕ := (c.glob.log.map (·.eventId)).count id

omit [Platform] in
/-- The replicas that lost the lock connection in a batch in which they may still produce the event. -/
def owing (c : State) (id : Uuid) : Set ℕ :=
  {i | c.glob.connected i = false ∧ ∃ t, c.thread i = some t ∧ inBatch t = true ∧
    id ∉ (sent t.hist).map (·.eventId)}

omit [Platform] in
/-- Who has the lock may produce the event, or take it up. -/
def Open (c : State) (id : Uuid) : Prop :=
  (∃ i t, c.thread i = some t ∧ inBatch t = true ∧ c.glob.connected i = true ∧
    id ∈ (fetched t.hist).map (·.id) ∧ id ∉ (sent t.hist).map (·.eventId)) ∨
  ¬ Marked c id ∧ ∀ i t, c.thread i = some t → c.glob.connected i = true → due t.hist ≠ some id

omit [Platform] in
/-- Every production but one is paid for, and what replicas that lost the lock may still produce as well; all
of it is while the event is open. -/
structure Paid (c : State) (n : ℕ) (id : Uuid) : Prop where
  total : produced c id + (owing c id).ncard ≤ 1 + n + (lapses c id).ncard
  unused : Open c id → produced c id + (owing c id).ncard ≤ n + (lapses c id).ncard

theorem finite_owing (hc : Reachable (machine inserts) (boot rows clock) c) : (owing c id).Finite := by
  refine (finite_threads (fun _ => rfl) hc).subset ?_
  rintro i ⟨-, t, ht, -⟩
  change c.thread i ≠ none
  rw [ht]
  exact Option.some_ne_none t

/-- A step that produces nothing, and after which no more is open or owed. -/
theorem Paid.quiet (h : Paid c n id) (hc : Reachable (machine inserts) (boot rows clock) c)
    (hs : Step (machine inserts) c c') (hproduced : produced c' id = produced c id)
    (howing : owing c' id ⊆ owing c id) (hopen : Open c' id → Open c id) : Paid c' n id := by
  have hlapses : (lapses c id).ncard ≤ (lapses c' id).ncard := lapses_le (hc.tail hs) hs
  have howing := Set.ncard_le_ncard howing (finite_owing hc)
  refine ⟨?_, fun hopen' => ?_⟩
  · have htotal := h.total
    omega
  · have hunused := h.unused (hopen hopen')
    omega

/-- After an operation no more is owed. -/
theorem Called.owing_subset (hc : Reachable (machine inserts) (boot rows clock) c)
    (hc' : Reachable (machine inserts) (boot rows clock) c') {j : ℕ} {o : Op} {r : Resp o}
    {k : Resp o → Prog Op Resp Outcome} (hcall : Called c c' j o r k h) : owing c' id ⊆ owing c id := by
  rintro i ⟨hclosed, t, ht, hbatch, hsent⟩
  by_cases hij : i = j
  · subst hij
    cases hcall.post.symm.trans ht
    cases ho : o.inBatch with
    | false =>
      obtain ⟨-, -, hopen, -⟩ := enters_batch hc' ht hbatch ho
        (keeping_thread hc hcall.pre c.glob trivial).1 hcall.performs
      cases hopen.symm.trans hclosed
    | true =>
      rw [(connected_inBatch ho hcall.performs).1] at hclosed
      exact ⟨hclosed, _, hcall.pre, ho, fun hmem => hsent (((sent_suffix ho).map _).subset hmem)⟩
  · rw [hcall.others i hij] at ht
    rw [connected_other hij hcall.performs] at hclosed
    exact ⟨hclosed, t, ht, hbatch, hsent⟩

/-- An operation that is no failure opens nothing. -/
theorem Called.open_of_open (hrows : (rows.map (·.id)).Nodup)
    (hc : Reachable (machine inserts) (boot rows clock) c) (hs : Step (machine inserts) c c') {j : ℕ} {o : Op}
    {r : Resp o} {k : Resp o → Prog Op Resp Outcome} (hcall : Called c c' j o r k h)
    (hlapse : ¬ Lapse id h ⟨o, r, j, c.glob, j, c'.glob⟩) (hopen : Open c' id) : Open c id := by
  have hc' := hc.tail hs
  have hawaits := awaits_of_call hc hcall.pre
  rcases hopen with ⟨i, t, ht, hbatch, hcon, hfetched, hsent⟩ | ⟨hunmarked, hnone⟩
  · by_cases hij : i = j
    · subst hij
      cases hcall.post.symm.trans ht
      cases ho : o.inBatch with
      | false =>
        obtain ⟨rfl, hnil, -⟩ := enters_batch hc' ht hbatch ho
          (keeping_thread hc hcall.pre c.glob trivial).1 hcall.performs
        change id ∈ (fetched h).map (·.id) at hfetched
        rw [hnil] at hfetched
        cases hfetched
      | true =>
        rw [(connected_inBatch ho hcall.performs).1] at hcon
        have hleading : publishing c i = true := publishing_iff.mpr ⟨_, hcall.pre, ho⟩
        have hown : id ∈ (fetched h).map (·.id) → Open c id := fun hmem => Or.inl ⟨i, _, hcall.pre, ho, hcon,
          hmem, fun hmem' => hsent (((sent_suffix ho).map _).subset hmem')⟩
        cases o with
        | buildClient | getLeader | select | tryAcquireLeaderLock => cases ho
        | fetchUnpublished batchSize =>
          cases r with
          | error _ => cases hfetched
          | ok events =>
            -- what is fetched is not marked, and nobody else who has the lock is to mark it
            obtain ⟨-, -, tie, rfl⟩ := performs_fetch_ok hcall.performs
            obtain ⟨e, he, rfl⟩ := List.mem_map.mp hfetched
            obtain ⟨s, hs', hpub, rfl⟩ := selected_sub he
            refine Or.inr ⟨?_, fun i' t' ht' hcon' hdue => ?_⟩
            · rintro ⟨s', hs'', hid, hpub'⟩
              obtain rfl := row_unique (nodup_reachable hrows hc) hs'' hs' hid
              exact hpub' hpub
            · obtain rfl := (leads_reachable hc).eq (publishing_iff.mpr ⟨t', ht', inBatch_of_due hc ht' hdue⟩)
                hcon' hleading hcon
              cases hcall.pre.symm.trans ht'
              rcases hawaits.marks _ hdue with ho | ho <;> cases ho
        | _ => exact hown hfetched
    · rw [hcall.others i hij] at ht
      rw [connected_other hij hcall.performs] at hcon
      exact Or.inl ⟨i, t, ht, hbatch, hcon, hfetched, hsent⟩
  · refine Or.inr ⟨fun hmarked => hunmarked (hmarked.step hs), fun i t ht hcon hdue => ?_⟩
    by_cases hij : i = j
    · subst hij
      cases hcall.pre.symm.trans ht
      rcases hawaits.marks id hdue with rfl | rfl
      · rw [← (connected_inBatch rfl hcall.performs).1] at hcon
        cases r with
        | error _ => exact hlapse hdue
        | ok _ => exact hnone i _ hcall.post hcon hdue
      · cases r with
        | error _ => exact hlapse rfl
        | ok m =>
          -- the mark finds the row of the event
          obtain ⟨before, e, rest, hb, -, rfl⟩ := (keeping_thread hc hcall.pre c.glob trivial).1
          obtain ⟨s, hs', hrow⟩ := fetched_row hc hcall.pre (e := e) (by rw [hb.events]; simp)
          have hid : s.id = e.id := congrArg OutboxRow.id hrow
          refine hunmarked ⟨{ s with publishedAt := some c.glob.clock }, ?_, hid, Option.some_ne_none _⟩
          rw [performs_mark_ok hcall.performs]
          exact mem_marked.mpr (Or.inr ⟨s, hs', hid, rfl⟩)
    · rw [← hcall.others i hij] at ht
      rw [← connected_other hij hcall.performs] at hcon
      exact hnone i t ht hcon hdue

variable (id) in
omit [Platform] in
/-- An operation produces an event at most once. -/
theorem Called.produced_cases {j : ℕ} {o : Op} {r : Resp o} {k : Resp o → Prog Op Resp Outcome}
    (hcall : Called c c' j o r k h) : produced c' id = produced c id ∨
    produced c' id = produced c id + 1 ∧ ∃ client record, o = .produce client id record := by
  have happend : ∀ {client : PartitionClient} {id' : Uuid} {record : Record},
      o = .produce client id' record → c'.glob.log = c.glob.log ++ [⟨id', client.topic, record⟩] →
      produced c' id = produced c id ∨
        produced c' id = produced c id + 1 ∧ ∃ client record, o = .produce client id record := by
    rintro client id' record rfl hlog
    by_cases hid : id' = id
    · subst hid
      refine Or.inr ⟨?_, client, record, rfl⟩
      simp [produced, hlog]
    · refine Or.inl ?_
      simp [produced, hlog, hid]
  have heffect := performs_effect hcall.performs
  unfold produced at happend ⊢
  generalize c'.glob = g' at heffect happend ⊢
  cases heffect with
  | append => exact happend rfl rfl
  | acknowledge => exact happend rfl rfl
  | _ => exact Or.inl rfl

/-- A replica that produces an event was to produce it: by the lock it holds, or owing. -/
theorem Called.ready (hrows : (rows.map (·.id)).Nodup)
    (hc : Reachable (machine inserts) (boot rows clock) c)
    (hc' : Reachable (machine inserts) (boot rows clock) c') {j : ℕ} {client : PartitionClient}
    {record : Record} {r : Resp (.produce client id record)}
    {k : Resp (.produce client id record) → Prog Op Resp Outcome}
    (hcall : Called c c' j (.produce client id record) r k h) :
    (c.glob.connected j = true ∧ Open c id) ∨
      (c.glob.connected j = false ∧ (owing c' id).ncard < (owing c id).ncard) := by
  obtain ⟨before, e, rest, hb, hcarries⟩ := (keeping_thread hc hcall.pre c.glob trivial).1
  obtain rfl : id = e.id := hcarries.id
  have hmem : e.id ∈ (fetched h).map (·.id) := List.mem_map_of_mem (by rw [hb.events]; simp)
  have hnew : e.id ∉ (sent h).map (·.eventId) := by
    rw [hb.sent_ids]
    exact hb.next_new (nodup_fetched hrows hc hcall.pre)
  cases hcon : c.glob.connected j with
  | true => exact Or.inl ⟨rfl, Or.inl ⟨j, _, hcall.pre, rfl, hcon, hmem, hnew⟩⟩
  | false =>
    refine Or.inr ⟨rfl, Set.ncard_lt_ncard ?_ (finite_owing hc)⟩
    refine (Set.ssubset_iff_of_subset (hcall.owing_subset hc hc')).mpr
      ⟨j, ⟨hcon, _, hcall.pre, rfl, hnew⟩, ?_⟩
    rintro ⟨-, t, ht, hbatch, hsent⟩
    cases hcall.post.symm.trans ht
    cases r with
    | error _ => cases (not_inBatch_of_broken hc' hcall.post rfl).symm.trans hbatch
    | ok _ => exact hsent List.mem_cons_self

/-- What was just acknowledged is not open, if the replica has the lock. -/
theorem Called.closed (hc' : Reachable (machine inserts) (boot rows clock) c') {j : ℕ}
    {client : PartitionClient} {record : Record} {k : Resp (.produce client id record) → Prog Op Resp Outcome}
    (hcall : Called c c' j (.produce client id record) (.ok ()) k h) (hcon : c.glob.connected j = true) :
    ¬ Open c' id := by
  rw [← (connected_inBatch rfl hcall.performs).1] at hcon
  rintro (⟨i, t, ht, hbatch, hcon', -, hsent⟩ | ⟨-, hnone⟩)
  · have hdue : due (⟨.produce client id record, .ok (), j, c.glob, j, c'.glob⟩ :: h) = some id := rfl
    have hj := inBatch_of_due hc' hcall.post hdue
    obtain rfl := (leads_reachable hc').eq (publishing_iff.mpr ⟨t, ht, hbatch⟩) hcon'
      (publishing_iff.mpr ⟨_, hcall.post, hj⟩) hcon
    cases hcall.post.symm.trans ht
    exact hsent List.mem_cons_self
  · exact hnone j _ hcall.post hcon rfl

/-- An operation of a replica leaves everything paid for. -/
theorem Paid.called (hrows : (rows.map (·.id)).Nodup) (hp : Paid c n id)
    (hc : Reachable (machine inserts) (boot rows clock) c) (hs : Step (machine inserts) c c') {j : ℕ} {o : Op}
    {r : Resp o} {k : Resp o → Prog Op Resp Outcome} (hcall : Called c c' j o r k h) : Paid c' n id := by
  have hc' := hc.tail hs
  have hsub : owing c' id ⊆ owing c id := hcall.owing_subset hc hc'
  have howing := Set.ncard_le_ncard hsub (finite_owing hc)
  have htotal := hp.total
  by_cases hlapse : Lapse id h ⟨o, r, j, c.glob, j, c'.glob⟩
  · have hlapses := lapses_lt hc' hs hcall hlapse
    rcases hcall.produced_cases id with hproduced | ⟨hproduced, client, record, rfl⟩
    · exact ⟨by omega, fun _ => by omega⟩
    · -- a record that the brokers took without an answer
      rcases hcall.ready hrows hc hc' with ⟨-, hopen⟩ | ⟨-, hless⟩
      · have hunused := hp.unused hopen
        exact ⟨by omega, fun _ => by omega⟩
      · exact ⟨by omega, fun _ => by omega⟩
  · have hlapses : (lapses c id).ncard ≤ (lapses c' id).ncard := lapses_le hc' hs
    have hopen := hcall.open_of_open hrows hc hs hlapse
    rcases hcall.produced_cases id with hproduced | ⟨hproduced, client, record, rfl⟩
    · exact hp.quiet hc hs hproduced (hcall.owing_subset hc hc') hopen
    · cases r with
      | error _ => exact (hlapse rfl).elim
      | ok _ =>
        rcases hcall.ready hrows hc hc' with ⟨hcon, hopen'⟩ | ⟨-, hless⟩
        · have hunused := hp.unused hopen'
          exact ⟨by omega, fun hopen₁ => (hcall.closed hc' hcon hopen₁).elim⟩
        · refine ⟨by omega, fun hopen₁ => ?_⟩
          have hunused := hp.unused (hopen hopen₁)
          omega

/-- A replica that starts a round, or ends, changes nothing. -/
theorem Paid.idle (hp : Paid c n id) (hc : Reachable (machine inserts) (boot rows clock) c)
    (hs : Step (machine inserts) c c') (hglob : c'.glob = c.glob) {j : ℕ}
    (hothers : ∀ i, i ≠ j → c'.thread i = c.thread i) (hidle : publishing c j = false)
    (hidle' : publishing c' j = false) : Paid c' n id := by
  have hsame : ∀ i t, c'.thread i = some t → inBatch t = true → c.thread i = some t := fun i t ht hbatch => by
    by_cases hij : i = j
    · subst hij
      cases hidle'.symm.trans (publishing_iff.mpr ⟨t, ht, hbatch⟩)
    · rw [← hothers i hij]
      exact ht
  refine hp.quiet hc hs (by rw [produced, produced, hglob]) ?_ ?_
  · rintro i ⟨hclosed, t, ht, hbatch, hsent⟩
    exact ⟨hglob ▸ hclosed, t, hsame i t ht hbatch, hbatch, hsent⟩
  · rintro (⟨i, t, ht, hbatch, hcon, hrest⟩ | ⟨hunmarked, hnone⟩)
    · exact Or.inl ⟨i, t, hsame i t ht hbatch, hbatch, hglob ▸ hcon, hrest⟩
    · refine Or.inr ⟨fun hmarked => hunmarked (hmarked.step hs), fun i t ht hcon hdue => ?_⟩
      by_cases hij : i = j
      · subst hij
        cases hidle.symm.trans (publishing_iff.mpr ⟨t, ht, inBatch_of_due hc ht hdue⟩)
      · rw [← hothers i hij] at ht
        exact hnone i t ht (hglob ▸ hcon) hdue

/-- What happens outside, other than to the lock connection of a replica in its batch, changes nothing. -/
theorem Paid.outside (hp : Paid c n id) (hc : Reachable (machine inserts) (boot rows clock) c)
    (hs : Step (machine inserts) c c') (hthread : c'.thread = c.thread) (hlog : c'.glob.log = c.glob.log)
    (hkept : ∀ i, publishing c i = true → c'.glob.connected i = c.glob.connected i) : Paid c' n id := by
  refine hp.quiet hc hs (by rw [produced, produced, hlog]) ?_ ?_
  · rintro i ⟨hclosed, t, ht, hbatch, hsent⟩
    rw [hthread] at ht
    exact ⟨(hkept i (publishing_iff.mpr ⟨t, ht, hbatch⟩)).symm.trans hclosed, t, ht, hbatch, hsent⟩
  · rintro (⟨i, t, ht, hbatch, hcon, hrest⟩ | ⟨hunmarked, hnone⟩)
    · rw [hthread] at ht
      exact Or.inl ⟨i, t, ht, hbatch, (hkept i (publishing_iff.mpr ⟨t, ht, hbatch⟩)).symm.trans hcon, hrest⟩
    · refine Or.inr ⟨fun hmarked => hunmarked (hmarked.step hs), fun i t ht hcon hdue => ?_⟩
      have hkept := hkept i (publishing_iff.mpr ⟨t, ht, inBatch_of_due hc ht hdue⟩)
      exact hnone i t (hthread ▸ ht) (hkept.trans hcon) hdue

/-- A lock connection that is lost in a batch pays for what the replica may still produce. -/
theorem Paid.lost (hp : Paid c n id) (hc : Reachable (machine inserts) (boot rows clock) c)
    (hs : Step (machine inserts) c c') (hthread : c'.thread = c.thread)
    (hlog : c'.glob.log = c.glob.log) {k : ℕ} (hk : publishing c k = true) (hopen : c.glob.connected k = true)
    (hconnected : c'.glob.connected = Function.update c.glob.connected k false) : Paid c' (n + 1) id := by
  have hlapses : (lapses c id).ncard ≤ (lapses c' id).ncard := lapses_le (hc.tail hs) hs
  have hproduced : produced c' id = produced c id := by rw [produced, produced, hlog]
  have hkept : ∀ i, i ≠ k → c'.glob.connected i = c.glob.connected i := fun i hik => by
    rw [hconnected, Function.update_of_ne hik]
  have htotal := hp.total
  obtain ⟨t, ht, hbatch⟩ := publishing_iff.mp hk
  by_cases hsent : id ∈ (sent t.hist).map (·.eventId)
  · -- nothing more of the replica is owed
    have howing : owing c' id ⊆ owing c id := by
      rintro i ⟨hclosed, t', ht', hrest⟩
      rw [hthread] at ht'
      by_cases hik : i = k
      · subst hik
        cases ht.symm.trans ht'
        exact (hrest.2 hsent).elim
      · exact ⟨(hkept i hik).symm.trans hclosed, t', ht', hrest⟩
    have howing := Set.ncard_le_ncard howing (finite_owing hc)
    exact ⟨by omega, fun _ => by omega⟩
  · have howing : owing c' id ⊆ insert k (owing c id) := by
      rintro i ⟨hclosed, t', ht', hrest⟩
      rw [hthread] at ht'
      by_cases hik : i = k
      · exact Or.inl hik
      · exact Or.inr ⟨(hkept i hik).symm.trans hclosed, t', ht', hrest⟩
    have howing := (Set.ncard_le_ncard howing ((finite_owing hc).insert k)).trans (Set.ncard_insert_le k _)
    refine ⟨by omega, fun hopen' => ?_⟩
    -- nobody has the lock now, so what is open was open before
    have hopen₀ : Open c id := by
      rcases hopen' with ⟨i, t', ht', hbatch', hcon, hrest⟩ | ⟨hunmarked, hnone⟩
      · have hik : i ≠ k := fun hik => by
          rw [hik, hconnected, Function.update_self] at hcon
          cases hcon
        rw [hthread] at ht'
        exact Or.inl ⟨i, t', ht', hbatch', (hkept i hik).symm.trans hcon, hrest⟩
      · refine Or.inr ⟨fun hmarked => hunmarked (hmarked.step hs), fun i t' ht' hcon hdue => ?_⟩
        by_cases hik : i = k
        · subst hik
          cases ht.symm.trans ht'
          exact hsent (sent_of_due hdue)
        · exact hnone i t' (hthread ▸ ht') ((hkept i hik).trans hcon) hdue
    have hunused := hp.unused hopen₀
    omega

/-- **A step leaves everything paid for, or loses a lock connection in the middle of a batch.** -/
theorem paid_step (hrows : (rows.map (·.id)).Nodup) (hp : Paid c n id)
    (hc : Reachable (machine inserts) (boot rows clock) c) (hs : Step (machine inserts) c c') :
    Paid c' n id ∨ ¬ Steady c c' ∧ Paid c' (n + 1) id := by
  rcases called_of_step hc hs with ⟨hthread, henv⟩ | ⟨hglob, j, hothers, hidle, hidle'⟩ |
    ⟨j, o, r, k, h, hcall⟩
  · have hlog : c'.glob.log = c.glob.log := by
      generalize c'.glob = g' at henv
      cases henv <;> rfl
    by_cases hsteady : ∀ i, publishing c i = true → c'.glob.connected i = c.glob.connected i
    · exact Or.inl (hp.outside hc hs hthread hlog hsteady)
    · obtain ⟨k, hk, hchanged⟩ : ∃ k, publishing c k = true ∧ c'.glob.connected k ≠ c.glob.connected k := by
        simpa only [not_forall, exists_prop] using hsteady
      obtain ⟨hconnected, hopen⟩ : c'.glob.connected = Function.update c.glob.connected k false ∧
          c.glob.connected k = true := by
        generalize c'.glob = g' at henv hchanged ⊢
        cases henv with
        | insert | tick => exact (hchanged rfl).elim
        | lose j =>
          by_cases hjk : k = j
          · subst hjk
            refine ⟨rfl, ?_⟩
            simpa using hchanged
          · exact (hchanged (Function.update_of_ne hjk ..)).elim
      refine Or.inr ⟨fun hsteady => ?_, hp.lost hc hs hthread hlog hk hopen hconnected⟩
      have hstill := hsteady k hk hopen
      rw [hconnected, Function.update_self] at hstill
      cases hstill
  · exact Or.inl (hp.idle hc hs hglob hothers hidle hidle')
  · exact Or.inl (hp.called hrows hc hs hcall)

variable (inserts) in
/-- Runs in which lock connections were lost `n` times in the middle of a batch. -/
inductive Losing (c₀ : State) : ℕ → State → Prop
  | refl : Losing c₀ 0 c₀
  | steady {n : ℕ} {c c' : State} : Losing c₀ n c → SteadyStep inserts c c' → Losing c₀ n c'
  | lost {n : ℕ} {c c' : State} : Losing c₀ n c → Step (machine inserts) c c' → Losing c₀ (n + 1) c'

theorem reachable_of_losing {c₀ : State} (hc : Losing inserts c₀ n c) : Reachable (machine inserts) c₀ c := by
  induction hc with
  | refl => exact .refl
  | steady _ hs ih => exact ih.tail hs.1
  | lost _ hs ih => exact ih.tail hs

theorem losing_of_steadily {c₀ : State} (hc : SteadilyReachable inserts c₀ c) : Losing inserts c₀ 0 c := by
  induction hc with
  | refl => exact .refl
  | tail _ hs ih => exact .steady ih hs

/-- Every run is one of these. -/
theorem losing_of_reachable {c₀ : State} (hc : Reachable (machine inserts) c₀ c) :
    ∃ n, Losing inserts c₀ n c := by
  induction hc with
  | refl => exact ⟨0, .refl⟩
  | tail _ hs ih =>
    obtain ⟨n, hn⟩ := ih
    exact ⟨n + 1, .lost hn hs⟩

/-- **Every production of an event but one is paid for: by a produce or a mark of the event that failed, or
by a lock connection that was lost in the middle of a batch**, in every run of any number of replicas. -/
theorem duplicates_paid (hrows : (rows.map (·.id)).Nodup) (hc : Losing inserts (boot rows clock) n c)
    (id : Uuid) : (c.glob.log.map (·.eventId)).count id ≤ 1 + n + (lapses c id).ncard := by
  suffices hpaid : Paid c n id from (Nat.le_add_right _ _).trans hpaid.total
  induction hc with
  | refl =>
    have hnobody : owing (boot rows clock) id = ∅ := by
      refine Set.eq_empty_of_forall_notMem ?_
      rintro i ⟨-, t, ht, -⟩
      cases ht
    have hnothing : produced (boot rows clock) id = 0 := rfl
    refine ⟨?_, fun _ => ?_⟩ <;> rw [hnobody, hnothing] <;> simp
  | steady hc hs ih =>
    rcases paid_step hrows ih (reachable_of_losing hc) hs.1 with hpaid | ⟨hlost, -⟩
    · exact hpaid
    · exact (hlost hs.2).elim
  | lost hc hs ih =>
    rcases paid_step hrows ih (reachable_of_losing hc) hs with hpaid | ⟨-, hpaid⟩
    · exact ⟨by have htotal := hpaid.total; omega, fun hopen => by have hunused := hpaid.unused hopen; omega⟩
    · exact hpaid

end Duplicates

open Sample
open scoped Identity.Sample

/-- The mark of an event fails, and the next round produces it again. -/
def unmarked : Schedule :=
  .outside (.insert (event 1 "auth_email" 9 0)) :: start 0 50 ++ act 0 9 ++ .act 0 { fault := true } ::
    .again 0 :: act 0 7

/-- The second record of the event is paid for by the mark that failed. -/
theorem duplicates_paid_unmarked : ∃ c, Losing (fun _ => True) (boot [] 0) 0 c ∧
    (c.glob.log.map (·.eventId)).count 1 = 2 ∧
    (c.glob.log.map (·.eventId)).count 1 ≤ 1 + 0 + (lapses c 1).ncard := by
  have hrun : (driver.execute (boot [] 0) unmarked).any (fun c =>
      decide ((c.glob.log.map (·.eventId)).count 1 = 2)) = true := by decide +kernel
  obtain ⟨c, hexec, -, hcount⟩ := Driver.exists_of_execute hrun
  have hc : Losing (fun _ => True) (boot [] 0) 0 c := losing_of_steadily (steadily_of_execute rfl hexec)
  have hempty : (([] : List StoredEvent).map (·.id)).Nodup := List.nodup_nil
  exact ⟨c, hc, of_decide_eq_true hcount, duplicates_paid hempty hc 1⟩

end Outbox
