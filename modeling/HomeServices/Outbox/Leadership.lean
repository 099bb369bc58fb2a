import HomeServices.Outbox.Execution

/-!
# One replica at a time

A replica checks the advisory lock once per round, on its own connection, and then works through
its batch on other connections. While no replica loses its lock connection in the middle of a
batch, only one of them is in a batch.

* `Op.inBatch`, `publishing`: a replica between its lock check and the end of its batch.
* `SteadyStep`: a step that does not take the lock connection from a replica in its batch.
* `Exclusive`, `exclusive_reachable`: the replica in its batch holds the lock.
* `Once`, `once_step`: what is produced is marked before the batch ends.
* **`one_publisher`**: in steady runs one replica publishes at a time, and without failures no event
  is produced twice; `two_publishers`: a run in which neither holds.
-/

namespace Outbox

open Interaction
open Identity (Bytes Uuid OutboxRow StoredEvent Platform)

/-- The operations between a successful lock check and the end of the batch. -/
def Op.inBatch : Op → Bool
  | buildClient | getLeader | select | tryAcquireLeaderLock => false
  | _ => true

/-- The thread is about to perform such an operation. -/
def inBatch (t : Thread Op Resp ℕ World Outcome) : Bool :=
  match t.prog with
  | .call o _ => o.inBatch
  | .ret _ => false

/-- The replica is in its batch. -/
def publishing (c : State) (i : ℕ) : Bool := (c.thread i).any inBatch

theorem publishing_iff {c : State} {i : ℕ} :
    publishing c i = true ↔ ∃ t, c.thread i = some t ∧ inBatch t = true := by
  rw [publishing, Option.any_eq_true]

/-- No replica that is in its batch loses its lock connection. -/
def Steady (c c' : State) : Prop :=
  ∀ i, publishing c i = true → c.glob.connected i = true → c'.glob.connected i = true

section Leadership

variable [Platform] {inserts : StoredEvent → Prop} {rows : List StoredEvent} {clock : ℕ}
  {c c' : State}

variable (inserts) in
def SteadyStep (c c' : State) : Prop := Step (machine inserts) c c' ∧ Steady c c'

variable (inserts) in
/-- Runs in which no replica loses its lock connection in its batch. -/
abbrev SteadilyReachable (c c' : State) : Prop := Relation.ReflTransGen (SteadyStep inserts) c c'

theorem reachable_of_steadily (hc : SteadilyReachable inserts c c') : Reachable (machine inserts) c c' :=
  Relation.ReflTransGen.mono (fun _ _ h => h.1) _ _ hc

theorem leading_of_inBatch (hc : Reachable (machine inserts) (boot rows clock) c) {i : ℕ}
    {t : Thread Op Resp ℕ World Outcome} (ht : c.thread i = some t) (hbatch : inBatch t = true) :
    leading t.hist = true := by
  obtain ⟨l, p, h⟩ := t
  cases p with
  | ret a => cases hbatch
  | call o k =>
    have hmeets := (keeping_thread hc ht c.glob trivial).1
    cases o with
    | buildClient | getLeader | select | tryAcquireLeaderLock => cases hbatch
    | produce => obtain ⟨before, e, rest, hb, -⟩ := hmeets; exact hb.leads
    | markPublished => obtain ⟨before, e, rest, hb, -⟩ := hmeets; exact hb.leads
    | _ => exact hmeets

theorem settled_of_not_inBatch (hc : Reachable (machine inserts) (boot rows clock) c) {i : ℕ}
    {t : Thread Op Resp ℕ World Outcome} (ht : c.thread i = some t) (hbatch : inBatch t = false) :
    Settled t.hist := by
  obtain ⟨l, p, h⟩ := t
  have hkeeping := keeping_thread hc ht
  cases p with
  | ret a =>
    cases a with
    | next s => exact hkeeping.2
    | _ => exact hkeeping
  | call o k =>
    have hmeets := (hkeeping c.glob trivial).1
    cases o with
    | buildClient | getLeader => exact hmeets.1
    | select => exact hmeets
    | tryAcquireLeaderLock => exact hmeets.1
    | _ => cases hbatch

omit [Platform] in
/-- A successful lock check takes or keeps the lock, on an open connection. -/
theorem performs_lock_true {i i' : ℕ} {g g' : World}
    (h : Performs .tryAcquireLeaderLock i g (.ok true) i' g') :
    g'.connected i = true ∧ g'.leader = some i := by
  obtain ⟨-, ch, h⟩ := h
  simp only [perform] at h
  split_ifs at h with hclosed hfree hfault <;> cases h
  refine ⟨?_, rfl⟩
  cases hcon : g.connected i with
  | true => rfl
  | false => exact (hclosed (by rw [hcon]; rfl)).elim

/-- A replica enters its batch by a successful lock check. -/
theorem enters_batch (hc' : Reachable (machine inserts) (boot rows clock) c') {i l l' : ℕ} {o : Op}
    {r : Resp o} {g g' : World} {h : Hist} {p : Prog Op Resp Outcome}
    (ht : c'.thread i = some ⟨l', p, ⟨o, r, l, g, l', g'⟩ :: h⟩)
    (hbatch : inBatch ⟨l', p, ⟨o, r, l, g, l', g'⟩ :: h⟩ = true) (ho : o.inBatch = false)
    (hmeets : Meets h o) (hstep : Performs o l g r l' g') :
    o = .tryAcquireLeaderLock ∧ fetched h = [] ∧ g'.connected l = true ∧ g'.leader = some l := by
  have hlead := leading_of_inBatch hc' ht hbatch
  cases o with
  | buildClient | getLeader =>
    rw [show leading (_ :: h) = leading h from rfl, hmeets.2] at hlead
    cases hlead
  | select => cases hlead
  | tryAcquireLeaderLock =>
    cases r with
    | error e => cases hlead
    | ok b =>
      obtain rfl : b = true := hlead
      exact ⟨rfl, hmeets.2, performs_lock_true hstep⟩
  | _ => cases ho

/-- The replica in its batch holds the lock, on an open connection. -/
def Exclusive (c : State) : Prop :=
  ∀ i, publishing c i = true → c.glob.connected i = true ∧ c.glob.leader = some i

omit [Platform] in
theorem Exclusive.eq (h : Exclusive c) {i j : ℕ} (hi : publishing c i = true)
    (hj : publishing c j = true) : i = j :=
  Option.some.inj ((h i hi).2.symm.trans (h j hj).2)

/-- A steady step leaves the lock with the replica that is in its batch. -/
theorem lock_kept (h : Exclusive c) (hs : SteadyStep inserts c c') {i : ℕ}
    (hi : publishing c i = true) : c'.glob.connected i = true ∧ c'.glob.leader = some i := by
  obtain ⟨hopen, hlead⟩ := h i hi
  obtain ⟨hs, hsteady⟩ := hs
  have hopen' := hsteady i hi hopen
  refine ⟨hopen', ?_⟩
  cases hs with
  | env henv =>
    cases henv with
    | insert | tick => exact hlead
    | lose j =>
      by_cases hij : i = j
      · subst hij
        simp at hopen'
      · have hne : c.glob.leader ≠ some j := by
          rw [hlead]
          exact fun e => hij (Option.some.inj e)
        simp only [if_neg hne]
        exact hlead
  | spawn | again => exact hlead
  | call hj hst =>
    cases performs_effect hst with
    | lead _ hfree =>
      rcases hfree with hfree | hfree
      · cases hlead.symm.trans hfree
      · exact hfree.symm.trans hlead ▸ rfl
    | _ => exact hlead

theorem exclusive_step (hc : Reachable (machine inserts) (boot rows clock) c) (h : Exclusive c)
    (hs : SteadyStep inserts c c') : Exclusive c' := by
  intro i hi
  obtain ⟨t, ht, hbatch⟩ := publishing_iff.mp hi
  cases hs.1.moved ht with
  | stayed ht => exact lock_kept h hs (publishing_iff.mpr ⟨t, ht, hbatch⟩)
  | spawned _ hst =>
    obtain ⟨-, batchSize, rfl⟩ := hst
    cases hbatch
  | @called l l' o k hist r ht' hst =>
    cases ho : o.inBatch with
    | true => exact lock_kept h hs (publishing_iff.mpr ⟨_, ht', ho⟩)
    | false =>
      obtain rfl : l = i := loc_reachable hc i _ ht'
      exact (enters_batch (hc.tail hs.1) ht hbatch ho (keeping_thread hc ht' c.glob trivial).1 hst).2.2
  | @again l a hist p ht' hagain =>
    cases a with
    | next s => cases hagain; cases hbatch
    | _ => cases hagain

/-- **In steady runs the replica that is in its batch holds the lock.** -/
theorem exclusive_reachable (hc : SteadilyReachable inserts (boot rows clock) c) : Exclusive c := by
  induction hc with
  | refl => exact fun i hi => by cases hi
  | tail hc hs ih => exact exclusive_step (reachable_of_steadily hc) ih hs

/-! ## Nothing twice -/

/-- No produce and no mark of any replica failed. -/
def Smooth (c : State) : Prop := ∀ i t, c.thread i = some t → smooth t.hist = true

omit [Platform] in
theorem smooth_of_suffix {h h' : Hist} (hsuf : h <:+ h') (hsmooth : smooth h' = true) :
    smooth h = true := by
  obtain ⟨l, rfl⟩ := hsuf
  induction l with
  | nil => exact hsmooth
  | cons e l ih =>
    refine ih ?_
    obtain ⟨o, r, i, g, i', g'⟩ := e
    cases o with
    | produce | markPublished =>
      cases r with
      | error _ => cases hsmooth
      | ok _ => exact hsmooth
    | getConnection =>
      cases r with
      | error _ => exact (Bool.and_eq_true_iff.mp hsmooth).2
      | ok _ => exact hsmooth
    | _ => exact hsmooth

theorem smooth_of_step (hs : Step (machine inserts) c c') (hsmooth : Smooth c') : Smooth c := by
  intro i t ht
  obtain ⟨t', ht', hsuf⟩ := hs.hist_suffix ht
  exact smooth_of_suffix hsuf (hsmooth i t' ht')

/-- The event was produced by a replica that is still to mark it. -/
def Pending (c : State) (id : Uuid) : Prop :=
  ∃ i t, c.thread i = some t ∧ inBatch t = true ∧ id ∈ (sent t.hist).map (·.eventId) ∧
    id ∉ confirmed t.hist

def Marked (c : State) (id : Uuid) : Prop := ∃ s ∈ c.glob.rows, s.id = id ∧ s.publishedAt ≠ none

/-- Produced events are marked or pending, batches hold none that another replica produced, and no
event was produced twice. -/
structure Once (c : State) : Prop where
  accounted : ∀ id ∈ c.glob.log.map (·.eventId), Marked c id ∨ Pending c id
  own : ∀ i t, c.thread i = some t → inBatch t = true → ∀ e ∈ fetched t.hist,
    e.id ∈ c.glob.log.map (·.eventId) → e.id ∈ (sent t.hist).map (·.eventId)
  nodup : (c.glob.log.map (·.eventId)).Nodup

theorem Marked.step {id : Uuid} (h : Marked c id) (hs : Step (machine inserts) c c') :
    Marked c' id := by
  obtain ⟨s, hs', hid, hpub⟩ := h
  obtain ⟨p, hp, hpub'⟩ := (later_step hs).rows s hs'
  exact ⟨_, hp, hid, hpub' hpub⟩

omit [Platform] in
theorem performs_mark_ok {id : Uuid} {n i i' : ℕ} {g g' : World}
    (h : Performs (.markPublished id) i g (.ok n) i' g') : g'.rows = marked id g.clock g.rows := by
  obtain ⟨-, ch, h⟩ := h
  simp only [perform] at h
  split_ifs at h <;> cases h
  rfl

/-- A batch that ends without failures leaves nothing pending. -/
theorem inBatch_of_pending (hc : Reachable (machine inserts) (boot rows clock) c) (hsmooth : Smooth c)
    {i : ℕ} {t : Thread Op Resp ℕ World Outcome} (ht : c.thread i = some t) {id : Uuid}
    (hsent : id ∈ (sent t.hist).map (·.eventId)) (hconf : id ∉ confirmed t.hist) :
    inBatch t = true := by
  cases hbatch : inBatch t with
  | true => rfl
  | false =>
    rw [settled_of_not_inBatch hc ht hbatch (hsmooth i t ht)] at hconf
    exact (hconf hsent).elim

omit [Platform] in
/-- In a batch, what was sent stays sent. -/
theorem sent_suffix {o : Op} (ho : o.inBatch = true) {r : Resp o} {l l' : ℕ} {g g' : World} {h : Hist} :
    sent h <:+ sent (⟨o, r, l, g, l', g'⟩ :: h) := by
  cases o with
  | select => cases ho
  | produce =>
    cases r with
    | error _ => exact List.suffix_refl _
    | ok _ => exact List.suffix_cons _ _
  | _ => exact List.suffix_refl _

omit [Platform] in
theorem confirmed_cons {o : Op} (ho : o.inBatch = true) {r : Resp o} {l l' : ℕ} {g g' : World}
    {h : Hist} {id : Uuid} (hid : id ∈ confirmed (⟨o, r, l, g, l', g'⟩ :: h)) :
    id ∈ confirmed h ∨ ∃ n, (⟨o, r, l, g, l', g'⟩ : Event) = ⟨.markPublished id, .ok n, l, g, l', g'⟩ := by
  cases o with
  | select => cases ho
  | markPublished id' =>
    cases r with
    | error _ => exact Or.inl hid
    | ok n =>
      rcases List.mem_cons.mp hid with rfl | hid
      · exact Or.inr ⟨n, rfl⟩
      · exact Or.inl hid
  | _ => exact Or.inl hid

/-- What is pending stays pending, or is marked. -/
theorem Pending.step {id : Uuid} (h : Pending c id)
    (hc : Reachable (machine inserts) (boot rows clock) c) (hs : Step (machine inserts) c c')
    (hsmooth : Smooth c') : Marked c' id ∨ Pending c' id := by
  obtain ⟨i, t, ht, hbatch, hsent, hconf⟩ := h
  obtain ⟨t', ht', -⟩ := hs.hist_suffix ht
  suffices hcase : Marked c' id ∨ id ∈ (sent t'.hist).map (·.eventId) ∧ id ∉ confirmed t'.hist by
    refine hcase.imp_right fun ⟨hsent', hconf'⟩ => ⟨i, t', ht', ?_, hsent', hconf'⟩
    exact inBatch_of_pending (hc.tail hs) hsmooth ht' hsent' hconf'
  cases hs.moved ht' with
  | stayed hi =>
    cases ht.symm.trans hi
    exact Or.inr ⟨hsent, hconf⟩
  | spawned hi =>
    cases ht.symm.trans hi
  | again hi =>
    cases ht.symm.trans hi
    cases hbatch
  | @called l l' o k hist r hi hst =>
    cases ht.symm.trans hi
    by_cases hmem : id ∈ confirmed (⟨o, r, l, c.glob, l', c'.glob⟩ :: hist)
    · rcases confirmed_cons hbatch hmem with hmem | ⟨n, he⟩
      · exact (hconf hmem).elim
      · cases he
        -- the mark finds the row of the event
        obtain ⟨before, e, rest, hb, -, rfl⟩ := (keeping_thread hc hi c.glob trivial).1
        obtain ⟨s, hs', hrow⟩ := fetched_row hc hi (e := e) (by rw [hb.events]; simp)
        have hid : s.id = e.id := congrArg OutboxRow.id hrow
        refine Or.inl ⟨{ s with publishedAt := some c.glob.clock }, ?_, hid, Option.some_ne_none _⟩
        rw [performs_mark_ok hst]
        exact mem_marked.mpr (Or.inr ⟨s, hs', hid, rfl⟩)
    · exact Or.inr ⟨((sent_suffix hbatch).map _).subset hsent, hmem⟩

/-- The replica `j`, which produced `before`, produced the next event of its batch. -/
structure Produced (c c' : State) (j : ℕ) (h : Hist) (before : List OutboxRow) (e : OutboxRow)
    (rest : List OutboxRow) : Prop where
  pre : ∃ t, c.thread j = some t ∧ inBatch t = true ∧ t.hist = h
  batch : Batch h before before (e :: rest)
  routable : routable e = true
  log : c'.glob.log.map (·.eventId) = c.glob.log.map (·.eventId) ++ [e.id]
  post : ∃ t, c'.thread j = some t ∧ fetched t.hist = fetched h ∧
    (sent t.hist).map (·.eventId) = e.id :: (sent h).map (·.eventId) ∧ confirmed t.hist = confirmed h

/-- A step of a run without failures produces the next event of a batch, or nothing. -/
theorem produced_of_step (hc : Reachable (machine inserts) (boot rows clock) c)
    (hs : Step (machine inserts) c c') (hsmooth : Smooth c') :
    c'.glob.log = c.glob.log ∨ ∃ j h before e rest, Produced c c' j h before e rest := by
  cases hs with
  | env henv => cases henv <;> exact Or.inl rfl
  | spawn | again => exact Or.inl rfl
  | @call j l o k h r l' g hj hst =>
    cases o with
    | produce client id record =>
      cases r with
      | error _ => cases hsmooth j _ (Function.update_self ..)
      | ok _ =>
        obtain ⟨before, e, rest, hb, hcarries⟩ := (keeping_thread hc hj c.glob trivial).1
        obtain rfl : id = e.id := hcarries.id
        refine Or.inr ⟨j, h, before, e, rest, ⟨_, hj, rfl, rfl⟩, hb, ?_, ?_,
          _, Function.update_self .., rfl, rfl, rfl⟩
        · rw [routable, hcarries.topic]
          rfl
        · rw [performs_produce_ok hst, List.map_append]
          rfl
    | _ => exact Or.inl (by cases performs_effect hst <;> rfl)

/-- The next event of a batch is not among those before it. -/
theorem Batch.next_new {h : Hist} {before rest : List OutboxRow} {e : OutboxRow}
    (hb : Batch h before before (e :: rest)) (hnodup : ((fetched h).map (·.id)).Nodup) :
    e.id ∉ (((before.filter routable).map (·.id)).reverse) := by
  rw [hb.events, List.map_append, List.map_cons] at hnodup
  intro hmem
  obtain ⟨e', he', hid⟩ := List.mem_map.mp (List.mem_reverse.mp hmem)
  have hdisjoint := List.disjoint_of_nodup_append hnodup
  exact hdisjoint (List.mem_map.mpr ⟨e', (List.mem_filter.mp he').1, hid⟩) List.mem_cons_self

/-- A step that produces nothing leaves no batch with an event of another replica. -/
theorem own_step (hrows : (rows.map (·.id)).Nodup)
    (hc : Reachable (machine inserts) (boot rows clock) c) (hex : Exclusive c) (h : Once c)
    (hs : Step (machine inserts) c c') {i : ℕ} {t : Thread Op Resp ℕ World Outcome}
    (ht : c'.thread i = some t) (hbatch : inBatch t = true) {e : OutboxRow} (he : e ∈ fetched t.hist)
    (hid : e.id ∈ c.glob.log.map (·.eventId)) : e.id ∈ (sent t.hist).map (·.eventId) := by
  cases hs.moved ht with
  | stayed hi => exact h.own i t hi hbatch e he hid
  | spawned _ hst =>
    obtain ⟨-, batchSize, rfl⟩ := hst
    cases hbatch
  | @again l a hist p _ hagain =>
    cases a with
    | next s => cases hagain; cases hbatch
    | _ => cases hagain
  | @called l l' o k hist r hi hst =>
    cases ho : o.inBatch with
    | false =>
      obtain ⟨rfl, hnil, -⟩ := enters_batch (hc.tail hs) ht hbatch ho
        (keeping_thread hc hi c.glob trivial).1 hst
      change e ∈ fetched hist at he
      rw [hnil] at he
      cases he
    | true =>
      have hown : e ∈ fetched hist → e.id ∈ (sent (⟨o, r, l, c.glob, l', c'.glob⟩ :: hist)).map (·.eventId) :=
        fun he => ((sent_suffix ho).map _).subset (h.own i _ hi ho e he hid)
      cases o with
      | buildClient | getLeader | select | tryAcquireLeaderLock => cases ho
      | fetchUnpublished batchSize =>
        cases r with
        | error _ => cases he
        | ok events =>
          obtain ⟨-, -, tie, rfl⟩ := performs_fetch_ok hst
          obtain ⟨s, hs', hpub, rfl⟩ := selected_sub he
          rcases h.accounted _ hid with ⟨s', hs'', hid', hpub'⟩ | ⟨j, t, ht', hbatch', hsent, -⟩
          · obtain rfl := row_unique (nodup_reachable hrows hc) hs'' hs' hid'
            exact (hpub' hpub).elim
          · obtain rfl : j = i := hex.eq (publishing_iff.mpr ⟨t, ht', hbatch'⟩)
              (publishing_iff.mpr ⟨_, hi, rfl⟩)
            cases hi.symm.trans ht'
            exact hsent
      | _ => exact hown he

theorem once_step (hrows : (rows.map (·.id)).Nodup)
    (hc : Reachable (machine inserts) (boot rows clock) c) (hex : Exclusive c) (hex' : Exclusive c')
    (h : Once c) (hs : Step (machine inserts) c c') (hsmooth : Smooth c') : Once c' := by
  have hc' := hc.tail hs
  have hold : ∀ id ∈ c.glob.log.map (·.eventId), Marked c' id ∨ Pending c' id := fun id hid => by
    rcases h.accounted id hid with hmarked | hpending
    · exact Or.inl (hmarked.step hs)
    · exact hpending.step hc hs hsmooth
  rcases produced_of_step hc hs hsmooth with hlog | ⟨j, hist, before, e, rest, hp⟩
  · refine ⟨fun id hid => hold id (hlog ▸ hid), fun i t ht hbatch e he hid => ?_, hlog ▸ h.nodup⟩
    exact own_step hrows hc hex h hs ht hbatch he (hlog ▸ hid)
  · obtain ⟨t, ht, hbatch, rfl⟩ := hp.pre
    obtain ⟨t', ht', hfetched, hsent, hconf⟩ := hp.post
    have hnext := hp.batch.next_new (nodup_fetched hrows hc ht)
    have hmem : e ∈ fetched t.hist := by rw [hp.batch.events]; simp
    have hnew : e.id ∉ c.glob.log.map (·.eventId) := fun hid => by
      have hown := h.own j t ht hbatch e hmem hid
      rw [hp.batch.sent_ids] at hown
      exact hnext hown
    have hsent' : e.id ∈ (sent t'.hist).map (·.eventId) := hsent ▸ List.mem_cons_self
    have hconf' : e.id ∉ confirmed t'.hist := by
      rw [hconf, hp.batch.marks (smooth_of_step hs hsmooth j t ht)]
      exact hnext
    have hbatch' := inBatch_of_pending hc' hsmooth ht' hsent' hconf'
    refine ⟨fun id hid => ?_, fun i t₁ ht₁ hbatch₁ e₁ he₁ hid => ?_, ?_⟩
    · rw [hp.log] at hid
      rcases List.mem_append.mp hid with hid | hid
      · exact hold id hid
      · rw [List.mem_singleton.mp hid]
        exact Or.inr ⟨j, t', ht', hbatch', hsent', hconf'⟩
    · obtain rfl : i = j := hex'.eq (publishing_iff.mpr ⟨t₁, ht₁, hbatch₁⟩)
        (publishing_iff.mpr ⟨t', ht', hbatch'⟩)
      cases ht'.symm.trans ht₁
      rw [hp.log] at hid
      rw [hsent]
      rcases List.mem_append.mp hid with hid | hid
      · exact List.mem_cons_of_mem _ (h.own i t ht hbatch e₁ (hfetched ▸ he₁) hid)
      · rw [List.mem_singleton.mp hid]
        exact List.mem_cons_self
    · rw [hp.log]
      refine List.Nodup.append h.nodup (List.nodup_singleton _) fun x hx hx' => ?_
      rw [List.mem_singleton.mp hx'] at hx
      exact hnew hx

/-- **While no replica loses its lock connection in its batch, one replica publishes at a time, and
if no produce and no mark failed, no event was produced twice.** -/
theorem one_publisher (hrows : (rows.map (·.id)).Nodup)
    (hc : SteadilyReachable inserts (boot rows clock) c) :
    (∀ i j, publishing c i = true → publishing c j = true → i = j) ∧
    (Smooth c → (c.glob.log.map (·.eventId)).Nodup) := by
  refine ⟨fun i j hi hj => (exclusive_reachable hc).eq hi hj, fun hsmooth => ?_⟩
  suffices honce : Once c from honce.nodup
  induction hc with
  | refl =>
    refine ⟨fun _ hid => ?_, fun _ _ ht => ?_, List.nodup_nil⟩
    · cases hid
    · cases ht
  | tail hc hs ih =>
    exact once_step hrows (reachable_of_steadily hc) (exclusive_reachable hc)
      (exclusive_reachable (hc.tail hs)) (ih (smooth_of_step hs.1 hsmooth)) hs.1 hsmooth

end Leadership

open Sample
open scoped Identity.Sample

/-- One replica produces an event; it loses its lock connection; another one takes over. -/
def takeover : Schedule :=
  .outside (.insert (event 1 "auth_email" 9 0)) :: start 0 50 ++ act 0 8 ++ .outside (.lose 0) ::
    start 1 50 ++ act 1 8

/-- **A replica that lost the lock in its batch publishes beside the new leader, and the event is
produced twice, though nothing failed.** -/
theorem two_publishers : ∃ c, Reachable (machine fun _ => True) (boot [] 0) c ∧
    publishing c 0 = true ∧ publishing c 1 = true ∧ Smooth c ∧
    c.glob.log.map (·.eventId) = [1, 1] := by
  have hrun : (driver.execute (boot [] 0) takeover).any (fun c =>
      (publishing c 0 && publishing c 1) &&
        ([0, 1].all (fun i => (c.thread i).all fun t => smooth t.hist) &&
          decide (c.glob.log.map (·.eventId) = [1, 1]))) = true := by decide +kernel
  obtain ⟨c, hexec, hc, hrun⟩ := Driver.exists_of_execute hrun
  obtain ⟨hboth, hrun⟩ := Bool.and_eq_true_iff.mp hrun
  obtain ⟨h0, h1⟩ := Bool.and_eq_true_iff.mp hboth
  obtain ⟨hsmooth, hlog⟩ := Bool.and_eq_true_iff.mp hrun
  refine ⟨c, hc, h0, h1, fun i t ht => ?_, of_decide_eq_true hlog⟩
  by_cases hi : i ∈ [0, 1]
  · have hall := List.all_eq_true.mp hsmooth i hi
    rw [ht] at hall
    exact hall
  · -- no other replica started
    have htargets : takeover.all (fun cmd => cmd.target.all (· ∈ [0, 1])) = true := rfl
    have hkept := Driver.execute_thread (j := i) (fun cmd hcmd htarget => hi ?_) hexec
    · cases hkept.symm.trans ht
    · have hcmd := List.all_eq_true.mp htargets cmd hcmd
      rw [htarget] at hcmd
      exact of_decide_eq_true hcmd

/-- A command that loses no connection. -/
def keepsConnections : Command ℤ Choice Outside → Bool
  | .outside (.lose _) => false
  | _ => true

theorem steady_of_command {c c' : State} {cmd : Command ℤ Choice Outside}
    (hcmd : keepsConnections cmd = true) (h : driver.command c cmd = some c') : Steady c c' := by
  intro i _ hopen
  cases cmd with
  | start j batchSize =>
    simp only [Driver.command] at h
    split at h <;> cases h
    exact hopen
  | act j ch =>
    simp only [Driver.command] at h
    split at h
    · split at h <;> cases h
      rename_i hperform
      cases performs_effect (driver.perform_ok hperform) with
      | connect =>
        simp only [Function.update_apply]
        split_ifs
        · rfl
        · exact hopen
      | _ => exact hopen
    · cases h
  | again j =>
    simp only [Driver.command] at h
    split at h
    · split at h <;> cases h
      exact hopen
    · cases h
  | outside e =>
    simp only [Driver.command, driver] at h
    cases e with
    | lose j => cases hcmd
    | insert e =>
      split at h <;> cases h
      rename_i houtside
      simp only at houtside
      split_ifs at houtside
      cases houtside
      exact hopen
    | tick clock =>
      split at h <;> cases h
      rename_i houtside
      simp only at houtside
      split_ifs at houtside
      cases houtside
      exact hopen

/-- A schedule that loses no connection is steady. -/
theorem steadily_of_execute {cmds : Schedule} {c c' : State} (hcmds : cmds.all keepsConnections = true)
    (h : driver.execute c cmds = some c') : SteadilyReachable (fun _ => True) c c' :=
  Driver.related_of_execute (fun hcmd h => ⟨Driver.step_of_command h, steady_of_command hcmd h⟩) hcmds h

/-- One replica is in its batch while another one polls. -/
def standby : Schedule :=
  .outside (.insert (event 1 "auth_email" 9 0)) :: start 0 50 ++ start 1 50 ++ act 0 8 ++ act 1 2 ++ act 0 1

theorem one_publisher_standby : ∃ c, driver.execute (boot [] 0) standby = some c ∧
    publishing c 0 = true ∧ publishing c 1 = false ∧ c.glob.log.length = 1 ∧
    ∀ i, publishing c i = true → i = 0 := by
  have hrun : (driver.execute (boot [] 0) standby).any (fun c =>
      (publishing c 0 && !publishing c 1) && decide (c.glob.log.length = 1)) = true := by decide +kernel
  obtain ⟨c, hexec, -, hrun⟩ := Driver.exists_of_execute hrun
  obtain ⟨hboth, hlog⟩ := Bool.and_eq_true_iff.mp hrun
  obtain ⟨h0, h1⟩ := Bool.and_eq_true_iff.mp hboth
  have hempty : (([] : List StoredEvent).map (·.id)).Nodup := List.nodup_nil
  have hone := (one_publisher hempty (steadily_of_execute rfl hexec)).1
  exact ⟨c, hexec, h0, by simpa using h1, of_decide_eq_true hlog, fun i hi => hone i 0 hi h0⟩

end Outbox
