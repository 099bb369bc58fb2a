import HomeServices.Concurrent.Alone
import HomeServices.Identity.Contracts

/-!
# Calls that nobody disturbs

A call that runs alone on a database with no foreign locks, while nothing fails and the clock of
the database goes on.

* `Fine`, `FineOf`, `Ticks`: the steps of such a call, by what it draws.
* `Undisturbed`, `Smoothly`: what the call owes; `Unlocked`, `LockFree`: the locks it meets.
* `smoothly_draw`, `smoothly_getConnection`, `smoothly_query`, **`smoothly_transaction`**,
  `smoothly_single`: the rules.
-/

namespace Identity

open ReadCommitted Interaction

variable [Platform]

/-- The operation does not fail, and what it draws satisfies `P`. -/
def Fine (P : Choice → Prop) (o : Op) (l : Session) (g : World) (r : Resp o) (l' : Session)
    (g' : World) : Prop := ∃ ch, ch.fault = false ∧ P ch ∧ perform ch l g o = some (r, l', g')

/-- The operation does not fail, and what it draws is such as `P` says of the operation. -/
def FineOf (P : Op → Choice → Prop) (o : Op) (l : Session) (g : World) (r : Resp o) (l' : Session)
    (g' : World) : Prop := ∃ ch, ch.fault = false ∧ P o ch ∧ perform ch l g o = some (r, l', g')

/-- The clock of the database goes on. -/
def Ticks (g g' : World) : Prop := ∃ t, g.clock ≤ t ∧ g' = { g with clock := t }

/-- Alone and without failures, the program returns in `Q`. -/
abbrev Undisturbed {α : Type} (P : Choice → Prop) (Q : Session → World → α → Prop) (l : Session)
    (g : World) (p : Prog Op Resp α) : Prop := Alone (Fine P) Ticks Q l g p

/-- Alone and without failures, drawing by `P`, the program returns in `Q`. -/
abbrev Smoothly {α : Type} (P : Op → Choice → Prop) (Q : Session → World → α → Prop) (l : Session)
    (g : World) (p : Prog Op Resp α) : Prop := Alone (FineOf P) Ticks Q l g p

/-- No other session holds a lock. -/
def Unlocked (pid : ℕ) (g : World) : Prop :=
  ∀ k, g.store.lock k = none ∨ g.store.lock k = some pid

/-- Nothing is locked. -/
def LockFree (g : World) : Prop := ∀ k, g.store.lock k = none

omit [Platform] in
theorem unlocked_fresh (pid : ℕ) (db : List Row) (clock : ℕ) : Unlocked pid (World.fresh db clock) :=
  fun _ => Or.inl rfl

omit [Platform] in
theorem Unlocked.free {pid : ℕ} {g : World} (h : Unlocked pid g) (refs : List Ref) :
    g.store.Free pid refs := fun k _ => h k

omit [Platform] in
theorem Unlocked.acquire {pid : ℕ} {g : World} (h : Unlocked pid g) (refs : List Ref) :
    Unlocked pid { g with store := g.store.acquire pid refs } := fun k => by
  change (if k ∈ refs then some pid else g.store.lock k) = none ∨
    (if k ∈ refs then some pid else g.store.lock k) = some pid
  split_ifs
  · exact Or.inr rfl
  · exact h k

variable {ε α β : Type} {l : Session} {g : World} {Q : Session → World → Except ε β → Prop}

section Smoothly

variable {P : Op → Choice → Prop}

omit [Platform] in
theorem LockFree.unlocked {g : World} (h : LockFree g) (pid : ℕ) : Unlocked pid g := fun k => Or.inl (h k)

/-- Once the only session that holds locks has committed, nothing is locked. -/
theorem Unlocked.lockFree_commit {pid : ℕ} {g : World} (h : Unlocked pid g) (ws : List (Write Row))
    (now : ℕ) : LockFree ⟨g.store.commit pid ws, now⟩ := fun k => by
  change (if g.store.lock k = some pid then none else g.store.lock k) = none
  split_ifs with hk
  · rfl
  · exact (h k).resolve_right hk

/-- The rule of operations that only answer: `f` reads the answer off the choice. -/
theorem smoothly_draw {o : Op} (hP : ∃ ch, ch.fault = false ∧ P o ch) {f : Choice → Resp o}
    (ho : ∀ ch g, ch.fault = false → perform ch l g o = some (f ch, l, g))
    {d : Resp o → Except ε α} {k : α → Handler Op Resp ε β}
    (H : ∀ ch g', P o ch → g'.store = g.store → OnResult (fun a => Smoothly P Q l g' (k a).run)
      (fun e => Q l g' (.error e)) (d (f ch))) :
    Smoothly P Q l g (attempt o d >>= k).run := by
  refine alone_attempt_bind.mpr fun g₁ hg₁ => ⟨?_, fun r l' g' hs => ?_⟩
  · obtain ⟨ch, hfault, hch⟩ := hP
    exact ⟨_, _, _, ch, hfault, hch, ho ch g₁ hfault⟩
  · obtain ⟨t, -, rfl⟩ := hg₁
    obtain ⟨ch, hfault, hch, hp⟩ := hs
    cases (ho ch _ hfault).symm.trans hp
    exact H ch _ hch rfl

/-- The rule of taking a connection. -/
theorem smoothly_getConnection (hP : ∃ ch, ch.fault = false ∧ P .getConnection ch) {err : Unit → ε}
    {k : Unit → Handler Op Resp ε β}
    (H : ∀ g', g'.store = g.store → Smoothly P Q l g' (k ()).run) :
    Smoothly P Q l g (attempt .getConnection (Except.mapError err) >>= k).run := by
  refine smoothly_draw hP (f := fun _ => (Except.ok () : Except Unit Unit)) (fun ch _ hf => ?_) ?_
  · simp only [perform, hf, Bool.false_eq_true, if_false]
  · exact fun _ g' _ hg' => H g' hg'

/-- A read outside a transaction answers what it selects. -/
theorem perform_select {ch : Choice} (hfault : ch.fault = false) (hl : l.tx = none) {s : Sql}
    {a : s.Out} (hexec : ∀ now pick, s.exec now pick g.db = select (.ok a)) :
    perform ch l g (.sql s) =
      some (.ok a, l, { g with store := (g.store.acquire l.pid []).commit l.pid [] }) := by
  have hfree : g.store.Free l.pid [] := fun k hk => by cases hk
  simp only [perform, hl, hfault, Bool.false_and, Bool.false_eq_true, if_false, hexec, select]
  rw [if_pos hfree]

/-- The rule of statements in a transaction. -/
theorem smoothly_query {s : Sql} (hP : ∃ ch, ch.fault = false ∧ P (.sql s) ch) (hlock : Unlocked l.pid g)
    {t : ℕ} {ws : List (Write Row)} (hl : l.tx = some ⟨t, ws⟩) {a : s.Out}
    {w : List (Write Row)} (hexec : ∀ pick, ∃ touched,
      s.exec t pick (applyAll ws g.db) = ⟨.ok a, w, touched⟩)
    {err : PgError → ε} {k : s.Out → Handler Op Resp ε β}
    (H : ∀ l' g', g'.db = g.db → Unlocked l'.pid g' → l' = { l with tx := some ⟨t, ws ++ w⟩ } →
      Smoothly P Q l' g' (k a).run) :
    Smoothly P Q l g (query err s >>= k).run := by
  refine alone_attempt_bind.mpr fun g₁ hg₁ => ?_
  obtain ⟨now, -, rfl⟩ := hg₁
  have hrun : ∀ ch : Choice, ch.fault = false → ∃ touched,
      perform ch l { g with clock := now } (.sql s) =
        some (.ok a, { l with tx := some ⟨t, ws ++ w⟩ },
          ⟨g.store.acquire l.pid touched, now⟩) := by
    intro ch hfault
    obtain ⟨touched, htouched⟩ := hexec ch.pick
    refine ⟨touched, ?_⟩
    simp only [perform, hl, hfault, Bool.false_eq_true, if_false, htouched]
    rw [if_pos (hlock.free touched)]
  refine ⟨?_, fun r l' g' hs => ?_⟩
  · obtain ⟨ch, hfault, hch⟩ := hP
    obtain ⟨touched, hp⟩ := hrun ch hfault
    exact ⟨_, _, _, ch, hfault, hch, hp⟩
  · obtain ⟨ch, hfault, hch, hp⟩ := hs
    obtain ⟨touched, hp'⟩ := hrun ch hfault
    cases hp'.symm.trans hp
    exact H _ _ rfl (hlock.acquire touched) rfl

/-- **The rule of transactions whose body succeeds.** -/
theorem smoothly_transaction (hP : ∃ ch, ch.fault = false ∧ P .begin ch)
    (hP' : ∃ ch, ch.fault = false ∧ P .commit ch) {R : Session → World → Except ε α → Prop}
    (hlock : Unlocked l.pid g) (hl : l.tx = none) {err : PgError → ε} {body : Handler Op Resp ε α}
    (H : ∀ l' g' t, g'.db = g.db → Unlocked l'.pid g' → l' = { l with tx := some ⟨t, []⟩ } →
      Smoothly P (fun l₁ g₁ r => ∃ a t ws, r = .ok a ∧ l₁.tx = some ⟨t, ws⟩ ∧
        ∀ now, R { l₁ with tx := none } ⟨g₁.store.commit l₁.pid ws, now⟩ (.ok a)) l' g' body.run) :
    Smoothly P R l g (transaction err body).run := by
  refine alone_call.mpr fun g₁ hg₁ => ?_
  obtain ⟨now, -, rfl⟩ := hg₁
  have hbegin : ∀ ch : Choice, ch.fault = false → perform ch l { g with clock := now } .begin =
      some (.ok (), { l with tx := some ⟨now, []⟩ }, { g with clock := now }) := fun ch hfault => by
    simp only [perform, hl, hfault, Bool.false_eq_true, if_false]
  refine ⟨?_, fun r l' g' hs => ?_⟩
  · obtain ⟨ch, hfault, hch⟩ := hP
    exact ⟨_, _, _, ch, hfault, hch, hbegin ch hfault⟩
  obtain ⟨ch, hfault, hch, hp⟩ := hs
  cases (hbegin ch hfault).symm.trans hp
  refine alone_bind.mpr ((H { l with tx := some ⟨now, []⟩ } { g with clock := now } now rfl hlock
    rfl).mono fun l₁ g₁ r hr => ?_)
  obtain ⟨a, t, ws, rfl, htx, hR⟩ := hr
  refine alone_call.mpr fun g₂ hg₂ => ?_
  obtain ⟨now₂, -, rfl⟩ := hg₂
  have hcommit : ∀ ch : Choice, ch.fault = false → perform ch l₁ { g₁ with clock := now₂ } .commit =
      some (.ok (), { l₁ with tx := none }, ⟨g₁.store.commit l₁.pid ws, now₂⟩) := fun ch hfault => by
    simp only [perform, htx, hfault, Bool.false_and, Bool.false_eq_true, if_false]
  refine ⟨?_, fun r l' g' hs => ?_⟩
  · obtain ⟨ch₂, hfault₂, hch₂⟩ := hP'
    exact ⟨_, _, _, ch₂, hfault₂, hch₂, hcommit ch₂ hfault₂⟩
  · obtain ⟨ch₂, hfault₂, -, hp₂⟩ := hs
    cases (hcommit ch₂ hfault₂).symm.trans hp₂
    exact hR now₂

/-- The rule of statements outside a transaction: each commits by itself. -/
theorem smoothly_single {s : Sql} (hP : ∃ ch, ch.fault = false ∧ P (.sql s) ch) (hlock : Unlocked l.pid g)
    (hl : l.tx = none) {w : ℕ → List (Write Row)} {a : ℕ → ℕ → s.Out} (hexec : ∀ now pick, ∃ touched,
      s.exec now pick g.db = ⟨.ok (a now pick), w now, touched⟩)
    {err : PgError → ε} {k : s.Out → Handler Op Resp ε β}
    (H : ∀ g' now pick, g'.db = applyAll (w now) g.db → LockFree g' →
      Smoothly P Q l g' (k (a now pick)).run) : Smoothly P Q l g (query err s >>= k).run := by
  refine alone_attempt_bind.mpr fun g₁ hg₁ => ?_
  obtain ⟨now, -, rfl⟩ := hg₁
  have hrun : ∀ ch : Choice, ch.fault = false → ∃ touched,
      perform ch l { g with clock := now } (.sql s) = some (.ok (a now ch.pick), l,
        ⟨(g.store.acquire l.pid touched).commit l.pid (w now), now⟩) := by
    intro ch hfault
    obtain ⟨touched, htouched⟩ := hexec now ch.pick
    refine ⟨touched, ?_⟩
    simp only [perform, hl, hfault, Bool.false_and, Bool.false_eq_true, if_false, htouched]
    rw [if_pos (hlock.free touched)]
  refine ⟨?_, fun r l' g' hs => ?_⟩
  · obtain ⟨ch, hfault, hch⟩ := hP
    obtain ⟨touched, hp⟩ := hrun ch hfault
    exact ⟨_, _, _, ch, hfault, hch, hp⟩
  · obtain ⟨ch, hfault, -, hp⟩ := hs
    obtain ⟨touched, hp'⟩ := hrun ch hfault
    cases hp'.symm.trans hp
    have hquiet := (hlock.acquire touched).lockFree_commit (w now) now
    exact H _ _ _ rfl hquiet

end Smoothly

end Identity
