import HomeServices.Concurrent.Program

/-!
# Programs that run alone

Total correctness of one program that nobody interferes with, beside what the outside does to the
shared state between its steps: it always has a next step, and every way to finish is right.

* `Alone`: the predicate.
* **`alone_bind`**, `alone_run_bind`, `alone_attempt_bind`, `alone_fromExcept_bind`: its rules.
* `Alone.mono`, `Alone.weaken`, `Alone.meet`: weaker results, fewer steps, and two results at once.
* **`Alone.reachable_same`**, `Alone.started`, `Alone.reachable`: what a program does alone, a thread may do in
  a run.
-/

namespace Interaction

variable {Op : Type} {Resp : Op → Type} {L G α β ε : Type}

variable (st : (o : Op) → L → G → Resp o → L → G → Prop) (env : G → G → Prop)

/-- `p`, run by the steps `st` from `l` and `g`, never gets stuck and returns in `Q`. -/
def Alone (Q : L → G → α → Prop) : L → G → Prog Op Resp α → Prop
  | l, g, .ret a => Q l g a
  | l, g, .call o k => ∀ g₁, env g g₁ → (∃ r l' g', st o l g₁ r l' g') ∧
      ∀ r l' g', st o l g₁ r l' g' → Alone Q l' g' (k r)

variable {st env}

theorem alone_call {Q : L → G → α → Prop} {l : L} {g : G} {o : Op} {k : Resp o → Prog Op Resp α} :
    Alone st env Q l g (.call o k) ↔ ∀ g₁, env g g₁ → (∃ r l' g', st o l g₁ r l' g') ∧
      ∀ r l' g', st o l g₁ r l' g' → Alone st env Q l' g' (k r) := Iff.rfl

/-- **The sequencing rule.** -/
theorem alone_bind {Q : L → G → β → Prop} {p : Prog Op Resp α} {f : α → Prog Op Resp β} {l : L}
    {g : G} : Alone st env Q l g (p.bind f) ↔
      Alone st env (fun l g a => Alone st env Q l g (f a)) l g p := by
  induction p generalizing l g with
  | ret a => exact Iff.rfl
  | call o k ih =>
    simp only [Prog.call_bind, alone_call]
    refine forall_congr' fun g₁ => forall_congr' fun _ => and_congr Iff.rfl ?_
    exact forall_congr' fun r => forall_congr' fun l' => forall_congr' fun g' =>
      forall_congr' fun _ => ih r

/-- The sequencing rule of programs that may fail. -/
theorem alone_run_bind {Q : L → G → Except ε β → Prop} {x : Handler Op Resp ε α}
    {f : α → Handler Op Resp ε β} {l : L} {g : G} :
    Alone st env Q l g (x >>= f).run ↔ Alone st env (fun l g => OnResult
      (fun a => Alone st env Q l g (f a).run) (fun e => Q l g (.error e))) l g x.run := by
  rw [run_bind, alone_bind]
  refine iff_of_eq (congrArg (fun R => Alone st env R l g x.run) ?_)
  funext l g r
  cases r <;> rfl

theorem alone_attempt_bind {Q : L → G → Except ε β → Prop} {o : Op} {d : Resp o → Except ε α}
    {f : α → Handler Op Resp ε β} {l : L} {g : G} :
    Alone st env Q l g (attempt o d >>= f).run ↔ ∀ g₁, env g g₁ →
      (∃ r l' g', st o l g₁ r l' g') ∧ ∀ r l' g', st o l g₁ r l' g' → OnResult
        (fun a => Alone st env Q l' g' (f a).run) (fun e => Q l' g' (.error e)) (d r) := by
  rw [alone_run_bind]
  rfl

theorem alone_fromExcept_bind {Q : L → G → Except ε β → Prop} {x : Except ε α}
    {f : α → Handler Op Resp ε β} {l : L} {g : G} :
    Alone st env Q l g (fromExcept x >>= f).run ↔
      OnResult (fun a => Alone st env Q l g (f a).run) (fun e => Q l g (.error e)) x := by
  rw [alone_run_bind]
  rfl

theorem Alone.mono {Q Q' : L → G → α → Prop} (hQ : ∀ l g a, Q l g a → Q' l g a)
    {p : Prog Op Resp α} {l : L} {g : G} (hp : Alone st env Q l g p) : Alone st env Q' l g p := by
  induction p generalizing l g with
  | ret a => exact hQ _ _ _ hp
  | call o k ih =>
    exact fun g₁ hg => ⟨(hp g₁ hg).1, fun r l' g' hs => ih r ((hp g₁ hg).2 r l' g' hs)⟩

/-- What holds of every run holds of those by fewer steps, if these do not get stuck. -/
theorem Alone.weaken {st' : (o : Op) → L → G → Resp o → L → G → Prop}
    (hst : ∀ o l g r l' g', st' o l g r l' g' → st o l g r l' g')
    (hnext : ∀ o l g, ∃ r l' g', st' o l g r l' g') {Q : L → G → α → Prop} {p : Prog Op Resp α} {l : L}
    {g : G} (hp : Alone st env Q l g p) : Alone st' env Q l g p := by
  induction p generalizing l g with
  | ret a => exact hp
  | call o k ih =>
    exact fun g₁ hg => ⟨hnext o l g₁, fun r l' g' hs => ih r ((hp g₁ hg).2 r l' g' (hst _ _ _ _ _ _ hs))⟩

/-- Two results that every run has, one run has. -/
theorem Alone.meet (henv : ∀ g, env g g) {Q Q' : L → G → α → Prop} {p : Prog Op Resp α} {l : L}
    {g : G} (hp : Alone st env Q l g p) (hp' : Alone st env Q' l g p) :
    ∃ l' g' a, Q l' g' a ∧ Q' l' g' a := by
  induction p generalizing l g with
  | ret a => exact ⟨l, g, a, hp, hp'⟩
  | call o k ih =>
    obtain ⟨r, l', g', hs⟩ := (hp g (henv g)).1
    exact ih r ((hp g (henv g)).2 r l' g' hs) ((hp' g (henv g)).2 r l' g' hs)

/-- **What a program does alone, a thread may do in a run**, while the other threads stand still. -/
theorem Alone.reachable_same {M : Machine Op Resp L G α} {I : G → Prop} (henv : ∀ g, I g → env g g)
    (hI : ∀ o l g r l' g', st o l g r l' g' → I g → I g')
    (hst : ∀ h o l g r l' g', st o l g r l' g' → M.step h o l g r l' g') {Q : L → G → α → Prop}
    {p : Prog Op Resp α} : ∀ {c : Config Op Resp L G α} {i : ℕ} {l : L} {h : List (Entry Op Resp L G)},
    I c.glob → c.thread i = some ⟨l, p, h⟩ → Alone st env Q l c.glob p →
    ∃ c' l' a h', Reachable M c c' ∧ c'.thread i = some ⟨l', .ret a, h'⟩ ∧ Q l' c'.glob a ∧
      I c'.glob ∧ ∀ j, j ≠ i → c'.thread j = c.thread j := by
  induction p with
  | ret a => exact fun {c _ l h} hc ht hp => ⟨c, l, a, h, .refl, ht, hp, hc, fun _ _ => rfl⟩
  | call o k ih =>
    intro c i l h hc ht hp
    obtain ⟨⟨r, l', g', hs⟩, hnext⟩ := hp c.glob (henv c.glob hc)
    obtain ⟨c', l'', a, h', hc', ht', hQ, hI', hsame⟩ := ih r
      (c := ⟨g', Function.update c.thread i (some ⟨l', k r, ⟨o, r, l, c.glob, l', g'⟩ :: h⟩)⟩)
      (hI _ _ _ _ _ _ hs hc) (Function.update_self ..) (hnext r l' g' hs)
    refine ⟨c', l'', a, h', .head (.call ht (hst _ _ _ _ _ _ _ hs)) hc', ht', hQ, hI', fun j hj => ?_⟩
    exact (hsame j hj).trans (Function.update_of_ne hj ..)

/-- What a program does alone, a thread may start and do. -/
theorem Alone.started {M : Machine Op Resp L G α} {I : G → Prop} (henv : ∀ g, I g → env g g)
    (hI : ∀ o l g r l' g', st o l g r l' g' → I g → I g')
    (hst : ∀ h o l g r l' g', st o l g r l' g' → M.step h o l g r l' g') {Q : L → G → α → Prop}
    {p : Prog Op Resp α} {c : Config Op Resp L G α} {i : ℕ} {l : L} (hc : I c.glob) (hi : c.thread i = none)
    (hstart : M.start i l p) (hp : Alone st env Q l c.glob p) :
    ∃ c' l' a h', Reachable M c c' ∧ c'.thread i = some ⟨l', .ret a, h'⟩ ∧ Q l' c'.glob a ∧
      I c'.glob ∧ ∀ j, j ≠ i → c'.thread j = c.thread j := by
  obtain ⟨c', l', a, h', hrun, ht, hQ, hI', hsame⟩ := Alone.reachable_same henv hI hst
    (c := ⟨c.glob, Function.update c.thread i (some ⟨l, p, []⟩)⟩) hc (Function.update_self ..) hp
  refine ⟨c', l', a, h', .head (.spawn hi hstart) hrun, ht, hQ, hI', fun j hj => ?_⟩
  exact (hsame j hj).trans (Function.update_of_ne hj ..)

theorem Alone.reachable {M : Machine Op Resp L G α} (henv : ∀ g, env g g)
    (hst : ∀ h o l g r l' g', st o l g r l' g' → M.step h o l g r l' g') {Q : L → G → α → Prop}
    {p : Prog Op Resp α} {c : Config Op Resp L G α} {i : ℕ} {l : L} {h : List (Entry Op Resp L G)}
    (ht : c.thread i = some ⟨l, p, h⟩) (hp : Alone st env Q l c.glob p) :
    ∃ c' l' a h', Reachable M c c' ∧ c'.thread i = some ⟨l', .ret a, h'⟩ ∧ Q l' c'.glob a := by
  obtain ⟨c', l', a, h', hc', ht', hQ, -, -⟩ := Alone.reachable_same (I := fun _ => True)
    (fun g _ => henv g) (fun _ _ _ _ _ _ _ _ => trivial) hst trivial ht hp
  exact ⟨c', l', a, h', hc', ht', hQ⟩

end Interaction
