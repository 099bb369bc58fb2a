import Mathlib.Logic.Function.Basic
import Mathlib.Logic.Relation
import Mathlib.Data.List.Infix

/-!
# Interaction programs and their interleavings

A program is a tree of operations whose answers come from outside. Many programs run side by
side over one shared state; each has a private state and a history of what it did.

* `Prog`, `Prog.bind`: programs and their monad; `Prog.eval`: a run against fixed answers;
  `Prog.All`: a condition on every operation; `Prog.Yields`: the results a program may have;
  `Prog.Runs`: a complete run; `Handler`: programs that may fail.
* `Machine`, `Config`, `Step`, `Reachable`: threads started, stepped and restarted in any order.
* `Happened`, `entry_step`, **`Happened.origin`**: every entry of a history was a step of the run;
  **`at_most_once`**.
* `Safe`, `safe_bind`: the proof obligation of one program, whatever happens between its steps.
* **`safe_reachable`**: programs that are safe alone are safe in every interleaving;
  `past_of_safe`: so was every operation they performed.
-/

namespace Interaction

variable {Op : Type} {Resp : Op → Type} {L G α β : Type}

/-! ## Programs -/

/-- A program over the operations `Op`, whose answers to `o` lie in `Resp o`. -/
inductive Prog (Op : Type) (Resp : Op → Type) (α : Type) : Type
  | ret (a : α)
  | call (o : Op) (k : Resp o → Prog Op Resp α)

namespace Prog

/-- Run `p`, then continue with its result. -/
def bind (p : Prog Op Resp α) (f : α → Prog Op Resp β) : Prog Op Resp β :=
  match p with
  | ret a => f a
  | call o k => call o fun r => (k r).bind f

instance : Monad (Prog Op Resp) where
  pure := ret
  bind := bind

/-- One operation. -/
def perform (o : Op) : Prog Op Resp (Resp o) := call o ret

/-- Run `p` when every operation has a fixed answer. -/
def eval (ans : (o : Op) → Resp o) : Prog Op Resp α → α
  | ret a => a
  | call o k => (k (ans o)).eval ans

@[simp] theorem pure_eq (a : α) : (pure a : Prog Op Resp α) = ret a := rfl

@[simp] theorem bind_eq (p : Prog Op Resp α) (f : α → Prog Op Resp β) : p >>= f = p.bind f := rfl

@[simp] theorem ret_bind (a : α) (f : α → Prog Op Resp β) : (ret a).bind f = f a := rfl

@[simp] theorem call_bind (o : Op) (k : Resp o → Prog Op Resp α) (f : α → Prog Op Resp β) :
    (call o k).bind f = call o fun r => (k r).bind f := rfl

theorem bind_ret (p : Prog Op Resp α) : p.bind ret = p := by
  induction p with
  | ret a => rfl
  | call o k ih => simp only [call_bind, ih]

theorem bind_bind {γ : Type} (p : Prog Op Resp α) (f : α → Prog Op Resp β)
    (g : β → Prog Op Resp γ) : (p.bind f).bind g = p.bind fun a => (f a).bind g := by
  induction p with
  | ret a => rfl
  | call o k ih => simp only [call_bind, ih]

instance : LawfulMonad (Prog Op Resp) :=
  LawfulMonad.mk' (Prog Op Resp) bind_ret (fun _ _ => rfl) bind_bind

@[simp] theorem eval_ret (ans : (o : Op) → Resp o) (a : α) :
    (ret a : Prog Op Resp α).eval ans = a := rfl

@[simp] theorem eval_call (ans : (o : Op) → Resp o) (o : Op) (k : Resp o → Prog Op Resp α) :
    (call o k).eval ans = (k (ans o)).eval ans := rfl

/-- Every operation the program may perform is one of `P`. -/
def All (P : Op → Prop) : Prog Op Resp α → Prop
  | ret _ => True
  | call o k => P o ∧ ∀ r, (k r).All P

@[simp] theorem all_ret {P : Op → Prop} {a : α} : (ret a : Prog Op Resp α).All P := trivial

@[simp] theorem all_call {P : Op → Prop} {o : Op} {k : Resp o → Prog Op Resp α} :
    (call o k).All P ↔ P o ∧ ∀ r, (k r).All P := Iff.rfl

/-- A result the program may have, whatever it is answered. -/
def Yields : Prog Op Resp α → α → Prop
  | ret b, a => b = a
  | call _ k, a => ∃ r, (k r).Yields a

theorem yields_bind {p : Prog Op Resp α} {f : α → Prog Op Resp β} {b : β} :
    (p.bind f).Yields b ↔ ∃ a, p.Yields a ∧ (f a).Yields b := by
  induction p with
  | ret a =>
    constructor
    · exact fun h => ⟨a, rfl, h⟩
    · rintro ⟨_, rfl, h⟩
      exact h
  | call o k ih =>
    constructor
    · rintro ⟨r, h⟩
      obtain ⟨a, ha, hb⟩ := (ih r).mp h
      exact ⟨a, ⟨r, ha⟩, hb⟩
    · rintro ⟨a, ⟨r, ha⟩, hb⟩
      exact ⟨r, (ih r).mpr ⟨a, ha, hb⟩⟩

/-- A complete run: what is asked, each with an answer that fits, and the result. -/
def Runs (P : (o : Op) → Resp o → Prop) : Prog Op Resp α → List (Sigma Resp) → α → Prop
  | ret b, es, a => es = [] ∧ b = a
  | call o k, es, a => ∃ r es', es = ⟨o, r⟩ :: es' ∧ P o r ∧ (k r).Runs P es' a

/-- A program ends, since it is a tree of operations. -/
theorem exists_runs {P : (o : Op) → Resp o → Prop} (hP : ∀ o, ∃ r, P o r) (p : Prog Op Resp α) :
    ∃ es a, p.Runs P es a := by
  induction p with
  | ret a => exact ⟨[], a, rfl, rfl⟩
  | call o k ih =>
    obtain ⟨r, hr⟩ := hP o
    obtain ⟨es, a, hrest⟩ := ih r
    exact ⟨⟨o, r⟩ :: es, a, r, es, rfl, hr, hrest⟩

theorem All.bind {P : Op → Prop} {p : Prog Op Resp α} {f : α → Prog Op Resp β} (hp : p.All P)
    (hf : ∀ a, (f a).All P) : (p.bind f).All P := by
  induction p with
  | ret a => exact hf a
  | call o k ih => exact ⟨hp.1, fun r => ih r (hp.2 r)⟩

end Prog

/-! ## Programs that may fail -/

variable {ε : Type}

/-- A program that returns a value or an error. -/
abbrev Handler (Op : Type) (Resp : Op → Type) (ε α : Type) := ExceptT ε (Prog Op Resp) α

/-- One operation, whose answer is read as a value or an error. -/
def attempt (o : Op) (f : Resp o → Except ε α) : Handler Op Resp ε α :=
  ExceptT.mk (.call o fun r => .ret (f r))

/-- A result that needs no operation. -/
def fromExcept (x : Except ε α) : Handler Op Resp ε α := ExceptT.mk (.ret x)

@[simp] theorem run_attempt (o : Op) (f : Resp o → Except ε α) :
    (attempt o f : Handler Op Resp ε α).run = .call o fun r => .ret (f r) := rfl

@[simp] theorem run_fromExcept (x : Except ε α) : (fromExcept x : Handler Op Resp ε α).run = .ret x := rfl

@[simp] theorem run_pure (a : α) : (pure a : Handler Op Resp ε α).run = .ret (.ok a) := rfl

theorem run_bind (x : Handler Op Resp ε α) (f : α → Handler Op Resp ε β) :
    (x >>= f).run = x.run.bind fun | .ok a => (f a).run | .error e => .ret (.error e) := by
  change Prog.bind x.run _ = Prog.bind x.run _
  congr 1
  funext r
  cases r <;> rfl

/-- What is thrown is handled. -/
theorem run_tryCatch (x : Handler Op Resp ε α) (f : ε → Handler Op Resp ε α) :
    (tryCatch x f).run = x.run.bind fun | .ok a => .ret (.ok a) | .error e => (f e).run := by
  change Prog.bind x.run _ = Prog.bind x.run _
  congr 1
  funext r
  cases r <;> rfl

theorem yields_fromExcept {x r : Except ε α} :
    (fromExcept x : Handler Op Resp ε α).run.Yields r ↔ x = r := Iff.rfl

theorem yields_attempt {o : Op} {f : Resp o → Except ε α} {r : Except ε α} :
    (attempt o f : Handler Op Resp ε α).run.Yields r ↔ ∃ a, f a = r := Iff.rfl

/-- A value comes from a value. -/
theorem yields_bind_ok {x : Handler Op Resp ε α} {f : α → Handler Op Resp ε β} {b : β} :
    (x >>= f).run.Yields (.ok b) ↔ ∃ a, x.run.Yields (.ok a) ∧ (f a).run.Yields (.ok b) := by
  rw [run_bind, Prog.yields_bind]
  constructor
  · rintro ⟨e | a, ha, hb⟩
    · cases hb
    · exact ⟨a, ha, hb⟩
  · rintro ⟨a, ha, hb⟩
    exact ⟨.ok a, ha, hb⟩

/-- An error is one of either part. -/
theorem yields_bind_error {x : Handler Op Resp ε α} {f : α → Handler Op Resp ε β} {e : ε} :
    (x >>= f).run.Yields (.error e) ↔
      x.run.Yields (.error e) ∨ ∃ a, x.run.Yields (.ok a) ∧ (f a).run.Yields (.error e) := by
  rw [run_bind, Prog.yields_bind]
  constructor
  · rintro ⟨e' | a, ha, hb⟩
    · cases hb
      exact Or.inl ha
    · exact Or.inr ⟨a, ha, hb⟩
  · rintro (ha | ⟨a, ha, hb⟩)
    · exact ⟨.error e, ha, rfl⟩
    · exact ⟨.ok a, ha, hb⟩

theorem all_run_bind {P : Op → Prop} {x : Handler Op Resp ε α} {f : α → Handler Op Resp ε β}
    (hx : x.run.All P) (hf : ∀ a, (f a).run.All P) : (x >>= f).run.All P := by
  rw [run_bind]
  refine hx.bind fun r => ?_
  cases r with
  | error e => exact trivial
  | ok a => exact hf a

theorem all_run_tryCatch {P : Op → Prop} {x : Handler Op Resp ε α} {f : ε → Handler Op Resp ε α}
    (hx : x.run.All P) (hf : ∀ e, (f e).run.All P) : (tryCatch x f).run.All P := by
  rw [run_tryCatch]
  refine hx.bind fun r => ?_
  cases r with
  | error e => exact hf e
  | ok a => exact trivial

/-! ## Machines -/

/-- One step of a thread: the operation, its answer, and the states around it. -/
structure Entry (Op : Type) (Resp : Op → Type) (L G : Type) where
  op : Op
  resp : Resp op
  loc : L
  pre : G
  loc' : L
  post : G

/-- How threads start, step and restart, and what the outside does to the shared state. -/
structure Machine (Op : Type) (Resp : Op → Type) (L G α : Type) where
  start : ℕ → L → Prog Op Resp α → Prop
  step : List (Entry Op Resp L G) → (o : Op) → L → G → Resp o → L → G → Prop
  again : α → Option (Prog Op Resp α)
  env : G → G → Prop

/-- A thread: its private state, the rest of its program, its history (newest first). -/
structure Thread (Op : Type) (Resp : Op → Type) (L G α : Type) where
  loc : L
  prog : Prog Op Resp α
  hist : List (Entry Op Resp L G)

/-- The shared state and the threads. -/
structure Config (Op : Type) (Resp : Op → Type) (L G α : Type) where
  glob : G
  thread : ℕ → Option (Thread Op Resp L G α)

/-- The configuration with no thread. -/
def Config.initial (g : G) : Config Op Resp L G α := ⟨g, fun _ => none⟩

variable (M : Machine Op Resp L G α)

/-- One step of one thread, or of the outside. -/
inductive Step : Config Op Resp L G α → Config Op Resp L G α → Prop
  | env {c : Config Op Resp L G α} {g : G} : M.env c.glob g → Step c ⟨g, c.thread⟩
  | spawn {c : Config Op Resp L G α} {i : ℕ} {l : L} {p : Prog Op Resp α} :
      c.thread i = none → M.start i l p →
      Step c ⟨c.glob, Function.update c.thread i (some ⟨l, p, []⟩)⟩
  | call {c : Config Op Resp L G α} {i : ℕ} {l : L} {o : Op} {k : Resp o → Prog Op Resp α}
      {h : List (Entry Op Resp L G)} {r : Resp o} {l' : L} {g : G} :
      c.thread i = some ⟨l, .call o k, h⟩ → M.step h o l c.glob r l' g →
      Step c ⟨g, Function.update c.thread i (some ⟨l', k r, ⟨o, r, l, c.glob, l', g⟩ :: h⟩)⟩
  | again {c : Config Op Resp L G α} {i : ℕ} {l : L} {a : α} {h : List (Entry Op Resp L G)}
      {p : Prog Op Resp α} :
      c.thread i = some ⟨l, .ret a, h⟩ → M.again a = some p →
      Step c ⟨c.glob, Function.update c.thread i (some ⟨l, p, h⟩)⟩

/-- The configurations a run from `c₀` reaches. -/
abbrev Reachable (c₀ c : Config Op Resp L G α) : Prop := Relation.ReflTransGen (Step M) c₀ c

variable {M}

/-- **An invariant of every step holds in every run.** -/
theorem Reachable.invariant {c₀ c : Config Op Resp L G α} {I : Config Op Resp L G α → Prop}
    (h : Reachable M c₀ c) (h0 : I c₀)
    (hstep : ∀ c c', Reachable M c₀ c → I c → Step M c c' → I c') : I c := by
  induction h with
  | refl => exact h0
  | tail hc hs ih => exact hstep _ _ hc ih hs

theorem Reachable.trans {c₀ c c' : Config Op Resp L G α} (h : Reachable M c₀ c)
    (h' : Reachable M c c') : Reachable M c₀ c' := Relation.ReflTransGen.trans h h'

/-- What a step did to a thread: nothing, or started, stepped or restarted it. -/
inductive Moved (M : Machine Op Resp L G α) (c c' : Config Op Resp L G α) (i : ℕ) :
    Thread Op Resp L G α → Prop
  | stayed {t : Thread Op Resp L G α} : c.thread i = some t → Moved M c c' i t
  | spawned {l : L} {p : Prog Op Resp α} : c.thread i = none → M.start i l p →
      c'.glob = c.glob → Moved M c c' i ⟨l, p, []⟩
  | called {l l' : L} {o : Op} {k : Resp o → Prog Op Resp α} {h : List (Entry Op Resp L G)}
      {r : Resp o} : c.thread i = some ⟨l, .call o k, h⟩ → M.step h o l c.glob r l' c'.glob →
      Moved M c c' i ⟨l', k r, ⟨o, r, l, c.glob, l', c'.glob⟩ :: h⟩
  | again {l : L} {a : α} {h : List (Entry Op Resp L G)} {p : Prog Op Resp α} :
      c.thread i = some ⟨l, .ret a, h⟩ → M.again a = some p → c'.glob = c.glob →
      Moved M c c' i ⟨l, p, h⟩

/-- **Each thread after a step was there before it, or is the one that the step moved.** -/
theorem Step.moved {c c' : Config Op Resp L G α} (hs : Step M c c') {i : ℕ}
    {t : Thread Op Resp L G α} (ht : c'.thread i = some t) : Moved M c c' i t := by
  have hother : ∀ {j : ℕ} {t' : Thread Op Resp L G α}, i ≠ j →
      Function.update c.thread j (some t') i = some t → c.thread i = some t := fun hij h => by
    rwa [Function.update_of_ne hij] at h
  cases hs with
  | env _ => exact .stayed ht
  | @spawn j _ _ hj hst =>
    by_cases hij : i = j
    · subst hij
      cases (Function.update_self ..).symm.trans ht
      exact .spawned hj hst rfl
    · exact .stayed (hother hij ht)
  | @call j _ _ _ _ _ _ _ hj hst =>
    by_cases hij : i = j
    · subst hij
      cases (Function.update_self ..).symm.trans ht
      exact .called hj hst
    · exact .stayed (hother hij ht)
  | @again j _ _ _ _ hj hag =>
    by_cases hij : i = j
    · subst hij
      cases (Function.update_self ..).symm.trans ht
      exact .again hj hag rfl
    · exact .stayed (hother hij ht)

/-- **What a thread may still do, its program may do.** -/
theorem Reachable.all {c₀ c : Config Op Resp L G α} {P : Op → Prop} (hc : Reachable M c₀ c)
    (h0 : ∀ i, c₀.thread i = none) (hagain : ∀ a, M.again a = none)
    (hstart : ∀ i l p, M.start i l p → p.All P) : ∀ i t, c.thread i = some t → t.prog.All P := by
  refine hc.invariant (I := fun c => ∀ i t, c.thread i = some t → t.prog.All P)
    (fun i t ht => by rw [h0 i] at ht; cases ht) ?_
  intro c c' _ ih hs i t ht
  cases hs.moved ht with
  | stayed hstay => exact ih i t hstay
  | spawned _ hst _ => exact hstart _ _ _ hst
  | called hcall _ => exact (ih i _ hcall).2 _
  | again _ hag _ =>
    rw [hagain] at hag
    cases hag

/-! ## What a history records -/

/-- Threads are never removed, and histories only grow. -/
theorem Step.hist_suffix {c c' : Config Op Resp L G α} (h : Step M c c') {i : ℕ}
    {t : Thread Op Resp L G α} (ht : c.thread i = some t) :
    ∃ t', c'.thread i = some t' ∧ t.hist <:+ t'.hist := by
  cases h with
  | env _ => exact ⟨t, ht, List.suffix_refl _⟩
  | @spawn j _ _ hj _ =>
    have hij : i ≠ j := fun e => by rw [e, hj] at ht; cases ht
    exact ⟨t, by simpa [Function.update_of_ne hij] using ht, List.suffix_refl _⟩
  | @call j _ _ _ _ _ _ _ hj _ =>
    by_cases hij : i = j
    · subst hij
      rw [hj] at ht; cases ht
      exact ⟨_, Function.update_self .., List.suffix_cons _ _⟩
    · exact ⟨t, by simpa [Function.update_of_ne hij] using ht, List.suffix_refl _⟩
  | @again j _ _ _ _ hj _ =>
    by_cases hij : i = j
    · subst hij
      rw [hj] at ht; cases ht
      exact ⟨_, Function.update_self .., List.suffix_refl _⟩
    · exact ⟨t, by simpa [Function.update_of_ne hij] using ht, List.suffix_refl _⟩

theorem Reachable.hist_suffix {c c' : Config Op Resp L G α} (h : Reachable M c c') {i : ℕ}
    {t : Thread Op Resp L G α} (ht : c.thread i = some t) :
    ∃ t', c'.thread i = some t' ∧ t.hist <:+ t'.hist := by
  induction h with
  | refl => exact ⟨t, ht, List.suffix_refl _⟩
  | tail _ hs ih =>
    obtain ⟨t₁, h₁, hsuf⟩ := ih
    obtain ⟨t₂, h₂, hsuf'⟩ := hs.hist_suffix h₁
    exact ⟨t₂, h₂, hsuf.trans hsuf'⟩

/-- A thread that returned for good stays as it is. -/
theorem Reachable.returned {c c' : Config Op Resp L G α} (h : Reachable M c c') {i : ℕ}
    {t : Thread Op Resp L G α} (ht : c.thread i = some t) {a : α} (ha : t.prog = .ret a)
    (hagain : M.again a = none) : c'.thread i = some t := by
  induction h with
  | refl => exact ht
  | tail _ hs ih =>
    obtain ⟨t', ht', -⟩ := hs.hist_suffix ih
    rw [ht']
    cases hs.moved ht' with
    | stayed hi => exact hi.symm.trans ih
    | spawned hi => cases hi.symm.trans ih
    | called hi => cases hi.symm.trans ih; cases ha
    | again hi hag =>
      cases hi.symm.trans ih
      cases ha
      cases hagain.symm.trans hag

/-- `e` was taken by a thread whose history was then `h`. -/
def Took (t : Thread Op Resp L G α) (e : Entry Op Resp L G) (h : List (Entry Op Resp L G)) :
    Prop := (e :: h) <:+ t.hist

theorem exists_took {t : Thread Op Resp L G α} {e : Entry Op Resp L G} (he : e ∈ t.hist) :
    ∃ h, Took t e h := by
  obtain ⟨l₁, l₂, hl⟩ := List.append_of_mem he
  exact ⟨l₂, l₁, hl.symm⟩

theorem Took.mem {t : Thread Op Resp L G α} {e : Entry Op Resp L G}
    {h : List (Entry Op Resp L G)} (ht : Took t e h) : e ∈ t.hist :=
  ht.subset List.mem_cons_self

/-- In `c`, thread `i` has taken the entry `e`, with the history `h` before it. -/
def Happened (c : Config Op Resp L G α) (i : ℕ) (e : Entry Op Resp L G)
    (h : List (Entry Op Resp L G)) : Prop := ∃ t, c.thread i = some t ∧ Took t e h

theorem Happened.step {c c' : Config Op Resp L G α} {i : ℕ} {e : Entry Op Resp L G}
    {h : List (Entry Op Resp L G)} (he : Happened c i e h) (hs : Step M c c') : Happened c' i e h := by
  obtain ⟨t, ht, htook⟩ := he
  obtain ⟨t', ht', hsuf⟩ := hs.hist_suffix ht
  exact ⟨t', ht', List.IsSuffix.trans htook hsuf⟩

/-- A step adds at most one entry, that of the operation it performs. -/
theorem Step.entries {c c' : Config Op Resp L G α} (hs : Step M c c') :
    ((∀ i e h, Happened c' i e h → Happened c i e h) ∧ (c'.glob = c.glob ∨ M.env c.glob c'.glob)) ∨
    ∃ j e₀ h₀ k, c.thread j = some ⟨e₀.loc, .call e₀.op k, h₀⟩ ∧
      M.step h₀ e₀.op e₀.loc e₀.pre e₀.resp e₀.loc' e₀.post ∧ e₀.pre = c.glob ∧ e₀.post = c'.glob ∧
      Happened c' j e₀ h₀ ∧
      ∀ i e h, Happened c' i e h → Happened c i e h ∨ i = j ∧ e = e₀ ∧ h = h₀ := by
  cases hs with
  | env henv => exact Or.inl ⟨fun i e h he => he, Or.inr henv⟩
  | @spawn j _ _ hj _ =>
    refine Or.inl ⟨fun i e h ⟨t, ht, he⟩ => ?_, Or.inl rfl⟩
    by_cases hij : i = j
    · subst hij
      simp only [Function.update_self, Option.some.injEq] at ht
      subst ht
      exact absurd (List.IsSuffix.length_le he) (by simp)
    · exact ⟨t, by simpa [Function.update_of_ne hij] using ht, he⟩
  | @call j l o k h₀ r l' g hj hst =>
    refine Or.inr ⟨j, ⟨o, r, l, c.glob, l', g⟩, h₀, k, hj, hst, rfl, rfl,
      ⟨_, Function.update_self .., List.suffix_refl _⟩, fun i e h ⟨t, ht, he⟩ => ?_⟩
    by_cases hij : i = j
    · subst hij
      simp only [Function.update_self, Option.some.injEq] at ht
      subst ht
      rcases List.suffix_cons_iff.mp he with heq | hsuf
      · cases heq
        exact Or.inr ⟨rfl, rfl, rfl⟩
      · exact Or.inl ⟨_, hj, hsuf⟩
    · exact Or.inl ⟨t, by simpa [Function.update_of_ne hij] using ht, he⟩
  | @again j _ _ _ _ hj _ =>
    refine Or.inl ⟨fun i e h ⟨t, ht, he⟩ => ?_, Or.inl rfl⟩
    by_cases hij : i = j
    · subst hij
      simp only [Function.update_self, Option.some.injEq] at ht
      subst ht
      exact ⟨_, hj, he⟩
    · exact ⟨t, by simpa [Function.update_of_ne hij] using ht, he⟩

theorem Step.happened {c c' : Config Op Resp L G α} (hs : Step M c c') :
    (∀ i e h, Happened c' i e h → Happened c i e h) ∨
    ∃ j e₀ h₀ k, c.thread j = some ⟨e₀.loc, .call e₀.op k, h₀⟩ ∧
      M.step h₀ e₀.op e₀.loc e₀.pre e₀.resp e₀.loc' e₀.post ∧ e₀.pre = c.glob ∧ e₀.post = c'.glob ∧
      Happened c' j e₀ h₀ ∧
      ∀ i e h, Happened c' i e h → Happened c i e h ∨ i = j ∧ e = e₀ ∧ h = h₀ :=
  hs.entries.imp_left And.left

theorem not_happened {c : Config Op Resp L G α} (h0 : ∀ i, c.thread i = none) {i : ℕ}
    {e : Entry Op Resp L G} {h : List (Entry Op Resp L G)} : ¬ Happened c i e h := by
  rintro ⟨t, ht, -⟩
  rw [h0] at ht
  cases ht

/-- What holds of every call step of a run holds of every entry. -/
theorem Reachable.entries {c₀ c : Config Op Resp L G α}
    {P : ℕ → List (Entry Op Resp L G) → Entry Op Resp L G → Prop}
    (hc : Reachable M c₀ c) (h0 : ∀ i, c₀.thread i = none)
    (hP : ∀ c i e h k, Reachable M c₀ c → c.thread i = some ⟨e.loc, .call e.op k, h⟩ →
      M.step h e.op e.loc e.pre e.resp e.loc' e.post → e.pre = c.glob → P i h e) :
    ∀ i e h, Happened c i e h → P i h e := by
  refine hc.invariant (I := fun c => ∀ i e h, Happened c i e h → P i h e)
    (fun i e h he => (not_happened h0 he).elim) ?_
  intro c c' hc ih hs i e h he
  rcases hs.happened with hold | ⟨j, e₀, h₀, k, hj, hst, hpre, -, -, hnew⟩
  · exact ih i e h (hold i e h he)
  · rcases hnew i e h he with he | ⟨rfl, rfl, rfl⟩
    · exact ih i e h he
    · exact hP c i e h k hc hj hst hpre

/-- Every entry was a step of the machine. -/
theorem entry_step {c₀ c : Config Op Resp L G α} (hc : Reachable M c₀ c)
    (h0 : ∀ i, c₀.thread i = none) {i : ℕ} {e : Entry Op Resp L G}
    {h : List (Entry Op Resp L G)} (he : Happened c i e h) :
    M.step h e.op e.loc e.pre e.resp e.loc' e.post :=
  hc.entries (P := fun _ h e => M.step h e.op e.loc e.pre e.resp e.loc' e.post) h0
    (fun _ _ _ _ _ _ _ hst _ => hst) i e h he

/-- **An entry was a step from a configuration of the run, in which its thread had that history.** -/
theorem Happened.origin {c₀ c : Config Op Resp L G α} (hc : Reachable M c₀ c)
    (h0 : ∀ i, c₀.thread i = none) {i : ℕ} {e : Entry Op Resp L G}
    {h : List (Entry Op Resp L G)} (he : Happened c i e h) :
    ∃ c₁ c₂ k, Reachable M c₀ c₁ ∧ c₁.thread i = some ⟨e.loc, .call e.op k, h⟩ ∧ c₁.glob = e.pre ∧
      Step M c₁ c₂ ∧ c₂.glob = e.post ∧ Reachable M c₂ c := by
  induction hc with
  | refl => exact (not_happened h0 he).elim
  | @tail c c' hc hs ih =>
    rcases hs.happened with hold | ⟨j, e₀, h₀, k, ht, -, hpre, hpost, -, hnew⟩
    · obtain ⟨c₁, c₂, k, h₁, ht, h₂, h₃, h₄, h₅⟩ := ih (hold i e h he)
      exact ⟨c₁, c₂, k, h₁, ht, h₂, h₃, h₄, h₅.tail hs⟩
    · rcases hnew i e h he with he | ⟨rfl, rfl, rfl⟩
      · obtain ⟨c₁, c₂, k, h₁, ht, h₂, h₃, h₄, h₅⟩ := ih he
        exact ⟨c₁, c₂, k, h₁, ht, h₂, h₃, h₄, h₅.tail hs⟩
      · exact ⟨c, c', k, hc, ht, hpre.symm, hs, hpost.symm, .refl⟩

/-- The states around an entry were shared states of successive configurations of the run. -/
theorem entry_reachable {c₀ c : Config Op Resp L G α} (hc : Reachable M c₀ c)
    (h0 : ∀ i, c₀.thread i = none) {i : ℕ} {e : Entry Op Resp L G}
    {h : List (Entry Op Resp L G)} (he : Happened c i e h) :
    ∃ c₁ c₂, Reachable M c₀ c₁ ∧ c₁.glob = e.pre ∧ Step M c₁ c₂ ∧ c₂.glob = e.post ∧
      Reachable M c₂ c := by
  obtain ⟨c₁, c₂, k, h₁, -, h₂, h₃, h₄, h₅⟩ := he.origin hc h0
  exact ⟨c₁, c₂, h₁, h₂, h₃, h₄, h₅⟩

/-- What no entry and nothing outside changes is as it was. -/
theorem kept_of_entries {β : Type} {F : G → β} {c₀ c : Config Op Resp L G α}
    (henv : ∀ g g', M.env g g' → F g' = F g) (hc : Reachable M c₀ c)
    (hkept : ∀ i e h, Happened c i e h → F e.post = F e.pre) : F c.glob = F c₀.glob := by
  induction hc with
  | refl => rfl
  | @tail c c' hc hs ih =>
    have hbefore := ih fun i e h he => hkept i e h (he.step hs)
    rw [← hbefore]
    cases hs with
    | env henv' => exact henv _ _ henv'
    | spawn => rfl
    | call hj hst => exact hkept _ _ _ ⟨_, Function.update_self .., List.suffix_refl _⟩
    | again => rfl

/-- **What undoes its own condition for good happens at most once in a run.** -/
theorem at_most_once {c₀ c : Config Op Resp L G α} {Does : Entry Op Resp L G → Prop} {D : G → Prop}
    (h0 : ∀ i, c₀.thread i = none)
    (hdoes : ∀ c i e h, Reachable M c₀ c → Happened c i e h → Does e → ¬ D e.pre ∧ D e.post)
    (hstable : ∀ c c', Reachable M c₀ c → Step M c c' → D c.glob → D c'.glob)
    (hc : Reachable M c₀ c) :
    (∀ i e h, Happened c i e h → Does e → D c.glob) ∧
    ∀ i₁ e₁ h₁ i₂ e₂ h₂, Happened c i₁ e₁ h₁ → Does e₁ → Happened c i₂ e₂ h₂ → Does e₂ →
      i₁ = i₂ ∧ h₁ = h₂ := by
  induction hc with
  | refl =>
    exact ⟨fun _ _ _ he => (not_happened h0 he).elim, fun _ _ _ _ _ _ he => (not_happened h0 he).elim⟩
  | @tail c c' hc hs ih =>
    obtain ⟨hdone, honce⟩ := ih
    have hc' := Relation.ReflTransGen.tail hc hs
    rcases hs.happened with hold | ⟨j, e₀, h₀, k, -, -, hpre, hpost, he₀, hnew⟩
    · exact ⟨fun i e h he hd => hstable c c' hc hs (hdone i e h (hold i e h he) hd),
        fun i₁ e₁ h₁ i₂ e₂ h₂ he₁ hd₁ he₂ hd₂ =>
          honce i₁ e₁ h₁ i₂ e₂ h₂ (hold _ _ _ he₁) hd₁ (hold _ _ _ he₂) hd₂⟩
    -- the new entry found the condition, which no earlier one had left
    have hfirst : Does e₀ → ∀ i e h, Happened c i e h → ¬ Does e := fun hd₀ i e h he hd =>
      (hdoes c' j e₀ h₀ hc' he₀ hd₀).1 (hpre ▸ hdone i e h he hd)
    refine ⟨fun i e h he hd => ?_, fun i₁ e₁ h₁ i₂ e₂ h₂ he₁ hd₁ he₂ hd₂ => ?_⟩
    · rcases hnew i e h he with he | ⟨rfl, rfl, rfl⟩
      · exact hstable c c' hc hs (hdone i e h he hd)
      · exact hpost ▸ (hdoes c' _ _ _ hc' he₀ hd).2
    · rcases hnew i₁ e₁ h₁ he₁ with he₁ | ⟨rfl, rfl, rfl⟩ <;>
        rcases hnew i₂ e₂ h₂ he₂ with he₂ | ⟨rfl, rfl, rfl⟩
      · exact honce i₁ e₁ h₁ i₂ e₂ h₂ he₁ hd₁ he₂ hd₂
      · exact (hfirst hd₂ _ _ _ he₁ hd₁).elim
      · exact (hfirst hd₁ _ _ _ he₂ hd₂).elim
      · exact ⟨rfl, rfl⟩

/-! ## Safety of one program in any company -/

variable (st : List (Entry Op Resp L G) → (o : Op) → L → G → Resp o → L → G → Prop)
  (I : L → G → Prop) (C : List (Entry Op Resp L G) → L → G → Op → Prop)

/-- `p`, with history `h` and private state `l`, meets `C` at every operation it performs and `Q`
when it returns, whatever shared state satisfying `I` it finds at each of its steps. -/
def Safe (Q : List (Entry Op Resp L G) → L → α → Prop) :
    List (Entry Op Resp L G) → L → Prog Op Resp α → Prop
  | h, l, .ret a => Q h l a
  | h, l, .call o k => ∀ g, I l g →
      C h l g o ∧ ∀ r l' g', st h o l g r l' g' → Safe Q (⟨o, r, l, g, l', g'⟩ :: h) l' (k r)

variable {st I C}

@[simp] theorem safe_ret {Q : List (Entry Op Resp L G) → L → α → Prop}
    {h : List (Entry Op Resp L G)} {l : L} {a : α} :
    Safe st I C Q h l (.ret a) ↔ Q h l a := Iff.rfl

theorem safe_call {Q : List (Entry Op Resp L G) → L → α → Prop} {h : List (Entry Op Resp L G)}
    {l : L} {o : Op} {k : Resp o → Prog Op Resp α} :
    Safe st I C Q h l (.call o k) ↔ ∀ g, I l g →
      C h l g o ∧ ∀ r l' g', st h o l g r l' g' →
        Safe st I C Q (⟨o, r, l, g, l', g'⟩ :: h) l' (k r) := Iff.rfl

/-- **The sequencing rule.** -/
theorem safe_bind {Q : List (Entry Op Resp L G) → L → β → Prop} {p : Prog Op Resp α}
    {f : α → Prog Op Resp β} {h : List (Entry Op Resp L G)} {l : L} :
    Safe st I C Q h l (p.bind f) ↔
      Safe st I C (fun h l a => Safe st I C Q h l (f a)) h l p := by
  induction p generalizing h l with
  | ret a => exact Iff.rfl
  | call o k ih =>
    simp only [Prog.call_bind, safe_call]
    refine forall_congr' fun g => forall_congr' fun _ => and_congr Iff.rfl ?_
    exact forall_congr' fun r => forall_congr' fun l' => forall_congr' fun g' =>
      forall_congr' fun _ => ih r

/-- What holds of a value, or of an error. -/
def OnResult (ok : α → Prop) (error : ε → Prop) : Except ε α → Prop
  | .ok a => ok a
  | .error e => error e

/-- The sequencing rule of programs that may fail. -/
theorem safe_run_bind {Q : List (Entry Op Resp L G) → L → Except ε β → Prop}
    {x : Handler Op Resp ε α} {f : α → Handler Op Resp ε β} {h : List (Entry Op Resp L G)} {l : L} :
    Safe st I C Q h l (x >>= f).run ↔ Safe st I C (fun h l => OnResult
      (fun a => Safe st I C Q h l (f a).run) (fun e => Q h l (.error e))) h l x.run := by
  rw [run_bind, safe_bind]
  refine iff_of_eq (congrArg (fun R => Safe st I C R h l x.run) ?_)
  funext h l r
  cases r <;> rfl

theorem safe_attempt_bind {Q : List (Entry Op Resp L G) → L → Except ε β → Prop} {o : Op}
    {g : Resp o → Except ε α} {f : α → Handler Op Resp ε β} {h : List (Entry Op Resp L G)} {l : L} :
    Safe st I C Q h l (attempt o g >>= f).run ↔ ∀ w, I l w →
      C h l w o ∧ ∀ r l' w', st h o l w r l' w' → OnResult
        (fun a => Safe st I C Q (⟨o, r, l, w, l', w'⟩ :: h) l' (f a).run)
        (fun e => Q (⟨o, r, l, w, l', w'⟩ :: h) l' (.error e)) (g r) := by
  rw [safe_run_bind]
  rfl

theorem safe_fromExcept_bind {Q : List (Entry Op Resp L G) → L → Except ε β → Prop}
    {x : Except ε α} {f : α → Handler Op Resp ε β} {h : List (Entry Op Resp L G)} {l : L} :
    Safe st I C Q h l (fromExcept x >>= f).run ↔
      OnResult (fun a => Safe st I C Q h l (f a).run) (fun e => Q h l (.error e)) x := by
  rw [safe_run_bind]
  rfl

theorem Safe.mono {Q Q' : List (Entry Op Resp L G) → L → α → Prop} {p : Prog Op Resp α}
    (hQ : ∀ h l a, Q h l a → Q' h l a) {h : List (Entry Op Resp L G)} {l : L}
    (hp : Safe st I C Q h l p) : Safe st I C Q' h l p := by
  induction p generalizing h l with
  | ret a => exact hQ _ _ _ hp
  | call o k ih =>
    exact fun g hg => ⟨(hp g hg).1, fun r l' g' hs => ih r ((hp g hg).2 r l' g' hs)⟩

/-- A program safe under more steps is safe under fewer. -/
theorem Safe.weaken {st' : List (Entry Op Resp L G) → (o : Op) → L → G → Resp o → L → G → Prop}
    (hst : ∀ h o l g r l' g', st' h o l g r l' g' → st h o l g r l' g')
    {Q : List (Entry Op Resp L G) → L → α → Prop} {p : Prog Op Resp α}
    {h : List (Entry Op Resp L G)} {l : L} (hp : Safe st I C Q h l p) : Safe st' I C Q h l p := by
  induction p generalizing h l with
  | ret a => exact hp
  | call o k ih =>
    exact fun g hg => ⟨(hp g hg).1, fun r l' g' hs => ih r ((hp g hg).2 r l' g' (hst _ _ _ _ _ _ _ hs))⟩

/-- What every step keeps of the private state holds at the end. -/
theorem Safe.keep {J : L → Prop} (hJ : ∀ h o l g r l' g', st h o l g r l' g' → J l → J l')
    {Q : List (Entry Op Resp L G) → L → α → Prop} {p : Prog Op Resp α}
    {h : List (Entry Op Resp L G)} {l : L} (hp : Safe st I C Q h l p) (hl : J l) :
    Safe st I C (fun h l a => Q h l a ∧ J l) h l p := by
  induction p generalizing h l with
  | ret a => exact ⟨hp, hl⟩
  | call o k ih =>
    exact fun g hg => ⟨(hp g hg).1, fun r l' g' hs =>
      ih r ((hp g hg).2 r l' g' hs) (hJ _ _ _ _ _ _ _ hs hl)⟩

/-- A program that ends in two ways ends in both at once. -/
theorem Safe.and {C' : List (Entry Op Resp L G) → L → G → Op → Prop}
    {Q Q' : List (Entry Op Resp L G) → L → α → Prop} {p : Prog Op Resp α}
    {h : List (Entry Op Resp L G)} {l : L} (hp : Safe st I C Q h l p) (hp' : Safe st I C' Q' h l p) :
    Safe st I C (fun h l a => Q h l a ∧ Q' h l a) h l p := by
  induction p generalizing h l with
  | ret a => exact ⟨hp, hp'⟩
  | call o k ih =>
    exact fun g hg => ⟨(hp g hg).1, fun r l' g' hs =>
      ih r ((hp g hg).2 r l' g' hs) ((hp' g hg).2 r l' g' hs)⟩

/-- A program whose operations are all of `P` is safe if these keep a condition under which they meet
theirs. -/
theorem safe_of_all_keeps {P : Op → Prop} {J : List (Entry Op Resp L G) → L → Prop}
    (hC : ∀ h l g o, P o → J h l → C h l g o)
    (hJ : ∀ h o l g r l' g', P o → st h o l g r l' g' → J h l → J (⟨o, r, l, g, l', g'⟩ :: h) l')
    {p : Prog Op Resp α} (hp : p.All P) {h : List (Entry Op Resp L G)} {l : L} (hl : J h l) :
    Safe st I C (fun h l _ => J h l) h l p := by
  induction p generalizing h l with
  | ret a => exact hl
  | call o k ih =>
    exact fun g _ => ⟨hC h l g o hp.1 hl, fun r l' g' hs => ih r (hp.2 r) (hJ _ _ _ _ _ _ _ hp.1 hs hl)⟩

/-- What every operation of `P` keeps holds after a program of such operations. -/
theorem safe_of_all {P : Op → Prop} {J : List (Entry Op Resp L G) → L → Prop}
    (hJ : ∀ h o l g r l' g', P o → st h o l g r l' g' → J h l → J (⟨o, r, l, g, l', g'⟩ :: h) l')
    {p : Prog Op Resp α} (hp : p.All P) {h : List (Entry Op Resp L G)} {l : L} (hl : J h l) :
    Safe st I (fun _ _ _ _ => True) (fun h l _ => J h l) h l p :=
  safe_of_all_keeps (fun _ _ _ _ _ _ => trivial) hJ hp hl

/-- A program is safe if each of its operations meets its condition anywhere. -/
theorem safe_of_all_meets {P : Op → Prop} (hC : ∀ h l g o, P o → C h l g o) {p : Prog Op Resp α}
    (hp : p.All P) {h : List (Entry Op Resp L G)} {l : L} : Safe st I C (fun _ _ _ => True) h l p :=
  safe_of_all_keeps (J := fun _ _ => True) (fun h l g o ho _ => hC h l g o ho)
    (fun _ _ _ _ _ _ _ _ _ _ => trivial) hp trivial

theorem safe_trivial {p : Prog Op Resp α} {h : List (Entry Op Resp L G)} {l : L} :
    Safe st I (fun _ _ _ _ => True) (fun _ _ _ => True) h l p := by
  induction p generalizing h l with
  | ret a => exact trivial
  | call o k ih => exact fun g _ => ⟨trivial, fun r l' g' _ => ih r⟩

/-- Every thread of every reachable configuration satisfies `I`. -/
def Keeps (M : Machine Op Resp L G α) (I : L → G → Prop) (c₀ : Config Op Resp L G α) : Prop :=
  ∀ c, Reachable M c₀ c → ∀ i t, c.thread i = some t → I t.loc c.glob

/-- **Programs that are safe alone are safe in every interleaving.** -/
theorem safe_reachable {Q : List (Entry Op Resp L G) → L → α → Prop}
    {c₀ c : Config Op Resp L G α} (hI : Keeps M I c₀) (h0 : ∀ i, c₀.thread i = none)
    (hstart : ∀ i l p, M.start i l p → Safe M.step I C Q [] l p)
    (hagain : ∀ h l a p, Q h l a → M.again a = some p → Safe M.step I C Q h l p)
    (hc : Reachable M c₀ c) :
    ∀ i t, c.thread i = some t → Safe M.step I C Q t.hist t.loc t.prog := by
  refine hc.invariant (I := fun c => ∀ i t, c.thread i = some t →
    Safe M.step I C Q t.hist t.loc t.prog) (fun i t ht => by rw [h0] at ht; cases ht) ?_
  intro c c' hc ih hs i t ht
  cases hs with
  | env _ => exact ih i t ht
  | @spawn j _ _ hj hst =>
    by_cases hij : i = j
    · subst hij
      simp only [Function.update_self, Option.some.injEq] at ht
      subst ht
      exact hstart _ _ _ hst
    · exact ih i t (by simpa [Function.update_of_ne hij] using ht)
  | @call j l o k h r l' g hj hst =>
    by_cases hij : i = j
    · subst hij
      have hsafe := ih i _ hj
      simp only [Function.update_self, Option.some.injEq] at ht
      subst ht
      exact (hsafe _ (hI c hc i _ hj)).2 _ _ _ hst
    · exact ih i t (by simpa [Function.update_of_ne hij] using ht)
  | @again j l a h p hj hag =>
    by_cases hij : i = j
    · subst hij
      have hsafe := ih i _ hj
      simp only [Function.update_self, Option.some.injEq] at ht
      subst ht
      exact hagain _ _ _ _ hsafe hag
    · exact ih i t (by simpa [Function.update_of_ne hij] using ht)

/-- Every operation a safe thread performed met its condition when it was performed. -/
theorem past_of_safe {Q : List (Entry Op Resp L G) → L → α → Prop}
    {c₀ c : Config Op Resp L G α} (hI : Keeps M I c₀) (h0 : ∀ i, c₀.thread i = none)
    (hstart : ∀ i l p, M.start i l p → Safe M.step I C Q [] l p)
    (hagain : ∀ h l a p, Q h l a → M.again a = some p → Safe M.step I C Q h l p)
    (hc : Reachable M c₀ c) :
    ∀ i e h, Happened c i e h → C h e.loc e.pre e.op := by
  refine hc.entries (P := fun _ h e => C h e.loc e.pre e.op) h0 ?_
  intro c i e h k hc ht _ hpre
  have hsafe := safe_reachable hI h0 hstart hagain hc i _ ht
  rw [hpre]
  exact (hsafe _ (hI c hc i _ ht)).1

end Interaction
