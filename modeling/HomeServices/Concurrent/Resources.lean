import HomeServices.Concurrent.Program
import Mathlib.Algebra.BigOperators.Group.Finset.Basic
import Mathlib.Algebra.Order.BigOperators.Group.Finset

/-!
# Programs that share a bounded pool

Programs take units of a pool and return them; taking one waits, without end, until one is free.

* `Pooled`, `Prog.lift`, `holding`: programs with the units they hold; `Prog.erase`: without them.
* `Prog.inl`, `Prog.inr`: programs of two kinds as programs of one.
* `Within`: a program asks only while it holds at most a given number of units; its rules.
* `Prog.Returns`, `returns_of_within`: one that holds more returns a unit before it asks again.
* `poolMachine`, `within_reachable`, **`live_of_within`**: if the units that tasks keep while they ask
  never use up the pool, then whenever a task waits, one that does not wait is about to return a unit.
-/

namespace Interaction

variable {Op Op' : Type} {Resp : Op → Type} {Resp' : Op' → Type} {α β ε : Type}

/-! ## Programs over a pool -/

/-- Take a unit, by an operation that may fail; return one; or do something else. -/
inductive Pooled (Op : Type) where
  | get (o : Op)
  | put
  | op (o : Op)

abbrev PooledResp (Resp : Op → Type) : Pooled Op → Type
  | .get o | .op o => Resp o
  | .put => Unit

namespace Prog

/-- A program that does not use the pool. -/
def lift : Prog Op Resp α → Prog (Pooled Op) (PooledResp Resp) α
  | ret a => ret a
  | call o k => call (.op o) fun r => (k r).lift

/-- The program without the returns. -/
def erase : Prog (Pooled Op) (PooledResp Resp) α → Prog Op Resp α
  | ret a => ret a
  | call (.get o) k => call o fun r => (k r).erase
  | call .put k => (k ()).erase
  | call (.op o) k => call o fun r => (k r).erase

@[simp] theorem erase_ret (a : α) : (ret a : Prog (Pooled Op) (PooledResp Resp) α).erase = ret a := rfl

@[simp] theorem erase_lift (p : Prog Op Resp α) : p.lift.erase = p := by
  induction p with
  | ret a => rfl
  | call o k ih => exact congrArg (call o) (funext ih)

@[simp] theorem erase_bind (p : Prog (Pooled Op) (PooledResp Resp) α)
    (f : α → Prog (Pooled Op) (PooledResp Resp) β) :
    (p.bind f).erase = p.erase.bind fun a => (f a).erase := by
  induction p with
  | ret a => rfl
  | call o k ih =>
    cases o with
    | get o | op o => exact congrArg (call o) (funext ih)
    | put => exact ih ()

/-- Returning units changes no result. -/
theorem yields_erase {p : Prog (Pooled Op) (PooledResp Resp) α} {a : α} : p.erase.Yields a ↔ p.Yields a := by
  induction p with
  | ret b => exact Iff.rfl
  | call o k ih =>
    cases o with
    | get o | op o => exact exists_congr ih
    | put => exact (ih ()).trans ⟨fun h => ⟨(), h⟩, fun ⟨_, h⟩ => h⟩

end Prog

/-- A handler that does not use the pool. -/
def lifted (x : Handler Op Resp ε α) : Handler (Pooled Op) (PooledResp Resp) ε α := ExceptT.mk x.run.lift

/-- Take a unit, run `x`, and return the unit, however `x` ends. -/
def holding (o : Op) (f : Resp o → Except ε Unit) (x : Handler Op Resp ε α) :
    Handler (Pooled Op) (PooledResp Resp) ε α :=
  ExceptT.mk (.call (.get o) fun r => match f r with
    | .error e => .ret (.error e)
    | .ok () => x.run.lift.bind fun a => .call .put fun _ => .ret a)

/-- The handler without the returns. -/
def erased (x : Handler (Pooled Op) (PooledResp Resp) ε α) : Handler Op Resp ε α := ExceptT.mk x.run.erase

@[simp] theorem erased_lifted (x : Handler Op Resp ε α) : erased (lifted x) = x := Prog.erase_lift x.run

@[simp] theorem erased_pure (a : α) :
    erased (pure a : Handler (Pooled Op) (PooledResp Resp) ε α) = pure a := rfl

@[simp] theorem erased_bind (x : Handler (Pooled Op) (PooledResp Resp) ε α)
    (f : α → Handler (Pooled Op) (PooledResp Resp) ε β) :
    erased (x >>= f) = erased x >>= fun a => erased (f a) := by
  refine ExceptT.ext ?_
  rw [erased, ExceptT.run_mk, run_bind, run_bind, Prog.erase_bind]
  refine congrArg (Prog.bind _) (funext fun r => ?_)
  cases r <;> rfl

@[simp] theorem erased_holding (o : Op) (f : Resp o → Except ε Unit) (x : Handler Op Resp ε α) :
    erased (holding o f x) = attempt o f >>= fun _ => x := by
  refine ExceptT.ext ?_
  rw [run_bind]
  refine congrArg (Prog.call o) (funext fun r => ?_)
  dsimp only [Prog.ret_bind]
  cases f r with
  | error e => rfl
  | ok a =>
    dsimp only
    rw [Prog.erase_bind, Prog.erase_lift]
    exact Prog.bind_ret x.run

/-! ## Two kinds of programs on one pool -/

abbrev SumResp (Resp : Op → Type) (Resp' : Op' → Type) : Op ⊕ Op' → Type
  | .inl o => Resp o
  | .inr o => Resp' o

namespace Prog

def inl (f : α → β) : Prog (Pooled Op) (PooledResp Resp) α →
    Prog (Pooled (Op ⊕ Op')) (PooledResp (SumResp Resp Resp')) β
  | ret a => ret (f a)
  | call (.get o) k => call (.get (.inl o)) fun r => (k r).inl f
  | call .put k => call .put fun r => (k r).inl f
  | call (.op o) k => call (.op (.inl o)) fun r => (k r).inl f

def inr (f : α → β) : Prog (Pooled Op') (PooledResp Resp') α →
    Prog (Pooled (Op ⊕ Op')) (PooledResp (SumResp Resp Resp')) β
  | ret a => ret (f a)
  | call (.get o) k => call (.get (.inr o)) fun r => (k r).inr f
  | call .put k => call .put fun r => (k r).inr f
  | call (.op o) k => call (.op (.inr o)) fun r => (k r).inr f

end Prog

def grantedSum (granted : (o : Op) → Resp o → Bool) (granted' : (o : Op') → Resp' o → Bool) :
    (o : Op ⊕ Op') → SumResp Resp Resp' o → Bool
  | .inl o => granted o
  | .inr o => granted' o

/-! ## How many units a program holds -/

section Units

-- whether an answer grants a unit
variable (granted : (o : Op) → Resp o → Bool)

/-- Holding `h` units, the program asks for one only while it holds at most `m`, and ends in `Q`. -/
def Within (m : ℕ) (Q : ℕ → α → Prop) : ℕ → Prog (Pooled Op) (PooledResp Resp) α → Prop
  | h, .ret a => Q h a
  | h, .call (.get o) k => h ≤ m ∧ ∀ r, Within m Q (if granted o r then h + 1 else h) (k r)
  | h, .call .put k => 0 < h ∧ Within m Q (h - 1) (k ())
  | h, .call (.op _) k => ∀ r, Within m Q h (k r)

/-- However it goes on, the program returns a unit before it asks for one. -/
def Prog.Returns : Prog (Pooled Op) (PooledResp Resp) α → Prop
  | ret _ => False
  | call (.get _) _ => False
  | call .put _ => True
  | call (.op _) k => ∀ r, (k r).Returns

variable {granted} {m : ℕ} {Q : ℕ → α → Prop} {h : ℕ}

theorem Within.bind {R : ℕ → β → Prop} {p : Prog (Pooled Op) (PooledResp Resp) α}
    {f : α → Prog (Pooled Op) (PooledResp Resp) β} (hp : Within granted m Q h p)
    (hf : ∀ h a, Q h a → Within granted m R h (f a)) : Within granted m R h (p.bind f) := by
  induction p generalizing h with
  | ret a => exact hf h a hp
  | call o k ih =>
    cases o with
    | get o => exact ⟨hp.1, fun r => ih r (hp.2 r)⟩
    | put => exact ⟨hp.1, ih () hp.2⟩
    | op o => exact fun r => ih r (hp r)

theorem within_lift {p : Prog Op Resp α} (hQ : ∀ a, Q h a) : Within granted m Q h p.lift := by
  induction p with
  | ret a => exact hQ a
  | call o k ih => exact fun r => ih r

/-- Taking a unit for a scope leaves as many as before. -/
theorem within_holding {o : Op} {f : Resp o → Except ε Unit} {x : Handler Op Resp ε α}
    {Q : ℕ → Except ε α → Prop} (hf : ∀ r, granted o r = (f r).isOk) (hm : h ≤ m) (hQ : ∀ a, Q h a) :
    Within granted m Q h (holding o f x).run := by
  refine ⟨hm, fun r => ?_⟩
  rw [hf r]
  dsimp only
  cases f r with
  | error e => exact hQ (.error e)
  | ok a =>
    refine (within_lift (Q := fun h' _ => h' = h + 1) fun _ => rfl).bind ?_
    rintro _ b rfl
    exact ⟨Nat.succ_pos h, hQ b⟩

theorem Within.inl {granted' : (o : Op') → Resp' o → Bool} {R : ℕ → β → Prop} {f : α → β}
    {p : Prog (Pooled Op) (PooledResp Resp) α} (hp : Within granted m Q h p)
    (hQ : ∀ h a, Q h a → R h (f a)) : Within (grantedSum granted granted') m R h (p.inl f) := by
  induction p generalizing h with
  | ret a => exact hQ h a hp
  | call o k ih =>
    cases o with
    | get o => exact ⟨hp.1, fun r => ih r (hp.2 r)⟩
    | put => exact ⟨hp.1, ih () hp.2⟩
    | op o => exact fun r => ih r (hp r)

theorem Within.inr {granted' : (o : Op') → Resp' o → Bool} {R : ℕ → β → Prop} {f : α → β}
    {p : Prog (Pooled Op) (PooledResp Resp) α} (hp : Within granted m Q h p)
    (hQ : ∀ h a, Q h a → R h (f a)) : Within (grantedSum granted' granted) m R h (p.inr f) := by
  induction p generalizing h with
  | ret a => exact hQ h a hp
  | call o k ih =>
    cases o with
    | get o => exact ⟨hp.1, fun r => ih r (hp.2 r)⟩
    | put => exact ⟨hp.1, ih () hp.2⟩
    | op o => exact fun r => ih r (hp r)

/-- A program that holds more than it may ask with is about to return a unit. -/
theorem returns_of_within (hQ : ∀ h a, Q h a → h ≤ m) {p : Prog (Pooled Op) (PooledResp Resp) α}
    (hp : Within granted m Q h p) (hm : m < h) : p.Returns := by
  induction p with
  | ret a => exact Nat.not_le.mpr hm (hQ h a hp)
  | call o k ih =>
    cases o with
    | get o => exact Nat.not_le.mpr hm hp.1
    | put => exact trivial
    | op o => exact fun r => ih r (hp r)

end Units

/-! ## Tasks on one pool -/

section Machine

variable (granted : (o : Op) → Resp o → Bool) (n : ℕ)

/-- One operation of the task `i`, by the tasks that hold the units; a unit is granted if one is free. -/
def PoolStep : (o : Pooled Op) → ℕ → List ℕ → PooledResp Resp o → List ℕ → Prop
  | .get o, i, owners, r, owners' => owners.length < n ∧ owners' = if granted o r then i :: owners else owners
  | .put, i, owners, _, owners' => i ∈ owners ∧ owners' = owners.erase i
  | .op _, _, owners, _, owners' => owners' = owners

/-- Tasks over a pool of `n` units. -/
def poolMachine (start : ℕ → Prog (Pooled Op) (PooledResp Resp) α → Prop)
    (again : α → Option (Prog (Pooled Op) (PooledResp Resp) α)) :
    Machine (Pooled Op) (PooledResp Resp) ℕ (List ℕ) α where
  start i l p := l = i ∧ start i p
  step _ o i owners r i' owners' := i' = i ∧ PoolStep granted n o i owners r owners'
  again := again
  env _ _ := False

/-- The task is about to take a unit, and none is free. -/
def Waiting (c : Config (Pooled Op) (PooledResp Resp) ℕ (List ℕ) α) (i : ℕ) : Prop :=
  n ≤ c.glob.length ∧ ∃ l o k h, c.thread i = some ⟨l, .call (.get o) k, h⟩

/-- If a task waits, some unit is held by one that does not and is about to return it. -/
def Live (c : Config (Pooled Op) (PooledResp Resp) ℕ (List ℕ) α) : Prop :=
  (∃ i, Waiting n c i) → ∃ j ∈ c.glob, ¬ Waiting n c j ∧ ∃ t, c.thread j = some t ∧ t.prog.Returns

variable {granted n} {start : ℕ → Prog (Pooled Op) (PooledResp Resp) α → Prop}
  {again : α → Option (Prog (Pooled Op) (PooledResp Resp) α)} {m : ℕ → ℕ} {Q : ℕ → ℕ → α → Prop}

/-- Every task holds what it is counted to hold, and only tasks hold units. -/
structure Counted (granted : (o : Op) → Resp o → Bool) (m : ℕ → ℕ) (Q : ℕ → ℕ → α → Prop)
    (c : Config (Pooled Op) (PooledResp Resp) ℕ (List ℕ) α) : Prop where
  within : ∀ i t, c.thread i = some t → t.loc = i ∧ Within granted (m i) (Q i) (c.glob.count i) t.prog
  owned : ∀ i ∈ c.glob, ∃ t, c.thread i = some t

theorem count_other {o : Pooled Op} {i j : ℕ} {owners owners' : List ℕ} {r : PooledResp Resp o}
    (hst : PoolStep granted n o i owners r owners') (hij : j ≠ i) : owners'.count j = owners.count j := by
  cases o with
  | get o =>
    rw [hst.2]
    split_ifs
    · exact List.count_cons_of_ne (Ne.symm hij)
    · rfl
  | put => rw [hst.2, List.count_erase_of_ne hij]
  | op o => rw [hst]

theorem mem_owners {o : Pooled Op} {i j : ℕ} {owners owners' : List ℕ} {r : PooledResp Resp o}
    (hst : PoolStep granted n o i owners r owners') (hj : j ∈ owners') : j = i ∨ j ∈ owners := by
  by_cases hij : j = i
  · exact Or.inl hij
  · refine Or.inr (List.count_pos_iff.mp ?_)
    rw [← count_other hst hij]
    exact List.count_pos_iff.mpr hj

theorem within_self {o : Pooled Op} {i : ℕ} {owners owners' : List ℕ} {r : PooledResp Resp o}
    {k : PooledResp Resp o → Prog (Pooled Op) (PooledResp Resp) α} {m : ℕ} {Q : ℕ → α → Prop}
    (hst : PoolStep granted n o i owners r owners') (h : Within granted m Q (owners.count i) (.call o k)) :
    Within granted m Q (owners'.count i) (k r) := by
  cases o with
  | get o =>
    rw [hst.2]
    have hnext := h.2 r
    split_ifs at hnext ⊢
    · rwa [List.count_cons_self]
    · exact hnext
  | put =>
    rw [hst.2, List.count_erase_self]
    exact h.2
  | op o =>
    obtain rfl := hst
    exact h r

theorem Counted.step (hstart : ∀ i p, start i p → Within granted (m i) (Q i) 0 p)
    (hagain : ∀ i h a p, Q i h a → again a = some p → Within granted (m i) (Q i) h p)
    {c c' : Config (Pooled Op) (PooledResp Resp) ℕ (List ℕ) α} (h : Counted granted m Q c)
    (hs : Step (poolMachine granted n start again) c c') : Counted granted m Q c' := by
  have howned : ∀ i ∈ c.glob, ∃ t, c'.thread i = some t := fun i hi => by
    obtain ⟨t, ht⟩ := h.owned i hi
    obtain ⟨t', ht', -⟩ := hs.hist_suffix ht
    exact ⟨t', ht'⟩
  cases hs with
  | env henv => exact henv.elim
  | @spawn j l p hj hst =>
    refine ⟨fun i t ht => ?_, howned⟩
    by_cases hij : i = j
    · subst hij
      cases (Function.update_self ..).symm.trans ht
      have hnone : c.glob.count i = 0 := List.count_eq_zero.mpr fun hi => by
        obtain ⟨t, ht⟩ := h.owned i hi
        cases hj.symm.trans ht
      rw [hnone]
      exact ⟨hst.1, hstart i p hst.2⟩
    · exact h.within i t (by simpa [Function.update_of_ne hij] using ht)
  | @call j l o k hist r l' g hj hst =>
    obtain ⟨rfl, hst⟩ := hst
    obtain ⟨rfl, hwithin⟩ := h.within j _ hj
    refine ⟨fun i t ht => ?_, fun i hi => ?_⟩
    · by_cases hij : i = l'
      · subst hij
        cases (Function.update_self ..).symm.trans ht
        exact ⟨rfl, within_self hst hwithin⟩
      · rw [count_other hst hij]
        exact h.within i t (by simpa [Function.update_of_ne hij] using ht)
    · rcases mem_owners hst hi with rfl | hi
      · exact ⟨_, Function.update_self ..⟩
      · exact howned i hi
  | @again j l a hist p hj hag =>
    refine ⟨fun i t ht => ?_, howned⟩
    by_cases hij : i = j
    · subst hij
      cases (Function.update_self ..).symm.trans ht
      obtain ⟨hloc, hQ⟩ := h.within i _ hj
      exact ⟨hloc, hagain i _ a p hQ hag⟩
    · exact h.within i t (by simpa [Function.update_of_ne hij] using ht)

/-- Every task keeps to its number of units, in every run. -/
theorem within_reachable (hstart : ∀ i p, start i p → Within granted (m i) (Q i) 0 p)
    (hagain : ∀ i h a p, Q i h a → again a = some p → Within granted (m i) (Q i) h p)
    {c : Config (Pooled Op) (PooledResp Resp) ℕ (List ℕ) α}
    (hc : Reachable (poolMachine granted n start again) (.initial []) c) : Counted granted m Q c :=
  hc.invariant ⟨(fun i t ht => by cases ht), fun i hi => by cases hi⟩ fun _ _ _ h hs => h.step hstart hagain hs

/-- **A pool is live if the units that tasks may keep while they ask never use it up.** -/
theorem live_of_within (hstart : ∀ i p, start i p → Within granted (m i) (Q i) 0 p)
    (hagain : ∀ i h a p, Q i h a → again a = some p → Within granted (m i) (Q i) h p)
    (hQ : ∀ i h a, Q i h a → h ≤ m i) (hm : ∀ s : Finset ℕ, ∑ i ∈ s, m i < n)
    {c : Config (Pooled Op) (PooledResp Resp) ℕ (List ℕ) α}
    (hc : Reachable (poolMachine granted n start again) (.initial []) c) : Live n c := by
  have hcounted := within_reachable hstart hagain hc
  rintro ⟨-, hfull, -⟩
  obtain ⟨j, hj, hmore⟩ : ∃ j ∈ c.glob, m j < c.glob.count j := by
    by_contra hless
    have hle : ∀ j ∈ c.glob.toFinset, c.glob.count j ≤ m j := fun j hj =>
      not_lt.mp fun hlt => hless ⟨j, List.mem_toFinset.mp hj, hlt⟩
    have hlength : c.glob.length < n := by
      calc c.glob.length = ∑ j ∈ c.glob.toFinset, c.glob.count j := (List.sum_toFinset_count_eq_length _).symm
        _ ≤ ∑ j ∈ c.glob.toFinset, m j := Finset.sum_le_sum hle
        _ < n := hm _
    exact Nat.not_le.mpr hlength hfull
  obtain ⟨t, ht⟩ := hcounted.owned j hj
  have hwithin := (hcounted.within j t ht).2
  refine ⟨j, hj, ?_, t, ht, returns_of_within (hQ j) hwithin hmore⟩
  rintro ⟨-, l, o, k, hist, hasks⟩
  cases hasks.symm.trans ht
  exact Nat.not_le.mpr hmore hwithin.1

end Machine

end Interaction
