import Mathlib.Data.Set.Finite.Basic
import HomeServices.Concurrent.Program

/-!
# Protocols of programs

A protocol says which operations a program may perform in which phase, and which phase each answer
leads to. What a phase promises of the shared state holds whenever a thread is in that phase.

* `Protocol`, `Protocol.phase`, `Protocol.Follows`: protocols, the phase after a history, the
  programs that follow a protocol.
* `follows_bind`, `follows_run_bind`, `follows_attempt_bind`, `follows_fromExcept_bind`: the rules.
* **`follows_reachable`**: programs that follow a protocol follow it in every interleaving;
  **`promise_reachable`**: what the phases promise holds in every run.
* **`exists_of_transGen_self`**: those who wait only for later ones never wait in a circle.
* `finite_threads`, `finite_happened`: a run has finitely many threads, and finitely many entries.
-/

namespace Interaction

variable {Op : Type} {Resp : Op → Type} {L G α β ε S : Type}

/-- The operations that each phase allows, and the phase each answer leads to. -/
structure Protocol (Op : Type) (Resp : Op → Type) (S : Type) where
  allows : S → Op → Prop
  next : S → (o : Op) → Resp o → S

namespace Protocol

variable (P : Protocol Op Resp S)

/-- The phase after a history. -/
def phase (s : S) : List (Entry Op Resp L G) → S
  | [] => s
  | e :: h => P.next (phase s h) e.op e.resp

@[simp] theorem phase_nil (s : S) : P.phase s ([] : List (Entry Op Resp L G)) = s := rfl

@[simp] theorem phase_cons (s : S) (e : Entry Op Resp L G) (h : List (Entry Op Resp L G)) :
    P.phase s (e :: h) = P.next (P.phase s h) e.op e.resp := rfl

/-- From the phase on, the program performs only what is allowed, and returns in `Q`. -/
def Follows (Q : S → α → Prop) : S → Prog Op Resp α → Prop
  | s, .ret a => Q s a
  | s, .call o k => P.allows s o ∧ ∀ r, Follows Q (P.next s o r) (k r)

variable {P}

@[simp] theorem follows_ret {Q : S → α → Prop} {s : S} {a : α} :
    P.Follows Q s (.ret a) ↔ Q s a := Iff.rfl

theorem follows_call {Q : S → α → Prop} {s : S} {o : Op} {k : Resp o → Prog Op Resp α} :
    P.Follows Q s (.call o k) ↔ P.allows s o ∧ ∀ r, P.Follows Q (P.next s o r) (k r) := Iff.rfl

/-- **The sequencing rule.** -/
theorem follows_bind {Q : S → β → Prop} {p : Prog Op Resp α} {f : α → Prog Op Resp β} {s : S} :
    P.Follows Q s (p.bind f) ↔ P.Follows (fun s a => P.Follows Q s (f a)) s p := by
  induction p generalizing s with
  | ret a => exact Iff.rfl
  | call o k ih =>
    simp only [Prog.call_bind, follows_call]
    exact and_congr Iff.rfl (forall_congr' fun r => ih r)

/-- The sequencing rule of programs that may fail. -/
theorem follows_run_bind {Q : S → Except ε β → Prop} {x : Handler Op Resp ε α}
    {f : α → Handler Op Resp ε β} {s : S} :
    P.Follows Q s (x >>= f).run ↔ P.Follows (fun s => OnResult (fun a => P.Follows Q s (f a).run)
      (fun e => Q s (.error e))) s x.run := by
  rw [run_bind, follows_bind]
  refine iff_of_eq (congrArg (fun R => P.Follows R s x.run) ?_)
  funext s r
  cases r <;> rfl

theorem Follows.mono {Q Q' : S → α → Prop} (hQ : ∀ s a, Q s a → Q' s a) {p : Prog Op Resp α} {s : S}
    (hp : P.Follows Q s p) : P.Follows Q' s p := by
  induction p generalizing s with
  | ret a => exact hQ s a hp
  | call o k ih => exact ⟨hp.1, fun r => ih r (hp.2 r)⟩

theorem follows_attempt_bind {Q : S → Except ε β → Prop} {o : Op} {d : Resp o → Except ε α}
    {f : α → Handler Op Resp ε β} {s : S} :
    P.Follows Q s (attempt o d >>= f).run ↔ P.allows s o ∧ ∀ r, OnResult
      (fun a => P.Follows Q (P.next s o r) (f a).run) (fun e => Q (P.next s o r) (.error e)) (d r) := by
  rw [follows_run_bind]
  rfl

theorem follows_fromExcept_bind {Q : S → Except ε β → Prop} {x : Except ε α}
    {f : α → Handler Op Resp ε β} {s : S} :
    P.Follows Q s (fromExcept x >>= f).run ↔
      OnResult (fun a => P.Follows Q s (f a).run) (fun e => Q s (.error e)) x := by
  rw [follows_run_bind]
  rfl

/-! ## Phases of threads -/

variable {M : Machine Op Resp L G α} {c₀ c : Config Op Resp L G α} {s₀ : S}

/-- **Programs that follow a protocol follow it in every interleaving.** -/
theorem follows_reachable {Q : S → α → Prop} (h0 : ∀ i, c₀.thread i = none)
    (hagain : ∀ a, M.again a = none) (hstart : ∀ i l p, M.start i l p → P.Follows Q s₀ p)
    (hc : Reachable M c₀ c) :
    ∀ i t, c.thread i = some t → P.Follows Q (P.phase s₀ t.hist) t.prog := by
  refine hc.invariant (I := fun c => ∀ i t, c.thread i = some t →
    P.Follows Q (P.phase s₀ t.hist) t.prog) (fun i t ht => by rw [h0 i] at ht; cases ht) ?_
  intro c c' _ ih hs i t ht
  cases hs.moved ht with
  | stayed hstay => exact ih i t hstay
  | spawned _ hst _ => exact hstart _ _ _ hst
  | called hcall _ => exact (ih i _ hcall).2 _
  | again _ hag _ =>
    rw [hagain] at hag
    cases hag

/-- **What the phases promise holds in every run**, if each step of a thread keeps its own promise
and that of the others. -/
theorem promise_reachable {Q : S → α → Prop} {J : ℕ → S → L → G → Prop}
    (h0 : ∀ i, c₀.thread i = none) (hagain : ∀ a, M.again a = none)
    (hfollows : ∀ i l p, M.start i l p → P.Follows Q s₀ p)
    (hstart : ∀ c i l p, Reachable M c₀ c → c.thread i = none → M.start i l p → J i s₀ l c.glob)
    (hself : ∀ c i l o k h r l' g', Reachable M c₀ c → c.thread i = some ⟨l, .call o k, h⟩ →
      P.allows (P.phase s₀ h) o → J i (P.phase s₀ h) l c.glob → M.step h o l c.glob r l' g' →
      J i (P.next (P.phase s₀ h) o r) l' g')
    (hother : ∀ c i l o k h r l' g', Reachable M c₀ c → c.thread i = some ⟨l, .call o k, h⟩ →
      M.step h o l c.glob r l' g' → ∀ j t, j ≠ i → c.thread j = some t →
      J j (P.phase s₀ t.hist) t.loc c.glob → J j (P.phase s₀ t.hist) t.loc g')
    (henv : ∀ i s l g g', M.env g g' → J i s l g → J i s l g') (hc : Reachable M c₀ c) :
    ∀ i t, c.thread i = some t → J i (P.phase s₀ t.hist) t.loc c.glob := by
  refine hc.invariant (I := fun c => ∀ i t, c.thread i = some t →
    J i (P.phase s₀ t.hist) t.loc c.glob) (fun i t ht => by rw [h0 i] at ht; cases ht) ?_
  intro c c' hc ih hs i t ht
  cases hs with
  | env hstep => exact henv i _ _ _ _ hstep (ih i t ht)
  | @spawn j l p hj hst =>
    by_cases hij : i = j
    · subst hij
      cases (Function.update_self ..).symm.trans ht
      exact hstart c i l p hc hj hst
    · exact ih i t (by simpa [Function.update_of_ne hij] using ht)
  | @call j l o k h r l' g hj hst =>
    by_cases hij : i = j
    · subst hij
      cases (Function.update_self ..).symm.trans ht
      have hallows := (follows_reachable h0 hagain hfollows hc i _ hj).1
      exact hself c i l o k h r l' g hc hj hallows (ih i _ hj) hst
    · have ht' : c.thread i = some t := by simpa [Function.update_of_ne hij] using ht
      exact hother c j l o k h r l' g hc hj hst i t hij ht' (ih i t ht')
  | again _ hag =>
    rw [hagain] at hag
    cases hag

end Protocol

/-! ## Waiting -/

section Waiting

open Relation

variable {ι α : Type} [Preorder α] {R : ι → ι → Prop} {P : ι → Prop} {place : ι → α}

/-- **Who waits only for those in a later place waits in no circle**, so on every circle there is one who
may wait for others. -/
theorem exists_of_transGen_self (hR : ∀ i j, R i j → ¬ P i → ¬ P j → place i < place j) {i : ι}
    (h : TransGen R i i) : ∃ j, P j ∧ TransGen R i j ∧ TransGen R j i := by
  by_contra hnone
  have hnot : ∀ j, TransGen R i j → TransGen R j i → ¬ P j := fun j hij hji hj => hnone ⟨j, hj, hij, hji⟩
  have hlt : ∀ j, TransGen R i j → TransGen R j i → place i < place j := by
    intro j hij
    induction hij with
    | @single j hij => exact fun hji => hR i j hij (hnot i h h) (hnot j (.single hij) hji)
    | @tail j k hij hjk ih =>
      intro hki
      have hji : TransGen R j i := .head hjk hki
      exact (ih hji).trans (hR j k hjk (hnot j hij hji) (hnot k (hij.tail hjk) hki))
  exact lt_irrefl _ (hlt i h h)

end Waiting

/-- A run has finitely many threads. -/
theorem finite_threads {M : Machine Op Resp L G α} {c₀ c : Config Op Resp L G α}
    (h0 : ∀ i, c₀.thread i = none) (hc : Reachable M c₀ c) : {i | c.thread i ≠ none}.Finite := by
  refine hc.invariant (I := fun c => {i | c.thread i ≠ none}.Finite) ?_ ?_
  · simp [h0]
  · intro c c' _ ih hs
    have hsub : ∃ j, {i | c'.thread i ≠ none} ⊆ insert j {i | c.thread i ≠ none} := by
      cases hs with
      | env => exact ⟨0, Set.subset_insert _ _⟩
      | @spawn j | @call j | @again j =>
        refine ⟨j, fun i hi => ?_⟩
        by_cases hij : i = j
        · exact Or.inl hij
        · exact Or.inr (by simpa [Function.update_of_ne hij] using hi)
    obtain ⟨j, hj⟩ := hsub
    exact (ih.insert j).subset hj

/-- Finitely much has happened in a run. -/
theorem finite_happened {M : Machine Op Resp L G α} {c₀ c : Config Op Resp L G α}
    (h0 : ∀ i, c₀.thread i = none) (hc : Reachable M c₀ c) :
    {x : ℕ × Entry Op Resp L G × List (Entry Op Resp L G) | Happened c x.1 x.2.1 x.2.2}.Finite := by
  refine hc.invariant (I := fun c => {x : ℕ × Entry Op Resp L G × List (Entry Op Resp L G) |
    Happened c x.1 x.2.1 x.2.2}.Finite) ?_ ?_
  · exact Set.finite_empty.subset fun x hx => not_happened h0 hx
  · intro c c' _ ih hs
    rcases hs.happened with hold | ⟨j, e₀, h₀, -, -, -, -, -, -, hnew⟩
    · exact ih.subset fun x hx => hold _ _ _ hx
    · refine (ih.insert (j, e₀, h₀)).subset fun x hx => ?_
      rcases hnew _ _ _ hx with hx | ⟨h1, h2, h3⟩
      · exact Or.inr hx
      · exact Or.inl (Prod.ext h1 (Prod.ext h2 h3))

end Interaction
