import HomeServices.Concurrent.Translation

/-!
# Programs that look before they act

A front machine runs programs that first only look, at a shared state of their own or at an outdated
one, and then act as programs of a machine behind it, for the request that what they saw grants.

* `Gated`, `acting`: operations that look or act; programs that only act.
* `Gate`, `Gate.Acts`, `Gate.Looks`: the requests that histories grant; programs that act for one, and
  that look until they do.
* `Gate.Lawful`, `Gate.Standing`, `Gate.Stands`: what a front machine owes; what its threads are in a
  run behind.
* `looks_of_acts`, `looks_bind`: rules for programs that look.
* `acted`, `safe_acted`, `Stands.acted_mem`, `Stands.returned`: what a thread did behind, and with what result.
* `Stands.acts`, **`Stands.step`**: a run of the front machine is a run of the machine behind.
-/

namespace Interaction

variable {Op Op' : Type} {Resp : Op → Type} {Resp' : Op' → Type} {L L' G G' α β γ ρ ε : Type}

/-- An operation that only looks, or one of the machine behind. -/
inductive Gated (Op Op' : Type) where
  | look (o : Op')
  | act (o : Op)

abbrev GatedResp (Resp : Op → Type) (Resp' : Op' → Type) : Gated Op Op' → Type
  | .look o => Resp' o
  | .act o => Resp o

/-- A program that acts all along. -/
def acting (p : Prog Op Resp α) : Prog (Gated Op Op') (GatedResp Resp Resp') α :=
  p.translate .act fun _ r => r

@[simp] theorem acting_ret (a : α) :
    (acting (.ret a) : Prog (Gated Op Op') (GatedResp Resp Resp') α) = .ret a := rfl

@[simp] theorem acting_call (o : Op) (k : Resp o → Prog Op Resp α) :
    (acting (.call o k) : Prog (Gated Op Op') (GatedResp Resp Resp') α) =
      .call (.act o) fun r => acting (k r) := rfl

theorem acting_bind (p : Prog Op Resp α) (f : α → Prog Op Resp β) :
    (acting (p.bind f) : Prog (Gated Op Op') (GatedResp Resp Resp') β) =
      (acting p).bind fun a => acting (f a) := Prog.translate_bind ..

/-- A program that acts and goes on with an operation acts with it. -/
theorem eq_of_acting_bind {q : Prog Op Resp α} {f : α → β} {o : Gated Op Op'}
    {k : GatedResp Resp Resp' o → Prog (Gated Op Op') (GatedResp Resp Resp') β}
    (h : Prog.call o k = (acting q).bind fun a => .ret (f a)) :
    ∃ o₁ q', o = .act o₁ ∧ q = .call o₁ q' ∧
      HEq k fun r : Resp o₁ => (acting (q' r) : Prog (Gated Op Op') (GatedResp Resp Resp') α).bind
        fun a => Prog.ret (f a) := by
  cases q with
  | ret a => cases h
  | call o₁ q' =>
    cases h
    exact ⟨o₁, q', rfl, rfl, HEq.rfl⟩

/-- What a history did behind: the operations that acted, and their answers. -/
def acted : List (Entry (Gated Op Op') (GatedResp Resp Resp') L' G') → List (Sigma Resp)
  | [] => []
  | ⟨.look _, _, _, _, _, _⟩ :: h => acted h
  | ⟨.act o, r, _, _, _, _⟩ :: h => ⟨o, r⟩ :: acted h

/-- A front machine's threads, and the requests behind it that they may be granted. -/
structure Gate (Op Op' : Type) (Resp : Op → Type) (Resp' : Op' → Type) (L L' G G' α β ρ : Type) where
  program : ρ → Prog Op Resp α
  -- what the front machine makes of a result
  finish : α → β
  -- the private state behind of a thread that acts for a request
  view : ρ → L' → L
  world : G' → G
  grants : List (Entry (Gated Op Op') (GatedResp Resp Resp') L' G') → L' → ρ → Prop

namespace Gate

variable (K : Gate Op Op' Resp Resp' L L' G G' α β ρ)

/-- The program acts for a request that the history grants. -/
def Acts (h : List (Entry (Gated Op Op') (GatedResp Resp Resp') L' G')) (l : L')
    (p : Prog (Gated Op Op') (GatedResp Resp Resp') β) : Prop :=
  ∃ req, K.grants h l req ∧ p = (acting (K.program req)).bind fun a => .ret (K.finish a)

/-- The program looks, and acts once a request is granted. -/
def Looks (st : List (Entry (Gated Op Op') (GatedResp Resp Resp') L' G') → (o : Gated Op Op') → L' →
    G' → GatedResp Resp Resp' o → L' → G' → Prop) :
    List (Entry (Gated Op Op') (GatedResp Resp Resp') L' G') → L' →
      Prog (Gated Op Op') (GatedResp Resp Resp') β → Prop
  | _, _, .ret _ => True
  | h, l, .call o k => K.Acts h l (.call o k) ∨ (∃ o', o = .look o') ∧
      ∀ g r l' g', st h o l g r l' g' → Looks st (⟨o, r, l, g, l', g'⟩ :: h) l' (k r)

/-- What a front machine owes: looking changes nothing, acting is a step behind, and what is granted
stays granted. -/
structure Lawful (M : Machine (Gated Op Op') (GatedResp Resp Resp') L' G' β)
    (N : Machine Op Resp L G α) : Prop where
  look : ∀ {h o l g r l' g'}, M.step h (.look o) l g r l' g' → l' = l ∧ K.world g' = K.world g
  act : ∀ {h o l g r l' g'}, M.step h (.act o) l g r l' g' →
    ∀ req h', N.step h' o (K.view req l) (K.world g) r (K.view req l') (K.world g')
  keep : ∀ {h o l g r l' g' req}, M.step h (.act o) l g r l' g' → K.grants h l req →
    K.grants (⟨.act o, r, l, g, l', g'⟩ :: h) l' req
  start : ∀ {i l p}, M.start i l p → K.Looks M.step [] l p
  fresh : ∀ {i l p h req}, M.start i l p → K.grants h l req → N.start i (K.view req l) (K.program req)
  again : ∀ a, M.again a = none
  env : ∀ {g g'}, M.env g g' → N.env (K.world g) (K.world g')

variable {K} {M : Machine (Gated Op Op') (GatedResp Resp Resp') L' G' β} {N : Machine Op Resp L G α}

theorem looks_of_acts {st : List (Entry (Gated Op Op') (GatedResp Resp Resp') L' G') →
    (o : Gated Op Op') → L' → G' → GatedResp Resp Resp' o → L' → G' → Prop}
    {h : List (Entry (Gated Op Op') (GatedResp Resp Resp') L' G')} {l : L'}
    {p : Prog (Gated Op Op') (GatedResp Resp Resp') β} (hp : K.Acts h l p) : K.Looks st h l p := by
  cases p with
  | ret b => trivial
  | call o k => exact Or.inl hp

/-- A program that looks, and then does whatever it does by what it saw. -/
theorem looks_bind {st : List (Entry (Gated Op Op') (GatedResp Resp Resp') L' G') →
    (o : Gated Op Op') → L' → G' → GatedResp Resp Resp' o → L' → G' → Prop}
    {h : List (Entry (Gated Op Op') (GatedResp Resp Resp') L' G')} {l : L'}
    {p : Prog (Gated Op Op') (GatedResp Resp Resp') γ}
    {f : γ → Prog (Gated Op Op') (GatedResp Resp Resp') β} (hp : p.All fun o => ∃ o', o = .look o')
    (hf : Safe st (fun _ _ => True) (fun _ _ _ _ => True) (fun h l a => K.Looks st h l (f a)) h l p) :
    K.Looks st h l (p.bind f) := by
  induction p generalizing h l with
  | ret a => exact hf
  | call o k ih =>
    exact Or.inr ⟨hp.1, fun g r l' g' hst => ih r (hp.2 r) ((hf g trivial).2 r l' g' hst)⟩

variable (K) in
/-- What a thread of the front machine is in a run behind: nothing yet, or the same call. -/
inductive Standing (M : Machine (Gated Op Op') (GatedResp Resp Resp') L' G' β)
    (N : Machine Op Resp L G α) (i : ℕ) :
    Option (Thread (Gated Op Op') (GatedResp Resp Resp') L' G' β) → Option (Thread Op Resp L G α) → Prop
  | absent : Standing M N i none none
  | looking {l : L'} {p : Prog (Gated Op Op') (GatedResp Resp Resp') β}
      {h : List (Entry (Gated Op Op') (GatedResp Resp Resp') L' G')} :
      (∀ h' req, K.grants h' l req → N.start i (K.view req l) (K.program req)) →
      K.Looks M.step h l p → acted h = [] → Standing M N i (some ⟨l, p, h⟩) none
  | acting {l : L'} {p : Prog (Gated Op Op') (GatedResp Resp Resp') β}
      {h : List (Entry (Gated Op Op') (GatedResp Resp Resp') L' G')} {req : ρ}
      {q : Prog Op Resp α} {h' : List (Entry Op Resp L G)} : K.grants h l req →
      p = (Interaction.acting q).bind (fun a => .ret (K.finish a)) →
      h'.map (fun e => ⟨e.op, e.resp⟩) = acted h →
      Standing M N i (some ⟨l, p, h⟩) (some ⟨K.view req l, q, h'⟩)

variable (K) in
/-- The run behind stands for the run of the front machine. -/
structure Stands (M : Machine (Gated Op Op') (GatedResp Resp Resp') L' G' β) (N : Machine Op Resp L G α)
    (c : Config (Gated Op Op') (GatedResp Resp Resp') L' G' β) (b : Config Op Resp L G α) : Prop where
  glob : b.glob = K.world c.glob
  thread : ∀ i, K.Standing M N i (c.thread i) (b.thread i)

/-- The threads have seen only shared states of `P`. -/
def Seen (b : Config Op Resp L G α) (P : G → Prop) : Prop :=
  ∀ i t, b.thread i = some t → ∀ e ∈ t.hist, P e.pre

theorem Seen.update {b : Config Op Resp L G α} {P : G → Prop} (h : Seen b P) {i : ℕ}
    {t : Thread Op Resp L G α} (ht : ∀ e ∈ t.hist, P e.pre) (g : G) :
    Seen ⟨g, Function.update b.thread i (some t)⟩ P := by
  intro j t' hj
  by_cases hji : j = i
  · subst hji
    cases (Function.update_self ..).symm.trans hj
    exact ht
  · exact h j t' ((Function.update_of_ne hji ..).symm.trans hj)

variable {c : Config (Gated Op Op') (GatedResp Resp Resp') L' G' β} {b : Config Op Resp L G α}

/-- **A thread that acts is one of the run behind**, after at most its start there. -/
theorem Stands.acts (hstands : K.Stands M N c b) {i : ℕ} {l : L'} {o : Op}
    {k : Resp o → Prog (Gated Op Op') (GatedResp Resp Resp') β}
    {h : List (Entry (Gated Op Op') (GatedResp Resp Resp') L' G')}
    (hi : c.thread i = some ⟨l, .call (.act o) k, h⟩) :
    ∃ b₁ req q h', Reachable N b b₁ ∧ K.Stands M N c b₁ ∧
      b₁.thread i = some ⟨K.view req l, .call o q, h'⟩ ∧ K.grants h l req ∧
      h'.map (fun e => ⟨e.op, e.resp⟩) = acted h ∧
      (k = fun r => (Interaction.acting (q r)).bind fun a => .ret (K.finish a)) ∧
      ∀ P, Seen b P → Seen b₁ P := by
  have hstand := hstands.thread i
  rw [hi] at hstand
  generalize hb : b.thread i = t at hstand
  cases hstand with
  | looking hstart hlooks hacted =>
    rcases hlooks with ⟨req, hgrants, hp⟩ | ⟨⟨o', ho'⟩, -⟩
    · obtain ⟨o₁, q, ho, hq, hk⟩ := eq_of_acting_bind hp
      cases ho
      refine ⟨_, req, q, [], .single (.spawn hb (hstart h req hgrants)), ⟨hstands.glob, fun j => ?_⟩,
        by rw [hq]; exact Function.update_self .., hgrants, hacted.symm, eq_of_heq hk,
        fun P hP => hP.update (fun e he => by cases he) _⟩
      by_cases hji : j = i
      · subst hji
        dsimp only
        rw [hi, Function.update_self]
        exact .acting hgrants hp hacted.symm
      · dsimp only
        rw [Function.update_of_ne hji]
        exact hstands.thread j
    · cases ho'
  | @acting _ _ _ req q h' hgrants hp hacted =>
    obtain ⟨o₁, q', ho, rfl, hk⟩ := eq_of_acting_bind hp
    cases ho
    exact ⟨b, req, q', h', .refl, hstands, hb, hgrants, hacted, eq_of_heq hk, fun P hP => hP⟩

/-- **A thread that acted and returned is one of the run behind that returned.** -/
theorem Stands.returned (hstands : K.Stands M N c b) {i : ℕ} {l : L'} {r : β}
    {h : List (Entry (Gated Op Op') (GatedResp Resp Resp') L' G')}
    (ht : c.thread i = some ⟨l, .ret r, h⟩) (hacted : acted h ≠ []) :
    ∃ req a h', b.thread i = some ⟨K.view req l, .ret a, h'⟩ ∧ K.grants h l req ∧ K.finish a = r ∧
      h'.map (fun e => ⟨e.op, e.resp⟩) = acted h := by
  have hstand := hstands.thread i
  rw [ht] at hstand
  generalize hb : b.thread i = t at hstand
  cases hstand with
  | looking _ _ hnone => exact absurd hnone hacted
  | @acting _ _ _ req q h' hgrants hp hsame =>
    cases q with
    | ret a =>
      cases hp
      exact ⟨req, a, h', rfl, hgrants, rfl, hsame⟩
    | call o k => cases hp

/-- A thread that only looked stays what it is in the run behind. -/
theorem Standing.look (hM : K.Lawful M N) {i : ℕ} {l l' : L'} {o : Op'}
    {k : Resp' o → Prog (Gated Op Op') (GatedResp Resp Resp') β}
    {h : List (Entry (Gated Op Op') (GatedResp Resp Resp') L' G')} {r : Resp' o} {g g' : G'}
    {t : Option (Thread Op Resp L G α)} (hst : M.step h (.look o) l g r l' g')
    (hstand : K.Standing M N i (some ⟨l, .call (.look o) k, h⟩) t) :
    K.Standing M N i (some ⟨l', k r, ⟨.look o, r, l, g, l', g'⟩ :: h⟩) t := by
  cases hstand with
  | looking hstart hlooks hacted =>
    rcases hlooks with ⟨req, -, hp⟩ | ⟨-, hlooks⟩
    · obtain ⟨o₁, q, ho, -, -⟩ := eq_of_acting_bind hp
      cases ho
    · obtain ⟨rfl, -⟩ := hM.look hst
      exact .looking hstart (hlooks g r l' g' hst) hacted
  | acting _ hp _ =>
    obtain ⟨o₁, q, ho, -, -⟩ := eq_of_acting_bind hp
    cases ho

/-- **A step of the front machine is at most a start and a step behind.** -/
theorem Stands.step (hM : K.Lawful M N)
    {c' : Config (Gated Op Op') (GatedResp Resp Resp') L' G' β} (hstands : K.Stands M N c b)
    (hs : Step M c c') : ∃ b', Reachable N b b' ∧ K.Stands M N c' b' ∧
      ∀ P, Seen b P → P (K.world c.glob) → Seen b' P := by
  cases hs with
  | env henv =>
    refine ⟨⟨_, b.thread⟩, .single (.env ?_), ⟨rfl, hstands.thread⟩, fun P hP _ => hP⟩
    rw [hstands.glob]
    exact hM.env henv
  | @spawn i l p hi hst =>
    refine ⟨b, .refl, ⟨hstands.glob, fun j => ?_⟩, fun P hP _ => hP⟩
    have hstand := hstands.thread j
    by_cases hji : j = i
    · subst hji
      dsimp only
      rw [hi] at hstand
      rw [Function.update_self]
      generalize b.thread j = t at hstand
      cases hstand
      exact .looking (fun _ _ => hM.fresh hst) (hM.start hst) rfl
    · dsimp only
      rw [Function.update_of_ne hji]
      exact hstand
  | @call i l o k h r l' g hi hst =>
    cases o with
    | look o =>
      refine ⟨b, .refl, ⟨hstands.glob.trans (hM.look hst).2.symm, fun j => ?_⟩, fun P hP _ => hP⟩
      have hstand := hstands.thread j
      by_cases hji : j = i
      · subst hji
        dsimp only
        rw [hi] at hstand
        rw [Function.update_self]
        exact hstand.look hM hst
      · dsimp only
        rw [Function.update_of_ne hji]
        exact hstand
    | act o =>
      obtain ⟨b₁, req, q, h', hreach, hstands₁, hb₁, hgrants, hacted, rfl, hseen⟩ := hstands.acts hi
      have hstep := hM.act hst req h'
      rw [← hstands₁.glob] at hstep
      refine ⟨_, hreach.tail (.call hb₁ hstep), ⟨rfl, fun j => ?_⟩, fun P hP hnow =>
        (hseen P hP).update (fun e he => ?_) _⟩
      swap
      · rcases List.mem_cons.mp he with rfl | he
        · exact hstands₁.glob ▸ hnow
        · exact hseen P hP i _ hb₁ e he
      by_cases hji : j = i
      · subst hji
        dsimp only
        rw [Function.update_self, Function.update_self]
        exact .acting (hM.keep hst hgrants) rfl (congrArg (List.cons _) hacted)
      · dsimp only
        rw [Function.update_of_ne hji, Function.update_of_ne hji]
        exact hstands₁.thread j
  | again _ hag =>
    rw [hM.again] at hag
    cases hag

end Gate

end Interaction
