import HomeServices.Concurrent.Program

/-!
# Rely and guarantee

What a program needs of the others, what it does to them, and an invariant of the shared state that
all keep. Each program is verified alone, against whatever the others may do between its steps.

* `Guarded`: the predicate; `Guarded.after`: it withstands what the others do.
* **`guarded_reachable`**: programs that are guarded alone are guarded in every interleaving.
-/

namespace Interaction

variable {Op : Type} {Resp : Op → Type} {L G α β : Type}

variable (st : List (Entry Op Resp L G) → (o : Op) → L → G → Resp o → L → G → Prop)
  (rely guarantee : G → G → Prop) (I : G → Prop)

/-- `p` keeps the invariant and its guarantee at every step and returns in `Q`, whatever the others
do between its steps. -/
def Guarded (Q : List (Entry Op Resp L G) → L → G → α → Prop) :
    List (Entry Op Resp L G) → L → G → Prog Op Resp α → Prop
  | h, l, g, .ret a => ∀ g₁, rely g g₁ → I g₁ → Q h l g₁ a
  | h, l, g, .call o k => ∀ g₁, rely g g₁ → I g₁ → ∀ r l' g', st h o l g₁ r l' g' →
      (guarantee g₁ g' ∧ I g') ∧ Guarded Q (⟨o, r, l, g₁, l', g'⟩ :: h) l' g' (k r)

variable {st rely guarantee I}

/-- What the others do leaves a program guarded. -/
theorem Guarded.after (htrans : ∀ g₁ g₂ g₃, rely g₁ g₂ → rely g₂ g₃ → rely g₁ g₃)
    {Q : List (Entry Op Resp L G) → L → G → α → Prop} {h : List (Entry Op Resp L G)} {l : L} {g g' : G}
    {p : Prog Op Resp α} (hp : Guarded st rely guarantee I Q h l g p) (hg : rely g g') :
    Guarded st rely guarantee I Q h l g' p := by
  cases p with
  | ret a => exact fun g₁ hg₁ => hp g₁ (htrans _ _ _ hg hg₁)
  | call o k => exact fun g₁ hg₁ => hp g₁ (htrans _ _ _ hg hg₁)

variable {M : Machine Op Resp L G α}

/-- **Programs that are guarded alone are guarded in every interleaving.** -/
theorem guarded_reachable {rely guarantee : ℕ → G → G → Prop}
    {Q : List (Entry Op Resp L G) → L → G → α → Prop} {c₀ c : Config Op Resp L G α}
    (hrefl : ∀ i g, rely i g g) (htrans : ∀ i g₁ g₂ g₃, rely i g₁ g₂ → rely i g₂ g₃ → rely i g₁ g₃)
    (hothers : ∀ i j g g', i ≠ j → guarantee i g g' → rely j g g')
    (henv : ∀ g g', I g → M.env g g' → I g' ∧ ∀ j, rely j g g')
    (h0 : ∀ i, c₀.thread i = none) (hI : I c₀.glob)
    (hstart : ∀ i l p g, M.start i l p → I g → Guarded M.step (rely i) (guarantee i) I Q [] l g p)
    (hagain : ∀ i h l g a p, I g → Q h l g a → M.again a = some p →
      Guarded M.step (rely i) (guarantee i) I Q h l g p)
    (hc : Reachable M c₀ c) :
    I c.glob ∧ ∀ i t, c.thread i = some t →
      Guarded M.step (rely i) (guarantee i) I Q t.hist t.loc c.glob t.prog := by
  refine hc.invariant (I := fun c => I c.glob ∧ ∀ i t, c.thread i = some t →
    Guarded M.step (rely i) (guarantee i) I Q t.hist t.loc c.glob t.prog)
    ⟨hI, fun i t ht => by rw [h0] at ht; cases ht⟩ ?_
  rintro c c' - ⟨hI, hguarded⟩ hs
  cases hs with
  | env hstep =>
    obtain ⟨hI', hrely⟩ := henv _ _ hI hstep
    exact ⟨hI', fun i t ht => (hguarded i t ht).after (htrans i) (hrely i)⟩
  | @spawn j l p hj hst =>
    refine ⟨hI, fun i t ht => ?_⟩
    by_cases hij : i = j
    · subst hij
      cases (Function.update_self ..).symm.trans ht
      exact hstart i l p _ hst hI
    · exact hguarded i t (by simpa [Function.update_of_ne hij] using ht)
  | @call j l o k h r l' g hj hst =>
    obtain ⟨⟨hguarantee, hI'⟩, hnext⟩ := hguarded j _ hj c.glob (hrefl j _) hI r l' g hst
    refine ⟨hI', fun i t ht => ?_⟩
    by_cases hij : i = j
    · subst hij
      cases (Function.update_self ..).symm.trans ht
      exact hnext
    · have hkept := hguarded i t (by simpa [Function.update_of_ne hij] using ht)
      exact hkept.after (htrans i) (hothers j i _ _ (Ne.symm hij) hguarantee)
  | @again j l a h p hj hag =>
    refine ⟨hI, fun i t ht => ?_⟩
    by_cases hij : i = j
    · subst hij
      cases (Function.update_self ..).symm.trans ht
      exact hagain i h l _ a p hI (hguarded i _ hj c.glob (hrefl i _) hI) hag
    · exact hguarded i t (by simpa [Function.update_of_ne hij] using ht)

end Interaction
