import HomeServices.Concurrent.Program

/-!
# Programs over other operations

A program is carried to other operations by naming, for each of its own, the operation that is performed
instead and how the answer is read.

* `Prog.translate`, `Prog.translate_bind`; `translate` of a handler and of its parts.
* **`Prog.runs_translate`**: a run of the translation is a run of the program, entry by entry.
-/

namespace Interaction

variable {Op Op' : Type} {Resp : Op → Type} {Resp' : Op' → Type} {α β ε : Type}
variable (f : Op → Op') (g : (o : Op) → Resp' (f o) → Resp o)

namespace Prog

/-- The program over other operations. -/
def translate : Prog Op Resp α → Prog Op' Resp' α
  | ret a => ret a
  | call o k => call (f o) fun r => (k (g o r)).translate

theorem translate_bind (p : Prog Op Resp α) (h : α → Prog Op Resp β) :
    (p.bind h).translate f g = (p.translate f g).bind fun a => (h a).translate f g := by
  induction p with
  | ret a => rfl
  | call o k ih =>
    change call (f o) (fun r => ((k (g o r)).bind h).translate f g) = call (f o) _
    congr 1
    funext r
    exact ih (g o r)

theorem all_translate {P : Op' → Prop} (hP : ∀ o, P (f o)) (p : Prog Op Resp α) :
    (p.translate f g).All P := by
  induction p with
  | ret a => exact trivial
  | call o k ih => exact ⟨hP o, fun r => ih (g o r)⟩

variable (Resp') in
/-- An operation, and the answer to what is performed instead. -/
abbrev Translated : Type := (o : Op) × Resp' (f o)

/-- **A run of the translation is a run of the program.** -/
theorem runs_translate {P : (o : Op') → Resp' o → Prop} {p : Prog Op Resp α} {es : List (Sigma Resp')} {a : α}
    (h : (p.translate f g).Runs P es a) :
    ∃ ts : List (Translated Resp' f), es = ts.map (fun t => ⟨f t.1, t.2⟩) ∧
      p.Runs (fun o r => ∃ r', P (f o) r' ∧ g o r' = r) (ts.map fun t => ⟨t.1, g t.1 t.2⟩) a := by
  induction p generalizing es with
  | ret b =>
    obtain ⟨rfl, rfl⟩ := h
    exact ⟨[], rfl, rfl, rfl⟩
  | call o k ih =>
    obtain ⟨r, es, rfl, hr, h⟩ := h
    obtain ⟨ts, rfl, hrun⟩ := ih (g o r) h
    exact ⟨⟨o, r⟩ :: ts, rfl, g o r, _, rfl, ⟨r, hr, rfl⟩, hrun⟩

end Prog

/-! ## Handlers -/

/-- The handler over other operations. -/
def translate (x : Handler Op Resp ε α) : Handler Op' Resp' ε α := ExceptT.mk (x.run.translate f g)

theorem run_translate (x : Handler Op Resp ε α) : (translate f g x).run = x.run.translate f g := rfl

theorem translate_bind (x : Handler Op Resp ε α) (h : α → Handler Op Resp ε β) :
    translate f g (x >>= h) = translate f g x >>= fun a => translate f g (h a) := by
  apply ExceptT.ext
  rw [run_translate, run_bind, run_bind, Prog.translate_bind, run_translate]
  congr 1
  funext r
  cases r <;> rfl

theorem translate_tryCatch (x : Handler Op Resp ε α) (h : ε → Handler Op Resp ε α) :
    translate f g (tryCatch x h) = tryCatch (translate f g x) fun e => translate f g (h e) := by
  apply ExceptT.ext
  rw [run_translate, run_tryCatch, run_tryCatch, Prog.translate_bind, run_translate]
  congr 1
  funext r
  cases r <;> rfl

theorem translate_fromExcept (x : Except ε α) :
    translate f g (fromExcept x : Handler Op Resp ε α) = fromExcept x := rfl

theorem translate_attempt (o : Op) (d : Resp o → Except ε α) :
    translate f g (attempt o d) = attempt (f o) fun r => d (g o r) := rfl

end Interaction
