import HomeServices.Concurrent.Program

/-!
# Schedules

A driver executes the steps of a machine: which thread starts or acts next, what its operation
leaves open, and what happens outside. What a schedule leads to is reachable.

* `Driver`: an executable part of a machine, with its soundness.
* `Command`, `Driver.execute`: schedules, executed.
* `Driver.related_of_execute`: what holds of every command holds along a schedule.
* **`Driver.reachable`**: what a schedule leads to is reachable; `Driver.exists_of_execute`;
  `Driver.execute_thread`: it moves only the threads it names.
-/

namespace Interaction

variable {Op : Type} {Resp : Op → Type} {L G α Req Ch Out : Type}

/-- An executable part of a machine: requests start threads, choices close what operations leave
open, and events happen outside. -/
structure Driver (M : Machine Op Resp L G α) (Req Ch Out : Type) where
  start : ℕ → Req → Option (L × Prog Op Resp α)
  perform : Ch → List (Entry Op Resp L G) → L → G → (o : Op) → Option (Resp o × L × G)
  outside : Out → G → Option G
  start_ok : ∀ {i req l p}, start i req = some (l, p) → M.start i l p
  perform_ok : ∀ {ch h l g o r l' g'}, perform ch h l g o = some (r, l', g') → M.step h o l g r l' g'
  outside_ok : ∀ {e g g'}, outside e g = some g' → M.env g g'

inductive Command (Req Ch Out : Type) where
  | start (i : ℕ) (req : Req)
  | act (i : ℕ) (ch : Ch)
  | again (i : ℕ)
  | outside (e : Out)

/-- The thread a command moves. -/
def Command.target : Command Req Ch Out → Option ℕ
  | start i _ | act i _ | again i => some i
  | outside _ => none

namespace Driver

variable {M : Machine Op Resp L G α} (D : Driver M Req Ch Out)

/-- Execute a command; `none` when it is not possible. -/
def command (c : Config Op Resp L G α) : Command Req Ch Out → Option (Config Op Resp L G α)
  | .start i req =>
    match c.thread i, D.start i req with
    | none, some (l, p) => some ⟨c.glob, Function.update c.thread i (some ⟨l, p, []⟩)⟩
    | _, _ => none
  | .act i ch =>
    match c.thread i with
    | some ⟨l, .call o k, h⟩ =>
      match D.perform ch h l c.glob o with
      | some (r, l', g) =>
        some ⟨g, Function.update c.thread i (some ⟨l', k r, ⟨o, r, l, c.glob, l', g⟩ :: h⟩)⟩
      | none => none
    | _ => none
  | .again i =>
    match c.thread i with
    | some ⟨l, .ret a, h⟩ =>
      match M.again a with
      | some p => some ⟨c.glob, Function.update c.thread i (some ⟨l, p, h⟩)⟩
      | none => none
    | _ => none
  | .outside e =>
    match D.outside e c.glob with
    | some g => some ⟨g, c.thread⟩
    | none => none

def execute (c : Config Op Resp L G α) : List (Command Req Ch Out) → Option (Config Op Resp L G α)
  | [] => some c
  | cmd :: cmds =>
    match D.command c cmd with
    | some c' => execute c' cmds
    | none => none

variable {D}

theorem step_of_command {c c' : Config Op Resp L G α} {cmd : Command Req Ch Out}
    (h : D.command c cmd = some c') : Step M c c' := by
  cases cmd with
  | start i req =>
    simp only [command] at h
    split at h
    · cases h
      exact .spawn ‹_› (D.start_ok ‹_›)
    · cases h
  | act i ch =>
    simp only [command] at h
    split at h
    · split at h
      · cases h
        exact .call ‹_› (D.perform_ok ‹_›)
      · cases h
    · cases h
  | again i =>
    simp only [command] at h
    split at h
    · split at h
      · cases h
        exact .again ‹_› ‹_›
      · cases h
    · cases h
  | outside e =>
    simp only [command] at h
    split at h
    · cases h
      exact .env (D.outside_ok ‹_›)
    · cases h

/-- A schedule relates states as its commands do. -/
theorem related_of_execute {R : Config Op Resp L G α → Config Op Resp L G α → Prop}
    {p : Command Req Ch Out → Bool}
    (hR : ∀ {c c' : Config Op Resp L G α} {cmd : Command Req Ch Out}, p cmd = true →
      D.command c cmd = some c' → R c c') :
    ∀ {cmds : List (Command Req Ch Out)} {c c' : Config Op Resp L G α}, cmds.all p = true →
      D.execute c cmds = some c' → Relation.ReflTransGen R c c'
  | [], _, _, _, h => by
    cases h
    exact .refl
  | cmd :: cmds, c, c', hcmds, h => by
    obtain ⟨hcmd, hcmds⟩ := Bool.and_eq_true_iff.mp hcmds
    unfold execute at h
    split at h
    · rename_i c₁ h₁
      exact Relation.ReflTransGen.head (hR hcmd h₁) (related_of_execute hR hcmds h)
    · cases h

/-- **What a schedule leads to is reachable.** -/
theorem reachable {cmds : List (Command Req Ch Out)} {c c' : Config Op Resp L G α}
    (h : D.execute c cmds = some c') : Reachable M c c' := by
  have hall : cmds.all (fun _ => true) = true := List.all_eq_true.mpr fun _ _ => rfl
  exact related_of_execute (fun _ hcmd => step_of_command hcmd) hall h

/-- What is checked by executing a schedule holds of a reachable state. -/
theorem exists_of_execute {cmds : List (Command Req Ch Out)} {c : Config Op Resp L G α}
    {test : Config Op Resp L G α → Bool} (hrun : (D.execute c cmds).any test = true) :
    ∃ c', D.execute c cmds = some c' ∧ Reachable M c c' ∧ test c' = true := by
  obtain ⟨c', hexec, htest⟩ := (Option.any_eq_true _ _).mp hrun
  exact ⟨c', hexec, reachable hexec, htest⟩

theorem command_thread {c c' : Config Op Resp L G α} {cmd : Command Req Ch Out} {j : ℕ}
    (hj : cmd.target ≠ some j) (h : D.command c cmd = some c') : c'.thread j = c.thread j := by
  cases cmd with
  | start i req =>
    simp only [command] at h
    split at h
    · cases h
      exact Function.update_of_ne (fun e => hj (congrArg some e.symm)) ..
    · cases h
  | act i ch =>
    simp only [command] at h
    split at h
    · split at h
      · cases h
        exact Function.update_of_ne (fun e => hj (congrArg some e.symm)) ..
      · cases h
    · cases h
  | again i =>
    simp only [command] at h
    split at h
    · split at h
      · cases h
        exact Function.update_of_ne (fun e => hj (congrArg some e.symm)) ..
      · cases h
    · cases h
  | outside e =>
    simp only [command] at h
    split at h
    · cases h
      rfl
    · cases h

/-- A schedule leaves the threads it does not move as they are. -/
theorem execute_thread {j : ℕ} : ∀ {cmds : List (Command Req Ch Out)} {c c' : Config Op Resp L G α},
    (∀ cmd ∈ cmds, cmd.target ≠ some j) → D.execute c cmds = some c' → c'.thread j = c.thread j
  | [], _, _, _, h => by
    cases h
    rfl
  | cmd :: cmds, c, c', hcmds, h => by
    unfold execute at h
    split at h
    · rename_i c₁ h₁
      rw [execute_thread (fun cmd hcmd => hcmds cmd (List.mem_cons_of_mem _ hcmd)) h,
        command_thread (hcmds cmd List.mem_cons_self) h₁]
    · cases h

end Driver

end Interaction
