import Mathlib.Data.List.Basic
import Mathlib.Data.List.Lattice
import Mathlib.Data.List.Pairwise
import Mathlib.Logic.Function.Basic

/-!
# Rows, unique keys and row locks

A table store in which sessions collect writes, lock the keys those writes touch until they end,
and see what others have committed. Every row occupies some unique keys; the first is its
primary key.

* `Keyed`, `UniqueKeys`: rows and the keys they occupy; no key is occupied twice.
* `Write`, `Write.apply`, `applyAll`: inserts and updates by primary key, and what they do.
* `Valid`, `ValidAll`: writes that find the row they replace and no key taken.
* `Store`, `Owns`: committed rows and locks; a session owns writes that are valid on the committed
  rows and whose keys it has locked.
* **`owns_commit_other`**: what a session owns survives every commit of another session.
-/

namespace ReadCommitted

/-- Rows, the unique keys they occupy, and their primary key. -/
class Keyed (Row : Type) (Ref : outParam Type) where
  primary : Row → Ref
  keys : Row → List Ref
  primary_mem : ∀ r, primary r ∈ keys r

open Keyed

variable {Row Ref : Type} [Keyed Row Ref]

/-- No two rows occupy one key. -/
def UniqueKeys (db : List Row) : Prop := db.Pairwise fun r s => (keys r).Disjoint (keys s)

theorem not_disjoint_self (r : Row) : ¬ (keys r).Disjoint (keys r) := fun h =>
  h (primary_mem r) (primary_mem r)

/-- Rows of a database that share a key are one row. -/
theorem UniqueKeys.eq_of_mem {db : List Row} (h : UniqueKeys db) {r s : Row} (hr : r ∈ db)
    (hs : s ∈ db) {k : Ref} (hkr : k ∈ keys r) (hks : k ∈ keys s) : r = s := by
  by_contra hne
  have : Std.Symm fun r s : Row => (keys r).Disjoint (keys s) :=
    ⟨fun _ _ h => List.Disjoint.symm h⟩
  exact h.forall hr hs hne hkr hks

theorem UniqueKeys.eq_of_primary {db : List Row} (h : UniqueKeys db) {r s : Row} (hr : r ∈ db)
    (hs : s ∈ db) (he : primary r = primary s) : r = s :=
  h.eq_of_mem hr hs (primary_mem r) (he ▸ primary_mem s)

theorem UniqueKeys.nodup {db : List Row} (h : UniqueKeys db) : db.Nodup :=
  h.imp fun {r s} hd (he : r = s) => not_disjoint_self r (he ▸ hd)

/-! ## Writes -/

/-- An insert (`old = none`) or the replacement of a row. -/
structure Write (Row : Type) where
  old : Option Row
  new : Row

namespace Write

/-- The keys a write needs: those of the row it leaves and of the row it replaces. -/
def refs (w : Write Row) : List Ref := keys w.new ++ w.old.elim [] keys

variable [DecidableEq Ref]

/-- Append the new row, or put it in the place of the row with its primary key. -/
def apply (w : Write Row) (db : List Row) : List Row :=
  match w.old with
  | none => db ++ [w.new]
  | some o => db.map fun r => if primary r = primary o then w.new else r

end Write

/-- An insert. -/
def ins (r : Row) : Write Row := ⟨none, r⟩

/-- A replacement. -/
def upd (o r : Row) : Write Row := ⟨some o, r⟩

section Apply

variable [DecidableEq Ref]

/-- Apply writes in order. -/
def applyAll (ws : List (Write Row)) (db : List Row) : List Row :=
  ws.foldl (fun db w => w.apply db) db

@[simp] theorem applyAll_nil (db : List Row) : applyAll [] db = db := rfl

@[simp] theorem applyAll_cons (w : Write Row) (ws : List (Write Row)) (db : List Row) :
    applyAll (w :: ws) db = applyAll ws (w.apply db) := rfl

theorem applyAll_append (ws ws' : List (Write Row)) (db : List Row) :
    applyAll (ws ++ ws') db = applyAll ws' (applyAll ws db) := List.foldl_append

@[simp] theorem apply_ins (r : Row) (db : List Row) : (ins r).apply db = db ++ [r] := rfl

theorem apply_upd (o r : Row) (db : List Row) :
    (upd o r).apply db = db.map fun s => if primary s = primary o then r else s := rfl

/-- The write finds the row it replaces, and no other row occupies a key of the new one. -/
def Valid (db : List Row) (w : Write Row) : Prop :=
  match w.old with
  | none => ∀ r ∈ db, (keys r).Disjoint (keys w.new)
  | some o => o ∈ db ∧ primary w.new = primary o ∧
      ∀ r ∈ db, primary r ≠ primary o → (keys r).Disjoint (keys w.new)

/-- Each write is valid after those before it. -/
def ValidAll : List Row → List (Write Row) → Prop
  | _, [] => True
  | db, w :: ws => Valid db w ∧ ValidAll (w.apply db) ws

@[simp] theorem validAll_nil (db : List Row) : ValidAll db [] := trivial

@[simp] theorem validAll_cons {db : List Row} {w : Write Row} {ws : List (Write Row)} :
    ValidAll db (w :: ws) ↔ Valid db w ∧ ValidAll (w.apply db) ws := Iff.rfl

theorem validAll_append {ws' : List (Write Row)} :
    ∀ {ws : List (Write Row)} {db : List Row},
      ValidAll db (ws ++ ws') ↔ ValidAll db ws ∧ ValidAll (applyAll ws db) ws'
  | [], db => by simp
  | w :: ws, db => by
    simp only [List.cons_append, validAll_cons, applyAll_cons, and_assoc]
    exact and_congr Iff.rfl validAll_append

theorem mem_apply_upd {o r : Row} {db : List Row} (ho : o ∈ db) {s : Row} :
    s ∈ (upd o r).apply db ↔ s = r ∨ s ∈ db ∧ primary s ≠ primary o := by
  rw [apply_upd, List.mem_map]
  constructor
  · rintro ⟨t, ht, rfl⟩
    by_cases h : primary t = primary o
    · exact Or.inl (if_pos h)
    · rw [if_neg h]; exact Or.inr ⟨ht, h⟩
  · rintro (rfl | ⟨hs, hne⟩)
    · exact ⟨o, ho, if_pos rfl⟩
    · exact ⟨s, hs, if_neg hne⟩

/-- The rows after a valid write. -/
theorem Valid.mem_apply {db : List Row} {w : Write Row} (hw : Valid db w) {s : Row} :
    s ∈ w.apply db ↔ s = w.new ∨ s ∈ db ∧ ∀ o, w.old = some o → primary s ≠ primary o := by
  obtain ⟨old, r⟩ := w
  cases old with
  | none => simp [Write.apply, or_comm]
  | some o =>
    rw [show (⟨some o, r⟩ : Write Row) = upd o r from rfl, mem_apply_upd hw.1]
    simp [upd]

/-- A row after writes was there, or one of them left it. -/
theorem mem_of_mem_applyAll {s : Row} : ∀ {ws : List (Write Row)} {db : List Row},
    s ∈ applyAll ws db → s ∈ db ∨ ∃ w ∈ ws, s = w.new
  | [], _, h => Or.inl h
  | w :: ws, db, h => by
    have hlast : s ∈ applyAll ws (w.apply db) := h
    rcases mem_of_mem_applyAll hlast with hs | ⟨w', hw', rfl⟩
    · obtain ⟨old, new⟩ := w
      cases old with
      | none =>
        rcases List.mem_append.mp hs with hs | hs
        · exact Or.inl hs
        · exact Or.inr ⟨_, List.mem_cons_self, List.mem_singleton.mp hs⟩
      | some o =>
        obtain ⟨t, ht, rfl⟩ := List.mem_map.mp hs
        split_ifs
        · exact Or.inr ⟨_, List.mem_cons_self, rfl⟩
        · exact Or.inl ht
    · exact Or.inr ⟨w', List.mem_cons_of_mem _ hw', rfl⟩

/-- **A valid write keeps keys unique.** -/
theorem UniqueKeys.apply {db : List Row} (h : UniqueKeys db) {w : Write Row} (hw : Valid db w) :
    UniqueKeys (w.apply db) := by
  obtain ⟨old, r⟩ := w
  cases old with
  | none =>
    refine List.pairwise_append.mpr ⟨h, List.pairwise_singleton _ _, fun s hs t ht => ?_⟩
    rw [List.mem_singleton.mp ht]
    exact hw s hs
  | some o =>
    obtain ⟨ho, hpk, hdis⟩ := hw
    refine List.pairwise_map.mpr (h.imp_of_mem fun {s t} hs ht hst => ?_)
    by_cases hso : primary s = primary o
    · rw [if_pos hso]
      by_cases hto : primary t = primary o
      · exact absurd (hst (primary_mem s) (hso.trans hto.symm ▸ primary_mem t)) id
      · rw [if_neg hto]; exact List.Disjoint.symm (hdis t ht hto)
    · rw [if_neg hso]
      by_cases hto : primary t = primary o
      · rw [if_pos hto]; exact hdis s hs hso
      · rw [if_neg hto]; exact hst

theorem UniqueKeys.applyAll : ∀ {ws : List (Write Row)} {db : List Row},
    UniqueKeys db → ValidAll db ws → UniqueKeys (applyAll ws db)
  | [], _, h, _ => h
  | _ :: _, _, h, hw => (h.apply hw.1).applyAll hw.2

/-! ## Databases that agree on some keys -/

/-- The two databases have the same rows among those occupying a key of `mine`. -/
def Agree (mine : List Ref) (db db' : List Row) : Prop :=
  ∀ r, (∃ k ∈ keys r, k ∈ mine) → (r ∈ db ↔ r ∈ db')

omit [DecidableEq Ref] in
theorem Agree.trans {mine : List Ref} {db db' db'' : List Row} (h : Agree mine db db')
    (h' : Agree mine db' db'') : Agree mine db db'' := fun r hr => (h r hr).trans (h' r hr)

omit [DecidableEq Ref] in
/-- A write is valid or not by the rows that occupy its own keys. -/
theorem Agree.valid {mine : List Ref} {db db' : List Row} (h : Agree mine db db') {w : Write Row}
    (hw : w.refs ⊆ mine) (hv : Valid db w) : Valid db' w := by
  obtain ⟨old, r⟩ := w
  have hr : keys r ⊆ mine := fun k hk => hw (List.mem_append_left _ hk)
  cases old with
  | none =>
    intro s hs k hks hkr
    exact hv s ((h s ⟨k, hks, hr hkr⟩).mpr hs) hks hkr
  | some o =>
    have ho : keys o ⊆ mine := fun k hk => hw (List.mem_append_right _ hk)
    refine ⟨(h o ⟨_, primary_mem o, ho (primary_mem o)⟩).mp hv.1, hv.2.1, fun s hs hne k hks hkr => ?_⟩
    exact hv.2.2 s ((h s ⟨k, hks, hr hkr⟩).mpr hs) hne hks hkr

theorem Agree.apply {mine : List Ref} {db db' : List Row} (h : Agree mine db db') {w : Write Row}
    (hw : w.refs ⊆ mine) (hv : Valid db w) : Agree mine (w.apply db) (w.apply db') := by
  intro s hs
  rw [hv.mem_apply, (h.valid hw hv).mem_apply, h s hs]

theorem Agree.validAll {mine : List Ref} : ∀ {ws : List (Write Row)} {db db' : List Row},
    Agree mine db db' → (∀ w ∈ ws, w.refs ⊆ mine) → ValidAll db ws → ValidAll db' ws
  | [], _, _, _, _, _ => trivial
  | w :: _, _, _, h, hws, hv =>
    have hw := hws w List.mem_cons_self
    ⟨h.valid hw hv.1,
      (h.apply hw hv.1).validAll (fun v hv => hws v (List.mem_cons_of_mem _ hv)) hv.2⟩

/-- A write elsewhere changes no row of mine. -/
theorem agree_apply {mine : List Ref} {db : List Row} (hdb : UniqueKeys db) {w : Write Row}
    (hv : Valid db w) (hd : w.refs.Disjoint mine) : Agree mine db (w.apply db) := by
  rintro s ⟨k, hks, hk⟩
  rw [hv.mem_apply]
  constructor
  · intro hs
    refine Or.inr ⟨hs, fun o ho hpk => ?_⟩
    obtain ⟨old, r⟩ := w
    cases ho
    rw [hdb.eq_of_primary hs hv.1 hpk] at hks
    exact hd (List.mem_append_right _ hks) hk
  · rintro (rfl | ⟨hs, -⟩)
    · exact absurd hk (hd (List.mem_append_left _ hks))
    · exact hs

theorem agree_applyAll {mine : List Ref} : ∀ {ws : List (Write Row)} {db : List Row},
    UniqueKeys db → ValidAll db ws → (∀ w ∈ ws, w.refs.Disjoint mine) →
      Agree mine db (applyAll ws db)
  | [], _, _, _, _ => fun _ _ => Iff.rfl
  | w :: _, _, hdb, hv, hd =>
    (agree_apply hdb hv.1 (hd w List.mem_cons_self)).trans
      (agree_applyAll (hdb.apply hv.1) hv.2 fun v hv => hd v (List.mem_cons_of_mem _ hv))

end Apply

/-! ## The store and its locks -/

/-- The committed rows, and the session that holds the lock of each key. -/
structure Store (Row Ref : Type) where
  rows : List Row
  lock : Ref → Option ℕ

namespace Store

/-- No other session holds any of the keys. -/
def Free (pid : ℕ) (refs : List Ref) (st : Store Row Ref) : Prop :=
  ∀ k ∈ refs, st.lock k = none ∨ st.lock k = some pid

instance (pid : ℕ) (refs : List Ref) (st : Store Row Ref) : Decidable (st.Free pid refs) :=
  inferInstanceAs (Decidable (∀ k ∈ refs, _))

variable [DecidableEq Ref]

/-- Lock keys. -/
def acquire (pid : ℕ) (refs : List Ref) (st : Store Row Ref) : Store Row Ref :=
  { st with lock := fun k => if k ∈ refs then some pid else st.lock k }

/-- Give up all locks of a session. -/
def release (pid : ℕ) (st : Store Row Ref) : Store Row Ref :=
  { st with lock := fun k => if st.lock k = some pid then none else st.lock k }

/-- Commit writes and give up the session's locks. -/
def commit (pid : ℕ) (ws : List (Write Row)) (st : Store Row Ref) : Store Row Ref :=
  { st.release pid with rows := applyAll ws st.rows }

omit [Keyed Row Ref] in
@[simp] theorem acquire_rows (pid : ℕ) (refs : List Ref) (st : Store Row Ref) :
    (st.acquire pid refs).rows = st.rows := rfl

omit [Keyed Row Ref] [DecidableEq Ref] in
@[simp] theorem release_rows (pid : ℕ) (st : Store Row Ref) : (st.release pid).rows = st.rows := rfl

@[simp] theorem commit_rows (pid : ℕ) (ws : List (Write Row)) (st : Store Row Ref) :
    (st.commit pid ws).rows = applyAll ws st.rows := rfl

end Store

section Owns

variable [DecidableEq Ref]

/-- The writes are valid on the committed rows and the session has locked their keys. -/
structure Owns (pid : ℕ) (st : Store Row Ref) (ws : List (Write Row)) : Prop where
  valid : ValidAll st.rows ws
  locked : ∀ w ∈ ws, ∀ k ∈ w.refs, st.lock k = some pid

theorem owns_nil (pid : ℕ) (st : Store Row Ref) : Owns pid st [] := ⟨trivial, by simp⟩

/-- A session that finds the keys of further writes free owns them too once it locks them. -/
theorem Owns.append {pid : ℕ} {st : Store Row Ref} {ws ws' : List (Write Row)}
    (h : Owns pid st ws) (hv : ValidAll (applyAll ws st.rows) ws') {refs : List Ref}
    (hr : ∀ w ∈ ws', w.refs ⊆ refs) : Owns pid (st.acquire pid refs) (ws ++ ws') := by
  refine ⟨validAll_append.mpr ⟨h.valid, hv⟩, fun w hw k hk => ?_⟩
  change (if k ∈ refs then some pid else st.lock k) = some pid
  rcases List.mem_append.mp hw with hw | hw
  · split_ifs with hkr
    · rfl
    · exact h.locked w hw k hk
  · exact if_pos (hr w hw hk)

theorem Owns.acquire_other {pid q : ℕ} {st : Store Row Ref} {ws : List (Write Row)}
    (h : Owns pid st ws) (hne : pid ≠ q) {refs : List Ref} (hf : st.Free q refs) :
    Owns pid (st.acquire q refs) ws := by
  refine ⟨h.valid, fun w hw k hk => ?_⟩
  have hl := h.locked w hw k hk
  change (if k ∈ refs then some q else st.lock k) = some pid
  rw [if_neg, hl]
  intro hkr
  rcases hf k hkr with hn | hq
  · rw [hn] at hl; cases hl
  · rw [hq] at hl; exact hne (Option.some.inj hl).symm

theorem Owns.release_other {pid q : ℕ} {st : Store Row Ref} {ws : List (Write Row)}
    (h : Owns pid st ws) (hne : pid ≠ q) : Owns pid (st.release q) ws := by
  refine ⟨h.valid, fun w hw k hk => ?_⟩
  have hl := h.locked w hw k hk
  change (if st.lock k = some q then none else st.lock k) = some pid
  rw [if_neg, hl]
  rw [hl]
  exact fun he => hne (Option.some.inj he)

/-- **What a session owns survives every commit of another session.** -/
theorem owns_commit_other {pid q : ℕ} {st : Store Row Ref} {ws ws' : List (Write Row)}
    (hst : UniqueKeys st.rows) (h : Owns pid st ws) (h' : Owns q st ws') (hne : pid ≠ q) :
    Owns pid (st.commit q ws') ws := by
  refine ⟨?_, (h.release_other hne).locked⟩
  have hd : ∀ w' ∈ ws', w'.refs.Disjoint (ws.flatMap Write.refs) := by
    intro w' hw' k hk hk'
    obtain ⟨w, hw, hkw⟩ := List.mem_flatMap.mp hk'
    have he := (h.locked w hw k hkw).symm.trans (h'.locked w' hw' k hk)
    exact hne (Option.some.inj he)
  exact (agree_applyAll hst h'.valid hd).validAll
    (fun w hw k hk => List.mem_flatMap.mpr ⟨w, hw, hk⟩) h.valid

end Owns

end ReadCommitted
