import HomeServices.Gateway.Contract
import HomeServices.Identity.Sample

/-!
# Session isolation

The cookie, the encoding, the hash and the three statements of the store compose to an exact map: a
value yields the session that was created with it, until that is logged out or expires.

* `Created`, `LoggedOut`, `Expired`: what happened to a token.
* `Exact`, `exact_reachable`: the rows are those that were inserted and neither deleted nor expired.
* `Extracts`, `extract_other`: what a request with a cookie goes on with, and what a logout leaves.
* **`sessions_isolated`**; `driver`, `Sample.sessions_isolated_twoUsers`: in a run of two users.
-/

namespace Gateway

open Interaction
open Identity (Bytes Platform sha256)

variable [Platform]

/-! ## What happened to a token -/

omit [Platform] in
/-- A login returned the token `v`, of the session whose row is `s`. -/
def Created (c : State) (v : String) (s : Session) : Prop :=
  ∃ i t expiresAt, c.thread i = some t ∧ t.prog = .ret (.ok (.loggedIn (setSessionCookie v) expiresAt)) ∧
    ∃ e ∈ t.hist, ∃ s₀, e.op = .insert s₀ ∧ s = s₀.row

omit [Platform] in
/-- A logout with the token `v` completed. -/
def LoggedOut (c : State) (v : String) : Prop :=
  ∃ i t headers cookie, c.thread i = some t ∧ t.loc = .logout headers ∧
    extractSessionCookie headers = .ok v ∧ t.prog = .ret (.ok (.loggedOut cookie))

/-- The row of the token `v` expired. -/
def Expired (g : World) (v : String) : Prop :=
  ∃ tokenHash, hashSessionToken v = .ok tokenHash ∧ tokenHash ∈ g.expired

/-! ## Every run -/

omit [Platform] in
/-- The table after an operation. -/
def Op.table (sessions : Bytes → Option Session) : Op → Bytes → Option Session
  | insert s => Function.update sessions s.tokenHash (some s.row)
  | delete tokenHash => Function.update sessions tokenHash none
  | _ => sessions

omit [Platform] in
theorem table_of_performs {o : Op} {l l' : Request} {g g' : World} {r : Resp o}
    (h : Performs Reliable o l g r l' g') : g'.sessions = o.table g.sessions ∧ g'.expired = g.expired := by
  obtain ⟨-, ch, hch, hperform⟩ := h
  cases o with
  | insert s | delete tokenHash =>
    simp only [perform, hch rfl, Bool.false_eq_true, if_false] at hperform
    cases hperform
    exact ⟨rfl, rfl⟩
  | fill =>
    simp only [perform] at hperform
    split_ifs at hperform <;> cases hperform
    · exact ⟨rfl, rfl⟩
    · exact ⟨rfl, rfl⟩
  | _ =>
    cases hperform
    exact ⟨rfl, rfl⟩

omit [Platform] in
theorem keyed_step {o : Op} {l l' : Request} {g g' : World} {r : Resp o}
    (hst : Performs Reliable o l g r l' g') (hg : Keyed g) : Keyed g' := by
  intro tokenHash s hs
  rw [(table_of_performs hst).1] at hs
  cases o with
  | insert s₀ =>
    simp only [Op.table, Function.update_apply] at hs
    split_ifs at hs with heq
    · cases hs
      exact heq.symm
    · exact hg _ _ hs
  | delete tokenHash₀ =>
    simp only [Op.table, Function.update_apply] at hs
    split_ifs at hs
    exact hg _ _ hs
  | _ => exact hg _ _ hs

theorem keyed_reachable {c : State} (hc : Reachable (machine Reliable) boot c) : Keyed c.glob := by
  refine hc.invariant (I := fun c => Keyed c.glob) (fun _ _ hs => by cases hs) ?_
  intro c c' _ hg hs
  cases hs with
  | env henv =>
    obtain ⟨hrow⟩ := henv
    intro tokenHash s hs
    simp only [World.expire, Function.update_apply] at hs
    split_ifs at hs
    exact hg _ _ hs
  | spawn => exact hg
  | again => exact hg
  | call _ hst => exact keyed_step hst hg

theorem keeps_keyed : Keeps (machine Reliable) (fun _ => Keyed) boot := fun _ hc _ _ _ => keyed_reachable hc

theorem sound_thread {c : State} (hc : Reachable (machine Reliable) boot c) {i : ℕ}
    {t : Thread Op Resp Request World (Except AppError Response)} (ht : c.thread i = some t) :
    Sound t.hist t.loc t.prog :=
  safe_reachable keeps_keyed (fun _ => rfl) (fun _ l _ hp => by rw [hp]; exact sound_route l)
    (fun _ _ _ _ _ hagain => by cases hagain) hc i t ht

/-- A request that has written has returned. -/
theorem returned_of_wrote {c : State} (hc : Reachable (machine Reliable) boot c) {i : ℕ}
    {t : Thread Op Resp Request World (Except AppError Response)} (ht : c.thread i = some t) {e : Event}
    (he : e ∈ t.hist) (hwrites : e.op.writes = true) : ∃ a, t.prog = .ret a ∧ Returned t.hist t.loc a := by
  have hsound := sound_thread hc ht
  cases hprog : t.prog with
  | ret a =>
    rw [hprog] at hsound
    exact ⟨a, rfl, hsound⟩
  | call o k =>
    rw [hprog] at hsound
    have hquiet := (hsound c.glob (keyed_reachable hc)).1.unwritten e he
    rw [hwrites] at hquiet
    cases hquiet

theorem meets_entry {c : State} (hc : Reachable (machine Reliable) boot c) {i : ℕ} {e : Event} {h : Hist}
    (he : Happened c i e h) : Meets h e.loc e.op :=
  past_of_safe keeps_keyed (fun _ => rfl) (fun _ l _ hp => by rw [hp]; exact sound_route l)
    (fun _ _ _ _ _ hagain => by cases hagain) hc i e h he

/-! ## Tokens are drawn once -/

omit [Platform] in
theorem drawn_of_performs {o : Op} {l l' : Request} {g g' : World} {r : Resp o}
    (h : Performs Reliable o l g r l' g') {raw : Bytes} (hraw : raw ∈ g.drawn) : raw ∈ g'.drawn := by
  obtain ⟨-, ch, hch, hperform⟩ := h
  cases o with
  | insert s | delete tokenHash =>
    simp only [perform, hch rfl, Bool.false_eq_true, if_false] at hperform
    cases hperform
    exact hraw
  | fill =>
    simp only [perform] at hperform
    split_ifs at hperform <;> cases hperform
    · exact hraw
    · exact List.mem_cons_of_mem _ hraw
  | _ =>
    cases hperform
    exact hraw

omit [Platform] in
theorem fresh_of_draws {raw : Bytes} {e : Event} (he : Draws raw e)
    (hst : Performs Reliable e.op e.loc e.pre e.resp e.loc' e.post) :
    ¬ raw ∈ e.pre.drawn ∧ raw ∈ e.post.drawn := by
  obtain ⟨l, g, l', g', rfl⟩ := he
  obtain ⟨-, ch, -, hperform⟩ := hst
  simp only [perform] at hperform
  split_ifs at hperform with hfault hfresh
  · cases hperform
  · simp only [Option.some.injEq, Prod.mk.injEq, Except.ok.injEq] at hperform
    obtain ⟨rfl, rfl⟩ := hperform
    exact ⟨hfresh.2, List.mem_cons_self⟩

/-- Random tokens are drawn once. -/
theorem draws_once {c : State} (hc : Reachable (machine Reliable) boot c) {raw : Bytes} {i₁ i₂ : ℕ}
    {e₁ e₂ : Event} {h₁ h₂ : Hist} (he₁ : Happened c i₁ e₁ h₁) (hd₁ : Draws raw e₁)
    (he₂ : Happened c i₂ e₂ h₂) (hd₂ : Draws raw e₂) : i₁ = i₂ := by
  have hdoes : ∀ c i e h, Reachable (machine Reliable) boot c → Happened c i e h → Draws raw e →
      ¬ raw ∈ e.pre.drawn ∧ raw ∈ e.post.drawn := fun c i e h hc he hd =>
    fresh_of_draws hd (entry_step hc (fun _ => rfl) he)
  have hstable : ∀ c c', Reachable (machine Reliable) boot c → Step (machine Reliable) c c' →
      raw ∈ c.glob.drawn → raw ∈ c'.glob.drawn := by
    intro c c' _ hs hraw
    cases hs with
    | env henv =>
      cases henv
      exact hraw
    | spawn => exact hraw
    | again => exact hraw
    | call _ hst => exact drawn_of_performs hst hraw
  have honce := (at_most_once (D := fun g => raw ∈ g.drawn) (fun _ => rfl) hdoes hstable hc).2
  exact (honce i₁ e₁ h₁ i₂ e₂ h₂ he₁ hd₁ he₂ hd₂).1

/-! ## The table -/

omit [Platform] in
/-- The session was inserted, and its row is `s`. -/
def Inserted (c : State) (tokenHash : Bytes) (s : Session) : Prop :=
  ∃ i e h s₀, Happened c i e h ∧ e.op = .insert s₀ ∧ s₀.tokenHash = tokenHash ∧ s₀.row = s

omit [Platform] in
def Deleted (c : State) (tokenHash : Bytes) : Prop := ∃ i e h, Happened c i e h ∧ e.op = .delete tokenHash

omit [Platform] in
/-- The rows are those that were inserted and neither deleted nor expired. -/
structure Exact (c : State) : Prop where
  rows : ∀ tokenHash s, c.glob.sessions tokenHash = some s ↔
    Inserted c tokenHash s ∧ ¬ Deleted c tokenHash ∧ tokenHash ∉ c.glob.expired
  gone : ∀ tokenHash, Deleted c tokenHash ∨ tokenHash ∈ c.glob.expired → ∃ s, Inserted c tokenHash s
  found : ∀ i e h tokenHash, Happened c i e h → Finds tokenHash e → ∃ s, Inserted c tokenHash s

theorem Inserted.step {allowed : Op → Choice → Prop} {c c' : State} {tokenHash : Bytes} {s : Session}
    (h : Inserted c tokenHash s) (hs : Step (machine allowed) c c') : Inserted c' tokenHash s := by
  obtain ⟨i, e, h, s₀, he, hop⟩ := h
  exact ⟨i, e, h, s₀, he.step hs, hop⟩

theorem Deleted.step {c c' : State} {tokenHash : Bytes} (h : Deleted c tokenHash)
    (hs : Step (machine Reliable) c c') : Deleted c' tokenHash := by
  obtain ⟨i, e, h, he, hop⟩ := h
  exact ⟨i, e, h, he.step hs, hop⟩

/-- A request inserts under a hash that was never used. -/
theorem insert_fresh (hinj : Function.Injective sha256) {c : State}
    (hc : Reachable (machine Reliable) boot c) {i : ℕ} {l : Request} {o : Op} {s₀ : Session}
    {k : Resp o → Prog Op Resp (Except AppError Response)} {h : Hist}
    (hi : c.thread i = some ⟨l, .call o k, h⟩) (ho : o = .insert s₀) (s : Session) :
    ¬ Inserted c s₀.tokenHash s := by
  rintro ⟨j, e, h', s₁, he, hop, hhash, -⟩
  obtain ⟨-, raw, ⟨d, hd, hdraws⟩, hraw⟩ :=
    ((sound_thread hc hi) c.glob (keyed_reachable hc)).1.inserts s₀ ho
  obtain ⟨-, raw', ⟨d', hd', hdraws'⟩, hraw'⟩ := (meets_entry hc he).inserts s₁ hop
  obtain rfl : raw' = raw := hinj (hraw'.symm.trans (hhash.trans hraw))
  -- the earlier insertion was by the same request
  obtain ⟨t, ht, htook⟩ := he
  obtain ⟨h₁, hd⟩ := exists_took (t := ⟨l, .call o k, h⟩) hd
  obtain ⟨h₂, hd'⟩ := exists_took (t := t) (htook.subset (List.mem_cons_of_mem _ hd'))
  obtain rfl := draws_once hc ⟨_, hi, hd⟩ hdraws ⟨t, ht, hd'⟩ hdraws'
  obtain ⟨a, ha, -⟩ := returned_of_wrote hc ht htook.mem (by rw [hop]; rfl)
  cases hi.symm.trans ht
  cases ha

omit [Platform] in
theorem expire_of_env {g g' : World} (h : Env g g') :
    ∃ tokenHash s, g.sessions tokenHash = some s ∧ g' = g.expire tokenHash := by
  cases h with
  | expire hrow => exact ⟨_, _, hrow, rfl⟩

omit [Platform] in
theorem row_of_finds {tokenHash : Bytes} {e : Event} (he : Finds tokenHash e)
    (hst : Performs Reliable e.op e.loc e.pre e.resp e.loc' e.post) :
    ∃ s, e.pre.sessions tokenHash = some s := by
  obtain ⟨s, l, g, l', g', rfl⟩ := he
  obtain ⟨-, ch, hch, hperform⟩ := hst
  simp only [perform, hch rfl, Bool.false_eq_true, if_false, Option.some.injEq, Prod.mk.injEq,
    Except.ok.injEq] at hperform
  exact ⟨s, hperform.1⟩

/-- A step without an entry leaves the table, or takes out a row that expires. -/
theorem Exact.quiet {c c' : State} (h : Exact c) (hs : Step (machine Reliable) c c')
    (hold : ∀ i e h, Happened c' i e h → Happened c i e h)
    (hglob : c'.glob = c.glob ∨ Env c.glob c'.glob) : Exact c' := by
  have hinserted : ∀ {tokenHash s}, Inserted c' tokenHash s ↔ Inserted c tokenHash s :=
    ⟨fun ⟨i, e, h, s₀, he, hop⟩ => ⟨i, e, h, s₀, hold i e h he, hop⟩, fun hi => hi.step hs⟩
  have hdeleted : ∀ {tokenHash}, Deleted c' tokenHash ↔ Deleted c tokenHash :=
    ⟨fun ⟨i, e, h, he, hop⟩ => ⟨i, e, h, hold i e h he, hop⟩, fun hd => hd.step hs⟩
  have hfound : ∀ i e hist tokenHash, Happened c' i e hist → Finds tokenHash e →
      ∃ s, Inserted c' tokenHash s := by
    intro i e hist tokenHash he hf
    simp only [hinserted]
    exact h.found i e hist tokenHash (hold i e hist he) hf
  rcases hglob with hsame | henv
  · refine ⟨fun tokenHash s => ?_, fun tokenHash => ?_, hfound⟩
    · rw [hsame, hinserted, hdeleted]
      exact h.rows tokenHash s
    · simp only [hsame, hinserted, hdeleted]
      exact h.gone tokenHash
  · obtain ⟨tokenHash₀, s₀, hrow, hglob⟩ := expire_of_env henv
    refine ⟨fun tokenHash s => ?_, fun tokenHash => ?_, hfound⟩
    · rw [hglob, hinserted, hdeleted]
      simp only [World.expire, Function.update_apply, List.mem_cons]
      by_cases heq : tokenHash = tokenHash₀
      · simp [heq]
      · rw [if_neg heq, h.rows]
        simp [heq]
    · simp only [hglob, hinserted, hdeleted, World.expire, List.mem_cons]
      rintro (hdeleted | rfl | hexpired)
      · exact h.gone _ (Or.inl hdeleted)
      · exact ⟨s₀, ((h.rows _ _).mp hrow).1⟩
      · exact h.gone _ (Or.inr hexpired)

/-- An operation leaves the table exact. -/
theorem Exact.called (hinj : Function.Injective sha256) {c c' : State}
    (hc : Reachable (machine Reliable) boot c) (h : Exact c) (hs : Step (machine Reliable) c c') {j : ℕ}
    {e₀ : Event} {h₀ : Hist} {k : Resp e₀.op → Prog Op Resp (Except AppError Response)}
    (hj : c.thread j = some ⟨e₀.loc, .call e₀.op k, h₀⟩)
    (hst : Performs Reliable e₀.op e₀.loc e₀.pre e₀.resp e₀.loc' e₀.post) (hpre : e₀.pre = c.glob)
    (hpost : e₀.post = c'.glob) (he₀ : Happened c' j e₀ h₀)
    (hnew : ∀ i e hist, Happened c' i e hist → Happened c i e hist ∨ i = j ∧ e = e₀ ∧ hist = h₀) :
    Exact c' := by
  obtain ⟨htable, hexpired⟩ := table_of_performs hst
  rw [hpre, hpost] at htable hexpired
  have hmeets : Meets h₀ e₀.loc e₀.op := ((sound_thread hc hj) c.glob (keyed_reachable hc)).1
  have hinserted : ∀ {tokenHash s}, Inserted c' tokenHash s ↔ Inserted c tokenHash s ∨
      ∃ s₀, e₀.op = .insert s₀ ∧ s₀.tokenHash = tokenHash ∧ s₀.row = s := by
    refine fun {tokenHash s} => ⟨fun ⟨i, e, hist, s₀, he, hop⟩ => ?_, ?_⟩
    · rcases hnew i e hist he with he | ⟨-, rfl, -⟩
      · exact Or.inl ⟨i, e, hist, s₀, he, hop⟩
      · exact Or.inr ⟨s₀, hop⟩
    · rintro (hi | ⟨s₀, hop⟩)
      · exact hi.step hs
      · exact ⟨j, e₀, h₀, s₀, he₀, hop⟩
  have hdeleted : ∀ {tokenHash}, Deleted c' tokenHash ↔ Deleted c tokenHash ∨ e₀.op = .delete tokenHash := by
    refine fun {tokenHash} => ⟨fun ⟨i, e, hist, he, hop⟩ => ?_, ?_⟩
    · rcases hnew i e hist he with he | ⟨-, rfl, -⟩
      · exact Or.inl ⟨i, e, hist, he, hop⟩
      · exact Or.inr hop
    · rintro (hd | hop)
      · exact hd.step hs
      · exact ⟨j, e₀, h₀, he₀, hop⟩
  -- what a logout found was inserted
  have hhad : ∀ {tokenHash}, e₀.op = .delete tokenHash → ∃ s, Inserted c tokenHash s := by
    intro tokenHash hop
    obtain ⟨-, e, he, hf⟩ := hmeets.deletes tokenHash hop
    obtain ⟨hist, htook⟩ := exists_took (t := ⟨e₀.loc, .call e₀.op k, h₀⟩) he
    exact h.found j e hist tokenHash ⟨_, hj, htook⟩ hf
  refine ⟨fun tokenHash s => ?_, fun tokenHash hgone => ?_, fun i e hist tokenHash he hf => ?_⟩
  · rw [htable, hexpired, hinserted, hdeleted]
    cases hop : e₀.op with
    | insert s₀ =>
      simp only [Op.table, Function.update_apply, Op.insert.injEq, reduceCtorEq, or_false]
      by_cases heq : tokenHash = s₀.tokenHash
      · subst heq
        have hfresh := insert_fresh hinj hc hj hop
        have hkept : ¬ Deleted c s₀.tokenHash ∧ s₀.tokenHash ∉ c.glob.expired := by
          refine ⟨fun hd => ?_, fun hmem => ?_⟩
          · obtain ⟨s', hs'⟩ := h.gone _ (Or.inl hd)
            exact hfresh s' hs'
          · obtain ⟨s', hs'⟩ := h.gone _ (Or.inr hmem)
            exact hfresh s' hs'
        rw [if_pos rfl, Option.some.injEq]
        refine ⟨fun hrow => ⟨Or.inr ⟨s₀, rfl, rfl, hrow⟩, hkept⟩, ?_⟩
        rintro ⟨hi | ⟨s₁, rfl, -, hrow⟩, -⟩
        · exact (hfresh s hi).elim
        · exact hrow
      · rw [if_neg heq, h.rows]
        refine and_congr_left fun _ => ⟨Or.inl, ?_⟩
        rintro (hi | ⟨s₁, rfl, hhash, -⟩)
        · exact hi
        · exact (heq hhash.symm).elim
    | delete tokenHash₀ =>
      simp only [Op.table, Function.update_apply, Op.delete.injEq, reduceCtorEq, false_and, exists_false,
        or_false]
      by_cases heq : tokenHash = tokenHash₀
      · simp [heq]
      · rw [if_neg heq, h.rows]
        simp [Ne.symm heq]
    | _ =>
      simp only [Op.table, reduceCtorEq, false_and, exists_false, or_false]
      exact h.rows tokenHash s
  · simp only [hinserted]
    rw [hexpired, hdeleted] at hgone
    obtain ⟨s, hs⟩ : ∃ s, Inserted c tokenHash s := by
      rcases hgone with (hd | hop) | hmem
      · exact h.gone _ (Or.inl hd)
      · exact hhad hop
      · exact h.gone _ (Or.inr hmem)
    exact ⟨s, Or.inl hs⟩
  · simp only [hinserted]
    obtain ⟨s, hs⟩ : ∃ s, Inserted c tokenHash s := by
      rcases hnew i e hist he with he | ⟨-, rfl, -⟩
      · exact h.found i e hist tokenHash he hf
      · obtain ⟨s, hrow⟩ := row_of_finds hf hst
        rw [hpre] at hrow
        exact ⟨s, ((h.rows _ _).mp hrow).1⟩
    exact ⟨s, Or.inl hs⟩

/-- **The table is exact in every run.** -/
theorem exact_reachable (hinj : Function.Injective sha256) {c : State}
    (hc : Reachable (machine Reliable) boot c) : Exact c := by
  refine hc.invariant ⟨fun tokenHash s => ?_, fun tokenHash hgone => ?_, fun _ _ _ _ he => ?_⟩ ?_
  · refine ⟨(fun h => by cases h), fun ⟨⟨_, _, _, _, he, _⟩, _⟩ => ?_⟩
    exact (not_happened (fun _ => rfl) he).elim
  · rcases hgone with ⟨_, _, _, he, -⟩ | hmem
    · exact (not_happened (fun _ => rfl) he).elim
    · exact (List.not_mem_nil hmem).elim
  · exact (not_happened (fun _ => rfl) he).elim
  · intro c c' hc h hs
    rcases hs.entries with ⟨hold, hglob⟩ | ⟨j, e₀, h₀, k, hj, hst, hpre, hpost, he₀, hnew⟩
    · exact h.quiet hs hold hglob
    · exact h.called hinj hc hs hj hst hpre hpost he₀ hnew

/-! ## Tokens -/

theorem inserted_iff_created (hinj : Function.Injective sha256) {c : State}
    (hc : Reachable (machine Reliable) boot c) {raw : Bytes} {s : Session} :
    Inserted c (sha256 raw) s ↔ Created c (Base64Url.encodeString raw) s := by
  refine ⟨fun ⟨i, e, h, s₀, ⟨t, ht, htook⟩, hop, hhash, hrow⟩ => ?_,
    fun ⟨i, t, expiresAt, ht, hprog, e, he, s₀, hop, hrow⟩ => ?_⟩
  · obtain ⟨a, ha, hreturned⟩ := returned_of_wrote hc ht htook.mem (by rw [hop]; rfl)
    obtain ⟨raw', expiresAt, hhash', rfl⟩ := hreturned.inserted e htook.mem s₀ hop
    obtain rfl := hinj (hhash'.symm.trans hhash)
    exact ⟨i, t, expiresAt, ht, ha, e, htook.mem, s₀, hop, hrow.symm⟩
  · obtain ⟨a, ha, hreturned⟩ := returned_of_wrote hc ht he (by rw [hop]; rfl)
    obtain ⟨raw', expiresAt', hhash, rfl⟩ := hreturned.inserted e he s₀ hop
    have hcookie := hprog.symm.trans ha
    simp only [Prog.ret.injEq, Except.ok.injEq, Response.loggedIn.injEq] at hcookie
    obtain rfl := encodeString_inj (setSessionCookie_inj hcookie.1)
    obtain ⟨h, htook⟩ := exists_took he
    exact ⟨i, e, h, s₀, ⟨t, ht, htook⟩, hop, hhash, hrow.symm⟩

theorem deleted_iff_loggedOut (hinj : Function.Injective sha256) {c : State}
    (hc : Reachable (machine Reliable) boot c) {raw : Bytes} :
    Deleted c (sha256 raw) ↔ LoggedOut c (Base64Url.encodeString raw) := by
  refine ⟨fun ⟨i, e, h, ⟨t, ht, htook⟩, hop⟩ => ?_,
    fun ⟨i, t, headers, cookie, ht, hloc, hextract, hprog⟩ => ?_⟩
  · obtain ⟨a, ha, hreturned⟩ := returned_of_wrote hc ht htook.mem (by rw [hop]; rfl)
    obtain ⟨⟨headers, raw', hloc, hextract, hhash⟩, cookie, rfl⟩ := hreturned.deleted e htook.mem _ hop
    obtain rfl := hinj hhash
    exact ⟨i, t, headers, cookie, ht, hloc, hextract, ha⟩
  · have hreturned := sound_thread hc ht
    rw [hprog] at hreturned
    obtain ⟨e, he, tokenHash, hop⟩ := Returned.loggedOut hreturned headers cookie hloc rfl
    obtain ⟨⟨headers', raw', hloc', hextract', rfl⟩, -⟩ := Returned.deleted hreturned e he _ hop
    obtain rfl := Request.logout.inj (hloc.symm.trans hloc')
    obtain rfl := encodeString_inj (Except.ok.inj (hextract.symm.trans hextract'))
    obtain ⟨h, htook⟩ := exists_took he
    exact ⟨i, e, h, ⟨t, ht, htook⟩, hop⟩

theorem expired_iff {g : World} {raw : Bytes} :
    Expired g (Base64Url.encodeString raw) ↔ sha256 raw ∈ g.expired := by
  rw [Expired, hashSessionToken, Base64Url.decodeVec_encodeString]
  refine ⟨fun ⟨tokenHash, hhash, hmem⟩ => ?_, fun hmem => ⟨_, rfl, hmem⟩⟩
  cases hhash
  exact hmem

/-- What a login returned is a token. -/
theorem Created.token {c : State} (hc : Reachable (machine Reliable) boot c) {v : String} {s : Session}
    (h : Created c v s) : ∃ raw, v = Base64Url.encodeString raw := by
  obtain ⟨i, t, expiresAt, ht, hprog, e, he, s₀, hop, -⟩ := h
  obtain ⟨a, ha, hreturned⟩ := returned_of_wrote hc ht he (by rw [hop]; rfl)
  obtain ⟨raw, expiresAt', -, rfl⟩ := hreturned.inserted e he s₀ hop
  have hcookie := hprog.symm.trans ha
  simp only [Prog.ret.injEq, Except.ok.injEq, Response.loggedIn.injEq] at hcookie
  exact ⟨raw, setSessionCookie_inj hcookie.1⟩

/-- The extractor yields exactly the created sessions that are neither logged out nor expired. -/
theorem extract_iff (hinj : Function.Injective sha256) {c : State}
    (hc : Reachable (machine Reliable) boot c) {v : String} (hv : Plain v) {s : Session} :
    extract c.glob v = .ok s ↔ Created c v s ∧ ¬ LoggedOut c v ∧ ¬ Expired c.glob v := by
  have htoken : ∀ raw, extract c.glob (Base64Url.encodeString raw) = .ok s ↔
      Created c (Base64Url.encodeString raw) s ∧ ¬ LoggedOut c (Base64Url.encodeString raw) ∧
        ¬ Expired c.glob (Base64Url.encodeString raw) := by
    intro raw
    rw [extract_encodeString, lookedUp_ok, (exact_reachable hinj hc).rows, inserted_iff_created hinj hc,
      deleted_iff_loggedOut hinj hc, expired_iff]
  refine ⟨fun h => ?_, fun h => ?_⟩
  · obtain ⟨raw, rfl, -⟩ := extract_ok hv h
    exact (htoken raw).mp h
  · obtain ⟨raw, rfl⟩ := h.1.token hc
    exact (htoken raw).mpr h

/-! ## Requests -/

/-- A request that begins with the cookie `v` goes on with what the extractor yields at its first step. -/
def Extracts (c : State) (v : String) : Prop :=
  ∀ i l, l.headers = some (cookieHeaders v) → c.thread i = some ⟨l, (route l).run, []⟩ →
    ∃ k : Session → Route, route l = authSession (cookieHeaders v) >>= k ∧
      ((route l).run = (fromExcept (extract c.glob v) >>= k).run ∨
        ∀ c', Step (machine Reliable) c c' → c'.thread i ≠ c.thread i →
          ∃ h, c'.thread i = some ⟨l, (fromExcept (extract c.glob v) >>= k).run, h⟩)

theorem route_headers {l : Request} {headers : HeaderMap} (hl : l.headers = some headers) :
    ∃ k : Session → Route, route l = authSession headers >>= k := by
  cases l with
  | logout | userInfo | updateProfile | updatePassword =>
    cases hl
    exact ⟨_, rfl⟩
  | _ => cases hl

theorem authSession_shape (headers : HeaderMap) : (∃ r, (authSession headers).run = .ret r) ∨
    ∃ tokenHash, (authSession headers).run = .call (.select tokenHash) fun r => .ret (lookedUp r) := by
  rw [authSession_run]
  split
  · exact Or.inl ⟨_, rfl⟩
  · split
    · exact Or.inl ⟨_, rfl⟩
    · exact Or.inr ⟨_, rfl⟩

theorem extracts (c : State) (v : String) : Extracts c v := by
  intro i l hl hi
  obtain ⟨k, hk⟩ := route_headers hl
  refine ⟨k, hk, ?_⟩
  rw [hk] at hi ⊢
  rw [run_bind] at hi ⊢
  rcases authSession_shape (cookieHeaders v) with ⟨r, hr⟩ | ⟨tokenHash, hr⟩
  · refine Or.inl ?_
    rw [run_bind, extract, hr]
    rfl
  · refine Or.inr fun c' hs hmoved => ?_
    rw [hr] at hi
    obtain ⟨t', ht', -⟩ := hs.hist_suffix hi
    rw [ht']
    cases hs.moved ht' with
    | stayed hsame => exact (hmoved (ht'.trans hsame.symm)).elim
    | spawned hnone => cases hnone.symm.trans hi
    | again hret => cases hret.symm.trans hi
    | @called l₁ l' o k' hist r hcall hst =>
      cases hcall.symm.trans hi
      obtain ⟨rfl, ch, hch, hperform⟩ := hst
      simp only [perform, hch rfl, Bool.false_eq_true, if_false, Option.some.injEq, Prod.mk.injEq] at hperform
      obtain ⟨rfl, -⟩ := hperform
      refine ⟨[⟨.select tokenHash, .ok (c.glob.sessions tokenHash), l', c.glob, l', c'.glob⟩], ?_⟩
      rw [run_bind, extract, hr]
      rfl

/-- A logout with one token leaves what the others yield. -/
theorem extract_other {c c' : State} (hinj : Function.Injective sha256)
    (hc : Reachable (machine Reliable) boot c) (hs : Step (machine Reliable) c c') {i : ℕ}
    {t : Thread Op Resp Request World (Except AppError Response)} (ht : c.thread i = some t)
    (hmoved : c'.thread i ≠ some t) {headers : HeaderMap} (hloc : t.loc = .logout headers) {u v : String}
    (hu : extractSessionCookie headers = .ok u) (hv : Plain v) (huv : u ≠ v) :
    extract c'.glob v = extract c.glob v := by
  cases hdec : Base64Url.decodeVec v with
  | none => rw [extract_undecodable hv hdec, extract_undecodable hv hdec]
  | some raw =>
    obtain rfl := Base64Url.decodeVec_eq_some.mp hdec
    rw [extract_encodeString, extract_encodeString]
    obtain ⟨t', ht', -⟩ := hs.hist_suffix ht
    cases hs.moved ht' with
    | stayed hsame => exact (hmoved (ht'.trans (hsame.symm.trans ht))).elim
    | spawned hnone => cases hnone.symm.trans ht
    | again _ hagain => cases hagain
    | @called l l' o k hist r hcall hst =>
      cases hcall.symm.trans ht
      have hmeets := ((sound_thread hc hcall) c.glob (keyed_reachable hc)).1
      rw [(table_of_performs hst).1]
      cases o with
      | insert s =>
        obtain ⟨⟨_, _, hlogin⟩, -⟩ := hmeets.inserts s rfl
        cases hloc.symm.trans hlogin
      | delete tokenHash =>
        obtain ⟨⟨headers', raw', hlogout, hextract, rfl⟩, -⟩ := hmeets.deletes tokenHash rfl
        cases hloc.symm.trans hlogout
        obtain rfl := Except.ok.inj (hu.symm.trans hextract)
        have hne : sha256 raw ≠ sha256 raw' := fun heq => huv (by rw [hinj heq])
        rw [Op.table, Function.update_of_ne hne]
      | _ => rfl

theorem Created.mono {c c' : State} {v : String} {s : Session} (h : Created c v s)
    (hc : Reachable (machine Reliable) c c') : Created c' v s := by
  obtain ⟨i, t, expiresAt, ht, hprog, he⟩ := h
  exact ⟨i, t, expiresAt, hc.returned ht hprog rfl, hprog, he⟩

theorem LoggedOut.mono {c c' : State} {v : String} (h : LoggedOut c v)
    (hc : Reachable (machine Reliable) c c') : LoggedOut c' v := by
  obtain ⟨i, t, headers, cookie, ht, hloc, hextract, hprog⟩ := h
  exact ⟨i, t, headers, cookie, hc.returned ht hprog rfl, hloc, hextract, hprog⟩

/-- **At every moment of every run a cookie yields exactly the session that was created with it, if it
is neither logged out, which is for good, nor expired; a request with the cookie goes on with that; and a
logout leaves what every other cookie yields.** -/
theorem sessions_isolated (hinj : Function.Injective sha256) {c : State}
    (hc : Reachable (machine Reliable) boot c) {v : String} (hv : Plain v) :
    (∀ s, extract c.glob v = .ok s ↔ Created c v s ∧ ¬ LoggedOut c v ∧ ¬ Expired c.glob v) ∧
    (∀ c', Reachable (machine Reliable) c c' →
      (∀ s, Created c v s → Created c' v s) ∧ (LoggedOut c v → LoggedOut c' v)) ∧
    Extracts c v ∧
    ∀ c' i t headers u, Step (machine Reliable) c c' → c.thread i = some t → c'.thread i ≠ some t →
      t.loc = .logout headers → extractSessionCookie headers = .ok u → u ≠ v →
      extract c'.glob v = extract c.glob v :=
  ⟨fun _ => extract_iff hinj hc hv, fun _ hc' => ⟨fun _ h => h.mono hc', fun h => h.mono hc'⟩, extracts c v,
    fun _ _ _ _ _ hs ht hmoved hloc hu huv => extract_other hinj hc hs ht hmoved hloc hu hv huv⟩

/-! ## Executing requests -/

/-- The executable requests; a row that expires has to be there. -/
def driver : Driver (machine Reliable) Request Choice Bytes where
  start _ l := some (l, (route l).run)
  perform ch _ l g o :=
    if o.stores = true ∧ ch.fault = true then none else (perform ch g o).map fun r => (r.1, l, r.2)
  outside tokenHash g := if (g.sessions tokenHash).isSome then some (g.expire tokenHash) else none
  start_ok h := by
    cases h
    rfl
  perform_ok {ch h l g o r l' g'} hperform := by
    split_ifs at hperform with hfault
    obtain ⟨⟨r', g''⟩, hr, he⟩ := Option.map_eq_some_iff.mp hperform
    cases he
    refine ⟨rfl, ch, fun hstores => ?_, hr⟩
    cases hch : ch.fault with
    | false => rfl
    | true => exact (hfault ⟨hstores, hch⟩).elim
  outside_ok {tokenHash g g'} h := by
    split_ifs at h with hrow
    cases h
    obtain ⟨s, hs⟩ := Option.isSome_iff_exists.mp hrow
    exact .expire hs


end Gateway

namespace Gateway.Sample

open Interaction
open Identity (Bytes Platform asBytes sha256)

/-! ## Two users -/

/-- The text of a UUID that ends in `n`. -/
def uuidText (n : String) : String := "0000000000000000000000000000000" ++ n

def payload (n : String) : Bytes := asBytes ("\x7b\"sub\":\"" ++ uuidText n ++ "\"\x7d")

/-- The libraries on the tokens of two users. -/
scoped instance platform : Platform :=
  { Identity.Sample.platform with
    jsonParse bs :=
      if bs = payload "5" then some (.obj [("sub", .str (uuidText "5"))])
      else if bs = payload "6" then some (.obj [("sub", .str (uuidText "6"))])
      else none
    parseUuid s := if s = uuidText "5" then some 5 else if s = uuidText "6" then some 6 else none }

/-- The identity service logs a user in; the token drawn consists of the byte `b`. -/
def answering (accessToken : String) (b : UInt8) : Choice where
  reply
    | .login _ _ => .ok ⟨accessToken, "", "", some ⟨0, 0⟩⟩
    | .signUp .. | .verifyEmail _ | .updateProfile .. | .updatePassword .. | .resendVerification _ =>
      .error (.unauthenticated "")
    | .userInfo _ => .error (.unauthenticated "")
  bytes := List.replicate 32 b

def request (i : ℕ) (l : Request) (n : ℕ) (ch : Choice) : List (Command Request Choice Bytes) :=
  .start i l :: List.replicate n (.act i ch)

def token (b : UInt8) : String := Base64Url.encodeString (List.replicate 32 b)

/-- Two users log in, and the first logs out. -/
def twoUsers : List (Command Request Choice Bytes) :=
  let first := answering "e30.eyJzdWIiOiIwMDAwMDAwMDAwMDAwMDAwMDAwMDAwMDAwMDAwMDAwNSJ9." 1
  let second := answering "e30.eyJzdWIiOiIwMDAwMDAwMDAwMDAwMDAwMDAwMDAwMDAwMDAwMDAwNiJ9." 2
  request 0 (.login "" "") 5 first ++ request 1 (.login "" "") 5 second ++
    request 2 (.logout (cookieHeaders (token 1))) 2 first

set_option maxRecDepth 100000 in
theorem execute_twoUsers : (driver.execute boot twoUsers).map (fun c =>
    ((c.glob.sessions (List.replicate 32 1)).map Session.userId,
      (c.glob.sessions (List.replicate 32 2)).map Session.userId)) = some (none, some 6) := by
  decide +kernel

/-- After the first user logged out, the second user's cookie yields the second user's session. -/
theorem sessions_isolated_twoUsers : ∃ c s, Reachable (machine Reliable) boot c ∧
    extract c.glob (token 1) = .error .unauthorized ∧ extract c.glob (token 2) = .ok s ∧ s.userId = 6 ∧
    Created c (token 2) s ∧ ¬ LoggedOut c (token 2) ∧ ¬ Expired c.glob (token 2) := by
  obtain ⟨c, hexec, hsessions⟩ := Option.map_eq_some_iff.mp execute_twoUsers
  obtain ⟨hfirst, hsecond⟩ := Prod.mk.inj hsessions
  obtain ⟨s, hs, huser⟩ := Option.map_eq_some_iff.mp hsecond
  have hc := Driver.reachable hexec
  have hyields : extract c.glob (token 2) = .ok s := by
    rw [token, extract_encodeString, lookedUp_ok]
    exact hs
  have hgone : extract c.glob (token 1) = .error .unauthorized := by
    rw [token, extract_encodeString]
    change lookedUp (.ok (c.glob.sessions (List.replicate 32 1))) = _
    rw [Option.map_eq_none_iff.mp hfirst]
    rfl
  have hinj : Function.Injective sha256 := fun _ _ h => h
  exact ⟨c, s, hc, hgone, hyields, huser,
    ((sessions_isolated hinj hc (plain_encodeString (List.replicate 32 2))).1 s).mp hyields⟩

end Gateway.Sample
