import HomeServices.Identity.Obligations

/-!
# Runs of the service

What holds of every run, whichever requests occur in it and however their steps are ordered.

* `Origin`: a thread runs an allowed request, and every step of it did.
* **`db_step`**: the database changes only by the write sets the contracts allow.
* **`post_of_return`**: a call that returned keeps its contract; `signs_of_sign`: so do its signatures.
* `Past`: what a call saw earlier in the run; `token_of_commit`: where tokens come from.
-/

namespace Identity

open ReadCommitted Interaction

variable [Platform] {dep : Deployment} {scope : Scope} {db : List Row} {clock : ℕ} {c c' : State}

/-! ## Threads -/

/-- The thread runs an allowed request, and all its steps were its own. -/
structure Origin (scope : Scope) (i : ℕ) (t : Thread Op Resp Session World Reply) : Prop where
  allowed : scope.allowed t.loc.request
  pid : t.loc.pid = i
  steps : ∀ e ∈ t.hist, e.loc.request = t.loc.request ∧ e.loc.pid = i

theorem origin_reachable (hc : Reachable (machine dep scope) (boot db clock) c) :
    ∀ i t, c.thread i = some t → Origin scope i t := by
  refine hc.invariant (I := fun c => ∀ i t, c.thread i = some t → Origin scope i t)
    (fun i t ht => by cases ht) ?_
  intro c c' _ ih hs i t ht
  cases hs with
  | env _ => exact ih i t ht
  | @spawn j l p hj hst =>
    by_cases hij : i = j
    · subst hij
      simp only [Function.update_self, Option.some.injEq] at ht
      obtain ⟨req, hreq, rfl, rfl⟩ := hst
      subst ht
      exact ⟨hreq, rfl, fun e he => by cases he⟩
    · exact ih i t (by simpa [Function.update_of_ne hij] using ht)
  | @call j l o k h r l' g hj hst =>
    by_cases hij : i = j
    · subst hij
      have ho := ih i _ hj
      have heff := performs_effects hst.1
      simp only [Function.update_self, Option.some.injEq] at ht
      subst ht
      refine ⟨?_, heff.pid_eq.trans ho.pid, fun e he => ?_⟩
      · rw [heff.request_eq]
        exact ho.allowed
      · rw [heff.request_eq]
        rcases List.mem_cons.mp he with rfl | he
        · exact ⟨rfl, ho.pid⟩
        · exact ho.steps e he
    · exact ih i t (by simpa [Function.update_of_ne hij] using ht)
  | again _ hag => cases hag

theorem keeps_fit (hdb : UniqueKeys db) : Keeps (machine dep scope) Fit (boot db clock) :=
  fun _ hc i t ht => ((sound_reachable hdb hc).fit i t ht).2

/-- A thread stays, with its request, and its history grows. -/
theorem thread_persists (hs : Step (machine dep scope) c c') {i : ℕ}
    {t : Thread Op Resp Session World Reply} (ht : c.thread i = some t) :
    ∃ t', c'.thread i = some t' ∧ t'.loc.request = t.loc.request ∧ t.hist <:+ t'.hist := by
  obtain ⟨t', ht', hsuf⟩ := hs.hist_suffix ht
  refine ⟨t', ht', ?_, hsuf⟩
  cases hs with
  | env _ => cases ht.symm.trans ht'; rfl
  | @spawn j _ _ hj _ =>
    by_cases hij : i = j
    · subst hij
      cases hj.symm.trans ht
    · simp only [Function.update_of_ne hij] at ht'
      cases ht.symm.trans ht'; rfl
  | @call j _ _ _ _ _ _ _ hj hst =>
    by_cases hij : i = j
    · subst hij
      cases hj.symm.trans ht
      simp only [Function.update_self, Option.some.injEq] at ht'
      subst ht'
      exact (performs_effects hst.1).request_eq
    · simp only [Function.update_of_ne hij] at ht'
      cases ht.symm.trans ht'; rfl
  | again _ hag => cases hag

/-- Every thread of every run keeps its contract, whatever the others do. -/
theorem safe_thread (hdb : UniqueKeys db) (hc : Reachable (machine dep scope) (boot db clock) c) :
    ∀ i t, c.thread i = some t → Safe (machine dep scope).step Fit (Meets dep)
      (fun h l r => Post dep h l.request r) t.hist t.loc t.prog := by
  refine safe_reachable (keeps_fit hdb) (fun _ => rfl) ?_ (fun _ _ _ _ _ hag => by cases hag) hc
  rintro i l p ⟨req, -, rfl, rfl⟩
  have hhandler : Keeping dep (fun h _ r => Post dep h req r) [] ⟨i, req, none⟩ (handler dep req) :=
    keeping_handler i req
  have hkeep := hhandler.keep (J := fun l => l.request = req)
    (fun _ _ _ _ _ _ _ hp hl => (performs_effects hp).request_eq.trans hl) rfl
  refine Safe.weaken (fun _ _ _ _ _ _ _ hst => hst.1) (hkeep.mono fun h l r hQ => ?_)
  rw [hQ.2]
  exact hQ.1

/-- **A call that returned keeps its contract.** -/
theorem post_of_return (hdb : UniqueKeys db)
    (hc : Reachable (machine dep scope) (boot db clock) c) {i : ℕ} {l : Session} {r : Reply}
    {h : Hist} (ht : c.thread i = some ⟨l, .ret r, h⟩) : Post dep h l.request r :=
  safe_thread hdb hc i _ ht

theorem meets_of_happened (hdb : UniqueKeys db)
    (hc : Reachable (machine dep scope) (boot db clock) c) {i : ℕ} {e : Event} {h : Hist}
    (he : Happened c i e h) : Meets dep h e.loc e.pre e.op := by
  refine hc.entries (P := fun _ h e => Meets dep h e.loc e.pre e.op) (fun _ => rfl) ?_ i e h he
  intro c i e h k hc ht _ hpre
  have hsafe := safe_thread hdb hc i _ ht
  rw [hpre]
  exact (hsafe _ (keeps_fit hdb c hc i _ ht)).1

/-- What a call signed is what its request allows. -/
theorem signs_of_sign (hdb : UniqueKeys db)
    (hc : Reachable (machine dep scope) (boot db clock) c) {i : ℕ}
    {t : Thread Op Resp Session World Reply} (ht : c.thread i = some t) {e : Event} {h : Hist}
    (he : Took t e h) {kp : EcdsaKeyPair} {message : Bytes} (hop : e.op = .sign kp message) :
    Signs dep h t.loc.request kp message := by
  rw [← ((origin_reachable hc i t ht).steps e he.mem).1]
  exact (meets_of_happened hdb hc ⟨t, ht, he⟩).2 kp message hop

/-! ## The past of a call -/

/-- `g` was the shared state at an earlier point of the run that reached `c`. -/
def Past (dep : Deployment) (scope : Scope) (c₀ c : State) (g : World) : Prop :=
  ∃ c₁, Reachable (machine dep scope) c₀ c₁ ∧ c₁.glob = g ∧ Reachable (machine dep scope) c₁ c

theorem past_of_saw (hc : Reachable (machine dep scope) (boot db clock) c) {i : ℕ}
    {t : Thread Op Resp Session World Reply} (ht : c.thread i = some t) {g : World}
    (hsaw : Saw t.hist g) : Past dep scope (boot db clock) c g := by
  obtain ⟨e, he, rfl⟩ := hsaw
  obtain ⟨h, htook⟩ := exists_took he
  obtain ⟨c₁, c₂, hc₁, hpre, hs, -, hc₂⟩ := entry_reachable hc (fun _ => rfl) ⟨t, ht, htook⟩
  exact ⟨c₁, hc₁, hpre, Relation.ReflTransGen.head hs hc₂⟩

theorem clock_step {c c' : State} (hs : Step (machine dep scope) c c') : c.glob.clock ≤ c'.glob.clock := by
  cases hs with
  | env henv =>
    obtain ⟨t, hle, rfl⟩ := henv
    exact hle
  | spawn => exact le_rfl
  | call _ hst => exact (performs_effects hst.1).clock_eq.ge
  | again _ hag => cases hag

theorem Past.clock_le {c₀ : State} {g : World} (h : Past dep scope c₀ c g) : g.clock ≤ c.glob.clock := by
  obtain ⟨c₁, -, rfl, hc⟩ := h
  induction hc with
  | refl => exact le_rfl
  | tail _ hs ih => exact ih.trans (clock_step hs)

theorem Past.unique {g : World} (hdb : UniqueKeys db)
    (h : Past dep scope (boot db clock) c g) : UniqueKeys g.db := by
  obtain ⟨c₁, hc₁, rfl, -⟩ := h
  exact (sound_reachable hdb hc₁).unique

theorem Past.grows {g : World} (hdb : UniqueKeys db) (h : Past dep scope (boot db clock) c g) :
    Grows g.db c.glob.db := by
  obtain ⟨c₁, hc₁, rfl, hc⟩ := h
  exact grows_reachable (sound_reachable hdb hc₁) hc

/-- A user seen earlier is still a row, with its id and address. -/
theorem Past.user {g : World} (hdb : UniqueKeys db) (h : Past dep scope (boot db clock) c g)
    {u : StoredUser} (hu : .user u ∈ g.db) :
    ∃ v, .user v ∈ c.glob.db ∧ v.id = u.id ∧ v.email = u.email ∧
      (u.deletedAt ≠ none → v.deletedAt ≠ none) := by
  obtain ⟨s, hs, hev⟩ := h.grows hdb _ hu
  cases s with
  | user v => exact ⟨v, hs, hev.1, hev.2.1, hev.2.2.2⟩
  | _ => exact hev.elim

/-- A token seen earlier is still a row; only its consumption may be new. -/
theorem Past.token {g : World} (hdb : UniqueKeys db) (h : Past dep scope (boot db clock) c g)
    {t : StoredToken} (ht : .token t ∈ g.db) :
    ∃ consumedAt, .token { t with consumedAt } ∈ c.glob.db ∧
      (t.consumedAt ≠ none → consumedAt ≠ none) := by
  obtain ⟨s, hs, hev⟩ := h.grows hdb _ ht
  cases s with
  | token v =>
    refine ⟨v.consumedAt, ?_, hev.2⟩
    rw [← hev.1]
    exact hs
  | _ => exact hev.elim

/-- A row with the id of a token seen earlier is that token. -/
theorem Past.token_eq {g : World} (hdb : UniqueKeys db) (h : Past dep scope (boot db clock) c g)
    (hunique : UniqueKeys c.glob.db) {t₀ t : StoredToken} (ht₀ : .token t₀ ∈ g.db)
    (ht : .token t ∈ c.glob.db) (hid : t.id = t₀.id) : t = { t₀ with consumedAt := t.consumedAt } := by
  obtain ⟨consumedAt, hmem, -⟩ := h.token hdb ht₀
  rw [token_unique hunique ht hmem hid]

/-- A key seen earlier is still a row; only its status may be new. -/
theorem Past.key {g : World} (hdb : UniqueKeys db) (h : Past dep scope (boot db clock) c g)
    {k : StoredKey} (hk : .key k ∈ g.db) : ∃ status, .key { k with status } ∈ c.glob.db := by
  obtain ⟨s, hs, hev⟩ := h.grows hdb _ hk
  cases s with
  | key j =>
    refine ⟨j.status, ?_⟩
    rw [← (show j = _ from hev)]
    exact hs
  | _ => exact hev.elim

/-! ## What changes the database -/

/-- A write set that a thread of `c` may commit there. -/
structure MayCommit (dep : Deployment) (scope : Scope) (c₀ c : State) (i : ℕ)
    (t : Thread Op Resp Session World Reply) (ws : List (Write Row)) : Prop where
  thread : c.thread i = some t
  allowed : scope.allowed t.loc.request
  wrote : Wrote dep t.hist t.loc.request ws
  commits : ∃ o, Commits t.loc c.glob ws o ∧ scope.guard t.hist o t.loc c.glob
  valid : ValidAll c.glob.db ws
  past : ∀ g, Saw t.hist g → Past dep scope c₀ c g

theorem mayCommit (hdb : UniqueKeys db) (hc : Reachable (machine dep scope) (boot db clock) c)
    {i : ℕ} {l : Session} {o : Op} {k : Resp o → Prog Op Resp Reply} {h : Hist}
    (ht : c.thread i = some ⟨l, .call o k, h⟩) {ws : List (Write Row)} (hne : ws ≠ [])
    (hcom : Commits l c.glob ws o) (hguard : scope.guard h o l c.glob) :
    MayCommit dep scope (boot db clock) c i ⟨l, .call o k, h⟩ ws := by
  have hfit := keeps_fit hdb c hc i _ ht
  exact ⟨ht, (origin_reachable hc i _ ht).allowed, (safe_thread hdb hc i _ ht _ hfit).1.1 ws hne hcom,
    ⟨o, hcom, hguard⟩, hcom.valid hfit, fun g hg => past_of_saw hc ht hg⟩

theorem MayCommit.keeps (hdb : UniqueKeys db)
    (hc : Reachable (machine dep scope) (boot db clock) c) {i : ℕ}
    {t : Thread Op Resp Session World Reply} {ws : List (Write Row)}
    (hw : MayCommit dep scope (boot db clock) c i t ws) : ∀ w ∈ ws, KeepsRow w := by
  obtain ⟨o, hcom, -⟩ := hw.commits
  exact hcom.keeps (keeps_fit hdb c hc i t hw.thread)

/-- **The database changes only by the write sets the contracts allow.** -/
theorem db_step (hdb : UniqueKeys db) (hc : Reachable (machine dep scope) (boot db clock) c)
    (hs : Step (machine dep scope) c c') : c'.glob.db = c.glob.db ∨
      ∃ i t ws, MayCommit dep scope (boot db clock) c i t ws ∧
        c'.glob.db = applyAll ws c.glob.db := by
  rcases step_db hs with he | ⟨i, l, o, ws, k, h, ht, hcom, hguard, he⟩
  · exact Or.inl he
  · by_cases hne : ws = []
    · subst hne
      exact Or.inl he
    · exact Or.inr ⟨i, _, ws, mayCommit hdb hc ht hne hcom hguard, he⟩

/-- An entry of a run that commits writes was allowed to. -/
theorem mayCommit_of_happened (hdb : UniqueKeys db)
    (hc : Reachable (machine dep scope) (boot db clock) c) {i : ℕ} {e : Event} {h : Hist}
    (he : Happened c i e h) {ws : List (Write Row)} (hne : ws ≠ [])
    (hcom : Commits e.loc e.pre ws e.op) :
    ∃ c₁ t, Reachable (machine dep scope) (boot db clock) c₁ ∧ c₁.glob = e.pre ∧ t.loc = e.loc ∧
      t.hist = h ∧ MayCommit dep scope (boot db clock) c₁ i t ws := by
  refine hc.entries (P := fun i h e => Commits e.loc e.pre ws e.op → ∃ c₁ t,
    Reachable (machine dep scope) (boot db clock) c₁ ∧ c₁.glob = e.pre ∧ t.loc = e.loc ∧
      t.hist = h ∧ MayCommit dep scope (boot db clock) c₁ i t ws) (fun _ => rfl) ?_ i e h he hcom
  intro c i e h k hc ht hst hpre hcom
  rw [hpre] at hcom hst
  exact ⟨c, _, hc, hpre.symm, rfl, rfl, mayCommit hdb hc ht hne hcom hst.2⟩

/-- **A property of databases that every allowed write set keeps holds in every run.** -/
theorem db_invariant {P : List Row → Prop} (hdb : UniqueKeys db) (h0 : P db)
    (hstep : ∀ c i t ws, Reachable (machine dep scope) (boot db clock) c → UniqueKeys c.glob.db →
      P c.glob.db → MayCommit dep scope (boot db clock) c i t ws → P (applyAll ws c.glob.db))
    (hc : Reachable (machine dep scope) (boot db clock) c) : P c.glob.db := by
  refine hc.invariant (I := fun c => P c.glob.db) h0 fun c c' hc hP hs => ?_
  rcases db_step hdb hc hs with he | ⟨i, t, ws, hw, he⟩
  · rw [he]
    exact hP
  · rw [he]
    exact hstep c i t ws hc (sound_reachable hdb hc).unique hP hw

/-! ## Where tokens come from -/

/-- The requests that issue tokens. -/
def issues : Request → Bool
  | .signUp _ _ _ _ _ | .resendVerification _ => true
  | _ => false

/-- **A token after a commit was there, is issued by it, or is consumed by it.** -/
theorem token_of_commit (hdb : UniqueKeys db) (hunique : UniqueKeys c.glob.db) {i : ℕ}
    {th : Thread Op Resp Session World Reply} {ws : List (Write Row)}
    (hw : MayCommit dep scope (boot db clock) c i th ws) {t : StoredToken}
    (ht : .token t ∈ applyAll ws c.glob.db) :
    .token t ∈ c.glob.db ∨
    (issues th.loc.request = true ∧ ins (.token t) ∈ ws ∧ t.consumedAt = none) ∨
    ∃ rawToken raw s at_ now, th.loc.request = .verifyEmail rawToken ∧
      Base64Url.decodeVec rawToken = some raw ∧ .token s ∈ c.glob.db ∧ s.consumedAt = none ∧
      s.tokenHash = sha256 raw ∧ Answered th.hist .utcNow at_ ∧ ¬ s.expiresAt < at_.val ∧
      t = { s with consumedAt := some now } := by
  obtain ⟨-, -, hwrote, -, hvalid, hpast⟩ := hw
  generalize th.loc.request = req at hwrote ⊢
  cases hwrote with
  | signingKey | login => exact Or.inl (by simpa using ht)
  | signUp | resendVerification =>
    simp only [applyAll_cons, apply_ins, applyAll_nil, List.mem_append, List.mem_singleton,
      reduceCtorEq, or_false, Row.token.injEq] at ht
    rcases ht with ht | rfl
    · exact Or.inl ht
    · exact Or.inr (Or.inl ⟨rfl, by simp, rfl⟩)
  | @verifyEmail rawToken raw t₀ s u g at_ now hraw hsaw ht₀ hhash _ hid hnow hle hopen _ _ =>
    obtain ⟨hs, hu, -⟩ := hvalid
    have hs := hs.1
    rcases (mem_updToken hs).mp ((mem_token_updUser hu.1).mp ht) with rfl | ⟨ht, -⟩
    · have heq := (hpast g hsaw).token_eq hdb hunique ht₀ hs hid
      have hshash : s.tokenHash = t₀.tokenHash := by rw [heq]
      have hsexp : s.expiresAt = t₀.expiresAt := by rw [heq]
      exact Or.inr (Or.inr ⟨rawToken, raw, s, at_, now, rfl, hraw, hs, hopen, hshash.trans hhash,
        hnow, hsexp ▸ hle, rfl⟩)
    · exact Or.inl ht
  | updateProfile | setUserStatus | softDelete => exact Or.inl ((mem_token_updUser hvalid.1.1).mp ht)
  | @updatePassword _ _ _ _ _ _ _ _ _ _ _ _ _ ws _ _ _ _ _ _ hws =>
    rw [applyAll_append] at ht
    have ht : .token t ∈ applyAll ws c.glob.db := by simpa using ht
    rcases hws with ⟨rfl, -⟩ | ⟨v, -, -, -, rfl⟩
    · exact Or.inl ht
    · exact Or.inl ((mem_token_updUser (validAll_append.mp hvalid).1.1.1).mp ht)
  | setKeyStatus | markPublished =>
    exact Or.inl ((mem_upd_of_ne hvalid.1.1 Row.noConfusion Ref.noConfusion).mp ht)

end Identity
