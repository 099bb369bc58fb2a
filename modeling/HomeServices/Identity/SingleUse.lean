import HomeServices.Identity.Execution

/-!
# Single use of verification tokens

* `Consumes`: a committed write that leaves a token consumed.
* `consumes_spec`: it finds the token unconsumed.
* **`token_single_use`**: no token is consumed by two commits; a call that presents a spent token
  is refused and changes nothing.
-/

namespace Identity

open ReadCommitted Interaction

section Tokens

variable [Platform] {dep : Deployment} {scope : Scope} {db : List Row} {clock : ℕ} {c : State}

/-- The step applied these writes to the database. -/
structure Applied (e : Event) (ws : List (Write Row)) : Prop where
  ne_nil : ws ≠ []
  commits : Commits e.loc e.pre ws e.op
  post_eq : e.post.db = applyAll ws e.pre.db

/-- The step applied a write that leaves the token `id` consumed. -/
def Consumes (id : Uuid) (e : Event) : Prop :=
  ∃ ws o t, Applied e ws ∧ upd o (.token t) ∈ ws ∧ t.id = id ∧ t.consumedAt ≠ none

/-- The token is consumed. -/
def IsConsumed (id : Uuid) (g : World) : Prop :=
  ∃ t, .token t ∈ g.db ∧ t.id = id ∧ t.consumedAt ≠ none

/-- Only a `verify_email` replaces tokens, and the one it replaces is unconsumed. -/
theorem wrote_token {h : Hist} {req : Request} {ws : List (Write Row)} (hw : Wrote dep h req ws)
    {o : Row} {t : StoredToken} (hmem : upd o (.token t) ∈ ws) :
    ∃ s u v, ws = [upd (.token s) (.token t), upd (.user u) (.user v)] ∧ s.id = t.id ∧
      s.consumedAt = none := by
  cases hw with
  | @verifyEmail _ _ _ s u =>
    simp only [upd, List.mem_cons, Write.mk.injEq, Option.some.injEq, reduceCtorEq, and_false,
      List.not_mem_nil, or_false] at hmem
    obtain ⟨rfl, ht⟩ := hmem
    cases ht
    exact ⟨s, u, _, rfl, rfl, ‹_›⟩
  | @updatePassword _ _ _ _ _ _ _ _ _ _ _ _ _ ws _ _ _ _ _ _ hws =>
    rcases hws with ⟨rfl, -⟩ | ⟨v, -, -, -, rfl⟩ <;> simp [ins, upd] at hmem
  | _ => simp [ins, upd] at hmem

theorem consumes_spec (hdb : UniqueKeys db) (hc : Reachable (machine dep scope) (boot db clock) c)
    {i : ℕ} {e : Event} {h : Hist} (he : Happened c i e h) {id : Uuid} (hcons : Consumes id e) :
    ¬ IsConsumed id e.pre ∧ IsConsumed id e.post := by
  obtain ⟨ws, o, t, happ, hmem, rfl, ht⟩ := hcons
  obtain ⟨c₁, th, hc₁, hpre, -, -, hmay⟩ := mayCommit_of_happened hdb hc he happ.ne_nil happ.commits
  obtain ⟨s, u, v, rfl, hid, hopen⟩ := wrote_token hmay.wrote hmem
  obtain ⟨hs, hu, -⟩ := hmay.valid
  have hs := hs.1
  rw [IsConsumed, IsConsumed, happ.post_eq, ← hpre]
  refine ⟨?_, t, (mem_token_updUser hu.1).mpr ((mem_updToken hs).mpr (Or.inl rfl)), rfl, ht⟩
  rintro ⟨s', hs', hid', hc'⟩
  have hunique := (sound_reachable hdb hc₁).unique
  rw [token_unique hunique hs' hs (hid'.trans hid.symm)] at hc'
  exact hc' hopen

theorem isConsumed_step (hdb : UniqueKeys db) {c' : State}
    (hc : Reachable (machine dep scope) (boot db clock) c) (hs : Step (machine dep scope) c c')
    {id : Uuid} (h : IsConsumed id c.glob) : IsConsumed id c'.glob := by
  obtain ⟨t, ht, rfl, hcons⟩ := h
  have hpast : Past dep scope (boot db clock) c' c.glob := ⟨c, hc, rfl, .single hs⟩
  obtain ⟨consumedAt, hmem, hkeep⟩ := hpast.token hdb ht
  exact ⟨_, hmem, rfl, hkeep hcons⟩

/-- A call of `verify_email` that changed the database consumed a token of its hash. -/
theorem consumes_of_applied (hdb : UniqueKeys db)
    (hc : Reachable (machine dep scope) (boot db clock) c) {i : ℕ}
    {th : Thread Op Resp Session World Reply} (hth : c.thread i = some th) {rawToken : String}
    {raw : Bytes} (hreq : th.loc.request = .verifyEmail rawToken)
    (hraw : Base64Url.decodeVec rawToken = some raw) {e : Event} {h : Hist} (htook : Took th e h)
    {ws : List (Write Row)} (happ : Applied e ws) :
    ∃ s, .token s ∈ e.pre.db ∧ s.consumedAt = none ∧ s.tokenHash = sha256 raw ∧ Consumes s.id e := by
  obtain ⟨c₁, th₁, hc₁, hpre, hloc, -, hmay⟩ :=
    mayCommit_of_happened hdb hc ⟨th, hth, htook⟩ happ.ne_nil happ.commits
  have hwrote := hmay.wrote
  have hreq₁ : th₁.loc.request = .verifyEmail rawToken := by
    rw [hloc, ((origin_reachable hc i th hth).steps e htook.mem).1, hreq]
  rw [hreq₁] at hwrote
  cases hwrote with
  | @verifyEmail _ raw' t₀ s u g at_ now hraw' hsaw ht₀ hhash _ hid _ _ hopen _ _ =>
    cases hraw.symm.trans hraw'
    have hs := hmay.valid.1.1
    have heq := (hmay.past g hsaw).token_eq hdb (sound_reachable hdb hc₁).unique ht₀ hs hid
    have hshash : s.tokenHash = t₀.tokenHash := by rw [heq]
    exact ⟨s, hpre ▸ hs, hopen, hshash.trans hhash, _, _, _, happ, List.mem_cons_self, rfl, by simp⟩

/-- While no request issues tokens, every token comes from the start. -/
theorem tokens_from_start {allowed : Request → Prop} (hscope : ∀ req, allowed req → issues req = false)
    (hdb : UniqueKeys db) (hc : Reachable (machine dep (.of allowed)) (boot db clock) c) :
    ∀ t, .token t ∈ c.glob.db → ∃ t₀, .token t₀ ∈ db ∧ t₀.id = t.id ∧ t₀.tokenHash = t.tokenHash ∧
      (t.consumedAt = none → t₀.consumedAt = none) := by
  refine db_invariant (P := fun db' => ∀ t, .token t ∈ db' → ∃ t₀, .token t₀ ∈ db ∧ t₀.id = t.id ∧
    t₀.tokenHash = t.tokenHash ∧ (t.consumedAt = none → t₀.consumedAt = none)) hdb
    (fun t ht => ⟨t, ht, rfl, rfl, id⟩) ?_ hc
  intro c i th ws _ hunique ih hw t ht
  rcases token_of_commit hdb hunique hw ht with
    ht | ⟨hissues, -, -⟩ | ⟨-, -, s, -, now, -, -, hs, -, -, -, -, rfl⟩
  · exact ih t ht
  · rw [hscope _ hw.allowed] at hissues
    cases hissues
  · obtain ⟨t₀, ht₀, hid, hhash, -⟩ := ih s hs
    exact ⟨t₀, ht₀, hid, hhash, fun h => by cases h⟩

/-- An acknowledged commit applied its writes. -/
theorem applied_of_committed (hc : Reachable (machine dep scope) (boot db clock) c) {i : ℕ}
    {th : Thread Op Resp Session World Reply} (hth : c.thread i = some th) {ws : List (Write Row)}
    (hne : ws ≠ []) (hcom : Committed th.hist ws) : ∃ e h, Took th e h ∧ Applied e ws := by
  obtain ⟨l, g, l', g', t, hmem, htx⟩ := hcom
  obtain ⟨h, htook⟩ := exists_took hmem
  have hstep := entry_step hc (fun _ => rfl) ⟨th, hth, htook⟩
  exact ⟨_, h, htook, hne, ⟨_, htx, rfl⟩, performs_commit_ok htx hstep.1⟩

/-- A call that changed nothing by any write set changed nothing. -/
theorem unchanged_of_not_applied (hc : Reachable (machine dep scope) (boot db clock) c) {i : ℕ}
    {e : Event} {h : Hist} (he : Happened c i e h) (hnone : ∀ ws, ¬ Applied e ws) :
    e.post.db = e.pre.db := by
  rcases (performs_effects (entry_step hc (fun _ => rfl) he).1).db_eq with heq | ⟨ws, hcom, heq⟩
  · exact heq
  · by_cases hne : ws = []
    · rw [heq, hne, applyAll_nil]
    · exact (hnone ws ⟨hne, hcom, heq⟩).elim

/-- **No token is consumed by two commits, and a call that presents a spent token is refused and
changes nothing.** -/
theorem token_single_use (hdb : UniqueKeys db) :
    (∀ allowed c, Reachable (machine dep (.of allowed)) (boot db clock) c →
      ∀ id i₁ e₁ h₁ i₂ e₂ h₂, Happened c i₁ e₁ h₁ → Consumes id e₁ → Happened c i₂ e₂ h₂ →
        Consumes id e₂ → i₁ = i₂ ∧ h₁ = h₂) ∧
    ∀ c, Reachable (machine dep (.of (issues · = false))) (boot db clock) c →
      -- thread `i` has committed
      ∀ i ti e h ws rawToken raw, c.thread i = some ti → ti.loc.request = .verifyEmail rawToken →
        Base64Url.decodeVec rawToken = some raw → Took ti e h → Applied e ws →
      -- thread `j` presented the same token, met no fault, saw the user live and returned `r`
      ∀ j l r h' rawToken', j ≠ i → c.thread j = some ⟨l, .ret r, h'⟩ →
        l.request = .verifyEmail rawToken' → Base64Url.decodeVec rawToken' = some raw →
        ¬ Faulted h' → (∀ t, .token t ∈ c.glob.db → t.tokenHash = sha256 raw → ∀ g, Saw h' g →
          ∃ u, .user u ∈ g.db ∧ u.id = t.userId ∧ u.deletedAt = none) →
        (r = .verifyEmail (.error .invalidToken) ∨ r = .verifyEmail (.error .alreadyConsumed)) ∧
          ∀ e' ∈ h', e'.post.db = e'.pre.db := by
  have honce : ∀ scope c, Reachable (machine dep scope) (boot db clock) c →
      ∀ id i₁ e₁ h₁ i₂ e₂ h₂, Happened c i₁ e₁ h₁ → Consumes id e₁ → Happened c i₂ e₂ h₂ →
        Consumes id e₂ → i₁ = i₂ ∧ h₁ = h₂ := fun scope c hc id =>
    (at_most_once (D := IsConsumed id) (fun _ => rfl)
      (fun _ _ _ _ hc he hcons => consumes_spec hdb hc he hcons)
      (fun _ _ hc hs hdone => isConsumed_step hdb hc hs hdone) hc).2
  refine ⟨fun allowed c => honce _ c, ?_⟩
  intro c hc i ti e h ws rawToken raw hti hreq hraw htook happ j l r h' rawToken' hji htj hreq' hraw'
    hfault hlive
  obtain ⟨s, hs, hopen, hhash, hcons⟩ := consumes_of_applied hdb hc hti hreq hraw htook happ
  -- the other call consumed nothing: it would have been the same token
  have hnone : ∀ e' h₁, Took ⟨l, .ret r, h'⟩ e' h₁ → ∀ ws', ¬ Applied e' ws' := by
    intro e' h₁ htook' ws' happ'
    obtain ⟨s', hs', hopen', hhash', hcons'⟩ :=
      consumes_of_applied hdb hc htj hreq' hraw' htook' happ'
    obtain ⟨c₁, -, hc₁, hpre₁, -⟩ := entry_reachable hc (fun _ => rfl) ⟨_, hti, htook⟩
    obtain ⟨c₂, -, hc₂, hpre₂, -⟩ := entry_reachable hc (fun _ => rfl) ⟨_, htj, htook'⟩
    obtain ⟨t, ht, hid, hth, hto⟩ := tokens_from_start (fun _ h => h) hdb hc₁ s (hpre₁ ▸ hs)
    obtain ⟨t', ht', hid', hth', hto'⟩ := tokens_from_start (fun _ h => h) hdb hc₂ s' (hpre₂ ▸ hs')
    have heq : t = t' := token_unique_hash hdb ht ht' (hto hopen) (hto' hopen')
      ((hth.trans hhash).trans (hth'.trans hhash').symm)
    have hsame : s.id = s'.id := by rw [← hid, ← hid', heq]
    rw [hsame] at hcons
    exact hji (honce _ c hc s'.id j e' h₁ i e h ⟨_, htj, htook'⟩ hcons' ⟨_, hti, htook⟩ hcons).1
  refine ⟨?_, fun e' he' => ?_⟩
  · have hpost := post_of_return hdb hc htj
    rw [hreq'] at hpost
    cases r with
    | verifyEmail reply =>
      match reply, hpost with
      | .ok (), ⟨ws', hne, hcom⟩ =>
        obtain ⟨e', h₁, htook', happ'⟩ := applied_of_committed hc htj hne hcom
        exact (hnone e' h₁ htook' ws' happ').elim
      | .error .invalidToken, _ => exact Or.inl rfl
      | .error .alreadyConsumed, _ => exact Or.inr rfl
      | .error .userNotFound, ⟨raw', g, t, g', hraw₂, hsaw, ht, hth, hsaw', hgone⟩ =>
        cases hraw'.symm.trans hraw₂
        obtain ⟨consumedAt, hmem, -⟩ := (past_of_saw hc htj hsaw).token hdb ht
        obtain ⟨u, hu, hid, hl⟩ := hlive _ hmem hth g' hsaw'
        exact absurd hl (hgone u hu hid)
      | .error .pool, hf | .error (.db _), hf => exact absurd hf hfault
    | _ => exact hpost.elim
  · have he' : e' ∈ (⟨l, .ret r, h'⟩ : Thread Op Resp Session World Reply).hist := he'
    obtain ⟨h₁, htook'⟩ := exists_took he'
    exact unchanged_of_not_applied hc ⟨_, htj, htook'⟩ (hnone e' h₁ htook')

end Tokens

open Sample

/-- Two calls see the token unconsumed; the first commits before the second updates. -/
def race : List Command :=
  let req := Request.verifyEmail (Base64Url.encodeString (rawToken 5))
  call 0 req (List.replicate 4 fine) ++ call 1 req (List.replicate 4 fine) ++
    List.replicate 3 (.act 0 fine) ++ List.replicate 2 (.act 1 fine)

/-- Call 0 returned `ok`; call 1 returned, met no fault and saw the user live. -/
def raceEnd (c : State) : Bool :=
  match c.thread 0, c.thread 1 with
  | some ⟨l, .ret (.verifyEmail (.ok ())), _⟩, some ⟨l', .ret _, h'⟩ =>
    (match l.request, l'.request with
      | .verifyEmail s, .verifyEmail s' => s = Base64Url.encodeString (rawToken 5) && s' = s
      | _, _ => false) &&
    !decide (Faulted h') && ((tokens c.glob.db).all fun t => t.userId = 1) && h'.all fun e => (users e.pre.db).any fun u => u.id = 1 && u.deletedAt = none
  | _, _ => false

/-- In the race, the second call is refused and changes nothing. -/
theorem token_single_use_race : ∃ c l r h,
    execute deployment (.of (issues · = false)) (boot [.user ada, .token adaToken] 0) race = some c ∧
    c.thread 1 = some ⟨l, .ret r, h⟩ ∧
    (r = .verifyEmail (.error .invalidToken) ∨ r = .verifyEmail (.error .alreadyConsumed)) ∧
    ∀ e ∈ h, e.post.db = e.pre.db := by
  have hdb := unique_pair ada adaToken
  have hrun : (execute deployment (.of (issues · = false)) (boot [.user ada, .token adaToken] 0)
      race).any raceEnd = true := by decide +kernel
  obtain ⟨c, hexec, hc, hend⟩ := Driver.exists_of_execute hrun
  unfold raceEnd at hend
  split at hend
  · rename_i l h l' r h' ht₀ ht₁
    simp only [Bool.and_eq_true] at hend
    obtain ⟨⟨⟨hreqs, hfault⟩, htokens⟩, hlive⟩ := hend
    split at hreqs
    · rename_i s s' hreq hreq'
      simp only [Bool.and_eq_true, decide_eq_true_eq] at hreqs
      obtain ⟨rfl, rfl⟩ := hreqs
      have hpost := post_of_return hdb hc ht₀
      rw [hreq] at hpost
      obtain ⟨ws, hne, hcom⟩ := hpost
      obtain ⟨e, h₁, htook, happ⟩ := applied_of_committed hc ht₀ hne hcom
      refine ⟨c, l', r, h', hexec, ht₁, (token_single_use hdb).2 c hc 0 _ e h₁ ws _ _ ht₀ hreq
        (Base64Url.decodeVec_encodeString _) htook happ 1 l' r h' _ (by decide) ht₁ hreq'
        (Base64Url.decodeVec_encodeString _) (by simpa using hfault) fun t ht _ g hg => ?_⟩
      obtain ⟨e', he', rfl⟩ := hg
      obtain ⟨u, hu, hlive⟩ := List.any_eq_true.mp (List.all_eq_true.mp hlive e' he')
      have huser : t.userId = 1 := of_decide_eq_true (List.all_eq_true.mp htokens t (mem_tokens.mpr ht))
      simp only [Bool.and_eq_true, decide_eq_true_eq] at hlive
      exact ⟨u, mem_users.mp hu, hlive.1.trans huser.symm, hlive.2⟩
    · cases hreqs
  · cases hend

end Identity
