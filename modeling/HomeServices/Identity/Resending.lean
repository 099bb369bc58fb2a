import HomeServices.Identity.Outcomes

/-!
# Failures of resend_verification

`resend_verification` is silent about addresses it does not write to, and takes a failed lookup for an
unknown address.

* `Silent`, `Queued`, `Honest`: what a success and a failure report.
* `Strict`: a handler does not succeed after a failed operation; `strict_bind`, `strict_attempt`,
  `strict_transaction`: its rules.
* `ends_transaction`: a transaction that succeeded committed what its body wrote.
* **`resend_honest_iff`**: a call reports honestly unless its lookup failed.
-/

namespace Identity

open ReadCommitted Interaction

section Resending

variable [Platform] {dep : Deployment} {h : Hist} {l : Session} {email : String}

/-! ## Honest replies -/

/-- The lookup was answered, and no live account of the address waited for its verification. -/
def Silent (h : Hist) (email : String) : Prop :=
  ∃ found l g l' g', (⟨.sql (.userByEmail email), .ok found, l, g, l', g'⟩ : Event) ∈ h ∧
    ∀ u, .user u ∈ g.db → u.deletedAt = none → lower u.email = lower email →
      u.status ≠ .pendingVerification

/-- A token and the event that mails it were committed for an account of the address. -/
def Queued (dep : Deployment) (h : Hist) (email : String) : Prop :=
  ∃ (u : StoredUser) (raw : Bytes) (tokenId outboxId : Uuid) (expiresAt producedAt now : ℕ)
    (trace : Option (String × String)), lower u.email = lower email ∧ Committed h
      [ins (.token (newToken tokenId u.id (sha256 raw) expiresAt now)),
        ins (.event (newEvent outboxId u.id (verificationEvent dep.webBaseUrl outboxId u.email
          u.givenName u.familyName trace producedAt (Base64Url.encodeString raw)) trace now))]

/-- A success is a silent case or a mail queued, and a failure is no success. -/
def Honest (dep : Deployment) (h : Hist) (email : String) (r : Except ResendVerificationError Unit) :
    Prop :=
  (r = .ok () → Silent h email ∨ Queued dep h email) ∧ (Failed h → r ≠ .ok ())

/-- The lookup of the address failed. -/
def Unanswered (h : Hist) (email : String) : Prop :=
  ∃ e, Answered h (.sql (.userByEmail email)) (.error e)

theorem Unanswered.failed (hu : Unanswered h email) : Failed h :=
  let ⟨_, _, _, _, _, he⟩ := hu
  ⟨_, he, rfl⟩

/-- A lookup that found none, or none that waits, was silent. -/
theorem silent_of_found {found : Option User} {g g' : World} {l l' : Session} {pick : ℕ}
    (hres : ((Sql.userByEmail email).exec g.clock pick g.db).result = .ok found)
    (hstatus : ∀ user, found = some user → user.status ≠ .pendingVerification) :
    Silent (⟨.sql (.userByEmail email), .ok found, l, g, l', g'⟩ :: h) email := by
  refine ⟨found, l, g, l', g', List.mem_cons_self, fun u hu hlive hemail => ?_⟩
  have hmem : u.toUser ∈ ((users g.db).filter fun u =>
      lower u.email = lower email ∧ u.deletedAt = none).map StoredUser.toUser :=
    List.mem_map_of_mem (List.mem_filter.mpr ⟨mem_users.mpr hu, decide_eq_true ⟨hemail, hlive⟩⟩)
  cases found with
  | none =>
    rw [queryOpt_eq_none hres] at hmem
    cases hmem
  | some user =>
    rw [queryOpt_eq_some hres] at hmem
    obtain rfl := List.mem_singleton.mp hmem
    exact hstatus _ rfl

/-! ## No success after a failure -/

section Strict

variable {ε α β : Type}

/-- The handler does not succeed after a failed operation. -/
def Strict (x : Handler Op Resp ε α) : Prop :=
  ∀ h l, ¬ Failed h → Ends (fun h _ r => r.isOk = true → ¬ Failed h) h l x.run

theorem not_failed_cons {e : Event} (hf : ¬ Failed h) (he : failed e.op e.resp = false) :
    ¬ Failed (e :: h) := by
  rintro ⟨e', he', hfail⟩
  rcases List.mem_cons.mp he' with rfl | he'
  · exact Bool.noConfusion (he.symm.trans hfail)
  · exact hf ⟨e', he', hfail⟩

theorem strict_pure (a : α) : Strict (pure a : Handler Op Resp ε α) := fun _ _ hf _ => hf

theorem strict_bind {x : Handler Op Resp ε α} {k : α → Handler Op Resp ε β} (hx : Strict x)
    (hk : ∀ a, Strict (k a)) : Strict (x >>= k) := by
  intro h l hf
  refine safe_run_bind.mpr ((hx h l hf).mono fun h l r hr => ?_)
  cases r with
  | error e => exact fun hok => by cases hok
  | ok a => exact hk a h l (hr rfl)

theorem strict_attempt {o : Op} {f : Resp o → Except ε α}
    (hf : ∀ r a, f r = .ok a → failed o r = false) : Strict (attempt o f) := by
  intro h l hclean g _
  refine ⟨trivial, fun r l' g' _ => ?_⟩
  change (f r).isOk = true → _
  cases hr : f r with
  | error e => exact fun hok => by cases hok
  | ok a => exact fun _ => not_failed_cons hclean (hf r a hr)

theorem strict_fromExcept {x : Except ε α} : Strict (fromExcept x : Handler Op Resp ε α) :=
  fun _ _ hf _ => hf

theorem strict_query {err : PgError → ε} {s : Sql} : Strict (query err s) :=
  strict_attempt fun r _ hr => by
    cases r with
    | error e => cases hr
    | ok a => rfl

theorem strict_transaction {err : PgError → ε} {body : Handler Op Resp ε α} (hbody : Strict body) :
    Strict (transaction err body) := by
  intro h l hf
  refine safe_call.mpr fun g _ => ⟨trivial, fun r l' g' _ => ?_⟩
  cases r with
  | error e => exact fun hok => by cases hok
  | ok _ =>
    refine safe_bind.mpr ((hbody _ l' (not_failed_cons hf rfl)).mono fun h l r hr => ?_)
    cases r with
    | error e => exact safe_call.mpr fun g _ => ⟨trivial, fun _ _ _ _ hok => by cases hok⟩
    | ok a =>
      refine safe_call.mpr fun g _ => ⟨trivial, fun r l' g' _ => ?_⟩
      cases r with
      | error e => exact fun hok => by cases hok
      | ok _ => exact fun _ => not_failed_cons (hr rfl) rfl

/-- Harmless operations first, then what is done outside a transaction. -/
theorem ends_harmless {Q : Hist → Session → Except ε β → Prop} {x : Handler Op Resp ε α}
    {k : α → Handler Op Resp ε β} (hx : x.run.All fun o => o.harmless = true) (hl : l.tx = none)
    (herr : ∀ h l e, Q h l (.error e)) (hk : ∀ h l a, l.tx = none → Ends Q h l (k a).run) :
    Ends Q h l (x >>= k).run := by
  refine safe_run_bind.mpr ((safe_of_all (J := fun _ l => l.tx = none) (fun h o l g r l' g' ho hp hl => ?_)
    hx hl).mono fun h l r hl => ?_)
  · exact (quiet_harmless ho hp ⟨quiet_nil, hl⟩).2
  · cases r with
    | error e => exact herr h l e
    | ok a => exact hk h l a hl

/-- A statement in a transaction. -/
theorem ends_query {Q : Hist → Session → Except ε β → Prop} {tx : Tx} {s : Sql} {err : PgError → ε}
    {k : s.Out → Handler Op Resp ε β} (htx : l.tx = some tx) (herr : ∀ h l e, Q h l (.error e))
    (hk : ∀ h view pick a l', (s.exec tx.startedAt pick view).result = .ok a →
      l'.tx = some ⟨tx.startedAt, tx.writes ++ (s.exec tx.startedAt pick view).writes⟩ →
      Ends Q h l' (k a).run) : Ends Q h l (query err s >>= k).run := by
  refine safe_attempt_bind.mpr fun g _ => ⟨trivial, fun r l' g' hp => ?_⟩
  rcases performs_sql htx hp with ⟨e, rfl, -⟩ | ⟨pick, a, rfl, hres, rfl⟩
  · exact herr _ _ _
  · exact hk _ _ pick a _ hres rfl

/-- **A transaction that succeeds committed what its body wrote.** -/
theorem ends_transaction {P : List (Write Row) → Prop} {err : PgError → ε} {body : Handler Op Resp ε α}
    (hl : l.tx = none) (hbody : ∀ h l, l.tx.isSome = true → Ends
      (fun _ l r => r.isOk = true → ∃ t ws, l.tx = some ⟨t, ws⟩ ∧ P ws) h l body.run) :
    Ends (fun h _ r => r.isOk = true → ∃ ws, P ws ∧ Committed h ws) h l (transaction err body).run := by
  refine safe_call.mpr fun g _ => ⟨trivial, fun r l' g' hp => ?_⟩
  rcases performs_begin hl hp with ⟨rfl, -⟩ | ⟨rfl, rfl⟩
  · exact fun hok => by cases hok
  · refine safe_bind.mpr ((hbody _ _ rfl).mono fun h l r hr => ?_)
    cases r with
    | error e => exact safe_call.mpr fun g _ => ⟨trivial, fun _ _ _ _ hok => by cases hok⟩
    | ok a =>
      obtain ⟨t, ws, htx, hws⟩ := hr rfl
      refine safe_call.mpr fun g _ => ⟨trivial, fun r l' g' _ => ?_⟩
      cases r with
      | error e => exact fun hok => by cases hok
      | ok _ => exact fun _ => ⟨ws, hws, l, g, l', g', t, List.mem_cons_self, htx⟩

end Strict

/-! ## The handler -/

theorem strict_generateVerificationToken {ε : Type} {err : CryptoError → ε} :
    Strict (generateVerificationToken err) :=
  strict_bind (strict_attempt fun r _ hr => by cases r <;> first | rfl | cases hr) fun _ => strict_pure _

theorem strict_issue {webBaseUrl : String} {user : User} :
    Strict (ResendVerification.issue webBaseUrl user) := by
  unfold ResendVerification.issue
  refine strict_bind strict_query fun _ => ?_
  refine strict_bind strict_fromExcept fun _ => ?_
  refine strict_bind (strict_attempt fun _ _ _ => rfl) fun _ => ?_
  refine strict_bind (strict_attempt fun _ _ _ => rfl) fun _ => ?_
  refine strict_bind strict_generateVerificationToken fun _ => ?_
  refine strict_bind (strict_attempt fun _ _ _ => rfl) fun _ => ?_
  refine strict_bind (strict_attempt fun _ _ _ => rfl) fun _ => ?_
  refine strict_bind (strict_attempt fun _ _ _ => rfl) fun _ => ?_
  refine strict_transaction ?_
  exact strict_bind strict_query fun _ => strict_bind strict_query fun _ => strict_pure _

theorem all_transaction {ε α : Type} {P : Op → Prop} {err : PgError → ε} {body : Handler Op Resp ε α}
    (hbegin : P .begin) (hcommit : P .commit) (hrollback : P .rollback) (hbody : body.run.All P) :
    (transaction err body).run.All P := by
  refine ⟨hbegin, fun r => ?_⟩
  cases r with
  | error e => exact trivial
  | ok _ =>
    refine hbody.bind fun r => ?_
    cases r with
    | error e => exact ⟨hrollback, fun _ => trivial⟩
    | ok a => exact ⟨hcommit, fun r => by cases r <;> exact trivial⟩

/-- Issuing a token looks no address up. -/
theorem asks_issue {webBaseUrl : String} {user : User} : (ResendVerification.issue webBaseUrl user).run.All
    fun o => o ≠ .sql (.userByEmail email) := by
  have hop : ∀ {o : Op} {ε α : Type} {f : Resp o → Except ε α}, o ≠ .sql (.userByEmail email) →
      (attempt o f).run.All fun o => o ≠ .sql (.userByEmail email) := fun ho => ⟨ho, fun _ => trivial⟩
  unfold ResendVerification.issue
  refine all_run_bind (hop (by simp)) fun _ => ?_
  refine all_run_bind trivial fun _ => ?_
  refine all_run_bind (hop (by simp)) fun _ => ?_
  refine all_run_bind (hop (by simp)) fun _ => ?_
  refine all_run_bind (all_run_bind (hop (by simp)) fun _ => trivial) fun _ => ?_
  refine all_run_bind (hop (by simp)) fun _ => ?_
  refine all_run_bind (hop (by simp)) fun _ => ?_
  refine all_run_bind (hop (by simp)) fun _ => ?_
  refine all_transaction (by simp) (by simp) (by simp) ?_
  exact all_run_bind (hop (by simp)) fun _ => all_run_bind (hop (by simp)) fun _ => trivial

/-- A token that is issued is committed. -/
theorem ends_issue {webBaseUrl : String} {user : User} (hl : l.tx = none) :
    Ends (fun h _ r => r.isOk = true → ∃ ws, ws ≠ [] ∧ Committed h ws) h l
      (ResendVerification.issue webBaseUrl user).run := by
  unfold ResendVerification.issue insertEvent
  have herr : ∀ (h : Hist) (_ : Session) (e : ResendVerificationError),
      (Except.error e : Except ResendVerificationError Unit).isOk = true →
        ∃ ws, ws ≠ [] ∧ Committed h ws := fun _ _ _ hok => by cases hok
  refine ends_harmless (harmless_attempt rfl) hl herr fun _ _ _ hl => ?_
  refine ends_harmless harmless_fromExcept hl herr fun _ _ _ hl => ?_
  refine ends_harmless (harmless_attempt rfl) hl herr fun _ _ _ hl => ?_
  refine ends_harmless (harmless_attempt rfl) hl herr fun _ _ _ hl => ?_
  refine ends_harmless harmless_generateVerificationToken hl herr fun _ _ _ hl => ?_
  refine ends_harmless (harmless_attempt rfl) hl herr fun _ _ _ hl => ?_
  refine ends_harmless (harmless_attempt rfl) hl herr fun _ _ _ hl => ?_
  refine ends_harmless (harmless_attempt rfl) hl herr fun _ _ _ hl => ?_
  refine ends_transaction hl fun h l htx => ?_
  obtain ⟨tx, htx⟩ := Option.isSome_iff_exists.mp htx
  refine ends_query htx (fun _ _ _ hok => by cases hok) fun _ _ _ _ l₁ _ htx₁ => ?_
  refine ends_query htx₁ (fun _ _ _ hok => by cases hok) fun _ _ _ _ l₂ hres htx₂ => ?_
  refine fun _ => ⟨_, _, htx₂, List.append_ne_nil_of_right_ne_nil _ fun hnil => ?_⟩
  exact List.cons_ne_nil _ _ ((insertRow_ok hres).symm.trans hnil)

/-- The lookup was not answered by an error. -/
theorem answered_cons {o : Op} {r : Resp o} {l' : Session} {g g' : World}
    (ho : o = .sql (.userByEmail email) → failed o r = false) (hu : ¬ Unanswered h email) :
    ¬ Unanswered (⟨o, r, l, g, l', g'⟩ :: h) email := by
  rintro ⟨e, l₁, g₁, l₁', g₁', he⟩
  rcases List.mem_cons.mp he with he | he
  · cases he
    exact Bool.noConfusion (ho rfl)
  · exact hu ⟨e, l₁, g₁, l₁', g₁', he⟩

/-- What every call of `resend_verification` ends with. -/
def Reported (h : Hist) (email : String) (r : Except ResendVerificationError Unit) : Prop :=
  (Unanswered h email ∧ r = .ok ()) ∨ (¬ Unanswered h email ∧ (Failed h → r ≠ .ok ()) ∧
    (r = .ok () → Silent h email ∨ ∃ ws, ws ≠ [] ∧ Committed h ws))

theorem reported_issue {webBaseUrl : String} {user : User} (hl : l.tx = none)
    (hasked : ¬ Unanswered h email) (hfine : ¬ Failed h) :
    Ends (fun h _ r => Reported h email r) h l (ResendVerification.issue webBaseUrl user).run := by
  have hquiet : Ends (fun h _ _ => ¬ Unanswered h email) h l
      (ResendVerification.issue webBaseUrl user).run :=
    safe_of_all (J := fun h _ => ¬ Unanswered h email)
      (fun _ _ _ _ _ _ _ ho _ hu => answered_cons (fun heq => absurd heq ho) hu) asks_issue hasked
  refine ((hquiet.and (strict_issue h l hfine)).and (ends_issue hl)).mono fun h l r hr => ?_
  refine Or.inr ⟨hr.1.1, fun hfail hok => ?_, fun hok => ?_⟩
  · exact hr.1.2 (by rw [hok]; rfl) hfail
  · exact Or.inr (hr.2 (by rw [hok]; rfl))

theorem reported_resendVerification {webBaseUrl : String} (hl : l.tx = none) :
    Ends (fun h _ r => Reported h email r) [] l (ResendVerification.execute webBaseUrl email).run := by
  have hnil : ¬ Unanswered [] email := fun ⟨_, _, _, _, _, he⟩ => by cases he
  have hclean : ¬ Failed [] := fun ⟨_, he, _⟩ => by cases he
  unfold ResendVerification.execute
  refine safe_attempt_bind.mpr fun g _ => ⟨trivial, fun r l₁ g₁ hp => ?_⟩
  obtain rfl := performs_idle rfl hp
  have hasked : ¬ Unanswered [⟨.getConnection, r, l₁, g, l₁, g₁⟩] email :=
    answered_cons (fun ho => by cases ho) hnil
  refine onResult_mapError.mpr ⟨fun _ hr => ?_, fun e hr => ?_⟩
  swap
  · exact Or.inr ⟨hasked, (fun _ hok => by cases hok), fun hok => by cases hok⟩
  have hfine : ¬ Failed [⟨.getConnection, r, l₁, g, l₁, g₁⟩] :=
    not_failed_cons hclean (by rw [hr]; rfl)
  refine safe_attempt_bind.mpr fun g₂ _ => ⟨trivial, fun r₂ l₂ g₂' hp => ?_⟩
  obtain ⟨rfl, hr₂⟩ := performs_autocommit hl hp
  cases r₂ with
  | error e => exact Or.inl ⟨⟨e, answered_head⟩, rfl⟩
  | ok found =>
    obtain ⟨pick, hres⟩ := hr₂.resolve_left (fun hr => by cases hr)
    have hasked : ¬ Unanswered (⟨.sql (.userByEmail email), .ok found, l₂, g₂, l₂, g₂'⟩ :: _) email :=
      answered_cons (fun _ => rfl) hasked
    have hfine : ¬ Failed (⟨.sql (.userByEmail email), .ok found, l₂, g₂, l₂, g₂'⟩ :: _) :=
      not_failed_cons hfine rfl
    have hsilent : (∀ user, found = some user → user.status ≠ .pendingVerification) →
        Reported (⟨.sql (.userByEmail email), .ok found, l₂, g₂, l₂, g₂'⟩ :: _) email (.ok ()) :=
      fun hstatus => Or.inr ⟨hasked, fun hfail => absurd hfail hfine, fun _ =>
        Or.inl (silent_of_found hres.symm hstatus)⟩
    cases found with
    | none => exact hsilent fun _ huser => by cases huser
    | some user =>
      change Ends _ _ _ (ite _ _ _ : Handler Op Resp ResendVerificationError Unit).run
      split_ifs with hpending
      · exact reported_issue hl hasked hfine
      · exact hsilent fun _ huser => by cases huser; exact hpending

/-! ## Runs -/

/-- A call that returned honestly reports what it did, unless its lookup failed. -/
theorem reported_of_return {scope : Scope} {db : List Row} {clock : ℕ} {c : State} {i : ℕ}
    (hc : Reachable (machine dep scope) (boot db clock) c) {r : Reply}
    (ht : c.thread i = some ⟨l, .ret r, h⟩) : ∀ email result, l.request = .resendVerification email →
      r = .resendVerification result → Reported h email result := by
  refine ends_of_return (Q := fun req h r => ∀ email result, req = .resendVerification email →
    r = .resendVerification result → Reported h email result) (fun i req => ?_) hc ht
  cases req with
  | resendVerification email =>
    refine safe_bind.mpr ((reported_resendVerification rfl).mono fun h l r hr => ?_)
    intro email' result hreq hresult
    cases hreq
    cases hresult
    exact hr
  | _ => exact safe_trivial.mono fun _ _ _ _ _ _ hreq => by cases hreq

/-- What a call of `resend_verification` committed is a token and its event. -/
theorem queued_of_committed {scope : Scope} {db : List Row} {clock : ℕ} {c : State} {i : ℕ}
    (hdb : UniqueKeys db) (hc : Reachable (machine dep scope) (boot db clock) c)
    {t : Thread Op Resp Session World Reply} (ht : c.thread i = some t)
    (hreq : t.loc.request = .resendVerification email) {ws : List (Write Row)} (hne : ws ≠ [])
    (hcom : Committed t.hist ws) : Queued dep t.hist email := by
  have hcommitted := hcom
  obtain ⟨l, g, l', g', now, he, htx⟩ := hcom
  obtain ⟨h', htook⟩ := exists_took he
  obtain ⟨c₁, t₁, -, -, hloc, -, hw⟩ := mayCommit_of_happened hdb hc ⟨t, ht, htook⟩ hne ⟨_, htx, rfl⟩
  have hreq₁ : t₁.loc.request = .resendVerification email := by
    rw [hloc, ((origin_reachable hc i t ht).steps _ he).1, hreq]
  have hwrote := hw.wrote
  rw [hreq₁] at hwrote
  cases hwrote with
  | @resendVerification _ u _ _ _ _ raw tokenId outboxId expiresAt producedAt now trace _ _ _ hemail =>
    exact ⟨u, raw, tokenId, outboxId, expiresAt, producedAt, now, trace, hemail, hcommitted⟩

/-- **A call of `resend_verification` reports honestly exactly when its lookup does not fail.** -/
theorem resend_honest_iff {scope : Scope} {db : List Row} {clock : ℕ} {c : State} (hdb : UniqueKeys db)
    (hc : Reachable (machine dep scope) (boot db clock) c) :
    ∀ i l r h email, c.thread i = some ⟨l, .ret (.resendVerification r), h⟩ →
      l.request = .resendVerification email → (Honest dep h email r ↔ ¬ Unanswered h email) := by
  intro i l r h email ht hreq
  rcases reported_of_return hc ht email r hreq rfl with ⟨hlost, rfl⟩ | ⟨hasked, hfail, hok⟩
  · exact iff_of_false (fun hhonest => hhonest.2 hlost.failed rfl) (not_not.mpr hlost)
  · refine iff_of_true ⟨fun hr => (hok hr).imp_right ?_, hfail⟩ hasked
    rintro ⟨ws, hne, hcom⟩
    exact queued_of_committed hdb hc ht hreq hne hcom

end Resending

/-! ## Samples -/

namespace Sample

/-- The lookup of the address fails. -/
def lostLookup : List Command := call 0 (.resendVerification "ada@home") [fine, { fault := true }]

/-- A call whose lookup was answered reports honestly. -/
theorem resend_honest_ada : ∃ c l h,
    execute deployment (.of fun _ => True) (boot [.user ada] 0) (resendVerification 0 "ada@home" 10 5) =
      some c ∧
    c.thread 0 = some ⟨l, .ret (.resendVerification (.ok ())), h⟩ ∧
    Honest deployment h "ada@home" (.ok ()) := by
  have hrun : (execute deployment (.of fun _ => True) (boot [.user ada] 0)
      (resendVerification 0 "ada@home" 10 5)).any (returned 0 fun req r h =>
        req = .resendVerification "ada@home" && r = .resendVerification (.ok ()) &&
          h.all fun e => !failed e.op e.resp) = true := by decide +kernel
  obtain ⟨c, hexec, hc, hend⟩ := Driver.exists_of_execute hrun
  obtain ⟨l, r, h, ht, hend⟩ := of_returned hend
  simp only [Bool.and_eq_true, decide_eq_true_eq, List.all_eq_true, Bool.not_eq_true'] at hend
  obtain ⟨⟨hreq, rfl⟩, hall⟩ := hend
  have hasked : ¬ Unanswered h "ada@home" := by
    intro hlost
    obtain ⟨e, he, hfail⟩ := hlost.failed
    exact Bool.noConfusion ((hall e he).symm.trans hfail)
  have hhonest := (resend_honest_iff (List.pairwise_singleton _ _) hc 0 l _ h "ada@home" ht hreq).mpr
    hasked
  exact ⟨c, l, h, hexec, ht, hhonest⟩

/-- **A failed lookup is reported as a success.** -/
theorem swallowed_lookup : ∃ c l h,
    Reachable (machine deployment (.of fun _ => True)) (boot [.user ada] 0) c ∧
    c.thread 0 = some ⟨l, .ret (.resendVerification (.ok ())), h⟩ ∧
    l.request = .resendVerification "ada@home" ∧ ¬ Honest deployment h "ada@home" (.ok ()) := by
  have hrun : (execute deployment (.of fun _ => True) (boot [.user ada] 0) lostLookup).any
      (returned 0 fun req r h => req = .resendVerification "ada@home" &&
        r = .resendVerification (.ok ()) && h.any fun e => failed e.op e.resp) = true := by
    decide +kernel
  obtain ⟨c, -, hc, hend⟩ := Driver.exists_of_execute hrun
  obtain ⟨l, r, h, ht, hend⟩ := of_returned hend
  simp only [Bool.and_eq_true, decide_eq_true_eq, List.any_eq_true] at hend
  obtain ⟨⟨hreq, rfl⟩, e, he, hfail⟩ := hend
  exact ⟨c, l, h, hc, ht, hreq, fun hhonest => hhonest.2 ⟨e, he, hfail⟩ rfl⟩

end Sample

end Identity
