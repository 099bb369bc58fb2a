import HomeServices.Identity.SingleUse

/-!
# Suspended users and leftover tokens

The statement that marks an address as verified does not look at the user's status. A leftover
token of a suspended or locked user makes the user active again.

* `MayActivate`: no unconsumed token of the presented hash belongs to a live user an operator has
  taken out of use.
* `status_of_commit`: what a commit may do to the status of a user.
* **`verify_keeps_statuses_iff`**: a `verify_email` keeps the statuses of all users that are not
  pending exactly when `MayActivate` holds where it commits; while it does, suspended users stay
  suspended and cannot log in.
* `verify_reactivates_suspended`: a run where it does not.
-/

namespace Identity

open ReadCommitted Interaction

section Suspension

variable [Platform] {dep : Deployment} {scope : Scope} {db : List Row} {clock : ℕ} {c : State}

/-- The step keeps the status of every user that is not pending. -/
def KeepsStatuses (e : Event) : Prop :=
  ∀ u v, .user u ∈ e.pre.db → .user v ∈ e.post.db → v.id = u.id →
    u.status ≠ .pendingVerification → v.status = u.status

/-- Unconsumed tokens of the presented hash belong to no live user that is suspended, locked or
deleted. -/
def MayActivate (raw : Bytes) (g : World) : Prop :=
  ∀ t u, .token t ∈ g.db → t.tokenHash = sha256 raw → t.consumedAt = none → .user u ∈ g.db →
    u.id = t.userId → u.deletedAt = none → u.status = .pendingVerification ∨ u.status = .active

/-- Operators leave the user `x` alone, and calls of `verify_email` commit where they may. -/
def unsuspending (x : Uuid) : Scope where
  allowed req := ∀ s, req ≠ .setUserStatus x s
  guard _ o l g := o = .commit → ∀ rawToken raw, l.request = .verifyEmail rawToken →
    Base64Url.decodeVec rawToken = some raw → MayActivate raw g

/-- An update of a user leaves a row with an id, or made it. -/
theorem updated_user {u v w x : StoredUser} (hdb : UniqueKeys db) (hu : .user u ∈ db)
    (hw : .user w ∈ db) (hx : .user x ∈ (upd (.user u) (.user v)).apply db) (hid : x.id = w.id)
    (hv : v.id = u.id) : x = w ∨ w = u ∧ x = v := by
  rcases (mem_updUser hu).mp hx with rfl | ⟨hx, -⟩
  · exact Or.inr ⟨user_unique hdb hw hu (hid.symm.trans hv), rfl⟩
  · exact Or.inl (user_unique hdb hx hw hid)

/-- **What a commit may do to the status of a user.** -/
theorem status_of_commit (hdb : UniqueKeys db) (hunique : UniqueKeys c.glob.db) {i : ℕ}
    {th : Thread Op Resp Session World Reply} {ws : List (Write Row)}
    (hw : MayCommit dep scope (boot db clock) c i th ws) {u v : StoredUser}
    (hu : .user u ∈ c.glob.db) (hv : .user v ∈ applyAll ws c.glob.db) (hid : v.id = u.id) :
    v.status = u.status ∨
    (∃ rawToken raw t, th.loc.request = .verifyEmail rawToken ∧
      Base64Url.decodeVec rawToken = some raw ∧ .token t ∈ c.glob.db ∧ t.tokenHash = sha256 raw ∧
      t.consumedAt = none ∧ u.id = t.userId ∧ u.deletedAt = none ∧ v.status = .active) ∨
    ∃ s, th.loc.request = .setUserStatus u.id s := by
  obtain ⟨-, -, hwrote, -, hvalid, hpast⟩ := hw
  have hfinal := hunique.applyAll hvalid
  -- a user row that is still there is the only one with its id
  have hstays : .user u ∈ applyAll ws c.glob.db → v.status = u.status := fun h =>
    congrArg (·.status) (user_unique hfinal hv h hid)
  generalize th.loc.request = req at hwrote ⊢
  cases hwrote with
  | signingKey | login | signUp | resendVerification =>
    exact Or.inl (hstays (by simp [hu]))
  | @verifyEmail rawToken raw t₀ t w g at_ now hraw hsaw ht₀ hhash _ hid' _ _ hopen hwid hlive =>
    have hmid := hunique.apply hvalid.1
    have ht := hvalid.1.1
    have hw := hvalid.2.1.1
    rcases updated_user hmid hw ((mem_user_updToken ht).mpr hu) hv hid rfl with rfl | ⟨rfl, rfl⟩
    · exact Or.inl rfl
    · have heq := (hpast g hsaw).token_eq hdb hunique ht₀ ht hid'
      have hhash' : t.tokenHash = t₀.tokenHash := by rw [heq]
      have howner : t.userId = t₀.userId := by rw [heq]
      exact Or.inr (Or.inl ⟨rawToken, raw, t, rfl, hraw, ht, hhash'.trans hhash, hopen,
        hwid.trans howner.symm, hlive, rfl⟩)
  | updateProfile | softDelete =>
    rcases updated_user hunique hvalid.1.1 hu hv hid rfl with rfl | ⟨rfl, rfl⟩ <;> exact Or.inl rfl
  | setUserStatus hwid =>
    rcases updated_user hunique hvalid.1.1 hu hv hid rfl with rfl | ⟨rfl, rfl⟩
    · exact Or.inl rfl
    · exact Or.inr (Or.inr ⟨_, by rw [hwid]⟩)
  | @updatePassword _ _ _ _ _ _ _ _ _ _ _ _ _ ws _ _ _ _ _ _ hws =>
    rw [applyAll_append] at hv
    have hv : .user v ∈ applyAll ws c.glob.db := by simpa using hv
    rcases hws with ⟨rfl, -⟩ | ⟨w, -, -, -, rfl⟩
    · exact Or.inl (congrArg (·.status) (user_unique hunique hv hu hid))
    · have hw := (validAll_append.mp hvalid).1.1.1
      rcases updated_user hunique hw hu hv hid rfl with rfl | ⟨rfl, rfl⟩ <;> exact Or.inl rfl
  | setKeyStatus | markPublished =>
    exact Or.inl (hstays ((mem_upd_of_ne hvalid.1.1 Row.noConfusion Ref.noConfusion).mpr hu))

/-- **Where a `verify_email` commits, it keeps the statuses exactly when it may activate.** -/
theorem keepsStatuses_iff (hdb : UniqueKeys db)
    (hc : Reachable (machine dep scope) (boot db clock) c) {i : ℕ} {e : Event} {h : Hist}
    (he : Happened c i e h) {ws : List (Write Row)} (happ : Applied e ws) {rawToken : String}
    {raw : Bytes} (hreq : e.loc.request = .verifyEmail rawToken)
    (hraw : Base64Url.decodeVec rawToken = some raw) : KeepsStatuses e ↔ MayActivate raw e.pre := by
  obtain ⟨c₁, th, hc₁, hpre, hloc, -, hmay⟩ := mayCommit_of_happened hdb hc he happ.ne_nil happ.commits
  have hunique := (sound_reachable hdb hc₁).unique
  rw [← hloc] at hreq
  rw [← hpre]
  constructor
  · intro hkeeps t u ht hhash hopen hu hid hlive
    have hwrote := hmay.wrote
    have hvalid := hmay.valid
    have hpast := hmay.past
    rw [hreq] at hwrote
    cases hwrote with
    | @verifyEmail _ raw' t₀ s w g _ now hraw' hsaw ht₀ hhash₀ _ hid₀ _ _ hopens hwid hwlive =>
      cases hraw.symm.trans hraw'
      have hs := hvalid.1.1
      have hw := (mem_user_updToken hs).mp hvalid.2.1.1
      have heq := (hpast g hsaw).token_eq hdb hunique ht₀ hs hid₀
      have hhash' : s.tokenHash = t₀.tokenHash := by rw [heq]
      have howner : s.userId = t₀.userId := by rw [heq]
      -- the presented token is the one that was consumed, so its user is the one activated
      obtain rfl := token_unique_hash hunique ht hs hopen hopens (hhash.trans (hhash'.trans hhash₀).symm)
      obtain rfl := user_unique hunique hu hw (hid.trans (howner.trans hwid.symm))
      by_cases hpending : u.status = .pendingVerification
      · exact Or.inl hpending
      · have hv : .user { u with emailVerified := true, status := .active, updatedAt := now } ∈
            e.post.db := by
          rw [happ.post_eq, ← hpre]
          exact (mem_updUser hvalid.2.1.1).mpr (Or.inl rfl)
        exact Or.inr (hkeeps u _ (hpre ▸ hu) hv rfl hpending).symm
  · intro hmayActivate u v hu hv hid hpending
    rw [happ.post_eq, ← hpre] at hv
    rw [← hpre] at hu
    rcases status_of_commit hdb hunique hmay hu hv hid with
      hsame | ⟨_, raw', t, hreq', hraw', ht, hhash, hopen, hid', hlive, hactive⟩ | ⟨s, hreq'⟩
    · exact hsame
    · cases hreq.symm.trans hreq'
      cases hraw.symm.trans hraw'
      rcases hmayActivate t u ht hhash hopen hu hid' hlive with hs | hs
      · exact absurd hs hpending
      · rw [hactive, hs]
    · cases hreq.symm.trans hreq'

/-- While operators leave a suspended user alone and calls activate only where they may, the user
stays suspended. -/
theorem stays_suspended (hdb : UniqueKeys db) {x : Uuid} {s : UserStatus}
    (hpending : s ≠ .pendingVerification) (hactive : s ≠ .active)
    (h0 : ∃ u, .user u ∈ db ∧ u.id = x ∧ u.status = s)
    (hc : Reachable (machine dep (unsuspending x)) (boot db clock) c) :
    ∃ u, .user u ∈ c.glob.db ∧ u.id = x ∧ u.status = s := by
  refine db_invariant (P := fun db => ∃ u, .user u ∈ db ∧ u.id = x ∧ u.status = s) hdb h0 ?_ hc
  rintro c i th ws hc hunique ⟨u, hu, rfl, rfl⟩ hw
  obtain ⟨r, hr, hev⟩ := grows_applyAll hunique hw.valid (hw.keeps hdb hc) _ hu
  cases r with
  | user v =>
    refine ⟨v, hr, hev.1, ?_⟩
    rcases status_of_commit hdb hunique hw hu hr hev.1 with
      hsame | ⟨rawToken, raw, t, hreq, hraw, ht, hhash, hopen, hid, hlive, -⟩ | ⟨s, hreq⟩
    · exact hsame
    · obtain ⟨o, hcom, hguard⟩ := hw.commits
      have hlen : 1 < ws.length := by
        have hwrote := hw.wrote
        rw [hreq] at hwrote
        cases hwrote
        exact Nat.lt_add_one 1
      have ho := (hcom.eq_commit hlen).1
      rcases hguard ho rawToken raw hreq hraw t u ht hhash hopen hu hid hlive with hs | hs
      · exact absurd hs hpending
      · exact absurd hs hactive
    · exact absurd hreq (hw.allowed s)
  | _ => exact hev.elim

/-- **A `verify_email` keeps the status of every user that is not pending exactly when, where it
commits, the presented token may activate its user. While it does, a suspended user stays suspended
and gets no tokens.** -/
theorem verify_keeps_statuses_iff (hdb : UniqueKeys db) :
    (∀ scope c, Reachable (machine dep scope) (boot db clock) c → ∀ i e h rawToken raw,
      Happened c i e h → e.loc.request = .verifyEmail rawToken →
      Base64Url.decodeVec rawToken = some raw →
      (∀ ws, Applied e ws → (KeepsStatuses e ↔ MayActivate raw e.pre)) ∧
        ((∀ ws, ¬ Applied e ws) → KeepsStatuses e)) ∧
    ∀ x s c, s ≠ .pendingVerification → s ≠ .active →
      (∃ u, .user u ∈ db ∧ u.id = x ∧ u.status = s) →
      Reachable (machine dep (unsuspending x)) (boot db clock) c →
      (∃ u, .user u ∈ c.glob.db ∧ u.id = x ∧ u.status = s) ∧
      ∀ i l h email password result, c.thread i = some ⟨l, .ret (.login (.ok result)), h⟩ →
        l.request = .login email password → ∃ u algorithm kid now jti signature,
          result.accessToken =
            signingInput algorithm kid (accessClaims u now jti) ++ "." ++ signature ∧ u.id ≠ x := by
  refine ⟨fun scope c hc i e h rawToken raw he hreq hraw =>
    ⟨fun ws happ => keepsStatuses_iff hdb hc he happ hreq hraw, fun hnone u v hu hv hid _ => ?_⟩, ?_⟩
  · rw [unchanged_of_not_applied hc he hnone] at hv
    obtain ⟨c₁, -, hc₁, hpre, -⟩ := entry_reachable hc (fun _ => rfl) he
    have hunique := (sound_reachable hdb hc₁).unique
    rw [hpre] at hunique
    rw [user_unique hunique hv hu hid]
  · intro x s c hpending hactive h0 hc
    refine ⟨stays_suspended hdb hpending hactive h0 hc, ?_⟩
    intro i l h email password result ht hreq
    have hpost := post_of_return hdb hc ht
    rw [hreq] at hpost
    obtain ⟨u, k, key, now, jti, idJti, hauth, ⟨signature, rnd, -, -, htoken⟩, -⟩ := hpost
    refine ⟨u.toUser, _, _, _, _, _, htoken, fun hid => ?_⟩
    obtain ⟨g, hsaw, hu⟩ := hauth.sawUser
    obtain ⟨c₁, hc₁, rfl, -⟩ := past_of_saw hc ht hsaw
    obtain ⟨v, hv, hvid, hvs⟩ := stays_suspended hdb hpending hactive h0 hc₁
    have heq := user_unique (sound_reachable hdb hc₁).unique hu hv (hid.trans hvid.symm)
    rw [← heq, hauth.active] at hvs
    exact hactive hvs.symm

end Suspension

open Sample

/-- A verification that may activate, since the user of the token is pending. -/
theorem verify_keeps_statuses_pending : ∃ c e h,
    execute deployment (.of fun _ => True) (boot [.user ada, .token adaToken] 0) (verifyEmail 0 5) =
      some c ∧ Happened c 0 e h ∧ (KeepsStatuses e ↔ MayActivate (rawToken 5) e.pre) := by
  have hdb := unique_pair ada adaToken
  have hrun : (execute deployment (.of fun _ => True) (boot [.user ada, .token adaToken] 0)
      (verifyEmail 0 5)).any (returned 0 fun req r _ =>
        req = .verifyEmail (Base64Url.encodeString (rawToken 5)) && r = .verifyEmail (.ok ())) =
      true := by decide +kernel
  obtain ⟨c, hexec, hc, hend⟩ := Driver.exists_of_execute hrun
  obtain ⟨l, r, h, ht, hend⟩ := of_returned hend
  simp only [Bool.and_eq_true, decide_eq_true_eq] at hend
  obtain ⟨hreq, rfl⟩ := hend
  have hpost := post_of_return hdb hc ht
  rw [hreq] at hpost
  obtain ⟨ws, hne, hcom⟩ := hpost
  obtain ⟨e, h₁, htook, happ⟩ := applied_of_committed hc ht hne hcom
  have hreq' := ((origin_reachable hc 0 _ ht).steps e htook.mem).1.trans hreq
  exact ⟨c, e, h₁, hexec, ⟨_, ht, htook⟩, ((verify_keeps_statuses_iff hdb).1 _ c hc 0 e h₁ _ _
    ⟨_, ht, htook⟩ hreq' (Base64Url.decodeVec_encodeString _)).1 ws happ⟩

/-- A user signs up, asks for a second token and verifies with the first. An operator suspends the
user, who presents the second token and logs in. -/
def suspension : List Command :=
  signUp 0 "ada" "ada@home" 1 5 ++ resendVerification 1 "ada@home" 4 6 ++ verifyEmail 2 5 ++
    call 3 (.setUserStatus 1 .suspended) [fine] ++ verifyEmail 4 6 ++ ensureSigningKey 5 100 ++
    login 6 "ada@home" 7

/-- A step found the user suspended and left it active. -/
def reactivates (e : Event) : Bool :=
  (users e.pre.db).any (fun u => u.id = 1 && u.status = .suspended) &&
    (users e.post.db).any fun u => u.id = 1 && u.status = .active

def Reply.loggedIn : Reply → Bool
  | .login (.ok _) => true
  | _ => false

/-- **The leftover token makes the suspended user active, and the login succeeds.** -/
theorem verify_reactivates_suspended : ∃ c e h l result h',
    Reachable (machine deployment (.of fun _ => True)) (boot [] 0) c ∧ Happened c 4 e h ∧
    ¬ KeepsStatuses e ∧ e.loc.request = .verifyEmail (Base64Url.encodeString (rawToken 6)) ∧
    c.thread 6 = some ⟨l, .ret (.login (.ok result)), h'⟩ := by
  have hrun : (execute deployment (.of fun _ => True) (boot [] 0) suspension).any (fun c =>
      returned 4 (fun _ _ h => h.any fun e => reactivates e &&
        e.loc.request = .verifyEmail (Base64Url.encodeString (rawToken 6))) c &&
      returned 6 (fun _ r _ => r.loggedIn) c) = true := by decide +kernel
  obtain ⟨c, -, hc, hend⟩ := Driver.exists_of_execute hrun
  obtain ⟨hend₄, hend₆⟩ := Bool.and_eq_true_iff.mp hend
  obtain ⟨l₄, r₄, h₄, ht₄, hend₄⟩ := of_returned hend₄
  obtain ⟨l, r, h, ht₆, hlogin⟩ := of_returned hend₆
  obtain ⟨result, rfl⟩ : ∃ result, r = .login (.ok result) := by
    unfold Reply.loggedIn at hlogin
    split at hlogin
    · exact ⟨_, rfl⟩
    · cases hlogin
  obtain ⟨e, he, hcheck⟩ := List.any_eq_true.mp hend₄
  obtain ⟨hreact, hreq⟩ := Bool.and_eq_true_iff.mp hcheck
  obtain ⟨hpre, hpost⟩ := Bool.and_eq_true_iff.mp hreact
  obtain ⟨u, hu, hsus⟩ := List.any_eq_true.mp hpre
  obtain ⟨v, hv, hact⟩ := List.any_eq_true.mp hpost
  simp only [Bool.and_eq_true, decide_eq_true_eq] at hsus hact
  obtain ⟨h₁, htook⟩ := exists_took (t := ⟨l₄, .ret r₄, h₄⟩) he
  refine ⟨c, e, h₁, l, result, h, hc, ⟨_, ht₄, htook⟩, fun hkeeps => ?_, of_decide_eq_true hreq, ht₆⟩
  have hs := hkeeps u v (mem_users.mp hu) (mem_users.mp hv) (hact.1.trans hsus.1.symm)
    (by rw [hsus.2]; decide)
  rw [hact.2, hsus.2] at hs
  cases hs

end Identity
