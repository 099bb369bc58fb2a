import HomeServices.Identity.Execution

/-!
# Activation

While operators leave statuses alone, a user is active exactly when its address is verified, and
that exactly when one of its tokens was consumed.

* `Activation`: the invariant, over the users and tokens of a database.
* `Activation.insUser`, `Activation.insToken`, `Activation.updUser`, `Activation.verify`: what the
  writes of the handlers keep; **`activation_reachable`**.
* `Presented`, `presented_reachable`: a consumed token was presented before it expired.
* **`active_only_verified`**: both, for every run from an empty database.
-/

namespace Identity

open ReadCommitted Interaction

section Invariant

/-- Every request but an operator's change of a status. -/
def leavesStatuses : Request → Bool
  | .setUserStatus _ _ => false
  | _ => true

/-- Tokens belong to users; status, verification and consumed tokens go together. -/
structure Activation (db : List Row) : Prop where
  owned : ∀ t, .token t ∈ db → ∃ u, .user u ∈ db ∧ u.id = t.userId
  active : ∀ u, .user u ∈ db → (u.status = .active ↔ u.emailVerified = true)
  verified : ∀ u, .user u ∈ db →
    (u.emailVerified = true ↔ ∃ t, .token t ∈ db ∧ t.userId = u.id ∧ t.consumedAt ≠ none)
  pending : ∀ u, .user u ∈ db → u.status ≠ .active → u.status = .pendingVerification

variable {db : List Row}

theorem activation_nil : Activation [] := by
  constructor <;> intro _ h <;> cases h

/-- The invariant is about the users and the tokens only. -/
theorem Activation.congr {db' : List Row} (h : Activation db)
    (hu : ∀ u, .user u ∈ db' ↔ .user u ∈ db) (ht : ∀ t, .token t ∈ db' ↔ .token t ∈ db) :
    Activation db' := by
  refine ⟨fun t hm => ?_, fun u hm => h.active u ((hu u).mp hm), fun u hm => ?_,
    fun u hm => h.pending u ((hu u).mp hm)⟩
  · obtain ⟨u, hm, hid⟩ := h.owned t ((ht t).mp hm)
    exact ⟨u, (hu u).mpr hm, hid⟩
  · rw [h.verified u ((hu u).mp hm)]
    exact exists_congr fun t => and_congr (ht t).symm Iff.rfl

/-- A new row of another table. -/
theorem Activation.insOther (h : Activation db) {r : Row} (hu : ∀ u, r ≠ .user u)
    (ht : ∀ t, r ≠ .token t) : Activation (db ++ [r]) :=
  h.congr (fun u => by simp [(hu u).symm]) fun t => by simp [(ht t).symm]

/-- A new pending user owns no token yet. -/
theorem Activation.insUser (h : Activation db) {u : StoredUser}
    (hfresh : ∀ v, .user v ∈ db → v.id ≠ u.id) (hstatus : u.status = .pendingVerification)
    (hverified : u.emailVerified = false) : Activation (db ++ [.user u]) := by
  have hnone : ¬ ∃ t, .token t ∈ db ∧ t.userId = u.id ∧ t.consumedAt ≠ none := by
    rintro ⟨t, ht, hid, -⟩
    obtain ⟨v, hv, hvid⟩ := h.owned t ht
    exact hfresh v hv (hvid.trans hid)
  refine ⟨fun t ht => ?_, fun v hv => ?_, fun v hv => ?_, fun v hv => ?_⟩
  · obtain ⟨v, hv, hid⟩ := h.owned t (by simpa using ht)
    exact ⟨v, List.mem_append_left _ hv, hid⟩
  all_goals
    have hv : .user v ∈ db ∨ v = u := by simpa using hv
    rcases hv with hv | rfl
  · exact h.active v hv
  · simp [hstatus, hverified]
  · simpa using h.verified v hv
  · simpa [hverified] using hnone
  · exact h.pending v hv
  · exact fun _ => hstatus

/-- A new token of a user is unconsumed. -/
theorem Activation.insToken (h : Activation db) {t : StoredToken}
    (howner : ∃ u, .user u ∈ db ∧ u.id = t.userId) (hopen : t.consumedAt = none) :
    Activation (db ++ [.token t]) := by
  refine ⟨fun s hs => ?_, fun u hu => h.active u (by simpa using hu), fun u hu => ?_,
    fun u hu => h.pending u (by simpa using hu)⟩
  · have hs : .token s ∈ db ∨ s = t := by simpa using hs
    have hs : ∃ u, .user u ∈ db ∧ u.id = s.userId := by
      rcases hs with hs | rfl
      · exact h.owned s hs
      · exact howner
    obtain ⟨u, hu, hid⟩ := hs
    exact ⟨u, List.mem_append_left _ hu, hid⟩
  · rw [h.verified u (by simpa using hu)]
    refine exists_congr fun s => ⟨fun ⟨hs, hrest⟩ => ⟨List.mem_append_left _ hs, hrest⟩, ?_⟩
    rintro ⟨hs, hid, hc⟩
    have hs : .token s ∈ db ∨ s = t := by simpa using hs
    rcases hs with hs | rfl
    · exact ⟨hs, hid, hc⟩
    · exact absurd hopen hc

variable [Platform]

/-- A user changed beside its status and verification. -/
theorem Activation.updUser (h : Activation db) {u v : StoredUser} (hu : .user u ∈ db)
    (hid : v.id = u.id) (hstatus : v.status = u.status)
    (hverified : v.emailVerified = u.emailVerified) :
    Activation ((upd (.user u) (.user v)).apply db) := by
  refine ⟨fun t ht => ?_, fun x hx => ?_, fun x hx => ?_, fun x hx => ?_⟩
  · obtain ⟨w, hw, hwid⟩ := h.owned t ((mem_token_updUser hu).mp ht)
    by_cases hwu : w.id = u.id
    · exact ⟨v, (mem_updUser hu).mpr (Or.inl rfl), (hid.trans hwu.symm).trans hwid⟩
    · exact ⟨w, (mem_updUser hu).mpr (Or.inr ⟨hw, hwu⟩), hwid⟩
  all_goals rcases (mem_updUser hu).mp hx with rfl | ⟨hx, -⟩
  · rw [hstatus, hverified]
    exact h.active u hu
  · exact h.active x hx
  · simp only [mem_token_updUser hu, hverified, hid]
    exact h.verified u hu
  · simp only [mem_token_updUser hu]
    exact h.verified x hx
  · rw [hstatus]
    exact h.pending u hu
  · exact h.pending x hx

/-- A token is consumed and its user activated. -/
theorem Activation.verify (h : Activation db) (hdb : UniqueKeys db) {t t' : StoredToken}
    {u v : StoredUser} (ht : .token t ∈ db) (hu : .user u ∈ db) (howner : t.userId = u.id)
    (htuser : t'.userId = t.userId) (hconsumed : t'.consumedAt ≠ none) (hid : v.id = u.id)
    (hstatus : v.status = .active) (hverified : v.emailVerified = true) :
    Activation ((upd (.user u) (.user v)).apply ((upd (.token t) (.token t')).apply db)) := by
  have hu' : .user u ∈ (upd (.token t) (.token t')).apply db := (mem_user_updToken ht).mpr hu
  have htokens : ∀ s, .token s ∈ (upd (.user u) (.user v)).apply
      ((upd (.token t) (.token t')).apply db) ↔ s = t' ∨ .token s ∈ db ∧ s.id ≠ t.id := fun s =>
    (mem_token_updUser hu').trans (mem_updToken ht)
  refine ⟨fun s hs => ?_, fun x hx => ?_, fun x hx => ?_, fun x hx => ?_⟩
  · obtain ⟨w, hw, hwid⟩ : ∃ w, .user w ∈ db ∧ w.id = s.userId := by
      rcases (htokens s).mp hs with rfl | ⟨hs, -⟩
      · exact ⟨u, hu, (htuser.trans howner).symm⟩
      · exact h.owned s hs
    by_cases hwu : w.id = u.id
    · exact ⟨v, (mem_updUser hu').mpr (Or.inl rfl), (hid.trans hwu.symm).trans hwid⟩
    · exact ⟨w, (mem_updUser hu').mpr (Or.inr ⟨(mem_user_updToken ht).mpr hw, hwu⟩), hwid⟩
  all_goals rcases (mem_updUser hu').mp hx with rfl | ⟨hx, hne⟩
  · simp [hstatus, hverified]
  · exact h.active x ((mem_user_updToken ht).mp hx)
  · refine iff_of_true hverified ⟨t', (htokens t').mpr (Or.inl rfl), ?_, hconsumed⟩
    rw [htuser, howner, hid]
  · rw [h.verified x ((mem_user_updToken ht).mp hx)]
    refine exists_congr fun s => ⟨fun ⟨hs, hsx, hc⟩ => ⟨(htokens s).mpr (Or.inr ⟨hs, ?_⟩), hsx, hc⟩, ?_⟩
    · intro hst
      rw [token_unique hdb hs ht hst, howner] at hsx
      exact hne hsx.symm
    · rintro ⟨hs, hsx, hc⟩
      rcases (htokens s).mp hs with rfl | ⟨hs, -⟩
      · rw [htuser, howner] at hsx
        exact absurd hsx.symm hne
      · exact ⟨hs, hsx, hc⟩
  · exact fun hs => absurd hstatus hs
  · exact h.pending x ((mem_user_updToken ht).mp hx)

/-! ## Runs -/

variable {dep : Deployment} {scope : Scope} {clock : ℕ} {c c' : State}

/-- **Every write set a handler may commit keeps the invariant.** -/
theorem activation_step (hdb : UniqueKeys db) {i : ℕ} {t : Thread Op Resp Session World Reply}
    {ws : List (Write Row)} (hunique : UniqueKeys c.glob.db) (h : Activation c.glob.db)
    (hleaves : leavesStatuses t.loc.request)
    (hw : MayCommit dep scope (boot db clock) c i t ws) : Activation (applyAll ws c.glob.db) := by
  obtain ⟨-, -, hwrote, -, hvalid, hpast⟩ := hw
  generalize t.loc.request = req at hwrote hleaves
  cases hwrote with
  | signingKey => exact h.insOther (fun _ => Row.noConfusion) fun _ => Row.noConfusion
  | @signUp _ _ _ _ _ _ _ _ userId =>
    simp only [applyAll_cons, apply_ins, applyAll_nil]
    refine .insOther (.insToken (.insUser h (fun v hv hid => ?_) rfl rfl) 
      ⟨_, List.mem_append_right _ (List.mem_singleton_self _), rfl⟩ rfl) (fun _ => Row.noConfusion) fun _ => Row.noConfusion
    have hkey : Keyed.primary (Row.user v) = Ref.user userId := congrArg Ref.user hid
    exact hvalid.1 _ hv (hkey ▸ Keyed.primary_mem _) List.mem_cons_self
  | @resendVerification _ u g _ _ _ _ _ _ _ _ _ _ hsaw hu =>
    simp only [applyAll_cons, apply_ins, applyAll_nil]
    obtain ⟨v, hv, hid, -⟩ := (hpast g hsaw).user hdb hu
    exact .insOther (.insToken h ⟨v, hv, hid⟩ rfl) (fun _ => Row.noConfusion) fun _ => Row.noConfusion
  | @verifyEmail _ _ t₀ s u g _ _ _ hsaw ht₀ _ _ hid _ _ _ huid _ =>
    obtain ⟨hs, hu, -⟩ := hvalid
    have hs := hs.1
    have hu := (mem_user_updToken hs).mp hu.1
    have howner : s.userId = t₀.userId := by rw [(hpast g hsaw).token_eq hdb hunique ht₀ hs hid]
    exact h.verify hunique hs hu (howner.trans huid.symm) rfl (by simp) rfl rfl rfl
  | login => exact h.insOther (fun _ => Row.noConfusion) fun _ => Row.noConfusion
  | updateProfile => exact h.updUser hvalid.1.1 rfl rfl rfl
  | @updatePassword _ _ _ _ _ _ _ _ _ _ _ _ _ ws _ _ _ _ _ _ hws =>
    rw [applyAll_append]
    have hmid : Activation (applyAll ws c.glob.db) := by
      rcases hws with ⟨rfl, -⟩ | ⟨v, -, -, -, rfl⟩
      · exact h
      · exact h.updUser (validAll_append.mp hvalid).1.1.1 rfl rfl rfl
    exact hmid.insOther (fun _ => Row.noConfusion) fun _ => Row.noConfusion
  | setKeyStatus =>
    have hk := hvalid.1.1
    exact h.congr (fun _ => mem_upd_of_ne hk Row.noConfusion Ref.noConfusion)
      fun _ => mem_upd_of_ne hk Row.noConfusion Ref.noConfusion
  | setUserStatus => cases hleaves
  | softDelete => exact h.updUser hvalid.1.1 rfl rfl rfl
  | markPublished =>
    have he := hvalid.1.1
    exact h.congr (fun _ => mem_upd_of_ne he Row.noConfusion Ref.noConfusion)
      fun _ => mem_upd_of_ne he Row.noConfusion Ref.noConfusion

theorem activation_reachable {allowed : Request → Prop}
    (hscope : ∀ req, allowed req → leavesStatuses req)
    (hc : Reachable (machine dep (.of allowed)) (boot [] clock) c) : Activation c.glob.db :=
  db_invariant List.Pairwise.nil activation_nil
    (fun _ _ _ _ _ hunique h hw => activation_step List.Pairwise.nil hunique h (hscope _ hw.allowed) hw) hc

/-- Some call of `verify_email` presented the token before it expired. -/
def Presented (c : State) (t : StoredToken) : Prop :=
  ∃ j tj rawToken raw at_, c.thread j = some tj ∧ tj.loc.request = .verifyEmail rawToken ∧
    Base64Url.decodeVec rawToken = some raw ∧ t.tokenHash = sha256 raw ∧
    Answered tj.hist .utcNow at_ ∧ at_.val ≤ t.expiresAt

theorem Presented.step {t : StoredToken} (h : Presented c t) (hs : Step (machine dep scope) c c') :
    Presented c' t := by
  obtain ⟨j, tj, rawToken, raw, at_, htj, hreq, hraw, hhash, hnow, hle⟩ := h
  obtain ⟨tj', htj', hreq', hsuf⟩ := thread_persists hs htj
  exact ⟨j, tj', rawToken, raw, at_, htj', hreq'.trans hreq, hraw, hhash, hnow.mono hsuf, hle⟩

theorem presented_reachable (hc : Reachable (machine dep scope) (boot [] clock) c) :
    ∀ t, .token t ∈ c.glob.db → t.consumedAt ≠ none → Presented c t := by
  refine hc.invariant (I := fun c => ∀ t, .token t ∈ c.glob.db → t.consumedAt ≠ none → Presented c t)
    (fun t ht => by cases ht) fun c c' hc ih hs t ht hcons => ?_
  rcases db_step List.Pairwise.nil hc hs with he | ⟨i, th, ws, hw, he⟩
  · rw [he] at ht
    exact (ih t ht hcons).step hs
  · rw [he] at ht
    have hunique := (sound_reachable List.Pairwise.nil hc).unique
    rcases token_of_commit List.Pairwise.nil hunique hw ht with
      ht | ⟨-, -, hopen⟩ | ⟨rawToken, raw, s, at_, now, hreq, hraw, -, -, hhash, hnow, hle, rfl⟩
    · exact (ih t ht hcons).step hs
    · exact absurd hopen hcons
    · exact Presented.step ⟨i, th, rawToken, raw, at_, hw.thread, hreq, hraw, hhash, hnow,
        Nat.le_of_not_lt hle⟩ hs

/-- **A user is active exactly when a token of it was consumed, and logins return tokens only for
users whose token was presented before it expired.** -/
theorem active_only_verified
    (hc : Reachable (machine dep (.of (leavesStatuses ·))) (boot [] clock) c) :
    (∀ u, .user u ∈ c.glob.db →
      (u.status = .active ↔ u.emailVerified = true) ∧
      (u.emailVerified = true ↔ ∃ t, .token t ∈ c.glob.db ∧ t.userId = u.id ∧ t.consumedAt ≠ none) ∧
      (u.status ≠ .active → u.status = .pendingVerification)) ∧
    ∀ i l h email password result, c.thread i = some ⟨l, .ret (.login (.ok result)), h⟩ →
      l.request = .login email password →
      ∃ u algorithm kid now jti signature,
        result.accessToken = signingInput algorithm kid (accessClaims u now jti) ++ "." ++ signature ∧
        -- an earlier point of the run, which the login saw
        ∃ c₁ t, Reachable (machine dep (.of (leavesStatuses ·))) (boot [] clock) c₁ ∧
          Reachable (machine dep (.of (leavesStatuses ·))) c₁ c ∧ Saw h c₁.glob ∧
          .token t ∈ c₁.glob.db ∧ t.userId = u.id ∧ Presented c₁ t := by
  have hunique : UniqueKeys ([] : List Row) := List.Pairwise.nil
  have hact := activation_reachable (fun _ h => h) hc
  refine ⟨fun u hu => ⟨hact.active u hu, hact.verified u hu, hact.pending u hu⟩, ?_⟩
  intro i l h email password result ht hreq
  have hpost := post_of_return hunique hc ht
  rw [hreq] at hpost
  obtain ⟨u, k, key, now, jti, idJti, hauth, ⟨signature, rnd, -, -, htoken⟩, -⟩ := hpost
  obtain ⟨g, hsaw, hu⟩ := hauth.sawUser
  obtain ⟨c₁, hc₁, rfl, hc₁c⟩ := past_of_saw hc ht hsaw
  have hact₁ := activation_reachable (fun _ h => h) hc₁
  obtain ⟨t, hmem, hid, hcons⟩ := (hact₁.verified u hu).mp ((hact₁.active u hu).mp hauth.active)
  exact ⟨u.toUser, _, _, _, _, _, htoken, c₁, t, hc₁, hc₁c, hsaw, hmem, hid,
    presented_reachable hc₁ t hmem hcons⟩

end Invariant

open Sample in
/-- After the sample session the user is active, and its token was consumed. -/
theorem active_only_verified_session : ∃ c,
    execute deployment (.of (leavesStatuses ·)) (boot [] 0) session = some c ∧
    ∃ u, .user u ∈ c.glob.db ∧ u.status = .active ∧
      ∃ t, .token t ∈ c.glob.db ∧ t.userId = u.id ∧ t.consumedAt ≠ none := by
  have hrun : (execute deployment (.of (leavesStatuses ·)) (boot [] 0) session).any
      (fun c => (users c.glob.db).any fun u => u.status = .active) = true := by decide +kernel
  obtain ⟨c, hexec, hc, hactive⟩ := Driver.exists_of_execute hrun
  obtain ⟨u, hu, hstatus⟩ := List.any_eq_true.mp hactive
  have hu := mem_users.mp hu
  have hstatus := of_decide_eq_true hstatus
  have hinv := (active_only_verified hc).1 u hu
  exact ⟨c, hexec, u, hu, hstatus, hinv.2.1.mp (hinv.1.mp hstatus)⟩

end Identity
