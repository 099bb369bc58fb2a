import HomeServices.Identity.Authorization
import HomeServices.Identity.Emails

/-!
# Who is written to

Every queued email is addressed to the account it is about, and an address is verified by a code of its
account only.

* `Tells`, `WrittenTo`, **`addressed_reachable`**: what an event says, and to whom.
* `Confirmed`, **`confirmed_reachable`**: who verified an address.
* `events`, `unpublished_reachable`, **`dated_reachable`**: what is in the outbox, since when.
-/

namespace Identity

open ReadCommitted Interaction

section Addressees

variable [Platform] {dep : Deployment} {scope : Scope} {clock : ℕ} {c c' : State}

/-! ## What an event says -/

/-- The email hands the user a code of one of its tokens, or tells it of a new password. -/
inductive Tells (c : State) (userId : Uuid) : Payload → Prop
  | emailVerification {v : EmailVerification} {raw : Bytes} {t : StoredToken} :
      Base64Url.decodeVec v.verificationCode = some raw → .token t ∈ c.glob.db →
      t.tokenHash = sha256 raw → t.userId = userId → Tells c userId (.emailVerification v)
  | passwordChanged {p : PasswordChanged} {i : ℕ} {t : Thread Op Resp Session World Reply}
      {currentPassword newPassword : String} : c.thread i = some t →
      t.loc.request = .updatePassword userId currentPassword newPassword →
      Tells c userId (.passwordChanged p)

theorem token_later (hc : Sound c) (hs : Step (machine dep scope) c c') {t : StoredToken}
    (ht : .token t ∈ c.glob.db) :
    ∃ t', .token t' ∈ c'.glob.db ∧ t'.tokenHash = t.tokenHash ∧ t'.userId = t.userId := by
  obtain ⟨r, hr, hev⟩ := grows_step hc hs _ ht
  cases r with
  | token t' => exact ⟨t', hr, by rw [hev.1], by rw [hev.1]⟩
  | _ => exact hev.elim

theorem Tells.step (hc : Sound c) (hs : Step (machine dep scope) c c') {userId : Uuid} {payload : Payload}
    (h : Tells c userId payload) : Tells c' userId payload := by
  cases h with
  | emailVerification hraw ht hhash huser =>
    obtain ⟨t', ht', hhash', huser'⟩ := token_later hc hs ht
    exact .emailVerification hraw ht' (hhash'.trans hhash) (huser'.trans huser)
  | passwordChanged ht hreq =>
    obtain ⟨t', ht', hreq', -⟩ := thread_persists hs ht
    exact .passwordChanged ht' (hreq'.trans hreq)

/-- The event carries an email to the user it is about. -/
def WrittenTo (c : State) (e : StoredEvent) : Prop := ∃ m payload u, e.payload = encodeEmail m ∧
  m.payload = some payload ∧ .user u ∈ c.glob.db ∧ u.id = e.aggregateId ∧ m.recipientEmail = u.email ∧
  Tells c u.id payload

theorem user_later (hc : Sound c) (hs : Step (machine dep scope) c c') {u : StoredUser}
    (hu : .user u ∈ c.glob.db) : ∃ v, .user v ∈ c'.glob.db ∧ v.id = u.id ∧ v.email = u.email := by
  obtain ⟨r, hr, hev⟩ := grows_step hc hs _ hu
  cases r with
  | user v => exact ⟨v, hr, hev.1, hev.2.1⟩
  | _ => exact hev.elim

theorem WrittenTo.step (hc : Sound c) (hs : Step (machine dep scope) c c') {e : StoredEvent}
    (h : WrittenTo c e) : WrittenTo c' e := by
  obtain ⟨m, payload, u, hm, hpayload, hu, hid, hto, htells⟩ := h
  obtain ⟨v, hv, hvid, hvto⟩ := user_later hc hs hu
  exact ⟨m, payload, v, hm, hpayload, hv, hvid.trans hid, hto.trans hvto.symm, hvid ▸ htells.step hc hs⟩

/-- The rows of the outbox, but for their publication. -/
def events (db : List Row) : List StoredEvent := db.filterMap enqueued

/-- A commit queues events after those that are there. -/
theorem events_commit (hc : Reachable (machine dep scope) (boot [] clock) c) {i : ℕ}
    {t : Thread Op Resp Session World Reply} {ws : List (Write Row)}
    (hw : MayCommit dep scope (boot [] clock) c i t ws) :
    events (applyAll ws c.glob.db) = events c.glob.db ++ events (inserted ws) :=
  filterMap_applyAll (fun _ _ => enqueued_evolves) (sound_reachable List.Pairwise.nil hc).unique hw.valid
    (hw.keeps List.Pairwise.nil hc)

/-- A call that was answered a user by id saw the row, committed. -/
theorem user_of_answered {db : List Row} (hc : Reachable (machine dep scope) (boot db clock) c)
    {i : ℕ} {t : Thread Op Resp Session World Reply} (ht : c.thread i = some t) {h : Hist} (hsuf : h <:+ t.hist)
    {userId : Uuid} {user : User} (hans : Answered h (.sql (.userById userId)) (.ok (some user))) :
    ∃ e ∈ h, ∃ w, .user w ∈ e.pre.db ∧ w.toUser = user ∧ w.id = userId ∧ w.deletedAt = none := by
  obtain ⟨l, g, l', g', hmem⟩ := hans
  obtain ⟨h₁, h₂, hsplit⟩ := List.append_of_mem hmem
  have he : Happened c i ⟨.sql (.userById userId), .ok (some user), l, g, l', g'⟩ h₂ :=
    ⟨t, ht, List.IsSuffix.trans ⟨h₁, hsplit.symm⟩ hsuf⟩
  obtain ⟨hallows, hold⟩ := holding_of_happened hc he
  have hperforms := (entry_step hc (fun _ => rfl) he).1
  have htx : l.tx = none := by
    dsimp only at hallows hold
    generalize lockOrder.phase .outside h₂ = s at hallows hold
    cases s with
    | outside => exact hold.1
    | inside n => rcases hallows with ⟨hash, hs⟩ | ⟨m, hs, -⟩ <;> cases hs
  obtain ⟨-, hr⟩ := performs_autocommit htx hperforms
  obtain ⟨pick, hr⟩ := hr.resolve_left (fun h => by cases h)
  obtain ⟨w, hw⟩ := userById_result hr.symm
  exact ⟨_, hmem, w, hw⟩

/-- **The events that a step commits are addressed to their users.** -/
theorem addressed_of_commit (hc : Reachable (machine dep scope) (boot [] clock) c)
    (hs : Step (machine dep scope) c c') {i : ℕ} {t : Thread Op Resp Session World Reply}
    {ws : List (Write Row)} (hw : MayCommit dep scope (boot [] clock) c i t ws)
    (hdb : c'.glob.db = applyAll ws c.glob.db) : ∀ e ∈ events (inserted ws), WrittenTo c' e := by
  have hsound := sound_reachable List.Pairwise.nil hc
  obtain ⟨hthread, -, hwrote, -, -, hpast⟩ := hw
  -- the user of an earlier read is still there
  have huser : ∀ {g : World} {u : StoredUser}, Past dep scope (boot [] clock) c g → .user u ∈ g.db →
      ∃ v, .user v ∈ c'.glob.db ∧ v.id = u.id ∧ v.email = u.email := fun hg hu => by
    obtain ⟨v, hv, hid, hto, -⟩ := hg.user List.Pairwise.nil hu
    obtain ⟨x, hx, hxid, hxto⟩ := user_later hsound hs hv
    exact ⟨x, hx, hxid.trans hid, hxto.trans hto⟩
  intro e he
  generalize hreq : t.loc.request = req at hwrote
  cases hwrote with
  | @signUp username email givenName familyName _ hash _ raw userId tokenId _ expiresAt _ now =>
    obtain rfl := List.mem_singleton.mp he
    refine ⟨_, _, newUser userId username email givenName familyName hash now, rfl, rfl, ?_, rfl, rfl,
      .emailVerification (Base64Url.decodeVec_encodeString raw)
        (t := newToken tokenId userId (sha256 raw) expiresAt now) ?_ rfl rfl⟩ <;> rw [hdb] <;> simp
  | @resendVerification _ u g _ _ _ raw tokenId _ expiresAt _ now _ hsaw hu =>
    obtain rfl := List.mem_singleton.mp he
    obtain ⟨v, hv, hid, hto⟩ := huser (hpast g hsaw) hu
    refine ⟨_, _, v, rfl, rfl, hv, hid, hto.symm, .emailVerification (Base64Url.decodeVec_encodeString raw)
      (t := newToken tokenId u.id (sha256 raw) expiresAt now) ?_ rfl hid.symm⟩
    rw [hdb]
    simp
  | @updatePassword userId current new hash salt u h₁ e₁ outboxId producedAt changedAt now trace ws hval hsuf
      hread hver hhash hop hws =>
    have hevent : e = newEvent outboxId userId (passwordChangedEvent outboxId u.email u.givenName u.familyName
        trace producedAt changedAt) trace now := by
      rcases hws with ⟨rfl, -⟩ | ⟨v, -, -, -, rfl⟩ <;> exact List.mem_singleton.mp he
    subst hevent
    have hsuf₁ : h₁ <:+ t.hist := (List.suffix_cons _ _).trans hsuf
    obtain ⟨e', he', w, hw', hto, hid, -⟩ := user_of_answered hc hthread hsuf₁ hread
    obtain ⟨v, hv, hvid, hvto⟩ := huser (hpast _ ⟨e', hsuf₁.subset he', rfl⟩) hw'
    obtain ⟨t', ht', hreq', -⟩ := thread_persists hs hthread
    have hcaller : t'.loc.request = .updatePassword v.id current new := by rw [hreq', hreq, hvid, hid]
    refine ⟨_, _, v, rfl, rfl, hv, hvid.trans hid, ?_, .passwordChanged ht' hcaller⟩
    rw [hvto, ← hto]
    rfl
  | _ => cases he

/-- **In every run every event is addressed to the user it is about.** -/
theorem addressed_reachable (hc : Reachable (machine dep scope) (boot [] clock) c) :
    ∀ e ∈ events c.glob.db, WrittenTo c e := by
  refine hc.invariant (I := fun c => ∀ e ∈ events c.glob.db, WrittenTo c e) (fun e he => by cases he)
    fun c c' hc ih hs e he => ?_
  have hsound := sound_reachable List.Pairwise.nil hc
  rcases db_step List.Pairwise.nil hc hs with hdb | ⟨i, t, ws, hw, hdb⟩
  · rw [hdb] at he
    exact (ih e he).step hsound hs
  · rw [hdb, events_commit hc hw] at he
    rcases List.mem_append.mp he with he | he
    · exact (ih e he).step hsound hs
    · exact addressed_of_commit hc hs hw hdb e he

/-! ## Who verified an address -/

/-- Some call of `verify_email` presents the code of a token of the user. -/
def Confirmed (c : State) (userId : Uuid) : Prop :=
  ∃ i th rawToken raw t, c.thread i = some th ∧ th.loc.request = .verifyEmail rawToken ∧
    Base64Url.decodeVec rawToken = some raw ∧ .token t ∈ c.glob.db ∧ t.tokenHash = sha256 raw ∧
    t.userId = userId

theorem Confirmed.step (hc : Sound c) (hs : Step (machine dep scope) c c') {userId : Uuid}
    (h : Confirmed c userId) : Confirmed c' userId := by
  obtain ⟨i, th, rawToken, raw, t, hth, hreq, hraw, ht, hhash, huser⟩ := h
  obtain ⟨th', hth', hreq', -⟩ := thread_persists hs hth
  obtain ⟨t', ht', hhash', huser'⟩ := token_later hc hs ht
  exact ⟨i, th', rawToken, raw, t', hth', hreq'.trans hreq, hraw, ht', hhash'.trans hhash,
    huser'.trans huser⟩

/-- A user after a commit was there, or is new and unverified. -/
theorem user_of_commit {i : ℕ} {th : Thread Op Resp Session World Reply} {ws : List (Write Row)}
    (hw : MayCommit dep scope (boot [] clock) c i th ws) {v : StoredUser}
    (hv : .user v ∈ applyAll ws c.glob.db) :
    (∃ u, .user u ∈ c.glob.db ∧ u.id = v.id) ∨ v.emailVerified = false := by
  rcases mem_of_mem_applyAll hv with hv | ⟨w, hmem, hnew⟩
  · exact Or.inl ⟨v, hv, rfl⟩
  obtain ⟨-, -, hwrote, -, hvalid, -⟩ := hw
  generalize th.loc.request = req at hwrote
  cases hwrote with
  | signUp =>
    simp only [List.mem_cons, List.not_mem_nil, or_false] at hmem
    rcases hmem with rfl | rfl | rfl
    · cases hnew
      exact Or.inr rfl
    · cases hnew
    · cases hnew
  | @verifyEmail _ _ _ t u =>
    simp only [List.mem_cons, List.not_mem_nil, or_false] at hmem
    rcases hmem with rfl | rfl
    · cases hnew
    · cases hnew
      exact Or.inl ⟨u, (mem_user_updToken hvalid.1.1).mp hvalid.2.1.1, rfl⟩
  | @updateProfile _ _ _ _ u | @setUserStatus _ _ u | @softDelete _ u =>
    obtain rfl := List.mem_singleton.mp hmem
    cases hnew
    exact Or.inl ⟨u, hvalid.1.1, rfl⟩
  | updatePassword _ _ _ _ _ _ hws =>
    rcases hws with ⟨rfl, -⟩ | ⟨u, -, -, -, rfl⟩
    · obtain rfl := List.mem_singleton.mp hmem
      cases hnew
    · simp only [List.cons_append, List.nil_append, List.mem_cons, List.not_mem_nil, or_false] at hmem
      rcases hmem with rfl | rfl
      · cases hnew
        exact Or.inl ⟨u, hvalid.1.1, rfl⟩
      · cases hnew
  | _ =>
    simp only [List.mem_cons, List.not_mem_nil, or_false] at hmem
    rcases hmem with rfl | rfl <;> cases hnew

/-- **In every run an address that is verified was confirmed with a code of its user.** -/
theorem confirmed_reachable (hc : Reachable (machine dep scope) (boot [] clock) c) :
    ∀ u, .user u ∈ c.glob.db → u.emailVerified = true → Confirmed c u.id := by
  refine hc.invariant (I := fun c => ∀ u, .user u ∈ c.glob.db → u.emailVerified = true → Confirmed c u.id)
    (fun u hu => by cases hu) fun c c' hc ih hs v hv hverified => ?_
  have hsound := sound_reachable List.Pairwise.nil hc
  rcases db_step List.Pairwise.nil hc hs with hdb | ⟨i, th, ws, hw, hdb⟩
  · rw [hdb] at hv
    exact (ih v hv hverified).step hsound hs
  · rw [hdb] at hv
    obtain ⟨u, hu, hid⟩ := (user_of_commit hw hv).resolve_right fun h => by
      rw [hverified] at h
      cases h
    have hbefore : u.emailVerified = true → Confirmed c' v.id := fun h => hid ▸ (ih u hu h).step hsound hs
    rcases userChange_of_commit List.Pairwise.nil hc hw hu hv hid.symm with rfl | hchange
    · exact hbefore hverified
    · have hthread := hw.thread
      generalize hreq : th.loc.request = req at hchange
      cases hchange with
      | verifyEmail hraw ht hhash _ huser _ =>
        exact Confirmed.step hsound hs ⟨i, th, _, _, _, hthread, hreq, hraw, ht, hhash, huser⟩
      | _ => exact hbefore hverified

/-! ## The outbox -/

/-- While nothing else marks events, they are unpublished rows. -/
theorem unpublished_reachable (hscope : ∀ id, ¬ scope.allowed (.markPublished id))
    (hc : Reachable (machine dep scope) (boot [] clock) c) {e : StoredEvent} (he : .event e ∈ c.glob.db) :
    e.publishedAt = none := by
  refine db_invariant (P := fun db => ∀ e, .event e ∈ db → e.publishedAt = none) List.Pairwise.nil
    (fun e he => by cases he) ?_ hc e he
  intro c i t ws _ _ ih hw e he
  rcases mem_of_mem_applyAll he with he | ⟨w, hmem, hnew⟩
  · exact ih e he
  obtain ⟨-, hallowed, hwrote, -, -, -⟩ := hw
  generalize t.loc.request = req at hallowed hwrote
  cases hwrote with
  | markPublished => exact (hscope _ hallowed).elim
  | updatePassword _ _ _ _ _ _ hws =>
    rcases hws with ⟨rfl, -⟩ | ⟨u, -, -, -, rfl⟩
    · obtain rfl := List.mem_singleton.mp hmem
      cases hnew
      rfl
    · simp only [List.cons_append, List.nil_append, List.mem_cons, List.not_mem_nil, or_false] at hmem
      rcases hmem with rfl | rfl <;> cases hnew
      rfl
  | _ =>
    simp only [List.mem_cons, List.not_mem_nil, or_false] at hmem
    rcases hmem with rfl | rfl | rfl <;> cases hnew <;> rfl

/-- A statement dates the event it inserts. -/
theorem date_of_exec {s : Sql} {now pick : ℕ} {view : List Row} {e : StoredEvent}
    (he : e ∈ events (inserted (s.exec now pick view).writes)) : e.createdAt = now := by
  have hupdate : ∀ {k : Ref} {f : Row → Option Row}, inserted (updateRow view k f).writes = [] := by
    intro k f
    unfold updateRow
    split
    · rfl
    · split
      · rfl
      · split <;> rfl
  have hinsert : ∀ {r : Row}, e ∈ events (inserted (insertRow view r).writes) → enqueued r = some e := by
    intro r he
    unfold insertRow at he
    split at he
    · cases he
    · obtain ⟨r', hr', hev⟩ := List.mem_filterMap.mp he
      rw [List.mem_singleton.mp hr'] at hev
      exact hev
  have howned : ∀ {r : Row} {id : Uuid} {constraint : String},
      e ∈ events (inserted (insertOwned view id constraint r).writes) → enqueued r = some e := by
    intro r id constraint he
    unfold insertOwned at he
    split_ifs at he
    · exact hinsert he
    · cases he
  cases s with
  | insertEvent => cases hinsert he; rfl
  | insertUser | insertSigningKey => cases hinsert he
  | insertToken | insertRefreshToken => cases howned he
  | consumeToken | markEmailVerified | updatePassword | updateProfile | setKeyStatus | setUserStatus
  | softDelete | markPublished =>
    have he : e ∈ events (inserted (updateRow view _ _).writes) := he
    rw [hupdate] at he
    cases he
  | _ => cases he

/-- Events are dated by their transactions, before now. -/
structure Dated (c : State) : Prop where
  committed : ∀ e ∈ events c.glob.db, e.createdAt ≤ c.glob.clock
  pending : ∀ i t tx, c.thread i = some t → t.loc.tx = some tx → ∀ e ∈ events (inserted tx.writes),
    e.createdAt ≤ c.glob.clock

theorem Dated.committed_step (hc : Reachable (machine dep scope) (boot [] clock) c) (h : Dated c)
    (hs : Step (machine dep scope) c c') : ∀ e ∈ events c'.glob.db, e.createdAt ≤ c'.glob.clock := by
  intro e he
  refine le_trans ?_ (clock_step hs)
  rcases db_step List.Pairwise.nil hc hs with hdb | ⟨i, t, ws, hw, hdb⟩
  · rw [hdb] at he
    exact h.committed e he
  · rw [hdb, events_commit hc hw] at he
    rcases List.mem_append.mp he with he | he
    · exact h.committed e he
    · obtain ⟨o, hcom, -⟩ := hw.commits
      cases o with
      | commit =>
        obtain ⟨tx, htx, rfl⟩ := hcom
        exact h.pending i t tx hw.thread htx e he
      | sql s =>
        obtain ⟨-, pick, a, -, rfl⟩ := hcom
        exact (date_of_exec he).le
      | _ => exact hcom.elim

/-- What a session has written but not committed is dated too. -/
theorem Dated.pending_step (hc : Sound c) (h : Dated c) (hs : Step (machine dep scope) c c') (i : ℕ)
    (t : Thread Op Resp Session World Reply) (tx : Tx) (ht : c'.thread i = some t) (htx : t.loc.tx = some tx) :
    ∀ e ∈ events (inserted tx.writes), e.createdAt ≤ c'.glob.clock := by
  intro e he
  refine le_trans ?_ (clock_step hs)
  cases hs.moved ht with
  | stayed hi => exact h.pending i t tx hi htx e he
  | spawned _ hst =>
    obtain ⟨req, -, rfl, -⟩ := hst
    cases htx
  | again _ hag => cases hag
  | @called l l' o k hist r hi hst =>
    have hfit := (hc.fit i _ hi).2
    have heff := performs_effects hst.1
    generalize c'.glob = g' at heff
    cases heff with
    | none => exact h.pending i _ tx hi htx e he
    | begin =>
      cases htx
      cases he
    | @acquire s tx₀ pick a out htx₀ hout _ _ =>
      cases htx
      have hsplit : events (inserted (tx₀.writes ++ out.writes)) =
          events (inserted tx₀.writes) ++ events (inserted out.writes) := by
        unfold events inserted
        rw [List.filterMap_append, List.filterMap_append]
      rw [hsplit] at he
      rcases List.mem_append.mp he with he | he
      · exact h.pending i _ tx₀ hi htx₀ e he
      · rw [hout] at he
        rw [date_of_exec he]
        exact hfit.started tx₀ htx₀
    | autocommit hnone => cases hnone.symm.trans htx
    | commit | release => cases htx

/-- **In every run events are dated before now.** -/
theorem dated_reachable (hc : Reachable (machine dep scope) (boot [] clock) c) : Dated c := by
  refine hc.invariant (I := Dated) ⟨fun e he => (by cases he), fun i t tx ht => (by cases ht)⟩
    fun c c' hc ih hs => ?_
  exact ⟨ih.committed_step hc hs, ih.pending_step (sound_reachable List.Pairwise.nil hc) hs⟩

end Addressees

end Identity
