import HomeServices.Identity.Locks
import HomeServices.Identity.Success
import HomeServices.Identity.Window

/-!
# From the sign-up to the session

Who signs up gets in: the sign-up is answered, the code of its email is taken, the login is answered, and its
access token is accepted.

* `Serves`: what an undisturbed call is answered.
* `verified_rows`: what a verification leaves; `Entered.accepted`: what the token of a login is good for.
* `lockFree_of_returned`: between calls nothing is locked.
* **`account_journey`**: the whole way, from every state of every run in which nothing is locked;
  `account_journey_session`: a second user of the sample session.
-/

namespace Identity

open ReadCommitted Interaction

section Journey

variable [Platform] {dep : Deployment} {db : List Row} {u : StoredUser} {g : World}
  {username email givenName familyName password : String}

/-! ## The whole way -/

/-- Alone and while nothing fails, drawing by `P`, every call with the request is answered in `Q`. -/
def Serves (dep : Deployment) (P : Op → Choice → Prop) (req : Request) (g : World)
    (Q : World → Reply → Prop) : Prop :=
  ∀ i, Smoothly P (fun _ g' r => Q g' r) ⟨i, req, none⟩ g (handler dep req)

/-- A row that takes no new key in the place of another keeps keys unique. -/
theorem uniqueKeys_upd (hdb : UniqueKeys db) {o r : Row} (ho : o ∈ db) (hp : r.primary = o.primary)
    (hr : r.keys ⊆ o.keys) : UniqueKeys ((upd o r).apply db) := by
  refine hdb.apply ⟨ho, hp, fun s hs hne k hks hkr => hne ?_⟩
  exact congrArg Row.primary (hdb.eq_of_mem hs ho hks (hr hkr))

/-- What a verification leaves of the keys of a database. -/
theorem verified_rows (hdb : UniqueKeys db) {t : StoredToken} (ht : .token t ∈ db) (hu : .user u ∈ db)
    (now : ℕ) : UniqueKeys (applyAll (verifyWrites t u now) db) ∧
    .user { u with emailVerified := true, status := .active, updatedAt := now } ∈
      applyAll (verifyWrites t u now) db ∧
    ∀ k, .key k ∈ applyAll (verifyWrites t u now) db ↔ .key k ∈ db := by
  have hmid : UniqueKeys ((upd (.token t) (.token { t with consumedAt := some now })).apply db) :=
    uniqueKeys_upd hdb ht rfl (by simp [Row.keys])
  have hu' := (mem_user_updToken (t := { t with consumedAt := some now }) ht).mpr hu
  refine ⟨uniqueKeys_upd hmid hu' rfl (List.Subset.refl _), (mem_updUser hu').mpr (Or.inl rfl), fun k => ?_⟩
  refine (mem_upd_of_ne hu' Row.noConfusion Ref.noConfusion).trans ?_
  exact mem_upd_of_ne ht Row.noConfusion Ref.noConfusion

/-- Only a refresh token takes the keys of one. -/
theorem disjoint_refresh {r : Row} (hr : ∀ token, r ≠ .refresh token) {k : Ref}
    (hk : (∃ id, k = .refresh id) ∨ ∃ hash, k = .refreshHash hash) : r.keys.Disjoint [k] := by
  intro k' hk' hmem
  obtain rfl := List.mem_singleton.mp hmem
  cases r with
  | refresh token => exact hr token rfl
  | _ => rcases hk with ⟨id, rfl⟩ | ⟨hash, rfl⟩ <;> simp [Row.keys] at hk'

/-- New rows that do not take the keys leave them unused. -/
theorem Unused.later {db' : List Row} {ks : List Ref} (h : Unused db ks)
    (hrows : ∀ r ∈ db', r ∈ db ∨ r.keys.Disjoint ks) : Unused db' ks :=
  fun r hr => (hrows r hr).elim (h r) id

/-- Within its window the access token of a login is accepted. -/
theorem Entered.accepted {t : Instant} {result : LoginResult} {token : StoredRefresh}
    (he : Entered dep db u t result token) (hopens : OpensSealed) (hverifies : VerifiesSigned)
    (hjson : JsonRoundTrip) (huuid : UuidRoundTrip) (hg : UniqueKeys g.db) (hkeys : KeyTable dep g.db)
    (hstill : ∀ k, .key k ∈ db → .key k ∈ g.db) {now : UInt64} (hnow : Within t now) :
    Serves dep (fun _ ch => ch.seconds = now) (.authenticate (bearer result.accessToken)) g
      fun _ r => r = .authenticate (.ok u.id) := by
  obtain ⟨k, key, h, jti, hk, hstatus, hopened, hsigned⟩ := he.signed
  have hactive : k.status ≠ "revoked" := by
    rw [hstatus]
    decide
  have haccepted := authenticateAt_inside hopens hverifies hjson huuid hg hkeys ⟨k.status, hstill k hk⟩
    hopened ⟨k, hstill k hk, rfl, hactive⟩ hsigned (grants_access u.toUser t jti) hnow
  have henv : ∀ g₁ g₂ : World, g₁.db = g.db → Ticks g₁ g₂ → g₂.db = g.db := by
    rintro g₁ g₂ hg₁ ⟨at_, -, rfl⟩
    exact hg₁
  intro i
  have hP : ∃ ch : Choice, ch.fault = false ∧ ch.seconds = now := ⟨{ seconds := now }, rfl, rfl⟩
  have halone : Undisturbed (fun ch => ch.seconds = now) (fun l' g' r =>
      l' = presenting i result.accessToken ∧ g'.db = g.db ∧ r = .ok u.id) (presenting i result.accessToken) g
      (authenticate (bearer result.accessToken)).run := by
    refine alone_authenticate (I := (· = g.db)) (R := fun r => r = .ok u.id) rfl hP rfl henv
      fun rows ch hrows hch => ?_
    rw [hrows, hch]
    exact haccepted
  exact alone_bind.mpr (halone.mono fun _ _ _ hr => congrArg Reply.authenticate hr.2.2)

/-- Where every call has returned nothing is locked. -/
theorem lockFree_of_returned {scope : Scope} {clock : ℕ} {c : State}
    (hc : Reachable (machine dep scope) (boot db clock) c)
    (hret : ∀ i t, c.thread i = some t → ∃ r, t.prog = .ret r) : LockFree c.glob := by
  intro k
  by_contra hlocked
  obtain ⟨i, hlock⟩ := Option.ne_none_iff_exists'.mp hlocked
  obtain ⟨⟨l, p, h⟩, ht⟩ := Option.ne_none_iff_exists'.mp (owner_reachable hc k i hlock)
  have hpid : l.pid = i := (origin_reachable hc i _ ht).pid
  have hold := holding_reachable hc ht
  have hfollows := follows_thread hc ht
  obtain ⟨r, rfl⟩ : ∃ r, p = .ret r := hret i _ ht
  change Holding l c.glob (lockOrder.phase .outside h) at hold
  have hphase : lockOrder.phase .outside h = .outside := hfollows
  rw [hphase] at hold
  exact hold.2 k (hpid.symm ▸ hlock)

/-- **Who signs up gets in.** From every state of every run in which nothing is locked and a key is active,
alone and while nothing fails: a sign-up with an admissible request for a name and an address that are
available succeeds and queues an email to that address; the code in it opens the account until it expires;
a login with the address and the password succeeds then; and its access token is accepted as the account's
within its window. -/
theorem account_journey (hopens : OpensSealed) (hverifies : VerifiesSigned) (hjson : JsonRoundTrip)
    (huuid : UuidRoundTrip) (hemail : EmailRoundTrip) (hhash : VerifiesHashed) (hempty : EmptyUnparsed)
    {scope : Scope} {clock : ℕ} {c : State} (hdb : UniqueKeys db) (hkeys : KeyTable dep db)
    (hc : Reachable (machine dep scope) (boot db clock) c) (hquiet : LockFree c.glob)
    (hkey : ∃ k, .key k ∈ c.glob.db ∧ k.status = "active")
    (hvalid : Admissible username email givenName familyName password)
    (hfree : Available c.glob.db username email) (hroom : Room c.glob.db password) :
    Serves dep (Draws c.glob.db password) (.signUp username email givenName familyName (some password)) c.glob
      fun g₁ r => r = .signUp (.ok ()) ∧ ∃ u t e code, g₁.db = c.glob.db ++ [.user u, .token t, .event e] ∧
        SignedUp username email givenName familyName password u t e code ∧
        Serves dep (fun _ ch => ch.instant.val ≤ t.expiresAt) (.verifyEmail code) g₁
          fun g₂ r => r = .verifyEmail (.ok ()) ∧ ∃ now, g₂.db = applyAll (verifyWrites t u now) g₁.db ∧
            Serves dep (Draws c.glob.db password) (.login email password) g₂
              fun g₃ r => ∃ at_ result token, r = .login (.ok result) ∧ g₃.db = g₂.db ++ [.refresh token] ∧
                Entered dep g₂.db { u with emailVerified := true, status := .active, updatedAt := now } at_
                  result token ∧
                ∀ now, Within at_ now →
                  Serves dep (fun _ ch => ch.seconds = now) (.authenticate (bearer result.accessToken)) g₃
                    fun _ r => r = .authenticate (.ok u.id) := by
  have hunique := (sound_reachable hdb hc).unique
  have htable := keyTable_reachable hdb hkeys hc
  intro i
  refine alone_bind.mpr ((smoothly_signUp hhash hemail hunique (hquiet.unlocked i) rfl hvalid hfree
    hroom).mono fun _ g₁ r hr => ?_)
  obtain ⟨rfl, hquiet₁, hunique₁, u, t, e, code, hrows₁, hs⟩ := hr
  refine ⟨rfl, u, t, e, code, hrows₁, hs, fun j => ?_⟩
  obtain ⟨raw, hraw, hhash⟩ := hs.opens
  have hu : .user u ∈ g₁.db := by simp [hrows₁]
  have ht : .token t ∈ g₁.db := by simp [hrows₁]
  refine alone_bind.mpr ((smoothly_verifyEmail (fun _ => ⟨{}, rfl, Nat.zero_le _⟩) hunique₁
    (hquiet₁.unlocked j) rfl hraw ht hhash hs.fresh hu hs.owner.symm hs.live fun _ hch => hch).mono
    fun _ g₂ r hr => ?_)
  obtain ⟨rfl, hquiet₂, now, hrows₂⟩ := hr
  refine ⟨rfl, now, hrows₂, fun k => ?_⟩
  obtain ⟨hunique₂, hv, hkeys₂⟩ := verified_rows hunique₁ ht hu now
  rw [← hrows₂] at hunique₂ hv hkeys₂
  have hkeys₁ : ∀ k, .key k ∈ g₁.db ↔ .key k ∈ c.glob.db := fun k => by simp [hrows₁]
  have htable₂ : KeyTable dep g₂.db := fun k hk => htable k ((hkeys₁ k).mp ((hkeys₂ k).mp hk))
  have hkey₂ : ∃ k, .key k ∈ g₂.db ∧ k.status = "active" := by
    obtain ⟨k, hk, hstatus⟩ := hkey
    exact ⟨k, (hkeys₂ k).mpr ((hkeys₁ k).mpr hk), hstatus⟩
  have hnew : ∀ r ∈ g₂.db, r ∈ c.glob.db ∨ ∀ token, r ≠ .refresh token := fun r hr => by
    rw [hrows₂] at hr
    rcases mem_of_mem_applyAll hr with hr | ⟨w, hw, rfl⟩
    · rw [hrows₁] at hr
      rcases List.mem_append.mp hr with hr | hr
      · exact Or.inl hr
      · refine Or.inr fun token htoken => ?_
        subst htoken
        simp at hr
    · refine Or.inr fun token htoken => ?_
      simp only [verifyWrites, List.mem_cons, List.not_mem_nil, or_false] at hw
      rcases hw with rfl | rfl <;> cases htoken
  have hdraws : Drawable g₂.db (Draws c.glob.db password) :=
    { any := hroom.draws
      token := by
        obtain ⟨raw, hlen, hraw⟩ := hroom.token
        exact ⟨{ bytes := raw }, rfl, hraw, hlen⟩
      newId := fun ch hch => (Unused.mono hch (by simp)).later fun r hr =>
        (hnew r hr).imp_right fun hr => disjoint_refresh hr (Or.inl ⟨_, rfl⟩)
      newHash := fun ch hch => (Unused.mono hch (by simp)).later fun r hr =>
        (hnew r hr).imp_right fun hr => disjoint_refresh hr (Or.inr ⟨_, rfl⟩) }
  refine alone_bind.mpr ((smoothly_login hopens hempty hdraws hunique₂ htable₂ hkey₂ (hquiet₂.unlocked k)
    rfl hv hs.live (congrArg lower hs.profile.2.1) rfl hs.password).mono fun _ g₃ r hr => ?_)
  obtain ⟨hunique₃, at_, result, token, rfl, hrows₃, hentered⟩ := hr
  refine ⟨at_, result, token, rfl, hrows₃, hentered, fun now hnow => ?_⟩
  have htable₃ : KeyTable dep g₃.db := fun k hk => htable₂ k (by simpa [hrows₃] using hk)
  have hstill : ∀ k, .key k ∈ g₂.db → .key k ∈ g₃.db := fun k hk => by simp [hrows₃, hk]
  exact hentered.accepted hopens hverifies hjson huuid hunique₃ htable₃ hstill hnow

end Journey

open Sample

theorem verifiesHashed : VerifiesHashed := fun password salt hash h => by
  cases h
  exact ⟨decide_eq_true (by simp), decide_eq_true (by simp)⟩

theorem emptyUnparsed : EmptyUnparsed := fun algorithm => by cases algorithm <;> rfl

/-- The calls below four have returned, the key is active, and there is room for another user. -/
def welcomes (c : State) : Bool :=
  (List.range 4).all (returned · (fun _ _ _ => true) c) &&
    ((signingKeys c.glob.db).any fun k => k.status = "active") &&
    ((users c.glob.db).all fun u => lower u.username ≠ lower "grace" ∧ lower u.email ≠ lower "grace@home") &&
    c.glob.db.all fun r => r.keys.all fun k => k ∉ [Ref.user 20, .token 20, .event 20, .refresh 20,
      .tokenHash (rawToken 9), .refreshHash (rawToken 9)]

/-- After the sample session another user signs up, and gets in. -/
theorem account_journey_session : ∃ c, Reachable (machine deployment (.of fun _ => True)) (boot [] 0) c ∧
    (users c.glob.db).length = 1 ∧
    Serves deployment (Draws c.glob.db "password")
      (.signUp "grace" "grace@home" "Grace" "Hopper" (some "password")) c.glob fun g₁ r =>
        r = .signUp (.ok ()) ∧ ∃ u t e code, g₁.db = c.glob.db ++ [.user u, .token t, .event e] ∧
          SignedUp "grace" "grace@home" "Grace" "Hopper" "password" u t e code ∧
          Serves deployment (fun _ ch => ch.instant.val ≤ t.expiresAt) (.verifyEmail code) g₁
            fun _ r => r = .verifyEmail (.ok ()) := by
  have hrun : (execute deployment (.of fun _ => True) (boot [] 0) session).any (fun c =>
      welcomes c && (users c.glob.db).length = 1) = true := by decide +kernel
  obtain ⟨c, hexec, hc, hend⟩ := Driver.exists_of_execute hrun
  simp only [welcomes, Bool.and_eq_true, decide_eq_true_eq] at hend
  obtain ⟨⟨⟨⟨hret, hkey⟩, husers⟩, hroom⟩, hone⟩ := hend
  have hquiet : LockFree c.glob := by
    refine lockFree_of_returned hc fun i t ht => ?_
    by_cases hi : i < 4
    · obtain ⟨l, r, h, ht', -⟩ := of_returned (List.all_eq_true.mp hret i (List.mem_range.mpr hi))
      cases ht.symm.trans ht'
      exact ⟨r, rfl⟩
    · have htargets : session.all (fun cmd => cmd.target.all (· < 4)) = true := by decide +kernel
      have hnone := Driver.execute_thread (j := i) (fun cmd hcmd htarget => hi ?_) hexec
      · cases ht.symm.trans hnone
      · have hlt := List.all_eq_true.mp htargets cmd hcmd
        rw [htarget] at hlt
        exact of_decide_eq_true hlt
  have hkey : ∃ k, .key k ∈ c.glob.db ∧ k.status = "active" := by
    obtain ⟨k, hk, hactive⟩ := List.any_eq_true.mp hkey
    exact ⟨k, mem_signingKeys.mp hk, of_decide_eq_true hactive⟩
  have hfree : Available c.glob.db "grace" "grace@home" := fun u hu _ =>
    of_decide_eq_true (List.all_eq_true.mp husers u (mem_users.mpr hu))
  have hunused : Unused c.glob.db [.user 20, .token 20, .event 20, .refresh 20, .tokenHash (rawToken 9),
      .refreshHash (rawToken 9)] := fun r hr k hk hmem => by
    have hnot := List.all_eq_true.mp (List.all_eq_true.mp hroom r hr) k hk
    exact absurd hmem (of_decide_eq_true hnot)
  have hroom : Room c.glob.db "password" :=
    { id := ⟨20, hunused.mono (by simp)⟩
      token := ⟨rawToken 9, rfl, hunused.mono (by simp [sha256])⟩
      salt := ⟨[], _, rfl⟩ }
  have hvalid : Admissible "grace" "grace@home" "Grace" "Hopper" "password" :=
    ⟨by unfold Storable; decide +kernel, by decide +kernel, by decide +kernel, by decide +kernel⟩
  have hserves := account_journey opensSealed verifiesSigned jsonRoundTrip uuidRoundTrip emailRoundTrip
    verifiesHashed emptyUnparsed List.Pairwise.nil keyTable_nil hc hquiet hkey hvalid hfree hroom
  refine ⟨c, hc, hone, fun i => (hserves i).mono fun _ g₁ r hr => ?_⟩
  obtain ⟨hok, u, t, e, code, hrows, hs, hverify⟩ := hr
  exact ⟨hok, u, t, e, code, hrows, hs, fun j => (hverify j).mono fun _ _ _ hr => hr.1⟩

end Identity
