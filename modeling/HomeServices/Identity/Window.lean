import HomeServices.Identity.Execution
import HomeServices.Identity.SignedTokens

/-!
# The window of a token

The tokens of a login are accepted from thirty seconds before they are issued to thirty seconds
after they expire, as long as the row of their key is not revoked: the ID token, too.

* `Serving`: the table holds the key of the login.
* **`access_token_window`**: the access token works exactly in its window.
* **`id_token_rejected_iff`**, `id_token_accepted`: so does the ID token.
-/

namespace Identity

open ReadCommitted Interaction

section Tokens

variable [Platform]

/-- The key table holds the key, and it is not revoked. -/
structure Serving (dep : Deployment) (k : StoredKey) (db : List Row) : Prop where
  unique : UniqueKeys db
  table : KeyTable dep db
  stored : ∃ status, .key { k with status } ∈ db
  unrevoked : Unrevoked k.kid db

section Logins

variable {dep : Deployment} {scope : Scope} {db : List Row} {clock : ℕ} {c : State} {i : ℕ}
  {l : Session} {h : Hist} {email password : String} {result : LoginResult}

/-- A call of `authenticate` with this token. -/
def presenting (j : ℕ) (token : String) : Session := ⟨j, .authenticate (bearer token), none⟩

/-- The key of a login is in the table from then on. -/
theorem Authorized.stored (hdb : UniqueKeys db) (hkeys : KeyTable dep db)
    (hc : Reachable (machine dep scope) (boot db clock) c) {r : Reply}
    (ht : c.thread i = some ⟨l, .ret r, h⟩) {u : StoredUser} {k : StoredKey}
    {key : ActiveSigningKey} {t : Instant} (hauth : Authorized dep h email password u k key t) :
    WrittenKey dep k ∧ ∀ c', Reachable (machine dep scope) c c' →
      ∃ status, .key { k with status } ∈ c'.glob.db := by
  obtain ⟨g, hsaw, hk⟩ := hauth.sawKey
  obtain ⟨c₁, hc₁, rfl, hc₁c⟩ := past_of_saw hc ht hsaw
  refine ⟨keyTable_reachable hdb hkeys hc₁ k hk, fun c' hc' => ?_⟩
  have hpast : Past dep scope (boot db clock) c' c₁.glob := ⟨c₁, hc₁, rfl, hc₁c.trans hc'⟩
  exact hpast.key hdb hk

/-- **The access token of a login is accepted as its user's within the window, while its key is not
revoked, and rejected outside the window.** -/
theorem access_token_window (hopens : OpensSealed) (hverifies : VerifiesSigned)
    (hjson : JsonRoundTrip) (huuid : UuidRoundTrip) (hdb : UniqueKeys db) (hkeys : KeyTable dep db)
    (hc : Reachable (machine dep scope) (boot db clock) c)
    (ht : c.thread i = some ⟨l, .ret (.login (.ok result)), h⟩)
    (hreq : l.request = .login email password) :
    ∃ u k key t, Authorized dep h email password u k key t ∧
      -- whatever happens to the database while the key is served
      (∀ now, Within t now → ∀ j g, Serving dep k g.db →
        Alone (Fine fun ch => ch.seconds = now) (fun _ g => Serving dep k g.db)
          (fun _ _ r => r = .authenticate (.ok u.id)) (presenting j result.accessToken) g
          (handler dep (.authenticate (bearer result.accessToken)))) ∧
      (∀ c', Reachable (machine dep scope) c c' → Unrevoked k.kid c'.glob.db →
        Serving dep k c'.glob.db) ∧
      ∀ now, ¬ Within t now → ∀ j g,
        Alone (Fine fun ch => ch.seconds = now) (fun _ _ => True)
          (fun _ _ r => ∃ e, r = .authenticate (.error e)) (presenting j result.accessToken) g
          (handler dep (.authenticate (bearer result.accessToken))) := by
  have hpost := post_of_return hdb hc ht
  rw [hreq] at hpost
  obtain ⟨u, k, key, t, jti, -, hauth, hsigned, -⟩ := hpost
  obtain ⟨hwritten, hstored⟩ := hauth.stored hdb hkeys hc ht
  have hgrants := grants_access u.toUser t.val jti
  have hP : ∀ now, ∃ ch : Choice, ch.fault = false ∧ ch.seconds = now := fun now =>
    ⟨{ seconds := now }, rfl, rfl⟩
  refine ⟨u, k, key, t, hauth, fun now hnow j g hg => ?_, fun c' hc' hunrevoked => ?_,
    fun now hnow j g => ?_⟩
  · refine alone_bind.mpr ((alone_authenticate (I := Serving dep k) (R := fun r => r = .ok u.id) rfl
      (hP now) hg (fun _ _ _ hg => hg) fun db ch hs hch => ?_).mono fun _ _ _ hr => congrArg _ hr.2.2)
    rw [hch]
    exact authenticateAt_inside hopens hverifies hjson huuid hs.unique hs.table hs.stored
      hauth.opened hs.unrevoked hsigned hgrants hnow
  · have hboot := hc.trans hc'
    exact ⟨(sound_reachable hdb hboot).unique, keyTable_reachable hdb hkeys hboot, hstored c' hc',
      hunrevoked⟩
  · refine alone_bind.mpr ((alone_authenticate (I := fun _ => True) (R := fun r => ∃ e, r = .error e)
      rfl (hP now) trivial (fun _ _ _ _ => trivial) fun db ch _ hch => ?_).mono
      fun _ _ _ ⟨_, _, e, he⟩ => ⟨e, congrArg _ he⟩)
    rw [hch]
    exact authenticateAt_outside hjson hsigned hgrants hnow

/-- Where no key is revoked, the key of a login is not. -/
theorem Authorized.unrevoked (hdb : UniqueKeys db) (hkeys : KeyTable dep db)
    (hc : Reachable (machine dep scope) (boot db clock) c) {r : Reply}
    (ht : c.thread i = some ⟨l, .ret r, h⟩) {u : StoredUser} {k : StoredKey}
    {key : ActiveSigningKey} {t : Instant} (hauth : Authorized dep h email password u k key t)
    (hnone : ∀ k, .key k ∈ c.glob.db → k.status ≠ "revoked") : Unrevoked k.kid c.glob.db := by
  obtain ⟨status, hk⟩ := (hauth.stored hdb hkeys hc ht).2 c .refl
  exact ⟨_, hk, rfl, hnone _ hk⟩

/-- Presented alone on the database of the run, a signed token of a login is decided by the window
and by the row of its key. -/
theorem undisturbed_presenting (hopens : OpensSealed) (hverifies : VerifiesSigned)
    (hjson : JsonRoundTrip) (huuid : UuidRoundTrip) (hdb : UniqueKeys db) (hkeys : KeyTable dep db)
    (hc : Reachable (machine dep scope) (boot db clock) c) {r : Reply}
    (ht : c.thread i = some ⟨l, .ret r, h⟩) {u : StoredUser} {k : StoredKey} {key : ActiveSigningKey}
    {t : Instant} (hauth : Authorized dep h email password u k key t) {claims : Claims}
    {token : String} (hsigned : SignedToken h key claims token) (hgrants : Grants claims u.id t.val)
    (now : UInt64) (j : ℕ) :
    (Within t now ∧ Unrevoked k.kid c.glob.db →
      Undisturbed (fun ch => ch.seconds = now)
        (fun l g r => l = presenting j token ∧ g.db = c.glob.db ∧ r = .authenticate (.ok u.id))
        (presenting j token) c.glob (handler dep (.authenticate (bearer token)))) ∧
    (¬ Within t now ∨ ¬ Unrevoked k.kid c.glob.db →
      Undisturbed (fun ch => ch.seconds = now) (fun _ _ r => ∃ e, r = .authenticate (.error e))
        (presenting j token) c.glob (handler dep (.authenticate (bearer token)))) := by
  obtain ⟨hwritten, hstored⟩ := hauth.stored hdb hkeys hc ht
  have hunique := (sound_reachable hdb hc).unique
  have htable := keyTable_reachable hdb hkeys hc
  have hkid : key.kid = k.kid := by
    obtain ⟨-, -, -, hkid, -⟩ := opened_written hopens hwritten hauth.opened
    exact hkid
  have hP : ∃ ch : Choice, ch.fault = false ∧ ch.seconds = now := ⟨{ seconds := now }, rfl, rfl⟩
  have henv : ∀ g g' : World, g.db = c.glob.db → Ticks g g' → g'.db = c.glob.db := by
    rintro g g' hg ⟨t, -, rfl⟩
    exact hg
  refine ⟨fun ⟨hnow, hunrevoked⟩ => ?_, fun hcond => ?_⟩
  · refine alone_bind.mpr ((alone_authenticate (I := (· = c.glob.db)) (R := fun r => r = .ok u.id) rfl
      hP rfl henv fun db ch hdb hch => ?_).mono fun _ _ _ hr => ⟨hr.1, hr.2.1, congrArg _ hr.2.2⟩)
    rw [hdb, hch]
    exact authenticateAt_inside hopens hverifies hjson huuid hunique htable (hstored c .refl)
      hauth.opened hunrevoked hsigned hgrants hnow
  · refine alone_bind.mpr ((alone_authenticate (I := (· = c.glob.db)) (R := fun r => ∃ e, r = .error e)
      rfl hP rfl henv fun db ch hdb hch => ?_).mono fun _ _ _ ⟨_, _, e, he⟩ => ⟨e, congrArg _ he⟩)
    rw [hdb, hch]
    rcases hcond with hnow | hrevoked
    · exact authenticateAt_outside hjson hsigned hgrants hnow
    · exact authenticateAt_revoked hjson hunique htable hsigned (hkid ▸ hrevoked)

/-- **`authenticate` rejects the ID token of a login exactly outside the window of the access token, or
once its key is revoked.** -/
theorem id_token_rejected_iff (hopens : OpensSealed) (hverifies : VerifiesSigned)
    (hjson : JsonRoundTrip) (huuid : UuidRoundTrip) (hdb : UniqueKeys db) (hkeys : KeyTable dep db)
    (hc : Reachable (machine dep scope) (boot db clock) c)
    (ht : c.thread i = some ⟨l, .ret (.login (.ok result)), h⟩)
    (hreq : l.request = .login email password) :
    ∃ u k key t, Authorized dep h email password u k key t ∧ ∀ now j,
      Undisturbed (fun ch => ch.seconds = now) (fun _ _ r => ∃ e, r = .authenticate (.error e))
          (presenting j result.idToken) c.glob (handler dep (.authenticate (bearer result.idToken))) ↔
        ¬ Within t now ∨ ¬ Unrevoked k.kid c.glob.db := by
  have hpost := post_of_return hdb hc ht
  rw [hreq] at hpost
  obtain ⟨u, k, key, t, -, jti, hauth, -, hsigned⟩ := hpost
  refine ⟨u, k, key, t, hauth, fun now j => ?_⟩
  obtain ⟨haccept, hreject⟩ := undisturbed_presenting hopens hverifies hjson huuid hdb hkeys hc ht
    hauth hsigned (grants_id u.toUser t.val jti) now j
  refine ⟨fun hrejected => ?_, hreject⟩
  by_contra hcond
  push Not at hcond
  -- a rejected token would also be accepted
  obtain ⟨-, -, r, ⟨e, he⟩, -, -, hok⟩ := hrejected.meet (fun g => ⟨g.clock, le_refl _, rfl⟩) (haccept hcond)
  cases he.symm.trans hok

end Logins

end Tokens

open Sample

/-- The header of a call that authenticates. -/
def presents : Request → Option (Option Bytes)
  | .authenticate authorization => some authorization
  | _ => none

/-- The login of the sample session returned, and the only key is still active. -/
def loggedIn (c : State) : Bool :=
  (signingKeys c.glob.db).length = 1 && ((signingKeys c.glob.db).all fun k => k.status = "active") &&
    match c.thread 3, c.thread 4 with
    | some ⟨l, .ret (.login (.ok _)), _⟩, none => match l.request with
      | .login email password => email = "ada@home" && password = "password"
      | _ => false
    | _, _ => false

/-- After the sample session a login has returned, and no key is revoked. -/
theorem session_loggedIn : ∃ c l result h,
    Reachable (machine deployment (.of (presents · = none))) (boot [] 0) c ∧
    c.thread 3 = some ⟨l, .ret (.login (.ok result)), h⟩ ∧
    l.request = .login "ada@home" "password" ∧ c.thread 4 = none ∧
    (signingKeys c.glob.db).length = 1 ∧ ∀ k, .key k ∈ c.glob.db → k.status ≠ "revoked" := by
  have hrun : (execute deployment (.of (presents · = none)) (boot [] 0) session).any loggedIn =
      true := by decide +kernel
  obtain ⟨c, -, hc, hend⟩ := Driver.exists_of_execute hrun
  simp only [loggedIn, Bool.and_eq_true, decide_eq_true_eq] at hend
  obtain ⟨⟨hone, hkeys⟩, hend⟩ := hend
  split at hend
  · rename_i l result h ht ht₄
    split at hend
    · rename_i email password hreq
      simp only [Bool.and_eq_true, decide_eq_true_eq] at hend
      obtain ⟨rfl, rfl⟩ := hend
      refine ⟨c, l, result, h, hc, ht, hreq, ht₄, hone, fun k hk hrevoked => ?_⟩
      have hactive := of_decide_eq_true (List.all_eq_true.mp hkeys k (mem_signingKeys.mpr hk))
      rw [hactive] at hrevoked
      exact absurd hrevoked (by decide)
    · cases hend
  · cases hend

/-- The access token of the sample session is accepted throughout its window. -/
theorem access_token_window_session : ∃ c l result h u k t,
    Reachable (machine deployment (.of fun _ => True)) (boot [] 0) c ∧
    c.thread 3 = some ⟨l, .ret (.login (.ok result)), h⟩ ∧ ∀ now, Within t now → ∀ j,
      Alone (Fine fun ch => ch.seconds = now) (fun _ g => Serving deployment k g.db)
        (fun _ _ r => r = .authenticate (.ok u)) (presenting j result.accessToken) c.glob
        (handler deployment (.authenticate (bearer result.accessToken))) := by
  obtain ⟨c, l, result, h, hc, ht, hreq, -, -, hnone⟩ := session_loggedIn
  have hc : Reachable (machine deployment (.of fun _ => True)) (boot [] 0) c :=
    reachable_widen (fun _ _ => trivial) hc
  have hdb : UniqueKeys ([] : List Row) := List.Pairwise.nil
  obtain ⟨u, k, key, t, hauth, haccept, hserve, -⟩ := access_token_window opensSealed verifiesSigned
    jsonRoundTrip uuidRoundTrip hdb keyTable_nil hc ht hreq
  exact ⟨c, l, result, h, u.id, k, t, hc, ht, fun now hnow j => haccept now hnow j c.glob
    (hserve c .refl (hauth.unrevoked hdb keyTable_nil hc ht hnone))⟩

/-- The ID token of the sample session is rejected exactly outside its window or once its key is
revoked. -/
theorem id_token_rejected_session : ∃ c l result h k t,
    Reachable (machine deployment (.of fun _ => True)) (boot [] 0) c ∧
    c.thread 3 = some ⟨l, .ret (.login (.ok result)), h⟩ ∧ ∀ now j,
      Undisturbed (fun ch => ch.seconds = now) (fun _ _ r => ∃ e, r = .authenticate (.error e))
          (presenting j result.idToken) c.glob
          (handler deployment (.authenticate (bearer result.idToken))) ↔
        ¬ Within t now ∨ ¬ Unrevoked k c.glob.db := by
  obtain ⟨c, l, result, h, hc, ht, hreq, -⟩ := session_loggedIn
  have hc : Reachable (machine deployment (.of fun _ => True)) (boot [] 0) c :=
    reachable_widen (fun _ _ => trivial) hc
  obtain ⟨u, k, key, t, -, hiff⟩ := id_token_rejected_iff opensSealed verifiesSigned jsonRoundTrip
    uuidRoundTrip List.Pairwise.nil keyTable_nil hc ht hreq
  exact ⟨c, l, result, h, k.kid, t, hc, ht, hiff⟩

theorem within_issued (t : Instant) : Within t (timestamp t.val) := by
  have ht := second_lt t
  rw [Within, timestamp_toNat (by omega)]
  omega

/-- **An ID token authenticates: the one of the sample session, at the second it was issued.** -/
theorem id_token_accepted : ∃ c l result h u now,
    Reachable (machine deployment (.of fun _ => True)) (boot [] 0) c ∧
    c.thread 3 = some ⟨l, .ret (.login (.ok result)), h⟩ ∧
    Undisturbed (fun ch => ch.seconds = now) (fun _ _ r => r = .authenticate (.ok u))
      (presenting 4 result.idToken) c.glob
      (handler deployment (.authenticate (bearer result.idToken))) := by
  obtain ⟨c, l, result, h, hc, ht, hreq, -, -, hnone⟩ := session_loggedIn
  have hc : Reachable (machine deployment (.of fun _ => True)) (boot [] 0) c :=
    reachable_widen (fun _ _ => trivial) hc
  have hdb : UniqueKeys ([] : List Row) := List.Pairwise.nil
  have hpost := post_of_return hdb hc ht
  rw [hreq] at hpost
  obtain ⟨u, k, key, t, -, jti, hauth, -, hsigned⟩ := hpost
  have haccept := (undisturbed_presenting opensSealed verifiesSigned jsonRoundTrip uuidRoundTrip hdb
    keyTable_nil hc ht hauth hsigned (grants_id u.toUser t.val jti) (timestamp t.val) 4).1
    ⟨within_issued t, hauth.unrevoked hdb keyTable_nil hc ht hnone⟩
  exact ⟨c, l, result, h, u.id, timestamp t.val, hc, ht, haccept.mono fun _ _ _ hr => hr.2.2⟩

end Identity
