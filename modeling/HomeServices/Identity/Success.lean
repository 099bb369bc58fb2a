import Mathlib.Data.List.MinMax
import HomeServices.Identity.Emails
import HomeServices.Identity.KeyTable

/-!
# Calls that succeed

Alone and while nothing fails, a sign-up and a login succeed, and leave behind what was asked for.

* `Storable`, `Unused`, `Draws`: what is stored, and what a call may draw; `Room`: that there is something to draw.
* `smoothly_token`, `smoothly_hash`, `smoothly_check`, `smoothly_sign`: what the handlers share.
* `Available`, `Admissible`, `SignedUp`, **`smoothly_signUp`**: the sign-up.
* `opens_written`, `userByEmail_exec`, `Drawable`, `Entered`, **`smoothly_login`**: the login.
-/

namespace Identity

open ReadCommitted Interaction

section Success

variable [Platform]

/-! ## What is drawn -/

/-- A text that Postgres stores: it refuses U+0000. -/
def Storable (text : String) : Prop := Char.ofNat 0 ∉ text.toList

/-- No row has any of the keys. -/
def Unused (db : List Row) (ks : List Ref) : Prop := ∀ r ∈ db, r.keys.Disjoint ks

/-- Ids and tokens are new, the password is hashed with the salt, and the ids of the trace are stored. -/
def Draws (db : List Row) (password : String) : Op → Choice → Prop
  | .newV7, ch => Unused db [.user ch.uuid, .token ch.uuid, .event ch.uuid, .refresh ch.uuid]
  | .fillRandom _, ch => Unused db [.tokenHash (sha256 ch.bytes), .refreshHash (sha256 ch.bytes)]
  | .generateSalt, ch => ∃ hash, phcHash password ch.bytes = some hash
  | .traceContext, ch => ∀ trace, ch.trace = some trace → Storable trace.1 ∧ Storable trace.2
  | _, _ => True

/-- There is a new id, a new token, and a salt to draw. -/
structure Room (db : List Row) (password : String) : Prop where
  id : ∃ id, Unused db [.user id, .token id, .event id, .refresh id]
  token : ∃ raw, raw.length = 32 ∧ Unused db [.tokenHash (sha256 raw), .refreshHash (sha256 raw)]
  salt : ∃ salt hash, phcHash password salt = some hash

/-- Verification accepts a password under what it was hashed to. -/
def VerifiesHashed : Prop := ∀ password salt hash, phcHash password salt = some hash →
  phcValid hash = true ∧ phcVerify password hash = true

/-- An empty PKCS#8 document does not parse. -/
def EmptyUnparsed : Prop := ∀ algorithm, publicKey algorithm [] = none

variable {db : List Row} {password : String} {ε β : Type} {l : Session} {g : World}
  {Q : Session → World → Except ε β → Prop} {P : Op → Choice → Prop}

/-- Every operation has something to draw. -/
theorem Room.draws (h : Room db password) (o : Op) : ∃ ch, ch.fault = false ∧ Draws db password o ch := by
  cases o with
  | newV7 =>
    obtain ⟨id, hid⟩ := h.id
    exact ⟨{ uuid := id }, rfl, hid⟩
  | fillRandom n =>
    obtain ⟨raw, -, hraw⟩ := h.token
    exact ⟨{ bytes := raw }, rfl, hraw⟩
  | generateSalt =>
    obtain ⟨salt, hsalt⟩ := h.salt
    exact ⟨{ bytes := salt }, rfl, hsalt⟩
  | traceContext => exact ⟨{}, rfl, fun _ h => by cases h⟩
  | _ => exact ⟨{}, rfl, trivial⟩

/-- A row with unused keys is in conflict with no row. -/
theorem conflict_of_unused {r : Row} (h : Unused db r.keys) : conflict db r = none := by
  refine List.find?_eq_none.mpr fun k hk hany => ?_
  obtain ⟨s, hs, hks⟩ := List.any_eq_true.mp hany
  exact h s hs (List.contains_iff_mem.mp hks) hk

theorem insertRow_of_unused {r : Row} (h : Unused db r.keys) : insertRow db r = ⟨.ok 1, [ins r], r.keys⟩ := by
  rw [insertRow, conflict_of_unused h]

theorem Unused.mono {ks ks' : List Ref} (h : Unused db ks) (hks : ks' ⊆ ks) : Unused db ks' :=
  fun r hr _ hk hk' => h r hr hk (hks hk')

theorem Unused.append {db' : List Row} {ks : List Ref} (h : Unused db ks) (h' : Unused db' ks) :
    Unused (db ++ db') ks := fun r hr => (List.mem_append.mp hr).elim (h r) (h' r)

/-- A row with unused keys keeps keys unique. -/
theorem uniqueKeys_append {r : Row} (hdb : UniqueKeys db) (h : Unused db r.keys) : UniqueKeys (db ++ [r]) :=
  hdb.apply (w := ins r) h

/-! ## What the handlers share -/

/-- The rule of drawing an id. -/
theorem smoothly_newV7 (hP : ∃ ch, ch.fault = false ∧ P .newV7 ch) {k : Uuid → Handler Op Resp ε β}
    (H : ∀ ch g', P .newV7 ch → g'.store = g.store → Smoothly P Q l g' (k ch.uuid).run) :
    Smoothly P Q l g (attempt .newV7 .ok >>= k).run :=
  smoothly_draw hP (f := Choice.uuid) (fun _ _ _ => rfl) H

theorem smoothly_newV4 (hP : ∃ ch, ch.fault = false ∧ P .newV4 ch) {k : Uuid → Handler Op Resp ε β}
    (H : ∀ id g', g'.store = g.store → Smoothly P Q l g' (k id).run) :
    Smoothly P Q l g (attempt .newV4 .ok >>= k).run :=
  smoothly_draw hP (f := Choice.uuid) (fun _ _ _ => rfl) fun ch g' _ => H ch.uuid g'

/-- The rule of reading the clock. -/
theorem smoothly_utcNow (hP : ∃ ch, ch.fault = false ∧ P .utcNow ch) {k : Instant → Handler Op Resp ε β}
    (H : ∀ now g', g'.store = g.store → Smoothly P Q l g' (k now).run) :
    Smoothly P Q l g (attempt .utcNow .ok >>= k).run :=
  smoothly_draw hP (f := Choice.instant) (fun _ _ _ => rfl) fun ch g' _ => H ch.instant g'

/-- The rule of drawing a token. -/
theorem smoothly_token (hP : ∃ ch : Choice, ch.fault = false ∧ P (.fillRandom 32) ch ∧ ch.bytes.length = 32)
    {err : CryptoError → ε} {k : String × Bytes → Handler Op Resp ε β}
    (H : ∀ ch g', P (.fillRandom 32) ch → g'.store = g.store → Smoothly P Q l g' (k (tokenOf ch.bytes)).run) :
    Smoothly P Q l g (generateVerificationToken err >>= k).run := by
  unfold generateVerificationToken
  simp only [bind_assoc, pure_bind]
  refine alone_attempt_bind.mpr fun g₁ hg₁ => ⟨?_, fun r l' g' hs => ?_⟩
  · obtain ⟨ch, hfault, hch, hlen⟩ := hP
    refine ⟨.ok ⟨ch.bytes, hlen⟩, l, g₁, ch, hfault, hch, ?_⟩
    simp only [perform, hfault, Bool.false_eq_true, if_false, dif_pos hlen]
  · obtain ⟨t, -, rfl⟩ := hg₁
    obtain ⟨ch, hfault, hch, hp⟩ := hs
    simp only [perform, hfault, Bool.false_eq_true, if_false] at hp
    split_ifs at hp with hlen
    cases hp
    exact H ch _ hch rfl

/-- The rule of the join of a blocking task. -/
theorem smoothly_join (hP : ∃ ch, ch.fault = false ∧ P .join ch) {err : Unit → ε}
    {k : Unit → Handler Op Resp ε β} (H : ∀ g', g'.store = g.store → Smoothly P Q l g' (k ()).run) :
    Smoothly P Q l g (attempt .join (Except.mapError err) >>= k).run := by
  refine smoothly_draw hP (f := fun _ => (Except.ok () : Except Unit Unit)) (fun ch _ hf => ?_) ?_
  · simp only [perform, hf, Bool.false_eq_true, if_false]
  · exact fun _ g' _ hg' => H g' hg'

/-- The rule of hashing a password. -/
theorem smoothly_hash (hP : ∃ ch, ch.fault = false ∧ P .generateSalt ch)
    (hP' : ∃ ch, ch.fault = false ∧ P .join ch)
    (hhash : ∀ ch, P .generateSalt ch → ∃ hash, phcHash password ch.bytes = some hash)
    {err : PasswordError → ε} {k : String → Handler Op Resp ε β}
    (H : ∀ salt hash g', phcHash password salt = some hash → g'.store = g.store →
      Smoothly P Q l g' (k hash).run) :
    Smoothly P Q l g (hashBlocking err password >>= k).run := by
  unfold hashBlocking
  simp only [bind_assoc]
  refine smoothly_draw hP (f := Choice.bytes) (fun _ _ _ => rfl) fun ch g₁ hch hg₁ => ?_
  refine smoothly_join hP' fun g₂ hg₂ => ?_
  obtain ⟨hash, hhash⟩ := hhash ch hch
  refine alone_fromExcept_bind.mpr ?_
  rw [hashPassword, hhash]
  exact H _ hash g₂ hhash (hg₂.trans hg₁)

/-- The rule of checking a password that verifies. -/
theorem smoothly_check (hP : ∃ ch, ch.fault = false ∧ P .join ch) {err : PasswordError → ε} {refused : ε}
    {hash : String} (hverified : verifyPassword password hash = .ok ()) {k : Unit → Handler Op Resp ε β}
    (H : ∀ g', g'.store = g.store → Smoothly P Q l g' (k ()).run) :
    Smoothly P Q l g (verifyBlocking err refused password hash >>= k).run := by
  unfold verifyBlocking
  simp only [bind_assoc]
  refine smoothly_join hP fun g₁ hg₁ => ?_
  refine alone_fromExcept_bind.mpr ?_
  rw [hverified]
  exact H g₁ hg₁

/-- The rule of signing claims. -/
theorem smoothly_sign {key : ActiveSigningKey} {claims : Claims}
    (hP : ∀ message, ∃ ch, ch.fault = false ∧ P (.sign key.keyPair message) ch) {err : CryptoError → ε}
    {k : EncodedJwt → Handler Op Resp ε β}
    (H : ∀ jwt g', (∃ h, SignedToken h key claims jwt.token) → g'.store = g.store →
      Smoothly P Q l g' (k jwt).run) :
    Smoothly P Q l g (signJwt err key.algorithm key.kid claims key.keyPair >>= k).run := by
  unfold signJwt
  simp only [bind_assoc, pure_bind]
  refine smoothly_draw (hP _) (f := fun ch => (Except.ok (ecdsaSign key.keyPair.algorithm key.keyPair.pkcs8
    (asBytes (signingInput key.algorithm key.kid claims)) ch.bytes) : Except Unit Bytes))
    (fun ch _ hf => ?_) fun ch g₁ _ hg₁ => ?_
  · simp only [perform, hf, Bool.false_eq_true, if_false]
  · let signing : Op := .sign key.keyPair (asBytes (signingInput key.algorithm key.kid claims))
    exact H _ g₁ ⟨[⟨signing, .ok _, l, g, l, g⟩], _, ch.bytes, rfl,
      ⟨_, _, _, _, List.mem_singleton_self _⟩, rfl⟩ hg₁

/-! ## The sign-up -/

/-- No live user has the name or the address. -/
def Available (db : List Row) (username email : String) : Prop := ∀ u, .user u ∈ db → u.deletedAt = none →
  lower u.username ≠ lower username ∧ lower u.email ≠ lower email

/-- What the service accepts of a sign-up, and Postgres stores. -/
structure Admissible (username email givenName familyName password : String) : Prop where
  storable : ∀ text ∈ [username, email, givenName, familyName], Storable text
  username : validateUsername username = .ok ()
  email : validateEmail email = .ok ()
  password : validatePassword password = .ok ()

/-- What a sign-up leaves behind: the account that was asked for, a code that opens it, and the email that
carries the code. -/
structure SignedUp (username email givenName familyName password : String) (u : StoredUser)
    (t : StoredToken) (e : StoredEvent) (code : String) : Prop where
  profile : u.username = username ∧ u.email = email ∧ u.givenName = givenName ∧ u.familyName = familyName
  pending : u.status = .pendingVerification
  live : u.deletedAt = none
  password : verifyPassword password u.passwordHash = .ok ()
  owner : t.userId = u.id
  fresh : t.consumedAt = none
  opens : ∃ raw, Base64Url.decodeVec code = some raw ∧ sha256 raw = t.tokenHash
  mail : ∃ m v, verification e = some (m, v) ∧ m.recipientEmail = email ∧ v.verificationCode = code

variable {username email givenName familyName : String}

theorem unused_newUser {id : Uuid} (hid : Unused db [.user id]) (hfree : Available db username email)
    (givenName familyName hash : String) (now : ℕ) :
    Unused db (Row.user (newUser id username email givenName familyName hash now)).keys := by
  intro r hr k hk hk'
  rcases List.mem_cons.mp hk' with rfl | hk'
  · exact hid r hr hk (List.mem_singleton_self _)
  · have hk' : k = .username (lower username) ∨ k = .email (lower email) := by
      simpa [newUser] using hk'
    cases r with
    | user u =>
      by_cases hlive : u.deletedAt = none
      · have hk : k = .user u.id ∨ k = .username (lower u.username) ∨ k = .email (lower u.email) := by
          simpa [Row.keys, hlive] using hk
        have hne := hfree u hr hlive
        rcases hk' with rfl | rfl
        · rcases hk with hk | hk | hk
          · cases hk
          · exact hne.1 (Ref.username.inj hk).symm
          · cases hk
        · rcases hk with hk | hk | hk
          · cases hk
          · cases hk
          · exact hne.2 (Ref.email.inj hk).symm
      · have hk : k = .user u.id := by simpa [Row.keys, hlive] using hk
        rcases hk' with rfl | rfl <;> cases hk
    | token t | event t | key t | refresh t =>
      rcases hk' with rfl | rfl <;> simp [Row.keys] at hk

theorem Unused.union {ks ks' : List Ref} (h : Unused db ks) (h' : Unused db ks') : Unused db (ks ++ ks') :=
  fun r hr _ hk hk' => (List.mem_append.mp hk').elim (h r hr hk) (h' r hr hk)

/-- A new token takes its id and its hash. -/
theorem unused_newToken {id : Uuid} {hash : Bytes} (hid : Unused db [.token id])
    (hhash : Unused db [.tokenHash hash]) (u : StoredUser) (userId : Uuid) (expiresAt now : ℕ) :
    Unused (db ++ [.user u]) (Row.token (newToken id userId hash expiresAt now)).keys := by
  have hkeys : (Row.token (newToken id userId hash expiresAt now)).keys =
      [.token id] ++ [.tokenHash hash] := by simp [Row.keys, newToken]
  rw [hkeys]
  refine (hid.union hhash).append fun r hr k hk hk' => ?_
  obtain rfl := List.mem_singleton.mp hr
  rcases List.mem_cons.mp hk' with rfl | hk'
  · simp [Row.keys] at hk
  · obtain rfl := List.mem_singleton.mp hk'
    simp [Row.keys] at hk

/-- A new event takes its id. -/
theorem unused_newEvent {id : Uuid} (hid : Unused db [.event id]) (u : StoredUser) (t : StoredToken)
    (userId : Uuid) (message : AuthEmailMessage) (trace : Option (String × String)) (now : ℕ) :
    Unused (db ++ [.user u] ++ [.token t]) (Row.event (newEvent id userId message trace now)).keys := by
  change Unused _ [.event id]
  refine (hid.append fun r hr k hk hk' => ?_).append fun r hr k hk hk' => ?_
  all_goals
    obtain rfl := List.mem_singleton.mp hr
    obtain rfl := List.mem_singleton.mp hk'
    simp [Row.keys] at hk

/-- The transaction of a sign-up inserts its three rows. -/
theorem smoothly_insertAccount (hP : ∀ o, ∃ ch, ch.fault = false ∧ P o ch) (hg : g.db = db)
    (hdb : UniqueKeys db) (hlock : Unlocked l.pid g) (hl : l.tx = none) {userId tokenId outboxId : Uuid}
    {tokenHash : Bytes} (huser : Unused db [.user userId]) (hfree : Available db username email)
    (htoken : Unused db [.token tokenId]) (hhash : Unused db [.tokenHash tokenHash])
    (hevent : Unused db [.event outboxId]) {hash : String} {expiresAt : ℕ} {message : AuthEmailMessage}
    {trace : Option (String × String)} :
    Smoothly P (fun _ g' r => r = .ok () ∧ LockFree g' ∧ UniqueKeys g'.db ∧ ∃ now, g'.db = db ++
        [.user (newUser userId username email givenName familyName hash now),
          .token (newToken tokenId userId tokenHash expiresAt now),
          .event (newEvent outboxId userId message trace now)]) l g
      (transaction SignUpError.db do
        let _ ← query .ofInsertUser (.insertUser userId username email givenName familyName hash)
        let _ ← query .db (.insertToken tokenId userId tokenHash expiresAt)
        let _ ← insertEvent .outbox outboxId userId message trace
        return ()).run := by
  unfold insertEvent
  refine smoothly_transaction (hP _) (hP _) hlock hl fun l₁ g₁ now hdb₁ hlock₁ hl₁ => ?_
  obtain ⟨u, hu⟩ : ∃ u, newUser userId username email givenName familyName hash now = u := ⟨_, rfl⟩
  obtain ⟨t, ht⟩ : ∃ t, newToken tokenId userId tokenHash expiresAt now = t := ⟨_, rfl⟩
  obtain ⟨e, he⟩ : ∃ e, newEvent outboxId userId message trace now = e := ⟨_, rfl⟩
  have huser' := unused_newUser huser hfree givenName familyName hash now
  have htoken' := unused_newToken htoken hhash u userId expiresAt now
  have hevent' := unused_newEvent hevent u t userId message trace now
  rw [hu] at huser'
  rw [ht] at htoken'
  rw [he] at hevent'
  have hown : (users (db ++ [.user u])).any (fun v => v.id = userId) = true :=
    List.any_eq_true.mpr ⟨u, mem_users.mpr (by simp), by rw [← hu]; simp [newUser]⟩
  have htx₁ : l₁.tx = some ⟨now, []⟩ := by rw [hl₁]
  refine smoothly_query (hP _) hlock₁ htx₁ (a := 1) (w := [ins (.user u)])
    (fun pick => ⟨(Row.user u).keys, ?_⟩) fun l₂ g₂ hdb₂ hlock₂ hl₂ => ?_
  · rw [applyAll_nil, hdb₁, hg, ← insertRow_of_unused huser', ← hu]
    rfl
  have htx₂ : l₂.tx = some ⟨now, [ins (.user u)]⟩ := by rw [hl₂]; rfl
  refine smoothly_query (hP _) hlock₂ htx₂ (a := 1) (w := [ins (.token t)])
    (fun pick => ⟨(Row.token t).keys, ?_⟩) fun l₃ g₃ hdb₃ hlock₃ hl₃ => ?_
  · rw [applyAll_cons, applyAll_nil, apply_ins, hdb₂, hdb₁, hg, ← insertRow_of_unused htoken', ← ht]
    exact if_pos hown
  have htx₃ : l₃.tx = some ⟨now, [ins (.user u), ins (.token t)]⟩ := by rw [hl₃]; rfl
  refine smoothly_query (hP _) hlock₃ htx₃ (a := 1) (w := [ins (.event e)])
    (fun pick => ⟨(Row.event e).keys, ?_⟩) fun l₄ g₄ hdb₄ hlock₄ hl₄ => ?_
  · rw [applyAll_cons, applyAll_cons, applyAll_nil, apply_ins, apply_ins, hdb₃, hdb₂, hdb₁, hg]
    rw [← insertRow_of_unused hevent', ← he]
    rfl
  refine ⟨(), now, _, rfl, by rw [hl₄], fun at_ => ⟨rfl, hlock₄.lockFree_commit _ at_, ?_⟩⟩
  have hrows : applyAll ([ins (.user u), ins (.token t)] ++ [ins (.event e)]) g₄.db =
      db ++ [.user u] ++ [.token t] ++ [.event e] := by
    rw [hdb₄, hdb₃, hdb₂, hdb₁, hg]
    rfl
  refine ⟨?_, now, ?_⟩
  · change UniqueKeys (applyAll _ g₄.db)
    rw [hrows]
    exact uniqueKeys_append (uniqueKeys_append (uniqueKeys_append hdb huser') htoken') hevent'
  · change applyAll _ g₄.db = _
    rw [hu, ht, he, hrows]
    simp

/-- **Alone and while nothing fails, a sign-up with an admissible request for a name and an address that are
available succeeds.** -/
theorem smoothly_signUp (hhash : VerifiesHashed) (hemail : EmailRoundTrip) {webBaseUrl : String}
    (hdb : UniqueKeys g.db) (hlock : Unlocked l.pid g) (hl : l.tx = none)
    (hvalid : Admissible username email givenName familyName password) (hfree : Available g.db username email)
    (hroom : Room g.db password) :
    Smoothly (Draws g.db password) (fun _ g' r => r = .ok () ∧ LockFree g' ∧ UniqueKeys g'.db ∧ ∃ u t e code,
        g'.db = g.db ++ [.user u, .token t, .event e] ∧
        SignedUp username email givenName familyName password u t e code) l g
      (SignUp.execute webBaseUrl username email givenName familyName (some password)).run := by
  have hP := hroom.draws
  unfold SignUp.execute
  refine alone_fromExcept_bind.mpr ?_
  rw [hvalid.username]
  refine alone_fromExcept_bind.mpr ?_
  rw [hvalid.email]
  refine alone_fromExcept_bind.mpr ?_
  refine alone_fromExcept_bind.mpr ?_
  rw [hvalid.password]
  refine smoothly_hash (hP _) (hP _) (fun _ hch => hch) fun salt hash g₁ hhashed hg₁ => ?_
  refine smoothly_newV7 (hP _) fun user g₂ huser hg₂ => ?_
  refine smoothly_newV7 (hP _) fun token g₃ htoken hg₃ => ?_
  refine smoothly_newV7 (hP _) fun event g₄ hevent hg₄ => ?_
  refine smoothly_token ?_ fun code g₅ hcode hg₅ => ?_
  · obtain ⟨raw, hlen, hraw⟩ := hroom.token
    exact ⟨{ bytes := raw }, rfl, hraw, hlen⟩
  refine smoothly_utcNow (hP _) fun now g₆ hg₆ => ?_
  refine smoothly_draw (o := .traceContext) (hP _) (f := Choice.trace) (fun _ _ _ => rfl)
    fun trace g₇ _ hg₇ => ?_
  refine smoothly_utcNow (hP _) fun produced g₈ hg₈ => ?_
  refine smoothly_getConnection (hP _) fun g₉ hg₉ => ?_
  have hstore : g₉.store = g.store := by rw [hg₉, hg₈, hg₇, hg₆, hg₅, hg₄, hg₃, hg₂, hg₁]
  have hlock₉ : Unlocked l.pid g₉ := fun k => hstore ▸ hlock k
  have huser' : Unused g.db [.user user.uuid] := Unused.mono huser (by simp)
  have htoken' : Unused g.db [.token token.uuid] := Unused.mono htoken (by simp)
  have hcode' : Unused g.db [.tokenHash (sha256 code.bytes)] := Unused.mono hcode (by simp)
  have hevent' : Unused g.db [.event event.uuid] := Unused.mono hevent (by simp)
  refine (smoothly_insertAccount hP (congrArg Store.rows hstore) hdb hlock₉ hl huser' hfree htoken' hcode'
    hevent').mono fun _ g' r hr => ?_
  obtain ⟨hok, hquiet, hunique, at_, hrows⟩ := hr
  refine ⟨hok, hquiet, hunique, _, _, _, Base64Url.encodeString code.bytes, hrows, ?_⟩
  obtain ⟨hphc, hverifies⟩ := hhash _ _ _ hhashed
  exact
    { profile := ⟨rfl, rfl, rfl, rfl⟩
      pending := rfl
      live := rfl
      password := by simp [verifyPassword, newUser, hphc, hverifies]
      owner := rfl
      fresh := rfl
      opens := ⟨code.bytes, Base64Url.decodeVec_encodeString _, rfl⟩
      mail := ⟨_, _, verification_newEvent hemail _ _ rfl _ _, rfl, rfl⟩ }

/-! ## The login -/

variable {dep : Deployment} {u : StoredUser}

/-- A stored key opens. -/
theorem opens_written (hopens : OpensSealed) (hempty : EmptyUnparsed) {k : StoredKey}
    (hk : WrittenKey dep k) : ∃ key, openSigningKey dep.kek k = .ok key := by
  obtain ⟨pkcs8, nonce, jwk, hnonce, hjwk, halg, henc, -⟩ := hk
  obtain ⟨keyPair, hpair, -, -⟩ := point_of_publicJwk hjwk
  have hne : pkcs8 ≠ [] := by
    rintro rfl
    have hnone := hempty keyPair.algorithm
    obtain ⟨-, hsame⟩ := fromPkcs8_eq_some hpair
    have hvalid := keyPair.valid
    rw [hsame, hnone] at hvalid
    cases hvalid
  have hopen := decrypt_encrypted hopens dep.kek hnonce hne (asBytes k.kid)
  rw [← henc] at hopen
  obtain ⟨encrypted, hfrom, hdec⟩ := bind_eq_ok.mp hopen
  refine ⟨⟨k.kid, .ES256, keyPair⟩, ?_⟩
  simp only [openSigningKey, bind_eq_ok, halg, Algorithm.parse_asStr, Except.ok.injEq, exists_eq_left',
    orError_eq_ok]
  exact ⟨encrypted, hfrom, pkcs8, hdec, keyPair, hpair, rfl⟩

omit [Platform] in
/-- Among keys there is a newest one. -/
theorem exists_newest {ks : List StoredKey} (hks : ks ≠ []) (pick : ℕ) : ∃ k, newest pick ks = some k := by
  obtain ⟨m, hm⟩ := Option.ne_none_iff_exists'.mp (mt (List.argmax_eq_none (f := StoredKey.createdAt)).mp hks)
  have hbest : m ∈ ks.filter fun k => ks.all fun j => j.createdAt ≤ k.createdAt :=
    List.mem_filter.mpr ⟨List.argmax_mem hm, List.all_eq_true.mpr fun j hj =>
      decide_eq_true (List.le_of_mem_argmax hj hm)⟩
  exact ⟨_, List.getElem?_eq_getElem (Nat.mod_lt _ (List.length_pos_of_mem hbest))⟩

/-- A lookup by address finds the live user that has it. -/
theorem userByEmail_exec (hdb : UniqueKeys db) (hu : .user u ∈ db) (hlive : u.deletedAt = none)
    (hemail : lower u.email = lower email) (now pick : ℕ) :
    (Sql.userByEmail email).exec now pick db = select (.ok (some u.toUser)) := by
  obtain ⟨found, hres⟩ : ∃ found, ((Sql.userByEmail email).exec now pick db).result = .ok found := by
    refine queryOpt_total (List.pairwise_filterMap.mpr (hdb.imp fun {r s} hrs v hv w hw hm hm' => ?_))
    cases r <;> cases hv
    cases s <;> cases hw
    obtain ⟨hv, hvlive⟩ := of_decide_eq_true hm
    obtain ⟨hw, hwlive⟩ := of_decide_eq_true hm'
    refine hrs (a := .email (lower email)) ?_ ?_
    · simp [Keyed.keys, Row.keys, hvlive, hv]
    · simp [Keyed.keys, Row.keys, hwlive, hw]
  have hfound : found = some u.toUser := by
    cases found with
    | none =>
      have hnil := List.map_eq_nil_iff.mp (queryOpt_eq_none hres)
      have hcond := List.filter_eq_nil_iff.mp hnil u (mem_users.mpr hu)
      exact absurd (decide_eq_true ⟨hemail, hlive⟩) hcond
    | some v =>
      obtain ⟨w, hw, rfl, hwlive, hwemail⟩ := userByEmail_found hres
      rw [user_unique_email hdb hw hu hwlive hlive (hwemail.trans hemail.symm)]
  rw [← hfound]
  exact congrArg select hres

/-- What a login leaves behind: a refresh token of the user, and an access token signed with an active key. -/
structure Entered (dep : Deployment) (db : List Row) (u : StoredUser) (t : Instant) (result : LoginResult)
    (token : StoredRefresh) : Prop where
  owner : token.userId = u.id
  unrevoked : token.revokedAt = none
  opens : ∃ raw, Base64Url.decodeVec result.refreshToken = some raw ∧ sha256 raw = token.tokenHash
  expires : result.expiresAt = t + accessTokenLifetimeSecs * second
  signed : ∃ k key h jti, .key k ∈ db ∧ k.status = "active" ∧ openSigningKey dep.kek k = .ok key ∧
    SignedToken h key (accessClaims u.toUser t jti) result.accessToken

def newRefresh (id userId : Uuid) (tokenHash : Bytes) (expiresAt now : ℕ) : StoredRefresh :=
  { id, userId, tokenHash, expiresAt := toMicros expiresAt, revokedAt := none, createdAt := now }

/-- A new refresh token takes its id and its hash. -/
theorem unused_newRefresh {id : Uuid} {hash : Bytes} (hid : Unused db [.refresh id])
    (hhash : Unused db [.refreshHash hash]) (userId : Uuid) (expiresAt now : ℕ) :
    Unused db (Row.refresh (newRefresh id userId hash expiresAt now)).keys := by
  have hkeys : (Row.refresh (newRefresh id userId hash expiresAt now)).keys =
      [.refresh id] ++ [.refreshHash hash] := by simp [Row.keys, newRefresh]
  rw [hkeys]
  exact hid.union hhash

/-- What a login needs to draw. -/
structure Drawable (db : List Row) (P : Op → Choice → Prop) : Prop where
  any : ∀ o, ∃ ch, ch.fault = false ∧ P o ch
  token : ∃ ch : Choice, ch.fault = false ∧ P (.fillRandom 32) ch ∧ ch.bytes.length = 32
  newId : ∀ ch, P .newV7 ch → Unused db [.refresh ch.uuid]
  newHash : ∀ ch, P (.fillRandom 32) ch → Unused db [.refreshHash (sha256 ch.bytes)]

/-- **Alone and while nothing fails, the login of an active user succeeds.** -/
theorem smoothly_login (hopens : OpensSealed) (hempty : EmptyUnparsed) (hP : Drawable g.db P)
    (hdb : UniqueKeys g.db) (hkeys : KeyTable dep g.db) (hkey : ∃ k, .key k ∈ g.db ∧ k.status = "active")
    (hlock : Unlocked l.pid g) (hl : l.tx = none) (hu : .user u ∈ g.db) (hlive : u.deletedAt = none)
    (hemail : lower u.email = lower email) (hactive : u.status = .active)
    (hverified : verifyPassword password u.passwordHash = .ok ()) :
    Smoothly P (fun _ g' r => UniqueKeys g'.db ∧ ∃ t result token, r = .ok result ∧
      g'.db = g.db ++ [.refresh token] ∧ Entered dep g.db u t result token) l g
      (Login.execute dep.kek email password).run := by
  unfold Login.execute
  refine smoothly_getConnection (hP.any _) fun g₁ hg₁ => ?_
  have hlock₁ : Unlocked l.pid g₁ := fun k => hg₁ ▸ hlock k
  have hdb₁ : g₁.db = g.db := congrArg Store.rows hg₁
  refine smoothly_single (hP.any _) hlock₁ hl (w := fun _ => []) (a := fun _ _ => some u.toUser)
    (fun now pick => ⟨[], ?_⟩) fun g₂ _ _ hdb₂ hquiet₂ => ?_
  · rw [hdb₁]
    exact userByEmail_exec hdb hu hlive hemail now pick
  have hdb₂ : g₂.db = g.db := hdb₂.trans hdb₁
  refine alone_fromExcept_bind.mpr ?_
  refine smoothly_check (hP.any _) hverified fun g₃ hg₃ => ?_
  refine alone_fromExcept_bind.mpr (onResult_require.mpr ⟨fun _ => ?_, fun h => absurd hactive h⟩)
  unfold Login.issue getActiveSigningKey
  simp only [bind_assoc]
  refine smoothly_getConnection (hP.any _) fun g₄ hg₄ => ?_
  have hstore₄ : g₄.store = g₂.store := hg₄.trans hg₃
  have hlock₄ : Unlocked l.pid g₄ := fun k => Or.inl (hstore₄ ▸ hquiet₂ k)
  have hdb₄ : g₄.db = g.db := (congrArg Store.rows hstore₄).trans hdb₂
  have hactives : ((signingKeys g.db).filter fun k => k.status = "active") ≠ [] := by
    obtain ⟨k, hk, hstatus⟩ := hkey
    exact List.ne_nil_of_mem (List.mem_filter.mpr ⟨mem_signingKeys.mpr hk, decide_eq_true hstatus⟩)
  refine smoothly_single (hP.any _) hlock₄ hl (w := fun _ => []) (a := fun _ pick =>
    newest pick ((signingKeys g.db).filter fun k => k.status = "active")) (fun now pick => ⟨[], ?_⟩)
    fun g₅ _ pick hdb₅ hquiet₅ => ?_
  · rw [hdb₄]
    rfl
  have hdb₅ : g₅.db = g.db := hdb₅.trans hdb₄
  obtain ⟨k, hk⟩ := exists_newest hactives pick
  obtain ⟨hmem, hstatus⟩ := List.mem_filter.mp (newest_mem hk)
  have hmem : .key k ∈ g.db := mem_signingKeys.mp hmem
  obtain ⟨key, hopened⟩ := opens_written hopens hempty (hkeys k hmem)
  refine alone_fromExcept_bind.mpr ?_
  rw [hk]
  refine alone_fromExcept_bind.mpr ?_
  rw [hopened]
  refine smoothly_utcNow (hP.any _) fun now g₆ hg₆ => ?_
  refine smoothly_newV4 (hP.any _) fun jti g₇ hg₇ => ?_
  refine smoothly_sign (fun _ => hP.any _) fun access g₈ haccess hg₈ => ?_
  refine smoothly_newV4 (hP.any _) fun _ g₉ hg₉ => ?_
  refine smoothly_sign (fun _ => hP.any _) fun idToken g₁₀ _ hg₁₀ => ?_
  refine smoothly_token hP.token fun refresh g₁₁ hrefresh hg₁₁ => ?_
  refine smoothly_newV7 (hP.any _) fun id g₁₂ hid hg₁₂ => ?_
  refine smoothly_getConnection (hP.any _) fun g₁₃ hg₁₃ => ?_
  have hstore : g₁₃.store = g₅.store := by rw [hg₁₃, hg₁₂, hg₁₁, hg₁₀, hg₉, hg₈, hg₇, hg₆]
  have hlock : Unlocked l.pid g₁₃ := fun k => Or.inl (hstore ▸ hquiet₅ k)
  have hdb₁₃ : g₁₃.db = g.db := (congrArg Store.rows hstore).trans hdb₅
  have hrow := unused_newRefresh (hP.newId id hid) (hP.newHash refresh hrefresh) u.id
    (now.val + refreshTokenLifetimeDays * 24 * 3600 * second)
  refine smoothly_single (hP.any _) hlock hl (w := fun at_ => [ins (.refresh (newRefresh id.uuid u.id
    (sha256 refresh.bytes) (now.val + refreshTokenLifetimeDays * 24 * 3600 * second) at_))])
    (a := fun _ _ => 1) (fun at_ pick => ⟨[.refresh id.uuid, .refreshHash (sha256 refresh.bytes)], ?_⟩)
    fun g₁₄ at_ pick hdb₁₄ _ => ?_
  · rw [hdb₁₃]
    refine (if_pos ?_).trans (insertRow_of_unused (hrow at_))
    exact List.any_eq_true.mpr ⟨u, mem_users.mpr hu, decide_eq_true rfl⟩
  · rw [hdb₁₃] at hdb₁₄
    exact ⟨hdb₁₄ ▸ uniqueKeys_append hdb (hrow at_), now, _, _, rfl, hdb₁₄,
      { owner := rfl
        unrevoked := rfl
        opens := ⟨refresh.bytes, Base64Url.decodeVec_encodeString _, rfl⟩
        expires := rfl
        signed := by
          obtain ⟨h, hsigned⟩ := haccess
          exact ⟨k, key, h, jti, hmem, of_decide_eq_true hstatus, hopened, hsigned⟩ }⟩

end Success

end Identity
