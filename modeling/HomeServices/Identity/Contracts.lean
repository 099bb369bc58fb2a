import HomeServices.Identity.Service

/-!
# What each handler may do

The contract of every request, over the history of the call: which writes it may commit, what it
may sign, and what its reply says about what the call saw.

* `Saw`, `Answered`, `Committed`, `Faulted`: what a history contains.
* `Authorized`, `Signs`: what a login established before it signs.
* `Wrote`: the write set of a transaction of each request.
* `Post`: what a reply says.
* `Meets`, `Keeping`: the proof obligation of a handler; `keeping_draw`, `keeping_read`,
  `keeping_write`, **`keeping_transaction`**: its rules.
-/

namespace Identity

open ReadCommitted Interaction

variable [Platform]

abbrev Event := Entry Op Resp Session World

/-- The call saw the shared state `g` at one of its steps. -/
def Saw (h : Hist) (g : World) : Prop := ∃ e ∈ h, e.pre = g

def Answered (h : Hist) (o : Op) (r : Resp o) : Prop :=
  ∃ l g l' g', (⟨o, r, l, g, l', g'⟩ : Event) ∈ h

/-- The call committed a transaction with these writes. -/
def Committed (h : Hist) (ws : List (Write Row)) : Prop :=
  ∃ l g l' g' t, (⟨.commit, .ok (), l, g, l', g'⟩ : Event) ∈ h ∧ l.tx = some ⟨t, ws⟩

/-- How often the call asked for a commit. -/
def commits (h : Hist) : ℕ := h.countP fun e => match e.op with | .commit => true | _ => false

def isFault {α : Type} : Except PgError α → Bool
  | .error .fault => true
  | _ => false

/-- The answer of an operation the infrastructure failed. -/
def refused : (o : Op) → Resp o → Bool
  | .getConnection, r | .join, r => !r.isOk
  | .unixNow, r => !r.isOk
  | .fillRandom _, r => !r.isOk
  | .generatePkcs8 _, r | .sign _ _, r => !r.isOk
  | .begin, r | .commit, r => isFault r
  | .sql _, r => isFault r
  | _, _ => false

/-- The answer of an operation that failed, or of a statement that broke a constraint. -/
def failed : (o : Op) → Resp o → Bool
  | .sql _, r => !r.isOk
  | o, r => refused o r

/-- The infrastructure failed the call at one of its steps. -/
def Faulted (h : Hist) : Prop := ∃ e ∈ h, refused e.op e.resp = true

/-- An operation of the call failed, or collided with a row of another. -/
def Failed (h : Hist) : Prop := ∃ e ∈ h, failed e.op e.resp = true

instance (h : Hist) : Decidable (Faulted h) :=
  inferInstanceAs (Decidable (∃ e ∈ h, refused e.op e.resp = true))

instance (h : Hist) : Decidable (Failed h) :=
  inferInstanceAs (Decidable (∃ e ∈ h, failed e.op e.resp = true))

omit [Platform] in
/-- What `count_recent_tokens` counts at the time `now`. -/
def recentTokens (userId : Uuid) (now : ℕ) (db : List Row) : ℕ :=
  ((tokens db).filter fun t => t.userId = userId ∧ now < t.createdAt + hour).length

/-- Where the call counted tokens, there were as many as an hour may have. -/
def limits (h : Hist) : Bool :=
  h.any fun e => match e.op with
    | .sql (.countRecentTokens userId) =>
      maxTokensPerHour ≤ recentTokens userId e.pre.clock e.pre.db
    | _ => false

theorem Saw.mono {h h' : Hist} {g : World} (hs : Saw h g) (hsuf : h <:+ h') : Saw h' g :=
  let ⟨e, he, hg⟩ := hs
  ⟨e, hsuf.subset he, hg⟩

theorem Answered.mono {h h' : Hist} {o : Op} {r : Resp o} (ha : Answered h o r)
    (hsuf : h <:+ h') : Answered h' o r :=
  let ⟨l, g, l', g', he⟩ := ha
  ⟨l, g, l', g', hsuf.subset he⟩

theorem Faulted.mono {h h' : Hist} (hf : Faulted h) (hsuf : h <:+ h') : Faulted h' :=
  let ⟨e, he, hr⟩ := hf
  ⟨e, hsuf.subset he, hr⟩

theorem failed_head {e : Event} {h : Hist} (he : failed e.op e.resp = true) : Failed (e :: h) :=
  ⟨e, List.mem_cons_self, he⟩

theorem saw_head {e : Event} {h : Hist} : Saw (e :: h) e.pre := ⟨e, List.mem_cons_self, rfl⟩

theorem answered_head {o : Op} {r : Resp o} {l l' : Session} {g g' : World} {h : Hist} :
    Answered (⟨o, r, l, g, l', g'⟩ :: h) o r := ⟨l, g, l', g', List.mem_cons_self⟩

theorem faulted_head {e : Event} {h : Hist} (he : refused e.op e.resp = true) : Faulted (e :: h) :=
  ⟨e, List.mem_cons_self, he⟩

/-! ## Contracts -/

def newUser (id : Uuid) (username email givenName familyName passwordHash : String) (now : ℕ) :
    StoredUser :=
  { id, username, email, givenName, familyName, passwordHash, emailVerified := false,
    status := .pendingVerification, createdAt := now, updatedAt := now, deletedAt := none }

def newToken (id userId : Uuid) (tokenHash : Bytes) (expiresAt now : ℕ) : StoredToken :=
  { id, userId, tokenHash, expiresAt := toMicros expiresAt, consumedAt := none, createdAt := now }

def newEvent (id userId : Uuid) (message : AuthEmailMessage) (trace : Option (String × String))
    (now : ℕ) : StoredEvent :=
  { id, aggregateType := "user", aggregateId := userId, eventType := "auth_email",
    payload := encodeEmail message, traceId := trace.map Prod.fst, spanId := trace.map Prod.snd,
    createdAt := now, publishedAt := none }

/-- A login for `email` saw the live user `u`, verified the password and the status, opened the
signing key `key` of the row `k`, and read the clock. -/
structure Authorized (dep : Deployment) (h : Hist) (email password : String) (u : StoredUser)
    (k : StoredKey) (key : ActiveSigningKey) (now : Instant) : Prop where
  sawUser : ∃ g, Saw h g ∧ .user u ∈ g.db
  live : u.deletedAt = none
  address : lower u.email = lower email
  verified : verifyPassword password u.passwordHash = .ok ()
  active : u.status = .active
  sawKey : ∃ g, Saw h g ∧ .key k ∈ g.db
  keyActive : k.status = "active"
  opened : openSigningKey dep.kek k = .ok key
  clock : Answered h .utcNow now

/-- What a request may sign: the tokens of a user it authorized. -/
def Signs (dep : Deployment) (h : Hist) (req : Request) (keyPair : EcdsaKeyPair)
    (message : Bytes) : Prop :=
  ∃ email password u k key now jti, req = .login email password ∧
    Authorized dep h email password u k key now ∧ keyPair = key.keyPair ∧
    (message = asBytes (signingInput key.algorithm key.kid (accessClaims u.toUser now jti)) ∨
      message = asBytes (signingInput key.algorithm key.kid (idClaims u.toUser now jti)))

/-- The writes a transaction of each request may commit, given the history of the call. -/
inductive Wrote (dep : Deployment) (h : Hist) : Request → List (Write Row) → Prop
  | signingKey {pkcs8 nonce : Bytes} {id : Uuid} {jwk : Jwk} {now : ℕ} :
      Answered h (.generatePkcs8 .ES256) (.ok pkcs8) → nonce.length = 12 →
      publicJwkFromPkcs8 (uuidText id) .ES256 pkcs8 = .ok jwk →
      Wrote dep h .ensureSigningKey [ins (.key
        { kid := uuidText id
          algorithm := "ES256"
          encryptedPrivateKey := nonce ++ sealInPlace dep.kek.bytes nonce (asBytes (uuidText id)) pkcs8
          publicJwk := jwk.toJson
          status := "active"
          createdAt := now })]
  | signUp {username email givenName familyName password hash : String}
      {salt raw : Bytes} {userId tokenId outboxId : Uuid} {expiresAt producedAt now : ℕ}
      {trace : Option (String × String)} :
      validatePassword password = .ok () → hashPassword password salt = .ok hash →
      Wrote dep h (.signUp username email givenName familyName (some password))
        [ins (.user (newUser userId username email givenName familyName hash now)),
          ins (.token (newToken tokenId userId (sha256 raw) expiresAt now)),
          ins (.event (newEvent outboxId userId (verificationEvent dep.webBaseUrl outboxId email
            givenName familyName trace producedAt (Base64Url.encodeString raw)) trace now))]
  | resendVerification {email : String} {u : StoredUser} {g : World} {e₁ e₂ : Event}
      {h₁ : Hist} {raw : Bytes} {tokenId outboxId : Uuid} {expiresAt producedAt now : ℕ}
      {trace : Option (String × String)} :
      Saw h g → .user u ∈ g.db → u.deletedAt = none → lower u.email = lower email →
      u.status = .pendingVerification →
      -- the tokens were counted, and were few, before the transaction began
      (e₁ :: h₁) <:+ h → e₁.pre.clock = now → e₂ ∈ h₁ →
      e₂.op = .sql (.countRecentTokens u.id) →
      ¬ maxTokensPerHour ≤ recentTokens u.id e₂.pre.clock e₂.pre.db →
      Wrote dep h (.resendVerification email)
        [ins (.token (newToken tokenId u.id (sha256 raw) expiresAt now)),
          ins (.event (newEvent outboxId u.id (verificationEvent dep.webBaseUrl outboxId u.email
            u.givenName u.familyName trace producedAt (Base64Url.encodeString raw)) trace now))]
  | verifyEmail {rawToken : String} {raw : Bytes} {t₀ t : StoredToken} {u : StoredUser} {g : World}
      {at_ : Instant} {now : ℕ} :
      Base64Url.decodeVec rawToken = some raw → Saw h g → .token t₀ ∈ g.db →
      t₀.tokenHash = sha256 raw → t₀.consumedAt = none → t.id = t₀.id →
      Answered h .utcNow at_ → ¬ t₀.expiresAt < at_ → t.consumedAt = none → u.id = t₀.userId →
      u.deletedAt = none →
      Wrote dep h (.verifyEmail rawToken)
        [upd (.token t) (.token { t with consumedAt := some now }),
          upd (.user u) (.user { u with emailVerified := true, status := .active, updatedAt := now })]
  | login {email password : String} {u : StoredUser} {k : StoredKey} {key : ActiveSigningKey}
      {at_ : Instant} {r : StoredRefresh} :
      Authorized dep h email password u k key at_ → r.userId = u.id →
      Wrote dep h (.login email password) [ins (.refresh r)]
  | updateProfile {userId : Uuid} {givenName familyName username : Option String}
      {u : StoredUser} {now : ℕ} : u.id = userId → u.deletedAt = none →
      Wrote dep h (.updateProfile userId givenName familyName username) [upd (.user u) (.user
        { u with
          givenName := givenName.getD u.givenName
          familyName := familyName.getD u.familyName
          username := username.getD u.username
          updatedAt := now })]
  | updatePassword {userId : Uuid} {currentPassword newPassword hash : String} {salt : Bytes}
      {u : User} {h₁ : Hist} {e : Event} {outboxId : Uuid} {producedAt changedAt now : ℕ}
      {trace : Option (String × String)} {ws : List (Write Row)} :
      validatePassword newPassword = .ok () → (e :: h₁) <:+ h →
      Answered h₁ (.sql (.userById userId)) (.ok (some u)) →
      verifyPassword currentPassword u.passwordHash = .ok () →
      hashPassword newPassword salt = .ok hash → e.op = .sql (.updatePassword userId hash) →
      -- the UPDATE found no live row, or replaced the hash of the row it found
      (ws = [] ∧ (∀ v, .user v ∈ e.pre.db → v.id = userId → v.deletedAt ≠ none) ∨
        ∃ v, .user v ∈ e.pre.db ∧ v.id = userId ∧ v.deletedAt = none ∧
          ws = [upd (.user v) (.user { v with passwordHash := hash, updatedAt := now })]) →
      Wrote dep h (.updatePassword userId currentPassword newPassword)
        (ws ++ [ins (.event (newEvent outboxId userId (passwordChangedEvent outboxId u.email
          u.givenName u.familyName trace producedAt changedAt) trace now))])
  | setKeyStatus {kid status : String} {k : StoredKey} : k.kid = kid →
      Wrote dep h (.setKeyStatus kid status) [upd (.key k) (.key { k with status })]
  | setUserStatus {userId : Uuid} {status : UserStatus} {u : StoredUser} : u.id = userId →
      Wrote dep h (.setUserStatus userId status) [upd (.user u) (.user { u with status })]
  | softDelete {userId : Uuid} {u : StoredUser} {now : ℕ} : u.id = userId → u.deletedAt = none →
      Wrote dep h (.softDelete userId) [upd (.user u) (.user { u with deletedAt := some now })]
  | markPublished {id : Uuid} {e : StoredEvent} {now : ℕ} : e.id = id →
      Wrote dep h (.markPublished id) [upd (.event e) (.event { e with publishedAt := some now })]

/-- The token holds the claims, signed by the call with the key. -/
def SignedToken (h : Hist) (key : ActiveSigningKey) (claims : Claims) (token : String) : Prop :=
  ∃ signature rnd, signature = ecdsaSign key.keyPair.algorithm key.keyPair.pkcs8
      (asBytes (signingInput key.algorithm key.kid claims)) rnd ∧
    Answered h (.sign key.keyPair (asBytes (signingInput key.algorithm key.kid claims)))
      (.ok signature) ∧
    token = signingInput key.algorithm key.kid claims ++ "." ++ Base64Url.encodeString signature

/-- What the replies of each request say. -/
def Post (dep : Deployment) (h : Hist) : Request → Reply → Prop
  | .login email password, .login reply => match reply with
    | .ok result => ∃ u k key now jti idJti, Authorized dep h email password u k key now ∧
        SignedToken h key (accessClaims u.toUser now jti) result.accessToken ∧
        SignedToken h key (idClaims u.toUser now idJti) result.idToken
    | .error e => e = .invalidCredentials ∨ Failed h ∨ ∃ g u, Saw h g ∧ .user u ∈ g.db ∧
        u.deletedAt = none ∧ lower u.email = lower email ∧
        verifyPassword password u.passwordHash = .ok ()
  | .resendVerification email, .resendVerification reply => match reply with
    | .ok () => Failed h ∨ limits h = false
    | .error .rateLimited => limits h = true ∧
        ∃ g u, Saw h g ∧ .user u ∈ g.db ∧ u.deletedAt = none ∧ lower u.email = lower email
    | .error _ => Failed h
  | .authenticate authorization, .authenticate reply => match reply with
    | .ok userId => ∃ token header jwk g k now, extractBearerToken authorization = .ok token ∧
        decodeJwtHeader token = .ok header ∧ Saw h g ∧ .key k ∈ g.db ∧ k.status ≠ "revoked" ∧
        Jwk.ofJson k.publicJwk = some jwk ∧ jwk.kid = header.kid ∧
        Answered h .unixNow (.ok now) ∧ checkToken token jwk now = .ok userId
    | .error _ => True
  | .verifyEmail rawToken, .verifyEmail reply => match reply with
    | .ok () => ∃ ws, ws ≠ [] ∧ Committed h ws
    | .error .invalidToken | .error .alreadyConsumed => True
    | .error .userNotFound => ∃ raw g t g', Base64Url.decodeVec rawToken = some raw ∧ Saw h g ∧
        .token t ∈ g.db ∧ t.tokenHash = sha256 raw ∧ Saw h g' ∧
        ∀ u, .user u ∈ g'.db → u.id = t.userId → u.deletedAt ≠ none
    | .error .alreadyVerified => False
    | .error .pool | .error (.db _) => Faulted h
  | .updatePassword userId currentPassword newPassword, .updatePassword reply => match reply with
    | .ok () => commits h = 1 ∧ ∃ ws, ws ≠ [] ∧ Committed h ws
    | .error (.invalidNewPassword e) => commits h = 0 ∧ validatePassword newPassword = .error e
    | .error .notFound => commits h = 0 ∧ validatePassword newPassword = .ok () ∧
        ∃ g, Saw h g ∧ ∀ u, .user u ∈ g.db → u.id = userId → u.deletedAt ≠ none
    | .error .invalidCurrentPassword => commits h = 0 ∧ validatePassword newPassword = .ok () ∧
        ∃ g u, Saw h g ∧ .user u ∈ g.db ∧ u.id = userId ∧ u.deletedAt = none ∧
          verifyPassword currentPassword u.passwordHash ≠ .ok ()
    | _ => commits h ≤ 1
  -- no request is answered by the reply of another
  | .login _ _, _ | .resendVerification _, _ | .authenticate _, _ | .verifyEmail _, _
  | .updatePassword _ _ _, _ => False
  | _, _ => True

/-! ## Obligations -/

/-- An operation commits and signs only what the contract of the request allows. -/
def Meets (dep : Deployment) (h : Hist) (l : Session) (g : World) (o : Op) : Prop :=
  (∀ ws, ws ≠ [] → Commits l g ws o → Wrote dep h l.request ws) ∧
    ∀ keyPair message, o = .sign keyPair message → Signs dep h l.request keyPair message

/-- The program keeps the contract and ends in `Q`. -/
abbrev Keeping {α : Type} (dep : Deployment) (Q : Hist → Session → α → Prop) (h : Hist)
    (l : Session) (p : Prog Op Resp α) : Prop :=
  Safe (fun _ o l g r l' g' => Performs o l g r l' g') Fit (Meets dep) Q h l p

/-- Operations that touch neither the store nor a transaction. -/
def Op.idle : Op → Bool
  | begin | commit | rollback | sql _ => false
  | _ => true

/-- Such operations, but for signatures. -/
def Op.plain : Op → Bool
  | sign _ _ => false
  | o => o.idle

theorem Op.idle_of_plain {o : Op} (ho : o.plain = true) : o.idle = true := by
  cases o <;> first | rfl | cases ho

/-- Statements that write nothing. -/
def Sql.reads : Sql → Bool
  | userById _ | userByEmail _ | countRecentTokens _ | tokenByHash _ | activeSigningKey
  | countActiveKeys | publicJwks => true
  | _ => false

theorem exec_reads {s : Sql} (h : s.reads = true) (now pick : ℕ) (view : List Row) :
    (s.exec now pick view).writes = [] := by
  cases s <;> first | rfl | cases h

theorem performs_idle {o : Op} (ho : o.idle = true) {l l' : Session} {g g' : World} {r : Resp o}
    (h : Performs o l g r l' g') : l' = l := by
  have heff := performs_effects h
  cases heff with
  | none => rfl
  | release ho' => rcases ho' with rfl | rfl <;> cases ho
  | _ => cases ho

/-- A statement in a transaction fails, or answers and adds its writes. -/
theorem performs_sql {s : Sql} {l l' : Session} {g g' : World} {r : Except PgError s.Out} {tx : Tx}
    (hl : l.tx = some tx) (h : Performs (.sql s) l g r l' g') :
    (∃ e, r = .error e ∧ l' = l ∧ (e = .fault ∨
      ∃ pick, (s.exec tx.startedAt pick (applyAll tx.writes g.db)).result = .error e)) ∨
    ∃ pick a, r = .ok a ∧
      (s.exec tx.startedAt pick (applyAll tx.writes g.db)).result = .ok a ∧
      l' = { l with tx := some { tx with writes := tx.writes ++
        (s.exec tx.startedAt pick (applyAll tx.writes g.db)).writes } } := by
  obtain ⟨ch, h⟩ := h
  simp only [perform, hl] at h
  split_ifs at h with hf hfree
  · cases h
    exact Or.inl ⟨.fault, rfl, rfl, Or.inl rfl⟩
  · cases hres : (s.exec tx.startedAt ch.pick (applyAll tx.writes g.db)).result with
    | error e => simp only [hres] at h; cases h; exact Or.inl ⟨e, rfl, rfl, Or.inr ⟨_, hres⟩⟩
    | ok a => simp only [hres] at h; cases h; exact Or.inr ⟨_, a, rfl, hres, rfl⟩

/-- A statement outside a transaction fails or answers. -/
theorem performs_autocommit {s : Sql} {l l' : Session} {g g' : World} {r : Except PgError s.Out}
    (hl : l.tx = none) (h : Performs (.sql s) l g r l' g') :
    l' = l ∧ (r = .error .fault ∨ ∃ pick, r = (s.exec g.clock pick g.db).result) := by
  obtain ⟨ch, h⟩ := h
  simp only [perform, hl] at h
  split_ifs at h with hf hfree hf'
  · cases h
    exact ⟨rfl, Or.inl rfl⟩
  all_goals
    cases hres : (s.exec g.clock ch.pick g.db).result with
    | error e => simp only [hres] at h; cases h; exact ⟨rfl, Or.inr ⟨_, hres.symm⟩⟩
    | ok a =>
      simp only [hres] at h
      cases h
      first | exact ⟨rfl, Or.inl rfl⟩ | exact ⟨rfl, Or.inr ⟨_, hres.symm⟩⟩

theorem performs_begin {l l' : Session} {g g' : World} {r : Except PgError Unit}
    (hl : l.tx = none) (h : Performs .begin l g r l' g') :
    (r = .error .fault ∧ l' = l) ∨ (r = .ok () ∧ l' = { l with tx := some ⟨g.clock, []⟩ }) := by
  obtain ⟨ch, h⟩ := h
  simp only [perform, hl] at h
  split_ifs at h <;> cases h
  · exact Or.inl ⟨rfl, rfl⟩
  · exact Or.inr ⟨rfl, rfl⟩

theorem performs_commit {l l' : Session} {g g' : World} {r : Except PgError Unit}
    (h : Performs .commit l g r l' g') :
    (r = .error .fault ∨ r = .ok ()) ∧ l' = { l with tx := none } := by
  obtain ⟨ch, h⟩ := h
  simp only [perform] at h
  cases htx : l.tx with
  | none => simp [htx] at h
  | some tx =>
    simp only [htx] at h
    split_ifs at h <;> cases h
    · exact ⟨Or.inl rfl, rfl⟩
    · exact ⟨Or.inl rfl, rfl⟩
    · exact ⟨Or.inr rfl, rfl⟩

/-- An acknowledged commit was applied. -/
theorem performs_commit_ok {l l' : Session} {g g' : World} {tx : Tx} (htx : l.tx = some tx)
    (h : Performs .commit l g (.ok ()) l' g') : g'.db = applyAll tx.writes g.db := by
  obtain ⟨ch, h⟩ := h
  simp only [perform, htx] at h
  split_ifs at h <;> cases h
  rfl

theorem performs_sign {kp : EcdsaKeyPair} {m : Bytes} {l l' : Session} {g g' : World}
    {r : Except Unit Bytes} (h : Performs (.sign kp m) l g r l' g') :
    l' = l ∧ (r = .error () ∨ ∃ rnd, r = .ok (ecdsaSign kp.algorithm kp.pkcs8 m rnd)) := by
  obtain ⟨ch, h⟩ := h
  simp only [perform] at h
  split_ifs at h <;> cases h
  · exact ⟨rfl, Or.inl rfl⟩
  · exact ⟨rfl, Or.inr ⟨_, rfl⟩⟩

theorem Fit.view_unique {l : Session} {g : World} (hl : Fit l g) {t : ℕ} {ws : List (Write Row)}
    (htx : l.tx = some ⟨t, ws⟩) : UniqueKeys (applyAll ws g.db) :=
  hl.unique.applyAll (hl.owns _ htx).valid

section Rules

variable {dep : Deployment} {ε α β : Type} {h : Hist} {l : Session}
  {Q : Hist → Session → Except ε β → Prop}

/-- The rule of operations beside the database. -/
theorem keeping_draw {o : Op} (ho : o.plain = true) {f : Resp o → Except ε α}
    {k : α → Handler Op Resp ε β}
    (H : ∀ g g' r, OnResult (fun a => Keeping dep Q (⟨o, r, l, g, l, g'⟩ :: h) l (k a).run)
      (fun e => Q (⟨o, r, l, g, l, g'⟩ :: h) l (.error e)) (f r)) :
    Keeping dep Q h l (attempt o f >>= k).run := by
  refine safe_attempt_bind.mpr fun g _ => ⟨⟨fun ws _ hc => ?_, fun _ _ he => ?_⟩, fun r l' g' hp => ?_⟩
  · cases o <;> first | exact hc.elim | cases ho
  · subst he; cases ho
  · rw [performs_idle (Op.idle_of_plain ho) hp]
    exact H g g' r

/-- The rule of reads outside a transaction. -/
theorem keeping_read {s : Sql} (hs : s.reads = true) (hl : l.tx = none)
    {f : Except PgError s.Out → Except ε α} {k : α → Handler Op Resp ε β}
    (H : ∀ g g' r, Fit l g → (r = .error .fault ∨ ∃ pick, r = (s.exec g.clock pick g.db).result) →
      OnResult (fun a => Keeping dep Q (⟨.sql s, r, l, g, l, g'⟩ :: h) l (k a).run)
      (fun e => Q (⟨.sql s, r, l, g, l, g'⟩ :: h) l (.error e)) (f r)) :
    Keeping dep Q h l (attempt (.sql s) f >>= k).run := by
  refine safe_attempt_bind.mpr fun g hg => ⟨⟨fun ws hne hc => ?_, fun _ _ he => by cases he⟩,
    fun r l' g' hp => ?_⟩
  · obtain ⟨-, pick, a, -, rfl⟩ := hc
    exact absurd (exec_reads hs _ _ _) hne
  · obtain ⟨rfl, hr⟩ := performs_autocommit hl hp
    exact H g g' r hg hr

/-- The rule of single-statement writes. -/
theorem keeping_write {s : Sql} (hl : l.tx = none)
    (hw : ∀ g pick a, Fit l g → (s.exec g.clock pick g.db).result = .ok a →
      (s.exec g.clock pick g.db).writes ≠ [] →
      Wrote dep h l.request (s.exec g.clock pick g.db).writes)
    {f : Except PgError s.Out → Except ε α} {k : α → Handler Op Resp ε β}
    (H : ∀ g g' r, OnResult (fun a => Keeping dep Q (⟨.sql s, r, l, g, l, g'⟩ :: h) l (k a).run)
      (fun e => Q (⟨.sql s, r, l, g, l, g'⟩ :: h) l (.error e)) (f r)) :
    Keeping dep Q h l (attempt (.sql s) f >>= k).run := by
  refine safe_attempt_bind.mpr fun g hg => ⟨⟨fun ws hne hc => ?_, fun _ _ he => by cases he⟩,
    fun r l' g' hp => ?_⟩
  · obtain ⟨-, pick, a, hres, rfl⟩ := hc
    exact hw g pick a hg hres hne
  · obtain ⟨rfl, -⟩ := performs_autocommit hl hp
    exact H g g' r

/-- The rule of statements in a transaction. -/
theorem keeping_query {s : Sql} {t : ℕ} {ws : List (Write Row)} (hl : l.tx = some ⟨t, ws⟩)
    {err : PgError → ε} {k : s.Out → Handler Op Resp ε β}
    (herr : ∀ g g' e, Fit l g → (e = .fault ∨
      ∃ pick, (s.exec t pick (applyAll ws g.db)).result = .error e) →
      Q (⟨.sql s, .error e, l, g, l, g'⟩ :: h) l (.error (err e)))
    (hok : ∀ g g' pick a ws', Fit l g → (s.exec t pick (applyAll ws g.db)).result = .ok a →
      (s.exec t pick (applyAll ws g.db)).writes = ws' →
      ∀ l', l' = { l with tx := some ⟨t, ws ++ ws'⟩ } →
      Keeping dep Q (⟨.sql s, .ok a, l, g, l', g'⟩ :: h) l' (k a).run) :
    Keeping dep Q h l (query err s >>= k).run := by
  refine safe_attempt_bind.mpr fun g hg => ⟨⟨fun ws _ hc => ?_, fun _ _ he => by cases he⟩,
    fun r l' g' hp => ?_⟩
  · cases hl.symm.trans hc.1
  · rcases performs_sql hl hp with ⟨e, rfl, rfl, he⟩ | ⟨pick, a, rfl, hres, hl'⟩
    · exact herr g g' e hg he
    · exact hok g g' pick a _ hg hres rfl l' hl'

/-- The rule of signing. -/
theorem keeping_sign {kp : EcdsaKeyPair} {m : Bytes} (hs : Signs dep h l.request kp m)
    {f : Except Unit Bytes → Except ε α} {k : α → Handler Op Resp ε β}
    (H : ∀ g g' r, (r = .error () ∨ ∃ rnd, r = .ok (ecdsaSign kp.algorithm kp.pkcs8 m rnd)) →
      OnResult (fun a => Keeping dep Q (⟨.sign kp m, r, l, g, l, g'⟩ :: h) l (k a).run)
      (fun e => Q (⟨.sign kp m, r, l, g, l, g'⟩ :: h) l (.error e)) (f r)) :
    Keeping dep Q h l (attempt (.sign kp m) f >>= k).run := by
  refine safe_attempt_bind.mpr fun g _ => ⟨⟨fun _ _ hc => hc.elim, fun _ _ he => ?_⟩,
    fun r l' g' hp => ?_⟩
  · cases he; exact hs
  · obtain ⟨rfl, hr⟩ := performs_sign hp
    exact H g g' r hr

/-- What the body of a transaction owes: writes the contract allows, and `Q` after the commit or
the rollback. -/
def TxPost (dep : Deployment) (err : PgError → ε) (Q : Hist → Session → Except ε α → Prop)
    (h : Hist) (l : Session) : Except ε α → Prop
  | .error e => ∀ g g', Q (⟨.rollback, (), l, g, { l with tx := none }, g'⟩ :: h)
      { l with tx := none } (.error e)
  | .ok a => (∀ tx, l.tx = some tx → tx.writes ≠ [] → Wrote dep h l.request tx.writes) ∧
      ∀ g g', Q (⟨.commit, .error .fault, l, g, { l with tx := none }, g'⟩ :: h)
          { l with tx := none } (.error (err .fault)) ∧
        Q (⟨.commit, .ok (), l, g, { l with tx := none }, g'⟩ :: h) { l with tx := none } (.ok a)

/-- **The rule of transactions.** -/
theorem keeping_transaction {R : Hist → Session → Except ε α → Prop} (hl : l.tx = none)
    {err : PgError → ε} {body : Handler Op Resp ε α}
    (hbegin : ∀ g g', R (⟨.begin, .error .fault, l, g, l, g'⟩ :: h) l (.error (err .fault)))
    (hbody : ∀ g g' l', l' = { l with tx := some ⟨g.clock, []⟩ } →
      Keeping dep (TxPost dep err R) (⟨.begin, .ok (), l, g, l', g'⟩ :: h) l' body.run) :
    Keeping dep R h l (transaction err body).run := by
  refine safe_call.mpr fun g _ => ⟨⟨fun _ _ hc => hc.elim, fun _ _ he => by cases he⟩,
    fun r l' g' hp => ?_⟩
  rcases performs_begin hl hp with ⟨rfl, rfl⟩ | ⟨rfl, hl'⟩
  · exact hbegin g g'
  · refine safe_bind.mpr (Safe.mono (fun h₁ l₁ r hQ => ?_) (hbody g g' l' hl'))
    cases r with
    | error e =>
      refine safe_call.mpr fun g₁ _ => ⟨⟨fun _ _ hc => hc.elim, fun _ _ he => by cases he⟩,
        fun r₁ l₂ g₂ hp => ?_⟩
      obtain ⟨ch, hp⟩ := hp
      cases hp
      exact hQ g₁ _
    | ok a =>
      refine safe_call.mpr fun g₁ _ => ⟨⟨fun ws hne hc => ?_, fun _ _ he => by cases he⟩,
        fun r₁ l₂ g₂ hp => ?_⟩
      · obtain ⟨tx, htx, rfl⟩ := hc
        exact hQ.1 tx htx hne
      · obtain ⟨hr, rfl⟩ := performs_commit hp
        rcases hr with rfl | rfl
        · exact (hQ.2 g₁ g₂).1
        · exact (hQ.2 g₁ g₂).2

end Rules

end Identity
