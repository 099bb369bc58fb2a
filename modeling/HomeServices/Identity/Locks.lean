import HomeServices.Concurrent.Protocol
import HomeServices.Identity.Runs

/-!
# The locks a call holds

A transaction takes its row locks in one order: a new user, tokens, a user that is there, events.
Which keys a session may have locked follows from the next operation of its call.

* `Sql.level`, `LockPhase`, `lockOrder`: the order of the statements, where a call is in it, the
  protocol.
* `Orderly`, **`follows_handler`**: every handler keeps the order.
* `Held`, `Holding`: the keys that a session may have locked in each phase.
* **`holding_reachable`**: it has locked no others; `owner_reachable`: locks have an owner.
-/

namespace Identity

open ReadCommitted Interaction

variable [Platform]

/-! ## The order of the statements -/

/-- The place of a statement that locks keys in the order of a transaction. -/
def Sql.level : Sql → Option ℕ
  | insertUser .. => some 0
  | insertToken .. | consumeToken _ => some 1
  | markEmailVerified _ | updatePassword .. => some 2
  | insertEvent .. => some 3
  | _ => none

/-- Outside a transaction, or inside one past the statements below a level. -/
inductive LockPhase where
  | outside
  | inside (level : ℕ)
  deriving DecidableEq

def LockPhase.rank : LockPhase → ℕ
  | outside => 0
  | inside n => n

def lockOrder : Protocol Op Resp LockPhase where
  allows
    | .outside, .commit | .outside, .rollback => False
    | .outside, _ => True
    | .inside _, .begin => False
    | .inside n, .sql s => (∃ hash, s = .tokenByHash hash) ∨ ∃ m, s.level = some m ∧ n ≤ m
    | .inside _, _ => True
  next
    | .outside, .begin, r => if r.isOk then .inside 0 else .outside
    | .inside n, .sql s, r => if r.isOk then s.level.elim (.inside n) fun m => .inside (m + 1)
        else .inside n
    | .inside _, .commit, _ | .inside _, .rollback, _ => .outside
    | s, _, _ => s

/-- Operations that open and close no transaction. -/
def Op.single : Op → Bool
  | .begin | .commit | .rollback => false
  | _ => true

theorem allows_outside {o : Op} (ho : o.single = true) : lockOrder.allows .outside o := by
  cases o <;> first | exact trivial | cases ho

theorem next_outside {o : Op} (ho : o.single = true) (r : Resp o) :
    lockOrder.next .outside o r = .outside := by
  cases o <;> first | rfl | cases ho

theorem allows_plain {o : Op} (ho : o.plain = true) (s : LockPhase) : lockOrder.allows s o := by
  cases s <;> cases o <;> first | exact trivial | cases ho

theorem next_plain {o : Op} (ho : o.plain = true) (s : LockPhase) (r : Resp o) :
    lockOrder.next s o r = s := by
  cases s <;> cases o <;> first | rfl | cases ho

variable {ε α β : Type}

/-- The handler keeps the order and leaves no transaction open. -/
abbrev Orderly (x : Handler Op Resp ε α) : Prop :=
  lockOrder.Follows (fun s _ => s = .outside) .outside x.run

theorem orderly_pure (a : α) : Orderly (pure a : Handler Op Resp ε α) := rfl

theorem orderly_fromExcept (x : Except ε α) : Orderly (fromExcept x : Handler Op Resp ε α) := rfl

theorem orderly_bind {x : Handler Op Resp ε α} {f : α → Handler Op Resp ε β} (hx : Orderly x)
    (hf : ∀ a, Orderly (f a)) : Orderly (x >>= f) := by
  refine Protocol.follows_run_bind.mpr (hx.mono ?_)
  rintro _ r rfl
  cases r with
  | error e => rfl
  | ok a => exact hf a

theorem orderly_attempt {o : Op} (ho : o.single = true) (d : Resp o → Except ε α) :
    Orderly (attempt o d) := ⟨allows_outside ho, fun r => next_outside ho r⟩

theorem orderly_attempt_bind {o : Op} (ho : o.single = true) {d : Resp o → Except ε α}
    {f : α → Handler Op Resp ε β} (hf : ∀ a, Orderly (f a)) : Orderly (attempt o d >>= f) :=
  orderly_bind (orderly_attempt ho d) hf

theorem orderly_fromExcept_bind {x : Except ε α} {f : α → Handler Op Resp ε β}
    (hf : ∀ a, Orderly (f a)) : Orderly (fromExcept x >>= f) := orderly_bind (orderly_fromExcept x) hf

/-- The body of a transaction keeps the order from a level on. -/
abbrev Ordered (n : ℕ) (x : Handler Op Resp ε α) : Prop :=
  lockOrder.Follows (fun s _ => ∃ m, s = .inside m) (.inside n) x.run

theorem ordered_pure {n : ℕ} (a : α) : Ordered n (pure a : Handler Op Resp ε α) := ⟨n, rfl⟩

theorem ordered_fromExcept {n : ℕ} (x : Except ε α) :
    Ordered n (fromExcept x : Handler Op Resp ε α) := ⟨n, rfl⟩

theorem ordered_fromExcept_bind {n : ℕ} {x : Except ε α} {f : α → Handler Op Resp ε β}
    (hf : ∀ a, Ordered n (f a)) : Ordered n (fromExcept x >>= f) := by
  refine Protocol.follows_fromExcept_bind.mpr ?_
  cases x with
  | error e => exact ⟨n, rfl⟩
  | ok a => exact hf a

theorem ordered_draw_bind {n : ℕ} {o : Op} (ho : o.plain = true) {d : Resp o → Except ε α}
    {f : α → Handler Op Resp ε β} (hf : ∀ a, Ordered n (f a)) : Ordered n (attempt o d >>= f) := by
  refine Protocol.follows_attempt_bind.mpr ⟨allows_plain ho _, fun r => ?_⟩
  rw [next_plain ho]
  cases d r with
  | error e => exact ⟨n, rfl⟩
  | ok a => exact hf a

/-- The one read in a transaction. -/
theorem ordered_tokenByHash_bind {n : ℕ} {hash : Bytes} {err : PgError → ε}
    {f : Option TokenRow → Handler Op Resp ε β} (hf : ∀ a, Ordered n (f a)) :
    Ordered n (query err (.tokenByHash hash) >>= f) := by
  refine Protocol.follows_attempt_bind.mpr ⟨Or.inl ⟨hash, rfl⟩, fun r => ?_⟩
  have hnext : lockOrder.next (.inside n) (.sql (.tokenByHash hash)) r = .inside n := ite_self _
  rw [hnext]
  cases r with
  | error e => exact ⟨n, rfl⟩
  | ok a => exact hf a

/-- A statement of a level that is still to come. -/
theorem ordered_query_bind {n m : ℕ} {s : Sql} (hlevel : s.level = some m) (hn : n ≤ m)
    {err : PgError → ε} {f : s.Out → Handler Op Resp ε β} (hf : ∀ a, Ordered (m + 1) (f a)) :
    Ordered n (query err s >>= f) := by
  refine Protocol.follows_attempt_bind.mpr ⟨Or.inr ⟨m, hlevel, hn⟩, fun r => ?_⟩
  have hnext : lockOrder.next (.inside n) (.sql s) r =
      if r.isOk then .inside (m + 1) else .inside n := by
    simp only [lockOrder, hlevel, Option.elim_some]
  rw [hnext]
  cases r with
  | error e => exact ⟨n, rfl⟩
  | ok a => exact hf a

/-- **The rule of transactions.** -/
theorem orderly_transaction {err : PgError → ε} {body : Handler Op Resp ε α} (hbody : Ordered 0 body) :
    Orderly (transaction err body) := by
  refine ⟨trivial, fun r => ?_⟩
  cases r with
  | error e => rfl
  | ok u =>
    refine Protocol.follows_bind.mpr (hbody.mono ?_)
    rintro _ r ⟨m, rfl⟩
    cases r with
    | error e => exact ⟨trivial, fun _ => rfl⟩
    | ok a =>
      refine ⟨trivial, fun r => ?_⟩
      cases r <;> rfl

/-! ## The handlers keep the order -/

theorem orderly_signUp (webBaseUrl username email givenName familyName : String)
    (password : Option String) :
    Orderly (SignUp.execute webBaseUrl username email givenName familyName password) := by
  unfold SignUp.execute hashBlocking generateVerificationToken
  simp only [bind_assoc, pure_bind]
  repeat first
    | refine orderly_fromExcept_bind fun _ => ?_
    | refine orderly_attempt_bind rfl fun _ => ?_
  refine orderly_transaction (ordered_query_bind rfl (Nat.le_refl 0) fun _ => ?_)
  refine ordered_query_bind rfl (Nat.le_refl 1) fun _ => ?_
  exact ordered_query_bind rfl (by decide : 2 ≤ 3) fun _ => ordered_pure ()

theorem orderly_resendVerification (webBaseUrl email : String) :
    Orderly (ResendVerification.execute webBaseUrl email) := by
  unfold ResendVerification.execute ResendVerification.issue generateVerificationToken
  simp only [bind_assoc, pure_bind]
  refine orderly_attempt_bind rfl fun _ => orderly_attempt_bind rfl fun user => ?_
  cases user with
  | none => exact orderly_pure ()
  | some user =>
    simp only
    split_ifs
    · refine orderly_attempt_bind rfl fun _ => ?_
      repeat first
        | refine orderly_fromExcept_bind fun _ => ?_
        | refine orderly_attempt_bind rfl fun _ => ?_
      refine orderly_transaction (ordered_query_bind rfl (by decide : 0 ≤ 1) fun _ => ?_)
      exact ordered_query_bind rfl (by decide : 2 ≤ 3) fun _ => ordered_pure ()
    · exact orderly_pure ()

theorem orderly_verifyEmail (rawToken : String) : Orderly (VerifyEmail.execute rawToken) := by
  unfold VerifyEmail.execute VerifyEmail.consumeToken VerifyEmail.markEmailVerified
  refine orderly_fromExcept_bind fun _ => orderly_attempt_bind rfl fun _ => ?_
  refine orderly_transaction (ordered_tokenByHash_bind fun _ => ?_)
  refine ordered_fromExcept_bind fun _ => ordered_draw_bind rfl fun _ => ?_
  refine ordered_fromExcept_bind fun _ => ?_
  simp only [bind_assoc]
  refine ordered_query_bind rfl (by decide : 0 ≤ 1) fun _ => ordered_fromExcept_bind fun _ => ?_
  exact ordered_query_bind rfl (Nat.le_refl 2) fun _ => ordered_fromExcept _

theorem orderly_updatePassword (userId : Uuid) (currentPassword newPassword : String) :
    Orderly (UpdatePassword.execute userId currentPassword newPassword) := by
  unfold UpdatePassword.execute hashBlocking verifyBlocking
  simp only [bind_assoc]
  repeat first
    | refine orderly_fromExcept_bind fun _ => ?_
    | refine orderly_attempt_bind rfl fun _ => ?_
  refine orderly_transaction (ordered_query_bind rfl (by decide : 0 ≤ 2) fun _ => ?_)
  exact ordered_query_bind rfl (Nat.le_refl 3) fun _ => ordered_pure ()

theorem orderly_updateProfile (userId : Uuid) (givenName familyName username : Option String) :
    Orderly (UpdateProfile.execute userId givenName familyName username) := by
  refine orderly_fromExcept_bind fun _ => orderly_fromExcept_bind fun _ => ?_
  exact orderly_attempt_bind rfl fun _ => orderly_attempt_bind rfl fun _ => orderly_pure ()

theorem orderly_ensureSigningKey (kek : Kek) : Orderly (EnsureSigningKey.execute kek) := by
  unfold EnsureSigningKey.execute generateKeyPair encryptPrivateKey
  refine orderly_attempt_bind rfl fun _ => orderly_attempt_bind rfl fun count => ?_
  by_cases hcount : 0 < count
  · rw [if_pos hcount]
    exact orderly_pure ()
  · rw [if_neg hcount]
    simp only [bind_assoc, pure_bind]
    repeat first
      | refine orderly_fromExcept_bind fun _ => ?_
      | refine orderly_attempt_bind rfl fun _ => ?_
    exact orderly_pure ()

theorem orderly_login (kek : Kek) (email password : String) :
    Orderly (Login.execute kek email password) := by
  unfold Login.execute Login.issue verifyBlocking getActiveSigningKey signJwt
    generateVerificationToken
  simp only [bind_assoc, pure_bind]
  repeat first
    | refine orderly_fromExcept_bind fun _ => ?_
    | refine orderly_attempt_bind rfl fun _ => ?_
  exact orderly_pure _

theorem orderly_authenticate (authorization : Option Bytes) : Orderly (authenticate authorization) := by
  unfold authenticate listPublicJwks
  simp only [bind_assoc]
  repeat first
    | refine orderly_fromExcept_bind fun _ => ?_
    | refine orderly_attempt_bind rfl fun _ => ?_
  exact orderly_fromExcept _

variable {dep : Deployment} {scope : Scope} {db : List Row} {clock : ℕ} {c : State}

/-- **Every handler keeps the order and leaves no transaction open.** -/
theorem follows_handler (dep : Deployment) (req : Request) :
    lockOrder.Follows (fun s _ => s = .outside) .outside (handler dep req) := by
  have lift : ∀ {ε α : Type} {x : Handler Op Resp ε α} {f : Except ε α → Reply}, Orderly x →
      lockOrder.Follows (fun s _ => s = .outside) .outside (x.run.bind fun r => .ret (f r)) :=
    fun hx => Protocol.follows_bind.mpr hx
  cases req with
  | ensureSigningKey => exact lift (orderly_ensureSigningKey _)
  | signUp => exact lift (orderly_signUp ..)
  | resendVerification => exact lift (orderly_resendVerification ..)
  | verifyEmail => exact lift (orderly_verifyEmail _)
  | login => exact lift (orderly_login ..)
  | authenticate => exact lift (orderly_authenticate _)
  | updateProfile => exact lift (orderly_updateProfile ..)
  | updatePassword => exact lift (orderly_updatePassword ..)
  | setKeyStatus | setUserStatus | softDelete | markPublished => exact ⟨trivial, fun _ => rfl⟩

theorem follows_thread (hc : Reachable (machine dep scope) (boot db clock) c) {i : ℕ}
    {t : Thread Op Resp Session World Reply} (ht : c.thread i = some t) :
    lockOrder.Follows (fun s _ => s = .outside) (lockOrder.phase .outside t.hist) t.prog := by
  refine Protocol.follows_reachable (fun _ => rfl) (fun _ => rfl) ?_ hc i t ht
  rintro _ _ _ ⟨req, -, -, rfl⟩
  exact follows_handler dep req

/-! ## The keys a session may have locked -/

/-- In a transaction past level `n`, the session may have locked the key. Before it reaches the
level of users that are there, the keys of a user are those of one it has inserted. -/
def Held (n : ℕ) (ws : List (Write Row)) : Ref → Prop
  | .token _ | .tokenHash _ => 2 ≤ n
  | .event _ => 4 ≤ n
  | k@(.user _) | k@(.username _) | k@(.email _) =>
    1 ≤ n ∧ (n < 3 → ∃ r ws', ws = ins r :: ws' ∧ k ∈ r.keys)
  | .key _ | .refresh _ | .refreshHash _ => False

/-- What a session in the phase has locked. -/
def Holding (l : Session) (g : World) : LockPhase → Prop
  | .outside => l.tx = none ∧ ∀ k, g.store.lock k ≠ some l.pid
  | .inside n => ∃ tx, l.tx = some tx ∧ (n = 0 → tx.writes = []) ∧
      ∀ k, g.store.lock k = some l.pid → Held n tx.writes k

/-- Later phases may have locked more. -/
theorem Held.mono {n m : ℕ} {ws ws' : List (Write Row)} {k : Ref} (hnm : n ≤ m)
    (h : Held n ws k) : Held m (ws ++ ws') k := by
  have hfresh : (n < 3 → ∃ r ws', ws = ins r :: ws' ∧ k ∈ r.keys) → m < 3 →
      ∃ r ws'', ws ++ ws' = ins r :: ws'' ∧ k ∈ r.keys := fun hf hm => by
    obtain ⟨r, ws₁, rfl, hk⟩ := hf (by omega)
    exact ⟨r, ws₁ ++ ws', rfl, hk⟩
  cases k with
  | token | tokenHash | event => exact le_trans (show _ ≤ n from h) hnm
  | user | username | email => exact ⟨le_trans h.1 hnm, hfresh h.2⟩
  | key | refresh | refreshHash => exact h

theorem touched_insertRow (view : List Row) (r : Row) : (insertRow view r).touched = r.keys := by
  unfold insertRow
  split <;> rfl

theorem touched_insertOwned (view : List Row) (userId : Uuid) (constraint : String) (r : Row) :
    (insertOwned view userId constraint r).touched = r.keys := by
  unfold insertOwned
  split_ifs
  · exact touched_insertRow view r
  · rfl

/-- An update locks keys of the row it looks for, before and after. -/
theorem touched_updateRow {view : List Row} {k k' : Ref} {f : Row → Option Row}
    (h : k' ∈ (updateRow view k f).touched) :
    ∃ o ∈ view, o.primary = k ∧ (k' ∈ o.keys ∨ ∃ r, f o = some r ∧ k' ∈ r.keys) := by
  unfold updateRow at h
  cases hfind : view.find? fun r => r.primary = k with
  | none => simp only [hfind, List.not_mem_nil] at h
  | some o =>
    refine ⟨o, List.mem_of_find?_eq_some hfind, by simpa using List.find?_some hfind, ?_⟩
    cases hfo : f o with
    | none =>
      simp only [hfind, hfo] at h
      exact Or.inl h
    | some r =>
      simp only [hfind, hfo] at h
      have hkeys : k' ∈ r.keys ++ o.keys := by
        split at h <;> exact h
      rcases List.mem_append.mp hkeys with hr | ho
      · exact Or.inr ⟨r, rfl, hr⟩
      · exact Or.inl ho

/-- A statement that changes no name or address of a live user locks keys of the user. -/
theorem touched_updateLive {view : List Row} {id : Uuid} {f : StoredUser → StoredUser} {k : Ref}
    (h : k ∈ (updateLive view id f).touched)
    (hf : ∀ u, (Row.user (f u)).keys = (Row.user u).keys) : ∃ u, .user u ∈ view ∧ k ∈ (Row.user u).keys := by
  obtain ⟨o, ho, hid, hk⟩ := touched_updateRow h
  cases o with
  | user u =>
    refine ⟨u, ho, hk.elim (fun hk => hk) ?_⟩
    rintro ⟨r, hr, hk⟩
    simp only at hr
    split_ifs at hr
    · cases hr
      exact hf u ▸ hk
    · cases hr
  | _ => cases hid

theorem mem_keys_user {u : StoredUser} {k : Ref} (h : k ∈ (Row.user u).keys) :
    k = .user u.id ∨ k = .username (lower u.username) ∨ k = .email (lower u.email) := by
  simp only [Row.keys, List.mem_cons] at h
  refine h.imp_right fun h => ?_
  split_ifs at h
  · simpa using h
  · cases h

theorem mem_keys_token {t : StoredToken} {k : Ref} (h : k ∈ (Row.token t).keys) :
    k = .token t.id ∨ k = .tokenHash t.tokenHash := by
  simp only [Row.keys, List.mem_cons] at h
  refine h.imp_right fun h => ?_
  split_ifs at h
  · simpa using h
  · cases h

/-- Keys of a token may be locked past the level of tokens. -/
theorem held_token {t : StoredToken} {k : Ref} (h : k ∈ (Row.token t).keys) {n : ℕ} (hn : 2 ≤ n)
    (ws : List (Write Row)) : Held n ws k := by
  rcases mem_keys_token h with rfl | rfl <;> exact hn

/-- Keys of a user may be locked past the level of users. -/
theorem held_user {u : StoredUser} {k : Ref} (h : k ∈ (Row.user u).keys) {n : ℕ} (hn : 3 ≤ n)
    (ws : List (Write Row)) : Held n ws k := by
  rcases mem_keys_user h with rfl | rfl | rfl <;>
    exact ⟨by omega, fun hlt => absurd hn (Nat.not_le.mpr hlt)⟩

theorem held_new_user {u : StoredUser} {k : Ref} (h : k ∈ (Row.user u).keys) {n : ℕ} (hn : 1 ≤ n)
    (ws : List (Write Row)) : Held n (ins (.user u) :: ws) k := by
  have hfresh : n < 3 → ∃ r ws', ins (Row.user u) :: ws = ins r :: ws' ∧ k ∈ r.keys :=
    fun _ => ⟨_, ws, rfl, h⟩
  rcases mem_keys_user h with rfl | rfl | rfl <;> exact ⟨hn, hfresh⟩

/-- A consumed token locks no new key. -/
theorem touched_consumeToken {id : Uuid} {now pick : ℕ} {view : List Row} {k : Ref}
    (h : k ∈ ((Sql.consumeToken id).exec now pick view).touched) :
    ∃ t : StoredToken, k ∈ (Row.token t).keys := by
  obtain ⟨o, -, hid, hk⟩ := touched_updateRow h
  cases o with
  | token t =>
    rcases hk with hk | ⟨r, hr, hk⟩
    · exact ⟨t, hk⟩
    · obtain ⟨t', -, rfl⟩ := Option.map_eq_some_iff.mp hr
      exact ⟨t', hk⟩
  | _ => cases hid

/-- The keys a statement of a transaction locks are those of the next phase. -/
theorem held_touched {s : Sql} {n m now pick : ℕ} {ws : List (Write Row)} {view : List Row} {a : s.Out}
    (hlevel : s.level = some m) (hn : n ≤ m) (hws : n = 0 → ws = [])
    (hres : (s.exec now pick view).result = .ok a) {k : Ref}
    (hk : k ∈ (s.exec now pick view).touched) :
    Held (m + 1) (ws ++ (s.exec now pick view).writes) k := by
  cases s with
  | insertUser id username email givenName familyName passwordHash =>
    cases hlevel
    have hwrites : ws ++ (Sql.exec now pick view (.insertUser id username email givenName familyName
        passwordHash)).writes = [ins (.user (newUser id username email givenName familyName passwordHash
          now))] := by
      rw [hws (Nat.le_zero.mp hn)]
      exact insertRow_ok hres
    rw [hwrites]
    exact held_new_user (touched_insertRow _ _ ▸ hk) (Nat.le_refl 1) []
  | insertToken =>
    cases hlevel
    exact held_token (touched_insertOwned _ _ _ _ ▸ hk) (Nat.le_refl 2) _
  | consumeToken =>
    cases hlevel
    obtain ⟨t, ht⟩ := touched_consumeToken hk
    exact held_token ht (Nat.le_refl 2) _
  | markEmailVerified | updatePassword =>
    cases hlevel
    obtain ⟨u, -, hu⟩ := touched_updateLive hk fun _ => rfl
    exact held_user hu (Nat.le_refl 3) _
  | insertEvent id =>
    cases hlevel
    change k ∈ (insertRow view (.event _)).touched at hk
    rw [touched_insertRow] at hk
    obtain rfl := List.mem_singleton.mp hk
    exact Nat.le_refl 4
  | _ => cases hlevel

/-! ## Steps -/

/-- A statement in a transaction changes nothing, or answers and locks its keys. -/
theorem performs_acquire {s : Sql} {l l' : Session} {g g' : World} {r : Except PgError s.Out} {tx : Tx}
    (hl : l.tx = some tx) (h : Performs (.sql s) l g r l' g') :
    (∃ e, r = .error e ∧ l' = l ∧ g' = g) ∨ ∃ pick a, r = .ok a ∧
      (s.exec tx.startedAt pick (applyAll tx.writes g.db)).result = .ok a ∧
      l' = { l with tx := some { tx with writes := tx.writes ++
        (s.exec tx.startedAt pick (applyAll tx.writes g.db)).writes } } ∧
      g' = ⟨g.store.acquire l.pid (s.exec tx.startedAt pick (applyAll tx.writes g.db)).touched,
        g.clock⟩ := by
  obtain ⟨ch, h⟩ := h
  simp only [perform, hl] at h
  split_ifs at h with hf hfree
  · cases h
    exact Or.inl ⟨.fault, rfl, rfl, rfl⟩
  · cases hres : (s.exec tx.startedAt ch.pick (applyAll tx.writes g.db)).result with
    | error e => simp only [hres] at h; cases h; exact Or.inl ⟨e, rfl, rfl, rfl⟩
    | ok a => simp only [hres] at h; cases h; exact Or.inr ⟨_, a, rfl, hres, rfl, rfl⟩

omit [Platform] in
/-- A session that gives up its locks has none. -/
theorem lock_release {pid : ℕ} {st : Store Row Ref} (k : Ref) :
    (st.release pid).lock k ≠ some pid := by
  change (if st.lock k = some pid then none else st.lock k) ≠ some pid
  split_ifs with h
  · simp
  · exact h

/-- **Nobody takes or gives up the locks of another.** -/
theorem Effects.lock_other {o : Op} {l l' : Session} {g g' : World} (h : Effects l g o l' g') {j : ℕ}
    (hne : j ≠ l.pid) (k : Ref) : g'.store.lock k = some j ↔ g.store.lock k = some j := by
  have hrelease : ∀ st : Store Row Ref, (st.release l.pid).lock k = some j ↔ st.lock k = some j := by
    intro st
    change (if st.lock k = some l.pid then .none else st.lock k) = some j ↔ _
    split_ifs with hk
    · simp [hk, Ne.symm hne]
    · rfl
  have hacquire : ∀ refs, g.store.Free l.pid refs →
      ((g.store.acquire l.pid refs).lock k = some j ↔ g.store.lock k = some j) := by
    intro refs hfree
    change (if k ∈ refs then some l.pid else g.store.lock k) = some j ↔ _
    split_ifs with hk
    · rcases hfree k hk with hn | hs <;> simp [*, Ne.symm hne]
    · rfl
  cases h with
  | none | begin => exact Iff.rfl
  | acquire _ _ _ hfree => exact hacquire _ hfree
  | autocommit _ _ _ hfree => exact (hrelease _).trans (hacquire _ hfree)
  | commit | release => exact hrelease _

/-- A session outside a transaction that opens none has no lock after its step. -/
theorem holding_outside {o : Op} {l l' : Session} {g g' : World} (ho : o.single = true)
    (hl : Holding l g .outside) (h : Effects l g o l' g') : Holding l' g' .outside := by
  obtain ⟨htx, hlock⟩ := hl
  cases h with
  | none => exact ⟨htx, hlock⟩
  | begin | commit => cases ho
  | acquire htx' => cases htx.symm.trans htx'
  | autocommit => exact ⟨htx, fun k => lock_release k⟩
  | release ho' => rcases ho' with rfl | rfl <;> cases ho

/-- **A step keeps what the phases promise.** -/
theorem holding_step {s : LockPhase} {o : Op} {r : Resp o} {l l' : Session} {g g' : World}
    (hallows : lockOrder.allows s o) (hl : Holding l g s) (h : Performs o l g r l' g') :
    Holding l' g' (lockOrder.next s o r) := by
  cases s with
  | outside =>
    cases o with
    | begin =>
      obtain ⟨htx, hlock⟩ := hl
      obtain ⟨ch, h⟩ := h
      simp only [perform, htx] at h
      split_ifs at h <;> cases h
      · exact ⟨htx, hlock⟩
      · exact ⟨_, rfl, fun _ => rfl, fun k hk => absurd hk (hlock k)⟩
    | commit | rollback => exact hallows.elim
    | _ => exact holding_outside rfl hl (performs_effects h)
  | inside n =>
    cases o with
    | begin => exact hallows.elim
    | commit =>
      obtain ⟨tx, htx, -⟩ := hl
      obtain ⟨ch, h⟩ := h
      simp only [perform, htx] at h
      split_ifs at h <;> cases h <;> exact ⟨rfl, fun k => lock_release k⟩
    | rollback =>
      obtain ⟨ch, h⟩ := h
      cases h
      exact ⟨rfl, fun k => lock_release k⟩
    | sql s =>
      obtain ⟨tx, htx, hempty, hheld⟩ := hl
      rcases performs_acquire htx h with ⟨e, rfl, rfl, rfl⟩ | ⟨pick, a, rfl, hres, rfl, rfl⟩
      · exact ⟨tx, htx, hempty, hheld⟩
      · rcases hallows with ⟨hash, rfl⟩ | ⟨m, hlevel, hn⟩
        · exact ⟨_, rfl, fun h0 => by rw [hempty h0]; rfl, fun k hk =>
            (hheld k hk).mono (Nat.le_refl n)⟩
        · simp only [lockOrder, hlevel]
          refine ⟨_, rfl, fun h0 => absurd h0 (Nat.succ_ne_zero m), fun k hk => ?_⟩
          change (if k ∈ _ then some l.pid else g.store.lock k) = some l.pid at hk
          split_ifs at hk with hmem
          · exact held_touched hlevel hn hempty hres hmem
          · exact (hheld k hk).mono (by omega)
    | _ =>
      cases performs_effects h with
      | none => exact hl
      | release ho => rcases ho with ho | ho <;> cases ho

/-! ## Runs -/

/-- **Every lock has an owner.** -/
theorem owner_reachable (hc : Reachable (machine dep scope) (boot db clock) c) :
    ∀ k j, c.glob.store.lock k = some j → c.thread j ≠ none := by
  refine hc.invariant (I := fun c => ∀ k j, c.glob.store.lock k = some j → c.thread j ≠ none)
    (fun k j h => by cases h) ?_
  intro c c' hc ih hs k j hk hnone
  have hstay : c.thread j = none := by
    cases hj : c.thread j with
    | none => rfl
    | some t =>
      obtain ⟨t', ht', -⟩ := hs.hist_suffix hj
      cases hnone.symm.trans ht'
  refine ih k j ?_ hstay
  cases hs with
  | env henv =>
    obtain ⟨t, -, rfl⟩ := henv
    exact hk
  | spawn => exact hk
  | @call i l o k' h r l' g hi hst =>
    have hpid : l.pid = i := (origin_reachable hc i _ hi).pid
    have hne : j ≠ l.pid := by
      rintro rfl
      rw [hpid] at hstay
      cases hstay.symm.trans hi
    exact ((performs_effects hst.1).lock_other hne k).mp hk
  | again _ hag => cases hag

theorem Holding.of_lock {s : LockPhase} {l : Session} {g g' : World}
    (hlock : ∀ k, g'.store.lock k = some l.pid ↔ g.store.lock k = some l.pid) (h : Holding l g s) :
    Holding l g' s := by
  cases s with
  | outside => exact ⟨h.1, fun k hk => h.2 k ((hlock k).mp hk)⟩
  | inside n =>
    obtain ⟨tx, htx, hempty, hheld⟩ := h
    exact ⟨tx, htx, hempty, fun k hk => hheld k ((hlock k).mp hk)⟩

/-- Where a thread is in its transaction. -/
def lockPhase (t : Thread Op Resp Session World Reply) : LockPhase := lockOrder.phase .outside t.hist

/-- **In every run a session has locked only what its phase allows.** -/
theorem holding_reachable (hc : Reachable (machine dep scope) (boot db clock) c) {i : ℕ}
    {t : Thread Op Resp Session World Reply} (ht : c.thread i = some t) :
    Holding t.loc c.glob (lockPhase t) := by
  refine Protocol.promise_reachable (P := lockOrder) (Q := fun s _ => s = .outside)
    (J := fun _ s l g => Holding l g s)
    (fun _ => rfl) (fun _ => rfl) ?_ ?_ ?_ ?_ ?_ hc i t ht
  · rintro i l p ⟨req, -, -, rfl⟩
    exact follows_handler dep req
  · rintro c i l p hc hi ⟨req, -, rfl, -⟩
    exact ⟨rfl, fun k hk => owner_reachable hc k i hk hi⟩
  · intro c i l o k h r l' g' _ _ hallows hold hst
    exact holding_step hallows hold hst.1
  · intro c i l o k h r l' g' hc hi hst j t hne hj hold
    have hpid : l.pid = i := (origin_reachable hc i _ hi).pid
    have hpid' : t.loc.pid = j := (origin_reachable hc j t hj).pid
    refine hold.of_lock fun k => ?_
    exact (performs_effects hst.1).lock_other (by rw [hpid, hpid']; exact hne) k
  · rintro i s l g g' ⟨t, -, rfl⟩ hold
    exact hold.of_lock fun k => Iff.rfl

/-- Where a call was in its transaction at each of its steps, and what it had locked. -/
theorem holding_of_happened (hc : Reachable (machine dep scope) (boot db clock) c) {i : ℕ} {e : Event}
    {h : Hist} (he : Happened c i e h) : lockOrder.allows (lockOrder.phase .outside h) e.op ∧
      Holding e.loc e.pre (lockOrder.phase .outside h) := by
  refine hc.entries (P := fun _ h e => lockOrder.allows (lockOrder.phase .outside h) e.op ∧
    Holding e.loc e.pre (lockOrder.phase .outside h)) (fun _ => rfl) ?_ i e h he
  intro c i e h k hc ht _ hpre
  rw [hpre]
  exact ⟨(follows_thread hc ht).1, holding_reachable hc ht⟩

end Identity
