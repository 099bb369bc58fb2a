import HomeServices.Concurrent.ReadCommitted
import HomeServices.Identity.Platform

/-!
# The tables

The rows of the five tables the service writes, the keys their primary keys and unique indexes
give them, and what no statement of the service ever does to a row. Times are nanoseconds since
the epoch.

* `StoredUser`, `StoredToken`, `StoredEvent`, `StoredKey`, `StoredRefresh`, `Row`.
* `Ref`, `Row.keys`: partial indexes give keys to live users and to unconsumed tokens only.
* `Evolves`, `Grows`: rows keep their identity, addresses, hashes and payloads; a deleted user
  stays deleted, a consumed token consumed; **`grows_applyAll`**, **`filterMap_applyAll`**.
-/

namespace Identity

open ReadCommitted

inductive UserStatus where
  | pendingVerification
  | active
  | suspended
  | locked
  | deleted
  deriving DecidableEq, Repr

/-- A user account, as the service reads it. -/
structure User where
  id : Uuid
  username : String
  email : String
  givenName : String
  familyName : String
  passwordHash : String
  emailVerified : Bool
  status : UserStatus
  createdAt : ℕ
  updatedAt : ℕ
  deriving DecidableEq

/-- A row of `users`. -/
structure StoredUser extends User where
  deletedAt : Option ℕ
  deriving DecidableEq

/-- What `verify_email` reads of a token. -/
structure TokenRow where
  id : Uuid
  userId : Uuid
  expiresAt : ℕ
  deriving DecidableEq

/-- A row of `email_verification_tokens`. -/
structure StoredToken extends TokenRow where
  tokenHash : Bytes
  consumedAt : Option ℕ
  createdAt : ℕ
  deriving DecidableEq

/-- What the publisher reads of an event. -/
structure OutboxRow where
  id : Uuid
  aggregateType : String
  aggregateId : Uuid
  eventType : String
  payload : Bytes
  traceId : Option String
  spanId : Option String
  createdAt : ℕ
  deriving DecidableEq

/-- A row of `outbox`. -/
structure StoredEvent extends OutboxRow where
  publishedAt : Option ℕ
  deriving DecidableEq

/-- A row of `signing_keys`; operators may write any status. -/
structure StoredKey where
  kid : String
  algorithm : String
  encryptedPrivateKey : Bytes
  publicJwk : Json
  status : String
  createdAt : ℕ

/-- A row of `refresh_tokens`. -/
structure StoredRefresh where
  id : Uuid
  userId : Uuid
  tokenHash : Bytes
  expiresAt : ℕ
  revokedAt : Option ℕ
  createdAt : ℕ
  deriving DecidableEq

/-- A row of some table. -/
inductive Row where
  | user (u : StoredUser)
  | token (t : StoredToken)
  | event (e : StoredEvent)
  | key (k : StoredKey)
  | refresh (r : StoredRefresh)

/-- A value of a unique index. -/
inductive Ref where
  | user (id : Uuid)
  | username (name : String)
  | email (address : String)
  | token (id : Uuid)
  | tokenHash (hash : Bytes)
  | event (id : Uuid)
  | key (kid : String)
  | refresh (id : Uuid)
  | refreshHash (hash : Bytes)
  deriving DecidableEq

/-- The name Postgres reports when the index is violated. -/
def Ref.constraint : Ref → String
  | user _ => "users_pkey"
  | username _ => "idx_users_username"
  | email _ => "idx_users_email"
  | token _ => "email_verification_tokens_pkey"
  | tokenHash _ => "idx_verification_tokens_hash"
  | event _ => "outbox_pkey"
  | key _ => "signing_keys_pkey"
  | refresh _ => "refresh_tokens_pkey"
  | refreshHash _ => "idx_refresh_tokens_hash"

namespace Row

def primary : Row → Ref
  | user u => .user u.id
  | token t => .token t.id
  | event e => .event e.id
  | key k => .key k.kid
  | refresh r => .refresh r.id

variable [Platform]

/-- The primary key and the entries in unique indexes, in the order Postgres checks them. -/
def keys : Row → List Ref
  | user u => .user u.id ::
      if u.deletedAt = none then [.username (lower u.username), .email (lower u.email)] else []
  | token t => .token t.id :: if t.consumedAt = none then [.tokenHash t.tokenHash] else []
  | event e => [.event e.id]
  | key k => [.key k.kid]
  | refresh r => .refresh r.id :: if r.revokedAt = none then [.refreshHash r.tokenHash] else []

instance : Keyed Row Ref where
  primary := primary
  keys := keys
  primary_mem r := by cases r <;> simp [primary, keys]

end Row

/-! ## Tables -/

def users (db : List Row) : List StoredUser :=
  db.filterMap fun | .user u => some u | _ => none

def tokens (db : List Row) : List StoredToken :=
  db.filterMap fun | .token t => some t | _ => none

def outbox (db : List Row) : List StoredEvent :=
  db.filterMap fun | .event e => some e | _ => none

def signingKeys (db : List Row) : List StoredKey :=
  db.filterMap fun | .key k => some k | _ => none

@[simp] theorem mem_users {db : List Row} {u : StoredUser} : u ∈ users db ↔ .user u ∈ db := by
  refine List.mem_filterMap.trans ⟨fun ⟨r, hr, he⟩ => ?_, fun h => ⟨_, h, rfl⟩⟩
  cases r <;> cases he
  exact hr

@[simp] theorem mem_tokens {db : List Row} {t : StoredToken} : t ∈ tokens db ↔ .token t ∈ db := by
  refine List.mem_filterMap.trans ⟨fun ⟨r, hr, he⟩ => ?_, fun h => ⟨_, h, rfl⟩⟩
  cases r <;> cases he
  exact hr

@[simp] theorem mem_outbox {db : List Row} {e : StoredEvent} : e ∈ outbox db ↔ .event e ∈ db := by
  refine List.mem_filterMap.trans ⟨fun ⟨r, hr, he⟩ => ?_, fun h => ⟨_, h, rfl⟩⟩
  cases r <;> cases he
  exact hr

@[simp] theorem mem_signingKeys {db : List Row} {k : StoredKey} :
    k ∈ signingKeys db ↔ .key k ∈ db := by
  refine List.mem_filterMap.trans ⟨fun ⟨r, hr, he⟩ => ?_, fun h => ⟨_, h, rfl⟩⟩
  cases r <;> cases he
  exact hr

section Unique

variable [Platform] {db : List Row}

theorem user_unique (h : UniqueKeys db) {u v : StoredUser} (hu : .user u ∈ db) (hv : .user v ∈ db)
    (he : u.id = v.id) : u = v :=
  Row.user.inj (h.eq_of_primary hu hv (congrArg Ref.user he))

theorem token_unique (h : UniqueKeys db) {s t : StoredToken} (hs : .token s ∈ db)
    (ht : .token t ∈ db) (he : s.id = t.id) : s = t :=
  Row.token.inj (h.eq_of_primary hs ht (congrArg Ref.token he))

theorem key_unique (h : UniqueKeys db) {j k : StoredKey} (hj : .key j ∈ db) (hk : .key k ∈ db)
    (he : j.kid = k.kid) : j = k :=
  Row.key.inj (h.eq_of_primary hj hk (congrArg Ref.key he))

theorem mem_updUser {u v x : StoredUser} (hu : .user u ∈ db) :
    .user x ∈ (upd (.user u) (.user v)).apply db ↔ x = v ∨ .user x ∈ db ∧ x.id ≠ u.id := by
  rw [mem_apply_upd hu]
  exact or_congr ⟨Row.user.inj, congrArg Row.user⟩ (and_congr_right fun _ =>
    not_congr ⟨Ref.user.inj, congrArg Ref.user⟩)

theorem mem_updToken {s t x : StoredToken} (hs : .token s ∈ db) :
    .token x ∈ (upd (.token s) (.token t)).apply db ↔ x = t ∨ .token x ∈ db ∧ x.id ≠ s.id := by
  rw [mem_apply_upd hs]
  exact or_congr ⟨Row.token.inj, congrArg Row.token⟩ (and_congr_right fun _ =>
    not_congr ⟨Ref.token.inj, congrArg Ref.token⟩)

/-- An update leaves the other rows alone. -/
theorem mem_upd_of_ne {o r s : Row} (ho : o ∈ db) (hr : s ≠ r) (hp : s.primary ≠ o.primary) :
    s ∈ (upd o r).apply db ↔ s ∈ db := by
  rw [mem_apply_upd ho]
  exact ⟨fun h => (h.resolve_left hr).1, fun h => Or.inr ⟨h, hp⟩⟩

theorem mem_token_updUser {u v : StoredUser} {t : StoredToken} (hu : .user u ∈ db) :
    .token t ∈ (upd (.user u) (.user v)).apply db ↔ .token t ∈ db :=
  mem_upd_of_ne hu Row.noConfusion Ref.noConfusion

theorem mem_user_updToken {s t : StoredToken} {u : StoredUser} (hs : .token s ∈ db) :
    .user u ∈ (upd (.token s) (.token t)).apply db ↔ .user u ∈ db :=
  mem_upd_of_ne hs Row.noConfusion Ref.noConfusion

/-- Two unconsumed tokens with one hash are one token. -/
theorem token_unique_hash (h : UniqueKeys db) {s t : StoredToken} (hs : .token s ∈ db)
    (ht : .token t ∈ db) (hsc : s.consumedAt = none) (htc : t.consumedAt = none)
    (he : s.tokenHash = t.tokenHash) : s = t := by
  refine Row.token.inj (h.eq_of_mem (k := .tokenHash s.tokenHash) hs ht ?_ ?_)
  · change Ref.tokenHash s.tokenHash ∈ _ :: ite _ _ _
    simp [hsc]
  · change Ref.tokenHash s.tokenHash ∈ _ :: ite _ _ _
    simp [htc, he]

/-- Two live users with one address are one user. -/
theorem user_unique_email (h : UniqueKeys db) {u v : StoredUser} (hu : .user u ∈ db)
    (hv : .user v ∈ db) (hud : u.deletedAt = none) (hvd : v.deletedAt = none)
    (he : lower u.email = lower v.email) : u = v := by
  refine Row.user.inj (h.eq_of_mem (k := .email (lower u.email)) hu hv ?_ ?_)
  · change Ref.email (lower u.email) ∈ _ :: ite _ _ _
    simp [hud]
  · change Ref.email (lower u.email) ∈ _ :: ite _ _ _
    simp [hvd, he]

end Unique

/-! ## What stays the same -/

/-- What every statement keeps of a row it replaces. -/
def Evolves : Row → Row → Prop
  | .user u, .user v => v.id = u.id ∧ v.email = u.email ∧ v.createdAt = u.createdAt ∧
      (u.deletedAt ≠ none → v.deletedAt ≠ none)
  | .token s, .token t => t = { s with consumedAt := t.consumedAt } ∧
      (s.consumedAt ≠ none → t.consumedAt ≠ none)
  | .event d, .event e => e = { d with publishedAt := e.publishedAt } ∧
      (d.publishedAt ≠ none → e.publishedAt ≠ none)
  | .key j, .key k => k = { j with status := k.status }
  | .refresh r, .refresh s => s = r
  | _, _ => False

theorem evolves_refl (r : Row) : Evolves r r := by
  cases r <;> simp [Evolves]

theorem Evolves.trans {r s t : Row} (h : Evolves r s) (h' : Evolves s t) : Evolves r t := by
  cases r <;> cases s <;> first | exact h.elim | cases t <;> first | exact h'.elim | skip
  · exact ⟨h'.1.trans h.1, h'.2.1.trans h.2.1, h'.2.2.1.trans h.2.2.1, fun hd => h'.2.2.2 (h.2.2.2 hd)⟩
  · refine ⟨?_, fun hc => h'.2 (h.2 hc)⟩
    rw [h'.1, h.1]
  · refine ⟨?_, fun hp => h'.2 (h.2 hp)⟩
    rw [h'.1, h.1]
  · change _ = _ at h h'
    change _ = _
    rw [h', h]
  · exact (show _ = _ from h').trans h

theorem Evolves.primary_eq {r s : Row} (h : Evolves r s) : s.primary = r.primary := by
  cases r with
  | user u => cases s <;> first | exact h.elim | exact congrArg Ref.user h.1
  | token t =>
    cases s <;> try exact h.elim
    have hid := congrArg (fun t : StoredToken => Ref.token t.id) h.1
    exact hid
  | event e =>
    cases s <;> try exact h.elim
    have hid := congrArg (fun e : StoredEvent => Ref.event e.id) h.1
    exact hid
  | key k =>
    cases s <;> try exact h.elim
    have hkid := congrArg (fun k : StoredKey => Ref.key k.kid) (show _ = _ from h)
    exact hkid
  | refresh r =>
    cases s <;> try exact h.elim
    exact congrArg (fun r : StoredRefresh => Ref.refresh r.id) (show _ = _ from h)

/-- Every row is still there, evolved. -/
def Grows (db db' : List Row) : Prop := ∀ r ∈ db, ∃ s ∈ db', Evolves r s

theorem grows_refl (db : List Row) : Grows db db := fun r hr => ⟨r, hr, evolves_refl r⟩

theorem Grows.trans {db db' db'' : List Row} (h : Grows db db') (h' : Grows db' db'') :
    Grows db db'' := fun r hr => by
  obtain ⟨s, hs, hrs⟩ := h r hr
  obtain ⟨t, ht, hst⟩ := h' s hs
  exact ⟨t, ht, hrs.trans hst⟩

/-- A replacement keeps what statements keep. -/
def KeepsRow (w : Write Row) : Prop := ∀ o, w.old = some o → Evolves o w.new

section Grow

variable [Platform]

theorem grows_apply {db : List Row} (hdb : UniqueKeys db) {w : Write Row} (hw : Valid db w)
    (hk : KeepsRow w) : Grows db (w.apply db) := fun r hr => by
  obtain ⟨old, new⟩ := w
  cases old with
  | none => exact ⟨r, List.mem_append_left _ hr, evolves_refl r⟩
  | some o =>
    by_cases hpk : Keyed.primary r = Keyed.primary o
    · rw [hdb.eq_of_primary hr hw.1 hpk]
      exact ⟨new, hw.mem_apply.mpr (Or.inl rfl), hk o rfl⟩
    · exact ⟨r, hw.mem_apply.mpr (Or.inr ⟨hr, fun _ he => by cases he; exact hpk⟩), evolves_refl r⟩

/-- **Committed rows stay, evolved.** -/
theorem grows_applyAll : ∀ {ws : List (Write Row)} {db : List Row}, UniqueKeys db →
    ValidAll db ws → (∀ w ∈ ws, KeepsRow w) → Grows db (applyAll ws db)
  | [], db, _, _, _ => grows_refl db
  | w :: _, _, hdb, hv, hk =>
    (grows_apply hdb hv.1 (hk w List.mem_cons_self)).trans
      (grows_applyAll (hdb.apply hv.1) hv.2 fun v hv => hk v (List.mem_cons_of_mem _ hv))

/-- The rows that writes add. -/
def inserted (ws : List (Write Row)) : List Row :=
  ws.filterMap fun w => if w.old.isNone then some w.new else none

theorem filterMap_apply {β : Type} {f : Row → Option β}
    (hf : ∀ r s, Evolves r s → f s = f r) {db : List Row} (hdb : UniqueKeys db)
    {w : Write Row} (hw : Valid db w) (hk : KeepsRow w) :
    (w.apply db).filterMap f = db.filterMap f ++ (inserted [w]).filterMap f := by
  obtain ⟨old, new⟩ := w
  cases old with
  | none => exact List.filterMap_append
  | some o =>
    have hnil : (inserted [⟨some o, new⟩]).filterMap f = [] := rfl
    rw [hnil, List.append_nil]
    change (db.map _).filterMap f = _
    rw [List.filterMap_map]
    refine List.filterMap_congr fun r hr => ?_
    change f (if Keyed.primary r = Keyed.primary o then new else r) = f r
    split_ifs with hpk
    · rw [hdb.eq_of_primary hr hw.1 hpk]
      exact hf o new (hk o rfl)
    · rfl

/-- **What evolution keeps of the rows is, after a commit, that of the old rows, then that of the
new ones.** -/
theorem filterMap_applyAll {β : Type} {f : Row → Option β}
    (hf : ∀ r s, Evolves r s → f s = f r) : ∀ {ws : List (Write Row)} {db : List Row},
    UniqueKeys db → ValidAll db ws → (∀ w ∈ ws, KeepsRow w) →
      (applyAll ws db).filterMap f = db.filterMap f ++ (inserted ws).filterMap f
  | [], db, _, _, _ => (List.append_nil _).symm
  | w :: ws, db, hdb, hv, hk => by
    have hcons : inserted (w :: ws) = inserted [w] ++ inserted ws :=
      List.filterMap_append (l := [w])
    rw [applyAll_cons, filterMap_applyAll hf (hdb.apply hv.1) hv.2
      fun v hv => hk v (List.mem_cons_of_mem _ hv),
      filterMap_apply hf hdb hv.1 (hk w List.mem_cons_self), hcons, List.filterMap_append,
      List.append_assoc]

end Grow

end Identity
