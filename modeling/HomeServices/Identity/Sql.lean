import HomeServices.Identity.Schema

/-!
# The SQL statements

Every statement the service sends, and the one-row statements operators and the publisher run
beside it. A statement reads the rows its transaction sees and yields an answer, the writes it
makes and the keys whose locks it has to hold; unique indexes and foreign keys are checked here.

* `Sql`, `Sql.Out`, `Sql.exec`: statements, their answers, their execution.
* `Lawful`, **`exec_lawful`**: the writes are valid on the rows seen, lie within the touched keys,
  and replace rows only by evolved ones; an error writes nothing.
* `insertRow_ok`, `updateRow_ok`: what a successful insert or update wrote.
-/

namespace Identity

open ReadCommitted

/-- Why a statement fails. -/
inductive PgError where
  | fault
  | rowCount
  | constraint (name : String)
  deriving DecidableEq

inductive Sql where
  | userById (id : Uuid)
  | userByEmail (email : String)
  | insertUser (id : Uuid) (username email givenName familyName passwordHash : String)
  | insertToken (id userId : Uuid) (tokenHash : Bytes) (expiresAt : ℕ)
  | insertEvent (id : Uuid) (aggregateType : String) (aggregateId : Uuid) (eventType : String)
      (payload : Bytes) (traceId spanId : Option String)
  | countRecentTokens (userId : Uuid)
  | tokenByHash (tokenHash : Bytes)
  | consumeToken (id : Uuid)
  | markEmailVerified (userId : Uuid)
  | updatePassword (userId : Uuid) (newHash : String)
  | updateProfile (userId : Uuid) (givenName familyName username : Option String)
  | activeSigningKey
  | countActiveKeys
  | insertSigningKey (kid algorithm : String) (encryptedPrivateKey : Bytes) (publicJwk : Json)
  | publicJwks
  | insertRefreshToken (id userId : Uuid) (tokenHash : Bytes) (expiresAt : ℕ)
  -- statements of operators and of the publisher
  | setKeyStatus (kid status : String)
  | setUserStatus (userId : Uuid) (status : UserStatus)
  | softDelete (userId : Uuid)
  | markPublished (id : Uuid)

/-- What a statement answers: rows, a count, or the number of rows it wrote. -/
abbrev Sql.Out : Sql → Type
  | userById _ | userByEmail _ => Option User
  | tokenByHash _ => Option TokenRow
  | activeSigningKey => Option StoredKey
  | publicJwks => List Json
  | _ => ℕ

/-- The answer, the writes, and the keys the statement locks. -/
structure Outcome (α : Type) where
  result : Except PgError α
  writes : List (Write Row)
  touched : List Ref

/-- `query_opt`: at most one row. -/
def queryOpt {α : Type} : List α → Except PgError (Option α)
  | [] => .ok none
  | [a] => .ok (some a)
  | _ => .error .rowCount

def select {α : Type} (result : Except PgError α) : Outcome α := ⟨result, [], []⟩

/-- One hour, in nanoseconds. -/
def hour : ℕ := 3600 * 1000000000

/-- `timestamptz` keeps microseconds. -/
def toMicros (t : ℕ) : ℕ := t / 1000 * 1000

/-- `ORDER BY created_at DESC LIMIT 1`; `pick` breaks ties. -/
def newest (pick : ℕ) (ks : List StoredKey) : Option StoredKey :=
  let best := ks.filter fun k => ks.all fun j => j.createdAt ≤ k.createdAt
  best[pick % best.length]?

theorem newest_mem {pick : ℕ} {ks : List StoredKey} {k : StoredKey} (h : newest pick ks = some k) :
    k ∈ ks :=
  List.mem_of_mem_filter (List.mem_of_getElem? h)

theorem queryOpt_eq_some {α : Type} {l : List α} {a : α} (h : queryOpt l = .ok (some a)) :
    l = [a] := by
  match l, h with
  | [_], h => cases h; rfl
  | [], h => cases h
  | _ :: _ :: _, h => cases h

theorem queryOpt_eq_none {α : Type} {l : List α} (h : queryOpt l = .ok none) : l = [] := by
  match l, h with
  | [], _ => rfl
  | [_], h => cases h
  | _ :: _ :: _, h => cases h

/-- A lookup whose matches exclude one another finds at most one row. -/
theorem queryOpt_total {α β : Type} {l : List α} {p : α → Bool} {f : α → β}
    (h : l.Pairwise fun a b => p a = true → p b = true → False) :
    ∃ found, queryOpt ((l.filter p).map f) = .ok found := by
  have hf := h.filter p
  have hp : ∀ a ∈ l.filter p, p a = true := fun a ha => (List.mem_filter.mp ha).2
  generalize l.filter p = found at hf hp
  match found, hf, hp with
  | [], _, _ => exact ⟨none, rfl⟩
  | [a], _, _ => exact ⟨some (f a), rfl⟩
  | a :: b :: rest, hf, hp =>
    exact ((List.pairwise_cons.mp hf).1 b (by simp) (hp a (by simp)) (hp b (by simp))).elim

section Exec

variable [Platform]

/-- The first key of a row that another row occupies. -/
def conflict (view : List Row) (r : Row) : Option Ref :=
  r.keys.find? fun k => view.any fun s => s.keys.contains k

def insertRow (view : List Row) (r : Row) : Outcome ℕ :=
  match conflict view r with
  | some k => ⟨.error (.constraint k.constraint), [], r.keys⟩
  | none => ⟨.ok 1, [ins r], r.keys⟩

/-- Update the row with a primary key; `f` is undefined where the rest of the `WHERE` fails. -/
def updateRow (view : List Row) (k : Ref) (f : Row → Option Row) : Outcome ℕ :=
  match view.find? fun r => r.primary = k with
  | none => ⟨.ok 0, [], []⟩
  | some o =>
    match f o with
    | none => ⟨.ok 0, [], o.keys⟩
    | some r =>
      match conflict (view.filter fun s => s.primary ≠ k) r with
      | some c => ⟨.error (.constraint c.constraint), [], r.keys ++ o.keys⟩
      | none => ⟨.ok 1, [upd o r], r.keys ++ o.keys⟩

def updateUser (view : List Row) (id : Uuid) (f : StoredUser → Option StoredUser) : Outcome ℕ :=
  updateRow view (.user id) fun | .user u => (f u).map .user | _ => none

/-- A live user is changed. -/
def updateLive (view : List Row) (id : Uuid) (f : StoredUser → StoredUser) : Outcome ℕ :=
  updateUser view id fun u => if u.deletedAt = none then some (f u) else none

def updateToken (view : List Row) (id : Uuid) (f : StoredToken → Option StoredToken) : Outcome ℕ :=
  updateRow view (.token id) fun | .token t => (f t).map .token | _ => none

/-- Insert a row that references a user. -/
def insertOwned (view : List Row) (userId : Uuid) (constraint : String) (r : Row) : Outcome ℕ :=
  if (users view).any fun u => u.id = userId then insertRow view r
  else ⟨.error (.constraint constraint), [], r.keys⟩

/-- Execute a statement at transaction time `now` on the rows it sees. Its texts are taken to hold no
U+0000, which Postgres refuses. -/
def Sql.exec (now pick : ℕ) (view : List Row) : (s : Sql) → Outcome s.Out
  | userById id => select (queryOpt
      (((users view).filter fun u => u.id = id ∧ u.deletedAt = none).map StoredUser.toUser))
  | userByEmail email => select (queryOpt
      (((users view).filter fun u => lower u.email = lower email ∧ u.deletedAt = none).map
        StoredUser.toUser))
  | insertUser id username email givenName familyName passwordHash =>
    insertRow view (.user
      { id, username, email, givenName, familyName, passwordHash, emailVerified := false,
        status := .pendingVerification, createdAt := now, updatedAt := now, deletedAt := none })
  | insertToken id userId tokenHash expiresAt =>
    insertOwned view userId "email_verification_tokens_user_id_fkey" (.token
      { id, userId, tokenHash, expiresAt := toMicros expiresAt, consumedAt := none,
        createdAt := now })
  | insertEvent id aggregateType aggregateId eventType payload traceId spanId =>
    insertRow view (.event
      { id, aggregateType, aggregateId, eventType, payload, traceId, spanId, createdAt := now,
        publishedAt := none })
  | countRecentTokens userId => select (.ok
      ((tokens view).filter fun t => t.userId = userId ∧ now < t.createdAt + hour).length)
  | tokenByHash tokenHash => select (queryOpt
      (((tokens view).filter fun t => t.tokenHash = tokenHash ∧ t.consumedAt = none).map
        StoredToken.toTokenRow))
  | consumeToken id =>
    updateToken view id fun t =>
      if t.consumedAt = none then some { t with consumedAt := some now } else none
  | markEmailVerified userId =>
    updateLive view userId fun u =>
      { u with emailVerified := true, status := .active, updatedAt := now }
  | updatePassword userId newHash =>
    updateLive view userId fun u => { u with passwordHash := newHash, updatedAt := now }
  | updateProfile userId givenName familyName username =>
    updateLive view userId fun u =>
      { u with
        givenName := givenName.getD u.givenName
        familyName := familyName.getD u.familyName
        username := username.getD u.username
        updatedAt := now }
  | activeSigningKey => select (.ok
      (newest pick ((signingKeys view).filter fun k => k.status = "active")))
  | countActiveKeys => select (.ok ((signingKeys view).filter fun k => k.status = "active").length)
  | insertSigningKey kid algorithm encryptedPrivateKey publicJwk =>
    insertRow view (.key
      { kid, algorithm, encryptedPrivateKey, publicJwk, status := "active", createdAt := now })
  | publicJwks => select (.ok
      (((signingKeys view).filter fun k => k.status ≠ "revoked").map StoredKey.publicJwk))
  | insertRefreshToken id userId tokenHash expiresAt =>
    insertOwned view userId "refresh_tokens_user_id_fkey" (.refresh
      { id, userId, tokenHash, expiresAt := toMicros expiresAt, revokedAt := none,
        createdAt := now })
  | setKeyStatus kid status =>
    updateRow view (.key kid) fun | .key k => some (.key { k with status }) | _ => none
  | setUserStatus userId status => updateUser view userId fun u => some { u with status }
  | softDelete userId => updateLive view userId fun u => { u with deletedAt := some now }
  | markPublished id =>
    updateRow view (.event id) fun
      | .event e => some (.event { e with publishedAt := some now })
      | _ => none

/-! ## What statements write -/

/-- What Postgres guarantees of the writes of a statement that saw `view`. -/
structure Lawful {α : Type} (view : List Row) (o : Outcome α) : Prop where
  valid : ValidAll view o.writes
  touched : ∀ w ∈ o.writes, w.refs ⊆ o.touched
  keeps : ∀ w ∈ o.writes, KeepsRow w

theorem lawful_select {α : Type} (view : List Row) (r : Except PgError α) :
    Lawful view (select r) := ⟨trivial, by simp [select], by simp [select]⟩

theorem conflict_eq_none {view : List Row} {r : Row} (h : conflict view r = none) :
    ∀ s ∈ view, s.keys.Disjoint r.keys := by
  intro s hs k hks hkr
  have hk := List.find?_eq_none.mp h k hkr
  exact hk (List.any_eq_true.mpr ⟨s, hs, List.contains_iff_mem.mpr hks⟩)

theorem lawful_insertRow (view : List Row) (r : Row) : Lawful view (insertRow view r) := by
  unfold insertRow
  cases hc : conflict view r with
  | some k => exact ⟨trivial, by simp, by simp⟩
  | none =>
    refine ⟨⟨conflict_eq_none hc, trivial⟩, ?_, ?_⟩
    · intro w hw
      rw [List.mem_singleton.mp hw]
      simp [ins, Write.refs, Keyed.keys]
    · intro w hw o ho
      rw [List.mem_singleton.mp hw] at ho
      cases ho

theorem lawful_updateRow (view : List Row) {k : Ref} {f : Row → Option Row}
    (hf : ∀ o r, f o = some r → Evolves o r) : Lawful view (updateRow view k f) := by
  unfold updateRow
  cases hfind : view.find? fun r => r.primary = k with
  | none => exact ⟨trivial, by simp, by simp⟩
  | some o =>
    have ho : o ∈ view := List.mem_of_find?_eq_some hfind
    have hok : o.primary = k := by simpa using List.find?_some hfind
    cases hfo : f o with
    | none => simp only [hfo]; exact ⟨trivial, by simp, by simp⟩
    | some r =>
      simp only [hfo]
      cases hc : conflict (view.filter fun s => s.primary ≠ k) r with
      | some c => exact ⟨trivial, by simp, by simp⟩
      | none =>
        have hev := hf o r hfo
        refine ⟨⟨⟨ho, hev.primary_eq, ?_⟩, trivial⟩, ?_, ?_⟩
        · intro s hs hne
          have hsk : s.primary ≠ k := hok ▸ hne
          exact conflict_eq_none hc s (List.mem_filter.mpr ⟨hs, by simpa using hsk⟩)
        · intro w hw
          rw [List.mem_singleton.mp hw]
          simp [upd, Write.refs, Keyed.keys]
        · intro w hw o' ho'
          rw [List.mem_singleton.mp hw] at ho' ⊢
          cases ho'
          exact hev

theorem lawful_updateUser (view : List Row) {id : Uuid} {f : StoredUser → Option StoredUser}
    (hf : ∀ o r, f o = some r → Evolves (.user o) (.user r)) :
    Lawful view (updateUser view id f) := by
  refine lawful_updateRow view fun o r h => ?_
  cases o with
  | user u =>
    obtain ⟨v, hv, rfl⟩ := Option.map_eq_some_iff.mp h
    exact hf u v hv
  | _ => cases h

theorem lawful_updateLive (view : List Row) {id : Uuid} {f : StoredUser → StoredUser}
    (hf : ∀ u, (f u).id = u.id ∧ (f u).email = u.email ∧ (f u).createdAt = u.createdAt) :
    Lawful view (updateLive view id f) := by
  refine lawful_updateUser view fun u v h => ?_
  split_ifs at h with hd
  cases h
  exact ⟨(hf u).1, (hf u).2.1, (hf u).2.2, fun hn => absurd hd hn⟩

theorem lawful_insertOwned (view : List Row) (id : Uuid) (c : String) (r : Row) :
    Lawful view (insertOwned view id c r) := by
  unfold insertOwned
  split_ifs
  · exact lawful_insertRow view r
  · exact ⟨trivial, by simp, by simp⟩

/-- **Postgres keeps its constraints, and no statement undoes what `Evolves` keeps.** -/
theorem exec_lawful (now pick : ℕ) (view : List Row) (s : Sql) :
    Lawful view (s.exec now pick view) := by
  cases s with
  | insertUser | insertEvent | insertSigningKey => exact lawful_insertRow _ _
  | insertToken | insertRefreshToken => exact lawful_insertOwned _ _ _ _
  | consumeToken id =>
    refine lawful_updateRow view fun o r h => ?_
    cases o with
    | token t =>
      obtain ⟨t', ht, rfl⟩ := Option.map_eq_some_iff.mp h
      simp only at ht
      split_ifs at ht with hc
      cases ht
      exact ⟨rfl, fun hn => absurd hc hn⟩
    | _ => cases h
  | markEmailVerified | updatePassword | updateProfile =>
    exact lawful_updateLive view fun u => ⟨rfl, rfl, rfl⟩
  | softDelete => exact lawful_updateLive view fun u => ⟨rfl, rfl, rfl⟩
  | setUserStatus =>
    refine lawful_updateUser view fun u v h => ?_
    cases h
    exact ⟨rfl, rfl, rfl, id⟩
  | setKeyStatus =>
    refine lawful_updateRow view fun o r h => ?_
    cases o with
    | key k => cases h; exact rfl
    | _ => cases h
  | markPublished =>
    refine lawful_updateRow view fun o r h => ?_
    cases o with
    | event e => cases h; exact ⟨rfl, fun _ => by simp⟩
    | _ => cases h
  | _ => exact lawful_select _ _

theorem length_insertRow_le (view : List Row) (r : Row) : (insertRow view r).writes.length ≤ 1 := by
  unfold insertRow
  split <;> simp

theorem length_updateRow_le (view : List Row) (k : Ref) (f : Row → Option Row) :
    (updateRow view k f).writes.length ≤ 1 := by
  unfold updateRow
  split
  · simp
  · split
    · simp
    · split <;> simp

theorem length_insertOwned_le (view : List Row) (id : Uuid) (c : String) (r : Row) :
    (insertOwned view id c r).writes.length ≤ 1 := by
  unfold insertOwned
  split_ifs
  · exact length_insertRow_le view r
  · simp

/-- A statement writes at most one row. -/
theorem length_writes_le (now pick : ℕ) (view : List Row) (s : Sql) :
    (s.exec now pick view).writes.length ≤ 1 := by
  cases s with
  | insertUser | insertEvent | insertSigningKey => exact length_insertRow_le _ _
  | insertToken | insertRefreshToken => exact length_insertOwned_le _ _ _ _
  | consumeToken | markEmailVerified | updatePassword | updateProfile | setKeyStatus | setUserStatus
  | softDelete | markPublished => exact length_updateRow_le _ _ _
  | _ => exact Nat.zero_le 1

/-- A successful insert wrote its row. -/
theorem insertRow_ok {view : List Row} {r : Row} {n : ℕ} (h : (insertRow view r).result = .ok n) :
    (insertRow view r).writes = [ins r] := by
  unfold insertRow at h ⊢
  split at h
  · cases h
  · rfl

theorem insertOwned_ok {view : List Row} {id : Uuid} {c : String} {r : Row} {n : ℕ}
    (h : (insertOwned view id c r).result = .ok n) :
    (insertOwned view id c r).writes = [ins r] ∧ ∃ u, .user u ∈ view ∧ u.id = id := by
  unfold insertOwned at h ⊢
  split_ifs at h ⊢ with hu
  obtain ⟨u, hu, hid⟩ := List.any_eq_true.mp hu
  exact ⟨insertRow_ok h, u, mem_users.mp hu, of_decide_eq_true hid⟩

/-- A successful update replaced the one row with its key, or found nothing to replace. -/
theorem updateRow_ok {view : List Row} {k : Ref} {f : Row → Option Row} {n : ℕ}
    (h : (updateRow view k f).result = .ok n) :
    (n = 0 ∧ (updateRow view k f).writes = [] ∧
      ∀ o, view.find? (fun r => r.primary = k) = some o → f o = none) ∨
    (n = 1 ∧ ∃ o r, o ∈ view ∧ o.primary = k ∧ f o = some r ∧
      (updateRow view k f).writes = [upd o r]) := by
  unfold updateRow at h ⊢
  cases hfind : view.find? fun r => r.primary = k with
  | none =>
    simp only [hfind, Except.ok.injEq] at h
    exact Or.inl ⟨h.symm, rfl, fun _ he => by cases he⟩
  | some o =>
    have hok : o.primary = k := by simpa using List.find?_some hfind
    have ho : o ∈ view := List.mem_of_find?_eq_some hfind
    simp only [hfind] at h ⊢
    cases hfo : f o with
    | none =>
      simp only [hfo, Except.ok.injEq] at h
      exact Or.inl ⟨h.symm, rfl, fun _ he => by cases he; exact hfo⟩
    | some r =>
      simp only [hfo] at h ⊢
      cases hc : conflict (view.filter fun s => s.primary ≠ k) r with
      | some c => simp only [hc, reduceCtorEq] at h
      | none =>
        simp only [hc, Except.ok.injEq] at h
        exact Or.inr ⟨h.symm, o, r, ho, hok, hfo, rfl⟩

/-- The row an update looks for is the one row with its key. -/
theorem find_primary {view : List Row} (hview : UniqueKeys view) {o : Row} (ho : o ∈ view) :
    view.find? (fun r => r.primary = o.primary) = some o := by
  cases hfind : view.find? fun r => r.primary = o.primary with
  | none =>
    have hno := List.find?_eq_none.mp hfind o ho
    exact absurd (decide_eq_true rfl) hno
  | some s =>
    have hs : s.primary = o.primary := by simpa using List.find?_some hfind
    rw [hview.eq_of_primary (List.mem_of_find?_eq_some hfind) ho hs]

/-- A row that takes no new key is in conflict with no other row. -/
theorem conflict_of_subset {view : List Row} (hview : UniqueKeys view) {o r : Row} (ho : o ∈ view)
    (hr : r.keys ⊆ o.keys) : conflict (view.filter fun s => s.primary ≠ o.primary) r = none := by
  refine List.find?_eq_none.mpr fun c hc hany => ?_
  obtain ⟨s, hs, hcs⟩ := List.any_eq_true.mp hany
  obtain ⟨hs, hne⟩ := List.mem_filter.mp hs
  have hso : s = o := hview.eq_of_mem hs ho (List.contains_iff_mem.mp hcs) (hr hc)
  exact (of_decide_eq_true hne) (hso ▸ rfl)

/-- An update of a row that is there, to one that takes no new key. -/
theorem updateRow_found {view : List Row} (hview : UniqueKeys view) {f : Row → Option Row}
    {o r : Row} (ho : o ∈ view) (hfo : f o = some r) (hr : r.keys ⊆ o.keys) :
    updateRow view o.primary f = ⟨.ok 1, [upd o r], r.keys ++ o.keys⟩ := by
  rw [updateRow, find_primary hview ho]
  simp only [hfo]
  rw [conflict_of_subset hview ho hr]

/-- An update that takes no new key violates no constraint. -/
theorem updateRow_total {view : List Row} (hview : UniqueKeys view) {k : Ref}
    {f : Row → Option Row} (hf : ∀ o r, f o = some r → r.keys ⊆ o.keys) :
    ∃ n, (updateRow view k f).result = .ok n := by
  cases hfind : view.find? fun r => r.primary = k with
  | none => exact ⟨0, by rw [updateRow, hfind]⟩
  | some o =>
    have ho : o ∈ view := List.mem_of_find?_eq_some hfind
    obtain rfl : o.primary = k := by simpa using List.find?_some hfind
    cases hfo : f o with
    | none => exact ⟨0, by rw [updateRow, hfind]; simp only [hfo]⟩
    | some r => exact ⟨1, by rw [updateRow_found hview ho hfo (hf o r hfo)]⟩

/-- A lookup by token hash finds at most one unconsumed token. -/
theorem tokenByHash_total {view : List Row} (hview : UniqueKeys view) (hash : Bytes)
    (now pick : ℕ) : ∃ found, ((Sql.tokenByHash hash).exec now pick view).result = .ok found := by
  refine queryOpt_total (List.pairwise_filterMap.mpr (hview.imp fun {r s} hrs t ht t' ht' hm hm' => ?_))
  cases r <;> cases ht
  cases s <;> cases ht'
  have hm := of_decide_eq_true hm
  have hm' := of_decide_eq_true hm'
  refine hrs (a := .tokenHash hash) ?_ ?_
  · change Ref.tokenHash hash ∈ _ :: ite _ _ _
    simp [hm]
  · change Ref.tokenHash hash ∈ _ :: ite _ _ _
    simp [hm']

end Exec

end Identity
