import Mathlib.Data.Prod.Lex
import HomeServices.Identity.Locks

/-!
# Who waits for whom

A statement locks its keys one after the other, and waits where another session has one. All handlers
lock in one order, but for an update that gives a new username: it has locked its row when it waits for
the name.

* `Sql.stages`: the keys that a statement locks, in order; **`renames_of_new`**, **`index_of_insert`**: which
  keys an update gives its row, and in which order an insertion locks.
* `Taking`, `WaitsFor`, `Renaming`: how far the statements have got, and who waits for whom.
* `Blocked`, `place`, `rank_of_blocked`: a call needs only what calls have locked that are further.
* **`place_lt_of_waits`**: but for those that rename, calls wait only for calls that are further.
-/

namespace Identity

open ReadCommitted Interaction

section Waiting

variable [Platform]

/-! ## The keys of a statement -/

/-- The rows that the session sees. -/
def Session.view (l : Session) (g : World) : List Row := l.tx.elim g.db fun tx => applyAll tx.writes g.db

omit [Platform] in
/-- The time of the session's statements. -/
def Session.now (l : Session) (g : World) : ℕ := l.tx.elim g.clock Tx.startedAt

/-- The keys that the operation has to lock. -/
def needs (l : Session) (g : World) : Op → List Ref
  | .sql s => (s.exec (l.now g) 0 (l.view g)).touched
  | _ => []

omit [Platform] in
/-- The row that the statement updates. -/
def Sql.row : Sql → Option Ref
  | consumeToken id => some (.token id)
  | markEmailVerified id | updatePassword id _ | updateProfile id _ _ _ => some (.user id)
  | setUserStatus id _ | softDelete id => some (.user id)
  | setKeyStatus kid _ => some (.key kid)
  | markPublished id => some (.event id)
  | _ => none

/-- The keys of the row with a primary key. -/
def keysAt (view : List Row) (k : Ref) : List Ref := (view.find? fun r => r.primary = k).elim [] Row.keys

/-- The keys that the statement locks, in order. An update locks its row, with the keys that the row has,
before the keys that it gives it; an insertion locks one key after the other. -/
def Sql.stages (s : Sql) (now pick : ℕ) (view : List Row) : List (List Ref) :=
  let touched := (s.exec now pick view).touched
  match s.row with
  | none => touched.map fun r => [r]
  | some k => keysAt view k :: (touched.filter fun r => r ∉ keysAt view k).map fun r => [r]

theorem exec_row {s : Sql} {k : Ref} (hrow : s.row = some k) (now pick : ℕ) (view : List Row) :
    ∃ f, (s.exec now pick view).touched = (updateRow view k f).touched := by
  cases s with
  | consumeToken | markEmailVerified | updatePassword | updateProfile | setUserStatus | softDelete
  | setKeyStatus | markPublished =>
    cases hrow
    exact ⟨_, rfl⟩
  | _ => cases hrow

theorem keysAt_subset {view : List Row} {k : Ref} {f : Row → Option Row} :
    keysAt view k ⊆ (updateRow view k f).touched := by
  unfold keysAt updateRow
  cases view.find? fun r => r.primary = k with
  | none => exact List.nil_subset _
  | some o =>
    dsimp only [Option.elim_some]
    cases f o with
    | none => exact List.Subset.refl _
    | some v =>
      dsimp only
      split <;> exact List.subset_append_right _ _

/-- The stages are of the keys that the statement needs. -/
theorem mem_exec_of_stage {s : Sql} {now pick : ℕ} {view : List Row} {ks : List Ref} {r : Ref}
    (hks : ks ∈ s.stages now pick view) (hr : r ∈ ks) : r ∈ (s.exec now pick view).touched := by
  unfold Sql.stages at hks
  cases hrow : s.row with
  | none =>
    simp only [hrow] at hks
    obtain ⟨r', hr', rfl⟩ := List.mem_map.mp hks
    exact List.mem_singleton.mp hr ▸ hr'
  | some k =>
    simp only [hrow] at hks
    rcases List.mem_cons.mp hks with rfl | hks
    · obtain ⟨f, hf⟩ := exec_row hrow now pick view
      exact hf ▸ keysAt_subset hr
    · obtain ⟨r', hr', rfl⟩ := List.mem_map.mp hks
      exact List.mem_singleton.mp hr ▸ List.mem_of_mem_filter hr'

/-- An update that takes keys from its row only locks those of the row. -/
theorem touched_subset_keysAt {view : List Row} {k : Ref} {f : Row → Option Row}
    (hf : ∀ o v, f o = some v → v.keys ⊆ o.keys) : (updateRow view k f).touched ⊆ keysAt view k := by
  unfold keysAt updateRow
  cases view.find? fun r => r.primary = k with
  | none => exact List.nil_subset _
  | some o =>
    dsimp only [Option.elim_some]
    cases hv : f o with
    | none => exact List.Subset.refl _
    | some v =>
      dsimp only
      split <;> exact List.append_subset.mpr ⟨hf o v hv, List.Subset.refl _⟩

theorem touched_updateUser {view : List Row} {id : Uuid} {f : StoredUser → Option StoredUser}
    (hf : ∀ u v, f u = some v → (Row.user v).keys ⊆ (Row.user u).keys) :
    (updateUser view id f).touched ⊆ keysAt view (.user id) := by
  refine touched_subset_keysAt fun o v h => ?_
  cases o with
  | user u =>
    obtain ⟨w, hw, rfl⟩ := Option.map_eq_some_iff.mp h
    exact hf u w hw
  | _ => cases h

/-- Only a new username is a key that an update gives its row. -/
theorem renames_of_new {s : Sql} {k r : Ref} {now pick : ℕ} {view : List Row} (hrow : s.row = some k)
    (hr : r ∈ (s.exec now pick view).touched) (hnew : r ∉ keysAt view k) :
    ∃ userId givenName familyName username,
      s = .updateProfile userId givenName familyName (some username) := by
  have hlive : ∀ {id : Uuid} {f : StoredUser → StoredUser}, k = .user id →
      r ∈ (updateLive view id f).touched → (∀ u, (Row.user (f u)).keys ⊆ (Row.user u).keys) → False := by
    rintro id f rfl hr hf
    refine hnew (touched_updateUser (fun u v h => ?_) hr)
    split_ifs at h
    cases h
    exact hf u
  cases s with
  | updateProfile userId givenName familyName username =>
    cases username with
    | some username => exact ⟨_, _, _, _, rfl⟩
    | none => exact (hlive (Option.some.inj hrow).symm hr fun _ => List.Subset.refl _).elim
  | markEmailVerified | updatePassword =>
    exact (hlive (Option.some.inj hrow).symm hr fun _ => List.Subset.refl _).elim
  | softDelete =>
    refine (hlive (Option.some.inj hrow).symm hr fun u => ?_).elim
    simp [Row.keys]
  | setUserStatus =>
    cases hrow
    refine (hnew (touched_updateUser (fun u v h => ?_) hr)).elim
    cases h
    exact List.Subset.refl _
  | consumeToken =>
    cases hrow
    refine (hnew (touched_subset_keysAt (fun o v h => ?_) hr)).elim
    cases o with
    | token t =>
      obtain ⟨t', ht', rfl⟩ := Option.map_eq_some_iff.mp h
      simp only at ht'
      split_ifs at ht'
      cases ht'
      simp [Row.keys]
    | _ => cases h
  | setKeyStatus =>
    cases hrow
    refine (hnew (touched_subset_keysAt (fun o v h => ?_) hr)).elim
    cases o with
    | key =>
      cases h
      exact List.Subset.refl _
    | _ => cases h
  | markPublished =>
    cases hrow
    refine (hnew (touched_subset_keysAt (fun o v h => ?_) hr)).elim
    cases o with
    | event =>
      cases h
      exact List.Subset.refl _
    | _ => cases h
  | _ => cases hrow

omit [Platform] in
/-- The place of a key among those of its row. -/
def Ref.index : Ref → ℕ
  | username _ | tokenHash _ | refreshHash _ => 1
  | email _ => 2
  | _ => 0

omit [Platform] in
/-- The level of a statement that inserts a row with the key. -/
def Ref.level : Ref → Option ℕ
  | user _ | username _ | email _ => some 0
  | token _ | tokenHash _ => some 1
  | event _ => some 3
  | key _ | refresh _ | refreshHash _ => none

theorem map_index_keys (o : Row) : o.keys.map Ref.index = List.range o.keys.length := by
  cases o with
  | event | key => rfl
  | _ =>
    simp only [Row.keys]
    split_ifs <;> rfl

/-- An insertion locks the keys of its row in their order. -/
theorem index_of_insert {s : Sql} {now pick x : ℕ} {view : List Row} {r : Ref} (hrow : s.row = none)
    (hr : (s.exec now pick view).touched[x]? = some r) : r.index = x ∧ s.level = r.level := by
  have hindex : ∀ {o : Row}, o.keys[x]? = some r → r.index = x := fun {o} h => by
    have hx := congrArg (fun l => l[x]?) (map_index_keys o)
    simp only [List.getElem?_map, h, Option.map_some] at hx
    exact (List.getElem?_eq_some_iff.mp hx.symm).2.symm.trans (by simp)
  have hkeys : ∀ {o : Row} {n : Option ℕ}, (∀ r ∈ o.keys, r.level = n) → o.keys[x]? = some r →
      r.index = x ∧ n = r.level := fun hn h => ⟨hindex h, (hn r (List.mem_of_getElem? h)).symm⟩
  cases s with
  | insertUser =>
    refine hkeys (fun r hr => ?_) (touched_insertRow _ _ ▸ hr)
    rcases mem_keys_user hr with rfl | rfl | rfl <;> rfl
  | insertToken =>
    refine hkeys (fun r hr => ?_) (touched_insertOwned _ _ _ _ ▸ hr)
    rcases mem_keys_token hr with rfl | rfl <;> rfl
  | insertEvent | insertSigningKey =>
    refine hkeys (fun r hr => ?_) (touched_insertRow _ _ ▸ hr)
    cases List.mem_singleton.mp hr
    rfl
  | insertRefreshToken =>
    refine hkeys (fun r hr => ?_) (touched_insertOwned _ _ _ _ ▸ hr)
    simp only [Row.keys, if_true, List.mem_cons, List.not_mem_nil, or_false] at hr
    rcases hr with rfl | rfl <;> rfl
  | consumeToken | markEmailVerified | updatePassword | updateProfile | setUserStatus | softDelete
  | setKeyStatus | markPublished => cases hrow
  | _ => exact (List.not_mem_nil (List.mem_of_getElem? hr)).elim

/-! ## Who waits -/

/-- The keys that the next operation of `i` locks, in order. -/
def stagesOf (c : State) (i : ℕ) : List (List Ref) :=
  match c.thread i with
  | some ⟨l, .call (.sql s) _, _⟩ => s.stages (l.now c.glob) 0 (l.view c.glob)
  | _ => []

/-- The keys that the next operation of `i` has locked when it has got past `n i` of its stages. -/
def taken (c : State) (n : ℕ → ℕ) (i : ℕ) : List Ref := ((stagesOf c i).take (n i)).flatten

/-- How far statements may have got. -/
structure Taking (c : State) (n : ℕ → ℕ) : Prop where
  -- who has locked all its keys does not wait
  waits : ∀ i, n i = 0 ∨ n i < (stagesOf c i).length
  free : ∀ i, ∀ r ∈ taken c n i, ∀ j, c.glob.store.lock r = some j → j = i
  -- an insertion is refused for a key that there is
  new : ∀ i l s k h, c.thread i = some ⟨l, .call (.sql s) k, h⟩ → s.row = none →
    ∀ r ∈ taken c n i, ∀ o ∈ c.glob.db, r ∉ o.keys

/-- The next operation of `i` waits for a key that `j` has locked, with an earlier statement or with one that
waits itself. -/
def WaitsFor (c : State) (n : ℕ → ℕ) (i j : ℕ) : Prop :=
  i ≠ j ∧ ∃ ks, (stagesOf c i)[n i]? = some ks ∧ ∃ r ∈ ks, c.glob.store.lock r = some j ∨ r ∈ taken c n j

/-- The call has locked the row of its user, and waits for the new username. -/
def Renaming (c : State) (n : ℕ → ℕ) (i : ℕ) : Prop :=
  ∃ l userId givenName familyName username k h, n i ≠ 0 ∧
    c.thread i = some ⟨l, .call (.sql (.updateProfile userId givenName familyName (some username))) k, h⟩

/-- The next operation of `i` needs a key that `j` has locked with an earlier statement. -/
def Blocked (c : State) (i j : ℕ) : Prop :=
  i ≠ j ∧ ∃ l o k h, c.thread i = some ⟨l, .call o k, h⟩ ∧
    ∃ r ∈ needs l c.glob o, c.glob.store.lock r = some j

theorem exists_of_stage {c : State} {i m : ℕ} {ks : List Ref} (h : (stagesOf c i)[m]? = some ks) :
    ∃ l s k hist, c.thread i = some ⟨l, .call (.sql s) k, hist⟩ ∧
      (s.stages (l.now c.glob) 0 (l.view c.glob))[m]? = some ks := by
  unfold stagesOf at h
  split at h
  · exact ⟨_, _, _, _, ‹_›, h⟩
  · cases h

theorem stagesOf_eq {c : State} {i : ℕ} {l : Session} {s : Sql} {k : Resp (.sql s) → Prog Op Resp Reply}
    {h : Hist} (hi : c.thread i = some ⟨l, .call (.sql s) k, h⟩) :
    stagesOf c i = s.stages (l.now c.glob) 0 (l.view c.glob) := by
  simp only [stagesOf, hi]

/-- How far a thread is: at the level of its next statement, or in its transaction. -/
def place (t : Thread Op Resp Session World Reply) : ℕ :=
  match t.prog with
  | .call (.sql s) _ => s.level.getD (lockPhase t).rank
  | _ => (lockPhase t).rank

/-- How far a thread is in its transaction. -/
def rankOf (c : State) (i : ℕ) : ℕ := (c.thread i).elim 0 fun t => (lockPhase t).rank

theorem rankOf_eq {c : State} {i : ℕ} {t : Thread Op Resp Session World Reply}
    (ht : c.thread i = some t) : rankOf c i = (lockPhase t).rank := by
  simp [rankOf, ht]

theorem Held.pos {n : ℕ} {ws : List (Write Row)} {k : Ref} (h : Held n ws k) : 0 < n := by
  cases k with
  | token | tokenHash | event => exact Nat.lt_of_lt_of_le (by decide) (show _ ≤ n from h)
  | user | username | email => exact h.1
  | key | refresh | refreshHash => exact h.elim

/-- Who holds a key that a statement of a transaction needs is past the level of the statement. -/
theorem level_lt {s : Sql} {n m now pick : ℕ} {view : List Row} {ws : List (Write Row)} {k : Ref}
    (hlevel : s.level = some n) (hk : k ∈ (s.exec now pick view).touched) (hheld : Held m ws k)
    (hfresh : ∀ r ws', ws = ins r :: ws' → ∀ o ∈ view, k ∈ o.keys → k ∉ r.keys) : n < m := by
  cases s with
  | insertUser =>
    cases hlevel
    exact hheld.pos
  | insertToken =>
    cases hlevel
    rcases mem_keys_token (touched_insertOwned _ _ _ _ ▸ hk) with rfl | rfl <;> exact hheld
  | consumeToken =>
    cases hlevel
    obtain ⟨t, ht⟩ := touched_consumeToken hk
    rcases mem_keys_token ht with rfl | rfl <;> exact hheld
  | markEmailVerified | updatePassword =>
    cases hlevel
    obtain ⟨u, hu, hku⟩ := touched_updateLive hk fun _ => rfl
    have hpast : (m < 3 → ∃ r ws', ws = ins r :: ws' ∧ k ∈ r.keys) → 2 < m := fun hf => by
      by_contra hlt
      obtain ⟨r, ws', hws, hkr⟩ := hf (by omega)
      exact hfresh r ws' hws _ hu hku hkr
    rcases mem_keys_user hku with rfl | rfl | rfl <;> exact hpast hheld.2
  | insertEvent =>
    cases hlevel
    change k ∈ (insertRow view (.event _)).touched at hk
    rw [touched_insertRow] at hk
    obtain rfl := List.mem_singleton.mp hk
    exact hheld
  | _ => cases hlevel

variable {dep : Deployment} {scope : Scope} {db : List Row} {clock : ℕ} {c : State}

/-- How far `i` is. -/
def placeOf (c : State) (i : ℕ) : ℕ := (c.thread i).elim 0 place

/-- A row that a session sees is committed, or one whose keys the session has locked. -/
theorem mem_of_view (hdb : UniqueKeys db) (hc : Reachable (machine dep scope) (boot db clock) c) {i : ℕ}
    {t : Thread Op Resp Session World Reply} (hi : c.thread i = some t) {o : Row}
    (ho : o ∈ t.loc.view c.glob) : o ∈ c.glob.db ∨ ∀ r ∈ o.keys, c.glob.store.lock r = some i := by
  have hpid : t.loc.pid = i := (origin_reachable hc i _ hi).pid
  unfold Session.view at ho
  cases htx : t.loc.tx with
  | none =>
    rw [htx] at ho
    exact Or.inl ho
  | some tx =>
    rw [htx] at ho
    rcases mem_of_mem_applyAll ho with ho | ⟨w, hw, rfl⟩
    · exact Or.inl ho
    · refine Or.inr fun r hr => ?_
      rw [← hpid]
      exact ((keeps_fit hdb c hc i t hi).owns tx htx).locked w hw r (List.mem_append_left _ hr)

theorem rank_le_place (hc : Reachable (machine dep scope) (boot db clock) c) {i : ℕ}
    {t : Thread Op Resp Session World Reply} (ht : c.thread i = some t) : (lockPhase t).rank ≤ place t := by
  have hfollows := follows_thread hc ht
  obtain ⟨l, p, h⟩ := t
  change lockOrder.Follows _ (lockPhase ⟨l, p, h⟩) p at hfollows
  cases p with
  | ret a => exact Nat.le_refl _
  | call o k =>
    cases o with
    | sql s =>
      have hallows := hfollows.1
      change _ ≤ s.level.getD _
      generalize lockPhase ⟨l, .call (.sql s) k, h⟩ = phase at hallows ⊢
      cases phase with
      | outside => exact Nat.zero_le _
      | inside m =>
        rcases hallows with ⟨hash, rfl⟩ | ⟨m', hlevel, hm⟩
        · exact Nat.le_refl m
        · rw [hlevel]
          exact hm
    | _ => exact Nat.le_refl _

/-- A statement that no transaction is made of is outside of transactions. -/
theorem rank_of_unlevelled (hc : Reachable (machine dep scope) (boot db clock) c) {i : ℕ} {l : Session}
    {s : Sql} {k : Resp (.sql s) → Prog Op Resp Reply} {h : Hist}
    (hi : c.thread i = some ⟨l, .call (.sql s) k, h⟩) (hlevel : s.level = none)
    (htouched : (s.exec (l.now c.glob) 0 (l.view c.glob)).touched ≠ []) :
    (lockPhase ⟨l, .call (.sql s) k, h⟩).rank = 0 := by
  have hallows := (follows_thread hc hi).1
  change lockOrder.allows (lockPhase ⟨l, .call (.sql s) k, h⟩) _ at hallows
  generalize lockPhase ⟨l, .call (.sql s) k, h⟩ = phase at hallows ⊢
  cases phase with
  | outside => rfl
  | inside n =>
    rcases hallows with ⟨hash, rfl⟩ | ⟨m', hsome, -⟩
    · exact (htouched rfl).elim
    · cases hlevel.symm.trans hsome

/-- A call that has locked a key with an earlier statement is further than those that need the key. -/
theorem place_lt_of_blocked (hdb : UniqueKeys db) (hc : Reachable (machine dep scope) (boot db clock) c)
    {i j : ℕ} (h : Blocked c i j) : placeOf c i < rankOf c j := by
  obtain ⟨hne, l, o, k, hist, hi, r, hr, hlock⟩ := h
  cases o with
  | sql s =>
    obtain ⟨t, hj⟩ := Option.ne_none_iff_exists'.mp (owner_reachable hc r j hlock)
    have hpid : l.pid = i := (origin_reachable hc i _ hi).pid
    have hpid' : t.loc.pid = j := (origin_reachable hc j t hj).pid
    have hold' := holding_reachable hc hj
    rw [rankOf_eq hj]
    have hplace : placeOf c i = s.level.getD (lockPhase ⟨l, .call (.sql s) k, hist⟩).rank := by
      simp only [placeOf, hi, Option.elim_some, place]
    rw [hplace]
    generalize lockPhase t = s' at hold' ⊢
    cases s' with
    | outside => exact absurd (hpid'.symm ▸ hlock) (hold'.2 r)
    | inside m =>
      obtain ⟨tx', htx', -, hheld'⟩ := hold'
      have hheld : Held m tx'.writes r := hheld' r (by rw [hpid']; exact hlock)
      cases hlevel : s.level with
      | some n =>
        refine level_lt hlevel hr hheld fun r₀ ws₀ hws o ho hko hkr => ?_
        -- a row the session sees is committed, or one whose keys it has locked itself
        rcases mem_of_view hdb hc hi ho with ho | hown
        · have hvalid := ((keeps_fit hdb c hc j t hj).owns tx' htx').valid
          rw [hws] at hvalid
          exact hvalid.1 o ho hko hkr
        · rw [hown r hko] at hlock
          exact hne (Option.some.inj hlock)
      | none =>
        rw [rank_of_unlevelled hc hi hlevel (List.ne_nil_of_mem hr)]
        exact hheld.pos
  | _ => cases hr

/-- Past its row, an update waits for a new username. -/
theorem renaming_of_stage {n : ℕ → ℕ} {i : ℕ} {l : Session} {s : Sql} {k : Resp (.sql s) → Prog Op Resp Reply}
    {h : Hist} (hi : c.thread i = some ⟨l, .call (.sql s) k, h⟩) {x : Ref} (hrow : s.row = some x)
    (hn : n i ≠ 0) (hlt : n i < (stagesOf c i).length) : Renaming c n i := by
  rw [stagesOf_eq hi, Sql.stages, hrow] at hlt
  obtain ⟨r, hr⟩ : ∃ r, r ∈ (s.exec (l.now c.glob) 0 (l.view c.glob)).touched.filter
      fun r => r ∉ keysAt (l.view c.glob) x := by
    refine List.exists_mem_of_length_pos ?_
    simp only [List.length_cons, List.length_map] at hlt
    omega
  obtain ⟨hr, hnew⟩ := List.mem_filter.mp hr
  obtain ⟨userId, givenName, familyName, username, rfl⟩ := renames_of_new hrow hr (of_decide_eq_true hnew)
  exact ⟨l, userId, givenName, familyName, username, k, h, hn, hi⟩

/-- Only insertions, and who renames, have locked keys for a statement that waits. -/
theorem insert_of_taken {n : ℕ → ℕ} (htaking : Taking c n) {j : ℕ} {r : Ref} (hr : r ∈ taken c n j)
    (hj : ¬ Renaming c n j) : ∃ l s k h x, c.thread j = some ⟨l, .call (.sql s) k, h⟩ ∧ s.row = none ∧
      x < n j ∧ (s.exec (l.now c.glob) 0 (l.view c.glob)).touched[x]? = some r := by
  obtain ⟨ks, hks, hrks⟩ := List.mem_flatten.mp hr
  obtain ⟨x, hx⟩ := List.mem_iff_getElem?.mp hks
  have hlt : x < n j := by
    by_contra hge
    rw [List.getElem?_take_eq_none (Nat.le_of_not_lt hge)] at hx
    cases hx
  rw [List.getElem?_take_of_lt hlt] at hx
  obtain ⟨l, s, k, h, ht, hstage⟩ := exists_of_stage hx
  cases hrow : s.row with
  | some k =>
    have hpos : n j ≠ 0 := Nat.ne_of_gt (Nat.zero_lt_of_lt hlt)
    exact (hj (renaming_of_stage ht hrow hpos ((htaking.waits j).resolve_left hpos))).elim
  | none =>
    refine ⟨l, s, k, h, x, ht, hrow, hlt, ?_⟩
    rw [Sql.stages, hrow, List.getElem?_map] at hstage
    obtain ⟨r', hr', rfl⟩ := Option.map_eq_some_iff.mp hstage
    rw [List.mem_singleton.mp hrks]
    exact hr'

/-- **A call that renames nobody waits only for calls that are further**, or for one that renames. -/
theorem place_lt_of_waits (hdb : UniqueKeys db) (hc : Reachable (machine dep scope) (boot db clock) c)
    {n : ℕ → ℕ} (htaking : Taking c n) {i j : ℕ} (h : WaitsFor c n i j) (hi : ¬ Renaming c n i)
    (hj : ¬ Renaming c n j) : toLex (placeOf c i, n i) < toLex (placeOf c j, n j) := by
  obtain ⟨hne, ks, hks, r, hr, hlock⟩ := h
  obtain ⟨l, s, k, hist, ht, hstage⟩ := exists_of_stage hks
  have hneeds := mem_exec_of_stage (List.mem_of_getElem? hstage) hr
  rcases hlock with hlock | htaken
  · -- a key of an earlier statement
    have hlt := place_lt_of_blocked hdb hc ⟨hne, l, _, k, hist, ht, r, hneeds, hlock⟩
    obtain ⟨t, ht'⟩ := Option.ne_none_iff_exists'.mp (owner_reachable hc r j hlock)
    refine Prod.Lex.toLex_lt_toLex.mpr (Or.inl (hlt.trans_le ?_))
    rw [rankOf_eq ht', placeOf, ht']
    exact rank_le_place hc ht'
  · -- a key of an insertion that waits
    obtain ⟨l', s', k', hist', x, ht', hrow', hx, hr'⟩ := insert_of_taken htaking htaken hj
    cases hrow : s.row with
    | some y =>
      -- an update waits for its row, whose keys are not new
      have hzero : n i = 0 := by
        by_contra hn
        exact hi (renaming_of_stage ht hrow hn (List.getElem?_eq_some_iff.mp hks).1)
      rw [hzero, Sql.stages, hrow] at hstage
      obtain rfl : keysAt (l.view c.glob) y = ks := Option.some.inj hstage
      unfold keysAt at hr
      cases hfind : (l.view c.glob).find? fun o => o.primary = y with
      | none =>
        rw [hfind] at hr
        cases hr
      | some o =>
        rw [hfind] at hr
        rcases mem_of_view hdb hc ht (List.mem_of_find?_eq_some hfind) with ho | hown
        · exact (htaking.new j l' s' k' hist' ht' hrow' r htaken o ho hr).elim
        · exact (hne (htaking.free j r htaken i (hown r hr))).elim
    | none =>
      -- two insertions lock their keys in one order
      rw [Sql.stages, hrow, List.getElem?_map] at hstage
      obtain ⟨r₀, hr₀, rfl⟩ := Option.map_eq_some_iff.mp hstage
      obtain rfl := List.mem_singleton.mp hr
      obtain ⟨hindex, hlevel⟩ := index_of_insert hrow hr₀
      obtain ⟨hindex', hlevel'⟩ := index_of_insert hrow' hr'
      have hplace : placeOf c i = placeOf c j := by
        simp only [placeOf, ht, ht', Option.elim_some, place]
        cases hsome : s.level with
        | some m =>
          rw [hlevel', ← hlevel, hsome]
          rfl
        | none =>
          have hsome' : s'.level = none := by rw [hlevel', ← hlevel, hsome]
          rw [hsome', rank_of_unlevelled hc ht hsome (List.ne_nil_of_mem hneeds),
            rank_of_unlevelled hc ht' hsome' (List.ne_nil_of_mem (List.mem_of_getElem? hr'))]
      refine Prod.Lex.toLex_lt_toLex.mpr (Or.inr ⟨hplace, ?_⟩)
      rw [← hindex, hindex']
      exact hx

/-- A call needs only what calls have locked that are further in their transaction. -/
theorem rank_of_blocked (hdb : UniqueKeys db) (hc : Reachable (machine dep scope) (boot db clock) c)
    {i j : ℕ} (h : Blocked c i j) : rankOf c i < rankOf c j := by
  obtain ⟨-, l, o, k, hist, hi, -⟩ := id h
  refine Nat.lt_of_le_of_lt ?_ (place_lt_of_blocked hdb hc h)
  rw [rankOf_eq hi, placeOf, hi]
  exact rank_le_place hc hi

end Waiting

end Identity
