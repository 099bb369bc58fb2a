import HomeServices.Identity.Execution

/-!
# Concurrent password changes

`update_password` reads the hash, checks the current password against it, and overwrites whatever
hash it finds. Calls that find the hash they read behave as if run one after another.

* `usersRead`, `unraced`: the UPDATE of a call finds the hash that the call read.
* `Change`, `Chained`: committed changes of one hash, in order.
* `Serialized`, **`serialized_reachable`**: the committed changes of a run, as a log.
* **`update_password_serial`**: results and hashes are those of the log.
* **`update_password_race`**: a call authorized by a replaced password overwrites the newer one.
-/

namespace Identity

open ReadCommitted Interaction

section Passwords

variable [Platform]

/-! ## Calls that find what they read -/

/-- The rows of a user that a call read by id. -/
def usersRead (userId : Uuid) (h : Hist) : List User :=
  h.filterMap fun e => match e.op, e.resp with
    | .sql (.userById id), .ok (some u) => if id = userId then some u else none
    | _, _ => none

theorem mem_usersRead {userId : Uuid} {h : Hist} {u : User}
    (ha : Answered h (.sql (.userById userId)) (.ok (some u))) : u ∈ usersRead userId h := by
  obtain ⟨l, g, l', g', he⟩ := ha
  exact List.mem_filterMap.mpr ⟨_, he, if_pos rfl⟩

/-- An UPDATE of a password finds its user live, with the hash that the call read. -/
def findsRead (h : Hist) (g : World) : Op → Bool
  | .sql (.updatePassword userId _) => (usersRead userId h).all fun u => (users g.db).any fun v =>
      v.id = userId && v.deletedAt = none && v.passwordHash = u.passwordHash
  | _ => true

/-- Every UPDATE of a password finds what its call read. -/
def unraced (allowed : Request → Prop) : Scope where
  allowed
  guard h o _ g := findsRead h g o = true

instance (allowed : Request → Prop) [DecidablePred allowed] :
    DecidablePred (unraced allowed).allowed := inferInstanceAs (DecidablePred allowed)

instance (allowed : Request → Prop) (h : Hist) (o : Op) (l : Session) (g : World) :
    Decidable ((unraced allowed).guard h o l g) := inferInstanceAs (Decidable (_ = true))

/-! ## Chains of changes -/

/-- A committed change of a password. -/
structure Change where
  call : ℕ
  currentPassword : String
  newPassword : String
  replaced : String
  written : String

/-- Each change replaces the hash that the one before it wrote. -/
def Chained : String → List Change → String → Prop
  | hash, [], last => hash = last
  | hash, ch :: log, last => ch.replaced = hash ∧ Chained ch.written log last

omit [Platform] in
theorem Chained.append (ch : Change) : ∀ {log : List Change} {hash : String},
    Chained hash log ch.replaced → Chained hash (log ++ [ch]) ch.written
  | [], _, h => ⟨h.symm, rfl⟩
  | _ :: _, _, h => ⟨h.1, h.2.append ch⟩

/-! ## What a commit does to a hash -/

/-- A write that keeps the hash of the user `x`. -/
def KeepsHash (x : Uuid) (w : Write Row) : Prop :=
  ∀ u v, w.old = some (.user u) → w.new = .user v → u.id = x → v.passwordHash = u.passwordHash

theorem hash_apply {x : Uuid} {db : List Row} {w : Write Row} (hdb : UniqueKeys db)
    (hw : Valid db w) (hk : KeepsRow w) (hx : KeepsHash x w) {u : StoredUser} (hu : .user u ∈ db)
    (hid : u.id = x) :
    ∃ v, .user v ∈ w.apply db ∧ v.id = x ∧ v.passwordHash = u.passwordHash := by
  by_cases hold : w.old = some (.user u)
  · have hev := hk _ hold
    cases hnew : w.new with
    | user v =>
      rw [hnew] at hev
      exact ⟨v, hw.mem_apply.mpr (Or.inl hnew.symm), hev.1.trans hid, hx u v hold hnew hid⟩
    | _ => rw [hnew] at hev; exact hev.elim
  · refine ⟨u, hw.mem_apply.mpr (Or.inr ⟨hu, fun o ho heq => hold ?_⟩), hid, rfl⟩
    obtain ⟨old, new⟩ := w
    cases ho
    rw [hdb.eq_of_primary hu hw.1 heq]

theorem hash_applyAll {x : Uuid} : ∀ {ws : List (Write Row)} {db : List Row}, UniqueKeys db →
    ValidAll db ws → (∀ w ∈ ws, KeepsRow w) → (∀ w ∈ ws, KeepsHash x w) → ∀ {u : StoredUser},
    .user u ∈ db → u.id = x →
    ∃ v, .user v ∈ applyAll ws db ∧ v.id = x ∧ v.passwordHash = u.passwordHash
  | [], _, _, _, _, _, u, hu, hid => ⟨u, hu, hid, rfl⟩
  | w :: ws, db, hdb, hv, hk, hx, u, hu, hid => by
    obtain ⟨v, hv', hvid, hhash⟩ :=
      hash_apply hdb hv.1 (hk w List.mem_cons_self) (hx w List.mem_cons_self) hu hid
    obtain ⟨v', hmem, hvid', hhash'⟩ := hash_applyAll (hdb.apply hv.1) hv.2
      (fun w hw => hk w (List.mem_cons_of_mem _ hw)) (fun w hw => hx w (List.mem_cons_of_mem _ hw))
      hv' hvid
    exact ⟨v', hmem, hvid', hhash'.trans hhash⟩

variable {dep : Deployment} {allowed : Request → Prop} {scope : Scope} {db : List Row} {clock : ℕ}
  {c c' : State} {i : ℕ} {th : Thread Op Resp Session World Reply} {ws : List (Write Row)} {x : Uuid}

/-- Only a change of the password of `x` writes its hash. -/
theorem keepsHash_of_wrote {h : Hist} {req : Request} (hw : Wrote dep h req ws)
    (hne : ∀ currentPassword newPassword, req ≠ .updatePassword x currentPassword newPassword) :
    ∀ w ∈ ws, KeepsHash x w := by
  intro w hmem u v hold hnew hid
  cases hw with
  | signingKey | login | setKeyStatus | markPublished =>
    simp only [List.mem_singleton] at hmem
    subst hmem
    cases hold
  | signUp | resendVerification =>
    simp only [List.mem_cons, List.not_mem_nil, or_false] at hmem
    rcases hmem with rfl | rfl | rfl <;> cases hold
  | verifyEmail =>
    simp only [List.mem_cons, List.not_mem_nil, or_false] at hmem
    rcases hmem with rfl | rfl <;> cases hold
    cases hnew
    rfl
  | updateProfile | setUserStatus | softDelete =>
    simp only [List.mem_singleton] at hmem
    subst hmem
    cases hold
    cases hnew
    rfl
  | @updatePassword userId current new _ _ _ _ _ _ _ _ _ _ ws _ _ _ _ _ _ hws =>
    rcases List.mem_append.mp hmem with hmem | hmem
    · rcases hws with ⟨rfl, -⟩ | ⟨v', -, hvid, -, rfl⟩
      · cases hmem
      · obtain rfl := List.mem_singleton.mp hmem
        cases hold
        exact absurd rfl (hid ▸ hvid ▸ hne current new)
    · obtain rfl := List.mem_singleton.mp hmem
      cases hold

/-- A call that finds what it read replaces a hash its current password verifies against. -/
theorem change_of_commit (hdb : UniqueKeys db)
    (hc : Reachable (machine dep (unraced allowed)) (boot db clock) c)
    (hw : MayCommit dep (unraced allowed) (boot db clock) c i th ws)
    {currentPassword newPassword : String}
    (hreq : th.loc.request = .updatePassword x currentPassword newPassword) :
    ∃ v hash salt event now, .user v ∈ c.glob.db ∧ v.id = x ∧
      verifyPassword currentPassword v.passwordHash = .ok () ∧
      hashPassword newPassword salt = .ok hash ∧
      ws = [upd (.user v) (.user { v with passwordHash := hash, updatedAt := now }),
        ins (.event event)] := by
  have hwrote := hw.wrote
  rw [hreq] at hwrote
  cases hwrote with
  | @updatePassword _ _ _ hash salt u h₁ e _ _ _ now _ ws _ hsuf hread hver hhash hop hws =>
    -- the guard held when the UPDATE ran
    have hpast : Past dep (unraced allowed) (boot db clock) c e.pre :=
      hw.past e.pre ⟨e, hsuf.subset List.mem_cons_self, rfl⟩
    have hguard : findsRead h₁ e.pre e.op = true := (entry_step hc (fun _ => rfl) ⟨th, hw.thread, hsuf⟩).2
    rw [hop] at hguard
    obtain ⟨v₀, hv₀, hfound⟩ := List.any_eq_true.mp (List.all_eq_true.mp hguard u (mem_usersRead hread))
    simp only [Bool.and_eq_true, decide_eq_true_eq] at hfound
    obtain ⟨⟨hid₀, hlive₀⟩, hhash₀⟩ := hfound
    have hv₀ := mem_users.mp hv₀
    rcases hws with ⟨-, hnone⟩ | ⟨v, hv, hvid, -, rfl⟩
    · exact absurd hlive₀ (hnone v₀ hv₀ hid₀)
    · obtain rfl := user_unique (hpast.unique hdb) hv hv₀ (hvid.trans hid₀.symm)
      exact ⟨v, hash, salt, _, now, hw.valid.1.1, hvid, hhash₀ ▸ hver, hhash, rfl⟩

/-! ## The log of a run -/

/-- A call of the run committed the change. -/
structure Performed (x : Uuid) (c : State) (ch : Change) : Prop where
  verified : verifyPassword ch.currentPassword ch.replaced = .ok ()
  hashed : ∃ salt, hashPassword ch.newPassword salt = .ok ch.written
  committed : ∃ e h v now, Happened c ch.call e h ∧ e.op = .commit ∧
    e.loc.request = .updatePassword x ch.currentPassword ch.newPassword ∧
    .user v ∈ e.pre.db ∧ v.id = x ∧ v.passwordHash = ch.replaced ∧
    .user { v with passwordHash := ch.written, updatedAt := now } ∈ e.post.db

/-- How many changes of the log a call made. -/
def madeBy (i : ℕ) (log : List Change) : ℕ := log.countP fun ch => ch.call = i

/-- The log is that of the run: it starts at `hash`, and what calls saw are its prefixes. -/
structure Serialized (x : Uuid) (hash : String) (c : State) (log : List Change) : Prop where
  current : ∃ v, .user v ∈ c.glob.db ∧ v.id = x ∧ Chained hash log v.passwordHash
  performed : ∀ ch ∈ log, Performed x c ch
  atMost : ∀ i t, c.thread i = some t → madeBy i log ≤ commits t.hist
  logged : ∀ i t currentPassword newPassword ws, c.thread i = some t →
    t.loc.request = .updatePassword x currentPassword newPassword → ws ≠ [] →
    Committed t.hist ws → 0 < madeBy i log
  seen : ∀ i t g, c.thread i = some t → Saw t.hist g → ∃ v old, .user v ∈ g.db ∧ v.id = x ∧
    old <+: log ∧ Chained hash old v.passwordHash

theorem Performed.step {ch : Change} (h : Performed x c ch) (hs : Step (machine dep scope) c c') :
    Performed x c' ch := by
  obtain ⟨e, h₁, v, now, he, hrest⟩ := h.committed
  exact ⟨h.verified, h.hashed, e, h₁, v, now, he.step hs, hrest⟩

omit [Platform] in
theorem madeBy_append (i : ℕ) (log new : List Change) :
    madeBy i (log ++ new) = madeBy i log + madeBy i new := List.countP_append

omit [Platform] in
theorem madeBy_other {j : ℕ} {new : List Change} (h : ∀ ch ∈ new, ch.call = j) (hij : i ≠ j) :
    madeBy i new = 0 := by
  refine List.countP_eq_zero.mpr fun ch hch => ?_
  rw [h ch hch]
  simpa using hij.symm

omit [Platform] in
theorem madeBy_self {j : ℕ} {new : List Change} (h : ∀ ch ∈ new, ch.call = j) :
    madeBy j new = new.length :=
  List.countP_eq_length.mpr fun ch hch => by simpa using h ch hch

theorem commits_cons (e : Event) (h : Hist) : commits (e :: h) = commits [e] + commits h := by
  rw [commits, commits, commits, ← List.countP_append]
  rfl

/-- A call's step extends the log by the change it makes, if it makes one. -/
theorem serialized_call {hash : String} {log : List Change} (new : List Change) {j : ℕ}
    {l l' : Session} {o : Op} {k : Resp o → Prog Op Resp Reply} {h : Hist} {r : Resp o} {g : World}
    (hser : Serialized x hash c log) (hj : c.thread j = some ⟨l, .call o k, h⟩)
    (hst : (machine dep scope).step h o l c.glob r l' g)
    (hcurrent : ∃ v, .user v ∈ g.db ∧ v.id = x ∧ Chained hash (log ++ new) v.passwordHash)
    (hnew : ∀ ch ∈ new, ch.call = j ∧
      Performed x ⟨g, Function.update c.thread j (some ⟨l', k r, ⟨o, r, l, c.glob, l', g⟩ :: h⟩)⟩ ch)
    (hcount : new.length ≤ commits [⟨o, r, l, c.glob, l', g⟩])
    (hlogged : ∀ currentPassword newPassword ws,
      l'.request = .updatePassword x currentPassword newPassword → ws ≠ [] →
      Committed [⟨o, r, l, c.glob, l', g⟩] ws → new ≠ []) :
    Serialized x hash
      ⟨g, Function.update c.thread j (some ⟨l', k r, ⟨o, r, l, c.glob, l', g⟩ :: h⟩)⟩ (log ++ new) := by
  have hs := Step.call hj hst
  have hcalls : ∀ ch ∈ new, ch.call = j := fun ch hch => (hnew ch hch).1
  refine ⟨hcurrent, fun ch hch => ?_, fun i t ht => ?_, fun i t cur pw ws ht hreq hne hcom => ?_,
    fun i t g' ht hsaw => ?_⟩
  · rcases List.mem_append.mp hch with hch | hch
    · exact (hser.performed ch hch).step hs
    · exact (hnew ch hch).2
  · rw [madeBy_append]
    by_cases hij : i = j
    · subst hij
      simp only [Function.update_self, Option.some.injEq] at ht
      subst ht
      have hold := hser.atMost i _ hj
      rw [madeBy_self hcalls, commits_cons]
      exact (Nat.add_comm _ _).trans_le (Nat.add_le_add hcount hold)
    · rw [madeBy_other hcalls hij]
      exact hser.atMost i t (by simpa [Function.update_of_ne hij] using ht)
  · rw [madeBy_append]
    by_cases hij : i = j
    · subst hij
      simp only [Function.update_self, Option.some.injEq] at ht
      subst ht
      obtain ⟨l₁, g₁, l₂, g₂, t, hmem, htx⟩ := hcom
      rcases List.mem_cons.mp hmem with hmem | hmem
      · have hsome : new ≠ [] := hlogged cur pw ws hreq hne
          ⟨l₁, g₁, l₂, g₂, t, by rw [← hmem]; exact List.mem_singleton_self _, htx⟩
        rw [madeBy_self hcalls]
        exact Nat.add_pos_right _ (List.length_pos_of_ne_nil hsome)
      · have hreq' : l.request = .updatePassword x cur pw := by
          rw [← (performs_effects hst.1).request_eq]
          exact hreq
        exact Nat.add_pos_left (hser.logged i _ cur pw ws hj hreq' hne ⟨l₁, g₁, l₂, g₂, t, hmem, htx⟩) _
    · exact Nat.add_pos_left (hser.logged i t cur pw ws
        (by simpa [Function.update_of_ne hij] using ht) hreq hne hcom) _
  · have hprefix : log <+: log ++ new := List.prefix_append _ _
    have hold : ∀ t, c.thread i = some t → Saw t.hist g' → ∃ v old, .user v ∈ g'.db ∧ v.id = x ∧
        old <+: log ++ new ∧ Chained hash old v.passwordHash := fun t ht hsaw => by
      obtain ⟨v, old, hv, hid, hpre, hchain⟩ := hser.seen i t g' ht hsaw
      exact ⟨v, old, hv, hid, hpre.trans hprefix, hchain⟩
    by_cases hij : i = j
    · subst hij
      simp only [Function.update_self, Option.some.injEq] at ht
      subst ht
      obtain ⟨e, he, rfl⟩ := hsaw
      rcases List.mem_cons.mp he with rfl | he
      · obtain ⟨v, hv, hid, hchain⟩ := hser.current
        exact ⟨v, log, hv, hid, hprefix, hchain⟩
      · exact hold _ hj ⟨e, he, rfl⟩
    · exact hold t (by simpa [Function.update_of_ne hij] using ht) hsaw

theorem serialized_step {hash : String} {log : List Change} (hdb : UniqueKeys db)
    (hc : Reachable (machine dep (unraced allowed)) (boot db clock) c)
    (hser : Serialized x hash c log) (hs : Step (machine dep (unraced allowed)) c c') :
    ∃ log, Serialized x hash c' log := by
  have hstep := hs
  cases hs with
  | @env g henv =>
    obtain ⟨t, -, rfl⟩ := henv
    exact ⟨log, hser.current, fun ch hch => (hser.performed ch hch).step hstep, hser.atMost,
      hser.logged, hser.seen⟩
  | @spawn j l p hj hst =>
    refine ⟨log, hser.current, fun ch hch => (hser.performed ch hch).step hstep, fun i t ht => ?_,
      fun i t cur pw ws ht hreq hne hcom => ?_, fun i t g ht hsaw => ?_⟩ <;> by_cases hij : i = j
    · subst hij
      -- a call that has not started has changed nothing
      have hnone : madeBy i log = 0 := List.countP_eq_zero.mpr fun ch hch => by
        obtain ⟨e, h, v, now, ⟨t, ht, -⟩, -⟩ := (hser.performed ch hch).committed
        have hne : ch.call ≠ i := fun h => by rw [h, hj] at ht; cases ht
        simpa using hne
      rw [hnone]
      exact Nat.zero_le _
    · exact hser.atMost i t (by simpa [Function.update_of_ne hij] using ht)
    · subst hij
      simp only [Function.update_self, Option.some.injEq] at ht
      subst ht
      obtain ⟨_, _, _, _, _, hmem, -⟩ := hcom
      cases hmem
    · exact hser.logged i t cur pw ws (by simpa [Function.update_of_ne hij] using ht) hreq hne hcom
    · subst hij
      simp only [Function.update_self, Option.some.injEq] at ht
      subst ht
      obtain ⟨e, he, -⟩ := hsaw
      cases he
    · exact hser.seen i t g (by simpa [Function.update_of_ne hij] using ht) hsaw
  | @call j l o k h r l' g hj hst =>
    have hunique := (sound_reachable hdb hc).unique
    have hreqs := (performs_effects hst.1).request_eq
    by_cases hchange : ∃ cur pw ws, l.request = .updatePassword x cur pw ∧ ws ≠ [] ∧
        Commits l c.glob ws o ∧ g.db = applyAll ws c.glob.db
    · obtain ⟨cur, pw, ws, hreq, hne, hcom, hgdb⟩ := hchange
      have hw := mayCommit hdb hc hj hne hcom hst.2
      obtain ⟨v, new, salt, event, now, hv, hid, hver, hhash, rfl⟩ := change_of_commit hdb hc hw hreq
      obtain ⟨rfl, -⟩ := hcom.eq_commit (by simp)
      obtain ⟨v₀, hv₀, hid₀, hchain⟩ := hser.current
      obtain rfl := user_unique hunique hv hv₀ (hid.trans hid₀.symm)
      have hpost : .user { v with passwordHash := new, updatedAt := now } ∈ g.db := by
        rw [hgdb]
        exact List.mem_append_left _ ((mem_updUser hv).mpr (Or.inl rfl))
      refine ⟨_, serialized_call [⟨j, cur, pw, v.passwordHash, new⟩] hser hj hst
        ⟨_, hpost, hid, hchain.append ⟨j, cur, pw, v.passwordHash, new⟩⟩ (fun ch hch => ?_)
        (Nat.le_refl 1) fun _ _ _ _ _ _ => List.cons_ne_nil _ _⟩
      cases List.mem_singleton.mp hch
      exact ⟨rfl, hver, ⟨salt, hhash⟩, _, h, v, now, ⟨_, Function.update_self .., List.suffix_refl _⟩,
        rfl, hreq, hv, hid, rfl, hpost⟩
    · have hsame : ∃ v, .user v ∈ g.db ∧ v.id = x ∧ Chained hash (log ++ []) v.passwordHash := by
        obtain ⟨v, hv, hid, hchain⟩ := hser.current
        rw [List.append_nil]
        rcases (performs_effects hst.1).db_eq with he | ⟨ws, hcom, he⟩
        · exact ⟨v, he ▸ hv, hid, hchain⟩
        · by_cases hne : ws = []
          · subst hne
            exact ⟨v, he ▸ hv, hid, hchain⟩
          · have hw := mayCommit hdb hc hj hne hcom hst.2
            have hkeep := keepsHash_of_wrote hw.wrote fun cur pw hreq =>
              hchange ⟨cur, pw, ws, hreq, hne, hcom, he⟩
            obtain ⟨v', hv', hid', hh⟩ := hash_applyAll hunique hw.valid (hw.keeps hdb hc) hkeep hv hid
            exact ⟨v', he ▸ hv', hid', hh ▸ hchain⟩
      refine ⟨_, serialized_call [] hser hj hst hsame (fun ch hch => by cases hch)
        (Nat.zero_le _) fun cur pw ws hreq hne hcom => ?_⟩
      obtain ⟨l₁, g₁, l₂, g₂, t, hmem, htx⟩ := hcom
      cases List.mem_singleton.mp hmem
      exact absurd ⟨cur, pw, ws, hreqs ▸ hreq, hne, ⟨_, htx, rfl⟩, performs_commit_ok htx hst.1⟩ hchange
  | again _ hag => cases hag

/-- **The password changes of a run whose calls find what they read form a log.** -/
theorem serialized_reachable {u : StoredUser} (hdb : UniqueKeys db) (hu : .user u ∈ db)
    (hc : Reachable (machine dep (unraced allowed)) (boot db clock) c) :
    ∃ log, Serialized u.id u.passwordHash c log := by
  refine hc.invariant (I := fun c => ∃ log, Serialized u.id u.passwordHash c log) ?_
    fun _ _ hc ⟨_, hser⟩ hs => serialized_step hdb hc hser hs
  refine ⟨[], ⟨u, hu, rfl, rfl⟩, fun ch hch => ?_, fun i t ht => ?_, fun i t _ _ _ ht => ?_,
    fun i t _ ht => ?_⟩
  · cases hch
  all_goals cases ht

/-- **Results and hashes are those of the calls run one after another.** A call returned `ok` only if
its current password verifies against the hash that its own UPDATE replaced. -/
theorem update_password_serial {u : StoredUser} (hdb : UniqueKeys db) (hu : .user u ∈ db)
    (hc : Reachable (machine dep (unraced allowed)) (boot db clock) c) :
    ∃ log v, .user v ∈ c.glob.db ∧ v.id = u.id ∧ Chained u.passwordHash log v.passwordHash ∧
      (∀ ch ∈ log, Performed u.id c ch) ∧
      ∀ i l r h currentPassword newPassword, c.thread i = some ⟨l, .ret (.updatePassword r), h⟩ →
        l.request = .updatePassword u.id currentPassword newPassword →
        match r with
        | .ok () => ∃ ch ∈ log, ch.call = i ∧ madeBy i log = 1 ∧
            ch.currentPassword = currentPassword ∧ ch.newPassword = newPassword
        | .error .invalidCurrentPassword => madeBy i log = 0 ∧
            -- refused by the hash of some point of the log
            ∃ old hash, old <+: log ∧ Chained u.passwordHash old hash ∧
              verifyPassword currentPassword hash ≠ .ok ()
        | .error (.invalidNewPassword e) => madeBy i log = 0 ∧ validatePassword newPassword = .error e
        | .error .notFound => madeBy i log = 0
        | .error _ => madeBy i log ≤ 1 := by
  obtain ⟨log, hser⟩ := serialized_reachable hdb hu hc
  obtain ⟨v, hv, hid, hchain⟩ := hser.current
  refine ⟨log, v, hv, hid, hchain, hser.performed, fun i l r h cur pw ht hreq => ?_⟩
  have hpost := post_of_return hdb hc ht
  rw [hreq] at hpost
  have hmost := hser.atMost i _ ht
  match r, hpost with
  | .ok (), ⟨hone, ws, hne, hcom⟩ =>
    have hsome := hser.logged i _ cur pw ws ht hreq hne hcom
    obtain ⟨ch, hch, hcall⟩ := List.countP_pos_iff.mp hsome
    obtain rfl := of_decide_eq_true hcall
    obtain ⟨e, h₁, v', now, ⟨t, ht', htook⟩, -, hlog, -⟩ := (hser.performed ch hch).committed
    cases ht.symm.trans ht'
    have hreq' := ((origin_reachable hc _ _ ht).steps e htook.mem).1
    rw [hlog] at hreq'
    cases hreq'.trans hreq
    exact ⟨ch, hch, rfl, Nat.le_antisymm (hmost.trans_eq hone) hsome, rfl, rfl⟩
  | .error (.invalidNewPassword e), ⟨hzero, hval⟩ => exact ⟨Nat.le_zero.mp (hzero ▸ hmost), hval⟩
  | .error .notFound, ⟨hzero, _⟩ => exact Nat.le_zero.mp (hzero ▸ hmost)
  | .error .invalidCurrentPassword, ⟨hzero, _, g, w, hsaw, hw, hwid, _, hver⟩ =>
    obtain ⟨w', old, hw', hwid', hpre, hold⟩ := hser.seen i _ g ht hsaw
    obtain rfl := user_unique ((past_of_saw hc ht hsaw).unique hdb) hw hw' (hwid.trans hwid'.symm)
    exact ⟨Nat.le_zero.mp (hzero ▸ hmost), old, _, hpre, hold, hver⟩
  | .error (.db _), hle | .error .pool, hle | .error (.password _), hle
  | .error (.outbox _), hle => exact hmost.trans hle

end Passwords

open Sample

/-- A change of the password of `ada`, whose event has the id `event`. -/
def updatePassword (newPassword : String) : Request := .updatePassword 1 "password" newPassword

/-- What the change draws: the id of its event. -/
def changing (event : Uuid) : List Choice :=
  List.replicate 6 fine ++ [{ uuid := event }] ++ List.replicate 7 fine

/-- One change after another: the second no longer knows the password. -/
def changes : List Command :=
  call 0 (updatePassword "newer password") (changing 10) ++
    call 1 (updatePassword "stale password") (List.replicate 3 fine)

/-- The first change is the log, and the second is refused. -/
theorem update_password_serial_changes : ∃ c l h log v,
    execute deployment (unraced fun _ => True) (boot [.user ada] 0) changes = some c ∧
    c.thread 1 = some ⟨l, .ret (.updatePassword (.error .invalidCurrentPassword)), h⟩ ∧
    .user v ∈ c.glob.db ∧ Chained "$password" log v.passwordHash ∧ madeBy 1 log = 0 := by
  have hdb : UniqueKeys [Row.user ada] := List.pairwise_singleton _ _
  have hrun : (execute deployment (unraced fun _ => True) (boot [.user ada] 0) changes).any
      (returned 1 fun req r _ => req = updatePassword "stale password" &&
        r = .updatePassword (.error .invalidCurrentPassword)) = true := by decide +kernel
  obtain ⟨c, hexec, hc, hend⟩ := Driver.exists_of_execute hrun
  obtain ⟨l, r, h, ht, hend⟩ := of_returned hend
  simp only [Bool.and_eq_true, decide_eq_true_eq] at hend
  obtain ⟨hreq, rfl⟩ := hend
  obtain ⟨log, v, hv, -, hchain, -, hcalls⟩ := update_password_serial (u := ada) hdb
    List.mem_cons_self hc
  exact ⟨c, l, h, log, v, hexec, ht, hv, hchain, (hcalls 1 l _ h _ _ ht hreq).1⟩

/-- The first call reads; the second changes the password; the first overwrites it. -/
def lostChange : List Command :=
  call 0 (updatePassword "stale password") (List.replicate 2 fine) ++
    call 1 (updatePassword "newer password") (changing 11) ++
    ((changing 10).drop 2).map (.act 0)

/-- The commit of the stale change replaces the hash of the newer password. -/
def overwrites (e : Event) : Bool :=
  (match e.op, e.loc.request with
    | .commit, .updatePassword id current new =>
      id = 1 && current = "password" && new = "stale password"
    | _, _ => false) &&
  (users e.pre.db).any fun v => v.id = 1 && v.passwordHash = "$newer password" &&
    (users e.post.db).any fun w => w.id = 1 && w.passwordHash = "$stale password"

/-- **A call returns `ok` although its current password was replaced before it wrote.** -/
theorem update_password_race : ∃ c l h e v w,
    Reachable (machine deployment (.of fun _ => True)) (boot [.user ada] 0) c ∧
    c.thread 0 = some ⟨l, .ret (.updatePassword (.ok ())), h⟩ ∧ e ∈ h ∧ e.op = .commit ∧
    e.loc.request = .updatePassword 1 "password" "stale password" ∧
    .user v ∈ e.pre.db ∧ v.id = 1 ∧ verifyPassword "password" v.passwordHash ≠ .ok () ∧
    .user w ∈ e.post.db ∧ w.id = 1 ∧ w.passwordHash ≠ v.passwordHash := by
  have hrun : (execute deployment (.of fun _ => True) (boot [.user ada] 0) lostChange).any
      (returned 0 fun _ r h => r = .updatePassword (.ok ()) && h.any overwrites) = true := by
    decide +kernel
  obtain ⟨c, -, hc, hend⟩ := Driver.exists_of_execute hrun
  obtain ⟨l, r, h, ht, hend⟩ := of_returned hend
  simp only [Bool.and_eq_true, decide_eq_true_eq, List.any_eq_true] at hend
  obtain ⟨rfl, e, he, hover⟩ := hend
  simp only [overwrites, Bool.and_eq_true, List.any_eq_true, decide_eq_true_eq] at hover
  obtain ⟨hop, v, hv, ⟨hvid, hvhash⟩, w, hw, hwid, hwhash⟩ := hover
  split at hop
  · rename_i id current new hcommit hreq
    simp only [Bool.and_eq_true, decide_eq_true_eq] at hop
    obtain ⟨⟨rfl, rfl⟩, rfl⟩ := hop
    refine ⟨c, l, h, e, v, w, hc, ht, he, hcommit, hreq, mem_users.mp hv, hvid, ?_, mem_users.mp hw,
      hwid, ?_⟩
    · rw [hvhash]
      decide
    · rw [hvhash, hwhash]
      decide
  · cases hop

end Identity
