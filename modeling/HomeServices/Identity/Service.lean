import HomeServices.Identity.Services.Tokens

/-!
# The running service

Any number of calls, operator statements and publisher marks run side by side on one database,
each as a thread of the interaction machine. The database clock may advance at any time.

* `Deployment`, `Reply`, `handler`: what each request runs.
* `Scope`, `machine`, `boot`: which requests occur in a run, under which condition steps are taken.
* `Commits`, `Effects`, `performs_effects`: what a step commits, and what it does to the store.
* `Sound`, **`sound_reachable`**: keys stay unique, every session owns its writes, times pass.
* **`grows_reachable`**: rows of an earlier state are still there, evolved.
-/

namespace Identity

open ReadCommitted Interaction

structure Deployment where
  kek : Kek
  webBaseUrl : String

inductive Reply where
  | ensureSigningKey (r : Except EnsureSigningKeyError Unit)
  | signUp (r : Except SignUpError Unit)
  | resendVerification (r : Except ResendVerificationError Unit)
  | verifyEmail (r : Except VerifyEmailError Unit)
  | login (r : Except LoginError LoginResult)
  | authenticate (r : Except Status Uuid)
  | updateProfile (r : Except UpdateProfileError Unit)
  | updatePassword (r : Except UpdatePasswordError Unit)
  -- operator statements and publisher marks
  | statement (r : Except PgError ℕ)

variable [Platform]

/-- The program of a request. -/
def handler (dep : Deployment) : Request → Prog Op Resp Reply
  | .ensureSigningKey => (EnsureSigningKey.execute dep.kek).run.bind fun r => .ret (.ensureSigningKey r)
  | .signUp username email givenName familyName password =>
    (SignUp.execute dep.webBaseUrl username email givenName familyName password).run.bind
      fun r => .ret (.signUp r)
  | .resendVerification email =>
    (ResendVerification.execute dep.webBaseUrl email).run.bind fun r => .ret (.resendVerification r)
  | .verifyEmail rawToken => (VerifyEmail.execute rawToken).run.bind fun r => .ret (.verifyEmail r)
  | .login email password =>
    (Login.execute dep.kek email password).run.bind fun r => .ret (.login r)
  | .authenticate authorization =>
    (authenticate authorization).run.bind fun r => .ret (.authenticate r)
  | .updateProfile userId givenName familyName username =>
    (UpdateProfile.execute userId givenName familyName username).run.bind
      fun r => .ret (.updateProfile r)
  | .updatePassword userId currentPassword newPassword =>
    (UpdatePassword.execute userId currentPassword newPassword).run.bind
      fun r => .ret (.updatePassword r)
  | .setKeyStatus kid status => .call (.sql (.setKeyStatus kid status)) fun r => .ret (.statement r)
  | .setUserStatus userId status =>
    .call (.sql (.setUserStatus userId status)) fun r => .ret (.statement r)
  | .softDelete userId => .call (.sql (.softDelete userId)) fun r => .ret (.statement r)
  | .markPublished id => .call (.sql (.markPublished id)) fun r => .ret (.statement r)

abbrev Hist := List (Entry Op Resp Session World)

abbrev State := Config Op Resp Session World Reply

/-- The requests that occur, and what holds of every step that is taken. -/
structure Scope where
  allowed : Request → Prop
  guard : Hist → Op → Session → World → Prop

/-- No condition on steps. -/
def Scope.of (allowed : Request → Prop) : Scope := ⟨allowed, fun _ _ _ _ => True⟩

def machine (dep : Deployment) (scope : Scope) : Machine Op Resp Session World Reply where
  start i l p := ∃ req, scope.allowed req ∧ l = ⟨i, req, none⟩ ∧ p = handler dep req
  step h o l g r l' g' := Performs o l g r l' g' ∧ scope.guard h o l g
  again _ := none
  env g g' := ∃ t, g.clock ≤ t ∧ g' = { g with clock := t }

/-- A database no session has touched. -/
def World.fresh (db : List Row) (clock : ℕ) : World := ⟨⟨db, fun _ => none⟩, clock⟩

def boot (db : List Row) (clock : ℕ) : State := Config.initial (World.fresh db clock)

/-! ## What a step commits -/

/-- The operation may commit the writes. -/
def Commits (l : Session) (g : World) (ws : List (Write Row)) : Op → Prop
  | .commit => ∃ tx, l.tx = some tx ∧ ws = tx.writes
  | .sql s => l.tx = none ∧ ∃ pick a, (s.exec g.clock pick g.db).result = .ok a ∧
      ws = (s.exec g.clock pick g.db).writes
  | _ => False

/-- What an operation does to the store, by the locks and writes involved. -/
inductive Effects (l : Session) (g : World) : Op → Session → World → Prop
  | none {o : Op} : Effects l g o l g
  | begin : l.tx = .none → Effects l g .begin { l with tx := some ⟨g.clock, []⟩ } g
  | acquire {s : Sql} {tx : Tx} {pick : ℕ} {a : s.Out} {out : Outcome s.Out} : l.tx = some tx →
      out = s.exec tx.startedAt pick (applyAll tx.writes g.db) → out.result = .ok a →
      g.store.Free l.pid out.touched →
      Effects l g (.sql s) { l with tx := some { tx with writes := tx.writes ++ out.writes } }
        { g with store := g.store.acquire l.pid out.touched }
  | autocommit {s : Sql} {pick : ℕ} {a : s.Out} {out : Outcome s.Out} : l.tx = .none →
      out = s.exec g.clock pick g.db → out.result = .ok a → g.store.Free l.pid out.touched →
      Effects l g (.sql s) l
        { g with store := (g.store.acquire l.pid out.touched).commit l.pid out.writes }
  | commit {tx : Tx} : l.tx = some tx →
      Effects l g .commit { l with tx := .none } { g with store := g.store.commit l.pid tx.writes }
  | release {o : Op} : o = .commit ∨ o = .rollback →
      Effects l g o { l with tx := .none } { g with store := g.store.release l.pid }

/-- An executed operation has one of these effects. -/
theorem performs_effects {o : Op} {l l' : Session} {g g' : World} {r : Resp o}
    (h : Performs o l g r l' g') : Effects l g o l' g' := by
  obtain ⟨ch, h⟩ := h
  cases o with
  | begin =>
    simp only [perform] at h
    cases htx : l.tx with
    | some tx => simp [htx] at h
    | none =>
      simp only [htx] at h
      split_ifs at h <;> cases h
      · exact .none
      · exact .begin htx
  | commit =>
    simp only [perform] at h
    cases htx : l.tx with
    | none => simp [htx] at h
    | some tx =>
      simp only [htx] at h
      split_ifs at h <;> cases h
      · exact .release (Or.inl rfl)
      all_goals exact .commit htx
  | rollback => cases h; exact .release (Or.inr rfl)
  | sql s =>
    simp only [perform] at h
    cases htx : l.tx with
    | some tx =>
      simp only [htx] at h
      split_ifs at h with hf hfree
      · cases h; exact .none
      · cases hres : (s.exec tx.startedAt ch.pick (applyAll tx.writes g.db)).result with
        | error e => simp only [hres] at h; cases h; exact .none
        | ok a => simp only [hres] at h; cases h; exact .acquire htx rfl hres hfree
    | none =>
      simp only [htx] at h
      split_ifs at h with hf hfree
      · cases h; exact .none
      all_goals
        cases hres : (s.exec g.clock ch.pick g.db).result with
        | error e => simp only [hres] at h; cases h; exact .none
        | ok a => simp only [hres] at h; cases h; exact .autocommit htx rfl hres hfree
  | fillRandom n =>
    simp only [perform] at h
    split_ifs at h <;> cases h <;> exact .none
  | _ => simp only [perform, Option.some.injEq, Prod.mk.injEq] at h; obtain ⟨-, rfl, rfl⟩ := h; exact .none

theorem Effects.pid_eq {l l' : Session} {g g' : World} {o : Op} (h : Effects l g o l' g') :
    l'.pid = l.pid := by
  cases h <;> rfl

theorem Effects.request_eq {l l' : Session} {g g' : World} {o : Op} (h : Effects l g o l' g') :
    l'.request = l.request := by
  cases h <;> rfl

theorem Effects.clock_eq {l l' : Session} {g g' : World} {o : Op} (h : Effects l g o l' g') :
    g'.clock = g.clock := by
  cases h <;> rfl

/-- The database changes only by committed writes. -/
theorem Effects.db_eq {l l' : Session} {g g' : World} {o : Op} (h : Effects l g o l' g') :
    g'.db = g.db ∨ ∃ ws, Commits l g ws o ∧ g'.db = applyAll ws g.db := by
  cases h with
  | none | begin | acquire | release => exact Or.inl rfl
  | @autocommit s pick a out htx hout hres =>
    exact Or.inr ⟨out.writes, ⟨htx, pick, a, hout ▸ hres, by rw [hout]⟩, rfl⟩
  | @commit tx htx => exact Or.inr ⟨tx.writes, ⟨tx, htx, rfl⟩, rfl⟩

/-! ## Invariants of every run -/

/-- A session fits the world: it owns its writes, which keep what statements keep. -/
structure Fit (l : Session) (g : World) : Prop where
  unique : UniqueKeys g.db
  owns : ∀ tx, l.tx = some tx → Owns l.pid g.store tx.writes
  keeps : ∀ tx, l.tx = some tx → ∀ w ∈ tx.writes, KeepsRow w
  started : ∀ tx, l.tx = some tx → tx.startedAt ≤ g.clock

/-- Committed writes are valid where they are committed. -/
theorem Commits.valid {l : Session} {g : World} {ws : List (Write Row)} {o : Op} (hl : Fit l g)
    (h : Commits l g ws o) : ValidAll g.db ws := by
  cases o with
  | commit => obtain ⟨tx, htx, rfl⟩ := h; exact (hl.owns tx htx).valid
  | sql s => obtain ⟨-, pick, a, -, rfl⟩ := h; exact (exec_lawful _ _ _ _).valid
  | _ => exact h.elim

theorem Commits.keeps {l : Session} {g : World} {ws : List (Write Row)} {o : Op} (hl : Fit l g)
    (h : Commits l g ws o) : ∀ w ∈ ws, KeepsRow w := by
  cases o with
  | commit => obtain ⟨tx, htx, rfl⟩ := h; exact hl.keeps tx htx
  | sql s => obtain ⟨-, pick, a, -, rfl⟩ := h; exact (exec_lawful _ _ _ _).keeps
  | _ => exact h.elim

/-- Statements write one row; more are committed by a transaction. -/
theorem Commits.eq_commit {l : Session} {g : World} {ws : List (Write Row)} {o : Op}
    (h : Commits l g ws o) (hlen : 1 < ws.length) :
    o = .commit ∧ ∃ tx, l.tx = some tx ∧ ws = tx.writes := by
  cases o with
  | commit => exact ⟨rfl, h⟩
  | sql s =>
    obtain ⟨-, pick, a, -, rfl⟩ := h
    exact absurd (length_writes_le g.clock pick g.db s) (Nat.not_le.mpr hlen)
  | _ => exact h.elim

theorem owns_autocommit {l : Session} {g : World} {α : Type}
    {out : Outcome α} (hout : Lawful g.db out) :
    Owns l.pid (g.store.acquire l.pid out.touched) out.writes :=
  (owns_nil l.pid g.store).append hout.valid hout.touched

/-- A step keeps the session that takes it fit. -/
theorem Effects.fit_self {l l' : Session} {g g' : World} {o : Op} (h : Effects l g o l' g')
    (hl : Fit l g) : Fit l' g' := by
  have hview : ∀ tx, l.tx = some tx → UniqueKeys (applyAll tx.writes g.db) := fun tx htx =>
    hl.unique.applyAll (hl.owns tx htx).valid
  cases h with
  | none => exact hl
  | begin htx =>
    refine ⟨hl.unique, ?_, ?_, ?_⟩ <;> rintro tx ⟨⟩
    · exact owns_nil _ _
    · exact fun w hw => by cases hw
    · exact le_refl _
  | @acquire s tx pick a out htx hout hres hfree =>
    have hlaw : Lawful (applyAll tx.writes g.db) out := hout ▸ exec_lawful _ _ _ _
    refine ⟨hl.unique, ?_, ?_, ?_⟩ <;> rintro tx' ⟨⟩
    · exact (hl.owns tx htx).append hlaw.valid hlaw.touched
    · intro w hw
      rcases List.mem_append.mp hw with hw | hw
      · exact hl.keeps tx htx w hw
      · exact hlaw.keeps w hw
    · exact hl.started tx htx
  | @autocommit s pick a out htx hout hres hfree =>
    have hlaw : Lawful g.db out := hout ▸ exec_lawful _ _ _ _
    refine ⟨hl.unique.applyAll hlaw.valid, ?_, ?_, ?_⟩ <;>
      exact fun tx h => by rw [htx] at h; cases h
  | commit htx =>
    refine ⟨hl.unique.applyAll (hl.owns _ htx).valid, ?_, ?_, ?_⟩ <;> rintro _ ⟨⟩
  | release =>
    refine ⟨hl.unique, ?_, ?_, ?_⟩ <;> rintro _ ⟨⟩

/-- A step keeps every other session fit. -/
theorem Effects.fit_other {l l' l₂ : Session} {g g' : World} {o : Op} (h : Effects l g o l' g')
    (hl : Fit l g) (hl₂ : Fit l₂ g) (hne : l₂.pid ≠ l.pid) : Fit l₂ g' := by
  have hunique := (h.fit_self hl).unique
  refine ⟨hunique, fun tx₂ htx₂ => ?_, hl₂.keeps, fun tx₂ htx₂ => ?_⟩
  · have hown := hl₂.owns tx₂ htx₂
    cases h with
    | none | begin => exact hown
    | acquire _ _ _ hfree => exact hown.acquire_other hne hfree
    | @autocommit s pick a out htx hout hres hfree =>
      have hlaw : Lawful g.db out := hout ▸ exec_lawful _ _ _ _
      exact owns_commit_other hl.unique (hown.acquire_other hne hfree)
        (owns_autocommit hlaw) hne
    | commit htx => exact owns_commit_other hl.unique hown (hl.owns _ htx) hne
    | release => exact hown.release_other hne
  · rw [h.clock_eq]
    exact hl₂.started tx₂ htx₂

/-- What holds of every state of a run. -/
structure Sound (c : State) : Prop where
  unique : UniqueKeys c.glob.db
  fit : ∀ i t, c.thread i = some t → t.loc.pid = i ∧ Fit t.loc c.glob

section Runs

variable {dep : Deployment} {scope : Scope} {db : List Row} {clock : ℕ} {c c' : State}

theorem sound_step (h : Sound c) (hs : Step (machine dep scope) c c') : Sound c' := by
  cases hs with
  | @env g henv =>
    obtain ⟨t, ht, rfl⟩ := henv
    refine ⟨h.unique, fun i th hth => ⟨(h.fit i th hth).1, ?_⟩⟩
    have hf := (h.fit i th hth).2
    exact ⟨hf.unique, hf.owns, hf.keeps, fun tx htx => (hf.started tx htx).trans ht⟩
  | @spawn j l p hj hst =>
    obtain ⟨req, -, rfl, rfl⟩ := hst
    refine ⟨h.unique, fun i th hth => ?_⟩
    by_cases hij : i = j
    · subst hij
      simp only [Function.update_self, Option.some.injEq] at hth
      subst hth
      refine ⟨rfl, h.unique, ?_, ?_, ?_⟩ <;> rintro _ ⟨⟩
    · exact h.fit i th (by simpa [Function.update_of_ne hij] using hth)
  | @call j l o k hist r l' g hj hst =>
    have heff := performs_effects hst.1
    obtain ⟨hpid, hfit⟩ := h.fit j _ hj
    have hself := heff.fit_self hfit
    refine ⟨hself.unique, fun i th hth => ?_⟩
    by_cases hij : i = j
    · subst hij
      simp only [Function.update_self, Option.some.injEq] at hth
      subst hth
      exact ⟨heff.pid_eq.trans hpid, hself⟩
    · have hth' : c.thread i = some th := by simpa [Function.update_of_ne hij] using hth
      obtain ⟨hpid', hfit'⟩ := h.fit i th hth'
      refine ⟨hpid', heff.fit_other hfit hfit' ?_⟩
      rw [hpid', hpid]
      exact hij
  | again _ hag => cases hag

/-- **Keys stay unique and every session owns its writes, in every run.** -/
theorem sound_reachable (hdb : UniqueKeys db) (hc : Reachable (machine dep scope) (boot db clock) c) :
    Sound c :=
  hc.invariant (I := Sound) ⟨hdb, fun _ _ h => by cases h⟩ fun _ _ _ h hs => sound_step h hs

/-- A run of some requests is a run of more. -/
theorem reachable_widen {allowed allowed' : Request → Prop}
    (hallowed : ∀ req, allowed req → allowed' req)
    (hc : Reachable (machine dep (.of allowed)) c c') : Reachable (machine dep (.of allowed')) c c' := by
  refine Relation.ReflTransGen.mono (fun c c' hs => ?_) _ _ hc
  cases hs with
  | env henv => exact .env henv
  | spawn hj hst =>
    obtain ⟨req, hreq, hl, hp⟩ := hst
    exact .spawn hj ⟨req, hallowed req hreq, hl, hp⟩
  | call hj hst => exact .call hj hst
  | again _ hag => cases hag

/-- A step changes the database by writes that its thread commits. -/
theorem step_db (hs : Step (machine dep scope) c c') : c'.glob.db = c.glob.db ∨
    ∃ i l o ws, ∃ (k : Resp o → Prog Op Resp Reply) (hist : Hist),
      c.thread i = some ⟨l, .call o k, hist⟩ ∧ Commits l c.glob ws o ∧
      scope.guard hist o l c.glob ∧ c'.glob.db = applyAll ws c.glob.db := by
  cases hs with
  | env henv => obtain ⟨t, -, rfl⟩ := henv; exact Or.inl rfl
  | spawn => exact Or.inl rfl
  | @call j l o k hist r l' g hj hst =>
    rcases (performs_effects hst.1).db_eq with he | ⟨ws, hcom, he⟩
    · exact Or.inl he
    · exact Or.inr ⟨j, l, o, ws, k, hist, hj, hcom, hst.2, he⟩
  | again _ hag => cases hag

theorem grows_step (h : Sound c) (hs : Step (machine dep scope) c c') :
    Grows c.glob.db c'.glob.db := by
  rcases step_db hs with he | ⟨i, l, o, ws, k, hist, ht, hcom, -, he⟩
  · rw [he]; exact grows_refl _
  · have hfit := (h.fit i _ ht).2
    rw [he]
    exact grows_applyAll h.unique (hcom.valid hfit) (hcom.keeps hfit)

/-- **Rows of an earlier state are still there, evolved.** -/
theorem grows_reachable (h : Sound c) (hc : Reachable (machine dep scope) c c') :
    Grows c.glob.db c'.glob.db := by
  have key : Sound c' ∧ Grows c.glob.db c'.glob.db := by
    refine hc.invariant (I := fun c' => Sound c' ∧ Grows c.glob.db c'.glob.db)
      ⟨h, grows_refl _⟩ fun c₁ c₂ _ ih hs => ?_
    exact ⟨sound_step ih.1 hs, ih.2.trans (grows_step ih.1 hs)⟩
  exact key.2

end Runs

end Identity
