import HomeServices.Identity.Execution
import HomeServices.Identity.Responses

/-!
# Failed calls leave no trace

A handler writes with its last operation: the commit of its transaction, or a single statement. A
call that ends with an error therefore changed no row.

* `Quiet`: nothing that succeeded changed the database.
* `Traceless`: a handler that fails was quiet; `traceless_bind`, `traceless_query`,
  **`traceless_transaction`**: its rules.
* `traceless_signUp`, `traceless_resendVerification`, `traceless_verifyEmail`, `traceless_login`,
  `traceless_updateProfile`, `traceless_updatePassword`: the handlers.
* **`failed_call_traceless`**: in every run, a call that failed changed nothing.
-/

namespace Identity

open ReadCommitted Interaction

section Traceless

variable [Platform] {dep : Deployment} {h : Hist} {l l' : Session} {g g' : World} {o : Op}

/-- Operations that write nothing outside a transaction. -/
def Op.harmless : Op → Bool
  | sql s => s.reads
  | o => o.idle

/-- Operations inside a transaction. -/
def Op.inner : Op → Bool
  | sql _ => true
  | o => o.idle

/-- Nothing that succeeded changed the database. -/
def Quiet (h : Hist) : Prop := ∀ e ∈ h, failed e.op e.resp = false → e.post.db = e.pre.db

theorem quiet_nil : Quiet [] := fun _ he => by cases he

theorem Quiet.cons {e : Event} (hq : Quiet h)
    (he : failed e.op e.resp = false → e.post.db = e.pre.db) : Quiet (e :: h) := by
  intro e' he'
  rcases List.mem_cons.mp he' with rfl | he'
  · exact he
  · exact hq e' he'

/-- What commits nothing changes nothing. -/
theorem db_kept {r : Resp o} (hp : Performs o l g r l' g') (hno : ∀ ws, Commits l g ws o → ws = []) :
    g'.db = g.db := by
  rcases (performs_effects hp).db_eq with he | ⟨ws, hcom, he⟩
  · exact he
  · rw [he, hno ws hcom, applyAll_nil]

theorem idle_commits (ho : o.idle = true) {ws : List (Write Row)} (hcom : Commits l g ws o) :
    ws = [] := by
  cases o <;> first | exact hcom.elim | cases ho

/-- The program ends in `Q`, whatever happens beside it. -/
abbrev Ends {α : Type} (Q : Hist → Session → α → Prop) (h : Hist) (l : Session)
    (p : Prog Op Resp α) : Prop :=
  Safe (fun _ o l g r l' g' => Performs o l g r l' g') (fun _ _ => True) (fun _ _ _ _ => True) Q h l p

/-- Outside a transaction, harmless operations are quiet. -/
theorem quiet_harmless {r : Resp o} (ho : o.harmless = true) (hp : Performs o l g r l' g')
    (hq : Quiet h ∧ l.tx = none) : Quiet (⟨o, r, l, g, l', g'⟩ :: h) ∧ l'.tx = none := by
  by_cases hidle : o.idle = true
  · rw [performs_idle hidle hp]
    exact ⟨hq.1.cons fun _ => db_kept hp fun _ => idle_commits hidle, hq.2⟩
  · cases o with
    | sql s =>
      rw [(performs_autocommit hq.2 hp).1]
      refine ⟨hq.1.cons fun _ => db_kept hp fun ws hcom => ?_, hq.2⟩
      obtain ⟨-, pick, a, -, rfl⟩ := hcom
      exact exec_reads ho _ _ _
    | _ => exact (hidle ho).elim

/-- Inside a transaction, statements are quiet, too. -/
theorem quiet_inner {r : Resp o} (ho : o.inner = true) (hp : Performs o l g r l' g')
    (hq : Quiet h ∧ l.tx.isSome = true) :
    Quiet (⟨o, r, l, g, l', g'⟩ :: h) ∧ l'.tx.isSome = true := by
  by_cases hidle : o.idle = true
  · rw [performs_idle hidle hp]
    exact ⟨hq.1.cons fun _ => db_kept hp fun _ => idle_commits hidle, hq.2⟩
  · obtain ⟨tx, htx⟩ := Option.isSome_iff_exists.mp hq.2
    cases o with
    | sql s =>
      refine ⟨hq.1.cons fun _ => db_kept hp fun ws hcom => ?_, ?_⟩
      · cases htx.symm.trans hcom.1
      · rcases performs_sql htx hp with ⟨e, -, rfl, -⟩ | ⟨pick, a, -, -, rfl⟩
        · exact hq.2
        · rfl
    | _ => exact (hidle ho).elim

/-! ## Rules -/

variable {ε α β : Type}

/-- A call of the handler that fails was quiet. -/
def Traceless (x : Handler Op Resp ε α) : Prop :=
  ∀ h l, Quiet h → l.tx = none → Ends (fun h _ r => r.isOk = false → Quiet h) h l x.run

theorem traceless_pure (a : α) : Traceless (pure a : Handler Op Resp ε α) :=
  fun _ _ hq _ _ => hq

/-- Harmless operations first. -/
theorem traceless_bind {x : Handler Op Resp ε α} {k : α → Handler Op Resp ε β}
    (hx : x.run.All fun o => o.harmless = true) (hk : ∀ a, Traceless (k a)) :
    Traceless (x >>= k) := by
  intro h l hq hl
  refine safe_run_bind.mpr ((safe_of_all (J := fun h l => Quiet h ∧ l.tx = none)
    (fun _ _ _ _ _ _ _ ho hp hq => quiet_harmless ho hp hq) hx ⟨hq, hl⟩).mono fun h l r hq => ?_)
  cases r with
  | error e => exact fun _ => hq.1
  | ok a => exact hk a h l hq.1 hq.2

/-- A single statement last. -/
theorem traceless_query {err : PgError → ε} {s : Sql} {f : s.Out → β} :
    Traceless (query err s >>= fun a => pure (f a)) := by
  refine fun h l hq hl => safe_attempt_bind.mpr fun g _ => ⟨trivial, fun r l' g' hp => ?_⟩
  cases r with
  | error e => exact fun _ => hq.cons fun hok => by cases hok
  | ok a => exact fun hfail => by cases hfail

/-- **A transaction last.** -/
theorem traceless_transaction {err : PgError → ε} {body : Handler Op Resp ε α}
    (hbody : body.run.All fun o => o.inner = true) : Traceless (transaction err body) := by
  intro h l hq hl
  refine safe_call.mpr fun g _ => ⟨trivial, fun r l' g' hp => ?_⟩
  have hbegun : Quiet (⟨.begin, r, l, g, l', g'⟩ :: h) :=
    hq.cons fun _ => db_kept hp fun _ hcom => hcom.elim
  rcases performs_begin hl hp with ⟨rfl, -⟩ | ⟨rfl, rfl⟩
  · exact fun _ => hbegun
  · refine safe_bind.mpr ((safe_of_all (J := fun h l => Quiet h ∧ l.tx.isSome = true)
      (fun _ _ _ _ _ _ _ ho hp hq => quiet_inner ho hp hq) hbody ⟨hbegun, rfl⟩).mono fun h l r hq => ?_)
    cases r with
    | error e =>
      refine safe_call.mpr fun g _ => ⟨trivial, fun r l' g' hp _ => ?_⟩
      exact hq.1.cons fun _ => db_kept hp fun _ hcom => hcom.elim
    | ok a =>
      refine safe_call.mpr fun g _ => ⟨trivial, fun r l' g' hp => ?_⟩
      cases r with
      | error e =>
        -- the failed commit is the answer's
        rcases (performs_commit hp).1 with he | he <;> cases he
        exact fun _ => hq.1.cons fun hok => by cases hok
      | ok _ => exact fun hfail => by cases hfail

/-! ## The handlers -/

theorem harmless_hashBlocking {err : PasswordError → ε} {password : String} :
    (hashBlocking err password).run.All fun o => o.harmless = true :=
  all_run_bind ⟨rfl, fun _ => trivial⟩ fun _ => all_run_bind ⟨rfl, fun _ => trivial⟩ fun _ => trivial

theorem harmless_verifyBlocking {err : PasswordError → ε} {refused : ε} {password hash : String} :
    (verifyBlocking err refused password hash).run.All fun o => o.harmless = true :=
  all_run_bind ⟨rfl, fun _ => trivial⟩ fun _ => trivial

theorem harmless_generateVerificationToken {err : CryptoError → ε} :
    (generateVerificationToken err).run.All fun o => o.harmless = true :=
  all_run_bind ⟨rfl, fun _ => trivial⟩ fun _ => trivial

theorem harmless_getActiveSigningKey {err : CryptoError → ε} {kek : Kek} :
    (getActiveSigningKey err kek).run.All fun o => o.harmless = true :=
  all_run_bind ⟨rfl, fun _ => trivial⟩ fun _ => all_run_bind ⟨rfl, fun _ => trivial⟩ fun _ =>
    all_run_bind trivial fun _ => trivial

theorem harmless_signJwt {err : CryptoError → ε} {algorithm : Algorithm} {kid : String}
    {claims : Claims} {keyPair : EcdsaKeyPair} :
    (signJwt err algorithm kid claims keyPair).run.All fun o => o.harmless = true :=
  all_run_bind ⟨rfl, fun _ => trivial⟩ fun _ => trivial

theorem harmless_attempt {o : Op} (ho : o.harmless = true) {f : Resp o → Except ε α} :
    (attempt o f).run.All fun o => o.harmless = true := ⟨ho, fun _ => trivial⟩

theorem harmless_fromExcept {x : Except ε α} :
    (fromExcept x : Handler Op Resp ε α).run.All fun o => o.harmless = true := trivial

theorem traceless_signUp {webBaseUrl username email givenName familyName : String}
    {password : Option String} :
    Traceless (SignUp.execute webBaseUrl username email givenName familyName password) := by
  unfold SignUp.execute
  refine traceless_bind harmless_fromExcept fun _ => ?_
  refine traceless_bind harmless_fromExcept fun _ => ?_
  refine traceless_bind harmless_fromExcept fun _ => ?_
  refine traceless_bind harmless_fromExcept fun _ => ?_
  refine traceless_bind harmless_hashBlocking fun _ => ?_
  refine traceless_bind (harmless_attempt rfl) fun _ => ?_
  refine traceless_bind (harmless_attempt rfl) fun _ => ?_
  refine traceless_bind (harmless_attempt rfl) fun _ => ?_
  refine traceless_bind harmless_generateVerificationToken fun _ => ?_
  refine traceless_bind (harmless_attempt rfl) fun _ => ?_
  refine traceless_bind (harmless_attempt rfl) fun _ => ?_
  refine traceless_bind (harmless_attempt rfl) fun _ => ?_
  refine traceless_bind (harmless_attempt rfl) fun _ => ?_
  refine traceless_transaction ?_
  exact all_run_bind ⟨rfl, fun _ => trivial⟩ fun _ => all_run_bind ⟨rfl, fun _ => trivial⟩ fun _ =>
    all_run_bind ⟨rfl, fun _ => trivial⟩ fun _ => trivial

theorem traceless_resendVerification {webBaseUrl email : String} :
    Traceless (ResendVerification.execute webBaseUrl email) := by
  unfold ResendVerification.execute
  refine traceless_bind (harmless_attempt rfl) fun _ => ?_
  refine traceless_bind (harmless_attempt rfl) fun found => ?_
  cases found with
  | none => exact traceless_pure _
  | some user =>
    dsimp only
    split_ifs with hpending
    · unfold ResendVerification.issue
      refine traceless_bind (harmless_attempt rfl) fun _ => ?_
      refine traceless_bind harmless_fromExcept fun _ => ?_
      refine traceless_bind (harmless_attempt rfl) fun _ => ?_
      refine traceless_bind (harmless_attempt rfl) fun _ => ?_
      refine traceless_bind harmless_generateVerificationToken fun _ => ?_
      refine traceless_bind (harmless_attempt rfl) fun _ => ?_
      refine traceless_bind (harmless_attempt rfl) fun _ => ?_
      refine traceless_bind (harmless_attempt rfl) fun _ => ?_
      refine traceless_transaction ?_
      exact all_run_bind ⟨rfl, fun _ => trivial⟩ fun _ =>
        all_run_bind ⟨rfl, fun _ => trivial⟩ fun _ => trivial
    · exact traceless_pure _

theorem traceless_verifyEmail {rawToken : String} : Traceless (VerifyEmail.execute rawToken) := by
  unfold VerifyEmail.execute
  refine traceless_bind harmless_fromExcept fun _ => ?_
  refine traceless_bind (harmless_attempt rfl) fun _ => ?_
  refine traceless_transaction ?_
  refine all_run_bind ⟨rfl, fun _ => trivial⟩ fun _ => all_run_bind trivial fun _ => ?_
  refine all_run_bind ⟨rfl, fun _ => trivial⟩ fun _ => all_run_bind trivial fun _ => ?_
  exact all_run_bind (all_run_bind ⟨rfl, fun _ => trivial⟩ fun _ => trivial) fun _ =>
    all_run_bind ⟨rfl, fun _ => trivial⟩ fun _ => trivial

theorem traceless_login {kek : Kek} {email password : String} :
    Traceless (Login.execute kek email password) := by
  unfold Login.execute Login.issue
  refine traceless_bind (harmless_attempt rfl) fun _ => ?_
  refine traceless_bind (harmless_attempt rfl) fun _ => ?_
  refine traceless_bind harmless_fromExcept fun _ => ?_
  refine traceless_bind harmless_verifyBlocking fun _ => ?_
  refine traceless_bind harmless_fromExcept fun _ => ?_
  refine traceless_bind harmless_getActiveSigningKey fun _ => ?_
  refine traceless_bind (harmless_attempt rfl) fun _ => ?_
  refine traceless_bind (harmless_attempt rfl) fun _ => ?_
  refine traceless_bind harmless_signJwt fun _ => ?_
  refine traceless_bind (harmless_attempt rfl) fun _ => ?_
  refine traceless_bind harmless_signJwt fun _ => ?_
  refine traceless_bind harmless_generateVerificationToken fun _ => ?_
  refine traceless_bind (harmless_attempt rfl) fun _ => ?_
  refine traceless_bind (harmless_attempt rfl) fun _ => ?_
  exact traceless_query

theorem traceless_updateProfile {userId : Uuid} {givenName familyName username : Option String} :
    Traceless (UpdateProfile.execute userId givenName familyName username) := by
  unfold UpdateProfile.execute
  refine traceless_bind harmless_fromExcept fun _ => ?_
  refine traceless_bind harmless_fromExcept fun _ => ?_
  refine traceless_bind (harmless_attempt rfl) fun _ => ?_
  exact traceless_query

theorem traceless_updatePassword {userId : Uuid} {currentPassword newPassword : String} :
    Traceless (UpdatePassword.execute userId currentPassword newPassword) := by
  unfold UpdatePassword.execute
  refine traceless_bind harmless_fromExcept fun _ => ?_
  refine traceless_bind (harmless_attempt rfl) fun _ => ?_
  refine traceless_bind (harmless_attempt rfl) fun _ => ?_
  refine traceless_bind harmless_fromExcept fun _ => ?_
  refine traceless_bind harmless_verifyBlocking fun _ => ?_
  refine traceless_bind harmless_hashBlocking fun _ => ?_
  refine traceless_bind (harmless_attempt rfl) fun _ => ?_
  refine traceless_bind (harmless_attempt rfl) fun _ => ?_
  refine traceless_bind (harmless_attempt rfl) fun _ => ?_
  refine traceless_bind (harmless_attempt rfl) fun _ => ?_
  refine traceless_bind (harmless_attempt rfl) fun _ => ?_
  refine traceless_transaction ?_
  exact all_run_bind ⟨rfl, fun _ => trivial⟩ fun _ =>
    all_run_bind ⟨rfl, fun _ => trivial⟩ fun _ => trivial

/-! ## Runs -/

/-- The handler failed. -/
def Reply.failed : Reply → Bool
  | .signUp r | .resendVerification r | .verifyEmail r | .updateProfile r | .updatePassword r => !r.isOk
  | .login r => !r.isOk
  | _ => false

/-- **Every handler that fails was quiet.** -/
theorem traceless_handler (req : Request) (hl : l.tx = none) :
    Ends (fun h _ r => r.failed = true → Quiet h) [] l (handler dep req) := by
  have hmutation : ∀ {ε α : Type} {x : Handler Op Resp ε α} {reply : Except ε α → Reply},
      Traceless x → (∀ r, (reply r).failed = !r.isOk) →
      Ends (fun h _ r => r.failed = true → Quiet h) [] l (x.run.bind fun r => .ret (reply r)) := by
    intro ε α x reply hx hreply
    refine safe_bind.mpr ((hx [] l quiet_nil hl).mono fun h l r hq hfail => hq ?_)
    rw [hreply] at hfail
    exact Bool.not_eq_true' _ ▸ hfail
  cases req with
  | signUp => exact hmutation traceless_signUp fun _ => rfl
  | resendVerification => exact hmutation traceless_resendVerification fun _ => rfl
  | verifyEmail => exact hmutation traceless_verifyEmail fun _ => rfl
  | login => exact hmutation traceless_login fun _ => rfl
  | updateProfile => exact hmutation traceless_updateProfile fun _ => rfl
  | updatePassword => exact hmutation traceless_updatePassword fun _ => rfl
  | ensureSigningKey | authenticate =>
    exact safe_bind.mpr (safe_trivial.mono fun _ _ _ _ hfail => by cases hfail)
  | setKeyStatus | setUserStatus | softDelete | markPublished =>
    exact fun g _ => ⟨trivial, fun r l' g' _ hfail => by cases hfail⟩

variable {scope : Scope} {db : List Row} {clock : ℕ} {c : State} {i : ℕ} {r : Reply}

/-- **A call that failed changed no row, where what failed in it was not applied**; if no other call
ran beside it, the database is as it was. -/
theorem failed_call_traceless (hc : Reachable (machine dep scope) (boot db clock) c)
    (ht : c.thread i = some ⟨l, .ret r, h⟩) (hfail : r.failed = true)
    (hlost : ∀ e ∈ h, failed e.op e.resp = true → e.post.db = e.pre.db) :
    (∀ e ∈ h, e.post.db = e.pre.db) ∧ ((∀ j, j ≠ i → c.thread j = none) → c.glob.db = db) := by
  have hquiet : Quiet h := by
    refine safe_reachable (Q := fun h _ r => r.failed = true → Quiet h) (I := fun _ _ => True)
      (C := fun _ _ _ _ => True) (fun _ _ _ _ _ => trivial) (fun _ => rfl) ?_
      (fun _ _ _ _ _ hag => by cases hag) hc i _ ht hfail
    rintro i l p ⟨req, -, rfl, rfl⟩
    exact Safe.weaken (fun _ _ _ _ _ _ _ hst => hst.1) (traceless_handler req rfl)
  have hkept : ∀ e ∈ h, e.post.db = e.pre.db := fun e he => by
    cases hf : failed e.op e.resp with
    | true => exact hlost e he hf
    | false => exact hquiet e he hf
  refine ⟨hkept, fun hothers => ?_⟩
  refine kept_of_entries (F := World.db) ?_ hc fun j e h' ⟨t, htj, htook⟩ => ?_
  · rintro g g' ⟨t, -, rfl⟩
    rfl
  · by_cases hji : j = i
    · subst hji
      cases ht.symm.trans htj
      exact hkept e htook.mem
    · rw [hothers j hji] at htj
      cases htj

end Traceless

open Sample

/-- A sign-up whose last insertion fails, after the user and the token were inserted. -/
def brokenSignUp : List Command :=
  (signUp 0 "ada" "ada@home" 1 5).take 14 ++ [.act 0 { fault := true }, .act 0 fine]

theorem failed_call_traceless_signUp : ∃ c,
    execute deployment (.of fun _ => True) (boot [] 0) brokenSignUp = some c ∧ c.glob.db = [] := by
  have hrun : (execute deployment (.of fun _ => True) (boot [] 0) brokenSignUp).any
      (returned 0 fun _ r h => r.failed && h.all fun e => e.post.db.isEmpty && e.pre.db.isEmpty) =
      true := by decide +kernel
  obtain ⟨c, hexec, hc, hend⟩ := Driver.exists_of_execute hrun
  obtain ⟨l, r, h, ht, hend⟩ := of_returned hend
  simp only [Bool.and_eq_true, List.all_eq_true, List.isEmpty_iff] at hend
  obtain ⟨hfail, hempty⟩ := hend
  refine ⟨c, hexec, (failed_call_traceless hc ht hfail fun e he _ => ?_).2 fun j hj => ?_⟩
  · obtain ⟨hpost, hpre⟩ := hempty e he
    rw [hpost, hpre]
  · refine Driver.execute_thread (fun cmd hcmd => ?_) hexec
    have htarget : brokenSignUp.all (·.target = some 0) = true := rfl
    rw [of_decide_eq_true (List.all_eq_true.mp htarget cmd hcmd)]
    exact fun e => hj (Option.some.inj e).symm

end Identity
