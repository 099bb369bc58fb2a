import HomeServices.Identity.Execution
import HomeServices.Identity.Responses

/-!
# Probing for accounts

Resends, and logins with a wrong password, for an address that may or may not have an account. A
resend is answered OK whether there is an account or not, until the account has its three tokens
of the hour: then the answer says that there is one.

* `probing`: the requests; `users_unchanged`: they change no user.
* `blank`: what a probe is answered where there is no account.
* `status_of_probe`, `status_of_blank_probe`: what one probe is answered.
* **`probes_alike_iff`**: the answers do not tell the databases apart exactly when no probe is
  limited; `limited_resend_tells`: one that is.
-/

namespace Identity

open ReadCommitted Interaction

section Probes

variable [Platform] {dep : Deployment} {db db₁ db₂ : List Row} {clock clock₁ clock₂ : ℕ}
  {c c₁ c₂ : State} {email : String} {wrong : String → Prop}

/-- Resends for the address, and logins for it with a wrong password. -/
def probing (email : String) (wrong : String → Prop) : Request → Prop
  | .resendVerification email' => email' = email
  | .login email' password => email' = email ∧ wrong password
  | _ => False

/-- The live user with this address, if there is one, has none of the wrong passwords. -/
def Wrong (email : String) (wrong : String → Prop) (db : List Row) : Prop :=
  ∀ u, .user u ∈ db → u.deletedAt = none → lower u.email = lower email →
    ∀ password, wrong password → verifyPassword password u.passwordHash ≠ .ok ()

def NoAccount (email : String) (db : List Row) : Prop :=
  ∀ u, .user u ∈ db → u.deletedAt = none → lower u.email ≠ lower email

/-- Probes change no user. -/
theorem users_unchanged (hdb : UniqueKeys db)
    (hc : Reachable (machine dep (.of (probing email wrong))) (boot db clock) c) :
    ∀ u, .user u ∈ c.glob.db ↔ .user u ∈ db := by
  refine db_invariant (P := fun db' => ∀ u, .user u ∈ db' ↔ .user u ∈ db) hdb
    (fun _ => Iff.rfl) ?_ hc
  intro c i t ws _ _ ih hw u
  obtain ⟨-, hallowed, hwrote, -⟩ := hw
  generalize t.loc.request = req at hwrote hallowed
  cases hwrote with
  | resendVerification | login =>
    rw [← ih u]
    simp
  | _ => exact hallowed.elim

/-- What a probe is answered where there is no account. -/
def blank : Request → Option Status
  | .login _ _ => some (Login.status .invalidCredentials)
  | _ => none

/-- The call is a resend that counted three recent tokens of its user. -/
def countedLimit : Request → Hist → Bool
  | .resendVerification _, h => limits h
  | _, _ => false

/-- The same, of a call of a run. -/
def isLimited (c : State) (i : ℕ) : Bool :=
  match c.thread i with
  | some t => countedLimit t.loc.request t.hist
  | none => false

/-- What the client of a call was answered, once it returned. -/
def answer (c : State) (i : ℕ) : Option (Option Status) :=
  match c.thread i with
  | some ⟨_, .ret r, _⟩ => some r.status
  | _ => none

section Call

variable {i : ℕ} {l : Session} {r : Reply} {h : Hist}

/-- Users that a probe saw are users of the database. -/
theorem user_of_probe (hdb : UniqueKeys db)
    (hc : Reachable (machine dep (.of (probing email wrong))) (boot db clock) c)
    (ht : c.thread i = some ⟨l, .ret r, h⟩) {g : World} (hsaw : Saw h g) {u : StoredUser}
    (hu : .user u ∈ g.db) : .user u ∈ db := by
  obtain ⟨c₁, hc₁, rfl, -⟩ := past_of_saw hc ht hsaw
  exact (users_unchanged hdb hc₁ u).mp hu

/-- **A probe that met no failure is answered as if there were no account, unless it is a resend
that counted three tokens of one.** -/
theorem status_of_probe (hdb : UniqueKeys db) (hwrong : Wrong email wrong db)
    (hc : Reachable (machine dep (.of (probing email wrong))) (boot db clock) c)
    (ht : c.thread i = some ⟨l, .ret r, h⟩) (hok : ¬ Failed h) :
    (r.status = blank l.request ∧ countedLimit l.request h = false) ∨
    (r.status ≠ blank l.request ∧ countedLimit l.request h = true ∧ ¬ NoAccount email db) := by
  have hallowed : probing email wrong l.request := (origin_reachable hc i _ ht).allowed
  have hpost := post_of_return hdb hc ht
  cases hreq : l.request with
  | resendVerification address =>
    rw [hreq] at hallowed hpost
    obtain rfl : address = email := hallowed
    cases r with
    | resendVerification reply =>
      rcases reply with e | ⟨⟨⟩⟩
      · by_cases he : e = .rateLimited
        · subst he
          obtain ⟨hlimits, g, u, hsaw, hu, hlive, haddress⟩ := hpost
          refine Or.inr ⟨Option.some_ne_none _, hlimits, fun hnone => ?_⟩
          exact hnone u (user_of_probe hdb hc ht hsaw hu) hlive haddress
        · cases e <;> first | exact (he rfl).elim | exact (hok hpost).elim
      · exact Or.inl ⟨rfl, hpost.resolve_left hok⟩
    | _ => exact hpost.elim
  | login address password =>
    rw [hreq] at hallowed hpost
    obtain ⟨rfl, hp⟩ : address = email ∧ wrong password := hallowed
    have hunverified : ∀ g u, Saw h g → .user u ∈ g.db → u.deletedAt = none →
        lower u.email = lower address → verifyPassword password u.passwordHash ≠ .ok () :=
      fun g u hsaw hu hlive haddress =>
        hwrong u (user_of_probe hdb hc ht hsaw hu) hlive haddress password hp
    cases r with
    | login reply =>
      cases reply with
      | error e =>
        rcases hpost with rfl | hfailed | ⟨g, u, hsaw, hu, hlive, haddress, hverified⟩
        · exact Or.inl ⟨rfl, rfl⟩
        · exact (hok hfailed).elim
        · exact (hunverified g u hsaw hu hlive haddress hverified).elim
      | ok result =>
        obtain ⟨u, k, key, now, jti, idJti, hauth, -, -⟩ := hpost
        obtain ⟨g, hsaw, hu⟩ := hauth.sawUser
        exact (hunverified g u hsaw hu hauth.live hauth.address hauth.verified).elim
    | _ => exact hpost.elim
  | _ => rw [hreq] at hallowed; exact hallowed.elim

end Call

/-- The call returned in both runs, was asked the same, and met no failure in either. -/
def paired (c₁ c₂ : State) (i : ℕ) : Bool :=
  match c₁.thread i, c₂.thread i with
  | some ⟨l₁, .ret _, h₁⟩, some ⟨l₂, .ret _, h₂⟩ =>
    l₁.request = l₂.request ∧ ¬ Failed h₁ ∧ ¬ Failed h₂
  | _, _ => false

theorem returned_of_paired {i : ℕ} (h : paired c₁ c₂ i = true) :
    ∃ l₁ r₁ h₁ l₂ r₂ h₂, c₁.thread i = some ⟨l₁, .ret r₁, h₁⟩ ∧
      c₂.thread i = some ⟨l₂, .ret r₂, h₂⟩ ∧ l₁.request = l₂.request ∧ ¬ Failed h₁ ∧ ¬ Failed h₂ := by
  unfold paired at h
  split at h
  · rename_i l₁ r₁ h₁ l₂ r₂ h₂ ht₁ ht₂
    exact ⟨l₁, r₁, h₁, l₂, r₂, h₂, ht₁, ht₂, of_decide_eq_true h⟩
  · cases h

/-- **Calls that probe for an account are answered the same with and without it exactly when no
resend among them counts three tokens of the account.** -/
theorem probes_alike_iff (hdb₁ : UniqueKeys db₁) (hdb₂ : UniqueKeys db₂)
    (hwrong : Wrong email wrong db₁) (hnone : NoAccount email db₂)
    (hc₁ : Reachable (machine dep (.of (probing email wrong))) (boot db₁ clock₁) c₁)
    (hc₂ : Reachable (machine dep (.of (probing email wrong))) (boot db₂ clock₂) c₂)
    {calls : List ℕ} (hcalls : ∀ i ∈ calls, paired c₁ c₂ i = true) :
    calls.map (answer c₁) = calls.map (answer c₂) ↔ ∀ i ∈ calls, isLimited c₁ i = false := by
  have hwrong₂ : Wrong email wrong db₂ := fun u hu hlive haddress =>
    (hnone u hu hlive haddress).elim
  rw [List.map_inj_left]
  refine forall_congr' fun i => forall_congr' fun hi => ?_
  obtain ⟨l₁, r₁, h₁, l₂, r₂, h₂, ht₁, ht₂, hreq, hok₁, hok₂⟩ :=
    returned_of_paired (hcalls i hi)
  have hblank : r₂.status = blank l₂.request := by
    rcases status_of_probe hdb₂ hwrong₂ hc₂ ht₂ hok₂ with ⟨hblank, -⟩ | ⟨-, -, haccount⟩
    · exact hblank
    · exact (haccount hnone).elim
  have hanswer : answer c₁ i = answer c₂ i ↔ r₁.status = blank l₁.request := by
    rw [answer, answer, ht₁, ht₂, hreq, ← hblank]
    exact Option.some_inj
  have hlimited : isLimited c₁ i = countedLimit l₁.request h₁ := by rw [isLimited, ht₁]
  rw [hanswer, hlimited]
  rcases status_of_probe hdb₁ hwrong hc₁ ht₁ hok₁ with ⟨hstatus, hcount⟩ | ⟨hstatus, hcount, -⟩
  · exact iff_of_true hstatus hcount
  · exact iff_of_false hstatus (by rw [hcount]; exact Bool.noConfusion)

end Probes

instance [Platform] (email : String) (wrong : String → Prop) [DecidablePred wrong] :
    DecidablePred (probing email wrong) := fun req => match req with
  | .resendVerification address => inferInstanceAs (Decidable (address = email))
  | .login address password => inferInstanceAs (Decidable (address = email ∧ wrong password))
  | .ensureSigningKey | .signUp .. | .verifyEmail _ | .authenticate _ | .updateProfile ..
  | .updatePassword .. | .setKeyStatus .. | .setUserStatus .. | .softDelete _ | .markPublished _ =>
    isFalse id

open Sample

/-- The requests that probe for the sample account. -/
abbrev probes : Scope := .of (probing "ada@home" (· ≠ "password"))

def guess (i : ℕ) (chs : List Choice) : List Command := call i (.login "ada@home" "12345678") chs

theorem wrong_ada : Wrong "ada@home" (· ≠ "password") [.user ada, .token adaToken] := by
  intro u hu _ _ password hpassword hverify
  simp only [List.mem_cons, Row.user.injEq, reduceCtorEq, List.not_mem_nil, or_false] at hu
  subst hu
  have hverified : platform.phcVerify password "$password" = true := by
    unfold verifyPassword at hverify
    split_ifs at hverify with _ h
    exact h
  have hchars : ('$' :: "password".toList : List Char) = '$' :: password.toList := of_decide_eq_true hverified
  exact hpassword (String.toList_injective (List.cons.inj hchars).2.symm)

theorem noAccount_nil : NoAccount "ada@home" [] := fun _ hu => by cases hu

/-- A wrong password and a resend are answered alike with and without the account. -/
theorem probes_alike_once : ∃ c₁ c₂,
    execute deployment probes (boot [.user ada, .token adaToken] 0)
      (guess 0 [fine, fine, fine] ++ resendVerification 1 "ada@home" 3 6) = some c₁ ∧
    execute deployment probes (boot [] 0)
      (guess 0 [fine, fine] ++ (resendVerification 1 "ada@home" 3 6).take 3) = some c₂ ∧
    [0, 1].map (answer c₁) = [0, 1].map (answer c₂) := by
  have hrun : ((execute deployment probes (boot [.user ada, .token adaToken] 0)
      (guess 0 [fine, fine, fine] ++ resendVerification 1 "ada@home" 3 6)).any fun c₁ =>
    (execute deployment probes (boot [] 0)
      (guess 0 [fine, fine] ++ (resendVerification 1 "ada@home" 3 6).take 3)).any fun c₂ =>
    [0, 1].all (paired c₁ c₂) && [0, 1].all (isLimited c₁ · = false)) = true := by decide +kernel
  obtain ⟨c₁, hexec₁, hc₁, hrun⟩ := Driver.exists_of_execute hrun
  obtain ⟨c₂, hexec₂, hc₂, hrun⟩ := Driver.exists_of_execute hrun
  obtain ⟨hpaired, hlimited⟩ := Bool.and_eq_true_iff.mp hrun
  refine ⟨c₁, c₂, hexec₁, hexec₂, (probes_alike_iff (unique_pair ada adaToken) List.Pairwise.nil
    wrong_ada noAccount_nil hc₁ hc₂ (List.all_eq_true.mp hpaired)).mpr fun i hi => ?_⟩
  exact of_decide_eq_true (List.all_eq_true.mp hlimited i hi)

/-- **Three resends are answered differently with and without the account.** -/
theorem limited_resend_tells : ∃ c₁ c₂,
    Reachable (machine deployment probes) (boot [.user ada, .token adaToken] 0) c₁ ∧
    Reachable (machine deployment probes) (boot [] 0) c₂ ∧
    (∀ i ∈ [0, 1, 2], paired c₁ c₂ i = true) ∧
    [0, 1, 2].map (answer c₁) ≠ [0, 1, 2].map (answer c₂) := by
  have hrun : ((execute deployment probes (boot [.user ada, .token adaToken] 0)
      (resendVerification 0 "ada@home" 3 6 ++ resendVerification 1 "ada@home" 5 7 ++
        (resendVerification 2 "ada@home" 7 8).take 4)).any fun c₁ =>
    (execute deployment probes (boot [] 0) ((resendVerification 0 "ada@home" 3 6).take 3 ++
      (resendVerification 1 "ada@home" 5 7).take 3 ++
      (resendVerification 2 "ada@home" 7 8).take 3)).any fun c₂ =>
    [0, 1, 2].all (paired c₁ c₂) &&
      decide ([0, 1, 2].map (answer c₁) ≠ [0, 1, 2].map (answer c₂))) = true := by decide +kernel
  obtain ⟨c₁, -, hc₁, hrun⟩ := Driver.exists_of_execute hrun
  obtain ⟨c₂, -, hc₂, hrun⟩ := Driver.exists_of_execute hrun
  obtain ⟨hpaired, hdiffer⟩ := Bool.and_eq_true_iff.mp hrun
  exact ⟨c₁, c₂, hc₁, hc₂, List.all_eq_true.mp hpaired, of_decide_eq_true hdiffer⟩

end Identity
