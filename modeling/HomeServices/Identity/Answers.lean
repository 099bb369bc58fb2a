import HomeServices.Identity.Connections

/-!
# What a call may be answered

The statuses of a refused call, and the tokens of a login, whatever the database and the random numbers
are.

* `Call.Answers`: an answer that a call may have; `Code.refuses`: the codes of a refused caller.
* `ErrorsIn`: a handler fails only in some ways; `errorsIn_bind`: its rule.
* **`answers_error`**: a refusal blames the caller, unless the rate of requests was too high.
* `answers_rateLimited`, **`answers_tokens`**: that one, and a login.
-/

namespace Identity

open Interaction

/-- The codes that tell a caller what is wrong with the request. -/
def Code.refuses : Code → Bool
  | invalidArgument | alreadyExists | notFound | unauthenticated | permissionDenied => true
  | _ => false

/-! ## Errors -/

section Rules

variable {Op : Type} {Resp : Op → Type} {ε α β : Type} {P : ε → Prop}

/-- The handler fails only in ways of `P`. -/
def ErrorsIn (P : ε → Prop) (x : Handler Op Resp ε α) : Prop := ∀ e, x.run.Yields (.error e) → P e

theorem errorsIn_pure (a : α) : ErrorsIn P (pure a : Handler Op Resp ε α) := fun _ h => by cases h

theorem errorsIn_bind {x : Handler Op Resp ε α} {f : α → Handler Op Resp ε β} (hx : ErrorsIn P x)
    (hf : ∀ a, ErrorsIn P (f a)) : ErrorsIn P (x >>= f) := by
  intro e h
  rcases yields_bind_error.mp h with h | ⟨a, -, h⟩
  · exact hx e h
  · exact hf a e h

theorem errorsIn_fromExcept {x : Except ε α} (hx : ∀ e, x = .error e → P e) :
    ErrorsIn P (fromExcept x : Handler Op Resp ε α) := fun e h => hx e h

theorem errorsIn_attempt {o : Op} {f : Resp o → Except ε α} (hf : ∀ r e, f r = .error e → P e) :
    ErrorsIn P (attempt o f) := fun e ⟨r, h⟩ => hf r e h

theorem bind_eq_error {x : Except ε α} {f : α → Except ε β} {e : ε} (h : (x >>= f) = .error e) :
    x = .error e ∨ ∃ a, x = .ok a ∧ f a = .error e := by
  cases x with
  | error e' => exact Or.inl (by cases h; rfl)
  | ok a => exact Or.inr ⟨a, rfl, h⟩

theorem orError_eq_error {e e' : ε} {o : Option α} (h : orError e o = .error e') : e' = e := by
  cases o <;> cases h
  rfl

theorem mapError_eq_error {ε' : Type} {x : Except ε' α} {f : ε' → ε} {e : ε}
    (h : x.mapError f = .error e) : ∃ e', e = f e' := by
  cases x <;> cases h
  exact ⟨_, rfl⟩

end Rules

section Answers

variable [Platform] {dep : Deployment} {ε α : Type}

/-- The call may be answered so, whatever its operations are answered. -/
def Call.Answers (dep : Deployment) (call : Call) (r : Except Status Answer) : Prop :=
  (call.onPool dep).run.Yields r

/-- Authentication fails for the caller, or internally. -/
def Unauthentic (s : Status) : Prop := s.code = .unauthenticated ∨ s.code = .internal

omit [Platform] in
theorem unauthentic_extractBearerToken {authorization : Option Bytes} {s : Status}
    (h : extractBearerToken authorization = .error s) : Unauthentic s := by
  rcases bind_eq_error h with h | ⟨_, -, h⟩
  · exact Or.inl (by rw [orError_eq_error h]; rfl)
  · rcases bind_eq_error h with h | ⟨_, -, h⟩
    · exact Or.inl (by rw [orError_eq_error h]; rfl)
    · exact Or.inl (by rw [orError_eq_error h]; rfl)

theorem unauthentic_decodeJwtHeader {token : String} {s : Status} (h : decodeJwtHeader token = .error s) :
    Unauthentic s := by
  rcases bind_eq_error h with h | ⟨_, -, h⟩
  · exact Or.inl (by rw [orError_eq_error h]; rfl)
  · exact Or.inl (by rw [orError_eq_error h]; rfl)

theorem unauthentic_checkToken {token : String} {jwk : Jwk} {now : UInt64} {s : Status}
    (h : checkToken token jwk now = .error s) : Unauthentic s := by
  rcases bind_eq_error h with h | ⟨_, -, h⟩
  · obtain ⟨_, rfl⟩ := mapError_eq_error h
    exact Or.inl rfl
  · rcases bind_eq_error h with h | ⟨_, -, h⟩
    · exact Or.inl (by rw [orError_eq_error h]; rfl)
    · exact Or.inl (by rw [orError_eq_error h]; rfl)

theorem errorsIn_authenticate (authorization : Option Bytes) :
    ErrorsIn Unauthentic (authenticateOnPool authorization) := by
  intro s hs
  rw [← Prog.yields_erase] at hs
  have herased : ErrorsIn Unauthentic (authenticate authorization) := by
    unfold authenticate listPublicJwks
    refine errorsIn_bind (errorsIn_fromExcept fun _ h => unauthentic_extractBearerToken h) fun _ => ?_
    refine errorsIn_bind (errorsIn_fromExcept fun _ h => unauthentic_decodeJwtHeader h) fun _ => ?_
    refine errorsIn_bind ?_ fun _ => ?_
    · refine errorsIn_bind (errorsIn_attempt fun _ _ h => ?_) fun _ => ?_
      · obtain ⟨_, rfl⟩ := mapError_eq_error h
        exact Or.inr rfl
      · refine errorsIn_bind (errorsIn_attempt fun _ _ h => ?_) fun _ => errorsIn_fromExcept fun _ h => ?_
        · obtain ⟨_, rfl⟩ := mapError_eq_error h
          exact Or.inr rfl
        · exact Or.inr (by rw [orError_eq_error h]; rfl)
    · refine errorsIn_bind (errorsIn_fromExcept fun _ h => ?_) fun _ => ?_
      · exact Or.inl (by rw [orError_eq_error h]; rfl)
      · refine errorsIn_bind (errorsIn_attempt fun _ _ h => ?_) fun _ => errorsIn_fromExcept fun _ h =>
          unauthentic_checkToken h
        obtain ⟨_, rfl⟩ := mapError_eq_error h
        exact Or.inr rfl
  rw [← erased_authenticate] at herased
  exact herased s hs

/-- A handler's errors are answered by their statuses. -/
theorem errorsIn_answered {P : Status → Prop} {status : ε → Status} {x : PoolHandler ε α}
    (hx : ∀ e, P (status e)) : ErrorsIn P (answered status x) := by
  intro s hs
  obtain ⟨r, -, hr⟩ := Prog.yields_bind.mp hs
  obtain ⟨e, rfl⟩ := mapError_eq_error (show r.mapError status = .error s from hr)
  exact hx e

theorem yields_answered_ok {status : ε → Status} {x : PoolHandler ε α} {a : α}
    (h : (answered status x).run.Yields (.ok a)) : x.run.Yields (.ok a) := by
  obtain ⟨r, hr, heq⟩ := Prog.yields_bind.mp h
  cases r <;> cases (show Except.mapError status _ = .ok a from heq)
  exact hr

/-- A refusal blames the caller, or is internal. -/
def Plainly (s : Status) : Prop := s.code.refuses = true ∨ s.code = .internal

omit [Platform] in
theorem Unauthentic.plainly {s : Status} (h : Unauthentic s) : Plainly s :=
  h.imp (fun h => by rw [h]; rfl) id

/-- **A refusal blames the caller or is internal, unless mails were requested too often.** -/
theorem answers_error {call : Call} {s : Status} (h : call.Answers dep (.error s)) :
    Plainly s ∨ ∃ email, call = .resendVerification email ∧ s = ResendVerification.status .rateLimited := by
  have hstatus : ∀ {ε : Type} {status : ε → Status}, (∀ e, Plainly (status e)) → ∀ {α β : Type}
      {x : PoolHandler ε α} {f : α → β}, ErrorsIn Plainly (answered status x >>= fun a => pure (f a)) :=
    fun hplain => errorsIn_bind (errorsIn_answered hplain) fun _ => errorsIn_pure _
  have hauth : ∀ authorization, ErrorsIn Plainly (authenticateOnPool authorization) :=
    fun authorization s hs => (errorsIn_authenticate authorization s hs).plainly
  cases call with
  | signUp =>
    refine Or.inl (hstatus (fun e => ?_) s h)
    cases e <;> first | exact Or.inl rfl | exact Or.inr rfl
  | login =>
    refine Or.inl (hstatus (fun e => ?_) s h)
    cases e <;> first | exact Or.inl rfl | exact Or.inr rfl
  | verifyEmail =>
    refine Or.inl (hstatus (fun e => ?_) s h)
    cases e <;> first | exact Or.inl rfl | exact Or.inr rfl
  | getJwks =>
    refine Or.inl (hstatus (fun e => ?_) s h)
    cases e <;> exact Or.inr rfl
  | userInfo authorization =>
    refine Or.inl (errorsIn_bind (hauth authorization) (fun _ => hstatus fun e => ?_) s h)
    cases e <;> first | exact Or.inl rfl | exact Or.inr rfl
  | updateProfile authorization =>
    refine Or.inl (errorsIn_bind (hauth authorization) (fun _ => hstatus fun e => ?_) s h)
    cases e <;> first | exact Or.inl rfl | exact Or.inr rfl
  | updatePassword authorization =>
    refine Or.inl (errorsIn_bind (hauth authorization) (fun _ => hstatus fun e => ?_) s h)
    cases e <;> first | exact Or.inl rfl | exact Or.inr rfl
  | resendVerification email =>
    rcases yields_bind_error.mp h with h | ⟨_, -, h⟩
    · obtain ⟨r, -, hr⟩ := Prog.yields_bind.mp h
      obtain ⟨e, rfl⟩ := mapError_eq_error (show r.mapError ResendVerification.status = .error s from hr)
      cases e with
      | rateLimited => exact Or.inr ⟨email, rfl, rfl⟩
      | _ => exact Or.inl (Or.inr rfl)
    · cases h

/-- Too many requests for mails may be answered so. -/
theorem answers_rateLimited (email : String) : (Call.resendVerification email).Answers dep
    (.error (ResendVerification.status .rateLimited)) := by
  refine yields_bind_error.mpr (Or.inl (Prog.yields_bind.mpr ⟨.error .rateLimited, ?_, rfl⟩))
  rw [← Prog.yields_erase]
  have hrun : (ResendVerification.execute dep.webBaseUrl email).run.Yields (.error .rateLimited) := by
    let user : User :=
      { id := 0, username := "", email, givenName := "", familyName := "", passwordHash := "",
        emailVerified := false, status := .pendingVerification, createdAt := 0, updatedAt := 0 }
    refine yields_bind_error.mpr (Or.inr ⟨(), ⟨.ok (), rfl⟩, ?_⟩)
    refine yields_bind_error.mpr (Or.inr ⟨some user, ⟨.ok (some user), rfl⟩, ?_⟩)
    change (ResendVerification.issue dep.webBaseUrl user).run.Yields (.error .rateLimited)
    refine yields_bind_error.mpr (Or.inr ⟨maxTokensPerHour, ⟨.ok maxTokensPerHour, rfl⟩, ?_⟩)
    exact yields_bind_error.mpr (Or.inl rfl)
  rw [← erased_resendVerification] at hrun
  exact hrun

/-- **The access token of a login names its user.** -/
theorem answers_tokens {email password : String} {a : Answer}
    (h : (Call.login email password).Answers dep (.ok a)) :
    ∃ result : LoginResult, ∃ algorithm kid user now jti signature, a = .tokens result ∧
      result.accessToken = signingInput algorithm kid (accessClaims user now jti) ++ "." ++
        Base64Url.encodeString signature := by
  obtain ⟨result, hresult, ha⟩ := yields_bind_ok.mp h
  cases ha
  have hrun := yields_answered_ok hresult
  rw [← Prog.yields_erase] at hrun
  change (erased (Login.onPool dep.kek email password)).run.Yields (.ok result) at hrun
  rw [erased_login] at hrun
  unfold Login.execute Login.issue at hrun
  simp only [yields_bind_ok] at hrun
  obtain ⟨_, -, _, -, user, -, _, -, _, -, key, -, now, -, accessId, -, jwt, hjwt, _, -, _, -, _, -, _, -,
    _, -, _, -, hend⟩ := hrun
  cases hend
  obtain ⟨signature, -, hsigned⟩ := yields_bind_ok.mp hjwt
  cases hsigned
  exact ⟨_, key.algorithm, key.kid, user, now, accessId, signature, rfl, rfl⟩

end Answers

end Identity
