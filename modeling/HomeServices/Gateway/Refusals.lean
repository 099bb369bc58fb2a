import HomeServices.Gateway.Isolation
import HomeServices.Identity.Answers
import HomeServices.Identity.Execution

/-!
# Refusals on their way to the client

A request of the gateway is refused by the identity service with a status, which the gateway turns into
a response of its own.

* `Rpc.call`, `Rpc.Replies`: the calls that the gateway forwards, and what they may be answered.
* **`replies_login`**: the tokens of a login can be read.
* `Telling`: a handler blames what went wrong; `telling_route`: every route does.
* `Refused`, `Blamed`: refusals of a caller stay errors of the client, and others have a cause.
* **`client_errors_iff`**: they do unless mails were requested too often.
-/

namespace Gateway

open Interaction
open Identity (Bytes Uuid Code Status Platform Deployment Answer Call asBytes headerText stripPrefix)

section Refusals

variable [Platform] {dep : Deployment}

/-! ## The calls -/

/-- The call of the identity service. -/
def Rpc.call : Rpc → Call
  | .signUp username givenName familyName email password =>
    .signUp username email givenName familyName password
  | .verifyEmail token => .verifyEmail token
  | .login email password => .login email password
  | .userInfo authorization => .userInfo (some (asBytes authorization))
  | .updateProfile authorization givenName familyName username =>
    .updateProfile (some (asBytes authorization)) givenName familyName username
  | .updatePassword authorization currentPassword newPassword =>
    .updatePassword (some (asBytes authorization)) currentPassword newPassword
  | .resendVerification email => .resendVerification email

/-- A time on the wire; the times of chrono end with the year 262142. -/
def timestamp (nanos : ℕ) : Option Timestamp :=
  if nanos / Identity.second ≤ 8210266876799 then
    some ⟨Int64.ofNat (nanos / Identity.second), Int32.ofNat (nanos % Identity.second)⟩
  else none

/-- The reply of a call that ends well. -/
def Rpc.reply : (rpc : Rpc) → Answer → Option rpc.Reply
  | .login _ _, .tokens result => (timestamp result.expiresAt).map fun t =>
      ⟨result.accessToken, result.idToken, result.refreshToken, some t⟩
  | .userInfo _, .user u => some
      ⟨Identity.uuidText u.id, u.givenName ++ " " ++ u.familyName, u.givenName, u.familyName, u.username,
        u.email, u.emailVerified⟩
  | .signUp .., .empty | .verifyEmail _, .empty | .updateProfile .., .empty | .updatePassword .., .empty
  | .resendVerification _, .empty => some ()
  | _, _ => none

/-- The identity service may reply so. -/
def Rpc.Replies (dep : Deployment) (rpc : Rpc) : Except Status rpc.Reply → Prop
  | .error s => rpc.call.Answers dep (.error s)
  | .ok reply => ∃ a, rpc.call.Answers dep (.ok a) ∧ rpc.reply a = some reply

omit [Platform] in
theorem expiry_timestamp {nanos : ℕ} {t : Timestamp} (h : timestamp nanos = some t) (response : LoginResponse)
    (hresponse : response.expiresAt = some t) : ∃ x, expiry response = .ok x := by
  unfold timestamp at h
  split_ifs at h with hle
  cases h
  have hsub : nanos % Identity.second < 1000000000 := Nat.mod_lt _ (by decide)
  generalize nanos / Identity.second = seconds at hle hresponse
  generalize nanos % Identity.second = subsec at hsub hresponse
  have hseconds : (Int64.ofNat seconds).toInt = seconds := Int64.toInt_ofNat_of_lt (by omega)
  have hnanos : (Int32.ofNat subsec).toInt = subsec := Int32.toInt_ofNat_of_lt (by omega)
  have hrange : DateTime.fromTimestamp (Int64.ofNat seconds) (Int32.ofNat subsec).toInt.toNat ≠ none := by
    unfold DateTime.fromTimestamp
    rw [hseconds, hnanos, Int.toNat_natCast, if_pos ⟨by omega, by omega, Or.inl hsub⟩]
    exact Option.some_ne_none _
  obtain ⟨at_, hat⟩ := Option.ne_none_iff_exists'.mp hrange
  unfold expiry
  rw [hresponse]
  simp only [hat]
  exact ⟨_, rfl⟩

/-- The user of an access token can be read. -/
theorem decodeSubFromJwt_signed (hjson : Identity.JsonRoundTrip) (huuid : Identity.UuidRoundTrip)
    (algorithm : Identity.Algorithm) (kid : String) (user : Identity.User) (now : ℕ) (jti : Uuid)
    (signature : Bytes) : decodeSubFromJwt (Identity.signingInput algorithm kid
      (Identity.accessClaims user now jti) ++ "." ++ Base64Url.encodeString signature) = .ok user.id := by
  have hdot : '.' ∉ (Base64Url.encodeString signature).toList := by
    rw [Base64Url.toList_encodeString]
    exact Base64Url.dot_notMem_encode _
  have hsegments : (Identity.segments (Identity.signingInput algorithm kid
      (Identity.accessClaims user now jti) ++ "." ++ Base64Url.encodeString signature))[1]? =
      some (Identity.encodeSegment (Identity.accessClaims user now jti).toJson) := by
    rw [Identity.segments_append, Identity.segments_of_notMem hdot, Identity.signingInput,
      Identity.segments_append, Identity.segments_of_notMem (Identity.dot_notMem_encodeSegment _),
      Identity.segments_of_notMem (Identity.dot_notMem_encodeSegment _)]
    rfl
  have hsub : (member (Identity.accessClaims user now jti).toJson "sub").asString =
      some (Identity.uuidText user.id) := rfl
  have hparse := hjson.2 (Identity.accessClaims user now jti) rfl
  unfold decodeSubFromJwt
  simp only [hsegments, Identity.encodeSegment, Base64Url.decodeVec_encodeString, hparse, hsub,
    huuid user.id]

/-- **The tokens of a login can be read.** -/
theorem replies_login (hjson : Identity.JsonRoundTrip) (huuid : Identity.UuidRoundTrip) {email password : String}
    {response : LoginResponse} (h : (Rpc.login email password).Replies dep (.ok response)) :
    (∃ id, decodeSubFromJwt response.accessToken = .ok id) ∧ ∃ x, expiry response = .ok x := by
  obtain ⟨a, ha, hreply⟩ := h
  obtain ⟨result, algorithm, kid, user, now, jti, signature, rfl, htoken⟩ := Identity.answers_tokens ha
  obtain ⟨t, ht, rfl⟩ := Option.map_eq_some_iff.mp hreply
  exact ⟨⟨user.id, by rw [htoken]; exact decodeSubFromJwt_signed hjson huuid ..⟩, expiry_timestamp ht _ rfl⟩

/-! ## What handlers blame -/

omit [Platform] in
/-- The operation was a call that was refused. -/
def refused : (o : Op) → Resp o → Bool
  | .rpc _, r => !r.isOk
  | _, _ => false

omit [Platform] in
/-- The operation was one of the session store, or drew a token for it, and failed. -/
def storeFailed : (o : Op) → Resp o → Bool
  | .fill, r | .insert _, r | .select _, r | .delete _, r => !r.isOk
  | _, _ => false

def Answered (h : Hist) (o : Op) (r : Resp o) : Prop := ∃ l g l' g', (⟨o, r, l, g, l', g'⟩ : Event) ∈ h

def Unrefused (h : Hist) : Prop := ∀ e ∈ h, refused e.op e.resp = false

def StoreFailed (h : Hist) : Prop := ∃ e ∈ h, storeFailed e.op e.resp = true

/-- A login was answered by tokens that cannot be read. -/
def Unread (h : Hist) : Prop := ∃ email password response,
  Answered h (.rpc (.login email password)) (.ok response) ∧
    ((∃ e, decodeSubFromJwt response.accessToken = .error e) ∨ ∃ e, expiry response = .error e)

omit [Platform] in
theorem Unrefused.cons {e : Event} {h : Hist} (hh : Unrefused h) (he : refused e.op e.resp = false) :
    Unrefused (e :: h) := by
  intro e' he'
  rcases List.mem_cons.mp he' with rfl | he'
  · exact he
  · exact hh e' he'

omit [Platform] in
theorem Unrefused.not_answered {h : Hist} (hh : Unrefused h) {rpc : Rpc} {s : Status} :
    ¬ Answered h (.rpc rpc) (.error s) := fun ⟨_, _, _, _, he⟩ => Bool.noConfusion (hh _ he)

/-- The result blames what the history contains. -/
def Blames {α : Type} (h : Hist) : Except AppError α → Prop
  | .ok _ | .error .unauthorized | .error .panicked => Unrefused h
  | .error (.grpc s) => (∃ rpc, Answered h (.rpc rpc) (.error s)) ∧
      ∀ rpc s', Answered h (.rpc rpc) (.error s') → s' = s
  | .error (.channel e) => Unrefused h ∧ Answered h .client (.error e)
  | .error (.session _) => Unrefused h ∧ (StoreFailed h ∨ Unread h)

omit [Platform] in
/-- The first refusal is the only one. -/
theorem Unrefused.only_refusal {h : Hist} (hh : Unrefused h) {rpc : Rpc} {s : Status} {l l' : Request}
    {g g' : World} : let h' : Hist := ⟨.rpc rpc, .error s, l, g, l', g'⟩ :: h
    (∃ rpc', Answered h' (.rpc rpc') (.error s)) ∧ ∀ rpc' s', Answered h' (.rpc rpc') (.error s') → s' = s := by
  refine ⟨⟨rpc, _, _, _, _, List.mem_cons_self⟩, ?_⟩
  rintro rpc' s' ⟨l₁, g₁, l₂, g₂, he⟩
  rcases List.mem_cons.mp he with he | he
  · cases he
    rfl
  · exact absurd ⟨l₁, g₁, l₂, g₂, he⟩ hh.not_answered

/-- The program ends in `Q`, whatever its operations are answered. -/
abbrev Ends {α : Type} (Q : Hist → Request → α → Prop) (h : Hist) (l : Request) (p : Prog Op Resp α) : Prop :=
  Safe (fun _ _ _ _ _ _ _ => True) (fun _ _ => True) (fun _ _ _ _ => True) Q h l p

section Rules

variable {α β : Type}

def Telling (x : Handler Op Resp AppError α) : Prop :=
  ∀ h l, Unrefused h → Ends (fun h _ r => Blames h r) h l x.run

/-- A handler of the session store fails with it. -/
def Storing (x : Handler Op Resp SessionError α) : Prop :=
  ∀ h l, Unrefused h → Ends (fun h _ r => Unrefused h ∧ (r.isOk = false → StoreFailed h)) h l x.run

theorem telling_pure (a : α) : Telling (pure a) := fun _ _ hh => hh

theorem telling_bind {x : Handler Op Resp AppError α} {k : α → Handler Op Resp AppError β} (hx : Telling x)
    (hk : ∀ a, Telling (k a)) : Telling (x >>= k) := by
  intro h l hh
  refine safe_run_bind.mpr ((hx h l hh).mono fun h l r hr => ?_)
  cases r with
  | error e => cases e <;> exact hr
  | ok a => exact hk a h l hr

theorem telling_fromExcept {x : Except AppError α}
    (hx : ∀ e, x = .error e → e = .unauthorized ∨ e = .panicked) :
    Telling (fromExcept x : Handler Op Resp AppError α) := by
  intro h l hh
  change Blames h x
  cases hr : x with
  | ok a => exact hh
  | error e => rcases hx e hr with rfl | rfl <;> exact hh

theorem telling_client : Telling identityClient := by
  refine fun h l hh => safe_call.mpr fun g _ => ⟨trivial, fun r l' g' _ => ?_⟩
  have hh := hh.cons (e := ⟨.client, r, l, g, l', g'⟩) rfl
  cases r with
  | ok _ => exact hh
  | error e => exact ⟨hh, _, _, _, _, List.mem_cons_self⟩

theorem telling_forward (rpc : Rpc) : Telling (forward rpc) := by
  refine fun h l hh => safe_call.mpr fun g _ => ⟨trivial, fun r l' g' _ => ?_⟩
  cases r with
  | ok reply => exact hh.cons rfl
  | error s => exact hh.only_refusal

theorem telling_stored {x : Handler Op Resp SessionError α} (hx : Storing x) : Telling (stored x) := by
  intro h l hh
  refine safe_bind.mpr ((hx h l hh).mono fun h l r hr => ?_)
  cases r with
  | ok a => exact hr.1
  | error e => exact ⟨hr.1, Or.inl (hr.2 rfl)⟩

omit [Platform] in
theorem storing_pure (a : α) : Storing (pure a) := fun _ _ hh => ⟨hh, fun hfail => by cases hfail⟩

omit [Platform] in
theorem storing_bind {x : Handler Op Resp SessionError α} {k : α → Handler Op Resp SessionError β}
    (hx : Storing x) (hk : ∀ a, Storing (k a)) : Storing (x >>= k) := by
  intro h l hh
  refine safe_run_bind.mpr ((hx h l hh).mono fun h l r hr => ?_)
  cases r with
  | error e => exact ⟨hr.1, fun _ => hr.2 rfl⟩
  | ok a => exact hk a h l hr.1

omit [Platform] in
theorem storing_attempt {o : Op} {f : Resp o → Except SessionError α} (ho : ∀ r, refused o r = false)
    (hf : ∀ r, (f r).isOk = false → storeFailed o r = true) : Storing (attempt o f) := by
  refine fun h l hh => safe_call.mpr fun g _ => ⟨trivial, fun r l' g' _ => ⟨hh.cons (ho r), fun hfail => ?_⟩⟩
  exact ⟨_, List.mem_cons_self, hf r hfail⟩

end Rules

omit [Platform] in
theorem findSessionCookie_error {pairs : List String} {e : AppError} (h : findSessionCookie pairs = .error e) :
    e = .unauthorized := by
  induction pairs with
  | nil =>
    cases h
    rfl
  | cons pair pairs ih =>
    unfold findSessionCookie at h
    cases hname : stripPrefix sessionCookie (trim pair) with
    | none =>
      rw [hname] at h
      exact ih h
    | some value =>
      simp only [hname] at h
      cases hvalue : stripPrefix "=" value with
      | none =>
        rw [hvalue] at h
        cases h
        rfl
      | some _ =>
        rw [hvalue] at h
        cases h

omit [Platform] in
theorem extractSessionCookie_error {headers : HeaderMap} {e : AppError}
    (h : extractSessionCookie headers = .error e) : e = .unauthorized := by
  unfold extractSessionCookie at h
  cases hcookie : headers.lookup "cookie" with
  | none =>
    rw [hcookie] at h
    cases h
    rfl
  | some value =>
    simp only [hcookie] at h
    cases htext : headerText value with
    | none =>
      rw [htext] at h
      cases h
      rfl
    | some text =>
      rw [htext] at h
      exact findSessionCookie_error h

theorem telling_authSession (headers : HeaderMap) : Telling (authSession headers) := by
  unfold authSession
  refine telling_bind (telling_fromExcept fun e he => Or.inl (extractSessionCookie_error he)) fun token => ?_
  refine telling_bind (telling_fromExcept fun e he => ?_) fun tokenHash => ?_
  · exact Or.inl (Identity.mapError_eq_error he).choose_spec
  refine telling_bind (telling_stored (storing_attempt (fun _ => rfl) fun r hr => ?_)) fun session => ?_
  · simp only [storeFailed, id] at hr ⊢
    rw [hr]
    rfl
  · refine telling_fromExcept fun e he => ?_
    cases session <;> cases he
    exact Or.inl rfl

theorem telling_withAuth (session : Session) : Telling (fromExcept (withAuth session)) := by
  refine telling_fromExcept fun e he => Or.inr ?_
  unfold withAuth at he
  cases htext : headerText (asBytes ("Bearer " ++ session.accessToken)) with
  | none =>
    simp only [htext] at he
    cases he
    rfl
  | some _ =>
    simp only [htext] at he
    cases he

theorem storing_createSession (userId : Uuid) (accessToken idToken refreshToken : String) (expiresAt : DateTime) :
    Storing (createSession userId accessToken idToken refreshToken expiresAt) := by
  unfold createSession generateSessionToken
  refine storing_bind (storing_bind (storing_attempt (fun _ => rfl) fun r hr => ?_) fun _ => storing_pure _)
    fun _ => ?_
  · cases r with
    | error _ => rfl
    | ok _ => cases hr
  refine storing_bind (storing_attempt (fun _ => rfl) fun r hr => by cases hr) fun _ => ?_
  refine storing_bind (storing_attempt (fun _ => rfl) fun r hr => ?_) fun _ => storing_pure _
  simp only [storeFailed, id] at hr ⊢
  rw [hr]
  rfl

theorem telling_login (email password : String) : Telling (Login.route email password) := by
  unfold Login.route
  refine telling_bind telling_client fun _ => fun h l hh => ?_
  -- what is read of the response is blamed on the response
  refine safe_attempt_bind.mpr fun g _ => ⟨trivial, fun r l' g' _ => ?_⟩
  cases r with
  | error s => exact hh.only_refusal
  | ok response =>
    have hh' := hh.cons (e := ⟨.rpc (.login email password), .ok response, l, g, l', g'⟩) rfl
    have hread : Answered (⟨.rpc (.login email password), .ok response, l, g, l', g'⟩ :: h)
        (.rpc (.login email password)) (.ok response) := ⟨_, _, _, _, List.mem_cons_self⟩
    dsimp only [OnResult, Except.mapError]
    refine safe_fromExcept_bind.mpr ?_
    cases hsub : decodeSubFromJwt response.accessToken with
    | error e => exact ⟨hh', Or.inr ⟨_, _, _, hread, Or.inl ⟨e, hsub⟩⟩⟩
    | ok userId =>
      dsimp only [OnResult, Except.mapError]
      refine safe_fromExcept_bind.mpr ?_
      cases hexpiry : expiry response with
      | error e => exact ⟨hh', Or.inr ⟨_, _, _, hread, Or.inr ⟨e, hexpiry⟩⟩⟩
      | ok x =>
        exact telling_bind (telling_stored (storing_createSession _ _ _ _ _)) (fun _ => telling_pure _) _ _ hh'

theorem telling_logout (headers : HeaderMap) : Telling (Logout.route headers) := by
  unfold Logout.route
  refine telling_bind (telling_authSession headers) fun session => ?_
  refine telling_bind (telling_stored (storing_attempt (fun _ => rfl) fun r hr => ?_)) fun _ => telling_pure _
  simp only [storeFailed, id] at hr ⊢
  rw [hr]
  rfl

/-- **Every route blames what went wrong.** -/
theorem telling_route (request : Request) : Telling (route request) := by
  cases request with
  | login email password => exact telling_login email password
  | logout headers => exact telling_logout headers
  | signUp | verifyEmail | resendVerification =>
    exact telling_bind telling_client fun _ => telling_bind (telling_forward _) fun _ => telling_pure _
  | userInfo headers | updateProfile headers | updatePassword headers =>
    exact telling_bind (telling_authSession headers) fun session => telling_bind telling_client fun _ =>
      telling_bind (telling_withAuth session) fun _ => telling_bind (telling_forward _) fun _ => telling_pure _

/-! ## Answers -/

omit [Platform] in
/-- The status of an answer, and the message of an error. -/
def answer : Except AppError Response → Option (ℕ × Option String)
  | .ok response => some (response.status, none)
  | .error e => e.response.map fun (status, message) => (status, some message)

/-- A refusal of the caller is an error of the client, with the message of the identity service. -/
def Refused (dep : Deployment) (h : Hist) (a : Except AppError Response) : Prop :=
  ∀ rpc s, Answered h (.rpc rpc) (.error s) → rpc.Replies dep (.error s) → s.code ≠ .internal →
    ∃ status, answer a = some (status, some s.message) ∧ 400 ≤ status ∧ status < 500

/-- An error of the server has a cause: the identity service was internally wrong or unavailable, or the
channel to it or the session store failed. -/
def Blamed (dep : Deployment) (h : Hist) (a : Except AppError Response) : Prop :=
  ∀ status message, answer a = some (status, message) → 500 ≤ status →
    (∃ rpc s, Answered h (.rpc rpc) (.error s) ∧ (s.code = .internal ∨ s.code = .unavailable)) ∨
    (∃ e, Answered h .client (.error e)) ∨
    (∃ rpc r, Answered h (.rpc rpc) r ∧ ¬ rpc.Replies dep r) ∨
    StoreFailed h

omit [Platform] in
/-- A request for a mail was refused since there were too many. -/
def RateLimited (h : Hist) : Prop := ∃ email, Answered h (.rpc (.resendVerification email))
  (.error (Identity.ResendVerification.status .rateLimited))

omit [Platform] in
theorem Response.status_lt (r : Response) : r.status < 500 := by
  cases r <;> simp [Response.status]

omit [Platform] in
theorem answer_refuses {s : Status} (h : s.code.refuses = true) :
    ∃ status, answer (.error (.grpc s)) = some (status, some s.message) ∧ 400 ≤ status ∧ status < 500 := by
  obtain ⟨code, message⟩ := s
  cases code with
  | invalidArgument => exact ⟨400, rfl, by decide, by decide⟩
  | alreadyExists => exact ⟨409, rfl, by decide, by decide⟩
  | notFound => exact ⟨404, rfl, by decide, by decide⟩
  | unauthenticated => exact ⟨401, rfl, by decide, by decide⟩
  | permissionDenied => exact ⟨403, rfl, by decide, by decide⟩
  | _ => cases h

/-- The identity service refuses calls of the gateway plainly, but for mails. -/
theorem plainly_of_replies {rpc : Rpc} {s : Status} (h : rpc.Replies dep (.error s)) :
    Identity.Plainly s ∨
      ∃ email, rpc = .resendVerification email ∧ s = Identity.ResendVerification.status .rateLimited := by
  refine (Identity.answers_error h).imp id fun ⟨email, hcall, hs⟩ => ⟨email, ?_, hs⟩
  cases rpc <;> cases hcall
  rfl

/-- The status of an error that went through the gateway is the one of the identity service. -/
theorem Blames.grpc {h : Hist} {a : Except AppError Response} (ha : Blames h a) {rpc : Rpc} {s : Status}
    (hs : Answered h (.rpc rpc) (.error s)) : a = .error (.grpc s) := by
  cases a with
  | ok response => exact (Unrefused.not_answered ha hs).elim
  | error e =>
    cases e with
    | grpc s' => rw [ha.2 rpc s hs]
    | unauthorized => exact (Unrefused.not_answered ha hs).elim
    | panicked => exact (Unrefused.not_answered ha hs).elim
    | channel _ => exact (ha.1.not_answered hs).elim
    | session _ => exact (ha.1.not_answered hs).elim

theorem Blames.refused {h : Hist} {a : Except AppError Response} (ha : Blames h a) (hrate : ¬ RateLimited h) :
    Refused dep h a := by
  intro rpc s hs hreplies hcode
  obtain rfl := ha.grpc hs
  rcases plainly_of_replies hreplies with (hplain | hplain) | ⟨email, rfl, rfl⟩
  · exact answer_refuses hplain
  · exact (hcode hplain).elim
  · exact (hrate ⟨email, hs⟩).elim

theorem Blames.blamed (hjson : Identity.JsonRoundTrip) (huuid : Identity.UuidRoundTrip) {h : Hist}
    {a : Except AppError Response} (ha : Blames h a) (hrate : ¬ RateLimited h) : Blamed dep h a := by
  intro status message hanswer hstatus
  cases a with
  | ok response =>
    cases hanswer
    exact absurd hstatus (Nat.not_le.mpr response.status_lt)
  | error e =>
    cases e with
    | unauthorized =>
      cases hanswer
      exact absurd hstatus (by decide)
    | panicked => cases hanswer
    | channel e => exact Or.inr (Or.inl ⟨e, ha.2⟩)
    | session e =>
      rcases ha.2 with hstore | ⟨email, password, response, hread, hbad⟩
      · exact Or.inr (Or.inr (Or.inr hstore))
      · refine Or.inr (Or.inr (Or.inl ⟨_, _, hread, fun hreplies => ?_⟩))
        obtain ⟨⟨id, hid⟩, ⟨x, hx⟩⟩ := replies_login hjson huuid hreplies
        rcases hbad with ⟨e, he⟩ | ⟨e, he⟩
        · cases hid.symm.trans he
        · cases hx.symm.trans he
    | grpc s =>
      obtain ⟨rpc, hs⟩ := ha.1
      by_cases hreplies : rpc.Replies dep (.error s)
      · rcases plainly_of_replies hreplies with (hplain | hplain) | ⟨email, rfl, rfl⟩
        · obtain ⟨status', hanswer', -, hlt⟩ := answer_refuses hplain
          rw [hanswer'] at hanswer
          cases hanswer
          exact absurd hstatus (Nat.not_le.mpr hlt)
        · exact Or.inl ⟨rpc, s, hs, Or.inl hplain⟩
        · exact (hrate ⟨email, hs⟩).elim
      · exact Or.inr (Or.inr (Or.inl ⟨rpc, _, hs, hreplies⟩))

/-- A request that was refused for its rate is answered as if the server were wrong. -/
theorem Blames.not_refused {h : Hist} {a : Except AppError Response} (ha : Blames h a) (hrate : RateLimited h) :
    answer a = some (500, some "internal server error") ∧ ¬ Refused dep h a := by
  obtain ⟨email, hs⟩ := hrate
  obtain rfl := ha.grpc hs
  refine ⟨rfl, fun hrefused => ?_⟩
  obtain ⟨status, hanswer, -, hlt⟩ := hrefused _ _ hs (Identity.answers_rateLimited email) (by decide)
  have hstatus : some 500 = some status := congrArg (Option.map Prod.fst) hanswer
  exact absurd hlt (by rw [← Option.some.inj hstatus]; decide)

/-- What a finished request is answered blames what went wrong, in every run. -/
theorem blames_of_return {allowed : Op → Choice → Prop} {c : State} (hc : Reachable (machine allowed) boot c)
    {i : ℕ} {l : Request} {a : Except AppError Response} {h : Hist} (ht : c.thread i = some ⟨l, .ret a, h⟩) :
    Blames h a := by
  have hsafe := safe_reachable (M := machine allowed) (I := fun _ _ => True) (C := fun _ _ _ _ => True)
    (Q := fun h _ a => Blames h a) (fun _ _ _ _ _ => trivial) (fun _ => rfl) (fun _ l p hp => ?_)
    (fun _ _ _ _ _ hagain => by cases hagain) hc i _ ht
  · exact hsafe
  · rw [hp]
    exact (telling_route l [] l fun _ he => (List.not_mem_nil he).elim).weaken fun _ _ _ _ _ _ _ _ => trivial

/-- **In every run, refusals of a caller stay errors of the client, and errors of the server have a cause,
exactly for the requests that are not refused for too many mails.** -/
theorem client_errors_iff (hjson : Identity.JsonRoundTrip) (huuid : Identity.UuidRoundTrip)
    {allowed : Op → Choice → Prop} {c : State} (hc : Reachable (machine allowed) boot c) {i : ℕ} {l : Request}
    {a : Except AppError Response} {h : Hist} (ht : c.thread i = some ⟨l, .ret a, h⟩) :
    (Refused dep h a ∧ Blamed dep h a) ↔ ¬ RateLimited h := by
  have hblames := blames_of_return hc ht
  constructor
  · exact fun ⟨hrefused, _⟩ hrate => (hblames.not_refused hrate).2 hrefused
  · exact fun hrate => ⟨hblames.refused hrate, hblames.blamed hjson huuid hrate⟩

end Refusals

end Gateway

namespace Gateway.Refused.Sample

open Interaction
open Identity (Uuid Status)
open scoped Identity.Sample

/-! ## Two refused requests -/

/-- A request whose call the identity service refuses with the status. -/
def refusing (l : Request) (s : Status) : List (Command Request Choice Identity.Bytes) :=
  .start 0 l :: List.replicate 2 (.act 0 { reply := fun _ => .error s })

def wrongPassword : Status := Identity.Login.status .invalidCredentials

/-- A wrong password is an error of the client, with the message of the identity service. -/
theorem client_errors_wrongPassword : ∃ c h, Reachable (machine Reliable) boot c ∧
    c.thread 0 = some ⟨.login "ada@home" "guess", .ret (.error (.grpc wrongPassword)), h⟩ ∧
    answer (.error (.grpc wrongPassword)) = some (401, some wrongPassword.message) ∧
    Refused Identity.Sample.deployment h (.error (.grpc wrongPassword)) ∧
    Blamed Identity.Sample.deployment h (.error (.grpc wrongPassword)) := by
  have hexec : ∃ c, driver.execute boot (refusing (.login "ada@home" "guess") wrongPassword) = some c ∧
      ∃ h, c.thread 0 = some ⟨.login "ada@home" "guess", .ret (.error (.grpc wrongPassword)), h⟩ :=
    ⟨_, rfl, _, rfl⟩
  obtain ⟨c, hexec, h, ht⟩ := hexec
  have hc := Driver.reachable hexec
  refine ⟨c, h, hc, ht, rfl, (client_errors_iff Identity.Sample.jsonRoundTrip Identity.Sample.uuidRoundTrip
    hc ht).mpr fun ⟨email, hrate⟩ => ?_⟩
  cases (blames_of_return hc ht).grpc hrate

/-- A user who got three tokens within the hour. -/
def mailed : List Identity.Row :=
  .user Identity.Sample.ada :: ([2, 3, 4] : List UInt8).map fun b =>
    .token { Identity.Sample.adaToken with id := b.toNat, tokenHash := Identity.Sample.rawToken b }

def tooMany : Status := Identity.ResendVerification.status .rateLimited

/-- **The identity service refuses a fourth mail within the hour, and the gateway answers that it is wrong
itself.** -/
theorem server_error_mail :
    (∃ c l h, Identity.execute Identity.Sample.deployment (.of fun _ => True) (Identity.boot mailed 0)
        (Identity.Sample.call 0 (.resendVerification "ada@home") (List.replicate 3 Identity.Sample.fine)) =
          some c ∧
      c.thread 0 = some ⟨l, .ret (.resendVerification (.error .rateLimited)), h⟩ ∧
      l.request = .resendVerification "ada@home") ∧
    ∃ c h, Reachable (machine Reliable) boot c ∧
      c.thread 0 = some ⟨.resendVerification "ada@home", .ret (.error (.grpc tooMany)), h⟩ ∧
      Answered h (.rpc (.resendVerification "ada@home")) (.error tooMany) ∧
      tooMany.code = .resourceExhausted ∧
      answer (.error (.grpc tooMany)) = some (500, some "internal server error") ∧
      ¬ Refused Identity.Sample.deployment h (.error (.grpc tooMany)) := by
  constructor
  · exact ⟨_, _, _, rfl, rfl, rfl⟩
  · have hexec : ∃ c, driver.execute boot (refusing (.resendVerification "ada@home") tooMany) = some c ∧
        ∃ h, c.thread 0 = some ⟨.resendVerification "ada@home", .ret (.error (.grpc tooMany)), h⟩ ∧
          Answered h (.rpc (.resendVerification "ada@home")) (.error tooMany) :=
      ⟨_, rfl, _, rfl, _, _, _, _, List.mem_cons_self⟩
    obtain ⟨c, hexec, h, ht, hs⟩ := hexec
    have hc := Driver.reachable hexec
    exact ⟨c, h, hc, ht, hs, rfl, (blames_of_return hc ht).not_refused ⟨_, hs⟩⟩

end Gateway.Refused.Sample
