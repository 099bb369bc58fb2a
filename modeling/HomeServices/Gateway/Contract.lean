import HomeServices.Gateway.Cookies

/-!
# What a request does to the session table

* `extract`: what the extractor makes of a cookie, at one moment; **`extract_encodeString`**: what is
  stored under the hash of the token.
* `Meets`, `Returned`: the contract of a request; **`sound_route`**: every request meets it, whatever the
  others do.
-/

namespace Gateway

open Interaction
open Identity (Bytes Platform sha256)

/-! ## The extractor -/

/-- What the store answers at one moment; the extractor asks nothing else. -/
def World.answer (g : World) : (o : Op) → Resp o
  | .client | .insert _ | .delete _ => .ok ()
  | .rpc _ => .error (.unauthenticated "")
  | .fill => .error ()
  | .utcNow => ⟨0, 0⟩
  | .select tokenHash => .ok (g.sessions tokenHash)

variable [Platform]

/-- What the extractor makes of the cookie `v`, at one moment. -/
def extract (g : World) (v : String) : Except AppError Session :=
  (authSession (cookieHeaders v)).run.eval g.answer

omit [Platform] in
/-- The result of the extractor, by the answer of the store. -/
def lookedUp : Except SessionError (Option Session) → Except AppError Session
  | .error e => .error (.session e)
  | .ok none => .error .unauthorized
  | .ok (some s) => .ok s

/-- The extractor asks the store at most once. -/
theorem authSession_run (headers : HeaderMap) : (authSession headers).run =
    match extractSessionCookie headers with
    | .error e => .ret (.error e)
    | .ok token =>
      match Base64Url.decodeVec token with
      | none => .ret (.error .unauthorized)
      | some raw => .call (.select (sha256 raw)) fun r => .ret (lookedUp r) := by
  unfold authSession hashSessionToken
  rw [run_bind]
  cases extractSessionCookie headers with
  | error e => rfl
  | ok token =>
    simp only [run_fromExcept, Prog.ret_bind]
    rw [run_bind]
    cases Base64Url.decodeVec token with
    | none => rfl
    | some raw =>
      simp only [Except.mapError, run_fromExcept, Prog.ret_bind]
      refine congrArg (Prog.call (Op.select (sha256 raw))) (funext fun r => ?_)
      rcases r with e | _ | s <;> rfl

/-- A token yields what is stored under its hash. -/
theorem extract_encodeString (g : World) (raw : Bytes) :
    extract g (Base64Url.encodeString raw) = lookedUp (.ok (g.sessions (sha256 raw))) := by
  rw [extract, authSession_run, extractSessionCookie_encodeString]
  simp only [Base64Url.decodeVec_encodeString, Prog.eval_call, Prog.eval_ret]
  rfl

/-- What is no token yields nothing. -/
theorem extract_undecodable {g : World} {v : String} (hv : Plain v) (hnone : Base64Url.decodeVec v = none) :
    extract g v = .error .unauthorized := by
  rw [extract, authSession_run, extractSessionCookie_plain hv]
  split_ifs
  · simp only [hnone, Prog.eval_ret]
  · rfl

omit [Platform] in
theorem lookedUp_ok {r : Option Session} {s : Session} : lookedUp (.ok r) = .ok s ↔ r = some s := by
  cases r with
  | none => simp [lookedUp]
  | some s' => simp [lookedUp]

theorem extract_ok {g : World} {v : String} (hv : Plain v) {s : Session} (h : extract g v = .ok s) :
    ∃ raw, v = Base64Url.encodeString raw ∧ g.sessions (sha256 raw) = some s := by
  cases hdec : Base64Url.decodeVec v with
  | none =>
    rw [extract_undecodable hv hdec] at h
    cases h
  | some raw =>
    obtain rfl := Base64Url.decodeVec_eq_some.mp hdec
    rw [extract_encodeString, lookedUp_ok] at h
    exact ⟨raw, rfl, h⟩

/-! ## What a request does to the table -/

omit [Platform] in
/-- The operation changes the table. -/
def Op.writes : Op → Bool
  | insert _ | delete _ => true
  | _ => false

omit [Platform] in
def Unwritten (h : Hist) : Prop := ∀ e ∈ h, e.op.writes = false

omit [Platform] in
/-- The entry drew the random token. -/
def Draws (raw : Bytes) (e : Event) : Prop := ∃ l g l' g', e = ⟨.fill, .ok raw, l, g, l', g'⟩

omit [Platform] in
/-- The entry found a session under the hash. -/
def Finds (tokenHash : Bytes) (e : Event) : Prop :=
  ∃ s l g l' g', e = ⟨.select tokenHash, .ok (some s), l, g, l', g'⟩

/-- The request is a logout, with a token of that hash. -/
def LogsOut (l : Request) (tokenHash : Bytes) : Prop := ∃ headers raw, l = .logout headers ∧
  extractSessionCookie headers = .ok (Base64Url.encodeString raw) ∧ tokenHash = sha256 raw

/-- A request writes once: a login under the hash of the token it drew, a logout under that of the
session it found. -/
structure Meets (h : Hist) (l : Request) (o : Op) : Prop where
  unwritten : Unwritten h
  inserts : ∀ s, o = .insert s →
    (∃ email password, l = .login email password) ∧ ∃ raw, (∃ e ∈ h, Draws raw e) ∧ s.tokenHash = sha256 raw
  deletes : ∀ tokenHash, o = .delete tokenHash → LogsOut l tokenHash ∧ ∃ e ∈ h, Finds tokenHash e

/-- A request that wrote answers so, and one that says it logged out has deleted. -/
structure Returned (h : Hist) (l : Request) (a : Except AppError Response) : Prop where
  inserted : ∀ e ∈ h, ∀ s, e.op = .insert s → ∃ raw expiresAt, s.tokenHash = sha256 raw ∧
    a = .ok (.loggedIn (setSessionCookie (Base64Url.encodeString raw)) expiresAt)
  deleted : ∀ e ∈ h, ∀ tokenHash, e.op = .delete tokenHash →
    LogsOut l tokenHash ∧ ∃ cookie, a = .ok (.loggedOut cookie)
  loggedOut : ∀ headers cookie, l = .logout headers → a = .ok (.loggedOut cookie) →
    ∃ e ∈ h, ∃ tokenHash, e.op = .delete tokenHash

omit [Platform] in
/-- Every row lies under its own hash. -/
def Keyed (g : World) : Prop := ∀ tokenHash s, g.sessions tokenHash = some s → s.tokenHash = tokenHash

/-- The obligation of a request. -/
abbrev Sound (h : Hist) (l : Request) (p : Prog Op Resp (Except AppError Response)) : Prop :=
  Safe (machine Reliable).step (fun _ => Keyed) (fun h l _ o => Meets h l o) Returned h l p

theorem meets_of_quiet {h : Hist} {l : Request} {o : Op} (hh : Unwritten h) (ho : o.writes = false) :
    Meets h l o where
  unwritten := hh
  inserts := by
    rintro s rfl
    cases ho
  deletes := by
    rintro tokenHash rfl
    cases ho

theorem returned_of_unwritten {h : Hist} {l : Request} {a : Except AppError Response} (hh : Unwritten h)
    (hl : ∀ headers cookie, l = .logout headers → a ≠ .ok (.loggedOut cookie)) : Returned h l a where
  inserted e he s hs := by
    have hquiet := hh e he
    rw [hs] at hquiet
    cases hquiet
  deleted e he tokenHash hs := by
    have hquiet := hh e he
    rw [hs] at hquiet
    cases hquiet
  loggedOut headers cookie hheaders ha := (hl headers cookie hheaders ha).elim

omit [Platform] in
theorem unwritten_cons {e : Event} {h : Hist} (he : e.op.writes = false) (hh : Unwritten h) :
    Unwritten (e :: h) := by
  intro e' he'
  rcases List.mem_cons.mp he' with rfl | he'
  · exact he
  · exact hh e' he'

/-- A request that never writes. -/
theorem sound_of_quiet {l : Request} {p : Prog Op Resp (Except AppError Response)}
    (hp : p.All fun o => o.writes = false) (hl : ∀ headers, l ≠ .logout headers) : Sound [] l p := by
  have hquiet : Safe (machine Reliable).step (fun _ => Keyed) (fun h l _ o => Meets h l o)
      (fun h l' _ => Unwritten h ∧ l' = l) [] l p := by
    refine safe_of_all_keeps (P := fun o => o.writes = false) (J := fun h l' => Unwritten h ∧ l' = l)
      (fun h l' g o ho hJ => meets_of_quiet hJ.1 ho) ?_ hp ⟨fun _ he => (List.not_mem_nil he).elim, rfl⟩
    rintro h o l' g r l'' g' ho ⟨rfl, -⟩ ⟨hh, rfl⟩
    exact ⟨unwritten_cons ho hh, rfl⟩
  refine hquiet.mono fun h l' a hJ => ?_
  obtain ⟨hh, rfl⟩ := hJ
  exact returned_of_unwritten hh fun headers _ hheaders => (hl headers hheaders).elim

omit [Platform] in
theorem safe_stored_bind {α β : Type} {st : Hist → (o : Op) → Request → World → Resp o → Request → World → Prop}
    {Q : Hist → Request → Except AppError β → Prop} {I : Request → World → Prop}
    {C : Hist → Request → World → Op → Prop} {x : Handler Op Resp SessionError α}
    {f : α → Handler Op Resp AppError β} {h : Hist} {l : Request} :
    Safe st I C Q h l (stored x >>= f).run ↔
      Safe st I C (fun h l => OnResult (fun a => Safe st I C Q h l (f a).run)
        (fun e => Q h l (.error (.session e)))) h l x.run := by
  rw [safe_run_bind, stored, ExceptT.run_mk, safe_bind]
  refine iff_of_eq (congrArg (fun R => Safe st I C R h l x.run) ?_)
  funext h l r
  cases r <;> rfl

theorem createSession_run (userId : Identity.Uuid) (accessToken idToken refreshToken : String)
    (expiresAt : DateTime) : (createSession userId accessToken idToken refreshToken expiresAt).run =
    .call .fill fun
      | .error _ => .ret (.error .tokenGeneration)
      | .ok raw => .call .utcNow fun createdAt =>
        .call (.insert { tokenHash := sha256 raw, userId, accessToken, idToken, refreshToken, expiresAt, createdAt })
          fun
          | .error e => .ret (.error e)
          | .ok () => .ret (.ok (Base64Url.encodeString raw)) := by
  unfold createSession generateSessionToken
  simp only [run_bind, run_attempt, run_pure, Prog.call_bind, Prog.ret_bind]
  refine congrArg (Prog.call Op.fill) (funext fun r => ?_)
  rcases r with e | raw
  · rfl
  · refine congrArg (Prog.call Op.utcNow) (funext fun createdAt => ?_)
    refine congrArg (Prog.call (Op.insert _)) (funext fun r => ?_)
    cases r <;> rfl

theorem sound_login (email password : String) :
    Sound [] (.login email password) (Login.route email password).run := by
  have hother : ∀ {h : Hist} {e : AppError}, Unwritten h → Returned h (.login email password) (.error e) :=
    fun hh => returned_of_unwritten hh fun _ _ hl => by cases hl
  unfold Login.route identityClient forward
  have h₀ : Unwritten [] := fun _ he => (List.not_mem_nil he).elim
  refine safe_attempt_bind.mpr fun g₁ _ => ⟨meets_of_quiet h₀ rfl, ?_⟩
  rintro r l g₁' ⟨rfl, -⟩
  have h₁ := unwritten_cons (e := ⟨.client, r, .login email password, g₁, .login email password, g₁'⟩) rfl h₀
  cases r with
  | error e => exact hother h₁
  | ok _ =>
    dsimp only [OnResult, Except.mapError]
    refine safe_attempt_bind.mpr fun g₂ _ => ⟨meets_of_quiet h₁ rfl, ?_⟩
    rintro r l g₂' ⟨rfl, -⟩
    have h₂ := unwritten_cons
      (e := ⟨.rpc (.login email password), r, .login email password, g₂, .login email password, g₂'⟩) rfl h₁
    cases r with
    | error e => exact hother h₂
    | ok response =>
      dsimp only [OnResult, Except.mapError]
      refine safe_fromExcept_bind.mpr ?_
      cases decodeSubFromJwt response.accessToken with
      | error e => exact hother h₂
      | ok userId =>
        dsimp only [OnResult, Except.mapError]
        refine safe_fromExcept_bind.mpr ?_
        cases expiry response with
        | error e => exact hother h₂
        | ok x =>
          dsimp only [OnResult, Except.mapError]
          refine safe_stored_bind.mpr ?_
          rw [createSession_run]
          intro g₃ _
          refine ⟨meets_of_quiet h₂ rfl, ?_⟩
          rintro r l g₃' ⟨rfl, -⟩
          have h₃ := unwritten_cons
            (e := ⟨.fill, r, .login email password, g₃, .login email password, g₃'⟩) rfl h₂
          rcases r with e | raw
          · exact hother h₃
          · intro g₄ _
            refine ⟨meets_of_quiet h₃ rfl, ?_⟩
            rintro createdAt l g₄' ⟨rfl, -⟩
            have h₄ := unwritten_cons
              (e := ⟨.utcNow, createdAt, .login email password, g₄, .login email password, g₄'⟩) rfl h₃
            intro g₅ _
            refine ⟨⟨h₄, ?_, fun _ hdelete => by cases hdelete⟩, ?_⟩
            · intro s hs
              cases hs
              refine ⟨⟨email, password, rfl⟩, raw, ⟨_, List.mem_cons_of_mem _ List.mem_cons_self, _, _, _, _, rfl⟩, rfl⟩
            · rintro r l g₅' ⟨rfl, ch, hch, hperform⟩
              cases r with
              | error e =>
                simp only [perform, hch rfl] at hperform
                cases hperform
              | ok _ =>
                refine ⟨fun e he s hs => ?_, fun e he tokenHash hs => ?_, fun _ _ hl => by cases hl⟩
                · rcases List.mem_cons.mp he with rfl | he
                  · cases hs
                    exact ⟨raw, _, rfl, rfl⟩
                  · have hquiet := h₄ e he
                    rw [hs] at hquiet
                    cases hquiet
                · rcases List.mem_cons.mp he with rfl | he
                  · cases hs
                  · have hquiet := h₄ e he
                    rw [hs] at hquiet
                    cases hquiet

theorem sound_logout (headers : HeaderMap) : Sound [] (.logout headers) (Logout.route headers).run := by
  have hother : ∀ {h : Hist} {e : AppError}, Unwritten h → Returned h (.logout headers) (.error e) :=
    fun hh => returned_of_unwritten hh fun _ _ _ ha => by cases ha
  have h₀ : Unwritten [] := fun _ he => (List.not_mem_nil he).elim
  unfold Logout.route
  refine safe_run_bind.mpr ?_
  rw [authSession_run]
  cases hextract : extractSessionCookie headers with
  | error e => exact hother h₀
  | ok token =>
    dsimp only
    cases hdec : Base64Url.decodeVec token with
    | none => exact hother h₀
    | some raw =>
      obtain rfl := Base64Url.decodeVec_eq_some.mp hdec
      intro g₁ hkeyed
      refine ⟨meets_of_quiet h₀ rfl, ?_⟩
      rintro r l g₁' ⟨rfl, ch, hch, hperform⟩
      have h₁ := unwritten_cons
        (e := ⟨.select (sha256 raw), r, .logout headers, g₁, .logout headers, g₁'⟩) rfl h₀
      rcases r with e | _ | s
      · exact hother h₁
      · exact hother h₁
      · have hrow : g₁.sessions (sha256 raw) = some s := by
          simp only [perform, hch rfl, Bool.false_eq_true, if_false, Option.some.injEq, Prod.mk.injEq,
            Except.ok.injEq] at hperform
          exact hperform.1
        have hhash : s.tokenHash = sha256 raw := hkeyed _ _ hrow
        have hlogsOut : LogsOut (.logout headers) s.tokenHash := ⟨headers, raw, rfl, hextract, hhash⟩
        have hfinds : Finds s.tokenHash
            ⟨.select (sha256 raw), .ok (some s), .logout headers, g₁, .logout headers, g₁'⟩ := by
          rw [hhash]
          exact ⟨s, _, _, _, _, rfl⟩
        simp only [lookedUp, safe_ret, OnResult]
        refine safe_stored_bind.mpr fun g₂ _ => ⟨⟨h₁, (fun _ hs => by cases hs), ?_⟩, ?_⟩
        · intro tokenHash hdelete
          cases hdelete
          exact ⟨hlogsOut, _, List.mem_cons_self, hfinds⟩
        · rintro r l g₂' ⟨rfl, ch, hch, hperform⟩
          cases r with
          | error e =>
            simp only [perform, hch rfl] at hperform
            cases hperform
          | ok _ =>
            refine ⟨fun e he s hs => ?_, fun e he tokenHash hs => ?_, fun _ _ _ _ => ?_⟩
            · rcases List.mem_cons.mp he with rfl | he
              · cases hs
              · have hquiet := h₁ e he
                rw [hs] at hquiet
                cases hquiet
            · rcases List.mem_cons.mp he with rfl | he
              · cases hs
                exact ⟨hlogsOut, _, rfl⟩
              · have hquiet := h₁ e he
                rw [hs] at hquiet
                cases hquiet
            · exact ⟨_, List.mem_cons_self, _, rfl⟩

theorem all_authSession (headers : HeaderMap) : (authSession headers).run.All fun o => o.writes = false := by
  rw [authSession_run]
  split
  · exact trivial
  · split
    · exact trivial
    · exact ⟨rfl, fun _ => trivial⟩

omit [Platform] in
theorem all_identityClient : identityClient.run.All fun o => o.writes = false := ⟨rfl, fun _ => trivial⟩

omit [Platform] in
theorem all_forward (request : Rpc) : (forward request).run.All fun o => o.writes = false :=
  ⟨rfl, fun _ => trivial⟩

/-- **What every request does to the table, whatever the others do.** -/
theorem sound_route (l : Request) : Sound [] l (route l).run := by
  cases l with
  | login email password => exact sound_login email password
  | logout headers => exact sound_logout headers
  | signUp | verifyEmail | resendVerification =>
    refine sound_of_quiet ?_ fun _ hl => by cases hl
    exact all_run_bind all_identityClient fun _ => all_run_bind (all_forward _) fun _ => trivial
  | userInfo headers | updateProfile headers | updatePassword headers =>
    refine sound_of_quiet ?_ fun _ hl => by cases hl
    exact all_run_bind (all_authSession headers) fun _ => all_run_bind all_identityClient fun _ =>
      all_run_bind trivial fun _ => all_run_bind (all_forward _) fun _ => trivial

end Gateway
