import HomeServices.Concurrent.Gate
import HomeServices.Concurrent.Schedule
import HomeServices.Identity.Connections
import HomeServices.Identity.Execution

/-!
# The calls of the service

What `IdentityServiceImpl` does with a call: it authenticates those that need it, on the reader's pool,
runs the handler, on the reader's or on the writer's, and answers with a message or a status. The reader
may be a replica: what it shows was committed, but not always just now.

* `onReader`, `onWriter`, `mapErr`: handlers on a pool, and their errors as statuses.
* `UserInfo.execute`, `GetJwks.execute`: the handlers that only read.
* `Response`, `Call.execute`: the calls.
* `Replicated`, `Client`, `Task`, `rpcMachine`: the running service.
* `Accepted`, `Granted`, `gate`: what a call has to establish before its handler writes.
* `lawful_gate`, `rpc_run`: a run of the calls is a run of the handlers they were granted.
* **`rpc_refines`**: so are their answers.
-/

namespace Identity

open ReadCommitted Interaction

/-! ## Messages -/

/-- `prost_types::Timestamp`. -/
structure Timestamp where
  seconds : ℕ
  nanos : ℕ
  deriving DecidableEq

/-- A time, in nanoseconds since the epoch. -/
def Timestamp.of (t : ℕ) : Timestamp := ⟨t / second, t % second⟩

structure LoginResponse where
  accessToken : String
  refreshToken : String
  idToken : String
  expiresAt : Timestamp

structure UserInfoResponse where
  sub : String
  name : String
  givenName : String
  familyName : String
  username : String
  email : String
  emailVerified : Bool
  updatedAt : Timestamp

/-- The message a call is answered with. -/
inductive Response where
  | signUp
  | login (response : LoginResponse)
  | userInfo (response : UserInfoResponse)
  | verifyEmail
  | resendVerification
  | getJwks (keys : Bytes)
  | updateProfile
  | updatePassword

def LoginResponse.of (result : LoginResult) : LoginResponse :=
  { accessToken := result.accessToken
    refreshToken := result.refreshToken
    idToken := result.idToken
    expiresAt := .of result.expiresAt }

section Calls

variable [Platform]

def UserInfoResponse.of (user : User) : UserInfoResponse :=
  { sub := uuidText user.id
    name := user.givenName ++ " " ++ user.familyName
    givenName := user.givenName
    familyName := user.familyName
    username := user.username
    email := user.email
    emailVerified := user.emailVerified
    updatedAt := .of user.updatedAt }

/-! ## Handlers that only read -/

variable {ε α β : Type}

/-- Fetch a user's profile by ID. -/
def UserInfo.execute (userId : Uuid) : Handler Op Resp UserInfoError User := do
  attempt .getConnection (Except.mapError fun _ => .pool)
  let found ← query .db (.userById userId)
  fromExcept (orError .notFound found)

/-- The JWKS response. -/
structure JwkSet where
  keys : List Jwk

def buildJwkSet (keys : List Jwk) : JwkSet := ⟨keys⟩

def JwkSet.toJson (set : JwkSet) : Json := .obj [("keys", .arr (set.keys.map Jwk.toJson))]

def GetJwks.listPublicJwks : Handler Op Resp GetJwksError (List Jwk) := do
  attempt .getConnection (Except.mapError fun _ => .pool)
  let rows ← query .db .publicJwks
  fromExcept (orError .serialization (rows.mapM Jwk.ofJson))

/-- Get the JWKS (all non-revoked public keys) as a JSON string. -/
def GetJwks.execute : Handler Op Resp GetJwksError Bytes := do
  let publicKeys ← GetJwks.listPublicJwks
  return jsonPrint (buildJwkSet publicKeys).toJson

/-- Without the returns of their clients, these are the handlers. -/
theorem erased_userInfo (userId : Uuid) : erased (UserInfo.onPool userId) = UserInfo.execute userId :=
  erased_withClient ..

theorem erased_getJwks : erased GetJwks.onPool = GetJwks.execute := by
  simp only [GetJwks.onPool, GetJwks.execute, GetJwks.listPublicJwks, erased_bind, erased_withClient,
    erased_pure]
  rfl

/-! ## Calls -/

/-- An operation on the reader's pool only looks; one on the writer's acts. -/
abbrev RpcOp := Gated Op Op

abbrev RpcResp : RpcOp → Type := GatedResp Resp Resp

abbrev RpcHandler (ε α : Type) := Handler RpcOp RpcResp ε α

def onReader (x : Handler Op Resp ε α) : RpcHandler ε α := translate .look (fun _ r => r) x

def onWriter (x : Handler Op Resp ε α) : RpcHandler ε α := translate .act (fun _ r => r) x

/-- `map_err`. -/
def mapErr (status : ε → Status) (x : RpcHandler ε α) : RpcHandler Status α :=
  ExceptT.mk (x.run.bind fun r => .ret (r.mapError status))

def Call.execute (dep : Deployment) : Call → RpcHandler Status Response
  | .signUp username email givenName familyName password => do
    mapErr SignUp.status <| onWriter <|
      SignUp.execute dep.webBaseUrl username email givenName familyName password
    return .signUp
  | .login email password => do
    let result ← mapErr Login.status <| onWriter <| Login.execute dep.kek email password
    return .login (.of result)
  | .userInfo authorization => do
    let userId ← onReader (authenticate authorization)
    let user ← mapErr UserInfo.status <| onReader <| UserInfo.execute userId
    return .userInfo (.of user)
  | .verifyEmail token => do
    mapErr VerifyEmail.status <| onWriter <| VerifyEmail.execute token
    return .verifyEmail
  | .resendVerification email => do
    mapErr ResendVerification.status <| onWriter <| ResendVerification.execute dep.webBaseUrl email
    return .resendVerification
  | .getJwks => do
    let json ← mapErr GetJwks.status <| onReader GetJwks.execute
    return .getJwks json
  | .updateProfile authorization givenName familyName username => do
    let userId ← onReader (authenticate authorization)
    mapErr UpdateProfile.status <| onWriter <|
      UpdateProfile.execute userId givenName familyName username
    return .updateProfile
  | .updatePassword authorization currentPassword newPassword => do
    let userId ← onReader (authenticate authorization)
    mapErr UpdatePassword.status <| onWriter <|
      UpdatePassword.execute userId currentPassword newPassword
    return .updatePassword

/-! ## The running service -/

/-- The primary database, and the states it was in before: a replica shows some of them. -/
structure Replicated where
  now : World
  past : List (List Row)

/-- What the reader's pool may show. -/
def Replicated.shown (g : Replicated) : List (List Row) := g.now.db :: g.past

/-- A call, or a request of an operator, of the publisher or of the start-up. -/
inductive Task where
  | call (call : Call)
  | other (req : Request)

/-- The requests that are no calls of a client. -/
def Request.operational : Request → Bool
  | .ensureSigningKey | .setKeyStatus _ _ | .setUserStatus _ _ | .softDelete _ | .markPublished _ =>
    true
  | _ => false

/-- What a task ends with. -/
inductive Finished where
  | call (r : Except Status Response)
  | other (r : Reply)

def Task.program (dep : Deployment) : Task → Prog RpcOp RpcResp Finished
  | .call c => (c.execute dep).run.bind fun r => .ret (.call r)
  | .other req => (acting (handler dep req)).bind fun r => .ret (.other r)

/-- The private state of a task. -/
structure Client where
  pid : ℕ
  task : Task
  tx : Option Tx

def Client.session (req : Request) (l : Client) : Session := ⟨l.pid, req, l.tx⟩

/-- One operation: on the reader's pool it sees some state that was committed, on the writer's it is
an operation on the database. -/
def RpcPerforms : (o : RpcOp) → Client → Replicated → RpcResp o → Client → Replicated → Prop
  | .look o, l, g, r, l', g' => l' = l ∧ g' = g ∧ ∃ rows ∈ g.shown, ∃ req l₁ g₁,
      Performs o ⟨l.pid, req, none⟩ (World.fresh rows g.now.clock) r l₁ g₁
  | .act o, l, g, r, l', g' => g'.past = g.shown ∧ ∃ req tx,
      Performs o (l.session req) g.now r ⟨l.pid, req, tx⟩ g'.now ∧ l' = { l with tx }

abbrev RpcEntry := Entry RpcOp RpcResp Client Replicated

abbrev RpcHist := List (Entry RpcOp RpcResp Client Replicated)

abbrev RpcState := Config RpcOp RpcResp Client Replicated Finished

def rpcMachine (dep : Deployment) : Machine RpcOp RpcResp Client Replicated Finished where
  start i l p := ∃ task, (∀ req, task = .other req → req.operational = true) ∧
    l = ⟨i, task, none⟩ ∧ p = task.program dep
  step _ o l g r l' g' := RpcPerforms o l g r l' g'
  again _ := none
  env g g' := ∃ t, g.now.clock ≤ t ∧ g' = { g with now := { g.now with clock := t } }

def rpcBoot (db : List Row) (clock : ℕ) : RpcState := Config.initial ⟨World.fresh db clock, []⟩

/-! ## What a call has to establish -/

/-- The call saw a key that was not revoked, under which its bearer token names the user. -/
def Accepted (h : RpcHist) (authorization : Option Bytes) (userId : Uuid) : Prop :=
  ∃ token header jwk rows k now, extractBearerToken authorization = .ok token ∧
    decodeJwtHeader token = .ok header ∧ (∃ e ∈ h, rows ∈ e.pre.shown) ∧ .key k ∈ rows ∧
    k.status ≠ "revoked" ∧ Jwk.ofJson k.publicJwk = some jwk ∧ jwk.kid = header.kid ∧
    checkToken token jwk now = .ok userId

/-- The requests a task may make of the handlers that write. -/
def Granted (h : RpcHist) : Task → Request → Prop
  | .other req', req => req = req' ∧ req.operational = true
  | .call (.signUp username email givenName familyName password), req =>
    req = .signUp username email givenName familyName password
  | .call (.login email password), req => req = .login email password
  | .call (.verifyEmail token), req => req = .verifyEmail token
  | .call (.resendVerification email), req => req = .resendVerification email
  | .call (.updateProfile authorization givenName familyName username), req =>
    ∃ userId, req = .updateProfile userId givenName familyName username ∧
      Accepted h authorization userId
  | .call (.updatePassword authorization currentPassword newPassword), req =>
    ∃ userId, req = .updatePassword userId currentPassword newPassword ∧
      Accepted h authorization userId
  | .call (.userInfo _), _ | .call .getJwks, _ => False

/-- The requests that occur behind the calls. -/
def Request.behind : Request → Prop
  | .authenticate _ => False
  | _ => True

/-- How a task ends that a handler replied to. -/
def Reply.finished : Reply → Finished
  | .signUp r => .call ((r.mapError SignUp.status).map fun _ => .signUp)
  | .login r => .call ((r.mapError Login.status).map fun result => .login (.of result))
  | .verifyEmail r => .call ((r.mapError VerifyEmail.status).map fun _ => .verifyEmail)
  | .resendVerification r =>
    .call ((r.mapError ResendVerification.status).map fun _ => .resendVerification)
  | .updateProfile r => .call ((r.mapError UpdateProfile.status).map fun _ => .updateProfile)
  | .updatePassword r => .call ((r.mapError UpdatePassword.status).map fun _ => .updatePassword)
  | .authenticate r => .other (.authenticate r)
  | .ensureSigningKey r => .other (.ensureSigningKey r)
  | .statement r => .other (.statement r)

def gate (dep : Deployment) : Gate Op Op Resp Resp Session Client World Replicated Reply Finished
    Request where
  program := handler dep
  finish := Reply.finished
  view := Client.session
  world := Replicated.now
  grants h l req := Granted h l.task req

/-- A handler that writes, and what the call makes of its result, are what the request makes. -/
theorem run_onWriter {γ : Type} (x : Handler Op Resp ε α) (status : ε → Status) (answer : α → Response)
    (f : Except Status Response → γ) :
    ((mapErr status (onWriter x) >>= fun a => pure (answer a)).run.bind fun r => .ret (f r)) =
      (acting x.run).bind fun r => .ret (f ((r.mapError status).map answer)) := by
  rw [run_bind, Prog.bind_bind]
  change ((acting x.run).bind _).bind _ = _
  rw [Prog.bind_bind]
  refine congrArg (Prog.bind _) (funext fun r => ?_)
  cases r <;> rfl

theorem acts_of_handler {dep : Deployment} {h : RpcHist} {l : Client} {x : Handler Op Resp ε α}
    {status : ε → Status} {answer : α → Response} {req : Request} {wrap : Except ε α → Reply}
    (hgranted : Granted h l.task req)
    (hreq : handler dep req = x.run.bind fun r => .ret (wrap r))
    (hwrap : ∀ r, (wrap r).finished = .call ((r.mapError status).map answer)) :
    (gate dep).Acts h l ((mapErr status (onWriter x) >>= fun a => pure (answer a)).run.bind
      fun r => .ret (Finished.call r)) := by
  refine ⟨req, hgranted, ?_⟩
  rw [run_onWriter]
  change _ = (acting (handler dep req)).bind _
  rw [hreq, acting_bind, Prog.bind_bind]
  refine congrArg (Prog.bind _) (funext fun r => ?_)
  exact congrArg Prog.ret (hwrap r).symm

/-- A request that is no call of a client acts from the start. -/
theorem acts_of_operational {dep : Deployment} {h : RpcHist} {l : Client} {req : Request}
    (htask : l.task = .other req) (hop : req.operational = true) :
    (gate dep).Acts h l ((Task.other req).program dep) := by
  refine ⟨req, ?_, ?_⟩
  · change Granted h l.task req
    rw [htask]
    exact ⟨rfl, hop⟩
  cases req with
  | ensureSigningKey =>
    change (acting (Prog.bind _ _)).bind _ = (acting (Prog.bind _ _)).bind _
    rw [acting_bind, Prog.bind_bind, Prog.bind_bind]
    rfl
  | setKeyStatus | setUserStatus | softDelete | markPublished => rfl
  | _ => cases hop

/-! ## Reading -/

/-- The handler, on the reader's pool, ends in `Q`. -/
abbrev Reading (Q : RpcHist → Client → Except ε α → Prop) (h : RpcHist) (l : Client)
    (x : Handler Op Resp ε α) : Prop :=
  Safe (fun _ o l g r l' g' => RpcPerforms o l g r l' g') (fun _ _ => True) (fun _ _ _ _ => True) Q h l
    (onReader x).run

section Reading

variable {h : RpcHist} {l : Client} {Q : RpcHist → Client → Except ε β → Prop}

/-- The rule of operations: they see a state that was committed. -/
theorem reading_attempt {o : Op} {d : Resp o → Except ε α} {k : α → Handler Op Resp ε β}
    (H : ∀ g r, (∃ rows ∈ g.shown, ∃ req l₁ g₁,
        Performs o ⟨l.pid, req, none⟩ (World.fresh rows g.now.clock) r l₁ g₁) →
      OnResult (fun a => Reading Q (⟨.look o, r, l, g, l, g⟩ :: h) l (k a))
        (fun e => Q (⟨.look o, r, l, g, l, g⟩ :: h) l (.error e)) (d r)) :
    Reading Q h l (attempt o d >>= k) := by
  unfold Reading onReader
  rw [translate_bind, translate_attempt]
  refine safe_attempt_bind.mpr fun g _ => ⟨trivial, fun r l' g' hst => ?_⟩
  obtain ⟨rfl, rfl, hrows⟩ := hst
  exact H g' r hrows

theorem reading_fromExcept {x : Except ε α} {k : α → Handler Op Resp ε β}
    (H : OnResult (fun a => Reading Q h l (k a)) (fun e => Q h l (.error e)) x) :
    Reading Q h l (fromExcept x >>= k) := by
  unfold Reading onReader
  rw [translate_bind, translate_fromExcept]
  exact safe_fromExcept_bind.mpr H

/-- A statement on the reader's pool answers from a state that was committed. -/
theorem reading_result {s : Sql} {g : Replicated} {r : Except PgError s.Out}
    (h : ∃ rows ∈ g.shown, ∃ req l₁ g₁,
      Performs (.sql s) ⟨l.pid, req, none⟩ (World.fresh rows g.now.clock) r l₁ g₁) :
    r = .error .fault ∨ ∃ rows ∈ g.shown, ∃ pick, r = (s.exec g.now.clock pick rows).result := by
  obtain ⟨rows, hrows, req, l₁, g₁, hp⟩ := h
  obtain ⟨-, hr⟩ := performs_autocommit rfl hp
  exact hr.imp id fun ⟨pick, hr⟩ => ⟨rows, hrows, pick, hr⟩

/-- **Who is authenticated is accepted.** -/
theorem reading_authenticate (authorization : Option Bytes) :
    Reading (fun h' l' r => l' = l ∧ OnResult (Accepted h' authorization) (fun _ => True) r) h l
      (authenticate authorization) := by
  unfold authenticate listPublicJwks findKey
  simp only [bind_assoc]
  refine reading_fromExcept (onResult_iff.mpr ⟨fun token htoken => ?_, fun _ _ => ⟨rfl, trivial⟩⟩)
  refine reading_fromExcept (onResult_iff.mpr ⟨fun header hheader => ?_, fun _ _ => ⟨rfl, trivial⟩⟩)
  refine reading_attempt fun _ _ _ => onResult_mapError.mpr ⟨fun _ _ => ?_, fun _ _ => ⟨rfl, trivial⟩⟩
  refine reading_attempt fun g r hr => onResult_mapError.mpr
    ⟨fun rows hrows => ?_, fun _ _ => ⟨rfl, trivial⟩⟩
  subst hrows
  obtain ⟨shown, hshown, pick, hres⟩ := (reading_result hr).resolve_left (fun h => by cases h)
  refine reading_fromExcept (onResult_orError.mpr ⟨fun jwks hjwks => ?_, fun _ => ⟨rfl, trivial⟩⟩)
  refine reading_fromExcept (onResult_orError.mpr ⟨fun jwk hjwk => ?_, fun _ => ⟨rfl, trivial⟩⟩)
  unfold Reading onReader
  rw [translate_bind, translate_attempt]
  refine safe_attempt_bind.mpr fun g₁ _ => ⟨trivial, fun r₁ l' g' hst => ?_⟩
  obtain ⟨rfl, rfl, -⟩ := hst
  refine onResult_mapError.mpr ⟨fun now _ => ⟨rfl, ?_⟩, fun _ _ => ⟨rfl, trivial⟩⟩
  cases hcheck : checkToken token jwk now with
  | error e => trivial
  | ok userId =>
    have hkid : jwk.kid = header.kid := by simpa using List.find?_some hjwk
    obtain ⟨row, hrow, hread⟩ := Json.exists_of_mem_mapM hjwks (List.mem_of_find?_eq_some hjwk)
    rw [← Except.ok.inj hres.symm] at hrow
    obtain ⟨k, hk, rfl⟩ := List.mem_map.mp hrow
    obtain ⟨hk, hstatus⟩ := List.mem_filter.mp hk
    exact ⟨token, header, jwk, shown, k, now, htoken, hheader, ⟨_, List.mem_cons_of_mem _ List.mem_cons_self, hshown⟩,
      mem_signingKeys.mp hk, of_decide_eq_true hstatus, hread, hkid, hcheck⟩

theorem all_onReader (x : Handler Op Resp ε α) : (onReader x).run.All fun o => ∃ o', o = .look o' :=
  Prog.all_translate _ _ (fun o => ⟨o, rfl⟩) _

end Reading

/-! ## The calls behind their gate -/

section Refinement

variable {dep : Deployment}

/-- A call that authenticates, and then makes a request as the user its token names. -/
theorem looks_authenticated {i : ℕ} {task : Task} {authorization : Option Bytes}
    {f : Uuid → RpcHandler Status Response}
    (hf : ∀ h userId, Accepted h authorization userId →
      (gate dep).Looks (rpcMachine dep).step h ⟨i, task, none⟩
        ((f userId).run.bind fun r => .ret (Finished.call r))) :
    (gate dep).Looks (rpcMachine dep).step [] ⟨i, task, none⟩
      ((onReader (authenticate authorization) >>= f).run.bind fun r => .ret (Finished.call r)) := by
  rw [run_bind, Prog.bind_bind]
  refine Gate.looks_bind (all_onReader _) ((reading_authenticate authorization).mono fun h l r hr => ?_)
  obtain ⟨rfl, hr⟩ := hr
  cases r with
  | error e => exact trivial
  | ok userId => exact hf h userId hr

/-- A program that only looks. -/
theorem looks_of_all {p : Prog RpcOp RpcResp Finished} (hp : p.All fun o => ∃ o', o = .look o')
    {h : RpcHist} {l : Client} : (gate dep).Looks (rpcMachine dep).step h l p := by
  rw [← Prog.bind_ret p]
  exact Gate.looks_bind hp (safe_trivial.mono fun _ _ _ _ => trivial)

theorem all_mapErr {status : ε → Status} {x : RpcHandler ε α} {P : RpcOp → Prop} (hx : x.run.All P) :
    (mapErr status x).run.All P := hx.bind fun _ => trivial

/-- **Every task looks until its request is granted.** -/
theorem looks_task (i : ℕ) {task : Task} (htask : ∀ req, task = .other req → req.operational = true) :
    (gate dep).Looks (rpcMachine dep).step [] ⟨i, task, none⟩ (task.program dep) := by
  cases task with
  | other req => exact Gate.looks_of_acts (acts_of_operational rfl (htask req rfl))
  | call c =>
    cases c with
    | signUp | login | verifyEmail | resendVerification =>
      exact Gate.looks_of_acts (acts_of_handler rfl rfl fun _ => rfl)
    | userInfo authorization =>
      refine looks_authenticated fun h userId _ => looks_of_all ?_
      refine Prog.All.bind (all_run_bind (all_mapErr (all_onReader _)) ?_) fun _ => trivial
      exact fun _ => trivial
    | getJwks =>
      refine looks_of_all ?_
      refine Prog.All.bind (all_run_bind (all_mapErr (all_onReader _)) ?_) fun _ => trivial
      exact fun _ => trivial
    | updateProfile | updatePassword =>
      refine looks_authenticated fun h userId haccepted => ?_
      exact Gate.looks_of_acts (acts_of_handler ⟨userId, rfl, haccepted⟩ rfl fun _ => rfl)

theorem Accepted.mono {h : RpcHist} {authorization : Option Bytes} {userId : Uuid}
    (ha : Accepted h authorization userId) (e : RpcEntry) : Accepted (e :: h) authorization userId := by
  obtain ⟨token, header, jwk, rows, k, now, h₁, h₂, ⟨e', he', hrows⟩, hrest⟩ := ha
  exact ⟨token, header, jwk, rows, k, now, h₁, h₂, ⟨e', List.mem_cons_of_mem _ he', hrows⟩, hrest⟩

theorem Granted.mono {h : RpcHist} {task : Task} {req : Request} (hg : Granted h task req) (e : RpcEntry) :
    Granted (e :: h) task req := by
  cases task with
  | other => exact hg
  | call c =>
    cases c with
    | updateProfile | updatePassword =>
      obtain ⟨userId, hreq, ha⟩ := hg
      exact ⟨userId, hreq, ha.mono e⟩
    | _ => exact hg

/-- What was asked plays no part in what an operation does. -/
theorem perform_request (ch : Choice) (pid : ℕ) (req req' : Request) (tx : Option Tx) (g : World)
    (o : Op) : perform ch ⟨pid, req', tx⟩ g o =
      (perform ch ⟨pid, req, tx⟩ g o).map fun x => (x.1, { x.2.1 with request := req' }, x.2.2) := by
  cases o with
  | begin | commit =>
    cases tx with
    | none =>
      simp only [perform]
      first | rfl | (split_ifs <;> rfl)
    | some tx =>
      simp only [perform]
      first | rfl | (split_ifs <;> rfl)
  | sql s =>
    cases tx with
    | none =>
      simp only [perform]
      split_ifs
      · rfl
      all_goals first | rfl | (split <;> rfl)
    | some tx =>
      simp only [perform]
      split_ifs
      · rfl
      all_goals first | rfl | (split <;> rfl)
  | fillRandom n =>
    simp only [perform]
    split_ifs <;> rfl
  | _ => rfl

theorem performs_request {o : Op} {pid : ℕ} {req : Request} {tx tx' : Option Tx} {g g' : World}
    {r : Resp o} (h : Performs o ⟨pid, req, tx⟩ g r ⟨pid, req, tx'⟩ g') (req' : Request) :
    Performs o ⟨pid, req', tx⟩ g r ⟨pid, req', tx'⟩ g' := by
  obtain ⟨ch, h⟩ := h
  exact ⟨ch, by rw [perform_request ch pid req req', h]; rfl⟩

theorem Granted.behind {h : RpcHist} {task : Task} {req : Request} (hg : Granted h task req) :
    req.behind := by
  cases task with
  | other req' =>
    obtain ⟨rfl, hop⟩ := hg
    cases req <;> first | exact trivial | cases hop
  | call c =>
    cases c with
    | userInfo | getJwks => exact hg.elim
    | updateProfile | updatePassword =>
      obtain ⟨userId, rfl, -⟩ := hg
      exact trivial
    | _ =>
      obtain rfl := hg
      exact trivial

/-- **The calls look and act as their gate asks.** -/
theorem lawful_gate (dep : Deployment) :
    (gate dep).Lawful (rpcMachine dep) (machine dep (.of Request.behind)) where
  look hst := ⟨hst.1, congrArg Replicated.now hst.2.1⟩
  act := by
    rintro h o l g r l' g' ⟨-, req, tx, hp, rfl⟩ req' h'
    exact ⟨performs_request hp req', trivial⟩
  keep := by
    rintro h o l g r l' g' req ⟨-, req', tx, -, rfl⟩ hgrants
    exact hgrants.mono _
  start := by
    rintro i l p ⟨task, htask, rfl, rfl⟩
    exact looks_task i htask
  fresh := by
    rintro i l p h req ⟨task, -, rfl, -⟩ hgrants
    exact ⟨req, hgrants.behind, rfl, rfl⟩
  again _ := rfl
  env := by
    rintro g g' ⟨t, ht, rfl⟩
    exact ⟨t, ht, rfl⟩

/-- The run of the handlers behind the run of the calls. What the reader's pool may show was the
database at some point of it; what its threads saw is what may be shown. -/
structure Refines (dep : Deployment) (db : List Row) (clock : ℕ) (c : RpcState) (b : State) : Prop where
  reachable : Reachable (machine dep (.of Request.behind)) (boot db clock) b
  stands : (gate dep).Stands (rpcMachine dep) (machine dep (.of Request.behind)) c b
  shown : ∀ rows ∈ c.glob.shown, ∃ g, Past dep (.of Request.behind) (boot db clock) b g ∧ g.db = rows
  seen : Gate.Seen b fun g => g.db ∈ c.glob.shown

/-- What is shown once may be shown later. -/
theorem shown_step {c c' : RpcState} (hs : Step (rpcMachine dep) c c') :
    c.glob.shown ⊆ c'.glob.shown ∧ ∀ rows ∈ c'.glob.shown, rows = c'.glob.now.db ∨ rows ∈ c.glob.shown := by
  have hsame : ∀ g g' : Replicated, g'.shown = g.shown →
      g.shown ⊆ g'.shown ∧ ∀ rows ∈ g'.shown, rows = g'.now.db ∨ rows ∈ g.shown := fun g g' h => by
    rw [h]
    exact ⟨List.Subset.refl _, fun _ => Or.inr⟩
  cases hs with
  | env henv =>
    obtain ⟨t, -, rfl⟩ := henv
    exact hsame _ _ rfl
  | spawn => exact hsame _ _ rfl
  | @call i l o k h r l' g hi hst =>
    cases o with
    | look o =>
      obtain ⟨-, rfl, -⟩ := hst
      exact hsame _ _ rfl
    | act o =>
      have hpast : g.past = c.glob.shown := hst.1
      rw [← hpast]
      exact ⟨List.subset_cons_self _ _, fun _ => List.mem_cons.mp⟩
  | again _ hag => cases hag

theorem Past.trans {scope : Scope} {c₀ c c' : State} {g : World} (h : Past dep scope c₀ c g)
    (hc : Reachable (machine dep scope) c c') : Past dep scope c₀ c' g := by
  obtain ⟨c₁, hc₁, hg, h₁⟩ := h
  exact ⟨c₁, hc₁, hg, Reachable.trans h₁ hc⟩

/-- **A run of the calls, with a replica that lags, is a run of the handlers they were granted.** -/
theorem rpc_run {db : List Row} {clock : ℕ} {c : RpcState}
    (hc : Reachable (rpcMachine dep) (rpcBoot db clock) c) : ∃ b, Refines dep db clock c b := by
  induction hc with
  | refl =>
    refine ⟨boot db clock, .refl, ⟨rfl, fun _ => .absent⟩, fun rows hrows => ?_, fun i t ht => by cases ht⟩
    obtain rfl := List.mem_singleton.mp hrows
    exact ⟨_, ⟨_, .refl, rfl, .refl⟩, rfl⟩
  | @tail c c' _ hs ih =>
    obtain ⟨b, hb, hstands, hshown, hseen⟩ := ih
    obtain ⟨b', hb', hstands', hseen'⟩ := hstands.step (lawful_gate dep) hs
    obtain ⟨hsub, hnew⟩ := shown_step hs
    refine ⟨b', hb.trans hb', hstands', fun rows hrows => ?_, ?_⟩
    · rcases hnew rows hrows with rfl | hrows
      · exact ⟨b'.glob, ⟨b', hb.trans hb', rfl, .refl⟩, congrArg World.db hstands'.glob⟩
      · obtain ⟨g, hpast, hg⟩ := hshown rows hrows
        exact ⟨g, hpast.trans hb', hg⟩
    · refine hseen' _ (fun i t ht e he => hsub (hseen i t ht e he)) (hsub ?_)
      exact List.mem_cons_self

/-- **The calls refine the handlers**: what a call that acted answers is the reply of the handler of a
request it was granted, in a run of the handlers alone, and keeps the handler's contract there. -/
theorem rpc_refines {db : List Row} {clock : ℕ} {c : RpcState} (hdb : UniqueKeys db)
    (hc : Reachable (rpcMachine dep) (rpcBoot db clock) c) : ∃ b, Refines dep db clock c b ∧
      ∀ i l r h, c.thread i = some ⟨l, .ret r, h⟩ → acted h ≠ [] → ∃ req a h', Granted h l.task req ∧
        b.thread i = some ⟨l.session req, .ret a, h'⟩ ∧ a.finished = r ∧ Post dep h' req a := by
  obtain ⟨b, hb⟩ := rpc_run hc
  refine ⟨b, hb, fun i l r h ht hacted => ?_⟩
  obtain ⟨req, a, h', hbt, hgranted, hfinish, -⟩ := hb.stands.returned ht hacted
  exact ⟨req, a, h', hgranted, hbt, hfinish, post_of_return hdb hb.reachable hbt⟩

end Refinement

/-! ## Schedules -/

/-- What an operation of a call leaves open: which of the states that were committed the reader's pool
shows, the last one first, and what the operation on it leaves open. -/
structure RpcChoice where
  lag : ℕ := 0
  choice : Choice

/-- Execute one operation; `none` when it waits for a lock, or no such state was committed. -/
def rpcPerform (ch : RpcChoice) (l : Client) (g : Replicated) :
    (o : RpcOp) → Option (RpcResp o × Client × Replicated)
  | .look o => g.shown[ch.lag]?.bind fun rows =>
    (perform ch.choice ⟨l.pid, .ensureSigningKey, none⟩ (World.fresh rows g.now.clock) o).map fun x =>
      (x.1, l, g)
  | .act o => (perform ch.choice (l.session .ensureSigningKey) g.now o).map fun x =>
    (x.1, { l with tx := x.2.1.tx }, ⟨x.2.2, g.shown⟩)

theorem rpcPerforms_of_perform {ch : RpcChoice} {l l' : Client} {g g' : Replicated} {o : RpcOp}
    {r : RpcResp o} (h : rpcPerform ch l g o = some (r, l', g')) : RpcPerforms o l g r l' g' := by
  cases o with
  | look o =>
    obtain ⟨rows, hrows, h⟩ := Option.bind_eq_some_iff.mp h
    obtain ⟨⟨r, l₁, g₁⟩, hp, h⟩ := Option.map_eq_some_iff.mp h
    cases h
    exact ⟨rfl, rfl, rows, List.mem_of_getElem? hrows, _, l₁, g₁, ch.choice, hp⟩
  | act o =>
    obtain ⟨⟨r, ⟨pid, req, tx⟩, g₁⟩, hp, h⟩ := Option.map_eq_some_iff.mp h
    cases h
    have heff := performs_effects ⟨ch.choice, hp⟩
    obtain rfl : pid = l.pid := heff.pid_eq
    obtain rfl : req = .ensureSigningKey := heff.request_eq
    exact ⟨rfl, _, tx, ⟨ch.choice, hp⟩, rfl⟩

/-- Whether a task may be started. -/
def Task.startable : Task → Bool
  | .call _ => true
  | .other req => req.operational

omit [Platform] in
theorem Task.operational_of_startable {task : Task} (h : task.startable = true) :
    ∀ req, task = .other req → req.operational = true := by
  rintro req rfl
  exact h

/-- The running service, executed: tasks are started, operations performed, and time passes. -/
def rpcDriver (dep : Deployment) : Driver (rpcMachine dep) Task RpcChoice ℕ where
  start i task := if task.startable then some (⟨i, task, none⟩, task.program dep) else none
  perform ch _ l g o := rpcPerform ch l g o
  outside t g := if g.now.clock ≤ t then some { g with now := { g.now with clock := t } } else none
  start_ok := by
    intro i task l p h
    split_ifs at h with hstart
    cases h
    exact ⟨task, Task.operational_of_startable hstart, rfl, rfl⟩
  perform_ok := rpcPerforms_of_perform
  outside_ok := by
    intro t g g' h
    split_ifs at h with hle
    cases h
    exact ⟨t, hle, rfl⟩

/-- The call `i` has been answered with a message, after it acted or without. -/
def succeeded (i : ℕ) (acts : Bool) (c : RpcState) : Bool :=
  match c.thread i with
  | some ⟨_, .ret (.call (.ok _)), h⟩ => (acted h).isEmpty != acts
  | _ => false

end Calls

open Sample

namespace Sample

/-- The user of the sample token presents it: the call, up to its `n`th operation. -/
def presentToken (n : ℕ) : List (Interaction.Command Task RpcChoice ℕ) :=
  .start 0 (.call (.verifyEmail (Base64Url.encodeString (rawToken 5)))) ::
    List.replicate n (.act 0 ⟨0, fine⟩)

/-- The public keys, read from a replica that lags. -/
def readKeys : List (Interaction.Command Task RpcChoice ℕ) :=
  .start 1 (.call .getJwks) :: List.replicate 2 (.act 1 ⟨3, fine⟩)

end Sample

/-- A call that writes and one that reads from a replica, and the handler of the first behind. -/
theorem rpc_refines_present : ∃ c b l r h, Refines deployment [.user ada, .token adaToken] 0 c b ∧
    succeeded 1 false c = true ∧ c.thread 0 = some ⟨l, .ret (.call (.ok r)), h⟩ ∧ ∃ req a h',
      Granted h l.task req ∧ b.thread 0 = some ⟨l.session req, .ret a, h'⟩ ∧
      a.finished = .call (.ok r) ∧ Post deployment h' req a := by
  have hrun : ((rpcDriver deployment).execute (rpcBoot [.user ada, .token adaToken] 0)
      (presentToken 7 ++ readKeys)).any (fun c => succeeded 0 true c && succeeded 1 false c) = true := by
    decide +kernel
  obtain ⟨c, -, hc, hend⟩ := Driver.exists_of_execute hrun
  obtain ⟨hpresent, hread⟩ := Bool.and_eq_true_iff.mp hend
  obtain ⟨b, hb, hanswers⟩ := rpc_refines (unique_pair ada adaToken) hc
  unfold succeeded at hpresent
  split at hpresent
  · rename_i l r h ht
    have hacted : acted h ≠ [] := fun hnil => by simp [hnil] at hpresent
    exact ⟨c, b, l, r, h, hb, hread, ht, hanswers 0 l _ h ht hacted⟩
  · cases hpresent

end Identity
