import HomeServices.Gateway.Contract
import HomeServices.Identity.SignedTokens

/-!
# The user of a session

The gateway reads the user of a session from the access token, without verifying it. The identity service
reads it from a token that it has verified.

* `member_of_unique`: a member that occurs once is the last of its name.
* **`decodeSub_of_verifyJwt`**: what the identity service reads, the gateway reads.
* `Owned`: the sessions in the table belong to the users of their tokens; `owned_reachable`.
* **`decoders_agree`**: the user of a session is the one its access token is accepted for.
-/

namespace Gateway

open Interaction
open Identity (Bytes Uuid Platform parseUuid jsonParse verifyJwt bearer)

/-! ## Two decoders -/

theorem lookup_of_filter {α β : Type} [DecidableEq α] {name : α} {b : β} : ∀ {l : List (α × β)},
    l.filter (fun m => m.1 = name) = [(name, b)] → l.lookup name = some b
  | [], h => by cases h
  | (n, b') :: l, h => by
    by_cases hn : n = name
    · rw [List.filter_cons_of_pos (by simpa using hn)] at h
      obtain ⟨rfl, rfl⟩ := Prod.mk.inj (List.cons.inj h).1
      exact List.lookup_cons_self
    · rw [List.filter_cons_of_neg (by simpa using hn)] at h
      have hne : (name == n) = false := beq_eq_false_iff_ne.mpr (Ne.symm hn)
      rw [List.lookup_cons, hne]
      exact lookup_of_filter h

/-- A member that occurs once is the last one of its name. -/
theorem member_of_unique {members : List (String × Json)} {name : String} {j : Json}
    (h : Json.unique members name = some (some j)) : member (.obj members) name = j := by
  unfold Json.unique at h
  split at h
  · cases h
  · rename_i m hfilter
    have hmem : m ∈ members.filter fun m => m.1 = name := by
      rw [hfilter]
      exact List.mem_singleton_self m
    have hname : m.1 = name := of_decide_eq_true (List.mem_filter.mp hmem).2
    have hm : m = (name, j) := Prod.ext hname (Option.some.inj (Option.some.inj h))
    have hreverse : members.reverse.filter (fun m => m.1 = name) = [(name, j)] := by
      rw [List.filter_reverse, hfilter, hm]
      rfl
    rw [member, lookup_of_filter hreverse]
    rfl
  · cases h

theorem sub_of_ofJson {value : Json} {claims : Identity.Claims} {sub : String}
    (h : Identity.Claims.ofJson value = some claims) (hsub : claims.sub = some sub) :
    (member value "sub").asString = some sub := by
  cases value with
  | obj members =>
    unfold Identity.Claims.ofJson at h
    obtain ⟨iss, -, h⟩ := Option.bind_eq_some_iff.mp h
    obtain ⟨sub', hread, h⟩ := Option.bind_eq_some_iff.mp h
    iterate 11 obtain ⟨_, -, h⟩ := Option.bind_eq_some_iff.mp h
    cases h
    obtain rfl : sub' = some sub := hsub
    unfold Json.optional at hread
    obtain ⟨j, hunique, hread⟩ := Option.bind_eq_some_iff.mp hread
    cases j with
    | none => cases hread
    | some j =>
      rw [member_of_unique hunique]
      cases j with
      | str s => exact Option.some.inj hread
      | _ => cases hread
  | _ => cases h

theorem bearer_inj {s t : String} (h : bearer s = bearer t) : s = t := by
  have h := congrArg String.toList (Identity.asBytes_inj (Option.some.inj h))
  rw [String.toList_append, String.toList_append] at h
  exact String.toList_inj.mp (List.append_cancel_left h)

variable [Platform]

/-- **The gateway reads the user that the identity service reads from a token.** -/
theorem decodeSub_of_verifyJwt {token : String} {jwk : Identity.Jwk} {options : Identity.VerificationOptions}
    {claims : Identity.Claims} {sub : String} {u : Uuid} (h : verifyJwt token jwk options = .ok claims)
    (hsub : claims.sub = some sub) (hu : parseUuid sub = some u) : decodeSubFromJwt token = .ok u := by
  obtain ⟨p₀, p₁, p₂, header, algorithm, publicKey, signature, hsegments, -, -, -, -, -, -, -, hclaims, -⟩ :=
    Identity.verifyJwt_eq_ok.mp h
  unfold Identity.decodeClaims at hclaims
  obtain ⟨bytes, hbytes, hclaims⟩ := Option.bind_eq_some_iff.mp hclaims
  obtain ⟨value, hvalue, hclaims⟩ := Option.bind_eq_some_iff.mp hclaims
  have hpayload : (Identity.segments token)[1]? = some p₁ := by
    rw [hsegments]
    rfl
  unfold decodeSubFromJwt
  simp only [hpayload, hbytes, hvalue, sub_of_ofJson hclaims hsub, hu]

theorem decodeSub_of_checkToken {token : String} {jwk : Identity.Jwk} {now : UInt64} {u : Uuid}
    (h : Identity.checkToken token jwk now = .ok u) : decodeSubFromJwt token = .ok u := by
  obtain ⟨claims, hclaims, h⟩ := Identity.bind_eq_ok.mp h
  obtain ⟨sub, hsub, hu⟩ := Identity.bind_eq_ok.mp h
  cases hverify : verifyJwt token jwk (Identity.authenticateOptions now) with
  | error e =>
    rw [hverify] at hclaims
    cases hclaims
  | ok claims' =>
    rw [hverify] at hclaims
    cases hclaims
    exact decodeSub_of_verifyJwt hverify (Identity.orError_eq_ok.mp hsub) (Identity.orError_eq_ok.mp hu)

/-- **The token that a request is authenticated with names the user it is authenticated as.** -/
theorem decodeSub_of_authenticate {token : String} {u : Uuid}
    (h : (Identity.authenticate (bearer token)).run.Yields (.ok u)) : decodeSubFromJwt token = .ok u := by
  unfold Identity.authenticate at h
  obtain ⟨token', htoken, h⟩ := yields_bind_ok.mp h
  obtain ⟨header, -, h⟩ := yields_bind_ok.mp h
  obtain ⟨jwks, -, h⟩ := yields_bind_ok.mp h
  obtain ⟨jwk, -, h⟩ := yields_bind_ok.mp h
  obtain ⟨now, -, h⟩ := yields_bind_ok.mp h
  obtain rfl : token = token' := bearer_inj (Identity.eq_bearer (yields_fromExcept.mp htoken))
  exact decodeSub_of_checkToken (yields_fromExcept.mp h)

/-! ## The session table -/

/-- The session belongs to the user of its access token. -/
def Session.Owned (s : Session) : Prop := decodeSubFromJwt s.accessToken = .ok s.userId

def Op.Owned : Op → Prop
  | insert s => s.Owned
  | _ => True

omit [Platform] in
theorem all_stored {α : Type} {P : Op → Prop} {x : Handler Op Resp SessionError α} (h : x.run.All P) :
    (stored x).run.All P := h.bind fun _ => trivial

theorem owned_authSession (headers : HeaderMap) : (authSession headers).run.All Op.Owned := by
  rw [authSession_run]
  split
  · exact trivial
  · split
    · exact trivial
    · exact ⟨trivial, fun _ => trivial⟩

theorem owned_login (email password : String) : (Login.route email password).run.All Op.Owned := by
  unfold Login.route
  refine all_run_bind ⟨trivial, fun _ => trivial⟩ fun _ => ?_
  refine all_run_bind ⟨trivial, fun _ => trivial⟩ fun response => ?_
  rw [run_bind, run_fromExcept, Prog.ret_bind]
  cases hsub : decodeSubFromJwt response.accessToken with
  | error e => exact trivial
  | ok userId =>
    refine all_run_bind trivial fun x => all_run_bind (all_stored ?_) fun _ => trivial
    rw [createSession_run]
    refine ⟨trivial, fun r => ?_⟩
    rcases r with e | raw
    · exact trivial
    · refine ⟨trivial, fun createdAt => ⟨hsub, fun r => ?_⟩⟩
      rcases r with e | _
      · exact trivial
      · exact trivial

/-- A request inserts sessions of their own users only. -/
theorem owned_route (l : Request) : (route l).run.All Op.Owned := by
  have hclient : identityClient.run.All Op.Owned := ⟨trivial, fun _ => trivial⟩
  have hforward : ∀ request, (forward request).run.All Op.Owned := fun _ => ⟨trivial, fun _ => trivial⟩
  cases l with
  | login email password => exact owned_login email password
  | logout headers =>
    exact all_run_bind (owned_authSession headers) fun _ =>
      all_run_bind (all_stored ⟨trivial, fun _ => trivial⟩) fun _ => trivial
  | signUp | verifyEmail | resendVerification =>
    exact all_run_bind hclient fun _ => all_run_bind (hforward _) fun _ => trivial
  | userInfo headers | updateProfile headers | updatePassword headers =>
    exact all_run_bind (owned_authSession headers) fun _ => all_run_bind hclient fun _ =>
      all_run_bind trivial fun _ => all_run_bind (hforward _) fun _ => trivial

omit [Platform] in
/-- What an operation leaves in the table was there, or is what it inserts. -/
theorem mem_table_of_performs {allowed : Op → Choice → Prop} {o : Op} {l l' : Request} {g g' : World}
    {r : Resp o} (h : Performs allowed o l g r l' g') {tokenHash : Bytes} {s : Session}
    (hs : g'.sessions tokenHash = some s) :
    g.sessions tokenHash = some s ∨ ∃ s₀, o = .insert s₀ ∧ s = s₀.row := by
  obtain ⟨-, ch, -, hperform⟩ := h
  have hinsert : ∀ s₀ : Session, Function.update g.sessions s₀.tokenHash (some s₀.row) tokenHash = some s →
      g.sessions tokenHash = some s ∨ s = s₀.row := by
    intro s₀ hs
    rw [Function.update_apply] at hs
    split_ifs at hs
    · exact Or.inr (Option.some.inj hs).symm
    · exact Or.inl hs
  have hdelete : ∀ deleted, Function.update g.sessions deleted none tokenHash = some s →
      g.sessions tokenHash = some s := by
    intro deleted hs
    rw [Function.update_apply] at hs
    split_ifs at hs
    exact hs
  cases o with
  | insert s₀ =>
    simp only [perform] at hperform
    split_ifs at hperform <;> cases hperform
    · exact (hinsert s₀ hs).imp_right fun h => ⟨s₀, rfl, h⟩
    · exact Or.inl hs
    · exact (hinsert s₀ hs).imp_right fun h => ⟨s₀, rfl, h⟩
  | delete deleted =>
    simp only [perform] at hperform
    split_ifs at hperform <;> cases hperform
    · exact Or.inl (hdelete deleted hs)
    · exact Or.inl hs
    · exact Or.inl (hdelete deleted hs)
  | fill =>
    simp only [perform] at hperform
    split_ifs at hperform <;> cases hperform
    · exact Or.inl hs
    · exact Or.inl hs
  | _ =>
    cases hperform
    exact Or.inl hs

/-- **Every session in the table belongs to the user of its token.** -/
theorem owned_reachable {allowed : Op → Choice → Prop} {c : State} (hc : Reachable (machine allowed) boot c) :
    ∀ tokenHash s, c.glob.sessions tokenHash = some s → s.Owned := by
  refine hc.invariant (I := fun c => ∀ tokenHash s, c.glob.sessions tokenHash = some s → s.Owned)
    (fun _ _ hs => by cases hs) ?_
  intro c c' hc ih hs
  have hall := hc.all (fun _ => rfl) (fun _ => rfl) fun _ l p hp => by
    have hp : p = (route l).run := hp
    rw [hp]
    exact owned_route l
  cases hs with
  | env henv =>
    obtain ⟨hrow⟩ := henv
    intro tokenHash s hs
    simp only [World.expire, Function.update_apply] at hs
    split_ifs at hs
    exact ih _ _ hs
  | spawn => exact ih
  | again => exact ih
  | call ht hperform =>
    intro tokenHash s hs
    rcases mem_table_of_performs hperform hs with hs | ⟨s₀, rfl, rfl⟩
    · exact ih _ _ hs
    · have howned : s₀.Owned := (hall _ _ ht).1
      exact howned

/-- **The two decoders of a token agree**, so that a session belongs to the user for whom the identity
service accepts its access token. -/
theorem decoders_agree :
    (∀ token jwk options claims sub u, verifyJwt token jwk options = .ok claims → claims.sub = some sub →
      parseUuid sub = some u → decodeSubFromJwt token = .ok u) ∧
    ∀ allowed c, Reachable (machine allowed) boot c → ∀ tokenHash s, c.glob.sessions tokenHash = some s →
      ∀ u, (Identity.authenticate (bearer s.accessToken)).run.Yields (.ok u) → s.userId = u := by
  refine ⟨fun token jwk options claims sub u h hsub hu => decodeSub_of_verifyJwt h hsub hu,
    fun allowed c hc tokenHash s hs u hu => ?_⟩
  have howned : decodeSubFromJwt s.accessToken = .ok s.userId := owned_reachable hc tokenHash s hs
  rw [decodeSub_of_authenticate hu] at howned
  exact (Except.ok.inj howned).symm

end Gateway
