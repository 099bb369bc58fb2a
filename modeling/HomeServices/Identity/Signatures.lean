import HomeServices.Identity.Window

/-!
# Where accepted tokens come from

Unless a signature is forged, `authenticate` accepts only what a login signed, for the user whose
password that login verified.

* `Unforged`: the signatures presented to the service verify only over messages that it signed.
* **`authenticate_authentic`**: an accepted token is a login's, of an active user, within its window.
-/

namespace Identity

open ReadCommitted Interaction

section Signatures

variable [Platform]

/-- A signature presented to `authenticate` that verifies under a stored public key is over a message
that some call signed with the matching private key. -/
def Unforged (c : State) : Prop :=
  ∀ i t authorization token p₀ p₁ p₂ signature k jwk algorithm point,
    c.thread i = some t → t.loc.request = .authenticate authorization →
    extractBearerToken authorization = .ok token → segments token = [p₀, p₁, p₂] →
    Base64Url.decodeVec p₂ = some signature → .key k ∈ c.glob.db →
    Jwk.ofJson k.publicJwk = some jwk → jwk.point = .ok point →
    ecdsaVerify algorithm point (asBytes (p₀ ++ "." ++ p₁)) signature = true →
    ∃ j e h keyPair, Happened c j e h ∧ e.op = .sign keyPair (asBytes (p₀ ++ "." ++ p₁)) ∧
      keyPair.point = point

variable {dep : Deployment} {scope : Scope} {db : List Row} {clock : ℕ} {c : State} {i : ℕ}
  {l : Session} {h : Hist}

/-- What a login signs is the signing input of claims that authorize its user. -/
theorem Signs.grants {req : Request} {keyPair : EcdsaKeyPair} {message : Bytes}
    (hs : Signs dep h req keyPair message) : ∃ email password u k key t claims,
      req = .login email password ∧ Authorized dep h email password u k key t ∧
      Grants claims u.id t.val ∧ message = asBytes (signingInput key.algorithm key.kid claims) := by
  obtain ⟨email, password, u, k, key, t, jti, hreq, hauth, -, hmessage⟩ := hs
  rcases hmessage with hm | hm
  · exact ⟨email, password, u, k, key, t, _, hreq, hauth, grants_access u.toUser t.val jti, hm⟩
  · exact ⟨email, password, u, k, key, t, _, hreq, hauth, grants_id u.toUser t.val jti, hm⟩

/-- **What `authenticate` accepts is a token whose signing input an earlier login produced, for the user
with the id it answers, after verifying the password and the status of the user.** In particular
this holds where `authenticate` has just returned. -/
theorem authenticate_authentic (hjson : JsonRoundTrip) (huuid : UuidRoundTrip) (hdb : UniqueKeys db)
    (hkeys : KeyTable dep db) (hc : Reachable (machine dep scope) (boot db clock) c)
    (hforge : Unforged c) {authorization : Option Bytes} {uid : Uuid}
    (ht : c.thread i = some ⟨l, .ret (.authenticate (.ok uid)), h⟩)
    (hreq : l.request = .authenticate authorization) :
    ∃ token p₀ p₁ p₂ now, authorization = bearer token ∧ segments token = [p₀, p₁, p₂] ∧
      Answered h .unixNow (.ok now) ∧
      ∃ j e h' email password u k key t keyPair, Happened c j e h' ∧
        e.loc.request = .login email password ∧
        e.op = .sign keyPair (asBytes (p₀ ++ "." ++ p₁)) ∧
        Authorized dep h' email password u k key t ∧ u.id = uid ∧ Within t now ∧
        ∃ header g, decodeHeader p₀ = some header ∧ header.kid = key.kid ∧ Saw h g ∧
          Unrevoked header.kid g.db := by
  have hpost := post_of_return hdb hc ht
  rw [hreq] at hpost
  obtain ⟨token, header, jwk, g, k, now, htoken, hheader, hsaw, hk, hstatus, hjwk, hkid, hclock,
    hcheck⟩ := hpost
  -- the row the key was read from is still there, and was written by the service
  have hpast := past_of_saw hc ht hsaw
  obtain ⟨status, hstored⟩ := hpast.key hdb hk
  have hunrevoked : Unrevoked header.kid g.db := by
    obtain ⟨c₁, hc₁, rfl, -⟩ := hpast
    obtain ⟨jwk', hjwk', hkid'⟩ := jwk_of_written (keyTable_reachable hdb hkeys hc₁ k hk)
    cases hjwk.symm.trans hjwk'
    exact ⟨k, hk, hkid'.symm.trans hkid, hstatus⟩
  obtain ⟨claims, hver, hsub⟩ := bind_eq_ok.mp hcheck
  cases hres : verifyJwt token jwk (authenticateOptions now) with
  | error e => rw [hres] at hver; cases hver
  | ok claims' =>
  rw [hres] at hver
  cases hver
  obtain ⟨p₀, p₁, p₂, header', algorithm, point, signature, hseg, hheader', -, -, -, hpoint, hsig,
    hverify, hclaims, hval⟩ := verifyJwt_eq_ok.mp hres
  obtain ⟨j, e, h', keyPair, ⟨t', ht', htook⟩, hop, -⟩ := hforge i _ authorization token p₀ p₁ p₂
    signature _ jwk algorithm point ht hreq htoken hseg hsig hstored hjwk hpoint hverify
  have hsigns := signs_of_sign hdb hc ht' htook hop
  obtain ⟨email, password, u, k', key, t, claims', hreq', hauth, hgrants, hmessage⟩ := hsigns.grants
  -- the segments are those of the signing input
  have hinput := asBytes_inj hmessage
  have hsplit : segments (encodeSegment (headerOf key).toJson ++ "." ++ encodeSegment claims'.toJson ++
      "." ++ p₂) = [p₀, p₁, p₂] := by
    rw [← hseg, segments_eq hseg, hinput]
    rfl
  obtain ⟨hp₀, hp₁⟩ := segments_message hsplit (dot_notMem_encodeSegment _) (dot_notMem_encodeSegment _)
  rw [← hp₁, decodeClaims_encode hjson hgrants.custom] at hclaims
  cases hclaims
  rw [← hp₀, decodeHeader_encode hjson] at hheader'
  cases hheader'
  have hhead : header = headerOf key := by
    simp only [decodeJwtHeader, hseg, List.head?_cons, orError, bind, Except.bind, ← hp₀,
      decodeHeader_encode hjson, Except.ok.injEq] at hheader
    exact hheader.symm
  have huid : u.id = uid := by
    simp only [hgrants.sub, orError, huuid u.id, bind, Except.bind, Except.ok.injEq] at hsub
    exact hsub
  refine ⟨token, p₀, p₁, p₂, now, eq_bearer htoken, hseg, hclock, j, e, h', email, password, u, k', key,
    t, keyPair, ⟨t', ht', htook⟩, ?_, hop, hauth, huid, (validateClaims_iff hgrants now).mp hval,
    header, g, ?_, ?_, hsaw, hunrevoked⟩
  · rw [((origin_reachable hc j t' ht').steps e htook.mem).1]
    exact hreq'
  · rw [hhead, ← hp₀, decodeHeader_encode hjson]
  · rw [hhead]
    rfl

/-- Where there is one key, and only a token of a login is presented, nothing is forged. -/
theorem unforged_presenting (hopens : OpensSealed) (hdb : UniqueKeys db) (hkeys : KeyTable dep db)
    (hc : Reachable (machine dep scope) (boot db clock) c) {r : Reply}
    (ht : c.thread i = some ⟨l, .ret r, h⟩) {email password : String} {u : StoredUser} {k : StoredKey}
    {key : ActiveSigningKey} {t : Instant} (hauth : Authorized dep h email password u k key t)
    {claims : Claims} {token : String} (hsigned : SignedToken h key claims token)
    (hone : (signingKeys c.glob.db).length = 1) {c' : State} (hsame : c'.glob.db = c.glob.db)
    (hstays : ∃ t', c'.thread i = some t' ∧ h <:+ t'.hist)
    (honly : ∀ i t authorization, c'.thread i = some t →
      t.loc.request = .authenticate authorization → authorization = bearer token) : Unforged c' := by
  intro i' t' authorization token' p₀ p₁ p₂ signature j jwk algorithm point ht' hreq htoken hseg _ hj
    hjwk hpoint _
  obtain rfl := honly i' t' authorization ht' hreq
  rw [extractBearerToken_bearer hsigned.printable] at htoken
  cases htoken
  obtain ⟨_, _, _, hseg'⟩ := hsigned.segments_eq
  cases hseg.symm.trans hseg'
  -- the stored key is the one of the login
  obtain ⟨hwritten, hstored⟩ := hauth.stored hdb hkeys hc ht
  obtain ⟨status, hk⟩ := hstored c .refl
  obtain ⟨j₀, hj₀⟩ := List.length_eq_one_iff.mp hone
  have hjk : j = { k with status } := by
    have hj := mem_signingKeys.mpr (hsame ▸ hj)
    have hk := mem_signingKeys.mpr hk
    rw [hj₀, List.mem_singleton] at hj hk
    rw [hj, hk]
  subst hjk
  obtain ⟨jwk', hjwk', -, -, -, -, hpoint'⟩ := opened_written hopens hwritten hauth.opened
  cases hjwk.symm.trans hjwk'
  cases hpoint.symm.trans hpoint'
  obtain ⟨signature', rnd, -, ⟨l₁, g₁, l₂, g₂, hentry⟩, -⟩ := hsigned
  obtain ⟨t₀, ht₀, hsuf⟩ := hstays
  obtain ⟨h₁, htook⟩ := exists_took (hsuf.subset hentry)
  exact ⟨i, _, h₁, key.keyPair, ⟨t₀, ht₀, htook⟩, rfl, rfl⟩

end Signatures

open Sample

/-- No token but this one is presented. -/
def presentsOnly (token : String) (req : Request) : Prop :=
  ∀ authorization, presents req = some authorization → authorization = bearer token

/-- The sample session, whose access token is then presented. -/
theorem authenticate_authentic_session : ∃ c l u h,
    Reachable (machine deployment (.of fun _ => True)) (boot [] 0) c ∧
    c.thread 4 = some ⟨l, .ret (.authenticate (.ok u)), h⟩ ∧
    ∃ j e h' email password v k key t, Happened c j e h' ∧
      e.loc.request = .login email password ∧
      Authorized deployment h' email password v k key t ∧ v.id = u := by
  obtain ⟨c, l, result, h, hc, ht, hreq, hidle, hone, hnone⟩ := session_loggedIn
  have hdb : UniqueKeys ([] : List Row) := List.Pairwise.nil
  have hpost := post_of_return hdb hc ht
  rw [hreq] at hpost
  obtain ⟨u, k, key, t, jti, -, hauth, hsigned, -⟩ := hpost
  have haccept := (undisturbed_presenting opensSealed verifiesSigned jsonRoundTrip uuidRoundTrip hdb
    keyTable_nil hc ht hauth hsigned (grants_access u.toUser t.val jti) (timestamp t.val) 4).1
    ⟨within_issued t, hauth.unrevoked hdb keyTable_nil hc ht hnone⟩
  -- from here on the token may be presented, and no other
  have hc₀ : Reachable (machine deployment (.of (presentsOnly result.accessToken))) (boot [] 0) c :=
    reachable_widen (fun req hreq a ha => by rw [hreq] at ha; cases ha) hc
  have hspawn : Step (machine deployment (.of (presentsOnly result.accessToken))) c
      ⟨c.glob, Function.update c.thread 4 (some ⟨presenting 4 result.accessToken,
        handler deployment (.authenticate (bearer result.accessToken)), []⟩)⟩ :=
    .spawn hidle ⟨.authenticate (bearer result.accessToken),
      fun a ha => (Option.some.inj ha).symm, rfl, rfl⟩
  have hstep : ∀ h o l g r l' g', Fine (fun ch => ch.seconds = timestamp t.val) o l g r l' g' →
      (machine deployment (.of (presentsOnly result.accessToken))).step h o l g r l' g' := by
    rintro - o l g r l' g' ⟨ch, -, -, hp⟩
    exact ⟨⟨ch, hp⟩, trivial⟩
  have hkeep : Function.update c.thread 4 (some ⟨presenting 4 result.accessToken,
      handler deployment (.authenticate (bearer result.accessToken)), []⟩) 3 =
      some ⟨l, .ret (.login (.ok result)), h⟩ := by
    rw [← ht]
    exact Function.update_of_ne (by decide) _ _
  obtain ⟨c', l', r, h', hc', ht', rfl, hsame, rfl⟩ := Alone.reachable
    (fun g => ⟨g.clock, le_refl _, rfl⟩) hstep
    (c := ⟨c.glob, Function.update c.thread 4 _⟩) (Function.update_self ..) haccept
  have hrun := Relation.ReflTransGen.trans (Relation.ReflTransGen.tail hc₀ hspawn) hc'
  have hstays := hc'.hist_suffix (i := 3) hkeep
  have hforge : Unforged c' := by
    refine unforged_presenting opensSealed hdb keyTable_nil hc ht hauth hsigned hone hsame hstays
      fun i t a hti hreq => ?_
    exact (origin_reachable hrun i t hti).allowed a (by rw [hreq]; rfl)
  obtain ⟨-, -, -, -, -, -, -, -, j, e, h₁, email, password, v, k', key', t', -, he, hlogin, -, hauth', hv, -⟩ :=
    authenticate_authentic jsonRoundTrip uuidRoundTrip hdb keyTable_nil hrun hforge ht' rfl
  exact ⟨c', _, u.id, h', reachable_widen (fun _ _ => trivial) hrun, ht', j, e, h₁, email, password, v,
    k', key', t', he, hlogin, hauth', hv⟩

end Identity
