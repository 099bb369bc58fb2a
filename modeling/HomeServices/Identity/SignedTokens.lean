import Mathlib.Data.Bool.AllAny
import HomeServices.Identity.KeyTable
import HomeServices.Identity.Undisturbed

/-!
# Signed tokens

How `authenticate` decides about a token, and what it decides about one that a login signed.

* `Printable`, `headerText_asBytes`: a token travels unchanged in a header value.
* `Grants`, `Within`, **`validateClaims_iff`**: the claims of both tokens, and when they are valid.
* `authenticateAt`, **`alone_authenticate`**: the decision, and that the handler makes it.
* `authenticateAt_outside`, `authenticateAt_revoked`, **`authenticateAt_inside`**: the decision about
  a signed token.
-/

namespace Identity

open ReadCommitted Interaction

/-! ## Header values -/

/-- A character that a header value may carry. -/
def Printable (c : Char) : Prop := 32 ≤ c.toNat ∧ c.toNat < 127

instance (c : Char) : Decidable (Printable c) := inferInstanceAs (Decidable (_ ∧ _))

theorem asBytes_ofList (cs : List Char) :
    asBytes (String.ofList cs) = cs.flatMap String.utf8EncodeChar := by
  rw [asBytes, String.ofList]
  simp [List.utf8Encode]

/-- ASCII takes one byte a character. -/
theorem utf8EncodeChar_ascii {c : Char} (h : c.toNat < 128) :
    String.utf8EncodeChar c = [UInt8.ofNat c.toNat] := by
  have hsize : c.utf8Size = 1 := by
    refine Char.utf8Size_eq_one_iff.mpr (UInt32.le_iff_toNat_le.mpr ?_)
    change c.toNat ≤ 127
    omega
  rw [String.utf8EncodeChar_eq_singleton hsize]
  rfl

theorem asBytes_ascii {s : String} (h : ∀ c ∈ s.toList, c.toNat < 128) :
    asBytes s = s.toList.map fun c => UInt8.ofNat c.toNat := by
  have hbytes := asBytes_ofList s.toList
  rw [String.ofList_toList] at hbytes
  rw [hbytes, List.map_eq_flatMap]
  exact List.flatMap_congr fun c hc => utf8EncodeChar_ascii (h c hc)

/-- The bytes of printable text read back as the text. -/
theorem headerText_asBytes {s : String} (h : ∀ c ∈ s.toList, Printable c) :
    headerText (asBytes s) = some s := by
  have hascii : ∀ c ∈ s.toList, c.toNat < 128 := fun c hc => (h c hc).2.trans (by decide)
  have hbytes := asBytes_ascii hascii
  have hval : ∀ c ∈ s.toList, (UInt8.ofNat c.toNat).toNat = c.toNat := fun c hc =>
    Nat.mod_eq_of_lt (by have := hascii c hc; omega)
  have hall : (asBytes s).all (fun b => (32 ≤ b ∧ b < 127) ∨ b = 9) = true := by
    rw [hbytes, List.all_map, List.all_eq_true]
    intro c hc
    have hv := hval c hc
    obtain ⟨hlo, hhi⟩ := h c hc
    simp only [Function.comp_apply, decide_eq_true_eq, UInt8.le_iff_toNat_le, UInt8.lt_iff_toNat_lt, hv]
    exact Or.inl ⟨hlo, hhi⟩
  have hback : (asBytes s).map (fun b => Char.ofNat b.toNat) = s.toList := by
    rw [hbytes, List.map_map]
    refine (List.map_congr_left fun c hc => ?_).trans (List.map_id _)
    simp only [Function.comp_apply, hval c hc, Char.ofNat_toNat, id]
  rw [headerText, if_pos hall, hback, String.ofList_toList]

/-- The text of a header value has its bytes. -/
theorem asBytes_of_headerText {value : Bytes} {s : String} (h : headerText value = some s) :
    value = asBytes s := by
  unfold headerText at h
  split_ifs at h with hall
  cases h
  have hascii : ∀ b ∈ value, b.toNat < 128 := by
    intro b hb
    have hb := of_decide_eq_true (List.all_eq_true.mp hall b hb)
    rcases hb with ⟨-, hb⟩ | rfl
    · exact (UInt8.lt_iff_toNat_lt.mp hb).trans (by decide)
    · decide
  have hchar : ∀ b ∈ value, (Char.ofNat b.toNat).toNat = b.toNat := fun b hb => by
    have hvalid : b.toNat.isValidChar := Or.inl ((hascii b hb).trans (by decide))
    rw [Char.ofNat, dif_pos hvalid]
    exact UInt32.toNat_ofNatLT
  rw [asBytes_ascii, String.toList_ofList, List.map_map]
  · refine ((List.map_congr_left fun b hb => ?_).trans (List.map_id _)).symm
    simp only [Function.comp_apply, hchar b hb, UInt8.ofNat_toNat, id]
  · rw [String.toList_ofList]
    intro c hc
    obtain ⟨b, hb, rfl⟩ := List.mem_map.mp hc
    rw [hchar b hb]
    exact hascii b hb

theorem printable_digit (n : ℕ) : Printable (Base64Url.digit n) := by
  unfold Base64Url.digit
  split_ifs with h1 h2 h3
  · have all : ∀ n : Fin 26, Printable (Char.ofNat (n + 65)) := by decide
    exact all ⟨n, h1⟩
  · have all : ∀ n : Fin 52, Printable (Char.ofNat (n + 71)) := by decide
    exact all ⟨n, h2⟩
  · have all : ∀ n : Fin 62, 52 ≤ n.val → Printable (Char.ofNat (n - 4)) := by decide
    exact all ⟨n, h3⟩ (by simpa using h2)
  · decide
  · decide

theorem printable_encode : ∀ bs : Bytes, ∀ c ∈ Base64Url.encode bs, Printable c
  | [] => by simp [Base64Url.encode]
  | [_] => by simp [Base64Url.encode, printable_digit]
  | [_, _] => by simp [Base64Url.encode, printable_digit]
  | _ :: _ :: _ :: rest => by
    simp only [Base64Url.encode, List.mem_cons]
    rintro c (rfl | rfl | rfl | rfl | hc)
    · exact printable_digit _
    · exact printable_digit _
    · exact printable_digit _
    · exact printable_digit _
    · exact printable_encode rest c hc

/-- The value of an `authorization` header. -/
def bearer (token : String) : Option Bytes := some (asBytes ("Bearer " ++ token))

theorem stripPrefix_append (start s : String) : stripPrefix start (start ++ s) = some s := by
  have hgo : ∀ p l : List Char, List.isPrefixOf? p (p ++ l) = some l := by
    intro p l
    induction p with
    | nil => simp [List.isPrefixOf?]
    | cons c p ih => simp [List.isPrefixOf?, ih]
  rw [stripPrefix, String.toList_append, hgo, Option.map_some, String.ofList_toList]

theorem append_of_stripPrefix {start s t : String} (h : stripPrefix start s = some t) :
    s = start ++ t := by
  obtain ⟨cs, hcs, rfl⟩ := Option.map_eq_some_iff.mp h
  rw [← String.toList_inj, String.toList_append, String.toList_ofList]
  exact (List.isPrefixOf?_eq_some_iff_append_eq.mp hcs).symm

/-- The header a token was extracted from. -/
theorem eq_bearer {authorization : Option Bytes} {token : String}
    (h : extractBearerToken authorization = .ok token) : authorization = bearer token := by
  unfold extractBearerToken at h
  cases authorization with
  | none => cases h
  | some value =>
    cases htext : headerText value with
    | none => simp [orError, htext, bind, Except.bind] at h
    | some text =>
      cases hstrip : stripPrefix "Bearer " text with
      | none => simp [orError, htext, hstrip, bind, Except.bind] at h
      | some rest =>
        simp only [orError, htext, hstrip, bind, Except.bind, Except.ok.injEq] at h
        rw [bearer, ← h, ← append_of_stripPrefix hstrip, ← asBytes_of_headerText htext]

/-- A printable token comes out of its header. -/
theorem extractBearerToken_bearer {token : String} (h : ∀ c ∈ token.toList, Printable c) :
    extractBearerToken (bearer token) = .ok token := by
  have hall : ∀ c ∈ ("Bearer " ++ token).toList, Printable c := by
    rw [String.toList_append]
    intro c hc
    rcases List.mem_append.mp hc with hc | hc
    · have hprefix : ∀ c ∈ "Bearer ".toList, Printable c := List.all_iff_forall_prop.mp (by decide)
      exact hprefix c hc
    · exact h c hc
  rw [extractBearerToken, bearer]
  simp only [orError, headerText_asBytes hall, stripPrefix_append, bind, Except.bind]

variable [Platform]

/-! ## Claims -/

/-- Claims that authorize the user with this id, issued at `t`. -/
structure Grants (claims : Claims) (id : Uuid) (t : ℕ) : Prop where
  iss : claims.iss = some issuer
  aud : claims.aud = some (.single audience)
  sub : claims.sub = some (uuidText id)
  exp : claims.exp = some (timestamp (t + accessTokenLifetimeSecs * second))
  nbf : claims.nbf = some (timestamp t)
  custom : claims.custom = []

theorem grants_access (user : User) (t : ℕ) (jti : Uuid) :
    Grants (accessClaims user t jti) user.id t := ⟨rfl, rfl, rfl, rfl, rfl, rfl⟩

theorem grants_id (user : User) (t : ℕ) (jti : Uuid) : Grants (idClaims user t jti) user.id t :=
  ⟨rfl, rfl, rfl, rfl, rfl, rfl⟩

omit [Platform] in
/-- `now` lies between thirty seconds before the second of `t` and thirty seconds after it plus the
lifetime. -/
def Within (t : Instant) (now : UInt64) : Prop :=
  t.val / second ≤ now.toNat + 30 ∧ now.toNat ≤ t.val / second + 930

omit [Platform] in
instance (t : Instant) (now : UInt64) : Decidable (Within t now) :=
  inferInstanceAs (Decidable (_ ∧ _))

omit [Platform] in
theorem timestamp_toNat {t : ℕ} (h : t / second < 2 ^ 64) : (timestamp t).toNat = t / second :=
  UInt64.toNat_ofNat_of_lt' h

omit [Platform] in
theorem second_lt (t : Instant) : t.val / second < 2 ^ 44 := by
  have ht := t.isLt
  unfold second
  omega

/-- **The checks of the claims pass exactly within the window.** -/
theorem validateClaims_iff {claims : Claims} {id : Uuid} {t : Instant} (h : Grants claims id t.val)
    (now : UInt64) : validateClaims claims (authenticateOptions now) = .ok () ↔ Within t now := by
  have ht := second_lt t
  have hexp : (timestamp (t.val + accessTokenLifetimeSecs * second)).toNat = t.val / second + 900 := by
    have hdiv : (t.val + accessTokenLifetimeSecs * second) / second = t.val / second + 900 :=
      Nat.add_mul_div_right _ _ (by decide)
    rw [timestamp_toNat (by omega), hdiv]
  have hnbf : (timestamp t.val).toNat = t.val / second := timestamp_toNat (by omega)
  unfold validateClaims authenticateOptions Within
  simp only [bind_eq_ok, require_eq_ok, h.iss, h.aud, h.exp, h.nbf, Option.mem_def, Option.some.injEq,
    forall_eq', Option.map_some, Audience.contains, Option.getD_some, decide_true, and_true,
    exists_const]
  simp only [UInt64.lt_iff_toNat_lt, UInt64.toNat_add, hexp, hnbf, UInt64.toNat_ofNat]
  have hnow := now.toNat_lt
  omega

/-! ## The decision -/

/-- What `authenticate` answers when it reads the keys of `db` and the clock at `now`. -/
def authenticateAt (authorization : Option Bytes) (db : List Row) (now : UInt64) :
    Except Status Uuid := do
  let token ← extractBearerToken authorization
  let header ← decodeJwtHeader token
  let jwks ← orError (.internal "failed to load signing keys") ((publicJwks db).mapM Jwk.ofJson)
  let jwk ← findKey jwks header.kid
  checkToken token jwk now

/-- **The handler makes this decision**, whatever happens to the database around its read. -/
theorem alone_authenticate {P : Choice → Prop} {env : World → World → Prop}
    {I : List Row → Prop} {R : Except Status Uuid → Prop} {authorization : Option Bytes}
    {l : Session} {g : World} (hl : l.tx = none) (hP : ∃ ch, ch.fault = false ∧ P ch) (hg : I g.db)
    (henv : ∀ g g', I g.db → env g g' → I g'.db)
    (hR : ∀ db ch, I db → P ch → R (authenticateAt authorization db ch.seconds)) :
    Alone (Fine P) env (fun l' g' r => l' = l ∧ I g'.db ∧ R r) l g
      (authenticate authorization).run := by
  obtain ⟨ch₀, hfault₀, hch₀⟩ := hP
  have hR₀ := hR g.db ch₀ hg hch₀
  unfold authenticate listPublicJwks
  simp only [bind_assoc]
  refine alone_fromExcept_bind.mpr ?_
  cases htoken : extractBearerToken authorization with
  | error e =>
    rw [authenticateAt, htoken] at hR₀
    exact ⟨rfl, hg, hR₀⟩
  | ok token =>
  refine alone_fromExcept_bind.mpr ?_
  cases hheader : decodeJwtHeader token with
  | error e =>
    simp only [authenticateAt, htoken, hheader, bind, Except.bind] at hR₀
    exact ⟨rfl, hg, hR₀⟩
  | ok header =>
  refine alone_attempt_bind.mpr fun g₁ hg₁ => ⟨?_, fun r l' g' hs => ?_⟩
  · exact ⟨_, _, _, ch₀, hfault₀, hch₀, rfl⟩
  obtain ⟨ch₁, hfault₁, -, hp⟩ := hs
  simp only [perform, hfault₁, Bool.false_eq_true, if_false, Option.some.injEq, Prod.mk.injEq] at hp
  obtain ⟨rfl, rfl, rfl⟩ := hp
  refine alone_attempt_bind.mpr fun g₂ hg₂ => ⟨?_, fun r l' g' hs => ?_⟩
  · exact ⟨_, _, _, ch₀, hfault₀, hch₀, perform_select hfault₀ hl fun _ _ => rfl⟩
  obtain ⟨ch₂, hfault₂, hch₂, hp⟩ := hs
  cases (perform_select hfault₂ hl fun _ _ => rfl).symm.trans hp
  have hI₂ : I g₂.db := henv _ _ (henv _ _ hg hg₁) hg₂
  have hR₂ : ∀ ch, P ch → R (do
      let jwks ← orError (.internal "failed to load signing keys")
        ((publicJwks g₂.db).mapM Jwk.ofJson)
      let jwk ← findKey jwks header.kid
      checkToken token jwk ch.seconds) := fun ch hch => by
    have hR₂ := hR g₂.db ch hI₂ hch
    simp only [authenticateAt, htoken, hheader, bind, Except.bind] at hR₂
    exact hR₂
  change Alone _ _ _ _ _ (fromExcept (orError _ ((publicJwks g₂.db).mapM Jwk.ofJson)) >>= _).run
  refine alone_fromExcept_bind.mpr ?_
  cases hjwks : (publicJwks g₂.db).mapM Jwk.ofJson with
  | none =>
    rw [hjwks] at hR₂
    exact ⟨rfl, hI₂, hR₂ ch₀ hch₀⟩
  | some jwks =>
  rw [hjwks] at hR₂
  refine alone_fromExcept_bind.mpr ?_
  cases hjwk : findKey jwks header.kid with
  | error e =>
    simp only [orError, bind, Except.bind, hjwk] at hR₂
    exact ⟨rfl, hI₂, hR₂ ch₀ hch₀⟩
  | ok jwk =>
  simp only [orError, bind, Except.bind, hjwk] at hR₂
  refine alone_attempt_bind.mpr fun g₃ hg₃ => ⟨?_, fun r l' g' hs => ?_⟩
  · exact ⟨_, _, _, ch₀, hfault₀, hch₀, rfl⟩
  obtain ⟨ch₃, hfault₃, hch₃, hp⟩ := hs
  simp only [perform, hfault₃, Bool.false_eq_true, if_false, Option.some.injEq, Prod.mk.injEq] at hp
  obtain ⟨rfl, rfl, rfl⟩ := hp
  have hI₃ : I g₃.db := by
    refine henv _ _ ?_ hg₃
    exact hI₂
  exact ⟨rfl, hI₃, hR₂ ch₃ hch₃⟩

/-! ## Signed tokens -/

theorem printable_encodeSegment (j : Json) : ∀ c ∈ (encodeSegment j).toList, Printable c := by
  rw [encodeSegment, Base64Url.toList_encodeString]
  exact printable_encode _

section Signed

variable {dep : Deployment} {h₀ : Hist} {db : List Row} {key : ActiveSigningKey} {claims : Claims}
  {token : String} {id : Uuid} {t : Instant} {now : UInt64}

/-- The header of the tokens a key signs. -/
def headerOf (key : ActiveSigningKey) : JwtHeader :=
  { alg := key.algorithm.asStr, typ := "JWT", kid := key.kid }

/-- The three segments of a signed token. -/
theorem SignedToken.segments_eq (h : SignedToken h₀ key claims token) : ∃ signature rnd,
    signature = ecdsaSign key.keyPair.algorithm key.keyPair.pkcs8
      (asBytes (signingInput key.algorithm key.kid claims)) rnd ∧
    segments token = [encodeSegment (headerOf key).toJson, encodeSegment claims.toJson,
      Base64Url.encodeString signature] := by
  obtain ⟨signature, rnd, hsig, -, rfl⟩ := h
  refine ⟨signature, rnd, hsig, ?_⟩
  have hdot : '.' ∉ (Base64Url.encodeString signature).toList := by
    rw [Base64Url.toList_encodeString]
    exact Base64Url.dot_notMem_encode _
  rw [segments_append, segments_of_notMem hdot, signingInput, segments_append,
    segments_of_notMem (dot_notMem_encodeSegment _), segments_of_notMem (dot_notMem_encodeSegment _)]
  rfl

/-- A signed token is printable. -/
theorem SignedToken.printable (h : SignedToken h₀ key claims token) :
    ∀ c ∈ token.toList, Printable c := by
  obtain ⟨signature, rnd, -, -, rfl⟩ := h
  have hdot : ∀ c ∈ ".".toList, Printable c := List.all_iff_forall_prop.mp (by decide)
  rw [signingInput]
  simp only [String.toList_append, List.mem_append, Base64Url.toList_encodeString]
  rintro c ((((hc | hc) | hc) | hc) | hc)
  · exact printable_encodeSegment _ c hc
  · exact hdot c hc
  · exact printable_encodeSegment _ c hc
  · exact hdot c hc
  · exact printable_encode _ c hc

/-- The header of a signed token names its key. -/
theorem SignedToken.header_eq (hjson : JsonRoundTrip) (h : SignedToken h₀ key claims token) :
    decodeJwtHeader token = .ok (headerOf key) := by
  obtain ⟨signature, rnd, -, hseg⟩ := h.segments_eq
  simp only [decodeJwtHeader, hseg, List.head?_cons, orError, decodeHeader_encode hjson, bind,
    Except.bind]

/-- Up to the key lookup, the decision about a signed token. -/
theorem authenticateAt_eq (hjson : JsonRoundTrip) (h : SignedToken h₀ key claims token) :
    authenticateAt (bearer token) db now =
      (orError (.internal "failed to load signing keys") ((publicJwks db).mapM Jwk.ofJson)).bind
        fun jwks => (findKey jwks key.kid).bind fun jwk => checkToken token jwk now := by
  simp only [authenticateAt, extractBearerToken_bearer h.printable, h.header_eq hjson, headerOf, bind,
    Except.bind]

/-- A signed token checks out only within its window. -/
theorem within_of_checkToken (hjson : JsonRoundTrip) (h : SignedToken h₀ key claims token)
    (hgrants : Grants claims id t.val) {jwk : Jwk} {userId : Uuid}
    (hcheck : checkToken token jwk now = .ok userId) : Within t now := by
  obtain ⟨signature, rnd, -, hseg⟩ := h.segments_eq
  rw [checkToken, bind_eq_ok] at hcheck
  obtain ⟨claims', hver, -⟩ := hcheck
  cases hres : verifyJwt token jwk (authenticateOptions now) with
  | error e => rw [hres] at hver; cases hver
  | ok claims'' =>
    obtain ⟨p₀, p₁, p₂, -, -, -, -, hseg', -, -, -, -, -, -, -, hdec, hval⟩ := verifyJwt_eq_ok.mp hres
    rw [hseg] at hseg'
    cases hseg'
    rw [decodeClaims_encode hjson hgrants.custom] at hdec
    cases hdec
    exact (validateClaims_iff hgrants now).mp hval

/-- Outside its window, a signed token is rejected under any table. -/
theorem authenticateAt_outside (hjson : JsonRoundTrip) (h : SignedToken h₀ key claims token)
    (hgrants : Grants claims id t.val) (hnow : ¬ Within t now) :
    ∃ e, authenticateAt (bearer token) db now = .error e := by
  cases hres : authenticateAt (bearer token) db now with
  | error e => exact ⟨e, rfl⟩
  | ok userId =>
    rw [authenticateAt_eq hjson h] at hres
    obtain ⟨jwks, -, hres⟩ := bind_eq_ok.mp hres
    obtain ⟨jwk, -, hcheck⟩ := bind_eq_ok.mp hres
    exact absurd (within_of_checkToken hjson h hgrants hcheck) hnow

/-- While no row of its key is published, a signed token is rejected. -/
theorem authenticateAt_revoked (hjson : JsonRoundTrip) (hdb : UniqueKeys db)
    (hkeys : KeyTable dep db) (h : SignedToken h₀ key claims token)
    (hrevoked : ¬ Unrevoked key.kid db) :
    ∃ e, authenticateAt (bearer token) db now = .error e := by
  obtain ⟨jwks, hjwks, -, hnone⟩ := publicJwks_parse hdb hkeys
  rw [authenticateAt_eq hjson h, hjwks]
  refine ⟨.unauthenticated "unknown signing key", ?_⟩
  simp only [orError, findKey, hnone _ hrevoked, Except.bind]

/-- **Within its window and while its key is not revoked, a signed token is accepted.** -/
theorem authenticateAt_inside (hopens : OpensSealed) (hverifies : VerifiesSigned)
    (hjson : JsonRoundTrip) (huuid : UuidRoundTrip) {k : StoredKey} (hdb : UniqueKeys db) (hkeys : KeyTable dep db) (hk : ∃ status, .key { k with status } ∈ db)
    (hkey : openSigningKey dep.kek k = .ok key) (hunrevoked : Unrevoked k.kid db)
    (h : SignedToken h₀ key claims token) (hgrants : Grants claims id t.val) (hnow : Within t now) :
    authenticateAt (bearer token) db now = .ok id := by
  obtain ⟨jwks, hjwks, hfind, -⟩ := publicJwks_parse hdb hkeys
  obtain ⟨j, hj, hjk, hstatus⟩ := hunrevoked
  obtain ⟨status, hk⟩ := hk
  obtain rfl : j = { k with status } := key_unique hdb hj hk hjk
  obtain ⟨jwk, hjwk, hjkid, hkid, halg, hpalg, hpoint⟩ := opened_written hopens (hkeys _ hj) hkey
  obtain ⟨signature, rnd, hsig, hseg⟩ := h.segments_eq
  have hvalid := key.keyPair.valid
  rw [hpalg] at hvalid
  have hver : verifyJwt token jwk (authenticateOptions now) = .ok claims := by
    refine verifyJwt_eq_ok.mpr ⟨_, _, _, headerOf key, .ES256, key.keyPair.point, signature, hseg,
      decodeHeader_encode hjson _, ?_, by simp [authenticateOptions], hkid.trans hjkid.symm, hpoint,
      Base64Url.decodeVec_encodeString _, ?_, decodeClaims_encode hjson hgrants.custom,
      (validateClaims_iff hgrants now).mpr hnow⟩
    · rw [headerOf, halg]
      exact Algorithm.parse_asStr .ES256
    · rw [hsig, hpalg]
      exact hverifies _ _ _ _ _ hvalid
  rw [authenticateAt_eq hjson h, hjwks]
  have hfind := hfind _ hj hstatus
  rw [hjwk] at hfind
  rw [← hkid] at hfind
  simp only [orError, findKey, hfind, checkToken, hver, Except.mapError, hgrants.sub, huuid id, bind,
    Except.bind]

end Signed

end Identity
