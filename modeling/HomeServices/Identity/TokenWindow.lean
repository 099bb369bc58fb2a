import HomeServices.Identity.Sample
import HomeServices.Identity.SignedTokens

/-!
# What verification makes of a signed token

`verify_jwt` reads back what `sign_jwt` wrote, and compares times with sums of `u64`.

* `verifiedClaims`, `verifyJwt_eq`: the claims of a token with a valid signature, and their validation.
* `MaySign`, **`verifiedClaims_of_maySign`**: what a token of `sign_jwt` decodes to.
* `Unexpired`, `Begun`, `Addressed`: what the claims have to satisfy, in whole numbers.
* **`round_trip_iff`**: signed claims come back unless a custom one has the name of a named one, or a
  sum wraps.
* `verifyJwtChecked`, `Fits`: additions that may not overflow; **`exactWindow_iff`**: the window is exact
  when none does; `window_of_verifyJwt`: no token is accepted outside it.
-/

namespace Identity

open Interaction

/-! ## What the claims have to satisfy -/

/-- The expiry has not passed, with some leeway. -/
def Unexpired (claims : Claims) (options : VerificationOptions) : Prop :=
  ∀ exp ∈ claims.exp, options.currentTime.toNat ≤ exp.toNat + options.leeway.toNat

/-- The token is valid already, with some leeway. -/
def Begun (claims : Claims) (options : VerificationOptions) : Prop :=
  ∀ nbf ∈ claims.nbf, nbf.toNat ≤ options.currentTime.toNat + options.leeway.toNat

/-- Issuer and audience are those expected. -/
structure Addressed (claims : Claims) (options : VerificationOptions) : Prop where
  issuer : ∀ issuer ∈ options.issuer, claims.iss = some issuer
  audience : ∀ audience ∈ options.audience, (claims.aud.map (·.contains audience)).getD false = true

/-- The comparison of the expiry, on `u64`. -/
def Late (claims : Claims) (options : VerificationOptions) : Prop :=
  ∃ exp ∈ claims.exp, exp + options.leeway < options.currentTime

/-- The comparison of the beginning, on `u64`. -/
def Early (claims : Claims) (options : VerificationOptions) : Prop :=
  ∃ nbf ∈ claims.nbf, options.currentTime + options.leeway < nbf

section Validation

variable {claims : Claims} {options : VerificationOptions}

theorem require_of_not {ε : Type} {c : Prop} [Decidable c] {e : ε} (h : ¬ c) : require c e = .error e :=
  if_neg h

theorem not_late_iff : ¬ Late claims options ↔
    ∀ exp ∈ claims.exp, ¬ exp + options.leeway < options.currentTime := by
  simp [Late]

theorem not_early_iff : ¬ Early claims options ↔
    ∀ nbf ∈ claims.nbf, ¬ options.currentTime + options.leeway < nbf := by
  simp [Early]

theorem validateClaims_eq_ok : validateClaims claims options = .ok () ↔
    ¬ Late claims options ∧ ¬ Early claims options ∧ Addressed claims options := by
  simp only [validateClaims, bind_eq_ok, require_eq_ok, exists_const]
  rw [not_late_iff, not_early_iff]
  constructor
  · rintro ⟨hexp, hnbf, hiss, haud⟩
    exact ⟨hexp, hnbf, hiss, haud⟩
  · rintro ⟨hexp, hnbf, haddr⟩
    exact ⟨hexp, hnbf, haddr.issuer, haddr.audience⟩

/-- The expiry is checked first, and nothing else is answered as expired. -/
theorem validateClaims_eq_expired :
    validateClaims claims options = .error .tokenExpired ↔ Late claims options := by
  constructor
  · intro h
    by_contra hlate
    rw [not_late_iff] at hlate
    rw [validateClaims, require, if_pos hlate] at h
    simp only [require, bind, Except.bind] at h
    split_ifs at h <;> cases h
  · intro hlate
    have hnot : ¬ ∀ exp ∈ claims.exp, ¬ exp + options.leeway < options.currentTime := fun h =>
      not_late_iff.mpr h hlate
    rw [validateClaims, require_of_not hnot]
    rfl

theorem toNat_add_of_lt {a b : UInt64} (h : a.toNat + b.toNat < 2 ^ 64) :
    (a + b).toNat = a.toNat + b.toNat := by
  rw [UInt64.toNat_add]
  exact Nat.mod_eq_of_lt h

theorem toNat_add_le (a b : UInt64) : (a + b).toNat ≤ a.toNat + b.toNat := by
  rw [UInt64.toNat_add]
  exact Nat.mod_le _ _

/-- A wrapped sum only shortens the life of a token. -/
theorem unexpired_of_not_late (h : ¬ Late claims options) : Unexpired claims options := by
  intro exp hexp
  have hle := not_late_iff.mp h exp hexp
  rw [UInt64.lt_iff_toNat_lt] at hle
  exact (not_lt.mp hle).trans (toNat_add_le _ _)

theorem begun_of_not_early (h : ¬ Early claims options) : Begun claims options := by
  intro nbf hnbf
  have hle := not_early_iff.mp h nbf hnbf
  rw [UInt64.lt_iff_toNat_lt] at hle
  exact (not_lt.mp hle).trans (toNat_add_le _ _)

/-! ## Sums that fit -/

/-- The sum with the expiry is a `u64`. -/
def ExpFits (claims : Claims) (options : VerificationOptions) : Prop :=
  ∀ exp ∈ claims.exp, exp.toNat + options.leeway.toNat < 2 ^ 64

/-- The sum that the beginning is compared with is a `u64`. -/
def NbfFits (claims : Claims) (options : VerificationOptions) : Prop :=
  claims.nbf ≠ none → options.currentTime.toNat + options.leeway.toNat < 2 ^ 64

/-- Every sum that is computed is a `u64`; the second is not when the token has expired. -/
def Fits (claims : Claims) (options : VerificationOptions) : Prop :=
  ExpFits claims options ∧ (Unexpired claims options → NbfFits claims options)

theorem late_iff (h : ExpFits claims options) : Late claims options ↔ ¬ Unexpired claims options := by
  refine ⟨fun ⟨exp, hexp, hlate⟩ hun => ?_, fun hun => ?_⟩
  · rw [UInt64.lt_iff_toNat_lt, toNat_add_of_lt (h exp hexp)] at hlate
    exact absurd (hun exp hexp) (not_le.mpr hlate)
  · by_contra hlate
    exact hun (unexpired_of_not_late hlate)

theorem early_iff (h : NbfFits claims options) : Early claims options ↔ ¬ Begun claims options := by
  refine ⟨fun ⟨nbf, hnbf, hearly⟩ hbegun => ?_, fun hbegun => ?_⟩
  · have hsome : claims.nbf ≠ none := by
      rw [Option.mem_def.mp hnbf]
      exact Option.some_ne_none nbf
    rw [UInt64.lt_iff_toNat_lt, toNat_add_of_lt (h hsome)] at hearly
    exact absurd (hbegun nbf hnbf) (not_le.mpr hearly)
  · by_contra hearly
    exact hbegun (begun_of_not_early hearly)

/-! ## Additions that may not overflow -/

/-- `+` of a build that checks for overflow; `none` is a panic. -/
def checkedAdd (a b : UInt64) : Option UInt64 := if a.toNat + b.toNat < 2 ^ 64 then some (a + b) else none

/-- Whether the expiry has passed. -/
def lateChecked (claims : Claims) (options : VerificationOptions) : Option Bool :=
  match claims.exp with
  | none => some false
  | some exp => (checkedAdd exp options.leeway).map fun limit => limit < options.currentTime

/-- Whether the token is not valid yet. -/
def earlyChecked (claims : Claims) (options : VerificationOptions) : Option Bool :=
  match claims.nbf with
  | none => some false
  | some nbf => (checkedAdd options.currentTime options.leeway).map fun limit => limit < nbf

/-- Validate exp, nbf, iss and aud where additions are checked. -/
def validateClaimsChecked (claims : Claims) (options : VerificationOptions) :
    Option (Except CryptoError Unit) := do
  if ← lateChecked claims options then return .error .tokenExpired
  if ← earlyChecked claims options then return .error .invalidToken
  return do
    require (∀ issuer ∈ options.issuer, claims.iss = some issuer) .invalidToken
    require (∀ audience ∈ options.audience,
      (claims.aud.map (·.contains audience)).getD false = true) .invalidToken

theorem lateChecked_spec (claims : Claims) (options : VerificationOptions) :
    (∃ late, lateChecked claims options = some late ∧ (late = true ↔ Late claims options) ∧
      ExpFits claims options) ∨
    lateChecked claims options = none ∧ ¬ ExpFits claims options := by
  unfold lateChecked Late ExpFits
  cases claims.exp with
  | none => exact Or.inl ⟨false, rfl, by simp, by simp⟩
  | some exp =>
    simp only [Option.mem_def, Option.some.injEq, forall_eq', exists_eq_left']
    unfold checkedAdd
    split_ifs with hfits
    · exact Or.inl ⟨_, rfl, decide_eq_true_iff, hfits⟩
    · exact Or.inr ⟨rfl, hfits⟩

theorem earlyChecked_spec (claims : Claims) (options : VerificationOptions) :
    (∃ early, earlyChecked claims options = some early ∧ (early = true ↔ Early claims options) ∧
      NbfFits claims options) ∨
    earlyChecked claims options = none ∧ ¬ NbfFits claims options := by
  unfold earlyChecked Early NbfFits
  cases claims.nbf with
  | none => exact Or.inl ⟨false, rfl, by simp, by simp⟩
  | some nbf =>
    simp only [Option.mem_def, Option.some.injEq, exists_eq_left', ne_eq, reduceCtorEq, not_false_eq_true,
      forall_const]
    unfold checkedAdd
    split_ifs with hfits
    · exact Or.inl ⟨_, rfl, decide_eq_true_iff, hfits⟩
    · exact Or.inr ⟨rfl, hfits⟩

/-- **Checked additions panic exactly when a sum that is computed does not fit.** -/
theorem validateClaimsChecked_ne_none :
    validateClaimsChecked claims options ≠ none ↔ Fits claims options := by
  rcases lateChecked_spec claims options with
    ⟨late, hlate, hiff, hexp⟩ | ⟨hlate, hexp⟩
  · cases late with
    | true =>
      -- the second sum is not computed
      have hexpired : ¬ Unexpired claims options := (late_iff hexp).mp (hiff.mp rfl)
      simp only [validateClaimsChecked, hlate, Option.bind_eq_bind, Option.bind_some, if_true]
      exact iff_of_true (Option.some_ne_none _) ⟨hexp, fun h => absurd h hexpired⟩
    | false =>
      have hun : Unexpired claims options := unexpired_of_not_late fun h => Bool.false_ne_true (hiff.mpr h)
      simp only [validateClaimsChecked, hlate, Option.bind_eq_bind, Option.bind_some, Bool.false_eq_true,
        if_false]
      rcases earlyChecked_spec claims options with
        ⟨early, hearly, -, hnbf⟩ | ⟨hearly, hnbf⟩
      · rw [hearly]
        refine iff_of_true ?_ ⟨hexp, fun _ => hnbf⟩
        cases early <;> exact Option.some_ne_none _
      · rw [hearly]
        exact iff_of_false (fun h => h rfl) fun h => hnbf (h.2 hun)
  · simp only [validateClaimsChecked, hlate, Option.bind_eq_bind, Option.bind_none]
    exact iff_of_false (fun h => h rfl) fun h => hexp h.1

/-- Where every sum fits, the comparisons are those of whole numbers. -/
theorem validateClaims_of_fits (hfits : Fits claims options) :
    (validateClaims claims options = .ok () ↔
      Unexpired claims options ∧ Begun claims options ∧ Addressed claims options) ∧
    (validateClaims claims options = .error .tokenExpired ↔ ¬ Unexpired claims options) := by
  refine ⟨?_, validateClaims_eq_expired.trans (late_iff hfits.1)⟩
  rw [validateClaims_eq_ok, late_iff hfits.1, not_not]
  refine and_congr_right fun hun => ?_
  rw [early_iff (hfits.2 hun), not_not]

end Validation

section Tokens

variable [Platform]

/-! ## The claims of a token -/

/-- The claims of a token whose signature verified. -/
def verifiedClaims (token : String) (publicJwk : Jwk) (options : VerificationOptions) :
    Except CryptoError Claims :=
  match segments token with
  | [p₀, p₁, p₂] => do
    let header ← orError .invalidToken (decodeHeader p₀)
    let algorithm ← Algorithm.parse header.alg
    require (algorithm ∈ options.allowedAlgorithms) .algorithmMismatch
    require (header.kid = publicJwk.kid) .verification
    let publicKey ← publicJwk.point
    let signature ← orError .invalidToken (Base64Url.decodeVec p₂)
    require (ecdsaVerify algorithm publicKey (asBytes (p₀ ++ "." ++ p₁)) signature) .verification
    orError .invalidToken (decodeClaims p₁)
  | _ => .error .invalidToken

/-- Verification reads the claims, then validates them. -/
theorem verifyJwt_eq (token : String) (publicJwk : Jwk) (options : VerificationOptions) :
    verifyJwt token publicJwk options = do
      let claims ← verifiedClaims token publicJwk options
      validateClaims claims options
      return claims := by
  unfold verifyJwt verifiedClaims
  match segments token with
  | [p₀, p₁, p₂] => simp only [bind_assoc]
  | [] | [_] | [_, _] | _ :: _ :: _ :: _ :: _ => rfl

/-- `verify_jwt` where additions are checked. -/
def verifyJwtChecked (token : String) (publicJwk : Jwk) (options : VerificationOptions) :
    Option (Except CryptoError Claims) :=
  match verifiedClaims token publicJwk options with
  | .error e => some (.error e)
  | .ok claims => (validateClaimsChecked claims options).map fun r => r.map fun () => claims

section Verified

variable {token : String} {jwk : Jwk} {claims : Claims} {options : VerificationOptions}

theorem verifyJwt_of_verified (h : verifiedClaims token jwk options = .ok claims) :
    verifyJwt token jwk options = (validateClaims claims options).map fun () => claims := by
  rw [verifyJwt_eq, h]
  change (validateClaims claims options >>= fun _ => Except.ok claims) = _
  cases validateClaims claims options <;> rfl

theorem verifyJwt_ok_iff (h : verifiedClaims token jwk options = .ok claims) :
    verifyJwt token jwk options = .ok claims ↔ validateClaims claims options = .ok () := by
  rw [verifyJwt_of_verified h]
  cases validateClaims claims options <;> simp [Except.map]

theorem verifyJwt_error_iff (h : verifiedClaims token jwk options = .ok claims) (e : CryptoError) :
    verifyJwt token jwk options = .error e ↔ validateClaims claims options = .error e := by
  rw [verifyJwt_of_verified h]
  cases validateClaims claims options <;> simp [Except.map]

/-- **No token is accepted outside its window**, also where a sum wraps. -/
theorem window_of_verifyJwt (h : verifyJwt token jwk options = .ok claims) :
    Unexpired claims options ∧ Begun claims options := by
  obtain ⟨_, _, _, _, _, _, _, -, -, -, -, -, -, -, -, -, hval⟩ := verifyJwt_eq_ok.mp h
  obtain ⟨hlate, hearly, -⟩ := validateClaims_eq_ok.mp hval
  exact ⟨unexpired_of_not_late hlate, begun_of_not_early hearly⟩

/-- The times in a verified token are compared as whole numbers, without an overflow. -/
structure ExactWindow (token : String) (jwk : Jwk) (claims : Claims) (options : VerificationOptions) :
    Prop where
  noOverflow : verifyJwtChecked token jwk options ≠ none
  accepted : Addressed claims options →
    (verifyJwt token jwk options = .ok claims ↔ Unexpired claims options ∧ Begun claims options)
  expired : verifyJwt token jwk options = .error .tokenExpired ↔ ¬ Unexpired claims options

/-- **The window is exact if and only if every sum that is computed fits.** -/
theorem exactWindow_iff (h : verifiedClaims token jwk options = .ok claims) :
    ExactWindow token jwk claims options ↔ Fits claims options := by
  have hchecked : verifyJwtChecked token jwk options ≠ none ↔ Fits claims options := by
    rw [← validateClaimsChecked_ne_none, verifyJwtChecked, h]
    simp only [ne_eq, Option.map_eq_none_iff]
  refine ⟨fun hexact => hchecked.mp hexact.noOverflow, fun hfits => ?_⟩
  obtain ⟨hok, hexpired⟩ := validateClaims_of_fits hfits
  refine ⟨hchecked.mpr hfits, fun haddr => ?_, (verifyJwt_error_iff h _).trans hexpired⟩
  rw [verifyJwt_ok_iff h, hok]
  exact ⟨fun ⟨hun, hbegun, _⟩ => ⟨hun, hbegun⟩, fun ⟨hun, hbegun⟩ => ⟨hun, hbegun, haddr⟩⟩

end Verified

/-! ## Signed tokens -/

/-- serde_json reads back the text that it prints. -/
def Reads (j : Json) : Prop := jsonParse (jsonPrint j) = some j

/-- `sign_jwt` may return the token, for some random bytes of its signature. -/
def MaySign (algorithm : Algorithm) (kid : String) (claims : Claims) (keyPair : EcdsaKeyPair)
    (jwt : EncodedJwt) : Prop :=
  ∃ message k rnd, (signJwt id algorithm kid claims keyPair).run = .call (.sign keyPair message) k ∧
    k (.ok (ecdsaSign keyPair.algorithm keyPair.pkcs8 message rnd)) = .ret (.ok jwt)

/-- The token that `sign_jwt` returns for random bytes. -/
def signedJwt (algorithm : Algorithm) (kid : String) (claims : Claims) (keyPair : EcdsaKeyPair)
    (rnd : Bytes) : EncodedJwt :=
  { token := signingInput algorithm kid claims ++ "." ++ Base64Url.encodeString
      (ecdsaSign keyPair.algorithm keyPair.pkcs8 (asBytes (signingInput algorithm kid claims)) rnd)
    kid }

theorem maySign_iff {algorithm : Algorithm} {kid : String} {claims : Claims} {keyPair : EcdsaKeyPair}
    {jwt : EncodedJwt} : MaySign algorithm kid claims keyPair jwt ↔
      ∃ rnd, jwt = signedJwt algorithm kid claims keyPair rnd := by
  constructor
  · rintro ⟨message, k, rnd, hrun, hk⟩
    cases hrun
    cases hk
    exact ⟨rnd, rfl⟩
  · rintro ⟨rnd, rfl⟩
    exact ⟨_, _, rnd, rfl, rfl⟩

/-- Equal claims; the custom ones are a map, whose members have no order. -/
def Claims.Same (c d : Claims) : Prop :=
  { c with custom := [] } = { d with custom := [] } ∧ c.custom.Perm d.custom

/-- No custom member has the name of a named claim. -/
def Claims.Apart (c : Claims) : Prop := ∀ m ∈ c.custom, m.1 ∉ memberNames

section Signed

variable {algorithm : Algorithm} {kid : String} {pkcs8 : Bytes} {keyPair : EcdsaKeyPair} {jwk : Jwk}
  {claims : Claims} {options : VerificationOptions} {jwt : EncodedJwt}

/-- **A token of `sign_jwt` verifies, and its claims are what their JSON decodes to.** -/
theorem verifiedClaims_of_maySign (hverifies : VerifiesSigned)
    (hjson : (∀ h : JwtHeader, Reads h.toJson) ∧ Reads claims.toJson)
    (hpair : EcdsaKeyPair.fromPkcs8 algorithm pkcs8 = some keyPair)
    (hjwk : publicJwkFromPkcs8 kid algorithm pkcs8 = .ok jwk)
    (hallowed : algorithm ∈ options.allowedAlgorithms)
    (hsigned : MaySign algorithm kid claims keyPair jwt) :
    verifiedClaims jwt.token jwk options = orError .invalidToken (Claims.ofJson claims.toJson) := by
  obtain ⟨rnd, rfl⟩ := maySign_iff.mp hsigned
  obtain ⟨keyPair', hpair', hkid, hpoint⟩ := point_of_publicJwk hjwk
  obtain rfl : keyPair = keyPair' := Option.some.inj (hpair.symm.trans hpair')
  obtain ⟨halg, hpkcs8⟩ := fromPkcs8_eq_some hpair
  have hdot : ∀ bs : Bytes, '.' ∉ (Base64Url.encodeString bs).toList := fun bs => by
    rw [Base64Url.toList_encodeString]
    exact Base64Url.dot_notMem_encode _
  have hseg : segments (signedJwt algorithm kid claims keyPair rnd).token =
      [encodeSegment (JwtHeader.toJson { alg := algorithm.asStr, typ := "JWT", kid }),
        encodeSegment claims.toJson, Base64Url.encodeString (ecdsaSign keyPair.algorithm keyPair.pkcs8
          (asBytes (signingInput algorithm kid claims)) rnd)] := by
    rw [signedJwt, segments_append, segments_of_notMem (hdot _), signingInput, segments_append,
      segments_of_notMem (dot_notMem_encodeSegment _), segments_of_notMem (dot_notMem_encodeSegment _)]
    rfl
  have hheader : decodeHeader (encodeSegment
      (JwtHeader.toJson { alg := algorithm.asStr, typ := "JWT", kid })) =
        some { alg := algorithm.asStr, typ := "JWT", kid } := by
    have hread : ∀ h : JwtHeader, jsonParse (jsonPrint h.toJson) = some h.toJson := hjson.1
    simp only [decodeHeader, encodeSegment, Base64Url.decodeVec_encodeString, Option.bind_eq_bind,
      Option.bind_some, hread, JwtHeader.ofJson_toJson]
  have hverify : ecdsaVerify algorithm keyPair.point (asBytes (signingInput algorithm kid claims))
      (ecdsaSign keyPair.algorithm keyPair.pkcs8 (asBytes (signingInput algorithm kid claims)) rnd) =
        true := by
    have hvalid := keyPair.valid
    rw [halg] at hvalid ⊢
    exact hverifies _ _ _ _ _ hvalid
  have hclaims : decodeClaims (encodeSegment claims.toJson) = Claims.ofJson claims.toJson := by
    have hread : jsonParse (jsonPrint claims.toJson) = some claims.toJson := hjson.2
    simp only [decodeClaims, encodeSegment, Base64Url.decodeVec_encodeString, Option.bind_eq_bind,
      Option.bind_some, hread]
  rw [verifiedClaims, hseg]
  simp only [hheader, Algorithm.parse_asStr, hkid, hpoint, Base64Url.decodeVec_encodeString, hclaims, orError,
    require, hallowed, bind, Except.bind, if_true]
  rw [show encodeSegment (JwtHeader.toJson { alg := algorithm.asStr, typ := "JWT", kid }) ++ "." ++
    encodeSegment claims.toJson = signingInput algorithm kid claims from rfl, hverify]
  rfl

omit [Platform] in
/-- Claims that decode are the same as these only if the custom members keep apart. -/
theorem apart_of_same {c d : Claims} {j : Json} (h : Claims.ofJson j = some d) (hsame : c.Same d) : c.Apart :=
  fun m hm => Claims.custom_ofJson h m (hsame.2.subset hm)

/-- What was read from a token was decoded from its claims. -/
theorem ofJson_of_verifyJwt {claims' : Claims}
    (hread : verifiedClaims jwt.token jwk options = orError .invalidToken (Claims.ofJson claims.toJson))
    (h : verifyJwt jwt.token jwk options = .ok claims') :
    Claims.ofJson claims.toJson = some claims' ∧ validateClaims claims' options = .ok () := by
  rw [verifyJwt_eq, hread] at h
  obtain ⟨c, hc, h⟩ := bind_eq_ok.mp h
  obtain ⟨⟨⟩, hval, h⟩ := bind_eq_ok.mp h
  cases h
  exact ⟨orError_eq_ok.mp hc, hval⟩

/-- **Signed claims come back exactly when the custom ones keep apart and no sum wraps.** -/
theorem round_trip_iff (hverifies : VerifiesSigned)
    (hjson : (∀ h : JwtHeader, Reads h.toJson) ∧ Reads claims.toJson)
    (hkeys : (claims.custom.map Prod.fst).Nodup)
    (hpair : EcdsaKeyPair.fromPkcs8 algorithm pkcs8 = some keyPair)
    (hjwk : publicJwkFromPkcs8 kid algorithm pkcs8 = .ok jwk)
    (hallowed : algorithm ∈ options.allowedAlgorithms) (haddr : Addressed claims options)
    (hsigned : MaySign algorithm kid claims keyPair jwt) :
    (∃ claims', verifyJwt jwt.token jwk options = .ok claims' ∧ claims.Same claims') ↔
      claims.Apart ∧ ¬ Late claims options ∧ ¬ Early claims options := by
  have hread := verifiedClaims_of_maySign hverifies hjson hpair hjwk hallowed hsigned
  constructor
  · rintro ⟨claims', hok, hsame⟩
    obtain ⟨hdec, -⟩ := ofJson_of_verifyJwt hread hok
    have hapart := apart_of_same hdec hsame
    rw [Claims.ofJson_toJson_custom claims hkeys hapart] at hdec
    cases hdec
    obtain ⟨-, hval⟩ := ofJson_of_verifyJwt hread hok
    obtain ⟨hlate, hearly, -⟩ := validateClaims_eq_ok.mp hval
    exact ⟨hapart, hlate, hearly⟩
  · rintro ⟨hapart, hlate, hearly⟩
    rw [Claims.ofJson_toJson_custom claims hkeys hapart] at hread
    exact ⟨claims, (verifyJwt_ok_iff hread).mpr (validateClaims_eq_ok.mpr ⟨hlate, hearly, haddr⟩),
      rfl, List.Perm.refl _⟩

end Signed

end Tokens

/-! ## Samples -/

namespace Sample

/-- A key pair of the sample platform. -/
def keyPair : EcdsaKeyPair := ⟨.ES256, List.replicate 64 1, 4 :: List.replicate 64 1, by decide⟩

/-- Its public key. -/
def jwk : Jwk :=
  { kty := "EC", keyUse := "sig", kid := "k1", alg := "ES256", crv := "P-256"
    x := Base64Url.encodeString (List.replicate 32 1), y := Base64Url.encodeString (List.replicate 32 1) }

theorem fromPkcs8_keyPair : EcdsaKeyPair.fromPkcs8 .ES256 (List.replicate 64 1) = some keyPair :=
  fromPkcs8_self keyPair

theorem publicJwk_keyPair : publicJwkFromPkcs8 "k1" .ES256 (List.replicate 64 1) = .ok jwk := by
  rw [publicJwkFromPkcs8, fromPkcs8_keyPair]
  rfl

def options : VerificationOptions :=
  { allowedAlgorithms := [.ES256], issuer := none, audience := some "api", currentTime := 1000, leeway := 30 }

/-- Claims with an audience of two and a custom member. -/
def claims : Claims :=
  { sub := some "user", aud := some (.multiple ["web", "api"]), exp := some 1900, nbf := some 1000
    custom := [("role", .str "admin")] }

/-- Claims whose only custom member is called `sub`. -/
def colliding : Claims := { aud := some (.single "api"), exp := some 1900, custom := [("sub", .str "user")] }

/-- Claims that never expire. -/
def lasting : Claims := { aud := some (.single "api"), exp := some 18446744073709551615 }

theorem reads_header (h : JwtHeader) : Reads h.toJson := jsonRoundTrip.1 h

theorem reads_claims : Reads claims.toJson := by
  refine parse_print fun m hm => ?_
  simp only [Claims.table, Json.present, claims, Option.map_some, Option.map_none, List.filterMap_cons,
    List.filterMap_nil, List.cons_append, List.nil_append, List.mem_cons, List.not_mem_nil, or_false] at hm
  rcases hm with rfl | rfl | rfl | rfl | rfl <;> rfl

theorem reads_colliding : Reads colliding.toJson := by
  refine parse_print fun m hm => ?_
  simp only [Claims.table, Json.present, colliding, Option.map_some, Option.map_none, List.filterMap_cons,
    List.filterMap_nil, List.cons_append, List.nil_append, List.mem_cons, List.not_mem_nil, or_false] at hm
  rcases hm with rfl | rfl | rfl <;> rfl

/-- The claims come back. -/
theorem round_trip_claims : ∃ claims',
    verifyJwt (signedJwt .ES256 "k1" claims keyPair []).token jwk options = .ok claims' ∧
      claims.Same claims' := by
  refine (round_trip_iff verifiesSigned ⟨reads_header, reads_claims⟩ (by decide) fromPkcs8_keyPair
    publicJwk_keyPair (by decide) ⟨by simp [options], by simp [options, claims, Audience.contains]⟩
    (maySign_iff.mpr ⟨[], rfl⟩)).mpr ⟨?_, ?_, ?_⟩
  · intro m hm
    obtain rfl := List.mem_singleton.mp hm
    decide
  · simp [Late, claims, options]
  · simp [Early, claims, options]

/-- A custom member called `sub` does not come back as a custom one. -/
theorem colliding_lost :
    Addressed colliding options ∧ Unexpired colliding options ∧ Begun colliding options ∧
    MaySign .ES256 "k1" colliding keyPair (signedJwt .ES256 "k1" colliding keyPair []) ∧
    ¬ ∃ claims', verifyJwt (signedJwt .ES256 "k1" colliding keyPair []).token jwk options = .ok claims' ∧
      colliding.Same claims' := by
  have hsigned : MaySign .ES256 "k1" colliding keyPair (signedJwt .ES256 "k1" colliding keyPair []) :=
    maySign_iff.mpr ⟨[], rfl⟩
  refine ⟨⟨by simp [options], by simp [options, colliding, Audience.contains]⟩,
    by simp [Unexpired, colliding, options], by simp [Begun, colliding], hsigned, ?_⟩
  rintro ⟨claims', hok, hsame⟩
  have hread := ofJson_of_verifyJwt (verifiedClaims_of_maySign verifiesSigned
    ⟨reads_header, reads_colliding⟩ fromPkcs8_keyPair publicJwk_keyPair (by decide) hsigned) hok
  have hapart := apart_of_same hread.1 hsame
  exact hapart ("sub", .str "user") (List.mem_singleton_self _) (by decide)

theorem verified_claims :
    verifiedClaims (signedJwt .ES256 "k1" claims keyPair []).token jwk options = .ok claims := by
  have hapart : claims.Apart := by
    intro m hm
    obtain rfl := List.mem_singleton.mp hm
    decide
  rw [verifiedClaims_of_maySign verifiesSigned ⟨reads_header, reads_claims⟩ fromPkcs8_keyPair
    publicJwk_keyPair (by decide) (maySign_iff.mpr ⟨[], rfl⟩),
    Claims.ofJson_toJson_custom claims (by decide) hapart]
  rfl

theorem verified_lasting :
    verifiedClaims (signedJwt .ES256 "k1" lasting keyPair []).token jwk options = .ok lasting := by
  rw [verifiedClaims_of_maySign verifiesSigned ⟨reads_header, jsonRoundTrip.2 lasting rfl⟩
    fromPkcs8_keyPair publicJwk_keyPair (by decide) (maySign_iff.mpr ⟨[], rfl⟩),
    Claims.ofJson_toJson lasting rfl]
  rfl

/-- The window of these claims is exact. -/
theorem exactWindow_claims :
    ExactWindow (signedJwt .ES256 "k1" claims keyPair []).token jwk claims options := by
  refine (exactWindow_iff verified_claims).mpr ⟨?_, fun _ _ => by decide⟩
  rintro exp ⟨⟩
  decide

/-- A token that never expires is refused as expired. -/
theorem lasting_expired : Unexpired lasting options ∧
    verifyJwt (signedJwt .ES256 "k1" lasting keyPair []).token jwk options = .error .tokenExpired ∧
    ¬ ExactWindow (signedJwt .ES256 "k1" lasting keyPair []).token jwk lasting options := by
  have hun : Unexpired lasting options := by
    rintro exp ⟨⟩
    decide
  have hexpired : verifyJwt (signedJwt .ES256 "k1" lasting keyPair []).token jwk options =
      .error .tokenExpired :=
    (verifyJwt_error_iff verified_lasting _).mpr (validateClaims_eq_expired.mpr ⟨_, rfl, by decide⟩)
  exact ⟨hun, hexpired, fun hexact => hexact.expired.mp hexpired hun⟩

end Sample

end Identity
