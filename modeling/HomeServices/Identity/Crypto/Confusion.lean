import HomeServices.Identity.Sample

/-!
# The algorithm of a token

The verifier of a token is chosen by the header of the token, not by the key. A key of one algorithm is still
never used with the verifier of another: their points differ in length.

* `ChecksPoint`: a verifier takes uncompressed points of its own curve only.
* `point_length`: the point that a published JWK holds; `algorithm_of_verify`: who accepts it.
* **`no_confusion`**: an accepted token names the algorithm and the key of the JWK.
-/

namespace Identity

variable [Platform]

/-- A fixed-format verifier rejects every public key that is not an uncompressed point of its curve. -/
def ChecksPoint : Prop :=
  ∀ (alg : Algorithm) (pk message sig : Bytes), ecdsaVerify alg pk message sig = true →
    pk.length = 1 + 2 * alg.coordinateSize ∧ pk.head? = some 0x04

omit [Platform] in
theorem coordinateSize_inj {a b : Algorithm} (h : a.coordinateSize = b.coordinateSize) : a = b := by
  cases a with
  | ES256 =>
    cases b with
    | ES256 => rfl
    | ES384 => cases h
  | ES384 =>
    cases b with
    | ES256 => cases h
    | ES384 => rfl

omit [Platform] in
theorem alg_of_parse {s : String} {alg : Algorithm} (h : Algorithm.parse s = .ok alg) : s = alg.asStr := by
  unfold Algorithm.parse at h
  split_ifs at h with h₁ h₂
  · cases h
    exact h₁
  · cases h
    exact h₂

/-- The coordinates of a published JWK make a point of its curve. -/
theorem point_length {kid : String} {algorithm : Algorithm} {pkcs8 : Bytes} {jwk : Jwk}
    (h : publicJwkFromPkcs8 kid algorithm pkcs8 = .ok jwk) :
    ∃ point, jwk.point = .ok point ∧ point.length = 1 + 2 * algorithm.coordinateSize := by
  obtain ⟨keyPair, hkeyPair, -, hpoint⟩ := point_of_publicJwk h
  refine ⟨keyPair.point, hpoint, ?_⟩
  unfold publicJwkFromPkcs8 at h
  simp only [hkeyPair] at h
  split_ifs at h with hshape
  push Not at hshape
  exact hshape.1

/-- Only the verifier of its own algorithm accepts a signature under a published JWK. -/
theorem algorithm_of_verify (hchecks : ChecksPoint) {kid : String} {algorithm alg : Algorithm} {pkcs8 : Bytes}
    {jwk : Jwk} (h : publicJwkFromPkcs8 kid algorithm pkcs8 = .ok jwk) {point message sig : Bytes}
    (hpoint : jwk.point = .ok point) (hverify : ecdsaVerify alg point message sig = true) :
    alg = algorithm := by
  obtain ⟨point', hpoint', hlength⟩ := point_length h
  obtain rfl : point = point' := Except.ok.inj (hpoint.symm.trans hpoint')
  have hlength' := (hchecks alg point message sig hverify).1
  exact coordinateSize_inj (by omega)

/-- **An accepted token names the algorithm and the key of the JWK**, whatever the options allow, and is
verified with the verifier of that algorithm; no other one accepts anything under this key. -/
theorem no_confusion (hchecks : ChecksPoint) {kid : String} {algorithm : Algorithm} {pkcs8 : Bytes}
    {jwk : Jwk} (hjwk : publicJwkFromPkcs8 kid algorithm pkcs8 = .ok jwk) (token : String)
    (options : VerificationOptions) {claims : Claims} (h : verifyJwt token jwk options = .ok claims) :
    ∃ p₀ p₁ p₂ header point signature, segments token = [p₀, p₁, p₂] ∧ decodeHeader p₀ = some header ∧
      header.alg = algorithm.asStr ∧ header.kid = jwk.kid ∧ jwk.kid = kid ∧ jwk.point = .ok point ∧
      Base64Url.decodeVec p₂ = some signature ∧
      ecdsaVerify algorithm point (asBytes (p₀ ++ "." ++ p₁)) signature = true ∧
      ∀ other message sig, other ≠ algorithm → ecdsaVerify other point message sig = false := by
  obtain ⟨p₀, p₁, p₂, header, alg, point, signature, hsegments, hheader, halg, -, hkid, hpoint, hsignature,
    hverify, -, -⟩ := verifyJwt_eq_ok.mp h
  obtain ⟨keyPair, -, hjwkKid, -⟩ := point_of_publicJwk hjwk
  obtain rfl : alg = algorithm := algorithm_of_verify hchecks hjwk hpoint hverify
  refine ⟨p₀, p₁, p₂, header, point, signature, hsegments, hheader, alg_of_parse halg, hkid, hjwkKid, hpoint,
    hsignature, hverify, fun other message sig hother => ?_⟩
  rw [Bool.eq_false_iff]
  exact fun hverify' => hother (algorithm_of_verify hchecks hjwk hpoint hverify')

end Identity

namespace Identity.Confusion.Sample

open Identity.Sample (signature)

/-- The sample platform, whose verifier checks the form of the public key. -/
scoped instance platform : Platform :=
  { Identity.Sample.platform with
    ecdsaVerify alg pk message sig :=
      pk.length = 1 + 2 * alg.coordinateSize && pk.head? = some 0x04 && sig = signature pk message }

theorem checksPoint : ChecksPoint := by
  intro alg pk message sig h
  change (decide (_ = _) && decide (_ = _) && decide _) = true at h
  simp only [Bool.and_eq_true, decide_eq_true_eq] at h
  exact h.1

/-- A key pair of each algorithm. -/
def pkcs8 (alg : Algorithm) : Bytes := List.replicate (2 * alg.coordinateSize) 9

/-- A token that is signed with the key of the algorithm. -/
def token (alg : Algorithm) : String :=
  let message := signingInput alg "key" {}
  message ++ "." ++ Base64Url.encodeString (signature (4 :: pkcs8 alg) (asBytes message))

def options : VerificationOptions := ⟨[.ES256, .ES384], none, none, 0, 0⟩

theorem exists_ok {ε α : Type} {x : Except ε α} (h : x.isOk = true) : ∃ a, x = .ok a := by
  cases x with
  | error e => cases h
  | ok a => exact ⟨a, rfl⟩

/-- The JWK of a key pair. -/
def jwk (alg : Algorithm) : Jwk :=
  { kty := "EC", keyUse := "sig", kid := "key", alg := alg.asStr, crv := alg.curveName
    x := Base64Url.encodeString (List.replicate alg.coordinateSize 9)
    y := Base64Url.encodeString (List.replicate alg.coordinateSize 9) }

/-- A token of the larger curve is accepted, and names its algorithm. -/
theorem no_confusion_ES384 : ∃ claims p₀ p₁ p₂ header,
    verifyJwt (token .ES384) (jwk .ES384) options = .ok claims ∧
    segments (token .ES384) = [p₀, p₁, p₂] ∧ decodeHeader p₀ = some header ∧
    header.alg = "ES384" ∧ header.kid = "key" := by
  have hjwk : publicJwkFromPkcs8 "key" .ES384 (pkcs8 .ES384) = .ok (jwk .ES384) := rfl
  have hok : (verifyJwt (token .ES384) (jwk .ES384) options).isOk = true := by decide +kernel
  obtain ⟨claims, h⟩ := exists_ok hok
  obtain ⟨p₀, p₁, p₂, header, point, sig, hsegments, hheader, halg, hkid, -⟩ :=
    no_confusion checksPoint hjwk (token .ES384) options h
  exact ⟨claims, p₀, p₁, p₂, header, h, hsegments, hheader, halg, hkid⟩

end Identity.Confusion.Sample
