import HomeServices.Identity.Crypto.Keys

/-!
# JSON Web Tokens

Signing and verification of compact JWTs. `u64` additions wrap, as in the release build.

* `JwtHeader`, `Audience`, `Claims` and their JSON; `JwtHeader.ofJson_toJson`,
  **`Claims.ofJson_toJson_custom`**; `Claims.custom_ofJson`.
* `signingInput`, `signJwt`, `verifyJwt`, `validateClaims`.
* `segments_eq`: the three segments of a token.
* **`verifyJwt_eq_ok`**: what acceptance means, check by check.
-/

namespace Identity

open Interaction

/-- JWT JOSE header (RFC 7515 Section 4). -/
structure JwtHeader where
  alg : String
  typ : String
  kid : String

namespace JwtHeader

def memberNames : List String := ["alg", "typ", "kid"]

def toJson (h : JwtHeader) : Json := Json.writeRecord memberNames [h.alg, h.typ, h.kid]

def ofJson (j : Json) : Option JwtHeader :=
  match Json.stringRecord memberNames j with
  | some [alg, typ, kid] => some { alg, typ, kid }
  | _ => none

theorem ofJson_toJson (h : JwtHeader) : ofJson h.toJson = some h := by
  have hnd : memberNames.Nodup := by decide
  have hread : Json.stringRecord memberNames h.toJson = some [h.alg, h.typ, h.kid] :=
    Json.stringRecord_writeRecord hnd rfl
  rw [ofJson, hread]

end JwtHeader

/-- A single string or an array of strings (RFC 7519 Section 4.1.3). -/
inductive Audience where
  | single (value : String)
  | multiple (values : List String)

namespace Audience

def contains : Audience → String → Bool
  | single s, value => s = value
  | multiple v, value => v.any fun s => s = value

def toJson : Audience → Json
  | single s => .str s
  | multiple v => .arr (v.map .str)

def ofJson : Json → Option Audience
  | .str s => some (single s)
  | .arr items => (items.mapM Json.asString).map multiple
  | _ => none

theorem mapM_asString (v : List String) : (v.map Json.str).mapM Json.asString = some v :=
  Json.mapM_eq_some.mpr (List.forall₂_map_left_iff.mpr (List.forall₂_same.mpr fun _ _ => rfl))

theorem ofJson_toJson : ∀ a : Audience, ofJson a.toJson = some a
  | single _ => rfl
  | multiple v => by rw [toJson, ofJson, mapM_asString, Option.map_some]

end Audience

/-- Registered and OIDC claims, and any others. -/
structure Claims where
  iss : Option String := none
  sub : Option String := none
  aud : Option Audience := none
  exp : Option UInt64 := none
  nbf : Option UInt64 := none
  iat : Option UInt64 := none
  jti : Option String := none
  name : Option String := none
  givenName : Option String := none
  familyName : Option String := none
  email : Option String := none
  emailVerified : Option Bool := none
  preferredUsername : Option String := none
  custom : List (String × Json) := []

namespace Claims

/-- The members of the named claims, in the order they are written. -/
def table (c : Claims) : List (String × Option Json) :=
  [("iss", c.iss.map .str), ("sub", c.sub.map .str), ("aud", c.aud.map Audience.toJson),
    ("exp", c.exp.map .posInt), ("nbf", c.nbf.map .posInt), ("iat", c.iat.map .posInt),
    ("jti", c.jti.map .str), ("name", c.name.map .str), ("given_name", c.givenName.map .str),
    ("family_name", c.familyName.map .str), ("email", c.email.map .str),
    ("email_verified", c.emailVerified.map .bool),
    ("preferred_username", c.preferredUsername.map .str)]

def memberNames : List String :=
  ["iss", "sub", "aud", "exp", "nbf", "iat", "jti", "name", "given_name", "family_name", "email",
    "email_verified", "preferred_username"]

def toJson (c : Claims) : Json := .obj (Json.present c.table ++ c.custom)

/-- A member of the flattened map; a later one of the same name replaces it. -/
def insertCustom (custom : List (String × Json)) (m : String × Json) : List (String × Json) :=
  custom.filter (fun n => n.1 ≠ m.1) ++ [m]

def ofJson : Json → Option Claims
  | .obj members => do
    let iss ← Json.optional Json.asString members "iss"
    let sub ← Json.optional Json.asString members "sub"
    let aud ← Json.optional Audience.ofJson members "aud"
    let exp ← Json.optional Json.asU64 members "exp"
    let nbf ← Json.optional Json.asU64 members "nbf"
    let iat ← Json.optional Json.asU64 members "iat"
    let jti ← Json.optional Json.asString members "jti"
    let name ← Json.optional Json.asString members "name"
    let givenName ← Json.optional Json.asString members "given_name"
    let familyName ← Json.optional Json.asString members "family_name"
    let email ← Json.optional Json.asString members "email"
    let emailVerified ← Json.optional Json.asBool members "email_verified"
    let preferredUsername ← Json.optional Json.asString members "preferred_username"
    let custom := (members.filter fun m => m.1 ∉ memberNames).foldl insertCustom []
    return { iss, sub, aud, exp, nbf, iat, jti, name, givenName, familyName, email, emailVerified,
             preferredUsername, custom }
  | _ => none

/-- A named member is looked up among the named ones, when no custom one has its name. -/
theorem optional_append {α : Type} {read : Json → Option α} {members custom : List (String × Json)}
    {n : String} (h : ∀ m ∈ custom, m.1 ≠ n) :
    Json.optional read (members ++ custom) n = Json.optional read members n := by
  have hnil : custom.filter (fun m => m.1 = n) = [] := by
    refine List.filter_eq_nil_iff.mpr fun m hm => ?_
    simpa using h m hm
  rw [Json.optional, Json.unique, List.filter_append, hnil, List.append_nil]
  rfl

/-- Members of different names stay as they are. -/
theorem foldl_insertCustom : ∀ {custom kept : List (String × Json)},
    ((kept ++ custom).map Prod.fst).Nodup → custom.foldl insertCustom kept = kept ++ custom
  | [], kept, _ => (List.append_nil kept).symm
  | m :: custom, kept, h => by
    have happend : kept ++ m :: custom = (kept ++ [m]) ++ custom := by
      rw [List.append_assoc, List.singleton_append]
    have hnew : kept.filter (fun n => n.1 ≠ m.1) = kept := by
      refine List.filter_eq_self.mpr fun n hn => ?_
      rw [List.map_append, List.nodup_append] at h
      simpa using h.2.2 n.1 (List.mem_map_of_mem hn) m.1 (List.mem_map_of_mem List.mem_cons_self)
    rw [happend] at h ⊢
    rw [List.foldl_cons, insertCustom, hnew]
    exact foldl_insertCustom h

theorem mem_foldl_insertCustom {x : String × Json} : ∀ {custom kept : List (String × Json)},
    x ∈ custom.foldl insertCustom kept → x ∈ kept ∨ x ∈ custom
  | [], _, h => Or.inl h
  | m :: custom, kept, h => by
    have h : x ∈ custom.foldl insertCustom (insertCustom kept m) := h
    rcases mem_foldl_insertCustom h with h | h
    · rcases List.mem_append.mp h with h | h
      · exact Or.inl (List.mem_of_mem_filter h)
      · exact Or.inr (List.mem_singleton.mp h ▸ List.mem_cons_self)
    · exact Or.inr (List.mem_cons_of_mem _ h)

/-- A decoded custom member has the name of no named claim. -/
theorem custom_ofJson {j : Json} {c : Claims} (h : ofJson j = some c) : ∀ m ∈ c.custom, m.1 ∉ memberNames := by
  cases j with
  | obj members =>
    unfold ofJson at h
    -- every field that decodes hands on to the next one
    iterate 13 obtain ⟨_, -, h⟩ := Option.bind_eq_some_iff.mp h
    cases h
    intro m hm
    rcases mem_foldl_insertCustom hm with hm | hm
    · cases hm
    · exact of_decide_eq_true (List.mem_filter.mp hm).2
  | _ => cases h

/-- **Claims read back, when no custom member has the name of a named one.** -/
theorem ofJson_toJson_custom (c : Claims) (hkeys : (c.custom.map Prod.fst).Nodup)
    (hc : ∀ m ∈ c.custom, m.1 ∉ memberNames) : ofJson c.toJson = some c := by
  have hnd : (c.table.map Prod.fst).Nodup := by
    change memberNames.Nodup
    decide
  have hnamed : ∀ {α : Type} {read : Json → Option α} {n : String}, n ∈ memberNames →
      Json.optional read (Json.present c.table ++ c.custom) n =
        Json.optional read (Json.present c.table) n := fun hn =>
    optional_append fun m hm he => hc m hm (he ▸ hn)
  have hmem : ∀ {n : String} {o : Option Json}, (n, o) ∈ c.table → n ∈ memberNames := fun h =>
    List.mem_map_of_mem (f := Prod.fst) h
  have hstr : ∀ {n : String} {o : Option String}, (n, o.map Json.str) ∈ c.table →
      Json.optional Json.asString (Json.present c.table ++ c.custom) n = some o := fun h =>
    (hnamed (hmem h)).trans (Json.optional_present hnd h (fun _ => Json.noConfusion) fun _ => rfl)
  have hnum : ∀ {n : String} {o : Option UInt64}, (n, o.map Json.posInt) ∈ c.table →
      Json.optional Json.asU64 (Json.present c.table ++ c.custom) n = some o := fun h =>
    (hnamed (hmem h)).trans (Json.optional_present hnd h (fun _ => Json.noConfusion) fun _ => rfl)
  have haudmem : ("aud", c.aud.map Audience.toJson) ∈ c.table := by simp [table]
  have haud : Json.optional Audience.ofJson (Json.present c.table ++ c.custom) "aud" = some c.aud :=
    (hnamed (hmem haudmem)).trans (Json.optional_present hnd haudmem
      (fun a => by cases a <;> exact Json.noConfusion) Audience.ofJson_toJson)
  have hvermem : ("email_verified", c.emailVerified.map Json.bool) ∈ c.table := by simp [table]
  have hver : Json.optional Json.asBool (Json.present c.table ++ c.custom) "email_verified" =
      some c.emailVerified :=
    (hnamed (hmem hvermem)).trans
      (Json.optional_present hnd hvermem (fun _ => Json.noConfusion) fun _ => rfl)
  have hnone : (Json.present c.table).filter (fun m => m.1 ∉ memberNames) = [] := by
    refine List.filter_eq_nil_iff.mpr fun m hm => ?_
    have hmem : m.1 ∈ memberNames := Json.mem_present hm
    simpa using hmem
  have hall : c.custom.filter (fun m => m.1 ∉ memberNames) = c.custom :=
    List.filter_eq_self.mpr fun m hm => by simpa using hc m hm
  have hcustom : ((Json.present c.table ++ c.custom).filter fun m => m.1 ∉ memberNames).foldl insertCustom [] =
      c.custom := by
    have hfold : c.custom.foldl insertCustom [] = [] ++ c.custom := foldl_insertCustom hkeys
    rw [List.filter_append, hnone, hall, List.nil_append, hfold, List.nil_append]
  rw [toJson, ofJson]
  simp only [hstr (n := "iss") (o := c.iss) (by simp [table]),
    hstr (n := "sub") (o := c.sub) (by simp [table]), haud,
    hnum (n := "exp") (o := c.exp) (by simp [table]),
    hnum (n := "nbf") (o := c.nbf) (by simp [table]),
    hnum (n := "iat") (o := c.iat) (by simp [table]),
    hstr (n := "jti") (o := c.jti) (by simp [table]),
    hstr (n := "name") (o := c.name) (by simp [table]),
    hstr (n := "given_name") (o := c.givenName) (by simp [table]),
    hstr (n := "family_name") (o := c.familyName) (by simp [table]),
    hstr (n := "email") (o := c.email) (by simp [table]), hver,
    hstr (n := "preferred_username") (o := c.preferredUsername) (by simp [table]), hcustom,
    Option.bind_eq_bind, Option.bind_some, Option.pure_def]

theorem ofJson_toJson (c : Claims) (hc : c.custom = []) : ofJson c.toJson = some c :=
  ofJson_toJson_custom c (by rw [hc]; exact List.nodup_nil) fun m hm => by rw [hc] at hm; cases hm

end Claims

/-! ## Segments -/

/-- `split('.')`. -/
def segments (token : String) : List String := (token.toList.splitOn '.').map String.ofList

theorem segments_eq {token p₀ p₁ p₂ : String} (h : segments token = [p₀, p₁, p₂]) :
    token = p₀ ++ "." ++ p₁ ++ "." ++ p₂ := by
  have hsplit : token.toList.splitOn '.' = [p₀.toList, p₁.toList, p₂.toList] := by
    have := congrArg (List.map String.toList) h
    simpa [segments, Function.comp_def] using this
  have hjoin : List.intercalate ['.'] (token.toList.splitOn '.') = token.toList :=
    List.intercalate_splitOn '.'
  rw [hsplit] at hjoin
  apply String.toList_inj.mp
  rw [← hjoin]
  simp [List.intercalate]

theorem segments_append (s t : String) : segments (s ++ "." ++ t) = segments s ++ segments t := by
  unfold segments
  rw [String.toList_append, String.toList_append, List.append_assoc,
    show ".".toList = ['.'] from rfl, List.singleton_append, List.splitOn_append_cons_self,
    List.map_append]

theorem segments_of_notMem {s : String} (h : '.' ∉ s.toList) : segments s = [s] := by
  rw [segments, List.splitOn_eq_singleton h, List.map_singleton, String.ofList_toList]

/-- A token made of a two-segment message and a third segment has the message's segments. -/
theorem segments_message {p₀ p₁ p₂ q₀ q₁ : String} (h : segments (q₀ ++ "." ++ q₁ ++ "." ++ p₂) =
    [p₀, p₁, p₂]) (h₀ : '.' ∉ q₀.toList) (h₁ : '.' ∉ q₁.toList) : q₀ = p₀ ∧ q₁ = p₁ := by
  rw [segments_append, segments_append, segments_of_notMem h₀, segments_of_notMem h₁] at h
  simp only [List.cons_append, List.nil_append, List.cons.injEq] at h
  exact ⟨h.1, h.2.1⟩

/-! ## Signing and verification -/

variable [Platform]

/-- serde_json decodes the headers and claims it encoded. -/
def JsonRoundTrip : Prop :=
  (∀ h : JwtHeader, jsonParse (jsonPrint h.toJson) = some h.toJson) ∧
    ∀ c : Claims, c.custom = [] → jsonParse (jsonPrint c.toJson) = some c.toJson

/-- A JWT and the key it names. -/
structure EncodedJwt where
  token : String
  kid : String

def encodeSegment (j : Json) : String := Base64Url.encodeString (jsonPrint j)

/-- `base64url(header).base64url(payload)`. -/
def signingInput (algorithm : Algorithm) (kid : String) (claims : Claims) : String :=
  encodeSegment (JwtHeader.toJson { alg := algorithm.asStr, typ := "JWT", kid }) ++ "." ++
    encodeSegment claims.toJson

/-- Sign claims into a JWT. -/
def signJwt {ε : Type} (err : CryptoError → ε) (algorithm : Algorithm) (kid : String)
    (claims : Claims) (keyPair : EcdsaKeyPair) : Handler Op Resp ε EncodedJwt := do
  let message := signingInput algorithm kid claims
  let signature ← attempt (.sign keyPair (asBytes message)) (Except.mapError fun _ => err .signing)
  return { token := message ++ "." ++ Base64Url.encodeString signature, kid }

/-- What a verifier asks of a token. -/
structure VerificationOptions where
  allowedAlgorithms : List Algorithm
  issuer : Option String
  audience : Option String
  currentTime : UInt64
  leeway : UInt64

omit [Platform] in
/-- A condition that is an error when it fails. -/
def require {ε : Type} (c : Prop) [Decidable c] (e : ε) : Except ε Unit :=
  if c then .ok () else .error e

omit [Platform] in
def orError {α ε : Type} (e : ε) : Option α → Except ε α
  | some a => .ok a
  | none => .error e

def decodeHeader (segment : String) : Option JwtHeader := do
  JwtHeader.ofJson (← jsonParse (← Base64Url.decodeVec segment))

def decodeClaims (segment : String) : Option Claims := do
  Claims.ofJson (← jsonParse (← Base64Url.decodeVec segment))

omit [Platform] in
/-- A condition on the value of an option is decided there, not over the whole type. -/
instance (priority := high) decidableForallOption {α : Type} {p : α → Prop} [DecidablePred p] (o : Option α) :
    Decidable (∀ a ∈ o, p a) := Option.decidableForallMem o

omit [Platform] in
/-- Validate exp, nbf, iss and aud. -/
def validateClaims (claims : Claims) (options : VerificationOptions) : Except CryptoError Unit := do
  require (∀ exp ∈ claims.exp, ¬ exp + options.leeway < options.currentTime) .tokenExpired
  require (∀ nbf ∈ claims.nbf, ¬ options.currentTime + options.leeway < nbf) .invalidToken
  require (∀ issuer ∈ options.issuer, claims.iss = some issuer) .invalidToken
  require (∀ audience ∈ options.audience,
    (claims.aud.map (·.contains audience)).getD false = true) .invalidToken

/-- Verify a JWT signature and validate claims. -/
def verifyJwt (token : String) (publicJwk : Jwk) (options : VerificationOptions) :
    Except CryptoError Claims :=
  match segments token with
  | [p₀, p₁, p₂] => do
    let header ← orError .invalidToken (decodeHeader p₀)
    let algorithm ← Algorithm.parse header.alg
    require (algorithm ∈ options.allowedAlgorithms) .algorithmMismatch
    require (header.kid = publicJwk.kid) .verification
    let publicKey ← publicJwk.point
    let signature ← orError .invalidToken (Base64Url.decodeVec p₂)
    require (ecdsaVerify algorithm publicKey (asBytes (p₀ ++ "." ++ p₁)) signature) .verification
    let claims ← orError .invalidToken (decodeClaims p₁)
    validateClaims claims options
    return claims
  | _ => .error .invalidToken

/-! ## What acceptance means -/

omit [Platform] in
theorem bind_eq_ok {ε α β : Type} {x : Except ε α} {f : α → Except ε β} {b : β} :
    (x >>= f) = .ok b ↔ ∃ a, x = .ok a ∧ f a = .ok b := by
  cases x <;> simp [bind, Except.bind]

omit [Platform] in
theorem require_eq_ok {ε : Type} {c : Prop} [Decidable c] {e : ε} {u : Unit} :
    require c e = .ok u ↔ c := by
  unfold require
  split_ifs with h <;> simp [h]

omit [Platform] in
theorem orError_eq_ok {α ε : Type} {e : ε} {o : Option α} {a : α} :
    orError e o = .ok a ↔ o = some a := by
  cases o <;> simp [orError]

/-- **A token is accepted exactly when every check passes.** -/
theorem verifyJwt_eq_ok {token : String} {jwk : Jwk} {options : VerificationOptions}
    {claims : Claims} : verifyJwt token jwk options = .ok claims ↔
      ∃ p₀ p₁ p₂ header algorithm publicKey signature, segments token = [p₀, p₁, p₂] ∧
        decodeHeader p₀ = some header ∧ Algorithm.parse header.alg = .ok algorithm ∧
        algorithm ∈ options.allowedAlgorithms ∧ header.kid = jwk.kid ∧
        jwk.point = .ok publicKey ∧ Base64Url.decodeVec p₂ = some signature ∧
        ecdsaVerify algorithm publicKey (asBytes (p₀ ++ "." ++ p₁)) signature = true ∧
        decodeClaims p₁ = some claims ∧ validateClaims claims options = .ok () := by
  unfold verifyJwt
  constructor
  · intro h
    split at h
    · rename_i p₀ p₁ p₂ hseg
      simp only [bind_eq_ok, require_eq_ok, orError_eq_ok] at h
      obtain ⟨header, hh, alg, ha, _, hal, _, hkid, pk, hpk, sig, hsig, _, hver, c, hc, _, hval, he⟩ := h
      obtain rfl : c = claims := Except.ok.inj he
      exact ⟨p₀, p₁, p₂, header, alg, pk, sig, hseg, hh, ha, hal, hkid, hpk, hsig, hver, hc, hval⟩
    · cases h
  · rintro ⟨p₀, p₁, p₂, header, alg, pk, sig, hseg, hh, ha, hal, hkid, hpk, hsig, hver, hc, hval⟩
    rw [hseg]
    simp only [bind_eq_ok, require_eq_ok, orError_eq_ok]
    exact ⟨header, hh, alg, ha, (), hal, (), hkid, pk, hpk, sig, hsig, (), hver, claims, hc, (),
      hval, rfl⟩

theorem dot_notMem_encodeSegment (j : Json) : '.' ∉ (encodeSegment j).toList := by
  rw [encodeSegment, Base64Url.toList_encodeString]
  exact Base64Url.dot_notMem_encode _

theorem decodeHeader_encode (hjson : JsonRoundTrip) (h : JwtHeader) :
    decodeHeader (encodeSegment h.toJson) = some h := by
  simp only [decodeHeader, encodeSegment, Base64Url.decodeVec_encodeString, Option.bind_eq_bind,
    Option.bind_some, hjson.1 _, JwtHeader.ofJson_toJson]

theorem decodeClaims_encode (hjson : JsonRoundTrip) {c : Claims} (hc : c.custom = []) :
    decodeClaims (encodeSegment c.toJson) = some c := by
  simp only [decodeClaims, encodeSegment, Base64Url.decodeVec_encodeString, Option.bind_eq_bind,
    Option.bind_some, hjson.2 c hc, Claims.ofJson_toJson c hc]

end Identity
