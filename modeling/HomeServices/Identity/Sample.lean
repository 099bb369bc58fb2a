import HomeServices.Identity.Crypto.Jwt
import HomeServices.Text.Codec

/-!
# A sample platform

Small executable stand-ins for the libraries of the service, with every law the results assume:
text codecs that read back, a cipher and a signature that are checksums. They are not secure.

* `Sample.platform`; `Sample.opensSealed`, `Sample.verifiesSigned`, `Sample.jsonRoundTrip`,
  `Sample.uuidRoundTrip`, `Sample.emailRoundTrip`: the laws.
-/

namespace Identity.Sample

/-! ## JSON objects -/

/-- A member value: what headers and claims are made of. -/
abbrev Value := Bool ⊕ UInt64 ⊕ String ⊕ List String

def flat : Json → Value
  | .bool b => .inl b
  | .posInt n => .inr (.inl n)
  | .str s => .inr (.inr (.inl s))
  | .arr items => .inr (.inr (.inr (items.filterMap Json.asString)))
  | _ => .inl false

def unflat : Value → Json
  | .inl b => .bool b
  | .inr (.inl n) => .posInt n
  | .inr (.inr (.inl s)) => .str s
  | .inr (.inr (.inr v)) => .arr (v.map .str)

def bool : Codec Bool :=
  (Codec.sum .unit .unit).map Sum.isRight (fun b => if b then .inr () else .inl ()) (by decide)

def members : Codec (List (String × Value)) :=
  .list (.pair .string (.sum bool (.sum .u64 (.sum .string (.list .string)))))

def print : Json → List UInt8
  | .obj ms => members.enc (ms.map fun m => (m.1, flat m.2))
  | _ => []

def parse (bs : List UInt8) : Option Json :=
  (members.whole bs).map fun ms => .obj (ms.map fun m => (m.1, unflat m.2))

theorem parse_print {ms : List (String × Json)} (h : ∀ m ∈ ms, unflat (flat m.2) = m.2) :
    parse (print (.obj ms)) = some (.obj ms) := by
  rw [parse, print, Codec.whole_enc, Option.map_some, List.map_map]
  have hid : ∀ m ∈ ms, ((fun m => (m.1, unflat m.2)) ∘ fun m => (m.1, flat m.2)) m = id m :=
    fun m hm => Prod.ext rfl (h m hm)
  rw [List.map_congr_left hid, List.map_id]

/-! ## UUIDs -/

def hexValue (c : Char) : ℕ := if c.isDigit then c.toNat - 48 else c.toNat - 87

def uuidText (id : Uuid) : String :=
  String.ofList ((Codec.digits 16 32 id.toNat).map Nat.digitChar)

def parseUuid (s : String) : Option Uuid :=
  if s.toList.length = 32 then some (.ofNat 128 (Codec.value 16 (s.toList.map hexValue))) else none

theorem parseUuid_uuidText (u : Uuid) : parseUuid (uuidText u) = some u := by
  have hid : ∀ d ∈ Codec.digits 16 32 u.toNat, (hexValue ∘ Nat.digitChar) d = id d := by
    intro d hd
    have h16 : ∀ d < 16, hexValue (Nat.digitChar d) = d := by decide
    exact h16 d (Codec.digits_lt (by decide) 32 u.toNat d hd)
  rw [parseUuid, uuidText, String.toList_ofList, List.length_map, Codec.length_digits, if_pos rfl,
    List.map_map, List.map_congr_left hid, List.map_id, Codec.value_digits 32 u.toNat u.isLt,
    BitVec.ofNat_toNat, BitVec.setWidth_eq]

/-! ## Emails -/

def payload : Codec Payload :=
  (Codec.sum (.pair .string (.pair .string .nat))
    (.sum (.pair .nat (.pair .string .string)) (.pair .nat (.list .byte)))).map
    (fun
      | .inl (code, link, minutes) => .emailVerification ⟨code, link, minutes⟩
      | .inr (.inl (at_, ip, location)) => .passwordChanged ⟨at_, ip, location⟩
      | .inr (.inr (field, bytes)) => .other field bytes)
    (fun
      | .emailVerification e => .inl (e.verificationCode, e.verificationLink, e.expiresInMinutes)
      | .passwordChanged e => .inr (.inl (e.changedAtMs, e.changeIp, e.changeLocation))
      | .other field bytes => .inr (.inr (field, bytes)))
    fun p => by cases p <;> rfl

def email : Codec AuthEmailMessage :=
  (Codec.pair .string (.pair .string (.pair .string (.pair .string (.pair .string
    (.pair .nat (.sum .unit payload))))))).map
    (fun m => ⟨m.1, m.2.1, m.2.2.1, m.2.2.2.1, m.2.2.2.2.1, m.2.2.2.2.2.1, m.2.2.2.2.2.2.getRight?⟩)
    (fun m => (m.idempotencyKey, m.recipientEmail, m.recipientName, m.traceId, m.spanId,
      m.producedAtMs, m.payload.elim (.inl ()) .inr))
    fun ⟨_, _, _, _, _, _, p⟩ => by cases p <;> rfl

/-! ## Cryptography -/

/-- A checksum of bytes. -/
def checksum (bs : Bytes) : UInt8 := bs.foldl (· + ·) 0

def tag (key nonce aad plaintext : Bytes) : Bytes :=
  List.replicate 16 (checksum (key ++ nonce ++ aad ++ plaintext))

def openInPlace (key nonce aad sealed : Bytes) : Option Bytes :=
  let plaintext := sealed.take (sealed.length - 16)
  if sealed.drop (sealed.length - 16) = tag key nonce aad plaintext then some plaintext else none

/-- A private key is the coordinates of its point. -/
def publicKey (alg : Algorithm) (pkcs8 : Bytes) : Option Bytes :=
  if pkcs8.length = 2 * alg.coordinateSize then some (4 :: pkcs8) else none

def signature (pk message : Bytes) : Bytes := [checksum pk, checksum message]

scoped instance platform : Platform where
  lower s := String.ofList (s.toList.map Char.toLower)
  sha256 bs := bs
  phcHash password _ := some (String.ofList ('$' :: password.toList))
  phcValid hash := hash.toList.head? = some '$'
  phcVerify password hash := hash.toList = '$' :: password.toList
  sealInPlace key nonce aad plaintext := plaintext ++ tag key nonce aad plaintext
  openInPlace := openInPlace
  publicKey := publicKey
  ecdsaSign _ pkcs8 message _ := signature (4 :: pkcs8) message
  ecdsaVerify _ pk message sig := sig = signature pk message
  jsonPrint := print
  jsonParse := parse
  jsonError _ := "expected value at line 1 column 1"
  encodeEmail := email.enc
  decodeEmail := email.whole
  uuidText := uuidText
  parseUuid := parseUuid
  uuidError _ := "invalid length"

/-! ## The laws -/

theorem opensSealed : OpensSealed := fun key nonce aad plaintext _ _ => by
  change openInPlace key nonce aad (plaintext ++ tag key nonce aad plaintext) = _ ∧
    (plaintext ++ tag key nonce aad plaintext).length = _
  have hlen : (plaintext ++ tag key nonce aad plaintext).length = plaintext.length + 16 := by
    rw [List.length_append, tag, List.length_replicate]
  refine ⟨?_, hlen⟩
  rw [openInPlace, hlen, Nat.add_sub_cancel, List.take_left' rfl, List.drop_left' rfl, if_pos rfl]

theorem verifiesSigned : VerifiesSigned := fun alg pkcs8 pk message rnd h => by
  change publicKey alg pkcs8 = some pk at h
  unfold publicKey at h
  split_ifs at h
  cases h
  exact decide_eq_true rfl

theorem unflat_flat_audience (a : Audience) : unflat (flat a.toJson) = a.toJson := by
  cases a with
  | single s => rfl
  | multiple v =>
    have hid : (v.map Json.str).filterMap Json.asString = v := by
      rw [List.filterMap_map]
      exact List.filterMap_some
    rw [Audience.toJson, flat, unflat, hid]

theorem jsonRoundTrip : JsonRoundTrip := by
  refine ⟨fun h => parse_print fun m hm => ?_, fun c hc => ?_⟩
  · obtain ⟨s, -, rfl⟩ := List.mem_map.mp hm
    rfl
  · change parse (print (.obj (Json.present c.table ++ c.custom))) = _
    rw [hc, List.append_nil, Claims.toJson, hc, List.append_nil]
    refine parse_print fun m hm => ?_
    obtain ⟨e, he, hm⟩ := List.mem_filterMap.mp hm
    obtain ⟨j, hj, rfl⟩ := Option.map_eq_some_iff.mp hm
    simp only [Claims.table, List.mem_cons, List.not_mem_nil, or_false] at he
    rcases he with rfl | rfl | rfl | rfl | rfl | rfl | rfl | rfl | rfl | rfl | rfl | rfl | rfl
    all_goals
      obtain ⟨x, -, rfl⟩ := Option.map_eq_some_iff.mp hj
      first | rfl | exact unflat_flat_audience x

theorem uuidRoundTrip : UuidRoundTrip := parseUuid_uuidText

theorem emailRoundTrip : EmailRoundTrip := fun m _ => email.whole_enc m

end Identity.Sample
