import HomeServices.Identity.Sample
import Mathlib.Data.Nat.Basic

/-!
# Stored passwords and the two builds

The service is built with Argon2id or, for FIPS 140-3, with PBKDF2. Both write PHC strings; each reads a
PHC string by its own rules.

* `Hashing`: the libraries of both builds; `Hashing.Lawful`: what they document.
* `AwsLcPbkdf2.hashPassword`, `AwsLcPbkdf2.verifyPassword`: the PBKDF2 hasher.
* `Build.hashPassword`, `Build.verifyPassword`; `onBuild`: the platform of a service of that build.
* `verifyPassword_own`, `verifyPassword_other`: a build verifies what it hashed, and refuses the rest.
* **`verified_iff`**: a stored hash is verified by the build that hashed it, and by no other.
-/

namespace Identity

/-! ## PHC strings -/

/-- A hash output: 10 to 64 bytes. -/
structure Output where
  bytes : Bytes
  length_mem : 10 ≤ bytes.length ∧ bytes.length ≤ 64
  deriving DecidableEq

def Output.new (bytes : Bytes) : Option Output :=
  if h : 10 ≤ bytes.length ∧ bytes.length ≤ 64 then some ⟨bytes, h⟩ else none

theorem Output.new_bytes (o : Output) : Output.new o.bytes = some o := dif_pos o.length_mem

theorem Output.new_isSome {bytes : Bytes} (h : bytes.length = 32) :
    ∃ o, Output.new bytes = some o ∧ o.bytes = bytes :=
  ⟨⟨bytes, by omega⟩, dif_pos (by omega), rfl⟩

/-- What a PHC string says. -/
structure PasswordHash where
  algorithm : String
  version : Option ℕ
  params : List (String × String)
  salt : Option String
  hash : Option Output
  deriving DecidableEq

/-- A decimal of the PHC format: digits, no leading zero, 32 bits. -/
def decimal (value : String) : Option ℕ :=
  let n := Nat.ofDigitChars 10 value.toList 0
  if value = Nat.repr n ∧ n < 2 ^ 32 then some n else none

theorem decimal_repr {n : ℕ} (h : n < 2 ^ 32) : decimal (Nat.repr n) = some n := by
  have hn : Nat.ofDigitChars 10 (Nat.repr n).toList 0 = n := by
    rw [Nat.toList_repr, Nat.ofDigitChars_toDigits (by decide) (by decide)]
  unfold decimal
  simp only [hn]
  exact if_pos ⟨trivial, h⟩

/-! ## The libraries -/

structure Params where
  mCost : ℕ
  tCost : ℕ
  pCost : ℕ
  outputLen : Option ℕ
  deriving DecidableEq

inductive Argon2Algorithm where
  | argon2d
  | argon2i
  | argon2id
  deriving DecidableEq

def Argon2Algorithm.ident : Argon2Algorithm → String
  | .argon2d => "argon2d"
  | .argon2i => "argon2i"
  | .argon2id => "argon2id"

structure Argon2 where
  algorithm : Argon2Algorithm
  version : ℕ
  params : Params

/-- The libraries of both builds. -/
class Hashing where
  -- the text of a salt, of its random bytes
  saltText : Bytes → String
  newParams : ℕ → ℕ → ℕ → Option ℕ → Option Params
  -- the hasher, the password and the salt
  argon2Hash : Argon2 → Bytes → String → Option PasswordHash
  -- `Argon2::default().verify_password`, when it returns `Ok`
  argon2Verify : Bytes → PasswordHash → Bool
  -- PBKDF2 with HMAC-SHA-256: iterations, salt, password, length
  pbkdf2 : ℕ → Bytes → Bytes → (n : ℕ) → { bs : Bytes // bs.length = n }
  phcPrint : PasswordHash → String
  phcParse : String → Option PasswordHash

export Hashing (saltText newParams argon2Hash argon2Verify pbkdf2 phcPrint phcParse)

section Code

variable [Hashing]

/-! ## PBKDF2 -/

inductive HashError where
  | paramValueInvalid
  | saltInvalid
  | outputSize
  | password
  deriving DecidableEq

namespace AwsLcPbkdf2

/-- PBKDF2-HMAC-SHA-256 iterations. -/
def iterations : ℕ := 600000

/-- PHC algorithm identifier for PBKDF2-SHA-256. -/
def algId : String := "pbkdf2-sha256"

/-- The salt is hashed as its text. -/
def hashPassword (password : Bytes) (salt : String) : Except HashError PasswordHash :=
  match Output.new (pbkdf2 iterations (asBytes salt) password 32).val with
  | none => .error .outputSize
  | some output => .ok ⟨algId, none, [("i", Nat.repr iterations)], some salt, some output⟩

/-- The algorithm of the hash is not looked at. -/
def verifyPassword (password : Bytes) (hash : PasswordHash) : Except HashError Unit :=
  match (hash.params.find? fun p => p.1 = "i").bind fun p => decimal p.2 with
  | none => .error .paramValueInvalid
  | some iterations =>
    match hash.salt with
    | none => .error .saltInvalid
    | some salt =>
      match hash.hash with
      | none => .error .outputSize
      | some expected =>
        if iterations = 0 then .error .paramValueInvalid
        else if (pbkdf2 iterations (asBytes salt) password expected.bytes.length).val = expected.bytes
          then .ok ()
          else .error .password

end AwsLcPbkdf2

/-! ## The two builds -/

/-- The feature a service is built with. -/
inductive Build where
  | argon2
  | fips
  deriving DecidableEq

namespace Build

/-- The hash a build computes of a password under a salt. -/
def hash : Build → Bytes → String → Option PasswordHash
  | argon2, password, salt =>
    (newParams 19456 2 1 none).bind fun params => argon2Hash ⟨.argon2id, 0x13, params⟩ password salt
  | fips, password, salt => (AwsLcPbkdf2.hashPassword password salt).toOption

/-- Whether a build finds that a parsed hash is that of a password. -/
def verifies : Build → Bytes → PasswordHash → Bool
  | argon2, password, parsed => argon2Verify password parsed
  | fips, password, parsed => (AwsLcPbkdf2.verifyPassword password parsed).toBool

/-- Hash a password with a salt of these random bytes. -/
def hashPassword (b : Build) (password : String) (raw : Bytes) : Except PasswordError String :=
  match b.hash (asBytes password) (saltText raw) with
  | none => .error .hashingFailed
  | some h => .ok (phcPrint h)

/-- Verify a password against a PHC-format hash. -/
def verifyPassword (b : Build) (password phcHash : String) : Except PasswordError Unit :=
  match phcParse phcHash with
  | none => .error .invalidFormat
  | some parsed =>
    if b.verifies (asBytes password) parsed then .ok () else .error .verificationFailed

end Build

/-- The platform of a service of this build. -/
@[reducible] def onBuild (b : Build) (base : Platform) : Platform where
  __ := base
  phcHash password raw := (b.hash (asBytes password) (saltText raw)).map phcPrint
  phcValid phcHash := (phcParse phcHash).isSome
  phcVerify password phcHash := (phcParse phcHash).any fun parsed => b.verifies (asBytes password) parsed

theorem hashPassword_onBuild (b : Build) (base : Platform) (password : String) (raw : Bytes) :
    @hashPassword (onBuild b base) password raw = b.hashPassword password raw := by
  unfold hashPassword Build.hashPassword
  cases h : b.hash (asBytes password) (saltText raw) with
  | none =>
    have hphc : (onBuild b base).phcHash password raw = none := congrArg (Option.map phcPrint) h
    rw [hphc]
  | some hash =>
    have hphc : (onBuild b base).phcHash password raw = some (phcPrint hash) :=
      congrArg (Option.map phcPrint) h
    rw [hphc]

theorem verifyPassword_onBuild (b : Build) (base : Platform) (password phcHash : String) :
    @verifyPassword (onBuild b base) password phcHash = b.verifyPassword password phcHash := by
  change (if (phcParse phcHash).isSome then
      if (phcParse phcHash).any fun parsed => b.verifies (asBytes password) parsed then Except.ok ()
      else Except.error PasswordError.verificationFailed
    else Except.error PasswordError.invalidFormat) = _
  unfold Build.verifyPassword
  cases phcParse phcHash <;> rfl

/-! ## What is verified -/

/-- The parameters of Argon2. -/
def argon2Params : List String := ["m", "t", "p", "keyid", "data"]

/-- What the libraries document. -/
structure Hashing.Lawful : Prop where
  -- a computed hash is read back from its text
  parses : ∀ b password salt h, Build.hash b password salt = some h → phcParse (phcPrint h) = some h
  -- Argon2 writes its own parameters
  writes : ∀ hasher password salt h, argon2Hash hasher password salt = some h →
    ∀ p ∈ h.params, p.1 ∈ argon2Params
  -- Argon2 verifies by hashing again as the hash says
  recomputes : ∀ hasher password salt h, argon2Hash hasher password salt = some h →
    ∀ password', argon2Verify password' h = true ↔ argon2Hash hasher password' salt = some h
  -- Argon2 verifies no other algorithm
  knows : ∀ password h, argon2Verify password h = true →
    ∃ algorithm : Argon2Algorithm, h.algorithm = algorithm.ident

/-- The build gives no other password the hash of this one. -/
def Build.Distinguishes (b : Build) (password : String) (salt : String) : Prop :=
  ∀ password', b.hash (asBytes password') salt = b.hash (asBytes password) salt → password' = password

namespace AwsLcPbkdf2

theorem hashPassword_eq_ok {password : Bytes} {salt : String} {h : PasswordHash} :
    (hashPassword password salt).toOption = some h ↔
      h.algorithm = algId ∧ h.version = none ∧ h.params = [("i", Nat.repr iterations)] ∧ h.salt = some salt ∧
      ∃ output, h.hash = some output ∧ output.bytes = (pbkdf2 iterations (asBytes salt) password 32).val := by
  obtain ⟨output, hnew, hbytes⟩ := Output.new_isSome (pbkdf2 iterations (asBytes salt) password 32).property
  unfold hashPassword
  rw [hnew]
  constructor
  · intro hh
    cases hh
    exact ⟨rfl, rfl, rfl, rfl, output, rfl, hbytes⟩
  · rintro ⟨halg, hversion, hparams, hsalt, output', hhash, hbytes'⟩
    have ho : output' = output := by
      rw [← Option.some_inj, ← Output.new_bytes output', hbytes', hnew]
    cases h
    subst halg hversion hparams hsalt hhash ho
    rfl

theorem exists_hash (password : Bytes) (salt : String) :
    ∃ h, (hashPassword password salt).toOption = some h := by
  obtain ⟨output, -, hbytes⟩ := Output.new_isSome (pbkdf2 iterations (asBytes salt) password 32).property
  exact ⟨⟨algId, none, _, some salt, some output⟩,
    hashPassword_eq_ok.mpr ⟨rfl, rfl, rfl, rfl, output, rfl, hbytes⟩⟩

/-- A hash of the hasher is verified by hashing again. -/
theorem verifyPassword_hash {password password' : Bytes} {salt : String} {h : PasswordHash}
    (hh : (hashPassword password salt).toOption = some h) :
    (verifyPassword password' h).toBool = true ↔ (hashPassword password' salt).toOption = some h := by
  obtain ⟨halg, hversion, hparams, hsalt, output, hhash, hbytes⟩ := hashPassword_eq_ok.mp hh
  have hlen : output.bytes.length = 32 := by
    rw [hbytes]
    exact (pbkdf2 iterations (asBytes salt) password 32).property
  have hfind : (h.params.find? fun p => p.1 = "i").bind (fun p => decimal p.2) = some iterations := by
    have hlt : iterations < 2 ^ 32 := by decide
    rw [hparams, List.find?_cons_of_pos rfl]
    exact decimal_repr hlt
  unfold verifyPassword
  rw [hfind, hsalt, hhash]
  dsimp only
  rw [if_neg (by decide), hlen, hashPassword_eq_ok]
  constructor
  · intro hok
    split_ifs at hok with hsame
    · exact ⟨halg, hversion, hparams, hsalt, output, hhash, hsame.symm⟩
    · cases hok
  · rintro ⟨-, -, -, -, output', hhash', hbytes'⟩
    rw [hhash] at hhash'
    cases hhash'
    rw [if_pos hbytes'.symm]
    rfl

/-- A hash without the parameter `i` is refused. -/
theorem verifyPassword_of_notMem {password : Bytes} {h : PasswordHash} (hi : ∀ p ∈ h.params, p.1 ≠ "i") :
    verifyPassword password h = .error .paramValueInvalid := by
  have hfind : (h.params.find? fun p => p.1 = "i") = none :=
    List.find?_eq_none.mpr fun p hp hpi => hi p hp (of_decide_eq_true hpi)
  unfold verifyPassword
  rw [hfind]
  rfl

end AwsLcPbkdf2

section Verification

variable (laws : Hashing.Lawful)
include laws

namespace Build

/-- A build verifies its own hashes by hashing again. -/
theorem verifies_own {b : Build} {password password' : Bytes} {salt : String} {h : PasswordHash}
    (hh : b.hash password salt = some h) :
    b.verifies password' h = true ↔ b.hash password' salt = some h := by
  cases b with
  | argon2 =>
    obtain ⟨params, hparams, hh⟩ := Option.bind_eq_some_iff.mp hh
    change argon2Verify password' h = true ↔ (newParams 19456 2 1 none).bind _ = some h
    rw [laws.recomputes _ _ _ _ hh, hparams, Option.bind_some]
  | fips => exact AwsLcPbkdf2.verifyPassword_hash hh

/-- A build refuses the hashes of the other. -/
theorem verifies_other {b b' : Build} (hb : b' ≠ b) {password password' : Bytes} {salt : String}
    {h : PasswordHash} (hh : b.hash password salt = some h) : b'.verifies password' h = false := by
  cases b with
  | argon2 =>
    obtain ⟨params, -, hh⟩ := Option.bind_eq_some_iff.mp hh
    cases b' with
    | argon2 => exact absurd rfl hb
    | fips =>
      have hi : ∀ p ∈ h.params, p.1 ≠ "i" := fun p hp hpi => by
        have hmem := laws.writes _ _ _ _ hh p hp
        rw [hpi] at hmem
        revert hmem
        decide
      change (AwsLcPbkdf2.verifyPassword password' h).toBool = false
      rw [AwsLcPbkdf2.verifyPassword_of_notMem hi]
      rfl
  | fips =>
    cases b' with
    | fips => exact absurd rfl hb
    | argon2 =>
      have halg := (AwsLcPbkdf2.hashPassword_eq_ok.mp hh).1
      rw [← Bool.not_eq_true]
      intro hok
      obtain ⟨algorithm, hident⟩ := laws.knows _ _ hok
      rw [halg] at hident
      cases algorithm <;> exact absurd hident (by decide)

variable {b b' : Build} {password stored : String} {raw : Bytes}

/-- What was hashed is verified as its parsed hash. -/
theorem verifyPassword_stored (hstored : b.hashPassword password raw = .ok stored) :
    ∃ h, b.hash (asBytes password) (saltText raw) = some h ∧ ∀ (b' : Build) password',
      b'.verifyPassword password' stored =
        if b'.verifies (asBytes password') h then .ok () else .error .verificationFailed := by
  unfold hashPassword at hstored
  cases hh : b.hash (asBytes password) (saltText raw) with
  | none =>
    rw [hh] at hstored
    cases hstored
  | some h =>
    rw [hh] at hstored
    cases hstored
    refine ⟨h, rfl, fun b' password' => ?_⟩
    unfold verifyPassword
    rw [laws.parses _ _ _ _ hh]

/-- **A build refuses what the other hashed, for every password.** -/
theorem verifyPassword_other (hstored : b.hashPassword password raw = .ok stored) (hb : b' ≠ b)
    (password' : String) : b'.verifyPassword password' stored = .error .verificationFailed := by
  obtain ⟨h, hh, hverify⟩ := verifyPassword_stored laws hstored
  rw [hverify, verifies_other laws hb hh]
  rfl

/-- **A build verifies what it hashed, for the password it hashed and no other.** -/
theorem verifyPassword_own (hstored : b.hashPassword password raw = .ok stored)
    (hdist : b.Distinguishes password (saltText raw)) (password' : String) :
    b.verifyPassword password' stored = .ok () ↔ password' = password := by
  obtain ⟨h, hh, hverify⟩ := verifyPassword_stored laws hstored
  rw [hverify]
  constructor
  · intro hok
    split_ifs at hok with hv
    rw [verifies_own laws hh, ← hh] at hv
    exact hdist password' hv
  · rintro rfl
    rw [if_pos ((verifies_own laws hh).mpr hh)]

/-- **A stored hash is verified, for its password alone, exactly by the build that hashed it.** -/
theorem verified_iff (hstored : b.hashPassword password raw = .ok stored)
    (hdist : b.Distinguishes password (saltText raw)) :
    (b'.verifyPassword password stored = .ok () ∧
      ∀ password', password' ≠ password → ∃ e, b'.verifyPassword password' stored = .error e) ↔ b' = b := by
  constructor
  · rintro ⟨hok, -⟩
    by_contra hb
    rw [verifyPassword_other laws hstored hb] at hok
    cases hok
  · rintro rfl
    refine ⟨(verifyPassword_own laws hstored hdist password).mpr rfl, fun password' hne => ?_⟩
    cases hv : b'.verifyPassword password' stored with
    | ok u => exact absurd ((verifyPassword_own laws hstored hdist password').mp hv) hne
    | error e => exact ⟨e, rfl⟩

end Build

end Verification

end Code

/-! ## A sample of both libraries -/

namespace Builds.Sample

def phrase : String := "correct-horse-battery-staple"

/-- Tells one phrase from the rest. -/
def digest (password : Bytes) : UInt8 := if password = asBytes phrase then 1 else 0

theorem eq_phrase {password : String} (h : digest (asBytes password) = digest (asBytes phrase)) :
    password = phrase := by
  unfold digest at h
  rw [if_pos (rfl : asBytes phrase = asBytes phrase)] at h
  split_ifs at h with hp
  · exact asBytes_inj hp
  · exact absurd h (by decide)

def zeros : Output := ⟨List.replicate 32 0, by decide⟩

def output (password : Bytes) : Output :=
  (Output.new (List.replicate 32 (digest password))).getD zeros

theorem bytes_output (password : Bytes) : (output password).bytes = List.replicate 32 (digest password) := by
  have hlen : (List.replicate 32 (digest password)).length = 32 := List.length_replicate
  obtain ⟨o, hnew, hbytes⟩ := Output.new_isSome hlen
  rw [output, hnew, Option.getD_some, hbytes]

theorem digest_of_output {password password' : Bytes} (h : output password = output password') :
    digest password = digest password' := by
  have hb := congrArg Output.bytes h
  rw [bytes_output, bytes_output] at hb
  exact (List.replicate_right_inj (by decide)).mp hb

def outputCodec : Codec Output :=
  (Codec.list .byte).map (fun bs => (Output.new bs).getD zeros) Output.bytes fun o => by
    rw [Output.new_bytes, Option.getD_some]

def optional {α : Type} (c : Codec α) : Codec (Option α) :=
  (Codec.sum .unit c).map Sum.getRight? (fun o => o.elim (.inl ()) .inr) fun o => by cases o <;> rfl

def phc : Codec PasswordHash :=
  (Codec.pair .string (.pair (optional .nat) (.pair (.list (.pair .string .string))
    (.pair (optional .string) (optional outputCodec))))).map
    (fun h => ⟨h.1, h.2.1, h.2.2.1, h.2.2.2.1, h.2.2.2.2⟩)
    (fun h => (h.algorithm, h.version, h.params, h.salt, h.hash)) fun _ => rfl

def argon2Algorithms : List Argon2Algorithm := [.argon2d, .argon2i, .argon2id]

scoped instance hashing : Hashing where
  saltText := Base64Url.encodeString
  newParams m t p outputLen := some ⟨m, t, p, outputLen⟩
  argon2Hash hasher password salt := some ⟨hasher.algorithm.ident, some hasher.version,
    [("m", Nat.repr hasher.params.mCost), ("t", Nat.repr hasher.params.tCost),
      ("p", Nat.repr hasher.params.pCost)], some salt, some (output password)⟩
  argon2Verify password h :=
    argon2Algorithms.any (fun a => h.algorithm = a.ident) && h.hash = some (output password)
  pbkdf2 _ _ password n := ⟨List.replicate n (digest password), List.length_replicate⟩
  phcPrint h := Base64Url.encodeString (phc.enc h)
  phcParse text := (Base64Url.decodeVec text).bind phc.whole

theorem lawful : Hashing.Lawful where
  parses _ _ _ h _ := by
    change (Base64Url.decodeVec (Base64Url.encodeString (phc.enc h))).bind phc.whole = some h
    rw [Base64Url.decodeVec_encodeString, Option.bind_some, Codec.whole_enc]
  writes hasher password salt h hh p hp := by
    cases hh
    have hnames : ∀ name ∈ ["m", "t", "p"], name ∈ argon2Params := by decide
    exact hnames p.1 (List.mem_map_of_mem (f := Prod.fst) hp)
  recomputes hasher password salt h hh password' := by
    cases hh
    have hany : argon2Algorithms.any (fun a => hasher.algorithm.ident = a.ident) = true := by
      cases hasher.algorithm <;> decide
    change (argon2Algorithms.any _ && decide (some (output password) = some (output password'))) = true ↔ _
    rw [hany, Bool.true_and, decide_eq_true_iff]
    constructor
    · intro ho
      change some (PasswordHash.mk _ _ _ _ (some (output password'))) = _
      rw [← ho]
    · intro ho
      exact (congrArg PasswordHash.hash (Option.some.inj ho)).symm
  knows password h hok := by
    obtain ⟨hany, -⟩ := (Bool.and_eq_true _ _).mp hok
    obtain ⟨a, -, ha⟩ := List.any_eq_true.mp hany
    exact ⟨a, of_decide_eq_true ha⟩

/-- Each build tells the phrase from the rest. -/
theorem distinguishes (b : Build) (salt : String) : b.Distinguishes phrase salt := by
  intro password h
  refine eq_phrase ?_
  cases b with
  | argon2 =>
    have ho := congrArg PasswordHash.hash (Option.some.inj h)
    exact digest_of_output (Option.some.inj ho)
  | fips =>
    obtain ⟨hash, hh⟩ := AwsLcPbkdf2.exists_hash (asBytes phrase) salt
    obtain ⟨-, -, -, -, o, ho, hbytes⟩ := AwsLcPbkdf2.hashPassword_eq_ok.mp hh
    obtain ⟨-, -, -, -, o', ho', hbytes'⟩ := AwsLcPbkdf2.hashPassword_eq_ok.mp (h.trans hh)
    rw [ho] at ho'
    cases ho'
    have hd : List.replicate 32 (digest (asBytes password)) = List.replicate 32 (digest (asBytes phrase)) :=
      hbytes'.symm.trans hbytes
    exact (List.replicate_right_inj (by decide)).mp hd

/-- A build hashes the phrase. -/
theorem hashed (b : Build) (raw : Bytes) : ∃ stored, b.hashPassword phrase raw = .ok stored := by
  have hsome : ∃ h, b.hash (asBytes phrase) (saltText raw) = some h := by
    cases b with
    | argon2 => exact ⟨_, rfl⟩
    | fips => exact AwsLcPbkdf2.exists_hash _ _
  obtain ⟨h, hh⟩ := hsome
  refine ⟨phcPrint h, ?_⟩
  unfold Build.hashPassword
  rw [hh]

/-- A hash of the FIPS build is verified there. -/
theorem verified_fips : ∃ stored, Build.fips.hashPassword phrase (List.replicate 16 7) = .ok stored ∧
    Build.fips.verifyPassword phrase stored = .ok () ∧
    ∀ password', password' ≠ phrase → ∃ e, Build.fips.verifyPassword password' stored = .error e := by
  obtain ⟨stored, hstored⟩ := hashed .fips (List.replicate 16 7)
  exact ⟨stored, hstored, (Build.verified_iff lawful hstored (distinguishes _ _)).mpr rfl⟩

/-- **A hash of one build is not verified by the other.** -/
theorem refused_elsewhere : Hashing.Lawful ∧ ¬ ∀ (b b' : Build) password raw stored,
    b.Distinguishes password (saltText raw) → b.hashPassword password raw = .ok stored →
    b'.verifyPassword password stored = .ok () ∧
      ∀ password', password' ≠ password → ∃ e, b'.verifyPassword password' stored = .error e := by
  refine ⟨lawful, fun claimed => ?_⟩
  obtain ⟨stored, hstored⟩ := hashed .argon2 (List.replicate 16 7)
  have hok := (claimed .argon2 .fips phrase _ stored (distinguishes _ _) hstored).1
  rw [Build.verifyPassword_other lawful hstored (by decide)] at hok
  cases hok

end Builds.Sample

end Identity
