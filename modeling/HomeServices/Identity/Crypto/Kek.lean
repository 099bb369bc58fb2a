import HomeServices.Identity.Crypto.Keys
import HomeServices.Text.Hex

/-!
# The key encryption key

The service reads its master key from the environment: as hexadecimal text, as base64 text, or from a file.

* `Checked`: results of code that may panic; `index`: an index that may be out of range.
* `decodeHex`, `Kek.fromBytes`, `loadKek`: from the environment to the key.
* `decodePairs_eq_ok`: the bytes of a text are read in pairs.
* **`decodeHex_grammar`**: what is read is what the text spells, up to case and white space at the ends.
* `loadKek_hex`: the key of a hexadecimal text.
-/

namespace Identity

open Hex (Spells)
open Text

/-! ## Code that may panic -/

/-- A result, or a panic. -/
abbrev Checked := ExceptT CryptoError Option

variable {α β : Type}

def checked (r : Except CryptoError α) : Checked α := ExceptT.mk (some r)

def panicked : Checked α := ExceptT.mk none

def index (l : List α) (i : ℕ) : Checked α :=
  match l[i]? with
  | some a => checked (.ok a)
  | none => panicked

theorem checked_inj {r r' : Except CryptoError α} (h : checked r = checked r') : r = r' := Option.some.inj h

theorem checked_bind_eq_ok {x : Checked α} {f : α → Checked β} {b : β} :
    x >>= f = checked (.ok b) ↔ ∃ a, x = checked (.ok a) ∧ f a = checked (.ok b) := by
  constructor
  · intro h
    rcases x with _ | (e | a)
    · cases h
    · cases h
    · exact ⟨a, rfl, h⟩
  · rintro ⟨a, rfl, h⟩
    exact h

/-- A sequence does not panic if its parts do not. -/
theorem exists_checked_bind {x : Checked α} {f : α → Checked β} (hx : ∃ r, x = checked r)
    (hf : ∀ a, x = checked (.ok a) → ∃ r, f a = checked r) : ∃ r, x >>= f = checked r := by
  obtain ⟨r, rfl⟩ := hx
  cases r with
  | error e => exact ⟨.error e, rfl⟩
  | ok a => exact hf a rfl

/-! ## From the environment to the key -/

def hexDigit (b : UInt8) : Except CryptoError UInt8 :=
  if '0'.toUInt8 ≤ b ∧ b ≤ '9'.toUInt8 then .ok (b - '0'.toUInt8)
  else if 'a'.toUInt8 ≤ b ∧ b ≤ 'f'.toUInt8 then .ok (b - 'a'.toUInt8 + 10)
  else if 'A'.toUInt8 ≤ b ∧ b ≤ 'F'.toUInt8 then .ok (b - 'A'.toUInt8 + 10)
  else .error .invalidKek

/-- `chunks(2)`: the last chunk may be short. -/
def pairs : List α → List (List α)
  | a :: b :: rest => [a, b] :: pairs rest
  | [a] => [[a]]
  | [] => []

def decodePair (pair : Bytes) : Checked UInt8 := do
  let hi ← checked (hexDigit (← index pair 0))
  let lo ← checked (hexDigit (← index pair 1))
  return (hi <<< 4) ||| lo

/-- Decode a hex string into bytes. -/
def decodeHex (hex : String) : Checked Bytes :=
  let bytes := asBytes (trim hex)
  if bytes.length % 2 ≠ 0 then checked (.error .invalidKek)
  else (pairs bytes).mapM decodePair

/-- Create a KEK from raw bytes, validating their number. -/
def Kek.fromBytes (bytes : Bytes) : Except CryptoError Kek :=
  if h : bytes.length = 32 then .ok ⟨bytes, h⟩ else .error .invalidKek

/-- `IDENTITY_KEK_HEX`, `IDENTITY_KEK_BASE64`, and what reading the file named by `IDENTITY_KEK_FILE`
gives. -/
structure KekEnv where
  hex : Option String := none
  base64 : Option String := none
  file : Option (Except String Bytes) := none

def loadKekFromFile : Except String Bytes → Except CryptoError Kek
  | .ok bytes => Kek.fromBytes bytes
  | .error e => .error (.kekLoad ("read failed: " ++ e))

/-- Load the KEK from the environment; `decodeBase64` decodes padded base64. -/
def loadKek (decodeBase64 : String → Option Bytes) (env : KekEnv) : Checked Kek :=
  match env.hex with
  | some hexStr => do
    let bytes ← decodeHex hexStr
    checked (Kek.fromBytes bytes)
  | none =>
    match env.base64 with
    | some b64Str =>
      match decodeBase64 b64Str with
      | some bytes => checked (Kek.fromBytes bytes)
      | none => checked (.error .invalidKek)
    | none =>
      match env.file with
      | some read => checked (loadKekFromFile read)
      | none => checked (.error (.kekLoad
          "no KEK configured: set IDENTITY_KEK_HEX, IDENTITY_KEK_BASE64, or IDENTITY_KEK_FILE"))

/-! ## Digits -/

/-- The value of a byte as a digit. -/
def byteValue (b : UInt8) : Option ℕ := (hexDigit b).toOption.map UInt8.toNat

/-- A property of the bytes is checked one by one. -/
theorem forall_byte {P : UInt8 → Prop} (h : ∀ n < 256, P (UInt8.ofNat n)) (b : UInt8) : P b := by
  have hP := h b.toNat b.toNat_lt
  rwa [UInt8.ofNat_toNat] at hP

theorem hexDigit_eq_ok {b d : UInt8} : hexDigit b = .ok d ↔ byteValue b = some d.toNat := by
  unfold byteValue
  cases hexDigit b with
  | error e => simp [Except.toOption]
  | ok d' => simp [Except.toOption, UInt8.toNat_inj]

theorem digit_of_byteValue {b : UInt8} {n : ℕ} (h : byteValue b = some n) : n < 16 ∧ b.toNat < 128 := by
  have hall : ∀ m < 256, (byteValue (UInt8.ofNat m)).all fun n => n < 16 && (UInt8.ofNat m).toNat < 128 := by
    decide +kernel
  have hb := forall_byte (P := fun b => (byteValue b).all fun n => n < 16 && b.toNat < 128) hall b
  rw [h] at hb
  simpa using hb

/-- The byte of an ASCII character has the value of the character. -/
theorem byteValue_ofNat {c : Char} (hc : c.toNat < 128) : byteValue (UInt8.ofNat c.toNat) = Hex.value c := by
  have hall : ∀ n < 128, byteValue (UInt8.ofNat (Char.ofNat n).toNat) = Hex.value (Char.ofNat n) := by
    decide +kernel
  exact Hex.forall_ascii (P := fun c => byteValue (UInt8.ofNat c.toNat) = Hex.value c) hall hc

theorem toNat_shift_or {hi lo : UInt8} (hhi : hi.toNat < 16) (hlo : lo.toNat < 16) :
    ((hi <<< 4) ||| lo).toNat = 16 * hi.toNat + lo.toNat := by
  have hall : ∀ m < 16, ∀ n < 16, ((UInt8.ofNat m <<< 4) ||| UInt8.ofNat n).toNat = 16 * m + n := by
    decide +kernel
  have h := hall hi.toNat hhi lo.toNat hlo
  rwa [UInt8.ofNat_toNat, UInt8.ofNat_toNat] at h

/-! ## Pairs of digits -/

theorem decodePair_eq (hi lo : UInt8) :
    decodePair [hi, lo] = checked (hexDigit hi) >>= fun h => checked (hexDigit lo) >>= fun l =>
      checked (.ok ((h <<< 4) ||| l)) := rfl

theorem decodePair_eq_ok {hi lo b : UInt8} : decodePair [hi, lo] = checked (.ok b) ↔
    byteValue hi = some (b.toNat / 16) ∧ byteValue lo = some (b.toNat % 16) := by
  rw [decodePair_eq]
  simp only [checked_bind_eq_ok]
  constructor
  · rintro ⟨h, hhi, l, hlo, hb⟩
    have hvhi := hexDigit_eq_ok.mp (checked_inj hhi)
    have hvlo := hexDigit_eq_ok.mp (checked_inj hlo)
    have hlt := (digit_of_byteValue hvhi).1
    have hlt' := (digit_of_byteValue hvlo).1
    cases checked_inj hb
    rw [toNat_shift_or hlt hlt', hvhi, hvlo]
    exact ⟨congrArg some (by omega), congrArg some (by omega)⟩
  · rintro ⟨hhi, hlo⟩
    have hb := b.toNat_lt
    have hh : (UInt8.ofNat (b.toNat / 16)).toNat = b.toNat / 16 := Base64Url.toNat_ofNat (by omega)
    have hl : (UInt8.ofNat (b.toNat % 16)).toNat = b.toNat % 16 := Base64Url.toNat_ofNat (by omega)
    refine ⟨_, congrArg checked (hexDigit_eq_ok.mpr (by rw [hh, hhi])), _,
      congrArg checked (hexDigit_eq_ok.mpr (by rw [hl, hlo])), ?_⟩
    refine congrArg (fun b => checked (.ok b)) (UInt8.toNat_inj.mp ?_)
    rw [toNat_shift_or (by omega) (by omega), hh, hl]
    omega

theorem decodePair_checked (hi lo : UInt8) : ∃ r, decodePair [hi, lo] = checked r := by
  rw [decodePair_eq]
  exact exists_checked_bind ⟨_, rfl⟩ fun h _ => exists_checked_bind ⟨_, rfl⟩ fun l _ => ⟨_, rfl⟩

theorem mapM_pairs (hi lo : UInt8) (rest : Bytes) : (pairs (hi :: lo :: rest)).mapM decodePair =
    decodePair [hi, lo] >>= fun b => (pairs rest).mapM decodePair >>= fun bs => checked (.ok (b :: bs)) := by
  rw [pairs, List.mapM_cons]
  rfl

/-- **The bytes of a text are read in pairs.** -/
theorem decodePairs_eq_ok : ∀ {l bs : Bytes}, l.length % 2 = 0 →
    ((pairs l).mapM decodePair = checked (.ok bs) ↔ Spells byteValue l bs)
  | [], bs, _ => by
    constructor
    · intro h
      cases checked_inj h
      exact .nil
    · intro h
      cases h
      rfl
  | [_], _, h => by cases h
  | hi :: lo :: rest, bs, h => by
    have hrest : rest.length % 2 = 0 := by
      simp only [List.length_cons] at h
      omega
    rw [mapM_pairs]
    simp only [checked_bind_eq_ok, decodePair_eq_ok, decodePairs_eq_ok hrest]
    constructor
    · rintro ⟨b, ⟨hhi, hlo⟩, bs', hspells, hbs⟩
      cases checked_inj hbs
      exact .cons hhi hlo hspells
    · intro h
      cases h with
      | cons hhi hlo hspells => exact ⟨_, ⟨hhi, hlo⟩, _, hspells, rfl⟩

/-- No index is out of range. -/
theorem decodePairs_checked : ∀ {l : Bytes}, l.length % 2 = 0 → ∃ r, (pairs l).mapM decodePair = checked r
  | [], _ => ⟨_, rfl⟩
  | [_], h => by cases h
  | hi :: lo :: rest, h => by
    have hrest : rest.length % 2 = 0 := by
      simp only [List.length_cons] at h
      omega
    rw [mapM_pairs]
    exact exists_checked_bind (decodePair_checked hi lo) fun b _ =>
      exists_checked_bind (decodePairs_checked hrest) fun bs _ => ⟨_, rfl⟩

/-! ## The grammar -/

theorem asBytes_eq (s : String) : asBytes s = utf8 s.toList := by
  rw [asBytes, ← String.utf8Encode_toList, List.utf8Encode, List.toList_data_toByteArray]
  rfl

/-- The bytes of a text spell what its characters do. -/
theorem spells_utf8 {cs : List Char} {bs : Bytes} :
    Spells byteValue (utf8 cs) bs ↔ Spells Hex.value cs bs := by
  constructor
  · intro h
    have hascii : ∀ c ∈ cs, c.toNat < 128 := by
      refine ascii_of_utf8 fun b hb => ?_
      obtain ⟨n, hn⟩ := h.value_ne_none b hb
      exact (digit_of_byteValue hn).2
    rw [utf8_eq_map hascii] at h
    exact h.of_map fun c hc => byteValue_ofNat (hascii c hc)
  · intro h
    have hascii : ∀ c ∈ cs, c.toNat < 128 := by
      intro c hc
      obtain ⟨n, hn⟩ := h.value_ne_none c hc
      exact Hex.ascii_of_value hn
    rw [utf8_eq_map hascii]
    exact h.map fun c hc => byteValue_ofNat (hascii c hc)

theorem decodeHex_eq_ok {s : String} {bs : Bytes} :
    decodeHex s = checked (.ok bs) ↔ Spells Hex.value (trim s).toList bs := by
  unfold decodeHex
  rw [asBytes_eq, ← spells_utf8]
  dsimp only
  split_ifs with heven
  · constructor
    · intro h
      cases checked_inj h
    · intro h
      have hlen := h.length
      omega
  · exact decodePairs_eq_ok (not_not.mp heven)

/-- Digits are not white space. -/
theorem isWhitespace_of_value {c : Char} {n : ℕ} (h : Hex.value c = some n) : isWhitespace c = false := by
  have hall : ∀ m < 128, Hex.value (Char.ofNat m) ≠ none → isWhitespace (Char.ofNat m) = false := by
    decide +kernel
  exact Hex.forall_ascii (P := fun c => Hex.value c ≠ none → isWhitespace c = false) hall
    (Hex.ascii_of_value h) (by rw [h]; exact Option.some_ne_none n)

/-- **The decoder reads what a text spells, and nothing else**: an encoding in any case, with white space at
the ends. Texts of the same bytes are the same up to these. It never panics. -/
theorem decodeHex_grammar :
    (∀ s bs, decodeHex s = checked (.ok bs) ↔ Spells Hex.value (trim s).toList bs) ∧
    (∀ s, ∃ r, decodeHex s = checked r) ∧
    (∀ bs before cs after, cs.map Char.toLower = Hex.encode bs → (∀ c ∈ before, isWhitespace c = true) →
      (∀ c ∈ after, isWhitespace c = true) →
      decodeHex (String.ofList (before ++ cs ++ after)) = checked (.ok bs)) ∧
    ∀ s t bs, decodeHex s = checked (.ok bs) → decodeHex t = checked (.ok bs) →
      (trim s).toList.map Char.toLower = (trim t).toList.map Char.toLower := by
  refine ⟨fun s bs => decodeHex_eq_ok, fun s => ?_, fun bs before cs after hcs hbefore hafter => ?_,
    fun s t bs hs ht => ?_⟩
  · unfold decodeHex
    dsimp only
    split_ifs with heven
    · exact ⟨_, rfl⟩
    · exact decodePairs_checked (not_not.mp heven)
  · have hspells := Hex.spells_iff.mpr hcs
    have hdigits : ∀ c ∈ cs, isWhitespace c = false := by
      intro c hc
      obtain ⟨n, hn⟩ := hspells.value_ne_none c hc
      exact isWhitespace_of_value hn
    rw [decodeHex_eq_ok, trim_append hbefore hdigits hafter, String.toList_ofList]
    exact hspells
  · rw [Hex.spells_iff.mp (decodeHex_eq_ok.mp hs), Hex.spells_iff.mp (decodeHex_eq_ok.mp ht)]

example : (decodeHex " 0aFf\n").run = some (.ok [0x0a, 0xff]) ∧
    (decodeHex "0é").run = some (.error .invalidKek) := by decide +kernel

/-- **A key is loaded from the hexadecimal text that spells it.** -/
theorem loadKek_hex (decodeBase64 : String → Option Bytes) {env : KekEnv} {s : String} (h : env.hex = some s)
    (kek : Kek) : loadKek decodeBase64 env = checked (.ok kek) ↔
      Spells Hex.value (trim s).toList kek.bytes := by
  unfold loadKek
  rw [h]
  simp only [checked_bind_eq_ok, decodeHex_eq_ok]
  constructor
  · rintro ⟨bytes, hspells, hkek⟩
    have hkek := checked_inj hkek
    unfold Kek.fromBytes at hkek
    split_ifs at hkek
    cases hkek
    exact hspells
  · intro hspells
    refine ⟨_, hspells, congrArg checked ?_⟩
    exact dif_pos kek.length_eq

end Identity
