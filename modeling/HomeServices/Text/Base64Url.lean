import Mathlib.Data.List.Basic
import Mathlib.Data.Option.Basic

/-!
# Unpadded base64url

Three bytes become four characters; a last group of one or two bytes becomes two or three. The
decoder accepts canonical text only: the unused low bits of the last character are zero.

* `encodeString`, `decodeVec`: the two directions on strings.
* **`decodeVec_encodeString`**, **`encodeString_of_decodeVec`**: decoding inverts encoding, and only
  encodings decode.
* `dot_notMem_encode`: encoded text has no `.`.
-/

namespace Base64Url

/-- The character of a six-bit value. -/
def digit (n : ℕ) : Char :=
  if n < 26 then Char.ofNat (n + 65)
  else if n < 52 then Char.ofNat (n + 71)
  else if n < 62 then Char.ofNat (n - 4)
  else if n = 62 then '-' else '_'

/-- The value of a character of the alphabet. -/
def value (c : Char) : Option ℕ :=
  if 'A' ≤ c ∧ c ≤ 'Z' then some (c.toNat - 65)
  else if 'a' ≤ c ∧ c ≤ 'z' then some (c.toNat - 71)
  else if '0' ≤ c ∧ c ≤ '9' then some (c.toNat + 4)
  else if c = '-' then some 62
  else if c = '_' then some 63
  else none

theorem value_digit {n : ℕ} (h : n < 64) : value (digit n) = some n := by
  have all : ∀ n : Fin 64, value (digit n) = some n.val := by decide
  exact all ⟨n, h⟩

theorem digit_ne_dot (n : ℕ) : digit n ≠ '.' := by
  unfold digit
  split_ifs with h1 h2 h3
  · have all : ∀ n : Fin 26, Char.ofNat (n + 65) ≠ '.' := by decide
    exact all ⟨n, h1⟩
  · have all : ∀ n : Fin 52, Char.ofNat (n + 71) ≠ '.' := by decide
    exact all ⟨n, h2⟩
  · have all : ∀ n : Fin 62, 52 ≤ n.val → Char.ofNat (n - 4) ≠ '.' := by decide
    exact all ⟨n, h3⟩ (by simpa using h2)
  · decide
  · decide

/-- Encode bytes. -/
def encode : List UInt8 → List Char
  | a :: b :: c :: rest =>
    digit (a.toNat / 4) :: digit (a.toNat % 4 * 16 + b.toNat / 16) ::
      digit (b.toNat % 16 * 4 + c.toNat / 64) :: digit (c.toNat % 64) :: encode rest
  | [a, b] =>
    [digit (a.toNat / 4), digit (a.toNat % 4 * 16 + b.toNat / 16), digit (b.toNat % 16 * 4)]
  | [a] => [digit (a.toNat / 4), digit (a.toNat % 4 * 16)]
  | [] => []

/-- Decode characters. -/
def decode : List Char → Option (List UInt8)
  | c₀ :: c₁ :: c₂ :: c₃ :: rest => do
    let s₀ ← value c₀
    let s₁ ← value c₁
    let s₂ ← value c₂
    let s₃ ← value c₃
    let bytes ← decode rest
    return UInt8.ofNat (s₀ * 4 + s₁ / 16) :: UInt8.ofNat (s₁ % 16 * 16 + s₂ / 4) ::
      UInt8.ofNat (s₂ % 4 * 64 + s₃) :: bytes
  | [c₀, c₁, c₂] => do
    let s₀ ← value c₀
    let s₁ ← value c₁
    let s₂ ← value c₂
    guard (s₂ % 4 = 0)
    return [UInt8.ofNat (s₀ * 4 + s₁ / 16), UInt8.ofNat (s₁ % 16 * 16 + s₂ / 4)]
  | [c₀, c₁] => do
    let s₀ ← value c₀
    let s₁ ← value c₁
    guard (s₁ % 16 = 0)
    return [UInt8.ofNat (s₀ * 4 + s₁ / 16)]
  | [_] => none
  | [] => some []

theorem ofNat_of_eq {a : UInt8} {n : ℕ} (h : n = a.toNat) : UInt8.ofNat n = a := by
  rw [h, UInt8.ofNat_toNat]

theorem decode_encode : ∀ bs : List UInt8, decode (encode bs) = some bs
  | [] => rfl
  | [a] => by
    have ha := a.toNat_lt
    simp only [encode, decode, value_digit (n := a.toNat / 4) (by omega),
      value_digit (n := a.toNat % 4 * 16) (by omega), Option.bind_eq_bind, Option.bind_some]
    rw [show a.toNat % 4 * 16 % 16 = 0 by omega]
    simp only [guard, if_true, Option.pure_def, Option.bind_some]
    rw [ofNat_of_eq (a := a) (by omega)]
  | [a, b] => by
    have ha := a.toNat_lt
    have hb := b.toNat_lt
    simp only [encode, decode, value_digit (n := a.toNat / 4) (by omega),
      value_digit (n := a.toNat % 4 * 16 + b.toNat / 16) (by omega),
      value_digit (n := b.toNat % 16 * 4) (by omega), Option.bind_eq_bind, Option.bind_some]
    rw [show b.toNat % 16 * 4 % 4 = 0 by omega]
    simp only [guard, if_true, Option.pure_def, Option.bind_some]
    rw [ofNat_of_eq (a := a) (by omega), ofNat_of_eq (a := b) (by omega)]
  | a :: b :: c :: rest => by
    have ha := a.toNat_lt
    have hb := b.toNat_lt
    have hc := c.toNat_lt
    simp only [encode, decode, value_digit (n := a.toNat / 4) (by omega),
      value_digit (n := a.toNat % 4 * 16 + b.toNat / 16) (by omega),
      value_digit (n := b.toNat % 16 * 4 + c.toNat / 64) (by omega),
      value_digit (n := c.toNat % 64) (by omega), decode_encode rest, Option.bind_eq_bind,
      Option.bind_some, Option.pure_def]
    rw [ofNat_of_eq (a := a) (by omega), ofNat_of_eq (a := b) (by omega),
      ofNat_of_eq (a := c) (by omega)]

/-- A character of the alphabet is the digit of its value. -/
theorem digit_value {c : Char} {n : ℕ} (h : value c = some n) : digit n = c ∧ n < 64 := by
  have hof : ∀ m, m = c.toNat → Char.ofNat m = c := fun m hm => by rw [hm, Char.ofNat_toNat]
  unfold value at h
  split_ifs at h with h1 h2 h3 h4 h5 <;> cases h
  · have hlow : 65 ≤ c.toNat := h1.1
    have hhigh : c.toNat ≤ 90 := h1.2
    rw [digit, if_pos (by omega)]
    exact ⟨hof _ (by omega), by omega⟩
  · have hlow : 97 ≤ c.toNat := h2.1
    have hhigh : c.toNat ≤ 122 := h2.2
    rw [digit, if_neg (by omega), if_pos (by omega)]
    exact ⟨hof _ (by omega), by omega⟩
  · have hlow : 48 ≤ c.toNat := h3.1
    have hhigh : c.toNat ≤ 57 := h3.2
    rw [digit, if_neg (by omega), if_neg (by omega), if_pos (by omega)]
    exact ⟨hof _ (by omega), by omega⟩
  · rw [h4]
    decide
  · rw [h5]
    decide

/-- A guard that let the computation go on was met. -/
theorem of_guard {p : Prop} [Decidable p] {u : Unit}
    (h : (if p then some () else failure : Option Unit) = some u) : p := by
  by_contra hp
  rw [if_neg hp] at h
  cases h

theorem toNat_ofNat {n : ℕ} (h : n < 256) : (UInt8.ofNat n).toNat = n := UInt8.toNat_ofNat_of_lt' h

/-- Decoded text is the encoding of its bytes. -/
theorem encode_decode : ∀ {cs : List Char} {bs : List UInt8}, decode cs = some bs → encode bs = cs
  | [], _, h => by
    cases h
    rfl
  | [_], _, h => by cases h
  | [c₀, c₁], bs, h => by
    simp only [decode, Option.bind_eq_bind, Option.bind_eq_some_iff, guard, Option.pure_def] at h
    obtain ⟨s₀, h₀, s₁, h₁, _, hlow, h⟩ := h
    have hlow := of_guard hlow
    cases h
    obtain ⟨rfl, hs₀⟩ := digit_value h₀
    obtain ⟨rfl, hs₁⟩ := digit_value h₁
    rw [encode, toNat_ofNat (by omega)]
    rw [show (s₀ * 4 + s₁ / 16) / 4 = s₀ by omega, show (s₀ * 4 + s₁ / 16) % 4 * 16 = s₁ by omega]
  | [c₀, c₁, c₂], bs, h => by
    simp only [decode, Option.bind_eq_bind, Option.bind_eq_some_iff, guard, Option.pure_def] at h
    obtain ⟨s₀, h₀, s₁, h₁, s₂, h₂, _, hlow, h⟩ := h
    have hlow := of_guard hlow
    cases h
    obtain ⟨rfl, hs₀⟩ := digit_value h₀
    obtain ⟨rfl, hs₁⟩ := digit_value h₁
    obtain ⟨rfl, hs₂⟩ := digit_value h₂
    rw [encode, toNat_ofNat (by omega), toNat_ofNat (by omega)]
    rw [show (s₀ * 4 + s₁ / 16) / 4 = s₀ by omega,
      show (s₀ * 4 + s₁ / 16) % 4 * 16 + (s₁ % 16 * 16 + s₂ / 4) / 16 = s₁ by omega,
      show (s₁ % 16 * 16 + s₂ / 4) % 16 * 4 = s₂ by omega]
  | c₀ :: c₁ :: c₂ :: c₃ :: rest, bs, h => by
    simp only [decode, Option.bind_eq_bind, Option.bind_eq_some_iff, Option.pure_def] at h
    obtain ⟨s₀, h₀, s₁, h₁, s₂, h₂, s₃, h₃, bytes, hrest, h⟩ := h
    cases h
    obtain ⟨rfl, hs₀⟩ := digit_value h₀
    obtain ⟨rfl, hs₁⟩ := digit_value h₁
    obtain ⟨rfl, hs₂⟩ := digit_value h₂
    obtain ⟨rfl, hs₃⟩ := digit_value h₃
    rw [encode, toNat_ofNat (by omega), toNat_ofNat (by omega), toNat_ofNat (by omega),
      encode_decode hrest]
    rw [show (s₀ * 4 + s₁ / 16) / 4 = s₀ by omega,
      show (s₀ * 4 + s₁ / 16) % 4 * 16 + (s₁ % 16 * 16 + s₂ / 4) / 16 = s₁ by omega,
      show (s₁ % 16 * 16 + s₂ / 4) % 16 * 4 + (s₂ % 4 * 64 + s₃) / 64 = s₂ by omega,
      show (s₂ % 4 * 64 + s₃) % 64 = s₃ by omega]

theorem dot_notMem_encode : ∀ bs : List UInt8, '.' ∉ encode bs
  | [] => by simp [encode]
  | [_] => by simp [encode, (digit_ne_dot _).symm]
  | [_, _] => by simp [encode, (digit_ne_dot _).symm]
  | _ :: _ :: _ :: rest => by
    simp [encode, (digit_ne_dot _).symm, dot_notMem_encode rest]

/-! ## Strings -/

/-- Encode bytes as a string. -/
def encodeString (bs : List UInt8) : String := String.ofList (encode bs)

/-- Decode a string. -/
def decodeVec (s : String) : Option (List UInt8) := decode s.toList

@[simp] theorem toList_encodeString (bs : List UInt8) : (encodeString bs).toList = encode bs :=
  String.toList_ofList

/-- **Decoding inverts encoding.** -/
@[simp] theorem decodeVec_encodeString (bs : List UInt8) :
    decodeVec (encodeString bs) = some bs := by
  rw [decodeVec, toList_encodeString, decode_encode]

/-- **Only the encoding of some bytes decodes to them.** -/
theorem encodeString_of_decodeVec {s : String} {bs : List UInt8} (h : decodeVec s = some bs) :
    encodeString bs = s := by
  rw [← String.toList_inj, toList_encodeString]
  exact encode_decode h

/-- The text that decodes to given bytes is their encoding. -/
theorem decodeVec_eq_some {s : String} {bs : List UInt8} :
    decodeVec s = some bs ↔ s = encodeString bs :=
  ⟨fun h => (encodeString_of_decodeVec h).symm, fun h => by rw [h, decodeVec_encodeString]⟩

example : decodeVec "AQI" = some [1, 2] ∧ decodeVec "AQJ" = none ∧ decodeVec "A" = none := by
  decide

end Base64Url
