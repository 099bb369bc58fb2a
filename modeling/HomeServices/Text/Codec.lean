import Mathlib.Algebra.Ring.Nat
import Mathlib.Data.List.Basic

/-!
# Prefix codecs

A codec writes values as bytes and reads a value back from the front of any bytes that start with
its encoding. Codecs carry that law, so what is built from codecs keeps it.

* `Codec`: encoder, decoder, law; `Codec.whole`: decoding a complete input.
* `byte`, `sum`, `pair`, `list`, `nat`: the codecs of the basic types; `Codec.map`: the codec of a
  retract.
* `digits`, `value`: numbers in a fixed number of digits; `fixed`, `u64`, `char`, `string`.
-/

/-- An encoder and a decoder that inverts it on every prefix. -/
structure Codec (α : Type) where
  enc : α → List UInt8
  dec : List UInt8 → Option (α × List UInt8)
  law : ∀ a rest, dec (enc a ++ rest) = some (a, rest)

namespace Codec

variable {α β : Type}

/-- Decode an input that holds one value. -/
def whole (c : Codec α) (bs : List UInt8) : Option α :=
  match c.dec bs with
  | some (a, []) => some a
  | _ => none

theorem whole_enc (c : Codec α) (a : α) : c.whole (c.enc a) = some a := by
  have h := c.law a []
  rw [List.append_nil] at h
  rw [whole, h]

/-- The codec of a retract of `α`. -/
def map (c : Codec α) (f : α → β) (g : β → α) (h : ∀ b, f (g b) = b) : Codec β where
  enc b := c.enc (g b)
  dec bs := (c.dec bs).map fun r => (f r.1, r.2)
  law b rest := by rw [c.law, Option.map_some, h]

def unit : Codec Unit where
  enc _ := []
  dec bs := some ((), bs)
  law _ _ := rfl

def byte : Codec UInt8 where
  enc b := [b]
  dec
    | b :: rest => some (b, rest)
    | [] => none
  law _ _ := rfl

def pair (c : Codec α) (d : Codec β) : Codec (α × β) where
  enc p := c.enc p.1 ++ d.enc p.2
  dec bs :=
    match c.dec bs with
    | none => none
    | some (a, rest) => (d.dec rest).map fun r => ((a, r.1), r.2)
  law p rest := by
    rw [List.append_assoc, c.law]
    change (d.dec (d.enc p.2 ++ rest)).map _ = _
    rw [d.law, Option.map_some]

/-- A choice, marked by a byte. -/
def sum (c : Codec α) (d : Codec β) : Codec (α ⊕ β) where
  enc
    | .inl a => 0 :: c.enc a
    | .inr b => 1 :: d.enc b
  dec
    | 0 :: rest => (c.dec rest).map fun r => (.inl r.1, r.2)
    | 1 :: rest => (d.dec rest).map fun r => (.inr r.1, r.2)
    | _ => none
  law
    | .inl a, rest => by
      change (c.dec (c.enc a ++ rest)).map _ = _
      rw [c.law, Option.map_some]
    | .inr b, rest => by
      change (d.dec (d.enc b ++ rest)).map _ = _
      rw [d.law, Option.map_some]

/-! ## Lists -/

def encList (c : Codec α) : List α → List UInt8
  | [] => [0]
  | a :: as => 1 :: (c.enc a ++ encList c as)

/-- Read elements while a mark announces one, at most as many as the fuel allows. -/
def decList (c : Codec α) : ℕ → List UInt8 → Option (List α × List UInt8)
  | fuel + 1, 1 :: rest =>
    match c.dec rest with
    | none => none
    | some (a, rest) => (decList c fuel rest).map fun r => (a :: r.1, r.2)
  | _ + 1, 0 :: rest => some ([], rest)
  | _, _ => none

theorem decList_encList (c : Codec α) : ∀ (as : List α) (rest : List UInt8) (fuel : ℕ),
    as.length < fuel → decList c fuel (encList c as ++ rest) = some (as, rest)
  | [], _, _ + 1, _ => rfl
  | a :: as, rest, fuel + 1, h => by
    have ih := decList_encList c as rest fuel (by simpa using h)
    simp only [encList, List.cons_append, List.append_assoc, decList, c.law, ih, Option.map_some]

theorem length_lt_encList (c : Codec α) : ∀ as : List α, as.length < (encList c as).length
  | [] => by simp [encList]
  | a :: as => by
    have ih := length_lt_encList c as
    simp only [encList, List.length_cons, List.length_append]
    omega

def list (c : Codec α) : Codec (List α) where
  enc := encList c
  dec bs := decList c bs.length bs
  law as rest := by
    refine decList_encList c as rest _ ?_
    have h := length_lt_encList c as
    rw [List.length_append]
    omega

/-! ## Numbers and text -/

/-- A number as that many marks. -/
def nat : Codec ℕ :=
  (list unit).map List.length (fun n => List.replicate n ()) fun _ => List.length_replicate

/-- The lowest `k` digits in base `b`, lowest first. -/
def digits (b : ℕ) : ℕ → ℕ → List ℕ
  | 0, _ => []
  | k + 1, n => n % b :: digits b k (n / b)

def value (b : ℕ) : List ℕ → ℕ
  | [] => 0
  | d :: ds => d + b * value b ds

theorem length_digits (b : ℕ) : ∀ k n, (digits b k n).length = k
  | 0, _ => rfl
  | k + 1, n => by rw [digits, List.length_cons, length_digits b k]

theorem digits_lt {b : ℕ} (hb : 0 < b) : ∀ k n, ∀ d ∈ digits b k n, d < b
  | 0, _, _, h => by cases h
  | k + 1, n, d, h => by
    rcases List.mem_cons.mp h with rfl | h
    · exact Nat.mod_lt n hb
    · exact digits_lt hb k (n / b) d h

theorem value_digits {b : ℕ} (k n : ℕ) (h : n < b ^ k) : value b (digits b k n) = n := by
  induction k generalizing n with
  | zero =>
    rw [Nat.pow_zero] at h
    rw [digits, value]
    omega
  | succ k ih =>
    have hn : n / b < b ^ k := Nat.div_lt_of_lt_mul (by rwa [Nat.pow_succ'] at h)
    rw [digits, value, ih (n / b) hn, Nat.mod_add_div]

/-- Numbers of `k` bytes. -/
def fixed (k : ℕ) : Codec (Fin (256 ^ k)) where
  enc n := (digits 256 k n).map UInt8.ofNat
  dec bs :=
    if h : value 256 ((bs.take k).map UInt8.toNat) < 256 ^ k then some (⟨_, h⟩, bs.drop k) else none
  law n rest := by
    have hlen : ((digits 256 k n).map UInt8.ofNat).length = k := by
      rw [List.length_map, length_digits]
    have hval : value 256 ((((digits 256 k n).map UInt8.ofNat ++ rest).take k).map UInt8.toNat) = n := by
      rw [List.take_left' hlen, List.map_map]
      have hid : ∀ d ∈ digits 256 k n, (UInt8.toNat ∘ UInt8.ofNat) d = id d := fun d hd =>
        UInt8.toNat_ofNat_of_lt (digits_lt (by decide) k n d hd)
      rw [List.map_congr_left hid, List.map_id, value_digits k n n.2]
    rw [dif_pos (by rw [hval]; exact n.2), List.drop_left' hlen]
    simp only [hval]

def u64 : Codec UInt64 :=
  (fixed 8).map (fun n => UInt64.ofNat n) (fun n => ⟨n.toNat, n.toNat_lt⟩) fun _ => UInt64.ofNat_toNat

theorem toNat_lt_of_char (c : Char) : c.toNat < 256 ^ 3 := by
  have h : c.val.toNat < 0x110000 := by
    rcases c.valid with h | ⟨-, h⟩
    · exact Nat.lt_trans h (by decide)
    · exact h
  exact Nat.lt_trans h (by decide)

/-- A character, by its code point. -/
def char : Codec Char :=
  (fixed 3).map (fun n => Char.ofNat n) (fun c => ⟨c.toNat, toNat_lt_of_char c⟩) Char.ofNat_toNat

def string : Codec String := (list char).map String.ofList String.toList fun _ => String.ofList_toList

example : string.whole (string.enc "a.b") = some "a.b" := by decide

end Codec
