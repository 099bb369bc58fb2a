import Mathlib.Data.List.DropRight
import Mathlib.Tactic.Common

/-!
# Hexadecimal text

Two digits a byte, the digits in either case; white space around a text; its UTF-8 bytes.

* `Hex.value`, `Hex.encode`; `Hex.Spells`: a text spells bytes, two digits each.
* **`Hex.spells_iff`**: up to case, the text is the encoding of the bytes.
* `Text.trim`, `Text.trim_append`: white space at the ends is dropped, and only there.
* `Text.utf8`, `Text.utf8_eq_map`, `Text.ascii_of_utf8`: bytes below 128 come from a text of ASCII
  characters.
-/

namespace Hex

variable {α β : Type}

/-! ## Digits -/

/-- The value of a hexadecimal digit. -/
def value (c : Char) : Option ℕ :=
  if '0' ≤ c ∧ c ≤ '9' then some (c.toNat - 48)
  else if 'a' ≤ c ∧ c ≤ 'f' then some (c.toNat - 87)
  else if 'A' ≤ c ∧ c ≤ 'F' then some (c.toNat - 55)
  else none

/-- A property of the characters below 128 is checked one by one. -/
theorem forall_ascii {P : Char → Prop} (h : ∀ n < 128, P (Char.ofNat n)) {c : Char} (hc : c.toNat < 128) :
    P c := by
  have hP := h c.toNat hc
  rwa [Char.ofNat_toNat] at hP

theorem ascii_of_value {c : Char} {n : ℕ} (h : value c = some n) : c.toNat < 128 := by
  unfold value at h
  split_ifs at h with h₁ h₂ h₃
  · exact Nat.lt_of_le_of_lt h₁.2 (by decide)
  · exact Nat.lt_of_le_of_lt h₂.2 (by decide)
  · exact Nat.lt_of_le_of_lt h₃.2 (by decide)

theorem ascii_of_toLower {c : Char} (h : c.toLower.toNat < 128) : c.toNat < 128 := by
  unfold Char.toLower at h
  split_ifs at h with hc
  · exact Nat.lt_of_le_of_lt hc.2 (by decide)
  · exact h

/-- **A digit has a value if it is the digit of that value, up to case.** -/
theorem value_eq_some {c : Char} {n : ℕ} (hn : n < 16) : value c = some n ↔ c.toLower = Nat.digitChar n := by
  have hall : ∀ m < 128, ∀ n < 16,
      value (Char.ofNat m) = some n ↔ (Char.ofNat m).toLower = Nat.digitChar n := by
    decide +kernel
  have hdigit : ∀ n < 16, (Nat.digitChar n).toNat < 128 := by decide
  constructor
  · intro h
    exact (forall_ascii (P := fun c => ∀ n < 16, value c = some n ↔ c.toLower = Nat.digitChar n) hall
      (ascii_of_value h) n hn).mp h
  · intro h
    have hc : c.toNat < 128 := ascii_of_toLower (by rw [h]; exact hdigit n hn)
    exact (forall_ascii (P := fun c => ∀ n < 16, value c = some n ↔ c.toLower = Nat.digitChar n) hall
      hc n hn).mpr h

/-! ## Texts -/

/-- The digits spell the bytes: two each, the high one first. -/
inductive Spells (value : α → Option ℕ) : List α → List UInt8 → Prop
  | nil : Spells value [] []
  | cons {hi lo : α} {cs : List α} {b : UInt8} {bs : List UInt8} : value hi = some (b.toNat / 16) →
      value lo = some (b.toNat % 16) → Spells value cs bs → Spells value (hi :: lo :: cs) (b :: bs)

theorem Spells.length {value : α → Option ℕ} {cs : List α} {bs : List UInt8} (h : Spells value cs bs) :
    cs.length = 2 * bs.length := by
  induction h with
  | nil => rfl
  | cons _ _ _ ih =>
    simp only [List.length_cons, ih]
    omega

/-- All digits have values. -/
theorem Spells.value_ne_none {value : α → Option ℕ} {cs : List α} {bs : List UInt8} (h : Spells value cs bs) :
    ∀ c ∈ cs, ∃ n, value c = some n := by
  induction h with
  | nil => exact fun c hc => by cases hc
  | cons hhi hlo _ ih =>
    intro c hc
    rcases List.mem_cons.mp hc with rfl | hc
    · exact ⟨_, hhi⟩
    rcases List.mem_cons.mp hc with rfl | hc
    · exact ⟨_, hlo⟩
    · exact ih c hc

/-- Digits of another alphabet spell the same bytes. -/
theorem Spells.map {value : α → Option ℕ} {value' : β → Option ℕ} {f : α → β} {cs : List α} {bs : List UInt8}
    (h : Spells value cs bs) (hf : ∀ c ∈ cs, value' (f c) = value c) : Spells value' (cs.map f) bs := by
  induction h with
  | nil => exact .nil
  | cons hhi hlo _ ih =>
    refine .cons ?_ ?_ (ih fun c hc => hf c (List.mem_cons_of_mem _ (List.mem_cons_of_mem _ hc)))
    · rw [hf _ List.mem_cons_self, hhi]
    · rw [hf _ (List.mem_cons_of_mem _ List.mem_cons_self), hlo]

theorem Spells.of_map {value : α → Option ℕ} {value' : β → Option ℕ} {f : α → β} : ∀ {cs : List α}
    {bs : List UInt8}, Spells value' (cs.map f) bs → (∀ c ∈ cs, value' (f c) = value c) → Spells value cs bs
  | [], _, h, _ => by
    cases h
    exact .nil
  | [_], _, h, _ => by cases h
  | hi :: lo :: cs, _, h, hf => by
    cases h with
    | cons hhi hlo h =>
      refine .cons ?_ ?_ (h.of_map fun c hc => hf c (List.mem_cons_of_mem _ (List.mem_cons_of_mem _ hc)))
      · rw [← hf _ List.mem_cons_self, hhi]
      · rw [← hf _ (List.mem_cons_of_mem _ List.mem_cons_self), hlo]

/-- The lower-case encoding of bytes. -/
def encode (bs : List UInt8) : List Char :=
  bs.flatMap fun b => [Nat.digitChar (b.toNat / 16), Nat.digitChar (b.toNat % 16)]

/-- **A text spells bytes if it is their encoding, up to case.** -/
theorem spells_iff {cs : List Char} {bs : List UInt8} :
    Spells value cs bs ↔ cs.map Char.toLower = encode bs := by
  constructor
  · intro h
    induction h with
    | nil => rfl
    | @cons hi lo cs b bs hhi hlo _ ih =>
      have hb := b.toNat_lt
      rw [value_eq_some (by omega)] at hhi hlo
      rw [List.map_cons, List.map_cons, hhi, hlo, ih]
      rfl
  · induction bs generalizing cs with
    | nil =>
      intro h
      obtain rfl := List.map_eq_nil_iff.mp h
      exact .nil
    | cons b bs ih =>
      intro h
      have hb := b.toNat_lt
      obtain ⟨hi, rest, rfl, hhi, hrest⟩ := List.map_eq_cons_iff.mp h
      obtain ⟨lo, cs, rfl, hlo, hcs⟩ := List.map_eq_cons_iff.mp hrest
      exact .cons ((value_eq_some (by omega)).mpr hhi) ((value_eq_some (by omega)).mpr hlo) (ih hcs)

end Hex

namespace Text

/-! ## White space -/

/-- The characters with Unicode's property `White_Space`. -/
def isWhitespace (c : Char) : Bool :=
  (0x09 ≤ c.toNat && c.toNat ≤ 0x0d) || c.toNat == 0x20 || c.toNat == 0x85 || c.toNat == 0xa0 ||
    c.toNat == 0x1680 || (0x2000 ≤ c.toNat && c.toNat ≤ 0x200a) || c.toNat == 0x2028 ||
    c.toNat == 0x2029 || c.toNat == 0x202f || c.toNat == 0x205f || c.toNat == 0x3000

/-- A text without the white space at its ends. -/
def trim (s : String) : String :=
  String.ofList ((s.toList.dropWhile isWhitespace).rdropWhile isWhitespace)

/-- White space around a text that has none is dropped. -/
theorem trim_append {before text after : List Char} (hbefore : ∀ c ∈ before, isWhitespace c = true)
    (htext : ∀ c ∈ text, isWhitespace c = false) (hafter : ∀ c ∈ after, isWhitespace c = true) :
    trim (String.ofList (before ++ text ++ after)) = String.ofList text := by
  have hleft : (before ++ (text ++ after)).dropWhile isWhitespace = (text ++ after).dropWhile isWhitespace :=
    List.dropWhile_append_of_pos hbefore
  have hrest : ((text ++ after).dropWhile isWhitespace).rdropWhile isWhitespace = text := by
    cases text with
    | nil =>
      rw [List.nil_append, List.dropWhile_eq_nil_iff.mpr hafter]
      rfl
    | cons c cs =>
      have hc : ¬ isWhitespace c = true := Bool.eq_false_iff.mp (htext c List.mem_cons_self)
      rw [List.cons_append, List.dropWhile_cons_of_neg hc, ← List.cons_append, List.rdropWhile,
        List.reverse_append, List.dropWhile_append_of_pos fun a ha => hafter a (List.mem_reverse.mp ha)]
      have hstop : (c :: cs).reverse.dropWhile isWhitespace = (c :: cs).reverse := by
        refine List.dropWhile_eq_self_iff.mpr fun hl => ?_
        rw [htext _ (List.mem_reverse.mp (List.getElem_mem hl))]
        exact Bool.false_ne_true
      rw [hstop, List.reverse_reverse]
  rw [trim, String.toList_ofList, List.append_assoc, hleft, hrest]

/-! ## UTF-8 -/

/-- The UTF-8 bytes of characters. -/
def utf8 (cs : List Char) : List UInt8 := cs.flatMap String.utf8EncodeChar

theorem utf8_eq_map {cs : List Char} (h : ∀ c ∈ cs, c.toNat < 128) :
    utf8 cs = cs.map fun c => UInt8.ofNat c.toNat := by
  have hone : ∀ c ∈ cs, String.utf8EncodeChar c = [UInt8.ofNat c.toNat] := by
    intro c hc
    have hle : c.val.toNat ≤ 0x7f := Nat.le_of_lt_succ (h c hc)
    unfold String.utf8EncodeChar
    exact if_pos hle
  rw [utf8, List.flatMap_congr hone, List.map_eq_flatMap]

/-- The first byte of a character outside ASCII is not below 128. -/
theorem ascii_of_utf8 {cs : List Char} (h : ∀ b ∈ utf8 cs, b.toNat < 128) : ∀ c ∈ cs, c.toNat < 128 := by
  intro c hc
  have hbytes : ∀ b ∈ String.utf8EncodeChar c, b.toNat < 128 := fun b hb =>
    h b (List.mem_flatMap.mpr ⟨c, hc, hb⟩)
  change c.val.toNat < 128
  unfold String.utf8EncodeChar at hbytes
  by_contra hlarge
  dsimp only at hbytes
  split_ifs at hbytes
  · omega
  all_goals
    have hfirst := hbytes _ List.mem_cons_self
    rw [UInt8.toNat_ofNat_of_lt' (by simp only [UInt8.size]; omega)] at hfirst
    omega

end Text
