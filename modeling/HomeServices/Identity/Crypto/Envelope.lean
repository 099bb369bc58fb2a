import HomeServices.Identity.Sample

/-!
# Private keys in storage

A private key is stored under the key encryption key, as nonce, ciphertext and tag. A stored key is read only
if it is long enough to have a ciphertext.

* `SealsOpened`: what opens was sealed.
* `encrypt_yields`: what the encryption may return.
* **`envelope_round_trip`**: what is stored reads back, if it is not empty; and nothing else is read.
-/

namespace Identity

open Interaction

section Envelope

variable [Platform]

/-- Under a 256-bit key and a 96-bit nonce, what opens is what sealing gives: the tag is computed again. -/
def SealsOpened : Prop :=
  ∀ key nonce aad sealed plaintext : Bytes, key.length = 32 → nonce.length = 12 →
    openInPlace key nonce aad sealed = some plaintext → sealed = sealInPlace key nonce aad plaintext

/-- An encryption depends on the nonce, and on nothing else that is drawn. -/
theorem encrypt_yields {ε : Type} {err : CryptoError → ε} {kek plaintext aad : Bytes}
    {encrypted : EncryptedKey} :
    (encryptPrivateKey err kek plaintext aad).run.Yields (.ok encrypted) ↔
      kek.length = 32 ∧ ∃ nonce : Bytes, nonce.length = 12 ∧
        encrypted = ⟨nonce ++ sealInPlace kek nonce aad plaintext⟩ := by
  unfold encryptPrivateKey
  simp only [yields_bind_ok, yields_fromExcept, yields_attempt]
  constructor
  · rintro ⟨_, hkek, nonce, ⟨r, hr⟩, he⟩
    split_ifs at hkek with hlen
    cases r with
    | error e => cases hr
    | ok bytes =>
      cases hr
      exact ⟨hlen, nonce.val, nonce.property, (Except.ok.inj he).symm⟩
  · rintro ⟨hlen, nonce, hnonce, rfl⟩
    exact ⟨(), if_pos hlen, ⟨nonce, hnonce⟩, ⟨.ok ⟨nonce, hnonce⟩, rfl⟩, rfl⟩

omit [Platform] in
theorem fromBytes_eq_ok {data : Bytes} {encrypted : EncryptedKey} :
    EncryptedKey.fromBytes data = .ok encrypted ↔ 29 ≤ data.length ∧ encrypted = ⟨data⟩ := by
  unfold EncryptedKey.fromBytes
  split_ifs with hlen
  · constructor
    · intro h
      cases h
    · rintro ⟨hle, -⟩
      omega
  · constructor
    · intro h
      exact ⟨by omega, (Except.ok.inj h).symm⟩
    · rintro ⟨-, rfl⟩
      rfl

/-- What decrypts is nonce and seal of what it decrypts to. -/
theorem data_of_decrypt (hseals : SealsOpened) {kek aad plaintext : Bytes} {encrypted : EncryptedKey}
    (hlen : 12 ≤ encrypted.data.length) (h : decryptPrivateKey kek encrypted aad = .ok plaintext) :
    kek.length = 32 ∧ encrypted.data =
      encrypted.data.take 12 ++ sealInPlace kek (encrypted.data.take 12) aad plaintext := by
  unfold decryptPrivateKey at h
  split_ifs at h with hkek
  cases hopen : openInPlace kek (encrypted.data.take 12) aad (encrypted.data.drop 12) with
  | none =>
    rw [hopen] at h
    cases h
  | some opened =>
    rw [hopen] at h
    cases h
    have hnonce : (encrypted.data.take 12).length = 12 := by
      rw [List.length_take]
      omega
    refine ⟨hkek, ?_⟩
    rw [← hseals kek _ aad _ plaintext hkek hnonce hopen, List.take_append_drop]

/-- **A private key that is not empty reads back from storage; an empty one is refused; and what is read was
encrypted under that key and that additional data.** -/
theorem envelope_round_trip (hopens : OpensSealed) (hseals : SealsOpened) {ε : Type} (err : CryptoError → ε) :
    (∀ (kek : Kek) plaintext aad encrypted, plaintext ≠ [] →
      (encryptPrivateKey err kek.bytes plaintext aad).run.Yields (.ok encrypted) →
      (EncryptedKey.fromBytes encrypted.data).bind (decryptPrivateKey kek.bytes · aad) = .ok plaintext) ∧
    (∀ (kek : Kek) aad encrypted, (encryptPrivateKey err kek.bytes [] aad).run.Yields (.ok encrypted) →
      EncryptedKey.fromBytes encrypted.data = .error .invalidKeyMaterial) ∧
    ∀ data encrypted kek aad plaintext, EncryptedKey.fromBytes data = .ok encrypted →
      decryptPrivateKey kek encrypted aad = .ok plaintext →
      (encryptPrivateKey err kek plaintext aad).run.Yields (.ok ⟨data⟩) := by
  refine ⟨fun kek plaintext aad encrypted hp h => ?_, fun kek aad encrypted h => ?_,
    fun data encrypted kek aad plaintext hdata h => ?_⟩
  · obtain ⟨-, nonce, hnonce, rfl⟩ := encrypt_yields.mp h
    exact decrypt_encrypted hopens kek hnonce hp aad
  · obtain ⟨hkek, nonce, hnonce, rfl⟩ := encrypt_yields.mp h
    have htag := (hopens kek.bytes nonce aad [] hkek hnonce).2
    refine if_pos ?_
    rw [List.length_append, hnonce, htag]
    decide
  · obtain ⟨hle, rfl⟩ := fromBytes_eq_ok.mp hdata
    have hlen : 12 ≤ data.length := by omega
    obtain ⟨hkek, hsealed⟩ := data_of_decrypt hseals hlen h
    have hnonce : (data.take 12).length = 12 := by
      rw [List.length_take]
      omega
    exact encrypt_yields.mpr ⟨hkek, data.take 12, hnonce, congrArg EncryptedKey.mk hsealed⟩

end Envelope

namespace Sample

theorem sealsOpened : SealsOpened := by
  intro key nonce aad sealed plaintext _ _ h
  change openInPlace key nonce aad sealed = some plaintext at h
  unfold openInPlace at h
  dsimp only at h
  split_ifs at h with htag
  change sealed = plaintext ++ tag key nonce aad plaintext
  cases h
  rw [← htag, List.take_append_drop]

def kek : Kek := ⟨List.replicate 32 9, by decide⟩

/-- A private key of three bytes reads back. -/
theorem envelope_three_bytes : ∃ encrypted,
    (encryptPrivateKey id kek.bytes [1, 2, 3] [4]).run.Yields (.ok encrypted) ∧
    (EncryptedKey.fromBytes encrypted.data).bind (decryptPrivateKey kek.bytes · [4]) = .ok [1, 2, 3] := by
  have hyields : (encryptPrivateKey id kek.bytes [1, 2, 3] [4]).run.Yields
      (.ok ⟨List.replicate 12 0 ++ sealInPlace kek.bytes (List.replicate 12 0) [4] [1, 2, 3]⟩) :=
    encrypt_yields.mpr ⟨kek.length_eq, _, rfl, rfl⟩
  exact ⟨_, hyields,
    (envelope_round_trip opensSealed sealsOpened id).1 kek _ _ _ (List.cons_ne_nil _ _) hyields⟩

/-- **An empty private key is encrypted, and is not read back.** -/
theorem empty_plaintext : OpensSealed ∧ SealsOpened ∧ ¬ ∀ (kek : Kek) plaintext aad encrypted,
    (encryptPrivateKey id kek.bytes plaintext aad).run.Yields (.ok encrypted) →
    (EncryptedKey.fromBytes encrypted.data).bind (decryptPrivateKey kek.bytes · aad) = .ok plaintext := by
  refine ⟨opensSealed, sealsOpened, fun h => ?_⟩
  have hyields : (encryptPrivateKey id kek.bytes [] []).run.Yields
      (.ok ⟨List.replicate 12 0 ++ sealInPlace kek.bytes (List.replicate 12 0) [] []⟩) :=
    encrypt_yields.mpr ⟨kek.length_eq, _, rfl, rfl⟩
  have hread := h kek [] [] _ hyields
  have hshort : EncryptedKey.fromBytes (List.replicate 12 0 ++
      sealInPlace kek.bytes (List.replicate 12 0) [] []) = .error .invalidKeyMaterial := rfl
  rw [hshort] at hread
  cases hread

end Sample

end Identity
