import HomeServices.Identity.Runs

/-!
# The key table

What `ensure_signing_key` stores: a private key sealed under the KEK with its `kid`, beside the JWK
of its public key. Operators change nothing but its status.

* `WrittenKey`, `KeyTable`, **`keyTable_reachable`**: the rows of the table, in every run.
* `opened_written`: a stored key opens to the pair its JWK publishes.
* `publicJwks`, `publicJwks_parse`: the published keys parse, and are found by `kid` until revoked.
-/

namespace Identity

open ReadCommitted Interaction

variable [Platform]

/-- The row of a key that `ensure_signing_key` wrote under the deployment's KEK. -/
def WrittenKey (dep : Deployment) (k : StoredKey) : Prop :=
  ∃ pkcs8 nonce jwk, nonce.length = 12 ∧ publicJwkFromPkcs8 k.kid .ES256 pkcs8 = .ok jwk ∧
    k.algorithm = Algorithm.ES256.asStr ∧
    k.encryptedPrivateKey =
      nonce ++ sealInPlace dep.kek.bytes nonce (asBytes k.kid) pkcs8 ∧
    k.publicJwk = jwk.toJson

/-- Every key of the table was written by `ensure_signing_key`; operators may have changed its status. -/
def KeyTable (dep : Deployment) (db : List Row) : Prop := ∀ k, .key k ∈ db → WrittenKey dep k

variable {dep : Deployment} {scope : Scope} {db : List Row} {clock : ℕ} {c : State}

theorem keyTable_nil : KeyTable dep [] := fun _ h => by cases h

/-- A key after a commit was there under some status, or is inserted by it. -/
theorem key_of_commit {i : ℕ} {th : Thread Op Resp Session World Reply} {ws : List (Write Row)}
    (hw : MayCommit dep scope (boot db clock) c i th ws) {k : StoredKey}
    (hk : .key k ∈ applyAll ws c.glob.db) :
    (∃ status, .key { k with status } ∈ c.glob.db) ∨ WrittenKey dep k := by
  obtain ⟨-, -, hwrote, -, hvalid, -⟩ := hw
  have hsame : .key k ∈ c.glob.db → ∃ status, .key { k with status } ∈ c.glob.db := fun h =>
    ⟨k.status, h⟩
  generalize th.loc.request = req at hwrote
  cases hwrote with
  | @signingKey pkcs8 nonce id jwk now _ hnonce hjwk =>
    rcases List.mem_append.mp hk with hk | hk
    · exact Or.inl (hsame hk)
    · cases List.mem_singleton.mp hk
      exact Or.inr ⟨pkcs8, nonce, jwk, hnonce, hjwk, rfl, rfl, rfl⟩
  | @setKeyStatus kid status j hj =>
    have hmem := hvalid.1.1
    rcases (mem_apply_upd hmem).mp hk with hk | ⟨hk, -⟩
    · cases hk
      exact Or.inl ⟨j.status, hmem⟩
    · exact Or.inl (hsame hk)
  | signUp | resendVerification | login =>
    exact Or.inl (hsame (by simpa using hk))
  | @verifyEmail _ _ _ t u =>
    have hu := hvalid.2.1.1
    have hk := (mem_upd_of_ne hu Row.noConfusion Ref.noConfusion).mp hk
    exact Or.inl (hsame ((mem_upd_of_ne hvalid.1.1 Row.noConfusion Ref.noConfusion).mp hk))
  | @updatePassword _ _ _ _ _ _ _ _ _ _ _ _ _ ws _ _ _ _ _ _ hws =>
    rw [applyAll_append] at hk
    have hk : .key k ∈ applyAll ws c.glob.db := by simpa using hk
    rcases hws with ⟨rfl, -⟩ | ⟨v, -, -, -, rfl⟩
    · exact Or.inl (hsame hk)
    · have hv := (validAll_append.mp hvalid).1.1.1
      exact Or.inl (hsame ((mem_upd_of_ne hv Row.noConfusion Ref.noConfusion).mp hk))
  | updateProfile | setUserStatus | softDelete | markPublished =>
    exact Or.inl (hsame ((mem_upd_of_ne hvalid.1.1 Row.noConfusion Ref.noConfusion).mp hk))

/-- **Runs keep the key table.** -/
theorem keyTable_reachable (hdb : UniqueKeys db) (hkeys : KeyTable dep db)
    (hc : Reachable (machine dep scope) (boot db clock) c) : KeyTable dep c.glob.db := by
  refine db_invariant hdb hkeys (fun c i t ws _ _ ih hw k hk => ?_) hc
  rcases key_of_commit hw hk with ⟨status, hold⟩ | hnew
  · exact (show WrittenKey dep k from ih { k with status } hold)
  · exact hnew

/-- The JWK of a written key parses. -/
theorem jwk_of_written {k : StoredKey} (hk : WrittenKey dep k) :
    ∃ jwk, Jwk.ofJson k.publicJwk = some jwk ∧ jwk.kid = k.kid := by
  obtain ⟨pkcs8, nonce, jwk, -, hjwk, -, -, hpub⟩ := hk
  obtain ⟨-, -, hkid, -⟩ := point_of_publicJwk hjwk
  exact ⟨jwk, by rw [hpub, Jwk.ofJson_toJson], hkid⟩

/-- A written key that opens is the pair its JWK publishes. -/
theorem opened_written (hopens : OpensSealed) {k : StoredKey} {key : ActiveSigningKey}
    (hk : WrittenKey dep k) (hkey : openSigningKey dep.kek k = .ok key) :
    ∃ jwk, Jwk.ofJson k.publicJwk = some jwk ∧ jwk.kid = k.kid ∧ key.kid = k.kid ∧
      key.algorithm = .ES256 ∧ key.keyPair.algorithm = .ES256 ∧
      jwk.point = .ok key.keyPair.point := by
  obtain ⟨pkcs8, nonce, jwk, hnonce, hjwk, halg, henc, hpub⟩ := hk
  obtain ⟨keyPair, hpair, hkid, hpoint⟩ := point_of_publicJwk hjwk
  simp only [openSigningKey, bind_eq_ok, halg, Algorithm.parse_asStr, Except.ok.injEq,
    exists_eq_left', orError_eq_ok] at hkey
  obtain ⟨encrypted, hfrom, pkcs8', hdec, keyPair', hpair', hkey⟩ := hkey
  cases hkey
  have hne : pkcs8 ≠ [] := by
    rintro rfl
    have htag := (hopens dep.kek.bytes nonce (asBytes k.kid) [] dep.kek.length_eq hnonce).2
    have hlen : k.encryptedPrivateKey.length = 28 := by
      rw [henc, List.length_append, hnonce, htag, List.length_nil]
    rw [EncryptedKey.fromBytes, if_pos (by omega)] at hfrom
    cases hfrom
  have hopen := decrypt_encrypted hopens dep.kek hnonce hne (asBytes k.kid)
  rw [← henc, hfrom] at hopen
  obtain rfl : pkcs8' = pkcs8 := Except.ok.inj (hdec.symm.trans hopen)
  obtain rfl : keyPair' = keyPair := Option.some.inj (hpair'.symm.trans hpair)
  exact ⟨jwk, by rw [hpub, Jwk.ofJson_toJson], hkid, rfl, rfl, (fromPkcs8_eq_some hpair).1, hpoint⟩

omit [Platform] in
/-- Among keys that parse, a JWK is found by the `kid` of its row. -/
theorem find_mapM : ∀ {ks : List StoredKey},
    (∀ k ∈ ks, ∃ jwk, Jwk.ofJson k.publicJwk = some jwk ∧ jwk.kid = k.kid) →
    ∃ jwks, (ks.map StoredKey.publicJwk).mapM Jwk.ofJson = some jwks ∧ ∀ kid,
      jwks.find? (fun jwk => jwk.kid = kid) =
        (ks.find? fun k => k.kid = kid).bind fun k => Jwk.ofJson k.publicJwk
  | [], _ => ⟨[], rfl, fun _ => rfl⟩
  | k :: ks, h => by
    obtain ⟨jwk, hjwk, hkid⟩ := h k List.mem_cons_self
    obtain ⟨jwks, hjwks, hfind⟩ := find_mapM fun j hj => h j (List.mem_cons_of_mem _ hj)
    refine ⟨jwk :: jwks, ?_, fun kid => ?_⟩
    · rw [List.map_cons, List.mapM_cons, hjwk, hjwks]
      rfl
    · rw [List.find?_cons, List.find?_cons, hkid]
      cases decide (k.kid = kid) with
      | true => exact hjwk.symm
      | false => exact hfind kid

/-- The key with this `kid` is in the table and not revoked. -/
def Unrevoked (kid : String) (db : List Row) : Prop :=
  ∃ k, .key k ∈ db ∧ k.kid = kid ∧ k.status ≠ "revoked"

/-- What `list_public_jwks` reads. -/
def publicJwks (db : List Row) : List Json :=
  ((signingKeys db).filter fun k => k.status ≠ "revoked").map StoredKey.publicJwk

/-- The published keys parse; one is found by `kid` when its row is not revoked. -/
theorem publicJwks_parse (hdb : UniqueKeys db) (hkeys : KeyTable dep db) :
    ∃ jwks, (publicJwks db).mapM Jwk.ofJson = some jwks ∧
      (∀ k, .key k ∈ db → k.status ≠ "revoked" →
        jwks.find? (fun jwk => jwk.kid = k.kid) = Jwk.ofJson k.publicJwk) ∧
      ∀ kid, ¬ Unrevoked kid db → jwks.find? (fun jwk => jwk.kid = kid) = none := by
  have hread : ∀ k ∈ (signingKeys db).filter fun k => k.status ≠ "revoked",
      ∃ jwk, Jwk.ofJson k.publicJwk = some jwk ∧ jwk.kid = k.kid := fun k hk => by
    exact jwk_of_written (hkeys k (mem_signingKeys.mp (List.mem_of_mem_filter hk)))
  obtain ⟨jwks, hjwks, hfind⟩ := find_mapM hread
  refine ⟨jwks, hjwks, fun k hk hstatus => ?_, fun kid hnone => ?_⟩
  · have hmem : k ∈ (signingKeys db).filter fun k => k.status ≠ "revoked" :=
      List.mem_filter.mpr ⟨mem_signingKeys.mpr hk, by simpa using hstatus⟩
    rw [hfind]
    cases hf : ((signingKeys db).filter fun k => k.status ≠ "revoked").find? fun j => j.kid = k.kid with
    | none => exact absurd (List.find?_eq_none.mp hf k hmem) (by simp)
    | some j =>
      have hj := mem_signingKeys.mp (List.mem_of_mem_filter (List.mem_of_find?_eq_some hf))
      have hkid : j.kid = k.kid := by simpa using List.find?_some hf
      rw [key_unique hdb hj hk hkid]
      rfl
  · have hf : ((signingKeys db).filter fun k => k.status ≠ "revoked").find? (fun j => j.kid = kid) =
        none := by
      refine List.find?_eq_none.mpr fun k hk => ?_
      obtain ⟨hmem, hstatus⟩ := List.mem_filter.mp hk
      have hkid : k.kid ≠ kid := fun h =>
        hnone ⟨k, mem_signingKeys.mp hmem, h, of_decide_eq_true hstatus⟩
      simpa using hkid
    rw [hfind, hf]
    rfl

end Identity
