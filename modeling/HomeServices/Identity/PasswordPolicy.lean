import HomeServices.Identity.Execution
import HomeServices.Identity.SignedTokens

/-!
# The length of passwords

The validator counts bytes, the policy is about characters.

* `chosen`, `Measured`: the password that a request sets, and when counting its bytes does for counting
  its characters.
* `SetsHash`, `setsHash_of_wrote`: the hashes that a commit writes.
* **`hashes_reachable`**: every stored hash is that of a password of the right length.
* **`password_policy`**: so is every password that a check can succeed with.
-/

namespace Identity

open ReadCommitted Interaction

section Policy

/-! ## Bytes and characters -/

theorem length_le_flatMap_utf8 : ∀ cs : List Char, cs.length ≤ (cs.flatMap String.utf8EncodeChar).length
  | [] => Nat.le_refl 0
  | c :: cs => by
    have ih := length_le_flatMap_utf8 cs
    have hpos := c.utf8Size_pos
    rw [List.flatMap_cons, List.length_append, List.length_cons, String.length_utf8EncodeChar]
    omega

/-- A text has at most as many characters as bytes. -/
theorem length_le_utf8ByteSize (s : String) : s.length ≤ s.utf8ByteSize := by
  have hbytes := asBytes_ofList s.toList
  rw [String.ofList_toList] at hbytes
  have hsize : (asBytes s).length = s.utf8ByteSize := rfl
  rw [← hsize, hbytes, ← String.length_toList]
  exact length_le_flatMap_utf8 s.toList

/-- 8 to 128 characters. -/
def Sized (password : String) : Prop := 8 ≤ password.length ∧ password.length ≤ 128

/-- Eight bytes are eight characters. -/
def Measured (password : String) : Prop := 8 ≤ password.utf8ByteSize → 8 ≤ password.length

instance (password : String) : Decidable (Sized password) := inferInstanceAs (Decidable (_ ∧ _))

instance (password : String) : Decidable (Measured password) := inferInstanceAs (Decidable (_ → _))

theorem validatePassword_iff {password : String} :
    validatePassword password = .ok () ↔ 8 ≤ password.utf8ByteSize ∧ password.utf8ByteSize ≤ 128 := by
  unfold validatePassword
  split_ifs with hshort hlong
  · exact iff_of_false (fun h => by cases h) fun h => absurd h.1 (not_le.mpr hshort)
  · exact iff_of_false (fun h => by cases h) fun h => absurd h.2 (not_le.mpr hlong)
  · exact iff_of_true rfl ⟨not_lt.mp hshort, not_lt.mp hlong⟩

theorem sized_of_validate {password : String} (hmeasured : Measured password)
    (h : validatePassword password = .ok ()) : Sized password := by
  obtain ⟨hlo, hhi⟩ := validatePassword_iff.mp h
  exact ⟨hmeasured hlo, (length_le_utf8ByteSize password).trans hhi⟩

/-! ## Where hashes come from -/

/-- The password that a request sets. -/
def chosen : Request → Option String
  | .signUp _ _ _ _ password => password
  | .updatePassword _ _ newPassword => some newPassword
  | _ => none

variable [Platform]

/-- A password is accepted only by the hashes that it was hashed to. -/
def VerifiesOnlyHashed : Prop := ∀ password password' salt hash,
  hashPassword password salt = .ok hash → verifyPassword password' hash = .ok () → password' = password

/-- A hash of a password of the right length. -/
def SizedHash (hash : String) : Prop := ∃ password salt, Sized password ∧ hashPassword password salt = .ok hash

/-- A write that keeps the hash of the user it replaces, or writes one of a password of the right
length. -/
def SetsHash (w : Write Row) : Prop := ∀ v, w.new = .user v →
  (∃ u, w.old = some (.user u) ∧ v.passwordHash = u.passwordHash) ∨ SizedHash v.passwordHash

/-- The hashes of the users. -/
def SizedHashes (db : List Row) : Prop := ∀ u, .user u ∈ db → SizedHash u.passwordHash

theorem sizedHashes_applyAll : ∀ {ws : List (Write Row)} {db : List Row}, SizedHashes db →
    ValidAll db ws → (∀ w ∈ ws, SetsHash w) → SizedHashes (applyAll ws db)
  | [], _, hdb, _, _ => hdb
  | w :: ws, db, hdb, hv, hw => by
    change SizedHashes (applyAll ws (w.apply db))
    refine sizedHashes_applyAll ?_ hv.2 fun w' hw' => hw w' (List.mem_cons_of_mem _ hw')
    intro v hmem
    rcases hv.1.mem_apply.mp hmem with hnew | ⟨hold, -⟩
    · rcases hw w List.mem_cons_self v hnew.symm with ⟨u, hu, hhash⟩ | hsized
      · have hvalid := hv.1
        rw [Valid, hu] at hvalid
        rw [hhash]
        exact hdb u hvalid.1
      · exact hsized
    · exact hdb v hold

variable {dep : Deployment} {h : Hist} {req : Request} {ws : List (Write Row)}

/-- A commit writes only hashes of passwords that its request set, and that were validated. -/
theorem setsHash_of_wrote (hw : Wrote dep h req ws) (hreq : ∀ password ∈ chosen req, Measured password) :
    ∀ w ∈ ws, SetsHash w := by
  intro w hmem v hnew
  cases hw with
  | signingKey | login | setKeyStatus | markPublished =>
    simp only [List.mem_singleton] at hmem
    subst hmem
    cases hnew
  | signUp hval hhash =>
    simp only [List.mem_cons, List.not_mem_nil, or_false] at hmem
    rcases hmem with rfl | rfl | rfl <;> cases hnew
    exact Or.inr ⟨_, _, sized_of_validate (hreq _ rfl) hval, hhash⟩
  | resendVerification =>
    simp only [List.mem_cons, List.not_mem_nil, or_false] at hmem
    rcases hmem with rfl | rfl <;> cases hnew
  | verifyEmail =>
    simp only [List.mem_cons, List.not_mem_nil, or_false] at hmem
    rcases hmem with rfl | rfl <;> cases hnew
    exact Or.inl ⟨_, rfl, rfl⟩
  | updateProfile | setUserStatus | softDelete =>
    simp only [List.mem_singleton] at hmem
    subst hmem
    cases hnew
    exact Or.inl ⟨_, rfl, rfl⟩
  | updatePassword hval _ _ _ hhash _ hws =>
    rcases List.mem_append.mp hmem with hmem | hmem
    · rcases hws with ⟨rfl, -⟩ | ⟨u, -, -, -, rfl⟩
      · cases hmem
      · obtain rfl := List.mem_singleton.mp hmem
        cases hnew
        exact Or.inr ⟨_, _, sized_of_validate (hreq _ rfl) hval, hhash⟩
    · obtain rfl := List.mem_singleton.mp hmem
      cases hnew

/-! ## The policy -/

/-- Every request that sets a password sets one whose bytes count for its characters. -/
def Measuring (req : Request) : Prop := ∀ password ∈ chosen req, Measured password

variable {clock : ℕ} {c : State}

/-- **Every stored hash is that of a password of the right length.** -/
theorem hashes_reachable (hc : Reachable (machine dep (.of Measuring)) (boot [] clock) c) :
    SizedHashes c.glob.db := by
  have hempty : UniqueKeys ([] : List Row) := List.Pairwise.nil
  refine db_invariant hempty (fun u hu => by cases hu) ?_ hc
  intro c i t ws _ _ hsized hw
  exact sizedHashes_applyAll hsized hw.valid (setsHash_of_wrote hw.wrote hw.allowed)

/-- The check of `login` and of `update_password` accepts the password for some user. -/
def Accepts (db : List Row) (password : String) : Prop :=
  ∃ u, .user u ∈ db ∧ verifyPassword password u.passwordHash = .ok ()

theorem sized_of_accepts (hverify : VerifiesOnlyHashed)
    (hc : Reachable (machine dep (.of Measuring)) (boot [] clock) c) {password : String}
    (h : Accepts c.glob.db password) : Sized password := by
  obtain ⟨u, hu, hok⟩ := h
  obtain ⟨password', salt, hsized, hhash⟩ := hashes_reachable hc u hu
  rw [hverify password' password salt u.passwordHash hhash hok]
  exact hsized

/-- **A password that a check can succeed with has 8 to 128 characters**, if bytes count for characters in
those that were set. -/
theorem password_policy (hverify : VerifiesOnlyHashed)
    (hc : Reachable (machine dep (.of Measuring)) (boot [] clock) c) :
    ∀ password, Accepts c.glob.db password → Sized password :=
  fun _ h => sized_of_accepts hverify hc h

/-- So has the password of a login that succeeded. -/
theorem sized_of_login (hverify : VerifiesOnlyHashed)
    (hc : Reachable (machine dep (.of Measuring)) (boot [] clock) c) {i : ℕ} {l : Session} {h : Hist}
    {email password : String} {result : LoginResult}
    (ht : c.thread i = some ⟨l, .ret (.login (.ok result)), h⟩) (hreq : l.request = .login email password) :
    Sized password := by
  have hempty : UniqueKeys ([] : List Row) := List.Pairwise.nil
  have hpost := post_of_return hempty hc ht
  rw [hreq] at hpost
  obtain ⟨u, k, key, now, jti, idJti, hauth, -, -⟩ := hpost
  obtain ⟨g, hsaw, hu⟩ := hauth.sawUser
  obtain ⟨c₁, hc₁, rfl, -⟩ := past_of_saw hc ht hsaw
  exact sized_of_accepts hverify hc₁ ⟨u, hu, hauth.verified⟩

end Policy

/-! ## Samples -/

namespace Sample

theorem verifiesOnlyHashed : VerifiesOnlyHashed := by
  intro password password' salt hash hhash hok
  have hash_eq : hash = String.ofList ('$' :: password.toList) := by
    cases hhash
    rfl
  unfold verifyPassword at hok
  split_ifs at hok with hvalid hverify
  have hverify : hash.toList = '$' :: password'.toList := of_decide_eq_true hverify
  rw [hash_eq, String.toList_ofList] at hverify
  exact String.toList_inj.mp (List.cons.inj hverify).2.symm

instance : DecidablePred Measuring := fun req =>
  inferInstanceAs (Decidable (∀ password ∈ chosen req, Measured password))

/-- A sign-up with this password. -/
def signUpWith (password : String) : List Command :=
  call 0 (.signUp "ada" "ada@home" "Ada" "Lovelace" (some password))
    ([fine, fine, { uuid := 1 }, { uuid := 2 }, { uuid := 3 }, { bytes := rawToken 5 }] ++
      List.replicate 9 fine)

/-- After a sign-up, the password can be checked, and has the right length. -/
theorem password_policy_signUp : ∃ c,
    execute deployment (.of Measuring) (boot [] 0) (signUpWith "password") = some c ∧
    Accepts c.glob.db "password" ∧ ∀ password, Accepts c.glob.db password → Sized password := by
  have hrun : (execute deployment (.of Measuring) (boot [] 0) (signUpWith "password")).any
      (fun c => (users c.glob.db).any fun u => u.passwordHash = "$password") = true := by decide +kernel
  obtain ⟨c, hexec, hc, hend⟩ := Driver.exists_of_execute hrun
  obtain ⟨u, hu, hhash⟩ := List.any_eq_true.mp hend
  refine ⟨c, hexec, ⟨u, mem_users.mp hu, ?_⟩, password_policy verifiesOnlyHashed hc⟩
  rw [of_decide_eq_true hhash]
  decide

/-- Four characters of two bytes each are accepted as a password. -/
theorem short_password : ∃ c, Reachable (machine deployment (.of fun _ => True)) (boot [] 0) c ∧
    Accepts c.glob.db "éééé" ∧ ¬ Sized "éééé" := by
  have hrun : (execute deployment (.of fun _ => True) (boot [] 0) (signUpWith "éééé")).any
      (fun c => (users c.glob.db).any fun u => u.passwordHash = "$éééé") = true := by decide +kernel
  obtain ⟨c, -, hc, hend⟩ := Driver.exists_of_execute hrun
  obtain ⟨u, hu, hhash⟩ := List.any_eq_true.mp hend
  refine ⟨c, hc, ⟨u, mem_users.mp hu, ?_⟩, by decide⟩
  rw [of_decide_eq_true hhash]
  decide

end Sample

end Identity
