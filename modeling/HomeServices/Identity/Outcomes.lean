import HomeServices.Identity.Traceless

/-!
# What a call that succeeded has done

`update_profile` and `update_password` do not look at the number of rows their UPDATE changed.

* `ends_of_return`: what a handler ends with holds of its calls in every run.
* `findsLive`: the UPDATE of a call finds a live row.
* `ProfileUpdated`, `PasswordUpdated`, `Announces`: what a success reports.
* **`updates_took_effect`**: in runs whose UPDATEs find live rows, a success was one.
-/

namespace Identity

open ReadCommitted Interaction

section Outcomes

variable [Platform]

/-! ## Calls that returned -/

variable {dep : Deployment} {scope : Scope} {db : List Row} {clock : ℕ} {c : State} {i : ℕ} {l : Session}
  {h : Hist}

/-- **What every handler ends with holds of the calls that returned.** -/
theorem ends_of_return {Q : Request → Hist → Reply → Prop}
    (hQ : ∀ i req, Ends (fun h _ r => Q req h r) [] ⟨i, req, none⟩ (handler dep req))
    (hc : Reachable (machine dep scope) (boot db clock) c) {r : Reply}
    (ht : c.thread i = some ⟨l, .ret r, h⟩) : Q l.request h r := by
  refine safe_reachable (Q := fun h l r => Q l.request h r) (I := fun _ _ => True)
    (C := fun _ _ _ _ => True) (fun _ _ _ _ _ => trivial) (fun _ => rfl) ?_
    (fun _ _ _ _ _ hag => by cases hag) hc i _ ht
  rintro i l p ⟨req, -, rfl, rfl⟩
  have hkeep := (hQ i req).keep (J := fun l => l.request = req)
    (fun _ _ _ _ _ _ _ hp hl => (performs_effects hp).request_eq.trans hl) rfl
  refine Safe.weaken (fun _ _ _ _ _ _ _ hst => hst.1) (hkeep.mono fun h l r hq => ?_)
  rw [hq.2]
  exact hq.1

/-- An entry of a run was performed in one of its states. -/
theorem entry_of_mem (hc : Reachable (machine dep scope) (boot db clock) c)
    {t : Thread Op Resp Session World Reply} (ht : c.thread i = some t) {e : Event} (he : e ∈ t.hist) :
    Performs e.op e.loc e.pre e.resp e.loc' e.post ∧
      ∃ h, Happened c i e h ∧ scope.guard h e.op e.loc e.pre := by
  obtain ⟨h, htook⟩ := exists_took he
  have hstep := entry_step hc (fun _ => rfl) ⟨t, ht, htook⟩
  exact ⟨hstep.1, h, ⟨t, ht, htook⟩, hstep.2⟩

/-- An acknowledged statement outside a transaction was applied. -/
theorem performs_autocommit_ok {s : Sql} {l l' : Session} {g g' : World} {a : s.Out} (hl : l.tx = none)
    (h : Performs (.sql s) l g (.ok a) l' g') : ∃ pick, (s.exec g.clock pick g.db).result = .ok a ∧
      g'.db = applyAll (s.exec g.clock pick g.db).writes g.db := by
  obtain ⟨ch, h⟩ := h
  simp only [perform, hl] at h
  split_ifs at h with hf hfree hf'
  · cases h
  · cases hres : (s.exec g.clock ch.pick g.db).result with
    | error e => simp only [hres] at h; cases h
    | ok b => simp only [hres] at h; cases h
  · cases hres : (s.exec g.clock ch.pick g.db).result with
    | error e => simp only [hres] at h; cases h
    | ok b =>
      simp only [hres] at h
      cases h
      exact ⟨ch.pick, hres, rfl⟩

/-! ## Updates of live rows -/

/-- There is a live row with the id. -/
def Live (userId : Uuid) (db : List Row) : Prop := ∃ u, .user u ∈ db ∧ u.id = userId ∧ u.deletedAt = none

/-- The UPDATE of a profile or a password finds a live row. -/
def FindsLive (g : World) : Op → Prop
  | .sql (.updateProfile userId _ _ _) | .sql (.updatePassword userId _) => Live userId g.db
  | _ => True

/-- Every UPDATE finds a live row. -/
def targeted (allowed : Request → Prop) : Scope where
  allowed
  guard _ o _ g := FindsLive g o

/-- The row of a profile after its UPDATE. -/
def StoredUser.withProfile (u : StoredUser) (givenName familyName username : Option String) (now : ℕ) :
    StoredUser :=
  { u with
    givenName := givenName.getD u.givenName
    familyName := familyName.getD u.familyName
    username := username.getD u.username
    updatedAt := now }

/-- The call found a live row, which then had the fields provided, and the others as they were. -/
def ProfileUpdated (h : Hist) (userId : Uuid) (givenName familyName username : Option String) : Prop :=
  ∃ e ∈ h, ∃ u now, e.op = .sql (.updateProfile userId givenName familyName username) ∧
    .user u ∈ e.pre.db ∧ u.id = userId ∧ u.deletedAt = none ∧
    .user (u.withProfile givenName familyName username now) ∈ e.post.db

/-- The call found a live row, which has the hash of the new password after the commit. -/
def PasswordUpdated (h : Hist) (userId : Uuid) (newPassword : String) : Prop :=
  ∃ e ∈ h, ∃ e' ∈ h, ∃ v hash salt now, e.op = .sql (.updatePassword userId hash) ∧
    hashPassword newPassword salt = .ok hash ∧ .user v ∈ e.pre.db ∧ v.id = userId ∧ v.deletedAt = none ∧
    e'.op = .commit ∧ .user { v with passwordHash := hash, updatedAt := now } ∈ e'.post.db

/-- Whatever commits an event also gives a live row the hash of the new password. -/
def Announces (h : Hist) (userId : Uuid) (newPassword : String) : Prop :=
  ∀ e ∈ h, ∀ ws event, Commits e.loc e.pre ws e.op → ins (.event event) ∈ ws →
    ∃ v hash salt now, hashPassword newPassword salt = .ok hash ∧ v.id = userId ∧ v.deletedAt = none ∧
      upd (.user v) (.user { v with passwordHash := hash, updatedAt := now }) ∈ ws

/-- What the claim about a call says: a success was one, and events come with it. -/
def TookEffect (h : Hist) : Request → Reply → Prop
  | .updateProfile userId givenName familyName username, .updateProfile r =>
    r = .ok () → ProfileUpdated h userId givenName familyName username
  | .updatePassword userId _ newPassword, .updatePassword r =>
    (r = .ok () → PasswordUpdated h userId newPassword) ∧ Announces h userId newPassword
  | _, _ => True

/-- The UPDATE of a profile was answered, outside a transaction. -/
def Ran (h : Hist) (userId : Uuid) (givenName familyName username : Option String) : Prop :=
  ∃ n l g l' g', l.tx = none ∧
    (⟨.sql (.updateProfile userId givenName familyName username), .ok n, l, g, l', g'⟩ : Event) ∈ h

theorem ends_updateProfile {userId : Uuid} {givenName familyName username : Option String}
    (hl : l.tx = none) : Ends (fun h _ r => r = .ok () → Ran h userId givenName familyName username) h l
      (UpdateProfile.execute userId givenName familyName username).run := by
  unfold UpdateProfile.execute
  refine safe_fromExcept_bind.mpr (onResult_iff.mpr ⟨fun _ _ => ?_, fun _ _ he => by cases he⟩)
  refine safe_fromExcept_bind.mpr (onResult_iff.mpr ⟨fun _ _ => ?_, fun _ _ he => by cases he⟩)
  refine safe_attempt_bind.mpr fun g _ => ⟨trivial, fun r l' g' hp => ?_⟩
  obtain rfl := performs_idle rfl hp
  refine onResult_mapError.mpr ⟨fun _ _ => ?_, fun _ _ he => by cases he⟩
  refine safe_attempt_bind.mpr fun g₁ _ => ⟨trivial, fun r l₁ g₁' hp => ?_⟩
  refine onResult_mapError.mpr ⟨fun n hr _ => ?_, fun _ _ he => by cases he⟩
  subst hr
  exact ⟨n, l', g₁, l₁, g₁', hl, List.mem_cons_self⟩

/-- A profile update that succeeded had its UPDATE answered. -/
theorem ran_of_return (hc : Reachable (machine dep scope) (boot db clock) c) {r : Reply}
    (ht : c.thread i = some ⟨l, .ret r, h⟩) : ∀ userId givenName familyName username result,
      l.request = .updateProfile userId givenName familyName username → r = .updateProfile result →
        result = .ok () → Ran h userId givenName familyName username := by
  refine ends_of_return (Q := fun req h r => ∀ userId givenName familyName username result,
    req = .updateProfile userId givenName familyName username → r = .updateProfile result →
      result = .ok () → Ran h userId givenName familyName username) (fun i req => ?_) hc ht
  cases req with
  | updateProfile userId givenName familyName username =>
    refine safe_bind.mpr ((ends_updateProfile rfl).mono fun h l r hran => ?_)
    intro _ _ _ _ result hreq hr hok
    cases hreq
    cases hr
    exact hran hok
  | _ => exact safe_trivial.mono fun _ _ _ _ _ _ _ _ _ hreq => by cases hreq

section Targeted

variable {allowed : Request → Prop} {t : Thread Op Resp Session World Reply}

theorem unique_of_mem (hdb : UniqueKeys db) (hc : Reachable (machine dep scope) (boot db clock) c)
    (ht : c.thread i = some t) {e : Event} (he : e ∈ t.hist) : UniqueKeys e.pre.db :=
  (past_of_saw hc ht ⟨e, he, rfl⟩).unique hdb

/-- An UPDATE of a profile that was answered changed the live row it found. -/
theorem profileUpdated_of_mem (hdb : UniqueKeys db)
    (hc : Reachable (machine dep (targeted allowed)) (boot db clock) c) (ht : c.thread i = some t)
    {userId : Uuid} {givenName familyName username : Option String} {n : ℕ} {l l' : Session} {g g' : World}
    (hl : l.tx = none) (he : (⟨.sql (.updateProfile userId givenName familyName username), .ok n, l, g, l',
      g'⟩ : Event) ∈ t.hist) : ProfileUpdated t.hist userId givenName familyName username := by
  obtain ⟨hp, -, -, u, hu, hid, hlive⟩ := entry_of_mem hc ht he
  obtain ⟨pick, hres, hpost⟩ := performs_autocommit_ok hl hp
  rcases updateLive_ok (unique_of_mem hdb hc ht he) hres with ⟨-, -, hnone⟩ | ⟨-, v, hv, hvid, hvlive, hws⟩
  · exact absurd hlive (hnone u hu hid)
  · refine ⟨_, he, v, g.clock, rfl, hv, hvid, hvlive, ?_⟩
    have hafter : g'.db =
        applyAll [upd (.user v) (.user (v.withProfile givenName familyName username g.clock))] g.db :=
      hpost.trans (congrArg (applyAll · g.db) hws)
    rw [show (_ : Event).post.db = g'.db from rfl, hafter]
    exact (mem_updUser hv).mpr (Or.inl rfl)

/-- What a change of a password commits, when its UPDATE found a live row. -/
theorem writes_of_updatePassword (hdb : UniqueKeys db)
    (hc : Reachable (machine dep (targeted allowed)) (boot db clock) c) (ht : c.thread i = some t)
    {userId : Uuid} {currentPassword newPassword : String}
    (hreq : t.loc.request = .updatePassword userId currentPassword newPassword) {e' : Event}
    (he' : e' ∈ t.hist) {ws : List (Write Row)} (hne : ws ≠ []) (hcom : Commits e'.loc e'.pre ws e'.op) :
    ∃ e ∈ t.hist, ∃ v hash salt now event, e.op = .sql (.updatePassword userId hash) ∧
      hashPassword newPassword salt = .ok hash ∧ .user v ∈ e.pre.db ∧ v.id = userId ∧ v.deletedAt = none ∧
      .user v ∈ e'.pre.db ∧
      ws = [upd (.user v) (.user { v with passwordHash := hash, updatedAt := now }), ins (.event event)] := by
  obtain ⟨h', htook⟩ := exists_took he'
  obtain ⟨c₁, t₁, -, hpre, hloc, hhist, hw⟩ := mayCommit_of_happened hdb hc ⟨t, ht, htook⟩ hne hcom
  have hreq₁ : t₁.loc.request = .updatePassword userId currentPassword newPassword := by
    rw [hloc, ((origin_reachable hc i t ht).steps e' he').1, hreq]
  have hwrote := hw.wrote
  rw [hreq₁] at hwrote
  have hvalid := hw.valid
  rw [hpre] at hvalid
  cases hwrote with
  | @updatePassword _ _ _ hash salt u h₁ e _ _ _ now _ ws _ hsuf _ _ hhash hop hws =>
    have he : e ∈ t.hist := by
      have hmem : e ∈ t₁.hist := hsuf.subset List.mem_cons_self
      rw [hhist] at hmem
      exact htook.subset (List.mem_cons_of_mem _ hmem)
    obtain ⟨-, _, -, hguard⟩ := entry_of_mem hc ht he
    rw [hop] at hguard
    obtain ⟨w, hw, hwid, hwlive⟩ := hguard
    rcases hws with ⟨-, hnone⟩ | ⟨v, hv, hvid, hvlive, rfl⟩
    · exact absurd hwlive (hnone w hw hwid)
    · exact ⟨e, he, v, hash, salt, now, _, hop, hhash, hv, hvid, hvlive, hvalid.1.1, rfl⟩

theorem passwordUpdated_of_committed (hdb : UniqueKeys db)
    (hc : Reachable (machine dep (targeted allowed)) (boot db clock) c) (ht : c.thread i = some t)
    {userId : Uuid} {currentPassword newPassword : String}
    (hreq : t.loc.request = .updatePassword userId currentPassword newPassword) {ws : List (Write Row)}
    (hne : ws ≠ []) (hcom : Committed t.hist ws) : PasswordUpdated t.hist userId newPassword := by
  obtain ⟨l, g, l', g', now, he', htx⟩ := hcom
  obtain ⟨e, he, v, hash, salt, now, event, hop, hhash, hv, hvid, hlive, hv', hws⟩ :=
    writes_of_updatePassword hdb hc ht hreq he' hne ⟨_, htx, rfl⟩
  obtain ⟨hp, -⟩ := entry_of_mem hc ht he'
  refine ⟨e, he, _, he', v, hash, salt, now, hop, hhash, hv, hvid, hlive, rfl, ?_⟩
  have hafter : g'.db = applyAll ws g.db := performs_commit_ok htx hp
  change _ ∈ g'.db
  rw [hafter, hws, applyAll_cons, applyAll_cons, applyAll_nil, apply_ins]
  exact List.mem_append_left _ ((mem_updUser hv').mpr (Or.inl rfl))

theorem announces_of_targeted (hdb : UniqueKeys db)
    (hc : Reachable (machine dep (targeted allowed)) (boot db clock) c) (ht : c.thread i = some t)
    {userId : Uuid} {currentPassword newPassword : String}
    (hreq : t.loc.request = .updatePassword userId currentPassword newPassword) :
    Announces t.hist userId newPassword := by
  intro e' he' ws event hcom hmem
  obtain ⟨e, -, v, hash, salt, now, event', -, hhash, -, hvid, hlive, -, hws⟩ :=
    writes_of_updatePassword hdb hc ht hreq he' (List.ne_nil_of_mem hmem) hcom
  refine ⟨v, hash, salt, now, hhash, hvid, hlive, ?_⟩
  rw [hws]
  exact List.mem_cons_self

/-- **In runs whose UPDATEs find live rows, a call that succeeded took effect.** -/
theorem updates_took_effect (hdb : UniqueKeys db)
    (hc : Reachable (machine dep (targeted allowed)) (boot db clock) c) :
    ∀ i l r h, c.thread i = some ⟨l, .ret r, h⟩ → TookEffect h l.request r := by
  intro i l r h ht
  have hret := ran_of_return hc ht
  have hpost := post_of_return hdb hc ht
  unfold TookEffect
  split
  · rename_i userId givenName familyName username r hreq
    intro hok
    obtain ⟨n, l', g, l'', g', hl, he⟩ := hret userId givenName familyName username r hreq rfl hok
    exact profileUpdated_of_mem hdb hc ht hl he
  · rename_i userId currentPassword newPassword r hreq
    rw [hreq] at hpost
    refine ⟨fun hok => ?_, announces_of_targeted hdb hc ht hreq⟩
    subst hok
    obtain ⟨-, ws, hne, hcom⟩ := hpost
    exact passwordUpdated_of_committed hdb hc ht hreq hne hcom
  · trivial

end Targeted

end Outcomes

/-! ## Samples -/

namespace Sample

instance (userId : Uuid) (db : List Row) : Decidable (Live userId db) :=
  decidable_of_iff (∃ u ∈ users db, u.id = userId ∧ u.deletedAt = none) <| by
    simp only [Live, mem_users]

instance (g : World) (o : Op) : Decidable (FindsLive g o) := by
  unfold FindsLive
  split <;> infer_instance

instance (allowed : Request → Prop) (h : Hist) (o : Op) (l : Session) (g : World) :
    Decidable ((targeted allowed).guard h o l g) := inferInstanceAs (Decidable (FindsLive g o))

instance (allowed : Request → Prop) [DecidablePred allowed] :
    DecidablePred (targeted allowed).allowed := inferInstanceAs (DecidablePred allowed)

def renameProfile : List Command := call 0 (.updateProfile 1 (some "Grace") none none) [fine, fine]

/-- A profile update of a live row took effect. -/
theorem updates_took_effect_rename : ∃ c l h,
    execute deployment (targeted fun _ => True) (boot [.user ada] 0) renameProfile = some c ∧
    c.thread 0 = some ⟨l, .ret (.updateProfile (.ok ())), h⟩ ∧
    ProfileUpdated h 1 (some "Grace") none none := by
  have hrun : (execute deployment (targeted fun _ => True) (boot [.user ada] 0) renameProfile).any
      (returned 0 fun req r _ => req = .updateProfile 1 (some "Grace") none none &&
        r = .updateProfile (.ok ())) = true := by decide +kernel
  obtain ⟨c, hexec, hc, hend⟩ := Driver.exists_of_execute hrun
  obtain ⟨l, r, h, ht, hend⟩ := of_returned hend
  simp only [Bool.and_eq_true, decide_eq_true_eq] at hend
  obtain ⟨hreq, rfl⟩ := hend
  have heffect := updates_took_effect (List.pairwise_singleton _ _) hc 0 l _ h ht
  rw [hreq] at heffect
  exact ⟨c, l, h, hexec, ht, heffect rfl⟩

/-- The user is deleted between the check of the current password and the UPDATE. -/
def vanishing : List Command :=
  call 0 (.updatePassword 1 "password" "newer password") (List.replicate 3 fine) ++
    call 1 (.softDelete 1) [fine] ++
    (List.replicate 3 fine ++ ({ uuid := 10 } : Choice) :: List.replicate 7 fine).map (.act 0)

/-- An UPDATE of a password finds every user deleted. -/
def tooLate (e : Event) : Bool :=
  match e.op with
  | .sql (.updatePassword _ _) => (users e.pre.db).all fun u => u.deletedAt ≠ none
  | _ => true

/-- **Both report success where there is no live row**; the password event is queued all the same. -/
theorem success_of_nobody :
    (∃ c l h, Reachable (machine deployment (.of fun _ => True)) (boot [] 0) c ∧
      c.thread 0 = some ⟨l, .ret (.updateProfile (.ok ())), h⟩ ∧
      ¬ TookEffect h l.request (.updateProfile (.ok ()))) ∧
    ∃ c l h, Reachable (machine deployment (.of fun _ => True)) (boot [.user ada] 0) c ∧
      c.thread 0 = some ⟨l, .ret (.updatePassword (.ok ())), h⟩ ∧
      ¬ TookEffect h l.request (.updatePassword (.ok ())) ∧ outbox c.glob.db ≠ [] := by
  constructor
  · have hrun : (execute deployment (.of fun _ => True) (boot [] 0) renameProfile).any
        (returned 0 fun req r h => req = .updateProfile 1 (some "Grace") none none &&
          r = .updateProfile (.ok ()) && h.all fun e => (users e.pre.db).isEmpty) = true := by
      decide +kernel
    obtain ⟨c, -, hc, hend⟩ := Driver.exists_of_execute hrun
    obtain ⟨l, r, h, ht, hend⟩ := of_returned hend
    simp only [Bool.and_eq_true, decide_eq_true_eq, List.all_eq_true, List.isEmpty_iff] at hend
    obtain ⟨⟨hreq, rfl⟩, hempty⟩ := hend
    refine ⟨c, l, h, hc, ht, ?_⟩
    rw [hreq]
    intro heffect
    obtain ⟨e, he, u, now, -, hu, -⟩ := heffect rfl
    rw [← mem_users, hempty e he] at hu
    cases hu
  · have hrun : (execute deployment (.of fun _ => True) (boot [.user ada] 0) vanishing).any
        (fun c => returned 0 (fun req r h => req = .updatePassword 1 "password" "newer password" &&
          r = .updatePassword (.ok ()) && h.all tooLate) c && !(outbox c.glob.db).isEmpty) = true := by
      decide +kernel
    obtain ⟨c, -, hc, hend⟩ := Driver.exists_of_execute hrun
    obtain ⟨hend, hqueued⟩ := Bool.and_eq_true_iff.mp hend
    obtain ⟨l, r, h, ht, hend⟩ := of_returned hend
    simp only [Bool.and_eq_true, decide_eq_true_eq, List.all_eq_true] at hend
    obtain ⟨⟨hreq, rfl⟩, hall⟩ := hend
    refine ⟨c, l, h, hc, ht, ?_, by simpa using hqueued⟩
    rw [hreq]
    intro heffect
    obtain ⟨e, he, e', -, v, hash, salt, now, hop, -, hv, -, hlive, -⟩ := heffect.1 rfl
    have hdead := hall e he
    rw [tooLate, hop] at hdead
    exact of_decide_eq_true (List.all_eq_true.mp hdead v (mem_users.mpr hv)) hlive

end Sample

end Identity
