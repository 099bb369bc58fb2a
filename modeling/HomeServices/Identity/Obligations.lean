import HomeServices.Identity.Contracts

/-!
# The handlers keep their contracts

* `keeping_signUp`, `keeping_resendVerification`, `keeping_verifyEmail`, `keeping_updatePassword`,
  `keeping_updateProfile`, `keeping_ensureSigningKey`, `keeping_login`, `keeping_authenticate`.
* **`keeping_handler`**: every program the service runs keeps the contract of its request.
-/

namespace Identity

open ReadCommitted Interaction

theorem onResult_iff {ε α : Type} {p : α → Prop} {q : ε → Prop} {x : Except ε α} :
    OnResult p q x ↔ (∀ a, x = .ok a → p a) ∧ ∀ e, x = .error e → q e := by
  cases x <;> simp [OnResult]

theorem onResult_mapError {ε ε' α : Type} {p : α → Prop} {q : ε' → Prop} {x : Except ε α}
    {f : ε → ε'} : OnResult p q (x.mapError f) ↔
      (∀ a, x = .ok a → p a) ∧ ∀ e, x = .error e → q (f e) := by
  cases x <;> simp [OnResult, Except.mapError]

theorem onResult_orError {ε α : Type} {p : α → Prop} {q : ε → Prop} {e : ε} {o : Option α} :
    OnResult p q (orError e o) ↔ (∀ a, o = some a → p a) ∧ (o = none → q e) := by
  cases o <;> simp [OnResult, orError]

theorem onResult_require {ε : Type} {p : Unit → Prop} {q : ε → Prop} {e : ε} {c : Prop}
    [Decidable c] : OnResult p q (require c e) ↔ (c → p ()) ∧ (¬ c → q e) := by
  unfold require
  split_ifs with h <;> simp [OnResult, h]

variable [Platform] {dep : Deployment} {h : Hist} {l : Session}

theorem keeping_signUp {username email givenName familyName : String} {password : Option String}
    (hl : l.tx = none)
    (hreq : l.request = .signUp username email givenName familyName password) :
    Keeping dep (fun _ _ _ => True) h l
      (SignUp.execute dep.webBaseUrl username email givenName familyName password).run := by
  unfold SignUp.execute hashBlocking generateVerificationToken
  simp only [bind_assoc, pure_bind]
  refine safe_fromExcept_bind.mpr (onResult_mapError.mpr ⟨fun _ _ => ?_, fun _ _ => trivial⟩)
  refine safe_fromExcept_bind.mpr (onResult_mapError.mpr ⟨fun _ _ => ?_, fun _ _ => trivial⟩)
  refine safe_fromExcept_bind.mpr (onResult_orError.mpr ⟨fun pw hpw => ?_, fun _ => trivial⟩)
  refine safe_fromExcept_bind.mpr (onResult_mapError.mpr ⟨fun _ hval => ?_, fun _ _ => trivial⟩)
  refine keeping_draw rfl fun g g' salt => ?_
  refine keeping_draw rfl fun g g' r => onResult_iff.mpr ⟨fun _ _ => ?_, fun _ _ => trivial⟩
  refine safe_fromExcept_bind.mpr (onResult_mapError.mpr ⟨fun hash hhash => ?_, fun _ _ => trivial⟩)
  refine keeping_draw rfl fun g g' userId => ?_
  refine keeping_draw rfl fun g g' tokenId => ?_
  refine keeping_draw rfl fun g g' outboxId => ?_
  refine keeping_draw rfl fun g g' r => onResult_iff.mpr ⟨fun raw _ => ?_, fun _ _ => trivial⟩
  refine keeping_draw rfl fun g g' now => ?_
  refine keeping_draw rfl fun g g' trace => ?_
  refine keeping_draw rfl fun g g' producedAt => ?_
  refine keeping_draw rfl fun g g' r => onResult_iff.mpr ⟨fun _ _ => ?_, fun _ _ => trivial⟩
  refine keeping_transaction hl (fun _ _ => trivial) fun g₀ _ l₁ hl₁ => ?_
  refine keeping_query (by rw [hl₁]) (fun _ _ _ _ _ _ _ => trivial) fun _ _ _ _ ws _ hres hws l₂ hl₂ => ?_
  obtain rfl := hws.symm.trans (insertRow_ok hres)
  refine keeping_query (by rw [hl₂]) (fun _ _ _ _ _ _ _ => trivial) fun _ _ _ _ ws _ hres hws l₃ hl₃ => ?_
  obtain rfl := hws.symm.trans (insertOwned_ok hres).1
  refine keeping_query (by rw [hl₃]) (fun _ _ _ _ _ _ _ => trivial) fun _ _ _ _ ws _ hres hws l₄ hl₄ => ?_
  obtain rfl := hws.symm.trans (insertRow_ok hres)
  refine ⟨fun tx htx _ => ?_, fun _ _ => ⟨trivial, trivial⟩⟩
  have hreq₄ : l₄.request = .signUp username email givenName familyName (some pw) := by
    rw [hl₄, hl₃, hl₂, hl₁]
    rw [hreq, hpw]
  rw [hl₄] at htx
  cases htx
  rw [hreq₄]
  exact .signUp hval hhash

/-- What a lookup by address that found a user saw. -/
theorem userByEmail_found {email : String} {now pick : ℕ} {db : List Row} {user : User}
    (hres : ((Sql.userByEmail email).exec now pick db).result = .ok (some user)) :
    ∃ u, .user u ∈ db ∧ u.toUser = user ∧ u.deletedAt = none ∧ lower u.email = lower email := by
  have hone := queryOpt_eq_some hres
  have hmem : user ∈ ((users db).filter fun u =>
      lower u.email = lower email ∧ u.deletedAt = none).map StoredUser.toUser := by
    rw [hone]; exact List.mem_singleton_self _
  obtain ⟨u, hu, rfl⟩ := List.mem_map.mp hmem
  obtain ⟨hmem, hcond⟩ := List.mem_filter.mp hu
  have hcond := of_decide_eq_true hcond
  exact ⟨u, mem_users.mp hmem, rfl, hcond.2, hcond.1⟩

theorem keeping_issue {email : String} {u : StoredUser} {g₀ : World} (hl : l.tx = none)
    (hreq : l.request = .resendVerification email) (hsaw : Saw h g₀) (hu : .user u ∈ g₀.db)
    (hlive : u.deletedAt = none) (hemail : lower u.email = lower email)
    (hpending : u.status = .pendingVerification) (hlimits : limits h = false) :
    Keeping dep (fun h _ r => Post dep h (.resendVerification email) (.resendVerification r)) h l
      (ResendVerification.issue dep.webBaseUrl u.toUser).run := by
  unfold ResendVerification.issue generateVerificationToken
  simp only [bind_assoc, pure_bind]
  refine keeping_read rfl hl fun g₁ g₁' r _ hr => onResult_mapError.mpr
    ⟨fun count hcount => ?_, fun e he => failed_head (by rw [he]; rfl)⟩
  obtain rfl : count = recentTokens u.id g₁.clock g₁.db := by
    obtain ⟨pick, hr⟩ := hr.resolve_left (fun h => by rw [h] at hcount; cases hcount)
    exact Except.ok.inj (hcount.symm.trans hr)
  have hcounted : ∀ r' : Except PgError ℕ, limits (⟨.sql (.countRecentTokens u.id), r', l, g₁, l, g₁'⟩ :: h) =
      decide (maxTokensPerHour ≤ recentTokens u.id g₁.clock g₁.db) := fun r' => by
    change (decide (maxTokensPerHour ≤ recentTokens u.id g₁.clock g₁.db) || limits h) = _
    rw [hlimits, Bool.or_false]
  refine safe_fromExcept_bind.mpr (onResult_require.mpr ⟨fun hfew => ?_, fun hmany => ?_⟩)
  swap
  · exact ⟨(hcounted r).trans (decide_eq_true (not_not.mp hmany)), g₀, u,
      hsaw.mono (List.suffix_cons _ _), hu, hlive, hemail⟩
  refine keeping_draw rfl fun _ _ tokenId => ?_
  refine keeping_draw rfl fun _ _ outboxId => ?_
  refine keeping_draw rfl fun _ _ _ => onResult_mapError.mpr
    ⟨fun raw _ => ?_, fun e he => failed_head (by rw [he]; rfl)⟩
  refine keeping_draw rfl fun _ _ now => ?_
  refine keeping_draw rfl fun _ _ trace => ?_
  refine keeping_draw rfl fun _ _ producedAt => ?_
  refine keeping_transaction hl (fun _ _ => failed_head rfl) fun g₂ g₂' l₁ hl₁ => ?_
  refine keeping_query (by rw [hl₁]) (fun _ _ _ _ _ _ _ => ?_) fun _ _ _ _ ws _ hres hws l₂ hl₂ => ?_
  · exact ⟨_, List.mem_cons_of_mem _ List.mem_cons_self, rfl⟩
  obtain rfl := hws.symm.trans (insertOwned_ok hres).1
  refine keeping_query (by rw [hl₂]) (fun _ _ _ _ _ _ _ => ?_) fun _ _ _ _ ws _ hres hws l₃ hl₃ => ?_
  · exact ⟨_, List.mem_cons_of_mem _ List.mem_cons_self, rfl⟩
  obtain rfl := hws.symm.trans (insertRow_ok hres)
  refine ⟨fun tx htx _ => ?_, fun _ _ => ⟨failed_head rfl, Or.inr ?_⟩⟩
  · have hreq₃ : l₃.request = .resendVerification email := by rw [hl₃, hl₂, hl₁]; exact hreq
    rw [hl₃] at htx
    cases htx
    rw [hreq₃]
    refine .resendVerification (Saw.mono hsaw ?_) hu hlive hemail hpending
      (show ((⟨.begin, .ok (), l, g₂, l₁, g₂'⟩ : Event) :: _) <:+ _ from ⟨[_, _], rfl⟩) rfl
      (show (⟨.sql (.countRecentTokens u.id), r, l, g₁, l, g₁'⟩ : Event) ∈ _ from ?_) rfl hfew
    · exact ⟨[_, _, _, _, _, _, _, _, _, _], rfl⟩
    · simp
  · exact (hcounted r).trans (decide_eq_false hfew)

theorem keeping_resendVerification {email : String} (hl : l.tx = none)
    (hreq : l.request = .resendVerification email) (hlimits : limits h = false) :
    Keeping dep (fun h _ r => Post dep h (.resendVerification email) (.resendVerification r)) h l
      (ResendVerification.execute dep.webBaseUrl email).run := by
  unfold ResendVerification.execute
  refine keeping_draw rfl fun _ _ _ => onResult_mapError.mpr
    ⟨fun _ _ => ?_, fun e he => failed_head (by rw [he]; rfl)⟩
  refine keeping_read rfl hl fun g g' r _ hr => onResult_iff.mpr
    ⟨fun found hfound => ?_, fun e he => by cases r <;> cases he⟩
  cases found with
  | none => exact Or.inr hlimits
  | some user =>
    by_cases hpending : user.status = .pendingVerification
    · simp only [hpending, if_true]
      rcases hr with rfl | ⟨pick, hr⟩
      · cases hfound
      · have hres : ((Sql.userByEmail email).exec g.clock pick g.db).result = .ok (some user) := by
          rw [← hr]
          cases r with
          | error e => cases hfound
          | ok found => exact congrArg Except.ok (Except.ok.inj hfound)
        obtain ⟨u, hu, rfl, hlive, hemail⟩ := userByEmail_found hres
        exact keeping_issue hl hreq saw_head hu hlive hemail hpending hlimits
    · simp only [hpending, if_false]
      exact Or.inr hlimits

theorem tokenByHash_found {hash : Bytes} {now pick : ℕ} {db : List Row} {row : TokenRow}
    (hres : ((Sql.tokenByHash hash).exec now pick db).result = .ok (some row)) :
    ∃ t, .token t ∈ db ∧ t.toTokenRow = row ∧ t.tokenHash = hash ∧ t.consumedAt = none := by
  have hone := queryOpt_eq_some hres
  have hmem : row ∈ ((tokens db).filter fun t =>
      t.tokenHash = hash ∧ t.consumedAt = none).map StoredToken.toTokenRow := by
    rw [hone]; exact List.mem_singleton_self _
  obtain ⟨t, ht, rfl⟩ := List.mem_map.mp hmem
  obtain ⟨hmem, hcond⟩ := List.mem_filter.mp ht
  have hcond := of_decide_eq_true hcond
  exact ⟨t, mem_tokens.mp hmem, rfl, hcond.1, hcond.2⟩

/-- Consuming a token replaces the unconsumed token it finds, or does nothing. -/
theorem consumeToken_ok {id : Uuid} {now pick n : ℕ} {db : List Row}
    (hres : ((Sql.consumeToken id).exec now pick db).result = .ok n) (hn : n ≠ 0) :
    ∃ t, .token t ∈ db ∧ t.id = id ∧ t.consumedAt = none ∧
      ((Sql.consumeToken id).exec now pick db).writes =
        [upd (.token t) (.token { t with consumedAt := some now })] := by
  rcases updateRow_ok hres with ⟨hn', -⟩ | ⟨-, o, r, ho, hok, hfo, hws⟩
  · exact absurd hn' hn
  · cases o with
    | token t =>
      obtain ⟨t', ht', rfl⟩ := Option.map_eq_some_iff.mp hfo
      simp only at ht'
      split_ifs at ht' with hc
      cases ht'
      exact ⟨t, ho, Ref.token.inj hok, hc, hws⟩
    | _ => cases hfo

theorem consumeToken_total {id : Uuid} {now pick : ℕ} {db : List Row} (hdb : UniqueKeys db) :
    ∃ n, ((Sql.consumeToken id).exec now pick db).result = .ok n := by
  refine updateRow_total hdb fun o r hr => ?_
  cases o with
  | token t =>
    obtain ⟨t', ht', rfl⟩ := Option.map_eq_some_iff.mp hr
    simp only at ht'
    split_ifs at ht'
    cases ht'
    simp [Row.keys]
  | _ => cases hr

/-- An update of a live user replaces the live user it finds, or finds none. -/
theorem updateLive_ok {id : Uuid} {f : StoredUser → StoredUser} {n : ℕ} {db : List Row}
    (hdb : UniqueKeys db) (hres : (updateLive db id f).result = .ok n) :
    (n = 0 ∧ (updateLive db id f).writes = [] ∧
      ∀ u, .user u ∈ db → u.id = id → u.deletedAt ≠ none) ∨
    (n = 1 ∧ ∃ u, .user u ∈ db ∧ u.id = id ∧ u.deletedAt = none ∧
      (updateLive db id f).writes = [upd (.user u) (.user (f u))]) := by
  rcases updateRow_ok hres with ⟨hn, hws, hnone⟩ | ⟨hn, o, r, ho, hok, hfo, hws⟩
  · refine Or.inl ⟨hn, hws, fun u hu hid hlive => ?_⟩
    have hfu := hnone (.user u) (by
      rw [show Ref.user id = (Row.user u).primary from congrArg Ref.user hid.symm]
      exact find_primary hdb hu)
    simp [hlive] at hfu
  · cases o with
    | user u =>
      obtain ⟨v, hv, rfl⟩ := Option.map_eq_some_iff.mp hfo
      simp only at hv
      split_ifs at hv with hlive
      cases hv
      exact Or.inr ⟨hn, u, ho, Ref.user.inj hok, hlive, hws⟩
    | _ => cases hfo

/-- An update that keeps the names and addresses of live users violates no constraint. -/
theorem updateLive_total {id : Uuid} {f : StoredUser → StoredUser} {db : List Row}
    (hdb : UniqueKeys db) (hf : ∀ u, u.deletedAt = none → (Row.user (f u)).keys ⊆ (Row.user u).keys) :
    ∃ n, (updateLive db id f).result = .ok n := by
  refine updateRow_total hdb fun o r hr => ?_
  cases o with
  | user u =>
    obtain ⟨v, hv, rfl⟩ := Option.map_eq_some_iff.mp hr
    simp only at hv
    split_ifs at hv with hlive
    cases hv
    exact hf u hlive
  | _ => cases hr

theorem mem_user_of_upd_token {db : List Row} {t t' : StoredToken} {u : StoredUser}
    (hu : .user u ∈ db) : .user u ∈ applyAll [upd (.token t) (.token t')] db := by
  rw [applyAll_cons, applyAll_nil, apply_upd]
  exact List.mem_map.mpr ⟨_, hu, if_neg fun h => by cases h⟩

theorem markEmailVerified_total {id : Uuid} {now pick : ℕ} {db : List Row} (hdb : UniqueKeys db) :
    ∃ n, ((Sql.markEmailVerified id).exec now pick db).result = .ok n :=
  updateLive_total hdb fun u _ => List.Subset.refl (Row.user u).keys

/-- A statement that breaks no constraint fails only by a fault. -/
theorem faulted_query {s : Sql} {t : ℕ} {view : List Row} {e : PgError} {l' : Session} {g g' : World}
    (he : e = .fault ∨ ∃ pick, (s.exec t pick view).result = .error e)
    (htotal : ∀ pick, ∃ a, (s.exec t pick view).result = .ok a) :
    Faulted (⟨.sql s, .error e, l, g, l', g'⟩ :: h) := by
  rcases he with rfl | ⟨pick, he⟩
  · exact ⟨_, List.mem_cons_self, rfl⟩
  · obtain ⟨a, ha⟩ := htotal pick
    cases he.symm.trans ha

/-- What the body of `verify_email` owes when a statement fails. -/
theorem verifyEmail_fault {rawToken : String} {e : PgError} (hf : Faulted h) :
    TxPost dep .db (fun h _ r => Post dep h (.verifyEmail rawToken) (.verifyEmail r)) h l
      (.error (.db e)) :=
  fun _ _ => hf.mono (List.suffix_cons _ _)

theorem keeping_verifyEmail {rawToken : String} (hl : l.tx = none)
    (hreq : l.request = .verifyEmail rawToken) :
    Keeping dep (fun h _ r => Post dep h (.verifyEmail rawToken) (.verifyEmail r)) h l
      (VerifyEmail.execute rawToken).run := by
  unfold VerifyEmail.execute VerifyEmail.consumeToken VerifyEmail.markEmailVerified
  simp only [bind_assoc]
  refine safe_fromExcept_bind.mpr (onResult_orError.mpr ⟨fun raw hraw => ?_, fun _ => trivial⟩)
  refine keeping_draw rfl fun _ _ r => onResult_mapError.mpr
    ⟨fun _ _ => ?_, fun e he => faulted_head (by rw [he]; rfl)⟩
  refine keeping_transaction hl (fun _ _ => faulted_head rfl) fun g₀ _ l₁ hl₁ => ?_
  have htx₁ : l₁.tx = some ⟨g₀.clock, []⟩ := by rw [hl₁]
  refine keeping_query htx₁ (fun g g' e hg he => verifyEmail_fault (faulted_query he
    (tokenByHash_total (hg.view_unique htx₁) _ _))) fun g₁ g₁' pick found ws hg₁ hres hws l₂ hl₂ => ?_
  obtain rfl : [] = ws := hws
  have htx₂ : l₂.tx = some ⟨g₀.clock, []⟩ := by rw [hl₂]; rfl
  refine safe_fromExcept_bind.mpr (onResult_orError.mpr ⟨fun row hrow => ?_, fun _ _ _ => trivial⟩)
  obtain rfl := hrow
  obtain ⟨t₀, ht₀, rfl, hhash, hopen⟩ := tokenByHash_found hres
  refine keeping_draw rfl fun _ _ now => ?_
  refine safe_fromExcept_bind.mpr (onResult_require.mpr ⟨fun hexp => ?_, fun _ _ _ => trivial⟩)
  refine keeping_query htx₂ (fun g g' e hg he => verifyEmail_fault (faulted_query he fun _ =>
    consumeToken_total (hg.view_unique htx₂))) fun g₃ g₃' pick n ws hg₃ hres hws l₃ hl₃ => ?_
  refine safe_fromExcept_bind.mpr (onResult_require.mpr ⟨fun hn => ?_, fun _ _ _ => trivial⟩)
  obtain ⟨t, ht, hid, hunused, hws'⟩ := consumeToken_ok hres hn
  obtain rfl := hws'.symm.trans hws
  have htx₃ : l₃.tx = some ⟨g₀.clock,
      [upd (.token t) (.token { t with consumedAt := some g₀.clock })]⟩ := by rw [hl₃]; rfl
  refine keeping_query htx₃ (fun g g' e hg he => verifyEmail_fault (faulted_query he fun _ =>
    markEmailVerified_total (hg.view_unique htx₃))) fun g₄ g₄' pick n ws hg₄ hres hws l₄ hl₄ => ?_
  rcases updateLive_ok (hg₄.view_unique htx₃) hres with ⟨rfl, -, hgone⟩ | ⟨rfl, u, hu, huid, hulive, hws'⟩
  · intro g g'
    refine ⟨raw, g₁, t₀, g₄, hraw, by simp [Saw], ht₀, hhash, by simp [Saw], fun u hu => ?_⟩
    exact hgone u (mem_user_of_upd_token hu)
  · obtain rfl := hws'.symm.trans hws
    have hreq₄ : l₄.request = .verifyEmail rawToken := by rw [hl₄, hl₃, hl₂, hl₁]; exact hreq
    have htx₄ : l₄.tx = some ⟨g₀.clock, [upd (.token t) (.token { t with consumedAt := some g₀.clock }),
        upd (.user u) (.user { u with emailVerified := true, status := .active, updatedAt := g₀.clock })]⟩ := by
      rw [hl₄]; rfl
    refine ⟨fun tx htx _ => ?_, fun g g' => ⟨faulted_head rfl, _, ?_, l₄, g, _, g', _, List.mem_cons_self, htx₄⟩⟩
    · cases htx₄.symm.trans htx
      rw [hreq₄]
      exact .verifyEmail hraw (by simp [Saw]) ht₀ hhash hopen hid (answered_head.mono ⟨[_, _], rfl⟩)
        hexp hunused huid hulive
    · simp

/-- What a lookup by id that found a user saw, or one that found none. -/
theorem userById_result {id : Uuid} {now pick : ℕ} {db : List Row} {found : Option User}
    (hres : ((Sql.userById id).exec now pick db).result = .ok found) : match found with
      | some user => ∃ u, .user u ∈ db ∧ u.toUser = user ∧ u.id = id ∧ u.deletedAt = none
      | none => ∀ u, .user u ∈ db → u.id = id → u.deletedAt ≠ none := by
  cases found with
  | none =>
    intro u hu hid hlive
    have hnil := List.map_eq_nil_iff.mp (queryOpt_eq_none hres)
    have hcond := List.filter_eq_nil_iff.mp hnil u (mem_users.mpr hu)
    exact hcond (decide_eq_true ⟨hid, hlive⟩)
  | some user =>
    have hone := queryOpt_eq_some hres
    have hmem : user ∈ ((users db).filter fun u => u.id = id ∧ u.deletedAt = none).map
        StoredUser.toUser := by
      rw [hone]; exact List.mem_singleton_self _
    obtain ⟨u, hu, rfl⟩ := List.mem_map.mp hmem
    obtain ⟨hmem, hcond⟩ := List.mem_filter.mp hu
    have hcond := of_decide_eq_true hcond
    exact ⟨u, mem_users.mp hmem, rfl, hcond.1, hcond.2⟩

theorem keeping_updatePassword {userId : Uuid} {currentPassword newPassword : String}
    (hl : l.tx = none) (hreq : l.request = .updatePassword userId currentPassword newPassword) :
    Keeping dep (fun h _ r =>
        Post dep h (.updatePassword userId currentPassword newPassword) (.updatePassword r)) [] l
      (UpdatePassword.execute userId currentPassword newPassword).run := by
  unfold UpdatePassword.execute hashBlocking verifyBlocking insertEvent
  simp only [bind_assoc]
  refine safe_fromExcept_bind.mpr (onResult_mapError.mpr ⟨fun _ hval => ?_, fun e he => ⟨rfl, he⟩⟩)
  refine keeping_draw rfl fun _ _ r => onResult_mapError.mpr ⟨fun _ _ => ?_, fun _ _ => Nat.zero_le _⟩
  refine keeping_read rfl hl fun g₀ g₀' r _ hr => onResult_mapError.mpr
    ⟨fun found hfound => ?_, fun _ _ => Nat.zero_le _⟩
  obtain ⟨pick, hr⟩ : ∃ pick, r = ((Sql.userById userId).exec g₀.clock pick g₀.db).result := by
    rcases hr with rfl | hr
    · cases hfound
    · exact hr
  have hres := userById_result (hr.symm.trans hfound)
  refine safe_fromExcept_bind.mpr (onResult_orError.mpr ⟨fun user huser => ?_, fun hnone => ?_⟩)
  swap
  · subst hnone
    exact ⟨rfl, hval, g₀, by simp [Saw], hres⟩
  subst huser
  obtain ⟨u, hu, rfl, hid, hlive⟩ := hres
  refine keeping_draw rfl fun _ _ r => onResult_mapError.mpr ⟨fun _ _ => ?_, fun _ _ => Nat.zero_le _⟩
  refine safe_fromExcept_bind.mpr (onResult_mapError.mpr ⟨fun _ hver => ?_, fun e he => ?_⟩)
  swap
  · exact ⟨rfl, hval, g₀, u, by simp [Saw], hu, hid, hlive, fun hok => by cases he.symm.trans hok⟩
  refine keeping_draw rfl fun _ _ salt => ?_
  refine keeping_draw rfl fun _ _ r => onResult_mapError.mpr ⟨fun _ _ => ?_, fun _ _ => Nat.zero_le _⟩
  refine safe_fromExcept_bind.mpr (onResult_mapError.mpr
    ⟨fun hash hhash => ?_, fun _ _ => Nat.zero_le _⟩)
  refine keeping_draw rfl fun _ _ trace => ?_
  refine keeping_draw rfl fun _ _ outboxId => ?_
  refine keeping_draw rfl fun _ _ producedAt => ?_
  refine keeping_draw rfl fun _ _ changedAt => ?_
  refine keeping_draw rfl fun _ _ r => onResult_mapError.mpr ⟨fun _ _ => ?_, fun _ _ => Nat.zero_le _⟩
  refine keeping_transaction hl (fun _ _ => Nat.zero_le _) fun g₁ _ l₁ hl₁ => ?_
  have htx₁ : l₁.tx = some ⟨g₁.clock, []⟩ := by rw [hl₁]
  refine keeping_query htx₁ (fun _ _ _ _ _ _ _ => Nat.zero_le _) fun g₂ g₂' pick n ws hg₂ hres hws l₂ hl₂ => ?_
  have hws₂ : ws = [] ∧ (∀ v, .user v ∈ g₂.db → v.id = userId → v.deletedAt ≠ none) ∨
      ∃ v, .user v ∈ g₂.db ∧ v.id = userId ∧ v.deletedAt = none ∧
      ws = [upd (.user v) (.user { v with passwordHash := hash, updatedAt := g₁.clock })] := by
    rcases updateLive_ok (hg₂.view_unique htx₁) hres with ⟨-, hws', hnone⟩ | ⟨-, v, hv, hvid, hvlive, hws'⟩
    · exact Or.inl ⟨hws.symm.trans hws', hnone⟩
    · exact Or.inr ⟨v, hv, hvid, hvlive, hws.symm.trans hws'⟩
  have htx₂ : l₂.tx = some ⟨g₁.clock, ws⟩ := by rw [hl₂]; rfl
  refine keeping_query htx₂ (fun _ _ _ _ _ _ _ => Nat.zero_le _) fun g₃ g₃' pick n ws₃ hg₃ hres hws l₃ hl₃ => ?_
  obtain rfl := hws.symm.trans (insertRow_ok hres)
  have hreq₃ : l₃.request = .updatePassword userId currentPassword newPassword := by
    rw [hl₃, hl₂, hl₁]; exact hreq
  have htx₃ : l₃.tx = some ⟨g₁.clock, ws ++ [ins (.event (newEvent outboxId userId (passwordChangedEvent
      outboxId u.email u.givenName u.familyName trace producedAt changedAt) trace g₁.clock))]⟩ := by
    rw [hl₃]; rfl
  refine ⟨fun tx htx _ => ?_, fun g g' => ⟨Nat.le_refl _, rfl, _, ?_, l₃, g, _, g', _, List.mem_cons_self, htx₃⟩⟩
  · cases htx₃.symm.trans htx
    rw [hreq₃]
    exact .updatePassword hval ⟨[_], rfl⟩ (by simp [Answered, hfound]) hver hhash rfl hws₂
  · simp

theorem keeping_updateProfile {userId : Uuid} {givenName familyName username : Option String}
    (hl : l.tx = none)
    (hreq : l.request = .updateProfile userId givenName familyName username) :
    Keeping dep (fun _ _ _ => True) h l
      (UpdateProfile.execute userId givenName familyName username).run := by
  unfold UpdateProfile.execute
  refine safe_fromExcept_bind.mpr (onResult_require.mpr ⟨fun _ => ?_, fun _ => trivial⟩)
  refine safe_fromExcept_bind.mpr (onResult_iff.mpr ⟨fun _ _ => ?_, fun _ _ => trivial⟩)
  refine keeping_draw rfl fun _ _ _ => onResult_mapError.mpr ⟨fun _ _ => ?_, fun _ _ => trivial⟩
  refine keeping_write hl (fun g pick n hg hres hne => ?_) fun _ _ _ => onResult_mapError.mpr
    ⟨fun _ _ => trivial, fun _ _ => trivial⟩
  rcases updateLive_ok hg.unique hres with ⟨-, hws, -⟩ | ⟨-, u, -, hid, hlive, hws⟩
  · exact absurd hws hne
  · rw [hreq, show ((Sql.updateProfile userId givenName familyName username).exec g.clock pick
      g.db).writes = _ from hws]
    exact .updateProfile hid hlive

theorem keeping_ensureSigningKey (hl : l.tx = none) (hreq : l.request = .ensureSigningKey) :
    Keeping dep (fun _ _ _ => True) h l (EnsureSigningKey.execute dep.kek).run := by
  unfold EnsureSigningKey.execute generateKeyPair encryptPrivateKey
  refine keeping_draw rfl fun _ _ _ => onResult_mapError.mpr ⟨fun _ _ => ?_, fun _ _ => trivial⟩
  refine keeping_read rfl hl fun _ _ _ _ _ => onResult_mapError.mpr
    ⟨fun count _ => ?_, fun _ _ => trivial⟩
  by_cases hcount : 0 < count
  · rw [if_pos hcount]
    exact trivial
  rw [if_neg hcount]
  simp only [bind_assoc, pure_bind]
  refine keeping_draw rfl fun g₁ g₁' r₁ => onResult_mapError.mpr ⟨fun pkcs8 hpkcs8 => ?_, fun _ _ => trivial⟩
  refine keeping_draw rfl fun g₂ g₂' id => ?_
  refine safe_fromExcept_bind.mpr (onResult_mapError.mpr ⟨fun jwk hjwk => ?_, fun _ _ => trivial⟩)
  refine safe_fromExcept_bind.mpr (onResult_iff.mpr ⟨fun _ _ => ?_, fun _ _ => trivial⟩)
  refine keeping_draw rfl fun g₃ g₃' r₃ => onResult_mapError.mpr ⟨fun nonce _ => ?_, fun _ _ => trivial⟩
  refine keeping_write hl (fun g pick n hg hres _ => ?_) fun _ _ _ => onResult_mapError.mpr
    ⟨fun _ _ => trivial, fun _ _ => trivial⟩
  subst hpkcs8
  rw [hreq, show ((Sql.insertSigningKey _ _ _ _).exec g.clock pick g.db).writes = _ from insertRow_ok hres]
  exact .signingKey (answered_head.mono ⟨[_, _], rfl⟩) nonce.property hjwk

/-- What a lookup of the newest active key found. -/
theorem activeSigningKey_found {now pick : ℕ} {db : List Row} {k : StoredKey}
    (hres : (Sql.activeSigningKey.exec now pick db).result = .ok (some k)) :
    .key k ∈ db ∧ k.status = "active" := by
  have hmem := newest_mem (Except.ok.inj hres)
  obtain ⟨hk, hact⟩ := List.mem_filter.mp hmem
  exact ⟨mem_signingKeys.mp hk, of_decide_eq_true hact⟩

theorem Authorized.mono {h' : Hist} {email password : String} {u : StoredUser} {k : StoredKey}
    {key : ActiveSigningKey} {now : Instant} (ha : Authorized dep h email password u k key now)
    (hsuf : h <:+ h') : Authorized dep h' email password u k key now :=
  { ha with
    sawUser := ha.sawUser.imp fun _ hg => ⟨hg.1.mono hsuf, hg.2⟩
    sawKey := ha.sawKey.imp fun _ hg => ⟨hg.1.mono hsuf, hg.2⟩
    clock := ha.clock.mono hsuf }

theorem keeping_login {email password : String} (hl : l.tx = none)
    (hreq : l.request = .login email password) :
    Keeping dep (fun h _ r => Post dep h (.login email password) (.login r)) h l
      (Login.execute dep.kek email password).run := by
  unfold Login.execute Login.issue verifyBlocking getActiveSigningKey signJwt generateVerificationToken
  simp only [bind_assoc, pure_bind]
  refine keeping_draw rfl fun _ _ _ => onResult_mapError.mpr
    ⟨fun _ _ => ?_, fun e he => Or.inr (Or.inl (failed_head (by rw [he]; rfl)))⟩
  refine keeping_read rfl hl fun g₀ g₀' r₀ _ hr₀ => onResult_mapError.mpr
    ⟨fun found hfound => ?_, fun e he => Or.inr (Or.inl (failed_head (by rw [he]; rfl)))⟩
  refine safe_fromExcept_bind.mpr (onResult_orError.mpr ⟨fun user huser => ?_, fun _ => Or.inl rfl⟩)
  subst hfound huser
  obtain ⟨pick, hr₀⟩ := hr₀.resolve_left (fun h => by cases h)
  obtain ⟨u, hu, rfl, hlive, hemail⟩ := userByEmail_found hr₀.symm
  refine keeping_draw rfl fun _ _ _ => onResult_mapError.mpr
    ⟨fun _ _ => ?_, fun e he => Or.inr (Or.inl (failed_head (by rw [he]; rfl)))⟩
  refine safe_fromExcept_bind.mpr (onResult_mapError.mpr ⟨fun _ hver => ?_, fun _ _ => Or.inl rfl⟩)
  -- errors from here on follow a verified password
  have hknown : ∀ {h' e}, Saw h' g₀ →
      Post dep h' (.login email password) (.login (.error e)) := fun hsaw =>
    Or.inr (Or.inr ⟨g₀, u, hsaw, hu, hlive, hemail, hver⟩)
  refine safe_fromExcept_bind.mpr (onResult_require.mpr ⟨fun hactive => ?_, fun _ => hknown (by simp [Saw])⟩)
  refine keeping_draw rfl fun _ _ _ => onResult_mapError.mpr ⟨fun _ _ => ?_, fun _ _ => hknown (by simp [Saw])⟩
  refine keeping_read rfl hl fun g₁ g₁' r₁ _ hr₁ => onResult_mapError.mpr
    ⟨fun found hfound => ?_, fun _ _ => hknown (by simp [Saw])⟩
  refine safe_fromExcept_bind.mpr (onResult_orError.mpr ⟨fun k hk => ?_, fun _ => hknown (by simp [Saw])⟩)
  subst hfound hk
  obtain ⟨pick, hr₁⟩ := hr₁.resolve_left (fun h => by cases h)
  obtain ⟨hk, hkact⟩ := activeSigningKey_found hr₁.symm
  refine safe_fromExcept_bind.mpr (onResult_mapError.mpr ⟨fun key hkey => ?_, fun _ _ => hknown (by simp [Saw])⟩)
  refine keeping_draw rfl fun g₂ g₂' now => ?_
  -- from here on the login may sign
  have hauth : ∀ {h'}, Saw h' g₀ → Saw h' g₁ → Answered h' .utcNow now →
      Authorized dep h' email password u k key now := fun s₀ s₁ hclock =>
    { sawUser := ⟨g₀, s₀, hu⟩
      live := hlive
      address := hemail
      verified := hver
      active := hactive
      sawKey := ⟨g₁, s₁, hk⟩
      keyActive := hkact
      opened := hkey
      clock := hclock }
  refine keeping_draw rfl fun _ _ accessId => ?_
  refine keeping_sign ?_ fun g₃ g₃' r₃ hr₃ => onResult_mapError.mpr
    ⟨fun signature hsig => ?_, fun _ _ => hknown (by simp [Saw])⟩
  · exact ⟨_, _, u, k, key, now, accessId, hreq, hauth (by simp [Saw]) (by simp [Saw])
      (answered_head.mono ⟨[_], rfl⟩), rfl, Or.inl rfl⟩
  refine keeping_draw rfl fun _ _ idId => ?_
  refine keeping_sign ?_ fun g₄ g₄' r₄ hr₄ => onResult_mapError.mpr
    ⟨fun idSignature hidsig => ?_, fun _ _ => hknown (by simp [Saw])⟩
  · exact ⟨_, _, u, k, key, now, idId, hreq, hauth (by simp [Saw]) (by simp [Saw])
      (answered_head.mono ⟨[_, _, _], rfl⟩), rfl, Or.inr rfl⟩
  refine keeping_draw rfl fun _ _ _ => onResult_mapError.mpr ⟨fun raw _ => ?_, fun _ _ => hknown (by simp [Saw])⟩
  refine keeping_draw rfl fun _ _ refreshId => ?_
  refine keeping_draw rfl fun _ _ _ => onResult_mapError.mpr ⟨fun _ _ => ?_, fun _ _ => hknown (by simp [Saw])⟩
  refine keeping_write hl (fun g pick n hg hres _ => ?_) fun _ _ _ => onResult_mapError.mpr
    ⟨fun _ _ => ?_, fun _ _ => hknown (by simp [Saw])⟩
  · rw [hreq, show ((Sql.insertRefreshToken _ _ _ _).exec g.clock pick g.db).writes = _ from
      (insertOwned_ok hres).1]
    exact .login (hauth (by simp [Saw]) (by simp [Saw])
      (answered_head.mono ⟨[_, _, _, _, _, _, _], rfl⟩)) rfl
  · subst hsig hidsig
    obtain ⟨rnd, hrnd⟩ := hr₃.resolve_left (fun h => by cases h)
    obtain ⟨idRnd, hidrnd⟩ := hr₄.resolve_left (fun h => by cases h)
    refine ⟨u, k, key, now, accessId, idId, hauth (by simp [Saw]) (by simp [Saw])
      (answered_head.mono ⟨[_, _, _, _, _, _, _, _], rfl⟩),
      ⟨signature, rnd, Except.ok.inj hrnd, answered_head.mono ⟨[_, _, _, _, _, _], rfl⟩, rfl⟩,
      idSignature, idRnd, Except.ok.inj hidrnd, answered_head.mono ⟨[_, _, _, _], rfl⟩, rfl⟩

theorem keeping_authenticate {authorization : Option Bytes} (hl : l.tx = none) :
    Keeping dep (fun h _ r => Post dep h (.authenticate authorization) (.authenticate r)) h l
      (authenticate authorization).run := by
  unfold authenticate listPublicJwks findKey
  simp only [bind_assoc]
  refine safe_fromExcept_bind.mpr (onResult_iff.mpr ⟨fun token htoken => ?_, fun _ _ => trivial⟩)
  refine safe_fromExcept_bind.mpr (onResult_iff.mpr ⟨fun header hheader => ?_, fun _ _ => trivial⟩)
  refine keeping_draw rfl fun _ _ _ => onResult_mapError.mpr ⟨fun _ _ => ?_, fun _ _ => trivial⟩
  refine keeping_read rfl hl fun g g' r _ hr => onResult_mapError.mpr
    ⟨fun rows hrows => ?_, fun _ _ => trivial⟩
  subst hrows
  obtain ⟨pick, hr⟩ := hr.resolve_left (fun h => by cases h)
  refine safe_fromExcept_bind.mpr (onResult_orError.mpr ⟨fun jwks hjwks => ?_, fun _ => trivial⟩)
  refine safe_fromExcept_bind.mpr (onResult_orError.mpr ⟨fun jwk hjwk => ?_, fun _ => trivial⟩)
  refine keeping_draw rfl fun _ _ _ => onResult_mapError.mpr ⟨fun now hnow => ?_, fun _ _ => trivial⟩
  subst hnow
  change Post dep _ (.authenticate authorization) (.authenticate (checkToken token jwk now))
  cases hcheck : checkToken token jwk now with
  | error e => trivial
  | ok userId =>
    have hkid : jwk.kid = header.kid := by simpa using List.find?_some hjwk
    obtain ⟨row, hrow, hread⟩ := Json.exists_of_mem_mapM hjwks (List.mem_of_find?_eq_some hjwk)
    rw [← Except.ok.inj hr.symm] at hrow
    obtain ⟨k, hk, rfl⟩ := List.mem_map.mp hrow
    obtain ⟨hk, hstatus⟩ := List.mem_filter.mp hk
    exact ⟨token, header, jwk, g, k, now, htoken, hheader, by simp [Saw], mem_signingKeys.mp hk,
      of_decide_eq_true hstatus, hread, hkid, answered_head, hcheck⟩

/-- An operator statement keeps its contract when its writes do. -/
theorem keeping_statement {s : Sql} {k : Except PgError s.Out → Prog Op Resp Reply}
    {Q : Hist → Session → Reply → Prop} (hl : l.tx = none)
    (hw : ∀ g pick a, Fit l g → (s.exec g.clock pick g.db).result = .ok a →
      (s.exec g.clock pick g.db).writes ≠ [] →
      Wrote dep h l.request (s.exec g.clock pick g.db).writes)
    (hk : ∀ g g' r, Keeping dep Q (⟨.sql s, r, l, g, l, g'⟩ :: h) l (k r)) :
    Keeping dep Q h l (.call (.sql s) k) := by
  refine safe_call.mpr fun g hg => ⟨⟨fun ws hne hc => ?_, fun _ _ he => by cases he⟩,
    fun r l' g' hp => ?_⟩
  · obtain ⟨-, pick, a, hres, rfl⟩ := hc
    exact hw g pick a hg hres hne
  · obtain ⟨rfl, -⟩ := performs_autocommit hl hp
    exact hk g g' r

/-- The writes of an operator's update of a row. -/
theorem wrote_updateRow {k : Ref} {f : Row → Option Row} {n : ℕ} {view : List Row} {req : Request}
    (hres : (updateRow view k f).result = .ok n) (hne : (updateRow view k f).writes ≠ [])
    (hf : ∀ o r, o.primary = k → f o = some r → Wrote dep h req [upd o r]) :
    Wrote dep h req (updateRow view k f).writes := by
  rcases updateRow_ok hres with ⟨-, hws, -⟩ | ⟨-, o, r, -, hok, hfo, hws⟩
  · exact absurd hws hne
  · rw [hws]
    exact hf o r hok hfo

/-- **Every program the service runs keeps the contract of its request.** -/
theorem keeping_handler (i : ℕ) (req : Request) :
    Keeping dep (fun h _ r => Post dep h req r) [] ⟨i, req, none⟩ (handler dep req) := by
  have lift : ∀ {α : Type} {p : Prog Op Resp α} {f : α → Reply},
      Keeping dep (fun h _ a => Post dep h req (f a)) [] ⟨i, req, none⟩ p →
      Keeping dep (fun h _ r => Post dep h req r) [] ⟨i, req, none⟩ (p.bind fun a => .ret (f a)) :=
    fun hp => safe_bind.mpr hp
  cases req with
  | ensureSigningKey => exact lift (Safe.mono (fun _ _ _ _ => trivial) (keeping_ensureSigningKey rfl rfl))
  | signUp => exact lift (Safe.mono (fun _ _ _ _ => trivial) (keeping_signUp rfl rfl))
  | resendVerification => exact lift (keeping_resendVerification rfl rfl rfl)
  | verifyEmail => exact lift (keeping_verifyEmail rfl rfl)
  | login => exact lift (keeping_login rfl rfl)
  | authenticate => exact lift (keeping_authenticate rfl)
  | updateProfile => exact lift (Safe.mono (fun _ _ _ _ => trivial) (keeping_updateProfile rfl rfl))
  | updatePassword => exact lift (keeping_updatePassword rfl rfl)
  | setKeyStatus kid status =>
    refine keeping_statement rfl (fun g pick n _ hres hne => ?_) fun _ _ _ => trivial
    refine wrote_updateRow hres hne fun o r hok hfo => ?_
    cases o <;> cases hfo
    exact .setKeyStatus (Ref.key.inj hok)
  | setUserStatus userId status =>
    refine keeping_statement rfl (fun g pick n _ hres hne => ?_) fun _ _ _ => trivial
    refine wrote_updateRow hres hne fun o r hok hfo => ?_
    cases o <;> cases hfo
    exact .setUserStatus (Ref.user.inj hok)
  | softDelete userId =>
    refine keeping_statement rfl (fun g pick n hg hres hne => ?_) fun _ _ _ => trivial
    rcases updateLive_ok hg.unique hres with ⟨-, hws, -⟩ | ⟨-, u, -, hid, hlive, hws⟩
    · exact absurd hws hne
    · rw [show ((Sql.softDelete userId).exec g.clock pick g.db).writes = _ from hws]
      exact .softDelete hid hlive
  | markPublished id =>
    refine keeping_statement rfl (fun g pick n _ hres hne => ?_) fun _ _ _ => trivial
    refine wrote_updateRow hres hne fun o r hok hfo => ?_
    cases o <;> cases hfo
    exact .markPublished (Ref.event.inj hok)

end Identity
