import Mathlib.Data.List.Perm.Subperm
import HomeServices.Identity.Emails

/-!
# The resend limit

A resend counts the recent tokens of its user before its transaction begins, so that tokens
committed meanwhile are not counted.

* `issuedWithin`, `emailsWithin`: what is issued and queued within an hour.
* `uncontended`, `limited`: no other token of the user is committed between the count of a resend and
  its commit.
* `Counted`, `issued_of_commit`: who issues a token to a user with tokens has counted them.
* **`resend_rate_limit`**: in runs whose resends are not contended, no hour has more than three tokens
  of a user, or emails to an address.
* `overlapping_resends`: a run with four.
-/

namespace Identity

open ReadCommitted Interaction

/-- Corresponding lists have as many elements that the relation carries over. -/
theorem countP_le_of_forall₂ {α β : Type} {R : α → β → Prop} {p : α → Bool} {q : β → Bool}
    (hpq : ∀ a b, R a b → q b = true → p a = true) {l : List α} {l' : List β}
    (h : List.Forall₂ R l l') : l'.countP q ≤ l.countP p := by
  induction h with
  | nil => exact le_refl _
  | @cons a b l l' hab _ ih =>
    rw [List.countP_cons, List.countP_cons]
    have hle : (if q b = true then 1 else 0) ≤ if p a = true then 1 else 0 := by
      split_ifs with hq hp
      · exact le_refl _
      · exact absurd (hpq a b hab hq) hp
      · exact Nat.zero_le _
      · exact le_refl _
    exact Nat.add_le_add ih hle

/-- The user's tokens created in the hour up to `t`. -/
def issuedWithin (userId : Uuid) (t : ℕ) (db : List Row) : List StoredToken :=
  (tokens db).filter fun s => s.userId = userId ∧ t < s.createdAt + hour ∧ s.createdAt ≤ t

section Limit

variable [Platform] {dep : Deployment} {clock : ℕ} {c : State} {db : List Row}

/-- The verification emails to an address queued in the hour up to `t`. -/
def emailsWithin (address : String) (t : ℕ) (db : List Row) : List StoredEvent :=
  (verifications db).filter fun e =>
    ((verification e).any fun p => lower p.1.recipientEmail = lower address) ∧
      t < e.createdAt + hour ∧ e.createdAt ≤ t

def Op.isCommit : Op → Bool
  | .commit => true
  | _ => false

/-- Every token, by now, of a user whose tokens the call has counted was there when it counted them. -/
def uncontended (h : Hist) (g : World) : Bool :=
  h.all fun e => match e.op with
    | .sql (.countRecentTokens userId) => (tokens g.db).all fun t =>
      t.userId ≠ userId || (tokens e.pre.db).any fun s => s.id = t.id
    | _ => true

/-- Runs in which no other token of the user is committed between the count of a resend and its commit. -/
def limited (allowed : Request → Prop) : Scope where
  allowed := allowed
  guard h o _ g := o.isCommit = true → uncontended h g = true

/-! ## The invariant -/

/-- Every token belongs to a user, and no hour has more than three tokens of one user. -/
structure Limited (db : List Row) : Prop where
  owned : ∀ t ∈ db.filterMap issued, ∃ u, .user u ∈ db ∧ u.id = t.userId
  bound : ∀ x t, (issuedWithin x t db).length ≤ maxTokensPerHour

omit [Platform] in
/-- Consumption does not matter to a count of tokens. -/
theorem length_filter_tokens {p : StoredToken → Bool}
    (hp : ∀ t : StoredToken, p { t with consumedAt := none } = p t) :
    ((tokens db).filter p).length = (db.filterMap issued).countP p := by
  rw [filterMap_issued, List.countP_map, ← List.countP_eq_length_filter]
  exact List.countP_congr fun t _ => by rw [← hp t]; rfl

/-- A call that issues the token counted those of its user before, and found few. -/
def Counted (h : Hist) (t : StoredToken) : Prop :=
  ∃ e ∈ h, e.op = .sql (.countRecentTokens t.userId) ∧ e.pre.clock ≤ t.createdAt ∧
    recentTokens t.userId e.pre.clock e.pre.db < maxTokensPerHour

/-- **A commit issues no token, the first token of a new user, or one after a count of the user's.** -/
theorem issued_of_commit (hdb : UniqueKeys db) {scope : Scope} {i : ℕ}
    {th : Thread Op Resp Session World Reply} {ws : List (Write Row)}
    (hc : Reachable (machine dep scope) (boot db clock) c)
    (hw : MayCommit dep scope (boot db clock) c i th ws) :
    (inserted ws).filterMap issued = [] ∨ ∃ t, (inserted ws).filterMap issued = [t] ∧
      (∃ u, .user u ∈ applyAll ws c.glob.db ∧ u.id = t.userId) ∧
      ((∀ u, .user u ∈ c.glob.db → u.id ≠ t.userId) ∨ Counted th.hist t ∧ 1 < ws.length) := by
  obtain ⟨hthread, -, hwrote, -, hvalid, hpast⟩ := hw
  generalize th.loc.request = req at hwrote ⊢
  cases hwrote with
  | @signUp username email givenName familyName _ hash _ _ userId _ _ _ _ now =>
    refine Or.inr ⟨_, rfl, ⟨newUser userId username email givenName familyName hash now, by simp, rfl⟩,
      Or.inl fun u hu hid => ?_⟩
    have hkey : Keyed.primary (Row.user u) = Ref.user userId := congrArg Ref.user hid
    exact hvalid.1 _ hu (hkey ▸ Keyed.primary_mem _) List.mem_cons_self
  | @resendVerification email u g e₁ e₂ h₁ _ _ _ _ _ _ _ hsaw hu _ _ _ hsuf hnow he₂ hop hfew =>
    obtain ⟨v, hv, hid, -⟩ := (hpast g hsaw).user hdb hu
    refine Or.inr ⟨_, rfl, ⟨v, by simp [hv], hid⟩, Or.inr ⟨⟨e₂, ?_, hop, ?_, Nat.not_le.mp hfew⟩, ?_⟩⟩
    · exact hsuf.subset (List.mem_cons_of_mem _ he₂)
    · -- the count came before the transaction began
      obtain ⟨c₁, -, k, hc₁, ht₁, hpre, -⟩ := Happened.origin hc (fun _ => rfl) ⟨th, hthread, hsuf⟩
      have hle := (past_of_saw hc₁ ht₁ ⟨e₂, he₂, rfl⟩).clock_le
      rw [hpre, hnow] at hle
      exact hle
    · exact Nat.lt_add_one 1
  | updatePassword _ _ _ _ _ _ hws => rcases hws with ⟨rfl, -⟩ | ⟨v, -, -, -, rfl⟩ <;> exact Or.inl rfl
  | _ => exact Or.inl rfl

theorem mem_of_uncontended {h : Hist} {g : World} (hfree : uncontended h g = true) {e : Event} (he : e ∈ h)
    {userId : Uuid} (hop : e.op = .sql (.countRecentTokens userId)) :
    ∀ t, .token t ∈ g.db → t.userId = userId → ∃ s, .token s ∈ e.pre.db ∧ s.id = t.id := by
  intro t ht howner
  have hall := List.all_eq_true.mp hfree e he
  rw [hop] at hall
  have hany := List.all_eq_true.mp hall t (mem_tokens.mpr ht)
  simp only [howner, ne_eq, not_true_eq_false, decide_false, Bool.false_or] at hany
  obtain ⟨s, hs, hid⟩ := List.any_eq_true.mp hany
  exact ⟨s, mem_tokens.mp hs, of_decide_eq_true hid⟩

/-- Where all tokens of the user were counted, a later hour has no more of them than the count. -/
theorem issuedWithin_le (hdb : UniqueKeys db) {scope : Scope} {g : World} (hunique : UniqueKeys c.glob.db)
    (hpast : Past dep scope (boot db clock) c g) {userId : Uuid} {t : ℕ} (hle : g.clock ≤ t)
    (hall : ∀ s, .token s ∈ c.glob.db → s.userId = userId → ∃ s₀, .token s₀ ∈ g.db ∧ s₀.id = s.id) :
    (issuedWithin userId t c.glob.db).length ≤ recentTokens userId g.clock g.db := by
  have hids : ((issuedWithin userId t c.glob.db).map (·.id)).Nodup := by
    refine List.Nodup.map_on (fun s hs s' hs' hid => ?_) ?_
    · exact token_unique hunique (mem_tokens.mp (List.mem_filter.mp hs).1)
        (mem_tokens.mp (List.mem_filter.mp hs').1) hid
    · refine List.Nodup.filter _ (nodup_filterMap hunique fun r r' s hr hr' => ?_)
      cases r <;> cases hr
      cases r' <;> cases hr'
      rfl
  have hsub : (issuedWithin userId t c.glob.db).map (·.id) ⊆
      ((tokens g.db).filter fun s => s.userId = userId ∧ g.clock < s.createdAt + hour).map (·.id) := by
    intro id hid
    obtain ⟨s, hs, rfl⟩ := List.mem_map.mp hid
    obtain ⟨hs, hwindow⟩ := List.mem_filter.mp hs
    obtain ⟨howner, hlow, -⟩ := of_decide_eq_true hwindow
    obtain ⟨s₀, hs₀, hsame⟩ := hall s (mem_tokens.mp hs) howner
    have heq := hpast.token_eq hdb hunique hs₀ (mem_tokens.mp hs) hsame.symm
    have howner₀ : s₀.userId = userId := by
      rw [heq] at howner
      exact howner
    have hlow₀ : t < s₀.createdAt + hour := by
      rw [heq] at hlow
      exact hlow
    exact List.mem_map.mpr ⟨s₀, List.mem_filter.mpr ⟨mem_tokens.mpr hs₀,
      decide_eq_true ⟨howner₀, Nat.lt_of_le_of_lt hle hlow₀⟩⟩, hsame⟩
  have hlen := (List.Nodup.subperm hids hsub).length_le
  rwa [List.length_map, List.length_map] at hlen

theorem limited_step (hdb : UniqueKeys db) {allowed : Request → Prop} {i : ℕ}
    {th : Thread Op Resp Session World Reply} {ws : List (Write Row)}
    (hc : Reachable (machine dep (limited allowed)) (boot db clock) c)
    (hunique : UniqueKeys c.glob.db) (h : Limited c.glob.db)
    (hw : MayCommit dep (limited allowed) (boot db clock) c i th ws) :
    Limited (applyAll ws c.glob.db) := by
  have hkeeps := hw.keeps hdb hc
  have hgrows := grows_applyAll hunique hw.valid hkeeps
  have hissued := filterMap_applyAll (f := issued) (fun _ _ => issued_evolves) hunique hw.valid
    hkeeps
  have howned : ∀ t ∈ c.glob.db.filterMap issued,
      ∃ u, .user u ∈ applyAll ws c.glob.db ∧ u.id = t.userId := fun t ht => by
    obtain ⟨u, hu, hid⟩ := h.owned t ht
    obtain ⟨r, hr, hev⟩ := hgrows _ hu
    cases r with
    | user v => exact ⟨v, hr, hev.1.trans hid⟩
    | _ => exact hev.elim
  refine ⟨fun t ht => ?_, fun x t => ?_⟩
  · rw [hissued, List.mem_append] at ht
    rcases ht with ht | ht
    · exact howned t ht
    · rcases issued_of_commit hdb hc hw with hnone | ⟨s, hs, hu, -⟩
      · rw [hnone] at ht
        cases ht
      · rw [hs, List.mem_singleton] at ht
        rw [ht]
        exact hu
  · have hold := h.bound x t
    rw [issuedWithin, length_filter_tokens fun _ => rfl] at hold ⊢
    rw [hissued, List.countP_append]
    rcases issued_of_commit hdb hc hw with hnone | ⟨s, hs, -, hnew⟩
    · rw [hnone]
      exact hold
    rw [hs, List.countP_singleton]
    split_ifs with hwindow
    swap
    · exact hold
    obtain ⟨rfl, hlow, hhigh⟩ := of_decide_eq_true hwindow
    rcases hnew with hfresh | ⟨⟨e, he, hop, hbefore, hfew⟩, hlen⟩
    · -- a new user has no other token
      have hzero : (c.glob.db.filterMap issued).countP (fun s' => s'.userId = s.userId ∧
          t < s'.createdAt + hour ∧ s'.createdAt ≤ t) = 0 := List.countP_eq_zero.mpr fun s' hs' hp => by
        obtain ⟨u, hu, hid⟩ := h.owned s' hs'
        exact hfresh u hu (hid.trans (of_decide_eq_true hp).1)
      rw [hzero]
      decide
    · -- all other tokens of the user were there when the resend counted them
      obtain ⟨o, hcom, hguard⟩ := hw.commits
      obtain ⟨rfl, -⟩ := hcom.eq_commit hlen
      have hcounted := issuedWithin_le hdb hunique (hw.past _ ⟨e, he, rfl⟩) (hbefore.trans hhigh)
        (mem_of_uncontended (hguard rfl) he hop)
      rw [issuedWithin, length_filter_tokens fun _ => rfl] at hcounted
      exact Nat.succ_le_of_lt (Nat.lt_of_le_of_lt hcounted hfew)

/-- While no operator deletes users, all users are live. -/
theorem live_reachable {scope : Scope} (hscope : ∀ req, scope.allowed req → ∀ id, req ≠ .softDelete id)
    (hc : Reachable (machine dep scope) (boot [] clock) c) :
    ∀ u, .user u ∈ c.glob.db → u.deletedAt = none := by
  refine db_invariant (P := fun db => ∀ u, .user u ∈ db → u.deletedAt = none) List.Pairwise.nil
    (fun _ h => by cases h) ?_ hc
  intro c i t ws _ hunique ih hw u hu
  obtain ⟨-, hallowed, hwrote, -, hvalid, -⟩ := hw
  have hupd : ∀ {db : List Row} {v w : StoredUser}, .user v ∈ db →
      .user u ∈ (upd (.user v) (.user w)).apply db → w.deletedAt = v.deletedAt →
      (∀ u, .user u ∈ db → u.deletedAt = none) → u.deletedAt = none := by
    intro db v w hv hu hdel hlive
    rcases (mem_updUser hv).mp hu with rfl | ⟨hu, -⟩
    · rw [hdel]
      exact hlive v hv
    · exact hlive u hu
  generalize t.loc.request = req at hwrote hallowed
  cases hwrote with
  | signUp =>
    simp only [applyAll_cons, apply_ins, applyAll_nil, List.mem_append, List.mem_singleton,
      reduceCtorEq, or_false, Row.user.injEq] at hu
    rcases hu with hu | rfl
    · exact ih u hu
    · rfl
  | signingKey | login | resendVerification => exact ih u (by simpa using hu)
  | verifyEmail =>
    have hs := hvalid.1.1
    exact hupd hvalid.2.1.1 hu rfl fun v hv => ih v ((mem_user_updToken hs).mp hv)
  | updateProfile | setUserStatus => exact hupd hvalid.1.1 hu rfl ih
  | softDelete => exact absurd rfl (hscope _ hallowed _)
  | @updatePassword _ _ _ _ _ _ _ _ _ _ _ _ _ ws _ _ _ _ _ _ hws =>
    rw [applyAll_append] at hu
    have hu : .user u ∈ applyAll ws c.glob.db := by simpa using hu
    rcases hws with ⟨rfl, -⟩ | ⟨v, -, -, -, rfl⟩
    · exact ih u hu
    · exact hupd (validAll_append.mp hvalid).1.1.1 hu rfl ih
  | setKeyStatus | markPublished =>
    exact ih u ((mem_upd_of_ne hvalid.1.1 Row.noConfusion Ref.noConfusion).mp hu)

/-- Emails to one address are matched by tokens of one user. -/
theorem emailsWithin_le (hmatched : Matched dep db) (hdb : UniqueKeys db)
    (hlive : ∀ u, .user u ∈ db → u.deletedAt = none) (address : String) (t : ℕ) :
    ∃ x, (emailsWithin address t db).length ≤ (issuedWithin x t db).length := by
  obtain ⟨x, hx⟩ : ∃ x, ∀ u, .user u ∈ db → lower u.email = lower address → u.id = x := by
    by_cases hex : ∃ v, .user v ∈ db ∧ lower v.email = lower address
    · obtain ⟨v, hv, hv'⟩ := hex
      refine ⟨v.id, fun u hu hu' => ?_⟩
      rw [user_unique_email hdb hu hv (hlive u hu) (hlive v hv) (hu'.trans hv'.symm)]
    · exact ⟨0, fun u hu hu' => (hex ⟨u, hu, hu'⟩).elim⟩
  refine ⟨x, ?_⟩
  rw [emailsWithin, issuedWithin, ← List.countP_eq_length_filter, ← List.countP_eq_length_filter]
  refine countP_le_of_forall₂ (fun s e hse he => ?_) hmatched
  obtain ⟨m, v, raw, u, hver, -, -, -, -, -, hcreated, hu, hid, hto⟩ := hse
  obtain ⟨haddress, hlow, hhigh⟩ := of_decide_eq_true he
  rw [hver, Option.any_some, decide_eq_true_iff, hto] at haddress
  rw [hcreated] at hlow hhigh
  exact decide_eq_true ⟨hid.symm.trans (hx u hu haddress), hlow, hhigh⟩

/-- **While no other token of the user is committed between the count of a resend and its commit, no hour
has more than three tokens of one user; nor, while users are not deleted, three emails to one address.** -/
theorem resend_rate_limit {allowed : Request → Prop}
    (hc : Reachable (machine dep (limited allowed)) (boot [] clock) c) :
    (∀ x t, (issuedWithin x t c.glob.db).length ≤ maxTokensPerHour) ∧
    (EmailRoundTrip → (∀ req, allowed req → ∀ id, req ≠ .softDelete id) →
      ∀ address t, (emailsWithin address t c.glob.db).length ≤ maxTokensPerHour) := by
  have hlimited : Limited c.glob.db := by
    refine db_invariant List.Pairwise.nil ⟨?_, fun _ _ => Nat.zero_le _⟩ (fun _ _ _ _ hc hunique h hw =>
      limited_step List.Pairwise.nil hc hunique h hw) hc
    exact fun _ h => by cases h
  refine ⟨hlimited.bound, fun hemail hscope address t => ?_⟩
  obtain ⟨x, hle⟩ := emailsWithin_le (matched_reachable hemail hc)
    (sound_reachable List.Pairwise.nil hc).unique (live_reachable hscope hc) address t
  exact hle.trans (hlimited.bound x t)

end Limit

instance [Platform] (allowed : Request → Prop) [DecidablePred allowed] :
    DecidablePred (limited allowed).allowed := inferInstanceAs (DecidablePred allowed)

instance [Platform] (allowed : Request → Prop) (h : Hist) (o : Op) (l : Session) (g : World) :
    Decidable ((limited allowed).guard h o l g) :=
  inferInstanceAs (Decidable (o.isCommit = true → uncontended h g = true))

open Sample

/-- The requests of a user who signs up and asks for more emails. -/
def verifies : Request → Bool
  | .signUp _ _ _ _ _ | .resendVerification _ => true
  | _ => false

/-- Two resends one after the other. -/
theorem resend_rate_limit_sequential : ∃ c,
    execute deployment (limited (verifies ·)) (boot [] 0) (signUp 0 "ada" "ada@home" 1 5 ++
      resendVerification 1 "ada@home" 4 6 ++ resendVerification 2 "ada@home" 7 7) = some c ∧
    (tokens c.glob.db).length = 3 ∧ (∀ x t, (issuedWithin x t c.glob.db).length ≤ maxTokensPerHour) ∧
    ∀ address t, (emailsWithin address t c.glob.db).length ≤ maxTokensPerHour := by
  have hrun : (execute deployment (limited (verifies ·)) (boot [] 0) (signUp 0 "ada" "ada@home" 1 5 ++
      resendVerification 1 "ada@home" 4 6 ++ resendVerification 2 "ada@home" 7 7)).any
        (fun c => (tokens c.glob.db).length = 3) = true := by decide +kernel
  obtain ⟨c, hexec, hc, hlen⟩ := Driver.exists_of_execute hrun
  have hlimit := resend_rate_limit hc
  refine ⟨c, hexec, of_decide_eq_true hlen, hlimit.1, hlimit.2 emailRoundTrip fun req hreq id he => ?_⟩
  rw [he] at hreq
  cases hreq

/-- Three resends count the one token of the sign-up before any of them commits. -/
def overlap : List Command :=
  let resend (i : ℕ) (token : Uuid) (b : UInt8) := resendVerification i "ada@home" token b
  signUp 0 "ada" "ada@home" 1 5 ++ (resend 1 4 6).take 4 ++ (resend 2 6 7).take 4 ++
    (resend 3 8 8).take 4 ++ (resend 1 4 6).drop 4 ++ (resend 2 6 7).drop 4 ++ (resend 3 8 8).drop 4

/-- **Overlapping resends leave four tokens and four emails within an hour.** -/
theorem overlapping_resends : ∃ c,
    Reachable (machine deployment (.of (verifies ·))) (boot [] 0) c ∧
    (issuedWithin 1 0 c.glob.db).length = 4 ∧ (emailsWithin "ada@home" 0 c.glob.db).length = 4 := by
  have hrun : (execute deployment (.of (verifies ·)) (boot [] 0) overlap).any (fun c =>
      (issuedWithin 1 0 c.glob.db).length = 4 &&
        (emailsWithin "ada@home" 0 c.glob.db).length = 4) = true := by decide +kernel
  obtain ⟨c, -, hc, hlen⟩ := Driver.exists_of_execute hrun
  obtain ⟨htokens, hemails⟩ := Bool.and_eq_true_iff.mp hlen
  exact ⟨c, hc, of_decide_eq_true htokens, of_decide_eq_true hemails⟩

end Identity
