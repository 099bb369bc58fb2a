import Mathlib.Data.Set.Card
import Mathlib.Data.Set.Finite.Lemmas
import HomeServices.Identity.Execution
import HomeServices.Identity.Undisturbed
import HomeServices.Identity.Waiting

/-!
# Transactions that wait for each other

Since all handlers lock in one order, nobody waits for long, but for updates that give new usernames: two
that swap them wait for each other until Postgres refuses one.

* `unfailing`: the calls of a run go on without failures.
* `run_on`, `settle`: the call that is furthest ends its transaction; so do all.
* **`no_deadlock`**: on every circle of waits a call is renaming, and each call can be run to its end;
  **`no_deadlock_swap`**: a circle of two.
* **`locked_by_open`**: nothing stays locked.
-/

namespace Identity

open ReadCommitted Interaction

section Progress

variable [Platform] {dep : Deployment} {scope : Scope} {db : List Row} {clock : ℕ} {c : State}

/-! ## Calls that go on -/

/-- The calls of a run go on: no call starts, nothing fails, and the clock stands still. -/
def unfailing : Machine Op Resp Session World Reply where
  start _ _ _ := False
  step _ o l g r l' g' := Fine (fun _ => True) o l g r l' g'
  again _ := none
  env _ _ := False

/-- An operation whose keys are free can be performed. -/
theorem fine_of_free {s : LockPhase} {o : Op} {l : Session} {g : World}
    (hallows : lockOrder.allows s o) (hold : Holding l g s) (hfree : g.store.Free l.pid (needs l g o)) :
    ∃ r l' g', Fine (fun _ => True) o l g r l' g' := by
  have run : ∀ (ch : Choice), ch.fault = false → (perform ch l g o).isSome = true →
      ∃ r l' g', Fine (fun _ => True) o l g r l' g' := fun ch hfault hsome => by
    obtain ⟨⟨r, l', g'⟩, hp⟩ := Option.isSome_iff_exists.mp hsome
    exact ⟨r, l', g', ch, hfault, trivial, hp⟩
  cases o with
  | begin =>
    cases s with
    | outside => exact run {} rfl (by simp [perform, hold.1])
    | inside n => exact hallows.elim
  | commit =>
    cases s with
    | outside => exact hallows.elim
    | inside n =>
      obtain ⟨tx, htx, -⟩ := hold
      exact run {} rfl (by simp [perform, htx])
  | sql s' =>
    refine run {} rfl ?_
    cases htx : l.tx with
    | some tx =>
      simp only [needs, Session.now, Session.view, htx, Option.elim_some] at hfree
      simp only [perform, htx, Bool.false_eq_true, if_false]
      rw [if_pos hfree]
      split <;> rfl
    | none =>
      simp only [needs, Session.now, Session.view, htx, Option.elim_none] at hfree
      simp only [perform, htx, Bool.false_and, Bool.false_eq_true, if_false]
      rw [if_pos hfree]
      split <;> rfl
  | fillRandom n =>
    refine run { bytes := List.replicate n 0 } rfl ?_
    simp [perform]
  | _ => exact run {} rfl rfl

/-- A call that needs no key of another can perform its next operation. -/
theorem fine_of_not_blocked (hc : Reachable (machine dep scope) (boot db clock) c) {i : ℕ} {l : Session}
    {o : Op} {k : Resp o → Prog Op Resp Reply} {h : Hist} (hi : c.thread i = some ⟨l, .call o k, h⟩)
    (hblocked : ∀ j, ¬ Blocked c i j) : ∃ r l' g', Fine (fun _ => True) o l c.glob r l' g' := by
  have hpid : l.pid = i := (origin_reachable hc i _ hi).pid
  refine fine_of_free (follows_thread hc hi).1 (holding_reachable hc hi) fun r hr => ?_
  cases hlock : c.glob.store.lock r with
  | none => exact Or.inl rfl
  | some j =>
    refine Or.inr (congrArg some ?_)
    rw [hpid]
    by_contra hne
    exact hblocked j ⟨Ne.symm hne, l, o, k, h, hi, r, hr, hlock⟩

theorem reachable_of_unfailing {allowed : Request → Prop} {c c' : State} (h : Reachable unfailing c c') :
    Reachable (machine dep (.of allowed)) c c' := by
  refine Relation.ReflTransGen.mono (fun c c' hs => ?_) _ _ h
  cases hs with
  | env henv => exact henv.elim
  | spawn _ hst => exact hst.elim
  | call hi hst =>
    obtain ⟨ch, -, -, hp⟩ := hst
    exact .call hi ⟨⟨ch, hp⟩, trivial⟩
  | again _ hag => cases hag

/-- A transaction goes on to later phases until it ends. -/
theorem rank_next {s : LockPhase} {o : Op} {r : Resp o} (hallows : lockOrder.allows s o)
    (hnext : lockOrder.next s o r ≠ .outside) : s.rank ≤ (lockOrder.next s o r).rank := by
  cases s with
  | outside => exact Nat.zero_le _
  | inside n =>
    cases o with
    | commit | rollback => exact absurd rfl hnext
    | begin => exact hallows.elim
    | sql s =>
      rcases hallows with ⟨hash, rfl⟩ | ⟨m, hlevel, hn⟩
      · exact (congrArg LockPhase.rank (ite_self _)).ge
      · simp only [lockOrder, hlevel, Option.elim_some]
        split_ifs
        · exact Nat.le_succ_of_le hn
        · exact Nat.le_refl _
    | _ => exact Nat.le_refl _

/-- An operation of a thread leaves the other threads as they are. -/
theorem exists_step {i : ℕ} {l l' : Session} {o : Op} {k : Resp o → Prog Op Resp Reply} {h : Hist}
    {r : Resp o} {g' : World} (hi : c.thread i = some ⟨l, .call o k, h⟩)
    (hfine : Fine (fun _ => True) o l c.glob r l' g') :
    ∃ c₁, Step unfailing c c₁ ∧
      c₁.thread i = some ⟨l', k r, ⟨o, r, l, c.glob, l', g'⟩ :: h⟩ ∧
      ∀ j, j ≠ i → c₁.thread j = c.thread j :=
  ⟨_, .call hi hfine, Function.update_self .., fun _ hj => Function.update_of_ne hj ..⟩

theorem rankOf_congr {c c' : State} {i : ℕ} (h : c'.thread i = c.thread i) : rankOf c' i = rankOf c i := by
  simp only [rankOf, h]

section Settling

variable {allowed : Request → Prop}

/-- **The call that is furthest goes on to the end of its transaction**, or to its own when no call is
in one. -/
theorem run_on (hdb : UniqueKeys db) {n i : ℕ} {p : Prog Op Resp Reply} :
    ∀ {c : State} {l : Session} {h : Hist}, Reachable (machine dep (.of allowed)) (boot db clock) c →
      c.thread i = some ⟨l, p, h⟩ → (∀ j, j ≠ i → rankOf c j ≤ n) → n ≤ rankOf c i →
      ∃ c' t', Reachable unfailing c c' ∧ c'.thread i = some t' ∧
        (∀ j, j ≠ i → c'.thread j = c.thread j) ∧ lockPhase t' = .outside ∧
        (0 < n ∨ ∃ r, t'.prog = .ret r) := by
  induction p with
  | ret r =>
    intro c l h hc hi _ _
    exact ⟨c, _, .refl, hi, fun _ _ => rfl, follows_thread hc hi, Or.inr ⟨r, rfl⟩⟩
  | call o k ih =>
    intro c l h hc hi hothers hn
    have hblocked : ∀ j, ¬ Blocked c i j := fun j hb =>
      absurd (rank_of_blocked hdb hc hb) (Nat.not_lt.mpr ((hothers j (Ne.symm hb.1)).trans hn))
    obtain ⟨r, l', g', hfine⟩ := fine_of_not_blocked hc hi hblocked
    obtain ⟨c₁, hstep, hi₁, hsame⟩ := exists_step hi hfine
    by_cases hend : lockOrder.next (lockOrder.phase .outside h) o r = .outside ∧ 0 < n
    · exact ⟨c₁, _, .single hstep, hi₁, hsame, hend.1, Or.inl hend.2⟩
    · have hc₁ := Reachable.trans hc (reachable_of_unfailing (.single hstep))
      have hothers₁ : ∀ j, j ≠ i → rankOf c₁ j ≤ n := fun j hj =>
        (rankOf_congr (hsame j hj)).trans_le (hothers j hj)
      have hn₁ : n ≤ rankOf c₁ i := by
        rw [rankOf_eq hi] at hn
        rw [rankOf_eq hi₁]
        rcases Nat.eq_zero_or_pos n with rfl | hpos
        · exact Nat.zero_le _
        · exact hn.trans (rank_next (follows_thread hc hi).1 fun hout => hend ⟨hout, hpos⟩)
      obtain ⟨c', t', hreach, ht', hothers', hout, hdone⟩ := ih r hc₁ hi₁ hothers₁ hn₁
      exact ⟨c', t', .head hstep hreach, ht', fun j hj => (hothers' j hj).trans (hsame j hj), hout,
        hdone⟩

/-- The threads that are in a transaction. -/
def inTransaction (c : State) : Set ℕ := {i | ∃ t, c.thread i = some t ∧ lockPhase t ≠ .outside}

theorem rankOf_of_not_mem {i : ℕ} (h : i ∉ inTransaction c) : rankOf c i = 0 := by
  cases hi : c.thread i with
  | none => simp [rankOf, hi]
  | some t =>
    have hout : lockPhase t = .outside := by
      by_contra hne
      exact h ⟨t, hi, hne⟩
    rw [rankOf_eq hi, hout]
    rfl

/-- **All calls in a transaction can go on to its end.** -/
theorem settle (hdb : UniqueKeys db) {m : ℕ} : ∀ {c : State},
    Reachable (machine dep (.of allowed)) (boot db clock) c → (inTransaction c).ncard = m →
      ∃ c', Reachable unfailing c c' ∧ inTransaction c' = ∅ := by
  induction m using Nat.strong_induction_on with
  | _ m ih =>
    intro c hc hm
    have hfinite : (inTransaction c).Finite :=
      (finite_threads (fun _ => rfl) hc).subset fun i ⟨t, ht, _⟩ hnone => by cases hnone.symm.trans ht
    rcases (inTransaction c).eq_empty_or_nonempty with hempty | hne
    · exact ⟨c, .refl, hempty⟩
    · obtain ⟨i, ⟨t, hi, hin⟩, hmax⟩ := Set.exists_max_image _ (rankOf c) hfinite hne
      have hothers : ∀ j, j ≠ i → rankOf c j ≤ rankOf c i := fun j _ => by
        by_cases hj : j ∈ inTransaction c
        · exact hmax j hj
        · rw [rankOf_of_not_mem hj]
          exact Nat.zero_le _
      obtain ⟨c₁, t₁, hreach, ht₁, hsame, hout, -⟩ := run_on hdb hc hi hothers (Nat.le_refl _)
      have hless : inTransaction c₁ ⊆ inTransaction c \ {i} := by
        rintro j ⟨t', ht', hin'⟩
        by_cases hji : j = i
        · subst hji
          cases ht₁.symm.trans ht'
          exact absurd hout hin'
        · exact ⟨⟨t', (hsame j hji).symm.trans ht', hin'⟩, hji⟩
      have hcard : (inTransaction c₁).ncard < m := by
        refine (Set.ncard_le_ncard hless (hfinite.subset Set.sdiff_subset)).trans_lt ?_
        rw [← hm]
        exact Set.ncard_sdiff_singleton_lt_of_mem ⟨t, hi, hin⟩ hfinite
      have hc₁ := Reachable.trans hc (reachable_of_unfailing hreach)
      obtain ⟨c', hreach', hempty⟩ := ih _ hcard hc₁ rfl
      exact ⟨c', Reachable.trans hreach hreach', hempty⟩

/-- **However far the statements have got, on every circle of calls that wait for each other there is one that
is renaming its user, and where no statement has begun each call can be run to its end**, whatever the run
was: without failures, by steps of the calls that there are. -/
theorem no_deadlock (hdb : UniqueKeys db)
    (hc : Reachable (machine dep (.of allowed)) (boot db clock) c) :
    (∀ n, Taking c n → ∀ i, Relation.TransGen (WaitsFor c n) i i → ∃ j, Renaming c n j ∧
      Relation.TransGen (WaitsFor c n) i j ∧ Relation.TransGen (WaitsFor c n) j i) ∧
    ∀ i t, c.thread i = some t → ∃ c' l r h, Reachable unfailing c c' ∧
      c'.thread i = some ⟨l, .ret r, h⟩ := by
  refine ⟨fun n htaking i hcircle => ?_, fun i t ht => ?_⟩
  · have hfurther : ∀ i j, WaitsFor c n i j → ¬ Renaming c n i → ¬ Renaming c n j →
        toLex (placeOf c i, n i) < toLex (placeOf c j, n j) := fun _ _ => place_lt_of_waits hdb hc htaking
    exact exists_of_transGen_self hfurther hcircle
  obtain ⟨c₁, hreach, hempty⟩ := settle hdb hc rfl
  obtain ⟨t₁, ht₁, -⟩ := Reachable.hist_suffix hreach ht
  have hrank : ∀ j, rankOf c₁ j ≤ 0 := fun j => by
    rw [rankOf_of_not_mem (by rw [hempty]; exact Set.notMem_empty j)]
  have hc₁ := Reachable.trans hc (reachable_of_unfailing hreach)
  obtain ⟨c', t', hreach', ht', -, -, hdone⟩ := run_on hdb hc₁ ht₁ (fun j _ => hrank j) (Nat.zero_le _)
  obtain ⟨r, hr⟩ := hdone.resolve_left (lt_irrefl 0)
  refine ⟨c', t'.loc, r, t'.hist, Reachable.trans hreach hreach', ?_⟩
  rw [← hr]
  exact ht'

end Settling

/-- **Nothing stays locked**: who has locked a key is a call in an open transaction, which has not
returned, whatever has failed in the run. The rollback of a transaction that is dropped, and the release
after its connection is lost, are immediate here. -/
theorem locked_by_open (hc : Reachable (machine dep scope) (boot db clock) c) {r : Ref} {i : ℕ}
    (hlock : c.glob.store.lock r = some i) :
    ∃ l o k h, c.thread i = some ⟨l, .call o k, h⟩ ∧ l.tx ≠ none := by
  obtain ⟨⟨l, p, h⟩, ht⟩ := Option.ne_none_iff_exists'.mp (owner_reachable hc r i hlock)
  have hpid : l.pid = i := (origin_reachable hc i _ ht).pid
  have hold := holding_reachable hc ht
  have hfollows := follows_thread hc ht
  change Holding l c.glob (lockOrder.phase .outside h) at hold
  generalize lockOrder.phase .outside h = s at hold hfollows
  cases s with
  | outside => exact absurd (hpid.symm ▸ hlock) (hold.2 r)
  | inside n =>
    obtain ⟨tx, htx, -⟩ := hold
    cases p with
    | ret a => cases hfollows
    | call o k => exact ⟨l, o, k, h, ht, by rw [htx]; exact Option.some_ne_none tx⟩

/-! ## Examples -/

/-- Whether the next operation of `i` needs a key that `j` has locked. -/
def blocked (i j : ℕ) (c : State) : Bool :=
  match c.thread i with
  | some ⟨l, .call o _, _⟩ => i ≠ j && (needs l c.glob o).any fun r => c.glob.store.lock r = some j
  | _ => false

theorem blocked_iff {i j : ℕ} : blocked i j c = true → Blocked c i j := by
  intro h
  unfold blocked at h
  split at h
  · rename_i l o k hist hi
    simp only [Bool.and_eq_true, decide_eq_true_eq, List.any_eq_true] at h
    obtain ⟨hne, r, hr, hlock⟩ := h
    exact ⟨hne, l, o, k, hist, hi, r, hr, hlock⟩
  · cases h

end Progress

open Sample

def Sample.bob : StoredUser := { ada with id := 2, username := "bob", email := "bob@home" }

/-- Two calls swap the usernames of their users. -/
def Sample.swap : List Command :=
  call 0 (.updateProfile 1 none none (some "bob")) [fine] ++
    call 1 (.updateProfile 2 none none (some "ada")) [fine]

/-- Each call has locked its row. -/
def Sample.halfway (i : ℕ) : ℕ := if i < 2 then 1 else 0

/-- Both calls have the statement before them, and nothing is locked. -/
theorem exists_swap : ∃ c : State,
    Reachable (machine deployment (.of fun _ => True)) (boot [.user ada, .user bob] 0) c ∧
    c.glob = (boot [.user ada, .user bob] 0 : State).glob ∧ (∀ i, 2 ≤ i → c.thread i = none) ∧
    (∃ l k h, l.tx = none ∧
      c.thread 0 = some ⟨l, .call (.sql (.updateProfile 1 none none (some "bob"))) k, h⟩) ∧
    ∃ l k h, l.tx = none ∧
      c.thread 1 = some ⟨l, .call (.sql (.updateProfile 2 none none (some "ada"))) k, h⟩ := by
  have hexec : ∃ c : State, execute deployment (.of fun _ => True) (boot [.user ada, .user bob] 0) swap =
      some c ∧ c.glob = (boot [.user ada, .user bob] 0 : State).glob ∧
      (∃ l k h, l.tx = none ∧
        c.thread 0 = some ⟨l, .call (.sql (.updateProfile 1 none none (some "bob"))) k, h⟩) ∧
      ∃ l k h, l.tx = none ∧
        c.thread 1 = some ⟨l, .call (.sql (.updateProfile 2 none none (some "ada"))) k, h⟩ :=
    ⟨_, rfl, rfl, ⟨_, _, _, rfl, rfl⟩, ⟨_, _, _, rfl, rfl⟩⟩
  obtain ⟨c, hexec, hglob, hfirst, hsecond⟩ := hexec
  refine ⟨c, Driver.reachable hexec, hglob, fun i hi => ?_, hfirst, hsecond⟩
  refine (Driver.execute_thread (fun cmd hcmd => ?_) hexec).trans rfl
  have htarget : ∀ cmd ∈ swap, cmd.target = some 0 ∨ cmd.target = some 1 := by
    simp [swap, call, Interaction.Command.target]
  rintro htwo
  rcases htarget cmd hcmd with h | h <;> rw [htwo] at h <;> cases h <;> omega

/-- **Two calls that swap usernames wait for each other**, when each has locked its row. -/
theorem no_deadlock_swap : ∃ c : State,
    Reachable (machine deployment (.of fun _ => True)) (boot [.user ada, .user bob] 0) c ∧
    Taking c halfway ∧ Relation.TransGen (WaitsFor c halfway) 0 0 ∧
    (∃ j, Renaming c halfway j ∧ Relation.TransGen (WaitsFor c halfway) 0 j ∧
      Relation.TransGen (WaitsFor c halfway) j 0) ∧
    ∀ i t, c.thread i = some t → ∃ c' l r h, Reachable unfailing c c' ∧
      c'.thread i = some ⟨l, .ret r, h⟩ := by
  obtain ⟨c, hc, hglob, hnone, ⟨l₀, k₀, h₀, htx₀, ht₀⟩, ⟨l₁, k₁, h₁, htx₁, ht₁⟩⟩ := exists_swap
  have hunique : UniqueKeys [Row.user ada, Row.user bob] := by
    refine List.pairwise_pair.mpr fun k hu ht => ?_
    change k ∈ [Ref.user 1, .username "ada", .email "ada@home"] at hu
    change k ∈ [Ref.user 2, .username "bob", .email "bob@home"] at ht
    grind
  have hstages₀ : stagesOf c 0 = [[.user 1, .username "ada", .email "ada@home"], [.username "bob"]] := by
    rw [stagesOf_eq ht₀, Session.view, Session.now, htx₀, hglob]
    decide +kernel
  have hstages₁ : stagesOf c 1 = [[.user 2, .username "bob", .email "bob@home"], [.username "ada"]] := by
    rw [stagesOf_eq ht₁, Session.view, Session.now, htx₁, hglob]
    decide +kernel
  have htaken₀ : taken c halfway 0 = [.user 1, .username "ada", .email "ada@home"] := by
    rw [taken, hstages₀]
    rfl
  have htaken₁ : taken c halfway 1 = [.user 2, .username "bob", .email "bob@home"] := by
    rw [taken, hstages₁]
    rfl
  have htaking : Taking c halfway := by
    refine ⟨fun i => ?_, fun i r _ j hlock => ?_, fun i l s k h hi hrow => ?_⟩
    · rcases i with _ | _ | i
      · exact Or.inr (by rw [hstages₀]; decide)
      · exact Or.inr (by rw [hstages₁]; decide)
      · exact Or.inl (if_neg (by omega))
    · rw [hglob] at hlock
      cases hlock
    · rcases i with _ | _ | i
      · cases ht₀.symm.trans hi
        cases hrow
      · cases ht₁.symm.trans hi
        cases hrow
      · cases (hnone _ (by omega)).symm.trans hi
  have hfirst : WaitsFor c halfway 0 1 :=
    ⟨by decide, [.username "bob"], by rw [hstages₀]; rfl, _, List.mem_singleton_self _,
      Or.inr (by rw [htaken₁]; decide)⟩
  have hsecond : WaitsFor c halfway 1 0 :=
    ⟨by decide, [.username "ada"], by rw [hstages₁]; rfl, _, List.mem_singleton_self _,
      Or.inr (by rw [htaken₀]; decide)⟩
  have hcircle : Relation.TransGen (WaitsFor c halfway) 0 0 := .head hfirst (.single hsecond)
  have hfree := no_deadlock hunique hc
  exact ⟨c, hc, htaking, hcircle, hfree.1 halfway htaking 0 hcircle, hfree.2⟩


/-- Two calls consume one token: the second finds it locked by the first. -/
def Sample.queue : List Command :=
  call 0 (.verifyEmail (Base64Url.encodeString (rawToken 5))) (List.replicate 5 fine) ++
    call 1 (.verifyEmail (Base64Url.encodeString (rawToken 5))) (List.replicate 4 fine)

/-- The lock that the second call waits for is that of the first, which is in its transaction. -/
theorem locked_by_open_queue : ∃ (c : State) (r : Ref), c.glob.store.lock r = some 0 ∧
    ∃ l o k h, c.thread 0 = some ⟨l, .call o k, h⟩ ∧ l.tx ≠ none := by
  have hrun : (execute deployment (.of fun _ => True) (boot [.user ada, .token adaToken] 0)
      queue).any (blocked 1 0) = true := by decide +kernel
  obtain ⟨c, -, hc, hblocked⟩ := Driver.exists_of_execute hrun
  obtain ⟨-, l, o, k, h, -, r, -, hlock⟩ := blocked_iff hblocked
  exact ⟨c, r, hlock, locked_by_open hc hlock⟩

end Identity
