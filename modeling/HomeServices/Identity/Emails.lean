import Mathlib.Data.List.NodupEquivFin
import HomeServices.Identity.Execution
import HomeServices.Identity.Undisturbed

/-!
# Tokens and their emails

Every verification token has its queued email and every queued verification email its token; the
code in the email is the one that consumes the token.

* `verification`, `Corresponds`: the email an event carries, and what matches it to a token.
* `Matched`, **`matched_reachable`**: tokens and emails correspond in order of insertion.
* `CarriesKey`, **`carriesKey_reachable`**: the key of every queued email is the id of its event.
* `smoothly_verifyEmail`, `undisturbed_verifyEmail`: alone, `verify_email` consumes the token it is given.
* **`tokens_correspond`**: both, for every run from an empty database.
-/

namespace Identity

open ReadCommitted Interaction

/-- Lists that correspond position by position correspond one to one. -/
theorem equiv_of_forall₂ {α β : Type} [DecidableEq α] [DecidableEq β] {R : α → β → Prop}
    {l : List α} {l' : List β} (h : List.Forall₂ R l l') (hl : l.Nodup) (hl' : l'.Nodup) :
    ∃ f : {a // a ∈ l} ≃ {b // b ∈ l'}, ∀ a, R a.val (f a).val := by
  let f := (hl.getEquiv l).symm.trans ((finCongr h.length_eq).trans (hl'.getEquiv l'))
  refine ⟨f, fun a => ?_⟩
  obtain ⟨i, rfl⟩ := (hl.getEquiv l).surjective a
  have hf : (f (hl.getEquiv l i)).val = l'.get (Fin.cast h.length_eq i) := by
    simp [f]
  rw [hf]
  exact h.get i.2 (h.length_eq ▸ i.2)

section Emails

variable [Platform] {dep : Deployment} {scope : Scope} {clock : ℕ} {c : State} {db : List Row}

/-- The message and the email of a queued verification. -/
def verification (e : StoredEvent) : Option (AuthEmailMessage × EmailVerification) :=
  match decodeEmail e.payload with
  | some m => match m.payload with
    | some (.emailVerification v) => some (m, v)
    | _ => none
  | none => none

def verifications (db : List Row) : List StoredEvent :=
  (outbox db).filter fun e => (verification e).isSome

/-- The event queues the email that carries the code of the token to its user. -/
def Corresponds (dep : Deployment) (db : List Row) (t : StoredToken) (e : StoredEvent) : Prop :=
  ∃ m v raw u, verification e = some (m, v) ∧
    Base64Url.decodeVec v.verificationCode = some raw ∧ sha256 raw = t.tokenHash ∧
    v.verificationLink = verificationLink dep.webBaseUrl v.verificationCode ∧
    m.idempotencyKey = uuidText e.id ∧ e.aggregateId = t.userId ∧ e.createdAt = t.createdAt ∧
    .user u ∈ db ∧ u.id = t.userId ∧ m.recipientEmail = u.email

/-- Tokens and verification emails correspond, in order of insertion. -/
def Matched (dep : Deployment) (db : List Row) : Prop :=
  List.Forall₂ (Corresponds dep db) (tokens db) (verifications db)

/-! ## The invariant -/

/-- What a token row keeps. -/
def issued : Row → Option StoredToken
  | .token t => some { t with consumedAt := none }
  | _ => none

/-- What the row of a verification email keeps. -/
def queued : Row → Option StoredEvent
  | .event e => if (verification e).isSome then some { e with publishedAt := none } else none
  | _ => none

omit [Platform] in
theorem issued_evolves {r s : Row} (h : Evolves r s) : issued s = issued r := by
  cases r <;> cases s <;> first | exact h.elim | rfl | skip
  rw [issued, h.1]
  rfl

theorem queued_evolves {r s : Row} (h : Evolves r s) : queued s = queued r := by
  cases r <;> cases s <;> first | exact h.elim | rfl | skip
  rw [queued, h.1]
  rfl

omit [Platform] in
theorem filterMap_issued (db : List Row) :
    db.filterMap issued = (tokens db).map fun t => { t with consumedAt := none } := by
  rw [tokens, List.map_filterMap]
  refine List.filterMap_congr fun r _ => ?_
  cases r <;> rfl

theorem filterMap_queued (db : List Row) :
    db.filterMap queued = (verifications db).map fun e => { e with publishedAt := none } := by
  rw [verifications, outbox, List.filter_filterMap, List.map_filterMap]
  refine List.filterMap_congr fun r _ => ?_
  cases r with
  | event e =>
    change (if _ then _ else _) = (Option.filter _ (some e)).map _
    rw [Option.filter_some]
    split_ifs <;> rfl
  | _ => rfl

theorem matched_iff : Matched dep db ↔
    List.Forall₂ (Corresponds dep db) (db.filterMap issued) (db.filterMap queued) := by
  rw [filterMap_issued, filterMap_queued, List.forall₂_map_left_iff, List.forall₂_map_right_iff]
  rfl

theorem Corresponds.grows {db' : List Row} (h : Grows db db') {t : StoredToken} {e : StoredEvent}
    (hte : Corresponds dep db t e) : Corresponds dep db' t e := by
  obtain ⟨m, v, raw, u, he, hraw, hhash, hlink, hkey, hagg, hcreated, hu, hid, hto⟩ := hte
  obtain ⟨r, hr, hev⟩ := h _ hu
  cases r with
  | user u' =>
    exact ⟨m, v, raw, u', he, hraw, hhash, hlink, hkey, hagg, hcreated, hr, hev.1.trans hid,
      hto.trans hev.2.1.symm⟩
  | _ => exact hev.elim

theorem verification_newEvent (hemail : EmailRoundTrip) (id userId : Uuid) {m : AuthEmailMessage}
    {v : EmailVerification} (hm : m.payload = some (.emailVerification v))
    (trace : Option (String × String)) (now : ℕ) :
    verification (newEvent id userId m trace now) = some (m, v) := by
  have hdec : decodeEmail (encodeEmail m) = some m := hemail m fun _ _ h => by
    rw [hm] at h
    cases h
  simp only [verification, newEvent, hdec, hm]

/-- The event that announces a new password is no verification email. -/
theorem queued_passwordChanged (hemail : EmailRoundTrip) (id userId : Uuid) {m : AuthEmailMessage}
    {p : PasswordChanged} (hm : m.payload = some (.passwordChanged p))
    (trace : Option (String × String)) (now : ℕ) :
    queued (.event (newEvent id userId m trace now)) = none := by
  have hdec : decodeEmail (encodeEmail m) = some m := hemail m fun _ _ h => by
    rw [hm] at h
    cases h
  simp [queued, verification, newEvent, hdec, hm]

/-- A new token corresponds to its new event. -/
theorem corresponds_new (hemail : EmailRoundTrip) {u : StoredUser} (hu : .user u ∈ db)
    {userId : Uuid} (hid : u.id = userId) {email : String} (hto : u.email = email)
    (tokenId outboxId : Uuid) (raw : Bytes) (expiresAt producedAt now : ℕ)
    (givenName familyName : String) (trace : Option (String × String)) :
    List.Forall₂ (Corresponds dep db)
      ([Row.token (newToken tokenId userId (sha256 raw) expiresAt now)].filterMap issued)
      ([Row.event (newEvent outboxId userId (verificationEvent dep.webBaseUrl outboxId email givenName
        familyName trace producedAt (Base64Url.encodeString raw)) trace now)].filterMap queued) := by
  have hver := verification_newEvent hemail outboxId userId
    (m := verificationEvent dep.webBaseUrl outboxId email givenName familyName trace producedAt
      (Base64Url.encodeString raw)) rfl trace now
  generalize he : newEvent outboxId userId (verificationEvent dep.webBaseUrl outboxId email givenName
    familyName trace producedAt (Base64Url.encodeString raw)) trace now = e at hver ⊢
  have hqueued : queued (.event e) = some e := by
    rw [queued, hver, ← he]
    rfl
  rw [List.filterMap_cons_some hqueued]
  refine .cons ?_ .nil
  subst he
  exact ⟨_, _, raw, u, hver, Base64Url.decodeVec_encodeString raw, rfl, rfl, rfl, rfl, rfl, hu, hid,
    hto.symm⟩

/-- **The tokens and emails a commit adds correspond.** -/
theorem inserted_correspond (hemail : EmailRoundTrip) (hdb : UniqueKeys db) {i : ℕ}
    {th : Thread Op Resp Session World Reply} {ws : List (Write Row)}
    (hw : MayCommit dep scope (boot db clock) c i th ws) :
    List.Forall₂ (Corresponds dep (applyAll ws c.glob.db)) ((inserted ws).filterMap issued)
      ((inserted ws).filterMap queued) := by
  obtain ⟨-, -, hwrote, -, hvalid, hpast⟩ := hw
  generalize th.loc.request = req at hwrote
  cases hwrote with
  | @signUp username email givenName familyName _ hash _ _ userId _ _ _ _ now =>
    refine corresponds_new hemail (u := newUser userId username email givenName familyName hash now)
      ?_ rfl rfl _ _ _ _ _ _ _ _ _
    simp
  | @resendVerification _ u g _ _ _ _ _ _ _ _ _ _ hsaw hu =>
    obtain ⟨v, hv, hid, hto, -⟩ := (hpast g hsaw).user hdb hu
    exact corresponds_new hemail (List.mem_append_left _ (List.mem_append_left _ hv)) hid hto
      _ _ _ _ _ _ _ _ _
  | updatePassword _ _ _ _ _ _ hws =>
    have hnone := queued_passwordChanged hemail
    rcases hws with ⟨rfl, -⟩ | ⟨v, -, -, -, rfl⟩
    all_goals
      change List.Forall₂ _ [] ([Row.event _].filterMap queued)
      rw [List.filterMap_cons_none (hnone _ _ rfl _ _)]
      exact .nil
  | _ => exact .nil

/-- **Tokens and emails correspond in every run.** -/
theorem matched_reachable (hemail : EmailRoundTrip)
    (hc : Reachable (machine dep scope) (boot [] clock) c) : Matched dep c.glob.db := by
  refine db_invariant List.Pairwise.nil .nil ?_ hc
  intro c i t ws hc hunique ih hw
  have hkeeps := hw.keeps List.Pairwise.nil hc
  have hgrows := grows_applyAll hunique hw.valid hkeeps
  rw [matched_iff, filterMap_applyAll (fun _ _ => issued_evolves) hunique hw.valid hkeeps,
    filterMap_applyAll (fun _ _ => queued_evolves) hunique hw.valid hkeeps]
  exact List.rel_append ((matched_iff.mp ih).imp fun _ _ h => h.grows hgrows)
    (inserted_correspond hemail List.Pairwise.nil hw)

/-! ## Idempotency keys -/

/-- The event carries an email whose idempotency key is the id of the event. -/
def CarriesKey (e : StoredEvent) : Prop := ∃ m, e.payload = encodeEmail m ∧ m.idempotencyKey = uuidText e.id ∧
  ∀ field bytes, m.payload ≠ some (.other field bytes)

/-- What the row of an event keeps. -/
def enqueued : Row → Option StoredEvent
  | .event e => some { e with publishedAt := none }
  | _ => none

omit [Platform] in
theorem enqueued_evolves {r s : Row} (h : Evolves r s) : enqueued s = enqueued r := by
  cases r <;> cases s <;> first | exact h.elim | rfl | skip
  rw [enqueued, h.1]
  rfl

/-- The events of a commit carry their keys. -/
theorem carriesKey_inserted {i : ℕ} {th : Thread Op Resp Session World Reply} {ws : List (Write Row)}
    (hw : MayCommit dep scope (boot db clock) c i th ws) :
    ∀ e ∈ (inserted ws).filterMap enqueued, CarriesKey e := by
  have hnew : ∀ (outboxId userId : Uuid) (email givenName familyName : String) (trace : Option (String × String))
      (producedAt now : ℕ) (payload : Payload), (∀ field bytes, payload ≠ .other field bytes) →
      ∀ e ∈ [Row.event (newEvent outboxId userId (emailMessage outboxId email givenName familyName trace
        producedAt payload) trace now)].filterMap enqueued, CarriesKey e := by
    intro outboxId userId email givenName familyName trace producedAt now payload hpayload e he
    obtain rfl := List.mem_singleton.mp he
    exact ⟨_, rfl, rfl, fun field bytes h => hpayload field bytes (Option.some.inj h)⟩
  have hwrote := hw.wrote
  generalize th.loc.request = req at hwrote
  cases hwrote with
  | signUp => exact hnew _ _ _ _ _ _ _ _ _ fun _ _ h => by cases h
  | resendVerification => exact hnew _ _ _ _ _ _ _ _ _ fun _ _ h => by cases h
  | updatePassword _ _ _ _ _ _ hws =>
    rcases hws with ⟨rfl, -⟩ | ⟨v, -, -, -, rfl⟩
    · exact hnew _ _ _ _ _ _ _ _ _ fun _ _ h => by cases h
    · exact hnew _ _ _ _ _ _ _ _ _ fun _ _ h => by cases h
  | _ => exact fun _ he => (List.not_mem_nil he).elim

/-- **In every run every event carries its id as the idempotency key of its email.** -/
theorem carriesKey_reachable (hdb : UniqueKeys db) (h0 : ∀ e, .event e ∈ db → CarriesKey e)
    (hc : Reachable (machine dep scope) (boot db clock) c) : ∀ e, .event e ∈ c.glob.db → CarriesKey e := by
  have hkept : ∀ e ∈ c.glob.db.filterMap enqueued, CarriesKey e := by
    refine db_invariant (P := fun db => ∀ e ∈ db.filterMap enqueued, CarriesKey e) hdb ?_ ?_ hc
    · intro e he
      obtain ⟨r, hr, hre⟩ := List.mem_filterMap.mp he
      cases r with
      | event e' =>
        cases hre
        have hkey := h0 e' hr
        exact hkey
      | _ => cases hre
    · intro c i t ws hc hunique ih hw e he
      rw [filterMap_applyAll (fun _ _ => enqueued_evolves) hunique hw.valid (hw.keeps hdb hc)] at he
      rcases List.mem_append.mp he with he | he
      · exact ih e he
      · exact carriesKey_inserted hw e he
  intro e he
  exact hkept { e with publishedAt := none } (List.mem_filterMap.mpr ⟨_, he, rfl⟩)

/-! ## Presenting the code -/

/-- A lookup by hash finds the unconsumed token that has it. -/
theorem tokenByHash_exec (hdb : UniqueKeys db) {t : StoredToken} (ht : .token t ∈ db)
    (hopen : t.consumedAt = none) (now pick : ℕ) :
    (Sql.tokenByHash t.tokenHash).exec now pick db = select (.ok (some t.toTokenRow)) := by
  obtain ⟨found, hres⟩ := tokenByHash_total hdb t.tokenHash now pick
  have hfound : found = some t.toTokenRow := by
    cases found with
    | none =>
      have hnil := List.map_eq_nil_iff.mp (queryOpt_eq_none hres)
      have hcond := List.filter_eq_nil_iff.mp hnil t (mem_tokens.mpr ht)
      exact absurd (decide_eq_true ⟨rfl, hopen⟩) hcond
    | some row =>
      obtain ⟨s, hs, rfl, hhash, hsopen⟩ := tokenByHash_found hres
      rw [token_unique_hash hdb hs ht hsopen hopen hhash]
  rw [← hfound]
  exact congrArg select hres

/-- The writes of a `verify_email` that consumes `t` and activates `u`. -/
def verifyWrites (t : StoredToken) (u : StoredUser) (now : ℕ) : List (Write Row) :=
  [upd (.token t) (.token { t with consumedAt := some now }),
    upd (.user u) (.user { u with emailVerified := true, status := .active, updatedAt := now })]

/-- **Alone, before the token expires and while its user is live, `verify_email` consumes it.** -/
theorem smoothly_verifyEmail {P : Op → Choice → Prop} (hP : ∀ o, ∃ ch, ch.fault = false ∧ P o ch)
    {rawToken : String} {raw : Bytes} {t : StoredToken} {u : StoredUser} {l : Session} {g : World}
    (hg : UniqueKeys g.db) (hlock : Unlocked l.pid g) (hl : l.tx = none)
    (hraw : Base64Url.decodeVec rawToken = some raw) (ht : .token t ∈ g.db)
    (hhash : sha256 raw = t.tokenHash) (hopen : t.consumedAt = none) (hu : .user u ∈ g.db)
    (hid : u.id = t.userId) (hlive : u.deletedAt = none)
    (hexpires : ∀ ch, P .utcNow ch → ch.instant.val ≤ t.expiresAt) :
    Smoothly P (fun _ g' r => r = .ok () ∧ LockFree g' ∧
      ∃ now, g'.db = applyAll (verifyWrites t u now) g.db) l g (VerifyEmail.execute rawToken).run := by
  unfold VerifyEmail.execute VerifyEmail.consumeToken VerifyEmail.markEmailVerified
  simp only [bind_assoc]
  refine alone_fromExcept_bind.mpr ?_
  rw [hraw]
  change Smoothly _ _ l g _
  refine smoothly_getConnection (hP _) fun g₁ hg₁ => ?_
  have hlock₁ : Unlocked l.pid g₁ := fun k => hg₁ ▸ hlock k
  refine smoothly_transaction (hP _) (hP _) hlock₁ hl fun l₂ g₂ now hdb₂ hlock₂ hl₂ => ?_
  have hdb₂ : g₂.db = g.db := hdb₂.trans (congrArg Store.rows hg₁)
  have htx₂ : l₂.tx = some ⟨now, []⟩ := by rw [hl₂]
  refine smoothly_query (hP _) hlock₂ htx₂ (a := some t.toTokenRow) (w := []) (fun pick => ?_)
    fun l₃ g₃ hdb₃ hlock₃ hl₃ => ?_
  · rw [applyAll_nil, hdb₂, hhash]
    exact ⟨_, tokenByHash_exec hg ht hopen now pick⟩
  have htx₃ : l₃.tx = some ⟨now, []⟩ := by rw [hl₃]; rfl
  refine alone_fromExcept_bind.mpr ?_
  change Smoothly _ _ l₃ g₃ _
  refine smoothly_draw (o := .utcNow) (hP _) (f := Choice.instant) (fun _ _ _ => rfl) fun ch g₄ hch hg₄ => ?_
  refine alone_fromExcept_bind.mpr (onResult_require.mpr ⟨fun _ => ?_, fun hexp => ?_⟩)
  swap
  · exact absurd (Nat.not_lt.mpr (hexpires ch hch)) hexp
  have hdb₄ : g₄.db = g.db := (congrArg Store.rows hg₄).trans (hdb₃.trans hdb₂)
  have hlock₄ : Unlocked l₃.pid g₄ := fun k => hg₄ ▸ hlock₃ k
  have hconsume : ∀ pick, (Sql.consumeToken t.id).exec now pick g.db = ⟨.ok 1,
      [upd (.token t) (.token { t with consumedAt := some now })], _⟩ := fun pick =>
    updateRow_found hg ht (r := .token { t with consumedAt := some now }) (by simp [hopen])
      (by simp [Row.keys])
  refine smoothly_query (hP _) hlock₄ htx₃ (a := 1)
    (w := [upd (.token t) (.token { t with consumedAt := some now })]) (fun pick => ?_)
    fun l₅ g₅ hdb₅ hlock₅ hl₅ => ?_
  · rw [applyAll_nil, hdb₄]
    exact ⟨_, hconsume pick⟩
  have htx₅ : l₅.tx = some ⟨now, [upd (.token t) (.token { t with consumedAt := some now })]⟩ := by
    rw [hl₅]; rfl
  refine alone_fromExcept_bind.mpr (onResult_require.mpr ⟨fun _ => ?_, fun h => absurd Nat.one_ne_zero h⟩)
  have hmid : UniqueKeys ((upd (.token t) (.token { t with consumedAt := some now })).apply g.db) := by
    have hlaw := (exec_lawful now 0 g.db (.consumeToken t.id)).valid
    rw [hconsume 0] at hlaw
    exact hg.apply hlaw.1
  refine smoothly_query (hP _) hlock₅ htx₅ (a := 1)
    (w := [upd (.user u) (.user { u with emailVerified := true, status := .active, updatedAt := now })])
    (fun pick => ?_) fun l₆ g₆ hdb₆ hlock₆ hl₆ => ?_
  · rw [hdb₅, hdb₄, ← hid]
    have hu' := (mem_user_updToken (t := { t with consumedAt := some now }) ht).mpr hu
    exact ⟨_, updateRow_found hmid hu' (by simp [hlive]) (List.Subset.refl _)⟩
  refine ⟨(), now, _, rfl, by rw [hl₆], fun at_ => ⟨rfl, hlock₆.lockFree_commit _ at_, now, ?_⟩⟩
  change applyAll _ g₆.db = _
  rw [hdb₆, hdb₅, hdb₄]
  rfl

/-- The same, where only the clock matters. -/
theorem undisturbed_verifyEmail {rawToken : String} {raw : Bytes} {t : StoredToken} {u : StoredUser}
    {l : Session} {g : World} (hg : UniqueKeys g.db) (hlock : Unlocked l.pid g) (hl : l.tx = none)
    (hraw : Base64Url.decodeVec rawToken = some raw) (ht : .token t ∈ g.db)
    (hhash : sha256 raw = t.tokenHash) (hopen : t.consumedAt = none) (hu : .user u ∈ g.db)
    (hid : u.id = t.userId) (hlive : u.deletedAt = none) :
    Undisturbed (fun ch => ch.instant.val ≤ t.expiresAt)
      (fun _ g' r => r = .ok () ∧ ∃ now, g'.db = applyAll (verifyWrites t u now) g.db) l g
      (VerifyEmail.execute rawToken).run := by
  have hP : ∀ _ : Op, ∃ ch : Choice, ch.fault = false ∧ ch.instant.val ≤ t.expiresAt := fun _ =>
    ⟨{}, rfl, Nat.zero_le _⟩
  exact (smoothly_verifyEmail hP hg hlock hl hraw ht hhash hopen hu hid hlive fun _ hch => hch).mono
    fun _ _ _ hr => ⟨hr.1, hr.2.2⟩

theorem nodup_filterMap {α : Type} {f : Row → Option α} (hdb : UniqueKeys db)
    (hf : ∀ r s a, f r = some a → f s = some a → r = s) : (db.filterMap f).Nodup :=
  hdb.nodup.filterMap fun r s a hr hs => hf r s a hr hs

/-- **Tokens and verification emails correspond one to one in every run; alone, the code of an email
consumes its token and activates its user, until the token expires.** -/
theorem tokens_correspond (hemail : EmailRoundTrip)
    (hc : Reachable (machine dep scope) (boot [] clock) c) :
    ∃ f : {t // t ∈ tokens c.glob.db} ≃ {e // e ∈ verifications c.glob.db},
      (∀ t, Corresponds dep c.glob.db t.val (f t).val) ∧
      ∀ t u m v, t.val.consumedAt = none → .user u ∈ c.glob.db → u.id = t.val.userId →
        u.deletedAt = none → verification (f t).val = some (m, v) →
        ∀ i now, Undisturbed (fun ch => ch.instant.val ≤ t.val.expiresAt)
          (fun _ g r => r = .verifyEmail (.ok ()) ∧
            ∃ now, g.db = applyAll (verifyWrites t.val u now) c.glob.db)
          ⟨i, .verifyEmail v.verificationCode, none⟩ (World.fresh c.glob.db now)
          (handler dep (.verifyEmail v.verificationCode)) := by
  have hunique := (sound_reachable List.Pairwise.nil hc).unique
  have hmatched := matched_reachable hemail hc
  obtain ⟨f, hf⟩ := equiv_of_forall₂ hmatched
    (nodup_filterMap hunique fun r s a hr hs => by cases r <;> cases hr; cases s <;> cases hs; rfl)
    ((nodup_filterMap hunique fun r s a hr hs => by cases r <;> cases hr; cases s <;> cases hs; rfl).filter _)
  refine ⟨f, hf, fun t u m v hopen hu hid hlive hver i now => ?_⟩
  obtain ⟨m', v', raw, u', hver', hraw, hhash, -⟩ := hf t
  cases hver.symm.trans hver'
  have halone := undisturbed_verifyEmail (l := ⟨i, .verifyEmail v.verificationCode, none⟩)
    (g := World.fresh c.glob.db now) hunique (unlocked_fresh i c.glob.db now) rfl hraw
    (mem_tokens.mp t.2) hhash hopen hu hid hlive
  refine alone_bind.mpr (halone.mono fun l g r hr => ?_)
  exact ⟨congrArg Reply.verifyEmail hr.1, hr.2⟩

end Emails

open Sample in
/-- The sign-up of the sample leaves one token and its email. -/
theorem tokens_correspond_signUp : ∃ c,
    execute deployment (.of fun _ => True) (boot [] 0) (signUp 0 "ada" "ada@home" 1 5) = some c ∧
    (tokens c.glob.db).length = 1 ∧
    ∃ f : {t // t ∈ tokens c.glob.db} ≃ {e // e ∈ verifications c.glob.db},
      ∀ t, Corresponds deployment c.glob.db t.val (f t).val := by
  have hrun : (execute deployment (.of fun _ => True) (boot [] 0) (signUp 0 "ada" "ada@home" 1 5)).any
      (fun c => (tokens c.glob.db).length = 1) = true := by decide +kernel
  obtain ⟨c, hexec, hc, hlen⟩ := Driver.exists_of_execute hrun
  obtain ⟨f, hf, -⟩ := tokens_correspond emailRoundTrip hc
  exact ⟨c, hexec, of_decide_eq_true hlen, f, hf⟩

end Identity
