import HomeServices.Email.Pipeline
import HomeServices.Identity.Addressees

/-!
# Accounts and their mailboxes

The identity service, the publishers of its outbox and the consumers of their topic run as one system: what
a call commits to the outbox is what the publishers find there.

* `Services`, `Services.Step`: the system, with one table of events and one clock.
* `Linked`, **`linked_reachable`**: each part runs as it does alone.
* `Mail`, **`email_addressed`**: what Resend is asked to send, to whom.
* **`mailbox_confirmed`**: who confirms addresses with codes of emails only has had an email there.
-/

namespace Email

open Interaction
open ReadCommitted (UniqueKeys)
open Identity (Bytes Uuid Platform Deployment StoredEvent StoredUser StoredToken encodeEmail events sha256)

/-- An event as it was committed. -/
def asCommitted (e : StoredEvent) : StoredEvent := { e with publishedAt := none }

theorem map_id_asCommitted (rows : List StoredEvent) :
    (rows.map asCommitted).map (·.id) = rows.map (·.id) := by
  rw [List.map_map]
  rfl

variable [Platform]

/-! ## The system -/

/-- The identity service, and the publishers and consumers behind its outbox. -/
structure Services where
  identity : Identity.State
  email : State

/-- The events committed between two states. -/
def newEvents (c c' : Identity.State) : List StoredEvent :=
  (events c'.glob.db).drop (events c.glob.db).length

/-- The outbox, with new events, at a time. -/
def insertAt (new : List StoredEvent) (clock : ℕ) (m : State) : State :=
  { m with glob := { m.glob with outbox := { m.glob.outbox with
      glob := { m.glob.outbox.glob with rows := m.glob.outbox.glob.rows ++ new, clock } } } }

/-- The outbox, at a time. -/
def tickTo (clock : ℕ) (m : State) : State :=
  { m with glob := { m.glob with outbox := { m.glob.outbox with
      glob := { m.glob.outbox.glob with clock } } } }

/-- The identity service, at a time. -/
def atClock (clock : ℕ) (c : Identity.State) : Identity.State := { c with glob := { c.glob with clock } }

def marks : Identity.Request → Bool
  | .markPublished _ => true
  | _ => false

/-- Any request; events are marked by the publishers. -/
def requests : Identity.Scope := .of fun req => marks req = false

instance decidableAllowed : DecidablePred requests.allowed :=
  inferInstanceAs (DecidablePred fun req => marks req = false)

instance decidableGuard (h : Identity.Hist) (o : Identity.Op) (l : Identity.Session) (g : Identity.World) :
    Decidable (requests.guard h o l g) := inferInstanceAs (Decidable True)

section System

variable (dep : Deployment) (decode : Bytes → Except Thrown AuthEmailMessage) (fromEmail : String)

/-- A step of the identity service, or one behind its outbox, where only commits insert. -/
inductive Services.Step (s : Services) : Services → Prop
  | identity {c : Identity.State} : Interaction.Step (Identity.machine dep requests) s.identity c →
      Services.Step s ⟨c, insertAt (newEvents s.identity c) c.glob.clock s.email⟩
  | email {m : State} : Interaction.Step (pipeline dep decode fromEmail) s.email m →
      m.glob.outbox.glob.rows.map (·.id) = s.email.glob.outbox.glob.rows.map (·.id) →
      Services.Step s ⟨atClock m.glob.outbox.glob.clock s.identity, m⟩

abbrev Services.Reachable : Services → Services → Prop :=
  Relation.ReflTransGen (Services.Step dep decode fromEmail)

end System

def Services.boot (clock : ℕ) : Services := ⟨Identity.boot [] clock, Email.boot clock⟩

section Runs

variable {dep : Deployment} {decode : Bytes → Except Thrown AuthEmailMessage} {fromEmail : String} {clock : ℕ}
  {s s' : Services}

/-! ## Each part alone -/

/-- The events of a table are distinct. -/
theorem nodup_events {db : List Identity.Row} (hdb : UniqueKeys db) : ((events db).map (·.id)).Nodup := by
  refine List.pairwise_map.mpr (List.pairwise_filterMap.mpr (hdb.imp fun {r r'} hrr e he e' he' hid => ?_))
  cases r <;> cases he
  cases r' <;> cases he'
  exact hrr (a := .event _) List.mem_cons_self (by rw [hid]; exact List.mem_cons_self)

/-- Events are only added. -/
theorem events_step {c c' : Identity.State}
    (hc : Reachable (Identity.machine dep requests) (Identity.boot [] clock) c)
    (hs : Step (Identity.machine dep requests) c c') :
    events c'.glob.db = events c.glob.db ++ newEvents c c' := by
  have hgrown : ∃ new, events c'.glob.db = events c.glob.db ++ new := by
    rcases Identity.db_step List.Pairwise.nil hc hs with hdb | ⟨i, t, ws, hw, hdb⟩
    · exact ⟨[], by rw [hdb, List.append_nil]⟩
    · exact ⟨_, by rw [hdb, Identity.events_commit hc hw]⟩
  obtain ⟨new, hnew⟩ := hgrown
  rw [newEvents, hnew, List.drop_left]

/-- Where ids stay, a step of the publishers keeps the events. -/
theorem rows_step {inserts : StoredEvent → Prop} {o o' : Outbox.State}
    (hs : Step (Outbox.machine inserts) o o')
    (hids : o'.glob.rows.map (·.id) = o.glob.rows.map (·.id)) :
    o'.glob.rows.map asCommitted = o.glob.rows.map asCommitted := by
  cases hs with
  | env henv =>
    cases henv with
    | @insert new =>
      have hlength := congrArg List.length hids
      simp only [List.map_append, List.length_append, List.length_map, Nat.add_eq_left,
        List.length_eq_zero_iff] at hlength
      subst hlength
      exact congrArg _ (List.append_nil _)
    | tick | lose => rfl
  | spawn | again => rfl
  | call _ hst =>
    cases Outbox.performs_effect hst with
    | mark =>
      change (Outbox.marked _ _ _).map asCommitted = _
      rw [Outbox.marked, List.map_map]
      refine List.map_congr_left fun e _ => ?_
      simp only [Function.comp_apply]
      split_ifs <;> rfl
    | _ => rfl

/-- What a step behind the outbox does to it. -/
theorem outbox_step {m m' : State} (hs : Step (pipeline dep decode fromEmail) m m') :
    m'.glob.outbox = m.glob.outbox ∨
      Step (Outbox.machine (Committed dep)) m.glob.outbox m'.glob.outbox := by
  cases hs with
  | env henv =>
    obtain ⟨outbox, hstep, rfl⟩ := henv
    exact Or.inr hstep
  | spawn | again => exact Or.inl rfl
  | call _ hst => exact Or.inl (Performs.frame hst).1

/-- What an event of the table is: a row, committed and not yet in the past of the clock. -/
theorem committed_event {c : Identity.State}
    (hc : Reachable (Identity.machine dep requests) (Identity.boot [] clock) c) {e : StoredEvent}
    (he : e ∈ events c.glob.db) : e.publishedAt = none ∧ e.createdAt ≤ c.glob.clock ∧ Committed dep e := by
  obtain ⟨r, hr, hre⟩ := List.mem_filterMap.mp he
  cases r with
  | event e₀ =>
    cases hre
    refine ⟨rfl, (Identity.dated_reachable hc).committed _ he, clock, c,
      Identity.reachable_widen (fun _ _ => trivial) hc, ?_⟩
    have hscope : ∀ id, ¬ requests.allowed (.markPublished id) := fun id hid => by cases hid
    have hnone := Identity.unpublished_reachable hscope hc hr
    rw [← hnone]
    exact hr
  | _ => cases hre

/-- The parts of the system run as they do alone, with one clock and one table of events. -/
structure Linked (dep : Deployment) (decode : Bytes → Except Thrown AuthEmailMessage) (fromEmail : String)
    (clock : ℕ) (s : Services) : Prop where
  identity : Reachable (Identity.machine dep requests) (Identity.boot [] clock) s.identity
  email : Reachable (pipeline dep decode fromEmail) (boot clock) s.email
  clock : s.email.glob.outbox.glob.clock = s.identity.glob.clock
  rows : s.email.glob.outbox.glob.rows.map asCommitted = events s.identity.glob.db

/-- What the identity service commits, transactions of the outbox may insert. -/
theorem Linked.insert (h : Linked dep decode fromEmail clock s) {c : Identity.State}
    (hs : Step (Identity.machine dep requests) s.identity c) :
    Reachable (pipeline dep decode fromEmail) s.email
      (insertAt (newEvents s.identity c) c.glob.clock s.email) := by
  have hc := h.identity.tail hs
  have hnew : ∀ e ∈ newEvents s.identity c, e ∈ events c.glob.db := fun e he => List.mem_of_mem_drop he
  have hids : (s.email.glob.outbox.glob.rows ++ newEvents s.identity c).map (·.id) =
      (events c.glob.db).map (·.id) := by
    rw [events_step h.identity hs, ← h.rows, List.map_append, List.map_append, map_id_asCommitted]
  have hnodup := nodup_events (Identity.sound_reachable List.Pairwise.nil hc).unique
  -- the clock advances, then the rows are inserted
  have htick : Step (pipeline dep decode fromEmail) s.email (tickTo c.glob.clock s.email) :=
    .env ⟨_, .env (.tick (h.clock.le.trans (Identity.clock_step hs))), rfl⟩
  have hinsert : Step (pipeline dep decode fromEmail) (tickTo c.glob.clock s.email)
      (insertAt (newEvents s.identity c) c.glob.clock s.email) :=
    .env ⟨_, .env (.insert
      (fun e he => ⟨(committed_event hc (hnew e he)).1, (committed_event hc (hnew e he)).2.1⟩)
      (fun e he => (committed_event hc (hnew e he)).2.2) (hids ▸ hnodup)), rfl⟩
  exact (Relation.ReflTransGen.single htick).tail hinsert

/-- **Each part of the system runs as it does alone, and they share the clock and the events.** -/
theorem linked_reachable (hs : Services.Reachable dep decode fromEmail (.boot clock) s) :
    Linked dep decode fromEmail clock s := by
  induction hs with
  | refl => exact ⟨.refl, .refl, rfl, rfl⟩
  | @tail s s' _ hs ih =>
    cases hs with
    | @identity c hstep =>
      refine ⟨ih.identity.tail hstep, ih.email.trans (ih.insert hstep), rfl, ?_⟩
      have hnew : (newEvents s.identity c).map asCommitted = newEvents s.identity c := by
        refine (List.map_congr_left fun e he => ?_).trans (List.map_id _)
        have hnone := (committed_event (ih.identity.tail hstep) (List.mem_of_mem_drop he)).1
        rw [asCommitted, ← hnone]
        rfl
      change (s.email.glob.outbox.glob.rows ++ newEvents s.identity c).map asCommitted = _
      rw [List.map_append, ih.rows, events_step ih.identity hstep, hnew]
    | @email m hstep hids =>
      have hclock : s.identity.glob.clock ≤ m.glob.outbox.glob.clock := by
        rw [← ih.clock]
        rcases outbox_step hstep with he | hstep
        · rw [he]
        · exact (Outbox.later_step hstep).clock
      refine ⟨ih.identity.tail (.env ⟨_, hclock, rfl⟩), ih.email.tail hstep, rfl, ?_⟩
      refine Eq.trans ?_ ih.rows
      rcases outbox_step hstep with he | hstep
      · exact congrArg (fun o : Outbox.State => o.glob.rows.map asCommitted) he
      · exact rows_step hstep hids

/-! ## What is sent -/

/-- What an email tells the user. -/
inductive Mail (c : Identity.State) (userId : Uuid) (request : EmailRequest) : Prop
  | verification {raw : Bytes} {t : StoredToken} : request.subject = "Verify your email address" →
      Base64Url.decodeVec request.react.loginCode = some raw → .token t ∈ c.glob.db →
      t.tokenHash = sha256 raw → t.userId = userId → Mail c userId request
  | passwordChanged {i : ℕ}
      {t : Thread Identity.Op Identity.Resp Identity.Session Identity.World Identity.Reply}
      {currentPassword newPassword : String} : request.subject = "Your password was changed" →
      request.react.loginCode = "Password Changed" → c.thread i = some t →
      t.loc.request = .updatePassword userId currentPassword newPassword → Mail c userId request

/-- A request to Resend is the email of an event that the identity service committed. -/
theorem event_of_asked (h : Linked dep decode fromEmail clock s) {x : Asked} (hx : x ∈ s.email.glob.asked) :
    ∃ e ∈ events s.identity.glob.db, e.id = x.row ∧
      emailOf decode fromEmail (some e.payload) = some x.request := by
  obtain ⟨a, ha, hrow, hemail⟩ := requested_reachable h.email x hx
  obtain ⟨e, he, hcarries⟩ := Outbox.carried_of_log (outbox_reachable h.email) ha
  refine ⟨asCommitted e, h.rows ▸ List.mem_map_of_mem he, hcarries.id.symm.trans hrow, ?_⟩
  rw [← hemail, hcarries.value]
  rfl

/-- The email of an event that is addressed to its user. -/
theorem mail_of_event (hdecode : DecodesEncoded decode) {c : Identity.State} {e : StoredEvent}
    (he : Identity.WrittenTo c e) {request : EmailRequest}
    (hemail : emailOf decode fromEmail (some e.payload) = some request) :
    ∃ u, .user u ∈ c.glob.db ∧ u.id = e.aggregateId ∧ request.to_ = u.email ∧ Mail c u.id request := by
  obtain ⟨m, payload, u, hm, hpayload, hu, hid, hto, htells⟩ := he
  rw [emailOf, Option.bind_some, hm] at hemail
  cases hmessage : decode (encodeEmail m) with
  | error e =>
    rw [hmessage] at hemail
    cases hemail
  | ok message =>
    rw [hmessage] at hemail
    have hknown : ∀ field bytes, m.payload ≠ some (.other field bytes) := fun field bytes h => by
      rw [hpayload] at h
      cases h
      cases htells
    have hreceived := hdecode m message hknown hmessage
    have hrequest : requestOf fromEmail message = some request := hemail
    unfold requestOf getAuthEmailContent at hrequest
    rw [hreceived] at hrequest
    simp only [received, hpayload] at hrequest
    cases htells with
    | emailVerification hraw ht hhash huser =>
      cases hrequest
      exact ⟨u, hu, hid, hto, .verification rfl hraw ht hhash huser⟩
    | passwordChanged ht hreq =>
      cases hrequest
      exact ⟨u, hu, hid, hto, .passwordChanged rfl rfl ht hreq⟩

/-- **In every run of the whole system, whatever Resend is asked to send goes to the address of the account
that its event is about: a code of that account, or the notice of a call that changes its password.** -/
theorem email_addressed (hdecode : DecodesEncoded decode)
    (hs : Services.Reachable dep decode fromEmail (.boot clock) s) {x : Asked}
    (hx : x ∈ s.email.glob.asked) :
    ∃ e u, e ∈ events s.identity.glob.db ∧ e.id = x.row ∧ .user u ∈ s.identity.glob.db ∧
      u.id = e.aggregateId ∧ x.request.to_ = u.email ∧ Mail s.identity u.id x.request := by
  have hlinked := linked_reachable hs
  obtain ⟨e, he, hrow, hemail⟩ := event_of_asked hlinked hx
  obtain ⟨u, hu, hid, hto, hmail⟩ :=
    mail_of_event hdecode (Identity.addressed_reachable hlinked.identity e he) hemail
  exact ⟨e, u, he, hrow, hu, hid, hto, hmail⟩

/-- Whoever confirms an address has its code from an email that Resend accepted. -/
def ReadsMail (s : Services) : Prop := ∀ i t code, s.identity.thread i = some t →
  t.loc.request = .verifyEmail code →
  ∃ x ∈ s.email.glob.asked, x.verdict = .accepted ∧ x.request.react.loginCode = code

/-- No two users were drawn tokens of one hash. -/
def DistinctCodes (c : Identity.State) : Prop := ∀ t t', .token t ∈ c.glob.db → .token t' ∈ c.glob.db →
  t.tokenHash = t'.tokenHash → t.userId = t'.userId

/-- **If codes are only taken from emails, an address is verified only after Resend accepted an email to that
very address, with a code of the account.** -/
theorem mailbox_confirmed (hdecode : DecodesEncoded decode)
    (hs : Services.Reachable dep decode fromEmail (.boot clock) s) (hreads : ReadsMail s)
    (hdistinct : DistinctCodes s.identity) {u : StoredUser} (hu : .user u ∈ s.identity.glob.db)
    (hverified : u.emailVerified = true) :
    ∃ x ∈ s.email.glob.asked, x.verdict = .accepted ∧ x.request.to_ = u.email ∧
      ∃ raw t, Base64Url.decodeVec x.request.react.loginCode = some raw ∧ .token t ∈ s.identity.glob.db ∧
        t.tokenHash = sha256 raw ∧ t.userId = u.id := by
  have hlinked := linked_reachable hs
  have hunique := (Identity.sound_reachable List.Pairwise.nil hlinked.identity).unique
  -- a call presented the code of a token of the user
  obtain ⟨i, th, code, raw, t, hth, hreq, hraw, ht, hhash, huser⟩ :=
    Identity.confirmed_reachable hlinked.identity u hu hverified
  obtain ⟨x, hx, haccepted, hcode⟩ := hreads i th code hth hreq
  obtain ⟨e, he, -, hemail⟩ := event_of_asked hlinked hx
  obtain ⟨v, hv, -, hto, hmail⟩ :=
    mail_of_event hdecode (Identity.addressed_reachable hlinked.identity e he) hemail
  rw [← hcode] at hraw
  refine ⟨x, hx, haccepted, ?_, raw, t, hraw, ht, hhash, huser⟩
  cases hmail with
  | verification _ hraw' ht' hhash' huser' =>
    cases hraw.symm.trans hraw'
    -- it is the code of the email, so the email went to the same user
    have hsame := hdistinct _ _ ht ht' (hhash.trans hhash'.symm)
    rw [Identity.user_unique hunique hu hv (huser.symm.trans (hsame.trans huser'))]
    exact hto
  | passwordChanged _ hnotice =>
    rw [hnotice] at hraw
    have hnone : Base64Url.decodeVec "Password Changed" = none := by decide
    cases hnone.symm.trans hraw

/-! ## Runs of the parts -/

theorem newEvents_self (c : Identity.State) : newEvents c c = [] := List.drop_length

omit [Platform] in
theorem insertAt_insertAt {new new' : List StoredEvent} (t : ℕ) {t' : ℕ} {m : State} :
    insertAt new' t' (insertAt new t m) = insertAt (new ++ new') t' m := by
  rw [insertAt, insertAt, insertAt, ← List.append_assoc]

/-- What the identity service does is done by the system. -/
theorem services_identity {c : Identity.State} {m : State} (h : Linked dep decode fromEmail clock ⟨c, m⟩)
    {c' : Identity.State} (hc : Reachable (Identity.machine dep requests) c c') :
    Services.Reachable dep decode fromEmail ⟨c, m⟩ ⟨c', insertAt (newEvents c c') c'.glob.clock m⟩ ∧
      events c'.glob.db = events c.glob.db ++ newEvents c c' := by
  induction hc with
  | refl =>
    have hsame : insertAt (newEvents c c) c.glob.clock m = m := by
      rw [newEvents_self, insertAt, List.append_nil, ← show _ = c.glob.clock from h.clock]
    rw [hsame, newEvents_self, List.append_nil]
    exact ⟨.refl, rfl⟩
  | @tail c₁ c₂ hc hs ih =>
    have hstep := events_step (h.identity.trans hc) hs
    have hnew : newEvents c c₂ = newEvents c c₁ ++ newEvents c₁ c₂ := by
      rw [newEvents, hstep, ih.2, List.append_assoc, List.drop_left]
    refine ⟨ih.1.tail ?_, by rw [hstep, ih.2, hnew, List.append_assoc]⟩
    rw [hnew, ← insertAt_insertAt c₁.glob.clock]
    exact .identity hs

/-- Behind the outbox, events are only added. -/
theorem ids_step {m m' : State} (hs : Step (pipeline dep decode fromEmail) m m') :
    m.glob.outbox.glob.rows.map (·.id) <+: m'.glob.outbox.glob.rows.map (·.id) := by
  rcases outbox_step hs with he | hs
  · rw [he]
  · generalize m'.glob.outbox = o at hs
    cases hs with
    | env henv =>
      cases henv with
      | insert =>
        rw [List.map_append]
        exact List.prefix_append _ _
      | tick | lose => exact List.prefix_refl _
    | spawn | again => exact List.prefix_refl _
    | call _ hst =>
      cases Outbox.performs_effect hst with
      | mark =>
        change _ <+: (Outbox.marked _ _ _).map (·.id)
        rw [Outbox.map_id_marked]
      | _ => exact List.prefix_refl _

/-- What happens behind the outbox without inserts is done by the system. -/
theorem services_email {c : Identity.State} {m m' : State} (hclock : m.glob.outbox.glob.clock = c.glob.clock)
    (hm : Reachable (pipeline dep decode fromEmail) m m')
    (hids : m'.glob.outbox.glob.rows.map (·.id) = m.glob.outbox.glob.rows.map (·.id)) :
    Services.Reachable dep decode fromEmail ⟨c, m⟩ ⟨atClock m'.glob.outbox.glob.clock c, m'⟩ := by
  have hgrown : ∀ {m₁ : State}, Reachable (pipeline dep decode fromEmail) m m₁ →
      m.glob.outbox.glob.rows.map (·.id) <+: m₁.glob.outbox.glob.rows.map (·.id) := fun hm => by
    induction hm with
    | refl => exact List.prefix_refl _
    | tail _ hs ih => exact ih.trans (ids_step hs)
  induction hm with
  | refl =>
    rw [hclock]
    exact .refl
  | @tail m₁ m₂ hm hs ih =>
    -- the ids in between are those at both ends
    have hids₁ : m₁.glob.outbox.glob.rows.map (·.id) = m.glob.outbox.glob.rows.map (·.id) := by
      have hle := (ids_step hs).length_le
      rw [hids] at hle
      exact ((hgrown hm).eq_of_length_le hle).symm
    exact (ih hids₁).tail (.email hs (hids.trans hids₁.symm))

end Runs

end Email

namespace Email.Mailboxes.Sample

open Interaction
open Identity (events tokens users)
open Identity.Sample (deployment)
open Email.Pipeline.Sample (decode decodesEncoded row deliver)
open scoped Identity.Sample

/-! ## A user reads its mail -/

def code : String := Base64Url.encodeString (Identity.Sample.rawToken 5)

/-- Only this code is presented. -/
def presents (c : Identity.State) : Bool :=
  (List.range 2).all fun i => (c.thread i).all fun t =>
    match t.loc.request with
    | .verifyEmail code' => code' = code
    | _ => true

/-- The user signs up; its email is produced and accepted; it presents the code. -/
theorem execute_confirmed :
    (Identity.execute deployment requests (Identity.boot [] 0)
      (Identity.Sample.signUp 0 "ada" "ada@home" 1 5)).any
      (fun c => decide (events c.glob.db = [row] ∧ c.glob.clock = 0) &&
        (Identity.execute deployment requests c (Identity.Sample.verifyEmail 1 5)).any fun c' =>
          decide (events c'.glob.db = [row] ∧ c'.glob.clock = 0 ∧ (tokens c'.glob.db).length = 1) &&
          presents c' && (users c'.glob.db).any (·.emailVerified)) = true ∧
    (Outbox.driver.execute (Outbox.boot [row] 0) (Outbox.Sample.start 0 50 ++ Outbox.Sample.act 0 8)).any
      (fun o => decide (o.glob.rows.map asCommitted = [row]) &&
        ((driver deployment decode "").execute (Config.initial ⟨o, []⟩) (deliver 0 0 .accepted)).any fun m =>
          decide (m.glob.outbox.glob.rows.map asCommitted = [row] ∧ m.glob.outbox.glob.clock = 0 ∧
            m.glob.asked.map (fun x => (x.verdict, x.request.react.loginCode)) = [(.accepted, code)])) =
              true := by
  constructor <;> decide +kernel

/-- Commands for the first two calls leave no other call. -/
theorem thread_of_commands {c c' : Identity.State} {cmds : List Identity.Command}
    (hcmds : cmds.all (fun cmd => cmd.target.all (· < 2)) = true)
    (hexec : Identity.execute deployment requests c cmds = some c') {j : ℕ} (hj : 2 ≤ j) :
    c'.thread j = c.thread j := by
  refine Driver.execute_thread (fun cmd hcmd htarget => ?_) hexec
  have hlt := List.all_eq_true.mp hcmds cmd hcmd
  rw [htarget] at hlt
  exact absurd (of_decide_eq_true hlt) (Nat.not_lt.mpr hj)

/-- A run of the system in which the user reads its mail and confirms its address. -/
theorem services_confirmed : ∃ s u x, Services.Reachable deployment decode "" (.boot 0) s ∧ ReadsMail s ∧
    DistinctCodes s.identity ∧ .user u ∈ s.identity.glob.db ∧ u.emailVerified = true ∧
    x ∈ s.email.glob.asked := by
  obtain ⟨hidentity, hmail⟩ := execute_confirmed
  obtain ⟨c₁, hexec₁, hc₁, htest₁⟩ := Driver.exists_of_execute hidentity
  obtain ⟨hrow, hidentity⟩ := Bool.and_eq_true_iff.mp htest₁
  obtain ⟨hrow, hclock₁⟩ := of_decide_eq_true hrow
  obtain ⟨c₂, hexec₂, hc₂, htest₂⟩ := Driver.exists_of_execute hidentity
  obtain ⟨htest₂, hverified⟩ := Bool.and_eq_true_iff.mp htest₂
  obtain ⟨htokens, hpresents⟩ := Bool.and_eq_true_iff.mp htest₂
  obtain ⟨-, -, hone⟩ := of_decide_eq_true htokens
  obtain ⟨u, hu, hverified⟩ := List.any_eq_true.mp hverified
  obtain ⟨o, -, ho, htesto⟩ := Driver.exists_of_execute hmail
  obtain ⟨horows, hmail⟩ := Bool.and_eq_true_iff.mp htesto
  obtain ⟨m, -, hm, htestm⟩ := Driver.exists_of_execute hmail
  obtain ⟨hmrows, hmclock, hasked⟩ := of_decide_eq_true htestm
  have hboot : Linked deployment decode "" 0 (.boot 0) := linked_reachable .refl
  -- the sign-up commits the event
  have hnew : newEvents (Identity.boot [] 0) c₁ = [row] := by rw [newEvents, hrow]; rfl
  have hs₁ : Services.Reachable deployment decode "" (.boot 0) ⟨c₁, insertAt [row] 0 (Email.boot 0)⟩ := by
    have hstep := (services_identity hboot hc₁).1
    rw [hnew, hclock₁] at hstep
    exact hstep
  have hcommitted : Committed deployment row :=
    (committed_event hc₁ (hrow ▸ List.mem_singleton_self _)).2.2
  -- it is produced, and its email is accepted
  have hproduced : Reachable (Outbox.machine (Committed deployment)) (Outbox.boot [row] 0) o := by
    refine Outbox.reachable_of_rows ho fun e he => ?_
    have he := List.mem_map_of_mem (f := asCommitted) he
    rw [of_decide_eq_true horows] at he
    rw [show { e with publishedAt := none } = row from List.mem_singleton.mp he]
    exact hcommitted
  have hdelivered : Reachable (pipeline deployment decode "") (insertAt [row] 0 (Email.boot 0)) m :=
    (reachable_outbox hproduced).trans hm
  have hs₂ : Services.Reachable deployment decode "" (.boot 0) ⟨c₁, m⟩ := by
    have hids : m.glob.outbox.glob.rows.map (·.id) = [row.id] := by
      rw [← map_id_asCommitted, hmrows]
      rfl
    have hstep := hs₁.trans (services_email hclock₁.symm hdelivered hids)
    rw [hmclock, show atClock 0 c₁ = c₁ by rw [atClock, ← hclock₁]] at hstep
    exact hstep
  -- the code is presented
  have hs₃ := hs₂.trans (services_identity (linked_reachable hs₂) hc₂).1
  have hx : ∃ x ∈ m.glob.asked, x.verdict = .accepted ∧ x.request.react.loginCode = code := by
    obtain ⟨x, hx⟩ := List.length_eq_one_iff.mp ((List.length_map _).symm.trans (congrArg List.length hasked))
    rw [hx] at hasked
    have hpair := List.head_eq_of_cons_eq hasked
    exact ⟨x, hx ▸ List.mem_singleton_self _, congrArg Prod.fst hpair, congrArg Prod.snd hpair⟩
  obtain ⟨x, hx, haccepted, hcode⟩ := hx
  refine ⟨_, u, x, hs₃, fun i t code' ht hreq => ?_, fun t t' ht ht' _ => ?_, Identity.mem_users.mp hu,
    hverified, hx⟩
  · by_cases hi : i < 2
    · have hall := List.all_eq_true.mp hpresents i (List.mem_range.mpr hi)
      rw [show c₂.thread i = some t from ht, Option.all_some, hreq] at hall
      exact ⟨x, hx, haccepted, hcode.trans (of_decide_eq_true hall).symm⟩
    · have hnone : c₂.thread i = none := by
        rw [thread_of_commands (by decide) hexec₂ (Nat.le_of_not_lt hi),
          thread_of_commands (by decide) hexec₁ (Nat.le_of_not_lt hi)]
        rfl
      cases hnone.symm.trans ht
  · obtain ⟨t₀, htokens⟩ := List.length_eq_one_iff.mp hone
    have ht := Identity.mem_tokens.mpr ht
    have ht' := Identity.mem_tokens.mpr ht'
    change _ ∈ tokens c₂.glob.db at ht ht'
    rw [htokens, List.mem_singleton] at ht ht'
    rw [ht, ht']

/-- Resend accepted an email to the address that was confirmed. -/
theorem mailbox_confirmed_ada : ∃ s u x, Services.Reachable deployment decode "" (.boot 0) s ∧
    .user u ∈ s.identity.glob.db ∧ u.emailVerified = true ∧ x ∈ s.email.glob.asked ∧
    x.verdict = .accepted ∧ x.request.to_ = u.email := by
  obtain ⟨s, u, x, hs, hreads, hdistinct, hu, hverified, -⟩ := services_confirmed
  obtain ⟨x, hx, haccepted, hto, -⟩ := mailbox_confirmed decodesEncoded hs hreads hdistinct hu hverified
  exact ⟨s, u, x, hs, hu, hverified, hx, haccepted, hto⟩

/-- What Resend is asked in this run goes to an account. -/
theorem email_addressed_ada : ∃ s u x, Services.Reachable deployment decode "" (.boot 0) s ∧
    x ∈ s.email.glob.asked ∧ .user u ∈ s.identity.glob.db ∧ x.request.to_ = u.email := by
  obtain ⟨s, u, x, hs, -, -, -, -, hx⟩ := services_confirmed
  obtain ⟨e, v, -, -, hv, -, hto, -⟩ := email_addressed decodesEncoded hs hx
  exact ⟨s, v, x, hs, hx, hv, hto⟩

end Email.Mailboxes.Sample
