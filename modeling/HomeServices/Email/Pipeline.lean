import HomeServices.Email.Handler
import HomeServices.Identity.Emails
import HomeServices.Outbox.Execution
import HomeServices.Outbox.Order

/-!
# From an outbox row to its email

The identity service commits rows, publishers produce them to the topic, at least once, and consumers take
records from it any number of times and ask Resend, which accepts one email for each idempotency key.

* `Committed`, `received`, `DecodesEncoded`: rows of the identity service, and what is decoded of them.
* `Verdict`, `Asked`, `World`, `pipeline`: what Resend makes of a request; the system.
* `requested_reachable`: who asks for what; `distinct_reachable`: accepted keys are distinct.
* **`one_email_per_event`**: at most one email is accepted for each row, and rows do not compete.
-/

namespace Email

open Interaction
open Identity (Bytes Uuid Platform Deployment StoredEvent uuidText encodeEmail)
open Outbox (Appended)

/-! ## The system -/

/-- What Resend makes of a request: it accepts it, recognizes its key, or fails. -/
inductive Verdict where
  | accepted
  | suppressed
  | failed
  deriving DecidableEq

/-- A request to Resend, on behalf of a row of the outbox. -/
structure Asked where
  row : Uuid
  request : EmailRequest
  verdict : Verdict

/-- Resend accepts at most one email for each idempotency key. -/
def Verdict.Fits (asked : List Asked) (request : EmailRequest) : Verdict → Prop
  | accepted => ∀ x ∈ asked, x.verdict = accepted → x.request.idempotencyKey ≠ request.idempotencyKey
  | suppressed => ∃ x ∈ asked, x.verdict = accepted ∧ x.request.idempotencyKey = request.idempotencyKey
  | failed => True

/-- The outbox with its publishers and topics, and what Resend was asked, newest first. -/
structure World where
  outbox : Outbox.State
  asked : List Asked

abbrev State := Config Op Resp (Option Appended) World (Except Thrown Unit)

/-- A consumer polls any record of the topic, as often as it is redelivered. Answers of Resend may get
lost. -/
def Performs : (o : Op) → Option Appended → World → Resp o → Option Appended → World → Prop
  | .poll, _, g, value, l', g' => ∃ a ∈ g.outbox.glob.log, a.topic = "email.auth" ∧ value = a.record.value ∧
      l' = some a ∧ g' = g
  | .emailsSend request, l, g, _, l', g' => l' = l ∧ ∃ a verdict, l = some a ∧ Verdict.Fits g.asked request verdict ∧
      g' = { g with asked := ⟨a.eventId, request, verdict⟩ :: g.asked }
  | _, l, g, _, l', g' => l' = l ∧ g' = g

/-- A delivery: the next record, and what becomes of it. -/
def consume (decode : Bytes → Except Thrown AuthEmailMessage) (fromEmail : String) :
    Prog Op Resp (Except Thrown Unit) :=
  .call .poll fun value => (eachMessage decode fromEmail value).run

variable [Platform]

/-- Some run of the identity service commits the row. -/
def Committed (dep : Deployment) (e : StoredEvent) : Prop := ∃ clock c,
  Reachable (Identity.machine dep (.of fun _ => True)) (Identity.boot [] clock) c ∧ .event e ∈ c.glob.db

/-- Any number of consumers, beside any number of publishers. -/
def pipeline (dep : Deployment) (decode : Bytes → Except Thrown AuthEmailMessage) (fromEmail : String) :
    Machine Op Resp (Option Appended) World (Except Thrown Unit) where
  start _ l p := l = none ∧ p = consume decode fromEmail
  step _ := Performs
  again _ := some (consume decode fromEmail)
  env g g' := ∃ outbox, Step (Outbox.machine (Committed dep)) g.outbox outbox ∧ g' = { g with outbox }

def boot (clock : ℕ) : State := Config.initial ⟨Outbox.boot [] clock, []⟩

/-! ## Decoding -/

omit [Platform] in
/-- A queued message, as the generated code decodes it. -/
def received (m : Identity.AuthEmailMessage) : AuthEmailMessage :=
  { idempotencyKey := m.idempotencyKey
    recipientEmail := m.recipientEmail
    recipientName := m.recipientName
    traceId := m.traceId
    spanId := m.spanId
    producedAtMs := m.producedAtMs
    payload := match m.payload with
      | some (.emailVerification e) =>
        some (.emailVerification ⟨e.verificationCode, e.verificationLink, e.expiresInMinutes⟩)
      | some (.passwordChanged e) => some (.passwordChanged ⟨e.changedAtMs, e.changeIp, e.changeLocation⟩)
      | _ => none }

/-- What is decoded is what was encoded. -/
def DecodesEncoded (decode : Bytes → Except Thrown AuthEmailMessage) : Prop :=
  ∀ (m : Identity.AuthEmailMessage) (message : AuthEmailMessage),
    (∀ field bytes, m.payload ≠ some (.other field bytes)) → decode (encodeEmail m) = .ok message →
    message = received m

/-! ## Every run -/

section Runs

variable {dep : Deployment} {decode : Bytes → Except Thrown AuthEmailMessage} {fromEmail : String} {clock : ℕ}
  {c c' : State}

omit [Platform] in
/-- What a step changes: only polls change the record in hand, and only Resend what was asked. -/
theorem Performs.frame {o : Op} {l l' : Option Appended} {g g' : World} {r : Resp o}
    (h : Performs o l g r l' g') : g'.outbox = g.outbox ∧ (o ≠ .poll → l' = l) ∧
      (g'.asked = g.asked ∨ ∃ request a verdict, o = .emailsSend request ∧ l = some a ∧
        Verdict.Fits g.asked request verdict ∧ g'.asked = ⟨a.eventId, request, verdict⟩ :: g.asked) := by
  cases o with
  | poll =>
    obtain ⟨_, -, -, -, -, rfl⟩ := h
    exact ⟨rfl, fun hpoll => (hpoll rfl).elim, Or.inl rfl⟩
  | emailsSend request =>
    obtain ⟨rfl, a, verdict, rfl, hfits, rfl⟩ := h
    exact ⟨rfl, fun _ => rfl, Or.inr ⟨request, a, verdict, rfl, rfl, hfits, rfl⟩⟩
  | _ =>
    obtain ⟨rfl, rfl⟩ := h
    exact ⟨rfl, fun _ => rfl, Or.inl rfl⟩

theorem outbox_reachable (hc : Reachable (pipeline dep decode fromEmail) (boot clock) c) :
    Reachable (Outbox.machine (Committed dep)) (Outbox.boot [] clock) c.glob.outbox := by
  refine hc.invariant (I := fun c => Reachable (Outbox.machine (Committed dep)) (Outbox.boot [] clock)
    c.glob.outbox) .refl fun c c' _ ih hs => ?_
  cases hs with
  | env henv =>
    obtain ⟨outbox, hstep, rfl⟩ := henv
    exact ih.tail hstep
  | spawn | again => exact ih
  | call _ hst => exact (Performs.frame hst).1 ▸ ih

/-- Records stay in the topics. -/
theorem log_step (hs : Step (pipeline dep decode fromEmail) c c') :
    c.glob.outbox.glob.log ⊆ c'.glob.outbox.glob.log := by
  cases hs with
  | env henv =>
    obtain ⟨outbox, hstep, rfl⟩ := henv
    exact (Outbox.later_step hstep).log.subset
  | spawn | again => exact List.Subset.refl _
  | call _ hst =>
    rw [(Performs.frame hst).1]
    exact List.Subset.refl _

/-- A delivery has a record of the topics in hand. -/
theorem polled_reachable (hc : Reachable (pipeline dep decode fromEmail) (boot clock) c) :
    ∀ i t a, c.thread i = some t → t.loc = some a → a ∈ c.glob.outbox.glob.log := by
  refine hc.invariant (I := fun c => ∀ i t a, c.thread i = some t → t.loc = some a →
    a ∈ c.glob.outbox.glob.log) (fun i t a ht => by cases ht) fun c c' _ ih hs i t a ht ha => ?_
  cases hs.moved ht with
  | stayed hi => exact log_step hs (ih i t a hi ha)
  | spawned _ hst =>
    obtain ⟨rfl, -⟩ := hst
    cases ha
  | again hi => exact log_step hs (ih i _ a hi ha)
  | @called l l' o k h r hi hst =>
    refine log_step hs ?_
    by_cases ho : o = .poll
    · subst ho
      obtain ⟨a', ha', -, -, rfl, -⟩ := hst
      cases ha
      exact ha'
    · exact ih i _ a hi ((Performs.frame hst).2.1 ho ▸ ha)

/-- What a delivery asks for is the email of the record in hand. -/
theorem safe_consume (h : List (Entry Op Resp (Option Appended) World)) (l : Option Appended) :
    Safe (pipeline dep decode fromEmail).step (fun _ _ => True)
      (fun _ l _ o => ∀ request a, o = .emailsSend request → l = some a →
        emailOf decode fromEmail a.record.value = some request)
      (fun _ _ _ => True) h l (consume decode fromEmail) := by
  refine fun g _ => ⟨fun request a ho => (by cases ho), ?_⟩
  rintro value l' g' ⟨a, -, -, rfl, rfl, -⟩
  refine (safe_of_all_keeps (P := Op.Asks (emailOf decode fromEmail a.record.value))
    (J := fun _ l => l = some a) ?_ ?_ (asks_eachMessage decode fromEmail a.record.value) rfl).mono
    fun _ _ _ _ => trivial
  · rintro h l g o hasks rfl request a' rfl ha
    cases ha
    exact hasks
  · rintro h o l g r l' g' hasks hst rfl
    refine (Performs.frame hst).2.1 fun ho => ?_
    rw [ho] at hasks
    exact hasks

theorem safe_thread (hc : Reachable (pipeline dep decode fromEmail) (boot clock) c) {i : ℕ}
    {l : Option Appended} {o : Op} {k : Resp o → Prog Op Resp (Except Thrown Unit)}
    {h : List (Entry Op Resp (Option Appended) World)} (ht : c.thread i = some ⟨l, .call o k, h⟩)
    {request : EmailRequest} {a : Appended} (ho : o = .emailsSend request) (ha : l = some a) :
    emailOf decode fromEmail a.record.value = some request := by
  have hsafe := safe_reachable (M := pipeline dep decode fromEmail) (fun _ _ _ _ _ => trivial) (fun _ => rfl)
    (fun _ l p hp => hp.2 ▸ safe_consume [] l)
    (fun h l _ p _ hagain => by cases hagain; exact safe_consume h l) hc i _ ht
  exact (hsafe c.glob trivial).1 request a ho ha

/-- Every request is the email of a record of the topics, on behalf of its row. -/
def Requested (decode : Bytes → Except Thrown AuthEmailMessage) (fromEmail : String) (log : List Appended)
    (x : Asked) : Prop :=
  ∃ a ∈ log, a.eventId = x.row ∧ emailOf decode fromEmail a.record.value = some x.request

theorem requested_reachable (hc : Reachable (pipeline dep decode fromEmail) (boot clock) c) :
    ∀ x ∈ c.glob.asked, Requested decode fromEmail c.glob.outbox.glob.log x := by
  refine hc.invariant (I := fun c => ∀ x ∈ c.glob.asked, Requested decode fromEmail c.glob.outbox.glob.log x)
    (fun x hx => by cases hx) fun c c' hc ih hs x hx => ?_
  have hold : x ∈ c.glob.asked → Requested decode fromEmail c'.glob.outbox.glob.log x := fun hx => by
    obtain ⟨a, ha, hrow, hemail⟩ := ih x hx
    exact ⟨a, log_step hs ha, hrow, hemail⟩
  cases hs with
  | env henv =>
    obtain ⟨outbox, -, rfl⟩ := henv
    exact hold hx
  | spawn | again => exact hold hx
  | @call i l o k h r l' g' hi hst =>
    rcases (Performs.frame hst).2.2 with hsame | ⟨request, a, verdict, ho, ha, -, hasked⟩
    · exact hold (hsame ▸ hx)
    · rw [hasked] at hx
      rcases List.mem_cons.mp hx with rfl | hx
      · exact ⟨a, log_step (.call hi hst) (polled_reachable hc i _ a hi ha), rfl, safe_thread hc hi ho ha⟩
      · exact hold hx

/-- Accepted requests have distinct keys. -/
theorem distinct_reachable (hc : Reachable (pipeline dep decode fromEmail) (boot clock) c) :
    c.glob.asked.Pairwise fun x y => x.verdict = .accepted → y.verdict = .accepted →
      x.request.idempotencyKey ≠ y.request.idempotencyKey := by
  refine hc.invariant (I := fun c => c.glob.asked.Pairwise fun x y => x.verdict = .accepted →
    y.verdict = .accepted → x.request.idempotencyKey ≠ y.request.idempotencyKey) .nil fun c c' _ ih hs => ?_
  cases hs with
  | env henv =>
    obtain ⟨outbox, -, rfl⟩ := henv
    exact ih
  | spawn | again => exact ih
  | call _ hst =>
    rcases (Performs.frame hst).2.2 with hsame | ⟨request, a, verdict, -, -, hfits, hasked⟩
    · rw [hsame]
      exact ih
    · rw [hasked]
      refine List.pairwise_cons.mpr ⟨fun y hy hx haccepted => ?_, ih⟩
      obtain rfl : verdict = .accepted := hx
      exact (hfits y hy haccepted).symm

/-- What was suppressed had been accepted. -/
theorem suppressed_reachable (hc : Reachable (pipeline dep decode fromEmail) (boot clock) c) :
    ∀ x ∈ c.glob.asked, x.verdict = .suppressed → ∃ y ∈ c.glob.asked, y.verdict = .accepted ∧
      y.request.idempotencyKey = x.request.idempotencyKey := by
  refine hc.invariant (I := fun c => ∀ x ∈ c.glob.asked, x.verdict = .suppressed → ∃ y ∈ c.glob.asked,
    y.verdict = .accepted ∧ y.request.idempotencyKey = x.request.idempotencyKey)
    (fun x hx => by cases hx) fun c c' _ ih hs => ?_
  cases hs with
  | env henv =>
    obtain ⟨outbox, -, rfl⟩ := henv
    exact ih
  | spawn | again => exact ih
  | call _ hst =>
    rcases (Performs.frame hst).2.2 with hsame | ⟨request, a, verdict, -, -, hfits, hasked⟩
    · rw [hsame]
      exact ih
    · rw [hasked]
      intro x hx hsuppressed
      rcases List.mem_cons.mp hx with rfl | hx
      · obtain rfl : verdict = .suppressed := hsuppressed
        obtain ⟨y, hy, haccepted, hkey⟩ := hfits
        exact ⟨y, List.mem_cons_of_mem _ hy, haccepted, hkey⟩
      · obtain ⟨y, hy, haccepted, hkey⟩ := ih x hx hsuppressed
        exact ⟨y, List.mem_cons_of_mem _ hy, haccepted, hkey⟩

/-! ## Keys -/

/-- Every row of the outbox carries its id as the key of its email. -/
theorem carriesKey_row {o : Outbox.State}
    (ho : Reachable (Outbox.machine (Committed dep)) (Outbox.boot [] clock) o) :
    ∀ e ∈ o.glob.rows, Identity.CarriesKey e := by
  refine ho.invariant (I := fun o => ∀ e ∈ o.glob.rows, Identity.CarriesKey e) (fun e he => by cases he)
    fun o o' _ ih hs => ?_
  cases hs with
  | env henv =>
    cases henv with
    | insert _ hinserts _ =>
      intro e he
      rcases List.mem_append.mp he with he | he
      · exact ih e he
      · obtain ⟨_, c, hc, hrow⟩ := hinserts e he
        exact Identity.carriesKey_reachable List.Pairwise.nil (fun e he => by cases he) hc e hrow
    | tick | lose => exact ih
  | spawn | again => exact ih
  | call _ hst =>
    cases Outbox.performs_effect hst with
    | mark =>
      intro e he
      rcases Outbox.mem_marked.mp he with ⟨he, -⟩ | ⟨e₀, he₀, -, rfl⟩
      · exact ih e he
      · have hkey := ih e₀ he₀
        exact hkey
    | _ => exact ih

/-- **The key of a request is the id of the row it is made for.** -/
theorem key_of_asked (hdecode : DecodesEncoded decode)
    (hc : Reachable (pipeline dep decode fromEmail) (boot clock) c) {x : Asked} (hx : x ∈ c.glob.asked) :
    x.request.idempotencyKey = uuidText x.row := by
  obtain ⟨a, ha, hrow, hemail⟩ := requested_reachable hc x hx
  obtain ⟨s, hs, hcarries⟩ := Outbox.carried_of_log (outbox_reachable hc) ha
  obtain ⟨m, hpayload, hkey, hknown⟩ := carriesKey_row (outbox_reachable hc) s hs
  rw [hcarries.value, emailOf, Option.bind_some, hpayload] at hemail
  cases hmessage : decode (encodeEmail m) with
  | error e =>
    rw [hmessage] at hemail
    cases hemail
  | ok message =>
    rw [hmessage] at hemail
    rw [idempotencyKey_requestOf hemail, hdecode m message hknown hmessage, ← hrow, hcarries.id]
    exact hkey

omit [Platform] in
/-- Of a list whose elements exclude each other at most one is counted. -/
theorem countP_le_one {α : Type} {p : α → Bool} : ∀ {l : List α},
    l.Pairwise (fun x y => p x = true → p y = true → False) → l.countP p ≤ 1
  | [], _ => Nat.zero_le _
  | x :: l, h => by
    rw [List.countP_cons]
    obtain ⟨hx, hl⟩ := List.pairwise_cons.mp h
    split_ifs with hp
    · rw [List.countP_eq_zero.mpr fun y hy hpy => hx y hy hp hpy]
    · exact countP_le_one hl

/-- **In every run at most one email is accepted for each row of the outbox, and an email that is suppressed
was accepted before for the same row: no other row's requests have its key.** -/
theorem one_email_per_event (huuid : Identity.UuidRoundTrip) (hdecode : DecodesEncoded decode)
    (hc : Reachable (pipeline dep decode fromEmail) (boot clock) c) :
    (∀ e ∈ c.glob.outbox.glob.rows,
      c.glob.asked.countP (fun x => x.row = e.id ∧ x.verdict = .accepted) ≤ 1) ∧
    ∀ x ∈ c.glob.asked,
      (x.verdict = .suppressed → ∃ y ∈ c.glob.asked, y.verdict = .accepted ∧ y.row = x.row) ∧
      ∀ y ∈ c.glob.asked, y.request.idempotencyKey = x.request.idempotencyKey → y.row = x.row := by
  have hsame : ∀ x ∈ c.glob.asked, ∀ y ∈ c.glob.asked,
      y.request.idempotencyKey = x.request.idempotencyKey → y.row = x.row := by
    intro x hx y hy hkey
    rw [key_of_asked hdecode hc hx, key_of_asked hdecode hc hy] at hkey
    have hparsed := congrArg Identity.parseUuid hkey
    rw [huuid, huuid] at hparsed
    exact Option.some.inj hparsed
  refine ⟨fun e _ => countP_le_one ?_, fun x hx => ⟨fun hsuppressed => ?_, hsame x hx⟩⟩
  · refine (distinct_reachable hc).imp_of_mem fun {x y} hx hy hdistinct hpx hpy => ?_
    obtain ⟨hrowx, hacceptedx⟩ := of_decide_eq_true hpx
    obtain ⟨hrowy, hacceptedy⟩ := of_decide_eq_true hpy
    refine hdistinct hacceptedx hacceptedy ?_
    rw [key_of_asked hdecode hc hx, key_of_asked hdecode hc hy, hrowx, hrowy]
  · obtain ⟨y, hy, haccepted, hkey⟩ := suppressed_reachable hc x hx hsuppressed
    exact ⟨y, hy, haccepted, hsame x hx y hy hkey⟩

/-! ## Executing deliveries -/

/-- What an operation of a consumer leaves open: the record, the verdict, the time. -/
structure Choice where
  record : ℕ := 0
  verdict : Verdict := .accepted
  now : ℤ := 0

omit [Platform] in
instance (asked : List Asked) (request : EmailRequest) : DecidablePred (Verdict.Fits asked request)
  | .accepted => inferInstanceAs (Decidable (∀ x ∈ asked, x.verdict = .accepted →
      x.request.idempotencyKey ≠ request.idempotencyKey))
  | .suppressed => inferInstanceAs (Decidable (∃ x ∈ asked, x.verdict = .accepted ∧
      x.request.idempotencyKey = request.idempotencyKey))
  | .failed => inferInstanceAs (Decidable True)

omit [Platform] in
/-- Execute one operation of a consumer; `none` where the choice does not fit. -/
def perform (ch : Choice) (l : Option Appended) (g : World) : (o : Op) → Option (Resp o × Option Appended × World)
  | .poll =>
    match g.outbox.glob.log[ch.record]? with
    | some a => if a.topic = "email.auth" then some (a.record.value, some a, g) else none
    | none => none
  | .emailsSend request =>
    match l with
    | some a =>
      if Verdict.Fits g.asked request ch.verdict then
        some (.ok ⟨some "", none⟩, l, { g with asked := ⟨a.eventId, request, ch.verdict⟩ :: g.asked })
      else none
    | none => none
  | .dateNow => some (ch.now, l, g)
  | .recordEmailSent .. | .recordEmailFailed .. => some ((), l, g)

omit [Platform] in
theorem performs_of_perform {ch : Choice} {l l' : Option Appended} {g g' : World} {o : Op} {r : Resp o}
    (h : perform ch l g o = some (r, l', g')) : Performs o l g r l' g' := by
  cases o with
  | poll =>
    unfold perform at h
    cases hrecord : g.outbox.glob.log[ch.record]? with
    | none =>
      rw [hrecord] at h
      cases h
    | some a =>
      simp only [hrecord] at h
      split_ifs at h with htopic
      cases h
      exact ⟨a, List.mem_of_getElem? hrecord, htopic, rfl, rfl, rfl⟩
  | emailsSend request =>
    unfold perform at h
    cases l with
    | none => cases h
    | some a =>
      simp only at h
      split_ifs at h with hfits
      cases h
      exact ⟨rfl, a, ch.verdict, rfl, hfits, rfl⟩
  | _ =>
    cases h
    exact ⟨rfl, rfl⟩

/-- Consumers, started one by one. -/
def driver (dep : Deployment) (decode : Bytes → Except Thrown AuthEmailMessage) (fromEmail : String) :
    Driver (pipeline dep decode fromEmail) Unit Choice Empty where
  start _ _ := some (none, consume decode fromEmail)
  perform ch _ l g o := perform ch l g o
  outside e := e.elim
  start_ok h := by
    cases h
    exact ⟨rfl, rfl⟩
  perform_ok h := performs_of_perform h
  outside_ok {e} := e.elim

/-- What the publishers do is a run of the system. -/
theorem reachable_outbox {o o' : Outbox.State} (h : Reachable (Outbox.machine (Committed dep)) o o') :
    Reachable (pipeline dep decode fromEmail) (Config.initial ⟨o, []⟩) (Config.initial ⟨o', []⟩) := by
  induction h with
  | refl => exact .refl
  | tail _ hs ih => exact ih.tail (.env ⟨_, hs, rfl⟩)

end Runs

end Email

namespace Email.Pipeline.Sample

open Interaction
open Identity (StoredEvent AuthEmailMessage uuidText)
open Identity.Sample (deployment)
open scoped Identity.Sample

/-! ## A record that is produced and delivered twice -/

/-- The decoder of the sample encoding. -/
def decode (bytes : Identity.Bytes) : Except Thrown Email.AuthEmailMessage :=
  match Identity.decodeEmail bytes with
  | some m => .ok (received m)
  | none => .error (.error "RangeError" "premature EOF")

theorem decodesEncoded : DecodesEncoded decode := by
  intro m message hknown hmessage
  rw [decode, Identity.Sample.emailRoundTrip m hknown] at hmessage
  cases hmessage
  rfl

/-- The row that a sign-up commits. -/
def row : StoredEvent := Identity.newEvent 3 1 (Identity.verificationEvent deployment.webBaseUrl 3 "ada@home"
  "Ada" "Lovelace" none 0 (Base64Url.encodeString (Identity.Sample.rawToken 5))) none 0

theorem committed_row : Committed deployment row := by
  have hrun : (Identity.execute deployment (.of fun _ => True) (Identity.boot [] 0)
      (Identity.Sample.signUp 0 "ada" "ada@home" 1 5)).any
        (fun c => decide (row ∈ Identity.outbox c.glob.db)) = true := by
    decide +kernel
  obtain ⟨c, -, hc, hrow⟩ := Driver.exists_of_execute hrun
  obtain ⟨r, hr, hevent⟩ := List.mem_filterMap.mp (of_decide_eq_true hrow)
  cases r <;> cases hevent
  exact ⟨0, c, hc, hr⟩

/-- Two replicas produce the row, the second after the first lost its lock. -/
def producedTwice : Outbox.Sample.Schedule :=
  .outside (.insert row) :: Outbox.Sample.start 0 50 ++ Outbox.Sample.act 0 8 ++ .outside (.lose 0) ::
    Outbox.Sample.start 1 50 ++ Outbox.Sample.act 1 8

/-- A delivery of the record `n`. -/
def deliver (i n : ℕ) (verdict : Verdict) : List (Command Unit Choice Empty) :=
  .start i () :: List.replicate 5 (.act i { record := n, verdict })

theorem execute_twice : (Outbox.driver.execute (Outbox.boot [] 0) producedTwice).any (fun o =>
    decide (o.glob.rows = [row]) &&
      ((driver deployment decode "").execute (Config.initial ⟨o, []⟩)
        (deliver 0 0 .accepted ++ deliver 1 1 .suppressed)).any fun c =>
          decide (c.glob.outbox.glob.rows = [row] ∧
            c.glob.asked.map (fun x => (x.row, x.verdict)) = [(row.id, .suppressed), (row.id, .accepted)])) =
              true := by
  decide +kernel

/-- The second delivery asks again, and its email is suppressed. -/
theorem one_email_for_ada : ∃ c, Reachable (pipeline deployment decode "") (boot 0) c ∧
    c.glob.outbox.glob.rows = [row] ∧
    c.glob.asked.map (fun x => (x.row, x.verdict)) = [(row.id, .suppressed), (row.id, .accepted)] ∧
    c.glob.asked.countP (fun x => x.row = row.id ∧ x.verdict = .accepted) ≤ 1 := by
  obtain ⟨o, -, ho, hrun⟩ := Driver.exists_of_execute execute_twice
  obtain ⟨hrows, hrun⟩ := Bool.and_eq_true_iff.mp hrun
  obtain ⟨c, -, hdelivered, hasked⟩ := Driver.exists_of_execute hrun
  obtain ⟨hrow, hasked⟩ := of_decide_eq_true hasked
  have hproduced : Reachable (Outbox.machine (Committed deployment)) (Outbox.boot [] 0) o := by
    refine Outbox.reachable_of_rows ho fun e he => ?_
    rw [of_decide_eq_true hrows] at he
    obtain rfl := List.mem_singleton.mp he
    exact committed_row
  have hc : Reachable (pipeline deployment decode "") (boot 0) c :=
    (reachable_outbox hproduced).trans hdelivered
  have hone := (one_email_per_event Identity.Sample.uuidRoundTrip decodesEncoded hc).1 row
    (by rw [hrow]; exact List.mem_singleton_self _)
  exact ⟨c, hc, hrow, hasked, hone⟩

end Email.Pipeline.Sample
