import HomeServices.Concurrent.Translation
import HomeServices.Email.Handler

/-!
# What becomes of a message

The handler counts every message once. It returns if the email was sent or its failure is permanent; any
other failure it throws, so that the record comes again.

* `Permanent`: a text contains an error that should not be retried.
* `Call`, `injected`: dependencies that may answer anything; `sends`, `metrics`: what a run did.
* `Failure`, `Ended`: how the sending of an email ends; **`handled`**: how the handler ends after it.
* `handleAuthEmailMessage_eq`: the handler of the service, whose `sendEmail` asks Resend.
* `Refused`, `runs_refused`; **`refusal_iff`**: when a refusal by Resend ends as its name and message say.
-/

namespace Email

open Interaction

/-! ## Permanent failures -/

/-- The text contains an error that should not be retried. -/
def Permanent (text : String) : Prop := ∃ msg ∈ nonRetryableErrors, includes text msg = true

theorem isRetryable_iff {text : String} : isRetryable text = true ↔ ¬ Permanent text := by
  unfold isRetryable Permanent
  rw [Bool.not_eq_true', ← Bool.not_eq_true, List.any_eq_true]

instance decidablePermanent (text : String) : Decidable (Permanent text) :=
  decidable_of_iff (isRetryable text = false) (by rw [← Bool.not_eq_true, isRetryable_iff, not_not])

def Thrown.Permanent : Thrown → Prop
  | error _ message => Email.Permanent message
  | other => False

/-- A failure: reported, perhaps with a text, or thrown. -/
inductive Failure where
  | reported (text : Option String)
  | thrown (e : Thrown)

/-- A failure that should not be retried: a text or an `Error` that says so. -/
def Failure.Permanent : Failure → Prop
  | reported none => False
  | reported (some text) => Email.Permanent text
  | thrown e => e.Permanent

/-- The failure as it is thrown. -/
def Failure.rejection : Failure → Thrown
  | reported text => .error "Error" (text.getD "Email send failed")
  | thrown e => e

theorem not_permanent_unknown : ¬ Permanent "Email send failed" := by decide +kernel

theorem Failure.permanent_rejection (f : Failure) : f.rejection.Permanent ↔ f.Permanent := by
  rcases f with (_ | text) | e
  · exact iff_of_false not_permanent_unknown id
  · exact Iff.rfl
  · exact Iff.rfl

/-! ## Any dependencies -/

inductive Call where
  | dateNow
  | sendEmail (params : SendEmailParams)
  | recordEmailSent (emailType : String) (durationMs : ℤ)
  | recordEmailFailed (emailType errorType : String) (durationMs : ℤ)

abbrev Answer : Call → Type
  | .dateNow => ℤ
  | .sendEmail _ => Except Thrown SendResult
  | .recordEmailSent .. | .recordEmailFailed .. => Unit

/-- Dependencies that may answer anything; metrics do not throw. -/
def injected : HandlerDependencies Call Answer where
  sendEmail params := attempt (.sendEmail params) id
  recordEmailSent emailType durationMs := attempt (.recordEmailSent emailType durationMs) .ok
  recordEmailFailed emailType errorType durationMs :=
    attempt (.recordEmailFailed emailType errorType durationMs) .ok
  dateNow := attempt .dateNow .ok

inductive Metric where
  | sent
  | failed
  deriving DecidableEq

/-- The outcome, of a call of `sendEmail`. -/
def sent? : Sigma Answer → Option (Except Thrown SendResult)
  | ⟨.sendEmail _, outcome⟩ => some outcome
  | _ => none

def metric? : Sigma Answer → Option Metric
  | ⟨.recordEmailSent .., _⟩ => some .sent
  | ⟨.recordEmailFailed .., _⟩ => some .failed
  | _ => none

/-- The outcomes of `sendEmail` in a run. -/
def sends (es : List (Sigma Answer)) : List (Except Thrown SendResult) := es.filterMap sent?

/-- The metrics of a run. -/
def metrics (es : List (Sigma Answer)) : List Metric := es.filterMap metric?

/-- How the sending of a message's email ends. -/
inductive Ended (message : AuthEmailMessage) : List (Except Thrown SendResult) → Option Failure → Prop
  | unprepared {e : Thrown} : getAuthEmailContent message = .error e →
      Ended message [] (some (.thrown e))
  | rejected {content : EmailContent} {e : Thrown} : getAuthEmailContent message = .ok content →
      Ended message [.error e] (some (.thrown e))
  | refused {content : EmailContent} {result : SendResult} : getAuthEmailContent message = .ok content →
      result.success = false → Ended message [.ok result] (some (.reported result.error))
  | succeeded {content : EmailContent} {result : SendResult} : getAuthEmailContent message = .ok content →
      result.success = true → Ended message [.ok result] none

theorem Ended.length_le {message : AuthEmailMessage} {outcomes : List (Except Thrown SendResult)}
    {failure : Option Failure} (h : Ended message outcomes failure) : outcomes.length ≤ 1 := by
  cases h with
  | unprepared => exact Nat.zero_le 1
  | rejected | refused | succeeded => exact Nat.le_refl 1

section Handled

variable {P : (c : Call) → Answer c → Prop} {es : List (Sigma Answer)} {r : Except Thrown Unit}

/-- What is thrown is counted as a failure, and thrown again unless it is permanent. -/
theorem runs_rescue {emailType : String} {sendStartTime : ℤ} {thrown : Thrown}
    (h : (injected.rescue emailType sendStartTime thrown).run.Runs P es r) :
    sends es = [] ∧ metrics es = [.failed] ∧ (thrown.Permanent → r = .ok ()) ∧
      (¬ thrown.Permanent → r = .error thrown) := by
  unfold HandlerDependencies.rescue at h
  obtain ⟨now, _, rfl, -, _, es, rfl, -, h⟩ := h
  cases thrown with
  | other =>
    obtain ⟨rfl, rfl⟩ := h
    exact ⟨rfl, rfl, False.elim, fun _ => rfl⟩
  | error name message =>
    change (if isRetryable message then _ else _ : Handler Call Answer Thrown Unit).run.Runs P es r at h
    split_ifs at h with hretry
    · obtain ⟨rfl, rfl⟩ := h
      exact ⟨rfl, rfl, fun hp => absurd hp (isRetryable_iff.mp hretry), fun _ => rfl⟩
    · obtain ⟨rfl, rfl⟩ := h
      exact ⟨rfl, rfl, fun _ => rfl, fun hp => absurd (isRetryable_iff.mpr hp) hretry⟩

/-- The handler ends as the sending of the email does. -/
theorem runs_handle {message : AuthEmailMessage}
    (h : (injected.handleAuthEmailMessage message).run.Runs P es r) :
    ∃ failure, Ended message (sends es) failure ∧
      (failure = none ∧ metrics es = [.sent] ∧ r = .ok () ∨ ∃ f, failure = some f ∧ metrics es = [.failed] ∧
        (f.Permanent → r = .ok ()) ∧ (¬ f.Permanent → r = .error f.rejection)) := by
  unfold HandlerDependencies.handleAuthEmailMessage at h
  rw [run_bind] at h
  obtain ⟨t₀, es, rfl, -, h⟩ := h
  dsimp only [Prog.bind] at h
  rw [run_tryCatch, run_bind, run_fromExcept, Prog.ret_bind] at h
  cases hcontent : getAuthEmailContent message with
  | error e =>
    rw [hcontent] at h
    obtain ⟨hsends, hmetrics, hend⟩ := runs_rescue h
    refine ⟨some (.thrown e), ?_, Or.inr ⟨_, rfl, hmetrics, hend⟩⟩
    change Ended message (sends es) _
    rw [hsends]
    exact .unprepared hcontent
  | ok content =>
    rw [hcontent] at h
    obtain ⟨outcome, es, rfl, -, h⟩ := h
    cases outcome with
    | error e =>
      obtain ⟨hsends, hmetrics, hend⟩ := runs_rescue h
      refine ⟨some (.thrown e), ?_, Or.inr ⟨_, rfl, hmetrics, hend⟩⟩
      change Ended message (.error e :: sends es) _
      rw [hsends]
      exact .rejected hcontent
    | ok result =>
      obtain ⟨t₁, es, rfl, -, h⟩ := h
      dsimp only [Prog.bind] at h
      cases hsuccess : result.success with
      | true =>
        simp only [hsuccess, if_true] at h
        obtain ⟨_, es, rfl, -, rfl, rfl⟩ := h
        exact ⟨none, .succeeded hcontent hsuccess, Or.inl ⟨rfl, rfl, rfl⟩⟩
      | false =>
        have hended : Ended message [.ok result] (some (.reported result.error)) := .refused hcontent hsuccess
        have hpermanent := (Failure.reported result.error).permanent_rejection
        simp only [hsuccess, Bool.false_eq_true, if_false] at h
        change Prog.Runs P (Prog.bind (if isRetryable (result.error.getD "Email send failed") then _ else _ :
          Handler Call Answer Thrown Unit).run _) es r at h
        split_ifs at h with hretry
        · -- thrown into the handler's own `catch`, which counts it
          obtain ⟨hsends, hmetrics, hskip, hthrow⟩ := runs_rescue h
          refine ⟨_, ?_, Or.inr ⟨_, rfl, hmetrics, fun hp => hskip (hpermanent.mpr hp),
            fun hp => hthrow fun hp' => hp (hpermanent.mp hp')⟩⟩
          change Ended message (.ok result :: sends es) _
          rw [hsends]
          exact hended
        · obtain ⟨_, es, rfl, -, rfl, rfl⟩ := h
          have hp : (Failure.reported result.error).rejection.Permanent := by
            by_contra hp
            exact hretry (isRetryable_iff.mpr hp)
          exact ⟨_, hended, Or.inr ⟨_, rfl, rfl, fun _ => rfl, fun hp' => absurd (hpermanent.mp hp) hp'⟩⟩

/-- **The handler sends at most one email and counts once; it returns if the email was sent or its failure is
permanent, and otherwise throws the failure.** -/
theorem handled {message : AuthEmailMessage} (h : (injected.handleAuthEmailMessage message).run.Runs P es r) :
    ∃ failure, Ended message (sends es) failure ∧ (sends es).length ≤ 1 ∧
      (failure = none ∧ metrics es = [.sent] ∨ failure ≠ none ∧ metrics es = [.failed]) ∧
      (r = .ok () ↔ ∀ f, failure = some f → f.Permanent) ∧
      ∀ f, failure = some f → ¬ f.Permanent → r = .error f.rejection := by
  obtain ⟨failure, hended, ⟨rfl, hmetrics, rfl⟩ | ⟨f, rfl, hmetrics, hskip, hthrow⟩⟩ := runs_handle h
  · refine ⟨none, hended, hended.length_le, Or.inl ⟨rfl, hmetrics⟩, iff_of_true rfl ?_, ?_⟩
    · intro f hf
      cases hf
    · intro f hf
      cases hf
  · refine ⟨some f, hended, hended.length_le, Or.inr ⟨Option.some_ne_none f, hmetrics⟩, ⟨?_, ?_⟩, ?_⟩
    · rintro rfl f' hf'
      cases hf'
      by_contra hp
      cases hthrow hp
    · intro hall
      exact hskip (hall f rfl)
    · intro f' hf' hp
      cases hf'
      exact hthrow hp

end Handled

/-! ## Refusals by Resend -/

/-- How `sendEmail` asks Resend. -/
def implement (fromEmail : String) : Call → Op
  | .dateNow => .dateNow
  | .sendEmail params => .emailsSend (params.request fromEmail)
  | .recordEmailSent emailType durationMs => .recordEmailSent emailType durationMs
  | .recordEmailFailed emailType errorType durationMs => .recordEmailFailed emailType errorType durationMs

/-- What `sendEmail` makes of the answer. -/
def interpret (fromEmail : String) : (c : Call) → Resp (implement fromEmail c) → Answer c
  | .dateNow, now => now
  | .sendEmail _, response => .ok (.ofResponse response)
  | .recordEmailSent .., r => r
  | .recordEmailFailed .., r => r

theorem rescue_eq (fromEmail emailType : String) (sendStartTime : ℤ) (thrown : Thrown) :
    (defaultDependencies fromEmail).rescue emailType sendStartTime thrown =
      translate (implement fromEmail) (interpret fromEmail)
        (injected.rescue emailType sendStartTime thrown) := by
  unfold HandlerDependencies.rescue
  rw [translate_bind]
  congr 1
  funext now
  rw [translate_bind]
  congr 1
  funext _
  cases thrown with
  | other => rfl
  | error name message =>
    dsimp only
    split_ifs <;> rfl

/-- **The handler of the service is the handler over `sendEmail`.** -/
theorem handleAuthEmailMessage_eq (fromEmail : String) (message : AuthEmailMessage) :
    handleAuthEmailMessage fromEmail message =
      translate (implement fromEmail) (interpret fromEmail) (injected.handleAuthEmailMessage message) := by
  unfold handleAuthEmailMessage HandlerDependencies.handleAuthEmailMessage
  dsimp only
  rw [translate_bind]
  congr 1
  funext sendStartTime
  rw [translate_tryCatch, translate_bind, translate_fromExcept]
  congr 1
  · congr 1
    funext content
    rw [translate_bind]
    congr 1
    funext result
    rw [translate_bind]
    congr 1
    funext now
    split_ifs <;> rfl
  · funext thrown
    exact rescue_eq fromEmail _ _ thrown

/-- Resend answered the request of this run with this refusal. -/
def Refused (refusal : ErrorResponse) (es : List (Sigma Resp)) : Prop :=
  ∃ request data, (⟨.emailsSend request, .ok ⟨data, some refusal⟩⟩ : Sigma Resp) ∈ es

/-- Resend answers every request with this refusal. -/
def Refuses (refusal : ErrorResponse) : (o : Op) → Resp o → Prop
  | .emailsSend _, response => response = .ok ⟨none, some refusal⟩
  | _, _ => True

theorem exists_refuses (refusal : ErrorResponse) (o : Op) : ∃ r, Refuses refusal o r := by
  cases o with
  | emailsSend _ => exact ⟨_, rfl⟩
  | poll => exact ⟨(none : Option _), trivial⟩
  | dateNow => exact ⟨(0 : ℤ), trivial⟩
  | recordEmailSent | recordEmailFailed => exact ⟨(), trivial⟩

/-- Every email may be refused. -/
theorem exists_refused (fromEmail : String) {message : AuthEmailMessage} {content : EmailContent}
    (hcontent : getAuthEmailContent message = .ok content) (refusal : ErrorResponse) :
    ∃ es r, (handleAuthEmailMessage fromEmail message).run.Runs (Refuses refusal) es r ∧
      Refused refusal es := by
  obtain ⟨es, r, h⟩ := Prog.exists_runs (exists_refuses refusal)
    (handleAuthEmailMessage fromEmail message).run
  refine ⟨es, r, h, ?_⟩
  unfold handleAuthEmailMessage HandlerDependencies.handleAuthEmailMessage at h
  rw [run_bind] at h
  obtain ⟨t₀, es, rfl, -, h⟩ := h
  dsimp only [Prog.bind] at h
  rw [run_tryCatch, run_bind, run_fromExcept, Prog.ret_bind, hcontent] at h
  obtain ⟨_, es, rfl, rfl, -⟩ := h
  exact ⟨_, none, List.mem_cons_of_mem _ List.mem_cons_self⟩

section Refusals

variable {P : (o : Op) → Resp o → Prop} {fromEmail : String} {message : AuthEmailMessage}
  {refusal : ErrorResponse} {es : List (Sigma Resp)} {r : Except Thrown Unit}

/-- What `sendEmail` makes of a refusal: the message, without the name. -/
theorem mem_sends_of_refused {ts : List (Prog.Translated Resp (implement fromEmail))}
    (h : Refused refusal (ts.map fun t => ⟨implement fromEmail t.1, t.2⟩)) :
    .ok { success := false, error := some refusal.message } ∈
      sends (ts.map fun t => ⟨t.1, interpret fromEmail t.1 t.2⟩) := by
  obtain ⟨request, data, hmem⟩ := h
  obtain ⟨⟨c, response⟩, ht, heq⟩ := List.mem_map.mp hmem
  refine List.mem_filterMap.mpr ⟨_, List.mem_map_of_mem ht, ?_⟩
  cases c with
  | sendEmail params =>
    cases heq
    rfl
  | dateNow | recordEmailSent | recordEmailFailed => cases heq

/-- A refusal ends as its message says. -/
theorem runs_refused (h : (handleAuthEmailMessage fromEmail message).run.Runs P es r)
    (hrefused : Refused refusal es) :
    (Permanent refusal.message → r = .ok ()) ∧
      (¬ Permanent refusal.message → r = .error (.error "Error" refusal.message)) := by
  rw [handleAuthEmailMessage_eq, run_translate] at h
  obtain ⟨ts, rfl, hrun⟩ := Prog.runs_translate _ _ h
  have hmem := mem_sends_of_refused hrefused
  obtain ⟨failure, hended, hend⟩ := runs_handle hrun
  generalize sends _ = outcomes at hmem hended
  cases hended with
  | unprepared => cases hmem
  | rejected => cases List.mem_singleton.mp hmem
  | succeeded _ hsuccess =>
    cases List.mem_singleton.mp hmem
    cases hsuccess
  | refused =>
    cases List.mem_singleton.mp hmem
    obtain ⟨hnone, -⟩ | ⟨f, hf, -, hskip, hthrow⟩ := hend
    · cases hnone
    · cases hf
      exact ⟨hskip, hthrow⟩

/-- **A refusal is skipped or thrown as its name and message say, if and only if a name that says so comes
with a message that says so.** -/
theorem refusal_iff (h : (handleAuthEmailMessage fromEmail message).run.Runs P es r)
    (hrefused : Refused refusal es) :
    ((Permanent refusal.name ∨ Permanent refusal.message → r = .ok ()) ∧
      (¬ (Permanent refusal.name ∨ Permanent refusal.message) → ∃ e, r = .error e)) ↔
      (Permanent refusal.name → Permanent refusal.message) := by
  obtain ⟨hskip, hthrow⟩ := runs_refused h hrefused
  constructor
  · rintro ⟨hok, -⟩ hname
    by_contra hmessage
    have hr := hok (Or.inl hname)
    rw [hthrow hmessage] at hr
    cases hr
  · intro hname
    refine ⟨fun hp => hskip (hp.elim hname id), fun hp => ⟨_, hthrow fun hmessage => hp (Or.inr hmessage)⟩⟩

end Refusals

namespace Sample

/-- A message with a verification code. -/
def verification : AuthEmailMessage :=
  { recipientEmail := "ada@example.com", payload := some (.emailVerification ⟨"246810", "", 30⟩) }

def Reports (result : SendResult) : (c : Call) → Answer c → Prop
  | .sendEmail _, outcome => outcome = .ok result
  | _, _ => True

theorem exists_reports (result : SendResult) (c : Call) : ∃ r, Reports result c r := by
  cases c with
  | sendEmail _ => exact ⟨_, rfl⟩
  | dateNow => exact ⟨(0 : ℤ), trivial⟩
  | recordEmailSent | recordEmailFailed => exact ⟨(), trivial⟩

/-- A failure without a text is counted, and thrown if it is not permanent. -/
theorem handled_without_text : ∃ es r failure,
    (injected.handleAuthEmailMessage verification).run.Runs (Reports { success := false }) es r ∧
    Ended verification (sends es) failure ∧ (sends es).length ≤ 1 ∧
      (failure = none ∧ metrics es = [.sent] ∨ failure ≠ none ∧ metrics es = [.failed]) ∧
      (r = .ok () ↔ ∀ f, failure = some f → f.Permanent) ∧
      ∀ f, failure = some f → ¬ f.Permanent → r = .error f.rejection := by
  obtain ⟨es, r, hrun⟩ := Prog.exists_runs (exists_reports { success := false })
    (injected.handleAuthEmailMessage verification).run
  obtain ⟨failure, hend⟩ := handled hrun
  exact ⟨es, r, failure, hrun, hend⟩

def invalidEmail : ErrorResponse := ⟨"validation_error", "Invalid email address"⟩

/-- A refusal that says so in its name and in its message is skipped. -/
theorem refusal_skipped : ∃ es r,
    (handleAuthEmailMessage "no-reply@example.com" verification).run.Runs (Refuses invalidEmail) es r ∧
    r = .ok () := by
  have hcontent : getAuthEmailContent verification = .ok ⟨"Verify your email address", ⟨"246810"⟩⟩ := rfl
  obtain ⟨es, r, hrun, hrefused⟩ := exists_refused "no-reply@example.com" hcontent invalidEmail
  have hpermanent : Permanent invalidEmail.message := by decide +kernel
  exact ⟨es, r, hrun, ((refusal_iff hrun hrefused).mpr fun _ => hpermanent).1 (Or.inr hpermanent)⟩

def missingField : ErrorResponse := ⟨"validation_error", "The to field is missing."⟩

/-- **A refusal that says so in its name only is thrown.** -/
theorem refusal_thrown : ¬ ∀ (P : (o : Op) → Resp o → Prop) fromEmail message refusal es r,
    (handleAuthEmailMessage fromEmail message).run.Runs P es r → Refused refusal es →
    (Permanent refusal.name ∨ Permanent refusal.message → r = .ok ()) ∧
      (¬ (Permanent refusal.name ∨ Permanent refusal.message) → ∃ e, r = .error e) := by
  intro claimed
  have hcontent : getAuthEmailContent verification = .ok ⟨"Verify your email address", ⟨"246810"⟩⟩ := rfl
  obtain ⟨es, r, hrun, hrefused⟩ := exists_refused "no-reply@example.com" hcontent missingField
  have hname : Permanent missingField.name := by decide +kernel
  have hmessage : ¬ Permanent missingField.message := by decide +kernel
  have hok := (claimed _ _ _ _ es r hrun hrefused).1 (Or.inl hname)
  rw [(runs_refused hrun hrefused).2 hmessage] at hok
  cases hok

end Sample

end Email
