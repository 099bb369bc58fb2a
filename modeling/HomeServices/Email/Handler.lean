import HomeServices.Concurrent.Program
import HomeServices.Identity.Platform

/-!
# The email service

The consumer decodes each record of its topic and sends the email in it. Some errors are not worth a
retry: their records are skipped.

* `AuthEmailMessage`, `Thrown`, `Op`: messages, what is thrown, and what the service asks for.
* `getAuthEmailContent`, `sendEmail`, `handleAuthEmailMessage`, `eachMessage`: from a record to its email.
* `requestOf`: the email of a message; `asks_eachMessage`: nothing else is asked for.
-/

namespace Email

open Interaction
open Identity (Bytes)

/-! ## Messages -/

structure EmailVerification where
  verificationCode : String
  verificationLink : String
  expiresInMinutes : ℤ

structure PasswordReset where
  resetCode : String
  resetLink : String
  expiresInMinutes : ℤ
  requestIp : String
  requestLocation : String

structure ChangeEmail where
  oldEmail : String
  confirmationCode : String
  confirmationLink : String
  expiresInMinutes : ℤ

structure PasswordChanged where
  changedAtMs : ℤ
  changeIp : String
  changeLocation : String

structure TwoFactorSetup where
  setupCode : String
  expiresInMinutes : ℤ

structure TwoFactorEnabled where
  enabledAtMs : ℤ
  backupCodesHint : String

/-- The kinds of email that the generated code knows; it leaves others out. -/
inductive Payload where
  | emailVerification (data : EmailVerification)
  | passwordReset (data : PasswordReset)
  | changeEmail (data : ChangeEmail)
  | passwordChanged (data : PasswordChanged)
  | twoFactorSetup (data : TwoFactorSetup)
  | twoFactorEnabled (data : TwoFactorEnabled)

/-- The envelope, as decoded. -/
structure AuthEmailMessage where
  idempotencyKey : String := ""
  recipientEmail : String := ""
  recipientName : String := ""
  traceId : String := ""
  spanId : String := ""
  producedAtMs : ℤ := 0
  payload : Option Payload := none

/-- What is thrown: an `Error`, with the name of its constructor, or something else. -/
inductive Thrown where
  | error (name message : String)
  | other

/-! ## Templates -/

/-- The only template, with its property. -/
structure NotionMagicLinkEmail where
  loginCode : String

structure EmailContent where
  subject : String
  react : NotionMagicLinkEmail

def getAuthEmailContent (message : AuthEmailMessage) : Except Thrown EmailContent :=
  match message.payload with
  | none => .error (.error "Error" "Missing email payload")
  | some (.emailVerification data) => .ok ⟨"Verify your email address", ⟨data.verificationCode⟩⟩
  | some (.passwordReset data) => .ok ⟨"Reset your password", ⟨data.resetCode⟩⟩
  | some (.changeEmail data) => .ok ⟨"Confirm your new email address", ⟨data.confirmationCode⟩⟩
  | some (.passwordChanged _) => .ok ⟨"Your password was changed", ⟨"Password Changed"⟩⟩
  | some (.twoFactorSetup data) => .ok ⟨"Complete your two-factor authentication setup", ⟨data.setupCode⟩⟩
  | some (.twoFactorEnabled _) => .ok ⟨"Two-factor authentication is now enabled", ⟨"2FA Enabled"⟩⟩

/-! ## Sending -/

/-- What Resend is asked for; the key is also sent as the header `X-Entity-Ref-ID`. -/
structure EmailRequest where
  from_ : String
  to_ : String
  subject : String
  react : NotionMagicLinkEmail
  headers : List (String × String)
  idempotencyKey : String

/-- Why Resend refuses an email. -/
structure ErrorResponse where
  name : String
  message : String

/-- What Resend answers: the id of the email, or an error. -/
structure EmailResponse where
  data : Option String
  error : Option ErrorResponse

inductive Op where
  -- the next record of the topic
  | poll
  | dateNow
  | emailsSend (request : EmailRequest)
  | recordEmailSent (emailType : String) (durationMs : ℤ)
  | recordEmailFailed (emailType errorType : String) (durationMs : ℤ)

abbrev Resp : Op → Type
  | .poll => Option Bytes
  | .dateNow => ℤ
  | .emailsSend _ => Except Thrown EmailResponse
  | .recordEmailSent .. | .recordEmailFailed .. => Unit

structure SendEmailParams where
  to_ : String
  subject : String
  react : NotionMagicLinkEmail
  idempotencyKey : String
  traceId : String

structure SendResult where
  success : Bool
  messageId : Option String := none
  error : Option String := none

def SendEmailParams.request (fromEmail : String) (params : SendEmailParams) : EmailRequest :=
  { from_ := fromEmail
    to_ := params.to_
    subject := params.subject
    react := params.react
    headers := [("X-Entity-Ref-ID", params.idempotencyKey)]
    idempotencyKey := params.idempotencyKey }

/-- What became of a request, thrown errors included. -/
def SendResult.ofResponse : Except Thrown EmailResponse → SendResult
  | .ok result =>
    match result.error with
    | some error => { success := false, error := some error.message }
    | none => { success := true, messageId := result.data }
  | .error (.error _ message) => { success := false, error := some message }
  | .error .other => { success := false, error := some "Unknown error" }

def sendEmail (fromEmail : String) (params : SendEmailParams) : Handler Op Resp Thrown SendResult :=
  attempt (.emailsSend (params.request fromEmail)) fun r => .ok (.ofResponse r)

/-! ## The handler -/

/-- Errors that should not be retried. -/
def nonRetryableErrors : List String :=
  ["Invalid email address", "Domain not allowed", "Unknown email payload type", "Missing email payload",
    "validation_error"]

/-- `String.prototype.includes`. -/
def includes (s searchString : String) : Bool := decide (searchString.toList <:+: s.toList)

def isRetryable (message : String) : Bool := !nonRetryableErrors.any fun msg => includes message msg

def getEmailType (message : AuthEmailMessage) : String :=
  match message.payload with
  | none => "unknown"
  | some (.emailVerification _) => "emailVerification"
  | some (.passwordReset _) => "passwordReset"
  | some (.changeEmail _) => "changeEmail"
  | some (.passwordChanged _) => "passwordChanged"
  | some (.twoFactorSetup _) => "twoFactorSetup"
  | some (.twoFactorEnabled _) => "twoFactorEnabled"

def recordEmailSent (emailType : String) (durationMs : ℤ) : Handler Op Resp Thrown Unit :=
  attempt (.recordEmailSent emailType durationMs) .ok

def recordEmailFailed (emailType errorType : String) (durationMs : ℤ) : Handler Op Resp Thrown Unit :=
  attempt (.recordEmailFailed emailType errorType durationMs) .ok

def dateNow : Handler Op Resp Thrown ℤ := attempt .dateNow .ok

/-- `errorType` of the metrics. -/
def Thrown.errorType : Thrown → String
  | error name _ => name
  | other => "unknown"

/-- What the handler is given, and the clock. -/
structure HandlerDependencies (O : Type) (R : O → Type) where
  sendEmail : SendEmailParams → Handler O R Thrown SendResult
  recordEmailSent (emailType : String) (durationMs : ℤ) : Handler O R Thrown Unit
  recordEmailFailed (emailType errorType : String) (durationMs : ℤ) : Handler O R Thrown Unit
  dateNow : Handler O R Thrown ℤ

namespace HandlerDependencies

variable {O : Type} {R : O → Type} (deps : HandlerDependencies O R)

/-- What is thrown while an email is prepared and sent is counted, and thrown again if a retry may help. -/
def rescue (emailType : String) (sendStartTime : ℤ) (thrown : Thrown) : Handler O R Thrown Unit := do
  let now ← deps.dateNow
  deps.recordEmailFailed emailType thrown.errorType (now - sendStartTime)
  match thrown with
  | .error _ message => if isRetryable message then throw thrown else return ()
  | .other => throw thrown

def handleAuthEmailMessage (message : AuthEmailMessage) : Handler O R Thrown Unit := do
  let emailType := getEmailType message
  let sendStartTime ← deps.dateNow
  tryCatch (do
    let content ← fromExcept (getAuthEmailContent message)
    let result ← deps.sendEmail
      { to_ := message.recipientEmail, subject := content.subject, react := content.react,
        idempotencyKey := message.idempotencyKey, traceId := message.traceId }
    let now ← deps.dateNow
    if result.success then deps.recordEmailSent emailType (now - sendStartTime)
    else
      let error := result.error.getD "Email send failed"
      if isRetryable error then throw (.error "Error" error)
      else deps.recordEmailFailed emailType (result.error.getD "unknown") (now - sendStartTime))
    (deps.rescue emailType sendStartTime)

end HandlerDependencies

def defaultDependencies (fromEmail : String) : HandlerDependencies Op Resp where
  sendEmail := sendEmail fromEmail
  recordEmailSent := recordEmailSent
  recordEmailFailed := recordEmailFailed
  dateNow := dateNow

def handleAuthEmailMessage (fromEmail : String) (message : AuthEmailMessage) :
    Handler Op Resp Thrown Unit :=
  (defaultDependencies fromEmail).handleAuthEmailMessage message

/-- One record; what it throws is logged and thrown again. An empty value is decoded, only a missing one is
skipped. -/
def eachMessage (decode : Bytes → Except Thrown AuthEmailMessage) (fromEmail : String) :
    Option Bytes → Handler Op Resp Thrown Unit
  | none => return ()
  | some value => do
    let authMessage ← fromExcept (decode value)
    handleAuthEmailMessage fromEmail authMessage

/-! ## What is asked for -/

/-- The email of a message, where it has one. -/
def requestOf (fromEmail : String) (message : AuthEmailMessage) : Option EmailRequest :=
  match getAuthEmailContent message with
  | .error _ => none
  | .ok content => some (SendEmailParams.request fromEmail
      { to_ := message.recipientEmail, subject := content.subject, react := content.react,
        idempotencyKey := message.idempotencyKey, traceId := message.traceId })

theorem idempotencyKey_requestOf {fromEmail : String} {message : AuthEmailMessage} {request : EmailRequest}
    (h : requestOf fromEmail message = some request) : request.idempotencyKey = message.idempotencyKey := by
  unfold requestOf at h
  cases hcontent : getAuthEmailContent message with
  | error e =>
    rw [hcontent] at h
    cases h
  | ok content =>
    rw [hcontent] at h
    cases h
    rfl

/-- A message without a known payload is the only one without an email. -/
theorem requestOf_eq_none {fromEmail : String} {message : AuthEmailMessage} :
    requestOf fromEmail message = none ↔ message.payload = none := by
  unfold requestOf getAuthEmailContent
  rcases message.payload with _ | payload
  · simp
  · cases payload <;> simp

/-- The email of a record, where it has one. -/
def emailOf (decode : Bytes → Except Thrown AuthEmailMessage) (fromEmail : String) (value : Option Bytes) :
    Option EmailRequest :=
  value.bind fun bytes => (decode bytes).toOption.bind (requestOf fromEmail)

/-- The operation asks for no record, and for no email but this one. -/
def Op.Asks (request : Option EmailRequest) : Op → Prop
  | poll => False
  | emailsSend r => request = some r
  | _ => True

theorem asks_rescue (fromEmail : String) (request : Option EmailRequest) (emailType : String)
    (sendStartTime : ℤ) (thrown : Thrown) :
    ((defaultDependencies fromEmail).rescue emailType sendStartTime thrown).run.All (Op.Asks request) := by
  unfold HandlerDependencies.rescue
  refine all_run_bind ⟨trivial, fun _ => trivial⟩ fun now => ?_
  refine all_run_bind ⟨trivial, fun _ => trivial⟩ fun _ => ?_
  cases thrown with
  | other => exact trivial
  | error name message =>
    change (if isRetryable message then _ else _ : Handler Op Resp Thrown Unit).run.All _
    split_ifs
    · exact trivial
    · exact trivial

theorem asks_handleAuthEmailMessage (fromEmail : String) (message : AuthEmailMessage) :
    (handleAuthEmailMessage fromEmail message).run.All (Op.Asks (requestOf fromEmail message)) := by
  unfold handleAuthEmailMessage HandlerDependencies.handleAuthEmailMessage
  refine all_run_bind ⟨trivial, fun _ => trivial⟩ fun sendStartTime => ?_
  refine all_run_tryCatch ?_ fun thrown => asks_rescue _ _ _ _ thrown
  rw [run_bind, run_fromExcept, Prog.ret_bind]
  cases hcontent : getAuthEmailContent message with
  | error e => exact trivial
  | ok content =>
    refine all_run_bind ⟨?_, fun _ => trivial⟩ fun result => ?_
    · simp only [Op.Asks, requestOf, hcontent]
    refine all_run_bind ⟨trivial, fun _ => trivial⟩ fun now => ?_
    dsimp only
    split_ifs
    · exact ⟨trivial, fun _ => trivial⟩
    · exact trivial
    · exact ⟨trivial, fun _ => trivial⟩

/-- **A record asks for its own email only.** -/
theorem asks_eachMessage (decode : Bytes → Except Thrown AuthEmailMessage) (fromEmail : String)
    (value : Option Bytes) :
    (eachMessage decode fromEmail value).run.All (Op.Asks (emailOf decode fromEmail value)) := by
  cases value with
  | none => exact trivial
  | some bytes =>
    unfold eachMessage emailOf
    rw [run_bind, run_fromExcept, Prog.ret_bind]
    cases hdecode : decode bytes with
    | error e => exact trivial
    | ok message =>
      simp only [Option.bind_some, hdecode, Except.toOption]
      exact asks_handleAuthEmailMessage fromEmail message

end Email
