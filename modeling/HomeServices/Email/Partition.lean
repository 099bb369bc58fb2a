import HomeServices.Email.Handler
import Mathlib.Logic.Relation

/-!
# A partition of the email topic

A consumer takes the records of a partition in order: a record for which `eachMessage` throws comes again,
after one for which it returns comes the next.

* `Accepts`, `asked`: Resend accepts every email; what a run asks it for.
* `outcome`, **`runs_eachMessage`**: a record ends as its decoding does.
* `Partition`, `Deliver`, `Delivered`: deliveries; `offset_of_delivered`, `blocked`: how far they come.
* `Passes`, **`passes_iff`**: the consumer passes the log if and only if every value can be decoded.
-/

namespace Email

open Interaction
open Identity (Bytes)

/-! ## Deliveries -/

/-- Resend accepts every email it is asked to send. -/
def Accepts : (o : Op) → Resp o → Prop
  | .emailsSend _, r => ∃ id, r = .ok ⟨some id, none⟩
  | _, _ => True

theorem exists_accepts (o : Op) : ∃ r, Accepts o r := by
  cases o with
  | emailsSend _ => exact ⟨_, "", rfl⟩
  | poll => exact ⟨(none : Option Bytes), trivial⟩
  | dateNow => exact ⟨(0 : ℤ), trivial⟩
  | recordEmailSent | recordEmailFailed => exact ⟨(), trivial⟩

def Op.request : Op → Option EmailRequest
  | emailsSend request => some request
  | _ => none

/-- The emails that a run asks for. -/
def asked (es : List (Sigma Resp)) : List EmailRequest := es.filterMap fun e => e.1.request

/-- How a record ends if all emails are accepted. -/
def outcome (decode : Bytes → Except Thrown AuthEmailMessage) : Option Bytes → Except Thrown Unit
  | none => .ok ()
  | some bytes => (decode bytes).map fun _ => ()

theorem missing_payload_skipped : isRetryable "Missing email payload" = false := by decide +kernel

theorem getAuthEmailContent_error {message : AuthEmailMessage} {e : Thrown}
    (h : getAuthEmailContent message = .error e) : e = .error "Error" "Missing email payload" := by
  unfold getAuthEmailContent at h
  generalize message.payload = p at h
  rcases p with _ | payload
  · cases h
    rfl
  · cases payload <;> cases h

/-- A message without a known payload is counted and skipped. -/
theorem runs_rescue_missing {fromEmail emailType : String} {sendStartTime : ℤ} {es : List (Sigma Resp)}
    {r : Except Thrown Unit} (h : ((defaultDependencies fromEmail).rescue emailType sendStartTime
      (.error "Error" "Missing email payload")).run.Runs Accepts es r) : r = .ok () ∧ asked es = [] := by
  unfold HandlerDependencies.rescue at h
  simp only [missing_payload_skipped, Bool.false_eq_true, if_false] at h
  obtain ⟨now, _, rfl, -, _, _, rfl, -, rfl, rfl⟩ := h
  exact ⟨rfl, rfl⟩

/-- A decoded message is done with, and its email is asked for once. -/
theorem runs_handleAuthEmailMessage {fromEmail : String} {message : AuthEmailMessage}
    {es : List (Sigma Resp)} {r : Except Thrown Unit}
    (h : (handleAuthEmailMessage fromEmail message).run.Runs Accepts es r) :
    r = .ok () ∧ asked es = (requestOf fromEmail message).toList := by
  unfold handleAuthEmailMessage HandlerDependencies.handleAuthEmailMessage at h
  rw [run_bind] at h
  obtain ⟨t₀, es, rfl, -, h⟩ := h
  dsimp only [Prog.bind] at h
  rw [run_tryCatch, run_bind, run_fromExcept, Prog.ret_bind] at h
  unfold requestOf
  cases hcontent : getAuthEmailContent message with
  | error e =>
    rw [hcontent, getAuthEmailContent_error hcontent] at h
    obtain ⟨rfl, hasked⟩ := runs_rescue_missing h
    exact ⟨rfl, hasked⟩
  | ok content =>
    rw [hcontent] at h
    obtain ⟨_, es, rfl, ⟨id, rfl⟩, h⟩ := h
    obtain ⟨t₁, es, rfl, -, h⟩ := h
    obtain ⟨_, es, rfl, -, h⟩ := h
    obtain ⟨rfl, rfl⟩ := h
    exact ⟨rfl, rfl⟩

/-- **A record ends as its decoding does, and its email is asked for once.** -/
theorem runs_eachMessage {decode : Bytes → Except Thrown AuthEmailMessage} {fromEmail : String}
    {value : Option Bytes} {es : List (Sigma Resp)} {r : Except Thrown Unit}
    (h : (eachMessage decode fromEmail value).run.Runs Accepts es r) :
    r = outcome decode value ∧ asked es = (emailOf decode fromEmail value).toList := by
  cases value with
  | none =>
    obtain ⟨rfl, rfl⟩ := h
    exact ⟨rfl, rfl⟩
  | some bytes =>
    unfold eachMessage at h
    rw [run_bind, run_fromExcept, Prog.ret_bind] at h
    simp only [outcome, emailOf, Option.bind_some]
    cases hdecode : decode bytes with
    | error e =>
      rw [hdecode] at h
      obtain ⟨rfl, rfl⟩ := h
      exact ⟨rfl, rfl⟩
    | ok message =>
      rw [hdecode] at h
      exact runs_handleAuthEmailMessage h

/-! ## The partition -/

section Log

variable {decode : Bytes → Except Thrown AuthEmailMessage} {fromEmail : String} {log : List (Option Bytes)}

/-- The position of the consumer, and the emails that were sent. -/
structure Partition where
  offset : ℕ
  sent : List EmailRequest

/-- A delivery of the record at the offset: the consumer goes on if `eachMessage` returns, and the record
comes again if it throws. -/
inductive Deliver (decode : Bytes → Except Thrown AuthEmailMessage) (fromEmail : String)
    (log : List (Option Bytes)) (p : Partition) : Partition → Prop
  | returns {value : Option Bytes} {es : List (Sigma Resp)} : log[p.offset]? = some value →
      (eachMessage decode fromEmail value).run.Runs Accepts es (.ok ()) →
      Deliver decode fromEmail log p ⟨p.offset + 1, p.sent ++ asked es⟩
  | throws {value : Option Bytes} {es : List (Sigma Resp)} {e : Thrown} : log[p.offset]? = some value →
      (eachMessage decode fromEmail value).run.Runs Accepts es (.error e) →
      Deliver decode fromEmail log p ⟨p.offset, p.sent ++ asked es⟩

/-- What `n` deliveries lead to. -/
inductive Delivered (decode : Bytes → Except Thrown AuthEmailMessage) (fromEmail : String)
    (log : List (Option Bytes)) : ℕ → Partition → Prop
  | start : Delivered decode fromEmail log 0 ⟨0, []⟩
  | step {n : ℕ} {p p' : Partition} : Delivered decode fromEmail log n p → Deliver decode fromEmail log p p' →
      Delivered decode fromEmail log (n + 1) p'

/-- A delivery by how the record decodes. -/
theorem Deliver.inv {p p' : Partition} (h : Deliver decode fromEmail log p p') :
    ∃ value, log[p.offset]? = some value ∧ p'.sent = p.sent ++ (emailOf decode fromEmail value).toList ∧
      (outcome decode value = .ok () ∧ p'.offset = p.offset + 1 ∨
        (∃ e, outcome decode value = .error e) ∧ p'.offset = p.offset) := by
  cases h with
  | @returns value es hvalue hruns =>
    obtain ⟨hr, hasked⟩ := runs_eachMessage hruns
    exact ⟨value, hvalue, by rw [hasked], Or.inl ⟨hr.symm, rfl⟩⟩
  | @throws value es e hvalue hruns =>
    obtain ⟨hr, hasked⟩ := runs_eachMessage hruns
    exact ⟨value, hvalue, by rw [hasked], Or.inr ⟨⟨e, hr.symm⟩, rfl⟩⟩

/-- Where a record is left, it can be delivered. -/
theorem exists_deliver {p : Partition} (h : p.offset < log.length) :
    ∃ p', Deliver decode fromEmail log p p' := by
  obtain ⟨es, r, hruns⟩ := Prog.exists_runs exists_accepts (eachMessage decode fromEmail log[p.offset]).run
  have hvalue : log[p.offset]? = some log[p.offset] := List.getElem?_eq_getElem h
  cases r with
  | ok _ => exact ⟨_, .returns hvalue hruns⟩
  | error e => exact ⟨_, .throws hvalue hruns⟩

/-- Every value of the log can be decoded. -/
def Decodable (decode : Bytes → Except Thrown AuthEmailMessage) (log : List (Option Bytes)) : Prop :=
  ∀ bytes, some bytes ∈ log → ∃ message, decode bytes = .ok message

theorem outcome_ok (h : Decodable decode log) {value : Option Bytes} (hvalue : value ∈ log) :
    outcome decode value = .ok () := by
  cases value with
  | none => rfl
  | some bytes =>
    obtain ⟨message, hdecode⟩ := h bytes hvalue
    rw [outcome, hdecode]
    rfl

/-- If every value can be decoded, a delivery passes its record and sends its email. -/
theorem Delivered.passed (h : Decodable decode log) {n : ℕ} {p : Partition}
    (hp : Delivered decode fromEmail log n p) :
    p.offset = n ∧ p.sent = (log.take n).filterMap (emailOf decode fromEmail) := by
  induction hp with
  | start => exact ⟨rfl, rfl⟩
  | @step n p p' _ hdeliver ih =>
    obtain ⟨rfl, hsent⟩ := ih
    obtain ⟨value, hvalue, hsent', hend⟩ := hdeliver.inv
    have hmem : value ∈ log := List.mem_of_getElem? hvalue
    rcases hend with ⟨-, hoffset⟩ | ⟨⟨e, hfail⟩, -⟩
    · refine ⟨hoffset, ?_⟩
      rw [hsent', hsent, List.take_add_one, hvalue, List.filterMap_append]
      cases hemail : emailOf decode fromEmail value <;> simp [hemail]
    · rw [outcome_ok h hmem] at hfail
      cases hfail

/-- A record that cannot be decoded is never passed, and the emails after it are not sent. -/
theorem blocked {k : ℕ} {bytes : Bytes} {e : Thrown} (hvalue : log[k]? = some (some bytes))
    (hdecode : decode bytes = .error e) {n : ℕ} {p : Partition} (hp : Delivered decode fromEmail log n p) :
    p.offset ≤ k ∧ ∀ request ∈ p.sent, ∃ j < k, ∃ value, log[j]? = some value ∧
      emailOf decode fromEmail value = some request := by
  induction hp with
  | start => exact ⟨Nat.zero_le k, fun _ hmem => (List.not_mem_nil hmem).elim⟩
  | @step n p p' _ hdeliver ih =>
    obtain ⟨hle, hsent⟩ := ih
    obtain ⟨value, hvalue', hsent', hend⟩ := hdeliver.inv
    rw [hsent']
    rcases Nat.lt_or_eq_of_le hle with hlt | heq
    · refine ⟨?_, fun request hmem => ?_⟩
      · rcases hend with ⟨-, hoffset⟩ | ⟨-, hoffset⟩
        · omega
        · omega
      · rcases List.mem_append.mp hmem with hmem | hmem
        · exact hsent request hmem
        · exact ⟨p.offset, hlt, value, hvalue', Option.mem_toList.mp hmem⟩
    · -- the record itself has no email, and comes again
      obtain rfl : some bytes = value := Option.some.inj (hvalue.symm.trans (heq ▸ hvalue'))
      have hfails : outcome decode (some bytes) = .error e := by
        rw [outcome, hdecode]
        rfl
      have hnone : emailOf decode fromEmail (some bytes) = none := by
        rw [emailOf, Option.bind_some, hdecode]
        rfl
      refine ⟨?_, fun request hmem => ?_⟩
      · rcases hend with ⟨hok, -⟩ | ⟨-, hoffset⟩
        · rw [hfails] at hok
          cases hok
        · omega
      · rw [hnone, Option.toList_none, List.append_nil] at hmem
        exact hsent request hmem

/-- `eachMessage` returns for every record, deliveries go on until the log is passed, and every email of a
known kind is sent. -/
structure Passes (decode : Bytes → Except Thrown AuthEmailMessage) (fromEmail : String)
    (log : List (Option Bytes)) : Prop where
  returns : ∀ value ∈ log, ∀ es r, (eachMessage decode fromEmail value).run.Runs Accepts es r → r = .ok ()
  passes : ∀ n p, Delivered decode fromEmail log n p →
    p.offset = n ∧ (n < log.length → ∃ p', Deliver decode fromEmail log p p')
  sends : ∀ p, Delivered decode fromEmail log log.length p → ∀ bytes message, some bytes ∈ log →
    decode bytes = .ok message → message.payload ≠ none →
    ∃ request ∈ p.sent, requestOf fromEmail message = some request

/-- **The consumer passes the log if and only if every value in it can be decoded.** -/
theorem passes_iff (decode : Bytes → Except Thrown AuthEmailMessage) (fromEmail : String)
    (log : List (Option Bytes)) : Passes decode fromEmail log ↔ Decodable decode log := by
  constructor
  · intro h bytes hmem
    obtain ⟨es, r, hruns⟩ := Prog.exists_runs exists_accepts (eachMessage decode fromEmail (some bytes)).run
    have hr : outcome decode (some bytes) = .ok () :=
      (runs_eachMessage hruns).1.symm.trans (h.returns _ hmem es r hruns)
    cases hdecode : decode bytes with
    | ok message => exact ⟨message, rfl⟩
    | error e =>
      rw [outcome, hdecode] at hr
      cases hr
  · intro h
    refine ⟨fun value hmem es r hruns => ?_, fun n p hp => ?_, fun p hp bytes message hmem hdecode hknown => ?_⟩
    · rw [(runs_eachMessage hruns).1, outcome_ok h hmem]
    · obtain ⟨rfl, -⟩ := hp.passed h
      exact ⟨rfl, exists_deliver⟩
    · have hsome : requestOf fromEmail message ≠ none := mt requestOf_eq_none.mp hknown
      obtain ⟨request, hrequest⟩ := Option.ne_none_iff_exists'.mp hsome
      refine ⟨request, ?_, hrequest⟩
      rw [(hp.passed h).2, List.take_length]
      refine List.mem_filterMap.mpr ⟨_, hmem, ?_⟩
      rw [emailOf, Option.bind_some, hdecode]
      exact hrequest

end Log

/-! ## A truncated record -/

namespace Sample

/-- The generated decoder, on three values: no field, an empty verification email, a truncated string. -/
def decode (bytes : Bytes) : Except Thrown AuthEmailMessage :=
  if bytes = [] then .ok {}
  else if bytes = [0x52, 0x00] then .ok { payload := some (.emailVerification ⟨"", "", 0⟩) }
  else .error (.error "RangeError" "premature EOF")

def fromEmail : String := "noreply@ryanseipp.com"

/-- A truncated record, before one with an email. -/
def truncated : List (Option Bytes) := [some [0x0a], some [0x52, 0x00]]

/-- **A truncated record holds up the email after it for good.** -/
theorem held_up : ¬ Passes decode fromEmail truncated ∧
    (∃ request, emailOf decode fromEmail (some [0x52, 0x00]) = some request) ∧
    ∀ n p, Delivered decode fromEmail truncated n p → p.offset = 0 ∧ p.sent = [] := by
  refine ⟨fun h => ?_, ⟨_, rfl⟩, fun n p hp => ?_⟩
  · obtain ⟨message, hdecode⟩ := (passes_iff decode fromEmail truncated).mp h [0x0a] (by decide)
    cases hdecode
  · have hfirst : truncated[0]? = some (some [0x0a]) := rfl
    obtain ⟨hoffset, hsent⟩ := blocked hfirst rfl hp
    refine ⟨Nat.le_zero.mp hoffset, List.eq_nil_iff_forall_not_mem.mpr fun request hmem => ?_⟩
    obtain ⟨j, hj, -⟩ := hsent request hmem
    exact absurd hj (Nat.not_lt_zero j)

end Sample

end Email
