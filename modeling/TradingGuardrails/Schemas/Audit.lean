import TradingGuardrails.Schemas.Common

/-!
The types of audit events, and events as the programs hand them to the audit writer.
-/
namespace TradingGuardrails

open Text

inductive AuditEventType where
  | intentReceived | intentValidated | intentRejected
  | reviewerStarted | reviewerCompleted | reviewerFailed
  | policyEvaluated | policyFailed
  | riskEvaluated | riskFailed
  | decisionFinal | decisionDryRun
  | approvalRequested | approvalApproved | approvalDenied | approvalTimeout
  | allowlistUpdated
  | signerRequested | signerCompleted | signerFailed
  | brokerRevalidated | brokerPreflight | brokerDryRun | brokerExecuted | brokerFailed
  | killswitchActivated | killswitchBlocked
  deriving DecidableEq

namespace AuditEventType

def text : AuditEventType → String
  | .intentReceived => "intent.received"
  | .intentValidated => "intent.validated"
  | .intentRejected => "intent.rejected"
  | .reviewerStarted => "reviewer.started"
  | .reviewerCompleted => "reviewer.completed"
  | .reviewerFailed => "reviewer.failed"
  | .policyEvaluated => "policy.evaluated"
  | .policyFailed => "policy.failed"
  | .riskEvaluated => "risk.evaluated"
  | .riskFailed => "risk.failed"
  | .decisionFinal => "decision.final"
  | .decisionDryRun => "decision.dry_run"
  | .approvalRequested => "approval.requested"
  | .approvalApproved => "approval.approved"
  | .approvalDenied => "approval.denied"
  | .approvalTimeout => "approval.timeout"
  | .allowlistUpdated => "allowlist.updated"
  | .signerRequested => "signer.requested"
  | .signerCompleted => "signer.completed"
  | .signerFailed => "signer.failed"
  | .brokerRevalidated => "broker.revalidated"
  | .brokerPreflight => "broker.preflight"
  | .brokerDryRun => "broker.dry_run"
  | .brokerExecuted => "broker.executed"
  | .brokerFailed => "broker.failed"
  | .killswitchActivated => "killswitch.activated"
  | .killswitchBlocked => "killswitch.blocked"

def all : List AuditEventType := [
  .intentReceived, .intentValidated, .intentRejected,
  .reviewerStarted, .reviewerCompleted, .reviewerFailed,
  .policyEvaluated, .policyFailed, .riskEvaluated, .riskFailed,
  .decisionFinal, .decisionDryRun,
  .approvalRequested, .approvalApproved, .approvalDenied, .approvalTimeout,
  .allowlistUpdated, .signerRequested, .signerCompleted, .signerFailed,
  .brokerRevalidated, .brokerPreflight, .brokerDryRun, .brokerExecuted, .brokerFailed,
  .killswitchActivated, .killswitchBlocked]

def ofText? (s : String) : Option AuditEventType :=
  all.find? fun t => t.text == s

theorem ofText?_text (t : AuditEventType) : ofText? t.text = some t := by
  cases t <;> decide

end AuditEventType

/-- An event as it is passed to `AuditWriter.write`. Fields that are undefined are
absent. -/
structure AuditEventInput where
  eventId : Option String := none
  eventType : AuditEventType
  environment : Environment
  intentId : Option Json := none
  principal : Option Json := none
  correlationId : Option Json
  promptId : Option Json := none
  sessionId : Option Json := none
  inputRef : Option Json := none
  data : Json

def AuditEventInput.toJson (event : AuditEventInput) : Json :=
  .record [
    ("eventId", event.eventId.map .str),
    ("eventType", some (.str event.eventType.text)),
    ("environment", some (.str event.environment.text)),
    ("intentId", event.intentId),
    ("principal", event.principal),
    ("correlationId", event.correlationId),
    ("promptId", event.promptId),
    ("sessionId", event.sessionId),
    ("inputRef", event.inputRef),
    ("data", some event.data)]

def Plain (event : Json) : Prop := event.field? "eventId" = none

theorem plain_toJson {event : AuditEventInput} (h : event.eventId = none) :
    Plain event.toJson := by
  simp [Plain, AuditEventInput.toJson, h]

end TradingGuardrails
