import TradingGuardrails.Broker.Broker
import TradingGuardrails.Risk.Engine
import TradingGuardrails.Service.Content
import TradingGuardrails.Service.OpaTransform

/-!
The guardrail service. `evaluate` turns a raw intent into a decision: it checks the intent
by itself, looks its idempotency scope up, asks policy health, reviewer, risk engine and
policy in turn, asks for human approval where the policy wants it, signs the decision and
audits it. Whatever fails on the way denies the intent.
-/
namespace TradingGuardrails

open Text Interleaving

structure GuardrailConfig where
  environment : Environment
  decisionSigningSecret : String

/-- The risk engine that a service was given: one of which only its answers are known, or
the one of this repository. -/
inductive RiskSource where
  | anything
  | engine (riskEngine : RiskEngine)

structure GuardrailService extends GuardrailConfig where
  secretAccepted : assertDecisionSecret environment decisionSigningSecret = true
  risk : RiskSource

structure EvaluationOptions where
  promptId : Option String := none
  sessionId : Option String := none
  inputRef : Option String := none
  correlationId : Option String := none
  dryRun : Bool := false

def RiskSource.evaluate {host : Host} {σ : Type} (intent : TradingIntent host) (verdict : Json) :
    RiskSource → Script host σ (Option Json)
  | .anything => do Routine.ofExcept (← Script.perform (.evaluateRisk intent verdict))
  | .engine riskEngine => riskEngine.evaluate intent verdict

def GuardrailDecision.toJson (decision : GuardrailDecision) : Json :=
  .record [
    ("intentId", some (.str decision.intentId)),
    ("correlationId", some (.str decision.correlationId)),
    ("outcome", some (.str decision.outcome.text)),
    ("reasons", some (.arr decision.reasons)),
    ("requiresHumanApproval", some (.bool decision.requiresHumanApproval)),
    ("approvalId", decision.approvalId.map .str),
    ("reviewerVerdict", some (decision.reviewerVerdict.getD .null)),
    ("policyOutput", some (decision.policyOutput.getD .null)),
    ("riskResult", some (decision.riskResult.getD .null)),
    ("decidedAt", some (.str decision.decidedAt)),
    ("decisionToken", decision.decisionToken.map .str),
    ("dryRun", if decision.dryRun then some (.bool true) else none)]

/-- One evaluation after its intent was accepted: the time and the correlation id of the
call, its options, and the key under which its decision is remembered. -/
structure Evaluation (host : Host) where
  intent : TradingIntent host
  options : EvaluationOptions
  correlationId : String
  now : String
  scope : String
  payloadHash : String

structure Assessment where
  reviewerVerdict : Json
  riskResult : Json
  policyOutput : Json

def denial (intentId correlationId : String) (reasons : List Json) (now : String) :
    GuardrailDecision where
  intentId := intentId
  correlationId := correlationId
  outcome := .deny
  reasons := reasons
  requiresHumanApproval := false
  decidedAt := now

/-- The value of a promise, or nothing when it was rejected or fails its check. -/
def accepted (check : Check) : Except Thrown (Option Json) → Option Json
  | .ok value => (parseWith check value).toOption
  | .error _ => none

def dryRunMember (options : EvaluationOptions) : List (String × Option Json) :=
  [("dryRun", if options.dryRun then some (.bool true) else none)]

variable {host : Host}

def evaluationEvent (environment : Environment) (options : EvaluationOptions)
    (correlationId : String) (intent : Option (TradingIntent host)) (inputRef : Option String)
    (eventType : AuditEventType) (data : Json) : Json :=
  AuditEventInput.toJson {
    eventType := eventType
    environment := environment
    intentId := intent.map fun i => .str i.intentId
    principal := intent.map fun i => .str i.principal
    correlationId := some (.str correlationId)
    promptId := options.promptId.map .str
    sessionId := options.sessionId.map .str
    inputRef := inputRef.map .str
    data := redactObject data }

def hashString (host : Host) (value : String) : String :=
  host.hmacSha256 "audit-token-fingerprint" value

namespace Evaluation

variable (evaluation : Evaluation host)

def deny (reasons : List Json) : GuardrailDecision :=
  denial evaluation.intent.intentId evaluation.correlationId reasons evaluation.now

def writeAudit {σ : Type} (eventType : AuditEventType) (data : List (String × Option Json)) :
    Script host σ Unit :=
  Script.auditWrite (evaluationEvent evaluation.intent.environment evaluation.options
    evaluation.correlationId (some evaluation.intent) evaluation.options.inputRef eventType
    (.record (data ++ dryRunMember evaluation.options)))

def riskReasons (riskResult : Json) : List Json :=
  ((DecisionSchema.elements riskResult "checks").filter fun check =>
    check.field? "status" != some (.str "pass")).map fun check =>
      let name := textField check "check"
      reason ("risk_" ++ name) (match check.field? "message" with
        | some (.str message) => message
        | _ => "Risk check " ++ name ++ " failed.")

def dailyStat (riskResult : Json) (key : String) : Option Json :=
  property (riskResult.field? "dailyStats") key

def projectedDailyNotionalUsd (riskResult : Json) : Option Json :=
  if evaluation.intent.action ≠ .placeOrder ∨ !evaluation.intent.has "maxNotionalUsd" then none
  else match dailyStat riskResult "totalNotionalUsd" with
    | some (.num total) =>
        some ((Number.rounded (total.double + evaluation.intent.maxNotionalUsd)).toJson host)
    | _ => none

def policyInput (verdict riskResult : Json) : Json :=
  let intent := evaluation.intent
  .record ([
    ("intentId", some (.str intent.intentId)),
    ("principal", some (.str intent.principal)),
    ("action", some (.str intent.action.text)),
    ("resource", some (.str ((canonicalResource intent).getD intent.resource))),
    ("environment", some (.str intent.environment.text)),
    ("reviewerVerdict", verdict.field? "verdict"),
    ("reviewerRiskLevel", verdict.field? "riskLevel"),
    ("reviewerDetectedIssues", verdict.field? "detectedIssues"),
    ("dailyNotionalUsd", dailyStat riskResult "totalNotionalUsd"),
    ("projectedDailyNotionalUsd", evaluation.projectedDailyNotionalUsd riskResult),
    ("dailyRealizedLossUsd", dailyStat riskResult "realizedLossUsd"),
    ("exchange", intent.value.field? "exchange"),
    ("accountMode", intent.value.field? "accountMode"),
    ("marginType", intent.value.field? "marginType"),
    ("symbol", intent.value.field? "symbol"),
    ("chain", intent.value.field? "chain"),
    ("chainEnvironment", intent.value.field? "chainEnvironment"),
    ("contractAddress",
      if intent.chain = "ethereum" then intent.value.field? "to" else none),
    ("programId", (intent.value.field? "programId").filter fun v => truthy (some v)),
    ("instructionType", (extractSolanaInstructionType intent).map .str),
    ("maxNotionalUsd", intent.value.field? "maxNotionalUsd"),
    ("leverage", intent.value.field? "leverage"),
    ("maxTokenApprovalAmount", intent.value.field? "maxTokenApprovalAmount")] ++
    (tokenApprovalFacts intent).members)

end Evaluation

namespace GuardrailService

variable (service : GuardrailService)

def createDecisionToken (intent : TradingIntent host) (decision : GuardrailDecision)
    (correlationId : String) (dryRun : Bool) : Option String :=
  if decision.outcome = .deny then none
  else some (host.hmacSha256 service.decisionSigningSecret
    (decisionTokenMessage host intent.value (some (.str decision.outcome.text))
      (some (.str correlationId)) (some (.str decision.decidedAt))
      (decision.approvalId.map .str) dryRun))

def signed (intent : TradingIntent host) (decision : GuardrailDecision) (correlationId : String)
    (dryRun : Bool) : GuardrailDecision :=
  { decision with
    correlationId := correlationId
    decisionToken := service.createDecisionToken intent decision correlationId dryRun
    dryRun := decision.dryRun || dryRun }

def fingerprinted (host : Host) (decision : GuardrailDecision) : GuardrailDecision :=
  { decision with
    decisionToken := decision.decisionToken.map fun token =>
      "[sha256:" ++ hashString host token ++ "]" }

def decisionData (decision audited : GuardrailDecision) : Json :=
  .record [
    ("outcome", some (.str decision.outcome.text)),
    ("reasons", some (.arr decision.reasons)),
    ("requiresHumanApproval", some (.bool decision.requiresHumanApproval)),
    ("decision", some audited.toJson)]

def decisionEventType (options : EvaluationOptions) : AuditEventType :=
  if options.dryRun then .decisionDryRun else .decisionFinal

def finalizeInvalidDecision (options : EvaluationOptions) (decision : GuardrailDecision) :
    Script host Unit GuardrailDecision := do
  let audited := { decision with dryRun := decision.dryRun || options.dryRun }
  Script.auditWrite (evaluationEvent service.environment options decision.correlationId
    (none : Option (TradingIntent host)) options.inputRef (decisionEventType options)
    (decisionData decision audited))
  pure audited

def finalizeDecision (evaluation : Evaluation host) (decision : GuardrailDecision)
    (correlationId : String) : Script host Unit GuardrailDecision := do
  let final :=
    service.signed evaluation.intent decision correlationId evaluation.options.dryRun
  Script.auditWrite (evaluationEvent evaluation.intent.environment evaluation.options
    correlationId (some evaluation.intent) evaluation.options.inputRef
    (decisionEventType evaluation.options) (decisionData final (fingerprinted host final)))
  pure final

def remember (evaluation : Evaluation host) (decision : GuardrailDecision) :
    Script host Unit GuardrailDecision := do
  if !evaluation.options.dryRun then
    Script.perform (.set evaluation.scope evaluation.payloadHash decision)
  pure decision

def conclude (evaluation : Evaluation host) (decision : GuardrailDecision) :
    Script host Unit GuardrailDecision := do
  let final ← service.finalizeDecision evaluation decision decision.correlationId
  remember evaluation final

def abandon (evaluation : Evaluation host) (error : Thrown) : Script host Unit Unit :=
  if evaluation.options.dryRun then pure ()
  else Script.perform (.abortDecision evaluation.scope evaluation.payloadHash error)

def abandonAndRethrow (evaluation : Evaluation host) (error : Thrown) :
    Script host Unit GuardrailDecision := do
  abandon evaluation error
  throw error

def approvalParams (evaluation : Evaluation host) (decision : GuardrailDecision) :
    ApprovalParams where
  intentId := evaluation.intent.intentId
  correlationId := decision.correlationId
  principal := evaluation.intent.principal
  action := evaluation.intent.action.text
  resource := evaluation.intent.resource
  environment := evaluation.intent.environment
  escalationReason := match decision.reasons.head?.bind (Json.field? "message") with
    | some (.str message) => message
    | _ => "Policy requires human approval."
  approvalType := .oneTime
  intentData := evaluation.intent.value

def approvalRequestJson (request : ApprovalRequest) : Json :=
  .record [
    ("approvalId", some (.str request.approvalId)),
    ("intentId", some (.str request.intentId)),
    ("correlationId", some (.str request.correlationId)),
    ("principal", some (.str request.principal)),
    ("action", some (.str request.action)),
    ("resource", some (.str request.resource)),
    ("environment", some (.str request.environment.text)),
    ("escalationReason", some (.str request.escalationReason)),
    ("approvalType", some (.str request.approvalType.text)),
    ("intentData", some request.intentData),
    ("state", some (.str request.state.text)),
    ("createdAt", some (.str request.createdAt)),
    ("decidedAt", some ((request.decidedAt.map .str).getD .null)),
    ("decidedBy", some ((request.decidedBy.map .str).getD .null)),
    ("timeoutAt", some (.str request.timeoutAt))]

def requestHumanApproval (evaluation : Evaluation host) (decision : GuardrailDecision) :
    Script host Unit GuardrailDecision := do
  let request ← Script.approvalCreate (approvalParams evaluation decision)
  tryCatch
    (Script.auditWrite (evaluationEvent evaluation.intent.environment evaluation.options
      decision.correlationId (some evaluation.intent) evaluation.options.inputRef .approvalRequested
      (.record [("approvalRequest", some (approvalRequestJson request))])))
    fun error => do
      Script.approvalDelete request.approvalId
      throw error
  pure { decision with approvalId := some request.approvalId }

def policyHealthy : Script host Unit Bool := do
  match ← Script.perform .isHealthy with
  | .ok healthy => pure (truthy healthy)
  | .error _ => pure false

def reviewStage (evaluation : Evaluation host) :
    Script host Unit (Except GuardrailDecision Json) := do
  let reply ← Script.perform (.review evaluation.intent)
  match accepted (DecisionSchema.reviewerVerdict host) reply with
  | none => pure (.error (evaluation.deny
      [reason "reviewer_unavailable" "Reviewer agent is unavailable."]))
  | some verdict => do
      evaluation.writeAudit .reviewerCompleted [("reviewerVerdict", some verdict)]
      pure (.ok verdict)

def riskStage (evaluation : Evaluation host) (verdict : Json) :
    Script host Unit (Except GuardrailDecision Json) := do
  let reply ← tryCatch (Except.ok <$> service.risk.evaluate evaluation.intent verdict)
    fun error => pure (Except.error error)
  match accepted (DecisionSchema.dynamicRiskResult host) reply with
  | none => pure (.error { evaluation.deny
      [reason "risk_check_unavailable" "Required risk facts are unavailable."] with
        reviewerVerdict := some verdict })
  | some riskResult => do
      evaluation.writeAudit .riskEvaluated [
        ("riskResult", some riskResult),
        ("riskChecks", riskResult.field? "checks")]
      if riskResult.field? "passed" = some (.bool true) then pure (.ok riskResult)
      else pure (.error { evaluation.deny (Evaluation.riskReasons riskResult) with
        reviewerVerdict := some verdict, riskResult := some riskResult })

def policyStage (evaluation : Evaluation host) (verdict riskResult : Json) :
    Script host Unit (Except GuardrailDecision Assessment) := do
  let input := evaluation.policyInput verdict riskResult
  let reply ← Script.perform (.evaluatePolicy input)
  let output ← match reply with
    | .error _ => pure none
    | .ok raw => do
        let now ← Script.now
        pure (transformOpaOutput host raw now).toOption
  match output with
  | none => pure (.error { evaluation.deny
      [reason "policy_evaluation_failed" "Policy evaluation failed."] with
        reviewerVerdict := some verdict, riskResult := some riskResult })
  | some policyOutput => do
      evaluation.writeAudit .policyEvaluated [
        ("policyInput", some input),
        ("opaInput", some input),
        ("policyOutput", some policyOutput)]
      pure (.ok ⟨verdict, riskResult, policyOutput⟩)

def assess (evaluation : Evaluation host) :
    Script host Unit (Except GuardrailDecision Assessment) := do
  match detectUnsafeContent evaluation.intent with
  | some rejection => pure (.error (evaluation.deny [rejection]))
  | none => do
      if !(← policyHealthy) then
        pure (.error (evaluation.deny
          [reason "opa_unavailable" "Policy engine is unavailable."]))
      else do
        match ← reviewStage evaluation with
        | .error decision => pure (.error decision)
        | .ok verdict => do
            match ← service.riskStage evaluation verdict with
            | .error decision => pure (.error decision)
            | .ok riskResult => policyStage evaluation verdict riskResult

def policyDecision (evaluation : Evaluation host) (assessment : Assessment) :
    GuardrailDecision where
  intentId := evaluation.intent.intentId
  correlationId := evaluation.correlationId
  outcome := DecisionSchema.outcomeOf assessment.policyOutput
  reasons := DecisionSchema.elements assessment.policyOutput "reasons"
  requiresHumanApproval := DecisionSchema.requiresHumanApproval assessment.policyOutput
  reviewerVerdict := some assessment.reviewerVerdict
  policyOutput := some assessment.policyOutput
  riskResult := some assessment.riskResult
  decidedAt := evaluation.now

def withdraw (evaluation : Evaluation host) (decision : GuardrailDecision) (error : Thrown) :
    Script host Unit GuardrailDecision := do
  match decision.approvalId with
  | some approvalId => Script.approvalDelete approvalId
  | none => pure ()
  abandonAndRethrow evaluation error

def concludePolicy (evaluation : Evaluation host) (assessment : Assessment) :
    Script host Unit GuardrailDecision := do
  let decision := policyDecision evaluation assessment
  let decision ←
    if decision.outcome = .needsHuman ∧ !evaluation.options.dryRun then
      requestHumanApproval evaluation decision
    else pure decision
  let final ← tryCatch
    (service.finalizeDecision evaluation decision decision.correlationId)
    (withdraw evaluation decision)
  remember evaluation final

def evaluateReserved (evaluation : Evaluation host) : Script host Unit GuardrailDecision :=
  tryCatch
    (do
      match ← service.assess evaluation with
      | .error decision => service.conclude evaluation decision
      | .ok assessment => service.concludePolicy evaluation assessment)
    (abandonAndRethrow evaluation)

/-- Give the decision of another call, signed again for this one. A decision that waits
for a human keeps the correlation id of its approval request. -/
def replay (evaluation : Evaluation host) (decision : GuardrailDecision) :
    Script host Unit GuardrailDecision :=
  service.finalizeDecision evaluation decision
    (if decision.outcome = .needsHuman then decision.correlationId
      else evaluation.correlationId)

def evaluateOnce (evaluation : Evaluation host) : Script host Unit GuardrailDecision := do
  if evaluation.options.dryRun then service.evaluateReserved evaluation
  else do
    match ← Script.perform (.lookup evaluation.scope evaluation.payloadHash) with
    | .conflict =>
        service.finalizeDecision evaluation
          (evaluation.deny [reason "idempotency_conflict"
            "Idempotency key reused with different payload."])
          evaluation.correlationId
    | .complete decision => service.replay evaluation decision
    | .pending promise => do
        let decision ← Routine.ofExcept (← Script.perform (.pendingDecision promise))
        service.replay evaluation decision
    | .absent => do
        Script.perform (.reserve evaluation.scope evaluation.payloadHash)
        service.evaluateReserved evaluation

def intentRefusal (intent : TradingIntent host) : Option (String × String) :=
  if !resourceMatches intent then
    some ("resource_mismatch", "Intent resource does not match intent fields.")
  else if intent.environment ≠ service.environment then
    some ("environment_mismatch",
      "Intent environment does not match guardrail service environment.")
  else none

def receivedEvent (evaluation : Evaluation host) : Json :=
  evaluationEvent evaluation.intent.environment evaluation.options evaluation.correlationId
    (some evaluation.intent) (evaluation.options.inputRef.or evaluation.intent.evidence.head?)
    .intentReceived (.record ([
      ("intent", some evaluation.intent.value),
      ("correlationId", some (.str evaluation.correlationId))] ++
      dryRunMember evaluation.options))

def evaluate (rawIntent : Option Json) (options : EvaluationOptions) :
    Script host Unit GuardrailDecision := do
  let correlationId ← match options.correlationId with
    | some correlationId => pure correlationId
    | none => Script.perform .correlationId
  let now := host.toISOString (← Script.now)
  match TradingIntent.safeParse host rawIntent with
  | none =>
      service.finalizeInvalidDecision options (denial "" correlationId
        ((host.intentIssues rawIntent).map (reason "schema_validation")) now)
  | some intent => match service.intentRefusal intent with
    | some (rule, message) =>
        service.finalizeInvalidDecision options
          (denial intent.intentId correlationId [reason rule message] now)
    | none => do
        let evaluation : Evaluation host :=
          { intent, options, correlationId, now
            scope := idempotencyScope intent
            payloadHash := stableJson host (rawIntent.getD .null) }
        Script.auditWrite (receivedEvent evaluation)
        service.evaluateOnce evaluation

end GuardrailService
end TradingGuardrails
