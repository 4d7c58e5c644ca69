import TradingGuardrails.Broker.Preflight

/-!
The execution broker. `execute` checks an approved decision, reserves the idempotency
key of its intent, gates it on human approval, kill switch and revalidation, hands it to
the connector and records the result together with its terminal audit event. `dryRun`
runs the checks alone and authorizes a later live order. Approvals are whatever the
caller passes: their fields are read as they come.
-/
namespace TradingGuardrails

open Text Interleaving

structure BrokerConfig where
  environment : Environment
  canaryLiveEnabled : Bool
  decisionVerificationSecret : String
  decisionMaxAgeMs : Option ℚ
  capabilities : PreflightCapabilities

def assertDecisionSecret (environment : Environment) (secret : String) : Bool :=
  !secret.isEmpty &&
    !(environment != .dev && secret == "dev-decision-secret") &&
    !(environment != .dev && secret.length < 32)

structure ExecutionBroker extends BrokerConfig where
  secretAccepted : assertDecisionSecret environment decisionVerificationSecret = true
  maxAgeAccepted : ∀ maxAge ∈ decisionMaxAgeMs, 0 < maxAge

/-- What the broker does with a venue. The callback is to be run before any side effect. -/
structure Connector (host : Host) where
  revalidate : TradingIntent host → Script host Unit (Option Json)
  execute : TradingIntent host → Script host Unit Unit → Script host Unit (Option Json)

variable {host : Host}

def opaqueConnector : Connector host where
  revalidate intent := do Routine.ofExcept (← Script.perform (.revalidate intent))
  execute intent _ := do Routine.ofExcept (← Script.perform (.connectorResult intent))

def decisionTokenMessage (host : Host) (intent : Json)
    (outcome correlationId decidedAt approvalId : Option Json) (dryRun : Bool) : String :=
  stableJson host (.record [
    ("intent", some intent),
    ("outcome", outcome),
    ("correlationId", correlationId),
    ("decidedAt", decidedAt),
    ("approvalId", some (approvalId.getD .null)),
    ("dryRun", if dryRun then some (.bool true) else none)])

def approvalTokenMessage (approval : Json) (intent : TradingIntent host) : String :=
  decisionTokenMessage host intent.value (approval.field? "outcome")
    (approval.field? "correlationId") (approval.field? "decidedAt")
    (approval.field? "approvalId") (truthy (approval.field? "dryRun"))

def decisionTokenMatches (secret : String) (approval : Json) (intent : TradingIntent host) :
    Except Thrown Bool :=
  let token := approval.field? "decisionToken"
  if !isHexDigestAnyCase (valueString token) then .ok false
  else timingSafeEqualHex token (host.hmacSha256 secret (approvalTokenMessage approval intent))

def defaultDecisionAgeMs : ℚ := 48 * 60 * 60 * 1000

def decisionIsStale (host : Host) (decisionMaxAgeMs : Option ℚ) (decidedAt : Option Json)
    (now : String) : Bool :=
  match host.newDate decidedAt with
  | none => true
  | some decidedAtMs => match host.dateParse now with
    | none => false
    | some nowMs => decide (decidedAtMs > nowMs + 60000) ||
        decide (((nowMs - decidedAtMs : ℤ) : ℚ) > decisionMaxAgeMs.getD defaultDecisionAgeMs)

structure Subject where
  intentId : Option Json
  idempotencyKey : Json
  principal : Json

def subjectOf (intent : TradingIntent host) : Subject :=
  ⟨some (.str intent.intentId), .str intent.idempotencyKey, .str intent.principal⟩

def fallbackSubject (approval : Json) : Subject :=
  ⟨approval.field? "intentId", .str "invalid-approval-intent", .str "unknown"⟩

def reasonText (value fallback : String) : String :=
  redactSecrets (if (trim value).isEmpty then fallback else trim value)

def nonEmptyReason (value : Option Json) (fallback : String) : Except Thrown String :=
  match value with
  | none => .ok (redactSecrets fallback)
  | some .null => .ok (redactSecrets fallback)
  | some (.str s) => .ok (reasonText s fallback)
  | some _ => .error (.error .typeError "value?.trim is not a function")

def rejectedResult (subject : Subject) (now reason : String) : Json :=
  .record [
    ("intentId", subject.intentId),
    ("idempotencyKey", some subject.idempotencyKey),
    ("status", some (.str "rejected")),
    ("revalidationPassed", some (.bool false)),
    ("rejectionReason", some (.str reason)),
    ("executedAt", some (.str now))]

def failedResult (intent : TradingIntent host) (revalidationPassed : Bool)
    (reason now : String) : Json :=
  .record [
    ("intentId", some (.str intent.intentId)),
    ("idempotencyKey", some (.str intent.idempotencyKey)),
    ("status", some (.str "failed")),
    ("revalidationPassed", some (.bool revalidationPassed)),
    ("rejectionReason", some (.str reason)),
    ("executedAt", some (.str now))]

def terminalEvent (environment : Environment) (intent : TradingIntent host)
    (correlationId : Option Json) (eventType : AuditEventType) (data : Json) : Json :=
  AuditEventInput.toJson {
    eventId := some (terminalAuditEventId host intent (valueString correlationId) eventType)
    eventType := eventType
    environment := environment
    intentId := some (.str intent.intentId)
    principal := some (.str intent.principal)
    correlationId := correlationId
    data := data }

def intentEvent (environment : Environment) (subject : Subject) (correlationId : Option Json)
    (eventType : AuditEventType) (data : Json) : Json :=
  AuditEventInput.toJson {
    eventType := eventType
    environment := environment
    intentId := subject.intentId
    principal := some subject.principal
    correlationId := correlationId
    data := data }

def scopeJson : KillSwitchScope → Json
  | .global => .record [("type", some (.str "global"))]
  | .agent principal =>
      .record [("type", some (.str "agent")), ("principal", some (.str principal))]
  | .account account =>
      .record [("type", some (.str "account")), ("account", some (.str account))]
  | .exchange exchange =>
      .record [("type", some (.str "exchange")), ("exchange", some (.str exchange))]
  | .chain chain => .record [("type", some (.str "chain")), ("chain", some (.str chain))]

def member (value : Option Json) (key : String) : Except Thrown (Option Json) :=
  match value with
  | none => .error (.error .typeError
      ("Cannot read properties of undefined (reading '" ++ key ++ "')"))
  | some .null => .error (.error .typeError
      ("Cannot read properties of null (reading '" ++ key ++ "')"))
  | some v => .ok (v.field? key)

def evidenceMismatch (message : String) : Except Thrown Unit :=
  .error (.ofMessage message)

def assertOrderStatusEvidence (intent : TradingIntent host) (evidence : Json) :
    Except Thrown Unit :=
  let orderId := evidence.field? "orderId"
  let orderStatus := evidence.field? "orderStatus"
  if truthy orderId && orderId != some (.str intent.orderId) then
    evidenceMismatch "Connector execution evidence orderId does not match intent."
  else if !truthy orderStatus then
    evidenceMismatch "Connector order status evidence is missing."
  else if property orderStatus "orderId" != some (.str intent.orderId) then
    evidenceMismatch "Connector order status orderId does not match intent."
  else if property orderStatus "symbol" != some (.str intent.symbol) then
    evidenceMismatch "Connector order status symbol does not match intent."
  else .ok ()

def assertOrderEvidence (intent : TradingIntent host) (evidence : Json) : Except Thrown Unit :=
  let orderId := evidence.field? "orderId"
  let orderStatus := evidence.field? "orderStatus"
  if !truthy orderStatus then .ok ()
  else if property orderStatus "symbol" != some (.str intent.symbol) then
    evidenceMismatch "Connector order status symbol does not match intent."
  else match property orderStatus "side" with
    | some (.str side) =>
        if lowerCase side != intent.side.toList then
          evidenceMismatch "Connector order status side does not match intent."
        else if truthy orderId && property orderStatus "orderId" != orderId then
          evidenceMismatch "Connector order status orderId does not match execution evidence."
        else .ok ()
    | _ => .error (.error .typeError "side.toLowerCase is not a function")

def assertExecutionEvidenceMatchesIntent (intent : TradingIntent host) (evidence : Json) :
    Except Thrown Unit :=
  match intent.action with
  | .cancelOrder =>
      if evidence.field? "orderId" != some (.str intent.orderId) then
        evidenceMismatch "Connector execution evidence orderId does not match intent."
      else .ok ()
  | .getOrderStatus => assertOrderStatusEvidence intent evidence
  | .placeOrder => assertOrderEvidence intent evidence
  | .simulateTransaction | .requestSignature => .ok ()

def evidenceFields (evidence : Json) : List (String × Option Json) := [
  ("orderId", evidence.field? "orderId"),
  ("transactionHash", evidence.field? "transactionHash"),
  ("orderStatus", evidence.field? "orderStatus"),
  ("reconciliation", evidence.field? "reconciliation"),
  ("simulationEvidence", evidence.field? "simulationEvidence")]

def executedRecord (intent : TradingIntent host) (evidence : Json) (now : String) : Json :=
  .record ([
    ("intentId", some (.str intent.intentId)),
    ("idempotencyKey", some (.str intent.idempotencyKey)),
    ("status", some (.str "executed")),
    ("executionKind", some (.str (executionKindForIntent intent)))] ++
    evidenceFields evidence ++ [
    ("revalidationPassed", some (.bool true)),
    ("executedAt", some (.str now))])

def executedResult (intent : TradingIntent host) (evidence : Option Json) (now : String) :
    Except Thrown Json := do
  let _ ← member evidence (if intent.action = .placeOrder then "orderStatus" else "orderId")
  let evidence := evidence.getD .null
  assertExecutionEvidenceMatchesIntent intent evidence
  let result := executedRecord intent evidence now
  if BrokerSchema.brokerExecutionResult host result then pure result
  else throw (.ofMessage "Broker execution result is invalid.")

/-- What an execution leaves behind: its result, and the event that is written before the
result is released. -/
structure Record where
  result : Json
  event : Json

structure Flags where
  reservationCompleted : Bool := false
  terminalPersistenceStarted : Bool := false

variable (broker : ExecutionBroker)

/-- One decision to be executed: what the caller passed, the parsed intent and the time at
which the call started. -/
structure Request (host : Host) where
  approval : Json
  dryRunAuthorization : Option Json
  intent : TradingIntent host
  now : String

namespace Request

def correlationId (request : Request host) : Option Json :=
  request.approval.field? "correlationId"

def outcome (request : Request host) : Option Json := request.approval.field? "outcome"

def approvalId (request : Request host) : Option Json := request.approval.field? "approvalId"

def handle (request : Request host) : Handle :=
  handleFor host request.intent.idempotencyKey request.intent

def dryRunCheckedAt (request : Request host) : Option Json :=
  property request.dryRunAuthorization "checkedAt"

end Request

namespace ExecutionBroker

def canaryOrder (intent : TradingIntent host) : Bool :=
  broker.environment == .canaryLive && intent.action == .placeOrder

def reject {σ : Type} (subject : Subject) (now : String) (correlationId : Option Json)
    (rule message : String) : Script host σ Json := do
  let rejectionReason := reasonText message "Broker rejected execution."
  Script.auditWrite (intentEvent broker.environment subject correlationId .brokerFailed
    (.record [("rule", some (.str rule)), ("message", some (.str rejectionReason))]))
  pure (rejectedResult subject now rejectionReason)

def rejectRequest {σ : Type} (request : Request host) (rule message : String) :
    Script host σ Json :=
  broker.reject (subjectOf request.intent) request.now request.correlationId rule message

def decisionRefusal (request : Request host) : Except Thrown (Option (String × String)) := do
  let approval := request.approval
  if approval.hasField "dryRun" then
    return some ("dry_run_only", "A dry-run decision cannot execute.")
  if request.outcome ≠ some (.str "allow") ∧ request.outcome ≠ some (.str "needs_human") then
    return some ("broker_rejected", "Only approved decisions can be executed.")
  let matching ← decisionTokenMatches broker.decisionVerificationSecret approval request.intent
  if !matching then
    return some ("decision_token_invalid", "Guardrail decision token is invalid.")
  if decisionIsStale host broker.decisionMaxAgeMs (approval.field? "decidedAt") request.now then
    return some ("decision_stale", "Guardrail decision is stale.")
  if broker.environment = .production then
    return some ("production_not_supported", "Production execution is not yet supported.")
  if request.intent.environment ≠ broker.environment then
    return some ("environment_mismatch",
      "Intent environment does not match broker environment.")
  if approval.field? "intentId" ≠ some (.str request.intent.intentId) then
    return some ("approval_mismatch",
      "Approved decision does not match the execution intent.")
  if broker.environment = .canaryLive ∧ !broker.canaryLiveEnabled then
    return some ("canary_live_disabled", "Canary-live execution is not enabled.")
  return none

def approvalMatchesIntent (request : ApprovalRequest) (intent : TradingIntent host)
    (correlationId : Option Json) : Bool :=
  request.intentId == intent.intentId && request.principal == intent.principal &&
    request.action == intent.action.text && request.resource == intent.resource &&
    request.environment == intent.environment &&
    (correlationId == none || correlationId == some (.str request.correlationId)) &&
    stableJson host request.intentData == stableJson host intent.value

def findApprovalForIntent (requests : List ApprovalRequest) (intent : TradingIntent host) :
    Option ApprovalRequest :=
  requests.find? fun request => approvalMatchesIntent request intent none

def finish (handle : Handle) (result : Json) : Script host Flags Json := do
  Routine.ofExcept (← Script.perform (.complete handle result none))
  modify fun flags => { flags with reservationCompleted := true }
  pure result

def abortReservation (handle : Handle) (error : Thrown) : Script host Flags Unit := do
  Routine.ofExcept (← Script.perform (.abort handle error))

def rejectAndAbort (request : Request host) (handle : Handle) (rule message : String) :
    Script host Flags (Option Json) := do
  let result ← broker.rejectRequest request rule message
  abortReservation handle (.ofMessage (textField result "rejectionReason"))
  modify fun flags => { flags with reservationCompleted := true }
  pure (some result)

def rejectAndFinish (request : Request host) (handle : Handle) (rule message : String) :
    Script host Flags (Option Json) := do
  let result ← broker.rejectRequest request rule message
  some <$> finish handle result

/-- Free the key before an exception leaves, unless it was closed already. -/
def abortAndRethrow {α : Type} (handle : Handle) (error : Thrown) : Script host Flags α := do
  let flags ← get
  if !flags.reservationCompleted && !flags.terminalPersistenceStarted then
    abortReservation handle error
  throw error

/-- The human approval that a decision carries. Nothing means that it may go on. -/
def approvalGate (request : Request host) (handle : Handle) (approvalId : String) :
    Script host Flags (Option Json) := do
  let approvedRequest ← Script.approvalGet approvalId
  match approvedRequest with
  | none =>
      broker.rejectAndAbort request handle "approval_missing"
        "Human approval is required before execution."
  | some approved =>
      if approved.state = .consumed then
        broker.rejectAndFinish request handle "approval_consumed"
          "Human approval has already been used."
      else if approved.state ≠ .approved then
        broker.rejectAndAbort request handle "approval_missing"
          "Human approval is required before execution."
      else
        let now ← Script.now
        if (host.dateParse approved.timeoutAt).any fun timeoutMs => timeoutMs < now.ms then
          broker.rejectAndFinish request handle "approval_expired"
            "Human approval has expired."
        else if approved.approvalType ≠ .oneTime ∨
            !approvalMatchesIntent approved request.intent request.correlationId then
          broker.rejectAndFinish request handle "approval_mismatch"
            "Human approval does not match the execution intent."
        else pure none

def admission (request : Request host) (handle : Handle) : Script host Flags (Option Json) := do
  let matching ←
    if broker.canaryOrder request.intent then
      Routine.ofExcept (dryRunAuthorizationMatches host request.dryRunAuthorization
        broker.decisionVerificationSecret request.intent request.now broker.decisionMaxAgeMs)
    else pure true
  if !matching then
    broker.rejectAndAbort request handle "dry_run_required"
      "A fresh successful dry-run report is required for this live order."
  else match request.approvalId with
    | some (.str approvalId) => broker.approvalGate request handle approvalId
    | _ => pure none

def killSwitchGate (request : Request host) (handle : Handle) :
    Script host Flags (Option Json) := do
  let blocking ← firstBlocking request.intent (getKillSwitchScopes request.intent)
  match blocking with
  | none => pure none
  | some scope => do
      Script.auditWrite (intentEvent broker.environment (subjectOf request.intent)
        request.correlationId .killswitchBlocked (.record [("scope", some (scopeJson scope))]))
      broker.rejectAndFinish request handle "killswitch_active" "Kill switch is active."

def redactedReason (reason : Option Json) : Except Thrown (Option Json) :=
  if !truthy reason then .ok none
  else match reason with
    | some (.str s) => .ok (some (.str (redactSecrets s)))
    | _ => .error (.error .typeError "text.replace is not a function")

def revalidationGate (connector : Connector host) (request : Request host) (handle : Handle) :
    Script host Flags (Option Json) := do
  let revalidation ← Routine.withLocals () (connector.revalidate request.intent)
  let passed ← Routine.ofExcept (member revalidation "passed")
  let reason := property revalidation "reason"
  let redacted ← Routine.ofExcept (redactedReason reason)
  let event := intentEvent broker.environment (subjectOf request.intent) request.correlationId
  Script.auditWrite
    (event .brokerRevalidated (.record [("passed", passed), ("reason", redacted)]))
  if truthy passed then pure none
  else do
    let reason ← Routine.ofExcept (nonEmptyReason reason "Broker-side revalidation failed.")
    Script.auditWrite (event .brokerFailed (.record [("reason", some (.str reason))]))
    broker.rejectAndFinish request handle "revalidation_failed" reason

def freshnessGate (request : Request host) (handle : Handle) :
    Script host Flags (Option Json) := do
  if broker.canaryOrder request.intent then
    let now ← Script.now
    if dryRunIsFresh host (orEmpty request.dryRunCheckedAt) (host.toISOString now)
        broker.decisionMaxAgeMs then
      pure none
    else
      broker.rejectAndAbort request handle "dry_run_expired"
        "Dry-run report expired during broker revalidation."
  else pure none

def consumptionGate (request : Request host) (handle : Handle) :
    Script host Flags (Option Json) :=
  match request.approvalId with
  | some (.str approvalId) => do
      let consumed ← Script.consumeOneTime approvalId
      match consumed with
      | some _ => pure none
      | none =>
          broker.rejectAndFinish request handle "approval_consumed"
            "Human approval has already been used."
  | _ => pure none

def gates : List (Script host Flags (Option Json)) → Script host Flags (Option Json)
  | [] => pure none
  | gate :: rest => do
      let rejection ← gate
      match rejection with
      | some result => pure (some result)
      | none => gates rest

def assertKillSwitchAllowsExecution {σ : Type} (intent : TradingIntent host)
    (correlationId : Option Json) : Script host σ Unit := do
  let blocking ← tryCatch (firstBlocking intent (getKillSwitchScopes intent))
    fun _ => throw (.error .connectorRevalidation "Kill switch is not reachable.")
  match blocking with
  | none => pure ()
  | some scope => do
      Script.auditWrite (intentEvent broker.environment (subjectOf intent) correlationId
        .killswitchBlocked (.record [("scope", some (scopeJson scope))]))
      throw (.error .connectorRevalidation "Kill switch is active.")

def beforeSideEffect {σ : Type} (request : Request host) : Script host σ Unit := do
  broker.assertKillSwitchAllowsExecution request.intent request.correlationId
  if broker.canaryOrder request.intent then
    let now ← Script.now
    if !dryRunIsFresh host (orEmpty request.dryRunCheckedAt) (host.toISOString now)
        broker.decisionMaxAgeMs then
      throw (.error .connectorRevalidation "Dry-run report expired before submission.")

def failedExecution (request : Request host) (error : Thrown) (executionError : String) :
    Record :=
  let reason := if error.isConnectorRevalidation then "Connector revalidation failed."
    else "Execution failed."
  ⟨failedResult request.intent (!error.isConnectorRevalidation) reason request.now,
    terminalEvent broker.environment request.intent request.correlationId .brokerFailed
      (.record [
        ("status", some (.str "failed")),
        ("rejectionReason", some (.str reason)),
        ("error", some (.str (redactSecrets executionError)))])⟩

def failedEvidence (request : Request host) (evidenceError : String) : Record :=
  let reason := "Execution evidence validation failed."
  ⟨failedResult request.intent true reason request.now,
    terminalEvent broker.environment request.intent request.correlationId .brokerFailed
      (.record [
        ("status", some (.str "failed")),
        ("rejectionReason", some (.str reason)),
        ("reason", some (.str reason)),
        ("error", some (.str (redactSecrets evidenceError)))])⟩

def succeeded (request : Request host) (result evidence : Json) : Record :=
  ⟨result,
    terminalEvent broker.environment request.intent request.correlationId .brokerExecuted
      (.record (("status", some (.str "executed")) :: evidenceFields evidence))⟩

/-- What is recorded of the answer of a connector. An error that has no text throws. -/
def recordOf (request : Request host) : Reply → Except Thrown Record
  | .error error => do pure (broker.failedExecution request error (← error.string))
  | .ok evidence => match executedResult request.intent evidence request.now with
    | .error error => do pure (broker.failedEvidence request (← error.string))
    | .ok result => pure (broker.succeeded request result (evidence.getD .null))

/-- Record the result with its event, write the event, and only then release the result. -/
def finishExecutionWithAudit (handle : Handle) (record : Record) : Script host Flags Json := do
  modify fun flags => { flags with terminalPersistenceStarted := true }
  let completion ← Script.perform (.complete handle record.result (some record.event))
  modify fun flags => { flags with reservationCompleted := true }
  let written ← Script.perform (.auditWrite record.event)
  match written with
  | .error error => do
      Script.perform (.failAudit handle error)
      throw error
  | .ok () => do
      Routine.ofExcept completion
      Routine.ofExcept (← Script.perform (.completeAudit handle))
      pure record.result

def submit (connector : Connector host) (request : Request host) (handle : Handle) :
    Script host Flags Json := do
  Script.perform (.enterConnector request.intent)
  let reply ← tryCatch
    (Except.ok <$> Routine.withLocals ()
      (connector.execute request.intent (broker.beforeSideEffect request)))
    fun error => pure (Except.error error)
  let record ← Routine.ofExcept (broker.recordOf request reply)
  finishExecutionWithAudit handle record

def executeReserved (connector : Connector host) (request : Request host) (handle : Handle) :
    Script host Flags Json := do
  let refused ← tryCatch (broker.admission request handle) (abortAndRethrow handle)
  match refused with
  | some result => pure result
  | none =>
      tryCatch
        (do
          let rejection ← gates [
            broker.killSwitchGate request handle,
            broker.revalidationGate connector request handle,
            broker.killSwitchGate request handle,
            broker.freshnessGate request handle,
            broker.consumptionGate request handle]
          match rejection with
          | some result => pure result
          | none => broker.submit connector request handle)
        (abortAndRethrow handle)

def flushPendingTerminalAudit {σ : Type} (handle : Handle) (pendingAudit : Option Json) :
    Script host σ Unit :=
  match pendingAudit with
  | none => pure ()
  | some event => do
      Script.auditWrite event
      Routine.ofExcept (← Script.perform (.cachedCompleteAudit handle))

def executeOnce (connector : Connector host) (request : Request host) :
    Script host Flags Json := do
  let handle := request.handle
  let reservation ← Script.perform (.begin request.intent.idempotencyKey request.intent)
  match reservation with
  | .error error => match error.conflictMessage with
    | some message => broker.rejectRequest request "idempotency_conflict" message
    | none => throw error
  | .ok (.cached result pendingAudit) => do
      flushPendingTerminalAudit handle pendingAudit
      pure result
  | .ok (.pending promise) => do
      Routine.ofExcept (← Script.perform (.pendingResult promise))
  | .ok .reserved => broker.executeReserved connector request handle

def approvalMissing (request : Request host) (requests : List ApprovalRequest) : Bool :=
  if request.approval.hasField "approvalId" then !requiredString request.approvalId
  else request.outcome == some (.str "needs_human") ||
    (findApprovalForIntent requests request.intent).isSome

def executeRequest (connector : Connector host) (request : Request host) :
    Script host Flags Json := do
  let refusal ← Routine.ofExcept (broker.decisionRefusal request)
  match refusal with
  | some (rule, message) => broker.rejectRequest request rule message
  | none =>
      let ready ←
        if broker.environment = .canaryLive then
          allPassed <$> runPreflight broker.capabilities broker.environment request.intent
            request.correlationId
        else pure true
      if !ready then
        broker.rejectRequest request "live_preflight_failed" "Live-mode preflight failed."
      else
        let requests ← Script.approvalList
        if approvalMissing request requests then
          broker.rejectRequest request "approval_missing"
            "Human approval is required before execution."
        else broker.executeOnce connector request

def execute (connector : Connector host) (approval : Json) (dryRunAuthorization : Option Json) :
    Script host Flags Json := do
  let now ← Script.now
  match TradingIntent.safeParse host (approval.field? "intent") with
  | none =>
      broker.reject (fallbackSubject approval) (host.toISOString now)
        (approval.field? "correlationId") "schema_validation" "Approval intent is malformed."
  | some intent =>
      broker.executeRequest connector
        ⟨approval, dryRunAuthorization, intent, host.toISOString now⟩

end ExecutionBroker
end TradingGuardrails
