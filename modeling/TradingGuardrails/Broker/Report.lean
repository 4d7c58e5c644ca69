import TradingGuardrails.Broker.Broker

/-!
The dry run of the broker: the checks of an execution without its side effect, and a
report that authorizes a later live order when all of them passed and it was audited.
-/
namespace TradingGuardrails

open Text Interleaving

structure BrokerDryRunResult where
  intentId : Option Json
  correlationId : Option Json
  checkedAt : String
  passed : Bool
  requiresHumanApproval : Bool
  checks : List PreflightCheckResult
  authorization : Option DryRunAuthorization

def DryRunAuthorization.toJson (authorization : DryRunAuthorization) : Json :=
  .record [
    ("checkedAt", some (.str authorization.checkedAt)),
    ("token", some (.str authorization.token))]

def BrokerDryRunResult.toJson (report : BrokerDryRunResult) : Json :=
  .record [
    ("dryRun", some (.bool true)),
    ("intentId", report.intentId),
    ("correlationId", report.correlationId),
    ("checkedAt", some (.str report.checkedAt)),
    ("passed", some (.bool report.passed)),
    ("requiresHumanApproval", some (.bool report.requiresHumanApproval)),
    ("checks", some (.arr (report.checks.map PreflightCheckResult.toJson))),
    ("authorization", report.authorization.map DryRunAuthorization.toJson)]

namespace ExecutionBroker

variable {host : Host} (broker : ExecutionBroker)

abbrev Checks := List PreflightCheckResult

def report (approval : Json) (checkedAt : String) (passed : Bool) (checks : Checks) :
    BrokerDryRunResult where
  intentId := approval.field? "intentId"
  correlationId := approval.field? "correlationId"
  checkedAt := checkedAt
  passed := passed
  requiresHumanApproval := approval.field? "outcome" == some (.str "needs_human")
  checks := checks
  authorization := none

def decisionExpired : PreflightCheckResult :=
  ⟨"decision_freshness", false, some "Dry-run decision expired during broker revalidation."⟩

def auditNotWritten : PreflightCheckResult :=
  ⟨"audit", false, some "Dry-run audit could not be written."⟩

def closeChecks (host : Host) (approval : Json) (checkedAt : String) (checks : Checks) : Checks :=
  if allPassed checks && !dryRunIsFresh host (approval.field? "decidedAt") checkedAt
      broker.decisionMaxAgeMs then
    checks ++ [decisionExpired]
  else checks

def dryRunEvent (approval : Json) (intent : Option (TradingIntent host))
    (report : BrokerDryRunResult) : Json :=
  AuditEventInput.toJson {
    eventType := .brokerDryRun
    environment := broker.environment
    intentId := intent.map fun i => .str i.intentId
    principal := intent.map fun i => .str i.principal
    correlationId := approval.field? "correlationId"
    data := report.toJson }

def finishDryRun (approval : Json) (intent : Option (TradingIntent host)) :
    Script host Checks BrokerDryRunResult := do
  let checkedAt := host.toISOString (← Script.now)
  let checks := broker.closeChecks host approval checkedAt (← get)
  let report := report approval checkedAt (allPassed checks) checks
  let written ← Script.perform (.auditWrite (broker.dryRunEvent approval intent report))
  match written with
  | .error _ => pure { report with passed := false, checks := checks ++ [auditNotWritten] }
  | .ok () =>
      if report.passed then
        pure { report with
          authorization := intent.map fun i =>
            createDryRunAuthorization host broker.decisionVerificationSecret i checkedAt }
      else pure report

def push {host : Host} (check : PreflightCheckResult) : Script host Checks Unit :=
  modify fun checks => checks ++ [check]

def validDryRunDecision (approval : Json) (intent : TradingIntent host) (now : String) :
    Except Thrown Bool :=
  if approval.field? "dryRun" = some (.bool true) ∧
      approval.field? "intentId" = some (.str intent.intentId) ∧
      (approval.field? "outcome" = some (.str "allow") ∨
        approval.field? "outcome" = some (.str "needs_human")) ∧
      dryRunIsFresh host (approval.field? "decidedAt") now broker.decisionMaxAgeMs = true then
    decisionTokenMatches broker.decisionVerificationSecret approval intent
  else .ok false

def environmentMatches (intent : TradingIntent host) : Bool :=
  intent.environment == broker.environment && broker.environment != .production &&
    (broker.environment != .canaryLive || broker.canaryLiveEnabled)

def lateChecks (connector : Connector host) (intent : TradingIntent host) :
    Script host Checks Unit :=
  tryCatch
    (do
      let validation ← Routine.withLocals () (connector.revalidate intent)
      let passed ← Routine.ofExcept (member validation "passed")
      if passed = some (.bool true) then push ⟨"connector", true, none⟩
      else do
        let reason ← Routine.ofExcept
          (nonEmptyReason (property validation "reason") "Connector revalidation failed.")
        push ⟨"connector", false, some reason⟩
      let blocking ← firstBlocking intent (getKillSwitchScopes intent)
      match blocking with
      | none => push ⟨"late_kill_switch", true, none⟩
      | some _ => push ⟨"late_kill_switch", false, some "Kill switch is active."⟩)
    fun _ => push ⟨"broker_revalidation", false,
      some "Broker revalidation or kill-switch reachability failed."⟩

def dryRunChecks (connector : Connector host) (approval : Json) (intent : TradingIntent host) :
    Script host Checks Unit := do
  if !broker.environmentMatches intent then
    push ⟨"environment", false, some "Broker environment is mismatched or execution is disabled."⟩
  else do
    push ⟨"environment", true, none⟩
    let preflight ←
      if broker.environment = .canaryLive then
        runPreflight broker.capabilities broker.environment intent
          (approval.field? "correlationId")
      else pure []
    modify fun checks => checks ++ preflight
    if allPassed preflight then lateChecks connector intent

def dryRun (connector : Connector host) (approval : Json) :
    Script host Checks BrokerDryRunResult := do
  let now := host.toISOString (← Script.now)
  let intent := TradingIntent.safeParse host (approval.field? "intent")
  let valid ← match intent with
    | none => pure false
    | some intent => Routine.ofExcept (broker.validDryRunDecision approval intent now)
  match intent, valid with
  | some intent, true => do
      push ⟨"decision", true, none⟩
      broker.dryRunChecks connector approval intent
  | _, _ =>
      push ⟨"decision", false, some "A fresh, authentic dry-run decision is required."⟩
  broker.finishDryRun approval intent

end ExecutionBroker
end TradingGuardrails
