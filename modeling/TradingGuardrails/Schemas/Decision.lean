import TradingGuardrails.Host
import TradingGuardrails.Schemas.Common

/-!
The answers from which the guardrail service builds a decision: the verdict of the
reviewer, the result of the risk checks and the output of the policy.
-/
namespace TradingGuardrails

open Text Check

namespace DecisionSchema

variable (host : Host)

def riskTier : Check := oneOf ["low", "medium", "high", "critical"]

def detectedIssue : Check := oneOf [
  "prompt_injection", "unsupported_claim", "evidence_action_mismatch",
  "suspicious_tool_behavior", "hallucinated_data", "excessive_risk"]

def reviewerVerdict : Check := strict [
  required "intentId" (string host.isUuid),
  required "verdict" (oneOf ["approve", "reject", "needs_human"]),
  required "riskLevel" riskTier,
  required "reasons" (array nonEmpty fun n => 1 ≤ n),
  required "detectedIssues" (array detectedIssue fun _ => true),
  required "requiredPolicyTags" (array nonEmpty fun _ => true),
  required "reviewerModel" nonEmpty,
  required "reviewerProvider" nonEmpty,
  required "reviewedAt" (string host.isDatetime)]

def riskCheckResult : Check := strict [
  required "check" nonEmpty,
  required "status" (oneOf ["pass", "fail", "unavailable"]),
  optional "value" any,
  optional "threshold" any,
  optional "message" text]

def dailyRiskStats : Check := strict [
  required "account" nonEmpty,
  required "date" nonEmpty,
  required "totalNotionalUsd" nonnegative,
  required "realizedLossUsd" nonnegative,
  required "orderCount" (number fun q => isInt q && decide (0 ≤ q))]

def elements (v : Json) (key : String) : List Json :=
  match v.field? key with
  | some (.arr xs) => xs
  | _ => []

def everyCheckPasses (riskResult : Json) : Bool :=
  (elements riskResult "checks").all fun check => check.field? "status" == some (.str "pass")

def dynamicRiskResult : Check := fun v =>
  strict [
    required "intentId" (string host.isUuid),
    required "passed" boolean,
    required "checks" (array riskCheckResult fun n => 1 ≤ n),
    optional "dailyStats" dailyRiskStats,
    required "evaluatedAt" (string host.isDatetime)] v &&
  v.field? "passed" == some (.bool (everyCheckPasses v))

def policyDenyReason : Check := strict [
  required "rule" nonEmpty,
  required "message" nonEmpty]

def outcomeOf (policyOutput : Json) : Outcome :=
  (Outcome.ofText? (textField policyOutput "decision")).getD .deny

def requiresHumanApproval (policyOutput : Json) : Bool :=
  policyOutput.field? "requiresHumanApproval" == some (.bool true)

def policyRefinements (v : Json) : Bool :=
  match outcomeOf v with
  | .allow => !requiresHumanApproval v && !(elements v "reasons").isEmpty
  | .deny => !requiresHumanApproval v
  | .needsHuman => requiresHumanApproval v && !(elements v "reasons").isEmpty

def policyOutput : Check := fun v =>
  strict [
    required "decision" (oneOf (Outcome.all.map Outcome.text)),
    required "reasons" (array policyDenyReason fun _ => true),
    required "requiresHumanApproval" boolean,
    required "matchedAllowRules" (array text fun _ => true),
    required "matchedDenyRules" (array text fun _ => true),
    required "evaluatedAt" (string host.isDatetime)] v &&
  policyRefinements v

end DecisionSchema

def parseWith (check : Check) (value : Option Json) : Except Thrown Json :=
  match value with
  | some v => if check v then .ok v else .error (.ofMessage "ZodError")
  | none => .error (.ofMessage "ZodError")

theorem parseWith_ok {check : Check} {value : Option Json} {v : Json}
    (h : parseWith check value = .ok v) : value = some v ∧ check v = true := by
  unfold parseWith at h
  split at h
  · split_ifs at h with hcheck
    cases h
    exact ⟨rfl, hcheck⟩
  · cases h

end TradingGuardrails
