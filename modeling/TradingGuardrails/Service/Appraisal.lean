import TradingGuardrails.Interleaving.Machine
import TradingGuardrails.Service.Service

/-!
The contract of `evaluate`. An appraisal remembers what a call was answered and how far
it has come with its idempotency scope; the contract says at which stage the call may ask
what, and what a decision that it stores or returns was based on. Every call obeys it.
-/
namespace TradingGuardrails

open Text Interleaving

/-- How far an evaluation has come with its scope. A dry run stays at the beginning. -/
inductive AppraisalStage where
  | before
  | missed
  | conflicted
  | awaiting (promise : Nat)
  | replaying (decision : GuardrailDecision)
  | rejected
  | holding
  | concluded (decision : GuardrailDecision)
  | abandoned

/-- The stages at which a call may fail: it holds no scope, or it has given its scope up. -/
def AppraisalStage.gaveUp : AppraisalStage → Bool
  | .before | .conflicted | .replaying _ | .rejected | .abandoned => true
  | .missed | .awaiting _ | .holding | .concluded _ => false

structure Appraisal where
  service : GuardrailService
  rawIntent : Option Json
  options : EvaluationOptions
  generated : Option String := none
  startedAt : Option Instant := none
  healthy : Option Reply := none
  reviewed : Option Reply := none
  assessed : Option Reply := none
  stats : Option (String × String × Option DailyStats) := none
  policy : Option (Json × Reply) := none
  created : Option ApprovalRequest := none
  /-- Whether the approval store failed to delete a request. -/
  undeleted : Bool := false
  stage : AppraisalStage := .before

namespace Appraisal

variable (host : Host)

def evaluation (s : Appraisal) : Option (Evaluation host) :=
  match TradingIntent.safeParse host s.rawIntent, s.options.correlationId.or s.generated,
      s.startedAt with
  | some intent, some correlationId, some startedAt => some {
      intent := intent
      options := s.options
      correlationId := correlationId
      now := host.toISOString startedAt
      scope := idempotencyScope intent
      payloadHash := stableJson host (s.rawIntent.getD .null) }
  | _, _, _ => none

variable {host}

def stageAfter (s : Appraisal) : (op : Op host) → Ans host op → AppraisalStage
  | .lookup _ _, .absent => .missed
  | .lookup _ _, .conflict => .conflicted
  | .lookup _ _, .complete decision => .replaying decision
  | .lookup _ _, .pending promise => .awaiting promise
  | .pendingDecision _, .ok decision => .replaying decision
  | .pendingDecision _, .error _ => .rejected
  | .reserve _ _, _ => .holding
  | .set _ _ decision, _ => .concluded decision
  | .abortDecision _ _ _, _ => .abandoned
  | _, _ => s.stage

def next (s : Appraisal) (op : Op host) (a : Ans host op) : Appraisal where
  service := s.service
  rawIntent := s.rawIntent
  options := s.options
  generated := match op, a with
    | .correlationId, id => some id
    | _, _ => s.generated
  startedAt := match op, a with
    | .now, t => s.startedAt.or (some t)
    | _, _ => s.startedAt
  healthy := match op, a with
    | .isHealthy, reply => some reply
    | _, _ => s.healthy
  reviewed := match op, a with
    | .review _, reply => some reply
    | _, _ => s.reviewed
  assessed := match op, a with
    | .evaluateRisk _ _, reply => some reply
    | _, _ => s.assessed
  stats := match op, a with
    | .getDailyStats account date, .ok stats => some (account, date, stats)
    | _, _ => s.stats
  policy := match op, a with
    | .evaluatePolicy input, reply => some (input, reply)
    | _, _ => s.policy
  created := match op, a with
    | .approvalCreate _, .ok request => some request
    | .approvalDelete _, .ok () => none
    | _, _ => s.created
  undeleted := match op, a with
    | .approvalDelete _, .error _ => true
    | _, _ => s.undeleted
  stage := s.stageAfter op a

/-- Whether the call may ask the reviewer, the risk engine and the policy. -/
def Working (s : Appraisal) : Prop :=
  s.stage = .holding ∨ (s.stage = .before ∧ s.options.dryRun = true)

def RiskAnswer (s : Appraisal) (e : Evaluation host) (verdict : Json) (riskResult : Option Json) :
    Prop :=
  match s.service.risk with
  | .anything => s.assessed = some (.ok riskResult)
  | .engine riskEngine => ∃ today facts nowMs evaluatedAt,
      (e.intent.action = .placeOrder → ∃ stats,
        s.stats = some (e.intent.account, today, stats) ∧
        facts.dailyStats = RiskEngine.dailyStatsFor e.intent today stats) ∧
      riskResult = some (RiskEngine.riskResult host e.intent.intentId
        (riskEngine.checks e.intent facts nowMs verdict) facts.dailyStats evaluatedAt)

structure Assessed (s : Appraisal) (e : Evaluation host) (a : Assessment) : Prop where
  admitted : s.service.intentRefusal e.intent = none
  clean : detectUnsafeContent e.intent = none
  healthy : ∃ v, s.healthy = some (.ok v) ∧ truthy v = true
  reviewed : ∃ reply, s.reviewed = some reply ∧
    accepted (DecisionSchema.reviewerVerdict host) reply = some a.reviewerVerdict
  risk : DecisionSchema.dynamicRiskResult host a.riskResult = true ∧
    a.riskResult.field? "passed" = some (.bool true)
  riskAnswer : s.RiskAnswer e a.reviewerVerdict (some a.riskResult)
  policy : ∃ raw now,
    s.policy = some (e.policyInput a.reviewerVerdict a.riskResult, .ok raw) ∧
    transformOpaOutput host raw now = .ok a.policyOutput

def Concluded (s : Appraisal) (e : Evaluation host) (decision : GuardrailDecision) : Prop :=
  (∃ reasons reviewerVerdict riskResult, decision = s.service.signed e.intent
    { e.deny reasons with reviewerVerdict, riskResult } e.correlationId e.options.dryRun) ∨
  ∃ a approvalId, s.Assessed e a ∧ decision = s.service.signed e.intent
      { GuardrailService.policyDecision e a with approvalId } e.correlationId
      e.options.dryRun ∧
    if DecisionSchema.outcomeOf a.policyOutput = .needsHuman ∧ e.options.dryRun = false then
      ∃ request, s.created = some request ∧ approvalId = some request.approvalId
    else approvalId = none

def allowed (s : Appraisal) : Op host → Prop
  | .correlationId => s.stage = .before
  | .now => s.stage = .before ∨ s.stage = .holding
  | .auditWrite event => Plain event
  | .lookup scope payloadHash => s.stage = .before ∧ s.options.dryRun = false ∧
      ∃ e, s.evaluation host = some e ∧ e.scope = scope ∧ e.payloadHash = payloadHash ∧
        s.service.intentRefusal e.intent = none
  | .reserve scope payloadHash => s.stage = .missed ∧ s.options.dryRun = false ∧
      ∃ e, s.evaluation host = some e ∧ e.scope = scope ∧ e.payloadHash = payloadHash
  | .pendingDecision promise => s.stage = .awaiting promise
  | .isHealthy => s.Working
  | .review _ => s.Working
  | .evaluateRisk _ _ => s.Working
  | .evaluatePolicy _ => s.Working
  | .getDailyStats account _ => s.Working ∧ ∃ e, s.evaluation host = some e ∧
      e.intent.account = account
  | .getMarketData _ => s.Working
  | .getPortfolio _ => s.Working
  | .getLastOrderTimestampMs _ => s.Working
  | .approvalCreate params => s.stage = .holding ∧ s.created = none ∧
      ∃ e a, s.evaluation host = some e ∧ s.Assessed e a ∧
        params = GuardrailService.approvalParams e (GuardrailService.policyDecision e a)
  | .approvalDelete approvalId => s.stage = .holding ∧
      ∃ request, s.created = some request ∧ request.approvalId = approvalId
  | .set scope payloadHash decision => s.stage = .holding ∧
      ∃ e, s.evaluation host = some e ∧ e.scope = scope ∧ e.payloadHash = payloadHash ∧
        s.Concluded e decision
  | .abortDecision scope payloadHash _ => (s.stage = .holding ∨ s.stage = .abandoned) ∧
      ∃ e, s.evaluation host = some e ∧ e.scope = scope ∧ e.payloadHash = payloadHash
  | _ => False

/-- The approval request of the call is gone, unless the store failed to delete it. -/
def Cleared (s : Appraisal) : Prop :=
  s.undeleted = false → s.created = none

def final (host : Host) (s : Appraisal) : Except Thrown GuardrailDecision → Prop
  | .error _ => s.stage.gaveUp = true ∧ s.Cleared
  | .ok decision => match s.stage with
    | .before => (decision.outcome = .deny ∧ decision.decisionToken = none) ∨
        s.options.dryRun = true ∧ ∃ e : Evaluation host, s.evaluation host = some e ∧
          s.Concluded e decision
    | .conflicted => ∃ e : Evaluation host, s.evaluation host = some e ∧
        decision = s.service.signed e.intent
          (e.deny [reason "idempotency_conflict" "Idempotency key reused with different payload."])
          e.correlationId false
    | .replaying stored => ∃ e : Evaluation host, s.evaluation host = some e ∧
        decision = s.service.signed e.intent stored
          (if stored.outcome = .needsHuman then stored.correlationId else e.correlationId) false
    | .concluded stored => decision = stored
    | _ => False

abbrev contract (host : Host) : Contract (Op host) (Ans host) where
  State := Appraisal
  next := next
  allowed := allowed

@[simp] theorem next_stage (s : Appraisal) (op : Op host) (a : Ans host op) :
    (s.next op a).stage = s.stageAfter op a := rfl

theorem inert_auditWrite (s : Appraisal) {event : Json} (h : Plain event) :
    (contract host).Inert s (.auditWrite event) :=
  ⟨h, fun _ => rfl⟩

theorem evaluation_some {s : Appraisal} {e : Evaluation host} (h : s.evaluation host = some e) :
    ∃ startedAt correlationId, s.startedAt = some startedAt ∧
      s.options.correlationId.or s.generated = some correlationId ∧
      TradingIntent.safeParse host s.rawIntent = some e.intent ∧
      e.options = s.options ∧ e.correlationId = correlationId ∧
      e.now = host.toISOString startedAt ∧ e.scope = idempotencyScope e.intent ∧
      e.payloadHash = stableJson host (s.rawIntent.getD .null) := by
  unfold evaluation at h
  split at h
  · rename_i hparse hcorrelation hstart
    cases h
    exact ⟨_, _, hstart, hcorrelation, hparse, rfl, rfl, rfl, rfl, rfl⟩
  · cases h

/-- A call that has started keeps its evaluation, whatever it is answered. -/
theorem evaluation_next {s : Appraisal} {e : Evaluation host} (h : s.evaluation host = some e)
    (op : Op host) (hop : op ≠ .correlationId) (a : Ans host op) :
    (s.next op a).evaluation host = some e := by
  obtain ⟨startedAt, correlationId, hstart, -⟩ := evaluation_some h
  have hnext : (s.next op a).startedAt = s.startedAt := by
    cases op <;> simp [next, hstart]
  have hgenerated : (s.next op a).generated = s.generated := by
    cases op <;> first | rfl | exact absurd rfl hop
  unfold evaluation at h ⊢
  rw [hnext, hgenerated]
  exact h

end Appraisal
end TradingGuardrails
