import TradingGuardrails.Service.Service
import TradingGuardrails.Signer.Request

/-!
The HTTP client that agents evaluate their intents with. It believes an answer only if it
reads a decision about the intent that it asked for, and it reads every decision that the
service can give.
-/
namespace TradingGuardrails

open Text
open Signer (isCorrelationId)

namespace Agents

variable {host : Host}

/-- The value of a nullable schema: nothing when the value does not fit. -/
def readNullableSchema (check : Check) : Option Json → Option (Option Json)
  | some .null => some none
  | some v => if check v then some (some v) else none
  | none => none

def readReason (item : Json) : Option Json := do
  let rule ← textValue? (item.field? "rule")
  let message ← textValue? (item.field? "message")
  pure (reason rule message)

def bringsToken (outcome : Outcome) (decisionToken approvalId : Option String)
    (requiresHumanApproval : Bool) : Bool :=
  match outcome with
  | .deny => true
  | .allow => decisionToken.any isHexDigest && !requiresHumanApproval
  | .needsHuman => decisionToken.any isHexDigest && approvalId.any (!·.isEmpty) &&
      requiresHumanApproval

def booleanValue? : Option Json → Option Bool
  | some (.bool b) => some b
  | _ => none

def arrayValue? : Option Json → Option (List Json)
  | some (.arr xs) => some xs
  | _ => none

variable (host) in
def readGuardrailDecision (value : Json) : Option GuardrailDecision := do
  guard (!value.hasField "dryRun")
  let intentId ← textValue? (value.field? "intentId")
  let correlationId ← textValue? (value.field? "correlationId")
  let outcome ← (textValue? (value.field? "outcome")).bind Outcome.ofText?
  let items ← arrayValue? (value.field? "reasons")
  let requiresHumanApproval ← booleanValue? (value.field? "requiresHumanApproval")
  let decidedAt ← textValue? (value.field? "decidedAt")
  guard (isCorrelationId correlationId && (host.dateParse decidedAt).isSome)
  let decisionToken := textValue? (value.field? "decisionToken")
  let approvalId := textValue? (value.field? "approvalId")
  guard (bringsToken outcome decisionToken approvalId requiresHumanApproval)
  let reasons ← items.mapM readReason
  let reviewerVerdict ←
    readNullableSchema (DecisionSchema.reviewerVerdict host) (value.field? "reviewerVerdict")
  let policyOutput ←
    readNullableSchema (DecisionSchema.policyOutput host) (value.field? "policyOutput")
  let riskResult ←
    readNullableSchema (DecisionSchema.dynamicRiskResult host) (value.field? "riskResult")
  pure { intentId, correlationId, outcome, reasons, requiresHumanApproval, approvalId,
         reviewerVerdict, policyOutput, riskResult, decidedAt, decisionToken }

structure Deliverable (host : Host) (decision : GuardrailDecision) : Prop where
  notDryRun : decision.dryRun = false
  correlated : isCorrelationId decision.correlationId = true
  dated : (host.dateParse decision.decidedAt).isSome = true
  brings : bringsToken decision.outcome decision.decisionToken decision.approvalId
    decision.requiresHumanApproval = true
  reasons : ∀ item ∈ decision.reasons, (readReason item).isSome = true
  reviewerVerdict : ∀ v, decision.reviewerVerdict = some v →
    DecisionSchema.reviewerVerdict host v = true
  policyOutput : ∀ v, decision.policyOutput = some v → DecisionSchema.policyOutput host v = true
  riskResult : ∀ v, decision.riskResult = some v → DecisionSchema.dynamicRiskResult host v = true

theorem readReason_read {item read : Json} (h : readReason item = some read) :
    readReason read = some read := by
  simp only [readReason, Option.bind_eq_bind, Option.bind_eq_some_iff] at h
  obtain ⟨rule, -, message, -, hread⟩ := h
  cases hread
  rfl

theorem readNullableSchema_getD {check : Check} (hnull : check .null = false) {value : Option Json}
    (h : ∀ v, value = some v → check v = true) :
    readNullableSchema check (some (value.getD .null)) = some value := by
  cases value with
  | none => rfl
  | some v =>
      have hv := h v rfl
      cases v with
      | null => cases hnull.symm.trans hv
      | _ => simp only [Option.getD_some, readNullableSchema, hv, if_true]

theorem readNullableSchema_some {check : Check} {value : Option Json} {read : Option Json}
    (h : readNullableSchema check value = some read) : ∀ v, read = some v → check v = true := by
  rintro v rfl
  unfold readNullableSchema at h
  split at h
  · cases h
  · split_ifs at h with hcheck
    cases h
    exact hcheck
  · cases h

theorem mapM_readReason {items : List Json} (h : ∀ item ∈ items, (readReason item).isSome = true) :
    items.mapM readReason = some (items.filterMap readReason) := by
  induction items with
  | nil => rfl
  | cons item items ih =>
      obtain ⟨read, hread⟩ := Option.isSome_iff_exists.mp (h item List.mem_cons_self)
      rw [List.mapM_cons, hread, ih fun other hother => h other (List.mem_cons_of_mem _ hother),
        List.filterMap_cons, hread]
      rfl

theorem mem_of_mapM {items reads : List Json} (h : items.mapM readReason = some reads) {read : Json}
    (hread : read ∈ reads) : ∃ item ∈ items, readReason item = some read := by
  induction items generalizing reads with
  | nil =>
      cases h
      cases hread
  | cons item items ih =>
      simp only [List.mapM_cons, Option.bind_eq_bind, Option.bind_eq_some_iff] at h
      obtain ⟨first, hfirst, rest, hrest, hreads⟩ := h
      cases hreads
      rcases List.mem_cons.mp hread with rfl | hmem
      · exact ⟨item, List.mem_cons_self, hfirst⟩
      · obtain ⟨other, hother, hsame⟩ := ih hrest hmem
        exact ⟨other, List.mem_cons_of_mem _ hother, hsame⟩

/-- The client reads what the service sends. -/
theorem read_toJson {decision : GuardrailDecision} (h : Deliverable host decision) :
    readGuardrailDecision host decision.toJson =
      some { decision with reasons := decision.reasons.filterMap readReason } := by
  obtain ⟨intentId, correlationId, outcome, reasons, requiresHumanApproval, approvalId,
    reviewerVerdict, policyOutput, riskResult, decidedAt, decisionToken, dryRun⟩ := decision
  obtain ⟨rfl, hcorrelated, hdated, hbrings, hreasons, hverdict, hpolicy, hrisk⟩ := h
  dsimp only at hcorrelated hdated hbrings hreasons hverdict hpolicy hrisk
  have htext : ∀ s, textValue? (some (.str s)) = some s := fun _ => rfl
  have houtcome : Outcome.ofText? outcome.text = some outcome := by cases outcome <;> decide
  have hid : textValue? (approvalId.map Json.str) = approvalId := by cases approvalId <;> rfl
  have htoken : textValue? (decisionToken.map Json.str) = decisionToken := by
    cases decisionToken <;> rfl
  have hverdict := @readNullableSchema_getD (DecisionSchema.reviewerVerdict host) rfl _ hverdict
  have hpolicy := @readNullableSchema_getD (DecisionSchema.policyOutput host) rfl _ hpolicy
  have hrisk := @readNullableSchema_getD (DecisionSchema.dynamicRiskResult host) rfl _ hrisk
  simp only [readGuardrailDecision, GuardrailDecision.toJson, Json.hasField,
    Json.field?_record_cons, Json.field?_record_nil, String.reduceEq, if_true, if_false,
    Option.some_or, Option.or_none, Option.isSome_none, Bool.not_false, guard, htext,
    arrayValue?, booleanValue?, Option.bind_some, Option.bind_eq_bind, Option.pure_def, houtcome,
    hid, htoken, hverdict, hpolicy, hrisk, hcorrelated, hdated, hbrings, Bool.and_true,
    mapM_readReason hreasons, Bool.false_eq_true]

theorem guard_some {c : Bool} {u : Unit} (h : (guard (c = true) : Option Unit) = some u) :
    c = true := by
  by_contra hc
  rw [guard, if_neg hc] at h
  cases h

/-- What the client accepts is a decision that the service could have sent. -/
theorem deliverable_of_read {value : Json} {decision : GuardrailDecision}
    (h : readGuardrailDecision host value = some decision) : Deliverable host decision := by
  simp only [readGuardrailDecision, Option.bind_eq_bind, Option.bind_eq_some_iff] at h
  obtain ⟨_, -, intentId, -, correlationId, -, outcome, -, items, -, human, -, decidedAt, -,
    _, hchecked, _, hbrings, reasons, hreasons, verdict, hverdict, policyOutput, hpolicy,
    riskResult, hrisk, hdecision⟩ := h
  have hchecked := guard_some hchecked
  rw [Bool.and_eq_true] at hchecked
  cases hdecision
  refine ⟨rfl, hchecked.1, hchecked.2, guard_some hbrings, fun item hitem => ?_,
    readNullableSchema_some hverdict, readNullableSchema_some hpolicy,
    readNullableSchema_some hrisk⟩
  obtain ⟨source, -, hread⟩ := mem_of_mapM hreasons hitem
  rw [readReason_read hread]
  rfl

inductive EvaluateHttpErrorCode where
  | httpError
  | networkError
  | timeout
  | invalidResponse
  | interrupted
  deriving DecidableEq

def EvaluateHttpErrorCode.text : EvaluateHttpErrorCode → String
  | .httpError => "http_error"
  | .networkError => "network_error"
  | .timeout => "timeout"
  | .invalidResponse => "invalid_response"
  | .interrupted => "interrupted"

structure EvaluateHttpFailure where
  error : EvaluateHttpErrorCode
  message : String
  correlationId : String
  deriving DecidableEq

/-- Which of the two signals of a request were raised: the caller's, or any. -/
structure Signals where
  interrupted : Bool := false
  aborted : Bool := false

inductive Body where
  | json (value : Json)
  | unreadable (signals : Signals)

inductive Exchange where
  | failed (signals : Signals)
  | response (status : Nat) (correlationHeader : Option String) (body : Body)

def requestFailure (signals : Signals) (correlationId : String) : EvaluateHttpFailure :=
  if signals.interrupted then
    ⟨.interrupted, "Guardrail evaluate request was interrupted.", correlationId⟩
  else if signals.aborted then
    ⟨.timeout, "Guardrail evaluate request timed out.", correlationId⟩
  else ⟨.networkError, "Guardrail evaluate request failed.", correlationId⟩

def invalidResponse (correlationId : String) : EvaluateHttpFailure :=
  ⟨.invalidResponse, "Guardrail evaluate response is not a guardrail decision.", correlationId⟩

def evaluate (intent : TradingIntent host) (correlationId : String) (interrupted : Bool)
    (exchange : Exchange) : Except EvaluateHttpFailure GuardrailDecision :=
  if interrupted then
    .error ⟨.interrupted, "Guardrail evaluate request was interrupted.", correlationId⟩
  else match exchange with
  | .failed signals => .error (requestFailure signals correlationId)
  | .response status correlationHeader body =>
      let responseCorrelationId := (correlationHeader.filter isCorrelationId).getD correlationId
      if status < 200 ∨ 299 < status then
        .error ⟨.httpError,
          "Guardrail evaluate request failed with HTTP " ++ toString status ++ ".",
          responseCorrelationId⟩
      else match body with
      | .unreadable signals =>
          if signals.interrupted || signals.aborted then
            .error (requestFailure signals correlationId)
          else .error (invalidResponse responseCorrelationId)
      | .json value => match readGuardrailDecision host value with
          | none => .error (invalidResponse responseCorrelationId)
          | some decision =>
              if decision.intentId ≠ intent.intentId then
                .error (invalidResponse responseCorrelationId)
              else .ok decision

/-- A decision that the client gives on is about the intent, and the service could have
sent it. -/
theorem evaluate_ok {intent : TradingIntent host} {correlationId : String} {interrupted : Bool}
    {exchange : Exchange} {decision : GuardrailDecision}
    (h : evaluate intent correlationId interrupted exchange = .ok decision) :
    decision.intentId = intent.intentId ∧ Deliverable host decision := by
  unfold evaluate at h
  split_ifs at h
  split at h
  · cases h
  · dsimp only at h
    split_ifs at h
    split at h
    · split_ifs at h
    · split at h
      · cases h
      · next read hread =>
          split_ifs at h with hid
          cases h
          exact ⟨not_not.mp hid, deliverable_of_read hread⟩

/-- A decision about the intent that comes with a good status is given on. -/
theorem evaluate_response {intent : TradingIntent host} {correlationId : String} {status : Nat}
    {correlationHeader : Option String} {value : Json} {decision : GuardrailDecision}
    (hstatus : 200 ≤ status ∧ status ≤ 299)
    (hread : readGuardrailDecision host value = some decision)
    (hid : decision.intentId = intent.intentId) :
    evaluate intent correlationId false (.response status correlationHeader (.json value)) =
      .ok decision := by
  have hgood : ¬(status < 200 ∨ 299 < status) := by omega
  have hsame : ¬decision.intentId ≠ intent.intentId := not_not.mpr hid
  simp only [evaluate, Bool.false_eq_true, if_false, if_neg hgood, hread, if_neg hsame]

end Agents
end TradingGuardrails
