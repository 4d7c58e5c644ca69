import TradingGuardrails.Operations
import TradingGuardrails.Schemas.Decision
import Mathlib.Data.List.Sort

/-!
The answer of the policy engine, made into a policy output. Answers name their fields in
either of two cases, give reasons in either of two forms, and must not contradict
themselves.
-/
namespace TradingGuardrails

open Text Check Interleaving

namespace OpaOutput

def invalid (message : String) : Thrown := .ofMessage message

structure Reason where
  rule : String
  message : String
  deriving DecidableEq

def Reason.toJson (reason : Reason) : Json :=
  .record [("rule", some (.str reason.rule)), ("message", some (.str reason.message))]

def normalizeReason (field : String) : Json → Except Thrown Reason
  | .str s => .ok ⟨s, s⟩
  | .arr _ => .error (invalid
      (field ++ " reason objects must include string rule and message."))
  | .obj fs => match (Json.obj fs).field? "rule", (Json.obj fs).field? "message" with
    | some (.str rule), some (.str message) => .ok ⟨rule, message⟩
    | _, _ => .error (invalid
        (field ++ " reason objects must include string rule and message."))
  | _ => .error (invalid (field ++ " entries must be strings or reason objects."))

def normalizeReasons (value : Option Json) (field : String) : Except Thrown (List Reason) :=
  match value with
  | some (.arr xs) => xs.mapM (normalizeReason field)
  | _ => .error (invalid (field ++ " must be an array."))

def normalizeOptionalReasons (value : Option Json) (field : String) :
    Except Thrown (List Reason) :=
  match value with
  | none => .ok []
  | some _ => normalizeReasons value field

def normalizeStringArray (value : Option Json) (field : String) :
    Except Thrown (List String) :=
  match value with
  | some (.arr xs) => xs.mapM fun x => match x with
    | .str s => .ok s
    | _ => .error (invalid (field ++ " must be an array of strings."))
  | _ => .error (invalid (field ++ " must be an array of strings."))

def requiredField (raw : Json) (camel snake : String) : Except Thrown (Option Json) :=
  if raw.hasField camel then .ok (raw.field? camel)
  else if raw.hasField snake then .ok (raw.field? snake)
  else .error (invalid ("OPA output missing " ++ snake ++ "."))

def allReasonsMatchRules (reasons : List Reason) (rules : List String) : Bool :=
  reasons.all fun reason => rules.contains reason.rule

def sorted (rules : List String) : List String :=
  rules.insertionSort fun a b => codeUnitLe a b = true

def reasonRulesExactlyMatch (reasons : List Reason) (rules : List String) : Bool :=
  sorted (reasons.map Reason.rule) == sorted rules

/-- The parts of an answer, before they are checked against each other. -/
structure Parts where
  decision : Option Json
  reasons : List Reason
  hardDenyReasons : List Reason
  escalationReasons : List Reason
  requiresHumanApproval : Option Json
  matchedAllowRules : List String
  matchedDenyRules : List String

def readParts (raw : Json) : Except Thrown Parts := do
  if !raw.hasField "decision" then throw (invalid "OPA output missing decision.")
  let hasDirectReasons := raw.hasField "reasons"
  let hasMappedReasons := raw.hasField "hard_deny_reasons" || raw.hasField "escalation_reasons"
  if !hasDirectReasons && !hasMappedReasons then
    throw (invalid "OPA output missing reasons.")
  let directReasons ←
    if hasDirectReasons then normalizeReasons (raw.field? "reasons") "reasons" else pure []
  let hardDenyReasons ←
    normalizeOptionalReasons (raw.field? "hard_deny_reasons") "hard_deny_reasons"
  let escalationReasons ←
    normalizeOptionalReasons (raw.field? "escalation_reasons") "escalation_reasons"
  let requiresHumanApproval ←
    requiredField raw "requiresHumanApproval" "requires_human_approval"
  let matchedAllowRules ← normalizeStringArray
    (← requiredField raw "matchedAllowRules" "matched_allow_rules") "matched_allow_rules"
  let matchedDenyRules ← normalizeStringArray
    (← requiredField raw "matchedDenyRules" "matched_deny_rules") "matched_deny_rules"
  pure {
    decision := raw.field? "decision"
    reasons := if hasDirectReasons then directReasons else hardDenyReasons ++ escalationReasons
    hardDenyReasons := hardDenyReasons
    escalationReasons := escalationReasons
    requiresHumanApproval := requiresHumanApproval
    matchedAllowRules := matchedAllowRules
    matchedDenyRules := matchedDenyRules }

def Parts.toJson (parts : Parts) (evaluatedAt : Json) : Json :=
  .record [
    ("decision", parts.decision),
    ("reasons", some (.arr (parts.reasons.map Reason.toJson))),
    ("requiresHumanApproval", parts.requiresHumanApproval),
    ("matchedAllowRules", some (.arr (parts.matchedAllowRules.map .str))),
    ("matchedDenyRules", some (.arr (parts.matchedDenyRules.map .str))),
    ("evaluatedAt", some evaluatedAt)]

/-- What the parts must and must not combine, for the decision that they support. -/
def consistent (parts : Parts) (requiresHumanApproval : Bool) : Outcome → Except Thrown Unit
  | .allow => do
      if !parts.hardDenyReasons.isEmpty || !parts.matchedDenyRules.isEmpty then
        throw (invalid "non-deny decision cannot include hard-deny evidence.")
      if requiresHumanApproval then
        throw (invalid "allow decision cannot require human approval.")
      if parts.matchedAllowRules.isEmpty then
        throw (invalid "allow decision requires matched allow rule evidence.")
      if parts.reasons.isEmpty then
        throw (invalid "allow decision requires at least one allow reason.")
      if !parts.escalationReasons.isEmpty then
        throw (invalid "allow decision cannot include escalation evidence.")
      if !allReasonsMatchRules parts.reasons parts.matchedAllowRules then
        throw (invalid "allow decision reasons must match allow rule evidence.")
  | .deny => do
      if parts.reasons.isEmpty then
        throw (invalid "deny decision requires at least one deny reason.")
      if !parts.hardDenyReasons.isEmpty &&
          !reasonRulesExactlyMatch parts.reasons (parts.hardDenyReasons.map Reason.rule) then
        throw (invalid "deny decision reasons must match hard-deny evidence.")
  | .needsHuman => do
      if !parts.hardDenyReasons.isEmpty || !parts.matchedDenyRules.isEmpty then
        throw (invalid "non-deny decision cannot include hard-deny evidence.")
      if !requiresHumanApproval then
        throw (invalid "needs_human decision must require human approval.")
      if !parts.escalationReasons.isEmpty &&
          !reasonRulesExactlyMatch parts.reasons (parts.escalationReasons.map Reason.rule) then
        throw (invalid "needs_human decision reasons must match escalation evidence.")

def build (host : Host) (parts : Parts) (evaluatedAt : Json) : Except Thrown Json := do
  let policyOutput ←
    parseWith (DecisionSchema.policyOutput host) (some (parts.toJson evaluatedAt))
  consistent parts (DecisionSchema.requiresHumanApproval policyOutput)
    (DecisionSchema.outcomeOf policyOutput)
  pure policyOutput

/-- `key in value`, which throws for a value that is not an object. -/
def asRecord : Option Json → Except Thrown Json
  | some (.obj fs) => .ok (.obj fs)
  | some (.arr xs) => .ok (.arr xs)
  | _ => .error (.error .typeError "Cannot use 'in' operator to search for 'decision'")

end OpaOutput

def transformOpaOutput (host : Host) (raw : Option Json) (now : Instant) : Except Thrown Json := do
  let raw ← OpaOutput.asRecord raw
  let parts ← OpaOutput.readParts raw
  match raw.field? "evaluatedAt" with
  | none => OpaOutput.build host parts (.str (host.toISOString now))
  | some .null => OpaOutput.build host parts (.str (host.toISOString now))
  | some evaluatedAt => OpaOutput.build host parts evaluatedAt

def OpaHttpPolicyEvaluator.evaluate (host : Host) (ok : Bool) (status : String) (body : Json)
    (now : Instant) : Except Thrown Json :=
  if !ok then
    .error (OpaOutput.invalid ("OPA policy evaluation failed with HTTP " ++ status ++ "."))
  else match body with
    | .null => .error (.error .typeError "Cannot read properties of null (reading 'result')")
    | body => match body.field? "result" with
      | some (.obj fs) => transformOpaOutput host (some (.obj fs)) now
      | some (.arr xs) => transformOpaOutput host (some (.arr xs)) now
      | _ => .error (OpaOutput.invalid
          "OPA policy evaluation response did not include an object result.")

/-- The decision of a transformed answer is one that its schema allows. -/
theorem transformOpaOutput_valid {host : Host} {raw : Option Json} {now : Instant} {v : Json}
    (h : transformOpaOutput host raw now = .ok v) :
    DecisionSchema.policyOutput host v = true := by
  have build : ∀ {parts evaluatedAt}, OpaOutput.build host parts evaluatedAt = .ok v →
      DecisionSchema.policyOutput host v = true := by
    intro parts evaluatedAt hbuild
    simp only [OpaOutput.build] at hbuild
    cases hparse : parseWith (DecisionSchema.policyOutput host)
        (some (parts.toJson evaluatedAt)) with
    | error e =>
        rw [hparse] at hbuild
        cases hbuild
    | ok w =>
        rw [hparse] at hbuild
        obtain ⟨-, hvalid⟩ := parseWith_ok hparse
        cases hconsistent : OpaOutput.consistent parts
            (DecisionSchema.requiresHumanApproval w) (DecisionSchema.outcomeOf w) with
        | error e =>
            simp only [bind, Except.bind, hconsistent] at hbuild
            cases hbuild
        | ok u =>
            simp only [bind, Except.bind, hconsistent, pure, Except.pure] at hbuild
            cases hbuild
            exact hvalid
  unfold transformOpaOutput at h
  cases hraw : OpaOutput.asRecord raw with
  | error e =>
      rw [hraw] at h
      cases h
  | ok r =>
      rw [hraw] at h
      cases hparts : OpaOutput.readParts r with
      | error e =>
          simp only [bind, Except.bind, hparts] at h
          cases h
      | ok parts =>
          simp only [bind, Except.bind, hparts] at h
          split at h
          · exact build h
          · exact build h
          · exact build h

end TradingGuardrails
