import TradingGuardrails.Broker.Broker
import TradingGuardrails.Interleaving.Machine

/-!
The contract of `execute`, for a connector of which only its answers are known. An
attempt remembers what a call has learned so far and at which stage it stands with its
key; the contract says what the call may do at each stage and on which grounds. Every
call obeys it, whatever it is answered.
-/
namespace TradingGuardrails

open Text Interleaving

inductive Stage where
  | before
  | refused
  | reserved
  /-- A rejection was recorded under the key, or the key was freed. -/
  | closed (freed : Bool)
  | entered (reply : Option Reply)
  | recorded (record : Record) (completion : Except Thrown Unit)
  | audited (record : Record) (completion : Except Thrown Unit)
  | unaudited (record : Record) (error : Thrown)
  | released (record : Record)
  | replaying (result : Json) (pendingAudit : Option Json)
  | flushed (result : Json)
  | waiting (promised : Promised)
  | answered (answer : Except Thrown Json)

structure Attempt where
  broker : ExecutionBroker
  approval : Json
  dryRunAuthorization : Option Json
  startedAt : Option Instant := none
  /-- The last reading of the clock since the last await. -/
  clock : Option Instant := none
  listed : Option (List ApprovalRequest) := none
  found : Option (String × Option ApprovalRequest) := none
  consumed : Option (String × Consumption) := none
  stage : Stage := .before

namespace Attempt

variable (host : Host)

def request (s : Attempt) : Option (Request host) :=
  match s.startedAt, TradingIntent.safeParse host (s.approval.field? "intent") with
  | some startedAt, some intent =>
      some ⟨s.approval, s.dryRunAuthorization, intent, host.toISOString startedAt⟩
  | _, _ => none

variable {host}

def stageAfter (s : Attempt) : (op : Op host) → Ans host op → Stage
  | .begin _ _, .error _ => .refused
  | .begin _ _, .ok .reserved => .reserved
  | .begin _ _, .ok (.cached result pendingAudit) => .replaying result pendingAudit
  | .begin _ _, .ok (.pending promised) => .waiting promised
  | .abort _ _, _ => .closed true
  | .complete _ _ none, _ => .closed false
  | .complete _ result (some event), completion => .recorded ⟨result, event⟩ completion
  | .enterConnector _, _ => .entered none
  | .connectorResult _, reply => .entered (some reply)
  | .auditWrite _, written => match s.stage, written with
    | .recorded record completion, .ok () => .audited record completion
    | .recorded record _, .error error => .unaudited record error
    | .replaying result (some _), .ok () => .flushed result
    | stage, _ => stage
  | .completeAudit _, .ok () => match s.stage with
    | .audited record _ => .released record
    | stage => stage
  | .cachedCompleteAudit _, .ok () => match s.stage with
    | .flushed result => .replaying result none
    | stage => stage
  | .pendingResult _, answer => .answered answer
  | _, _ => s.stage

def next (s : Attempt) (op : Op host) (a : Ans host op) : Attempt where
  broker := s.broker
  approval := s.approval
  dryRunAuthorization := s.dryRunAuthorization
  startedAt := match op, a with
    | .now, t => s.startedAt.or (some t)
    | _, _ => s.startedAt
  clock := match op, a with
    | .now, t => some t
    | _, _ => if waits host op then none else s.clock
  listed := match op, a with
    | .approvalList, .ok requests => some requests
    | _, _ => s.listed
  found := match op, a with
    | .approvalGet approvalId, .ok found => some (approvalId, found)
    | _, _ => s.found
  consumed := match op, a with
    | .approvalConsumeOneTime approvalId, .ok consumption => some (approvalId, consumption)
    | _, _ => s.consumed
  stage := s.stageAfter op a

@[simp] theorem next_stage (s : Attempt) (op : Op host) (a : Ans host op) :
    (s.next op a).stage = s.stageAfter op a := rfl

structure MayBegin (s : Attempt) (request : Request host) : Prop where
  decision : s.broker.decisionRefusal request = .ok none
  listed : ∃ requests, s.listed = some requests ∧
    ExecutionBroker.approvalMissing request requests = false

/-- What a call has checked about the human approval that its decision carries. -/
structure Approved (s : Attempt) (request : Request host) (approvalId : String) : Prop where
  found : ∃ approved, s.found = some (approvalId, some approved) ∧
    approved.state = .approved ∧ approved.approvalType = .oneTime ∧
    ExecutionBroker.approvalMatchesIntent approved request.intent request.correlationId = true
  consumed : ∃ consumption r, s.consumed = some (approvalId, consumption) ∧
    consumption.request = some r

structure MayEnter (s : Attempt) (request : Request host) : Prop extends
    MayBegin s request where
  receipt : s.broker.canaryOrder request.intent = true →
    dryRunAuthorizationMatches host request.dryRunAuthorization
      s.broker.decisionVerificationSecret request.intent request.now
      s.broker.decisionMaxAgeMs = .ok true
  fresh : s.broker.canaryOrder request.intent = true → ∃ t, s.clock = some t ∧
    dryRunIsFresh host (orEmpty request.dryRunCheckedAt) (host.toISOString t)
      s.broker.decisionMaxAgeMs = true
  approved : ∀ approvalId, request.approvalId = some (.str approvalId) →
    s.Approved request approvalId

def allowed (s : Attempt) : Op host → Prop
  | .now => s.stage = .before ∨ s.stage = .reserved
  | .auditWrite event => match s.stage with
    -- Only the event of a recorded result has an id of its own.
    | .before | .refused | .reserved => Plain event
    | .recorded record _ => event = record.event
    | .replaying _ (some pendingAudit) => event = pendingAudit
    | _ => False
  | .auditCheckHealth => s.stage = .before
  | .approvalCheckHealth => s.stage = .before
  | .approvalList => s.stage = .before
  | .killSwitchIsActive _ => s.stage = .before ∨ s.stage = .reserved
  | .begin key intent => s.stage = .before ∧ ∃ request, s.request host = some request ∧
      request.intent = intent ∧ intent.idempotencyKey = key ∧ s.MayBegin request
  | .approvalGet _ => s.stage = .reserved
  | .approvalConsumeOneTime _ => s.stage = .reserved
  | .revalidate _ => s.stage = .reserved
  | .enterConnector intent => s.stage = .reserved ∧ ∃ request, s.request host = some request ∧
      request.intent = intent ∧ s.MayEnter request
  | .connectorResult _ => s.stage = .entered none
  | .complete handle result pendingAudit => ∃ request, s.request host = some request ∧
      handle = request.handle ∧ match s.stage, pendingAudit with
        | .reserved, none => result.field? "status" = some (.str "rejected") ∧
            ∃ reason, result = rejectedResult (subjectOf request.intent) request.now reason
        | .entered (some reply), some event =>
            s.broker.recordOf request reply = .ok ⟨result, event⟩
        | _, _ => False
  | .abort handle _ => ∃ request, s.request host = some request ∧ handle = request.handle ∧
      match s.stage with
        | .reserved | .closed _ => True
        | .entered (some reply) => ∃ error, s.broker.recordOf request reply = .error error
        | _ => False
  | .failAudit handle error => ∃ request record, s.request host = some request ∧
      handle = request.handle ∧ s.stage = .unaudited record error
  | .completeAudit handle => ∃ request record, s.request host = some request ∧
      handle = request.handle ∧ s.stage = .audited record (.ok ())
  | .cachedCompleteAudit handle => ∃ request result, s.request host = some request ∧
      handle = request.handle ∧ s.stage = .flushed result
  | .pendingResult promised => s.stage = .waiting promised
  | _ => False

def final (s : Attempt) : Except Thrown Json → Prop
  | .error _ => True
  | .ok result => match s.stage with
    | .before | .refused | .closed _ => result.field? "status" = some (.str "rejected")
    | .released record => result = record.result
    | .replaying recorded none => result = recorded
    | .answered answer => answer = .ok result
    | _ => False

abbrev contract (host : Host) : Contract (Op host) (Ans host) where
  State := Attempt
  next := next
  allowed := allowed

end Attempt
end TradingGuardrails
