import TradingGuardrails.Approval.Store
import TradingGuardrails.Interleaving.Machine
import TradingGuardrails.Schemas.Intent

/-!
The operations at which the programs of this repository meet the world: the clock, the
audit writer, the kill switch, the approval store, the idempotency stores, the connector,
and the services they call. Each operation has a type of answers; the operations that
wait are the awaits of the programs.
-/
namespace TradingGuardrails

open Text Interleaving

inductive KillSwitchScope where
  | global
  | agent (principal : String)
  | account (account : String)
  | exchange (exchange : String)
  | chain (chain : String)
  deriving DecidableEq

/-- What the operations on a reservation remember of its idempotency key. -/
structure Handle where
  scopedKey : String
  payloadHash : String
  deriving DecidableEq

/-- The promise of a call that holds a key, or one that is rejected from the start. -/
inductive Promised where
  | shared (id : Nat)
  | rejected (error : Thrown)
  deriving DecidableEq

inductive Reservation where
  | reserved
  | cached (result : Json) (pendingAudit : Option Json)
  | pending (result : Promised)
  deriving DecidableEq

/-- What the guardrail service finds under an idempotency scope. -/
inductive Lookup (δ : Type) where
  | absent
  | conflict
  | complete (decision : δ)
  | pending (promise : Nat)

/-- The consumption of an approval, and the moment at which it was attempted. -/
structure Consumption where
  at_ : Instant
  request : Option ApprovalRequest

inductive ExternalRequest where
  | http (method path : String) (params : Json)
  | rpc (method : String) (params : Json)
  | signAndBroadcast (transaction : Json)
  deriving DecidableEq

structure GuardrailDecision where
  intentId : String
  correlationId : String
  outcome : Outcome
  reasons : List Json
  requiresHumanApproval : Bool
  approvalId : Option String := none
  reviewerVerdict : Option Json := none
  policyOutput : Option Json := none
  riskResult : Option Json := none
  decidedAt : String
  decisionToken : Option String := none
  dryRun : Bool := false
  deriving DecidableEq

/-- A value that a promise may give: nothing stands for undefined. -/
abbrev Reply := Except Thrown (Option Json)

structure MarketDataSnapshot where
  symbol : String
  price : Number
  timestampMs : Number

structure Position where
  symbol : String
  notionalUsd : Number

structure PortfolioSnapshot where
  account : String
  timestampMs : Number
  positions : List Position

structure DailyStats where
  account : String
  date : String
  totalNotionalUsd : Number
  realizedLossUsd : Number
  orderCount : Number

variable (host : Host)

inductive Op where
  | now
  | auditWrite (event : Json)
  | auditCheckHealth
  | killSwitchIsActive (scope : KillSwitchScope)
  | approvalList
  | approvalGet (approvalId : String)
  | approvalCreate (params : ApprovalParams)
  | approvalDelete (approvalId : String)
  | approvalConsumeOneTime (approvalId : String)
  | approvalCheckHealth
  | begin (key : String) (intent : TradingIntent host)
  | complete (handle : Handle) (result : Json) (pendingAudit : Option Json)
  | completeAudit (handle : Handle)
  | failAudit (handle : Handle) (error : Thrown)
  | abort (handle : Handle) (error : Thrown)
  | cachedCompleteAudit (handle : Handle)
  | pendingResult (promise : Promised)
  | revalidate (intent : TradingIntent host)
  | enterConnector (intent : TradingIntent host)
  | connectorResult (intent : TradingIntent host)
  | dispatch (request : ExternalRequest)
  | settle (request : ExternalRequest)
  | correlationId
  | lookup (scope payloadHash : String)
  | reserve (scope payloadHash : String)
  | set (scope payloadHash : String) (decision : GuardrailDecision)
  | abortDecision (scope payloadHash : String) (error : Thrown)
  | pendingDecision (promise : Nat)
  | isHealthy
  | review (intent : TradingIntent host)
  | evaluateRisk (intent : TradingIntent host) (verdict : Json)
  | evaluatePolicy (input : Json)
  | getDailyStats (account date : String)
  | getMarketData (symbol : String)
  | getPortfolio (account : String)
  | getLastOrderTimestampMs (account : String)

abbrev Ans : Op host → Type
  | .now => Instant
  | .auditWrite _ => Except Thrown Unit
  | .auditCheckHealth => Except Thrown Unit
  | .killSwitchIsActive _ => Reply
  | .approvalList => Except Thrown (List ApprovalRequest)
  | .approvalGet _ => Except Thrown (Option ApprovalRequest)
  | .approvalCreate _ => Except Thrown ApprovalRequest
  | .approvalDelete _ => Except Thrown Unit
  | .approvalConsumeOneTime _ => Except Thrown Consumption
  | .approvalCheckHealth => Except Thrown Unit
  | .begin _ _ => Except Thrown Reservation
  | .complete _ _ _ => Except Thrown Unit
  | .completeAudit _ => Except Thrown Unit
  | .failAudit _ _ => Unit
  | .abort _ _ => Except Thrown Unit
  | .cachedCompleteAudit _ => Except Thrown Unit
  | .pendingResult _ => Except Thrown Json
  | .revalidate _ => Reply
  | .enterConnector _ => Unit
  | .connectorResult _ => Reply
  | .dispatch _ => Unit
  | .settle _ => Reply
  | .correlationId => String
  | .lookup _ _ => Lookup GuardrailDecision
  | .reserve _ _ => Unit
  | .set _ _ _ => Unit
  | .abortDecision _ _ _ => Unit
  | .pendingDecision _ => Except Thrown GuardrailDecision
  | .isHealthy => Reply
  | .review _ => Reply
  | .evaluateRisk _ _ => Reply
  | .evaluatePolicy _ => Reply
  | .getDailyStats _ _ => Except Thrown (Option DailyStats)
  | .getMarketData _ => Except Thrown (Option MarketDataSnapshot)
  | .getPortfolio _ => Except Thrown (Option PortfolioSnapshot)
  | .getLastOrderTimestampMs _ => Except Thrown (Option (Option Number))

def waits : Op host → Bool
  | .pendingResult _ | .revalidate _ | .connectorResult _ | .settle _ | .pendingDecision _
  | .isHealthy | .review _ | .evaluateRisk _ _ | .evaluatePolicy _ | .getDailyStats _ _
  | .getMarketData _ | .getPortfolio _ | .getLastOrderTimestampMs _ => true
  | _ => false

abbrev Script (σ α : Type) := Routine (Op host) (Ans host) σ Thrown α

namespace Script

variable {host} {σ : Type}

abbrev perform (op : Op host) : Script host σ (Ans host op) := Routine.perform op

def now : Script host σ Instant := perform .now

def auditWrite (event : Json) : Script host σ Unit := do
  Routine.ofExcept (← perform (.auditWrite event))

def approvalList : Script host σ (List ApprovalRequest) := do
  Routine.ofExcept (← perform .approvalList)

def approvalGet (approvalId : String) : Script host σ (Option ApprovalRequest) := do
  Routine.ofExcept (← perform (.approvalGet approvalId))

def approvalCreate (params : ApprovalParams) : Script host σ ApprovalRequest := do
  Routine.ofExcept (← perform (.approvalCreate params))

def approvalDelete (approvalId : String) : Script host σ Unit := do
  Routine.ofExcept (← perform (.approvalDelete approvalId))

def consumeOneTime (approvalId : String) : Script host σ (Option ApprovalRequest) := do
  let consumption ← Routine.ofExcept (← perform (.approvalConsumeOneTime approvalId))
  pure consumption.request

@[simp] theorem obeys_now {C : Contract (Op host) (Ans host)} {ok : C.State → σ → Instant → Prop}
    {err : C.State → σ → Thrown → Prop} {s : C.State} {l : σ} :
    Routine.Obeys C ok err s l Script.now ↔ C.allowed s .now ∧ ∀ t, ok (C.next s .now t) l t :=
  Iff.rfl

variable {C : Contract (Op host) (Ans host)} {err : C.State → σ → Thrown → Prop} {s : C.State}
  {l : σ}

theorem obeys_auditWrite {ok : C.State → σ → Unit → Prop} {event : Json}
    (h : C.Inert s (.auditWrite event)) (hok : ok s l ()) (herr : ∀ e, err s l e) :
    Routine.Obeys C ok err s l (auditWrite event) := by
  simp only [auditWrite, Routine.obeys_bind]
  rw [Routine.obeys_perform_inert h]
  intro a
  rw [Routine.obeys_ofExcept]
  exact ⟨fun _ _ => hok, fun e _ => herr e⟩

end Script
end TradingGuardrails
