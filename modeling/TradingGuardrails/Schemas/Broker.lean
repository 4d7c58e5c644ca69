import TradingGuardrails.Host
import TradingGuardrails.Schemas.Common

/-!
Results of broker executions. An executed result carries the evidence that its kind of
execution asks for; rejected and failed results carry a reason.
-/
namespace TradingGuardrails

open Text Check

namespace BrokerSchema

variable (host : Host)

def brokerOrderStatus : Check := strict [
  required "orderId" nonEmpty,
  required "symbol" nonEmpty,
  required "side" nonEmpty,
  required "status" nonEmpty,
  required "executedQty" nonnegative,
  required "avgPrice" nonnegative]

def brokerOrderReconciliation : Check := strict [
  required "status" (oneOf ["matched", "discrepancy", "unavailable"]),
  required "checkedAt" (string host.isDatetime),
  required "expected" brokerOrderStatus,
  optional "observed" brokerOrderStatus,
  required "discrepancies" (array nonEmpty fun _ => true)]

def brokerSimulationEvidence : Check := strict [
  optional "simulationId" (string host.isUuid),
  required "provider" nonEmpty]

def resultBase (status : String) (revalidationPassed : Check) : List Field := [
  required "intentId" (string host.isUuid),
  required "idempotencyKey" nonEmpty,
  required "revalidationPassed" revalidationPassed,
  required "executedAt" (string host.isDatetime),
  required "status" (literal status)]

def isTrue : Check
  | .bool true => true
  | _ => false

def executed (kind : String) (evidence : List Field) : Check :=
  strict (resultBase host "executed" isTrue ++ required "executionKind" (literal kind) :: evidence)

def executedCexOrderById : Check := executed host "cex_order" [
  required "orderId" nonEmpty,
  optional "reconciliation" (brokerOrderReconciliation host)]

def executedCexOrderByStatus : Check := executed host "cex_order" [
  required "orderStatus" brokerOrderStatus,
  optional "reconciliation" (brokerOrderReconciliation host)]

def executedCexOrderByIdAndStatus : Check := executed host "cex_order" [
  required "orderId" nonEmpty,
  required "orderStatus" brokerOrderStatus,
  optional "reconciliation" (brokerOrderReconciliation host)]

def executedCexCancel : Check := executed host "cex_cancel" [
  required "orderId" nonEmpty]

def executedCexOrderStatus : Check := executed host "cex_order_status" [
  optional "orderId" nonEmpty,
  required "orderStatus" brokerOrderStatus]

def executedOnchainSigning : Check := executed host "onchain_signature" [
  required "transactionHash" nonEmpty]

def executedOnchainSimulation : Check := executed host "onchain_simulation" [
  required "simulationEvidence" (brokerSimulationEvidence host)]

def unexecuted (status : String) : Check :=
  strict (resultBase host status boolean ++ [required "rejectionReason" nonEmpty])

def rejected : Check := unexecuted host "rejected"

def failed : Check := unexecuted host "failed"

def brokerExecutionResult : Check := union [
  executedCexOrderById host,
  executedCexOrderByStatus host,
  executedCexOrderByIdAndStatus host,
  executedCexCancel host,
  executedCexOrderStatus host,
  executedOnchainSigning host,
  executedOnchainSimulation host,
  rejected host,
  failed host]

end BrokerSchema
end TradingGuardrails
