import Mathlib.Algebra.Order.Ring.Abs
import Mathlib.Algebra.Order.Ring.Rat
import TradingGuardrails.Operations
import TradingGuardrails.Text.Pattern

/-!
The checks of the risk engine. Each looks at the intent, the limits and a fact that a
provider reported, which may be missing, stale or not a finite number.
-/
namespace TradingGuardrails

open Text

structure RiskLimits where
  maxMarketDataAgeMs : ℚ
  maxPortfolioAgeMs : ℚ
  maxNotionalUsd : ℚ
  maxDailyNotionalUsd : ℚ
  maxDailyLossUsd : ℚ
  maxSlippageBps : ℚ
  maxPriceBandBps : ℚ
  maxPositionDeltaPct : ℚ
  minOrderIntervalMs : ℚ
  maxOrdersPerDay : ℚ

namespace RiskLimits

def values (limits : RiskLimits) : List ℚ := [
  limits.maxMarketDataAgeMs, limits.maxPortfolioAgeMs, limits.maxNotionalUsd,
  limits.maxDailyNotionalUsd, limits.maxDailyLossUsd, limits.maxSlippageBps,
  limits.maxPriceBandBps, limits.maxPositionDeltaPct, limits.minOrderIntervalMs,
  limits.maxOrdersPerDay]

def Accepted (limits : RiskLimits) : Prop :=
  ∀ q ∈ limits.values, 0 ≤ q

instance (limits : RiskLimits) : Decidable limits.Accepted :=
  inferInstanceAs (Decidable (∀ q ∈ limits.values, 0 ≤ q))

end RiskLimits

inductive RiskCheckStatus where
  | pass
  | fail
  | unavailable
  deriving DecidableEq

def RiskCheckStatus.text : RiskCheckStatus → String
  | .pass => "pass"
  | .fail => "fail"
  | .unavailable => "unavailable"

structure RiskCheckResult where
  check : String
  status : RiskCheckStatus
  value : Option Number := none
  threshold : Option ℚ := none
  message : Option String := none

namespace RiskCheckResult

def passed (check : String) : RiskCheckResult := ⟨check, .pass, none, none, none⟩

def unavailable (check message : String) : RiskCheckResult :=
  ⟨check, .unavailable, none, none, some message⟩

def within (check : String) (value : Number) (threshold : ℚ) (exceeds : Bool)
    (message : String) : RiskCheckResult :=
  if exceeds then ⟨check, .fail, some value, some threshold, some message⟩
  else ⟨check, .pass, some value, some threshold, none⟩

def toJson (host : Host) (result : RiskCheckResult) : Json :=
  .record [
    ("check", some (.str result.check)),
    ("status", some (.str result.status.text)),
    ("value", result.value.map (Number.toJson host)),
    ("threshold", result.threshold.map fun q => .num (host.numeral q)),
    ("message", result.message.map .str)]

end RiskCheckResult

variable {host : Host} (intent : TradingIntent host) (limits : RiskLimits)

def limitText (host : Host) (q : ℚ) : String :=
  String.ofList (host.numeral q).text

def marketFacts (nowMs : Int) (data : Option MarketDataSnapshot) : Option (Number × Number) :=
  match data with
  | none => none
  | some data => match data.timestampMs with
    | .finite timestampMs =>
        let ageMs := Number.rounded (nowMs - timestampMs.value)
        if data.symbol ≠ intent.symbol then none
        else if ageMs.below 0 then none
        else some (data.price, ageMs)
    | _ => none

def checkMarketDataFreshness (nowMs : Int) (data : Option MarketDataSnapshot) :
    RiskCheckResult :=
  if intent.action ≠ .placeOrder then .passed "market_data_freshness"
  else match marketFacts intent nowMs data with
    | none => .unavailable "market_data_freshness" "Market data unavailable or invalid."
    | some (_, ageMs) =>
        .within "market_data_freshness" ageMs limits.maxMarketDataAgeMs
          (ageMs.above limits.maxMarketDataAgeMs)
          ("Market data is " ++ ageMs.text host ++ "ms old, max " ++
            limitText host limits.maxMarketDataAgeMs ++ "ms.")

def checkPortfolioFreshness (portfolio : Option PortfolioSnapshot) (nowMs : Int) :
    RiskCheckResult :=
  if intent.action ≠ .placeOrder then .passed "portfolio_freshness"
  else match portfolio with
    | none => .unavailable "portfolio_freshness" "Portfolio data not available."
    | some portfolio =>
        if portfolio.account ≠ intent.account then
          .unavailable "portfolio_freshness" "Portfolio account does not match intent account."
        else match portfolio.timestampMs with
          | .finite timestampMs =>
              let ageMs := Number.rounded (nowMs - timestampMs.value)
              if !ageMs.isFinite || ageMs.below 0 then
                .unavailable "portfolio_freshness" "Portfolio timestamp is invalid."
              else .within "portfolio_freshness" ageMs limits.maxPortfolioAgeMs
                (ageMs.above limits.maxPortfolioAgeMs)
                ("Portfolio data is " ++ ageMs.text host ++ "ms old, max " ++
                  limitText host limits.maxPortfolioAgeMs ++ "ms.")
          | _ => .unavailable "portfolio_freshness" "Portfolio timestamp is invalid."

def checkPerOrderNotional : RiskCheckResult :=
  if !intent.has "maxNotionalUsd" then .passed "per_order_notional"
  else
    let maxNotionalUsd := Number.rounded intent.maxNotionalUsd
    .within "per_order_notional" maxNotionalUsd limits.maxNotionalUsd
      (decide (intent.maxNotionalUsd > limits.maxNotionalUsd))
      ("Notional $" ++ maxNotionalUsd.text host ++ " exceeds limit $" ++
        limitText host limits.maxNotionalUsd ++ ".")

def checkDailyNotional (stats : Option DailyStats) : RiskCheckResult :=
  if intent.action ≠ .placeOrder ∨ !intent.has "account" ∨ !intent.has "maxNotionalUsd" then
    .passed "daily_notional"
  else match stats with
    | none => .unavailable "daily_notional" "Daily stats not available."
    | some stats => match stats.totalNotionalUsd with
      | .finite total =>
          if total.value < 0 then
            .unavailable "daily_notional" "Daily notional stats are invalid."
          else
            let projected := Number.rounded (total.value + intent.maxNotionalUsd)
            .within "daily_notional" projected limits.maxDailyNotionalUsd
              (projected.above limits.maxDailyNotionalUsd)
              ("Projected daily notional $" ++ projected.text host ++
                " exceeds limit $" ++ limitText host limits.maxDailyNotionalUsd ++ ".")
      | _ => .unavailable "daily_notional" "Daily notional stats are invalid."

def checkDailyLoss (stats : Option DailyStats) : RiskCheckResult :=
  if intent.action ≠ .placeOrder ∨ !intent.has "account" then .passed "daily_loss"
  else match stats with
    | none => .unavailable "daily_loss" "Daily stats not available."
    | some stats => match stats.realizedLossUsd with
      | .finite loss =>
          if loss.value < 0 then .unavailable "daily_loss" "Daily loss stats are invalid."
          else .within "daily_loss" (.finite loss) limits.maxDailyLossUsd
            (decide (loss.value > limits.maxDailyLossUsd))
            ("Daily loss $" ++ (Number.finite loss).text host ++ " exceeds limit $" ++
              limitText host limits.maxDailyLossUsd ++ ".")
      | _ => .unavailable "daily_loss" "Daily loss stats are invalid."

def checkSlippage : RiskCheckResult :=
  if !intent.has "maxSlippageBps" then .passed "slippage"
  else
    let maxSlippageBps := Number.rounded (intent.number "maxSlippageBps")
    .within "slippage" maxSlippageBps limits.maxSlippageBps
      (decide (intent.number "maxSlippageBps" > limits.maxSlippageBps))
      ("Slippage " ++ maxSlippageBps.text host ++ "bps exceeds limit " ++
        limitText host limits.maxSlippageBps ++ "bps.")

def checkPriceBand (nowMs : Int) (data : Option MarketDataSnapshot) : RiskCheckResult :=
  if intent.action ≠ .placeOrder then .passed "price_band"
  else if intent.number "price" ≤ 0 then
    .unavailable "price_band" "Intent price unavailable or invalid."
  else match marketFacts intent nowMs data with
    | some (.finite price, ageMs) =>
        if price.value ≤ 0 ∨ ageMs.above limits.maxMarketDataAgeMs then
          .unavailable "price_band" "Market data unavailable or invalid."
        else
          let deviationBps := Number.deviationBps (intent.number "price") price.value
          .within "price_band" deviationBps limits.maxPriceBandBps
            (deviationBps.above limits.maxPriceBandBps)
            ("Price band " ++ deviationBps.fixedText host ++ "bps exceeds limit " ++
              limitText host limits.maxPriceBandBps ++ "bps.")
    | _ => .unavailable "price_band" "Market data unavailable or invalid."

/-- `(maxNotionalUsd / currentNotional) * 100` -/
def deltaPct (maxNotionalUsd currentNotional : ℚ) : Number :=
  (Number.rounded (maxNotionalUsd / currentNotional)).andThen (· * 100)

def checkPositionDelta (portfolio : Option PortfolioSnapshot) : RiskCheckResult :=
  if !intent.has "account" ∨ !intent.has "symbol" ∨ !intent.has "maxNotionalUsd" then
    .passed "position_delta"
  else match portfolio with
    | none => .unavailable "position_delta" "Portfolio not available."
    | some portfolio =>
        if portfolio.account ≠ intent.account then
          .unavailable "position_delta" "Portfolio account does not match intent account."
        else match portfolio.positions.find? fun p => p.symbol == intent.symbol with
          | none => .passed "position_delta"
          | some position => match position.notionalUsd with
            | .finite notionalUsd =>
                if |notionalUsd.value| = 0 then .passed "position_delta"
                else
                  let deltaPct := deltaPct intent.maxNotionalUsd |notionalUsd.value|
                  .within "position_delta" deltaPct limits.maxPositionDeltaPct
                    (deltaPct.above limits.maxPositionDeltaPct)
                    ("Position delta " ++ deltaPct.fixedText host ++ "% exceeds limit " ++
                      limitText host limits.maxPositionDeltaPct ++ "%.")
            | _ => .unavailable "position_delta" "Position notional is invalid."

def checkOrderFrequency (lastTs : Option (Option Number)) (nowMs : Int) : RiskCheckResult :=
  if intent.action ≠ .placeOrder ∨ !intent.has "account" then .passed "order_frequency"
  else match lastTs with
    | some none => .passed "order_frequency"
    | some (some (.finite timestampMs)) =>
        let elapsed := Number.rounded (nowMs - timestampMs.value)
        if !elapsed.isFinite || elapsed.below 0 then
          .unavailable "order_frequency" "Last order timestamp is invalid."
        else .within "order_frequency" elapsed limits.minOrderIntervalMs
          (elapsed.below limits.minOrderIntervalMs)
          ("Only " ++ elapsed.text host ++ "ms since last order, min " ++
            limitText host limits.minOrderIntervalMs ++ "ms.")
    | _ => .unavailable "order_frequency" "Last order timestamp is invalid."

def checkDailyOrderCount (stats : Option DailyStats) : RiskCheckResult :=
  if intent.action ≠ .placeOrder ∨ !intent.has "account" then .passed "daily_order_count"
  else match stats with
    | none => .unavailable "daily_order_count" "Daily stats not available."
    | some stats => match stats.orderCount with
      | .finite count =>
          if count.value < 0 then
            .unavailable "daily_order_count" "Daily order count stats are invalid."
          else
            let projected := Number.rounded (count.value + 1)
            .within "daily_order_count" projected limits.maxOrdersPerDay
              (projected.above limits.maxOrdersPerDay)
              ("Projected daily order count " ++ projected.text host ++
                " exceeds limit " ++ limitText host limits.maxOrdersPerDay ++ ".")
      | _ => .unavailable "daily_order_count" "Daily order count stats are invalid."

def checkEvidenceReferences : RiskCheckResult :=
  if intent.evidence.isEmpty then
    ⟨"evidence_references", .fail, none, none, some "No evidence references provided."⟩
  else if intent.evidence.any fun ref => (trim ref).isEmpty then
    ⟨"evidence_references", .fail, none, none, some "Empty evidence reference found."⟩
  else .passed "evidence_references"

def checkReviewerConsistency (verdict : Json) : RiskCheckResult :=
  if verdict.field? "intentId" ≠ some (.str intent.intentId) then
    ⟨"reviewer_consistency", .fail, none, none,
      some "Reviewer verdict intentId does not match intent."⟩
  else if verdict.field? "verdict" = some (.str "approve") ∧
      verdict.field? "detectedIssues" ≠ some (.arr []) then
    ⟨"reviewer_consistency", .fail, none, none,
      some "Reviewer approved but detected issues present."⟩
  else .passed "reviewer_consistency"

end TradingGuardrails
