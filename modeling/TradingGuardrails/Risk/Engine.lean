import TradingGuardrails.Risk.Checks

/-!
The risk engine: it asks its providers for the facts of an order one after the other,
and then runs all checks on what they reported.
-/
namespace TradingGuardrails

open Text Interleaving

structure RiskEngine where
  limits : RiskLimits
  accepted : limits.Accepted

def DailyStats.toJson (host : Host) (stats : DailyStats) : Json :=
  .record [
    ("account", some (.str stats.account)),
    ("date", some (.str stats.date)),
    ("totalNotionalUsd", some (stats.totalNotionalUsd.toJson host)),
    ("realizedLossUsd", some (stats.realizedLossUsd.toJson host)),
    ("orderCount", some (stats.orderCount.toJson host))]

/-- `toISOString().slice(0, 10)` -/
def utcDay (host : Host) (t : Instant) : String :=
  String.ofList ((host.toISOString t).toList.take 10)

structure RiskFacts where
  dailyStats : Option DailyStats
  market : Option MarketDataSnapshot
  portfolio : Option PortfolioSnapshot
  lastOrder : Option (Option Number)

namespace RiskEngine

variable {host : Host} {σ : Type} (engine : RiskEngine) (intent : TradingIntent host)

def dailyStatsFor (today : String) (stats : Option DailyStats) : Option DailyStats :=
  stats.filter fun stats => stats.account == intent.account && stats.date == today

def facts (today : String) : Script host σ RiskFacts :=
  if intent.action = .placeOrder then do
    let stats ← Routine.ofExcept (← Script.perform (.getDailyStats intent.account today))
    let market ← Routine.ofExcept (← Script.perform (.getMarketData intent.symbol))
    let portfolio ← Routine.ofExcept (← Script.perform (.getPortfolio intent.account))
    let lastOrder ← Routine.ofExcept (← Script.perform (.getLastOrderTimestampMs intent.account))
    pure ⟨dailyStatsFor intent today stats, market, portfolio, lastOrder⟩
  else pure ⟨none, none, none, none⟩

def checks (facts : RiskFacts) (nowMs : Int) (verdict : Json) : List RiskCheckResult :=
  let limits := engine.limits
  [checkMarketDataFreshness intent limits nowMs facts.market,
    checkPriceBand intent limits nowMs facts.market,
    checkPortfolioFreshness intent limits facts.portfolio nowMs,
    checkPerOrderNotional intent limits,
    checkDailyNotional intent limits facts.dailyStats,
    checkDailyLoss intent limits facts.dailyStats,
    checkSlippage intent limits,
    checkPositionDelta intent limits facts.portfolio,
    checkOrderFrequency intent limits facts.lastOrder nowMs,
    checkDailyOrderCount intent limits facts.dailyStats,
    checkEvidenceReferences intent,
    checkReviewerConsistency intent verdict]

def riskResult (host : Host) (intentId : String) (checks : List RiskCheckResult)
    (dailyStats : Option DailyStats) (evaluatedAt : String) : Json :=
  .record [
    ("intentId", some (.str intentId)),
    ("passed", some (.bool (checks.all fun check => check.status == .pass))),
    ("checks", some (.arr (checks.map (RiskCheckResult.toJson host)))),
    ("dailyStats", dailyStats.map (DailyStats.toJson host)),
    ("evaluatedAt", some (.str evaluatedAt))]

def evaluate (verdict : Json) : Script host σ (Option Json) := do
  let today := utcDay host (← Script.now)
  let facts ← facts intent today
  let now ← Script.now
  if utcDay host now ≠ today then
    throw (.ofMessage "Risk data collection crossed a UTC day boundary; evaluate again.")
  let checks := engine.checks intent facts now.ms verdict
  let evaluatedAt := host.toISOString (← Script.now)
  pure (some (riskResult host intent.intentId checks facts.dailyStats evaluatedAt))

end RiskEngine
end TradingGuardrails
