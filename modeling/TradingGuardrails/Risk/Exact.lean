import TradingGuardrails.Risk.Cover

/-!
What the checks of the risk engine say over exact arithmetic. The language rounds the result
of every operation, so a result within a limit hides half a unit in its last place at most,
and nothing where the exact result is a number of the language itself.
-/
namespace TradingGuardrails

variable {host : Host} {intent : TradingIntent host} {limits : RiskLimits}

theorem AtMost.nearly {q limit : ℚ} (h : AtMost q limit) (hlimit : 0 ≤ limit) :
    Nearly q limit :=
  Number.nearly_of_not_above hlimit h

structure DailyStats.Within (limits : RiskLimits) (intent : TradingIntent host)
    (stats : DailyStats) : Prop where
  notional : stats.totalNotionalUsd.Meets fun total =>
    Nearly (total + intent.maxNotionalUsd) limits.maxDailyNotionalUsd
  loss : stats.realizedLossUsd.Meets fun loss => loss ≤ limits.maxDailyLossUsd
  orders : stats.orderCount.Meets fun count => Nearly (count + 1) limits.maxOrdersPerDay

def AgeWithin (nowMs : Int) (timestampMs : Number) (maxAgeMs : ℚ) : Prop :=
  ∃ moment, timestampMs = .finite moment ∧ 0 ≤ nowMs - moment.value ∧
    Nearly (nowMs - moment.value) maxAgeMs

structure MarketDataSnapshot.Within (limits : RiskLimits) (intent : TradingIntent host)
    (nowMs : Int) (data : MarketDataSnapshot) : Prop where
  symbol : data.symbol = intent.symbol
  age : AgeWithin nowMs data.timestampMs limits.maxMarketDataAgeMs
  price : ∃ price, data.price = .finite price ∧ 0 < price.value ∧
    |intent.number "price" - price.value| ≤ Binary64.reach (price.value *
      Binary64.reach (Binary64.reach limits.maxPriceBandBps / 10000))

structure PortfolioSnapshot.Within (limits : RiskLimits) (intent : TradingIntent host)
    (nowMs : Int) (portfolio : PortfolioSnapshot) : Prop where
  account : portfolio.account = intent.account
  age : AgeWithin nowMs portfolio.timestampMs limits.maxPortfolioAgeMs
  delta : ∀ position, portfolio.positions.find? (fun p => p.symbol == intent.symbol) =
      some position → ∃ notionalUsd, position.notionalUsd = .finite notionalUsd ∧
    (notionalUsd.value = 0 ∨ intent.maxNotionalUsd / |notionalUsd.value| ≤
      Binary64.reach (Binary64.reach limits.maxPositionDeltaPct / 100))

def LastOrderWithin (limits : RiskLimits) (nowMs : Int) (lastOrder : Option (Option Number)) :
    Prop :=
  lastOrder = some none ∨ ∃ moment, lastOrder = some (some (.finite moment)) ∧
    let elapsed : ℚ := nowMs - moment.value
    limits.minOrderIntervalMs - Binary64.slack limits.minOrderIntervalMs ≤ elapsed ∧
      (Binary64.Representable elapsed → limits.minOrderIntervalMs ≤ elapsed)

structure RiskFacts.Within (limits : RiskLimits) (intent : TradingIntent host) (nowMs : Int)
    (facts : RiskFacts) : Prop where
  notional : intent.maxNotionalUsd ≤ limits.maxNotionalUsd
  slippage : intent.number "maxSlippageBps" ≤ limits.maxSlippageBps
  dailyStats : ∃ stats, facts.dailyStats = some stats ∧ stats.Within limits intent
  market : 0 < intent.number "price" ∧
    ∃ snapshot, facts.market = some snapshot ∧ snapshot.Within limits intent nowMs
  portfolio : ∃ snapshot, facts.portfolio = some snapshot ∧ snapshot.Within limits intent nowMs
  lastOrder : LastOrderWithin limits nowMs facts.lastOrder

theorem Number.Meets.mono {n : Number} {P Q : ℚ → Prop} (h : n.Meets P)
    (hPQ : ∀ q, P q → Q q) : n.Meets Q := by
  obtain ⟨d, hd, hnonneg, hP⟩ := h
  exact ⟨d, hd, hnonneg, hPQ _ hP⟩

theorem DailyStats.Covers.within {stats : DailyStats} (h : stats.Covers limits intent)
    (haccepted : limits.Accepted) : stats.Within limits intent where
  notional := h.notional.mono fun _ hq => hq.nearly (haccepted _ (by simp [RiskLimits.values]))
  loss := h.loss
  orders := h.orders.mono fun _ hq => hq.nearly (haccepted _ (by simp [RiskLimits.values]))

/-- The clock shows whole milliseconds, each of which is a number. -/
theorem Instant.representable (t : Instant) : Binary64.Representable t.ms := by
  have hrange := t.inRange
  apply Binary64.representable_intCast
  rw [Int.abs_eq_natAbs]
  omega

theorem Fresh.within {now : Instant} {timestampMs : Number} {maxAgeMs : ℚ}
    (h : Fresh now.ms timestampMs maxAgeMs) (hlimit : 0 ≤ maxAgeMs) :
    AgeWithin now.ms timestampMs maxAgeMs := by
  obtain ⟨moment, hmoment, hnonneg, hage⟩ := h
  have hpast := (Binary64.round_sub_nonneg now.representable moment.representable).mp
    (Number.nonneg_of_not_below hnonneg)
  exact ⟨moment, hmoment, sub_nonneg.mpr hpast, hage.nearly hlimit⟩

theorem MarketDataSnapshot.Covers.within {now : Instant} {data : MarketDataSnapshot}
    (h : data.Covers limits intent now.ms) (haccepted : limits.Accepted) :
    data.Within limits intent now.ms where
  symbol := h.symbol
  age := h.age.within (haccepted _ (by simp [RiskLimits.values]))
  price := by
    obtain ⟨price, hprice, hpos, hband⟩ := h.price
    exact ⟨price, hprice, hpos,
      Number.deviation_le hpos (haccepted _ (by simp [RiskLimits.values])) hband⟩

theorem deltaPct_le {maxNotionalUsd currentNotional limit : ℚ} (hnotional : 0 ≤ maxNotionalUsd)
    (hcurrent : 0 ≤ currentNotional) (hlimit : 0 ≤ limit)
    (h : (deltaPct maxNotionalUsd currentNotional).above limit = false) :
    maxNotionalUsd / currentNotional ≤ Binary64.reach (Binary64.reach limit / 100) := by
  have hscaled := Number.andThen_le_reach (div_nonneg hnotional hcurrent) hlimit h
  apply Binary64.le_reach_of_round_le (div_nonneg (Binary64.reach_nonneg hlimit) (by norm_num))
  rw [le_div_iff₀ (by norm_num)]
  exact hscaled

theorem PortfolioSnapshot.Covers.within {now : Instant} {portfolio : PortfolioSnapshot}
    (h : portfolio.Covers limits intent now.ms) (horder : intent.action = .placeOrder)
    (haccepted : limits.Accepted) : portfolio.Within limits intent now.ms where
  account := h.account
  age := h.age.within (haccepted _ (by simp [RiskLimits.values]))
  delta position hposition := by
    obtain ⟨notionalUsd, hnotional, hdelta⟩ := h.delta position hposition
    exact ⟨notionalUsd, hnotional, hdelta.imp_right fun hle =>
      deltaPct_le (intent.maxNotionalUsd_nonneg horder) (abs_nonneg _)
        (haccepted _ (by simp [RiskLimits.values])) hle⟩

theorem LastOrderCovers.within {nowMs : Int} {lastOrder : Option (Option Number)}
    (h : LastOrderCovers limits nowMs lastOrder) (haccepted : limits.Accepted) :
    LastOrderWithin limits nowMs lastOrder := by
  rcases h with hnone | ⟨moment, hmoment, hfinite, -, helapsed⟩
  · exact .inl hnone
  · have hround := Number.le_round_of_not_below hfinite helapsed
    refine .inr ⟨moment, hmoment, Binary64.sub_slack_le_of_le_round
      (haccepted _ (by simp [RiskLimits.values])) hround, fun helapsed => ?_⟩
    rwa [Binary64.round_of_representable helapsed] at hround

/-- Facts that pass all checks lie within the limits over exact arithmetic. -/
theorem RiskFacts.Cover.within {now : Instant} {facts : RiskFacts}
    (h : facts.Cover limits intent now.ms) (horder : intent.action = .placeOrder)
    (haccepted : limits.Accepted) : facts.Within limits intent now.ms where
  notional := h.notional
  slippage := h.slippage
  dailyStats := by
    obtain ⟨stats, hstats, hcovers⟩ := h.dailyStats
    exact ⟨stats, hstats, hcovers.within haccepted⟩
  market := by
    obtain ⟨hprice, snapshot, hsnapshot, hcovers⟩ := h.market
    exact ⟨hprice, snapshot, hsnapshot, hcovers.within haccepted⟩
  portfolio := by
    obtain ⟨snapshot, hsnapshot, hcovers⟩ := h.portfolio
    exact ⟨snapshot, hsnapshot, hcovers.within horder haccepted⟩
  lastOrder := h.lastOrder.within haccepted

end TradingGuardrails
