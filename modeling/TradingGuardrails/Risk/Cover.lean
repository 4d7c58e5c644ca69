import Mathlib.Algebra.Order.Field.Rat
import Mathlib.Tactic.GCongr
import Mathlib.Tactic.Linarith
import Mathlib.Tactic.Positivity
import TradingGuardrails.Risk.Engine

/-!
What the checks of the risk engine demand. Each check passes exactly when the fact that it
needs was reported, is about the intent and lies within its limit, as the language computes
and compares numbers.
-/
namespace TradingGuardrails

open Text Interleaving

variable {host : Host} {intent : TradingIntent host} {limits : RiskLimits}

/-- An order has every field that its schema requires. -/
theorem TradingIntent.order_has (horder : intent.action = .placeOrder) {key : String}
    (hkey : (IntentSchema.cexOrderFields.any fun field =>
      field.key == key && field.presence == .required) = true) : intent.has key = true := by
  obtain ⟨body, -, hbody, hstrict⟩ := intent.fields
  rw [horder] at hbody
  cases hbody
  obtain ⟨field, hmem, hfield⟩ := List.any_eq_true.mp hkey
  simp only [Bool.and_eq_true, beq_iff_eq] at hfield
  have haccepts := Check.strict_accepts hstrict (List.mem_append_right _ hmem)
  rw [Check.Field.accepts, hfield.1, hfield.2] at haccepts
  rw [TradingIntent.has, Json.hasField]
  split at haccepts
  · rename_i x hx
    rw [hx]
    rfl
  · cases haccepts

theorem order_has_account (horder : intent.action = .placeOrder) :
    intent.has "account" = true :=
  TradingIntent.order_has horder (by decide)

theorem order_has_symbol (horder : intent.action = .placeOrder) :
    intent.has "symbol" = true :=
  TradingIntent.order_has horder (by decide)

theorem order_has_maxNotionalUsd (horder : intent.action = .placeOrder) :
    intent.has "maxNotionalUsd" = true :=
  TradingIntent.order_has horder (by decide)

theorem order_has_maxSlippageBps (horder : intent.action = .placeOrder) :
    intent.has "maxSlippageBps" = true :=
  TradingIntent.order_has horder (by decide)

def Number.Meets (n : Number) (P : ℚ → Prop) : Prop :=
  ∃ d, n = .finite d ∧ 0 ≤ d.value ∧ P d.value

def AtMost (q limit : ℚ) : Prop :=
  (Number.rounded q).above limit = false

/-- The statistics are those of the account and the day, and leave room for the order. -/
structure DailyStats.Covers (limits : RiskLimits) (intent : TradingIntent host)
    (stats : DailyStats) : Prop where
  notional : stats.totalNotionalUsd.Meets fun total =>
    AtMost (total + intent.maxNotionalUsd) limits.maxDailyNotionalUsd
  loss : stats.realizedLossUsd.Meets fun loss => loss ≤ limits.maxDailyLossUsd
  orders : stats.orderCount.Meets fun count => AtMost (count + 1) limits.maxOrdersPerDay

def Fresh (nowMs : Int) (timestampMs : Number) (maxAgeMs : ℚ) : Prop :=
  ∃ moment, timestampMs = .finite moment ∧ (Number.rounded (nowMs - moment.value)).below 0 = false ∧
    AtMost (nowMs - moment.value) maxAgeMs

/-- The snapshot is of the symbol of the order, fresh, and its price lies in the band. -/
structure MarketDataSnapshot.Covers (limits : RiskLimits) (intent : TradingIntent host)
    (nowMs : Int) (data : MarketDataSnapshot) : Prop where
  symbol : data.symbol = intent.symbol
  age : Fresh nowMs data.timestampMs limits.maxMarketDataAgeMs
  price : ∃ price, data.price = .finite price ∧ 0 < price.value ∧
    (Number.deviationBps (intent.number "price") price.value).above limits.maxPriceBandBps = false

/-- The portfolio is that of the account, fresh, and the order is small beside the first
position of its symbol. -/
structure PortfolioSnapshot.Covers (limits : RiskLimits) (intent : TradingIntent host)
    (nowMs : Int) (portfolio : PortfolioSnapshot) : Prop where
  account : portfolio.account = intent.account
  age : Fresh nowMs portfolio.timestampMs limits.maxPortfolioAgeMs
  delta : ∀ position, portfolio.positions.find? (fun p => p.symbol == intent.symbol) =
      some position → ∃ notionalUsd, position.notionalUsd = .finite notionalUsd ∧
    (notionalUsd.value = 0 ∨ (deltaPct intent.maxNotionalUsd |notionalUsd.value|).above
      limits.maxPositionDeltaPct = false)

/-- There was no order before, or the last one is long enough ago. -/
def LastOrderCovers (limits : RiskLimits) (nowMs : Int) (lastOrder : Option (Option Number)) :
    Prop :=
  lastOrder = some none ∨ ∃ moment, lastOrder = some (some (.finite moment)) ∧
    let elapsed := Number.rounded (nowMs - moment.value)
    elapsed.isFinite = true ∧ elapsed.below 0 = false ∧
      elapsed.below limits.minOrderIntervalMs = false

def RiskCheckResult.Pass (result : RiskCheckResult) : Prop :=
  result.status = .pass

theorem pass_passed {check : String} : (RiskCheckResult.passed check).Pass := rfl

theorem not_pass_unavailable {check message : String} :
    ¬(RiskCheckResult.unavailable check message).Pass := by
  simp [RiskCheckResult.Pass, RiskCheckResult.unavailable]

theorem pass_within {check message : String} {value : Number} {threshold : ℚ} {exceeds : Bool} :
    (RiskCheckResult.within check value threshold exceeds message).Pass ↔ exceeds = false := by
  cases exceeds <;> simp [RiskCheckResult.Pass, RiskCheckResult.within]

theorem marketFacts_eq_some {nowMs : Int} {data : Option MarketDataSnapshot}
    {price ageMs : Number} : marketFacts intent nowMs data = some (price, ageMs) ↔
      ∃ snapshot moment, data = some snapshot ∧ snapshot.timestampMs = .finite moment ∧
        snapshot.symbol = intent.symbol ∧ snapshot.price = price ∧
        Number.rounded (nowMs - moment.value) = ageMs ∧ ageMs.below 0 = false := by
  unfold marketFacts
  cases data with
  | none => simp
  | some snapshot =>
      cases htime : snapshot.timestampMs with
      | nan | infinity => simp [htime]
      | finite moment =>
          simp only [htime]
          split_ifs with hsymbol hage
          · simp [hsymbol]
          · simp only [false_iff]
            rintro ⟨_, time, heq, htime', -, -, rfl, hnonneg⟩
            cases heq
            cases htime.symm.trans htime'
            exact absurd hage (Bool.not_eq_true _ ▸ hnonneg)
          · simp only [Option.some.injEq, Prod.mk.injEq]
            constructor
            · rintro ⟨rfl, rfl⟩
              exact ⟨snapshot, moment, rfl, htime, not_not.mp hsymbol, rfl, rfl,
                Bool.eq_false_iff.mpr hage⟩
            · rintro ⟨_, time, rfl, htime', -, rfl, rfl, -⟩
              cases htime.symm.trans htime'
              exact ⟨rfl, rfl⟩

theorem marketDataFreshness_pass {nowMs : Int} {data : Option MarketDataSnapshot}
    (horder : intent.action = .placeOrder) :
    (checkMarketDataFreshness intent limits nowMs data).Pass ↔ ∃ price ageMs,
      marketFacts intent nowMs data = some (price, ageMs) ∧
        ageMs.above limits.maxMarketDataAgeMs = false := by
  rw [checkMarketDataFreshness, if_neg (by simp [horder])]
  cases hfacts : marketFacts intent nowMs data with
  | none => simp [not_pass_unavailable]
  | some facts =>
      obtain ⟨price, ageMs⟩ := facts
      simp [pass_within]

theorem priceBand_pass {nowMs : Int} {data : Option MarketDataSnapshot}
    (horder : intent.action = .placeOrder) :
    (checkPriceBand intent limits nowMs data).Pass ↔ 0 < intent.number "price" ∧ ∃ price ageMs,
      marketFacts intent nowMs data = some (.finite price, ageMs) ∧ 0 < price.value ∧
      ageMs.above limits.maxMarketDataAgeMs = false ∧
      (Number.deviationBps (intent.number "price") price.value).above limits.maxPriceBandBps =
        false := by
  rw [checkPriceBand, if_neg (by simp [horder])]
  split_ifs with hprice
  · simp [not_pass_unavailable, hprice]
  · cases hfacts : marketFacts intent nowMs data with
    | none => simp [not_pass_unavailable]
    | some facts =>
        obtain ⟨price, ageMs⟩ := facts
        cases price with
        | nan | infinity => simp [not_pass_unavailable]
        | finite price =>
            dsimp only
            split_ifs with hbad
            · simp only [not_pass_unavailable, false_iff]
              rintro ⟨-, _, _, heq, hpos, hage, -⟩
              cases heq
              rcases hbad with hlow | hold
              · exact absurd hpos (not_lt.mpr hlow)
              · rw [hage] at hold
                cases hold
            · simp only [not_or, not_le, Bool.not_eq_true] at hbad
              rw [pass_within]
              simp [not_le.mp hprice, hbad.1, hbad.2]

/-- The two checks on the market together. -/
theorem market_pass {nowMs : Int} {data : Option MarketDataSnapshot}
    (horder : intent.action = .placeOrder) :
    (checkMarketDataFreshness intent limits nowMs data).Pass ∧
      (checkPriceBand intent limits nowMs data).Pass ↔
    0 < intent.number "price" ∧
      ∃ snapshot, data = some snapshot ∧ snapshot.Covers limits intent nowMs := by
  rw [marketDataFreshness_pass horder, priceBand_pass horder]
  constructor
  · rintro ⟨-, hintent, price, ageMs, hfacts, hprice, hage, hband⟩
    obtain ⟨snapshot, moment, rfl, htime, hsymbol, hreported, rfl, hnonneg⟩ :=
      marketFacts_eq_some.mp hfacts
    exact ⟨hintent, snapshot, rfl, hsymbol, ⟨moment, htime, hnonneg, hage⟩,
      ⟨price, hreported, hprice, hband⟩⟩
  · rintro ⟨hintent, snapshot, rfl, hsymbol, ⟨moment, htime, hnonneg, hage⟩,
      price, hreported, hprice, hband⟩
    have hfacts : marketFacts intent nowMs (some snapshot) =
        some (.finite price, Number.rounded (nowMs - moment.value)) :=
      marketFacts_eq_some.mpr ⟨snapshot, moment, rfl, htime, hsymbol, hreported, rfl, hnonneg⟩
    exact ⟨⟨_, _, hfacts, hage⟩, hintent, price, _, hfacts, hprice, hage, hband⟩

theorem portfolioFreshness_pass {nowMs : Int} {portfolio : Option PortfolioSnapshot}
    (horder : intent.action = .placeOrder) :
    (checkPortfolioFreshness intent limits portfolio nowMs).Pass ↔ ∃ snapshot,
      portfolio = some snapshot ∧ snapshot.account = intent.account ∧
      Fresh nowMs snapshot.timestampMs limits.maxPortfolioAgeMs := by
  unfold checkPortfolioFreshness
  rw [if_neg (by simp [horder])]
  cases portfolio with
  | none => simp [not_pass_unavailable]
  | some snapshot =>
      simp only [Option.some.injEq, exists_eq_left']
      split_ifs with haccount
      · simp [not_pass_unavailable, haccount]
      · rw [not_not] at haccount
        cases htime : snapshot.timestampMs with
        | nan | infinity => simp [not_pass_unavailable, Fresh]
        | finite moment =>
            dsimp only
            split_ifs with hage
            · simp only [not_pass_unavailable, false_iff]
              rintro ⟨-, time, heq, hnonneg, hage'⟩
              cases heq
              rw [Number.isFinite_of_between hnonneg hage', hnonneg] at hage
              cases hage
            · rw [Bool.or_eq_true, not_or, Bool.not_eq_true, Bool.not_eq_true] at hage
              rw [pass_within]
              constructor
              · exact fun h => ⟨haccount, moment, rfl, hage.2, h⟩
              · rintro ⟨-, time, heq, -, h⟩
                cases heq
                exact h

theorem positionDelta_pass {portfolio : Option PortfolioSnapshot}
    (horder : intent.action = .placeOrder) :
    (checkPositionDelta intent limits portfolio).Pass ↔ ∃ snapshot, portfolio = some snapshot ∧
      snapshot.account = intent.account ∧ ∀ position,
        snapshot.positions.find? (fun p => p.symbol == intent.symbol) = some position →
        ∃ notionalUsd, position.notionalUsd = .finite notionalUsd ∧ (notionalUsd.value = 0 ∨
          (deltaPct intent.maxNotionalUsd |notionalUsd.value|).above limits.maxPositionDeltaPct =
            false) := by
  have hfields : ¬(!intent.has "account" ∨ !intent.has "symbol" ∨ !intent.has "maxNotionalUsd") := by
    simp [order_has_account horder, order_has_symbol horder, order_has_maxNotionalUsd horder]
  unfold checkPositionDelta
  rw [if_neg hfields]
  cases portfolio with
  | none => simp [not_pass_unavailable]
  | some snapshot =>
      simp only [Option.some.injEq, exists_eq_left']
      split_ifs with haccount
      · simp [not_pass_unavailable, haccount]
      · rw [not_not] at haccount
        cases hfind : snapshot.positions.find? fun p => p.symbol == intent.symbol with
        | none => simp [pass_passed, haccount]
        | some position =>
            simp only [haccount, true_and, Option.some.injEq, forall_eq']
            cases hnotional : position.notionalUsd with
            | nan | infinity => simp [not_pass_unavailable]
            | finite notionalUsd =>
                simp only [Number.finite.injEq, exists_eq_left', abs_eq_zero]
                split_ifs with hzero
                · simp [pass_passed, hzero]
                · simp [pass_within, hzero]

/-- The two checks on the portfolio together. -/
theorem portfolio_pass {nowMs : Int} {portfolio : Option PortfolioSnapshot}
    (horder : intent.action = .placeOrder) :
    (checkPortfolioFreshness intent limits portfolio nowMs).Pass ∧
      (checkPositionDelta intent limits portfolio).Pass ↔
    ∃ snapshot, portfolio = some snapshot ∧ snapshot.Covers limits intent nowMs := by
  rw [portfolioFreshness_pass horder, positionDelta_pass horder]
  constructor
  · rintro ⟨⟨snapshot, rfl, haccount, hage⟩, _, heq, -, hdelta⟩
    cases heq
    exact ⟨snapshot, rfl, haccount, hage, hdelta⟩
  · rintro ⟨snapshot, rfl, haccount, hage, hdelta⟩
    exact ⟨⟨snapshot, rfl, haccount, hage⟩, snapshot, rfl, haccount, hdelta⟩

theorem perOrderNotional_pass (horder : intent.action = .placeOrder) :
    (checkPerOrderNotional intent limits).Pass ↔
      intent.maxNotionalUsd ≤ limits.maxNotionalUsd := by
  rw [checkPerOrderNotional, if_neg (by simp [order_has_maxNotionalUsd horder]), pass_within,
    decide_eq_false_iff_not, gt_iff_lt, not_lt]

theorem slippage_pass (horder : intent.action = .placeOrder) :
    (checkSlippage intent limits).Pass ↔
      intent.number "maxSlippageBps" ≤ limits.maxSlippageBps := by
  rw [checkSlippage, if_neg (by simp [order_has_maxSlippageBps horder])]
  simp only [pass_within, decide_eq_false_iff_not, gt_iff_lt, not_lt]

/-- A number that is compared when it is finite and not negative. -/
theorem meets_iff {n : Number} {P : ℚ → Prop} {result : Binary64.Double → RiskCheckResult}
    {negative other : RiskCheckResult} (hresult : ∀ d, (result d).Pass ↔ P d.value)
    (hnegative : ¬negative.Pass) (hother : ¬other.Pass) :
    (match n with
      | .finite d => if d.value < 0 then negative else result d
      | _ => other).Pass ↔ n.Meets P := by
  cases n with
  | nan | infinity => simp [Number.Meets, hother]
  | finite d =>
      dsimp only
      split_ifs with hd
      · simp [Number.Meets, hnegative, not_le.mpr hd]
      · simp [Number.Meets, hresult, not_lt.mp hd]

theorem dailyNotional_pass {stats : Option DailyStats} (horder : intent.action = .placeOrder) :
    (checkDailyNotional intent limits stats).Pass ↔ ∃ reported, stats = some reported ∧
      reported.totalNotionalUsd.Meets fun total =>
        AtMost (total + intent.maxNotionalUsd) limits.maxDailyNotionalUsd := by
  unfold checkDailyNotional
  rw [if_neg (by
    simp [horder, order_has_account horder, order_has_maxNotionalUsd horder])]
  cases stats with
  | none => simp [not_pass_unavailable]
  | some reported =>
      simp only [Option.some.injEq, exists_eq_left']
      exact meets_iff (fun d => pass_within) not_pass_unavailable not_pass_unavailable

theorem dailyLoss_pass {stats : Option DailyStats} (horder : intent.action = .placeOrder) :
    (checkDailyLoss intent limits stats).Pass ↔ ∃ reported, stats = some reported ∧
      reported.realizedLossUsd.Meets fun loss => loss ≤ limits.maxDailyLossUsd := by
  unfold checkDailyLoss
  rw [if_neg (by simp [horder, order_has_account horder])]
  cases stats with
  | none => simp [not_pass_unavailable]
  | some reported =>
      simp only [Option.some.injEq, exists_eq_left']
      refine meets_iff (fun d => ?_) not_pass_unavailable not_pass_unavailable
      rw [pass_within, decide_eq_false_iff_not, gt_iff_lt, not_lt]

theorem dailyOrderCount_pass {stats : Option DailyStats} (horder : intent.action = .placeOrder) :
    (checkDailyOrderCount intent limits stats).Pass ↔ ∃ reported, stats = some reported ∧
      reported.orderCount.Meets fun count => AtMost (count + 1) limits.maxOrdersPerDay := by
  unfold checkDailyOrderCount
  rw [if_neg (by simp [horder, order_has_account horder])]
  cases stats with
  | none => simp [not_pass_unavailable]
  | some reported =>
      simp only [Option.some.injEq, exists_eq_left']
      exact meets_iff (fun d => pass_within) not_pass_unavailable not_pass_unavailable

/-- The three checks on the daily statistics together. -/
theorem dailyStats_pass {stats : Option DailyStats} (horder : intent.action = .placeOrder) :
    (checkDailyNotional intent limits stats).Pass ∧ (checkDailyLoss intent limits stats).Pass ∧
      (checkDailyOrderCount intent limits stats).Pass ↔
    ∃ reported, stats = some reported ∧ reported.Covers limits intent := by
  rw [dailyNotional_pass horder, dailyLoss_pass horder, dailyOrderCount_pass horder]
  constructor
  · rintro ⟨⟨reported, rfl, hnotional⟩, ⟨_, hloss', hloss⟩, _, horders', horders⟩
    cases hloss'
    cases horders'
    exact ⟨reported, rfl, hnotional, hloss, horders⟩
  · rintro ⟨reported, rfl, hnotional, hloss, horders⟩
    exact ⟨⟨reported, rfl, hnotional⟩, ⟨reported, rfl, hloss⟩, reported, rfl, horders⟩

theorem orderFrequency_pass {nowMs : Int} {lastOrder : Option (Option Number)}
    (horder : intent.action = .placeOrder) :
    (checkOrderFrequency intent limits lastOrder nowMs).Pass ↔
      LastOrderCovers limits nowMs lastOrder := by
  unfold checkOrderFrequency
  rw [if_neg (by simp [horder, order_has_account horder])]
  unfold LastOrderCovers
  split
  · simp [pass_passed]
  · rename_i moment
    dsimp only
    split_ifs with hage
    · simp only [not_pass_unavailable, Option.some.injEq, reduceCtorEq, Number.finite.injEq,
        exists_eq_left', false_or, false_iff, not_and]
      intro hfinite hnonneg
      rw [hfinite, hnonneg] at hage
      cases hage
    · rw [Bool.or_eq_true, not_or, Bool.not_eq_true, Bool.not_eq_true, Bool.not_eq_false'] at hage
      simp only [pass_within, Option.some.injEq, Number.finite.injEq, reduceCtorEq, false_or,
        exists_eq_left', hage.1, hage.2, true_and]
  · rename_i hnone hfinite
    simp only [not_pass_unavailable, false_iff, not_or, not_exists, not_and]
    exact ⟨hnone, fun d heq => absurd heq (hfinite d)⟩

/-- What the checks demand of an order and of the facts reported about it. -/
structure RiskFacts.Cover (limits : RiskLimits) (intent : TradingIntent host) (nowMs : Int)
    (facts : RiskFacts) : Prop where
  notional : intent.maxNotionalUsd ≤ limits.maxNotionalUsd
  slippage : intent.number "maxSlippageBps" ≤ limits.maxSlippageBps
  dailyStats : ∃ stats, facts.dailyStats = some stats ∧ stats.Covers limits intent
  market : 0 < intent.number "price" ∧
    ∃ snapshot, facts.market = some snapshot ∧ snapshot.Covers limits intent nowMs
  portfolio : ∃ snapshot, facts.portfolio = some snapshot ∧ snapshot.Covers limits intent nowMs
  lastOrder : LastOrderCovers limits nowMs facts.lastOrder

def Consistent (intent : TradingIntent host) (verdict : Json) : Prop :=
  (checkEvidenceReferences intent).Pass ∧ (checkReviewerConsistency intent verdict).Pass

namespace RiskEngine

variable {engine : RiskEngine} {verdict : Json}

theorem checks_pass {facts : RiskFacts} {nowMs : Int} (horder : intent.action = .placeOrder) :
    ((engine.checks intent facts nowMs verdict).all fun check => check.status == .pass) = true ↔
      facts.Cover engine.limits intent nowMs ∧ Consistent intent verdict := by
  have hall : ∀ results : List RiskCheckResult,
      (results.all fun check => check.status == .pass) = true ↔ ∀ r ∈ results, r.Pass := by
    intro results
    simp [RiskCheckResult.Pass]
  rw [hall]
  simp only [checks, List.forall_mem_cons, List.not_mem_nil, false_imp_iff, implies_true,
    and_true]
  constructor
  · rintro ⟨hfresh, hband, hportfolio, hnotional, hdaily, hloss, hslippage, hdelta, hlast, hcount,
      hconsistent⟩
    exact ⟨⟨(perOrderNotional_pass horder).mp hnotional, (slippage_pass horder).mp hslippage,
      (dailyStats_pass horder).mp ⟨hdaily, hloss, hcount⟩,
      (market_pass horder).mp ⟨hfresh, hband⟩, (portfolio_pass horder).mp ⟨hportfolio, hdelta⟩,
      (orderFrequency_pass horder).mp hlast⟩, hconsistent⟩
  · rintro ⟨⟨hnotional, hslippage, hstats, hmarket, hportfolio, hlast⟩, hconsistent⟩
    obtain ⟨hdaily, hloss, hcount⟩ := (dailyStats_pass horder).mpr hstats
    obtain ⟨hfresh, hband⟩ := (market_pass horder).mpr hmarket
    obtain ⟨hportfolio, hdelta⟩ := (portfolio_pass horder).mpr hportfolio
    exact ⟨hfresh, hband, hportfolio, (perOrderNotional_pass horder).mpr hnotional, hdaily, hloss,
      (slippage_pass horder).mpr hslippage, hdelta, (orderFrequency_pass horder).mpr hlast, hcount,
      hconsistent⟩

end RiskEngine
end TradingGuardrails
