import TradingGuardrails.Risk.Exact

/-!
The risk engine fails closed. A passed evaluation of an order vouches for all facts together,
and lowering what the limits bound keeps it passed.
-/
namespace TradingGuardrails

open Text Interleaving

variable {host : Host} {intent : TradingIntent host} {limits : RiskLimits}

namespace RiskEngine

variable {engine : RiskEngine} {verdict : Json}

/-- An evaluation by itself: the answers that it got, and the result that it returned. -/
def Evaluates (engine : RiskEngine) (intent : TradingIntent host) (verdict : Json)
    (trace : Trace (Op host) (Ans host)) (result : Option Json) : Prop :=
  Routine.Returns (engine.evaluate intent verdict : Script host Unit (Option Json)) () trace
    result ()

def Passed (result : Option Json) : Prop :=
  (result.bind (Json.field? "passed")) = some (.bool true)

def answers (intent : TradingIntent host) (started collected evaluated : Instant)
    (stats : Option DailyStats) (market : Option MarketDataSnapshot)
    (portfolio : Option PortfolioSnapshot) (lastOrder : Option (Option Number)) :
    Trace (Op host) (Ans host) := [
  ⟨.now, started⟩,
  ⟨.getDailyStats intent.account (utcDay host started), .ok stats⟩,
  ⟨.getMarketData intent.symbol, .ok market⟩,
  ⟨.getPortfolio intent.account, .ok portfolio⟩,
  ⟨.getLastOrderTimestampMs intent.account, .ok lastOrder⟩,
  ⟨.now, collected⟩,
  ⟨.now, evaluated⟩]

theorem facts_returns {today : String} {trace : Trace (Op host) (Ans host)} {facts : RiskFacts}
    (horder : intent.action = .placeOrder) :
    Routine.Returns (RiskEngine.facts intent today : Script host Unit RiskFacts) () trace facts () ↔
      ∃ stats market portfolio lastOrder, trace = [
          ⟨.getDailyStats intent.account today, .ok stats⟩,
          ⟨.getMarketData intent.symbol, .ok market⟩,
          ⟨.getPortfolio intent.account, .ok portfolio⟩,
          ⟨.getLastOrderTimestampMs intent.account, .ok lastOrder⟩] ∧
        facts = ⟨dailyStatsFor intent today stats, market, portfolio, lastOrder⟩ := by
  rw [RiskEngine.facts, if_pos horder]
  simp only [Routine.returns_perform_bind, Routine.returns_ofExcept_bind, Routine.returns_pure]
  constructor
  · rintro ⟨_, _, rfl, stats, rfl, _, _, rfl, market, rfl, _, _, rfl, portfolio, rfl, _, _, rfl,
      lastOrder, rfl, rfl, rfl, -⟩
    exact ⟨stats, market, portfolio, lastOrder, rfl, rfl⟩
  · rintro ⟨stats, market, portfolio, lastOrder, rfl, rfl⟩
    exact ⟨_, _, rfl, stats, rfl, _, _, rfl, market, rfl, _, _, rfl, portfolio, rfl, _, _, rfl,
      lastOrder, rfl, rfl, rfl, trivial⟩

/-- An order is evaluated on one answer of each provider, within one day. -/
theorem evaluates_iff (horder : intent.action = .placeOrder) {trace : Trace (Op host) (Ans host)}
    {result : Option Json} : engine.Evaluates intent verdict trace result ↔
      ∃ started collected evaluated stats market portfolio lastOrder,
        trace = answers intent started collected evaluated stats market portfolio lastOrder ∧
        utcDay host collected = utcDay host started ∧
        result = some (riskResult host intent.intentId
          (engine.checks intent
            ⟨dailyStatsFor intent (utcDay host started) stats, market, portfolio, lastOrder⟩
            collected.ms verdict)
          (dailyStatsFor intent (utcDay host started) stats) (host.toISOString evaluated)) := by
  rw [Evaluates, RiskEngine.evaluate]
  simp only [Script.now, Routine.returns_perform_bind]
  constructor
  · rintro ⟨started, rest, rfl, hstarted⟩
    obtain ⟨first, last, facts, l₁, rfl, hfacts, hlater⟩ := Routine.returns_bind.mp hstarted
    obtain ⟨stats, market, portfolio, lastOrder, rfl, rfl⟩ := (facts_returns horder).mp hfacts
    obtain ⟨collected, last, rfl, hcollected⟩ := Routine.returns_perform_bind.mp hlater
    rcases Routine.returns_ite.mp hcollected with ⟨-, hthrows⟩ | ⟨hday, hpasses⟩
    · obtain ⟨_, _, _, _, -, hthrow, -⟩ := Routine.returns_bind.mp hthrows
      exact absurd hthrow Routine.returns_throw
    · obtain ⟨evaluated, _, rfl, hresult⟩ := Routine.returns_perform_bind.mp hpasses
      obtain ⟨rfl, rfl, -⟩ := Routine.returns_pure.mp hresult
      exact ⟨started, collected, evaluated, stats, market, portfolio, lastOrder, rfl,
        not_not.mp hday, rfl⟩
  · rintro ⟨started, collected, evaluated, stats, market, portfolio, lastOrder, rfl, hday, rfl⟩
    refine ⟨started, _, rfl, Routine.returns_bind.mpr ⟨[_, _, _, _], [_, _], _, (), rfl,
      (facts_returns horder).mpr ⟨stats, market, portfolio, lastOrder, rfl, rfl⟩, ?_⟩⟩
    refine Routine.returns_perform_bind.mpr ⟨collected, _, rfl, ?_⟩
    refine Routine.returns_ite.mpr (.inr ⟨not_not.mpr hday, ?_⟩)
    exact Routine.returns_perform_bind.mpr ⟨evaluated, [], rfl, Routine.returns_pure.mpr
      ⟨rfl, rfl, rfl⟩⟩

theorem passed_riskResult {intentId evaluatedAt : String} {checks : List RiskCheckResult}
    {stats : Option DailyStats} :
    Passed (some (riskResult host intentId checks stats evaluatedAt)) ↔
      (checks.all fun check => check.status == .pass) = true := by
  simp [Passed, riskResult]

/-- What a passed evaluation of an order vouches for: the statistics are those of the account
and of the day of the evaluation, and all facts are covered by the limits. -/
structure Vouches (engine : RiskEngine) (intent : TradingIntent host) (verdict : Json)
    (started collected : Instant) (stats : Option DailyStats) (market : Option MarketDataSnapshot)
    (portfolio : Option PortfolioSnapshot) (lastOrder : Option (Option Number)) : Prop where
  sameDay : utcDay host collected = utcDay host started
  reported : ∀ reported, stats = some reported →
    reported.account = intent.account ∧ reported.date = utcDay host started
  covered : RiskFacts.Cover engine.limits intent collected.ms ⟨stats, market, portfolio, lastOrder⟩
  consistent : Consistent intent verdict

theorem dailyStatsFor_eq_some {today : String} {stats : Option DailyStats} {reported : DailyStats} :
    dailyStatsFor intent today stats = some reported ↔
      stats = some reported ∧ reported.account = intent.account ∧ reported.date = today := by
  simp [dailyStatsFor, Option.filter_eq_some_iff]

theorem passed_iff (horder : intent.action = .placeOrder) {trace : Trace (Op host) (Ans host)} :
    (∃ result, engine.Evaluates intent verdict trace result ∧ Passed result) ↔
      ∃ started collected evaluated stats market portfolio lastOrder,
        trace = answers intent started collected evaluated stats market portfolio lastOrder ∧
        engine.Vouches intent verdict started collected stats market portfolio lastOrder := by
  constructor
  · rintro ⟨result, heval, hpassed⟩
    obtain ⟨started, collected, evaluated, stats, market, portfolio, lastOrder, rfl, hday, rfl⟩ :=
      (evaluates_iff horder).mp heval
    obtain ⟨hcover, hconsistent⟩ := (checks_pass horder).mp (passed_riskResult.mp hpassed)
    obtain ⟨reported, hreported, hcovers⟩ := hcover.dailyStats
    obtain ⟨rfl, haccount, hdate⟩ := dailyStatsFor_eq_some.mp hreported
    refine ⟨started, collected, evaluated, _, market, portfolio, lastOrder, rfl, hday, ?_,
      { hcover with dailyStats := ⟨reported, rfl, hcovers⟩ }, hconsistent⟩
    rintro _ ⟨⟩
    exact ⟨haccount, hdate⟩
  · rintro ⟨started, collected, evaluated, stats, market, portfolio, lastOrder, rfl, hvouches⟩
    refine ⟨_, (evaluates_iff horder).mpr ⟨started, collected, evaluated, stats, market, portfolio,
      lastOrder, rfl, hvouches.sameDay, rfl⟩, passed_riskResult.mpr ?_⟩
    obtain ⟨reported, rfl, hcovers⟩ := hvouches.covered.dailyStats
    have hreported : dailyStatsFor intent (utcDay host started) (some reported) = some reported :=
      dailyStatsFor_eq_some.mpr ⟨rfl, hvouches.reported _ rfl⟩
    rw [hreported]
    exact (checks_pass horder).mpr ⟨hvouches.covered, hvouches.consistent⟩

structure Lowers (intent intent' : TradingIntent host) : Prop where
  notional : intent'.maxNotionalUsd ≤ intent.maxNotionalUsd
  slippage : intent'.number "maxSlippageBps" ≤ intent.number "maxSlippageBps"
  others : ∀ key, key ≠ "maxNotionalUsd" → key ≠ "maxSlippageBps" →
    intent'.value.field? key = intent.value.field? key

def LowersNumber (n n' : Number) : Prop :=
  n' = n ∨ ∃ d d', n = .finite d ∧ n' = .finite d' ∧ 0 ≤ d'.value ∧ d'.value ≤ d.value

structure LowersStats (stats stats' : DailyStats) : Prop where
  account : stats'.account = stats.account
  date : stats'.date = stats.date
  notional : LowersNumber stats.totalNotionalUsd stats'.totalNotionalUsd
  loss : LowersNumber stats.realizedLossUsd stats'.realizedLossUsd
  orders : LowersNumber stats.orderCount stats'.orderCount

def LowersAnswer (x y : (op : Op host) × Ans host op) : Prop :=
  y = x ∨ ∃ account date stats stats', x = ⟨.getDailyStats account date, .ok (some stats)⟩ ∧
    y = ⟨.getDailyStats account date, .ok (some stats')⟩ ∧ LowersStats stats stats'

theorem LowersNumber.meets {n n' : Number} {P P' : ℚ → Prop} (h : LowersNumber n n')
    (hP : ∀ q q', q' ≤ q → P q → P' q') (hn : n.Meets P) : n'.Meets P' := by
  obtain ⟨d, rfl, hd, hPd⟩ := hn
  rcases h with rfl | ⟨_, d', heq, rfl, hd', hle⟩
  · exact ⟨d, rfl, hd, hP d.value d.value (le_refl _) hPd⟩
  · cases heq
    exact ⟨d', rfl, hd', hP d.value d'.value hle hPd⟩

namespace Lowers

variable {intent' : TradingIntent host}

theorem text (h : Lowers intent intent') {key : String} (hnotional : key ≠ "maxNotionalUsd")
    (hslippage : key ≠ "maxSlippageBps") : intent'.text key = intent.text key := by
  rw [TradingIntent.text, TradingIntent.text, textField, textField, h.others key hnotional hslippage]

theorem action (h : Lowers intent intent') : intent'.action = intent.action := by
  rw [TradingIntent.action, TradingIntent.action, h.text (by decide) (by decide)]

theorem account (h : Lowers intent intent') : intent'.account = intent.account :=
  h.text (by decide) (by decide)

theorem symbol (h : Lowers intent intent') : intent'.symbol = intent.symbol :=
  h.text (by decide) (by decide)

theorem price (h : Lowers intent intent') : intent'.number "price" = intent.number "price" := by
  rw [TradingIntent.number, TradingIntent.number, h.others _ (by decide) (by decide)]

theorem consistent (h : Lowers intent intent') {verdict : Json}
    (hconsistent : Consistent intent verdict) : Consistent intent' verdict := by
  have hevidence : intent'.evidence = intent.evidence := by
    rw [TradingIntent.evidence, TradingIntent.evidence, h.others _ (by decide) (by decide)]
  have hid : intent'.intentId = intent.intentId := h.text (by decide) (by decide)
  refine ⟨?_, ?_⟩
  · rw [checkEvidenceReferences, hevidence]
    exact hconsistent.1
  · rw [checkReviewerConsistency, hid]
    exact hconsistent.2

theorem covers_stats (h : Lowers intent intent') {stats stats' : DailyStats}
    (haccepted : limits.Accepted) (hstats : LowersStats stats stats')
    (hcovers : stats.Covers limits intent) : stats'.Covers limits intent' := by
  refine ⟨hstats.notional.meets ?_ hcovers.notional, hstats.loss.meets ?_ hcovers.loss,
    hstats.orders.meets ?_ hcovers.orders⟩
  · intro q q' hle hq
    exact Number.not_above_of_le (add_le_add hle h.notional)
      (haccepted _ (by simp [RiskLimits.values])) hq
  · exact fun q q' hle hq => hle.trans hq
  · intro q q' hle hq
    exact Number.not_above_of_le (add_le_add_left hle 1)
      (haccepted _ (by simp [RiskLimits.values])) hq

theorem covers_market (h : Lowers intent intent') {nowMs : Int} {data : MarketDataSnapshot}
    (hcovers : data.Covers limits intent nowMs) : data.Covers limits intent' nowMs := by
  refine ⟨hcovers.symbol.trans h.symbol.symm, hcovers.age, ?_⟩
  rw [h.price]
  exact hcovers.price

theorem covers_portfolio (h : Lowers intent intent') {nowMs : Int} {portfolio : PortfolioSnapshot}
    (haccepted : limits.Accepted) (hcovers : portfolio.Covers limits intent nowMs) :
    portfolio.Covers limits intent' nowMs := by
  refine ⟨hcovers.account.trans h.account.symm, hcovers.age, ?_⟩
  rw [h.symbol]
  intro position hposition
  obtain ⟨notionalUsd, hnotional, hdelta⟩ := hcovers.delta position hposition
  refine ⟨notionalUsd, hnotional, hdelta.imp_right fun hwithin => ?_⟩
  have hmono : Monotone fun q : ℚ => q * 100 := fun p q hle => by
    dsimp only
    linarith
  refine Number.andThen_not_above_of_le hmono ?_ (haccepted _ (by simp [RiskLimits.values])) hwithin
  have hlower := h.notional
  gcongr

/-- A lower request is covered by whatever covers the request. -/
theorem vouches (h : Lowers intent intent') {started collected : Instant}
    {stats stats' : DailyStats} {market : Option MarketDataSnapshot}
    {portfolio : Option PortfolioSnapshot} {lastOrder : Option (Option Number)}
    (hstats : LowersStats stats stats')
    (hvouches : engine.Vouches intent verdict started collected (some stats) market portfolio
      lastOrder) :
    engine.Vouches intent' verdict started collected (some stats') market portfolio lastOrder := by
  obtain ⟨hday, hreported, hcovered, hconsistent⟩ := hvouches
  refine ⟨hday, ?_, ⟨h.notional.trans hcovered.notional, h.slippage.trans hcovered.slippage, ?_, ?_,
    ?_, hcovered.lastOrder⟩, h.consistent hconsistent⟩
  · rintro _ ⟨⟩
    obtain ⟨haccount, hdate⟩ := hreported stats rfl
    exact ⟨(hstats.account.trans haccount).trans h.account.symm, hstats.date.trans hdate⟩
  · obtain ⟨_, heq, hcovers⟩ := hcovered.dailyStats
    cases heq
    exact ⟨stats', rfl, h.covers_stats engine.accepted hstats hcovers⟩
  · obtain ⟨hprice, snapshot, hsnapshot, hcovers⟩ := hcovered.market
    exact ⟨h.price ▸ hprice, snapshot, hsnapshot, h.covers_market hcovers⟩
  · obtain ⟨snapshot, hsnapshot, hcovers⟩ := hcovered.portfolio
    exact ⟨snapshot, hsnapshot, h.covers_portfolio engine.accepted hcovers⟩

end Lowers

theorem LowersStats.refl (stats : DailyStats) : LowersStats stats stats :=
  ⟨rfl, rfl, .inl rfl, .inl rfl, .inl rfl⟩

/-- Only the statistics of a trace can be lowered. -/
theorem answers_of_lowers {intent' : TradingIntent host} (h : Lowers intent intent')
    {started collected evaluated : Instant} {stats : DailyStats}
    {market : Option MarketDataSnapshot} {portfolio : Option PortfolioSnapshot}
    {lastOrder : Option (Option Number)} {trace' : Trace (Op host) (Ans host)}
    (hlower : List.Forall₂ LowersAnswer
      (answers intent started collected evaluated (some stats) market portfolio lastOrder) trace') :
    ∃ stats', LowersStats stats stats' ∧ trace' =
      answers intent' started collected evaluated (some stats') market portfolio lastOrder := by
  have hsame : ∀ {op : Op host} {a : Ans host op} {y}, LowersAnswer ⟨op, a⟩ y →
      (∀ account date, op ≠ .getDailyStats account date) → y = ⟨op, a⟩ := by
    rintro op a y (rfl | ⟨account, date, _, _, heq, -⟩) hop
    · rfl
    · cases heq
      exact absurd rfl (hop account date)
  simp only [answers, List.forall₂_cons_left_iff, List.forall₂_nil_left_iff] at hlower
  obtain ⟨_, _, hstarted, ⟨_, _, hstats, ⟨_, _, hmarket, ⟨_, _, hportfolio, ⟨_, _, hlast,
    ⟨_, _, hcollected, ⟨_, _, hevaluated, rfl, rfl⟩, rfl⟩, rfl⟩, rfl⟩, rfl⟩, rfl⟩, rfl⟩ := hlower
  obtain rfl := hsame hstarted (by simp)
  obtain rfl := hsame hmarket (by simp)
  obtain rfl := hsame hportfolio (by simp)
  obtain rfl := hsame hlast (by simp)
  obtain rfl := hsame hcollected (by simp)
  obtain rfl := hsame hevaluated (by simp)
  rcases hstats with rfl | ⟨account, date, reported, stats', heq, rfl, hstats⟩
  · exact ⟨stats, .refl stats, by rw [answers, h.account, h.symbol]⟩
  · cases heq
    exact ⟨stats', hstats, by rw [answers, h.account, h.symbol]⟩

end RiskEngine

/-- A passed evaluation of an order vouches for everything that the limits are about, over exact
arithmetic up to the rounding of its operations, and a lower request, or lower totals of the
day, would have passed as well. -/
theorem risk_engine_fails_closed {engine : RiskEngine} {verdict : Json}
    (horder : intent.action = .placeOrder) {trace : Trace (Op host) (Ans host)}
    {result : Option Json} (heval : engine.Evaluates intent verdict trace result)
    (hpassed : RiskEngine.Passed result) :
    (∃ started collected evaluated stats market portfolio lastOrder,
      trace = RiskEngine.answers intent started collected evaluated stats market portfolio
        lastOrder ∧
      engine.Vouches intent verdict started collected stats market portfolio lastOrder ∧
      RiskFacts.Within engine.limits intent collected.ms ⟨stats, market, portfolio, lastOrder⟩) ∧
    ∀ intent' trace', RiskEngine.Lowers intent intent' →
      List.Forall₂ RiskEngine.LowersAnswer trace trace' →
      (∃ result', engine.Evaluates intent' verdict trace' result') ∧
        ∀ result', engine.Evaluates intent' verdict trace' result' →
          RiskEngine.Passed result' := by
  obtain ⟨started, collected, evaluated, stats, market, portfolio, lastOrder, rfl, hvouches⟩ :=
    (RiskEngine.passed_iff horder).mp ⟨result, heval, hpassed⟩
  refine ⟨⟨_, _, _, _, _, _, _, rfl, hvouches, hvouches.covered.within horder engine.accepted⟩, ?_⟩
  intro intent' trace' h hlower
  obtain ⟨reported, rfl, -⟩ := hvouches.covered.dailyStats
  obtain ⟨stats', hstats, rfl⟩ := RiskEngine.answers_of_lowers h hlower
  obtain ⟨passed, heval', hpassed'⟩ := (RiskEngine.passed_iff (h.action.trans horder)).mpr
    ⟨_, _, _, _, _, _, _, rfl, h.vouches hstats hvouches⟩
  refine ⟨⟨passed, heval'⟩, fun result' hresult' => ?_⟩
  obtain rfl : passed = result' := by simpa using Program.Yields.unique heval' hresult'
  exact hpassed'

def limitJson (maxNotionalUsd : Numeral) : Json :=
  .record [
    ("intentId", some (.str "i")),
    ("principal", some (.str "p")),
    ("action", some (.str "cex.place_order")),
    ("resource", some (.str "cex:binance:a:BTC")),
    ("environment", some (.str "paper")),
    ("requestedAt", some (.str "t")),
    ("idempotencyKey", some (.str "k")),
    ("rationale", some (.str "x")),
    ("evidence", some (.arr [.str "e"])),
    ("exchange", some (.str "binance")),
    ("account", some (.str "a")),
    ("accountMode", some (.str "spot")),
    ("symbol", some (.str "BTC")),
    ("side", some (.str "buy")),
    ("orderType", some (.str "limit")),
    ("quantity", some (.num (.ofNat 1))),
    ("price", some (.num (.ofNat 5))),
    ("maxNotionalUsd", some (.num maxNotionalUsd)),
    ("maxSlippageBps", some (.num (.ofNat 5)))]

def limitOrder : TradingIntent (plainHost id fun _ => id) where
  value := limitJson (.ofNat 5)
  valid := by decide +kernel

def canaryEngine : RiskEngine where
  limits := {
    maxMarketDataAgeMs := 10000
    maxPortfolioAgeMs := 30000
    maxNotionalUsd := 10
    maxDailyNotionalUsd := 50
    maxDailyLossUsd := 25
    maxSlippageBps := 50
    maxPriceBandBps := 100
    maxPositionDeltaPct := 10
    minOrderIntervalMs := 5000
    maxOrdersPerDay := 25 }
  accepted := by decide +kernel

/-- The answers about a market that does not move, on a day with some notional so far. -/
def quietMarket (intent : TradingIntent (plainHost id fun _ => id)) (totalNotionalUsd : Number) :
    Trace (Op (plainHost id fun _ => id)) (Ans (plainHost id fun _ => id)) :=
  RiskEngine.answers intent ⟨0, by decide⟩ ⟨0, by decide⟩ ⟨0, by decide⟩
    (some ⟨"a", "p", totalNotionalUsd, .rounded 0, .rounded 0⟩)
    (some ⟨"BTC", .rounded 5, .rounded 0⟩) (some ⟨"a", .rounded 0, []⟩) (some none)

def approvedVerdict : Json :=
  .record [
    ("intentId", some (.str "i")),
    ("verdict", some (.str "approve")),
    ("detectedIssues", some (.arr []))]

theorem risk_engine_fails_closed_limitOrder : ∃ result,
    canaryEngine.Evaluates limitOrder approvedVerdict (quietMarket limitOrder (.rounded 0)) result ∧
    RiskEngine.Passed result ∧ ∀ intent' trace', RiskEngine.Lowers limitOrder intent' →
      List.Forall₂ RiskEngine.LowersAnswer (quietMarket limitOrder (.rounded 0)) trace' →
      (∃ result', canaryEngine.Evaluates intent' approvedVerdict trace' result') ∧
        ∀ result', canaryEngine.Evaluates intent' approvedVerdict trace' result' →
          RiskEngine.Passed result' := by
  have horder : limitOrder.action = .placeOrder := by decide +kernel
  obtain ⟨result, heval, hpassed⟩ : ∃ result, canaryEngine.Evaluates limitOrder approvedVerdict
      (quietMarket limitOrder (.rounded 0)) result ∧ RiskEngine.Passed result :=
    ⟨_, (RiskEngine.evaluates_iff horder).mpr ⟨_, _, _, _, _, _, _, rfl, rfl, rfl⟩,
      RiskEngine.passed_riskResult.mpr (by decide +kernel)⟩
  exact ⟨result, heval, hpassed, (risk_engine_fails_closed horder heval hpassed).2⟩

def oddNumeral : Numeral where
  text := "9.999999999999996".toList
  chars := by decide +kernel
  parts := by decide +kernel

def oddOrder : TradingIntent (plainHost id fun _ => id) where
  value := limitJson oddNumeral
  valid := by decide +kernel

def oddTotal : Binary64.Double where
  value := Binary64.round 40.00000000000001
  exact := by decide +kernel
  finite := by decide +kernel

/-- The sum lies above the limit, and is rounded to the limit. -/
theorem risk_engine_passes_above : ∃ result,
    canaryEngine.Evaluates oddOrder approvedVerdict (quietMarket oddOrder (.finite oddTotal))
      result ∧
    RiskEngine.Passed result ∧
    ¬oddTotal.value + oddOrder.maxNotionalUsd ≤ canaryEngine.limits.maxDailyNotionalUsd := by
  have horder : oddOrder.action = .placeOrder := by decide +kernel
  exact ⟨_, (RiskEngine.evaluates_iff horder).mpr ⟨_, _, _, _, _, _, _, rfl, rfl, rfl⟩,
    RiskEngine.passed_riskResult.mpr (by decide +kernel), by decide +kernel⟩

end TradingGuardrails
