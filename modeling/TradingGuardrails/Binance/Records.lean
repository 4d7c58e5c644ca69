import TradingGuardrails.Binance.RiskProvider

/-!
Which records of the exchange are accepted: each check of one record as a condition on it, and
each round of a loop over the records as a guard and a change of the state.
-/
namespace TradingGuardrails
namespace Binance
namespace RiskProvider

@[simp]
theorem ite_fail_eq_ok {α : Type} {p : Prop} [Decidable p] {message : String}
    {x : Except Thrown α} {a : α} :
    (if p then fail message else x) = .ok a ↔ ¬ p ∧ x = .ok a := by
  by_cases hp : p
  · simp [hp, fail]
  · simp [hp]

theorem finite_ok {value v : ℚ} {minimum : Option ℚ} :
    finite value minimum = .ok v ↔ (∀ m ∈ minimum, m ≤ value) ∧ value = v := by
  unfold finite
  rw [ite_fail_eq_ok, Except.ok.injEq]
  cases minimum <;> simp

theorem positive_ok {value v : ℚ} : positive value = .ok v ↔ 0 < value ∧ value = v := by
  unfold positive
  simp only [bind_eq_ok, finite_ok, ite_fail_eq_ok, Except.ok.injEq, Option.mem_some_iff,
    forall_eq']
  constructor
  · rintro ⟨w, ⟨hnonneg, rfl⟩, hne, rfl⟩
    exact ⟨lt_of_le_of_ne hnonneg (Ne.symm hne), rfl⟩
  · rintro ⟨hpositive, rfl⟩
    exact ⟨value, ⟨hpositive.le, rfl⟩, hpositive.ne', rfl⟩

def IsTime (value : ℚ) : Prop :=
  value.den = 1 ∧ value ≤ maxSafeInteger ∧ 0 ≤ value

theorem time_ok {value v : ℚ} : time value = .ok v ↔ IsTime value ∧ value = v := by
  unfold time IsTime
  simp only [ite_fail_eq_ok, Except.ok.injEq, not_or, not_not, not_lt]

theorem identifier_ok {value v : String} :
    identifier value = .ok v ↔ IntentSchema.canonicalDecimal value = true ∧ value = v := by
  unfold identifier fail
  split_ifs with h <;> simp [h]

variable (provider : RiskProvider) (history : BinanceRiskHistory)

theorem assertSymbol_ok {symbol : String} {u : Unit} :
    provider.assertSymbol symbol = .ok u ↔ symbol ∈ provider.symbols := by
  unfold assertSymbol fail
  split_ifs with h <;> simpa using h

structure ValidTrade (trade : BinanceTrade) : Prop where
  symbol : trade.symbol ∈ provider.symbols
  id : IntentSchema.canonicalDecimal trade.id = true
  orderId : IntentSchema.canonicalDecimal trade.orderId = true
  side : trade.side = "BUY" ∨ trade.side = "SELL"
  quantity : 0 < trade.quantity
  quoteQuantity : 0 < trade.quoteQuantity
  price : 0 < trade.price
  commission : 0 ≤ trade.commission
  asset : 0 < trade.commission → trade.commissionAsset ≠ ""
  timestamp : IsTime trade.timestampMs
  past : trade.timestampMs ≤ history.timestampMs
  today : provider.accountMode = .usdmFutures → provider.dayStart ≤ trade.timestampMs

theorem checkTrade_ok {seen after : Finset String} {trade : BinanceTrade} :
    provider.checkTrade history seen trade = .ok after ↔
      (provider.ValidTrade history trade ∧ tradeKey trade ∉ seen) ∧
        insert (tradeKey trade) seen = after := by
  simp only [checkTrade, bind_eq_ok, assertSymbol_ok, identifier_ok, finite_ok, positive_ok,
    time_ok, ite_fail_eq_ok, Except.ok.injEq, Option.mem_some_iff, forall_eq', exists_const]
  constructor
  · rintro ⟨hsymbol, -, ⟨hid, -⟩, -, ⟨horder, -⟩, hnew, hside, -, ⟨hquantity, -⟩, -, ⟨hquote, -⟩, -,
      ⟨hprice, -⟩, -, ⟨hcommission, -⟩, hasset, t, ⟨htime, rfl⟩, hwindow, rfl⟩
    obtain ⟨hpast, htoday⟩ := not_or.mp hwindow
    refine ⟨⟨⟨hsymbol, hid, horder, ?_, hquantity, hquote, hprice, hcommission, ?_, htime,
      not_lt.mp hpast, ?_⟩, hnew⟩, rfl⟩
    · by_contra hneither
      exact hside (not_or.mp hneither)
    · exact fun hpositive hempty => hasset ⟨hpositive, hempty⟩
    · exact fun hmode => not_lt.mp fun hearly => htoday ⟨hmode, hearly⟩
  · rintro ⟨⟨hvalid, hnew⟩, rfl⟩
    refine ⟨hvalid.symbol, _, ⟨hvalid.id, rfl⟩, _, ⟨hvalid.orderId, rfl⟩, hnew, ?_, _,
      ⟨hvalid.quantity, rfl⟩, _, ⟨hvalid.quoteQuantity, rfl⟩, _, ⟨hvalid.price, rfl⟩, _,
      ⟨hvalid.commission, rfl⟩, ?_, _, ⟨hvalid.timestamp, rfl⟩, ?_, rfl⟩
    · rintro ⟨hbuy, hsell⟩
      exact hvalid.side.elim hbuy hsell
    · exact fun h => hvalid.asset h.1 h.2
    · rintro (hlate | ⟨hmode, hearly⟩)
      · exact absurd hvalid.past (not_le.mpr hlate)
      · exact absurd (hvalid.today hmode) (not_le.mpr hearly)

/-- An order that is accepted when an earlier record of it agrees. -/
structure ValidOrder (order : BinanceHistoricalOrder) : Prop where
  symbol : order.symbol ∈ provider.symbols
  orderId : IntentSchema.canonicalDecimal order.orderId = true
  timestamp : IsTime order.timestampMs
  today : provider.dayStart ≤ order.timestampMs
  past : order.timestampMs ≤ history.timestampMs
  covered : ∃ last ∈ history.lastOrderTimestampMs, order.timestampMs ≤ last

theorem countOrder_ok {orders after : Finmap fun _ : String => ℚ}
    {order : BinanceHistoricalOrder} :
    provider.countOrder history orders order = .ok after ↔
      (provider.ValidOrder history order ∧
        ∀ previous ∈ orders.lookup (orderKey order), previous = order.timestampMs) ∧
        orders.insert (orderKey order) order.timestampMs = after := by
  simp only [countOrder, bind_eq_ok, assertSymbol_ok, identifier_ok, time_ok, ite_fail_eq_ok,
    Except.ok.injEq, exists_const]
  have hcovered : (¬ (history.lastOrderTimestampMs.all
      fun last => decide (last < order.timestampMs)) = true) ↔
        ∃ last ∈ history.lastOrderTimestampMs, order.timestampMs ≤ last := by
    cases history.lastOrderTimestampMs <;> simp
  have hagrees : (¬ ((orders.lookup (orderKey order)).any
      fun previous => previous != order.timestampMs) = true) ↔
        ∀ previous ∈ orders.lookup (orderKey order), previous = order.timestampMs := by
    cases orders.lookup (orderKey order) <;> simp
  constructor
  · rintro ⟨hsymbol, -, ⟨hid, -⟩, t, ⟨htime, rfl⟩, hwindow, hprevious, hlast, rfl⟩
    obtain ⟨htoday, hpast⟩ := not_or.mp hwindow
    exact ⟨⟨⟨hsymbol, hid, htime, not_lt.mp htoday, not_lt.mp hpast, hcovered.mp hlast⟩,
      hagrees.mp hprevious⟩, rfl⟩
  · rintro ⟨⟨hvalid, hprevious⟩, rfl⟩
    refine ⟨hvalid.symbol, _, ⟨hvalid.orderId, rfl⟩, _, ⟨hvalid.timestamp, rfl⟩, ?_,
      hagrees.mpr hprevious, hcovered.mpr hvalid.covered, rfl⟩
    exact not_or.mpr ⟨not_lt.mpr hvalid.today, not_lt.mpr hvalid.past⟩

structure ValidIncome (entry : BinanceIncome) : Prop where
  incomeType : entry.incomeType ≠ ""
  id : IntentSchema.canonicalDecimal entry.id = true
  timestamp : IsTime entry.timestampMs
  today : provider.dayStart ≤ entry.timestampMs
  past : entry.timestampMs ≤ history.timestampMs
  stable : transferType entry.incomeType = false → stable entry.asset = true

def incomeLoss (entry : BinanceIncome) : ℚ :=
  if transferType entry.incomeType then 0 else max 0 (-entry.income)

theorem bookIncome_ok {state after : Finset String × ℚ} {entry : BinanceIncome} :
    provider.bookIncome history state entry = .ok after ↔
      (provider.ValidIncome history entry ∧ incomeKey entry ∉ state.1) ∧
        (insert (incomeKey entry) state.1, state.2 + incomeLoss entry) = after := by
  simp only [bookIncome, bind_eq_ok, identifier_ok, finite_ok, time_ok, ite_fail_eq_ok]
  constructor
  · rintro ⟨htype, -, ⟨hid, -⟩, hnew, -, -, t, ⟨htime, rfl⟩, hwindow, h⟩
    obtain ⟨htoday, hpast⟩ := not_or.mp hwindow
    by_cases htransfer : transferType entry.incomeType = true
    · rw [if_pos htransfer] at h
      cases h
      refine ⟨⟨⟨htype, hid, htime, not_lt.mp htoday, not_lt.mp hpast, ?_⟩, hnew⟩, ?_⟩
      · exact fun hother => absurd htransfer (by simp [hother])
      · rw [incomeLoss, if_pos htransfer, add_zero]
    · rw [if_neg htransfer, ite_fail_eq_ok] at h
      obtain ⟨hstable, h⟩ := h
      cases h
      refine ⟨⟨⟨htype, hid, htime, not_lt.mp htoday, not_lt.mp hpast, ?_⟩, hnew⟩, ?_⟩
      · exact fun _ => by simpa using hstable
      · rw [incomeLoss, if_neg htransfer]
  · rintro ⟨⟨hvalid, hnew⟩, rfl⟩
    refine ⟨hvalid.incomeType, _, ⟨hvalid.id, rfl⟩, hnew, _, ⟨by simp, rfl⟩, _,
      ⟨hvalid.timestamp, rfl⟩, not_or.mpr ⟨not_lt.mpr hvalid.today, not_lt.mpr hvalid.past⟩, ?_⟩
    by_cases htransfer : transferType entry.incomeType = true
    · rw [if_pos htransfer, incomeLoss, if_pos htransfer, add_zero]
    · rw [if_neg htransfer, ite_fail_eq_ok, incomeLoss, if_neg htransfer]
      exact ⟨by simp [hvalid.stable (by simpa using htransfer)], rfl⟩

end RiskProvider
end Binance
end TradingGuardrails
