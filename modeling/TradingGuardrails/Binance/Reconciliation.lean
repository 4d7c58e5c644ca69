import Mathlib.Tactic.FieldSimp
import Mathlib.Tactic.Linarith
import Mathlib.Tactic.Ring
import TradingGuardrails.Binance.Number

/-!
The comparison of an order as the exchange accepted it with the order as it reports it
afterwards. A match bounds what was filled in all; the average price of a cumulative fill does
not bound the price of each part of it.
-/
namespace TradingGuardrails
namespace Binance

structure BinanceOrderResult where
  orderId : String
  symbol : String
  side : String
  status : String
  executedQty : ℚ
  avgPrice : ℚ

structure BrokerOrderStatus where
  orderId : String
  symbol : String
  side : String
  status : String
  executedQty : ℚ
  avgPrice : ℚ
  deriving DecidableEq

inductive ReconciliationStatus where
  | matched
  | discrepancy
  | unavailable
  deriving DecidableEq

structure BrokerOrderReconciliation where
  status : ReconciliationStatus
  checkedAt : String
  expected : BrokerOrderStatus
  observed : Option BrokerOrderStatus
  discrepancies : List String

def orderStatusLookupFailed : String :=
  "Binance order status lookup failed after the order was accepted."

def legalTransitions : List (String × List String) :=
  [("PENDING_NEW", ["PENDING_NEW", "NEW", "PARTIALLY_FILLED", "FILLED", "CANCELED",
      "PENDING_CANCEL", "REJECTED", "EXPIRED", "EXPIRED_IN_MATCH"]),
    ("NEW", ["NEW", "PARTIALLY_FILLED", "FILLED", "CANCELED", "PENDING_CANCEL", "REJECTED",
      "EXPIRED", "EXPIRED_IN_MATCH"]),
    ("PARTIALLY_FILLED", ["PARTIALLY_FILLED", "FILLED", "CANCELED", "PENDING_CANCEL", "EXPIRED",
      "EXPIRED_IN_MATCH"]),
    ("FILLED", ["FILLED"]),
    ("CANCELED", ["CANCELED"]),
    ("PENDING_CANCEL", ["PENDING_CANCEL", "CANCELED", "PARTIALLY_FILLED", "FILLED", "EXPIRED",
      "EXPIRED_IN_MATCH"]),
    ("REJECTED", ["REJECTED"]),
    ("EXPIRED", ["EXPIRED"]),
    ("EXPIRED_IN_MATCH", ["EXPIRED_IN_MATCH"])]

def isLegalTransition (before after : String) : Bool :=
  match legalTransitions.lookup before with
  | none => false
  | some allowed => allowed.contains after

def toBrokerOrderStatus (result : BinanceOrderResult) : BrokerOrderStatus where
  orderId := result.orderId
  symbol := result.symbol
  side := result.side
  status := result.status
  executedQty := result.executedQty
  avgPrice := result.avgPrice

def inconsistentFill (order : BrokerOrderStatus) (approvedQuantity : ℚ) : Bool :=
  if order.executedQty = 0 ∧ order.avgPrice ≠ 0 then true
  else if order.status = "FILLED" then order.executedQty != approvedQuantity
  else if order.status = "PARTIALLY_FILLED" then
    decide (order.executedQty ≤ 0 ∨ approvedQuantity ≤ order.executedQty)
  else
    (order.status == "NEW" || order.status == "PENDING_NEW" || order.status == "REJECTED") &&
      order.executedQty != 0

def priceDiscrepancy (observed : BrokerOrderStatus) (approvedPrice : ℚ) : List String :=
  if 0 < observed.executedQty then
    if observed.avgPrice ≤ 0 then ["Reconciled fill is missing an execution price."]
    else if observed.side = "BUY" ∧ approvedPrice < observed.avgPrice then
      ["Reconciled buy price exceeds the approved limit."]
    else if observed.side = "SELL" ∧ observed.avgPrice < approvedPrice then
      ["Reconciled sell price is below the approved limit."]
    else []
  else []

def discrepancyWhen (found : Bool) (text : String) : List String :=
  if found then [text] else []

def collectDiscrepancies (expected observed : BrokerOrderStatus)
    (approvedQuantity approvedPrice : ℚ) : List String :=
  discrepancyWhen (observed.orderId != expected.orderId)
      "Reconciled order identity does not match the accepted order." ++
    discrepancyWhen (observed.symbol != expected.symbol)
      "Reconciled order symbol does not match the accepted order." ++
    discrepancyWhen (observed.side != expected.side)
      "Reconciled order side does not match the accepted order." ++
    discrepancyWhen (!isLegalTransition expected.status observed.status)
      "Reconciled order status is not a legal advancement of the accepted order." ++
    discrepancyWhen (approvedQuantity < expected.executedQty)
      "Accepted filled quantity exceeds the approved quantity." ++
    discrepancyWhen (observed.executedQty < expected.executedQty)
      "Reconciled filled quantity decreased after the order was accepted." ++
    discrepancyWhen (approvedQuantity < observed.executedQty)
      "Reconciled filled quantity exceeds the approved quantity." ++
    discrepancyWhen (inconsistentFill expected approvedQuantity)
      "Accepted order status is inconsistent with its fill." ++
    discrepancyWhen (inconsistentFill observed approvedQuantity)
      "Reconciled order status is inconsistent with its fill." ++
    discrepancyWhen (observed.executedQty == expected.executedQty &&
        observed.avgPrice != expected.avgPrice)
      "Reconciled average price changed without an additional fill." ++
    priceDiscrepancy observed approvedPrice

/-- The parameters of a reconciliation; `checkedAt` defaults to the clock's time. -/
structure ReconciliationParams where
  acknowledged : BinanceOrderResult
  observed : Option BinanceOrderResult
  lookupFailed : Option Bool
  approvedQuantity : ℚ
  approvedPrice : ℚ
  checkedAt : Option String

def reconcileAcceptedOrder (now : String) (params : ReconciliationParams) :
    BrokerOrderReconciliation :=
  let expected := toBrokerOrderStatus params.acknowledged
  let checkedAt := params.checkedAt.getD now
  match params.lookupFailed.getD false, params.observed with
  | false, some observed =>
      let observed := toBrokerOrderStatus observed
      let discrepancies := collectDiscrepancies expected observed params.approvedQuantity
        params.approvedPrice
      ⟨if discrepancies.isEmpty then .matched else .discrepancy, checkedAt, expected,
        some observed, discrepancies⟩
  | _, _ => ⟨.unavailable, checkedAt, expected, none, [orderStatusLookupFailed]⟩

def Within (side : String) (limit price : ℚ) : Prop :=
  (side = "BUY" → price ≤ limit) ∧ (side = "SELL" → limit ≤ price)

def addedPrice (acknowledged observed : BinanceOrderResult) : ℚ :=
  (observed.executedQty * observed.avgPrice - acknowledged.executedQty * acknowledged.avgPrice) /
    (observed.executedQty - acknowledged.executedQty)

structure Agrees (approvedQuantity : ℚ) (order : BinanceOrderResult) : Prop where
  unfilled : order.executedQty = 0 → order.avgPrice = 0
  filled : order.status = "FILLED" → order.executedQty = approvedQuantity
  partly : order.status = "PARTIALLY_FILLED" →
    0 < order.executedQty ∧ order.executedQty < approvedQuantity
  untouched : order.status ∈ ["NEW", "PENDING_NEW", "REJECTED"] → order.executedQty = 0

/-- Two snapshots of one order, filled as far as was approved. -/
structure Advanced (approvedQuantity : ℚ) (acknowledged observed : BinanceOrderResult) :
    Prop where
  orderId : observed.orderId = acknowledged.orderId
  symbol : observed.symbol = acknowledged.symbol
  side : observed.side = acknowledged.side
  legal : isLegalTransition acknowledged.status observed.status = true
  grown : acknowledged.executedQty ≤ observed.executedQty
  approved : observed.executedQty ≤ approvedQuantity
  accepted : Agrees approvedQuantity acknowledged
  reconciled : Agrees approvedQuantity observed

/-- The fill as a whole is within the limit, and so is one of its two parts. -/
structure Priced (approvedPrice : ℚ) (acknowledged observed : BinanceOrderResult) : Prop where
  whole : 0 < observed.executedQty → 0 < observed.avgPrice ∧
    Within observed.side approvedPrice observed.avgPrice
  unmoved : observed.executedQty = acknowledged.executedQty →
    observed.avgPrice = acknowledged.avgPrice
  first : acknowledged.executedQty = 0 → 0 < observed.executedQty →
    addedPrice acknowledged observed = observed.avgPrice
  either : 0 < acknowledged.executedQty → acknowledged.executedQty < observed.executedQty →
    Within observed.side approvedPrice acknowledged.avgPrice ∨
      Within observed.side approvedPrice (addedPrice acknowledged observed)

@[simp]
theorem discrepancyWhen_eq_nil {found : Bool} {text : String} :
    discrepancyWhen found text = [] ↔ found = false := by
  cases found <;> simp [discrepancyWhen]

theorem agrees_of_consistent {order : BinanceOrderResult} {approvedQuantity : ℚ}
    (h : inconsistentFill (toBrokerOrderStatus order) approvedQuantity = false) :
    Agrees approvedQuantity order := by
  unfold inconsistentFill toBrokerOrderStatus at h
  by_cases hempty : order.executedQty = 0 ∧ order.avgPrice ≠ 0
  · rw [if_pos hempty] at h
    cases h
  · rw [if_neg hempty] at h
    refine ⟨fun hzero => by_contra fun hprice => hempty ⟨hzero, hprice⟩, ?_, ?_, ?_⟩
    · intro hstatus
      simpa [hstatus] using h
    · intro hstatus
      simpa [hstatus] using h
    · intro hstatus
      simp only [List.mem_cons, List.not_mem_nil, or_false] at hstatus
      obtain hstatus | hstatus | hstatus := hstatus <;> simpa [hstatus] using h

theorem within_of_priceDiscrepancy {order : BinanceOrderResult} {approvedPrice : ℚ}
    (h : priceDiscrepancy (toBrokerOrderStatus order) approvedPrice = [])
    (hfilled : 0 < order.executedQty) :
    0 < order.avgPrice ∧ Within order.side approvedPrice order.avgPrice := by
  unfold priceDiscrepancy toBrokerOrderStatus at h
  rw [if_pos hfilled] at h
  by_cases hmissing : order.avgPrice ≤ 0
  · simp [hmissing] at h
  · rw [if_neg hmissing] at h
    refine ⟨lt_of_not_ge hmissing, fun hbuy => ?_, fun hsell => ?_⟩
    · by_contra hprice
      simp [hbuy, lt_of_not_ge hprice] at h
    · by_contra hprice
      simp [hsell, lt_of_not_ge hprice] at h

/-- Of two parts of a fill one is no dearer than the whole, and one is no cheaper. -/
theorem within_part {side : String} {limit quantity added price addedPrice average : ℚ}
    (hquantity : 0 < quantity) (hadded : 0 < added)
    (hsum : quantity * price + added * addedPrice = (quantity + added) * average)
    (h : Within side limit average) : Within side limit price ∨ Within side limit addedPrice := by
  by_cases hbuy : side = "BUY"
  · have haverage := h.1 hbuy
    have hother : ∀ p : ℚ, p ≤ limit → Within side limit p := fun p hp =>
      ⟨fun _ => hp, fun hsell => absurd (hbuy.symm.trans hsell) (by decide)⟩
    by_cases hprice : price ≤ limit
    · exact Or.inl (hother price hprice)
    · refine Or.inr (hother addedPrice ?_)
      by_contra hdear
      have hfirst := mul_lt_mul_of_pos_left (lt_of_not_ge hprice) hquantity
      have hsecond := mul_lt_mul_of_pos_left (lt_of_not_ge hdear) hadded
      have hwhole := mul_le_mul_of_nonneg_left haverage (add_pos hquantity hadded).le
      linarith
  · have hother : ∀ p : ℚ, (side = "SELL" → limit ≤ p) → Within side limit p := fun p hp =>
      ⟨fun hside => absurd hside hbuy, hp⟩
    by_cases hprice : side = "SELL" → limit ≤ price
    · exact Or.inl (hother price hprice)
    · obtain ⟨hsell, hcheap⟩ := Classical.not_imp.mp hprice
      refine Or.inr (hother addedPrice fun _ => ?_)
      by_contra hcheaper
      have hfirst := mul_lt_mul_of_pos_left (lt_of_not_ge hcheap) hquantity
      have hsecond := mul_lt_mul_of_pos_left (lt_of_not_ge hcheaper) hadded
      have hwhole := mul_le_mul_of_nonneg_left (h.2 hsell) (add_pos hquantity hadded).le
      linarith

/-- A match is reported only on an empty list of discrepancies. -/
theorem matched_cases {now : String} {params : ReconciliationParams}
    (h : (reconcileAcceptedOrder now params).status = .matched) :
    ∃ observed, params.observed = some observed ∧
      collectDiscrepancies (toBrokerOrderStatus params.acknowledged) (toBrokerOrderStatus observed)
        params.approvedQuantity params.approvedPrice = [] := by
  unfold reconcileAcceptedOrder at h
  cases hfailed : params.lookupFailed.getD false with
  | true => simp [hfailed] at h
  | false =>
      cases hobserved : params.observed with
      | none => simp [hfailed, hobserved] at h
      | some observed =>
          refine ⟨observed, rfl, ?_⟩
          simp only [hfailed, hobserved] at h
          by_contra hne
          rw [List.isEmpty_eq_false_iff.mpr hne] at h
          cases h

section

variable {acknowledged observed : BinanceOrderResult} {approvedQuantity approvedPrice : ℚ}

theorem advanced_of_collect (h : collectDiscrepancies (toBrokerOrderStatus acknowledged)
    (toBrokerOrderStatus observed) approvedQuantity approvedPrice = []) :
    Advanced approvedQuantity acknowledged observed := by
  simp only [collectDiscrepancies, List.append_eq_nil_iff, discrepancyWhen_eq_nil] at h
  obtain ⟨⟨⟨⟨⟨⟨⟨⟨⟨⟨horder, hsymbol⟩, hside⟩, hlegal⟩, -⟩, hgrown⟩, happroved⟩, haccepted⟩,
    hreconciled⟩, -⟩, -⟩ := h
  exact {
    orderId := by simpa [toBrokerOrderStatus] using horder
    symbol := by simpa [toBrokerOrderStatus] using hsymbol
    side := by simpa [toBrokerOrderStatus] using hside
    legal := by simpa [toBrokerOrderStatus] using hlegal
    grown := not_lt.mp (of_decide_eq_false hgrown)
    approved := not_lt.mp (of_decide_eq_false happroved)
    accepted := agrees_of_consistent haccepted
    reconciled := agrees_of_consistent hreconciled }

theorem priced_of_collect (h : collectDiscrepancies (toBrokerOrderStatus acknowledged)
    (toBrokerOrderStatus observed) approvedQuantity approvedPrice = []) :
    Priced approvedPrice acknowledged observed := by
  simp only [collectDiscrepancies, List.append_eq_nil_iff, discrepancyWhen_eq_nil] at h
  obtain ⟨⟨-, hunmoved⟩, hprice⟩ := h
  refine ⟨within_of_priceDiscrepancy hprice, ?_, ?_, ?_⟩
  · intro hsame
    simpa [toBrokerOrderStatus, hsame] using hunmoved
  · intro hempty hfilled
    rw [addedPrice, hempty, zero_mul, sub_zero, sub_zero, mul_div_cancel_left₀ _ hfilled.ne']
  · intro hfilled hgrown
    have hadded : 0 < observed.executedQty - acknowledged.executedQty := sub_pos.mpr hgrown
    refine within_part hfilled hadded ?_ (within_of_priceDiscrepancy hprice
      (hfilled.trans hgrown)).2
    rw [addedPrice, mul_div_cancel₀ _ hadded.ne']
    ring

end

def acknowledgedBuy (avgPrice : ℚ) : BinanceOrderResult :=
  ⟨"42", "ETH-USDC", "BUY", "PARTIALLY_FILLED", 1, avgPrice⟩

def observedBuy : BinanceOrderResult :=
  ⟨"42", "ETH-USDC", "BUY", "PARTIALLY_FILLED", 2, 100⟩

def buyParams (avgPrice : ℚ) : ReconciliationParams :=
  ⟨acknowledgedBuy avgPrice, some observedBuy, none, 3, 100, some "2026-01-01T00:00:00.000Z"⟩

/-- A match may hide a unit bought above the limit, after the acknowledgement or before it. -/
theorem matched_above_limit :
    (reconcileAcceptedOrder "" (buyParams 50)).status = .matched ∧
      ¬ Within "BUY" 100 (addedPrice (acknowledgedBuy 50) observedBuy) ∧
      (reconcileAcceptedOrder "" (buyParams 200)).status = .matched ∧
      ¬ Within "BUY" 100 (acknowledgedBuy 200).avgPrice ∧
      ¬ 0 < addedPrice (acknowledgedBuy 200) observedBuy := by
  refine ⟨by decide +kernel, fun h => ?_, by decide +kernel, fun h => ?_, by decide +kernel⟩
  · exact absurd (h.1 rfl) (by decide +kernel)
  · exact absurd (h.1 rfl) (by decide +kernel)

/-- A matched order was filled within the approval as a whole: the average price is within the
limit, and so is the price of what was acknowledged or of what was added to it. -/
theorem reconcileAcceptedOrder_matched (now : String) (params : ReconciliationParams)
    (h : (reconcileAcceptedOrder now params).status = .matched) :
    ∃ observed, params.observed = some observed ∧
      Advanced params.approvedQuantity params.acknowledged observed ∧
      Priced params.approvedPrice params.acknowledged observed := by
  obtain ⟨observed, hobserved, hcollect⟩ := matched_cases h
  exact ⟨observed, hobserved, advanced_of_collect hcollect, priced_of_collect hcollect⟩

theorem reconcileAcceptedOrder_matched_buy :
    Advanced 3 (acknowledgedBuy 50) observedBuy ∧ Priced 100 (acknowledgedBuy 50) observedBuy := by
  obtain ⟨observed, hobserved, hadvanced, hpriced⟩ :=
    reconcileAcceptedOrder_matched "" (buyParams 50) (by decide +kernel)
  cases hobserved
  exact ⟨hadvanced, hpriced⟩

end Binance
end TradingGuardrails
