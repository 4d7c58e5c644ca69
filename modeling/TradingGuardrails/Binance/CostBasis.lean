import TradingGuardrails.Binance.Records

/-!
What the replay of spot trades conserves, in exact arithmetic and without tolerance: for every
base asset, what was paid is charged to sales or still in the lot, and what was bought and not
sold is still held. The losses of a day are no less than its sales have lost in all.
-/
namespace TradingGuardrails
namespace Binance
namespace RiskProvider

def exact (_ _ : ℚ) : ℚ := 0

variable (provider : RiskProvider)

def tradeBase (trade : BinanceTrade) : Option String :=
  (assetPair trade.symbol).toOption.map Prod.fst

def buys (base : String) (trades : List BinanceTrade) : List BinanceTrade :=
  trades.filter fun trade => trade.side == "BUY" && tradeBase trade == some base

def sales (base : String) (trades : List BinanceTrade) : List BinanceTrade :=
  trades.filter fun trade => trade.side == "SELL" && tradeBase trade == some base

def paid (base : String) (trades : List BinanceTrade) : ℚ :=
  ((buys base trades).map fun trade => trade.quoteQuantity + quoteFee trade).sum

def gained (base : String) (trades : List BinanceTrade) : ℚ :=
  ((buys base trades).map fun trade => trade.quantity - baseFee base trade).sum

def taken (base : String) (trades : List BinanceTrade) : ℚ :=
  ((sales base trades).map (spent base)).sum

structure Charge where
  base : String
  trade : BinanceTrade
  cost : ℚ

def charge (books : Books) (trade : BinanceTrade) : List Charge :=
  match tradeBase trade with
  | some base =>
      if trade.side = "SELL" then [⟨base, trade, saleCost base (books.lot base) trade⟩] else []
  | none => []

def charges (books : Books) : List BinanceTrade → List Charge
  | [] => []
  | trade :: trades => charge books trade ++
      match provider.bookTrade exact books trade with
      | .ok after => charges after trades
      | .error _ => []

def costOfSales (base : String) (charged : List Charge) : ℚ :=
  ((charged.filter fun c => c.base == base).map Charge.cost).sum

def dayShortfall (charged : List Charge) : ℚ :=
  ((charged.filter fun c => decide (provider.dayStart ≤ c.trade.timestampMs)).map
    fun c => c.cost - proceeds c.trade).sum

/-- A lot is never negative, and costs nothing when it is empty. -/
structure Lot.Sound (lot : Lot) : Prop where
  quantity : 0 ≤ lot.quantity
  cost : 0 ≤ lot.cost
  empty : lot.quantity = 0 → lot.cost = 0

theorem sound_empty : Lot.Sound ⟨0, 0⟩ :=
  ⟨le_refl 0, le_refl 0, fun _ => rfl⟩

structure Booked (base : String) (trade : BinanceTrade) (lot after : Lot) : Prop where
  sound : after.Sound
  bought : trade.side = "BUY" →
    after.quantity = lot.quantity + (trade.quantity - baseFee base trade) ∧
      after.cost = lot.cost + (trade.quoteQuantity + quoteFee trade)
  sold : trade.side ≠ "BUY" → after.quantity = lot.quantity - spent base trade ∧
    after.cost = lot.cost - saleCost base lot trade

theorem buy_booked {base : String} {lot after : Lot} {trade : BinanceTrade}
    (h : buy base lot trade = .ok after) :
    after.quantity = lot.quantity + (trade.quantity - baseFee base trade) ∧
      after.cost = lot.cost + (trade.quoteQuantity + quoteFee trade) ∧
      lot.quantity < after.quantity := by
  unfold buy at h
  obtain ⟨gain, hgain, h⟩ := bind_eq_ok.mp h
  obtain ⟨hpositive, rfl⟩ := positive_ok.mp hgain
  cases h
  exact ⟨rfl, rfl, lt_add_of_pos_right _ hpositive⟩

/-- A sale takes the average cost of what it takes; a sale of all takes all of the cost. -/
theorem sell_booked {base : String} {lot after : Lot} {trade : BinanceTrade}
    (h : sell exact base lot trade = .ok after) :
    after.quantity = lot.quantity - spent base trade ∧
      after.cost = lot.cost - saleCost base lot trade ∧
      (after.quantity = 0 → after.cost = 0) := by
  unfold sell at h
  by_cases hshort : lot.quantity ≤ 0 ∨
      exact (spent base trade) lot.quantity < spent base trade - lot.quantity
  · rw [if_pos hshort] at h
    cases h
  · rw [if_neg hshort] at h
    obtain ⟨hquantity, hcovered⟩ := not_or.mp hshort
    have hpositive : 0 < lot.quantity := not_le.mp hquantity
    have hcovered : spent base trade ≤ lot.quantity := sub_nonpos.mp (not_lt.mp hcovered)
    by_cases hout : lot.quantity - spent base trade ≤ 0
    · rw [if_pos hout] at h
      cases h
      have hall : spent base trade = lot.quantity := le_antisymm hcovered (sub_nonpos.mp hout)
      refine ⟨by rw [hall, sub_self], ?_, fun _ => rfl⟩
      rw [saleCost, hall, div_self hpositive.ne', mul_one, sub_self]
    · rw [if_neg hout] at h
      cases h
      exact ⟨rfl, rfl, fun hzero => absurd hzero (not_le.mp hout).ne'⟩

theorem tradeLot_booked {base : String} {lot after : Lot} {trade : BinanceTrade}
    (hlot : lot.Sound) (h : tradeLot exact base lot trade = .ok after) :
    Booked base trade lot after := by
  obtain ⟨booked, hbooked, hchecked⟩ := bind_eq_ok.mp h
  obtain ⟨quantity, hquantity, hchecked⟩ := bind_eq_ok.mp hchecked
  obtain ⟨cost, hcost, hchecked⟩ := bind_eq_ok.mp hchecked
  cases hchecked
  unfold moveLot at hbooked
  by_cases hfee : 0 < trade.commission ∧ baseFee base trade = 0 ∧ quoteFee trade = 0
  · rw [if_pos hfee] at hbooked
    cases hbooked
  · rw [if_neg hfee] at hbooked
    have hnonneg := (finite_ok.mp hquantity).1 0 rfl
    have hcost := (finite_ok.mp hcost).1 0 rfl
    by_cases hside : trade.side = "BUY"
    · rw [if_pos hside] at hbooked
      obtain ⟨hq, hc, hgrown⟩ := buy_booked hbooked
      have hfilled := lt_of_le_of_lt hlot.quantity hgrown
      exact ⟨⟨hnonneg, hcost, fun hzero => absurd hzero hfilled.ne'⟩, fun _ => ⟨hq, hc⟩,
        fun hsell => absurd hside hsell⟩
    · rw [if_neg hside] at hbooked
      obtain ⟨hq, hc, hempty⟩ := sell_booked hbooked
      exact ⟨⟨hnonneg, hcost, hempty⟩, fun hbuy => absurd hbuy hside, fun _ => ⟨hq, hc⟩⟩

/-- A trade is booked under its base asset, and under no other. -/
structure Replayed (books after : Books) (trade : BinanceTrade) (base : String) : Prop where
  booked : tradeBase trade = some base
  here : Booked base trade (books.lot base) (after.lot base)
  elsewhere : ∀ other ≠ base, after.lot other = books.lot other
  loss : after.loss = books.loss + provider.tradeLoss base (books.lot base) trade

theorem bookTrade_replayed {books after : Books} {trade : BinanceTrade}
    (hbooks : ∀ base, (books.lot base).Sound)
    (h : provider.bookTrade exact books trade = .ok after) :
    ∃ base, provider.Replayed books after trade base := by
  unfold bookTrade at h
  obtain ⟨⟨base, quote⟩, hpair, h⟩ := bind_eq_ok.mp h
  obtain ⟨lot, hlot, h⟩ := bind_eq_ok.mp h
  cases h
  refine ⟨base, by rw [tradeBase, hpair]; rfl, ?_, ?_, rfl⟩
  · have hhere : (⟨books.lots.insert base lot, books.loss +
        provider.tradeLoss base (books.lot base) trade⟩ : Books).lot base = lot := by
      rw [Books.lot, Finmap.lookup_insert, Option.getD_some]
    rw [hhere]
    exact tradeLot_booked (hbooks base) hlot
  · intro other hother
    rw [Books.lot, Finmap.lookup_insert_of_ne _ hother]
    rfl

theorem Replayed.sound {provider : RiskProvider} {books after : Books} {trade : BinanceTrade}
    {base : String} (h : provider.Replayed books after trade base)
    (hbooks : ∀ base, (books.lot base).Sound) (other : String) : (after.lot other).Sound := by
  by_cases hother : other = base
  · rw [hother]
    exact h.here.sound
  · rw [h.elsewhere other hother]
    exact hbooks other

/-- Every lot is sound in the books that a replay reaches. -/
theorem replayed_sound {trades : List BinanceTrade} {books after : Books}
    (hbooks : ∀ base, (books.lot base).Sound)
    (h : trades.foldlM (provider.bookTrade exact) books = .ok after) :
    ∀ base, (after.lot base).Sound := by
  refine Replay.foldlM_invariant (P := fun books => ∀ base, (books.lot base).Sound) h hbooks
    fun s trade _ s' hs hstep => ?_
  obtain ⟨base, hreplayed⟩ := provider.bookTrade_replayed hs hstep
  exact hreplayed.sound hs

theorem paid_cons (base : String) (trade : BinanceTrade) (trades : List BinanceTrade) :
    paid base (trade :: trades) = (if trade.side = "BUY" ∧ tradeBase trade = some base then
      trade.quoteQuantity + quoteFee trade else 0) + paid base trades := by
  unfold paid buys
  rw [List.filter_cons]
  split_ifs <;> simp_all

theorem gained_cons (base : String) (trade : BinanceTrade) (trades : List BinanceTrade) :
    gained base (trade :: trades) = (if trade.side = "BUY" ∧ tradeBase trade = some base then
      trade.quantity - baseFee base trade else 0) + gained base trades := by
  unfold gained buys
  rw [List.filter_cons]
  split_ifs <;> simp_all

theorem taken_cons (base : String) (trade : BinanceTrade) (trades : List BinanceTrade) :
    taken base (trade :: trades) = (if trade.side = "SELL" ∧ tradeBase trade = some base then
      spent base trade else 0) + taken base trades := by
  unfold taken sales
  rw [List.filter_cons]
  split_ifs <;> simp_all

theorem costOfSales_append (base : String) (first rest : List Charge) :
    costOfSales base (first ++ rest) = costOfSales base first + costOfSales base rest := by
  rw [costOfSales, List.filter_append, List.map_append, List.sum_append]
  rfl

theorem dayShortfall_append (first rest : List Charge) :
    provider.dayShortfall (first ++ rest) =
      provider.dayShortfall first + provider.dayShortfall rest := by
  rw [dayShortfall, List.filter_append, List.map_append, List.sum_append]
  rfl

structure Conserved (books after : Books) (trades : List BinanceTrade) (charged : List Charge) :
    Prop where
  cost : ∀ base, (books.lot base).cost + paid base trades =
    costOfSales base charged + (after.lot base).cost
  quantity : ∀ base, (books.lot base).quantity + gained base trades - taken base trades =
    (after.lot base).quantity
  grows : books.loss ≤ after.loss
  loss : books.loss + provider.dayShortfall charged ≤ after.loss

theorem conserved_nil (books : Books) : provider.Conserved books books [] [] := by
  refine ⟨fun base => ?_, fun base => ?_, le_refl _, ?_⟩
  · simp [paid, buys, costOfSales]
  · simp [gained, buys, taken, sales]
  · simp [dayShortfall]

variable {provider} {books mid after : Books} {trade : BinanceTrade}
  {trades : List BinanceTrade} {charged : List Charge} {base : String}

theorem charge_buy (hside : trade.side = "BUY") : charge books trade = [] := by
  unfold charge
  split
  · rw [if_neg (by simp [hside])]
  · rfl

theorem charge_sell (hside : trade.side = "SELL") (hbase : tradeBase trade = some base) :
    charge books trade = [⟨base, trade, saleCost base (books.lot base) trade⟩] := by
  unfold charge
  rw [hbase]
  exact if_pos hside

theorem Replayed.buy (h : provider.Replayed books mid trade base) (hside : trade.side = "BUY") :
    provider.Conserved books mid [trade] (charge books trade) := by
  obtain ⟨hquantity, hcost⟩ := h.here.bought hside
  have hloss : mid.loss = books.loss := by
    rw [h.loss, tradeLoss, if_neg (fun hsell => hsell.1 hside), add_zero]
  rw [charge_buy hside]
  refine ⟨fun other => ?_, fun other => ?_, hloss.ge, ?_⟩
  · rw [paid_cons]
    by_cases hother : other = base
    · rw [hother, hcost, if_pos ⟨hside, h.booked⟩]
      simp [paid, buys, costOfSales]
    · rw [h.elsewhere other hother, if_neg (by simp [h.booked, Ne.symm hother])]
      simp [paid, buys, costOfSales]
  · have hsell : ¬ (trade.side = "SELL" ∧ tradeBase trade = some other) :=
      fun hsell => absurd (hside.symm.trans hsell.1) (by decide)
    rw [gained_cons, taken_cons, if_neg hsell]
    by_cases hother : other = base
    · rw [hother, hquantity, if_pos ⟨hside, h.booked⟩]
      simp [gained, buys, taken, sales]
    · rw [h.elsewhere other hother, if_neg (by simp [h.booked, Ne.symm hother])]
      simp [gained, buys, taken, sales]
  · rw [hloss, dayShortfall]
    simp

theorem Replayed.sell (h : provider.Replayed books mid trade base) (hside : trade.side = "SELL") :
    provider.Conserved books mid [trade] (charge books trade) := by
  have hnot : trade.side ≠ "BUY" := by
    rw [hside]
    decide
  obtain ⟨hquantity, hcost⟩ := h.here.sold hnot
  have hgrown : 0 ≤ provider.tradeLoss base (books.lot base) trade := by
    unfold tradeLoss
    split_ifs
    · exact le_max_left _ _
    · exact le_refl 0
  rw [charge_sell hside h.booked]
  refine ⟨fun other => ?_, fun other => ?_, ?_, ?_⟩
  · rw [paid_cons, if_neg (fun hbuy => hnot hbuy.1)]
    by_cases hother : other = base
    · rw [hother, hcost]
      simp [paid, buys, costOfSales]
    · rw [h.elsewhere other hother]
      simp [paid, buys, costOfSales, Ne.symm hother]
  · rw [gained_cons, taken_cons, if_neg (fun hbuy => hnot hbuy.1)]
    by_cases hother : other = base
    · rw [hother, hquantity, if_pos ⟨hside, h.booked⟩]
      simp [gained, buys, taken, sales]
    · rw [h.elsewhere other hother, if_neg (by simp [h.booked, Ne.symm hother])]
      simp [gained, buys, taken, sales]
  · rw [h.loss]
    exact le_add_of_nonneg_right hgrown
  · rw [h.loss]
    refine add_le_add_right ?_ _
    unfold dayShortfall tradeLoss
    by_cases htoday : provider.dayStart ≤ trade.timestampMs
    · rw [if_pos ⟨hnot, htoday⟩]
      simp [htoday]
    · rw [if_neg (fun h => htoday h.2)]
      simp [htoday]

theorem Conserved.cons (h : provider.Conserved books mid [trade] (charge books trade))
    (hrest : provider.Conserved mid after trades charged) :
    provider.Conserved books after (trade :: trades) (charge books trade ++ charged) := by
  refine ⟨fun other => ?_, fun other => ?_, h.grows.trans hrest.grows, ?_⟩
  · have hfirst := h.cost other
    have hlater := hrest.cost other
    rw [paid_cons] at hfirst ⊢
    rw [costOfSales_append]
    simp only [paid, buys, List.filter_nil, List.map_nil, List.sum_nil] at hfirst
    unfold paid buys at hlater ⊢
    linarith
  · have hfirst := h.quantity other
    have hlater := hrest.quantity other
    rw [gained_cons, taken_cons] at hfirst ⊢
    simp only [gained, buys, taken, sales, List.filter_nil, List.map_nil, List.sum_nil] at hfirst
    unfold gained buys taken sales at hlater ⊢
    linarith
  · have hfirst := h.loss
    have hlater := hrest.loss
    rw [dayShortfall_append]
    linarith

/-- Induction on the trades of the replay, from any books whose lots are sound. -/
theorem replay_conserved (hsides : ∀ trade ∈ trades, trade.side = "BUY" ∨ trade.side = "SELL")
    (hbooks : ∀ base, (books.lot base).Sound)
    (h : trades.foldlM (provider.bookTrade exact) books = .ok after) :
    provider.Conserved books after trades (provider.charges books trades) := by
  induction trades generalizing books with
  | nil =>
      cases h
      exact provider.conserved_nil _
  | cons trade trades ih =>
      rw [List.foldlM_cons] at h
      obtain ⟨mid, hmid, h⟩ := bind_eq_ok.mp h
      obtain ⟨base, hreplayed⟩ := provider.bookTrade_replayed hbooks hmid
      have hrest := ih (fun t ht => hsides t (List.mem_cons_of_mem _ ht))
        (hreplayed.sound hbooks) h
      have hfirst : provider.Conserved books mid [trade] (charge books trade) :=
        (hsides trade List.mem_cons_self).elim hreplayed.buy hreplayed.sell
      rw [charges, hmid]
      exact hfirst.cons hrest

theorem sides_of_validated {history : BinanceRiskHistory}
    (h : provider.validateTrades history = .ok trades) :
    trades = history.trades ∧ ∀ trade ∈ trades, trade.side = "BUY" ∨ trade.side = "SELL" := by
  obtain ⟨seen, hseen, h⟩ := bind_eq_ok.mp h
  cases h
  refine ⟨rfl, Replay.foldlM_forall hseen fun s trade s' hstep => ?_⟩
  exact ((provider.checkTrade_ok history).mp hstep).1.1.side

theorem spotLoss_ok {snapshot : BinanceAccountSnapshot} {history : BinanceRiskHistory} {loss : ℚ}
    (h : provider.spotLoss exact trades snapshot history = .ok loss) :
    ∃ books, provider.replay exact trades = .ok books ∧ books.loss = loss ∧
      ∀ pair ∈ provider.bases, (books.lot pair.1).quantity = held snapshot pair.1 := by
  unfold spotLoss at h
  simp only [ite_fail_eq_ok] at h
  obtain ⟨-, -, h⟩ := h
  obtain ⟨books, hbooks, h⟩ := bind_eq_ok.mp h
  obtain ⟨u, hheld, h⟩ := bind_eq_ok.mp h
  cases h
  refine ⟨books, hbooks, rfl, fun pair hpair => ?_⟩
  have hexact := Replay.forM_ok.mp hheld pair hpair
  unfold checkHeld at hexact
  simp only [ite_fail_eq_ok] at hexact
  exact sub_eq_zero.mp (abs_nonpos_iff.mp (not_lt.mp hexact.1))

theorem paid_perm {others : List BinanceTrade} (h : trades.Perm others) (base : String) :
    paid base trades = paid base others :=
  ((h.filter _).map _).sum_eq

theorem gained_perm {others : List BinanceTrade} (h : trades.Perm others) (base : String) :
    gained base trades = gained base others :=
  ((h.filter _).map _).sum_eq

theorem taken_perm {others : List BinanceTrade} (h : trades.Perm others) (base : String) :
    taken base trades = taken base others :=
  ((h.filter _).map _).sum_eq

def Books.blank : Books := ⟨∅, 0⟩

theorem blank_lot (base : String) : Books.blank.lot base = ⟨0, 0⟩ := by
  rw [Books.blank, Books.lot, Finmap.lookup_empty]
  rfl

structure Accounted (provider : RiskProvider) (snapshot : BinanceAccountSnapshot)
    (trades : List BinanceTrade) (loss : ℚ) (books : Books) : Prop where
  sound : ∀ first rest, sortTrades trades = first ++ rest →
    ∃ mid, first.foldlM (provider.bookTrade exact) Books.blank = .ok mid ∧
      ∀ base, (mid.lot base).Sound
  cost : ∀ base, paid base trades =
    costOfSales base (provider.charges Books.blank (sortTrades trades)) + (books.lot base).cost
  quantity : ∀ base, gained base trades - taken base trades = (books.lot base).quantity
  held : ∀ pair ∈ provider.bases, (books.lot pair.1).quantity = held snapshot pair.1
  nonneg : 0 ≤ loss
  covers : provider.dayShortfall (provider.charges Books.blank (sortTrades trades)) ≤ loss

/-- Cost basis is conserved and losses are never understated. -/
theorem spotLoss_accounted (provider : RiskProvider) (history : BinanceRiskHistory)
    (trades : List BinanceTrade) (snapshot : BinanceAccountSnapshot) (loss : ℚ)
    (hvalid : provider.validateTrades history = .ok trades)
    (h : provider.spotLoss exact trades snapshot history = .ok loss) :
    ∃ books, provider.replay exact trades = .ok books ∧
      Accounted provider snapshot trades loss books := by
  obtain ⟨books, hbooks, rfl, hheld⟩ := spotLoss_ok h
  have hperm : (sortTrades trades).Perm trades := List.mergeSort_perm _ _
  have hblank : ∀ base, (Books.blank.lot base).Sound := by
    intro base
    rw [blank_lot]
    exact sound_empty
  have hsides : ∀ trade ∈ sortTrades trades, trade.side = "BUY" ∨ trade.side = "SELL" :=
    fun trade ht => (sides_of_validated hvalid).2 trade (hperm.subset ht)
  have hconserved := replay_conserved hsides hblank hbooks
  refine ⟨books, hbooks, ?_, fun base => ?_, fun base => ?_, hheld, hconserved.grows, ?_⟩
  · intro first rest hsplit
    have hrun : (first ++ rest).foldlM (provider.bookTrade exact) Books.blank = .ok books := by
      rw [← hsplit]
      exact hbooks
    obtain ⟨mid, hmid, -⟩ := Replay.foldlM_append hrun
    exact ⟨mid, hmid, provider.replayed_sound hblank hmid⟩
  · have hcost := hconserved.cost base
    rwa [blank_lot, zero_add, paid_perm hperm] at hcost
  · have hquantity := hconserved.quantity base
    rwa [blank_lot, zero_add, gained_perm hperm, taken_perm hperm] at hquantity
  · have hloss := hconserved.loss
    rwa [Books.blank, zero_add] at hloss

def etherProvider : RiskProvider where
  account := "main"
  accountMode := .spot
  symbols := ["ETH-USDC"]
  date := "2026-01-02"
  dayStart := 1767312000000
  account_ne := by decide
  symbols_ne := by decide
  unique := by decide
  baseSymbols := Finmap.insert "ETH" "ETH-USDC" ∅
  bound := by
    have hpair : assetPair "ETH-USDC" = .ok ("ETH", "USDC") := by decide +kernel
    rw [List.foldlM_cons, bindSymbol, hpair]
    rfl

def etherTrade (id side : String) (quoteQuantity commission timestampMs : ℚ) : BinanceTrade :=
  ⟨id, id, "ETH-USDC", side, 1, quoteQuantity, quoteQuantity, commission, "USDC", timestampMs⟩

def etherTrades : List BinanceTrade :=
  [etherTrade "1" "BUY" 100 1 1767311999999, etherTrade "2" "SELL" 80 1 1767312000100]

def etherHistory : BinanceRiskHistory :=
  ⟨"main", "2026-01-02", 1767312001000, etherTrades, [], [], none⟩

theorem etherTrades_sorted : sortTrades etherTrades = etherTrades :=
  List.mergeSort_of_pairwise (by decide +kernel)

theorem spotLoss_accounted_ether :
    ∃ books, etherProvider.replay exact etherTrades = .ok books ∧
      Accounted etherProvider ⟨"main", [], [], 1767312001000⟩ etherTrades 22 books := by
  refine spotLoss_accounted etherProvider etherHistory etherTrades _ 22 ?_ ?_
  · decide +kernel
  · rw [spotLoss, replay, etherTrades_sorted]
    decide +kernel

end RiskProvider
end Binance
end TradingGuardrails
