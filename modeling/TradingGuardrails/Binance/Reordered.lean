import TradingGuardrails.Binance.CostBasis

/-!
The daily statistics do not depend on the order in which the exchange lists its records. The
loops that check and count records commute with themselves. The replay of the trades does not,
but it sorts them, and the trades that it finds at one time under one id are of different
symbols: a spot account has one symbol for each base asset, so they move different lots.
-/
namespace TradingGuardrails

open Text Replay

namespace Binance

structure Reordered (history other : BinanceRiskHistory) : Prop where
  account : other.account = history.account
  date : other.date = history.date
  timestampMs : other.timestampMs = history.timestampMs
  lastOrderTimestampMs : other.lastOrderTimestampMs = history.lastOrderTimestampMs
  trades : history.trades.Perm other.trades
  orders : history.orders.Perm other.orders
  income : history.income.Perm other.income

namespace RiskProvider

variable {provider : RiskProvider} {history other : BinanceRiskHistory}

theorem checkTrade_commute (a b : BinanceTrade) : Commute (provider.checkTrade history) a b := by
  refine commute_of_guard (fun seen trade after => provider.checkTrade_ok history)
    (fun seen => ?_) fun seen _ _ => Finset.insert_comm _ _ _
  simp only [Finset.mem_insert, not_or]
  constructor
  · rintro ⟨⟨ha, hnewA⟩, hb, hne, hnewB⟩
    exact ⟨⟨hb, hnewB⟩, ha, Ne.symm hne, hnewA⟩
  · rintro ⟨⟨hb, hnewB⟩, ha, hne, hnewA⟩
    exact ⟨⟨ha, hnewA⟩, hb, Ne.symm hne, hnewB⟩

theorem bookIncome_commute (a b : BinanceIncome) : Commute (provider.bookIncome history) a b := by
  refine commute_of_guard (fun state entry after => provider.bookIncome_ok history)
    (fun state => ?_) fun state _ _ => ?_
  · simp only [Finset.mem_insert, not_or]
    constructor
    · rintro ⟨⟨ha, hnewA⟩, hb, hne, hnewB⟩
      exact ⟨⟨hb, hnewB⟩, ha, Ne.symm hne, hnewA⟩
    · rintro ⟨⟨hb, hnewB⟩, ha, hne, hnewA⟩
      exact ⟨⟨ha, hnewA⟩, hb, Ne.symm hne, hnewB⟩
  · rw [Finset.insert_comm, add_right_comm]

/-- Two records of orders either have different keys or agree. -/
theorem countOrder_commute (a b : BinanceHistoricalOrder) :
    Commute (provider.countOrder history) a b := by
  by_cases hkey : orderKey a = orderKey b
  · have hlookup : ∀ orders : Finmap fun _ : String => ℚ,
        orders.lookup (orderKey a) = orders.lookup (orderKey b) := fun orders => by rw [hkey]
    have hinsert : ∀ (orders : Finmap fun _ : String => ℚ) (t : ℚ),
        orders.insert (orderKey a) t = orders.insert (orderKey b) t := fun orders t => by rw [hkey]
    refine commute_of_guard (fun orders order after => provider.countOrder_ok history)
      (fun orders => ?_) fun orders _ hb => ?_
    · simp only [hlookup, hinsert, Finmap.lookup_insert, Option.mem_some_iff, forall_eq']
      constructor
      · rintro ⟨⟨ha, hprevious⟩, hb, hsame⟩
        exact ⟨⟨hb, fun p hp => (hprevious p hp).trans hsame⟩, ha, hsame.symm⟩
      · rintro ⟨⟨hb, hprevious⟩, ha, hsame⟩
        exact ⟨⟨ha, fun p hp => (hprevious p hp).trans hsame⟩, hb, hsame.symm⟩
    · have hsame : a.timestampMs = b.timestampMs := by
        refine hb.2 a.timestampMs ?_
        rw [hinsert, Finmap.lookup_insert]
        exact rfl
      simp only [hinsert, hsame]
  · refine commute_of_guard (fun orders order after => provider.countOrder_ok history)
      (fun orders => ?_) fun orders _ _ => Finmap.insert_insert_of_ne _ hkey
    rw [Finmap.lookup_insert_of_ne _ hkey, Finmap.lookup_insert_of_ne _ (Ne.symm hkey)]
    exact and_comm

theorem validated_keys {trades : List BinanceTrade} {seen after : Finset String}
    (h : trades.foldlM (provider.checkTrade history) seen = .ok after) :
    (trades.map tradeKey).Nodup ∧ ∀ trade ∈ trades, tradeKey trade ∉ seen := by
  induction trades generalizing seen with
  | nil => exact ⟨List.nodup_nil, fun trade ht => absurd ht List.not_mem_nil⟩
  | cons trade trades ih =>
      rw [List.foldlM_cons] at h
      obtain ⟨mid, hmid, h⟩ := bind_eq_ok.mp h
      obtain ⟨⟨-, hnew⟩, rfl⟩ := (provider.checkTrade_ok history).mp hmid
      obtain ⟨hnodup, hlater⟩ := ih h
      simp only [Finset.mem_insert, not_or] at hlater
      rw [List.map_cons, List.nodup_cons, List.forall_mem_cons]
      refine ⟨⟨fun hmem => ?_, hnodup⟩, hnew, fun t ht => (hlater t ht).2⟩
      obtain ⟨t, ht, hkey⟩ := List.mem_map.mp hmem
      exact (hlater t ht).1 hkey

/-- A canonical text of a number is the text of its value. -/
theorem canonicalDecimal_eq {s : String} (h : IntentSchema.canonicalDecimal s = true) :
    s = natText (digitsValue s.toList) :=
  (IntentSchema.canonicalDecimal_iff.mp h).eq_natText

def Apart (s t : String) : Prop :=
  ∀ base quote base' quote', assetPair s = .ok (base, quote) →
    assetPair t = .ok (base', quote') → base ≠ base'

instance : Std.Symm Apart :=
  ⟨fun _ _ h base quote base' quote' hs ht => (h base' quote' base quote ht hs).symm⟩

/-- The symbols of a spot account have different base assets. -/
theorem bases_differ (hmode : provider.accountMode = .spot) {symbols : List String}
    {bound after : Finmap fun _ : String => String}
    (h : symbols.foldlM (bindSymbol provider.accountMode) bound = .ok after) :
    symbols.Pairwise Apart ∧
    ∀ s ∈ symbols, ∃ base quote, assetPair s = .ok (base, quote) ∧ base ∉ bound := by
  induction symbols generalizing bound with
  | nil => exact ⟨List.Pairwise.nil, fun s hs => absurd hs List.not_mem_nil⟩
  | cons symbol symbols ih =>
      rw [List.foldlM_cons] at h
      obtain ⟨mid, hmid, h⟩ := bind_eq_ok.mp h
      unfold bindSymbol at hmid
      obtain ⟨⟨base, quote⟩, hpair, hmid⟩ := bind_eq_ok.mp hmid
      simp only [ite_fail_eq_ok, Except.ok.injEq, not_and] at hmid
      obtain ⟨hnew, rfl⟩ := hmid
      have hfresh : base ∉ bound := by
        rw [← Finmap.lookup_isSome]
        exact hnew hmode
      obtain ⟨hpairwise, hlater⟩ := ih h
      refine ⟨List.pairwise_cons.mpr ⟨?_, hpairwise⟩, List.forall_mem_cons.mpr
        ⟨⟨base, quote, hpair, hfresh⟩, ?_⟩⟩
      · intro t ht b q b' q' hb hb'
        obtain ⟨b'', q'', hother, hout⟩ := hlater t ht
        rw [hpair] at hb
        rw [hother] at hb'
        cases hb
        cases hb'
        rintro rfl
        exact hout (Finmap.mem_insert.mpr (.inl rfl))
      · intro t ht
        obtain ⟨b, q, hb, hout⟩ := hlater t ht
        exact ⟨b, q, hb, fun hmem => hout (Finmap.mem_insert.mpr (.inr hmem))⟩

theorem lot_insert_of_ne {books : Books} {base base' : String} {lot : Lot} {loss : ℚ}
    (h : base' ≠ base) : (⟨books.lots.insert base lot, loss⟩ : Books).lot base' =
      books.lot base' := by
  rw [Books.lot, Finmap.lookup_insert_of_ne _ h]
  rfl

/-- Trades of different base assets move different lots. -/
theorem bookTrade_commute {tolerance : ℚ → ℚ → ℚ} {a b : BinanceTrade}
    {base quote base' quote' : String} (ha : assetPair a.symbol = .ok (base, quote))
    (hb : assetPair b.symbol = .ok (base', quote')) (hne : base ≠ base') :
    Commute (provider.bookTrade tolerance) a b := by
  intro books
  unfold bookTrade
  simp only [ha, hb]
  cases hlot : tradeLot tolerance base (books.lot base) a with
  | error e =>
      cases hlot' : tradeLot tolerance base' (books.lot base') b with
      | error e' =>
          simp only [bind, Except.bind, hlot, hlot']
          exact agree_error e e'
      | ok lot' =>
          simp only [bind, Except.bind, hlot, hlot', lot_insert_of_ne hne]
          exact agree_error _ _
  | ok lot =>
      cases hlot' : tradeLot tolerance base' (books.lot base') b with
      | error e' =>
          simp only [bind, Except.bind, hlot, hlot', lot_insert_of_ne (Ne.symm hne)]
          exact agree_error _ _
      | ok lot' =>
          simp only [bind, Except.bind, hlot, hlot', lot_insert_of_ne hne,
            lot_insert_of_ne (Ne.symm hne)]
          rw [Finmap.insert_insert_of_ne _ hne, add_right_comm]
          exact Agree.refl _

theorem replayLe_total (a b : BinanceTrade) : (replayLe a b || replayLe b a) = true := by
  simp only [replayLe, Bool.or_eq_true, decide_eq_true_eq]
  rcases lt_trichotomy a.timestampMs b.timestampMs with h | h | h
  · exact .inl (.inl h)
  · rcases Nat.le_total (digitsValue a.id.toList) (digitsValue b.id.toList) with hle | hle
    · exact .inl (.inr ⟨h, hle⟩)
    · exact .inr (.inr ⟨h.symm, hle⟩)
  · exact .inr (.inl h)

theorem replayLe_trans (a b c : BinanceTrade) (hab : replayLe a b = true)
    (hbc : replayLe b c = true) : replayLe a c = true := by
  simp only [replayLe, decide_eq_true_eq] at hab hbc ⊢
  rcases hab with hab | ⟨hab, hle⟩
  · rcases hbc with hbc | ⟨hbc, -⟩
    · exact .inl (hab.trans hbc)
    · exact .inl (hbc ▸ hab)
  · rcases hbc with hbc | ⟨hbc, hle'⟩
    · exact .inl (hab ▸ hbc)
    · exact .inr ⟨hab.trans hbc, hle.trans hle'⟩

theorem replayLe_antisymm {a b : BinanceTrade} (hab : replayLe a b = true)
    (hba : replayLe b a = true) : digitsValue a.id.toList = digitsValue b.id.toList := by
  simp only [replayLe, decide_eq_true_eq] at hab hba
  rcases hab with hab | ⟨htime, hle⟩
  · rcases hba with hba | ⟨hba, -⟩
    · exact absurd hab hba.not_gt
    · exact absurd hba hab.ne'
  · rcases hba with hba | ⟨-, hle'⟩
    · exact absurd htime hba.ne'
    · exact Nat.le_antisymm hle hle'

theorem sortTrades_pairwise (trades : List BinanceTrade) :
    (sortTrades trades).Pairwise fun a b => replayLe a b = true :=
  List.pairwise_mergeSort replayLe_trans replayLe_total trades

/-- Trades of one account that the sort leaves as they come are of different symbols. -/
theorem ties_commute {tolerance : ℚ → ℚ → ℚ} (hmode : provider.accountMode = .spot)
    {trades : List BinanceTrade} (hvalid : ∀ t ∈ trades, provider.ValidTrade history t)
    (hkeys : (trades.map tradeKey).Nodup) {a b : BinanceTrade} (ha : a ∈ trades)
    (hb : b ∈ trades) (hne : a ≠ b) (hab : replayLe a b = true) (hba : replayLe b a = true) :
    Commute (provider.bookTrade tolerance) a b := by
  have hid : a.id = b.id := by
    rw [canonicalDecimal_eq (hvalid a ha).id, canonicalDecimal_eq (hvalid b hb).id,
      replayLe_antisymm hab hba]
  have hsymbol : a.symbol ≠ b.symbol := by
    intro hsymbol
    refine hne (List.inj_on_of_nodup_map hkeys ha hb ?_)
    rw [tradeKey, tradeKey, hsymbol, hid]
  obtain ⟨hdiffer, hpairs⟩ := bases_differ hmode provider.bound
  obtain ⟨base, quote, hpair, -⟩ := hpairs a.symbol (hvalid a ha).symbol
  obtain ⟨base', quote', hpair', -⟩ := hpairs b.symbol (hvalid b hb).symbol
  refine bookTrade_commute hpair hpair' ?_
  exact hdiffer.forall (hvalid a ha).symbol (hvalid b hb).symbol hsymbol base quote base' quote'
    hpair hpair'

theorem replay_agree {tolerance : ℚ → ℚ → ℚ} (hmode : provider.accountMode = .spot)
    {trades others : List BinanceTrade} (hperm : trades.Perm others)
    (hvalid : ∀ t ∈ trades, provider.ValidTrade history t) (hkeys : (trades.map tradeKey).Nodup) :
    Agree (provider.replay tolerance trades) (provider.replay tolerance others) := by
  have hsort : ∀ l, (sortTrades l).Perm l := fun l => List.mergeSort_perm l _
  refine foldlM_sorted ((hsort trades).trans (hperm.trans (hsort others).symm))
    (sortTrades_pairwise trades) (sortTrades_pairwise others) ?_ _
  intro a ha b hb
  exact ties_commute hmode hvalid hkeys ((hsort trades).subset ha) ((hsort trades).subset hb)

theorem checkHistory_eq (h : Reordered history other) (account : String) (now : ℚ) :
    provider.checkHistory account now other = provider.checkHistory account now history := by
  unfold checkHistory
  rw [h.account, h.date, h.timestampMs, h.lastOrderTimestampMs]

theorem validated_agree (h : Reordered history other) :
    Agree (history.trades.foldlM (provider.checkTrade history) ∅)
      (other.trades.foldlM (provider.checkTrade other) ∅) := by
  have hcheck : provider.checkTrade other = provider.checkTrade history := by
    funext seen trade
    unfold checkTrade
    rw [h.timestampMs]
  rw [hcheck]
  exact foldlM_perm h.trades checkTrade_commute _

theorem futuresLoss_agree (h : Reordered history other) :
    Agree (provider.futuresLoss history) (provider.futuresLoss other) := by
  have hbook : provider.bookIncome other = provider.bookIncome history := by
    funext state entry
    unfold bookIncome
    rw [h.timestampMs]
  unfold futuresLoss
  rw [hbook]
  exact agree_bind (foldlM_perm h.income bookIncome_commute _) fun _ _ => Agree.refl _

theorem orderCount_agree (h : Reordered history other) :
    Agree (provider.orderCount history) (provider.orderCount other) := by
  have hcount : provider.countOrder other = provider.countOrder history := by
    funext orders order
    unfold countOrder
    rw [h.timestampMs, h.lastOrderTimestampMs]
  unfold orderCount
  rw [hcount]
  exact agree_bind (foldlM_perm h.orders countOrder_commute _) fun _ _ => Agree.refl _

theorem totalNotional_eq {trades others : List BinanceTrade} (h : trades.Perm others) :
    provider.totalNotional trades = provider.totalNotional others :=
  ((h.filter _).map _).sum_eq

theorem spotLoss_agree {tolerance : ℚ → ℚ → ℚ} (hmode : provider.accountMode = .spot)
    (h : Reordered history other) (snapshot : BinanceAccountSnapshot)
    (hvalid : ∀ t ∈ history.trades, provider.ValidTrade history t)
    (hkeys : (history.trades.map tradeKey).Nodup) :
    Agree (provider.spotLoss tolerance history.trades snapshot history)
      (provider.spotLoss tolerance other.trades snapshot other) := by
  have hincome : other.income = [] ↔ history.income = [] :=
    ⟨fun hnil => (hnil ▸ h.income).eq_nil, fun hnil => (hnil ▸ h.income.symm).eq_nil⟩
  unfold spotLoss
  simp only [ne_eq, hincome, h.timestampMs]
  by_cases hempty : ¬ history.income = []
  · rw [if_pos hempty, if_pos hempty]
    exact Agree.refl _
  · rw [if_neg hempty, if_neg hempty]
    by_cases hapart : maxCollectionAgeMs < |snapshot.timestampMs - history.timestampMs|
    · rw [if_pos hapart, if_pos hapart]
      exact Agree.refl _
    · rw [if_neg hapart, if_neg hapart]
      exact agree_bind (replay_agree hmode h.trades hvalid hkeys) fun _ _ => Agree.refl _

theorem realizedLoss_agree {tolerance : ℚ → ℚ → ℚ} (h : Reordered history other)
    (readings : Readings) (account : String) (snapshot : Except Thrown BinanceAccountSnapshot)
    (hvalid : ∀ t ∈ history.trades, provider.ValidTrade history t)
    (hkeys : (history.trades.map tradeKey).Nodup) :
    Agree (provider.realizedLoss tolerance readings account history.trades snapshot history)
      (provider.realizedLoss tolerance readings account other.trades snapshot other) := by
  unfold realizedLoss
  cases hmode : provider.accountMode with
  | spot => exact agree_bind (Agree.refl _) fun snapshot _ =>
      spotLoss_agree hmode h snapshot hvalid hkeys
  | usdmFutures => exact futuresLoss_agree h

theorem statistics_agree {tolerance : ℚ → ℚ → ℚ} (h : Reordered history other)
    (readings : Readings) (account : String) (snapshot : Except Thrown BinanceAccountSnapshot) :
    Agree (provider.statistics tolerance readings account snapshot history)
      (provider.statistics tolerance readings account snapshot other) := by
  unfold statistics validateTrades
  simp only [bind_assoc]
  refine agree_bind (validated_agree h) fun seen hseen => ?_
  have hvalid : ∀ t ∈ history.trades, provider.ValidTrade history t :=
    foldlM_forall hseen fun s t s' hstep => ((provider.checkTrade_ok history).mp hstep).1.1
  change Agree (provider.realizedLoss tolerance readings account history.trades snapshot history >>=
    _) (provider.realizedLoss tolerance readings account other.trades snapshot other >>= _)
  refine agree_bind (realizedLoss_agree h readings account snapshot hvalid
    (validated_keys hseen).1) fun loss _ => ?_
  rw [totalNotional_eq h.trades]
  refine agree_bind (Agree.refl _) fun total _ => agree_bind (Agree.refl _) fun loss _ => ?_
  exact agree_bind (orderCount_agree h) fun count _ => Agree.refl _

/-- The daily statistics are the same for every order of the records, or thrown for all. -/
theorem calculateDailyStats_agree (provider : RiskProvider) (tolerance : ℚ → ℚ → ℚ)
    (readings : Readings) (account : String) (snapshot : Except Thrown BinanceAccountSnapshot)
    (history other : BinanceRiskHistory) (h : Reordered history other) :
    Agree (provider.calculateDailyStats tolerance readings account (.ok history) snapshot)
      (provider.calculateDailyStats tolerance readings account (.ok other) snapshot) := by
  unfold calculateDailyStats getHistory
  simp only [bind_assoc]
  refine agree_bind (Agree.refl _) fun _ _ => ?_
  change Agree (provider.assertAccount account readings.answered >>= _)
    (provider.assertAccount account readings.answered >>= _)
  refine agree_bind (Agree.refl _) fun _ _ => ?_
  rw [checkHistory_eq h]
  refine agree_bind (Agree.refl _) fun _ _ => ?_
  exact statistics_agree h readings account snapshot

theorem calculateDailyStats_agree_ether :
    let readings : Readings := ⟨"2026-01-02", "2026-01-02", 1767312001000, "2026-01-02"⟩
    let snapshot : BinanceAccountSnapshot := ⟨"main", [], [], 1767312001000⟩
    let other := { etherHistory with trades := etherHistory.trades.reverse }
    Agree (etherProvider.calculateDailyStats tolerance readings "main" (.ok etherHistory)
        (.ok snapshot))
      (etherProvider.calculateDailyStats tolerance readings "main" (.ok other)
        (.ok snapshot)) := by
  intro readings snapshot other
  exact calculateDailyStats_agree etherProvider tolerance readings "main" (.ok snapshot)
    etherHistory other ⟨rfl, rfl, rfl, rfl, (List.reverse_perm _).symm, List.Perm.refl _,
      List.Perm.refl _⟩

end RiskProvider
end Binance
end TradingGuardrails
