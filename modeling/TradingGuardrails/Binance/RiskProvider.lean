import Mathlib
import TradingGuardrails.Binance.Client
import TradingGuardrails.Replay

/-!
The daily statistics of an account, from the exchange's records of trades, orders and income.
A spot account's losses are what its sales of the day have brought in less than the average
cost of what was sold, so all of its trades are replayed, in the order of their times and ids.
-/
namespace TradingGuardrails

open Text

namespace Binance

structure BinanceTrade where
  id : String
  orderId : String
  symbol : String
  side : String
  quantity : ℚ
  quoteQuantity : ℚ
  price : ℚ
  commission : ℚ
  commissionAsset : String
  timestampMs : ℚ
  deriving DecidableEq

structure BinanceHistoricalOrder where
  orderId : String
  symbol : String
  timestampMs : ℚ

structure BinanceIncome where
  id : String
  asset : String
  income : ℚ
  incomeType : String
  timestampMs : ℚ

structure BinanceRiskHistory where
  account : String
  date : String
  timestampMs : ℚ
  trades : List BinanceTrade
  orders : List BinanceHistoricalOrder
  income : List BinanceIncome
  lastOrderTimestampMs : Option ℚ

structure BinanceBalance where
  asset : String
  free : ℚ
  locked : ℚ

structure BinancePosition where
  symbol : String
  quantity : ℚ
  notionalUsd : ℚ
  leverage : ℚ

structure BinanceAccountSnapshot where
  account : String
  balances : List BinanceBalance
  positions : List BinancePosition
  timestampMs : ℚ

structure BinanceDailyStats where
  account : String
  date : String
  totalNotionalUsd : ℚ
  realizedLossUsd : ℚ
  orderCount : Nat
  deriving DecidableEq

namespace RiskProvider

def maxCollectionAgeMs : ℚ := 30000

def transferType (incomeType : String) : Bool :=
  incomeType == "TRANSFER" || incomeType == "INTERNAL_TRANSFER"

def fail {α : Type} (message : String) : Except Thrown α :=
  .error (.ofMessage message)

def finite (value : ℚ) (minimum : Option ℚ) : Except Thrown ℚ :=
  if minimum.any (fun m => decide (value < m)) then fail "Invalid Binance risk number."
  else .ok value

def positive (value : ℚ) : Except Thrown ℚ := do
  let value ← finite value (some 0)
  if value = 0 then fail "Invalid Binance risk price or quantity." else .ok value

def time (value : ℚ) : Except Thrown ℚ :=
  if value.den ≠ 1 ∨ maxSafeInteger < value ∨ value < 0 then
    fail "Invalid Binance risk timestamp."
  else .ok value

def identifier (value : String) : Except Thrown String :=
  if IntentSchema.canonicalDecimal value then .ok value else fail "Invalid Binance history ID."

def assetPair (symbol : String) : Except Thrown (String × String) :=
  match symbolParts symbol with
  | some (base, quote) =>
      if stable base then fail "Unsupported Binance risk symbol." else .ok (base, quote)
  | none => fail "Unsupported Binance risk symbol."

/-- `64 * Number.EPSILON * Math.max(1, Math.abs(left), Math.abs(right))` -/
def tolerance (left right : ℚ) : ℚ :=
  64 / 2 ^ 52 * max 1 (max |left| |right|)

def bindSymbol (accountMode : AccountMode) (baseSymbols : Finmap fun _ : String => String)
    (symbol : String) : Except Thrown (Finmap fun _ : String => String) := do
  let (base, _) ← assetPair symbol
  if accountMode = .spot ∧ (baseSymbols.lookup base).isSome then
    fail "Multiple quote assets for one spot base have ambiguous cost basis."
  else .ok (baseSymbols.insert base symbol)

end RiskProvider

structure RiskProvider where
  account : String
  accountMode : AccountMode
  symbols : List String
  date : String
  /-- `Date.parse` of the start of the date -/
  dayStart : ℚ
  account_ne : account ≠ ""
  symbols_ne : symbols ≠ []
  unique : symbols.Nodup
  baseSymbols : Finmap fun _ : String => String
  bound : symbols.foldlM (RiskProvider.bindSymbol accountMode) ∅ = .ok baseSymbols

namespace RiskProvider

def create (account : String) (accountMode : AccountMode) (historySymbols : List String)
    (date : String) (dayStart : ℚ) : Except Thrown RiskProvider :=
  if haccount : account = "" then fail "Invalid Binance risk account binding."
  else if huniverse : historySymbols = [] ∨ ¬ historySymbols.Nodup then
    fail "Binance risk requires a unique complete history universe."
  else
    match hbound : historySymbols.foldlM (bindSymbol accountMode) ∅ with
    | .error e => .error e
    | .ok baseSymbols => .ok {
        account, accountMode, symbols := historySymbols, date, dayStart, baseSymbols
        account_ne := haccount
        symbols_ne := fun h => huniverse (.inl h)
        unique := not_not.mp fun h => huniverse (.inr h)
        bound := hbound }

variable (provider : RiskProvider)

def bases : List (String × String) :=
  provider.symbols.filterMap fun symbol =>
    (assetPair symbol).toOption.map fun pair => (pair.1, symbol)

def assertAccount (account today : String) : Except Thrown Unit :=
  if account ≠ provider.account then
    fail "Binance risk account does not match the credential."
  else if today ≠ provider.date then
    fail "Binance risk collection crossed a UTC day boundary."
  else .ok ()

def assertSymbol (symbol : String) : Except Thrown Unit :=
  if provider.symbols.contains symbol then .ok ()
  else fail "Binance risk symbol is outside the history universe."

def least : Option ℚ :=
  match provider.accountMode with
  | .spot => some 0
  | .usdmFutures => none

/-- `/^[A-Z0-9]+$/` -/
def isAsset (asset : String) : Bool :=
  !asset.isEmpty && asset.toList.all fun c => ('A' ≤ c && c ≤ 'Z') || c.isDigit

def checkBalance (assets : Finset String) (balance : BinanceBalance) :
    Except Thrown (Finset String) := do
  if !isAsset balance.asset ∨ balance.asset ∈ assets then
    fail "Invalid or duplicate Binance balance asset."
  else
    let _ ← finite balance.free provider.least
    let _ ← finite balance.locked provider.least
    let _ ← finite (balance.free + balance.locked) none
    if (balance.free ≠ 0 ∨ balance.locked ≠ 0) ∧ !stable balance.asset ∧
        (provider.accountMode ≠ .spot ∨ (provider.baseSymbols.lookup balance.asset).isNone) then
      fail "Binance snapshot contains uncovered assets."
    else .ok (insert balance.asset assets)

def checkPosition (positions : Finset String) (position : BinancePosition) :
    Except Thrown (Finset String) := do
  provider.assertSymbol position.symbol
  if position.symbol ∈ positions then fail "Duplicate Binance position."
  else
    let _ ← finite position.quantity provider.least
    let _ ← finite position.notionalUsd none
    let _ ← positive position.leverage
    if (if position.quantity = 0 then position.notionalUsd ≠ 0
        else position.quantity * position.notionalUsd ≤ 0) then
      fail "Binance position notional has an invalid direction."
    else .ok (insert position.symbol positions)

def held (snapshot : BinanceAccountSnapshot) (asset : String) : ℚ :=
  match snapshot.balances.find? fun value => value.asset == asset with
  | some balance => balance.free + balance.locked
  | none => 0

variable (tolerance : ℚ → ℚ → ℚ)

def checkCover (snapshot : BinanceAccountSnapshot) (base symbol : String) : Except Thrown Unit :=
  let quantity := match snapshot.positions.find? fun value => value.symbol == symbol with
    | some position => position.quantity
    | none => 0
  if tolerance (held snapshot base) quantity < |held snapshot base - quantity| then
    fail "Spot positions do not cover the account balances."
  else .ok ()

def checkCovers (snapshot : BinanceAccountSnapshot) : Except Thrown Unit :=
  match provider.accountMode with
  | .spot => provider.bases.forM fun base => checkCover tolerance snapshot base.1 base.2
  | .usdmFutures => .ok ()

def checkSnapshot (account : String) (snapshot : BinanceAccountSnapshot) :
    Except Thrown BinanceAccountSnapshot := do
  if snapshot.account ≠ account then fail "Invalid Binance account snapshot."
  else
    let _ ← time snapshot.timestampMs
    let _ ← snapshot.balances.foldlM provider.checkBalance ∅
    let _ ← snapshot.positions.foldlM provider.checkPosition ∅
    provider.checkCovers tolerance snapshot
    .ok snapshot

/-- What the clock says while the statistics are collected: the date when they are asked for,
the date and the time when the history has come, and the date when the snapshot is asked for. -/
structure Readings where
  asked : String
  answered : String
  now : ℚ
  inventory : String

def checkHistory (account : String) (now : ℚ) (history : BinanceRiskHistory) :
    Except Thrown Unit := do
  if history.account ≠ account ∨ history.date ≠ provider.date then
    fail "Invalid Binance risk history binding."
  else
    let timestampMs ← time history.timestampMs
    if timestampMs < provider.dayStart ∨ now < timestampMs ∨
        maxCollectionAgeMs < now - timestampMs then
      fail "Binance risk history is stale or future-dated."
    else match history.lastOrderTimestampMs with
      | none => .ok ()
      | some last =>
          let last ← time last
          if now < last then fail "Binance last-order timestamp is future-dated." else .ok ()

def getHistory (readings : Readings) (account : String)
    (history : Except Thrown BinanceRiskHistory) : Except Thrown BinanceRiskHistory := do
  provider.assertAccount account readings.asked
  let history ← history
  provider.assertAccount account readings.answered
  provider.checkHistory account readings.now history
  .ok history

def getSnapshot (readings : Readings) (account : String)
    (snapshot : Except Thrown BinanceAccountSnapshot) : Except Thrown BinanceAccountSnapshot := do
  provider.assertAccount account readings.inventory
  let snapshot ← snapshot
  provider.checkSnapshot tolerance account snapshot

def tradeKey (trade : BinanceTrade) : String :=
  trade.symbol ++ ":" ++ trade.id

def checkTrade (history : BinanceRiskHistory) (seen : Finset String) (trade : BinanceTrade) :
    Except Thrown (Finset String) := do
  provider.assertSymbol trade.symbol
  let _ ← identifier trade.id
  let _ ← identifier trade.orderId
  if tradeKey trade ∈ seen then fail "Duplicate Binance trade record."
  else if trade.side ≠ "BUY" ∧ trade.side ≠ "SELL" then fail "Invalid Binance trade side."
  else
    let _ ← positive trade.quantity
    let _ ← positive trade.quoteQuantity
    let _ ← positive trade.price
    let _ ← finite trade.commission (some 0)
    if 0 < trade.commission ∧ trade.commissionAsset = "" then
      fail "Invalid Binance commission asset."
    else
      let timestampMs ← time trade.timestampMs
      if history.timestampMs < timestampMs ∨
          (provider.accountMode = .usdmFutures ∧ timestampMs < provider.dayStart) then
        fail "Binance trade is outside the requested history window."
      else .ok (insert (tradeKey trade) seen)

def validateTrades (history : BinanceRiskHistory) : Except Thrown (List BinanceTrade) := do
  let _ ← history.trades.foldlM (provider.checkTrade history) ∅
  .ok history.trades

def orderKey (order : BinanceHistoricalOrder) : String :=
  order.symbol ++ ":" ++ order.orderId

def countOrder (history : BinanceRiskHistory) (orders : Finmap fun _ : String => ℚ)
    (order : BinanceHistoricalOrder) : Except Thrown (Finmap fun _ : String => ℚ) := do
  provider.assertSymbol order.symbol
  let _ ← identifier order.orderId
  let timestampMs ← time order.timestampMs
  if timestampMs < provider.dayStart ∨ history.timestampMs < timestampMs then
    fail "Binance order is outside the requested UTC day."
  else if (orders.lookup (orderKey order)).any (fun previous => previous != timestampMs) then
    fail "Inconsistent duplicate Binance order."
  else if history.lastOrderTimestampMs.all (fun last => decide (last < timestampMs)) then
    fail "Binance last-order time does not cover today's orders."
  else .ok (orders.insert (orderKey order) timestampMs)

def orderCount (history : BinanceRiskHistory) : Except Thrown Nat := do
  let orders ← history.orders.foldlM (provider.countOrder history) ∅
  .ok orders.keys.card

structure Lot where
  quantity : ℚ
  cost : ℚ
  deriving DecidableEq

/-- The lots of the base assets and the losses of the day so far. -/
structure Books where
  lots : Finmap fun _ : String => Lot
  loss : ℚ

def Books.lot (books : Books) (base : String) : Lot :=
  (books.lots.lookup base).getD ⟨0, 0⟩

def baseFee (base : String) (trade : BinanceTrade) : ℚ :=
  if trade.commissionAsset = base then trade.commission else 0

def quoteFee (trade : BinanceTrade) : ℚ :=
  if stable trade.commissionAsset then trade.commission else 0

def spent (base : String) (trade : BinanceTrade) : ℚ :=
  trade.quantity + baseFee base trade

def saleCost (base : String) (lot : Lot) (trade : BinanceTrade) : ℚ :=
  lot.cost * (spent base trade / lot.quantity)

def proceeds (trade : BinanceTrade) : ℚ :=
  trade.quoteQuantity - quoteFee trade

def buy (base : String) (lot : Lot) (trade : BinanceTrade) : Except Thrown Lot := do
  let gained ← positive (trade.quantity - baseFee base trade)
  .ok ⟨lot.quantity + gained, lot.cost + (trade.quoteQuantity + quoteFee trade)⟩

def sell (base : String) (lot : Lot) (trade : BinanceTrade) : Except Thrown Lot :=
  if lot.quantity ≤ 0 ∨
      tolerance (spent base trade) lot.quantity < spent base trade - lot.quantity then
    fail "Spot sell inventory has no complete cost basis."
  else if lot.quantity - spent base trade ≤ 0 then .ok ⟨0, 0⟩
  else .ok ⟨lot.quantity - spent base trade, lot.cost - saleCost base lot trade⟩

def tradeLoss (base : String) (lot : Lot) (trade : BinanceTrade) : ℚ :=
  if trade.side ≠ "BUY" ∧ provider.dayStart ≤ trade.timestampMs then
    max 0 (saleCost base lot trade - proceeds trade)
  else 0

def moveLot (base : String) (lot : Lot) (trade : BinanceTrade) : Except Thrown Lot :=
  if 0 < trade.commission ∧ baseFee base trade = 0 ∧ quoteFee trade = 0 then
    fail "Unsupported commission asset for spot cost basis."
  else if trade.side = "BUY" then buy base lot trade
  else sell tolerance base lot trade

def tradeLot (base : String) (lot : Lot) (trade : BinanceTrade) : Except Thrown Lot := do
  let lot ← moveLot tolerance base lot trade
  let _ ← finite lot.quantity (some 0)
  let _ ← finite lot.cost (some 0)
  .ok lot

def bookTrade (books : Books) (trade : BinanceTrade) : Except Thrown Books := do
  let (base, _) ← assetPair trade.symbol
  let lot ← tradeLot tolerance base (books.lot base) trade
  .ok ⟨books.lots.insert base lot,
    books.loss + provider.tradeLoss base (books.lot base) trade⟩

def replayLe (left right : BinanceTrade) : Bool :=
  decide (left.timestampMs < right.timestampMs ∨ (left.timestampMs = right.timestampMs ∧
    digitsValue left.id.toList ≤ digitsValue right.id.toList))

def sortTrades (trades : List BinanceTrade) : List BinanceTrade :=
  trades.mergeSort replayLe

def replay (trades : List BinanceTrade) : Except Thrown Books :=
  (sortTrades trades).foldlM (provider.bookTrade tolerance) ⟨∅, 0⟩

def checkHeld (books : Books) (snapshot : BinanceAccountSnapshot) (base : String) :
    Except Thrown Unit :=
  let reconstructed := (books.lot base).quantity
  if tolerance reconstructed (held snapshot base) < |reconstructed - held snapshot base| then
    fail "Spot inventory does not reconcile with complete trade cost basis."
  else .ok ()

def spotLoss (trades : List BinanceTrade) (snapshot : BinanceAccountSnapshot)
    (history : BinanceRiskHistory) : Except Thrown ℚ := do
  if history.income ≠ [] then fail "Spot history unexpectedly contains futures income."
  else if maxCollectionAgeMs < |snapshot.timestampMs - history.timestampMs| then
    fail "Spot inventory and history observations are too far apart."
  else
    let books ← provider.replay tolerance trades
    provider.bases.forM fun base => checkHeld tolerance books snapshot base.1
    .ok books.loss

def incomeKey (entry : BinanceIncome) : String :=
  entry.incomeType ++ ":" ++ entry.id

def bookIncome (history : BinanceRiskHistory) (state : Finset String × ℚ)
    (entry : BinanceIncome) : Except Thrown (Finset String × ℚ) := do
  if entry.incomeType = "" then fail "Invalid Binance income type."
  else
    let _ ← identifier entry.id
    if incomeKey entry ∈ state.1 then fail "Duplicate Binance income record."
    else
      let _ ← finite entry.income none
      let timestampMs ← time entry.timestampMs
      if timestampMs < provider.dayStart ∨ history.timestampMs < timestampMs then
        fail "Binance income is outside the requested UTC day."
      else if transferType entry.incomeType then .ok (insert (incomeKey entry) state.1, state.2)
      else if !stable entry.asset then fail "Binance income has an unknown USD value."
      else .ok (insert (incomeKey entry) state.1, state.2 + max 0 (-entry.income))

def futuresLoss (history : BinanceRiskHistory) : Except Thrown ℚ := do
  let (_, loss) ← history.income.foldlM (provider.bookIncome history) (∅, 0)
  .ok loss

def totalNotional (trades : List BinanceTrade) : ℚ :=
  ((trades.filter fun trade => decide (provider.dayStart ≤ trade.timestampMs)).map
    BinanceTrade.quoteQuantity).sum

def realizedLoss (readings : Readings) (account : String) (trades : List BinanceTrade)
    (snapshot : Except Thrown BinanceAccountSnapshot) (history : BinanceRiskHistory) :
    Except Thrown ℚ :=
  match provider.accountMode with
  | .spot => do
      let snapshot ← provider.getSnapshot tolerance readings account snapshot
      provider.spotLoss tolerance trades snapshot history
  | .usdmFutures => provider.futuresLoss history

def statistics (readings : Readings) (account : String)
    (snapshot : Except Thrown BinanceAccountSnapshot) (history : BinanceRiskHistory) :
    Except Thrown BinanceDailyStats := do
  let trades ← provider.validateTrades history
  let realizedLossUsd ← provider.realizedLoss tolerance readings account trades snapshot history
  let totalNotionalUsd ← finite (provider.totalNotional trades) (some 0)
  let realizedLossUsd ← finite realizedLossUsd (some 0)
  let orderCount ← provider.orderCount history
  .ok ⟨account, provider.date, totalNotionalUsd, realizedLossUsd, orderCount⟩

def calculateDailyStats (readings : Readings) (account : String)
    (history : Except Thrown BinanceRiskHistory)
    (snapshot : Except Thrown BinanceAccountSnapshot) : Except Thrown BinanceDailyStats := do
  let history ← provider.getHistory readings account history
  provider.statistics tolerance readings account snapshot history

end RiskProvider
end Binance
end TradingGuardrails
