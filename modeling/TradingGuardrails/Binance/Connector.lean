import TradingGuardrails.Binance.Client
import TradingGuardrails.Binance.Reconciliation
import TradingGuardrails.Broker.IdempotencyStore

/-!
The connector of the exchange in live mode. An intent is revalidated against the exchange
before it is executed, and every execution revalidates it again.
-/
namespace TradingGuardrails

open Text Interleaving

/-- `err instanceof Error ? err.message : fallback` -/
def Thrown.messageOr (fallback : String) : Thrown → String
  | .error _ message => message
  | .foreign _ => fallback

namespace Binance

structure BinanceConfig where
  testnet : Bool
  accountMode : AccountMode
  allowedAccounts : List String
  allowedSpotSymbols : List String
  allowedFuturesSymbols : List String
  historySymbols : List String
  maxFuturesLeverage : Numeral

abbrev Verdict := Except String Unit

variable {host : Host}

def numeralOf (intent : TradingIntent host) (key : String) : Option Numeral :=
  match intent.value.field? key with
  | some (.num n) => some n
  | _ => none

def rejectMarginModes (intent : TradingIntent host) : Verdict :=
  let mode := intent.text "accountMode"
  if mode = "margin" ∨ mode = "cross_margin" then
    .error "Spot margin and cross-margin are not supported."
  else if mode = "coinm_futures" then .error "COIN-M futures are not supported."
  else .ok ()

def leverageExceeds (leverage maximum : Numeral) : String :=
  "Leverage " ++ String.ofList leverage.text ++ "x exceeds max " ++
    String.ofList maximum.text ++ "x."

namespace BinanceConfig

variable (config : BinanceConfig)

def validateLeverage (intent : TradingIntent host) : Verdict :=
  match numeralOf intent "leverage" with
  | some leverage =>
      if config.maxFuturesLeverage.double < leverage.double then
        .error (leverageExceeds leverage config.maxFuturesLeverage)
      else .ok ()
  | none => .ok ()

def validateOrder (intent : TradingIntent host) : Verdict :=
  if intent.text "accountMode" ≠ config.accountMode.text then
    .error "Order does not match the configured Binance product."
  else match config.accountMode with
    | .spot =>
        if !config.allowedSpotSymbols.contains intent.symbol then
          .error ("Spot symbol " ++ intent.symbol ++ " is not in the allowlist.")
        else .ok ()
    | .usdmFutures =>
        if intent.text "marginType" ≠ "isolated" then
          .error "USD-M futures orders must use isolated margin."
        else if !config.allowedFuturesSymbols.contains intent.symbol then
          .error ("Futures symbol " ++ intent.symbol ++ " is not in the allowlist.")
        else config.validateLeverage intent

def validateIntent (intent : TradingIntent host) : Verdict :=
  if intent.exchange ≠ "binance" then .error "Intent is not for Binance."
  else if !intent.has "account" then .error "Intent missing account."
  else if !config.allowedAccounts.contains intent.account then
    .error ("Account " ++ intent.account ++ " is not in the allowlist.")
  else match intent.action with
    | .placeOrder => config.validateOrder intent
    | .cancelOrder | .getOrderStatus =>
        if !config.historySymbols.contains intent.symbol then
          .error ("Symbol " ++ intent.symbol ++ " is not in the history allowlist.")
        else .ok ()
    | _ => .ok ()

def requires (mode : AccountMode) (intent : TradingIntent host) : Bool :=
  match intent.action with
  | .placeOrder => intent.text "accountMode" == mode.text
  | .cancelOrder =>
      if intent.text "accountMode" = AccountMode.usdmFutures.text then mode == .usdmFutures
      else if intent.text "accountMode" = AccountMode.spot.text then mode == .spot
      else config.accountMode == mode
  | _ => false

def validateLiveKeyPermissions (permissions : RestClient.ApiKeyPermissions)
    (intent : TradingIntent host) : Verdict :=
  if permissions.enableWithdrawals then .error "Binance API key must have withdrawals disabled."
  else if !permissions.ipRestrict then .error "Binance API key must be IP restricted."
  else if (intent.action = .placeOrder ∨ intent.action = .getOrderStatus) ∧
      !permissions.enableReading then
    .error "Binance API key must allow reading."
  else if config.requires .spot intent ∧ !permissions.enableSpotAndMarginTrading then
    .error "Binance API key must allow spot trading."
  else if config.requires .usdmFutures intent ∧ !permissions.enableFutures then
    .error "Binance API key must allow futures trading."
  else .ok ()

end BinanceConfig

structure ConnectorResult where
  orderId : String
  orderStatus : Option BrokerOrderStatus
  reconciliation : Option BrokerOrderReconciliation

def RestClient.OrderResult.reported (result : RestClient.OrderResult) : BinanceOrderResult where
  orderId := result.orderId
  symbol := result.symbol
  side := result.side.text
  status := result.status
  executedQty := result.executedQty
  avgPrice := result.avgPrice

structure BinanceConnector (platform : Platform) where
  config : BinanceConfig
  client : RestClient

namespace BinanceConnector

variable {platform : Platform} (connector : BinanceConnector platform)
  (intent : TradingIntent platform.host)

def calculateOrderNotional (price : Option Numeral) : Except Thrown Number :=
  if intent.action ≠ .placeOrder then .ok (.rounded 0)
  else match numeralOf intent "quantity", price with
    | none, _ => .error (.ofMessage "Executable order quantity is required.")
    | some _, none => .error (.ofMessage "Executable order price is required.")
    | some quantity, some price =>
        if quantity.double ≤ 0 then .error (.ofMessage "Executable order quantity is invalid.")
        else if price.double ≤ 0 then .error (.ofMessage "Executable order price is invalid.")
        else .ok (.rounded (quantity.double * price.double))

def notionalExceeds : String := "Executable order notional exceeds approved maxNotionalUsd."

def validateExecutableOrder : Except Thrown Unit :=
  if intent.text "orderType" ≠ "limit" then
    .error (.ofMessage "Only limit orders are supported.")
  else do
    let notional ← calculateOrderNotional intent (numeralOf intent "price")
    if notional.above intent.maxNotionalUsd then .error (.ofMessage notionalExceeds)
    else .ok ()

def thrown : Verdict → Except Thrown Unit
  | .ok () => .ok ()
  | .error reason => .error (.ofMessage reason)

def validateExecutableIntent : Except Thrown Unit := do
  thrown (rejectMarginModes intent)
  thrown (connector.config.validateIntent intent)
  if intent.action = .placeOrder then validateExecutableOrder intent else .ok ()

def verifyFuturesIsolatedMargin (account symbol : String) : Rest Unit := do
  let marginType ← connector.client.getFuturesMarginType platform account symbol
  if marginType ≠ .isolated then
    throw (.ofMessage ("USD-M futures " ++ symbol ++ " must be configured for isolated margin."))

def verifyLiveApiKey : Rest Verdict :=
  if connector.config.testnet then pure (.ok ())
  else tryCatch (do
      let permissions ← connector.client.getApiKeyPermissions platform
      pure (connector.config.validateLiveKeyPermissions permissions intent))
    fun _ => pure (.error "Failed to verify Binance API key permissions.")

def isFuturesOrder : Prop :=
  intent.action = .placeOrder ∧ intent.text "accountMode" = "usdm_futures"

instance : Decidable (isFuturesOrder intent) := inferInstanceAs (Decidable (_ ∧ _))

def revalidateMargin : Rest Verdict :=
  if isFuturesOrder intent then
    tryCatch (do
        connector.verifyFuturesIsolatedMargin intent.account intent.symbol
        pure (.ok ()))
      fun e => pure (.error (e.messageOr "Failed to verify futures margin type."))
  else pure (.ok ())

def judgePrice (market : RestClient.MarketData) (now : ℤ) : Except Thrown Verdict :=
  let ageMs := now - market.timestampMs
  let deviation := Number.deviationBps (intent.number "price") market.price
  if ageMs < 0 then .ok (.error "Market data timestamp is invalid.")
  else if market.price ≤ 0 then .ok (.error "Market data price is invalid.")
  else if 10000 < ageMs then .ok (.error ("Market data is " ++ intText ageMs ++ "ms old."))
  else if deviation.above (intent.number "maxSlippageBps") then
    .ok (.error ("Market price deviation " ++ deviation.fixedText platform.host ++
      "bps exceeds approved slippage."))
  else do
    let notional ← calculateOrderNotional intent (numeralOf intent "price")
    .ok (if notional.above intent.maxNotionalUsd then .error notionalExceeds else .ok ())

def revalidatePrice : Rest Verdict :=
  if intent.action = .placeOrder then
    tryCatch (do
        let market ← connector.client.getPrice platform intent.symbol
        let now : ℤ ← act .now
        check (judgePrice intent market now))
      fun _ => pure (.error "Failed to fetch market data for revalidation.")
  else pure (.ok ())

def revalidateOrder : Verdict :=
  if intent.action = .placeOrder then
    (connector.validateExecutableIntent intent).mapError
      (Thrown.messageOr "Executable order validation failed.")
  else .ok ()

def passing (first next : Rest Verdict) : Rest Verdict := do
  let verdict ← first
  match verdict with
  | .ok () => next
  | .error reason => pure (.error reason)

def revalidate : Rest Verdict :=
  passing (pure (rejectMarginModes intent)) <|
  passing (pure (connector.config.validateIntent intent)) <|
  passing (pure (connector.revalidateOrder intent)) <|
  passing (connector.verifyLiveApiKey intent) <|
  passing (connector.revalidateMargin intent) <|
  connector.revalidatePrice intent

def clientOrderId : String :=
  "guardrails-" ++ slice (platform.host.sha256
    (scopeIdempotencyKey platform.host intent.idempotencyKey intent)) 0 24

def orderRequest : RestClient.OrderRequest where
  account := intent.account
  symbol := intent.symbol
  side := if intent.side = "buy" then .buy else .sell
  type := .limit
  quantity := numeralOf intent "quantity"
  price := numeralOf intent "price"
  clientOrderId := some (clientOrderId intent)

/-- `beforeSideEffect?.()` -/
def sideEffect (guarded : Bool) : Rest Unit :=
  if guarded then do
    let answer : Except Thrown Unit ← act .beforeSideEffect
    check answer
  else pure ()

/-- `new Date().toISOString()` -/
def isoNow : Rest String := do
  let now : ℤ ← act .now
  if h : now.natAbs ≤ 8640000000000000 then pure (platform.host.toISOString ⟨now, h⟩)
  else throw (.error .rangeError "Invalid time value")

def reconciled (acknowledged : RestClient.OrderResult) (observed : Option RestClient.OrderResult) :
    Rest ConnectorResult := do
  let checkedAt ← @isoNow platform
  let order := intent.action = .placeOrder
  pure {
    orderId := acknowledged.orderId
    orderStatus := some (toBrokerOrderStatus acknowledged.reported)
    reconciliation := some (reconcileAcceptedOrder checkedAt {
      acknowledged := acknowledged.reported
      observed := observed.map RestClient.OrderResult.reported
      lookupFailed := some observed.isNone
      approvedQuantity := if order then intent.number "quantity" else acknowledged.executedQty
      approvedPrice := if order then intent.number "price" else acknowledged.avgPrice
      checkedAt := none }) }

def acknowledgeLiveOrder (acknowledged : RestClient.OrderResult) : Rest ConnectorResult :=
  tryCatch (do
      let observed ← connector.client.orderById platform .get intent.account acknowledged.symbol
        acknowledged.orderId
      reconciled intent acknowledged (some observed))
    fun _ => reconciled intent acknowledged none

def isOrder : Bool :=
  intent.has "symbol" && intent.has "side" && intent.has "orderType"

def executeSpotOrder (guarded : Bool) : Rest ConnectorResult :=
  if !isOrder intent then throw (.ofMessage "Invalid spot order intent.")
  else do
    sideEffect guarded
    let result ← connector.client.placeSpotOrder platform (orderRequest intent)
    connector.acknowledgeLiveOrder intent result

def leverage : Numeral :=
  (numeralOf intent "leverage").getD (.ofNat 1)

def executeFuturesOrder (guarded : Bool) : Rest ConnectorResult :=
  if !isOrder intent then throw (.ofMessage "Invalid futures order intent.")
  else if connector.config.maxFuturesLeverage.double < (leverage intent).double then
    throw (.ofMessage (leverageExceeds (leverage intent) connector.config.maxFuturesLeverage))
  else do
    connector.verifyFuturesIsolatedMargin intent.account intent.symbol
    sideEffect guarded
    let result ← connector.client.placeFuturesOrder platform (orderRequest intent)
      (leverage intent)
    connector.acknowledgeLiveOrder intent result

def executeCancelOrder (guarded : Bool) : Rest ConnectorResult :=
  if !(intent.has "orderId" && intent.has "symbol" && intent.has "account") then
    throw (.ofMessage "Invalid cancel order intent.")
  else do
    sideEffect guarded
    let result ← connector.client.orderById platform .delete intent.account intent.symbol
      intent.orderId
    pure ⟨result.orderId, none, none⟩

def executeOrderStatus : Rest ConnectorResult := do
  let status ← connector.client.orderById platform .get intent.account intent.symbol intent.orderId
  pure ⟨status.orderId, some (toBrokerOrderStatus status.reported), none⟩

def notExecuted : Thrown :=
  .ofMessage ("Binance connector does not execute " ++ intent.action.text ++ ".")

def executeOrder (guarded : Bool) : Rest ConnectorResult :=
  if intent.text "orderType" ≠ "limit" then throw (.ofMessage "Only limit orders are supported.")
  else if intent.text "accountMode" = "spot" then connector.executeSpotOrder intent guarded
  else if intent.text "accountMode" = "usdm_futures" then
    connector.executeFuturesOrder intent guarded
  else throw (notExecuted intent)

def dispatch (guarded : Bool) : Rest ConnectorResult :=
  match intent.action with
  | .placeOrder => connector.executeOrder intent guarded
  | .cancelOrder => connector.executeCancelOrder intent guarded
  | .getOrderStatus => connector.executeOrderStatus intent
  | _ => throw (notExecuted intent)

def execute (guarded : Bool) : Rest ConnectorResult := do
  let verdict ← connector.revalidate intent
  match verdict with
  | .ok () => connector.dispatch intent guarded
  | .error reason => throw (.error .connectorRevalidation reason)

end BinanceConnector
end Binance
end TradingGuardrails
