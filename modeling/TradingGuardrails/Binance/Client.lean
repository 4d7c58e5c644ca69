import TradingGuardrails.Binance.Number
import TradingGuardrails.Interleaving.Trace

/-!
The client of the exchange. Every request is one operation of a program, and the exchange
answers it in any way; what an answer has to look like is checked by the program.
-/
namespace TradingGuardrails

open Text Interleaving

namespace Binance

inductive AccountMode where
  | spot
  | usdmFutures
  deriving DecidableEq

def AccountMode.text : AccountMode → String
  | .spot => "spot"
  | .usdmFutures => "usdm_futures"

inductive Method where
  | get
  | post
  | delete
  deriving DecidableEq

def Method.text : Method → String
  | .get => "GET"
  | .post => "POST"
  | .delete => "DELETE"

abbrev Params := List (String × String)

structure Response where
  ok : Bool
  status : Nat
  value : Json

inductive BinanceOp where
  /-- `this.now()` of the client -/
  | clientNow
  | fetch (method : Method) (origin path : String) (query : Params) (signed : Bool)
  /-- `Date.now()` of the connector -/
  | now
  | beforeSideEffect

/-- A request fails when there is no response, or none that can be read. -/
abbrev BinanceAns : BinanceOp → Type
  | .clientNow | .now => ℤ
  | .fetch _ _ _ _ _ => Option Response
  | .beforeSideEffect => Except Thrown Unit

abbrev Rest (α : Type) := Routine BinanceOp BinanceAns Unit Thrown α

def act (op : BinanceOp) : Rest (BinanceAns op) :=
  Routine.perform op

def check {α : Type} (result : Except Thrown α) : Rest α :=
  Routine.ofExcept result

/-- The parts of the language and its libraries that the client uses. -/
structure Platform where
  host : Host
  /-- `new URLSearchParams(...).toString()` -/
  encode : Params → String

structure RestClient where
  account : String
  accountMode : AccountMode
  historySymbols : List String
  allowedSymbols : List String
  apiSecret : String
  testnet : Bool
  maxLeverage : ℚ
  recvWindowMs : Nat

namespace RestClient

variable (platform : Platform) (client : RestClient)

def origin : String :=
  match client.accountMode, client.testnet with
  | .spot, true => "https://testnet.binance.vision"
  | .spot, false => "https://api.binance.com"
  | .usdmFutures, true => "https://demo-fapi.binance.com"
  | .usdmFutures, false => "https://fapi.binance.com"

def mainnetSapiOrigin : String := "https://api.binance.com"

def assertAccount (account : String) : Except Thrown Unit :=
  if account ≠ client.account then
    .error (.ofMessage "Binance account is not bound to this credential.")
  else .ok ()

def symbol (symbol : String) (trading : Bool) : Except Thrown String :=
  if !(if trading then client.allowedSymbols else client.historySymbols).contains symbol then
    .error (.ofMessage "Binance symbol is not in the configured universe.")
  else wireSymbol symbol

def assertMode (mode : AccountMode) : Except Thrown Unit :=
  if client.accountMode ≠ mode then
    .error (.ofMessage "Binance operation does not match the configured product.")
  else .ok ()

/-- `timestamp(this.now())` -/
def clockTime (now : ℤ) : Except Thrown ℤ :=
  if 0 ≤ now ∧ (now : ℚ) ≤ maxSafeInteger then .ok now else invalid

def signedQuery (params : Params) (now : ℤ) : Params :=
  let query := Json.putMember (Json.putMember params "timestamp" (intText now)) "recvWindow"
    (natText client.recvWindowMs)
  Json.putMember query "signature"
    (platform.host.hmacSha256 client.apiSecret (platform.encode query))

def unknownExecution (method : Method) (path : String) (failure : String) : Thrown :=
  .ofMessage ("Binance " ++ method.text ++ " " ++ path ++ failure)

/-- The body of a response, unless the exchange has refused the request. -/
def accepted (method : Method) (path : String) (response : Response) : Except Thrown Json :=
  let code := match response.value.field? "code" with
    | some (.num n) => some n.value
    | _ => none
  if !response.ok || code.any (· < 0) then
    let suffix := match code with
      | some code =>
          if code.den = 1 ∧ -maxSafeInteger ≤ code ∧ code ≤ maxSafeInteger then
            ", code " ++ intText code.num
          else ""
      | none => ""
    .error (unknownExecution method path (" failed (HTTP " ++ natText response.status ++ suffix ++
      "); execution may be unknown."))
  else .ok response.value

def answered (method : Method) (path : String) : Option Response → Except Thrown Json
  | some response => accepted method path response
  | none => .error (unknownExecution method path
      " transport or response failure; execution may be unknown.")

def send (method : Method) (origin path : String) (query : Params) (signed : Bool) :
    Rest Json := do
  let response ← act (.fetch method origin path query signed)
  check (answered method path response)

def request (method : Method) (path : String) (params : Params) (signed : Bool)
    (origin : String) : Rest Json :=
  if signed then do
    let now ← act .clientNow
    let now ← check (clockTime now)
    send method origin path (client.signedQuery platform params now) true
  else send method origin path params false

structure MarketData where
  symbol : String
  price : ℚ
  timestampMs : ℤ

def pricePath : String :=
  match client.accountMode with
  | .spot => "/api/v3/ticker/price"
  | .usdmFutures => "/fapi/v2/ticker/price"

def readPrice (symbol : String) (started : ℤ) (data : Json) : Except Thrown MarketData := do
  let wire ← wireSymbol symbol
  if data.field? "symbol" ≠ some (.str wire) then invalid
  else
    let price ← positive (data.field? "price")
    let timestampMs ← match client.accountMode with
      | .spot => .ok started
      | .usdmFutures => timestamp (data.field? "time")
    .ok ⟨symbol, price, timestampMs⟩

def getPrice (symbol : String) : Rest MarketData := do
  let started ← act .clientNow
  let wire ← check (client.symbol symbol false)
  let data ← client.request platform .get client.pricePath [("symbol", wire)] false client.origin
  let data ← check (row (some data))
  check (client.readPrice symbol started data)

def assertOneWay (position : Json) : Except Thrown Unit :=
  if position.field? "positionSide" ≠ some (.str "BOTH") then
    .error (.ofMessage "Binance hedge-mode positions are not supported.")
  else .ok ()

def positionRiskPath : String := "/fapi/v2/positionRisk"

def futuresPositions (symbol : String) : Rest (List Json) := do
  let wire ← check (client.symbol symbol false)
  let data ← client.request platform .get positionRiskPath [("symbol", wire)] true client.origin
  let data ← check (rows (some data))
  check (data.forM assertOneWay)
  pure data

inductive MarginType where
  | isolated
  | cross
  deriving DecidableEq

def readMarginType (symbol : String) (data : List Json) : Except Thrown MarginType := do
  let wire ← wireSymbol symbol
  match data with
  | [position] =>
      if position.field? "symbol" ≠ some (.str wire) then invalid
      else match position.field? "marginType" with
        | some (.str "isolated") => .ok .isolated
        | some (.str "cross") => .ok .cross
        | _ => invalid
  | _ => invalid

def getFuturesMarginType (account symbol : String) : Rest MarginType := do
  check (client.assertAccount account)
  check (client.assertMode .usdmFutures)
  let data ← client.futuresPositions platform symbol
  check (readMarginType symbol data)

inductive OrderType where
  | limit
  | market
  deriving DecidableEq

def OrderType.text : OrderType → String
  | .limit => "LIMIT"
  | .market => "MARKET"

structure OrderRequest where
  account : String
  symbol : String
  side : Side
  type : OrderType
  quantity : Option Numeral
  price : Option Numeral
  clientOrderId : Option String

/-- `/^[.A-Z:/a-z0-9_-]{1,36}$/` -/
def isClientOrderId (s : String) : Bool :=
  decide (1 ≤ s.length) && decide (s.length ≤ 36) && s.toList.all fun c =>
    c.isAlphanum || ['.', ':', '/', '_', '-'].contains c

def priceParams (params : OrderRequest) : Except Thrown Params :=
  match params.type with
  | .limit => do
      let price ← decimal params.price
      .ok [("price", price), ("timeInForce", "GTC")]
  | .market =>
      if params.price.isSome then
        .error (.ofMessage "Binance market orders must not specify a limit price.")
      else .ok []

def clientOrderParams (params : OrderRequest) : Except Thrown Params :=
  match params.clientOrderId with
  | some clientOrderId =>
      if !isClientOrderId clientOrderId then
        .error (.ofMessage "Invalid Binance client order ID.")
      else .ok [("newClientOrderId", clientOrderId)]
  | none => .ok []

def orderParams (params : OrderRequest) : Except Thrown Params := do
  client.assertAccount params.account
  let wire ← client.symbol params.symbol true
  let quantity ← decimal params.quantity
  let price ← priceParams params
  let clientOrder ← clientOrderParams params
  .ok ([("symbol", wire), ("side", params.side.text), ("type", params.type.text),
    ("quantity", quantity), ("newOrderRespType", "RESULT")] ++ price ++ clientOrder)

structure OrderResult where
  orderId : String
  symbol : String
  side : Side
  status : String
  executedQty : ℚ
  avgPrice : ℚ
  deriving DecidableEq

def orderStatuses : List String := ["NEW", "PENDING_NEW", "PARTIALLY_FILLED", "FILLED", "CANCELED",
  "PENDING_CANCEL", "REJECTED", "EXPIRED", "EXPIRED_IN_MATCH"]

def readAvgPrice (data : Json) (executedQty : ℚ) : Except Thrown ℚ :=
  match client.accountMode with
  | .spot => do
      let quote ← number (data.field? "cummulativeQuoteQty") (some 0)
      if 0 < executedQty then
        if quote = 0 then invalid
        else match Binary64.nearest (quote / executedQty) with
          | some avgPrice => .ok avgPrice
          | none => invalid
      else .ok 0
  | .usdmFutures => number (data.field? "avgPrice") (some 0)

def orderResult (data : Json) (symbol : String) : Except Thrown OrderResult := do
  let data ← row (some data)
  let wire ← wireSymbol symbol
  if data.field? "symbol" ≠ some (.str wire) then invalid
  else
    let status ← text (data.field? "status")
    if !orderStatuses.contains status then invalid
    else
      let executedQty ← number (data.field? "executedQty") (some 0)
      let avgPrice ← client.readAvgPrice data executedQty
      if 0 < executedQty ∧ avgPrice ≤ 0 then invalid
      else
        let orderId ← Binance.id (data.field? "orderId")
        let side ← Binance.side (data.field? "side")
        .ok ⟨orderId, symbol, side, status, executedQty, avgPrice⟩

def spotOrderPath : String := "/api/v3/order"

def futuresOrderPath : String := "/fapi/v1/order"

def leveragePath : String := "/fapi/v1/leverage"

def readPlaced (params : OrderRequest) (data : Json) : Except Thrown OrderResult := do
  let result ← client.orderResult data params.symbol
  if result.side ≠ params.side then invalid else .ok result

def placeSpotOrder (params : OrderRequest) : Rest OrderResult := do
  check (client.assertMode .spot)
  let request ← check (client.orderParams params)
  let data ← client.request platform .post spotOrderPath request true client.origin
  check (client.readPlaced params data)

def checkLeverage (leverage : Numeral) : Except Thrown Unit :=
  if leverage.double.den ≠ 1 ∨ leverage.double < 1 ∨ client.maxLeverage < leverage.double then
    .error (.ofMessage "Binance requested leverage exceeds the configured limit.")
  else .ok ()

def readLeverage (wire : String) (leverage : Numeral) (data : Json) : Except Thrown Unit := do
  let data ← row (some data)
  if data.field? "symbol" ≠ some (.str wire) then invalid
  else
    let acknowledged ← number (data.field? "leverage") none
    if acknowledged ≠ leverage.double then invalid else .ok ()

def wireOf (request : Params) : String :=
  (request.lookup "symbol").getD ""

def placeFuturesOrder (params : OrderRequest) (leverage : Numeral) : Rest OrderResult := do
  check (client.assertMode .usdmFutures)
  let request ← check (client.orderParams params)
  check (client.checkLeverage leverage)
  let marginType ← client.getFuturesMarginType platform params.account params.symbol
  if marginType ≠ .isolated then
    throw (.ofMessage "Binance futures orders require isolated margin.")
  let data ← client.request platform .post leveragePath
    [("symbol", wireOf request), ("leverage", String.ofList leverage.text)] true client.origin
  check (readLeverage (wireOf request) leverage data)
  let data ← client.request platform .post futuresOrderPath
    (request ++ [("positionSide", "BOTH")]) true client.origin
  check (client.readPlaced params data)

def orderById (method : Method) (account symbol orderId : String) : Rest OrderResult := do
  check (client.assertAccount account)
  let requestedId ← check (Binance.id (some (.str orderId)))
  let path := match client.accountMode with
    | .spot => spotOrderPath
    | .usdmFutures => futuresOrderPath
  let wire ← check (client.symbol symbol false)
  let data ← client.request platform method path [("symbol", wire), ("orderId", requestedId)] true
    client.origin
  let result ← check (client.orderResult data symbol)
  if result.orderId ≠ requestedId then check invalid else pure result

structure ApiKeyPermissions where
  ipRestrict : Bool
  enableWithdrawals : Bool
  enableReading : Bool
  enableSpotAndMarginTrading : Bool
  enableFutures : Bool

def readPermissions (data : Json) : Except Thrown ApiKeyPermissions := do
  let data ← row (some data)
  let ipRestrict ← flag (data.field? "ipRestrict")
  let enableWithdrawals ← flag (data.field? "enableWithdrawals")
  let enableReading ← flag (data.field? "enableReading")
  let enableSpotAndMarginTrading ← flag (data.field? "enableSpotAndMarginTrading")
  let enableFutures ← flag (data.field? "enableFutures")
  .ok ⟨ipRestrict, enableWithdrawals, enableReading, enableSpotAndMarginTrading, enableFutures⟩

def getApiKeyPermissions : Rest ApiKeyPermissions := do
  if client.testnet then
    throw (.ofMessage "Binance API key permissions are not queried on testnet.")
  let data ← client.request platform .get "/sapi/v1/account/apiRestrictions" [] true
    mainnetSapiOrigin
  check (readPermissions data)

variable {platform client}
variable {C : Contract BinanceOp BinanceAns} {s : C.State} {l : Unit}
  {ok : C.State → Unit → Json → Prop} {err : C.State → Unit → Thrown → Prop}

theorem obeys_check {α : Type} {ok : C.State → Unit → α → Prop} {result : Except Thrown α}
    (hok : ∀ a, result = .ok a → ok s l a) (herr : ∀ e, result = .error e → err s l e) :
    Routine.Obeys C ok err s l (check result) :=
  Routine.obeys_ofExcept.mpr ⟨hok, herr⟩

theorem obeys_send {method : Method} {origin path : String} {query : Params} {signed : Bool}
    (hallowed : C.allowed s (.fetch method origin path query signed))
    (hok : ∀ response data, answered method path response = .ok data →
      ok (C.next s (.fetch method origin path query signed) response) l data)
    (herr : ∀ response e, answered method path response = .error e →
      err (C.next s (.fetch method origin path query signed) response) l e) :
    Routine.Obeys C ok err s l (send method origin path query signed) := by
  refine Routine.obeys_bind.mpr (Routine.obeys_perform.mpr ⟨hallowed, fun response => ?_⟩)
  exact obeys_check (fun data hdata => hok response data hdata) fun e he => herr response e he

theorem clockTime_ok {now time : ℤ} (h : clockTime now = .ok time) : time = now := by
  unfold clockTime at h
  split_ifs at h
  · cases h
    rfl
  · cases h

theorem obeys_signed {method : Method} {path : String} {params : Params} {origin : String}
    (hclock : C.allowed s .clientNow)
    (hstale : ∀ now e, clockTime now = .error e → err (C.next s .clientNow now) l e)
    (hsend : ∀ now, clockTime now = .ok now →
      Routine.Obeys C ok err (C.next s .clientNow now) l
        (send method origin path (client.signedQuery platform params now) true)) :
    Routine.Obeys C ok err s l (client.request platform method path params true origin) := by
  rw [request, if_pos rfl]
  refine Routine.obeys_bind.mpr (Routine.obeys_perform.mpr ⟨hclock, fun now => ?_⟩)
  refine Routine.obeys_bind.mpr (obeys_check (fun time htime => ?_) fun e he => hstale now e he)
  obtain rfl := clockTime_ok htime
  exact hsend time htime

end RestClient
end Binance
end TradingGuardrails
