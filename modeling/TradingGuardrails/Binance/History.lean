import TradingGuardrails.Binance.Client

/-!
The records of the exchange, page by page: a window of time is halved until every half fits
on a page, and trades are read from a cursor on.
-/
namespace TradingGuardrails

open Text Interleaving

namespace Binance

def pageSize : Nat := 1000

structure Trade where
  id : String
  orderId : String
  symbol : String
  side : Side
  quantity : ℚ
  quoteQuantity : ℚ
  price : ℚ
  commission : ℚ
  commissionAsset : String
  timestampMs : ℤ
  deriving DecidableEq

namespace RestClient

variable (platform : Platform) (client : RestClient)

def tradeSide (data : Json) : Except Thrown Side :=
  match client.accountMode, data.field? "isBuyer" with
  | .spot, some (.bool isBuyer) => .ok (if isBuyer then .buy else .sell)
  | .spot, _ => invalid
  | .usdmFutures, _ => Binance.side (data.field? "side")

def trade (data : Json) (symbol : String) : Except Thrown Trade := do
  let wire ← wireSymbol symbol
  if data.field? "symbol" ≠ some (.str wire) then invalid
  else
    let side ← client.tradeSide data
    let id ← Binance.id (data.field? "id")
    let orderId ← Binance.id (data.field? "orderId")
    let quantity ← positive (data.field? "qty")
    let quoteQuantity ← positive (data.field? "quoteQty")
    let price ← positive (data.field? "price")
    let commission ← number (data.field? "commission") (some 0)
    let commissionAsset ← Binance.text (data.field? "commissionAsset")
    let timestampMs ← timestamp (data.field? "time")
    .ok ⟨id, orderId, symbol, side, quantity, quoteQuantity, price, commission, commissionAsset,
      timestampMs⟩

def windowParams (params : Params) (start stop : ℤ) : Params :=
  Json.putMember (Json.putMember (Json.putMember params "startTime" (intText start))
    "endTime" (intText stop)) "limit" (natText pageSize)

def checkTime (start stop : ℤ) (item : Json) : Except Thrown Unit := do
  let time ← timestamp (item.field? "time")
  if time < start ∨ stop < time then invalid else .ok ()

def readWindow (start stop : ℤ) (data : Json) : Except Thrown (List Json) := do
  let result ← rows (some data)
  if pageSize < result.length then invalid
  else
    result.forM (checkTime start stop)
    .ok result

def overfull : Thrown :=
  .ofMessage "Binance history exceeds one millisecond page; completeness cannot be established."

def timeWindow (path : String) (params : Params) (start stop : ℤ) : Rest (List Json) :=
  if stop < start then pure []
  else do
    let data ← client.request platform .get path (windowParams params start stop) true
      client.origin
    let result ← check (readWindow start stop data)
    if result.length < pageSize then pure result
    else if start = stop then throw overfull
    else do
      let middle := start + (stop - start) / 2
      let first ← timeWindow path params start middle
      let second ← timeWindow path params (middle + 1) stop
      pure (first ++ second)
termination_by (stop - start + 1).toNat
decreasing_by
  all_goals omega

/-- The trades of a page up to the cutoff, the last of its ids, and whether a trade lies
beyond the cutoff. -/
structure TradePage where
  trades : List Trade
  previous : ℤ
  beyondCutoff : Bool

def tradesPath : String := "/api/v3/myTrades"

def readTrade (symbol : String) (cutoff : ℤ) (page : TradePage) (item : Json) :
    Except Thrown TradePage := do
  let trade ← client.trade item symbol
  let current : ℤ := digitsValue trade.id.toList
  if current ≤ page.previous then
    .error (.ofMessage "Binance trade history cursor did not advance.")
  else if trade.timestampMs ≤ cutoff then
    .ok { page with trades := page.trades ++ [trade], previous := current }
  else .ok { page with previous := current, beyondCutoff := true }

def readTrades (symbol : String) (cutoff : ℤ) (trades : List Trade) (fromId : String)
    (page : List Json) : Except Thrown TradePage :=
  if pageSize < page.length then invalid
  else page.foldlM (client.readTrade symbol cutoff)
    ⟨trades, (digitsValue fromId.toList : ℤ) - 1, false⟩

/-- The loop of `spotTrades`, for some rounds; nothing when they do not suffice. -/
def readPages (symbol : String) (cutoff : ℤ) : Nat → List Trade → String →
    Rest (Option (List Trade))
  | 0, _, _ => pure none
  | rounds + 1, trades, fromId => do
      let wire ← check (client.symbol symbol false)
      let data ← client.request platform .get tradesPath
        [("symbol", wire), ("fromId", fromId), ("limit", natText pageSize)] true client.origin
      let page ← check (rows (some data))
      let read ← check (client.readTrades symbol cutoff trades fromId page)
      if page.length < pageSize ∨ read.beyondCutoff = true then pure (some read.trades)
      else readPages symbol cutoff rounds read.trades (intText (read.previous + 1))

def spotTrades (rounds : Nat) (symbol : String) (cutoff : ℤ) : Rest (Option (List Trade)) :=
  client.readPages platform symbol cutoff rounds [] "0"

end RestClient
end Binance
end TradingGuardrails
