import TradingGuardrails.Schemas.Check

/-!
The enumerations shared by the schemas. Each has its texts, and a text stands for at
most one member.
-/
namespace TradingGuardrails

inductive Environment where
  | dev
  | paper
  | testnet
  | canaryLive
  | production
  deriving DecidableEq

namespace Environment

def text : Environment → String
  | .dev => "dev"
  | .paper => "paper"
  | .testnet => "testnet"
  | .canaryLive => "canary_live"
  | .production => "production"

def all : List Environment := [.dev, .paper, .testnet, .canaryLive, .production]

def ofText? (s : String) : Option Environment :=
  all.find? fun e => e.text == s

theorem ofText?_text (e : Environment) : ofText? e.text = some e := by
  cases e <;> decide

end Environment

inductive Action where
  | placeOrder
  | cancelOrder
  | getOrderStatus
  | simulateTransaction
  | requestSignature
  deriving DecidableEq

namespace Action

def text : Action → String
  | .placeOrder => "cex.place_order"
  | .cancelOrder => "cex.cancel_order"
  | .getOrderStatus => "cex.get_order_status"
  | .simulateTransaction => "onchain.simulate_transaction"
  | .requestSignature => "onchain.request_signature"

def all : List Action :=
  [.placeOrder, .cancelOrder, .getOrderStatus, .simulateTransaction, .requestSignature]

def ofText? (s : String) : Option Action :=
  all.find? fun a => a.text == s

theorem ofText?_text (a : Action) : ofText? a.text = some a := by
  cases a <;> decide

end Action

inductive Outcome where
  | allow
  | deny
  | needsHuman
  deriving DecidableEq

namespace Outcome

def text : Outcome → String
  | .allow => "allow"
  | .deny => "deny"
  | .needsHuman => "needs_human"

def all : List Outcome := [.allow, .deny, .needsHuman]

def ofText? (s : String) : Option Outcome :=
  all.find? fun o => o.text == s

end Outcome

namespace Check

def environment : Check := oneOf (Environment.all.map Environment.text)

def decision : Check := oneOf (Outcome.all.map Outcome.text)

def riskTier : Check := oneOf ["low", "medium", "high", "critical"]

end Check
end TradingGuardrails
