import TradingGuardrails.Schemas.Intent
import TradingGuardrails.Text.Pattern

/-!
The Ethereum connector before a transaction: what it reads from the calldata, and what it
checks against its configuration. Calldata is any text, so it is cut by code units, and a
part of it need not be a text again.
-/
namespace TradingGuardrails

open Text

abbrev Units := List Nat

namespace Units

def lower (u : Units) : Units :=
  u.flatMap fun n =>
    if n == 304 then [105, 775] else if n == 8490 then [107]
    else if 65 ≤ n && n ≤ 90 then [n + 32] else [n]

def startsWith (word : String) (u : Units) : Bool :=
  (codeUnits word).isPrefixOf u

def blank (n : Nat) : Bool :=
  isSpace (Char.ofNat n)

def trim (u : Units) : Units :=
  ((u.dropWhile blank).reverse.dropWhile blank).reverse

def digit (n : Nat) : Option Nat :=
  if 48 ≤ n ∧ n ≤ 57 then some (n - 48)
  else if 97 ≤ n ∧ n ≤ 102 then some (n - 87)
  else if 65 ≤ n ∧ n ≤ 70 then some (n - 55)
  else none

def digits (base : Nat) (u : Units) : Option Nat :=
  if u.isEmpty then none
  else u.foldlM (fun value n =>
    (digit n).bind fun d => if d < base then some (value * base + d) else none) 0

/-- `BigInt(text)`, nothing where it throws. -/
def bigInt (text : Units) : Option Int :=
  let u := trim text
  if u.isEmpty then some 0
  else if startsWith "0x" u || startsWith "0X" u then (digits 16 (u.drop 2)).map Int.ofNat
  else if startsWith "0o" u || startsWith "0O" u then (digits 8 (u.drop 2)).map Int.ofNat
  else if startsWith "0b" u || startsWith "0B" u then (digits 2 (u.drop 2)).map Int.ofNat
  else if startsWith "-" u then (digits 10 (u.drop 1)).map fun n => -Int.ofNat n
  else if startsWith "+" u then (digits 10 (u.drop 1)).map Int.ofNat
  else (digits 10 u).map Int.ofNat

end Units

namespace Evm

def erc20ApproveSelector : String := "0x095ea7b3"
def erc20TransferSelector : String := "0xa9059cbb"
def uint256MaxHex : String :=
  "0xffffffffffffffffffffffffffffffffffffffffffffffffffffffffffffffff"

structure EvmConfig where
  chainEnvironment : String
  allowedContracts : List String
  allowedFunctions : List String
  allowedTokens : List String
  allowedSpenders : List String
  allowedRecipients : Option (List String) := none

structure DecodedTransaction where
  /-- `to` -/
  target : String
  value : String
  functionSelector : Option Units
  functionName : Option String := none
  isApproval : Bool := false
  approvalAmount : Option Units := none
  spender : Option Units := none
  recipient : Option Units := none
  token : Option String := none

def isAbiCallData (data : Units) : Bool :=
  data.length == 138

/-- `0x${data.slice(start, stop)}` -/
def slice (data : Units) (start stop : Nat) : Units :=
  codeUnits "0x" ++ (data.take stop).drop start

def decodeTransaction (target : String) (data value : Option String) : DecodedTransaction :=
  let data := codeUnits (data.getD "")
  let selector := if 10 ≤ data.length then some (Units.lower (data.take 10)) else none
  let decoded : DecodedTransaction :=
    { target := target, value := value.getD "0", functionSelector := selector }
  if selector == some (codeUnits erc20ApproveSelector) && isAbiCallData data then
    { decoded with
      functionName := some "approve"
      isApproval := true
      token := some target
      spender := some (slice data 34 74)
      approvalAmount := some (slice data 74 138) }
  else if selector == some (codeUnits erc20TransferSelector) && isAbiCallData data then
    { decoded with
      functionName := some "transfer"
      token := some target
      recipient := some (slice data 34 74) }
  else decoded

def isUnlimitedApproval (decoded : DecodedTransaction) : Bool :=
  decoded.isApproval && decoded.approvalAmount.any fun amount =>
    Units.lower amount == codeUnits uint256MaxHex

abbrev ValidationResult := Except Units Unit

def require (valid : Bool) (reason : Units) : ValidationResult :=
  if valid then .ok () else .error reason

-- `toLowerCase` of addresses, which are compared with each other only.
variable (lower : Units → Units)

def listed (allowed : List String) (address : Units) : Bool :=
  allowed.any fun a => lower (codeUnits a) == lower address

def validateContract (decoded : DecodedTransaction) (config : EvmConfig) : ValidationResult :=
  require (listed lower config.allowedContracts (codeUnits decoded.target))
    (codeUnits ("Contract " ++ decoded.target ++ " is not in the allowlist."))

def validateFunction (decoded : DecodedTransaction) (config : EvmConfig)
    (requireFunction : Bool) : ValidationResult :=
  match decoded.functionSelector with
  | none => require (!requireFunction)
      (codeUnits "Ethereum signing requires calldata for an allowed function.")
  | some selector => match decoded.functionName with
    | none => .error (codeUnits "Function " ++ selector ++ codeUnits " calldata is malformed.")
    | some name => require
        (config.allowedFunctions.contains name ||
          config.allowedFunctions.any fun f => codeUnits f == selector)
        (codeUnits "Function " ++ selector ++ codeUnits " is not in the allowlist.")

def validateToken (decoded : DecodedTransaction) (config : EvmConfig) : ValidationResult :=
  match decoded.token with
  | none => .ok ()
  | some token => require (token.isEmpty || listed lower config.allowedTokens (codeUnits token))
      (codeUnits ("Token " ++ token ++ " is not in the allowlist."))

def validateSpender (decoded : DecodedTransaction) (config : EvmConfig) : ValidationResult :=
  match decoded.spender with
  | none => .ok ()
  | some spender => require (listed lower config.allowedSpenders spender)
      (codeUnits "Spender " ++ spender ++ codeUnits " is not in the allowlist.")

variable {host : Host} (config : EvmConfig) (intent : TradingIntent host)

/-- `/^-?\d+$/` and the other conditions on an expected delta. -/
def isExpectedEvmDelta (delta : Json) : Bool :=
  delta.keys.length == 4 &&
    ["address", "asset", "minDelta", "maxDelta"].all (fun key => delta.hasField key) &&
    ["address", "asset"].all (fun key => (delta.field? key).any Check.nonEmpty) &&
    ["minDelta", "maxDelta"].all fun key => (delta.field? key).any IntentSchema.integerDelta

def expectedDeltas : Except Units (List Json) :=
  match intent.value.field? "expectedDeltas" with
  | none => .ok []
  | some (.arr deltas) =>
      if deltas.any fun delta => !isExpectedEvmDelta delta then
        .error (codeUnits
          "Ethereum expected balance deltas must use address-based integer entries.")
      else .ok deltas
  | some _ => .error (codeUnits "Ethereum expected balance deltas must be an array.")

def validateRecipient (recipient : Option Units) : ValidationResult :=
  match recipient with
  | none => .ok ()
  | some recipient => do
      require (intent.has "expectedDeltas")
        (codeUnits "ERC-20 transfer recipient requires expected deltas.")
      require (config.allowedRecipients.any fun allowed => listed lower allowed recipient)
        (codeUnits "Transfer recipient " ++ recipient ++
          codeUnits " is not in the allowlist.")
      require (listed lower ((← expectedDeltas intent).map fun delta => textField delta "address")
          recipient)
        (codeUnits "Transfer recipient " ++ recipient ++
          codeUnits " is not covered by expected deltas.")

def validateApprovalAmount (approvalAmount : Option Units) : ValidationResult :=
  match approvalAmount with
  | none => .ok ()
  | some approvalAmount => match intent.value.field? "maxTokenApprovalAmount" with
    | some (.str maxTokenApprovalAmount) =>
        match Units.bigInt approvalAmount, Units.bigInt (codeUnits maxTokenApprovalAmount) with
        | some amount, some maxAmount => require (decide (amount ≤ maxAmount))
            (codeUnits "Approval amount exceeds maxTokenApprovalAmount.")
        | _, _ => .error (codeUnits "Approval amount must be an integer.")
    | _ => .error (codeUnits "ERC-20 approvals require maxTokenApprovalAmount.")

def optionalText (key : String) : Option String :=
  match intent.value.field? key with
  | some (.str s) => some s
  | _ => none

def decodeIntent : DecodedTransaction :=
  decodeTransaction intent.target (optionalText intent "data") (optionalText intent "value")

def isLive : Environment → Bool
  | .canaryLive | .production => true
  | .dev | .paper | .testnet => false

def revalidate : ValidationResult := do
  require (intent.action == .simulateTransaction || intent.action == .requestSignature)
    (codeUnits "Unsupported Ethereum connector action.")
  require (intent.has "chain" && intent.chain == "ethereum")
    (codeUnits "Intent is not for Ethereum.")
  require (intent.has "chainEnvironment" && intent.chainEnvironment == config.chainEnvironment)
    (codeUnits "Intent Ethereum environment does not match connector.")
  require (!(intent.action == .requestSignature && intent.chainEnvironment == "mainnet" &&
      !isLive intent.environment))
    (codeUnits "Mainnet signing requires a live environment.")
  require (intent.has "to") (codeUnits "Intent missing 'to' address.")
  let decoded := decodeIntent intent
  require (!isUnlimitedApproval decoded)
    (codeUnits "Unlimited token approvals are not permitted.")
  validateContract lower decoded config
  validateFunction decoded config (intent.action == .requestSignature)
  validateToken lower decoded config
  validateSpender lower decoded config
  let deltas ← expectedDeltas intent
  require (!(intent.action == .requestSignature && deltas.isEmpty))
    (codeUnits "Ethereum expected balance deltas are required.")
  validateRecipient lower config intent decoded.recipient
  validateApprovalAmount intent decoded.approvalAmount

end Evm
end TradingGuardrails
