import TradingGuardrails.Broker.Broker
import TradingGuardrails.Evm.Trace

/-!
The offline signer: what it is asked to sign, the checks that a request passes before
anything is stored, and the check that a stored signature passes before it is handed out
again.
-/
namespace TradingGuardrails

open Text

namespace Signer

inductive SignerError where
  | http (status : Nat) (message : String)
  | thrown (error : Thrown)

/-- `/^(0|[1-9][0-9]{0,77})$/`, at most the largest word. -/
def isUnsignedDecimal (s : String) : Bool :=
  IntentSchema.canonicalDecimal s && decide (s.length ≤ 78) &&
    decide (Nat.ofDigitChars 10 s.toList 0 < 2 ^ 256)

structure UnsignedDecimal where
  text : String
  valid : isUnsignedDecimal text = true
  deriving DecidableEq

/-- `BigInt(text)` -/
def UnsignedDecimal.value (d : UnsignedDecimal) : Nat :=
  Nat.ofDigitChars 10 d.text.toList 0

/-- `/^[A-Za-z0-9._:-]{1,128}$/` -/
def isCorrelationId (s : String) : Bool :=
  decide (1 ≤ s.length) && decide (s.length ≤ 128) && s.toList.all fun c =>
    c.isAlphanum || ['.', '_', ':', '-'].contains c

/-- What the schema `SigningRequest` returns for a body that it accepts. -/
structure SigningRequest (host : Host) where
  intentId : String
  correlationId : String
  intent : TradingIntent host
  decidedAt : String
  decisionToken : String
  nonce : Nat
  gas : UnsignedDecimal
  maxFeePerGas : UnsignedDecimal
  maxPriorityFeePerGas : UnsignedDecimal
  uuid : host.isUuid intentId = true
  correlated : isCorrelationId correlationId = true
  dated : host.isDatetime decidedAt = true
  token : isHexDigest decisionToken = true
  safe : nonce ≤ 9007199254740991
  deriving DecidableEq

variable {host : Host}

namespace SigningRequest

def json (request : SigningRequest host) : Json :=
  .record [
    ("approval", some (.record [
      ("intentId", some (.str request.intentId)),
      ("correlationId", some (.str request.correlationId)),
      ("outcome", some (.str "allow")),
      ("intent", some request.intent.value),
      ("decidedAt", some (.str request.decidedAt)),
      ("decisionToken", some (.str request.decisionToken))])),
    ("transaction", some (.record [
      ("nonce", some (.num (.ofNat request.nonce))),
      ("gas", some (.str request.gas.text)),
      ("maxFeePerGas", some (.str request.maxFeePerGas.text)),
      ("maxPriorityFeePerGas", some (.str request.maxPriorityFeePerGas.text))]))]

def requestHash (request : SigningRequest host) : String :=
  host.sha256 (stringify request.json)

/-- `createGuardrailDecisionToken({ ...approval, secret })` -/
def expectedToken (request : SigningRequest host) (secret : String) : String :=
  host.hmacSha256 secret (decisionTokenMessage host request.intent.value (some (.str "allow"))
    (some (.str request.correlationId)) (some (.str request.decidedAt)) none false)

end SigningRequest

structure OfflineSignature where
  intentId : String
  address : String
  signedTransaction : String
  transactionHash : String
  deriving DecidableEq

/-- What `signTransaction` is called with, besides the type and the chain. -/
structure UnsignedTransaction where
  target : String
  data : String
  value : Nat
  nonce : Nat
  gas : Nat
  maxFeePerGas : Nat
  maxPriorityFeePerGas : Nat
  deriving DecidableEq

structure ParsedTransaction where
  chainId : Nat
  target : Option String
  data : Option String
  value : Option Nat
  nonce : Option Nat
  gas : Option Nat
  maxFeePerGas : Option Nat
  maxPriorityFeePerGas : Option Nat

structure Viem where
  isAddress : String → Bool
  keccak256 : String → String
  recoverTransactionAddress : String → Except Thrown String
  parseTransaction : String → Except Thrown ParsedTransaction

/-- The configuration of a signer process, read from its environment. -/
structure SignerConfig where
  environment : Environment
  secret : String
  maxGas : Nat
  maxFeePerGas : Nat
  maxTotalFee : Nat
  offline : environment = .dev ∨ environment = .paper

def sepoliaChainId : Nat := 11155111

def decisionMaxAgeMs : Int := 300000

variable (viem : Viem) (config : SignerConfig) (request : SigningRequest host)

def reject (status : Nat) (message : String) : Except SignerError Unit :=
  .error (.http status message)

def checkToken : Except SignerError Unit :=
  if hexBytes (request.expectedToken config.secret) ≠ hexBytes request.decisionToken then
    reject 403 "Guardrail decision token is invalid."
  else .ok ()

def checkAge (now : Int) : Except SignerError Unit :=
  match host.dateParse request.decidedAt with
  | none => .ok ()
  | some decidedAt =>
      if now - decidedAt < 0 ∨ decisionMaxAgeMs < now - decidedAt then
        reject 403 "Guardrail decision is stale or future-dated."
      else .ok ()

def intentData : String :=
  (Evm.optionalText request.intent "data").getD "0x"

def intentValue : String :=
  (Evm.optionalText request.intent "value").getD "0"

/-- `/^0x(?:[0-9a-fA-F]{2})*$/` -/
def isHexData (s : String) : Bool :=
  match s.toList with
  | '0' :: 'x' :: digits => Evm.hexPairs digits
  | _ => false

def checkSubject : Except SignerError Unit :=
  if request.intentId ≠ request.intent.intentId ∨
      request.intent.environment ≠ config.environment then
    reject 403 "Approval does not match signer environment or intent."
  else if request.intent.action ≠ .requestSignature ∨ request.intent.chain ≠ "ethereum" ∨
      request.intent.chainEnvironment ≠ "sepolia" then
    reject 403 "Only authorized Ethereum Sepolia signing intents are accepted."
  else if !viem.isAddress request.intent.target ||
      request.intent.resource != "onchain:ethereum:sepolia:" ++ request.intent.target ||
      !isHexData (intentData request) || !isUnsignedDecimal (intentValue request) then
    reject 400 "Invalid transaction destination, resource, calldata, or value."
  else .ok ()

def unreadable : SignerError :=
  .thrown (.error .error "Cannot convert a text to a BigInt.")

def checkApproval : Except SignerError Unit :=
  let decoded := Evm.decodeIntent request.intent
  let refused := reject 403
    "Token approval is malformed, unlimited, or exceeds its authorized cap."
  if decoded.functionSelector != some (codeUnits Evm.erc20ApproveSelector) then .ok ()
  else if !decoded.isApproval || Evm.isUnlimitedApproval decoded then refused
  else
    let maxTokenApprovalAmount :=
      (Evm.optionalText request.intent "maxTokenApprovalAmount").getD ""
    if maxTokenApprovalAmount.isEmpty then refused
    else match Units.bigInt (codeUnits maxTokenApprovalAmount),
        Units.bigInt (decoded.approvalAmount.getD (codeUnits "0")) with
      | some cap, amount =>
          if cap = 2 ^ 256 - 1 then refused
          else match amount with
            | some amount => if cap < amount then refused else .ok ()
            | none => .error unreadable
      | none, _ => .error unreadable

def checkLimits : Except SignerError Unit :=
  let gas := request.gas.value
  let fee := request.maxFeePerGas.value
  let priority := request.maxPriorityFeePerGas.value
  if gas < 21000 ∨ config.maxGas < gas ∨ fee = 0 ∨ config.maxFeePerGas < fee ∨ fee < priority ∨
      config.maxTotalFee < gas * fee then
    reject 403 "Transaction exceeds signer gas or fee limits."
  else .ok ()

def checkRequest (now : Int) : Except SignerError Unit := do
  checkAge request now
  checkSubject viem config request
  checkApproval request
  checkLimits config request

def unsigned : UnsignedTransaction where
  target := request.intent.target
  data := intentData request
  value := Nat.ofDigitChars 10 (intentValue request).toList 0
  nonce := request.nonce
  gas := request.gas.value
  maxFeePerGas := request.maxFeePerGas.value
  maxPriorityFeePerGas := request.maxPriorityFeePerGas.value

def signature (address signedTransaction : String) : OfflineSignature where
  intentId := request.intent.intentId
  address := address
  signedTransaction := signedTransaction
  transactionHash := viem.keccak256 signedTransaction

def OfflineSignature.accepted (host : Host) (stored : OfflineSignature) : Bool :=
  host.isUuid stored.intentId && Evm.isAddressText stored.address &&
    (match stored.signedTransaction.toList with
      | '0' :: 'x' :: '0' :: '2' :: digits => !digits.isEmpty && digits.all hexDigitLower
      | _ => false) &&
    match stored.transactionHash.toList with
    | '0' :: 'x' :: digits => digits.length == 64 && digits.all hexDigitLower
    | _ => false

def mismatch : Thrown :=
  .error .error "Signer returned a signature that does not match the authorized request."

def sameText (s t : String) : Bool := lowerCase s == lowerCase t

def verifyOfflineSignature (result : OfflineSignature) (expectedAddress : String) :
    Except Thrown Unit := do
  let address ← viem.recoverTransactionAddress result.signedTransaction
  let transaction ← viem.parseTransaction result.signedTransaction
  let expected := unsigned request
  if request.intent.action ≠ .requestSignature ∨ request.intent.chain ≠ "ethereum" ∨
      address ≠ expectedAddress ∨ address ≠ result.address ∨
      viem.keccak256 result.signedTransaction ≠ result.transactionHash ∨
      result.intentId ≠ request.intent.intentId ∨ transaction.chainId ≠ sepoliaChainId ∨
      !transaction.target.any (sameText · expected.target) ∨
      !sameText (transaction.data.getD "0x") expected.data ∨
      transaction.value.getD 0 ≠ expected.value ∨ transaction.nonce ≠ some expected.nonce ∨
      transaction.gas ≠ some expected.gas ∨
      transaction.maxFeePerGas ≠ some expected.maxFeePerGas ∨
      transaction.maxPriorityFeePerGas ≠ some expected.maxPriorityFeePerGas then
    throw mismatch

structure Authorized (now : Int) : Prop where
  verifies : hexBytes (request.expectedToken config.secret) = hexBytes request.decisionToken
  fresh : ∃ decidedAt, host.dateParse request.decidedAt = some decidedAt ∧
    0 ≤ now - decidedAt ∧ now - decidedAt ≤ decisionMaxAgeMs
  environment : request.intent.environment = config.environment
  sepolia : request.intent.action = .requestSignature ∧ request.intent.chain = "ethereum" ∧
    request.intent.chainEnvironment = "sepolia"
  approved : request.intentId = request.intent.intentId
  gas : 21000 ≤ request.gas.value ∧ request.gas.value ≤ config.maxGas
  fee : 0 < request.maxFeePerGas.value ∧ request.maxFeePerGas.value ≤ config.maxFeePerGas ∧
    request.maxPriorityFeePerGas.value ≤ request.maxFeePerGas.value
  total : request.gas.value * request.maxFeePerGas.value ≤ config.maxTotalFee

variable {viem config request}

/-- Every text that the schema takes for a date and time is read as one. -/
def ReadsDates (host : Host) : Prop :=
  ∀ s, host.isDatetime s = true → (host.dateParse s).isSome = true

theorem authorized_of_checks (hdates : ReadsDates host) {now : Int}
    (htoken : checkToken config request = .ok ())
    (hrequest : checkRequest viem config request now = .ok ()) :
    Authorized config request now := by
  obtain ⟨_, hage, hrest⟩ := bind_eq_ok.mp hrequest
  obtain ⟨_, hsubject, hrest⟩ := bind_eq_ok.mp hrest
  obtain ⟨_, _, hlimits⟩ := bind_eq_ok.mp hrest
  have hverifies : hexBytes (request.expectedToken config.secret) =
      hexBytes request.decisionToken := by
    by_contra hne
    rw [checkToken, if_pos hne] at htoken
    cases htoken
  have hfresh : ∃ decidedAt, host.dateParse request.decidedAt = some decidedAt ∧
      0 ≤ now - decidedAt ∧ now - decidedAt ≤ decisionMaxAgeMs := by
    obtain ⟨decidedAt, hparsed⟩ := Option.isSome_iff_exists.mp (hdates _ request.dated)
    unfold checkAge at hage
    rw [hparsed] at hage
    simp only at hage
    split_ifs at hage with hbad
    · cases hage
    · exact ⟨decidedAt, hparsed, by omega, by omega⟩
  unfold checkSubject at hsubject
  split_ifs at hsubject with happroval hsepolia hshape
  · cases hsubject
  · cases hsubject
  · cases hsubject
  · rw [not_or, not_not, not_not] at happroval
    rw [not_or, not_or, not_not, not_not, not_not] at hsepolia
    simp only [checkLimits] at hlimits
    split_ifs at hlimits with hbad
    · cases hlimits
    · exact ⟨hverifies, hfresh, happroval.2, hsepolia, happroval.1, by omega, by omega, by omega⟩

end Signer
end TradingGuardrails
