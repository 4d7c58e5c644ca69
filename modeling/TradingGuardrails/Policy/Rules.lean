import TradingGuardrails.Policy.Rego
import TradingGuardrails.Schemas.Common

/-!
The guardrail policy: hard denials, escalations and allow entries, and the decision that
is made from them. A rule of the policy is written as a Boolean that tells whether one of
its bodies holds.
-/
namespace TradingGuardrails

open Text Rego

/-- What the rules read of a `PolicyInput`. A null amount counts like a missing one. -/
structure PolicyInput where
  principal : String
  action : String
  resource : String
  environment : Environment
  accountMode : Option String := none
  marginType : Option String := none
  chain : Option String := none
  chainEnvironment : Option String := none
  contractAddress : Option String := none
  programId : Option String := none
  instructionType : Option String := none
  maxNotionalUsd : Option ℚ := none
  leverage : Option ℚ := none
  maxTokenApprovalAmount : Option String := none
  isTokenApproval : Option Bool := none
  tokenApprovalAmount : Option String := none
  tokenApprovalAmountMissing : Option Bool := none
  tokenApprovalUnlimited : Option Bool := none
  tokenApprovalAmountExceedsCap : Option Bool := none
  reviewerVerdict : Option String := none
  reviewerRiskLevel : Option String := none
  projectedDailyNotionalUsd : Option ℚ := none
  dailyRealizedLossUsd : Option ℚ := none

namespace PolicyInput

def textAt (v : Json) (key : String) : Option String :=
  match v.field? key with
  | some (.str s) => some s
  | _ => none

def numberAt (v : Json) (key : String) : Option ℚ :=
  match v.field? key with
  | some (.num n) => some n.value
  | _ => none

def boolAt (v : Json) (key : String) : Option Bool :=
  match v.field? key with
  | some (.bool b) => some b
  | _ => none

def ofJson (v : Json) : PolicyInput where
  principal := textField v "principal"
  action := textField v "action"
  resource := textField v "resource"
  environment := (Environment.ofText? (textField v "environment")).getD .dev
  accountMode := textAt v "accountMode"
  marginType := textAt v "marginType"
  chain := textAt v "chain"
  chainEnvironment := textAt v "chainEnvironment"
  contractAddress := textAt v "contractAddress"
  programId := textAt v "programId"
  instructionType := textAt v "instructionType"
  maxNotionalUsd := numberAt v "maxNotionalUsd"
  leverage := numberAt v "leverage"
  maxTokenApprovalAmount := textAt v "maxTokenApprovalAmount"
  isTokenApproval := boolAt v "isTokenApproval"
  tokenApprovalAmount := textAt v "tokenApprovalAmount"
  tokenApprovalAmountMissing := boolAt v "tokenApprovalAmountMissing"
  tokenApprovalUnlimited := boolAt v "tokenApprovalUnlimited"
  tokenApprovalAmountExceedsCap := boolAt v "tokenApprovalAmountExceedsCap"
  reviewerVerdict := textAt v "reviewerVerdict"
  reviewerRiskLevel := textAt v "reviewerRiskLevel"
  projectedDailyNotionalUsd := numberAt v "projectedDailyNotionalUsd"
  dailyRealizedLossUsd := numberAt v "dailyRealizedLossUsd"

end PolicyInput

/-- The rule of a reason is the name of an allow entry, which may be any value. -/
structure PolicyReason where
  rule : Json
  message : String
  deriving DecidableEq

structure PolicyRule where
  rule : String
  message : String
  fires : Bool

def PolicyRule.reason (r : PolicyRule) : PolicyReason where
  rule := .str r.rule
  message := r.message

namespace Policy

def fired (rules : List PolicyRule) : List PolicyReason :=
  set ((rules.filter PolicyRule.fires).map PolicyRule.reason)

variable (policy : Json) (input : PolicyInput)

/-- `data.policy.limits[input.environment]` -/
def limits : Option Json :=
  ref (ref (some policy) "limits") input.environment.text

def limit (key : String) : Option Json :=
  ref (limits policy input) key

def allowlist (key : String) : List Json :=
  elements (ref (ref (some policy) "allowlists") key)

namespace Allowlist

variable (entry : Json) (inp : PolicyInput)

def field (key : String) : Option Json :=
  ref (some entry) key

def condition (key : String) : Option Json :=
  ref (field entry "condition") key

def principalMatches : Bool :=
  isText (field entry "principal") "*" || isText (field entry "principal") inp.principal

def actionMatches : Bool :=
  isText (field entry "action") "*" || isText (field entry "action") inp.action

def resourceMatches : Bool :=
  isText (field entry "resource") "*" || isText (field entry "resource") inp.resource ||
    match field entry "resource" with
    | some (.str resource) => endsWith resource ":" && startsWith inp.resource resource
    | _ => false

def environmentOk : Bool :=
  !holds (condition entry "environment") ||
    isText (condition entry "environment") inp.environment.text

def accountModeOk : Bool :=
  !holds (condition entry "accountMode") ||
    (holds (condition entry "accountMode") &&
      inp.accountMode.any fun accountMode => isText (condition entry "accountMode") accountMode)

def notionalOk : Bool :=
  !holds (condition entry "maxNotionalUsd") ||
    (holds (condition entry "maxNotionalUsd") &&
      atMost inp.maxNotionalUsd (condition entry "maxNotionalUsd"))

def leverageOk : Bool :=
  !holds (condition entry "maxLeverage") ||
    (holds (condition entry "maxLeverage") && inp.leverage.isNone &&
      atMost (some 1) (condition entry "maxLeverage")) ||
    (holds (condition entry "maxLeverage") &&
      atMost inp.leverage (condition entry "maxLeverage"))

def humanApprovalOk : Bool :=
  !holds (condition entry "requiresHumanApproval") ||
    condition entry "requiresHumanApproval" == some (.bool false)

def conditionMatches : Bool :=
  !holds (field entry "condition") ||
    (holds (field entry "condition") && environmentOk entry inp && accountModeOk entry inp &&
      notionalOk entry inp && leverageOk entry inp && humanApprovalOk entry)

def addresses : Bool :=
  isText (field entry "effect") "allow" && principalMatches entry inp &&
    actionMatches entry inp && resourceMatches entry inp

def allows : Bool :=
  addresses entry inp && conditionMatches entry inp

end Allowlist

def entries : List Json :=
  allowlist policy "rules"

def allowReasons : List PolicyReason :=
  set (((entries policy).filter fun entry => Allowlist.allows entry input).filterMap fun entry =>
    (Allowlist.field entry "name").map fun name => ⟨name, "Matched allowlist entry."⟩)

def maxUint256 : String :=
  "115792089237316195423570985008687907853269984665640564039457584007913129639935"

/-- `^(0|[1-9][0-9]*)$` -/
def validDecimalChars : List Char → Bool
  | [] => false
  | ['0'] => true
  | c :: cs => '1' ≤ c && c ≤ '9' && cs.all fun d => '0' ≤ d && d ≤ '9'

def validDecimalString (value : Option Json) : Bool :=
  match value with
  | some (.str s) => validDecimalChars s.toList
  | _ => false

/-- `amount > cap` for texts: the first difference decides. -/
def textAbove : List Char → List Char → Bool
  | _ :: _, [] => true
  | [], _ => false
  | a :: as, b :: bs => b < a || (a == b && textAbove as bs)

def decimalStringExceeds (amount cap : Option Json) : Bool :=
  match amount, cap with
  | some (.str amount), some (.str cap) =>
      validDecimalChars amount.toList && validDecimalChars cap.toList &&
        (cap.toList.length < amount.toList.length ||
          (amount.toList.length == cap.toList.length && textAbove amount.toList cap.toList))
  | _, _ => false

def approvalFactsComplete : Bool :=
  input.tokenApprovalAmountMissing.isSome && input.tokenApprovalUnlimited.isSome &&
    input.tokenApprovalAmountExceedsCap.isSome

def supportedSolanaInstructionType : Bool :=
  input.instructionType.any
    ["transfer", "setAuthority", "SetAuthority", "authority_change"].contains

def supportedChainEnvironmentPair : Bool :=
  (input.chain == some "ethereum" && input.chainEnvironment.any ["sepolia", "mainnet"].contains) ||
    (input.chain == some "solana" && input.chainEnvironment.any ["devnet", "mainnet"].contains)

def contractAllowed (lower : String → String) : Bool :=
  input.contractAddress.any fun contractAddress =>
    (allowlist policy "ethereum_contracts").any fun entry => match entry with
      | .str s => lower contractAddress == lower s
      | _ => false

def programAllowed : Bool :=
  input.programId.any fun programId =>
    (allowlist policy "solana_programs").any fun entry => entry == .str programId

def isSignature : Bool :=
  input.action == "onchain.request_signature"

def textOf (s : Option String) : Option Json :=
  s.map .str

def denyRules (lower : String → String) : List PolicyRule := [
  ⟨"withdrawal_denied", "CEX withdrawals are not permitted.", input.action == "cex.withdraw"⟩,
  ⟨"account_transfer_denied", "CEX account transfers are not permitted.",
    input.action == "cex.account_transfer"⟩,
  ⟨"spot_margin_denied", "Spot margin and cross-margin are not permitted.",
    input.accountMode == some "margin"⟩,
  ⟨"spot_margin_denied", "Spot margin and cross-margin are not permitted.",
    input.accountMode == some "cross_margin"⟩,
  ⟨"coinm_futures_denied", "COIN-M futures trading is not permitted.",
    input.accountMode == some "coinm_futures"⟩,
  ⟨"leverage_cap_exceeded", "USD-M futures leverage exceeds policy cap.",
    input.accountMode == some "usdm_futures" &&
      above input.leverage (limit policy input "max_leverage")⟩,
  ⟨"futures_cross_margin_denied", "USD-M futures orders must use isolated margin.",
    input.accountMode == some "usdm_futures" && input.marginType != some "isolated"⟩,
  ⟨"unlimited_approval_denied", "Unlimited token approvals are not permitted.",
    input.maxTokenApprovalAmount == some "unlimited"⟩,
  ⟨"unlimited_approval_denied", "Unlimited token approvals are not permitted.",
    input.maxTokenApprovalAmount == some maxUint256⟩,
  ⟨"unlimited_approval_denied", "Unlimited token approvals are not permitted.",
    input.tokenApprovalUnlimited == some true⟩,
  ⟨"token_approval_facts_missing", "ERC-20 approval policy facts are incomplete.",
    input.isTokenApproval == some true && !approvalFactsComplete input⟩,
  ⟨"token_approval_amount_missing", "ERC-20 approvals require explicit approval amount metadata.",
    input.isTokenApproval == some true && input.tokenApprovalAmountMissing == some true⟩,
  ⟨"token_approval_amount_invalid", "ERC-20 approvals require a valid decimal approval amount.",
    input.isTokenApproval == some true &&
      !validDecimalString (textOf input.tokenApprovalAmount)⟩,
  ⟨"token_approval_metadata_invalid",
    "ERC-20 approvals require a valid decimal maximum approval amount.",
    input.isTokenApproval == some true &&
      !validDecimalString (textOf input.maxTokenApprovalAmount)⟩,
  ⟨"token_approval_cap_exceeded", "ERC-20 approval amount exceeds policy cap.",
    input.isTokenApproval == some true && input.tokenApprovalAmountExceedsCap == some true⟩,
  ⟨"token_approval_cap_exceeded", "ERC-20 approval amount exceeds policy cap.",
    input.isTokenApproval == some true &&
      validDecimalString (limit policy input "max_token_approval_amount") &&
      decimalStringExceeds (textOf input.tokenApprovalAmount)
        (limit policy input "max_token_approval_amount")⟩,
  ⟨"token_approval_amount_exceeds_metadata",
    "ERC-20 approval amount exceeds requested metadata amount.",
    input.isTokenApproval == some true &&
      validDecimalString (textOf input.maxTokenApprovalAmount) &&
      decimalStringExceeds (textOf input.tokenApprovalAmount)
        (textOf input.maxTokenApprovalAmount)⟩,
  ⟨"unsupported_chain_environment_pair", "Unsupported onchain chain/environment pair.",
    ["onchain.request_signature", "onchain.simulate_transaction"].contains input.action &&
      !supportedChainEnvironmentPair input⟩,
  ⟨"mainnet_requires_live_environment", "Mainnet signing requires a live environment.",
    isSignature input && input.chainEnvironment == some "mainnet" &&
      !(["canary_live", "production"].contains input.environment.text)⟩,
  ⟨"unknown_contract_denied", "Interaction with unknown contracts is not permitted.",
    isSignature input && input.chain == some "ethereum" && !contractAllowed policy input lower⟩,
  ⟨"unknown_program_denied", "Interaction with unknown Solana programs is not permitted.",
    isSignature input && input.chain == some "solana" && !programAllowed policy input⟩,
  ⟨"solana_authority_change_denied",
    "Solana authority changes are not permitted without human approval.",
    isSignature input && input.chain == some "solana" &&
      input.instructionType.any ["setAuthority", "SetAuthority", "authority_change"].contains⟩,
  ⟨"solana_instruction_type_unknown", "Solana instruction type is unavailable or unsupported.",
    isSignature input && input.chain == some "solana" &&
      !supportedSolanaInstructionType input⟩]

def hardDenyReasons (lower : String → String) : List PolicyReason :=
  fired (denyRules policy input lower)

def dailyNotionalLimit : Option Json :=
  if input.accountMode == some "usdm_futures" then
    (limit policy input "auto_max_daily_notional_usd").map
      (limit policy input "futures_auto_max_daily_notional_usd").getD
  else limit policy input "auto_max_daily_notional_usd"

def escalationConditionMatches (entry : Json) (inp : PolicyInput) : Bool :=
  Allowlist.environmentOk entry inp && Allowlist.accountModeOk entry inp &&
    Allowlist.notionalOk entry inp && Allowlist.leverageOk entry inp

def requiresHuman (entry : Json) (inp : PolicyInput) : Bool :=
  Allowlist.addresses entry inp && holds (Allowlist.field entry "condition") &&
    Allowlist.condition entry "requiresHumanApproval" == some (.bool true) &&
    escalationConditionMatches entry inp

def escalationRules : List PolicyRule := [
  ⟨"reviewer_not_approved", "Reviewer did not approve this action.",
    input.reviewerVerdict.any (· != "approve")⟩,
  ⟨"reviewer_risk_not_low", "Reviewer risk level is not eligible for automatic execution.",
    input.reviewerRiskLevel != some "low"⟩,
  ⟨"mainnet_signing_requires_human", "Mainnet signing requires human approval.",
    isSignature input && input.chainEnvironment == some "mainnet"⟩,
  ⟨"notional_above_auto_threshold", "Notional exceeds automatic execution threshold.",
    holds (limit policy input "auto_max_notional_usd") &&
      above input.maxNotionalUsd (limit policy input "auto_max_notional_usd")⟩,
  ⟨"daily_notional_above_threshold", "Daily notional exceeds automatic execution threshold.",
    input.action == "cex.place_order" &&
      above input.projectedDailyNotionalUsd (dailyNotionalLimit policy input)⟩,
  ⟨"daily_loss_above_threshold", "Daily loss exceeds automatic execution threshold.",
    input.action == "cex.place_order" && holds (limit policy input "auto_max_daily_loss_usd") &&
      above input.dailyRealizedLossUsd (limit policy input "auto_max_daily_loss_usd")⟩,
  ⟨"futures_leverage_escalation",
    "USD-M futures leverage above default cap requires human approval.",
    input.accountMode == some "usdm_futures" &&
      holds (limit policy input "default_max_leverage") &&
      above input.leverage (limit policy input "default_max_leverage") &&
      atMost input.leverage (limit policy input "max_leverage")⟩,
  ⟨"no_matching_allowlist",
    "No matching allowlist entry found for this principal/action/resource.",
    (allowReasons policy input).isEmpty⟩,
  ⟨"requires_human_by_policy", "Matching allowlist entry requires human approval.",
    (entries policy).any fun entry => requiresHuman entry input⟩]

def escalationReasons : List PolicyReason :=
  fired (escalationRules policy input)

variable (lower : String → String)

def reviewerApproved : Bool :=
  input.reviewerVerdict == some "approve"

def reviewerLowRisk : Bool :=
  input.reviewerRiskLevel == some "low"

def decisionBodies : List Outcome :=
  (if !(hardDenyReasons policy input lower).isEmpty then [.deny] else []) ++
  (if (hardDenyReasons policy input lower).isEmpty &&
      !(escalationReasons policy input).isEmpty then [.needsHuman] else []) ++
  (if (hardDenyReasons policy input lower).isEmpty && (escalationReasons policy input).isEmpty &&
      !(allowReasons policy input).isEmpty && reviewerApproved input && reviewerLowRisk input then
    [.allow] else [])

def decision : Option Outcome :=
  complete .deny (decisionBodies policy input lower)

def requiresHumanApproval : Bool :=
  decision policy input lower == some .needsHuman

def defaultDeny : PolicyReason :=
  ⟨.str "default_deny", "No matching allow rule found."⟩

def allDenyReasons : List PolicyReason :=
  set (hardDenyReasons policy input lower ++
    if decision policy input lower == some .deny &&
        (hardDenyReasons policy input lower).isEmpty then
      [defaultDeny]
    else [])

def matchedAllowRules : List Json :=
  set ((allowReasons policy input).map PolicyReason.rule)

def matchedDenyRules : List Json :=
  set ((allDenyReasons policy input lower).map PolicyReason.rule)

def exportedReasons : List PolicyReason :=
  set ((if decision policy input lower == some .deny then allDenyReasons policy input lower
      else []) ++
    (if decision policy input lower == some .needsHuman then escalationReasons policy input
      else []) ++
    if decision policy input lower == some .allow then allowReasons policy input else [])

end Policy
end TradingGuardrails
