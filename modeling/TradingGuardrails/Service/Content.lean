import Mathlib.Algebra.Group.Nat.Units
import TradingGuardrails.Operations
import TradingGuardrails.Secrets.Redaction
import TradingGuardrails.Solana.Parser

/-!
What the guardrail service reads out of an intent by itself: unsafe content, the resource
that its fields name, and the facts about token approvals and Solana instructions.
-/
namespace TradingGuardrails

open Text

namespace UnsafeContent

open Pattern

def blanks : Pattern := star (.char isSpace)

def blanks1 : Pattern := plus (.char isSpace)

/-- `.{0,120}`, which counts code units. -/
def gap : Pattern :=
  .upTo 120 fun c => !(['\n', '\r', '\u2028', '\u2029'].contains c)

def phrase (words : List String) : Pattern :=
  sequence ((words.map word).intersperse blanks1)

def promptInjection : List Pattern := [
  phrase ["ignore", "all", "previous", "instructions"],
  sequence [phrase ["system", "override"], blanks, word ":"],
  phrase ["execute", "cex.withdraw"],
  phrase ["secretly", "calls", "cex.withdraw"],
  phrase ["transfer", "all", "funds", "to"],
  phrase ["log", "all", "environment", "variables", "including", "secrets"]]

def hallucinatedData : List Pattern := [
  sequence [
    .group (choice [word "price", word "balance", word "position"]), gap,
    word "no snapshot reference"],
  sequence [phrase ["account", "has"], gap, word "available", gap, word "no portfolio snapshot"],
  sequence [
    phrase ["current", "position", "is"], gap, word "long", gap, word "evidence:", blanks,
    word "none"]]

end UnsafeContent

def reason (rule message : String) : Json :=
  .record [("rule", some (.str rule)), ("message", some (.str message))]

variable {host : Host} (intent : TradingIntent host)

def contentOf : List Char :=
  lowerCase (String.intercalate "\n" (intent.rationale :: intent.evidence))

def detectUnsafeContent : Option Json :=
  if UnsafeContent.promptInjection.any fun p => p.occurs (contentOf intent) then
    some (reason "prompt_injection_detected"
      "Intent rationale or evidence contains prompt injection instructions.")
  else if UnsafeContent.hallucinatedData.any fun p => p.occurs (contentOf intent) then
    some (reason "hallucinated_data_detected"
      "Intent rationale or evidence contains unsupported market or portfolio claims.")
  else none

def canonicalResource : Option String :=
  if intent.has "exchange" && intent.has "account" && intent.has "symbol" then
    some (String.intercalate ":" ["cex", intent.exchange, intent.account, intent.symbol])
  else if intent.has "chain" && intent.has "chainEnvironment" then
    some (String.intercalate ":" ["onchain", intent.chain, intent.chainEnvironment,
      if intent.has "to" then intent.target else ""])
  else none

def resourceMatches : Bool :=
  match canonicalResource intent with
  | none => true
  | some resource => resource.isEmpty || intent.resource == resource

def idempotencyScope : String :=
  stableJson host (.record [
    ("key", some (.str intent.idempotencyKey)),
    ("principal", some (.str intent.principal)),
    ("action", some (.str intent.action.text)),
    ("resource", some (.str intent.resource))])

def extractSolanaInstructionType : Option String :=
  if intent.action ≠ .requestSignature ∨ intent.chain ≠ "solana" then none
  else match intent.value.field? "instructions" with
    | some (.arr (x :: xs)) => match parseInstructions host (x :: xs) with
      | none => some "unknown"
      | some instructions =>
          if hasAuthorityChange instructions then some "setAuthority"
          else if instructions.all fun ix =>
              ix.type == some "transfer" || ix.type == some "transferChecked" then
            some "transfer"
          else some "unknown"
    | _ => some "unknown"

def uint256Max : Nat := 2 ^ 256 - 1

def unboundedApprovalAliases : List String := ["unlimited", "max", "uint256.max", "maxuint256"]

def erc20ApproveSelector : List Char := "0x095ea7b3".toList

def hexNumber (cs : List Char) : Option Nat :=
  cs.foldlM (fun n c => (hexDigitValue c).map fun d => n * 16 + d) 0

def decimalNumber (cs : List Char) : Nat :=
  cs.foldl (fun n c => n * 10 + (c.toNat - '0'.toNat)) 0

def extractErc20ApprovalAmount (data : List Char) : Option Nat :=
  if data.length = 138 ∧ data.take 2 = ['0', 'x'] ∧ (data.drop 2).all hexDigitLower then
    hexNumber (data.drop 74)
  else none

def parseApprovalMetadata : Option Json → Option Nat
  | some (.str value) =>
      if unboundedApprovalAliases.any fun name => name.toList == lowerCase value then
        some uint256Max
      else if IntentSchema.tokenApprovalAmount (.str value) then
        some (decimalNumber value.toList)
      else none
  | _ => none

def approvalCapForEnvironment : Environment → Nat
  | .dev | .paper | .testnet => 1000000000000
  | .canaryLive => 100000000
  | .production => 1000000000

structure TokenApprovalFacts where
  isTokenApproval : Bool := false
  tokenApprovalAmount : Option Nat := none
  tokenApprovalAmountMissing : Bool := false
  tokenApprovalUnlimited : Bool := false
  tokenApprovalAmountExceedsCap : Bool := false

def TokenApprovalFacts.members (facts : TokenApprovalFacts) : List (String × Option Json) := [
  ("isTokenApproval", some (.bool facts.isTokenApproval)),
  ("tokenApprovalAmount", some (match facts.tokenApprovalAmount with
    | none => .null
    | some amount => .str (toString amount))),
  ("tokenApprovalAmountMissing", some (.bool facts.tokenApprovalAmountMissing)),
  ("tokenApprovalUnlimited", some (.bool facts.tokenApprovalUnlimited)),
  ("tokenApprovalAmountExceedsCap", some (.bool facts.tokenApprovalAmountExceedsCap))]

def tokenApprovalFacts : TokenApprovalFacts :=
  if intent.action ≠ .requestSignature ∨ intent.chain ≠ "ethereum" then {}
  else
    let data := lowerCase (intent.text "data")
    let hasApprovalSelector := erc20ApproveSelector.isPrefixOf data
    let metadataAmount := parseApprovalMetadata (intent.value.field? "maxTokenApprovalAmount")
    if !hasApprovalSelector && metadataAmount.isNone then {}
    else
      let calldataAmount := if hasApprovalSelector then extractErc20ApprovalAmount data else none
      let effectiveAmount := calldataAmount.or metadataAmount
      { isTokenApproval := true
        tokenApprovalAmount := effectiveAmount
        tokenApprovalAmountMissing :=
          metadataAmount.isNone || (hasApprovalSelector && calldataAmount.isNone)
        tokenApprovalUnlimited :=
          calldataAmount == some uint256Max || metadataAmount == some uint256Max
        tokenApprovalAmountExceedsCap :=
          effectiveAmount.any fun amount => amount > approvalCapForEnvironment intent.environment }

end TradingGuardrails
