import TradingGuardrails.Schemas.Intent
import TradingGuardrails.Solana.Parser

/-!
The checks of the Solana connector before anything is simulated or signed: the programs,
mints and accounts that the parsed instructions name must be in the lists of the
configuration.
-/
namespace TradingGuardrails

open Text

structure SolanaConfig where
  chainEnvironment : String
  allowedPrograms : List String
  allowedTokenMints : List String
  allowedAccounts : List String
  supported : chainEnvironment = "devnet" ∨ chainEnvironment = "mainnet"

def getUniquePrograms (instructions : List ParsedInstruction) : List String :=
  (instructions.map ParsedInstruction.programId).eraseDups

namespace ParsedInstruction

variable (ix : ParsedInstruction)

/-- `ix.data.mint ?? ix.data.tokenMint` -/
def mint : Option Json :=
  (present (ix.data.field? "mint")).or (ix.data.field? "tokenMint")

def writableKeys : List (Option Json) :=
  match ix.data.field? "keys" with
  | some (.arr keys) => (keys.filter fun key => key.field? "isWritable" == some (.bool true)).map
      fun key => key.field? "pubkey"
  | _ => []

def accounts : List (Option Json) := [
  ix.data.field? "destination",
  ix.data.field? "recipient",
  ix.data.field? "source",
  ix.data.field? "authority",
  ix.data.field? "owner"] ++ ix.writableKeys

end ParsedInstruction

def firstUnlisted (allowed : List String) (values : List (Option Json)) : Option (Option Json) :=
  values.find? fun value => truthy value && !allowed.contains (valueString value)

/-- Why an intent is refused, with nothing for an exception of the parser. -/
abbrev Refusal := Option String

namespace SolanaConfig

variable (config : SolanaConfig)

def validatePrograms (instructions : List ParsedInstruction) : Except Refusal Unit :=
  match (getUniquePrograms instructions).find? fun p => !config.allowedPrograms.contains p with
  | some program => .error (some ("Program " ++ program ++ " is not in the allowlist."))
  | none => .ok ()

def validateAuthorityChange (instructions : List ParsedInstruction) : Except Refusal Unit :=
  if hasAuthorityChange instructions then
    .error (some "Authority changes are not permitted.")
  else .ok ()

def validateTokenMints (instructions : List ParsedInstruction) : Except Refusal Unit :=
  match firstUnlisted config.allowedTokenMints (instructions.map ParsedInstruction.mint) with
  | some mint => .error (some ("Token mint " ++ valueString mint ++ " is not in the allowlist."))
  | none => .ok ()

def validateAccounts (instructions : List ParsedInstruction) : Except Refusal Unit :=
  match firstUnlisted config.allowedAccounts
      (instructions.flatMap ParsedInstruction.accounts) with
  | some account =>
      .error (some ("Account " ++ valueString account ++ " is not in the allowlist."))
  | none => .ok ()

end SolanaConfig

variable {host : Host}

def isExpectedSolanaDelta (delta : Json) : Bool :=
  match delta with
  | .obj _ =>
      delta.keys.length == 4 &&
        ["account", "asset", "minDelta", "maxDelta"].all delta.keys.contains &&
        (delta.field? "account").any Check.nonEmpty && (delta.field? "asset").any Check.nonEmpty &&
        (delta.field? "minDelta").any IntentSchema.integerDelta &&
        (delta.field? "maxDelta").any IntentSchema.integerDelta
  | _ => false

def expectedSolanaDeltas (intent : TradingIntent host) : Except Refusal (List Json) :=
  match intent.value.field? "expectedDeltas" with
  | none => .ok []
  | some (.arr deltas) =>
      if deltas.all isExpectedSolanaDelta then .ok deltas
      else .error (some "Solana expected balance deltas must use account-based integer entries.")
  | some _ => .error (some "Solana expected balance deltas must be an array.")

def rawInstructions (intent : TradingIntent host) : List Json :=
  match intent.value.field? "instructions" with
  | some (.arr instructions) => instructions
  | _ => [.record [("programId", if intent.has "programId" then intent.value.field? "programId"
      else intent.value.field? "to")]]

namespace SolanaConfig

variable (config : SolanaConfig)

def intentRefusal (intent : TradingIntent host) : Option String :=
  if intent.action ≠ .simulateTransaction ∧ intent.action ≠ .requestSignature then
    some "Unsupported Solana connector action."
  else if intent.chain ≠ "solana" then some "Intent is not for Solana."
  else if intent.chainEnvironment ≠ config.chainEnvironment then
    some "Intent Solana environment does not match connector."
  else if intent.action = .requestSignature ∧ intent.chainEnvironment = "mainnet" ∧
      intent.environment ≠ .canaryLive ∧ intent.environment ≠ .production then
    some "Mainnet signing requires a live environment."
  else if intent.value.field? "instructions" = some (.arr []) then
    some "Solana instructions cannot be empty."
  else none

/-- A signature is asked for with the balance changes that it may cause. -/
def validateDeltas (intent : TradingIntent host) : Except Refusal Unit :=
  if intent.action = .requestSignature then do
    let deltas ← expectedSolanaDeltas intent
    if deltas.isEmpty then throw (some "Solana expected balance deltas are required.")
  else .ok ()

def revalidate (intent : TradingIntent host) : Except Refusal Unit :=
  match config.intentRefusal intent with
  | some reason => .error (some reason)
  | none => match parseInstructions host (rawInstructions intent) with
    | none => .error none
    | some instructions => do
        config.validatePrograms instructions
        validateAuthorityChange instructions
        config.validateTokenMints instructions
        config.validateAccounts instructions
        validateDeltas intent

end SolanaConfig

structure Validated (config : SolanaConfig) (ix : ParsedInstruction) : Prop where
  program : ix.programId ∈ config.allowedPrograms
  mint : ∀ value, ix.mint = some value → truthy (some value) = true →
    jsonString value ∈ config.allowedTokenMints
  account : ∀ value, some value ∈ ix.accounts → truthy (some value) = true →
    jsonString value ∈ config.allowedAccounts

theorem listed_of_firstUnlisted {allowed : List String} {values : List (Option Json)}
    (h : firstUnlisted allowed values = none) {value : Json} (hmem : some value ∈ values)
    (htruthy : truthy (some value) = true) : jsonString value ∈ allowed := by
  have hnot := List.find?_eq_none.mp h _ hmem
  simpa [htruthy, valueString] using hnot

theorem both_ok {x : Except Refusal Unit} {f : Unit → Except Refusal Unit}
    (h : x >>= f = .ok ()) : x = .ok () ∧ f () = .ok () := by
  cases x with
  | error e => cases h
  | ok u => exact ⟨rfl, h⟩

theorem validated_of_checks {config : SolanaConfig} {instructions : List ParsedInstruction}
    (hprograms : config.validatePrograms instructions = .ok ())
    (hmints : config.validateTokenMints instructions = .ok ())
    (haccounts : config.validateAccounts instructions = .ok ()) :
    ∀ ix ∈ instructions, Validated config ix := by
  intro ix hix
  refine ⟨?_, fun value hvalue htruthy => ?_, fun value hvalue htruthy => ?_⟩
  · unfold SolanaConfig.validatePrograms at hprograms
    split at hprograms
    · cases hprograms
    · next hnone =>
        have hmem : ix.programId ∈ getUniquePrograms instructions :=
          List.mem_eraseDups.mpr (List.mem_map_of_mem hix)
        simpa using List.find?_eq_none.mp hnone _ hmem
  · unfold SolanaConfig.validateTokenMints at hmints
    split at hmints
    · cases hmints
    · next hnone =>
        exact listed_of_firstUnlisted hnone (List.mem_map.mpr ⟨ix, hix, hvalue⟩) htruthy
  · unfold SolanaConfig.validateAccounts at haccounts
    split at haccounts
    · cases haccounts
    · next hnone =>
        exact listed_of_firstUnlisted hnone (List.mem_flatMap.mpr ⟨ix, hix, hvalue⟩) htruthy

theorem validated_of_revalidate {config : SolanaConfig} {intent : TradingIntent host}
    (h : config.revalidate intent = .ok ()) : ∃ instructions,
      parseInstructions host (rawInstructions intent) = some instructions ∧
      ∀ ix ∈ instructions, Validated config ix := by
  unfold SolanaConfig.revalidate at h
  split at h
  · cases h
  · split at h
    · cases h
    · next instructions hparse =>
        obtain ⟨hprograms, h⟩ := both_ok h
        obtain ⟨-, h⟩ := both_ok h
        obtain ⟨hmints, h⟩ := both_ok h
        obtain ⟨haccounts, -⟩ := both_ok h
        exact ⟨instructions, hparse, validated_of_checks hprograms hmints haccounts⟩

end TradingGuardrails
