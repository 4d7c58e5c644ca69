import TradingGuardrails.Host

/-!
Recognition of Solana instructions. An instruction either names its type or carries raw
data, which is decoded by itself: of raw data only plain transfers are recognized.
-/
namespace TradingGuardrails

open Text

def systemProgramId : String := "11111111111111111111111111111111"

def tokenProgramId : String := "TokenkegQfeZyiNwAJbNbGKPFXCWuBvf9Ss623VQ5DA"

def token2022ProgramId : String := "TokenzQdBNbLqP5VEhdkAS6EPFLC1PHnBqCXEpPxuEb"

structure ParsedInstruction where
  programId : String
  type : Option String
  data : Json

structure InstructionAccount where
  pubkey : String
  isSigner : Bool
  isWritable : Bool

def hexDigitValue (c : Char) : Option Nat :=
  if c.isDigit then some (c.toNat - '0'.toNat)
  else if 'a' ≤ c.toLower ∧ c.toLower ≤ 'f' then some (c.toLower.toNat - 'a'.toNat + 10)
  else none

def decodeHex : List Char → Option (List Nat)
  | [] => some []
  | [_] => none
  | a :: b :: cs => do
      let high ← hexDigitValue a
      let low ← hexDigitValue b
      let rest ← decodeHex cs
      pure ((high * 16 + low) :: rest)

def base64Value (c : Char) : Option Nat :=
  if c.isUpper then some (c.toNat - 'A'.toNat)
  else if c.isLower then some (c.toNat - 'a'.toNat + 26)
  else if c.isDigit then some (c.toNat - '0'.toNat + 52)
  else if c = '+' then some 62
  else if c = '/' then some 63
  else none

/-- The bytes that a base 64 text encodes. Only the text that encoding them gives back is
accepted, so unused bits are zero. -/
def decodeBase64 : List Char → Option (List Nat)
  | [] => some []
  | [a, b, '=', '='] => do
      let a ← base64Value a
      let b ← base64Value b
      if b % 16 = 0 then pure [a * 4 + b / 16] else none
  | [a, b, c, '='] => do
      let a ← base64Value a
      let b ← base64Value b
      let c ← base64Value c
      if c % 4 = 0 then pure [a * 4 + b / 16, b % 16 * 16 + c / 4] else none
  | a :: b :: c :: d :: cs => do
      let a ← base64Value a
      let b ← base64Value b
      let c ← base64Value c
      let d ← base64Value d
      let rest ← decodeBase64 cs
      pure ((a * 4 + b / 16) :: (b % 16 * 16 + c / 4) :: (c % 4 * 64 + d) :: rest)
  | _ => none

def decodeInstructionData : Json → Option (List Nat)
  | .str s => match s.toList with
    | '0' :: 'x' :: digits => decodeHex digits
    | cs => decodeBase64 cs
  | _ => none

def present (v : Option Json) : Option Json :=
  v.filter fun v => v != .null

variable (host : Host)

def instructionAccount (key : Json) : Option InstructionAccount :=
  match key.field? "pubkey", key.field? "isSigner", key.field? "isWritable" with
  | some (.str pubkey), some (.bool isSigner), some (.bool isWritable) =>
      (host.publicKey pubkey).map fun pubkey => ⟨pubkey, isSigner, isWritable⟩
  | _, _, _ => none

def instructionAccounts : Option Json → Option (List InstructionAccount)
  | some (.arr keys) => keys.mapM (instructionAccount host)
  | _ => none

def isSystemTransfer (programId : String) (bytes : List Nat)
    (accounts : List InstructionAccount) : Bool :=
  programId == systemProgramId && bytes.length == 12 && bytes.take 4 == [2, 0, 0, 0] &&
    match accounts with
    | [source, destination] => source.isSigner && source.isWritable && destination.isWritable
    | _ => false

def isTokenTransferChecked (programId : String) (bytes : List Nat)
    (accounts : List InstructionAccount) : Bool :=
  (programId == tokenProgramId || programId == token2022ProgramId) && bytes.length == 10 &&
    bytes.head? == some 12 &&
    match accounts with
    | source :: _ :: destination :: _ :: _ => source.isWritable && destination.isWritable
    | _ => false

def InstructionAccount.json (account : InstructionAccount) : Json :=
  .obj [
    ("pubkey", .str account.pubkey),
    ("isSigner", .bool account.isSigner),
    ("isWritable", .bool account.isWritable)]

def readUInt64 (bytes : List Nat) (offset : Nat) : Nat :=
  ((bytes.drop offset).take 8).foldr (fun byte n => byte + 256 * n) 0

/-- `{ ...instruction, keys: accounts }` -/
def withKeys (instruction : Json) (accounts : List InstructionAccount) : Json :=
  instruction.put "keys" (.arr (accounts.map InstructionAccount.json))

def pubkeyAt (accounts : List InstructionAccount) (n : Nat) : Json :=
  .str ((accounts[n]?.map InstructionAccount.pubkey).getD "")

def transferData (instruction : Json) (bytes : List Nat) (accounts : List InstructionAccount) :
    Json :=
  (((withKeys instruction accounts).put "source" (pubkeyAt accounts 0)).put "destination"
    (pubkeyAt accounts 1)).put "amount" (.str (toString (readUInt64 bytes 4)))

def transferCheckedData (instruction : Json) (bytes : List Nat)
    (accounts : List InstructionAccount) : Json :=
  (((((((withKeys instruction accounts).put "source" (pubkeyAt accounts 0)).put "mint"
    (pubkeyAt accounts 1)).put "tokenMint" (pubkeyAt accounts 1)).put "destination"
    (pubkeyAt accounts 2)).put "owner" (pubkeyAt accounts 3)).put "amount"
    (.str (toString (readUInt64 bytes 1)))).put "decimals" (.num (.ofNat (bytes.getD 9 0)))

def parseInstruction (instruction : Json) : Option ParsedInstruction :=
  let programId := ((present (instruction.field? "programId")).map jsonString).getD ""
  let type := present (instruction.field? "type")
  match present (instruction.field? "data") with
  | none => some ⟨programId, type.map jsonString, instruction⟩
  | some data =>
      if type.isSome then none
      else do
        let bytes ← decodeInstructionData data
        let accounts ← instructionAccounts host (instruction.field? "keys")
        if isSystemTransfer programId bytes accounts then
          pure ⟨programId, some "transfer", transferData instruction bytes accounts⟩
        else if isTokenTransferChecked programId bytes accounts then
          pure ⟨programId, some "transferChecked",
            transferCheckedData instruction bytes accounts⟩
        else none

def parseInstructions (raw : List Json) : Option (List ParsedInstruction) :=
  raw.mapM (parseInstruction host)

def hasAuthorityChange (instructions : List ParsedInstruction) : Bool :=
  instructions.any fun ix =>
    ix.type == some "authority_change" || ix.type == some "setAuthority" ||
      ix.type == some "SetAuthority"

end TradingGuardrails
