import TradingGuardrails.Evm.BalanceDelta
import TradingGuardrails.Evm.Calldata

/-!
What a simulated transaction changes, read from a diff of the state before and after it.
Every changed storage slot is traced back to the balance, the allowance or the supply of a
configured token; a change that cannot be explained so fails the extraction.
-/
namespace TradingGuardrails

open Text

namespace Evm

def nativeAsset : String := "ETH"

/-- A value that should be a whole number: `bigint` in a configuration, or anything that
JSON can hold. -/
inductive Quantity where
  | bigint (n : Int)
  | value (v : Json)
  deriving DecidableEq

structure EvmErc20TokenConfig where
  address : String
  asset : String
  balanceSlot : Option Quantity
  allowanceSlot : Option Quantity := none
  totalSupplySlot : Option Quantity := none
  deriving DecidableEq

def hexDigit (c : Char) : Bool :=
  hexDigitLower c || ('A' ≤ c && c ≤ 'F')

/-- `/^0x[0-9a-fA-F]{40}$/` -/
def isAddressText (s : String) : Bool :=
  match s.toList with
  | '0' :: 'x' :: digits => digits.length == 40 && digits.all hexDigit
  | _ => false

def lowerAscii (s : String) : String :=
  String.ofList (s.toList.map Char.toLower)

structure Address where
  text : String
  digits : List Char
  spelled : text.toList = '0' :: 'x' :: digits
  length : digits.length = 40
  hex : digits.all hexDigitLower = true
  deriving DecidableEq

theorem toLower_hexDigit {c : Char} (h : hexDigit c = true) :
    hexDigitLower c.toLower = true := by
  have small : ∀ n < 128, hexDigit (Char.ofNat n) = true →
      hexDigitLower (Char.ofNat n).toLower = true := by decide +kernel
  have hlt : c.toNat < 128 := by
    rw [hexDigit, Bool.or_eq_true] at h
    rcases h with h | h
    · exact (hexDigitLower_ascii h).1
    · simp only [Bool.and_eq_true, decide_eq_true_eq, Char.le_def, UInt32.le_iff_toNat_le] at h
      have hnat : c.val.toNat = c.toNat := rfl
      have hF : 'F'.val.toNat = 70 := rfl
      omega
  have hof : Char.ofNat c.toNat = c := Char.ofNat_toNat c
  have hc := small c.toNat hlt
  rw [hof] at hc
  exact hc h

theorem digits_of_isAddressText {s : String} (h : isAddressText s = true) :
    ∃ digits, s.toList = '0' :: 'x' :: digits ∧ digits.length = 40 ∧
      digits.all hexDigit = true := by
  unfold isAddressText at h
  split at h
  · rename_i digits hs
    rw [Bool.and_eq_true, beq_iff_eq] at h
    exact ⟨digits, hs, h.1, h.2⟩
  · cases h

theorem lowerAscii_spelled {s : String} (h : isAddressText s = true) :
    (lowerAscii s).toList = '0' :: 'x' :: (s.toList.drop 2).map Char.toLower ∧
      ((s.toList.drop 2).map Char.toLower).length = 40 ∧
      ((s.toList.drop 2).map Char.toLower).all hexDigitLower = true := by
  obtain ⟨digits, hs, hlength, hhex⟩ := digits_of_isAddressText h
  rw [lowerAscii, String.toList_ofList, hs]
  refine ⟨rfl, by simpa using hlength, ?_⟩
  simp only [List.drop_succ_cons, List.drop_zero, List.all_map, List.all_eq_true,
    Function.comp_apply] at hhex ⊢
  exact fun c hc => toLower_hexDigit (hhex c hc)

/-- The checksummed form differs from the text in the case of its letters only. -/
def normalizeAddress (value : String) : Option Address :=
  if h : isAddressText value = true then
    some ⟨lowerAscii value, (value.toList.drop 2).map Char.toLower,
      (lowerAscii_spelled h).1, (lowerAscii_spelled h).2.1, (lowerAscii_spelled h).2.2⟩
  else none

/-- `/^(0x[0-9a-fA-F]+|\d+)$/` -/
def isQuantityText (s : String) : Bool :=
  match s.toList with
  | '0' :: 'x' :: digits => !digits.isEmpty && digits.all hexDigit
  | digits => !digits.isEmpty && digits.all Char.isDigit

def uint256 (n : Int) : Option Nat :=
  if 0 ≤ n ∧ n < 2 ^ 256 then some n.toNat else none

def parseQuantity : Quantity → Option Nat
  | .bigint n => uint256 n
  | .value (.num n) =>
      if Check.isInt n.value && decide (0 ≤ n.value) && decide (n.value ≤ 9007199254740991) then
        uint256 n.value.num
      else none
  | .value (.str s) =>
      if isQuantityText s then (Units.bigInt (codeUnits s)).bind uint256 else none
  | .value _ => none

def given : Option Quantity → Option Quantity
  | none | some (.value .null) => none
  | some (.value (.str s)) => if s = "" then none else some (.value (.str s))
  | some slot => some slot

/-- `/^0x[0-9a-fA-F]+$/`, padded to 64 digits. -/
def normalizeSlot (slot : String) : Option String :=
  match slot.toList with
  | '0' :: 'x' :: digits =>
      if digits.isEmpty || !digits.all hexDigit || decide (64 < digits.length) then none
      else some (String.ofList ('0' :: 'x' :: (digits.map Char.toLower).leftpad 64 '0'))
  | _ => none

/-- `0x${value.toString(16)}` -/
def toHexQuantity (value : Nat) : String :=
  String.ofList ('0' :: 'x' :: Nat.toDigits 16 value)

def hexWord : Nat → Nat → List Char
  | 0, _ => []
  | width + 1, n => hexWord width (n / 16) ++ [Nat.digitChar (n % 16)]

def Address.value (account : Address) : Nat :=
  (hexNumber account.digits).getD 0

def message (key : Address) (slot : Nat) : BitVec 512 :=
  BitVec.ofNat 256 key.value ++ BitVec.ofNat 256 slot

inductive ClassifiedSlot where
  | balance (asset : String) (account : Address)
  | allowance
  | supply
  deriving DecidableEq

abbrev Slots := List (String × ClassifiedSlot)

-- `keccak256` of 64 bytes.
variable (keccak256 : BitVec 512 → BitVec 256)

def mappingSlot (key : Address) (slot : Nat) : String :=
  String.ofList ('0' :: 'x' :: hexWord 64 (keccak256 (message key slot)).toNat)

def erc20BalanceSlot (account : Address) (slot : Nat) : String :=
  mappingSlot keccak256 account slot

def erc20AllowanceSlot (owner spender : Address) (slot : Nat) : String :=
  let inner := mappingSlot keccak256 owner slot
  mappingSlot keccak256 spender ((Units.bigInt (codeUnits inner)).getD 0).toNat

def parseSlotIndex (value : Quantity) : Except String Nat :=
  match parseQuantity value with
  | none => .error "ERC-20 mapping slot must be an exact uint256 integer."
  | some n => .ok n

def setAll (slots entries : Slots) : Slots :=
  entries.foldl (fun slots e => Json.putMember slots e.1 e.2) slots

def balanceSlots (observed : List Address) (asset : String) (slot : Nat) : Slots :=
  observed.map fun account => (erc20BalanceSlot keccak256 account slot, .balance asset account)

def allowanceSlots (observed : List Address) (slot : Nat) : Slots :=
  observed.flatMap fun owner => observed.map fun spender =>
    (erc20AllowanceSlot keccak256 owner spender slot, .allowance)

def setAllowances (observed : List Address) (token : EvmErc20TokenConfig) (slots : Slots) :
    Except String Slots :=
  match given token.allowanceSlot with
  | none => .ok slots
  | some value => do
      let slot ← parseSlotIndex value
      pure (setAll slots (allowanceSlots keccak256 observed slot))

def setSupply (token : EvmErc20TokenConfig) (slots : Slots) : Except String Slots :=
  match given token.totalSupplySlot with
  | none => .ok slots
  | some value => do
      let slot ← parseSlotIndex value
      match normalizeSlot (toHexQuantity slot) with
      | none => .error ("ERC-20 token " ++ token.address ++ " has an invalid totalSupplySlot.")
      | some supplySlot =>
          if (slots.lookup supplySlot).isSome then
            .error "ERC-20 storage layout slots overlap."
          else pure (Json.putMember slots supplySlot .supply)

def missingBalanceSlot (token : EvmErc20TokenConfig) : String :=
  "ERC-20 token " ++ token.address ++ " is missing required balanceSlot."

def invalidToken (token : EvmErc20TokenConfig) : String :=
  "ERC-20 token address " ++ token.address ++ " is not a valid Ethereum address."

variable (toLowerCase : String → String)

structure SlotIndex where
  index : List (String × Slots) := []
  assets : List String

def indexToken (observed : List Address) (known : SlotIndex) (token : EvmErc20TokenConfig) :
    Except String SlotIndex :=
  match normalizeAddress token.address with
  | none => .error (invalidToken token)
  | some tokenAddress =>
      if (known.index.lookup tokenAddress.text).isSome || token.asset.isEmpty ||
          known.assets.contains (toLowerCase token.asset) then
        .error "ERC-20 token addresses and asset identifiers must be unique."
      else match given token.balanceSlot with
        | none => .error (missingBalanceSlot token)
        | some value => do
            let balanceSlot ← parseSlotIndex value
            let slots := setAll ((known.index.lookup tokenAddress.text).getD [])
              (balanceSlots keccak256 observed token.asset balanceSlot)
            let slots ← setAllowances keccak256 observed token slots
            let slots ← setSupply token slots
            pure ⟨Json.putMember known.index tokenAddress.text slots,
              known.assets ++ [toLowerCase token.asset]⟩

def buildSlotIndex (tokens : List EvmErc20TokenConfig) (observed : List Address) :
    Except String (List (String × Slots)) := do
  let known ← tokens.foldlM (indexToken keccak256 toLowerCase observed)
    { assets := [toLowerCase nativeAsset] }
  pure known.index

def asAccount : Option Json → Option Json
  | some (.obj fs) => some (.obj fs)
  | _ => none

def notInteger (address : Address) : String :=
  "Native balance for " ++ address.text ++ " is not an integer quantity."

def missingBalance (address : Address) : String :=
  "Native balance for " ++ address.text ++ " is missing from the pre-state diff."

def nativeBalance (address : Address) (balance : Json) : Except String Nat :=
  match parseQuantity (.value balance) with
  | none => .error (notInteger address)
  | some n => .ok n

def preBalance (address : Address) (preAccount : Json) : Except String Nat :=
  match preAccount.field? "balance" with
  | none => .error (missingBalance address)
  | some balance => nativeBalance address balance

/-- The change and the balance before it. An account is created when it is not in the
pre-state, destroyed when it is not in the post-state. -/
def nativeDelta (address : Address) : Option Json → Option Json → Except String (Int × Nat)
  | none, some postAccount => match postAccount.field? "balance" with
    | none => .ok (0, 0)
    | some balance => do
        let post ← nativeBalance address balance
        pure (post, 0)
  | some preAccount, none => do
      let pre ← preBalance address preAccount
      pure (-(pre : Int), pre)
  | none, none => .error (missingBalance address)
  | some preAccount, some postAccount => do
      let pre ← preBalance address preAccount
      match postAccount.field? "balance" with
      | none => pure (0, pre)
      | some balance => do
          let post ← nativeBalance address balance
          pure ((post : Int) - pre, pre)

/-- `/^(?:[0-9a-fA-F]{2})*$/` -/
def hexPairs : List Char → Bool
  | [] => true
  | [_] => false
  | a :: b :: cs => hexDigit a && hexDigit b && hexPairs cs

def parseCode : Option Json → Option String
  | none => some "0x"
  | some (.str s) => match s.toList with
    | '0' :: 'x' :: digits => if hexPairs digits then some (lowerAscii s) else none
    | _ => none
  | some _ => none

def malformedCode (address : Address) : String :=
  "Contract code for " ++ address.text ++ " is malformed."

def codeChanged (address : Address) : String :=
  "Contract code changed for " ++ address.text ++ "."

def accountField (account : Option Json) (key : String) : Option Json :=
  account.bind fun account => account.field? key

def codeDelta (address : Address) (preAccount postAccount : Option Json) : Except String Unit :=
  match parseCode (accountField preAccount "code"), parseCode (accountField postAccount "code") with
  | some pre, some post => match preAccount, postAccount with
    | none, some _ =>
        if post ≠ "0x" then
          .error ("Simulation created contract code for " ++ address.text ++ ".")
        else .ok ()
    | some _, none => if pre ≠ "0x" then .error (codeChanged address) else .ok ()
    | none, none => .ok ()
    | some preAccount, some postAccount =>
        if postAccount.hasField "code" then
          if preAccount.hasField "code" then
            if pre ≠ post then .error (codeChanged address) else .ok ()
          else .error ("Contract code for " ++ address.text ++
            " is inconsistently present in the pre/post diff.")
        else .ok ()
  | _, _ => .error (malformedCode address)

abbrev StorageMap := List (String × Nat)

def storageEntry (map : StorageMap) (entry : String × Json) : Except String StorageMap :=
  match normalizeSlot entry.1, parseQuantity (.value entry.2) with
  | some slot, some parsed =>
      if (map.lookup slot).isSome then
        .error ("Trace storage slot " ++ entry.1 ++ " is malformed.")
      else .ok (map ++ [(slot, parsed)])
  | _, _ => .error ("Trace storage slot " ++ entry.1 ++ " is malformed.")

def parseStorageMap : Option Json → Except String StorageMap
  | none => .ok []
  | some (.obj entries) => entries.foldlM storageEntry []
  | some _ => .error "Trace storage map is malformed."

structure SlotChange where
  slot : String
  pre : Nat
  delta : Int

def cleared (pre : StorageMap) : List SlotChange :=
  pre.filterMap fun e => if e.2 = 0 then none else some ⟨e.1, e.2, -(e.2 : Int)⟩

def written (pre post : StorageMap) : List SlotChange :=
  post.filterMap fun e =>
    let before := (pre.lookup e.1).getD 0
    if before = e.2 then none else some ⟨e.1, before, (e.2 : Int) - before⟩

def diffStorage (preStorage postStorage : Option Json) (destroyed : Bool) :
    Except String (List SlotChange) := do
  let pre ← parseStorageMap preStorage
  if destroyed then pure (cleared pre)
  else do
    let post ← parseStorageMap postStorage
    pure (written pre post ++ cleared (pre.filter fun e => (post.lookup e.1).isNone))

structure TokenBalanceProbe where
  token : Address
  account : Address
  preBalance : Nat

structure NativeBalanceProbe where
  address : Address
  preBalance : Nat

structure Tally where
  ethDeltas : List (String × Int) := []
  tokenDeltas : List (String × Int) := []
  probes : List TokenBalanceProbe := []
  nativeProbes : List NativeBalanceProbe := []
  probed : List String := []
  nativeProbed : List String := []

def Tally.visitNative (tally : Tally) (address : Address) (delta : Int) (preBalance : Nat) :
    Tally :=
  let tally := { tally with ethDeltas := Ledger.credit tally.ethDeltas address.text delta }
  if tally.nativeProbed.contains address.text then tally
  else { tally with
    nativeProbed := tally.nativeProbed ++ [address.text]
    nativeProbes := tally.nativeProbes ++ [⟨address, preBalance⟩] }

def mapKey (account : Address) (asset : String) : String :=
  account.text ++ ":" ++ asset

def Tally.visitToken (tally : Tally) (address account : Address) (asset : String)
    (change : SlotChange) : Tally :=
  let tally := { tally with
    tokenDeltas := Ledger.credit tally.tokenDeltas (mapKey account asset) change.delta }
  let probeKey := address.text ++ ":" ++ account.text
  if tally.probed.contains probeKey then tally
  else { tally with
    probed := tally.probed ++ [probeKey]
    probes := tally.probes ++ [⟨address, account, change.pre⟩] }

def visitChange (observed : List Address) (classifiedSlots : Option Slots) (address : Address)
    (tally : Tally) (change : SlotChange) : Except String Tally :=
  if change.delta = 0 then .ok tally
  else match classifiedSlots.bind fun slots => slots.lookup change.slot with
    | none => .error ("Unclassified storage slot " ++ change.slot ++ " changed on " ++
        address.text ++ ".")
    | some (.balance asset account) =>
        if observed.contains account then .ok (tally.visitToken address account asset change)
        else .error ("Token balance slot for unobserved account " ++ account.text ++ " changed.")
    | some .allowance | some .supply => .ok tally

def malformedState (state : String) (address : Address) : String :=
  "Trace " ++ state ++ "-state for " ++ address.text ++ " is malformed."

def visit (pre post : Json) (observed : List Address) (slotIndex : List (String × Slots))
    (tokenByAddress : List (String × EvmErc20TokenConfig)) (tally : Tally)
    (rawAddress : String) : Except String Tally :=
  match normalizeAddress rawAddress with
  | none => .error ("Trace account " ++ rawAddress ++ " is not a valid Ethereum address.")
  | some address =>
      let preAccount := asAccount (pre.field? rawAddress)
      let postAccount := asAccount (post.field? rawAddress)
      if pre.hasField rawAddress && preAccount.isNone then .error (malformedState "pre" address)
      else if post.hasField rawAddress && postAccount.isNone then
        .error (malformedState "post" address)
      else do
        let (delta, preBalance) ← nativeDelta address preAccount postAccount
        let tally := tally.visitNative address delta preBalance
        codeDelta address preAccount postAccount
        let changes ← diffStorage (accountField preAccount "storage")
          (accountField postAccount "storage") (preAccount.isSome && postAccount.isNone)
        let classifiedSlots := if (tokenByAddress.lookup address.text).isSome then
          slotIndex.lookup address.text else none
        changes.foldlM (visitChange observed classifiedSlots address) tally

def distinct {α : Type} [DecidableEq α] (l : List α) : List α :=
  l.reverse.dedup.reverse

def normalizeObserved (address : String) : Except String Address :=
  match normalizeAddress address with
  | none => .error ("Observed address " ++ address ++ " is not a valid Ethereum address.")
  | some normalized => .ok normalized

def registerToken (known : List (String × EvmErc20TokenConfig)) (token : EvmErc20TokenConfig) :
    Except String (List (String × EvmErc20TokenConfig)) :=
  match normalizeAddress token.address with
  | none => .error (invalidToken token)
  | some address =>
      if token.asset.isEmpty then .error "ERC-20 token asset identifiers are required."
      else if (given token.balanceSlot).isNone then .error (missingBalanceSlot token)
      else .ok (Json.putMember known address.text token)

structure Extraction where
  changes : List BalanceChange
  probes : List TokenBalanceProbe
  nativeProbes : List NativeBalanceProbe

def splitKey (mapKey : String) : String × String :=
  (String.ofList (mapKey.toList.takeWhile (· != ':')),
    String.ofList ((mapKey.toList.dropWhile (· != ':')).drop 1))

def ethRows (deltas : List (String × Int)) : List BalanceChange :=
  deltas.map fun e => ⟨e.1, nativeAsset, bigIntText e.2⟩

def tokenRows (deltas : List (String × Int)) : List BalanceChange :=
  deltas.filterMap fun e =>
    if e.2 = 0 then none else some ⟨(splitKey e.1).1, (splitKey e.1).2, bigIntText e.2⟩

-- `a.localeCompare(b) <= 0`
variable (localeCompare : String → String → Bool)

def rowLe (left right : BalanceChange) : Bool :=
  if localeCompare left.address right.address && localeCompare right.address left.address then
    localeCompare left.asset right.asset
  else localeCompare left.address right.address

def rows (tally : Tally) : List BalanceChange :=
  (ethRows tally.ethDeltas ++ tokenRows tally.tokenDeltas).insertionSort
    fun left right => rowLe localeCompare left right = true

def classifyAndExtract (pre post : Json) (tokens : List EvmErc20TokenConfig)
    (observedAddresses : List String) : Except String Extraction :=
  if !pre.isObj || !post.isObj then
    .error "debug_traceCall prestateTracer diff is missing pre/post account maps."
  else do
    let normalized ← observedAddresses.mapM normalizeObserved
    let observed := distinct normalized
    let slotIndex ← buildSlotIndex keccak256 toLowerCase tokens observed
    let tokenByAddress ← tokens.foldlM registerToken []
    let addresses := distinct (pre.keys ++ post.keys)
    let tally ← addresses.foldlM (visit pre post observed slotIndex tokenByAddress) {}
    pure ⟨rows localeCompare tally, tally.probes, tally.nativeProbes⟩

end Evm
end TradingGuardrails
