import Mathlib.Data.List.DropRight
import Mathlib.Data.List.Forall2
import TradingGuardrails.Solana.Connector

/-!
The instruction that the provider builds from a parsed one. It reads the keys and the
data again, with decoders of its own; a validated instruction is built as it was
validated.
-/
namespace TradingGuardrails

open Text

structure TransactionInstruction where
  programId : String
  keys : List InstructionAccount
  data : List Nat

def decodeUnpadded : List Char → Option (List Nat)
  | [] => some []
  | [_] => none
  | [a, b] => do
      let a ← base64Value a
      let b ← base64Value b
      if b % 16 = 0 then pure [a * 4 + b / 16] else none
  | [a, b, c] => do
      let a ← base64Value a
      let b ← base64Value b
      let c ← base64Value c
      if c % 4 = 0 then pure [a * 4 + b / 16, b % 16 * 16 + c / 4] else none
  | a :: b :: c :: d :: cs => do
      let a ← base64Value a
      let b ← base64Value b
      let c ← base64Value c
      let d ← base64Value d
      let rest ← decodeUnpadded cs
      pure ((a * 4 + b / 16) :: (b % 16 * 16 + c / 4) :: (c % 4 * 64 + d) :: rest)

/-- `value.replace(/=+$/, "")` -/
def withoutPadding (cs : List Char) : List Char :=
  cs.rdropWhile (· == '=')

variable (host : Host)

def accountMeta (account : Json) : Option InstructionAccount :=
  match account.field? "pubkey", account.field? "isSigner", account.field? "isWritable" with
  | some (.str pubkey), some (.bool isSigner), some (.bool isWritable) => do
      let canonical ← host.publicKey pubkey
      if canonical.isEmpty then none
      else do
        let key ← host.publicKey canonical
        pure ⟨key, isSigner, isWritable⟩
  | _, _, _ => none

def toAccountMetas : Option Json → Option (List InstructionAccount)
  | none => some []
  | some (.arr accounts) => accounts.mapM (accountMeta host)
  | some _ => none

def toInstructionData : Option Json → Option (List Nat)
  | none => some []
  | some (.str s) => match s.toList with
    | [] => some []
    | '0' :: 'x' :: digits => decodeHex digits
    | cs =>
        let digits := withoutPadding cs
        if cs.length ≤ digits.length + 2 then decodeUnpadded digits else none
  | some _ => none

/-- The instruction that is built, or nothing when the provider throws. -/
def toTransactionInstruction (instruction : ParsedInstruction) : Option TransactionInstruction := do
  let programId ← host.publicKey instruction.programId
  let keys ← toAccountMetas host (instruction.data.field? "keys")
  let data ← toInstructionData (instruction.data.field? "data")
  pure ⟨programId, keys, data⟩

variable {host}

theorem base64Value_padding : base64Value '=' = none := by decide

/-- A text that the parser decodes is the text without padding and at most two marks. -/
theorem padded_of_decodeBase64 {cs : List Char} {bytes : List Nat}
    (h : decodeBase64 cs = some bytes) : ∃ digits marks, cs = digits ++ List.replicate marks '=' ∧
      marks ≤ 2 ∧ '=' ∉ digits ∧ decodeUnpadded digits = some bytes := by
  have hdigit : ∀ {c : Char} {n : Nat}, base64Value c = some n → '=' ≠ c := by
    rintro c n hc rfl
    rw [base64Value_padding] at hc
    cases hc
  induction cs using decodeBase64.induct generalizing bytes with
  | case1 =>
      cases h
      exact ⟨[], 0, rfl, by omega, by simp, rfl⟩
  | case2 a b =>
      simp only [decodeBase64, Option.bind_eq_bind, Option.bind_eq_some_iff] at h
      obtain ⟨m, hm, n, hn, h⟩ := h
      refine ⟨[a, b], 2, rfl, by omega, by simp [hdigit hm, hdigit hn], ?_⟩
      simp only [decodeUnpadded, hm, hn, Option.bind_eq_bind, Option.bind_some]
      exact h
  | case3 a b c =>
      simp only [decodeBase64, Option.bind_eq_bind, Option.bind_eq_some_iff] at h
      obtain ⟨m, hm, n, hn, k, hk, h⟩ := h
      refine ⟨[a, b, c], 1, rfl, by omega, by simp [hdigit hm, hdigit hn, hdigit hk], ?_⟩
      simp only [decodeUnpadded, hm, hn, hk, Option.bind_eq_bind, Option.bind_some]
      exact h
  | case4 a b c d cs hnot hnot' ih =>
      rw [decodeBase64] at h
      · simp only [Option.bind_eq_bind, Option.bind_eq_some_iff] at h
        obtain ⟨m, hm, n, hn, k, hk, l, hl, rest, hrest, h⟩ := h
        obtain ⟨digits, marks, rfl, hmarks, hfree, hdigits⟩ := ih hrest
        refine ⟨a :: b :: c :: d :: digits, marks, rfl, hmarks, ?_, ?_⟩
        · simp [hdigit hm, hdigit hn, hdigit hk, hdigit hl, hfree]
        · simp only [decodeUnpadded, hm, hn, hk, hl, hdigits, Option.bind_eq_bind,
            Option.bind_some]
          exact h
      · exact hnot
      · exact hnot'
  | case5 cs hnil htwo hone hmore =>
      rw [decodeBase64] at h
      · cases h
      · exact hnil
      · exact htwo
      · exact hone
      · exact hmore

theorem withoutPadding_marks {digits : List Char} (h : '=' ∉ digits) (marks : Nat) :
    withoutPadding (digits ++ List.replicate marks '=') = digits := by
  induction marks with
  | zero =>
      rw [List.replicate_zero, List.append_nil, withoutPadding, List.rdropWhile_eq_self_iff]
      intro hne hlast
      refine h ?_
      rw [← beq_iff_eq.mp hlast]
      exact List.getLast_mem hne
  | succ marks ih =>
      rw [List.replicate_succ', ← List.append_assoc, withoutPadding,
        List.rdropWhile_concat_pos _ _ _ (by decide)]
      exact ih

/-- The provider reads the bytes that the parser read. -/
theorem toInstructionData_decoded {data : Json} {bytes : List Nat}
    (h : decodeInstructionData data = some bytes) : toInstructionData (some data) = some bytes := by
  cases data with
  | str s =>
      simp only [decodeInstructionData, toInstructionData] at h ⊢
      split at h
      · next digits hs => simpa only [hs] using h
      · next cs hunmarked =>
          obtain ⟨digits, marks, hcs, hmarks, hfree, hdigits⟩ := padded_of_decodeBase64 h
          split
          · next hempty =>
              rw [hempty] at h
              exact h
          · next digits' hs => exact absurd hs (hunmarked digits')
          · rw [hcs, withoutPadding_marks hfree]
            simp only [List.length_append, List.length_replicate]
            rw [if_pos (by omega)]
            exact hdigits
  | null | bool | num | arr | obj => cases h

theorem matched_at {α β : Type} {R : α → β → Prop} {xs : List α} {ys : List β}
    (h : List.Forall₂ R xs ys) {n : Nat} {x : α} {y : β} (hx : xs[n]? = some x)
    (hy : ys[n]? = some y) : R x y := by
  induction h generalizing n with
  | nil => cases hx
  | cons hfirst _ ih =>
      cases n with
      | zero =>
          cases hx
          cases hy
          exact hfirst
      | succ n => exact ih hx hy

def Host.OneTextPerKey (host : Host) : Prop :=
  ∀ text key, host.publicKey text = some key → key = text

structure SameKey (key : Json) (account : InstructionAccount) : Prop where
  pubkey : key.field? "pubkey" = some (.str account.pubkey)
  isSigner : key.field? "isSigner" = some (.bool account.isSigner)
  isWritable : key.field? "isWritable" = some (.bool account.isWritable)

theorem sameKey_of_instructionAccount (hkeys : host.OneTextPerKey) {key : Json}
    {account : InstructionAccount} (h : instructionAccount host key = some account) :
    SameKey key account := by
  unfold instructionAccount at h
  split at h
  · next pubkey isSigner isWritable hpubkey hsigner hwritable =>
      obtain ⟨canonical, hcanonical, rfl⟩ := Option.map_eq_some_iff.mp h
      obtain rfl := hkeys _ _ hcanonical
      exact ⟨hpubkey, hsigner, hwritable⟩
  · cases h

theorem sameKey_of_accountMeta (hkeys : host.OneTextPerKey) {key : Json}
    {account : InstructionAccount} (h : accountMeta host key = some account) :
    SameKey key account ∧ account.pubkey.isEmpty = false := by
  unfold accountMeta at h
  split at h
  · next pubkey isSigner isWritable hpubkey hsigner hwritable =>
      simp only [Option.bind_eq_bind, Option.bind_eq_some_iff] at h
      obtain ⟨canonical, hcanonical, h⟩ := h
      split_ifs at h with hempty
      obtain ⟨final, hfinal, h⟩ := Option.bind_eq_some_iff.mp h
      cases h
      obtain rfl := hkeys _ _ hcanonical
      obtain rfl := hkeys _ _ hfinal
      exact ⟨⟨hpubkey, hsigner, hwritable⟩, Bool.not_eq_true _ ▸ hempty⟩
  · cases h

theorem sameKey_json {account other : InstructionAccount} (h : SameKey account.json other) :
    account = other := by
  obtain ⟨hpubkey, hsigner, hwritable⟩ := h
  cases account
  cases other
  cases hpubkey
  cases hsigner
  cases hwritable
  rfl

def rawKeys (raw : Json) : List Json :=
  match raw.field? "keys" with
  | some (.arr keys) => keys
  | _ => []

theorem mem_rawKeys {raw key : Json} (h : key ∈ rawKeys raw) :
    ∃ keys, raw.field? "keys" = some (.arr keys) ∧ key ∈ keys := by
  unfold rawKeys at h
  split at h
  · next keys harr => exact ⟨keys, harr, h⟩
  · cases h

def rawBytes (raw : Json) : Option (List Nat) :=
  match raw.field? "data" with
  | none => some []
  | some data => decodeInstructionData data

theorem transferData_fields {raw : Json} (hobj : raw.isObj = true) (bytes : List Nat)
    (accounts : List InstructionAccount) :
    let data := transferData raw bytes accounts
    data.field? "data" = raw.field? "data" ∧
      data.field? "keys" = some (.arr (accounts.map InstructionAccount.json)) ∧
      data.field? "source" = some (pubkeyAt accounts 0) ∧
      data.field? "destination" = some (pubkeyAt accounts 1) ∧
      data.field? "amount" = some (.str (toString (readUInt64 bytes 4))) := by
  simp [transferData, withKeys, Json.field?_put_self, Json.field?_put_of_ne, hobj]

theorem transferCheckedData_fields {raw : Json} (hobj : raw.isObj = true) (bytes : List Nat)
    (accounts : List InstructionAccount) :
    let data := transferCheckedData raw bytes accounts
    data.field? "data" = raw.field? "data" ∧
      data.field? "keys" = some (.arr (accounts.map InstructionAccount.json)) ∧
      data.field? "source" = some (pubkeyAt accounts 0) ∧
      data.field? "mint" = some (pubkeyAt accounts 1) ∧
      data.field? "destination" = some (pubkeyAt accounts 2) ∧
      data.field? "owner" = some (pubkeyAt accounts 3) ∧
      data.field? "amount" = some (.str (toString (readUInt64 bytes 1))) := by
  simp [transferCheckedData, withKeys, Json.field?_put_self, Json.field?_put_of_ne, hobj]

/-- A raw instruction is handed on as it is when it has no data, and as the transfer that
its data is otherwise. -/
inductive Handed (host : Host) (raw : Json) (ix : ParsedInstruction) : Prop
  | plain (data : raw.field? "data" = none ∨ raw.field? "data" = some .null) (same : ix.data = raw)
  | transfer {data : Json} {bytes : List Nat} {accounts : List InstructionAccount}
      (raw_data : raw.field? "data" = some data)
      (decoded : decodeInstructionData data = some bytes)
      (keys : instructionAccounts host (raw.field? "keys") = some accounts)
      (recognized : isSystemTransfer ix.programId bytes accounts = true)
      (same : ix.data = transferData raw bytes accounts)
  | transferChecked {data : Json} {bytes : List Nat} {accounts : List InstructionAccount}
      (raw_data : raw.field? "data" = some data)
      (decoded : decodeInstructionData data = some bytes)
      (keys : instructionAccounts host (raw.field? "keys") = some accounts)
      (recognized : isTokenTransferChecked ix.programId bytes accounts = true)
      (same : ix.data = transferCheckedData raw bytes accounts)

theorem handed_of_parse {raw : Json} {ix : ParsedInstruction}
    (h : parseInstruction host raw = some ix) : Handed host raw ix := by
  unfold parseInstruction at h
  dsimp only at h
  cases hraw : raw.field? "data" with
  | none =>
      rw [hraw] at h
      cases h
      exact .plain (.inl hraw) rfl
  | some data =>
      rw [hraw] at h
      by_cases hnull : data = .null
      · subst hnull
        cases h
        exact .plain (.inr hraw) rfl
      · have hpresent : present (some data) = some data := by simp [present, hnull]
        simp only [hpresent] at h
        split_ifs at h
        simp only [Option.bind_eq_bind, Option.bind_eq_some_iff] at h
        obtain ⟨bytes, hbytes, accounts, haccounts, h⟩ := h
        split_ifs at h with htransfer hchecked
        · cases h
          exact .transfer hraw hbytes haccounts htransfer rfl
        · cases h
          exact .transferChecked hraw hbytes haccounts hchecked rfl

def AmountBytes (bytes : List Nat) (amount : Nat) : Prop :=
  bytes.length = 8 ∧ readUInt64 bytes 0 = amount

/-- A transfer of the system program: a tag of four bytes and an amount. -/
structure SystemTransfer (tx : TransactionInstruction) (source destination : InstructionAccount)
    (amount : Nat) : Prop where
  program : tx.programId = systemProgramId
  data : ∃ bytes, tx.data = [2, 0, 0, 0] ++ bytes ∧ AmountBytes bytes amount
  keys : tx.keys = [source, destination]

/-- A checked transfer of a token program: a tag of one byte, an amount and the decimals. -/
structure TransferChecked (tx : TransactionInstruction)
    (source mint destination owner : InstructionAccount) (amount : Nat) : Prop where
  program : tx.programId = tokenProgramId ∨ tx.programId = token2022ProgramId
  data : ∃ bytes decimals, tx.data = 12 :: (bytes ++ [decimals]) ∧ AmountBytes bytes amount
  keys : ∃ signers, tx.keys = source :: mint :: destination :: owner :: signers

/-- The metadata that was validated says where the value goes, and how much of it. -/
structure SaysTransfer (ix : ParsedInstruction) (source destination : InstructionAccount)
    (amount : Nat) : Prop where
  source : ix.data.field? "source" = some (.str source.pubkey)
  destination : ix.data.field? "destination" = some (.str destination.pubkey)
  amount : ix.data.field? "amount" = some (.str (toString amount))

structure SaysTransferChecked (ix : ParsedInstruction)
    (source mint destination owner : InstructionAccount) (amount : Nat) : Prop
    extends SaysTransfer ix source destination amount where
  mint : ix.mint = some (.str mint.pubkey)
  owner : ix.data.field? "owner" = some (.str owner.pubkey)

/-- What is built from a raw instruction is what was validated. -/
structure BuiltAsValidated (config : SolanaConfig) (raw : Json) (ix : ParsedInstruction)
    (tx : TransactionInstruction) : Prop where
  program : tx.programId ∈ config.allowedPrograms
  bytes : rawBytes raw = some tx.data
  keys : List.Forall₂ SameKey (rawKeys raw) tx.keys
  writable : ∀ key ∈ tx.keys, key.isWritable = true → key.pubkey ∈ config.allowedAccounts
  recognized : tx.data ≠ [] →
    (∃ source destination amount, SystemTransfer tx source destination amount ∧
      SaysTransfer ix source destination amount) ∨
    (∃ source mint destination owner amount,
      TransferChecked tx source mint destination owner amount ∧
      SaysTransferChecked ix source mint destination owner amount ∧
      mint.pubkey ∈ config.allowedTokenMints)

theorem built_parts {ix : ParsedInstruction} {tx : TransactionInstruction}
    (h : toTransactionInstruction host ix = some tx) :
    host.publicKey ix.programId = some tx.programId ∧
      toAccountMetas host (ix.data.field? "keys") = some tx.keys ∧
      toInstructionData (ix.data.field? "data") = some tx.data := by
  simp only [toTransactionInstruction, Option.bind_eq_bind, Option.bind_eq_some_iff] at h
  obtain ⟨programId, hprogram, keys, hkeys, data, hdata, h⟩ := h
  cases h
  exact ⟨hprogram, hkeys, hdata⟩

/-- The keys that are built are those of the parsed instruction. -/
theorem built_keys (hkeys : host.OneTextPerKey) {ix : ParsedInstruction}
    {keys : List InstructionAccount}
    (h : toAccountMetas host (ix.data.field? "keys") = some keys) :
    List.Forall₂ (fun raw key => SameKey raw key ∧ key.pubkey.isEmpty = false)
      (rawKeys ix.data) keys := by
  unfold toAccountMetas at h
  unfold rawKeys
  split at h
  · next hnone =>
      cases h
      rw [hnone]
      exact .nil
  · next accounts harr =>
      rw [harr]
      exact (Members.mapM_eq_some.mp h).imp fun _ _ hmeta => sameKey_of_accountMeta hkeys hmeta
  · cases h

theorem writable_listed {config : SolanaConfig} {ix : ParsedInstruction}
    (hvalid : Validated config ix) {keys : List InstructionAccount}
    (h : List.Forall₂ (fun raw key => SameKey raw key ∧ key.pubkey.isEmpty = false)
      (rawKeys ix.data) keys) {key : InstructionAccount} (hkey : key ∈ keys)
    (hwritable : key.isWritable = true) : key.pubkey ∈ config.allowedAccounts := by
  obtain ⟨raw, hraw, hsame, hempty⟩ := Members.matched_right h hkey
  refine hvalid.account (.str key.pubkey) ?_ (by simp [truthy, hempty])
  refine List.mem_append_right _ ?_
  obtain ⟨keys, harr, hmem⟩ := mem_rawKeys hraw
  unfold ParsedInstruction.writableKeys
  rw [harr]
  refine List.mem_map.mpr ⟨raw, List.mem_filter.mpr ⟨hmem, ?_⟩, hsame.pubkey⟩
  rw [hsame.isWritable, hwritable]
  exact beq_self_eq_true _

/-- The keys that are built are the accounts that were decoded. -/
theorem built_accounts {ix : ParsedInstruction} {accounts keys : List InstructionAccount}
    (hdata : ix.data.field? "keys" = some (.arr (accounts.map InstructionAccount.json)))
    (h : List.Forall₂ (fun raw key => SameKey raw key ∧ key.pubkey.isEmpty = false)
      (rawKeys ix.data) keys) : accounts = keys := by
  rw [rawKeys, hdata] at h
  have hsame := (List.forall₂_map_left_iff.mp h).imp fun _ _ hkey => sameKey_json hkey.1
  rwa [List.forall₂_eq_eq_eq] at hsame

theorem systemTransfer_of_recognized {programId : String} {bytes : List Nat}
    {accounts : List InstructionAccount}
    (h : isSystemTransfer programId bytes accounts = true) : ∃ source destination,
      SystemTransfer ⟨programId, accounts, bytes⟩ source destination (readUInt64 bytes 4) ∧
      pubkeyAt accounts 0 = .str source.pubkey ∧ pubkeyAt accounts 1 = .str destination.pubkey := by
  simp only [isSystemTransfer, Bool.and_eq_true, beq_iff_eq] at h
  obtain ⟨⟨⟨hprogram, hlength⟩, htag⟩, haccounts⟩ := h
  split at haccounts
  · next source destination =>
      refine ⟨source, destination, ⟨hprogram, ⟨bytes.drop 4, ?_, ?_, rfl⟩, rfl⟩, rfl, rfl⟩
      · rw [← htag, List.take_append_drop]
      · rw [List.length_drop]
        omega
  · cases haccounts

theorem transferChecked_of_recognized {programId : String} {bytes : List Nat}
    {accounts : List InstructionAccount}
    (h : isTokenTransferChecked programId bytes accounts = true) :
    ∃ source mint destination owner,
      TransferChecked ⟨programId, accounts, bytes⟩ source mint destination owner
        (readUInt64 bytes 1) ∧
      pubkeyAt accounts 0 = .str source.pubkey ∧ pubkeyAt accounts 1 = .str mint.pubkey ∧
      pubkeyAt accounts 2 = .str destination.pubkey ∧ pubkeyAt accounts 3 = .str owner.pubkey := by
  simp only [isTokenTransferChecked, Bool.and_eq_true, Bool.or_eq_true, beq_iff_eq] at h
  obtain ⟨⟨⟨hprogram, hlength⟩, htag⟩, haccounts⟩ := h
  split at haccounts
  · next source mint destination owner signers =>
      refine ⟨source, mint, destination, owner, ⟨hprogram, ?_, signers, rfl⟩, rfl, rfl, rfl, rfl⟩
      cases bytes with
      | nil => cases htag
      | cons tag rest =>
          cases htag
          have hrest : rest.length = 9 := by simpa using hlength
          have hlast : (rest.drop 8).length = 1 := by
            rw [List.length_drop]
            omega
          obtain ⟨decimals, hdecimals⟩ := List.length_eq_one_iff.mp hlast
          refine ⟨rest.take 8, decimals, ?_, ?_, ?_⟩
          · rw [← hdecimals, List.take_append_drop]
          · rw [List.length_take]
            omega
          · simp [readUInt64, List.take_take]
  · cases haccounts

/-- What is built from a decoded instruction is what was decoded. -/
theorem built_decoded (hkeys : host.OneTextPerKey) {raw : Json} {ix : ParsedInstruction}
    {tx : TransactionInstruction} {data : Json} {bytes : List Nat}
    {accounts : List InstructionAccount} (hraw : raw.field? "data" = some data)
    (hdecoded : decodeInstructionData data = some bytes)
    (haccounts : instructionAccounts host (raw.field? "keys") = some accounts)
    (hdata : ix.data.field? "data" = raw.field? "data")
    (hmetas : ix.data.field? "keys" = some (.arr (accounts.map InstructionAccount.json)))
    (hbuilt : toTransactionInstruction host ix = some tx) :
    tx = ⟨ix.programId, accounts, bytes⟩ ∧ rawBytes raw = some tx.data ∧
      List.Forall₂ SameKey (rawKeys raw) tx.keys := by
  obtain ⟨hprogram, hbuiltKeys, hbuiltData⟩ := built_parts hbuilt
  rw [hdata, hraw, toInstructionData_decoded hdecoded, Option.some.injEq] at hbuiltData
  have haccountsBuilt := built_accounts hmetas (built_keys hkeys hbuiltKeys)
  have htx : tx = ⟨ix.programId, accounts, bytes⟩ := by
    rw [← hkeys _ _ hprogram, haccountsBuilt, hbuiltData]
  refine ⟨htx, ?_, ?_⟩
  · rw [rawBytes, hraw, ← hbuiltData]
    exact hdecoded
  · rw [← haccountsBuilt]
    obtain ⟨keys, harr, hdecodedKeys⟩ : ∃ keys, raw.field? "keys" = some (.arr keys) ∧
        keys.mapM (instructionAccount host) = some accounts := by
      unfold instructionAccounts at haccounts
      split at haccounts
      · next keys harr => exact ⟨keys, harr, haccounts⟩
      · cases haccounts
    rw [rawKeys, harr]
    exact (Members.mapM_eq_some.mp hdecodedKeys).imp fun _ _ h =>
      sameKey_of_instructionAccount hkeys h

/-- A handed on instruction is built as it was validated. -/
theorem built_of_handed (hkeys : host.OneTextPerKey) {config : SolanaConfig} {raw : Json}
    {ix : ParsedInstruction} {tx : TransactionInstruction} (hhanded : Handed host raw ix)
    (hvalid : Validated config ix) (hbuilt : toTransactionInstruction host ix = some tx) :
    BuiltAsValidated config raw ix tx := by
  obtain ⟨hprogram, hmetas, hdata⟩ := built_parts hbuilt
  have hsame := built_keys hkeys hmetas
  have hlisted : tx.programId ∈ config.allowedPrograms := by
    rw [hkeys _ _ hprogram]
    exact hvalid.program
  have hwritable : ∀ key ∈ tx.keys, key.isWritable = true →
      key.pubkey ∈ config.allowedAccounts :=
    fun key hkey hw => writable_listed hvalid hsame hkey hw
  cases hhanded with
  | plain hraw hix =>
      rw [hix] at hdata hsame
      have hempty : tx.data = [] ∧ rawBytes raw = some [] := by
        rcases hraw with hnone | hnull
        · rw [hnone] at hdata
          exact ⟨(Option.some.inj hdata).symm, by rw [rawBytes, hnone]⟩
        · rw [hnull] at hdata
          cases hdata
      refine ⟨hlisted, ?_, hsame.imp fun _ _ h => h.1, hwritable, ?_⟩
      · rw [hempty.1, hempty.2]
      · intro hdata
        exact absurd hempty.1 hdata
  | @transfer data bytes accounts hraw hdecoded haccounts hrecognized hix =>
      obtain ⟨hfield, hfieldKeys, hsource, hdestination, hamount⟩ :=
        transferData_fields (Json.isObj_of_field? hraw) bytes accounts
      rw [← hix] at hfield hfieldKeys hsource hdestination hamount
      obtain ⟨htx, hbytes, hrawKeys⟩ :=
        built_decoded hkeys hraw hdecoded haccounts hfield hfieldKeys hbuilt
      obtain ⟨source, destination, htransfer, hpubkey₀, hpubkey₁⟩ :=
        systemTransfer_of_recognized hrecognized
      rw [← htx] at htransfer
      rw [hpubkey₀] at hsource
      rw [hpubkey₁] at hdestination
      exact ⟨hlisted, hbytes, hrawKeys, hwritable,
        fun _ => .inl ⟨source, destination, _, htransfer, hsource, hdestination, hamount⟩⟩
  | @transferChecked data bytes accounts hraw hdecoded haccounts hrecognized hix =>
      obtain ⟨hfield, hfieldKeys, hsource, hmint, hdestination, howner, hamount⟩ :=
        transferCheckedData_fields (Json.isObj_of_field? hraw) bytes accounts
      rw [← hix] at hfield hfieldKeys hsource hmint hdestination howner hamount
      obtain ⟨htx, hbytes, hrawKeys⟩ :=
        built_decoded hkeys hraw hdecoded haccounts hfield hfieldKeys hbuilt
      obtain ⟨source, mint, destination, owner, htransfer, hpubkey₀, hpubkey₁, hpubkey₂,
        hpubkey₃⟩ := transferChecked_of_recognized hrecognized
      rw [← htx] at htransfer
      rw [hpubkey₀] at hsource
      rw [hpubkey₁] at hmint
      rw [hpubkey₂] at hdestination
      rw [hpubkey₃] at howner
      have hvalidated : ix.mint = some (.str mint.pubkey) := by
        rw [ParsedInstruction.mint, hmint]
        rfl
      have hmetaMint : mint.pubkey.isEmpty = false := by
        obtain ⟨signers, hsigners⟩ := htransfer.keys
        obtain ⟨_, -, -, hempty⟩ := Members.matched_right (built_keys hkeys hmetas)
          (y := mint) (by rw [hsigners]; simp)
        exact hempty
      refine ⟨hlisted, hbytes, hrawKeys, hwritable, fun _ => .inr ?_⟩
      refine ⟨source, mint, destination, owner, _, htransfer,
        ⟨⟨hsource, hdestination, hamount⟩, hvalidated, howner⟩, ?_⟩
      exact hvalid.mint _ hvalidated (by simp [truthy, hmetaMint])

/-- When a revalidated intent's instructions are all built, each is built as it was
validated. -/
theorem instructions_built_as_validated (hkeys : host.OneTextPerKey) (config : SolanaConfig)
    (intent : TradingIntent host) (hpassed : config.revalidate intent = .ok ())
    {instructions : List ParsedInstruction} {built : List TransactionInstruction}
    (hparsed : parseInstructions host (rawInstructions intent) = some instructions)
    (hbuilt : instructions.mapM (toTransactionInstruction host) = some built) :
    instructions.length = (rawInstructions intent).length ∧
      built.length = (rawInstructions intent).length ∧
      ∀ (n : Nat) raw ix tx, (rawInstructions intent)[n]? = some raw → instructions[n]? = some ix →
        built[n]? = some tx → BuiltAsValidated config raw ix tx := by
  obtain ⟨instructions', hparsed', hvalid⟩ := validated_of_revalidate hpassed
  cases hparsed.symm.trans hparsed'
  have hhanded := Members.mapM_eq_some.mp hparsed
  have hbuiltEach := Members.mapM_eq_some.mp hbuilt
  refine ⟨hhanded.length_eq.symm, hbuiltEach.length_eq.symm.trans hhanded.length_eq.symm, ?_⟩
  intro n raw ix tx hraw hix htx
  exact built_of_handed hkeys (handed_of_parse (matched_at hhanded hraw hix))
    (hvalid ix (List.mem_of_getElem? hix)) (matched_at hbuiltEach hix htx)

abbrev keyHost : Host := plainHost id fun _ => id

def devnetConfig : SolanaConfig where
  chainEnvironment := "devnet"
  allowedPrograms := [systemProgramId, "memo"]
  allowedTokenMints := []
  allowedAccounts := ["alice", "bob"]
  supported := .inl rfl

def accountKey (pubkey : String) (isSigner : Bool) : Json :=
  InstructionAccount.json ⟨pubkey, isSigner, true⟩

def transferIntent : TradingIntent keyHost where
  value := .record [
    ("intentId", some (.str "i")),
    ("principal", some (.str "p")),
    ("action", some (.str "onchain.simulate_transaction")),
    ("resource", some (.str "onchain:solana:devnet:a")),
    ("environment", some (.str "paper")),
    ("requestedAt", some (.str "t")),
    ("idempotencyKey", some (.str "k")),
    ("rationale", some (.str "x")),
    ("evidence", some (.arr [.str "e"])),
    ("chain", some (.str "solana")),
    ("chainEnvironment", some (.str "devnet")),
    ("to", some (.str "a")),
    ("instructions", some (.arr [
      .record [
        ("programId", some (.str systemProgramId)),
        ("data", some (.str "AgAAAGQAAAAAAAAA")),
        ("destination", some (.str "mallory")),
        ("keys", some (.arr [accountKey "alice" true, accountKey "bob" false]))],
      .record [
        ("programId", some (.str "memo")),
        ("type", some (.str "memo")),
        ("keys", some (.arr [accountKey "bob" false]))]]))]
  valid := by decide +kernel

theorem instructions_built_as_validated_transfer : ∃ instructions built,
    parseInstructions keyHost (rawInstructions transferIntent) = some instructions ∧
      instructions.mapM (toTransactionInstruction keyHost) = some built ∧
      built.length = (rawInstructions transferIntent).length ∧
      ∀ (n : Nat) raw ix tx, (rawInstructions transferIntent)[n]? = some raw →
        instructions[n]? = some ix → built[n]? = some tx →
        BuiltAsValidated devnetConfig raw ix tx := by
  have hbuilds : ((parseInstructions keyHost (rawInstructions transferIntent)).bind
      fun instructions => instructions.mapM (toTransactionInstruction keyHost)).isSome = true := by
    decide +kernel
  obtain ⟨built, hbuilds⟩ := Option.isSome_iff_exists.mp hbuilds
  obtain ⟨instructions, hparsed, hbuilt⟩ := Option.bind_eq_some_iff.mp hbuilds
  have hkeys : keyHost.OneTextPerKey := fun _ _ h => (Option.some.inj h).symm
  have hpassed : devnetConfig.revalidate transferIntent = .ok () := by decide +kernel
  have h := instructions_built_as_validated hkeys devnetConfig transferIntent hpassed hparsed hbuilt
  exact ⟨instructions, built, hparsed, hbuilt, h.2⟩

end TradingGuardrails
