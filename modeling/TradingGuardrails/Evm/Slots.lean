import Mathlib.Data.List.Induction
import TradingGuardrails.Evm.Trace

/-!
Which storage slots the configured tokens explain. A slot is a hash, so two of them are
kept apart by what is assumed of the hash: that it separates the few messages that are
hashed for a configuration, and that none of their hashes is itself a configured slot.
-/
namespace TradingGuardrails

open Text

namespace Evm

theorem hexNumber_append {cs : List Char} {c : Char} {n d : Nat} (hcs : hexNumber cs = some n)
    (hc : hexDigitValue c = some d) : hexNumber (cs ++ [c]) = some (n * 16 + d) := by
  rw [hexNumber] at hcs
  rw [hexNumber, List.foldlM_append, hcs]
  simp [hc]

theorem hexNumber_hexWord (width n : Nat) :
    hexNumber (hexWord width n) = some (n % 16 ^ width) := by
  have hdigit : ∀ d < 16, hexDigitValue (Nat.digitChar d) = some d := by decide
  induction width generalizing n with
  | zero => rw [Nat.pow_zero, Nat.mod_one]; rfl
  | succ width ih =>
      rw [hexWord, hexNumber_append (ih (n / 16)) (hdigit (n % 16) (Nat.mod_lt n (by omega))),
        Nat.pow_succ, Nat.mul_comm, Nat.mul_comm (16 ^ width), Nat.mod_mul]
      exact congrArg some (by omega)

theorem hexWord_hex (width n : Nat) : ∀ c ∈ hexWord width n, hexDigitLower c = true := by
  have hdigit : ∀ d < 16, hexDigitLower (Nat.digitChar d) = true := by decide
  induction width generalizing n with
  | zero => intro c hc; cases hc
  | succ width ih =>
      intro c hc
      rcases List.mem_append.mp hc with hc | hc
      · exact ih (n / 16) c hc
      · rw [List.mem_singleton.mp hc]
        exact hdigit _ (Nat.mod_lt n (by omega))

theorem length_hexWord (width n : Nat) : (hexWord width n).length = width := by
  induction width generalizing n with
  | zero => rfl
  | succ width ih => rw [hexWord, List.length_append, ih, List.length_singleton]

theorem hexDigitLower_digit {c : Char} (h : hexDigitLower c = true) :
    ∃ d < 16, hexDigitValue c = some d ∧ c = Nat.digitChar d := by
  have small : ∀ n < 128, hexDigitLower (Char.ofNat n) = true → ∃ d < 16,
      hexDigitValue (Char.ofNat n) = some d ∧ Char.ofNat n = Nat.digitChar d := by
    decide +kernel
  have hof : Char.ofNat c.toNat = c := Char.ofNat_toNat c
  have hsmall := small c.toNat (hexDigitLower_ascii h).1
  rw [hof] at hsmall
  exact hsmall h

theorem hexNumber_total {cs : List Char} (h : ∀ c ∈ cs, hexDigitLower c = true) :
    ∃ n < 16 ^ cs.length, hexNumber cs = some n := by
  induction cs using List.reverseRecOn with
  | nil => exact ⟨0, by simp, rfl⟩
  | append_singleton cs c ih =>
      obtain ⟨n, hlt, hn⟩ := ih fun d hd => h d (List.mem_append_left _ hd)
      obtain ⟨d, hd, hdigit, -⟩ := hexDigitLower_digit (h c (by simp))
      refine ⟨n * 16 + d, ?_, hexNumber_append hn hdigit⟩
      rw [List.length_append, List.length_singleton, Nat.pow_succ]
      omega

/-- Texts of as many digits in lower case write the same number only if they are the same. -/
theorem hexNumber_inj {cs ds : List Char} (hlength : cs.length = ds.length)
    (hcs : ∀ c ∈ cs, hexDigitLower c = true) (hds : ∀ d ∈ ds, hexDigitLower d = true)
    (h : hexNumber cs = hexNumber ds) : cs = ds := by
  induction cs using List.reverseRecOn generalizing ds with
  | nil => exact (List.length_eq_zero_iff.mp hlength.symm).symm
  | append_singleton cs c ih =>
      cases ds using List.reverseRecOn with
      | nil => simp at hlength
      | append_singleton ds d =>
          have hcs' : ∀ c ∈ cs, hexDigitLower c = true :=
            fun c hc => hcs c (List.mem_append_left _ hc)
          have hds' : ∀ d ∈ ds, hexDigitLower d = true :=
            fun d hd => hds d (List.mem_append_left _ hd)
          obtain ⟨m, -, hm⟩ := hexNumber_total hcs'
          obtain ⟨n, -, hn⟩ := hexNumber_total hds'
          obtain ⟨i, hi, hci, hchar⟩ := hexDigitLower_digit (hcs c (by simp))
          obtain ⟨j, hj, hdj, hchar'⟩ := hexDigitLower_digit (hds d (by simp))
          rw [hexNumber_append hm hci, hexNumber_append hn hdj] at h
          have heq := Option.some.inj h
          have hlast : i = j := by omega
          have hinit : m = n := by omega
          have hfront : cs = ds := ih (by simpa using hlength) hcs' hds' (by rw [hm, hn, hinit])
          rw [hfront, hchar, hchar', hlast]

theorem Address.text_inj {a b : Address} (h : a.text = b.text) : a = b := by
  have hdigits : a.digits = b.digits := by
    have hspelled := a.spelled
    rw [h, b.spelled] at hspelled
    exact (List.cons.inj (List.cons.inj hspelled).2).2.symm
  cases a
  cases b
  cases h
  cases hdigits
  rfl

theorem Address.hex_digits (a : Address) : ∀ c ∈ a.digits, hexDigitLower c = true :=
  List.all_eq_true.mp a.hex

theorem Address.value_spec (a : Address) :
    hexNumber a.digits = some a.value ∧ a.value < 2 ^ 160 := by
  obtain ⟨n, hlt, hn⟩ := hexNumber_total a.hex_digits
  have hvalue : a.value = n := by rw [Address.value, hn]; rfl
  rw [a.length] at hlt
  have hpow : (16 : Nat) ^ 40 = 2 ^ 160 := by decide
  rw [hvalue, ← hpow]
  exact ⟨hn, hlt⟩

theorem Address.value_inj {a b : Address} (h : a.value = b.value) : a = b := by
  have hdigits : a.digits = b.digits :=
    hexNumber_inj (a.length.trans b.length.symm) a.hex_digits b.hex_digits
      (by rw [a.value_spec.1, b.value_spec.1, h])
  apply Address.text_inj
  apply String.toList_injective
  rw [a.spelled, b.spelled, hdigits]

/-- An address and a slot index can be read back from the message that is hashed. -/
theorem message_inj {a b : Address} {m n : Nat} (hm : m < 2 ^ 256) (hn : n < 2 ^ 256)
    (h : message a m = message b n) : a = b ∧ m = n := by
  have hpad : (2 : Nat) ^ 160 ≤ 2 ^ 256 := Nat.pow_le_pow_right (by decide) (by decide)
  have ha := a.value_spec.2
  have hb := b.value_spec.2
  have hkey := congrArg (BitVec.extractLsb' 256 256) h
  have hslot := congrArg (BitVec.extractLsb' 0 256) h
  rw [message, message, BitVec.extractLsb'_append_eq_left, BitVec.extractLsb'_append_eq_left]
    at hkey
  rw [message, message, BitVec.extractLsb'_append_eq_right, BitVec.extractLsb'_append_eq_right]
    at hslot
  have hkey' := congrArg BitVec.toNat hkey
  have hslot' := congrArg BitVec.toNat hslot
  rw [BitVec.toNat_ofNat, BitVec.toNat_ofNat, Nat.mod_eq_of_lt (by omega),
    Nat.mod_eq_of_lt (by omega)] at hkey'
  rw [BitVec.toNat_ofNat, BitVec.toNat_ofNat, Nat.mod_eq_of_lt hm, Nat.mod_eq_of_lt hn] at hslot'
  exact ⟨Address.value_inj hkey', hslot'⟩

variable (keccak256 : BitVec 512 → BitVec 256)

def SlotOf (slot : Option Quantity) (n : Nat) : Prop :=
  ∃ value, given slot = some value ∧ parseQuantity value = some n

inductive Hashed (tokens : List EvmErc20TokenConfig) (observed : List Address) :
    BitVec 512 → Prop
  | balance {token : EvmErc20TokenConfig} {account : Address} {n : Nat} :
      token ∈ tokens → account ∈ observed → SlotOf token.balanceSlot n →
      Hashed tokens observed (message account n)
  | owner {token : EvmErc20TokenConfig} {owner : Address} {n : Nat} :
      token ∈ tokens → owner ∈ observed → SlotOf token.allowanceSlot n →
      Hashed tokens observed (message owner n)
  | spender {token : EvmErc20TokenConfig} {owner spender : Address} {n : Nat} :
      token ∈ tokens → owner ∈ observed → spender ∈ observed → SlotOf token.allowanceSlot n →
      Hashed tokens observed (message spender (keccak256 (message owner n)).toNat)

/-- The hash separates the messages of the configuration, and none of their hashes is a
configured slot index. -/
structure Separating (tokens : List EvmErc20TokenConfig) (observed : List Address) : Prop where
  injective : ∀ m, Hashed keccak256 tokens observed m → ∀ m', Hashed keccak256 tokens observed m' →
    keccak256 m = keccak256 m' → m = m'
  apart : ∀ m, Hashed keccak256 tokens observed m → ∀ token ∈ tokens, ∀ n,
    SlotOf token.balanceSlot n ∨ SlotOf token.allowanceSlot n ∨ SlotOf token.totalSupplySlot n →
      (keccak256 m).toNat ≠ n

variable {keccak256}

theorem uint256_spec {i : Int} {n : Nat} (h : uint256 i = some n) : n < 2 ^ 256 := by
  unfold uint256 at h
  split_ifs at h
  cases h
  omega

theorem parseQuantity_lt {value : Quantity} {n : Nat} (h : parseQuantity value = some n) :
    n < 2 ^ 256 := by
  unfold parseQuantity at h
  split at h
  · exact uint256_spec h
  · split_ifs at h
    exact uint256_spec h
  · split_ifs at h
    obtain ⟨i, -, hi⟩ := Option.bind_eq_some_iff.mp h
    exact uint256_spec hi
  · cases h

theorem codeUnits_hexText {ds : List Char} (h : ∀ c ∈ ds, hexDigitLower c = true) :
    codeUnits (String.ofList ('0' :: 'x' :: ds)) = codeUnits "0x" ++ ds.map Char.toNat := by
  have hascii : ∀ c ∈ '0' :: 'x' :: ds, c.toNat < 128 := by
    intro c hc
    rcases List.mem_cons.mp hc with rfl | hc
    · decide
    · rcases List.mem_cons.mp hc with rfl | hc
      · decide
      · exact (hexDigitLower_ascii (h c hc)).1
  have hlead : codeUnits "0x" = [48, 120] := by decide
  rw [codeUnits_eq, String.toList_ofList, flatMap_charUnits_ascii hascii, hlead]
  rfl

theorem hexNumber_hash (b : BitVec 256) : hexNumber (hexWord 64 b.toNat) = some b.toNat := by
  have hpow : (16 : Nat) ^ 64 = 2 ^ 256 := by decide
  rw [hexNumber_hexWord, hpow, Nat.mod_eq_of_lt b.isLt]

/-- `BigInt` of a slot is the hash. -/
theorem bigInt_mappingSlot (key : Address) (slot : Nat) :
    Units.bigInt (codeUnits (mappingSlot keccak256 key slot)) =
      some ((keccak256 (message key slot)).toNat : Int) := by
  have hhex := hexWord_hex 64 (keccak256 (message key slot)).toNat
  rw [mappingSlot, codeUnits_hexText hhex]
  apply Units.bigInt_hex
  rw [← hexNumber_eq, hexNumber_hash]
  · intro hnil
    have hlength := length_hexWord 64 (keccak256 (message key slot)).toNat
    rw [hnil] at hlength
    cases hlength
  · exact fun c hc => (hexDigitLower_ascii (hhex c hc)).1

theorem mappingSlot_inj {key key' : Address} {slot slot' : Nat}
    (h : mappingSlot keccak256 key slot = mappingSlot keccak256 key' slot') :
    keccak256 (message key slot) = keccak256 (message key' slot') := by
  have hunits := congrArg (fun s => Units.bigInt (codeUnits s)) h
  simp only [bigInt_mappingSlot] at hunits
  exact BitVec.eq_of_toNat_eq (Int.ofNat.inj (Option.some.inj hunits))

theorem allowanceSlot_eq (owner spender : Address) (slot : Nat) :
    erc20AllowanceSlot keccak256 owner spender slot =
      mappingSlot keccak256 spender (keccak256 (message owner slot)).toNat := by
  rw [erc20AllowanceSlot, bigInt_mappingSlot]
  rfl

theorem lookup_setAll_cases {slots es : Slots} {x : String} {c : ClassifiedSlot}
    (h : (setAll slots es).lookup x = some c) : (x, c) ∈ es ∨ slots.lookup x = some c := by
  induction es generalizing slots with
  | nil => exact .inr h
  | cons e es ih =>
      rcases ih h with hmem | hput
      · exact .inl (List.mem_cons_of_mem _ hmem)
      · by_cases hx : x = e.1
        · subst hx
          rw [Json.lookup_putMember_self] at hput
          cases hput
          exact .inl List.mem_cons_self
        · rw [Json.lookup_putMember_of_ne _ _ hx] at hput
          exact .inr hput

/-- A slot that is set in one way only, or not set and known before, is known as that. -/
theorem lookup_setAll_of_all {slots es : Slots} {x : String} {c : ClassifiedSlot}
    (hall : ∀ c', (x, c') ∈ es → c' = c) (h : (x, c) ∈ es ∨ slots.lookup x = some c) :
    (setAll slots es).lookup x = some c := by
  induction es generalizing slots with
  | nil => exact h.resolve_left List.not_mem_nil
  | cons e es ih =>
      apply ih fun c' hc' => hall c' (List.mem_cons_of_mem _ hc')
      by_cases hx : x = e.1
      · subst hx
        have he : e.2 = c := hall e.2 List.mem_cons_self
        rw [Json.lookup_putMember_self, he]
        exact .inr rfl
      · rw [Json.lookup_putMember_of_ne _ _ hx]
        refine h.imp_left fun hmem => ?_
        rcases List.mem_cons.mp hmem with heq | htail
        · exact absurd (congrArg Prod.fst heq) hx
        · exact htail

variable (keccak256) in
def Explained (observed : List Address) (token : EvmErc20TokenConfig) (x : String) :
    ClassifiedSlot → Prop
  | .balance asset account => asset = token.asset ∧ account ∈ observed ∧
      ∃ n, SlotOf token.balanceSlot n ∧ x = erc20BalanceSlot keccak256 account n
  | .allowance => ∃ owner ∈ observed, ∃ spender ∈ observed, ∃ n,
      SlotOf token.allowanceSlot n ∧ x = erc20AllowanceSlot keccak256 owner spender n
  | .supply => ∃ n, SlotOf token.totalSupplySlot n ∧ normalizeSlot (toHexQuantity n) = some x

variable (keccak256) in
structure TokenSlots (observed : List Address) (token : EvmErc20TokenConfig) (slots : Slots) :
    Prop where
  explained : ∀ x c, slots.lookup x = some c → Explained keccak256 observed token x c
  found : ∀ account ∈ observed, ∀ n, SlotOf token.balanceSlot n →
    slots.lookup (erc20BalanceSlot keccak256 account n) = some (.balance token.asset account)
  configured : ∃ n, SlotOf token.balanceSlot n

theorem SlotOf.unique {slot : Option Quantity} {m n : Nat} (hm : SlotOf slot m)
    (hn : SlotOf slot n) : m = n := by
  obtain ⟨v, hv, hm⟩ := hm
  obtain ⟨w, hw, hn⟩ := hn
  rw [hv] at hw
  cases hw
  rw [hm] at hn
  exact Option.some.inj hn

theorem SlotOf.lt {slot : Option Quantity} {n : Nat} (h : SlotOf slot n) : n < 2 ^ 256 := by
  obtain ⟨value, -, hn⟩ := h
  exact parseQuantity_lt hn

variable {tokens : List EvmErc20TokenConfig} {observed : List Address}
  {token : EvmErc20TokenConfig}

/-- Two accounts have different balance slots. -/
theorem balanceSlot_inj (hhash : Separating keccak256 tokens observed) (htoken : token ∈ tokens)
    {account account' : Address} (ha : account ∈ observed) (ha' : account' ∈ observed) {n : Nat}
    (hn : SlotOf token.balanceSlot n)
    (h : erc20BalanceSlot keccak256 account n = erc20BalanceSlot keccak256 account' n) :
    account = account' := by
  have hmessage := hhash.injective _ (.balance htoken ha hn) _ (.balance htoken ha' hn)
    (mappingSlot_inj h)
  exact (message_inj hn.lt hn.lt hmessage).1

/-- The balance slot of an account is no allowance slot: the slot index of the balances
would be a hash. -/
theorem balanceSlot_ne_allowanceSlot (hhash : Separating keccak256 tokens observed)
    (htoken : token ∈ tokens) {account owner spender : Address} (ha : account ∈ observed)
    (ho : owner ∈ observed) (hs : spender ∈ observed) {m n : Nat}
    (hm : SlotOf token.balanceSlot m) (hn : SlotOf token.allowanceSlot n) :
    erc20BalanceSlot keccak256 account m ≠ erc20AllowanceSlot keccak256 owner spender n := by
  intro h
  rw [allowanceSlot_eq] at h
  have hmessage := hhash.injective _ (.balance htoken ha hm) _ (.spender htoken ho hs hn)
    (mappingSlot_inj h)
  have hslot := (message_inj hm.lt (keccak256 (message owner n)).isLt hmessage).2
  exact hhash.apart _ (.owner htoken ho hn) token htoken m (.inl hm) hslot.symm

theorem parseSlotIndex_ok {value : Quantity} {n : Nat} (h : parseSlotIndex value = .ok n) :
    parseQuantity value = some n := by
  unfold parseSlotIndex at h
  split at h
  · cases h
  · cases h
    assumption

theorem setAllowances_cases {slots slots' : Slots}
    (h : setAllowances keccak256 observed token slots = .ok slots') :
    slots' = slots ∨ ∃ n, SlotOf token.allowanceSlot n ∧
      slots' = setAll slots (allowanceSlots keccak256 observed n) := by
  unfold setAllowances at h
  split at h
  · cases h
    exact .inl rfl
  · rename_i value hgiven
    obtain ⟨n, hn, h⟩ := bind_eq_ok.mp h
    cases h
    exact .inr ⟨n, ⟨value, hgiven, parseSlotIndex_ok hn⟩, rfl⟩

theorem setSupply_cases {slots slots' : Slots} (h : setSupply token slots = .ok slots') :
    slots' = slots ∨ ∃ n x, SlotOf token.totalSupplySlot n ∧
      normalizeSlot (toHexQuantity n) = some x ∧ slots.lookup x = none ∧
      slots' = Json.putMember slots x .supply := by
  unfold setSupply at h
  split at h
  · cases h
    exact .inl rfl
  · rename_i value hgiven
    obtain ⟨n, hn, h⟩ := bind_eq_ok.mp h
    split at h
    · cases h
    · rename_i x hx
      split at h
      · cases h
      · rename_i hfree
        cases h
        exact .inr ⟨n, x, ⟨value, hgiven, parseSlotIndex_ok hn⟩, hx,
          Option.not_isSome_iff_eq_none.mp hfree, rfl⟩

theorem mem_balanceSlots {x : String} {c : ClassifiedSlot} {asset : String} {n : Nat}
    (h : (x, c) ∈ balanceSlots keccak256 observed asset n) :
    ∃ account ∈ observed, x = erc20BalanceSlot keccak256 account n ∧
      c = .balance asset account := by
  obtain ⟨account, ha, heq⟩ := List.mem_map.mp h
  obtain ⟨hx, hc⟩ := Prod.mk.inj heq
  exact ⟨account, ha, hx.symm, hc.symm⟩

theorem mem_allowanceSlots {x : String} {c : ClassifiedSlot} {n : Nat}
    (h : (x, c) ∈ allowanceSlots keccak256 observed n) :
    ∃ owner ∈ observed, ∃ spender ∈ observed,
      x = erc20AllowanceSlot keccak256 owner spender n ∧ c = .allowance := by
  obtain ⟨owner, ho, hmem⟩ := List.mem_flatMap.mp h
  obtain ⟨spender, hs, heq⟩ := List.mem_map.mp hmem
  obtain ⟨hx, hc⟩ := Prod.mk.inj heq
  exact ⟨owner, ho, spender, hs, hx.symm, hc.symm⟩

theorem tokenSlots_balances (hhash : Separating keccak256 tokens observed)
    (htoken : token ∈ tokens) {n : Nat} (hn : SlotOf token.balanceSlot n) :
    TokenSlots keccak256 observed token
      (setAll [] (balanceSlots keccak256 observed token.asset n)) where
  explained := by
    intro x c h
    rcases lookup_setAll_cases h with hmem | hnil
    · obtain ⟨account, ha, rfl, rfl⟩ := mem_balanceSlots hmem
      exact ⟨rfl, ha, n, hn, rfl⟩
    · cases hnil
  found := by
    intro account ha m hm
    cases hn.unique hm
    apply lookup_setAll_of_all
    · intro c hmem
      obtain ⟨account', ha', hslot, rfl⟩ := mem_balanceSlots hmem
      rw [balanceSlot_inj hhash htoken ha ha' hn hslot]
    · exact .inl (List.mem_map_of_mem ha)
  configured := ⟨n, hn⟩

theorem tokenSlots_allowances (hhash : Separating keccak256 tokens observed)
    (htoken : token ∈ tokens) {slots slots' : Slots}
    (hslots : TokenSlots keccak256 observed token slots)
    (h : setAllowances keccak256 observed token slots = .ok slots') :
    TokenSlots keccak256 observed token slots' := by
  rcases setAllowances_cases h with rfl | ⟨n, hn, rfl⟩
  · exact hslots
  · refine ⟨fun x c hx => ?_, fun account ha m hm => ?_, hslots.configured⟩
    · rcases lookup_setAll_cases hx with hmem | hold
      · obtain ⟨owner, ho, spender, hs, rfl, rfl⟩ := mem_allowanceSlots hmem
        exact ⟨owner, ho, spender, hs, n, hn, rfl⟩
      · exact hslots.explained x c hold
    · apply lookup_setAll_of_all
      · intro c hmem
        obtain ⟨owner, ho, spender, hs, hslot, -⟩ := mem_allowanceSlots hmem
        exact absurd hslot (balanceSlot_ne_allowanceSlot hhash htoken ha ho hs hm hn)
      · exact .inr (hslots.found account ha m hm)

theorem tokenSlots_supply {slots slots' : Slots}
    (hslots : TokenSlots keccak256 observed token slots)
    (h : setSupply token slots = .ok slots') : TokenSlots keccak256 observed token slots' := by
  rcases setSupply_cases h with rfl | ⟨n, supplySlot, hn, hslot, hfree, rfl⟩
  · exact hslots
  · refine ⟨fun x c hx => ?_, fun account ha m hm => ?_, hslots.configured⟩
    · by_cases heq : x = supplySlot
      · subst heq
        rw [Json.lookup_putMember_self] at hx
        cases hx
        exact ⟨n, hn, hslot⟩
      · rw [Json.lookup_putMember_of_ne _ _ heq] at hx
        exact hslots.explained x c hx
    · have hfound := hslots.found account ha m hm
      have hne : erc20BalanceSlot keccak256 account m ≠ supplySlot := by
        intro heq
        rw [heq, hfree] at hfound
        cases hfound
      rw [Json.lookup_putMember_of_ne _ _ hne, hfound]

variable {toLowerCase : String → String}

theorem indexToken_cases {known known' : SlotIndex}
    (h : indexToken keccak256 toLowerCase observed known token = .ok known') :
    ∃ (t : Address) (n : Nat) (allowed slots : Slots),
      normalizeAddress token.address = some t ∧ known.index.lookup t.text = none ∧
      token.asset ≠ "" ∧ toLowerCase token.asset ∉ known.assets ∧ SlotOf token.balanceSlot n ∧
      setAllowances keccak256 observed token
        (setAll [] (balanceSlots keccak256 observed token.asset n)) = .ok allowed ∧
      setSupply token allowed = .ok slots ∧
      known' = ⟨Json.putMember known.index t.text slots,
        known.assets ++ [toLowerCase token.asset]⟩ := by
  unfold indexToken at h
  split at h
  · cases h
  · rename_i t ht
    split at h
    · cases h
    · rename_i hfresh
      simp only [Bool.or_eq_true, not_or, Option.not_isSome_iff_eq_none] at hfresh
      obtain ⟨⟨hnone, hnamed⟩, hasset⟩ := hfresh
      split at h
      · cases h
      · rename_i value hgiven
        obtain ⟨n, hn, h⟩ := bind_eq_ok.mp h
        obtain ⟨allowed, hallowed, h⟩ := bind_eq_ok.mp h
        obtain ⟨slots, hslots, h⟩ := bind_eq_ok.mp h
        rw [hnone] at hallowed
        cases h
        exact ⟨t, n, allowed, slots, ht, hnone, by simpa using hnamed, by simpa using hasset,
          ⟨value, hgiven, parseSlotIndex_ok hn⟩, hallowed, hslots, rfl⟩

variable (keccak256 toLowerCase) in
structure Indexed (observed : List Address) (read : List EvmErc20TokenConfig)
    (known : SlotIndex) : Prop where
  owned : ∀ (t : Address) (slots : Slots), known.index.lookup t.text = some slots →
    ∃ token ∈ read, normalizeAddress token.address = some t ∧
      TokenSlots keccak256 observed token slots
  indexed : ∀ token ∈ read, ∃ (t : Address) (slots : Slots),
    normalizeAddress token.address = some t ∧ known.index.lookup t.text = some slots ∧
      TokenSlots keccak256 observed token slots
  native : toLowerCase nativeAsset ∈ known.assets
  assets : ∀ token ∈ read, toLowerCase token.asset ∈ known.assets
  named : ∀ token ∈ read, token.asset ≠ "" ∧ toLowerCase token.asset ≠ toLowerCase nativeAsset
  unique : ∀ token ∈ read, ∀ token' ∈ read,
    toLowerCase token.asset = toLowerCase token'.asset → token = token'

theorem Indexed.step (hhash : Separating keccak256 tokens observed) (htoken : token ∈ tokens)
    {read : List EvmErc20TokenConfig} {known known' : SlotIndex}
    (hknown : Indexed keccak256 toLowerCase observed read known)
    (h : indexToken keccak256 toLowerCase observed known token = .ok known') :
    Indexed keccak256 toLowerCase observed (read ++ [token]) known' := by
  obtain ⟨t, n, allowed, slots, ht, hnone, hnamed, hasset, hn, hallowed, hsupply, rfl⟩ :=
    indexToken_cases h
  have hslots : TokenSlots keccak256 observed token slots :=
    tokenSlots_supply
      (tokenSlots_allowances hhash htoken (tokenSlots_balances hhash htoken hn) hallowed) hsupply
  have hmem : ∀ {x}, x ∈ read ++ [token] → x ∈ read ∨ x = token := by
    intro x hx
    rwa [List.mem_append, List.mem_singleton] at hx
  constructor
  case owned =>
    intro t' slots' hlookup
    by_cases heq : t'.text = t.text
    · rw [heq, Json.lookup_putMember_self] at hlookup
      cases hlookup
      cases Address.text_inj heq
      exact ⟨token, by simp, ht, hslots⟩
    · rw [Json.lookup_putMember_of_ne _ _ heq] at hlookup
      obtain ⟨other, hother, hrest⟩ := hknown.owned t' slots' hlookup
      exact ⟨other, List.mem_append_left _ hother, hrest⟩
  case indexed =>
    intro other hother
    rcases hmem hother with hread | rfl
    · obtain ⟨t', slots', ht', hlookup, hrest⟩ := hknown.indexed other hread
      have hne : t'.text ≠ t.text := by
        intro heq
        rw [heq, hnone] at hlookup
        cases hlookup
      exact ⟨t', slots', ht', by rw [Json.lookup_putMember_of_ne _ _ hne, hlookup], hrest⟩
    · exact ⟨t, slots, ht, Json.lookup_putMember_self _ _ _, hslots⟩
  case native => exact List.mem_append_left _ hknown.native
  case assets =>
    intro other hother
    rcases hmem hother with hread | rfl
    · exact List.mem_append_left _ (hknown.assets other hread)
    · simp
  case named =>
    intro other hother
    rcases hmem hother with hread | rfl
    · exact hknown.named other hread
    · exact ⟨hnamed, fun heq => hasset (heq ▸ hknown.native)⟩
  case unique =>
    intro one hone two htwo heq
    rcases hmem hone with hread | rfl
    · rcases hmem htwo with hread' | rfl
      · exact hknown.unique one hread two hread' heq
      · exact absurd (heq ▸ hknown.assets one hread) hasset
    · rcases hmem htwo with hread' | rfl
      · exact absurd (heq ▸ hknown.assets two hread') hasset
      · rfl

theorem Indexed.run (hhash : Separating keccak256 tokens observed)
    {rest read : List EvmErc20TokenConfig} (hrest : ∀ token ∈ rest, token ∈ tokens)
    {known known' : SlotIndex} (hknown : Indexed keccak256 toLowerCase observed read known)
    (h : rest.foldlM (indexToken keccak256 toLowerCase observed) known = .ok known') :
    Indexed keccak256 toLowerCase observed (read ++ rest) known' := by
  induction rest generalizing read known with
  | nil =>
      cases h
      rwa [List.append_nil]
  | cons token rest ih =>
      rw [List.foldlM_cons] at h
      obtain ⟨next, hstep, hrun⟩ := bind_eq_ok.mp h
      have hnext := hknown.step hhash (hrest token List.mem_cons_self) hstep
      rw [List.append_cons]
      exact ih (fun t ht => hrest t (List.mem_cons_of_mem _ ht)) hnext hrun

/-- An index that is built explains its slots by the configured tokens. -/
theorem indexed_of_build (hhash : Separating keccak256 tokens observed)
    {index : List (String × Slots)}
    (h : buildSlotIndex keccak256 toLowerCase tokens observed = .ok index) :
    ∃ known : SlotIndex, known.index = index ∧
      Indexed keccak256 toLowerCase observed tokens known := by
  obtain ⟨known, hrun, h⟩ := bind_eq_ok.mp h
  cases h
  have hstart : Indexed keccak256 toLowerCase observed []
      { assets := [toLowerCase nativeAsset] } := by
    constructor
    case owned => intro t slots hlookup; cases hlookup
    case native => exact List.mem_cons_self
    all_goals intro token htoken; cases htoken
  exact ⟨known, rfl, hstart.run hhash (fun _ ht => ht) hrun⟩

end Evm
end TradingGuardrails
