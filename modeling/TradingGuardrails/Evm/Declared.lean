import TradingGuardrails.Evm.Effects

/-!
The rows of an extraction add up to the changes of the trace, account by account and asset by
asset; so a comparison that passes bounds every one of these changes.
-/
namespace TradingGuardrails

open Text

namespace Evm

variable {keccak256 : BitVec 512 → BitVec 256} {toLowerCase : String → String}
  {pre post : Json} {tokens : List EvmErc20TokenConfig} {observed : List Address}
  {known : SlotIndex} {visits : List Visit} {token : EvmErc20TokenConfig}

theorem total_flatMap_posting (p : String → Prop) [DecidablePred p] (classified : Option Slots)
    (changes : List SlotChange) (slot : String)
    (h : ∀ change ∈ changes, Ledger.total p (posting classified change) =
      if change.slot = slot then change.delta else 0) :
    Ledger.total p (changes.flatMap (posting classified)) =
      Ledger.total (· = slot) (slotEntries changes) := by
  rw [Ledger.total_flatMap, List.map_congr_left h, slotEntries, Ledger.total, List.map_map]
  rfl

/-- What is posted for a change of a configured token: its amount, if the slot is the balance
slot of the account. -/
theorem total_posting {slots : Slots} (hslots : TokenSlots keccak256 observed token slots)
    {n : Nat} (hn : SlotOf token.balanceSlot n) {account : Address} (ha : account ∈ observed)
    {classified : Option Slots} (hindex : ∀ found, classified = some found → found = slots)
    {change : SlotChange} (hchange : Classified classified change) :
    Ledger.total (· = mapKey account token.asset) (posting classified change) =
      if change.slot = erc20BalanceSlot keccak256 account n then change.delta else 0 := by
  unfold posting
  by_cases hzero : change.delta = 0
  · rw [if_pos hzero, hzero, ite_self]
    rfl
  · obtain ⟨found, c, hfound, hlookup⟩ := hchange hzero
    cases hindex found hfound
    rw [if_neg hzero, hfound, Option.bind_some, hlookup]
    by_cases hslot : change.slot = erc20BalanceSlot keccak256 account n
    · have hc := hslots.found account ha n hn
      rw [← hslot, hlookup] at hc
      cases hc
      simp [hslot]
    · rw [if_neg hslot]
      have hexplained := hslots.explained _ _ hlookup
      cases c with
      | allowance | supply => rfl
      | balance asset account' =>
          obtain ⟨-, -, m, hm, hslot'⟩ := hexplained
          apply Ledger.total_eq_zero
          intro e he heq
          rw [List.mem_singleton.mp he] at heq
          have haccount := (mapKey_inj heq).1
          rw [haccount, hm.unique hn] at hslot'
          exact absurd hslot' hslot

/-- Every posting is for an account and a configured token, which is the one at the account
that was visited. -/
theorem posting_owned (hknown : Indexed keccak256 toLowerCase observed tokens known)
    {v : Visit} {classified : Option Slots}
    (hindex : ∀ slots, classified = some slots → known.index.lookup v.address.text = some slots)
    {change : SlotChange} {e : String × Int} (he : e ∈ posting classified change) :
    ∃ token ∈ tokens, normalizeAddress token.address = some v.address ∧
      ∃ account, e.1 = mapKey account token.asset := by
  unfold posting at he
  split at he
  · cases he
  · split at he
    · rename_i asset account hc
      obtain ⟨slots, hslots, hlookup⟩ := Option.bind_eq_some_iff.mp hc
      obtain ⟨token, htoken, ht, hspec⟩ := hknown.owned _ _ (hindex slots hslots)
      obtain ⟨hasset, -⟩ := hspec.explained _ _ hlookup
      rw [List.mem_singleton.mp he]
      exact ⟨token, htoken, ht, account, by rw [hasset]⟩
    · cases he

/-- What is posted for an account and a token adds up to the change of its balance slot. -/
theorem Tour.token_total (tour : Tour pre post known.index visits) (alike : SpelledAlike pre post)
    (hknown : Indexed keccak256 toLowerCase observed tokens known) (htoken : token ∈ tokens)
    {t : Address} (ht : normalizeAddress token.address = some t) {slots : Slots}
    (hlookup : known.index.lookup t.text = some slots)
    (hslots : TokenSlots keccak256 observed token slots) {n : Nat}
    (hn : SlotOf token.balanceSlot n) {account : Address} (ha : account ∈ observed) :
    ∃ before after : Nat,
      storageAt pre t (erc20BalanceSlot keccak256 account n) = some before ∧
      storageAt post t (erc20BalanceSlot keccak256 account n) = some after ∧
      Ledger.total (· = mapKey account token.asset) (visits.flatMap fun v => v.posts) =
        (after : Int) - before := by
  have hother : ∀ v ∈ visits, v.address ≠ t →
      Ledger.total (· = mapKey account token.asset) v.posts = 0 := by
    intro v hv hne
    obtain ⟨changes, classified, hindex, hposts, -⟩ := tour.storage_total alike hv
    apply Ledger.total_eq_zero
    intro e he heq
    rw [hposts] at he
    obtain ⟨change, -, he⟩ := List.mem_flatMap.mp he
    obtain ⟨other, hotherMem, hspelled, account', hkey⟩ := posting_owned hknown hindex he
    have hasset := (mapKey_inj (hkey.symm.trans heq)).2
    have hsame := hknown.unique other hotherMem token htoken (by rw [hasset])
    rw [hsame, ht] at hspelled
    exact absurd (Option.some.inj hspelled).symm hne
  rw [Ledger.total_flatMap]
  by_cases hvisited : ∃ v ∈ visits, v.address = t
  · obtain ⟨v, hv, rfl⟩ := hvisited
    obtain ⟨changes, classified, hindex, hposts, hclassified, htotal⟩ :=
      tour.storage_total alike hv
    obtain ⟨before, after, hbefore, hafter, hsum⟩ :=
      htotal (erc20BalanceSlot keccak256 account n)
    refine ⟨before, after, hbefore, hafter, ?_⟩
    rw [Ledger.sum_single tour.nodup hv fun w hw hne => hother w hw fun heq =>
      hne (tour.visit_unique alike hw hv heq), hposts, ← hsum]
    apply total_flatMap_posting
    intro change hchange
    refine total_posting hslots hn ha (fun found hfound => ?_) (hclassified change hchange)
    have hsame := hindex found hfound
    rw [hlookup] at hsame
    exact (Option.some.inj hsame).symm
  · have hnone : ∀ v ∈ visits, v.address ≠ t := fun v hv heq => hvisited ⟨v, hv, heq⟩
    obtain ⟨hbefore, hafter⟩ := tour.storage_unvisited hnone (erc20BalanceSlot keccak256 account n)
    refine ⟨0, 0, hbefore, hafter, ?_⟩
    rw [List.map_congr_left fun v hv => hother v hv (hnone v hv)]
    simp

/-- A slot that changes has a meaning for a token at its address. -/
theorem Tour.slot_explained (tour : Tour pre post known.index visits)
    (alike : SpelledAlike pre post)
    (hknown : Indexed keccak256 toLowerCase observed tokens known) (address : Address)
    (slot : String) :
    ∃ before after : Nat, storageAt pre address slot = some before ∧
      storageAt post address slot = some after ∧
      (before ≠ after → ∃ token ∈ tokens, normalizeAddress token.address = some address ∧
        ∃ c, Explained keccak256 observed token slot c) := by
  by_cases hvisited : ∃ v ∈ visits, v.address = address
  · obtain ⟨v, hv, rfl⟩ := hvisited
    obtain ⟨changes, classified, hindex, -, hclassified, htotal⟩ := tour.storage_total alike hv
    obtain ⟨before, after, hbefore, hafter, hsum⟩ := htotal slot
    refine ⟨before, after, hbefore, hafter, fun hne => ?_⟩
    obtain ⟨change, hchange, hslot, hdelta⟩ :
        ∃ change ∈ changes, change.slot = slot ∧ change.delta ≠ 0 := by
      by_contra hnone
      have hzero : Ledger.total (· = slot) (slotEntries changes) = 0 := by
        apply Ledger.total_eq_zero
        intro e he heq
        obtain ⟨change, hchange, rfl⟩ := List.mem_map.mp he
        by_contra hdelta
        exact hnone ⟨change, hchange, heq, hdelta⟩
      omega
    obtain ⟨slots, c, hslots, hlookup⟩ := hclassified change hchange hdelta
    obtain ⟨token, htoken, ht, hspec⟩ := hknown.owned _ _ (hindex slots hslots)
    rw [hslot] at hlookup
    exact ⟨token, htoken, ht, c, hspec.explained _ _ hlookup⟩
  · have hnone : ∀ v ∈ visits, v.address ≠ address := fun v hv heq => hvisited ⟨v, hv, heq⟩
    obtain ⟨hbefore, hafter⟩ := tour.storage_unvisited hnone slot
    exact ⟨0, 0, hbefore, hafter, fun hne => absurd rfl hne⟩

theorem total_ethRows (p : String × String → Prop) [DecidablePred p]
    (deltas : List (String × Int)) :
    Ledger.total p (entries (ethRows deltas)) =
      Ledger.total (fun key => p (key, nativeAsset)) deltas := by
  have hentries : entries (ethRows deltas) = deltas.map fun e => ((e.1, nativeAsset), e.2) := by
    rw [entries, ethRows, List.map_map]
    refine List.map_congr_left fun e _ => ?_
    simp only [Function.comp_apply, parseDelta_bigIntText, Option.getD_some]
  rw [hentries, Ledger.total_map p fun key => (key, nativeAsset)]

theorem total_tokenRows (p : String × String → Prop) [DecidablePred p]
    (deltas : List (String × Int)) :
    Ledger.total p (entries (tokenRows deltas)) =
      Ledger.total (fun key => p (splitKey key)) deltas := by
  induction deltas with
  | nil => rfl
  | cons e deltas ih =>
      rw [Ledger.total_cons, ← ih, tokenRows]
      by_cases hzero : e.2 = 0
      · rw [List.filterMap_cons_none (by rw [if_pos hzero]), hzero, ite_self, zero_add]
        rfl
      · rw [List.filterMap_cons_some (by rw [if_neg hzero])]
        rw [entries, List.map_cons, Ledger.total_cons, parseDelta_bigIntText]
        rfl

theorem totalChange_rows (localeCompare : String → String → Bool) (tally : Tally)
    (address asset : String) :
    totalChange toLowerCase (rows localeCompare tally) address asset =
      Ledger.total (fun key => sameEntry toLowerCase key nativeAsset address asset = true)
        tally.ethDeltas +
      Ledger.total (fun key => sameEntry toLowerCase (splitKey key).1 (splitKey key).2
        address asset = true) tally.tokenDeltas := by
  have hperm : (entries (rows localeCompare tally)).Perm
      (entries (ethRows tally.ethDeltas) ++ entries (tokenRows tally.tokenDeltas)) := by
    rw [entries, entries, entries, ← List.map_append]
    exact (List.perm_insertionSort _ _).map _
  rw [totalChange, Ledger.total_perm _ hperm, Ledger.total_append, total_ethRows, total_tokenRows]

structure Keyed (tokens : List EvmErc20TokenConfig) (tally : Tally) : Prop where
  native : ∀ e ∈ tally.ethDeltas, ∃ address : Address, e.1 = address.text
  token : ∀ e ∈ tally.tokenDeltas, ∃ token ∈ tokens, ∃ account : Address,
    e.1 = mapKey account token.asset

theorem Tour.keyed (tour : Tour pre post known.index visits) (alike : SpelledAlike pre post)
    (hknown : Indexed keccak256 toLowerCase observed tokens known) {tally : Tally}
    (heth : tally.ethDeltas = (visits.map fun v => (v.address.text, v.delta)).foldl
      (fun ledger e => Ledger.credit ledger e.1 e.2) [])
    (htoken : tally.tokenDeltas = (visits.flatMap fun v => v.posts).foldl
      (fun ledger e => Ledger.credit ledger e.1 e.2) []) : Keyed tokens tally where
  native := by
    intro e he
    rw [heth] at he
    rcases Ledger.mem_post he with hkey | hnil
    · obtain ⟨f, hf, hkey⟩ := List.mem_map.mp hkey
      obtain ⟨v, -, rfl⟩ := List.mem_map.mp hf
      exact ⟨v.address, hkey.symm⟩
    · cases hnil
  token := by
    intro e he
    rw [htoken] at he
    rcases Ledger.mem_post he with hkey | hnil
    · obtain ⟨f, hf, hkey⟩ := List.mem_map.mp hkey
      obtain ⟨v, hv, hf⟩ := List.mem_flatMap.mp hf
      obtain ⟨changes, classified, hindex, hposts, -⟩ := tour.storage_total alike hv
      rw [hposts] at hf
      obtain ⟨change, -, hf⟩ := List.mem_flatMap.mp hf
      obtain ⟨token, htokenMem, -, account, hfkey⟩ := posting_owned hknown hindex hf
      exact ⟨token, htokenMem, account, hkey.symm.trans hfkey⟩
    · cases hnil

/-- The rows of an account in the native asset are the amounts posted for it. -/
theorem totalChange_native (hlower : LowersAscii toLowerCase)
    (hknown : Indexed keccak256 toLowerCase observed tokens known) {tally : Tally}
    (keyed : Keyed tokens tally) (localeCompare : String → String → Bool) (address : Address) :
    totalChange toLowerCase (rows localeCompare tally) address.text nativeAsset =
      Ledger.total (· = address.text) tally.ethDeltas := by
  have htokens : Ledger.total (fun key => sameEntry toLowerCase (splitKey key).1 (splitKey key).2
      address.text nativeAsset = true) tally.tokenDeltas = 0 := by
    apply Ledger.total_eq_zero
    intro e he hsame
    obtain ⟨token, htoken, account, hkey⟩ := keyed.token e he
    rw [hkey, splitKey_mapKey, sameEntry, Bool.and_eq_true, beq_iff_eq, beq_iff_eq] at hsame
    exact absurd hsame.2 (hknown.named token htoken).2
  rw [totalChange_rows, htokens, add_zero]
  apply Ledger.total_congr
  intro e he
  obtain ⟨account, hkey⟩ := keyed.native e he
  rw [hkey, sameEntry, beq_self_eq_true, Bool.and_true, beq_iff_eq, account.lower_text hlower,
    address.lower_text hlower]

/-- The rows of an account in a configured token are the amounts posted for both. -/
theorem totalChange_token (hlower : LowersAscii toLowerCase)
    (hknown : Indexed keccak256 toLowerCase observed tokens known) {tally : Tally}
    (keyed : Keyed tokens tally) (localeCompare : String → String → Bool)
    (htoken : token ∈ tokens) (account : Address) :
    totalChange toLowerCase (rows localeCompare tally) account.text token.asset =
      Ledger.total (· = mapKey account token.asset) tally.tokenDeltas := by
  have hnative : Ledger.total (fun key => sameEntry toLowerCase key nativeAsset account.text
      token.asset = true) tally.ethDeltas = 0 := by
    apply Ledger.total_eq_zero
    intro e _ hsame
    rw [sameEntry, Bool.and_eq_true, beq_iff_eq, beq_iff_eq] at hsame
    exact absurd hsame.2.symm (hknown.named token htoken).2
  rw [totalChange_rows, hnative, zero_add]
  apply Ledger.total_congr
  intro e he
  obtain ⟨other, hother, account', hkey⟩ := keyed.token e he
  rw [hkey, splitKey_mapKey, sameEntry, Bool.and_eq_true, beq_iff_eq, beq_iff_eq,
    account'.lower_text hlower, account.lower_text hlower]
  constructor
  · intro hsame
    rw [Address.text_inj hsame.1, hknown.unique other hother token htoken hsame.2]
  · intro hsame
    obtain ⟨haccount, hasset⟩ := mapKey_inj hsame
    rw [haccount, hasset]
    exact ⟨rfl, rfl⟩

def observedAccounts (observedAddresses : List String) : List Address :=
  distinct (observedAddresses.filterMap normalizeAddress)

theorem normalizeObserved_run {addresses : List String} {normalized : List Address}
    (h : addresses.mapM normalizeObserved = .ok normalized) :
    normalized = addresses.filterMap normalizeAddress := by
  induction addresses generalizing normalized with
  | nil =>
      cases h
      rfl
  | cons address addresses ih =>
      rw [List.mapM_cons] at h
      obtain ⟨first, hfirst, h⟩ := bind_eq_ok.mp h
      obtain ⟨rest, hrest, h⟩ := bind_eq_ok.mp h
      cases h
      unfold normalizeObserved at hfirst
      split at hfirst
      · cases hfirst
      · rename_i hnormalized
        cases hfirst
        rw [List.filterMap_cons_some hnormalized, ih hrest]

theorem classifyAndExtract_cases {localeCompare : String → String → Bool}
    {observedAddresses : List String} {extraction : Extraction}
    (hhash : Separating keccak256 tokens (observedAccounts observedAddresses))
    (h : classifyAndExtract keccak256 toLowerCase localeCompare pre post tokens
      observedAddresses = .ok extraction) :
    ∃ (known : SlotIndex) (visits : List Visit) (tally : Tally),
      Indexed keccak256 toLowerCase (observedAccounts observedAddresses) tokens known ∧
      Tour pre post known.index visits ∧
      tally.ethDeltas = (visits.map fun v => (v.address.text, v.delta)).foldl
        (fun ledger e => Ledger.credit ledger e.1 e.2) [] ∧
      tally.tokenDeltas = (visits.flatMap fun v => v.posts).foldl
        (fun ledger e => Ledger.credit ledger e.1 e.2) [] ∧
      extraction.changes = rows localeCompare tally := by
  unfold classifyAndExtract at h
  split at h
  · cases h
  · obtain ⟨normalized, hnormalized, h⟩ := bind_eq_ok.mp h
    obtain ⟨slotIndex, hindex, h⟩ := bind_eq_ok.mp h
    obtain ⟨tokenByAddress, -, h⟩ := bind_eq_ok.mp h
    obtain ⟨tally, htally, h⟩ := bind_eq_ok.mp h
    cases h
    rw [normalizeObserved_run hnormalized] at hindex htally
    obtain ⟨known, rfl, hknown⟩ := indexed_of_build hhash hindex
    obtain ⟨visits, hraws, hvisited, heth, htoken⟩ := visit_run htally
    exact ⟨known, visits, tally, hknown, ⟨hraws, hvisited⟩, heth, htoken, rfl⟩

structure EffectsDeclared (keccak256 : BitVec 512 → BitVec 256) (toLowerCase : String → String)
    (pre post : Json) (tokens : List EvmErc20TokenConfig) (observed : List Address)
    (expectedDeltas : List ExpectedEvmBalanceDelta) : Prop where
  native : ∀ address : Address, ∃ before after : Nat,
    balanceBefore pre address = some before ∧ balanceAfter pre post address = some after ∧
    Declared toLowerCase expectedDeltas address.text nativeAsset ((after : Int) - before)
  token : ∀ token ∈ tokens, ∃ t n, normalizeAddress token.address = some t ∧
    SlotOf token.balanceSlot n ∧ ∀ account ∈ observed, ∃ before after : Nat,
      storageAt pre t (erc20BalanceSlot keccak256 account n) = some before ∧
      storageAt post t (erc20BalanceSlot keccak256 account n) = some after ∧
      Declared toLowerCase expectedDeltas account.text token.asset ((after : Int) - before)
  slot : ∀ (address : Address) (slot : String), ∃ before after : Nat,
    storageAt pre address slot = some before ∧ storageAt post address slot = some after ∧
    (before ≠ after → ∃ token ∈ tokens, normalizeAddress token.address = some address ∧
      ∃ c, Explained keccak256 observed token slot c)
  code : ∀ address : Address, ∃ code, codeBefore pre address = some code ∧
    codeAfter pre post address = some code

/-- The changes that an intent declares; nothing when they cannot be read. -/
def declaredDeltas {host : Host} (intent : TradingIntent host) : List ExpectedEvmBalanceDelta :=
  match expectedDeltas intent with
  | .ok deltas => deltas.map ExpectedEvmBalanceDelta.ofJson
  | .error _ => []

/-- An intent whose simulation passes the comparison has only declared effects. -/
theorem effects_declared {host : Host} {intent : TradingIntent host}
    {localeCompare : String → String → Bool} {observedAddresses : List String}
    {extraction : Extraction} (hlower : LowersAscii toLowerCase)
    (hhash : Separating keccak256 tokens (observedAccounts observedAddresses))
    (alike : SpelledAlike pre post)
    (hextract : classifyAndExtract keccak256 toLowerCase localeCompare pre post tokens
      observedAddresses = .ok extraction)
    (hpassed : (compareEvmBalanceDeltas toLowerCase extraction.changes
      (declaredDeltas intent)).passed = true) :
    EffectsDeclared keccak256 toLowerCase pre post tokens (observedAccounts observedAddresses)
      (declaredDeltas intent) := by
  obtain ⟨known, visits, tally, hknown, tour, heth, htoken, hchanges⟩ :=
    classifyAndExtract_cases hhash hextract
  have keyed := tour.keyed alike hknown heth htoken
  have hdeclared := declared_of_passed hpassed
  rw [hchanges] at hdeclared
  constructor
  case native =>
    intro address
    obtain ⟨before, after, hbefore, hafter, htotal⟩ := tour.native_total alike address
    refine ⟨before, after, hbefore, hafter, ?_⟩
    have h := hdeclared address.text nativeAsset
    rwa [totalChange_native hlower hknown keyed, heth, Ledger.total_post, Ledger.total_nil,
      zero_add, htotal] at h
  case token =>
    intro token hmem
    obtain ⟨t, slots, ht, hlookup, hslots⟩ := hknown.indexed token hmem
    obtain ⟨n, hn⟩ := hslots.configured
    refine ⟨t, n, ht, hn, fun account ha => ?_⟩
    obtain ⟨before, after, hbefore, hafter, htotal⟩ :=
      tour.token_total alike hknown hmem ht hlookup hslots hn ha
    refine ⟨before, after, hbefore, hafter, ?_⟩
    have h := hdeclared account.text token.asset
    rwa [totalChange_token hlower hknown keyed localeCompare hmem, htoken, Ledger.total_post,
      Ledger.total_nil, zero_add, htotal] at h
  case slot => exact tour.slot_explained alike hknown
  case code => exact tour.code_kept alike

def transferIntentJson : Json := .obj [
  ("intentId", .str "550e8400-e29b-41d4-a716-446655440001"),
  ("principal", .str "agent.openclaw.strategy-alpha"),
  ("action", .str "onchain.request_signature"),
  ("resource", .str "onchain:ethereum:sepolia:0xc01"),
  ("environment", .str "canary_live"),
  ("requestedAt", .str "2024-01-01T00:00:00Z"),
  ("idempotencyKey", .str "transfer-1"),
  ("rationale", .str "Pay the invoice."),
  ("evidence", .arr [.str "snapshot-1"]),
  ("to", .str "0xc01"),
  ("simulationId", .str "550e8400-e29b-41d4-a716-446655440002"),
  ("chain", .str "ethereum"),
  ("chainEnvironment", .str "sepolia"),
  ("expectedDeltas", .arr [
    .obj [("address", .str "0xA11CE00000000000000000000000000000000001"), ("asset", .str "ETH"),
      ("minDelta", .str "-20"), ("maxDelta", .str "0")],
    .obj [("address", .str "0xA11CE00000000000000000000000000000000001"), ("asset", .str "usdc"),
      ("minDelta", .str "-5"), ("maxDelta", .str "0")],
    .obj [("address", .str "0xB0B0000000000000000000000000000000000002"), ("asset", .str "usdc"),
      ("minDelta", .str "5"), ("maxDelta", .str "5")]])]

def transferIntent : TradingIntent (plainHost id fun _ => id) :=
  ⟨transferIntentJson, by decide +kernel⟩

def alice : Address :=
  ⟨"0xa11ce00000000000000000000000000000000001",
    "a11ce00000000000000000000000000000000001".toList, by decide +kernel, by decide +kernel,
    by decide +kernel⟩

def bob : Address :=
  ⟨"0xb0b0000000000000000000000000000000000002",
    "b0b0000000000000000000000000000000000002".toList, by decide +kernel, by decide +kernel,
    by decide +kernel⟩

def transferHash (m : BitVec 512) : BitVec 256 :=
  if m = message alice 0 then
    0x7390f8cc5430635f7f4e8a26420e43f5529799acbbc1788b89778303169a0d59#256
  else 0x2d5134e8a692fd6d1f4b4bf4ded7e6a3a9b4bd49a460bb1c64214b4c32fd24c6#256

def transferToken : EvmErc20TokenConfig where
  address := "0xC000000000000000000000000000000000000003"
  asset := "USDC"
  balanceSlot := some (.value (.str "0x0"))

def transferAddresses : List String :=
  ["0xA11CE00000000000000000000000000000000001", "0xB0B0000000000000000000000000000000000002"]

def transferPre : Json := .obj [
  ("0xa11ce00000000000000000000000000000000001", .obj [("balance", .str "0x64")]),
  ("0xc000000000000000000000000000000000000003", .obj [("balance", .str "0x0"),
    ("code", .str "0x6001"), ("storage", .obj [
      ("0x7390f8cc5430635f7f4e8a26420e43f5529799acbbc1788b89778303169a0d59", .str "0x0a")])])]

def transferPost : Json := .obj [
  ("0xa11ce00000000000000000000000000000000001", .obj [("balance", .str "0x5a")]),
  ("0xc000000000000000000000000000000000000003", .obj [("storage", .obj [
    ("0x7390f8cc5430635f7f4e8a26420e43f5529799acbbc1788b89778303169a0d59", .str "0x05"),
    ("0x2d5134e8a692fd6d1f4b4bf4ded7e6a3a9b4bd49a460bb1c64214b4c32fd24c6", .str "0x05")])])]

theorem transfer_separating :
    Separating transferHash [transferToken] (observedAccounts transferAddresses) := by
  have hobserved : observedAccounts transferAddresses = [alice, bob] := by decide +kernel
  have hslot : given transferToken.balanceSlot = some (.value (.str "0x0")) ∧
      given transferToken.allowanceSlot = none ∧ given transferToken.totalSupplySlot = none ∧
      parseQuantity (.value (.str "0x0")) = some 0 := by
    decide +kernel
  have hbalance : ∀ {n}, SlotOf transferToken.balanceSlot n → n = 0 := by
    rintro n ⟨value, hgiven, hn⟩
    rw [hslot.1] at hgiven
    cases hgiven
    rw [hslot.2.2.2] at hn
    exact (Option.some.inj hn).symm
  have hnone : ∀ {n slot}, given slot = none → ¬SlotOf slot n := by
    rintro n slot hnone ⟨value, hgiven, -⟩
    rw [hnone] at hgiven
    cases hgiven
  have hmessage : ∀ {m},
      Hashed transferHash [transferToken] (observedAccounts transferAddresses) m →
      m = message alice 0 ∨ m = message bob 0 := by
    rw [hobserved]
    intro m hm
    cases hm with
    | balance htoken ha hn =>
        cases List.mem_singleton.mp htoken
        cases hbalance hn
        rcases List.mem_cons.mp ha with rfl | ha
        · exact .inl rfl
        · exact .inr (by rw [List.mem_singleton.mp ha])
    | owner htoken _ hn | spender htoken _ _ hn =>
        cases List.mem_singleton.mp htoken
        exact absurd hn (hnone hslot.2.1)
  have hhashes : transferHash (message alice 0) ≠ transferHash (message bob 0) ∧
      transferHash (message alice 0) ≠ 0 ∧ transferHash (message bob 0) ≠ 0 := by
    decide +kernel
  constructor
  case injective =>
    intro m hm m' hm' heq
    rcases hmessage hm with rfl | rfl
    · rcases hmessage hm' with rfl | rfl
      · rfl
      · exact absurd heq hhashes.1
    · rcases hmessage hm' with rfl | rfl
      · exact absurd heq.symm hhashes.1
      · rfl
  case apart =>
    intro m hm token htoken n hn hzero
    cases List.mem_singleton.mp htoken
    have hn0 : n = 0 := by
      rcases hn with hn | hn | hn
      · exact hbalance hn
      · exact absurd hn (hnone hslot.2.1)
      · exact absurd hn (hnone hslot.2.2.1)
    rw [hn0] at hzero
    have hhash : transferHash m = 0 := BitVec.eq_of_toNat_eq hzero
    rcases hmessage hm with rfl | rfl
    · exact hhashes.2.1 hhash
    · exact hhashes.2.2 hhash

/-- The transfer passes; its receiver gets the five tokens that are declared for it. -/
theorem effects_declared_transfer :
    (∃ extraction, classifyAndExtract transferHash lowerAscii codeUnitLe transferPre transferPost
      [transferToken] transferAddresses = .ok extraction ∧
      (compareEvmBalanceDeltas lowerAscii extraction.changes
        (declaredDeltas transferIntent)).passed = true) ∧
    EffectsDeclared transferHash lowerAscii transferPre transferPost [transferToken]
      (observedAccounts transferAddresses) (declaredDeltas transferIntent) := by
  have halike : SpelledAlike transferPre transferPost := by
    have hkeys : ∀ key ∈ transferPre.keys ++ transferPost.keys,
        ∀ key' ∈ transferPre.keys ++ transferPost.keys,
        normalizeAddress key = normalizeAddress key' → key = key' := by
      decide +kernel
    intro key hkey key' hkey' address hspelled hspelled'
    exact hkeys key hkey key' hkey' (hspelled.trans hspelled'.symm)
  have hpasses : ((classifyAndExtract transferHash lowerAscii codeUnitLe transferPre transferPost
      [transferToken] transferAddresses).toOption.any fun extraction =>
        (compareEvmBalanceDeltas lowerAscii extraction.changes
          (declaredDeltas transferIntent)).passed) = true := by
    decide +kernel
  cases hextract : classifyAndExtract transferHash lowerAscii codeUnitLe transferPre transferPost
      [transferToken] transferAddresses with
  | error reason =>
      rw [hextract] at hpasses
      cases hpasses
  | ok extraction =>
      rw [hextract] at hpasses
      exact ⟨⟨extraction, rfl, hpasses⟩,
        effects_declared (fun _ _ => rfl) transfer_separating halike hextract hpasses⟩

end Evm
end TradingGuardrails
