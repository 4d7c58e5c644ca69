import Mathlib.Data.List.Dedup
import TradingGuardrails.Evm.Diff
import TradingGuardrails.Evm.Slots

/-!
Simulated effects are declared. When the extraction succeeds and the comparison with the
declared changes passes, nothing that the trace shows is left over: every balance changes
within what is declared, every changed slot has a meaning, and no code changes.
-/
namespace TradingGuardrails

open Text

namespace Evm

def LowersAscii (toLowerCase : String → String) : Prop :=
  ∀ s : String, (∀ c ∈ s.toList, c.toNat < 128) → toLowerCase s = lowerAscii s

theorem Address.chars (a : Address) : ∀ c ∈ a.text.toList, c = 'x' ∨ hexDigitLower c = true := by
  intro c hc
  rw [a.spelled] at hc
  rcases List.mem_cons.mp hc with rfl | hc
  · exact .inr (by decide)
  · rcases List.mem_cons.mp hc with rfl | hc
    · exact .inl rfl
    · exact .inr (a.hex_digits c hc)

theorem Address.lower_text {toLowerCase : String → String} (hlower : LowersAscii toLowerCase)
    (a : Address) : toLowerCase a.text = a.text := by
  have hchar : ∀ c ∈ a.text.toList, c.toNat < 128 ∧ c.toLower = c := by
    intro c hc
    rcases a.chars c hc with rfl | hhex
    · exact ⟨by decide, by decide⟩
    · obtain ⟨d, hd, -, rfl⟩ := hexDigitLower_digit hhex
      have small : ∀ d < 16, (Nat.digitChar d).toLower = Nat.digitChar d := by decide
      exact ⟨(hexDigitLower_ascii hhex).1, small d hd⟩
  have hmap : a.text.toList.map Char.toLower = a.text.toList := by
    conv => rhs; rw [← List.map_id a.text.toList]
    exact List.map_congr_left fun c hc => (hchar c hc).2
  rw [hlower a.text fun c hc => (hchar c hc).1, lowerAscii, hmap, String.ofList_toList]

theorem splitKey_mapKey (account : Address) (asset : String) :
    splitKey (mapKey account asset) = (account.text, asset) := by
  have hcolon : ∀ c ∈ account.text.toList, (c != ':') = true := by
    intro c hc
    rcases account.chars c hc with rfl | hhex
    · decide
    · rw [bne_iff_ne]
      rintro rfl
      exact absurd hhex (by decide)
  have htext : (mapKey account asset).toList = account.text.toList ++ ':' :: asset.toList := by
    rw [mapKey, String.toList_append, String.toList_append, List.append_assoc]
    rfl
  rw [splitKey, htext, List.takeWhile_append_of_pos hcolon, List.dropWhile_append_of_pos hcolon]
  simp

theorem mapKey_inj {account account' : Address} {asset asset' : String}
    (h : mapKey account asset = mapKey account' asset') : account = account' ∧ asset = asset' := by
  have hsplit := congrArg splitKey h
  rw [splitKey_mapKey, splitKey_mapKey, Prod.mk.injEq] at hsplit
  exact ⟨Address.text_inj hsplit.1, hsplit.2⟩

def posting (classified : Option Slots) (change : SlotChange) : List (String × Int) :=
  if change.delta = 0 then []
  else match classified.bind fun slots => slots.lookup change.slot with
    | some (.balance asset account) => [(mapKey account asset, change.delta)]
    | _ => []

def Classified (classified : Option Slots) (change : SlotChange) : Prop :=
  change.delta ≠ 0 → ∃ slots c, classified = some slots ∧ slots.lookup change.slot = some c

theorem visitChange_cases {observed : List Address} {classified : Option Slots}
    {address : Address} {tally tally' : Tally} {change : SlotChange}
    (h : visitChange observed classified address tally change = .ok tally') :
    tally'.ethDeltas = tally.ethDeltas ∧ Classified classified change ∧
      tally'.tokenDeltas = (posting classified change).foldl
        (fun ledger e => Ledger.credit ledger e.1 e.2) tally.tokenDeltas := by
  unfold visitChange at h
  unfold posting
  by_cases hzero : change.delta = 0
  · rw [if_pos hzero] at h
    cases h
    exact ⟨rfl, fun hne => absurd hzero hne, by rw [if_pos hzero]; rfl⟩
  · rw [if_neg hzero] at h
    rw [if_neg hzero]
    have hclassified : ∀ {c}, (classified.bind fun slots => slots.lookup change.slot) = some c →
        Classified classified change := by
      intro c hc _
      obtain ⟨slots, hslots, hlookup⟩ := Option.bind_eq_some_iff.mp hc
      exact ⟨slots, c, hslots, hlookup⟩
    split at h
    · cases h
    · rename_i asset account hc
      split at h
      · cases h
        refine ⟨?_, hclassified hc, ?_⟩
        · unfold Tally.visitToken
          simp only
          split_ifs <;> rfl
        · simp only [hc, List.foldl_cons, List.foldl_nil]
          unfold Tally.visitToken
          simp only
          split_ifs <;> rfl
      · cases h
    · rename_i hc
      cases h
      exact ⟨rfl, hclassified hc, by simp only [hc, List.foldl_nil]⟩
    · rename_i hc
      cases h
      exact ⟨rfl, hclassified hc, by simp only [hc, List.foldl_nil]⟩

theorem visitChange_run {observed : List Address} {classified : Option Slots}
    {address : Address} {changes : List SlotChange} {tally tally' : Tally}
    (h : changes.foldlM (visitChange observed classified address) tally = .ok tally') :
    tally'.ethDeltas = tally.ethDeltas ∧ (∀ change ∈ changes, Classified classified change) ∧
      tally'.tokenDeltas = (changes.flatMap (posting classified)).foldl
        (fun ledger e => Ledger.credit ledger e.1 e.2) tally.tokenDeltas := by
  induction changes generalizing tally with
  | nil =>
      cases h
      exact ⟨rfl, List.forall_mem_nil _, rfl⟩
  | cons change changes ih =>
      rw [List.foldlM_cons] at h
      obtain ⟨next, hstep, hrun⟩ := bind_eq_ok.mp h
      obtain ⟨heth, hclassified, htoken⟩ := visitChange_cases hstep
      obtain ⟨heth', hclassified', htoken'⟩ := ih hrun
      refine ⟨heth'.trans heth, fun c hc => ?_, ?_⟩
      · rcases List.mem_cons.mp hc with rfl | htail
        · exact hclassified
        · exact hclassified' c htail
      · rw [htoken', htoken, List.flatMap_cons, List.foldl_append]

/-- An account of the trace, with what its visit adds to the ledgers. -/
structure Visit where
  raw : String
  address : Address
  delta : Int
  posts : List (String × Int)
  deriving DecidableEq

structure Visited (pre post : Json) (index : List (String × Slots)) (v : Visit) : Prop where
  spelled : normalizeAddress v.raw = some v.address
  native : ∃ n, nativeDelta v.address (pre.field? v.raw) (post.field? v.raw) = .ok (v.delta, n)
  code : codeDelta v.address (pre.field? v.raw) (post.field? v.raw) = .ok ()
  storage : ∃ changes classified,
    diffStorage (accountField (pre.field? v.raw) "storage")
      (accountField (post.field? v.raw) "storage")
      ((pre.field? v.raw).isSome && (post.field? v.raw).isNone) = .ok changes ∧
    (∀ slots, classified = some slots → index.lookup v.address.text = some slots) ∧
    v.posts = changes.flatMap (posting classified) ∧
    ∀ change ∈ changes, Classified classified change

variable {pre post : Json} {observed : List Address} {index : List (String × Slots)}
  {tokenByAddress : List (String × EvmErc20TokenConfig)}

theorem visit_cases {tally tally' : Tally} {raw : String}
    (h : visit pre post observed index tokenByAddress tally raw = .ok tally') :
    ∃ v : Visit, v.raw = raw ∧ Visited pre post index v ∧
      tally'.ethDeltas = Ledger.credit tally.ethDeltas v.address.text v.delta ∧
      tally'.tokenDeltas = v.posts.foldl (fun ledger e => Ledger.credit ledger e.1 e.2)
        tally.tokenDeltas := by
  unfold visit at h
  split at h
  · cases h
  · rename_i address hspelled
    simp only at h
    split at h
    · cases h
    · rename_i hpre
      split at h
      · cases h
      · rename_i hpost
        have hpreEq : asAccount (pre.field? raw) = pre.field? raw :=
          asAccount_eq fun hsome => by
            by_contra hnone
            exact hpre (by rw [Json.hasField, hsome]; simpa using hnone)
        have hpostEq : asAccount (post.field? raw) = post.field? raw :=
          asAccount_eq fun hsome => by
            by_contra hnone
            exact hpost (by rw [Json.hasField, hsome]; simpa using hnone)
        rw [hpreEq, hpostEq] at h
        obtain ⟨native, hnative, h⟩ := bind_eq_ok.mp h
        obtain ⟨delta, n⟩ := native
        obtain ⟨done, hcode, h⟩ := bind_eq_ok.mp h
        obtain ⟨changes, hchanges, h⟩ := bind_eq_ok.mp h
        obtain ⟨heth, hclassified, htoken⟩ := visitChange_run h
        refine ⟨⟨raw, address, delta, _⟩, rfl, ⟨hspelled, ⟨n, hnative⟩, hcode, changes, _, hchanges,
          ?_, rfl, hclassified⟩, ?_, ?_⟩
        · intro slots hslots
          split_ifs at hslots
          exact hslots
        · rw [heth]
          unfold Tally.visitNative
          simp only
          split_ifs <;> rfl
        · rw [htoken]
          congr 1
          unfold Tally.visitNative
          simp only
          split_ifs <;> rfl

theorem visit_run {addresses : List String} {tally tally' : Tally}
    (h : addresses.foldlM (visit pre post observed index tokenByAddress) tally = .ok tally') :
    ∃ visits : List Visit, visits.map (fun v => v.raw) = addresses ∧
      (∀ v ∈ visits, Visited pre post index v) ∧
      tally'.ethDeltas = (visits.map fun v => (v.address.text, v.delta)).foldl
        (fun ledger e => Ledger.credit ledger e.1 e.2) tally.ethDeltas ∧
      tally'.tokenDeltas = (visits.flatMap fun v => v.posts).foldl
        (fun ledger e => Ledger.credit ledger e.1 e.2) tally.tokenDeltas := by
  induction addresses generalizing tally with
  | nil =>
      cases h
      exact ⟨[], rfl, List.forall_mem_nil _, rfl, rfl⟩
  | cons raw addresses ih =>
      rw [List.foldlM_cons] at h
      obtain ⟨next, hstep, hrun⟩ := bind_eq_ok.mp h
      obtain ⟨v, rfl, hv, heth, htoken⟩ := visit_cases hstep
      obtain ⟨visits, rfl, hvisits, heth', htoken'⟩ := ih hrun
      refine ⟨v :: visits, rfl, fun w hw => ?_, ?_, ?_⟩
      · rcases List.mem_cons.mp hw with rfl | htail
        · exact hv
        · exact hvisits w htail
      · rw [heth', heth]
        rfl
      · rw [htoken', htoken, List.flatMap_cons, List.foldl_append]

theorem mem_distinct {α : Type} [DecidableEq α] {l : List α} {x : α} : x ∈ distinct l ↔ x ∈ l := by
  rw [distinct, List.mem_reverse, List.mem_dedup, List.mem_reverse]

theorem nodup_distinct {α : Type} [DecidableEq α] (l : List α) : (distinct l).Nodup :=
  List.nodup_reverse.mpr (List.nodup_dedup _)

structure Tour (pre post : Json) (index : List (String × Slots)) (visits : List Visit) : Prop where
  raws : visits.map (fun v => v.raw) = distinct (pre.keys ++ post.keys)
  visited : ∀ v ∈ visits, Visited pre post index v

variable {visits : List Visit}

theorem Tour.nodup (tour : Tour pre post index visits) : visits.Nodup :=
  List.Nodup.of_map _ (tour.raws ▸ nodup_distinct _)

theorem Tour.mem_keys (tour : Tour pre post index visits) {v : Visit} (hv : v ∈ visits) :
    v.raw ∈ pre.keys ++ post.keys := by
  rw [← mem_distinct, ← tour.raws]
  exact List.mem_map_of_mem hv

theorem Tour.exists_visit (tour : Tour pre post index visits) {key : String}
    (h : key ∈ pre.keys ++ post.keys) : ∃ v ∈ visits, v.raw = key := by
  rw [← mem_distinct, ← tour.raws] at h
  exact List.mem_map.mp h

/-- With one spelling for each address, an account is visited once. -/
theorem Tour.visit_unique (tour : Tour pre post index visits) (alike : SpelledAlike pre post)
    {v w : Visit} (hv : v ∈ visits) (hw : w ∈ visits) (h : v.address = w.address) : v = w := by
  have hraw : v.raw = w.raw :=
    alike _ (tour.mem_keys hv) _ (tour.mem_keys hw) v.address (tour.visited v hv).spelled
      (h ▸ (tour.visited w hw).spelled)
  have hnodup : (visits.map fun v => v.raw).Nodup := tour.raws ▸ nodup_distinct _
  exact List.inj_on_of_nodup_map hnodup hv hw hraw

theorem Tour.accountAt_visit (tour : Tour pre post index visits) (alike : SpelledAlike pre post)
    {v : Visit} (hv : v ∈ visits) :
    accountAt pre v.address = pre.field? v.raw ∧ accountAt post v.address = post.field? v.raw := by
  have hspelled := (tour.visited v hv).spelled
  constructor
  · exact accountAt_eq hspelled fun key hkey haddress =>
      alike _ (List.mem_append_left _ hkey) _ (tour.mem_keys hv) _ haddress hspelled
  · exact accountAt_eq hspelled fun key hkey haddress =>
      alike _ (List.mem_append_right _ hkey) _ (tour.mem_keys hv) _ haddress hspelled

/-- An account that is not visited is in neither state. -/
theorem Tour.accountAt_unvisited (tour : Tour pre post index visits) {address : Address}
    (h : ∀ v ∈ visits, v.address ≠ address) :
    accountAt pre address = none ∧ accountAt post address = none := by
  have hkey : ∀ key ∈ pre.keys ++ post.keys, normalizeAddress key ≠ some address := by
    intro key hkey hspelled
    obtain ⟨v, hv, rfl⟩ := tour.exists_visit hkey
    rw [(tour.visited v hv).spelled] at hspelled
    exact h v hv (Option.some.inj hspelled)
  exact ⟨accountAt_none fun key hk => hkey key (List.mem_append_left _ hk),
    accountAt_none fun key hk => hkey key (List.mem_append_right _ hk)⟩

/-- What is posted for native balances adds up to the change of the account. -/
theorem Tour.native_total (tour : Tour pre post index visits) (alike : SpelledAlike pre post)
    (address : Address) :
    ∃ before after : Nat, balanceBefore pre address = some before ∧
      balanceAfter pre post address = some after ∧
      Ledger.total (· = address.text) (visits.map fun v => (v.address.text, v.delta)) =
        (after : Int) - before := by
  have hsum : Ledger.total (· = address.text) (visits.map fun v => (v.address.text, v.delta)) =
      (visits.map fun v => if v.address.text = address.text then v.delta else 0).sum := by
    rw [Ledger.total, List.map_map]
    rfl
  by_cases hvisited : ∃ v ∈ visits, v.address = address
  · obtain ⟨v, hv, rfl⟩ := hvisited
    obtain ⟨hpre, hpost⟩ := tour.accountAt_visit alike hv
    obtain ⟨n, hnative⟩ := (tour.visited v hv).native
    rw [← hpre, ← hpost] at hnative
    obtain ⟨after, hbefore, hafter, hdelta⟩ := nativeDelta_spec hnative
    refine ⟨n, after, hbefore, hafter, ?_⟩
    rw [hsum, Ledger.sum_single tour.nodup hv, if_pos rfl, hdelta]
    intro w hw hne
    rw [if_neg fun heq => hne (tour.visit_unique alike hw hv (Address.text_inj heq))]
  · have hnone : ∀ v ∈ visits, v.address ≠ address := fun v hv heq => hvisited ⟨v, hv, heq⟩
    obtain ⟨hpre, hpost⟩ := tour.accountAt_unvisited hnone
    refine ⟨0, 0, by rw [balanceBefore, hpre], by rw [balanceAfter, hpost], ?_⟩
    apply Ledger.total_eq_zero
    intro e he heq
    obtain ⟨v, hv, rfl⟩ := List.mem_map.mp he
    exact absurd (Address.text_inj heq) (hnone v hv)

theorem Tour.code_kept (tour : Tour pre post index visits) (alike : SpelledAlike pre post)
    (address : Address) :
    ∃ code, codeBefore pre address = some code ∧ codeAfter pre post address = some code := by
  by_cases hvisited : ∃ v ∈ visits, v.address = address
  · obtain ⟨v, hv, rfl⟩ := hvisited
    obtain ⟨hpre, hpost⟩ := tour.accountAt_visit alike hv
    have hcode := (tour.visited v hv).code
    rw [← hpre, ← hpost] at hcode
    exact codeDelta_spec hcode
  · obtain ⟨hpre, hpost⟩ :=
      tour.accountAt_unvisited fun v hv heq => hvisited ⟨v, hv, heq⟩
    exact ⟨"0x", by rw [codeBefore, hpre]; rfl, by rw [codeAfter, hpost]⟩

/-- The changes of an account's slots, as they were read when it was visited. -/
theorem Tour.storage_total (tour : Tour pre post index visits) (alike : SpelledAlike pre post)
    {v : Visit} (hv : v ∈ visits) :
    ∃ changes classified,
      (∀ slots, classified = some slots → index.lookup v.address.text = some slots) ∧
      v.posts = changes.flatMap (posting classified) ∧
      (∀ change ∈ changes, Classified classified change) ∧
      ∀ slot, ∃ before after : Nat, storageAt pre v.address slot = some before ∧
        storageAt post v.address slot = some after ∧
        Ledger.total (· = slot) (slotEntries changes) = (after : Int) - before := by
  obtain ⟨hpre, hpost⟩ := tour.accountAt_visit alike hv
  obtain ⟨changes, classified, hdiff, hindex, hposts, hclassified⟩ := (tour.visited v hv).storage
  rw [← hpre, ← hpost] at hdiff
  exact ⟨changes, classified, hindex, hposts, hclassified, diffStorage_spec hdiff⟩

theorem Tour.storage_unvisited (tour : Tour pre post index visits) {address : Address}
    (h : ∀ v ∈ visits, v.address ≠ address) (slot : String) :
    storageAt pre address slot = some 0 ∧ storageAt post address slot = some 0 := by
  obtain ⟨hpre, hpost⟩ := tour.accountAt_unvisited h
  exact ⟨by rw [storageAt, hpre]; rfl, by rw [storageAt, hpost]; rfl⟩

end Evm
end TradingGuardrails
