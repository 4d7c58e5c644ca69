import TradingGuardrails.Deltas
import TradingGuardrails.Evm.Trace
import TradingGuardrails.Solana.BalanceDelta

/-!
Both comparisons of balance changes meet one specification. The entries of a simulation result
are any JSON values: a field that is no text is read as the empty text, which is no account, no
asset and no integer.
-/
namespace TradingGuardrails

open Text Deltas
open Evm (parseDelta)

def Evm.BalanceChange.ofJson (change : Json) : Evm.BalanceChange where
  address := textField change "address"
  asset := textField change "asset"
  delta := textField change "delta"

def Solana.BalanceChange.ofJson (change : Json) : Solana.BalanceChange where
  account := textField change "account"
  asset := textField change "asset"
  delta := textField change "delta"

namespace BalanceDeltas

def entryKey (fold : String → String) (account asset : String) : Option (String × String) :=
  if account = "" ∨ asset = "" then none else some (fold account, fold asset)

def solanaRow (change : Solana.BalanceChange) : Row (String × String) ℤ where
  key := entryKey (fun s => s) change.account change.asset
  delta := parseDelta change.delta

def solanaRange (expected : Solana.ExpectedSolanaBalanceDelta) : Range (String × String) ℤ where
  key := (expected.account, expected.asset)
  low := parseDelta expected.minDelta
  high := parseDelta expected.maxDelta

def evmRow (toLowerCase : String → String) (change : Evm.BalanceChange) :
    Row (String × String) ℤ where
  key := entryKey toLowerCase change.address change.asset
  delta := parseDelta change.delta

def evmRange (toLowerCase : String → String) (expected : Evm.ExpectedEvmBalanceDelta) :
    Range (String × String) ℤ where
  key := (toLowerCase expected.address, toLowerCase expected.asset)
  low := parseDelta expected.minDelta
  high := parseDelta expected.maxDelta

variable {ρ : Type}

section

variable {γ β : Type} {row : γ → Row (String × String) ℤ}

/-- The rows under a key are those of the entries that a comparison matches. -/
theorem rowsOf_map {p : γ → Bool} {changes : List γ} {key : String × String}
    (h : ∀ change, p change = decide ((row change).key = some key)) :
    rowsOf (changes.map row) key = (changes.filter p).map row := by
  have hp : p = (fun r => decide (r.key = some key)) ∘ row := funext h
  rw [rowsOf, List.filter_map, hp]

theorem mapM_map (f : Row (String × String) ℤ → Option ℤ) (changes : List γ) :
    (changes.map row).mapM f = changes.mapM fun change => f (row change) := by
  induction changes with
  | nil => rfl
  | cons change changes ih => rw [List.map_cons, List.mapM_cons, List.mapM_cons, ih]

/-- A comparison passes when neither of its two passes has anything to report. -/
theorem meets_iff {changes : List γ} {expected : List β} {range : β → Range (String × String) ℤ}
    {unexpected : γ → List ρ} {missed : β → List ρ}
    (hunexpected : ∀ change, unexpected change = [] ↔
      Expected (expected.map range) (row change))
    (hmissed : ∀ e, missed e = [] ↔ Within (changes.map row) (range e)) :
    (changes.flatMap unexpected ++ expected.flatMap missed).isEmpty = true ↔
      Meets (changes.map row) (expected.map range) := by
  rw [List.isEmpty_iff, List.append_eq_nil_iff, List.flatMap_eq_nil_iff, List.flatMap_eq_nil_iff]
  constructor
  · rintro ⟨hrows, hranges⟩
    refine ⟨fun r hr => ?_, fun r hr => ?_⟩
    · obtain ⟨change, hchange, rfl⟩ := List.mem_map.mp hr
      exact (hunexpected change).mp (hrows change hchange)
    · obtain ⟨e, he, rfl⟩ := List.mem_map.mp hr
      exact (hmissed e).mp (hranges e he)
  · rintro ⟨hrows, hranges⟩
    refine ⟨fun change hchange => ?_, fun e he => ?_⟩
    · exact (hunexpected change).mpr (hrows _ (List.mem_map_of_mem hchange))
    · exact (hmissed e).mpr (hranges _ (List.mem_map_of_mem he))

/-- An entry is expected when it has a key, and a range under it or no change. -/
theorem expected_iff {r : Row (String × String) ℤ} {expected : List β}
    {range : β → Range (String × String) ℤ} {key : String × String} (hkey : r.key = some key)
    {p : β → Bool} (hp : ∀ e, p e = decide ((range e).key = key)) :
    Expected (expected.map range) r ↔
      ((expected.find? p).isNone && r.delta != some 0) = false := by
  have hnone : (expected.find? p).isNone = true ↔ ¬ Declared (expected.map range) key := by
    rw [Option.isNone_iff_eq_none, List.find?_eq_none]
    constructor
    · rintro hall ⟨r, hr, rfl⟩
      obtain ⟨e, he, rfl⟩ := List.mem_map.mp hr
      exact hall e he (by rw [hp, decide_eq_true rfl])
    · intro hnot e he hpe
      rw [hp, decide_eq_true_eq] at hpe
      exact hnot ⟨range e, List.mem_map_of_mem he, hpe⟩
  constructor
  · rintro ⟨-, hundeclared⟩
    rw [Bool.and_eq_false_iff]
    by_cases hfind : (expected.find? p).isNone = true
    · have hzero := hundeclared key hkey (hnone.mp hfind)
      exact .inr (by simp [hzero])
    · exact .inl (Bool.eq_false_iff.mpr hfind)
  · intro h
    refine expected_of_declared hkey ?_
    by_cases hdeclared : Declared (expected.map range) key
    · exact .inl hdeclared
    · rw [hnone.mpr hdeclared, Bool.true_and] at h
      exact .inr (by simpa using h)

end

theorem entryKey_some {fold : String → String} {account asset : String} {key : String × String} :
    entryKey fold account asset = some key ↔
      (account ≠ "" ∧ asset ≠ "") ∧ (fold account, fold asset) = key := by
  unfold entryKey
  by_cases hempty : account = "" ∨ asset = ""
  · rw [if_pos hempty]
    simp only [reduceCtorEq, false_iff, not_and]
    exact fun h => absurd hempty (not_or.mpr h)
  · rw [if_neg hempty, Option.some.injEq]
    simp only [not_or.mp hempty, ne_eq, not_false_eq_true, and_self, true_and]

theorem named_iff {account asset : String} :
    (!account.isEmpty && !asset.isEmpty) = true ↔ account ≠ "" ∧ asset ≠ "" := by
  simp

theorem pair_eq (account asset account' asset' : String) :
    (account == account' && asset == asset') =
      decide ((account, asset) = (account', asset')) := by
  rw [Bool.eq_iff_iff, Bool.and_eq_true, beq_iff_eq, beq_iff_eq, decide_eq_true_eq, Prod.mk.injEq]

theorem ite_eq_nil {p : Bool} {r : ρ} : (if p then [r] else []) = [] ↔ p = false := by
  cases p <;> simp

theorem solana_unexpected {expected : List Solana.ExpectedSolanaBalanceDelta}
    (change : Solana.BalanceChange) : Solana.unexpectedChange expected change = [] ↔
      Expected (expected.map solanaRange) (solanaRow change) := by
  unfold Solana.unexpectedChange
  by_cases hentry : Solana.isSolanaBalanceChange change = true
  · have hkey : entryKey (fun s => s) change.account change.asset =
        some (change.account, change.asset) := entryKey_some.mpr ⟨named_iff.mp hentry, rfl⟩
    have hkey : (solanaRow change).key = some (change.account, change.asset) := hkey
    rw [expected_iff hkey fun e => pair_eq e.account e.asset change.account change.asset, hentry,
      Bool.not_true, if_neg Bool.false_ne_true, ite_eq_nil]
    rfl
  · rw [if_pos (by simpa using hentry)]
    refine ⟨fun h => absurd h (List.cons_ne_nil _ _), fun h => ?_⟩
    obtain ⟨key, hkey⟩ := Option.isSome_iff_exists.mp h.formed
    change entryKey (fun s => s) change.account change.asset = some key at hkey
    exact absurd (named_iff.mpr (entryKey_some.mp hkey).1) hentry

theorem solana_missed {changes : List Solana.BalanceChange}
    (expected : Solana.ExpectedSolanaBalanceDelta) :
    Solana.missedExpectation changes expected = [] ↔
      Within (changes.map solanaRow) (solanaRange expected) := by
  have hrows : rowsOf (changes.map solanaRow) (solanaRange expected).key =
      (Solana.matchingChanges changes expected).map solanaRow := by
    refine rowsOf_map fun change => ?_
    rw [pair_eq, Bool.eq_iff_iff, Bool.and_eq_true, decide_eq_true_eq, decide_eq_true_eq]
    have hkey : entryKey (fun s => s) change.account change.asset =
        some (expected.account, expected.asset) ↔ _ := entryKey_some
    exact (and_congr named_iff Iff.rfl).trans hkey.symm
  rw [within_iff, hrows, mapM_map, ne_eq, List.map_eq_nil_iff]
  unfold Solana.missedExpectation
  by_cases hempty : Solana.matchingChanges changes expected = []
  · simp [hempty]
  · have hsome : (Solana.matchingChanges changes expected).isEmpty = false :=
      List.isEmpty_eq_false_iff.mpr hempty
    simp only [hsome, hempty, solanaRange, solanaRow]
    cases (Solana.matchingChanges changes expected).mapM fun change => parseDelta change.delta with
    | none => simp
    | some deltas =>
        cases parseDelta expected.minDelta with
        | none => simp
        | some low =>
            cases parseDelta expected.maxDelta with
            | none => simp
            | some high => simp

theorem solana_meets (changes : List Solana.BalanceChange)
    (expected : List Solana.ExpectedSolanaBalanceDelta) :
    (Solana.compareSolanaBalanceDeltas changes expected).passed = true ↔
      Meets (changes.map solanaRow) (expected.map solanaRange) :=
  meets_iff solana_unexpected solana_missed

variable {toLowerCase : String → String}

theorem evm_unexpected {expected : List Evm.ExpectedEvmBalanceDelta} (change : Evm.BalanceChange) :
    Evm.unexpectedChange toLowerCase expected change = [] ↔
      Expected (expected.map (evmRange toLowerCase)) (evmRow toLowerCase change) := by
  unfold Evm.unexpectedChange
  by_cases hentry : Evm.isEvmBalanceChange change = true
  · have hkey : (evmRow toLowerCase change).key =
        some (toLowerCase change.address, toLowerCase change.asset) :=
      entryKey_some.mpr ⟨named_iff.mp hentry, rfl⟩
    rw [expected_iff hkey fun e => pair_eq (toLowerCase e.address) (toLowerCase e.asset)
      (toLowerCase change.address) (toLowerCase change.asset), hentry, Bool.not_true,
      if_neg Bool.false_ne_true, ite_eq_nil]
    rfl
  · rw [if_pos (by simpa using hentry)]
    refine ⟨fun h => absurd h (List.cons_ne_nil _ _), fun h => ?_⟩
    obtain ⟨key, hkey⟩ := Option.isSome_iff_exists.mp h.formed
    exact absurd (named_iff.mpr (entryKey_some.mp hkey).1) hentry

theorem evm_missed {changes : List Evm.BalanceChange} (expected : Evm.ExpectedEvmBalanceDelta) :
    Evm.missedExpectation toLowerCase changes expected = [] ↔
      Within (changes.map (evmRow toLowerCase)) (evmRange toLowerCase expected) := by
  have hrows : rowsOf (changes.map (evmRow toLowerCase)) (evmRange toLowerCase expected).key =
      (Evm.matchingChanges toLowerCase changes expected).map (evmRow toLowerCase) := by
    refine rowsOf_map fun change => ?_
    rw [Evm.sameEntry, pair_eq, Bool.eq_iff_iff, Bool.and_eq_true, decide_eq_true_eq,
      decide_eq_true_eq]
    exact (and_congr named_iff Iff.rfl).trans entryKey_some.symm
  rw [within_iff, hrows, mapM_map, ne_eq, List.map_eq_nil_iff]
  unfold Evm.missedExpectation
  by_cases hempty : Evm.matchingChanges toLowerCase changes expected = []
  · simp [hempty]
  · have hsome : (Evm.matchingChanges toLowerCase changes expected).isEmpty = false :=
      List.isEmpty_eq_false_iff.mpr hempty
    simp only [hsome, hempty, evmRange, evmRow]
    cases (Evm.matchingChanges toLowerCase changes expected).mapM
        fun change => parseDelta change.delta with
    | none => simp
    | some deltas =>
        cases parseDelta expected.minDelta with
        | none => simp
        | some low =>
            cases parseDelta expected.maxDelta with
            | none => simp
            | some high => simp

theorem evm_meets (changes : List Evm.BalanceChange)
    (expected : List Evm.ExpectedEvmBalanceDelta) :
    (Evm.compareEvmBalanceDeltas toLowerCase changes expected).passed = true ↔
      Meets (changes.map (evmRow toLowerCase)) (expected.map (evmRange toLowerCase)) :=
  meets_iff evm_unexpected evm_missed

structure Formed (row : Row (String × String) ℤ) (key : String × String) : Prop where
  key : row.key = some key
  delta : row.delta.isSome = true

/-- A comparison that depends on sums only. A change under an undeclared key may not be split
into changes that cancel out: each of them is unexpected. -/
structure Steady {β : Type} (passed : List Json → List β → Bool)
    (row : Json → Row (String × String) ℤ) (range : β → Range (String × String) ℤ) : Prop where
  perm : ∀ changes changes' expected expected', changes.Perm changes' →
    expected.Perm expected' → passed changes expected = passed changes' expected'
  split : ∀ first whole parts rest expected key, parts ≠ [] → Formed (row whole) key →
    (∀ part ∈ parts, Formed (row part) key) →
    (parts.map fun part => (row part).delta.getD 0).sum = (row whole).delta.getD 0 →
    (Declared (expected.map range) key ∨ (row whole).delta ≠ some 0 ∨
      ∀ part ∈ parts, (row part).delta = some 0) →
    passed (first ++ whole :: rest) expected = passed (first ++ parts ++ rest) expected
  zero : ∀ first zero rest expected key, (row zero).key = some key →
    (row zero).delta = some 0 → (∃ change ∈ first ++ rest, Formed (row change) key) →
    passed (first ++ zero :: rest) expected = passed (first ++ rest) expected

section

variable {β : Type} {passed : List Json → List β → Bool} {row : Json → Row (String × String) ℤ}
  {range : β → Range (String × String) ℤ}

theorem uniform_map {key : String × String} (changes : List Json) (hne : changes ≠ [])
    (h : ∀ change ∈ changes, Formed (row change) key) : Uniform key (changes.map row) := by
  refine ⟨fun hnil => hne (List.map_eq_nil_iff.mp hnil), fun r hr => ?_, fun r hr => ?_⟩
  · obtain ⟨change, hchange, rfl⟩ := List.mem_map.mp hr
    exact (h change hchange).key
  · obtain ⟨change, hchange, rfl⟩ := List.mem_map.mp hr
    exact (h change hchange).delta

section

variable (h : ∀ changes expected, passed changes expected = true ↔
  Meets (changes.map row) (expected.map range))

include h

theorem passed_perm {changes changes' : List Json} {expected expected' : List β}
    (hchanges : changes.Perm changes') (hexpected : expected.Perm expected') :
    passed changes expected = passed changes' expected' := by
  rw [Bool.eq_iff_iff, h, h]
  exact ⟨fun hmeets => hmeets.perm (hchanges.map _) (hexpected.map _),
    fun hmeets => hmeets.perm (hchanges.symm.map _) (hexpected.symm.map _)⟩

theorem passed_split {first parts rest : List Json} {whole : Json} {expected : List β}
    {key : String × String} (hne : parts ≠ []) (hwhole : Formed (row whole) key)
    (hparts : ∀ part ∈ parts, Formed (row part) key)
    (hsum : (parts.map fun part => (row part).delta.getD 0).sum = (row whole).delta.getD 0)
    (hzero : Declared (expected.map range) key ∨ (row whole).delta ≠ some 0 ∨
      ∀ part ∈ parts, (row part).delta = some 0) :
    passed (first ++ whole :: rest) expected = passed (first ++ parts ++ rest) expected := by
  have honly : Uniform key [row whole] := uniform_map [whole] (List.cons_ne_nil _ _)
    fun part hpart => List.mem_singleton.mp hpart ▸ hwhole
  have hall : Uniform key (parts.map row) := uniform_map parts hne hparts
  have hsums : ((parts.map row).map fun r => r.delta.getD 0).sum =
      ([row whole].map fun r => r.delta.getD 0).sum := by
    rw [List.map_map, List.map_singleton, List.sum_singleton]
    exact hsum
  rw [Bool.eq_iff_iff, h, h, List.append_cons]
  simp only [List.map_append, List.map_cons, List.map_nil]
  constructor
  · refine (hall.standsFor honly hsums fun hnot hrow => ?_).meets
    intro r hr
    obtain ⟨part, hpart, rfl⟩ := List.mem_map.mp hr
    obtain hdeclared | hmoved | hnone := hzero
    · exact absurd hdeclared hnot
    · exact absurd (hrow (row whole) List.mem_cons_self) hmoved
    · exact hnone part hpart
  · refine (honly.standsFor hall hsums.symm fun _ hrows => ?_).meets
    intro r hr
    obtain ⟨change, hchange⟩ := Option.isSome_iff_exists.mp hwhole.delta
    have hnothing : (parts.map fun part => (row part).delta.getD 0).sum = 0 := by
      refine List.sum_eq_zero fun d hd => ?_
      obtain ⟨part, hpart, rfl⟩ := List.mem_map.mp hd
      rw [hrows (row part) (List.mem_map_of_mem hpart), Option.getD_some]
    rw [hnothing, hchange, Option.getD_some] at hsum
    rw [List.mem_singleton.mp hr, hchange, ← hsum]

/-- A change of zero is split off a change that is there. -/
theorem passed_zero {first rest : List Json} {zero : Json} {expected : List β}
    {key : String × String} (hkey : (row zero).key = some key) (hdelta : (row zero).delta = some 0)
    (hformed : ∃ change ∈ first ++ rest, Formed (row change) key) :
    passed (first ++ zero :: rest) expected = passed (first ++ rest) expected := by
  obtain ⟨change, hchange, hwhole⟩ := hformed
  obtain ⟨before, after, hsplit, -⟩ := List.eq_append_cons_of_mem hchange
  have hperm : (first ++ zero :: rest).Perm (before ++ [zero, change] ++ after) := by
    refine List.perm_middle.trans ?_
    rw [hsplit, List.append_assoc]
    exact List.perm_middle.symm
  have hparts : ∀ part ∈ [zero, change], Formed (row part) key := by
    rw [List.forall_mem_cons, List.forall_mem_singleton]
    exact ⟨⟨hkey, by rw [hdelta]; rfl⟩, hwhole⟩
  rw [passed_perm h hperm (List.Perm.refl _), hsplit]
  refine (passed_split h (List.cons_ne_nil _ _) hwhole hparts ?_ ?_).symm
  · simp [hdelta]
  · by_cases hnone : (row change).delta = some 0
    · exact .inr (.inr (List.forall_mem_cons.mpr ⟨hdelta, List.forall_mem_singleton.mpr hnone⟩))
    · exact .inr (.inl hnone)

theorem steady_of_meets : Steady passed row range where
  perm _ _ _ _ hchanges hexpected := passed_perm h hchanges hexpected
  split _ _ _ _ _ _ hne hwhole hparts hsum hzero := passed_split h hne hwhole hparts hsum hzero
  zero _ _ _ _ _ hkey hdelta hformed := passed_zero h hkey hdelta hformed

end

end

def solanaPassed (changes : List Json) (expected : List Solana.ExpectedSolanaBalanceDelta) :
    Bool :=
  (Solana.compareSolanaBalanceDeltas (changes.map Solana.BalanceChange.ofJson) expected).passed

def evmPassed (toLowerCase : String → String) (changes : List Json)
    (expected : List Evm.ExpectedEvmBalanceDelta) : Bool :=
  (Evm.compareEvmBalanceDeltas toLowerCase (changes.map Evm.BalanceChange.ofJson) expected).passed

/-- Both comparisons pass exactly when the entries meet the declared ranges, and so depend on
the sums under each key only. -/
theorem comparisons_specified (toLowerCase : String → String) :
    (∀ changes expected, solanaPassed changes expected = true ↔
      Meets (changes.map fun change => solanaRow (.ofJson change)) (expected.map solanaRange)) ∧
    Steady solanaPassed (fun change => solanaRow (.ofJson change)) solanaRange ∧
    (∀ changes expected, evmPassed toLowerCase changes expected = true ↔
      Meets (changes.map fun change => evmRow toLowerCase (.ofJson change))
        (expected.map (evmRange toLowerCase))) ∧
    Steady (evmPassed toLowerCase) (fun change => evmRow toLowerCase (.ofJson change))
      (evmRange toLowerCase) := by
  have hsolana : ∀ changes expected, solanaPassed changes expected = true ↔
      Meets (changes.map fun change => solanaRow (.ofJson change)) (expected.map solanaRange) := by
    intro changes expected
    rw [solanaPassed, solana_meets, List.map_map]
    rfl
  have hevm : ∀ changes expected, evmPassed toLowerCase changes expected = true ↔
      Meets (changes.map fun change => evmRow toLowerCase (.ofJson change))
        (expected.map (evmRange toLowerCase)) := by
    intro changes expected
    rw [evmPassed, evm_meets, List.map_map]
    rfl
  exact ⟨hsolana, steady_of_meets hsolana, hevm, steady_of_meets hevm⟩

def tokenChange (delta : String) : Json :=
  .obj [("account", .str "a"), ("asset", .str "m"), ("delta", .str delta)]

def tokenRange : Solana.ExpectedSolanaBalanceDelta := ⟨"a", "m", "4", "6"⟩

def addressChange (delta : String) : Json :=
  .obj [("address", .str "0xA"), ("asset", .str "ETH"), ("delta", .str delta)]

def addressRange : Evm.ExpectedEvmBalanceDelta := ⟨"0xa", "eth", "-6", "-4"⟩

/-- A change is divided into a gain and a loss; a change of zero is added to another. -/
theorem comparisons_specified_divided :
    Meets ([tokenChange "5"].map fun change => solanaRow (.ofJson change))
        ([tokenRange].map solanaRange) ∧
      solanaPassed [tokenChange "7", tokenChange "-2"] [tokenRange] = true ∧
      evmPassed Evm.lowerAscii [addressChange "0", addressChange "-5"] [addressRange] = true := by
  obtain ⟨hmeets, hsolana, -, hevm⟩ := comparisons_specified Evm.lowerAscii
  have hwhole : solanaPassed [tokenChange "5"] [tokenRange] = true := by decide +kernel
  have hsingle : evmPassed Evm.lowerAscii [addressChange "-5"] [addressRange] = true := by
    decide +kernel
  have hformed : ∀ delta, (parseDelta delta).isSome = true →
      Formed (solanaRow (.ofJson (tokenChange delta))) ("a", "m") :=
    fun delta hdelta => ⟨rfl, hdelta⟩
  have hdivided := hsolana.split [] (tokenChange "5") [tokenChange "7", tokenChange "-2"] []
    [tokenRange] ("a", "m") (List.cons_ne_nil _ _) (hformed "5" (by decide +kernel))
    (List.forall_mem_cons.mpr ⟨hformed "7" (by decide +kernel),
      List.forall_mem_singleton.mpr (hformed "-2" (by decide +kernel))⟩)
    (by decide +kernel) (.inl ⟨_, List.mem_cons_self, rfl⟩)
  have hzero := hevm.zero [] (addressChange "0") [addressChange "-5"] [addressRange]
    ("0xa", "eth") (by decide +kernel) (by decide +kernel)
    ⟨_, List.mem_cons_self, ⟨by decide +kernel, by decide +kernel⟩⟩
  exact ⟨(hmeets _ _).mp hwhole, hdivided.symm.trans hwhole, hzero.trans hsingle⟩

/-- Under an undeclared key, no change and its division into two that cancel out differ. -/
theorem undeclared_split_fails :
    solanaPassed [tokenChange "0"] [] = true ∧
      (parseDelta "5").getD 0 + (parseDelta "-5").getD 0 = (parseDelta "0").getD 0 ∧
      solanaPassed [tokenChange "5", tokenChange "-5"] [] = false := by
  decide +kernel

end BalanceDeltas
end TradingGuardrails
