import Mathlib.Algebra.Ring.Int.Defs
import TradingGuardrails.Evm.Decoder
import TradingGuardrails.Ledger

/-!
The comparison of simulated balance changes with the declared ones. Rows are matched with
declarations by address and asset in lower case. When it passes, what the rows of an account
and an asset add up to is within every range declared for them, and nothing when none is.
-/
namespace TradingGuardrails

open Text

namespace Evm

structure BalanceChange where
  address : String
  asset : String
  delta : String

structure ExpectedEvmBalanceDelta where
  address : String
  asset : String
  minDelta : String
  maxDelta : String

def ExpectedEvmBalanceDelta.ofJson (delta : Json) : ExpectedEvmBalanceDelta where
  address := textField delta "address"
  asset := textField delta "asset"
  minDelta := textField delta "minDelta"
  maxDelta := textField delta "maxDelta"

structure BalanceDeltaMismatch where
  address : String
  asset : String
  reason : String

structure BalanceDeltaComparison where
  passed : Bool
  reasons : List BalanceDeltaMismatch

def decimalDigits (digits : List Char) : Option Nat :=
  if !digits.isEmpty && digits.all Char.isDigit then some (Nat.ofDigitChars 10 digits 0) else none

/-- `/^-?\d+$/` -/
def parseDelta (value : String) : Option Int :=
  match value.toList with
  | '-' :: digits => (decimalDigits digits).map fun n : Nat => -(n : Int)
  | digits => (decimalDigits digits).map fun n : Nat => (n : Int)

/-- `value.toString()` -/
def bigIntText (value : Int) : String :=
  String.ofList (if value < 0 then '-' :: Nat.toDigits 10 value.natAbs
    else Nat.toDigits 10 value.natAbs)

def isEvmBalanceChange (change : BalanceChange) : Bool :=
  !change.address.isEmpty && !change.asset.isEmpty

variable (toLowerCase : String → String)

def sameEntry (address asset address' asset' : String) : Bool :=
  toLowerCase address == toLowerCase address' && toLowerCase asset == toLowerCase asset'

def unexpectedChange (expectedDeltas : List ExpectedEvmBalanceDelta) (change : BalanceChange) :
    List BalanceDeltaMismatch :=
  if !isEvmBalanceChange change then
    [⟨"", "", "Simulation balance change entries must use address-based integer entries."⟩]
  else
    let expected := expectedDeltas.find? fun delta =>
      sameEntry toLowerCase delta.address delta.asset change.address change.asset
    if expected.isNone && parseDelta change.delta != some 0 then
      [⟨change.address, change.asset, "Simulation included an unexpected balance change."⟩]
    else []

def matchingChanges (balanceChanges : List BalanceChange) (expected : ExpectedEvmBalanceDelta) :
    List BalanceChange :=
  balanceChanges.filter fun change => isEvmBalanceChange change &&
    sameEntry toLowerCase change.address change.asset expected.address expected.asset

def missedExpectation (balanceChanges : List BalanceChange) (expected : ExpectedEvmBalanceDelta) :
    List BalanceDeltaMismatch :=
  let matching := matchingChanges toLowerCase balanceChanges expected
  let mismatch (reason : String) : List BalanceDeltaMismatch :=
    [⟨expected.address, expected.asset, reason⟩]
  if matching.isEmpty then
    mismatch "Expected balance change was not present in simulation result."
  else match matching.mapM (fun change => parseDelta change.delta), parseDelta expected.minDelta,
      parseDelta expected.maxDelta with
    | some actualDeltas, some minDelta, some maxDelta =>
        let actualDelta := actualDeltas.sum
        if actualDelta < minDelta ∨ maxDelta < actualDelta then
          mismatch ("Delta " ++ bigIntText actualDelta ++ " is outside expected range " ++
            expected.minDelta ++ ".." ++ expected.maxDelta ++ ".")
        else []
    | _, _, _ => mismatch "Balance delta values must be integer strings."

def compareEvmBalanceDeltas (balanceChanges : List BalanceChange)
    (expectedDeltas : List ExpectedEvmBalanceDelta) : BalanceDeltaComparison :=
  let reasons := balanceChanges.flatMap (unexpectedChange toLowerCase expectedDeltas) ++
    expectedDeltas.flatMap (missedExpectation toLowerCase balanceChanges)
  ⟨reasons.isEmpty, reasons⟩

/-- A change of an account's holding of an asset that the declarations allow. -/
structure Declared (expectedDeltas : List ExpectedEvmBalanceDelta) (address asset : String)
    (change : Int) : Prop where
  within : ∀ expected ∈ expectedDeltas,
    sameEntry toLowerCase expected.address expected.asset address asset = true →
    ∃ minDelta maxDelta, parseDelta expected.minDelta = some minDelta ∧
      parseDelta expected.maxDelta = some maxDelta ∧ minDelta ≤ change ∧ change ≤ maxDelta
  undeclared : (∀ expected ∈ expectedDeltas,
    sameEntry toLowerCase expected.address expected.asset address asset = false) → change = 0

/-- The rows as entries of a ledger; a row whose change is no number counts for nothing. -/
def entries (balanceChanges : List BalanceChange) : List ((String × String) × Int) :=
  balanceChanges.map fun change =>
    ((change.address, change.asset), (parseDelta change.delta).getD 0)

def totalChange (balanceChanges : List BalanceChange) (address asset : String) : Int :=
  Ledger.total (fun key => sameEntry toLowerCase key.1 key.2 address asset = true)
    (entries balanceChanges)

variable {toLowerCase}

theorem parseDelta_bigIntText (n : Int) : parseDelta (bigIntText n) = some n := by
  have hdigits : ∀ m : Nat, decimalDigits (Nat.toDigits 10 m) = some m := by
    intro m
    have hne : (Nat.toDigits 10 m).isEmpty = false :=
      List.isEmpty_eq_false_iff.mpr Nat.toDigits_ne_nil
    have hall : (Nat.toDigits 10 m).all Char.isDigit = true :=
      List.all_eq_true.mpr fun c hc => Nat.isDigit_of_mem_toDigits (by decide) (by decide) hc
    rw [decimalDigits, hne, hall, Nat.ofDigitChars_ten_toDigits]
    rfl
  unfold parseDelta bigIntText
  rw [String.toList_ofList]
  split_ifs with hneg
  · simp only [hdigits, Option.map_some]
    exact congrArg some (by omega)
  · split
    · rename_i digits hminus
      have hmem : '-' ∈ Nat.toDigits 10 n.natAbs := by
        rw [hminus]
        exact List.mem_cons_self
      have hdigit := Nat.isDigit_of_mem_toDigits (by decide) (by decide) hmem
      exact absurd hdigit (by decide)
    · rw [hdigits, Option.map_some]
      exact congrArg some (by omega)

variable {balanceChanges : List BalanceChange} {expectedDeltas : List ExpectedEvmBalanceDelta}

theorem passed_cases (h : (compareEvmBalanceDeltas toLowerCase balanceChanges
    expectedDeltas).passed = true) :
    (∀ change ∈ balanceChanges, unexpectedChange toLowerCase expectedDeltas change = []) ∧
      ∀ expected ∈ expectedDeltas, missedExpectation toLowerCase balanceChanges expected = [] := by
  rw [compareEvmBalanceDeltas, List.isEmpty_iff, List.append_eq_nil_iff, List.flatMap_eq_nil_iff,
    List.flatMap_eq_nil_iff] at h
  exact h

theorem unexpectedChange_nil {change : BalanceChange}
    (h : unexpectedChange toLowerCase expectedDeltas change = []) :
    isEvmBalanceChange change = true ∧ ((∀ expected ∈ expectedDeltas,
      sameEntry toLowerCase expected.address expected.asset change.address change.asset = false) →
      parseDelta change.delta = some 0) := by
  unfold unexpectedChange at h
  split at h
  · cases h
  · rename_i hentry
    refine ⟨by simpa using hentry, fun hall => ?_⟩
    have hfind : (expectedDeltas.find? fun delta =>
        sameEntry toLowerCase delta.address delta.asset change.address change.asset) = none :=
      List.find?_eq_none.mpr fun expected he => by simp [hall expected he]
    by_contra hzero
    simp [hfind, hzero] at h

/-- The sum that the comparison forms is the total of the rows it matches. -/
theorem sum_matchingChanges {expected : ExpectedEvmBalanceDelta} {actualDeltas : List Int}
    (hrows : ∀ change ∈ balanceChanges, isEvmBalanceChange change = true)
    (h : (matchingChanges toLowerCase balanceChanges expected).mapM
      (fun change => parseDelta change.delta) = some actualDeltas) :
    actualDeltas.sum = totalChange toLowerCase balanceChanges expected.address expected.asset := by
  induction balanceChanges generalizing actualDeltas with
  | nil =>
      cases h
      rfl
  | cons change changes ih =>
      have hentry := hrows change List.mem_cons_self
      have htail : ∀ change ∈ changes, isEvmBalanceChange change = true :=
        fun c hc => hrows c (List.mem_cons_of_mem _ hc)
      unfold matchingChanges at h
      rw [List.filter_cons, hentry, Bool.true_and] at h
      rw [totalChange, entries, List.map_cons, Ledger.total_cons]
      split_ifs at h with hsame
      · rw [List.mapM_cons, Option.bind_eq_bind, Option.bind_eq_some_iff] at h
        obtain ⟨delta, hdelta, h⟩ := h
        rw [Option.bind_eq_bind, Option.bind_eq_some_iff] at h
        obtain ⟨deltas, hdeltas, h⟩ := h
        cases h
        rw [if_pos hsame, hdelta, List.sum_cons, ih htail hdeltas]
        rfl
      · rw [if_neg hsame, zero_add, ih htail h]
        rfl

theorem missedExpectation_nil {expected : ExpectedEvmBalanceDelta}
    (hrows : ∀ change ∈ balanceChanges, isEvmBalanceChange change = true)
    (h : missedExpectation toLowerCase balanceChanges expected = []) :
    ∃ minDelta maxDelta, parseDelta expected.minDelta = some minDelta ∧
      parseDelta expected.maxDelta = some maxDelta ∧
      minDelta ≤ totalChange toLowerCase balanceChanges expected.address expected.asset ∧
      totalChange toLowerCase balanceChanges expected.address expected.asset ≤ maxDelta := by
  simp only [missedExpectation] at h
  split at h
  · cases h
  · split at h
    · rename_i actualDeltas minDelta maxDelta hactual hmin hmax
      rw [← sum_matchingChanges hrows hactual]
      split at h
      · cases h
      · exact ⟨minDelta, maxDelta, hmin, hmax, by omega, by omega⟩
    · cases h

/-- When the comparison passes, every total is a declared change. -/
theorem declared_of_passed (h : (compareEvmBalanceDeltas toLowerCase balanceChanges
    expectedDeltas).passed = true) (address asset : String) :
    Declared toLowerCase expectedDeltas address asset
      (totalChange toLowerCase balanceChanges address asset) := by
  obtain ⟨hchanges, hexpected⟩ := passed_cases h
  have hrows : ∀ change ∈ balanceChanges, isEvmBalanceChange change = true :=
    fun change hc => (unexpectedChange_nil (hchanges change hc)).1
  constructor
  · intro expected he hsame
    have htotal : totalChange toLowerCase balanceChanges expected.address expected.asset =
        totalChange toLowerCase balanceChanges address asset := by
      rw [sameEntry, Bool.and_eq_true, beq_iff_eq, beq_iff_eq] at hsame
      apply Ledger.total_congr
      intro e _
      rw [sameEntry, sameEntry, hsame.1, hsame.2]
    obtain ⟨minDelta, maxDelta, hmin, hmax, hlow, hhigh⟩ :=
      missedExpectation_nil hrows (hexpected expected he)
    rw [htotal] at hlow hhigh
    exact ⟨minDelta, maxDelta, hmin, hmax, hlow, hhigh⟩
  · intro hnone
    apply Ledger.total_eq_zero
    intro e he hsame
    obtain ⟨change, hc, rfl⟩ := List.mem_map.mp he
    have hzero := (unexpectedChange_nil (hchanges change hc)).2 fun expected hexp => by
      rw [← hnone expected hexp]
      rw [sameEntry, Bool.and_eq_true, beq_iff_eq, beq_iff_eq] at hsame
      simp only [sameEntry, hsame.1, hsame.2]
    simp only [hzero, Option.getD_some]

end Evm
end TradingGuardrails
