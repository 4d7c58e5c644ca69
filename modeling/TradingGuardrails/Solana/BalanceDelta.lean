import TradingGuardrails.Evm.BalanceDelta

/-!
The comparison of simulated balance changes with the declared ones, for Solana accounts. Rows
are matched with declarations by account and asset as they are written.
-/
namespace TradingGuardrails

open Text
open Evm (parseDelta bigIntText)

namespace Solana

structure BalanceChange where
  account : String
  asset : String
  delta : String

structure ExpectedSolanaBalanceDelta where
  account : String
  asset : String
  minDelta : String
  maxDelta : String

structure BalanceDeltaMismatch where
  account : String
  asset : String
  reason : String

structure BalanceDeltaComparison where
  passed : Bool
  reasons : List BalanceDeltaMismatch

def isSolanaBalanceChange (change : BalanceChange) : Bool :=
  !change.account.isEmpty && !change.asset.isEmpty

def unexpectedChange (expectedDeltas : List ExpectedSolanaBalanceDelta) (change : BalanceChange) :
    List BalanceDeltaMismatch :=
  if !isSolanaBalanceChange change then
    [⟨"", "", "Simulation balance change entries must use account-based integer entries."⟩]
  else
    let expected := expectedDeltas.find? fun delta =>
      delta.account == change.account && delta.asset == change.asset
    if expected.isNone && parseDelta change.delta != some 0 then
      [⟨change.account, change.asset, "Simulation included an unexpected balance change."⟩]
    else []

def matchingChanges (balanceChanges : List BalanceChange)
    (expected : ExpectedSolanaBalanceDelta) : List BalanceChange :=
  balanceChanges.filter fun change => isSolanaBalanceChange change &&
    (change.account == expected.account && change.asset == expected.asset)

def missedExpectation (balanceChanges : List BalanceChange)
    (expected : ExpectedSolanaBalanceDelta) : List BalanceDeltaMismatch :=
  let matching := matchingChanges balanceChanges expected
  let mismatch (reason : String) : List BalanceDeltaMismatch :=
    [⟨expected.account, expected.asset, reason⟩]
  if matching.isEmpty then
    mismatch "Expected balance change was not present in simulation result."
  else match matching.mapM (fun change => parseDelta change.delta), parseDelta expected.minDelta,
      parseDelta expected.maxDelta with
    | some actualDeltas, some minDelta, some maxDelta =>
        let actualDelta := actualDeltas.sum
        if actualDelta < minDelta ∨ maxDelta < actualDelta then
          mismatch ("Delta " ++ bigIntText actualDelta ++ " is outside expected range " ++
            expected.minDelta ++ ".." ++ expected.maxDelta ++ ".")
        else []
    | _, _, _ => mismatch "Balance delta values must be integer strings."

def compareSolanaBalanceDeltas (balanceChanges : List BalanceChange)
    (expectedDeltas : List ExpectedSolanaBalanceDelta) : BalanceDeltaComparison :=
  let reasons := balanceChanges.flatMap (unexpectedChange expectedDeltas) ++
    expectedDeltas.flatMap (missedExpectation balanceChanges)
  ⟨reasons.isEmpty, reasons⟩

end Solana
end TradingGuardrails
