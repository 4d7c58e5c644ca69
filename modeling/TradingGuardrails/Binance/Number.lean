import TradingGuardrails.Schemas.Intent
import TradingGuardrails.Text.Decimal

/-!
What the client of the exchange reads from an answer, and the texts in which it writes the
numbers of an order.
-/
namespace TradingGuardrails

open Text

namespace Binance

def invalid {α : Type} : Except Thrown α :=
  .error (.ofMessage "Binance returned invalid or incomplete data.")

def maxSafeInteger : ℚ := 9007199254740991

def row : Option Json → Except Thrown Json
  | some (.obj fields) => .ok (.obj fields)
  | _ => invalid

def rows : Option Json → Except Thrown (List Json)
  | some (.arr values) => values.mapM fun value => row (some value)
  | _ => invalid

def text : Option Json → Except Thrown String
  | some (.str s) => if s.isEmpty then invalid else .ok s
  | _ => invalid

/-- `/^-?\d+(\.\d+)?$/`, with its parts. -/
def plainParts (s : String) : Option NumeralParts :=
  (numeralParts s.toList).filter fun p => p.exponent.isEmpty

/-- `Number(value)` of a number, or of a text that looks like one. -/
def numberOf : Option Json → Option ℚ
  | some (.num n) => Binary64.nearest n.value
  | some (.str s) => (plainParts s).bind fun p => Binary64.nearest p.value
  | _ => none

def number (value : Option Json) (minimum : Option ℚ) : Except Thrown ℚ :=
  match numberOf value with
  | some result => if minimum.any (result < ·) then invalid else .ok result
  | none => invalid

def positive (value : Option Json) : Except Thrown ℚ := do
  let result ← number value (some 0)
  if result = 0 then invalid else .ok result

def timestamp (value : Option Json) : Except Thrown ℤ := do
  let result ← number value (some 0)
  if result.den = 1 ∧ result ≤ maxSafeInteger then .ok result.num else invalid

def id : Option Json → Except Thrown String
  | some (.num n) =>
      if n.value.den = 1 ∧ n.value ≤ maxSafeInteger ∧ 0 ≤ n.value then
        .ok (natText n.value.num.toNat)
      else invalid
  | some (.str s) => if IntentSchema.canonicalDecimal s then .ok s else invalid
  | _ => invalid

inductive Side where
  | buy
  | sell
  deriving DecidableEq

def Side.text : Side → String
  | .buy => "BUY"
  | .sell => "SELL"

def side : Option Json → Except Thrown Side
  | some (.str "BUY") => .ok .buy
  | some (.str "SELL") => .ok .sell
  | _ => invalid

def flag : Option Json → Except Thrown Bool
  | some (.bool b) => .ok b
  | _ => invalid

def stable (asset : String) : Bool :=
  asset == "USDT" || asset == "USDC"

/-- `/^([A-Z0-9]+)-(USDT|USDC)$/`, with its groups. -/
def symbolParts (symbol : String) : Option (String × String) :=
  let base := symbol.toList.takeWhile (· != '-')
  let quote := String.ofList ((symbol.toList.dropWhile (· != '-')).drop 1)
  if !base.isEmpty && (base.all fun c => ('A' ≤ c && c ≤ 'Z') || c.isDigit) && stable quote then
    some (String.ofList base, quote)
  else none

def wireSymbol (symbol : String) : Except Thrown String :=
  match symbolParts symbol with
  | some (base, quote) => .ok (base ++ quote)
  | none => .error (.ofMessage "Binance symbols must use BASE-USDT or BASE-USDC notation.")

/-- `Number(exponent)` for the text after the `e`. -/
def exponentValue : List Char → ℤ
  | '-' :: ds => -(digitsValue ds : ℤ)
  | '+' :: ds => digitsValue ds
  | ds => digitsValue ds

def movePoint (digits : List Char) (point : ℤ) : List Char :=
  if point ≤ 0 then '0' :: '.' :: (List.replicate (-point).toNat '0' ++ digits)
  else if (digits.length : ℤ) ≤ point then
    digits ++ List.replicate (point - digits.length).toNat '0'
  else digits.take point.toNat ++ '.' :: digits.drop point.toNat

/-- `decimal` of the text that `String` gives for a number. -/
def decimalText (s : List Char) : List Char :=
  let mantissa := s.takeWhile (· != 'e')
  match s.dropWhile (· != 'e') with
  | [] => mantissa
  | _ :: exponent =>
      let whole := mantissa.takeWhile (· != '.')
      let fraction := (mantissa.dropWhile (· != '.')).drop 1
      movePoint (whole ++ fraction) (whole.length + exponentValue exponent)

def decimal (value : Option Numeral) : Except Thrown String :=
  match value with
  | some n =>
      if 0 < n.value then .ok (String.ofList (decimalText n.text))
      else .error (.ofMessage
        "Binance order price and quantity must be positive finite numbers.")
  | none => .error (.ofMessage
      "Binance order price and quantity must be positive finite numbers.")

end Binance
end TradingGuardrails
