import TradingGuardrails.Binary64
import TradingGuardrails.Host

/-!
The numbers of the language. The text of a number stands for the double nearest to it, and
every operation rounds its result to the nearest double.
-/
namespace Text

def Numeral.double (n : Numeral) : ℚ :=
  Binary64.round n.value

end Text

namespace TradingGuardrails

open Text

/-- A number of the language: a finite double, or one of those that are not. -/
inductive Number where
  | finite (value : Binary64.Double)
  | nan
  | infinity (negative : Bool)
  deriving DecidableEq

def Nearly (q limit : ℚ) : Prop :=
  q ≤ Binary64.reach limit ∧ (Binary64.Representable q → q ≤ limit)

theorem Nearly.of_le {q limit : ℚ} (h : q ≤ limit) : Nearly q limit :=
  ⟨h.trans (Binary64.le_reach limit), fun _ => h⟩

namespace Number

def rounded (q : ℚ) : Number :=
  match Binary64.Double.nearest q with
  | some value => .finite value
  | none => .infinity (decide (q < 0))

def andThen (n : Number) (operation : ℚ → ℚ) : Number :=
  match n with
  | .finite value => rounded (operation value.value)
  | _ => n

/-- `Math.abs(n)` -/
def abs : Number → Number
  | .finite value => rounded |value.value|
  | .nan => .nan
  | .infinity _ => .infinity false

/-- `n > q` -/
def above (n : Number) (q : ℚ) : Bool :=
  match n with
  | .finite value => decide (q < value.value)
  | .infinity negative => !negative
  | .nan => false

/-- `n < q` -/
def below (n : Number) (q : ℚ) : Bool :=
  match n with
  | .finite value => decide (value.value < q)
  | .infinity negative => negative
  | .nan => false

/-- `Number.isFinite(n)` -/
def isFinite : Number → Bool
  | .finite _ => true
  | _ => false

def text (host : Host) : Number → String
  | .finite value => String.ofList (host.numeral value.value).text
  | .nan => "NaN"
  | .infinity negative => if negative then "-Infinity" else "Infinity"

/-- `n.toFixed(1)` -/
def fixedText (host : Host) : Number → String
  | .finite value => host.toFixed value.value
  | n => n.text host

def toJson (host : Host) : Number → Json
  | .finite value => .num (host.numeral value.value)
  | _ => .null

/-- `Math.abs((price - market) / market) * 10_000` -/
def deviationBps (price market : ℚ) : Number :=
  ((rounded (price - market)).andThen (· / market)).abs.andThen (· * 10000)

/-- What an exact result is rounded to, by its size. -/
theorem rounded_cases (q : ℚ) :
    (∃ value, rounded q = .finite value ∧ value.value = Binary64.round q) ∨
      (rounded q = .infinity false ∧ Binary64.bound ≤ Binary64.round q) ∨
      (rounded q = .infinity true ∧ Binary64.round q ≤ -Binary64.bound) := by
  by_cases hfinite : |Binary64.round q| < Binary64.bound
  · refine .inl ⟨⟨Binary64.round q, Binary64.round_round q, hfinite⟩, ?_, rfl⟩
    simp [rounded, Binary64.Double.nearest, hfinite]
  · have hinfinite : rounded q = .infinity (decide (q < 0)) := by
      simp [rounded, Binary64.Double.nearest, hfinite]
    rcases le_abs.mp (not_lt.mp hfinite) with hle | hle
    · have hq : ¬q < 0 := fun hneg => by
        have hround := Binary64.round_mono hneg.le
        rw [Binary64.round_zero] at hround
        exact absurd (hle.trans hround) (by decide +kernel)
      rw [hinfinite, decide_eq_false hq]
      exact .inr (.inl ⟨rfl, hle⟩)
    · have hq : q < 0 := lt_of_not_ge fun hpos => by
        exact absurd (hle.trans (neg_nonpos.mpr (Binary64.round_nonneg hpos))) (by decide +kernel)
      rw [hinfinite, decide_eq_true hq]
      exact .inr (.inr ⟨rfl, le_neg.mp hle⟩)

variable {q q' limit : ℚ}

theorem round_le_of_not_above (hlimit : 0 ≤ limit) (h : (rounded q).above limit = false) :
    Binary64.round q ≤ limit := by
  rcases rounded_cases q with ⟨value, heq, hvalue⟩ | ⟨heq, -⟩ | ⟨heq, hle⟩
  · rw [heq, above, decide_eq_false_iff_not, not_lt, hvalue] at h
    exact h
  · rw [heq] at h
    cases h
  · have hbound : (0 : ℚ) ≤ Binary64.bound := by decide +kernel
    linarith

/-- The exact result is within what a bound on the number allows. -/
theorem le_reach_of_not_above (hlimit : 0 ≤ limit) (h : (rounded q).above limit = false) :
    q ≤ Binary64.reach limit :=
  Binary64.le_reach_of_round_le hlimit (round_le_of_not_above hlimit h)

theorem nearly_of_not_above (hlimit : 0 ≤ limit) (h : (rounded q).above limit = false) :
    Nearly q limit := by
  refine ⟨le_reach_of_not_above hlimit h, fun hq => ?_⟩
  have hround := round_le_of_not_above hlimit h
  rwa [Binary64.round_of_representable hq] at hround

theorem not_above_of_le (hle : q' ≤ q) (hlimit : 0 ≤ limit)
    (h : (rounded q).above limit = false) : (rounded q').above limit = false := by
  have hround := Binary64.round_mono hle
  have hwithin := round_le_of_not_above hlimit h
  rcases rounded_cases q' with ⟨value, heq, hvalue⟩ | ⟨heq, hlarge⟩ | ⟨heq, -⟩
  · rw [heq, above, decide_eq_false_iff_not, not_lt, hvalue]
    exact hround.trans hwithin
  · rcases rounded_cases q with ⟨value, heq', hvalue⟩ | ⟨heq', -⟩ | ⟨heq', hsmall⟩
    · have hfinite := (abs_lt.mp value.finite).2
      rw [hvalue] at hfinite
      linarith
    · rw [heq'] at h
      cases h
    · have hbound : (0 : ℚ) < Binary64.bound := by decide +kernel
      linarith
  · rw [heq]
    rfl

theorem nonneg_of_not_below (h : (rounded q).below 0 = false) : 0 ≤ Binary64.round q := by
  rcases rounded_cases q with ⟨value, heq, hvalue⟩ | ⟨heq, hle⟩ | ⟨heq, -⟩
  · rw [heq, below, decide_eq_false_iff_not, not_lt, hvalue] at h
    exact h
  · have hbound : (0 : ℚ) ≤ Binary64.bound := by decide +kernel
    linarith
  · rw [heq] at h
    cases h

theorem isFinite_of_between (hlow : (rounded q).below 0 = false)
    (hhigh : (rounded q).above limit = false) : (rounded q).isFinite = true := by
  rcases rounded_cases q with ⟨value, heq, -⟩ | ⟨heq, -⟩ | ⟨heq, -⟩
  · rw [heq]
    rfl
  · rw [heq] at hhigh
    cases hhigh
  · rw [heq] at hlow
    cases hlow

theorem le_round_of_not_below (hfinite : (rounded q).isFinite = true)
    (h : (rounded q).below limit = false) : limit ≤ Binary64.round q := by
  rcases rounded_cases q with ⟨value, heq, hvalue⟩ | ⟨heq, -⟩ | ⟨heq, -⟩
  · rw [heq, below, decide_eq_false_iff_not, not_lt, hvalue] at h
    exact h
  · rw [heq] at hfinite
    cases hfinite
  · rw [heq] at hfinite
    cases hfinite

/-- A number that was rounded up is not below the exact one. -/
theorem le_of_roundUp {value : Binary64.Double}
    (h : rounded (Binary64.roundUp q) = .finite value) : q ≤ value.value := by
  rcases rounded_cases (Binary64.roundUp q) with ⟨value', heq, hvalue⟩ | ⟨heq, -⟩ | ⟨heq, -⟩
  · cases h.symm.trans heq
    rw [hvalue, Binary64.round_of_representable (Binary64.representable_roundUp q)]
    exact Binary64.le_roundUp q
  · cases h.symm.trans heq
  · cases h.symm.trans heq

/-- A further operation keeps the order, too. -/
theorem andThen_not_above_of_le {operation : ℚ → ℚ} (hmono : Monotone operation) (hle : q' ≤ q)
    (hlimit : 0 ≤ limit) (h : ((rounded q).andThen operation).above limit = false) :
    ((rounded q').andThen operation).above limit = false := by
  have hround := Binary64.round_mono hle
  have hbound : (0 : ℚ) < Binary64.bound := by decide +kernel
  rcases rounded_cases q' with ⟨value', heq', hvalue'⟩ | ⟨heq', hlarge'⟩ | ⟨heq', -⟩
  · rcases rounded_cases q with ⟨value, heq, hvalue⟩ | ⟨heq, -⟩ | ⟨heq, hsmall⟩
    · rw [heq', andThen]
      rw [heq, andThen] at h
      refine not_above_of_le (hmono ?_) hlimit h
      rw [hvalue, hvalue']
      exact hround
    · rw [heq] at h
      cases h
    · have hfinite := (abs_lt.mp value'.finite).1
      linarith
  · rcases rounded_cases q with ⟨value, heq, hvalue⟩ | ⟨heq, -⟩ | ⟨heq, hsmall⟩
    · have hfinite := (abs_lt.mp value.finite).2
      linarith
    · rw [heq] at h
      cases h
    · linarith
  · rw [heq']
    rfl

theorem andThen_le_reach {operation : ℚ → ℚ} (hq : 0 ≤ q) (hlimit : 0 ≤ limit)
    (h : ((rounded q).andThen operation).above limit = false) :
    operation (Binary64.round q) ≤ Binary64.reach limit := by
  rcases rounded_cases q with ⟨value, heq, hvalue⟩ | ⟨heq, -⟩ | ⟨heq, hle⟩
  · rw [heq, andThen, hvalue] at h
    exact le_reach_of_not_above hlimit h
  · rw [heq] at h
    cases h
  · have hround := Binary64.round_nonneg hq
    have hbound : (0 : ℚ) < Binary64.bound := by decide +kernel
    linarith

/-- The exact deviation behind one that is within a limit: each of the three operations hides
half a unit at most. -/
theorem deviation_le {price market : ℚ} (hmarket : 0 < market) (hlimit : 0 ≤ limit)
    (h : (deviationBps price market).above limit = false) :
    |price - market| ≤
      Binary64.reach (market * Binary64.reach (Binary64.reach limit / 10000)) := by
  unfold deviationBps at h
  rcases rounded_cases (price - market) with ⟨difference, heq, hdifference⟩ | ⟨heq, -⟩ | ⟨heq, -⟩
  · rw [heq, andThen] at h
    rcases rounded_cases (difference.value / market) with ⟨ratio, heq, hratio⟩ | ⟨heq, -⟩ |
      ⟨heq, -⟩
    · rw [heq, abs] at h
      have hscaled := andThen_le_reach (abs_nonneg _) hlimit h
      rw [Binary64.round_of_representable ratio.representable.abs] at hscaled
      have hratio' : |ratio.value| ≤ Binary64.reach limit / 10000 := by
        rw [le_div_iff₀ (by norm_num)]
        exact hscaled
      have hdivided := Binary64.abs_le_reach_round (difference.value / market)
      rw [← hratio, abs_div, abs_of_pos hmarket, div_le_iff₀ hmarket] at hdivided
      have hexact := Binary64.abs_le_reach_round (price - market)
      rw [← hdifference] at hexact
      refine hexact.trans (Binary64.reach_mono (abs_nonneg _) ?_)
      calc
        |difference.value| ≤ Binary64.reach |ratio.value| * market := hdivided
        _ ≤ Binary64.reach (Binary64.reach limit / 10000) * market := by
          have := Binary64.reach_mono (abs_nonneg _) hratio'
          gcongr
        _ = market * Binary64.reach (Binary64.reach limit / 10000) := mul_comm _ _
    · rw [heq] at h
      cases h
    · rw [heq] at h
      cases h
  · rw [heq] at h
    cases h
  · rw [heq] at h
    cases h

end Number
end TradingGuardrails
