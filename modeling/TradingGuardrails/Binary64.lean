import Mathlib.Data.Int.Log
import Mathlib.Data.Rat.Floor
import Mathlib.Tactic.Linarith
import Mathlib.Tactic.Positivity

/-!
Binary floating point numbers of 64 bits, as the rational numbers that they denote. The result
of an operation is the number nearest to the exact result, and of two numbers that are equally
near the one whose last digit is even. Nothing is said of the sign of zero.
-/
namespace Binary64

def roundEven (q : ℚ) : ℤ :=
  if q - ⌊q⌋ < 1 / 2 then ⌊q⌋
  else if 1 / 2 < q - ⌊q⌋ then ⌊q⌋ + 1
  else if ⌊q⌋ % 2 = 0 then ⌊q⌋
  else ⌊q⌋ + 1

def lastPlace (q : ℚ) : ℤ :=
  max (Int.log 2 |q| - 52) (-1074)

def unit (q : ℚ) : ℚ :=
  2 ^ lastPlace q

def round (q : ℚ) : ℚ :=
  roundEven (q / unit q) * unit q

def bound : ℚ := 2 ^ 1024

def nearest (q : ℚ) : Option ℚ :=
  if |round q| < bound then some (round q) else none

/-- A number of at most 53 digits, none of which lies behind the last place. -/
def Representable (q : ℚ) : Prop :=
  ∃ digits place : ℤ, |digits| < 2 ^ 53 ∧ -1074 ≤ place ∧ q = digits * 2 ^ place

theorem roundEven_mem (q : ℚ) : (roundEven q = ⌊q⌋ ∧ q - ⌊q⌋ ≤ 1 / 2) ∨
    (roundEven q = ⌊q⌋ + 1 ∧ 1 / 2 ≤ q - ⌊q⌋) := by
  unfold roundEven
  split_ifs with hlow hhigh heven
  · exact .inl ⟨rfl, hlow.le⟩
  · exact .inr ⟨rfl, hhigh.le⟩
  · exact .inl ⟨rfl, not_lt.mp hhigh⟩
  · exact .inr ⟨rfl, not_lt.mp hlow⟩

theorem abs_roundEven_sub_le_half (q : ℚ) : |(roundEven q : ℚ) - q| ≤ 1 / 2 := by
  have hfloor := Int.floor_le q
  have hceil := Int.lt_floor_add_one q
  rcases roundEven_mem q with ⟨heq, hle⟩ | ⟨heq, hle⟩
  · rw [heq, abs_le]
    constructor <;> linarith
  · rw [heq, Int.cast_add, Int.cast_one, abs_le]
    constructor <;> linarith

/-- No integer is nearer. -/
theorem abs_roundEven_sub_le (q : ℚ) (n : ℤ) : |(roundEven q : ℚ) - q| ≤ |(n : ℚ) - q| := by
  have hfloor := Int.floor_le q
  have hceil := Int.lt_floor_add_one q
  by_cases hn : n ≤ ⌊q⌋
  · have hbelow : (n : ℚ) ≤ ⌊q⌋ := Int.cast_le.mpr hn
    rw [abs_of_nonpos (show (n : ℚ) - q ≤ 0 by linarith), abs_le]
    rcases roundEven_mem q with ⟨heq, hle⟩ | ⟨heq, hle⟩
    · rw [heq]
      constructor <;> linarith
    · rw [heq, Int.cast_add, Int.cast_one]
      constructor <;> linarith
  · have habove : (⌊q⌋ : ℚ) + 1 ≤ n := by
      have : ⌊q⌋ + 1 ≤ n := by omega
      exact_mod_cast this
    rw [abs_of_nonneg (show 0 ≤ (n : ℚ) - q by linarith), abs_le]
    rcases roundEven_mem q with ⟨heq, hle⟩ | ⟨heq, hle⟩
    · rw [heq]
      constructor <;> linarith
    · rw [heq, Int.cast_add, Int.cast_one]
      constructor <;> linarith

theorem unit_pos (q : ℚ) : 0 < unit q :=
  zpow_pos (by norm_num) _

theorem neg_1074_le_lastPlace (q : ℚ) : -1074 ≤ lastPlace q :=
  le_max_right _ _

theorem abs_lt_unit (q : ℚ) : |q| < 2 ^ 53 * unit q := by
  have hlog : |q| < (2 : ℚ) ^ (Int.log 2 |q| + 1) :=
    Int.lt_zpow_succ_log_self (by norm_num) _
  have hplace : Int.log 2 |q| + 1 ≤ 53 + lastPlace q := by
    have : Int.log 2 |q| - 52 ≤ lastPlace q := le_max_left _ _
    omega
  calc
    |q| < (2 : ℚ) ^ (Int.log 2 |q| + 1) := hlog
    _ ≤ (2 : ℚ) ^ (53 + lastPlace q) := zpow_le_zpow_right₀ (by norm_num) hplace
    _ = 2 ^ 53 * unit q := by
      rw [zpow_add₀ (by norm_num)]
      rfl

/-- Away from the smallest numbers all 53 digits count. -/
theorem unit_le_abs {q : ℚ} (hq : q ≠ 0) (h : lastPlace q ≠ -1074) :
    2 ^ 52 * unit q ≤ |q| := by
  have hplace : lastPlace q = Int.log 2 |q| - 52 := by
    unfold lastPlace at h ⊢
    omega
  calc
    2 ^ 52 * unit q = (2 : ℚ) ^ (52 + lastPlace q) := by
      rw [zpow_add₀ (by norm_num)]
      rfl
    _ = (2 : ℚ) ^ Int.log 2 |q| := by
      rw [hplace]
      congr 1
      omega
    _ ≤ |q| := Int.zpow_log_le_self (by norm_num) (abs_pos.mpr hq)

theorem round_zero : round 0 = 0 := by
  have hzero : roundEven 0 = 0 := by simp [roundEven]
  rw [round, zero_div, hzero, Int.cast_zero, zero_mul]

theorem abs_div_unit_lt (q : ℚ) : |q / unit q| < 2 ^ 53 := by
  have hunit := unit_pos q
  rw [abs_div, abs_of_pos hunit, div_lt_iff₀ hunit]
  exact abs_lt_unit q

/-- A count that fills all digits is carried to the next place. -/
theorem representable_of_place {n place : ℤ} (h : |n| ≤ 2 ^ 53) (hplace : -1074 ≤ place) :
    Representable (n * 2 ^ place) := by
  by_cases hcarry : |n| < 2 ^ 53
  · exact ⟨n, place, hcarry, hplace, rfl⟩
  have hdouble : (2 : ℚ) ^ (place + 1) = 2 * 2 ^ place := by
    rw [zpow_add_one₀ (by norm_num), mul_comm]
  rcases abs_choice n with habs | habs
  · refine ⟨2 ^ 52, place + 1, by norm_num, by omega, ?_⟩
    have heq : n = 2 ^ 53 := by omega
    rw [heq, hdouble]
    push_cast
    ring
  · refine ⟨-2 ^ 52, place + 1, by norm_num, by omega, ?_⟩
    have heq : n = -2 ^ 53 := by omega
    rw [heq, hdouble]
    push_cast
    ring

theorem representable_multiple (q : ℚ) {n : ℤ} (h : |n| ≤ 2 ^ 53) :
    Representable (n * unit q) :=
  representable_of_place h (neg_1074_le_lastPlace q)

/-- The rounded number has as many digits as a number may have. -/
theorem representable_round (q : ℚ) : Representable (round q) := by
  have hhalf := abs_le.mp (abs_roundEven_sub_le_half (q / unit q))
  have hlt := abs_lt.mp (abs_div_unit_lt q)
  have hupper : (roundEven (q / unit q) : ℚ) < (2 ^ 53 + 1 : ℤ) := by
    push_cast
    linarith
  have hlower : ((-2 ^ 53 - 1 : ℤ) : ℚ) < roundEven (q / unit q) := by
    push_cast
    linarith
  have hupper := Int.cast_lt.mp hupper
  have hlower := Int.cast_lt.mp hlower
  exact representable_multiple q (abs_le.mpr ⟨by omega, by omega⟩)

def roundUp (q : ℚ) : ℚ :=
  ⌈q / unit q⌉ * unit q

theorem le_roundUp (q : ℚ) : q ≤ roundUp q := by
  rw [roundUp, ← div_le_iff₀ (unit_pos q)]
  exact Int.le_ceil _

theorem representable_roundUp (q : ℚ) : Representable (roundUp q) := by
  have hlt := abs_lt.mp (abs_div_unit_lt q)
  have hupper : ⌈q / unit q⌉ ≤ 2 ^ 53 := by
    apply Int.ceil_le.mpr
    push_cast
    exact hlt.2.le
  have hlower : -2 ^ 53 ≤ ⌈q / unit q⌉ := by
    have hcast : ((-2 ^ 53 : ℤ) : ℚ) ≤ (⌈q / unit q⌉ : ℚ) := by
      push_cast
      exact hlt.1.le.trans (Int.le_ceil _)
    exact Int.cast_le.mp hcast
  exact representable_multiple q (abs_le.mpr ⟨hlower, hupper⟩)

/-- Among the multiples of the unit no one is nearer. -/
theorem abs_round_sub_le_multiple (q : ℚ) (n : ℤ) : |round q - q| ≤ |n * unit q - q| := by
  have hunit := unit_pos q
  have hscale : ∀ m : ℤ, |m * unit q - q| = |(m : ℚ) - q / unit q| * unit q := by
    intro m
    rw [← abs_of_pos hunit, ← abs_mul, abs_of_pos hunit, sub_mul, div_mul_cancel₀ _ hunit.ne']
  rw [round, hscale, hscale]
  exact mul_le_mul_of_nonneg_right (abs_roundEven_sub_le _ n) hunit.le

/-- A number with a digit behind the last place of `q` is smaller than `q`. -/
theorem abs_lt_of_place {q : ℚ} {digits place : ℤ} (hdigits : |digits| < 2 ^ 53)
    (hplace : place < lastPlace q) : |(digits : ℚ) * 2 ^ place| < 2 ^ 52 * unit q := by
  have hpow : (0 : ℚ) < 2 ^ place := zpow_pos (by norm_num) _
  have hcast : |(digits : ℚ)| < 2 ^ 53 := by exact_mod_cast hdigits
  calc
    |(digits : ℚ) * 2 ^ place| = |(digits : ℚ)| * 2 ^ place := by rw [abs_mul, abs_of_pos hpow]
    _ < 2 ^ 53 * 2 ^ place := mul_lt_mul_of_pos_right hcast hpow
    _ = (2 : ℚ) ^ (52 + (place + 1)) := by
      rw [zpow_add₀ (by norm_num), zpow_add_one₀ (by norm_num)]
      norm_num
      ring
    _ ≤ (2 : ℚ) ^ (52 + lastPlace q) := zpow_le_zpow_right₀ (by norm_num) (by omega)
    _ = 2 ^ 52 * unit q := by
      rw [zpow_add₀ (by norm_num)]
      rfl

/-- No number is nearer than the rounded one. -/
theorem abs_round_sub_le {q d : ℚ} (hd : Representable d) : |round q - q| ≤ |d - q| := by
  obtain ⟨digits, place, hdigits, hlowest, rfl⟩ := hd
  by_cases hq : q = 0
  · rw [hq, round_zero, sub_zero, abs_zero]
    exact abs_nonneg _
  by_cases hplace : lastPlace q ≤ place
  -- The number is a multiple of the unit.
  · obtain ⟨n, hn⟩ := Int.eq_ofNat_of_zero_le (sub_nonneg.mpr hplace)
    have hmultiple : (digits : ℚ) * 2 ^ place = (digits * 2 ^ n : ℤ) * unit q := by
      have : place = n + lastPlace q := by omega
      rw [this, zpow_add₀ (by norm_num), zpow_natCast, unit]
      push_cast
      ring
    rw [hmultiple]
    exact abs_round_sub_le_multiple q _
  -- The power of two below `q` lies between the number and `q`.
  · have hsmall := abs_lt.mp (abs_lt_of_place hdigits (not_le.mp hplace))
    have hlarge := unit_le_abs hq (by omega)
    have hpower : ((2 ^ 52 : ℤ) : ℚ) = 2 ^ 52 := Int.cast_pow 2 52
    rcases abs_cases q with ⟨habs, hsign⟩ | ⟨habs, hsign⟩
    · have hnear := abs_round_sub_le_multiple q (2 ^ 52)
      rw [hpower, abs_of_nonpos (show (2 : ℚ) ^ 52 * unit q - q ≤ 0 by linarith)] at hnear
      rw [abs_of_nonpos (show (digits : ℚ) * 2 ^ place - q ≤ 0 by linarith)]
      linarith
    · have hnear := abs_round_sub_le_multiple q (-2 ^ 52)
      rw [Int.cast_neg, hpower,
        abs_of_nonneg (show 0 ≤ -(2 : ℚ) ^ 52 * unit q - q by linarith)] at hnear
      rw [abs_of_nonneg (show 0 ≤ (digits : ℚ) * 2 ^ place - q by linarith)]
      linarith

theorem round_of_representable {q : ℚ} (h : Representable q) : round q = q := by
  have hnear := @abs_round_sub_le q q h
  rw [sub_self, abs_zero] at hnear
  exact sub_eq_zero.mp (abs_eq_zero.mp (le_antisymm hnear (abs_nonneg _)))

theorem round_round (q : ℚ) : round (round q) = round q :=
  round_of_representable (representable_round q)

theorem midpoint_le {low high q : ℚ} (hlt : low < high) (h : |high - q| ≤ |low - q|) :
    low + high ≤ 2 * q := by
  have hsquares := sq_le_sq.mpr h
  by_contra hnot
  nlinarith

theorem le_midpoint {low high q : ℚ} (hlt : low < high) (h : |low - q| ≤ |high - q|) :
    2 * q ≤ low + high := by
  have hsquares := sq_le_sq.mpr h
  by_contra hnot
  nlinarith

/-- Rounding keeps the order: two results in the wrong order would put each argument on the
other's side of their midpoint. -/
theorem round_mono {p q : ℚ} (h : p ≤ q) : round p ≤ round q := by
  by_contra hnot
  have hlt := not_le.mp hnot
  have hp := midpoint_le hlt (@abs_round_sub_le p _ (representable_round q))
  have hq := le_midpoint hlt (@abs_round_sub_le q _ (representable_round p))
  have heq : p = q := by linarith
  rw [heq] at hlt
  exact lt_irrefl _ hlt

theorem round_nonneg {q : ℚ} (h : 0 ≤ q) : 0 ≤ round q := by
  rw [← round_zero]
  exact round_mono h

/-- A result is at most half a unit away. -/
theorem abs_round_sub_le_half (q : ℚ) : |round q - q| ≤ unit q / 2 := by
  have hunit := unit_pos q
  have hscale : round q - q = (roundEven (q / unit q) - q / unit q) * unit q := by
    rw [round, sub_mul, div_mul_cancel₀ _ hunit.ne']
  rw [hscale, abs_mul, abs_of_pos hunit]
  have hhalf := abs_roundEven_sub_le_half (q / unit q)
  calc
    |(roundEven (q / unit q) : ℚ) - q / unit q| * unit q ≤ 1 / 2 * unit q := by gcongr
    _ = unit q / 2 := by ring

def smallest : ℚ := 2 ^ (-1074 : ℤ)

theorem smallest_pos : 0 < smallest :=
  zpow_pos (by norm_num) _

/-- Away from the smallest numbers the result has all 53 digits, too. -/
theorem unit_le_abs_round {q : ℚ} (hq : q ≠ 0) (h : lastPlace q ≠ -1074) :
    2 ^ 52 * unit q ≤ |round q| := by
  have hlarge := unit_le_abs hq h
  have hpower : Representable (2 ^ 52 * unit q) :=
    ⟨2 ^ 52, lastPlace q, by norm_num, neg_1074_le_lastPlace q, by rw [unit]; push_cast; rfl⟩
  have hnegative : Representable (-(2 ^ 52 * unit q)) :=
    ⟨-2 ^ 52, lastPlace q, by norm_num, neg_1074_le_lastPlace q, by rw [unit]; push_cast; ring⟩
  rcases le_abs.mp hlarge with hle | hle
  · have hround := round_mono hle
    rw [round_of_representable hpower] at hround
    exact hround.trans (le_abs_self _)
  · have hround := round_mono (le_neg.mp hle)
    rw [round_of_representable hnegative] at hround
    exact (le_neg.mp hround).trans (neg_le_abs _)

def slack (q : ℚ) : ℚ :=
  max (|q| / 2 ^ 53) (smallest / 2)

theorem slack_pos (q : ℚ) : 0 < slack q :=
  lt_max_of_lt_right (half_pos smallest_pos)

theorem abs_round_sub_le_slack (q : ℚ) : |round q - q| ≤ slack (round q) := by
  by_cases hq : q = 0
  · rw [hq, round_zero, sub_zero, abs_zero]
    exact (slack_pos 0).le
  have hhalf := abs_round_sub_le_half q
  by_cases hplace : lastPlace q = -1074
  · rw [unit, hplace] at hhalf
    exact le_max_of_le_right hhalf
  · have hlarge := unit_le_abs_round hq hplace
    apply le_max_of_le_left
    calc
      |round q - q| ≤ unit q / 2 := hhalf
      _ = 2 ^ 52 * unit q / 2 ^ 53 := by ring
      _ ≤ |round q| / 2 ^ 53 := by gcongr

def reach (q : ℚ) : ℚ :=
  q + slack q

theorem le_reach (q : ℚ) : q ≤ reach q :=
  le_add_of_nonneg_right (slack_pos q).le

theorem reach_nonneg {q : ℚ} (h : 0 ≤ q) : 0 ≤ reach q :=
  h.trans (le_reach q)

theorem reach_mono {p q : ℚ} (hp : 0 ≤ p) (h : p ≤ q) : reach p ≤ reach q := by
  unfold reach slack
  rw [abs_of_nonneg hp, abs_of_nonneg (hp.trans h)]
  gcongr

theorem abs_le_reach_round (q : ℚ) : |q| ≤ reach |round q| := by
  have hback : |q| - |round q| ≤ |q - round q| := abs_sub_abs_le_abs_sub _ _
  have herror := abs_round_sub_le_slack q
  rw [abs_sub_comm] at herror
  unfold reach
  unfold slack at herror ⊢
  rw [abs_abs]
  linarith

/-- What a bound on a result says of the exact number. -/
theorem le_reach_of_round_le {p q : ℚ} (hq : 0 ≤ q) (h : round p ≤ q) : p ≤ reach q := by
  rcases le_total 0 p with hp | hp
  · have hexact := abs_le_reach_round p
    rw [abs_of_nonneg hp, abs_of_nonneg (round_nonneg hp)] at hexact
    exact hexact.trans (reach_mono (round_nonneg hp) h)
  · exact hp.trans (reach_nonneg hq)

theorem sub_slack_le_of_le_round {p q : ℚ} (hq : 0 ≤ q) (h : q ≤ round p) : q - slack q ≤ p := by
  have herror := (abs_le.mp (abs_round_sub_le_slack p)).2
  have hround := hq.trans h
  have hless : q - slack q ≤ round p - slack (round p) := by
    unfold slack
    rw [abs_of_nonneg hq, abs_of_nonneg hround]
    rcases max_cases (round p / 2 ^ 53) (smallest / 2) with ⟨heq, hle⟩ | ⟨heq, hle⟩
    · have hpart : q / 2 ^ 53 ≤ max (q / 2 ^ 53) (smallest / 2) := le_max_left _ _
      rw [heq]
      linarith
    · have hpart : smallest / 2 ≤ max (q / 2 ^ 53) (smallest / 2) := le_max_right _ _
      rw [heq]
      linarith
  linarith

theorem representable_intCast {n : ℤ} (h : |n| ≤ 2 ^ 53) : Representable n := by
  have hplace : (-1074 : ℤ) ≤ 0 := by norm_num
  have hmultiple := representable_of_place h hplace
  rwa [zpow_zero, mul_one] at hmultiple

/-- Every number is a multiple of the smallest one. -/
theorem Representable.multiple {q : ℚ} (h : Representable q) :
    ∃ n : ℤ, q = n * smallest := by
  obtain ⟨digits, place, -, hplace, rfl⟩ := h
  obtain ⟨n, hn⟩ := Int.eq_ofNat_of_zero_le (sub_nonneg.mpr hplace)
  refine ⟨digits * 2 ^ n, ?_⟩
  have heq : place = n + -1074 := by omega
  rw [heq, zpow_add₀ (by norm_num), zpow_natCast, smallest,
    Int.cast_mul, Int.cast_pow, mul_assoc]
  rfl

theorem Representable.abs {q : ℚ} (h : Representable q) : Representable |q| := by
  obtain ⟨digits, place, hdigits, hplace, rfl⟩ := h
  refine ⟨|digits|, place, (abs_abs digits).trans_lt hdigits, hplace, ?_⟩
  have hpos : (0 : ℚ) < 2 ^ place := zpow_pos (by norm_num) _
  rw [abs_mul, abs_of_pos hpos, Int.cast_abs]

/-- A difference of numbers keeps its sign. -/
theorem round_sub_nonneg {p q : ℚ} (hp : Representable p) (hq : Representable q) :
    0 ≤ round (p - q) ↔ q ≤ p := by
  constructor
  · intro h
    by_contra hnot
    obtain ⟨m, rfl⟩ := hp.multiple
    obtain ⟨n, rfl⟩ := hq.multiple
    have hpos := smallest_pos
    have hlt : m < n := by
      have := lt_of_mul_lt_mul_right (not_le.mp hnot) hpos.le
      exact_mod_cast this
    have hle : (m : ℚ) * smallest - n * smallest ≤ -smallest := by
      have : (m : ℚ) + 1 ≤ n := by exact_mod_cast hlt
      nlinarith
    have hrepresentable : Representable (-smallest) :=
      ⟨-1, -1074, by norm_num, le_refl _, by rw [Int.cast_neg, Int.cast_one, neg_one_mul, smallest]⟩
    have hround := round_mono hle
    rw [round_of_representable hrepresentable] at hround
    linarith
  · exact fun h => round_nonneg (sub_nonneg.mpr h)

structure Double where
  value : ℚ
  exact : round value = value
  finite : |value| < bound
  deriving DecidableEq

namespace Double

theorem representable (d : Double) : Representable d.value :=
  d.exact ▸ representable_round d.value

def nearest (q : ℚ) : Option Double :=
  if h : |round q| < bound then some ⟨round q, round_round q, h⟩ else none

end Double

end Binary64
