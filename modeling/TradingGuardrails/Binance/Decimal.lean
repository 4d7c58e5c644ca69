import Mathlib.Tactic.FieldSimp
import Mathlib.Tactic.Positivity
import TradingGuardrails.Binance.Number

/-!
The numbers of an order are written exactly: moving the point across the digits by the
exponent does not change what they denote, and the client reads the text back.
-/
namespace TradingGuardrails

open Text

namespace Binance

def plainValue (whole fraction : List Char) : ℚ :=
  digitsValue (whole ++ fraction) / (10 : ℚ) ^ fraction.length

/-- A text of digits with an optional fraction, and what it denotes. -/
structure Plain (text : List Char) (value : ℚ) : Prop where
  parts : ∃ whole fraction, whole ≠ [] ∧ Digits whole ∧ Digits fraction ∧
    text = whole ++ (if fraction = [] then [] else '.' :: fraction) ∧
    plainValue whole fraction = value

theorem Plain.no_exponent {text : List Char} {value : ℚ} (h : Plain text value) : 'e' ∉ text := by
  obtain ⟨whole, fraction, -, hw, hf, rfl, -⟩ := h.parts
  rw [List.mem_append, not_or]
  refine ⟨hw.not_mem rfl, ?_⟩
  split_ifs
  · exact List.not_mem_nil
  · rw [List.mem_cons, not_or]
    exact ⟨by decide, hf.not_mem rfl⟩

theorem Plain.read {text : List Char} {value : ℚ} (h : Plain text value) :
    ∃ p, plainParts (String.ofList text) = some p ∧ p.value = value := by
  obtain ⟨whole, fraction, hne, hw, hf, rfl, rfl⟩ := h.parts
  refine ⟨⟨false, whole, fraction, false, []⟩, ?_, ?_⟩
  · rw [plainParts, String.toList_ofList, numeralParts_plain hne hw hf]
    rfl
  · simp [NumeralParts.value, plainValue, digitsValue]

theorem plain_movePoint {digits : List Char} (hne : digits ≠ []) (hd : Digits digits) (point : ℤ) :
    Plain (movePoint digits point)
      (digitsValue digits * (10 : ℚ) ^ (point - (digits.length : ℤ))) := by
  unfold movePoint
  split_ifs with hneg hlong
  · -- The point stands before all digits.
    refine ⟨['0'], List.replicate (-point).toNat '0' ++ digits, by simp, by simp [Digits],
      digits_append.mpr ⟨digits_zeros _, hd⟩, ?_, ?_⟩
    · rw [if_neg (by simp [hne])]
      rfl
    · have hlength : point - (digits.length : ℤ) =
          -(((-point).toNat + digits.length : Nat) : ℤ) := by
        omega
      have hzero : digitsValue (['0'] ++ (List.replicate (-point).toNat '0' ++ digits)) =
          digitsValue digits := by
        rw [digitsValue_append, digitsValue_append, digitsValue_zeros]
        simp [digitsValue]
      rw [plainValue, hzero, List.length_append, List.length_replicate, hlength, zpow_neg,
        zpow_natCast, div_eq_mul_inv]
  · -- The point stands behind all digits.
    obtain ⟨k, hk⟩ : ∃ k : Nat, point = digits.length + k :=
      ⟨(point - digits.length).toNat, by omega⟩
    refine ⟨digits ++ List.replicate (point - digits.length).toNat '0', [], by simp [hne],
      digits_append.mpr ⟨hd, digits_zeros _⟩, digits_nil, by simp, ?_⟩
    have hcount : (point - (digits.length : ℤ)).toNat = k := by omega
    have hscale : point - (digits.length : ℤ) = (k : ℤ) := by omega
    rw [hcount, hscale, plainValue, List.append_nil, digitsValue_append, digitsValue_zeros,
      List.length_replicate, zpow_natCast]
    simp
  · -- The point stands between two digits.
    obtain ⟨k, hk⟩ : ∃ k : Nat, point = k := ⟨point.toNat, by omega⟩
    subst hk
    have hlt : k < digits.length := by omega
    have hwhole : digits.take k ≠ [] := by
      rw [ne_eq, List.take_eq_nil_iff, not_or]
      exact ⟨by omega, hne⟩
    have hfraction : digits.drop k ≠ [] := by
      rw [ne_eq, List.drop_eq_nil_iff]
      omega
    refine ⟨digits.take k, digits.drop k, hwhole, fun d h => hd d (List.mem_of_mem_take h),
      fun d h => hd d (List.mem_of_mem_drop h), ?_, ?_⟩
    · rw [if_neg hfraction]
      rfl
    · have hscale : (k : ℤ) - (digits.length : ℤ) = -((digits.length - k : Nat) : ℤ) := by omega
      rw [plainValue, List.take_append_drop, List.length_drop, hscale, zpow_neg, zpow_natCast,
        div_eq_mul_inv]

def scale (p : NumeralParts) : ℤ :=
  if p.exponentNegative then -(digitsValue p.exponent : ℤ) else digitsValue p.exponent

theorem value_of_positive {p : NumeralParts} (hsign : p.negative = false) :
    p.value = digitsValue (p.whole ++ p.fraction) *
      (10 : ℚ) ^ (scale p - (p.fraction.length : ℤ)) := by
  have hten : (10 : ℚ) ≠ 0 := by norm_num
  rw [zpow_sub₀ hten, zpow_natCast]
  cases hexponent : p.exponentNegative with
  | true =>
      simp only [NumeralParts.value, scale, hsign, hexponent, if_true, Bool.false_eq_true, if_false,
        zpow_neg, zpow_natCast]
      field_simp
  | false =>
      simp only [NumeralParts.value, scale, hsign, hexponent, Bool.false_eq_true, if_false,
        zpow_natCast]
      field_simp

theorem negative_of_value {p : NumeralParts} (h : 0 < p.value) : p.negative = false := by
  by_contra hneg
  rw [Bool.not_eq_false] at hneg
  have hle : p.value ≤ 0 := by
    cases hexponent : p.exponentNegative
    all_goals
      simp only [NumeralParts.value, hneg, hexponent, if_true, Bool.false_eq_true, if_false,
        Left.neg_nonpos_iff]
      positivity
  exact absurd h (not_lt.mpr hle)

theorem span_at {c : Char} {before after : List Char} (h : c ∉ before) :
    (before ++ c :: after).takeWhile (· != c) = before ∧
      (before ++ c :: after).dropWhile (· != c) = c :: after := by
  have hall : ∀ d ∈ before, (d != c) = true := by
    intro d hd
    simp only [bne_iff_ne, ne_eq]
    rintro rfl
    exact h hd
  rw [List.takeWhile_append_of_pos hall, List.dropWhile_append_of_pos hall]
  simp

theorem span_none {c : Char} {cs : List Char} (h : c ∉ cs) :
    cs.takeWhile (· != c) = cs ∧ cs.dropWhile (· != c) = [] := by
  have hall : ∀ d ∈ cs, (d != c) = true := by
    intro d hd
    simp only [bne_iff_ne, ne_eq]
    rintro rfl
    exact h hd
  exact ⟨List.takeWhile_eq_self_iff.mpr hall, List.dropWhile_eq_nil_iff.mpr hall⟩

/-- The whole part and the fraction of a mantissa. -/
theorem split_mantissa {p : NumeralParts} (h : p.Formed) :
    (p.whole ++ p.fractionText).takeWhile (· != '.') = p.whole ∧
      ((p.whole ++ p.fractionText).dropWhile (· != '.')).drop 1 = p.fraction := by
  have hpoint : '.' ∉ p.whole := h.whole.not_mem rfl
  unfold NumeralParts.fractionText
  split_ifs with hempty
  · rw [List.append_nil, (span_none hpoint).1, (span_none hpoint).2, hempty]
    exact ⟨rfl, rfl⟩
  · rw [(span_at hpoint).1, (span_at hpoint).2]
    exact ⟨rfl, rfl⟩

theorem decimalText_text {p : NumeralParts} (h : p.Formed) (hsign : p.negative = false) :
    decimalText p.text = if p.exponent = [] then p.whole ++ p.fractionText
      else movePoint (p.whole ++ p.fraction) (p.whole.length + scale p) := by
  have htext : p.text = (p.whole ++ p.fractionText) ++ p.exponentText := by
    rw [NumeralParts.text, hsign, List.append_assoc]
    rfl
  have hnot : 'e' ∉ p.whole ++ p.fractionText := by
    rw [List.mem_append, not_or, NumeralParts.fractionText]
    refine ⟨h.whole.not_mem rfl, ?_⟩
    split_ifs
    · exact List.not_mem_nil
    · rw [List.mem_cons, not_or]
      exact ⟨by decide, h.fraction.not_mem rfl⟩
  obtain ⟨hwhole, hfraction⟩ := split_mantissa h
  unfold decimalText
  rw [htext, NumeralParts.exponentText]
  by_cases hempty : p.exponent = []
  · rw [if_pos hempty, if_pos hempty, List.append_nil, (span_none hnot).1, (span_none hnot).2]
  · rw [if_neg hempty, if_neg hempty]
    simp only [(span_at hnot).1, (span_at hnot).2, hwhole, hfraction]
    have hexponent : exponentValue ((if p.exponentNegative then '-' else '+') :: p.exponent) =
        scale p := by
      unfold scale
      split_ifs <;> rfl
    rw [hexponent]

/-- `decimal` writes a positive number without an exponent and without rounding it. -/
theorem plain_decimalText {n : Numeral} (hpos : 0 < n.value) :
    Plain (decimalText n.text) n.value := by
  obtain ⟨p, hp⟩ := Option.isSome_iff_exists.mp n.parts
  obtain ⟨htext, hformed⟩ := numeralParts_some hp
  have hvalue : n.value = p.value := by
    simp only [Numeral.value, hp, Option.get_some]
  rw [hvalue] at hpos ⊢
  have hsign := negative_of_value hpos
  rw [htext, decimalText_text hformed hsign, value_of_positive hsign]
  split_ifs with hempty
  · refine ⟨p.whole, p.fraction, hformed.nonempty, hformed.whole, hformed.fraction, rfl, ?_⟩
    have hscale : scale p = 0 := by
      simp [scale, hempty, digitsValue]
    rw [hscale, zero_sub, zpow_neg, zpow_natCast, plainValue, div_eq_mul_inv]
  · have hdigits := plain_movePoint (by simp [hformed.nonempty])
      (digits_append.mpr ⟨hformed.whole, hformed.fraction⟩) (p.whole.length + scale p)
    have hlength : (p.whole.length : ℤ) + scale p - ((p.whole ++ p.fraction).length : ℤ) =
        scale p - p.fraction.length := by
      rw [List.length_append]
      omega
    rw [hlength] at hdigits
    exact hdigits

theorem decimal_exact (n : Numeral) (hpos : 0 < n.value) :
    ∃ t, decimal (some n) = .ok t ∧ Plain t.toList n.value ∧ 'e' ∉ t.toList ∧
      ∀ r, Binary64.nearest n.value = some r → number (some (.str t)) none = .ok r := by
  have hplain := plain_decimalText hpos
  refine ⟨String.ofList (decimalText n.text), ?_, ?_, ?_, ?_⟩
  · rw [decimal, if_pos hpos]
  · rwa [String.toList_ofList]
  · rw [String.toList_ofList]
    exact hplain.no_exponent
  · intro r hr
    obtain ⟨p, hp, hvalue⟩ := hplain.read
    simp only [number, numberOf, hp, Option.bind_some, hvalue, hr, Option.any_none,
      Bool.false_eq_true, if_false]

def tinyNumeral : Numeral :=
  ⟨"1.5e-7".toList, by decide, by decide⟩

theorem decimal_exact_tiny :
    (decimal (some tinyNumeral) = .ok "0.00000015" ∧ 0 < tinyNumeral.value) ∧
    ∃ t, decimal (some tinyNumeral) = .ok t ∧ Plain t.toList tinyNumeral.value ∧
      'e' ∉ t.toList ∧
      ∀ r, Binary64.nearest tinyNumeral.value = some r →
        number (some (.str t)) none = .ok r := by
  have hpos : 0 < tinyNumeral.value := by decide +kernel
  exact ⟨⟨(by rw [decimal, if_pos hpos]; decide +kernel), hpos⟩,
    decimal_exact tinyNumeral hpos⟩

end Binance
end TradingGuardrails
