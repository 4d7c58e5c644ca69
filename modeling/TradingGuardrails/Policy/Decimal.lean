import TradingGuardrails.Policy.Rules
import TradingGuardrails.Text.DecimalOrder

/-!
Amounts as decimal texts. The policy compares them by length, and by the first difference
where the lengths agree; for texts without leading zeros this is the order of the numbers.
-/
namespace TradingGuardrails
namespace Policy

open Text

def decimalValue (ds : List Char) : Nat :=
  Nat.ofDigitChars 10 ds 0

theorem validDecimalChars_iff {ds : List Char} : validDecimalChars ds = true ↔ Canonical ds := by
  unfold validDecimalChars
  split
  · exact iff_of_false Bool.false_ne_true fun h => h.nonempty rfl
  · refine iff_of_true rfl ⟨?_, List.cons_ne_nil _ _, fun _ => rfl⟩
    exact List.forall_mem_singleton.mpr rfl
  · next c cs hzero =>
      simp only [Bool.and_eq_true, decide_eq_true_eq, List.all_eq_true]
      constructor
      · rintro ⟨⟨hlow, hhigh⟩, hdigits⟩
        refine ⟨List.forall_mem_cons.mpr ⟨?_, fun d hd => ?_⟩, List.cons_ne_nil _ _, ?_⟩
        · exact Bool.and_eq_true_iff.mpr ⟨decide_eq_true (Char.le_trans (by decide) hlow),
            decide_eq_true hhigh⟩
        · obtain ⟨hlow, hhigh⟩ := hdigits d hd
          exact Bool.and_eq_true_iff.mpr ⟨decide_eq_true hlow, decide_eq_true hhigh⟩
        · intro hhead
          cases hhead
          exact absurd hlow (by decide)
      · intro h
        obtain ⟨hc, hcs⟩ := List.forall_mem_cons.mp h.digits
        have bounds : ∀ d : Char, d.isDigit = true → '0' ≤ d ∧ d ≤ '9' := fun d hd =>
          (Bool.and_eq_true_iff.mp hd).imp of_decide_eq_true of_decide_eq_true
        refine ⟨⟨?_, (bounds c hc).2⟩, fun d hd => bounds d (hcs d hd)⟩
        have hne : c.toNat ≠ '0'.toNat := by
          intro heq
          obtain rfl := Char.toNat_inj.mp heq
          exact hzero rfl (List.cons.inj (h.leading rfl)).2
        have hge : '0'.toNat ≤ c.toNat := (bounds c hc).1
        exact Nat.lt_of_le_of_ne hge hne.symm

theorem textAbove_iff {as bs : List Char} :
    textAbove as bs = true ↔ List.Lex (· < ·) bs as := by
  induction as generalizing bs with
  | nil => exact iff_of_false Bool.false_ne_true List.not_lex_nil
  | cons a as ih =>
      cases bs with
      | nil => exact iff_of_true rfl .nil
      | cons b bs =>
          rw [textAbove, Bool.or_eq_true, Bool.and_eq_true, decide_eq_true_eq, beq_iff_eq, ih,
            List.cons_lex_cons_iff]
          exact or_congr_right (and_congr_left' eq_comm)

/-- Two texts that the policy compares are decimals, and the first denotes the larger number. -/
theorem decimalStringExceeds_iff {amount cap : String} :
    decimalStringExceeds (some (.str amount)) (some (.str cap)) = true ↔
      Canonical amount.toList ∧ Canonical cap.toList ∧
        List.Shortlex (· < ·) cap.toList amount.toList := by
  simp only [decimalStringExceeds, Bool.and_eq_true, Bool.or_eq_true, decide_eq_true_eq,
    beq_iff_eq, validDecimalChars_iff, textAbove_iff, List.shortlex_def, and_assoc]
  exact and_congr_right fun _ => and_congr_right fun _ =>
    or_congr_right (and_congr_left' eq_comm)

/-- An amount that the policy does not find above a cap is at most the cap. -/
theorem le_of_not_exceeds {amount cap : String}
    (hamount : validDecimalChars amount.toList = true)
    (hcap : validDecimalChars cap.toList = true)
    (h : decimalStringExceeds (some (.str amount)) (some (.str cap)) = false) :
    decimalValue amount.toList ≤ decimalValue cap.toList := by
  rw [validDecimalChars_iff] at hamount hcap
  refine not_lt.mp fun hlt => Bool.eq_false_iff.mp h ?_
  exact decimalStringExceeds_iff.mpr ⟨hamount, hcap, (hcap.shortlex_iff hamount).mpr hlt⟩

theorem decimalValue_toString (n : Nat) : decimalValue (toString n).toList = n := by
  rw [Nat.toString_eq_ofList_toDigits]
  exact digitsValue_natText n

/-- The language writes a number without leading zeros. -/
theorem validDecimalChars_toString (n : Nat) :
    validDecimalChars (toString n).toList = true := by
  rw [Nat.toString_eq_ofList_toDigits]
  exact validDecimalChars_iff.mpr (canonical_natText n)

end Policy
end TradingGuardrails
