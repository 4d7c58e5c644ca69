import Mathlib.Algebra.Group.Nat.Defs
import Mathlib.Data.List.Induction
import TradingGuardrails.Text.Json

/-!
Numbers as texts: what decimal digits are worth, and how a text of a number is put together
from its sign, digits, fraction and exponent.
-/
namespace Text

def Digits (ds : List Char) : Prop :=
  ∀ d ∈ ds, d.isDigit = true

theorem digits_nil : Digits [] :=
  List.forall_mem_nil _

theorem digits_append {ds es : List Char} : Digits (ds ++ es) ↔ Digits ds ∧ Digits es :=
  List.forall_mem_append

theorem digits_zeros (n : Nat) : Digits (List.replicate n '0') := by
  intro d hd
  rw [List.eq_of_mem_replicate hd]
  rfl

theorem Digits.not_mem {ds : List Char} (h : Digits ds) {c : Char} (hc : c.isDigit = false) :
    c ∉ ds := by
  intro hmem
  rw [h c hmem] at hc
  cases hc

theorem digitsValue_eq (ds : List Char) : digitsValue ds = Nat.ofDigitChars 10 ds 0 :=
  rfl

theorem digitsValue_append (ds es : List Char) :
    digitsValue (ds ++ es) = digitsValue ds * 10 ^ es.length + digitsValue es := by
  rw [digitsValue_eq, Nat.ofDigitChars_append, Nat.ofDigitChars_eq_ofDigitChars_zero,
    Nat.mul_comm]
  rfl

theorem digitChar_digit {c : Char} (h : c.isDigit = true) :
    c.toNat - '0'.toNat < 10 ∧ Nat.digitChar (c.toNat - '0'.toNat) = c := by
  have hcode : ∀ k < 10, Nat.digitChar k = Char.ofNat ('0'.toNat + k) := by decide
  rw [Char.isDigit, Bool.and_eq_true, decide_eq_true_eq, decide_eq_true_eq] at h
  have hlow : '0'.toNat ≤ c.toNat := h.1
  have hhigh : c.toNat ≤ '9'.toNat := h.2
  have hlt : c.toNat - '0'.toNat < 10 := by
    have : '0'.toNat = 48 := rfl
    have : '9'.toNat = 57 := rfl
    omega
  refine ⟨hlt, ?_⟩
  rw [hcode _ hlt, Nat.add_sub_cancel' hlow, Char.ofNat_toNat]

/-- Digits that begin with no zero are those of the number that they denote. -/
theorem toDigits_digitsValue {ds : List Char} (h : Digits ds) (hne : ds ≠ [])
    (hhead : ds.head? ≠ some '0') :
    0 < digitsValue ds ∧ Nat.toDigits 10 (digitsValue ds) = ds := by
  induction ds using List.reverseRecOn with
  | nil => exact absurd rfl hne
  | append_singleton ds c ih =>
      obtain ⟨hds, hc⟩ := digits_append.mp h
      obtain ⟨hlt, hchar⟩ := digitChar_digit (hc c (List.mem_singleton_self c))
      have hvalue : digitsValue (ds ++ [c]) = 10 * digitsValue ds + (c.toNat - '0'.toNat) := by
        simp [digitsValue]
      have hsingle : Nat.toDigits 10 (c.toNat - '0'.toNat) = [c] := by
        rw [Nat.toDigits_of_lt_base hlt, hchar]
      rw [hvalue]
      cases hds' : ds with
      | nil =>
          have hzero : c.toNat - '0'.toNat ≠ 0 := by
            intro hzero
            rw [hds', List.nil_append, List.head?_cons, ne_eq, Option.some.injEq] at hhead
            rw [hzero] at hchar
            exact hhead hchar.symm
          refine ⟨by omega, ?_⟩
          simpa [digitsValue] using hsingle
      | cons d tail =>
          have hstart : ds.head? ≠ some '0' := by
            rw [hds'] at hhead ⊢
            simpa using hhead
          obtain ⟨hpos, htext⟩ := ih hds (by simp [hds']) hstart
          rw [← hds']
          refine ⟨by omega, ?_⟩
          rw [← Nat.toDigits_append_toDigits (by decide) hpos hlt, htext, hsingle]

theorem digitsValue_zeros (n : Nat) : digitsValue (List.replicate n '0') = 0 := by
  rw [digitsValue_eq, Nat.ofDigitChars_replicate_zero, Nat.mul_zero]

theorem takeWhile_digits {ds rest : List Char} (h : Digits ds)
    (hrest : ∀ c cs, rest = c :: cs → c.isDigit = false) :
    (ds ++ rest).takeWhile Char.isDigit = ds ∧ (ds ++ rest).dropWhile Char.isDigit = rest := by
  rw [List.takeWhile_append_of_pos h, List.dropWhile_append_of_pos h]
  cases rest with
  | nil => simp
  | cons c cs => simp [hrest c cs rfl]

def natText (n : Nat) : String :=
  String.ofList (Nat.toDigits 10 n)

theorem digits_toDigits (n : Nat) : Digits (Nat.toDigits 10 n) :=
  fun _ hd => Nat.isDigit_of_mem_toDigits (by decide) (by decide) hd

theorem digitsValue_natText (n : Nat) : digitsValue (natText n).toList = n := by
  rw [natText, String.toList_ofList]
  exact Nat.ofDigitChars_ten_toDigits

theorem natText_injective {m n : Nat} (h : natText m = natText n) : m = n := by
  rw [← digitsValue_natText m, h, digitsValue_natText]

def intText : ℤ → String
  | .ofNat n => natText n
  | .negSucc n => "-" ++ natText (n + 1)

theorem intText_injective {m n : ℤ} (h : intText m = intText n) : m = n := by
  have hsign : ∀ {m n : Nat}, natText m ≠ "-" ++ natText n := by
    intro m n heq
    have hlist : Nat.toDigits 10 m = '-' :: Nat.toDigits 10 n := by
      have := congrArg String.toList heq
      simpa [natText] using this
    exact absurd (digits_toDigits m '-' (by simp [hlist])) (by decide)
  cases m with
  | ofNat m =>
      cases n with
      | ofNat n => rw [natText_injective h]
      | negSucc n => exact absurd h hsign
  | negSucc m =>
      cases n with
      | ofNat n => exact absurd h.symm hsign
      | negSucc n =>
          have hlist : Nat.toDigits 10 (m + 1) = Nat.toDigits 10 (n + 1) := by
            have := congrArg String.toList h
            simpa [intText, natText] using this
          have := natText_injective (congrArg String.ofList hlist)
          omega

namespace NumeralParts

def fractionText (p : NumeralParts) : List Char :=
  if p.fraction = [] then [] else '.' :: p.fraction

def exponentText (p : NumeralParts) : List Char :=
  if p.exponent = [] then []
  else 'e' :: (if p.exponentNegative then '-' else '+') :: p.exponent

def text (p : NumeralParts) : List Char :=
  (if p.negative then ['-'] else []) ++ (p.whole ++ (p.fractionText ++ p.exponentText))

structure Formed (p : NumeralParts) : Prop where
  nonempty : p.whole ≠ []
  whole : Digits p.whole
  fraction : Digits p.fraction
  exponent : Digits p.exponent

end NumeralParts

theorem readExponent_some {p q : NumeralParts} {cs : List Char} (hp : p.exponent = [])
    (hsign : p.exponentNegative = false) (h : readExponent p cs = some q) :
    cs = q.exponentText ∧ Digits q.exponent ∧ q.negative = p.negative ∧ q.whole = p.whole ∧
      q.fraction = p.fraction := by
  unfold readExponent at h
  split at h
  · cases h
    refine ⟨?_, ?_, rfl, rfl, rfl⟩
    · rw [NumeralParts.exponentText, if_pos hp]
    · rw [hp]
      exact digits_nil
  · rename_i ds
    split_ifs at h with hds
    cases h
    rw [Bool.and_eq_true, List.all_eq_true, Bool.not_eq_true'] at hds
    refine ⟨?_, hds.1, rfl, rfl, rfl⟩
    have hne : ds ≠ [] := by simpa using hds.2
    rw [NumeralParts.exponentText, if_neg hne, hsign]
    rfl
  · rename_i ds
    split_ifs at h with hds
    cases h
    rw [Bool.and_eq_true, List.all_eq_true, Bool.not_eq_true'] at hds
    refine ⟨?_, hds.1, rfl, rfl, rfl⟩
    have hne : ds ≠ [] := by simpa using hds.2
    rw [NumeralParts.exponentText, if_neg hne]
    rfl
  · cases h

theorem readFraction_some {negative : Bool} {whole cs : List Char} {q : NumeralParts}
    (h : readFraction ⟨negative, whole, [], false, []⟩ cs = some q) :
    cs = q.fractionText ++ q.exponentText ∧ Digits q.fraction ∧ Digits q.exponent ∧
      q.negative = negative ∧ q.whole = whole := by
  unfold readFraction at h
  split at h
  · rename_i cs
    simp only at h
    split_ifs at h with hempty
    obtain ⟨hexponent, hdigits, hnegative, hwhole, hfraction⟩ := readExponent_some rfl rfl h
    have hne : q.fraction ≠ [] := by
      rw [hfraction]
      simpa using hempty
    refine ⟨?_, ?_, hdigits, hnegative, hwhole⟩
    · rw [NumeralParts.fractionText, if_neg hne, ← hexponent, hfraction, List.cons_append,
        List.takeWhile_append_dropWhile]
    · rw [hfraction]
      exact fun d hd => List.mem_takeWhile_imp hd
  · obtain ⟨hexponent, hdigits, hnegative, hwhole, hfraction⟩ := readExponent_some rfl rfl h
    refine ⟨?_, ?_, hdigits, hnegative, hwhole⟩
    · rw [NumeralParts.fractionText, if_pos hfraction, ← hexponent, List.nil_append]
    · rw [hfraction]
      exact digits_nil

theorem readWhole_some {negative : Bool} {cs : List Char} {q : NumeralParts}
    (h : readWhole negative cs = some q) :
    cs = q.whole ++ (q.fractionText ++ q.exponentText) ∧ q.Formed ∧ q.negative = negative := by
  unfold readWhole at h
  simp only at h
  split_ifs at h with hempty
  obtain ⟨hrest, hfraction, hexponent, hnegative, hwhole⟩ := readFraction_some h
  refine ⟨?_, ⟨?_, ?_, hfraction, hexponent⟩, hnegative⟩
  · rw [hwhole, ← hrest, List.takeWhile_append_dropWhile]
  · rw [hwhole]
    simpa using hempty
  · rw [hwhole]
    exact fun d hd => List.mem_takeWhile_imp hd

/-- A text is what its parts write. -/
theorem numeralParts_some {cs : List Char} {p : NumeralParts} (h : numeralParts cs = some p) :
    cs = p.text ∧ p.Formed := by
  unfold numeralParts at h
  split at h
  · obtain ⟨htext, hformed, hnegative⟩ := readWhole_some h
    exact ⟨by rw [NumeralParts.text, hnegative, htext]; rfl, hformed⟩
  · obtain ⟨htext, hformed, hnegative⟩ := readWhole_some h
    exact ⟨by rw [NumeralParts.text, hnegative, htext]; rfl, hformed⟩

/-- Digits with an optional fraction are read back. -/
theorem numeralParts_plain {whole fraction : List Char} (hne : whole ≠ []) (hw : Digits whole)
    (hf : Digits fraction) :
    numeralParts (whole ++ if fraction = [] then [] else '.' :: fraction) =
      some ⟨false, whole, fraction, false, []⟩ := by
  have hrest : ∀ c cs, (if fraction = [] then [] else '.' :: fraction) = c :: cs →
      c.isDigit = false := by
    intro c cs heq
    split_ifs at heq
    cases heq
    rfl
  obtain ⟨htake, hdrop⟩ := takeWhile_digits hw hrest
  have hread : readWhole false (whole ++ if fraction = [] then [] else '.' :: fraction) =
      some ⟨false, whole, fraction, false, []⟩ := by
    simp only [readWhole, htake, hdrop, List.isEmpty_iff, hne, if_false]
    by_cases hempty : fraction = []
    · rw [if_pos hempty, hempty]
      rfl
    · obtain ⟨hall, hnone⟩ := takeWhile_digits hf (fun c cs (h : [] = c :: cs) => by cases h)
      rw [List.append_nil] at hall hnone
      rw [if_neg hempty]
      simp only [readFraction, hall, hnone, List.isEmpty_iff, hempty, if_false, readExponent]
  cases whole with
  | nil => exact absurd rfl hne
  | cons d ds =>
      unfold numeralParts
      split
      · rename_i heq
        have hminus : d = '-' := (List.cons.inj heq).1
        rw [hminus] at hw
        exact absurd (hw _ List.mem_cons_self) (by decide)
      · exact hread

end Text
