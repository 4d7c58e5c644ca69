import Mathlib.Data.Char
import Mathlib.Data.List.Shortlex
import TradingGuardrails.Text.Decimal

/-!
Decimal texts in the order of the numbers that they denote. Digits without leading zeros are
compared by how many there are, and by the first difference where there are as many.
-/
namespace Text

structure Canonical (ds : List Char) : Prop where
  digits : Digits ds
  nonempty : ds ≠ []
  leading : ds.head? = some '0' → ds = ['0']

theorem digitsValue_singleton (c : Char) : digitsValue [c] = c.toNat - '0'.toNat := by
  simp [digitsValue]

theorem digitsValue_cons (c : Char) (cs : List Char) :
    digitsValue (c :: cs) = (c.toNat - '0'.toNat) * 10 ^ cs.length + digitsValue cs := by
  rw [← List.singleton_append, digitsValue_append, digitsValue_singleton]

theorem digitsValue_lt {ds : List Char} (h : Digits ds) : digitsValue ds < 10 ^ ds.length := by
  induction ds with
  | nil => decide
  | cons d ds ih =>
      obtain ⟨hdigit, -⟩ := digitChar_digit (h d List.mem_cons_self)
      have htail := ih fun e he => h e (List.mem_cons_of_mem d he)
      rw [digitsValue_cons, List.length_cons]
      calc
        (d.toNat - '0'.toNat) * 10 ^ ds.length + digitsValue ds
            < (d.toNat - '0'.toNat) * 10 ^ ds.length + 10 ^ ds.length := by omega
        _ = (d.toNat - '0'.toNat + 1) * 10 ^ ds.length := (Nat.succ_mul _ _).symm
        _ ≤ 10 * 10 ^ ds.length := Nat.mul_le_mul_right _ hdigit
        _ = 10 ^ (ds.length + 1) := (Nat.pow_succ').symm

namespace Canonical

variable {ds es : List Char}

/-- They are the digits of the number that they denote. -/
theorem toDigits (h : Canonical ds) : Nat.toDigits 10 (digitsValue ds) = ds := by
  by_cases hzero : ds.head? = some '0'
  · rw [h.leading hzero]
    rfl
  · exact (toDigits_digitsValue h.digits h.nonempty hzero).2

/-- What has more than one digit is worth at least its first place. -/
theorem le_value (h : Canonical ds) (hlong : 1 < ds.length) :
    10 ^ (ds.length - 1) ≤ digitsValue ds := by
  cases ds with
  | nil => exact absurd rfl h.nonempty
  | cons d ds =>
      have hdigit := h.digits d List.mem_cons_self
      have hpos : 0 < d.toNat - '0'.toNat := by
        refine Nat.pos_of_ne_zero fun hzero => ?_
        have hchar := (digitChar_digit hdigit).2
        rw [hzero] at hchar
        have hone := h.leading (by rw [List.head?_cons, ← hchar]; rfl)
        rw [hone] at hlong
        exact absurd hlong (by decide)
      rw [digitsValue_cons, List.length_cons, Nat.add_sub_cancel]
      calc
        10 ^ ds.length ≤ (d.toNat - '0'.toNat) * 10 ^ ds.length :=
          Nat.le_mul_of_pos_left _ hpos
        _ ≤ _ := Nat.le_add_right _ _

theorem value_lt_of_length (hd : Canonical ds) (he : Canonical es)
    (h : ds.length < es.length) : digitsValue ds < digitsValue es := by
  have hnonempty := List.length_pos_of_ne_nil hd.nonempty
  calc
    digitsValue ds < 10 ^ ds.length := digitsValue_lt hd.digits
    _ ≤ 10 ^ (es.length - 1) := Nat.pow_le_pow_right (by decide) (by omega)
    _ ≤ digitsValue es := he.le_value (by omega)

end Canonical

/-- Of as many digits, those are worth less that are less at the first difference. -/
theorem digitsValue_lt_of_lex {ds es : List Char} (hlength : ds.length = es.length)
    (hd : Digits ds) (he : Digits es) (h : List.Lex (· < ·) ds es) :
    digitsValue ds < digitsValue es := by
  induction h with
  | nil => cases hlength
  | @cons c ds es _ ih =>
      have htail := ih (Nat.succ.inj hlength) (fun d hmem => hd d (List.mem_cons_of_mem c hmem))
        fun d hmem => he d (List.mem_cons_of_mem c hmem)
      rw [digitsValue_cons, digitsValue_cons, Nat.succ.inj hlength]
      omega
  | @rel c ds d es hlt =>
      have hlow : '0'.toNat ≤ c.toNat := by
        have hdigit := hd c List.mem_cons_self
        rw [Char.isDigit, Bool.and_eq_true, decide_eq_true_eq] at hdigit
        exact hdigit.1
      have hless : c.toNat < d.toNat := hlt
      have htail := digitsValue_lt fun e hmem => hd e (List.mem_cons_of_mem c hmem)
      rw [digitsValue_cons, digitsValue_cons, ← Nat.succ.inj hlength]
      calc
        (c.toNat - '0'.toNat) * 10 ^ ds.length + digitsValue ds
            < (c.toNat - '0'.toNat) * 10 ^ ds.length + 10 ^ ds.length := by omega
        _ = (c.toNat - '0'.toNat + 1) * 10 ^ ds.length := (Nat.succ_mul _ _).symm
        _ ≤ (d.toNat - '0'.toNat) * 10 ^ ds.length := Nat.mul_le_mul_right _ (by omega)
        _ ≤ _ := Nat.le_add_right _ _

/-- The order of the texts is the order of the numbers. -/
theorem Canonical.shortlex_iff {ds es : List Char} (hd : Canonical ds) (he : Canonical es) :
    List.Shortlex (· < ·) ds es ↔ digitsValue ds < digitsValue es := by
  have hforward : ∀ {ds es : List Char}, Canonical ds → Canonical es →
      List.Shortlex (· < ·) ds es → digitsValue ds < digitsValue es := by
    intro ds es hd he h
    rcases List.shortlex_def.mp h with hlength | ⟨hlength, hlex⟩
    · exact hd.value_lt_of_length he hlength
    · exact digitsValue_lt_of_lex hlength hd.digits he.digits hlex
  refine ⟨hforward hd he, fun h => by_contra fun hnot => ?_⟩
  by_cases hback : List.Shortlex (· < ·) es ds
  · exact absurd (hforward he hd hback) (Nat.lt_asymm h)
  · rw [Std.Trichotomous.trichotomous ds es hnot hback] at h
    exact Nat.lt_irrefl _ h

theorem canonical_toDigits (n : Nat) : Canonical (Nat.toDigits 10 n) := by
  refine ⟨digits_toDigits n, Nat.toDigits_ne_nil, ?_⟩
  induction n using Nat.strongRecOn with
  | ind n ih =>
      by_cases hsmall : n < 10
      · rw [Nat.toDigits_of_lt_base hsmall, List.head?_cons, Option.some.injEq]
        exact congrArg fun c => [c]
      · rw [Nat.toDigits_of_base_le (by decide) (by omega),
          List.head?_append_of_ne_nil _ Nat.toDigits_ne_nil]
        intro hhead
        have hvalue := congrArg digitsValue (ih (n / 10) (by omega) hhead)
        rw [digitsValue_eq, Nat.ofDigitChars_ten_toDigits] at hvalue
        have : digitsValue ['0'] = 0 := rfl
        omega

theorem canonical_natText (n : Nat) : Canonical (natText n).toList := by
  rw [natText, String.toList_ofList]
  exact canonical_toDigits n

theorem Canonical.eq_natText {s : String} (h : Canonical s.toList) :
    s = natText (digitsValue s.toList) := by
  rw [natText, h.toDigits, String.ofList_toList]

theorem canonical_iff {s : String} : Canonical s.toList ↔ ∃ n, s = natText n := by
  constructor
  · exact fun h => ⟨_, h.eq_natText⟩
  · rintro ⟨n, rfl⟩
    exact canonical_natText n

theorem shortlex_natText {m n : Nat} :
    List.Shortlex (· < ·) (natText m).toList (natText n).toList ↔ m < n := by
  rw [(canonical_natText m).shortlex_iff (canonical_natText n), digitsValue_natText,
    digitsValue_natText]

end Text
