import TradingGuardrails.Policy.Decimal
import TradingGuardrails.Service.Content
import TradingGuardrails.Signer.Request

/-!
Amounts of tokens as decimal texts, in the four places that test them: the schema of the
intents, the service, the policy and the signer. Each has tests of its own; what they accept
are the texts of the numbers of one word, and what the policy compares are their numbers.
-/
namespace TradingGuardrails

open Text

def uint256MaxText : String :=
  "115792089237316195423570985008687907853269984665640564039457584007913129639935"

def parseApprovalText (value : String) : Option Nat :=
  if unboundedApprovalAliases.any fun name => name.toList == lowerCase value then
    some (decimalNumber uint256MaxText.toList)
  else if !IntentSchema.canonicalDecimal value then none
  else if uint256MaxText.length < value.length then none
  else if value.length = uint256MaxText.length ∧ !codeUnitLe value uint256MaxText then none
  else some (decimalNumber value.toList)

def isUnboundedAlias (value : String) : Prop :=
  ∃ name ∈ unboundedApprovalAliases, name.toList = lowerCase value

def IsWordText (s : String) : Prop :=
  ∃ n ≤ uint256Max, s = natText n

theorem codeUnits_of_digits {s : String} (h : Digits s.toList) :
    codeUnits s = s.toList.map Char.toNat := by
  rw [codeUnits_eq]
  generalize s.toList = ds at h
  induction ds with
  | nil => rfl
  | cons d ds ih =>
      obtain ⟨hd, hds⟩ := List.forall_mem_cons.mp h
      have hsmall : d.toNat < 65536 := by
        rw [Char.isDigit, Bool.and_eq_true, decide_eq_true_eq, decide_eq_true_eq] at hd
        exact Nat.lt_of_le_of_lt hd.2 (by decide)
      rw [List.flatMap_cons, ih hds, charUnits, if_pos hsmall]
      rfl

theorem unitsLe_map {as bs : List Char} :
    unitsLe (as.map Char.toNat) (bs.map Char.toNat) = true ↔ ¬List.Lex (· < ·) bs as := by
  induction as generalizing bs with
  | nil => exact iff_of_true rfl List.not_lex_nil
  | cons a as ih =>
      cases bs with
      | nil => exact iff_of_false Bool.false_ne_true fun h => h .nil
      | cons b bs =>
          rw [List.map_cons, List.map_cons, unitsLe, Bool.or_eq_true, Bool.and_eq_true,
            decide_eq_true_eq, beq_iff_eq, ih, List.cons_lex_cons_iff, Char.toNat_inj]
          rcases lt_trichotomy a b with hlt | rfl | hgt
          · refine iff_of_true (.inl hlt) ?_
            rintro (hgt | ⟨rfl, -⟩)
            · exact lt_asymm hlt hgt
            · exact lt_irrefl _ hlt
          · have hself : ¬a.toNat < a.toNat := Nat.lt_irrefl _
            simp only [hself, lt_self_iff_false, true_and, false_or]
          · refine iff_of_false ?_ fun h => h (.inl hgt)
            rintro (hlt | ⟨rfl, -⟩)
            · exact Nat.lt_asymm hlt hgt
            · exact lt_irrefl _ hgt

/-- Decimals are compared by length, and by their units where the lengths agree. -/
theorem atMost_iff {s t : String} (hs : Canonical s.toList) (ht : Canonical t.toList) :
    s.length < t.length ∨ s.length = t.length ∧ codeUnitLe s t = true ↔
      digitsValue s.toList ≤ digitsValue t.toList := by
  have hunits : codeUnitLe s t = true ↔ ¬List.Lex (· < ·) t.toList s.toList := by
    rw [codeUnitLe, codeUnits_of_digits hs.digits, codeUnits_of_digits ht.digits, unitsLe_map]
  rw [← not_lt, ← ht.shortlex_iff hs, List.shortlex_def, hunits, String.length_toList,
    String.length_toList]
  constructor
  · rintro (hlt | ⟨heq, hlex⟩) (hgt | ⟨hsame, hgt⟩)
    · exact Nat.lt_asymm hlt hgt
    · exact absurd hsame hlt.ne'
    · exact absurd heq hgt.ne'
    · exact hlex hgt
  · intro h
    rw [not_or, not_and] at h
    by_cases heq : s.length = t.length
    · exact .inr ⟨heq, h.2 heq.symm⟩
    · exact .inl (by omega)

theorem uint256MaxText_eq : uint256MaxText = natText uint256Max := by
  decide +kernel

theorem isWordText_iff {s : String} :
    IsWordText s ↔ Canonical s.toList ∧ digitsValue s.toList ≤ uint256Max := by
  constructor
  · rintro ⟨n, hn, rfl⟩
    rw [digitsValue_natText]
    exact ⟨canonical_natText n, hn⟩
  · rintro ⟨h, hle⟩
    exact ⟨_, hle, h.eq_natText⟩

/-- A text of digits that is no longer and no greater than that of the largest word. -/
theorem atMost_word_iff {s : String} (h : Canonical s.toList) :
    s.length < uint256MaxText.length ∨
        s.length = uint256MaxText.length ∧ codeUnitLe s uint256MaxText = true ↔
      digitsValue s.toList ≤ uint256Max := by
  have hmax : digitsValue uint256MaxText.toList = uint256Max := by
    rw [uint256MaxText_eq, digitsValue_natText]
  have hcanonical : Canonical uint256MaxText.toList := by
    rw [uint256MaxText_eq]
    exact canonical_natText _
  rw [atMost_iff h hcanonical, hmax]

theorem tokenApprovalAmount_iff {s : String} :
    IntentSchema.tokenApprovalAmount (.str s) = true ↔ IsWordText s := by
  rw [IntentSchema.tokenApprovalAmount, Check.string, isWordText_iff, Bool.and_eq_true,
    IntentSchema.canonicalDecimal_iff, Bool.or_eq_true, Bool.and_eq_true, decide_eq_true_eq,
    beq_iff_eq]
  exact and_congr_right fun h => atMost_word_iff h

theorem isUnsignedDecimal_iff {s : String} :
    Signer.isUnsignedDecimal s = true ↔ IsWordText s := by
  rw [Signer.isUnsignedDecimal, isWordText_iff, Bool.and_eq_true, Bool.and_eq_true,
    IntentSchema.canonicalDecimal_iff, decide_eq_true_eq, decide_eq_true_eq]
  have hlength : uint256MaxText.length = 78 := by decide
  constructor
  · rintro ⟨⟨h, -⟩, hlt⟩
    exact ⟨h, Nat.le_pred_of_lt hlt⟩
  · rintro ⟨h, hle⟩
    have hlt : uint256Max < 2 ^ 256 := by decide
    refine ⟨⟨h, ?_⟩, Nat.lt_of_le_of_lt hle hlt⟩
    rcases (atMost_word_iff h).mpr hle with hshort | ⟨heq, -⟩
    · omega
    · omega

theorem decimalNumber_eq (cs : List Char) : decimalNumber cs = digitsValue cs := by
  rw [digitsValue_eq, Nat.ofDigitChars]
  simp only [decimalNumber, Nat.mul_comm]

theorem isUnboundedAlias_iff {value : String} :
    (unboundedApprovalAliases.any fun name => name.toList == lowerCase value) = true ↔
      isUnboundedAlias value := by
  simp only [List.any_eq_true, beq_iff_eq, isUnboundedAlias]

theorem lowerCase_of_digits {s : String} (h : Digits s.toList) : lowerCase s = s.toList := by
  have lowered : ∀ k < 10, (if k.digitChar.toNat == 304 then ['i', '\u0307']
      else if k.digitChar.toNat == 8490 then ['k'] else [k.digitChar.toLower]) =
        [k.digitChar] := by
    decide
  rw [lowerCase]
  generalize s.toList = ds at h
  induction ds with
  | nil => rfl
  | cons d ds ih =>
      obtain ⟨hd, hds⟩ := List.forall_mem_cons.mp h
      obtain ⟨hlt, hchar⟩ := digitChar_digit hd
      have hsingle := lowered _ hlt
      rw [hchar] at hsingle
      rw [List.flatMap_cons, hsingle, ih hds]
      rfl

/-- No alias is a number. -/
theorem not_alias_of_digits {s : String} (h : Canonical s.toList) : ¬isUnboundedAlias s := by
  rintro ⟨name, hname, hlower⟩
  rw [lowerCase_of_digits h.digits] at hlower
  have letters : ∀ name ∈ unboundedApprovalAliases, ¬name.toList.all Char.isDigit = true := by
    decide
  exact letters name hname (hlower ▸ List.all_eq_true.mpr h.digits)

/-- The two tests of the service on a decimal ask whether it is the text of a word. -/
theorem longer_or_above_iff {value : String} (h : Canonical value.toList) :
    uint256MaxText.length < value.length ∨
        value.length = uint256MaxText.length ∧ (!codeUnitLe value uint256MaxText) = true ↔
      uint256Max < digitsValue value.toList := by
  refine Iff.trans ?_ ((not_congr (atMost_word_iff h)).trans not_le)
  rw [not_or, not_and, Bool.not_eq_true', Bool.eq_false_iff]
  constructor
  · rintro (hlong | ⟨heq, habove⟩)
    · exact ⟨by omega, fun heq => absurd heq hlong.ne'⟩
    · exact ⟨by omega, fun _ => habove⟩
  · rintro ⟨hshort, habove⟩
    by_cases heq : value.length = uint256MaxText.length
    · exact .inr ⟨heq, habove heq⟩
    · exact .inl (by omega)

/-- The tests of the service, one after the other, are those of the schema. -/
theorem parseApprovalText_eq (value : String) :
    parseApprovalText value = parseApprovalMetadata (some (.str value)) := by
  rw [parseApprovalText, parseApprovalMetadata]
  refine ite_congr rfl (fun _ => ?_) fun _ => ?_
  · rw [decimalNumber_eq, uint256MaxText_eq, digitsValue_natText]
  by_cases h : Canonical value.toList
  · have hvalid : ¬(!IntentSchema.canonicalDecimal value) = true := by
      rw [IntentSchema.canonicalDecimal_iff.mpr h]
      decide
    rw [if_neg hvalid]
    by_cases hbound : digitsValue value.toList ≤ uint256Max
    · have htests := mt (longer_or_above_iff h).mp (not_lt.mpr hbound)
      rw [not_or] at htests
      rw [if_neg htests.1, if_neg htests.2,
        if_pos (tokenApprovalAmount_iff.mpr (isWordText_iff.mpr ⟨h, hbound⟩))]
    · have hword : ¬IntentSchema.tokenApprovalAmount (.str value) = true := fun hword =>
        hbound (isWordText_iff.mp (tokenApprovalAmount_iff.mp hword)).2
      rw [if_neg hword]
      rcases (longer_or_above_iff h).mpr (not_le.mp hbound) with hlong | habove
      · rw [if_pos hlong]
      · rw [if_pos habove, ite_self]
  · have hinvalid : (!IntentSchema.canonicalDecimal value) = true := by
      rw [Bool.not_eq_true', Bool.eq_false_iff]
      exact mt IntentSchema.canonicalDecimal_iff.mp h
    have hword : ¬IntentSchema.tokenApprovalAmount (.str value) = true := fun hword =>
      h (isWordText_iff.mp (tokenApprovalAmount_iff.mp hword)).1
    rw [if_pos hinvalid, if_neg hword]

theorem parseApprovalMetadata_iff {value : String} {n : Nat} :
    parseApprovalMetadata (some (.str value)) = some n ↔
      (isUnboundedAlias value ∧ n = uint256Max) ∨ (n ≤ uint256Max ∧ value = natText n) := by
  rw [parseApprovalMetadata]
  by_cases halias : isUnboundedAlias value
  · rw [if_pos (isUnboundedAlias_iff.mpr halias), Option.some.injEq]
    constructor
    · exact fun h => .inl ⟨halias, h.symm⟩
    · rintro (⟨-, h⟩ | ⟨-, rfl⟩)
      · exact h.symm
      · exact absurd halias (not_alias_of_digits (canonical_natText n))
  rw [if_neg (mt isUnboundedAlias_iff.mp halias), decimalNumber_eq]
  constructor
  · intro h
    split_ifs at h with hword
    obtain ⟨m, hm, rfl⟩ := tokenApprovalAmount_iff.mp hword
    rw [digitsValue_natText, Option.some.injEq] at h
    exact .inr ⟨h ▸ hm, h ▸ rfl⟩
  · rintro (⟨h, -⟩ | ⟨hn, rfl⟩)
    · exact absurd h halias
    · rw [if_pos (tokenApprovalAmount_iff.mpr ⟨n, hn, rfl⟩), digitsValue_natText]

/-- The policy compares decimals as numbers, and the schema, the service and the signer accept
the same texts: those of the numbers of a word. -/
theorem decimal_texts_agree (amount cap s : String) :
    (Policy.decimalStringExceeds (some (.str amount)) (some (.str cap)) = true ↔
      ∃ m n, amount = natText m ∧ cap = natText n ∧ n < m) ∧
    (IntentSchema.tokenApprovalAmount (.str s) = true ↔ IsWordText s) ∧
    (Signer.isUnsignedDecimal s = true ↔ IsWordText s) ∧
    parseApprovalText s = parseApprovalMetadata (some (.str s)) ∧
    ∀ n, parseApprovalText s = some n ↔
      (isUnboundedAlias s ∧ n = uint256Max) ∨ (n ≤ uint256Max ∧ s = natText n) := by
  refine ⟨?_, tokenApprovalAmount_iff, isUnsignedDecimal_iff, parseApprovalText_eq s, fun n => ?_⟩
  · rw [Policy.decimalStringExceeds_iff]
    constructor
    · rintro ⟨hamount, hcap, habove⟩
      exact ⟨_, _, hamount.eq_natText, hcap.eq_natText, (hcap.shortlex_iff hamount).mp habove⟩
    · rintro ⟨m, n, rfl, rfl, hlt⟩
      exact ⟨canonical_natText m, canonical_natText n, shortlex_natText.mpr hlt⟩
  · rw [parseApprovalText_eq]
    exact parseApprovalMetadata_iff

end TradingGuardrails
