import TradingGuardrails.Evm.Decoder
import TradingGuardrails.Service.Content

/-!
Calldata as the guardrail service reads it, by characters of its lower case, and as the
connector cuts it, by code units. Both see the same selector and the same amount.
-/
namespace TradingGuardrails

open Text

namespace Units

def lowerUnit (n : Nat) : Nat :=
  if 65 ≤ n ∧ n ≤ 90 then n + 32 else n

theorem lower_append (u v : Units) : lower (u ++ v) = lower u ++ lower v :=
  List.flatMap_append

/-- A text whose lower case has none of these letters is as long as its lower case. -/
theorem lower_eq_map {u : Units} (h : ∀ n ∈ lower u, n ≠ 105 ∧ n ≠ 107) :
    lower u = u.map lowerUnit := by
  induction u with
  | nil => rfl
  | cons n u ih =>
      rw [show n :: u = [n] ++ u from rfl, lower_append] at h ⊢
      rw [ih fun m hm => h m (List.mem_append_right _ hm), List.map_append]
      congr 1
      have hn := fun m hm => h m (List.mem_append_left _ hm)
      simp only [lower, List.flatMap_cons, List.flatMap_nil, List.append_nil, beq_iff_eq,
        Bool.and_eq_true, decide_eq_true_eq] at hn ⊢
      by_cases h304 : n = 304
      · rw [if_pos h304] at hn
        exact absurd rfl (hn 105 (by simp)).1
      · by_cases h8490 : n = 8490
        · rw [if_neg h304, if_pos h8490] at hn
          exact absurd rfl (hn 107 (by simp)).2
        · rw [if_neg h304, if_neg h8490]
          simp only [lowerUnit, List.map_cons, List.map_nil]
          split <;> rfl

/-- A word without these letters that starts the lower case comes from as many units. -/
theorem lower_take_of_prefix {word u : Units} (hword : ∀ n ∈ word, n ≠ 105 ∧ n ≠ 107)
    (h : word <+: lower u) : lower (u.take word.length) = word := by
  induction word generalizing u with
  | nil => rfl
  | cons w word ih =>
      cases u with
      | nil => simp [lower] at h
      | cons n u =>
          have hw := hword w List.mem_cons_self
          rw [show n :: u = [n] ++ u from rfl, lower_append] at h
          have hone : lower [n] = [w] := by
            have hcases : lower [n] = [105, 775] ∨ lower [n] = [107] ∨ ∃ m, lower [n] = [m] := by
              simp only [lower, List.flatMap_cons, List.flatMap_nil, List.append_nil]
              split_ifs
              · exact .inl rfl
              · exact .inr (.inl rfl)
              · exact .inr (.inr ⟨_, rfl⟩)
              · exact .inr (.inr ⟨_, rfl⟩)
            rcases hcases with heq | heq | ⟨m, heq⟩ <;> rw [heq] at h
            · exact absurd (List.cons_prefix_cons.mp h).1 hw.1
            · exact absurd (List.cons_prefix_cons.mp h).1 hw.2
            · rw [heq, (List.cons_prefix_cons.mp h).1]
          rw [hone] at h
          have htail := ih (fun m hm => hword m (List.mem_cons_of_mem _ hm))
            (List.cons_prefix_cons.mp h).2
          rw [List.length_cons, List.take_succ_cons, show n :: u.take word.length =
            [n] ++ u.take word.length from rfl, lower_append, hone, htail]
          rfl

theorem digit_lowerUnit (n : Nat) : digit (lowerUnit n) = digit n := by
  simp only [digit, lowerUnit]
  split_ifs <;> first | rfl | omega

theorem digit_lt {n d : Nat} (h : digit n = some d) : d < 16 := by
  simp only [digit] at h
  split_ifs at h <;> (cases h; omega)

theorem digits_map_lowerUnit (base : Nat) (u : Units) :
    digits base (u.map lowerUnit) = digits base u := by
  simp only [digits, List.isEmpty_map, List.foldlM_map, digit_lowerUnit]

/-- A number of hexadecimal digits is below the power of sixteen for their number. -/
theorem digits_lt {u : Units} {n : Nat} (h : digits 16 u = some n) : n < 16 ^ u.length := by
  have fold : ∀ (u : Units) (value n : Nat), u.foldlM (fun value n =>
      (digit n).bind fun d => if d < 16 then some (value * 16 + d) else none) value = some n →
      n < (value + 1) * 16 ^ u.length := by
    intro u
    induction u with
    | nil =>
        intro value n h
        cases h
        simp
    | cons m u ih =>
        intro value n h
        rw [List.foldlM_cons] at h
        cases hd : digit m with
        | none => rw [hd] at h; cases h
        | some d =>
            have hlt := digit_lt hd
            simp only [hd, Option.bind_some, if_pos hlt, Option.bind_eq_bind] at h
            have hn := ih _ _ h
            calc n < (value * 16 + d + 1) * 16 ^ u.length := hn
              _ ≤ ((value + 1) * 16) * 16 ^ u.length :=
                Nat.mul_le_mul_right _ (by omega)
              _ = (value + 1) * 16 ^ (m :: u).length := by
                rw [List.length_cons, Nat.pow_succ, Nat.mul_assoc, Nat.mul_comm 16]
  unfold digits at h
  split at h
  · cases h
  · simpa using fold u 0 n h

theorem digits_all {u : Units} {n : Nat} (h : digits 16 u = some n) :
    u ≠ [] ∧ ∀ m ∈ u, (digit m).isSome = true := by
  have fold : ∀ (u : Units) (value n : Nat), u.foldlM (fun value n =>
      (digit n).bind fun d => if d < 16 then some (value * 16 + d) else none) value = some n →
      ∀ m ∈ u, (digit m).isSome = true := by
    intro u
    induction u with
    | nil =>
        intro _ _ _ m hm
        cases hm
    | cons k u ih =>
        intro value n h m hm
        rw [List.foldlM_cons] at h
        cases hd : digit k with
        | none => rw [hd] at h; cases h
        | some d =>
            simp only [hd, Option.bind_some, if_pos (digit_lt hd), Option.bind_eq_bind] at h
            rcases List.mem_cons.mp hm with rfl | hm
            · rw [hd]; rfl
            · exact ih _ _ h m hm
  unfold digits at h
  split at h
  · cases h
  · rename_i hne
    exact ⟨by simpa using hne, fold u 0 n h⟩

theorem not_blank {n : Nat} (h : (digit n).isSome = true) : blank n = false := by
  have small : ∀ n < 103, (digit n).isSome = true → blank n = false := by decide
  refine small n ?_ h
  simp only [digit] at h
  split_ifs at h
  all_goals first | omega | cases h

/-- `BigInt` of digits after `0x` is the number that they write. -/
theorem bigInt_hex {u : Units} {n : Nat} (h : digits 16 u = some n) :
    bigInt (codeUnits "0x" ++ u) = some (n : Int) := by
  obtain ⟨hne, hdigits⟩ := digits_all h
  have hlead : codeUnits "0x" = [48, 120] := by decide
  have htrim : trim (codeUnits "0x" ++ u) = codeUnits "0x" ++ u := by
    obtain ⟨last, hlast⟩ : ∃ last, u.getLast? = some last :=
      Option.isSome_iff_exists.mp (List.getLast?_isSome.mpr hne)
    have hblank : blank last = false := not_blank (hdigits last (List.mem_of_getLast? hlast))
    obtain ⟨front, rfl⟩ : ∃ front, u = front ++ [last] := by
      exact ⟨u.dropLast, (List.dropLast_append_getLast? last hlast).symm⟩
    have hstart : blank 48 = false := by decide
    rw [hlead]
    simp only [trim, List.cons_append, List.nil_append, List.dropWhile_cons, hstart,
      Bool.false_eq_true, if_false]
    rw [← List.cons_append, ← List.cons_append, List.reverse_append, List.reverse_singleton,
      List.singleton_append, List.dropWhile_cons, hblank, if_neg Bool.false_ne_true,
      List.reverse_cons, List.reverse_reverse]
  have hstarts : startsWith "0x" (codeUnits "0x" ++ u) = true := by
    simp [startsWith]
  simp only [bigInt, htrim, hstarts, Bool.true_or, if_true]
  rw [hlead]
  simp [h]

end Units
def lowerChar (c : Char) : List Char :=
  if c.toNat == 304 then ['i', '\u0307'] else if c.toNat == 8490 then ['k'] else [c.toLower]

theorem lowerCase_eq (s : String) : lowerCase s = s.toList.flatMap lowerChar := rfl

theorem toNat_toLower (c : Char) :
    c.toLower.toNat = if 65 ≤ c.toNat ∧ c.toNat ≤ 90 then c.toNat + 32 else c.toNat := by
  have hupper : (c.val ≥ 'A'.val ∧ c.val ≤ 'Z'.val) ↔ 65 ≤ c.toNat ∧ c.toNat ≤ 90 := by
    simp only [ge_iff_le, UInt32.le_iff_toNat_le]
    rfl
  by_cases h : 65 ≤ c.toNat ∧ c.toNat ≤ 90
  · rw [if_pos h, show c.toLower = _ from dif_pos (hupper.mpr h)]
    change (c.val + 32).toNat = c.val.toNat + 32
    have h90 : c.val.toNat ≤ 90 := h.2
    rw [UInt32.toNat_add]
    exact Nat.mod_eq_of_lt (by simp only [UInt32.reduceToNat]; omega)
  · rw [if_neg h, show c.toLower = _ from dif_neg (mt hupper.mp h)]

theorem charUnits_ascii {c : Char} (h : c.toNat < 65536) : charUnits c = [c.toNat] := if_pos h

theorem lower_charUnits (c : Char) :
    Units.lower (charUnits c) = (lowerChar c).flatMap charUnits := by
  unfold lowerChar
  by_cases h304 : c.toNat = 304
  · simp [h304, charUnits, Units.lower]
  · by_cases h8490 : c.toNat = 8490
    · simp [h8490, charUnits, Units.lower]
    · have hlower := toNat_toLower c
      simp only [beq_iff_eq, h304, h8490, if_false, List.flatMap_cons, List.flatMap_nil,
        List.append_nil]
      unfold charUnits
      by_cases hbmp : c.toNat < 65536
      · have hbmp' : c.toLower.toNat < 65536 := by
          rw [hlower]
          split <;> omega
        rw [if_pos hbmp, if_pos hbmp', hlower]
        simp only [Units.lower, List.flatMap_cons, List.flatMap_nil, List.append_nil, beq_iff_eq,
          h304, h8490, if_false, Bool.and_eq_true, decide_eq_true_eq]
        split <;> rfl
      · have hsame : c.toLower.toNat = c.toNat := by
          rw [hlower]
          exact if_neg (by omega)
        have hvalid : c.toNat.isValidChar := c.valid
        simp only [Nat.isValidChar] at hvalid
        rw [if_neg hbmp, hsame, if_neg hbmp]
        simp only [Units.lower, List.flatMap_cons, List.flatMap_nil, List.append_nil, beq_iff_eq,
          Bool.and_eq_true, decide_eq_true_eq]
        rw [if_neg (by omega), if_neg (by omega), if_neg (by omega), if_neg (by omega),
          if_neg (by omega), if_neg (by omega)]
        rfl

/-- Lower case by units is lower case by characters. -/
theorem lower_codeUnits (s : String) :
    Units.lower (codeUnits s) = (lowerCase s).flatMap charUnits := by
  rw [codeUnits_eq, lowerCase_eq]
  induction s.toList with
  | nil => rfl
  | cons c cs ih =>
      simp only [List.flatMap_cons, List.flatMap_append, Units.lower_append, lower_charUnits, ih]

theorem flatMap_charUnits_ascii {cs : List Char} (h : ∀ c ∈ cs, c.toNat < 128) :
    cs.flatMap charUnits = cs.map Char.toNat := by
  induction cs with
  | nil => rfl
  | cons c cs ih =>
      have hc := h c List.mem_cons_self
      rw [List.flatMap_cons, List.map_cons, charUnits_ascii (by omega),
        ih fun d hd => h d (List.mem_cons_of_mem _ hd)]
      rfl

theorem hexDigitValue_eq (c : Char) (h : c.toNat < 128) :
    hexDigitValue c = Units.digit c.toNat := by
  have all : ∀ n < 128, hexDigitValue (Char.ofNat n) = Units.digit n := by decide
  have hof : Char.ofNat c.toNat = c := Char.ofNat_toNat c
  have hc := all c.toNat h
  rwa [hof] at hc

theorem hexNumber_eq {cs : List Char} (hne : cs ≠ []) (h : ∀ c ∈ cs, c.toNat < 128) :
    hexNumber cs = Units.digits 16 (cs.map Char.toNat) := by
  have fold : ∀ (cs : List Char) (value : Nat), (∀ c ∈ cs, c.toNat < 128) →
      cs.foldlM (fun n c => (hexDigitValue c).map fun d => n * 16 + d) value =
        (cs.map Char.toNat).foldlM (fun value n =>
          (Units.digit n).bind fun d => if d < 16 then some (value * 16 + d) else none) value := by
    intro cs
    induction cs with
    | nil => intro _ _; rfl
    | cons c cs ih =>
        intro value h
        rw [List.foldlM_cons, List.map_cons, List.foldlM_cons,
          hexDigitValue_eq c (h c List.mem_cons_self)]
        cases hd : Units.digit c.toNat with
        | none => rfl
        | some d =>
            simp only [Option.map_some, Option.bind_some, if_pos (Units.digit_lt hd),
              Option.bind_eq_bind]
            exact ih _ fun d hd => h d (List.mem_cons_of_mem _ hd)
  have hempty : (cs.map Char.toNat).isEmpty = false := by simpa using hne
  simp only [hexNumber, Units.digits, hempty, Bool.false_eq_true, if_false, fold cs 0 h]

theorem hexDigitLower_ascii {c : Char} (h : hexDigitLower c = true) :
    c.toNat < 128 ∧ c.toNat ≠ 105 ∧ c.toNat ≠ 107 := by
  simp only [hexDigitLower, Bool.or_eq_true, Bool.and_eq_true, decide_eq_true_eq,
    Char.le_def, UInt32.le_iff_toNat_le] at h
  have hnat : c.val.toNat = c.toNat := rfl
  have h0 : '0'.val.toNat = 48 := rfl
  have h9 : '9'.val.toNat = 57 := rfl
  have ha : 'a'.val.toNat = 97 := rfl
  have hf : 'f'.val.toNat = 102 := rfl
  omega

/-- What the service takes for the amount, the connector takes for it as well. -/
theorem extract_units {s : String} {n : Nat}
    (h : extractErc20ApprovalAmount (lowerCase s) = some n) :
    (codeUnits s).length = 138 ∧ Units.digits 16 ((codeUnits s).drop 74) = some n := by
  unfold extractErc20ApprovalAmount at h
  split_ifs at h with hshape
  obtain ⟨hlength, hlead, hhex⟩ := hshape
  have hascii : ∀ c ∈ lowerCase s, c.toNat < 128 ∧ c.toNat ≠ 105 ∧ c.toNat ≠ 107 := by
    intro c hc
    rw [← List.take_append_drop 2 (lowerCase s), List.mem_append] at hc
    rcases hc with hc | hc
    · rw [hlead] at hc
      rcases List.mem_cons.mp hc with rfl | hc
      · decide
      · rw [List.mem_singleton.mp hc]
        decide
    · exact hexDigitLower_ascii (List.all_eq_true.mp hhex c hc)
  have hlower : Units.lower (codeUnits s) = (lowerCase s).map Char.toNat := by
    rw [lower_codeUnits, flatMap_charUnits_ascii fun c hc => (hascii c hc).1]
  have hmap : Units.lower (codeUnits s) = (codeUnits s).map Units.lowerUnit := by
    refine Units.lower_eq_map fun m hm => ?_
    rw [hlower] at hm
    obtain ⟨c, hc, rfl⟩ := List.mem_map.mp hm
    exact (hascii c hc).2
  rw [hmap] at hlower
  have hlengths := congrArg List.length hlower
  rw [List.length_map, List.length_map, hlength] at hlengths
  refine ⟨hlengths, ?_⟩
  have hrest : (lowerCase s).drop 74 ≠ [] := by
    intro hnil
    have := congrArg List.length hnil
    rw [List.length_drop, hlength] at this
    cases this
  calc
    Units.digits 16 ((codeUnits s).drop 74) =
        Units.digits 16 (((codeUnits s).map Units.lowerUnit).drop 74) := by
      rw [← List.map_drop, Units.digits_map_lowerUnit]
    _ = Units.digits 16 (((lowerCase s).drop 74).map Char.toNat) := by
      rw [hlower, List.map_drop]
    _ = hexNumber ((lowerCase s).drop 74) :=
      (hexNumber_eq hrest fun c hc => (hascii c (List.mem_of_mem_drop hc)).1).symm
    _ = some n := h

/-- ASCII characters at the start of the units are at the start of the text. -/
theorem isPrefixOf_of_units {word cs : List Char} {rest : Units}
    (hword : ∀ c ∈ word, c.toNat < 128)
    (h : cs.flatMap charUnits = word.map Char.toNat ++ rest) : word.isPrefixOf cs = true := by
  induction word generalizing cs with
  | nil => rfl
  | cons w word ih =>
      cases cs with
      | nil => cases h
      | cons c cs =>
          have hw := hword w List.mem_cons_self
          rw [List.flatMap_cons, List.map_cons, List.cons_append,
            show w.toNat :: (word.map Char.toNat ++ rest) =
              charUnits w ++ (word.map Char.toNat ++ rest) by
                rw [charUnits_ascii (by omega)]; rfl] at h
          obtain ⟨rfl, hrest⟩ := charUnits_inj h
          rw [List.isPrefixOf_cons_cons, beq_self_eq_true, Bool.true_and]
          exact ih (fun d hd => hword d (List.mem_cons_of_mem _ hd)) hrest

/-- The selector is found by characters where it is found by units. -/
theorem hasApprovalSelector {s : String}
    (h : codeUnits Evm.erc20ApproveSelector <+: Units.lower (codeUnits s)) :
    erc20ApproveSelector.isPrefixOf (lowerCase s) = true := by
  obtain ⟨rest, hrest⟩ := h
  rw [lower_codeUnits] at hrest
  have hword : codeUnits Evm.erc20ApproveSelector = erc20ApproveSelector.map Char.toNat := by
    decide
  rw [hword] at hrest
  have hascii : erc20ApproveSelector.all (fun c => decide (c.toNat < 128)) = true := by
    decide
  exact isPrefixOf_of_units (by simpa using hascii) hrest.symm

end TradingGuardrails
