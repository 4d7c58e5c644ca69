import TradingGuardrails.Policy.Envelope

/-!
How a decision answers to larger magnitudes. A larger number makes denials and escalations
fire that did not, and stops allow entries from matching; the one escalation that a larger
leverage switches off is replaced by a denial.
-/
namespace TradingGuardrails
namespace Policy

open Text Rego

def severity : Outcome → Nat
  | .allow => 0
  | .needsHuman => 1
  | .deny => 2

/-- The second input has larger or equal magnitudes, and is the first one otherwise. -/
structure Riskier (i j : PolicyInput) : Prop where
  same : j = { i with
    maxNotionalUsd := j.maxNotionalUsd
    leverage := j.leverage
    projectedDailyNotionalUsd := j.projectedDailyNotionalUsd
    dailyRealizedLossUsd := j.dailyRealizedLossUsd }
  notional : NotLess i.maxNotionalUsd j.maxNotionalUsd
  leverage : NotLess i.leverage j.leverage
  dailyNotional : NotLess i.projectedDailyNotionalUsd j.projectedDailyNotionalUsd
  dailyLoss : NotLess i.dailyRealizedLossUsd j.dailyRealizedLossUsd

def NoHumanEntry (policy : Json) : Prop :=
  ∀ entry ∈ entries policy, Allowlist.field entry "effect" = some (.str "allow") →
    Allowlist.condition entry "requiresHumanApproval" ≠ some (.bool true)

section

variable {policy : Json} {i j : PolicyInput} {lower : String → String}

theorem above_of_riskier {x x' : Option ℚ} (hx : NotLess x x') {cap : Option Json}
    (h : above x' cap = false) : above x cap = false := by
  cases habove : above x cap with
  | false => rfl
  | true => rw [above_mono hx habove] at h; cases h

/-- Denials that do not fire for the riskier input do not fire for the other one. -/
theorem no_denial_of_riskier (hij : Riskier i j) (h : hardDenyReasons policy j lower = []) :
    hardDenyReasons policy i lower = [] := by
  obtain ⟨hsame, -, hleverage, -, -⟩ := hij
  rw [hsame] at h
  have quiet := (no_denial_iff policy _ lower).mp h
  refine (no_denial_iff policy i lower).mpr ?_
  simp only [denyRules, List.forall_mem_cons, Bool.and_eq_false_imp] at quiet ⊢
  obtain ⟨h₁, h₂, h₃, h₄, h₅, hcap, hrest⟩ := quiet
  exact ⟨h₁, h₂, h₃, h₄, h₅, fun hmode => above_of_riskier hleverage (hcap hmode), hrest⟩

theorem notionalOk_of_riskier (hij : Riskier i j) {entry : Json}
    (h : Allowlist.notionalOk entry j = true) : Allowlist.notionalOk entry i = true := by
  simp only [Allowlist.notionalOk, Bool.or_eq_true, Bool.and_eq_true] at h ⊢
  exact h.imp_right fun hbound => ⟨hbound.1, atMost_anti hij.notional hbound.2⟩

theorem leverageOk_of_riskier (hij : Riskier i j) {entry : Json}
    (h : Allowlist.leverageOk entry j = true) : Allowlist.leverageOk entry i = true := by
  simp only [Allowlist.leverageOk, Bool.or_eq_true, Bool.and_eq_true] at h ⊢
  rcases h with (hunset | ⟨⟨hset, hmissing⟩, hone⟩) | ⟨hset, hle⟩
  · exact .inl (.inl hunset)
  · refine .inl (.inr ⟨⟨hset, ?_⟩, hone⟩)
    rw [← Option.not_isSome, hij.leverage.isSome, Option.not_isSome]
    exact hmissing
  · exact .inr ⟨hset, atMost_anti hij.leverage hle⟩

/-- An entry that lets the riskier input through lets the other one through. -/
theorem allows_of_riskier (hij : Riskier i j) {entry : Json}
    (h : Allowlist.allows entry j = true) : Allowlist.allows entry i = true := by
  simp only [Allowlist.allows, Bool.and_eq_true, conditionMatches_iff] at h ⊢
  obtain ⟨haddresses, henvironment, hmode, hnotional, hleverage, hhuman⟩ := h
  refine ⟨?_, ?_, ?_, notionalOk_of_riskier hij hnotional, leverageOk_of_riskier hij hleverage,
    hhuman⟩
  · rw [hij.same] at haddresses
    exact haddresses
  · rw [hij.same] at henvironment
    exact henvironment
  · rw [hij.same] at hmode
    exact hmode

theorem allowReasons_of_riskier (hij : Riskier i j) (h : allowReasons policy j ≠ []) :
    allowReasons policy i ≠ [] := by
  obtain ⟨reason, hreason⟩ := List.exists_mem_of_ne_nil _ h
  rw [allowReasons, mem_set, List.mem_filterMap] at hreason
  obtain ⟨entry, hentry, hname⟩ := hreason
  obtain ⟨hin, hallows⟩ := List.mem_filter.mp hentry
  have hi : reason ∈ allowReasons policy i := by
    rw [allowReasons, mem_set, List.mem_filterMap]
    exact ⟨entry, List.mem_filter.mpr ⟨hin, allows_of_riskier hij hallows⟩, hname⟩
  exact List.ne_nil_of_mem hi

/-- A leverage above the default cap stays above it, and is within the hard cap where no
denial fires. -/
theorem leverage_quiet_of_riskier (hij : Riskier i j) {default hard : Option Json}
    (hhard : above j.leverage hard = false)
    (h : (above j.leverage default && atMost j.leverage hard) = false) :
    (above i.leverage default && atMost i.leverage hard) = false := by
  cases hbetween : above i.leverage default && atMost i.leverage hard with
  | false => rfl
  | true =>
      obtain ⟨habove, hwithin⟩ := Bool.and_eq_true_iff.mp hbetween
      have hj : above j.leverage default = true := above_mono hij.leverage habove
      rw [hj, Bool.true_and] at h
      have hgiven : i.leverage.isSome = true ∧ hard.isSome = true := by
        revert hwithin
        cases i.leverage <;> cases hard <;> simp [atMost]
      rcases above_or_atMost (hij.leverage.isSome ▸ hgiven.1) hgiven.2 with habove' | hwithin'
      · rw [habove'] at hhard; cases hhard
      · rw [hwithin'] at h; cases h

/-- Where the riskier input is neither denied nor escalated, the other one is not escalated
either. -/
theorem no_escalation_of_riskier (hentries : NoHumanEntry policy) (hij : Riskier i j)
    (hdeny : hardDenyReasons policy j lower = []) (h : escalationReasons policy j = []) :
    escalationReasons policy i = [] := by
  have hallow := allowReasons_of_riskier hij (quiet_of_no_escalation h).1
  have hhard := (no_denial_iff policy j lower).mp hdeny
  simp only [denyRules, List.forall_mem_cons] at hhard
  obtain ⟨-, -, -, -, -, hcap, -⟩ := hhard
  have quiet := (no_escalation_iff policy j).mp h
  refine (no_escalation_iff policy i).mpr ?_
  simp only [escalationRules, List.forall_mem_cons, List.not_mem_nil, IsEmpty.forall_iff,
    implies_true, and_true] at quiet ⊢
  obtain ⟨hverdict, hrisk, hmainnet, hnotional, hdaily, hloss, hleverage, -, -⟩ := quiet
  have hmode : j.accountMode = i.accountMode := by rw [hij.same]
  have haction : j.action = i.action := by rw [hij.same]
  have hlimits : ∀ key, limit policy j key = limit policy i key := by
    intro key
    rw [hij.same]
    rfl
  have hdailyLimit : dailyNotionalLimit policy j = dailyNotionalLimit policy i := by
    rw [hij.same]
    rfl
  simp only [hmode, haction, hlimits, hdailyLimit] at hnotional hdaily hloss hleverage hcap
  refine ⟨?_, ?_, ?_, ?_, ?_, ?_, ?_, ?_, ?_⟩
  · rw [hij.same] at hverdict
    exact hverdict
  · rw [hij.same] at hrisk
    exact hrisk
  · rw [hij.same] at hmainnet
    exact hmainnet
  · rw [Bool.and_eq_false_imp] at hnotional ⊢
    exact fun hset => above_of_riskier hij.notional (hnotional hset)
  · rw [Bool.and_eq_false_imp] at hdaily ⊢
    exact fun hplace => above_of_riskier hij.dailyNotional (hdaily hplace)
  · rw [Bool.and_eq_false_imp] at hloss ⊢
    exact fun hset => above_of_riskier hij.dailyLoss (hloss hset)
  · rw [Bool.and_assoc, Bool.and_eq_false_imp] at hleverage ⊢
    rw [Bool.and_eq_false_imp] at hcap
    intro hset
    obtain ⟨hfutures, -⟩ := Bool.and_eq_true_iff.mp hset
    exact leverage_quiet_of_riskier hij (hcap hfutures) (hleverage hset)
  · simpa using hallow
  · rw [List.any_eq_false]
    intro entry hin hhuman
    simp only [requiresHuman, Allowlist.addresses, Bool.and_eq_true, isText_iff,
      beq_iff_eq] at hhuman
    exact hentries entry hin hhuman.1.1.1.1.1.1 hhuman.1.2

end

/-- The decision for the second input is at least as strict as for the first one. -/
def NoMilder (policy : Json) (i j : PolicyInput) (lower : String → String) : Prop :=
  ∃ a b, decision policy i lower = some a ∧ decision policy j lower = some b ∧
    severity a ≤ severity b

/-- A riskier input never gets a milder decision, except where the missing verdict of a
reviewer denies the safer input by default, and an escalation comes first for the riskier
one. -/
theorem noMilder_iff {policy : Json} {i j : PolicyInput} {lower : String → String}
    (hentries : NoHumanEntry policy) (hij : Riskier i j) :
    NoMilder policy i j lower ↔
      i.reviewerVerdict ≠ none ∨ escalationReasons policy i ≠ [] ∨
        hardDenyReasons policy j lower ≠ [] ∨ escalationReasons policy j = [] := by
  have hverdict : j.reviewerVerdict = i.reviewerVerdict := by rw [hij.same]
  simp only [NoMilder, decision_eq, Option.some.injEq, hverdict]
  by_cases hdeny : hardDenyReasons policy j lower = []
  · have hdenyi := no_denial_of_riskier hij hdeny
    by_cases hescalation : escalationReasons policy j = []
    · have hescalationi := no_escalation_of_riskier hentries hij hdeny hescalation
      simp [hdeny, hdenyi, hescalation, hescalationi]
    · by_cases hescalationi : escalationReasons policy i = []
      · have hgiven := (quiet_of_no_escalation hescalationi).2.2
        cases hcase : i.reviewerVerdict with
        | none => simp [hdeny, hdenyi, hescalation, hescalationi, severity]
        | some verdict =>
            simp [hdeny, hdenyi, hescalation, hescalationi, severity, hgiven verdict hcase]
      · simp [hdeny, hdenyi, hescalation, hescalationi, severity]
  · have hstrict : ∀ outcome, severity outcome ≤ severity .deny := by
      intro outcome
      cases outcome <;> decide
    simp [hdeny, hstrict]

def magnitudeLimits : List String := [
  "max_leverage", "default_max_leverage", "auto_max_notional_usd", "auto_max_daily_notional_usd",
  "futures_auto_max_daily_notional_usd", "auto_max_daily_loss_usd"]

def largeSpotOrder : PolicyInput :=
  { spotOrder with maxNotionalUsd := some 20 }

theorem riskier_largeSpotOrder (verdict : Option String) :
    Riskier { spotOrder with reviewerVerdict := verdict }
      { largeSpotOrder with reviewerVerdict := verdict } where
  same := rfl
  notional := .inr ⟨8, 20, rfl, rfl, by decide +kernel⟩
  leverage := .inl ⟨rfl, rfl⟩
  dailyNotional := .inl ⟨rfl, rfl⟩
  dailyLoss := .inl ⟨rfl, rfl⟩

theorem noHumanEntry_canaryPolicy : NoHumanEntry canaryPolicy := by
  unfold NoHumanEntry
  decide +kernel

theorem noMilder_iff_largeSpotOrder :
    NoMilder canaryPolicy spotOrder largeSpotOrder id :=
  (noMilder_iff noHumanEntry_canaryPolicy (riskier_largeSpotOrder (some "approve"))).mpr
    (.inl (Option.some_ne_none _))

/-- Without a verdict the small order is denied, and the large one only escalated. -/
theorem milder_without_verdict :
    ¬ ∀ policy i j,
      (∀ key ∈ magnitudeLimits, ∀ v, limit policy i key = some v → ∃ n, v = .num n) →
      NoHumanEntry policy → Riskier i j → NoMilder policy i j id := by
  intro h
  have hlimits : ∀ key ∈ magnitudeLimits, ∀ v,
      limit canaryPolicy { spotOrder with reviewerVerdict := none } key = some v →
        ∃ n, v = .num n := by
    simp only [magnitudeLimits, List.forall_mem_cons]
    refine ⟨?_, ?_, ?_, ?_, ?_, ?_, by simp⟩ <;>
    · intro v hv
      cases hv
      exact ⟨_, rfl⟩
  obtain ⟨a, b, ha, hb, hab⟩ := h canaryPolicy { spotOrder with reviewerVerdict := none }
    { largeSpotOrder with reviewerVerdict := none } hlimits noHumanEntry_canaryPolicy
    (riskier_largeSpotOrder none)
  have hsmall : decision canaryPolicy { spotOrder with reviewerVerdict := none } id =
      some .deny := by decide +kernel
  have hlarge : decision canaryPolicy { largeSpotOrder with reviewerVerdict := none } id =
      some .needsHuman := by decide +kernel
  rw [hsmall, Option.some.injEq] at ha
  rw [hlarge, Option.some.injEq] at hb
  subst ha hb
  exact absurd hab (by decide)

end Policy
end TradingGuardrails
