import TradingGuardrails.Policy.Rules

/-!
What an automatic execution is bound to. A decision to allow is the silence of every
denial and every escalation, and each of these rules, when silent, gives one bound.
-/
namespace TradingGuardrails
namespace Policy

open Text Rego

theorem fired_eq_nil {rules : List PolicyRule} :
    fired rules = [] ↔ ∀ rule ∈ rules, rule.fires = false := by
  simp only [fired, set_eq_nil, List.map_eq_nil_iff, List.filter_eq_nil_iff, Bool.not_eq_true]

section

variable (policy : Json) (input : PolicyInput) (lower : String → String)

theorem no_denial_iff : hardDenyReasons policy input lower = [] ↔
    ∀ rule ∈ denyRules policy input lower, rule.fires = false :=
  fired_eq_nil

theorem no_escalation_iff : escalationReasons policy input = [] ↔
    ∀ rule ∈ escalationRules policy input, rule.fires = false :=
  fired_eq_nil

variable {policy input lower}

/-- Without escalations there is an allow entry, the risk is low, and no other verdict than
an approval was given. -/
theorem quiet_of_no_escalation (h : escalationReasons policy input = []) :
    allowReasons policy input ≠ [] ∧ input.reviewerRiskLevel = some "low" ∧
      ∀ verdict ∈ input.reviewerVerdict, verdict = "approve" := by
  have quiet := (no_escalation_iff policy input).mp h
  simp only [escalationRules, List.forall_mem_cons] at quiet
  obtain ⟨hverdict, hrisk, -, -, -, -, -, hallow, -, -⟩ := quiet
  refine ⟨?_, by simpa using hrisk, ?_⟩
  · simpa using hallow
  · intro verdict hin
    rw [Option.mem_def] at hin
    simpa [hin] using hverdict

/-- The decision, as one choice: its bodies exclude each other. -/
theorem decision_eq : decision policy input lower = some (
    if hardDenyReasons policy input lower ≠ [] then .deny
    else if escalationReasons policy input ≠ [] then .needsHuman
    else if input.reviewerVerdict = some "approve" then .allow
    else .deny) := by
  unfold decision decisionBodies
  by_cases hdeny : hardDenyReasons policy input lower = []
  · by_cases hescalation : escalationReasons policy input = []
    · obtain ⟨hallow, hrisk, -⟩ := quiet_of_no_escalation hescalation
      by_cases happroved : input.reviewerVerdict = some "approve"
      · simp [hdeny, hescalation, hallow, hrisk, happroved, reviewerApproved, reviewerLowRisk,
          complete]
      · simp [hdeny, hescalation, happroved, reviewerApproved, complete]
    · simp [hdeny, hescalation, complete]
  · simp [hdeny, complete]

theorem decision_needsHuman_iff : decision policy input lower = some .needsHuman ↔
    hardDenyReasons policy input lower = [] ∧ escalationReasons policy input ≠ [] := by
  rw [decision_eq]
  split_ifs with hdeny hescalation happroved <;> simp_all

theorem decision_allow_iff : decision policy input lower = some .allow ↔
    hardDenyReasons policy input lower = [] ∧ escalationReasons policy input = [] ∧
      input.reviewerVerdict = some "approve" := by
  rw [decision_eq]
  split_ifs with hdeny hescalation happroved <;> simp_all

end

def Within (x : Option ℚ) (cap : Option Json) : Prop :=
  ∀ q, x = some q → ∃ n, cap = some (.num n) ∧ q ≤ n.value

theorem within_of_not_above {x : Option ℚ} {cap : Option Json} {n : Numeral}
    (hcap : cap = some (.num n)) (h : above x cap = false) : Within x cap := by
  rintro q rfl
  subst hcap
  exact ⟨n, rfl, le_of_not_above h⟩

/-- An allow entry that an input meets, with every condition that it sets. -/
structure Meets (entry : Json) (input : PolicyInput) : Prop where
  effect : Allowlist.field entry "effect" = some (.str "allow")
  principal : Allowlist.field entry "principal" = some (.str "*") ∨
    Allowlist.field entry "principal" = some (.str input.principal)
  action : Allowlist.field entry "action" = some (.str "*") ∨
    Allowlist.field entry "action" = some (.str input.action)
  resource : ∃ resource, Allowlist.field entry "resource" = some (.str resource) ∧
    (resource = "*" ∨ resource = input.resource ∨
      (endsWith resource ":" = true ∧ startsWith input.resource resource = true))
  environment : holds (Allowlist.condition entry "environment") = true →
    Allowlist.condition entry "environment" = some (.str input.environment.text)
  accountMode : holds (Allowlist.condition entry "accountMode") = true →
    ∃ mode, input.accountMode = some mode ∧
      Allowlist.condition entry "accountMode" = some (.str mode)
  notional : holds (Allowlist.condition entry "maxNotionalUsd") = true →
    atMost input.maxNotionalUsd (Allowlist.condition entry "maxNotionalUsd") = true
  /-- A missing leverage counts as one. -/
  leverage : holds (Allowlist.condition entry "maxLeverage") = true →
    atMost (some (input.leverage.getD 1)) (Allowlist.condition entry "maxLeverage") = true
  human : Allowlist.condition entry "requiresHumanApproval" = none ∨
    Allowlist.condition entry "requiresHumanApproval" = some (.bool false)

theorem isText_iff {value : Option Json} {s : String} :
    isText value s = true ↔ value = some (.str s) := by
  simp only [isText, beq_iff_eq]

/-- Without a condition that counts, there is nothing under it either. -/
theorem condition_eq_none {entry : Json}
    (h : holds (Allowlist.field entry "condition") = false) (key : String) :
    Allowlist.condition entry key = none := by
  simp only [Allowlist.condition]
  cases hfield : Allowlist.field entry "condition" with
  | none => rfl
  | some v =>
      rw [hfield] at h
      cases v with
      | bool b => rfl
      | null | num _ | str _ | arr _ | obj _ => cases h

theorem resourceMatches_iff {entry : Json} {input : PolicyInput} :
    Allowlist.resourceMatches entry input = true ↔
      ∃ resource, Allowlist.field entry "resource" = some (.str resource) ∧
        (resource = "*" ∨ resource = input.resource ∨
          (endsWith resource ":" = true ∧ startsWith input.resource resource = true)) := by
  simp only [Allowlist.resourceMatches, Bool.or_eq_true, isText_iff]
  cases hfield : Allowlist.field entry "resource" with
  | none => simp
  | some v =>
      cases v with
      | str s => simp [or_assoc]
      | null | bool _ | num _ | arr _ | obj _ => simp

theorem leverageOk_iff {entry : Json} {input : PolicyInput} :
    Allowlist.leverageOk entry input = true ↔
      (holds (Allowlist.condition entry "maxLeverage") = true →
        atMost (some (input.leverage.getD 1))
          (Allowlist.condition entry "maxLeverage") = true) := by
  simp only [Allowlist.leverageOk]
  cases holds (Allowlist.condition entry "maxLeverage") with
  | false => simp
  | true =>
      cases input.leverage with
      | none => simp [atMost]
      | some q => simp

theorem humanApprovalOk_iff {entry : Json} : Allowlist.humanApprovalOk entry = true ↔
    Allowlist.condition entry "requiresHumanApproval" = none ∨
      Allowlist.condition entry "requiresHumanApproval" = some (.bool false) := by
  simp only [Allowlist.humanApprovalOk]
  cases Allowlist.condition entry "requiresHumanApproval" with
  | none => simp [holds]
  | some v =>
      cases v with
      | bool b => cases b <;> simp [holds]
      | null | num _ | str _ | arr _ | obj _ => simp [holds]

theorem conditionMatches_iff {entry : Json} {input : PolicyInput} :
    Allowlist.conditionMatches entry input = true ↔
      Allowlist.environmentOk entry input = true ∧ Allowlist.accountModeOk entry input = true ∧
        Allowlist.notionalOk entry input = true ∧ Allowlist.leverageOk entry input = true ∧
        Allowlist.humanApprovalOk entry = true := by
  simp only [Allowlist.conditionMatches]
  cases hcondition : holds (Allowlist.field entry "condition") with
  | true => simp only [Bool.not_true, Bool.false_or, Bool.true_and, Bool.and_eq_true, and_assoc]
  | false =>
      simp [Allowlist.environmentOk, Allowlist.accountModeOk, Allowlist.notionalOk,
        Allowlist.leverageOk, Allowlist.humanApprovalOk, condition_eq_none hcondition, holds]

/-- The entries that the rules let through are those that the input meets. -/
theorem allows_iff {entry : Json} {input : PolicyInput} :
    Allowlist.allows entry input = true ↔ Meets entry input := by
  simp only [Allowlist.allows, Allowlist.addresses, Bool.and_eq_true, conditionMatches_iff,
    resourceMatches_iff, leverageOk_iff, humanApprovalOk_iff]
  simp only [Allowlist.principalMatches, Allowlist.actionMatches, Allowlist.environmentOk,
    Allowlist.accountModeOk, Allowlist.notionalOk, Bool.or_eq_true, isText_iff]
  constructor
  · rintro ⟨⟨⟨⟨heffect, hprincipal⟩, haction⟩, hresource⟩, henvironment, hmode, hnotional,
      hleverage, hhuman⟩
    refine ⟨heffect, hprincipal, haction, hresource, ?_, ?_, ?_, hleverage, hhuman⟩
    · intro hset
      simpa [hset] using henvironment
    · intro hset
      simpa [hset, Option.any_eq_true, isText_iff] using hmode
    · intro hset
      simpa [hset] using hnotional
  · intro h
    refine ⟨⟨⟨⟨h.effect, h.principal⟩, h.action⟩, h.resource⟩, ?_, ?_, ?_, h.leverage, h.human⟩
    · cases hset : holds (Allowlist.condition entry "environment") with
      | false => simp
      | true => exact .inr (h.environment hset)
    · cases hset : holds (Allowlist.condition entry "accountMode") with
      | false => simp
      | true => simpa [Option.any_eq_true, isText_iff] using h.accountMode hset
    · cases hset : holds (Allowlist.condition entry "maxNotionalUsd") with
      | false => simp
      | true => simpa using h.notional hset

section

variable (policy : Json) (input : PolicyInput) (lower : String → String)

def NumericLimits : Prop :=
  ∀ key ∈ ["max_leverage", "default_max_leverage", "auto_max_notional_usd",
    "auto_max_daily_notional_usd", "auto_max_daily_loss_usd"],
    ∃ n, limit policy input key = some (.num n)

/-- What holds of every input that is executed without a human. -/
structure Envelope : Prop where
  approved : input.reviewerVerdict = some "approve"
  lowRisk : input.reviewerRiskLevel = some "low"
  action : input.action ≠ "cex.withdraw" ∧ input.action ≠ "cex.account_transfer"
  accountMode : input.accountMode ≠ some "margin" ∧ input.accountMode ≠ some "cross_margin" ∧
    input.accountMode ≠ some "coinm_futures"
  allowed : ∃ entry ∈ entries policy, Meets entry input
  /-- No entry that matches in all other respects asks for a human. -/
  noHuman : ∀ entry ∈ entries policy, Allowlist.addresses entry input = true →
    escalationConditionMatches entry input = true →
    Allowlist.condition entry "requiresHumanApproval" ≠ some (.bool true)
  notional : Within input.maxNotionalUsd (limit policy input "auto_max_notional_usd")
  /-- The cap of futures is their own one, when there is one. -/
  dailyNotional : input.action = "cex.place_order" →
    ∀ q, input.projectedDailyNotionalUsd = some q →
      ∃ cap, dailyNotionalLimit policy input = some cap ∧ ∀ n, cap = .num n → q ≤ n.value
  dailyLoss : input.action = "cex.place_order" →
    Within input.dailyRealizedLossUsd (limit policy input "auto_max_daily_loss_usd")
  futures : input.accountMode = some "usdm_futures" →
    input.marginType = some "isolated" ∧
      Within input.leverage (limit policy input "default_max_leverage")
  signature : input.action = "onchain.request_signature" →
    input.chainEnvironment ≠ some "mainnet" ∧
      ((input.chain = some "ethereum" ∧ ∃ address, input.contractAddress = some address ∧
          ∃ s, .str s ∈ allowlist policy "ethereum_contracts" ∧ lower address = lower s) ∨
        (input.chain = some "solana" ∧ input.instructionType = some "transfer" ∧
          ∃ program, input.programId = some program ∧
            .str program ∈ allowlist policy "solana_programs"))

variable {policy input lower}

theorem contractAllowed_iff : contractAllowed policy input lower = true ↔
    ∃ address, input.contractAddress = some address ∧
      ∃ s, .str s ∈ allowlist policy "ethereum_contracts" ∧ lower address = lower s := by
  simp only [contractAllowed, Option.any_eq_true, List.any_eq_true]
  constructor
  · rintro ⟨address, haddress, entry, hin, heq⟩
    cases entry with
    | str s => exact ⟨address, haddress, s, hin, by simpa using heq⟩
    | null | bool _ | num _ | arr _ | obj _ => cases heq
  · rintro ⟨address, haddress, s, hin, heq⟩
    exact ⟨address, haddress, .str s, hin, by simpa using heq⟩

theorem programAllowed_iff : programAllowed policy input = true ↔
    ∃ program, input.programId = some program ∧
      .str program ∈ allowlist policy "solana_programs" := by
  simp only [programAllowed, Option.any_eq_true, List.any_eq_true, beq_iff_eq]
  constructor
  · rintro ⟨program, hprogram, entry, hin, rfl⟩
    exact ⟨program, hprogram, hin⟩
  · rintro ⟨program, hprogram, hin⟩
    exact ⟨program, hprogram, _, hin, rfl⟩

/-- Entries that ask for a human are found also where their condition is read only in part. -/
theorem noHuman_of_quiet (h : (entries policy).any (requiresHuman · input) = false) :
    ∀ entry ∈ entries policy, Allowlist.addresses entry input = true →
      escalationConditionMatches entry input = true →
      Allowlist.condition entry "requiresHumanApproval" ≠ some (.bool true) := by
  intro entry hin haddresses hmatches hhuman
  have hcondition : holds (Allowlist.field entry "condition") = true := by
    cases hholds : holds (Allowlist.field entry "condition") with
    | true => rfl
    | false => rw [condition_eq_none hholds] at hhuman; cases hhuman
  have hnot := List.any_eq_false.mp h entry hin
  simp only [requiresHuman, haddresses, hcondition, hhuman, hmatches, beq_self_eq_true,
    Bool.and_true, not_true] at hnot

/-- A leverage that is neither above the hard cap nor between the two caps is within the
default cap. -/
theorem within_default_leverage {n m : Numeral}
    (hmax : limit policy input "max_leverage" = some (.num m))
    (hdefault : limit policy input "default_max_leverage" = some (.num n))
    (hhard : above input.leverage (limit policy input "max_leverage") = false)
    (hsoft : (above input.leverage (limit policy input "default_max_leverage") &&
      atMost input.leverage (limit policy input "max_leverage")) = false) :
    Within input.leverage (limit policy input "default_max_leverage") := by
  refine within_of_not_above hdefault ?_
  cases hleverage : input.leverage with
  | none => rfl
  | some q =>
      rw [hleverage, hmax] at hhard hsoft
      have hbelow : atMost (some q) (some (.num m)) = true := by
        simpa [above, atMost] using hhard
      simpa [hbelow] using hsoft

theorem allowed_of_reasons (h : allowReasons policy input ≠ []) :
    ∃ entry ∈ entries policy, Meets entry input := by
  obtain ⟨reason, hreason⟩ := List.exists_mem_of_ne_nil _ h
  rw [allowReasons, mem_set, List.mem_filterMap] at hreason
  obtain ⟨entry, hentry, -⟩ := hreason
  obtain ⟨hin, hallows⟩ := List.mem_filter.mp hentry
  exact ⟨entry, hin, allows_iff.mp hallows⟩

/-- A signature that no denial stops goes to a known contract, or is a transfer of a known
program. -/
theorem signature_of_no_denial (hdeny : hardDenyReasons policy input lower = [])
    (haction : input.action = "onchain.request_signature") :
    (input.chain = some "ethereum" ∧ contractAllowed policy input lower = true) ∨
      (input.chain = some "solana" ∧ input.instructionType = some "transfer" ∧
        programAllowed policy input = true) := by
  have quiet := (no_denial_iff policy input lower).mp hdeny
  simp only [denyRules, List.forall_mem_cons, isSignature, haction, beq_self_eq_true,
    Bool.true_and] at quiet
  obtain ⟨-, -, -, -, -, -, -, -, -, -, -, -, -, -, -, -, -, hpair, -, hcontract, hprogram,
    hauthority, htype, -⟩ := quiet
  have hpair' : supportedChainEnvironmentPair input = true := by simpa using hpair
  simp only [supportedChainEnvironmentPair, Bool.or_eq_true, Bool.and_eq_true,
    beq_iff_eq] at hpair'
  rcases hpair' with ⟨hchain, -⟩ | ⟨hchain, -⟩
  · exact .inl ⟨hchain, by simpa [hchain] using hcontract⟩
  · refine .inr ⟨hchain, ?_, by simpa [hchain] using hprogram⟩
    simp only [hchain, beq_self_eq_true, Bool.true_and,
      supportedSolanaInstructionType] at hauthority htype
    cases htyped : input.instructionType with
    | none => rw [htyped] at htype; cases htype
    | some instructionType =>
        rw [htyped] at hauthority htype
        simp only [Option.any_some, List.contains_eq_mem, List.mem_cons, List.not_mem_nil,
          or_false, decide_eq_false_iff_not, Bool.not_eq_false',
          decide_eq_true_eq] at hauthority htype
        rcases htype with h | h
        · rw [h]
        · exact absurd h hauthority

end

def canaryPolicy : Json := .obj [
  ("limits", .obj [("canary_live", .obj [
    ("auto_max_notional_usd", .num (.ofNat 10)),
    ("auto_max_daily_notional_usd", .num (.ofNat 50)),
    ("futures_auto_max_daily_notional_usd", .num (.ofNat 25)),
    ("auto_max_daily_loss_usd", .num (.ofNat 25)),
    ("max_leverage", .num (.ofNat 3)),
    ("default_max_leverage", .num (.ofNat 1)),
    ("max_token_approval_amount", .str "100000000")])]),
  ("allowlists", .obj [("rules", .arr [.obj [
    ("name", .str "binance-spot-low-notional"),
    ("effect", .str "allow"),
    ("principal", .str "*"),
    ("action", .str "cex.place_order"),
    ("resource", .str "cex:binance:"),
    ("condition", .obj [
      ("accountMode", .str "spot"),
      ("maxNotionalUsd", .num (.ofNat 10)),
      ("maxLeverage", .num (.ofNat 1)),
      ("requiresHumanApproval", .bool false),
      ("environment", .str "canary_live")])]])])]

def spotOrder : PolicyInput where
  principal := "agent.openclaw.strategy-alpha"
  action := "cex.place_order"
  resource := "cex:binance:subaccount-1:ETH-USDC"
  environment := .canaryLive
  accountMode := some "spot"
  maxNotionalUsd := some 8
  reviewerVerdict := some "approve"
  reviewerRiskLevel := some "low"

/-- An allowed input is inside the envelope. -/
theorem envelope_of_allow {policy : Json} {input : PolicyInput} {lower : String → String}
    (hlimits : NumericLimits policy input)
    (hallow : decision policy input lower = some .allow) : Envelope policy input lower := by
  obtain ⟨hdeny, hescalation, happroved⟩ := decision_allow_iff.mp hallow
  obtain ⟨hreasons, hrisk, -⟩ := quiet_of_no_escalation hescalation
  have loud := (no_denial_iff policy input lower).mp hdeny
  simp only [denyRules, List.forall_mem_cons] at loud
  obtain ⟨hwithdraw, htransfer, hmargin, hcross, hcoin, hleverage, hisolated, -⟩ := loud
  have quiet := (no_escalation_iff policy input).mp hescalation
  simp only [escalationRules, List.forall_mem_cons] at quiet
  obtain ⟨-, -, hmainnet, hnotional, hdaily, hloss, hdefault, -, hhuman, -⟩ := quiet
  obtain ⟨maxLeverage, hmax⟩ := hlimits "max_leverage" (by simp)
  obtain ⟨defaultLeverage, hdefaultLimit⟩ := hlimits "default_max_leverage" (by simp)
  obtain ⟨autoNotional, hauto⟩ := hlimits "auto_max_notional_usd" (by simp)
  obtain ⟨autoDaily, hautoDaily⟩ := hlimits "auto_max_daily_notional_usd" (by simp)
  obtain ⟨autoLoss, hautoLoss⟩ := hlimits "auto_max_daily_loss_usd" (by simp)
  exact {
    approved := happroved
    lowRisk := hrisk
    action := ⟨by simpa using hwithdraw, by simpa using htransfer⟩
    accountMode := ⟨by simpa using hmargin, by simpa using hcross, by simpa using hcoin⟩
    allowed := allowed_of_reasons hreasons
    noHuman := noHuman_of_quiet hhuman
    notional := by
      refine within_of_not_above hauto ?_
      simpa [hauto, holds] using hnotional
    dailyNotional := by
      intro haction q hq
      have hnot :
          above input.projectedDailyNotionalUsd (dailyNotionalLimit policy input) = false := by
        simpa [haction] using hdaily
      have hsome : (dailyNotionalLimit policy input).isSome = true := by
        unfold dailyNotionalLimit
        split <;> simp [hautoDaily]
      obtain ⟨cap, hcap⟩ := Option.isSome_iff_exists.mp hsome
      refine ⟨cap, hcap, ?_⟩
      rintro n rfl
      rw [hq, hcap] at hnot
      exact le_of_not_above hnot
    dailyLoss := by
      intro haction
      refine within_of_not_above hautoLoss ?_
      simpa [haction, hautoLoss, holds] using hloss
    futures := by
      intro hmode
      refine ⟨by simpa [hmode] using hisolated, ?_⟩
      refine within_default_leverage hmax hdefaultLimit (by simpa [hmode] using hleverage) ?_
      simpa [hmode, hdefaultLimit, holds] using hdefault
    signature := by
      intro haction
      refine ⟨by simpa [isSignature, haction] using hmainnet, ?_⟩
      rcases signature_of_no_denial hdeny haction with
        ⟨hchain, hcontract⟩ | ⟨hchain, htype, hprogram⟩
      · exact .inl ⟨hchain, contractAllowed_iff.mp hcontract⟩
      · exact .inr ⟨hchain, htype, programAllowed_iff.mp hprogram⟩ }

theorem envelope_of_allow_spotOrder :
    NumericLimits canaryPolicy spotOrder ∧
      decision canaryPolicy spotOrder id = some .allow ∧
      Envelope canaryPolicy spotOrder id := by
  have hlimits : NumericLimits canaryPolicy spotOrder := by
    simp only [NumericLimits, List.forall_mem_cons]
    exact ⟨⟨_, rfl⟩, ⟨_, rfl⟩, ⟨_, rfl⟩, ⟨_, rfl⟩, ⟨_, rfl⟩, by simp⟩
  have hallow : decision canaryPolicy spotOrder id = some .allow := by decide +kernel
  exact ⟨hlimits, hallow, envelope_of_allow hlimits hallow⟩

end Policy
end TradingGuardrails
