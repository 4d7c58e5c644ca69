import TradingGuardrails.Approval.Onboarding
import TradingGuardrails.Policy.Resource

/-!
What an onboarded entry of the allowlist allows, compared with the intent it was approved
for. The entry repeats the intent's texts, which the policy reads as patterns, and leaves
out what the intent leaves out.
-/
namespace TradingGuardrails

open Text Policy

variable {host : Host} {i : TradingIntent host}

theorem number_num {accepts : ℚ → Bool} {v : Json} (h : Check.number accepts v = true) :
    ∃ n, v = .num n := by
  cases v with
  | num n => exact ⟨n, rfl⟩
  | null | bool | str | arr | obj => cases h

theorem placeOrder_of_has {key : String} {v : Json}
    (hkey : key ∈ ["accountMode", "maxNotionalUsd", "leverage"])
    (hv : i.value.field? key = some v) : i.action = .placeOrder := by
  obtain ⟨body, -, hbody, hstrict⟩ := i.fields
  obtain ⟨field, hfield, rfl⟩ := Check.strict_known hstrict hv
  have horder : field.key ∈ orderKeys := List.mem_cons_of_mem _ hkey
  cases haction : i.action with
  | placeOrder => rfl
  | cancelOrder | getOrderStatus =>
      rw [haction] at hbody
      cases hbody
      rcases List.mem_append.mp hfield with henvelope | hin
      · exact absurd horder (envelope_keys i.action field henvelope)
      · have hreference : ∀ f ∈ IntentSchema.cexReferenceFields,
            f.key ∉ ["accountMode", "maxNotionalUsd", "leverage"] := by
          simp [IntentSchema.cexReferenceFields, Check.required]
        exact absurd hkey (hreference field hin)
  | simulateTransaction | requestSignature =>
      have hnone := onchain_has_no (i := i) (by rw [haction]; rfl) horder
      rw [hnone] at hv
      cases hv

theorem placeOrder_accepts {field : Check.Field} {v : Json} (haction : i.action = .placeOrder)
    (hfield : field ∈ IntentSchema.cexOrderFields) (hv : i.value.field? field.key = some v) :
    field.check v = true := by
  obtain ⟨body, -, hbody, hstrict⟩ := i.fields
  rw [haction] at hbody
  cases hbody
  have haccepts := Check.strict_accepts hstrict (List.mem_append_right _ hfield)
  rwa [Check.Field.accepts, hv] at haccepts

theorem accountMode_text {v : Json} (hv : i.value.field? "accountMode" = some v) :
    ∃ accountMode, v = .str accountMode := by
  have hfield : Check.required "accountMode" (Check.oneOf ["spot", "usdm_futures"]) ∈
      IntentSchema.cexOrderFields := by
    simp [IntentSchema.cexOrderFields]
  obtain ⟨accountMode, rfl, -⟩ :=
    Check.string_text (placeOrder_accepts (placeOrder_of_has (by simp) hv) hfield hv)
  exact ⟨accountMode, rfl⟩

theorem maxNotionalUsd_number {v : Json} (hv : i.value.field? "maxNotionalUsd" = some v) :
    ∃ n, v = .num n := by
  have hfield : Check.required "maxNotionalUsd" Check.positive ∈ IntentSchema.cexOrderFields := by
    simp [IntentSchema.cexOrderFields]
  have hcheck : Check.positive v = true :=
    placeOrder_accepts (placeOrder_of_has (by simp) hv) hfield hv
  exact number_num hcheck

theorem leverage_number {v : Json} (hv : i.value.field? "leverage" = some v) :
    ∃ n, v = .num n := by
  have hfield : Check.optional "leverage"
      (Check.number fun q => Check.isInt q && decide (1 ≤ q)) ∈ IntentSchema.cexOrderFields := by
    simp [IntentSchema.cexOrderFields]
  have hcheck : Check.number (fun q => Check.isInt q && decide (1 ≤ q)) v = true :=
    placeOrder_accepts (placeOrder_of_has (by simp) hv) hfield hv
  exact number_num hcheck

section

variable {request : ApprovalRequest} {input : PolicyInput}

theorem intentMember_text {key : String} : request.intentMember key Check.text =
    (PolicyInput.textAt request.intentData key).map .str := by
  rw [ApprovalRequest.intentMember, PolicyInput.textAt]
  cases request.intentData.field? key with
  | none => rfl
  | some v => cases v <;> rfl

theorem intentMember_number {key : String} {v : Json}
    (h : request.intentMember key (Check.number fun _ => true) = some v) :
    ∃ n, v = .num n ∧ PolicyInput.numberAt request.intentData key = some n.value := by
  obtain ⟨hfield, hcheck⟩ := Option.filter_eq_some_iff.mp h
  obtain ⟨n, rfl⟩ := number_num hcheck
  exact ⟨n, rfl, by rw [PolicyInput.numberAt, hfield]⟩

theorem intentMember_no_number {key : String}
    (h : request.intentMember key (Check.number fun _ => true) = none) :
    PolicyInput.numberAt request.intentData key = none := by
  rw [PolicyInput.numberAt]
  split
  · next n hfield =>
      rw [ApprovalRequest.intentMember, hfield] at h
      cases h
  · rfl

theorem condition_buildAllowlistEntry (key : String) :
    Allowlist.condition request.buildAllowlistEntry key =
      request.buildAllowlistCondition.field? key := by
  simp [Allowlist.condition, Allowlist.field, Rego.ref, ApprovalRequest.buildAllowlistEntry]

theorem environmentOk_iff : Allowlist.environmentOk request.buildAllowlistEntry input = true ↔
    input.environment = request.environment := by
  have hcondition : Allowlist.condition request.buildAllowlistEntry "environment" =
      some (.str request.environment.text) := by
    simp [condition_buildAllowlistEntry, ApprovalRequest.buildAllowlistCondition]
  simp only [Allowlist.environmentOk, hcondition, Rego.holds, Rego.isText]
  constructor
  · intro h
    have htext : request.environment.text = input.environment.text := by simpa using h
    have := congrArg Environment.ofText? htext
    rw [Environment.ofText?_text, Environment.ofText?_text, Option.some.injEq] at this
    exact this.symm
  · intro h
    simp [h]

theorem accountModeOk_iff : Allowlist.accountModeOk request.buildAllowlistEntry input = true ↔
    ∀ accountMode, PolicyInput.textAt request.intentData "accountMode" = some accountMode →
      input.accountMode = some accountMode := by
  have hcondition : Allowlist.condition request.buildAllowlistEntry "accountMode" =
      (PolicyInput.textAt request.intentData "accountMode").map .str := by
    simp [condition_buildAllowlistEntry, ApprovalRequest.buildAllowlistCondition,
      intentMember_text]
  simp only [Allowlist.accountModeOk, hcondition]
  cases PolicyInput.textAt request.intentData "accountMode" with
  | none => simp [Rego.holds]
  | some accountMode =>
      cases input.accountMode with
      | none => simp [Rego.holds]
      | some mode =>
          simpa [Rego.holds, Rego.isText] using eq_comm

theorem notionalOk_iff : Allowlist.notionalOk request.buildAllowlistEntry input = true ↔
    ∀ cap, PolicyInput.numberAt request.intentData "maxNotionalUsd" = some cap →
      ∃ amount, input.maxNotionalUsd = some amount ∧ amount ≤ cap := by
  have hcondition : Allowlist.condition request.buildAllowlistEntry "maxNotionalUsd" =
      request.intentMember "maxNotionalUsd" (Check.number fun _ => true) := by
    simp [condition_buildAllowlistEntry, ApprovalRequest.buildAllowlistCondition]
  simp only [Allowlist.notionalOk, hcondition]
  cases hmember : request.intentMember "maxNotionalUsd" (Check.number fun _ => true) with
  | none => simp [Rego.holds, intentMember_no_number hmember]
  | some v =>
      obtain ⟨n, rfl, hnumber⟩ := intentMember_number hmember
      cases input.maxNotionalUsd with
      | none => simp [Rego.holds, Rego.atMost, hnumber]
      | some amount => simp [Rego.holds, Rego.atMost, Rego.exceeds, hnumber]

theorem leverageOk_iff : Allowlist.leverageOk request.buildAllowlistEntry input = true ↔
    ∀ cap, PolicyInput.numberAt request.intentData "leverage" = some cap →
      input.leverage.getD 1 ≤ cap := by
  have hcondition : Allowlist.condition request.buildAllowlistEntry "maxLeverage" =
      request.intentMember "leverage" (Check.number fun _ => true) := by
    simp [condition_buildAllowlistEntry, ApprovalRequest.buildAllowlistCondition]
  simp only [Allowlist.leverageOk, hcondition]
  cases hmember : request.intentMember "leverage" (Check.number fun _ => true) with
  | none => simp [Rego.holds, intentMember_no_number hmember]
  | some v =>
      obtain ⟨n, rfl, hnumber⟩ := intentMember_number hmember
      cases input.leverage with
      | none => simp [Rego.holds, Rego.atMost, Rego.exceeds, hnumber]
      | some leverage => simp [Rego.holds, Rego.atMost, Rego.exceeds, hnumber]

theorem humanApprovalOk_buildAllowlistEntry :
    Allowlist.humanApprovalOk request.buildAllowlistEntry = true := by
  have hcondition : Allowlist.condition request.buildAllowlistEntry "requiresHumanApproval" =
      some (.bool false) := by
    simp [condition_buildAllowlistEntry, ApprovalRequest.buildAllowlistCondition]
  rw [Allowlist.humanApprovalOk, hcondition]
  rfl

theorem isText_some {s t : String} : Rego.isText (some (.str s)) t = true ↔ s = t := by
  simp [Rego.isText]

theorem addresses_iff : Allowlist.addresses request.buildAllowlistEntry input = true ↔
    (request.principal = "*" ∨ request.principal = input.principal) ∧
      (request.action = "*" ∨ request.action = input.action) ∧
      (request.resource = "*" ∨ request.resource = input.resource ∨
        Rego.endsWith request.resource ":" = true ∧
          Rego.startsWith input.resource request.resource = true) := by
  have heffect : Allowlist.field request.buildAllowlistEntry "effect" = some (.str "allow") := by
    simp [Allowlist.field, Rego.ref, ApprovalRequest.buildAllowlistEntry]
  have hprincipal : Allowlist.field request.buildAllowlistEntry "principal" =
      some (.str request.principal) := by
    simp [Allowlist.field, Rego.ref, ApprovalRequest.buildAllowlistEntry]
  have haction : Allowlist.field request.buildAllowlistEntry "action" =
      some (.str request.action) := by
    simp [Allowlist.field, Rego.ref, ApprovalRequest.buildAllowlistEntry]
  have hresource : Allowlist.field request.buildAllowlistEntry "resource" =
      some (.str request.resource) := by
    simp [Allowlist.field, Rego.ref, ApprovalRequest.buildAllowlistEntry]
  simp only [Allowlist.addresses, Allowlist.principalMatches, Allowlist.actionMatches,
    Allowlist.resourceMatches, heffect, hprincipal, haction, hresource, Bool.and_eq_true,
    Bool.or_eq_true, isText_some, true_and, and_assoc, or_assoc]

theorem allows_buildAllowlistEntry :
    Allowlist.allows request.buildAllowlistEntry input = true ↔
      Allowlist.addresses request.buildAllowlistEntry input = true ∧
      Allowlist.environmentOk request.buildAllowlistEntry input = true ∧
      Allowlist.accountModeOk request.buildAllowlistEntry input = true ∧
      Allowlist.notionalOk request.buildAllowlistEntry input = true ∧
      Allowlist.leverageOk request.buildAllowlistEntry input = true := by
  have hfield : Allowlist.field request.buildAllowlistEntry "condition" =
      some request.buildAllowlistCondition := by
    simp [Allowlist.field, Rego.ref, ApprovalRequest.buildAllowlistEntry]
  have hcondition : Rego.holds (Allowlist.field request.buildAllowlistEntry "condition") = true := by
    rw [hfield]
    rfl
  simp only [Allowlist.allows, Allowlist.conditionMatches, hcondition,
    humanApprovalOk_buildAllowlistEntry, Bool.and_eq_true, Bool.or_eq_true, Bool.not_true,
    Bool.false_eq_true, false_or, true_and, and_true, and_assoc]

end

structure ApprovalRequest.Carries (request : ApprovalRequest) (intent : TradingIntent host) :
    Prop where
  principal : request.principal = intent.principal
  action : request.action = intent.action.text
  resource : request.resource = intent.resource
  environment : request.environment = intent.environment
  intentData : request.intentData = intent.value

def TradingIntent.leverage (intent : TradingIntent host) : ℚ :=
  (PolicyInput.numberAt intent.value "leverage").getD 1

/-- What an input has in common with an approved intent, and where it stays below it. -/
structure NoBroader (intent : TradingIntent host) (input : PolicyInput) : Prop where
  principal : input.principal = intent.principal
  action : input.action = intent.action.text
  resource : input.resource = intent.resource
  environment : input.environment = intent.environment
  accountMode : intent.has "accountMode" = true →
    input.accountMode = some (intent.text "accountMode")
  maxNotionalUsd : intent.has "maxNotionalUsd" = true →
    ∃ amount cap, input.maxNotionalUsd = some amount ∧
      PolicyInput.numberAt intent.value "maxNotionalUsd" = some cap ∧ amount ≤ cap
  leverage : input.leverage.getD 1 ≤ intent.leverage

def Patterned (intent : TradingIntent host) : Prop :=
  intent.principal = "*" ∨ intent.resource = "*" ∨ Rego.endsWith intent.resource ":" = true

structure Allowed (intent : TradingIntent host) (input : PolicyInput) : Prop where
  principal : intent.principal = "*" ∨ input.principal = intent.principal
  action : input.action = intent.action.text
  resource : intent.resource = "*" ∨ input.resource = intent.resource ∨
    Rego.endsWith intent.resource ":" = true ∧
      Rego.startsWith input.resource intent.resource = true
  environment : input.environment = intent.environment
  accountMode : ∀ accountMode, PolicyInput.textAt intent.value "accountMode" = some accountMode →
    input.accountMode = some accountMode
  maxNotionalUsd : ∀ cap, PolicyInput.numberAt intent.value "maxNotionalUsd" = some cap →
    ∃ amount, input.maxNotionalUsd = some amount ∧ amount ≤ cap
  leverage : ∀ cap, PolicyInput.numberAt intent.value "leverage" = some cap →
    input.leverage.getD 1 ≤ cap

/-- An intent whose resource was checked has the resource that its fields name. -/
theorem resource_canonical (hresource : resourceMatches i = true) :
    canonicalResource i = some i.resource := by
  have hnamed : ∃ named, canonicalResource i = some named ∧ named.isEmpty = false := by
    cases hcex : i.action.isCex with
    | true => exact ⟨_, canonicalResource_cex hcex, by simp⟩
    | false => exact ⟨_, canonicalResource_onchain hcex, by simp⟩
  obtain ⟨named, hcanonical, hne⟩ := hnamed
  simp only [resourceMatches, hcanonical, hne, Bool.false_or, beq_iff_eq] at hresource
  rw [hcanonical, hresource]

theorem action_text_ne_star (action : Action) : action.text ≠ "*" := by
  cases action <;> decide

theorem allows_iff {request : ApprovalRequest} {input : PolicyInput}
    (hcarries : request.Carries i) :
    Allowlist.allows request.buildAllowlistEntry input = true ↔ Allowed i input := by
  rw [allows_buildAllowlistEntry, addresses_iff, environmentOk_iff, accountModeOk_iff,
    notionalOk_iff, leverageOk_iff, hcarries.principal, hcarries.action, hcarries.resource,
    hcarries.environment, hcarries.intentData]
  simp only [action_text_ne_star, false_or]
  constructor
  · rintro ⟨⟨hprincipal, haction, hname⟩, henvironment, hmode, hnotional, hleverage⟩
    exact ⟨hprincipal.imp_right Eq.symm, haction.symm,
      hname.imp_right fun hname => hname.imp_left Eq.symm, henvironment, hmode, hnotional,
      hleverage⟩
  · intro h
    exact ⟨⟨h.principal.imp_right Eq.symm, h.action.symm,
      h.resource.imp_right fun hname => hname.imp_left Eq.symm⟩, h.environment, h.accountMode,
      h.maxNotionalUsd, h.leverage⟩

/-- The member of the input that repeats a member of the order. -/
theorem policyInput_member (evaluation : Evaluation host) (verdict riskResult : Json)
    {key : String} (hkey : key ∈ ["accountMode", "maxNotionalUsd", "leverage"]) :
    (evaluation.policyInput verdict riskResult).field? key =
      evaluation.intent.value.field? key := by
  simp only [List.mem_cons, List.not_mem_nil, or_false] at hkey
  rcases hkey with rfl | rfl | rfl <;>
    simp [Evaluation.policyInput, TokenApprovalFacts.members]

/-- The input of an intent's own evaluation is one that its entry allows. -/
theorem allowed_self {evaluation : Evaluation host} {verdict riskResult : Json}
    (hresource : resourceMatches evaluation.intent = true) :
    Allowed evaluation.intent (PolicyInput.ofJson (evaluation.policyInput verdict riskResult)) where
  principal := .inr rfl
  action := rfl
  resource := .inr (.inl (by
    rw [Evaluation.policyInput_resource, resource_canonical hresource]
    rfl))
  environment := by
    have henvironment :
        textField (evaluation.policyInput verdict riskResult) "environment" =
          evaluation.intent.environment.text := rfl
    rw [PolicyInput.ofJson, henvironment, Environment.ofText?_text]
    rfl
  accountMode accountMode h := by
    rwa [PolicyInput.textAt, ← policyInput_member evaluation verdict riskResult (by simp)] at h
  maxNotionalUsd cap h := by
    refine ⟨cap, ?_, le_refl cap⟩
    rwa [PolicyInput.numberAt, ← policyInput_member evaluation verdict riskResult (by simp)] at h
  leverage cap h := by
    rw [PolicyInput.numberAt, ← policyInput_member evaluation verdict riskResult (by simp)] at h
    have hleverage : (PolicyInput.ofJson (evaluation.policyInput verdict riskResult)).leverage =
        some cap := h
    rw [hleverage]
    exact le_refl cap

theorem Allowed.noBroader {input : PolicyInput} (h : Allowed i input) (hpattern : ¬Patterned i)
    (hleverage : i.has "leverage" = true) : NoBroader i input where
  principal := h.principal.resolve_left fun hstar => hpattern (.inl hstar)
  action := h.action
  resource := (h.resource.resolve_left fun hstar => hpattern (.inr (.inl hstar))).resolve_right
    fun hscheme => hpattern (.inr (.inr hscheme.1))
  environment := h.environment
  accountMode hhas := by
    obtain ⟨v, hv⟩ := Option.isSome_iff_exists.mp hhas
    obtain ⟨accountMode, rfl⟩ := accountMode_text hv
    rw [TradingIntent.text, textField, hv]
    exact h.accountMode accountMode (by rw [PolicyInput.textAt, hv])
  maxNotionalUsd hhas := by
    obtain ⟨v, hv⟩ := Option.isSome_iff_exists.mp hhas
    obtain ⟨n, rfl⟩ := maxNotionalUsd_number hv
    have hcap : PolicyInput.numberAt i.value "maxNotionalUsd" = some n.value := by
      rw [PolicyInput.numberAt, hv]
    obtain ⟨amount, hamount, hle⟩ := h.maxNotionalUsd n.value hcap
    exact ⟨amount, n.value, hamount, hcap, hle⟩
  leverage := by
    obtain ⟨v, hv⟩ := Option.isSome_iff_exists.mp hleverage
    obtain ⟨n, rfl⟩ := leverage_number hv
    have hnumber : PolicyInput.numberAt i.value "leverage" = some n.value := by
      rw [PolicyInput.numberAt, hv]
    rw [TradingIntent.leverage, hnumber]
    exact h.leverage n.value hnumber

def repeated (i : TradingIntent host) : PolicyInput where
  principal := i.principal
  action := i.action.text
  resource := i.resource
  environment := i.environment
  accountMode := PolicyInput.textAt i.value "accountMode"
  maxNotionalUsd := PolicyInput.numberAt i.value "maxNotionalUsd"
  leverage := PolicyInput.numberAt i.value "leverage"

theorem allowed_repeated (i : TradingIntent host) : Allowed i (repeated i) where
  principal := .inr rfl
  action := rfl
  resource := .inr (.inl rfl)
  environment := rfl
  accountMode _ h := h
  maxNotionalUsd cap h := ⟨cap, h, le_refl cap⟩
  leverage cap h := by
    rw [repeated, h]
    exact le_refl cap

theorem not_noBroader_pattern (h : Patterned i) :
    ∃ input, Allowed i input ∧ ¬NoBroader i input := by
  rcases h with hstar | hstar | hcolon
  · refine ⟨{ repeated i with principal := "**" },
      { allowed_repeated i with principal := .inl hstar }, fun h => ?_⟩
    have heq : "**" = i.principal := h.principal
    rw [hstar] at heq
    exact absurd heq (by decide)
  · refine ⟨{ repeated i with resource := "**" },
      { allowed_repeated i with resource := .inl hstar }, fun h => ?_⟩
    have heq : "**" = i.resource := h.resource
    rw [hstar] at heq
    exact absurd heq (by decide)
  · refine ⟨{ repeated i with resource := i.resource ++ "*" },
      { allowed_repeated i with
        resource := .inr (.inr ⟨hcolon, startsWith_iff.mpr ⟨"*", rfl⟩⟩) }, fun h => ?_⟩
    have heq : i.resource ++ "*" = i.resource := h.resource
    have hlength := congrArg String.length heq
    have hstar : ("*" : String).length = 1 := by decide
    simp only [String.length_append] at hlength
    omega

theorem not_noBroader_leverage (h : i.has "leverage" = false) :
    ∃ input, Allowed i input ∧ ¬NoBroader i input := by
  have hnone : PolicyInput.numberAt i.value "leverage" = none := by
    rw [TradingIntent.has, Json.hasField, Option.isSome_eq_false_iff, Option.isNone_iff_eq_none] at h
    rw [PolicyInput.numberAt, h]
  refine ⟨{ repeated i with leverage := some 2 },
    { allowed_repeated i with
      leverage := by
        intro cap hcap
        rw [hnone] at hcap
        cases hcap }, fun h => ?_⟩
  have hle : (2 : ℚ) ≤ 1 := by
    have := h.leverage
    rwa [TradingIntent.leverage, hnone] at this
  exact absurd hle (by decide)

/-- An entry is no broader than its intent exactly when the policy reads no pattern in it
and the intent says what its leverage is. -/
theorem noBroader_iff : (∀ input, Allowed i input → NoBroader i input) ↔
    ¬Patterned i ∧ i.has "leverage" = true := by
  constructor
  · intro h
    refine ⟨fun hpattern => ?_, ?_⟩
    · obtain ⟨input, hallowed, hbroader⟩ := not_noBroader_pattern hpattern
      exact hbroader (h input hallowed)
    · by_contra hnone
      obtain ⟨input, hallowed, hbroader⟩ :=
        not_noBroader_leverage (Bool.eq_false_iff.mpr hnone)
      exact hbroader (h input hallowed)
  · rintro ⟨hpattern, hleverage⟩ input hallowed
    exact hallowed.noBroader hpattern hleverage

/-- The entry for an intent allows the input that the service builds for an intent whose
resource it has checked, and allows no broader one exactly when neither the principal nor the
resource is read as a pattern and a leverage is given. -/
theorem onboarded_entry_no_broader {evaluation : Evaluation host} {request : ApprovalRequest}
    (hcarries : request.Carries evaluation.intent) (verdict riskResult : Json) :
    (resourceMatches evaluation.intent = true → Allowlist.allows request.buildAllowlistEntry
        (PolicyInput.ofJson (evaluation.policyInput verdict riskResult)) = true) ∧
      ((∀ input, Allowlist.allows request.buildAllowlistEntry input = true →
          NoBroader evaluation.intent input) ↔
        ¬Patterned evaluation.intent ∧ evaluation.intent.has "leverage" = true) := by
  simp only [allows_iff hcarries]
  exact ⟨allowed_self, noBroader_iff⟩

def futuresJson (leverage : Option Nat) : Json :=
  .record [
    ("intentId", some (.str "i")),
    ("principal", some (.str "agent")),
    ("action", some (.str "cex.place_order")),
    ("resource", some (.str "cex:binance:a:BTC")),
    ("environment", some (.str "canary_live")),
    ("requestedAt", some (.str "t")),
    ("idempotencyKey", some (.str "k")),
    ("rationale", some (.str "x")),
    ("evidence", some (.arr [.str "e"])),
    ("exchange", some (.str "binance")),
    ("account", some (.str "a")),
    ("accountMode", some (.str "usdm_futures")),
    ("symbol", some (.str "BTC")),
    ("side", some (.str "buy")),
    ("orderType", some (.str "limit")),
    ("quantity", some (.num (.ofNat 1))),
    ("price", some (.num (.ofNat 5))),
    ("maxNotionalUsd", some (.num (.ofNat 5))),
    ("maxSlippageBps", some (.num (.ofNat 5))),
    ("leverage", leverage.map fun n => .num (.ofNat n))]

def unleveraged : TradingIntent (plainHost id fun _ => id) where
  value := futuresJson none
  valid := by decide +kernel

def leveraged : TradingIntent (plainHost id fun _ => id) where
  value := futuresJson (some 20)
  valid := by decide +kernel

def evaluationOf (intent : TradingIntent (plainHost id fun _ => id)) :
    Evaluation (plainHost id fun _ => id) where
  intent := intent
  options := {}
  correlationId := "c"
  now := "n"
  scope := "s"
  payloadHash := "h"

def requestFor (intent : TradingIntent (plainHost id fun _ => id)) : ApprovalRequest where
  intentId := intent.intentId
  correlationId := "c"
  principal := intent.principal
  action := intent.action.text
  resource := intent.resource
  environment := intent.environment
  escalationReason := "e"
  approvalType := .allowlistOnboarding
  intentData := intent.value
  approvalId := "o"
  state := .pending
  createdAt := "p"
  decidedAt := none
  decidedBy := none
  timeoutAt := "p00"

theorem onboarded_entry_no_broader_leveraged : NoBroader leveraged
    (PolicyInput.ofJson ((evaluationOf leveraged).policyInput .null .null)) := by
  have hcarries : (requestFor leveraged).Carries (evaluationOf leveraged).intent :=
    ⟨rfl, rfl, rfl, rfl, rfl⟩
  have hpattern : ¬Patterned leveraged := by
    rintro (h | h | h)
    · exact absurd h (by decide +kernel)
    · exact absurd h (by decide +kernel)
    · exact absurd h (by decide +kernel)
  obtain ⟨hself, hexact⟩ := onboarded_entry_no_broader hcarries .null .null
  exact hexact.mpr ⟨hpattern, by decide +kernel⟩ _ (hself (by decide +kernel))

/-- The entry for an order that gives no leverage allows the same order at twenty times. -/
theorem onboarded_entry_allows_leverage :
    resourceMatches unleveraged = true ∧ resourceMatches leveraged = true ∧
      Allowlist.allows (requestFor unleveraged).buildAllowlistEntry
        (PolicyInput.ofJson ((evaluationOf leveraged).policyInput .null .null)) = true ∧
      ¬(PolicyInput.ofJson ((evaluationOf leveraged).policyInput .null .null)).leverage.getD 1 ≤
        unleveraged.leverage := by
  decide +kernel

end TradingGuardrails
