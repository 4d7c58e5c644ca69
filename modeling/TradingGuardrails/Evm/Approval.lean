import TradingGuardrails.Evm.Calldata
import TradingGuardrails.Policy.Decimal
import TradingGuardrails.Policy.Envelope
import TradingGuardrails.Service.Service

/-!
Token approvals, which the service, the policy and the connector cap each on its own. An
approval that passes all three is the one that the connector decodes, and is within every
cap.
-/
namespace TradingGuardrails

open Text Policy

variable {host : Host}

/-- The input that the service builds carries the facts about the approval. -/
theorem policyInput_facts (evaluation : Evaluation host) (verdict riskResult : Json) :
    let input := PolicyInput.ofJson (evaluation.policyInput verdict riskResult)
    let facts := tokenApprovalFacts evaluation.intent
    input.isTokenApproval = some facts.isTokenApproval ∧
      input.tokenApprovalAmount = facts.tokenApprovalAmount.map toString ∧
      input.tokenApprovalAmountMissing = some facts.tokenApprovalAmountMissing ∧
      input.tokenApprovalUnlimited = some facts.tokenApprovalUnlimited ∧
      input.tokenApprovalAmountExceedsCap = some facts.tokenApprovalAmountExceedsCap := by
  refine ⟨?_, ?_, ?_, ?_, ?_⟩
  · simp [PolicyInput.ofJson, PolicyInput.boolAt, Evaluation.policyInput,
      TokenApprovalFacts.members]
  · cases h : (tokenApprovalFacts evaluation.intent).tokenApprovalAmount <;>
      simp [PolicyInput.ofJson, PolicyInput.textAt, Evaluation.policyInput,
        TokenApprovalFacts.members, h]
  · simp [PolicyInput.ofJson, PolicyInput.boolAt, Evaluation.policyInput,
      TokenApprovalFacts.members]
  · simp [PolicyInput.ofJson, PolicyInput.boolAt, Evaluation.policyInput,
      TokenApprovalFacts.members]
  · simp [PolicyInput.ofJson, PolicyInput.boolAt, Evaluation.policyInput,
      TokenApprovalFacts.members]

/-- What the service finds in calldata with the selector: an amount that is missing, or the
one that its data ends in. -/
theorem facts_of_selector {intent : TradingIntent host} (haction : intent.action = .requestSignature)
    (hchain : intent.chain = "ethereum")
    (hselector : erc20ApproveSelector.isPrefixOf (lowerCase (intent.text "data")) = true) :
    let facts := tokenApprovalFacts intent
    facts.isTokenApproval = true ∧
      (facts.tokenApprovalAmountMissing = true ∨
        ∃ n, extractErc20ApprovalAmount (lowerCase (intent.text "data")) = some n ∧
          facts.tokenApprovalAmount = some n ∧
          (facts.tokenApprovalUnlimited = false → n ≠ uint256Max) ∧
          (facts.tokenApprovalAmountExceedsCap = false →
            n ≤ approvalCapForEnvironment intent.environment)) := by
  simp only [tokenApprovalFacts, haction, hchain, ne_eq, not_true, or_self, if_false, hselector,
    Bool.not_true, Bool.false_and, Bool.false_eq_true, if_true, Bool.true_and, true_and]
  cases hextract : extractErc20ApprovalAmount (lowerCase (intent.text "data")) with
  | none => simp
  | some n =>
      refine .inr ⟨n, rfl, rfl, ?_, ?_⟩
      · intro hlimited
        simp only [Bool.or_eq_false_iff, beq_eq_false_iff_ne, ne_eq, Option.some.injEq] at hlimited
        exact hlimited.1
      · intro hwithin
        simpa using hwithin

theorem intent_data (intent : TradingIntent host) :
    (Evm.optionalText intent "data").getD "" = intent.text "data" := by
  simp only [Evm.optionalText, TradingIntent.text, textField]
  cases intent.value.field? "data" with
  | none => rfl
  | some v => cases v <;> rfl

def calldata (intent : TradingIntent host) : Units :=
  codeUnits (intent.text "data")

theorem decodeIntent_approval {intent : TradingIntent host}
    (hlength : (calldata intent).length = 138)
    (hselector : Units.lower ((calldata intent).take 10) = codeUnits Evm.erc20ApproveSelector) :
    (Evm.decodeIntent intent).isApproval = true ∧
      (Evm.decodeIntent intent).approvalAmount =
        some (codeUnits "0x" ++ (calldata intent).drop 74) := by
  unfold calldata at hlength hselector ⊢
  have htake : (codeUnits (intent.text "data")).take 138 = codeUnits (intent.text "data") :=
    List.take_of_length_le hlength.le
  simp [Evm.decodeIntent, Evm.decodeTransaction, intent_data, Evm.isAbiCallData, hselector, hlength,
    Evm.slice, htake]

theorem calldata_of_approval {intent : TradingIntent host}
    (h : (Evm.decodeIntent intent).isApproval = true) :
    (calldata intent).length = 138 ∧
      Units.lower ((calldata intent).take 10) = codeUnits Evm.erc20ApproveSelector := by
  simp only [Evm.decodeIntent, Evm.decodeTransaction, intent_data, Evm.isAbiCallData] at h
  by_cases hlong : 10 ≤ (codeUnits (intent.text "data")).length
  · simp only [hlong, if_true, Bool.and_eq_true, beq_iff_eq, Option.some.injEq] at h
    split at h
    · rename_i hcond
      exact ⟨hcond.2, hcond.1⟩
    · split at h <;> cases h
  · simp only [hlong, if_false, Bool.and_eq_true, beq_iff_eq, reduceCtorEq, false_and] at h

/-- An approval that the connector lets through is at most the amount that the intent names. -/
theorem amount_of_revalidate {lower : Units → Units} {config : Evm.EvmConfig}
    {intent : TradingIntent host} {amountText : Units}
    (h : Evm.revalidate lower config intent = .ok ())
    (hamount : (Evm.decodeIntent intent).approvalAmount = some amountText) :
    ∃ s amount maxAmount, intent.value.field? "maxTokenApprovalAmount" = some (.str s) ∧
      Units.bigInt amountText = some amount ∧ Units.bigInt (codeUnits s) = some maxAmount ∧
      amount ≤ maxAmount := by
  simp only [Evm.revalidate, bind_eq_ok] at h
  obtain ⟨-, -, -, -, -, -, -, -, -, -, -, -, -, -, -, -, -, -, -, -, -, -, -, -, -, -, h⟩ := h
  simp only [hamount, Evm.validateApprovalAmount] at h
  split at h
  · rename_i s hs
    split at h
    · rename_i amount maxAmount hread hmax
      simp only [Evm.require] at h
      split_ifs at h with hle
      exact ⟨s, amount, maxAmount, hs, hread, hmax, by simpa using hle⟩
    · cases h
  · cases h

structure ApprovalCapped (policy : Json) (input : PolicyInput) (intent : TradingIntent host)
    (n : Nat) : Prop where
  length : (calldata intent).length = 138
  hexadecimal : ∀ unit ∈ (calldata intent).drop 74, (Units.digit unit).isSome = true
  amount : Units.digits 16 ((calldata intent).drop 74) = some n
  decoded : (Evm.decodeIntent intent).isApproval = true ∧
    (Evm.decodeIntent intent).approvalAmount.bind Units.bigInt = some (n : Int)
  metadata : ∃ s maxAmount, intent.value.field? "maxTokenApprovalAmount" = some (.str s) ∧
    Units.bigInt (codeUnits s) = some maxAmount ∧ (n : Int) ≤ maxAmount
  environment : n ≤ approvalCapForEnvironment intent.environment
  policyCap : ∀ cap, limit policy input "max_token_approval_amount" = some (.str cap) →
    validDecimalChars cap.toList = true → n ≤ decimalValue cap.toList
  limited : n < 2 ^ 256 - 1

theorem capped_of_passing {evaluation : Evaluation host} {verdict riskResult policy : Json}
    {lowerText : String → String} {lower : Units → Units} {config : Evm.EvmConfig}
    (haction : evaluation.intent.action = .requestSignature)
    (hchain : evaluation.intent.chain = "ethereum")
    (hselector : codeUnits Evm.erc20ApproveSelector <+:
      Units.lower (calldata evaluation.intent))
    (hdeny : hardDenyReasons policy
      (PolicyInput.ofJson (evaluation.policyInput verdict riskResult)) lowerText = [])
    (hconnector : Evm.revalidate lower config evaluation.intent = .ok ()) :
    ∃ n, ApprovalCapped policy (PolicyInput.ofJson (evaluation.policyInput verdict riskResult))
      evaluation.intent n := by
  obtain ⟨happroval, hamount, hmissing, hunlimited, hexceeds⟩ :=
    policyInput_facts evaluation verdict riskResult
  obtain ⟨hfact, hfound⟩ := facts_of_selector haction hchain (hasApprovalSelector hselector)
  have quiet := (no_denial_iff policy _ lowerText).mp hdeny
  simp only [denyRules, List.forall_mem_cons, happroval, hamount, hmissing, hunlimited, hexceeds,
    hfact, beq_self_eq_true, Bool.true_and, beq_eq_false_iff_ne, ne_eq, Option.some.injEq,
    Bool.not_eq_true] at quiet
  obtain ⟨-, -, -, -, -, -, -, -, -, hlimited, -, hpresent, -, -, hwithin, hcap, -⟩ := quiet
  rcases hfound with hgone | ⟨n, hextract, hfactAmount, hnotMax, hbelow⟩
  · rw [hgone] at hpresent
    cases hpresent
  · obtain ⟨hlength, hdigits⟩ := extract_units hextract
    have hselector' : Units.lower ((calldata evaluation.intent).take 10) =
        codeUnits Evm.erc20ApproveSelector :=
      Units.lower_take_of_prefix (by decide) hselector
    obtain ⟨hdecoded, htext⟩ := decodeIntent_approval hlength hselector'
    have hread := Units.bigInt_hex hdigits
    obtain ⟨s, amount, maxAmount, hs, hamountRead, hmax, hle⟩ :=
      amount_of_revalidate hconnector htext
    rw [calldata, hread, Option.some.injEq] at hamountRead
    subst hamountRead
    refine ⟨n, ?_⟩
    exact {
      length := hlength
      hexadecimal := (Units.digits_all hdigits).2
      amount := hdigits
      decoded := ⟨hdecoded, by rw [htext, Option.bind_some]; exact hread⟩
      metadata := ⟨s, maxAmount, hs, hmax, hle⟩
      environment := hbelow hwithin
      policyCap := by
        intro cap hlimit hvalid
        have hnot : decimalStringExceeds (some (.str (toString n))) (some (.str cap)) = false := by
          simpa [hlimit, validDecimalString, hvalid, hfactAmount, textOf] using hcap
        have hvalue := le_of_not_exceeds (validDecimalChars_toString n) hvalid hnot
        rwa [decimalValue_toString] at hvalue
      limited := by
        have hlt := Units.digits_lt hdigits
        rw [List.length_drop, show (codeUnits (evaluation.intent.text "data")).length = 138
          from hlength] at hlt
        have hne := hnotMax hlimited
        simp only [uint256Max] at hne
        omega }

/-- An approval that the connector decodes is one that the service reports. -/
theorem reported_of_decoded {intent : TradingIntent host}
    (haction : intent.action = .requestSignature) (hchain : intent.chain = "ethereum")
    (h : (Evm.decodeIntent intent).isApproval = true) :
    (tokenApprovalFacts intent).isTokenApproval = true ∧
      ((tokenApprovalFacts intent).tokenApprovalAmountMissing = true ∨
        ∃ n : Nat, (tokenApprovalFacts intent).tokenApprovalAmount = some n ∧
          (Evm.decodeIntent intent).approvalAmount.bind Units.bigInt = some (n : Int)) := by
  obtain ⟨hlength, hselector⟩ := calldata_of_approval h
  have hlead : codeUnits Evm.erc20ApproveSelector <+: Units.lower (calldata intent) := by
    rw [← List.take_append_drop 10 (calldata intent), Units.lower_append, hselector]
    exact List.prefix_append _ _
  obtain ⟨hfact, hfound⟩ := facts_of_selector haction hchain (hasApprovalSelector hlead)
  refine ⟨hfact, hfound.imp_right ?_⟩
  rintro ⟨n, hextract, hamount, -, -⟩
  refine ⟨n, hamount, ?_⟩
  rw [(decodeIntent_approval hlength hselector).2, Option.bind_some]
  exact Units.bigInt_hex (extract_units hextract).2

/-- Service, policy and connector cap an approval alike. -/
theorem approvals_capped_alike {evaluation : Evaluation host}
    (haction : evaluation.intent.action = .requestSignature)
    (hchain : evaluation.intent.chain = "ethereum") :
    (∀ verdict riskResult policy lowerText lower config,
      codeUnits Evm.erc20ApproveSelector <+: Units.lower (calldata evaluation.intent) →
      hardDenyReasons policy (PolicyInput.ofJson (evaluation.policyInput verdict riskResult))
        lowerText = [] →
      Evm.revalidate lower config evaluation.intent = .ok () →
      ∃ n, ApprovalCapped policy
        (PolicyInput.ofJson (evaluation.policyInput verdict riskResult)) evaluation.intent n) ∧
    ((Evm.decodeIntent evaluation.intent).isApproval = true →
      (tokenApprovalFacts evaluation.intent).isTokenApproval = true ∧
        ((tokenApprovalFacts evaluation.intent).tokenApprovalAmountMissing = true ∨
          ∃ n : Nat, (tokenApprovalFacts evaluation.intent).tokenApprovalAmount = some n ∧
            (Evm.decodeIntent evaluation.intent).approvalAmount.bind Units.bigInt =
              some (n : Int))) :=
  ⟨fun _ _ _ _ _ _ hselector hdeny hconnector =>
    capped_of_passing haction hchain hselector hdeny hconnector,
    reported_of_decoded haction hchain⟩

def approvalIntentJson : Json := .obj [
  ("intentId", .str "550e8400-e29b-41d4-a716-446655440001"),
  ("principal", .str "agent.openclaw.strategy-alpha"),
  ("action", .str "onchain.request_signature"),
  ("resource", .str "onchain:ethereum:sepolia:0xA0b8"),
  ("environment", .str "canary_live"),
  ("requestedAt", .str "2024-01-01T00:00:00Z"),
  ("idempotencyKey", .str "approve-1"),
  ("rationale", .str "Approve the router."),
  ("evidence", .arr [.str "snapshot-1"]),
  ("to", .str "0xA0b8"),
  ("data", .str ("0x095EA7B3" ++
    "0000000000000000000000007265636970696e74000000000000000000000000" ++
    "0000000000000000000000000000000000000000000000000000000000000064")),
  ("simulationId", .str "550e8400-e29b-41d4-a716-446655440002"),
  ("maxTokenApprovalAmount", .str "100"),
  ("chain", .str "ethereum"),
  ("chainEnvironment", .str "sepolia"),
  ("expectedDeltas", .arr [.obj [
    ("address", .str "0xA0b8"), ("asset", .str "USDC"), ("minDelta", .str "0"),
    ("maxDelta", .str "0")]])]

def approvalPolicy : Json := .obj [
  ("limits", .obj [("canary_live", .obj [("max_token_approval_amount", .str "1000")])]),
  ("allowlists", .obj [("ethereum_contracts", .arr [.str "0xA0b8"])])]

def approvalConfig : Evm.EvmConfig where
  chainEnvironment := "sepolia"
  allowedContracts := ["0xA0b8"]
  allowedFunctions := ["approve"]
  allowedTokens := ["0xA0b8"]
  allowedSpenders := ["0x7265636970696e74000000000000000000000000"]

def approvalIntent : TradingIntent (plainHost id fun _ => id) :=
  ⟨approvalIntentJson, by decide +kernel⟩

def approvalEvaluation : Evaluation (plainHost id fun _ => id) :=
  ⟨approvalIntent, {}, "c", "n", "s", "p"⟩

theorem approvals_capped_alike_hundred :
    (∃ n, ApprovalCapped approvalPolicy
      (PolicyInput.ofJson (approvalEvaluation.policyInput (.obj []) (.obj []))) approvalIntent n) ∧
    (tokenApprovalFacts approvalIntent).isTokenApproval = true := by
  have hpasses : codeUnits Evm.erc20ApproveSelector <+: Units.lower (calldata approvalIntent) ∧
      hardDenyReasons approvalPolicy
        (PolicyInput.ofJson (approvalEvaluation.policyInput (.obj []) (.obj []))) id = [] ∧
      Evm.revalidate id approvalConfig approvalIntent = .ok () ∧
      (Evm.decodeIntent approvalIntent).isApproval = true := by
    decide +kernel
  obtain ⟨hselector, hdeny, hconnector, hdecoded⟩ := hpasses
  obtain ⟨hcapped, hreported⟩ := @approvals_capped_alike _ approvalEvaluation rfl rfl
  exact ⟨hcapped _ _ _ _ _ _ hselector hdeny hconnector, (hreported hdecoded).1⟩

end TradingGuardrails
