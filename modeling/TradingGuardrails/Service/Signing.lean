import TradingGuardrails.Schemas.Reordering
import TradingGuardrails.Service.Service
import TradingGuardrails.Text.Canonical

/-!
What the signing serializers identify. The guardrail service, its idempotency store and
the broker each carry the same serializer, which sorts keys by `localeCompare`; so one
token is good for an intent in every order of its keys as far as that comparison tells
the keys apart.
-/
namespace TradingGuardrails

open Text

variable {host : Host}

theorem isHexDigestAnyCase_of_isHexDigest {s : String} (h : isHexDigest s = true) :
    isHexDigestAnyCase s = true := by
  simp only [isHexDigest, isHexDigestAnyCase, Bool.and_eq_true, List.all_eq_true] at h ⊢
  refine ⟨h.1, fun c hc => ?_⟩
  rw [h.2 c hc, Bool.true_or]

/-- An approval passes on what the service decided and signed. -/
structure PassesOn (approval : Json) (decision : GuardrailDecision) (correlationId : String)
    (dryRun : Bool) (token : String) : Prop where
  outcome : approval.field? "outcome" = some (.str decision.outcome.text)
  correlationId : approval.field? "correlationId" = some (.str correlationId)
  decidedAt : approval.field? "decidedAt" = some (.str decision.decidedAt)
  approvalId : approval.field? "approvalId" = decision.approvalId.map .str
  dryRun : truthy (approval.field? "dryRun") = dryRun
  token : approval.field? "decisionToken" = some (.str token)

/-- The text and the tokens of an intent are those of its reorderings, and of no other
intent. Two messages with one digest are left out of consideration. -/
structure SignsCanonically (service : GuardrailService) (i : TradingIntent host) : Prop where
  text : ∀ j : TradingIntent host, j.value.Listed →
    (stableJson host i.value = stableJson host j.value ↔ Json.Equiv i.value j.value)
  token : ∀ (j : TradingIntent host) (decision : GuardrailDecision) (correlationId : String)
    (dryRun : Bool) (token : String) (approval : Json), j.value.Listed →
    service.createDecisionToken i decision correlationId dryRun = some token →
    PassesOn approval decision correlationId dryRun token →
    (host.hmacSha256 service.decisionSigningSecret (approvalTokenMessage approval i) =
        host.hmacSha256 service.decisionSigningSecret (approvalTokenMessage approval j) →
      approvalTokenMessage approval i = approvalTokenMessage approval j) →
    (decisionTokenMatches service.decisionSigningSecret approval j = .ok true ↔
      Json.Equiv i.value j.value)

/-- The message of a token shows the text of its intent. -/
theorem equiv_of_message {approval : Json} {decision : GuardrailDecision}
    {correlationId token : String} {dryRun : Bool} {i j : TradingIntent host}
    (hpasses : PassesOn approval decision correlationId dryRun token)
    (h : approvalTokenMessage approval i = approvalTokenMessage approval j) :
    Json.Equiv i.value j.value := by
  have hequiv := equiv_of_stableJson host h
  rw [hpasses.outcome, hpasses.correlationId, hpasses.decidedAt, hpasses.dryRun] at hequiv
  obtain ⟨y, hy, hxy⟩ := Json.equiv_field hequiv (by cases dryRun <;> simp [Json.record, Json.keys])
    (k := "intent") (by rw [Json.field?_record_cons]; rfl)
  rw [Json.field?_record_cons, if_pos rfl] at hy
  cases hy
  exact hxy

/-- The message depends on the text of the intent alone. -/
theorem message_of_text {approval : Json} {i j : TradingIntent host}
    (h : stableJson host i.value = stableJson host j.value) :
    approvalTokenMessage approval i = approvalTokenMessage approval j := by
  have htext : stableText host.localeCompare i.value = stableText host.localeCompare j.value :=
    String.ofList_injective h
  simp only [approvalTokenMessage, decisionTokenMessage, stableJson, Json.record,
    List.filterMap_cons, Option.map_some, stableText, memberTexts, htext]

theorem token_verifies_iff (hhost : host.Lawful) {secret token : String} {approval : Json}
    {i j : TradingIntent host} (htoken : approval.field? "decisionToken" = some (.str token))
    (hi : token = host.hmacSha256 secret (approvalTokenMessage approval i)) :
    decisionTokenMatches secret approval j = .ok true ↔
      host.hmacSha256 secret (approvalTokenMessage approval i) =
        host.hmacSha256 secret (approvalTokenMessage approval j) := by
  have hhex := hhost.hmacSha256_hex secret (approvalTokenMessage approval i)
  have hhex' := hhost.hmacSha256_hex secret (approvalTokenMessage approval j)
  simp only [decisionTokenMatches, htoken, valueString, jsonString, hi,
    isHexDigestAnyCase_of_isHexDigest hhex, Bool.not_true, Bool.false_eq_true, if_false,
    timingSafeEqualHex, Except.ok.injEq, beq_iff_eq]
  constructor
  · exact hexBytes_inj hhex hhex'
  · exact congrArg hexBytes

/-- The serializers are canonical on an intent exactly when the comparison separates the
keys of every object in it. -/
theorem signs_canonically_iff (hhost : host.Lawful) (hle : TotalPreorder host.localeCompare)
    (service : GuardrailService) (i : TradingIntent host) (hi : i.value.Listed) :
    SignsCanonically service i ↔ i.value.Separated host.localeCompare := by
  constructor
  · intro h
    refine (canonical_iff_separated hle hi).mp fun w hw hequiv => ?_
    have hvalid := IntentSchema.unordered_tradingIntent i.value w hequiv i.valid
    exact String.ofList_injective ((h.text ⟨w, hvalid⟩ hw).mpr hequiv)
  · intro hsep
    have htext : ∀ j : TradingIntent host, j.value.Listed →
        (stableJson host i.value = stableJson host j.value ↔ Json.Equiv i.value j.value) := by
      intro j hj
      refine ⟨equiv_of_stableJson host, fun hequiv => ?_⟩
      exact congrArg String.ofList ((canonical_iff_separated hle hi).mpr hsep j.value hj hequiv)
    refine ⟨htext, ?_⟩
    intro j decision correlationId dryRun token approval hj hcreated hpasses hcollision
    have htoken : token = host.hmacSha256 service.decisionSigningSecret
        (approvalTokenMessage approval i) := by
      simp only [GuardrailService.createDecisionToken] at hcreated
      split_ifs at hcreated
      rw [approvalTokenMessage, hpasses.outcome, hpasses.correlationId, hpasses.decidedAt,
        hpasses.approvalId, hpasses.dryRun]
      exact (Option.some.inj hcreated).symm
    rw [token_verifies_iff hhost hpasses.token htoken]
    constructor
    · intro hsame
      exact equiv_of_message hpasses (hcollision hsame)
    · intro hequiv
      rw [message_of_text ((htext j hj).mpr hequiv)]

abbrev codeUnitHost : Host :=
  { plainHost (fun _ => zeroDigest) fun _ _ => zeroDigest with localeCompare := codeUnitLe }

theorem codeUnitHost_lawful : codeUnitHost.Lawful :=
  have h : (plainHost (fun _ => zeroDigest) fun _ _ => zeroDigest).Lawful :=
    plainHost_lawful (fun _ => by decide) fun _ _ => by decide
  ⟨h.sha256_hex, h.hmacSha256_hex, h.dateParse_toISOString⟩

def composed (s : String) : String :=
  if s = "e\u0301" then "\u00e9" else s

def accentLe (a b : String) : Bool :=
  codeUnitLe (composed a) (composed b)

theorem accentLe_preorder : TotalPreorder accentLe where
  total _ _ := unitsLe_total _ _
  trans hab hbc := unitsLe_trans hab hbc

abbrev accentHost : Host := { codeUnitHost with localeCompare := accentLe }

def simulationMembers : List (String × Json) := [
  ("intentId", .str "i"),
  ("principal", .str "p"),
  ("action", .str "onchain.simulate_transaction"),
  ("resource", .str "onchain:solana:devnet:a"),
  ("environment", .str "paper"),
  ("requestedAt", .str "t"),
  ("idempotencyKey", .str "k"),
  ("rationale", .str "x"),
  ("evidence", .arr [.str "e"]),
  ("chain", .str "solana"),
  ("chainEnvironment", .str "devnet"),
  ("to", .str "a")]

def instructed (instruction : List (String × Json)) : Json :=
  .obj (simulationMembers ++ ("instructions", .arr ([] ++ .obj instruction :: [])) :: [])

theorem signingSecret_accepted :
    assertDecisionSecret .paper "0123456789012345678901234567890123456789" = true := by
  decide

def signingService : GuardrailService where
  environment := .paper
  decisionSigningSecret := "0123456789012345678901234567890123456789"
  risk := .anything
  secretAccepted := signingSecret_accepted

def codeUnitIntent : TradingIntent codeUnitHost :=
  ⟨instructed [("\u00e9", .str "x"), ("e\u0301", .str "y")], by decide +kernel⟩

theorem signs_canonically_iff_codeUnits : SignsCanonically signingService codeUnitIntent := by
  have hle : TotalPreorder codeUnitHost.localeCompare :=
    ⟨fun _ _ => unitsLe_total _ _, fun hab hbc => unitsLe_trans hab hbc⟩
  have hseparated : codeUnitIntent.value.Separated codeUnitHost.localeCompare :=
    separated_of_antisymm (fun _ _ hab hba => codeUnits_inj (unitsLe_antisymm hab hba)) _
  exact (signs_canonically_iff codeUnitHost_lawful hle signingService codeUnitIntent
    (by decide +kernel)).mpr hseparated

def accented : List (String × Json) := [("\u00e9", .str "x"), ("e\u0301", .str "y")]

def reordered : List (String × Json) := [("e\u0301", .str "y"), ("\u00e9", .str "x")]

def accentedIntent : TradingIntent accentHost := ⟨instructed accented, by decide +kernel⟩

def reorderedIntent : TradingIntent accentHost := ⟨instructed reordered, by decide +kernel⟩

/-- Two equal intents with two texts. -/
theorem equal_intents_have_two_texts :
    TotalPreorder accentHost.localeCompare ∧
      accentedIntent.value.Listed ∧ reorderedIntent.value.Listed ∧
      Json.Equiv accentedIntent.value reorderedIntent.value ∧
      stableJson accentHost accentedIntent.value ≠ stableJson accentHost reorderedIntent.value := by
  have hequiv : Json.Equiv accentedIntent.value reorderedIntent.value :=
    Json.equiv_member (Json.equiv_item (Json.equiv_perm (List.Perm.swap _ _ [])))
  refine ⟨accentLe_preorder, by decide +kernel, by decide +kernel, hequiv, ?_⟩
  intro h
  have hinstructions := text_of_member (String.ofList_injective h) (k := "instructions")
    (x := .arr [.obj accented]) (y := .arr [.obj reordered]) (by decide +kernel)
    (List.mem_append_right _ List.mem_cons_self) (List.mem_append_right _ List.mem_cons_self)
  exact absurd hinstructions (by decide +kernel)

end TradingGuardrails
