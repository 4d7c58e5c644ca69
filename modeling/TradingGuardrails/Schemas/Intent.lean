import TradingGuardrails.Number
import TradingGuardrails.Schemas.Common
import TradingGuardrails.Text.DecimalOrder

/-!
Trading intents: the JSON values that the intent schema accepts. The schema is chosen by
the action, and for on-chain actions by the chain.
-/
namespace TradingGuardrails

open Text Check

namespace IntentSchema

def maxEvidenceItems : Nat := 64
def maxInstructions : Nat := 64
def maxExpectedDeltas : Nat := 256

def uint256MaxDecimal : String :=
  "115792089237316195423570985008687907853269984665640564039457584007913129639935"

/-- `/^-?\d+$/` -/
def integerDelta : Check := string fun s =>
  match s.toList with
  | '-' :: ds => !ds.isEmpty && ds.all Char.isDigit
  | ds => !ds.isEmpty && ds.all Char.isDigit

/-- `/^(0|[1-9]\d*)$/` -/
def canonicalDecimal (s : String) : Bool :=
  s == "0" || match s.toList with
    | [] => false
    | d :: ds => d != '0' && (d :: ds).all Char.isDigit

theorem canonicalDecimal_iff {s : String} :
    canonicalDecimal s = true ↔ Canonical s.toList := by
  rw [canonicalDecimal, Bool.or_eq_true, beq_iff_eq]
  constructor
  · rintro (rfl | h)
    · exact canonical_toDigits 0
    · cases hchars : s.toList with
      | nil => simp [hchars] at h
      | cons d ds =>
          simp only [hchars, Bool.and_eq_true, bne_iff_ne, List.all_eq_true] at h
          refine ⟨h.2, List.cons_ne_nil _ _, fun hhead => ?_⟩
          exact absurd (Option.some.inj hhead) h.1
  · intro h
    cases hchars : s.toList with
    | nil => exact absurd hchars h.nonempty
    | cons d ds =>
        by_cases hd : d = '0'
        · subst hd
          have hone := h.leading (by rw [hchars, List.head?_cons])
          exact .inl (String.toList_inj.mp hone)
        · refine .inr ?_
          simp only [Bool.and_eq_true, bne_iff_ne, List.all_eq_true]
          exact ⟨hd, hchars ▸ h.digits⟩

def tokenApprovalAmount : Check := string fun s =>
  canonicalDecimal s &&
    (s.length < uint256MaxDecimal.length ||
      (s.length == uint256MaxDecimal.length && codeUnitLe s uint256MaxDecimal))

variable (host : Host)

def intentEnvelope (action : Action) : List Field := [
  required "intentId" (string host.isUuid),
  required "principal" nonEmpty,
  required "action" (literal action.text),
  required "resource" nonEmpty,
  required "environment" environment,
  required "requestedAt" (string host.isDatetime),
  required "idempotencyKey" nonEmpty,
  required "rationale" nonEmpty,
  required "evidence" (array nonEmpty fun n => 1 ≤ n && n ≤ maxEvidenceItems)]

def cexOrderFields : List Field := [
  required "exchange" (literal "binance"),
  required "account" nonEmpty,
  required "accountMode" (oneOf ["spot", "usdm_futures"]),
  required "symbol" nonEmpty,
  required "side" (oneOf ["buy", "sell"]),
  required "orderType" (oneOf ["limit"]),
  required "quantity" positive,
  required "price" positive,
  required "maxNotionalUsd" positive,
  required "maxSlippageBps" (number fun q => decide (0 ≤ q) && isInt q),
  optional "leverage" (number fun q => isInt q && decide (1 ≤ q)),
  optional "marginType" (oneOf ["isolated", "cross"])]

def cexReferenceFields : List Field := [
  required "exchange" (literal "binance"),
  required "account" nonEmpty,
  required "orderId" nonEmpty,
  required "symbol" nonEmpty]

def expectedBalanceDelta (owner : String) : Check := strict [
  required owner nonEmpty,
  required "asset" nonEmpty,
  required "minDelta" integerDelta,
  required "maxDelta" integerDelta]

def evmExpectedBalanceDelta : Check := expectedBalanceDelta "address"

def solanaExpectedBalanceDelta : Check := expectedBalanceDelta "account"

def instructions : Check := array (record any) fun n => n ≤ maxInstructions

def onchainSimulationBase : List Field := [
  required "to" nonEmpty,
  optional "data" text,
  optional "value" text,
  optional "programId" text,
  optional "instructions" instructions]

def onchainSimulationFields : String → Option (List Field)
  | "ethereum" => some (onchainSimulationBase ++ [
      required "chain" (literal "ethereum"),
      required "chainEnvironment" (oneOf ["sepolia", "mainnet"]),
      optional "expectedDeltas"
        (array evmExpectedBalanceDelta fun n => n ≤ maxExpectedDeltas)])
  | "solana" => some (onchainSimulationBase ++ [
      required "chain" (literal "solana"),
      required "chainEnvironment" (oneOf ["devnet", "mainnet"]),
      optional "expectedDeltas"
        (array solanaExpectedBalanceDelta fun n => n ≤ maxExpectedDeltas)])
  | _ => none

def onchainSigningFields : String → Option (List Field)
  | "ethereum" => some [
      required "to" nonEmpty,
      optional "data" text,
      optional "value" text,
      optional "programId" text,
      optional "instructions" instructions,
      required "simulationId" (string host.isUuid),
      optional "maxTokenApprovalAmount" tokenApprovalAmount,
      required "chain" (literal "ethereum"),
      required "chainEnvironment" (oneOf ["sepolia", "mainnet"]),
      required "expectedDeltas"
        (array evmExpectedBalanceDelta fun n => 1 ≤ n && n ≤ maxExpectedDeltas)]
  | "solana" => some [
      required "to" nonEmpty,
      optional "data" text,
      optional "value" text,
      required "programId" nonEmpty,
      optional "instructions" instructions,
      required "simulationId" (string host.isUuid),
      optional "maxTokenApprovalAmount" tokenApprovalAmount,
      required "chain" (literal "solana"),
      required "chainEnvironment" (oneOf ["devnet", "mainnet"]),
      required "expectedDeltas"
        (array solanaExpectedBalanceDelta fun n => 1 ≤ n && n ≤ maxExpectedDeltas)]
  | _ => none

def bodyFields (action : Action) (chain : String) : Option (List Field) :=
  match action with
  | .placeOrder => some cexOrderFields
  | .cancelOrder => some cexReferenceFields
  | .getOrderStatus => some cexReferenceFields
  | .simulateTransaction => onchainSimulationFields chain
  | .requestSignature => onchainSigningFields host chain

def tradingIntent : Check := fun v =>
  match Action.ofText? (textField v "action") with
  | none => false
  | some action => match bodyFields host action (textField v "chain") with
    | none => false
    | some body => strict (intentEnvelope host action ++ body) v

end IntentSchema

structure TradingIntent (host : Host) where
  value : Json
  valid : IntentSchema.tradingIntent host value = true

namespace TradingIntent

variable {host : Host}

instance : DecidableEq (TradingIntent host) := fun i j =>
  decidable_of_iff (i.value = j.value) (by cases i; cases j; simp)

def safeParse (host : Host) : Option Json → Option (TradingIntent host)
  | none => none
  | some v => if h : IntentSchema.tradingIntent host v = true then some ⟨v, h⟩ else none

theorem safeParse_value {v : Option Json} {i : TradingIntent host}
    (h : safeParse host v = some i) : v = some i.value := by
  cases v with
  | none => cases h
  | some v =>
      simp only [safeParse] at h
      split_ifs at h
      cases h
      rfl

theorem safeParse_self (i : TradingIntent host) : safeParse host (some i.value) = some i :=
  dif_pos i.valid

def text (i : TradingIntent host) (key : String) : String := textField i.value key

/-- `key in intent` -/
def has (i : TradingIntent host) (key : String) : Bool := i.value.hasField key

def number (i : TradingIntent host) (key : String) : ℚ :=
  match i.value.field? key with
  | some (.num n) => n.double
  | _ => 0

def intentId (i : TradingIntent host) : String := i.text "intentId"
def principal (i : TradingIntent host) : String := i.text "principal"
def resource (i : TradingIntent host) : String := i.text "resource"
def idempotencyKey (i : TradingIntent host) : String := i.text "idempotencyKey"
def rationale (i : TradingIntent host) : String := i.text "rationale"
def exchange (i : TradingIntent host) : String := i.text "exchange"
def account (i : TradingIntent host) : String := i.text "account"
def symbol (i : TradingIntent host) : String := i.text "symbol"
def side (i : TradingIntent host) : String := i.text "side"
def orderId (i : TradingIntent host) : String := i.text "orderId"
def chain (i : TradingIntent host) : String := i.text "chain"
def chainEnvironment (i : TradingIntent host) : String := i.text "chainEnvironment"
def target (i : TradingIntent host) : String := i.text "to"
def maxNotionalUsd (i : TradingIntent host) : ℚ := i.number "maxNotionalUsd"

def evidence (i : TradingIntent host) : List String :=
  match i.value.field? "evidence" with
  | some (.arr xs) => xs.map fun x => match x with
    | .str s => s
    | _ => ""
  | _ => []

def action (i : TradingIntent host) : Action :=
  (Action.ofText? (i.text "action")).getD .getOrderStatus

def environment (i : TradingIntent host) : Environment :=
  (Environment.ofText? (i.text "environment")).getD .dev

/-- The fields of the schema that accepted an intent. -/
theorem fields (i : TradingIntent host) : ∃ body,
    Action.ofText? (i.text "action") = some i.action ∧
    IntentSchema.bodyFields host i.action i.chain = some body ∧
    strict (IntentSchema.intentEnvelope host i.action ++ body) i.value = true := by
  have h := i.valid
  simp only [IntentSchema.tradingIntent] at h
  split at h
  · cases h
  · rename_i action haction
    have hact : i.action = action := by
      simp only [TradingIntent.action, text, haction, Option.getD_some]
    split at h
    · cases h
    · rename_i body hbody
      exact ⟨body, by rw [hact]; exact haction, by rw [hact]; exact hbody, by rw [hact]; exact h⟩

theorem keys_nodup (i : TradingIntent host) : i.value.keys.Nodup := by
  obtain ⟨body, -, -, h⟩ := i.fields
  exact strict_nodup h

theorem envelope_text (i : TradingIntent host) (key : String) (accepts : String → Bool)
    (hmem : required key (Check.string accepts) ∈
      IntentSchema.intentEnvelope host i.action) :
    i.value.field? key = some (.str (i.text key)) ∧ accepts (i.text key) = true := by
  obtain ⟨body, -, -, h⟩ := i.fields
  obtain ⟨x, hx, hcheck⟩ := strict_required h (List.mem_append_left _ hmem)
  obtain ⟨s, rfl, hs⟩ := string_text hcheck
  have htext : i.text key = s := by simp only [text, textField, hx]
  rw [htext]
  exact ⟨hx, hs⟩

theorem body_text (i : TradingIntent host) {key : String} {accepts : String → Bool}
    {body : List Field} (hbody : IntentSchema.bodyFields host i.action i.chain = some body)
    (hmem : required key (Check.string accepts) ∈ body) :
    i.value.field? key = some (.str (i.text key)) ∧ accepts (i.text key) = true := by
  obtain ⟨body', -, hbody', h⟩ := i.fields
  rw [hbody, Option.some.injEq] at hbody'
  subst hbody'
  obtain ⟨x, hx, hcheck⟩ := strict_required h (List.mem_append_right _ hmem)
  obtain ⟨s, rfl, hs⟩ := string_text hcheck
  have htext : i.text key = s := by simp only [text, textField, hx]
  rw [htext]
  exact ⟨hx, hs⟩

/-- An order is accepted with a positive amount only. -/
theorem maxNotionalUsd_nonneg (i : TradingIntent host) (horder : i.action = .placeOrder) :
    0 ≤ i.maxNotionalUsd := by
  obtain ⟨body, -, hbody, hstrict⟩ := i.fields
  rw [horder] at hbody
  cases hbody
  have hfield : required "maxNotionalUsd" positive ∈ IntentSchema.cexOrderFields := by
    simp [IntentSchema.cexOrderFields]
  obtain ⟨v, hv, hpositive⟩ := strict_required hstrict (List.mem_append_right _ hfield)
  cases v with
  | num n =>
      rw [maxNotionalUsd, number, hv]
      exact Binary64.round_nonneg (of_decide_eq_true hpositive).le
  | null | bool | str | arr | obj => cases hpositive

theorem intentId_field (i : TradingIntent host) :
    i.value.field? "intentId" = some (.str i.intentId) ∧ host.isUuid i.intentId = true :=
  i.envelope_text "intentId" host.isUuid (by simp [IntentSchema.intentEnvelope])

theorem principal_field (i : TradingIntent host) :
    i.value.field? "principal" = some (.str i.principal) ∧ (!i.principal.isEmpty) = true :=
  i.envelope_text "principal" (fun s => !s.isEmpty)
    (by simp [IntentSchema.intentEnvelope, nonEmpty])

theorem action_field (i : TradingIntent host) :
    i.value.field? "action" = some (.str i.action.text) := by
  obtain ⟨body, haction, -, h⟩ := i.fields
  have hmem : required "action" (literal i.action.text) ∈
      IntentSchema.intentEnvelope host i.action := by
    simp [IntentSchema.intentEnvelope]
  have htext := i.envelope_text _ _ hmem
  rw [htext.1]
  simpa using htext.2

theorem environment_field (i : TradingIntent host) :
    i.value.field? "environment" = some (.str i.environment.text) := by
  have htext := i.envelope_text "environment"
    (fun s => (Environment.all.map Environment.text).contains s)
    (by simp [IntentSchema.intentEnvelope, Check.environment, oneOf])
  obtain ⟨e, -, he⟩ := List.mem_map.mp (List.contains_iff_mem.mp htext.2)
  have hof : Environment.ofText? (i.text "environment") = some e := by
    rw [← he, Environment.ofText?_text]
  simp only [environment, hof, Option.getD_some, he, htext.1]

theorem action_of_equiv {i j : TradingIntent host} (h : Json.Equiv i.value j.value) :
    j.action = i.action := by
  have hj := Json.equiv_text h j.keys_nodup i.action_field
  rw [j.action_field] at hj
  have htext : j.action.text = i.action.text := by simpa using hj
  have := congrArg Action.ofText? htext
  rwa [Action.ofText?_text, Action.ofText?_text, Option.some.injEq] at this

theorem environment_of_equiv {i j : TradingIntent host} (h : Json.Equiv i.value j.value) :
    j.environment = i.environment := by
  have hj := Json.equiv_text h j.keys_nodup i.environment_field
  rw [j.environment_field] at hj
  have htext : j.environment.text = i.environment.text := by simpa using hj
  have := congrArg Environment.ofText? htext
  rwa [Environment.ofText?_text, Environment.ofText?_text, Option.some.injEq] at this

end TradingIntent

/-- Two intents name the same key: the same idempotency key, principal, action and resource. -/
structure SameScopedKey {host : Host} (intent other : TradingIntent host) : Prop where
  idempotencyKey : intent.idempotencyKey = other.idempotencyKey
  principal : intent.principal = other.principal
  action : intent.action = other.action
  resource : intent.resource = other.resource

end TradingGuardrails
