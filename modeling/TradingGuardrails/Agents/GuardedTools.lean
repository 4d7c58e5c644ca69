import TradingGuardrails.Agents.HttpClient
import TradingGuardrails.Policy.Resource

/-!
The tools that an agent is given. A tool call turns its arguments into an intent whose
trusted fields come from the adapter, has it evaluated, and hands the decision back.
-/
namespace TradingGuardrails

open Text

namespace Agents

variable {host : Host}

inductive GuardedToolName where
  | proposeOrder
  | cancelOrder
  | simulateTransaction
  | requestSignature
  | getOrderStatus
  deriving DecidableEq

namespace GuardedToolName

def all : List GuardedToolName :=
  [.proposeOrder, .cancelOrder, .simulateTransaction, .requestSignature, .getOrderStatus]

def text : GuardedToolName → String
  | .proposeOrder => "propose_order"
  | .cancelOrder => "cancel_order"
  | .simulateTransaction => "simulate_transaction"
  | .requestSignature => "request_signature"
  | .getOrderStatus => "get_order_status"

def ofText? (s : String) : Option GuardedToolName :=
  all.find? fun tool => tool.text == s

def action : GuardedToolName → Action
  | .proposeOrder => .placeOrder
  | .cancelOrder => .cancelOrder
  | .simulateTransaction => .simulateTransaction
  | .requestSignature => .requestSignature
  | .getOrderStatus => .getOrderStatus

def resource (tool : GuardedToolName) (params : Json) : String :=
  match tool with
  | .proposeOrder | .cancelOrder | .getOrderStatus =>
      "cex:" ++ textField params "exchange" ++ ":" ++ textField params "account" ++ ":" ++
        textField params "symbol"
  | .simulateTransaction | .requestSignature =>
      "onchain:" ++ textField params "chain" ++ ":" ++ textField params "chainEnvironment" ++ ":" ++
        textField params "to"

end GuardedToolName

structure GuardedToolResult (host : Host) where
  success : Bool
  intentId : String
  correlationId : String
  outcome : String
  approvalId : Option String := none
  decidedAt : Option String := none
  decisionToken : Option String := none
  intent : Option (TradingIntent host) := none
  reasons : List Json

structure GuardedAgentContext where
  principal : String
  environment : String

def rejectToolCall (rule message : String) : GuardedToolResult host where
  success := false
  intentId := ""
  correlationId := ""
  outcome := "deny"
  reasons := [reason rule message]

def toResult (decision : GuardrailDecision) (intent : TradingIntent host) :
    GuardedToolResult host :=
  let approved := decision.outcome == .allow || decision.outcome == .needsHuman
  { success := decision.outcome == .allow
    intentId := decision.intentId
    correlationId := decision.correlationId
    outcome := decision.outcome.text
    approvalId := decision.approvalId
    decidedAt := if approved then some decision.decidedAt else none
    decisionToken := if approved then decision.decisionToken else none
    intent := if approved then some intent else none
    reasons := decision.reasons }

/-- `value ?? fallback` -/
def orElse (value : Option Json) (fallback : Json) : Json :=
  match value with
  | none | some .null => fallback
  | some v => v

/-- What a call takes from its surroundings: the fresh id and the time of an intent, and the
exchange with the service. -/
structure Surroundings (host : Host) where
  intentId : String
  now : String
  correlationId : String
  interrupted : Bool
  exchange : TradingIntent host → Exchange

def evaluateIntent (surroundings : Surroundings host) (input : Json) : GuardedToolResult host :=
  match TradingIntent.safeParse host (some input) with
  | none => rejectToolCall "schema_validation" "Tool arguments do not form a valid TradingIntent."
  | some intent =>
      match evaluate intent surroundings.correlationId surroundings.interrupted
          (surroundings.exchange intent) with
      | .error failure =>
          { rejectToolCall failure.error.text failure.message with
            intentId := intent.intentId
            correlationId := failure.correlationId }
      | .ok decision => toResult decision intent

def toolIntent (tool : GuardedToolName) (surroundings : Surroundings host) (params : Json) : Json :=
  (((params.put "intentId" (orElse (params.field? "intentId") (.str surroundings.intentId))).put
    "action" (.str tool.action.text)).put "resource" (.str (tool.resource params))).put
    "requestedAt" (orElse (params.field? "requestedAt") (.str surroundings.now))

def proposeWith (tool : GuardedToolName) (surroundings : Surroundings host) (params : Json) :
    GuardedToolResult host :=
  evaluateIntent surroundings (toolIntent tool surroundings params)

def proposeOrder (surroundings : Surroundings host) (params : Json) : GuardedToolResult host :=
  proposeWith .proposeOrder surroundings params

def proposeCancelOrder (surroundings : Surroundings host) (params : Json) :
    GuardedToolResult host :=
  proposeWith .cancelOrder surroundings params

def proposeSimulation (surroundings : Surroundings host) (params : Json) :
    GuardedToolResult host :=
  proposeWith .simulateTransaction surroundings params

def requestSignature (surroundings : Surroundings host) (params : Json) :
    GuardedToolResult host :=
  proposeWith .requestSignature surroundings params

def queryOrderStatus (surroundings : Surroundings host) (params : Json) :
    GuardedToolResult host :=
  proposeWith .getOrderStatus surroundings params

/-- The tool of the surface that a name stands for. -/
def callTool (surroundings : Surroundings host) (params : Json) :
    GuardedToolName → GuardedToolResult host
  | .proposeOrder => proposeOrder surroundings params
  | .cancelOrder => proposeCancelOrder surroundings params
  | .simulateTransaction => proposeSimulation surroundings params
  | .requestSignature => requestSignature surroundings params
  | .getOrderStatus => queryOrderStatus surroundings params

theorem callTool_eq (surroundings : Surroundings host) (params : Json) (tool : GuardedToolName) :
    callTool surroundings params tool =
      evaluateIntent surroundings (toolIntent tool surroundings params) := by
  cases tool <;> rfl

/-- `String(value ?? fallback)` -/
def textOr (params : Json) (key fallback : String) : Option Json :=
  some (.str (jsonString (orElse (params.field? key) (.str fallback))))

/-- `value != null ? convert(value) : undefined` -/
def given (params : Json) (key : String) (convert : Json → Json) : Option Json :=
  match params.field? key with
  | none | some .null => none
  | some v => some (convert v)

def toText (value : Json) : Json := .str (jsonString value)

def zero : Json := .num (.ofNat 0)

def baseMembers (context : GuardedAgentContext) (params : Json) (idempotencyKey : Json) :
    List (String × Option Json) := [
  ("principal", some (.str context.principal)),
  ("environment", some (.str context.environment)),
  ("rationale", textOr params "rationale" ""),
  ("evidence", some (match params.field? "evidence" with
    | some (.arr items) => .arr (items.map toText)
    | _ => .arr [])),
  ("idempotencyKey", some (toText idempotencyKey)),
  ("intentId", given params "intentId" toText),
  ("requestedAt", given params "requestedAt" toText)]

def referenceMembers (params : Json) : List (String × Option Json) := [
  ("exchange", textOr params "exchange" "binance"),
  ("account", textOr params "account" ""),
  ("orderId", textOr params "orderId" ""),
  ("symbol", textOr params "symbol" "")]

def onchainMembers (params : Json) : List (String × Option Json) := [
  ("chain", textOr params "chain" ""),
  ("chainEnvironment", textOr params "chainEnvironment" ""),
  ("to", textOr params "to" ""),
  ("data", params.field? "data"),
  ("value", params.field? "value"),
  ("programId", params.field? "programId"),
  ("instructions", params.field? "instructions"),
  ("expectedDeltas", params.field? "expectedDeltas")]

/-- The further parameters of each tool. `Number` gives nothing that the schema accepts for a
value that is no number, so the conversion is given as one to a value. -/
def toolMembers (toNumber : Json → Json) (tool : GuardedToolName) (params : Json) :
    List (String × Option Json) :=
  match tool with
  | .proposeOrder => [
      ("exchange", textOr params "exchange" "binance"),
      ("account", textOr params "account" ""),
      ("accountMode", textOr params "accountMode" "spot"),
      ("symbol", textOr params "symbol" ""),
      ("side", textOr params "side" ""),
      ("orderType", textOr params "orderType" "limit"),
      ("quantity", given params "quantity" toNumber),
      ("price", given params "price" toNumber),
      ("maxNotionalUsd", some (toNumber (orElse (params.field? "maxNotionalUsd") zero))),
      ("maxSlippageBps", some (toNumber (orElse (params.field? "maxSlippageBps") zero))),
      ("leverage", given params "leverage" toNumber),
      ("marginType", given params "marginType" toText)]
  | .cancelOrder | .getOrderStatus => referenceMembers params
  | .simulateTransaction => onchainMembers params
  | .requestSignature => onchainMembers params ++ [
      ("simulationId", textOr params "simulationId" ""),
      ("maxTokenApprovalAmount", params.field? "maxTokenApprovalAmount")]

def executeGuardedTool (toNumber : Json → Json) (surroundings : Surroundings host)
    (context : GuardedAgentContext) (toolName : String) (params : Json) : GuardedToolResult host :=
  match GuardedToolName.ofText? toolName with
  | none => rejectToolCall "unknown_tool" ("Tool " ++ toolName ++ " is not available.")
  | some tool => match params with
    | .obj _ =>
        let idempotencyKey := orElse (params.field? "idempotencyKey") (.str "")
        if (jsonString idempotencyKey).isEmpty then
          rejectToolCall "idempotency_required" "idempotencyKey is required."
        else callTool surroundings
          (.record (baseMembers context params idempotencyKey ++ toolMembers toNumber tool params))
          tool
    | _ => rejectToolCall "schema_validation" "Tool arguments must be an object."

/-- The fields of an intent that an agent has no say in are the adapter's, and the resource
is the one that the other fields name. -/
structure Confined (context : GuardedAgentContext) (tool : GuardedToolName)
    (intent : TradingIntent host) : Prop where
  principal : intent.principal = context.principal
  environment : intent.environment.text = context.environment
  action : intent.action = tool.action
  resource : canonicalResource intent = some intent.resource

theorem toolIntent_field {tool : GuardedToolName} {surroundings : Surroundings host}
    {params : Json} {key : String} (hid : key ≠ "intentId") (haction : key ≠ "action")
    (hresource : key ≠ "resource") (hrequested : key ≠ "requestedAt") :
    (toolIntent tool surroundings params).field? key = params.field? key := by
  rw [toolIntent, Json.field?_put_of_ne _ _ hrequested, Json.field?_put_of_ne _ _ hresource,
    Json.field?_put_of_ne _ _ haction, Json.field?_put_of_ne _ _ hid]

theorem toolIntent_action {tool : GuardedToolName} {surroundings : Surroundings host}
    {params : Json} (hobj : params.isObj = true) :
    (toolIntent tool surroundings params).field? "action" = some (.str tool.action.text) := by
  rw [toolIntent, Json.field?_put_of_ne _ _ (by decide), Json.field?_put_of_ne _ _ (by decide),
    Json.field?_put_self (by simpa using hobj)]

theorem toolIntent_resource {tool : GuardedToolName} {surroundings : Surroundings host}
    {params : Json} (hobj : params.isObj = true) :
    (toolIntent tool surroundings params).field? "resource" =
      some (.str (tool.resource params)) := by
  rw [toolIntent, Json.field?_put_of_ne _ _ (by decide), Json.field?_put_self (by simpa using hobj)]

/-- A tool names the resource of its intent as the service does. -/
theorem canonicalResource_toolIntent {tool : GuardedToolName} {surroundings : Surroundings host}
    {params : Json} {intent : TradingIntent host}
    (hvalue : intent.value = toolIntent tool surroundings params)
    (haction : intent.action = tool.action) :
    canonicalResource intent = some (tool.resource params) := by
  have htext : ∀ key, key ≠ "intentId" → key ≠ "action" → key ≠ "resource" →
      key ≠ "requestedAt" → intent.text key = textField params key := by
    intro key hid haction hresource hrequested
    rw [TradingIntent.text, textField, hvalue, toolIntent_field hid haction hresource hrequested,
      textField]
  have haccount := htext "account" (by decide) (by decide) (by decide) (by decide)
  have hsymbol := htext "symbol" (by decide) (by decide) (by decide) (by decide)
  have hexchange := htext "exchange" (by decide) (by decide) (by decide) (by decide)
  have hchain := htext "chain" (by decide) (by decide) (by decide) (by decide)
  have hplace := htext "chainEnvironment" (by decide) (by decide) (by decide) (by decide)
  have htarget := htext "to" (by decide) (by decide) (by decide) (by decide)
  cases hcex : intent.action.isCex with
  | true =>
      have hresource : tool.resource params =
          "cex:" ++ intent.exchange ++ ":" ++ intent.account ++ ":" ++ intent.symbol := by
        rw [TradingIntent.exchange, TradingIntent.account, TradingIntent.symbol, hexchange,
          haccount, hsymbol]
        cases tool with
        | simulateTransaction | requestSignature =>
            rw [haction] at hcex
            cases hcex
        | _ => rfl
      have hprefix : "cex:binance:" = "cex:" ++ "binance" ++ ":" := by decide
      rw [canonicalResource_cex hcex, hresource, (cex_fields hcex).2.2.2.1, hprefix]
      simp only [String.append_assoc]
  | false =>
      have hresource : tool.resource params = "onchain:" ++ intent.chain ++ ":" ++
          intent.chainEnvironment ++ ":" ++ intent.target := by
        rw [TradingIntent.chain, TradingIntent.chainEnvironment, TradingIntent.target, hchain,
          hplace, htarget]
        cases tool with
        | simulateTransaction | requestSignature => rfl
        | _ =>
            rw [haction] at hcex
            cases hcex
      rw [canonicalResource_onchain hcex, hresource]
      simp only [String.append_assoc]

theorem confined_of_tool {context : GuardedAgentContext} {tool : GuardedToolName}
    {surroundings : Surroundings host} {params : Json} {intent : TradingIntent host}
    (hprincipal : params.field? "principal" = some (.str context.principal))
    (henvironment : params.field? "environment" = some (.str context.environment))
    (h : TradingIntent.safeParse host (some (toolIntent tool surroundings params)) = some intent) :
    Confined context tool intent := by
  have hobj := Json.isObj_of_field? hprincipal
  have hvalue : intent.value = toolIntent tool surroundings params :=
    (Option.some.inj (TradingIntent.safeParse_value h)).symm
  have haction : intent.action = tool.action := by
    have htext := intent.action_field
    rw [hvalue, toolIntent_action hobj, Option.some.injEq, Json.str.injEq] at htext
    have := congrArg Action.ofText? htext
    rwa [Action.ofText?_text, Action.ofText?_text, Option.some.injEq, eq_comm] at this
  refine ⟨?_, ?_, haction, ?_⟩
  · have htext := intent.principal_field.1
    rw [hvalue, toolIntent_field (by decide) (by decide) (by decide) (by decide), hprincipal,
      Option.some.injEq, Json.str.injEq] at htext
    exact htext.symm
  · have htext := intent.environment_field
    rw [hvalue, toolIntent_field (by decide) (by decide) (by decide) (by decide), henvironment,
      Option.some.injEq, Json.str.injEq] at htext
    exact htext.symm
  · rw [canonicalResource_toolIntent hvalue haction, Option.some.injEq, TradingIntent.resource,
      TradingIntent.text, textField, hvalue, toolIntent_resource hobj]

structure Rejected (result : GuardedToolResult host) : Prop where
  success : result.success = false
  outcome : result.outcome = "deny"
  approvalId : result.approvalId = none
  decisionToken : result.decisionToken = none
  intent : result.intent = none

theorem rejected_toolCall (rule message : String) :
    Rejected (rejectToolCall rule message : GuardedToolResult host) :=
  ⟨rfl, rfl, rfl, rfl, rfl⟩

structure Passed (surroundings : Surroundings host) (context : GuardedAgentContext)
    (tool : GuardedToolName) (intent : TradingIntent host) (decision : GuardrailDecision)
    (result : GuardedToolResult host) : Prop where
  confined : Confined context tool intent
  intentId : decision.intentId = intent.intentId
  deliverable : Deliverable host decision
  evaluated : evaluate intent surroundings.correlationId surroundings.interrupted
    (surroundings.exchange intent) = .ok decision
  result : result = toResult decision intent

theorem evaluateIntent_cases (surroundings : Surroundings host) (input : Json) :
    Rejected (evaluateIntent surroundings input) ∨ ∃ intent decision,
      TradingIntent.safeParse host (some input) = some intent ∧
      evaluate intent surroundings.correlationId surroundings.interrupted
        (surroundings.exchange intent) = .ok decision ∧
      evaluateIntent surroundings input = toResult decision intent := by
  unfold evaluateIntent
  split
  · exact .inl (rejected_toolCall _ _)
  · next intent hparse =>
      split
      · exact .inl ⟨rfl, rfl, rfl, rfl, rfl⟩
      · next decision hdecision => exact .inr ⟨intent, decision, hparse, hdecision, rfl⟩

/-- A tool call looks at the answer for its own intent only. -/
theorem evaluateIntent_congr {surroundings : Surroundings host} {input : Json}
    {exchange : TradingIntent host → Exchange}
    (h : ∀ intent, TradingIntent.safeParse host (some input) = some intent →
      exchange intent = surroundings.exchange intent) :
    evaluateIntent { surroundings with exchange } input = evaluateIntent surroundings input := by
  unfold evaluateIntent
  cases hparse : TradingIntent.safeParse host (some input) with
  | none => rfl
  | some intent =>
      dsimp only
      rw [h intent hparse]

def toolParams (toNumber : Json → Json) (context : GuardedAgentContext) (tool : GuardedToolName)
    (params : Json) : Json :=
  .record (baseMembers context params (orElse (params.field? "idempotencyKey") (.str "")) ++
    toolMembers toNumber tool params)

theorem toolParams_principal (toNumber : Json → Json) (context : GuardedAgentContext)
    (tool : GuardedToolName) (params : Json) :
    (toolParams toNumber context tool params).field? "principal" =
      some (.str context.principal) := by
  rw [toolParams, baseMembers, List.cons_append, Json.field?_record_cons, if_pos rfl,
    Option.some_or]

theorem toolParams_environment (toNumber : Json → Json) (context : GuardedAgentContext)
    (tool : GuardedToolName) (params : Json) :
    (toolParams toNumber context tool params).field? "environment" =
      some (.str context.environment) := by
  rw [toolParams, baseMembers, List.cons_append, Json.field?_record_cons, if_neg (by decide),
    List.cons_append, Json.field?_record_cons, if_pos rfl, Option.some_or]

/-- A tool call that is not rejected at once is an evaluation with the parameters. -/
theorem executeGuardedTool_cases (toNumber : Json → Json) (surroundings : Surroundings host)
    (context : GuardedAgentContext) (toolName : String) (params : Json) :
    (∃ rule message, ∀ exchange : TradingIntent host → Exchange,
      executeGuardedTool toNumber { surroundings with exchange } context toolName params =
        rejectToolCall rule message) ∨
      ∃ tool, GuardedToolName.ofText? toolName = some tool ∧
        ∀ exchange : TradingIntent host → Exchange, executeGuardedTool toNumber
          { surroundings with exchange } context toolName params =
            evaluateIntent { surroundings with exchange }
            (toolIntent tool surroundings (toolParams toNumber context tool params)) := by
  unfold executeGuardedTool
  cases htool : GuardedToolName.ofText? toolName with
  | none => exact .inl ⟨"unknown_tool", "Tool " ++ toolName ++ " is not available.", fun _ => rfl⟩
  | some tool => cases params with
    | null | bool | num | str | arr =>
        exact .inl ⟨"schema_validation", "Tool arguments must be an object.", fun _ => rfl⟩
    | obj members =>
        dsimp only
        split_ifs with hkey
        · exact .inl ⟨"idempotency_required", "idempotencyKey is required.", fun _ => rfl⟩
        · exact .inr ⟨tool, rfl, fun _ => callTool_eq ..⟩

/-- An agent reaches the service with intents of its own principal and environment only, for
the action of the tool that it names and the resource that the service finds in the other
fields. What it is given is an answer about such an intent, or nothing. -/
theorem tool_confined (toNumber : Json → Json) (surroundings : Surroundings host)
    (context : GuardedAgentContext) (toolName : String) (params : Json) :
    let result := executeGuardedTool toNumber surroundings context toolName params
    (Rejected result ∨ ∃ tool intent decision, GuardedToolName.ofText? toolName = some tool ∧
      Passed surroundings context tool intent decision result) ∧
    ∀ exchange, (∀ tool intent, GuardedToolName.ofText? toolName = some tool →
        Confined context tool intent → exchange intent = surroundings.exchange intent) →
      executeGuardedTool toNumber { surroundings with exchange } context toolName params =
        result := by
  intro result
  have hconfined : ∀ {tool : GuardedToolName} {intent : TradingIntent host},
      TradingIntent.safeParse host (some (toolIntent tool surroundings
        (toolParams toNumber context tool params))) = some intent →
      Confined context tool intent :=
    confined_of_tool (toolParams_principal _ _ _ _) (toolParams_environment _ _ _ _)
  cases executeGuardedTool_cases toNumber surroundings context toolName params with
  | inl h =>
      obtain ⟨rule, message, hrejected⟩ := h
      have hresult : result = rejectToolCall rule message := hrejected surroundings.exchange
      rw [hresult]
      exact ⟨.inl (rejected_toolCall rule message), fun exchange _ => hrejected exchange⟩
  | inr h =>
      obtain ⟨tool, htool, hevaluates⟩ := h
      have hresult : result = evaluateIntent surroundings
          (toolIntent tool surroundings (toolParams toNumber context tool params)) :=
        hevaluates surroundings.exchange
      rw [hresult]
      constructor
      · apply (evaluateIntent_cases surroundings _).imp_right
        intro h
        obtain ⟨intent, decision, hparse, hdecision, hsame⟩ := h
        obtain ⟨hid, hdeliverable⟩ := evaluate_ok hdecision
        exact ⟨tool, intent, decision, htool, hconfined hparse, hid, hdeliverable, hdecision,
          hsame⟩
      · intro exchange hagree
        rw [hevaluates exchange]
        apply evaluateIntent_congr
        intro intent hparse
        exact hagree tool intent htool (hconfined hparse)

end Agents
end TradingGuardrails
