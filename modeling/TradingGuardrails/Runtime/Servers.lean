import TradingGuardrails.Agents.GuardedTools
import TradingGuardrails.Broker.Report

/-!
The HTTP servers in front of the guardrail service and of the execution broker. A request
becomes a call, or an error with its status; what comes of the call becomes a response.
-/
namespace TradingGuardrails

open Text Check
open Signer (isCorrelationId)

namespace Runtime

/-- An error with its status, and with the method that the response allows instead. -/
structure HttpError where
  statusCode : Nat
  message : String
  allow : Option String := none
  deriving DecidableEq

/-- A correlation id that a server takes from a request, or generates. -/
structure CorrelationId where
  text : String
  valid : isCorrelationId text = true

/-- A request. Its URL may have no path; its body has a number of bytes, and is JSON or not. -/
structure IncomingMessage where
  method : String
  path : Option String
  correlationId : Option String
  contentType : Option String
  contentLength : Option String
  size : Nat
  parsed : Option Json

structure ServerResponse where
  status : Nat
  correlationId : String
  allow : Option String := none
  body : Json

def maxJsonBodyBytes : Nat := 1048576

def getRequestCorrelationId (generated : CorrelationId) (request : IncomingMessage) :
    Except HttpError CorrelationId :=
  match request.correlationId with
  | none => .ok generated
  | some raw =>
      if h : isCorrelationId raw = true then .ok ⟨raw, h⟩
      else .error ⟨400, "Invalid correlation ID.", none⟩

def isJsonMediaType (contentType : String) : Bool :=
  lowerCase (trim (String.ofList (contentType.toList.takeWhile (· ≠ ';')))) ==
    "application/json".toList

def declaredLength (header : String) : Option Nat :=
  if header.isEmpty || !header.toList.all Char.isDigit then none
  else some (Nat.ofDigitChars 10 header.toList 0)

def readJsonBody (request : IncomingMessage) : Except HttpError Json :=
  if !request.contentType.any isJsonMediaType then .error ⟨415, "Unsupported media type.", none⟩
  else if (request.contentLength.bind declaredLength).any fun length =>
      decide (length ≤ 9007199254740991) && decide (maxJsonBodyBytes < length) then
    .error ⟨413, "Request body too large.", none⟩
  else if maxJsonBodyBytes < request.size then .error ⟨413, "Request body too large.", none⟩
  else match request.parsed with
  | none => .error ⟨400, "Malformed JSON body.", none⟩
  | some body => .ok body

def routeNotFound : HttpError := ⟨404, "Route not found.", none⟩

def requireMethod (method : String) (request : IncomingMessage) : Except HttpError Unit :=
  if request.method = method then .ok () else .error ⟨405, "Method not allowed.", some method⟩

def respond {Call : Type} (generated : CorrelationId) (request : IncomingMessage)
    (call : Except HttpError Call) (serve : Call → Except Thrown (Nat × Json)) : ServerResponse :=
  let correlationId :=
    ((getRequestCorrelationId generated request).toOption.getD generated).text
  let failure (status : Nat) (allow : Option String) (message : String) : ServerResponse :=
    { status, correlationId, allow
      body := .record [
        ("error", some (.str message)),
        ("correlationId", some (.str correlationId))] }
  match call with
  | .error error => failure error.statusCode error.allow error.message
  | .ok call => match serve call with
    | .error _ => failure 500 none "Internal server error."
    | .ok (status, body) => { status, correlationId, body }

inductive GuardrailCall (host : Host) where
  | health
  | evaluate (intent : TradingIntent host) (options : EvaluationOptions)

def guardrailCall (host : Host) (generated : CorrelationId) (request : IncomingMessage) :
    Except HttpError (GuardrailCall host) := do
  let correlationId ← getRequestCorrelationId generated request
  match request.path with
  | none => throw routeNotFound
  | some path =>
      if path = "/health" then
        requireMethod "GET" request
        pure .health
      else if path = "/evaluate" ∨ path = "/dry-run" then
        requireMethod "POST" request
        match TradingIntent.safeParse host (some (← readJsonBody request)) with
        | none => throw ⟨400, "Invalid trading intent.", none⟩
        | some intent => pure (.evaluate intent
            { correlationId := some correlationId.text, dryRun := path == "/dry-run" })
      else throw routeNotFound

/-- An intent that is posted to `/evaluate` becomes a call. -/
theorem guardrailCall_evaluate {host : Host} {generated id : CorrelationId}
    {request : IncomingMessage} {intent : TradingIntent host}
    (hid : getRequestCorrelationId generated request = .ok id)
    (hmethod : request.method = "POST") (hpath : request.path = some "/evaluate")
    (hbody : readJsonBody request = .ok intent.value) :
    guardrailCall host generated request =
      .ok (.evaluate intent { correlationId := some id.text }) := by
  have hpost : requireMethod "POST" request = .ok () := if_pos hmethod
  have hroute : ("/evaluate" == "/dry-run") = false := by decide
  simp only [guardrailCall, hid, hpath, hpost, hbody, hroute, TradingIntent.safeParse,
    dif_pos intent.valid, bind, Except.bind, pure, Except.pure, String.reduceEq, if_false, true_or,
    if_true]

/-- The service is told the correlation id of the request. -/
theorem correlationId_of_call {host : Host} {generated : CorrelationId}
    {request : IncomingMessage} {intent : TradingIntent host} {options : EvaluationOptions}
    (h : guardrailCall host generated request = .ok (.evaluate intent options)) :
    ∃ id : CorrelationId, options.correlationId = some id.text := by
  obtain ⟨id, -, h⟩ := bind_eq_ok.mp h
  refine ⟨id, ?_⟩
  cases hpath : request.path with
  | none =>
      rw [hpath] at h
      cases h
  | some path =>
      simp only [hpath] at h
      split_ifs at h
      · obtain ⟨_, -, h⟩ := bind_eq_ok.mp h
        cases h
      · obtain ⟨_, -, h⟩ := bind_eq_ok.mp h
        obtain ⟨body, -, h⟩ := bind_eq_ok.mp h
        cases hparse : TradingIntent.safeParse host (some body) with
        | none =>
            simp only [hparse] at h
            cases h
        | some parsed =>
            simp only [hparse] at h
            cases h
            rfl

structure GuardrailAnswers (host : Host) where
  opaHealthy : Bool
  evaluate : TradingIntent host → EvaluationOptions → Except Thrown GuardrailDecision

def GuardrailAnswers.serve {host : Host} (answers : GuardrailAnswers host) :
    GuardrailCall host → Except Thrown (Nat × Json)
  | .health => .ok (if answers.opaHealthy then 200 else 503, .record [
      ("status", some (.str (if answers.opaHealthy then "ok" else "degraded"))),
      ("opaHealthy", some (.bool answers.opaHealthy))])
  | .evaluate intent options => do
      let decision ← answers.evaluate intent options
      pure (200, decision.toJson)

def guardrailServer {host : Host} (answers : GuardrailAnswers host) (generated : CorrelationId)
    (request : IncomingMessage) : ServerResponse :=
  respond generated request (guardrailCall host generated request) answers.serve

/-- A decision of the service is answered as it is. -/
theorem guardrailServer_evaluate {host : Host} {answers : GuardrailAnswers host}
    {generated : CorrelationId} {request : IncomingMessage} {intent : TradingIntent host}
    {options : EvaluationOptions} {decision : GuardrailDecision}
    (hcall : guardrailCall host generated request = .ok (.evaluate intent options))
    (hdecided : answers.evaluate intent options = .ok decision) :
    (guardrailServer answers generated request).status = 200 ∧
      (guardrailServer answers generated request).body = decision.toJson := by
  simp only [guardrailServer, respond, hcall, GuardrailAnswers.serve, hdecided, bind, Except.bind,
    pure, Except.pure, and_self]

def never : Check := fun _ => false

def stripped (fields : List Field) (v : Json) : Option Json :=
  match v with
  | .obj _ =>
      if fields.all fun field => field.accepts v then
        some (.record (fields.map fun field => (field.key, v.field? field.key)))
      else none
  | _ => none

theorem field?_not_kept {fields : List Field} {v : Json} {key : String}
    (hkey : key ∉ fields.map Field.key) :
    (Json.record (fields.map fun field => (field.key, v.field? field.key))).field? key = none := by
  induction fields with
  | nil => rfl
  | cons field fields ih =>
      rw [List.map_cons, List.mem_cons, not_or] at hkey
      rw [List.map_cons, Json.field?_record_cons, if_neg (Ne.symm hkey.1), ih hkey.2]

theorem field?_kept {fields : List Field} {v : Json} {key : String}
    (hkey : key ∈ fields.map Field.key) :
    (Json.record (fields.map fun field => (field.key, v.field? field.key))).field? key =
      v.field? key := by
  induction fields with
  | nil => cases hkey
  | cons field fields ih =>
      rw [List.map_cons, Json.field?_record_cons]
      by_cases h : field.key = key
      · rw [if_pos h, h]
        by_cases hrest : key ∈ fields.map Field.key
        · rw [ih hrest, Option.or_self]
        · rw [field?_not_kept hrest, Option.or_none]
      · rw [if_neg h]
        apply ih
        exact (List.mem_cons.mp hkey).resolve_left fun hhead => h hhead.symm

/-- What is kept of an object that is accepted is what it says under the given fields. -/
theorem stripped_field {fields : List Field} {v w : Json} (h : stripped fields v = some w)
    {key : String} (hkey : key ∈ fields.map Field.key) : w.field? key = v.field? key := by
  cases v with
  | null | bool | num | str | arr => cases h
  | obj members =>
      simp only [stripped] at h
      split_ifs at h
      cases h
      exact field?_kept hkey

theorem accepts_required {key : String} {check : Check} {v x : Json} (hx : v.field? key = some x)
    (h : check x = true) : (required key check).accepts v = true := by
  simp only [Field.accepts, required, hx, h]

theorem accepts_optional {key : String} {check : Check} {v : Json}
    (h : ∀ x, v.field? key = some x → check x = true) : (optional key check).accepts v = true := by
  unfold Field.accepts
  split
  · next x hx => exact h x hx
  · rfl

theorem stripped_kept {fields : List Field} {v : Json} (hobj : v.isObj = true)
    (h : ∀ field ∈ fields, field.accepts v = true) :
    ∃ w, stripped fields v = some w ∧
      ∀ key ∈ fields.map Field.key, w.field? key = v.field? key := by
  have hkept : stripped fields v =
      some (.record (fields.map fun field => (field.key, v.field? field.key))) := by
    cases v with
    | null | bool | num | str | arr => cases hobj
    | obj members => exact if_pos (List.all_eq_true.mpr h)
  exact ⟨_, hkept, fun key hkey => stripped_field hkept hkey⟩

def dryRunAuthorization (host : Host) : Check := strict [
  required "checkedAt" (string host.isDatetime),
  required "token" (string isHexDigest)]

/-- The fields of every approval; a preview is marked as such, an approval never. -/
def approvalFields (host : Host) (dryRun : Field) : List Field := [
  dryRun,
  optional "dryRunAuthorization" (dryRunAuthorization host),
  required "intentId" (string host.isUuid),
  required "correlationId" (string isCorrelationId),
  required "intent" (IntentSchema.tradingIntent host),
  required "decidedAt" (string host.isDatetime),
  required "decisionToken" (string isHexDigest)]

def approvalSchema (host : Host) (body : Json) : Option Json :=
  match body.field? "outcome" with
  | some (.str "allow") => stripped (approvalFields host (optional "dryRun" never) ++ [
      required "outcome" (literal "allow"),
      optional "approvalId" (string host.isUuid)]) body
  | some (.str "needs_human") => stripped (approvalFields host (optional "dryRun" never) ++ [
      required "outcome" (literal "needs_human"),
      required "approvalId" (string host.isUuid)]) body
  | _ => none

def isTrue : Check
  | .bool true => true
  | _ => false

def dryRunApprovalSchema (host : Host) (body : Json) : Option Json :=
  stripped (approvalFields host (required "dryRun" isTrue) ++ [
    required "outcome" (oneOf ["allow", "needs_human"])]) body

inductive BrokerCall where
  | health
  | execute (approval : Json)
  | dryRun (approval : Json)

def brokerCall (host : Host) (generated : CorrelationId) (request : IncomingMessage) :
    Except HttpError BrokerCall := do
  let _ ← getRequestCorrelationId generated request
  match request.path with
  | none => throw ⟨500, "Internal server error.", none⟩
  | some path =>
      if path = "/health" then
        requireMethod "GET" request
        pure .health
      else if path = "/dry-run" then
        requireMethod "POST" request
        match dryRunApprovalSchema host (← readJsonBody request) with
        | none => throw ⟨400, "Invalid dry-run approval.", none⟩
        | some approval => pure (.dryRun approval)
      else if path = "/execute" then
        requireMethod "POST" request
        match approvalSchema host (← readJsonBody request) with
        | none => throw ⟨400, "Invalid execution approval.", none⟩
        | some approval => pure (.execute approval)
      else throw routeNotFound

/-- A body that is posted to `/execute` and accepted becomes a call. -/
theorem brokerCall_execute {host : Host} {generated id : CorrelationId} {request : IncomingMessage}
    {body approval : Json} (hid : getRequestCorrelationId generated request = .ok id)
    (hmethod : request.method = "POST") (hpath : request.path = some "/execute")
    (hbody : readJsonBody request = .ok body)
    (happroval : approvalSchema host body = some approval) :
    brokerCall host generated request = .ok (.execute approval) := by
  have hpost : requireMethod "POST" request = .ok () := if_pos hmethod
  simp only [brokerCall, hid, hpath, hpost, hbody, happroval, bind, Except.bind, pure, Except.pure,
    String.reduceEq, if_false, if_true]

structure BrokerAnswers where
  executionMode : String
  execute : Json → Option Json → Except Thrown Json
  dryRun : Json → Except Thrown BrokerDryRunResult

def BrokerAnswers.serve (answers : BrokerAnswers) : BrokerCall → Except Thrown (Nat × Json)
  | .health => .ok (200, .record [
      ("status", some (.str "ok")),
      ("executionMode", some (.str answers.executionMode))])
  | .execute approval => do
      let result ← answers.execute approval (approval.field? "dryRunAuthorization")
      pure (200, result)
  | .dryRun approval => do
      let report ← answers.dryRun approval
      pure (200, report.toJson)

def brokerServer (host : Host) (answers : BrokerAnswers) (generated : CorrelationId)
    (request : IncomingMessage) : ServerResponse :=
  respond generated request (brokerCall host generated request) answers.serve

/-- What the broker gives for an accepted body is what the server answers. -/
theorem brokerServer_execute {host : Host} {generated : CorrelationId} {request : IncomingMessage}
    {approval result : Json} {answers : BrokerAnswers}
    (hcall : brokerCall host generated request = .ok (.execute approval))
    (hexecuted : answers.execute approval (approval.field? "dryRunAuthorization") = .ok result) :
    (brokerServer host answers generated request).status = 200 ∧
      (brokerServer host answers generated request).body = result := by
  simp only [brokerServer, respond, hcall, BrokerAnswers.serve, hexecuted, bind, Except.bind, pure,
    Except.pure, and_self]

end Runtime
end TradingGuardrails
