import TradingGuardrails.System.Agreement
import TradingGuardrails.System.Submission

/-!
The authority to execute. Under one shared secret, and as long as no token is forged, a
broker enters its connector only for what an evaluation decided that was no dry run; the
tokens of dry runs are good for nothing else.
-/
namespace TradingGuardrails

open Text Interleaving

variable {host : Host} {dep : Deployment} {cfg : Config (signature host)}

def Deployment.SharesSecret (dep : Deployment) (secret : String) : Prop :=
  ∀ p, (dep.broker p).decisionVerificationSecret = secret ∧
    (dep.service p).decisionSigningSecret = secret

def issued : Event (signature host) → List String
  | .returned _ (.decided (.ok decision)) => decision.decisionToken.toList
  | .returned _ (.reported (.ok report)) =>
      (report.authorization.map DryRunAuthorization.token).toList
  | _ => []

def presented : Event (signature host) → List String
  | .started _ _ (.execute approval authorization) =>
      (textValue? (approval.field? "decisionToken")).toList ++
        (textValue? (property authorization "token")).toList
  | .started _ _ (.dryRun approval) => (textValue? (approval.field? "decisionToken")).toList
  | _ => []

def checked : Event (signature host) → List String
  | .started _ _ (.execute approval authorization) =>
      match TradingIntent.safeParse host (approval.field? "intent") with
      | none => []
      | some intent => approvalTokenMessage approval intent ::
          if truthy authorization then
            [dryRunMessage host intent (valueString (property authorization "checkedAt"))]
          else []
  | .started _ _ (.dryRun approval) =>
      match TradingIntent.safeParse host (approval.field? "intent") with
      | none => []
      | some intent => [approvalTokenMessage approval intent]
  | _ => []

def decisionMessage (intent : TradingIntent host) (decision : GuardrailDecision)
    (dryRun : Bool) : String :=
  decisionTokenMessage host intent.value (some (.str decision.outcome.text))
    (some (.str decision.correlationId)) (some (.str decision.decidedAt))
    (decision.approvalId.map .str) dryRun

def signed (log : History host) : Event (signature host) → List String
  | .returned c (.decided (.ok decision)) => match entryOf c log with
      | some (_, .evaluate rawIntent options) =>
          match TradingIntent.safeParse host rawIntent with
          | none => []
          | some intent => [decisionMessage intent decision options.dryRun]
      | _ => []
  | .returned c (.reported (.ok report)) => match entryOf c log with
      | some (_, .dryRun approval) =>
          match TradingIntent.safeParse host (approval.field? "intent") with
          | none => []
          | some intent => [dryRunMessage host intent report.checkedAt]
      | _ => []
  | _ => []

def messages (log : History host) : List String :=
  log.flatMap fun event => checked event ++ signed log event

def Unforged (secret : String) (spoken : List String) : History host → Prop
  | [] => True
  | event :: older => (∀ token ∈ presented event, ∀ message ∈ spoken,
      hexBytes token = hexBytes (host.hmacSha256 secret message) →
        host.hmacSha256 secret message ∈ older.flatMap issued) ∧ Unforged secret spoken older

instance Unforged.decidable (secret : String) (spoken : List String) :
    (log : History host) → Decidable (Unforged secret spoken log)
  | [] => isTrue True.intro
  | event :: older =>
      have := Unforged.decidable secret spoken older
      inferInstanceAs (Decidable ((∀ token ∈ presented event, ∀ message ∈ spoken,
        hexBytes token = hexBytes (host.hmacSha256 secret message) →
          host.hmacSha256 secret message ∈ older.flatMap issued) ∧ Unforged secret spoken older))

/-- The code under the secret tells the messages of a run apart, and nobody but its calls
computes it. -/
structure Unforgeable (secret : String) (log : History host) : Prop where
  injective : ∀ message ∈ messages log, ∀ other ∈ messages log,
    host.hmacSha256 secret message = host.hmacSha256 secret other → message = other
  unforged : Unforged secret (messages log) log

def clockAtStart (c : Nat) : History host → Option Instant
  | [] => none
  | .started c' _ _ :: log => if c' = c then none else clockAtStart c log
  | .did c' .now t :: log =>
      if c' = c then (clockAtStart c log).or (some t) else clockAtStart c log
  | _ :: log => clockAtStart c log

/-- A decision that an evaluation returned which was not a dry run. -/
structure Vouched (log : History host) (intent : TradingIntent host)
    (decision : GuardrailDecision) : Prop where
  returned : ∃ c p rawIntent options, ∃ evaluated : TradingIntent host,
    entryOf c log = some (p, .evaluate rawIntent options) ∧ options.dryRun = false ∧
    .returned c (.decided (.ok decision)) ∈ log ∧
    TradingIntent.safeParse host rawIntent = some evaluated ∧
    Json.Equiv intent.value evaluated.value
  outcome : decision.outcome = .allow ∨ decision.outcome = .needsHuman

structure Repeats (approval : Json) (decision : GuardrailDecision) : Prop where
  outcome : approval.field? "outcome" = some (.str decision.outcome.text)
  correlationId : approval.field? "correlationId" = some (.str decision.correlationId)
  decidedAt : approval.field? "decidedAt" = some (.str decision.decidedAt)
  approvalId : approval.field? "approvalId" = decision.approvalId.map .str

/-- A token that was given away by a dry run, of the service or of the broker. -/
def DryRunToken (log : History host) (token : String) : Prop :=
  (∃ c p rawIntent options decision, entryOf c log = some (p, .evaluate rawIntent options) ∧
    options.dryRun = true ∧ .returned c (.decided (.ok decision)) ∈ log ∧
    decision.decisionToken = some token) ∨
  ∃ c report, .returned c (.reported (.ok report)) ∈ log ∧
    report.authorization.map DryRunAuthorization.token = some token

namespace Authority

theorem field_of_equiv {v w : Json} (h : Json.Equiv v w) (once : w.keys.Nodup) {k : String}
    {y : Json} (hy : w.field? k = some y) : ∃ x, v.field? k = some x ∧ Json.Equiv x y := by
  have hkey : k ∈ v.keys :=
    (Json.equiv_keys h).symm.subset (Json.field?_isSome.mp (by rw [hy]; rfl))
  obtain ⟨x, hx⟩ := Option.isSome_iff_exists.mp (Json.field?_isSome.mpr hkey)
  obtain ⟨y', hy', hxy⟩ := Json.equiv_field h once hx
  cases hy.symm.trans hy'
  exact ⟨x, hx, hxy⟩

def isLeaf : Json → Bool
  | .null | .bool _ | .num _ | .str _ => true
  | .arr _ | .obj _ => false

theorem eq_of_equiv_leaf {v w : Json} (h : Json.Equiv v w) (hleaf : isLeaf w = true) : v = w := by
  cases v with
  | arr xs =>
      obtain ⟨ys, rfl, -⟩ := h
      cases hleaf
  | obj fs =>
      obtain ⟨gs, rfl, -⟩ := h
      cases hleaf
  | null | bool | num | str => exact (show w = _ from h).symm

def tokenRecord (intent : Json) (outcome correlationId decidedAt approvalId : Option Json)
    (dryRun : Bool) : Json :=
  .record [
    ("intent", some intent),
    ("outcome", outcome),
    ("correlationId", correlationId),
    ("decidedAt", decidedAt),
    ("approvalId", some (approvalId.getD .null)),
    ("dryRun", if dryRun then some (.bool true) else none)]

section

variable {intent : TradingIntent host} {decision : GuardrailDecision} {dryRun : Bool}

def decisionRecord (intent : TradingIntent host) (decision : GuardrailDecision) (dryRun : Bool) :
    Json :=
  tokenRecord intent.value (some (.str decision.outcome.text))
    (some (.str decision.correlationId)) (some (.str decision.decidedAt))
    (decision.approvalId.map .str) dryRun

theorem decisionRecord_keys : (decisionRecord intent decision dryRun).keys.Nodup := by
  cases dryRun <;> simp [decisionRecord, tokenRecord, Json.record, Json.keys]

variable {value : Json} {outcome correlationId decidedAt approvalId : Option Json} {flag : Bool}

/-- The message of a token tells what was signed. -/
theorem decisionMessage_inj
    (h : decisionTokenMessage host value outcome correlationId decidedAt approvalId flag =
      decisionMessage intent decision dryRun) :
    Json.Equiv value intent.value ∧ outcome = some (.str decision.outcome.text) ∧
      correlationId = some (.str decision.correlationId) ∧
      decidedAt = some (.str decision.decidedAt) ∧
      approvalId.getD .null = (decision.approvalId.map Json.str).getD .null ∧ flag = dryRun := by
  have hequiv : Json.Equiv (tokenRecord value outcome correlationId decidedAt approvalId flag)
      (decisionRecord intent decision dryRun) := equiv_of_stableJson host h
  have hleaf : ∀ {k : String} {y : Json}, isLeaf y = true →
      (decisionRecord intent decision dryRun).field? k = some y →
        (tokenRecord value outcome correlationId decidedAt approvalId flag).field? k = some y := by
    intro k y hy hk
    obtain ⟨x, hx, hxy⟩ := field_of_equiv hequiv decisionRecord_keys hk
    rw [hx, eq_of_equiv_leaf hxy hy]
  have hintent : (decisionRecord intent decision dryRun).field? "intent" = some intent.value := by
    simp [decisionRecord, tokenRecord]
  have houtcome := hleaf (k := "outcome") (y := .str decision.outcome.text) rfl
    (by simp [decisionRecord, tokenRecord])
  have hcorrelation := hleaf (k := "correlationId") (y := .str decision.correlationId) rfl
    (by simp [decisionRecord, tokenRecord])
  have hdecidedAt := hleaf (k := "decidedAt") (y := .str decision.decidedAt) rfl
    (by simp [decisionRecord, tokenRecord])
  have happroval := hleaf (k := "approvalId") (y := (decision.approvalId.map Json.str).getD .null)
    (by cases decision.approvalId <;> rfl) (by simp [decisionRecord, tokenRecord])
  have hflag : ((tokenRecord value outcome correlationId decidedAt approvalId flag).field?
      "dryRun").isSome = ((decisionRecord intent decision dryRun).field? "dryRun").isSome := by
    rw [Bool.eq_iff_iff, Json.field?_isSome, Json.field?_isSome]
    exact (Json.equiv_keys hequiv).mem_iff
  obtain ⟨x, hx, hxy⟩ := field_of_equiv hequiv decisionRecord_keys hintent
  refine ⟨?_, ?_, ?_, ?_, ?_, ?_⟩
  · have hvalue : value = x := by simpa [tokenRecord] using hx
    rwa [hvalue]
  · simpa [tokenRecord] using houtcome
  · simpa [tokenRecord] using hcorrelation
  · simpa [tokenRecord] using hdecidedAt
  · simpa [tokenRecord] using happroval
  · cases flag <;> cases dryRun <;> simp [tokenRecord, decisionRecord] at hflag ⊢

end

/-- No message of a report is one of a decision. -/
theorem dryRunMessage_ne {value : Json} {outcome correlationId decidedAt approvalId : Option Json}
    {flag : Bool} {intent : TradingIntent host} {checkedAt : String} :
    dryRunMessage host intent checkedAt ≠
      decisionTokenMessage host value outcome correlationId decidedAt approvalId flag := by
  intro h
  have hlead : (dryRunMessage host intent checkedAt).toList.head? = some 'b' := by
    delta dryRunMessage
    simp only [String.toList_append, List.append_assoc]
    rfl
  have hother : (decisionTokenMessage host value outcome correlationId decidedAt approvalId
      flag).toList.head? = some '\x7b' := by
    simp only [decisionTokenMessage, stableJson, Json.record, stableText, String.toList_ofList]
    rfl
  rw [h, hother] at hlead
  cases hlead

theorem createDecisionToken_some {service : GuardrailService} {intent : TradingIntent host}
    {decision : GuardrailDecision} {correlationId token : String} {dryRun : Bool}
    (h : service.createDecisionToken intent decision correlationId dryRun = some token) :
    decision.outcome ≠ .deny ∧ token = host.hmacSha256 service.decisionSigningSecret
      (decisionTokenMessage host intent.value (some (.str decision.outcome.text))
        (some (.str correlationId)) (some (.str decision.decidedAt))
        (decision.approvalId.map .str) dryRun) := by
  simp only [GuardrailService.createDecisionToken] at h
  split_ifs at h with hdeny
  exact ⟨hdeny, (Option.some.inj h).symm⟩

/-- A decision signed as it is returned. -/
theorem signed_token {service : GuardrailService} {intent : TradingIntent host}
    {decision : GuardrailDecision} {correlationId token : String} {dryRun : Bool}
    (h : (service.signed intent decision correlationId dryRun).decisionToken = some token) :
    (service.signed intent decision correlationId dryRun).outcome ≠ .deny ∧
      token = host.hmacSha256 service.decisionSigningSecret
        (decisionMessage intent (service.signed intent decision correlationId dryRun) dryRun) :=
  createDecisionToken_some h

/-- What a call that returned a token decided, and for which intent. -/
structure Signed (dep : Deployment) (log : History host) (c : Nat) (decision : GuardrailDecision)
    (token : String) (p : Nat) (rawIntent : Option Json) (options : EvaluationOptions)
    (intent : TradingIntent host) : Prop where
  entry : entryOf c log = some (p, .evaluate rawIntent options)
  parsed : TradingIntent.safeParse host rawIntent = some intent
  outcome : decision.outcome ≠ .deny
  carries : decision.decisionToken = some token
  token : token = host.hmacSha256 (dep.service p).decisionSigningSecret
    (decisionMessage intent decision options.dryRun)

theorem decision_signed (h : (dep.system host).Reachable cfg) {c : Nat}
    {decision : GuardrailDecision} (hreturned : .returned c (.decided (.ok decision)) ∈ cfg.log)
    {token : String} (htoken : decision.decisionToken = some token) :
    ∃ p rawIntent options intent,
      Signed dep cfg.log c decision token p rawIntent options intent := by
  obtain ⟨p, entry, progress, hentry, hserves, hstate, hfinal⟩ :=
    Deployment.returned_state h hreturned
  cases progress with
  | executing | rehearsing | checking => exact False.elim hfinal
  | appraising s =>
  cases entry with
  | execute | dryRun | callback => exact False.elim hserves
  | evaluate rawIntent options =>
  obtain ⟨hservice, rfl, rfl⟩ := hserves
  obtain ⟨entry', -, hknown⟩ := Appraisal.known_reachable h hstate
  -- A decision that was signed for an evaluation of the call.
  have hsigned : ∀ (e : Evaluation host) stored correlationId dryRun,
      s.evaluation host = some e → dryRun = s.options.dryRun →
      decision = s.service.signed e.intent stored correlationId dryRun →
      ∃ p rawIntent options intent,
        Signed dep cfg.log c decision token p rawIntent options intent := by
    rintro e stored correlationId dryRun heval rfl rfl
    obtain ⟨-, -, -, -, hparse, -⟩ := Appraisal.evaluation_some heval
    obtain ⟨houtcome, rfl⟩ := signed_token htoken
    exact ⟨p, _, _, e.intent, hentry, hparse, houtcome, htoken, by rw [← hservice]⟩
  have hconcluded : ∀ (e : Evaluation host), s.evaluation host = some e →
      s.Concluded e decision → ∃ p rawIntent options intent,
        Signed dep cfg.log c decision token p rawIntent options intent := by
    intro e heval hown
    obtain ⟨-, -, -, -, -, hoptions, -⟩ := Appraisal.evaluation_some heval
    rcases hown with ⟨reasons, reviewerVerdict, riskResult, hdecision⟩ |
      ⟨a, approvalId, -, hdecision, -⟩
    · exact hsigned e _ _ _ heval (by rw [hoptions]) hdecision
    · exact hsigned e _ _ _ heval (by rw [hoptions]) hdecision
  change s.final host (.ok decision) at hfinal
  cases hstage : s.stage with
  | before =>
      simp only [Appraisal.final, hstage] at hfinal
      rcases hfinal with ⟨-, hnone⟩ | ⟨-, e, heval, hown⟩
      · cases hnone.symm.trans htoken
      · exact hconcluded e heval hown
  | conflicted =>
      simp only [Appraisal.final, hstage] at hfinal
      obtain ⟨e, heval, hdecision⟩ := hfinal
      exact hsigned e _ _ _ heval (hknown.serves (by simp [hstage])).1.symm hdecision
  | replaying stored =>
      simp only [Appraisal.final, hstage] at hfinal
      obtain ⟨e, heval, hdecision⟩ := hfinal
      exact hsigned e _ _ _ heval (hknown.serves (by simp [hstage])).1.symm hdecision
  | concluded stored =>
      simp only [Appraisal.final, hstage] at hfinal
      subst hfinal
      obtain ⟨hdry, e, heval⟩ := hknown.serves (by simp [hstage])
      obtain ⟨-, -, -, -, hparse, -⟩ := Appraisal.evaluation_some heval
      have hvalid := Agreement.token_of_concluded h hstate hstage hentry hparse
      obtain ⟨houtcome, rfl⟩ := createDecisionToken_some (hvalid.symm.trans htoken)
      exact ⟨p, _, _, e.intent, hentry, hparse, houtcome, htoken, by rw [hdry]; rfl⟩
  | missed | awaiting | rejected | holding | abandoned =>
      simp only [Appraisal.final, hstage] at hfinal

/-- What a broker has checked of a decision that it does not refuse. -/
structure Admitted (broker : ExecutionBroker) (request : Request host) : Prop where
  notDryRun : request.approval.hasField "dryRun" = false
  token : decisionTokenMatches broker.decisionVerificationSecret request.approval
    request.intent = .ok true
  fresh : decisionIsStale host broker.decisionMaxAgeMs (request.approval.field? "decidedAt")
    request.now = false
  production : broker.environment ≠ .production
  environment : request.intent.environment = broker.environment

/-- A rule that does not refuse leaves the decision to the rules after it. -/
theorem not_refused {c : Prop} [Decidable c] {rule : String × String}
    {rest : Except Thrown (Option (String × String))}
    (h : (if c then pure (some rule) else rest) = .ok none) : ¬c ∧ rest = .ok none := by
  split_ifs at h with hc
  · cases h
  · exact ⟨hc, h⟩

theorem admitted_of_refusal {broker : ExecutionBroker} {request : Request host}
    (h : broker.decisionRefusal request = .ok none) : Admitted broker request := by
  simp only [ExecutionBroker.decisionRefusal] at h
  obtain ⟨hdryRun, h⟩ := not_refused h
  obtain ⟨-, h⟩ := not_refused h
  obtain ⟨matching, hmatching, h⟩ := bind_eq_ok.mp h
  obtain ⟨hinvalid, h⟩ := not_refused h
  obtain ⟨hstale, h⟩ := not_refused h
  obtain ⟨hproduction, h⟩ := not_refused h
  obtain ⟨henvironment, -⟩ := not_refused h
  rw [Bool.not_eq_true', Bool.not_eq_false] at hinvalid
  subst hinvalid
  rw [Bool.not_eq_true] at hdryRun hstale
  exact ⟨hdryRun, hmatching, hstale, hproduction, not_not.mp henvironment⟩

/-- A call of the broker that returned a report with an authorization. -/
structure Reported (dep : Deployment) (log : History host) (c : Nat) (report : BrokerDryRunResult)
    (token : String) (p : Nat) (approval : Json) (s : Rehearsal) (intent : TradingIntent host) :
    Prop where
  entry : entryOf c log = some (p, .dryRun approval)
  broker : s.broker = dep.broker p ∧ s.approval = approval
  state : (dep.discipline host).state c log = some ⟨p, .rehearsing s⟩
  passed : s.Passed intent report
  token : token = host.hmacSha256 (dep.broker p).decisionVerificationSecret
    (dryRunMessage host intent report.checkedAt)

theorem report_signed (h : (dep.system host).Reachable cfg) {c : Nat}
    {report : BrokerDryRunResult} (hreturned : .returned c (.reported (.ok report)) ∈ cfg.log)
    {token : String} (htoken : report.authorization.map DryRunAuthorization.token = some token) :
    ∃ p approval s intent, Reported dep cfg.log c report token p approval s intent := by
  obtain ⟨p, entry, progress, hentry, hserves, hstate, hfinal⟩ :=
    Deployment.returned_state h hreturned
  cases progress with
  | executing | appraising | checking => exact False.elim hfinal
  | rehearsing s =>
  cases entry with
  | execute | evaluate | callback => exact False.elim hserves
  | dryRun approval =>
  rcases hfinal with hnone | ⟨intent, hpassed⟩
  · rw [hnone] at htoken
    cases htoken
  · obtain ⟨t, -, hcheckedAt, hauthorization⟩ := hpassed.authorization
    refine ⟨p, approval, s, intent, hentry, hserves, hstate, hpassed, ?_⟩
    rw [hauthorization] at htoken
    rw [← Option.some.inj htoken, hcheckedAt, ← hserves.1]
    rfl

theorem unforged_of_started {secret : String} {spoken : List String} {newer older : History host}
    {event : Event (signature host)} (h : Unforged secret spoken (newer ++ event :: older))
    {token message : String} (htoken : token ∈ presented event) (hmessage : message ∈ spoken)
    (hbytes : hexBytes token = hexBytes (host.hmacSha256 secret message)) :
    host.hmacSha256 secret message ∈ older.flatMap issued := by
  induction newer with
  | nil => exact h.1 token htoken message hmessage hbytes
  | cons event newer ih => exact ih h.2

theorem mem_messages_checked {log : History host} {event : Event (signature host)}
    (hevent : event ∈ log) {message : String} (hmessage : message ∈ checked event) :
    message ∈ messages log :=
  List.mem_flatMap.mpr ⟨event, hevent, List.mem_append_left _ hmessage⟩

theorem mem_messages_signed {log : History host} {event : Event (signature host)}
    (hevent : event ∈ log) {message : String} (hmessage : message ∈ signed log event) :
    message ∈ messages log :=
  List.mem_flatMap.mpr ⟨event, hevent, List.mem_append_right _ hmessage⟩

inductive Issuer (dep : Deployment) (older : History host) (message token : String) : Prop
  | decision {c p : Nat} {decision : GuardrailDecision} {rawIntent : Option Json}
      {options : EvaluationOptions} {intent : TradingIntent host}
      (returned : .returned c (.decided (.ok decision)) ∈ older)
      (signed : Signed dep older c decision token p rawIntent options intent)
      (same : message = decisionMessage intent decision options.dryRun)
  | report {c p : Nat} {report : BrokerDryRunResult} {approval : Json} {s : Rehearsal}
      {intent : TradingIntent host} (returned : .returned c (.reported (.ok report)) ∈ older)
      (reported : Reported dep older c report token p approval s intent)
      (same : message = dryRunMessage host intent report.checkedAt)

theorem issuer (h : (dep.system host).Reachable cfg) {secret : String}
    (hsecret : dep.SharesSecret secret) (hsafe : Unforgeable secret cfg.log)
    {newer older : History host} {event : Event (signature host)}
    (hlog : cfg.log = newer ++ event :: older) {token message : String}
    (htoken : token ∈ presented event) (hmessage : message ∈ messages cfg.log)
    (hbytes : hexBytes token = hexBytes (host.hmacSha256 secret message)) :
    Issuer dep older message (host.hmacSha256 secret message) := by
  obtain ⟨before, -, -, hbefore, rfl, -, -⟩ := h.past hlog
  have hunforged := hsafe.unforged
  rw [hlog] at hunforged
  have hnumbered := (Discipline.accounted_reachable (dep.followed host) h).numbered
  have hentry : ∀ {c x}, entryOf c before.log = some x → entryOf c cfg.log = some x := by
    intro c x hx
    rw [hlog, ← List.singleton_append, ← List.append_assoc] at hnumbered ⊢
    exact entryOf_append hnumbered hx
  have holder : ∀ {event}, event ∈ before.log → event ∈ cfg.log := by
    intro event hevent
    rw [hlog]
    exact List.mem_append_right _ (List.mem_cons_of_mem _ hevent)
  obtain ⟨result, hresult, hissued⟩ := List.mem_flatMap.mp
    (unforged_of_started hunforged htoken (hlog ▸ hmessage) hbytes)
  cases result with
  | started | did | crashed | outside => cases hissued
  | returned c r =>
  cases r with
  | executed | calledBack => cases hissued
  | decided answer =>
      cases answer with
      | error e => cases hissued
      | ok decision =>
          obtain ⟨p, rawIntent, options, intent, hsigned⟩ :=
            decision_signed hbefore hresult (Option.mem_toList.mp hissued)
          refine .decision hresult hsigned (hsafe.injective _ hmessage _ ?_ ?_)
          · refine mem_messages_signed (holder hresult) ?_
            simp [signed, hentry hsigned.entry, hsigned.parsed]
          · rw [hsigned.token, (hsecret p).2]
  | reported answer =>
      cases answer with
      | error e => cases hissued
      | ok report =>
          obtain ⟨p, approval, s, intent, hreported⟩ :=
            report_signed hbefore hresult (Option.mem_toList.mp hissued)
          refine .report hresult hreported (hsafe.injective _ hmessage _ ?_ ?_)
          · refine mem_messages_signed (holder hresult) ?_
            have hparsed := hreported.passed.parsed
            rw [hreported.broker.2] at hparsed
            simp [signed, hentry hreported.entry, hparsed]
          · rw [hreported.token, (hsecret p).1]

theorem startedAt_eq {log : History host} (hkept : (dep.discipline host).Kept log) {c p : Nat}
    {s : Attempt} (hs : (dep.discipline host).state c log = some ⟨p, .executing s⟩) :
    clockAtStart c log = s.startedAt := by
  refine hkept.reading (P := fun c (st : CallState host) log =>
    ∀ s, st.progress = .executing s → clockAtStart c log = s.startedAt) ?_ ?_ ?_ ?_ hs s rfl
  · intro c p e log s hstart
    cases e with
    | execute approval authorization =>
        cases hstart
        simp [clockAtStart]
    | dryRun | evaluate | callback => cases hstart
  · rintro c ⟨p, progress⟩ op a log ih - s' hnext
    cases progress with
    | executing s =>
        cases hnext
        have hs := ih s rfl
        cases op <;> simp [clockAtStart, Attempt.next, hs]
    | rehearsing | appraising | checking => cases hnext
  · intro c st r log ih
    exact ih
  · intro c st event log hevent ih s hs
    rw [← ih s hs]
    cases event with
    | started c' p e =>
        have hne : c' ≠ c := by simpa [Event.call?] using hevent
        simp [clockAtStart, hne]
    | did c' op a =>
        have hne : c' ≠ c := by simpa [Event.call?] using hevent
        cases op <;> simp [clockAtStart, hne]
    | returned | crashed | outside => rfl

structure Entering (dep : Deployment) (older : History host) (c p : Nat) (approval : Json)
    (authorization : Option Json) (intent : TradingIntent host) (startedAt : Instant)
    (s : Attempt) : Prop where
  entry : entryOf c older = some (p, .execute approval authorization)
  broker : s.broker = dep.broker p
  state : (dep.discipline host).state c older = some ⟨p, .executing s⟩
  parsed : TradingIntent.safeParse host (approval.field? "intent") = some intent
  started : clockAtStart c older = some startedAt
  may : s.MayEnter ⟨approval, authorization, intent, host.toISOString startedAt⟩

theorem request_some {s : Attempt} {request : Request host} (h : s.request host = some request) :
    ∃ startedAt, s.startedAt = some startedAt ∧
      TradingIntent.safeParse host (s.approval.field? "intent") = some request.intent ∧
      request =
        ⟨s.approval, s.dryRunAuthorization, request.intent, host.toISOString startedAt⟩ := by
  unfold Attempt.request at h
  split at h
  · rename_i startedAt intent hstart hparse
    cases h
    exact ⟨startedAt, hstart, hparse, rfl⟩
  · cases h

theorem entering (h : (dep.system host).Reachable cfg) {newer older : History host} {c : Nat}
    {intent : TradingIntent host}
    (hlog : cfg.log = newer ++ .did c (.enterConnector intent) () :: older) :
    ∃ p approval authorization startedAt s,
      Entering dep older c p approval authorization intent startedAt s := by
  obtain ⟨before, _, p, entry, progress, hpast⟩ := Deployment.past_reachable h hlog
  have hallowed := hpast.allowed
  cases progress with
  | rehearsing | appraising | checking => exact False.elim hallowed
  | executing s =>
  obtain ⟨-, request, hrequest, rfl, hmay⟩ := hallowed
  have hstate := hpast.state
  rw [← hpast.log] at hstate
  have hkept := (Discipline.sound_reachable (dep.followed host) hpast.reachable).kept
  obtain ⟨entry', hentry, hserves⟩ := Deployment.serves_of_state hkept hstate
  cases entry' with
  | dryRun | evaluate | callback => exact False.elim hserves
  | execute approval authorization =>
  obtain ⟨hbroker, rfl, rfl⟩ := hserves
  obtain ⟨startedAt, hstart, hparse, heq⟩ := request_some hrequest
  refine ⟨p, _, _, startedAt, s, hpast.log ▸ hentry, hbroker, hpast.state, hparse, ?_, heq ▸ hmay⟩
  have hkept' := (Discipline.sound_reachable (dep.followed host) hpast.reachable).kept
  rw [hpast.log] at hkept'
  rw [startedAt_eq hkept' hpast.state, hstart]

theorem token_of_matches {secret : String} {approval : Json} {intent : TradingIntent host}
    (h : decisionTokenMatches secret approval intent = .ok true) :
    ∃ token, approval.field? "decisionToken" = some (.str token) ∧
      hexBytes token =
        hexBytes (host.hmacSha256 secret (approvalTokenMessage approval intent)) := by
  simp only [decisionTokenMatches] at h
  split_ifs at h
  · cases h
  · exact timingSafeEqualHex_true h

theorem not_stale {maxAge : Option ℚ} {decidedAt : String} {now : Instant} (hhost : host.Lawful)
    (h : decisionIsStale host maxAge (some (.str decidedAt)) (host.toISOString now) = false) :
    ∃ decidedAtMs, host.dateParse decidedAt = some decidedAtMs ∧
      ((now.ms - decidedAtMs : ℤ) : ℚ) ≤ maxAge.getD defaultDecisionAgeMs ∧
      decidedAtMs ≤ now.ms + 60000 := by
  simp only [decisionIsStale, Host.newDate, hhost.dateParse_toISOString] at h
  cases hms : host.dateParse decidedAt with
  | none =>
      rw [hms] at h
      cases h
  | some decidedAtMs =>
      simp only [hms, Bool.or_eq_false_iff, decide_eq_false_iff_not, not_lt, gt_iff_lt] at h
      exact ⟨decidedAtMs, rfl, h.2, h.1⟩

section

variable {secret : String} {newer older : History host} {c p : Nat} {approval : Json}
  {authorization : Option Json} {intent : TradingIntent host} {startedAt : Instant} {s : Attempt}

theorem started_older (h : (dep.system host).Reachable cfg) (hlog : cfg.log = newer ++ older)
    {c : Nat} {x : Nat × Entry host} (hentry : entryOf c older = some x) :
    entryOf c cfg.log = some x := by
  have hnumbered := (Discipline.accounted_reachable (dep.followed host) h).numbered
  rw [hlog] at hnumbered ⊢
  exact entryOf_append hnumbered hentry

/-- The call of a log was started at a moment of it. -/
theorem start_of_entry {log : History host} {x : Nat × Entry host}
    (hentry : entryOf c log = some x) :
    ∃ newer older, log = newer ++ .started c x.1 x.2 :: older :=
  List.append_of_mem (started_of_entryOf hentry)

theorem approvalId_eq {request : Request host} {requests : List ApprovalRequest}
    (hlisted : ExecutionBroker.approvalMissing request requests = false)
    {approvalId : Option String}
    (hsame : request.approvalId.getD .null = (approvalId.map Json.str).getD .null) :
    request.approvalId = approvalId.map .str := by
  unfold ExecutionBroker.approvalMissing at hlisted
  cases hid : request.approvalId with
  | none =>
      rw [hid] at hsame
      cases approvalId with
      | none => rfl
      | some id => cases hsame
  | some v =>
      have hfield : request.approval.hasField "approvalId" = true := by
        rw [Json.hasField, ← Request.approvalId, hid]
        rfl
      rw [if_pos hfield, hid, Bool.not_eq_false'] at hlisted
      rw [hid] at hsame
      cases v with
      | str id =>
          cases approvalId with
          | none => cases hsame
          | some id' => exact congrArg some hsame
      | null | bool | num | arr | obj => cases hlisted

/-- A decision token that verifies was issued for what the approval says. -/
theorem approval_issuer (h : (dep.system host).Reachable cfg) (hsecret : dep.SharesSecret secret)
    (hsafe : Unforgeable secret cfg.log) {event : Event (signature host)}
    (hlog : cfg.log = newer ++ event :: older)
    (hpresented : ∀ token, approval.field? "decisionToken" = some (.str token) →
      token ∈ presented event)
    (hchecked : approvalTokenMessage approval intent ∈ checked event)
    (hmatches : decisionTokenMatches secret approval intent = .ok true) :
    ∃ c' q decision token rawIntent options evaluated,
      .returned c' (.decided (.ok decision)) ∈ older ∧
      Signed dep older c' decision token q rawIntent options evaluated ∧
      approvalTokenMessage approval intent = decisionMessage evaluated decision options.dryRun := by
  obtain ⟨token, htoken, hbytes⟩ := token_of_matches hmatches
  have hevent : event ∈ cfg.log := by
    rw [hlog]
    exact List.mem_append_right _ List.mem_cons_self
  have hmessage := mem_messages_checked hevent hchecked
  cases issuer h hsecret hsafe hlog (hpresented token htoken) hmessage hbytes with
  | decision returned signed same => exact ⟨_, _, _, _, _, _, _, returned, signed, same⟩
  | report returned reported same => exact absurd same.symm dryRunMessage_ne

/-- A decision that the broker admits was given by an evaluation that was no dry run. -/
theorem admitted_decided (h : (dep.system host).Reachable cfg) (hsecret : dep.SharesSecret secret)
    (hsafe : Unforgeable secret cfg.log)
    (hlog : cfg.log = newer ++ .started c p (.execute approval authorization) :: older)
    (hparse : TradingIntent.safeParse host (approval.field? "intent") = some intent)
    {now : String}
    (hadmitted : Admitted (dep.broker p) ⟨approval, authorization, intent, now⟩) :
    ∃ decision, Vouched older intent decision ∧
      approval.field? "outcome" = some (.str decision.outcome.text) ∧
      approval.field? "correlationId" = some (.str decision.correlationId) ∧
      approval.field? "decidedAt" = some (.str decision.decidedAt) ∧
      (approval.field? "approvalId").getD .null =
        (decision.approvalId.map Json.str).getD .null := by
  have hmatches := hadmitted.token
  rw [(hsecret p).1] at hmatches
  obtain ⟨c', q, decision, token, rawIntent, options, evaluated, hreturned, hsigned, hsame⟩ :=
    approval_issuer h hsecret hsafe hlog
      (fun token htoken => by simp [presented, htoken, textValue?]) (by simp [checked, hparse])
      hmatches
  obtain ⟨hequiv, houtcome, hcorrelation, hdecidedAt, happroval, hflag⟩ :=
    decisionMessage_inj hsame
  have hdry : options.dryRun = false := by
    have hnone : approval.field? "dryRun" = none := by
      simpa [Json.hasField] using hadmitted.notDryRun
    rw [← hflag, hnone]
    rfl
  refine ⟨decision, ⟨⟨c', q, rawIntent, options, evaluated, hsigned.entry, hdry, hreturned,
    hsigned.parsed, hequiv⟩, ?_⟩, houtcome, hcorrelation, hdecidedAt, happroval⟩
  cases hdecided : decision.outcome with
  | allow => exact .inl rfl
  | needsHuman => exact .inr rfl
  | deny => exact absurd hdecided hsigned.outcome

theorem decided_later (h : (dep.system host).Reachable cfg) (hlog : cfg.log = newer ++ older)
    {decision : GuardrailDecision} (hdecided : Vouched older intent decision) :
    Vouched cfg.log intent decision := by
  obtain ⟨c', q, rawIntent, options, evaluated, hentry, hdry, hreturned, hparsed, hequiv⟩ :=
    hdecided.returned
  have hmem : .returned c' (.decided (.ok decision)) ∈ cfg.log := by
    rw [hlog]
    exact List.mem_append_right _ hreturned
  exact ⟨⟨c', q, rawIntent, options, evaluated, started_older h hlog hentry, hdry, hmem, hparsed,
    hequiv⟩, hdecided.outcome⟩

/-- The message of a token that a dry run gave away is not that of a decision to execute. -/
theorem dryRunToken_message (intent : TradingIntent host)
    (h : (dep.system host).Reachable cfg) (hsecret : dep.SharesSecret secret) {token : String}
    (htoken : DryRunToken cfg.log token) :
    ∃ message ∈ messages cfg.log, token = host.hmacSha256 secret message ∧
      ∀ approval : Json, approval.hasField "dryRun" = false →
        approvalTokenMessage approval intent ≠ message := by
  rcases htoken with ⟨c, p, rawIntent, options, decision, hentry, hdry, hreturned, hdecision⟩ |
    ⟨c, report, hreturned, hreport⟩
  · obtain ⟨q, rawIntent', options', evaluated, hsigned⟩ :=
      decision_signed h hreturned hdecision
    cases hentry.symm.trans hsigned.entry
    refine ⟨_, mem_messages_signed hreturned ?_, by rw [hsigned.token, (hsecret p).2], ?_⟩
    · simp [signed, hentry, hsigned.parsed]
    · intro approval hnot hsame
      obtain ⟨-, -, -, -, -, hflag⟩ := decisionMessage_inj hsame
      have hnone : approval.field? "dryRun" = none := by simpa [Json.hasField] using hnot
      rw [hnone, hdry] at hflag
      cases hflag
  · obtain ⟨p, approval, s, evaluated, hreported⟩ := report_signed h hreturned hreport
    refine ⟨_, mem_messages_signed hreturned ?_, by rw [hreported.token, (hsecret p).1], ?_⟩
    · have hparsed := hreported.passed.parsed
      rw [hreported.broker.2] at hparsed
      simp [signed, hreported.entry, hparsed]
    · intro approval _ hsame
      exact dryRunMessage_ne hsame.symm

end

end Authority

open Authority

/-- What stands behind an intent that a call hands to the connector. -/
structure Authorized (dep : Deployment) (log : History host) (c p : Nat) (approval : Json)
    (intent : TradingIntent host) (decision : GuardrailDecision) : Prop where
  parsed : TradingIntent.safeParse host (approval.field? "intent") = some intent
  decided : Vouched log intent decision
  repeats : Repeats approval decision
  environment : intent.environment = (dep.broker p).environment
  production : intent.environment ≠ .production
  /-- The age of the decision, by the clock that the call read when it started. -/
  fresh : ∃ startedAt decidedAt, clockAtStart c log = some startedAt ∧
    host.dateParse decision.decidedAt = some decidedAt ∧
    ((startedAt.ms - decidedAt : ℤ) : ℚ) ≤
      (dep.broker p).decisionMaxAgeMs.getD defaultDecisionAgeMs ∧
    decidedAt ≤ startedAt.ms + 60000

structure ExecutionAuthorized (dep : Deployment) (log : History host) : Prop where
  entered : ∀ (newer older : History host) c (intent : TradingIntent host),
    log = newer ++ .did c (.enterConnector intent) () :: older →
    ∃ p approval authorization decision,
      entryOf c older = some (p, .execute approval authorization) ∧
      Authorized dep older c p approval intent decision
  /-- The token of a dry run does not get past the checks of a decision. -/
  separated : ∀ (c p : Nat) (approval : Json) authorization (intent : TradingIntent host) now token
    given,
    entryOf c log = some (p, .execute approval authorization) →
    TradingIntent.safeParse host (approval.field? "intent") = some intent →
    approval.field? "decisionToken" = some (.str token) → DryRunToken log given →
    hexBytes token = hexBytes given →
    (dep.broker p).decisionRefusal ⟨approval, authorization, intent, now⟩ ≠ .ok none

theorem execution_authorized (hhost : host.Lawful) (h : (dep.system host).Reachable cfg)
    {secret : String} (hsecret : dep.SharesSecret secret)
    (hsafe : Unforgeable secret cfg.log) : ExecutionAuthorized dep cfg.log where
  entered newer older c intent hlog := by
    obtain ⟨p, approval, authorization, startedAt, s, hentering⟩ := entering h hlog
    obtain ⟨before, -, -, hbefore, rfl, -, -⟩ := h.past hlog
    have hadmitted := admitted_of_refusal hentering.may.decision
    rw [hentering.broker] at hadmitted
    obtain ⟨later, earlier, hstart⟩ := start_of_entry hentering.entry
    have hlog' : cfg.log = (newer ++ .did c (.enterConnector intent) () :: later) ++
        .started c p (.execute approval authorization) :: earlier := by
      rw [hlog, hstart, List.append_assoc, List.cons_append]
    obtain ⟨decision, hdecided, houtcome, hcorrelation, hdecidedAt, happroval⟩ :=
      admitted_decided h hsecret hsafe hlog' hentering.parsed hadmitted
    obtain ⟨requests, -, hlisted⟩ := hentering.may.listed
    have hlater : before.log =
        (later ++ [.started c p (.execute approval authorization)]) ++ earlier := by
      rw [hstart, List.append_assoc, List.singleton_append]
    refine ⟨p, approval, authorization, decision, hentering.entry, hentering.parsed,
      decided_later hbefore hlater hdecided,
      ⟨houtcome, hcorrelation, hdecidedAt, approvalId_eq hlisted happroval⟩,
      hadmitted.environment, ?_, ?_⟩
    · rw [show intent.environment = _ from hadmitted.environment]
      exact hadmitted.production
    · have hfresh := hadmitted.fresh
      simp only [hdecidedAt] at hfresh
      obtain ⟨decidedAt, hms, hage, hfuture⟩ := not_stale hhost hfresh
      exact ⟨startedAt, decidedAt, hentering.started, hms, hage, hfuture⟩
  separated c p approval authorization intent now token given hentry hparse htoken hgiven
      hbytes := by
    intro hrefusal
    have hadmitted := admitted_of_refusal hrefusal
    have hmatches := hadmitted.token
    rw [(hsecret p).1] at hmatches
    obtain ⟨token', htoken', hbytes'⟩ := token_of_matches hmatches
    cases htoken.symm.trans htoken'
    obtain ⟨message, hmessage, rfl, hother⟩ :=
      dryRunToken_message intent h hsecret hgiven
    have hchecked : approvalTokenMessage approval intent ∈ messages cfg.log :=
      mem_messages_checked (started_of_entryOf hentry) (by simp [checked, hparse])
    refine hother approval hadmitted.notDryRun (hsafe.injective _ hchecked _ hmessage ?_)
    exact hexBytes_inj (hhost.hmacSha256_hex ..) (hhost.hmacSha256_hex ..)
      (hbytes'.symm.trans hbytes)

def quietly (c n : Nat) : List (Step (signature host)) :=
  List.replicate n (.run c Input.quiet)

def told (c : Nat) (value : Json) : Step (signature host) :=
  .run c { Input.quiet with reply := .ok (some value) }

def permission : Json :=
  .record [
    ("decision", some (.str "allow")),
    ("reasons", some (.arr [.record [
      ("rule", some (.str "r")),
      ("message", some (.str "m"))]])),
    ("requiresHumanApproval", some (.bool false)),
    ("matchedAllowRules", some (.arr [.str "r"])),
    ("matchedDenyRules", some (.arr []))]

def permittedRun : List (Step (signature digestHost)) :=
  .start 0 (.evaluate (some simulationIntent) { correlationId := some "c" }) ::
    (quietly 0 4 ++ [told 0 (.bool true), told 0 simulationVerdict] ++ quietly 0 1 ++
      [told 0 simulationRisk] ++ quietly 0 1 ++ [told 0 permission] ++ quietly 0 4 ++
      [.finish 0, .start 0 simulationExecution] ++ quietly 1 3 ++
      List.replicate 3 (told 1 (.bool false)) ++
      [told 1 (.record [("passed", some (.bool true))])] ++ quietly 1 1 ++
      List.replicate 3 (told 1 (.bool false)) ++ quietly 1 1)

def simulationMessage : String :=
  decisionTokenMessage digestHost simulationIntent (some (.str "allow")) (some (.str "c"))
    (some (.str "p")) none false

theorem digestHost_lawful : digestHost.Lawful :=
  plainHost_lawful (fun _ => by decide) fun _ _ => by decide

theorem permittedRun_messages :
    messages (digestRun permittedRun).log = [simulationMessage, simulationMessage] := by
  with_unfolding_all rfl

theorem execution_authorized_permitted :
    (digestRun permittedRun).log.any (submits 1 simulationIntentOf) = true ∧
      ExecutionAuthorized paperDeployment (digestRun permittedRun).log := by
  have hrun : (digestRun permittedRun).log.any (submits 1 simulationIntentOf) = true ∧
      Unforged "0123456789012345678901234567890123456789"
        (messages (digestRun permittedRun).log) (digestRun permittedRun).log := by decide +kernel
  have hsafe : Unforgeable "0123456789012345678901234567890123456789"
      (digestRun permittedRun).log := by
    refine ⟨?_, hrun.2⟩
    rw [permittedRun_messages]
    intro message hmessage other hother _
    simp only [List.mem_cons, List.not_mem_nil, or_false, or_self] at hmessage hother
    rw [hmessage, hother]
  exact ⟨hrun.1, execution_authorized digestHost_lawful (digestRun_reachable _)
    (fun _ => ⟨rfl, rfl⟩) hsafe⟩

end TradingGuardrails
