import TradingGuardrails.Runtime.Servers
import TradingGuardrails.Service.Signing
import TradingGuardrails.System.Backing

/-!
The way of a decision. What the service decides, the client of an agent reads; what a caller
then sends on, the server of the broker accepts and the broker does not refuse; and where a
human was asked, the request that was stored is the one that the broker looks for.
-/
namespace TradingGuardrails

open Text Interleaving
open Signer (isCorrelationId)

variable {host : Host} {dep : Deployment} {cfg : Config (signature host)}

namespace Delivery

structure Evaluates (log : History host) (c : Nat) (e : Evaluation host) : Prop where
  entry : ∃ p rawIntent, entryOf c log = some (p, .evaluate rawIntent e.options) ∧
    TradingIntent.safeParse host rawIntent = some e.intent
  correlationId : ∀ id, e.options.correlationId = some id → e.correlationId = id
  now : ∃ t, .did c .now t ∈ log ∧ e.now = host.toISOString t

/-- A call takes its time from a reading of the clock. -/
theorem startedAt_read {log : History host} (hkept : (dep.discipline host).Kept log) {c p : Nat}
    {s : Appraisal} (hs : (dep.discipline host).state c log = some ⟨p, .appraising s⟩)
    {t : Instant} (ht : s.startedAt = some t) : .did c .now t ∈ log := by
  refine hkept.evidence (P := fun c (st : CallState host) log => ∀ s t,
    st.progress = .appraising s → s.startedAt = some t → .did c .now t ∈ log) ?_ ?_ ?_ hs s t rfl ht
  · intro c p e log s t hstart ht
    cases e with
    | evaluate rawIntent options =>
        cases hstart
        cases ht
    | execute | dryRun | callback => cases hstart
  · intro c st event log ih s t hs ht
    exact List.mem_cons_of_mem _ (ih s t hs ht)
  · intro c st op a log ih hallowed s t hnext ht
    obtain ⟨p, progress⟩ := st
    cases progress with
    | executing | rehearsing | checking => cases hnext
    | appraising s₀ =>
        cases hnext
        cases op with
        | now =>
            cases hold : s₀.startedAt with
            | some t₀ =>
                have ht : s₀.startedAt.or (some a) = some t := ht
                rw [hold, Option.some_or] at ht
                exact List.mem_cons_of_mem _ (ih s₀ t rfl (hold.trans ht))
            | none =>
                have ht : s₀.startedAt.or (some a) = some t := ht
                rw [hold, Option.none_or, Option.some.injEq] at ht
                rw [ht]
                exact List.mem_cons_self
        | _ => exact List.mem_cons_of_mem _ (ih s₀ t rfl ht)

theorem evaluates_of_state (h : (dep.system host).Reachable cfg) {c p : Nat} {s : Appraisal}
    {e : Evaluation host} (hs : Appraising dep cfg c p s) (heval : s.evaluation host = some e) :
    Evaluates cfg.log c e := by
  obtain ⟨entry, hentry, hknown⟩ := Appraisal.known_reachable h hs
  have hkept := (Discipline.sound_reachable (dep.followed host) h).kept
  obtain ⟨startedAt, correlationId, hstarted, hcorrelation, hparse, hoptions, hid, hnow, -⟩ :=
    Appraisal.evaluation_some heval
  constructor
  · rw [hoptions]
    exact ⟨p, s.rawIntent, by rw [hentry, hknown.entry], hparse⟩
  · intro id hgiven
    rw [hoptions] at hgiven
    rw [hgiven, Option.some_or] at hcorrelation
    rw [hid, Option.some.inj hcorrelation]
  · exact ⟨startedAt, startedAt_read hkept hs hstarted, hnow⟩

theorem Evaluates.later {newer older : History host} {c : Nat} {e : Evaluation host}
    (h : Evaluates older c e) (hnumbered : Numbered (newer ++ older)) :
    Evaluates (newer ++ older) c e := by
  obtain ⟨p, rawIntent, hentry, hparse⟩ := h.entry
  obtain ⟨t, hread, hnow⟩ := h.now
  exact ⟨⟨p, rawIntent, entryOf_append hnumbered hentry, hparse⟩, h.correlationId,
    t, List.mem_append_right _ hread, hnow⟩

theorem Evaluates.same {log : History host} {c : Nat} {e e' : Evaluation host}
    (h : Evaluates log c e) (h' : Evaluates log c e') :
    e'.intent = e.intent ∧ e'.options = e.options := by
  obtain ⟨p, rawIntent, hentry, hparse⟩ := h.entry
  obtain ⟨p', rawIntent', hentry', hparse'⟩ := h'.entry
  have hsame := hentry.symm.trans hentry'
  simp only [Option.some.injEq, Prod.mk.injEq, Entry.evaluate.injEq] at hsame
  obtain ⟨-, rfl, hoptions⟩ := hsame
  exact ⟨(Option.some.inj (hparse.symm.trans hparse')).symm, hoptions.symm⟩

structure Stamp (e : Evaluation host) (decision : GuardrailDecision) : Prop where
  intentId : decision.intentId = e.intent.intentId
  correlationId : decision.correlationId = e.correlationId
  decidedAt : decision.decidedAt = e.now
  dryRun : decision.dryRun = e.options.dryRun
  approvalId : decision.outcome = .needsHuman ∧ e.options.dryRun = false ∨
    decision.approvalId = none

theorem stamp_of_concluded {s : Appraisal} {e : Evaluation host} {decision : GuardrailDecision}
    (h : s.Concluded e decision) : Stamp e decision := by
  cases h with
  | inl h =>
      obtain ⟨reasons, verdict, riskResult, hdecision⟩ := h
      rw [hdecision]
      exact ⟨rfl, rfl, rfl, Bool.false_or _, .inr rfl⟩
  | inr h =>
      obtain ⟨a, approvalId, -, hdecision, hid⟩ := h
      rw [hdecision]
      refine ⟨rfl, rfl, rfl, Bool.false_or _, ?_⟩
      by_cases hneeds : DecisionSchema.outcomeOf a.policyOutput = .needsHuman ∧
          e.options.dryRun = false
      · exact .inl hneeds
      · rw [if_neg hneeds] at hid
        exact .inr hid

/-- What a decision that is returned says of the evaluations of the run. -/
structure Stamped (log : History host) (c : Nat) (decision : GuardrailDecision) : Prop where
  dated : ∃ c' t, .did c' .now t ∈ log ∧ decision.decidedAt = host.toISOString t
  correlated : ∃ c' e, Evaluates log c' e ∧ decision.correlationId = e.correlationId
  own : ∃ e, Evaluates log c e ∧ decision.intentId = e.intent.intentId ∧
    decision.dryRun = e.options.dryRun
  approvalId : decision.outcome = .needsHuman ∧ decision.dryRun = false ∨
    decision.approvalId = none
  token : ∃ token, decision.decisionToken = some token

theorem Stamp.stamped {log : History host} {c : Nat} {e : Evaluation host}
    {decision : GuardrailDecision} (h : Stamp e decision) (heval : Evaluates log c e)
    {token : String} (htoken : decision.decisionToken = some token) : Stamped log c decision := by
  obtain ⟨t, hread, hnow⟩ := heval.now
  refine ⟨⟨c, t, hread, h.decidedAt.trans hnow⟩, ⟨c, e, heval, h.correlationId⟩,
    ⟨e, heval, h.intentId, h.dryRun⟩, ?_, token, htoken⟩
  rw [h.dryRun]
  exact h.approvalId

theorem token_of_signed {service : GuardrailService} {intent : TradingIntent host}
    {decision : GuardrailDecision} {correlationId : String} {dryRun : Bool}
    (h : decision.outcome ≠ .deny) :
    ∃ token, (service.signed intent decision correlationId dryRun).decisionToken = some token :=
  ⟨_, if_neg h⟩

theorem token_of_concluded {s : Appraisal} {e : Evaluation host} {decision : GuardrailDecision}
    (h : s.Concluded e decision) (houtcome : decision.outcome ≠ .deny) :
    ∃ token, decision.decisionToken = some token := by
  cases h with
  | inl h =>
      obtain ⟨reasons, verdict, riskResult, rfl⟩ := h
      exact absurd rfl houtcome
  | inr h =>
      obtain ⟨a, approvalId, -, rfl, -⟩ := h
      exact token_of_signed houtcome

/-- The evaluation of a call that has stored its decision, with the stamp of the decision. -/
theorem stamp_of_stored (h : (dep.system host).Reachable cfg) {c p : Nat} {s : Appraisal}
    {decision : GuardrailDecision} (hs : Appraising dep cfg c p s)
    (hstage : s.stage = .concluded decision) (houtcome : decision.outcome ≠ .deny) :
    ∃ e, Evaluates cfg.log c e ∧ Stamp e decision ∧
      ∃ token, decision.decisionToken = some token := by
  obtain ⟨newer, older, scope, payloadHash, q, s₀, e, hlog, hs₀, heval, hconcluded⟩ :=
    concluded_decides h hs hstage
  obtain ⟨before, after, q', entry, progress, hpast⟩ := Deployment.past_reachable h hlog
  rw [← hpast.log] at hs₀
  have heval := evaluates_of_state hpast.reachable hs₀ heval
  have hnumbered := (Discipline.accounted_reachable (dep.followed host) h).numbered
  have hlog' : cfg.log =
      (newer ++ [.did c (.set scope payloadHash decision) ()]) ++ before.log := by
    rw [hlog, hpast.log, List.append_assoc, List.singleton_append]
  rw [hlog'] at hnumbered ⊢
  exact ⟨e, heval.later hnumbered, stamp_of_concluded hconcluded,
    token_of_concluded hconcluded houtcome⟩

/-- A call that has looked its scope up is no dry run. -/
theorem dry_of_serving (h : (dep.system host).Reachable cfg) {c p : Nat} {s : Appraisal}
    (hs : Appraising dep cfg c p s) (hstage : s.stage ≠ .before) {e : Evaluation host}
    (heval : s.evaluation host = some e) : e.options.dryRun = false := by
  obtain ⟨entry, -, hknown⟩ := Appraisal.known_reachable h hs
  obtain ⟨-, -, -, -, -, hoptions, -⟩ := Appraisal.evaluation_some heval
  rw [hoptions]
  exact (hknown.serves hstage).1

/-- Two calls with one payload evaluate one intent, up to the order of its members. -/
theorem equiv_of_payload {s s' : Appraisal} {e e' : Evaluation host}
    (heval : s.evaluation host = some e) (heval' : s'.evaluation host = some e')
    (h : e.payloadHash = e'.payloadHash) : Json.Equiv e.intent.value e'.intent.value := by
  obtain ⟨-, -, -, -, hparse, -, -, -, -, hpayload⟩ := Appraisal.evaluation_some heval
  obtain ⟨-, -, -, -, hparse', -, -, -, -, hpayload'⟩ := Appraisal.evaluation_some heval'
  have hvalues := equiv_of_stableJson host (hpayload.symm.trans (h.trans hpayload'))
  rw [TradingIntent.safeParse_value hparse, TradingIntent.safeParse_value hparse'] at hvalues
  exact hvalues

theorem stamped_of_returned (h : (dep.system host).Reachable cfg) {c : Nat}
    {decision : GuardrailDecision} (hreturned : .returned c (.decided (.ok decision)) ∈ cfg.log)
    (houtcome : decision.outcome ≠ .deny) : Stamped cfg.log c decision := by
  obtain ⟨p, s, hs, hfinal⟩ := returned_stands h hreturned
  cases hstage : s.stage with
  | before =>
      simp only [Appraisal.final, hstage] at hfinal
      cases hfinal with
      | inl hdeny => exact absurd hdeny.1 houtcome
      | inr hown =>
          obtain ⟨-, e, heval, hconcluded⟩ := hown
          obtain ⟨token, htoken⟩ := token_of_concluded hconcluded houtcome
          exact (stamp_of_concluded hconcluded).stamped (evaluates_of_state h hs heval) htoken
  | conflicted =>
      simp only [Appraisal.final, hstage] at hfinal
      obtain ⟨e, -, rfl⟩ := hfinal
      exact absurd rfl houtcome
  | replaying stored =>
      simp only [Appraisal.final, hstage] at hfinal
      obtain ⟨e, heval, rfl⟩ := hfinal
      have houtcome : stored.outcome ≠ .deny := houtcome
      obtain ⟨c', s', e₁, -, hs', hstage', heval₁, -, hpayload, -⟩ :=
        Soundness.replayed_returned h hreturned hs hstage heval
      obtain ⟨e', heval', hstamp, -⟩ := stamp_of_stored h hs' hstage' houtcome
      obtain ⟨hintent, hoptions⟩ := heval'.same (evaluates_of_state h hs' heval₁)
      have hown := evaluates_of_state h hs heval
      have hdry : e.options.dryRun = false := dry_of_serving h hs (by simp [hstage]) heval
      have hdry' : e'.options.dryRun = false := by
        rw [← hoptions]
        exact dry_of_serving h hs' (by simp [hstage']) heval₁
      have hid : e'.intent.intentId = e.intent.intentId := by
        rw [← hintent]
        exact (textField_equiv (equiv_of_payload heval₁ heval hpayload) e.intent.keys_nodup
          "intentId").symm
      obtain ⟨t, hread, hnow⟩ := heval'.now
      refine ⟨⟨c', t, hread, hstamp.decidedAt.trans hnow⟩, ?_,
        ⟨e, hown, hstamp.intentId.trans hid, ?_⟩, ?_, token_of_signed houtcome⟩
      · by_cases hneeds : stored.outcome = .needsHuman
        · exact ⟨c', e', heval', (if_pos hneeds).trans hstamp.correlationId⟩
        · exact ⟨c, e, hown, if_neg hneeds⟩
      · exact (Bool.or_false _).trans (hstamp.dryRun.trans (hdry'.trans hdry.symm))
      · apply hstamp.approvalId.imp_left
        intro hneeds
        exact ⟨hneeds.1, (Bool.or_false _).trans (hstamp.dryRun.trans hdry')⟩
  | concluded stored =>
      simp only [Appraisal.final, hstage] at hfinal
      subst hfinal
      obtain ⟨e, heval, hstamp, token, htoken⟩ := stamp_of_stored h hs hstage houtcome
      exact hstamp.stamped heval htoken
  | missed | awaiting | rejected | holding | abandoned =>
      simp only [Appraisal.final, hstage] at hfinal

theorem reason_of_denyReason {v : Json} (h : DecisionSchema.policyDenyReason v = true) :
    (Agents.readReason v).isSome = true := by
  obtain ⟨rule, hrule, hruleText⟩ := Check.strict_required h List.mem_cons_self
  obtain ⟨message, hmessage, hmessageText⟩ := Check.strict_required h
    (List.mem_cons_of_mem _ List.mem_cons_self)
  obtain ⟨r, rfl, -⟩ := Check.string_text hruleText
  obtain ⟨m, rfl, -⟩ := Check.string_text hmessageText
  rw [Agents.readReason, hrule, hmessage]
  rfl

/-- The reasons of a policy output are reasons. -/
theorem reasons_of_policyOutput {v : Json} (h : DecisionSchema.policyOutput host v = true) :
    ∀ item ∈ DecisionSchema.elements v "reasons", (Agents.readReason item).isSome = true := by
  intro item hitem
  rw [DecisionSchema.policyOutput, Bool.and_eq_true] at h
  obtain ⟨reasons, hreasons, hall⟩ := Check.strict_required h.1
    (List.mem_cons_of_mem _ List.mem_cons_self)
  rw [DecisionSchema.elements, hreasons] at hitem
  cases reasons with
  | arr items =>
      simp only [Check.array, Bool.true_and, List.all_eq_true] at hall
      exact reason_of_denyReason (hall item hitem)
  | null | bool | num | str | obj => cases hitem

/-- The refinements of a policy output are those that a client asks of a decision. -/
theorem brings_of_policyOutput {v : Json} (h : DecisionSchema.policyOutput host v = true)
    {token : Option String} (htoken : token.any isHexDigest = true) {approvalId : Option String}
    (hid : DecisionSchema.outcomeOf v = .needsHuman → approvalId.any (!·.isEmpty) = true) :
    Agents.bringsToken (DecisionSchema.outcomeOf v) token approvalId
      (DecisionSchema.requiresHumanApproval v) = true := by
  rw [DecisionSchema.policyOutput, Bool.and_eq_true] at h
  have hrefined := h.2
  unfold DecisionSchema.policyRefinements at hrefined
  cases houtcome : DecisionSchema.outcomeOf v with
  | deny => rfl
  | allow =>
      rw [houtcome, Bool.and_eq_true] at hrefined
      exact Bool.and_eq_true_iff.mpr ⟨htoken, hrefined.1⟩
  | needsHuman =>
      rw [houtcome, Bool.and_eq_true] at hrefined
      exact Bool.and_eq_true_iff.mpr
        ⟨Bool.and_eq_true_iff.mpr ⟨htoken, hid houtcome⟩, hrefined.1⟩

/-- Evaluations are asked for through the server, the clock gives times that the schemas
accept, and fresh ids are UUIDs. -/
structure Conducted (log : History host) : Prop where
  served : ∀ c p rawIntent options, entryOf c log = some (p, .evaluate rawIntent options) →
    ∃ generated request intent, rawIntent = some intent.value ∧
      Runtime.guardrailCall host generated request = .ok (.evaluate intent options)
  dates : ∀ c t, .did c .now t ∈ log → host.isDatetime (host.toISOString t) = true
  ids : ∀ c params request, .did c (.approvalCreate params) (.ok request) ∈ log →
    host.isUuid request.approvalId = true ∧ request.approvalId ≠ ""

theorem correlationId_of_served (hconducted : Conducted cfg.log) {c : Nat} {e : Evaluation host}
    (h : Evaluates cfg.log c e) : isCorrelationId e.correlationId = true := by
  obtain ⟨p, rawIntent, hentry, -⟩ := h.entry
  obtain ⟨generated, request, intent, -, hcall⟩ := hconducted.served _ _ _ _ hentry
  obtain ⟨id, hid⟩ := Runtime.correlationId_of_call hcall
  rw [h.correlationId id.text hid]
  exact id.valid

variable {c : Nat} {decision : GuardrailDecision}

/-- A decision that is no dry run comes from a call that is none. -/
theorem options_of_returned (h : (dep.system host).Reachable cfg)
    (hreturned : .returned c (.decided (.ok decision)) ∈ cfg.log)
    (houtcome : decision.outcome ≠ .deny) (hdry : decision.dryRun = false) {p : Nat}
    {rawIntent : Option Json} {options : EvaluationOptions}
    (hentry : entryOf c cfg.log = some (p, .evaluate rawIntent options)) :
    options.dryRun = false := by
  obtain ⟨own, heval, -, hown⟩ := (stamped_of_returned h hreturned houtcome).own
  obtain ⟨q, raw, hentry', -⟩ := heval.entry
  have hsame := hentry.symm.trans hentry'
  simp only [Option.some.injEq, Prod.mk.injEq, Entry.evaluate.injEq] at hsame
  rw [hsame.2.2, ← hown, hdry]

/-- A decision that waits for a human was given a request of its own. -/
theorem requested_of_returned (h : (dep.system host).Reachable cfg)
    (hreturned : .returned c (.decided (.ok decision)) ∈ cfg.log)
    (hneeds : decision.outcome = .needsHuman) (hdry : decision.dryRun = false) :
    ∃ c' params request, .did c' (.approvalCreate params) (.ok request) ∈ cfg.log ∧
      decision.approvalId = some request.approvalId := by
  have houtcome : decision.outcome ≠ .deny := by
    rw [hneeds]
    exact Outcome.noConfusion
  obtain ⟨p, rawIntent, options, intent, c', e, a, hsound⟩ :=
    Soundness.sound_of_returned h hreturned houtcome
  have hoptions := options_of_returned h hreturned houtcome hdry hsound.entry
  obtain ⟨request, hrequested⟩ := hsound.human hoptions hneeds
  obtain ⟨params, hcreated⟩ := hrequested.created
  exact ⟨c', params, request, hcreated, hrequested.approvalId⟩

/-- The client reads every decision that a call returns, but that of a dry run. -/
theorem deliverable_of_returned (hhost : host.Lawful) (h : (dep.system host).Reachable cfg)
    (hconducted : Conducted cfg.log) (hreturned : .returned c (.decided (.ok decision)) ∈ cfg.log)
    (houtcome : decision.outcome ≠ .deny) (hdry : decision.dryRun = false) :
    Agents.Deliverable host decision := by
  have hstamped := stamped_of_returned h hreturned houtcome
  obtain ⟨p, rawIntent, options, intent, c', e, a, hsound⟩ :=
    Soundness.sound_of_returned h hreturned houtcome
  obtain ⟨token, htoken⟩ := hstamped.token
  obtain ⟨p', rawIntent', options', intent', hsigned⟩ :=
    Authority.decision_signed h hreturned htoken
  obtain ⟨raw, now, -, htransform⟩ := hsound.founded.policy
  have hpolicy := transformOpaOutput_valid htransform
  have hcarries := hsound.carries
  have hhex : decision.decisionToken.any isHexDigest = true := by
    rw [htoken, Option.any_some, hsigned.token]
    exact hhost.hmacSha256_hex _ _
  obtain ⟨c₁, e₁, heval₁, hcorrelation⟩ := hstamped.correlated
  obtain ⟨c₂, t, -, hdate⟩ := hstamped.dated
  constructor
  · exact hdry
  · rw [hcorrelation]
    exact correlationId_of_served hconducted heval₁
  · rw [hdate, hhost.dateParse_toISOString]
    rfl
  · rw [hcarries.outcome, hcarries.human]
    apply brings_of_policyOutput hpolicy hhex
    intro hneeds
    obtain ⟨c', params, request, hcreated, hid⟩ :=
      requested_of_returned h hreturned (hcarries.outcome.trans hneeds) hdry
    rw [hid, Option.any_some, Bool.not_eq_true', String.isEmpty_eq_false_iff]
    exact (hconducted.ids c' params request hcreated).2
  · rw [hcarries.reasons]
    exact reasons_of_policyOutput hpolicy
  · intro v hv
    rw [hcarries.reviewerVerdict] at hv
    exact Option.some.inj hv ▸ hsound.founded.verdict
  · intro v hv
    rw [hcarries.policyOutput] at hv
    exact Option.some.inj hv ▸ hpolicy
  · intro v hv
    rw [hcarries.riskResult] at hv
    exact Option.some.inj hv ▸ hsound.founded.riskResult

open Agents (GuardedToolResult toResult)

/-- The body that a caller sends to `/execute`: a decision as its tool call gave it, with the
intent that was decided, and for an order of the canary the authorization of a preview. -/
def executionBody (result : GuardedToolResult host) (authorization : Option Json) : Json :=
  .record [
    ("intentId", some (.str result.intentId)),
    ("correlationId", some (.str result.correlationId)),
    ("outcome", some (.str result.outcome)),
    ("decidedAt", result.decidedAt.map .str),
    ("decisionToken", result.decisionToken.map .str),
    ("approvalId", result.approvalId.map .str),
    ("intent", result.intent.map TradingIntent.value),
    ("dryRunAuthorization", authorization)]

theorem approved_of_outcome {outcome : Outcome} (h : outcome ≠ .deny) :
    (outcome == .allow || outcome == .needsHuman) = true := by
  cases outcome with
  | deny => exact absurd rfl h
  | allow | needsHuman => rfl

def approvalBody (intent : TradingIntent host) (decision : GuardrailDecision)
    (authorization : Option Json) : Json :=
  .record [
    ("intentId", some (.str decision.intentId)),
    ("correlationId", some (.str decision.correlationId)),
    ("outcome", some (.str decision.outcome.text)),
    ("decidedAt", some (.str decision.decidedAt)),
    ("decisionToken", decision.decisionToken.map .str),
    ("approvalId", decision.approvalId.map .str),
    ("intent", some intent.value),
    ("dryRunAuthorization", authorization)]

theorem executionBody_toResult {intent : TradingIntent host} (houtcome : decision.outcome ≠ .deny)
    (authorization : Option Json) :
    executionBody (toResult decision intent) authorization =
      approvalBody intent decision authorization := by
  simp only [executionBody, approvalBody, toResult, approved_of_outcome houtcome, if_true,
    Option.map_some]

section

variable {intent : TradingIntent host} {authorization : Option Json}

theorem approvalBody_members :
    (approvalBody intent decision authorization).field? "dryRun" = none ∧
    (approvalBody intent decision authorization).field? "dryRunAuthorization" = authorization ∧
    (approvalBody intent decision authorization).field? "intentId" =
      some (.str decision.intentId) ∧
    (approvalBody intent decision authorization).field? "correlationId" =
      some (.str decision.correlationId) ∧
    (approvalBody intent decision authorization).field? "intent" = some intent.value ∧
    (approvalBody intent decision authorization).field? "decidedAt" =
      some (.str decision.decidedAt) ∧
    (approvalBody intent decision authorization).field? "decisionToken" =
      decision.decisionToken.map .str ∧
    (approvalBody intent decision authorization).field? "outcome" =
      some (.str decision.outcome.text) ∧
    (approvalBody intent decision authorization).field? "approvalId" =
      decision.approvalId.map .str := by
  simp [approvalBody]

end

/-- A decision that waits for a human names its request, and no other decision names one. -/
structure NamesRequest (accepts : String → Prop) (decision : GuardrailDecision) : Prop where
  human : decision.outcome = .needsHuman → ∃ id, decision.approvalId = some id ∧ accepts id
  other : decision.outcome ≠ .needsHuman → decision.approvalId = none

/-- What a decision has to look like for the server of the broker. -/
structure Presentable (host : Host) (decision : GuardrailDecision)
    (authorization : Option Json) : Prop where
  outcome : decision.outcome ≠ .deny
  intentId : host.isUuid decision.intentId = true
  correlationId : isCorrelationId decision.correlationId = true
  decidedAt : host.isDatetime decision.decidedAt = true
  token : ∃ token, decision.decisionToken = some token ∧ isHexDigest token = true
  approvalId : NamesRequest (fun id => host.isUuid id = true) decision
  authorization : ∀ v, authorization = some v → Runtime.dryRunAuthorization host v = true

def received (decision : GuardrailDecision) : GuardrailDecision :=
  { decision with reasons := decision.reasons.filterMap Agents.readReason }

theorem Presentable.received {authorization : Option Json}
    (h : Presentable host decision authorization) :
    Presentable host (received decision) authorization :=
  ⟨h.outcome, h.intentId, h.correlationId, h.decidedAt, h.token,
    ⟨h.approvalId.human, h.approvalId.other⟩, h.authorization⟩

def approvalKeys : List String :=
  ["dryRun", "dryRunAuthorization", "intentId", "correlationId", "intent", "decidedAt",
    "decisionToken", "outcome", "approvalId"]

/-- The server accepts the body, and keeps of it what the broker reads. -/
theorem approvalSchema_body {intent : TradingIntent host} {authorization : Option Json}
    (h : Presentable host decision authorization) :
    ∃ approval,
      Runtime.approvalSchema host (approvalBody intent decision authorization) = some approval ∧
      ∀ key ∈ approvalKeys, approval.field? key =
        (approvalBody intent decision authorization).field? key := by
  obtain ⟨token, htoken, hhex⟩ := h.token
  obtain ⟨hdry, hauthorization, hintentId, hcorrelation, hintent, hdecided, hsigned, hsays, hid⟩ :=
    @approvalBody_members host decision intent authorization
  rw [htoken, Option.map_some] at hsigned
  have hshared : ∀ field ∈ Runtime.approvalFields host (Check.optional "dryRun" Runtime.never),
      field.accepts (approvalBody intent decision authorization) = true := by
    simp only [Runtime.approvalFields, List.forall_mem_cons]
    refine ⟨Runtime.accepts_optional fun x hx => ?_, Runtime.accepts_optional fun x hx => ?_,
      Runtime.accepts_required hintentId h.intentId,
      Runtime.accepts_required hcorrelation h.correlationId,
      Runtime.accepts_required hintent intent.valid, Runtime.accepts_required hdecided h.decidedAt,
      Runtime.accepts_required hsigned hhex, fun field hfield => by cases hfield⟩
    · rw [hdry] at hx
      cases hx
    · exact h.authorization x (hauthorization ▸ hx)
  cases houtcome : decision.outcome with
  | deny => exact absurd houtcome h.outcome
  | allow =>
      have hgiven := h.approvalId.other (by simp [houtcome])
      rw [houtcome] at hsays
      rw [Runtime.approvalSchema, hsays]
      refine (Runtime.stripped_kept rfl ?_).imp fun approval hkept => ⟨hkept.1, ?_⟩
      · rw [List.forall_mem_append]
        refine ⟨hshared, ?_⟩
        simp only [List.forall_mem_cons]
        refine ⟨Runtime.accepts_required hsays rfl, Runtime.accepts_optional fun x hx => ?_,
          fun field hfield => by cases hfield⟩
        rw [hid, hgiven] at hx
        cases hx
      · exact fun key hkey => hkept.2 key hkey
  | needsHuman =>
      obtain ⟨id, hgiven, huuid⟩ := h.approvalId.human houtcome
      rw [houtcome] at hsays
      rw [hgiven, Option.map_some] at hid
      rw [Runtime.approvalSchema, hsays]
      refine (Runtime.stripped_kept rfl ?_).imp fun approval hkept => ⟨hkept.1, ?_⟩
      · rw [List.forall_mem_append]
        refine ⟨hshared, ?_⟩
        simp only [List.forall_mem_cons]
        exact ⟨Runtime.accepts_required hsays rfl, Runtime.accepts_required hid huuid,
          fun field hfield => by cases hfield⟩
      · exact fun key hkey => hkept.2 key hkey

/-- An authorization that is sent along has the form that the server asks for. -/
def WellFormed (host : Host) (authorization : Option Json) : Prop :=
  ∀ v, authorization = some v → Runtime.dryRunAuthorization host v = true

theorem namesRequest_of_returned (h : (dep.system host).Reachable cfg)
    (hconducted : Conducted cfg.log) (hreturned : .returned c (.decided (.ok decision)) ∈ cfg.log)
    (houtcome : decision.outcome ≠ .deny) (hdry : decision.dryRun = false) :
    NamesRequest (fun id => host.isUuid id = true ∧ id ≠ "") decision := by
  constructor
  · intro hneeds
    obtain ⟨c', params, request, hcreated, hid⟩ := requested_of_returned h hreturned hneeds hdry
    exact ⟨request.approvalId, hid, hconducted.ids c' params request hcreated⟩
  · intro hother
    apply (stamped_of_returned h hreturned houtcome).approvalId.resolve_left
    exact fun hhuman => hother hhuman.1

/-- Every decision that a call returns can be sent on. -/
theorem presentable_of_returned (hhost : host.Lawful) (h : (dep.system host).Reachable cfg)
    (hconducted : Conducted cfg.log) (hreturned : .returned c (.decided (.ok decision)) ∈ cfg.log)
    (houtcome : decision.outcome ≠ .deny) (hdry : decision.dryRun = false)
    {authorization : Option Json} (hauthorization : WellFormed host authorization) :
    Presentable host decision authorization := by
  have hdeliverable := deliverable_of_returned hhost h hconducted hreturned houtcome hdry
  have hstamped := stamped_of_returned h hreturned houtcome
  obtain ⟨own, -, hid, -⟩ := hstamped.own
  obtain ⟨c', t, hread, hdate⟩ := hstamped.dated
  obtain ⟨token, htoken⟩ := hstamped.token
  obtain ⟨p, rawIntent, options, asked, hsigned⟩ :=
    Authority.decision_signed h hreturned htoken
  constructor
  · exact houtcome
  · rw [hid]
    exact own.intent.intentId_field.2
  · exact hdeliverable.correlated
  · rw [hdate]
    exact hconducted.dates c' t hread
  · exact ⟨token, htoken, hsigned.token ▸ hhost.hmacSha256_hex _ _⟩
  · have hnames := namesRequest_of_returned h hconducted hreturned houtcome hdry
    constructor
    · intro hneeds
      obtain ⟨id, hgiven, huuid, -⟩ := hnames.human hneeds
      exact ⟨id, hgiven, huuid⟩
    · exact hnames.other
  · exact hauthorization

/-- A broker that serves what the service decides: it verifies with the secret of the service,
for the same environment, and may execute there. -/
structure Serves (broker : ExecutionBroker) (service : GuardrailService) : Prop where
  secret : broker.decisionVerificationSecret = service.decisionSigningSecret
  environment : broker.environment = service.environment
  supported : broker.environment ≠ .production
  enabled : broker.environment = .canaryLive → broker.canaryLiveEnabled = true

/-- The broker does not refuse a signed decision that is fresh. -/
theorem refusal_of_body (hhost : host.Lawful) {broker : ExecutionBroker}
    {service : GuardrailService} (hserves : Serves broker service) {approval : Json}
    {authorization : Option Json} {intent : TradingIntent host} {now token : String}
    (hkept : ∀ key ∈ approvalKeys, approval.field? key =
      (approvalBody intent decision authorization).field? key)
    (houtcome : decision.outcome ≠ .deny) (htoken : decision.decisionToken = some token)
    (hsigned : token = host.hmacSha256 service.decisionSigningSecret
      (decisionMessage intent decision false))
    (hid : decision.intentId = intent.intentId)
    (henvironment : intent.environment = service.environment)
    (hfresh : decisionIsStale host broker.decisionMaxAgeMs (some (.str decision.decidedAt)) now =
      false) :
    broker.decisionRefusal ⟨approval, authorization, intent, now⟩ = .ok none := by
  obtain ⟨hdry, -, hintentId, hcorrelation, -, hdecided, hpresented, hsays, happroval⟩ :=
    @approvalBody_members host decision intent authorization
  rw [← hkept _ (by decide)] at hdry hintentId hcorrelation hdecided hpresented hsays happroval
  rw [htoken, Option.map_some] at hpresented
  have hmessage : approvalTokenMessage approval intent =
      decisionMessage intent decision false := by
    rw [approvalTokenMessage, hsays, hcorrelation, hdecided, happroval, hdry]
    rfl
  have hmatches : decisionTokenMatches broker.decisionVerificationSecret approval intent =
      .ok true := by
    rw [hserves.secret]
    apply (token_verifies_iff hhost hpresented ?_).mpr rfl
    rw [hsigned, hmessage]
  have hnotDry : approval.hasField "dryRun" = false := by
    rw [Json.hasField, hdry]
    rfl
  have hanswer : Request.outcome ⟨approval, authorization, intent, now⟩ =
      some (.str decision.outcome.text) := hsays
  have hoffered : ¬(Request.outcome ⟨approval, authorization, intent, now⟩ ≠ some (.str "allow") ∧
      Request.outcome ⟨approval, authorization, intent, now⟩ ≠ some (.str "needs_human")) := by
    rw [hanswer]
    cases hdecides : decision.outcome with
    | deny => exact absurd hdecides houtcome
    | allow => exact fun h => h.1 rfl
    | needsHuman => exact fun h => h.2 rfl
  have henabled : ¬(broker.environment = .canaryLive ∧ (!broker.canaryLiveEnabled) = true) := by
    intro h
    rw [hserves.enabled h.1] at h
    cases h.2
  unfold ExecutionBroker.decisionRefusal
  dsimp only
  rw [hnotDry, if_neg Bool.false_ne_true, if_neg hoffered, hmatches]
  apply bind_eq_ok.mpr
  refine ⟨true, rfl, ?_⟩
  rw [if_neg (by decide), hdecided, hfresh, if_neg Bool.false_ne_true, if_neg hserves.supported,
    if_neg (not_not.mpr (henvironment.trans hserves.environment.symm)),
    if_neg (not_not.mpr (hintentId.trans (by rw [hid]))), if_neg henabled]
  rfl

/-- The broker misses an approval only where a request for the intent is listed that the
decision did not wait for. -/
theorem approvalMissing_of_body {approval : Json} {authorization : Option Json}
    {intent : TradingIntent host} {now : String}
    (hkept : ∀ key ∈ approvalKeys, approval.field? key =
      (approvalBody intent decision authorization).field? key)
    (houtcome : decision.outcome ≠ .deny)
    {accepts : String → Prop} (haccepts : ∀ id, accepts id → id ≠ "")
    (hnames : NamesRequest accepts decision) (requests : List ApprovalRequest) :
    ExecutionBroker.approvalMissing ⟨approval, authorization, intent, now⟩ requests =
      (decision.outcome == .allow &&
        (ExecutionBroker.findApprovalForIntent requests intent).isSome) := by
  obtain ⟨-, -, -, -, -, -, -, hsays, hid⟩ :=
    @approvalBody_members host decision intent authorization
  rw [← hkept _ (by decide)] at hsays hid
  unfold ExecutionBroker.approvalMissing
  cases hneeds : decision.outcome with
  | deny => exact absurd hneeds houtcome
  | allow =>
      have hgiven := hnames.other (by simp [hneeds])
      rw [hneeds] at hsays
      have hnone : approval.hasField "approvalId" = false := by
        rw [Json.hasField, hid, hgiven]
        rfl
      have hallow : Request.outcome ⟨approval, authorization, intent, now⟩ =
          some (.str "allow") := hsays
      rw [hnone, if_neg Bool.false_ne_true, hallow]
      rfl
  | needsHuman =>
      obtain ⟨id, hgiven, haccepted⟩ := hnames.human hneeds
      rw [hgiven, Option.map_some] at hid
      have hsome : approval.hasField "approvalId" = true := by
        rw [Json.hasField, hid]
        rfl
      have hnamed : Request.approvalId ⟨approval, authorization, intent, now⟩ =
          some (.str id) := hid
      rw [hsome, if_pos rfl, hnamed, requiredString, 
        String.isEmpty_eq_false_iff.mpr (haccepts id haccepted)]
      rfl

/-- A request is created for the evaluation of the call that creates it. -/
theorem params_of_created (h : (dep.system host).Reachable cfg) {c : Nat} {params : ApprovalParams}
    {request : ApprovalRequest}
    (hcreated : .did c (.approvalCreate params) (.ok request) ∈ cfg.log) :
    ∃ (e : Evaluation host) (decision : GuardrailDecision), Evaluates cfg.log c e ∧
      request.toApprovalParams = GuardrailService.approvalParams e decision := by
  obtain ⟨newer, older, hlog⟩ := List.append_of_mem hcreated
  obtain ⟨before, after, p, entry, progress, hpast⟩ := Deployment.past_reachable h hlog
  have hallowed := hpast.allowed
  have hstate := hpast.state
  cases progress with
  | executing | rehearsing | checking => exact False.elim hallowed
  | appraising s =>
      obtain ⟨-, -, e, a, heval, -, hparams⟩ := hallowed
      rw [← hpast.log] at hstate
      have heval := evaluates_of_state hpast.reachable hstate heval
      have hnumbered := (Discipline.accounted_reachable (dep.followed host) h).numbered
      have hlog' : cfg.log =
          (newer ++ [.did c (.approvalCreate params) (.ok request)]) ++ before.log := by
        rw [hlog, hpast.log, List.append_assoc, List.singleton_append]
      refine ⟨e, GuardrailService.policyDecision e a, ?_, ?_⟩
      · rw [hlog'] at hnumbered ⊢
        exact heval.later hnumbered
      · rw [← hparams]
        exact (Soundness.stored_of_created h hcreated).1

/-- Two intents with one text agree on what a request for approval says. -/
theorem matches_of_text {i j : TradingIntent host}
    (h : stableJson host i.value = stableJson host j.value) {row : ApprovalRequest}
    {e : Evaluation host} {decision : GuardrailDecision} (hintent : e.intent = i)
    (hrow : row.toApprovalParams = GuardrailService.approvalParams e decision) :
    row.approvalType = .oneTime ∧
      ExecutionBroker.approvalMatchesIntent row j (some (.str row.correlationId)) = true := by
  have hequiv : Json.Equiv i.value j.value := equiv_of_stableJson host h
  have hid : j.intentId = i.intentId := textField_equiv hequiv j.keys_nodup "intentId"
  have hprincipal : j.principal = i.principal := textField_equiv hequiv j.keys_nodup "principal"
  have hresource : j.resource = i.resource := textField_equiv hequiv j.keys_nodup "resource"
  have haction := TradingIntent.action_of_equiv hequiv
  have henvironment := TradingIntent.environment_of_equiv hequiv
  obtain ⟨params, approvalId, state, createdAt, decidedAt, decidedBy, timeoutAt⟩ := row
  cases hrow
  refine ⟨rfl, ?_⟩
  simp only [ExecutionBroker.approvalMatchesIntent, hintent, hid, hprincipal, hresource, haction,
    henvironment, h, beq_self_eq_true, Bool.or_true, Bool.and_true]

/-- The request that was created for a decision is the one that the broker looks for, and it
stays so whatever is decided about it. -/
theorem row_matches (h : (dep.system host).Reachable cfg) {c p : Nat} {rawIntent : Option Json}
    {options : EvaluationOptions} {decision : GuardrailDecision} {intent : TradingIntent host}
    {c' : Nat} {e : Evaluation host} {a : Assessment}
    (hsound : DecisionSound dep cfg c p rawIntent options decision intent c' e a)
    {request : ApprovalRequest} (hrequested : Requested cfg c' intent decision request)
    {row : ApprovalRequest} (hrow : Evolves request row) :
    row.approvalType = .oneTime ∧ ExecutionBroker.approvalMatchesIntent row intent
      (some (.str decision.correlationId)) = true := by
  obtain ⟨params, hcreated⟩ := hrequested.created
  obtain ⟨e', decision', heval, hparams⟩ := params_of_created h hcreated
  obtain ⟨q, raw, hentry, hparse⟩ := heval.entry
  have hparsed := hsound.acceptable.parsed
  have htext : stableJson host e'.intent.value = stableJson host intent.value := by
    cases hsound.source with
    | inl hown =>
        have hsame := hsound.entry.symm.trans (hown.1 ▸ hentry)
        simp only [Option.some.injEq, Prod.mk.injEq, Entry.evaluate.injEq] at hsame
        rw [hsame.2.1, hparse, Option.some.injEq] at hparsed
        rw [hparsed]
    | inr hother =>
        obtain ⟨raw', options', hentry', -, hparse', hbytes⟩ := hother.2.entry
        have hsame := hentry.symm.trans hentry'
        simp only [Option.some.injEq, Prod.mk.injEq, Entry.evaluate.injEq] at hsame
        rw [TradingIntent.safeParse_value hparsed, ← hsame.2.1,
          TradingIntent.safeParse_value hparse] at hbytes
        exact hbytes
  have hcorrelation : row.correlationId = decision.correlationId :=
    (congrArg ApprovalParams.correlationId hrow.params).trans hrequested.correlationId
  rw [← hcorrelation]
  exact matches_of_text htext rfl (hrow.params.trans hparams)

/-- The gate of the broker lets a request pass that was approved and has not expired. -/
theorem approvalGate_passes {broker : ExecutionBroker} {request : Request host} {handle : Handle}
    {approvalId : String} {row : ApprovalRequest} {now : Instant}
    (happroved : row.state = .approved)
    (hopen : ∀ timeoutMs, host.dateParse row.timeoutAt = some timeoutMs → now.ms ≤ timeoutMs)
    (htype : row.approvalType = .oneTime)
    (hmatches : ExecutionBroker.approvalMatchesIntent row request.intent request.correlationId =
      true) (flags : Flags) :
    Routine.Returns (broker.approvalGate request handle approvalId) flags
      [⟨.approvalGet approvalId, .ok (some row)⟩, ⟨.now, now⟩] none flags := by
  have hnotExpired : ((host.dateParse row.timeoutAt).any fun timeoutMs =>
      decide (timeoutMs < now.ms)) = false := by
    cases hdate : host.dateParse row.timeoutAt with
    | none => rfl
    | some timeoutMs =>
        rw [Option.any_some, decide_eq_false_iff_not, not_lt]
        exact hopen timeoutMs hdate
  apply Routine.returns_bind.mpr
  refine ⟨[⟨.approvalGet approvalId, .ok (some row)⟩], [⟨.now, now⟩], some row, flags, rfl, ?_, ?_⟩
  · apply Routine.returns_perform_bind.mpr
    exact ⟨.ok (some row), [], rfl, Routine.returns_pure.mpr ⟨rfl, rfl, rfl⟩⟩
  · dsimp only
    rw [happroved, if_neg (by decide), if_neg (by decide)]
    apply Routine.returns_perform_bind.mpr
    refine ⟨now, [], rfl, ?_⟩
    rw [hnotExpired, if_neg Bool.false_ne_true, htype, hmatches, if_neg (by simp)]
    exact Routine.returns_pure.mpr ⟨rfl, rfl, rfl⟩

/-- A broker takes a decision of this time when it is called at that time. -/
structure Fresh (broker : ExecutionBroker) (decidedAt startedAt : Instant) : Prop where
  notAhead : decidedAt.ms ≤ startedAt.ms + 60000
  notOld : ((startedAt.ms - decidedAt.ms : ℤ) : ℚ) ≤
    broker.decisionMaxAgeMs.getD defaultDecisionAgeMs

theorem Fresh.not_stale (hhost : host.Lawful) {broker : ExecutionBroker}
    {decidedAt startedAt : Instant} (h : Fresh broker decidedAt startedAt) :
    decisionIsStale host broker.decisionMaxAgeMs (some (.str (host.toISOString decidedAt)))
      (host.toISOString startedAt) = false := by
  have hahead := h.notAhead
  have hnotAhead : ¬decidedAt.ms > startedAt.ms + 60000 := by omega
  simp only [decisionIsStale, Host.newDate, hhost.dateParse_toISOString, Bool.or_eq_false_iff,
    decide_eq_false_iff_not]
  exact ⟨hnotAhead, not_lt.mpr h.notOld⟩

def exchangeOf (response : Runtime.ServerResponse) : Agents.Exchange :=
  .response response.status (some response.correlationId) (.json response.body)

/-- What becomes of a decision that the service has made at this time. -/
structure Delivered (cfg : Config (signature host)) (service : GuardrailService)
    (intent : TradingIntent host) (decision received : GuardrailDecision) (decidedAt : Instant) :
    Prop where
  /-- The client gives on what the server of the service answers. -/
  read : ∀ answers generated request options correlationId,
    Runtime.guardrailCall host generated request = .ok (.evaluate intent options) →
    answers.evaluate intent options = .ok decision →
    Agents.evaluate intent correlationId false
      (exchangeOf (Runtime.guardrailServer answers generated request)) = .ok received
  /-- The broker is called with what the caller sends on, and does not refuse it. -/
  admitted : ∀ authorization, WellFormed host authorization → ∃ approval,
    approval.field? "dryRunAuthorization" = authorization ∧
    (∀ generated id request, Runtime.getRequestCorrelationId generated request = .ok id →
      request.method = "POST" → request.path = some "/execute" →
      Runtime.readJsonBody request =
        .ok (executionBody (toResult received intent) authorization) →
      Runtime.brokerCall host generated request = .ok (.execute approval) ∧
      ∀ (answers : Runtime.BrokerAnswers) result,
        answers.execute approval authorization = .ok result →
        (Runtime.brokerServer host answers generated request).status = 200 ∧
          (Runtime.brokerServer host answers generated request).body = result) ∧
    ∀ (broker : ExecutionBroker) startedAt, Serves broker service →
      Fresh broker decidedAt startedAt →
      broker.decisionRefusal ⟨approval, authorization, intent, host.toISOString startedAt⟩ =
        .ok none ∧
      ∀ requests, ExecutionBroker.approvalMissing
          ⟨approval, authorization, intent, host.toISOString startedAt⟩ requests =
        (decision.outcome == .allow &&
          (ExecutionBroker.findApprovalForIntent requests intent).isSome)
  /-- A request that was approved in time lets the decision pass. -/
  honoured : decision.outcome = .needsHuman → ∃ c request, Requested cfg c intent decision request ∧
    ∀ row, Evolves request row → row.state = .approved → ∀ now : Instant,
      (∀ timeoutMs, host.dateParse row.timeoutAt = some timeoutMs → now.ms ≤ timeoutMs) →
      ∀ (broker : ExecutionBroker) (asked : Request host) handle flags, asked.intent = intent →
      asked.correlationId = some (.str decision.correlationId) →
      Routine.Returns (broker.approvalGate asked handle request.approvalId) flags
        [⟨.approvalGet request.approvalId, .ok (some row)⟩, ⟨.now, now⟩] none flags

theorem delivered_of_returned (hhost : host.Lawful) (h : (dep.system host).Reachable cfg)
    (hconducted : Conducted cfg.log) (hreturned : .returned c (.decided (.ok decision)) ∈ cfg.log)
    (houtcome : decision.outcome ≠ .deny) (hdry : decision.dryRun = false) :
    ∃ p intent options decidedAt,
      entryOf c cfg.log = some (p, .evaluate (some intent.value) options) ∧
      decision.decidedAt = host.toISOString decidedAt ∧
      Delivered cfg (dep.service p) intent decision (received decision) decidedAt := by
  have hstamped := stamped_of_returned h hreturned houtcome
  have hdeliverable := deliverable_of_returned hhost h hconducted hreturned houtcome hdry
  obtain ⟨p, rawIntent, options, intent, c', e, a, hsound⟩ :=
    Soundness.sound_of_returned h hreturned houtcome
  obtain ⟨c₁, decidedAt, -, hdate⟩ := hstamped.dated
  obtain ⟨token, htoken⟩ := hstamped.token
  have hoptions := options_of_returned h hreturned houtcome hdry hsound.entry
  have hparsed := hsound.acceptable.parsed
  have hraw := TradingIntent.safeParse_value hparsed
  -- The call was started for this intent, by what it decided and by what it signed.
  have hid : decision.intentId = intent.intentId := by
    obtain ⟨own, heval, hid, -⟩ := hstamped.own
    obtain ⟨q, raw, hentry, hparse⟩ := heval.entry
    have hsame := hsound.entry.symm.trans hentry
    simp only [Option.some.injEq, Prod.mk.injEq, Entry.evaluate.injEq] at hsame
    rw [hsame.2.1, hparse, Option.some.injEq] at hparsed
    rw [hid, hparsed]
  have hsigned : token = host.hmacSha256 (dep.service p).decisionSigningSecret
      (decisionMessage intent decision false) := by
    obtain ⟨q, raw, options', asked, hsigned⟩ := Authority.decision_signed h hreturned htoken
    have hsame := hsound.entry.symm.trans hsigned.entry
    have hasked := hsigned.parsed
    have htoken := hsigned.token
    simp only [Option.some.injEq, Prod.mk.injEq, Entry.evaluate.injEq] at hsame
    rw [← hsame.2.1, hparsed, Option.some.injEq] at hasked
    rw [htoken, ← hsame.1, ← hsame.2.2, ← hasked, hoptions]
  refine ⟨p, intent, options, decidedAt, hraw ▸ hsound.entry, hdate, ?_, ?_, ?_⟩
  · intro answers generated request options correlationId hcall hdecided
    obtain ⟨hstatus, hbody⟩ := Runtime.guardrailServer_evaluate hcall hdecided
    rw [exchangeOf, hstatus, hbody]
    exact Agents.evaluate_response (by omega) (Agents.read_toJson hdeliverable) hid
  · intro authorization hauthorization
    have hpresentable := (presentable_of_returned hhost h hconducted hreturned houtcome hdry
      hauthorization).received
    obtain ⟨approval, hschema, hkept⟩ := @approvalSchema_body _ _ intent _ hpresentable
    have hgiven : approval.field? "dryRunAuthorization" = authorization := by
      rw [hkept _ (by decide)]
      exact approvalBody_members.2.1
    refine ⟨approval, hgiven, ?_, ?_⟩
    · intro generated correlationId request hcorrelation hmethod hpath hbody
      rw [executionBody_toResult hpresentable.outcome] at hbody
      have hcall := Runtime.brokerCall_execute hcorrelation hmethod hpath hbody hschema
      refine ⟨hcall, fun answers result hexecuted => ?_⟩
      rw [← hgiven] at hexecuted
      exact Runtime.brokerServer_execute hcall hexecuted
    · intro broker startedAt hserves hfresh
      have hfresh := hfresh.not_stale hhost
      rw [← hdate] at hfresh
      refine ⟨refusal_of_body hhost hserves hkept houtcome htoken hsigned hid
        hsound.acceptable.environment hfresh, ?_⟩
      exact approvalMissing_of_body hkept houtcome (fun _ haccepted => haccepted.2)
        (namesRequest_of_returned h hconducted hreturned houtcome hdry)
  · intro hneeds
    obtain ⟨request, hrequested⟩ := hsound.human hoptions hneeds
    refine ⟨c', request, hrequested, ?_⟩
    intro row hrow happroved now hopen broker asked handle flags hasked hcorrelation
    obtain ⟨htype, hmatches⟩ := row_matches h hsound hrequested hrow
    apply approvalGate_passes happroved hopen htype
    rw [hasked, hcorrelation]
    exact hmatches

end Delivery

open Delivery

/-- Every decision but a denial finds its way: the client reads it, and the broker takes it
from whoever sends it on while it is fresh, once a human has approved it where one was asked. -/
theorem decision_delivered (hhost : host.Lawful) (h : (dep.system host).Reachable cfg)
    (hconducted : Conducted cfg.log) {c : Nat} {decision : GuardrailDecision}
    (hreturned : .returned c (.decided (.ok decision)) ∈ cfg.log)
    (houtcome : decision.outcome ≠ .deny) (hdry : decision.dryRun = false) :
    ∃ p intent options decidedAt,
      entryOf c cfg.log = some (p, .evaluate (some intent.value) options) ∧
      decision.decidedAt = host.toISOString decidedAt ∧
      Delivered cfg (dep.service p) intent decision (received decision) decidedAt :=
  delivered_of_returned hhost h hconducted hreturned houtcome hdry

def simulationRequest : Runtime.IncomingMessage where
  method := "POST"
  path := some "/evaluate"
  correlationId := some "c"
  contentType := some "application/json; charset=utf-8"
  contentLength := some "300"
  size := 300
  parsed := some simulationIntent

def asServed : Event (signature digestHost) → Bool
  | .started _ _ (.evaluate rawIntent options) => rawIntent == some simulationIntent &&
      options.correlationId == some "c" && options.promptId.isNone && options.sessionId.isNone &&
      options.inputRef.isNone && !options.dryRun
  | .did _ (.approvalCreate _) (.ok request) => request.approvalId != ""
  | _ => true

def defers (c : Nat) : Event (signature host) → Bool
  | .returned c' (.decided (.ok decision)) =>
      c' == c && decision.outcome == .needsHuman && !decision.dryRun
  | _ => false

theorem escalated_checked : (digestRun escalatedSteps).log.all asServed = true ∧
    (digestRun escalatedSteps).log.any (defers 0) = true := by
  decide +kernel

theorem escalated_conducted : Conducted (digestRun escalatedSteps).log := by
  have hall := List.all_eq_true.mp escalated_checked.1
  constructor
  · intro c p rawIntent options hentry
    have hserved := hall _ (started_of_entryOf hentry)
    obtain ⟨promptId, sessionId, inputRef, correlationId, dryRun⟩ := options
    simp only [asServed, Bool.and_eq_true, beq_iff_eq, Option.isNone_iff_eq_none,
      Bool.not_eq_true'] at hserved
    obtain ⟨⟨⟨⟨⟨rfl, rfl⟩, rfl⟩, rfl⟩, rfl⟩, rfl⟩ := hserved
    exact ⟨⟨"c", by decide⟩, simulationRequest, simulationIntentOf, rfl,
      @Runtime.guardrailCall_evaluate _ _ ⟨"c", by decide⟩ _ _ rfl rfl rfl rfl⟩
  · exact fun _ _ _ => rfl
  · intro c params request hcreated
    exact ⟨rfl, bne_iff_ne.mp (hall _ hcreated)⟩

theorem decision_delivered_escalated :
    ∃ decision, .returned 0 (.decided (.ok decision)) ∈ (digestRun escalatedSteps).log ∧
      decision.outcome = .needsHuman ∧ ∃ p intent options decidedAt,
        entryOf 0 (digestRun escalatedSteps).log =
          some (p, .evaluate (some intent.value) options) ∧
        decision.decidedAt = digestHost.toISOString decidedAt ∧
        Delivered (digestRun escalatedSteps) (paperDeployment.service p) intent decision
          (received decision) decidedAt := by
  obtain ⟨event, hevent, hdefers⟩ := List.any_eq_true.mp escalated_checked.2
  unfold defers at hdefers
  split at hdefers
  · next c decision =>
      simp only [Bool.and_eq_true, beq_iff_eq, Bool.not_eq_true'] at hdefers
      obtain ⟨⟨rfl, hneeds⟩, hdry⟩ := hdefers
      exact ⟨decision, hevent, hneeds, decision_delivered digestHost_lawful (digestRun_reachable _)
        escalated_conducted hevent (by simp [hneeds]) hdry⟩
  · cases hdefers

end TradingGuardrails
