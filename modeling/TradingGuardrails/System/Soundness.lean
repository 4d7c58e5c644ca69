import TradingGuardrails.Policy.Onboarded
import TradingGuardrails.Schemas.Reordering
import TradingGuardrails.System.HumanApproval
import TradingGuardrails.Text.Canonical

/-!
The soundness of decisions. An evaluation says anything but no only for an intent that it
accepts, and only when the policy said so for this intent, on a verdict and a risk result
that were validated: in the same call, or in one that had returned to the same process for
the same scope and payload. A decision that waits for a human names a request that was
stored for the intent.
-/
namespace TradingGuardrails

open Text Interleaving

variable {host : Host} {dep : Deployment} {cfg : Config (signature host)}

structure Acceptable (service : GuardrailService) (rawIntent : Option Json)
    (intent : TradingIntent host) : Prop where
  parsed : TradingIntent.safeParse host rawIntent = some intent
  resource : canonicalResource intent = some intent.resource
  environment : intent.environment = service.environment
  clean : detectUnsafeContent intent = none

def RiskReported (service : GuardrailService) (log : History host) (c : Nat) (e : Evaluation host)
    (verdict riskResult : Json) : Prop :=
  match service.risk with
  | .anything => ∃ intent asked, .did c (.evaluateRisk intent asked) (.ok (some riskResult)) ∈ log
  | .engine riskEngine => ∃ today facts nowMs evaluatedAt,
      (e.intent.action = .placeOrder → ∃ stats,
        .did c (.getDailyStats e.intent.account today) (.ok stats) ∈ log ∧
        facts.dailyStats = RiskEngine.dailyStatsFor e.intent today stats) ∧
      riskResult = RiskEngine.riskResult host e.intent.intentId
        (riskEngine.checks e.intent facts nowMs verdict) facts.dailyStats evaluatedAt

structure Founded (service : GuardrailService) (log : History host) (c : Nat) (e : Evaluation host)
    (a : Assessment) : Prop where
  healthy : ∃ v, .did c .isHealthy (.ok v) ∈ log ∧ truthy v = true
  reviewed : ∃ intent, .did c (.review intent) (.ok (some a.reviewerVerdict)) ∈ log
  verdict : DecisionSchema.reviewerVerdict host a.reviewerVerdict = true
  reported : RiskReported service log c e a.reviewerVerdict a.riskResult
  riskResult : DecisionSchema.dynamicRiskResult host a.riskResult = true
  passed : ∀ check ∈ DecisionSchema.elements a.riskResult "checks",
    check.field? "status" = some (.str "pass")
  policy : ∃ raw now,
    .did c (.evaluatePolicy (e.policyInput a.reviewerVerdict a.riskResult)) (.ok raw) ∈ log ∧
    transformOpaOutput host raw now = .ok a.policyOutput

structure Carries (decision : GuardrailDecision) (a : Assessment) : Prop where
  outcome : decision.outcome = DecisionSchema.outcomeOf a.policyOutput
  reasons : decision.reasons = DecisionSchema.elements a.policyOutput "reasons"
  human : decision.requiresHumanApproval = DecisionSchema.requiresHumanApproval a.policyOutput
  reviewerVerdict : decision.reviewerVerdict = some a.reviewerVerdict
  riskResult : decision.riskResult = some a.riskResult
  policyOutput : decision.policyOutput = some a.policyOutput

/-- Another call of the process had returned, no dry run, for the same scope and payload. -/
structure Repeated (log : History host) (c c' p : Nat) (rawIntent : Option Json)
    (intent evaluated : TradingIntent host) (a : Assessment) : Prop where
  other : c' ≠ c
  entry : ∃ rawIntent' options', entryOf c' log = some (p, .evaluate rawIntent' options') ∧
    options'.dryRun = false ∧ TradingIntent.safeParse host rawIntent' = some evaluated ∧
    stableJson host (rawIntent'.getD .null) = stableJson host (rawIntent.getD .null)
  scope : idempotencyScope evaluated = idempotencyScope intent
  returned : ∃ decision, .returned c' (.decided (.ok decision)) ∈ log ∧ Carries decision a

/-- A request for a human that a call created for its decision, and that is stored as long as
nobody outside deletes it. -/
structure Requested (cfg : Config (signature host)) (c : Nat) (intent : TradingIntent host)
    (decision : GuardrailDecision) (request : ApprovalRequest) : Prop where
  created : ∃ params, .did c (.approvalCreate params) (.ok request) ∈ cfg.log
  approvalId : decision.approvalId = some request.approvalId
  oneTime : request.approvalType = .oneTime
  correlationId : request.correlationId = decision.correlationId
  intentData : Json.Equiv request.intentData intent.value
  stored : (∃ row, cfg.world.approvals.get request.approvalId = some row ∧ Evolves request row) ∨
    .outside (.deleteApproval request.approvalId) ∈ cfg.log

structure DecisionSound (dep : Deployment) (cfg : Config (signature host)) (c p : Nat)
    (rawIntent : Option Json) (options : EvaluationOptions) (decision : GuardrailDecision)
    (intent : TradingIntent host) (c' : Nat) (e : Evaluation host) (a : Assessment) : Prop where
  entry : entryOf c cfg.log = some (p, .evaluate rawIntent options)
  acceptable : Acceptable (dep.service p) rawIntent intent
  source : c' = c ∧ e.intent = intent ∨
    options.dryRun = false ∧ Repeated cfg.log c c' p rawIntent intent e.intent a
  founded : Founded (dep.service p) cfg.log c' e a
  carries : Carries decision a
  human : options.dryRun = false → decision.outcome = .needsHuman →
    ∃ request, Requested cfg c' intent decision request

namespace Soundness

structure Heard (log : History host) (c : Nat) (s : Appraisal) : Prop where
  healthy : ∀ reply, s.healthy = some reply → .did c .isHealthy reply ∈ log
  reviewed : ∀ reply, s.reviewed = some reply → ∃ intent, .did c (.review intent) reply ∈ log
  assessed : ∀ reply, s.assessed = some reply →
    ∃ intent verdict, .did c (.evaluateRisk intent verdict) reply ∈ log
  stats : ∀ account date stats, s.stats = some (account, date, stats) →
    .did c (.getDailyStats account date) (.ok stats) ∈ log
  policy : ∀ input reply, s.policy = some (input, reply) →
    .did c (.evaluatePolicy input) reply ∈ log
  created : ∀ request, s.created = some request → s.stage ≠ .before ∧
    ∃ (e : Evaluation host) (decision : GuardrailDecision), s.evaluation host = some e ∧
      decision.correlationId = e.correlationId ∧
      .did c (.approvalCreate (GuardrailService.approvalParams e decision)) (.ok request) ∈ log

theorem Heard.later {log : History host} {c : Nat} {s : Appraisal} (h : Heard log c s)
    (event : Event (signature host)) : Heard (event :: log) c s := by
  constructor
  · exact fun reply hs => List.mem_cons_of_mem _ (h.healthy reply hs)
  · intro reply hs
    obtain ⟨intent, hmem⟩ := h.reviewed reply hs
    exact ⟨intent, List.mem_cons_of_mem _ hmem⟩
  · intro reply hs
    obtain ⟨intent, verdict, hmem⟩ := h.assessed reply hs
    exact ⟨intent, verdict, List.mem_cons_of_mem _ hmem⟩
  · exact fun account date stats hs => List.mem_cons_of_mem _ (h.stats account date stats hs)
  · exact fun input reply hs => List.mem_cons_of_mem _ (h.policy input reply hs)
  · intro request hs
    obtain ⟨hstage, e, decision, heval, hcorrelation, hmem⟩ := h.created request hs
    exact ⟨hstage, e, decision, heval, hcorrelation, List.mem_cons_of_mem _ hmem⟩

theorem Heard.next {log : History host} {c : Nat} {s : Appraisal} (h : Heard log c s)
    {op : Op host} (hallowed : s.allowed op) (a : Ans host op) :
    Heard (.did c op a :: log) c (s.next op a) := by
  have hlater := h.later (.did c op a)
  constructor
  · intro reply hs
    cases op with
    | isHealthy =>
        cases hs
        exact List.mem_cons_self
    | _ => exact hlater.healthy reply hs
  · intro reply hs
    cases op with
    | review intent =>
        cases hs
        exact ⟨intent, List.mem_cons_self⟩
    | _ => exact hlater.reviewed reply hs
  · intro reply hs
    cases op with
    | evaluateRisk intent verdict =>
        cases hs
        exact ⟨intent, verdict, List.mem_cons_self⟩
    | _ => exact hlater.assessed reply hs
  · intro account date stats hs
    cases op with
    | getDailyStats account' date' =>
        cases a with
        | error e => exact hlater.stats account date stats hs
        | ok stats' =>
            cases hs
            exact List.mem_cons_self
    | _ => exact hlater.stats account date stats hs
  · intro input reply hs
    cases op with
    | evaluatePolicy input' =>
        cases hs
        exact List.mem_cons_self
    | _ => exact hlater.policy input reply hs
  · -- A request that the call kept before, it keeps with its evaluation.
    have hold : ∀ request, s.created = some request → (s.next op a).stage ≠ .before ∧
        ∃ (e : Evaluation host) (decision : GuardrailDecision),
          (s.next op a).evaluation host = some e ∧ decision.correlationId = e.correlationId ∧
          .did c (.approvalCreate (GuardrailService.approvalParams e decision)) (.ok request) ∈
            .did c op a :: log := by
      intro request hs
      obtain ⟨hstage, e, decision, heval, hcorrelation, hmem⟩ := hlater.created request hs
      exact ⟨Appraisal.next_ne_before hstage, e, decision,
        Agreement.evaluation_stays heval hstage hallowed, hcorrelation, hmem⟩
    intro request hs
    cases op with
    | approvalCreate params =>
        cases a with
        | error e => exact hold request hs
        | ok request' =>
            cases hs
            obtain ⟨hstage, hcreated, e, assessment, heval, hassessed, rfl⟩ := hallowed
            have hnot : s.stage ≠ .before := by simp [hstage]
            exact ⟨Appraisal.next_ne_before hnot, e, _,
              Agreement.evaluation_stays heval hnot
                ⟨hstage, hcreated, e, assessment, heval, hassessed, rfl⟩, rfl, List.mem_cons_self⟩
    | approvalDelete id =>
        cases a with
        | error e => exact hold request hs
        | ok u => cases hs
    | _ => exact hold request hs

theorem heard_of_state {log : History host} (hkept : (dep.discipline host).Kept log) {c p : Nat}
    {s : Appraisal} (hs : (dep.discipline host).state c log = some ⟨p, .appraising s⟩) :
    Heard log c s := by
  refine hkept.evidence (P := fun c (st : CallState host) log =>
    ∀ s, st.progress = .appraising s → Heard log c s) ?_ ?_ ?_ hs s rfl
  · intro c p e log s hstart
    cases e with
    | evaluate rawIntent options =>
        cases hstart
        exact ⟨(fun _ h => by cases h), (fun _ h => by cases h), (fun _ h => by cases h),
          (fun _ _ _ h => by cases h), (fun _ _ h => by cases h), (fun _ h => by cases h)⟩
    | execute | dryRun | callback => cases hstart
  · intro c st event log ih s hs
    exact (ih s hs).later event
  · rintro c ⟨p, progress⟩ op a log ih hallowed s hnext
    cases progress with
    | appraising s' =>
        cases hnext
        exact (ih s' rfl).next hallowed a
    | rehearsing | executing | checking => cases hnext

/-- What a store has complete after an operation it had before, or the operation set it. -/
theorem complete_after {store : DecisionStore} {op : Op host} {key payloadHash : String}
    {decision : GuardrailDecision}
    (h : (store.after op).entries key = some (.complete payloadHash decision)) :
    store.entries key = some (.complete payloadHash decision) ∨
      op = .set key payloadHash decision := by
  cases op with
  | reserve key' payloadHash' =>
      left
      have h : (store.reserve key' payloadHash').entries key = _ := h
      by_cases hkey : key = key'
      · subst hkey
        cases hentry : store.entries key with
        | none =>
            rw [DecisionStore.reserve_absent hentry] at h
            exact absurd ((store.put_self _).symm.trans h) (by simp)
        | some entry => simpa [DecisionStore.reserve, hentry] using h
      · rwa [DecisionStore.reserve_of_ne hkey] at h
  | set key' payloadHash' decision' =>
      have h : (store.set key' payloadHash' decision').entries key = _ := h
      by_cases hkey : key = key'
      · subst hkey
        rw [DecisionStore.set_entry] at h
        cases h
        exact .inr rfl
      · rw [DecisionStore.set_of_ne hkey] at h
        exact .inl h
  | abortDecision key' payloadHash' error =>
      left
      have h : (store.abort key' payloadHash' error).entries key = _ := h
      by_cases hkey : key = key'
      · subst hkey
        unfold DecisionStore.abort at h
        split at h
        · split_ifs at h
          · rw [DecisionStore.entries_settle] at h
            exact absurd ((store.put_self none).symm.trans h) (by simp)
          · exact h
        · exact h
      · rwa [DecisionStore.abort_of_ne hkey] at h
  | _ => exact .inl h

def Owned (dep : Deployment) (cfg : Config (signature host)) : Prop :=
  ∀ p key payloadHash decision,
    (cfg.world.processes p).decisions.entries key = some (.complete payloadHash decision) →
    ∃ c s, ∃ e : Evaluation host, Appraising dep cfg c p s ∧ s.stage = .concluded decision ∧
      s.evaluation host = some e ∧ e.scope = key ∧ e.payloadHash = payloadHash

theorem owned_reachable (h : (dep.system host).Reachable cfg) : Owned dep cfg := by
  refine Discipline.invariant (dep.followed host) ?_ ?_ h
  · rintro w rfl p key payloadHash decision hentry
    cases hentry
  intro cfg cfg' hreach hsound hinv hmove
  cases hmove with
  | @start q entry rests enabled =>
      intro p key payloadHash decision hentry
      obtain ⟨c, s, e, hs, howner⟩ := hinv p key payloadHash decision hentry
      obtain ⟨x, hx⟩ := Discipline.entryOf_of_state hs
      have hbelow := (Discipline.accounted_reachable (dep.followed host) hreach).below c x hx
      exact ⟨c, s, e, by rw [Appraising, Discipline.state_started (by omega), hs], howner⟩
  | @act c call st op next i a w live program state allowed turn performed =>
      intro p key payloadHash decision hentry
      have hproc := Scopes.proc_reachable hreach live state
      -- Who owned the entry still does, also if it is the call that acts.
      have hkeeps : (cfg.world.processes p).decisions.entries key =
          some (.complete payloadHash decision) → ∃ c' s, ∃ e : Evaluation host,
          (dep.discipline host).state c' (.did c op a :: cfg.log) = some ⟨p, .appraising s⟩ ∧
          s.stage = .concluded decision ∧ s.evaluation host = some e ∧ e.scope = key ∧
          e.payloadHash = payloadHash := by
        intro hold
        obtain ⟨c', s, e, hs, hstage, heval, hscope⟩ := hinv p key payloadHash decision hold
        by_cases hc : c' = c
        · subst hc
          cases state.symm.trans hs
          have allowed : s.allowed op := allowed
          refine ⟨c', s.next op a, e, Discipline.state_did_self hs, ?_,
            Agreement.evaluation_stays heval (by simp [hstage]) allowed, hscope⟩
          exact (Appraisal.stageAfter_of_lasts (by rw [hstage]; rfl) allowed a).trans hstage
        · exact ⟨c', s, e, by rw [Discipline.state_did (Ne.symm hc), hs], hstage, heval, hscope⟩
      rw [perform_decisions performed] at hentry
      split_ifs at hentry with hp
      · rcases complete_after hentry with hold | rfl
        · exact hkeeps (hp ▸ hold)
        · obtain ⟨proc, progress⟩ := st
          cases progress with
          | executing | rehearsing | checking => exact False.elim allowed
          | appraising s =>
              obtain ⟨hstage, e, heval, hscope, hpayload, -⟩ := allowed
              obtain rfl : proc = p := hproc.trans hp.symm
              exact ⟨c, s.next (.set key payloadHash decision : Op host) a, e,
                Discipline.state_did_self state, rfl, heval, hscope, hpayload⟩
      · exact hkeeps hentry
  | finish live state final turn => exact hinv
  | crash => exact hinv
  | outside rests acted =>
      intro p key payloadHash decision hentry
      rw [act_decisions acted] at hentry
      exact hinv p key payloadHash decision hentry

/-- A call that has stored its decision does not wait any more. -/
theorem concluded_waits {s : Appraisal} {decision : GuardrailDecision}
    (hs : s.stage = .concluded decision) {op : Op host} (hallowed : s.allowed op) :
    waits host op = false := by
  cases op with
  | pendingResult | revalidate | connectorResult | settle => exact False.elim hallowed
  | pendingDecision promise => exact absurd (hs.symm.trans hallowed) (by simp)
  | isHealthy | review | evaluateRisk | evaluatePolicy | getMarketData | getPortfolio
  | getLastOrderTimestampMs =>
      exact absurd hallowed (by simp [Appraisal.allowed, Appraisal.Working, hs])
  | getDailyStats => exact absurd hallowed.1 (by simp [Appraisal.Working, hs])
  | _ => rfl

/-- A call that has stored its decision is still at it, or has returned the decision, unless
its process has crashed. -/
def Finishing (dep : Deployment) (cfg : Config (signature host)) : Prop :=
  ∀ c p s decision, Appraising dep cfg c p s → s.stage = .concluded decision →
    cfg.current p = some c ∨ .returned c (.decided (.ok decision)) ∈ cfg.log ∨
      cfg.log.any (Deployment.isCrash p) = true

theorem not_current_of_rests {p c : Nat} {s : Appraisal} {decision : GuardrailDecision}
    (rests : (dep.discipline host).Rests (dep.system host) cfg p) (hs : Appraising dep cfg c p s)
    (hstage : s.stage = .concluded decision) : cfg.current p ≠ some c := by
  intro hcurrent
  obtain ⟨call, st, op, next, -, -, hwaits, hst, hallowed⟩ := rests c hcurrent
  cases hs.symm.trans hst
  exact absurd (hwaits.symm.trans (concluded_waits hstage hallowed)) (by simp)

theorem finishing_later {log : History host} {c p : Nat} {decision : GuardrailDecision}
    {current current' : Option Nat} (event : Event (signature host))
    (hcurrent : current = some c → current' = some c)
    (h : current = some c ∨ .returned c (.decided (.ok decision)) ∈ log ∨
      log.any (Deployment.isCrash p) = true) :
    current' = some c ∨ .returned c (.decided (.ok decision)) ∈ event :: log ∨
      (event :: log).any (Deployment.isCrash p) = true := by
  refine h.imp hcurrent (Or.imp (List.mem_cons_of_mem _) fun hcrashed => ?_)
  rw [List.any_cons, hcrashed, Bool.or_true]

/-- A call that has stored its decision returns it. -/
theorem returned_of_concluded {p : Nat} {s : Appraisal} {decision : GuardrailDecision}
    {r : (signature host).Ret} (hstage : s.stage = .concluded decision)
    (final : (dep.discipline host).final ⟨p, .appraising s⟩ r) :
    r = .decided (.ok decision) := by
  cases r with
  | executed | reported | calledBack => exact False.elim final
  | decided result =>
      cases result with
      | error e =>
          have hgave : s.stage.gaveUp = true := final.1
          rw [hstage] at hgave
          cases hgave
      | ok decided =>
          have final : s.final host (.ok decided) := final
          simp only [Appraisal.final, hstage] at final
          rw [final]

theorem finishing_reachable (h : (dep.system host).Reachable cfg) : Finishing dep cfg := by
  refine Discipline.invariant (dep.followed host) ?_ ?_ h
  · rintro w - c p s decision hs
    cases hs
  intro cfg cfg' hreach hsound hinv hmove c p s decision hs hstage
  cases hmove with
  | @start q entry rests enabled =>
      by_cases hc : cfg.next = c
      · simp only [Appraising, Discipline.state, if_pos hc, Option.some.injEq,
          CallState.mk.injEq] at hs
        cases entry with
        | evaluate rawIntent options =>
            cases hs.2
            cases hstage
        | execute | dryRun | callback => cases hs.2
      · rw [Appraising, Discipline.state_started hc] at hs
        refine finishing_later _ (fun hcurrent => ?_) (hinv c p s decision hs hstage)
        have hp : p ≠ q := by
          rintro rfl
          exact not_current_of_rests rests hs hstage hcurrent
        exact (Function.update_of_ne hp _ _).trans hcurrent
  | @act c₀ call st op next i a w live program state allowed turn performed =>
      have hproc := Scopes.proc_reachable hreach live state
      by_cases hc : c = c₀
      · subst hc
        obtain ⟨s', rfl, -⟩ := appraising_act state hs
        left
        rw [show p = call.proc from hproc]
        exact Function.update_self ..
      · rw [Appraising, Discipline.state_did (Ne.symm hc)] at hs
        refine finishing_later _ (fun hcurrent => ?_) (hinv c p s decision hs hstage)
        have hp : p ≠ call.proc := by
          rintro rfl
          rcases turn with hturn | ⟨hrests, -⟩
          · exact hc (Option.some.inj (hcurrent.symm.trans hturn))
          · exact not_current_of_rests hrests hs hstage hcurrent
        exact (Function.update_of_ne hp _ _).trans hcurrent
  | @finish c₀ call st r live state final turn =>
      by_cases hc : c = c₀
      · subst hc
        cases state.symm.trans hs
        rw [returned_of_concluded hstage final]
        exact .inr (.inl List.mem_cons_self)
      · refine finishing_later _ (fun hcurrent => ?_) (hinv c p s decision hs hstage)
        have hp : p ≠ call.proc := by
          rintro rfl
          exact hc (Option.some.inj (hcurrent.symm.trans turn))
        exact (Function.update_of_ne hp _ _).trans hcurrent
  | @crash q =>
      by_cases hp : p = q
      · exact .inr (.inr (by simp [Machine.crashStep, Deployment.isCrash, hp]))
      · exact finishing_later _ (fun hcurrent => (Function.update_of_ne hp _ _).trans hcurrent)
          (hinv c p s decision hs hstage)
  | outside rests acted =>
      exact finishing_later _ id (hinv c p s decision hs hstage)

/-- Every request of the one database is in the other, in some version. -/
def Retains (db db' : ApprovalDatabase) : Prop :=
  ∀ approvalId r, db.get approvalId = some r → ∃ r', db'.get approvalId = some r'

theorem Retains.refl (db : ApprovalDatabase) : Retains db db :=
  fun _ r h => ⟨r, h⟩

theorem Retains.save (db : ApprovalDatabase) (request : ApprovalRequest) :
    Retains db (db.save request) := by
  intro approvalId r hr
  by_cases hid : approvalId = request.approvalId
  · subst hid
    exact ⟨request, ApprovalDatabase.get_save hr⟩
  · exact ⟨r, (ApprovalDatabase.get_save_of_ne hid).trans hr⟩

theorem Retains.insert (db : ApprovalDatabase) (request : ApprovalRequest) :
    Retains db (db.insert request) := by
  intro approvalId r hr
  refine ⟨r, ?_⟩
  simp only [ApprovalDatabase.get, ApprovalDatabase.insert, List.find?_append] at hr ⊢
  rw [hr]
  rfl

theorem Retains.decide (db : ApprovalDatabase) (decision : ApprovalState)
    (approvalId decidedBy : String) (now : Instant) (audited : Bool) :
    Retains db (db.decide host decision approvalId decidedBy now audited) := by
  simp only [ApprovalDatabase.decide]
  split
  · exact .refl db
  · split_ifs
    · exact .refl db
    · exact .refl db
    · exact .save db _
    · exact .save db _

theorem Retains.expire (db : ApprovalDatabase) (approvalId : String) (now : Instant)
    (audited : Bool) : Retains db (db.expire host approvalId now audited) := by
  simp only [ApprovalDatabase.expire]
  split
  · exact .refl db
  · split_ifs
    · exact .refl db
    · exact .refl db
    · exact .refl db
    · exact .save db _

theorem Retains.consumeOneTime (db : ApprovalDatabase) (approvalId : String) (now : Instant) :
    Retains db (db.consumeOneTime host approvalId now).2 := by
  cases hr : (db.consumeOneTime host approvalId now).1 with
  | none =>
      rw [ApprovalDatabase.consumeOneTime_none hr]
      exact .refl db
  | some r =>
      obtain ⟨request, -, -, -, -, -, hdb⟩ := ApprovalDatabase.consumeOneTime_some hr
      rw [hdb]
      exact .save db _

theorem get_delete_of_ne {db : ApprovalDatabase} {deleted approvalId : String}
    {r : ApprovalRequest} (hr : db.get approvalId = some r) (hne : approvalId ≠ deleted) :
    ∃ r', (db.delete deleted).get approvalId = some r' := by
  obtain ⟨hmem, hid⟩ := ApprovalDatabase.get_mem hr
  have hkept : r ∈ (db.delete deleted).rows := by
    simp only [ApprovalDatabase.delete, List.mem_filter]
    exact ⟨hmem, by simp [hid, hne]⟩
  cases hget : (db.delete deleted).get approvalId with
  | some r' => exact ⟨r', rfl⟩
  | none =>
      have hnone := List.find?_eq_none.mp hget r hkept
      exact absurd hid (by simpa using hnone)

/-- A request goes only when it is deleted. -/
theorem perform_retains {p : Nat} {op : Op host} {i : Input} {w w' : World host} {a : Ans host op}
    (h : dep.perform p op i w = some (a, w')) {approvalId : String} {r : ApprovalRequest}
    (hr : w.approvals.get approvalId = some r) (c : Nat) :
    (∃ r', w'.approvals.get approvalId = some r') ∨
      (Event.did c op a : Event (signature host)) =
        .did c (.approvalDelete approvalId) (.ok ()) := by
  by_cases hop : Deployment.touches op = .approvals
  · cases op with
    | approvalCreate params =>
        left
        simp only [Deployment.perform, Deployment.approvalCreate] at h
        split at h
        · cases h
          exact ⟨r, hr⟩
        · split_ifs at h
          cases h
          exact Retains.insert w.approvals _ approvalId r hr
    | approvalDelete deleted =>
        simp only [Deployment.perform] at h
        split at h <;> cases h
        · exact .inl ⟨r, hr⟩
        · by_cases hid : approvalId = deleted
          · subst hid
            exact .inr rfl
          · exact .inl (get_delete_of_ne hr hid)
    | approvalConsumeOneTime consumed =>
        left
        simp only [Deployment.perform, Deployment.approvalConsumeOneTime, Option.some.injEq] at h
        split at h <;> cases h
        · exact ⟨r, hr⟩
        · exact Retains.consumeOneTime w.approvals consumed i.clock approvalId r hr
    | _ => cases hop
  · exact .inl ⟨r, by rw [(dep.perform_frame h).approvals hop, hr]⟩

theorem act_retains {x : Outside} {w w' : World host} (h : x.act w = some w') {approvalId : String}
    {r : ApprovalRequest} (hr : w.approvals.get approvalId = some r) :
    (∃ r', w'.approvals.get approvalId = some r') ∨ x = .deleteApproval approvalId := by
  cases x with
  | createApproval params id now timeout =>
      simp only [Outside.act] at h
      split_ifs at h
      cases h
      exact .inl (Retains.insert w.approvals _ approvalId r hr)
  | approve id decidedBy now audited =>
      cases h
      exact .inl (Retains.decide w.approvals _ id decidedBy now audited approvalId r hr)
  | deny id decidedBy now audited =>
      cases h
      exact .inl (Retains.decide w.approvals _ id decidedBy now audited approvalId r hr)
  | expire id now audited =>
      cases h
      exact .inl (Retains.expire w.approvals id now audited approvalId r hr)
  | consumeOneTime id now =>
      cases h
      exact .inl (Retains.consumeOneTime w.approvals id now approvalId r hr)
  | deleteApproval deleted =>
      cases h
      by_cases hid : approvalId = deleted
      · exact .inr (by rw [hid])
      · exact .inl (get_delete_of_ne hr hid)
  | activate | deactivate =>
      cases h
      exact .inl ⟨r, hr⟩

/-- A stored request is stored later on, unless somebody deleted it. -/
theorem retained_exec (h : (dep.system host).Reachable cfg) {approvalId : String}
    {r : ApprovalRequest} (hr : cfg.world.approvals.get approvalId = some r)
    (steps : List (Step (signature host))) :
    let later := (dep.system host).exec cfg steps
    (∃ r', later.world.approvals.get approvalId = some r') ∨
      .outside (.deleteApproval approvalId) ∈ later.log ∨
      ∃ c, .did c (.approvalDelete approvalId) (.ok ()) ∈ later.log := by
  intro later
  refine @Discipline.invariant_exec _ _ _ (dep.followed host) (fun cfg =>
    (∃ r', cfg.world.approvals.get approvalId = some r') ∨
      .outside (.deleteApproval approvalId) ∈ cfg.log ∨
      ∃ c, .did c (.approvalDelete approvalId) (.ok ()) ∈ cfg.log)
    (fun cfg cfg' hreach hsound hinv hmove => ?_) _ h (.inl ⟨r, hr⟩) steps
  rcases hinv with ⟨r', hr'⟩ | hrest
  · cases hmove with
    | @act c call st op next i a w live program state allowed turn performed =>
        rcases perform_retains performed hr' c with hkept | hevent
        · exact .inl hkept
        · exact .inr (.inr ⟨c, hevent ▸ List.mem_cons_self⟩)
    | outside rests acted =>
        rcases act_retains acted hr' with hkept | rfl
        · exact .inl hkept
        · exact .inr (.inl List.mem_cons_self)
    | start | finish | crash => exact .inl ⟨r', hr'⟩
  · right
    have hmem : ∀ event, event ∈ cfg.log → event ∈ cfg'.log := by
      intro event hevent
      cases hmove with
      | start | act | finish | outside => exact List.mem_cons_of_mem _ hevent
      | crash => exact List.mem_cons_of_mem _ hevent
    rcases hrest with houtside | ⟨c, hdelete⟩
    · exact .inl (hmem _ houtside)
    · exact .inr ⟨c, hmem _ hdelete⟩

/-- No two requests of a run have one id. -/
theorem created_once (h : (dep.system host).Reachable cfg) {newer older : History host}
    {c c' : Nat} {params params' : ApprovalParams} {request request' : ApprovalRequest}
    (hlog : cfg.log = newer ++ .did c (.approvalCreate params) (.ok request) :: older)
    (hmem : .did c' (.approvalCreate params') (.ok request') ∈ older) :
    request'.approvalId ≠ request.approvalId := by
  intro hid
  obtain ⟨before, after, p, entry, progress, hpast⟩ := Deployment.past_reachable h hlog
  obtain ⟨newer', older', rfl⟩ := List.append_of_mem hmem
  obtain ⟨before', after', p', entry', progress', hpast'⟩ :=
    Deployment.past_reachable hpast.reachable hpast.log
  obtain ⟨i, hperformed⟩ := hpast.performed
  obtain ⟨i', hperformed'⟩ := hpast'.performed
  have hissued := created_request hperformed'
  obtain ⟨steps, hexec⟩ := hpast'.rest
  have hstill : before.world.approvals.isFresh request'.approvalId = false := by
    rw [← hexec]
    exact @Discipline.invariant_exec _ _ _ (dep.followed host)
      (fun cfg => cfg.world.approvals.isFresh request'.approvalId = false)
      (fun cfg cfg' hreach _ hissued hmove =>
        (HumanApproval.move_change (HumanApproval.stored_reachable hreach) hmove).issued hissued)
      _ hpast'.reaches hissued steps
  simp only [Deployment.perform, Deployment.approvalCreate] at hperformed
  split at hperformed
  · cases hperformed
  · split_ifs at hperformed with hfresh
    simp only [Option.some.injEq, Prod.mk.injEq] at hperformed
    obtain rfl := Except.ok.inj hperformed.1
    have hid : request'.approvalId = i.id := hid
    rw [hid, hfresh] at hstill
    cases hstill

/-- The operation with which a call comes to keep a request creates the request. -/
theorem creates_of_became {older : History host} {c : Nat} {op : Op host} {a : Ans host op}
    {st : CallState host} {s : Appraisal} {request : ApprovalRequest}
    (hst : (dep.discipline host).state c older = some st)
    (hnot : ¬∃ s, st.progress = .appraising s ∧ s.created = some request)
    (hprogress : ((dep.discipline host).next st op a).progress = .appraising s)
    (hcreated : s.created = some request) :
    ∃ params, (Event.did c op a : Event (signature host)) =
      .did c (.approvalCreate params) (.ok request) := by
  obtain ⟨q, progress⟩ := st
  obtain ⟨s₀, hst₀, rfl⟩ := appraising_act (p := q) hst
    ((Discipline.state_did_self hst).trans (by rw [← hprogress]))
  cases hst₀
  have hold : s₀.created ≠ some request := fun hold => hnot ⟨s₀, rfl, hold⟩
  cases op with
  | approvalCreate params =>
      cases a with
      | error e => exact absurd hcreated hold
      | ok request' =>
          cases hcreated
          exact ⟨params, rfl⟩
  | approvalDelete id =>
      cases a with
      | error e => exact absurd hcreated hold
      | ok u => cases hcreated
  | _ => exact absurd hcreated hold

/-- Whoever deletes a request has created it. -/
theorem created_of_deleted (h : (dep.system host).Reachable cfg) {newer older : History host}
    {c : Nat} {approvalId : String}
    (hlog : cfg.log = newer ++ .did c (.approvalDelete approvalId) (.ok ()) :: older) :
    ∃ params request, .did c (.approvalCreate params) (.ok request) ∈ older ∧
      request.approvalId = approvalId := by
  obtain ⟨before, after, q, entry, progress, hpast⟩ := Deployment.past_reachable h hlog
  have hallowed := hpast.allowed
  cases progress with
  | executing | rehearsing | checking => exact False.elim hallowed
  | appraising s =>
      obtain ⟨-, request, hrequest, hid⟩ := hallowed
      have hkept := (Discipline.sound_reachable (dep.followed host) hpast.reachable).kept
      rw [hpast.log] at hkept
      obtain ⟨-, e, decision, -, -, hmem⟩ :=
        (heard_of_state hkept hpast.state).created request hrequest
      exact ⟨_, request, hmem, hid⟩

/-- Nobody deletes a request that a call keeps. -/
theorem kept_undeleted (h : (dep.system host).Reachable cfg) {c p : Nat} {s : Appraisal}
    (hs : Appraising dep cfg c p s) {request : ApprovalRequest}
    (hcreated : s.created = some request) (c' : Nat) :
    .did c' (.approvalDelete request.approvalId) (.ok ()) ∉ cfg.log := by
  intro hdelete
  let Q : CallState host → Prop := fun st =>
    ∃ s, st.progress = .appraising s ∧ s.created = some request
  have hstart : ∀ p e, ¬Q ((dep.discipline host).start p e) := by
    rintro p e ⟨s, hstart, hcreated⟩
    cases e with
    | evaluate rawIntent options =>
        cases hstart
        cases hcreated
    | execute | dryRun | callback => cases hstart
  obtain ⟨newer, older, op, a, st, hlog, hst, hnot, ⟨s', hprogress, hcreated'⟩, hsince⟩ :=
    Discipline.since hstart hs ⟨s, rfl, hcreated⟩
  obtain ⟨params, hevent⟩ := creates_of_became hst hnot hprogress hcreated'
  rw [hevent] at hlog
  rw [hlog] at hdelete
  rcases List.mem_append.mp hdelete with hnewer | hrest
  · obtain ⟨later, between, rfl⟩ := List.append_of_mem hnewer
    have hlog' : cfg.log = later ++ .did c' (.approvalDelete request.approvalId) (.ok ()) ::
        (between ++ .did c (.approvalCreate params) (.ok request) :: older) := by
      rw [hlog, List.append_assoc, List.cons_append]
    obtain ⟨params', request', hmem, hid⟩ := created_of_deleted h hlog'
    rcases List.mem_append.mp hmem with hbetween | hmem
    · obtain ⟨later', between', rfl⟩ := List.append_of_mem hbetween
      have hlog'' : cfg.log =
          (later ++ .did c' (.approvalDelete request.approvalId) (.ok ()) :: later') ++
          .did c' (.approvalCreate params') (.ok request') ::
          (between' ++ .did c (.approvalCreate params) (.ok request) :: older) := by
        rw [hlog']
        simp
      exact created_once h hlog'' (List.mem_append_right _ List.mem_cons_self) hid.symm
    rcases List.mem_cons.mp hmem with hsame | holder
    · cases hsame
      obtain ⟨st', -, s', hprogress, hnone⟩ := hsince later _ _ between rfl
      obtain ⟨q', progress'⟩ := st'
      cases progress' with
      | appraising s₀ =>
          cases hprogress
          cases hnone
      | executing | rehearsing | checking => cases hprogress
    · exact created_once h hlog holder hid
  · have holder := (List.mem_cons.mp hrest).resolve_left (fun heq => by cases heq)
    obtain ⟨between, oldest, rfl⟩ := List.append_of_mem holder
    have hlog' : cfg.log = (newer ++ .did c (.approvalCreate params) (.ok request) :: between) ++
        .did c' (.approvalDelete request.approvalId) (.ok ()) :: oldest := by
      rw [hlog, List.append_assoc, List.cons_append]
    obtain ⟨params', request', hmem, hid⟩ := created_of_deleted h hlog'
    exact created_once h hlog (List.mem_append_right _ (List.mem_cons_of_mem _ hmem)) hid

/-- A request that a call creates is stored from then on. -/
theorem stored_of_created (h : (dep.system host).Reachable cfg) {c : Nat}
    {params : ApprovalParams} {request : ApprovalRequest}
    (hmem : .did c (.approvalCreate params) (.ok request) ∈ cfg.log) :
    request.toApprovalParams = params ∧ ∃ after, (dep.system host).Reachable after ∧
      (∃ steps, (dep.system host).exec after steps = cfg) ∧
      after.world.approvals.get request.approvalId = some request := by
  obtain ⟨newer, older, hlog⟩ := List.append_of_mem hmem
  obtain ⟨before, after, q, entry, progress, hpast⟩ := Deployment.past_reachable h hlog
  obtain ⟨i, hperformed⟩ := hpast.performed
  simp only [Deployment.perform, Deployment.approvalCreate] at hperformed
  split at hperformed
  · cases hperformed
  · split_ifs at hperformed with hfresh
    simp only [Option.some.injEq, Prod.mk.injEq] at hperformed
    obtain ⟨hanswer, hworld⟩ := hperformed
    obtain rfl := Except.ok.inj hanswer
    refine ⟨rfl, after, hpast.reaches, hpast.rest, ?_⟩
    rw [← hworld]
    exact ApprovalDatabase.get_of_mem ((HumanApproval.stored_reachable
      hpast.reachable).wellFormed.insert hfresh) (List.mem_append_right _ List.mem_cons_self)

/-- The request that a call keeps is for its intent, and is stored. -/
theorem requested_of_created (h : (dep.system host).Reachable cfg) {c p : Nat} {s : Appraisal}
    (hs : Appraising dep cfg c p s) {e : Evaluation host} (heval : s.evaluation host = some e)
    {request : ApprovalRequest} (hcreated : s.created = some request)
    {decision : GuardrailDecision} {intent : TradingIntent host}
    (hid : decision.approvalId = some request.approvalId)
    (hcorrelation : decision.correlationId = e.correlationId)
    (hintent : Json.Equiv e.intent.value intent.value) :
    Requested cfg c intent decision request := by
  have hkept := (Discipline.sound_reachable (dep.followed host) h).kept
  obtain ⟨-, e', asked, heval', hasked, hmem⟩ := (heard_of_state hkept hs).created request hcreated
  cases heval.symm.trans heval'
  obtain ⟨hparams, after, hafter, ⟨steps, rfl⟩, hstored⟩ := stored_of_created h hmem
  constructor
  · exact ⟨_, hmem⟩
  · exact hid
  · exact congrArg ApprovalParams.approvalType hparams
  · rw [hparams, hcorrelation]
    exact hasked
  · rw [hparams]
    exact hintent
  · rcases retained_exec hafter hstored steps with ⟨row, hrow⟩ | houtside | ⟨c', hdelete⟩
    · exact .inl ⟨row, hrow, HumanApproval.evolves_exec hafter steps hstored hrow⟩
    · exact .inr houtside
    · exact absurd hdelete (kept_undeleted h hs hcreated c')

theorem founded_of_assessed {log : History host} {c : Nat} {s : Appraisal} {e : Evaluation host}
    {a : Assessment} (hheard : Heard log c s) (h : s.Assessed e a) :
    Founded s.service log c e a := by
  obtain ⟨reply, hreviewed, haccepted⟩ := h.reviewed
  obtain ⟨rfl, hverdict⟩ := accepted_some haccepted
  constructor
  · obtain ⟨v, hhealthy, htruthy⟩ := h.healthy
    exact ⟨v, hheard.healthy _ hhealthy, htruthy⟩
  · exact hheard.reviewed _ hreviewed
  · exact hverdict
  · have hanswer := h.riskAnswer
    unfold Appraisal.RiskAnswer at hanswer
    unfold RiskReported
    cases hrisk : s.service.risk with
    | anything =>
        rw [hrisk] at hanswer
        exact hheard.assessed _ hanswer
    | engine riskEngine =>
        rw [hrisk] at hanswer
        obtain ⟨today, facts, nowMs, evaluatedAt, hstats, hresult⟩ := hanswer
        refine ⟨today, facts, nowMs, evaluatedAt, fun haction => ?_, Option.some.inj hresult⟩
        obtain ⟨stats, hasked, hfacts⟩ := hstats haction
        exact ⟨stats, hheard.stats _ _ _ hasked, hfacts⟩
  · exact h.risk.1
  · intro check hcheck
    have hpassed : DecisionSchema.everyCheckPasses a.riskResult = true := by
      have hvalid := h.risk.1
      simp only [DecisionSchema.dynamicRiskResult, Bool.and_eq_true, beq_iff_eq, h.risk.2,
        Option.some.injEq, Json.bool.injEq] at hvalid
      exact hvalid.2.symm
    exact beq_iff_eq.mp (List.all_eq_true.mp hpassed check hcheck)
  · obtain ⟨raw, now, hpolicy, htransform⟩ := h.policy
    exact ⟨raw, now, hheard.policy _ _ hpolicy, htransform⟩

theorem founded_later {service : GuardrailService} {log : History host} {c : Nat}
    {e : Evaluation host} {a : Assessment} (h : Founded service log c e a) (newer : History host) :
    Founded service (newer ++ log) c e a := by
  constructor
  · obtain ⟨v, hmem, htruthy⟩ := h.healthy
    exact ⟨v, List.mem_append_right _ hmem, htruthy⟩
  · obtain ⟨intent, hmem⟩ := h.reviewed
    exact ⟨intent, List.mem_append_right _ hmem⟩
  · exact h.verdict
  · have hreported := h.reported
    unfold RiskReported at hreported ⊢
    cases hrisk : service.risk with
    | anything =>
        rw [hrisk] at hreported
        obtain ⟨intent, asked, hmem⟩ := hreported
        exact ⟨intent, asked, List.mem_append_right _ hmem⟩
    | engine riskEngine =>
        rw [hrisk] at hreported
        obtain ⟨today, facts, nowMs, evaluatedAt, hstats, hresult⟩ := hreported
        refine ⟨today, facts, nowMs, evaluatedAt, fun haction => ?_, hresult⟩
        obtain ⟨stats, hmem, hfacts⟩ := hstats haction
        exact ⟨stats, List.mem_append_right _ hmem, hfacts⟩
  · exact h.riskResult
  · exact h.passed
  · obtain ⟨raw, now, hmem, htransform⟩ := h.policy
    exact ⟨raw, now, List.mem_append_right _ hmem, htransform⟩

/-- A call that says anything but no has an assessment behind it. -/
theorem assessed_of_concluded {s : Appraisal} {e : Evaluation host} {decision : GuardrailDecision}
    (h : s.Concluded e decision) (houtcome : decision.outcome ≠ .deny) :
    ∃ a, s.Assessed e a ∧ Carries decision a ∧ decision.correlationId = e.correlationId ∧
      (decision.outcome = .needsHuman → e.options.dryRun = false →
        ∃ request, s.created = some request ∧ decision.approvalId = some request.approvalId) := by
  rcases h with ⟨reasons, verdict, riskResult, rfl⟩ | ⟨a, approvalId, hassessed, rfl, hid⟩
  · exact absurd rfl houtcome
  · refine ⟨a, hassessed, ⟨rfl, rfl, rfl, rfl, rfl, rfl⟩, rfl, fun hneeds hdry => ?_⟩
    have hneeds : DecisionSchema.outcomeOf a.policyOutput = .needsHuman := hneeds
    rw [if_pos ⟨hneeds, hdry⟩] at hid
    obtain ⟨request, hcreated, rfl⟩ := hid
    exact ⟨request, hcreated, rfl⟩

/-- What is known of a call that came to a decision by its own stages. -/
structure Source (dep : Deployment) (cfg : Config (signature host)) (c p : Nat) (s : Appraisal)
    (e : Evaluation host) (a : Assessment) (decision : GuardrailDecision) : Prop where
  state : Appraising dep cfg c p s
  evaluation : s.evaluation host = some e
  founded : Founded (dep.service p) cfg.log c e a
  admitted : (dep.service p).intentRefusal e.intent = none
  clean : detectUnsafeContent e.intent = none
  carries : Carries decision a
  correlationId : decision.correlationId = e.correlationId
  human : decision.outcome = .needsHuman → e.options.dryRun = false →
    ∃ request, s.created = some request ∧ decision.approvalId = some request.approvalId

theorem source_of_concluded (h : (dep.system host).Reachable cfg) {c p : Nat} {s : Appraisal}
    {e : Evaluation host} {decision : GuardrailDecision} (hs : Appraising dep cfg c p s)
    (heval : s.evaluation host = some e) (hconcluded : s.Concluded e decision)
    (houtcome : decision.outcome ≠ .deny) : ∃ a, Source dep cfg c p s e a decision := by
  have hkept := (Discipline.sound_reachable (dep.followed host) h).kept
  obtain ⟨a, hassessed, hcarries, hcorrelation, hhuman⟩ :=
    assessed_of_concluded hconcluded houtcome
  obtain ⟨entry, -, hknown⟩ := Appraisal.known_reachable h hs
  have hfounded := founded_of_assessed (heard_of_state hkept hs) hassessed
  have hadmitted := hassessed.admitted
  rw [hknown.service] at hfounded hadmitted
  exact ⟨a, hs, heval, hfounded, hadmitted, hassessed.clean, hcarries, hcorrelation, hhuman⟩

/-- A call that has stored a decision has come to it by its own stages. -/
theorem source_of_stored (h : (dep.system host).Reachable cfg) {c p : Nat} {s : Appraisal}
    {decision : GuardrailDecision} (hs : Appraising dep cfg c p s)
    (hstage : s.stage = .concluded decision) (houtcome : decision.outcome ≠ .deny) :
    ∃ e a, Source dep cfg c p s e a decision := by
  obtain ⟨newer, older, scope, payloadHash, q, s₀, e, hlog, hs₀, heval, hconcluded⟩ :=
    concluded_decides h hs hstage
  obtain ⟨before, after, q', entry, progress, hpast⟩ := Deployment.past_reachable h hlog
  cases hs₀.symm.trans hpast.state
  rw [← hpast.log] at hs₀
  obtain ⟨a, hsource⟩ := source_of_concluded hpast.reachable hs₀ heval hconcluded houtcome
  have hholding : s₀.stage = .holding := hpast.allowed.1
  -- The call keeps its evaluation and its request until the end.
  obtain ⟨s', hs', -, heval', hcreated⟩ := Agreement.appraising_endures h
    (P := fun s => (∃ d, s.stage = .concluded d) ∧ s.evaluation host = some e ∧
      s.created = s₀.created) (F := fun _ => True)
    (fun s op a hP hallowed _ => by
      obtain ⟨⟨d, hd⟩, heval, hcreated⟩ := hP
      refine ⟨⟨d, ?_⟩, Agreement.evaluation_stays heval (by simp [hd]) hallowed, ?_⟩
      · exact (Appraisal.stageAfter_of_lasts (by rw [hd]; rfl) hallowed a).trans hd
      · cases op with
        | approvalCreate params => exact absurd (hd.symm.trans hallowed.1) (by simp)
        | approvalDelete id => exact absurd (hd.symm.trans hallowed.1) (by simp)
        | _ => exact hcreated)
    hlog (Discipline.state_did_self hpast.state)
    ⟨⟨decision, rfl⟩, Agreement.evaluation_stays heval (by simp [hholding]) hpast.allowed, rfl⟩
    fun _ _ => True.intro
  cases hs.symm.trans hs'
  have hfounded := founded_later hsource.founded
    (newer ++ [.did c (.set scope payloadHash decision) ()])
  rw [hpast.log, List.append_assoc, List.singleton_append, ← hlog] at hfounded
  refine ⟨e, a, hs, heval', hfounded, hsource.admitted, hsource.clean, hsource.carries,
    hsource.correlationId, fun hneeds hdry => ?_⟩
  rw [hcreated]
  exact hsource.human hneeds hdry

theorem evidence_of_equiv {i j : TradingIntent host} (h : Json.Equiv i.value j.value) :
    j.evidence = i.evidence := by
  unfold TradingIntent.evidence
  cases hi : i.value.field? "evidence" with
  | none => rw [Check.field_none h hi]
  | some x =>
      obtain ⟨y, hj, hxy⟩ := Json.equiv_field h j.keys_nodup hi
      rw [hj]
      cases x with
      | null | bool | num | str =>
          simp only [Json.Equiv] at hxy
          rw [hxy]
      | obj fs =>
          obtain ⟨gs, rfl, -⟩ := hxy
          rfl
      | arr xs =>
          obtain ⟨ys, rfl, hxs⟩ := hxy
          rw [Json.equivList_iff] at hxs
          clear hi hj
          dsimp only
          induction hxs with
          | nil => rfl
          | @cons x y xs ys hxy _ ih =>
              refine congrArg₂ List.cons ?_ ih
              cases x with
              | null | bool | num | str =>
                  simp only [Json.Equiv] at hxy
                  rw [hxy]
              | arr xs =>
                  obtain ⟨ys, rfl, -⟩ := hxy
                  rfl
              | obj fs =>
                  obtain ⟨gs, rfl, -⟩ := hxy
                  rfl

theorem clean_of_equiv {i j : TradingIntent host} (h : Json.Equiv i.value j.value) :
    detectUnsafeContent j = detectUnsafeContent i := by
  have hrationale : j.rationale = i.rationale := textField_equiv h j.keys_nodup "rationale"
  have hcontent : contentOf j = contentOf i := by
    unfold contentOf
    rw [hrationale, evidence_of_equiv h]
  unfold detectUnsafeContent
  rw [hcontent]

/-- An intent that is not refused names its resource and its environment right. -/
theorem acceptable_of_refusal {service : GuardrailService} {rawIntent : Option Json}
    {intent : TradingIntent host} (hparse : TradingIntent.safeParse host rawIntent = some intent)
    (hrefusal : service.intentRefusal intent = none) (hclean : detectUnsafeContent intent = none) :
    Acceptable service rawIntent intent := by
  unfold GuardrailService.intentRefusal at hrefusal
  split_ifs at hrefusal with hresource henvironment
  rw [Bool.not_eq_true, Bool.not_eq_false'] at hresource
  exact ⟨hparse, resource_canonical hresource, not_not.mp henvironment, hclean⟩

/-- Every call that has asked for its scope was admitted. -/
theorem admitted_reachable (h : (dep.system host).Reachable cfg) {c p : Nat} {s : Appraisal}
    (hs : Appraising dep cfg c p s) (hstage : s.stage ≠ .before) :
    ∃ e : Evaluation host, s.evaluation host = some e ∧
      s.service.intentRefusal e.intent = none := by
  have hkept := (Discipline.sound_reachable (dep.followed host) h).kept
  let P : Nat → Entry host → CallState host → Prop := fun _ _ st => ∀ s,
    st.progress = .appraising s → s.stage ≠ .before → ∃ e : Evaluation host,
      s.evaluation host = some e ∧ s.service.intentRefusal e.intent = none
  have hstart : ∀ q entry, P q entry ((dep.discipline host).start q entry) := by
    intro q entry s hstart hstage
    cases entry with
    | evaluate rawIntent options =>
        cases hstart
        exact absurd rfl hstage
    | execute | dryRun | callback => cases hstart
  have hnext : ∀ q entry st op a, P q entry st → (dep.discipline host).allowed st op →
      P q entry ((dep.discipline host).next st op a) := by
    rintro q entry ⟨proc, progress⟩ op a hP hallowed s hnext hstage
    cases progress with
    | executing | rehearsing | checking => cases hnext
    | appraising s₀ =>
        cases hnext
        have hallowed : s₀.allowed op := hallowed
        by_cases hbefore : s₀.stage = .before
        · -- Only a lookup leaves the first stage.
          cases op with
          | lookup scope payloadHash =>
              obtain ⟨-, -, e, heval, -, -, hrefusal⟩ := hallowed
              have hsame := Appraisal.evaluation_next heval (.lookup scope payloadHash) (by simp) a
              exact ⟨e, hsame, hrefusal⟩
          | reserve => exact absurd (hbefore.symm.trans hallowed.1) (by simp)
          | set => exact absurd (hbefore.symm.trans hallowed.1) (by simp)
          | pendingDecision => exact absurd (hbefore.symm.trans hallowed) (by simp)
          | abortDecision =>
              rcases hallowed.1 with h | h <;> exact absurd (hbefore.symm.trans h) (by simp)
          | _ => exact absurd hbefore hstage
        · obtain ⟨e, heval, hrefusal⟩ := hP s₀ rfl hbefore
          exact ⟨e, Agreement.evaluation_stays heval hbefore hallowed, hrefusal⟩
  obtain ⟨q, entry, -, hP⟩ := hkept.state_invariant hstart hnext hs
  exact hP s rfl hstage

/-- A call returns while its process works on it. -/
theorem returned_turn (h : (dep.system host).Reachable cfg) {newer older : History host} {c : Nat}
    {r : Ret} (hlog : cfg.log = newer ++ .returned c r :: older) {st : CallState host}
    (hs : (dep.discipline host).state c cfg.log = some st) :
    ∃ before call, (dep.system host).Reachable before ∧ before.log = older ∧
      (dep.discipline host).state c before.log = some st ∧ before.calls c = some call ∧
      call.proc = st.proc ∧ before.current st.proc = some c := by
  obtain ⟨-, hlast⟩ := Discipline.returned_last (dep.followed host) h hlog
  obtain ⟨before, step, steps, hbefore, hold, hstep, -⟩ := h.past hlog
  have hst : (dep.discipline host).state c before.log = some st := by
    rw [hold, ← hs, hlog, Discipline.state_of_others hlast]
    rfl
  have hmove := Discipline.step_move (dep.followed host) hbefore step (by rw [hstep, hold])
  generalize (dep.system host).step before step = after at hmove hstep
  cases hmove with
  | @finish c' call st' r' live state final turn =>
      cases hstep
      have hproc := Scopes.proc_reachable hbefore live hst
      exact ⟨before, call, hbefore, hold, hst, live, hproc.symm, hproc ▸ turn⟩
  | start | act | crash | outside => cases hstep

/-- A decision that a call gives on is that of another call, which had returned it. -/
theorem replayed_returned (h : (dep.system host).Reachable cfg) {c p : Nat} {r : Ret}
    (hreturned : .returned c r ∈ cfg.log) {s : Appraisal} (hs : Appraising dep cfg c p s)
    {stored : GuardrailDecision} (hstage : s.stage = .replaying stored) {e : Evaluation host}
    (heval : s.evaluation host = some e) :
    ∃ c' s', ∃ e' : Evaluation host, c' ≠ c ∧ Appraising dep cfg c' p s' ∧
      s'.stage = .concluded stored ∧ s'.evaluation host = some e' ∧ e'.scope = e.scope ∧
      e'.payloadHash = e.payloadHash ∧ .returned c' (.decided (.ok stored)) ∈ cfg.log := by
  obtain ⟨newer, older, hlog⟩ := List.append_of_mem hreturned
  obtain ⟨before, call, hbefore, hold, hs₀, hlive, hproc, hcurrent⟩ := returned_turn h hlog hs
  have hcomplete := ((Scopes.reachable hbefore).placed c p s e hs₀ heval).complete stored
    (.inl hstage)
  obtain ⟨c', s', e', hs', hstage', heval', hscope, hpayload⟩ :=
    owned_reachable hbefore p _ _ _ hcomplete
  have hne : c' ≠ c := by
    rintro rfl
    cases hs₀.symm.trans hs'
    exact absurd (hstage.symm.trans hstage') (by simp)
  have hreturned' : .returned c' (.decided (.ok stored)) ∈ before.log := by
    rcases finishing_reachable hbefore c' p s' stored hs' hstage' with hturn | hdone | hcrashed
    · exact absurd (Option.some.inj (hturn.symm.trans hcurrent)) hne
    · exact hdone
    · have hlives := Agreement.crashed_gone hbefore hlive
      rw [hproc, hcrashed] at hlives
      cases hlives
  have hlater : ∀ event ∈ before.log, event ∈ cfg.log := by
    intro event hevent
    rw [hlog, ← hold]
    exact List.mem_append_right _ (List.mem_cons_of_mem _ hevent)
  refine ⟨c', s', e', hne, ?_, hstage', heval', hscope, hpayload, hlater _ hreturned'⟩
  -- The other call does nothing more once it has returned.
  obtain ⟨newer', older', hlog'⟩ := List.append_of_mem hreturned'
  have hlog'' : cfg.log = (newer ++ .returned c r :: newer') ++
      .returned c' (.decided (.ok stored)) :: older' := by
    rw [hlog, ← hold, hlog', List.append_assoc, List.cons_append]
  obtain ⟨-, hlast⟩ := Discipline.returned_last (dep.followed host) hbefore hlog'
  obtain ⟨-, hlast'⟩ := Discipline.returned_last (dep.followed host) h hlog''
  rw [Appraising, hlog', Discipline.state_of_others hlast] at hs'
  rw [Appraising, hlog'', Discipline.state_of_others hlast']
  exact hs'

/-- What a call decides by itself is sound. -/
theorem sound_of_source (h : (dep.system host).Reachable cfg) {c p : Nat} {s : Appraisal}
    {e : Evaluation host} {a : Assessment} {decision : GuardrailDecision}
    (hsource : Source dep cfg c p s e a decision) :
    DecisionSound dep cfg c p s.rawIntent s.options decision e.intent c e a := by
  obtain ⟨entry, hentry, hknown⟩ := Appraisal.known_reachable h hsource.state
  obtain ⟨-, -, -, -, hparse, hoptions, -⟩ := Appraisal.evaluation_some hsource.evaluation
  constructor
  · rw [hentry, hknown.entry]
  · exact acceptable_of_refusal hparse hsource.admitted hsource.clean
  · exact .inl ⟨rfl, rfl⟩
  · exact hsource.founded
  · exact hsource.carries
  · intro hdry hneeds
    obtain ⟨request, hcreated, hid⟩ := hsource.human hneeds (by rw [hoptions, hdry])
    exact ⟨request, requested_of_created h hsource.state hsource.evaluation hcreated hid
      hsource.correlationId (Json.equiv_refl _)⟩

/-- So is what it gives on. -/
theorem sound_of_replay (h : (dep.system host).Reachable cfg) {c p : Nat} {r : Ret}
    (hreturned : .returned c r ∈ cfg.log) {s : Appraisal} (hs : Appraising dep cfg c p s)
    {stored : GuardrailDecision} (hstage : s.stage = .replaying stored) {e : Evaluation host}
    (heval : s.evaluation host = some e) (houtcome : stored.outcome ≠ .deny) :
    ∃ c' e' a, DecisionSound dep cfg c p s.rawIntent s.options
      (s.service.signed e.intent stored
        (if stored.outcome = .needsHuman then stored.correlationId else e.correlationId) false)
      e.intent c' e' a := by
  obtain ⟨entry, hentry, hknown⟩ := Appraisal.known_reachable h hs
  have hnot : s.stage ≠ .before := by simp [hstage]
  obtain ⟨hdry, -⟩ := hknown.serves hnot
  obtain ⟨-, -, -, -, hparse, -, -, -, hscope, hpayload⟩ := Appraisal.evaluation_some heval
  obtain ⟨c', s', e', hne, hs', hstage', heval', hscope', hpayload', hreturned'⟩ :=
    replayed_returned h hreturned hs hstage heval
  obtain ⟨e'', a, hsource⟩ := source_of_stored h hs' hstage' houtcome
  cases heval'.symm.trans hsource.evaluation
  obtain ⟨entry', hentry', hknown'⟩ := Appraisal.known_reachable h hs'
  obtain ⟨hdry', -⟩ := hknown'.serves (by simp [hstage'])
  obtain ⟨-, -, -, -, hparse', hoptions, -, -, hscope'', hpayload''⟩ :=
    Appraisal.evaluation_some heval'
  have hbytes : stableJson host (s'.rawIntent.getD .null) =
      stableJson host (s.rawIntent.getD .null) := by rw [← hpayload'', hpayload', hpayload]
  have hequiv : Json.Equiv e'.intent.value e.intent.value := by
    have hvalues := equiv_of_stableJson host hbytes
    rw [TradingIntent.safeParse_value hparse', TradingIntent.safeParse_value hparse] at hvalues
    exact hvalues
  obtain ⟨e₀, heval₀, hadmitted⟩ := admitted_reachable h hs hnot
  cases heval.symm.trans heval₀
  rw [hknown.service] at hadmitted ⊢
  have hclean := (clean_of_equiv hequiv).trans hsource.clean
  have hcarried := hsource.carries
  refine ⟨c', e', a, ?_, acceptable_of_refusal hparse hadmitted hclean, .inr ⟨hdry, hne, ?_, ?_,
    stored, hreturned', hcarried⟩, hsource.founded, ⟨hcarried.outcome, hcarried.reasons,
    hcarried.human, hcarried.reviewerVerdict, hcarried.riskResult, hcarried.policyOutput⟩, ?_⟩
  · rw [hentry, hknown.entry]
  · exact ⟨_, _, hentry'.trans (by rw [hknown'.entry]), hdry', hparse', hbytes⟩
  · rw [← hscope'', hscope', hscope]
  · intro _ hneeds
    have hneeds : stored.outcome = .needsHuman := hneeds
    obtain ⟨request, hcreated, hid⟩ := hsource.human hneeds (by rw [hoptions, hdry'])
    refine ⟨request, requested_of_created h hs' heval' hcreated hid ?_ hequiv⟩
    rw [if_pos hneeds]
    exact hsource.correlationId

/-- Every decision but a denial is sound. -/
theorem sound_of_returned (h : (dep.system host).Reachable cfg) {c : Nat}
    {decision : GuardrailDecision} (hreturned : .returned c (.decided (.ok decision)) ∈ cfg.log)
    (houtcome : decision.outcome ≠ .deny) :
    ∃ p rawIntent options intent c' e a,
      DecisionSound dep cfg c p rawIntent options decision intent c' e a := by
  obtain ⟨p, s, hs, hfinal⟩ := returned_stands h hreturned
  cases hstage : s.stage with
  | before =>
      simp only [Appraisal.final, hstage] at hfinal
      rcases hfinal with ⟨hdeny, -⟩ | ⟨-, e, heval, hconcluded⟩
      · exact absurd hdeny houtcome
      · obtain ⟨a, hsource⟩ := source_of_concluded h hs heval hconcluded houtcome
        exact ⟨_, _, _, _, _, _, _, sound_of_source h hsource⟩
  | conflicted =>
      simp only [Appraisal.final, hstage] at hfinal
      obtain ⟨e, -, rfl⟩ := hfinal
      exact absurd rfl houtcome
  | replaying stored =>
      simp only [Appraisal.final, hstage] at hfinal
      obtain ⟨e, heval, rfl⟩ := hfinal
      obtain ⟨c', e', a, hsound⟩ :=
        sound_of_replay h hreturned hs hstage heval houtcome
      exact ⟨_, _, _, _, _, _, _, hsound⟩
  | concluded stored =>
      simp only [Appraisal.final, hstage] at hfinal
      subst hfinal
      obtain ⟨e, a, hsource⟩ := source_of_stored h hs hstage houtcome
      exact ⟨_, _, _, _, _, _, _, sound_of_source h hsource⟩
  | missed | awaiting | rejected | holding | abandoned =>
      simp only [Appraisal.final, hstage] at hfinal

end Soundness

theorem decision_sound (h : (dep.system host).Reachable cfg) {c : Nat}
    {decision : GuardrailDecision} (hreturned : .returned c (.decided (.ok decision)) ∈ cfg.log)
    (houtcome : decision.outcome ≠ .deny) :
    ∃ p rawIntent options intent c' e a,
      DecisionSound dep cfg c p rawIntent options decision intent c' e a :=
  Soundness.sound_of_returned h hreturned houtcome

def repeatedSteps : List (Step (signature exampleHost)) :=
  .start 0 simulationEntry :: (escalates 0 "a" ++ acts 0 3 ++
    [.finish 0, .start 0 simulationEntry] ++ acts 1 4 ++ [.finish 1])

def asksHuman (c : Nat) : Event (signature host) → Bool
  | .returned c' (.decided (.ok decision)) => c' == c && decision.outcome == .needsHuman
  | _ => false

theorem decision_sound_repeated :
    ∃ decision, .returned 1 (.decided (.ok decision)) ∈ (paperRun repeatedSteps).log ∧
      decision.outcome = .needsHuman ∧ ∃ p rawIntent options intent c' e a,
        DecisionSound paperDeployment (paperRun repeatedSteps) 1 p rawIntent options decision
          intent c' e a := by
  have hrun : (paperRun repeatedSteps).log.any (asksHuman 1) = true := by decide +kernel
  obtain ⟨event, hevent, hasks⟩ := List.any_eq_true.mp hrun
  unfold asksHuman at hasks
  split at hasks
  · next c decision =>
      rw [Bool.and_eq_true, beq_iff_eq, beq_iff_eq] at hasks
      obtain ⟨rfl, houtcome⟩ := hasks
      exact ⟨decision, hevent, houtcome,
        decision_sound (paperRun_reachable _) hevent (by simp [houtcome])⟩
  · cases hasks

end TradingGuardrails
