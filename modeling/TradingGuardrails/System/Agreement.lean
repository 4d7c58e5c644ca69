import TradingGuardrails.System.Failure

/-!
Evaluations of one idempotency scope. At most one call of a process works on a scope at a
time; the calls that find its decision give it on, signed for their own correlation id;
those that find another payload are told of the conflict; and of the approval requests
for a scope at most one is left.
-/
namespace TradingGuardrails

open Text Interleaving

variable {host : Host} {dep : Deployment} {cfg : Config (signature host)}

/-- The operations by which an evaluation consults the policy engine, the reviewer and the
risk engine. -/
def works : Op host → Bool
  | .isHealthy | .review _ | .evaluateRisk _ _ | .evaluatePolicy _ | .getDailyStats _ _
  | .getMarketData _ | .getPortfolio _ | .getLastOrderTimestampMs _ => true
  | _ => false

/-- The call has reserved the scope, and has neither stored a decision nor given the scope
up since then. -/
def HoldsScope (log : History host) (c : Nat) (scope : String) : Prop :=
  ∃ newer older payloadHash, log = newer ++ .did c (.reserve scope payloadHash) () :: older ∧
    ∀ event ∈ newer, ends c event = false

/-- An entry of the scope is there: the call has reserved it, and has not given it up since. -/
def Present (log : History host) (c : Nat) (scope payloadHash : String) : Prop :=
  ∃ newer older, log = newer ++ .did c (.reserve scope payloadHash) () :: older ∧
    ∀ scope' payloadHash' error answer,
      .did c (.abortDecision scope' payloadHash' error) answer ∉ newer

def isConflict : Lookup GuardrailDecision → Bool
  | .conflict => true
  | _ => false

/-- A call of a process that evaluates an intent, and not as a dry run. -/
def EvaluationOf (log : History host) (c p : Nat) (intent : TradingIntent host) : Prop :=
  ∃ options, entryOf c log = some (p, .evaluate (some intent.value) options) ∧
    options.dryRun = false

/-- Two intents are one payload: their texts are the same, and so are their values. -/
structure SamePayload (intent other : TradingIntent host) : Prop where
  text : stableJson host intent.value = stableJson host other.value
  value : Json.Equiv intent.value other.value

theorem samePayload_iff {intent other : TradingIntent host} :
    SamePayload intent other ↔ stableJson host intent.value = stableJson host other.value :=
  ⟨SamePayload.text, fun h => ⟨h, equiv_of_stableJson host h⟩⟩

theorem SameScopedKey.scope {intent other : TradingIntent host} (h : SameScopedKey intent other) :
    idempotencyScope intent = idempotencyScope other := by
  simp only [idempotencyScope, h.idempotencyKey, h.principal, h.action, h.resource]

/-- The decision carries the token of an intent under its own correlation id. -/
def ValidToken (service : GuardrailService) (intent : TradingIntent host)
    (decision : GuardrailDecision) : Prop :=
  decision.decisionToken = service.createDecisionToken intent decision decision.correlationId false

def Survives (log : History host) (c : Nat) (request : ApprovalRequest) : Prop :=
  (∃ params, .did c (.approvalCreate params) (.ok request) ∈ log) ∧
    .did c (.approvalDelete request.approvalId) (.ok ()) ∉ log

namespace Agreement

variable {c p : Nat} {s : Appraisal}

theorem works_holding {op : Op host} (hworks : works op = true) (hallowed : s.allowed op)
    (hdry : s.options.dryRun = false) : s.stage = .holding := by
  have hworking : s.Working → s.stage = .holding := by
    rintro (hstage | ⟨-, hdry'⟩)
    · exact hstage
    · rw [hdry] at hdry'
      cases hdry'
  cases op with
  | isHealthy | review | evaluateRisk | evaluatePolicy | getMarketData | getPortfolio
  | getLastOrderTimestampMs => exact hworking hallowed
  | getDailyStats => exact hworking hallowed.1
  | _ => cases hworks

theorem reserves {progress : Progress host} {scope payloadHash : String}
    (h : progress.allowed (.reserve scope payloadHash)) :
    ∃ s, ∃ e : Evaluation host, progress = .appraising s ∧ s.stage = .missed ∧
      s.evaluation host = some e ∧ e.scope = scope ∧ e.payloadHash = payloadHash := by
  cases progress with
  | appraising s =>
      obtain ⟨hstage, -, e, heval, hscope, hhash⟩ := h
      exact ⟨s, e, rfl, hstage, heval, hscope, hhash⟩
  | executing | rehearsing | checking => exact False.elim h

theorem looksUp {progress : Progress host} {scope payloadHash : String}
    (h : progress.allowed (.lookup scope payloadHash)) :
    ∃ s, ∃ e : Evaluation host, progress = .appraising s ∧ s.stage = .before ∧
      s.options.dryRun = false ∧ s.evaluation host = some e ∧ e.scope = scope ∧
      e.payloadHash = payloadHash := by
  cases progress with
  | appraising s =>
      obtain ⟨hstage, hdry, e, heval, hscope, hhash, -⟩ := h
      exact ⟨s, e, rfl, hstage, hdry, heval, hscope, hhash⟩
  | executing | rehearsing | checking => exact False.elim h

/-- What the operations of a call keep holds on, if nothing that breaks it happens. -/
theorem appraising_endures (h : (dep.system host).Reachable cfg) {P : Appraisal → Prop}
    {F : Event (signature host) → Prop}
    (step : ∀ (s : Appraisal) (op : Op host) (a : Ans host op), P s → s.allowed op →
      F (.did c op a) → P (s.next op a)) {newer older : History host}
    (hlog : cfg.log = newer ++ older)
    (hs : (dep.discipline host).state c older = some ⟨p, .appraising s⟩) (hP : P s)
    (hfine : ∀ event ∈ newer, F event) : ∃ s', Appraising dep cfg c p s' ∧ P s' := by
  have hkept := (Discipline.sound_reachable (dep.followed host) h).kept
  have hnumbered := (Discipline.accounted_reachable (dep.followed host) h).numbered
  rw [hlog] at hkept hnumbered
  let Q : CallState host → Prop := fun st => ∃ s', st = ⟨p, .appraising s'⟩ ∧ P s'
  have hnext : ∀ st op a, Q st → (dep.discipline host).allowed st op → F (.did c op a) →
      Q ((dep.discipline host).next st op a) := by
    rintro st op a ⟨s', rfl, hP⟩ hallowed hop
    exact ⟨s'.next op a, rfl, step s' op a hP hallowed hop⟩
  obtain ⟨st, hst, s', rfl, hP'⟩ :=
    hkept.endures (P := Q) hnext hnumbered hs ⟨s, rfl, hP⟩ hfine
  exact ⟨s', by rw [Appraising, hlog, hst], hP'⟩

/-- A call that has asked for its scope keeps its evaluation. -/
theorem evaluation_stays {e : Evaluation host} {op : Op host} {a : Ans host op}
    (heval : s.evaluation host = some e) (hs : s.stage ≠ .before) (hallowed : s.allowed op) :
    (s.next op a).evaluation host = some e := by
  refine Appraisal.evaluation_next heval op ?_ a
  rintro rfl
  exact hs hallowed

theorem holding_next {op : Op host} {a : Ans host op} (hs : s.stage = .holding)
    (hallowed : s.allowed op) (hop : ends c (.did c op a : Event (signature host)) = false) :
    (s.next op a).stage = .holding := by
  by_cases hstages : Appraisal.stages op = false
  · rw [Appraisal.next_stage, Appraisal.stageAfter_of_not_stages hstages, hs]
  cases op with
  | set | abortDecision => exact absurd hop (by simp [ends])
  | reserve scope payloadHash => exact absurd (hs.symm.trans hallowed.1) (by simp)
  | lookup scope payloadHash => exact absurd (hs.symm.trans hallowed.1) (by simp)
  | pendingDecision promise => exact absurd (hs.symm.trans hallowed) (by simp)
  | _ => exact absurd rfl hstages

theorem holding_of_holds (h : (dep.system host).Reachable cfg) {scope : String}
    (hholds : HoldsScope cfg.log c scope) :
    ∃ p s, ∃ e : Evaluation host, Appraising dep cfg c p s ∧ s.stage = .holding ∧
      s.evaluation host = some e ∧ e.scope = scope := by
  obtain ⟨newer, older, payloadHash, hlog, hends⟩ := hholds
  obtain ⟨_, _, p, entry, progress, hpast⟩ := Deployment.past_reachable h hlog
  obtain ⟨s, e, rfl, hstage, heval, rfl, rfl⟩ := reserves hpast.allowed
  obtain ⟨s', hs', hholding, heval'⟩ := appraising_endures h
    (P := fun s => s.stage = .holding ∧ s.evaluation host = some e)
    (F := fun event => ends c event = false)
    (fun s op a hP hallowed hop => ⟨holding_next hP.1 hallowed hop,
      evaluation_stays hP.2 (by simp [hP.1]) hallowed⟩)
    hlog (Discipline.state_did_self hpast.state)
    ⟨rfl, evaluation_stays heval (by simp [hstage]) hpast.allowed⟩ hends
  exact ⟨p, s', e, hs', hholding, heval', rfl⟩

/-- What a call evaluates is the intent that it was started with, and its scope and its payload
are those of this intent. -/
theorem evaluates (h : (dep.system host).Reachable cfg) {before : Config (signature host)}
    (hbefore : (dep.system host).Reachable before) {newer : History host}
    (hlog : cfg.log = newer ++ before.log) (hs : Appraising dep before c p s) {e : Evaluation host}
    (heval : s.evaluation host = some e) {q : Nat} {intent : TradingIntent host}
    (hintent : EvaluationOf cfg.log c q intent) :
    q = p ∧ e.intent = intent ∧ e.scope = idempotencyScope intent ∧
      e.payloadHash = stableJson host intent.value := by
  obtain ⟨options, hentry, -⟩ := hintent
  obtain ⟨entry, hentry', hknown⟩ := Appraisal.known_reachable hbefore hs
  have hnumbered := (Discipline.accounted_reachable (dep.followed host) h).numbered
  rw [hlog] at hentry hnumbered
  have hsame := hentry.symm.trans (entryOf_append hnumbered hentry')
  rw [hknown.entry, Option.some.injEq, Prod.mk.injEq, Entry.evaluate.injEq] at hsame
  obtain ⟨hq, hraw, -⟩ := hsame
  obtain ⟨-, -, -, -, hparse, -, -, -, hscope, hpayload⟩ := Appraisal.evaluation_some heval
  rw [← hraw] at hparse hpayload
  rw [TradingIntent.safeParse_self, Option.some.injEq] at hparse
  obtain rfl := hparse
  exact ⟨hq, rfl, hscope, hpayload⟩

/-- The same of the history so far. -/
theorem evaluates_now (h : (dep.system host).Reachable cfg) (hs : Appraising dep cfg c p s)
    {e : Evaluation host} (heval : s.evaluation host = some e) {q : Nat}
    {intent : TradingIntent host} (hintent : EvaluationOf cfg.log c q intent) :
    q = p ∧ e.intent = intent ∧ e.scope = idempotencyScope intent ∧
      e.payloadHash = stableJson host intent.value :=
  evaluates h h (List.nil_append _).symm hs heval hintent

/-- A stored decision carries its token. -/
theorem concluded_token {decision : GuardrailDecision} {e : Evaluation host}
    (hconcluded : s.Concluded e decision) (hdry : e.options.dryRun = false) :
    ValidToken s.service e.intent decision := by
  rcases hconcluded with ⟨reasons, reviewerVerdict, riskResult, rfl⟩ | ⟨a, approvalId, -, rfl, -⟩
  · simp only [ValidToken, GuardrailService.signed, hdry]
    rfl
  · simp only [ValidToken, GuardrailService.signed, hdry]
    rfl

/-- What a call returned of its own is signed for the intent that it was started with. -/
theorem token_of_concluded (h : (dep.system host).Reachable cfg) {decision : GuardrailDecision}
    (hs : Appraising dep cfg c p s) (hconcluded : s.stage = .concluded decision) {q : Nat}
    {rawIntent : Option Json} {options : EvaluationOptions}
    (hentry : entryOf c cfg.log = some (q, .evaluate rawIntent options))
    {intent : TradingIntent host} (hparse : TradingIntent.safeParse host rawIntent = some intent) :
    ValidToken (dep.service q) intent decision := by
  obtain ⟨newer, older, scope, payloadHash, p₀, s₀, e, hlog, hs₀, heval, hown⟩ :=
    concluded_decides h hs hconcluded
  obtain ⟨before, _, p', entry', progress, hpast⟩ := Deployment.past_reachable h hlog
  cases hs₀.symm.trans hpast.state
  have hstate : Appraising dep before c p₀ s₀ := by
    rw [Appraising, hpast.log]
    exact hs₀
  obtain ⟨entry, hentry₀, hknown⟩ := Appraisal.known_reachable hpast.reachable hstate
  have hentry₁ : entryOf c cfg.log = some (p₀, entry) := by
    have hnumbered := (Discipline.accounted_reachable (dep.followed host) h).numbered
    have hlog' : cfg.log =
        (newer ++ [.did c (.set scope payloadHash decision) ()]) ++ before.log := by
      rw [hlog, hpast.log, List.append_assoc, List.singleton_append]
    rw [hlog'] at hnumbered ⊢
    exact entryOf_append hnumbered hentry₀
  obtain ⟨-, -, -, -, hparse', hoptions, -⟩ := Appraisal.evaluation_some heval
  have hentry₂ := hentry.symm.trans hentry₁
  rw [hknown.entry] at hentry₂
  cases hentry₂
  cases hparse.symm.trans hparse'
  have hallowed : s₀.stage = .holding := hpast.allowed.1
  obtain ⟨hdry, -⟩ := hknown.serves (by simp [hallowed])
  rw [← hknown.service]
  exact concluded_token hown (by rw [hoptions, hdry])

/-- A call that reserved its scope returns the decision that it stored. -/
theorem owner_concludes (h : (dep.system host).Reachable cfg) {scope payloadHash : String}
    (hreserve : .did c (.reserve scope payloadHash) () ∈ cfg.log) {decision : GuardrailDecision}
    (hreturned : .returned c (.decided (.ok decision)) ∈ cfg.log) :
    ∃ p s, ∃ e : Evaluation host, Appraising dep cfg c p s ∧ s.stage = .concluded decision ∧
      s.evaluation host = some e ∧ e.scope = scope ∧ e.payloadHash = payloadHash := by
  obtain ⟨newer, older, hlog⟩ := List.append_of_mem hreserve
  obtain ⟨_, _, p, entry, progress, hpast⟩ := Deployment.past_reachable h hlog
  obtain ⟨s, e, rfl, hstage, heval, rfl, rfl⟩ := reserves hpast.allowed
  obtain ⟨s', hs', hmissed, heval'⟩ := appraising_endures h
    (P := fun s => missed s.stage = true ∧ s.evaluation host = some e) (F := fun _ => True)
    (fun s op a hP hallowed _ => ⟨missed_next hP.1 hallowed,
      evaluation_stays hP.2 (missed_ne_before hP.1) hallowed⟩)
    hlog (Discipline.state_did_self hpast.state)
    ⟨rfl, evaluation_stays heval (by simp [hstage]) hpast.allowed⟩ fun _ _ => True.intro
  obtain ⟨q, s₁, hs₁, hfinal⟩ := returned_stands h hreturned
  cases hs'.symm.trans hs₁
  exact ⟨p, s', e, hs', missed_concludes hmissed hfinal, heval', rfl, rfl⟩

theorem stage_ne_conflicted {op : Op host} {a : Ans host op} (hbefore : s.stage ≠ .before)
    (hs : s.stage ≠ .conflicted) (hallowed : s.allowed op) :
    (s.next op a).stage ≠ .conflicted := by
  by_cases hstages : Appraisal.stages op = false
  · rw [Appraisal.next_stage, Appraisal.stageAfter_of_not_stages hstages]
    exact hs
  cases op with
  | lookup scope payloadHash => exact absurd hallowed.1 hbefore
  | pendingDecision promise => cases a <;> simp [Appraisal.stageAfter]
  | reserve | set | abortDecision => simp [Appraisal.stageAfter]
  | _ => exact absurd rfl hstages

theorem stage_of_lookup {scope payloadHash : String} {found : Lookup GuardrailDecision}
    (hfound : isConflict found = false) :
    (s.next (.lookup scope payloadHash : Op host) found).stage ≠ .before ∧
      (s.next (.lookup scope payloadHash : Op host) found).stage ≠ .conflicted := by
  cases found with
  | conflict => cases hfound
  | absent | complete | pending => simp [Appraisal.stageAfter]

/-- A call that finds no other payload under its scope returns its own decision, or gives the
stored one on. -/
theorem follower_returns (h : (dep.system host).Reachable cfg) {scope payloadHash : String}
    {found : Lookup GuardrailDecision}
    (hlookup : .did c (.lookup scope payloadHash) found ∈ cfg.log)
    (hfound : isConflict found = false)
    {decision : GuardrailDecision}
    (hreturned : .returned c (.decided (.ok decision)) ∈ cfg.log) :
    ∃ p s, ∃ e : Evaluation host, Appraising dep cfg c p s ∧ s.evaluation host = some e ∧
      e.scope = scope ∧ e.payloadHash = payloadHash ∧
      (s.stage = .concluded decision ∨ ∃ stored correlationId, s.stage = .replaying stored ∧
        decision = s.service.signed e.intent stored correlationId false) := by
  obtain ⟨newer, older, hlog⟩ := List.append_of_mem hlookup
  obtain ⟨_, _, p, entry, progress, hpast⟩ := Deployment.past_reachable h hlog
  obtain ⟨s, e, rfl, hstage, -, heval, rfl, rfl⟩ := looksUp hpast.allowed
  obtain ⟨s', hs', heval', hbefore, hconflict⟩ := appraising_endures h
    (P := fun s => s.evaluation host = some e ∧ s.stage ≠ .before ∧ s.stage ≠ .conflicted)
    (F := fun _ => True)
    (fun s op a hP hallowed _ => ⟨evaluation_stays hP.1 hP.2.1 hallowed,
      Appraisal.next_ne_before hP.2.1, stage_ne_conflicted hP.2.1 hP.2.2 hallowed⟩)
    hlog (Discipline.state_did_self hpast.state)
    ⟨Appraisal.evaluation_next heval _ (by simp) _, stage_of_lookup hfound⟩ fun _ _ => True.intro
  obtain ⟨q, s₁, hs₁, hfinal⟩ := returned_stands h hreturned
  cases hs'.symm.trans hs₁
  refine ⟨p, s', e, hs', heval', rfl, rfl, ?_⟩
  cases hs : s'.stage with
  | before => exact absurd hs hbefore
  | conflicted => exact absurd hs hconflict
  | concluded stored =>
      simp only [Appraisal.final, hs] at hfinal
      exact .inl (by rw [hfinal])
  | replaying stored =>
      simp only [Appraisal.final, hs] at hfinal
      obtain ⟨e', heval₁, hdecision⟩ := hfinal
      cases heval'.symm.trans heval₁
      exact .inr ⟨stored, _, rfl, hdecision⟩
  | missed | awaiting | rejected | holding | abandoned =>
      simp only [Appraisal.final, hs] at hfinal

/-- Whoever finds no other payload under a scope gives the decision of its owner on. -/
theorem agrees (h : (dep.system host).Reachable cfg) {c' : Nat} {intent intent' : TradingIntent host}
    {scope payloadHash scope' payloadHash' : String} {found : Lookup GuardrailDecision}
    {decision decision' : GuardrailDecision} (hintent : EvaluationOf cfg.log c p intent)
    (hintent' : EvaluationOf cfg.log c' p intent') (hkey : SameScopedKey intent intent')
    (hreserve : .did c (.reserve scope payloadHash) () ∈ cfg.log)
    (hreturned : .returned c (.decided (.ok decision)) ∈ cfg.log)
    (hlookup : .did c' (.lookup scope' payloadHash') found ∈ cfg.log)
    (hfound : isConflict found = false)
    (hreturned' : .returned c' (.decided (.ok decision')) ∈ cfg.log) :
    SamePayload intent intent' ∧
      decision' = { decision with
        correlationId := decision'.correlationId
        decisionToken := decision'.decisionToken } ∧
      ValidToken (dep.service p) intent' decision' := by
  obtain ⟨q, s, e, hs, hconcluded, heval, -, -⟩ := owner_concludes h hreserve hreturned
  obtain ⟨q', s', e', hs', heval', -, -, hstage⟩ := follower_returns h hlookup hfound hreturned'
  obtain ⟨rfl, -, hscope, hpayload⟩ := evaluates_now h hs heval hintent
  obtain ⟨rfl, hsame, hscope', hpayload'⟩ := evaluates_now h hs' heval' hintent'
  have hscopes := Scopes.reachable h
  have hscoped : e.scope = e'.scope := hscope.trans (hkey.scope.trans hscope'.symm)
  rcases hstage with hconcluded' | ⟨stored, correlationId, hreplaying, hdecision⟩
  · obtain rfl := hscopes.alone c c' _ s s' e e' hs hs' heval heval' hscoped
      (.inr ⟨_, hconcluded⟩) (.inr ⟨_, hconcluded'⟩)
    cases hs.symm.trans hs'
    cases hconcluded.symm.trans hconcluded'
    cases heval.symm.trans heval'
    obtain ⟨options, hentry, -⟩ := hintent'
    exact ⟨samePayload_iff.mpr (hpayload.symm.trans hpayload'), rfl,
      token_of_concluded h hs hconcluded hentry (TradingIntent.safeParse_self intent')⟩
  · have hcomplete := (hscopes.placed c _ s e hs heval).complete decision (.inr hconcluded)
    have hcomplete' := (hscopes.placed c' _ s' e' hs' heval').complete stored (.inl hreplaying)
    rw [← hscoped, hcomplete, Option.some.injEq, DecisionEntry.complete.injEq] at hcomplete'
    obtain ⟨htext, rfl⟩ := hcomplete'
    refine ⟨samePayload_iff.mpr (hpayload.symm.trans (htext.trans hpayload')), ?_, ?_⟩
    · rw [hdecision]
      simp [GuardrailService.signed]
    · obtain ⟨entry, hentry, hknown⟩ := Appraisal.known_reachable h hs'
      rw [hdecision, ← hknown.service, ← hsame]
      rfl

theorem works_appraising {progress : Progress host} {op : Op host} (hworks : works op = true)
    (h : progress.allowed op) : ∃ s, progress = .appraising s := by
  cases progress with
  | appraising s => exact ⟨s, rfl⟩
  | executing s =>
      cases op with
      | isHealthy | review | evaluateRisk | evaluatePolicy | getDailyStats | getMarketData
      | getPortfolio | getLastOrderTimestampMs => exact False.elim h
      | _ => cases hworks
  | rehearsing | checking =>
      cases op with
      | isHealthy | review | evaluateRisk | evaluatePolicy | getDailyStats | getMarketData
      | getPortfolio | getLastOrderTimestampMs => exact False.elim h
      | _ => cases hworks

/-- A call that is no dry run holds its scope when it works. -/
theorem works_past (h : (dep.system host).Reachable cfg) {newer older : History host} {op : Op host}
    {a : Ans host op} (hlog : cfg.log = newer ++ .did c op a :: older) (hworks : works op = true)
    {rawIntent : Option Json} {options : EvaluationOptions}
    (hentry : entryOf c cfg.log = some (p, .evaluate rawIntent options))
    (hdry : options.dryRun = false) :
    ∃ before, ∃ s, ∃ e : Evaluation host, (dep.system host).Reachable before ∧ before.log = older ∧
      Appraising dep before c p s ∧ s.allowed op ∧ s.stage = .holding ∧
      s.evaluation host = some e := by
  obtain ⟨before, _, q, entry, progress, hpast⟩ := Deployment.past_reachable h hlog
  cases hentry.symm.trans hpast.entry
  obtain ⟨s, rfl⟩ := works_appraising hworks hpast.allowed
  have hs : Appraising dep before c p s := by
    rw [Appraising, hpast.log]
    exact hpast.state
  obtain ⟨entry, hentry', hknown⟩ := Appraisal.known_reachable hpast.reachable hs
  have hnumbered := (Discipline.accounted_reachable (dep.followed host) h).numbered
  have hlog' : cfg.log = (newer ++ [.did c op a]) ++ before.log := by
    rw [hlog, hpast.log, List.append_assoc, List.singleton_append]
  have hentry₁ : entryOf c cfg.log = some (p, entry) := by
    rw [hlog'] at hnumbered ⊢
    exact entryOf_append hnumbered hentry'
  have hentry₂ := hentry.symm.trans hentry₁
  rw [hknown.entry] at hentry₂
  cases hentry₂
  have hholding := works_holding hworks hpast.allowed hdry
  obtain ⟨-, e, heval⟩ := hknown.serves (by simp [hholding])
  exact ⟨before, s, e, hpast.reachable, hpast.log, hs, hpast.allowed, hholding, heval⟩

/-- A call that works holds its scope alone. -/
theorem works_alone (h : (dep.system host).Reachable cfg) {newer older : History host} {op : Op host}
    {a : Ans host op} (hlog : cfg.log = newer ++ .did c op a :: older) (hworks : works op = true)
    {intent : TradingIntent host} (hintent : EvaluationOf cfg.log c p intent) :
    (∃ scope, HoldsScope older c scope) ∧
      ∀ c' scope' (intent' : TradingIntent host), EvaluationOf cfg.log c' p intent' →
        SameScopedKey intent intent' → HoldsScope older c' scope' → c' = c := by
  obtain ⟨options, hentry, hdry⟩ := hintent
  obtain ⟨before, s, e, hreach, rfl, hs, -, hholding, heval⟩ :=
    works_past h hlog hworks hentry hdry
  have hlog' : cfg.log = (newer ++ [.did c op a]) ++ before.log := by
    rw [hlog, List.append_assoc, List.singleton_append]
  obtain ⟨-, -, hscope, -⟩ := evaluates h hreach hlog' hs heval ⟨options, hentry, hdry⟩
  constructor
  · obtain ⟨newer', older', hlog'', hends⟩ := holding_since hreach hs heval hholding
    exact ⟨e.scope, newer', older', _, hlog'', hends⟩
  · intro c' scope' intent' hintent' hkey hholds'
    obtain ⟨p', s', e', hs', hholding', heval', -⟩ := holding_of_holds hreach hholds'
    obtain ⟨rfl, -, hscope', -⟩ := evaluates h hreach hlog' hs' heval' hintent'
    exact (Scopes.reachable hreach).alone c' c _ s' s e' e hs' hs heval' heval
      (hscope'.trans (hkey.scope.symm.trans hscope.symm)) (.inl hholding') (.inl hholding)

theorem works_missed (h : (dep.system host).Reachable cfg) {op : Op host} {a : Ans host op}
    (hmem : .did c op a ∈ cfg.log) (hworks : works op = true) {rawIntent : Option Json}
    {options : EvaluationOptions}
    (hentry : entryOf c cfg.log = some (p, .evaluate rawIntent options))
    (hdry : options.dryRun = false) : ∃ s, Appraising dep cfg c p s ∧ missed s.stage = true := by
  obtain ⟨newer, older, hlog⟩ := List.append_of_mem hmem
  obtain ⟨before, s, e, hreach, rfl, hs, hallowed, hholding, heval⟩ :=
    works_past h hlog hworks hentry hdry
  exact appraising_endures h (P := fun s => missed s.stage = true) (F := fun _ => True)
    (fun s op a hs hallowed _ => missed_next hs hallowed) hlog (Discipline.state_did_self hs)
    (missed_next (by rw [hholding]; rfl) hallowed) fun _ _ => True.intro

theorem owns_stays {op : Op host} {a : Ans host op} (howns : s.Owns) (hallowed : s.allowed op)
    (hop : ∀ scope payloadHash error, op ≠ .abortDecision scope payloadHash error) :
    (s.next op a).Owns := by
  have hnot : ∀ {stage}, s.stage = stage → stage = .holding ∨ ∃ d, stage = .concluded d :=
    fun h => h ▸ howns
  by_cases hstages : Appraisal.stages op = false
  · rw [Appraisal.Owns, Appraisal.next_stage, Appraisal.stageAfter_of_not_stages hstages]
    exact howns
  cases op with
  | set scope payloadHash decision => exact .inr ⟨decision, rfl⟩
  | reserve scope payloadHash => exact .inl rfl
  | abortDecision scope payloadHash error => exact absurd rfl (hop scope payloadHash error)
  | lookup scope payloadHash => exact absurd (hnot hallowed.1) (by simp)
  | pendingDecision promise => exact absurd (hnot hallowed) (by simp)
  | _ => exact absurd rfl hstages

/-- The entry of a scope that is present is found by all calls of the process. -/
theorem entry_of_present (h : (dep.system host).Reachable cfg) {scope payloadHash : String}
    (hpresent : Present cfg.log c scope payloadHash) :
    ∃ p s, ∃ e : Evaluation host, ∃ entry, Appraising dep cfg c p s ∧
      s.evaluation host = some e ∧
      (cfg.world.processes p).decisions.entries e.scope = some entry ∧
      entry.payloadHash = e.payloadHash := by
  obtain ⟨newer, older, hlog, hkeeps⟩ := hpresent
  obtain ⟨_, _, q, entry, progress, hpast⟩ := Deployment.past_reachable h hlog
  obtain ⟨s, e, rfl, hstage, heval, rfl, rfl⟩ := reserves hpast.allowed
  obtain ⟨s', hs', howns, heval'⟩ := appraising_endures h
    (P := fun s => s.Owns ∧ s.evaluation host = some e)
    (F := fun event => ∀ scope' payloadHash' error answer,
      event ≠ .did c (.abortDecision scope' payloadHash' error) answer)
    (fun s op a hP hallowed hop => by
      refine ⟨owns_stays hP.1 hallowed ?_, evaluation_stays hP.2 ?_ hallowed⟩
      · rintro scope payloadHash error rfl
        exact hop scope payloadHash error a rfl
      · rcases hP.1 with hs | ⟨decision, hs⟩ <;> simp [hs])
    hlog (Discipline.state_did_self hpast.state)
    ⟨.inl rfl, evaluation_stays heval (by simp [hstage]) hpast.allowed⟩
    fun event hevent scope' payloadHash' error answer heq =>
      hkeeps scope' payloadHash' error answer (heq ▸ hevent)
  have hplaced := (Scopes.reachable h).placed c q s' e hs' heval'
  rcases howns with hs | ⟨decision, hs⟩
  · obtain ⟨promise, hpending⟩ := hplaced.holding hs
    exact ⟨q, s', e, _, hs', heval', hpending, rfl⟩
  · exact ⟨q, s', e, _, hs', heval', hplaced.complete decision (.inr hs), rfl⟩

/-- While an entry is there, the payloads decide about a conflict. -/
theorem conflicts (h : (dep.system host).Reachable cfg) {newer older : History host}
    {intent intent₀ : TradingIntent host} {scope payloadHash scope₀ payloadHash₀ : String}
    {found : Lookup GuardrailDecision} {c₀ : Nat}
    (hlog : cfg.log = newer ++ .did c (.lookup scope payloadHash) found :: older)
    (hintent : EvaluationOf cfg.log c p intent) (hintent₀ : EvaluationOf cfg.log c₀ p intent₀)
    (hkey : SameScopedKey intent₀ intent) (hpresent : Present older c₀ scope₀ payloadHash₀) :
    isConflict found = true ↔ ¬SamePayload intent₀ intent := by
  obtain ⟨before, _, q, entry, progress, hpast⟩ := Deployment.past_reachable h hlog
  obtain ⟨s, e, rfl, -, -, heval, rfl, rfl⟩ := looksUp hpast.allowed
  have hs : Appraising dep before c q s := by
    rw [Appraising, hpast.log]
    exact hpast.state
  have hlog' : cfg.log = (newer ++ [.did c (.lookup e.scope e.payloadHash) found]) ++
      before.log := by
    rw [hlog, hpast.log, List.append_assoc, List.singleton_append]
  obtain ⟨q₀, s₀, e₀, entry₀, hs₀, heval₀, hentry₀, hhash₀⟩ :=
    entry_of_present hpast.reachable (hpast.log ▸ hpresent)
  obtain ⟨rfl, -, hscope, hpayload⟩ := evaluates h hpast.reachable hlog' hs heval hintent
  obtain ⟨rfl, -, hscope₀, hpayload₀⟩ := evaluates h hpast.reachable hlog' hs₀ heval₀ hintent₀
  obtain ⟨i, hperformed⟩ := hpast.performed
  have hanswered : found = _ := Appraisal.perform_answered hperformed
  have hscoped : e₀.scope = e.scope := hscope₀.trans (hkey.scope.trans hscope.symm)
  rw [hscoped] at hentry₀
  rw [samePayload_iff, ← hpayload₀, ← hpayload, hanswered, DecisionStore.get, hentry₀]
  simp only [hhash₀]
  by_cases hsame : e₀.payloadHash = e.payloadHash
  · simp only [hsame, ne_eq, not_true_eq_false, if_false, iff_false, Bool.not_eq_true]
    cases entry₀ with
    | complete => rfl
    | pending => rfl
  · simp only [hsame, ne_eq, not_false_eq_true, if_true, iff_true]
    rfl

/-- Whoever is told of a conflict works on nothing, and says so. -/
theorem denied (h : (dep.system host).Reachable cfg) {scope payloadHash : String}
    {found : Lookup GuardrailDecision}
    (hlookup : .did c (.lookup scope payloadHash) found ∈ cfg.log)
    (hfound : isConflict found = true) :
    (∀ op a, works op = true → .did c op a ∉ cfg.log) ∧
      ∀ decision, .returned c (.decided (.ok decision)) ∈ cfg.log →
        decision.outcome = .deny ∧ decision.reasons =
          [reason "idempotency_conflict" "Idempotency key reused with different payload."] := by
  obtain ⟨newer, older, hlog⟩ := List.append_of_mem hlookup
  obtain ⟨_, _, p, entry, progress, hpast⟩ := Deployment.past_reachable h hlog
  obtain ⟨s, e, rfl, hstage, hdry, heval, rfl, rfl⟩ := looksUp hpast.allowed
  obtain rfl : found = .conflict := by
    cases found with
    | conflict => rfl
    | absent | complete | pending => cases hfound
  obtain ⟨s', hs', hconflicted, heval'⟩ := appraising_endures h
    (P := fun s => s.stage = .conflicted ∧ s.evaluation host = some e) (F := fun _ => True)
    (fun s op a hP hallowed _ =>
      ⟨(Appraisal.stageAfter_of_lasts (by rw [hP.1]; rfl) hallowed a).trans hP.1,
        evaluation_stays hP.2 (by simp [hP.1]) hallowed⟩)
    hlog (Discipline.state_did_self hpast.state)
    ⟨rfl, Appraisal.evaluation_next heval _ (by simp) _⟩ fun _ _ => True.intro
  refine ⟨fun op a hworks hmem => ?_, fun decision hreturned => ?_⟩
  · obtain ⟨entry', hentry', hknown⟩ := Appraisal.known_reachable h hs'
    have hoptions : s'.options.dryRun = false := (hknown.serves (by simp [hconflicted])).1
    rw [hknown.entry] at hentry'
    obtain ⟨s₁, hs₁, hmissed⟩ := works_missed h hmem hworks hentry' hoptions
    cases hs'.symm.trans hs₁
    rw [hconflicted] at hmissed
    cases hmissed
  · obtain ⟨q, s₁, hs₁, hfinal⟩ := returned_stands h hreturned
    cases hs'.symm.trans hs₁
    simp only [Appraisal.final, hconflicted] at hfinal
    obtain ⟨e', heval₁, rfl⟩ := hfinal
    exact ⟨rfl, rfl⟩

/-- A call that keeps a request owns its scope, or has given it up. -/
theorem created_stage (h : (dep.system host).Reachable cfg) (hs : Appraising dep cfg c p s)
    {request : ApprovalRequest} (hcreated : s.created = some request) :
    s.Owns ∨ s.stage = .abandoned := by
  have hkept := (Discipline.sound_reachable (dep.followed host) h).kept
  let P : Nat → Entry host → CallState host → Prop := fun _ _ st => ∀ s request,
    st.progress = .appraising s → s.created = some request → s.Owns ∨ s.stage = .abandoned
  have hstart : ∀ q entry, P q entry ((dep.discipline host).start q entry) := by
    intro q entry s request hstart hcreated
    cases entry with
    | evaluate rawIntent options =>
        cases hstart
        cases hcreated
    | execute | dryRun | callback => cases hstart
  have hnext : ∀ q entry st op a, P q entry st → (dep.discipline host).allowed st op →
      P q entry ((dep.discipline host).next st op a) := by
    rintro q entry ⟨proc, progress⟩ op a hP hallowed s request hnext hcreated
    cases progress with
    | executing | rehearsing | checking => cases hnext
    | appraising s₀ =>
        cases hnext
        have hold : ∀ request, s₀.created = some request → s₀.Owns ∨ s₀.stage = .abandoned :=
          fun request => hP s₀ request rfl
        have hnot : ∀ {stage} request, s₀.created = some request → s₀.stage = stage →
            stage = .abandoned ∨ stage = .holding ∨ ∃ d, stage = .concluded d := by
          intro stage request hcreated hstage
          rcases hold request hcreated with (hs | ⟨d, hs⟩) | hs
          · exact .inr (.inl (hstage.symm.trans hs))
          · exact .inr (.inr ⟨d, hstage.symm.trans hs⟩)
          · exact .inl (hstage.symm.trans hs)
        cases op with
        | approvalCreate params => exact .inl (.inl hallowed.1)
        | approvalDelete id => exact .inl (.inl hallowed.1)
        | set scope payloadHash decision => exact .inl (.inr ⟨decision, rfl⟩)
        | reserve scope payloadHash => exact .inl (.inl rfl)
        | abortDecision scope payloadHash error => exact .inr rfl
        | lookup scope payloadHash => exact absurd (hnot _ hcreated hallowed.1) (by simp)
        | pendingDecision promise => exact absurd (hnot _ hcreated hallowed) (by simp)
        | _ => exact hold _ hcreated
  obtain ⟨q, entry, -, hP⟩ := hkept.state_invariant hstart hnext hs
  exact hP s request rfl hcreated

/-- No call of a crashed process is left. -/
theorem crashed_gone (h : (dep.system host).Reachable cfg) {call : Call (signature host)}
    (hcall : cfg.calls c = some call) : cfg.log.any (Deployment.isCrash call.proc) = false := by
  let Inv : Config (signature host) → Prop := fun cfg => ∀ c call, cfg.calls c = some call →
    cfg.log.any (Deployment.isCrash call.proc) = false
  suffices hinv : Inv cfg from hinv c call hcall
  refine Discipline.invariant (dep.followed host) (fun _ _ _ _ hcall => by cases hcall) ?_ h
  intro cfg cfg' _ _ hinv hmove
  cases hmove with
  | @start p entry rests enabled =>
      intro c call hcall
      dsimp only at hcall ⊢
      have hlog : ∀ q, (Event.started cfg.next p entry :: cfg.log).any (Deployment.isCrash q) =
          cfg.log.any (Deployment.isCrash q) := fun _ => rfl
      rw [hlog]
      by_cases hc : c = cfg.next
      · rw [hc, Function.update_self] at hcall
        cases hcall
        simp only [Deployment.system, Deployment.systemOf, Deployment.enabled, Bool.and_eq_true,
          Bool.not_eq_true'] at enabled
        exact enabled.1
      · rw [Function.update_of_ne hc] at hcall
        exact hinv c call hcall
  | @act c₀ call₀ s op next i a w live program state allowed turn performed =>
      intro c call hcall
      dsimp only at hcall ⊢
      by_cases hc : c = c₀
      · rw [hc, Function.update_self] at hcall
        cases hcall
        exact hinv c₀ call₀ live
      · rw [Function.update_of_ne hc] at hcall
        exact hinv c call hcall
  | @finish c₀ call₀ s r live state final turn =>
      intro c call hcall
      dsimp only at hcall ⊢
      by_cases hc : c = c₀
      · rw [hc, Function.update_self] at hcall
        cases hcall
      · rw [Function.update_of_ne hc] at hcall
        exact hinv c call hcall
  | @crash p =>
      intro c call hcall
      simp only [Machine.crashStep] at hcall ⊢
      split at hcall
      · cases hcall
      · next call' hcall' =>
          split_ifs at hcall with hp
          cases hcall
          rw [List.any_cons, hinv c _ hcall', Bool.or_false]
          exact beq_false_of_ne (Ne.symm hp)
  | outside rests acted => exact hinv

/-- The requests that the calls of a process keep, for the scopes that they asked for. -/
structure Petitions (dep : Deployment) (cfg : Config (signature host)) : Prop where
  /-- Who keeps a request and has given its scope up has not ended, or its process has. -/
  abandoned : ∀ c p s request, Appraising dep cfg c p s → s.created = some request →
    s.undeleted = false → s.stage = .abandoned →
    (∃ call, cfg.calls c = some call) ∨ cfg.log.any (Deployment.isCrash p) = true
  alone : ∀ c c' p s s' (e e' : Evaluation host) request request', Appraising dep cfg c p s →
    Appraising dep cfg c' p s' → s.evaluation host = some e → s'.evaluation host = some e' →
    e.scope = e'.scope → s.created = some request → s'.created = some request' →
    s.undeleted = false → s'.undeleted = false → c = c'

/-- A request that a call keeps it has kept before, or it creates it. -/
theorem created_before {op : Op host} {a : Ans host op} {request : ApprovalRequest}
    (hallowed : s.allowed op) (hcreated : (s.next op a).created = some request)
    (hundeleted : (s.next op a).undeleted = false) :
    s.undeleted = false ∧ (s.created = some request ∨ s.stage = .holding) := by
  cases op with
  | approvalCreate params => exact ⟨hundeleted, .inr hallowed.1⟩
  | approvalDelete id =>
      cases a with
      | error e => cases hundeleted
      | ok u => cases hcreated
  | _ => exact ⟨hundeleted, .inl hcreated⟩

namespace Petitions

section

variable {c : Nat} {call : Call (signature host)} {op : Op host} {a : Ans host op} {c' : Nat}
  {s s' : Appraisal} {request request' : ApprovalRequest} {e e' : Evaluation host}

/-- In the process that the acting call works in, no other call stands between giving its
scope up and ending while it keeps a request. -/
theorem not_abandoned (h : Petitions dep cfg) (hreach : (dep.system host).Reachable cfg)
    (live : cfg.calls c = some call)
    (turn : cfg.current call.proc = some c ∨
      (dep.discipline host).Rests (dep.system host) cfg call.proc ∧ waits host op = true)
    (hc : c' ≠ c) (hs' : Appraising dep cfg c' call.proc s')
    (heval' : s'.evaluation host = some e') (hcreated' : s'.created = some request')
    (hundeleted' : s'.undeleted = false) : s'.stage ≠ .abandoned := by
  intro habandoned
  have hscopes := Scopes.reachable hreach
  cases h.abandoned c' _ s' request' hs' hcreated' hundeleted' habandoned with
  | inl hlive =>
      obtain ⟨call', hcall'⟩ := hlive
      have hfree := hscopes.free c' call' _ s' e' hcall' hs' heval' (.inr habandoned)
      cases turn with
      | inl hcurrent => exact hc (Option.some.inj (hfree.1.symm.trans hcurrent))
      | inr hrests =>
          exact hscopes.not_between_of_rests hrests.1 hcall' hs' heval' (.inr habandoned)
  | inr hcrashed =>
      rw [crashed_gone hreach live] at hcrashed
      cases hcrashed

/-- The acting call keeps a request that it has kept, or creates one while it owns the
scope; no other call keeps one for this scope. -/
theorem not_both (h : Petitions dep cfg) (hreach : (dep.system host).Reachable cfg)
    (live : cfg.calls c = some call) (state : Appraising dep cfg c call.proc s)
    (allowed : s.allowed op)
    (turn : cfg.current call.proc = some c ∨
      (dep.discipline host).Rests (dep.system host) cfg call.proc ∧ waits host op = true)
    (heval : (s.next op a).evaluation host = some e)
    (hcreated : (s.next op a).created = some request)
    (hundeleted : (s.next op a).undeleted = false) (hc : c' ≠ c)
    (hs' : Appraising dep cfg c' call.proc s') (heval' : s'.evaluation host = some e')
    (hscope : e.scope = e'.scope) (hcreated' : s'.created = some request') :
    s'.undeleted ≠ false := by
  intro hundeleted'
  obtain ⟨entry, -, hknown⟩ := Appraisal.known_reachable hreach state
  obtain ⟨hundeleted₀, hbefore⟩ := created_before allowed hcreated hundeleted
  cases hbefore with
  | inl hold =>
      have hnotbefore : s.stage ≠ .before := by
        rcases created_stage hreach state hold with (hs | ⟨d, hs⟩) | hs <;> simp [hs]
      have heval := hknown.serves.same hnotbefore allowed heval
      exact hc (h.alone c c' _ s s' e e' request request' state hs' heval heval' hscope hold
        hcreated' hundeleted₀ hundeleted').symm
  | inr hholding =>
      have heval := hknown.serves.same (by simp [hholding]) allowed heval
      cases created_stage hreach hs' hcreated' with
      | inl howns =>
          exact hc ((Scopes.reachable hreach).alone c c' _ s s' e e' state hs' heval heval' hscope
            (.inl hholding) howns).symm
      | inr habandoned =>
          exact h.not_abandoned hreach live turn hc hs' heval' hcreated' hundeleted' habandoned

theorem act (h : Petitions dep cfg) (hreach : (dep.system host).Reachable cfg)
    {st : CallState host} {next : Ans host op → Program (Op host) (Ans host) Ret} {w : World host}
    (live : cfg.calls c = some call) (state : (dep.discipline host).state c cfg.log = some st)
    (allowed : (dep.discipline host).allowed st op)
    (turn : cfg.current call.proc = some c ∨
      (dep.discipline host).Rests (dep.system host) cfg call.proc ∧ waits host op = true) :
    Petitions dep { cfg with
      world := w
      calls := Function.update cfg.calls c (some { call with program := next a })
      current := Function.update cfg.current call.proc (some c)
      log := .did c op a :: cfg.log } := by
  have hproc := Scopes.proc_reachable hreach live state
  obtain ⟨p, progress⟩ := st
  obtain rfl : p = call.proc := hproc
  constructor
  case abandoned =>
      intro c' q s request hs hcreated hundeleted habandoned
      dsimp only
      rcases appraising_cases state hs with ⟨hc, -⟩ | ⟨hc, hs⟩
      · exact .inl ⟨_, by rw [hc, Function.update_self]⟩
      · rw [Function.update_of_ne hc]
        exact h.abandoned c' q s request hs hcreated hundeleted habandoned
  case alone =>
      intro c' c'' q s s' e e' request request' hs hs' heval heval' hscope hcreated hcreated'
        hundeleted hundeleted'
      rcases appraising_cases state hs with ⟨rfl, s₀, hst, rfl⟩ | ⟨hc, hsame⟩
      · rcases appraising_cases state hs' with ⟨rfl, -⟩ | ⟨hc', hsame'⟩
        · rfl
        · cases hst
          exact absurd hundeleted' (h.not_both hreach live state allowed turn heval hcreated
            hundeleted hc' hsame' heval' hscope hcreated')
      · rcases appraising_cases state hs' with ⟨rfl, s₀, hst, rfl⟩ | ⟨-, hsame'⟩
        · cases hst
          exact absurd hundeleted (h.not_both hreach live state allowed turn heval' hcreated'
            hundeleted' hc hsame heval hscope.symm hcreated)
        · exact h.alone c' c'' q s s' e e' request request' hsame hsame' heval heval' hscope
            hcreated hcreated' hundeleted hundeleted'

end

theorem reachable (h : (dep.system host).Reachable cfg) : Petitions dep cfg := by
  refine Discipline.invariant (dep.followed host) ?_ ?_ h
  · rintro w -
    exact ⟨(fun _ _ _ _ hs => by cases hs), fun _ _ _ _ _ _ _ _ _ _ hs => by cases hs⟩
  intro cfg cfg' hreach hsound hinv hmove
  cases hmove with
  | @start p entry rests enabled =>
      have hold : ∀ {c q s request}, (dep.discipline host).state c
          (.started cfg.next p entry :: cfg.log) = some ⟨q, .appraising s⟩ →
          s.created = some request → c ≠ cfg.next ∧ Appraising dep cfg c q s := by
        intro c q s request hs hcreated
        by_cases hc : cfg.next = c
        · simp only [Discipline.state, if_pos hc, Option.some.injEq, CallState.mk.injEq] at hs
          cases entry with
          | evaluate rawIntent options =>
              cases hs.2
              cases hcreated
          | execute | dryRun | callback => cases hs.2
        · rw [Discipline.state_started hc] at hs
          exact ⟨Ne.symm hc, hs⟩
      constructor
      · intro c q s request hs hcreated hundeleted habandoned
        obtain ⟨hc, hs⟩ := hold hs hcreated
        dsimp only
        rw [Function.update_of_ne hc]
        exact hinv.abandoned c q s request hs hcreated hundeleted habandoned
      · intro c c' q s s' e e' request request' hs hs' heval heval' hscope hcreated hcreated'
        exact hinv.alone c c' q s s' e e' request request' (hold hs hcreated).2
          (hold hs' hcreated').2 heval heval' hscope hcreated hcreated'
  | act live program state allowed turn performed => exact hinv.act hreach live state allowed turn
  | @finish c call st r live state final turn =>
      refine ⟨?_, hinv.alone⟩
      intro c' q s request hs hcreated hundeleted habandoned
      dsimp only
      by_cases hc : c' = c
      · subst hc
        cases state.symm.trans hs
        cases r with
        | executed | reported | calledBack => exact False.elim final
        | decided result =>
            cases result with
            | error e => exact absurd ((final.2 hundeleted).symm.trans hcreated) (by simp)
            | ok decision => simp only [Progress.final, Appraisal.final, habandoned] at final
      · rw [Function.update_of_ne hc]
        exact hinv.abandoned c' q s request hs hcreated hundeleted habandoned
  | @crash p =>
      refine ⟨?_, hinv.alone⟩
      intro c' q s request hs hcreated hundeleted habandoned
      have hold := hinv.abandoned c' q s request hs hcreated hundeleted habandoned
      simp only [Machine.crashStep, List.any_cons, Bool.or_eq_true]
      rcases hold with ⟨call, hcall⟩ | hcrashed
      · have hproc := Scopes.proc_reachable hreach hcall hs
        by_cases hp : call.proc = p
        · exact .inr (.inl (beq_iff_eq.mpr (hp.symm.trans hproc.symm)))
        · exact .inl ⟨call, by rw [hcall]; exact if_neg hp⟩
      · exact .inr (.inr hcrashed)
  | outside rests acted => exact ⟨hinv.abandoned, hinv.alone⟩

end Petitions

/-- A request that survives is the one that its call keeps. -/
theorem survives_created (h : (dep.system host).Reachable cfg) {request : ApprovalRequest}
    (hsurvives : Survives cfg.log c request) :
    ∃ p s, ∃ e : Evaluation host, Appraising dep cfg c p s ∧ s.created = some request ∧
      s.evaluation host = some e := by
  obtain ⟨⟨params, hcreate⟩, hdelete⟩ := hsurvives
  obtain ⟨newer, older, hlog⟩ := List.append_of_mem hcreate
  obtain ⟨_, _, p, entry, progress, hpast⟩ := Deployment.past_reachable h hlog
  have hallowed := hpast.allowed
  cases progress with
  | executing | rehearsing | checking => exact False.elim hallowed
  | appraising s =>
      obtain ⟨s', hs', hcreated⟩ := appraising_endures h
        (P := fun s => s.created = some request)
        (F := fun event => event ≠ .did c (.approvalDelete request.approvalId) (.ok ()))
        (fun s op a hcreated hallowed hop => by
          cases op with
          | approvalCreate params => exact absurd (hcreated.symm.trans hallowed.2.1) (by simp)
          | approvalDelete id =>
              obtain ⟨-, request', hrequest, rfl⟩ := hallowed
              cases hcreated.symm.trans hrequest
              cases a with
              | error e => exact hcreated
              | ok u => exact absurd rfl hop
          | _ => exact hcreated)
        hlog (Discipline.state_did_self hpast.state) rfl
        fun event hevent heq => hdelete (by
          rw [hlog, ← heq]
          exact List.mem_append_left _ hevent)
      have hnotbefore : s'.stage ≠ .before := by
        rcases created_stage h hs' hcreated with (hs | ⟨decision, hs⟩) | hs <;> simp [hs]
      obtain ⟨_, _, hknown⟩ := Appraisal.known_reachable h hs'
      obtain ⟨-, e, heval⟩ := hknown.serves hnotbefore
      exact ⟨p, s', e, hs', hcreated, heval⟩

theorem survives_alone (h : (dep.system host).Reachable cfg) {c' : Nat}
    {intent intent' : TradingIntent host} {request request' : ApprovalRequest}
    (hintent : EvaluationOf cfg.log c p intent) (hintent' : EvaluationOf cfg.log c' p intent')
    (hkey : SameScopedKey intent intent') (hsurvives : Survives cfg.log c request)
    (hsurvives' : Survives cfg.log c' request') (hdeletes : cfg.log.any (deleteFails c) = false)
    (hdeletes' : cfg.log.any (deleteFails c') = false) : c = c' ∧ request = request' := by
  obtain ⟨q, s, e, hs, hcreated, heval⟩ := survives_created h hsurvives
  obtain ⟨q', s', e', hs', hcreated', heval'⟩ := survives_created h hsurvives'
  obtain ⟨rfl, -, hscope, -⟩ := evaluates_now h hs heval hintent
  obtain ⟨rfl, -, hscope', -⟩ := evaluates_now h hs' heval' hintent'
  obtain rfl := (Petitions.reachable h).alone c c' _ s s' e e' request request' hs hs' heval heval'
    (hscope.trans (hkey.scope.trans hscope'.symm)) hcreated hcreated' (not_undeleted hs hdeletes)
    (not_undeleted hs' hdeletes')
  cases hs.symm.trans hs'
  exact ⟨rfl, Option.some.inj (hcreated.symm.trans hcreated')⟩

end Agreement
open Agreement

/-- What the evaluations of one scope in one process have to do with each other. -/
structure ScopesAgree (dep : Deployment) (log : History host) : Prop where
  /-- A call that works holds its scope, and no other call of its process holds it. -/
  exclusive : ∀ newer older c op a p (intent : TradingIntent host),
    log = newer ++ .did c op a :: older → works op = true → EvaluationOf log c p intent →
    (∃ scope, HoldsScope older c scope) ∧
      ∀ c' scope' (intent' : TradingIntent host), EvaluationOf log c' p intent' →
        SameScopedKey intent intent' → HoldsScope older c' scope' → c' = c
  /-- Whoever finds no conflict, and returns, has the payload of the owner and gives the owner's
  decision on. -/
  agree : ∀ c c' p (intent intent' : TradingIntent host) scope payloadHash scope' payloadHash'
    found decision decision', EvaluationOf log c p intent → EvaluationOf log c' p intent' →
    SameScopedKey intent intent' → .did c (.reserve scope payloadHash) () ∈ log →
    .returned c (.decided (.ok decision)) ∈ log →
    .did c' (.lookup scope' payloadHash') found ∈ log → isConflict found = false →
    .returned c' (.decided (.ok decision')) ∈ log →
    SamePayload intent intent' ∧
      decision' = { decision with
        correlationId := decision'.correlationId
        decisionToken := decision'.decisionToken } ∧
      ValidToken (dep.service p) intent' decision'
  /-- While an entry is there, those and only those who ask with another payload find a
  conflict. -/
  conflict : ∀ newer older c c₀ p (intent intent₀ : TradingIntent host) scope payloadHash scope₀
    payloadHash₀ found, log = newer ++ .did c (.lookup scope payloadHash) found :: older →
    EvaluationOf log c p intent → EvaluationOf log c₀ p intent₀ → SameScopedKey intent₀ intent →
    Present older c₀ scope₀ payloadHash₀ → (isConflict found = true ↔ ¬SamePayload intent₀ intent)
  /-- Whoever finds a conflict does nothing but say so. -/
  denied : ∀ c scope payloadHash found, .did c (.lookup scope payloadHash) found ∈ log →
    isConflict found = true → (∀ op a, works op = true → .did c op a ∉ log) ∧
      ∀ decision, .returned c (.decided (.ok decision)) ∈ log →
        decision.outcome = .deny ∧ decision.reasons =
          [reason "idempotency_conflict" "Idempotency key reused with different payload."]
  /-- At most one request for a scope is left, if the store deletes what it is asked to. -/
  single : ∀ c c' p (intent intent' : TradingIntent host) request request',
    EvaluationOf log c p intent → EvaluationOf log c' p intent' → SameScopedKey intent intent' →
    Survives log c request → Survives log c' request' → log.any (deleteFails c) = false →
    log.any (deleteFails c') = false → c = c' ∧ request = request'

theorem scopes_agree (h : (dep.system host).Reachable cfg) : ScopesAgree dep cfg.log where
  exclusive _ _ _ _ _ _ _ hlog hworks hintent := works_alone h hlog hworks hintent
  agree _ _ _ _ _ _ _ _ _ _ _ _ hintent hintent' hkey hreserve hreturned hlookup hfound
      hreturned' :=
    agrees h hintent hintent' hkey hreserve hreturned hlookup hfound hreturned'
  conflict _ _ _ _ _ _ _ _ _ _ _ _ hlog hintent hintent₀ hkey hpresent :=
    conflicts h hlog hintent hintent₀ hkey hpresent
  denied _ _ _ _ hlookup hfound := denied h hlookup hfound
  single _ _ _ _ _ _ _ hintent hintent' hkey hsurvives hsurvives' hdeletes hdeletes' :=
    survives_alone h hintent hintent' hkey hsurvives hsurvives' hdeletes hdeletes'

theorem scopes_agree_replayed :
    (paperRun replayedRun).log.any (replays 2) = true ∧
      ScopesAgree paperDeployment (paperRun replayedRun).log :=
  ⟨by decide +kernel, scopes_agree (paperRun_reachable _)⟩

def simulationVerdict : Json :=
  .record [
    ("intentId", some (.str "i")),
    ("verdict", some (.str "approve")),
    ("riskLevel", some (.str "low")),
    ("reasons", some (.arr [.str "r"])),
    ("detectedIssues", some (.arr [])),
    ("requiredPolicyTags", some (.arr [])),
    ("reviewerModel", some (.str "m")),
    ("reviewerProvider", some (.str "p")),
    ("reviewedAt", some (.str "t"))]

def simulationRisk : Json :=
  .record [
    ("intentId", some (.str "i")),
    ("passed", some (.bool true)),
    ("checks", some (.arr [.record [
      ("check", some (.str "reviewer")),
      ("status", some (.str "pass"))]])),
    ("evaluatedAt", some (.str "t"))]

def escalation : Json :=
  .record [
    ("decision", some (.str "needs_human")),
    ("reasons", some (.arr [.record [
      ("rule", some (.str "r")),
      ("message", some (.str "m"))]])),
    ("requiresHumanApproval", some (.bool true)),
    ("matchedAllowRules", some (.arr [])),
    ("matchedDenyRules", some (.arr []))]

def actReplies (c : Nat) (value : Json) : Step (signature exampleHost) :=
  .run c { Input.quiet with reply := .ok (some value) }

def escalates (c : Nat) (approvalId : String) : List (Step (signature exampleHost)) :=
  acts c 4 ++ [actReplies c (.bool true), actReplies c simulationVerdict] ++ acts c 1 ++
    [actReplies c simulationRisk] ++ acts c 1 ++ [actReplies c escalation] ++ acts c 2 ++
    [.run c { Input.quiet with id := approvalId }]

def undeletedRun : List (Step (signature exampleHost)) :=
  .start 0 simulationEntry ::
    (escalates 0 "a" ++ [actFails 0, actFails 0] ++ acts 0 1 ++ [.finish 0])

def renewedRun : List (Step (signature exampleHost)) :=
  undeletedRun ++ .start 0 simulationEntry :: (escalates 1 "b" ++ acts 1 3 ++ [.finish 1])

def createsRequest (c : Nat) (approvalId : String) : Event (signature host) → Bool
  | .did c' (.approvalCreate _) (.ok request) => c' == c && request.approvalId == approvalId
  | _ => false

def deletesRequest (c : Nat) : Event (signature host) → Bool
  | .did c' (.approvalDelete _) (.ok _) => c' == c
  | _ => false

theorem survives_of {log : History host} {c : Nat} {approvalId : String}
    (hcreates : log.any (createsRequest c approvalId) = true)
    (hdeletes : log.any (deletesRequest c) = false) :
    ∃ request, Survives log c request ∧ request.approvalId = approvalId := by
  obtain ⟨event, hevent, hcreate⟩ := List.any_eq_true.mp hcreates
  rw [List.any_eq_false] at hdeletes
  unfold createsRequest at hcreate
  split at hcreate
  · next params request =>
      rw [Bool.and_eq_true, beq_iff_eq, beq_iff_eq] at hcreate
      obtain ⟨rfl, rfl⟩ := hcreate
      refine ⟨request, ⟨⟨params, hevent⟩, fun hdelete => ?_⟩, rfl⟩
      exact hdeletes _ hdelete (beq_self_eq_true _)
  · cases hcreate

theorem two_requests_survive :
    let log := (paperRun renewedRun).log
    let intent : TradingIntent exampleHost := ⟨simulationIntent, by decide +kernel⟩
    (paperDeployment.system exampleHost).Reachable (paperRun renewedRun) ∧
      EvaluationOf log 0 0 intent ∧ EvaluationOf log 1 0 intent ∧
      ∃ request request', Survives log 0 request ∧ Survives log 1 request' ∧
        request.approvalId ≠ request'.approvalId := by
  intro log intent
  have hruns : (log.any (createsRequest 0 "a") = true ∧ log.any (deletesRequest 0) = false) ∧
      log.any (createsRequest 1 "b") = true ∧ log.any (deletesRequest 1) = false := by
    decide +kernel
  obtain ⟨⟨hcreates, hdeletes⟩, hcreates', hdeletes'⟩ := hruns
  obtain ⟨request, hsurvives, hid⟩ := survives_of hcreates hdeletes
  obtain ⟨request', hsurvives', hid'⟩ := survives_of hcreates' hdeletes'
  refine ⟨paperRun_reachable _, ⟨{ correlationId := some "c" }, ?_, rfl⟩,
    ⟨{ correlationId := some "c" }, ?_, rfl⟩, request, request', hsurvives, hsurvives', ?_⟩
  · exact paperRun_entry [] _ (by decide +kernel)
  · exact paperRun_entry undeletedRun _ (by decide +kernel)
  · rw [hid, hid']
    decide

end TradingGuardrails
