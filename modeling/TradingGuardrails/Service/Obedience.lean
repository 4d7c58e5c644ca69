import TradingGuardrails.Service.Appraisal

/-!
Every call of `evaluate` obeys its contract: the stages leave behind what an assessment
asks for, and each way out of the program stores, gives up or returns a decision that
fits.
-/
namespace TradingGuardrails

open Text Interleaving GuardrailService

variable {host : Host} {s : Appraisal} {e : Evaluation host} {l : Unit}
  {err : Appraisal → Unit → Thrown → Prop}

theorem plain_evaluationEvent (environment : Environment) (options : EvaluationOptions)
    (correlationId : String) (intent : Option (TradingIntent host)) (inputRef : Option String)
    (eventType : AuditEventType) (data : Json) :
    Plain (evaluationEvent environment options correlationId intent inputRef eventType data) :=
  plain_toJson rfl

theorem obeys_writeAudit {ok : Appraisal → Unit → Unit → Prop} {eventType : AuditEventType}
    {data : List (String × Option Json)} (hok : ok s l ()) (herr : ∀ e, err s l e) :
    Routine.Obeys (Appraisal.contract host) ok err s l (e.writeAudit eventType data) :=
  Script.obeys_auditWrite (s.inert_auditWrite (plain_evaluationEvent ..)) hok herr

theorem obeys_policyHealthy {ok : Appraisal → Unit → Bool → Prop} (hs : s.Working)
    (hok : ∀ reply healthy, (healthy = true → ∃ v, reply = .ok v ∧ truthy v = true) →
      ok { s with healthy := some reply } l healthy) :
    Routine.Obeys (Appraisal.contract host) ok err s l policyHealthy := by
  simp only [policyHealthy, Routine.obeys_bind, Routine.obeys_perform]
  refine ⟨hs, fun reply => ?_⟩
  cases reply with
  | ok v => exact hok (.ok v) _ fun htruthy => ⟨v, rfl, htruthy⟩
  | error error => exact hok (.error error) _ fun hfalse => by cases hfalse

def Denies (e : Evaluation host) (decision : GuardrailDecision) : Prop :=
  ∃ reasons reviewerVerdict riskResult,
    decision = { e.deny reasons with reviewerVerdict, riskResult }

structure SameCall (host : Host) (s s' : Appraisal) : Prop where
  stage : s'.stage = s.stage
  created : s'.created = s.created
  undeleted : s'.undeleted = s.undeleted
  service : s'.service = s.service
  options : s'.options = s.options
  evaluation : s'.evaluation host = s.evaluation host

theorem SameCall.trans {s s' s'' : Appraisal} (h : SameCall host s s')
    (h' : SameCall host s' s'') : SameCall host s s'' :=
  ⟨h'.stage.trans h.stage, h'.created.trans h.created, h'.undeleted.trans h.undeleted,
    h'.service.trans h.service, h'.options.trans h.options, h'.evaluation.trans h.evaluation⟩

theorem SameCall.working {s' : Appraisal} (h : SameCall host s s') (hs : s.Working) :
    s'.Working := by
  unfold Appraisal.Working
  rw [h.stage, h.options]
  exact hs

/-- How a stage may end besides going on: with a decision that denies the intent, or with
an exception. -/
structure StageEnds {α : Type} (s : Appraisal) (e : Evaluation host) (l : Unit)
    (ok : Appraisal → Unit → Except GuardrailDecision α → Prop)
    (err : Appraisal → Unit → Thrown → Prop) : Prop where
  denied : ∀ s' decision, SameCall host s s' → Denies e decision → ok s' l (.error decision)
  thrown : ∀ s' error, SameCall host s s' → err s' l error

theorem StageEnds.mono {α : Type} {s' : Appraisal}
    {ok : Appraisal → Unit → Except GuardrailDecision α → Prop} (h : StageEnds s e l ok err)
    (hs : SameCall host s s') : StageEnds s' e l ok err :=
  ⟨fun s'' decision hs' => h.denied s'' decision (hs.trans hs'),
    fun s'' error hs' => h.thrown s'' error (hs.trans hs')⟩

theorem obeys_reviewStage {ok : Appraisal → Unit → Except GuardrailDecision Json → Prop}
    (hs : s.Working) (ends : StageEnds s e l ok err)
    (hok : ∀ reply verdict,
      accepted (DecisionSchema.reviewerVerdict host) reply = some verdict →
      ok { s with reviewed := some reply } l (.ok verdict)) :
    Routine.Obeys (Appraisal.contract host) ok err s l (reviewStage e) := by
  simp only [reviewStage, Routine.obeys_bind, Routine.obeys_perform]
  refine ⟨hs, fun reply => ?_⟩
  split
  · exact ends.denied _ _ ⟨rfl, rfl, rfl, rfl, rfl, rfl⟩ ⟨_, none, none, rfl⟩
  · rename_i verdict hverdict
    simp only [Routine.obeys_bind]
    exact obeys_writeAudit (hok reply verdict hverdict)
      fun error => ends.thrown _ error ⟨rfl, rfl, rfl, rfl, rfl, rfl⟩

/-- The risk engine of this repository asks for daily statistics and for other facts, and
answers with the result of its checks. -/
theorem obeys_riskEngine {riskEngine : RiskEngine} {verdict : Json}
    {ok : Appraisal → Unit → Option Json → Prop} (hs : s.Working)
    (heval : s.evaluation host = some e)
    (hok : ∀ stats today facts nowMs evaluatedAt,
      (e.intent.action = .placeOrder → ∃ reported,
        stats = some (e.intent.account, today, reported) ∧
        facts.dailyStats = RiskEngine.dailyStatsFor e.intent today reported) →
      ok { s with stats := stats } l (some (RiskEngine.riskResult host e.intent.intentId
        (riskEngine.checks e.intent facts nowMs verdict) facts.dailyStats evaluatedAt)))
    (herr : ∀ stats error, err { s with stats := stats } l error) :
    Routine.Obeys (Appraisal.contract host) ok err s l
      (riskEngine.evaluate e.intent verdict) := by
  obtain ⟨startedAt, -, hstart, -⟩ := Appraisal.evaluation_some heval
  have hnow : ∀ stats (t : Instant),
      ({ s with stats := stats } : Appraisal).next (.now : Op host) t =
        { s with stats := stats } := by
    intro stats t
    simp only [Appraisal.next, hstart]
    rfl
  have hallowed : ∀ stats,
      ({ s with stats := stats } : Appraisal).allowed (.now : Op host) := by
    intro stats
    rcases hs with h | h
    · exact .inr h
    · exact .inl h.1
  have hfinish : ∀ stats today facts, (e.intent.action = .placeOrder → ∃ reported,
        stats = some (e.intent.account, today, reported) ∧
        facts.dailyStats = RiskEngine.dailyStatsFor e.intent today reported) →
      Routine.Obeys (Appraisal.contract host) ok err { s with stats := stats } l (do
        let now ← Script.now
        if utcDay host now ≠ today then
          throw (.ofMessage
            "Risk data collection crossed a UTC day boundary; evaluate again.")
        let checks := riskEngine.checks e.intent facts now.ms verdict
        let evaluatedAt := host.toISOString (← Script.now)
        pure (some (RiskEngine.riskResult host e.intent.intentId checks facts.dailyStats
          evaluatedAt))) := by
    intro stats today facts hfacts
    simp only [Routine.obeys_bind, Script.obeys_now, hnow]
    refine ⟨hallowed stats, fun now => ?_⟩
    split_ifs
    · exact herr _ _
    · simp only [Routine.obeys_bind, Script.obeys_now, hnow, Routine.obeys_pure]
      exact ⟨hallowed stats, fun t => hok _ _ _ _ _ hfacts⟩
  simp only [RiskEngine.evaluate, Routine.obeys_bind, Script.obeys_now]
  refine ⟨hallowed s.stats, fun t => ?_⟩
  rw [show s.next (.now : Op host) t = s from hnow s.stats t]
  have hthrow : ∀ {stats α} {a : Except Thrown α} {ok : α → Prop}, (∀ v, a = .ok v → ok v) →
      (∀ v, a = .ok v → ok v) ∧ ∀ error, a = .error error → err { s with stats := stats } l error :=
    fun h => ⟨h, fun error _ => herr _ error⟩
  unfold RiskEngine.facts
  split_ifs with haction
  · simp only [Routine.obeys_bind, Routine.obeys_perform, Routine.obeys_ofExcept]
    refine ⟨⟨hs, e, heval, rfl⟩, fun a => ⟨fun reported ha => ?_, fun error ha => ?_⟩⟩
    · subst ha
      refine ⟨hs, fun a => hthrow fun market _ => ?_⟩
      refine ⟨hs, fun a => hthrow fun portfolio _ => ?_⟩
      refine ⟨hs, fun a => hthrow fun lastOrder _ => ?_⟩
      have := hfinish (some (e.intent.account, utcDay host t, reported)) (utcDay host t)
        ⟨RiskEngine.dailyStatsFor e.intent (utcDay host t) reported, market, portfolio, lastOrder⟩
        fun _ => ⟨reported, rfl, rfl⟩
      simp only [Routine.obeys_bind, Script.obeys_now] at this
      exact this
    · subst ha
      exact herr s.stats error
  · rw [Routine.obeys_pure]
    have := hfinish s.stats (utcDay host t) ⟨none, none, none, none⟩ fun h => absurd h haction
    simp only [Routine.obeys_bind, Script.obeys_now] at this
    exact this

/-- What the risk source of the service leaves behind. -/
theorem obeys_risk {verdict : Json} {ok : Appraisal → Unit → Option Json → Prop}
    (hs : s.Working) (heval : s.evaluation host = some e)
    (hok : ∀ assessed stats answer, Appraisal.RiskAnswer { s with assessed, stats } e verdict
      answer → ok { s with assessed, stats } l answer)
    (herr : ∀ assessed stats error, err { s with assessed, stats } l error) :
    Routine.Obeys (Appraisal.contract host) ok err s l
      (s.service.risk.evaluate e.intent verdict) := by
  cases hrisk : s.service.risk with
  | anything =>
      simp only [RiskSource.evaluate, Routine.obeys_bind, Routine.obeys_perform,
        Routine.obeys_ofExcept]
      refine ⟨hs, fun reply => ⟨fun answer hreply => ?_, fun error hreply => ?_⟩⟩
      · subst hreply
        refine hok (some (.ok answer)) s.stats answer ?_
        simp only [Appraisal.RiskAnswer, hrisk]
      · exact herr (some reply) s.stats error
  | engine riskEngine =>
      simp only [RiskSource.evaluate]
      refine obeys_riskEngine hs heval ?_ ?_
      · intro stats today facts nowMs evaluatedAt hfacts
        refine hok s.assessed stats _ ?_
        simp only [Appraisal.RiskAnswer, hrisk]
        exact ⟨today, facts, nowMs, evaluatedAt, hfacts, rfl⟩
      · exact fun stats error => herr s.assessed stats error

theorem accepted_some {check : Check} {reply : Reply} {v : Json}
    (h : accepted check reply = some v) : reply = .ok (some v) ∧ check v = true := by
  cases reply with
  | error error => cases h
  | ok value =>
      simp only [accepted] at h
      cases hparse : parseWith check value with
      | error error =>
          rw [hparse] at h
          cases h
      | ok w =>
          rw [hparse] at h
          cases h
          obtain ⟨rfl, hcheck⟩ := parseWith_ok hparse
          exact ⟨rfl, hcheck⟩

/-- What the risk stage makes of the reply of its source. -/
theorem obeys_riskReply {verdict : Json} {assessed : Option Reply}
    {stats : Option (String × String × Option DailyStats)}
    {ok : Appraisal → Unit → Except GuardrailDecision Json → Prop} (ends : StageEnds s e l ok err)
    (hok : ∀ riskResult,
      Appraisal.RiskAnswer { s with assessed, stats } e verdict (some riskResult) →
      DecisionSchema.dynamicRiskResult host riskResult = true →
      riskResult.field? "passed" = some (.bool true) →
      ok { s with assessed, stats } l (.ok riskResult)) (reply : Reply)
    (hanswer : ∀ answer, reply = .ok answer →
      Appraisal.RiskAnswer { s with assessed, stats } e verdict answer) :
    Routine.Obeys (Appraisal.contract host) ok err { s with assessed, stats } l
      (match accepted (DecisionSchema.dynamicRiskResult host) reply with
      | none => pure (.error { e.deny
          [reason "risk_check_unavailable" "Required risk facts are unavailable."] with
            reviewerVerdict := some verdict })
      | some riskResult => do
          e.writeAudit .riskEvaluated [
            ("riskResult", some riskResult),
            ("riskChecks", riskResult.field? "checks")]
          if riskResult.field? "passed" = some (.bool true) then pure (.ok riskResult)
          else pure (.error { e.deny (Evaluation.riskReasons riskResult) with
            reviewerVerdict := some verdict, riskResult := some riskResult })) := by
  have hsame : SameCall host s { s with assessed, stats } := ⟨rfl, rfl, rfl, rfl, rfl, rfl⟩
  split
  · exact ends.denied _ _ hsame ⟨_, _, none, rfl⟩
  · rename_i riskResult haccepted
    obtain ⟨hreply, hvalid⟩ := accepted_some haccepted
    simp only [Routine.obeys_bind]
    refine obeys_writeAudit ?_ fun error => ends.thrown _ error hsame
    split_ifs with hpassed
    · exact hok riskResult (hanswer _ hreply) hvalid hpassed
    · exact ends.denied _ _ hsame ⟨_, _, _, rfl⟩

theorem obeys_riskStage {verdict : Json}
    {ok : Appraisal → Unit → Except GuardrailDecision Json → Prop} (hs : s.Working)
    (heval : s.evaluation host = some e) (ends : StageEnds s e l ok err)
    (hok : ∀ assessed stats riskResult,
      Appraisal.RiskAnswer { s with assessed, stats } e verdict (some riskResult) →
      DecisionSchema.dynamicRiskResult host riskResult = true →
      riskResult.field? "passed" = some (.bool true) →
      ok { s with assessed, stats } l (.ok riskResult)) :
    Routine.Obeys (Appraisal.contract host) ok err s l (s.service.riskStage e verdict) := by
  simp only [riskStage, Routine.obeys_bind, Routine.obeys_tryCatch, Routine.obeys_map,
    Routine.obeys_pure]
  refine obeys_risk hs heval ?_ ?_
  · intro assessed stats answer hanswer
    refine obeys_riskReply ends (hok assessed stats) (.ok answer) fun _ h => ?_
    cases h
    exact hanswer
  · intro assessed stats error
    exact obeys_riskReply ends (hok assessed stats) (.error error) fun _ h => by cases h

theorem obeys_policyStage {verdict riskResult : Json}
    {ok : Appraisal → Unit → Except GuardrailDecision Assessment → Prop} (hs : s.Working)
    (heval : s.evaluation host = some e) (ends : StageEnds s e l ok err)
    (hok : ∀ raw now policyOutput, transformOpaOutput host raw now = .ok policyOutput →
      ok { s with policy := some (e.policyInput verdict riskResult, .ok raw) } l
        (.ok ⟨verdict, riskResult, policyOutput⟩)) :
    Routine.Obeys (Appraisal.contract host) ok err s l (policyStage e verdict riskResult) := by
  obtain ⟨startedAt, -, hstart, -⟩ := Appraisal.evaluation_some heval
  let input := e.policyInput verdict riskResult
  have hsame : ∀ policy, SameCall host s { s with policy } :=
    fun _ => ⟨rfl, rfl, rfl, rfl, rfl, rfl⟩
  simp only [policyStage, Routine.obeys_bind, Routine.obeys_perform]
  refine ⟨hs, fun reply => ?_⟩
  cases reply with
  | error error =>
      exact ends.denied _ _ (hsame (some (input, .error error))) ⟨_, _, _, rfl⟩
  | ok raw =>
      simp only [Routine.obeys_bind, Script.obeys_now, Routine.obeys_pure]
      refine ⟨?_, fun now => ?_⟩
      · rcases hs with h | h
        · exact .inr h
        · exact .inl h.1
      · have hnext : (s.next (.evaluatePolicy input : Op host) (.ok raw)).next
            (.now : Op host) now = { s with policy := some (input, .ok raw) } := by
          simp only [Appraisal.next, hstart]
          rfl
        rw [hnext]
        cases htransform : transformOpaOutput host raw now with
        | error error =>
            exact ends.denied _ _ (hsame (some (input, .ok raw))) ⟨_, _, _, rfl⟩
        | ok policyOutput =>
            simp only [Except.toOption, Routine.obeys_bind]
            refine obeys_writeAudit ?_ fun error => ends.thrown _ error (hsame _)
            exact hok raw now policyOutput htransform

theorem obeys_assess {ok : Appraisal → Unit → Except GuardrailDecision Assessment → Prop}
    (hs : s.Working) (heval : s.evaluation host = some e)
    (hadmitted : s.service.intentRefusal e.intent = none) (ends : StageEnds s e l ok err)
    (hok : ∀ s' a, SameCall host s s' → s'.Assessed e a → ok s' l (.ok a)) :
    Routine.Obeys (Appraisal.contract host) ok err s l (s.service.assess e) := by
  unfold GuardrailService.assess
  cases hcontent : detectUnsafeContent e.intent with
  | some rejection =>
      exact ends.denied _ _ ⟨rfl, rfl, rfl, rfl, rfl, rfl⟩ ⟨_, none, none, rfl⟩
  | none =>
      simp only [Routine.obeys_bind]
      refine obeys_policyHealthy hs fun health healthy hhealthy => ?_
      have hsame₁ : SameCall host s { s with healthy := some health } :=
        ⟨rfl, rfl, rfl, rfl, rfl, rfl⟩
      split_ifs with hunhealthy
      · exact ends.denied _ _ hsame₁ ⟨_, none, none, rfl⟩
      rw [Bool.not_eq_true', Bool.not_eq_false] at hunhealthy
      simp only [Routine.obeys_bind]
      refine obeys_reviewStage (hsame₁.working hs) ?_ fun review verdict hverdict => ?_
      · exact ⟨fun s' decision h hdenies => ends.denied _ _ (hsame₁.trans h) hdenies,
          fun s' error h => ends.thrown _ _ (hsame₁.trans h)⟩
      have hsame₂ : SameCall host s
          { s with healthy := some health, reviewed := some review } :=
        ⟨rfl, rfl, rfl, rfl, rfl, rfl⟩
      simp only [Routine.obeys_bind]
      refine obeys_riskStage (s := { s with healthy := some health, reviewed := some review })
        (hsame₂.working hs) heval ?_ fun assessed stats riskResult hanswer hvalid hpassed => ?_
      · exact ⟨fun s' decision h hdenies => ends.denied _ _ (hsame₂.trans h) hdenies,
          fun s' error h => ends.thrown _ _ (hsame₂.trans h)⟩
      have hsame₃ : SameCall host s
          { s with healthy := some health, reviewed := some review, assessed, stats } :=
        ⟨rfl, rfl, rfl, rfl, rfl, rfl⟩
      refine obeys_policyStage
        (s := { s with healthy := some health, reviewed := some review, assessed, stats })
        (hsame₃.working hs) heval (ends.mono hsame₃) fun raw now policyOutput htransform => ?_
      refine hok _ _ ⟨rfl, rfl, rfl, rfl, rfl, rfl⟩ ⟨hadmitted, hcontent, ?_, ?_, ?_, hanswer, ?_⟩
      · obtain ⟨v, rfl, htruthy⟩ := hhealthy hunhealthy
        exact ⟨v, rfl, htruthy⟩
      · exact ⟨review, rfl, hverdict⟩
      · exact ⟨hvalid, hpassed⟩
      · exact ⟨raw, now, rfl, htransform⟩

/-- Where an exception may leave the evaluation of a call that holds its scope, or that
needs none. -/
structure CanAbandon (s : Appraisal) (e : Evaluation host) : Prop where
  serves : s.evaluation host = some e
  stage : if e.options.dryRun then s.stage = .before
    else s.stage = .holding ∨ s.stage = .abandoned
  cleared : s.Cleared

theorem CanAbandon.failed (h : CanAbandon s e) (hstage : s.stage ≠ .holding) (error : Thrown) :
    s.final host (.error error) := by
  have hbefore := h.stage
  refine ⟨?_, h.cleared⟩
  split_ifs at hbefore
  · rw [hbefore]
    rfl
  · rw [hbefore.resolve_left hstage]
    rfl

theorem obeys_finalizeDecision {decision : GuardrailDecision} {correlationId : String}
    {ok : Appraisal → Unit → GuardrailDecision → Prop}
    (hok : ok s l (s.service.signed e.intent decision correlationId e.options.dryRun))
    (herr : ∀ error, err s l error) :
    Routine.Obeys (Appraisal.contract host) ok err s l
      (s.service.finalizeDecision e decision correlationId) := by
  simp only [GuardrailService.finalizeDecision, Routine.obeys_bind]
  exact Script.obeys_auditWrite (s.inert_auditWrite (plain_evaluationEvent ..)) hok herr

/-- The state in which a call starts to conclude: it holds its scope, or it is a dry run. -/
structure Holds (s : Appraisal) (e : Evaluation host) : Prop where
  serves : s.evaluation host = some e
  stage : if e.options.dryRun then s.stage = .before else s.stage = .holding
  uncreated : s.created = none

theorem Holds.canAbandon (h : Holds s e) : CanAbandon s e := by
  refine ⟨h.serves, ?_, fun _ => h.uncreated⟩
  have hstage := h.stage
  split_ifs with hdry
  · rwa [if_pos hdry] at hstage
  · rw [if_neg hdry] at hstage
    exact .inl hstage

theorem Holds.working (h : Holds s e) : s.Working := by
  have hstage := h.stage
  obtain ⟨-, -, -, -, -, hoptions, -⟩ := Appraisal.evaluation_some h.serves
  rw [hoptions] at hstage
  split_ifs at hstage with hdry
  · exact .inr ⟨hstage, hdry⟩
  · exact .inl hstage

theorem SameCall.holds {s' : Appraisal} (h : SameCall host s s') (hs : Holds s e) :
    Holds s' e :=
  ⟨h.evaluation.trans hs.serves, by rw [h.stage]; exact hs.stage, h.created.trans hs.uncreated⟩

/-- Storing a decision ends the work of a call that holds its scope. -/
theorem obeys_remember {decision : GuardrailDecision}
    {ok : Appraisal → Unit → GuardrailDecision → Prop}
    (hserves : s.evaluation host = some e)
    (hstage : if e.options.dryRun then s.stage = .before else s.stage = .holding)
    (hdecision : s.Concluded e decision)
    (hok : ∀ s', s'.final host (.ok decision) → ok s' l decision) :
    Routine.Obeys (Appraisal.contract host) ok err s l (remember e decision) := by
  unfold remember
  obtain ⟨-, -, -, -, -, hoptions, -⟩ := Appraisal.evaluation_some hserves
  cases hdry : e.options.dryRun with
  | true =>
      rw [hdry, if_pos rfl] at hstage
      refine hok s ?_
      simp only [Appraisal.final, hstage]
      exact .inr ⟨by rw [← hoptions]; exact hdry, e, hserves, hdecision⟩
  | false =>
      rw [hdry, if_neg Bool.false_ne_true] at hstage
      refine ⟨⟨hstage, e, hserves, rfl, rfl, hdecision⟩, fun _ => hok _ ?_⟩
      simp only [Appraisal.final]
      rfl

theorem obeys_abandon {error : Thrown} {ok : Appraisal → Unit → Unit → Prop}
    (hs : CanAbandon s e)
    (hok : ∀ s', CanAbandon s' e → s'.stage ≠ .holding → ok s' l ()) :
    Routine.Obeys (Appraisal.contract host) ok err s l (abandon e error) := by
  have hstage := hs.stage
  unfold abandon
  split_ifs at hstage ⊢ with hdry
  · exact hok s hs (by simp [hstage])
  · refine ⟨⟨hstage, e, hs.serves, rfl, rfl⟩, fun _ => hok _ ⟨?_, ?_, hs.cleared⟩ ?_⟩
    · exact Appraisal.evaluation_next hs.serves (.abortDecision _ _ _) (by simp) _
    · rw [if_neg hdry]
      exact .inr rfl
    · simp [Appraisal.stageAfter]

theorem obeys_conclude {decision : GuardrailDecision}
    {ok : Appraisal → Unit → GuardrailDecision → Prop} (hs : Holds s e)
    (hdecision : Denies e decision)
    (hok : ∀ s' decision, s'.final host (.ok decision) → ok s' l decision)
    (herr : ∀ s' error, CanAbandon s' e → err s' l error) :
    Routine.Obeys (Appraisal.contract host) ok err s l (s.service.conclude e decision) := by
  simp only [GuardrailService.conclude, Routine.obeys_bind]
  refine obeys_finalizeDecision ?_ fun error => herr s error hs.canAbandon
  refine obeys_remember hs.serves hs.stage ?_ fun s' => hok s' _
  obtain ⟨reasons, reviewerVerdict, riskResult, rfl⟩ := hdecision
  exact .inl ⟨reasons, reviewerVerdict, riskResult, rfl⟩

theorem obeys_approvalDelete {request : ApprovalRequest}
    {ok : Appraisal → Unit → Unit → Prop} (hstage : s.stage = .holding)
    (hcreated : s.created = some request)
    (hok : ok { s with created := none } l ())
    (herr : ∀ error, err { s with undeleted := true } l error) :
    Routine.Obeys (Appraisal.contract host) ok err s l
      (Script.approvalDelete request.approvalId) := by
  simp only [Script.approvalDelete, Routine.obeys_bind, Routine.obeys_perform,
    Routine.obeys_ofExcept]
  refine ⟨⟨hstage, request, hcreated, rfl⟩, fun a => ⟨fun _ ha => ?_, fun error ha => ?_⟩⟩
  · subst ha
    exact hok
  · subst ha
    exact herr error

/-- The human approval of a decision is requested once, and withdrawn when it cannot be
audited. -/
theorem obeys_requestHumanApproval {a : Assessment}
    {ok : Appraisal → Unit → GuardrailDecision → Prop} (hserves : s.evaluation host = some e)
    (hstage : s.stage = .holding) (huncreated : s.created = none) (ha : s.Assessed e a)
    (hok : ∀ request, ok { s with created := some request } l
      { policyDecision e a with approvalId := some request.approvalId })
    (herr : ∀ s' error, s'.evaluation host = some e → s'.stage = .holding → s'.Cleared →
      err s' l error) :
    Routine.Obeys (Appraisal.contract host) ok err s l
      (requestHumanApproval e (policyDecision e a)) := by
  simp only [requestHumanApproval, Script.approvalCreate, Routine.obeys_bind,
    Routine.obeys_tryCatch, Routine.obeys_perform, Routine.obeys_ofExcept]
  refine ⟨⟨hstage, huncreated, e, a, hserves, ha, rfl⟩, fun answer => ⟨fun request hr => ?_,
    fun error hr => ?_⟩⟩
  · subst hr
    refine Script.obeys_auditWrite (Appraisal.inert_auditWrite _ (plain_evaluationEvent ..))
      (hok request) fun error => ?_
    refine obeys_approvalDelete hstage rfl (herr _ _ hserves hstage fun _ => rfl) fun error => ?_
    exact herr { s with created := some request, undeleted := true } _ hserves hstage
      fun hdeleted => absurd hdeleted (by simp)
  · subst hr
    exact herr _ _ hserves hstage fun _ => huncreated

theorem obeys_abandonAndRethrow {error : Thrown} {ok : Appraisal → Unit → GuardrailDecision → Prop}
    (hs : CanAbandon s e)
    (herr : ∀ s' error, CanAbandon s' e → s'.stage ≠ .holding → err s' l error) :
    Routine.Obeys (Appraisal.contract host) ok err s l (abandonAndRethrow e error) := by
  simp only [abandonAndRethrow, Routine.obeys_bind]
  exact obeys_abandon hs fun s' hs' hstage => herr s' error hs' hstage

theorem obeys_withdraw {decision : GuardrailDecision} {error : Thrown}
    {ok : Appraisal → Unit → GuardrailDecision → Prop} (hserves : s.evaluation host = some e)
    (hstage : if e.options.dryRun then s.stage = .before
      else s.stage = .holding ∨ s.stage = .abandoned)
    (huncreated : decision.approvalId = none → s.created = none)
    (hcreated : ∀ approvalId, decision.approvalId = some approvalId → s.stage = .holding ∧
      ∃ request, s.created = some request ∧ request.approvalId = approvalId)
    (herr : ∀ s' error, CanAbandon s' e → err s' l error) :
    Routine.Obeys (Appraisal.contract host) ok err s l (withdraw e decision error) := by
  have habandon : ∀ {s' : Appraisal}, CanAbandon s' e → Routine.Obeys (Appraisal.contract host) ok
      err s' l (abandonAndRethrow e error) :=
    fun hs' => obeys_abandonAndRethrow hs' fun s'' error hs'' _ => herr s'' error hs''
  unfold withdraw
  cases hid : decision.approvalId with
  | none => exact habandon ⟨hserves, hstage, fun _ => huncreated hid⟩
  | some approvalId =>
      obtain ⟨hholding, request, hrequest, rfl⟩ := hcreated approvalId hid
      refine Routine.obeys_bind.mpr ?_
      refine obeys_approvalDelete hholding hrequest (habandon ⟨hserves, hstage, fun _ => rfl⟩)
        fun error => herr { s with undeleted := true } error ⟨hserves, hstage, fun hdeleted => ?_⟩
      exact absurd hdeleted (by simp)

theorem obeys_concludePolicy {a : Assessment} {ok : Appraisal → Unit → GuardrailDecision → Prop}
    (hs : Holds s e) (ha : s.Assessed e a)
    (hok : ∀ s' decision, s'.final host (.ok decision) → ok s' l decision)
    (herr : ∀ s' error, CanAbandon s' e → err s' l error) :
    Routine.Obeys (Appraisal.contract host) ok err s l (s.service.concludePolicy e a) := by
  -- The same ending for a decision with a request and for one without.
  have hend : ∀ created approvalId,
      (if DecisionSchema.outcomeOf a.policyOutput = .needsHuman ∧ e.options.dryRun = false then
        ∃ request, created = some request ∧ approvalId = some request.approvalId
      else created = none ∧ approvalId = none) →
      Routine.Obeys (Appraisal.contract host) ok err { s with created } l (do
        let final ← tryCatch
          (s.service.finalizeDecision e { policyDecision e a with approvalId } e.correlationId)
          (withdraw e { policyDecision e a with approvalId })
        remember e final) := by
    intro created approvalId hcreated
    simp only [Routine.obeys_bind, Routine.obeys_tryCatch]
    refine obeys_finalizeDecision (s := { s with created }) ?_ fun error => ?_
    · refine obeys_remember (s := { s with created }) hs.serves hs.stage
        (.inr ⟨a, approvalId, ⟨ha.admitted, ha.clean, ha.healthy, ha.reviewed, ha.risk,
          ha.riskAnswer, ha.policy⟩, rfl, ?_⟩) fun s' => hok s' _
      split_ifs at hcreated ⊢
      · exact hcreated
      · exact hcreated.2
    · refine obeys_withdraw (s := { s with created }) hs.serves hs.canAbandon.stage
        (fun hid => ?_) (fun id hid => ?_) herr
      · split_ifs at hcreated with hhuman
        · obtain ⟨request, -, rfl⟩ := hcreated
          cases hid
        · exact hcreated.1
      · split_ifs at hcreated with hhuman
        · obtain ⟨request, rfl, rfl⟩ := hcreated
          have hstage := hs.stage
          rw [hhuman.2, if_neg Bool.false_ne_true] at hstage
          exact ⟨hstage, request, rfl, by simpa using hid⟩
        · rw [hcreated.2] at hid
          cases hid
  unfold GuardrailService.concludePolicy
  by_cases hhuman : DecisionSchema.outcomeOf a.policyOutput = .needsHuman ∧
      e.options.dryRun = false
  · rw [if_pos (by simpa [policyDecision] using hhuman)]
    have hstage := hs.stage
    rw [hhuman.2, if_neg Bool.false_ne_true] at hstage
    rw [Routine.obeys_bind]
    refine obeys_requestHumanApproval hs.serves hstage hs.uncreated ha (fun request => ?_) ?_
    · refine hend (some request) (some request.approvalId) ?_
      rw [if_pos hhuman]
      exact ⟨request, rfl, rfl⟩
    · intro s' error hserves hstage hcleared
      refine herr s' error ⟨hserves, ?_, hcleared⟩
      rw [hhuman.2, if_neg Bool.false_ne_true]
      exact .inl hstage
  · rw [if_neg (by simpa [policyDecision] using hhuman)]
    have := hend s.created none (by rw [if_neg hhuman]; exact ⟨hs.uncreated, rfl⟩)
    exact this

/-- What a call does once it holds its scope, or as a dry run. -/
theorem obeys_evaluateReserved {ok : Appraisal → Unit → GuardrailDecision → Prop}
    (hs : Holds s e) (hadmitted : s.service.intentRefusal e.intent = none)
    (hok : ∀ s' decision, s'.final host (.ok decision) → ok s' l decision)
    (herr : ∀ s' error, s'.final host (.error error) → err s' l error) :
    Routine.Obeys (Appraisal.contract host) ok err s l (s.service.evaluateReserved e) := by
  have habandon : ∀ s' error, CanAbandon s' e → Routine.Obeys (Appraisal.contract host) ok
      err s' l (abandonAndRethrow e error) :=
    fun s' error hs' => obeys_abandonAndRethrow hs' fun s'' error hs'' hstage =>
      herr s'' error (hs''.failed hstage error)
  generalize hservice : s.service = service
  simp only [GuardrailService.evaluateReserved, Routine.obeys_tryCatch, Routine.obeys_bind]
  rw [← hservice]
  refine obeys_assess hs.working hs.serves hadmitted ?_ ?_
  · refine ⟨fun s' decision hsame hdenies => ?_, fun s' error hsame => ?_⟩
    · have hs' := hsame.holds hs
      rw [← hsame.service]
      exact obeys_conclude hs' hdenies hok habandon
    · exact habandon s' error (hsame.holds hs).canAbandon
  · intro s' a hsame ha
    rw [← hsame.service]
    exact obeys_concludePolicy (hsame.holds hs) ha hok habandon

theorem obeys_replay {decision : GuardrailDecision}
    {ok : Appraisal → Unit → GuardrailDecision → Prop}
    (hserves : s.evaluation host = some e) (hdry : e.options.dryRun = false)
    (hstage : s.stage = .replaying decision)
    (hok : ∀ decision, s.final host (.ok decision) → ok s l decision)
    (herr : ∀ error, err s l error) :
    Routine.Obeys (Appraisal.contract host) ok err s l (s.service.replay e decision) := by
  refine obeys_finalizeDecision (hok _ ?_) herr
  simp only [Appraisal.final, hstage, hdry]
  exact ⟨e, hserves, rfl⟩

theorem obeys_evaluateOnce {ok : Appraisal → Unit → GuardrailDecision → Prop}
    (hserves : s.evaluation host = some e) (hstage : s.stage = .before)
    (huncreated : s.created = none) (hadmitted : s.service.intentRefusal e.intent = none)
    (hok : ∀ s' decision, s'.final host (.ok decision) → ok s' l decision)
    (herr : ∀ s' error, s'.final host (.error error) → err s' l error) :
    Routine.Obeys (Appraisal.contract host) ok err s l (s.service.evaluateOnce e) := by
  obtain ⟨-, -, -, -, -, hoptions, -⟩ := Appraisal.evaluation_some hserves
  unfold GuardrailService.evaluateOnce
  split_ifs with hdry
  · refine obeys_evaluateReserved ⟨hserves, ?_, huncreated⟩ hadmitted hok herr
    rw [if_pos hdry]
    exact hstage
  rw [Bool.not_eq_true] at hdry
  simp only [Routine.obeys_bind, Routine.obeys_perform]
  refine ⟨⟨hstage, by rw [← hoptions]; exact hdry, e, hserves, rfl, rfl, hadmitted⟩,
    fun found => ?_⟩
  have hserves' : ∀ found, (s.next (.lookup e.scope e.payloadHash : Op host) found).evaluation host
      = some e :=
    Appraisal.evaluation_next hserves (.lookup _ _) (by simp)
  cases found with
  | conflict =>
      refine obeys_finalizeDecision (hok _ _ ?_) fun error => herr _ _ ⟨rfl, fun _ => huncreated⟩
      simp only [Appraisal.final]
      exact ⟨e, hserves' .conflict, by rw [hdry]⟩
  | complete decision =>
      exact obeys_replay (hserves' (.complete decision)) hdry rfl (hok _)
        fun error => herr _ _ ⟨rfl, fun _ => huncreated⟩
  | pending promise =>
      simp only [Routine.obeys_bind, Routine.obeys_perform, Routine.obeys_ofExcept]
      refine ⟨rfl, fun answer => ⟨fun decision hanswer => ?_, fun error hanswer => ?_⟩⟩
      · subst hanswer
        refine obeys_replay ?_ hdry rfl (hok _) fun error => herr _ _ ⟨rfl, fun _ => huncreated⟩
        exact Appraisal.evaluation_next (hserves' (.pending promise)) (.pendingDecision promise)
          (by simp) (.ok decision)
      · subst hanswer
        exact herr _ _ ⟨rfl, fun _ => huncreated⟩
  | absent =>
      simp only [Routine.obeys_bind]
      refine ⟨⟨rfl, hoptions ▸ hdry, e, hserves' .absent, rfl, rfl⟩, fun _ => ?_⟩
      refine obeys_evaluateReserved ⟨?_, ?_, huncreated⟩ hadmitted hok herr
      · exact Appraisal.evaluation_next (hserves' .absent) (.reserve e.scope e.payloadHash)
          (by simp) ()
      · rw [hdry, if_neg Bool.false_ne_true]
        rfl

/-- The evaluation of a call is known once the clock was read. -/
theorem evaluation_of_parse {correlationId : String} {t : Instant} {intent : TradingIntent host}
    (hcorrelation : s.options.correlationId.or s.generated = some correlationId)
    (hstart : s.startedAt = some t)
    (hparse : TradingIntent.safeParse host s.rawIntent = some intent) :
    s.evaluation host = some {
      intent := intent
      options := s.options
      correlationId := correlationId
      now := host.toISOString t
      scope := idempotencyScope intent
      payloadHash := stableJson host (s.rawIntent.getD .null) } := by
  simp only [Appraisal.evaluation, hparse, hcorrelation, hstart]

/-- The evaluation of an intent whose correlation id is known. -/
theorem obeys_evaluateFrom {correlationId : String}
    (hstage : s.stage = .before) (huncreated : s.created = none) (hstart : s.startedAt = none)
    (hcorrelation : s.options.correlationId.or s.generated = some correlationId) :
    Routine.Obeys (Appraisal.contract host) (fun s _ r => s.final host (.ok r))
      (fun s _ error => s.final host (.error error)) s l (do
        let now := host.toISOString (← Script.now)
        match TradingIntent.safeParse host s.rawIntent with
        | none =>
            s.service.finalizeInvalidDecision s.options (denial "" correlationId
              ((host.intentIssues s.rawIntent).map (reason "schema_validation")) now)
        | some intent => match s.service.intentRefusal intent with
          | some (rule, message) =>
              s.service.finalizeInvalidDecision s.options
                (denial intent.intentId correlationId [reason rule message] now)
          | none => do
              let evaluation : Evaluation host :=
                { intent, options := s.options, correlationId, now
                  scope := idempotencyScope intent
                  payloadHash := stableJson host (s.rawIntent.getD .null) }
              Script.auditWrite (GuardrailService.receivedEvent evaluation)
              s.service.evaluateOnce evaluation) := by
  simp only [Routine.obeys_bind, Script.obeys_now]
  refine ⟨.inl hstage, fun t => ?_⟩
  have hnext : s.next (.now : Op host) t = { s with startedAt := some t } := by
    simp only [Appraisal.next, hstart]
    rfl
  rw [hnext]
  have hinvalid : ∀ intentId reasons, Routine.Obeys (Appraisal.contract host)
      (fun s _ r => s.final host (.ok r)) (fun s _ error => s.final host (.error error))
      { s with startedAt := some t } l (s.service.finalizeInvalidDecision s.options
        (denial intentId correlationId reasons (host.toISOString t))) := by
    intro intentId reasons
    simp only [GuardrailService.finalizeInvalidDecision, Routine.obeys_bind]
    refine Script.obeys_auditWrite (Appraisal.inert_auditWrite _ (plain_evaluationEvent ..)) ?_ ?_
    · simp only [Routine.obeys_pure, Appraisal.final, hstage]
      exact .inl ⟨rfl, rfl⟩
    · intro error
      exact ⟨by simp only [hstage]; rfl, fun _ => huncreated⟩
  cases hparse : TradingIntent.safeParse host s.rawIntent with
  | none => exact hinvalid _ _
  | some intent =>
      dsimp only
      cases hrefusal : s.service.intentRefusal intent with
      | some refusal => exact hinvalid _ _
      | none =>
          simp only [Routine.obeys_bind]
          have hserves := @evaluation_of_parse host { s with startedAt := some t } _ t _
            hcorrelation rfl hparse
          refine Script.obeys_auditWrite
            (Appraisal.inert_auditWrite _ (plain_evaluationEvent ..)) ?_ fun error => ?_
          · exact obeys_evaluateOnce hserves hstage huncreated hrefusal (fun _ _ h => h)
              fun _ _ h => h
          · exact ⟨by simp only [hstage]; rfl, fun _ => huncreated⟩

/-- Every evaluation obeys its contract. -/
theorem obeys_evaluate (service : GuardrailService) (rawIntent : Option Json)
    (options : EvaluationOptions) :
    Routine.Obeys (Appraisal.contract host) (fun s _ r => s.final host (.ok r))
      (fun s _ error => s.final host (.error error)) { service, rawIntent, options } ()
      (service.evaluate rawIntent options) := by
  unfold GuardrailService.evaluate
  cases hcorrelation : options.correlationId with
  | some correlationId =>
      exact obeys_evaluateFrom (s := { service, rawIntent, options }) rfl rfl rfl
        (by simp only [hcorrelation]; rfl)
  | none =>
      simp only [Routine.obeys_bind]
      refine ⟨rfl, fun id => ?_⟩
      have := @obeys_evaluateFrom host { service, rawIntent, options, generated := some id } () _
        rfl rfl rfl (by simp only [hcorrelation]; rfl)
      simp only [Routine.obeys_bind] at this
      exact this

end TradingGuardrails
