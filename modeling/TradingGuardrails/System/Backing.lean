import TradingGuardrails.System.Soundness

/-!
What stands behind a submission, from the evaluation to the connector: a decision for this
intent that was founded on a healthy policy, an accepted verdict and passing checks; and,
where it asked for a human, the very request that the evaluation created, approved and
used up by the call that submits.
-/
namespace TradingGuardrails

open Text Interleaving

variable {host : Host} {dep : Deployment} {cfg : Config (signature host)}

/-- The evaluation behind a decision, as it stands at a moment of a run. -/
structure Evaluated (dep : Deployment) (moment : Config (signature host))
    (intent evaluated : TradingIntent host) (decision : GuardrailDecision) (c' : Nat)
    (e : Evaluation host) (a : Assessment) : Prop where
  same : Json.Equiv intent.value evaluated.value
  sound : ∃ c p rawIntent options, options.dryRun = false ∧
    .returned c (.decided (.ok decision)) ∈ moment.log ∧
    DecisionSound dep moment c p rawIntent options decision evaluated c' e a

/-- The call has used up the request that an evaluation created for its decision. -/
structure Escalated (dep : Deployment) (cfg moment : Config (signature host)) (c c' : Nat)
    (evaluated : TradingIntent host) (decision : GuardrailDecision)
    (request row : ApprovalRequest) : Prop where
  requested : Requested moment c' evaluated decision request
  consumed : Consumes dep cfg moment.log c request.approvalId row
  same : ApprovalDatabase.SameRequest request row

structure Backed (dep : Deployment) (cfg moment : Config (signature host)) (c : Nat)
    (intent : TradingIntent host) : Prop where
  reachable : (dep.system host).Reachable moment
  rest : ∃ steps, (dep.system host).exec moment steps = cfg
  backed : ∃ p approval authorization decision evaluated c' e a,
    entryOf c moment.log = some (p, .execute approval authorization) ∧
    Authorized dep moment.log c p approval intent decision ∧
    Evaluated dep moment intent evaluated decision c' e a ∧
    (decision.outcome = .needsHuman →
      ∃ request row, Escalated dep cfg moment c c' evaluated decision request row)

namespace Backing

/-- What a call has established about its decision when it enters the connector. -/
theorem authorized_of_entered (hhost : host.Lawful) (h : (dep.system host).Reachable cfg)
    {secret : String} (hsecret : dep.SharesSecret secret) (hsafe : Unforgeable secret cfg.log)
    {newer older : History host} {c : Nat} {intent : TradingIntent host}
    (hlog : cfg.log = newer ++ .did c (.enterConnector intent) () :: older) :
    ∃ p approval authorization decision,
      entryOf c older = some (p, .execute approval authorization) ∧
      Authorized dep older c p approval intent decision := by
  obtain ⟨p, approval, authorization, startedAt, s, hentering⟩ := Authority.entering h hlog
  obtain ⟨before, -, -, hbefore, rfl, -, -⟩ := h.past hlog
  have hadmitted := Authority.admitted_of_refusal hentering.may.decision
  rw [hentering.broker] at hadmitted
  obtain ⟨later, earlier, hstart⟩ := Authority.start_of_entry hentering.entry
  have hlog' : cfg.log = (newer ++ .did c (.enterConnector intent) () :: later) ++
      .started c p (.execute approval authorization) :: earlier := by
    rw [hlog, hstart, List.append_assoc, List.cons_append]
  have hlater : before.log =
      (later ++ [.started c p (.execute approval authorization)]) ++ earlier := by
    rw [hstart, List.append_assoc, List.singleton_append]
  obtain ⟨decision, hdecided, houtcome, hcorrelation, hdecidedAt, happroval⟩ :=
    Authority.admitted_decided h hsecret hsafe hlog' hentering.parsed hadmitted
  obtain ⟨requests, -, hlisted⟩ := hentering.may.listed
  have hfresh := hadmitted.fresh
  simp only [hdecidedAt] at hfresh
  obtain ⟨decidedAt, hms, hage, hfuture⟩ := Authority.not_stale hhost hfresh
  refine ⟨p, approval, authorization, decision, hentering.entry, hentering.parsed,
    Authority.decided_later hbefore hlater hdecided,
    ⟨houtcome, hcorrelation, hdecidedAt, Authority.approvalId_eq hlisted happroval⟩,
    hadmitted.environment, ?_, startedAt, decidedAt, hentering.started, hms, hage, hfuture⟩
  rw [show intent.environment = _ from hadmitted.environment]
  exact hadmitted.production

/-- The evaluation behind the decision that a call was authorized by. -/
theorem evaluated_of_authorized (h : (dep.system host).Reachable cfg) {c p : Nat}
    {approval : Json} {intent : TradingIntent host} {decision : GuardrailDecision}
    (hauthorized : Authorized dep cfg.log c p approval intent decision) :
    ∃ evaluated c' e a, Evaluated dep cfg intent evaluated decision c' e a := by
  obtain ⟨c₁, p₁, rawIntent, options, evaluated, hentry₁, hdry, hreturned, hparsed, hequiv⟩ :=
    hauthorized.decided.returned
  have hnot : decision.outcome ≠ .deny := by
    intro hdeny
    rcases hauthorized.decided.outcome with hallow | hneeds
    · exact absurd (hdeny.symm.trans hallow) (by simp)
    · exact absurd (hdeny.symm.trans hneeds) (by simp)
  obtain ⟨p₂, rawIntent', options', evaluated', c', e, a, hsound⟩ :=
    Soundness.sound_of_returned h hreturned hnot
  cases hentry₁.symm.trans hsound.entry
  cases hparsed.symm.trans hsound.acceptable.parsed
  exact ⟨evaluated, c', e, a, hequiv, c₁, p₁, rawIntent, options, hdry, hreturned, hsound⟩

end Backing

theorem execution_backed (hhost : host.Lawful) (h : (dep.system host).Reachable cfg)
    {secret : String} (hsecret : dep.SharesSecret secret) (hsafe : Unforgeable secret cfg.log)
    {newer older : History host} {c : Nat} {intent : TradingIntent host}
    (hlog : cfg.log = newer ++ .did c (.enterConnector intent) () :: older) :
    ∃ moment, moment.log = older ∧ Backed dep cfg moment c intent := by
  obtain ⟨p, approval, authorization, decision, hentry, hauthorized⟩ :=
    Backing.authorized_of_entered hhost h hsecret hsafe hlog
  have hgated := @HumanApproval.backed_of_entered _ _ _ hhost h _ _ _ _ _ _ _ hlog hentry
  obtain ⟨moment, step, steps, hmoment, rfl, -, rfl⟩ := h.past hlog
  obtain ⟨evaluated, c', e, a, hevaluated⟩ := Backing.evaluated_of_authorized hmoment hauthorized
  obtain ⟨c₁, p₁, rawIntent, options, hdry, hreturned, hsound⟩ := hevaluated.sound
  refine ⟨moment, rfl, hmoment, ⟨step :: steps, rfl⟩, p, approval, authorization, decision,
    evaluated, c', e, a, hentry, hauthorized, hevaluated, fun hneeds => ?_⟩
  -- The approval that the call names is the one that the evaluation asked for.
  obtain ⟨request, hrequested⟩ := hsound.human hdry hneeds
  have houtcome : approval.field? "outcome" = some (.str "needs_human") := by
    rw [hauthorized.repeats.outcome, hneeds]
    rfl
  obtain ⟨approvalId, row, hid, hconsumes, -⟩ := hgated (.inl houtcome)
  have hnamed := hauthorized.repeats.approvalId
  rw [hid, hrequested.approvalId] at hnamed
  cases hnamed
  refine ⟨request, row, hrequested, hconsumes, ?_⟩
  obtain ⟨params, hcreated⟩ := hrequested.created
  obtain ⟨-, created, hcreation, ⟨between, hbetween⟩, hstored⟩ :=
    Soundness.stored_of_created hmoment hcreated
  obtain ⟨newer', before, after, consumption, -, hafter, hrest, -, -, hspends⟩ := hconsumes
  have hreach : (dep.system host).exec created (between ++ step :: steps) =
      (dep.system host).exec ((dep.system host).step moment step) steps := by
    rw [← hbetween]
    exact List.foldl_append
  have hsame := HumanApproval.same_request hcreation hafter ⟨_, hreach⟩ hrest hstored
    hspends.consumed
  exact hsame

def escalatedSteps : List (Step (signature digestHost)) :=
  .start 0 (.evaluate (some simulationIntent) { correlationId := some "c" }) ::
    (quietly 0 4 ++ [told 0 (.bool true), told 0 simulationVerdict] ++ quietly 0 1 ++
      [told 0 simulationRisk] ++ quietly 0 1 ++ [told 0 escalation] ++ quietly 0 2 ++
      [.run 0 { Input.quiet with id := "a", timeout := soon }] ++ quietly 0 3 ++
      [.finish 0, .outside (.approve "a" "h" .start true),
        .start 0 (.execute humanDecision none)] ++ quietly 1 5 ++
      List.replicate 3 (told 1 (.bool false)) ++
      [told 1 (.record [("passed", some (.bool true))])] ++
      quietly 1 1 ++ List.replicate 3 (told 1 (.bool false)) ++ quietly 1 2)

set_option maxRecDepth 8000 in
theorem escalated_messages :
    messages (digestRun escalatedSteps).log = List.replicate 2
      (decisionTokenMessage digestHost simulationIntent (some (.str "needs_human"))
        (some (.str "c")) (some (.str "p")) (some (.str "a")) false) := by
  with_unfolding_all rfl

theorem execution_backed_escalated :
    ∃ newer older moment, (digestRun escalatedSteps).log =
        newer ++ .did 1 (.enterConnector simulationIntentOf) () :: older ∧
      moment.log = older ∧
      Backed paperDeployment (digestRun escalatedSteps) moment 1 simulationIntentOf := by
  have hrun : (digestRun escalatedSteps).log.any (submits 1 simulationIntentOf) = true ∧
      Unforged "0123456789012345678901234567890123456789"
        (messages (digestRun escalatedSteps).log) (digestRun escalatedSteps).log := by
    decide +kernel
  have hsafe : Unforgeable "0123456789012345678901234567890123456789"
      (digestRun escalatedSteps).log := by
    refine ⟨?_, hrun.2⟩
    rw [escalated_messages]
    intro message hmessage other hother _
    rw [List.eq_of_mem_replicate hmessage, List.eq_of_mem_replicate hother]
  obtain ⟨event, hevent, hsubmits⟩ := List.any_eq_true.mp hrun.1
  unfold submits at hsubmits
  split at hsubmits
  · rw [Bool.and_eq_true, beq_iff_eq, beq_iff_eq] at hsubmits
    obtain ⟨rfl, rfl⟩ := hsubmits
    obtain ⟨newer, older, hlog⟩ := List.append_of_mem hevent
    obtain ⟨moment, hmoment, hbacked⟩ := execution_backed digestHost_lawful
      (digestRun_reachable _) (fun _ => ⟨rfl, rfl⟩) hsafe hlog
    exact ⟨newer, older, moment, hlog, hmoment, hbacked⟩
  · cases hsubmits

end TradingGuardrails
