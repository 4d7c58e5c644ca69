import TradingGuardrails.Broker.Attempt

/-!
Every call of `execute` obeys its contract. Each part of the program has one lemma: what
must hold where it leaves for the program around it to obey.
-/
namespace TradingGuardrails

open Text Interleaving

variable {host : Host}

theorem plain_intentEvent (environment : Environment) (subject : Subject)
    (correlationId : Option Json) (eventType : AuditEventType) (data : Json) :
    Plain (intentEvent environment subject correlationId eventType data) :=
  plain_toJson rfl

namespace Attempt

variable {s : Attempt}

def Quiet (s : Attempt) : Prop :=
  s.stage = .before ∨ s.stage = .refused ∨ s.stage = .reserved

theorem inert_auditWrite (hs : s.Quiet) {event : Json} (hplain : Plain event) :
    (contract host).Inert s (.auditWrite event) := by
  refine ⟨by rcases hs with h | h | h <;> simpa only [allowed, h] using hplain, fun a => ?_⟩
  have hstage : s.stageAfter (.auditWrite event : Op host) a = s.stage := by
    rcases hs with h | h | h <;> simp only [stageAfter, h]
  simp only [next, hstage]
  rfl

theorem inert_killSwitchIsActive (hs : s.stage = .before ∨ s.stage = .reserved)
    (scope : KillSwitchScope) : (contract host).Inert s (.killSwitchIsActive scope) :=
  ⟨hs, fun _ => rfl⟩

end Attempt

section

variable {σ : Type} {s : Attempt} {l : σ} {err : Attempt → σ → Thrown → Prop}

theorem obeys_rejectRequest {broker : ExecutionBroker} {request : Request host}
    {rule message : String} {ok : Attempt → σ → Json → Prop} (hs : s.Quiet)
    (hok : ∀ reason, ok s l (rejectedResult (subjectOf request.intent) request.now reason))
    (herr : ∀ e, err s l e) :
    Routine.Obeys (Attempt.contract host) ok err s l
      (broker.rejectRequest request rule message) := by
  simp only [ExecutionBroker.rejectRequest, ExecutionBroker.reject, Routine.obeys_bind]
  exact Script.obeys_auditWrite (Attempt.inert_auditWrite hs (plain_intentEvent ..)) (hok _) herr

end

namespace Attempt

/-- Whether an exception that leaves the call here may free its key. -/
structure CanAbort (s : Attempt) (request : Request host) : Prop where
  serves : s.request host = some request
  abort : ∀ error, s.allowed (.abort request.handle error : Op host)

theorem startedAt_of_request {s : Attempt} {request : Request host}
    (h : s.request host = some request) : ∃ startedAt, s.startedAt = some startedAt := by
  unfold Attempt.request at h
  cases hstart : s.startedAt with
  | none => simp [hstart] at h
  | some startedAt => exact ⟨startedAt, rfl⟩

theorem request_next {s : Attempt} {request : Request host} (h : s.request host = some request)
    (op : Op host) (a : Ans host op) : (s.next op a).request host = some request := by
  obtain ⟨startedAt, hstart⟩ := startedAt_of_request h
  have hnext : (s.next op a).startedAt = s.startedAt := by
    cases op <;> simp [next, hstart]
  unfold Attempt.request at h ⊢
  rw [hnext]
  exact h

theorem canAbort {s : Attempt} {request : Request host} (hreq : s.request host = some request)
    (hs : s.stage = .reserved ∨ ∃ freed, s.stage = .closed freed) : s.CanAbort request := by
  refine ⟨hreq, fun error => ⟨request, hreq, rfl, ?_⟩⟩
  rcases hs with h | ⟨freed, h⟩ <;> simp only [h]

end Attempt

section

variable {broker : ExecutionBroker} {request : Request host} {s : Attempt} {l : Flags}
  {err : Attempt → Flags → Thrown → Prop}

theorem obeys_finish {reason : String} {ok : Attempt → Flags → Json → Prop}
    (hreq : s.request host = some request) (hs : s.stage = .reserved)
    (hok : ∀ s' freed, s'.stage = .closed freed → ok s' { l with reservationCompleted := true }
      (rejectedResult (subjectOf request.intent) request.now reason))
    (herr : ∀ s' e, s'.CanAbort request → err s' l e) :
    Routine.Obeys (Attempt.contract host) ok err s l
      (ExecutionBroker.finish request.handle
        (rejectedResult (subjectOf request.intent) request.now reason)) := by
  simp only [ExecutionBroker.finish, Routine.obeys_bind, Routine.obeys_perform]
  refine ⟨⟨request, hreq, rfl, ?_⟩, fun a => ?_⟩
  · simp only [hs]
    exact ⟨by simp [rejectedResult], reason, rfl⟩
  · rw [Routine.obeys_ofExcept]
    refine ⟨fun _ _ => hok _ _ rfl, fun e _ => herr _ _ ?_⟩
    exact Attempt.canAbort (Attempt.request_next hreq _ _) (.inr ⟨_, rfl⟩)

theorem obeys_abortReservation {error : Thrown} {ok : Attempt → Flags → Unit → Prop}
    (hs : s.CanAbort request) (hok : ∀ s' freed, s'.stage = .closed freed → ok s' l ())
    (herr : ∀ s' e, s'.CanAbort request → err s' l e) :
    Routine.Obeys (Attempt.contract host) ok err s l
      (ExecutionBroker.abortReservation request.handle error) := by
  simp only [ExecutionBroker.abortReservation, Routine.obeys_bind, Routine.obeys_perform]
  refine ⟨hs.abort error, fun a => ?_⟩
  rw [Routine.obeys_ofExcept]
  refine ⟨fun _ _ => hok _ _ rfl, fun e _ => herr _ _ ?_⟩
  exact Attempt.canAbort (Attempt.request_next hs.serves _ _) (.inr ⟨_, rfl⟩)

theorem obeys_rejectAndAbort {rule message : String} {ok : Attempt → Flags → Option Json → Prop}
    (hreq : s.request host = some request) (hs : s.stage = .reserved)
    (hok : ∀ s' reason freed, s'.stage = .closed freed →
      ok s' { l with reservationCompleted := true }
        (some (rejectedResult (subjectOf request.intent) request.now reason)))
    (herr : ∀ s' e, s'.CanAbort request → err s' l e) :
    Routine.Obeys (Attempt.contract host) ok err s l
      (broker.rejectAndAbort request request.handle rule message) := by
  have habort := Attempt.canAbort hreq (.inl hs)
  simp only [ExecutionBroker.rejectAndAbort, Routine.obeys_bind]
  refine obeys_rejectRequest (.inr (.inr hs)) (fun reason => ?_) fun e => herr _ _ habort
  exact obeys_abortReservation habort (fun s' freed hs' => hok s' reason freed hs') herr

theorem obeys_rejectAndFinish {rule message : String} {ok : Attempt → Flags → Option Json → Prop}
    (hreq : s.request host = some request) (hs : s.stage = .reserved)
    (hok : ∀ s' reason freed, s'.stage = .closed freed →
      ok s' { l with reservationCompleted := true }
        (some (rejectedResult (subjectOf request.intent) request.now reason)))
    (herr : ∀ s' e, s'.CanAbort request → err s' l e) :
    Routine.Obeys (Attempt.contract host) ok err s l
      (broker.rejectAndFinish request request.handle rule message) := by
  have habort := Attempt.canAbort hreq (.inl hs)
  simp only [ExecutionBroker.rejectAndFinish, Routine.obeys_bind, Routine.obeys_map]
  refine obeys_rejectRequest (.inr (.inr hs)) (fun reason => ?_) fun e => herr _ _ habort
  exact obeys_finish hreq hs (fun s' freed hs' => hok s' reason freed hs') herr

theorem obeys_abortAndRethrow {α : Type} {error : Thrown} {ok : Attempt → Flags → α → Prop}
    (hs : l.reservationCompleted = false → l.terminalPersistenceStarted = false →
      s.CanAbort request)
    (herr : ∀ s' e, err s' l e) :
    Routine.Obeys (Attempt.contract host) ok err s l
      (ExecutionBroker.abortAndRethrow request.handle error : Script host Flags α) := by
  simp only [ExecutionBroker.abortAndRethrow, Routine.obeys_bind, Routine.obeys_get]
  split_ifs with hflags
  · simp only [Bool.and_eq_true, Bool.not_eq_true'] at hflags
    simp only [Routine.obeys_bind]
    refine obeys_abortReservation (hs hflags.1 hflags.2) ?_ ?_
    · exact fun s' _ _ => herr s' error
    · exact fun s' e _ => herr s' e
  · exact herr _ _

/-- How a gate may end: it lets the call pass, it refuses it and the key is closed, or an
exception leaves that may still free the key. -/
structure GateEnds (request : Request host) (l : Flags)
    (ok : Attempt → Flags → Option Json → Prop) (err : Attempt → Flags → Thrown → Prop) :
    Prop where
  refused : ∀ s' reason freed, s'.stage = .closed freed →
    ok s' { l with reservationCompleted := true }
      (some (rejectedResult (subjectOf request.intent) request.now reason))
  thrown : ∀ s' e, s'.CanAbort request → err s' l e

variable {ok : Attempt → Flags → Option Json → Prop}

theorem obeys_killSwitchGate (hreq : s.request host = some request) (hs : s.stage = .reserved)
    (ends : GateEnds request l ok err) (hok : ok s l none) :
    Routine.Obeys (Attempt.contract host) ok err s l
      (broker.killSwitchGate request request.handle) := by
  have hthrow := fun e => ends.thrown s e (Attempt.canAbort hreq (.inl hs))
  simp only [ExecutionBroker.killSwitchGate, Routine.obeys_bind]
  refine obeys_firstBlocking (Attempt.inert_killSwitchIsActive (.inr hs)) (fun r => ?_) hthrow _
  cases r with
  | none => exact hok
  | some scope =>
      simp only [Routine.obeys_bind]
      refine Script.obeys_auditWrite
        (Attempt.inert_auditWrite (.inr (.inr hs)) (plain_intentEvent ..)) ?_ hthrow
      exact obeys_rejectAndFinish hreq hs ends.refused ends.thrown

theorem obeys_revalidationGate (hreq : s.request host = some request) (hs : s.stage = .reserved)
    (ends : GateEnds request l ok err) (hok : ok { s with clock := none } l none) :
    Routine.Obeys (Attempt.contract host) ok err s l
      (broker.revalidationGate opaqueConnector request request.handle) := by
  let s' : Attempt := { s with clock := none }
  have hreq' : s'.request host = some request := hreq
  have hs' : s'.stage = .reserved := hs
  have hthrow := fun e => ends.thrown s' e (Attempt.canAbort hreq' (.inl hs'))
  have hwrite : ∀ {eventType data} {ok : Attempt → Flags → Unit → Prop}, ok s' l () →
      Routine.Obeys (Attempt.contract host) ok err s' l (Script.auditWrite (intentEvent
        broker.environment (subjectOf request.intent) request.correlationId eventType data)) :=
    fun hok => Script.obeys_auditWrite
      (Attempt.inert_auditWrite (.inr (.inr hs')) (plain_intentEvent ..)) hok hthrow
  simp only [ExecutionBroker.revalidationGate, opaqueConnector, Routine.obeys_bind,
    Routine.obeys_withLocals, Routine.obeys_perform]
  refine ⟨hs, fun reply => ?_⟩
  change Routine.Obeys (Attempt.contract host) _ _ s' _ _
  simp only [Routine.obeys_ofExcept]
  refine ⟨fun revalidation _ => ⟨fun passed _ => ⟨fun redacted _ => ?_, fun e _ => hthrow e⟩,
    fun e _ => hthrow e⟩, fun e _ => hthrow e⟩
  refine hwrite ?_
  split_ifs
  · exact hok
  · simp only [Routine.obeys_bind, Routine.obeys_ofExcept]
    refine ⟨fun reason _ => hwrite ?_, fun e _ => hthrow e⟩
    exact obeys_rejectAndFinish hreq' hs' ends.refused ends.thrown

theorem obeys_freshnessGate (hreq : s.request host = some request) (hs : s.stage = .reserved)
    (ends : GateEnds request l ok err)
    (hskip : broker.canaryOrder request.intent = false → ok s l none)
    (hfresh : ∀ t, dryRunIsFresh host (orEmpty request.dryRunCheckedAt) (host.toISOString t)
      broker.decisionMaxAgeMs = true → ok { s with clock := some t } l none) :
    Routine.Obeys (Attempt.contract host) ok err s l
      (broker.freshnessGate request request.handle) := by
  unfold ExecutionBroker.freshnessGate
  split_ifs with hcanary
  · simp only [Routine.obeys_bind, Script.obeys_now]
    refine ⟨.inr hs, fun t => ?_⟩
    have hreq' := Attempt.request_next hreq .now t
    split_ifs with hfine
    · have hnext : s.next (.now : Op host) t = { s with clock := some t } := by
        obtain ⟨startedAt, hstart⟩ := Attempt.startedAt_of_request hreq
        simp only [Attempt.next, hstart]
        rfl
      rw [hnext]
      exact hfresh t hfine
    · exact obeys_rejectAndAbort hreq' hs ends.refused ends.thrown
  · exact hskip (by simpa using hcanary)

theorem obeys_consumptionGate (hreq : s.request host = some request) (hs : s.stage = .reserved)
    (ends : GateEnds request l ok err)
    (hskip : (∀ approvalId, request.approvalId ≠ some (.str approvalId)) → ok s l none)
    (hconsumed : ∀ approvalId consumption r, request.approvalId = some (.str approvalId) →
      consumption.request = some r →
      ok { s with consumed := some (approvalId, consumption) } l none) :
    Routine.Obeys (Attempt.contract host) ok err s l
      (broker.consumptionGate request request.handle) := by
  unfold ExecutionBroker.consumptionGate
  split
  · rename_i approvalId hid
    simp only [Script.consumeOneTime, Routine.obeys_bind, Routine.obeys_perform]
    refine ⟨hs, fun a => ?_⟩
    have hreq' := Attempt.request_next hreq (.approvalConsumeOneTime approvalId) a
    rw [Routine.obeys_ofExcept]
    refine ⟨fun consumption ha => ?_, fun e _ => ?_⟩
    · subst ha
      rw [Routine.obeys_pure]
      cases hr : consumption.request with
      | none => exact obeys_rejectAndFinish hreq' hs ends.refused ends.thrown
      | some r => exact hconsumed approvalId consumption r hid hr
    · exact ends.thrown _ _ (Attempt.canAbort hreq' (.inl hs))
  · rename_i hid
    exact hskip hid

theorem obeys_gates_cons {gate : Script host Flags (Option Json)}
    {gates : List (Script host Flags (Option Json))} :
    Routine.Obeys (Attempt.contract host) ok err s l (ExecutionBroker.gates (gate :: gates)) ↔
      Routine.Obeys (Attempt.contract host) (fun s l r => match r with
        | some result => ok s l (some result)
        | none => Routine.Obeys (Attempt.contract host) ok err s l
            (ExecutionBroker.gates gates)) err s l gate := by
  simp only [ExecutionBroker.gates, Routine.obeys_bind]
  constructor
  · intro h
    refine h.mono (fun s l r hr => ?_) fun _ _ _ he => he
    cases r with
    | none => exact hr
    | some result => exact hr
  · intro h
    refine h.mono (fun s l r hr => ?_) fun _ _ _ he => he
    cases r with
    | none => exact hr
    | some result => exact hr

theorem obeys_approvalGate {approvalId : String} (hreq : s.request host = some request)
    (hs : s.stage = .reserved) (ends : GateEnds request l ok err)
    (hok : ∀ approved t, approved.state = .approved → approved.approvalType = .oneTime →
      ExecutionBroker.approvalMatchesIntent approved request.intent
        request.correlationId = true →
      ok { s with found := some (approvalId, some approved), clock := some t } l none) :
    Routine.Obeys (Attempt.contract host) ok err s l
      (broker.approvalGate request request.handle approvalId) := by
  simp only [ExecutionBroker.approvalGate, Script.approvalGet, Routine.obeys_bind,
    Routine.obeys_perform]
  refine ⟨hs, fun a => ?_⟩
  have hreq' := Attempt.request_next hreq (.approvalGet approvalId) a
  rw [Routine.obeys_ofExcept]
  refine ⟨fun found ha => ?_, fun e _ => ends.thrown _ _ (Attempt.canAbort hreq' (.inl hs))⟩
  subst ha
  cases found with
  | none => exact obeys_rejectAndAbort hreq' hs ends.refused ends.thrown
  | some approved =>
      dsimp only
      by_cases hconsumed : approved.state = .consumed
      · rw [if_pos hconsumed]
        exact obeys_rejectAndFinish hreq' hs ends.refused ends.thrown
      rw [if_neg hconsumed]
      by_cases hstate : approved.state = .approved
      · rw [if_neg (not_not.mpr hstate)]
        simp only [Routine.obeys_bind, Script.obeys_now]
        refine ⟨.inr hs, fun t => ?_⟩
        have hreq'' := Attempt.request_next hreq' .now t
        split_ifs with htime hmatch
        · exact obeys_rejectAndFinish hreq'' hs ends.refused ends.thrown
        · exact obeys_rejectAndFinish hreq'' hs ends.refused ends.thrown
        · rw [not_or, not_not, Bool.not_eq_true', Bool.not_eq_false] at hmatch
          obtain ⟨startedAt, hstart⟩ := Attempt.startedAt_of_request hreq
          have hnext : (s.next (.approvalGet approvalId : Op host) (.ok (some approved))).next
              (.now : Op host) t =
              { s with found := some (approvalId, some approved), clock := some t } := by
            simp only [Attempt.next, hstart]
            rfl
          rw [hnext]
          exact hok approved t hstate hmatch.1 hmatch.2
      · rw [if_pos hstate]
        exact obeys_rejectAndAbort hreq' hs ends.refused ends.thrown

structure Admitted (s : Attempt) (request : Request host) : Prop where
  reserved : s.stage = .reserved
  serves : s.request host = some request
  begun : s.MayBegin request
  receipt : s.broker.canaryOrder request.intent = true →
    dryRunAuthorizationMatches host request.dryRunAuthorization
      s.broker.decisionVerificationSecret request.intent request.now
      s.broker.decisionMaxAgeMs = .ok true
  found : ∀ approvalId, request.approvalId = some (.str approvalId) →
    ∃ approved, s.found = some (approvalId, some approved) ∧ approved.state = .approved ∧
      approved.approvalType = .oneTime ∧
      ExecutionBroker.approvalMatchesIntent approved request.intent request.correlationId = true

/-- What follows the canary receipt: the receipt has to match, and an approval that the
decision names has to be granted. -/
theorem obeys_receiptGate (hbroker : s.broker = broker) (hreq : s.request host = some request)
    (hs : s.stage = .reserved) (hbegun : s.MayBegin request) (ends : GateEnds request l ok err)
    (hok : ∀ s' : Attempt, s'.broker = broker → Admitted s' request → ok s' l none)
    (matching : Bool)
    (hreceipt : broker.canaryOrder request.intent = true → matching = true →
      dryRunAuthorizationMatches host request.dryRunAuthorization
        broker.decisionVerificationSecret request.intent request.now
        broker.decisionMaxAgeMs = .ok true) :
    Routine.Obeys (Attempt.contract host) ok err s l
      (if (!matching) = true then
        broker.rejectAndAbort request request.handle "dry_run_required"
          "A fresh successful dry-run report is required for this live order."
      else match request.approvalId with
        | some (.str approvalId) => broker.approvalGate request request.handle approvalId
        | _ => pure none) := by
  subst hbroker
  split_ifs with hmatching
  · exact obeys_rejectAndAbort hreq hs ends.refused ends.thrown
  · rw [Bool.not_eq_true', Bool.not_eq_false] at hmatching
    split
    · rename_i approvalId hid
      refine obeys_approvalGate hreq hs ends fun approved t hstate htype hmatch => ?_
      refine hok _ rfl ⟨hs, hreq, ⟨hbegun.decision, hbegun.listed⟩,
        fun hcanary => hreceipt hcanary hmatching, ?_⟩
      intro approvalId' hid'
      rw [hid, Option.some.injEq, Json.str.injEq] at hid'
      subst hid'
      exact ⟨approved, rfl, hstate, htype, hmatch⟩
    · rename_i hid
      exact hok s rfl ⟨hs, hreq, hbegun, fun hcanary => hreceipt hcanary hmatching,
        fun approvalId hid' => absurd hid' (hid approvalId)⟩

theorem obeys_admission (hbroker : s.broker = broker) (hreq : s.request host = some request)
    (hs : s.stage = .reserved) (hbegun : s.MayBegin request) (ends : GateEnds request l ok err)
    (hok : ∀ s' : Attempt, s'.broker = broker → Admitted s' request → ok s' l none) :
    Routine.Obeys (Attempt.contract host) ok err s l
      (broker.admission request request.handle) := by
  have hrest := obeys_receiptGate hbroker hreq hs hbegun ends hok
  unfold ExecutionBroker.admission
  split_ifs with hcanary
  · rw [Routine.obeys_bind, Routine.obeys_ofExcept]
    refine ⟨fun matching hm => hrest matching fun _ htrue => ?_,
      fun e _ => ends.thrown _ _ (Attempt.canAbort hreq (.inl hs))⟩
    rw [hm, htrue]
  · rw [Routine.obeys_bind]
    exact hrest true fun h => absurd h hcanary

end

section

variable {broker : ExecutionBroker} {request : Request host} {s : Attempt} {l : Flags}
  {err : Attempt → Flags → Thrown → Prop} {ok : Attempt → Flags → Json → Prop}

theorem obeys_finishExecutionWithAudit {reply : Reply} {record : Record}
    (hreq : s.request host = some request) (hs : s.stage = .entered (some reply))
    (hrecord : s.broker.recordOf request reply = .ok record)
    (hok : ∀ s' l', s'.stage = .released record → ok s' l' record.result)
    (herr : ∀ s' l' e, l'.terminalPersistenceStarted = true → err s' l' e) :
    Routine.Obeys (Attempt.contract host) ok err s l
      (ExecutionBroker.finishExecutionWithAudit request.handle record) := by
  simp only [ExecutionBroker.finishExecutionWithAudit, Routine.obeys_bind, Routine.obeys_modify,
    Routine.obeys_perform]
  refine ⟨⟨request, hreq, rfl, by simpa only [hs] using hrecord⟩, fun completion => ?_⟩
  have hreq₁ := Attempt.request_next hreq
    (.complete request.handle record.result (some record.event)) completion
  refine ⟨rfl, fun written => ?_⟩
  have hreq₂ := Attempt.request_next hreq₁ (.auditWrite record.event) written
  cases written with
  | error e =>
      simp only [Routine.obeys_bind]
      exact ⟨⟨request, record, hreq₂, rfl, rfl⟩, fun _ => herr _ _ _ rfl⟩
  | ok u =>
      simp only [Routine.obeys_bind, Routine.obeys_ofExcept, Routine.obeys_perform,
        Routine.obeys_pure]
      refine ⟨fun _ hcompletion => ⟨⟨request, record, hreq₂, rfl, ?_⟩, fun a => ?_⟩,
        fun e _ => herr _ _ _ rfl⟩
      · rw [hcompletion]
        rfl
      · refine ⟨fun _ ha => hok _ _ ?_, fun e _ => herr _ _ _ rfl⟩
        subst ha
        rfl

theorem obeys_submit (hreq : s.request host = some request) (hs : s.stage = .reserved)
    (henter : s.MayEnter request)
    (hok : ∀ s' l' record, s'.stage = .released record → ok s' l' record.result)
    (herr : ∀ s' e, s'.CanAbort request → err s' l e)
    (hlate : ∀ s' l' e, l'.terminalPersistenceStarted = true → err s' l' e) :
    Routine.Obeys (Attempt.contract host) ok err s l
      (s.broker.submit opaqueConnector request request.handle) := by
  simp only [ExecutionBroker.submit, opaqueConnector, Routine.obeys_bind, Routine.obeys_perform,
    Routine.obeys_tryCatch, Routine.obeys_map, Routine.obeys_withLocals]
  refine ⟨⟨hs, request, hreq, rfl, henter⟩, fun _ => ⟨rfl, fun reply => ?_⟩⟩
  have hreq₁ := Attempt.request_next hreq (.enterConnector request.intent) ()
  have hreq₂ := Attempt.request_next hreq₁ (.connectorResult request.intent) reply
  have hrecord : Routine.Obeys (Attempt.contract host) ok err
      ((s.next (.enterConnector request.intent) ()).next (.connectorResult request.intent) reply)
      l (do
        let record ← Routine.ofExcept (s.broker.recordOf request reply)
        ExecutionBroker.finishExecutionWithAudit request.handle record) := by
    rw [Routine.obeys_bind, Routine.obeys_ofExcept]
    refine ⟨fun record hrecord => ?_, fun e he => herr _ _ ⟨hreq₂, fun _ => ?_⟩⟩
    · exact obeys_finishExecutionWithAudit hreq₂ rfl hrecord (fun s' l' => hok s' l' record)
        hlate
    · exact ⟨request, hreq₂, rfl, e, he⟩
  rw [Routine.obeys_bind] at hrecord
  cases reply with
  | ok evidence => exact hrecord
  | error e => exact hrecord

/-- The gates change nothing but the clock and the consumption of the approval. -/
theorem Admitted.mayEnter {s' : Attempt} (h : Admitted s request)
    (hs' : s' = { s with clock := s'.clock, consumed := s'.consumed })
    (hfresh : s.broker.canaryOrder request.intent = true → ∃ t, s'.clock = some t ∧
      dryRunIsFresh host (orEmpty request.dryRunCheckedAt) (host.toISOString t)
        s.broker.decisionMaxAgeMs = true)
    (hconsumed : ∀ approvalId, request.approvalId = some (.str approvalId) →
      ∃ consumption r, s'.consumed = some (approvalId, consumption) ∧
        consumption.request = some r) :
    s'.MayEnter request where
  decision := by rw [hs']; exact h.begun.decision
  listed := by rw [hs']; exact h.begun.listed
  receipt := by rw [hs']; exact h.receipt
  fresh := by rw [hs']; exact hfresh
  approved approvalId hid := ⟨by rw [hs']; exact h.found approvalId hid, hconsumed approvalId hid⟩

theorem obeys_executeReserved (hreq : s.request host = some request) (hs : s.stage = .reserved)
    (hbegun : s.MayBegin request) (hflags : l = {})
    (hok : ∀ s' l' result, s'.final (.ok result) → ok s' l' result)
    (herr : ∀ s' l' e, err s' l' e) :
    Routine.Obeys (Attempt.contract host) ok err s l
      (s.broker.executeReserved opaqueConnector request request.handle) := by
  subst hflags
  generalize hbroker : s.broker = broker
  have habort : ∀ {α : Type} {ok : Attempt → Flags → α → Prop} {s' : Attempt} {l' : Flags} e,
      (l'.reservationCompleted = false → l'.terminalPersistenceStarted = false →
        s'.CanAbort request) →
      Routine.Obeys (Attempt.contract host) ok err s' l'
        (ExecutionBroker.abortAndRethrow request.handle e) :=
    fun e h => obeys_abortAndRethrow h fun s' e => herr s' _ e
  have hclosed : ∀ (s' : Attempt) reason freed, s'.stage = .closed freed → s'.final
      (.ok (rejectedResult (subjectOf request.intent) request.now reason)) := by
    intro s' reason freed hs'
    simp [Attempt.final, hs', rejectedResult]
  simp only [ExecutionBroker.executeReserved, Routine.obeys_bind, Routine.obeys_tryCatch]
  refine obeys_admission hbroker hreq hs hbegun ?_ ?_
  · exact ⟨fun s' reason freed hs' => hok _ _ _ (hclosed s' reason freed hs'),
      fun s' e hs' => habort e fun _ _ => hs'⟩
  intro s₁ hbroker₁ h₁
  simp only [Routine.obeys_bind, Routine.obeys_tryCatch]
  have hends : ∀ {ok' : Attempt → Flags → Option Json → Prop},
      (∀ s' l' result, ok s' l' result → ok' s' l' (some result)) →
      GateEnds request {} ok' fun s' l' e => Routine.Obeys (Attempt.contract host) ok err s' l'
        (ExecutionBroker.abortAndRethrow request.handle e) :=
    fun hsome => ⟨fun s' reason freed hs' => hsome _ _ _ (hok _ _ _ (hclosed s' reason freed hs')),
      fun s' e hs' => habort e fun _ _ => hs'⟩
  rw [obeys_gates_cons]
  refine obeys_killSwitchGate h₁.serves h₁.reserved (hends fun _ _ _ h => h) ?_
  dsimp only
  rw [obeys_gates_cons]
  refine obeys_revalidationGate h₁.serves h₁.reserved (hends fun _ _ _ h => h) ?_
  dsimp only
  rw [obeys_gates_cons]
  have hreq₂ : ({ s₁ with clock := none } : Attempt).request host = some request := h₁.serves
  refine obeys_killSwitchGate hreq₂ h₁.reserved (hends fun _ _ _ h => h) ?_
  dsimp only
  rw [obeys_gates_cons]
  have hrest : ∀ clock, (broker.canaryOrder request.intent = true → ∃ t, clock = some t ∧
      dryRunIsFresh host (orEmpty request.dryRunCheckedAt) (host.toISOString t)
        broker.decisionMaxAgeMs = true) →
      Routine.Obeys (Attempt.contract host) (fun s l r => Routine.Obeys (Attempt.contract host) ok
          (fun s l e => Routine.Obeys (Attempt.contract host) ok err s l
            (ExecutionBroker.abortAndRethrow request.handle e)) s l
          (match r with
          | some result => pure result
          | none => broker.submit opaqueConnector request request.handle))
        (fun s l e => Routine.Obeys (Attempt.contract host) ok err s l
          (ExecutionBroker.abortAndRethrow request.handle e)) { s₁ with clock := clock } {}
        (ExecutionBroker.gates [broker.consumptionGate request request.handle]) := by
    intro clock hfresh
    have hreq₃ : ({ s₁ with clock := clock } : Attempt).request host = some request := h₁.serves
    have hsubmit : ∀ s' : Attempt, s' = { s₁ with clock := clock, consumed := s'.consumed } →
        (∀ approvalId, request.approvalId = some (.str approvalId) →
          ∃ consumption r, s'.consumed = some (approvalId, consumption) ∧
            consumption.request = some r) →
        Routine.Obeys (Attempt.contract host) ok (fun s l e =>
            Routine.Obeys (Attempt.contract host) ok err s l
              (ExecutionBroker.abortAndRethrow request.handle e)) s' {}
          (broker.submit opaqueConnector request request.handle) := by
      intro s' hs' hconsumed
      have hbroker' : s'.broker = broker := by rw [hs']; exact hbroker₁
      rw [← hbroker']
      refine obeys_submit (by rw [hs']; exact h₁.serves) (by rw [hs']; exact h₁.reserved)
        (h₁.mayEnter ?_ ?_ hconsumed) ?_ ?_ ?_
      · rw [hs']
      · rw [hbroker₁, hs']
        exact hfresh
      · intro s'' l'' record hs''
        exact hok _ _ _ (by simp only [Attempt.final, hs''])
      · exact fun s'' e hs'' => habort e fun _ _ => hs''
      · intro s'' l'' e hlate
        refine habort e fun _ hfalse => ?_
        rw [hlate] at hfalse
        cases hfalse
    rw [obeys_gates_cons]
    refine obeys_consumptionGate hreq₃ h₁.reserved (hends fun _ _ _ h => h) ?_ ?_
    · exact fun hnone => hsubmit _ rfl fun approvalId hid => absurd hid (hnone approvalId)
    · intro approvalId consumption r hid hr
      refine hsubmit _ rfl fun approvalId' hid' => ?_
      rw [hid, Option.some.injEq, Json.str.injEq] at hid'
      subst hid'
      exact ⟨consumption, r, rfl, hr⟩
  refine obeys_freshnessGate hreq₂ h₁.reserved (hends fun _ _ _ h => h) ?_ ?_
  · intro hskip
    exact hrest none fun hcanary => absurd hcanary (by rw [hskip]; exact Bool.false_ne_true)
  · intro t hfresh
    exact hrest (some t) fun _ => ⟨t, rfl, hfresh⟩

theorem obeys_flushPendingTerminalAudit {result : Json} {pendingAudit : Option Json}
    {ok : Attempt → Flags → Unit → Prop} (hreq : s.request host = some request)
    (hs : s.stage = .replaying result pendingAudit)
    (hok : ∀ s', s'.stage = .replaying result none → ok s' l ())
    (herr : ∀ s' e, err s' l e) :
    Routine.Obeys (Attempt.contract host) ok err s l
      (ExecutionBroker.flushPendingTerminalAudit request.handle pendingAudit) := by
  cases pendingAudit with
  | none => exact hok s hs
  | some event =>
      simp only [ExecutionBroker.flushPendingTerminalAudit, Script.auditWrite, Routine.obeys_bind,
        Routine.obeys_perform, Routine.obeys_ofExcept]
      refine ⟨by simp only [Attempt.allowed, hs], fun written => ⟨fun _ hwritten => ?_,
        fun e _ => herr _ e⟩⟩
      subst hwritten
      have hreq' := Attempt.request_next hreq (.auditWrite event) (.ok ())
      have hs' : (s.next (.auditWrite event : Op host) (.ok ())).stage = .flushed result := by
        simp only [Attempt.next, Attempt.stageAfter, hs]
      refine ⟨⟨request, result, hreq', rfl, hs'⟩, fun a => ⟨fun _ ha => ?_,
        fun e _ => herr _ e⟩⟩
      subst ha
      refine hok _ ?_
      rw [Attempt.next_stage]
      simp only [Attempt.stageAfter, hs']

theorem obeys_executeOnce (hreq : s.request host = some request) (hs : s.stage = .before)
    (hbegun : s.MayBegin request) (hflags : l = {})
    (hok : ∀ s' l' result, s'.final (.ok result) → ok s' l' result)
    (herr : ∀ s' l' e, err s' l' e) :
    Routine.Obeys (Attempt.contract host) ok err s l
      (s.broker.executeOnce opaqueConnector request) := by
  simp only [ExecutionBroker.executeOnce, Routine.obeys_bind, Routine.obeys_perform]
  refine ⟨⟨hs, request, hreq, rfl, rfl, hbegun⟩, fun a => ?_⟩
  have hreq' := Attempt.request_next hreq
    (.begin request.intent.idempotencyKey request.intent) a
  cases a with
  | error e =>
      dsimp only
      split
      · refine obeys_rejectRequest (.inr (.inl rfl)) (fun reason => hok _ _ _ ?_)
          fun e => herr _ _ e
        simp [Attempt.final, Attempt.stageAfter, rejectedResult]
      · exact herr _ _ e
  | ok reservation =>
      cases reservation with
      | reserved =>
          exact obeys_executeReserved hreq' rfl ⟨hbegun.decision, hbegun.listed⟩ hflags hok herr
      | cached result pendingAudit =>
          simp only [Routine.obeys_bind]
          refine obeys_flushPendingTerminalAudit hreq' rfl (fun s' hs' => hok _ _ _ ?_)
            fun s' e => herr s' _ e
          simp only [Attempt.final, hs']
      | pending promised =>
          simp only [Routine.obeys_bind, Routine.obeys_perform, Routine.obeys_ofExcept]
          refine ⟨rfl, fun answer => ⟨fun result hanswer => hok _ _ _ ?_,
            fun e _ => herr _ _ e⟩⟩
          exact hanswer

theorem obeys_executeRequest (hreq : s.request host = some request) (hs : s.stage = .before)
    (hflags : l = {}) (hok : ∀ s' l' result, s'.final (.ok result) → ok s' l' result)
    (herr : ∀ s' l' e, err s' l' e) :
    Routine.Obeys (Attempt.contract host) ok err s l
      (s.broker.executeRequest opaqueConnector request) := by
  have hreject : ∀ {s' : Attempt} {rule message}, s'.stage = .before →
      Routine.Obeys (Attempt.contract host) ok err s' l
        (s.broker.rejectRequest request rule message) := by
    intro s' rule message hs'
    refine obeys_rejectRequest (.inl hs') (fun reason => hok _ _ _ ?_) fun e => herr _ _ e
    simp [Attempt.final, hs', rejectedResult]
  simp only [ExecutionBroker.executeRequest, Routine.obeys_bind, Routine.obeys_ofExcept]
  refine ⟨fun refusal hrefusal => ?_, fun e _ => herr _ _ e⟩
  cases refusal with
  | some refused => exact hreject hs
  | none =>
      have hrest : ∀ ready : Bool, Routine.Obeys (Attempt.contract host) ok err s l
          (if !ready then
            s.broker.rejectRequest request "live_preflight_failed" "Live-mode preflight failed."
          else do
            let requests ← Script.approvalList
            if ExecutionBroker.approvalMissing request requests then
              s.broker.rejectRequest request "approval_missing"
                "Human approval is required before execution."
            else s.broker.executeOnce opaqueConnector request) := by
        intro ready
        split_ifs
        · exact hreject hs
        · simp only [Script.approvalList, Routine.obeys_bind, Routine.obeys_perform,
            Routine.obeys_ofExcept]
          refine ⟨hs, fun a => ⟨fun requests ha => ?_, fun e _ => herr _ _ e⟩⟩
          subst ha
          split_ifs with hmissing
          · exact hreject hs
          · have hreq' := Attempt.request_next hreq .approvalList (.ok requests)
            refine obeys_executeOnce hreq' hs ⟨hrefusal, requests, rfl, ?_⟩ hflags hok herr
            simpa using hmissing
      dsimp only
      split_ifs with hlive
      · simp only [Routine.obeys_bind, Routine.obeys_map]
        refine obeys_runPreflight (Attempt.inert_killSwitchIsActive (.inl hs)) ⟨hs, fun _ => rfl⟩
          ⟨hs, fun _ => rfl⟩ (fun _ h _ => Attempt.inert_auditWrite (.inl hs) h) fun checks _ => ?_
        exact hrest _
      · rw [Routine.obeys_bind, Routine.obeys_pure]
        exact hrest true

/-- Every call of `execute` obeys its contract, and returns only results that fit. -/
theorem obeys_execute (broker : ExecutionBroker) (approval : Json)
    (dryRunAuthorization : Option Json) :
    Routine.Obeys (Attempt.contract host) (fun s _ result => s.final (.ok result))
      (fun s _ e => s.final (.error e))
      { broker, approval, dryRunAuthorization } {}
      (broker.execute opaqueConnector approval dryRunAuthorization) := by
  simp only [ExecutionBroker.execute, Routine.obeys_bind, Script.obeys_now]
  refine ⟨.inl rfl, fun t => ?_⟩
  split
  · simp only [ExecutionBroker.reject, Routine.obeys_bind]
    refine Script.obeys_auditWrite (Attempt.inert_auditWrite (.inl rfl) (plain_intentEvent ..)) ?_
      fun e => True.intro
    simp [Attempt.final, Attempt.next, Attempt.stageAfter, rejectedResult]
  · rename_i intent hintent
    refine obeys_executeRequest ?_ rfl rfl (fun _ _ _ h => h) fun _ _ _ => True.intro
    simp only [Attempt.request, Attempt.next, hintent]
    rfl

end
end TradingGuardrails
