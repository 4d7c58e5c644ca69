import TradingGuardrails.Broker.Broker
import TradingGuardrails.Interleaving.Effects

/-!
What a call knows of the kill switch. It remembers the scopes that it found inactive since
it was last suspended; a call enters the connector, and its callback lets the connector go
on, only when these are all scopes of the intent.
-/
namespace TradingGuardrails

open Text Interleaving

variable {host : Host}

/-- The scopes that a call has found inactive since it was last suspended. -/
abbrev Watch := List KillSwitchScope

namespace Watch

def next (s : Watch) : (op : Op host) → Ans host op → Watch
  | .killSwitchIsActive scope, .ok (some (.bool false)) => scope :: s
  | op, _ => if waits host op then [] else s

def Clear (s : Watch) (intent : TradingIntent host) : Prop :=
  intent.action ≠ .cancelOrder → ∀ scope ∈ getKillSwitchScopes intent, scope ∈ s

def allowed (s : Watch) : Op host → Prop
  | .enterConnector intent => s.Clear intent
  | _ => True

abbrev contract (host : Host) : Contract (Op host) (Ans host) where
  State := Watch
  next := next
  allowed := allowed

def Elsewhere : Op host → Prop
  | .enterConnector _ => False
  | _ => True

theorem allowed_elsewhere (s : Watch) (op : Op host) (h : Elsewhere op) : s.allowed op := by
  cases op with
  | enterConnector intent => exact False.elim h
  | _ => exact True.intro

theorem next_of_active {s : Watch} {scope : KillSwitchScope}
    (a : Ans host (.killSwitchIsActive scope)) :
    ∀ other ∈ s, other ∈ s.next (.killSwitchIsActive scope : Op host) a := by
  intro other hother
  simp only [next]
  split
  · exact List.mem_cons_of_mem _ hother
  · exact hother

section

variable {σ : Type} {s : Watch} {l : σ} {err : Watch → σ → Thrown → Prop}
  {intent : TradingIntent host}

theorem obeys_readKillSwitchBlocking {scope : KillSwitchScope} {ok : Watch → σ → Bool → Prop}
    (hok : ∀ (s' : Watch) blocking, (∀ other ∈ s, other ∈ s') →
      (blocking = false → intent.action ≠ .cancelOrder → scope ∈ s') → ok s' l blocking)
    (herr : ∀ s' e, err s' l e) :
    Routine.Obeys (contract host) ok err s l (readKillSwitchBlocking scope intent) := by
  simp only [readKillSwitchBlocking, Routine.obeys_bind, Routine.obeys_perform]
  refine ⟨True.intro, fun a => ?_⟩
  have hmore := next_of_active (s := s) a
  cases a with
  | error e => exact herr _ _
  | ok reply =>
      cases reply with
      | none => exact herr _ _
      | some v =>
          cases v with
          | bool active =>
              refine hok _ _ hmore fun hblocking haction => ?_
              cases active with
              | false => exact List.mem_cons_self
              | true => simp [haction] at hblocking
          | null | num | str | arr | obj => exact herr _ _

/-- A walk over scopes that finds no blocking one has found all of them inactive. -/
theorem obeys_firstBlocking {ok : Watch → σ → Option KillSwitchScope → Prop}
    {scopes : List KillSwitchScope}
    (hok : ∀ (s' : Watch) r, (∀ other ∈ s, other ∈ s') →
      (r = none → intent.action ≠ .cancelOrder → ∀ scope ∈ scopes, scope ∈ s') → ok s' l r)
    (herr : ∀ s' e, err s' l e) :
    Routine.Obeys (contract host) ok err s l (firstBlocking intent scopes) := by
  induction scopes generalizing s with
  | nil => exact hok s _ (fun _ h => h) fun _ _ _ h => by cases h
  | cons scope scopes ih =>
      simp only [firstBlocking, Routine.obeys_bind]
      refine obeys_readKillSwitchBlocking (fun s' blocking hmore hfound => ?_) herr
      cases blocking with
      | true => exact hok _ _ hmore fun h => by cases h
      | false =>
          refine ih fun s'' r hmore' hrest => hok s'' r (fun x hx => hmore' x (hmore x hx)) ?_
          intro hnone haction x hx
          rcases List.mem_cons.mp hx with rfl | hx
          · exact hmore' _ (hfound rfl haction)
          · exact hrest hnone haction x hx

end

section

variable {σ : Type}

theorem within_auditWrite {event : Json} :
    Routine.Within Elsewhere (Script.auditWrite event : Script host σ Unit) :=
  Routine.within_bind (Routine.within_perform True.intro) fun _ => Routine.within_ofExcept

theorem within_rejectRequest {broker : ExecutionBroker} {request : Request host}
    {rule message : String} :
    Routine.Within Elsewhere (broker.rejectRequest request rule message : Script host σ Json) :=
  Routine.within_bind within_auditWrite fun _ => Routine.within_pure

theorem within_firstBlocking (intent : TradingIntent host) (scopes : List KillSwitchScope) :
    Routine.Within Elsewhere (firstBlocking intent scopes : Script host σ _) := by
  induction scopes with
  | nil => exact Routine.within_pure
  | cons scope scopes ih =>
      refine Routine.within_bind ?_ fun blocking => Routine.within_ite Routine.within_pure ih
      refine Routine.within_bind (Routine.within_perform True.intro) fun reply => ?_
      split
      · exact Routine.within_pure
      · exact Routine.within_throw

theorem within_runPreflight {capabilities : PreflightCapabilities} {environment : Environment}
    {intent : TradingIntent host} {correlationId : Option Json} :
    Routine.Within Elsewhere
      (runPreflight capabilities environment intent correlationId : Script host σ _) := by
  refine Routine.within_bind ?_ fun _ => Routine.within_bind ?_ fun _ =>
    Routine.within_bind ?_ fun _ => Routine.within_bind ?_ fun _ =>
      Routine.within_ite Routine.within_pure Routine.within_pure
  · refine Routine.within_tryCatch (Routine.within_bind (within_firstBlocking _ _) fun r => ?_)
      fun _ => Routine.within_pure
    cases r <;> exact Routine.within_pure
  · refine Routine.within_ite Routine.within_pure
      (Routine.within_bind (Routine.within_perform True.intro) fun a => ?_)
    cases a <;> exact Routine.within_pure
  · unfold checkApproval
    split
    · exact Routine.within_pure
    · exact Routine.within_pure
    · refine Routine.within_bind (Routine.within_perform True.intro) fun a => ?_
      cases a <;> exact Routine.within_pure
  · refine Routine.within_ite Routine.within_pure
      (Routine.within_bind (Routine.within_perform True.intro) fun a => ?_)
    cases a <;> exact Routine.within_pure

variable {broker : ExecutionBroker} {request : Request host} {handle : Handle}

theorem within_abortReservation {error : Thrown} :
    Routine.Within Elsewhere
      (ExecutionBroker.abortReservation handle error : Script host Flags Unit) :=
  Routine.within_bind (Routine.within_perform True.intro) fun _ => Routine.within_ofExcept

theorem within_rejectAndAbort {rule message : String} :
    Routine.Within Elsewhere (broker.rejectAndAbort request handle rule message) :=
  Routine.within_bind within_rejectRequest fun _ =>
    Routine.within_bind within_abortReservation fun _ =>
      Routine.within_bind Routine.within_modify fun _ => Routine.within_pure

theorem within_finish {result : Json} :
    Routine.Within Elsewhere (ExecutionBroker.finish handle result : Script host Flags Json) := by
  refine Routine.within_bind (Routine.within_perform True.intro) fun _ => ?_
  exact Routine.within_bind Routine.within_ofExcept fun _ =>
    Routine.within_bind Routine.within_modify fun _ => Routine.within_pure

theorem within_rejectAndFinish {rule message : String} :
    Routine.Within Elsewhere (broker.rejectAndFinish request handle rule message) :=
  Routine.within_bind within_rejectRequest fun _ => Routine.within_map within_finish

theorem within_abortAndRethrow {α : Type} {error : Thrown} :
    Routine.Within Elsewhere
      (ExecutionBroker.abortAndRethrow handle error : Script host Flags α) := by
  refine Routine.within_bind Routine.within_get fun flags => ?_
  split_ifs
  · exact Routine.within_bind within_abortReservation fun _ => Routine.within_throw
  · exact Routine.within_throw

theorem within_approvalGate {approvalId : String} :
    Routine.Within Elsewhere (broker.approvalGate request handle approvalId) := by
  refine Routine.within_bind
    (Routine.within_bind (Routine.within_perform True.intro) fun _ => Routine.within_ofExcept)
    fun found => ?_
  cases found with
  | none => exact within_rejectAndAbort
  | some approved =>
      refine Routine.within_ite within_rejectAndFinish
        (Routine.within_ite within_rejectAndAbort ?_)
      refine Routine.within_bind (Routine.within_perform True.intro) fun now => ?_
      exact Routine.within_ite within_rejectAndFinish
        (Routine.within_ite within_rejectAndFinish Routine.within_pure)

theorem within_admission : Routine.Within Elsewhere (broker.admission request handle) := by
  unfold ExecutionBroker.admission
  split_ifs
  · refine Routine.within_bind Routine.within_ofExcept fun matching =>
      Routine.within_ite within_rejectAndAbort ?_
    split
    · exact within_approvalGate
    · exact Routine.within_pure
  · refine Routine.within_bind Routine.within_pure fun matching =>
      Routine.within_ite within_rejectAndAbort ?_
    split
    · exact within_approvalGate
    · exact Routine.within_pure

theorem within_killSwitchGate :
    Routine.Within Elsewhere (broker.killSwitchGate request handle) := by
  refine Routine.within_bind (within_firstBlocking _ _) fun blocking => ?_
  cases blocking with
  | none => exact Routine.within_pure
  | some scope => exact Routine.within_bind within_auditWrite fun _ => within_rejectAndFinish

theorem within_revalidationGate :
    Routine.Within Elsewhere (broker.revalidationGate opaqueConnector request handle) := by
  unfold ExecutionBroker.revalidationGate
  refine Routine.within_bind (Routine.within_withLocals ?_) fun revalidation => ?_
  · exact Routine.within_bind (Routine.within_perform True.intro) fun _ => Routine.within_ofExcept
  refine Routine.within_bind Routine.within_ofExcept fun passed => ?_
  refine Routine.within_bind Routine.within_ofExcept fun redacted => ?_
  refine Routine.within_bind within_auditWrite fun _ => Routine.within_ite Routine.within_pure ?_
  exact Routine.within_bind Routine.within_ofExcept fun reason =>
    Routine.within_bind within_auditWrite fun _ => within_rejectAndFinish

theorem within_finishExecutionWithAudit {record : Record} :
    Routine.Within Elsewhere
      (ExecutionBroker.finishExecutionWithAudit handle record : Script host Flags Json) := by
  refine Routine.within_bind Routine.within_modify fun _ => ?_
  refine Routine.within_bind (Routine.within_perform True.intro) fun completion => ?_
  refine Routine.within_bind Routine.within_modify fun _ => ?_
  refine Routine.within_bind (Routine.within_perform True.intro) fun written => ?_
  cases written with
  | error e =>
      exact Routine.within_bind (Routine.within_perform True.intro) fun _ => Routine.within_throw
  | ok u =>
      refine Routine.within_bind Routine.within_ofExcept fun _ => ?_
      refine Routine.within_bind (Routine.within_perform True.intro) fun _ => ?_
      exact Routine.within_bind Routine.within_ofExcept fun _ => Routine.within_pure

theorem within_flushPendingTerminalAudit {pendingAudit : Option Json} :
    Routine.Within Elsewhere
      (ExecutionBroker.flushPendingTerminalAudit handle pendingAudit : Script host σ Unit) := by
  cases pendingAudit with
  | none => exact Routine.within_pure
  | some event =>
      refine Routine.within_bind within_auditWrite fun _ => ?_
      exact Routine.within_bind (Routine.within_perform True.intro) fun _ => Routine.within_ofExcept

end

section

variable {broker : ExecutionBroker} {request : Request host} {handle : Handle} {s : Watch}
  {l : Flags} {err : Watch → Flags → Thrown → Prop}

theorem obeys_of_within {σ α : Type} {m : Script host σ α} (h : m.Within Elsewhere)
    {ok : Watch → σ → α → Prop} {err : Watch → σ → Thrown → Prop} (hok : ∀ s l a, ok s l a)
    (herr : ∀ s l e, err s l e) (s : Watch) (l : σ) :
    Routine.Obeys (contract host) ok err s l m :=
  Routine.Within.obeys (C := contract host) h allowed_elsewhere hok herr s l

/-- A gate that is passed leaves what the call knows of the switch. -/
structure Passes (intent : TradingIntent host)
    (ok : Watch → Flags → Option Json → Prop) (err : Watch → Flags → Thrown → Prop) : Prop where
  passed : ∀ (s : Watch) l, s.Clear intent → ok s l none
  refused : ∀ s l result, ok s l (some result)
  thrown : ∀ s l e, err s l e

variable {ok : Watch → Flags → Option Json → Prop}

theorem obeys_rejectAndFinish {rule message : String} (ends : Passes request.intent ok err) :
    Routine.Obeys (contract host) ok err s l
      (broker.rejectAndFinish request handle rule message) := by
  simp only [ExecutionBroker.rejectAndFinish, Routine.obeys_bind, Routine.obeys_map]
  refine obeys_of_within within_rejectRequest (fun s l result => ?_) ends.thrown s l
  exact obeys_of_within within_finish ends.refused ends.thrown s l

theorem obeys_rejectAndAbort {rule message : String} (ends : Passes request.intent ok err) :
    Routine.Obeys (contract host) ok err s l
      (broker.rejectAndAbort request handle rule message) := by
  simp only [ExecutionBroker.rejectAndAbort, Routine.obeys_bind]
  refine obeys_of_within within_rejectRequest (fun s l result => ?_) ends.thrown s l
  refine obeys_of_within within_abortReservation (fun s l _ => ?_) ends.thrown s l
  exact ends.refused s _ result

theorem obeys_killSwitchGate (ends : Passes request.intent ok err) :
    Routine.Obeys (contract host) ok err s l (broker.killSwitchGate request handle) := by
  simp only [ExecutionBroker.killSwitchGate, Routine.obeys_bind]
  refine obeys_firstBlocking (fun s' blocking _ hfound => ?_) fun s' e => ends.thrown s' l e
  cases blocking with
  | none => exact ends.passed s' l (hfound rfl)
  | some scope =>
      simp only [Routine.obeys_bind]
      exact obeys_of_within within_auditWrite (fun s l _ => obeys_rejectAndFinish ends)
        ends.thrown s' l

theorem obeys_freshnessGate (ends : Passes request.intent ok err) (hs : s.Clear request.intent) :
    Routine.Obeys (contract host) ok err s l (broker.freshnessGate request handle) := by
  unfold ExecutionBroker.freshnessGate
  split_ifs
  · simp only [Routine.obeys_bind, Script.obeys_now]
    refine ⟨True.intro, fun t => ?_⟩
    split_ifs
    · exact ends.passed s l hs
    · exact obeys_rejectAndAbort ends
  · exact ends.passed s l hs

theorem obeys_consumptionGate (ends : Passes request.intent ok err) (hs : s.Clear request.intent) :
    Routine.Obeys (contract host) ok err s l (broker.consumptionGate request handle) := by
  unfold ExecutionBroker.consumptionGate
  split
  · simp only [Script.consumeOneTime, Routine.obeys_bind, Routine.obeys_perform]
    refine ⟨True.intro, fun a => ?_⟩
    rw [Routine.obeys_ofExcept]
    refine ⟨fun consumption _ => ?_, fun e _ => ends.thrown _ _ e⟩
    rw [Routine.obeys_pure]
    cases consumption.request with
    | none => exact obeys_rejectAndFinish ends
    | some r => exact ends.passed _ l hs
  · exact ends.passed s l hs

theorem obeys_submit {ok : Watch → Flags → Json → Prop} (hs : s.Clear request.intent)
    (hok : ∀ s l r, ok s l r) (herr : ∀ s l e, err s l e) :
    Routine.Obeys (contract host) ok err s l (broker.submit opaqueConnector request handle) := by
  simp only [ExecutionBroker.submit, Routine.obeys_bind]
  refine ⟨hs, fun _ => ?_⟩
  have hrest : ∀ reply : Reply, Routine.Within Elsewhere (do
      let record ← Routine.ofExcept (broker.recordOf request reply)
      ExecutionBroker.finishExecutionWithAudit handle record : Script host Flags Json) :=
    fun reply =>
      Routine.within_bind Routine.within_ofExcept fun _ => within_finishExecutionWithAudit
  have hconnector : Routine.Within Elsewhere (tryCatch
      (Except.ok <$> Routine.withLocals ()
        (opaqueConnector.execute request.intent (broker.beforeSideEffect request)))
      fun error => pure (Except.error error) : Script host Flags Reply) := by
    refine Routine.within_tryCatch (Routine.within_map (Routine.within_withLocals ?_))
      fun _ => Routine.within_pure
    exact Routine.within_bind (Routine.within_perform True.intro) fun _ => Routine.within_ofExcept
  refine obeys_of_within hconnector (fun s l reply => ?_) herr _ l
  have hreply := obeys_of_within (hrest reply) hok herr s l
  rwa [Routine.obeys_bind] at hreply

/-- What comes after a gate of which nothing is known, or that ends the execution. -/
theorem obeys_gate {gate : Script host Flags (Option Json)} (hgate : gate.Within Elsewhere)
    {rest : List (Script host Flags (Option Json))} (hok : ∀ s l result, ok s l (some result))
    (herr : ∀ s l e, err s l e)
    (hrest : ∀ s l, Routine.Obeys (contract host) ok err s l (ExecutionBroker.gates rest))
    (s : Watch) (l : Flags) :
    Routine.Obeys (contract host) ok err s l (ExecutionBroker.gates (gate :: rest)) := by
  rw [ExecutionBroker.gates, Routine.obeys_bind]
  refine obeys_of_within hgate (fun s l rejection => ?_) herr s l
  cases rejection with
  | none => exact hrest s l
  | some result => exact hok s l result

theorem obeys_gates {connector : Connector host}
    (hgate : Routine.Within Elsewhere (broker.revalidationGate connector request handle))
    (ends : Passes request.intent ok err) :
    Routine.Obeys (contract host) ok err s l (ExecutionBroker.gates [
      broker.killSwitchGate request handle,
      broker.revalidationGate connector request handle,
      broker.killSwitchGate request handle,
      broker.freshnessGate request handle,
      broker.consumptionGate request handle]) := by
  refine obeys_gate within_killSwitchGate ends.refused ends.thrown (fun s l => ?_) s l
  refine obeys_gate hgate ends.refused ends.thrown (fun s l => ?_) s l
  -- From here on the call is not suspended any more.
  simp only [ExecutionBroker.gates, Routine.obeys_bind]
  refine obeys_killSwitchGate ⟨fun s l hs => ?_, ends.refused, ends.thrown⟩
  simp only [Routine.obeys_bind]
  refine obeys_freshnessGate ⟨fun s l hs => ?_, ends.refused, ends.thrown⟩ hs
  simp only [Routine.obeys_bind]
  refine obeys_consumptionGate ⟨fun s l hs => ?_, ends.refused, ends.thrown⟩ hs
  exact ends.passed s l hs

theorem obeys_executeReserved :
    Routine.Obeys (contract host) (fun _ _ _ => True) (fun _ _ _ => True) s l
      (broker.executeReserved opaqueConnector request handle) := by
  have habort : ∀ {α : Type} (s : Watch) (l : Flags) (e : Thrown), Routine.Obeys (contract host)
      (fun _ _ _ => True) (fun _ _ _ => True) s l
      (ExecutionBroker.abortAndRethrow handle e : Script host Flags α) := fun s l e =>
    obeys_of_within within_abortAndRethrow (fun _ _ _ => True.intro) (fun _ _ _ => True.intro) s l
  unfold ExecutionBroker.executeReserved
  rw [Routine.obeys_bind]
  refine obeys_of_within (Routine.within_tryCatch within_admission fun _ => within_abortAndRethrow)
    (fun s l refused => ?_) (fun _ _ _ => True.intro) s l
  cases refused with
  | some result => exact True.intro
  | none =>
      simp only [Routine.obeys_tryCatch, Routine.obeys_bind]
      refine obeys_gates within_revalidationGate
        ⟨fun s l hs => ?_, fun _ _ _ => True.intro, fun s l e => ?_⟩
      · exact obeys_submit hs (fun _ _ _ => True.intro) fun s l e => habort s l e
      · exact habort s l e

theorem obeys_executeOnce :
    Routine.Obeys (contract host) (fun _ _ _ => True) (fun _ _ _ => True) s l
      (broker.executeOnce opaqueConnector request) := by
  have hrest : ∀ {α : Type} {m : Script host Flags α} (s : Watch), m.Within Elsewhere →
      Routine.Obeys (contract host) (fun _ _ _ => True) (fun _ _ _ => True) s l m := fun s h =>
    obeys_of_within h (fun _ _ _ => True.intro) (fun _ _ _ => True.intro) s l
  simp only [ExecutionBroker.executeOnce, Routine.obeys_bind, Routine.obeys_perform]
  refine ⟨True.intro, fun a => ?_⟩
  cases a with
  | error e =>
      dsimp only
      split
      · exact hrest _ within_rejectRequest
      · exact True.intro
  | ok reservation =>
      cases reservation with
      | reserved => exact obeys_executeReserved
      | cached result pendingAudit =>
          exact hrest _ (Routine.within_bind within_flushPendingTerminalAudit
            fun _ => Routine.within_pure)
      | pending promised =>
          exact hrest _ (Routine.within_bind (Routine.within_perform True.intro)
            fun _ => Routine.within_ofExcept)

theorem obeys_executeRequest :
    Routine.Obeys (contract host) (fun _ _ _ => True) (fun _ _ _ => True) s l
      (broker.executeRequest opaqueConnector request) := by
  have hreject : ∀ (s : Watch) (l : Flags) rule message, Routine.Obeys (contract host)
      (fun _ _ _ => True) (fun _ _ _ => True) s l (broker.rejectRequest request rule message) :=
    fun s l _ _ => obeys_of_within within_rejectRequest (fun _ _ _ => True.intro)
      (fun _ _ _ => True.intro) s l
  unfold ExecutionBroker.executeRequest
  rw [Routine.obeys_bind, Routine.obeys_ofExcept]
  refine ⟨fun refusal _ => ?_, fun _ _ => True.intro⟩
  cases refusal with
  | some refused => exact hreject s l _ _
  | none =>
      have hlist : Routine.Within Elsewhere (Script.approvalList : Script host Flags _) :=
        Routine.within_bind (Routine.within_perform True.intro) fun _ => Routine.within_ofExcept
      have hrest : ∀ (s : Watch) (l : Flags), Routine.Obeys (contract host) (fun _ _ _ => True)
          (fun _ _ _ => True) s l (do
            let requests ← Script.approvalList
            if ExecutionBroker.approvalMissing request requests then
              broker.rejectRequest request "approval_missing"
                "Human approval is required before execution."
            else broker.executeOnce opaqueConnector request) := by
        intro s l
        rw [Routine.obeys_bind]
        refine obeys_of_within hlist (fun s l requests => ?_) (fun _ _ _ => True.intro) s l
        split_ifs
        · exact hreject s l _ _
        · exact obeys_executeOnce
      dsimp only
      split_ifs
      · rw [Routine.obeys_bind, Routine.obeys_map]
        refine obeys_of_within within_runPreflight (fun s l checks => ?_)
          (fun _ _ _ => True.intro) s l
        split_ifs
        · exact hreject s l _ _
        · exact hrest s l
      · rw [Routine.obeys_bind, Routine.obeys_pure]
        exact hrest s l

theorem obeys_execute (broker : ExecutionBroker) (approval : Json)
    (dryRunAuthorization : Option Json) :
    Routine.Obeys (contract host) (fun _ _ _ => True) (fun _ _ _ => True) [] {}
      (broker.execute opaqueConnector approval dryRunAuthorization) := by
  simp only [ExecutionBroker.execute, Routine.obeys_bind, Script.obeys_now]
  refine ⟨True.intro, fun t => ?_⟩
  split
  · have hreject : Routine.Within Elsewhere (broker.reject (fallbackSubject approval)
        (host.toISOString t) (approval.field? "correlationId") "schema_validation"
        "Approval intent is malformed." : Script host Flags Json) :=
      Routine.within_bind within_auditWrite fun _ => Routine.within_pure
    exact obeys_of_within hreject (fun _ _ _ => True.intro) (fun _ _ _ => True.intro) _ _
  · exact obeys_executeRequest

/-- A callback that returns has found nothing that stops the intent. -/
theorem obeys_beforeSideEffect (broker : ExecutionBroker) (request : Request host) :
    Routine.Obeys (contract host) (fun s _ _ => s.Clear request.intent) (fun _ _ _ => True) [] ()
      (broker.beforeSideEffect request) := by
  simp only [ExecutionBroker.beforeSideEffect, ExecutionBroker.assertKillSwitchAllowsExecution,
    Routine.obeys_bind, Routine.obeys_tryCatch]
  refine obeys_firstBlocking (fun s blocking _ hfound => ?_) fun _ _ => True.intro
  cases blocking with
  | some scope =>
      simp only [Routine.obeys_bind]
      exact obeys_of_within within_auditWrite (fun _ _ _ => True.intro)
        (fun _ _ _ => True.intro) _ _
  | none =>
      have hclear : s.Clear request.intent := hfound rfl
      rw [Routine.obeys_pure]
      split_ifs
      · simp only [Routine.obeys_bind, Script.obeys_now]
        refine ⟨True.intro, fun t => ?_⟩
        split_ifs
        · exact True.intro
        · exact hclear
      · exact hclear

end
end Watch
end TradingGuardrails
