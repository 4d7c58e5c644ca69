import TradingGuardrails.Broker.Obedience
import TradingGuardrails.Broker.Report

/-!
The contracts of `dryRun` and of the callback that a connector runs before its side
effect. A dry run whose report authorizes an order has made every check, at the times
that it remembers; a callback that returns for such an order has read the clock in time.
-/
namespace TradingGuardrails

open Text Interleaving

variable {host : Host}

structure LastCheck (host : Host) where
  broker : ExecutionBroker
  request : Request host
  clock : Option Instant := none

namespace LastCheck

def next (s : LastCheck host) : (op : Op host) → Ans host op → LastCheck host
  | .now, t => { s with clock := some t }
  | _, _ => s

def allowed : Op host → Prop
  | .now => True
  | .killSwitchIsActive _ => True
  | .auditWrite event => Plain event
  | _ => False

def final (s : LastCheck host) : Except Thrown Unit → Prop
  | .error _ => True
  | .ok () => s.broker.canaryOrder s.request.intent = true → ∃ t, s.clock = some t ∧
      dryRunIsFresh host (orEmpty s.request.dryRunCheckedAt) (host.toISOString t)
        s.broker.decisionMaxAgeMs = true

abbrev contract (host : Host) : Contract (Op host) (Ans host) where
  State := LastCheck host
  next := next
  allowed _ := allowed

end LastCheck

theorem obeys_assertKillSwitchAllowsExecution {C : Contract (Op host) (Ans host)} {σ : Type}
    {s : C.State} {l : σ} {ok : C.State → σ → Unit → Prop} {err : C.State → σ → Thrown → Prop}
    {broker : ExecutionBroker} {intent : TradingIntent host} {correlationId : Option Json}
    (hswitch : ∀ scope, C.Inert s (.killSwitchIsActive scope))
    (hwrite : ∀ event, Plain event → C.Inert s (.auditWrite event))
    (hok : ok s l ()) (herr : ∀ e, err s l e) :
    Routine.Obeys C ok err s l
      (broker.assertKillSwitchAllowsExecution intent correlationId) := by
  simp only [ExecutionBroker.assertKillSwitchAllowsExecution, Routine.obeys_bind,
    Routine.obeys_tryCatch]
  refine obeys_firstBlocking hswitch ?_ ?_ _
  · intro r
    cases r with
    | none => exact hok
    | some scope =>
        simp only [Routine.obeys_bind]
        exact Script.obeys_auditWrite (hwrite _ (plain_intentEvent ..)) (herr _) herr
  · exact fun _ => herr _

theorem obeys_beforeSideEffect (broker : ExecutionBroker) (request : Request host) :
    Routine.Obeys (LastCheck.contract host) (fun s _ r => s.final (.ok r))
      (fun s _ e => s.final (.error e)) { broker, request } ()
      (broker.beforeSideEffect request) := by
  simp only [ExecutionBroker.beforeSideEffect, Routine.obeys_bind]
  refine obeys_assertKillSwitchAllowsExecution (fun _ => ⟨True.intro, fun _ => rfl⟩)
    (fun _ h => ⟨h, fun _ => rfl⟩) ?_ fun _ => True.intro
  split_ifs with hcanary
  · simp only [Routine.obeys_bind, Script.obeys_now]
    refine ⟨True.intro, fun t => ?_⟩
    split_ifs with hfresh
    · exact True.intro
    · rw [Bool.not_eq_true', Bool.not_eq_false] at hfresh
      exact fun _ => ⟨t, rfl, hfresh⟩
  · exact fun h => absurd h hcanary

structure Rehearsal where
  broker : ExecutionBroker
  approval : Json
  startedAt : Option Instant := none
  /-- The last reading of the clock since the last await. -/
  clock : Option Instant := none
  revalidated : Option Reply := none
  /-- The report that was written. -/
  written : Option Json := none

namespace Rehearsal

def reported (written : Option Json) (event : Json) : Option Json :=
  if event.field? "eventType" = some (.str AuditEventType.brokerDryRun.text) then some event
  else written

def next (s : Rehearsal) : (op : Op host) → Ans host op → Rehearsal
  | .now, t => { s with startedAt := s.startedAt.or (some t), clock := some t }
  | .revalidate _, reply => { s with revalidated := some reply, clock := none }
  | .auditWrite event, .ok () => { s with written := reported s.written event }
  | _, _ => s

def allowed : Op host → Prop
  | .now => True
  | .auditWrite event => Plain event
  | .killSwitchIsActive _ => True
  | .auditCheckHealth => True
  | .approvalCheckHealth => True
  | .revalidate _ => True
  | _ => False

def checkNames (environment : Environment) : List String :=
  ["decision", "environment"] ++
    (if environment = .canaryLive then ["kill_switch", "audit", "approval"] else []) ++
    ["connector", "late_kill_switch"]

structure Passed (s : Rehearsal) (intent : TradingIntent host) (report : BrokerDryRunResult) :
    Prop where
  parsed : TradingIntent.safeParse host (s.approval.field? "intent") = some intent
  decision : ∃ startedAt, s.startedAt = some startedAt ∧
    s.broker.validDryRunDecision s.approval intent (host.toISOString startedAt) = .ok true
  environment : s.broker.environmentMatches intent = true
  revalidated : ∃ v, s.revalidated = some (.ok (some v)) ∧
    v.field? "passed" = some (.bool true)
  passed : report.passed = true ∧ allPassed report.checks = true
  checks : report.checks.map PreflightCheckResult.check = checkNames s.broker.environment
  written : s.written = some
    (s.broker.dryRunEvent s.approval (some intent) { report with authorization := none })
  authorization : ∃ t, s.clock = some t ∧ report.checkedAt = host.toISOString t ∧
    report.authorization = some (createDryRunAuthorization host
      s.broker.decisionVerificationSecret intent (host.toISOString t))

def final (host : Host) (s : Rehearsal) : Except Thrown BrokerDryRunResult → Prop
  | .error _ => True
  | .ok report => report.authorization = none ∨
      ∃ intent : TradingIntent host, s.Passed intent report

abbrev contract (host : Host) : Contract (Op host) (Ans host) where
  State := Rehearsal
  next := next
  allowed _ := allowed

theorem inert_killSwitchIsActive (s : Rehearsal) (scope : KillSwitchScope) :
    (contract host).Inert s (.killSwitchIsActive scope) :=
  ⟨True.intro, fun _ => rfl⟩

end Rehearsal

theorem Rehearsal.inert_preflightEvent (s : Rehearsal) {event : Json} (hplain : Plain event)
    (hevent : isPreflightEvent event = true) :
    (Rehearsal.contract host).Inert s (.auditWrite event) := by
  refine ⟨hplain, fun a => ?_⟩
  cases a with
  | error e => rfl
  | ok u =>
      have hother : Rehearsal.reported s.written event = s.written := by
        simp only [isPreflightEvent, beq_iff_eq] at hevent
        simp only [Rehearsal.reported, hevent]
        exact if_neg (by decide)
      change { s with written := Rehearsal.reported s.written event } = s
      rw [hother]

section

open ExecutionBroker

variable {approval : Json} {intent : TradingIntent host} {s : Rehearsal} {l : Checks}
  {err : Rehearsal → Checks → Thrown → Prop}

theorem allPassed_append (xs ys : List PreflightCheckResult) :
    allPassed (xs ++ ys) = (allPassed xs && allPassed ys) :=
  List.all_append

/-- What a dry run has established when all of its checks passed. -/
structure Rehearsal.Checked (s : Rehearsal) (intent : TradingIntent host) (checks : Checks) :
    Prop where
  parsed : TradingIntent.safeParse host (s.approval.field? "intent") = some intent
  decision : ∃ startedAt, s.startedAt = some startedAt ∧
    s.broker.validDryRunDecision s.approval intent (host.toISOString startedAt) = .ok true
  environment : s.broker.environmentMatches intent = true
  revalidated : ∃ v, s.revalidated = some (.ok (some v)) ∧
    v.field? "passed" = some (.bool true)
  checks : checks.map PreflightCheckResult.check = Rehearsal.checkNames s.broker.environment

theorem next_now (hstart : s.startedAt.isSome) (t : Instant) :
    s.next (.now : Op host) t = { s with clock := some t } := by
  obtain ⟨startedAt, hstart⟩ := Option.isSome_iff_exists.mp hstart
  simp only [Rehearsal.next, hstart]
  rfl

theorem next_dryRunEvent {broker : ExecutionBroker} {parsed : Option (TradingIntent host)}
    {report : BrokerDryRunResult} (u : Unit) :
    s.next (.auditWrite (broker.dryRunEvent approval parsed report) : Op host) (.ok u) =
      { s with written := some (broker.dryRunEvent approval parsed report) } := by
  have hreported : Rehearsal.reported s.written (broker.dryRunEvent approval parsed report) =
      some (broker.dryRunEvent approval parsed report) :=
    if_pos (by simp [dryRunEvent, AuditEventInput.toJson])
  simp only [Rehearsal.next, hreported]

theorem obeys_finishDryRun {parsed : Option (TradingIntent host)} (happroval : s.approval = approval)
    (hstart : s.startedAt.isSome)
    (hchecked : allPassed l = true → ∃ intent, parsed = some intent ∧ s.Checked intent l) :
    Routine.Obeys (Rehearsal.contract host) (fun s _ r => s.final host (.ok r)) err s l
      (s.broker.finishDryRun approval parsed) := by
  subst happroval
  simp only [ExecutionBroker.finishDryRun, Routine.obeys_bind, Script.obeys_now,
    Routine.obeys_get, Routine.obeys_perform]
  refine ⟨True.intro, fun t => ⟨plain_toJson rfl, fun written => ?_⟩⟩
  cases written with
  | error e => exact .inl rfl
  | ok u =>
      dsimp only
      split_ifs with hpassed
      · have hclosed : s.broker.closeChecks host s.approval (host.toISOString t) l = l ∧
            allPassed l = true := by
          simp only [report, closeChecks] at hpassed ⊢
          split_ifs at hpassed ⊢ with hexpired
          · rw [allPassed_append] at hpassed
            simp [allPassed, decisionExpired] at hpassed
          · exact ⟨rfl, hpassed⟩
        obtain ⟨intent, rfl, hs⟩ := hchecked hclosed.2
        rw [next_now hstart, next_dryRunEvent]
        refine .inr ⟨intent, ?_⟩
        obtain ⟨hparsed, hdecision, henvironment, hrevalidated, hchecks⟩ := hs
        refine ⟨hparsed, hdecision, henvironment, hrevalidated, ⟨hpassed, ?_⟩, ?_, rfl,
          t, rfl, rfl, rfl⟩
        · simp only [report, hclosed.1, hclosed.2]
        · simp only [report, hclosed.1]
          exact hchecks
      · exact .inl rfl

/-- The checks that follow a connector's answer. -/
theorem obeys_lateChecks {ok : Rehearsal → Checks → Unit → Prop}
    (hok : ∀ s' l', s'.broker = s.broker → s'.approval = s.approval →
      s'.startedAt = s.startedAt →
      (allPassed l' = true → allPassed l = true ∧
        (∃ v, s'.revalidated = some (.ok (some v)) ∧ v.field? "passed" = some (.bool true)) ∧
        l'.map PreflightCheckResult.check =
          l.map PreflightCheckResult.check ++ ["connector", "late_kill_switch"]) →
      ok s' l' ()) :
    Routine.Obeys (Rehearsal.contract host) ok err s l (lateChecks opaqueConnector intent) := by
  have hfailed : ∀ {s' : Rehearsal} {l' : Checks} {check : PreflightCheckResult},
      s'.broker = s.broker → s'.approval = s.approval → s'.startedAt = s.startedAt →
      allPassed l' = false ∨ check.passed = false → ok s' (l' ++ [check]) () := by
    intro s' l' check hbroker happroval hstart hfalse
    refine hok s' _ hbroker happroval hstart fun hpassed => ?_
    rw [allPassed_append, Bool.and_eq_true] at hpassed
    rcases hfalse with h | h
    · rw [hpassed.1] at h
      cases h
    · simp [allPassed, h] at hpassed
  simp only [lateChecks, opaqueConnector, push, Routine.obeys_tryCatch, Routine.obeys_bind,
    Routine.obeys_withLocals, Routine.obeys_perform, Routine.obeys_ofExcept,
    Routine.obeys_modify]
  refine ⟨True.intro, fun reply => ?_⟩
  have hswitch : ∀ scope, (Rehearsal.contract host).Inert
      (s.next (.revalidate intent : Op host) reply) (.killSwitchIsActive scope) :=
    Rehearsal.inert_killSwitchIsActive _
  refine ⟨fun validation hreply => ⟨fun passed hmember => ?_, fun e _ => ?_⟩, fun e _ => ?_⟩
  · split_ifs with htrue
    · simp only [Routine.obeys_bind, Routine.obeys_modify]
      refine obeys_firstBlocking hswitch ?_ ?_ _
      · intro blocking
        cases blocking with
        | some scope => exact hfailed rfl rfl rfl (.inr rfl)
        | none =>
            refine hok _ _ rfl rfl rfl fun hpassed => ?_
            simp only [allPassed_append, Bool.and_eq_true] at hpassed
            refine ⟨hpassed.1.1, ?_, by simp⟩
            cases validation with
            | none => cases hmember
            | some v =>
                refine ⟨v, ?_, ?_⟩
                · rw [← hreply]
                  rfl
                · subst htrue
                  cases v with
                  | null => cases hmember
                  | bool | num | str | arr | obj => simpa [member] using hmember
      · exact fun e => hfailed rfl rfl rfl (.inr rfl)
    · simp only [Routine.obeys_bind, Routine.obeys_ofExcept, Routine.obeys_modify]
      refine ⟨fun reason _ => ?_, fun e _ => hfailed rfl rfl rfl (.inr rfl)⟩
      have hfalse : allPassed (l ++ [⟨"connector", false, some reason⟩]) = false := by
        simp [allPassed]
      refine obeys_firstBlocking hswitch ?_ ?_ _
      · intro blocking
        cases blocking with
        | some scope => exact hfailed rfl rfl rfl (.inr rfl)
        | none => exact hfailed rfl rfl rfl (.inl hfalse)
      · exact fun e => hfailed rfl rfl rfl (.inr rfl)
  · exact hfailed rfl rfl rfl (.inr rfl)
  · exact hfailed rfl rfl rfl (.inr rfl)

theorem obeys_dryRunChecks {ok : Rehearsal → Checks → Unit → Prop}
    (hparsed : TradingIntent.safeParse host (s.approval.field? "intent") = some intent)
    (hdecision : ∃ startedAt, s.startedAt = some startedAt ∧
      s.broker.validDryRunDecision s.approval intent (host.toISOString startedAt) = .ok true)
    (hl : l = [⟨"decision", true, none⟩])
    (hok : ∀ s' l', s'.broker = s.broker → s'.approval = s.approval →
      s'.startedAt = s.startedAt → (allPassed l' = true → s'.Checked intent l') → ok s' l' ()) :
    Routine.Obeys (Rehearsal.contract host) ok err s l
      (s.broker.dryRunChecks opaqueConnector s.approval intent) := by
  unfold ExecutionBroker.dryRunChecks
  by_cases henvironment : s.broker.environmentMatches intent = true
  · rw [if_neg (by rw [henvironment]; exact Bool.false_ne_true)]
    have hrest : ∀ preflight : List PreflightCheckResult,
        (allPassed preflight = true → preflight.map PreflightCheckResult.check =
          if s.broker.environment = .canaryLive then ["kill_switch", "audit", "approval"]
          else []) →
        Routine.Obeys (Rehearsal.contract host) ok err s (l ++ [⟨"environment", true, none⟩])
          (do
            modify fun checks => checks ++ preflight
            if allPassed preflight then lateChecks opaqueConnector intent) := by
      intro preflight hnames
      simp only [Routine.obeys_bind, Routine.obeys_modify]
      split_ifs with hpreflight
      · refine obeys_lateChecks fun s' l' hbroker happroval hstart hlate => ?_
        refine hok _ _ hbroker happroval hstart fun hpassed => ?_
        obtain ⟨-, hrevalidated, hchecks⟩ := hlate hpassed
        refine ⟨by rw [happroval]; exact hparsed, ?_, by rw [hbroker]; exact henvironment,
          hrevalidated, ?_⟩
        · rw [hstart, hbroker, happroval]
          exact hdecision
        · rw [hchecks, hbroker, Rehearsal.checkNames, ← hnames hpreflight, hl]
          simp
      · refine hok _ _ rfl rfl rfl fun hpassed => ?_
        rw [allPassed_append, Bool.and_eq_true] at hpassed
        exact absurd hpassed.2 hpreflight
    simp only [push, Routine.obeys_bind, Routine.obeys_modify]
    split_ifs with hlive
    · rw [Routine.obeys_bind]
      refine obeys_runPreflight (Rehearsal.inert_killSwitchIsActive s)
        ⟨True.intro, fun _ => rfl⟩ ⟨True.intro, fun _ => rfl⟩
        (fun _ => s.inert_preflightEvent) fun preflight hpreflight => ?_
      exact hrest preflight fun h => by rw [if_pos hlive]; exact hpreflight h
    · rw [Routine.obeys_bind, Routine.obeys_pure]
      exact hrest [] fun _ => by rw [if_neg hlive]; rfl
  · rw [if_pos (by simpa using henvironment)]
    refine hok _ _ rfl rfl rfl fun hpassed => ?_
    simp [allPassed] at hpassed

/-- Every call of `dryRun` obeys its contract: a report authorizes an order only when all
of its checks passed. -/
theorem obeys_dryRun (broker : ExecutionBroker) (approval : Json) :
    Routine.Obeys (Rehearsal.contract host) (fun s _ r => s.final host (.ok r))
      (fun s _ e => s.final host (.error e)) { broker, approval } []
      (broker.dryRun opaqueConnector approval) := by
  simp only [ExecutionBroker.dryRun, Routine.obeys_bind, Script.obeys_now]
  refine ⟨True.intro, fun t => ?_⟩
  have hfinish : ∀ {s : Rehearsal} {l : Checks} {parsed : Option (TradingIntent host)},
      s.broker = broker → s.approval = approval → s.startedAt.isSome →
      (allPassed l = true → ∃ intent, parsed = some intent ∧ s.Checked intent l) →
      Routine.Obeys (Rehearsal.contract host) (fun s _ r => s.final host (.ok r))
        (fun s _ e => s.final host (.error e)) s l (broker.finishDryRun approval parsed) := by
    intro s l parsed hbroker happroval hstart hchecked
    subst hbroker
    exact obeys_finishDryRun happroval hstart hchecked
  have hinvalid : ∀ parsed : Option (TradingIntent host),
      Routine.Obeys (Rehearsal.contract host) (fun s _ r => s.final host (.ok r))
        (fun s _ e => s.final host (.error e)) (Rehearsal.next { broker, approval } .now t)
        ([] ++ [⟨"decision", false, some "A fresh, authentic dry-run decision is required."⟩])
        (broker.finishDryRun approval parsed) := by
    intro parsed
    exact hfinish rfl rfl rfl fun hpassed => by simp [allPassed] at hpassed
  cases hparsed : TradingIntent.safeParse host (approval.field? "intent") with
  | none =>
      simp only [push, Routine.obeys_pure, Routine.obeys_bind, Routine.obeys_modify]
      exact hinvalid none
  | some intent =>
      simp only [Routine.obeys_bind, Routine.obeys_ofExcept]
      refine ⟨fun valid hvalid => ?_, fun e _ => True.intro⟩
      cases valid with
      | false =>
          simp only [push, Routine.obeys_bind, Routine.obeys_modify]
          exact hinvalid (some intent)
      | true =>
          simp only [push, Routine.obeys_bind, Routine.obeys_modify]
          refine obeys_dryRunChecks (s := Rehearsal.next { broker, approval } .now t) hparsed
            ⟨t, rfl, hvalid⟩ rfl fun s' l' hbroker happroval hstart hchecked => ?_
          refine hfinish hbroker happroval ?_ fun hpassed => ⟨intent, rfl, hchecked hpassed⟩
          rw [hstart]
          rfl

end
end TradingGuardrails
