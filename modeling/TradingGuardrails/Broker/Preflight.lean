import TradingGuardrails.Broker.DryRun

/-!
Kill switch scopes of an intent, the reading of a kill switch, and the preflight of live
modes: kill switch, audit writer and approval store must answer, and the summary must
be written.
-/
namespace TradingGuardrails

open Text Interleaving

variable {host : Host} {σ : Type}

def getKillSwitchScopes (intent : TradingIntent host) : List KillSwitchScope :=
  [.global, .agent intent.principal] ++
    (if intent.has "exchange" then [.exchange intent.exchange] else []) ++
    (if intent.has "account" then [.account intent.account] else []) ++
    (if intent.has "chain" then [.chain intent.chain] else [])

def killSwitchUnreachable : Thrown :=
  .error .killSwitchReachability "Kill switch is not reachable."

def readKillSwitchBlocking (scope : KillSwitchScope) (intent : TradingIntent host) :
    Script host σ Bool := do
  let reply ← Script.perform (.killSwitchIsActive scope)
  match reply with
  -- Cancellation may proceed during a known stop, never with an unknown controller state.
  | .ok (some (.bool active)) => pure (active && intent.action != .cancelOrder)
  | _ => throw killSwitchUnreachable

def firstBlocking (intent : TradingIntent host) :
    List KillSwitchScope → Script host σ (Option KillSwitchScope)
  | [] => pure none
  | scope :: scopes => do
      let blocking ← readKillSwitchBlocking scope intent
      if blocking then pure (some scope) else firstBlocking intent scopes

structure PreflightCheckResult where
  check : String
  passed : Bool
  message : Option String := none
  deriving DecidableEq

def PreflightCheckResult.toJson (result : PreflightCheckResult) : Json :=
  .record [
    ("check", some (.str result.check)),
    ("passed", some (.bool result.passed)),
    ("message", result.message.map .str)]

/-- What a broker can ask of its audit writer and of its live approval store. -/
structure PreflightCapabilities where
  auditHealthCheck : Bool
  /-- Whether a live approval store was given, and whether it was explicitly configured. -/
  liveApprovalStore : Option Bool

def checkKillSwitch (intent : TradingIntent host) : Script host σ PreflightCheckResult :=
  tryCatch
    (do
      let blocking ← firstBlocking intent (getKillSwitchScopes intent)
      match blocking with
      | some _ => pure ⟨"kill_switch", false, some "Kill switch is active."⟩
      | none => pure ⟨"kill_switch", true, none⟩)
    fun _ => pure ⟨"kill_switch", false, some "Kill switch is not reachable."⟩

def checkAudit (capabilities : PreflightCapabilities) : Script host σ PreflightCheckResult :=
  if !capabilities.auditHealthCheck then
    pure ⟨"audit", false, some "Audit writer health check is not available."⟩
  else do
    let healthy ← Script.perform .auditCheckHealth
    match healthy with
    | .ok () => pure ⟨"audit", true, none⟩
    | .error _ => pure ⟨"audit", false, some "Audit writer health check failed."⟩

def checkApproval (capabilities : PreflightCapabilities) : Script host σ PreflightCheckResult :=
  match capabilities.liveApprovalStore with
  | none => pure ⟨"approval", false, some "Approval store health check is not available."⟩
  | some false => pure ⟨"approval", false,
      some "Approval store is not explicitly configured for live trading."⟩
  | some true => do
      let healthy ← Script.perform .approvalCheckHealth
      match healthy with
      | .ok () => pure ⟨"approval", true, none⟩
      | .error _ => pure ⟨"approval", false, some "Approval store health check failed."⟩

def allPassed (checks : List PreflightCheckResult) : Bool :=
  checks.all PreflightCheckResult.passed

def writeSummary (environment : Environment) (intent : TradingIntent host)
    (correlationId : Option Json) (checks : List PreflightCheckResult) : Script host σ Bool :=
  if !truthy correlationId then pure false
  else do
    let event : AuditEventInput := {
      eventType := .brokerPreflight
      environment := environment
      intentId := some (.str intent.intentId)
      principal := some (.str intent.principal)
      correlationId := correlationId
      data := .record [
        ("passed", some (.bool (allPassed checks))),
        ("checks", some (.arr (checks.map PreflightCheckResult.toJson)))] }
    let written ← Script.perform (.auditWrite event.toJson)
    match written with
    | .ok () => pure true
    | .error _ => pure false

def recordFailedAuditCheck (message : String) :
    List PreflightCheckResult → List PreflightCheckResult
  | [] => [⟨"audit", false, some message⟩]
  | check :: checks =>
      if check.check = "audit" then
        (if check.passed then ⟨"audit", false, some message⟩ else check) :: checks
      else check :: recordFailedAuditCheck message checks

def runPreflight (capabilities : PreflightCapabilities) (environment : Environment)
    (intent : TradingIntent host) (correlationId : Option Json) :
    Script host σ (List PreflightCheckResult) := do
  let killSwitch ← checkKillSwitch intent
  let audit ← checkAudit capabilities
  let approval ← checkApproval capabilities
  let checks := [killSwitch, audit, approval]
  let written ← writeSummary environment intent correlationId checks
  if written then pure checks
  else pure (recordFailedAuditCheck "Audit preflight summary could not be written." checks)

theorem not_allPassed_recordFailedAuditCheck (message : String)
    (checks : List PreflightCheckResult) :
    allPassed (recordFailedAuditCheck message checks) = false := by
  induction checks with
  | nil => rfl
  | cons check checks ih =>
      simp only [recordFailedAuditCheck]
      split_ifs with haudit hpassed
      · rfl
      · simp only [allPassed, List.all_cons, Bool.not_eq_true] at hpassed ⊢
        rw [hpassed, Bool.false_and]
      · simp only [allPassed, List.all_cons] at ih ⊢
        rw [ih, Bool.and_false]

def isPreflightEvent (event : Json) : Bool :=
  event.field? "eventType" == some (.str AuditEventType.brokerPreflight.text)

section

variable {C : Contract (Op host) (Ans host)} {s : C.State} {l : σ}
  {err : C.State → σ → Thrown → Prop}

theorem obeys_readKillSwitchBlocking {intent : TradingIntent host} {scope : KillSwitchScope}
    {ok : C.State → σ → Bool → Prop} (hswitch : C.Inert s (.killSwitchIsActive scope))
    (hok : ∀ b, ok s l b) (herr : ∀ e, err s l e) :
    Routine.Obeys C ok err s l (readKillSwitchBlocking scope intent) := by
  simp only [readKillSwitchBlocking, Routine.obeys_bind]
  rw [Routine.obeys_perform_inert hswitch]
  intro a
  split
  · exact hok _
  · exact herr _

theorem obeys_firstBlocking {intent : TradingIntent host}
    {ok : C.State → σ → Option KillSwitchScope → Prop}
    (hswitch : ∀ scope, C.Inert s (.killSwitchIsActive scope))
    (hok : ∀ r, ok s l r) (herr : ∀ e, err s l e) (scopes : List KillSwitchScope) :
    Routine.Obeys C ok err s l (firstBlocking intent scopes) := by
  induction scopes with
  | nil => exact hok _
  | cons scope scopes ih =>
      simp only [firstBlocking, Routine.obeys_bind]
      refine obeys_readKillSwitchBlocking (hswitch scope) (fun b => ?_) herr
      split_ifs
      · exact hok _
      · exact ih

theorem obeys_checkKillSwitch {intent : TradingIntent host}
    {ok : C.State → σ → PreflightCheckResult → Prop}
    (hswitch : ∀ scope, C.Inert s (.killSwitchIsActive scope))
    (hok : ∀ r, r.check = "kill_switch" → ok s l r) :
    Routine.Obeys C ok err s l (checkKillSwitch intent) := by
  simp only [checkKillSwitch, Routine.obeys_tryCatch, Routine.obeys_bind]
  refine obeys_firstBlocking hswitch (fun r => ?_) (fun e => hok _ rfl) _
  cases r with
  | none => exact hok _ rfl
  | some scope => exact hok _ rfl

theorem obeys_checkAudit {capabilities : PreflightCapabilities}
    {ok : C.State → σ → PreflightCheckResult → Prop} (hhealth : C.Inert s .auditCheckHealth)
    (hok : ∀ r, r.check = "audit" → ok s l r) :
    Routine.Obeys C ok err s l (checkAudit capabilities) := by
  unfold checkAudit
  split_ifs
  · exact hok _ rfl
  · simp only [Routine.obeys_bind]
    rw [Routine.obeys_perform_inert hhealth]
    intro a
    cases a with
    | ok u => exact hok _ rfl
    | error e => exact hok _ rfl

theorem obeys_checkApproval {capabilities : PreflightCapabilities}
    {ok : C.State → σ → PreflightCheckResult → Prop} (hhealth : C.Inert s .approvalCheckHealth)
    (hok : ∀ r, r.check = "approval" → ok s l r) :
    Routine.Obeys C ok err s l (checkApproval capabilities) := by
  unfold checkApproval
  split
  · exact hok _ rfl
  · exact hok _ rfl
  · simp only [Routine.obeys_bind]
    rw [Routine.obeys_perform_inert hhealth]
    intro a
    cases a with
    | ok u => exact hok _ rfl
    | error e => exact hok _ rfl

theorem obeys_writeSummary {environment : Environment} {intent : TradingIntent host}
    {correlationId : Option Json} {checks : List PreflightCheckResult}
    {ok : C.State → σ → Bool → Prop}
    (hwrite : ∀ event, Plain event → isPreflightEvent event = true →
      C.Inert s (.auditWrite event)) (hok : ∀ r, ok s l r) :
    Routine.Obeys C ok err s l (writeSummary environment intent correlationId checks) := by
  unfold writeSummary
  split_ifs
  · exact hok _
  · simp only [Routine.obeys_bind]
    rw [Routine.obeys_perform_inert
      (hwrite _ (plain_toJson rfl) (by simp [isPreflightEvent, AuditEventInput.toJson]))]
    intro a
    cases a with
    | ok u => exact hok _
    | error e => exact hok _

/-- A preflight that passed has made all of its checks. -/
theorem obeys_runPreflight {capabilities : PreflightCapabilities} {environment : Environment}
    {intent : TradingIntent host} {correlationId : Option Json}
    {ok : C.State → σ → List PreflightCheckResult → Prop}
    (hswitch : ∀ scope, C.Inert s (.killSwitchIsActive scope))
    (haudit : C.Inert s .auditCheckHealth) (happroval : C.Inert s .approvalCheckHealth)
    (hwrite : ∀ event, Plain event → isPreflightEvent event = true →
      C.Inert s (.auditWrite event))
    (hok : ∀ r, (allPassed r = true →
      r.map PreflightCheckResult.check = ["kill_switch", "audit", "approval"]) → ok s l r) :
    Routine.Obeys C ok err s l
      (runPreflight capabilities environment intent correlationId) := by
  simp only [runPreflight, Routine.obeys_bind]
  refine obeys_checkKillSwitch hswitch fun killSwitch hkillSwitch => ?_
  refine obeys_checkAudit haudit fun audit haudit => ?_
  refine obeys_checkApproval happroval fun approval happroval => ?_
  refine obeys_writeSummary hwrite fun written => ?_
  split_ifs
  · refine hok _ fun _ => ?_
    simp only [List.map_cons, List.map_nil, hkillSwitch, haudit, happroval]
  · refine hok _ fun hpassed => ?_
    rw [not_allPassed_recordFailedAuditCheck] at hpassed
    cases hpassed

end
end TradingGuardrails
