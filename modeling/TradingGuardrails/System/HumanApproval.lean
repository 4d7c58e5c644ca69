import TradingGuardrails.Approval.Transactions
import TradingGuardrails.System.Authority

/-!
The gate of human approval. A decision that needs a human reaches the connector only with
an approval for exactly this intent, which the same call has used up before; so an
approval is good for one submission, whoever else works on the database meanwhile.
-/
namespace TradingGuardrails

open Text Interleaving

variable {host : Host} {dep : Deployment} {cfg : Config (signature host)}

/-- An approval is for an intent and for the decision about it. -/
structure Covers (params : ApprovalParams) (intent : TradingIntent host)
    (correlationId : Option Json) : Prop where
  intentId : params.intentId = intent.intentId
  principal : params.principal = intent.principal
  action : params.action = intent.action.text
  resource : params.resource = intent.resource
  environment : params.environment = intent.environment
  /-- Nothing is compared for a decision without a correlation id. -/
  correlation : ∀ v, correlationId = some v → v = .str params.correlationId
  intentData : Json.Equiv params.intentData intent.value

/-- An approval is used up at a moment, and nothing else changes. -/
structure Spends (host : Host) (db db' : ApprovalDatabase) (approvalId : String) (now : Instant)
    (row : ApprovalRequest) : Prop where
  found : db.get approvalId = some row
  approved : row.state = .approved
  oneTime : row.approvalType = .oneTime
  inTime : ∃ timeout : Instant, row.timeoutAt = host.toISOString timeout ∧ now.ms < timeout.ms
  consumed : db'.get approvalId = some { row with state := .consumed }
  others : ∀ other, other ≠ approvalId → db'.get other = db.get other

def Consumes (dep : Deployment) (cfg : Config (signature host)) (log : History host) (c : Nat)
    (approvalId : String) (row : ApprovalRequest) : Prop :=
  ∃ (newer : History host) (before after : Config (signature host)) (consumption : Consumption),
    (dep.system host).Reachable before ∧ (dep.system host).Reachable after ∧
    (∃ steps, (dep.system host).exec after steps = cfg) ∧
    after.log = .did c (.approvalConsumeOneTime approvalId) (.ok consumption) :: before.log ∧
    log = newer ++ after.log ∧
    Spends host before.world.approvals after.world.approvals approvalId consumption.at_ row

namespace HumanApproval

/-- Rows are issued once, with timeouts that were written by a clock, and carry no decision
while they are pending. -/
structure Stored (host : Host) (db : ApprovalDatabase) : Prop where
  wellFormed : db.WellFormed
  timeouts : ∀ r ∈ db.rows, ∃ t, r.timeoutAt = host.toISOString t
  undecided : ∀ r ∈ db.rows, r.state = .pending → r.decidedAt = none ∧ r.decidedBy = none

theorem Stored.empty : Stored host .empty :=
  ⟨.empty, (fun _ h => by cases h), (fun _ h => by cases h)⟩

theorem not_moves_pending {state : ApprovalState} : ¬ApprovalState.Moves state .pending := by
  intro h
  cases h

theorem Stored.change {db db' : ApprovalDatabase} (hdb : Stored host db)
    (h : db.Change host db') : Stored host db' := by
  refine ⟨h.wellFormed hdb.wellFormed, h.timeouts hdb.timeouts, ?_⟩
  cases h with
  | stay => exact hdb.undecided
  | @save r r' found moves =>
      intro x hx hpending
      obtain ⟨x₀, hx₀, rfl⟩ := List.mem_map.mp hx
      split_ifs at hpending ⊢
      · exact absurd (hpending ▸ moves.moves) not_moves_pending
      · exact hdb.undecided x₀ hx₀ hpending
  | insert params approvalId now timeout fresh =>
      intro x hx hpending
      rcases List.mem_append.mp hx with hold | hnew
      · exact hdb.undecided x hold hpending
      · rw [List.mem_singleton.mp hnew]
        exact ⟨rfl, rfl⟩
  | delete approvalId =>
      exact fun x hx => hdb.undecided x (List.mem_of_mem_filter hx)

/-- A decision on a pending row, or its timeout. -/
theorem Stored.decided {db : ApprovalDatabase} (hdb : Stored host db) {r : ApprovalRequest}
    {approvalId : String} (hget : db.get approvalId = some r) (hpending : r.state = .pending)
    {state : ApprovalState} (hmoves : ApprovalState.Moves .pending state) (decidedAt : String)
    (decidedBy : Option String) :
    db.Change host (db.save
      { r with state := state, decidedAt := some decidedAt, decidedBy := decidedBy }) := by
  obtain ⟨hmem, hid⟩ := ApprovalDatabase.get_mem hget
  obtain ⟨hat, hby⟩ := hdb.undecided r hmem hpending
  refine .save (r := r) (by rw [hid]; exact hget) ?_
  have hmoves' : ApprovalState.Moves r.state state := by rwa [hpending]
  refine ⟨⟨rfl, rfl, rfl, rfl, fun at₀ h₀ => ?_, fun by₀ h₀ => ?_, .single hmoves'⟩, hmoves'⟩
  · rw [hat] at h₀
    cases h₀
  · rw [hby] at h₀
    cases h₀

theorem change_decide {db : ApprovalDatabase} (hdb : Stored host db) {decision : ApprovalState}
    (hmoves : ApprovalState.Moves .pending decision) (approvalId decidedBy : String)
    (now : Instant) (audited : Bool) :
    db.Change host (db.decide host decision approvalId decidedBy now audited) := by
  simp only [ApprovalDatabase.decide]
  cases hget : db.get approvalId with
  | none => exact .stay
  | some request =>
      dsimp only
      split_ifs with hstate
      · exact .stay
      · exact .stay
      · exact hdb.decided hget (not_not.mp hstate) .timeout _ none
      · exact hdb.decided hget (not_not.mp hstate) hmoves _ (some decidedBy)

theorem change_expire {db : ApprovalDatabase} (hdb : Stored host db) (approvalId : String)
    (now : Instant) (audited : Bool) : db.Change host (db.expire host approvalId now audited) := by
  simp only [ApprovalDatabase.expire]
  cases hget : db.get approvalId with
  | none => exact .stay
  | some request =>
      dsimp only
      split_ifs with hstate
      · exact .stay
      · exact .stay
      · exact .stay
      · exact hdb.decided hget (not_not.mp hstate) .timeout _ none

theorem change_consume {db : ApprovalDatabase} (approvalId : String) (now : Instant) :
    db.Change host (db.consumeOneTime host approvalId now).2 := by
  cases hr : (db.consumeOneTime host approvalId now).1 with
  | none =>
      rw [ApprovalDatabase.consumeOneTime_none hr]
      exact .stay
  | some r =>
      obtain ⟨request, hget, happroved, -, rfl, -, hdb⟩ := ApprovalDatabase.consumeOneTime_some hr
      rw [hdb]
      have hmoves : ApprovalState.Moves request.state .consumed := by
        rw [happroved]
        exact .consume
      refine .save (r := request) ?_
        ⟨⟨rfl, rfl, rfl, rfl, fun _ h => h, fun _ h => h, .single hmoves⟩, hmoves⟩
      rw [(ApprovalDatabase.get_mem hget).2]
      exact hget

theorem perform_change {p : Nat} {op : Op host} {i : Input} {w w' : World host}
    {a : Ans host op} (h : dep.perform p op i w = some (a, w')) :
    w.approvals.Change host w'.approvals := by
  by_cases hop : Deployment.touches op = .approvals
  · cases op with
    | approvalCreate params =>
        simp only [Deployment.perform, Deployment.approvalCreate] at h
        split at h
        · cases h
          exact .stay
        · split_ifs at h with hfresh
          cases h
          exact .insert params i.id i.clock i.timeout hfresh
    | approvalDelete deleted =>
        simp only [Deployment.perform] at h
        split at h <;> cases h
        · exact .stay
        · exact .delete deleted
    | approvalConsumeOneTime consumed =>
        simp only [Deployment.perform, Deployment.approvalConsumeOneTime, Option.some.injEq] at h
        split at h <;> cases h
        · exact .stay
        · exact change_consume consumed i.clock
    | _ => cases hop
  · rw [(dep.perform_frame h).approvals hop]
    exact .stay

theorem act_change {x : Outside} {w w' : World host} (hdb : Stored host w.approvals)
    (h : x.act w = some w') : w.approvals.Change host w'.approvals := by
  cases x with
  | createApproval params approvalId now timeout =>
      simp only [Outside.act] at h
      split_ifs at h with hfresh
      cases h
      exact .insert params approvalId now timeout hfresh
  | approve approvalId decidedBy now audited =>
      cases h
      exact change_decide hdb .approve approvalId decidedBy now audited
  | deny approvalId decidedBy now audited =>
      cases h
      exact change_decide hdb .deny approvalId decidedBy now audited
  | expire approvalId now audited =>
      cases h
      exact change_expire hdb approvalId now audited
  | consumeOneTime approvalId now =>
      cases h
      exact change_consume approvalId now
  | deleteApproval approvalId =>
      cases h
      exact .delete approvalId
  | activate | deactivate =>
      cases h
      exact .stay

theorem move_change {cfg cfg' : Config (signature host)} (hdb : Stored host cfg.world.approvals)
    (h : (dep.discipline host).Move (dep.system host) cfg cfg') :
    cfg.world.approvals.Change host cfg'.world.approvals := by
  cases h with
  | act live program state allowed turn performed => exact perform_change performed
  | outside rests acted => exact act_change hdb acted
  | start | finish | crash => exact .stay

theorem stored_reachable (h : (dep.system host).Reachable cfg) :
    Stored host cfg.world.approvals := by
  refine @Discipline.invariant _ _ _ (dep.followed host)
    (fun cfg => Stored host cfg.world.approvals) ?_ (fun cfg cfg' _ _ hdb hmove => ?_) _ h
  · rintro w rfl
    exact .empty
  · exact hdb.change (move_change hdb hmove)

/-- A row at a later moment is a later version of the row under its id. -/
theorem evolves_exec (h : (dep.system host).Reachable cfg) (steps : List (Step (signature host)))
    {approvalId : String} {r r' : ApprovalRequest}
    (hr : cfg.world.approvals.get approvalId = some r)
    (hr' : ((dep.system host).exec cfg steps).world.approvals.get approvalId = some r') :
    Evolves r r' := by
  have hversions : ((dep.system host).exec cfg steps).world.approvals.isFresh approvalId = false ∧
      ∀ r', ((dep.system host).exec cfg steps).world.approvals.get approvalId = some r' →
        Evolves r r' := by
    refine @Discipline.invariant_exec _ _ _ (dep.followed host)
      (fun cfg => cfg.world.approvals.isFresh approvalId = false ∧
        ∀ r', cfg.world.approvals.get approvalId = some r' → Evolves r r')
      (fun cfg cfg' hreach _ hinv hmove => ?_) _ h ?_ steps
    · obtain ⟨hissued, hversions⟩ := hinv
      have hdb := stored_reachable hreach
      have hchange := move_change hdb hmove
      refine ⟨hchange.issued hissued, fun r'' hr'' => ?_⟩
      cases hget : cfg.world.approvals.get approvalId with
      | none => exact absurd (hissued.symm.trans (hchange.appears hget hr'').1) (by simp)
      | some r₁ =>
          rcases hchange.evolves hdb.wellFormed hget with hgone | ⟨r₂, hr₂, hmoved⟩
          · cases hgone.symm.trans hr''
          · cases hr₂.symm.trans hr''
            rcases hmoved with rfl | hmoves
            · exact hversions _ hget
            · exact (hversions r₁ hget).trans hmoves.toEvolves
    · refine ⟨(stored_reachable h).wellFormed.issued_of_get hr, fun r' hr' => ?_⟩
      cases hr.symm.trans hr'
      exact .refl r
  exact hversions.2 r' hr'

theorem issued_exec (h : (dep.system host).Reachable cfg) (steps : List (Step (signature host)))
    {i : ApprovalRequest} (hi : i ∈ cfg.world.approvals.issued) :
    i ∈ ((dep.system host).exec cfg steps).world.approvals.issued := by
  refine @Discipline.invariant_exec _ _ _ (dep.followed host)
    (fun cfg => i ∈ cfg.world.approvals.issued) (fun cfg cfg' hreach _ hi hmove => ?_) _ h hi steps
  have hchange := move_change (stored_reachable hreach) hmove
  generalize cfg'.world.approvals = db at hchange
  cases hchange with
  | stay | save _ _ | delete _ => exact hi
  | insert _ _ _ _ _ => exact List.mem_append_left _ hi

/-- The rows under one id are versions of one request, whenever they are read. -/
theorem same_request {before before' : Config (signature host)}
    (h : (dep.system host).Reachable before) (h' : (dep.system host).Reachable before')
    (hrest : ∃ steps, (dep.system host).exec before steps = cfg)
    (hrest' : ∃ steps, (dep.system host).exec before' steps = cfg) {approvalId : String}
    {r r' : ApprovalRequest} (hr : before.world.approvals.get approvalId = some r)
    (hr' : before'.world.approvals.get approvalId = some r') :
    ApprovalDatabase.SameRequest r r' := by
  obtain ⟨steps, rfl⟩ := hrest
  obtain ⟨steps', hexec⟩ := hrest'
  obtain ⟨hmem, hid⟩ := ApprovalDatabase.get_mem hr
  obtain ⟨hmem', hid'⟩ := ApprovalDatabase.get_mem hr'
  obtain ⟨i, hi, hsame⟩ := (stored_reachable h).wellFormed.rowIssued r hmem
  obtain ⟨i', hi', hsame'⟩ := (stored_reachable h').wellFormed.rowIssued r' hmem'
  have hlater := issued_exec h steps hi
  have hlater' := issued_exec h' steps' hi'
  rw [hexec] at hlater'
  have honce := (stored_reachable ((dep.system host).reachable_exec h steps)).wellFormed.issuedOnce
  have hids : i.approvalId = i'.approvalId :=
    hsame.2.1.symm.trans (hid.trans (hid'.symm.trans hsame'.2.1))
  obtain rfl := List.inj_on_of_nodup_map honce hlater hlater' hids
  exact ⟨hsame.1.trans hsame'.1.symm, hsame.2.1.trans hsame'.2.1.symm,
    hsame.2.2.trans hsame'.2.2.symm⟩

structure Remembers (log : History host) (c : Nat) (s : Attempt) : Prop where
  listed : ∀ requests, s.listed = some requests → .did c .approvalList (.ok requests) ∈ log
  found : ∀ approvalId found, s.found = some (approvalId, found) →
    .did c (.approvalGet approvalId) (.ok found) ∈ log
  consumed : ∀ approvalId consumption, s.consumed = some (approvalId, consumption) →
    .did c (.approvalConsumeOneTime approvalId) (.ok consumption) ∈ log

theorem Remembers.later {log : History host} {c : Nat} {s : Attempt} (h : Remembers log c s)
    (event : Event (signature host)) : Remembers (event :: log) c s :=
  ⟨fun requests hs => List.mem_cons_of_mem _ (h.listed requests hs),
    fun approvalId found hs => List.mem_cons_of_mem _ (h.found approvalId found hs),
    fun approvalId consumption hs => List.mem_cons_of_mem _ (h.consumed approvalId consumption hs)⟩

theorem Remembers.next {log : History host} {c : Nat} {s : Attempt} (h : Remembers log c s)
    (op : Op host) (a : Ans host op) : Remembers (.did c op a :: log) c (s.next op a) := by
  have hlater := h.later (.did c op a)
  refine ⟨fun requests hs => ?_, fun approvalId found hs => ?_, fun approvalId consumption hs => ?_⟩
  · cases op with
    | approvalList =>
        cases a with
        | error e => exact hlater.listed requests hs
        | ok listed =>
            cases hs
            exact List.mem_cons_self
    | _ => exact hlater.listed requests hs
  · cases op with
    | approvalGet id =>
        cases a with
        | error e => exact hlater.found approvalId found hs
        | ok row =>
            cases hs
            exact List.mem_cons_self
    | _ => exact hlater.found approvalId found hs
  · cases op with
    | approvalConsumeOneTime id =>
        cases a with
        | error e => exact hlater.consumed approvalId consumption hs
        | ok row =>
            cases hs
            exact List.mem_cons_self
    | _ => exact hlater.consumed approvalId consumption hs

theorem remembers_of_state {log : History host} (hkept : (dep.discipline host).Kept log)
    {c p : Nat} {s : Attempt} (hs : (dep.discipline host).state c log = some ⟨p, .executing s⟩) :
    Remembers log c s := by
  refine hkept.evidence (P := fun c (st : CallState host) log =>
    ∀ s, st.progress = .executing s → Remembers log c s) ?_ ?_ ?_ hs s rfl
  · intro c p e log s hstart
    cases e with
    | execute approval authorization =>
        cases hstart
        exact ⟨(fun _ h => by cases h), (fun _ _ h => by cases h), (fun _ _ h => by cases h)⟩
    | dryRun | evaluate | callback => cases hstart
  · intro c st event log ih s hs
    exact (ih s hs).later event
  · rintro c ⟨p, progress⟩ op a log ih - s hnext
    cases progress with
    | executing s' =>
        cases hnext
        exact (ih s' rfl).next op a
    | rehearsing | appraising | checking => cases hnext

theorem covers_of_matches {row : ApprovalRequest} {intent : TradingIntent host}
    {correlationId : Option Json}
    (h : ExecutionBroker.approvalMatchesIntent row intent correlationId = true) :
    Covers row.toApprovalParams intent correlationId := by
  simp only [ExecutionBroker.approvalMatchesIntent, Bool.and_eq_true, beq_iff_eq,
    Bool.or_eq_true] at h
  obtain ⟨⟨⟨⟨⟨⟨hintentId, hprincipal⟩, haction⟩, hresource⟩, henvironment⟩, hcorrelation⟩,
    hdata⟩ := h
  refine ⟨hintentId, hprincipal, haction, hresource, henvironment, fun v hv => ?_,
    equiv_of_stableJson host hdata⟩
  rcases hcorrelation with hnone | hsame
  · rw [hv] at hnone
    cases hnone
  · exact Option.some.inj (hv.symm.trans hsame)

theorem get_spent {db : ApprovalDatabase} {approvalId : String} {row : ApprovalRequest}
    (h : db.get approvalId = some row) :
    (db.save { row with state := .consumed }).get approvalId =
        some { row with state := .consumed } ∧
      ∀ other, other ≠ approvalId →
        (db.save { row with state := .consumed }).get other = db.get other := by
  obtain ⟨-, rfl⟩ := ApprovalDatabase.get_mem h
  exact ⟨ApprovalDatabase.get_save (r := { row with state := .consumed }) h,
    fun other hne => ApprovalDatabase.get_save_of_ne (r := { row with state := .consumed }) hne⟩

theorem performed_consume (hhost : host.Lawful) {p : Nat} {i : Input} {w w' : World host}
    (hdb : Stored host w.approvals) {approvalId : String} {consumption : Consumption}
    {r : ApprovalRequest}
    (h : dep.perform p (.approvalConsumeOneTime approvalId : Op host) i w =
      some (.ok consumption, w')) (hr : consumption.request = some r) :
    ∃ row, Spends host w.approvals w'.approvals approvalId consumption.at_ row := by
  simp only [Deployment.perform, Deployment.approvalConsumeOneTime, Option.some.injEq] at h
  split at h
  · cases h
  · cases h
    obtain ⟨row, hget, happroved, htype, rfl, htime, hsaved⟩ :=
      ApprovalDatabase.consumeOneTime_some hr
    obtain ⟨timeout, htimeout⟩ := hdb.timeouts row (ApprovalDatabase.get_mem hget).1
    obtain ⟨hconsumed, hothers⟩ := get_spent hget
    refine ⟨row, hget, happroved, htype, ⟨timeout, htimeout, ?_⟩, ?_, ?_⟩
    · exact htime timeout.ms (by rw [htimeout, hhost.dateParse_toISOString])
    · rw [hsaved]
      exact hconsumed
    · rw [hsaved]
      exact hothers

theorem consumed_final {state : ApprovalState}
    (h : Relation.ReflTransGen ApprovalState.Moves .consumed state) : state = .consumed := by
  rcases Relation.ReflTransGen.cases_head h with rfl | ⟨next, hmoves, -⟩
  · rfl
  · cases hmoves

/-- A consumption that found an approval, with the moments around it. -/
structure Spending (dep : Deployment) (cfg : Config (signature host)) (c : Nat)
    (approvalId : String) (consumption : Consumption) (older : History host)
    (before after : Config (signature host)) (row : ApprovalRequest) : Prop where
  reachable : (dep.system host).Reachable before
  reaches : (dep.system host).Reachable after
  log : before.log = older
  logs : after.log = .did c (.approvalConsumeOneTime approvalId) (.ok consumption) :: before.log
  rest : ∃ steps, (dep.system host).exec after steps = cfg
  spends : Spends host before.world.approvals after.world.approvals approvalId consumption.at_ row

theorem spending (hhost : host.Lawful) (h : (dep.system host).Reachable cfg)
    {newer older : History host} {c : Nat} {approvalId : String} {consumption : Consumption}
    {r : ApprovalRequest}
    (hlog : cfg.log =
      newer ++ .did c (.approvalConsumeOneTime approvalId) (.ok consumption) :: older)
    (hr : consumption.request = some r) :
    ∃ before after row, Spending dep cfg c approvalId consumption older before after row := by
  obtain ⟨before, after, p, entry, progress, hpast⟩ := Deployment.past_reachable h hlog
  obtain ⟨i, hperformed⟩ := hpast.performed
  obtain ⟨row, hspends⟩ :=
    performed_consume hhost (stored_reachable hpast.reachable) hperformed hr
  exact ⟨before, after, row, hpast.reachable, hpast.reaches, hpast.log,
    hpast.log.symm ▸ hpast.logs, hpast.rest, hspends⟩

/-- No approval is used up twice. -/
theorem not_spent_twice (hhost : host.Lawful) (h : (dep.system host).Reachable cfg)
    {newer between older : History host} {c c' : Nat} {approvalId : String}
    {consumption consumption' : Consumption} {r r' : ApprovalRequest}
    (hlog : cfg.log = newer ++ .did c' (.approvalConsumeOneTime approvalId) (.ok consumption') ::
      (between ++ .did c (.approvalConsumeOneTime approvalId) (.ok consumption) :: older))
    (hr : consumption.request = some r) (hr' : consumption'.request = some r') : False := by
  obtain ⟨before', after', row', hlater⟩ := spending hhost h hlog hr'
  obtain ⟨before, after, row, hfirst⟩ := spending hhost hlater.reachable hlater.log hr
  obtain ⟨steps, hrest⟩ := hfirst.rest
  have hfound := hlater.spends.found
  rw [← hrest] at hfound
  have hstate := (evolves_exec hfirst.reaches steps hfirst.spends.consumed hfound).state
  exact absurd ((consumed_final hstate).symm.trans hlater.spends.approved) (by decide)

theorem spent_by_one (hhost : host.Lawful) (h : (dep.system host).Reachable cfg) {c c' : Nat}
    {approvalId : String} {consumption consumption' : Consumption} {r r' : ApprovalRequest}
    (hmem : .did c (.approvalConsumeOneTime approvalId) (.ok consumption) ∈ cfg.log)
    (hmem' : .did c' (.approvalConsumeOneTime approvalId) (.ok consumption') ∈ cfg.log)
    (hr : consumption.request = some r) (hr' : consumption'.request = some r') : c = c' := by
  obtain ⟨newer, older, hlog⟩ := List.append_of_mem hmem
  rw [hlog] at hmem'
  rcases List.mem_append.mp hmem' with hnewer | hrest
  · obtain ⟨newer', between, rfl⟩ := List.append_of_mem hnewer
    rw [List.append_assoc, List.cons_append] at hlog
    exact False.elim (not_spent_twice hhost h hlog hr hr')
  · rcases List.mem_cons.mp hrest with hsame | holder
    · cases hsame
      rfl
    · obtain ⟨between, older', rfl⟩ := List.append_of_mem holder
      exact False.elim (not_spent_twice hhost h hlog hr' hr)

def pastEntry : Stage → Prop
  | .before | .reserved => False
  | _ => True

theorem pastEntry_next {s : Attempt} {op : Op host} {a : Ans host op} (h : pastEntry s.stage)
    (hallowed : s.allowed op) : pastEntry (s.next op a).stage := by
  cases op with
  | begin key intent =>
      obtain ⟨hbefore, -⟩ := hallowed
      rw [hbefore] at h
      exact False.elim h
  | auditWrite event =>
      simp only [Attempt.next_stage, Attempt.stageAfter]
      split
      · exact True.intro
      · exact True.intro
      · exact True.intro
      · exact h
  | complete handle result pendingAudit =>
      cases pendingAudit <;> exact True.intro
  | completeAudit handle =>
      cases a with
      | error e => exact h
      | ok u =>
          simp only [Attempt.next_stage, Attempt.stageAfter]
          split
          · exact True.intro
          · exact h
  | cachedCompleteAudit handle =>
      cases a with
      | error e => exact h
      | ok u =>
          simp only [Attempt.next_stage, Attempt.stageAfter]
          split
          · exact True.intro
          · exact h
  | abort | enterConnector | connectorResult | pendingResult => exact True.intro
  | _ => exact h

/-- A call enters the connector once. -/
theorem not_entered_twice (h : (dep.system host).Reachable cfg)
    {newer between older : History host} {c : Nat} {intent intent' : TradingIntent host}
    (hlog : cfg.log = newer ++ .did c (.enterConnector intent') () ::
      (between ++ .did c (.enterConnector intent) () :: older)) : False := by
  obtain ⟨before', after', p', entry', progress', hlater⟩ := Deployment.past_reachable h hlog
  obtain ⟨before, after, p, entry, progress, hfirst⟩ :=
    Deployment.past_reachable hlater.reachable hlater.log
  have hkept := (Discipline.sound_reachable (dep.followed host) hlater.reachable).kept
  have hnumbered := (Discipline.accounted_reachable (dep.followed host) hlater.reachable).numbered
  rw [hlater.log] at hkept hnumbered
  obtain ⟨s, request, rfl, -⟩ := Submission.enters hfirst.allowed
  obtain ⟨s', request', rfl, hstage', -⟩ := Submission.enters hlater.allowed
  let P : CallState host → Prop := fun st => ∃ s, st.progress = .executing s ∧ pastEntry s.stage
  obtain ⟨st, hst, s₁, hs₁, hpast'⟩ := hkept.persists (P := P)
    (fun st op a hP hallowed => by
      obtain ⟨s, hs, hpast'⟩ := hP
      rcases st with ⟨q, progress⟩
      cases hs
      exact ⟨s.next op a, rfl, pastEntry_next hpast' hallowed⟩)
    hnumbered (Discipline.state_did_self hfirst.state) ⟨_, rfl, True.intro⟩
  cases hst.symm.trans hlater.state
  cases hs₁
  rw [hstage'] at hpast'
  exact hpast'

/-- The approval that a call which enters the connector has used up. -/
theorem consumes_of_entering (hhost : host.Lawful) (h : (dep.system host).Reachable cfg)
    {c p : Nat} {approval : Json} {authorization : Option Json} {intent : TradingIntent host}
    {startedAt : Instant} {s : Attempt}
    (hentering : Authority.Entering dep cfg.log c p approval authorization intent startedAt s)
    {approvalId : String} (hid : approval.field? "approvalId" = some (.str approvalId)) :
    ∃ row, Consumes dep cfg cfg.log c approvalId row ∧
      Covers row.toApprovalParams intent (approval.field? "correlationId") := by
  obtain ⟨hfound, hconsumed⟩ := hentering.may.approved approvalId hid
  obtain ⟨approved, hs, -, -, hmatches⟩ := hfound
  obtain ⟨consumption, r, hs', hr⟩ := hconsumed
  have hkept := (Discipline.sound_reachable (dep.followed host) h).kept
  have hremembers := remembers_of_state hkept hentering.state
  obtain ⟨newer, older, hget⟩ := List.append_of_mem (hremembers.found _ _ hs)
  obtain ⟨before, after, q, entry, progress, hpast⟩ := Deployment.past_reachable h hget
  obtain ⟨i, hperformed⟩ := hpast.performed
  have hrow : after.world.approvals.get approvalId = some approved := by
    simp only [Deployment.perform, Option.some.injEq, Prod.mk.injEq] at hperformed
    obtain ⟨hanswer, hworld⟩ := hperformed
    rw [← hworld]
    unfold Input.access at hanswer
    split at hanswer
    · cases hanswer
    · exact Except.ok.inj hanswer
  obtain ⟨newer', older', hdid⟩ := List.append_of_mem (hremembers.consumed _ _ hs')
  obtain ⟨before', after', row, hspending⟩ := spending hhost h hdid hr
  have hsame := same_request hpast.reaches hspending.reaches hpast.rest hspending.rest hrow
    hspending.spends.consumed
  refine ⟨row, ⟨newer', before', after', consumption, hspending.reachable, hspending.reaches,
    hspending.rest, hspending.logs, ?_, hspending.spends⟩, ?_⟩
  · rw [hspending.logs, hspending.log, hdid]
  · have hparams : row.toApprovalParams = approved.toApprovalParams := hsame.1.symm
    rw [hparams]
    exact covers_of_matches hmatches

theorem consumes_later {before : Config (signature host)} {log : History host} {c : Nat}
    {approvalId : String} {row : ApprovalRequest} (h : Consumes dep before log c approvalId row)
    (steps : List (Step (signature host))) :
    Consumes dep ((dep.system host).exec before steps) log c approvalId row := by
  obtain ⟨newer, moment, after, consumption, hmoment, hafter, ⟨between, rfl⟩, hrest⟩ := h
  exact ⟨newer, moment, after, consumption, hmoment, hafter,
    ⟨between ++ steps, List.foldl_append⟩, hrest⟩

/-- The consumption behind a submission that an approval is named for. -/
theorem consumption_of_entering (h : (dep.system host).Reachable cfg)
    {newer older : History host} {c p : Nat} {approval : Json} {authorization : Option Json}
    {intent : TradingIntent host} {approvalId : String}
    (hlog : cfg.log = newer ++ .did c (.enterConnector intent) () :: older)
    (hentry : entryOf c cfg.log = some (p, .execute approval authorization))
    (hid : approval.field? "approvalId" = some (.str approvalId)) :
    ∃ consumption r, .did c (.approvalConsumeOneTime approvalId) (.ok consumption) ∈ cfg.log ∧
      consumption.request = some r := by
  obtain ⟨p', approval', authorization', startedAt, s, hentering⟩ := Authority.entering h hlog
  have hkept := (Discipline.sound_reachable (dep.followed host) h).kept
  have hnumbered := (Discipline.accounted_reachable (dep.followed host) h).numbered
  rw [hlog] at hentry hkept hnumbered
  cases hentry.symm.trans (entryOf_append hnumbered (entryOf_cons hnumbered.older hentering.entry))
  obtain ⟨-, consumption, r, hs, hr⟩ := hentering.may.approved approvalId hid
  refine ⟨consumption, r, ?_, hr⟩
  rw [hlog]
  exact List.mem_append_right _ (List.mem_cons_of_mem _
    ((remembers_of_state hkept.older.2 hentering.state).consumed _ _ hs))

theorem outcome_of_refusal {broker : ExecutionBroker} {request : Request host}
    (h : broker.decisionRefusal request = .ok none) :
    request.outcome = some (.str "allow") ∨ request.outcome = some (.str "needs_human") := by
  simp only [ExecutionBroker.decisionRefusal] at h
  obtain ⟨-, h⟩ := Authority.not_refused h
  obtain ⟨houtcome, -⟩ := Authority.not_refused h
  by_contra hnot
  rw [not_or] at hnot
  exact houtcome hnot

/-- A decision that may begin names an approval, or needs none. -/
theorem approvalId_of_listed {request : Request host} {requests : List ApprovalRequest}
    (h : ExecutionBroker.approvalMissing request requests = false) :
    (∃ approvalId, request.approval.field? "approvalId" = some (.str approvalId)) ∨
      request.approval.hasField "approvalId" = false ∧
        request.approval.field? "outcome" ≠ some (.str "needs_human") ∧
        ∀ r ∈ requests, ExecutionBroker.approvalMatchesIntent r request.intent none = false := by
  unfold ExecutionBroker.approvalMissing at h
  split_ifs at h with hfield
  · left
    cases hid : request.approvalId with
    | none =>
        rw [hid] at h
        cases h
    | some v =>
        rw [hid] at h
        cases v with
        | str approvalId => exact ⟨approvalId, hid⟩
        | null | bool | num | arr | obj => cases h
  · right
    simp only [Bool.or_eq_false_iff, beq_eq_false_iff_ne, ExecutionBroker.findApprovalForIntent,
      Option.isSome_eq_false_iff, Option.isNone_iff_eq_none, List.find?_eq_none] at h
    refine ⟨by simpa using hfield, h.1, fun r hr => ?_⟩
    simpa using h.2 r hr

/-- The approval behind a submission that needs one. -/
theorem backed_of_entered (hhost : host.Lawful) (h : (dep.system host).Reachable cfg)
    {newer older : History host} {c p : Nat} {approval : Json} {authorization : Option Json}
    {intent : TradingIntent host}
    (hlog : cfg.log = newer ++ .did c (.enterConnector intent) () :: older)
    (hentry : entryOf c older = some (p, .execute approval authorization))
    (hneeds : approval.field? "outcome" = some (.str "needs_human") ∨
      approval.hasField "approvalId" = true) :
    ∃ approvalId row, approval.field? "approvalId" = some (.str approvalId) ∧
      Consumes dep cfg older c approvalId row ∧
      Covers row.toApprovalParams intent (approval.field? "correlationId") := by
  obtain ⟨p', approval', authorization', startedAt, s, hentering⟩ := Authority.entering h hlog
  cases hentry.symm.trans hentering.entry
  obtain ⟨before, step, steps, hbefore, rfl, -, rfl⟩ := h.past hlog
  obtain ⟨requests, -, hlisted⟩ := hentering.may.listed
  rcases approvalId_of_listed hlisted with ⟨approvalId, hid⟩ | ⟨hnone, houtcome, -⟩
  · obtain ⟨row, hconsumes, hcovers⟩ := consumes_of_entering hhost hbefore hentering hid
    exact ⟨approvalId, row, hid, consumes_later hconsumes (step :: steps), hcovers⟩
  · rcases hneeds with hhuman | hfield
    · exact absurd hhuman houtcome
    · cases hnone.symm.trans hfield

end HumanApproval

open HumanApproval

structure ApprovalGated (dep : Deployment) (cfg : Config (signature host)) : Prop where
  backed : ∀ (newer older : History host) c p approval authorization (intent : TradingIntent host),
    cfg.log = newer ++ .did c (.enterConnector intent) () :: older →
    entryOf c older = some (p, .execute approval authorization) →
    approval.field? "outcome" = some (.str "needs_human") ∨
      approval.hasField "approvalId" = true →
    ∃ approvalId row, approval.field? "approvalId" = some (.str approvalId) ∧
      Consumes dep cfg older c approvalId row ∧
      Covers row.toApprovalParams intent (approval.field? "correlationId")
  once : ∀ (newer between older : History host) c c' p p' approval approval' authorization
    authorization' (intent intent' : TradingIntent host) approvalId,
    cfg.log = newer ++ .did c' (.enterConnector intent') () ::
      (between ++ .did c (.enterConnector intent) () :: older) →
    entryOf c cfg.log = some (p, .execute approval authorization) →
    entryOf c' cfg.log = some (p', .execute approval' authorization') →
    approval.field? "approvalId" = some (.str approvalId) →
    approval'.field? "approvalId" ≠ some (.str approvalId)
  /-- At the check, nothing that the store lists is for the intent. -/
  unlisted : ∀ (newer older : History host) c p approval authorization
    (intent : TradingIntent host),
    cfg.log = newer ++ .did c (.enterConnector intent) () :: older →
    entryOf c older = some (p, .execute approval authorization) →
    approval.hasField "approvalId" = false →
    approval.field? "outcome" = some (.str "allow") ∧
    ∃ (later earlier : History host) (moment : Config (signature host))
      (requests : List ApprovalRequest),
      older = later ++ moment.log ∧ moment.log = .did c .approvalList (.ok requests) :: earlier ∧
      (dep.system host).Reachable moment ∧ (∃ steps, (dep.system host).exec moment steps = cfg) ∧
      requests = moment.world.approvals.list ∧
      ∀ r ∈ requests, ExecutionBroker.approvalMatchesIntent r intent none = false

theorem approval_gated (hhost : host.Lawful) (h : (dep.system host).Reachable cfg) :
    ApprovalGated dep cfg where
  backed _ _ _ _ _ _ _ hlog hentry hneeds := backed_of_entered hhost h hlog hentry hneeds
  once newer between older c c' p p' approval approval' authorization authorization' intent
      intent' approvalId hlog hentry hentry' hid hid' := by
    have hlog' : cfg.log = (newer ++ .did c' (.enterConnector intent') () :: between) ++
        .did c (.enterConnector intent) () :: older := by
      rw [hlog, List.append_assoc, List.cons_append]
    obtain ⟨consumption, r, hmem, hr⟩ := consumption_of_entering h hlog' hentry hid
    obtain ⟨consumption', r', hmem', hr'⟩ := consumption_of_entering h hlog hentry' hid'
    obtain rfl := spent_by_one hhost h hmem hmem' hr hr'
    exact not_entered_twice h hlog
  unlisted newer older c p approval authorization intent hlog hentry hnone := by
    obtain ⟨p', approval', authorization', startedAt, s, hentering⟩ := Authority.entering h hlog
    cases hentry.symm.trans hentering.entry
    obtain ⟨before, step, steps, hbefore, rfl, -, rfl⟩ := h.past hlog
    obtain ⟨requests, hs, hlisted⟩ := hentering.may.listed
    rcases approvalId_of_listed hlisted with ⟨approvalId, hid⟩ | ⟨-, houtcome, hothers⟩
    · have hfield : approval.hasField "approvalId" = true := by
        rw [Json.hasField, show approval.field? "approvalId" = _ from hid]
        rfl
      cases hnone.symm.trans hfield
    · have hallow := (outcome_of_refusal hentering.may.decision).resolve_right houtcome
      have hkept := (Discipline.sound_reachable (dep.followed host) hbefore).kept
      have hremembers := remembers_of_state hkept hentering.state
      obtain ⟨later, earlier, hlist⟩ := List.append_of_mem (hremembers.listed _ hs)
      obtain ⟨moment, after, q, entry, progress, hpast⟩ := Deployment.past_reachable hbefore hlist
      obtain ⟨i, hperformed⟩ := hpast.performed
      obtain ⟨between, hrest⟩ := hpast.rest
      have hrest' : (dep.system host).exec after (between ++ step :: steps) =
          (dep.system host).exec ((dep.system host).step before step) steps := by
        rw [← hrest]
        exact List.foldl_append
      refine ⟨hallow, later, earlier, after, requests, ?_, hpast.logs, hpast.reaches,
        ⟨_, hrest'⟩, ?_, hothers⟩
      · rw [hpast.logs, hlist]
      · simp only [Deployment.perform, Option.some.injEq, Prod.mk.injEq] at hperformed
        obtain ⟨hanswer, hworld⟩ := hperformed
        rw [← hworld]
        unfold Input.access at hanswer
        split at hanswer
        · cases hanswer
        · exact (Except.ok.inj hanswer).symm

def askedFor : ApprovalParams where
  intentId := "i"
  correlationId := "c"
  principal := "p"
  action := "onchain.simulate_transaction"
  resource := "onchain:ethereum:sepolia:a"
  environment := .paper
  escalationReason := "m"
  approvalType := .oneTime
  intentData := simulationIntent

def humanDecision : Json :=
  .record [
    ("intent", some simulationIntent),
    ("intentId", some (.str "i")),
    ("outcome", some (.str "needs_human")),
    ("correlationId", some (.str "c")),
    ("decidedAt", some (.str "p")),
    ("approvalId", some (.str "a")),
    ("decisionToken", some (.str zeroDigest))]

def soon : Instant := ⟨5, by decide⟩

def approvedSteps : List (Step (signature digestHost)) :=
  [.outside (.createApproval askedFor "a" .start soon), .outside (.approve "a" "h" .start true),
    .start 0 (.execute humanDecision none)] ++ quietly 0 5 ++
    List.replicate 3 (told 0 (.bool false)) ++ [told 0 (.record [("passed", some (.bool true))])] ++
    quietly 0 1 ++ List.replicate 3 (told 0 (.bool false)) ++ quietly 0 2

def approvedRun : Config (signature digestHost) :=
  (memoryDeployment.system digestHost).exec (Machine.boot (World.empty digestHost)) approvedSteps

theorem approval_gated_approved :
    approvedRun.log.any (submits 0 simulationIntentOf) = true ∧
      ApprovalGated memoryDeployment approvedRun := by
  have hrun : approvedRun.log.any (submits 0 simulationIntentOf) = true := by decide +kernel
  exact ⟨hrun, approval_gated digestHost_lawful
    ((memoryDeployment.system digestHost).reachable_exec (.boot rfl) approvedSteps)⟩

end TradingGuardrails
