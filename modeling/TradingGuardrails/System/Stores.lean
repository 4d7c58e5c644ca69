import TradingGuardrails.Approval.LifeCycle
import TradingGuardrails.Audit.AnchoredWriter
import TradingGuardrails.System.World

/-!
What the system says of its stores is what the stores do. Each process writes its audit
events through a writer of its own; a write changes the table and answers as the write of
the system changes the log and answers. The approval stores of all processes change the
database as the actions on the database of the system do. So every run of the writers, and
every run of the stores, is a run of the system's own operations, whatever fails.
-/
namespace TradingGuardrails

open Text Interleaving

variable {host : Host} {secret : String} {anchored : Bool}

theorem WriteCall.rowOf_event (call : WriteCall) :
    AuditLog.rowOf call.event.toInput.toJson call.randomId =
      ⟨call.eventId, call.content.columns⟩ := by
  have hid : call.event.toInput.toJson.field? "eventId" = call.event.eventId.map .str := by
    simp [AuditEventInput.toJson, AuditEvent.toInput]
  simp only [AuditLog.rowOf, hid, auditColumns, List.map_cons, List.map_nil]
  cases h : call.event.eventId with
  | none => simp [eventId, h, textValue?, AuditContent.columns, content, redactedEvent]
  | some id => simp [eventId, h, textValue?, AuditContent.columns, content, redactedEvent]

namespace AuditTable

theorem log_append (table table' : AuditTable) :
    log (table ++ table') = table.log ++ table'.log :=
  List.filterMap_append

theorem find_log (table : AuditTable) (eventId : String) :
    table.log.find eventId = (table.find eventId).map fun row => ⟨eventId, row.columns⟩ := by
  induction table with
  | nil => rfl
  | cons row table ih =>
      rw [AuditLog.find, log] at ih
      cases hid : row.eventId with
      | none => simpa [log, find, AuditLog.find, hid] using ih
      | some id =>
          by_cases hsame : id = eventId
          · simp [log, find, AuditLog.find, hid, hsame]
          · simpa [log, find, AuditLog.find, hid, hsame] using ih

end AuditTable

/-- The transaction does to the log what the log's own insertion does. -/
theorem Transacted.log_insert {writer : AuditWriter} {files : AuditFiles} {call : WriteCall}
    {table : AuditTable} {committedHash : Option String}
    (h : Transacted host secret anchored writer files call (.ok committedHash) table) :
    files.table.log.insert (AuditLog.rowOf call.event.toInput.toJson call.randomId) =
      .ok table.log := by
  rw [WriteCall.rowOf_event]
  cases h with
  | present _ found same | repair _ found same _ _ =>
      simp [AuditLog.insert, AuditTable.find_log, found, same]
  | insert _ fresh _ =>
      simp only [AuditLog.insert, AuditTable.find_log, fresh, Option.map_none]
      rw [AuditTable.log_append]
      rfl

/-- A write of the system that answers and leaves what a write of the writer does. -/
theorem AuditWriter.write_simulated (writer : AuditWriter) (files : AuditFiles) (call : WriteCall)
    (io : Io) (w : World host) :
    ∃ input : Input, input.id = call.randomId ∧
      Deployment.writeAuditRow call.event.toInput.toJson input
          { w with audit := files.table.log } =
        ((writer.write host secret anchored files call io).1,
          { w with audit := (writer.write host secret anchored files call io).2.2.table.log }) := by
  rcases write_cases host secret anchored writer files call io with ⟨error, -, hwrite⟩ |
    ⟨committedHash, table, -, transacted, hwrite⟩
  · -- The transaction was refused or rolled back.
    refine ⟨{ io := .failBefore error, id := call.randomId }, rfl, ?_⟩
    rw [hwrite]
    rfl
  · have htable : (writer.write host secret anchored files call io).2.2.table = table := by
      rw [hwrite, replaceAnchor_table]
    rw [htable]
    cases (writer.write host secret anchored files call io).1 with
    | ok done =>
        refine ⟨{ id := call.randomId }, rfl, ?_⟩
        simp only [Deployment.writeAuditRow, transacted.log_insert]
    | error error =>
        -- The row is there, but the anchor could not be replaced.
        refine ⟨{ io := .failAfter error, id := call.randomId }, rfl, ?_⟩
        simp only [Deployment.writeAuditRow, transacted.log_insert]

def AuditWriter.writeAll (host : Host) (secret : String) (anchored : Bool) :
    (Nat → AuditWriter) → AuditFiles → List (Nat × WriteCall × Io) →
    List (Except Thrown Unit) × AuditFiles
  | _, files, [] => ([], files)
  | writers, files, (p, call, io) :: writes =>
      let (answer, writer, files) := (writers p).write host secret anchored files call io
      let (answers, files) :=
        writeAll host secret anchored (Function.update writers p writer) files writes
      (answer :: answers, files)

def Deployment.writeAuditRows :
    List (Json × Input) → World host → List (Except Thrown Unit) × World host
  | [], w => ([], w)
  | (event, input) :: writes, w =>
      let (answer, w) := writeAuditRow event input w
      let (answers, w) := writeAuditRows writes w
      (answer :: answers, w)

/-- Every run of the writers is a run of the system's writes on the log of their table: the
same events, under the same ids, get the same answers. -/
theorem audit_log_refined (host : Host) (secret : String) (anchored : Bool)
    (writers : Nat → AuditWriter) (files : AuditFiles) (writes : List (Nat × WriteCall × Io))
    (w : World host) :
    ∃ rows : List (Json × Input),
      (rows.map fun row => (row.1, row.2.id)) =
        (writes.map fun write => (write.2.1.event.toInput.toJson, write.2.1.randomId)) ∧
      Deployment.writeAuditRows rows { w with audit := files.table.log } =
        ((AuditWriter.writeAll host secret anchored writers files writes).1,
          { w with audit :=
            (AuditWriter.writeAll host secret anchored writers files writes).2.table.log }) := by
  induction writes generalizing writers files with
  | nil => exact ⟨[], rfl, rfl⟩
  | cons write writes ih =>
      obtain ⟨p, call, io⟩ := write
      obtain ⟨input, hid, hwrite⟩ :=
        @AuditWriter.write_simulated host secret anchored (writers p) files call io w
      obtain ⟨rows, hrows, hrest⟩ := ih
        (Function.update writers p ((writers p).write host secret anchored files call io).2.1)
        ((writers p).write host secret anchored files call io).2.2
      refine ⟨(call.event.toInput.toJson, input) :: rows, ?_, ?_⟩
      · rw [List.map_cons, List.map_cons, hrows, hid]
      · simp only [Deployment.writeAuditRows, hwrite, hrest, AuditWriter.writeAll]

namespace LifeCycle

variable {db db' : ApprovalDatabase}

theorem approve_refines {effects : Effects} (approvalId decidedBy : String) (now : Instant) :
    (ApprovalStore.approve host effects db approvalId decidedBy now).2 = db ∨
      (ApprovalStore.approve host effects db approvalId decidedBy now).2 =
        db.approve host approvalId decidedBy now true :=
  ApprovalStore.decide_refines

theorem deny_refines {effects : Effects} (approvalId decidedBy : String) (now : Instant) :
    (ApprovalStore.deny host effects db approvalId decidedBy now).2 = db ∨
      (ApprovalStore.deny host effects db approvalId decidedBy now).2 =
        db.deny host approvalId decidedBy now true :=
  ApprovalStore.decide_refines

/-- An operation of a store is one action on the database, or leaves it as it is. -/
theorem act_simulated {op : Op} {input : LifeCycle.Input} {a : Answer op}
    (h : act host op input db = some (a, db')) (w : TradingGuardrails.World host) :
    db' = db ∨ ∃ x : Outside, x.place = none ∧
      x.act { w with approvals := db } = some { w with approvals := db' } := by
  cases op with
  | create params =>
      simp only [act, create] at h
      split at h
      · cases h
        exact .inl rfl
      · split_ifs at h with hfresh
        cases h
        refine .inr ⟨.createApproval params input.id input.clock input.timeout, rfl, ?_⟩
        simp only [Outside.act, hfresh, if_true]
  | approve approvalId decidedBy =>
      obtain rfl : _ = db' := congrArg Prod.snd (Option.some.inj h)
      apply (approve_refines approvalId decidedBy input.clock).imp_right
      intro hdb
      exact ⟨.approve approvalId decidedBy input.clock true, rfl, by rw [hdb]; rfl⟩
  | deny approvalId decidedBy =>
      obtain rfl : _ = db' := congrArg Prod.snd (Option.some.inj h)
      apply (deny_refines approvalId decidedBy input.clock).imp_right
      intro hdb
      exact ⟨.deny approvalId decidedBy input.clock true, rfl, by rw [hdb]; rfl⟩
  | consumeOneTime approvalId =>
      obtain rfl : _ = db' := congrArg Prod.snd (Option.some.inj h)
      apply (ApprovalStore.consumeOneTime_refines approvalId input.clock).imp_right
      intro hdb
      exact ⟨.consumeOneTime approvalId input.clock, rfl, by rw [hdb]; rfl⟩
  | expire approvalId =>
      obtain rfl : _ = db' := congrArg Prod.snd (Option.some.inj h)
      apply (ApprovalStore.expire_refines approvalId input.clock).imp_right
      intro hdb
      exact ⟨.expire approvalId input.clock true, rfl, by rw [hdb]; rfl⟩
  | selectExpired =>
      simp only [act] at h
      split at h
      · cases h
        exact .inl rfl
      · cases h
        exact .inl rfl
  | delete approvalId =>
      simp only [act, delete, Option.some.injEq] at h
      split at h
      · cases h
        exact .inl rfl
      · cases h
        exact .inr ⟨.deleteApproval approvalId, rfl, rfl⟩
  | get approvalId | now | sleep =>
      cases h
      exact .inl rfl

end LifeCycle

/-- Every database that the approval stores reach is reached by actions on the database of
the system, at most one for each operation that the stores have performed. -/
theorem approvals_refined {cfg : Config LifeCycle.signature}
    (h : (LifeCycle.machine host).Reachable cfg) (w : World host) :
    ∃ actions : List Outside, (∀ x ∈ actions, x.place = none) ∧
      actions.length ≤ (performed cfg.log).length ∧
      actions.foldlM (fun w x => x.act w) { w with approvals := .empty } =
        some { w with approvals := cfg.world.db } := by
  refine @Machine.Closed.invariant _ _ LifeCycle.closed (fun past now => ∃ actions : List Outside,
    (∀ x ∈ actions, x.place = none) ∧ actions.length ≤ past.length ∧
      actions.foldlM (fun w x => x.act w) { w with approvals := .empty } =
        some { w with approvals := now.db }) ?_ ?_ _ h
  · intro now hempty
    refine ⟨[], by simp, le_rfl, ?_⟩
    rw [show now.db = .empty from hempty]
    rfl
  · intro past now p op input a next hreached hperform
    obtain ⟨actions, houtside, hlength, hrun⟩ := hreached
    cases LifeCycle.act_simulated (LifeCycle.perform_act hperform).1 w with
    | inl hstay =>
        rw [hstay]
        exact ⟨actions, houtside, hlength.trans (Nat.le_succ _), hrun⟩
    | inr hacts =>
        obtain ⟨x, hplace, hact⟩ := hacts
        refine ⟨actions ++ [x], ?_, ?_, ?_⟩
        · intro y hy
          cases List.mem_append.mp hy with
          | inl hold => exact houtside y hold
          | inr hlast =>
              cases List.mem_singleton.mp hlast
              exact hplace
        · rw [List.length_append]
          exact Nat.succ_le_succ hlength
        · rw [List.foldlM_append, hrun]
          simpa using hact

theorem approvals_refined_approved :
    let cfg := (LifeCycle.machine LifeCycle.unaryHost).exec
      (Machine.boot ⟨.empty, ⟨0, by decide⟩⟩)
      (LifeCycle.createAndApprove ⟨1, by decide⟩ ⟨3, by decide⟩ ⟨2, by decide⟩)
    ∃ actions : List Outside, (∀ x ∈ actions, x.place = none) ∧
      actions.length ≤ (performed cfg.log).length ∧
      actions.foldlM (fun w x => x.act w) (World.empty LifeCycle.unaryHost) =
        some { World.empty LifeCycle.unaryHost with approvals := cfg.world.db } := by
  intro cfg
  have reachable : (LifeCycle.machine LifeCycle.unaryHost).Reachable cfg :=
    (LifeCycle.machine LifeCycle.unaryHost).reachable_exec (.boot (by rfl)) _
  exact approvals_refined reachable (World.empty LifeCycle.unaryHost)

end TradingGuardrails
