import TradingGuardrails.Audit.Writer
import TradingGuardrails.Broker.Report
import TradingGuardrails.Service.Idempotency
import TradingGuardrails.Service.Service

/-!
The world that the programs of all processes share, and what each process keeps for
itself, with the effect of every operation. What the programs do not decide themselves,
such as the time, the failure of an access or the answer of a service, comes from an
input.
-/
namespace TradingGuardrails

open Text

structure Local where
  /-- The entries of the memory store. -/
  entries : String → Option MemoryEntry
  /-- The keys that the file store holds. -/
  pending : String → Option (String × Nat)
  decisions : DecisionStore
  active : List KillSwitchScope

def Local.empty : Local := ⟨fun _ => none, fun _ => none, .empty, []⟩

structure World (host : Host) where
  file : Option Json
  approvals : ApprovalDatabase
  audit : AuditLog
  /-- The intents handed to a connector, newest first. -/
  submitted : List (TradingIntent host)
  /-- The promises of the idempotency stores. No two have one number, in whatever
  processes. -/
  promises : Promises
  processes : Nat → Local

namespace World

variable {host : Host}

def empty (host : Host) : World host := ⟨none, .empty, [], [], .empty, fun _ => .empty⟩

def update (w : World host) (p : Nat) (f : Local → Local) : World host :=
  { w with processes := Function.update w.processes p (f (w.processes p)) }

@[simp] theorem update_self (w : World host) (p : Nat) (f : Local → Local) :
    (w.update p f).processes p = f (w.processes p) :=
  Function.update_self ..

theorem update_of_ne (w : World host) {p q : Nat} (h : q ≠ p) (f : Local → Local) :
    (w.update p f).processes q = w.processes q :=
  Function.update_of_ne h ..

def memoryStore (w : World host) (p : Nat) : MemoryStore :=
  ⟨(w.processes p).entries, w.promises⟩

def setMemoryStore (w : World host) (p : Nat) (store : MemoryStore) : World host :=
  { w with promises := store.promises }.update p fun l => { l with entries := store.entries }

def fileStore (w : World host) (p : Nat) : FileStore :=
  ⟨w.file, (w.processes p).pending, w.promises⟩

def setFileStore (w : World host) (p : Nat) (store : FileStore) : World host :=
  { w with file := store.file, promises := store.own.promises }.update p fun l =>
    { l with pending := store.own.pending }

def setDecisions (w : World host) (p : Nat) (store : DecisionStore) : World host :=
  w.update p fun l => { l with decisions := store }

def ordersOf (w : World host) (account : String) : List (TradingIntent host) :=
  w.submitted.filter fun i => i.action == .placeOrder && i.account == account

def statsOf (w : World host) (account date : String) (realizedLossUsd : Number) : DailyStats where
  account := account
  date := date
  totalNotionalUsd :=
    .rounded (Binary64.roundUp ((w.ordersOf account).map TradingIntent.maxNotionalUsd).sum)
  realizedLossUsd := realizedLossUsd
  orderCount := .rounded (Binary64.roundUp (w.ordersOf account).length)

end World

inductive StoreKind where
  | memory
  | file
  deriving DecidableEq

/-- Whether the answers of a component are those of its implementation here, or any. -/
inductive Provision where
  | implemented
  | anything
  deriving DecidableEq

structure Input where
  clock : Instant := ⟨0, by decide⟩
  timeout : Instant := ⟨0, by decide⟩
  failure : Option Thrown := none
  io : Io := .done
  reply : Reply := .ok none
  id : String := ""
  stats : Option DailyStats := none
  market : Option MarketDataSnapshot := none
  portfolio : Option PortfolioSnapshot := none
  lastOrder : Option (Option Number) := none

def Input.quiet : Input := { clock := .start, timeout := .start }

def Input.access {α : Type} (input : Input) (value : α) : Except Thrown α :=
  match input.failure with
  | some error => .error error
  | none => .ok value

/-- The components of a system: the brokers and services of its processes, and which
implementations they were given. -/
structure Deployment where
  broker : Nat → ExecutionBroker
  service : Nat → GuardrailService
  store : StoreKind
  audit : Provision := .anything
  killSwitch : Provision := .anything
  stats : Provision := .anything

namespace Deployment

variable {host : Host} (dep : Deployment)

/-- The write of the audit writer. It may fail before its transaction is committed, or
after. -/
def writeAuditRow (event : Json) (input : Input) (w : World host) :
    Except Thrown Unit × World host :=
  match input.io with
  | .failBefore error => (.error error, w)
  | .done => match w.audit.insert (AuditLog.rowOf event input.id) with
    | .error error => (.error error, w)
    | .ok audit => (.ok (), { w with audit })
  | .failAfter failure => match w.audit.insert (AuditLog.rowOf event input.id) with
    | .error error => (.error error, w)
    | .ok audit => (.error failure, { w with audit })

def auditWrite (event : Json) (input : Input) (w : World host) :
    Except Thrown Unit × World host :=
  match dep.audit with
  | .anything => (input.access (), w)
  | .implemented => writeAuditRow event input w

def isActive (l : Local) (scope : KillSwitchScope) : Bool :=
  l.active.contains .global || l.active.contains scope

def killSwitchIsActive (p : Nat) (scope : KillSwitchScope) (input : Input) (w : World host) :
    Reply :=
  match dep.killSwitch with
  | .anything => input.reply
  | .implemented => .ok (some (.bool (isActive (w.processes p) scope)))

def approvalCreate (params : ApprovalParams) (input : Input) (w : World host) :
    Option (Except Thrown ApprovalRequest × World host) :=
  match input.failure with
  | some error => some (.error error, w)
  | none =>
      if w.approvals.isFresh input.id then
        let request := ApprovalDatabase.newRequest host params input.id input.clock input.timeout
        some (.ok request, { w with approvals := w.approvals.insert request })
      else none

def approvalConsumeOneTime (approvalId : String) (input : Input) (w : World host) :
    Except Thrown Consumption × World host :=
  match input.failure with
  | some error => (.error error, w)
  | none =>
      let r := w.approvals.consumeOneTime host approvalId input.clock
      (.ok ⟨input.clock, r.1⟩, { w with approvals := r.2 })

def begin (p : Nat) (key : String) (intent : TradingIntent host) (input : Input)
    (w : World host) : Except Thrown Reservation × World host :=
  match dep.store with
  | .memory =>
      let r := (w.memoryStore p).begin host key intent
      (r.1, w.setMemoryStore p r.2)
  | .file =>
      let r := (w.fileStore p).begin host input.io key intent
      (r.1, w.setFileStore p r.2)

def complete (p : Nat) (handle : Handle) (result : Json) (pendingAudit : Option Json)
    (input : Input) (w : World host) : Except Thrown Unit × World host :=
  match dep.store with
  | .memory =>
      (.ok (), w.setMemoryStore p ((w.memoryStore p).complete handle result pendingAudit))
  | .file =>
      let r := (w.fileStore p).complete host input.io handle result pendingAudit
      (r.1, w.setFileStore p r.2)

def completeAudit (p : Nat) (handle : Handle) (input : Input) (w : World host) :
    Except Thrown Unit × World host :=
  match dep.store with
  | .memory => (.ok (), w.setMemoryStore p ((w.memoryStore p).completeAudit handle))
  | .file =>
      let r := (w.fileStore p).completeAudit host input.io handle
      (r.1, w.setFileStore p r.2)

def failAudit (p : Nat) (handle : Handle) (error : Thrown) (w : World host) : World host :=
  match dep.store with
  | .memory => w.setMemoryStore p ((w.memoryStore p).failAudit handle error)
  | .file => w.setFileStore p ((w.fileStore p).failAudit handle error)

def abort (p : Nat) (handle : Handle) (error : Thrown) (input : Input) (w : World host) :
    Except Thrown Unit × World host :=
  match dep.store with
  | .memory => (.ok (), w.setMemoryStore p ((w.memoryStore p).abort handle error))
  | .file =>
      let r := (w.fileStore p).abort host input.io handle error
      (r.1, w.setFileStore p r.2)

def cachedCompleteAudit (p : Nat) (handle : Handle) (input : Input) (w : World host) :
    Except Thrown Unit × World host :=
  match dep.store with
  | .memory => (.ok (), w.setMemoryStore p ((w.memoryStore p).completeAudit handle))
  | .file =>
      let r := (w.fileStore p).cachedCompleteAudit host input.io handle
      (r.1, w.setFileStore p r.2)

def pendingResult (promised : Promised) (w : World host) : Option (Except Thrown Json) :=
  match promised with
  | .shared id => w.promises.settled id
  | .rejected error => some (.error error)

def getDailyStats (account date : String) (input : Input) (w : World host) :
    Except Thrown (Option DailyStats) :=
  match dep.stats with
  | .anything => input.access input.stats
  | .implemented => input.access (some (w.statsOf account date
      ((input.stats.map DailyStats.realizedLossUsd).getD (.rounded 0))))

def perform (p : Nat) (op : Op host) (input : Input) (w : World host) :
    Option (Ans host op × World host) :=
  let l := w.processes p
  match op with
  | .now => some (input.clock, w)
  | .auditWrite event => some (dep.auditWrite event input w)
  | .auditCheckHealth => some (input.access (), w)
  | .killSwitchIsActive scope => some (dep.killSwitchIsActive p scope input w, w)
  | .approvalList => some (input.access w.approvals.list, w)
  | .approvalGet approvalId => some (input.access (w.approvals.get approvalId), w)
  | .approvalCreate params => approvalCreate params input w
  | .approvalDelete approvalId => match input.failure with
    | some error => some (.error error, w)
    | none => some (.ok (), { w with approvals := w.approvals.delete approvalId })
  | .approvalConsumeOneTime approvalId => some (approvalConsumeOneTime approvalId input w)
  | .approvalCheckHealth => some (input.access (), w)
  | .begin key intent => some (dep.begin p key intent input w)
  | .complete handle result pendingAudit =>
      some (dep.complete p handle result pendingAudit input w)
  | .completeAudit handle => some (dep.completeAudit p handle input w)
  | .failAudit handle error => some ((), dep.failAudit p handle error w)
  | .abort handle error => some (dep.abort p handle error input w)
  | .cachedCompleteAudit handle => some (dep.cachedCompleteAudit p handle input w)
  | .pendingResult promised => (pendingResult promised w).map fun r => (r, w)
  | .revalidate _ => some (input.reply, w)
  | .enterConnector intent => some ((), { w with submitted := intent :: w.submitted })
  | .connectorResult _ => some (input.reply, w)
  | .dispatch _ => some ((), w)
  | .settle _ => some (input.reply, w)
  | .correlationId => some (input.id, w)
  | .lookup scope payloadHash => some (l.decisions.get scope payloadHash, w)
  | .reserve scope payloadHash => some ((), w.setDecisions p (l.decisions.reserve scope payloadHash))
  | .set scope payloadHash decision =>
      some ((), w.setDecisions p (l.decisions.set scope payloadHash decision))
  | .abortDecision scope payloadHash error =>
      some ((), w.setDecisions p (l.decisions.abort scope payloadHash error))
  | .pendingDecision promise => (l.decisions.settled promise).map fun r => (r, w)
  | .isHealthy => some (input.reply, w)
  | .review _ => some (input.reply, w)
  | .evaluateRisk _ _ => some (input.reply, w)
  | .evaluatePolicy _ => some (input.reply, w)
  | .getDailyStats account date => some (dep.getDailyStats account date input w, w)
  | .getMarketData _ => some (input.access input.market, w)
  | .getPortfolio _ => some (input.access input.portfolio, w)
  | .getLastOrderTimestampMs _ => some (input.access input.lastOrder, w)

inductive Part where
  | nothing
  | audit
  | approvals
  | submitted
  | store
  | decisions
  deriving DecidableEq

def touches : Op host → Part
  | .auditWrite _ => .audit
  | .approvalCreate _ | .approvalDelete _ | .approvalConsumeOneTime _ => .approvals
  | .begin _ _ | .complete _ _ _ | .completeAudit _ | .failAudit _ _ | .abort _ _
  | .cachedCompleteAudit _ => .store
  | .enterConnector _ => .submitted
  | .reserve _ _ | .set _ _ _ | .abortDecision _ _ _ => .decisions
  | _ => .nothing

structure Frame (part : Part) (w w' : World host) : Prop where
  audit : part ≠ .audit → w'.audit = w.audit
  approvals : part ≠ .approvals → w'.approvals = w.approvals
  submitted : part ≠ .submitted → w'.submitted = w.submitted
  file : part ≠ .store → w'.file = w.file
  promises : part ≠ .store → w'.promises = w.promises
  entries : part ≠ .store → ∀ q, (w'.processes q).entries = (w.processes q).entries
  pending : part ≠ .store → ∀ q, (w'.processes q).pending = (w.processes q).pending
  decisions : part ≠ .decisions → ∀ q, (w'.processes q).decisions = (w.processes q).decisions
  active : ∀ q, (w'.processes q).active = (w.processes q).active

namespace Frame

variable {part : Part} {w w' : World host} {p : Nat}

theorem refl (part : Part) (w : World host) : Frame part w w :=
  ⟨fun _ => rfl, fun _ => rfl, fun _ => rfl, fun _ => rfl, fun _ => rfl, fun _ _ => rfl,
    fun _ _ => rfl, fun _ _ => rfl, fun _ => rfl⟩

theorem setAudit (audit : AuditLog) : Frame .audit w { w with audit } :=
  { refl .audit w with audit := fun h => absurd rfl h }

theorem setApprovals (approvals : ApprovalDatabase) : Frame .approvals w { w with approvals } :=
  { refl .approvals w with approvals := fun h => absurd rfl h }

theorem submit (submitted : List (TradingIntent host)) :
    Frame .submitted w { w with submitted } :=
  { refl .submitted w with submitted := fun h => absurd rfl h }

/-- A change of what one process keeps. -/
theorem update {f : Local → Local} (hactive : ∀ l, (f l).active = l.active)
    (hentries : part ≠ .store → ∀ l, (f l).entries = l.entries)
    (hpending : part ≠ .store → ∀ l, (f l).pending = l.pending)
    (hdecisions : part ≠ .decisions → ∀ l, (f l).decisions = l.decisions) :
    Frame part w (w.update p f) := by
  have hlocal : ∀ {α : Type} (g : Local → α), (∀ l, g (f l) = g l) → ∀ q,
      g ((w.update p f).processes q) = g (w.processes q) := by
    intro α g hg q
    by_cases hq : q = p
    · subst hq
      rw [World.update_self, hg]
    · rw [World.update_of_ne w hq]
  exact ⟨fun _ => rfl, fun _ => rfl, fun _ => rfl, fun _ => rfl, fun _ => rfl,
    fun h => hlocal Local.entries (hentries h), fun h => hlocal Local.pending (hpending h),
    fun h => hlocal Local.decisions (hdecisions h), hlocal Local.active hactive⟩

theorem setDecisions (store : DecisionStore) : Frame .decisions w (w.setDecisions p store) :=
  update (fun _ => rfl) (fun _ _ => rfl) (fun _ _ => rfl) fun h => absurd rfl h

theorem setMemoryStore (store : MemoryStore) : Frame .store w (w.setMemoryStore p store) := by
  have h : Frame .store w (w.update p fun l => { l with entries := store.entries }) :=
    update (fun _ => rfl) (fun h => absurd rfl h) (fun _ _ => rfl) fun _ _ => rfl
  exact { h with promises := fun h => absurd rfl h, file := fun h => absurd rfl h }

theorem setFileStore (store : FileStore) : Frame .store w (w.setFileStore p store) := by
  have h : Frame .store w (w.update p fun l => { l with pending := store.own.pending }) :=
    update (fun _ => rfl) (fun _ _ => rfl) (fun h => absurd rfl h) fun _ _ => rfl
  exact { h with promises := fun h => absurd rfl h, file := fun h => absurd rfl h }

end Frame

/-- An operation changes the part of the world that it is about. -/
theorem perform_frame {p : Nat} {op : Op host} {i : Input} {w w' : World host}
    {a : Ans host op} (h : dep.perform p op i w = some (a, w')) : Frame (touches op) w w' := by
  cases op with
  | auditWrite event =>
      simp only [perform, auditWrite, writeAuditRow, Option.some.injEq] at h
      split at h
      · cases h
        exact .refl _ w
      · split at h
        · cases h
          exact .refl _ w
        · split at h <;> cases h
          · exact .refl _ w
          · exact .setAudit _
        · split at h <;> cases h
          · exact .refl _ w
          · exact .setAudit _
  | approvalCreate params =>
      simp only [perform, approvalCreate] at h
      split at h
      · cases h
        exact .refl _ w
      · split_ifs at h
        cases h
        exact .setApprovals _
  | approvalDelete id =>
      simp only [perform] at h
      split at h <;> cases h
      · exact .refl _ w
      · exact .setApprovals _
  | approvalConsumeOneTime id =>
      simp only [perform, approvalConsumeOneTime, Option.some.injEq] at h
      split at h <;> cases h
      · exact .refl _ w
      · exact .setApprovals _
  | begin key intent =>
      simp only [perform, begin, Option.some.injEq] at h
      split at h <;> cases h
      · exact .setMemoryStore _
      · exact .setFileStore _
  | complete handle result pendingAudit =>
      simp only [perform, complete, Option.some.injEq] at h
      split at h <;> cases h
      · exact .setMemoryStore _
      · exact .setFileStore _
  | completeAudit handle =>
      simp only [perform, completeAudit, Option.some.injEq] at h
      split at h <;> cases h
      · exact .setMemoryStore _
      · exact .setFileStore _
  | failAudit handle error =>
      simp only [perform, failAudit, Option.some.injEq] at h
      split at h <;> cases h
      · exact .setMemoryStore _
      · exact .setFileStore _
  | abort handle error =>
      simp only [perform, abort, Option.some.injEq] at h
      split at h <;> cases h
      · exact .setMemoryStore _
      · exact .setFileStore _
  | cachedCompleteAudit handle =>
      simp only [perform, cachedCompleteAudit, Option.some.injEq] at h
      split at h <;> cases h
      · exact .setMemoryStore _
      · exact .setFileStore _
  | enterConnector intent =>
      cases h
      exact .submit _
  | reserve | set | abortDecision =>
      cases h
      exact .setDecisions _
  | pendingResult promised =>
      obtain ⟨r, -, hr⟩ := Option.map_eq_some_iff.mp h
      cases hr
      exact .refl _ w
  | pendingDecision promise =>
      obtain ⟨r, -, hr⟩ := Option.map_eq_some_iff.mp h
      cases hr
      exact .refl _ w
  | _ =>
      cases h
      exact .refl _ w

end Deployment

inductive Outside where
  | createApproval (params : ApprovalParams) (approvalId : String) (now timeout : Instant)
  | approve (approvalId decidedBy : String) (now : Instant) (audited : Bool)
  | deny (approvalId decidedBy : String) (now : Instant) (audited : Bool)
  | expire (approvalId : String) (now : Instant) (audited : Bool)
  | deleteApproval (approvalId : String)
  | consumeOneTime (approvalId : String) (now : Instant)
  | activate (proc : Nat) (scope : KillSwitchScope)
  | deactivate (proc : Nat) (scope : KillSwitchScope)

namespace Outside

variable {host : Host}

def place : Outside → Option Nat
  | .activate p _ => some p
  | .deactivate p _ => some p
  | _ => none

def act (x : Outside) (w : World host) : Option (World host) :=
  match x with
  | .createApproval params approvalId now timeout =>
      if w.approvals.isFresh approvalId then
        let request := ApprovalDatabase.newRequest host params approvalId now timeout
        some { w with approvals := w.approvals.insert request }
      else none
  | .approve approvalId decidedBy now audited =>
      some { w with approvals := w.approvals.approve host approvalId decidedBy now audited }
  | .deny approvalId decidedBy now audited =>
      some { w with approvals := w.approvals.deny host approvalId decidedBy now audited }
  | .expire approvalId now audited =>
      some { w with approvals := w.approvals.expire host approvalId now audited }
  | .deleteApproval approvalId =>
      some { w with approvals := w.approvals.delete approvalId }
  | .consumeOneTime approvalId now =>
      some { w with approvals := (w.approvals.consumeOneTime host approvalId now).2 }
  | .activate p scope =>
      some (w.update p fun l => { l with active := scope :: l.active })
  | .deactivate p scope =>
      some (w.update p fun l => { l with active := l.active.filter (· ≠ scope) })

end Outside
end TradingGuardrails
