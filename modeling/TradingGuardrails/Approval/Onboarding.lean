import TradingGuardrails.Approval.Transactions
import TradingGuardrails.Interleaving.Fallible
import TradingGuardrails.Schemas.Audit

/-!
Approving a request that asks for an entry of the allowlist. The entry is added to a file
before the decision is audited and stored, and is taken out again by hand when one of these
fails; only the commit of the transaction comes after all handlers.
-/
namespace TradingGuardrails

open Text Interleaving Interleaving.Fallible

/-- What the allowlist file holds: nothing, white space, no JSON, or a value. -/
inductive AllowlistFile where
  | missing
  | blank
  | unparsable
  | json (value : Json)
  deriving DecidableEq

def AllowlistFile.entries? : AllowlistFile → Option (List Json)
  | .missing | .blank => some []
  | .json (.arr entries) => some entries
  | .json _ | .unparsable => none

structure ApprovalConfig where
  audit : Bool
  allowlistOnboarding : Bool

/-- How the steps of one approval end: those of the transaction, and those on the file and
its audit log. -/
structure OnboardingEffects extends Effects where
  readFile : Except Thrown Unit := .ok ()
  syntaxError : Thrown
  writeFile : Except Thrown Unit := .ok ()
  /-- the audit of the new entry -/
  updateAudit : Except Thrown Unit := .ok ()
  /-- the file write of the rollback -/
  restoreFile : Except Thrown Unit := .ok ()
  rollbackAudit : Except Thrown Unit := .ok ()

structure Onboarding where
  allowlist : AllowlistFile
  events : List Json

abbrev OnboardingM := Fallible Thrown Onboarding

namespace ApprovalRequest

variable (request : ApprovalRequest)

def intentMember (key : String) (check : Check) : Option Json :=
  (request.intentData.field? key).filter check

def buildAllowlistCondition : Json :=
  .record [
    ("environment", some (.str request.environment.text)),
    ("requiresHumanApproval", some (.bool false)),
    ("accountMode", request.intentMember "accountMode" Check.text),
    ("maxNotionalUsd", request.intentMember "maxNotionalUsd" (Check.number fun _ => true)),
    ("maxLeverage", request.intentMember "leverage" (Check.number fun _ => true))]

def buildAllowlistEntry : Json :=
  .record [
    ("name", some (.str ("approval-" ++ request.approvalId))),
    ("effect", some (.str "allow")),
    ("principal", some (.str request.principal)),
    ("action", some (.str request.action)),
    ("resource", some (.str request.resource)),
    ("condition", some request.buildAllowlistCondition)]

end ApprovalRequest

namespace ApprovalStore

variable (host : Host) (config : ApprovalConfig) (effects : OnboardingEffects)

def writeEntries (effect : Except Thrown Unit) (entries : List Json) : OnboardingM Unit := do
  step effect
  modify fun s => { s with allowlist := .json (.arr entries) }

def readEntries (file : AllowlistFile) : Except Thrown (List Json) :=
  match file with
  | .missing => .ok []
  | .blank => do
      effects.readFile
      .ok []
  | .unparsable => do
      effects.readFile
      .error effects.syntaxError
  | .json (.arr entries) => do
      effects.readFile
      .ok entries
  | .json _ => do
      effects.readFile
      .error (.ofMessage "Allowlist onboarding file must contain a JSON array.")

def add (entry : Json) : OnboardingM (OnboardingM Unit) := do
  let s ← MonadState.get
  let previousEntries ← step (readEntries effects s.allowlist)
  writeEntries effects.writeFile (previousEntries ++ [entry])
  pure (writeEntries effects.restoreFile previousEntries)

def writeEvent (effect : Except Thrown Unit) (eventType : AuditEventType)
    (request : ApprovalRequest) (data : List (String × Option Json)) : OnboardingM Unit := do
  step effect
  let event := AuditEventInput.toJson {
    eventType := eventType
    environment := request.environment
    intentId := some (.str request.intentId)
    principal := some (.str request.principal)
    correlationId := some (.str request.correlationId)
    data := .record data }
  modify fun s => { s with events := s.events ++ [event] }

def allowlistData (request : ApprovalRequest) (decidedBy decidedAt : String) (entry : Json) :
    List (String × Option Json) := [
  ("approvalId", some (.str request.approvalId)),
  ("updatedBy", some (.str decidedBy)),
  ("updatedAt", some (.str decidedAt)),
  ("policyEntry", some entry)]

def applyAllowlistOnboarding (request : ApprovalRequest) (decidedBy decidedAt : String) :
    OnboardingM (OnboardingM Unit × Json) := do
  if !config.allowlistOnboarding then
    throw (.ofMessage "Allowlist onboarding persistence is not configured.")
  let entry := request.buildAllowlistEntry
  let rollback ← add effects entry
  tryCatch
    (writeEvent effects.updateAudit .allowlistUpdated request
      (allowlistData request decidedBy decidedAt entry))
    fun error => do
      rollback
      throw error
  pure (rollback, entry)

def writeAllowlistRollbackAudit (request : ApprovalRequest) (decidedBy decidedAt : String)
    (entry : Json) : OnboardingM Unit :=
  writeEvent effects.rollbackAudit .allowlistUpdated request
    (allowlistData request decidedBy decidedAt entry ++ [("rolledBack", some (.bool true))])

def writeDecisionAudit (request : ApprovalRequest) (eventType : AuditEventType)
    (decidedBy : Option String) (decidedAt : String) (state : ApprovalState) :
    OnboardingM Unit :=
  if config.audit || config.allowlistOnboarding then
    writeEvent effects.audit eventType request [
      ("approvalId", some (.str request.approvalId)),
      ("approvalType", some (.str request.approvalType.text)),
      ("decidedBy", some ((decidedBy.map .str).getD .null)),
      ("decidedAt", some (.str decidedAt)),
      ("state", some (.str state.text))]
  else pure ()

def record (db : ApprovalDatabase) (request decided : ApprovalRequest)
    (eventType : AuditEventType) (decidedAt : String) :
    OnboardingM (ApprovalRequest × ApprovalDatabase) := do
  writeDecisionAudit config effects request eventType decided.decidedBy decidedAt decided.state
  let db ← step (save effects.toEffects db decided)
  pure (decided, db)

def approveBody (db : ApprovalDatabase) (approvalId decidedBy : String) (now : Instant) :
    OnboardingM (Option ApprovalRequest × ApprovalDatabase) := do
  match ← step (get host effects.toEffects db approvalId) with
  | none => pure (none, db)
  | some request =>
      if request.state ≠ .pending then pure (none, db)
      else
        let decidedAt := host.toISOString now
        if codeUnitLe request.timeoutAt decidedAt then do
          let (_, db) ← record config effects db request
            { request with state := .timeout, decidedAt := some decidedAt, decidedBy := none }
            .approvalTimeout decidedAt
          pure (none, db)
        else do
          let onboarding ← if request.approvalType = .allowlistOnboarding then
              some <$> applyAllowlistOnboarding config effects request decidedBy decidedAt
            else pure none
          tryCatch
            (do
              let (decided, db) ← record config effects db request
                { request with
                  state := .approved, decidedAt := some decidedAt, decidedBy := some decidedBy }
                .approvalApproved decidedAt
              pure (some decided, db))
            fun error => do
              match onboarding with
              | none => throw error
              | some (rollback, entry) =>
                  rollback
                  writeAllowlistRollbackAudit effects request decidedBy decidedAt entry
                  throw error

/-- `approve`, with the file and the audit log: a transaction that throws leaves the
database alone, but not what was written besides it. -/
def approveOnboarding (db : ApprovalDatabase) (approvalId decidedBy : String) (now : Instant)
    (s : Onboarding) : Outcome × Onboarding :=
  let done := approveBody host config effects db approvalId decidedBy now s
  (transaction effects.toEffects db done.1, done.2)

section

variable {host : Host} {config : ApprovalConfig} {effects : OnboardingEffects} {s : Onboarding}

theorem writeEvent_ends {effect : Except Thrown Unit} {eventType : AuditEventType}
    {request : ApprovalRequest} {data : List (String × Option Json)} :
    Ends (writeEvent effect eventType request data) s
      (fun _ s' => s'.allowlist = s.allowlist) fun _ s' => s'.allowlist = s.allowlist :=
  ends_bind (ends_step (fun _ _ => ends_modify rfl) fun _ _ => rfl)

theorem writeEntries_ends {entries : List Json} {effect : Except Thrown Unit} :
    Ends (writeEntries effect entries) s
      (fun _ s' => s'.allowlist = .json (.arr entries)) fun _ s' => s' = s :=
  ends_bind (ends_step (fun _ _ => ends_modify rfl) fun _ _ => rfl)

theorem readEntries_ok {file : AllowlistFile} {entries : List Json}
    (h : readEntries effects file = .ok entries) : file.entries? = some entries := by
  have hread : ∀ {result : Except Thrown (List Json)},
      (effects.readFile >>= fun _ => result) = .ok entries → result = .ok entries := by
    intro result h
    cases hfile : effects.readFile with
    | ok _ => rwa [hfile] at h
    | error e =>
        rw [hfile] at h
        cases h
  cases file with
  | missing =>
      cases h
      rfl
  | blank =>
      cases hread h
      rfl
  | unparsable => cases hread h
  | json value =>
      cases value with
      | arr xs =>
          cases hread h
          rfl
      | null | bool | num | str | obj => cases hread h

theorem add_ends {entry : Json} : Ends (add effects entry) s
    (fun rollback s' => ∃ previous, s.allowlist.entries? = some previous ∧
      s'.allowlist = .json (.arr (previous ++ [entry])) ∧
      rollback = writeEntries effects.restoreFile previous) fun _ s' => s' = s := by
  refine ends_bind (ends_get (ends_bind (ends_step ?_ fun _ _ => rfl)))
  intro previous hread
  refine ends_bind (writeEntries_ends.mono ?_ fun _ _ h => h)
  intro _ s' hfile
  exact ends_pure ⟨previous, readEntries_ok hread, hfile, rfl⟩

/-- The entry is in the file behind the previous ones, and the rollback puts these back. -/
def Onboarded (effects : OnboardingEffects) (s : Onboarding) (request : ApprovalRequest)
    (onboarding : OnboardingM Unit × Json) (s' : Onboarding) : Prop :=
  onboarding.2 = request.buildAllowlistEntry ∧ ∃ previous,
    s.allowlist.entries? = some previous ∧
    s'.allowlist = .json (.arr (previous ++ [request.buildAllowlistEntry])) ∧
    onboarding.1 = writeEntries effects.restoreFile previous

def SameEntries (s s' : Onboarding) : Prop :=
  s'.allowlist.entries? = s.allowlist.entries?

theorem rollback_ends (hrestore : effects.restoreFile = .ok ()) {previous : List Json}
    {s' : Onboarding} (hprevious : s.allowlist.entries? = some previous) :
    Ends (writeEntries effects.restoreFile previous) s' (fun _ s'' => SameEntries s s'')
      fun _ s'' => SameEntries s s'' := by
  rw [hrestore]
  refine ends_bind (ends_step (fun _ _ => ends_modify hprevious.symm) ?_)
  intro _ h
  cases h

theorem applyAllowlistOnboarding_ends {request : ApprovalRequest} {decidedBy decidedAt : String}
    (hrestore : effects.restoreFile = .ok ()) :
    Ends (applyAllowlistOnboarding config effects request decidedBy decidedAt) s
      (Onboarded effects s request) fun _ s' => SameEntries s s' := by
  unfold applyAllowlistOnboarding
  split_ifs
  · exact ends_bind (ends_throw rfl)
  · refine ends_bind (add_ends.mono ?_ fun _ s' h => h ▸ rfl)
    rintro rollback added ⟨previous, hprevious, hfile, rfl⟩
    refine ends_bind (ends_compensated (writeEvent_ends.mono ?_ ?_))
    · intro _ audited haudited
      exact ends_pure ⟨rfl, previous, hprevious, haudited.trans hfile, rfl⟩
    · intro _ audited _
      exact rollback_ends hrestore hprevious

theorem record_ends {db : ApprovalDatabase} {request decided : ApprovalRequest}
    {eventType : AuditEventType} {decidedAt : String} :
    Ends (record config effects db request decided eventType decidedAt) s
      (fun recorded s' => recorded = (decided, db.save decided) ∧ s'.allowlist = s.allowlist)
      fun _ s' => s'.allowlist = s.allowlist := by
  have haudit : Ends (writeDecisionAudit config effects request eventType decided.decidedBy
      decidedAt decided.state) s (fun _ s' => s'.allowlist = s.allowlist)
      fun _ s' => s'.allowlist = s.allowlist := by
    unfold writeDecisionAudit
    split_ifs
    · exact writeEvent_ends
    · exact ends_pure rfl
  refine ends_bind (haudit.mono ?_ fun _ _ h => h)
  intro _ s' hs'
  refine ends_bind (ends_step ?_ fun _ _ => hs')
  intro db' hsave
  exact ends_pure ⟨by rw [save_ok hsave], hs'⟩

def approved (host : Host) (request : ApprovalRequest) (decidedBy : String) (now : Instant) :
    ApprovalRequest :=
  { request with
    state := .approved, decidedAt := some (host.toISOString now), decidedBy := some decidedBy }

/-- The request is approved and its entry is the last one of the file, or the request was
past its timeout and the file is as before. -/
def Settled (host : Host) (db : ApprovalDatabase) (request : ApprovalRequest) (decidedBy : String)
    (now : Instant) (s : Onboarding) (result : Option ApprovalRequest × ApprovalDatabase)
    (s' : Onboarding) : Prop :=
  (result = (some (approved host request decidedBy now),
      db.save (approved host request decidedBy now)) ∧
    ∃ previous, s.allowlist.entries? = some previous ∧
      s'.allowlist.entries? = some (previous ++ [request.buildAllowlistEntry])) ∨
  (codeUnitLe request.timeoutAt (host.toISOString now) = true ∧
    result = (none, db.timeOut request (host.toISOString now)) ∧ SameEntries s s')

theorem approveBody_ends {db : ApprovalDatabase} {approvalId decidedBy : String} {now : Instant}
    {request : ApprovalRequest} (hrestore : effects.restoreFile = .ok ())
    (hget : db.get approvalId = some request) (hpending : request.state = .pending)
    (honboarding : request.approvalType = .allowlistOnboarding) :
    Ends (approveBody host config effects db approvalId decidedBy now) s
      (Settled host db request decidedBy now s) fun _ s' => SameEntries s s' := by
  refine ends_bind (ends_step ?_ fun _ _ => rfl)
  intro found hfound
  simp only [get, hget] at hfound
  split_ifs at hfound
  cases hfound
  simp only [hpending, ne_eq, not_true_eq_false, if_false, honboarding, if_true]
  split_ifs with htime
  · refine ends_bind (record_ends.mono ?_ fun _ s' h => congrArg AllowlistFile.entries? h)
    rintro recorded s' ⟨rfl, hs'⟩
    exact ends_pure (.inr ⟨htime, rfl, congrArg AllowlistFile.entries? hs'⟩)
  · refine ends_bind (ends_map ((applyAllowlistOnboarding_ends hrestore).mono ?_ fun _ _ h => h))
    rintro ⟨rollback, entry⟩ added ⟨rfl, previous, hprevious, hfile, rfl⟩
    refine ends_tryCatch (ends_bind (record_ends.mono ?_ ?_))
    · rintro recorded stored ⟨rfl, hstored⟩
      refine ends_pure (.inl ⟨rfl, previous, hprevious, ?_⟩)
      rw [hstored, hfile]
      rfl
    · intro _ failed _
      -- the handler takes the entry out, whatever becomes of the audit of the rollback
      refine ends_bind ((rollback_ends hrestore hprevious).mono ?_ fun _ _ h => h)
      intro _ restored hrestored
      have hkept : ∀ {s' : Onboarding}, s'.allowlist = restored.allowlist → SameEntries s s' :=
        fun h => (congrArg AllowlistFile.entries? h).trans hrestored
      exact ends_bind
        (writeEvent_ends.mono (fun _ _ h => ends_throw (hkept h)) fun _ _ h => hkept h)

inductive AllOrNothing (host : Host) (request : ApprovalRequest) (decidedBy : String)
    (now : Instant) (s : Onboarding) (stored : Option ApprovalRequest) (s' : Onboarding) : Prop
  /-- approved, with its entry behind the previous ones -/
  | all (previous : List Json) (hstored : stored = some (approved host request decidedBy now))
      (hprevious : s.allowlist.entries? = some previous)
      (hentry : s'.allowlist.entries? = some (previous ++ [request.buildAllowlistEntry]))
  /-- still pending, with the previous entries -/
  | nothing (hstored : stored = some request) (hsame : SameEntries s s')
  /-- closed at its timeout, with the previous entries -/
  | late (hlate : codeUnitLe request.timeoutAt (host.toISOString now) = true)
      (hstored : stored.map ApprovalRequest.state = some .timeout) (hsame : SameEntries s s')

end

end ApprovalStore

variable {host : Host}

open ApprovalStore in
/-- Approving an onboarding is all or nothing whatever fails before the commit, as long as
the file can be written back. -/
theorem onboarding_all_or_nothing (config : ApprovalConfig) {effects : OnboardingEffects}
    {db : ApprovalDatabase} {approvalId : String} (decidedBy : String) (now : Instant)
    (s : Onboarding) {request : ApprovalRequest} (hrestore : effects.restoreFile = .ok ())
    (hcommit : effects.commit = .ok ()) (hget : db.get approvalId = some request)
    (hpending : request.state = .pending)
    (honboarding : request.approvalType = .allowlistOnboarding) :
    let o := approveOnboarding host config effects db approvalId decidedBy now s
    AllOrNothing host request decidedBy now s (o.1.2.get approvalId) o.2 := by
  intro o
  have hbody : Ends (approveBody host config effects db approvalId decidedBy now) s
      (Settled host db request decidedBy now s) fun _ s' => SameEntries s s' :=
    approveBody_ends hrestore hget hpending honboarding
  have hsave : ∀ {changed : ApprovalRequest}, changed.approvalId = request.approvalId →
      (db.save changed).get approvalId = some changed := by
    intro changed hid
    have hchanged : approvalId = changed.approvalId :=
      (hid.trans (ApprovalDatabase.get_mem hget).2).symm
    rw [hchanged] at hget ⊢
    exact ApprovalDatabase.get_save hget
  rcases (approveBody host config effects db approvalId decidedBy now).cases s with
    ⟨result, s', hrun⟩ | ⟨e, s', hrun⟩
  · have ho : o = ((.ok result.1, result.2), s') := by
      simp only [o, approveOnboarding, hrun, transaction, hcommit]
      rfl
    rw [ends_ok hrun] at hbody
    rw [ho]
    rcases hbody with ⟨rfl, previous, hprevious, hentry⟩ | ⟨hlate, rfl, hsame⟩
    · exact .all previous (hsave rfl) hprevious hentry
    · refine .late hlate ?_ hsame
      simp only [ApprovalDatabase.timeOut, hsave, Option.map_some]
  · have ho : o = ((.error e, db), s') := by
      simp only [o, approveOnboarding, hrun, transaction]
      rfl
    rw [ends_error hrun] at hbody
    rw [ho]
    exact .nothing hget hbody

/-- A request for the entry of an order of ten dollars, to be decided on within two
milliseconds. -/
def onboardingRequest : ApprovalRequest where
  intentId := "i"
  correlationId := "c"
  principal := "agent"
  action := "cex.place_order"
  resource := "cex:binance:a:BTC"
  environment := .paper
  escalationReason := "e"
  approvalType := .allowlistOnboarding
  intentData := .obj [("maxNotionalUsd", .num (.ofNat 10))]
  approvalId := "o"
  state := .pending
  createdAt := "p"
  decidedAt := none
  decidedBy := none
  timeoutAt := "p00"

def approveExample (effects : OnboardingEffects) (now : Instant) :
    ApprovalStore.Outcome × Onboarding :=
  ApprovalStore.approveOnboarding (plainHost id fun _ => id) ⟨true, true⟩ effects
    ⟨[onboardingRequest], [onboardingRequest]⟩ "o" "admin" now ⟨.json (.arr [.str "old"]), []⟩

def smoothEffects : OnboardingEffects where
  schemaError := .ofMessage "Invalid request"
  syntaxError := .ofMessage "Unexpected token"

theorem onboarding_all_or_nothing_example :
    ApprovalStore.AllOrNothing (plainHost id fun _ => id) onboardingRequest "admin"
      ⟨1, by decide⟩ ⟨.json (.arr [.str "old"]), []⟩
      ((approveExample smoothEffects ⟨1, by decide⟩).1.2.get "o")
      (approveExample smoothEffects ⟨1, by decide⟩).2 :=
  onboarding_all_or_nothing ⟨true, true⟩ "admin" ⟨1, by decide⟩ _
    rfl rfl (by decide +kernel) rfl rfl

/-- A request that is approved past its timeout is neither approved nor pending afterwards,
though nothing failed. -/
theorem late_onboarding_is_closed :
    onboardingRequest.state = .pending ∧
      onboardingRequest.approvalType = .allowlistOnboarding ∧
      (approveExample smoothEffects ⟨2, by decide⟩).1.1 = .ok none ∧
      ((approveExample smoothEffects ⟨2, by decide⟩).1.2.get "o").map ApprovalRequest.state =
        some .timeout ∧
      (approveExample smoothEffects ⟨2, by decide⟩).2.allowlist.entries? = some [.str "old"] := by
  decide +kernel

/-- No handler is left when the commit fails: the entry stays behind. -/
example :
    let o := approveExample { smoothEffects with commit := .error (.ofMessage "disk full") }
      ⟨1, by decide⟩
    o.1.2.get "o" = some onboardingRequest ∧
      o.2.allowlist.entries? = some [.str "old", onboardingRequest.buildAllowlistEntry] := by
  decide +kernel

end TradingGuardrails
