import Mathlib.Logic.Relation
import TradingGuardrails.Approval.Store

/-!
The transactions of the approval store with their results. A row is parsed before it is
used, and audit writes, the update and the commit may throw; then the transaction is
rolled back and throws.
-/
namespace TradingGuardrails

open Text

def ApprovalRequest.accepted (host : Host) (r : ApprovalRequest) : Bool :=
  host.isUuid r.approvalId && host.isDatetime r.createdAt && host.isDatetime r.timeoutAt &&
    match r.state with
    | .pending => r.decidedAt.isNone && r.decidedBy.isNone
    | .approved | .denied | .consumed => r.decidedAt.any host.isDatetime && r.decidedBy.isSome
    | .timeout => r.decidedAt.any host.isDatetime && r.decidedBy.isNone

structure Effects where
  /-- the error of the schema, should a row not be accepted -/
  schemaError : Thrown
  /-- `applyAllowlistOnboarding` -/
  onboarding : Except Thrown Unit := .ok ()
  /-- `writeDecisionAudit` -/
  audit : Except Thrown Unit := .ok ()
  update : Except Thrown Unit := .ok ()
  commit : Except Thrown Unit := .ok ()

namespace ApprovalStore

variable (host : Host) (effects : Effects)

abbrev Outcome := Except Thrown (Option ApprovalRequest) × ApprovalDatabase

def transaction (db : ApprovalDatabase)
    (body : Except Thrown (Option ApprovalRequest × ApprovalDatabase)) : Outcome :=
  let committed : Except Thrown (Option ApprovalRequest × ApprovalDatabase) := do
    let done ← body
    effects.commit
    .ok done
  match committed with
  | .error error => (.error error, db)
  | .ok (request, db) => (.ok request, db)

def get (db : ApprovalDatabase) (approvalId : String) :
    Except Thrown (Option ApprovalRequest) :=
  match db.get approvalId with
  | none => .ok none
  | some request =>
      if request.accepted host then .ok (some request) else .error effects.schemaError

def save (db : ApprovalDatabase) (request : ApprovalRequest) : Except Thrown ApprovalDatabase := do
  effects.update
  .ok (db.save request)

def timeout (db : ApprovalDatabase) (request : ApprovalRequest) (decidedAt : String) :
    Except Thrown (ApprovalRequest × ApprovalDatabase) := do
  effects.audit
  let request := { request with
    state := .timeout, decidedAt := some decidedAt, decidedBy := none }
  let db ← save effects db request
  .ok (request, db)

def decideBody (decision : ApprovalState) (onboard : ApprovalRequest → Except Thrown Unit)
    (db : ApprovalDatabase) (approvalId decidedBy : String) (now : Instant) :
    Except Thrown (Option ApprovalRequest × ApprovalDatabase) := do
  match ← get host effects db approvalId with
  | none => .ok (none, db)
  | some request =>
      if request.state ≠ .pending then .ok (none, db)
      else
        let decidedAt := host.toISOString now
        if codeUnitLe request.timeoutAt decidedAt then do
          let (_, db) ← timeout effects db request decidedAt
          .ok (none, db)
        else do
          onboard request
          effects.audit
          let request := { request with
            state := decision, decidedAt := some decidedAt, decidedBy := some decidedBy }
          let db ← save effects db request
          .ok (some request, db)

def approve (db : ApprovalDatabase) (approvalId decidedBy : String) (now : Instant) : Outcome :=
  transaction effects db <| decideBody host effects .approved
    (fun request =>
      if request.approvalType = .allowlistOnboarding then effects.onboarding else .ok ())
    db approvalId decidedBy now

def deny (db : ApprovalDatabase) (approvalId decidedBy : String) (now : Instant) : Outcome :=
  transaction effects db <| decideBody host effects .denied (fun _ => .ok ())
    db approvalId decidedBy now

def consumeOneTime (db : ApprovalDatabase) (approvalId : String) (now : Instant) : Outcome :=
  transaction effects db <| do
    match ← get host effects db approvalId with
    | none => .ok (none, db)
    | some request =>
        if request.state ≠ .approved ∨ request.approvalType ≠ .oneTime then .ok (none, db)
        else if (host.dateParse request.timeoutAt).any fun timeoutMs => timeoutMs ≤ now.ms then
          .ok (none, db)
        else do
          let request := { request with state := .consumed }
          let db ← save effects db request
          .ok (some request, db)

def expire (db : ApprovalDatabase) (approvalId : String) (now : Instant) : Outcome :=
  transaction effects db <| do
    match ← get host effects db approvalId with
    | none => .ok (none, db)
    | some request =>
        let decidedAt := host.toISOString now
        if request.state ≠ .pending || !codeUnitLe request.timeoutAt decidedAt then
          .ok (none, db)
        else do
          let (request, db) ← timeout effects db request decidedAt
          .ok (some request, db)

def selectExpired (db : ApprovalDatabase) (now : Instant) : List String :=
  (db.rows.filter fun request => request.state = .pending &&
    codeUnitLe request.timeoutAt (host.toISOString now)).map ApprovalRequest.approvalId

end ApprovalStore

structure Read (host : Host) (db : ApprovalDatabase) (approvalId : String)
    (request : ApprovalRequest) : Prop where
  found : db.get approvalId = some request
  accepted : request.accepted host = true

def Unchanged (db : ApprovalDatabase) (o : ApprovalStore.Outcome) : Prop :=
  o.2 = db ∧ ∀ r, o.1 ≠ .ok (some r)

def TimedOut (host : Host) (db : ApprovalDatabase) (approvalId : String) (now : Instant)
    (o : ApprovalStore.Outcome) : Prop :=
  ∃ request, Read host db approvalId request ∧ request.state = .pending ∧
    codeUnitLe request.timeoutAt (host.toISOString now) = true ∧
    o.2 = db.timeOut request (host.toISOString now)

def Decided (host : Host) (db : ApprovalDatabase) (decision : ApprovalState)
    (approvalId decidedBy : String) (now : Instant) (o : ApprovalStore.Outcome) : Prop :=
  ∃ request, Read host db approvalId request ∧ request.state = .pending ∧
    codeUnitLe request.timeoutAt (host.toISOString now) = false ∧
    o = (.ok (some { request with
          state := decision, decidedAt := some (host.toISOString now)
          decidedBy := some decidedBy }),
      db.save { request with
          state := decision, decidedAt := some (host.toISOString now)
          decidedBy := some decidedBy })

def Consumed (host : Host) (db : ApprovalDatabase) (approvalId : String) (now : Instant)
    (o : ApprovalStore.Outcome) : Prop :=
  ∃ request, Read host db approvalId request ∧ request.state = .approved ∧
    request.approvalType = .oneTime ∧
    (∀ timeoutMs, host.dateParse request.timeoutAt = some timeoutMs → now.ms < timeoutMs) ∧
    o = (.ok (some { request with state := .consumed }),
      db.save { request with state := .consumed })

namespace ApprovalStore

variable {host : Host} {effects : Effects} {db : ApprovalDatabase}

theorem transaction_cases (db : ApprovalDatabase) (effects : Effects)
    (body : Except Thrown (Option ApprovalRequest × ApprovalDatabase)) :
    (∃ error, transaction effects db body = (.error error, db)) ∨
      ∃ request db', body = .ok (request, db') ∧
        transaction effects db body = (.ok request, db') := by
  cases body with
  | error e => exact .inl ⟨e, rfl⟩
  | ok done =>
      obtain ⟨request, db'⟩ := done
      cases hcommit : effects.commit with
      | error e => exact .inl ⟨e, by simp [transaction, bind, Except.bind, hcommit]⟩
      | ok _ => exact .inr ⟨request, db', rfl, by simp [transaction, bind, Except.bind, hcommit]⟩

theorem unchanged_of_error {o : Outcome} {error : Thrown} (h : o = (.error error, db)) :
    Unchanged db o := by
  subst h
  exact ⟨rfl, fun _ h => nomatch h⟩

/-- A body that does not find a row to work on. -/
theorem unchanged_of_none {o : Outcome} (h : o = (.ok none, db)) : Unchanged db o := by
  subst h
  exact ⟨rfl, fun _ h => nomatch h⟩

theorem get_cases (host : Host) (effects : Effects) (db : ApprovalDatabase) (approvalId : String) :
    get host effects db approvalId = .ok none ∨
      get host effects db approvalId = .error effects.schemaError ∨
      ∃ request, get host effects db approvalId = .ok (some request) ∧
        Read host db approvalId request := by
  simp only [get]
  split
  · exact .inl rfl
  · next request hfound =>
      split_ifs with haccepted
      · exact .inr (.inr ⟨request, rfl, hfound, haccepted⟩)
      · exact .inr (.inl rfl)

theorem save_ok {request : ApprovalRequest} {db' : ApprovalDatabase}
    (h : save effects db request = .ok db') : db' = db.save request := by
  simp only [save, bind, Except.bind] at h
  split at h
  · cases h
  · cases h
    rfl

theorem timeout_ok {request request' : ApprovalRequest} {decidedAt : String}
    {db' : ApprovalDatabase} (h : timeout effects db request decidedAt = .ok (request', db')) :
    db' = db.timeOut request decidedAt := by
  simp only [timeout, bind, Except.bind] at h
  split at h
  · cases h
  · split at h
    · cases h
    · next hsave =>
        cases h
        exact save_ok hsave

theorem decideBody_ok {decision : ApprovalState} {onboard : ApprovalRequest → Except Thrown Unit}
    {approvalId decidedBy : String} {now : Instant} {result : Option ApprovalRequest}
    {db' : ApprovalDatabase}
    (h : decideBody host effects decision onboard db approvalId decidedBy now =
      .ok (result, db')) :
    Unchanged db (.ok result, db') ∨
      TimedOut host db approvalId now (.ok result, db') ∧ result = none ∨
      Decided host db decision approvalId decidedBy now (.ok result, db') := by
  rcases get_cases host effects db approvalId with hget | hget | ⟨request, hget, hread⟩
  · simp only [decideBody, hget, bind, Except.bind] at h
    cases h
    exact .inl (unchanged_of_none rfl)
  · simp only [decideBody, hget, bind, Except.bind] at h
    cases h
  · simp only [decideBody, hget, bind, Except.bind] at h
    split_ifs at h with hpending htime
    · cases h
      exact .inl (unchanged_of_none rfl)
    · rw [ne_eq, not_not] at hpending
      split at h
      · cases h
      · next closed hclosed =>
          cases h
          exact .inr (.inl ⟨⟨request, hread, hpending, htime, timeout_ok hclosed⟩, rfl⟩)
    · rw [ne_eq, not_not] at hpending
      rw [Bool.not_eq_true] at htime
      split at h
      · cases h
      · split at h
        · cases h
        · split at h
          · cases h
          · next hsave =>
              cases h
              cases save_ok hsave
              exact .inr (.inr ⟨request, hread, hpending, htime, rfl⟩)

theorem decide_cases {decision : ApprovalState} {onboard : ApprovalRequest → Except Thrown Unit}
    {approvalId decidedBy : String} {now : Instant} {o : Outcome}
    (h : transaction effects db
      (decideBody host effects decision onboard db approvalId decidedBy now) = o) :
    Unchanged db o ∨ TimedOut host db approvalId now o ∧ o.1 = .ok none ∨
      Decided host db decision approvalId decidedBy now o := by
  rcases transaction_cases db effects
      (decideBody host effects decision onboard db approvalId decidedBy now) with
    ⟨e, herror⟩ | ⟨result, db', hbody, hdone⟩
  · exact .inl (unchanged_of_error (h.symm.trans herror))
  · rw [← h, hdone]
    rcases decideBody_ok hbody with hstay | ⟨htimed, rfl⟩ | hdecided
    · exact .inl hstay
    · exact .inr (.inl ⟨htimed, rfl⟩)
    · exact .inr (.inr hdecided)

theorem consumeOneTime_cases (host : Host) (effects : Effects) (db : ApprovalDatabase)
    (approvalId : String) (now : Instant) :
    Unchanged db (consumeOneTime host effects db approvalId now) ∨
      Consumed host db approvalId now (consumeOneTime host effects db approvalId now) := by
  rcases transaction_cases db effects _ with ⟨e, herror⟩ | ⟨result, db', hbody, hdone⟩
  · exact .inl (unchanged_of_error herror)
  · rw [consumeOneTime, hdone]
    rcases get_cases host effects db approvalId with hget | hget | ⟨request, hget, hread⟩
    · simp only [hget, bind, Except.bind] at hbody
      cases hbody
      exact .inl (unchanged_of_none rfl)
    · simp only [hget, bind, Except.bind] at hbody
      cases hbody
    · simp only [hget, bind, Except.bind] at hbody
      split_ifs at hbody with hstate htime
      · cases hbody
        exact .inl (unchanged_of_none rfl)
      · cases hbody
        exact .inl (unchanged_of_none rfl)
      · rw [not_or, not_not, not_not] at hstate
        split at hbody
        · cases hbody
        · next hsave =>
            cases hbody
            cases save_ok hsave
            refine .inr ⟨request, hread, hstate.1, hstate.2, fun timeoutMs hms => ?_, rfl⟩
            rw [hms, Option.any_some, decide_eq_true_eq, not_le] at htime
            exact htime

theorem expire_cases (host : Host) (effects : Effects) (db : ApprovalDatabase)
    (approvalId : String) (now : Instant) :
    Unchanged db (expire host effects db approvalId now) ∨
      TimedOut host db approvalId now (expire host effects db approvalId now) := by
  rcases transaction_cases db effects _ with ⟨e, herror⟩ | ⟨result, db', hbody, hdone⟩
  · exact .inl (unchanged_of_error herror)
  · rw [expire, hdone]
    rcases get_cases host effects db approvalId with hget | hget | ⟨request, hget, hread⟩
    · simp only [hget, bind, Except.bind] at hbody
      cases hbody
      exact .inl (unchanged_of_none rfl)
    · simp only [hget, bind, Except.bind] at hbody
      cases hbody
    · simp only [hget, bind, Except.bind] at hbody
      split_ifs at hbody with hcond
      · cases hbody
        exact .inl (unchanged_of_none rfl)
      · simp only [ne_eq, decide_not, Bool.or_eq_true, Bool.not_eq_true',
          decide_eq_false_iff_not, not_or, not_not, Bool.not_eq_false] at hcond
        split at hbody
        · cases hbody
        · next closed hclosed =>
            cases hbody
            exact .inr ⟨request, hread, hcond.1, hcond.2, timeout_ok hclosed⟩

theorem decide_refines {decision : ApprovalState} {onboard : ApprovalRequest → Except Thrown Unit}
    {approvalId decidedBy : String} {now : Instant} :
    let o := transaction effects db
      (decideBody host effects decision onboard db approvalId decidedBy now)
    o.2 = db ∨ o.2 = db.decide host decision approvalId decidedBy now true := by
  intro o
  rcases decide_cases (o := o) rfl with hstay | ⟨⟨request, hread, hpending, htime, hdb⟩, -⟩ |
    ⟨request, hread, hpending, htime, hdb⟩
  · exact .inl hstay.1
  · right
    simp [hdb, ApprovalDatabase.decide, hread.found, hpending, htime]
  · right
    simp [hdb, ApprovalDatabase.decide, hread.found, hpending, htime]

theorem consumeOneTime_refines (approvalId : String) (now : Instant) :
    (consumeOneTime host effects db approvalId now).2 = db ∨
      (consumeOneTime host effects db approvalId now).2 =
        (db.consumeOneTime host approvalId now).2 := by
  rcases consumeOneTime_cases host effects db approvalId now with
    hstay | ⟨request, hread, hstate, htype, htime, hdb⟩
  · exact .inl hstay.1
  · right
    have hearly : (host.dateParse request.timeoutAt).any (fun ms => decide (ms ≤ now.ms)) =
        false := by
      cases hparse : host.dateParse request.timeoutAt with
      | none => rfl
      | some ms => simpa using htime ms hparse
    simp [hdb, ApprovalDatabase.consumeOneTime, hread.found, hstate, htype, hearly]

theorem expire_refines (approvalId : String) (now : Instant) :
    (expire host effects db approvalId now).2 = db ∨
      (expire host effects db approvalId now).2 = db.expire host approvalId now true := by
  rcases expire_cases host effects db approvalId now with
    hstay | ⟨request, hread, hpending, htime, hdb⟩
  · exact .inl hstay.1
  · right
    simp [hdb, ApprovalDatabase.expire, hread.found, hpending, htime]

end ApprovalStore

inductive ApprovalState.Moves : ApprovalState → ApprovalState → Prop
  | approve : Moves .pending .approved
  | deny : Moves .pending .denied
  | timeout : Moves .pending .timeout
  | consume : Moves .approved .consumed

structure Evolves (r r' : ApprovalRequest) : Prop where
  params : r'.toApprovalParams = r.toApprovalParams
  approvalId : r'.approvalId = r.approvalId
  createdAt : r'.createdAt = r.createdAt
  timeoutAt : r'.timeoutAt = r.timeoutAt
  decidedAt : ∀ at₀, r.decidedAt = some at₀ → r'.decidedAt = some at₀
  decidedBy : ∀ by₀, r.decidedBy = some by₀ → r'.decidedBy = some by₀
  state : Relation.ReflTransGen ApprovalState.Moves r.state r'.state

theorem Evolves.refl (r : ApprovalRequest) : Evolves r r :=
  ⟨rfl, rfl, rfl, rfl, fun _ h => h, fun _ h => h, .refl⟩

theorem Evolves.trans {r r' r'' : ApprovalRequest} (h : Evolves r r') (h' : Evolves r' r'') :
    Evolves r r'' where
  params := h'.params.trans h.params
  approvalId := h'.approvalId.trans h.approvalId
  createdAt := h'.createdAt.trans h.createdAt
  timeoutAt := h'.timeoutAt.trans h.timeoutAt
  decidedAt at₀ h₀ := h'.decidedAt at₀ (h.decidedAt at₀ h₀)
  decidedBy by₀ h₀ := h'.decidedBy by₀ (h.decidedBy by₀ h₀)
  state := h.state.trans h'.state

structure MovesTo (r r' : ApprovalRequest) : Prop extends Evolves r r' where
  moves : r.state.Moves r'.state

/-- A parsed pending request carries no decision yet. -/
theorem ApprovalRequest.undecided {host : Host} {r : ApprovalRequest}
    (h : r.accepted host = true) (hpending : r.state = .pending) :
    r.decidedAt = none ∧ r.decidedBy = none := by
  simp only [accepted, hpending, Bool.and_eq_true, Option.isNone_iff_eq_none] at h
  exact h.2

theorem Read.decided {host : Host} {db : ApprovalDatabase} {approvalId : String}
    {r : ApprovalRequest} (h : Read host db approvalId r) (hpending : r.state = .pending)
    {state : ApprovalState} (hmoves : ApprovalState.Moves .pending state) (decidedAt : String)
    (decidedBy : Option String) :
    MovesTo r { r with state := state, decidedAt := some decidedAt, decidedBy := decidedBy } := by
  obtain ⟨hat, hby⟩ := ApprovalRequest.undecided h.accepted hpending
  refine ⟨⟨rfl, rfl, rfl, rfl, fun at₀ h₀ => ?_, fun by₀ h₀ => ?_, ?_⟩, ?_⟩
  · rw [hat] at h₀
    cases h₀
  · rw [hby] at h₀
    cases h₀
  · rw [hpending]
    exact .single hmoves
  · rw [hpending]
    exact hmoves

namespace ApprovalDatabase

theorem get_save {db : ApprovalDatabase} {r request : ApprovalRequest}
    (h : db.get r.approvalId = some request) : (db.save r).get r.approvalId = some r := by
  simp only [get, ApprovalDatabase.save] at h ⊢
  generalize db.rows = rows at h
  induction rows with
  | nil => cases h
  | cons first rows ih =>
      by_cases hfirst : first.approvalId = r.approvalId
      · simp [hfirst]
      · have hne : (first.approvalId == r.approvalId) = false := beq_false_of_ne hfirst
        simp only [List.find?_cons, List.map_cons, hne, Bool.false_eq_true, if_false] at h ⊢
        exact ih h

theorem get_save_of_ne {db : ApprovalDatabase} {r : ApprovalRequest} {approvalId : String}
    (h : approvalId ≠ r.approvalId) : (db.save r).get approvalId = db.get approvalId := by
  simp only [get, ApprovalDatabase.save]
  induction db.rows with
  | nil => rfl
  | cons first rows ih =>
      simp only [List.map_cons, List.find?_cons]
      by_cases hfirst : first.approvalId = r.approvalId
      · have hne : (r.approvalId == approvalId) = false := beq_false_of_ne (Ne.symm h)
        simp only [hfirst, beq_self_eq_true, if_true, hne]
        exact ih
      · simp only [beq_false_of_ne hfirst, Bool.false_eq_true, if_false]
        rw [ih]

theorem get_insert_of_ne {db : ApprovalDatabase} {request : ApprovalRequest}
    {approvalId : String} (h : approvalId ≠ request.approvalId) :
    (db.insert request).get approvalId = db.get approvalId := by
  simp [get, ApprovalDatabase.insert, List.find?_append, Ne.symm h]

theorem get_delete (db : ApprovalDatabase) (deleted approvalId : String) :
    (db.delete deleted).get approvalId = none ∨
      (db.delete deleted).get approvalId = db.get approvalId := by
  by_cases h : approvalId = deleted
  · left
    subst h
    simp [get, ApprovalDatabase.delete]
  · right
    simp only [get, ApprovalDatabase.delete, List.find?_filter]
    refine congrFun (congrArg List.find? (funext fun r => ?_)) _
    by_cases hr : r.approvalId = approvalId
    · simp [hr, h]
    · simp [hr]

end ApprovalDatabase

inductive ApprovalDatabase.Change (host : Host) (db : ApprovalDatabase) : ApprovalDatabase → Prop
  | stay : Change host db db
  | save {r r' : ApprovalRequest} (found : db.get r.approvalId = some r) (moves : MovesTo r r') :
      Change host db (db.save r')
  | insert (params : ApprovalParams) (approvalId : String) (now timeout : Instant)
      (fresh : db.isFresh approvalId = true) :
      Change host db (db.insert (ApprovalDatabase.newRequest host params approvalId now timeout))
  | delete (approvalId : String) : Change host db (db.delete approvalId)

variable {host : Host} {db db' : ApprovalDatabase}

theorem Read.self {approvalId : String} {request : ApprovalRequest}
    (h : Read host db approvalId request) : db.get request.approvalId = some request := by
  rw [(ApprovalDatabase.get_mem h.found).2]
  exact h.found

theorem Unchanged.change {o : ApprovalStore.Outcome} (h : Unchanged db o) : db.Change host o.2 := by
  rw [h.1]
  exact .stay

theorem TimedOut.change {o : ApprovalStore.Outcome} {approvalId : String} {now : Instant}
    (h : TimedOut host db approvalId now o) : db.Change host o.2 := by
  obtain ⟨request, hread, hpending, -, hdb⟩ := h
  rw [hdb]
  exact .save hread.self (hread.decided hpending .timeout _ none)

def Granted (db : ApprovalDatabase) (approvalId : String) (o : ApprovalStore.Outcome) : Prop :=
  ∃ r r', db.get approvalId = some r ∧ MovesTo r r' ∧ o = (.ok (some r'), db.save r')

theorem Granted.saved {o : ApprovalStore.Outcome} {approvalId : String}
    (h : Granted db approvalId o) : ∃ r r', db.get approvalId = some r ∧ MovesTo r r' ∧
      o.1 = .ok (some r') ∧ o.2.get approvalId = some r' := by
  obtain ⟨r, r', hr, hmoves, rfl⟩ := h
  refine ⟨r, r', hr, hmoves, rfl, ?_⟩
  have hid : r'.approvalId = approvalId :=
    hmoves.approvalId.trans (ApprovalDatabase.get_mem hr).2
  subst hid
  exact ApprovalDatabase.get_save hr

theorem Granted.change {o : ApprovalStore.Outcome} {approvalId : String}
    (h : Granted db approvalId o) : db.Change host o.2 := by
  obtain ⟨r, r', hr, hmoves, rfl⟩ := h
  refine .save ?_ hmoves
  rw [(ApprovalDatabase.get_mem hr).2]
  exact hr

theorem Decided.granted {o : ApprovalStore.Outcome} {decision : ApprovalState}
    {approvalId decidedBy : String} {now : Instant}
    (hmoves : ApprovalState.Moves .pending decision)
    (h : Decided host db decision approvalId decidedBy now o) : Granted db approvalId o := by
  obtain ⟨request, hread, hpending, -, rfl⟩ := h
  exact ⟨request, _, hread.found, hread.decided hpending hmoves _ (some decidedBy), rfl⟩

theorem Consumed.granted {o : ApprovalStore.Outcome} {approvalId : String} {now : Instant}
    (h : Consumed host db approvalId now o) : Granted db approvalId o := by
  obtain ⟨request, hread, happroved, -, -, rfl⟩ := h
  have hmoves : ApprovalState.Moves request.state .consumed := by
    rw [happroved]
    exact .consume
  refine ⟨request, { request with state := .consumed }, hread.found, ?_, rfl⟩
  exact ⟨⟨rfl, rfl, rfl, rfl, fun _ h => h, fun _ h => h, .single hmoves⟩, hmoves⟩

namespace ApprovalDatabase.Change

theorem wellFormed (h : db.Change host db') (hdb : db.WellFormed) : db'.WellFormed := by
  cases h with
  | stay => exact hdb
  | @save r r' found moves =>
      have hfound : db.get r.approvalId = some r := found
      refine hdb.save hfound ⟨moves.params, moves.approvalId, moves.timeoutAt⟩
  | insert params approvalId now timeout fresh => exact hdb.insert fresh
  | delete approvalId => exact hdb.delete approvalId

/-- A stored request stays as it is, makes one move, or is deleted. -/
theorem evolves (h : db.Change host db') (hdb : db.WellFormed) {approvalId : String}
    {r : ApprovalRequest} (hr : db.get approvalId = some r) :
    db'.get approvalId = none ∨ ∃ r', db'.get approvalId = some r' ∧ (r' = r ∨ MovesTo r r') := by
  cases h with
  | stay => exact .inr ⟨r, hr, .inl rfl⟩
  | @save old new found moves =>
      have hnew : db.get new.approvalId = some old := by rw [moves.approvalId]; exact found
      by_cases hid : approvalId = new.approvalId
      · subst hid
        cases hnew.symm.trans hr
        exact .inr ⟨new, ApprovalDatabase.get_save hnew, .inr moves⟩
      · rw [ApprovalDatabase.get_save_of_ne hid]
        exact .inr ⟨r, hr, .inl rfl⟩
  | insert params newId now timeout fresh =>
      refine .inr ⟨r, ?_, .inl rfl⟩
      rw [ApprovalDatabase.get_insert_of_ne, hr]
      rintro rfl
      obtain ⟨hmem, hid⟩ := ApprovalDatabase.get_mem hr
      obtain ⟨i, hi, hsame⟩ := hdb.rowIssued r hmem
      simp only [ApprovalDatabase.isFresh, Bool.not_eq_true', List.any_eq_false,
        beq_iff_eq] at fresh
      exact fresh i hi (hsame.2.1.symm.trans hid)
  | delete deleted =>
      rcases db.get_delete deleted approvalId with hgone | hkept
      · exact .inl hgone
      · exact .inr ⟨r, hkept.trans hr, .inl rfl⟩

/-- A request that appears is new and pending. -/
theorem appears (h : db.Change host db') {approvalId : String} {r : ApprovalRequest}
    (hnone : db.get approvalId = none) (hr : db'.get approvalId = some r) :
    db.isFresh approvalId = true ∧ r.state = .pending := by
  cases h with
  | stay => exact absurd (hnone.symm.trans hr) (by simp)
  | @save old new found moves =>
      have hne : approvalId ≠ new.approvalId := by
        rintro rfl
        rw [moves.approvalId, found] at hnone
        cases hnone
      rw [ApprovalDatabase.get_save_of_ne hne, hnone] at hr
      cases hr
  | insert params newId now timeout fresh =>
      by_cases hid : approvalId = newId
      · subst hid
        refine ⟨fresh, ?_⟩
        obtain ⟨hmem, hrid⟩ := ApprovalDatabase.get_mem hr
        rcases List.mem_append.mp hmem with hold | hnew
        · have := List.find?_eq_none.mp hnone r hold
          simp [hrid] at this
        · rw [List.mem_singleton] at hnew
          rw [hnew]
          rfl
      · rw [ApprovalDatabase.get_insert_of_ne hid, hnone] at hr
        cases hr
  | delete deleted =>
      rcases db.get_delete deleted approvalId with hgone | hkept
      · rw [hgone] at hr
        cases hr
      · rw [hkept, hnone] at hr
        cases hr

theorem issued (h : db.Change host db') {approvalId : String}
    (hissued : db.isFresh approvalId = false) : db'.isFresh approvalId = false := by
  cases h with
  | stay | save _ _ | delete _ => exact hissued
  | insert params newId now timeout fresh =>
      simp only [ApprovalDatabase.isFresh, Bool.not_eq_false', List.any_eq_true] at hissued ⊢
      obtain ⟨i, hi, hid⟩ := hissued
      exact ⟨i, List.mem_append_left _ hi, hid⟩

theorem timeouts (h : db.Change host db')
    (hdb : ∀ r ∈ db.rows, ∃ t, r.timeoutAt = host.toISOString t) :
    ∀ r ∈ db'.rows, ∃ t, r.timeoutAt = host.toISOString t := by
  cases h with
  | stay => exact hdb
  | @save old new found moves =>
      intro r hr
      obtain ⟨r₀, hr₀, rfl⟩ := List.mem_map.mp hr
      split_ifs
      · rw [moves.timeoutAt]
        exact hdb old (ApprovalDatabase.get_mem found).1
      · exact hdb r₀ hr₀
  | insert params newId now timeout fresh =>
      intro r hr
      rcases List.mem_append.mp hr with hold | hnew
      · exact hdb r hold
      · rw [List.mem_singleton.mp hnew]
        exact ⟨timeout, rfl⟩
  | delete deleted => exact fun r hr => hdb r (List.mem_of_mem_filter hr)

end ApprovalDatabase.Change

end TradingGuardrails
