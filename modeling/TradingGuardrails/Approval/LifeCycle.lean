import TradingGuardrails.Approval.Transactions
import TradingGuardrails.Interleaving.History

/-!
Any number of approval stores on one database. The calls of the stores are programs whose
operations are the transactions; `checkTimeouts` selects the expired requests first and
expires them one by one, and `waitForApproval` polls, with other calls in between.
-/
namespace TradingGuardrails

open Text Interleaving

namespace LifeCycle

inductive Op where
  | create (params : ApprovalParams)
  | approve (approvalId decidedBy : String)
  | deny (approvalId decidedBy : String)
  | consumeOneTime (approvalId : String)
  | selectExpired
  | expire (approvalId : String)
  | get (approvalId : String)
  | delete (approvalId : String)
  | now
  | sleep

abbrev Answer : Op → Type
  | .create _ => Except Thrown ApprovalRequest
  | .approve _ _ | .deny _ _ | .consumeOneTime _ | .expire _ | .get _ =>
      Except Thrown (Option ApprovalRequest)
  | .selectExpired => Except Thrown (List String)
  | .delete _ => Except Thrown Bool
  | .now => Instant
  | .sleep => Unit

inductive Entry where
  | create (params : ApprovalParams)
  | approve (approvalId decidedBy : String)
  | deny (approvalId decidedBy : String)
  | consumeOneTime (approvalId : String)
  | checkTimeouts
  /-- The last argument bounds the polls that are looked at. -/
  | waitForApproval (approvalId : String) (timeoutMs : Int) (polls : Nat)
  | delete (approvalId : String)

inductive Result where
  | request (result : Except Thrown (Option ApprovalRequest))
  | timedOut (result : Except Thrown (List ApprovalRequest))
  | deleted (result : Except Thrown Bool)
  | polling

structure World where
  db : ApprovalDatabase
  clock : Instant

/-- What an operation meets: the time, the random id, the timeout of a new request and
how its side effects end. -/
structure Input where
  clock : Instant
  id : String
  timeout : Instant
  effects : Effects

abbrev signature : Signature where
  Op := Op
  Ans := Answer
  Entry := Entry
  Ret := Result
  World := World
  Input := Input
  Outside := Empty

abbrev Routine := Program Op Answer Result

def failed (message : String) : Result :=
  .request (.error (.ofMessage message))

def expireAll (timedOut : List ApprovalRequest) : List String → Routine
  | [] => .done (.timedOut (.ok timedOut))
  | approvalId :: expired => .act (.expire approvalId) fun
      | .error error => .done (.timedOut (.error error))
      | .ok none => expireAll timedOut expired
      | .ok (some request) => expireAll (timedOut ++ [request]) expired

def checkTimeouts : Routine :=
  .act .selectExpired fun
    | .error error => .done (.timedOut (.error error))
    | .ok expired => expireAll [] expired

variable (host : Host)

def pollState (approvalId : String) (deadline : Int) (request : ApprovalRequest)
    (again : Routine) : Routine :=
  match request.state with
  | .approved => .done (.request (.ok (some request)))
  | .denied => .done (failed s!"Approval request {approvalId} was denied.")
  | .timeout => .done (failed s!"Approval request {approvalId} timed out.")
  | .consumed => .done (failed s!"Approval request {approvalId} was already used.")
  | .pending => .act .now fun now =>
      if deadline ≤ now.ms then
        .done (failed s!"Timed out waiting for approval request {approvalId}.")
      else .act .sleep fun _ => again

def isPast (request : ApprovalRequest) (now : Instant) : Bool :=
  (host.dateParse request.timeoutAt).any fun timeoutMs => timeoutMs ≤ now.ms

def poll (approvalId : String) (deadline : Int) : Nat → Routine
  | 0 => .done .polling
  | polls + 1 => .act (.get approvalId) fun
      | .error error => .done (.request (.error error))
      | .ok none => .done (failed s!"Approval request {approvalId} was not found.")
      | .ok (some request) => .act .now fun now =>
          if isPast host request now then
            if request.state = .pending then .act (.expire approvalId) fun
              | .error error => .done (.request (.error error))
              | .ok _ => .done (failed s!"Approval request {approvalId} timed out.")
            else .done (failed s!"Approval request {approvalId} timed out.")
          else pollState approvalId deadline request (poll approvalId deadline polls)

def waitForApproval (approvalId : String) (timeoutMs : Int) (polls : Nat) : Routine :=
  .act .now fun now => poll host approvalId (now.ms + timeoutMs) polls

def program : Entry → Routine
  | .create params => .act (.create params) fun r => .done (.request (r.map some))
  | .approve approvalId decidedBy =>
      .act (.approve approvalId decidedBy) fun r => .done (.request r)
  | .deny approvalId decidedBy => .act (.deny approvalId decidedBy) fun r => .done (.request r)
  | .consumeOneTime approvalId => .act (.consumeOneTime approvalId) fun r => .done (.request r)
  | .checkTimeouts => checkTimeouts
  | .waitForApproval approvalId timeoutMs polls =>
      waitForApproval host approvalId timeoutMs polls
  | .delete approvalId => .act (.delete approvalId) fun r => .done (.deleted r)

/-- The insertion of a new request, whose random id was never issued before. -/
def create (params : ApprovalParams) (input : Input) (db : ApprovalDatabase) :
    Option (Except Thrown ApprovalRequest × ApprovalDatabase) :=
  match input.effects.update with
  | .error error => some (.error error, db)
  | .ok () =>
      if db.isFresh input.id then
        let request := ApprovalDatabase.newRequest host params input.id input.clock input.timeout
        some (.ok request, db.insert request)
      else none

def delete (approvalId : String) (input : Input) (db : ApprovalDatabase) :
    Except Thrown Bool × ApprovalDatabase :=
  match input.effects.update with
  | .error error => (.error error, db)
  | .ok () => (.ok (db.get approvalId).isSome, db.delete approvalId)

def act (op : Op) (input : Input) (db : ApprovalDatabase) :
    Option (Answer op × ApprovalDatabase) :=
  match op with
  | .create params => create host params input db
  | .approve approvalId decidedBy =>
      some (ApprovalStore.approve host input.effects db approvalId decidedBy input.clock)
  | .deny approvalId decidedBy =>
      some (ApprovalStore.deny host input.effects db approvalId decidedBy input.clock)
  | .consumeOneTime approvalId =>
      some (ApprovalStore.consumeOneTime host input.effects db approvalId input.clock)
  | .selectExpired => match input.effects.commit with
    | .error error => some (.error error, db)
    | .ok () => some (.ok (ApprovalStore.selectExpired host db input.clock), db)
  | .expire approvalId =>
      some (ApprovalStore.expire host input.effects db approvalId input.clock)
  | .get approvalId => some (ApprovalStore.get host input.effects db approvalId, db)
  | .delete approvalId => some (delete approvalId input db)
  | .now => some (input.clock, db)
  | .sleep => some ((), db)

def perform (op : Op) (input : Input) (w : World) : Option (Answer op × World) :=
  if w.clock.ms ≤ input.clock.ms then
    (act host op input w.db).map fun r => (r.1, { db := r.2, clock := input.clock })
  else none

/-- The stores of all processes. A call lets others of its process run only when it
sleeps. -/
def machine : Machine signature where
  program _ := program host
  waits
    | .sleep => true
    | _ => false
  enabled _ _ _ := true
  perform _ := perform host
  crash _ w := w
  place x := nomatch x
  outside x := nomatch x
  initial w := w.db = .empty

variable {host : Host} {db db' : ApprovalDatabase}

theorem act_change {op : Op} {input : Input} {a : Answer op}
    (h : act host op input db = some (a, db')) : db.Change host db' := by
  cases op with
  | create params =>
      simp only [act, create] at h
      split at h
      · cases h
        exact .stay
      · split_ifs at h with hfresh
        cases h
        exact .insert params input.id input.clock input.timeout hfresh
  | approve approvalId decidedBy =>
      have hdb :
          (ApprovalStore.approve host input.effects db approvalId decidedBy input.clock).2 = db' :=
        congrArg Prod.snd (Option.some.inj h)
      rw [← hdb]
      rcases ApprovalStore.decide_cases rfl with hstay | ⟨htimed, -⟩ | hdecided
      · exact hstay.change
      · exact htimed.change
      · exact (hdecided.granted .approve).change
  | deny approvalId decidedBy =>
      have hdb :
          (ApprovalStore.deny host input.effects db approvalId decidedBy input.clock).2 = db' :=
        congrArg Prod.snd (Option.some.inj h)
      rw [← hdb]
      rcases ApprovalStore.decide_cases rfl with hstay | ⟨htimed, -⟩ | hdecided
      · exact hstay.change
      · exact htimed.change
      · exact (hdecided.granted .deny).change
  | consumeOneTime approvalId =>
      have hdb :
          (ApprovalStore.consumeOneTime host input.effects db approvalId input.clock).2 = db' :=
        congrArg Prod.snd (Option.some.inj h)
      rw [← hdb]
      rcases ApprovalStore.consumeOneTime_cases host input.effects db approvalId input.clock with
        hstay | hconsumed
      · exact hstay.change
      · exact hconsumed.granted.change
  | expire approvalId =>
      have hdb : (ApprovalStore.expire host input.effects db approvalId input.clock).2 = db' :=
        congrArg Prod.snd (Option.some.inj h)
      rw [← hdb]
      rcases ApprovalStore.expire_cases host input.effects db approvalId input.clock with
        hstay | htimed
      · exact hstay.change
      · exact htimed.change
  | selectExpired =>
      simp only [act] at h
      split at h
      · cases h
        exact .stay
      · cases h
        exact .stay
  | delete approvalId =>
      simp only [act, delete, Option.some.injEq] at h
      split at h
      · cases h
        exact .stay
      · cases h
        exact .delete approvalId
  | get approvalId | now | sleep =>
      cases h
      exact .stay

theorem closed : (machine host).Closed where
  crash _ _ := rfl
  outside x _ := nomatch x

theorem perform_act {op : Op} {input : Input} {a : Answer op} {w w' : World}
    (h : perform host op input w = some (a, w')) :
    act host op input w.db = some (a, w'.db) ∧ w'.clock = input.clock := by
  simp only [perform] at h
  split_ifs at h with hclock
  cases hact : act host op input w.db with
  | none =>
      rw [hact] at h
      cases h
  | some r =>
      rw [hact] at h
      cases h
      exact ⟨rfl, rfl⟩

abbrev Past := List ((op : Op) × Answer op)

def grantsDecision (approvalId : String) : (op : Op) × Answer op → Bool
  | ⟨.approve id _, .ok (some _)⟩ => id == approvalId
  | ⟨.deny id _, .ok (some _)⟩ => id == approvalId
  | _ => false

def grantsConsumption (approvalId : String) : (op : Op) × Answer op → Bool
  | ⟨.consumeOneTime id, .ok (some _)⟩ => id == approvalId
  | _ => false

/-- An operation grants something of a request that it takes out of some states, to which
no move leads back. -/
structure Grants (host : Host) (granted : (op : Op) × Answer op → Bool) (approvalId : String)
    (before : ApprovalState → Prop) : Prop where
  taken : ∀ op input a db db', act host op input db = some (a, db') →
    granted ⟨op, a⟩ = true → ∃ r r', db.get approvalId = some r ∧ before r.state ∧
      db'.get approvalId = some r' ∧ ¬ before r'.state
  once : ∀ s s', ApprovalState.Moves s s' → before s' → before s

/-- Nothing was granted yet, or one thing was and the request is out of reach. -/
structure GrantedOnce (granted : (op : Op) × Answer op → Bool) (approvalId : String)
    (before : ApprovalState → Prop) (past : Past) (w : World) : Prop where
  wellFormed : w.db.WellFormed
  once : past.filter granted = [] ∨ (past.filter granted).length = 1 ∧
    w.db.isFresh approvalId = false ∧ ∀ r, w.db.get approvalId = some r → ¬ before r.state

theorem granted_once {granted : (op : Op) × Answer op → Bool} {approvalId : String}
    {before : ApprovalState → Prop} (hgrants : Grants host granted approvalId before)
    {cfg : Config signature} (h : (machine host).Reachable cfg) :
    GrantedOnce granted approvalId before (performed cfg.log) cfg.world := by
  refine closed.invariant ?_ ?_ h
  · intro w hw
    refine ⟨?_, .inl rfl⟩
    rw [show w.db = .empty from hw]
    exact .empty
  · rintro past w p op input a w' ⟨hwf, hpast⟩ hperform
    obtain ⟨hact, -⟩ := perform_act hperform
    have hchange := act_change hact
    have hwf' := hchange.wellFormed hwf
    refine ⟨hwf', ?_⟩
    cases hgranted : granted ⟨op, a⟩ with
    | true =>
        obtain ⟨r, r', hr, hbefore, hr', hafter⟩ := hgrants.taken op input a _ _ hact hgranted
        rcases hpast with hnone | ⟨-, -, hout⟩
        · refine .inr ⟨by rw [List.filter_cons_of_pos hgranted, hnone]; rfl, ?_, ?_⟩
          · exact hwf'.issued_of_get hr'
          · rintro r'' hr''
            cases hr'.symm.trans hr''
            exact hafter
        · exact absurd hbefore (hout r hr)
    | false =>
        rw [List.filter_cons_of_neg (by simp [hgranted])]
        refine hpast.imp_right fun ⟨hlength, hissued, hout⟩ => ⟨hlength, hchange.issued hissued, ?_⟩
        intro r' hr' hbefore
        cases hget : w.db.get approvalId with
        | none =>
            have := (hchange.appears hget hr').1
            rw [hissued] at this
            cases this
        | some r =>
            rcases hchange.evolves hwf hget with hgone | ⟨r'', hr'', hmove⟩
            · cases hgone.symm.trans hr'
            · cases hr''.symm.trans hr'
              rcases hmove with rfl | hmove
              · exact hout _ hget hbefore
              · exact hout r hget (hgrants.once _ _ hmove.moves hbefore)

/-- A decision that is returned was made on a pending request before its timeout. -/
theorem decided_of_some {decision : ApprovalState} {onboard : ApprovalRequest → Except Thrown Unit}
    {effects : Effects} {approvalId decidedBy : String} {now : Instant} {r : ApprovalRequest}
    (h : ApprovalStore.transaction effects db
      (ApprovalStore.decideBody host effects decision onboard db approvalId decidedBy now) =
        (.ok (some r), db')) :
    Decided host db decision approvalId decidedBy now (.ok (some r), db') := by
  rcases ApprovalStore.decide_cases h with hstay | ⟨-, hnone⟩ | hdecided
  · exact absurd rfl (hstay.2 r)
  · cases hnone
  · exact hdecided

theorem consumed_of_some {effects : Effects} {approvalId : String} {now : Instant}
    {r : ApprovalRequest}
    (h : ApprovalStore.consumeOneTime host effects db approvalId now = (.ok (some r), db')) :
    Consumed host db approvalId now (.ok (some r), db') := by
  rcases ApprovalStore.consumeOneTime_cases host effects db approvalId now with hstay | hconsumed
  · rw [h] at hstay
    exact absurd rfl (hstay.2 r)
  · rw [h] at hconsumed
    exact hconsumed

theorem grants_decision (approvalId : String) :
    Grants host (grantsDecision approvalId) approvalId (· = .pending) where
  taken op input a db db' hact hgranted := by
    have htaken : ∀ decision decidedBy r, ApprovalState.Moves .pending decision →
        Decided host db decision approvalId decidedBy input.clock (.ok (some r), db') →
        ∃ r r', db.get approvalId = some r ∧ r.state = .pending ∧
          db'.get approvalId = some r' ∧ r'.state ≠ .pending := by
      intro decision decidedBy r hmoves hdecided
      obtain ⟨request, r', hget, hmove, -, hget'⟩ := (hdecided.granted hmoves).saved
      have := hmove.moves
      obtain ⟨request', hread, hpending, -⟩ := hdecided
      cases hget.symm.trans hread.found
      rw [hpending] at this
      refine ⟨request, r', hget, hpending, hget', ?_⟩
      cases h : r'.state <;> rw [h] at this <;> cases this <;> simp
    cases op with
    | approve id decidedBy =>
        match a, hgranted, hact with
        | .ok (some r), hgranted, hact =>
            cases beq_iff_eq.mp hgranted
            exact htaken _ _ r .approve (decided_of_some (Option.some.inj hact))
    | deny id decidedBy =>
        match a, hgranted, hact with
        | .ok (some r), hgranted, hact =>
            cases beq_iff_eq.mp hgranted
            exact htaken _ _ r .deny (decided_of_some (Option.some.inj hact))
    | create | consumeOneTime | selectExpired | expire | get | delete | now | sleep =>
        cases hgranted
  once s s' hmoves hs' := by
    subst hs'
    cases hmoves

theorem grants_consumption (approvalId : String) :
    Grants host (grantsConsumption approvalId) approvalId (fun s => s = .pending ∨ s = .approved)
    where
  taken op input a db db' hact hgranted := by
    cases op with
    | consumeOneTime id =>
        match a, hgranted, hact with
        | .ok (some r), hgranted, hact =>
            cases beq_iff_eq.mp hgranted
            have hconsumed := consumed_of_some (Option.some.inj hact)
            obtain ⟨request, r', hget, hmove, -, hget'⟩ := hconsumed.granted.saved
            have := hmove.moves
            obtain ⟨request', hread, happroved, -⟩ := hconsumed
            cases hget.symm.trans hread.found
            rw [happroved] at this
            refine ⟨request, r', hget, .inr happroved, hget', ?_⟩
            cases h : r'.state <;> rw [h] at this <;> cases this
            simp
    | create | approve | deny | selectExpired | expire | get | delete | now | sleep =>
        cases hgranted
  once s s' hmoves hs' := by
    rcases hs' with rfl | rfl
    · cases hmoves
    · cases hmoves
      exact .inl rfl

def threw : (op : Op) → Answer op → Bool
  | .create _, a => !a.isOk
  | .approve _ _, a => !a.isOk
  | .deny _ _, a => !a.isOk
  | .consumeOneTime _, a => !a.isOk
  | .expire _, a => !a.isOk
  | .get _, a => !a.isOk
  | .selectExpired, a => !a.isOk
  | .delete _, a => !a.isOk
  | .now, _ => false
  | .sleep, _ => false

theorem transaction_threw {effects : Effects}
    {body : Except Thrown (Option ApprovalRequest × ApprovalDatabase)}
    {a : Except Thrown (Option ApprovalRequest)}
    (h : ApprovalStore.transaction effects db body = (a, db')) (hthrew : (!a.isOk) = true) :
    db' = db := by
  rcases ApprovalStore.transaction_cases db effects body with ⟨e, hrolled⟩ | ⟨r, db'', -, hdone⟩
  · cases h.symm.trans hrolled
    rfl
  · cases h.symm.trans hdone
    cases hthrew

theorem act_threw {op : Op} {input : Input} {a : Answer op}
    (h : act host op input db = some (a, db')) (hthrew : threw op a = true) : db' = db := by
  cases op with
  | create params =>
      simp only [act, create] at h
      split at h
      · cases h
        rfl
      · split_ifs at h
        cases h
        cases hthrew
  | approve approvalId decidedBy | deny approvalId decidedBy =>
      exact transaction_threw (Option.some.inj h) hthrew
  | consumeOneTime approvalId | expire approvalId =>
      exact transaction_threw (Option.some.inj h) hthrew
  | delete approvalId =>
      simp only [act, delete, Option.some.injEq] at h
      split at h
      · cases h
        rfl
      · cases h
        cases hthrew
  | selectExpired =>
      simp only [act] at h
      split at h
      · cases h
        rfl
      · cases h
        rfl
  | get approvalId | now | sleep =>
      cases h
      rfl

/-- The rows of a reachable database are issued once, and carry timeouts that were
written by a clock. -/
structure Stored (host : Host) (db : ApprovalDatabase) : Prop where
  wellFormed : db.WellFormed
  timeouts : ∀ r ∈ db.rows, ∃ t, r.timeoutAt = host.toISOString t

theorem stored_reachable {cfg : Config signature} (h : (machine host).Reachable cfg) :
    Stored host cfg.world.db := by
  refine @Machine.Closed.invariant _ _ closed (fun _ w => Stored host w.db) ?_ ?_ cfg h
  · intro w hw
    rw [show w.db = .empty from hw]
    exact ⟨.empty, fun _ h => nomatch h⟩
  · rintro - w p op input a w' ⟨hwf, htimeouts⟩ hperform
    have hchange := act_change (perform_act hperform).1
    exact ⟨hchange.wellFormed hwf, hchange.timeouts htimeouts⟩

/-- What one step does to a stored request. -/
theorem step_evolves {cfg : Config signature} (h : (machine host).Reachable cfg)
    (s : Step signature) {approvalId : String} {r : ApprovalRequest}
    (hr : cfg.world.db.get approvalId = some r) :
    ((machine host).step cfg s).world.db.get approvalId = none ∨
      ∃ r', ((machine host).step cfg s).world.db.get approvalId = some r' ∧
        (r' = r ∨ MovesTo r r') := by
  rcases closed.step cfg s with ⟨hworld, -, -⟩ | ⟨c, p, op, input, a, -, hperform⟩
  · rw [hworld]
    exact .inr ⟨r, hr, .inl rfl⟩
  · exact (act_change (perform_act hperform).1).evolves (stored_reachable h).1 hr

/-- A request that is gone does not come back. -/
theorem exec_gone {cfg : Config signature} {approvalId : String}
    (hissued : cfg.world.db.isFresh approvalId = false)
    (hgone : cfg.world.db.get approvalId = none) (steps : List (Step signature)) :
    ((machine host).exec cfg steps).world.db.get approvalId = none := by
  induction steps generalizing cfg with
  | nil => exact hgone
  | cons s steps ih =>
      rcases closed.step (M := machine host) cfg s with
        ⟨hworld, -, -⟩ | ⟨c, p, op, input, a, -, hperform⟩
      · refine ih ?_ ?_
        · rw [hworld]
          exact hissued
        · rw [hworld]
          exact hgone
      · have hchange := act_change (perform_act hperform).1
        refine ih (hchange.issued hissued) ?_
        cases hget : ((machine host).step cfg s).world.db.get approvalId with
        | none => rfl
        | some r =>
            have := (hchange.appears hgone hget).1
            rw [hissued] at this
            cases this

theorem exec_evolves {cfg : Config signature} (h : (machine host).Reachable cfg)
    (steps : List (Step signature)) {approvalId : String} {r r' : ApprovalRequest}
    (hr : cfg.world.db.get approvalId = some r)
    (hr' : ((machine host).exec cfg steps).world.db.get approvalId = some r') :
    Evolves r r' := by
  induction steps generalizing cfg r with
  | nil =>
      cases hr.symm.trans hr'
      exact .refl _
  | cons s steps ih =>
      have hnext := h.step s
      rcases step_evolves h s hr with hgone | ⟨r'', hr'', hmove⟩
      · have hissued : ((machine host).step cfg s).world.db.isFresh approvalId = false := by
          have := (stored_reachable h).1.issued_of_get hr
          rcases closed.step cfg s with ⟨hworld, -, -⟩ | ⟨c, p, op, input, a, -, hperform⟩
          · rw [hworld]
            exact this
          · exact (act_change (perform_act hperform).1).issued this
        have : ((machine host).exec ((machine host).step cfg s) steps).world.db.get approvalId =
            none := exec_gone hissued hgone steps
        cases this.symm.trans hr'
      · refine Evolves.trans ?_ (ih hnext hr'' hr')
        rcases hmove with rfl | hmove
        · exact .refl _
        · exact hmove.toEvolves

def yearTenThousand : Int := 253402300800000

/-- Documented behaviour of dates: a text is read back, and texts that the schema accepts
sort before those of later times, until the years get a fifth digit. -/
structure Calendar (host : Host) : Prop where
  dateParse_toISOString : ∀ t, host.dateParse (host.toISOString t) = some t.ms
  order : ∀ t now : Instant, host.isDatetime (host.toISOString t) = true →
    now.ms < yearTenThousand →
    codeUnitLe (host.toISOString t) (host.toISOString now) = decide (t.ms ≤ now.ms)

/-- The step that granted a decision. -/
theorem decision_granted (hhost : Calendar host) {cfg : Config signature}
    (h : (machine host).Reachable cfg) {op : Op} {input : Input} {a : Answer op} {w : World}
    (hperform : perform host op input cfg.world = some (a, w)) {approvalId : String}
    (hgranted : grantsDecision approvalId ⟨op, a⟩ = true) :
    ∃ r t, cfg.world.db.get approvalId = some r ∧ r.state = .pending ∧
      r.timeoutAt = host.toISOString t ∧
      codeUnitLe r.timeoutAt (host.toISOString w.clock) = false ∧
      (w.clock.ms < yearTenThousand → w.clock.ms < t.ms) := by
  obtain ⟨hact, hclock⟩ := perform_act hperform
  have hdecided : ∃ decision decidedBy r,
      Decided host cfg.world.db decision approvalId decidedBy input.clock (.ok (some r), w.db) := by
    cases op with
    | approve id decidedBy =>
        match a, hgranted, hact with
        | .ok (some r), hgranted, hact =>
            cases beq_iff_eq.mp hgranted
            exact ⟨_, _, r, decided_of_some (Option.some.inj hact)⟩
    | deny id decidedBy =>
        match a, hgranted, hact with
        | .ok (some r), hgranted, hact =>
            cases beq_iff_eq.mp hgranted
            exact ⟨_, _, r, decided_of_some (Option.some.inj hact)⟩
    | create | consumeOneTime | selectExpired | expire | get | delete | now | sleep =>
        cases hgranted
  obtain ⟨decision, decidedBy, -, request, hread, hpending, htime, -⟩ := hdecided
  obtain ⟨t, ht⟩ := (stored_reachable h).2 request (ApprovalDatabase.get_mem hread.found).1
  rw [hclock]
  refine ⟨request, t, hread.found, hpending, ht, htime, fun hyear => ?_⟩
  have haccepted : host.isDatetime request.timeoutAt = true := by
    have := hread.accepted
    simp only [ApprovalRequest.accepted, Bool.and_eq_true] at this
    exact this.1.2
  rw [ht] at haccepted htime
  rw [hhost.order t input.clock haccepted hyear, decide_eq_false_iff_not, not_le] at htime
  exact htime

theorem consumption_granted (hhost : Calendar host) {cfg : Config signature}
    (h : (machine host).Reachable cfg) {op : Op} {input : Input} {a : Answer op} {w : World}
    (hperform : perform host op input cfg.world = some (a, w)) {approvalId : String}
    (hgranted : grantsConsumption approvalId ⟨op, a⟩ = true) :
    ∃ r t, cfg.world.db.get approvalId = some r ∧ r.state = .approved ∧
      r.approvalType = .oneTime ∧ r.timeoutAt = host.toISOString t ∧ w.clock.ms < t.ms := by
  obtain ⟨hact, hclock⟩ := perform_act hperform
  cases op with
  | consumeOneTime id =>
      match a, hgranted, hact with
      | .ok (some r), hgranted, hact =>
          cases beq_iff_eq.mp hgranted
          obtain ⟨request, hread, happroved, htype, htime, -⟩ :=
            consumed_of_some (Option.some.inj hact)
          obtain ⟨t, ht⟩ := (stored_reachable h).2 request (ApprovalDatabase.get_mem hread.found).1
          rw [hclock]
          refine ⟨request, t, hread.found, happroved, htype, ht, htime t.ms ?_⟩
          rw [ht]
          exact hhost.dateParse_toISOString t
  | create | approve | deny | selectExpired | expire | get | delete | now | sleep =>
      cases hgranted

end LifeCycle

open LifeCycle in
/-- The life cycle of an approval request under every interleaving of the stores' calls. -/
theorem approval_life_cycle {host : Host} (hhost : Calendar host) {cfg : Config signature}
    (h : (machine host).Reachable cfg) (approvalId : String) :
    ((performed cfg.log).filter (grantsDecision approvalId)).length ≤ 1 ∧
    ((performed cfg.log).filter (grantsConsumption approvalId)).length ≤ 1 ∧
    (∀ steps r r', cfg.world.db.get approvalId = some r →
      ((machine host).exec cfg steps).world.db.get approvalId = some r' → Evolves r r') ∧
    ∀ s, let next := (machine host).step cfg s
      (∀ r r', cfg.world.db.get approvalId = some r → next.world.db.get approvalId = some r' →
        r' = r ∨ MovesTo r r') ∧
      ∀ c op a, next.log = .did c op a :: cfg.log →
        (threw op a = true → next.world.db = cfg.world.db) ∧
        (grantsDecision approvalId ⟨op, a⟩ = true →
          ∃ r t, cfg.world.db.get approvalId = some r ∧ r.state = .pending ∧
            r.timeoutAt = host.toISOString t ∧
            codeUnitLe r.timeoutAt (host.toISOString next.world.clock) = false ∧
            (next.world.clock.ms < yearTenThousand → next.world.clock.ms < t.ms)) ∧
        (grantsConsumption approvalId ⟨op, a⟩ = true →
          ∃ r t, cfg.world.db.get approvalId = some r ∧ r.state = .approved ∧
            r.approvalType = .oneTime ∧ r.timeoutAt = host.toISOString t ∧
            next.world.clock.ms < t.ms) := by
  have hatMost : ∀ {granted before}, Grants host granted approvalId before →
      ((performed cfg.log).filter granted).length ≤ 1 := by
    intro granted before hgrants
    rcases (granted_once hgrants h).once with hnone | ⟨hone, -⟩
    · simp [hnone]
    · exact le_of_eq hone
  refine ⟨hatMost (grants_decision approvalId), hatMost (grants_consumption approvalId),
    fun steps r r' hr hr' => exec_evolves h steps hr hr', ?_⟩
  intro s next
  refine ⟨fun r r' hr hr' => ?_, fun c op a hlog => ?_⟩
  · rcases step_evolves h s hr with hgone | ⟨r'', hr'', hmove⟩
    · cases hgone.symm.trans hr'
    · cases hr''.symm.trans hr'
      exact hmove
  · rcases closed.step cfg s with ⟨-, -, hnot⟩ | ⟨c', p, op', input, a', hlog', hperform⟩
    · exact absurd hlog (hnot c op a)
    · cases hlog.symm.trans hlog'
      exact ⟨act_threw (perform_act hperform).1, decision_granted hhost h hperform,
        consumption_granted hhost h hperform⟩

namespace LifeCycle

theorem unitsLe_replicate (m n : Nat) :
    unitsLe (List.replicate m 48) (List.replicate n 48) = decide (m ≤ n) := by
  induction m generalizing n with
  | zero => simp [unitsLe]
  | succ m ih =>
      cases n with
      | zero => simp [List.replicate_succ, unitsLe]
      | succ n => simp [List.replicate_succ, unitsLe, ih]

def unaryHost : Host :=
  { plainHost (fun _ => "") fun _ _ => "" with
    isDatetime := fun s => s.toList.head? == some 'p' }

theorem codeUnits_unary (c : Char) (hc : c.toNat < 65536) (n : Nat) :
    codeUnits (String.ofList (c :: List.replicate n '0')) = c.toNat :: List.replicate n 48 := by
  simp [codeUnits, hc, List.flatMap_replicate]

theorem unaryHost_calendar : Calendar unaryHost where
  dateParse_toISOString t := by
    simp only [unaryHost, plainHost, String.toList_ofList]
    split_ifs with h
    · simp only [List.length_replicate, Option.some.injEq]
      omega
    · simp only [List.length_replicate, Option.some.injEq]
      omega
  order t now hdatetime _ := by
    have ht : 0 ≤ t.ms := by
      by_contra hneg
      simp [unaryHost, plainHost, hneg] at hdatetime
    simp only [codeUnitLe, unaryHost, plainHost, ht, if_true]
    split_ifs with hnow
    · rw [codeUnits_unary 'p' (by decide), codeUnits_unary 'p' (by decide)]
      simp only [unitsLe, unitsLe_replicate, Bool.beq_eq_decide_eq]
      simp
      omega
    · rw [codeUnits_unary 'p' (by decide), codeUnits_unary 'n' (by decide)]
      simp [unitsLe]
      omega

def sampleParams : ApprovalParams where
  intentId := "i"
  correlationId := "c"
  principal := "p"
  action := "cex.place_order"
  resource := "r"
  environment := .paper
  escalationReason := "e"
  approvalType := .oneTime
  intentData := .obj []

def sampleInput (clock timeout : Instant) : Input where
  clock := clock
  id := "a"
  timeout := timeout
  effects := { schemaError := .ofMessage "Invalid request" }

def createAndApprove (created timeout approved : Instant) : List (Step signature) := [
  .start 0 (.create sampleParams), .run 0 (sampleInput created timeout), .finish 0,
  .start 0 (.approve "a" "operator"), .run 1 (sampleInput approved timeout)]

end LifeCycle

open LifeCycle in
theorem approval_life_cycle_approved :
    let cfg := (machine unaryHost).exec (Machine.boot ⟨.empty, ⟨0, by decide⟩⟩)
      (createAndApprove ⟨1, by decide⟩ ⟨3, by decide⟩ ⟨2, by decide⟩)
    ((performed cfg.log).filter (grantsDecision "a")).length ≤ 1 ∧
      ((performed cfg.log).filter (grantsConsumption "a")).length ≤ 1 := by
  intro cfg
  have reachable : (machine unaryHost).Reachable cfg :=
    (machine unaryHost).reachable_exec (.boot (by rfl)) _
  obtain ⟨hdecision, hconsumption, -⟩ := approval_life_cycle unaryHost_calendar reachable "a"
  exact ⟨hdecision, hconsumption⟩

namespace LifeCycle

def lateHost : Host :=
  { plainHost (fun _ => "") fun _ _ => "" with
    toISOString := fun t =>
      if t.ms = yearTenThousand - 1000 then "9999-12-31T23:59:59.000Z"
      else if t.ms = yearTenThousand - 500 then "9999-12-31T23:59:59.500Z"
      else "+010000-01-01T00:00:00.000Z" }

end LifeCycle

open LifeCycle in
/-- The text of a clock with a year of five digits sorts before every stored timeout. -/
theorem approval_life_cycle_late :
    let cfg := (machine lateHost).exec (Machine.boot ⟨.empty, ⟨0, by decide⟩⟩)
      (createAndApprove ⟨yearTenThousand - 1000, by decide⟩ ⟨yearTenThousand - 500, by decide⟩
        ⟨yearTenThousand, by decide⟩)
    (machine lateHost).Reachable cfg ∧
      (performed cfg.log).map (grantsDecision "a") = [true, false] ∧
      cfg.world.clock.ms = yearTenThousand ∧
      (cfg.world.db.get "a").map ApprovalRequest.timeoutAt = some "9999-12-31T23:59:59.500Z" := by
  refine ⟨(machine lateHost).reachable_exec (.boot (by rfl)) _, ?_⟩
  decide +kernel

end TradingGuardrails
