import TradingGuardrails.Host
import TradingGuardrails.Schemas.Common

/-!
The approval database: requests in the order in which they were stored, and the
operations of the approval store on it. Each operation is one immediate transaction. A
request is identified by a random id that is never issued twice; the database also
remembers the requests as they were issued, which no operation reads.
-/
namespace TradingGuardrails

open Text

inductive ApprovalState where
  | pending
  | approved
  | denied
  | timeout
  | consumed
  deriving DecidableEq

def ApprovalState.text : ApprovalState → String
  | .pending => "pending"
  | .approved => "approved"
  | .denied => "denied"
  | .timeout => "timeout"
  | .consumed => "consumed"

inductive ApprovalType where
  | oneTime
  | allowlistOnboarding
  deriving DecidableEq

def ApprovalType.text : ApprovalType → String
  | .oneTime => "one_time"
  | .allowlistOnboarding => "allowlist_onboarding"

structure ApprovalParams where
  intentId : String
  correlationId : String
  principal : String
  action : String
  resource : String
  environment : Environment
  escalationReason : String
  approvalType : ApprovalType
  intentData : Json
  deriving DecidableEq

structure ApprovalRequest extends ApprovalParams where
  approvalId : String
  state : ApprovalState
  createdAt : String
  decidedAt : Option String
  decidedBy : Option String
  timeoutAt : String
  deriving DecidableEq

structure ApprovalDatabase where
  rows : List ApprovalRequest
  issued : List ApprovalRequest

namespace ApprovalDatabase

def empty : ApprovalDatabase := ⟨[], []⟩

def get (db : ApprovalDatabase) (approvalId : String) : Option ApprovalRequest :=
  db.rows.find? fun r => r.approvalId == approvalId

def list (db : ApprovalDatabase) : List ApprovalRequest := db.rows

def save (db : ApprovalDatabase) (request : ApprovalRequest) : ApprovalDatabase :=
  { db with rows := db.rows.map fun r =>
      if r.approvalId == request.approvalId then request else r }

def insert (db : ApprovalDatabase) (request : ApprovalRequest) : ApprovalDatabase :=
  ⟨db.rows ++ [request], db.issued ++ [request]⟩

def delete (db : ApprovalDatabase) (approvalId : String) : ApprovalDatabase :=
  { db with rows := db.rows.filter fun r => r.approvalId != approvalId }

def isFresh (db : ApprovalDatabase) (approvalId : String) : Bool :=
  !db.issued.any fun r => r.approvalId == approvalId

variable (host : Host)

def newRequest (params : ApprovalParams) (approvalId : String) (now timeout : Instant) :
    ApprovalRequest :=
  { toApprovalParams := params
    approvalId := approvalId
    state := .pending
    createdAt := host.toISOString now
    decidedAt := none
    decidedBy := none
    timeoutAt := host.toISOString timeout }

def timeOut (db : ApprovalDatabase) (request : ApprovalRequest) (decidedAt : String) :
    ApprovalDatabase :=
  db.save { request with state := .timeout, decidedAt := some decidedAt, decidedBy := none }

/-- A human decision on a pending request before its timeout. The flag tells whether the
audit writes of the transaction succeed; when they throw, nothing is changed. -/
def decide (db : ApprovalDatabase) (decision : ApprovalState) (approvalId decidedBy : String)
    (now : Instant) (audited : Bool) : ApprovalDatabase :=
  match db.get approvalId with
  | none => db
  | some request =>
      let decidedAt := host.toISOString now
      if request.state ≠ .pending then db
      else if !audited then db
      else if codeUnitLe request.timeoutAt decidedAt then db.timeOut request decidedAt
      else db.save
        { request with state := decision, decidedAt := some decidedAt, decidedBy := some decidedBy }

def approve (db : ApprovalDatabase) := db.decide host .approved

def deny (db : ApprovalDatabase) := db.decide host .denied

def expire (db : ApprovalDatabase) (approvalId : String) (now : Instant) (audited : Bool) :
    ApprovalDatabase :=
  match db.get approvalId with
  | none => db
  | some request =>
      let decidedAt := host.toISOString now
      if request.state ≠ .pending then db
      else if !codeUnitLe request.timeoutAt decidedAt then db
      else if !audited then db
      else db.timeOut request decidedAt

def consumeOneTime (db : ApprovalDatabase) (approvalId : String) (now : Instant) :
    Option ApprovalRequest × ApprovalDatabase :=
  match db.get approvalId with
  | none => (none, db)
  | some request =>
      if request.state ≠ .approved ∨ request.approvalType ≠ .oneTime then (none, db)
      else if (host.dateParse request.timeoutAt).any fun timeoutMs => timeoutMs ≤ now.ms then
        (none, db)
      else
        let consumed := { request with state := .consumed }
        (some consumed, db.save consumed)

/-- Two versions of one request: only the state and the decision differ. -/
def SameRequest (r r' : ApprovalRequest) : Prop :=
  r.toApprovalParams = r'.toApprovalParams ∧ r.approvalId = r'.approvalId ∧
    r.timeoutAt = r'.timeoutAt

/-- Ids are issued once, every row is a version of an issued request, and no two rows
have one id. -/
structure WellFormed (db : ApprovalDatabase) : Prop where
  issuedOnce : (db.issued.map ApprovalRequest.approvalId).Nodup
  rowsOnce : (db.rows.map ApprovalRequest.approvalId).Nodup
  rowIssued : ∀ r ∈ db.rows, ∃ i ∈ db.issued, SameRequest r i

variable {host} {db : ApprovalDatabase}

theorem get_mem {approvalId : String} {r : ApprovalRequest} (h : db.get approvalId = some r) :
    r ∈ db.rows ∧ r.approvalId = approvalId := by
  have hid := List.find?_some h
  exact ⟨List.mem_of_find?_eq_some h, by simpa using hid⟩

theorem get_of_mem (hdb : db.WellFormed) {r : ApprovalRequest} (h : r ∈ db.rows) :
    db.get r.approvalId = some r := by
  have hrows := hdb.rowsOnce
  simp only [get]
  generalize db.rows = rows at h hrows
  induction rows with
  | nil => cases h
  | cons r' rows ih =>
      rw [List.map_cons, List.nodup_cons] at hrows
      rcases List.mem_cons.mp h with rfl | htail
      · simp
      · have hne : r'.approvalId ≠ r.approvalId := by
          intro heq
          exact hrows.1 (heq ▸ List.mem_map_of_mem htail)
        rw [List.find?_cons_of_neg (by simpa using hne)]
        exact ih htail hrows.2

theorem WellFormed.empty : (empty).WellFormed where
  issuedOnce := List.nodup_nil
  rowsOnce := List.nodup_nil
  rowIssued _ h := nomatch h

theorem WellFormed.save (hdb : db.WellFormed) {r request : ApprovalRequest}
    (hget : db.get r.approvalId = some r) (hsame : SameRequest request r) :
    (db.save request).WellFormed := by
  have hid : (db.save request).rows.map ApprovalRequest.approvalId =
      db.rows.map ApprovalRequest.approvalId := by
    simp only [ApprovalDatabase.save, List.map_map]
    refine List.map_congr_left fun r' _ => ?_
    simp only [Function.comp]
    split_ifs with h
    · exact (beq_iff_eq.mp h).symm
    · rfl
  refine ⟨hdb.issuedOnce, by rw [hid]; exact hdb.rowsOnce, ?_⟩
  intro r' hr'
  obtain ⟨r'', hr'', rfl⟩ := List.mem_map.mp hr'
  split_ifs with h
  · obtain ⟨i, hi, hri⟩ := hdb.rowIssued r (get_mem hget).1
    exact ⟨i, hi, hsame.1.trans hri.1, hsame.2.1.trans hri.2.1, hsame.2.2.trans hri.2.2⟩
  · exact hdb.rowIssued r'' hr''

theorem WellFormed.insert (hdb : db.WellFormed) {request : ApprovalRequest}
    (hfresh : db.isFresh request.approvalId = true) : (db.insert request).WellFormed := by
  have hnew : ∀ i ∈ db.issued, i.approvalId ≠ request.approvalId := by
    intro i hi heq
    simp only [isFresh, Bool.not_eq_true', List.any_eq_false, beq_iff_eq] at hfresh
    exact hfresh i hi heq
  have hrow : ∀ r ∈ db.rows, r.approvalId ≠ request.approvalId := by
    intro r hr heq
    obtain ⟨i, hi, hri⟩ := hdb.rowIssued r hr
    exact hnew i hi (hri.2.1.symm.trans heq)
  refine ⟨?_, ?_, ?_⟩
  · simp only [ApprovalDatabase.insert, List.map_append, List.map_cons, List.map_nil]
    refine List.Nodup.append hdb.issuedOnce (List.nodup_singleton _) ?_
    rintro x hx hx'
    obtain ⟨i, hi, rfl⟩ := List.mem_map.mp hx
    exact hnew i hi (List.mem_singleton.mp hx')
  · simp only [ApprovalDatabase.insert, List.map_append, List.map_cons, List.map_nil]
    refine List.Nodup.append hdb.rowsOnce (List.nodup_singleton _) ?_
    rintro x hx hx'
    obtain ⟨r, hr, rfl⟩ := List.mem_map.mp hx
    exact hrow r hr (List.mem_singleton.mp hx')
  · intro r hr
    simp only [ApprovalDatabase.insert, List.mem_append, List.mem_singleton] at hr ⊢
    rcases hr with hr | rfl
    · obtain ⟨i, hi, hri⟩ := hdb.rowIssued r hr
      exact ⟨i, .inl hi, hri⟩
    · exact ⟨r, .inr rfl, rfl, rfl, rfl⟩

theorem WellFormed.issued_of_get (hdb : db.WellFormed) {approvalId : String}
    {r : ApprovalRequest} (h : db.get approvalId = some r) : db.isFresh approvalId = false := by
  obtain ⟨hmem, hid⟩ := get_mem h
  obtain ⟨i, hi, hsame⟩ := hdb.rowIssued r hmem
  simp only [isFresh, Bool.not_eq_false', List.any_eq_true, beq_iff_eq]
  exact ⟨i, hi, hsame.2.1.symm.trans hid⟩

theorem WellFormed.delete (hdb : db.WellFormed) (approvalId : String) :
    (db.delete approvalId).WellFormed where
  issuedOnce := hdb.issuedOnce
  rowsOnce := hdb.rowsOnce.sublist (List.Sublist.map _ List.filter_sublist)
  rowIssued r hr := hdb.rowIssued r (List.mem_of_mem_filter hr)

theorem WellFormed.timeOut (hdb : db.WellFormed) {request : ApprovalRequest}
    (hget : db.get request.approvalId = some request) (decidedAt : String) :
    (db.timeOut request decidedAt).WellFormed :=
  hdb.save hget ⟨rfl, rfl, rfl⟩

theorem WellFormed.decide (hdb : db.WellFormed) (decision : ApprovalState)
    (approvalId decidedBy : String) (now : Instant) (audited : Bool) :
    (db.decide host decision approvalId decidedBy now audited).WellFormed := by
  simp only [ApprovalDatabase.decide]
  split
  · exact hdb
  · rename_i request hget
    have hself := (get_mem hget).2 ▸ hget
    split_ifs
    · exact hdb
    · exact hdb
    · exact hdb.timeOut hself _
    · exact hdb.save hself ⟨rfl, rfl, rfl⟩

theorem WellFormed.expire (hdb : db.WellFormed) (approvalId : String) (now : Instant)
    (audited : Bool) : (db.expire host approvalId now audited).WellFormed := by
  simp only [ApprovalDatabase.expire]
  split
  · exact hdb
  · rename_i request hget
    have hself := (get_mem hget).2 ▸ hget
    split_ifs
    · exact hdb
    · exact hdb
    · exact hdb
    · exact hdb.timeOut hself _

/-- What a successful consumption found and left behind. -/
theorem consumeOneTime_some {approvalId : String} {now : Instant} {r : ApprovalRequest}
    (h : (db.consumeOneTime host approvalId now).1 = some r) :
    ∃ request, db.get approvalId = some request ∧ request.state = .approved ∧
      request.approvalType = .oneTime ∧ r = { request with state := .consumed } ∧
      (∀ timeoutMs, host.dateParse request.timeoutAt = some timeoutMs → now.ms < timeoutMs) ∧
      (db.consumeOneTime host approvalId now).2 = db.save r := by
  simp only [consumeOneTime] at h ⊢
  split at h
  · cases h
  · rename_i request hget
    split_ifs at h ⊢ with hstate htime
    · cases h
      rw [not_or, not_not, not_not] at hstate
      refine ⟨request, hget, hstate.1, hstate.2, rfl, ?_, rfl⟩
      intro timeoutMs hms
      rw [hms, Option.any_some, decide_eq_true_eq, not_le] at htime
      exact htime

theorem consumeOneTime_none {approvalId : String} {now : Instant}
    (h : (db.consumeOneTime host approvalId now).1 = none) :
    (db.consumeOneTime host approvalId now).2 = db := by
  simp only [consumeOneTime] at h ⊢
  split at h
  · rfl
  · split_ifs at h ⊢ <;> rfl

theorem WellFormed.consumeOneTime (hdb : db.WellFormed) (approvalId : String) (now : Instant) :
    (db.consumeOneTime host approvalId now).2.WellFormed := by
  cases h : (db.consumeOneTime host approvalId now).1 with
  | none =>
      rw [consumeOneTime_none h]
      exact hdb
  | some r =>
      obtain ⟨request, hget, -, -, rfl, -, hdb'⟩ := consumeOneTime_some h
      rw [hdb']
      have hself : db.get request.approvalId = some request := (get_mem hget).2.symm ▸ hget
      exact hdb.save hself ⟨rfl, rfl, rfl⟩

/-- An id that was issued, and under which nothing is stored any more. -/
structure Gone (db : ApprovalDatabase) (approvalId : String) : Prop where
  issued : db.isFresh approvalId = false
  none : db.get approvalId = none

theorem not_fresh_insert {approvalId : String} (h : db.isFresh approvalId = false)
    (request : ApprovalRequest) : (db.insert request).isFresh approvalId = false := by
  simp only [isFresh, Bool.not_eq_false', List.any_eq_true] at h ⊢
  obtain ⟨i, hi, hid⟩ := h
  exact ⟨i, List.mem_append_left _ hi, hid⟩

theorem issued_insert (request : ApprovalRequest) :
    (db.insert request).isFresh request.approvalId = false := by
  simp only [isFresh, Bool.not_eq_false', List.any_eq_true]
  exact ⟨request, List.mem_append_right _ (List.mem_singleton_self _), beq_self_eq_true _⟩

theorem get_eq_none {approvalId : String} :
    db.get approvalId = .none ↔ ∀ r ∈ db.rows, r.approvalId ≠ approvalId := by
  simp only [get, List.find?_eq_none, beq_iff_eq, ne_eq]

namespace Gone

variable {approvalId : String}

theorem save (h : db.Gone approvalId) (request : ApprovalRequest) :
    (db.save request).Gone approvalId := by
  refine ⟨h.issued, get_eq_none.mpr fun r hr => ?_⟩
  obtain ⟨r', hr', rfl⟩ := List.mem_map.mp hr
  have hne := get_eq_none.mp h.none r' hr'
  split_ifs with hsame
  · rwa [← beq_iff_eq.mp hsame]
  · exact hne

theorem insert (h : db.Gone approvalId) {request : ApprovalRequest}
    (hfresh : db.isFresh request.approvalId = true) : (db.insert request).Gone approvalId := by
  refine ⟨not_fresh_insert h.issued request, get_eq_none.mpr fun r hr => ?_⟩
  rcases List.mem_append.mp hr with hold | hnew
  · exact get_eq_none.mp h.none r hold
  · rw [List.mem_singleton.mp hnew]
    rintro rfl
    exact absurd (h.issued.symm.trans hfresh) (by simp)

theorem delete (h : db.Gone approvalId) (deleted : String) : (db.delete deleted).Gone approvalId :=
  ⟨h.issued, get_eq_none.mpr fun r hr => get_eq_none.mp h.none r (List.mem_of_mem_filter hr)⟩

theorem decide (h : db.Gone approvalId) (decision : ApprovalState) (id decidedBy : String)
    (now : Instant) (audited : Bool) :
    (db.decide host decision id decidedBy now audited).Gone approvalId := by
  simp only [ApprovalDatabase.decide]
  split
  · exact h
  · split_ifs
    · exact h
    · exact h
    · exact h.save _
    · exact h.save _

theorem expire (h : db.Gone approvalId) (id : String) (now : Instant) (audited : Bool) :
    (db.expire host id now audited).Gone approvalId := by
  simp only [ApprovalDatabase.expire]
  split
  · exact h
  · split_ifs
    · exact h
    · exact h
    · exact h
    · exact h.save _

theorem consumeOneTime (h : db.Gone approvalId) (id : String) (now : Instant) :
    (db.consumeOneTime host id now).2.Gone approvalId := by
  cases hr : (db.consumeOneTime host id now).1 with
  | none =>
      rw [consumeOneTime_none hr]
      exact h
  | some r =>
      obtain ⟨request, -, -, -, -, -, hdb⟩ := consumeOneTime_some hr
      rw [hdb]
      exact h.save r

end Gone

theorem gone_delete {approvalId : String} (h : db.isFresh approvalId = false) :
    (db.delete approvalId).Gone approvalId := by
  refine ⟨h, get_eq_none.mpr fun r hr => ?_⟩
  have hkept := (List.mem_filter.mp hr).2
  simpa using hkept

/-- Issued ids stay issued. -/
theorem issued_decide (decision : ApprovalState) (id decidedBy : String) (now : Instant)
    (audited : Bool) : (db.decide host decision id decidedBy now audited).issued = db.issued := by
  simp only [ApprovalDatabase.decide]
  split
  · rfl
  · split_ifs <;> rfl

theorem issued_expire (id : String) (now : Instant) (audited : Bool) :
    (db.expire host id now audited).issued = db.issued := by
  simp only [ApprovalDatabase.expire]
  split
  · rfl
  · split_ifs <;> rfl

theorem issued_consumeOneTime (id : String) (now : Instant) :
    (db.consumeOneTime host id now).2.issued = db.issued := by
  simp only [ApprovalDatabase.consumeOneTime]
  split
  · rfl
  · split_ifs <;> rfl

end ApprovalDatabase
end TradingGuardrails
