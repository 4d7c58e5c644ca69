import TradingGuardrails.System.OnFile

/-!
Results are released after their audit. A store has a result on file together with the audit
event of the execution that it came from, until this very event was written; and no call
returns a result of an execution before that, whether it made the result itself, found it on
file, or waited for it. A result on file stands for the rest of the run.
-/
namespace TradingGuardrails

open Text Interleaving

variable {host : Host} {dep : Deployment} {cfg cfg' : Config (signature host)}

namespace Release

open Submission OnFile

def record? : Stage → Option Record
  | .recorded record _ | .audited record _ | .unaudited record _ | .released record => some record
  | _ => none

theorem owns_of_record {stage : Stage} {r : Record} (h : record? stage = some r) :
    owns stage = true := by
  cases stage with
  | recorded | audited | unaudited | released => rfl
  | _ => cases h

/-- A call keeps the record that it has made. -/
theorem record_next {s : Attempt} {op : Op host} (hallowed : s.allowed op) (a : Ans host op)
    {r : Record} (h : record? s.stage = some r) : record? (s.next op a).stage = some r := by
  rw [Attempt.next_stage]
  cases op with
  | auditWrite event =>
      cases a with
      | error e => cases hs : s.stage <;> simp_all [Attempt.stageAfter, record?]
      | ok u => cases hs : s.stage <;> simp_all [Attempt.stageAfter, record?]
  | completeAudit handle =>
      cases a with
      | error e => exact h
      | ok u => cases hs : s.stage <;> simp_all [Attempt.stageAfter, record?]
  | cachedCompleteAudit handle =>
      cases a with
      | error e => exact h
      | ok u => cases hs : s.stage <;> simp_all [Attempt.stageAfter, record?]
  | begin | enterConnector | connectorResult | pendingResult =>
      cases hs : s.stage <;> simp_all [Attempt.allowed, record?]
  | complete handle result pendingAudit =>
      obtain ⟨request, -, -, hstage⟩ := hallowed
      cases hs : s.stage <;> simp_all [record?]
  | abort handle error =>
      obtain ⟨request, -, -, hstage⟩ := hallowed
      cases hs : s.stage <;> simp_all [record?]
  | _ => exact h

/-- A call whose store the process shares has made a record under a key. -/
def Made (dep : Deployment) (cfg : Config (signature host)) (p : Nat) (handle : Handle)
    (r : Record) : Prop :=
  ∃ c q s, ∃ request : Request host, Executing dep cfg c q s ∧ dep.Shares q p ∧
    s.request host = some request ∧ request.handle = handle ∧ record? s.stage = some r

def Written (log : History host) (event : Json) : Prop :=
  ∃ c, .did c (.auditWrite event) (.ok ()) ∈ log

def Rejected (result : Json) : Prop :=
  result.field? "status" = some (.str "rejected")

/-- A result on file is a rejection, or that of a record whose event is pending or written. -/
def Accounted (dep : Deployment) (cfg : Config (signature host)) (p : Nat) (key : String)
    (f : Filed) : Prop :=
  Rejected f.result ∧ f.pendingAudit = none ∨ ∃ r, Made dep cfg p ⟨key, f.payloadHash⟩ r ∧
    f.result = r.result ∧
    (f.pendingAudit = some r.event ∨ f.pendingAudit = none ∧ Written cfg.log r.event)

def Releasable (dep : Deployment) (cfg : Config (signature host)) (result : Json) : Prop :=
  Rejected result ∨ ∃ p handle r, Made dep cfg p handle r ∧ result = r.result ∧
    Written cfg.log r.event

def Grounded (dep : Deployment) (cfg : Config (signature host)) (p : Nat) (s : Attempt) : Prop :=
  match s.stage with
  | .audited r _ | .released r => Written cfg.log r.event
  | .replaying result pendingAudit => ∃ request : Request host, s.request host = some request ∧
      Accounted dep cfg p request.handle.scopedKey
        ⟨request.handle.payloadHash, result, pendingAudit⟩
  | .flushed result => ∃ request : Request host, s.request host = some request ∧
      ∃ r, Made dep cfg p request.handle r ∧ result = r.result ∧ Written cfg.log r.event
  | .answered (.ok result) => Releasable dep cfg result
  | _ => True

structure Trailed (dep : Deployment) (cfg : Config (signature host)) : Prop where
  filed : ∀ p key f, (dep.archive cfg.world p).files key f → Accounted dep cfg p key f
  kept : ∀ id result, cfg.world.promises.kept id result → Releasable dep cfg result
  calls : ∀ c p s, Executing dep cfg c p s → Grounded dep cfg p s

structure Later (dep : Deployment) (cfg cfg' : Config (signature host)) : Prop where
  log : ∀ event ∈ cfg.log, event ∈ cfg'.log
  made : ∀ p handle r, Made dep cfg p handle r → Made dep cfg' p handle r

theorem Later.written (h : Later dep cfg cfg') {event : Json} (hw : Written cfg.log event) :
    Written cfg'.log event := by
  obtain ⟨c, hmem⟩ := hw
  exact ⟨c, h.log _ hmem⟩

theorem Later.accounted (h : Later dep cfg cfg') {p : Nat} {key : String} {f : Filed}
    (ha : Accounted dep cfg p key f) : Accounted dep cfg' p key f := by
  rcases ha with hrejected | ⟨r, hmade, hresult, hpending | ⟨hnone, hwritten⟩⟩
  · exact .inl hrejected
  · exact .inr ⟨r, h.made _ _ _ hmade, hresult, .inl hpending⟩
  · exact .inr ⟨r, h.made _ _ _ hmade, hresult, .inr ⟨hnone, h.written hwritten⟩⟩

theorem Later.releasable (h : Later dep cfg cfg') {result : Json}
    (hr : Releasable dep cfg result) : Releasable dep cfg' result := by
  rcases hr with hrejected | ⟨p, handle, r, hmade, hresult, hwritten⟩
  · exact .inl hrejected
  · exact .inr ⟨p, handle, r, h.made _ _ _ hmade, hresult, h.written hwritten⟩

theorem Later.grounded (h : Later dep cfg cfg') {p : Nat} {s s' : Attempt}
    (hstage : s'.stage = s.stage)
    (hrequest : ∀ request : Request host, s.request host = some request →
      s'.request host = some request)
    (hg : Grounded dep cfg p s) : Grounded dep cfg' p s' := by
  unfold Grounded at hg ⊢
  rw [hstage]
  cases hs : s.stage with
  | audited | released =>
      rw [hs] at hg
      exact h.written hg
  | replaying result pendingAudit =>
      rw [hs] at hg
      obtain ⟨request, hr, haccounted⟩ := hg
      exact ⟨request, hrequest request hr, h.accounted haccounted⟩
  | flushed result =>
      rw [hs] at hg
      obtain ⟨request, hr, r, hmade, hresult, hwritten⟩ := hg
      exact ⟨request, hrequest request hr, r, h.made _ _ _ hmade, hresult, h.written hwritten⟩
  | answered answer =>
      rw [hs] at hg
      cases answer with
      | error e => exact True.intro
      | ok result => exact h.releasable hg
  | _ => exact True.intro

/-- A key has one record. -/
theorem made_unique (h : Reserved dep cfg) {p : Nat} {handle handle' : Handle} {r r' : Record}
    (hkey : handle.scopedKey = handle'.scopedKey) (hm : Made dep cfg p handle r)
    (hm' : Made dep cfg p handle' r') : r = r' := by
  obtain ⟨c, q, s, request, hs, hshares, hrequest, rfl, hrecord⟩ := hm
  obtain ⟨c', q', s', request', hs', hshares', hrequest', rfl, hrecord'⟩ := hm'
  have hq : dep.Shares q q' := by
    rcases hshares with hstore | rfl
    · exact .inl hstore
    · exact hshares'.imp_right Eq.symm
  obtain rfl := h.alone c c' q q' s s' request request' hs hs' hq hrequest hrequest' hkey
    (owns_of_record hrecord) (owns_of_record hrecord')
  cases hs.symm.trans hs'
  exact Option.some.inj (hrecord.symm.trans hrecord')

theorem made_shares {p q : Nat} (hshares : dep.Shares p q) {handle : Handle} {r : Record}
    (h : Made dep cfg p handle r) : Made dep cfg q handle r := by
  obtain ⟨c, q', s, request, hs, hq, hrequest, hhandle, hrecord⟩ := h
  refine ⟨c, q', s, request, hs, ?_, hrequest, hhandle, hrecord⟩
  rcases hq with hstore | rfl
  · exact .inl hstore
  · exact hshares

theorem accounted_shares {p q : Nat} (hshares : dep.Shares p q) {key : String} {f : Filed}
    (h : Accounted dep cfg p key f) : Accounted dep cfg q key f := by
  rcases h with hrejected | ⟨r, hmade, hrest⟩
  · exact .inl hrejected
  · exact .inr ⟨r, made_shares hshares hmade, hrest⟩

/-- A call that is not the one that acts stands where it stood. -/
theorem later_act {c : Nat} {st : CallState host} {op : Op host} (a : Ans host op)
    (state : (dep.discipline host).state c cfg.log = some st)
    (allowed : (dep.discipline host).allowed st op)
    (hlog : cfg'.log = .did c op a :: cfg.log) : Later dep cfg cfg' where
  log event hmem := by
    rw [hlog]
    exact List.mem_cons_of_mem _ hmem
  made p handle r hmade := by
    obtain ⟨c', q, s, request, hs, hshares, hrequest, hhandle, hrecord⟩ := hmade
    by_cases hc : c = c'
    · subst hc
      cases state.symm.trans hs
      refine ⟨c, q, s.next op a, request, ?_, hshares, Attempt.request_next hrequest op a, hhandle,
        record_next allowed a hrecord⟩
      rw [Executing, hlog, Discipline.state_did_self hs]
      rfl
    · refine ⟨c', q, s, request, ?_, hshares, hrequest, hhandle, hrecord⟩
      rw [Executing, hlog, Discipline.state_did hc]
      exact hs

section

variable {c p : Nat} {s : Attempt} {op : Op host} {a : Ans host op} {i : Input} {w : World host}

/-- The call that drops an event has seen it written. -/
theorem accounted_released (h : Reserved dep cfg) (htrailed : Trailed dep cfg) {handle : Handle}
    {r : Record} (hmade : Made dep cfg p handle r) (hwritten : Written cfg.log r.event)
    {pendingAudit : Option Json} {result : Json}
    (hfiled : (dep.archive cfg.world p).files handle.scopedKey
      ⟨handle.payloadHash, result, pendingAudit⟩) :
    Accounted dep cfg p handle.scopedKey ⟨handle.payloadHash, result, none⟩ ∧
      Releasable dep cfg result := by
  rcases htrailed.filed p _ _ hfiled with ⟨hrejected, -⟩ | ⟨r', hmade', hresult, -⟩
  · exact ⟨.inl ⟨hrejected, rfl⟩, .inl hrejected⟩
  · obtain rfl := made_unique h rfl hmade hmade'
    exact ⟨.inr ⟨r, hmade, hresult, .inr ⟨rfl, hwritten⟩⟩,
      .inr ⟨p, handle, r, hmade, hresult, hwritten⟩⟩

theorem filed_later (htrailed : Trailed dep cfg) (later : Later dep cfg cfg') {key : String}
    {f : Filed} (hf : (dep.archive cfg.world p).files key f) : Accounted dep cfg' p key f :=
  later.accounted (htrailed.filed p key f hf)

theorem kept_later (htrailed : Trailed dep cfg) (later : Later dep cfg cfg') {id : Nat}
    {result : Json} (hid : (dep.archive cfg.world p).kept id result) :
    Releasable dep cfg' result := by
  rw [archive_kept] at hid
  exact later.releasable (htrailed.kept id result hid)

/-- What is on file once an event has been dropped. -/
theorem accounted_releasing (h : Reserved dep cfg) (htrailed : Trailed dep cfg)
    (later : Later dep cfg cfg') {handle : Handle} {r : Record} (hmade : Made dep cfg p handle r)
    (hwritten : Written cfg.log r.event)
    (heffect : (dep.archive cfg.world p).Releases handle (dep.archive w p)) :
    (∀ key f, (dep.archive w p).files key f → Accounted dep cfg' p key f) ∧
      ∀ id result, (dep.archive w p).kept id result → Releasable dep cfg' result := by
  constructor
  · intro key f hf
    rcases heffect.files key f hf with hold | ⟨rfl, hhash, hnone, pendingAudit, hold⟩
    · exact filed_later htrailed later hold
    · obtain ⟨payloadHash, result, pending⟩ := f
      obtain rfl : payloadHash = handle.payloadHash := hhash
      obtain rfl : pending = none := hnone
      exact later.accounted (accounted_released h htrailed hmade hwritten hold).1
  · intro id result hid
    rcases heffect.kept id result hid with hold | ⟨pendingAudit, hold⟩
    · exact kept_later htrailed later hold
    · exact later.releasable (accounted_released h htrailed hmade hwritten hold).2

/-- A result that is stored without an event is a rejection. -/
theorem rejected_of_complete {handle : Handle} {result : Json} {pendingAudit : Option Json}
    (allowed : s.allowed (.complete handle result pendingAudit : Op host)) :
    Rejected result ∧ pendingAudit = none ∨ ∃ event, pendingAudit = some event := by
  obtain ⟨request, hrequest, -, hstage⟩ := allowed
  cases pendingAudit with
  | some event => exact .inr ⟨event, rfl⟩
  | none =>
      cases hs : s.stage with
      | reserved =>
          rw [hs] at hstage
          exact .inl ⟨hstage.1, rfl⟩
      | entered reply =>
          rw [hs] at hstage
          cases reply <;> exact False.elim hstage
      | _ =>
          rw [hs] at hstage
          exact False.elim hstage

/-- What the acting call puts on file, and what it keeps a promise with. -/
theorem accounted_act (h : Reserved dep cfg) (htrailed : Trailed dep cfg)
    (hs : Executing dep cfg c p s) (allowed : s.allowed op)
    (performed : dep.perform p op i cfg.world = some (a, w)) (later : Later dep cfg cfg')
    (hs' : Executing dep cfg' c p (s.next op a)) :
    (∀ key f, (dep.archive w p).files key f → Accounted dep cfg' p key f) ∧
      ∀ id result, (dep.archive w p).kept id result → Releasable dep cfg' result := by
  have heffect := perform_archive performed
  cases op with
  | complete handle result pendingAudit =>
      have hresult := rejected_of_complete allowed
      obtain ⟨request, hrequest, rfl, -⟩ := allowed
      constructor
      · intro key f hf
        rcases Archive.Records.files heffect key f hf with hold | ⟨rfl, rfl⟩
        · exact filed_later htrailed later hold
        · rcases hresult with ⟨hrejected, rfl⟩ | ⟨event, rfl⟩
          · exact .inl ⟨hrejected, rfl⟩
          · exact .inr ⟨⟨result, event⟩, ⟨c, p, _, request, hs', .inr rfl,
              Attempt.request_next hrequest _ _, rfl, rfl⟩, rfl, .inl rfl⟩
      · intro id r hid
        rcases Archive.Records.kept heffect id r hid with hold | ⟨rfl, hnone⟩
        · exact kept_later htrailed later hold
        · rcases hresult with ⟨hrejected, -⟩ | ⟨event, rfl⟩
          · exact .inl hrejected
          · cases hnone
  | completeAudit handle =>
      obtain ⟨request, record, hrequest, rfl, hstage⟩ := allowed
      have hwritten := htrailed.calls c p s hs
      rw [Grounded, hstage] at hwritten
      exact accounted_releasing h htrailed later
        ⟨c, p, s, request, hs, .inr rfl, hrequest, rfl, by rw [hstage]; rfl⟩ hwritten heffect
  | cachedCompleteAudit handle =>
      obtain ⟨request, result, hrequest, rfl, hstage⟩ := allowed
      have hground := htrailed.calls c p s hs
      rw [Grounded, hstage] at hground
      obtain ⟨request', hrequest', r, hmade, -, hwritten⟩ := hground
      cases hrequest.symm.trans hrequest'
      exact accounted_releasing h htrailed later hmade hwritten heffect
  | begin key intent =>
      exact ⟨fun key f hf => filed_later htrailed later (heffect.1.files key f hf),
        fun id r hid => kept_later htrailed later (heffect.1.kept id r hid)⟩
  | _ =>
      exact ⟨fun key f hf => filed_later htrailed later (Archive.Keeps.files heffect key f hf),
        fun id r hid => kept_later htrailed later (Archive.Keeps.kept heffect id r hid)⟩

theorem grounded_same (htrailed : Trailed dep cfg) (hs : Executing dep cfg c p s)
    (later : Later dep cfg cfg') (hstage : s.stageAfter op a = s.stage) :
    Grounded dep cfg' p (s.next op a) :=
  later.grounded hstage (fun _ hrequest => Attempt.request_next hrequest op a)
    (htrailed.calls c p s hs)

theorem grounded_begin (htrailed : Trailed dep cfg) {key : String} {intent : TradingIntent host}
    {answer : Except Thrown Reservation} (allowed : s.allowed (.begin key intent : Op host))
    (performed : dep.perform p (.begin key intent) i cfg.world = some (answer, w))
    (later : Later dep cfg cfg') :
    Grounded dep cfg' p (s.next (.begin key intent : Op host) answer) := by
  obtain ⟨-, request, hrequest, rfl, rfl, -⟩ := allowed
  have heffect := perform_archive performed
  cases answer with
  | error e => exact True.intro
  | ok reservation =>
      cases reservation with
      | reserved | pending => exact True.intro
      | cached result pendingAudit =>
          have hfiled := heffect.2.1 result pendingAudit rfl
          exact ⟨request, Attempt.request_next hrequest _ _,
            later.accounted (htrailed.filed p _ _ hfiled)⟩

/-- The event of a recorded result is the one that the call writes. -/
theorem grounded_recorded {event : Json} {answer : Except Thrown Unit} {record : Record}
    {completion : Except Thrown Unit} (hstage : s.stage = .recorded record completion)
    (allowed : s.allowed (.auditWrite event : Op host))
    (hlog : cfg'.log = .did c (.auditWrite event) answer :: cfg.log) :
    Grounded dep cfg' p (s.next (.auditWrite event : Op host) answer) := by
  simp only [Attempt.allowed, hstage] at allowed
  cases answer with
  | error e =>
      have hnext : s.stageAfter (.auditWrite event : Op host) (.error e) =
          .unaudited record e := by
        simp only [Attempt.stageAfter, hstage]
      rw [Grounded, Attempt.next_stage, hnext]
      exact True.intro
  | ok u =>
      have hnext : s.stageAfter (.auditWrite event : Op host) (.ok u) =
          .audited record completion := by
        simp only [Attempt.stageAfter, hstage]
      rw [Grounded, Attempt.next_stage, hnext]
      refine ⟨c, ?_⟩
      rw [hlog, ← allowed]
      exact List.mem_cons_self

/-- A call that replays a result writes the event that stands with it, if there is one. -/
theorem grounded_replaying (htrailed : Trailed dep cfg) (hs : Executing dep cfg c p s)
    {event : Json} {answer : Except Thrown Unit} {result : Json} {pendingAudit : Option Json}
    (hstage : s.stage = .replaying result pendingAudit)
    (allowed : s.allowed (.auditWrite event : Op host)) (later : Later dep cfg cfg')
    (hlog : cfg'.log = .did c (.auditWrite event) answer :: cfg.log) :
    Grounded dep cfg' p (s.next (.auditWrite event : Op host) answer) := by
  simp only [Attempt.allowed, hstage] at allowed
  cases pendingAudit with
  | none => exact False.elim allowed
  | some pending =>
      obtain rfl : event = pending := allowed
      cases answer with
      | error e =>
          apply grounded_same htrailed hs later
          simp only [Attempt.stageAfter, hstage]
      | ok u =>
          have hground := htrailed.calls c p s hs
          rw [Grounded, hstage] at hground
          obtain ⟨request, hrequest, ⟨-, hnone⟩ | ⟨r, hmade, hresult, hpending⟩⟩ := hground
          · cases hnone
          have hnext : s.stageAfter (.auditWrite event : Op host) (.ok u) = .flushed result := by
            simp only [Attempt.stageAfter, hstage]
          rw [Grounded, Attempt.next_stage, hnext]
          rcases hpending with hpending | ⟨hnone, -⟩
          · refine ⟨request, Attempt.request_next hrequest _ _, r, later.made _ _ _ hmade,
              hresult, c, ?_⟩
            rw [hlog, ← Option.some.inj hpending]
            exact List.mem_cons_self
          · cases hnone

theorem grounded_completeAudit (htrailed : Trailed dep cfg) (hs : Executing dep cfg c p s)
    {handle : Handle} {answer : Except Thrown Unit}
    (allowed : s.allowed (.completeAudit handle : Op host)) (later : Later dep cfg cfg') :
    Grounded dep cfg' p (s.next (.completeAudit handle : Op host) answer) := by
  obtain ⟨request, record, hrequest, rfl, hstage⟩ := allowed
  cases answer with
  | error e => exact grounded_same htrailed hs later rfl
  | ok u =>
      have hground := htrailed.calls c p s hs
      have hnext : s.stageAfter (.completeAudit request.handle : Op host) (.ok u) =
          .released record := by
        simp only [Attempt.stageAfter, hstage]
      rw [Grounded, hstage] at hground
      rw [Grounded, Attempt.next_stage, hnext]
      exact later.written hground

theorem grounded_cachedCompleteAudit (htrailed : Trailed dep cfg) (hs : Executing dep cfg c p s)
    {handle : Handle} {answer : Except Thrown Unit}
    (allowed : s.allowed (.cachedCompleteAudit handle : Op host)) (later : Later dep cfg cfg') :
    Grounded dep cfg' p (s.next (.cachedCompleteAudit handle : Op host) answer) := by
  obtain ⟨request, result, hrequest, rfl, hstage⟩ := allowed
  cases answer with
  | error e => exact grounded_same htrailed hs later rfl
  | ok u =>
      have hground := htrailed.calls c p s hs
      have hnext : s.stageAfter (.cachedCompleteAudit request.handle : Op host) (.ok u) =
          .replaying result none := by
        simp only [Attempt.stageAfter, hstage]
      rw [Grounded, hstage] at hground
      rw [Grounded, Attempt.next_stage, hnext]
      obtain ⟨request', hrequest', r, hmade, hresult, hwritten⟩ := hground
      cases hrequest.symm.trans hrequest'
      exact ⟨request, Attempt.request_next hrequest _ _, .inr ⟨r, later.made _ _ _ hmade,
        hresult, .inr ⟨rfl, later.written hwritten⟩⟩⟩

theorem grounded_pendingResult (htrailed : Trailed dep cfg) {promised : Promised}
    {answer : Except Thrown Json}
    (performed : dep.perform p (.pendingResult promised) i cfg.world = some (answer, w))
    (later : Later dep cfg cfg') :
    Grounded dep cfg' p (s.next (.pendingResult promised : Op host) answer) := by
  cases answer with
  | error e => exact True.intro
  | ok result =>
      simp only [Deployment.perform, Deployment.pendingResult] at performed
      cases promised with
      | rejected error => cases performed
      | shared id =>
          obtain ⟨r, hr, hkept⟩ := Option.map_eq_some_iff.mp performed
          cases hkept
          exact later.releasable (htrailed.kept id result hr)

/-- What the acting call knows at its next stage. -/
theorem grounded_act (htrailed : Trailed dep cfg) (hs : Executing dep cfg c p s)
    (allowed : s.allowed op) (performed : dep.perform p op i cfg.world = some (a, w))
    (later : Later dep cfg cfg') (hlog : cfg'.log = .did c op a :: cfg.log) :
    Grounded dep cfg' p (s.next op a) := by
  cases op with
  | begin key intent => exact grounded_begin htrailed allowed performed later
  | auditWrite event =>
      cases hstage : s.stage with
      | recorded record completion => exact grounded_recorded hstage allowed hlog
      | replaying result pendingAudit =>
          exact grounded_replaying htrailed hs hstage allowed later hlog
      | _ =>
          apply grounded_same htrailed hs later
          cases a <;> simp only [Attempt.stageAfter, hstage]
  | completeAudit handle => exact grounded_completeAudit htrailed hs allowed later
  | cachedCompleteAudit handle => exact grounded_cachedCompleteAudit htrailed hs allowed later
  | pendingResult promised => exact grounded_pendingResult htrailed performed later
  | complete handle result pendingAudit => cases pendingAudit <;> exact True.intro
  | enterConnector | connectorResult | abort => exact True.intro
  | _ => exact grounded_same htrailed hs later rfl

end

theorem boot : Trailed dep (Machine.boot (World.empty host) : Config (signature host)) where
  filed p key f hf := by
    unfold Deployment.archive at hf
    split at hf
    · obtain ⟨waiting, hentry⟩ := hf
      cases hentry
    · obtain ⟨state, hempty | hread, hash, hentry⟩ := hf
      · cases hempty
      · cases hread
        cases hentry
  kept _ _ hr := by cases hr
  calls _ _ _ hs := by cases hs

/-- A move that leaves the stores alone and after which the calls stand where they stood. -/
theorem later_carried (hlog : ∀ event ∈ cfg.log, event ∈ cfg'.log)
    (hstate : ∀ c st, (dep.discipline host).state c cfg.log = some st →
      (dep.discipline host).state c cfg'.log = some st) : Later dep cfg cfg' where
  log := hlog
  made _ _ _ hmade := by
    obtain ⟨c, q, s, request, hs, hrest⟩ := hmade
    exact ⟨c, q, s, request, hstate c _ hs, hrest⟩

theorem carried (h : Trailed dep cfg) (later : Later dep cfg cfg')
    (harchive : ∀ q, dep.archive cfg'.world q = dep.archive cfg.world q)
    (hcalls : ∀ c p s, Executing dep cfg' c p s → s.stage = .before ∨ Executing dep cfg c p s) :
    Trailed dep cfg' where
  filed p key f hf := by
    rw [harchive] at hf
    exact later.accounted (h.filed p key f hf)
  kept id result hr := by
    rw [← @archive_kept _ dep cfg'.world 0, harchive, archive_kept] at hr
    exact later.releasable (h.kept id result hr)
  calls c p s hs := by
    rcases hcalls c p s hs with hbefore | hs
    · rw [Grounded, hbefore]
      exact True.intro
    · exact later.grounded rfl (fun _ hrequest => hrequest) (h.calls c p s hs)

theorem act (h : Trailed dep cfg) (hreach : (dep.system host).Reachable cfg) {c : Nat}
    {call : Call (signature host)} {st : CallState host} {op : Op host} {i : Input}
    {a : Ans host op} {w : World host} (live : cfg.calls c = some call)
    (state : (dep.discipline host).state c cfg.log = some st)
    (allowed : (dep.discipline host).allowed st op)
    (performed : dep.perform call.proc op i cfg.world = some (a, w)) (hworld : cfg'.world = w)
    (hlog : cfg'.log = .did c op a :: cfg.log) : Trailed dep cfg' := by
  have hproc := Scopes.proc_reachable hreach live state
  have later : Later dep cfg cfg' := later_act a state allowed hlog
  have hothers : ∀ {c' q s}, c' ≠ c → Executing dep cfg' c' q s → Executing dep cfg c' q s := by
    intro c' q s hc hs
    rwa [Executing, hlog, Discipline.state_did (Ne.symm hc)] at hs
  by_cases hexecutes : ∃ s, st = ⟨st.proc, .executing s⟩
  · obtain ⟨s, hst⟩ := hexecutes
    rw [hst, hproc] at state
    rw [hst] at allowed
    have hs' : Executing dep cfg' c call.proc (s.next op a) := by
      rw [Executing, hlog, Discipline.state_did_self state]
      rfl
    have hacts := accounted_act (Reserved.reachable hreach) h state allowed performed later hs'
    constructor
    · intro q key f hf
      rw [hworld] at hf
      by_cases hshares : dep.Shares call.proc q
      · rw [files_of_shares hshares] at hf
        exact accounted_shares hshares (hacts.1 key f hf)
      · rw [files_of_others hshares performed] at hf
        exact later.accounted (h.filed q key f hf)
    · intro id result hr
      rw [hworld, ← @archive_kept _ dep w call.proc] at hr
      exact hacts.2 id result hr
    · intro c' q s'' hs
      by_cases hc : c' = c
      · subst hc
        cases hs'.symm.trans hs
        exact grounded_act h state allowed performed later hlog
      · exact later.grounded rfl (fun _ hrequest => hrequest) (h.calls c' q s'' (hothers hc hs))
  · have hquiet := (executes_or_quiet allowed).resolve_left hexecutes
    have hframe := dep.perform_frame performed
    refine carried h later (fun q => ?_) fun c' q s hs => ?_
    · rw [hworld]
      exact archive_congr (hframe.entries hquiet q) (hframe.file hquiet) (hframe.promises hquiet)
    · by_cases hc : c' = c
      · subst hc
        rw [Executing, hlog] at hs
        obtain ⟨s', hst, -⟩ := executing_act state hs
        exact absurd ⟨s', by rw [hst]⟩ hexecutes
      · exact .inr (hothers hc hs)

/-- In every run what is on file, what promises were kept with and what the calls know
have their events pending or written. -/
theorem reachable (h : (dep.system host).Reachable cfg) : Trailed dep cfg := by
  refine Discipline.invariant (dep.followed host) ?_ ?_ h
  · rintro w rfl
    exact boot
  intro cfg cfg' hreach hsound hinv hmove
  cases hmove with
  | @start p entry rests enabled =>
      have haccounted := Discipline.accounted_reachable (dep.followed host) hreach
      refine carried hinv (later_carried (fun _ => List.mem_cons_of_mem _) fun c st hs => ?_)
        (fun _ => rfl) fun _ _ _ => calls_start
      obtain ⟨x, hentry⟩ := Discipline.entryOf_of_state hs
      have hc : cfg.next ≠ c := Nat.ne_of_gt (haccounted.below c x hentry)
      rw [Discipline.state_started hc]
      exact hs
  | act live program state allowed turn performed =>
      exact act hinv hreach live state allowed performed rfl rfl
  | finish | crash =>
      exact carried hinv (later_carried (fun _ => List.mem_cons_of_mem _) fun _ _ hs => hs)
        (fun _ => rfl) fun _ _ _ hs => .inr hs
  | outside rests acted =>
      exact carried hinv (later_carried (fun _ => List.mem_cons_of_mem _) fun _ _ hs => hs)
        (fun q => (act_archive acted q).1) fun _ _ _ hs => .inr hs

/-- A call of `execute` entered its connector, and makes this record of the answer. -/
structure Records (broker : ExecutionBroker) (log : History host) (c : Nat)
    (request : Request host) (r : Record) : Prop where
  entered : .did c (.enterConnector request.intent) () ∈ log
  answered : ∃ intent reply, .did c (.connectorResult intent) reply ∈ log ∧
    broker.recordOf request reply = .ok r

/-- What a call was told by its connector on the way to its stage. -/
structure Told (log : History host) (c : Nat) (s : Attempt) : Prop where
  entered : ∀ reply, s.stage = .entered reply → ∃ request : Request host,
    s.request host = some request ∧ .did c (.enterConnector request.intent) () ∈ log ∧
    ∀ answer, reply = some answer → ∃ intent, .did c (.connectorResult intent) answer ∈ log
  recorded : ∀ r, record? s.stage = some r → ∃ request : Request host,
    s.request host = some request ∧ Records s.broker log c request r

theorem Records.later {broker : ExecutionBroker} {log : History host} {c : Nat}
    {request : Request host} {r : Record} (h : Records broker log c request r)
    (event : Event (signature host)) : Records broker (event :: log) c request r := by
  obtain ⟨intent, reply, hmem, hrecord⟩ := h.answered
  exact ⟨List.mem_cons_of_mem _ h.entered, intent, reply, List.mem_cons_of_mem _ hmem, hrecord⟩

theorem Told.later {log : History host} {c : Nat} {s : Attempt} (h : Told log c s)
    (event : Event (signature host)) : Told (event :: log) c s where
  entered reply hs := by
    obtain ⟨request, hrequest, hentered, hanswered⟩ := h.entered reply hs
    refine ⟨request, hrequest, List.mem_cons_of_mem _ hentered, fun answer hanswer => ?_⟩
    obtain ⟨intent, hmem⟩ := hanswered answer hanswer
    exact ⟨intent, List.mem_cons_of_mem _ hmem⟩
  recorded r hr := by
    obtain ⟨request, hrequest, hrecords⟩ := h.recorded r hr
    exact ⟨request, hrequest, hrecords.later event⟩

/-- A call stands in its connector from its entry to the next thing that it records. -/
theorem entered_of_next {s : Attempt} {op : Op host} {a : Ans host op} {reply : Option Reply}
    (h : (s.next op a).stage = .entered reply) : s.stage = .entered reply ∨
      (∃ intent, op = .enterConnector intent) ∨ ∃ intent, op = .connectorResult intent := by
  cases op with
  | enterConnector intent => exact .inr (.inl ⟨intent, rfl⟩)
  | connectorResult intent => exact .inr (.inr ⟨intent, rfl⟩)
  | begin key intent =>
      cases a with
      | error e => cases h
      | ok reservation => cases reservation <;> cases h
  | complete handle result pendingAudit => cases pendingAudit <;> cases h
  | abort | pendingResult => cases h
  | auditWrite event =>
      simp only [Attempt.next_stage, Attempt.stageAfter] at h
      split at h
      · cases h
      · cases h
      · cases h
      · exact .inl h
  | completeAudit handle | cachedCompleteAudit handle =>
      cases a with
      | error e => exact .inl h
      | ok u =>
          simp only [Attempt.next_stage, Attempt.stageAfter] at h
          split at h
          · cases h
          · exact .inl h
  | _ => exact .inl h

/-- A call has its record from the moment at which it put it on file. -/
theorem record_of_next {s : Attempt} {op : Op host} {a : Ans host op} {r : Record}
    (h : record? (s.next op a).stage = some r) : record? s.stage = some r ∨
      ∃ handle, op = .complete handle r.result (some r.event) := by
  cases op with
  | complete handle result pendingAudit =>
      cases pendingAudit with
      | none => cases h
      | some event =>
          cases h
          exact .inr ⟨handle, rfl⟩
  | begin key intent =>
      cases a with
      | error e => cases h
      | ok reservation => cases reservation <;> cases h
  | enterConnector | connectorResult | abort | pendingResult => cases h
  | auditWrite event =>
      simp only [Attempt.next_stage, Attempt.stageAfter] at h
      split at h
      · next hs => exact .inl (hs ▸ h)
      · next hs => exact .inl (hs ▸ h)
      · cases h
      · exact .inl h
  | completeAudit handle =>
      cases a with
      | error e => exact .inl h
      | ok u =>
          simp only [Attempt.next_stage, Attempt.stageAfter] at h
          split at h
          · next hs => exact .inl (hs ▸ h)
          · exact .inl h
  | cachedCompleteAudit handle =>
      cases a with
      | error e => exact .inl h
      | ok u =>
          simp only [Attempt.next_stage, Attempt.stageAfter] at h
          split at h
          · cases h
          · exact .inl h
  | _ => exact .inl h

theorem Told.next {log : History host} {c : Nat} {s : Attempt} (h : Told log c s) {op : Op host}
    (allowed : s.allowed op) (a : Ans host op) : Told (.did c op a :: log) c (s.next op a) where
  entered reply hs := by
    rcases entered_of_next hs with hs | ⟨intent, rfl⟩ | ⟨intent, rfl⟩
    · obtain ⟨request, hrequest, hrest⟩ := (h.later (.did c op a)).entered reply hs
      exact ⟨request, Attempt.request_next hrequest op a, hrest⟩
    · obtain ⟨-, request, hrequest, rfl, -⟩ := allowed
      cases hs
      exact ⟨request, Attempt.request_next hrequest _ a, List.mem_cons_self,
        fun answer hanswer => by cases hanswer⟩
    · obtain ⟨request, hrequest, hentered, -⟩ := h.entered none allowed
      cases hs
      refine ⟨request, Attempt.request_next hrequest _ a, List.mem_cons_of_mem _ hentered,
        fun answer hanswer => ⟨intent, ?_⟩⟩
      rw [← Option.some.inj hanswer]
      exact List.mem_cons_self
  recorded r hr := by
    rcases record_of_next hr with hr | ⟨handle, rfl⟩
    · obtain ⟨request, hrequest, hrecords⟩ := (h.later (.did c op a)).recorded r hr
      exact ⟨request, Attempt.request_next hrequest op a, hrecords⟩
    · obtain ⟨request, hrequest, -, hstage⟩ := allowed
      cases hs : s.stage with
      | entered reply =>
          rw [hs] at hstage
          cases reply with
          | none => exact False.elim hstage
          | some reply =>
              obtain ⟨request', hrequest', hentered, hanswered⟩ := h.entered _ hs
              cases hrequest.symm.trans hrequest'
              obtain ⟨intent, hmem⟩ := hanswered reply rfl
              exact ⟨request, Attempt.request_next hrequest _ a,
                List.mem_cons_of_mem _ hentered, intent, reply, List.mem_cons_of_mem _ hmem, hstage⟩
      | _ =>
          rw [hs] at hstage
          exact False.elim hstage

theorem told_of_state {log : History host} (hkept : (dep.discipline host).Kept log) {c p : Nat}
    {s : Attempt} (hs : (dep.discipline host).state c log = some ⟨p, .executing s⟩) :
    Told log c s := by
  refine hkept.evidence (P := fun c (st : CallState host) log =>
    ∀ s, st.progress = .executing s → Told log c s) ?_ ?_ ?_ hs s rfl
  · intro c p e log s hstart
    cases e with
    | execute approval authorization =>
        cases hstart
        exact ⟨(fun _ h => by cases h), (fun _ h => by cases h)⟩
    | dryRun | evaluate | callback => cases hstart
  · intro c st event log ih s hs
    exact (ih s hs).later event
  · rintro c ⟨p, progress⟩ op a log ih hallowed s hnext
    cases progress with
    | executing s' =>
        cases hnext
        exact (ih s' rfl).next hallowed a
    | rehearsing | appraising | checking => cases hnext

end Release

open OnFile Release

/-- The execution that a result comes from: its call entered the connector, and the result
and its audit event are what it recorded of the answer. -/
structure ComesFrom (dep : Deployment) (log : History host) (c : Nat) (r : Record) : Prop where
  execution : ∃ p approval authorization, ∃ request : Request host,
    entryOf c log = some (p, .execute approval authorization) ∧
    request.approval = approval ∧ request.dryRunAuthorization = authorization ∧
    TradingIntent.safeParse host (approval.field? "intent") = some request.intent ∧
    Records (dep.broker p) log c request r

namespace Release

theorem comesFrom_of_made (h : (dep.system host).Reachable cfg) {p : Nat} {handle : Handle}
    {r : Record} (hmade : Made dep cfg p handle r) : ∃ c, ComesFrom dep cfg.log c r := by
  obtain ⟨c, q, s, request, hs, -, hrequest, -, hrecord⟩ := hmade
  have hkept := (Discipline.sound_reachable (dep.followed host) h).kept
  obtain ⟨entry, hentry, hserves⟩ := Deployment.serves_of_state hkept hs
  obtain ⟨request', hrequest', hrecords⟩ := (told_of_state hkept hs).recorded r hrecord
  cases hrequest.symm.trans hrequest'
  cases entry with
  | execute approval authorization =>
      obtain ⟨hbroker, rfl, rfl⟩ := hserves
      rw [hbroker] at hrecords
      unfold Attempt.request at hrequest
      split at hrequest
      · next startedAt intent _ hparsed =>
          cases hrequest
          exact ⟨c, ⟨q, _, _, _, hentry, rfl, rfl, hparsed, hrecords⟩⟩
      · cases hrequest
  | dryRun | evaluate | callback => exact False.elim hserves

end Release

/-- No call returns a result of an execution before its audit event was written. -/
theorem audited_before_release (h : (dep.system host).Reachable cfg) {newer older : History host}
    {c : Nat} {result : Json}
    (hlog : cfg.log = newer ++ .returned c (.executed (.ok result)) :: older) :
    Rejected result ∨ ∃ origin r, ComesFrom dep older origin r ∧ result = r.result ∧
      Written older r.event := by
  obtain ⟨moment, step, steps, hmoment, rfl, -, -⟩ := h.past hlog
  have hkept := (Discipline.sound_reachable (dep.followed host) h).kept
  rw [hlog] at hkept
  obtain ⟨⟨p, progress⟩, hs, hfinal⟩ := Discipline.kept_returned hkept
  have hreleasable : ∀ result, Releasable dep moment result → Rejected result ∨ ∃ origin r,
      ComesFrom dep moment.log origin r ∧ result = r.result ∧ Written moment.log r.event := by
    rintro result (hrejected | ⟨q, handle, r, hmade, hresult, hwritten⟩)
    · exact .inl hrejected
    · obtain ⟨origin, horigin⟩ := comesFrom_of_made hmoment hmade
      exact .inr ⟨origin, r, horigin, hresult, hwritten⟩
  apply hreleasable
  cases progress with
  | rehearsing | appraising | checking => exact False.elim hfinal
  | executing s =>
      have hground := (Release.reachable hmoment).calls c p s hs
      unfold Grounded at hground
      change s.final (.ok result) at hfinal
      cases hstage : s.stage with
      | before | refused | closed =>
          simp only [Attempt.final, hstage] at hfinal
          exact .inl hfinal
      | released record =>
          rw [hstage] at hground
          simp only [Attempt.final, hstage] at hfinal
          subst hfinal
          have hkept' := (Discipline.sound_reachable (dep.followed host) hmoment).kept
          obtain ⟨request, hrequest, -⟩ := (told_of_state hkept' hs).recorded record
            (by rw [hstage]; rfl)
          exact .inr ⟨p, request.handle, record,
            ⟨c, p, s, request, hs, .inr rfl, hrequest, rfl, by rw [hstage]; rfl⟩, rfl, hground⟩
      | replaying recorded pendingAudit =>
          rw [hstage] at hground
          cases pendingAudit with
          | some pending =>
              simp only [Attempt.final, hstage] at hfinal
          | none =>
              simp only [Attempt.final, hstage] at hfinal
              subst hfinal
              obtain ⟨request, -, ⟨hrejected, -⟩ | ⟨r, hmade, hresult, hpending⟩⟩ := hground
              · exact .inl hrejected
              · rcases hpending with hpending | ⟨-, hwritten⟩
                · cases hpending
                · exact .inr ⟨p, _, r, hmade, hresult, hwritten⟩
      | answered answer =>
          rw [hstage] at hground
          simp only [Attempt.final, hstage] at hfinal
          subst hfinal
          exact hground
      | _ => simp only [Attempt.final, hstage] at hfinal

def reopenedRun : List (Step (signature digestHost)) :=
  unclosedRun ++
    .start 1 simulationExecution :: (List.replicate 5 (.run 1 Input.quiet) ++ [.finish 1])

def returnsStatus (status : String) : Event (signature host) → Bool
  | .returned _ (.executed (.ok result)) => result.field? "status" == some (.str status)
  | _ => false

theorem audited_before_release_reopened :
    ∃ newer older c result, (digestRun reopenedRun).log =
        newer ++ .returned c (.executed (.ok result)) :: older ∧
      ∃ origin r, ComesFrom paperDeployment older origin r ∧ result = r.result ∧
        Written older r.event := by
  have hrun : (digestRun reopenedRun).log.any (returnsStatus "failed") = true := by decide +kernel
  obtain ⟨event, hmem, hreturns⟩ := List.any_eq_true.mp hrun
  unfold returnsStatus at hreturns
  split at hreturns
  · next c result =>
      obtain ⟨newer, older, hlog⟩ := List.append_of_mem hmem
      refine ⟨newer, older, c, result, hlog, ?_⟩
      rcases audited_before_release (digestRun_reachable _) hlog with hrejected | hexecuted
      · rw [Rejected, beq_iff_eq.mp hreturns, Option.some.injEq, Json.str.injEq] at hrejected
        exact absurd hrejected (by decide)
      · exact hexecuted
  · cases hreturns

/-- A result on file is a rejection, or that of an execution whose event is pending or was
written. -/
def Settled (dep : Deployment) (log : History host) (f : Filed) : Prop :=
  Rejected f.result ∧ f.pendingAudit = none ∨ ∃ origin r, ComesFrom dep log origin r ∧
    f.result = r.result ∧
    (f.pendingAudit = some r.event ∨ f.pendingAudit = none ∧ Written log r.event)

/-- A result stands under its key: it is on file, its key cannot be reserved, and it is the
answer to its payload. -/
structure Stands (dep : Deployment) (cfg : Config (signature host)) (p : Nat) (key : String)
    (f : Filed) : Prop where
  filed : ∃ pendingAudit, (dep.archive cfg.world p).files key { f with pendingAudit } ∧
    (pendingAudit = f.pendingAudit ∨ pendingAudit = none) ∧
    Settled dep cfg.log { f with pendingAudit }
  begins : ∀ q key' intent i answer w, dep.Shares p q →
    (handleFor host key' intent).scopedKey = key →
    dep.perform q (.begin key' intent : Op host) i cfg.world = some (answer, w) →
    answer ≠ .ok .reserved ∧ ∀ result pendingAudit, answer = .ok (.cached result pendingAudit) →
      (handleFor host key' intent).payloadHash = f.payloadHash ∧ result = f.result

/-- A recorded result stands for the rest of the run. -/
theorem results_stand (h : (dep.system host).Reachable cfg) {p : Nat} {key : String} {f : Filed}
    (hfiled : (dep.archive cfg.world p).files key f) (steps : List (Step (signature host))) :
    Stands dep ((dep.system host).exec cfg steps) p key f := by
  obtain ⟨pendingAudit, hstays, hpending⟩ := OnFile.stays_exec h hfiled steps
  have hlater := (dep.system host).reachable_exec h steps
  refine ⟨⟨pendingAudit, hstays, hpending, ?_⟩, ?_⟩
  · rcases (Release.reachable hlater).filed p key _ hstays with hrejected | ⟨r, hmade, hrest⟩
    · exact .inl hrejected
    · obtain ⟨origin, horigin⟩ := comesFrom_of_made hlater hmade
      exact .inr ⟨origin, r, horigin, hrest⟩
  · rintro q key' intent i answer w hshares rfl hperformed
    have heffect := perform_archive hperformed
    rw [← files_of_shares hshares] at hstays
    refine ⟨fun hreserved => heffect.2.2 hreserved _ hstays, fun result pending hcached => ?_⟩
    obtain ⟨hhash, hresult⟩ := files_unique (heffect.2.1 result pending hcached) hstays
    exact ⟨hhash, hresult⟩

def filed? (host : Host) (file : Option Json) (key : String) : Option Filed :=
  match readState host file with
  | .error _ => none
  | .ok state => match state.lookup key with
    | some (.cached payloadHash result pendingAudit _) => some ⟨payloadHash, result, pendingAudit⟩
    | _ => none

theorem Release.files_of_filed? (hstore : dep.store = .file) {w : World host} {p : Nat}
    {key : String} {f : Filed} (h : filed? host w.file key = some f) :
    (dep.archive w p).files key f := by
  unfold filed? at h
  split at h
  · cases h
  · next state hread =>
      split at h
      · next payloadHash result pendingAudit hash hlookup =>
          cases h
          simp only [Deployment.archive, hstore]
          exact ⟨state, .inr hread, hash, hlookup⟩
      · cases h

theorem results_stand_unclosed :
    ∃ f event, f.pendingAudit = some event ∧
      Stands paperDeployment (digestRun reopenedRun) 0
        (handleFor digestHost "k" simulationIntentOf).scopedKey f := by
  have hrun : ((filed? digestHost (digestRun unclosedRun).world.file
      (handleFor digestHost "k" simulationIntentOf).scopedKey).bind Filed.pendingAudit).isSome =
        true := by decide +kernel
  obtain ⟨event, hevent⟩ := Option.isSome_iff_exists.mp hrun
  obtain ⟨f, hf, hpending⟩ := Option.bind_eq_some_iff.mp hevent
  have hfiled := @Release.files_of_filed? _ paperDeployment rfl _ 0 _ _ hf
  refine ⟨f, event, hpending, ?_⟩
  rw [digestRun, reopenedRun, Machine.exec, List.foldl_append]
  exact results_stand (digestRun_reachable unclosedRun) hfiled _

end TradingGuardrails
