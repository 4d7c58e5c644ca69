import TradingGuardrails.System.Recovery

/-!
One submission for a key. In every run the calls that have reserved a key, and have not
given it up, are at most one; a key that is given up after the connector was entered is
given up because the connector threw a value that has no text. So no key is submitted
twice, and while a reservation stands no other call submits under its key.
-/
namespace TradingGuardrails

open Text Interleaving

variable {host : Host} {dep : Deployment}

namespace Deployment

def slots (dep : Deployment) (w : World host) (p : Nat) : Slots :=
  match dep.store with
  | .memory => (w.memoryStore p).slots
  | .file => (w.fileStore p).slots

def Shares (dep : Deployment) (p q : Nat) : Prop :=
  dep.store = .file ∨ p = q

theorem taken_of_shares {p q : Nat} (h : dep.Shares p q) {w : World host} {key : String}
    (htaken : (dep.slots w p).taken key) : (dep.slots w q).taken key := by
  rcases h with hstore | rfl
  · simp only [slots, hstore] at htaken ⊢
    exact htaken
  · exact htaken

end Deployment

namespace Submission

def gives : (op : Op host) → Ans host op → Option Handle
  | .begin key intent, .ok .reserved => some (handleFor host key intent)
  | _, _ => none

def Effect (s s' : Slots) : (op : Op host) → Ans host op → Prop
  | .begin key intent, .ok .reserved => s.Reserves (handleFor host key intent) s'
  | .complete handle _ none, _ => s.Keeps s' ∧ ¬s'.holds handle
  | .abort handle _, _ => s.Frees handle s'
  | _, _ => s.Keeps s'

theorem Effect.cases {s s' : Slots} {op : Op host} {a : Ans host op} (h : Effect s s' op a) :
    (∃ handle, gives op a = some handle ∧ s.Reserves handle s') ∨
      (∃ handle error, op = .abort handle error ∧ s.Frees handle s') ∨
      s.Keeps s' ∧ gives op a = none := by
  cases op with
  | begin key intent =>
      cases a with
      | error e => exact .inr (.inr ⟨h, rfl⟩)
      | ok reservation =>
          cases reservation with
          | reserved => exact .inl ⟨_, rfl, h⟩
          | cached | pending => exact .inr (.inr ⟨h, rfl⟩)
  | complete handle result pendingAudit =>
      cases pendingAudit with
      | none => exact .inr (.inr ⟨h.1, rfl⟩)
      | some event => exact .inr (.inr ⟨h, rfl⟩)
  | abort handle error => exact .inr (.inl ⟨handle, error, rfl, h⟩)
  | _ => exact .inr (.inr ⟨h, rfl⟩)

theorem effect_begin {s s' : Slots} {key : String} {intent : TradingIntent host}
    {answer : Except Thrown Reservation}
    (h : answer ≠ .ok .reserved ∧ s.Keeps s' ∨
      answer = .ok .reserved ∧ s.Reserves (handleFor host key intent) s') :
    Effect s s' (.begin key intent) answer := by
  rcases h with ⟨hnot, hkeeps⟩ | ⟨rfl, hreserves⟩
  · cases answer with
    | error e => exact hkeeps
    | ok reservation =>
        cases reservation with
        | reserved => exact absurd rfl hnot
        | cached | pending => exact hkeeps
  · exact hreserves

theorem effect_complete {s s' : Slots} {handle : Handle} {result : Json}
    {pendingAudit : Option Json} {answer : Except Thrown Unit}
    (h : s.Keeps s' ∧ (pendingAudit = none → ¬s'.holds handle)) :
    Effect s s' (.complete handle result pendingAudit : Op host) answer := by
  cases pendingAudit with
  | none => exact ⟨h.1, h.2 rfl⟩
  | some event => exact h.1

/-- An operation on the store replaces the store of its process. -/
theorem perform_memory (hstore : dep.store = .memory) {p : Nat} {op : Op host} {i : Input}
    {w w' : World host} {a : Ans host op} (h : dep.perform p op i w = some (a, w'))
    (hop : Deployment.touches op = .store) :
    ∃ store, w' = w.setMemoryStore p store ∧ Effect (w.memoryStore p).slots store.slots op a := by
  cases op with
  | begin key intent =>
      simp only [Deployment.perform, Deployment.begin, hstore, Option.some.injEq] at h
      cases h
      exact ⟨_, rfl, effect_begin (MemoryStore.begin_slots (MemoryStore.begin_cases ..))⟩
  | complete handle result pendingAudit =>
      simp only [Deployment.perform, Deployment.complete, hstore, Option.some.injEq] at h
      cases h
      have hslots := (w.memoryStore p).complete_slots handle result pendingAudit
      exact ⟨_, rfl, effect_complete ⟨hslots.1, fun _ => hslots.2⟩⟩
  | completeAudit handle =>
      simp only [Deployment.perform, Deployment.completeAudit, hstore, Option.some.injEq] at h
      cases h
      exact ⟨_, rfl, (w.memoryStore p).completeAudit_slots handle⟩
  | failAudit handle error =>
      simp only [Deployment.perform, Deployment.failAudit, hstore, Option.some.injEq] at h
      cases h
      exact ⟨_, rfl, (w.memoryStore p).failAudit_slots handle error⟩
  | abort handle error =>
      simp only [Deployment.perform, Deployment.abort, hstore, Option.some.injEq] at h
      cases h
      exact ⟨_, rfl, (w.memoryStore p).abort_slots handle error⟩
  | cachedCompleteAudit handle =>
      simp only [Deployment.perform, Deployment.cachedCompleteAudit, hstore,
        Option.some.injEq] at h
      cases h
      exact ⟨_, rfl, (w.memoryStore p).completeAudit_slots handle⟩
  | _ => cases hop

theorem perform_file (hstore : dep.store = .file) {p : Nat} {op : Op host} {i : Input}
    {w w' : World host} {a : Ans host op} (h : dep.perform p op i w = some (a, w'))
    (hop : Deployment.touches op = .store) :
    ∃ store, w' = w.setFileStore p store ∧ Effect (w.fileStore p).slots store.slots op a := by
  cases op with
  | begin key intent =>
      simp only [Deployment.perform, Deployment.begin, hstore, Option.some.injEq] at h
      cases h
      exact ⟨_, rfl, effect_begin (FileStore.begin_slots (FileStore.begin_cases _ i.io key intent))⟩
  | complete handle result pendingAudit =>
      simp only [Deployment.perform, Deployment.complete, hstore, Option.some.injEq] at h
      cases h
      exact ⟨_, rfl, effect_complete (FileStore.complete_slots ..)⟩
  | completeAudit handle =>
      simp only [Deployment.perform, Deployment.completeAudit, hstore, Option.some.injEq] at h
      cases h
      exact ⟨_, rfl, (w.fileStore p).completeAudit_slots i.io handle⟩
  | failAudit handle error =>
      simp only [Deployment.perform, Deployment.failAudit, hstore, Option.some.injEq] at h
      cases h
      exact ⟨_, rfl, (w.fileStore p).failAudit_slots handle error⟩
  | abort handle error =>
      simp only [Deployment.perform, Deployment.abort, hstore, Option.some.injEq] at h
      cases h
      exact ⟨_, rfl, (w.fileStore p).abort_slots i.io handle error⟩
  | cachedCompleteAudit handle =>
      simp only [Deployment.perform, Deployment.cachedCompleteAudit, hstore,
        Option.some.injEq] at h
      cases h
      exact ⟨_, rfl, (w.fileStore p).cachedCompleteAudit_slots i.io handle⟩
  | _ => cases hop

theorem memoryStore_setMemoryStore (w : World host) (p : Nat) (store : MemoryStore) :
    (w.setMemoryStore p store).memoryStore p = store := by
  unfold World.memoryStore World.setMemoryStore
  rw [World.update_self]
  rfl

/-- The slots of a process depend on what it remembers and on the file. -/
theorem slots_congr {w w' : World host} {q : Nat}
    (hentries : (w'.processes q).entries = (w.processes q).entries)
    (hpending : (w'.processes q).pending = (w.processes q).pending) (hfile : w'.file = w.file) :
    dep.slots w' q = dep.slots w q := by
  cases hstore : dep.store with
  | memory => simp only [Deployment.slots, hstore, MemoryStore.slots, World.memoryStore, hentries]
  | file =>
      simp only [Deployment.slots, hstore, FileStore.slots, World.fileStore, FileLocal.held, hfile,
        hpending]

theorem perform_slots {p : Nat} {op : Op host} {i : Input} {w w' : World host} {a : Ans host op}
    (h : dep.perform p op i w = some (a, w')) :
    Effect (dep.slots w p) (dep.slots w' p) op a := by
  by_cases hop : Deployment.touches op = .store
  · cases hstore : dep.store with
    | memory =>
        obtain ⟨store, rfl, heffect⟩ := perform_memory hstore h hop
        simpa only [Deployment.slots, hstore, memoryStore_setMemoryStore] using heffect
    | file =>
        obtain ⟨store, rfl, heffect⟩ := perform_file hstore h hop
        simpa only [Deployment.slots, hstore, Recovery.fileStore_setFileStore] using heffect
  · have hframe := dep.perform_frame h
    rw [slots_congr (hframe.entries hop p) (hframe.pending hop p) (hframe.file hop)]
    cases op with
    | begin | complete | completeAudit | failAudit | abort | cachedCompleteAudit =>
        exact absurd rfl hop
    | _ => exact .refl _

/-- What the operations of one process leave to another. -/
theorem perform_others {p q : Nat} (hq : q ≠ p) {op : Op host} {i : Input} {w w' : World host}
    {a : Ans host op} (h : dep.perform p op i w = some (a, w')) :
    (dep.store = .memory → dep.slots w' q = dep.slots w q) ∧
      ((dep.slots w' q).holds = (dep.slots w q).holds) := by
  by_cases hop : Deployment.touches op = .store
  · cases hstore : dep.store with
    | memory =>
        obtain ⟨store, rfl, _⟩ := perform_memory hstore h hop
        have hlocal : (w.setMemoryStore p store).processes q = w.processes q :=
          World.update_of_ne _ hq _
        have hslots : dep.slots (w.setMemoryStore p store) q = dep.slots w q := by
          simp only [Deployment.slots, hstore, MemoryStore.slots, World.memoryStore, hlocal]
        exact ⟨fun _ => hslots, congrArg Slots.holds hslots⟩
    | file =>
        obtain ⟨store, rfl, _⟩ := perform_file hstore h hop
        have hlocal : (w.setFileStore p store).processes q = w.processes q :=
          World.update_of_ne _ hq _
        refine ⟨(fun hmemory => by cases hmemory), ?_⟩
        simp only [Deployment.slots, hstore, FileStore.slots, World.fileStore, FileLocal.held,
          hlocal]
  · have hframe := dep.perform_frame h
    have hslots : dep.slots w' q = dep.slots w q :=
      slots_congr (hframe.entries hop q) (hframe.pending hop q) (hframe.file hop)
    exact ⟨fun _ => hslots, congrArg Slots.holds hslots⟩

theorem act_slots {x : Outside} {w w' : World host} (h : x.act w = some w') (q : Nat) :
    dep.slots w' q = dep.slots w q := by
  cases x with
  | createApproval params approvalId now timeout =>
      simp only [Outside.act] at h
      split_ifs at h
      cases h
      rfl
  | activate p scope | deactivate p scope =>
      cases h
      by_cases hq : q = p
      · subst hq
        refine slots_congr ?_ ?_ rfl <;> rw [World.update_self]
      · refine slots_congr ?_ ?_ rfl <;> rw [World.update_of_ne w hq]
  | _ =>
      cases h
      rfl

def owns : Stage → Bool
  | .reserved | .closed false | .entered _ | .recorded _ _ | .audited _ _ | .unaudited _ _
  | .released _ => true
  | _ => false

section

variable {s : Attempt} {op : Op host}

/-- A call comes to own a key by reserving it, and does not free a key that it owns on. -/
theorem owns_next {a : Ans host op} (hallowed : s.allowed op)
    (h : owns (s.next op a).stage = true) :
    (owns s.stage = true ∧ gives op a = none ∧ ∀ handle error, op ≠ .abort handle error) ∨
      ∃ request : Request host, s.request host = some request ∧
        gives op a = some request.handle := by
  cases op with
  | begin key intent =>
      obtain ⟨-, request, hrequest, rfl, rfl, -⟩ := hallowed
      cases a with
      | error e => cases h
      | ok reservation =>
          cases reservation with
          | reserved => exact .inr ⟨request, hrequest, rfl⟩
          | cached | pending => cases h
  | abort handle error => cases h
  | pendingResult promised => cases h
  | enterConnector intent => exact .inl ⟨by rw [hallowed.1]; rfl, rfl, fun _ _ => by simp⟩
  | connectorResult intent =>
      exact .inl ⟨by rw [show s.stage = .entered none from hallowed]; rfl, rfl, fun _ _ => by simp⟩
  | complete handle result pendingAudit =>
      obtain ⟨_, _, _, hstage⟩ := hallowed
      refine .inl ⟨?_, rfl, fun _ _ => by simp⟩
      cases hs : s.stage <;> simp only [hs] at hstage <;> rfl
  | auditWrite event =>
      refine .inl ⟨?_, rfl, fun _ _ => by simp⟩
      simp only [Attempt.next_stage, Attempt.stageAfter] at h
      split at h
      · next hs => rw [hs]; rfl
      · next hs => rw [hs]; rfl
      · cases h
      · exact h
  | completeAudit handle =>
      have hs : s.stage = _ := hallowed.choose_spec.choose_spec.2.2
      exact .inl ⟨by rw [hs]; rfl, rfl, fun _ _ => by simp⟩
  | cachedCompleteAudit handle =>
      obtain ⟨_, _, _, _, hs⟩ := hallowed
      cases a with
      | error e =>
          rw [Attempt.next_stage, show s.stageAfter (.cachedCompleteAudit handle : Op host)
            (.error e) = s.stage from rfl, hs] at h
          cases h
      | ok u =>
          simp only [Attempt.next_stage, Attempt.stageAfter, hs] at h
          cases h
  | _ => exact .inl ⟨h, rfl, fun _ _ => by simp⟩

theorem allowed_closed {freed : Bool} (hs : s.stage = .closed freed) (hallowed : s.allowed op) :
    ∃ (request : Request host) (error : Thrown), s.request host = some request ∧
      op = .abort request.handle error := by
  cases op with
  | abort handle error =>
      obtain ⟨request, hrequest, rfl, -⟩ := hallowed
      exact ⟨request, error, hrequest, rfl⟩
  | complete handle result pendingAudit =>
      obtain ⟨_, _, _, hstage⟩ := hallowed
      simp only [hs] at hstage
  | _ => simp [Attempt.allowed, hs] at hallowed

theorem allowed_abort {handle : Handle} {error : Thrown}
    (hallowed : s.allowed (.abort handle error : Op host)) :
    ∃ request : Request host, s.request host = some request ∧ handle = request.handle ∧
      (owns s.stage = true ∨ s.stage = .closed true) := by
  obtain ⟨request, hrequest, rfl, hstage⟩ := hallowed
  refine ⟨request, hrequest, rfl, ?_⟩
  cases hs : s.stage with
  | closed freed =>
      cases freed with
      | false => exact .inl rfl
      | true => exact .inr rfl
  | reserved | entered => exact .inl rfl
  | _ => simp only [hs] at hstage

/-- A call closes its key by giving it up or by recording a rejection. -/
theorem closed_next {a : Ans host op} {freed : Bool} (hallowed : s.allowed op)
    (h : (s.next op a).stage = .closed freed) :
    ∃ request : Request host, s.request host = some request ∧
      ((∃ error, op = .abort request.handle error) ∨
        ∃ result, op = .complete request.handle result none) := by
  by_cases hs : s.stage = .closed freed
  · obtain ⟨request, error, hrequest, rfl⟩ := allowed_closed hs hallowed
    exact ⟨request, hrequest, .inl ⟨error, rfl⟩⟩
  cases op with
  | abort handle error =>
      obtain ⟨request, hrequest, rfl, -⟩ := hallowed
      exact ⟨request, hrequest, .inl ⟨error, rfl⟩⟩
  | complete handle result pendingAudit =>
      obtain ⟨request, hrequest, rfl, -⟩ := hallowed
      cases pendingAudit with
      | none => exact ⟨request, hrequest, .inr ⟨result, rfl⟩⟩
      | some event => cases h
  | begin key intent =>
      cases a with
      | error e => cases h
      | ok reservation => cases reservation <;> cases h
  | auditWrite event =>
      simp only [Attempt.next_stage, Attempt.stageAfter] at h
      split at h <;> first | cases h | exact absurd h hs
  | completeAudit handle =>
      cases a with
      | error e => exact absurd h hs
      | ok u =>
          simp only [Attempt.next_stage, Attempt.stageAfter] at h
          split at h <;> first | cases h | exact absurd h hs
  | cachedCompleteAudit handle =>
      cases a with
      | error e => exact absurd h hs
      | ok u =>
          simp only [Attempt.next_stage, Attempt.stageAfter] at h
          split at h <;> first | cases h | exact absurd h hs
  | enterConnector | connectorResult | pendingResult => cases h
  | _ => exact absurd h hs

end

abbrev Executing (dep : Deployment) (cfg : Config (signature host)) (c p : Nat) (s : Attempt) :
    Prop :=
  (dep.discipline host).state c cfg.log = some ⟨p, .executing s⟩

structure Reserved (dep : Deployment) (cfg : Config (signature host)) : Prop where
  taken : ∀ c p s, Executing dep cfg c p s → owns s.stage = true →
    ∃ request : Request host, s.request host = some request ∧
      (dep.slots cfg.world p).taken request.handle.scopedKey
  alone : ∀ c c' p p' s s' (request request' : Request host), Executing dep cfg c p s →
    Executing dep cfg c' p' s' → dep.Shares p p' → s.request host = some request →
    s'.request host = some request' → request.handle.scopedKey = request'.handle.scopedKey →
    owns s.stage = true → owns s'.stage = true → c = c'
  closed : ∀ c call p s freed, cfg.calls c = some call → Executing dep cfg c p s →
    s.stage = .closed freed → cfg.current p = some c ∧
      ∀ request : Request host, s.request host = some request →
        ¬(dep.slots cfg.world p).holds request.handle

/-- Only the calls of `execute` change what is reserved. -/
theorem executes_or_quiet {st : CallState host} {op : Op host}
    (allowed : (dep.discipline host).allowed st op) :
    (∃ s, st = ⟨st.proc, .executing s⟩) ∨ Deployment.touches op ≠ .store := by
  obtain ⟨proc, progress⟩ := st
  cases progress with
  | executing s => exact .inl ⟨s, rfl⟩
  | appraising | rehearsing | checking =>
      refine .inr fun htouches => ?_
      cases op with
      | begin | complete | completeAudit | failAudit | abort | cachedCompleteAudit => exact allowed
      | _ => cases htouches

theorem executing_act {log : History host} {c p : Nat} {op : Op host} {a : Ans host op}
    {st : CallState host} {s : Attempt} (state : (dep.discipline host).state c log = some st)
    (hs : (dep.discipline host).state c (.did c op a :: log) = some ⟨p, .executing s⟩) :
    ∃ s', st = ⟨p, .executing s'⟩ ∧ s = s'.next op a := by
  rw [Discipline.state_did_self state, Option.some.injEq, CallState.mk.injEq] at hs
  obtain ⟨proc, progress⟩ := st
  obtain ⟨rfl, hprogress⟩ := hs
  cases progress with
  | executing s' =>
      cases hprogress
      exact ⟨s', rfl, rfl⟩
  | appraising | rehearsing | checking => cases hprogress

/-- Where a call of `execute` stands after an operation. -/
theorem executing_cases {log : History host} {c c' p : Nat} {op : Op host} {a : Ans host op}
    {st : CallState host} {s : Attempt} (state : (dep.discipline host).state c log = some st)
    (hs : (dep.discipline host).state c' (.did c op a :: log) = some ⟨p, .executing s⟩) :
    (c' = c ∧ ∃ s', st = ⟨p, .executing s'⟩ ∧ s = s'.next op a) ∨
      (c' ≠ c ∧ (dep.discipline host).state c' log = some ⟨p, .executing s⟩) := by
  by_cases hc : c' = c
  · subst hc
    exact .inl ⟨rfl, executing_act state hs⟩
  · rw [Discipline.state_did (Ne.symm hc)] at hs
    exact .inr ⟨hc, hs⟩

namespace Reserved

variable {cfg : Config (signature host)}

theorem boot : Reserved dep (Machine.boot (World.empty host) : Config (signature host)) where
  taken _ _ _ hs := by cases hs
  alone _ _ _ _ _ _ _ _ hs := by cases hs
  closed _ _ _ _ _ hcall := by cases hcall

/-- No call of a process that rests stands after it closed its key. -/
theorem not_closed_of_rests (h : Reserved dep cfg) {p : Nat}
    (rests : (dep.discipline host).Rests (dep.system host) cfg p) {c : Nat}
    {call : Call (signature host)} (hcall : cfg.calls c = some call) {s : Attempt}
    (hs : Executing dep cfg c p s) (freed : Bool) : s.stage ≠ .closed freed := by
  intro hclosed
  obtain ⟨hcurrent, -⟩ := h.closed c call p s freed hcall hs hclosed
  obtain ⟨call', st, op, next, -, -, hwaits, hst, hallowed⟩ := rests c hcurrent
  cases hs.symm.trans hst
  obtain ⟨request, error, -, rfl⟩ := allowed_closed hclosed hallowed
  cases hwaits

/-- A key that another call owns stays taken. -/
theorem taken_act (h : Reserved dep cfg) {c : Nat} {call : Call (signature host)} {s : Attempt}
    {op : Op host} {i : Input} {a : Ans host op} {w : World host}
    (live : cfg.calls c = some call) (state : Executing dep cfg c call.proc s)
    (allowed : s.allowed op) (performed : dep.perform call.proc op i cfg.world = some (a, w))
    {c' p' : Nat} {s' : Attempt} (hc : c' ≠ c) (hs' : Executing dep cfg c' p' s')
    (howns : owns s'.stage = true) {request : Request host}
    (hrequest : s'.request host = some request)
    (htaken : (dep.slots cfg.world p').taken request.handle.scopedKey) :
    (dep.slots w p').taken request.handle.scopedKey := by
  by_cases hshares : dep.Shares call.proc p'
  · have hback : dep.Shares p' call.proc := hshares.imp_right Eq.symm
    refine Deployment.taken_of_shares hshares ?_
    have htaken := Deployment.taken_of_shares hback htaken
    rcases (perform_slots performed).cases with ⟨handle, -, hreserves⟩ |
      ⟨handle, error, rfl, hfrees⟩ | ⟨hkeeps, -⟩
    · exact hreserves.taken _ htaken
    · rcases hfrees.taken _ htaken with hstays | ⟨hkey, hholds⟩
      · exact hstays
      · obtain ⟨request', hrequest', rfl, hown | hclosed⟩ := allowed_abort allowed
        · exact absurd (h.alone c' c p' call.proc s' s request request' hs' state hback hrequest
            hrequest' hkey howns hown) hc
        · exact absurd hholds ((h.closed c call _ s true live state hclosed).2 request' hrequest')
    · exact hkeeps.taken _ htaken
  · rw [Deployment.Shares, not_or] at hshares
    have hmemory : dep.store = .memory := by
      cases hstore : dep.store with
      | memory => rfl
      | file => exact absurd hstore hshares.1
    rw [(perform_others (Ne.symm hshares.2) performed).1 hmemory]
    exact htaken

/-- A key that another call owns is not given away. -/
theorem not_given (h : Reserved dep cfg) {p : Nat} {op : Op host} {i : Input} {a : Ans host op}
    {w : World host} (performed : dep.perform p op i cfg.world = some (a, w)) {handle : Handle}
    (hgives : gives op a = some handle) {c' p' : Nat} {s' : Attempt} (hshares : dep.Shares p' p)
    (hs' : Executing dep cfg c' p' s') {request : Request host}
    (hrequest : s'.request host = some request)
    (hkey : request.handle.scopedKey = handle.scopedKey) : owns s'.stage = false := by
  rw [Bool.eq_false_iff]
  intro howns
  obtain ⟨request', hrequest', htaken⟩ := h.taken c' p' s' hs' howns
  cases hrequest.symm.trans hrequest'
  rcases (perform_slots performed).cases with ⟨handle', hgives', hreserves⟩ |
    ⟨handle', error, rfl, -⟩ | ⟨-, hnone⟩
  · obtain rfl : handle' = _ := Option.some.inj (hgives'.symm.trans hgives)
    exact hreserves.free (hkey ▸ Deployment.taken_of_shares hshares htaken)
  · cases hgives
  · cases hgives.symm.trans hnone

section

variable {c : Nat} {call : Call (signature host)} {op : Op host} {i : Input} {a : Ans host op}
  {w : World host} {s : Attempt} {c' q : Nat} {s' : Attempt}

/-- What the acting call owns it owned before, or is given now. -/
theorem owned_before (h : Reserved dep cfg) (state : Executing dep cfg c call.proc s)
    (allowed : s.allowed op) (howns : owns (s.next op a).stage = true) {request : Request host}
    (hrequest : (s.next op a).request host = some request) :
    s.request host = some request ∧
      (owns s.stage = true ∨ gives op a = some request.handle) := by
  cases owns_next allowed howns with
  | inl howned =>
      obtain ⟨request', hrequest', -⟩ := h.taken c _ s state howned.1
      cases (Attempt.request_next hrequest' op a).symm.trans hrequest
      exact ⟨hrequest', .inl howned.1⟩
  | inr hgiven =>
      obtain ⟨request', hrequest', hgives⟩ := hgiven
      cases (Attempt.request_next hrequest' op a).symm.trans hrequest
      exact ⟨hrequest', .inr hgives⟩

theorem taken_self (h : Reserved dep cfg) (state : Executing dep cfg c call.proc s)
    (allowed : s.allowed op) (performed : dep.perform call.proc op i cfg.world = some (a, w))
    (howns : owns (s.next op a).stage = true) :
    ∃ request : Request host, (s.next op a).request host = some request ∧
      (dep.slots w call.proc).taken request.handle.scopedKey := by
  have heffect := (perform_slots performed).cases
  cases owns_next allowed howns with
  | inl howned =>
      obtain ⟨hown, hnone, hnot⟩ := howned
      obtain ⟨request, hrequest, htaken⟩ := h.taken c _ s state hown
      refine ⟨request, Attempt.request_next hrequest op a, ?_⟩
      rcases heffect with ⟨handle, -, hreserves⟩ | ⟨handle, error, rfl, -⟩ | ⟨hkeeps, -⟩
      · exact hreserves.taken _ htaken
      · exact absurd rfl (hnot handle error)
      · exact hkeeps.taken _ htaken
  | inr hgiven =>
      obtain ⟨request, hrequest, hgives⟩ := hgiven
      refine ⟨request, Attempt.request_next hrequest op a, ?_⟩
      rcases heffect with ⟨handle, hgives', hreserves⟩ | ⟨handle, error, rfl, -⟩ | ⟨-, hnone⟩
      · obtain rfl : handle = _ := Option.some.inj (hgives'.symm.trans hgives)
        exact hreserves.reserved
      · cases hgives
      · cases hgives.symm.trans hnone

theorem taken_other (h : Reserved dep cfg) (live : cfg.calls c = some call)
    {progress : Progress host}
    (state : (dep.discipline host).state c cfg.log = some ⟨call.proc, progress⟩)
    (allowed : (dep.discipline host).allowed ⟨call.proc, progress⟩ op)
    (performed : dep.perform call.proc op i cfg.world = some (a, w)) (hc : c' ≠ c)
    (hs' : Executing dep cfg c' q s') (howns : owns s'.stage = true) :
    ∃ request : Request host, s'.request host = some request ∧
      (dep.slots w q).taken request.handle.scopedKey := by
  obtain ⟨request, hrequest, htaken⟩ := h.taken c' q s' hs' howns
  refine ⟨request, hrequest, ?_⟩
  cases executes_or_quiet allowed with
  | inl hexecutes =>
      obtain ⟨s, hst⟩ := hexecutes
      cases hst
      exact h.taken_act live state allowed performed hc hs' howns hrequest htaken
  | inr hquiet =>
      have hframe := dep.perform_frame performed
      rw [slots_congr (hframe.entries hquiet q) (hframe.pending hquiet q) (hframe.file hquiet)]
      exact htaken

/-- A call does not come to own the key that another call owns. -/
theorem not_both (h : Reserved dep cfg) (state : Executing dep cfg c call.proc s)
    (allowed : s.allowed op) (performed : dep.perform call.proc op i cfg.world = some (a, w))
    {request request' : Request host} (howns : owns (s.next op a).stage = true)
    (hrequest : (s.next op a).request host = some request) (hc : c' ≠ c)
    (hs' : Executing dep cfg c' q s') (hshares : dep.Shares q call.proc)
    (hrequest' : s'.request host = some request')
    (hkey : request'.handle.scopedKey = request.handle.scopedKey) : owns s'.stage = false := by
  obtain ⟨hrequest, howned⟩ := h.owned_before state allowed howns hrequest
  cases howned with
  | inl hown =>
      rw [Bool.eq_false_iff]
      intro howns'
      exact hc (h.alone c' c q _ s' s request' request hs' state hshares hrequest' hrequest hkey
        howns' hown)
  | inr hgives => exact h.not_given performed hgives hshares hs' hrequest' hkey

/-- A call that closes its key does not hold it any more. -/
theorem unheld_self (allowed : s.allowed op)
    (performed : dep.perform call.proc op i cfg.world = some (a, w)) {freed : Bool}
    (hclosed : (s.next op a).stage = .closed freed) {request : Request host}
    (hrequest : (s.next op a).request host = some request) :
    ¬(dep.slots w call.proc).holds request.handle := by
  obtain ⟨request', hrequest', hop⟩ := closed_next allowed hclosed
  cases (Attempt.request_next hrequest' op a).symm.trans hrequest
  have heffect := perform_slots performed
  rcases hop with ⟨error, rfl⟩ | ⟨result, rfl⟩
  · exact Slots.Frees.unheld heffect
  · exact And.right heffect

/-- Another call that stands after it closed its key is of another process. -/
theorem closed_elsewhere (h : Reserved dep cfg)
    (turn : cfg.current call.proc = some c ∨
      (dep.discipline host).Rests (dep.system host) cfg call.proc ∧ waits host op = true)
    (hc : c' ≠ c) {call' : Call (signature host)} (hcall' : cfg.calls c' = some call')
    (hs' : Executing dep cfg c' q s') {freed : Bool} (hclosed : s'.stage = .closed freed) :
    q ≠ call.proc := by
  intro hq
  cases turn with
  | inl hcurrent =>
      have hold := (h.closed c' call' q s' freed hcall' hs' hclosed).1
      rw [hq, hcurrent, Option.some.injEq] at hold
      exact hc hold.symm
  | inr hrests => exact h.not_closed_of_rests hrests.1 hcall' (hq ▸ hs') freed hclosed

theorem act (h : Reserved dep cfg) (hreach : (dep.system host).Reachable cfg)
    {st : CallState host} {next : Ans host op → Program (Op host) (Ans host) Ret}
    (live : cfg.calls c = some call) (state : (dep.discipline host).state c cfg.log = some st)
    (allowed : (dep.discipline host).allowed st op)
    (turn : cfg.current call.proc = some c ∨
      (dep.discipline host).Rests (dep.system host) cfg call.proc ∧ waits host op = true)
    (performed : dep.perform call.proc op i cfg.world = some (a, w)) :
    Reserved dep { cfg with
      world := w
      calls := Function.update cfg.calls c (some { call with program := next a })
      current := Function.update cfg.current call.proc (some c)
      log := .did c op a :: cfg.log } := by
  have hproc := Scopes.proc_reachable hreach live state
  obtain ⟨p, progress⟩ := st
  obtain rfl : p = call.proc := hproc
  constructor
  case taken =>
      intro c' q s hs howns
      rcases executing_cases state hs with ⟨rfl, s', hst, rfl⟩ | ⟨hc, hs⟩
      · cases hst
        exact h.taken_self state allowed performed howns
      · exact h.taken_other live state allowed performed hc hs howns
  case alone =>
      intro c' c'' q q' s s' request request' hs hs' hshares hrequest hrequest' hkey howns howns'
      rcases executing_cases state hs with ⟨rfl, s₀, hst, rfl⟩ | ⟨hc, hsame⟩
      · rcases executing_cases state hs' with ⟨rfl, -⟩ | ⟨hc', hsame'⟩
        · rfl
        · cases hst
          have hnot := h.not_both state allowed performed howns hrequest hc' hsame'
            (hshares.imp_right Eq.symm) hrequest' hkey.symm
          cases hnot.symm.trans howns'
      · rcases executing_cases state hs' with ⟨rfl, s₀, hst, rfl⟩ | ⟨-, hsame'⟩
        · cases hst
          have hnot := h.not_both state allowed performed howns' hrequest' hc hsame hshares
            hrequest hkey
          cases hnot.symm.trans howns
        · exact h.alone c' c'' q q' s s' request request' hsame hsame' hshares hrequest hrequest'
            hkey howns howns'
  case closed =>
      intro c' call' q s freed hcall' hs hclosed
      dsimp only at hcall' ⊢
      rcases executing_cases state hs with ⟨rfl, s', hst, rfl⟩ | ⟨hc, hs⟩
      · cases hst
        exact ⟨Function.update_self .., fun _ hrequest =>
          unheld_self allowed performed hclosed hrequest⟩
      · rw [Function.update_of_ne hc] at hcall'
        have hold := h.closed c' call' q s freed hcall' hs hclosed
        have hq := h.closed_elsewhere turn hc hcall' hs hclosed
        rw [Function.update_of_ne hq, (perform_others hq performed).2]
        exact hold

end

theorem start (h : Reserved dep cfg) {p : Nat} {entry : Entry host}
    (rests : (dep.discipline host).Rests (dep.system host) cfg p) :
    Reserved dep { cfg with
      calls := Function.update cfg.calls cfg.next
        (some ⟨p, entry, (dep.system host).program p entry⟩)
      current := Function.update cfg.current p (some cfg.next)
      next := cfg.next + 1
      log := .started cfg.next p entry :: cfg.log } := by
  -- A call that starts has not asked for its key, the others stand where they stood.
  have hstate : ∀ {c q s}, (dep.discipline host).state c (.started cfg.next p entry :: cfg.log) =
      some ⟨q, .executing s⟩ → s.stage = .before ∨ c ≠ cfg.next ∧ Executing dep cfg c q s := by
    intro c q s hs
    by_cases hc : cfg.next = c
    · simp only [Discipline.state, if_pos hc, Option.some.injEq, CallState.mk.injEq] at hs
      cases entry with
      | execute approval authorization =>
          cases hs.2
          exact .inl rfl
      | evaluate | dryRun | callback => cases hs.2
    · rw [Discipline.state_started hc] at hs
      exact .inr ⟨Ne.symm hc, hs⟩
  constructor
  · intro c q s hs howns
    rcases hstate hs with hbefore | ⟨-, hs⟩
    · rw [hbefore] at howns
      cases howns
    · exact h.taken c q s hs howns
  · intro c c' q q' s s' request request' hs hs' hshares hrequest hrequest' hkey howns howns'
    rcases hstate hs with hbefore | ⟨-, hs⟩
    · rw [hbefore] at howns
      cases howns
    rcases hstate hs' with hbefore | ⟨-, hs'⟩
    · rw [hbefore] at howns'
      cases howns'
    exact h.alone c c' q q' s s' request request' hs hs' hshares hrequest hrequest' hkey howns
      howns'
  · intro c call q s freed hcall hs hclosed
    rcases hstate hs with hbefore | ⟨hc, hs⟩
    · rw [hbefore] at hclosed
      cases hclosed
    dsimp only at hcall ⊢
    rw [Function.update_of_ne hc] at hcall
    have hq : q ≠ p := fun hq => h.not_closed_of_rests rests hcall (hq ▸ hs) freed hclosed
    rw [Function.update_of_ne hq]
    exact h.closed c call q s freed hcall hs hclosed

/-- In every run the reservations of the keys are kept apart. -/
theorem reachable (h : (dep.system host).Reachable cfg) : Reserved dep cfg := by
  refine Discipline.invariant (dep.followed host) ?_ ?_ h
  · rintro w rfl
    exact boot
  intro cfg cfg' hreach hsound hinv hmove
  cases hmove with
  | start rests enabled => exact hinv.start rests
  | act live program state allowed turn performed =>
      exact hinv.act hreach live state allowed turn performed
  | @finish c call s r live state final turn =>
      refine ⟨hinv.taken, hinv.alone, ?_⟩
      intro c' call' q s freed hcall' hs hclosed
      dsimp only at hcall' ⊢
      by_cases hc : c' = c
      · rw [hc, Function.update_self] at hcall'
        cases hcall'
      · rw [Function.update_of_ne hc] at hcall'
        have hold := hinv.closed c' call' q s freed hcall' hs hclosed
        have hq : q ≠ call.proc := by
          rintro rfl
          exact hc (Option.some.inj (hold.1.symm.trans turn))
        rw [Function.update_of_ne hq]
        exact hold
  | @crash p =>
      refine ⟨hinv.taken, hinv.alone, ?_⟩
      intro c' call' q s freed hcall' hs hclosed
      simp only [Machine.crashStep] at hcall' ⊢
      split at hcall'
      · cases hcall'
      · rename_i call hcall
        split_ifs at hcall' with hp
        cases hcall'
        have hproc := Scopes.proc_reachable hreach hcall hs
        have hq : q ≠ p := fun hq => hp (hproc.symm.trans hq)
        rw [Function.update_of_ne hq]
        exact hinv.closed c' _ q s freed hcall hs hclosed
  | outside rests acted =>
      refine ⟨fun c p s hs howns => ?_, hinv.alone, fun c call p s freed hcall hs hclosed => ?_⟩
      · rw [act_slots acted]
        exact hinv.taken c p s hs howns
      · rw [act_slots acted]
        exact hinv.closed c call p s freed hcall hs hclosed

end Reserved

def Throws {α : Type} (x : Except Thrown α) : Prop :=
  ∀ error, x = .error error → error.Printable

theorem throws_ok {α : Type} (a : α) : Throws (.ok a) := by
  intro error h
  cases h

theorem throws_error {α : Type} (cls : ErrorClass) (message : String) :
    Throws (.error (.error cls message) : Except Thrown α) := by
  intro error h
  cases h
  exact True.intro

theorem throws_bind {α β : Type} {x : Except Thrown α} {f : α → Except Thrown β} (hx : Throws x)
    (hf : ∀ a, Throws (f a)) : Throws (x >>= f) := by
  cases x with
  | error e =>
      intro error h
      cases h
      exact hx e rfl
  | ok a => exact hf a

theorem member_throws (value : Option Json) (key : String) : Throws (member value key) := by
  unfold member
  split
  · exact throws_error _ _
  · exact throws_error _ _
  · exact throws_ok _

theorem assertExecutionEvidenceMatchesIntent_throws (intent : TradingIntent host)
    (evidence : Json) : Throws (assertExecutionEvidenceMatchesIntent intent evidence) := by
  have hmismatch : ∀ message, Throws (evidenceMismatch message) := fun _ => throws_error _ _
  unfold assertExecutionEvidenceMatchesIntent
  split
  · split_ifs
    · exact hmismatch _
    · exact throws_ok _
  · unfold assertOrderStatusEvidence
    dsimp only
    split_ifs <;> first | exact hmismatch _ | exact throws_ok _
  · unfold assertOrderEvidence
    dsimp only
    split
    · exact throws_ok _
    · split
      · exact hmismatch _
      · split
        · split_ifs <;> first | exact hmismatch _ | exact throws_ok _
        · exact throws_error _ _
  · exact throws_ok _
  · exact throws_ok _

theorem executedResult_throws (intent : TradingIntent host) (evidence : Option Json)
    (now : String) : Throws (executedResult intent evidence now) := by
  refine throws_bind (member_throws _ _) fun _ => ?_
  refine throws_bind (assertExecutionEvidenceMatchesIntent_throws _ _) fun _ => ?_
  dsimp only
  split_ifs
  · exact throws_ok _
  · exact throws_error _ _

theorem recordOf_ok (broker : ExecutionBroker) (request : Request host) {reply : Reply}
    (h : Throws reply) : ∃ record, broker.recordOf request reply = .ok record := by
  cases reply with
  | error e =>
      obtain ⟨text, htext⟩ := Thrown.string_of_printable (h e rfl)
      exact ⟨_, by simp only [ExecutionBroker.recordOf, htext]; rfl⟩
  | ok evidence =>
      cases hresult : executedResult request.intent evidence request.now with
      | ok result => exact ⟨_, by simp only [ExecutionBroker.recordOf, hresult]; rfl⟩
      | error e =>
          obtain ⟨text, htext⟩ :=
            Thrown.string_of_printable (executedResult_throws _ _ _ e hresult)
          exact ⟨_, by simp only [ExecutionBroker.recordOf, hresult, htext]; rfl⟩

def committed : Stage → Prop
  | .entered (some reply) => Throws reply
  | .entered none | .recorded _ _ | .audited _ _ | .unaudited _ _ | .released _ => True
  | _ => False

theorem owns_of_committed {stage : Stage} (h : committed stage) : owns stage = true := by
  cases stage <;> first | rfl | exact False.elim h

def prints : Event (signature host) → Bool
  | .did _ (.connectorResult _) (.error error) => decide error.Printable
  | _ => true

theorem committed_next {s : Attempt} {op : Op host} {a : Ans host op} {c : Nat}
    (h : committed s.stage) (hallowed : s.allowed op)
    (hprints : prints (.did c op a : Event (signature host)) = true) :
    committed (s.next op a).stage := by
  cases op with
  | begin key intent =>
      rw [hallowed.1] at h
      exact False.elim h
  | enterConnector intent => exact True.intro
  | connectorResult intent =>
      intro error herror
      cases herror
      exact of_decide_eq_true hprints
  | complete handle result pendingAudit =>
      obtain ⟨request, _, _, hstage⟩ := hallowed
      cases pendingAudit with
      | some event => exact True.intro
      | none =>
          cases hs : s.stage with
          | reserved =>
              rw [hs] at h
              exact False.elim h
          | _ => simp only [hs] at hstage
  | abort handle error =>
      obtain ⟨request, _, _, hstage⟩ := hallowed
      cases hs : s.stage with
      | entered reply =>
          cases reply with
          | none => simp only [hs] at hstage
          | some reply =>
              simp only [hs] at hstage h
              obtain ⟨thrown, hthrown⟩ := hstage
              obtain ⟨record, hrecord⟩ := recordOf_ok s.broker request h
              cases hthrown.symm.trans hrecord
      | reserved | closed =>
          rw [hs] at h
          exact False.elim h
      | _ => simp only [hs] at hstage
  | pendingResult promised =>
      rw [show s.stage = .waiting promised from hallowed] at h
      exact False.elim h
  | auditWrite event =>
      simp only [Attempt.next_stage, Attempt.stageAfter]
      split
      · exact True.intro
      · exact True.intro
      · next hs =>
          rw [hs] at h
          exact False.elim h
      · exact h
  | completeAudit handle =>
      cases a with
      | error e => exact h
      | ok u =>
          simp only [Attempt.next_stage, Attempt.stageAfter]
          split
          · exact True.intro
          · exact h
  | cachedCompleteAudit handle =>
      cases a with
      | error e => exact h
      | ok u =>
          simp only [Attempt.next_stage, Attempt.stageAfter]
          split
          · next hs =>
              rw [hs] at h
              exact False.elim h
          · exact h
  | _ => exact h

/-- A call that owns its key owns it until it frees it. -/
theorem owns_stays {s : Attempt} {op : Op host} {a : Ans host op} (h : owns s.stage = true)
    (hallowed : s.allowed op) (hop : ∀ handle error, op ≠ .abort handle error) :
    owns (s.next op a).stage = true := by
  cases op with
  | begin key intent =>
      rw [hallowed.1] at h
      cases h
  | abort handle error => exact absurd rfl (hop handle error)
  | pendingResult promised =>
      rw [show s.stage = .waiting promised from hallowed] at h
      cases h
  | enterConnector | connectorResult => rfl
  | complete handle result pendingAudit => cases pendingAudit <;> rfl
  | auditWrite event =>
      simp only [Attempt.next_stage, Attempt.stageAfter]
      split
      · rfl
      · rfl
      · next hs =>
          rw [hs] at h
          cases h
      · exact h
  | completeAudit handle =>
      cases a with
      | error e => exact h
      | ok u =>
          simp only [Attempt.next_stage, Attempt.stageAfter]
          split
          · rfl
          · exact h
  | cachedCompleteAudit handle =>
      cases a with
      | error e => exact h
      | ok u =>
          simp only [Attempt.next_stage, Attempt.stageAfter]
          split
          · next hs =>
              rw [hs] at h
              cases h
          · exact h
  | _ => exact h

variable {cfg : Config (signature host)}

/-- What the operations of a call keep of its stage holds on, if nothing that breaks it
happens. -/
theorem executing_carries (h : (dep.system host).Reachable cfg) {c p : Nat} {s : Attempt}
    {request : Request host} {Q : Stage → Prop} {F : Event (signature host) → Prop}
    (step : ∀ (s : Attempt) (op : Op host) (a : Ans host op), Q s.stage → s.allowed op →
      F (.did c op a) → Q (s.next op a).stage) {newer older : History host}
    (hlog : cfg.log = newer ++ older)
    (hs : (dep.discipline host).state c older = some ⟨p, .executing s⟩)
    (hrequest : s.request host = some request) (hQ : Q s.stage)
    (hfine : ∀ event ∈ newer, F event) :
    ∃ s', Executing dep cfg c p s' ∧ s'.request host = some request ∧ Q s'.stage := by
  have hkept := (Discipline.sound_reachable (dep.followed host) h).kept
  have hnumbered := (Discipline.accounted_reachable (dep.followed host) h).numbered
  rw [hlog] at hkept hnumbered
  let P : CallState host → Prop := fun st =>
    ∃ s', st = ⟨p, .executing s'⟩ ∧ s'.request host = some request ∧ Q s'.stage
  have hnext : ∀ st op a, P st → (dep.discipline host).allowed st op → F (.did c op a) →
      P ((dep.discipline host).next st op a) := by
    rintro st op a ⟨s', rfl, hrequest, hQ⟩ hallowed hop
    exact ⟨s'.next op a, rfl, Attempt.request_next hrequest op a, step s' op a hQ hallowed hop⟩
  obtain ⟨st, hst, s', rfl, hrequest', hQ'⟩ :=
    hkept.endures (P := P) hnext hnumbered hs ⟨s, rfl, hrequest, hQ⟩ hfine
  exact ⟨s', by rw [Executing, hlog, hst], hrequest', hQ'⟩

end Submission

open Submission

theorem SameScopedKey.scopedKey {intent other : TradingIntent host}
    (h : SameScopedKey intent other) :
    (handleFor host intent.idempotencyKey intent).scopedKey =
      (handleFor host other.idempotencyKey other).scopedKey := by
  simp only [handleFor, scopeIdempotencyKey, h.idempotencyKey, h.principal, h.action, h.resource]

/-- Two calls share a store: the file, or the memory of their process. -/
def ShareStore (dep : Deployment) (log : History host) (c c' : Nat) : Prop :=
  dep.store = .file ∨ (entryOf c log).map Prod.fst = (entryOf c' log).map Prod.fst

structure SubmittedOnce (dep : Deployment) (log : History host) : Prop where
  once : ∀ newer between older c c' (intent intent' : TradingIntent host),
    log = newer ++ .did c' (.enterConnector intent') () :: (between ++
      .did c (.enterConnector intent) () :: older) →
    ShareStore dep log c c' → ¬SameScopedKey intent intent'
  /-- While a reservation is not given up, no other call submits under its key. -/
  reserved : ∀ newer between older c c' key (intent intent' : TradingIntent host),
    log = newer ++ .did c' (.enterConnector intent') () :: (between ++
      .did c (.begin key intent) (.ok .reserved) :: older) →
    ShareStore dep log c c' → SameScopedKey intent intent' →
    (∀ handle error answer, .did c (.abort handle error) answer ∉ between) →
    c' = c ∧ intent' = intent

namespace Submission

variable {cfg : Config (signature host)}

/-- A call that enters the connector owns the key of its intent. -/
theorem enters {progress : Progress host} {intent : TradingIntent host}
    (h : progress.allowed (.enterConnector intent)) :
    ∃ s request, progress = .executing s ∧ s.stage = .reserved ∧ s.request host = some request ∧
      request.intent = intent := by
  cases progress with
  | executing s =>
      obtain ⟨hstage, request, hrequest, hintent, -⟩ := h
      exact ⟨s, request, rfl, hstage, hrequest, hintent⟩
  | appraising | rehearsing | checking => exact False.elim h

theorem begins {progress : Progress host} {key : String} {intent : TradingIntent host}
    (h : progress.allowed (.begin key intent)) :
    ∃ s request, progress = .executing s ∧ s.request host = some request ∧
      request.intent = intent := by
  cases progress with
  | executing s =>
      obtain ⟨-, request, hrequest, hintent, -⟩ := h
      exact ⟨s, request, rfl, hrequest, hintent⟩
  | appraising | rehearsing | checking => exact False.elim h

theorem shares_of_entries {c c' p p' : Nat} {entry entry' : Entry host}
    (h : ShareStore dep cfg.log c c') (hentry : entryOf c cfg.log = some (p, entry))
    (hentry' : entryOf c' cfg.log = some (p', entry')) : dep.Shares p p' := by
  refine h.imp_right fun hsame => ?_
  rw [hentry, hentry'] at hsame
  exact Option.some.inj hsame

/-- A call that owns its key is the only one that enters the connector under it. -/
theorem owner_enters (h : (dep.system host).Reachable cfg) {newer between older : History host}
    {c c' : Nat} {op : Op host} {a : Ans host op} {intent intent' : TradingIntent host}
    (hlog : cfg.log = newer ++ .did c' (.enterConnector intent') () ::
      (between ++ .did c op a :: older))
    (hshare : ShareStore dep cfg.log c c') (hkey : SameScopedKey intent intent') {Q : Stage → Prop}
    (hbegins : ∀ progress : Progress host, progress.allowed op → ∃ s request,
      progress = .executing s ∧ s.request host = some request ∧ request.intent = intent ∧
      Q (s.next op a).stage)
    {F : Event (signature host) → Prop}
    (step : ∀ (s : Attempt) (op : Op host) (a : Ans host op), Q s.stage → s.allowed op →
      F (.did c op a) → Q (s.next op a).stage)
    (hfine : ∀ event ∈ between, F event) (howns : ∀ stage, Q stage → owns stage = true) :
    c' = c ∧ intent' = intent ∧ Q .reserved := by
  obtain ⟨before, _, p', entry', progress', hpast'⟩ := Deployment.past_reachable h hlog
  have hlog' : cfg.log = (newer ++ .did c' (.enterConnector intent') () :: between) ++
      .did c op a :: older := by
    rw [hlog, List.append_assoc, List.cons_append]
  obtain ⟨_, _, p, entry, progress, hpast⟩ := Deployment.past_reachable h hlog'
  obtain ⟨s', request', rfl, hstage', hrequest', rfl⟩ := enters hpast'.allowed
  obtain ⟨s, request, rfl, hrequest, rfl, hQ⟩ := hbegins progress hpast.allowed
  obtain ⟨s₂, hs₂, hrequest₂, hQ₂⟩ := executing_carries hpast'.reachable step hpast'.log
    (Discipline.state_did_self hpast.state) (Attempt.request_next hrequest op a) hQ hfine
  have hstate' : Executing dep before c' p' s' := by
    rw [Executing, hpast'.log]
    exact hpast'.state
  have hc : c = c' := (Reserved.reachable hpast'.reachable).alone c c' p p' s₂ s' request request'
    hs₂ hstate' (shares_of_entries hshare hpast.entry hpast'.entry) hrequest₂ hrequest'
    hkey.scopedKey (howns _ hQ₂) (by rw [hstage']; rfl)
  subst hc
  cases hs₂.symm.trans hstate'
  cases hrequest₂.symm.trans hrequest'
  exact ⟨rfl, rfl, hstage' ▸ hQ₂⟩

end Submission

theorem submitted_once {cfg : Config (signature host)} (h : (dep.system host).Reachable cfg)
    (hprints : cfg.log.all prints = true) : SubmittedOnce dep cfg.log := by
  constructor
  · intro newer between older c c' intent intent' hlog hshare hkey
    have hfine : ∀ event ∈ between, prints event = true := by
      intro event hevent
      refine List.all_eq_true.mp hprints event ?_
      rw [hlog]
      exact List.mem_append_right _ (List.mem_cons_of_mem _ (List.mem_append_left _ hevent))
    obtain ⟨-, -, hreserved⟩ := owner_enters h hlog hshare hkey (Q := committed)
      (fun progress hallowed => by
        obtain ⟨s, request, hprogress, -, hrequest, hintent⟩ := enters hallowed
        exact ⟨s, request, hprogress, hrequest, hintent, True.intro⟩)
      (fun s op a => committed_next) hfine fun _ => owns_of_committed
    exact hreserved
  · intro newer between older c c' key intent intent' hlog hshare hkey habort
    obtain ⟨hc, hintent, -⟩ := owner_enters h hlog hshare hkey (Q := fun stage => owns stage = true)
      (F := fun event => ∀ handle error answer, event ≠ .did c (.abort handle error) answer)
      (fun progress hallowed => by
        obtain ⟨s, request, hprogress, hrequest, hintent⟩ := begins hallowed
        exact ⟨s, request, hprogress, hrequest, hintent, rfl⟩)
      (fun s op a howns hallowed hfine => owns_stays howns hallowed fun handle error hop => by
        subst hop
        exact hfine handle error a rfl)
      (fun event hevent handle error answer heq => habort handle error answer (heq ▸ hevent))
      fun _ h => h
    exact ⟨hc, hintent⟩

abbrev plainTextHost : Host := plainHost id fun _ _ => zeroDigest

def memoryDeployment : Deployment := { paperDeployment with store := .memory }

def memoryRun (steps : List (Step (signature plainTextHost))) :
    Config (signature plainTextHost) :=
  (memoryDeployment.system plainTextHost).exec (Machine.boot (World.empty plainTextHost)) steps

theorem memoryRun_reachable (steps : List (Step (signature plainTextHost))) :
    (memoryDeployment.system plainTextHost).Reachable (memoryRun steps) :=
  (memoryDeployment.system plainTextHost).reachable_exec (.boot rfl) steps

def firstIntent : TradingIntent plainTextHost := ⟨simulationIntent, by decide +kernel⟩

def revisedIntent : TradingIntent plainTextHost :=
  ⟨simulationIntent.put "rationale" (.str "y"), by decide +kernel⟩

def decisionOf (intent : TradingIntent plainTextHost) (approvalId : Option Json) : Json :=
  .record [
    ("intent", some intent.value),
    ("intentId", some (.str "i")),
    ("outcome", some (.str "allow")),
    ("correlationId", some (.str "c")),
    ("decidedAt", some (.str "p")),
    ("approvalId", approvalId),
    ("decisionToken", some (.str zeroDigest))]

def runs (c n : Nat) : List (Step (signature plainTextHost)) :=
  List.replicate n (.run c Input.quiet)

def answers (c : Nat) (value : Json) : Step (signature plainTextHost) :=
  .run c { Input.quiet with reply := .ok (some value) }

/-- The first execution reserves the key, finds that its human approval is missing and
gives the key up. The second goes through to the connector. -/
def revisedRun : List (Step (signature plainTextHost)) :=
  .start 0 (.execute (decisionOf firstIntent (some (.str "a"))) none) :: (runs 0 6 ++ [.finish 0,
    .start 0 (.execute (decisionOf revisedIntent none) none)] ++ runs 1 3 ++
    List.replicate 3 (answers 1 (.bool false)) ++
    [answers 1 (.record [("passed", some (.bool true))])] ++ runs 1 1 ++
    List.replicate 3 (answers 1 (.bool false)) ++ runs 1 1)

def reservedUnder (intent : TradingIntent host) :
    Event (signature host) → Option (TradingIntent host)
  | .did _ (.begin key other) (.ok .reserved) =>
      if (handleFor host key other).scopedKey =
        (handleFor host intent.idempotencyKey intent).scopedKey then some other else none
  | _ => none

def submits (c : Nat) (intent : TradingIntent host) : Event (signature host) → Bool
  | .did c' (.enterConnector other) _ => c' == c && other == intent
  | _ => false

theorem revisedRun_log :
    (memoryRun revisedRun).log.reverse.findSome? (reservedUnder revisedIntent) = some firstIntent ∧
      (memoryRun revisedRun).log.any (submits 1 revisedIntent) = true ∧
      (memoryRun revisedRun).log.all prints = true := by decide +kernel

theorem submitted_once_revised :
    (memoryRun revisedRun).log.any (submits 1 revisedIntent) = true ∧
      SubmittedOnce memoryDeployment (memoryRun revisedRun).log :=
  ⟨revisedRun_log.2.1, submitted_once (memoryRun_reachable _) revisedRun_log.2.2⟩

/-- A payload that differs from the one first reserved under its key is submitted, after
that reservation was given up. -/
theorem revised_submitted :
    Function.Injective plainTextHost.sha256 ∧
      (memoryDeployment.system plainTextHost).Reachable (memoryRun revisedRun) ∧
      SameScopedKey firstIntent revisedIntent ∧ firstIntent.value ≠ revisedIntent.value ∧
      (memoryRun revisedRun).log.reverse.findSome? (reservedUnder revisedIntent) =
        some firstIntent ∧
      (memoryRun revisedRun).log.any (submits 1 revisedIntent) = true := by
  refine ⟨fun _ _ h => h, memoryRun_reachable _, ?_, by decide +kernel, revisedRun_log.1,
    revisedRun_log.2.1⟩
  constructor <;> decide +kernel

end TradingGuardrails
