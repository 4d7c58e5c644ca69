import TradingGuardrails.Broker.Custody
import TradingGuardrails.Broker.Slots
import TradingGuardrails.System.Failure

/-!
What the memory of a file store is left with. A key that a process remembers as pending is
one that a running call of it has, so the store answers for every other key like a store
that was just opened on the file, unless closing an audit failed.
-/
namespace TradingGuardrails

open Text Interleaving

variable {host : Host} {dep : Deployment}

abbrev custodies (host : Host) : Discipline (signature host) where
  toContract := Custody.contract host
  start _ _ := .free
  final s _ := s.Ended

namespace Recovery

/-- Calls that are not executions are given no keys. -/
theorem free_of_allowed {C : Contract (Op host) (Ans host)}
    (hallowed : ∀ s op, C.allowed s op → Custody.concerns op = false)
    {p : Program (Op host) (Ans host) Ret} {s : C.State} (h : p.Obeys C (fun _ _ => True) s) :
    p.Obeys (custodies host).toContract (custodies host).final .free :=
  h.embed (custodies host).toContract (fun _ => .free)
    (fun s op a ha => (Custody.inert (hallowed s op ha) .free).2 a)
    (fun s op ha => (Custody.inert (hallowed s op ha) .free).1) fun _ _ _ => Custody.ended_free

theorem run_obeys {C : Contract (Op host) (Ans host)} {σ α : Type} {m : Script host σ α}
    {init : σ} {ret : Except Thrown α → Ret} {s : C.State} {ok : C.State → σ → α → Prop}
    {err : C.State → σ → Thrown → Prop} {post : C.State → Ret → Prop}
    (h : Routine.Obeys C ok err s init m) (hok : ∀ s l a, ok s l a → post s (ret (.ok a)))
    (herr : ∀ s l e, err s l e → post s (ret (.error e))) :
    (run m init ret).Obeys C post s := by
  rw [run, Program.obeys_bind]
  refine Program.Obeys.mono h ?_
  rintro s ⟨r, l⟩ hr
  cases r with
  | ok a => exact hok s l a hr
  | error e => exact herr s l e hr

theorem rehearsal_unconcerned (_ : Rehearsal) (op : Op host) (h : Rehearsal.allowed op) :
    Custody.concerns op = false := by
  cases op with
  | begin | complete | completeAudit | failAudit | abort => exact False.elim h
  | _ => rfl

theorem lastCheck_unconcerned (_ : LastCheck host) (op : Op host) (h : LastCheck.allowed op) :
    Custody.concerns op = false := by
  cases op with
  | begin | complete | completeAudit | failAudit | abort => exact False.elim h
  | _ => rfl

theorem appraisal_unconcerned (s : Appraisal) (op : Op host) (h : s.allowed op) :
    Custody.concerns op = false := by
  cases op with
  | begin | complete | completeAudit | failAudit | abort => exact False.elim h
  | _ => rfl

theorem followed (dep : Deployment) (host : Host) :
    (custodies host).Followed (dep.system host) := by
  intro p e
  cases e with
  | execute approval authorization =>
      have hexecute := @Custody.custody_execute host (dep.broker p) approval authorization
      exact run_obeys hexecute (fun _ _ _ h => h) fun _ _ _ h => h
  | dryRun approval =>
      exact free_of_allowed (C := Rehearsal.contract host) rehearsal_unconcerned
        (run_obeys (obeys_dryRun (dep.broker p) approval) (fun _ _ _ _ => True.intro)
          fun _ _ _ _ => True.intro)
  | evaluate rawIntent options =>
      exact free_of_allowed (C := Appraisal.contract host) appraisal_unconcerned
        (run_obeys (obeys_evaluate (dep.service p) rawIntent options) (fun _ _ _ _ => True.intro)
          fun _ _ _ _ => True.intro)
  | callback parent request =>
      exact free_of_allowed (C := LastCheck.contract host) lastCheck_unconcerned
        (run_obeys (obeys_beforeSideEffect (dep.broker p) request) (fun _ _ _ _ => True.intro)
          fun _ _ _ _ => True.intro)

def Remembers (w : World host) (q : Nat) (handle : Handle) : Prop :=
  (w.fileStore q).slots.holds handle

theorem handle_eq {a b : Handle} (hkey : a.scopedKey = b.scopedKey)
    (hhash : a.payloadHash = b.payloadHash) : a = b := by
  cases a
  cases b
  cases hkey
  cases hhash
  rfl

theorem begin_holds {store store' : FileStore} {key : String} {intent : TradingIntent host}
    {answer : Except Thrown Reservation} (h : store.Begun key intent answer store') {other : Handle}
    (hother : store'.slots.holds other) :
    store.slots.holds other ∨ answer = .ok .reserved ∧ other = handleFor host key intent := by
  cases h with
  | reserved =>
      obtain ⟨promise, hpromise⟩ := hother
      by_cases hkey : other.scopedKey = (handleFor host key intent).scopedKey
      · simp only [FileLocal.held, FileLocal.put, hkey, Function.update_self] at hpromise
        split_ifs at hpromise with hhash
        exact .inr ⟨rfl, handle_eq hkey hhash.symm⟩
      · refine .inl ⟨promise, ?_⟩
        simpa only [FileLocal.held, FileLocal.put, Function.update_of_ne hkey] using hpromise
  | _ => exact .inl hother

theorem fileStore_setFileStore (w : World host) (p : Nat) (store : FileStore) :
    (w.setFileStore p store).fileStore p = store := by
  unfold World.fileStore World.setFileStore
  rw [World.update_self]
  rfl

theorem holds_congr {store store' : FileStore} (h : store.own.pending = store'.own.pending)
    (handle : Handle) : store.slots.holds handle ↔ store'.slots.holds handle := by
  simp only [FileStore.slots, FileLocal.held, h]

theorem remembers_congr {w w' : World host} {q : Nat}
    (h : (w'.processes q).pending = (w.processes q).pending) (handle : Handle) :
    Remembers w' q handle ↔ Remembers w q handle :=
  holds_congr h handle

theorem remembers_setFileStore {w : World host} {p q : Nat} {store : FileStore} {handle : Handle}
    (h : Remembers (w.setFileStore p store) q handle) :
    Remembers w q handle ∨ q = p ∧ store.slots.holds handle := by
  by_cases hq : q = p
  · subst hq
    rw [Remembers, fileStore_setFileStore] at h
    exact .inr ⟨rfl, h⟩
  · have hpending : ((w.setFileStore p store).processes q).pending = (w.processes q).pending :=
      congrArg Local.pending (World.update_of_ne _ hq _)
    exact .inl ((remembers_congr hpending handle).mp h)

/-- An operation makes a process remember a key only by giving it to a call. -/
theorem perform_remembers (hstore : dep.store = .file) {p q : Nat} {op : Op host} {i : Input}
    {w w' : World host} {a : Ans host op} (h : dep.perform p op i w = some (a, w'))
    {handle : Handle} (hw' : Remembers w' q handle) :
    Remembers w q handle ∨ q = p ∧ Custody.free.next op a = .held handle := by
  have hkeep : ∀ {store : FileStore}, (w.fileStore p).slots.Keeps store.slots →
      Remembers (w.setFileStore p store) q handle → Remembers w q handle := by
    intro store hkeeps hset
    rcases remembers_setFileStore hset with hold | ⟨rfl, hnew⟩
    · exact hold
    · exact hkeeps.holds handle hnew
  cases op with
  | begin key intent =>
      simp only [Deployment.perform, Deployment.begin, hstore, Option.some.injEq] at h
      cases h
      rcases remembers_setFileStore hw' with hold | ⟨rfl, hnew⟩
      · exact .inl hold
      · rcases begin_holds (FileStore.begin_cases _ i.io key intent) hnew with hold | ⟨ha, rfl⟩
        · exact .inl hold
        · refine .inr ⟨rfl, ?_⟩
          rw [ha]
          rfl
  | complete handle' result pendingAudit =>
      simp only [Deployment.perform, Deployment.complete, hstore, Option.some.injEq] at h
      cases h
      exact .inl (hkeep (FileStore.complete_slots ..).1 hw')
  | completeAudit handle' =>
      simp only [Deployment.perform, Deployment.completeAudit, hstore, Option.some.injEq] at h
      cases h
      exact .inl (hkeep (FileStore.completeAudit_slots ..) hw')
  | failAudit handle' error =>
      simp only [Deployment.perform, Deployment.failAudit, hstore, Option.some.injEq] at h
      cases h
      exact .inl (hkeep (FileStore.failAudit_slots ..) hw')
  | abort handle' error =>
      simp only [Deployment.perform, Deployment.abort, hstore, Option.some.injEq] at h
      cases h
      rcases remembers_setFileStore hw' with hold | ⟨rfl, hnew⟩
      · exact .inl hold
      · exact .inl ((FileStore.abort_slots ..).holds handle hnew)
  | cachedCompleteAudit handle' =>
      simp only [Deployment.perform, Deployment.cachedCompleteAudit, hstore,
        Option.some.injEq] at h
      cases h
      exact .inl (hkeep (FileStore.cachedCompleteAudit_slots ..) hw')
  | _ =>
      have hpending := (Deployment.perform_frame dep h).pending (by simp [Deployment.touches]) q
      exact .inl ((remembers_congr hpending handle).mp hw')

/-- A store that has given a key up does not remember it. -/
theorem not_holds_put {own : FileLocal} {file : Option Json} {handle : Handle} {promise : Nat}
    {r : Except Thrown Json} :
    ¬(FileStore.mk file ((own.put handle.scopedKey none).settle promise r)).slots.holds handle := by
  rintro ⟨promise', h⟩
  simp only [FileLocal.held_settle, FileLocal.held_put_none_self] at h
  cases h

theorem not_holds_of_none {store : FileStore} {file : Option Json} {handle : Handle}
    (h : store.own.held handle = none) : ¬{ store with file }.slots.holds handle := by
  rintro ⟨promise, hpromise⟩
  rw [h] at hpromise
  cases hpromise

theorem complete_failed {store : FileStore} {io : Io} {handle : Handle} {result : Json}
    {pendingAudit : Option Json} {e : Thrown}
    (h : (store.complete host io handle result pendingAudit).1 = .error e) :
    ¬(store.complete host io handle result pendingAudit).2.slots.holds handle := by
  unfold FileStore.complete at h ⊢
  split
  · next hnone =>
      rw [hnone] at h
      cases h
  · next promise hheld =>
      rw [hheld] at h
      dsimp only at h ⊢
      split
      · exact not_holds_put
      · next haccess =>
          rw [haccess] at h
          cases pendingAudit <;> cases h

theorem completeAudit_done {store : FileStore} {io : Io} {handle : Handle} {u : Unit}
    (h : (store.completeAudit host io handle).1 = .ok u) :
    ¬(store.completeAudit host io handle).2.slots.holds handle := by
  unfold FileStore.completeAudit at h ⊢
  split
  · next haccess =>
      rw [haccess] at h
      dsimp only at h
      split at h <;> cases h
  · split
    · next hnone => exact not_holds_of_none hnone
    · exact not_holds_put

theorem failAudit_unheld (store : FileStore) (handle : Handle) (error : Thrown) :
    ¬(store.failAudit handle error).slots.holds handle := by
  unfold FileStore.failAudit
  split
  · next hnone => exact not_holds_of_none hnone
  · exact not_holds_put

/-- A call that loses its key makes its process forget the key. -/
theorem perform_forgets (hstore : dep.store = .file) {p : Nat} {op : Op host} {i : Input}
    {w w' : World host} {a : Ans host op} (h : dep.perform p op i w = some (a, w'))
    {handle : Handle} (hallowed : (Custody.held handle).allowed op)
    (hnext : (Custody.held handle).next op a = .free) : ¬Remembers w' p handle := by
  have hset : ∀ {store : FileStore}, ¬store.slots.holds handle →
      ¬Remembers (w.setFileStore p store) p handle := by
    intro store hnot hremembers
    rw [Remembers, fileStore_setFileStore] at hremembers
    exact hnot hremembers
  cases op with
  | complete handle' result pendingAudit =>
      simp only [Deployment.perform, Deployment.complete, hstore, Option.some.injEq] at h
      cases h
      obtain rfl : handle' = handle := hallowed
      refine hset ?_
      cases pendingAudit with
      | none => exact (FileStore.complete_slots ..).2 rfl
      | some event =>
          cases hdone : ((w.fileStore p).complete host i.io handle' result (some event)).1 with
          | error e => exact complete_failed hdone
          | ok u =>
              rw [hdone] at hnext
              cases hnext
  | completeAudit handle' =>
      simp only [Deployment.perform, Deployment.completeAudit, hstore, Option.some.injEq] at h
      cases h
      obtain rfl : handle' = handle := hallowed
      refine hset ?_
      cases hdone : ((w.fileStore p).completeAudit host i.io handle').1 with
      | error e =>
          rw [hdone] at hnext
          cases hnext
      | ok u => exact completeAudit_done hdone
  | failAudit handle' error =>
      simp only [Deployment.perform, Deployment.failAudit, hstore, Option.some.injEq] at h
      cases h
      obtain rfl : handle' = handle := hallowed
      exact hset (failAudit_unheld _ _ _)
  | abort handle' error =>
      simp only [Deployment.perform, Deployment.abort, hstore, Option.some.injEq] at h
      cases h
      obtain rfl : handle' = handle := hallowed
      exact hset (FileStore.abort_slots ..).unheld
  | begin key intent => exact False.elim hallowed
  | _ => cases hnext

/-- Every key that a process remembers is one that a running call of it has. -/
def Attended (cfg : Config (signature host)) : Prop :=
  ∀ q handle, Remembers cfg.world q handle → cfg.log.any (Deployment.isCrash q) = false →
    ∃ c call, cfg.calls c = some call ∧ call.proc = q ∧
      (custodies host).state c cfg.log = some (.held handle)

/-- The step does not fail to close an audit: should a call stand before that access, the
file can be read and is replaced. -/
def ClosesAudit (cfg : Config (signature host)) : Step (signature host) → Prop
  | .run c input => ∀ call handle next, cfg.calls c = some call →
      call.program = .act (.completeAudit handle) next →
      input.io = .done ∧ ∃ state, readState host cfg.world.file = .ok state
  | _ => True

theorem completeAudit_closes {store : FileStore} {io : Io} {handle : Handle} {e : Thrown}
    (hio : io = .done) (hread : ∃ state, readState host store.file = .ok state) :
    (store.completeAudit host io handle).1 ≠ .error e := by
  obtain ⟨state, hstate⟩ := hread
  subst hio
  have haccess : withLockedState host store.file .done (FileStore.clearAudit handle) =
      (.ok (FileStore.clearAudit handle state).1,
        some (FileStore.clearAudit handle state).2.encode) := by
    simp only [withLockedState, hstate]
  intro herror
  simp only [FileStore.completeAudit, haccess] at herror
  split at herror <;> cases herror

/-- Only a call without a key is given one. -/
theorem free_of_given {s : Custody} {op : Op host} {a : Ans host op} {handle : Handle}
    (hgiven : Custody.free.next op a = .held handle) (hallowed : s.allowed op) : s = .free := by
  cases op with
  | begin key intent =>
      cases s with
      | free => rfl
      | held | stuck => exact False.elim hallowed
  | _ => cases hgiven

theorem next_held (handle : Handle) (op : Op host) (a : Ans host op) :
    (Custody.held handle).next op a = .held handle ∨ (Custody.held handle).next op a = .free ∨
      (Custody.held handle).next op a = .stuck := by
  cases op with
  | complete handle' result pendingAudit =>
      cases pendingAudit with
      | none => exact .inr (.inl rfl)
      | some event =>
          cases a with
          | error e => exact .inr (.inl rfl)
          | ok u => exact .inl rfl
  | completeAudit handle' =>
      cases a with
      | error e => exact .inr (.inr rfl)
      | ok u => exact .inr (.inl rfl)
  | failAudit | abort => exact .inr (.inl rfl)
  | _ => exact .inl rfl

theorem not_stuck (hstore : dep.store = .file) {p : Nat} {op : Op host} {i : Input}
    {w w' : World host} {a : Ans host op} (h : dep.perform p op i w = some (a, w'))
    (hcloses : ∀ handle, op = .completeAudit handle →
      i.io = .done ∧ ∃ state, readState host w.file = .ok state) (handle : Handle) :
    (Custody.held handle).next op a ≠ .stuck := by
  cases op with
  | completeAudit handle' =>
      simp only [Deployment.perform, Deployment.completeAudit, hstore, Option.some.injEq] at h
      cases h
      obtain ⟨hio, hread⟩ := hcloses handle' rfl
      cases hdone : ((w.fileStore p).completeAudit host i.io handle').1 with
      | error e => exact absurd hdone (completeAudit_closes hio hread)
      | ok u =>
          intro hstuck
          cases hstuck
  | complete handle' result pendingAudit =>
      intro hstuck
      cases pendingAudit with
      | none => cases hstuck
      | some event => cases a <;> cases hstuck
  | _ =>
      intro hstuck
      cases hstuck

theorem attended_act (hstore : dep.store = .file) {cfg : Config (signature host)}
    (hinv : Attended cfg) {c : Nat} {call call' : Call (signature host)} {s : Custody}
    {op : Op host} {i : Input} {a : Ans host op} {w : World host}
    {current : Nat → Option Nat} (hcall : cfg.calls c = some call) (hproc : call'.proc = call.proc)
    (hstate : (custodies host).state c cfg.log = some s) (hallowed : s.allowed op)
    (hperf : dep.perform call.proc op i cfg.world = some (a, w))
    (hcloses : ∀ handle, op = .completeAudit handle →
      i.io = .done ∧ ∃ state, readState host cfg.world.file = .ok state) :
    Attended
      ({ cfg with
        world := w
        calls := Function.update cfg.calls c (some call')
        current := current
        log := .did c op a :: cfg.log } : Config (signature host)) := by
  intro q handle hremembers hlive
  have hlive' : cfg.log.any (Deployment.isCrash q) = false := by
    simpa [Deployment.isCrash] using hlive
  have hnow : (custodies host).state c (.did c op a :: cfg.log) = some (s.next op a) :=
    Discipline.state_did_self hstate
  rcases perform_remembers hstore hperf hremembers with hold | ⟨rfl, hgiven⟩
  · obtain ⟨c₀, call₀, hcall₀, hproc₀, hstate₀⟩ := hinv q handle hold hlive'
    by_cases hc : c₀ = c
    · subst hc
      cases hcall.symm.trans hcall₀
      cases hstate.symm.trans hstate₀
      rcases next_held handle op a with hheld | hfree | hstuck
      · exact ⟨c₀, call', Function.update_self .., hproc.trans hproc₀, hnow.trans (by rw [hheld])⟩
      · rw [← hproc₀] at hremembers
        exact absurd hremembers (perform_forgets hstore hperf hallowed hfree)
      · exact absurd hstuck (not_stuck hstore hperf hcloses handle)
    · refine ⟨c₀, call₀, ?_, hproc₀, ?_⟩
      · rw [← hcall₀]
        exact Function.update_of_ne hc ..
      · rw [← hstate₀]
        exact Discipline.state_did (Ne.symm hc)
  · obtain rfl := free_of_given hgiven hallowed
    exact ⟨c, call', Function.update_self .., hproc, hnow.trans (by rw [hgiven])⟩

theorem attended_run (hstore : dep.store = .file) {cfg : Config (signature host)}
    (h : (dep.system host).Reachable cfg) (hinv : Attended cfg) {c : Nat} {input : Input}
    (hs : ClosesAudit cfg (.run c input)) :
    Attended ((dep.system host).step cfg (.run c input)) := by
  have hsound := Discipline.sound_reachable (followed dep host) h
  simp only [Machine.step, Machine.runStep]
  cases hcall : cfg.calls c with
  | none => exact hinv
  | some call =>
      obtain ⟨s, hstate, hobeys⟩ := hsound.stands c call hcall
      cases hprog : call.program with
      | done r => simpa only [hprog] using hinv
      | act op next =>
          simp only [hprog]
          split_ifs with hmay
          · cases hperf : (dep.system host).perform call.proc op input cfg.world with
            | none => exact hinv
            | some r =>
                obtain ⟨a, w⟩ := r
                rw [hprog] at hobeys
                exact attended_act hstore hinv hcall rfl hstate hobeys.1 hperf
                  fun handle hop => by subst hop; exact hs call handle _ hcall hprog
          · exact hinv

theorem attended_start {cfg : Config (signature host)} (h : (dep.system host).Reachable cfg)
    (hinv : Attended cfg) (p : Nat) (entry : Entry host) :
    Attended ((dep.system host).step cfg (.start p entry)) := by
  have hsound := Discipline.sound_reachable (followed dep host) h
  simp only [Machine.step, Machine.startStep]
  split_ifs
  · intro q handle hremembers hlive
    obtain ⟨c, call, hcall, hproc, hstate⟩ := hinv q handle hremembers hlive
    have hne : c ≠ cfg.next := by
      intro hc
      rw [hc, hsound.fresh _ (Nat.le_refl _)] at hcall
      cases hcall
    refine ⟨c, call, ?_, hproc, ?_⟩
    · rw [← hcall]
      exact Function.update_of_ne hne ..
    · rw [← hstate]
      exact Discipline.state_started (Ne.symm hne)
  · exact hinv

/-- A call that has a key does not end. -/
theorem attended_finish {cfg : Config (signature host)} (h : (dep.system host).Reachable cfg)
    (hinv : Attended cfg) (c : Nat) :
    Attended ((dep.system host).step cfg (.finish c)) := by
  have hsound := Discipline.sound_reachable (followed dep host) h
  simp only [Machine.step, Machine.finishStep]
  cases hcall : cfg.calls c with
  | none => exact hinv
  | some call =>
      obtain ⟨s, hstate, hobeys⟩ := hsound.stands c call hcall
      cases hprog : call.program with
      | act op next => simpa only [hprog] using hinv
      | done r =>
          simp only [hprog]
          split_ifs
          · intro q handle hremembers hlive
            obtain ⟨c₀, call₀, hcall₀, hproc₀, hstate₀⟩ := hinv q handle hremembers hlive
            have hne : c₀ ≠ c := by
              intro hc
              subst hc
              rw [hprog] at hobeys
              cases hstate.symm.trans hstate₀
              exact hobeys handle rfl
            refine ⟨c₀, call₀, ?_, hproc₀, hstate₀⟩
            rw [← hcall₀]
            exact Function.update_of_ne hne ..
          · exact hinv

theorem attended_crash {cfg : Config (signature host)} (hinv : Attended cfg) (p : Nat) :
    Attended ((dep.system host).step cfg (.crash p)) := by
  intro q handle hremembers hlive
  simp only [Machine.step, Machine.crashStep, List.any_cons, Bool.or_eq_false_iff] at hlive
  have hne : p ≠ q := by simpa only [Deployment.isCrash, beq_eq_false_iff_ne] using hlive.1
  obtain ⟨c, call, hcall, hproc, hstate⟩ := hinv q handle hremembers hlive.2
  refine ⟨c, call, ?_, hproc, hstate⟩
  simp only [Machine.step, Machine.crashStep, hcall]
  exact if_neg fun h => hne (h.symm.trans hproc)

theorem act_pending {x : Outside} {w w' : World host} (h : x.act w = some w') (q : Nat) :
    (w'.processes q).pending = (w.processes q).pending := by
  cases x with
  | createApproval params approvalId now timeout =>
      simp only [Outside.act] at h
      split_ifs at h
      cases h
      rfl
  | activate p scope | deactivate p scope =>
      cases h
      by_cases hq : q = p
      · rw [hq, World.update_self]
      · rw [World.update_of_ne w hq]
  | _ =>
      cases h
      rfl

theorem attended_outside {cfg : Config (signature host)} (hinv : Attended cfg) (x : Outside) :
    Attended ((dep.system host).step cfg (.outside x)) := by
  simp only [Machine.step, Machine.outsideStep]
  split_ifs
  · exact hinv
  · cases hact : (dep.system host).outside x cfg.world with
    | none => exact hinv
    | some w =>
        intro q handle hremembers hlive
        exact hinv q handle ((remembers_congr (act_pending hact q) handle).mp hremembers) hlive

theorem attended_step (hstore : dep.store = .file) {cfg : Config (signature host)}
    (h : (dep.system host).Reachable cfg) (hinv : Attended cfg) {step : Step (signature host)}
    (hs : ClosesAudit cfg step) : Attended ((dep.system host).step cfg step) := by
  cases step with
  | start p entry => exact attended_start h hinv p entry
  | run c input => exact attended_run hstore h hinv hs
  | finish c => exact attended_finish h hinv c
  | crash p => exact attended_crash hinv p
  | outside x => exact attended_outside hinv x

end Recovery

/-- A configuration that is reached without a failure to close an audit. -/
inductive Recoverable (dep : Deployment) : Config (signature host) → Prop
  | boot : Recoverable dep (Machine.boot (World.empty host))
  | step {cfg : Config (signature host)} (h : Recoverable dep cfg)
      {step : Step (signature host)} (closes : Recovery.ClosesAudit cfg step) :
      Recoverable dep ((dep.system host).step cfg step)

namespace Recovery

variable {cfg : Config (signature host)}

theorem reachable (h : Recoverable dep cfg) : (dep.system host).Reachable cfg := by
  induction h with
  | boot => exact .boot rfl
  | step _ _ ih => exact .step ih _

theorem attended (hstore : dep.store = .file) (h : Recoverable dep cfg) : Attended cfg := by
  induction h with
  | boot =>
      intro q handle hremembers
      obtain ⟨promise, hpromise⟩ := hremembers
      cases hpromise
  | step h closes ih => exact attended_step hstore (reachable h) ih closes

def Given (c : Nat) (scopedKey : String) (log : History host) : Prop :=
  ∃ key intent, .did c (.begin key intent) (.ok .reserved) ∈ log ∧
    (handleFor host key intent).scopedKey = scopedKey

theorem given_of_next {c : Nat} {op : Op host} {a : Ans host op} {handle : Handle}
    (h : Custody.free.next op a = .held handle) :
    ∃ key intent, handleFor host key intent = handle ∧
      (.did c op a : Event (signature host)) = .did c (.begin key intent) (.ok .reserved) := by
  cases op with
  | begin key intent =>
      rcases a with e | reservation
      · cases h
      · rcases reservation with _ | _ | _
        · injection h with h
          exact ⟨key, intent, h, rfl⟩
        · cases h
        · cases h
  | _ => cases h

theorem next_stuck (op : Op host) (a : Ans host op) : Custody.stuck.next op a = .stuck := by
  cases op <;> rfl

/-- A call that has a key was given it. -/
theorem given_of_state {log : History host} {c : Nat} {handle : Handle}
    (h : (custodies host).state c log = some (.held handle)) :
    Given c handle.scopedKey log := by
  have holder : ∀ {e : Event (signature host)} {log : History host},
      Given c handle.scopedKey log → Given c handle.scopedKey (e :: log) := by
    intro e log hgiven
    obtain ⟨key, intent, hmem, hkey⟩ := hgiven
    exact ⟨key, intent, List.mem_cons_of_mem _ hmem, hkey⟩
  induction log with
  | nil => cases h
  | cons e log ih =>
      cases e with
      | started c' q entry =>
          by_cases hc : c' = c
          · simp [Discipline.state, hc] at h
          · rw [Discipline.state_started hc] at h
            exact holder (ih h)
      | did c' op a =>
          by_cases hc : c' = c
          · subst hc
            simp only [Discipline.state, if_true, Option.map_eq_some_iff] at h
            obtain ⟨s, hs, hnext⟩ := h
            cases s with
            | free =>
                obtain ⟨key, intent, hhandle, hevent⟩ := given_of_next (c := c') hnext
                exact ⟨key, intent, hevent ▸ List.mem_cons_self, congrArg Handle.scopedKey hhandle⟩
            | stuck =>
                rw [next_stuck] at hnext
                cases hnext
            | held other =>
                rcases next_held other op a with hsame | hfree | hstuck
                · rw [hsame] at hnext
                  cases hnext
                  exact holder (ih hs)
                · rw [hfree] at hnext
                  cases hnext
                · rw [hstuck] at hnext
                  cases hnext
          · rw [Discipline.state_did hc] at h
            exact holder (ih h)
      | returned | crashed | outside => exact holder (ih h)

/-- Only the keys of running calls are remembered. -/
theorem pending_none (hstore : dep.store = .file) (h : Recoverable dep cfg) {p : Nat}
    (hlive : cfg.log.any (Deployment.isCrash p) = false) {scopedKey : String}
    (hidle : ∀ c call, cfg.calls c = some call → call.proc = p → ¬Given c scopedKey cfg.log) :
    (cfg.world.processes p).pending scopedKey = none := by
  cases hpending : (cfg.world.processes p).pending scopedKey with
  | none => rfl
  | some entry =>
      obtain ⟨payloadHash, promise⟩ := entry
      have hremembers : Remembers cfg.world p ⟨scopedKey, payloadHash⟩ := by
        refine ⟨promise, ?_⟩
        simp only [World.fileStore, FileLocal.held, hpending, if_true]
      obtain ⟨c, call, hcall, hproc, hstate⟩ := attended hstore h p _ hremembers hlive
      exact absurd (given_of_state hstate) (hidle c call hcall hproc)

end Recovery

def FileStore.opened (file : Option Json) (promises : Promises) : FileStore :=
  ⟨file, ⟨fun _ => none, promises⟩⟩

/-- A `begin` on the store object of a process does what it does on an object that was just
opened on the same file: the same answer, and the same file afterwards. -/
def BeginsAsReopened (w : World host) (p : Nat) (io : Io) (key : String)
    (intent : TradingIntent host) : Prop :=
  let here := (w.fileStore p).begin host io key intent
  let reopened := (FileStore.opened w.file w.promises).begin host io key intent
  here.1 = reopened.1 ∧ here.2.file = reopened.2.file

theorem begin_of_pending_none {store : FileStore} {io : Io} {key : String}
    {intent : TradingIntent host}
    (h : store.own.pending (handleFor host key intent).scopedKey = none) :
    (store.begin host io key intent).1 =
        ((FileStore.opened store.file store.own.promises).begin host io key intent).1 ∧
      (store.begin host io key intent).2.file =
        ((FileStore.opened store.file store.own.promises).begin host io key intent).2.file := by
  simp only [FileStore.begin, FileStore.opened, h]
  constructor <;> (repeat' split) <;> rfl

/-- A store that never failed to close an audit needs no restart. -/
theorem recovers_without_restart (hstore : dep.store = .file)
    {cfg : Config (signature host)} (h : Recoverable dep cfg) {p : Nat}
    (hlive : cfg.log.any (Deployment.isCrash p) = false) (key : String)
    (intent : TradingIntent host)
    (hidle : ∀ c call, cfg.calls c = some call → call.proc = p →
      ¬Recovery.Given c (handleFor host key intent).scopedKey cfg.log) (io : Io) :
    BeginsAsReopened cfg.world p io key intent :=
  begin_of_pending_none (Recovery.pending_none hstore h hlive hidle)

abbrev digestHost : Host := plainHost (fun _ => zeroDigest) fun _ _ => zeroDigest

def digestRun (steps : List (Step (signature digestHost))) : Config (signature digestHost) :=
  (paperDeployment.system digestHost).exec (Machine.boot (World.empty digestHost)) steps

theorem digestRun_reachable (steps : List (Step (signature digestHost))) :
    (paperDeployment.system digestHost).Reachable (digestRun steps) :=
  (paperDeployment.system digestHost).reachable_exec (.boot rfl) steps

def simulationIntentOf : TradingIntent digestHost := ⟨simulationIntent, by decide +kernel⟩

def simulationExecution : Entry digestHost :=
  .execute
    (.record [
      ("intent", some simulationIntent),
      ("intentId", some (.str "i")),
      ("outcome", some (.str "allow")),
      ("correlationId", some (.str "c")),
      ("decidedAt", some (.str "p")),
      ("decisionToken", some (.str zeroDigest))])
    none

def replies (reply : Reply) : Step (signature digestHost) :=
  .run 0 { Input.quiet with reply }

def accesses (io : Io) : Step (signature digestHost) :=
  .run 0 { Input.quiet with io }

def notBlocked : List (Step (signature digestHost)) :=
  List.replicate 3 (replies (.ok (some (.bool false))))

namespace Recovery

def beforeClosing (cfg : Config (signature host)) : Step (signature host) → Bool
  | .run c _ => match cfg.calls c with
    | none => false
    | some call => match call.program with
      | .act (.completeAudit _) _ => true
      | _ => false
  | _ => false

theorem closes_of_not_before {cfg : Config (signature host)} {step : Step (signature host)}
    (h : beforeClosing cfg step = false) : ClosesAudit cfg step := by
  cases step with
  | run c input =>
      intro call handle next hcall hprog
      simp only [beforeClosing, hcall, hprog] at h
      cases h
  | _ => exact True.intro

def neverCloses (dep : Deployment) (cfg : Config (signature host)) :
    List (Step (signature host)) → Bool
  | [] => true
  | step :: steps =>
      !beforeClosing cfg step && neverCloses dep ((dep.system host).step cfg step) steps

theorem recoverable_exec {cfg : Config (signature host)} {steps : List (Step (signature host))}
    (h : Recoverable dep cfg) (hsteps : neverCloses dep cfg steps = true) :
    Recoverable dep ((dep.system host).exec cfg steps) := by
  induction steps generalizing cfg with
  | nil => exact h
  | cons step steps ih =>
      rw [neverCloses, Bool.and_eq_true, Bool.not_eq_true'] at hsteps
      exact ih (h.step (closes_of_not_before hsteps.1)) hsteps.2

end Recovery

/-- The only call of a run has ended. -/
theorem idle_of_ended {cfg : Config (signature host)} (h : (dep.system host).Reachable cfg)
    (hnext : cfg.next = 1) (hended : (cfg.calls 0).isNone = true) (c : Nat) :
    cfg.calls c = none := by
  have hsound := Discipline.sound_reachable (Recovery.followed dep host) h
  by_cases hc : c = 0
  · subst hc
    exact Option.isNone_iff_eq_none.mp hended
  · exact hsound.fresh c (by omega)

def unreservedRun : List (Step (signature digestHost)) := [
  .start 0 simulationExecution,
  accesses .done,
  accesses .done,
  accesses (.failAfter (.ofMessage "disk")),
  .finish 0]

theorem recovers_without_restart_unreserved :
    (digestRun unreservedRun).world.file.isSome = true ∧
      BeginsAsReopened (digestRun unreservedRun).world 0 .done "k" simulationIntentOf := by
  have hruns : (digestRun unreservedRun).next = 1 ∧
      ((digestRun unreservedRun).calls 0).isNone = true ∧
      (digestRun unreservedRun).log.any (Deployment.isCrash 0) = false ∧
      (digestRun unreservedRun).world.file.isSome = true := by decide +kernel
  obtain ⟨hnext, hended, hlive, hfile⟩ := hruns
  have hrecoverable : Recoverable paperDeployment (digestRun unreservedRun) :=
    Recovery.recoverable_exec .boot (by decide +kernel)
  refine ⟨hfile, recovers_without_restart rfl hrecoverable hlive _ _ ?_ _⟩
  intro c call hcall
  cases (idle_of_ended (digestRun_reachable unreservedRun) hnext hended c).symm.trans hcall

/-- The connector fails, its failure is recorded and audited, and then the store fails to
close the audit. -/
def unclosedRun : List (Step (signature digestHost)) :=
  .start 0 simulationExecution :: (List.replicate 3 (accesses .done) ++ notBlocked ++
    [replies (.ok (some (.record [("passed", some (.bool true))]))), accesses .done] ++
    notBlocked ++ [accesses .done, replies (.error (.ofMessage "unreachable")), accesses .done,
      accesses .done, accesses (.failBefore (.ofMessage "disk")), .finish 0])

def answersRejected (w : World host) : Except Thrown Reservation → Bool
  | .ok (.pending (.shared promise)) => match w.promises.settled promise with
    | some (.error _) => true
    | _ => false
  | _ => false

def answersUnaudited : Except Thrown Reservation → Bool
  | .ok (.cached _ (some _)) => true
  | _ => false

/-- `completeAudit` rejects the promise of the key when its write fails, but unlike
`complete` it leaves the key pending. No call is left, but the object answers with the rejected
promise, where a reopened one finds the result and the event that is still to be written. -/
theorem unclosed_audit_pins_key :
    let cfg := digestRun unclosedRun
    let reopened := FileStore.opened cfg.world.file cfg.world.promises
    (paperDeployment.system digestHost).Reachable cfg ∧
      cfg.log.any (Deployment.isCrash 0) = false ∧ (∀ c, cfg.calls c = none) ∧
      answersRejected cfg.world
        ((cfg.world.fileStore 0).begin digestHost .done "k" simulationIntentOf).1 = true ∧
      answersUnaudited (reopened.begin digestHost .done "k" simulationIntentOf).1 = true ∧
      ¬BeginsAsReopened cfg.world 0 .done "k" simulationIntentOf := by
  intro cfg reopened
  have hreach : (paperDeployment.system digestHost).Reachable cfg := digestRun_reachable unclosedRun
  have hruns : cfg.next = 1 ∧ (cfg.calls 0).isNone = true ∧
      cfg.log.any (Deployment.isCrash 0) = false ∧
      answersRejected cfg.world
        ((cfg.world.fileStore 0).begin digestHost .done "k" simulationIntentOf).1 = true ∧
      answersUnaudited (reopened.begin digestHost .done "k" simulationIntentOf).1 = true := by
    decide +kernel
  obtain ⟨hnext, hended, hlive, hhere, hreopened⟩ := hruns
  refine ⟨hreach, hlive, idle_of_ended hreach hnext hended, hhere, hreopened, ?_⟩
  intro hsame
  have hcached : answersRejected cfg.world
      (reopened.begin digestHost .done "k" simulationIntentOf).1 = true := hsame.1 ▸ hhere
  unfold answersUnaudited at hreopened
  split at hreopened
  · next hanswer =>
      rw [hanswer] at hcached
      cases hcached
  · cases hreopened

end TradingGuardrails
