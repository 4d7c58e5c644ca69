import TradingGuardrails.Broker.Watch
import TradingGuardrails.System.Authority

/-!
The kill switch stops submissions. From the moment at which a scope is activated in a
process until it is deactivated there, no call of the process enters the connector for an
intent of this scope, and no callback lets a connector go on; cancellations may pass. A
process does one thing at a time, and a call reads the switch after its last suspension.
-/
namespace TradingGuardrails

open Text Interleaving

variable {host : Host} {dep : Deployment} {cfg : Config (signature host)}

/-- Whether a scope was activated in a process and not deactivated since. -/
def Activated (p : Nat) (scope : KillSwitchScope) : History host → Prop
  | [] => False
  | .outside (.activate q other) :: log => (q = p ∧ other = scope) ∨ Activated p scope log
  | .outside (.deactivate q other) :: log => ¬(q = p ∧ other = scope) ∧ Activated p scope log
  | _ :: log => Activated p scope log

/-- Some scope of the intent, or every intent, is stopped in a process. -/
def Stopped (p : Nat) (intent : TradingIntent host) (log : History host) : Prop :=
  ∃ scope ∈ getKillSwitchScopes intent, Activated p scope log

namespace KillSwitch

abbrev watching (host : Host) : Discipline (signature host) where
  State := Entry host × Watch
  next s op a := (s.1, s.2.next op a)
  allowed s op := s.2.allowed op
  start _ e := (e, [])
  final s r := match s.1, r with
    | .callback _ request, .calledBack (.ok ()) => s.2.Clear request.intent
    | _, _ => True

/-- A routine makes a call that obeys the contract of its entry. -/
theorem obeys_run {σ α : Type} {m : Script host σ α} {init : σ} {ret : Except Thrown α → Ret}
    {entry : Entry host} {ok : Watch → σ → α → Prop}
    (h : Routine.Obeys (Watch.contract host) ok (fun _ _ _ => True) [] init m)
    (hok : ∀ s l a, ok s l a → (watching host).final (entry, s) (ret (.ok a)))
    (herr : ∀ s e, (watching host).final (entry, s) (ret (.error e))) :
    (run m init ret).Obeys (watching host).toContract (watching host).final (entry, []) := by
  have hrun : (run m init ret).Obeys (Watch.contract host)
      (fun s r => (watching host).final (entry, s) r) [] := by
    rw [run, Program.obeys_bind]
    refine Program.Obeys.mono h ?_
    rintro s ⟨r, l⟩ hr
    cases r with
    | ok a => exact hok s l a hr
    | error e => exact herr s e
  refine hrun.embed (watching host).toContract (fun s => (entry, s)) ?_ ?_ ?_
  · exact fun _ _ _ _ => rfl
  · exact fun _ _ h => h
  · exact fun _ _ h => h

/-- A routine that stays away from the connector obeys the contract of its entry. -/
theorem obeys_run_elsewhere {σ α : Type} {C : Contract (Op host) (Ans host)} {m : Script host σ α}
    {init : σ} {ret : Except Thrown α → Ret} {entry : Entry host} {s : C.State}
    {ok : C.State → σ → α → Prop} {err : C.State → σ → Thrown → Prop}
    (h : Routine.Obeys C ok err s init m)
    (hallowed : ∀ s op, C.allowed s op → Watch.Elsewhere op)
    (hfinal : ∀ s r, (watching host).final (entry, s) (ret r)) :
    (run m init ret).Obeys (watching host).toContract (watching host).final (entry, []) := by
  have hwithin : (m init).Within Watch.Elsewhere := Program.Obeys.within h hallowed
  have hobeys : Routine.Obeys (Watch.contract host) (fun _ _ _ => True) (fun _ _ _ => True) []
      init m := by
    refine Program.Within.obeys (C := Watch.contract host) hwithin Watch.allowed_elsewhere ?_ []
    rintro s ⟨r, l⟩
    cases r <;> exact True.intro
  exact obeys_run hobeys (fun s _ a _ => hfinal s (.ok a)) fun s e => hfinal s (.error e)

theorem watched (dep : Deployment) (host : Host) :
    (watching host).Followed (dep.system host) := by
  intro p e
  cases e with
  | execute approval authorization =>
      exact obeys_run (Watch.obeys_execute (dep.broker p) approval authorization)
        (fun _ _ _ _ => True.intro) fun _ _ => True.intro
  | dryRun approval =>
      refine obeys_run_elsewhere (obeys_dryRun (dep.broker p) approval) (fun s op h => ?_)
        fun _ _ => True.intro
      cases op with
      | enterConnector intent => exact h
      | _ => exact True.intro
  | evaluate rawIntent options =>
      refine obeys_run_elsewhere (obeys_evaluate (dep.service p) rawIntent options)
        (fun s op h => ?_) fun _ _ => True.intro
      cases op with
      | enterConnector intent => exact h
      | _ => exact True.intro
  | callback parent request =>
      exact obeys_run (Watch.obeys_beforeSideEffect (dep.broker p) request)
        (fun _ _ _ h => h) fun _ _ => True.intro

theorem active_of_act {x : Outside} {w w' : World host} (h : x.act w = some w')
    (hplace : x.place = none) (p : Nat) :
    (w'.processes p).active = (w.processes p).active := by
  cases x with
  | createApproval params id now timeout =>
      simp only [Outside.act] at h
      split_ifs at h
      cases h
      rfl
  | activate | deactivate => cases hplace
  | _ =>
      cases h
      rfl

theorem activated_cons {p : Nat} {scope : KillSwitchScope} {event : Event (signature host)}
    {log : History host} (h : ∀ x, event = .outside x → x.place = none) :
    Activated p scope (event :: log) ↔ Activated p scope log := by
  cases event with
  | outside x =>
      have hplace := h x rfl
      cases x with
      | activate | deactivate => cases hplace
      | _ => exact Iff.rfl
  | _ => exact Iff.rfl

/-- The switch of a process says what was done to it. -/
theorem active_reachable (h : (dep.system host).Reachable cfg) (p : Nat) (scope : KillSwitchScope) :
    scope ∈ (cfg.world.processes p).active ↔ Activated p scope cfg.log := by
  refine @Discipline.invariant _ _ _ (dep.followed host) (fun cfg =>
    scope ∈ (cfg.world.processes p).active ↔ Activated p scope cfg.log) ?_ ?_ _ h
  · rintro w rfl
    exact iff_of_false List.not_mem_nil id
  intro cfg cfg' _ _ hinv hmove
  cases hmove with
  | start | finish | crash => exact hinv
  | act live program state allowed turn performed =>
      dsimp only
      rw [(dep.perform_frame performed).active p]
      exact hinv
  | @outside x w rests acted =>
      dsimp only
      cases hplace : x.place with
      | none =>
          rw [active_of_act acted hplace p, activated_cons (fun y hy => by cases hy; exact hplace)]
          exact hinv
      | some q =>
          cases x with
          | activate proc other =>
              cases acted
              by_cases hp : proc = p
              · subst hp
                rw [World.update_self]
                refine List.mem_cons.trans (or_congr ?_ hinv)
                exact ⟨fun h => ⟨rfl, h.symm⟩, fun h => h.2.symm⟩
              · rw [World.update_of_ne _ (Ne.symm hp), hinv]
                exact (or_iff_right fun h => hp h.1).symm
          | deactivate proc other =>
              cases acted
              by_cases hp : proc = p
              · subst hp
                rw [World.update_self, List.mem_filter, hinv, and_comm]
                refine and_congr ?_ Iff.rfl
                rw [decide_eq_true_eq]
                exact not_congr ⟨fun h => ⟨rfl, h.symm⟩, fun h => h.2.symm⟩
              · rw [World.update_of_ne _ (Ne.symm hp), hinv]
                exact (and_iff_right fun h => hp h.1).symm
          | _ => cases hplace

/-- Nothing stops an intent of which all scopes are inactive. -/
theorem not_stopped (h : (dep.system host).Reachable cfg) {p : Nat} {intent : TradingIntent host}
    (hidle : ∀ scope ∈ getKillSwitchScopes intent,
      Deployment.isActive (cfg.world.processes p) scope = false) :
    ¬Stopped p intent cfg.log := by
  rintro ⟨scope, hscope, hactivated⟩
  have hinactive := hidle scope hscope
  simp only [Deployment.isActive, Bool.or_eq_false_iff, List.contains_eq_mem,
    decide_eq_false_iff_not] at hinactive
  exact hinactive.2 ((active_reachable h p scope).mpr hactivated)

/-- The scopes that the current call of a process found inactive are inactive, unless the
call is suspended. -/
def Knows (dep : Deployment) (cfg : Config (signature host)) : Prop :=
  ∀ p c call s, cfg.current p = some c → cfg.calls c = some call →
    (watching host).state c cfg.log = some s →
    (dep.system host).waiting call.program = false →
    ∀ scope ∈ s.2, Deployment.isActive (cfg.world.processes p) scope = false

theorem isActive_of_active {l l' : Local} (h : l'.active = l.active) (scope : KillSwitchScope) :
    Deployment.isActive l' scope = Deployment.isActive l scope := by
  simp only [Deployment.isActive, h]

theorem next_idle (hswitch : dep.killSwitch = .implemented) {p : Nat} {op : Op host} {i : Input}
    {w w' : World host} {a : Ans host op} (performed : dep.perform p op i w = some (a, w'))
    (hop : waits host op = false) {s : Watch}
    (hs : ∀ scope ∈ s, Deployment.isActive (w.processes p) scope = false) :
    ∀ scope ∈ s.next op a, Deployment.isActive (w'.processes p) scope = false := by
  intro scope hscope
  rw [isActive_of_active ((dep.perform_frame performed).active p)]
  unfold Watch.next at hscope
  split at hscope
  · rename_i found
    rcases List.mem_cons.mp hscope with rfl | hscope
    · simp only [Deployment.perform, Deployment.killSwitchIsActive, hswitch, Option.some.injEq,
        Prod.mk.injEq, Except.ok.injEq, Json.bool.injEq] at performed
      exact performed.1
    · exact hs scope hscope
  · rw [hop] at hscope
    exact hs scope hscope

namespace Knows

variable {c : Nat} {call : Call (signature host)}

/-- A call that starts has not read the switch. -/
theorem start (h : Knows dep cfg) (hsound : (watching host).Sound (dep.system host) cfg) {q : Nat}
    {entry : Entry host} :
    Knows dep { cfg with
      calls := Function.update cfg.calls cfg.next
        (some ⟨q, entry, (dep.system host).program q entry⟩)
      current := Function.update cfg.current q (some cfg.next)
      next := cfg.next + 1
      log := .started cfg.next q entry :: cfg.log } := by
  intro p c call s hcurrent hlive hs hwaits
  by_cases hp : p = q
  · subst hp
    cases (Function.update_self ..).symm.trans hcurrent
    rw [Discipline.state, if_pos rfl] at hs
    cases hs
    intro scope hscope
    cases hscope
  · have hcurrent : cfg.current p = some c := (Function.update_of_ne hp _ _).symm.trans hcurrent
    have hne : c ≠ cfg.next := by
      intro hc
      obtain ⟨call', hcall', -⟩ := hsound.current p c hcurrent
      rw [hsound.fresh c hc.ge] at hcall'
      cases hcall'
    rw [Discipline.state_started (Ne.symm hne)] at hs
    exact h p c call s hcurrent ((Function.update_of_ne hne _ _).symm.trans hlive) hs hwaits

/-- A call that was suspended knows nothing any more. -/
theorem suspended {s : Watch} {op : Op host} {a : Ans host op} (hop : waits host op = true) :
    s.next op a = [] := by
  unfold Watch.next
  split
  · cases hop
  · rw [hop, if_pos rfl]

theorem act_self (hswitch : dep.killSwitch = .implemented) (h : Knows dep cfg)
    {s : Entry host × Watch} {op : Op host}
    {next : Ans host op → Program (Op host) (Ans host) Ret} {i : Input} {a : Ans host op}
    {w : World host} (live : cfg.calls c = some call) (program : call.program = .act op next)
    (state : (watching host).state c cfg.log = some s)
    (turn : cfg.current call.proc = some c ∨
      (watching host).Rests (dep.system host) cfg call.proc ∧ waits host op = true)
    (performed : dep.perform call.proc op i cfg.world = some (a, w)) :
    ∀ scope ∈ s.2.next op a, Deployment.isActive (w.processes call.proc) scope = false := by
  cases hop : waits host op with
  | true =>
      intro scope hscope
      rw [suspended hop] at hscope
      cases hscope
  | false =>
      have hturn : cfg.current call.proc = some c := by
        cases turn with
        | inl hturn => exact hturn
        | inr hrests => cases hop.symm.trans hrests.2
      apply next_idle hswitch performed hop
      apply h _ c call s hturn live state
      rw [program]
      exact hop

theorem act (hswitch : dep.killSwitch = .implemented) (h : Knows dep cfg)
    (hsound : (watching host).Sound (dep.system host) cfg) {s : Entry host × Watch} {op : Op host}
    {next : Ans host op → Program (Op host) (Ans host) Ret} {i : Input} {a : Ans host op}
    {w : World host} (live : cfg.calls c = some call) (program : call.program = .act op next)
    (state : (watching host).state c cfg.log = some s)
    (turn : cfg.current call.proc = some c ∨
      (watching host).Rests (dep.system host) cfg call.proc ∧ waits host op = true)
    (performed : dep.perform call.proc op i cfg.world = some (a, w)) :
    Knows dep { cfg with
      world := w
      calls := Function.update cfg.calls c (some { call with program := next a })
      current := Function.update cfg.current call.proc (some c)
      log := .did c op a :: cfg.log } := by
  intro p c' call' s' hcurrent hlive hs hwaits
  by_cases hp : p = call.proc
  · subst hp
    cases (Function.update_self ..).symm.trans hcurrent
    cases (Function.update_self ..).symm.trans hlive
    rw [Discipline.state_did_self state] at hs
    cases hs
    exact act_self hswitch h live program state turn performed
  · have hcurrent : cfg.current p = some c' := (Function.update_of_ne hp _ _).symm.trans hcurrent
    obtain ⟨owner, howner, hproc⟩ := hsound.current p c' hcurrent
    have hne : c' ≠ c := by
      intro hc
      subst hc
      cases howner.symm.trans live
      exact hp hproc.symm
    rw [Discipline.state_did (Ne.symm hne)] at hs
    have hlive : cfg.calls c' = some call' := (Function.update_of_ne hne _ _).symm.trans hlive
    intro scope hscope
    rw [isActive_of_active ((dep.perform_frame performed).active p)]
    exact h p c' call' s' hcurrent hlive hs hwaits scope hscope

theorem finish (h : Knows dep cfg) {r : Ret} :
    Knows dep { cfg with
      calls := Function.update cfg.calls c none
      current := Function.update cfg.current call.proc none
      log := .returned c r :: cfg.log } := by
  intro p c' call' s hcurrent hlive hs hwaits
  have hp : p ≠ call.proc := by
    intro hp
    subst hp
    cases (Function.update_self ..).symm.trans hcurrent
  have hne : c' ≠ c := by
    intro hc
    subst hc
    cases (Function.update_self ..).symm.trans hlive
  exact h p c' call' s ((Function.update_of_ne hp _ _).symm.trans hcurrent)
    ((Function.update_of_ne hne _ _).symm.trans hlive) hs hwaits

theorem crash (h : Knows dep cfg) (hsound : (watching host).Sound (dep.system host) cfg)
    {q : Nat} : Knows dep ((dep.system host).crashStep cfg q) := by
  intro p c call s hcurrent hlive hs hwaits
  have hp : p ≠ q := by
    intro hp
    subst hp
    cases (Function.update_self ..).symm.trans hcurrent
  have hcurrent : cfg.current p = some c := (Function.update_of_ne hp _ _).symm.trans hcurrent
  obtain ⟨owner, howner, hproc⟩ := hsound.current p c hcurrent
  simp only [Machine.crashStep, howner, hproc, if_neg hp] at hlive
  cases hlive
  exact h p c call s hcurrent howner hs hwaits

/-- The environment does something to a process only while the process rests. -/
theorem outside (h : Knows dep cfg) {x : Outside} {w : World host}
    (rests : ∀ p, x.place = some p → (watching host).Rests (dep.system host) cfg p)
    (acted : x.act cfg.world = some w) :
    Knows dep { cfg with world := w, log := .outside x :: cfg.log } := by
  intro p c call s hcurrent hlive hs hwaits scope hscope
  have hidle := h p c call s hcurrent hlive hs hwaits scope hscope
  cases hplace : x.place with
  | none => rwa [isActive_of_active (active_of_act acted hplace p)]
  | some q =>
      have hp : p ≠ q := by
        intro hp
        subst hp
        obtain ⟨call', st, op, next, hcall', hprogram, hwait, -⟩ := rests p hplace c hcurrent
        cases hlive.symm.trans hcall'
        rw [hprogram] at hwaits
        cases hwaits.symm.trans hwait
      have hother : w.processes p = cfg.world.processes p := by
        cases x with
        | activate proc other | deactivate proc other =>
            cases hplace
            cases acted
            exact World.update_of_ne _ hp _
        | _ => cases hplace
      rwa [hother]

end Knows

theorem knows_reachable (hswitch : dep.killSwitch = .implemented)
    (h : (dep.system host).Reachable cfg) : Knows dep cfg := by
  refine Discipline.invariant (watched dep host) ?_ ?_ h
  · intro w _ p c call s hcurrent
    cases hcurrent
  intro cfg cfg' _ hsound hknows hmove
  cases hmove with
  | start rests enabled => exact hknows.start hsound
  | act live program state allowed turn performed =>
      exact hknows.act hswitch hsound live program state turn performed
  | finish live state final turn => exact hknows.finish
  | crash => exact hknows.crash hsound
  | outside rests acted => exact hknows.outside rests acted

/-- A call knows the entry that it was started with. -/
theorem entry_of_state (h : (dep.system host).Reachable cfg) {c p : Nat} {entry : Entry host}
    {s : Entry host × Watch} (hs : (watching host).state c cfg.log = some s)
    (hentry : entryOf c cfg.log = some (p, entry)) : s.1 = entry := by
  have hkept := (Discipline.sound_reachable (watched dep host) h).kept
  obtain ⟨q, entry', hentry', hsame⟩ := hkept.state_invariant
    (P := fun _ entry (s : Entry host × Watch) => s.1 = entry) (fun _ _ => rfl)
    (fun _ _ _ _ _ h _ => h) hs
  cases hentry.symm.trans hentry'
  exact hsame

/-- What the current call of a process found inactive does not stop its intent. -/
theorem not_stopped_of_clear (hswitch : dep.killSwitch = .implemented)
    (h : (dep.system host).Reachable cfg) {c : Nat} {call : Call (signature host)}
    {s : Entry host × Watch} (hlive : cfg.calls c = some call)
    (hturn : cfg.current call.proc = some c)
    (hwaits : (dep.system host).waiting call.program = false)
    (hs : (watching host).state c cfg.log = some s) {intent : TradingIntent host}
    (hclear : s.2.Clear intent) (haction : intent.action ≠ .cancelOrder) {p : Nat}
    {entry : Entry host} (hentry : entryOf c cfg.log = some (p, entry)) :
    ¬Stopped p intent cfg.log := by
  have haccounted := Discipline.accounted_reachable (watched dep host) h
  cases hentry.symm.trans (haccounted.entry c call hlive)
  refine not_stopped h fun scope hscope => ?_
  exact knows_reachable hswitch h _ c call s hturn hlive hs hwaits scope
    (hclear haction scope hscope)

end KillSwitch

structure StopHolds (log : History host) : Prop where
  entered : ∀ (newer older : History host) c p entry (intent : TradingIntent host),
    log = newer ++ .did c (.enterConnector intent) () :: older →
    entryOf c older = some (p, entry) → intent.action ≠ .cancelOrder → ¬Stopped p intent older
  calledBack : ∀ (newer older : History host) c p parent (request : Request host),
    log = newer ++ .returned c (.calledBack (.ok ())) :: older →
    entryOf c older = some (p, .callback parent request) →
    request.intent.action ≠ .cancelOrder → ¬Stopped p request.intent older

theorem stop_holds (hswitch : dep.killSwitch = .implemented)
    (h : (dep.system host).Reachable cfg) : StopHolds cfg.log where
  entered newer older c p entry intent hlog hentry haction := by
    obtain ⟨before, step, steps, hbefore, rfl, hstep, -⟩ := h.past hlog
    have hmove := Discipline.step_move (KillSwitch.watched dep host) hbefore step hstep
    generalize (dep.system host).step before step = after at hmove hstep
    cases hmove with
    | @act c₀ call s op next i a w live program state allowed turn performed =>
        cases hstep
        have hturn : before.current call.proc = some c := by
          rcases turn with hturn | ⟨-, hwait⟩
          · exact hturn
          · cases hwait
        refine KillSwitch.not_stopped_of_clear hswitch hbefore live hturn ?_ state allowed haction
          hentry
        rw [program]
        rfl
    | start | finish | crash | outside => cases hstep
  calledBack newer older c p parent request hlog hentry haction := by
    obtain ⟨before, step, steps, hbefore, rfl, hstep, -⟩ := h.past hlog
    have hsound := Discipline.sound_reachable (KillSwitch.watched dep host) hbefore
    have hmove := Discipline.step_move (KillSwitch.watched dep host) hbefore step hstep
    obtain ⟨call', hcall', hdone⟩ := Machine.returned_done hstep
    generalize (dep.system host).step before step = after at hmove hstep
    cases hmove with
    | @finish c₀ call s r live state final turn =>
        cases hstep
        cases hcall'.symm.trans live
        have hwaits : (dep.system host).waiting call'.program = false := by
          rw [hdone]
          rfl
        have hclear : s.2.Clear request.intent := by
          have hserves := KillSwitch.entry_of_state hbefore state hentry
          have final : (KillSwitch.watching host).final s (.calledBack (.ok ())) := final
          simpa only [hserves] using final
        exact KillSwitch.not_stopped_of_clear hswitch hbefore live turn hwaits state hclear haction
          hentry
    | start | act | crash | outside => cases hstep

def switchDeployment : Deployment := { paperDeployment with killSwitch := .implemented }

def releasedSteps : List (Step (signature digestHost)) :=
  [.outside (.activate 0 (.agent "p")), .outside (.deactivate 0 (.agent "p")),
    .start 0 simulationExecution] ++ quietly 0 6 ++
    [told 0 (.record [("passed", some (.bool true))])] ++ quietly 0 5

def releasedRun : Config (signature digestHost) :=
  (switchDeployment.system digestHost).exec (Machine.boot (World.empty digestHost)) releasedSteps

theorem stop_holds_released :
    releasedRun.log.any (submits 0 simulationIntentOf) = true ∧ StopHolds releasedRun.log := by
  have hrun : releasedRun.log.any (submits 0 simulationIntentOf) = true := by decide +kernel
  exact ⟨hrun, stop_holds rfl
    ((switchDeployment.system digestHost).reachable_exec (.boot rfl) releasedSteps)⟩

end TradingGuardrails
