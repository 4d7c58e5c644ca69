import TradingGuardrails.Broker.Rehearsal
import TradingGuardrails.Interleaving.History
import TradingGuardrails.Service.Obedience
import TradingGuardrails.System.System

/-!
The contract of the system: a call of each kind of entry obeys the contract of its kind.
So whatever is known of the attempts, rehearsals, appraisals and last checks holds of the
calls of every run.
-/
namespace TradingGuardrails

open Text Interleaving

inductive Progress (host : Host) where
  | executing (s : Attempt)
  | rehearsing (s : Rehearsal)
  | appraising (s : Appraisal)
  | checking (s : LastCheck host)

structure CallState (host : Host) where
  proc : Nat
  progress : Progress host

namespace Progress

variable {host : Host}

def next : Progress host → (op : Op host) → Ans host op → Progress host
  | .executing s, op, a => .executing (s.next op a)
  | .rehearsing s, op, a => .rehearsing (s.next op a)
  | .appraising s, op, a => .appraising (s.next op a)
  | .checking s, op, a => .checking (s.next op a)

def allowed : Progress host → Op host → Prop
  | .executing s, op => s.allowed op
  | .rehearsing _, op => Rehearsal.allowed op
  | .appraising s, op => s.allowed op
  | .checking _, op => LastCheck.allowed op

def final : Progress host → Ret → Prop
  | .executing s, .executed r => s.final r
  | .rehearsing s, .reported r => s.final host r
  | .appraising s, .decided r => s.final host r
  | .checking s, .calledBack r => s.final r
  | _, _ => False

end Progress

namespace Deployment

variable (dep : Deployment) {host : Host}

def firstProgress (p : Nat) : Entry host → Progress host
  | .execute approval authorization => .executing
      { broker := dep.broker p, approval := approval, dryRunAuthorization := authorization }
  | .dryRun approval => .rehearsing { broker := dep.broker p, approval := approval }
  | .evaluate rawIntent options => .appraising
      { service := dep.service p, rawIntent := rawIntent, options := options }
  | .callback _ request => .checking { broker := dep.broker p, request := request }

abbrev discipline (host : Host) : Discipline (signature host) where
  State := CallState host
  next s op a := ⟨s.proc, s.progress.next op a⟩
  allowed s op := s.progress.allowed op
  start p e := ⟨p, dep.firstProgress p e⟩
  final s r := s.progress.final r

variable {dep}

/-- A routine that obeys the contract of its kind makes a call of the system that does. -/
theorem obeys_run {C : Contract (Op host) (Ans host)} (f : C.State → CallState host)
    (next : ∀ s op a, (dep.discipline host).next (f s) op a = f (C.next s op a))
    (allowed : ∀ s op, C.allowed s op → (dep.discipline host).allowed (f s) op)
    {σ α : Type} {m : Script host σ α} {init : σ} {ret : Except Thrown α → Ret} {s : C.State}
    {final : C.State → Except Thrown α → Prop}
    (hfinal : ∀ s r, final s r → (dep.discipline host).final (f s) (ret r))
    (h : Routine.Obeys C (fun s _ r => final s (.ok r)) (fun s _ e => final s (.error e)) s
      init m) :
    (run m init ret).Obeys (dep.discipline host).toContract (dep.discipline host).final
      (f s) := by
  have hrun : (run m init ret).Obeys C (fun s r => (dep.discipline host).final (f s) r) s := by
    rw [run, Program.obeys_bind]
    refine Program.Obeys.mono h ?_
    rintro s ⟨r, l⟩ hr
    cases r <;> exact hfinal s _ hr
  exact hrun.embed (dep.discipline host).toContract f (fun s op a _ => next s op a) allowed
    fun _ _ h => h

theorem followed (dep : Deployment) (host : Host) :
    (dep.discipline host).Followed (dep.system host) := by
  intro p e
  cases e with
  | execute approval authorization =>
      exact obeys_run (C := Attempt.contract host) (fun s => ⟨p, .executing s⟩)
        (fun _ _ _ => rfl) (fun _ _ h => h) (fun _ _ h => h)
        (obeys_execute (dep.broker p) approval authorization)
  | dryRun approval =>
      exact obeys_run (C := Rehearsal.contract host) (fun s => ⟨p, .rehearsing s⟩)
        (fun _ _ _ => rfl) (fun _ _ h => h) (fun _ _ h => h) (obeys_dryRun (dep.broker p) approval)
  | evaluate rawIntent options =>
      exact obeys_run (C := Appraisal.contract host) (fun s => ⟨p, .appraising s⟩)
        (fun _ _ _ => rfl) (fun _ _ h => h) (fun _ _ h => h)
        (obeys_evaluate (dep.service p) rawIntent options)
  | callback parent request =>
      exact obeys_run (C := LastCheck.contract host) (fun s => ⟨p, .checking s⟩)
        (fun _ _ _ => rfl) (fun _ _ h => h) (fun _ _ h => h)
        (obeys_beforeSideEffect (dep.broker p) request)

def Serves (dep : Deployment) (p : Nat) : Entry host → Progress host → Prop
  | .execute approval authorization, .executing s =>
      s.broker = dep.broker p ∧ s.approval = approval ∧ s.dryRunAuthorization = authorization
  | .dryRun approval, .rehearsing s => s.broker = dep.broker p ∧ s.approval = approval
  | .evaluate rawIntent options, .appraising s =>
      s.service = dep.service p ∧ s.rawIntent = rawIntent ∧ s.options = options
  | .callback _ request, .checking s => s.broker = dep.broker p ∧ s.request = request
  | _, _ => False

theorem serves_next {p : Nat} {entry : Entry host} {progress : Progress host} {op : Op host}
    {a : Ans host op} (h : dep.Serves p entry progress) :
    dep.Serves p entry (progress.next op a) := by
  cases entry <;> cases progress
  case dryRun.rehearsing approval s =>
      have hsame : (s.next op a).broker = s.broker ∧ (s.next op a).approval = s.approval := by
        cases op with
        | auditWrite event => cases a <;> exact ⟨rfl, rfl⟩
        | _ => exact ⟨rfl, rfl⟩
      exact ⟨hsame.1.trans h.1, hsame.2.trans h.2⟩
  case callback.checking parent request s =>
      have hsame : (s.next op a).broker = s.broker ∧ (s.next op a).request = s.request := by
        cases op <;> exact ⟨rfl, rfl⟩
      exact ⟨hsame.1.trans h.1, hsame.2.trans h.2⟩
  case execute.executing | evaluate.appraising => exact h
  all_goals exact False.elim h

/-- A call knows the entry that it was started with. -/
theorem serves_of_state {log : History host} (h : (dep.discipline host).Kept log) {c : Nat}
    {st : CallState host} (hs : (dep.discipline host).state c log = some st) :
    ∃ entry, entryOf c log = some (st.proc, entry) ∧ dep.Serves st.proc entry st.progress := by
  let P : Nat → Entry host → CallState host → Prop := fun q entry st =>
    st.proc = q ∧ dep.Serves q entry st.progress
  have hstart : ∀ p entry, P p entry ((dep.discipline host).start p entry) := by
    intro p entry
    cases entry <;> simp [P, Serves, firstProgress]
  obtain ⟨q, entry, hentry, rfl, hserves⟩ :=
    h.state_invariant (P := P) hstart (fun _ _ _ _ _ hP _ => ⟨hP.1, serves_next hP.2⟩) hs
  exact ⟨entry, hentry, hserves⟩

/-- The process of a call is the one that it was started in. -/
theorem proc_of_state {log : History host} (h : (dep.discipline host).Kept log) {c : Nat}
    {st : CallState host} (hs : (dep.discipline host).state c log = some st) :
    ∃ entry, entryOf c log = some (st.proc, entry) := by
  obtain ⟨entry, hentry, -⟩ := serves_of_state h hs
  exact ⟨entry, hentry⟩

/-- What is known of an operation of a run: where it was performed, by a call in which
state, and in which world. -/
structure Past (dep : Deployment) (cfg : Config (signature host)) (c : Nat) (op : Op host)
    (a : Ans host op) (older : History host) (before after : Config (signature host)) (p : Nat)
    (entry : Entry host) (progress : Progress host) : Prop where
  reachable : (dep.system host).Reachable before
  log : before.log = older
  reaches : (dep.system host).Reachable after
  logs : after.log = .did c op a :: older
  rest : ∃ steps, (dep.system host).exec after steps = cfg
  serves : dep.Serves p entry progress
  entry : entryOf c cfg.log = some (p, entry)
  state : (dep.discipline host).state c older = some ⟨p, progress⟩
  allowed : progress.allowed op
  performed : ∃ i, dep.perform p op i before.world = some (a, after.world)

theorem past_reachable {cfg : Config (signature host)} (h : (dep.system host).Reachable cfg)
    {newer older : History host} {c : Nat} {op : Op host} {a : Ans host op}
    (hlog : cfg.log = newer ++ .did c op a :: older) :
    ∃ before after p entry progress,
      Past dep cfg c op a older before after p entry progress := by
  have hnumbered := (Discipline.accounted_reachable (dep.followed host) h).numbered
  obtain ⟨before, after, steps, hmoment, rfl, hafter, hlogAfter, hexec⟩ :=
    Discipline.past_did (dep.followed host) h hlog
  obtain ⟨⟨q, entry⟩, ⟨p, progress⟩, hentry, hstate, hallowed⟩ := hmoment.state
  obtain ⟨q', i, hq, hperformed⟩ := hmoment.performed
  rw [hentry, Option.map_some, Option.some.injEq] at hq
  subst hq
  have hkept := (Discipline.sound_reachable (dep.followed host) hmoment.reachable).kept
  obtain ⟨entry', hentry', hserves⟩ := serves_of_state hkept hstate
  cases hentry.symm.trans hentry'
  have hlog' : cfg.log = (newer ++ [.did c op a]) ++ before.log := by
    rw [hlog, List.append_assoc, List.singleton_append]
  refine ⟨before, after, p, entry, progress, hmoment.reachable, rfl, hafter, hlogAfter,
    ⟨steps, hexec⟩, hserves, ?_, hstate, hallowed, i, hperformed⟩
  rw [hlog']
  exact entryOf_append (hlog' ▸ hnumbered) hentry

/-- A call that has returned stands where it returned. -/
theorem returned_state {cfg : Config (signature host)} (h : (dep.system host).Reachable cfg)
    {c : Nat} {r : Ret} (hreturned : .returned c r ∈ cfg.log) :
    ∃ p entry progress, entryOf c cfg.log = some (p, entry) ∧ dep.Serves p entry progress ∧
      (dep.discipline host).state c cfg.log = some ⟨p, progress⟩ ∧ progress.final r := by
  have hkept := (Discipline.sound_reachable (dep.followed host) h).kept
  obtain ⟨newer, older, hlog⟩ := List.append_of_mem hreturned
  obtain ⟨-, hlast⟩ := Discipline.returned_last (dep.followed host) h hlog
  have hreturned' := hkept
  rw [hlog] at hreturned'
  obtain ⟨⟨p, progress⟩, hst, hfinal⟩ := Discipline.kept_returned hreturned'
  have hstands : (dep.discipline host).state c cfg.log = some ⟨p, progress⟩ := by
    rw [hlog, Discipline.state_of_others hlast]
    exact hst
  obtain ⟨entry, hentry, hserves⟩ := serves_of_state hkept hstands
  exact ⟨p, entry, progress, hentry, hserves, hstands, hfinal⟩

end Deployment
end TradingGuardrails
