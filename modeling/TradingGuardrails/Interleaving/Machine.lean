import Mathlib.Logic.Function.Basic
import TradingGuardrails.Interleaving.Program

/-!
Many calls of programs over one world. Every call runs in a process. Inside a process
calls take turns: once a call runs, no other call of that process moves before it
reaches an operation that waits, or ends. Calls of different processes interleave at
every operation. A process may crash between any two operations, which ends its calls,
and the environment may act on the world. The log of a run, newest event first, is what
properties of runs are stated about.
-/
namespace Interleaving

structure Signature where
  Op : Type
  Ans : Op → Type
  Entry : Type
  Ret : Type
  World : Type
  Input : Type
  Outside : Type

inductive Event (S : Signature) where
  | started (call proc : Nat) (entry : S.Entry)
  | did (call : Nat) (op : S.Op) (answer : S.Ans op)
  | returned (call : Nat) (result : S.Ret)
  | crashed (proc : Nat)
  | outside (action : S.Outside)

abbrev Log (S : Signature) := List (Event S)

structure Machine (S : Signature) where
  /-- The program of a call started in a process. -/
  program : Nat → S.Entry → Program S.Op S.Ans S.Ret
  /-- Operations at which a call gives up its turn. -/
  waits : S.Op → Bool
  /-- Whether the environment may start a call, given what happened before. -/
  enabled : Log S → Nat → S.Entry → Bool
  /-- Effect of an operation, when the input makes it possible. -/
  perform : Nat → (op : S.Op) → S.Input → S.World → Option (S.Ans op × S.World)
  /-- What a crash of a process does to the world. -/
  crash : Nat → S.World → S.World
  /-- The process that an action of the environment runs in, if any. -/
  place : S.Outside → Option Nat
  outside : S.Outside → S.World → Option S.World
  initial : S.World → Prop

structure Call (S : Signature) where
  proc : Nat
  entry : S.Entry
  program : Program S.Op S.Ans S.Ret

structure Config (S : Signature) where
  world : S.World
  calls : Nat → Option (Call S)
  current : Nat → Option Nat
  next : Nat
  log : Log S

inductive Step (S : Signature) where
  | start (proc : Nat) (entry : S.Entry)
  | run (call : Nat) (input : S.Input)
  | finish (call : Nat)
  | crash (proc : Nat)
  | outside (action : S.Outside)

namespace Machine

variable {S : Signature} (M : Machine S)

def boot (w : S.World) : Config S where
  world := w
  calls _ := none
  current _ := none
  next := 0
  log := []

def waiting : Program S.Op S.Ans S.Ret → Bool
  | .done _ => false
  | .act op _ => M.waits op

def busy (cfg : Config S) (p : Nat) : Bool :=
  match cfg.current p with
  | none => false
  | some c => match cfg.calls c with
    | none => false
    | some call => !M.waiting call.program

def mayRun (cfg : Config S) (c : Nat) (call : Call S) : Bool :=
  cfg.current call.proc == some c || !M.busy cfg call.proc

def startStep (cfg : Config S) (p : Nat) (e : S.Entry) : Config S :=
  if !M.busy cfg p && M.enabled cfg.log p e then
    { cfg with
      calls := Function.update cfg.calls cfg.next (some ⟨p, e, M.program p e⟩)
      current := Function.update cfg.current p (some cfg.next)
      next := cfg.next + 1
      log := .started cfg.next p e :: cfg.log }
  else cfg

def runStep (cfg : Config S) (c : Nat) (i : S.Input) : Config S :=
  match cfg.calls c with
  | none => cfg
  | some call => match call.program with
    | .done _ => cfg
    | .act op next =>
        if M.mayRun cfg c call then
          match M.perform call.proc op i cfg.world with
          | none => cfg
          | some (a, w) =>
              { cfg with
                world := w
                calls := Function.update cfg.calls c (some { call with program := next a })
                current := Function.update cfg.current call.proc (some c)
                log := .did c op a :: cfg.log }
        else cfg

def finishStep (cfg : Config S) (c : Nat) : Config S :=
  match cfg.calls c with
  | none => cfg
  | some call => match call.program with
    | .act _ _ => cfg
    | .done r =>
        if M.mayRun cfg c call then
          { cfg with
            calls := Function.update cfg.calls c none
            current := Function.update cfg.current call.proc none
            log := .returned c r :: cfg.log }
        else cfg

def crashStep (cfg : Config S) (p : Nat) : Config S :=
  { cfg with
    world := M.crash p cfg.world
    calls := fun c => match cfg.calls c with
      | none => none
      | some call => if call.proc = p then none else some call
    current := Function.update cfg.current p none
    log := .crashed p :: cfg.log }

def outsideStep (cfg : Config S) (x : S.Outside) : Config S :=
  if (M.place x).any (M.busy cfg) then cfg
  else match M.outside x cfg.world with
    | none => cfg
    | some w => { cfg with world := w, log := .outside x :: cfg.log }

def step (cfg : Config S) : Step S → Config S
  | .start p e => M.startStep cfg p e
  | .run c i => M.runStep cfg c i
  | .finish c => M.finishStep cfg c
  | .crash p => M.crashStep cfg p
  | .outside x => M.outsideStep cfg x

def exec (cfg : Config S) (steps : List (Step S)) : Config S :=
  steps.foldl M.step cfg

inductive Reachable : Config S → Prop
  | boot {w : S.World} (h : M.initial w) : Reachable (boot w)
  | step {cfg : Config S} (h : Reachable cfg) (s : Step S) : Reachable (M.step cfg s)

theorem reachable_exec {cfg : Config S} (h : M.Reachable cfg) (steps : List (Step S)) :
    M.Reachable (M.exec cfg steps) := by
  induction steps generalizing cfg with
  | nil => exact h
  | cons s steps ih => exact ih (.step h s)

end Machine

/-- A contract for the calls of a machine: where each entry starts, what its calls may do
and in which state each result may be returned. -/
structure Discipline (S : Signature) extends Contract S.Op S.Ans where
  start : Nat → S.Entry → State
  final : State → S.Ret → Prop

namespace Discipline

variable {S : Signature} (D : Discipline S) (M : Machine S)

def state (c : Nat) : Log S → Option D.State
  | [] => none
  | .started c' p e :: log => if c' = c then some (D.start p e) else state c log
  | .did c' op a :: log =>
      if c' = c then (state c log).map fun s => D.next s op a else state c log
  | .returned _ _ :: log => state c log
  | .crashed _ :: log => state c log
  | .outside _ :: log => state c log

def Followed : Prop :=
  ∀ p e, (M.program p e).Obeys D.toContract D.final (D.start p e)

/-- Every operation of a log was allowed and every result fitted when it was returned. -/
def Kept : Log S → Prop
  | [] => True
  | .did c op _ :: log => (∃ s, D.state c log = some s ∧ D.allowed s op) ∧ Kept log
  | .returned c r :: log => (∃ s, D.state c log = some s ∧ D.final s r) ∧ Kept log
  | .started _ _ _ :: log => Kept log
  | .crashed _ :: log => Kept log
  | .outside _ :: log => Kept log

/-- A call stands in a state of the contract, with a program that obeys it from there. -/
def Stands (log : Log S) (c : Nat) (call : Call S) : Prop :=
  ∃ s, D.state c log = some s ∧ call.program.Obeys D.toContract D.final s

structure Sound (cfg : Config S) : Prop where
  stands : ∀ c call, cfg.calls c = some call → D.Stands cfg.log c call
  kept : D.Kept cfg.log
  fresh : ∀ c, cfg.next ≤ c → cfg.calls c = none
  current : ∀ p c, cfg.current p = some c → ∃ call, cfg.calls c = some call ∧ call.proc = p
  parked : ∀ c call, cfg.calls c = some call →
    cfg.current call.proc = some c ∨ M.waiting call.program = true

/-- When a process is not busy, its current call waits for the answer to an allowed
operation. -/
def Rests (cfg : Config S) (p : Nat) : Prop :=
  ∀ c, cfg.current p = some c → ∃ call s op next, cfg.calls c = some call ∧
    call.program = .act op next ∧ M.waits op = true ∧
    D.state c cfg.log = some s ∧ D.allowed s op

inductive Move (cfg : Config S) : Config S → Prop
  | start {p : Nat} {e : S.Entry} (rests : D.Rests M cfg p)
      (enabled : M.enabled cfg.log p e = true) :
      Move cfg
        { cfg with
          calls := Function.update cfg.calls cfg.next (some ⟨p, e, M.program p e⟩)
          current := Function.update cfg.current p (some cfg.next)
          next := cfg.next + 1
          log := .started cfg.next p e :: cfg.log }
  | act {c : Nat} {call : Call S} {s : D.State} {op : S.Op} {next : S.Ans op → _} {i : S.Input}
      {a : S.Ans op} {w : S.World} (live : cfg.calls c = some call)
      (program : call.program = .act op next) (state : D.state c cfg.log = some s)
      (allowed : D.allowed s op)
      (turn : cfg.current call.proc = some c ∨ D.Rests M cfg call.proc ∧ M.waits op = true)
      (performed : M.perform call.proc op i cfg.world = some (a, w)) :
      Move cfg
        { cfg with
          world := w
          calls := Function.update cfg.calls c (some { call with program := next a })
          current := Function.update cfg.current call.proc (some c)
          log := .did c op a :: cfg.log }
  | finish {c : Nat} {call : Call S} {s : D.State} {r : S.Ret} (live : cfg.calls c = some call)
      (state : D.state c cfg.log = some s) (final : D.final s r)
      (turn : cfg.current call.proc = some c) :
      Move cfg
        { cfg with
          calls := Function.update cfg.calls c none
          current := Function.update cfg.current call.proc none
          log := .returned c r :: cfg.log }
  | crash {p : Nat} : Move cfg (M.crashStep cfg p)
  | outside {x : S.Outside} {w : S.World} (rests : ∀ p, M.place x = some p → D.Rests M cfg p)
      (acted : M.outside x cfg.world = some w) :
      Move cfg { cfg with world := w, log := .outside x :: cfg.log }

variable {D M}

theorem Sound.rests {cfg : Config S} (h : D.Sound M cfg) {p : Nat} (hp : M.busy cfg p = false) :
    D.Rests M cfg p := by
  intro c hc
  obtain ⟨call, hcall, -⟩ := h.current p c hc
  obtain ⟨s, hs, hobeys⟩ := h.stands c call hcall
  simp only [Machine.busy, hc, hcall, Bool.not_eq_false'] at hp
  cases hprog : call.program with
  | done r =>
      rw [hprog] at hp
      cases hp
  | act op next =>
      rw [hprog] at hp hobeys
      exact ⟨call, s, op, next, hcall, hprog, hp, hs, hobeys.1⟩

theorem Sound.boot (w : S.World) : D.Sound M (Machine.boot w) where
  stands _ _ h := nomatch h
  kept := True.intro
  fresh _ _ := rfl
  current _ _ h := nomatch h
  parked _ _ h := nomatch h

theorem Sound.turn {cfg : Config S} (h : D.Sound M cfg) {c : Nat} {call : Call S}
    (live : cfg.calls c = some call) (may : M.mayRun cfg c call = true) :
    cfg.current call.proc = some c ∨ D.Rests M cfg call.proc ∧ M.waiting call.program = true := by
  rcases h.parked c call live with hcur | hwait
  · exact .inl hcur
  · simp only [Machine.mayRun, Bool.or_eq_true, beq_iff_eq, Bool.not_eq_true'] at may
    rcases may with hcur | hidle
    · exact .inl hcur
    · exact .inr ⟨h.rests hidle, hwait⟩

/-- A step does nothing, or is one of the moves that the contract describes. -/
theorem Sound.move {cfg : Config S} (h : D.Sound M cfg) (s : Step S) :
    M.step cfg s = cfg ∨ D.Move M cfg (M.step cfg s) := by
  cases s with
  | start p e =>
      simp only [Machine.step, Machine.startStep]
      split_ifs with hgo
      · rw [Bool.and_eq_true, Bool.not_eq_true'] at hgo
        exact .inr (.start (h.rests hgo.1) hgo.2)
      · exact .inl rfl
  | run c i =>
      simp only [Machine.step, Machine.runStep]
      cases hcall : cfg.calls c with
      | none => exact .inl rfl
      | some call =>
          obtain ⟨s, hs, hobeys⟩ := h.stands c call hcall
          cases hprog : call.program with
          | done r => exact .inl (by simp only [hprog])
          | act op next =>
              simp only [hprog]
              split_ifs with hmay
              · cases hperf : M.perform call.proc op i cfg.world with
                | none => exact .inl rfl
                | some r =>
                    have hturn := h.turn hcall hmay
                    rw [hprog] at hobeys hturn
                    exact .inr (.act hcall hprog hs hobeys.1 hturn hperf)
              · exact .inl rfl
  | finish c =>
      simp only [Machine.step, Machine.finishStep]
      cases hcall : cfg.calls c with
      | none => exact .inl rfl
      | some call =>
          obtain ⟨s, hs, hobeys⟩ := h.stands c call hcall
          cases hprog : call.program with
          | act op next => exact .inl (by simp only [hprog])
          | done r =>
              simp only [hprog]
              split_ifs with hmay
              · rw [hprog] at hobeys
                rcases h.turn hcall hmay with hcur | ⟨-, hwait⟩
                · exact .inr (.finish hcall hs hobeys hcur)
                · rw [hprog] at hwait
                  cases hwait
              · exact .inl rfl
  | crash p => exact .inr .crash
  | outside x =>
      simp only [Machine.step, Machine.outsideStep]
      split_ifs with hbusy
      · exact .inl rfl
      · cases hact : M.outside x cfg.world with
        | none => exact .inl rfl
        | some w =>
            refine .inr (.outside (fun p hp => h.rests ?_) hact)
            rw [hp, Option.any_some, Bool.not_eq_true] at hbusy
            exact hbusy

theorem state_started {c c' p : Nat} {e : S.Entry} {log : Log S} (h : c' ≠ c) :
    D.state c (.started c' p e :: log) = D.state c log := by
  simp only [Discipline.state, h, if_false]

theorem state_did {c c' : Nat} {op : S.Op} {a : S.Ans op} {log : Log S} (h : c' ≠ c) :
    D.state c (.did c' op a :: log) = D.state c log := by
  simp only [Discipline.state, h, if_false]

theorem state_did_self {c : Nat} {op : S.Op} {a : S.Ans op} {log : Log S} {s : D.State}
    (h : D.state c log = some s) : D.state c (.did c op a :: log) = some (D.next s op a) := by
  simp only [Discipline.state, if_true, h, Option.map_some]

theorem Sound.start (hD : D.Followed M) {cfg : Config S} (h : D.Sound M cfg) {p : Nat}
    (e : S.Entry) (rests : D.Rests M cfg p) :
    D.Sound M { cfg with
      calls := Function.update cfg.calls cfg.next (some ⟨p, e, M.program p e⟩)
      current := Function.update cfg.current p (some cfg.next)
      next := cfg.next + 1
      log := .started cfg.next p e :: cfg.log } := by
  have hnew : ∀ {c call}, cfg.calls c = some call → c ≠ cfg.next := by
    rintro c call hcall rfl
    rw [h.fresh _ (Nat.le_refl _)] at hcall
    cases hcall
  constructor <;> try dsimp only
  · intro c call hcall
    by_cases hc : c = cfg.next
    · subst hc
      rw [Function.update_self] at hcall
      cases hcall
      exact ⟨_, by simp only [Discipline.state, if_true], hD p e⟩
    · rw [Function.update_of_ne hc] at hcall
      obtain ⟨s, hs, hobeys⟩ := h.stands c call hcall
      exact ⟨s, by rw [state_started (Ne.symm hc), hs], hobeys⟩
  · exact h.kept
  · intro c hc
    rw [Function.update_of_ne (by omega)]
    exact h.fresh c (by omega)
  · intro q c hc
    by_cases hq : q = p
    · subst hq
      rw [Function.update_self, Option.some.injEq] at hc
      exact ⟨_, by rw [← hc, Function.update_self], rfl⟩
    · rw [Function.update_of_ne hq] at hc
      obtain ⟨call, hcall, hproc⟩ := h.current q c hc
      exact ⟨call, by rw [Function.update_of_ne (hnew hcall)]; exact hcall, hproc⟩
  · intro c call hcall
    by_cases hc : c = cfg.next
    · subst hc
      rw [Function.update_self] at hcall
      cases hcall
      exact .inl (Function.update_self ..)
    · rw [Function.update_of_ne hc] at hcall
      by_cases hp : call.proc = p
      · right
        rcases h.parked c call hcall with hcur | hwait
        · rw [hp] at hcur
          obtain ⟨call', s, op, next, hcall', hprog, hwaits, -⟩ := rests c hcur
          rw [hcall, Option.some.injEq] at hcall'
          rw [hcall', hprog]
          exact hwaits
        · exact hwait
      · rw [Function.update_of_ne hp]
        exact h.parked c call hcall

theorem Sound.act {cfg : Config S} (h : D.Sound M cfg) {c : Nat} {call : Call S} {s : D.State}
    {op : S.Op} {next : S.Ans op → _} {a : S.Ans op} {w : S.World}
    (live : cfg.calls c = some call) (program : call.program = .act op next)
    (state : D.state c cfg.log = some s)
    (turn : cfg.current call.proc = some c ∨ D.Rests M cfg call.proc ∧ M.waits op = true) :
    D.Sound M { cfg with
      world := w
      calls := Function.update cfg.calls c (some { call with program := next a })
      current := Function.update cfg.current call.proc (some c)
      log := .did c op a :: cfg.log } := by
  obtain ⟨s', hs', hobeys⟩ := h.stands c call live
  rw [state, Option.some.injEq] at hs'
  subst hs'
  rw [program] at hobeys
  constructor <;> try dsimp only
  · intro c' call' hcall'
    by_cases hc : c' = c
    · subst hc
      rw [Function.update_self, Option.some.injEq] at hcall'
      subst hcall'
      exact ⟨_, state_did_self state, hobeys.2 a⟩
    · rw [Function.update_of_ne hc] at hcall'
      obtain ⟨s', hs', hobeys'⟩ := h.stands c' call' hcall'
      exact ⟨s', by rw [state_did (Ne.symm hc), hs'], hobeys'⟩
  · exact ⟨⟨s, state, hobeys.1⟩, h.kept⟩
  · intro c' hc'
    have hne : c' ≠ c := by
      rintro rfl
      rw [h.fresh _ hc'] at live
      cases live
    rw [Function.update_of_ne hne]
    exact h.fresh c' hc'
  · intro q c' hc'
    by_cases hq : q = call.proc
    · subst hq
      rw [Function.update_self, Option.some.injEq] at hc'
      subst hc'
      exact ⟨_, Function.update_self .., rfl⟩
    · rw [Function.update_of_ne hq] at hc'
      obtain ⟨call', hcall', hproc⟩ := h.current q c' hc'
      have hne : c' ≠ c := by
        rintro rfl
        rw [live, Option.some.injEq] at hcall'
        exact hq (by rw [← hproc, hcall'])
      exact ⟨call', by rw [Function.update_of_ne hne]; exact hcall', hproc⟩
  · intro c' call' hcall'
    by_cases hc : c' = c
    · subst hc
      rw [Function.update_self, Option.some.injEq] at hcall'
      subst hcall'
      exact .inl (Function.update_self ..)
    · rw [Function.update_of_ne hc] at hcall'
      by_cases hp : call'.proc = call.proc
      · right
        rcases h.parked c' call' hcall' with hcur | hwait
        · rw [hp] at hcur
          rcases turn with hself | ⟨hrests, -⟩
          · rw [hself, Option.some.injEq] at hcur
            exact absurd hcur.symm hc
          · obtain ⟨call'', s', op', next', hcall'', hprog, hwaits, -⟩ := hrests c' hcur
            rw [hcall', Option.some.injEq] at hcall''
            rw [hcall'', hprog]
            exact hwaits
        · exact hwait
      · rw [Function.update_of_ne hp]
        exact h.parked c' call' hcall'

theorem Sound.finish {cfg : Config S} (h : D.Sound M cfg) {c : Nat} {call : Call S}
    {s : D.State} {r : S.Ret} (live : cfg.calls c = some call)
    (state : D.state c cfg.log = some s) (final : D.final s r)
    (turn : cfg.current call.proc = some c) :
    D.Sound M { cfg with
      calls := Function.update cfg.calls c none
      current := Function.update cfg.current call.proc none
      log := .returned c r :: cfg.log } := by
  have hother : ∀ {c' call'}, Function.update cfg.calls c none c' = some call' →
      c' ≠ c ∧ cfg.calls c' = some call' := by
    intro c' call' hcall'
    by_cases hc : c' = c
    · rw [hc, Function.update_self] at hcall'
      cases hcall'
    · rw [Function.update_of_ne hc] at hcall'
      exact ⟨hc, hcall'⟩
  constructor <;> try dsimp only
  · intro c' call' hcall'
    exact h.stands c' call' (hother hcall').2
  · exact ⟨⟨s, state, final⟩, h.kept⟩
  · intro c' hc'
    by_cases hc : c' = c
    · rw [hc, Function.update_self]
    · rw [Function.update_of_ne hc]
      exact h.fresh c' hc'
  · intro q c' hc'
    by_cases hq : q = call.proc
    · rw [hq, Function.update_self] at hc'
      cases hc'
    · rw [Function.update_of_ne hq] at hc'
      obtain ⟨call', hcall', hproc⟩ := h.current q c' hc'
      have hne : c' ≠ c := by
        rintro rfl
        rw [live, Option.some.injEq] at hcall'
        exact hq (by rw [← hproc, hcall'])
      exact ⟨call', by rw [Function.update_of_ne hne]; exact hcall', hproc⟩
  · intro c' call' hcall'
    obtain ⟨hne, hcalls⟩ := hother hcall'
    rcases h.parked c' call' hcalls with hcur | hwait
    · by_cases hp : call'.proc = call.proc
      · rw [hp, turn, Option.some.injEq] at hcur
        exact absurd hcur.symm hne
      · left
        rw [Function.update_of_ne hp]
        exact hcur
    · exact .inr hwait

theorem Sound.crash {cfg : Config S} (h : D.Sound M cfg) (p : Nat) :
    D.Sound M (M.crashStep cfg p) := by
  have hother : ∀ {c call}, (M.crashStep cfg p).calls c = some call →
      call.proc ≠ p ∧ cfg.calls c = some call := by
    intro c call hcall
    simp only [Machine.crashStep] at hcall
    split at hcall
    · cases hcall
    · rename_i call' hcall'
      split_ifs at hcall with hp
      cases hcall
      exact ⟨hp, hcall'⟩
  constructor <;> try dsimp only
  · intro c call hcall
    exact h.stands c call (hother hcall).2
  · exact h.kept
  · intro c hc
    simp only [Machine.crashStep, h.fresh c hc]
  · intro q c hc
    by_cases hq : q = p
    · simp only [Machine.crashStep, hq, Function.update_self] at hc
      cases hc
    · simp only [Machine.crashStep, Function.update_of_ne hq] at hc
      obtain ⟨call, hcall, hproc⟩ := h.current q c hc
      refine ⟨call, ?_, hproc⟩
      simp only [Machine.crashStep, hcall, hproc, hq, if_false]
  · intro c call hcall
    obtain ⟨hp, hcalls⟩ := hother hcall
    simp only [Machine.crashStep, Function.update_of_ne hp]
    exact h.parked c call hcalls

theorem Sound.preserved (hD : D.Followed M) {cfg cfg' : Config S} (h : D.Sound M cfg)
    (hmove : D.Move M cfg cfg') : D.Sound M cfg' := by
  cases hmove with
  | start rests _ => exact h.start hD _ rests
  | act live program state _ turn _ => exact h.act live program state turn
  | finish live state final turn => exact h.finish live state final turn
  | crash => exact h.crash _
  | outside _ _ => exact ⟨h.stands, h.kept, h.fresh, h.current, h.parked⟩

theorem sound_reachable (hD : D.Followed M) {cfg : Config S} (h : M.Reachable cfg) :
    D.Sound M cfg := by
  induction h with
  | boot h => exact .boot _
  | step h s ih =>
      rcases ih.move s with hstay | hmove
      · rw [hstay]
        exact ih
      · exact ih.preserved hD hmove

/-- An invariant holds in every reachable configuration when it holds at the start and
every move keeps it. -/
theorem invariant (hD : D.Followed M) {Inv : Config S → Prop}
    (boot : ∀ w, M.initial w → Inv (Machine.boot w))
    (move : ∀ cfg cfg', M.Reachable cfg → D.Sound M cfg → Inv cfg → D.Move M cfg cfg' → Inv cfg')
    {cfg : Config S} (h : M.Reachable cfg) : Inv cfg := by
  induction h with
  | boot h => exact boot _ h
  | step h s ih =>
      have hsound := sound_reachable hD h
      rcases hsound.move s with hstay | hmove
      · rw [hstay]
        exact ih
      · exact move _ _ h hsound ih hmove

/-- What every move keeps lasts for the rest of the run. -/
theorem invariant_exec (hD : D.Followed M) {Inv : Config S → Prop}
    (move : ∀ cfg cfg', M.Reachable cfg → D.Sound M cfg → Inv cfg → D.Move M cfg cfg' → Inv cfg')
    {cfg : Config S} (h : M.Reachable cfg) (hinv : Inv cfg) (steps : List (Step S)) :
    Inv (M.exec cfg steps) := by
  induction steps generalizing cfg with
  | nil => exact hinv
  | cons s steps ih =>
      have hsound := sound_reachable hD h
      refine ih (.step h s) ?_
      rcases hsound.move s with hstay | hmove
      · rw [hstay]
        exact hinv
      · exact move _ _ h hsound hinv hmove

theorem Kept.older {newer older : Log S} (h : D.Kept (newer ++ older)) : D.Kept older := by
  induction newer with
  | nil => exact h
  | cons e newer ih =>
      cases e with
      | did | returned => exact ih h.2
      | started | crashed | outside => exact ih h

theorem kept_did {newer older : Log S} {c : Nat} {op : S.Op} {a : S.Ans op}
    (h : D.Kept (newer ++ .did c op a :: older)) :
    ∃ s, D.state c older = some s ∧ D.allowed s op :=
  h.older.1

theorem kept_returned {newer older : Log S} {c : Nat} {r : S.Ret}
    (h : D.Kept (newer ++ .returned c r :: older)) :
    ∃ s, D.state c older = some s ∧ D.final s r :=
  h.older.1

end Discipline
end Interleaving
