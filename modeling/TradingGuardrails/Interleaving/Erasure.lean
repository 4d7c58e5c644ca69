import Mathlib.Data.Nat.Count
import TradingGuardrails.Interleaving.Effects
import TradingGuardrails.Interleaving.History

/-!
Erasure. Calls that only read the world can be taken out of a run, any number of them: what
is left is a run again, in which the other calls, with the numbers that they then have, are
told, do and return exactly the same.
-/
namespace Interleaving

variable {S : Signature} {M : Machine S}

def Machine.Reads (M : Machine S) (p : Nat) (op : S.Op) : Prop :=
  ∀ i w a w', M.perform p op i w = some (a, w') → w' = w

namespace Discipline

abbrev effects (E : S.Entry → S.Op → Prop) : Discipline S where
  State := S.Entry
  next e _ _ := e
  allowed := E
  start _ e := e
  final _ _ := True

variable {E : S.Entry → S.Op → Prop}

theorem obeys_effects {e : S.Entry} {program : Program S.Op S.Ans S.Ret}
    (h : program.Within (E e)) : program.Obeys (effects E).toContract (effects E).final e := by
  induction program with
  | done r => exact True.intro
  | act op next ih => exact ⟨h.1, fun a => ih a (h.2 a)⟩

theorem effects_followed (h : ∀ p e, (M.program p e).Within (E e)) : (effects E).Followed M :=
  fun p e => obeys_effects (h p e)

theorem effects_state (c : Nat) (log : Log S) :
    (effects E).state c log = (entryOf c log).map Prod.snd := by
  induction log with
  | nil => rfl
  | cons event log ih =>
      cases event with
      | started c' p e =>
          simp only [state, entryOf]
          split_ifs
          · rfl
          · exact ih
      | did c' op a =>
          simp only [state, entryOf]
          split_ifs
          · rw [ih]
            cases entryOf c log with
            | none => rfl
            | some x => rfl
          · exact ih
      | returned | crashed | outside => exact ih

theorem did_within (h : ∀ p e, (M.program p e).Within (E e)) {cfg : Config S}
    (hreach : M.Reachable cfg) {c p : Nat} {e : S.Entry} {op : S.Op} {a : S.Ans op}
    (hmem : .did c op a ∈ cfg.log) (hentry : entryOf c cfg.log = some (p, e)) : E e op := by
  have hD := effects_followed h
  have hkept := (sound_reachable hD hreach).kept
  have hnumbered := (accounted_reachable hD hreach).numbered
  obtain ⟨newer, older, hlog⟩ := List.append_of_mem hmem
  rw [hlog] at hkept hnumbered hentry
  obtain ⟨s, hs, hallowed⟩ := kept_did hkept
  rw [effects_state] at hs
  obtain ⟨x, hx, rfl⟩ := Option.map_eq_some_iff.mp hs
  cases hentry.symm.trans (entryOf_append hnumbered hx)
  exact hallowed

end Discipline

section

variable {gone : Nat → Bool} {c d : Nat}

def rank (gone : Nat → Bool) (c : Nat) : Nat :=
  Nat.count (fun i => gone i = false) c

theorem rank_succ_gone (h : gone c = true) : rank gone (c + 1) = rank gone c := by
  simp [rank, Nat.count_succ, h]

theorem rank_succ_stays (h : gone c = false) : rank gone (c + 1) = rank gone c + 1 := by
  simp [rank, Nat.count_succ, h]

theorem rank_injective (hc : gone c = false) (hd : gone d = false)
    (h : rank gone c = rank gone d) : c = d :=
  Nat.count_injective (p := fun i => gone i = false) hc hd h

end

def Event.erase (rename : (Nat → Nat) → S.Entry → S.Entry) (gone : Nat → Bool) :
    Event S → Option (Event S)
  | .started c p e =>
      if gone c then none else some (.started (rank gone c) p (rename (rank gone) e))
  | .did c op a => if gone c then none else some (.did (rank gone c) op a)
  | .returned c r => if gone c then none else some (.returned (rank gone c) r)
  | .crashed p => some (.crashed p)
  | .outside x => some (.outside x)

def erase (rename : (Nat → Nat) → S.Entry → S.Entry) (gone : Nat → Bool) (log : Log S) : Log S :=
  log.filterMap (Event.erase rename gone)

section

variable {rename : (Nat → Nat) → S.Entry → S.Entry} {gone : Nat → Bool} {log : Log S} {c : Nat}

theorem started_mem_erase {p : Nat} {e : S.Entry} (hstays : gone c = false)
    (h : .started c p e ∈ log) :
    .started (rank gone c) p (rename (rank gone) e) ∈ erase rename gone log := by
  refine List.mem_filterMap.mpr ⟨_, h, ?_⟩
  simp only [Event.erase, hstays, Bool.false_eq_true, if_false]

theorem did_mem_erase {op : S.Op} {a : S.Ans op} (hstays : gone c = false)
    (h : .did c op a ∈ log) : .did (rank gone c) op a ∈ erase rename gone log := by
  refine List.mem_filterMap.mpr ⟨_, h, ?_⟩
  simp only [Event.erase, hstays, Bool.false_eq_true, if_false]

end

/-- What may be taken out of the runs of a machine. Calls of quiet entries only read, and
no other call depends on them; entries name other calls by their numbers. -/
structure Eraser (M : Machine S) where
  quiet : S.Entry → Bool
  rename : (Nat → Nat) → S.Entry → S.Entry
  reads : ∀ p e, quiet e = true → (M.program p e).Within (M.Reads p)
  program : ∀ ρ p e, M.program p (rename ρ e) = M.program p e
  enabled : ∀ (gone : Nat → Bool) (log : Log S) p e,
    (∀ c q e', .started c q e' ∈ log → gone c = true → quiet e' = true) →
    M.enabled log p e = true → M.enabled (erase rename gone log) p (rename (rank gone) e) = true

namespace Eraser

variable (E : Eraser M) (gone : Nat → Bool) {cfg cfg' : Config S}

def call (call : Call S) : Call S :=
  { call with entry := E.rename (rank gone) call.entry }

structure Leaves (cfg cfg' : Config S) : Prop where
  world : cfg'.world = cfg.world
  log : cfg'.log = erase E.rename gone cfg.log
  next : cfg'.next = rank gone cfg.next
  stays : ∀ c, gone c = false → cfg'.calls (rank gone c) = (cfg.calls c).map (E.call gone)
  reads : ∀ c call, gone c = true → cfg.calls c = some call →
    call.program.Within (M.Reads call.proc)
  current : ∀ p c, cfg.current p = some c → gone c = false →
    cfg'.current p = some (rank gone c)
  free : ∀ p, (∀ c, cfg.current p = some c → gone c = true) → M.busy cfg' p = false

variable {E gone}

theorem Leaves.boot (w : S.World) : E.Leaves gone (Machine.boot w) (Machine.boot w) where
  world := rfl
  log := rfl
  next := (Nat.count_zero _).symm
  stays _ _ := rfl
  reads _ _ _ h := by cases h
  current _ _ h := by cases h
  free _ _ := rfl

theorem Leaves.busy (h : E.Leaves gone cfg cfg') {p : Nat} (hp : M.busy cfg p = false) :
    M.busy cfg' p = false := by
  cases hcurrent : cfg.current p with
  | none =>
      apply h.free
      intro c hc
      cases hcurrent.symm.trans hc
  | some c =>
      cases hgone : gone c with
      | true =>
          apply h.free
          intro d hd
          cases hcurrent.symm.trans hd
          exact hgone
      | false =>
          unfold Machine.busy at hp ⊢
          rw [hcurrent] at hp
          rw [h.current p c hcurrent hgone]
          dsimp only at hp ⊢
          rw [h.stays c hgone]
          cases hcall : cfg.calls c with
          | none => rfl
          | some call =>
              rw [hcall] at hp
              exact hp

section

variable {D : Discipline S} {p : Nat}

theorem rests_free (h : D.Rests M cfg p) : M.busy cfg p = false := by
  unfold Machine.busy
  cases hcurrent : cfg.current p with
  | none => rfl
  | some c =>
      obtain ⟨call, s, op, next, hcall, hprogram, hwaits, -, -⟩ := h c hcurrent
      simp only [hcall, hprogram, Machine.waiting, hwaits, Bool.not_true]

/-- Whether a process is busy depends on its own calls. -/
theorem busy_frame {after : Config S} (h : D.Sound M cfg)
    (hcurrent : after.current p = cfg.current p)
    (hcalls : ∀ c call, cfg.calls c = some call → call.proc = p → after.calls c = some call) :
    M.busy after p = M.busy cfg p := by
  unfold Machine.busy
  rw [hcurrent]
  cases hc : cfg.current p with
  | none => rfl
  | some c =>
      obtain ⟨call, hcall, hproc⟩ := h.current p c hc
      simp only [hcall, hcalls c call hcall hproc]

/-- A process of what is left is free when its current call is gone, or when nothing of
its calls has changed. -/
theorem free_frame {after after' : Config S} (h : E.Leaves gone cfg cfg')
    (hsound : D.Sound M cfg') {q : Nat}
    (hturn : ∃ c, after.current q = some c ∧ gone c = false)
    (hcurrent : ∀ r, r ≠ q → after.current r = cfg.current r ∧ after'.current r = cfg'.current r)
    (hcalls : ∀ c call, cfg'.calls c = some call → call.proc ≠ q → after'.calls c = some call) :
    ∀ r, (∀ c, after.current r = some c → gone c = true) → M.busy after' r = false := by
  intro r hr
  by_cases hq : r = q
  · obtain ⟨c, hc, hstays⟩ := hturn
    subst hq
    rw [hr c hc] at hstays
    cases hstays
  · obtain ⟨hsame, hsame'⟩ := hcurrent r hq
    rw [busy_frame hsound hsame' fun c call hcall hproc =>
      hcalls c call hcall (by rw [hproc]; exact hq)]
    apply h.free
    rw [← hsame]
    exact hr

theorem Leaves.mayRun (h : E.Leaves gone cfg cfg') {c : Nat} {call : Call S} {waits : Prop}
    (hstays : gone c = false)
    (turn : cfg.current call.proc = some c ∨ D.Rests M cfg call.proc ∧ waits) :
    M.mayRun cfg' (rank gone c) (E.call gone call) = true := by
  rw [Machine.mayRun, Bool.or_eq_true, beq_iff_eq, Bool.not_eq_true']
  rcases turn with hturn | ⟨hrests, -⟩
  · exact .inl (h.current _ _ hturn hstays)
  · exact .inr (h.busy (rests_free hrests))

/-- The calls that stay, after a change of one of them. -/
theorem Leaves.stays_update (h : E.Leaves gone cfg cfg') {c : Nat} (hstays : gone c = false)
    (call : Option (Call S)) :
    ∀ d, gone d = false → Function.update cfg'.calls (rank gone c) (call.map (E.call gone))
        (rank gone d) = (Function.update cfg.calls c call d).map (E.call gone) := by
  intro d hd
  by_cases hdc : d = c
  · subst hdc
    rw [Function.update_self, Function.update_self]
  · have hne : rank gone d ≠ rank gone c := fun heq => hdc (rank_injective hd hstays heq)
    rw [Function.update_of_ne hne, Function.update_of_ne hdc, h.stays d hd]

theorem Leaves.reads_update (h : E.Leaves gone cfg cfg') {c : Nat} {call : Option (Call S)}
    (hcall : gone c = true → ∀ x, call = some x → x.program.Within (M.Reads x.proc)) :
    ∀ d x, gone d = true → Function.update cfg.calls c call d = some x →
      x.program.Within (M.Reads x.proc) := by
  intro d x hd hx
  by_cases hdc : d = c
  · subst hdc
    rw [Function.update_self] at hx
    exact hcall hd x hx
  · rw [Function.update_of_ne hdc] at hx
    exact h.reads d x hd hx

theorem Leaves.current_update (h : E.Leaves gone cfg cfg') {c : Nat} :
    ∀ q d, Function.update cfg.current p (some c) q = some d → gone d = false →
      Function.update cfg'.current p (some (rank gone c)) q = some (rank gone d) := by
  intro q d hq hd
  by_cases hqp : q = p
  · subst hqp
    rw [Function.update_self] at hq ⊢
    cases hq
    rfl
  · rw [Function.update_of_ne hqp] at hq ⊢
    exact h.current q d hq hd

theorem Leaves.current_drop (h : E.Leaves gone cfg cfg') :
    ∀ q d, Function.update cfg.current p none q = some d → gone d = false →
      Function.update cfg'.current p none q = some (rank gone d) := by
  intro q d hq hd
  by_cases hqp : q = p
  · subst hqp
    rw [Function.update_self] at hq
    cases hq
  · rw [Function.update_of_ne hqp] at hq ⊢
    exact h.current q d hq hd

theorem free_drop {after after' : Config S} (h : E.Leaves gone cfg cfg')
    (hsound : D.Sound M cfg') {q : Nat}
    (hcurrent : after.current = Function.update cfg.current q none)
    (hcurrent' : after'.current = Function.update cfg'.current q none)
    (hcalls : ∀ c call, cfg'.calls c = some call → call.proc ≠ q → after'.calls c = some call) :
    ∀ r, (∀ c, after.current r = some c → gone c = true) → M.busy after' r = false := by
  intro r hr
  by_cases hq : r = q
  · unfold Machine.busy
    rw [hcurrent', hq, Function.update_self]
  · rw [hcurrent, Function.update_of_ne hq] at hr
    rw [busy_frame hsound (by rw [hcurrent', Function.update_of_ne hq]) fun c call hcall hproc =>
      hcalls c call hcall (by rw [hproc]; exact hq)]
    exact h.free r hr

theorem Leaves.start_stays (h : E.Leaves gone cfg cfg') (hsound : D.Sound M cfg')
    {e : S.Entry} (rests : D.Rests M cfg p) (hstays : gone cfg.next = false)
    (enabled : M.enabled (erase E.rename gone cfg.log) p (E.rename (rank gone) e) = true) :
    E.Leaves gone
      { cfg with
        calls := Function.update cfg.calls cfg.next (some ⟨p, e, M.program p e⟩)
        current := Function.update cfg.current p (some cfg.next)
        next := cfg.next + 1
        log := .started cfg.next p e :: cfg.log }
      (M.step cfg' (.start p (E.rename (rank gone) e))) := by
  have hgo : (!M.busy cfg' p && M.enabled cfg'.log p (E.rename (rank gone) e)) = true := by
    rw [h.busy (rests_free rests), h.log, enabled]
    rfl
  simp only [Machine.step, Machine.startStep, if_pos hgo, h.next]
  refine ⟨h.world, ?_, ?_, ?_, ?_, h.current_update, ?_⟩
  · simp only [h.log, erase, List.filterMap_cons, Event.erase, hstays, Bool.false_eq_true, if_false]
  · exact (rank_succ_stays hstays).symm
  · have hcall := h.stays_update hstays (some ⟨p, e, M.program p e⟩)
    simpa only [Option.map_some, call, E.program] using hcall
  · exact h.reads_update fun hgone => absurd (hstays.symm.trans hgone) (by simp)
  · refine free_frame h hsound (q := p) ⟨cfg.next, Function.update_self .., hstays⟩ ?_ ?_
    · exact fun r hr => ⟨Function.update_of_ne hr .., Function.update_of_ne hr ..⟩
    · intro c call hcall _
      have hne : c ≠ rank gone cfg.next := by
        rintro rfl
        rw [hsound.fresh _ (le_of_eq h.next)] at hcall
        cases hcall
      dsimp only
      rw [Function.update_of_ne hne, hcall]

theorem Leaves.act_stays (h : E.Leaves gone cfg cfg') (hsound : D.Sound M cfg')
    {c : Nat} {call : Call S} {op : S.Op} {next : S.Ans op → _} {i : S.Input} {a : S.Ans op}
    {w : S.World} (hstays : gone c = false) (live : cfg.calls c = some call)
    (program : call.program = .act op next)
    (turn : cfg.current call.proc = some c ∨ D.Rests M cfg call.proc ∧ M.waits op = true)
    (performed : M.perform call.proc op i cfg.world = some (a, w)) :
    E.Leaves gone
      { cfg with
        world := w
        calls := Function.update cfg.calls c (some { call with program := next a })
        current := Function.update cfg.current call.proc (some c)
        log := .did c op a :: cfg.log }
      (M.step cfg' (.run (rank gone c) i)) := by
  have hlive : cfg'.calls (rank gone c) = some (E.call gone call) := by
    rw [h.stays c hstays, live]
    rfl
  have hprogram : (E.call gone call).program = .act op next := program
  have hperformed : M.perform (E.call gone call).proc op i cfg'.world = some (a, w) := by
    rw [h.world]
    exact performed
  have hmay := h.mayRun hstays turn
  simp only [Machine.step, Machine.runStep, hlive, hprogram, if_pos hmay, hperformed]
  refine ⟨rfl, ?_, h.next, ?_, ?_, h.current_update, ?_⟩
  · simp only [h.log, erase, List.filterMap_cons, Event.erase, hstays, Bool.false_eq_true, if_false]
  · exact h.stays_update hstays (some { call with program := next a })
  · exact h.reads_update fun hgone => absurd (hstays.symm.trans hgone) (by simp)
  · refine free_frame h hsound ⟨c, Function.update_self .., hstays⟩ ?_ ?_
    · exact fun r hr => ⟨Function.update_of_ne hr .., Function.update_of_ne hr ..⟩
    · intro d other hother hproc
      have hne : d ≠ rank gone c := by
        rintro rfl
        cases hlive.symm.trans hother
        exact hproc rfl
      dsimp only
      rw [Function.update_of_ne hne, hother]

theorem Leaves.finish_stays (h : E.Leaves gone cfg cfg') (hsound : D.Sound M cfg')
    {c : Nat} {call : Call S} {r : S.Ret} (hstays : gone c = false)
    (live : cfg.calls c = some call) (program : call.program = .done r)
    (turn : cfg.current call.proc = some c) :
    E.Leaves gone
      { cfg with
        calls := Function.update cfg.calls c none
        current := Function.update cfg.current call.proc none
        log := .returned c r :: cfg.log }
      (M.step cfg' (.finish (rank gone c))) := by
  have hlive : cfg'.calls (rank gone c) = some (E.call gone call) := by
    rw [h.stays c hstays, live]
    rfl
  have hprogram : (E.call gone call).program = .done r := program
  have hcurrent : cfg'.current (E.call gone call).proc = some (rank gone c) :=
    h.current _ _ turn hstays
  have hmay : M.mayRun cfg' (rank gone c) (E.call gone call) = true := by
    rw [Machine.mayRun, hcurrent, beq_self_eq_true, Bool.true_or]
  simp only [Machine.step, Machine.finishStep, hlive, hprogram, if_pos hmay]
  refine ⟨h.world, ?_, h.next, ?_, ?_, ?_, ?_⟩
  · simp only [h.log, erase, List.filterMap_cons, Event.erase, hstays, Bool.false_eq_true, if_false]
  · exact h.stays_update hstays none
  · exact h.reads_update fun hgone => absurd (hstays.symm.trans hgone) (by simp)
  · exact h.current_drop
  · refine free_drop h hsound rfl rfl ?_
    intro d other hother hproc
    have hne : d ≠ rank gone c := by
      rintro rfl
      cases hlive.symm.trans hother
      exact hproc rfl
    dsimp only
    rw [Function.update_of_ne hne, hother]

theorem Leaves.crash (h : E.Leaves gone cfg cfg') (hsound : D.Sound M cfg') :
    E.Leaves gone (M.crashStep cfg p) (M.step cfg' (.crash p)) := by
  simp only [Machine.step, Machine.crashStep]
  refine ⟨?_, ?_, h.next, ?_, ?_, ?_, ?_⟩
  · rw [h.world]
  · simp only [h.log, erase, List.filterMap_cons, Event.erase]
  · intro c hstays
    simp only [h.stays c hstays]
    cases cfg.calls c with
    | none => rfl
    | some x =>
        simp only [Option.map_some, call]
        split_ifs
        · rfl
        · rfl
  · intro c x hgone hx
    dsimp only at hx
    cases hcall : cfg.calls c with
    | none =>
        rw [hcall] at hx
        cases hx
    | some y =>
        simp only [hcall] at hx
        split_ifs at hx
        cases hx
        exact h.reads c _ hgone hcall
  · exact h.current_drop
  · refine free_drop h hsound rfl rfl ?_
    intro d other hother hproc
    simp only [hother]
    rw [if_neg hproc]

theorem Leaves.outside (h : E.Leaves gone cfg cfg') {x : S.Outside} {w : S.World}
    (rests : ∀ p, M.place x = some p → D.Rests M cfg p)
    (acted : M.outside x cfg.world = some w) :
    E.Leaves gone { cfg with world := w, log := .outside x :: cfg.log }
      (M.step cfg' (.outside x)) := by
  have hfree : (M.place x).any (M.busy cfg') = false := by
    cases hplace : M.place x with
    | none => rfl
    | some p => exact h.busy (rests_free (rests p hplace))
  simp only [Machine.step, Machine.outsideStep, hfree, h.world, acted, Bool.false_eq_true, if_false]
  refine ⟨rfl, ?_, h.next, h.stays, h.reads, h.current, ?_⟩
  · simp only [h.log, erase, List.filterMap_cons, Event.erase]
  · intro q hq
    exact h.free q hq

theorem Leaves.stays_gone (h : E.Leaves gone cfg cfg') {c : Nat} (hgone : gone c = true)
    (call : Option (Call S)) :
    ∀ d, gone d = false →
      cfg'.calls (rank gone d) = (Function.update cfg.calls c call d).map (E.call gone) := by
  intro d hd
  have hdc : d ≠ c := by
    rintro rfl
    cases hgone.symm.trans hd
  rw [Function.update_of_ne hdc, h.stays d hd]

theorem Leaves.current_gone (h : E.Leaves gone cfg cfg') {c : Option Nat}
    (hgone : ∀ d, c = some d → gone d = true) :
    ∀ q d, Function.update cfg.current p c q = some d → gone d = false →
      cfg'.current q = some (rank gone d) := by
  intro q d hq hd
  by_cases hqp : q = p
  · subst hqp
    rw [Function.update_self] at hq
    cases (hgone d hq).symm.trans hd
  · rw [Function.update_of_ne hqp] at hq
    exact h.current q d hq hd

theorem Leaves.free_gone (h : E.Leaves gone cfg cfg') (hfree : M.busy cfg' p = false)
    (c : Option Nat) :
    ∀ q, (∀ d, Function.update cfg.current p c q = some d → gone d = true) →
      M.busy cfg' q = false := by
  intro q hq
  by_cases hqp : q = p
  · rw [hqp]
    exact hfree
  · rw [Function.update_of_ne hqp] at hq
    exact h.free q hq

theorem Leaves.start_gone (h : E.Leaves gone cfg cfg') {e : S.Entry} (rests : D.Rests M cfg p)
    (hgone : gone cfg.next = true) (hquiet : E.quiet e = true) :
    E.Leaves gone
      { cfg with
        calls := Function.update cfg.calls cfg.next (some ⟨p, e, M.program p e⟩)
        current := Function.update cfg.current p (some cfg.next)
        next := cfg.next + 1
        log := .started cfg.next p e :: cfg.log } cfg' := by
  refine ⟨h.world, ?_, ?_, h.stays_gone hgone _, ?_, h.current_gone ?_,
    h.free_gone (h.busy (rests_free rests)) _⟩
  · simp only [h.log, erase, List.filterMap_cons, Event.erase, hgone, if_true]
  · rw [h.next, rank_succ_gone hgone]
  · refine h.reads_update fun _ x hx => ?_
    cases hx
    exact E.reads p e hquiet
  · rintro d ⟨⟩
    exact hgone

theorem Leaves.act_gone (h : E.Leaves gone cfg cfg') {c : Nat} {call : Call S} {op : S.Op}
    {next : S.Ans op → _} {i : S.Input} {a : S.Ans op} {w : S.World} (hgone : gone c = true)
    (live : cfg.calls c = some call) (program : call.program = .act op next)
    (turn : cfg.current call.proc = some c ∨ D.Rests M cfg call.proc ∧ M.waits op = true)
    (performed : M.perform call.proc op i cfg.world = some (a, w)) :
    E.Leaves gone
      { cfg with
        world := w
        calls := Function.update cfg.calls c (some { call with program := next a })
        current := Function.update cfg.current call.proc (some c)
        log := .did c op a :: cfg.log } cfg' := by
  have hreads := h.reads c call hgone live
  rw [program] at hreads
  obtain rfl : w = cfg.world := hreads.1 i cfg.world a w performed
  have hfree : M.busy cfg' call.proc = false := by
    rcases turn with hturn | ⟨hrests, -⟩
    · apply h.free
      intro d hd
      cases hturn.symm.trans hd
      exact hgone
    · exact h.busy (rests_free hrests)
  refine ⟨h.world, ?_, h.next, h.stays_gone hgone _, ?_, h.current_gone ?_, h.free_gone hfree _⟩
  · simp only [h.log, erase, List.filterMap_cons, Event.erase, hgone, if_true]
  · refine h.reads_update fun _ x hx => ?_
    cases hx
    exact hreads.2 a
  · rintro d ⟨⟩
    exact hgone

theorem Leaves.finish_gone (h : E.Leaves gone cfg cfg') {c : Nat} {call : Call S} {r : S.Ret}
    (hgone : gone c = true) (turn : cfg.current call.proc = some c) :
    E.Leaves gone
      { cfg with
        calls := Function.update cfg.calls c none
        current := Function.update cfg.current call.proc none
        log := .returned c r :: cfg.log } cfg' := by
  have hfree : M.busy cfg' call.proc = false := by
    apply h.free
    intro d hd
    cases hturn : turn.symm.trans hd
    exact hgone
  refine ⟨h.world, ?_, h.next, h.stays_gone hgone _, ?_, h.current_gone ?_, h.free_gone hfree _⟩
  · simp only [h.log, erase, List.filterMap_cons, Event.erase, hgone, if_true]
  · exact h.reads_update fun _ x hx => by cases hx
  · intro d hd
    cases hd

/-- A move of a call that stays is made again, any other one is left out. -/
theorem Leaves.move (h : E.Leaves gone cfg cfg') (hD : D.Followed M) (hreach : M.Reachable cfg)
    (hreach' : M.Reachable cfg') (s : Step S)
    (hquiet : ∀ c q e, .started c q e ∈ (M.step cfg s).log → gone c = true → E.quiet e = true) :
    E.Leaves gone (M.step cfg s) cfg' ∨ ∃ s', E.Leaves gone (M.step cfg s) (M.step cfg' s') := by
  have hsound := Discipline.sound_reachable hD hreach'
  rcases (Discipline.sound_reachable hD hreach).move s with hstay | hmove
  · rw [hstay]
    exact .inl h
  have hdone : ∀ c r, (M.step cfg s).log = .returned c r :: cfg.log →
      ∃ call, cfg.calls c = some call ∧ call.program = .done r :=
    fun _ _ hlog => Machine.returned_done hlog
  generalize M.step cfg s = after at hmove hquiet hdone ⊢
  cases hmove with
  | @start p e rests enabled =>
      cases hgone : gone cfg.next with
      | true => exact .inl (h.start_gone rests hgone (hquiet _ _ _ List.mem_cons_self hgone))
      | false =>
          have henabled := E.enabled gone cfg.log p e
            (fun c q e' hmem => hquiet c q e' (List.mem_cons_of_mem _ hmem)) enabled
          exact .inr ⟨_, h.start_stays hsound rests hgone henabled⟩
  | @act c call _ op next i a w live program _ _ turn performed =>
      cases hgone : gone c with
      | true => exact .inl (h.act_gone hgone live program turn performed)
      | false => exact .inr ⟨_, h.act_stays hsound hgone live program turn performed⟩
  | @finish c call _ r live _ _ turn =>
      cases hgone : gone c with
      | true => exact .inl (h.finish_gone hgone turn)
      | false =>
          obtain ⟨other, hother, program⟩ := hdone c r rfl
          cases live.symm.trans hother
          exact .inr ⟨_, h.finish_stays hsound hgone live program turn⟩
  | crash => exact .inr ⟨_, h.crash hsound⟩
  | outside rests acted => exact .inr ⟨_, h.outside rests acted⟩

end

/-- Quiet calls, any number of them, can be taken out of a run. -/
theorem leaves_reachable (h : M.Reachable cfg)
    (hquiet : ∀ c q e, .started c q e ∈ cfg.log → gone c = true → E.quiet e = true) :
    ∃ left, M.Reachable left ∧ E.Leaves gone cfg left := by
  have hD : (Discipline.effects fun _ _ => True).Followed M :=
    Discipline.effects_followed fun p e => Program.within_true _
  induction h with
  | boot hinitial => exact ⟨_, .boot hinitial, .boot _⟩
  | @step cfg hreach s ih =>
      have hsuffix : ∀ c q e, .started c q e ∈ cfg.log → .started c q e ∈ (M.step cfg s).log := by
        intro c q e hmem
        rcases Machine.step_log cfg s with hstay | ⟨event, hlog⟩
        · rw [hstay]
          exact hmem
        · rw [hlog]
          exact List.mem_cons_of_mem _ hmem
      obtain ⟨left, hleft, hleaves⟩ := ih fun c q e hmem => hquiet c q e (hsuffix c q e hmem)
      rcases hleaves.move hD hreach hleft s hquiet with hstay | ⟨s', hstep⟩
      · exact ⟨left, hleft, hstay⟩
      · exact ⟨_, .step hleft s', hstep⟩

end Eraser
end Interleaving
