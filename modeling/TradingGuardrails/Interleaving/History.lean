import TradingGuardrails.Interleaving.Machine

/-!
What the log of a run tells about its past: the entry of every call, the moment at which
an operation was performed, and the event that made a property of a call true.
-/
namespace Interleaving

variable {S : Signature}

def entryOf (c : Nat) : Log S → Option (Nat × S.Entry)
  | [] => none
  | .started c' p e :: log => if c' = c then some (p, e) else entryOf c log
  | .did _ _ _ :: log => entryOf c log
  | .returned _ _ :: log => entryOf c log
  | .crashed _ :: log => entryOf c log
  | .outside _ :: log => entryOf c log

def Event.call? : Event S → Option Nat
  | .started c _ _ => some c
  | .did c _ _ => some c
  | .returned c _ => some c
  | .crashed _ => none
  | .outside _ => none

def Numbered : Log S → Prop
  | [] => True
  | .started c _ _ :: log => entryOf c log = none ∧ Numbered log
  | .did _ _ _ :: log => Numbered log
  | .returned _ _ :: log => Numbered log
  | .crashed _ :: log => Numbered log
  | .outside _ :: log => Numbered log

theorem entryOf_cons {c : Nat} {event : Event S} {log : Log S} {x : Nat × S.Entry}
    (hlog : Numbered (event :: log)) (h : entryOf c log = some x) :
    entryOf c (event :: log) = some x := by
  cases event with
  | started c' p e =>
      have hne : c' ≠ c := by
        rintro rfl
        rw [hlog.1] at h
        cases h
      rw [entryOf, if_neg hne, h]
  | did | returned | crashed | outside => exact h

theorem Numbered.tail {event : Event S} {log : Log S} (h : Numbered (event :: log)) :
    Numbered log := by
  cases event with
  | started => exact h.2
  | did | returned | crashed | outside => exact h

theorem Numbered.older {newer older : Log S} (h : Numbered (newer ++ older)) : Numbered older := by
  induction newer with
  | nil => exact h
  | cons event newer ih => exact ih h.tail

theorem entryOf_append {c : Nat} {newer older : Log S} {x : Nat × S.Entry}
    (hlog : Numbered (newer ++ older)) (h : entryOf c older = some x) :
    entryOf c (newer ++ older) = some x := by
  induction newer with
  | nil => exact h
  | cons event newer ih => exact entryOf_cons hlog (ih hlog.tail)

theorem started_of_entryOf {c : Nat} {log : Log S} {x : Nat × S.Entry}
    (h : entryOf c log = some x) : .started c x.1 x.2 ∈ log := by
  induction log with
  | nil => cases h
  | cons event log ih =>
      cases event with
      | started c' p e =>
          rw [entryOf] at h
          split_ifs at h with hc
          · cases h
            exact hc ▸ List.mem_cons_self
          · exact List.mem_cons_of_mem _ (ih h)
      | did | returned | crashed | outside => exact List.mem_cons_of_mem _ (ih h)

namespace Machine

variable {M : Machine S}

/-- A step adds one event to the log, or changes nothing. -/
theorem step_log (cfg : Config S) (s : Step S) :
    M.step cfg s = cfg ∨ ∃ event, (M.step cfg s).log = event :: cfg.log := by
  cases s with
  | start p e =>
      simp only [step, startStep]
      split_ifs
      · exact .inr ⟨_, rfl⟩
      · exact .inl rfl
  | run c i =>
      simp only [step, runStep]
      split
      · exact .inl rfl
      · split
        · exact .inl rfl
        · split_ifs
          · split
            · exact .inl rfl
            · exact .inr ⟨_, rfl⟩
          · exact .inl rfl
  | finish c =>
      simp only [step, finishStep]
      split
      · exact .inl rfl
      · split
        · exact .inl rfl
        · split_ifs
          · exact .inr ⟨_, rfl⟩
          · exact .inl rfl
  | crash p => exact .inr ⟨_, rfl⟩
  | outside x =>
      simp only [step, outsideStep]
      split_ifs
      · exact .inl rfl
      · split
        · exact .inl rfl
        · exact .inr ⟨_, rfl⟩

/-- Every event of a log was added by a step of the run. -/
theorem Reachable.past {cfg : Config S} (h : M.Reachable cfg) {newer older : Log S}
    {event : Event S} (hlog : cfg.log = newer ++ event :: older) :
    ∃ before s steps, M.Reachable before ∧ before.log = older ∧
      (M.step before s).log = event :: older ∧ M.exec (M.step before s) steps = cfg := by
  induction h generalizing newer with
  | boot h =>
      exact absurd hlog.symm (List.append_ne_nil_of_right_ne_nil _ (List.cons_ne_nil _ _))
  | @step cfg h s ih =>
      rcases step_log cfg s with hstay | ⟨event', hadd⟩
      · rw [hstay] at hlog ⊢
        exact ih hlog
      · rw [hadd] at hlog
        cases newer with
        | nil =>
            cases hlog
            exact ⟨cfg, s, [], h, rfl, hadd, rfl⟩
        | cons event'' newer =>
            obtain ⟨-, hlog⟩ := List.cons.inj hlog
            obtain ⟨before, s', steps, hbefore, hlog', hstep, hexec⟩ := ih hlog
            refine ⟨before, s', steps ++ [s], hbefore, hlog', hstep, ?_⟩
            rw [exec, List.foldl_append]
            exact congrArg (fun cfg => M.step cfg s) hexec

/-- A run only adds to the log. -/
theorem exec_log (cfg : Config S) (steps : List (Step S)) :
    ∃ newer, (M.exec cfg steps).log = newer ++ cfg.log := by
  induction steps generalizing cfg with
  | nil => exact ⟨[], rfl⟩
  | cons s steps ih =>
      obtain ⟨newer, hnewer⟩ := ih (M.step cfg s)
      rcases step_log cfg s with hstay | ⟨event, hadd⟩
      · exact ⟨newer, hnewer.trans (by rw [hstay])⟩
      · exact ⟨newer ++ [event], hnewer.trans (by rw [hadd, List.append_assoc]; rfl)⟩

/-- A run that adds nothing to the log changes nothing. -/
theorem exec_stay {cfg : Config S} {steps : List (Step S)}
    (h : (M.exec cfg steps).log = cfg.log) : M.exec cfg steps = cfg := by
  induction steps generalizing cfg with
  | nil => rfl
  | cons s steps ih =>
      change M.exec (M.step cfg s) steps = cfg
      have hrest : (M.exec (M.step cfg s) steps).log = cfg.log := h
      rcases step_log cfg s with hstay | ⟨event, hadd⟩
      · rw [hstay] at hrest ⊢
        exact ih hrest
      · obtain ⟨newer, hnewer⟩ := exec_log (M := M) (M.step cfg s) steps
        have hlength := congrArg List.length hnewer
        rw [hrest, hadd, List.length_append, List.length_cons] at hlength
        omega

/-- The last event of a log was added by the last step. -/
theorem Reachable.last {cfg : Config S} (h : M.Reachable cfg) {older : Log S} {event : Event S}
    (hlog : cfg.log = event :: older) :
    ∃ before s, M.Reachable before ∧ before.log = older ∧ M.step before s = cfg := by
  have hlog' : cfg.log = [] ++ event :: older := hlog
  obtain ⟨before, s, steps, hbefore, hold, hstep, hexec⟩ := h.past hlog'
  refine ⟨before, s, hbefore, hold, ?_⟩
  rw [← hexec]
  exact (exec_stay (by rw [hexec, hlog, hstep])).symm

/-- A call returns what its program has come to. -/
theorem returned_done {cfg : Config S} {s : Step S} {c : Nat} {r : S.Ret}
    (h : (M.step cfg s).log = .returned c r :: cfg.log) :
    ∃ call, cfg.calls c = some call ∧ call.program = .done r := by
  cases s with
  | start p e =>
      simp only [step, startStep] at h
      split_ifs at h
      · cases h
      · exact absurd h.symm (List.cons_ne_self _ _)
  | run c' i =>
      simp only [step, runStep] at h
      split at h
      · exact absurd h.symm (List.cons_ne_self _ _)
      · split at h
        · exact absurd h.symm (List.cons_ne_self _ _)
        · split_ifs at h
          · split at h
            · exact absurd h.symm (List.cons_ne_self _ _)
            · cases h
          · exact absurd h.symm (List.cons_ne_self _ _)
  | finish c' =>
      simp only [step, finishStep] at h
      split at h
      · exact absurd h.symm (List.cons_ne_self _ _)
      · rename_i call hcall
        split at h
        · exact absurd h.symm (List.cons_ne_self _ _)
        · rename_i r' hdone
          split_ifs at h
          · cases h
            exact ⟨call, hcall, hdone⟩
          · exact absurd h.symm (List.cons_ne_self _ _)
  | crash p => cases h
  | outside x =>
      simp only [step, outsideStep] at h
      split_ifs at h
      · exact absurd h.symm (List.cons_ne_self _ _)
      · split at h
        · exact absurd h.symm (List.cons_ne_self _ _)
        · cases h

end Machine

namespace Discipline

variable {D : Discipline S} {M : Machine S}

/-- The numbers of the calls of a configuration, and what they were started with. -/
structure Accounted (cfg : Config S) : Prop where
  numbered : Numbered cfg.log
  below : ∀ c x, entryOf c cfg.log = some x → c < cfg.next
  entry : ∀ c call, cfg.calls c = some call → entryOf c cfg.log = some (call.proc, call.entry)

theorem accounted_reachable (hD : D.Followed M) {cfg : Config S} (h : M.Reachable cfg) :
    Accounted cfg := by
  refine invariant hD (fun w _ => ⟨True.intro, (fun _ _ h => nomatch h), fun _ _ h => nomatch h⟩)
    ?_ h
  intro cfg cfg' _ hsound hinv hmove
  cases hmove with
  | @start p e rests enabled =>
      have hnone : entryOf cfg.next cfg.log = none := by
        cases h : entryOf cfg.next cfg.log with
        | none => rfl
        | some x => exact absurd (hinv.below _ _ h) (Nat.lt_irrefl _)
      refine ⟨⟨hnone, hinv.numbered⟩, ?_, ?_⟩ <;> dsimp only
      · intro c x hx
        by_cases hc : cfg.next = c
        · omega
        · rw [entryOf, if_neg hc] at hx
          have := hinv.below c x hx
          omega
      · intro c call hcall
        by_cases hc : c = cfg.next
        · subst hc
          rw [Function.update_self] at hcall
          cases hcall
          rw [entryOf, if_pos rfl]
        · rw [Function.update_of_ne hc] at hcall
          rw [entryOf, if_neg (Ne.symm hc)]
          exact hinv.entry c call hcall
  | @act c call s op next i a w live program state allowed turn performed =>
      refine ⟨hinv.numbered, hinv.below, ?_⟩
      intro c' call' hcall'
      dsimp only at hcall' ⊢
      by_cases hc : c' = c
      · subst hc
        rw [Function.update_self] at hcall'
        cases hcall'
        exact hinv.entry c' call live
      · rw [Function.update_of_ne hc] at hcall'
        exact hinv.entry c' call' hcall'
  | @finish c call s r live state final turn =>
      refine ⟨hinv.numbered, hinv.below, ?_⟩
      intro c' call' hcall'
      dsimp only at hcall' ⊢
      by_cases hc : c' = c
      · subst hc
        rw [Function.update_self] at hcall'
        cases hcall'
      · rw [Function.update_of_ne hc] at hcall'
        exact hinv.entry c' call' hcall'
  | @crash p =>
      refine ⟨hinv.numbered, hinv.below, ?_⟩
      intro c call hcall
      simp only [Machine.crashStep] at hcall ⊢
      split at hcall
      · cases hcall
      · rename_i call' hcall'
        split_ifs at hcall with hp
        cases hcall
        exact hinv.entry c _ hcall'
  | outside rests acted => exact ⟨hinv.numbered, hinv.below, hinv.entry⟩

/-- What holds of the first state of every call, and is kept by every allowed operation,
holds of every state. -/
theorem Kept.state_invariant {P : Nat → S.Entry → D.State → Prop}
    (start : ∀ p e, P p e (D.start p e))
    (next : ∀ p e s op a, P p e s → D.allowed s op → P p e (D.next s op a))
    {log : Log S} (h : D.Kept log) {c : Nat} {s : D.State} (hs : D.state c log = some s) :
    ∃ p e, entryOf c log = some (p, e) ∧ P p e s := by
  induction log generalizing s with
  | nil => cases hs
  | cons event log ih =>
      cases event with
      | started c' p e =>
          by_cases hc : c' = c
          · simp only [Discipline.state, if_pos hc, Option.some.injEq] at hs
            exact ⟨p, e, by rw [entryOf, if_pos hc], hs ▸ start p e⟩
          · simp only [Discipline.state, if_neg hc] at hs
            rw [entryOf, if_neg hc]
            exact ih h hs
      | did c' op a =>
          obtain ⟨⟨s₁, hs₁, hallowed⟩, hkept⟩ := h
          by_cases hc : c' = c
          · subst hc
            rw [state_did_self hs₁, Option.some.injEq] at hs
            obtain ⟨p, e, hentry, hP⟩ := ih hkept hs₁
            exact ⟨p, e, hentry, hs ▸ next p e s₁ op a hP hallowed⟩
          · rw [state_did hc] at hs
            exact ih hkept hs
      | returned => exact ih h.2 hs
      | crashed | outside => exact ih h hs

/-- What the log says of a call in a state: its start and every allowed operation keep it
true, and so does its return and every event that is not its own. -/
theorem Kept.reading {P : Nat → D.State → Log S → Prop}
    (start : ∀ c p e log, P c (D.start p e) (.started c p e :: log))
    (next : ∀ c s op a log, P c s log → D.allowed s op → P c (D.next s op a) (.did c op a :: log))
    (returned : ∀ c s r log, P c s log → P c s (.returned c r :: log))
    (others : ∀ c s event log, Event.call? event ≠ some c → P c s log → P c s (event :: log))
    {log : Log S} (h : D.Kept log) {c : Nat} {s : D.State} (hs : D.state c log = some s) :
    P c s log := by
  induction log generalizing s with
  | nil => cases hs
  | cons event log ih =>
      cases event with
      | started c' p e =>
          by_cases hc : c' = c
          · simp only [Discipline.state, if_pos hc, Option.some.injEq] at hs
            subst hc hs
            exact start c' p e log
          · rw [state_started hc] at hs
            exact others c s _ log (fun heq => hc (Option.some.inj heq)) (ih h hs)
      | did c' op a =>
          obtain ⟨⟨s₁, hs₁, hallowed⟩, hkept⟩ := h
          by_cases hc : c' = c
          · subst hc
            rw [state_did_self hs₁, Option.some.injEq] at hs
            exact hs ▸ next c' s₁ op a log (ih hkept hs₁) hallowed
          · rw [state_did hc] at hs
            exact others c s _ log (fun heq => hc (Option.some.inj heq)) (ih hkept hs)
      | returned c' r =>
          by_cases hc : c' = c
          · subst hc
            exact returned c' s r log (ih h.2 hs)
          · exact others c s _ log (fun heq => hc (Option.some.inj heq)) (ih h.2 hs)
      | crashed | outside => exact others c s _ log (fun heq => by cases heq) (ih h hs)

/-- What a call has left in the log on its way to a state: it is there from the start, every
allowed operation adds to it, and no later event takes it away. -/
theorem Kept.evidence {P : Nat → D.State → Log S → Prop}
    (start : ∀ c p e log, P c (D.start p e) (.started c p e :: log))
    (later : ∀ c s event log, P c s log → P c s (event :: log))
    (next : ∀ c s op a log, P c s log → D.allowed s op → P c (D.next s op a) (.did c op a :: log))
    {log : Log S} (h : D.Kept log) {c : Nat} {s : D.State} (hs : D.state c log = some s) :
    P c s log :=
  h.reading start next (fun c s _ log => later c s _ log)
    (fun c s event log _ => later c s event log) hs

/-- The entry of a call that the log says was started. -/
theorem entryOf_of_started {newer older : Log S} {c p : Nat} {e : S.Entry}
    (hlog : Numbered (newer ++ .started c p e :: older)) :
    entryOf c (newer ++ .started c p e :: older) = some (p, e) :=
  entryOf_append hlog (if_pos rfl)

theorem entryOf_of_state {log : Log S} {c : Nat} {s : D.State} (hs : D.state c log = some s) :
    ∃ x, entryOf c log = some x := by
  induction log generalizing s with
  | nil => cases hs
  | cons event log ih =>
      cases event with
      | started c' p e =>
          by_cases hc : c' = c
          · exact ⟨(p, e), by rw [entryOf, if_pos hc]⟩
          · rw [state_started hc] at hs
            rw [entryOf, if_neg hc]
            exact ih hs
      | did c' op a =>
          by_cases hc : c' = c
          · subst hc
            cases hs' : D.state c' log with
            | none =>
                simp only [Discipline.state, if_true, hs', Option.map_none] at hs
                cases hs
            | some s' => exact ih hs'
          · rw [state_did hc] at hs
            exact ih hs
      | returned | crashed | outside => exact ih hs

/-- Only a call that was started performs operations. -/
theorem Kept.entry_of_did {log : Log S} (h : D.Kept log) (hlog : Numbered log) {c : Nat}
    {op : S.Op} {a : S.Ans op} (hmem : .did c op a ∈ log) : ∃ x, entryOf c log = some x := by
  obtain ⟨newer, older, rfl⟩ := List.append_of_mem hmem
  obtain ⟨s, hs, -⟩ := kept_did h
  obtain ⟨x, hx⟩ := entryOf_of_state hs
  refine ⟨x, entryOf_append hlog ?_⟩
  exact hx

/-- What the allowed operations of a call keep of its state, while their events have some
property, lasts as long as all events have it. -/
theorem Kept.endures {c : Nat} {P : D.State → Prop} {F : Event S → Prop}
    (next : ∀ s op a, P s → D.allowed s op → F (.did c op a) → P (D.next s op a))
    {newer older : Log S} (hlog : Numbered (newer ++ older)) (h : D.Kept (newer ++ older))
    {s : D.State} (hs : D.state c older = some s) (hP : P s) (hfine : ∀ event ∈ newer, F event) :
    ∃ s', D.state c (newer ++ older) = some s' ∧ P s' := by
  induction newer with
  | nil => exact ⟨s, hs, hP⟩
  | cons event newer ih =>
      have hfine' : ∀ event ∈ newer, F event :=
        fun event hevent => hfine event (List.mem_cons_of_mem _ hevent)
      cases event with
      | started c' p e =>
          obtain ⟨s', hs', hP'⟩ := ih hlog.2 h hfine'
          obtain ⟨x, hentry⟩ := entryOf_of_state hs'
          have hne : c' ≠ c := by
            rintro rfl
            exact absurd (hlog.1.symm.trans hentry) (by simp)
          exact ⟨s', by rw [List.cons_append, state_started hne, hs'], hP'⟩
      | did c' op a =>
          obtain ⟨⟨s₁, hs₁, hallowed⟩, hkept⟩ := h
          obtain ⟨s', hs', hP'⟩ := ih hlog hkept hfine'
          by_cases hc : c' = c
          · subst hc
            cases hs'.symm.trans hs₁
            exact ⟨_, state_did_self hs', next _ op a hP' hallowed (hfine _ List.mem_cons_self)⟩
          · exact ⟨s', by rw [List.cons_append, state_did hc, hs'], hP'⟩
      | returned => exact ih hlog h.2 hfine'
      | crashed | outside => exact ih hlog h hfine'

/-- What every allowed operation keeps of the state of a call, the call keeps. -/
theorem Kept.persists {P : D.State → Prop}
    (next : ∀ s op a, P s → D.allowed s op → P (D.next s op a)) {newer older : Log S}
    (hlog : Numbered (newer ++ older)) (h : D.Kept (newer ++ older)) {c : Nat} {s : D.State}
    (hs : D.state c older = some s) (hP : P s) :
    ∃ s', D.state c (newer ++ older) = some s' ∧ P s' :=
  h.endures (F := fun _ => True) (fun s op a hP hallowed _ => next s op a hP hallowed) hlog hs
    hP fun _ _ => True.intro

/-- The operation of a call since which a property holds that no call starts with. -/
theorem since {Q : D.State → Prop} (start : ∀ p e, ¬Q (D.start p e)) {log : Log S} {c : Nat}
    {s : D.State} (hs : D.state c log = some s) (hQ : Q s) :
    ∃ newer older op a s', log = newer ++ .did c op a :: older ∧ D.state c older = some s' ∧
      ¬Q s' ∧ Q (D.next s' op a) ∧
      ∀ later op' a' between, newer = later ++ .did c op' a' :: between →
        ∃ s, D.state c (between ++ .did c op a :: older) = some s ∧ Q (D.next s op' a') := by
  induction log generalizing s with
  | nil => cases hs
  | cons event log ih =>
      -- The events after the operation are those of the shorter log, and this one.
      have hrest : ∀ {s₁}, D.state c log = some s₁ → Q s₁ →
          (∀ op' a', event = .did c op' a' → Q (D.next s₁ op' a')) → ∃ newer older op a s',
          event :: log = newer ++ .did c op a :: older ∧ D.state c older = some s' ∧
          ¬Q s' ∧ Q (D.next s' op a) ∧
          ∀ later op' a' between, newer = later ++ .did c op' a' :: between →
            ∃ s, D.state c (between ++ .did c op a :: older) = some s ∧ Q (D.next s op' a') := by
        intro s₁ hs₁ hQ₁ hnext
        obtain ⟨newer, older, op, a, s', rfl, hs', hnot, hQ', hlater⟩ := ih hs₁ hQ₁
        refine ⟨event :: newer, older, op, a, s', rfl, hs', hnot, hQ', ?_⟩
        intro later op' a' between hsplit
        cases later with
        | nil =>
            cases hsplit
            exact ⟨s₁, hs₁, hnext op' a' rfl⟩
        | cons first later =>
            cases hsplit
            exact hlater later op' a' between rfl
      cases event with
      | started c' p e =>
          by_cases hc : c' = c
          · simp only [Discipline.state, if_pos hc, Option.some.injEq] at hs
            exact absurd (hs ▸ hQ) (start p e)
          · rw [state_started hc] at hs
            exact hrest hs hQ fun _ _ h => by cases h
      | did c' op a =>
          by_cases hc : c' = c
          · subst hc
            cases hs₁ : D.state c' log with
            | none =>
                simp only [Discipline.state, if_true, hs₁, Option.map_none] at hs
                cases hs
            | some s₁ =>
                rw [state_did_self hs₁, Option.some.injEq] at hs
                subst hs
                by_cases hQ₁ : Q s₁
                · refine hrest hs₁ hQ₁ fun op' a' heq => ?_
                  cases heq
                  exact hQ
                · exact ⟨[], log, op, a, s₁, rfl, hs₁, hQ₁, hQ, fun later _ _ _ h =>
                    absurd h (by simp)⟩
          · rw [state_did hc] at hs
            exact hrest hs hQ fun op' a' heq => absurd (by cases heq; rfl) hc
      | returned | crashed | outside => exact hrest hs hQ fun _ _ h => by cases h

/-- A property that no call starts with was made true by an operation of the call. -/
theorem became {Q : D.State → Prop} (start : ∀ p e, ¬Q (D.start p e)) {log : Log S} {c : Nat}
    {s : D.State} (hs : D.state c log = some s) (hQ : Q s) :
    ∃ newer older op a s', log = newer ++ .did c op a :: older ∧ D.state c older = some s' ∧
      ¬Q s' ∧ Q (D.next s' op a) := by
  obtain ⟨newer, older, op, a, s', hlog, hs', hnot, hQ', -⟩ := since start hs hQ
  exact ⟨newer, older, op, a, s', hlog, hs', hnot, hQ'⟩

/-- The events of other calls do not move a call. -/
theorem state_of_others {c : Nat} {newer older : Log S}
    (h : ∀ event ∈ newer, event.call? ≠ some c) : D.state c (newer ++ older) = D.state c older := by
  induction newer with
  | nil => rfl
  | cons event newer ih =>
      have hrest := ih fun event hevent => h event (List.mem_cons_of_mem _ hevent)
      have hevent := h event List.mem_cons_self
      cases event with
      | started c' p e =>
          rw [List.cons_append, state_started (fun hc => hevent (congrArg some hc)), hrest]
      | did c' op a =>
          rw [List.cons_append, state_did (fun hc => hevent (congrArg some hc)), hrest]
      | returned | crashed | outside => exact hrest

structure Moment (D : Discipline S) (M : Machine S) (before : Config S) (c : Nat) (op : S.Op)
    (a : S.Ans op) (w : S.World) : Prop where
  reachable : M.Reachable before
  state : ∃ p s, entryOf c before.log = some p ∧ D.state c before.log = some s ∧ D.allowed s op
  performed : ∃ p i, (entryOf c before.log).map Prod.fst = some p ∧
    M.perform p op i before.world = some (a, w)

/-- An event of an operation happened at a moment of the run. -/
theorem past_did (hD : D.Followed M) {cfg : Config S} (h : M.Reachable cfg)
    {newer older : Log S} {c : Nat} {op : S.Op} {a : S.Ans op}
    (hlog : cfg.log = newer ++ .did c op a :: older) :
    ∃ before after steps, D.Moment M before c op a after.world ∧ before.log = older ∧
      M.Reachable after ∧ after.log = .did c op a :: older ∧ M.exec after steps = cfg := by
  obtain ⟨before, s, steps, hbefore, rfl, hstep, hexec⟩ := h.past hlog
  refine ⟨before, M.step before s, steps, ?_, rfl, hbefore.step s, hstep, hexec⟩
  have hsound := sound_reachable hD hbefore
  have haccounted := accounted_reachable hD hbefore
  rcases hsound.move s with hstay | hmove
  · rw [hstay] at hstep
    exact absurd hstep (by simp)
  · generalize hafter : M.step before s = after at hmove hstep
    cases hmove with
    | start | finish | crash | outside => cases hstep
    | act live program state allowed turn performed =>
        cases hstep
        have hentry := haccounted.entry _ _ live
        exact ⟨hbefore, ⟨_, _, hentry, state, allowed⟩, _, _, by rw [hentry]; rfl, performed⟩

/-- A step of a run after which the log has grown by an event. -/
theorem step_move (hD : D.Followed M) {cfg : Config S} (h : M.Reachable cfg) (s : Step S)
    {event : Event S} (hlog : (M.step cfg s).log = event :: cfg.log) :
    D.Move M cfg (M.step cfg s) := by
  rcases (sound_reachable hD h).move s with hstay | hmove
  · rw [hstay] at hlog
    exact absurd hlog.symm (List.cons_ne_self _ _)
  · exact hmove

/-- A call that the environment could start has the entry that it was started with. -/
theorem entry_of_start (hD : D.Followed M) {cfg : Config S} (h : M.Reachable cfg) {p : Nat}
    {e : S.Entry} (hgo : (!M.busy cfg p && M.enabled cfg.log p e) = true) (steps : List (Step S)) :
    entryOf cfg.next (M.exec (M.step cfg (.start p e)) steps).log = some (p, e) := by
  have hlater := M.reachable_exec (h.step (.start p e)) steps
  obtain ⟨newer, hnewer⟩ := Machine.exec_log (M := M) (M.step cfg (.start p e)) steps
  have hnumbered := (accounted_reachable hD hlater).numbered
  rw [hnewer] at hnumbered ⊢
  refine entryOf_append hnumbered ?_
  rw [Machine.step, Machine.startStep, if_pos hgo]
  exact if_pos rfl

/-- A call was started when its entry was enabled. -/
theorem enabled_of_started (hD : D.Followed M) {cfg : Config S} (h : M.Reachable cfg)
    {newer older : Log S} {c p : Nat} {e : S.Entry}
    (hlog : cfg.log = newer ++ .started c p e :: older) : M.enabled older p e = true := by
  obtain ⟨before, s, steps, hbefore, rfl, hstep, -⟩ := h.past hlog
  have hmove := step_move hD hbefore s hstep
  generalize M.step before s = after at hmove hstep
  cases hmove with
  | start rests enabled =>
      cases hstep
      exact enabled
  | act | finish | crash | outside => cases hstep

/-- A call that has ended does nothing more. -/
theorem ended_exec (hD : D.Followed M) {cfg : Config S} (h : M.Reachable cfg) {c : Nat}
    (hgone : cfg.calls c = none) (hold : c < cfg.next) (steps : List (Step S)) :
    (M.exec cfg steps).calls c = none ∧ ∃ newer, (M.exec cfg steps).log = newer ++ cfg.log ∧
      ∀ event ∈ newer, event.call? ≠ some c := by
  have hkept : ∀ cfg' cfg'', M.Reachable cfg' → D.Sound M cfg' →
      ((cfg'.calls c = none ∧ c < cfg'.next) ∧ ∃ newer, cfg'.log = newer ++ cfg.log ∧
        ∀ event ∈ newer, event.call? ≠ some c) → D.Move M cfg' cfg'' →
      ((cfg''.calls c = none ∧ c < cfg''.next) ∧ ∃ newer, cfg''.log = newer ++ cfg.log ∧
        ∀ event ∈ newer, event.call? ≠ some c) := by
    rintro cfg' cfg'' - - ⟨⟨hgone, hold⟩, newer, hlog, hnewer⟩ hmove
    have hadd : ∀ event : Event S, event.call? ≠ some c →
        ∃ newer, event :: cfg'.log = newer ++ cfg.log ∧ ∀ event ∈ newer, event.call? ≠ some c := by
      intro event hevent
      refine ⟨event :: newer, by rw [hlog, List.cons_append], fun other hother => ?_⟩
      rcases List.mem_cons.mp hother with rfl | hmem
      · exact hevent
      · exact hnewer other hmem
    cases hmove with
    | start rests enabled =>
        refine ⟨⟨?_, Nat.lt_succ_of_lt hold⟩, hadd _ ?_⟩
        · have hne : c ≠ cfg'.next := by omega
          exact (Function.update_of_ne hne ..).trans hgone
        · simp only [Event.call?, ne_eq, Option.some.injEq]
          omega
    | @act c' call s op next i a w live program state allowed turn performed =>
        have hne : c ≠ c' := by
          rintro rfl
          exact absurd (hgone.symm.trans live) (by simp)
        refine ⟨⟨?_, hold⟩, hadd _ ?_⟩
        · exact (Function.update_of_ne hne ..).trans hgone
        · simpa [Event.call?] using Ne.symm hne
    | @finish c' call s r live state final turn =>
        have hne : c ≠ c' := by
          rintro rfl
          exact absurd (hgone.symm.trans live) (by simp)
        refine ⟨⟨?_, hold⟩, hadd _ ?_⟩
        · exact (Function.update_of_ne hne ..).trans hgone
        · simpa [Event.call?] using Ne.symm hne
    | crash =>
        refine ⟨⟨?_, hold⟩, hadd _ (by simp [Event.call?])⟩
        simp only [Machine.crashStep, hgone]
    | outside rests acted => exact ⟨⟨hgone, hold⟩, hadd _ (by simp [Event.call?])⟩
  obtain ⟨⟨hgone', -⟩, hlog⟩ := invariant_exec hD hkept h
    ⟨⟨hgone, hold⟩, [], rfl, fun _ h => by cases h⟩ steps
  exact ⟨hgone', hlog⟩

/-- Once a call has returned, it does nothing more. -/
theorem returned_last (hD : D.Followed M) {cfg : Config S} (h : M.Reachable cfg)
    {newer older : Log S} {c : Nat} {r : S.Ret} (hlog : cfg.log = newer ++ .returned c r :: older) :
    cfg.calls c = none ∧ ∀ event ∈ newer, event.call? ≠ some c := by
  obtain ⟨before, s, steps, hbefore, rfl, hstep, hexec⟩ := h.past hlog
  have hmove := step_move hD hbefore s hstep
  have hafter := hbefore.step s
  generalize M.step before s = after at hmove hstep hexec hafter
  have hended : after.calls c = none ∧ c < after.next := by
    cases hmove with
    | finish live state final turn =>
        cases hstep
        refine ⟨Function.update_self .., ?_⟩
        by_contra hnot
        have := (sound_reachable hD hbefore).fresh c (Nat.le_of_not_lt hnot)
        exact absurd (this.symm.trans live) (by simp)
    | start | act | crash | outside => cases hstep
  obtain ⟨hgone, newer', hnewer', hquiet⟩ := ended_exec hD hafter hended.1 hended.2 steps
  rw [hexec] at hgone hnewer'
  rw [hlog, hstep] at hnewer'
  obtain rfl := List.append_cancel_right hnewer'
  exact ⟨hgone, hquiet⟩

/-- Once its process has crashed, a call does nothing more. -/
theorem crashed_last (hD : D.Followed M) {cfg : Config S} (h : M.Reachable cfg)
    {newer older : Log S} {c p : Nat} {e : S.Entry} (hlog : cfg.log = newer ++ .crashed p :: older)
    (hentry : entryOf c older = some (p, e)) :
    cfg.calls c = none ∧ ∀ event ∈ newer, event.call? ≠ some c := by
  obtain ⟨before, s, steps, hbefore, rfl, hstep, hexec⟩ := h.past hlog
  have hmove := step_move hD hbefore s hstep
  have hafter := hbefore.step s
  have haccounted := accounted_reachable hD hbefore
  generalize M.step before s = after at hmove hstep hexec hafter
  have hended : after.calls c = none ∧ c < after.next := by
    cases hmove with
    | crash =>
        cases hstep
        refine ⟨?_, haccounted.below c _ hentry⟩
        cases hcall : before.calls c with
        | none => simp only [Machine.crashStep, hcall]
        | some call =>
            have hproc := haccounted.entry c call hcall
            rw [hentry] at hproc
            cases hproc
            simp only [Machine.crashStep, hcall, if_true]
    | start | act | finish | outside => cases hstep
  obtain ⟨hgone, newer', hnewer', hquiet⟩ := ended_exec hD hafter hended.1 hended.2 steps
  rw [hexec] at hgone hnewer'
  rw [hlog, hstep] at hnewer'
  obtain rfl := List.append_cancel_right hnewer'
  exact ⟨hgone, hquiet⟩

end Discipline

def performed : Log S → List ((op : S.Op) × S.Ans op)
  | [] => []
  | .did _ op a :: log => ⟨op, a⟩ :: performed log
  | .started _ _ _ :: log => performed log
  | .returned _ _ :: log => performed log
  | .crashed _ :: log => performed log
  | .outside _ :: log => performed log

namespace Machine

variable {M : Machine S}

structure Closed (M : Machine S) : Prop where
  crash : ∀ p w, M.crash p w = w
  outside : ∀ x w, M.outside x w = none

/-- A step performs one operation, or leaves the world and what was performed as they are. -/
theorem Closed.step (hM : M.Closed) (cfg : Config S) (s : Step S) :
    ((M.step cfg s).world = cfg.world ∧ performed (M.step cfg s).log = performed cfg.log ∧
      ∀ c op a, (M.step cfg s).log ≠ .did c op a :: cfg.log) ∨
    ∃ c p op i a, (M.step cfg s).log = .did c op a :: cfg.log ∧
      M.perform p op i cfg.world = some (a, (M.step cfg s).world) := by
  have hstay : cfg.world = cfg.world ∧ performed cfg.log = performed cfg.log ∧
      ∀ c op a, cfg.log ≠ .did c op a :: cfg.log :=
    ⟨rfl, rfl, fun _ _ _ h => absurd h.symm (List.cons_ne_self _ _)⟩
  cases s with
  | start p e =>
      simp only [Machine.step, startStep]
      split_ifs
      · exact .inl ⟨rfl, rfl, fun _ _ _ h => by cases h⟩
      · exact .inl hstay
  | run c i =>
      simp only [Machine.step, runStep]
      split
      · exact .inl hstay
      · next call hcall =>
          split
          · exact .inl hstay
          · next op next hprogram =>
              split_ifs
              · split
                · exact .inl hstay
                · next a w hperformed => exact .inr ⟨c, call.proc, op, i, a, rfl, hperformed⟩
              · exact .inl hstay
  | finish c =>
      simp only [Machine.step, finishStep]
      split
      · exact .inl hstay
      · split
        · exact .inl hstay
        · split_ifs
          · exact .inl ⟨rfl, rfl, fun _ _ _ h => by cases h⟩
          · exact .inl hstay
  | crash p =>
      refine .inl ⟨hM.crash p cfg.world, rfl, fun _ _ _ h => by cases h⟩
  | outside x =>
      simp only [Machine.step, outsideStep, hM.outside]
      split_ifs
      · exact .inl hstay
      · exact .inl hstay

/-- What holds before any operation, and is kept by every operation, holds of every
reachable world and of what was performed. -/
theorem Closed.invariant (hM : M.Closed) {Inv : List ((op : S.Op) × S.Ans op) → S.World → Prop}
    (boot : ∀ w, M.initial w → Inv [] w)
    (act : ∀ past w p op i a w', Inv past w → M.perform p op i w = some (a, w') →
      Inv (⟨op, a⟩ :: past) w')
    {cfg : Config S} (h : M.Reachable cfg) : Inv (performed cfg.log) cfg.world := by
  induction h with
  | boot h => exact boot _ h
  | @step cfg h s ih =>
      rcases hM.step cfg s with ⟨hworld, hlog, -⟩ | ⟨c, p, op, i, a, hlog, hperformed⟩
      · rw [hworld, hlog]
        exact ih
      · rw [hlog]
        exact act _ _ p op i a _ ih hperformed

end Machine

end Interleaving
