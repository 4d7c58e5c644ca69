import TradingGuardrails.Interleaving.Program

/-!
What a contract says about the runs of one program: every operation that is started was
allowed by what happened before it, and every result fits the whole run.
-/
namespace Interleaving

variable {Op : Type} {Ans : Op → Type} {σ ε α β : Type}

def Contract.after (C : Contract Op Ans) : C.State → Trace Op Ans → C.State
  | s, [] => s
  | s, ⟨op, a⟩ :: rest => C.after (C.next s op a) rest

namespace Program

/-- Answered as in a trace, a program comes to start an operation. -/
def Starts : Program Op Ans α → Trace Op Ans → Op → Prop
  | .done _, _, _ => False
  | .act op next, past, op' =>
      (past = [] ∧ op = op') ∨ ∃ a rest, past = ⟨op, a⟩ :: rest ∧ Starts (next a) rest op'

variable {C : Contract Op Ans} {post : C.State → α → Prop} {s : C.State} {p : Program Op Ans α}

theorem Obeys.starts (h : p.Obeys C post s) {past : Trace Op Ans} {op : Op}
    (hstarts : p.Starts past op) : C.allowed (C.after s past) op := by
  induction p generalizing s past with
  | done v => exact absurd hstarts id
  | act op' next ih =>
      rcases hstarts with ⟨rfl, rfl⟩ | ⟨a, rest, rfl, hrest⟩
      · exact h.1
      · exact ih a (h.2 a) hrest

theorem Obeys.yields (h : p.Obeys C post s) {trace : Trace Op Ans} {r : α}
    (hyields : p.Yields trace r) : post (C.after s trace) r := by
  induction p generalizing s trace with
  | done v =>
      obtain ⟨rfl, rfl⟩ := hyields
      exact h
  | act op next ih =>
      obtain ⟨a, rest, rfl, hrest⟩ := hyields
      exact ih a (h.2 a) hrest

/-- An environment, which may remember the run, has given the answers of a trace. -/
def AnsweredBy (answer : Trace Op Ans → (op : Op) → Ans op) (trace : Trace Op Ans) : Prop :=
  ∀ past op a rest, trace = past ++ ⟨op, a⟩ :: rest → a = answer past op

/-- What an environment keeps to in every answer holds of all that it has answered. -/
theorem AnsweredBy.forall_mem {answer : Trace Op Ans → (op : Op) → Ans op} {trace : Trace Op Ans}
    {P : (op : Op) → Ans op → Prop} (h : AnsweredBy answer trace)
    (hanswer : ∀ past op, P op (answer past op)) : ∀ d ∈ trace, P d.1 d.2 := by
  intro d hd
  obtain ⟨past, rest, hsplit⟩ := List.append_of_mem hd
  rw [h past d.1 d.2 rest hsplit]
  exact hanswer past d.1

/-- Every environment lets a program come to an end. -/
theorem exists_yields (p : Program Op Ans α) (answer : Trace Op Ans → (op : Op) → Ans op) :
    ∃ trace r, p.Yields trace r ∧ AnsweredBy answer trace := by
  induction p generalizing answer with
  | done v => exact ⟨[], v, ⟨rfl, rfl⟩, fun past op a rest h => by simp at h⟩
  | act op next ih =>
      obtain ⟨trace, r, hyields, hanswered⟩ :=
        ih (answer [] op) fun past => answer (⟨op, answer [] op⟩ :: past)
      refine ⟨⟨op, answer [] op⟩ :: trace, r, ⟨_, _, rfl, hyields⟩, ?_⟩
      intro past op' a rest h
      cases past with
      | nil =>
          cases h
          rfl
      | cons d past =>
          obtain ⟨rfl, htrace⟩ := List.cons.inj h
          exact hanswered past op' a rest htrace

end Program

/-- Whether every answer so far was as expected, and how many answers there were. -/
abbrev Contract.expecting (P : (op : Op) → Ans op → Prop) : Contract Op Ans where
  State := Prop × Nat
  next s op a := (s.1 ∧ P op a, s.2 + 1)
  allowed _ _ := True

theorem Contract.after_expecting (P : (op : Op) → Ans op → Prop) (s : Prop × Nat)
    (trace : Trace Op Ans) :
    (((Contract.expecting P).after s trace).1 ↔ s.1 ∧ ∀ d ∈ trace, P d.1 d.2) ∧
      ((Contract.expecting P).after s trace).2 = s.2 + trace.length := by
  induction trace generalizing s with
  | nil => exact ⟨by simp [Contract.after], rfl⟩
  | cons d trace ih =>
      obtain ⟨hserved, hlength⟩ := ih (s.1 ∧ P d.1 d.2, s.2 + 1)
      refine ⟨hserved.trans ?_, hlength.trans ?_⟩
      · rw [List.forall_mem_cons, and_assoc]
      · rw [List.length_cons]
        omega

/-- What a part of a run adds: a fact, if every answer is as expected, in few operations. -/
def Adds (s s' : Prop × Nat) (operations : Nat) (fact : Prop) : Prop :=
  (s'.1 → s.1 ∧ fact) ∧ s'.2 ≤ s.2 + operations

theorem Adds.refl (s : Prop × Nat) : Adds s s 0 True :=
  ⟨fun hs => ⟨hs, True.intro⟩, Nat.le_refl _⟩

theorem Adds.trans {s s' s'' : Prop × Nat} {m n k : Nat} {first second fact : Prop}
    (h : Adds s s' m first) (h' : Adds s' s'' n second) (hk : m + n ≤ k)
    (himp : first → second → fact) : Adds s s'' k fact := by
  refine ⟨fun hs => ?_, ?_⟩
  · obtain ⟨hs', hsecond⟩ := h'.1 hs
    obtain ⟨hs, hfirst⟩ := h.1 hs'
    exact ⟨hs, himp hfirst hsecond⟩
  · have := h.2
    have := h'.2
    omega

theorem Adds.mono {s s' : Prop × Nat} {m n : Nat} {first second : Prop} (h : Adds s s' m first)
    (hmn : m ≤ n) (himp : first → second) : Adds s s' n second :=
  h.trans (Adds.refl s') (by omega) fun hfirst _ => himp hfirst

namespace Program

/-- What a sequence starts is started by its first part, or behind a run of it. -/
theorem starts_bind {p : Program Op Ans α} {f : α → Program Op Ans β} {past : Trace Op Ans}
    {op : Op} : (p.bind f).Starts past op ↔ p.Starts past op ∨
      ∃ first rest v, past = first ++ rest ∧ p.Yields first v ∧ (f v).Starts rest op := by
  induction p generalizing past with
  | done v =>
      constructor
      · exact fun h => .inr ⟨[], past, v, rfl, ⟨rfl, rfl⟩, h⟩
      · rintro (h | ⟨first, rest, w, rfl, ⟨rfl, rfl⟩, h⟩)
        · exact h.elim
        · exact h
  | act op' next ih =>
      constructor
      · rintro (⟨rfl, rfl⟩ | ⟨a, rest, rfl, h⟩)
        · exact .inl (.inl ⟨rfl, rfl⟩)
        · rcases (ih a).mp h with h | ⟨first, rest, v, rfl, hfirst, hrest⟩
          · exact .inl (.inr ⟨a, rest, rfl, h⟩)
          · exact .inr ⟨⟨op', a⟩ :: first, rest, v, rfl, ⟨a, first, rfl, hfirst⟩, hrest⟩
      · rintro ((⟨rfl, rfl⟩ | ⟨a, rest, rfl, h⟩) |
          ⟨-, rest, v, rfl, ⟨a, first, rfl, hfirst⟩, hrest⟩)
        · exact .inl ⟨rfl, rfl⟩
        · exact .inr ⟨a, rest, rfl, (ih a).mpr (.inl h)⟩
        · exact .inr ⟨a, first ++ rest, rfl,
            (ih a).mpr (.inr ⟨first, rest, v, rfl, hfirst, hrest⟩)⟩

end Program

namespace Program

def reached (answer : (op : Op) → Ans op) : Nat → Program Op Ans α → Option Op
  | _, .done _ => none
  | 0, .act op _ => some op
  | n + 1, .act op next => reached answer n (next (answer op))

theorem starts_of_reached {answer : (op : Op) → Ans op} {n : Nat} {p : Program Op Ans α} {op : Op}
    (h : p.reached answer n = some op) : ∃ past, p.Starts past op := by
  induction p generalizing n with
  | done v => cases n <;> cases h
  | act op' next ih =>
      cases n with
      | zero =>
          cases h
          exact ⟨[], .inl ⟨rfl, rfl⟩⟩
      | succ n =>
          obtain ⟨past, hstarts⟩ := ih _ h
          exact ⟨_, .inr ⟨_, past, rfl, hstarts⟩⟩

end Program

abbrev Contract.only (P : Op → Prop) : Contract Op Ans where
  State := Unit
  next _ _ _ := ()
  allowed _ := P

namespace Program

variable {P : Op → Prop} {post : Unit → α → Prop} {p : Program Op Ans α}

theorem Obeys.trace_only (h : p.Obeys (.only P) post ()) {trace : Trace Op Ans} {r : α}
    (hyields : p.Yields trace r) : ∀ d ∈ trace, P d.1 := by
  induction p generalizing trace with
  | done v =>
      obtain ⟨rfl, -⟩ := hyields
      exact fun d hd => absurd hd List.not_mem_nil
  | act op next ih =>
      obtain ⟨a, rest, rfl, hrest⟩ := hyields
      exact List.forall_mem_cons.mpr ⟨h.1, ih a (h.2 a) hrest⟩

end Program

namespace Routine

/-- Answered as in a trace, a routine comes to start an operation. -/
def Starts (m : Routine Op Ans σ ε α) (l : σ) (past : Trace Op Ans) (op : Op) : Prop :=
  (m l).Starts past op

variable {l : σ} {past : Trace Op Ans} {op : Op}

theorem starts_throw {e : ε} : ¬Starts (throw e : Routine Op Ans σ ε α) l past op :=
  id

theorem starts_bind {m : Routine Op Ans σ ε α} {f : α → Routine Op Ans σ ε β} :
    Starts (m >>= f) l past op ↔ Starts m l past op ∨ ∃ first rest a l₁, past = first ++ rest ∧
      Returns m l first a l₁ ∧ Starts (f a) l₁ rest op := by
  refine Program.starts_bind.trans (or_congr_right ?_)
  constructor
  · rintro ⟨first, rest, ⟨r, l₁⟩, rfl, hfirst, hrest⟩
    cases r with
    | ok a => exact ⟨first, rest, a, l₁, rfl, hfirst, hrest⟩
    | error e => exact hrest.elim
  · rintro ⟨first, rest, a, l₁, rfl, hfirst, hrest⟩
    exact ⟨first, rest, (.ok a, l₁), rfl, hfirst, hrest⟩

theorem starts_perform_bind {op' : Op} {f : Ans op' → Routine Op Ans σ ε β} :
    Starts (perform op' >>= f) l past op ↔
      (past = [] ∧ op' = op) ∨ ∃ a rest, past = ⟨op', a⟩ :: rest ∧ Starts (f a) l rest op :=
  Iff.rfl

theorem starts_ofExcept {x : Except ε α} :
    ¬Starts (ofExcept x : Routine Op Ans σ ε α) l past op := by
  cases x <;> exact id

theorem starts_ofExcept_bind {x : Except ε α} {f : α → Routine Op Ans σ ε β} :
    Starts (ofExcept x >>= f) l past op ↔ ∃ a, x = .ok a ∧ Starts (f a) l past op := by
  cases x with
  | ok a =>
      constructor
      · exact fun h => ⟨a, rfl, h⟩
      · rintro ⟨b, hb, h⟩
        cases hb
        exact h
  | error e =>
      constructor
      · exact fun h => h.elim
      · rintro ⟨b, hb, -⟩
        cases hb

theorem starts_ite {c : Prop} [Decidable c] {m n : Routine Op Ans σ ε α} :
    Starts (if c then m else n) l past op ↔
      (c ∧ Starts m l past op) ∨ (¬c ∧ Starts n l past op) := by
  split_ifs with h <;> simp [h]

end Routine
end Interleaving
