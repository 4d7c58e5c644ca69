import Mathlib.Tactic.Common

/-!
Programs as trees of operations, and contracts on them. A program performs one
operation, receives its answer and goes on, so an execution can be cut at any
operation. A contract is a state that is advanced by every operation together with the
operations that it allows; a program obeys a contract when, whatever answers it gets,
it performs only allowed operations and ends in a state that fits its result. Routines
add the local variables and exceptions of a structured language, and each construct of
that language has one rule.
-/
namespace Interleaving

inductive Program (Op : Type) (Ans : Op → Type) (α : Type) where
  | done (value : α)
  | act (op : Op) (next : Ans op → Program Op Ans α)

namespace Program

variable {Op : Type} {Ans : Op → Type} {α β : Type}

def bind : Program Op Ans α → (α → Program Op Ans β) → Program Op Ans β
  | .done v, f => f v
  | .act op next, f => .act op fun a => bind (next a) f

end Program

/-- Operations allowed in a state that every operation advances. -/
structure Contract (Op : Type) (Ans : Op → Type) where
  State : Type
  next : State → (op : Op) → Ans op → State
  allowed : State → Op → Prop

/-- An operation that is allowed in a state and leaves it as it is. -/
def Contract.Inert {Op : Type} {Ans : Op → Type} (C : Contract Op Ans) (s : C.State)
    (op : Op) : Prop :=
  C.allowed s op ∧ ∀ a, C.next s op a = s

namespace Program

variable {Op : Type} {Ans : Op → Type} {α β : Type} (C : Contract Op Ans)

def Obeys (post : C.State → α → Prop) : C.State → Program Op Ans α → Prop
  | s, .done v => post s v
  | s, .act op next => C.allowed s op ∧ ∀ a, Obeys post (C.next s op a) (next a)

variable {C}

theorem Obeys.mono {post post' : C.State → α → Prop} {p : Program Op Ans α} {s : C.State}
    (h : p.Obeys C post s) (himp : ∀ s v, post s v → post' s v) : p.Obeys C post' s := by
  induction p generalizing s with
  | done v => exact himp s v h
  | act op next ih => exact ⟨h.1, fun a => ih a (h.2 a)⟩

/-- A program that obeys a contract obeys every contract that the first one embeds in. -/
theorem Obeys.embed (C' : Contract Op Ans) (f : C.State → C'.State)
    (next : ∀ s op a, C.allowed s op → C'.next (f s) op a = f (C.next s op a))
    (allowed : ∀ s op, C.allowed s op → C'.allowed (f s) op)
    {post : C.State → α → Prop} {post' : C'.State → α → Prop}
    (himp : ∀ s v, post s v → post' (f s) v) {p : Program Op Ans α} {s : C.State}
    (h : p.Obeys C post s) : p.Obeys C' post' (f s) := by
  induction p generalizing s with
  | done v => exact himp s v h
  | act op next' ih =>
      refine ⟨allowed s op h.1, fun a => ?_⟩
      rw [next s op a h.1]
      exact ih a (h.2 a)

theorem obeys_bind {post : C.State → β → Prop} {p : Program Op Ans α}
    {f : α → Program Op Ans β} {s : C.State} :
    (p.bind f).Obeys C post s ↔ p.Obeys C (fun s v => (f v).Obeys C post s) s := by
  induction p generalizing s with
  | done v => exact Iff.rfl
  | act op next ih => exact and_congr Iff.rfl (forall_congr' fun a => ih a)

end Program

/-- The operations that a program performed, each with the answer that it got. -/
abbrev Trace (Op : Type) (Ans : Op → Type) := List ((op : Op) × Ans op)

namespace Program

variable {Op : Type} {Ans : Op → Type} {α β : Type}

/-- A program performs exactly the operations of a trace, and returns a result. -/
def Yields : Program Op Ans α → Trace Op Ans → α → Prop
  | .done v, trace, r => trace = [] ∧ v = r
  | .act op next, trace, r => ∃ a rest, trace = ⟨op, a⟩ :: rest ∧ Yields (next a) rest r

/-- The answers decide the result. -/
theorem Yields.unique {p : Program Op Ans α} {trace : Trace Op Ans} {r r' : α}
    (h : p.Yields trace r) (h' : p.Yields trace r') : r = r' := by
  induction p generalizing trace with
  | done v => exact h.2.symm.trans h'.2
  | act op next ih =>
      obtain ⟨a, rest, rfl, h⟩ := h
      obtain ⟨a', rest', heq, h'⟩ := h'
      cases heq
      exact ih a h h'

theorem yields_bind {p : Program Op Ans α} {f : α → Program Op Ans β} {trace : Trace Op Ans}
    {r : β} : (p.bind f).Yields trace r ↔
      ∃ first rest v, trace = first ++ rest ∧ p.Yields first v ∧ (f v).Yields rest r := by
  induction p generalizing trace with
  | done v =>
      constructor
      · exact fun h => ⟨[], trace, v, rfl, ⟨rfl, rfl⟩, h⟩
      · rintro ⟨first, rest, w, rfl, ⟨rfl, rfl⟩, h⟩
        exact h
  | act op next ih =>
      constructor
      · rintro ⟨a, trace, rfl, h⟩
        obtain ⟨first, rest, v, rfl, hfirst, hrest⟩ := (ih a).mp h
        exact ⟨⟨op, a⟩ :: first, rest, v, rfl, ⟨a, first, rfl, hfirst⟩, hrest⟩
      · rintro ⟨-, rest, v, rfl, ⟨a, first, rfl, hfirst⟩, hrest⟩
        exact ⟨a, first ++ rest, rfl, (ih a).mpr ⟨first, rest, v, rfl, hfirst, hrest⟩⟩

end Program

/-- A program with local variables that may end in an exception. The variables keep
their values when an exception is raised. -/
def Routine (Op : Type) (Ans : Op → Type) (σ ε α : Type) : Type :=
  σ → Program Op Ans (Except ε α × σ)

namespace Routine

variable {Op : Type} {Ans : Op → Type} {σ ε α β : Type}

instance : Monad (Routine Op Ans σ ε) where
  pure a := fun l => .done (.ok a, l)
  bind m f := fun l => (m l).bind fun
    | (.ok a, l') => f a l'
    | (.error e, l') => .done (.error e, l')

instance : MonadExceptOf ε (Routine Op Ans σ ε) where
  throw e := fun l => .done (.error e, l)
  tryCatch m handler := fun l => (m l).bind fun
    | (.ok a, l') => .done (.ok a, l')
    | (.error e, l') => handler e l'

instance : MonadStateOf σ (Routine Op Ans σ ε) where
  get := fun l => .done (.ok l, l)
  set l := fun _ => .done (.ok ⟨⟩, l)
  modifyGet f := fun l => .done (.ok (f l).1, (f l).2)

def perform (op : Op) : Routine Op Ans σ ε (Ans op) :=
  fun l => .act op fun a => .done (.ok a, l)

def ofExcept : Except ε α → Routine Op Ans σ ε α
  | .ok a => pure a
  | .error e => throw e

def withLocals {τ : Type} (init : τ) (m : Routine Op Ans τ ε α) : Routine Op Ans σ ε α :=
  fun l => (m init).bind fun r => .done (r.1, l)

variable (C : Contract Op Ans)

def Obeys (ok : C.State → σ → α → Prop) (err : C.State → σ → ε → Prop) (s : C.State) (l : σ)
    (m : Routine Op Ans σ ε α) : Prop :=
  (m l).Obeys C (fun s r => match r with
    | (.ok a, l') => ok s l' a
    | (.error e, l') => err s l' e) s

variable {C} {ok : C.State → σ → α → Prop} {err : C.State → σ → ε → Prop} {s : C.State} {l : σ}

theorem Obeys.mono {ok' : C.State → σ → α → Prop} {err' : C.State → σ → ε → Prop}
    {m : Routine Op Ans σ ε α} (h : m.Obeys C ok err s l)
    (hok : ∀ s l a, ok s l a → ok' s l a) (herr : ∀ s l e, err s l e → err' s l e) :
    m.Obeys C ok' err' s l := by
  refine Program.Obeys.mono h ?_
  rintro s ⟨r, l'⟩ hr
  cases r with
  | ok a => exact hok _ _ _ hr
  | error e => exact herr _ _ _ hr

@[simp] theorem obeys_pure {a : α} :
    Obeys C ok err s l (pure a : Routine Op Ans σ ε α) ↔ ok s l a :=
  Iff.rfl

@[simp] theorem obeys_throw {e : ε} :
    Obeys C ok err s l (throw e : Routine Op Ans σ ε α) ↔ err s l e :=
  Iff.rfl

@[simp] theorem obeys_bind {ok : C.State → σ → β → Prop} {m : Routine Op Ans σ ε α}
    {f : α → Routine Op Ans σ ε β} :
    Obeys C ok err s l (m >>= f) ↔ Obeys C (fun s l a => Obeys C ok err s l (f a)) err s l m := by
  refine Program.obeys_bind.trans ?_
  constructor
  · intro h
    refine Program.Obeys.mono h ?_
    rintro s ⟨r, l'⟩ hr
    cases r <;> exact hr
  · intro h
    refine Program.Obeys.mono h ?_
    rintro s ⟨r, l'⟩ hr
    cases r <;> exact hr

@[simp] theorem obeys_map {ok : C.State → σ → β → Prop} {m : Routine Op Ans σ ε α} {f : α → β} :
    Obeys C ok err s l (f <$> m) ↔ Obeys C (fun s l a => ok s l (f a)) err s l m :=
  obeys_bind

@[simp] theorem obeys_tryCatch {m : Routine Op Ans σ ε α} {handler : ε → Routine Op Ans σ ε α} :
    Obeys C ok err s l (tryCatch m handler) ↔
      Obeys C ok (fun s l e => Obeys C ok err s l (handler e)) s l m := by
  refine Program.obeys_bind.trans ?_
  constructor
  · intro h
    refine Program.Obeys.mono h ?_
    rintro s ⟨r, l'⟩ hr
    cases r <;> exact hr
  · intro h
    refine Program.Obeys.mono h ?_
    rintro s ⟨r, l'⟩ hr
    cases r <;> exact hr

@[simp] theorem obeys_perform {op : Op} {ok : C.State → σ → Ans op → Prop} :
    Obeys C ok err s l (perform op : Routine Op Ans σ ε (Ans op)) ↔
      C.allowed s op ∧ ∀ a, ok (C.next s op a) l a :=
  Iff.rfl

theorem obeys_perform_inert {op : Op} {ok : C.State → σ → Ans op → Prop} (h : C.Inert s op) :
    Obeys C ok err s l (perform op : Routine Op Ans σ ε (Ans op)) ↔ ∀ a, ok s l a := by
  simp only [obeys_perform, h.1, true_and, h.2]

@[simp] theorem obeys_get {ok : C.State → σ → σ → Prop} :
    Obeys C ok err s l (get : Routine Op Ans σ ε σ) ↔ ok s l l :=
  Iff.rfl

@[simp] theorem obeys_modify {ok : C.State → σ → PUnit → Prop} {f : σ → σ} :
    Obeys C ok err s l (modify f : Routine Op Ans σ ε PUnit) ↔ ok s (f l) ⟨⟩ :=
  Iff.rfl

@[simp] theorem obeys_ofExcept_ok {a : α} :
    Obeys C ok err s l (ofExcept (.ok a) : Routine Op Ans σ ε α) ↔ ok s l a :=
  Iff.rfl

@[simp] theorem obeys_ofExcept_error {e : ε} :
    Obeys C ok err s l (ofExcept (.error e) : Routine Op Ans σ ε α) ↔ err s l e :=
  Iff.rfl

theorem obeys_ofExcept {x : Except ε α} :
    Obeys C ok err s l (ofExcept x : Routine Op Ans σ ε α) ↔
      (∀ a, x = .ok a → ok s l a) ∧ ∀ e, x = .error e → err s l e := by
  cases x <;> simp

@[simp] theorem obeys_withLocals {τ : Type} {init : τ} {m : Routine Op Ans τ ε α} :
    Obeys C ok err s l (withLocals init m) ↔
      Obeys C (fun s _ a => ok s l a) (fun s _ e => err s l e) s init m := by
  refine Program.obeys_bind.trans ?_
  constructor
  · intro h
    refine Program.Obeys.mono h ?_
    rintro s ⟨r, l'⟩ hr
    cases r <;> exact hr
  · intro h
    refine Program.Obeys.mono h ?_
    rintro s ⟨r, l'⟩ hr
    cases r <;> exact hr

theorem obeys_ite {c : Prop} [Decidable c] {m n : Routine Op Ans σ ε α} :
    Obeys C ok err s l (if c then m else n) ↔
      (c → Obeys C ok err s l m) ∧ (¬c → Obeys C ok err s l n) := by
  split_ifs with h <;> simp [h]

def Returns (m : Routine Op Ans σ ε α) (l : σ) (trace : Trace Op Ans) (a : α) (l' : σ) : Prop :=
  (m l).Yields trace (.ok a, l')

variable {l' : σ} {trace : Trace Op Ans}

theorem returns_pure {a b : α} :
    Returns (pure a : Routine Op Ans σ ε α) l trace b l' ↔ trace = [] ∧ a = b ∧ l = l' := by
  simp [Returns, Program.Yields, pure]

theorem returns_throw {e : ε} {b : α} :
    ¬Returns (throw e : Routine Op Ans σ ε α) l trace b l' := by
  simp [Returns, Program.Yields, throw, throwThe, MonadExceptOf.throw]

theorem returns_bind {m : Routine Op Ans σ ε α} {f : α → Routine Op Ans σ ε β} {b : β} :
    Returns (m >>= f) l trace b l' ↔ ∃ first rest a l₁, trace = first ++ rest ∧
      Returns m l first a l₁ ∧ Returns (f a) l₁ rest b l' := by
  refine Program.yields_bind.trans ?_
  constructor
  · rintro ⟨first, rest, ⟨r, l₁⟩, rfl, hfirst, hrest⟩
    cases r with
    | ok a => exact ⟨first, rest, a, l₁, rfl, hfirst, hrest⟩
    | error e => exact absurd hrest.2 (by simp)
  · rintro ⟨first, rest, a, l₁, rfl, hfirst, hrest⟩
    exact ⟨first, rest, (.ok a, l₁), rfl, hfirst, hrest⟩

theorem returns_perform {op : Op} {a : Ans op} :
    Returns (perform op : Routine Op Ans σ ε (Ans op)) l trace a l' ↔
      trace = [⟨op, a⟩] ∧ l = l' := by
  constructor
  · rintro ⟨b, rest, rfl, rfl, heq⟩
    cases heq
    exact ⟨rfl, rfl⟩
  · rintro ⟨rfl, rfl⟩
    exact ⟨a, [], rfl, rfl, rfl⟩

theorem returns_ofExcept {x : Except ε α} {a : α} :
    Returns (ofExcept x : Routine Op Ans σ ε α) l trace a l' ↔ trace = [] ∧ x = .ok a ∧ l = l' := by
  cases x with
  | ok b =>
      rw [Except.ok.injEq]
      exact returns_pure
  | error e => simp [ofExcept, returns_throw]

theorem returns_perform_bind {op : Op} {f : Ans op → Routine Op Ans σ ε β} {b : β} :
    Returns (perform op >>= f) l trace b l' ↔
      ∃ answer rest, trace = ⟨op, answer⟩ :: rest ∧ Returns (f answer) l rest b l' := by
  rw [returns_bind]
  constructor
  · rintro ⟨first, rest, answer, l₁, rfl, hop, hrest⟩
    obtain ⟨rfl, rfl⟩ := returns_perform.mp hop
    exact ⟨answer, rest, rfl, hrest⟩
  · rintro ⟨answer, rest, rfl, hrest⟩
    exact ⟨[⟨op, answer⟩], rest, answer, l, rfl, returns_perform.mpr ⟨rfl, rfl⟩, hrest⟩

theorem returns_ite {c : Prop} [Decidable c] {m n : Routine Op Ans σ ε α} {a : α} :
    Returns (if c then m else n) l trace a l' ↔
      (c ∧ Returns m l trace a l') ∨ (¬c ∧ Returns n l trace a l') := by
  split_ifs with h <;> simp [h]

theorem returns_ofExcept_bind {x : Except ε α} {f : α → Routine Op Ans σ ε β} {b : β} :
    Returns (ofExcept x >>= f) l trace b l' ↔ ∃ a, x = .ok a ∧ Returns (f a) l trace b l' := by
  rw [returns_bind]
  constructor
  · rintro ⟨first, rest, a, l₁, rfl, hfirst, hrest⟩
    obtain ⟨rfl, hvalue, rfl⟩ := returns_ofExcept.mp hfirst
    exact ⟨a, hvalue, hrest⟩
  · rintro ⟨a, hvalue, hrest⟩
    exact ⟨[], trace, a, l, rfl, returns_ofExcept.mpr ⟨rfl, hvalue, rfl⟩, hrest⟩

end Routine
end Interleaving
