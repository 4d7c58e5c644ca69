import TradingGuardrails.Interleaving.Program

/-!
Programs that run alone on a state and may be interrupted. Operations answer by the state that
they work on, so a program has one run; cutting it off after a number of operations leaves what
those operations have done. What holds of every state that a program goes through holds wherever
it is cut off.
-/
namespace Interleaving

namespace Program

variable {Op : Type} {Ans : Op → Type} {α β τ : Type} (exec : (op : Op) → τ → Ans op × τ)

def run : Program Op Ans α → τ → α × τ
  | .done v, s => (v, s)
  | .act op next, s => run (next (exec op s).1) (exec op s).2

def steps : Program Op Ans α → τ → Nat
  | .done _, _ => 0
  | .act op next, s => steps (next (exec op s).1) (exec op s).2 + 1

def cut : Nat → Program Op Ans α → τ → τ
  | 0, _, s => s
  | _ + 1, .done _, s => s
  | n + 1, .act op next, s => cut n (next (exec op s).1) (exec op s).2

theorem run_bind (p : Program Op Ans α) (f : α → Program Op Ans β) (s : τ) :
    run exec (p.bind f) s = run exec (f (run exec p s).1) (run exec p s).2 := by
  induction p generalizing s with
  | done v => rfl
  | act op next ih => exact ih _ _

theorem steps_bind (p : Program Op Ans α) (f : α → Program Op Ans β) (s : τ) :
    steps exec (p.bind f) s = steps exec p s +
      steps exec (f (run exec p s).1) (run exec p s).2 := by
  induction p generalizing s with
  | done v => exact (Nat.zero_add _).symm
  | act op next ih =>
      simp only [bind, steps, run, ih]
      omega

@[simp] theorem cut_zero (p : Program Op Ans α) (s : τ) : cut exec 0 p s = s := by
  cases p <;> rfl

@[simp] theorem cut_done (n : Nat) (v : α) (s : τ) :
    cut exec n (.done v : Program Op Ans α) s = s := by
  cases n <;> rfl

/-- A program in two parts is cut off in the first or in the second. -/
theorem cut_bind (n : Nat) (p : Program Op Ans α) (f : α → Program Op Ans β) (s : τ) :
    cut exec n (p.bind f) s = if n ≤ steps exec p s then cut exec n p s
      else cut exec (n - steps exec p s) (f (run exec p s).1) (run exec p s).2 := by
  induction p generalizing n s with
  | done v =>
      cases n with
      | zero => simp [bind]
      | succ n => simp [bind, steps, run]
  | act op next ih =>
      cases n with
      | zero => simp
      | succ n =>
          simp only [bind, cut, steps, run, ih, Nat.add_le_add_iff_right, Nat.add_sub_add_right]

theorem cut_run {n : Nat} {p : Program Op Ans α} {s : τ} (h : steps exec p s ≤ n) :
    cut exec n p s = (run exec p s).2 := by
  induction p generalizing n s with
  | done v => exact cut_done exec n v s
  | act op next ih =>
      cases n with
      | zero => exact absurd h (Nat.not_succ_le_zero _)
      | succ n => exact ih _ (Nat.le_of_succ_le_succ h)

/-- A program goes through states of one kind, and ends with a result of a kind. -/
def Through (P : τ → Prop) (post : τ → α → Prop) : Program Op Ans α → τ → Prop
  | .done v, s => P s ∧ post s v
  | .act op next, s => P s ∧ Through P post (next (exec op s).1) (exec op s).2

variable {exec} {P : τ → Prop} {p : Program Op Ans α} {s : τ}

theorem Through.start {post : τ → α → Prop} (h : p.Through exec P post s) : P s := by
  cases p with
  | done v => exact h.1
  | act op next => exact h.1

theorem Through.mono {P' : τ → Prop} {post post' : τ → α → Prop} (h : p.Through exec P post s)
    (hP : ∀ s, P s → P' s) (hpost : ∀ s v, P s → post s v → post' s v) :
    p.Through exec P' post' s := by
  induction p generalizing s with
  | done v => exact ⟨hP s h.1, hpost s v h.1 h.2⟩
  | act op next ih => exact ⟨hP s h.1, ih _ h.2⟩

theorem Through.cut {post : τ → α → Prop} (h : p.Through exec P post s) (n : Nat) :
    P (cut exec n p s) := by
  induction p generalizing n s with
  | done v =>
      rw [cut_done]
      exact h.1
  | act op next ih =>
      cases n with
      | zero => exact h.1
      | succ n => exact ih _ h.2 n

theorem Through.run {post : τ → α → Prop} (h : p.Through exec P post s) :
    post (run exec p s).2 (run exec p s).1 := by
  induction p generalizing s with
  | done v => exact h.2
  | act op next ih => exact ih _ h.2

theorem Through.bind {post : τ → β → Prop} {f : α → Program Op Ans β}
    (h : p.Through exec P (fun s v => (f v).Through exec P post s) s) :
    (p.bind f).Through exec P post s := by
  induction p generalizing s with
  | done v => exact h.2
  | act op next ih => exact ⟨h.1, ih _ h.2⟩

end Program

namespace Routine

variable {Op : Type} {Ans : Op → Type} {σ ε α β τ : Type} (exec : (op : Op) → τ → Ans op × τ)

def outcome (m : Routine Op Ans σ ε α) (l : σ) (s : τ) : Except ε α × τ :=
  (((m l).run exec s).1.1, ((m l).run exec s).2)

/-- A routine goes through states of one kind, and returns or throws in a kind of state. -/
def Through (P : τ → Prop) (ok : τ → α → Prop) (err : τ → ε → Prop) (s : τ) (l : σ)
    (m : Routine Op Ans σ ε α) : Prop :=
  (m l).Through exec P (fun s r => match r with
    | (.ok a, _) => ok s a
    | (.error e, _) => err s e) s

variable {exec} {P : τ → Prop} {s : τ} {l : σ} {err : τ → ε → Prop}

theorem Through.mono {P' : τ → Prop} {ok ok' : τ → α → Prop} {err' : τ → ε → Prop}
    {m : Routine Op Ans σ ε α} (h : m.Through exec P ok err s l) (hP : ∀ s, P s → P' s)
    (hok : ∀ s a, P s → ok s a → ok' s a) (herr : ∀ s e, P s → err s e → err' s e) :
    m.Through exec P' ok' err' s l := by
  refine Program.Through.mono h hP ?_
  intro s r hs hr
  obtain ⟨result, l'⟩ := r
  cases result with
  | ok a => exact hok s a hs hr
  | error e => exact herr s e hs hr

theorem through_pure {ok : τ → α → Prop} {a : α} (hs : P s) (h : ok s a) :
    Through exec P ok err s l (pure a : Routine Op Ans σ ε α) :=
  ⟨hs, h⟩

theorem through_throw {ok : τ → α → Prop} {e : ε} (hs : P s) (h : err s e) :
    Through exec P ok err s l (throw e : Routine Op Ans σ ε α) :=
  ⟨hs, h⟩

theorem through_ofExcept {ok : τ → α → Prop} {x : Except ε α} (hs : P s)
    (hok : ∀ a, x = .ok a → ok s a) (herr : ∀ e, x = .error e → err s e) :
    Through exec P ok err s l (ofExcept x : Routine Op Ans σ ε α) := by
  cases x with
  | ok a => exact through_pure hs (hok a rfl)
  | error e => exact through_throw hs (herr e rfl)

theorem through_bind {ok : τ → β → Prop} {m : Routine Op Ans Unit ε α}
    {f : α → Routine Op Ans Unit ε β}
    (h : m.Through exec P (fun s a => (f a).Through exec P ok err s ()) err s ()) :
    (m >>= f).Through exec P ok err s () := by
  refine Program.Through.bind (Program.Through.mono h (fun _ hs => hs) ?_)
  intro s r hs hr
  obtain ⟨result, l'⟩ := r
  cases result with
  | ok a => exact hr
  | error e => exact ⟨hs, hr⟩

/-- A routine for each element of a list, in turn. -/
theorem through_forM {f : α → Routine Op Ans Unit ε PUnit} {l : List α}
    {I : List α → τ → Prop} (hI : ∀ rest s, I rest s → P s)
    (hstep : ∀ a rest s, I (a :: rest) s → (f a).Through exec P (fun s _ => I rest s) err s ())
    (hs : I l s) : Through exec P (fun s _ => I [] s) err s () (l.forM f) := by
  induction l generalizing s with
  | nil => exact through_pure (hI [] s hs) hs
  | cons a l ih =>
      refine through_bind ((hstep a l s hs).mono (fun _ hs => hs) ?_ fun _ _ _ he => he)
      exact fun s _ _ hrest => ih hrest

/-- A routine that never throws returns. -/
theorem Through.returns {ok : τ → α → Prop} {m : Routine Op Ans σ ε α}
    (h : m.Through exec P ok (fun _ _ => False) s l) :
    ∃ a s', outcome exec m l s = (.ok a, s') ∧ P s' ∧ ok s' a := by
  have hP := Program.Through.cut h ((m l).steps exec s)
  have hpost := Program.Through.run h
  rw [Program.cut_run exec (Nat.le_refl _)] at hP
  unfold outcome
  generalize (m l).run exec s = final at hP hpost
  obtain ⟨⟨result, l'⟩, s'⟩ := final
  cases result with
  | error e => exact hpost.elim
  | ok a => exact ⟨a, s', rfl, hP, hpost⟩

/-- A routine that returns is followed by the rest. -/
theorem outcome_bind {m : Routine Op Ans Unit ε α} {f : α → Routine Op Ans Unit ε β} {a : α}
    {s' : τ} (h : outcome exec m () s = (.ok a, s')) :
    outcome exec (m >>= f) () s = outcome exec (f a) () s' := by
  obtain ⟨hresult, rfl⟩ := Prod.mk.inj h
  have hrun : Program.run exec ((m >>= f) ()) s = _ := Program.run_bind exec (m ()) _ s
  simp only [outcome, hrun]
  cases hr : ((m ()).run exec s).1 with
  | mk result l' =>
      rw [hr] at hresult
      cases hresult
      rfl

theorem steps_bind {m : Routine Op Ans Unit ε α} {f : α → Routine Op Ans Unit ε β} {a : α}
    {s' : τ} (h : outcome exec m () s = (.ok a, s')) :
    ((m >>= f) ()).steps exec s = (m ()).steps exec s + (f a ()).steps exec s' := by
  obtain ⟨hresult, rfl⟩ := Prod.mk.inj h
  have hsteps : ((m >>= f) ()).steps exec s = _ := Program.steps_bind exec (m ()) _ s
  rw [hsteps]
  cases hr : ((m ()).run exec s).1 with
  | mk result l' =>
      rw [hr] at hresult
      cases hresult
      rfl

theorem cut_bind {m : Routine Op Ans Unit ε α} {f : α → Routine Op Ans Unit ε β} {a : α}
    {s' : τ} (h : outcome exec m () s = (.ok a, s')) (n : Nat) :
    Program.cut exec n ((m >>= f) ()) s =
      if n ≤ (m ()).steps exec s then Program.cut exec n (m ()) s
      else Program.cut exec (n - (m ()).steps exec s) (f a ()) s' := by
  obtain ⟨hresult, rfl⟩ := Prod.mk.inj h
  have hcut : Program.cut exec n ((m >>= f) ()) s = _ := Program.cut_bind exec n (m ()) _ s
  rw [hcut]
  cases hr : ((m ()).run exec s).1 with
  | mk result l' =>
      rw [hr] at hresult
      cases hresult
      rfl

end Routine
end Interleaving
