import Mathlib.Tactic.Common

/-!
Work that changes a state and may throw, and the rules of its two postconditions: one for
work that returns, one for work that throws. What was changed before an exception stays
changed, so a handler finds the state in which the exception was thrown.
-/
namespace Interleaving

variable {ε σ α β : Type}

abbrev Fallible (ε σ α : Type) : Type := ExceptT ε (StateM σ) α

namespace Fallible

def step (result : Except ε α) : Fallible ε σ α :=
  fun s => (result, s)

/-- Work that is started in `s` ends in `ok` when it returns and in `failed` when it
throws. -/
def Ends (x : Fallible ε σ α) (s : σ) (ok : α → σ → Prop) (failed : ε → σ → Prop) : Prop :=
  match x s with
  | (.ok a, s') => ok a s'
  | (.error e, s') => failed e s'

variable {s : σ} {ok : α → σ → Prop} {failed : ε → σ → Prop}

theorem ends_ok {x : Fallible ε σ α} {a : α} {s' : σ} (hx : x s = (.ok a, s')) :
    Ends x s ok failed ↔ ok a s' := by
  simp only [Ends, hx]

theorem ends_error {x : Fallible ε σ α} {e : ε} {s' : σ} (hx : x s = (.error e, s')) :
    Ends x s ok failed ↔ failed e s' := by
  simp only [Ends, hx]

theorem cases (x : Fallible ε σ α) (s : σ) :
    (∃ a s', x s = (.ok a, s')) ∨ ∃ e s', x s = (.error e, s') := by
  cases hx : x s with
  | mk result s' =>
      cases result with
      | ok a => exact .inl ⟨a, s', rfl⟩
      | error e => exact .inr ⟨e, s', rfl⟩

theorem Ends.mono {x : Fallible ε σ α} {ok' : α → σ → Prop} {failed' : ε → σ → Prop}
    (h : Ends x s ok failed) (hok : ∀ a s', ok a s' → ok' a s')
    (hfailed : ∀ e s', failed e s' → failed' e s') : Ends x s ok' failed' := by
  rcases x.cases s with ⟨a, s', hx⟩ | ⟨e, s', hx⟩
  · rw [ends_ok hx] at h ⊢
    exact hok a s' h
  · rw [ends_error hx] at h ⊢
    exact hfailed e s' h

theorem ends_pure {a : α} (h : ok a s) : Ends (pure a) s ok failed :=
  h

theorem ends_throw {e : ε} (h : failed e s) : Ends (throw e : Fallible ε σ α) s ok failed :=
  h

theorem ends_step {result : Except ε α} (hok : ∀ a, result = .ok a → ok a s)
    (hfailed : ∀ e, result = .error e → failed e s) : Ends (step result) s ok failed := by
  cases result with
  | ok a => exact hok a rfl
  | error e => exact hfailed e rfl

theorem ends_modify {f : σ → σ} {ok : PUnit → σ → Prop} (h : ok ⟨⟩ (f s)) :
    Ends (modify f : Fallible ε σ PUnit) s ok failed :=
  h

theorem ends_get {ok : σ → σ → Prop} (h : ok s s) :
    Ends (MonadState.get : Fallible ε σ σ) s ok failed :=
  h

/-- The second part starts where the first one returned. -/
theorem ends_bind {x : Fallible ε σ α} {f : α → Fallible ε σ β} {ok : β → σ → Prop}
    (h : Ends x s (fun a s' => Ends (f a) s' ok failed) failed) :
    Ends (x >>= f) s ok failed := by
  have hbind : (x >>= f) s = StateT.bind x (ExceptT.bindCont f) s := rfl
  rcases x.cases s with ⟨a, s', hx⟩ | ⟨e, s', hx⟩
  · have hrun : (x >>= f) s = f a s' := by
      rw [hbind, StateT.bind, hx]
      rfl
    rw [ends_ok hx] at h
    unfold Ends at h ⊢
    rwa [hrun]
  · have hrun : (x >>= f) s = (.error e, s') := by
      rw [hbind, StateT.bind, hx]
      rfl
    rw [ends_error hx] at h
    rwa [ends_error hrun]

theorem ends_map {x : Fallible ε σ α} {f : α → β} {ok : β → σ → Prop}
    (h : Ends x s (fun a s' => ok (f a) s') failed) : Ends (f <$> x) s ok failed := by
  rw [← bind_pure_comp]
  exact ends_bind (h.mono (fun a s' ha => ends_pure ha) fun e s' he => he)

/-- A handler starts where the work threw. -/
theorem ends_tryCatch {x : Fallible ε σ α} {handle : ε → Fallible ε σ α}
    (h : Ends x s ok fun e s' => Ends (handle e) s' ok failed) :
    Ends (tryCatch x handle) s ok failed := by
  rcases x.cases s with ⟨a, s', hx⟩ | ⟨e, s', hx⟩
  · have hrun : (tryCatch x handle : Fallible ε σ α) s = (.ok a, s') := by
      simp only [tryCatch, tryCatchThe, MonadExceptOf.tryCatch, ExceptT.tryCatch, ExceptT.mk,
        Bind.bind, StateT.bind, hx]
      rfl
    rw [ends_ok hx] at h
    rwa [ends_ok hrun]
  · have hrun : (tryCatch x handle : Fallible ε σ α) s = handle e s' := by
      simp only [tryCatch, tryCatchThe, MonadExceptOf.tryCatch, ExceptT.tryCatch, ExceptT.mk,
        Bind.bind, StateT.bind, hx]
    rw [ends_error hx] at h
    unfold Ends at h ⊢
    rwa [hrun]

/-- Work is done, or compensated: where it throws, the handler ends in what held before,
and throws as well. -/
theorem ends_compensated {x : Fallible ε σ α} {undo : ε → Fallible ε σ PUnit}
    (h : Ends x s ok fun e s' =>
      Ends (undo e) s' (fun _ s'' => failed e s'') fun e' s'' => failed e' s'') :
    Ends (tryCatch x fun e => do undo e; throw e) s ok failed :=
  ends_tryCatch (h.mono (fun _ _ ha => ha) fun _ _ he =>
    ends_bind (he.mono (fun _ _ hdone => ends_throw hdone) fun _ _ hfailed => hfailed))

end Fallible
end Interleaving
