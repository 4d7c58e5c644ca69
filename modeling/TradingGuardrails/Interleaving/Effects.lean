import TradingGuardrails.Interleaving.Program

/-!
The effects of programs: the operations that a program may perform at all, whatever it is
answered. An effect has no state, so it is read off the constructs of a routine one by one;
a program obeys every contract that always allows its effects.
-/
namespace Interleaving

variable {Op : Type} {Ans : Op → Type} {σ ε α β : Type} {E E' : Op → Prop}

namespace Program

def Within (E : Op → Prop) : Program Op Ans α → Prop
  | .done _ => True
  | .act op next => E op ∧ ∀ a, Within E (next a)

theorem Within.mono {p : Program Op Ans α} (h : p.Within E) (himp : ∀ op, E op → E' op) :
    p.Within E' := by
  induction p with
  | done v => exact True.intro
  | act op next ih => exact ⟨himp op h.1, fun a => ih a (h.2 a)⟩

theorem within_bind {p : Program Op Ans α} {f : α → Program Op Ans β} (hp : p.Within E)
    (hf : ∀ v, (f v).Within E) : (p.bind f).Within E := by
  induction p with
  | done v => exact hf v
  | act op next ih => exact ⟨hp.1, fun a => ih a (hp.2 a)⟩

variable {C : Contract Op Ans}

theorem Within.obeys {p : Program Op Ans α} (h : p.Within E)
    (hallowed : ∀ s op, E op → C.allowed s op) {post : C.State → α → Prop}
    (hpost : ∀ s v, post s v) (s : C.State) : p.Obeys C post s := by
  induction p generalizing s with
  | done v => exact hpost s v
  | act op next ih => exact ⟨hallowed s op h.1, fun a => ih a (h.2 a) (C.next s op a)⟩

/-- A program has no effects but those that its contract allows in the states that it
gets into. -/
theorem Obeys.within_of {p : Program Op Ans α} {post : C.State → α → Prop} {s : C.State}
    {I : C.State → Prop} (h : p.Obeys C post s) (hs : I s)
    (hnext : ∀ s op a, I s → C.allowed s op → I (C.next s op a))
    (himp : ∀ s op, I s → C.allowed s op → E op) : p.Within E := by
  induction p generalizing s with
  | done v => exact True.intro
  | act op next ih =>
      exact ⟨himp s op hs h.1, fun a => ih a (h.2 a) (hnext s op a hs h.1)⟩

theorem Obeys.within {p : Program Op Ans α} {post : C.State → α → Prop} {s : C.State}
    (h : p.Obeys C post s) (himp : ∀ s op, C.allowed s op → E op) : p.Within E :=
  h.within_of (I := fun _ => True) True.intro (fun _ _ _ _ _ => True.intro)
    fun s op _ hallowed => himp s op hallowed

theorem within_true (p : Program Op Ans α) : p.Within fun _ => True := by
  induction p with
  | done v => exact True.intro
  | act op next ih => exact ⟨True.intro, ih⟩

end Program

namespace Routine

def Within (E : Op → Prop) (m : Routine Op Ans σ ε α) : Prop :=
  ∀ l, (m l).Within E

@[simp] theorem within_pure {a : α} : Within E (pure a : Routine Op Ans σ ε α) :=
  fun _ => True.intro

@[simp] theorem within_throw {e : ε} : Within E (throw e : Routine Op Ans σ ε α) :=
  fun _ => True.intro

@[simp] theorem within_get : Within E (get : Routine Op Ans σ ε σ) :=
  fun _ => True.intro

@[simp] theorem within_modify {f : σ → σ} : Within E (modify f : Routine Op Ans σ ε PUnit) :=
  fun _ => True.intro

@[simp] theorem within_ofExcept {x : Except ε α} :
    Within E (ofExcept x : Routine Op Ans σ ε α) := by
  cases x with
  | ok a => exact within_pure
  | error e => exact within_throw

theorem within_perform {op : Op} (h : E op) :
    Within E (perform op : Routine Op Ans σ ε (Ans op)) :=
  fun _ => ⟨h, fun _ => True.intro⟩

theorem within_bind {m : Routine Op Ans σ ε α} {f : α → Routine Op Ans σ ε β}
    (hm : m.Within E) (hf : ∀ a, (f a).Within E) : Within E (m >>= f) := by
  intro l
  refine Program.within_bind (hm l) ?_
  rintro ⟨r, l'⟩
  cases r with
  | ok a => exact hf a l'
  | error e => exact True.intro

theorem within_map {m : Routine Op Ans σ ε α} {f : α → β} (hm : m.Within E) :
    Within E (f <$> m) :=
  within_bind hm fun _ => within_pure

theorem within_tryCatch {m : Routine Op Ans σ ε α} {handler : ε → Routine Op Ans σ ε α}
    (hm : m.Within E) (hhandler : ∀ e, (handler e).Within E) :
    Within E (tryCatch m handler) := by
  intro l
  refine Program.within_bind (hm l) ?_
  rintro ⟨r, l'⟩
  cases r with
  | ok a => exact True.intro
  | error e => exact hhandler e l'

theorem within_withLocals {τ : Type} {init : τ} {m : Routine Op Ans τ ε α} (hm : m.Within E) :
    Within E (withLocals init m : Routine Op Ans σ ε α) :=
  fun _ => Program.within_bind (hm init) fun _ => True.intro

theorem within_ite {c : Prop} [Decidable c] {m n : Routine Op Ans σ ε α} (hm : m.Within E)
    (hn : n.Within E) : Within E (if c then m else n) := by
  split_ifs
  · exact hm
  · exact hn

variable {C : Contract Op Ans} {ok : C.State → σ → α → Prop} {err : C.State → σ → ε → Prop}

theorem Within.obeys {m : Routine Op Ans σ ε α} (h : m.Within E)
    (hallowed : ∀ s op, E op → C.allowed s op) (hok : ∀ s l a, ok s l a)
    (herr : ∀ s l e, err s l e) (s : C.State) (l : σ) : m.Obeys C ok err s l := by
  refine Program.Within.obeys (h l) hallowed ?_ s
  rintro s ⟨r, l'⟩
  cases r with
  | ok a => exact hok s l' a
  | error e => exact herr s l' e

end Routine
end Interleaving
