import Mathlib.Data.List.Perm.Basic
import Mathlib.Tactic.Common

/-!
Folding a step that may fail over a list. Results are compared up to which error is thrown:
two folds agree when they return the same or fail both. Steps that commute may be exchanged, so
the order of a list does not matter where all of its steps commute, and after sorting only the
order of ties does, which may commute where other steps do not.
-/
namespace Replay

variable {ε σ α β : Type}

def Agree (x y : Except ε α) : Prop :=
  x.toOption = y.toOption

theorem Agree.refl (x : Except ε α) : Agree x x := rfl

theorem Agree.symm {x y : Except ε α} (h : Agree x y) : Agree y x :=
  Eq.symm h

theorem Agree.trans {x y z : Except ε α} (h : Agree x y) (h' : Agree y z) : Agree x z :=
  Eq.trans h h'

theorem agree_error (e e' : ε) : Agree (.error e : Except ε α) (.error e') := rfl

theorem agree_iff {x y : Except ε α} : Agree x y ↔ ∀ a, x = .ok a ↔ y = .ok a := by
  cases x with
  | error e =>
      cases y with
      | error e' => simp [Agree, Except.toOption]
      | ok b => simp [Agree, Except.toOption]
  | ok a =>
      cases y with
      | error e' => simp [Agree, Except.toOption]
      | ok b =>
          simp only [Agree, Except.toOption, Option.some.injEq, Except.ok.injEq]
          exact ⟨fun h c => by rw [h], fun h => ((h a).mp rfl).symm⟩

theorem agree_bind {x y : Except ε α} {f g : α → Except ε β} (h : Agree x y)
    (hf : ∀ a, x = .ok a → Agree (f a) (g a)) : Agree (x >>= f) (y >>= g) := by
  cases x with
  | error e =>
      cases y with
      | error e' => exact agree_error e e'
      | ok b => cases h
  | ok a =>
      cases y with
      | error e' => cases h
      | ok b =>
          cases h
          exact hf a rfl

variable (step : σ → α → Except ε σ)

def Commute (a b : α) : Prop :=
  ∀ s, Agree (step s a >>= fun s => step s b) (step s b >>= fun s => step s a)

variable {step}

theorem foldlM_cons_agree {a : α} {l l' : List α} {s : σ}
    (h : ∀ s, Agree (l.foldlM step s) (l'.foldlM step s)) :
    Agree ((a :: l).foldlM step s) ((a :: l').foldlM step s) := by
  rw [List.foldlM_cons, List.foldlM_cons]
  exact agree_bind (Agree.refl _) fun s _ => h s

theorem Commute.swap {a b : α} (h : Commute step a b) (l : List α) (s : σ) :
    Agree ((a :: b :: l).foldlM step s) ((b :: a :: l).foldlM step s) := by
  simp only [List.foldlM_cons, ← bind_assoc]
  exact agree_bind (h s) fun s _ => Agree.refl _

/-- A step may be taken before all steps that it commutes with. -/
theorem foldlM_middle {a : α} {first rest : List α} (h : ∀ b ∈ first, Commute step b a) (s : σ) :
    Agree ((first ++ a :: rest).foldlM step s) ((a :: (first ++ rest)).foldlM step s) := by
  induction first generalizing s with
  | nil => exact Agree.refl _
  | cons b first ih =>
      have htail : ∀ c ∈ first, Commute step c a := fun c hc => h c (List.mem_cons_of_mem b hc)
      exact (foldlM_cons_agree (ih htail)).trans ((h b List.mem_cons_self).swap _ s)

/-- Two sorted arrangements of one list agree when ties commute. -/
theorem foldlM_sorted {le : α → α → Prop} {l l' : List α} (hperm : l.Perm l')
    (hsorted : l.Pairwise le) (hsorted' : l'.Pairwise le)
    (hties : ∀ a ∈ l, ∀ b ∈ l, a ≠ b → le a b → le b a → Commute step a b) (s : σ) :
    Agree (l.foldlM step s) (l'.foldlM step s) := by
  induction l generalizing l' s with
  | nil =>
      rw [List.nil_perm.mp hperm]
      exact Agree.refl _
  | cons a l ih =>
      obtain ⟨first, rest, rfl, hfresh⟩ :=
        List.eq_append_cons_of_mem (hperm.subset List.mem_cons_self)
      have hrest : l.Perm (first ++ rest) := (hperm.trans List.perm_middle).cons_inv
      obtain ⟨hfirst, htail, hbetween⟩ := List.pairwise_append.mp hsorted'
      have hafter : (first ++ rest).Pairwise le :=
        hsorted'.sublist (List.Sublist.append_left (List.sublist_cons_self a rest) first)
      -- What stands before `a` in the other arrangement is a tie with it.
      have hcommute : ∀ b ∈ first, Commute step b a := by
        intro b hb
        have hne : b ≠ a := by
          rintro rfl
          exact hfresh hb
        have hmem : b ∈ l := hrest.symm.subset (List.mem_append_left _ hb)
        exact hties b (List.mem_cons_of_mem a hmem) a List.mem_cons_self hne
          (hbetween b hb a List.mem_cons_self) ((List.pairwise_cons.mp hsorted).1 b hmem)
      have hshorter := ih hrest (List.pairwise_cons.mp hsorted).2 hafter fun b hb c hc =>
        hties b (List.mem_cons_of_mem a hb) c (List.mem_cons_of_mem a hc)
      exact (foldlM_cons_agree hshorter).trans (foldlM_middle hcommute s).symm

theorem foldlM_perm {l l' : List α} (hperm : l.Perm l') (h : ∀ a b, Commute step a b) (s : σ) :
    Agree (l.foldlM step s) (l'.foldlM step s) := by
  have hall : ∀ l : List α, l.Pairwise fun _ _ => True :=
    fun l => List.pairwise_of_forall fun _ _ => True.intro
  exact foldlM_sorted hperm (hall l) (hall l') (fun a _ b _ _ _ _ => h a b) s

/-- Steps that check a guard and then make a fixed change commute when neither guard sees the
other change and the changes commute. -/
theorem commute_of_guard {allowed : σ → α → Prop} {next : σ → α → σ}
    (hstep : ∀ s a s', step s a = .ok s' ↔ allowed s a ∧ next s a = s') {a b : α}
    (hguard : ∀ s, allowed s a ∧ allowed (next s a) b ↔ allowed s b ∧ allowed (next s b) a)
    (hnext : ∀ s, allowed s a → allowed (next s a) b → next (next s a) b = next (next s b) a) :
    Commute step a b := by
  have htwo : ∀ s a b s', (step s a >>= fun s => step s b) = .ok s' ↔
      (allowed s a ∧ allowed (next s a) b) ∧ next (next s a) b = s' := by
    intro s a b s'
    cases ha : step s a with
    | error e =>
        have hnot : ¬ allowed s a := fun h => by simp [(hstep s a _).mpr ⟨h, rfl⟩] at ha
        simp [bind, Except.bind, hnot]
    | ok t =>
        obtain ⟨hallowed, rfl⟩ := (hstep s a t).mp ha
        change step (next s a) b = .ok s' ↔ _
        rw [hstep]
        simp [hallowed]
  intro s
  refine agree_iff.mpr fun s' => ?_
  rw [htwo, htwo]
  constructor
  · rintro ⟨hallowed, h⟩
    exact ⟨(hguard s).mp hallowed, (hnext s hallowed.1 hallowed.2).symm.trans h⟩
  · rintro ⟨hallowed, h⟩
    obtain ⟨ha, hb⟩ := (hguard s).mpr hallowed
    exact ⟨⟨ha, hb⟩, (hnext s ha hb).trans h⟩

/-- What every step preserves holds at the end. -/
theorem foldlM_invariant {P : σ → Prop} {l : List α} {s s' : σ} (h : l.foldlM step s = .ok s')
    (hs : P s) (hstep : ∀ s, ∀ a ∈ l, ∀ s', P s → step s a = .ok s' → P s') : P s' := by
  induction l generalizing s with
  | nil =>
      cases h
      exact hs
  | cons a l ih =>
      rw [List.foldlM_cons] at h
      cases ha : step s a with
      | error e =>
          rw [ha] at h
          cases h
      | ok t =>
          rw [ha] at h
          exact ih h (hstep s a List.mem_cons_self t hs ha) fun s b hb =>
            hstep s b (List.mem_cons_of_mem a hb)

/-- What a step needs of an element holds of every element of a fold that returns. -/
theorem foldlM_forall {Q : α → Prop} {l : List α} {s s' : σ} (h : l.foldlM step s = .ok s')
    (hstep : ∀ s a s', step s a = .ok s' → Q a) : ∀ a ∈ l, Q a := by
  induction l generalizing s with
  | nil => exact fun a ha => absurd ha List.not_mem_nil
  | cons a l ih =>
      rw [List.foldlM_cons] at h
      cases ha : step s a with
      | error e =>
          rw [ha] at h
          cases h
      | ok t =>
          rw [ha] at h
          exact List.forall_mem_cons.mpr ⟨hstep s a t ha, ih h⟩

theorem forM_ok {f : α → Except ε Unit} {l : List α} {u : Unit} :
    l.forM f = .ok u ↔ ∀ a ∈ l, f a = .ok () := by
  induction l with
  | nil => simp [List.forM, pure, Except.pure]
  | cons a l ih =>
      change (f a >>= fun _ => l.forM f) = .ok u ↔ _
      rw [List.forall_mem_cons, ← ih]
      cases ha : f a with
      | error e => simp [bind, Except.bind]
      | ok v => simp [bind, Except.bind]

/-- A fold that returns has passed a state after every part of the list. -/
theorem foldlM_append {first rest : List α} {s s' : σ}
    (h : (first ++ rest).foldlM step s = .ok s') :
    ∃ t, first.foldlM step s = .ok t ∧ rest.foldlM step t = .ok s' := by
  rw [List.foldlM_append] at h
  cases hfirst : first.foldlM step s with
  | error e =>
      rw [hfirst] at h
      cases h
  | ok t =>
      rw [hfirst] at h
      exact ⟨t, rfl, h⟩

end Replay
