import Mathlib.Data.List.Forall2
import Mathlib.Data.List.Perm.Subperm
import Mathlib.Tactic.Common

/-!
Lists whose elements stand under keys, and lists that are read element by element: where each
key stands once a lookup is a membership, keys that cover others are those in another order, and
reading in turn is reading each. Readers that fail in one way only are equal when they read the
same.
-/
namespace Members

variable {ε σ α β γ κ : Type}

theorem matched_left {R : α → β → Prop} {xs : List α} {ys : List β} (h : List.Forall₂ R xs ys)
    {x : α} (hx : x ∈ xs) : ∃ y ∈ ys, R x y := by
  induction h with
  | nil => cases hx
  | cons hfirst _ ih =>
      rcases List.mem_cons.mp hx with rfl | hrest
      · exact ⟨_, List.mem_cons_self, hfirst⟩
      · obtain ⟨y, hy, hxy⟩ := ih hrest
        exact ⟨y, List.mem_cons_of_mem _ hy, hxy⟩

theorem matched_right {R : α → β → Prop} {xs : List α} {ys : List β} (h : List.Forall₂ R xs ys)
    {y : β} (hy : y ∈ ys) : ∃ x ∈ xs, R x y :=
  matched_left h.flip hy

theorem mapM_eq_some {f : α → Option β} {xs : List α} {ys : List β} :
    xs.mapM f = some ys ↔ List.Forall₂ (fun x y => f x = some y) xs ys := by
  induction xs generalizing ys with
  | nil => simp [eq_comm]
  | cons x xs ih =>
      rw [List.mapM_cons, Option.bind_eq_bind, Option.bind_eq_some_iff]
      constructor
      · rintro ⟨y, hy, hrest⟩
        rw [Option.bind_eq_bind, Option.bind_eq_some_iff] at hrest
        obtain ⟨zs, hzs, hys⟩ := hrest
        cases hys
        exact .cons hy (ih.mp hzs)
      · intro h
        cases h with
        | cons hy hys =>
            refine ⟨_, hy, ?_⟩
            rw [Option.bind_eq_bind, Option.bind_eq_some_iff]
            exact ⟨_, ih.mpr hys, rfl⟩

/-- A list can be read when each of its elements can. -/
theorem exists_mapM {f : α → Option β} {xs : List α} (h : ∀ x ∈ xs, ∃ y, f x = some y) :
    ∃ ys, xs.mapM f = some ys := by
  induction xs with
  | nil => exact ⟨[], rfl⟩
  | cons x xs ih =>
      rw [List.forall_mem_cons] at h
      obtain ⟨y, hy⟩ := h.1
      obtain ⟨ys, hys⟩ := ih h.2
      exact ⟨y :: ys, mapM_eq_some.mpr (.cons hy (mapM_eq_some.mp hys))⟩

/-- A fold whose steps each read an element and collect it under a key that is new. -/
theorem foldlM_collect {step : List β → α → Except ε (List β)} {read : α → Option γ}
    {store : γ → β} {key : β → κ} {P : γ → Prop}
    (hstep : ∀ s a s', step s a = .ok s' ↔ ∃ c, read a = some c ∧ s' = s ++ [store c] ∧
      key (store c) ∉ s.map key ∧ P c)
    {l : List α} {s s' : List β} (hs : (s.map key).Nodup) :
    l.foldlM step s = .ok s' ↔ ∃ cs, l.mapM read = some cs ∧ s' = s ++ cs.map store ∧
      (s'.map key).Nodup ∧ ∀ c ∈ cs, P c := by
  induction l generalizing s with
  | nil =>
      constructor
      · intro h
        cases h
        exact ⟨[], rfl, by simp, hs, by simp⟩
      · rintro ⟨cs, hcs, hs', -, -⟩
        cases mapM_eq_some.mp hcs
        rw [hs', List.map_nil, List.append_nil]
        rfl
  | cons a l ih =>
      have hcons : (a :: l).foldlM step s = .ok s' ↔
          ∃ t, step s a = .ok t ∧ l.foldlM step t = .ok s' := by
        rw [List.foldlM_cons]
        cases step s a with
        | error e => simp [bind, Except.bind]
        | ok t => simp [bind, Except.bind]
      have hnew : ∀ {c}, ((s ++ [store c]).map key).Nodup ↔ key (store c) ∉ s.map key := by
        intro c
        rw [List.map_append, List.map_singleton, (List.perm_append_singleton _ _).nodup_iff,
          List.nodup_cons, and_iff_left hs]
      rw [hcons]
      constructor
      · rintro ⟨t, ht, hrest⟩
        obtain ⟨c, hc, rfl, hkey, hP⟩ := (hstep s a t).mp ht
        obtain ⟨cs, hcs, hs', hnodup, hall⟩ := (ih (hnew.mpr hkey)).mp hrest
        refine ⟨c :: cs, mapM_eq_some.mpr (.cons hc (mapM_eq_some.mp hcs)), ?_, hnodup,
          List.forall_mem_cons.mpr ⟨hP, hall⟩⟩
        rw [hs', List.map_cons, List.append_assoc, List.singleton_append]
      · rintro ⟨cs, hcs, hs', hnodup, hall⟩
        obtain - | ⟨hc, hrest⟩ := mapM_eq_some.mp hcs
        rename_i c cs
        rw [List.forall_mem_cons] at hall
        have hsplit : s' = (s ++ [store c]) ++ cs.map store := by
          rw [hs', List.map_cons, List.append_assoc, List.singleton_append]
        have hfirst : ((s ++ [store c]).map key).Nodup := by
          rw [hsplit, List.map_append, List.nodup_append] at hnodup
          exact hnodup.1
        have hkey := hnew.mp hfirst
        exact ⟨_, (hstep s a _).mpr ⟨c, hc, rfl, hkey, hall.1⟩,
          (ih hfirst).mpr ⟨cs, mapM_eq_some.mpr hrest, hsplit, hnodup, hall.2⟩⟩

theorem perm_of_covers {keys others : List κ} (hnodup : keys.Nodup)
    (hcovers : ∀ key ∈ keys, key ∈ others) (hlength : others.length = keys.length) :
    others.Perm keys :=
  ((List.subperm_of_subset hnodup hcovers).perm_of_length_le (Nat.le_of_eq hlength)).symm

variable [DecidableEq κ]

theorem mem_of_lookup {members : List (κ × α)} {key : κ} {value : α}
    (h : members.lookup key = some value) : (key, value) ∈ members := by
  induction members with
  | nil => cases h
  | cons member members ih =>
      obtain ⟨other, held⟩ := member
      rw [List.lookup_cons] at h
      by_cases hkey : key = other
      · rw [hkey, beq_self_eq_true, Option.some.injEq] at h
        rw [hkey, h]
        exact List.mem_cons_self
      · rw [beq_false_of_ne hkey] at h
        exact List.mem_cons_of_mem _ (ih h)

theorem lookup_eq_none {members : List (κ × α)} {key : κ} :
    members.lookup key = none ↔ key ∉ members.map Prod.fst := by
  induction members with
  | nil => simp
  | cons member members ih =>
      obtain ⟨other, held⟩ := member
      rw [List.lookup_cons, List.map_cons, List.mem_cons, not_or, ← ih]
      by_cases hkey : key = other
      · simp [hkey]
      · simp [beq_false_of_ne hkey, hkey]

theorem lookup_isSome {members : List (κ × α)} {key : κ} :
    (members.lookup key).isSome ↔ key ∈ members.map Prod.fst := by
  rw [← not_iff_not, ← lookup_eq_none, Option.not_isSome_iff_eq_none]

theorem lookup_eq_some {members : List (κ × α)} (hnodup : (members.map Prod.fst).Nodup) {key : κ}
    {value : α} : members.lookup key = some value ↔ (key, value) ∈ members := by
  refine ⟨mem_of_lookup, fun h => ?_⟩
  induction members with
  | nil => cases h
  | cons member members ih =>
      obtain ⟨other, held⟩ := member
      rw [List.map_cons, List.nodup_cons] at hnodup
      rw [List.lookup_cons]
      rcases List.mem_cons.mp h with hfirst | hrest
      · cases hfirst
        rw [beq_self_eq_true]
      · have hne : key ≠ other := by
          intro hkey
          rw [hkey] at hrest
          exact hnodup.1 (List.mem_map.mpr ⟨_, hrest, rfl⟩)
        rw [beq_false_of_ne hne]
        exact ih hnodup.2 hrest

def FailsOnly (e : ε) (x : Except ε α) : Prop :=
  ∀ e', x = .error e' → e' = e

theorem failsOnly_ok {e : ε} (a : α) : FailsOnly e (.ok a) :=
  fun _ h => by simp at h

theorem failsOnly_error (e : ε) : FailsOnly e (.error e : Except ε α) := by
  intro e' h
  cases h
  rfl

theorem FailsOnly.ite {e : ε} {p : Prop} [Decidable p] {x y : Except ε α} (hx : FailsOnly e x)
    (hy : FailsOnly e y) : FailsOnly e (if p then x else y) := by
  split_ifs
  · exact hx
  · exact hy

theorem FailsOnly.bind {e : ε} {x : Except ε α} {f : α → Except ε β} (hx : FailsOnly e x)
    (hf : ∀ a, FailsOnly e (f a)) : FailsOnly e (x >>= f) := by
  cases x with
  | error e' =>
      intro e'' h
      cases h
      exact hx e' rfl
  | ok a => exact hf a

theorem FailsOnly.mapM {e : ε} {f : α → Except ε β} (hf : ∀ a, FailsOnly e (f a)) (xs : List α) :
    FailsOnly e (xs.mapM f) := by
  induction xs with
  | nil => exact failsOnly_ok []
  | cons x xs ih =>
      rw [List.mapM_cons]
      exact (hf x).bind fun y => ih.bind fun ys => failsOnly_ok (y :: ys)

theorem FailsOnly.foldlM {e : ε} {step : σ → α → Except ε σ}
    (hstep : ∀ s a, FailsOnly e (step s a)) (xs : List α) (s : σ) :
    FailsOnly e (xs.foldlM step s) := by
  induction xs generalizing s with
  | nil => exact failsOnly_ok s
  | cons x xs ih =>
      rw [List.foldlM_cons]
      exact (hstep s x).bind fun t => ih t

theorem FailsOnly.eq {e : ε} {x y : Except ε α} (hx : FailsOnly e x) (hy : FailsOnly e y)
    (h : ∀ a, x = .ok a ↔ y = .ok a) : x = y := by
  cases x with
  | ok a => exact ((h a).mp rfl).symm
  | error e' =>
      cases y with
      | ok a => exact (h a).mpr rfl
      | error e'' => rw [hx e' rfl, hy e'' rfl]

end Members
