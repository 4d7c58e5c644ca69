import Mathlib.Algebra.BigOperators.Group.List.Basic
import Mathlib.Data.List.Nodup

/-!
Amounts posted under keys. A ledger holds one running sum for each key; the sum over any
set of keys is the sum of what was posted under them, whatever the order.
-/
namespace Ledger

variable {κ ι α : Type} [AddCommMonoid α]

def total (p : κ → Prop) [DecidablePred p] (entries : List (κ × α)) : α :=
  (entries.map fun e => if p e.1 then e.2 else 0).sum

/-- `map.set(key, (map.get(key) ?? 0) + amount)` -/
def credit [DecidableEq κ] : List (κ × α) → κ → α → List (κ × α)
  | [], key, amount => [(key, amount)]
  | (k, a) :: ledger, key, amount =>
      if k = key then (k, a + amount) :: ledger else (k, a) :: credit ledger key amount

variable (p : κ → Prop) [DecidablePred p]

@[simp] theorem total_nil : total p ([] : List (κ × α)) = 0 := rfl

@[simp] theorem total_cons (e : κ × α) (entries : List (κ × α)) :
    total p (e :: entries) = (if p e.1 then e.2 else 0) + total p entries := rfl

theorem total_append (entries others : List (κ × α)) :
    total p (entries ++ others) = total p entries + total p others := by
  rw [total, List.map_append, List.sum_append]
  rfl

theorem total_perm {entries others : List (κ × α)} (h : entries.Perm others) :
    total p entries = total p others :=
  (h.map _).sum_eq

theorem total_congr {q : κ → Prop} [DecidablePred q] {entries : List (κ × α)}
    (h : ∀ e ∈ entries, p e.1 ↔ q e.1) : total p entries = total q entries := by
  have hmap : ∀ e ∈ entries, (if p e.1 then e.2 else 0) = if q e.1 then e.2 else 0 :=
    fun e he => if_congr (h e he) rfl rfl
  rw [total, total, List.map_congr_left hmap]

theorem total_map (f : ι → κ) (entries : List (ι × α)) :
    total p (entries.map fun e => (f e.1, e.2)) = total (fun i => p (f i)) entries := by
  rw [total, List.map_map]
  rfl

theorem total_eq_zero {entries : List (κ × α)} (h : ∀ e ∈ entries, p e.1 → e.2 = 0) :
    total p entries = 0 := by
  apply List.sum_eq_zero
  intro a ha
  obtain ⟨e, he, rfl⟩ := List.mem_map.mp ha
  by_cases hp : p e.1
  · rw [if_pos hp, h e he hp]
  · rw [if_neg hp]

theorem total_flatMap (l : List ι) (f : ι → List (κ × α)) :
    total p (l.flatMap f) = (l.map fun x => total p (f x)).sum := by
  induction l with
  | nil => rfl
  | cons x l ih => rw [List.flatMap_cons, total_append, ih, List.map_cons, List.sum_cons]

/-- One entry under a key adds its amount to the sum, new key or not. -/
theorem total_credit [DecidableEq κ] (ledger : List (κ × α)) (key : κ) (amount : α) :
    total p (credit ledger key amount) = total p ledger + if p key then amount else 0 := by
  induction ledger with
  | nil => simp [credit]
  | cons e ledger ih =>
      obtain ⟨k, a⟩ := e
      by_cases hk : k = key
      · subst hk
        rw [credit, if_pos rfl, total_cons, total_cons]
        by_cases hp : p k
        · simp only [if_pos hp]
          exact add_right_comm _ _ _
        · simp only [if_neg hp, add_zero]
      · rw [credit, if_neg hk, total_cons, ih, total_cons, add_assoc]

theorem total_post [DecidableEq κ] (entries ledger : List (κ × α)) :
    total p (entries.foldl (fun ledger e => credit ledger e.1 e.2) ledger) =
      total p ledger + total p entries := by
  induction entries generalizing ledger with
  | nil => simp
  | cons e entries ih => rw [List.foldl_cons, ih, total_credit, total_cons, add_assoc]

theorem mem_credit [DecidableEq κ] {ledger : List (κ × α)} {key : κ} {amount : α} {e : κ × α}
    (h : e ∈ credit ledger key amount) : e.1 = key ∨ e.1 ∈ ledger.map Prod.fst := by
  induction ledger with
  | nil => exact .inl (by rw [List.mem_singleton.mp h])
  | cons f ledger ih =>
      obtain ⟨k, a⟩ := f
      rw [credit] at h
      split_ifs at h with hk
      · rcases List.mem_cons.mp h with rfl | htail
        · exact .inl hk
        · exact .inr (List.mem_cons_of_mem _ (List.mem_map_of_mem htail))
      · rcases List.mem_cons.mp h with rfl | htail
        · exact .inr List.mem_cons_self
        · exact (ih htail).imp_right (List.mem_cons_of_mem _)

/-- Every key of a ledger was posted. -/
theorem mem_post [DecidableEq κ] {entries ledger : List (κ × α)} {e : κ × α}
    (h : e ∈ entries.foldl (fun ledger e => credit ledger e.1 e.2) ledger) :
    e.1 ∈ entries.map Prod.fst ∨ e.1 ∈ ledger.map Prod.fst := by
  induction entries generalizing ledger with
  | nil => exact .inr (List.mem_map_of_mem h)
  | cons f entries ih =>
      rw [List.foldl_cons] at h
      rcases ih h with hlater | hledger
      · exact .inl (List.mem_cons_of_mem _ hlater)
      · obtain ⟨g, hg, hkey⟩ := List.mem_map.mp hledger
        rw [← hkey, List.map_cons, List.mem_cons]
        exact (mem_credit hg).imp_left .inl

/-- A sum to which only one of several distinct members adds. -/
theorem sum_single [DecidableEq ι] {l : List ι} (once : l.Nodup) {x : ι} (hx : x ∈ l)
    {f : ι → α} (h : ∀ y ∈ l, y ≠ x → f y = 0) : (l.map f).sum = f x := by
  rw [List.sum_map_eq_nsmul_single x f fun y hne hy => h y hy hne,
    once.count, if_pos hx, one_nsmul]

end Ledger
