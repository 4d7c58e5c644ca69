import Mathlib.Algebra.Order.Ring.Rat
import Mathlib.Data.List.Dedup
import TradingGuardrails.Text.Json

/-!
The part of the policy language that rules over JSON documents need. An expression may be
undefined, and then it neither holds nor compares; values of different types compare by
the order of their types; a complete rule takes the one value that its bodies agree on.
-/
namespace Rego

open Text

def ref (value : Option Json) (key : String) : Option Json :=
  value.bind fun v => v.field? key

def holds : Option Json → Bool
  | none => false
  | some (.bool b) => b
  | some _ => true

def elements : Option Json → List Json
  | some (.arr xs) => xs
  | some (.obj fs) => fs.map Prod.snd
  | _ => []

/-- `q > value` for a number `q`. Null and Booleans come before the numbers, texts, arrays
and objects after them. -/
def exceeds (q : ℚ) : Json → Bool
  | .null | .bool _ => true
  | .num n => n.value < q
  | .str _ | .arr _ | .obj _ => false

/-- `x > y`, where either side may be undefined. -/
def above (x : Option ℚ) (y : Option Json) : Bool :=
  match x, y with
  | some q, some v => exceeds q v
  | _, _ => false

/-- `x <= y`, where either side may be undefined. -/
def atMost (x : Option ℚ) (y : Option Json) : Bool :=
  match x, y with
  | some q, some v => !exceeds q v
  | _, _ => false

def isText (value : Option Json) (s : String) : Bool :=
  value == some (.str s)

def startsWith (s p : String) : Bool :=
  p.toList.isPrefixOf s.toList

def endsWith (s p : String) : Bool :=
  p.toList.isSuffixOf s.toList

/-- A complete rule: its default when no body holds, else the value that all bodies that
hold agree on. Bodies that disagree are a conflict, and give nothing. -/
def complete {α : Type} [DecidableEq α] (default : α) : List α → Option α
  | [] => some default
  | v :: vs => if vs.all (· == v) then some v else none

def set {α : Type} [DecidableEq α] (members : List α) : List α :=
  members.dedup

section

variable {α : Type} [DecidableEq α]

@[simp] theorem mem_set {members : List α} {x : α} : x ∈ set members ↔ x ∈ members :=
  List.mem_dedup

@[simp] theorem set_set (members : List α) : set (set members) = set members :=
  List.dedup_idem

@[simp] theorem set_eq_nil {members : List α} : set members = [] ↔ members = [] := by
  constructor
  · intro h
    refine List.eq_nil_iff_forall_not_mem.mpr fun x hx => ?_
    rw [← mem_set, h] at hx
    cases hx
  · rintro rfl
    rfl

end

theorem exceeds_mono {q q' : ℚ} (hq : q ≤ q') {v : Json} (h : exceeds q v = true) :
    exceeds q' v = true := by
  cases v with
  | null | bool _ => rfl
  | num n =>
      simp only [exceeds, decide_eq_true_eq] at h ⊢
      exact lt_of_lt_of_le h hq
  | str _ | arr _ | obj _ => cases h

/-- The second number is at least the first one, and given exactly when that one is. -/
def NotLess (x x' : Option ℚ) : Prop :=
  (x = none ∧ x' = none) ∨ ∃ q q', x = some q ∧ x' = some q' ∧ q ≤ q'

theorem above_mono {x x' : Option ℚ} (hx : NotLess x x') {y : Option Json}
    (h : above x y = true) : above x' y = true := by
  rcases hx with ⟨rfl, rfl⟩ | ⟨q, q', rfl, rfl, hq⟩
  · exact h
  · cases y with
    | none => cases h
    | some v => exact exceeds_mono hq h

theorem atMost_anti {x x' : Option ℚ} (hx : NotLess x x') {y : Option Json}
    (h : atMost x' y = true) : atMost x y = true := by
  rcases hx with ⟨rfl, rfl⟩ | ⟨q, q', rfl, rfl, hq⟩
  · exact h
  · cases y with
    | none => cases h
    | some v =>
        simp only [atMost, Bool.not_eq_true'] at h ⊢
        cases hv : exceeds q v with
        | false => rfl
        | true => rw [exceeds_mono hq hv] at h; cases h

theorem above_or_atMost {x : Option ℚ} {y : Option Json} (hx : x.isSome = true)
    (hy : y.isSome = true) : above x y = true ∨ atMost x y = true := by
  obtain ⟨q, rfl⟩ := Option.isSome_iff_exists.mp hx
  obtain ⟨v, rfl⟩ := Option.isSome_iff_exists.mp hy
  cases h : exceeds q v with
  | true => exact .inl h
  | false => exact .inr (by simp [atMost, h])

theorem le_of_not_above {q : ℚ} {n : Numeral} (h : above (some q) (some (.num n)) = false) :
    q ≤ n.value := by
  simpa [above, exceeds] using h

theorem NotLess.isSome {x x' : Option ℚ} (h : NotLess x x') : x.isSome = x'.isSome := by
  rcases h with ⟨rfl, rfl⟩ | ⟨q, q', rfl, rfl, -⟩
  · rfl
  · rfl

end Rego
