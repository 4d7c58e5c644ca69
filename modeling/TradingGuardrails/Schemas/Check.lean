import TradingGuardrails.Text.Json

/-!
Checks on JSON values, built the way the schema library builds them. A check that
accepts a value returns it unchanged, so a parsed value is a value together with the
fact that its check accepts it. Objects are strict: their keys are distinct and known.
-/
namespace TradingGuardrails

open Text

abbrev Check := Json → Bool

namespace Check

def any : Check := fun _ => true

def null : Check
  | .null => true
  | _ => false

def boolean : Check
  | .bool _ => true
  | _ => false

def string (accepts : String → Bool) : Check
  | .str s => accepts s
  | _ => false

def text : Check := string fun _ => true

def nonEmpty : Check := string fun s => !s.isEmpty

def number (accepts : ℚ → Bool) : Check
  | .num n => accepts n.value
  | _ => false

def positive : Check := number fun q => decide (0 < q)

def nonnegative : Check := number fun q => decide (0 ≤ q)

/-- `int()`: a whole number that a double represents exactly. -/
def isInt (q : ℚ) : Bool :=
  q.den == 1 && q.num.natAbs ≤ 9007199254740991

def literal (s : String) : Check := string (· == s)

def oneOf (options : List String) : Check := string fun s => options.contains s

def array (item : Check) (accepts : Nat → Bool) : Check
  | .arr xs => accepts xs.length && xs.all item
  | _ => false

def record (value : Check) : Check
  | .obj fs => decide (fs.map Prod.fst).Nodup && fs.all fun f => value f.2
  | _ => false

inductive Presence where
  | required
  | optional
  deriving DecidableEq

structure Field where
  key : String
  presence : Presence
  check : Check

def required (key : String) (check : Check) : Field := ⟨key, .required, check⟩

def optional (key : String) (check : Check) : Field := ⟨key, .optional, check⟩

def Field.accepts (field : Field) (v : Json) : Bool :=
  match v.field? field.key with
  | some x => field.check x
  | none => field.presence == .optional

def strict (fields : List Field) : Check := fun v =>
  match v with
  | .obj _ => decide v.keys.Nodup && v.keys.all (fun k => fields.any fun f => f.key == k) &&
      fields.all fun f => f.accepts v
  | _ => false

def union (checks : List Check) : Check := fun v => checks.any fun check => check v

theorem strict_nodup {fields : List Field} {v : Json} (h : strict fields v = true) :
    v.keys.Nodup := by
  cases v with
  | obj fs =>
      simp only [strict, Bool.and_eq_true, decide_eq_true_eq] at h
      exact h.1.1
  | null | bool | num | str | arr => cases h

theorem strict_accepts {fields : List Field} {v : Json} (h : strict fields v = true)
    {field : Field} (hf : field ∈ fields) : field.accepts v = true := by
  cases v with
  | obj fs =>
      simp only [strict, Bool.and_eq_true] at h
      exact List.all_eq_true.mp h.2 field hf
  | null | bool | num | str | arr => cases h

theorem strict_known {fields : List Field} {v : Json} (h : strict fields v = true) {k : String}
    {x : Json} (hk : v.field? k = some x) : ∃ field ∈ fields, field.key = k := by
  cases v with
  | obj fs =>
      simp only [strict, Bool.and_eq_true] at h
      have hmem : k ∈ (Json.obj fs).keys :=
        Json.field?_isSome.mp (Option.isSome_iff_exists.mpr ⟨x, hk⟩)
      obtain ⟨field, hf, heq⟩ := List.any_eq_true.mp (List.all_eq_true.mp h.1.2 k hmem)
      exact ⟨field, hf, by simpa using heq⟩
  | null | bool | num | str | arr => cases hk

theorem strict_required {fields : List Field} {v : Json} (h : strict fields v = true)
    {key : String} {check : Check} (hf : required key check ∈ fields) :
    ∃ x, v.field? key = some x ∧ check x = true := by
  have hacc := strict_accepts h hf
  simp only [Field.accepts, required] at hacc
  split at hacc
  · exact ⟨_, ‹_›, hacc⟩
  · cases hacc

theorem string_text {accepts : String → Bool} {v : Json} (h : string accepts v = true) :
    ∃ s, v = .str s ∧ accepts s = true := by
  cases v with
  | str s => exact ⟨s, rfl, h⟩
  | null | bool | num | arr | obj => cases h

end Check

def textField (v : Json) (key : String) : String :=
  match v.field? key with
  | some (.str s) => s
  | _ => ""

end TradingGuardrails
