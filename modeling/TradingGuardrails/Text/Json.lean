import Mathlib.Data.List.Sort
import Mathlib.Data.List.TakeWhile
import Mathlib.Data.Rat.Defs
import Mathlib.Tactic.Common
import TradingGuardrails.Members

/-!
JSON values as a JavaScript program holds them after `JSON.parse`, and equality of
such values up to the order of object keys. Nothing here knows what the values are
used for. A finite number is identified with the text that `String` gives for it, so
two numbers are equal exactly when the language prints them alike.
-/
namespace Text

def numeralChar (c : Char) : Bool :=
  c.isDigit || c == '-' || c == '+' || c == '.' || c == 'e'

/-- The sign, whole part, fraction and exponent of a number's text. -/
structure NumeralParts where
  negative : Bool
  whole : List Char
  fraction : List Char
  exponentNegative : Bool
  exponent : List Char
  deriving DecidableEq

def readExponent (p : NumeralParts) : List Char → Option NumeralParts
  | [] => some p
  | 'e' :: '+' :: ds => if ds.all Char.isDigit && !ds.isEmpty then
      some { p with exponent := ds } else none
  | 'e' :: '-' :: ds => if ds.all Char.isDigit && !ds.isEmpty then
      some { p with exponentNegative := true, exponent := ds } else none
  | _ => none

def readFraction (p : NumeralParts) : List Char → Option NumeralParts
  | '.' :: cs =>
      let ds := cs.takeWhile Char.isDigit
      if ds.isEmpty then none
      else readExponent { p with fraction := ds } (cs.dropWhile Char.isDigit)
  | cs => readExponent p cs

def readWhole (negative : Bool) (cs : List Char) : Option NumeralParts :=
  let ds := cs.takeWhile Char.isDigit
  if ds.isEmpty then none
  else readFraction ⟨negative, ds, [], false, []⟩ (cs.dropWhile Char.isDigit)

def numeralParts : List Char → Option NumeralParts
  | '-' :: cs => readWhole true cs
  | cs => readWhole false cs

def digitsValue (ds : List Char) : Nat :=
  ds.foldl (fun n c => 10 * n + (c.toNat - '0'.toNat)) 0

def NumeralParts.value (p : NumeralParts) : ℚ :=
  let mantissa : ℚ := digitsValue (p.whole ++ p.fraction) / (10 : ℚ) ^ p.fraction.length
  let scale : ℚ := (10 : ℚ) ^ digitsValue p.exponent
  let magnitude := if p.exponentNegative then mantissa / scale else mantissa * scale
  if p.negative then -magnitude else magnitude

/-- A finite number, kept as the text that `String` gives for it. -/
structure Numeral where
  text : List Char
  chars : text.all numeralChar = true
  parts : (numeralParts text).isSome = true
  deriving DecidableEq

namespace Numeral

def value (n : Numeral) : ℚ :=
  ((numeralParts n.text).get n.parts).value

theorem text_ne_nil (n : Numeral) : n.text ≠ [] := by
  intro h
  have hp := n.parts
  rw [h] at hp
  exact absurd hp (by decide)

theorem ext_text {m n : Numeral} (h : m.text = n.text) : m = n := by
  cases m
  cases n
  cases h
  rfl

def ofNat (n : Nat) : Numeral where
  text := Nat.toDigits 10 n
  chars := List.all_eq_true.mpr fun c hc => by
    simp only [numeralChar, Nat.isDigit_of_mem_toDigits (by decide) (by decide) hc, Bool.true_or]
  parts := by
    have hdigits : ∀ c ∈ Nat.toDigits 10 n, c.isDigit = true :=
      fun c hc => Nat.isDigit_of_mem_toDigits (by decide) (by decide) hc
    have hne : Nat.toDigits 10 n ≠ [] := Nat.toDigits_ne_nil
    generalize Nat.toDigits 10 n = ds at hdigits hne
    cases ds with
    | nil => exact absurd rfl hne
    | cons d ds =>
        have hminus : d ≠ '-' := by
          rintro rfl
          exact absurd (hdigits _ List.mem_cons_self) (by decide)
        have htake : (d :: ds).takeWhile Char.isDigit = d :: ds :=
          List.takeWhile_eq_self_iff.mpr hdigits
        have hdrop : (d :: ds).dropWhile Char.isDigit = [] := by
          rw [List.dropWhile_eq_nil_iff]
          exact hdigits
        simp only [numeralParts]
        split
        · exact absurd (List.cons.inj ‹_›).1 hminus
        · simp only [readWhole, htake, hdrop, List.isEmpty_cons, Bool.false_eq_true, if_false,
            readFraction, readExponent, Option.isSome_some]

end Numeral

/-- A JSON value. An object lists its members in insertion order. -/
inductive Json where
  | null : Json
  | bool : Bool → Json
  | num : Numeral → Json
  | str : String → Json
  | arr : List Json → Json
  | obj : List (String × Json) → Json

namespace Json

mutual
def decEq : (v w : Json) → Decidable (v = w)
  | .null, .null => isTrue rfl
  | .bool a, .bool b =>
      if h : a = b then isTrue (by rw [h]) else isFalse (fun e => h (Json.bool.inj e))
  | .num a, .num b =>
      if h : a = b then isTrue (by rw [h]) else isFalse (fun e => h (Json.num.inj e))
  | .str a, .str b =>
      if h : a = b then isTrue (by rw [h]) else isFalse (fun e => h (Json.str.inj e))
  | .arr a, .arr b =>
      match decEqList a b with
      | isTrue h => isTrue (by rw [h])
      | isFalse h => isFalse (fun e => h (Json.arr.inj e))
  | .obj a, .obj b =>
      match decEqFields a b with
      | isTrue h => isTrue (by rw [h])
      | isFalse h => isFalse (fun e => h (Json.obj.inj e))
  | .null, .bool _ | .null, .num _ | .null, .str _ | .null, .arr _ | .null, .obj _
  | .bool _, .null | .bool _, .num _ | .bool _, .str _ | .bool _, .arr _ | .bool _, .obj _
  | .num _, .null | .num _, .bool _ | .num _, .str _ | .num _, .arr _ | .num _, .obj _
  | .str _, .null | .str _, .bool _ | .str _, .num _ | .str _, .arr _ | .str _, .obj _
  | .arr _, .null | .arr _, .bool _ | .arr _, .num _ | .arr _, .str _ | .arr _, .obj _
  | .obj _, .null | .obj _, .bool _ | .obj _, .num _ | .obj _, .str _ | .obj _, .arr _ =>
      isFalse (by intro e; cases e)

def decEqList : (xs ys : List Json) → Decidable (xs = ys)
  | [], [] => isTrue rfl
  | [], _ :: _ | _ :: _, [] => isFalse (by intro e; cases e)
  | x :: xs, y :: ys =>
      match decEq x y, decEqList xs ys with
      | isTrue h, isTrue hs => isTrue (by rw [h, hs])
      | isFalse h, _ => isFalse (fun e => h (List.cons.inj e).1)
      | _, isFalse hs => isFalse (fun e => hs (List.cons.inj e).2)

def decEqFields : (fs gs : List (String × Json)) → Decidable (fs = gs)
  | [], [] => isTrue rfl
  | [], _ :: _ | _ :: _, [] => isFalse (by intro e; cases e)
  | (k, v) :: fs, (l, w) :: gs =>
      if hk : k = l then
        match decEq v w, decEqFields fs gs with
        | isTrue h, isTrue hs => isTrue (by rw [hk, h, hs])
        | isFalse h, _ => isFalse (fun e => h (Prod.mk.inj (List.cons.inj e).1).2)
        | _, isFalse hs => isFalse (fun e => hs (List.cons.inj e).2)
      else isFalse (fun e => hk (Prod.mk.inj (List.cons.inj e).1).1)
end

instance : DecidableEq Json := decEq

instance : Inhabited Json := ⟨.null⟩

/-- Induction with the members of arrays and objects as the smaller values. -/
@[elab_as_elim]
theorem induct {motive : Json → Prop}
    (null : motive .null) (bool : ∀ b, motive (.bool b)) (num : ∀ n, motive (.num n))
    (str : ∀ s, motive (.str s))
    (arr : ∀ xs, (∀ x ∈ xs, motive x) → motive (.arr xs))
    (obj : ∀ fs, (∀ f ∈ fs, motive f.2) → motive (.obj fs)) : ∀ v, motive v
  | .null => null
  | .bool b => bool b
  | .num n => num n
  | .str s => str s
  | .arr xs => arr xs (fun x _ => induct null bool num str arr obj x)
  | .obj fs => obj fs (fun f _ => induct null bool num str arr obj f.2)
termination_by v => sizeOf v
decreasing_by
  · rename_i h
    have := List.sizeOf_lt_of_mem h
    simp only [Json.arr.sizeOf_spec]
    omega
  · rename_i h
    have := List.sizeOf_lt_of_mem h
    obtain ⟨key, value⟩ := f
    simp only [Prod.mk.sizeOf_spec] at this
    simp only [Json.obj.sizeOf_spec]
    omega

/-- The value stored under a key of an object; nothing for any other value. -/
def field? (key : String) : Json → Option Json
  | .obj fs => fs.lookup key
  | _ => none

/-- `key in value` for an object built from JSON. -/
def hasField (key : String) (v : Json) : Bool :=
  (v.field? key).isSome

def putMember {α : Type} (ms : List (String × α)) (key : String) (value : α) :
    List (String × α) :=
  if ms.any fun m => m.1 == key then ms.map fun m => if m.1 == key then (m.1, value) else m
  else ms ++ [(key, value)]

/-- `object[key] = value` -/
def put (v : Json) (key : String) (value : Json) : Json :=
  match v with
  | .obj fs => .obj (putMember fs key value)
  | v => v

theorem lookup_putMember_self {α : Type} (ms : List (String × α)) (key : String) (value : α) :
    (putMember ms key value).lookup key = some value := by
  have happend : ∀ ms : List (String × α), (ms.any fun m => m.1 == key) = false →
      (ms ++ [(key, value)]).lookup key = some value := by
    intro ms hnone
    induction ms with
    | nil => exact List.lookup_cons_self
    | cons m ms ih =>
        simp only [List.any_cons, Bool.or_eq_false_iff, beq_eq_false_iff_ne] at hnone
        rw [List.cons_append, List.lookup_cons, beq_false_of_ne hnone.1.symm]
        exact ih hnone.2
  have hmap : ∀ ms : List (String × α), (ms.any fun m => m.1 == key) = true →
      (ms.map fun m => if m.1 == key then (m.1, value) else m).lookup key = some value := by
    intro ms hsome
    induction ms with
    | nil => cases hsome
    | cons m ms ih =>
        rw [List.map_cons]
        by_cases hm : m.1 = key
        · rw [if_pos (beq_iff_eq.mpr hm), hm]
          exact List.lookup_cons_self
        · rw [if_neg (by simpa using hm), List.lookup_cons, beq_false_of_ne (Ne.symm hm)]
          refine ih ?_
          simpa [hm] using hsome
  unfold putMember
  split_ifs with h
  · exact hmap ms h
  · exact happend ms (Bool.not_eq_true _ ▸ h)

theorem lookup_putMember_of_ne {α : Type} (ms : List (String × α)) {key other : String}
    (value : α) (h : other ≠ key) : (putMember ms key value).lookup other = ms.lookup other := by
  have hmap : ∀ ms : List (String × α),
      (ms.map fun m => if m.1 == key then (m.1, value) else m).lookup other = ms.lookup other := by
    intro ms
    induction ms with
    | nil => rfl
    | cons m ms ih =>
        obtain ⟨k, v⟩ := m
        rw [List.map_cons]
        by_cases hm : k = key
        · subst hm
          rw [if_pos (beq_self_eq_true k), List.lookup_cons, List.lookup_cons,
            beq_false_of_ne h, ih]
        · rw [if_neg (by simpa using hm), List.lookup_cons, List.lookup_cons, ih]
  have happend : ∀ ms : List (String × α),
      (ms ++ [(key, value)]).lookup other = ms.lookup other := by
    intro ms
    induction ms with
    | nil => rw [List.nil_append, List.lookup_cons, beq_false_of_ne h]
    | cons m ms ih => rw [List.cons_append, List.lookup_cons, List.lookup_cons, ih]
  unfold putMember
  split_ifs
  · exact hmap ms
  · exact happend ms

def isObj : Json → Bool
  | .obj _ => true
  | _ => false

@[simp] theorem isObj_put (v : Json) (key : String) (value : Json) :
    (v.put key value).isObj = v.isObj := by
  cases v <;> rfl

theorem field?_put_self {v : Json} (h : v.isObj = true) (key : String) (value : Json) :
    (v.put key value).field? key = some value := by
  cases v with
  | obj fs => exact lookup_putMember_self fs key value
  | null | bool | num | str | arr => cases h

theorem field?_put_of_ne (v : Json) {key other : String} (value : Json) (h : other ≠ key) :
    (v.put key value).field? other = v.field? other := by
  cases v with
  | obj fs => exact lookup_putMember_of_ne fs value h
  | null | bool | num | str | arr => rfl

theorem isObj_of_field? {v : Json} {key : String} {x : Json} (h : v.field? key = some x) :
    v.isObj = true := by
  cases v with
  | obj fs => rfl
  | null | bool | num | str | arr => cases h

def record (members : List (String × Option Json)) : Json :=
  .obj (members.filterMap fun m => m.2.map fun v => (m.1, v))

mutual
/-- Equality of JSON values: object members may come in any order. -/
def Equiv : Json → Json → Prop
  | .null, w => w = .null
  | .bool b, w => w = .bool b
  | .num n, w => w = .num n
  | .str s, w => w = .str s
  | .arr xs, w => ∃ ys, w = .arr ys ∧ EquivList xs ys
  | .obj fs, w => ∃ gs, w = .obj gs ∧ EquivFields fs gs

def EquivList : List Json → List Json → Prop
  | [], ys => ys = []
  | x :: xs, ys => ∃ y zs, ys = y :: zs ∧ Equiv x y ∧ EquivList xs zs

def EquivFields : List (String × Json) → List (String × Json) → Prop
  | [], gs => gs = []
  | (k, v) :: fs, gs => ∃ l w r, gs = l ++ (k, w) :: r ∧ Equiv v w ∧ EquivFields fs (l ++ r)
end

theorem equivList_iff {xs ys : List Json} : EquivList xs ys ↔ List.Forall₂ Equiv xs ys := by
  induction xs generalizing ys with
  | nil => simp only [EquivList, List.forall₂_nil_left_iff]
  | cons x xs ih =>
      constructor
      · rintro ⟨y, zs, rfl, hxy, hrest⟩
        exact .cons hxy (ih.mp hrest)
      · intro h
        cases h with
        | cons hxy hrest => exact ⟨_, _, rfl, hxy, ih.mpr hrest⟩

def MemberEquiv (f g : String × Json) : Prop :=
  f.1 = g.1 ∧ Equiv f.2 g.2

theorem equivFields_iff {fs gs : List (String × Json)} :
    EquivFields fs gs ↔ ∃ gs', gs'.Perm gs ∧ List.Forall₂ MemberEquiv fs gs' := by
  induction fs generalizing gs with
  | nil =>
      constructor
      · intro h
        exact ⟨[], by rw [h], .nil⟩
      · rintro ⟨gs', hperm, h⟩
        cases h
        exact hperm.symm.eq_nil
  | cons f fs ih =>
      obtain ⟨k, v⟩ := f
      constructor
      · rintro ⟨l, w, r, rfl, hvw, hrest⟩
        obtain ⟨gs', hperm, hfs⟩ := ih.mp hrest
        exact ⟨(k, w) :: gs', (hperm.cons _).trans List.perm_middle.symm, .cons ⟨rfl, hvw⟩ hfs⟩
      · rintro ⟨gs', hperm, h⟩
        obtain _ | ⟨⟨rfl, hvw⟩, hfs⟩ := h
        rename_i g gs'
        obtain ⟨l, r, rfl⟩ := List.append_of_mem (hperm.subset List.mem_cons_self)
        have hrest : gs'.Perm (l ++ r) := (hperm.trans List.perm_middle).cons_inv
        exact ⟨l, g.2, r, rfl, hvw, ih.mpr ⟨gs', hrest, hfs⟩⟩

theorem matching_keys {fs gs : List (String × Json)} (h : List.Forall₂ MemberEquiv fs gs) :
    fs.map Prod.fst = gs.map Prod.fst := by
  induction h with
  | nil => rfl
  | cons hfg _ ih => simp only [List.map_cons, hfg.1, ih]

def keys : Json → List String
  | .obj fs => fs.map Prod.fst
  | _ => []

theorem equiv_keys {v w : Json} (h : Equiv v w) : v.keys.Perm w.keys := by
  cases v with
  | obj fs =>
      obtain ⟨gs, rfl, hfs⟩ := h
      obtain ⟨gs', hperm, hmatch⟩ := equivFields_iff.mp hfs
      simp only [keys, matching_keys hmatch]
      exact hperm.map _
  | arr xs =>
      obtain ⟨ys, rfl, -⟩ := h
      exact .refl _
  | null | bool | num | str =>
      simp only [Equiv] at h
      subst h
      exact .refl _

/-- Equal objects give equal values under each key, provided the keys are distinct. -/
theorem equiv_field {v w : Json} (h : Equiv v w) (once : w.keys.Nodup) {k : String} {x : Json}
    (hx : v.field? k = some x) : ∃ y, w.field? k = some y ∧ Equiv x y := by
  cases v with
  | obj fs =>
      obtain ⟨gs, rfl, hfs⟩ := h
      obtain ⟨gs', hperm, hmatch⟩ := equivFields_iff.mp hfs
      have hmem : ∀ {fs gs' : List (String × Json)}, List.Forall₂ MemberEquiv fs gs' →
          (k, x) ∈ fs → ∃ y, (k, y) ∈ gs' ∧ Equiv x y := by
        intro fs gs' hm
        induction hm with
        | nil => intro hin; cases hin
        | @cons f g fs gs' hfg _ ih =>
            intro hin
            rcases List.mem_cons.mp hin with heq | htail
            · subst heq
              exact ⟨g.2, by rw [show k = g.1 from hfg.1]; exact List.mem_cons_self, hfg.2⟩
            · obtain ⟨y, hy, hxy⟩ := ih htail
              exact ⟨y, List.mem_cons_of_mem _ hy, hxy⟩
      obtain ⟨y, hy, hxy⟩ := hmem hmatch (Members.mem_of_lookup hx)
      exact ⟨y, (Members.lookup_eq_some once).mpr (hperm.subset hy), hxy⟩
  | null | bool | num | str | arr => cases hx

theorem field?_isSome {v : Json} {k : String} : (v.field? k).isSome ↔ k ∈ v.keys := by
  cases v with
  | obj fs =>
      constructor
      · intro h
        obtain ⟨x, hx⟩ := Option.isSome_iff_exists.mp h
        exact List.mem_map_of_mem (Members.mem_of_lookup hx)
      · intro h
        by_contra hnone
        rw [Bool.not_eq_true, Option.isSome_eq_false_iff, Option.isNone_iff_eq_none] at hnone
        obtain ⟨f, hf, rfl⟩ := List.mem_map.mp h
        have := List.lookup_eq_none_iff.mp hnone f hf
        simp at this
  | null | bool | num | str | arr => simp [field?, keys]

@[simp] theorem field?_record_nil (key : String) : (record []).field? key = none := rfl

@[simp] theorem field?_record_cons (k key : String) (v : Option Json)
    (members : List (String × Option Json)) :
    (record ((k, v) :: members)).field? key =
      if k = key then v.or ((record members).field? key) else (record members).field? key := by
  cases v with
  | none => simp [record, field?]
  | some v =>
      simp only [record, field?, List.filterMap_cons, Option.map_some, List.lookup_cons]
      by_cases h : k = key
      · simp [h]
      · have : (key == k) = false := by simpa using fun hk => h hk.symm
        simp [h, this]

/-- A text found in one of two equal objects is found in the other. -/
theorem equiv_text {v w : Json} (h : Equiv v w) (once : w.keys.Nodup) {k s : String}
    (hs : v.field? k = some (.str s)) : w.field? k = some (.str s) := by
  obtain ⟨y, hy, hxy⟩ := equiv_field h once hs
  simp only [Equiv] at hxy
  rw [hy, hxy]

end Json
end Text
