import Mathlib.Tactic.Common

/-!
Backtracking patterns with capture groups, and replacement of every match in a text.
The outcomes of a pattern are listed in the order in which a backtracking matcher
tries them, so the first one is the match.
-/
namespace Text

inductive Pattern where
  | empty
  | char (accepts : Char → Bool)
  | seq (first second : Pattern)
  | alt (first second : Pattern)
  | many (greedy : Bool) (bound : Option Nat) (item : Pattern)
  | upTo (units : Nat) (accepts : Char → Bool)
  | group (item : Pattern)
  | boundary

namespace Pattern

/-- A position in the text, with the characters of the captured group. -/
structure Cursor where
  before : Option Char
  rest : List Char
  captured : List (List Char)

def wordChar (c : Char) : Bool :=
  c.isAlphanum || c == '_'

def iterate (item : Cursor → List Cursor) (greedy : Bool) : Nat → Cursor → List Cursor
  | 0, here => [here]
  | n + 1, here =>
      let more := ((item here).filter fun past => past.rest.length < here.rest.length).flatMap
        (iterate item greedy n)
      if greedy then more ++ [here] else here :: more

def width (c : Char) : Nat :=
  if c.toNat < 65536 then 1 else 2

/-- Accepted characters of together at most so many code units, as many as possible first. -/
def accept (accepts : Char → Bool) (captured : List (List Char)) :
    Nat → Option Char → List Char → List Cursor
  | _, before, [] => [⟨before, [], captured⟩]
  | units, before, c :: cs =>
      if accepts c && decide (width c ≤ units) then
        accept accepts captured (units - width c) (some c) cs ++ [⟨before, c :: cs, captured⟩]
      else [⟨before, c :: cs, captured⟩]

def outcomes : Pattern → Cursor → List Cursor
  | .empty, here => [here]
  | .char accepts, here => match here.rest with
    | [] => []
    | c :: cs => if accepts c then [{ here with before := some c, rest := cs }] else []
  | .seq first second, here => (outcomes first here).flatMap (outcomes second)
  | .alt first second, here => outcomes first here ++ outcomes second here
  | .many greedy bound item, here =>
      iterate (outcomes item) greedy (bound.getD here.rest.length) here
  | .upTo units accepts, here => accept accepts here.captured units here.before here.rest
  | .group item, here => (outcomes item here).map fun past =>
      { past with captured :=
          here.captured ++ [here.rest.take (here.rest.length - past.rest.length)] }
  | .boundary, here =>
      if here.before.any wordChar != here.rest.head?.any wordChar then [here] else []

def matchAt (p : Pattern) (before : Option Char) (cs : List Char) : Option Cursor :=
  (p.outcomes ⟨before, cs, []⟩).head?

def occursFrom (p : Pattern) : Option Char → List Char → Bool
  | before, [] => (p.matchAt before []).isSome
  | before, c :: cs => (p.matchAt before (c :: cs)).isSome || occursFrom p (some c) cs

def occurs (p : Pattern) (cs : List Char) : Bool :=
  p.occursFrom none cs

/-- Replace every match, from left to right. The replacement sees the captured groups
and the number of matches before it; the first argument bounds the scan. -/
def replaceFrom (p : Pattern) (replacement : Nat → List (List Char) → List Char) :
    Nat → Nat → Option Char → List Char → List Char × List (List (List Char))
  | 0, _, _, cs => (cs, [])
  | _ + 1, _, _, [] => ([], [])
  | fuel + 1, count, before, c :: cs =>
      match p.matchAt before (c :: cs) with
      | some past =>
          if past.rest.length < (c :: cs).length then
            let (text, found) := replaceFrom p replacement fuel (count + 1) past.before past.rest
            (replacement count past.captured ++ text, past.captured :: found)
          else
            let (text, found) := replaceFrom p replacement fuel count (some c) cs
            (c :: text, found)
      | none =>
          let (text, found) := replaceFrom p replacement fuel count (some c) cs
          (c :: text, found)

def replaceAll (p : Pattern) (replacement : Nat → List (List Char) → List Char)
    (cs : List Char) : List Char × List (List (List Char)) :=
  p.replaceFrom replacement cs.length 0 none cs

def anyCase (c : Char) : Pattern :=
  .char fun d => d.toLower == c.toLower

def oneOf (cs : List Char) : Pattern :=
  .char fun d => cs.contains d

def noneOf (cs : List Char) : Pattern :=
  .char fun d => !cs.contains d

def optional (p : Pattern) : Pattern :=
  .many true (some 1) p

def star (p : Pattern) : Pattern :=
  .many true none p

def plus (p : Pattern) : Pattern :=
  .seq p (.many true none p)

def times : Nat → Pattern → Pattern
  | 0, _ => .empty
  | n + 1, p => .seq p (times n p)

def sequence : List Pattern → Pattern
  | [] => .empty
  | [p] => p
  | p :: q :: ps => .seq p (sequence (q :: ps))

def choice : List Pattern → Pattern
  | [] => .char fun _ => false
  | [p] => p
  | p :: q :: ps => .alt p (choice (q :: ps))

def word (s : String) : Pattern :=
  sequence (s.toList.map fun c => .char (· == c))

def wordAnyCase (s : String) : Pattern :=
  sequence (s.toList.map anyCase)

end Pattern

def isSpace (c : Char) : Bool :=
  [9, 10, 11, 12, 13, 32, 160, 5760, 8232, 8233, 8239, 8287, 12288, 65279].contains c.toNat
    || (8192 ≤ c.toNat && c.toNat ≤ 8202)

def trim (s : String) : String :=
  String.ofList (((s.toList.dropWhile isSpace).reverse.dropWhile isSpace).reverse)

def replaceFirst (word replacement : List Char) : List Char → List Char
  | [] => if word.isEmpty then replacement else []
  | c :: cs =>
      if word.isPrefixOf (c :: cs) then replacement ++ (c :: cs).drop word.length
      else c :: replaceFirst word replacement cs

end Text
