import Mathlib.Data.List.Perm.Basic
import Mathlib.Data.List.Sort
import TradingGuardrails.Text.Json

/-!
The text of a JSON value with object members in a chosen key order, and its unique
readability. The order is a parameter: two programs that sort keys differently write
different texts, but each text determines the value it came from up to the order of
object members. Only the closing bracket, the comma and the end of the text may follow
a number, which is what makes numbers readable inside lists.
-/
namespace Text

def hexDigit (n : Nat) : Char :=
  if n < 10 then Char.ofNat (48 + n) else Char.ofNat (87 + n)

def escapeChar (c : Char) : List Char :=
  if c = '"' then ['\\', '"']
  else if c = '\\' then ['\\', '\\']
  else if c = '\x08' then ['\\', 'b']
  else if c = '\x0c' then ['\\', 'f']
  else if c = '\n' then ['\\', 'n']
  else if c = '\r' then ['\\', 'r']
  else if c = '\t' then ['\\', 't']
  else if c.toNat < 32 then
    ['\\', 'u', '0', '0', hexDigit (c.toNat / 16), hexDigit (c.toNat % 16)]
  else [c]

def escaped : List Char → List Char
  | [] => []
  | c :: cs => escapeChar c ++ escaped cs

def quote (s : String) : List Char :=
  '"' :: escaped s.toList ++ ['"']

def commaJoin : List (List Char) → List Char
  | [] => []
  | [t] => t
  | t :: u :: ts => t ++ ',' :: commaJoin (u :: ts)

def memberText (m : String × List Char) : List Char :=
  quote m.1 ++ ':' :: m.2

variable (le : String → String → Bool)

def sortMembers {α : Type} (ms : List (String × α)) : List (String × α) :=
  ms.insertionSort (fun a b => le a.1 b.1 = true)

mutual
def stableText : Json → List Char
  | .null => ['n', 'u', 'l', 'l']
  | .bool true => ['t', 'r', 'u', 'e']
  | .bool false => ['f', 'a', 'l', 's', 'e']
  | .num n => n.text
  | .str s => quote s
  | .arr xs => '[' :: (commaJoin (stableTexts xs) ++ [']'])
  | .obj fs =>
      '\x7b' :: (commaJoin ((sortMembers le (memberTexts fs)).map memberText) ++ ['\x7d'])

def stableTexts : List Json → List (List Char)
  | [] => []
  | x :: xs => stableText x :: stableTexts xs

def memberTexts : List (String × Json) → List (String × List Char)
  | [] => []
  | (k, v) :: fs => (k, stableText v) :: memberTexts fs
end

theorem stableTexts_eq (xs : List Json) : stableTexts le xs = xs.map (stableText le) := by
  induction xs with
  | nil => rfl
  | cons x xs ih => simp only [stableTexts, ih, List.map_cons]

theorem memberTexts_eq (fs : List (String × Json)) :
    memberTexts le fs = fs.map fun f => (f.1, stableText le f.2) := by
  induction fs with
  | nil => rfl
  | cons f fs ih =>
      obtain ⟨k, v⟩ := f
      simp only [memberTexts, ih, List.map_cons]

/-- Sorting members before or after writing their values is the same. -/
theorem sortMembers_memberTexts (fs : List (String × Json)) :
    sortMembers le (memberTexts le fs) =
      (sortMembers le fs).map fun f => (f.1, stableText le f.2) := by
  rw [memberTexts_eq]
  exact (List.map_insertionSort (fun a b : String × Json => le a.1 b.1 = true)
    (fun a b : String × List Char => le a.1 b.1 = true)
    (fun f => (f.1, stableText le f.2)) fs (fun _ _ _ _ => Iff.rfl)).symm

theorem sorted_memberTexts (fs : List (String × Json)) :
    (sortMembers le (memberTexts le fs)).map memberText =
      (sortMembers le fs).map fun f => memberText (f.1, stableText le f.2) := by
  rw [sortMembers_memberTexts, List.map_map]
  rfl

theorem sortMembers_perm {α : Type} (ms : List (String × α)) :
    (sortMembers le ms).Perm ms :=
  List.perm_insertionSort _ ms

theorem hexDigit_inj {m n : Nat} (hm : m < 16) (hn : n < 16) (h : hexDigit m = hexDigit n) :
    m = n := by
  have key : ∀ m < 16, ∀ n < 16, hexDigit m = hexDigit n → m = n := by decide
  exact key m hm n hn h

theorem escapeChar_cases (c : Char) :
    (∃ d, escapeChar c = ['\\', d] ∧ d ≠ 'u' ∧
      c = if d = 'b' then '\x08' else if d = 'f' then '\x0c' else if d = 'n' then '\n'
        else if d = 'r' then '\r' else if d = 't' then '\t' else d) ∨
    (c.toNat < 32 ∧ escapeChar c =
      ['\\', 'u', '0', '0', hexDigit (c.toNat / 16), hexDigit (c.toNat % 16)]) ∨
    (escapeChar c = [c] ∧ c ≠ '"' ∧ c ≠ '\\') := by
  unfold escapeChar
  split_ifs with hq hb hbs hff hnl hcr htab hctl
  · exact .inl ⟨'"', rfl, by decide, by rw [hq]; decide⟩
  · exact .inl ⟨'\\', rfl, by decide, by rw [hb]; decide⟩
  · exact .inl ⟨'b', rfl, by decide, by rw [hbs]; decide⟩
  · exact .inl ⟨'f', rfl, by decide, by rw [hff]; decide⟩
  · exact .inl ⟨'n', rfl, by decide, by rw [hnl]; decide⟩
  · exact .inl ⟨'r', rfl, by decide, by rw [hcr]; decide⟩
  · exact .inl ⟨'t', rfl, by decide, by rw [htab]; decide⟩
  · exact .inr (.inl ⟨hctl, rfl⟩)
  · exact .inr (.inr ⟨rfl, hq, hb⟩)

theorem escapeChar_agree {c d : Char} {a b : List Char}
    (h : escapeChar c ++ a = escapeChar d ++ b) : c = d ∧ a = b := by
  rcases escapeChar_cases c with ⟨x, hc, hxu, hcx⟩ | ⟨hctl, hc⟩ | ⟨hc, -, hcb⟩ <;>
    rcases escapeChar_cases d with ⟨y, hd, hyu, hdy⟩ | ⟨hdtl, hd⟩ | ⟨hd, -, hdb⟩ <;>
    simp only [hc, hd, List.cons_append, List.nil_append, List.cons.injEq, true_and] at h
  · exact ⟨by rw [hcx, hdy, h.1], h.2⟩
  · exact absurd h.1 hxu
  · exact absurd h.1.symm hdb
  · exact absurd h.1.symm hyu
  · obtain ⟨hhi, hlo, hab⟩ := h
    have hdiv := hexDigit_inj (by omega) (by omega) hhi
    have hmod := hexDigit_inj (by omega) (by omega) hlo
    refine ⟨Char.ext (UInt32.toNat_inj.mp ?_), hab⟩
    have : c.toNat = d.toNat := by omega
    exact this
  · exact absurd h.1.symm hdb
  · exact absurd h.1 hcb
  · exact absurd h.1 hcb
  · exact h

theorem escapeChar_lead (c : Char) (a b : List Char) : escapeChar c ++ a ≠ '"' :: b := by
  rcases escapeChar_cases c with ⟨x, hc, -, -⟩ | ⟨-, hc⟩ | ⟨hc, hq, -⟩ <;> rw [hc] <;>
    simp only [List.cons_append, List.nil_append, ne_eq, List.cons.injEq, not_and]
  · exact fun h => absurd h (by decide)
  · exact fun h => absurd h (by decide)
  · exact fun h => absurd h hq

theorem escaped_agree {cs ds a b : List Char}
    (h : escaped cs ++ '"' :: a = escaped ds ++ '"' :: b) : cs = ds ∧ a = b := by
  induction cs generalizing ds with
  | nil =>
      cases ds with
      | nil => exact ⟨rfl, (List.cons.inj h).2⟩
      | cons d ds =>
          simp only [escaped, List.nil_append, List.append_assoc] at h
          exact absurd h.symm (escapeChar_lead d _ _)
  | cons c cs ih =>
      cases ds with
      | nil =>
          simp only [escaped, List.nil_append, List.append_assoc] at h
          exact absurd h (escapeChar_lead c _ _)
      | cons d ds =>
          simp only [escaped, List.append_assoc] at h
          obtain ⟨rfl, hrest⟩ := escapeChar_agree h
          obtain ⟨rfl, hab⟩ := ih hrest
          exact ⟨rfl, hab⟩

theorem quote_agree {s t : String} {a b : List Char} (h : quote s ++ a = quote t ++ b) :
    s = t ∧ a = b := by
  simp only [quote, List.cons_append, List.append_assoc, List.cons.injEq, true_and,
    List.nil_append] at h
  obtain ⟨hst, hab⟩ := escaped_agree h
  exact ⟨String.toList_inj.mp hst, hab⟩

/-- What may follow a value: the end, or a character that no number contains. -/
def Closed : List Char → Prop
  | [] => True
  | c :: _ => numeralChar c = false

theorem takeWhile_closed {cs a : List Char} (hcs : cs.all numeralChar = true) (ha : Closed a) :
    (cs ++ a).takeWhile numeralChar = cs := by
  induction cs with
  | nil =>
      cases a with
      | nil => rfl
      | cons c a =>
          simp only [List.nil_append, List.takeWhile_cons, show numeralChar c = false from ha,
            Bool.false_eq_true, if_false]
  | cons c cs ih =>
      simp only [List.all_cons, Bool.and_eq_true] at hcs
      simp only [List.cons_append, List.takeWhile_cons, hcs.1, if_true, ih hcs.2]

theorem numeral_agree {m n : Numeral} {a b : List Char} (ha : Closed a) (hb : Closed b)
    (h : m.text ++ a = n.text ++ b) : m = n ∧ a = b := by
  have htext : m.text = n.text := by
    rw [← takeWhile_closed m.chars ha, h, takeWhile_closed n.chars hb]
  refine ⟨Numeral.ext_text htext, ?_⟩
  rw [htext] at h
  exact List.append_cancel_left h

theorem numeral_lead (n : Numeral) : ∃ c cs, n.text = c :: cs ∧ (c.isDigit = true ∨ c = '-') := by
  cases htext : n.text with
  | nil => exact absurd htext n.text_ne_nil
  | cons c cs =>
      refine ⟨c, cs, rfl, ?_⟩
      by_cases hminus : c = '-'
      · exact .inr hminus
      · left
        by_contra hdigit
        rw [Bool.not_eq_true] at hdigit
        have hparts := n.parts
        simp only [htext, numeralParts] at hparts
        split at hparts
        · exact hminus (List.cons.inj ‹_›).1
        · simp [readWhole, hdigit] at hparts

inductive Kind where
  | null | bool | num | str | arr | obj | close
  deriving DecidableEq

def leadKind (c : Char) : Kind :=
  if c = 'n' then .null else if c = 't' ∨ c = 'f' then .bool else if c = '"' then .str
  else if c = '[' then .arr else if c = '\x7b' then .obj else if c = ']' then .close else .num

def kind : Json → Kind
  | .null => .null
  | .bool _ => .bool
  | .num _ => .num
  | .str _ => .str
  | .arr _ => .arr
  | .obj _ => .obj

theorem stableText_lead (v : Json) :
    ∃ c cs, stableText le v = c :: cs ∧ leadKind c = kind v := by
  cases v with
  | null => exact ⟨_, _, rfl, by decide⟩
  | bool b => cases b <;> exact ⟨_, _, rfl, by decide⟩
  | num n =>
      obtain ⟨c, cs, htext, hc⟩ := numeral_lead n
      refine ⟨c, cs, htext, ?_⟩
      rcases hc with hdigit | rfl
      · have hne : ∀ d : Char, d.isDigit = false → c ≠ d := by
          rintro d hd rfl
          rw [hd] at hdigit
          cases hdigit
        simp only [leadKind, hne 'n' (by decide), hne 't' (by decide), hne 'f' (by decide),
          hne '"' (by decide), hne '[' (by decide), hne '\x7b' (by decide),
          hne ']' (by decide), or_self, if_false, kind]
      · rfl
  | str s => exact ⟨'"', _, rfl, rfl⟩
  | arr xs => exact ⟨'[', _, rfl, rfl⟩
  | obj fs => exact ⟨'\x7b', _, rfl, rfl⟩

theorem kind_eq {v w : Json} {a b : List Char} (h : stableText le v ++ a = stableText le w ++ b) :
    kind v = kind w := by
  obtain ⟨c, cs, hv, hc⟩ := stableText_lead le v
  obtain ⟨d, ds, hw, hd⟩ := stableText_lead le w
  rw [hv, hw, List.cons_append, List.cons_append] at h
  rw [← hc, ← hd, (List.cons.inj h).1]

/-- Comma-separated items that can each be read back can be read back as a list. -/
theorem commaJoin_agree {α β : Type} {f : α → List Char} {g : β → List Char}
    {R : α → β → Prop} {close : Char} (hclose : numeralChar close = false) (hcomma : close ≠ ',')
    (hf : ∀ x a b, f x ++ a ≠ close :: b) (hg : ∀ y a b, g y ++ a ≠ close :: b)
    {xs : List α} {ys : List β} {a b : List Char}
    (hR : ∀ x ∈ xs, ∀ y a b, Closed a → Closed b → f x ++ a = g y ++ b → R x y ∧ a = b)
    (h : commaJoin (xs.map f) ++ close :: a = commaJoin (ys.map g) ++ close :: b) :
    List.Forall₂ R xs ys ∧ a = b := by
  have hclosed : ∀ l, Closed (close :: l) := fun _ => hclose
  have hclosed' : ∀ l, Closed (',' :: l) := fun _ => rfl
  induction xs generalizing ys with
  | nil =>
      cases ys with
      | nil => exact ⟨.nil, (List.cons.inj h).2⟩
      | cons y ys =>
          exfalso
          cases ys with
          | nil => exact hg y _ _ h.symm
          | cons z zs =>
              simp only [List.map_cons, commaJoin, List.append_assoc] at h
              exact hg y _ _ h.symm
  | cons x xs ih =>
      cases ys with
      | nil =>
          exfalso
          cases xs with
          | nil => exact hf x _ _ h
          | cons z zs =>
              simp only [List.map_cons, commaJoin, List.append_assoc] at h
              exact hf x _ _ h
      | cons y ys =>
          have hx := hR x List.mem_cons_self y
          have hrest := fun z hz => hR z (List.mem_cons_of_mem _ hz)
          cases xs with
          | nil =>
              cases ys with
              | nil =>
                  obtain ⟨hxy, hab⟩ := hx _ _ (hclosed _) (hclosed _) h
                  exact ⟨.cons hxy .nil, (List.cons.inj hab).2⟩
              | cons z zs =>
                  simp only [List.map_cons, List.map_nil, commaJoin, List.append_assoc,
                    List.cons_append] at h
                  obtain ⟨-, hab⟩ := hx _ _ (hclosed _) (hclosed' _) h
                  exact absurd (List.cons.inj hab).1 hcomma
          | cons u us =>
              cases ys with
              | nil =>
                  simp only [List.map_cons, List.map_nil, commaJoin, List.append_assoc,
                    List.cons_append] at h
                  obtain ⟨-, hab⟩ := hx _ _ (hclosed' _) (hclosed _) h
                  exact absurd (List.cons.inj hab).1.symm hcomma
              | cons z zs =>
                  simp only [List.map_cons, commaJoin, List.append_assoc, List.cons_append] at h
                  obtain ⟨hxy, hab⟩ := hx _ _ (hclosed' _) (hclosed' _) h
                  obtain ⟨htail, hend⟩ : List.Forall₂ R (u :: us) (z :: zs) ∧ _ := ih hrest (by
                    simpa only [List.map_cons, List.append_assoc] using (List.cons.inj hab).2)
                  exact ⟨.cons hxy htail, hend⟩

theorem stableText_ne_close (v : Json) (a b : List Char) : stableText le v ++ a ≠ ']' :: b := by
  obtain ⟨c, cs, hv, hc⟩ := stableText_lead le v
  rw [hv, List.cons_append]
  intro h
  rw [(List.cons.inj h).1] at hc
  cases v <;> cases hc

theorem memberText_ne_close (m : String × List Char) (a b : List Char) :
    memberText m ++ a ≠ '\x7d' :: b := by
  intro h
  simp only [memberText, quote, List.cons_append] at h
  exact absurd (List.cons.inj h).1 (by decide)

/-- A text can be read in one way only, whatever follows it. -/
theorem stableText_agree (v : Json) : ∀ {w : Json} {a b : List Char}, Closed a → Closed b →
    stableText le v ++ a = stableText le w ++ b → Json.Equiv v w ∧ a = b := by
  induction v using Json.induct with
  | null =>
      intro w a b _ _ h
      have hk := kind_eq le h
      cases w <;> cases hk
      exact ⟨rfl, List.append_cancel_left h⟩
  | bool p =>
      intro w a b _ _ h
      have hk := kind_eq le h
      cases w <;> cases hk
      rename_i q
      cases p <;> cases q <;>
        simp only [stableText, List.cons_append, List.cons.injEq, false_and, true_and,
          Char.reduceEq, List.nil_append] at h
      · exact ⟨rfl, h⟩
      · exact ⟨rfl, h⟩
  | num n =>
      intro w a b ha hb h
      have hk := kind_eq le h
      cases w <;> cases hk
      obtain ⟨rfl, hab⟩ := numeral_agree ha hb h
      exact ⟨rfl, hab⟩
  | str s =>
      intro w a b _ _ h
      have hk := kind_eq le h
      cases w <;> cases hk
      obtain ⟨rfl, hab⟩ := quote_agree h
      exact ⟨rfl, hab⟩
  | arr xs ih =>
      intro w a b _ _ h
      have hk := kind_eq le h
      cases w <;> cases hk
      rename_i ys
      simp only [stableText, stableTexts_eq, List.cons_append, List.append_assoc,
        List.nil_append, List.cons.injEq, true_and] at h
      obtain ⟨hxs, hab⟩ := commaJoin_agree (R := Json.Equiv) (by decide) (by decide)
        (stableText_ne_close le) (stableText_ne_close le)
        (fun x hx y a b ha hb h => ih x hx ha hb h) h
      exact ⟨⟨ys, rfl, Json.equivList_iff.mpr hxs⟩, hab⟩
  | obj fs ih =>
      intro w a b _ _ h
      have hk := kind_eq le h
      cases w <;> cases hk
      rename_i gs
      simp only [stableText, sorted_memberTexts, List.cons_append, List.append_assoc,
        List.nil_append, List.cons.injEq, true_and] at h
      obtain ⟨hfs, hab⟩ := commaJoin_agree (R := Json.MemberEquiv) (by decide) (by decide)
        (fun f => memberText_ne_close _) (fun f => memberText_ne_close _)
        (fun f hf g a b ha hb h => by
          simp only [memberText, List.append_assoc, List.cons_append] at h
          obtain ⟨hkey, hrest⟩ := quote_agree h
          have hmem := (sortMembers_perm le fs).subset hf
          obtain ⟨hval, hend⟩ := ih f hmem ha hb (List.cons.inj hrest).2
          exact ⟨⟨hkey, hval⟩, hend⟩) h
      -- Unsort the left side, then the right one.
      obtain ⟨gs', hgs, hperm⟩ := List.perm_comp_forall₂ (sortMembers_perm le fs).symm hfs
      exact ⟨⟨gs, rfl, Json.equivFields_iff.mpr
        ⟨gs', hperm.trans (sortMembers_perm le gs), hgs⟩⟩, hab⟩

/-- Values with the same text are equal up to the order of object members. -/
theorem equiv_of_stableText {v w : Json} (h : stableText le v = stableText le w) :
    Json.Equiv v w :=
  (stableText_agree le v (a := []) (b := []) True.intro True.intro
    (by rw [h])).1

end Text
