import TradingGuardrails.Text.StableText

/-!
What the programs take from the language and its libraries: digests, dates, string
collation and the string formats of the schema library. Everything else about the
language that they rely on is defined here: thrown values, conversion of a value to a
string, and hexadecimal text.
-/
namespace TradingGuardrails

open Text

structure Instant where
  ms : Int
  inRange : ms.natAbs ≤ 8640000000000000
  deriving DecidableEq

theorem start_inRange : Int.natAbs 0 ≤ 8640000000000000 :=
  Nat.zero_le _

def Instant.start : Instant := ⟨0, start_inRange⟩

structure Host where
  /-- `createHash("sha256").update(text).digest("hex")` -/
  sha256 : String → String
  /-- `createHmac("sha256", secret).update(text).digest("hex")` -/
  hmacSha256 : String → String → String
  /-- `a.localeCompare(b) <= 0` -/
  localeCompare : String → String → Bool
  /-- `Date.parse`, with nothing for `NaN` -/
  dateParse : String → Option Int
  /-- `new Date(value).getTime()` for a value that is not a string -/
  dateOfValue : Option Json → Option Int
  toISOString : Instant → String
  /-- The double nearest to a rational number, as `String` writes it. -/
  numeral : ℚ → Numeral
  /-- `value.toFixed(1)` -/
  toFixed : ℚ → String
  /-- The paths and messages of the issues that the intent schema finds in a value. -/
  intentIssues : Option Json → List String
  /-- The base 58 text of a Solana public key, nothing for an invalid key. -/
  publicKey : String → Option String
  /-- `z.string().uuid()` -/
  isUuid : String → Bool
  /-- `z.string().datetime()` -/
  isDatetime : String → Bool

def hexDigitLower (c : Char) : Bool :=
  ('0' ≤ c && c ≤ '9') || ('a' ≤ c && c ≤ 'f')

/-- `/^[0-9a-f]{64}$/` -/
def isHexDigest (s : String) : Bool :=
  s.toList.length == 64 && s.toList.all hexDigitLower

/-- `/^[0-9a-f]{64}$/i` -/
def isHexDigestAnyCase (s : String) : Bool :=
  s.toList.length == 64 && s.toList.all fun c => hexDigitLower c || ('A' ≤ c && c ≤ 'F')

def hexBytes (s : String) : List Char :=
  s.toList.map Char.toLower

structure Host.Lawful (host : Host) : Prop where
  sha256_hex : ∀ text, isHexDigest (host.sha256 text) = true
  hmacSha256_hex : ∀ secret text, isHexDigest (host.hmacSha256 secret text) = true
  dateParse_toISOString : ∀ t, host.dateParse (host.toISOString t) = some t.ms

/-- A host with the given digests. Its dates are written in unary, its other formats
accept every text. -/
def plainHost (sha256 : String → String) (hmacSha256 : String → String → String) : Host where
  sha256 := sha256
  hmacSha256 := hmacSha256
  localeCompare _ _ := true
  dateParse s := match s.toList with
    | 'p' :: cs => some cs.length
    | 'n' :: cs => some (-cs.length)
    | _ => none
  dateOfValue _ := none
  toISOString t := String.ofList
    ((if 0 ≤ t.ms then 'p' else 'n') :: List.replicate t.ms.natAbs '0')
  numeral _ := ⟨['0'], by decide, by decide⟩
  toFixed _ := "0.0"
  intentIssues _ := []
  publicKey s := some s
  isUuid _ := true
  isDatetime _ := true

theorem plainHost_lawful {sha256 : String → String} {hmacSha256 : String → String → String}
    (hsha : ∀ text, isHexDigest (sha256 text) = true)
    (hhmac : ∀ secret text, isHexDigest (hmacSha256 secret text) = true) :
    (plainHost sha256 hmacSha256).Lawful where
  sha256_hex := hsha
  hmacSha256_hex := hhmac
  dateParse_toISOString t := by
    simp only [plainHost, String.toList_ofList]
    split_ifs with h
    · simp only [List.length_replicate, Option.some.injEq]
      omega
    · simp only [List.length_replicate, Option.some.injEq]
      omega

abbrev zeroDigest : String :=
  "0000000000000000000000000000000000000000000000000000000000000000"

theorem hexBytes_inj {s t : String} (hs : isHexDigest s = true) (ht : isHexDigest t = true)
    (h : hexBytes s = hexBytes t) : s = t := by
  have lower : ∀ c : Char, hexDigitLower c = true → c.toLower = c := by
    intro c hc
    have hnot : ¬('A'.val ≤ c.val ∧ c.val ≤ 'Z'.val) := by
      rintro ⟨hA, hZ⟩
      change 'A' ≤ c at hA
      change c ≤ 'Z' at hZ
      simp only [hexDigitLower, Bool.or_eq_true, Bool.and_eq_true, decide_eq_true_eq] at hc
      rcases hc with ⟨-, h9⟩ | ⟨ha, -⟩
      · exact absurd (Char.le_trans hA h9) (by decide)
      · exact absurd (Char.le_trans ha hZ) (by decide)
    exact dif_neg hnot
  have fixed : ∀ u : String, isHexDigest u = true → hexBytes u = u.toList := by
    intro u hu
    simp only [isHexDigest, Bool.and_eq_true, List.all_eq_true] at hu
    calc
      u.toList.map Char.toLower = u.toList.map id :=
        List.map_congr_left fun c hc => lower c (hu.2 c hc)
      _ = u.toList := List.map_id _
  rw [fixed s hs, fixed t ht] at h
  exact String.toList_inj.mp h

inductive ErrorClass where
  | error
  | typeError
  | rangeError
  | connectorRevalidation
  | idempotencyConflict
  | killSwitchReachability
  deriving DecidableEq

def ErrorClass.name : ErrorClass → String
  | .error => "Error"
  | .typeError => "TypeError"
  | .rangeError => "RangeError"
  | .connectorRevalidation => "ConnectorRevalidationError"
  | .idempotencyConflict => "IdempotencyConflictError"
  | .killSwitchReachability => "KillSwitchReachabilityError"

/-- A sequence of steps succeeds when each of them does. -/
theorem bind_eq_ok {ε α β : Type} {x : Except ε α} {f : α → Except ε β} {r : β} :
    (x >>= f) = .ok r ↔ ∃ a, x = .ok a ∧ f a = .ok r := by
  cases x with
  | error e => simp [bind, Except.bind]
  | ok a => simp [bind, Except.bind]

/-- A list is mapped without an error when each of its members is. -/
theorem mapM_eq_ok {ε α β : Type} {f : α → Except ε β} {xs : List α} {ys : List β} :
    xs.mapM f = .ok ys ↔ List.Forall₂ (fun x y => f x = .ok y) xs ys := by
  induction xs generalizing ys with
  | nil => simp [pure, Except.pure, eq_comm]
  | cons x xs ih =>
      rw [List.mapM_cons, bind_eq_ok]
      constructor
      · rintro ⟨y, hy, hrest⟩
        obtain ⟨zs, hzs, hys⟩ := bind_eq_ok.mp hrest
        cases hys
        exact .cons hy (ih.mp hzs)
      · intro h
        cases h with
        | cons hy hys => exact ⟨_, hy, bind_eq_ok.mpr ⟨_, ih.mpr hys, rfl⟩⟩

theorem seq_eq_ok {ε α : Type} {check : Except ε Unit} {next : Unit → Except ε α} {r : α} :
    (check >>= next) = .ok r ↔ check = .ok () ∧ next () = .ok r := by
  rw [bind_eq_ok]
  constructor
  · rintro ⟨_, h⟩
    exact h
  · intro h
    exact ⟨(), h⟩

/-- A thrown value: an error of the language or of the programs, or any other value,
which has a text unless its conversion to a string throws. -/
inductive Thrown where
  | error (cls : ErrorClass) (message : String)
  | foreign (text : Option String)
  deriving DecidableEq

namespace Thrown

def ofMessage (message : String) : Thrown :=
  .error .error message

/-- `String(err)` -/
def string : Thrown → Except Thrown String
  | .error cls message =>
      .ok (if message.isEmpty then cls.name else cls.name ++ ": " ++ message)
  | .foreign (some text) => .ok text
  | .foreign none => .error (.error .typeError "Cannot convert object to primitive value")

def Printable : Thrown → Prop
  | .foreign none => False
  | _ => True

instance : DecidablePred Printable
  | .error _ _ => isTrue True.intro
  | .foreign (some _) => isTrue True.intro
  | .foreign none => isFalse id

theorem string_of_printable {e : Thrown} (h : e.Printable) : ∃ text, e.string = .ok text := by
  cases e with
  | error cls message => exact ⟨_, rfl⟩
  | foreign text =>
      cases text with
      | none => exact absurd h id
      | some text => exact ⟨text, rfl⟩

/-- `err instanceof ConnectorRevalidationError` -/
def isConnectorRevalidation : Thrown → Bool
  | .error .connectorRevalidation _ => true
  | _ => false

def conflictMessage : Thrown → Option String
  | .error .idempotencyConflict message => some message
  | _ => none

end Thrown

/-- How the replacement of a file ends: it may fail before the new file is renamed into
place, or after. -/
inductive Io where
  | done
  | failBefore (error : Thrown)
  | failAfter (error : Thrown)

mutual
/-- `String(value)` for a value built from JSON. -/
def jsonString : Json → String
  | .null => "null"
  | .bool b => if b then "true" else "false"
  | .num n => String.ofList n.text
  | .str s => s
  | .arr xs => String.ofList (commaJoin (elementStrings xs))
  | .obj _ => "[object Object]"

def elementStrings : List Json → List (List Char)
  | [] => []
  | .null :: xs => [] :: elementStrings xs
  | .bool b :: xs => (if b then "true".toList else "false".toList) :: elementStrings xs
  | .num n :: xs => n.text :: elementStrings xs
  | .str s :: xs => s.toList :: elementStrings xs
  | .arr ys :: xs => commaJoin (elementStrings ys) :: elementStrings xs
  | .obj _ :: xs => "[object Object]".toList :: elementStrings xs
end

/-- `String(value)` for a value that may be undefined. -/
def valueString : Option Json → String
  | none => "undefined"
  | some v => jsonString v

def textValue? : Option Json → Option String
  | some (.str s) => some s
  | _ => none

def truthy : Option Json → Bool
  | none => false
  | some .null => false
  | some (.bool b) => b
  | some (.num n) => n.value != 0
  | some (.str s) => !s.isEmpty
  | some (.arr _) => true
  | some (.obj _) => true

/-- `new Date(value).getTime()` -/
def Host.newDate (host : Host) : Option Json → Option Int
  | some (.str s) => host.dateParse s
  | v => host.dateOfValue v

/-- `JSON.stringify(value)`: members in their given order. -/
def stringify (v : Json) : String :=
  String.ofList (stableText (fun _ _ => true) v)

theorem equiv_of_stringify {v w : Json} (h : stringify v = stringify w) : Json.Equiv v w :=
  equiv_of_stableText _ (String.ofList_injective h)

variable (host : Host)

def stableJson (v : Json) : String :=
  String.ofList (stableText host.localeCompare v)

def codeUnits (s : String) : List Nat :=
  s.toList.flatMap fun c =>
    if c.toNat < 65536 then [c.toNat]
    else [55296 + (c.toNat - 65536) / 1024, 56320 + (c.toNat - 65536) % 1024]

def unitsLe : List Nat → List Nat → Bool
  | [], _ => true
  | _ :: _, [] => false
  | a :: as, b :: bs => a < b || (a == b && unitsLe as bs)

def codeUnitLe (a b : String) : Bool :=
  unitsLe (codeUnits a) (codeUnits b)

def charUnits (c : Char) : List Nat :=
  if c.toNat < 65536 then [c.toNat]
  else [55296 + (c.toNat - 65536) / 1024, 56320 + (c.toNat - 65536) % 1024]

theorem codeUnits_eq (s : String) : codeUnits s = s.toList.flatMap charUnits := rfl

/-- No character is a surrogate, so its first unit tells whether a second one follows. -/
theorem charUnits_inj {c d : Char} {xs ys : List Nat}
    (h : charUnits c ++ xs = charUnits d ++ ys) : c = d ∧ xs = ys := by
  have hc : c.toNat.isValidChar := c.valid
  have hd : d.toNat.isValidChar := d.valid
  simp only [Nat.isValidChar] at hc hd
  rw [← Char.toNat_inj]
  unfold charUnits at h
  split at h <;> split at h
  all_goals simp only [List.cons_append, List.nil_append, List.cons.injEq] at h
  · exact h
  · omega
  · omega
  · exact ⟨by omega, h.2.2⟩

theorem charUnits_ne_nil (c : Char) : charUnits c ≠ [] := by
  unfold charUnits
  split <;> simp

theorem codeUnits_inj {s t : String} (h : codeUnits s = codeUnits t) : s = t := by
  rw [← String.toList_inj]
  simp only [codeUnits_eq] at h
  generalize s.toList = cs, t.toList = ds at h
  induction cs generalizing ds with
  | nil =>
      cases ds with
      | nil => rfl
      | cons d ds => simp [charUnits_ne_nil] at h
  | cons c cs ih =>
      cases ds with
      | nil => simp [charUnits_ne_nil] at h
      | cons d ds =>
          simp only [List.flatMap_cons] at h
          obtain ⟨rfl, hrest⟩ := charUnits_inj h
          rw [ih _ hrest]

theorem unitsLe_total (as bs : List Nat) : unitsLe as bs = true ∨ unitsLe bs as = true := by
  induction as generalizing bs with
  | nil => exact .inl rfl
  | cons a as ih =>
      cases bs with
      | nil => exact .inr rfl
      | cons b bs =>
          simp only [unitsLe, Bool.or_eq_true, Bool.and_eq_true, decide_eq_true_eq, beq_iff_eq]
          rcases Nat.lt_trichotomy a b with hlt | rfl | hlt
          · exact .inl (.inl hlt)
          · exact (ih bs).imp (fun h => .inr ⟨rfl, h⟩) (fun h => .inr ⟨rfl, h⟩)
          · exact .inr (.inl hlt)

theorem unitsLe_trans {as bs cs : List Nat} (hab : unitsLe as bs = true)
    (hbc : unitsLe bs cs = true) : unitsLe as cs = true := by
  induction as generalizing bs cs with
  | nil => rfl
  | cons a as ih =>
      cases bs with
      | nil => cases hab
      | cons b bs =>
          cases cs with
          | nil => cases hbc
          | cons c cs =>
              simp only [unitsLe, Bool.or_eq_true, Bool.and_eq_true, decide_eq_true_eq,
                beq_iff_eq] at hab hbc ⊢
              rcases hab with hab | ⟨rfl, hab⟩
              · rcases hbc with hbc | ⟨rfl, -⟩
                · exact .inl (hab.trans hbc)
                · exact .inl hab
              · rcases hbc with hbc | ⟨rfl, hbc⟩
                · exact .inl hbc
                · exact .inr ⟨rfl, ih hab hbc⟩

theorem unitsLe_antisymm {as bs : List Nat} (hab : unitsLe as bs = true)
    (hba : unitsLe bs as = true) : as = bs := by
  induction as generalizing bs with
  | nil =>
      cases bs with
      | nil => rfl
      | cons b bs => cases hba
  | cons a as ih =>
      cases bs with
      | nil => cases hab
      | cons b bs =>
          simp only [unitsLe, Bool.or_eq_true, Bool.and_eq_true, decide_eq_true_eq,
            beq_iff_eq] at hab hba
          rcases hab with hab | ⟨rfl, hab⟩
          · omega
          · rcases hba with hba | ⟨-, hba⟩
            · omega
            · rw [ih hab hba]

instance : Std.Total fun a b => codeUnitLe a b = true :=
  ⟨fun a b => unitsLe_total (codeUnits a) (codeUnits b)⟩

instance : IsTrans String fun a b => codeUnitLe a b = true :=
  ⟨fun _ _ _ => unitsLe_trans⟩

instance : Std.Antisymm fun a b => codeUnitLe a b = true :=
  ⟨fun _ _ hab hba => codeUnits_inj (unitsLe_antisymm hab hba)⟩

def stableStringify (v : Json) : String :=
  String.ofList (stableText codeUnitLe v)

theorem equiv_of_stableJson {v w : Json} (h : stableJson host v = stableJson host w) :
    Json.Equiv v w :=
  equiv_of_stableText _ (String.ofList_injective h)

theorem equiv_of_stableStringify {v w : Json} (h : stableStringify v = stableStringify w) :
    Json.Equiv v w :=
  equiv_of_stableText _ (String.ofList_injective h)

end TradingGuardrails
