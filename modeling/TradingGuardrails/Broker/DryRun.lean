import TradingGuardrails.Broker.IdempotencyStore

/-!
Dry-run reports of the broker: their freshness and the authorization that a passed
report carries.
-/
namespace TradingGuardrails

open Text

def defaultDryRunAgeMs : ℚ := 5 * 60 * 1000

structure DryRunAuthorization where
  checkedAt : String
  token : String
  deriving DecidableEq

/-- `Buffer.from(value, "hex")` compared in constant time with the bytes of a digest. Any
other value than a string gives a buffer of another length. -/
def timingSafeEqualHex (value : Option Json) (expected : String) : Except Thrown Bool :=
  match value with
  | some (.str s) => .ok (hexBytes s == hexBytes expected)
  | _ => .error (.error .rangeError "Input buffers must have the same byte length")

/-- `value ?? ""` -/
def orEmpty : Option Json → Option Json
  | none => some (.str "")
  | some .null => some (.str "")
  | v => v

variable (host : Host)

def dryRunIsFresh (checkedAt : Option Json) (now : String) (decisionMaxAgeMs : Option ℚ) : Bool :=
  match host.dateParse now, host.dateParse (valueString checkedAt) with
  | some nowMs, some checkedAtMs =>
      let age := nowMs - checkedAtMs
      decide (0 ≤ age) && decide ((age : ℚ) ≤ decisionMaxAgeMs.getD defaultDryRunAgeMs)
  | _, _ => false

def dryRunMessage (intent : TradingIntent host) (checkedAt : String) : String :=
  "broker-dry-run:" ++ hashIntentPayload host intent ++ ":" ++ checkedAt

def createDryRunAuthorization (secret : String) (intent : TradingIntent host)
    (checkedAt : String) : DryRunAuthorization :=
  ⟨checkedAt, host.hmacSha256 secret (dryRunMessage host intent checkedAt)⟩

def property (value : Option Json) (key : String) : Option Json :=
  value.bind (Json.field? key)

def dryRunAuthorizationMatches (authorization : Option Json) (secret : String)
    (intent : TradingIntent host) (now : String) (decisionMaxAgeMs : Option ℚ) :
    Except Thrown Bool :=
  let checkedAt := property authorization "checkedAt"
  if !truthy authorization then .ok false
  else if !isHexDigest (valueString (property authorization "token")) then .ok false
  else if !dryRunIsFresh host checkedAt now decisionMaxAgeMs then .ok false
  else timingSafeEqualHex (property authorization "token")
    (createDryRunAuthorization host secret intent (valueString checkedAt)).token

variable {host}

theorem dryRunIsFresh_iff {checkedAt : Option Json} {t : Instant} {maxAge : Option ℚ}
    (hhost : host.Lawful) : dryRunIsFresh host checkedAt (host.toISOString t) maxAge = true ↔
      ∃ checkedAtMs, host.dateParse (valueString checkedAt) = some checkedAtMs ∧
        0 ≤ t.ms - checkedAtMs ∧
        ((t.ms - checkedAtMs : ℤ) : ℚ) ≤ maxAge.getD defaultDryRunAgeMs := by
  simp only [dryRunIsFresh, hhost.dateParse_toISOString]
  cases host.dateParse (valueString checkedAt) with
  | none => simp
  | some checkedAtMs => simp

theorem timingSafeEqualHex_true {value : Option Json} {expected : String}
    (h : timingSafeEqualHex value expected = .ok true) :
    ∃ s, value = some (.str s) ∧ hexBytes s = hexBytes expected := by
  unfold timingSafeEqualHex at h
  split at h
  · rename_i s
    exact ⟨s, rfl, by simpa using h⟩
  · cases h

end TradingGuardrails
