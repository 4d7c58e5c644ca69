import TradingGuardrails.Interleaving.History
import TradingGuardrails.Signer.Request

/-!
The offline signer as a machine: any number of processes answer requests over one database,
in which every idempotency key, every intent and every nonce is reserved at most once.
-/
namespace TradingGuardrails

open Text Interleaving

namespace Signer

structure SignerRow where
  idempotencyKey : String
  intentId : String
  nonce : Nat
  requestHash : String
  /-- `JSON.stringify(result)` -/
  response : Option OfflineSignature := none
  deriving DecidableEq

abbrev SignerTable := List SignerRow

namespace SignerTable

/-- `SELECT request_hash, response FROM signer_requests WHERE idempotency_key = ?` -/
def find (table : SignerTable) (idempotencyKey : String) :
    Option (String × Option OfflineSignature) :=
  (List.find? (fun row => row.idempotencyKey == idempotencyKey) table).map fun row =>
    (row.requestHash, row.response)

def clashes (row other : SignerRow) : Bool :=
  row.idempotencyKey == other.idempotencyKey || row.intentId == other.intentId ||
    row.nonce == other.nonce

/-- `INSERT OR IGNORE`, with the number of changed rows. -/
def reserve (table : SignerTable) (row : SignerRow) : Bool × SignerTable :=
  if List.any table (clashes row) then (false, table)
  else (true, table ++ [{ row with response := none }])

def open_ (idempotencyKey : String) (row : SignerRow) : Bool :=
  row.idempotencyKey == idempotencyKey && row.response.isNone

/-- `UPDATE signer_requests SET response = ? WHERE idempotency_key = ? AND response IS NULL` -/
def complete (table : SignerTable) (response : OfflineSignature) (idempotencyKey : String) :
    Bool × SignerTable :=
  (List.any table (open_ idempotencyKey), List.map (fun row =>
    if open_ idempotencyKey row then { row with response := some response } else row) table)

end SignerTable

inductive SignerOp where
  | now
  | find (idempotencyKey : String)
  | reserve (row : SignerRow)
  | audit (event : Json)
  | signTransaction (transaction : UnsignedTransaction)
  /-- The wait for what `signTransaction` has begun. -/
  | awaitSigned (transaction : UnsignedTransaction)
  | complete (response : OfflineSignature) (idempotencyKey : String)

/-- The answer of an operation. All but the clock and the start of a signature may throw. -/
abbrev SignerAns : SignerOp → Type
  | .now => Int
  | .find _ => Except Thrown (Option (String × Option OfflineSignature))
  | .reserve _ => Except Thrown Bool
  | .audit _ => Except Thrown Unit
  | .signTransaction _ => Unit
  | .awaitSigned _ => Except Thrown String
  | .complete _ _ => Except Thrown Bool

abbrev Script (α : Type) := Routine SignerOp SignerAns Unit SignerError α

def act (op : SignerOp) : Script (SignerAns op) :=
  Routine.perform op

def settle {α : Type} : Except Thrown α → Script α
  | .ok a => pure a
  | .error e => throw (.thrown e)

def check (result : Except SignerError Unit) : Script Unit :=
  Routine.ofExcept result

variable {host : Host}

/-- A signer process: its configuration, and the address of the key that all processes over
one database share. -/
structure SignerProcess where
  config : SignerConfig
  viem : Viem
  address : String

def reservation (request : SigningRequest host) : SignerRow where
  idempotencyKey := request.intent.idempotencyKey
  intentId := request.intent.intentId
  nonce := request.nonce
  requestHash := request.requestHash

def event (config : SignerConfig) (eventType correlationId : String) (intentId : Option String)
    (principal : Option String) (data : List (String × Option Json)) : Json :=
  .record [("environment", some (.str config.environment.text)),
    ("correlationId", some (.str correlationId)), ("intentId", intentId.map .str),
    ("principal", principal.map .str), ("eventType", some (.str eventType)),
    ("data", some (.record data))]

def signerEvent (config : SignerConfig) (request : SigningRequest host) (eventType : String)
    (data : List (String × Option Json)) : Json :=
  event config eventType request.correlationId (some request.intent.intentId)
    (some request.intent.principal) data

namespace SignerProcess

variable (signer : SignerProcess) (request : SigningRequest host)

def alreadyBound : SignerError :=
  .http 409 "Signing authorization is already bound or has an unresolved attempt."

def replay (requestHash : String) (response : Option OfflineSignature) :
    Script OfflineSignature :=
  match response with
  | none => throw alreadyBound
  | some cached =>
      if requestHash ≠ request.requestHash then throw alreadyBound
      else if !cached.accepted host then
        throw (.thrown (.error .error "A stored signature is malformed."))
      else do
        settle (verifyOfflineSignature signer.viem request cached signer.address)
        pure cached

def signReserved : Script OfflineSignature := do
  settle (← act (.audit (signerEvent signer.config request "signer.requested" [
    ("signerBackend", some (.str "local-offline-sepolia")),
    ("nonce", some (.num (.ofNat request.nonce)))])))
  act (.signTransaction (unsigned request))
  let signedTransaction ← settle (← act (.awaitSigned (unsigned request)))
  let result := signature signer.viem request signer.address signedTransaction
  settle (← act (.audit (signerEvent signer.config request "signer.completed" [
    ("signerBackend", some (.str "offline-sepolia")),
    ("transactionHash", some (.str result.transactionHash))])))
  let changed ← settle (← act (.complete result request.intent.idempotencyKey))
  if changed then pure result
  else throw (.thrown (.error .error "Signing result persistence failed."))

def sign : Script OfflineSignature := do
  check (checkToken signer.config request)
  let now ← act .now
  check (checkRequest signer.viem signer.config request now)
  let existing ← settle (← act (.find request.intent.idempotencyKey))
  match existing with
  | some (requestHash, response) => signer.replay request requestHash response
  | none => do
      let reserved ← settle (← act (.reserve (reservation request)))
      if reserved then signer.signReserved request
      else throw (.http 409 "Intent or nonce has already been reserved for signing.")

end SignerProcess

/-- `POST /sign`, once its body was read: the parsed request, or why there is none. -/
structure SignCall (host : Host) where
  correlationId : String
  body : Except SignerError (SigningRequest host)

structure SignResponse where
  status : Nat
  body : Except String OfflineSignature
  deriving DecidableEq

def internalError : String := "Internal server error."

def SignerError.status : SignerError → Nat
  | .http status _ => status
  | .thrown _ => 500

def SignerError.message : SignerError → String
  | .http _ message => message
  | .thrown _ => internalError

def parsed (call : SignCall host) : Option (SigningRequest host) :=
  match call.body with
  | .ok request => some request
  | .error _ => none

def failed (config : SignerConfig) (call : SignCall host) (error : SignerError) :
    Script SignResponse := do
  let audited ← act (.audit (event config "signer.failed"
    (((parsed call).map fun request => request.correlationId).getD call.correlationId)
    ((parsed call).map fun request => request.intentId) none
    [("error", some (.str error.message))]))
  match audited with
  | .ok _ => pure ⟨error.status, .error error.message⟩
  | .error _ => pure ⟨500, .error internalError⟩

def handle (signer : SignerProcess) (call : SignCall host) : Script SignResponse :=
  tryCatch (do
    let request ← Routine.ofExcept call.body
    let result ← signer.sign request
    pure ⟨200, .ok result⟩)
    (failed signer.config call)

def outcome : Except SignerError SignResponse → SignResponse
  | .ok response => response
  | .error _ => ⟨500, .error internalError⟩

/-- What the world decides about an operation: the reading of the clock, the failure if it
fails, and the signed transaction. -/
structure SignerInput where
  clock : Int := 0
  failure : Option Thrown := none
  signedTransaction : String := ""

abbrev signerMachine (host : Host) : Signature where
  Op := SignerOp
  Ans := SignerAns
  Entry := SignCall host
  Ret := SignResponse
  World := SignerTable
  Input := SignerInput
  Outside := Empty

/-- Each statement is atomic and durable; one that throws has changed nothing. -/
def perform (op : SignerOp) (input : SignerInput) (table : SignerTable) :
    SignerAns op × SignerTable :=
  match op, input.failure with
  | .now, _ => (input.clock, table)
  | .find _, some e => (.error e, table)
  | .find key, none => (.ok (table.find key), table)
  | .reserve _, some e => (.error e, table)
  | .reserve row, none => (.ok (table.reserve row).1, (table.reserve row).2)
  | .audit _, some e => (.error e, table)
  | .audit _, none => (.ok (), table)
  | .signTransaction _, _ => ((), table)
  | .awaitSigned _, some e => (.error e, table)
  | .awaitSigned _, none => (.ok input.signedTransaction, table)
  | .complete _ _, some e => (.error e, table)
  | .complete response key, none =>
      (.ok (table.complete response key).1, (table.complete response key).2)

def signers (host : Host) (process : Nat → SignerProcess) : Machine (signerMachine host) where
  program p call := (handle (process p) call ()).bind fun result => .done (outcome result.1)
  waits := fun op => match op with
    | .awaitSigned _ => true
    | _ => false
  enabled _ _ _ := true
  perform _ op input table := some (perform op input table)
  crash _ table := table
  place _ := none
  outside x := x.elim
  initial table := table = []

end Signer
end TradingGuardrails
