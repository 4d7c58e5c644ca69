import TradingGuardrails.Operations
import TradingGuardrails.Schemas.Audit
import TradingGuardrails.Schemas.Broker
import TradingGuardrails.Secrets.Redaction

/-!
The two idempotency stores of the broker. The memory store keeps its entries in one
process. The file store keeps them in a file that all processes share and that is parsed
and validated again on every access, and remembers in its own process which keys it
holds. A reservation is closed by operations that name its key and payload.
-/
namespace TradingGuardrails

open Text

variable (host : Host)

def hashPendingAudit (event : Json) : String :=
  host.sha256 (stableStringify event)

def hashIntentPayload (intent : TradingIntent host) : String :=
  host.sha256 (stableStringify intent.value)

def scopeIdempotencyKey (key : String) (intent : TradingIntent host) : String :=
  stableStringify (.record [
    ("key", some (.str key)),
    ("principal", some (.str intent.principal)),
    ("action", some (.str intent.action.text)),
    ("resource", some (.str intent.resource))])

def terminalAuditText (intent : TradingIntent host) (correlationId : String)
    (eventType : AuditEventType) : String :=
  String.intercalate ":" [eventType.text, intent.intentId, intent.idempotencyKey,
    intent.principal, intent.action.text, intent.resource, correlationId]

/-- `text.slice(start, end)` -/
def slice (s : String) (start stop : Nat) : String :=
  String.ofList ((s.toList.drop start).take (stop - start))

def digestUuid (hash : String) : String :=
  slice hash 0 8 ++ "-" ++ slice hash 8 12 ++ "-4" ++ slice hash 13 16 ++ "-8" ++
    slice hash 17 20 ++ "-" ++ slice hash 20 32

def terminalAuditEventId (intent : TradingIntent host) (correlationId : String)
    (eventType : AuditEventType) : String :=
  digestUuid (host.sha256 (terminalAuditText host intent correlationId eventType))

def executionKindForIntent {host : Host} (intent : TradingIntent host) : String :=
  match intent.action with
  | .placeOrder => "cex_order"
  | .cancelOrder => "cex_cancel"
  | .getOrderStatus => "cex_order_status"
  | .requestSignature => "onchain_signature"
  | .simulateTransaction => "onchain_simulation"

def idempotencyConflict (key : String) : Thrown :=
  .error .idempotencyConflict
    ("Idempotency key " ++ key ++ " was already used with a different intent payload.")

def handleFor (key : String) (intent : TradingIntent host) : Handle :=
  ⟨scopeIdempotencyKey host key intent, hashIntentPayload host intent⟩

structure Promises where
  next : Nat
  settled : Nat → Option (Except Thrown Json)

namespace Promises

def empty : Promises := ⟨0, fun _ => none⟩

def create (ps : Promises) : Promises := { ps with next := ps.next + 1 }

def settle (ps : Promises) (id : Nat) (r : Except Thrown Json) : Promises :=
  match ps.settled id with
  | some _ => ps
  | none => { ps with settled := Function.update ps.settled id (some r) }

def settleAny (ps : Promises) (id : Option Nat) (r : Except Thrown Json) : Promises :=
  match id with
  | none => ps
  | some id => ps.settle id r

end Promises

inductive MemoryEntry where
  | cached (payloadHash : String) (result : Json) (pendingAudit : Option Json)
      (waiting : Option Nat)
  | pending (payloadHash : String) (promise : Nat)

def MemoryEntry.payloadHash : MemoryEntry → String
  | .cached payloadHash _ _ _ => payloadHash
  | .pending payloadHash _ => payloadHash

structure MemoryStore where
  entries : String → Option MemoryEntry
  promises : Promises

namespace MemoryStore

def empty : MemoryStore := ⟨fun _ => none, .empty⟩

def put (store : MemoryStore) (scopedKey : String) (entry : Option MemoryEntry) : MemoryStore :=
  { store with entries := Function.update store.entries scopedKey entry }

def begin (store : MemoryStore) (key : String) (intent : TradingIntent host) :
    Except Thrown Reservation × MemoryStore :=
  let handle := handleFor host key intent
  match store.entries handle.scopedKey with
  | some entry =>
      if entry.payloadHash ≠ handle.payloadHash then (.error (idempotencyConflict key), store)
      else match entry with
        | .cached _ result pendingAudit _ => (.ok (.cached result pendingAudit), store)
        | .pending _ promise => (.ok (.pending (.shared promise)), store)
  | none =>
      let promise := store.promises.next
      (.ok .reserved,
        { store.put handle.scopedKey (some (.pending handle.payloadHash promise)) with
          promises := store.promises.create })

def complete (store : MemoryStore) (handle : Handle) (result : Json)
    (pendingAudit : Option Json) : MemoryStore :=
  match store.entries handle.scopedKey with
  | some (.pending payloadHash promise) =>
      if payloadHash = handle.payloadHash then
        let stored := store.put handle.scopedKey
          (some (.cached payloadHash result pendingAudit (some promise)))
        match pendingAudit with
        | some _ => stored
        | none => { stored with promises := stored.promises.settle promise (.ok result) }
      else store
  | _ => store

def completeAudit (store : MemoryStore) (handle : Handle) : MemoryStore :=
  match store.entries handle.scopedKey with
  | some (.cached payloadHash result _ waiting) =>
      if payloadHash = handle.payloadHash then
        { store.put handle.scopedKey (some (.cached payloadHash result none none)) with
          promises := store.promises.settleAny waiting (.ok result) }
      else store
  | _ => store

def failAudit (store : MemoryStore) (handle : Handle) (error : Thrown) : MemoryStore :=
  match store.entries handle.scopedKey with
  | some (.cached payloadHash result pendingAudit waiting) =>
      if payloadHash = handle.payloadHash then
        { store.put handle.scopedKey (some (.cached payloadHash result pendingAudit none)) with
          promises := store.promises.settleAny waiting (.error error) }
      else store
  | _ => store

def abort (store : MemoryStore) (handle : Handle) (error : Thrown) : MemoryStore :=
  match store.entries handle.scopedKey with
  | some (.pending payloadHash promise) =>
      if payloadHash = handle.payloadHash then
        { store.put handle.scopedKey none with
          promises := store.promises.settle promise (.error error) }
      else store
  | _ => store

end MemoryStore

inductive FileEntry where
  | cached (payloadHash : String) (result : Json) (pendingAudit : Option Json)
      (pendingAuditHash : Option String)
  | inProgress (payloadHash : String)
  deriving DecidableEq

def FileEntry.payloadHash : FileEntry → String
  | .cached payloadHash _ _ _ => payloadHash
  | .inProgress payloadHash => payloadHash

abbrev FileState := List (String × FileEntry)

namespace FileState

def put (state : FileState) (scopedKey : String) (entry : FileEntry) : FileState :=
  if state.any fun f => f.1 == scopedKey then
    state.map fun f => if f.1 == scopedKey then (f.1, entry) else f
  else state ++ [(scopedKey, entry)]

def remove (state : FileState) (scopedKey : String) : FileState :=
  state.filter fun f => f.1 != scopedKey

def encodeEntry : FileEntry → Json
  | .cached payloadHash result pendingAudit pendingAuditHash => .record [
      ("status", some (.str "cached")),
      ("payloadHash", some (.str payloadHash)),
      ("result", some result),
      ("pendingAudit", pendingAudit),
      ("pendingAuditHash", pendingAuditHash.map .str)]
  | .inProgress payloadHash => .record [
      ("status", some (.str "in_progress")),
      ("payloadHash", some (.str payloadHash))]

def encode (state : FileState) : Json :=
  .record [("entries", some (.obj (state.map fun f => (f.1, encodeEntry f.2))))]

end FileState

def entryError (key problem : String) : Thrown :=
  .ofMessage ("Invalid idempotency store entry " ++ key ++ ": " ++ problem)

def isPlainObject : Json → Bool
  | .obj _ => true
  | _ => false

def optionalString : Option Json → Bool
  | none => true
  | some (.str _) => true
  | some _ => false

def isText : Option Json → Bool
  | some (.str _) => true
  | _ => false

def requiredString : Option Json → Bool
  | some (.str s) => !s.isEmpty
  | _ => false

def isBrokerAuditEvent (value : Json) : Bool :=
  isPlainObject value &&
    (value.field? "eventType").any (Check.oneOf (AuditEventType.all.map AuditEventType.text)) &&
    (value.field? "environment").any Check.environment &&
    isText (value.field? "correlationId") &&
    (value.field? "data").any isPlainObject &&
    requiredString (value.field? "eventId") &&
    optionalString (value.field? "intentId") &&
    optionalString (value.field? "principal")

def deepEqual (left right : Option Json) : Bool :=
  left.map stableStringify == right.map stableStringify

def auditedFields : List String := [
  "rejectionReason", "orderId", "transactionHash", "orderStatus", "simulationEvidence",
  "reconciliation"]

def plainFields : List String := ["rejectionReason", "orderId", "transactionHash"]

def pendingAuditDataKeys (result : Json) : List String :=
  "status" :: (auditedFields.filter result.hasField ++
    if result.field? "status" = some (.str "failed") then ["reason", "error"] else [])

def auditedFieldMatches (data result : Json) (field : String) : Bool :=
  if result.hasField field then
    if plainFields.contains field then data.field? field == result.field? field
    else deepEqual (data.field? field) (result.field? field)
  else !data.hasField field

def pendingAuditDataMatchesResult (data result : Json) : Bool :=
  data.keys.all (pendingAuditDataKeys result).contains &&
    data.field? "status" == result.field? "status" &&
    optionalString (data.field? "reason") && optionalString (data.field? "error") &&
    auditedFields.all (auditedFieldMatches data result)

def validatePendingAudit (key : String) (result : Json) (value : Option Json)
    (hash : Option String) : Except Thrown (Option Json) :=
  match value with
  | none => .ok none
  | some value =>
      if !hash.any isHexDigest then .error (entryError key "pendingAuditHash is invalid.")
      else if !isBrokerAuditEvent value then
        .error (entryError key "pendingAudit is invalid.")
      else if textField value "eventType" ≠
          (if result.field? "status" = some (.str "executed") then
            AuditEventType.brokerExecuted.text else AuditEventType.brokerFailed.text) then
        .error (entryError key "pendingAudit eventType mismatches result.")
      else if value.field? "intentId" ≠ result.field? "intentId" then
        .error (entryError key "pendingAudit intentId mismatches result.")
      else if !(value.field? "data").any (pendingAuditDataMatchesResult · result) then
        .error (entryError key "pendingAudit data mismatches result.")
      else if some (hashPendingAudit host value) ≠ hash then
        .error (entryError key "pendingAudit hash mismatches event.")
      else .ok (some value)

def parseFileEntry (key : String) (value : Json) : Except Thrown FileEntry :=
  if !isPlainObject value then .error (entryError key "entry must be an object.")
  else if value.field? "status" ≠ some (.str "cached") ∧
      value.field? "status" ≠ some (.str "in_progress") then
    .error (entryError key "status is invalid.")
  else match textValue? (value.field? "payloadHash") with
    | none => .error (entryError key "payloadHash is invalid.")
    | some payloadHash =>
        if !isHexDigest payloadHash then .error (entryError key "payloadHash is invalid.")
        else if value.field? "status" = some (.str "in_progress") then
          .ok (.inProgress payloadHash)
        else match value.field? "result" with
          | none => .error (entryError key "cached result is invalid.")
          | some result =>
              if !BrokerSchema.brokerExecutionResult host result then
                .error (entryError key "cached result is invalid.")
              else
                let pendingAuditHash := textValue? (value.field? "pendingAuditHash")
                match validatePendingAudit host key result (value.field? "pendingAudit")
                    pendingAuditHash with
                | .error e => .error e
                | .ok pendingAudit =>
                    .ok (.cached payloadHash result pendingAudit pendingAuditHash)

def parseFileEntries : List (String × Json) → Except Thrown FileState
  | [] => .ok []
  | (key, value) :: entries =>
      match parseFileEntry host key value with
      | .error e => .error e
      | .ok entry => match parseFileEntries entries with
        | .error e => .error e
        | .ok rest => .ok ((key, entry) :: rest)

def stateError (problem : String) : Thrown :=
  .ofMessage ("Invalid idempotency store state: " ++ problem)

def parseFileState (value : Json) : Except Thrown FileState :=
  if !isPlainObject value then .error (stateError "root must be an object.")
  else match value.field? "entries" with
    | none => .error (stateError "entries is required.")
    | some (.obj entries) => parseFileEntries host entries
    | some _ => .error (stateError "entries must be an object.")

/-- `orderStatus.side.toLowerCase()`, nothing when the side is not a string. -/
def sideText (orderStatus : Json) : Option (List Char) :=
  match orderStatus.field? "side" with
  | some (.str s) => some (lowerCase s)
  | _ => none

def validateCachedResultEvidenceForIntent (key : String) (result : Json)
    (intent : TradingIntent host) : Except Thrown Unit :=
  if result.field? "status" = some (.str "executed") ∧
      result.field? "executionKind" ≠ some (.str (executionKindForIntent intent)) then
    .error (entryError key "result executionKind mismatches intent.")
  else match intent.action with
    | .cancelOrder =>
        if result.hasField "orderId" ∧ result.field? "orderId" ≠ some (.str intent.orderId) then
          .error (entryError key "result orderId mismatches intent.")
        else .ok ()
    | .getOrderStatus =>
        if result.hasField "orderId" ∧ result.field? "orderId" ≠ some (.str intent.orderId) then
          .error (entryError key "result orderId mismatches intent.")
        else match result.field? "orderStatus" with
          | none => .error (entryError key "result orderStatus mismatches intent.")
          | some orderStatus =>
              if orderStatus.field? "orderId" ≠ some (.str intent.orderId) then
                .error (entryError key "result orderStatus mismatches intent.")
              else if orderStatus.field? "symbol" ≠ some (.str intent.symbol) then
                .error (entryError key "result orderStatus mismatches intent.")
              else .ok ()
    | .placeOrder => match result.field? "orderStatus" with
        | none => .ok ()
        | some orderStatus =>
            if orderStatus.field? "symbol" ≠ some (.str intent.symbol) then
              .error (entryError key "result orderStatus mismatches intent.")
            else if sideText orderStatus ≠ some intent.side.toList then
              .error (entryError key "result orderStatus mismatches intent.")
            else if result.hasField "orderId" ∧
                orderStatus.field? "orderId" ≠ result.field? "orderId" then
              .error (entryError key "result orderStatus mismatches result.")
            else .ok ()
    | .simulateTransaction | .requestSignature => .ok ()

def validateCachedEntryForIntent (key : String) (result : Json) (pendingAudit : Option Json)
    (intent : TradingIntent host) : Except Thrown Unit :=
  if result.field? "intentId" ≠ some (.str intent.intentId) then
    .error (entryError key "result intentId mismatches intent.")
  else if result.field? "idempotencyKey" ≠ some (.str intent.idempotencyKey) then
    .error (entryError key "result idempotencyKey mismatches intent.")
  else match validateCachedResultEvidenceForIntent host key result intent with
    | .error e => .error e
    | .ok () => match pendingAudit with
      | none => .ok ()
      | some event =>
          if event.field? "environment" ≠ some (.str intent.environment.text) then
            .error (entryError key "pendingAudit environment mismatches intent.")
          else if event.field? "principal" ≠ some (.str intent.principal) then
            .error (entryError key "pendingAudit principal mismatches intent.")
          else match AuditEventType.ofText? (textField event "eventType") with
            | some .brokerExecuted =>
                if event.field? "eventId" ≠ some (.str (terminalAuditEventId host intent
                    (textField event "correlationId") .brokerExecuted)) then
                  .error (entryError key "pendingAudit eventId mismatches intent.")
                else .ok ()
            | some .brokerFailed =>
                if event.field? "eventId" ≠ some (.str (terminalAuditEventId host intent
                    (textField event "correlationId") .brokerFailed)) then
                  .error (entryError key "pendingAudit eventId mismatches intent.")
                else .ok ()
            | _ => .error (entryError key "pendingAudit eventType mismatches result.")

def readState (file : Option Json) : Except Thrown FileState :=
  match file with
  | none => .ok []
  | some document => parseFileState host document

def withLockedState {α : Type} (file : Option Json) (io : Io)
    (update : FileState → α × FileState) : Except Thrown α × Option Json :=
  match io with
  | .failBefore error => (.error error, file)
  | .done => match readState host file with
    | .error error => (.error error, file)
    | .ok state => (.ok (update state).1, some (update state).2.encode)
  | .failAfter failure => match readState host file with
    | .error error => (.error error, file)
    | .ok state => (.error failure, some (update state).2.encode)

structure FileLocal where
  pending : String → Option (String × Nat)
  promises : Promises

namespace FileLocal

def empty : FileLocal := ⟨fun _ => none, .empty⟩

def put (store : FileLocal) (scopedKey : String) (held : Option (String × Nat)) : FileLocal :=
  { store with pending := Function.update store.pending scopedKey held }

def settle (store : FileLocal) (promise : Nat) (r : Except Thrown Json) : FileLocal :=
  { store with promises := store.promises.settle promise r }

def held (store : FileLocal) (handle : Handle) : Option Nat :=
  match store.pending handle.scopedKey with
  | some (payloadHash, promise) => if payloadHash = handle.payloadHash then some promise else none
  | none => none

end FileLocal

structure FileStore where
  file : Option Json
  own : FileLocal

namespace FileStore

def inProgressError : Thrown :=
  .ofMessage "Idempotency key is already in progress."

def begin (store : FileStore) (io : Io) (key : String) (intent : TradingIntent host) :
    Except Thrown Reservation × FileStore :=
  let handle := handleFor host key intent
  match store.own.pending handle.scopedKey with
  | some (payloadHash, promise) =>
      if payloadHash ≠ handle.payloadHash then (.error (idempotencyConflict key), store)
      else (.ok (.pending (.shared promise)), store)
  | none =>
      match withLockedState host store.file io fun state =>
        match state.lookup handle.scopedKey with
        | some entry => (some entry, state)
        | none => (none, state.put handle.scopedKey (.inProgress handle.payloadHash)) with
      | (.error error, file) => (.error error, { store with file })
      | (.ok (some entry), file) =>
          if entry.payloadHash ≠ handle.payloadHash then
            (.error (idempotencyConflict key), { store with file })
          else match entry with
            | .inProgress _ => (.ok (.pending (.rejected inProgressError)), { store with file })
            | .cached _ result pendingAudit _ =>
                match validateCachedEntryForIntent host key result pendingAudit intent with
                | .error error => (.error error, { store with file })
                | .ok () => (.ok (.cached result pendingAudit), { store with file })
      | (.ok none, file) =>
          let promise := store.own.promises.next
          (.ok .reserved,
            { file
              own := { store.own.put handle.scopedKey (some (handle.payloadHash, promise)) with
                promises := store.own.promises.create } })

def complete (store : FileStore) (io : Io) (handle : Handle) (result : Json)
    (pendingAudit : Option Json) : Except Thrown Unit × FileStore :=
  match store.own.held handle with
  | none => (.ok (), store)
  | some promise =>
      match withLockedState host store.file io fun state =>
        ((), state.put handle.scopedKey
          (.cached handle.payloadHash result pendingAudit
            (pendingAudit.map (hashPendingAudit host)))) with
      | (.error error, file) =>
          (.error error,
            { file, own := (store.own.put handle.scopedKey none).settle promise (.error error) })
      | (.ok (), file) => match pendingAudit with
        | some _ => (.ok (), { store with file })
        | none => (.ok (),
            { file, own := (store.own.put handle.scopedKey none).settle promise (.ok result) })

def clearAudit (handle : Handle) (state : FileState) : Option Json × FileState :=
  match state.lookup handle.scopedKey with
  | some (.cached payloadHash result _ pendingAuditHash) =>
      if payloadHash = handle.payloadHash then
        (some result,
          state.put handle.scopedKey (.cached payloadHash result none pendingAuditHash))
      else (none, state)
  | _ => (none, state)

def completeAudit (store : FileStore) (io : Io) (handle : Handle) :
    Except Thrown Unit × FileStore :=
  match withLockedState host store.file io (clearAudit handle) with
  | (.error error, file) => match store.own.held handle with
    | none => (.error error, { store with file })
    | some promise => (.error error, { file, own := store.own.settle promise (.error error) })
  | (.ok result, file) => match store.own.held handle with
    | none => (.ok (), { store with file })
    | some promise =>
        let settled := match result with
          | some result => .ok result
          | none => .error (.ofMessage "Completed idempotency result is missing.")
        (.ok (), { file, own := (store.own.put handle.scopedKey none).settle promise settled })

def failAudit (store : FileStore) (handle : Handle) (error : Thrown) : FileStore :=
  match store.own.held handle with
  | none => store
  | some promise =>
      { store with own := (store.own.put handle.scopedKey none).settle promise (.error error) }

def removeReservation (handle : Handle) (state : FileState) : Unit × FileState :=
  match state.lookup handle.scopedKey with
  | some (.inProgress payloadHash) =>
      ((), if payloadHash = handle.payloadHash then state.remove handle.scopedKey else state)
  | _ => ((), state)

def abort (store : FileStore) (io : Io) (handle : Handle) (error : Thrown) :
    Except Thrown Unit × FileStore :=
  match store.own.held handle with
  | none => (.ok (), store)
  | some promise =>
      let own := (store.own.put handle.scopedKey none).settle promise (.error error)
      match withLockedState host store.file io (removeReservation handle) with
      | (.error failure, file) => (.error failure, { file, own })
      | (.ok (), file) => (.ok (), { file, own })

def cachedCompleteAudit (store : FileStore) (io : Io) (handle : Handle) :
    Except Thrown Unit × FileStore :=
  match withLockedState host store.file io fun state => ((), (clearAudit handle state).2) with
  | (.error error, file) => (.error error, { store with file })
  | (.ok (), file) => (.ok (), { store with file })

end FileStore
end TradingGuardrails
