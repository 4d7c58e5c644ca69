import TradingGuardrails.Host
import TradingGuardrails.Schemas.Audit
import TradingGuardrails.Secrets.Redaction

/-!
The audit log as its callers see it: rows in the order in which they were written, at
most one for each event id. An event that is written again under its id must be the
same, after redaction. The writer redacts events with patterns of its own.
-/
namespace TradingGuardrails

open Text

namespace AuditRedaction

open Redaction

def redactChars (text : List Char) : List Char :=
  let (marked, found) :=
    authorizationBearerTokenPattern.replaceAll (fun n _ => placeholder n) text
  let text := (bearerTokenPattern.replaceAll keepLabel marked).1
  let text := (pemPattern.replaceAll (fun _ _ => redacted) text).1
  let text := (labeledHexSecretPattern.replaceAll keepLabel text).1
  let text := (unquotedSecretAssignmentPattern.replaceAll keepLabel text).1
  restore 0 found text

def redactSecrets (text : String) : String :=
  String.ofList (redactChars text.toList)

def redactObject (v : Json) : Json :=
  redactJson redactSecrets v

end AuditRedaction

def auditColumns : List String := [
  "eventType", "correlationId", "environment", "intentId", "principal", "promptId", "sessionId",
  "inputRef", "data"]

/-- The text that a column holds for a field of an event: null for a missing field, and
the JSON text of the data. -/
def columnText (redactedEvent : Json) (column : String) : Option String :=
  match redactedEvent.field? column with
  | none | some .null => none
  | some (.str s) => some s
  | some v => some (stringify v)

structure AuditRow where
  eventId : String
  columns : List (Option String)
  deriving DecidableEq

abbrev AuditLog := List AuditRow

namespace AuditLog

def differentContent : Thrown :=
  .ofMessage "Audit event id already exists with different content."

def rowOf (event : Json) (newId : String) : AuditRow where
  eventId := (textValue? (event.field? "eventId")).getD newId
  columns := auditColumns.map (columnText (AuditRedaction.redactObject event))

def find (log : AuditLog) (eventId : String) : Option AuditRow :=
  log.find? fun row => row.eventId == eventId

def insert (log : AuditLog) (row : AuditRow) : Except Thrown AuditLog :=
  match log.find row.eventId with
  | none => .ok (log ++ [row])
  | some existing =>
      if existing.columns = row.columns then .ok log else .error differentContent

end AuditLog
end TradingGuardrails
