import TradingGuardrails.Audit.AnchoredWriter
import TradingGuardrails.Interleaving.Interruption

/-!
The construction of an audit writer on a database that an earlier version left. It adds the
columns and the index that the table lacks, records the first migration as applied, lets the
migrator of the library run, and gives the rows the hashes that they do not have, each with an
update of its own. Then it recovers the last hash and looks at the anchor.
-/
namespace TradingGuardrails

open Text Interleaving

structure MigrationRow where
  hash : Option String
  createdAt : Option Nat
  deriving DecidableEq

/-- A database with a table `audit_events`, and the anchor beside it. A column that the table
lacks is null in its rows. -/
structure AuditDatabase where
  eventColumns : List String
  /-- The rows of `audit_events`, in the order of their ids. -/
  events : List (Int × AuditEventRow)
  eventIdIndex : Bool
  /-- The columns of `__drizzle_migrations`, nothing where there is no such table. -/
  migrationColumns : Option (List String)
  migrations : List MigrationRow
  anchor : Option String

namespace AuditDatabase

def table (db : AuditDatabase) : AuditTable := db.events.map Prod.snd

def content (db : AuditDatabase) : List (Int × AuditContent) :=
  db.events.map fun event => (event.1, event.2.toAuditContent)

def eventIds (db : AuditDatabase) : List String :=
  db.table.filterMap fun row => row.eventId

end AuditDatabase

/-- The migrator of the database library, as the statements that it executes. With the first
migration on record it has nothing to apply, and leaves the database as it is. -/
structure Migrator where
  hash : String
  folderMillis : Nat
  Op : Type
  Ans : Op → Type
  exec : (op : Op) → AuditDatabase → Ans op × AuditDatabase
  migrate : Program Op Ans (Except Thrown Unit)
  applied : ∀ db, ⟨some hash, some folderMillis⟩ ∈ db.migrations →
    migrate.Through exec (fun s => s = db) (fun _ r => r = .ok ()) db

namespace Migrator

variable (M : Migrator)

inductive Statement where
  | tableExists
  | eventColumns
  | addEventColumn (column : String)
  | createEventIdIndex
  | createMigrationTable
  | migrationColumns
  | addMigrationColumn (column : String)
  | findBaseline
  | insertBaseline
  | ofMigrator (op : M.Op)
  | selectEvents
  | updateEvent (id : Int) (previousHash eventHash : String)
  | readAnchor
  | writeAnchor (hash : String)

def Answer : M.Statement → Type
  | .tableExists | .findBaseline => Bool
  | .eventColumns | .migrationColumns => List String
  | .selectEvents => List (Int × AuditEventRow)
  | .readAnchor => Option String
  | .ofMigrator op => M.Ans op
  | .addEventColumn _ | .createEventIdIndex | .createMigrationTable | .addMigrationColumn _
  | .insertBaseline | .updateEvent _ _ _ | .writeAnchor _ => Except Thrown Unit

end Migrator

def duplicateColumn (column : String) : Thrown :=
  .ofMessage ("duplicate column name: " ++ column)

def noSuchColumn (column : String) : Thrown := .ofMessage ("no such column: " ++ column)

namespace AuditDatabase

def addEventColumn (db : AuditDatabase) (column : String) : Except Thrown Unit × AuditDatabase :=
  if column ∈ db.eventColumns then (.error (duplicateColumn column), db)
  else (.ok (), { db with eventColumns := db.eventColumns ++ [column] })

/-- `CREATE UNIQUE INDEX IF NOT EXISTS` -/
def createEventIdIndex (db : AuditDatabase) : Except Thrown Unit × AuditDatabase :=
  if db.eventIdIndex then (.ok (), db)
  else if db.eventIds.Nodup then (.ok (), { db with eventIdIndex := true })
  else (.error (.ofMessage "UNIQUE constraint failed: audit_events.event_id"), db)

/-- `CREATE TABLE IF NOT EXISTS` -/
def createMigrationTable (db : AuditDatabase) : AuditDatabase :=
  match db.migrationColumns with
  | some _ => db
  | none => { db with migrationColumns := some ["id", "hash", "created_at"] }

def addMigrationColumn (db : AuditDatabase) (column : String) :
    Except Thrown Unit × AuditDatabase :=
  match db.migrationColumns with
  | none => (.error (.ofMessage "no such table: __drizzle_migrations"), db)
  | some columns =>
      if column ∈ columns then (.error (duplicateColumn column), db)
      else (.ok (), { db with migrationColumns := some (columns ++ [column]) })

def insertMigration (db : AuditDatabase) (row : MigrationRow) :
    Except Thrown Unit × AuditDatabase :=
  if "hash" ∉ db.migrationColumns.getD [] then (.error (noSuchColumn "hash"), db)
  else if "created_at" ∉ db.migrationColumns.getD [] then
    (.error (noSuchColumn "created_at"), db)
  else (.ok (), { db with migrations := db.migrations ++ [row] })

def sealed (row : AuditEventRow) (previousHash eventHash : String) : AuditEventRow :=
  { row with previousHash := some previousHash, eventHash := some eventHash }

/-- `UPDATE audit_events SET previous_hash = ?, event_hash = ? WHERE id = ?` -/
def updateEvent (db : AuditDatabase) (id : Int) (previousHash eventHash : String) :
    Except Thrown Unit × AuditDatabase :=
  if "previous_hash" ∉ db.eventColumns then (.error (noSuchColumn "previous_hash"), db)
  else if "event_hash" ∉ db.eventColumns then (.error (noSuchColumn "event_hash"), db)
  else (.ok (), { db with events := db.events.map fun event =>
    if event.1 = id then (event.1, sealed event.2 previousHash eventHash) else event })

end AuditDatabase

def Migrator.baseline (M : Migrator) : MigrationRow := ⟨some M.hash, some M.folderMillis⟩

def Migrator.execute (M : Migrator) :
    (s : M.Statement) → AuditDatabase → M.Answer s × AuditDatabase
  | .tableExists, db => (true, db)
  | .eventColumns, db => (db.eventColumns, db)
  | .addEventColumn column, db => db.addEventColumn column
  | .createEventIdIndex, db => db.createEventIdIndex
  | .createMigrationTable, db => (.ok (), db.createMigrationTable)
  | .migrationColumns, db => (db.migrationColumns.getD [], db)
  | .addMigrationColumn column, db => db.addMigrationColumn column
  | .findBaseline, db => (db.migrations.contains M.baseline, db)
  | .insertBaseline, db => db.insertMigration M.baseline
  | .ofMigrator op, db => M.exec op db
  | .selectEvents, db => (db.events, db)
  | .updateEvent id previousHash eventHash, db => db.updateEvent id previousHash eventHash
  | .readAnchor, db => (db.anchor, db)
  | .writeAnchor hash, db => (.ok (), { db with anchor := some hash })

structure AuditWriterOptions where
  environment : Environment
  hashSecret : String
  /-- Whether there is a `hashAnchorPath`. -/
  anchored : Bool
  repairHashAnchor : Bool
  secretAccepted : AuditWriter.assertAuditHashSecret hashSecret environment = .ok ()
  anchorAccepted : AuditWriter.assertAuditHashAnchor anchored environment = .ok ()

namespace Migration

variable {M : Migrator} (host : Host) (options : AuditWriterOptions)

abbrev Sql (M : Migrator) (α : Type) : Type := Routine M.Statement M.Answer Unit Thrown α

def statement (s : M.Statement) : Sql M (M.Answer s) := Routine.perform s

def addMissing (add : String → Sql M Unit) (existing columns : List String) : Sql M Unit :=
  columns.forM fun column => if column ∈ existing then pure () else add column

def addEventColumn (column : String) : Sql M Unit := do
  let answer : Except Thrown Unit ← statement (M := M) (.addEventColumn column)
  Routine.ofExcept answer

def addMigrationColumn (column : String) : Sql M Unit := do
  let answer : Except Thrown Unit ← statement (M := M) (.addMigrationColumn column)
  Routine.ofExcept answer

def ensureMigrationTable : Sql M Unit := do
  let answer : Except Thrown Unit ← statement (M := M) .createMigrationTable
  Routine.ofExcept answer
  let existing : List String ← statement (M := M) .migrationColumns
  addMissing addMigrationColumn existing ["id", "hash", "created_at"]

def insertBaseline : Sql M Unit := do
  let answer : Except Thrown Unit ← statement (M := M) .insertBaseline
  Routine.ofExcept answer

def recordBaseline : Sql M Unit := do
  let existing : List String ← statement (M := M) .eventColumns
  addMissing addEventColumn existing ["prompt_id", "session_id", "input_ref"]
  let answer : Except Thrown Unit ← statement (M := M) .createEventIdIndex
  Routine.ofExcept answer
  ensureMigrationTable
  let found : Bool ← statement (M := M) .findBaseline
  if found = true then pure () else insertBaseline

def baselineLegacySchema : Sql M Unit := do
  let found : Bool ← statement (M := M) .tableExists
  if found = true then recordBaseline else pure ()

def migrateProgram {α : Type} : Program M.Op M.Ans α → Program M.Statement M.Answer α
  | .done v => .done v
  | .act op next => .act (.ofMigrator op) fun a => migrateProgram (next a)

def migrate : Sql M Unit := fun l => (migrateProgram M.migrate).bind fun r => .done (r, l)

def ensureAuditEventColumns : Sql M Unit := do
  let existing : List String ← statement (M := M) .eventColumns
  addMissing addEventColumn existing ["prompt_id", "session_id", "input_ref", "event_hash"]

def mixedRows : Thrown :=
  .ofMessage "Audit event hash chain cannot mix legacy and sealed rows."

def hashBehind (previousHash : String) (row : AuditEventRow) : String :=
  computeEventHash host options.hashSecret { row with previousHash := some previousHash }

def sealRows (previousHash : String) : List (Int × AuditEventRow) → Sql M Unit
  | [] => pure ()
  | event :: events => do
      let eventHash := hashBehind host options previousHash event.2
      let answer : Except Thrown Unit ←
        statement (M := M) (.updateEvent event.1 previousHash eventHash)
      Routine.ofExcept answer
      sealRows eventHash events

def isSealed (event : Int × AuditEventRow) : Bool := event.2.eventHash.isSome

def backfillRows (events : List (Int × AuditEventRow)) : Sql M Unit :=
  if events.all isSealed = true then pure ()
  else if events.any isSealed = true then throw mixedRows
  else sealRows host options zeroHash events

def backfillLegacyEventHashes : Sql M Unit := do
  let events : List (Int × AuditEventRow) ← statement (M := M) .selectEvents
  backfillRows host options events

def prepareSchema : Sql M Unit := do
  baselineLegacySchema
  migrate
  ensureAuditEventColumns

def initSchema : Sql M Unit := do
  prepareSchema
  backfillLegacyEventHashes host options

def verifyAnchor (lastHash : String) : Sql M Unit := do
  let anchor : Option String ← statement (M := M) .readAnchor
  let repair ← Routine.ofExcept
    (verifyAnchoredHash options.anchored anchor lastHash options.repairHashAnchor)
  if repair = true then do
    let answer : Except Thrown Unit ← statement (M := M) (.writeAnchor lastHash)
    Routine.ofExcept answer
  else pure ()

def recover : Sql M String := do
  let events : List (Int × AuditEventRow) ← statement (M := M) .selectEvents
  let lastHash ← Routine.ofExcept
    (recoverLastHash host options.hashSecret (events.map Prod.snd))
  verifyAnchor options lastHash
  pure lastHash

def construct : Sql M String := do
  Routine.ofExcept (AuditWriter.assertAuditHashSecret options.hashSecret options.environment)
  Routine.ofExcept (AuditWriter.assertAuditHashAnchor options.anchored options.environment)
  initSchema host options
  recover host options

end Migration
end TradingGuardrails
