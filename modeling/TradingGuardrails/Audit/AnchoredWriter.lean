import TradingGuardrails.Audit.Chain
import TradingGuardrails.Audit.Writer

/-!
The audit writer over its two files: the table of rows and the anchor, which holds the
hash of the last row. A write commits its row in one transaction and replaces the anchor
afterwards. When the replacement fails the writer remembers the hash, so that the same
event, written again, may replace the anchor without being taken for a tampered one.
-/
namespace TradingGuardrails

open Text

/-- An event with the types that `AuditWriter.write` asks for. -/
structure AuditEvent where
  eventId : Option String := none
  eventType : AuditEventType
  environment : Environment
  correlationId : String
  intentId : Option String := none
  principal : Option String := none
  promptId : Option String := none
  sessionId : Option String := none
  inputRef : Option String := none
  data : List (String × Json)

def AuditEvent.toInput (event : AuditEvent) : AuditEventInput where
  eventId := event.eventId
  eventType := event.eventType
  environment := event.environment
  correlationId := some (.str event.correlationId)
  intentId := event.intentId.map .str
  principal := event.principal.map .str
  promptId := event.promptId.map .str
  sessionId := event.sessionId.map .str
  inputRef := event.inputRef.map .str
  data := .obj event.data

/-- One call of `write`, with the id and the time that it may take, and the failure of
its commit. -/
structure WriteCall where
  event : AuditEvent
  randomId : String
  timestamp : String
  commit : Option Thrown := none

structure AuditFiles where
  table : AuditTable
  anchor : Option String

/-- What a writer keeps in memory between two calls. Its last hash is recovered from the
table before every use. -/
structure AuditWriter where
  pendingAnchorRepairHash : Option String := none

namespace AuditContent

def columns (c : AuditContent) : List (Option String) := [
  c.eventType, c.correlationId, c.environment, c.intentId, c.principal, c.promptId, c.sessionId,
  c.inputRef, c.data]

end AuditContent

namespace AuditTable

def find (table : AuditTable) (eventId : String) : Option AuditEventRow :=
  List.find? (fun row => row.eventId == some eventId) table

def UniqueIds (table : AuditTable) : Prop :=
  (table.map fun row => row.eventId).Nodup

def log (table : AuditTable) : AuditLog :=
  table.filterMap fun row => row.eventId.map fun eventId => ⟨eventId, row.columns⟩

end AuditTable

namespace WriteCall

def eventId (call : WriteCall) : String :=
  call.event.eventId.getD call.randomId

def redactedEvent (call : WriteCall) : Json :=
  AuditRedaction.redactObject call.event.toInput.toJson

def content (call : WriteCall) : AuditContent where
  eventId := some call.eventId
  eventType := columnText call.redactedEvent "eventType"
  timestamp := some call.timestamp
  correlationId := columnText call.redactedEvent "correlationId"
  environment := columnText call.redactedEvent "environment"
  intentId := columnText call.redactedEvent "intentId"
  principal := columnText call.redactedEvent "principal"
  promptId := columnText call.redactedEvent "promptId"
  sessionId := columnText call.redactedEvent "sessionId"
  inputRef := columnText call.redactedEvent "inputRef"
  data := columnText call.redactedEvent "data"

def row (host : Host) (secret : String) (call : WriteCall) (previousHash : String) :
    AuditEventRow :=
  let unsealed : AuditEventRow :=
    { call.content with previousHash := some previousHash, eventHash := none }
  { unsealed with eventHash := some (computeEventHash host secret unsealed) }

end WriteCall

namespace AuditWriter

variable (host : Host) (secret : String) (anchored : Bool)

/-- The body of the transaction of `write`: the new table, and the hash that the anchor
is to be replaced by. -/
def transactionBody (writer : AuditWriter) (files : AuditFiles) (call : WriteCall) :
    Except Thrown (AuditTable × Option String) := do
  let lastHash ← recoverLastHash host secret files.table
  match files.table.find call.eventId with
  | some existing =>
      if existing.columns ≠ call.content.columns then .error AuditLog.differentContent
      else if existing.eventHash ≠ some lastHash then do
        let _ ← verifyAnchoredHash anchored files.anchor lastHash false
        .ok (files.table, none)
      else if writer.pendingAnchorRepairHash ≠ some lastHash then do
        let _ ← verifyAnchoredHash anchored files.anchor lastHash false
        .ok (files.table, none)
      else .ok (files.table, some lastHash)
  | none => do
      let _ ← verifyAnchoredHash anchored files.anchor lastHash false
      let row := call.row host secret lastHash
      .ok (files.table ++ [row], row.eventHash)

/-- The transaction is rolled back when its body throws or its commit fails. -/
def transaction (writer : AuditWriter) (files : AuditFiles) (call : WriteCall) :
    Except Thrown (Option String) × AuditFiles :=
  match transactionBody host secret anchored writer files call with
  | .error error => (.error error, files)
  | .ok (table, committedHash) => match call.commit with
    | some error => (.error error, files)
    | none => (.ok committedHash, { files with table })

def given (hash : Option String) : Bool :=
  hash.getD "" != ""

def writeAnchoredHash (hash : Option String) (io : Io) (files : AuditFiles) :
    Except Thrown Unit × AuditFiles :=
  if !anchored || !given hash then (.ok (), files)
  else match io with
    | .done => (.ok (), { files with anchor := hash })
    | .failBefore error => (.error error, files)
    | .failAfter error => (.error error, { files with anchor := hash })

def replaceAnchor (writer : AuditWriter) (committedHash : Option String) (io : Io)
    (files : AuditFiles) : Except Thrown Unit × AuditWriter × AuditFiles :=
  match writeAnchoredHash anchored committedHash io files with
  | (.ok (), files) =>
      if given committedHash && writer.pendingAnchorRepairHash == committedHash then
        (.ok (), { writer with pendingAnchorRepairHash := none }, files)
      else (.ok (), writer, files)
  | (.error error, files) =>
      if given committedHash then
        (.error error, { writer with pendingAnchorRepairHash := committedHash }, files)
      else (.error error, writer, files)

def write (writer : AuditWriter) (files : AuditFiles) (call : WriteCall) (io : Io) :
    Except Thrown Unit × AuditWriter × AuditFiles :=
  match transaction host secret anchored writer files call with
  | (.error error, files) => (.error error, writer, files)
  | (.ok committedHash, files) => replaceAnchor anchored writer committedHash io files

def assertAuditHashSecret (environment : Environment) : Except Thrown Unit :=
  if environment = .dev then .ok ()
  else if secret = "dev-audit-hash-secret" ∨ (codeUnits secret).length < 32 then
    .error (.ofMessage
      "Audit hash secret must be configured with at least 32 characters outside dev.")
  else .ok ()

def assertAuditHashAnchor (environment : Environment) : Except Thrown Unit :=
  if environment = .dev then .ok ()
  else if !anchored then
    .error (.ofMessage "Audit hash anchor path must be configured outside dev.")
  else .ok ()

/-- The checks of the constructor: the last hash, and whether the anchor is to be replaced
by it. -/
def constructorChecks (environment : Environment) (repairHashAnchor : Bool)
    (files : AuditFiles) : Except Thrown (String × Bool) := do
  assertAuditHashSecret secret environment
  assertAuditHashAnchor anchored environment
  let lastHash ← recoverLastHash host secret files.table
  let repair ← verifyAnchoredHash anchored files.anchor lastHash repairHashAnchor
  .ok (lastHash, repair)

def construct (environment : Environment) (repairHashAnchor : Bool) (io : Io)
    (files : AuditFiles) : Except Thrown AuditWriter × AuditFiles :=
  match constructorChecks host secret anchored environment repairHashAnchor files with
  | .error error => (.error error, files)
  | .ok (_, false) => (.ok {}, files)
  | .ok (lastHash, true) => match writeAnchoredHash anchored (some lastHash) io files with
    | (.ok (), files) => (.ok {}, files)
    | (.error error, files) => (.error error, files)

end AuditWriter

namespace AuditFiles

/-- The hash that the anchor stands for: a missing anchor is that of an empty chain. -/
def anchoredHash (files : AuditFiles) : String :=
  files.anchor.getD zeroHash

end AuditFiles

variable {host : Host} {secret : String} {anchored : Bool}

/-- The chain ends with the given hash, and the anchor agrees if there is one. -/
structure Verified (host : Host) (secret : String) (anchored : Bool) (files : AuditFiles)
    (lastHash : String) : Prop where
  recovered : recoverLastHash host secret files.table = .ok lastHash
  anchor : anchored = true → files.anchoredHash = lastHash

theorem verifyAnchoredHash_false {anchor : Option String} {lastHash : String} {repair : Bool} :
    verifyAnchoredHash anchored anchor lastHash repair = .ok false ↔
      (anchored = true → anchor.getD zeroHash = lastHash) := by
  cases anchored with
  | false => simp [verifyAnchoredHash]
  | true =>
      cases anchor with
      | none =>
          by_cases hzero : lastHash = zeroHash
          · simp [verifyAnchoredHash, hzero]
          · cases repair <;> simp [verifyAnchoredHash, hzero, Ne.symm hzero]
      | some anchoredHash =>
          by_cases hsame : anchoredHash = lastHash
          · simp [verifyAnchoredHash, hsame]
          · cases repair <;> simp [verifyAnchoredHash, hsame]

theorem verifyAnchoredHash_ok {anchor : Option String} {lastHash : String} {repair : Bool}
    (h : verifyAnchoredHash anchored anchor lastHash false = .ok repair) : repair = false := by
  cases anchored with
  | false => simpa [verifyAnchoredHash] using h.symm
  | true =>
      cases anchor with
      | none =>
          simp only [verifyAnchoredHash, Bool.not_true, Bool.false_eq_true, if_false] at h
          split_ifs at h
          exact (Except.ok.inj h).symm
      | some anchoredHash =>
          simp only [verifyAnchoredHash, Bool.not_true, Bool.false_eq_true, if_false] at h
          split_ifs at h
          exact (Except.ok.inj h).symm

/-- How a transaction ends: refused, with its row already there, with its row there and
the anchor to be repaired, or with a new row. -/
inductive Transacted (host : Host) (secret : String) (anchored : Bool) (writer : AuditWriter)
    (files : AuditFiles) (call : WriteCall) : Except Thrown (Option String) → AuditTable → Prop
  | refused (error : Thrown) :
      Transacted host secret anchored writer files call (.error error) files.table
  | present {lastHash : String} {existing : AuditEventRow}
      (verified : Verified host secret anchored files lastHash)
      (found : files.table.find call.eventId = some existing)
      (same : existing.columns = call.content.columns) :
      Transacted host secret anchored writer files call (.ok none) files.table
  | repair {lastHash : String} {existing : AuditEventRow}
      (recovered : recoverLastHash host secret files.table = .ok lastHash)
      (found : files.table.find call.eventId = some existing)
      (same : existing.columns = call.content.columns)
      (last : existing.eventHash = some lastHash)
      (pending : writer.pendingAnchorRepairHash = some lastHash) :
      Transacted host secret anchored writer files call (.ok (some lastHash)) files.table
  | insert {lastHash : String}
      (verified : Verified host secret anchored files lastHash)
      (fresh : files.table.find call.eventId = none)
      (commits : call.commit = none) :
      Transacted host secret anchored writer files call
        (.ok (call.row host secret lastHash).eventHash)
        (files.table ++ [call.row host secret lastHash])

theorem transactionBody_ok {writer : AuditWriter} {files : AuditFiles} {call : WriteCall}
    {table : AuditTable} {committedHash : Option String} (commits : call.commit = none)
    (h : writer.transactionBody host secret anchored files call = .ok (table, committedHash)) :
    Transacted host secret anchored writer files call (.ok committedHash) table := by
  simp only [AuditWriter.transactionBody] at h
  cases hrecovered : recoverLastHash host secret files.table with
  | error e =>
      rw [hrecovered] at h
      cases h
  | ok lastHash =>
      rw [hrecovered] at h
      simp only [bind, Except.bind] at h
      cases hverify : verifyAnchoredHash anchored files.anchor lastHash false with
      | error e =>
          simp only [hverify] at h
          split at h
          · next existing hfound =>
              split_ifs at h with hsame hlast hpending
              rw [ne_eq, not_not] at hsame hlast hpending
              cases h
              exact .repair hrecovered hfound hsame hlast hpending
          · cases h
      | ok repair =>
          simp only [hverify] at h
          have verified : Verified host secret anchored files lastHash := by
            cases verifyAnchoredHash_ok hverify
            exact ⟨hrecovered, verifyAnchoredHash_false.mp hverify⟩
          split at h
          · next existing hfound =>
              split_ifs at h with hsame hlast hpending
              all_goals rw [ne_eq, not_not] at hsame
              · cases h
                exact .present verified hfound hsame
              · cases h
                exact .present verified hfound hsame
              · rw [ne_eq, not_not] at hlast hpending
                cases h
                exact .repair hrecovered hfound hsame hlast hpending
          · next hfresh =>
              cases h
              exact .insert verified hfresh commits

variable (host secret anchored) in
theorem transaction_cases (writer : AuditWriter) (files : AuditFiles) (call : WriteCall) :
    ∃ result table, writer.transaction host secret anchored files call =
        (result, { files with table }) ∧
      Transacted host secret anchored writer files call result table := by
  simp only [AuditWriter.transaction]
  cases hbody : writer.transactionBody host secret anchored files call with
  | error e => exact ⟨_, _, rfl, .refused e⟩
  | ok done =>
      obtain ⟨table, committedHash⟩ := done
      cases hcommit : call.commit with
      | some e => exact ⟨_, _, rfl, .refused e⟩
      | none => exact ⟨_, _, rfl, transactionBody_ok hcommit hbody⟩

theorem given_recovered (hhost : host.Lawful) {table : AuditTable} {lastHash : String}
    (h : recoverLastHash host secret table = .ok lastHash) :
    AuditWriter.given (some lastHash) = true := by
  have hlength := recoverLastHash_length hhost h
  simp only [AuditWriter.given, Option.getD_some, bne_iff_ne, ne_eq]
  rintro rfl
  exact absurd hlength (by decide)

theorem recoverLastHash_row (hhost : host.Lawful) {table : AuditTable} {lastHash : String}
    (call : WriteCall) (h : recoverLastHash host secret table = .ok lastHash) :
    ∃ newHash, (call.row host secret lastHash).eventHash = some newHash ∧
      recoverLastHash host secret (table ++ [call.row host secret lastHash]) = .ok newHash := by
  have hlength := length_of_hex
    (hhost.hmacSha256_hex secret (call.row host secret lastHash).message)
  refine ⟨computeEventHash host secret (call.row host secret lastHash), rfl, ?_⟩
  refine recoverFrom_concat.mpr ⟨lastHash, h, ⟨rfl, rfl, fun hempty => ?_⟩, rfl⟩
  rw [computeEventHash] at hempty
  rw [hempty] at hlength
  exact absurd hlength (by decide)

namespace AuditTable

theorem find_eq_some {table : AuditTable} {eventId : String} {row : AuditEventRow}
    (h : table.find eventId = some row) : row ∈ table ∧ row.eventId = some eventId :=
  ⟨List.mem_of_find?_eq_some h, by simpa using List.find?_some h⟩

theorem find_eq_none {table : AuditTable} {eventId : String} (h : table.find eventId = none) :
    ∀ row ∈ table, row.eventId ≠ some eventId := by
  intro row hrow heq
  have := List.find?_eq_none.mp h row hrow
  simp [heq] at this

theorem find_of_mem {table : AuditTable} (unique : table.UniqueIds) {eventId : String}
    {row : AuditEventRow} (hrow : row ∈ table) (hid : row.eventId = some eventId) :
    table.find eventId = some row := by
  cases hfind : table.find eventId with
  | none => exact absurd hid (find_eq_none hfind row hrow)
  | some other =>
      obtain ⟨hother, hotherId⟩ := find_eq_some hfind
      have := List.inj_on_of_nodup_map unique hother hrow (hotherId.trans hid.symm)
      rw [this]

theorem uniqueIds_insert {table : AuditTable} (unique : table.UniqueIds) {row : AuditEventRow}
    {eventId : String} (hid : row.eventId = some eventId) (fresh : table.find eventId = none) :
    UniqueIds (table ++ [row]) := by
  rw [UniqueIds, List.map_append, List.nodup_append]
  refine ⟨unique, List.nodup_singleton _, ?_⟩
  rintro _ hmem _ hlast rfl
  obtain ⟨other, hother, heq⟩ := List.mem_map.mp hmem
  rw [List.map_singleton, List.mem_singleton, hid] at hlast
  exact find_eq_none fresh other hother (heq.trans hlast)

def EndsWith (table : AuditTable) (eventId : String) : Prop :=
  ∃ rows row, table = rows ++ [row] ∧ row.eventId = some eventId

end AuditTable

namespace Transacted

variable {writer : AuditWriter} {files : AuditFiles} {call : WriteCall}
  {result : Except Thrown (Option String)} {table : AuditTable}

theorem table_grows (h : Transacted host secret anchored writer files call result table) :
    table = files.table ∨ ∃ row, table = files.table ++ [row] := by
  cases h with
  | refused _ | present _ _ _ | repair _ _ _ _ _ => exact .inl rfl
  | insert _ _ _ => exact .inr ⟨_, rfl⟩

theorem unique (h : Transacted host secret anchored writer files call result table)
    (unique : files.table.UniqueIds) : table.UniqueIds := by
  cases h with
  | refused _ | present _ _ _ | repair _ _ _ _ _ => exact unique
  | insert _ fresh _ => exact AuditTable.uniqueIds_insert unique rfl fresh

/-- After a transaction that returns, the row of its event is there. -/
theorem stored {committedHash : Option String}
    (h : Transacted host secret anchored writer files call (.ok committedHash) table) :
    ∃ row ∈ table, row.eventId = some call.eventId ∧
      row.columns = call.content.columns := by
  cases h with
  | present _ found same | repair _ found same _ _ =>
      obtain ⟨hmem, hid⟩ := AuditTable.find_eq_some found
      exact ⟨_, hmem, hid, same⟩
  | insert _ _ _ => exact ⟨_, List.mem_append_right _ List.mem_cons_self, rfl, rfl⟩

/-- A hash that the anchor is to be replaced by is the last hash of the table. -/
theorem committed (hhost : host.Lawful) {hash : String}
    (h : Transacted host secret anchored writer files call (.ok (some hash)) table) :
    recoverLastHash host secret table = .ok hash := by
  generalize hresult : Except.ok (some hash) = result at h
  cases h with
  | refused _ | present _ _ _ => cases hresult
  | repair recovered _ _ _ _ =>
      cases hresult
      exact recovered
  | insert verified _ _ =>
      obtain ⟨newHash, hhash, hrecovered⟩ := recoverLastHash_row hhost call verified.recovered
      rw [hhash] at hresult
      cases hresult
      exact hrecovered

end Transacted

namespace AuditWriter

/-- The anchor agrees with the chain, or the writer remembers that it has to repair it. -/
structure Sound (host : Host) (secret : String) (anchored : Bool) (writer : AuditWriter)
    (files : AuditFiles) : Prop where
  accepted : ∃ lastHash, recoverLastHash host secret files.table = .ok lastHash ∧
    (anchored = true →
      files.anchoredHash = lastHash ∨ writer.pendingAnchorRepairHash = some lastHash)
  unique : files.table.UniqueIds

variable (anchored) in
theorem replaceAnchor_table (writer : AuditWriter) (hash : Option String) (io : Io)
    (files : AuditFiles) :
    (writer.replaceAnchor anchored hash io files).2.2.table = files.table := by
  simp only [replaceAnchor, writeAnchoredHash]
  cases anchored <;> cases hgiven : given hash <;> cases io <;> simp <;> split <;> rfl

theorem replaceAnchor_none (writer : AuditWriter) (io : Io) (files : AuditFiles) :
    writer.replaceAnchor anchored none io files = (.ok (), writer, files) := by
  simp [replaceAnchor, writeAnchoredHash, given]

theorem replaceAnchor_ok {writer writer' : AuditWriter} {hash : String} {io : Io}
    {files files' : AuditFiles} (hgiven : given (some hash) = true)
    (h : writer.replaceAnchor true (some hash) io files = (.ok (), writer', files')) :
    files'.anchor = some hash := by
  simp only [replaceAnchor, writeAnchoredHash, hgiven] at h
  cases io with
  | done =>
      simp only [Bool.not_true, Bool.or_self, Bool.false_eq_true, if_false] at h
      split_ifs at h
      all_goals
        cases h
        rfl
  | failBefore e | failAfter e => simp at h

theorem replaceAnchor_error {writer writer' : AuditWriter} {hash : Option String} {io : Io}
    {files files' : AuditFiles} {e : Thrown}
    (h : writer.replaceAnchor anchored hash io files = (.error e, writer', files')) :
    writer'.pendingAnchorRepairHash = hash := by
  cases hgiven : given hash with
  | false => simp [replaceAnchor, writeAnchoredHash, hgiven] at h
  | true =>
      simp only [replaceAnchor, writeAnchoredHash, hgiven] at h
      cases anchored with
      | false =>
          simp only [Bool.not_false, Bool.true_or, if_true] at h
          split_ifs at h
          all_goals cases h
      | true =>
          cases io with
          | done =>
              simp only [Bool.not_true, Bool.or_self, Bool.false_eq_true, if_false] at h
              split_ifs at h
              all_goals cases h
          | failBefore e | failAfter e =>
              simp only [Bool.not_true, Bool.or_self, Bool.false_eq_true, if_false,
                if_true] at h
              cases h
              rfl

theorem replaceAnchor_sound (hhost : host.Lawful) {writer writer' : AuditWriter}
    {hash : String} {io : Io} {files files' : AuditFiles} {result : Except Thrown Unit}
    (recovered : recoverLastHash host secret files.table = .ok hash)
    (unique : files.table.UniqueIds)
    (h : writer.replaceAnchor anchored (some hash) io files = (result, writer', files')) :
    Sound host secret anchored writer' files' := by
  have htable : files'.table = files.table := by
    rw [← replaceAnchor_table anchored writer (some hash) io files, h]
  refine ⟨⟨hash, by rw [htable]; exact recovered, fun hanchored => ?_⟩,
    by rw [htable]; exact unique⟩
  subst hanchored
  cases result with
  | ok done =>
      have := replaceAnchor_ok (given_recovered hhost recovered) h
      exact .inl (by rw [AuditFiles.anchoredHash, this, Option.getD_some])
  | error e => exact .inr (replaceAnchor_error h)

variable (host secret anchored) in
/-- What one write does, for each way in which its transaction may end. -/
theorem write_cases (writer : AuditWriter) (files : AuditFiles) (call : WriteCall) (io : Io) :
    (∃ error, writer.transaction host secret anchored files call = (.error error, files) ∧
      writer.write host secret anchored files call io = (.error error, writer, files)) ∨
    ∃ committedHash table,
      writer.transaction host secret anchored files call =
        (.ok committedHash, { files with table }) ∧
      Transacted host secret anchored writer files call (.ok committedHash) table ∧
      writer.write host secret anchored files call io =
        writer.replaceAnchor anchored committedHash io { files with table } := by
  obtain ⟨result, table, htransaction, transacted⟩ :=
    transaction_cases host secret anchored writer files call
  cases result with
  | error error =>
      cases transacted
      refine .inl ⟨error, htransaction, ?_⟩
      simp only [write, htransaction]
  | ok committedHash =>
      refine .inr ⟨committedHash, table, htransaction, transacted, ?_⟩
      simp only [write, htransaction]

theorem write_sound (hhost : host.Lawful) {writer : AuditWriter} {files : AuditFiles}
    (sound : writer.Sound host secret anchored files) (call : WriteCall) (io : Io) :
    Sound host secret anchored (writer.write host secret anchored files call io).2.1
      (writer.write host secret anchored files call io).2.2 := by
  rcases write_cases host secret anchored writer files call io with ⟨error, -, hwrite⟩ |
    ⟨committedHash, table, -, transacted, hwrite⟩
  · rw [hwrite]
    exact sound
  · rw [hwrite]
    cases committedHash with
    | none =>
        rw [replaceAnchor_none]
        generalize hresult : Except.ok none = result at transacted
        cases transacted with
        | refused _ | repair _ _ _ _ _ => cases hresult
        | present _ _ _ => exact sound
        | insert _ _ _ => cases hresult
    | some hash =>
        have unique := transacted.unique sound.unique
        exact replaceAnchor_sound hhost (transacted.committed hhost) unique rfl

end AuditWriter

namespace AuditWriter

theorem constructorChecks_ok {environment : Environment} {repairHashAnchor repair : Bool}
    {files : AuditFiles} {lastHash : String}
    (h : constructorChecks host secret anchored environment repairHashAnchor files =
      .ok (lastHash, repair)) :
    recoverLastHash host secret files.table = .ok lastHash ∧
      verifyAnchoredHash anchored files.anchor lastHash repairHashAnchor = .ok repair := by
  simp only [constructorChecks, bind, Except.bind] at h
  cases hsecret : assertAuditHashSecret secret environment with
  | error e => simp [hsecret] at h
  | ok _ =>
      cases hanchor : assertAuditHashAnchor anchored environment with
      | error e => simp [hsecret, hanchor] at h
      | ok _ =>
          cases hrecover : recoverLastHash host secret files.table with
          | error e => simp [hsecret, hanchor, hrecover] at h
          | ok hash =>
              cases hverify : verifyAnchoredHash anchored files.anchor hash repairHashAnchor with
              | error e => simp [hsecret, hanchor, hrecover, hverify] at h
              | ok answer =>
                  simp only [hsecret, hanchor, hrecover, hverify, Except.ok.injEq,
                    Prod.mk.injEq] at h
                  obtain ⟨rfl, rfl⟩ := h
                  exact ⟨rfl, hverify⟩

theorem writeAnchoredHash_ok {hash : String} {io : Io} {files files' : AuditFiles}
    (hgiven : given (some hash) = true)
    (h : writeAnchoredHash anchored (some hash) io files = (.ok (), files')) :
    files'.table = files.table ∧ (anchored = true → files'.anchor = some hash) := by
  simp only [writeAnchoredHash, hgiven] at h
  cases anchored with
  | false =>
      cases h
      exact ⟨rfl, fun h => nomatch h⟩
  | true =>
      cases io with
      | done =>
          cases h
          exact ⟨rfl, fun _ => rfl⟩
      | failBefore e | failAfter e => cases h

theorem construct_verified (hhost : host.Lawful) {environment : Environment}
    {repairHashAnchor : Bool} {io : Io} {writer : AuditWriter} {files files' : AuditFiles}
    (unique : files.table.UniqueIds)
    (h : construct host secret anchored environment repairHashAnchor io files =
      (.ok writer, files')) :
    files'.table.UniqueIds ∧ ∃ lastHash, Verified host secret anchored files' lastHash := by
  simp only [construct] at h
  split at h
  · cases h
  · next lastHash hchecks =>
      cases h
      obtain ⟨hrecovered, hverify⟩ := constructorChecks_ok hchecks
      exact ⟨unique, lastHash, hrecovered, verifyAnchoredHash_false.mp hverify⟩
  · next lastHash hchecks =>
      obtain ⟨hrecovered, -⟩ := constructorChecks_ok hchecks
      split at h
      · next hreplaced =>
          cases h
          obtain ⟨htable, hanchor⟩ :=
            writeAnchoredHash_ok (given_recovered hhost hrecovered) hreplaced
          rw [← htable] at hrecovered unique
          refine ⟨unique, lastHash, hrecovered, fun hanchored => ?_⟩
          rw [AuditFiles.anchoredHash, hanchor hanchored, Option.getD_some]
      · cases h

theorem sound_of_verified {writer : AuditWriter} {files : AuditFiles} {lastHash : String}
    (unique : files.table.UniqueIds) (verified : Verified host secret anchored files lastHash) :
    writer.Sound host secret anchored files :=
  ⟨⟨lastHash, verified.recovered, fun h => .inl (verified.anchor h)⟩, unique⟩

variable (host secret anchored)

def run (writer : AuditWriter) (files : AuditFiles) :
    List (WriteCall × Io) → AuditWriter × AuditFiles
  | [] => (writer, files)
  | (call, io) :: writes =>
      let (_, writer, files) := writer.write host secret anchored files call io
      run writer files writes

variable {host secret anchored}

theorem run_sound (hhost : host.Lawful) {writer : AuditWriter} {files : AuditFiles}
    (sound : writer.Sound host secret anchored files) (writes : List (WriteCall × Io)) :
    Sound host secret anchored (run host secret anchored writer files writes).1
      (run host secret anchored writer files writes).2 := by
  induction writes generalizing writer files with
  | nil => exact sound
  | cons w writes ih => exact ih (write_sound hhost sound w.1 w.2)

variable (host secret anchored) in
theorem write_grows (writer : AuditWriter) (files : AuditFiles) (call : WriteCall) (io : Io) :
    (writer.write host secret anchored files call io).2.2.table = files.table ∨
      ∃ row, (writer.write host secret anchored files call io).2.2.table =
        files.table ++ [row] := by
  rcases write_cases host secret anchored writer files call io with
    ⟨error, -, hwrite⟩ | ⟨committedHash, table, -, transacted, hwrite⟩
  · rw [hwrite]
    exact .inl rfl
  · rw [hwrite, replaceAnchor_table]
    exact transacted.table_grows

variable (host secret anchored) in
theorem run_grows (writer : AuditWriter) (files : AuditFiles) (writes : List (WriteCall × Io)) :
    files.table <+: (run host secret anchored writer files writes).2.table := by
  induction writes generalizing writer files with
  | nil => exact List.prefix_refl _
  | cons w writes ih =>
      have hfirst : files.table <+:
          (writer.write host secret anchored files w.1 w.2).2.2.table := by
        rcases write_grows host secret anchored writer files w.1 w.2 with h | ⟨row, h⟩
        · exact h ▸ List.prefix_refl files.table
        · rw [h]
          exact List.prefix_append _ _
      exact hfirst.trans (ih _ _)

/-- The row of the event is there after a transaction that returned. -/
theorem write_stored {writer : AuditWriter} {files : AuditFiles} {call : WriteCall}
    {committedHash : Option String} (io : Io)
    (h : (writer.transaction host secret anchored files call).1 = .ok committedHash) :
    ∃ row ∈ (writer.write host secret anchored files call io).2.2.table,
      row.eventId = some call.eventId ∧ row.columns = call.content.columns := by
  rcases write_cases host secret anchored writer files call io with
    ⟨error, htransaction, -⟩ | ⟨committedHash, table, -, transacted, hwrite⟩
  · rw [htransaction] at h
    cases h
  · rw [hwrite, replaceAnchor_table]
    exact transacted.stored

theorem replaceAnchor_done (writer : AuditWriter) (hash : Option String) (files : AuditFiles) :
    (writer.replaceAnchor anchored hash .done files).1 = .ok () := by
  simp only [replaceAnchor, writeAnchoredHash]
  cases anchored <;> cases hgiven : given hash <;> simp <;> split <;> rfl

theorem write_done {writer : AuditWriter} {files : AuditFiles} {call : WriteCall}
    {committedHash : Option String}
    (h : (writer.transaction host secret anchored files call).1 = .ok committedHash) :
    (writer.write host secret anchored files call .done).1 = .ok () := by
  rcases write_cases host secret anchored writer files call .done with
    ⟨error, htransaction, -⟩ | ⟨committedHash, table, -, -, hwrite⟩
  · rw [htransaction] at h
    cases h
  · rw [hwrite, replaceAnchor_done]

/-- A transaction on files that agree returns, for a new event and for a stored one. -/
theorem transaction_verified {writer : AuditWriter} {files : AuditFiles} {lastHash : String}
    (verified : Verified host secret anchored files lastHash) {call : WriteCall}
    (commits : call.commit = none)
    (same : ∀ row, files.table.find call.eventId = some row →
      row.columns = call.content.columns) :
    ∃ committedHash,
      (writer.transaction host secret anchored files call).1 = .ok committedHash := by
  have hverify : verifyAnchoredHash anchored files.anchor lastHash false = .ok false :=
    verifyAnchoredHash_false.mpr verified.anchor
  cases hfind : files.table.find call.eventId with
  | none =>
      simp [transaction, transactionBody, bind, Except.bind, verified.recovered, hverify, hfind,
        commits]
  | some row =>
      by_cases hlast : row.eventHash = some lastHash
      · by_cases hpending : writer.pendingAnchorRepairHash = some lastHash
        · simp [transaction, transactionBody, bind, Except.bind, verified.recovered, hfind,
            same row hfind, hlast, hpending, commits]
        · simp [transaction, transactionBody, bind, Except.bind, verified.recovered, hverify,
            hfind, same row hfind, hlast, hpending, commits]
      · simp [transaction, transactionBody, bind, Except.bind, verified.recovered, hverify,
          hfind, same row hfind, hlast, commits]

/-- The event of the last row can be written again, whatever the anchor is. -/
theorem transaction_last {writer : AuditWriter} {files : AuditFiles}
    (sound : writer.Sound host secret anchored files) {call : WriteCall}
    (commits : call.commit = none) {rows : AuditTable} {row : AuditEventRow}
    (htable : files.table = rows ++ [row]) (hid : row.eventId = some call.eventId)
    (same : row.columns = call.content.columns) :
    ∃ committedHash,
      (writer.transaction host secret anchored files call).1 = .ok committedHash := by
  obtain ⟨⟨lastHash, hrecovered, hanchor⟩, unique⟩ := sound
  have hfind : files.table.find call.eventId = some row :=
    AuditTable.find_of_mem unique (by simp [htable]) hid
  by_cases hpending : writer.pendingAnchorRepairHash = some lastHash
  · have hlast : row.eventHash = some lastHash := by
      rw [htable] at hrecovered
      obtain ⟨last, -, hlinks, rfl⟩ := recoverFrom_concat.mp hrecovered
      exact hlinks.hash
    simp [transaction, transactionBody, bind, Except.bind, hrecovered, hfind, same, hlast,
      hpending, commits]
  · refine transaction_verified ⟨hrecovered, fun h => (hanchor h).resolve_right hpending⟩ commits ?_
    rintro other hother
    cases hfind.symm.trans hother
    exact same

/-- After a write that returns, the anchor holds the last hash. It is still missing only
when that hash is the one an empty chain begins with. -/
theorem write_anchors (hhost : host.Lawful) {writer writer' : AuditWriter}
    {files files' : AuditFiles} {call : WriteCall} {io : Io}
    (h : writer.write host secret true files call io = (.ok (), writer', files')) :
    ∃ lastHash, recoverLastHash host secret files'.table = .ok lastHash ∧
      (files'.anchor = some lastHash ∨ files'.anchor = none ∧ lastHash = zeroHash) := by
  rcases write_cases host secret true writer files call io with
    ⟨error, -, hwrite⟩ | ⟨committedHash, table, -, transacted, hwrite⟩
  · rw [hwrite] at h
    cases h
  · rw [hwrite] at h
    cases committedHash with
    | none =>
        rw [replaceAnchor_none] at h
        cases h
        generalize hresult : Except.ok none = result at transacted
        cases transacted with
        | refused _ | repair _ _ _ _ _ | insert _ _ _ => cases hresult
        | @present lastHash _ verified _ _ =>
            refine ⟨lastHash, verified.recovered, ?_⟩
            have hanchor := verified.anchor rfl
            cases hfile : files.anchor with
            | none =>
                rw [AuditFiles.anchoredHash, hfile] at hanchor
                exact .inr ⟨rfl, hanchor.symm⟩
            | some hash =>
                rw [AuditFiles.anchoredHash, hfile, Option.getD_some] at hanchor
                exact .inl (congrArg some hanchor)
    | some hash =>
        have hrecovered := transacted.committed hhost
        have htable : files'.table = table := by
          have := replaceAnchor_table true writer (some hash) io { files with table }
          rw [h] at this
          exact this
        rw [htable]
        exact ⟨hash, hrecovered, .inl (replaceAnchor_ok (given_recovered hhost hrecovered) h)⟩

/-- A stored event id refuses another content. -/
theorem write_different {writer : AuditWriter} {files : AuditFiles} {call : WriteCall} (io : Io)
    {existing : AuditEventRow} (hfind : files.table.find call.eventId = some existing)
    (different : existing.columns ≠ call.content.columns) :
    ∃ error, writer.write host secret anchored files call io = (.error error, writer, files) := by
  rcases write_cases host secret anchored writer files call io with
    ⟨error, -, hwrite⟩ | ⟨committedHash, table, -, transacted, -⟩
  · exact ⟨error, hwrite⟩
  · obtain ⟨row, hrow⟩ : ∃ row, files.table.find call.eventId = some row ∧
        row.columns = call.content.columns := by
      generalize hresult : Except.ok committedHash = result at transacted
      cases transacted with
      | refused _ => cases hresult
      | present _ found same | repair _ found same _ _ => exact ⟨_, found, same⟩
      | insert _ fresh _ => exact absurd (hfind.symm.trans fresh) (by simp)
    cases hfind.symm.trans hrow.1
    exact absurd hrow.2 different

theorem content_columns_event {call call' : WriteCall} (h : call'.event = call.event) :
    call'.content.columns = call.content.columns := by
  simp only [WriteCall.content, AuditContent.columns, WriteCall.redactedEvent, h]

/-- An event that has an id of its own and got past its transaction can be written again
at any later time, as long as its row is the last one. -/
theorem write_again (hhost : host.Lawful) {writer : AuditWriter} {files : AuditFiles}
    (sound : writer.Sound host secret anchored files) {call : WriteCall} (io : Io)
    {committedHash : Option String}
    (committed : (writer.transaction host secret anchored files call).1 = .ok committedHash)
    (later : List (WriteCall × Io)) {again : WriteCall} (same : again.event = call.event)
    (id : call.event.eventId.isSome = true) (commits : again.commit = none) :
    let now := run host secret anchored
      (writer.write host secret anchored files call io).2.1
      (writer.write host secret anchored files call io).2.2 later
    now.2.table.EndsWith call.eventId →
      (now.1.write host secret anchored now.2 again .done).1 = .ok () := by
  intro now hlast
  have hnow : now.1.Sound host secret anchored now.2 :=
    run_sound hhost (write_sound hhost sound call io) later
  obtain ⟨stored, hstored, hid, hcolumns⟩ := write_stored io committed
  have hmem : stored ∈ now.2.table := (run_grows host secret anchored _ _ later).subset hstored
  obtain ⟨rows, row, htable, hrow⟩ := hlast
  have hsame : row = stored := by
    have hrowMem : row ∈ now.2.table := by simp [htable]
    exact List.inj_on_of_nodup_map hnow.unique hrowMem hmem (hrow.trans hid.symm)
  have hagain : again.eventId = call.eventId := by
    obtain ⟨eventId, heq⟩ := Option.isSome_iff_exists.mp id
    rw [WriteCall.eventId, WriteCall.eventId, same, heq, Option.getD_some, Option.getD_some]
  obtain ⟨hash, htransaction⟩ := transaction_last hnow commits htable
    (hrow.trans (by rw [hagain]))
    (by rw [hsame, hcolumns, content_columns_event same])
  exact write_done htransaction

end AuditWriter

/-- What every sequence of writes by one writer keeps, and what each further write does. -/
theorem write_run (hhost : host.Lawful) {environment : Environment} {repairHashAnchor : Bool}
    {io₀ : Io} {writer₀ : AuditWriter} {files files₀ : AuditFiles}
    (unique : files.table.UniqueIds)
    (constructed : AuditWriter.construct host secret anchored environment repairHashAnchor io₀
      files = (.ok writer₀, files₀))
    (writes : List (WriteCall × Io)) :
    let reached := AuditWriter.run host secret anchored writer₀ files₀ writes
    (∃ lastHash, recoverLastHash host secret reached.2.table = .ok lastHash) ∧
    reached.2.table.UniqueIds ∧
    ∀ (call : WriteCall) (io : Io) (result : Except Thrown Unit) (writer' : AuditWriter)
      (files' : AuditFiles),
      reached.1.write host secret anchored reached.2 call io = (result, writer', files') →
      (files'.table = reached.2.table ∨ ∃ row, files'.table = reached.2.table ++ [row]) ∧
      (result = .ok () →
        (∃ row ∈ files'.table, row.eventId = some call.eventId ∧
          row.columns = call.content.columns) ∧
        (anchored = true →
          ∃ lastHash, recoverLastHash host secret files'.table = .ok lastHash ∧
            (files'.anchor = some lastHash ∨
              files'.anchor = none ∧ lastHash = zeroHash))) ∧
      ((∃ existing, reached.2.table.find call.eventId = some existing ∧
          existing.columns ≠ call.content.columns) →
        (∃ error, result = .error error) ∧ files' = reached.2) ∧
      ((∃ hash, (reached.1.transaction host secret anchored reached.2 call).1 = .ok hash) →
        call.event.eventId.isSome = true → ∀ (later : List (WriteCall × Io)) (again : WriteCall),
          again.event = call.event → again.commit = none →
          let now := AuditWriter.run host secret anchored writer' files' later
          now.2.table.EndsWith call.eventId →
            (now.1.write host secret anchored now.2 again .done).1 = .ok ()) := by
  intro reached
  obtain ⟨unique₀, lastHash₀, verified⟩ := AuditWriter.construct_verified hhost unique constructed
  have sound : reached.1.Sound host secret anchored reached.2 :=
    AuditWriter.run_sound hhost (AuditWriter.sound_of_verified unique₀ verified) writes
  obtain ⟨lastHash, hrecovered, -⟩ := sound.accepted
  refine ⟨⟨lastHash, hrecovered⟩, sound.unique, ?_⟩
  intro call io result writer' files' h
  refine ⟨?_, ?_, ?_, ?_⟩
  · have := AuditWriter.write_grows host secret anchored reached.1 reached.2 call io
    rw [h] at this
    exact this
  · rintro rfl
    refine ⟨?_, ?_⟩
    · rcases AuditWriter.write_cases host secret anchored reached.1 reached.2 call io with
        ⟨error, -, hwrite⟩ | ⟨committedHash, table, htransaction, -, -⟩
      · cases hwrite.symm.trans h
      · have := AuditWriter.write_stored io (congrArg Prod.fst htransaction)
        rw [h] at this
        exact this
    · rintro rfl
      exact AuditWriter.write_anchors hhost h
  · rintro ⟨existing, hfind, different⟩
    obtain ⟨error, hwrite⟩ := AuditWriter.write_different io hfind different
    cases hwrite.symm.trans h
    exact ⟨⟨error, rfl⟩, rfl⟩
  · rintro ⟨hash, committed⟩ id later again same commits now hlast
    have := AuditWriter.write_again hhost sound io committed later same id commits
    simp only [h] at this
    exact this hlast

def sampleCall : WriteCall where
  event := {
    eventId := some "a", eventType := .brokerExecuted, environment := .dev
    correlationId := "c", data := [] }
  randomId := "r"
  timestamp := "t"

theorem write_run_repair :
    let host := plainHost (fun _ => ones) fun _ _ => ones
    let failed := AuditWriter.write host "secret" true {} ⟨[], none⟩ sampleCall
      (.failBefore (.ofMessage "disk full"))
    (failed.2.1.write host "secret" true failed.2.2 sampleCall .done).1 = .ok () := by
  intro host failed
  have hhost : host.Lawful := plainHost_lawful (fun _ => by decide) fun _ _ => by decide
  have constructed : AuditWriter.construct host "secret" true .dev false .done ⟨[], none⟩ =
      (.ok {}, ⟨[], none⟩) := rfl
  have unique : (AuditFiles.mk [] none).table.UniqueIds := List.nodup_nil
  obtain ⟨-, -, step⟩ := write_run hhost unique constructed []
  obtain ⟨-, -, -, again⟩ := step sampleCall (.failBefore (.ofMessage "disk full")) failed.1
    failed.2.1 failed.2.2 rfl
  exact again ⟨_, rfl⟩ rfl [] sampleCall rfl rfl ⟨[], _, rfl, rfl⟩

end TradingGuardrails
