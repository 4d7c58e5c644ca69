import Mathlib.Data.List.Induction
import TradingGuardrails.Host

/-!
The hash chain of the audit table. Every row carries the hash of the row before it and a
hash of its own, over both that hash and its content. `recoverLastHash` walks the table
and gives the hash of its last row; the anchor file keeps that hash outside the table.
The hash of an accepted table determines all of its rows.
-/
namespace TradingGuardrails

open Text

/-- The columns of a row that its hash covers. A column holds a text or null. -/
structure AuditContent where
  eventId : Option String
  eventType : Option String
  timestamp : Option String
  correlationId : Option String
  environment : Option String
  intentId : Option String
  principal : Option String
  promptId : Option String
  sessionId : Option String
  inputRef : Option String
  data : Option String
  deriving DecidableEq

structure AuditEventRow extends AuditContent where
  previousHash : Option String
  eventHash : Option String
  deriving DecidableEq

abbrev AuditTable := List AuditEventRow

def zeroHash : String := String.ofList (List.replicate 64 '0')

namespace AuditContent

def columnJson : Option String → Json
  | none => .null
  | some s => .str s

def json (c : AuditContent) : Json :=
  .obj [
    ("eventId", columnJson c.eventId),
    ("eventType", columnJson c.eventType),
    ("timestamp", columnJson c.timestamp),
    ("correlationId", columnJson c.correlationId),
    ("environment", columnJson c.environment),
    ("intentId", columnJson c.intentId),
    ("principal", columnJson c.principal),
    ("promptId", columnJson c.promptId),
    ("sessionId", columnJson c.sessionId),
    ("inputRef", columnJson c.inputRef),
    ("data", columnJson c.data)]

theorem columnJson_inj {a b : Option String} (h : (columnJson a).Equiv (columnJson b)) :
    a = b := by
  cases a <;> cases b <;> simp_all [columnJson, Json.Equiv]

def keys : List String := ["eventId", "eventType", "timestamp", "correlationId", "environment",
  "intentId", "principal", "promptId", "sessionId", "inputRef", "data"]

theorem json_inj {c d : AuditContent} (h : stringify c.json = stringify d.json) : c = d := by
  have honce : d.json.keys.Nodup := show keys.Nodup by decide
  have hcolumn : ∀ key {a b : Option String}, c.json.field? key = some (columnJson a) →
      d.json.field? key = some (columnJson b) → a = b := by
    intro key a b ha hb
    obtain ⟨y, hy, hay⟩ := Json.equiv_field (equiv_of_stringify h) honce ha
    rw [hb, Option.some.injEq] at hy
    exact columnJson_inj (hy ▸ hay)
  cases c
  cases d
  simp only [AuditContent.mk.injEq]
  exact ⟨hcolumn "eventId" rfl rfl, hcolumn "eventType" rfl rfl, hcolumn "timestamp" rfl rfl,
    hcolumn "correlationId" rfl rfl, hcolumn "environment" rfl rfl, hcolumn "intentId" rfl rfl,
    hcolumn "principal" rfl rfl, hcolumn "promptId" rfl rfl, hcolumn "sessionId" rfl rfl,
    hcolumn "inputRef" rfl rfl, hcolumn "data" rfl rfl⟩

end AuditContent

variable (host : Host) (secret : String)

/-- The text that the hash of a row is computed over. A row without a previous hash is
refused before its hash is asked for. -/
def AuditEventRow.message (row : AuditEventRow) : String :=
  row.previousHash.getD "" ++ stringify row.toAuditContent.json

def computeEventHash (row : AuditEventRow) : String :=
  host.hmacSha256 secret row.message

def chainBroken : Thrown := .ofMessage "Audit hash chain is broken."
def hashMissing : Thrown := .ofMessage "Audit event hash is missing."
def hashMismatch : Thrown := .ofMessage "Audit event hash mismatch."

def recoverFrom (previousHash : String) : AuditTable → Except Thrown String
  | [] => .ok previousHash
  | row :: rows =>
      if row.previousHash ≠ some previousHash then .error chainBroken
      else if row.eventHash = none ∨ row.eventHash = some "" then .error hashMissing
      else
        let eventHash := computeEventHash host secret row
        if row.eventHash ≠ some eventHash then .error hashMismatch
        else recoverFrom eventHash rows

def recoverLastHash (table : AuditTable) : Except Thrown String :=
  recoverFrom host secret zeroHash table

def anchorMissing : Thrown :=
  .ofMessage "Audit hash anchor is missing for a non-empty hash chain."
def anchorMismatch : Thrown :=
  .ofMessage "Audit hash anchor does not match the recovered hash chain."

/-- `verifyAnchoredHash`, where the anchor file holds a text, white space aside, or does
not exist. The answer tells whether the anchor is to be replaced by the last hash. -/
def verifyAnchoredHash (anchored : Bool) (anchor : Option String) (lastHash : String)
    (repair : Bool) : Except Thrown Bool :=
  if !anchored then .ok false
  else match anchor with
    | none =>
        if lastHash = zeroHash then .ok false
        else if repair then .ok true
        else .error anchorMissing
    | some anchoredHash =>
        if anchoredHash = lastHash then .ok false
        else if repair then .ok true
        else .error anchorMismatch

variable {host secret}

structure Links (host : Host) (secret previousHash : String) (row : AuditEventRow) : Prop where
  previous : row.previousHash = some previousHash
  hash : row.eventHash = some (computeEventHash host secret row)
  present : computeEventHash host secret row ≠ ""

theorem recoverFrom_cons {previousHash hash : String} {row : AuditEventRow} {rows : AuditTable} :
    recoverFrom host secret previousHash (row :: rows) = .ok hash ↔
      Links host secret previousHash row ∧
        recoverFrom host secret (computeEventHash host secret row) rows = .ok hash := by
  simp only [recoverFrom]
  constructor
  · intro h
    split_ifs at h with hprevious hmissing hhash
    rw [ne_eq, not_not] at hprevious hhash
    refine ⟨⟨hprevious, hhash, fun hempty => ?_⟩, h⟩
    exact hmissing (.inr (hhash.trans (congrArg some hempty)))
  · rintro ⟨⟨hprevious, hhash, hpresent⟩, h⟩
    rw [if_neg (not_not.mpr hprevious), if_neg, if_neg (not_not.mpr hhash), h]
    rw [hhash]
    simpa using hpresent

/-- A table is accepted when its rows before the last one are and the last one links. -/
theorem recoverFrom_concat {previousHash hash : String} {row : AuditEventRow}
    {rows : AuditTable} :
    recoverFrom host secret previousHash (rows ++ [row]) = .ok hash ↔
      ∃ last, recoverFrom host secret previousHash rows = .ok last ∧
        Links host secret last row ∧ hash = computeEventHash host secret row := by
  induction rows generalizing previousHash with
  | nil =>
      rw [List.nil_append, recoverFrom_cons]
      constructor
      · rintro ⟨hlinks, h⟩
        cases h
        exact ⟨previousHash, rfl, hlinks, rfl⟩
      · rintro ⟨last, hlast, hlinks, rfl⟩
        cases hlast
        exact ⟨hlinks, rfl⟩
  | cons first rows ih =>
      simp only [List.cons_append, recoverFrom_cons, ih]
      constructor
      · rintro ⟨hfirst, last, hlast, hlinks, h⟩
        exact ⟨last, ⟨hfirst, hlast⟩, hlinks, h⟩
      · rintro ⟨last, ⟨hfirst, hlast⟩, hlinks, h⟩
        exact ⟨hfirst, last, hlast, hlinks, h⟩

theorem length_zeroHash : zeroHash.toList.length = 64 := by decide

theorem length_of_hex {s : String} (h : isHexDigest s = true) : s.toList.length = 64 := by
  simp only [isHexDigest, Bool.and_eq_true, beq_iff_eq] at h
  exact h.1

/-- The hash of an accepted table is as long as the hash that a chain begins with. -/
theorem recoverLastHash_length (hhost : host.Lawful) {table : AuditTable} {hash : String}
    (h : recoverLastHash host secret table = .ok hash) : hash.toList.length = 64 := by
  rcases List.eq_nil_or_concat table with rfl | ⟨rows, row, rfl⟩
  · cases h
    exact length_zeroHash
  · rw [List.concat_eq_append, recoverLastHash, recoverFrom_concat] at h
    obtain ⟨last, -, -, rfl⟩ := h
    exact length_of_hex (hhost.hmacSha256_hex _ _)

/-- A hash and the content after it can be read apart. -/
theorem message_inj {row row' : AuditEventRow} {previousHash previousHash' : String}
    (hprevious : row.previousHash = some previousHash)
    (hprevious' : row'.previousHash = some previousHash')
    (hlength : previousHash.toList.length = previousHash'.toList.length)
    (h : row.message = row'.message) :
    previousHash = previousHash' ∧ row.toAuditContent = row'.toAuditContent := by
  have htexts := congrArg String.toList h
  simp only [AuditEventRow.message, hprevious, hprevious', Option.getD_some,
    String.toList_append] at htexts
  obtain ⟨hhash, hcontent⟩ := List.append_inj htexts hlength
  exact ⟨String.toList_inj.mp hhash, AuditContent.json_inj (String.toList_inj.mp hcontent)⟩

def chainMessages (table : AuditTable) : List String :=
  table.map AuditEventRow.message

theorem mem_chainMessages_concat {rows : AuditTable} {row : AuditEventRow} {m : String}
    (h : m ∈ chainMessages rows) : m ∈ chainMessages (rows ++ [row]) := by
  rw [chainMessages, List.map_append]
  exact List.mem_append_left _ h

theorem message_mem_chainMessages (rows : AuditTable) (row : AuditEventRow) :
    row.message ∈ chainMessages (rows ++ [row]) :=
  List.mem_map_of_mem (List.mem_append_right _ List.mem_cons_self)

/-- Accepted tables with the same last hash are the same. The induction removes the last
row of both. -/
theorem table_eq_of_hash (hhost : host.Lawful) {table table' : AuditTable} {hash : String}
    (injective : Set.InjOn (host.hmacSha256 secret)
      {m | m ∈ chainMessages table ∨ m ∈ chainMessages table'})
    (nonzero : ∀ m, m ∈ chainMessages table ∨ m ∈ chainMessages table' →
      host.hmacSha256 secret m ≠ zeroHash)
    (h : recoverLastHash host secret table = .ok hash)
    (h' : recoverLastHash host secret table' = .ok hash) : table = table' := by
  induction table using List.reverseRecOn generalizing table' hash with
  | nil =>
      cases h
      rcases List.eq_nil_or_concat table' with rfl | ⟨rows, row, rfl⟩
      · rfl
      · rw [List.concat_eq_append] at nonzero h'
        obtain ⟨-, -, -, hzero⟩ := recoverFrom_concat.mp h'
        exact absurd hzero.symm (nonzero _ (.inr (message_mem_chainMessages rows row)))
  | append_singleton rows row ih =>
      obtain ⟨last, hlast, hlinks, hhash⟩ := recoverFrom_concat.mp h
      rcases List.eq_nil_or_concat table' with rfl | ⟨rows', row', rfl⟩
      · cases h'
        exact absurd hhash.symm (nonzero _ (.inl (message_mem_chainMessages rows row)))
      · rw [List.concat_eq_append] at injective nonzero h' ⊢
        obtain ⟨last', hlast', hlinks', hhash'⟩ := recoverFrom_concat.mp h'
        have hmessage : row.message = row'.message :=
          injective (.inl (message_mem_chainMessages rows row))
            (.inr (message_mem_chainMessages rows' row')) (hhash.symm.trans hhash')
        have hlength := (recoverLastHash_length hhost hlast).trans
          (recoverLastHash_length hhost hlast').symm
        obtain ⟨rfl, hcontent⟩ := message_inj hlinks.previous hlinks'.previous hlength hmessage
        have hrows : rows = rows' := by
          have hmem : ∀ m, m ∈ chainMessages rows ∨ m ∈ chainMessages rows' →
              m ∈ chainMessages (rows ++ [row]) ∨ m ∈ chainMessages (rows' ++ [row']) :=
            fun m hm => hm.imp mem_chainMessages_concat mem_chainMessages_concat
          exact ih (injective.mono hmem) (fun m hm => nonzero m (hmem m hm)) hlast hlast'
        have heventHash : row.eventHash = row'.eventHash := by
          rw [hlinks.hash, hlinks'.hash, ← hhash, ← hhash']
        have hrow : row = row' := by
          have hprevious := hlinks.previous.trans hlinks'.previous.symm
          cases row
          cases row'
          simp only [AuditEventRow.mk.injEq]
          exact ⟨hcontent, hprevious, heventHash⟩
        rw [hrows, hrow]

/-- The hash of an accepted table, kept in the anchor, gives away every change. -/
theorem chain_tamper_evident (hhost : host.Lawful) {table table' : AuditTable}
    (injective : Set.InjOn (host.hmacSha256 secret)
      {m | m ∈ chainMessages table ∨ m ∈ chainMessages table'})
    (nonzero : ∀ m, m ∈ chainMessages table ∨ m ∈ chainMessages table' →
      host.hmacSha256 secret m ≠ zeroHash) :
    (∀ hash, recoverLastHash host secret table = .ok hash →
      recoverLastHash host secret table' = .ok hash → table = table') ∧
    ∀ hash, recoverLastHash host secret table = .ok hash → table' ≠ table →
      (∃ e, recoverLastHash host secret table' = .error e) ∨
      ∃ hash' e, recoverLastHash host secret table' = .ok hash' ∧
        verifyAnchoredHash true (some hash) hash' false = .error e := by
  refine ⟨fun hash h h' => table_eq_of_hash hhost injective nonzero h h', ?_⟩
  intro hash h hne
  cases h' : recoverLastHash host secret table' with
  | error e => exact .inl ⟨e, rfl⟩
  | ok hash' =>
      refine .inr ⟨hash', anchorMismatch, rfl, ?_⟩
      have hdiffer : hash ≠ hash' := by
        rintro rfl
        exact hne (table_eq_of_hash hhost injective nonzero h h').symm
      simp [verifyAnchoredHash, hdiffer]

def ones : String := String.ofList (List.replicate 64 '1')

/-- A digest of the bytes in which the sample messages differ: the end of a previous hash and
the id of an event. -/
def sampleDigest (text : String) : String :=
  let bytes := text.toByteArray.data.toList
  let n := [60, 61, 62, 63, 76].foldl (fun n i => (31 * n + (bytes.getD i 0).toNat) % 65536) 7
  String.ofList (List.replicate 60 '1' ++
    [1, 16, 256, 4096].map fun place => Nat.digitChar (n / place % 16))

theorem sampleDigest_hex (text : String) : isHexDigest (sampleDigest text) = true := by
  have hdigit : ∀ k < 16, hexDigitLower (Nat.digitChar k) = true := by decide
  rw [sampleDigest, isHexDigest, String.toList_ofList, List.length_append, List.length_map,
    List.length_replicate, List.all_append, Bool.and_eq_true, Bool.and_eq_true,
    List.all_eq_true, List.all_eq_true]
  refine ⟨rfl, fun c hc => ?_, fun c hc => ?_⟩
  · rw [List.eq_of_mem_replicate hc]
    decide
  · obtain ⟨i, -, rfl⟩ := List.mem_map.mp hc
    exact hdigit _ (Nat.mod_lt _ (by decide))

def sampleHost : Host := plainHost sampleDigest fun _ => sampleDigest

def sealedRow (previousHash eventId : String) : AuditEventRow :=
  let row : AuditEventRow := {
    eventId := some eventId
    eventType := some "intent.received"
    timestamp := some "t"
    correlationId := some "c"
    environment := some "dev"
    intentId := none
    principal := none
    promptId := none
    sessionId := none
    inputRef := none
    data := some "{}"
    previousHash := some previousHash
    eventHash := none }
  { row with eventHash := some (computeEventHash sampleHost "secret" row) }

def sealedTable (eventId : String) : AuditTable :=
  let first := sealedRow zeroHash eventId
  [first, sealedRow (first.eventHash.getD "") "b"]

theorem recover_sealedRow (previousHash eventId : String) (rows : AuditTable) :
    recoverFrom sampleHost "secret" previousHash (sealedRow previousHash eventId :: rows) =
      recoverFrom sampleHost "secret" ((sealedRow previousHash eventId).eventHash.getD "") rows := by
  have hdigest : ∀ text, sampleDigest text ≠ "" := by
    intro text hempty
    have hhex := sampleDigest_hex text
    rw [hempty] at hhex
    exact absurd hhex (by decide)
  have hmissing : ¬((sealedRow previousHash eventId).eventHash = none ∨
      (sealedRow previousHash eventId).eventHash = some "") := by
    rw [not_or]
    exact ⟨Option.some_ne_none _, fun h => hdigest _ (Option.some.inj h)⟩
  have hprevious : (sealedRow previousHash eventId).previousHash = some previousHash := rfl
  rw [recoverFrom, if_neg (not_not.mpr hprevious), if_neg hmissing]
  exact if_neg (not_not.mpr rfl)

theorem recover_sealedTable (eventId : String) :
    ∃ hash, recoverLastHash sampleHost "secret" (sealedTable eventId) = .ok hash := by
  rw [recoverLastHash, sealedTable, recover_sealedRow, recover_sealedRow]
  exact ⟨_, rfl⟩

def sealedMessages : List String :=
  chainMessages (sealedTable "a") ++ chainMessages (sealedTable "c")

theorem sealedMessages_separated : (zeroHash :: sealedMessages.map sampleDigest).Nodup := by
  decide +kernel

theorem sealed_ne : sealedTable "c" ≠ sealedTable "a" ∧
    (sealedTable "a").reverse ≠ sealedTable "a" ∧ (sealedTable "a").take 1 ≠ sealedTable "a" := by
  decide +kernel

/-- The first row is edited and the chain is sealed again, or the rows change places, or the
last of them is removed. -/
theorem chain_tamper_evident_edited : ∃ hash,
    recoverLastHash sampleHost "secret" (sealedTable "a") = .ok hash ∧
      ∀ table' ∈ [sealedTable "c", (sealedTable "a").reverse, (sealedTable "a").take 1],
        (∃ e, recoverLastHash sampleHost "secret" table' = .error e) ∨
        ∃ hash' e, recoverLastHash sampleHost "secret" table' = .ok hash' ∧
          verifyAnchoredHash true (some hash) hash' false = .error e := by
  obtain ⟨hash, haccepted⟩ := recover_sealedTable "a"
  have hhost : sampleHost.Lawful := plainHost_lawful sampleDigest_hex fun _ => sampleDigest_hex
  obtain ⟨hnonzero, hnodup⟩ := List.nodup_cons.mp sealedMessages_separated
  have htampered : ∀ table', (∀ row ∈ table', row ∈ sealedTable "a" ∨ row ∈ sealedTable "c") →
      table' ≠ sealedTable "a" →
      (∃ e, recoverLastHash sampleHost "secret" table' = .error e) ∨
        ∃ hash' e, recoverLastHash sampleHost "secret" table' = .ok hash' ∧
          verifyAnchoredHash true (some hash) hash' false = .error e := by
    intro table' hrows hne
    have hknown : ∀ m, m ∈ chainMessages (sealedTable "a") ∨ m ∈ chainMessages table' →
        m ∈ sealedMessages := by
      rintro m (hm | hm)
      · exact List.mem_append_left _ hm
      · obtain ⟨row, hrow, rfl⟩ := List.mem_map.mp hm
        exact List.mem_append.mpr ((hrows row hrow).imp (List.mem_map_of_mem) (List.mem_map_of_mem))
    refine (chain_tamper_evident hhost ?_ ?_).2 hash haccepted hne
    · intro m hm m' hm' h
      exact List.inj_on_of_nodup_map hnodup (hknown m hm) (hknown m' hm') h
    · rintro m hm hzero
      exact hnonzero (hzero ▸ List.mem_map_of_mem (hknown m hm))
  obtain ⟨hedited, hreversed, hshorter⟩ := sealed_ne
  refine ⟨hash, haccepted, ?_⟩
  rw [List.forall_mem_cons, List.forall_mem_cons, List.forall_mem_singleton]
  refine ⟨htampered _ (fun _ hrow => .inr hrow) hedited,
    htampered _ (fun _ hrow => .inl (List.mem_reverse.mp hrow)) hreversed,
    htampered _ (fun _ hrow => .inl (List.mem_of_mem_take hrow)) hshorter⟩

end TradingGuardrails
