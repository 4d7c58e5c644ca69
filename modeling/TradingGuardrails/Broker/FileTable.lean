import TradingGuardrails.Broker.IdempotencyStore

/-!
The file of the idempotency store as a table. What is read back from a file that the
store wrote is what was written, and an access to the locked file either leaves it or
replaces what it read.
-/
namespace TradingGuardrails

open Text

variable {host : Host}

namespace FileState

theorem lookup_put_self (state : FileState) (key : String) (entry : FileEntry) :
    (state.put key entry).lookup key = some entry :=
  Json.lookup_putMember_self state key entry

theorem lookup_put_of_ne (state : FileState) {key other : String} (entry : FileEntry)
    (h : other ≠ key) : (state.put key entry).lookup other = state.lookup other :=
  Json.lookup_putMember_of_ne state entry h

theorem lookup_remove_of_ne (state : FileState) {key other : String} (h : other ≠ key) :
    (state.remove key).lookup other = state.lookup other := by
  unfold remove
  induction state with
  | nil => rfl
  | cons f state ih =>
      by_cases hf : f.1 = key
      · rw [List.filter_cons_of_neg (by simpa using hf), List.lookup_cons, hf,
          beq_false_of_ne h]
        exact ih
      · rw [List.filter_cons_of_pos (by simpa using hf), List.lookup_cons, List.lookup_cons]
        cases other == f.1
        · exact ih
        · rfl

theorem lookup_remove_self (state : FileState) (key : String) :
    (state.remove key).lookup key = none := by
  rw [List.lookup_eq_none_iff]
  intro f hf
  simp only [remove, List.mem_filter, bne_iff_ne] at hf
  simpa using Ne.symm hf.2

end FileState

theorem validatePendingAudit_eq {key : String} {result : Json} {value pendingAudit : Option Json}
    {hash : Option String} (h : validatePendingAudit host key result value hash = .ok pendingAudit) :
    pendingAudit = value := by
  unfold validatePendingAudit at h
  split at h
  · cases h
    rfl
  · split_ifs at h <;> cases h <;> rfl

theorem parseFileEntry_inProgress (key payloadHash : String) :
    parseFileEntry host key (FileState.encodeEntry (.inProgress payloadHash)) =
      if isHexDigest payloadHash then .ok (.inProgress payloadHash)
      else .error (entryError key "payloadHash is invalid.") := by
  cases h : isHexDigest payloadHash <;>
    simp [parseFileEntry, FileState.encodeEntry, isPlainObject, Json.record, Json.field?,
      textValue?, List.lookup_cons, h]

theorem parseFileEntry_cached (key payloadHash : String) (result : Json)
    (pendingAudit : Option Json) (pendingAuditHash : Option String) :
    parseFileEntry host key
        (FileState.encodeEntry (.cached payloadHash result pendingAudit pendingAuditHash)) =
      if !isHexDigest payloadHash then .error (entryError key "payloadHash is invalid.")
      else if !BrokerSchema.brokerExecutionResult host result then
        .error (entryError key "cached result is invalid.")
      else (validatePendingAudit host key result pendingAudit pendingAuditHash).map
        fun _ => .cached payloadHash result pendingAudit pendingAuditHash := by
  have htext : textValue? (some (.str payloadHash)) = some payloadHash := rfl
  have hhash : textValue? (pendingAuditHash.map Json.str) = pendingAuditHash := by
    cases pendingAuditHash <;> rfl
  have hplain : (!isPlainObject (FileState.encodeEntry
    (.cached payloadHash result pendingAudit pendingAuditHash))) = false := rfl
  rw [parseFileEntry, hplain]
  simp only [FileState.encodeEntry, Json.field?_record_cons,
    Json.field?_record_nil, Option.some_or, Option.or_none, String.reduceEq, if_true, if_false,
    Option.some.injEq, Json.str.injEq, ne_eq, not_true, false_and, Bool.false_eq_true,
    htext, hhash]
  split_ifs
  · rfl
  · rfl
  · cases haudit : validatePendingAudit host key result pendingAudit pendingAuditHash with
    | error e => rfl
    | ok value =>
        rw [validatePendingAudit_eq haudit]
        rfl

theorem parseFileEntry_encode {key : String} {entry entry' : FileEntry}
    (h : parseFileEntry host key (FileState.encodeEntry entry) = .ok entry') : entry' = entry := by
  cases entry with
  | inProgress payloadHash =>
      rw [parseFileEntry_inProgress] at h
      split_ifs at h
      cases h
      rfl
  | cached payloadHash result pendingAudit pendingAuditHash =>
      rw [parseFileEntry_cached] at h
      split_ifs at h
      cases haudit : validatePendingAudit host key result pendingAudit pendingAuditHash with
      | error e =>
          rw [haudit] at h
          cases h
      | ok value =>
          rw [haudit] at h
          cases h
          rfl

theorem parseFileState_encode {state state' : FileState}
    (h : parseFileState host state.encode = .ok state') : state' = state := by
  have hentries : ∀ {state state' : FileState}, parseFileEntries host
      (state.map fun f => (f.1, FileState.encodeEntry f.2)) = .ok state' → state' = state := by
    intro state
    induction state with
    | nil =>
        intro state' h
        cases h
        rfl
    | cons f state ih =>
        intro state' h
        simp only [List.map_cons, parseFileEntries] at h
        split at h
        · cases h
        · rename_i entry hentry
          split at h
          · cases h
          · rename_i rest hrest
            cases h
            rw [parseFileEntry_encode hentry, ih hrest]
  exact hentries h

/-- What a file that the store wrote is read as. -/
theorem readState_encode {state state' : FileState}
    (h : readState host (some state.encode) = .ok state') : state' = state :=
  parseFileState_encode h

/-- An access leaves the file, or replaces what it read. -/
theorem withLockedState_file {α : Type} (file : Option Json) (io : Io)
    (update : FileState → α × FileState) :
    (withLockedState host file io update).2 = file ∨ ∃ state, readState host file = .ok state ∧
      (withLockedState host file io update).2 = some (update state).2.encode := by
  unfold withLockedState
  cases io with
  | failBefore error => exact .inl rfl
  | done | failAfter failure =>
      dsimp only
      split
      · exact .inl rfl
      · rename_i state hread
        exact .inr ⟨state, hread, rfl⟩

/-- A successful access read the file and replaced it. -/
theorem withLockedState_ok {α : Type} {file : Option Json} {io : Io}
    {update : FileState → α × FileState} {a : α} {file' : Option Json}
    (h : withLockedState host file io update = (.ok a, file')) :
    ∃ state, readState host file = .ok state ∧ a = (update state).1 ∧
      file' = some (update state).2.encode := by
  unfold withLockedState at h
  cases io with
  | failBefore error => cases h
  | failAfter failure =>
      dsimp only at h
      split at h <;> cases h
  | done =>
      dsimp only at h
      split at h
      · cases h
      · rename_i state hread
        cases h
        exact ⟨state, hread, rfl, rfl⟩

end TradingGuardrails
