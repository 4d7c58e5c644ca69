import TradingGuardrails.Broker.FileTable

/-!
What an idempotency store is for: a key that was taken stays taken until the process
that holds it frees it, and only a key that is not taken can be reserved. Both stores do
this, whatever fails while they are accessed.
-/
namespace TradingGuardrails

open Text

/-- The keys that are taken in a store, and the reservations that one process can still
free. -/
structure Slots where
  taken : String → Prop
  holds : Handle → Prop

namespace Slots

structure Keeps (s s' : Slots) : Prop where
  taken : ∀ key, s.taken key → s'.taken key
  holds : ∀ handle, s'.holds handle → s.holds handle

structure Reserves (handle : Handle) (s s' : Slots) : Prop where
  free : ¬s.taken handle.scopedKey
  reserved : s'.taken handle.scopedKey
  taken : ∀ key, s.taken key → s'.taken key
  holds : ∀ other, s'.holds other → s.holds other ∨ other.scopedKey = handle.scopedKey

structure Frees (handle : Handle) (s s' : Slots) : Prop where
  taken : ∀ key, s.taken key → s'.taken key ∨ key = handle.scopedKey ∧ s.holds handle
  holds : ∀ other, s'.holds other → s.holds other
  unheld : ¬s'.holds handle

theorem Keeps.refl (s : Slots) : s.Keeps s :=
  ⟨fun _ h => h, fun _ h => h⟩

end Slots

variable {host : Host}

namespace MemoryStore

def slots (store : MemoryStore) : Slots where
  taken key := (store.entries key).isSome
  holds handle := ∃ promise,
    store.entries handle.scopedKey = some (.pending handle.payloadHash promise)

theorem put_self (store : MemoryStore) (key : String) (entry : Option MemoryEntry) :
    (store.put key entry).entries key = entry :=
  Function.update_self ..

theorem put_of_ne (store : MemoryStore) {key other : String} (entry : Option MemoryEntry)
    (h : other ≠ key) : (store.put key entry).entries other = store.entries other :=
  Function.update_of_ne h ..

/-- Recording a result under a key. -/
theorem keeps_put {store store' : MemoryStore} {key payloadHash : String} {result : Json}
    {pendingAudit : Option Json} {waiting : Option Nat}
    (h : store'.entries =
      (store.put key (some (.cached payloadHash result pendingAudit waiting))).entries) :
    store.slots.Keeps store'.slots ∧
      ∀ handle, handle.scopedKey = key → ¬store'.slots.holds handle := by
  refine ⟨⟨fun other hother => ?_, fun handle hheld => ?_⟩, fun handle hkey hheld => ?_⟩
  · simp only [slots, h] at hother ⊢
    by_cases hkey : other = key
    · rw [hkey, put_self]
      rfl
    · rwa [put_of_ne _ _ hkey]
  · simp only [slots, h] at hheld ⊢
    by_cases hkey : handle.scopedKey = key
    · rw [hkey, put_self] at hheld
      obtain ⟨promise, hpromise⟩ := hheld
      cases hpromise
    · rwa [put_of_ne _ _ hkey] at hheld
  · simp only [slots, h, hkey, put_self] at hheld
    obtain ⟨promise, hpromise⟩ := hheld
    cases hpromise

inductive Begun (store : MemoryStore) (key : String) (intent : TradingIntent host) :
    Except Thrown Reservation → MemoryStore → Prop
  | conflict {entry : MemoryEntry}
      (entry_eq : store.entries (handleFor host key intent).scopedKey = some entry)
      (payload : entry.payloadHash ≠ (handleFor host key intent).payloadHash) :
      Begun store key intent (.error (idempotencyConflict key)) store
  | cached {result : Json} {pendingAudit : Option Json} {waiting : Option Nat}
      (entry_eq : store.entries (handleFor host key intent).scopedKey =
        some (.cached (handleFor host key intent).payloadHash result pendingAudit waiting)) :
      Begun store key intent (.ok (.cached result pendingAudit)) store
  | pending {promise : Nat}
      (entry_eq : store.entries (handleFor host key intent).scopedKey =
        some (.pending (handleFor host key intent).payloadHash promise)) :
      Begun store key intent (.ok (.pending (.shared promise))) store
  | reserved (free : store.entries (handleFor host key intent).scopedKey = none) :
      Begun store key intent (.ok .reserved)
        { store.put (handleFor host key intent).scopedKey
            (some (.pending (handleFor host key intent).payloadHash store.promises.next)) with
          promises := store.promises.create }

theorem begin_cases (store : MemoryStore) (key : String) (intent : TradingIntent host) :
    store.Begun key intent (store.begin host key intent).1 (store.begin host key intent).2 := by
  unfold begin
  dsimp only
  split
  · rename_i entry hentry
    split_ifs with hhash
    · exact .conflict hentry hhash
    · rw [ne_eq, not_not] at hhash
      cases entry with
      | cached payloadHash result pendingAudit waiting =>
          cases hhash
          exact .cached hentry
      | pending payloadHash promise =>
          cases hhash
          exact .pending hentry
  · rename_i hfree
    exact .reserved hfree

theorem begin_slots {store store' : MemoryStore} {key : String} {intent : TradingIntent host}
    {answer : Except Thrown Reservation} (h : store.Begun key intent answer store') :
    answer ≠ .ok .reserved ∧ store.slots.Keeps store'.slots ∨
      answer = .ok .reserved ∧ store.slots.Reserves (handleFor host key intent) store'.slots := by
  cases h with
  | conflict | cached | pending => exact .inl ⟨by simp, .refl _⟩
  | reserved free =>
      refine .inr ⟨rfl, ?_, ?_, fun other hother => ?_, fun other hother => ?_⟩
      · simp [slots, free]
      · simp only [slots, put_self]
        rfl
      · simp only [slots] at hother ⊢
        by_cases hkey : other = (handleFor host key intent).scopedKey
        · rw [hkey, put_self]
          rfl
        · rwa [put_of_ne _ _ hkey]
      · by_cases hkey : other.scopedKey = (handleFor host key intent).scopedKey
        · exact .inr hkey
        · simp only [slots, put_of_ne _ _ hkey] at hother
          exact .inl hother

theorem complete_slots (store : MemoryStore) (handle : Handle) (result : Json)
    (pendingAudit : Option Json) :
    store.slots.Keeps (store.complete handle result pendingAudit).slots ∧
      ¬(store.complete handle result pendingAudit).slots.holds handle := by
  unfold complete
  split
  · rename_i payloadHash promise hentry
    split_ifs with hhash
    · have hput : ∀ store' : MemoryStore, store'.entries = (store.put handle.scopedKey
          (some (.cached payloadHash result pendingAudit (some promise)))).entries →
          store.slots.Keeps store'.slots ∧ ¬store'.slots.holds handle :=
        fun store' h => ⟨(keeps_put h).1, (keeps_put h).2 handle rfl⟩
      cases pendingAudit with
      | none => exact hput _ rfl
      | some event => exact hput _ rfl
    · refine ⟨.refl _, ?_⟩
      rintro ⟨promise', hpromise⟩
      rw [hentry] at hpromise
      cases hpromise
      exact hhash rfl
  · rename_i hother
    refine ⟨.refl _, ?_⟩
    rintro ⟨promise, hpromise⟩
    exact hother _ _ hpromise

theorem completeAudit_slots (store : MemoryStore) (handle : Handle) :
    store.slots.Keeps (store.completeAudit handle).slots := by
  unfold completeAudit
  split
  · split_ifs
    · exact (keeps_put rfl).1
    · exact .refl _
  · exact .refl _

theorem failAudit_slots (store : MemoryStore) (handle : Handle) (error : Thrown) :
    store.slots.Keeps (store.failAudit handle error).slots := by
  unfold failAudit
  split
  · split_ifs
    · exact (keeps_put rfl).1
    · exact .refl _
  · exact .refl _

theorem abort_slots (store : MemoryStore) (handle : Handle) (error : Thrown) :
    store.slots.Frees handle (store.abort handle error).slots := by
  have hsame : ¬store.slots.holds handle → store.slots.Frees handle store.slots :=
    fun h => ⟨fun _ h => .inl h, fun _ h => h, h⟩
  unfold abort
  split
  · rename_i payloadHash promise hentry
    split_ifs with hhash
    · refine ⟨fun key hkey => ?_, fun other hother => ?_, ?_⟩
      · by_cases h : key = handle.scopedKey
        · exact .inr ⟨h, promise, by rw [hentry, hhash]⟩
        · simp only [slots] at hkey ⊢
          rw [put_of_ne _ _ h]
          exact .inl hkey
      · simp only [slots] at hother ⊢
        by_cases h : other.scopedKey = handle.scopedKey
        · rw [h, put_self] at hother
          obtain ⟨promise', hpromise⟩ := hother
          cases hpromise
        · rwa [put_of_ne _ _ h] at hother
      · rintro ⟨promise', hpromise⟩
        rw [put_self] at hpromise
        cases hpromise
    · refine hsame ?_
      rintro ⟨promise', hpromise⟩
      rw [hentry] at hpromise
      cases hpromise
      exact hhash rfl
  · rename_i hother
    refine hsame ?_
    rintro ⟨promise, hpromise⟩
    exact hother _ _ hpromise

end MemoryStore

namespace FileLocal

theorem held_put_none_self (own : FileLocal) (handle : Handle) :
    (own.put handle.scopedKey none).held handle = none := by
  simp only [held, put, Function.update_self]

theorem held_put_none {own : FileLocal} {key : String} {other : Handle} {promise : Nat}
    (h : (own.put key none).held other = some promise) : own.held other = some promise := by
  by_cases hkey : other.scopedKey = key
  · simp only [held, put, hkey, Function.update_self] at h
    cases h
  · simp only [held, put, Function.update_of_ne hkey] at h
    simp only [held, h]

@[simp] theorem held_settle (own : FileLocal) (promise : Nat) (r : Except Thrown Json)
    (handle : Handle) : (own.settle promise r).held handle = own.held handle := rfl

end FileLocal

namespace FileStore

def slots (store : FileStore) : Slots where
  taken key := ∃ state : FileState, store.file = some state.encode ∧ (state.lookup key).isSome
  holds handle := ∃ promise, store.own.held handle = some promise

inductive Begun (store : FileStore) (key : String) (intent : TradingIntent host) :
    Except Thrown Reservation → FileStore → Prop
  | conflictHere {payloadHash : String} {promise : Nat}
      (pending : store.own.pending (handleFor host key intent).scopedKey =
        some (payloadHash, promise))
      (payload : payloadHash ≠ (handleFor host key intent).payloadHash) :
      Begun store key intent (.error (idempotencyConflict key)) store
  | pending {promise : Nat} (pending : store.own.pending (handleFor host key intent).scopedKey =
        some ((handleFor host key intent).payloadHash, promise)) :
      Begun store key intent (.ok (.pending (.shared promise))) store
  | failed {error : Thrown} {io : Io} {file : Option Json}
      (pending : store.own.pending (handleFor host key intent).scopedKey = none)
      (access : withLockedState host store.file io (fun state =>
        match state.lookup (handleFor host key intent).scopedKey with
        | some entry => (some entry, state)
        | none => (none, state.put (handleFor host key intent).scopedKey
            (.inProgress (handleFor host key intent).payloadHash))) = (.error error, file)) :
      Begun store key intent (.error error) { store with file }
  | conflict {state : FileState} {entry : FileEntry}
      (pending : store.own.pending (handleFor host key intent).scopedKey = none)
      (read : readState host store.file = .ok state)
      (entry_eq : state.lookup (handleFor host key intent).scopedKey = some entry)
      (payload : entry.payloadHash ≠ (handleFor host key intent).payloadHash) :
      Begun store key intent (.error (idempotencyConflict key))
        { store with file := some state.encode }
  | inProgress {state : FileState}
      (pending : store.own.pending (handleFor host key intent).scopedKey = none)
      (read : readState host store.file = .ok state)
      (entry_eq : state.lookup (handleFor host key intent).scopedKey =
        some (.inProgress (handleFor host key intent).payloadHash)) :
      Begun store key intent (.ok (.pending (.rejected inProgressError)))
        { store with file := some state.encode }
  | invalid {state : FileState} {result : Json} {pendingAudit : Option Json}
      {pendingAuditHash : Option String} {error : Thrown}
      (pending : store.own.pending (handleFor host key intent).scopedKey = none)
      (read : readState host store.file = .ok state)
      (entry_eq : state.lookup (handleFor host key intent).scopedKey = some
        (.cached (handleFor host key intent).payloadHash result pendingAudit pendingAuditHash))
      (refused : validateCachedEntryForIntent host key result pendingAudit intent = .error error) :
      Begun store key intent (.error error) { store with file := some state.encode }
  | cached {state : FileState} {result : Json} {pendingAudit : Option Json}
      {pendingAuditHash : Option String}
      (pending : store.own.pending (handleFor host key intent).scopedKey = none)
      (read : readState host store.file = .ok state)
      (entry_eq : state.lookup (handleFor host key intent).scopedKey = some
        (.cached (handleFor host key intent).payloadHash result pendingAudit pendingAuditHash))
      (accepted : validateCachedEntryForIntent host key result pendingAudit intent = .ok ()) :
      Begun store key intent (.ok (.cached result pendingAudit))
        { store with file := some state.encode }
  | reserved {state : FileState}
      (pending : store.own.pending (handleFor host key intent).scopedKey = none)
      (read : readState host store.file = .ok state)
      (free : state.lookup (handleFor host key intent).scopedKey = none) :
      Begun store key intent (.ok .reserved)
        { file := some (state.put (handleFor host key intent).scopedKey
            (.inProgress (handleFor host key intent).payloadHash)).encode
          own := { store.own.put (handleFor host key intent).scopedKey
              (some ((handleFor host key intent).payloadHash, store.own.promises.next)) with
            promises := store.own.promises.create } }

theorem begin_cases (store : FileStore) (io : Io) (key : String) (intent : TradingIntent host) :
    store.Begun key intent (store.begin host io key intent).1
      (store.begin host io key intent).2 := by
  unfold begin
  dsimp only
  split
  · rename_i payloadHash promise hpending
    split_ifs with hhash
    · exact .conflictHere hpending hhash
    · rw [ne_eq, not_not] at hhash
      exact .pending (hhash ▸ hpending)
  · rename_i hpending
    split
    · rename_i error file haccess
      exact .failed hpending haccess
    · rename_i entry file haccess
      obtain ⟨state, hread, hentry, rfl⟩ := withLockedState_ok haccess
      cases hlookup : state.lookup (handleFor host key intent).scopedKey with
      | none =>
          rw [hlookup] at hentry
          cases hentry
      | some entry' =>
          rw [hlookup] at hentry
          cases hentry
          dsimp only
          split_ifs with hhash
          · exact .conflict hpending hread hlookup hhash
          · rw [ne_eq, not_not] at hhash
            cases entry with
            | inProgress payloadHash =>
                cases hhash
                exact .inProgress hpending hread hlookup
            | cached payloadHash result pendingAudit pendingAuditHash =>
                cases hhash
                dsimp only
                split
                · rename_i error hvalid
                  exact .invalid hpending hread hlookup hvalid
                · rename_i hvalid
                  exact .cached hpending hread hlookup hvalid
    · rename_i file haccess
      obtain ⟨state, hread, hentry, rfl⟩ := withLockedState_ok haccess
      cases hlookup : state.lookup (handleFor host key intent).scopedKey with
      | some entry' =>
          rw [hlookup] at hentry
          cases hentry
      | none => exact .reserved hpending hread hlookup

variable (host) in
/-- A key stays taken when an access keeps it. -/
theorem taken_access {α : Type} {file : Option Json} (io : Io) (update : FileState → α × FileState)
    {key : String}
    (keeps : ∀ state : FileState, (state.lookup key).isSome → ((update state).2.lookup key).isSome)
    (h : ∃ state : FileState, file = some state.encode ∧ (state.lookup key).isSome) :
    ∃ state : FileState, (withLockedState host file io update).2 = some state.encode ∧
      (state.lookup key).isSome := by
  obtain ⟨state, rfl, hlookup⟩ := h
  rcases withLockedState_file (some state.encode) io update with hsame | ⟨state', hread, hfile⟩
  · exact ⟨state, hsame, hlookup⟩
  · obtain rfl := readState_encode hread
    exact ⟨_, hfile, keeps _ hlookup⟩

theorem lookup_put_isSome {state : FileState} {key other : String} {entry : FileEntry}
    (h : (state.lookup other).isSome) : ((state.put key entry).lookup other).isSome := by
  by_cases hkey : other = key
  · rw [hkey, FileState.lookup_put_self]
    rfl
  · rwa [FileState.lookup_put_of_ne _ _ hkey]

/-- A file that was read is unchanged when it is written back. -/
theorem taken_writeBack {store : FileStore} {state : FileState} {key : String}
    (hread : readState host store.file = .ok state) (h : store.slots.taken key) :
    (state.lookup key).isSome := by
  obtain ⟨state', hfile, hlookup⟩ := h
  rw [hfile] at hread
  rwa [readState_encode hread]

theorem begin_slots {store store' : FileStore} {key : String} {intent : TradingIntent host}
    {answer : Except Thrown Reservation} (h : store.Begun key intent answer store') :
    answer ≠ .ok .reserved ∧ store.slots.Keeps store'.slots ∨
      answer = .ok .reserved ∧ store.slots.Reserves (handleFor host key intent) store'.slots := by
  cases h with
  | conflictHere | pending => exact .inl ⟨by simp, .refl _⟩
  | failed pending access =>
      refine .inl ⟨by simp, fun other hother => ?_, fun _ h => h⟩
      have hfile := congrArg Prod.snd access
      dsimp only at hfile
      simp only [slots]
      rw [← hfile]
      refine taken_access host _ _ (fun state hstate => ?_) hother
      split
      · exact hstate
      · exact lookup_put_isSome hstate
  | conflict pending read | inProgress pending read | invalid pending read | cached pending read =>
      exact .inl ⟨by simp, fun other hother => ⟨_, rfl, taken_writeBack read hother⟩, fun _ h => h⟩
  | reserved pending read free =>
      refine .inr ⟨rfl, ?_, ⟨_, rfl, ?_⟩, fun other hother => ⟨_, rfl, ?_⟩, ?_⟩
      · intro htaken
        have := taken_writeBack read htaken
        rw [free] at this
        cases this
      · rw [FileState.lookup_put_self]
        rfl
      · exact lookup_put_isSome (taken_writeBack read hother)
      · rintro other ⟨promise, hother⟩
        by_cases hkey : other.scopedKey = (handleFor host key intent).scopedKey
        · exact .inr hkey
        · refine .inl ⟨promise, ?_⟩
          simpa only [FileLocal.held, FileLocal.put, Function.update_of_ne hkey] using hother

/-- Giving up the promise of a key, whatever becomes of the file. -/
theorem frees_put {store : FileStore} {handle : Handle} {file : Option Json} {promise : Nat}
    {r : Except Thrown Json} (hheld : store.own.held handle = some promise)
    (htaken : ∀ key, store.slots.taken key → (∃ state : FileState, file = some state.encode ∧
      (state.lookup key).isSome) ∨ key = handle.scopedKey) :
    store.slots.Frees handle
      (FileStore.slots ⟨file, (store.own.put handle.scopedKey none).settle promise r⟩) := by
  refine ⟨fun key hkey => ?_, ?_, ?_⟩
  · rcases htaken key hkey with h | h
    · exact .inl h
    · exact .inr ⟨h, promise, hheld⟩
  · rintro other ⟨promise', hother⟩
    exact ⟨promise', FileLocal.held_put_none hother⟩
  · rintro ⟨promise', hpromise⟩
    simp only [FileLocal.held_settle, FileLocal.held_put_none_self] at hpromise
    cases hpromise

theorem complete_slots (store : FileStore) (io : Io) (handle : Handle) (result : Json)
    (pendingAudit : Option Json) :
    store.slots.Keeps (store.complete host io handle result pendingAudit).2.slots ∧
      (pendingAudit = none →
        ¬(store.complete host io handle result pendingAudit).2.slots.holds handle) := by
  unfold complete
  split
  · rename_i hnone
    refine ⟨.refl _, fun _ => ?_⟩
    rintro ⟨promise, hpromise⟩
    rw [hnone] at hpromise
    cases hpromise
  · rename_i promise hheld
    have htaken : ∀ {key}, store.slots.taken key → _ := fun {key} h =>
      taken_access host io (fun state =>
        ((), state.put handle.scopedKey (.cached handle.payloadHash result pendingAudit
          (pendingAudit.map (hashPendingAudit host))))) (fun _ h => lookup_put_isSome h) h
    split
    · rename_i error file haccess
      rw [haccess] at htaken
      have hfrees := frees_put (r := .error error) hheld fun key h => .inl (htaken h)
      exact ⟨⟨fun key h => htaken h, hfrees.holds⟩, fun _ => hfrees.unheld⟩
    · rename_i file haccess
      rw [haccess] at htaken
      cases pendingAudit with
      | some event => exact ⟨⟨fun key h => htaken h, fun _ h => h⟩, fun h => nomatch h⟩
      | none =>
          have hfrees := frees_put (r := .ok result) hheld fun key h => .inl (htaken h)
          exact ⟨⟨fun key h => htaken h, hfrees.holds⟩, fun _ => hfrees.unheld⟩

theorem clearAudit_isSome (handle : Handle) {state : FileState} {key : String}
    (h : (state.lookup key).isSome) : ((clearAudit handle state).2.lookup key).isSome := by
  unfold clearAudit
  split
  · split_ifs
    · exact lookup_put_isSome h
    · exact h
  · exact h

theorem completeAudit_slots (store : FileStore) (io : Io) (handle : Handle) :
    store.slots.Keeps (store.completeAudit host io handle).2.slots := by
  have htaken : ∀ {key}, store.slots.taken key → _ := fun {key} h =>
    taken_access host io (clearAudit handle) (fun _ h => clearAudit_isSome handle h) h
  unfold completeAudit
  split
  · rename_i error file haccess
    rw [haccess] at htaken
    split
    · exact ⟨fun key h => htaken h, fun _ h => h⟩
    · exact ⟨fun key h => htaken h, fun _ h => h⟩
  · rename_i result file haccess
    rw [haccess] at htaken
    split
    · exact ⟨fun key h => htaken h, fun _ h => h⟩
    · rename_i promise hheld
      exact ⟨fun key h => htaken h,
        (frees_put (r := .ok .null) hheld fun key h => .inl (htaken h)).holds⟩

theorem cachedCompleteAudit_slots (store : FileStore) (io : Io) (handle : Handle) :
    store.slots.Keeps (store.cachedCompleteAudit host io handle).2.slots := by
  have htaken : ∀ {key}, store.slots.taken key → _ := fun {key} h =>
    taken_access host io (fun state => ((), (clearAudit handle state).2))
      (fun _ h => clearAudit_isSome handle h) h
  unfold cachedCompleteAudit
  split
  · rename_i error file haccess
    rw [haccess] at htaken
    exact ⟨fun key h => htaken h, fun _ h => h⟩
  · rename_i file haccess
    rw [haccess] at htaken
    exact ⟨fun key h => htaken h, fun _ h => h⟩

theorem failAudit_slots (store : FileStore) (handle : Handle) (error : Thrown) :
    store.slots.Keeps (store.failAudit handle error).slots := by
  unfold failAudit
  split
  · exact .refl _
  · rename_i promise hheld
    exact ⟨fun _ h => h, (frees_put (r := .error error) hheld fun _ h => .inl h).holds⟩

theorem abort_slots (store : FileStore) (io : Io) (handle : Handle) (error : Thrown) :
    store.slots.Frees handle (store.abort host io handle error).2.slots := by
  unfold abort
  split
  · rename_i hnone
    refine ⟨fun _ h => .inl h, fun _ h => h, ?_⟩
    rintro ⟨promise, hpromise⟩
    rw [hnone] at hpromise
    cases hpromise
  · rename_i promise hheld
    have htaken : ∀ key, store.slots.taken key →
        (∃ state : FileState, (withLockedState host store.file io (removeReservation handle)).2 =
            some state.encode ∧
          (state.lookup key).isSome) ∨ key = handle.scopedKey := by
      intro key h
      by_cases hkey : key = handle.scopedKey
      · exact .inr hkey
      · refine .inl (taken_access host _ _ (fun state hstate => ?_) h)
        unfold removeReservation
        split
        · split_ifs
          · rwa [FileState.lookup_remove_of_ne _ hkey]
          · exact hstate
        · exact hstate
    dsimp only
    split
    · rename_i failure file haccess
      rw [haccess] at htaken
      exact frees_put hheld htaken
    · rename_i file haccess
      rw [haccess] at htaken
      exact frees_put hheld htaken

end FileStore
end TradingGuardrails
