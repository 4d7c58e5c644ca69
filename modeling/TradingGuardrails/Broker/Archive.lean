import TradingGuardrails.Broker.Slots

/-!
What an idempotency store tells its callers: the results that it has on file under the keys,
each with the audit event that is still to be written, and the results that its promises
were kept with. Both stores put a result on file when it is recorded, leave it there, drop
its event only when they are told that it was written, and keep a promise only with a
result on file.
-/
namespace TradingGuardrails

open Text

/-- A result on file, with the audit event that is still to be written. -/
structure Filed where
  payloadHash : String
  result : Json
  pendingAudit : Option Json

structure Archive where
  files : String → Filed → Prop
  kept : Nat → Json → Prop

namespace Archive

structure Keeps (s s' : Archive) : Prop where
  files : ∀ key f, s'.files key f → s.files key f
  stays : ∀ key f, s.files key f → s'.files key f
  kept : ∀ id result, s'.kept id result → s.kept id result

/-- A result is put on file; a promise is kept with it if it needs no audit. -/
structure Records (handle : Handle) (result : Json) (pendingAudit : Option Json)
    (s s' : Archive) : Prop where
  files : ∀ key f, s'.files key f → s.files key f ∨
    key = handle.scopedKey ∧ f = ⟨handle.payloadHash, result, pendingAudit⟩
  stays : ∀ key f, key ≠ handle.scopedKey → s.files key f → s'.files key f
  kept : ∀ id r, s'.kept id r → s.kept id r ∨ r = result ∧ pendingAudit = none

/-- The event of a result on file is dropped; a promise is kept with this result. -/
structure Releases (handle : Handle) (s s' : Archive) : Prop where
  files : ∀ key f, s'.files key f → s.files key f ∨ key = handle.scopedKey ∧
    f.payloadHash = handle.payloadHash ∧ f.pendingAudit = none ∧
    ∃ pendingAudit, s.files key { f with pendingAudit }
  stays : ∀ key f, s.files key f → s'.files key f ∨ s'.files key { f with pendingAudit := none }
  kept : ∀ id r, s'.kept id r → s.kept id r ∨
    ∃ pendingAudit, s.files handle.scopedKey ⟨handle.payloadHash, r, pendingAudit⟩

theorem Keeps.refl (s : Archive) : s.Keeps s :=
  ⟨fun _ _ h => h, fun _ _ h => h, fun _ _ h => h⟩

theorem Keeps.records {handle : Handle} {result : Json} {pendingAudit : Option Json}
    {s s' : Archive} (h : s.Keeps s') : s.Records handle result pendingAudit s' :=
  ⟨fun key f hf => .inl (h.files key f hf), fun key f _ hf => h.stays key f hf,
    fun id r hr => .inl (h.kept id r hr)⟩

theorem Keeps.releases {handle : Handle} {s s' : Archive} (h : s.Keeps s') :
    s.Releases handle s' :=
  ⟨fun key f hf => .inl (h.files key f hf), fun key f hf => .inl (h.stays key f hf),
    fun id r hr => .inl (h.kept id r hr)⟩

end Archive

namespace Promises

def kept (ps : Promises) (id : Nat) (result : Json) : Prop :=
  ps.settled id = some (.ok result)

theorem kept_settle {ps : Promises} {id other : Nat} {r : Except Thrown Json} {result : Json}
    (h : (ps.settle id r).kept other result) : ps.kept other result ∨ r = .ok result := by
  unfold kept settle at h
  split at h
  · exact .inl h
  · by_cases hid : other = id
    · subst hid
      simp only [Function.update_self, Option.some.injEq] at h
      exact .inr h
    · simp only [Function.update_of_ne hid] at h
      exact .inl h

theorem kept_settle_error {ps : Promises} {id other : Nat} {error : Thrown} {result : Json}
    (h : (ps.settle id (.error error)).kept other result) : ps.kept other result := by
  rcases kept_settle h with hkept | hsettled
  · exact hkept
  · cases hsettled

theorem kept_settleAny {ps : Promises} {id : Option Nat} {other : Nat} {r : Except Thrown Json}
    {result : Json} (h : (ps.settleAny id r).kept other result) :
    ps.kept other result ∨ r = .ok result := by
  cases id with
  | none => exact .inl h
  | some id => exact kept_settle h

end Promises

namespace MemoryStore

def archive (store : MemoryStore) : Archive where
  files key f := ∃ waiting,
    store.entries key = some (.cached f.payloadHash f.result f.pendingAudit waiting)
  kept := store.promises.kept

/-- What is on file after an entry was replaced. -/
theorem files_put {store store' : MemoryStore} {key other : String} {entry : Option MemoryEntry}
    {f : Filed} (hput : store'.entries = (store.put key entry).entries)
    (h : store'.archive.files other f) :
    store.archive.files other f ∨ other = key ∧
      ∃ waiting, entry = some (.cached f.payloadHash f.result f.pendingAudit waiting) := by
  obtain ⟨waiting, hentry⟩ := h
  rw [hput] at hentry
  by_cases hkey : other = key
  · subst hkey
    rw [put_self] at hentry
    exact .inr ⟨rfl, waiting, hentry⟩
  · rw [put_of_ne _ _ hkey] at hentry
    exact .inl ⟨waiting, hentry⟩

/-- What is on file under the other keys stays. -/
theorem stays_put {store store' : MemoryStore} {key other : String} {entry : Option MemoryEntry}
    {f : Filed} (hput : store'.entries = (store.put key entry).entries) (hkey : other ≠ key)
    (h : store.archive.files other f) : store'.archive.files other f := by
  obtain ⟨waiting, hentry⟩ := h
  refine ⟨waiting, ?_⟩
  rw [hput, put_of_ne _ _ hkey]
  exact hentry

theorem files_of_entry {store : MemoryStore} {key : String} {entry : MemoryEntry} {f : Filed}
    (hentry : store.entries key = some entry) (h : store.archive.files key f) :
    ∃ waiting, entry = .cached f.payloadHash f.result f.pendingAudit waiting := by
  obtain ⟨waiting, hcached⟩ := h
  exact ⟨waiting, Option.some.inj (hentry.symm.trans hcached)⟩

theorem files_unique {store : MemoryStore} {key : String} {f f' : Filed}
    (h : store.archive.files key f) (h' : store.archive.files key f') :
    f.payloadHash = f'.payloadHash ∧ f.result = f'.result := by
  obtain ⟨waiting, hentry⟩ := h
  obtain ⟨waiting', hcached⟩ := files_of_entry hentry h'
  obtain ⟨hhash, hresult, -⟩ := MemoryEntry.cached.inj hcached
  exact ⟨hhash, hresult⟩

theorem begin_archive {host : Host} {store store' : MemoryStore} {key : String}
    {intent : TradingIntent host} {answer : Except Thrown Reservation}
    (h : store.Begun key intent answer store') : store.archive.Keeps store'.archive ∧
      (∀ result pendingAudit, answer = .ok (.cached result pendingAudit) →
        store.archive.files (handleFor host key intent).scopedKey
          ⟨(handleFor host key intent).payloadHash, result, pendingAudit⟩) ∧
      (answer = .ok .reserved →
        ∀ f, ¬store.archive.files (handleFor host key intent).scopedKey f) := by
  cases h with
  | conflict | pending => exact ⟨.refl _, (fun _ _ h => by cases h), fun h => by cases h⟩
  | cached entry_eq =>
      refine ⟨.refl _, fun _ _ h => ?_, fun h => by cases h⟩
      cases h
      exact ⟨_, entry_eq⟩
  | reserved free =>
      have hfree : ∀ f, ¬store.archive.files (handleFor host key intent).scopedKey f := by
        rintro f ⟨waiting, hentry⟩
        exact Option.some_ne_none _ (hentry.symm.trans free)
      refine ⟨⟨fun other f hf => ?_, fun other f hf => ?_, fun _ _ h => h⟩,
        (fun _ _ h => by cases h), fun _ => hfree⟩
      · obtain ⟨waiting, hentry⟩ := hf
        dsimp only at hentry
        by_cases hkey : other = (handleFor host key intent).scopedKey
        · rw [hkey, put_self] at hentry
          simp only [Option.some.injEq, reduceCtorEq] at hentry
        · rw [put_of_ne _ _ hkey] at hentry
          exact ⟨waiting, hentry⟩
      · have hkey : other ≠ (handleFor host key intent).scopedKey := by
          rintro rfl
          exact hfree f hf
        obtain ⟨waiting, hentry⟩ := hf
        refine ⟨waiting, ?_⟩
        dsimp only
        rw [put_of_ne _ _ hkey]
        exact hentry

theorem complete_archive (store : MemoryStore) (handle : Handle) (result : Json)
    (pendingAudit : Option Json) :
    store.archive.Records handle result pendingAudit
      (store.complete handle result pendingAudit).archive := by
  unfold complete
  split
  · rename_i payloadHash promise hentry
    split_ifs with hhash
    · subst hhash
      have hfiles : ∀ key f, (store.put handle.scopedKey (some (.cached handle.payloadHash result
          pendingAudit (some promise)))).archive.files key f → store.archive.files key f ∨
          key = handle.scopedKey ∧ f = ⟨handle.payloadHash, result, pendingAudit⟩ := by
        rintro key ⟨payloadHash, r, pending⟩ hf
        rcases files_put rfl hf with hfiled | ⟨hkey, waiting, hcached⟩
        · exact .inl hfiled
        · cases hcached
          exact .inr ⟨hkey, rfl⟩
      cases pendingAudit with
      | some event => exact ⟨hfiles, fun key f hkey => stays_put rfl hkey, fun _ _ h => .inl h⟩
      | none =>
          refine ⟨hfiles, fun key f hkey => stays_put rfl hkey, fun id r hr => ?_⟩
          rcases Promises.kept_settle hr with hkept | hsettled
          · exact .inl hkept
          · cases hsettled
            exact .inr ⟨rfl, rfl⟩
    · exact (Archive.Keeps.refl _).records
  · exact (Archive.Keeps.refl _).records

theorem completeAudit_archive (store : MemoryStore) (handle : Handle) :
    store.archive.Releases handle (store.completeAudit handle).archive := by
  unfold completeAudit
  split
  · rename_i payloadHash result pendingAudit waiting hentry
    split_ifs with hhash
    · subst hhash
      refine ⟨fun key f hf => ?_, fun key f hf => ?_, fun id r hr => ?_⟩
      · rcases files_put rfl hf with hfiled | ⟨rfl, waiting', hcached⟩
        · exact .inl hfiled
        · simp only [Option.some.injEq, MemoryEntry.cached.injEq] at hcached
          obtain ⟨hhash, hresult, hnone, -⟩ := hcached
          refine .inr ⟨rfl, hhash.symm, hnone.symm, pendingAudit, waiting, ?_⟩
          rw [hentry, hhash, hresult]
      · by_cases hkey : key = handle.scopedKey
        · subst hkey
          obtain ⟨waiting', hcached⟩ := files_of_entry hentry hf
          obtain ⟨hhash, hresult, -⟩ := MemoryEntry.cached.inj hcached
          refine .inr ⟨none, ?_⟩
          rw [put_self, hhash, hresult]
        · exact .inl (stays_put rfl hkey hf)
      · rcases Promises.kept_settleAny hr with hkept | hsettled
        · exact .inl hkept
        · cases hsettled
          exact .inr ⟨pendingAudit, waiting, hentry⟩
    · exact (Archive.Keeps.refl _).releases
  · exact (Archive.Keeps.refl _).releases

theorem failAudit_archive (store : MemoryStore) (handle : Handle) (error : Thrown) :
    store.archive.Keeps (store.failAudit handle error).archive := by
  unfold failAudit
  split
  · rename_i payloadHash result pendingAudit waiting hentry
    split_ifs
    · refine ⟨fun key f hf => ?_, fun key f hf => ?_, fun id r hr => ?_⟩
      · rcases files_put rfl hf with hfiled | ⟨rfl, waiting', hcached⟩
        · exact hfiled
        · simp only [Option.some.injEq, MemoryEntry.cached.injEq] at hcached
          obtain ⟨hhash, hresult, hpending, -⟩ := hcached
          refine ⟨waiting, ?_⟩
          rw [hentry, hhash, hresult, hpending]
      · by_cases hkey : key = handle.scopedKey
        · subst hkey
          obtain ⟨waiting', hcached⟩ := files_of_entry hentry hf
          obtain ⟨hhash, hresult, hpending, -⟩ := MemoryEntry.cached.inj hcached
          refine ⟨none, ?_⟩
          rw [put_self, hhash, hresult, hpending]
        · exact stays_put rfl hkey hf
      · rcases Promises.kept_settleAny hr with hkept | hsettled
        · exact hkept
        · cases hsettled
    · exact .refl _
  · exact .refl _

theorem abort_archive (store : MemoryStore) (handle : Handle) (error : Thrown) :
    store.archive.Keeps (store.abort handle error).archive := by
  unfold abort
  split
  · rename_i payloadHash promise hentry
    split_ifs
    · refine ⟨fun key f hf => ?_, fun key f hf => ?_, fun id r hr => Promises.kept_settle_error hr⟩
      · rcases files_put rfl hf with hfiled | ⟨-, waiting, hcached⟩
        · exact hfiled
        · cases hcached
      · refine stays_put rfl ?_ hf
        rintro rfl
        obtain ⟨waiting, hcached⟩ := files_of_entry hentry hf
        cases hcached
    · exact .refl _
  · exact .refl _

end MemoryStore

def FileState.files (state : FileState) (key : String) (f : Filed) : Prop :=
  ∃ hash, state.lookup key = some (.cached f.payloadHash f.result f.pendingAudit hash)

theorem FileState.files_put {state : FileState} {key other : String} {entry : FileEntry}
    {f : Filed} (h : (state.put key entry).files other f) :
    state.files other f ∨ other = key ∧
      ∃ hash, entry = .cached f.payloadHash f.result f.pendingAudit hash := by
  obtain ⟨hash, hentry⟩ := h
  by_cases hkey : other = key
  · subst hkey
    rw [lookup_put_self, Option.some.injEq] at hentry
    exact .inr ⟨rfl, hash, hentry⟩
  · rw [lookup_put_of_ne _ _ hkey] at hentry
    exact .inl ⟨hash, hentry⟩

theorem FileState.encodeEntry_injective : Function.Injective encodeEntry := by
  intro entry other h
  have hfield : ∀ key, (encodeEntry entry).field? key = (encodeEntry other).field? key :=
    fun key => by rw [h]
  have hstatus := hfield "status"
  have hpayload := hfield "payloadHash"
  have hresult := hfield "result"
  have hpending := hfield "pendingAudit"
  have hhash := hfield "pendingAuditHash"
  cases entry <;> cases other <;>
    simp only [encodeEntry, Json.field?_record_cons, Json.field?_record_nil, Option.some_or,
      Option.or_none, String.reduceEq, if_true, if_false, Option.some.injEq, Json.str.injEq]
      at hstatus hpayload hresult hpending hhash
  case cached.cached =>
      rw [hpayload, hresult, hpending, Option.map_injective (fun _ _ => Json.str.inj) hhash]
  case inProgress.inProgress => rw [hpayload]

theorem FileState.encode_injective : Function.Injective encode := by
  intro state other h
  have hfields : (encode state).field? "entries" = (encode other).field? "entries" := by rw [h]
  simp only [encode, Json.field?_record_cons, Json.field?_record_nil, Option.or_none, if_true,
    Option.some.injEq, Json.obj.injEq] at hfields
  refine List.map_injective_iff.mpr (fun f g hfg => ?_) hfields
  obtain ⟨hkey, hentry⟩ := Prod.mk.inj hfg
  exact Prod.ext hkey (encodeEntry_injective hentry)

def FileHolds (host : Host) (file : Option Json) (state : FileState) : Prop :=
  file = some state.encode ∨ readState host file = .ok state

def filesIn (host : Host) (file : Option Json) (key : String) (f : Filed) : Prop :=
  ∃ state, FileHolds host file state ∧ state.files key f

section

variable {host : Host} {file file' : Option Json} {key : String} {f : Filed}

theorem FileHolds.encode {state state' : FileState}
    (h : FileHolds host (some state.encode) state') : state' = state := by
  rcases h with hwritten | hread
  · exact (FileState.encode_injective (Option.some.inj hwritten)).symm
  · exact readState_encode hread

theorem FileHolds.read {state state' : FileState} (h : FileHolds host file state)
    (hread : readState host file = .ok state') : state = state' := by
  rcases h with rfl | h
  · exact (readState_encode hread).symm
  · exact Except.ok.inj (h.symm.trans hread)

theorem FileHolds.unique {state state' : FileState} (h : FileHolds host file state)
    (h' : FileHolds host file state') : state = state' := by
  rcases h with rfl | hread
  · exact h'.encode.symm
  · exact (h'.read hread).symm

theorem filesIn_unique {f' : Filed} (h : filesIn host file key f) (h' : filesIn host file key f') :
    f.payloadHash = f'.payloadHash ∧ f.result = f'.result := by
  obtain ⟨state, hholds, hash, hentry⟩ := h
  obtain ⟨state', hholds', hash', hentry'⟩ := h'
  rw [hholds.unique hholds'] at hentry
  obtain ⟨hpayload, hresult, -⟩ := FileEntry.cached.inj
    (Option.some.inj (hentry.symm.trans hentry'))
  exact ⟨hpayload, hresult⟩

theorem filesIn_encode {state : FileState} (h : filesIn host (some state.encode) key f) :
    state.files key f := by
  obtain ⟨state', hholds, hfiles⟩ := h
  rwa [hholds.encode] at hfiles

/-- A file that was read has on file what it was read as. -/
theorem files_of_read {state : FileState} (hread : readState host file = .ok state)
    (h : filesIn host file key f) : state.files key f := by
  obtain ⟨state', hholds, hfiles⟩ := h
  rwa [hholds.read hread] at hfiles

/-- An access puts on file what it writes back. -/
theorem filesIn_access {α : Type} {io : Io} {update : FileState → α × FileState}
    (h : filesIn host (withLockedState host file io update).2 key f) :
    filesIn host file key f ∨
      ∃ state, readState host file = .ok state ∧ (update state).2.files key f := by
  rcases withLockedState_file file io update with hsame | ⟨state, hread, hfile⟩
  · rw [hsame] at h
    exact .inl h
  · rw [hfile] at h
    exact .inr ⟨state, hread, filesIn_encode h⟩

/-- An access that writes back nothing new puts nothing on file. -/
theorem filesIn_of_access {α : Type} {io : Io} {update : FileState → α × FileState}
    (hupdate : ∀ state, (update state).2.files key f → state.files key f)
    (h : filesIn host (withLockedState host file io update).2 key f) :
    filesIn host file key f := by
  rcases filesIn_access h with hfiled | ⟨state, hread, hfiles⟩
  · exact hfiled
  · exact ⟨state, .inr hread, hupdate state hfiles⟩

/-- An access leaves on file what it writes back. -/
theorem stays_access {α : Type} (io : Io) {update : FileState → α × FileState} {f' : Filed}
    (hupdate : ∀ state, state.files key f → (update state).2.files key f')
    (h : filesIn host file key f) :
    filesIn host (withLockedState host file io update).2 key f ∨
      filesIn host (withLockedState host file io update).2 key f' := by
  rcases withLockedState_file file io update with hsame | ⟨state, hread, hfile⟩
  · rw [hsame]
    exact .inl h
  · rw [hfile]
    exact .inr ⟨_, .inl rfl, hupdate state (files_of_read hread h)⟩

theorem FileState.stays_put {state : FileState} {other : String} {entry : FileEntry}
    (hkey : other ≠ key) (h : state.files other f) : (state.put key entry).files other f := by
  obtain ⟨hash, hentry⟩ := h
  exact ⟨hash, by rwa [lookup_put_of_ne _ _ hkey]⟩

theorem FileState.stays_free {state : FileState} {other : String} {entry : FileEntry}
    (hfree : state.lookup key = none) (h : state.files other f) :
    (state.put key entry).files other f := by
  refine stays_put ?_ h
  rintro rfl
  obtain ⟨hash, hentry⟩ := h
  exact Option.some_ne_none _ (hentry.symm.trans hfree)

theorem files_removeReservation {handle : Handle} {state : FileState}
    (h : (FileStore.removeReservation handle state).2.files key f) : state.files key f := by
  unfold FileStore.removeReservation at h
  split at h
  · dsimp only at h
    split_ifs at h
    · obtain ⟨hash, hentry⟩ := h
      by_cases hkey : key = handle.scopedKey
      · rw [hkey, FileState.lookup_remove_self] at hentry
        cases hentry
      · rw [FileState.lookup_remove_of_ne _ hkey] at hentry
        exact ⟨hash, hentry⟩
    · exact h
  · exact h

theorem stays_removeReservation {handle : Handle} {state : FileState} (h : state.files key f) :
    (FileStore.removeReservation handle state).2.files key f := by
  unfold FileStore.removeReservation
  split
  · rename_i payloadHash hentry
    dsimp only
    split_ifs
    · obtain ⟨hash, hcached⟩ := h
      have hkey : key ≠ handle.scopedKey := by
        rintro rfl
        cases hentry.symm.trans hcached
      exact ⟨hash, by rwa [FileState.lookup_remove_of_ne _ hkey]⟩
    · exact h
  · exact h

theorem files_clearAudit {handle : Handle} {state : FileState}
    (h : (FileStore.clearAudit handle state).2.files key f) : state.files key f ∨
      key = handle.scopedKey ∧ f.payloadHash = handle.payloadHash ∧ f.pendingAudit = none ∧
        ∃ pendingAudit, state.files key { f with pendingAudit } := by
  unfold FileStore.clearAudit at h
  split at h
  · rename_i payloadHash result pendingAudit hash hentry
    split_ifs at h with hhash
    · rcases FileState.files_put h with hfiled | ⟨rfl, hash', hcached⟩
      · exact .inl hfiled
      · simp only [FileEntry.cached.injEq] at hcached
        obtain ⟨hpayload, hresult, hnone, -⟩ := hcached
        refine .inr ⟨rfl, hpayload.symm.trans hhash, hnone.symm, pendingAudit, hash, ?_⟩
        rw [hentry, hpayload, hresult]
    · exact .inl h
  · exact .inl h

theorem stays_clearAudit {handle : Handle} {state : FileState} (h : state.files key f) :
    (FileStore.clearAudit handle state).2.files key f ∨
      (FileStore.clearAudit handle state).2.files key { f with pendingAudit := none } := by
  unfold FileStore.clearAudit
  split
  · rename_i payloadHash result pendingAudit hash hentry
    split_ifs with hhash
    · by_cases hkey : key = handle.scopedKey
      · subst hkey
        obtain ⟨hash', hcached⟩ := h
        obtain ⟨hpayload, hresult, -⟩ := FileEntry.cached.inj
          (Option.some.inj (hentry.symm.trans hcached))
        refine .inr ⟨hash, ?_⟩
        rw [FileState.lookup_put_self, hpayload, hresult]
      · exact .inl (FileState.stays_put hkey h)
    · exact .inl h
  · exact .inl h

/-- The result that is given to a caller whose event was dropped is on file. -/
theorem clearAudit_result {handle : Handle} {state : FileState} {result : Json}
    (h : (FileStore.clearAudit handle state).1 = some result) :
    ∃ pendingAudit, state.files handle.scopedKey ⟨handle.payloadHash, result, pendingAudit⟩ := by
  unfold FileStore.clearAudit at h
  split at h
  · rename_i payloadHash result' pendingAudit hash hentry
    split_ifs at h with hhash
    · cases h
      exact ⟨pendingAudit, hash, by rw [hentry, hhash]⟩
  · cases h

end

namespace FileStore

variable {host : Host}

def archive (host : Host) (store : FileStore) : Archive where
  files := filesIn host store.file
  kept := store.own.promises.kept

theorem begin_archive {store store' : FileStore} {key : String} {intent : TradingIntent host}
    {answer : Except Thrown Reservation} (h : store.Begun key intent answer store') :
    (store.archive host).Keeps (store'.archive host) ∧
      (∀ result pendingAudit, answer = .ok (.cached result pendingAudit) →
        (store.archive host).files (handleFor host key intent).scopedKey
          ⟨(handleFor host key intent).payloadHash, result, pendingAudit⟩) ∧
      (answer = .ok .reserved →
        ∀ f, ¬(store.archive host).files (handleFor host key intent).scopedKey f) := by
  -- What was read and is written back.
  have hback : ∀ {state : FileState}, readState host store.file = .ok state →
      (store.archive host).Keeps (FileStore.archive host ⟨some state.encode, store.own⟩) :=
    fun hread => ⟨fun other f hf => ⟨_, .inr hread, filesIn_encode hf⟩,
      fun other f hf => ⟨_, .inl rfl, files_of_read hread hf⟩, fun _ _ h => h⟩
  cases h with
  | conflictHere | pending => exact ⟨.refl _, (fun _ _ h => by cases h), fun h => by cases h⟩
  | failed pending access =>
      refine ⟨⟨fun other f hf => ?_, fun other f hf => ?_, fun _ _ h => h⟩,
        (fun _ _ h => by cases h), fun h => by cases h⟩
      all_goals
        have hfile := congrArg Prod.snd access
        dsimp only at hfile
        simp only [archive, ← hfile] at hf ⊢
      · refine filesIn_of_access (fun state hstate => ?_) hf
        split at hstate
        · exact hstate
        · rcases FileState.files_put hstate with hfiled | ⟨-, hash, hcached⟩
          · exact hfiled
          · cases hcached
      · refine or_self_iff.mp (stays_access _ (fun state hstate => ?_) hf)
        split
        · exact hstate
        · next hfree => exact FileState.stays_free hfree hstate
  | conflict pending read | inProgress pending read | invalid pending read =>
      exact ⟨hback read, (fun _ _ h => by cases h), fun h => by cases h⟩
  | cached pending read entry_eq accepted =>
      refine ⟨hback read, fun _ _ h => ?_, fun h => by cases h⟩
      cases h
      exact ⟨_, .inr read, _, entry_eq⟩
  | reserved pending read free =>
      refine ⟨⟨fun other f hf => ⟨_, .inr read, ?_⟩, fun other f hf => ⟨_, .inl rfl, ?_⟩,
        fun _ _ h => h⟩, (fun _ _ h => by cases h), fun _ f hf => ?_⟩
      · rcases FileState.files_put (filesIn_encode hf) with hfiled | ⟨-, hash, hcached⟩
        · exact hfiled
        · cases hcached
      · exact FileState.stays_free free (files_of_read read hf)
      · obtain ⟨hash, hentry⟩ := files_of_read read hf
        exact Option.some_ne_none _ (hentry.symm.trans free)

theorem complete_archive (store : FileStore) (io : Io) (handle : Handle) (result : Json)
    (pendingAudit : Option Json) : (store.archive host).Records handle result pendingAudit
      ((store.complete host io handle result pendingAudit).2.archive host) := by
  unfold complete
  split
  · exact (Archive.Keeps.refl _).records
  · have hfiles : ∀ key f, filesIn host (withLockedState host store.file io fun state =>
        ((), state.put handle.scopedKey (.cached handle.payloadHash result pendingAudit
          (pendingAudit.map (hashPendingAudit host))))).2 key f →
        filesIn host store.file key f ∨
          key = handle.scopedKey ∧ f = ⟨handle.payloadHash, result, pendingAudit⟩ := by
      rintro key ⟨payloadHash, r, pending⟩ hf
      rcases filesIn_access hf with hfiled | ⟨state, hread, hstate⟩
      · exact .inl hfiled
      · rcases FileState.files_put hstate with hfiled | ⟨hkey, hash, hcached⟩
        · exact .inl ⟨state, .inr hread, hfiled⟩
        · cases hcached
          exact .inr ⟨hkey, rfl⟩
    have hstays : ∀ key f, key ≠ handle.scopedKey → filesIn host store.file key f →
        filesIn host (withLockedState host store.file io fun state =>
          ((), state.put handle.scopedKey (.cached handle.payloadHash result pendingAudit
            (pendingAudit.map (hashPendingAudit host))))).2 key f :=
      fun key f hkey hf => or_self_iff.mp
        (stays_access io (fun _ hstate => FileState.stays_put hkey hstate) hf)
    split
    · rename_i error file haccess
      rw [haccess] at hfiles hstays
      exact ⟨hfiles, hstays, fun _ _ hr => .inl (Promises.kept_settle_error hr)⟩
    · rename_i file haccess
      rw [haccess] at hfiles hstays
      cases pendingAudit with
      | some event => exact ⟨hfiles, hstays, fun _ _ hr => .inl hr⟩
      | none =>
          refine ⟨hfiles, hstays, fun id r hr => ?_⟩
          rcases Promises.kept_settle hr with hkept | hsettled
          · exact .inl hkept
          · cases hsettled
            exact .inr ⟨rfl, rfl⟩

/-- What an access that drops an event does to what is on file. -/
theorem releases_clearAudit (store : FileStore) (io : Io) (handle : Handle) {α : Type}
    {update : FileState → α × FileState}
    (hupdate : ∀ state, (update state).2 = (clearAudit handle state).2) {own : FileLocal}
    (hkept : ∀ id r, own.promises.kept id r → store.own.promises.kept id r ∨
      ∃ pendingAudit, filesIn host store.file handle.scopedKey
        ⟨handle.payloadHash, r, pendingAudit⟩) :
    (store.archive host).Releases handle
      (FileStore.archive host ⟨(withLockedState host store.file io update).2, own⟩) where
  files key f hf := by
    rcases filesIn_access hf with hfiled | ⟨state, hread, hstate⟩
    · exact .inl hfiled
    · rw [hupdate] at hstate
      rcases files_clearAudit hstate with hfiled | ⟨hkey, hhash, hnone, pendingAudit, hfiled⟩
      · exact .inl ⟨state, .inr hread, hfiled⟩
      · exact .inr ⟨hkey, hhash, hnone, pendingAudit, state, .inr hread, hfiled⟩
  stays key f hf := by
    rcases withLockedState_file store.file io update with hsame | ⟨state, hread, hfile⟩
    · refine .inl ?_
      change filesIn host _ key f
      rw [hsame]
      exact hf
    · rw [hupdate] at hfile
      rcases stays_clearAudit (files_of_read hread hf) with hstays | hstays
      · exact .inl ⟨_, .inl hfile, hstays⟩
      · exact .inr ⟨_, .inl hfile, hstays⟩
  kept := hkept

theorem completeAudit_archive (store : FileStore) (io : Io) (handle : Handle) :
    (store.archive host).Releases handle ((store.completeAudit host io handle).2.archive host) := by
  have hreleases := fun own => @releases_clearAudit host store io handle _ (clearAudit handle)
    (fun _ => rfl) own
  unfold completeAudit
  split
  · rename_i error file haccess
    rw [haccess] at hreleases
    split
    · exact hreleases _ fun _ _ hr => .inl hr
    · exact hreleases _ fun _ _ hr => .inl (Promises.kept_settle_error hr)
  · rename_i result file haccess
    obtain ⟨state, hread, hresult, -⟩ := withLockedState_ok haccess
    rw [haccess] at hreleases
    split
    · exact hreleases _ fun _ _ hr => .inl hr
    · refine hreleases _ fun id r hr => ?_
      rcases Promises.kept_settle hr with hkept | hsettled
      · exact .inl hkept
      · cases result with
        | none => cases hsettled
        | some result =>
            cases hsettled
            obtain ⟨pendingAudit, hfiled⟩ := clearAudit_result hresult.symm
            exact .inr ⟨pendingAudit, state, .inr hread, hfiled⟩

theorem cachedCompleteAudit_archive (store : FileStore) (io : Io) (handle : Handle) :
    (store.archive host).Releases handle
      ((store.cachedCompleteAudit host io handle).2.archive host) := by
  have hreleases := fun own => @releases_clearAudit host store io handle _
    (fun state => ((), (clearAudit handle state).2)) (fun _ => rfl) own
  unfold cachedCompleteAudit
  split <;> rename_i haccess <;> rw [haccess] at hreleases <;>
    exact hreleases _ fun _ _ hr => .inl hr

theorem failAudit_archive (store : FileStore) (handle : Handle) (error : Thrown) :
    (store.archive host).Keeps ((store.failAudit handle error).archive host) := by
  unfold failAudit
  split
  · exact .refl _
  · exact ⟨fun _ _ h => h, fun _ _ h => h, fun _ _ hr => Promises.kept_settle_error hr⟩

theorem abort_archive (store : FileStore) (io : Io) (handle : Handle) (error : Thrown) :
    (store.archive host).Keeps ((store.abort host io handle error).2.archive host) := by
  have hfiles : ∀ key f, filesIn host
      (withLockedState host store.file io (removeReservation handle)).2 key f →
      filesIn host store.file key f :=
    fun key f => filesIn_of_access fun _ => files_removeReservation
  have hstays : ∀ key f, filesIn host store.file key f → filesIn host
      (withLockedState host store.file io (removeReservation handle)).2 key f :=
    fun key f hf => or_self_iff.mp (stays_access io (fun _ => stays_removeReservation) hf)
  unfold abort
  split
  · exact .refl _
  · dsimp only
    split <;> rename_i haccess <;> rw [haccess] at hfiles hstays <;>
      exact ⟨hfiles, hstays, fun _ _ hr => Promises.kept_settle_error hr⟩

end FileStore
end TradingGuardrails
