import TradingGuardrails.Audit.Migration

/-!
Constructions that are interrupted and followed by others. The steps before the backfill may be
cut off anywhere, since each looks for what is already there. The updates of the backfill are
not one transaction: where some of them are done and others not, no later construction goes on.
-/
namespace TradingGuardrails

open Text Interleaving

namespace Migration

variable {M : Migrator} {host : Host} {options : AuditWriterOptions}

structure Near (options : AuditWriterOptions) (db s : AuditDatabase) : Prop where
  events : s.events = db.events
  columns : ∀ column ∈ db.eventColumns, column ∈ s.eventColumns
  anchor : options.repairHashAnchor = false → s.anchor = db.anchor

theorem Near.refl (db : AuditDatabase) : Near options db db :=
  ⟨rfl, fun _ h => h, fun _ => rfl⟩

theorem Near.trans {db s s' : AuditDatabase} (h : Near options db s) (h' : Near options s s') :
    Near options db s' :=
  ⟨h'.events.trans h.events, fun column hcolumn => h'.columns column (h.columns column hcolumn),
    fun hrepair => (h'.anchor hrepair).trans (h.anchor hrepair)⟩

theorem Near.eventIds {db s : AuditDatabase} (h : Near options db s) :
    s.eventIds = db.eventIds := by
  rw [AuditDatabase.eventIds, AuditDatabase.table, h.events]
  rfl

variable {P : AuditDatabase → Prop} {err : AuditDatabase → Thrown → Prop} {db : AuditDatabase}

theorem through_statement {α : Type} {ok : AuditDatabase → α → Prop} {op : M.Statement}
    {f : M.Answer op → Sql M α} (hs : P db)
    (h : Routine.Through M.execute P ok err (M.execute op db).2 () (f (M.execute op db).1)) :
    Routine.Through M.execute P ok err db () (statement op >>= f) :=
  Routine.through_bind ⟨hs, h.start, h⟩

/-- The middle of `addMissing`: the columns that are left, among those that were there and
those that were added. -/
structure Adding (before after columns rest : List String) : Prop where
  once : rest.Nodup
  kept : ∀ column ∈ before, column ∈ after
  old : ∀ column ∈ rest, column ∈ after → column ∈ before
  done : ∀ column ∈ columns, column ∈ rest ∨ column ∈ after

theorem Adding.next {before after after' columns rest : List String} {column : String}
    (h : Adding before after columns (column :: rest))
    (hafter : ∀ other, other ∈ after' ↔ other ∈ after ∨ other = column) :
    Adding before after' columns rest := by
  obtain ⟨hnew, honce⟩ := List.nodup_cons.mp h.once
  refine ⟨honce, fun other hother => (hafter other).mpr (.inl (h.kept other hother)),
    fun other hother hin => ?_, fun other hother => ?_⟩
  · rcases (hafter other).mp hin with hbefore | rfl
    · exact h.old other (List.mem_cons_of_mem _ hother) hbefore
    · exact absurd hother hnew
  · rcases h.done other hother with hmem | hnamed
    · rcases List.mem_cons.mp hmem with rfl | hmem
      · exact .inr ((hafter other).mpr (.inr rfl))
      · exact .inl hmem
    · exact .inr ((hafter other).mpr (.inl hnamed))

/-- Missing columns are added one by one, and those that are there are left alone. -/
theorem addMissing_through {names : AuditDatabase → List String}
    {add : String → Sql M Unit} (hadd : ∀ s column, P s → column ∉ names s →
      Routine.Through M.execute P (fun s' _ => names s' = names s ++ [column]) err s ()
        (add column))
    {columns : List String} (hnodup : columns.Nodup) {s : AuditDatabase} (hs : P s) :
    Routine.Through M.execute P (fun s' _ => ∀ column ∈ columns, column ∈ names s') err s ()
      (addMissing add (names s) columns) := by
  have hstart : P s ∧ Adding (names s) (names s) columns columns :=
    ⟨hs, hnodup, fun _ h => h, fun _ _ h => h, fun _ h => .inl h⟩
  have hfor : Routine.Through M.execute P
      (fun s' _ => P s' ∧ Adding (names s) (names s') columns []) err s ()
      (addMissing add (names s) columns) := by
    refine Routine.through_forM
      (I := fun rest s' => P s' ∧ Adding (names s) (names s') columns rest)
      (fun _ _ h => h.1) ?_ hstart
    intro column rest s' h
    by_cases hthere : column ∈ names s
    · rw [if_pos hthere]
      refine Routine.through_pure h.1 ⟨h.1, h.2.next fun other => ⟨.inl, ?_⟩⟩
      rintro (hother | rfl)
      · exact hother
      · exact h.2.kept other hthere
    · rw [if_neg hthere]
      have hnew : column ∉ names s' := fun hin => hthere (h.2.old column List.mem_cons_self hin)
      refine (hadd s' column h.1 hnew).mono (fun _ h => h) (fun s'' _ hs'' hnames => ?_)
        fun _ _ _ h => h
      refine ⟨hs'', h.2.next fun other => ?_⟩
      rw [hnames, List.mem_append, List.mem_singleton]
  refine hfor.mono (fun _ h => h) (fun s' _ _ h column hcolumn => ?_) fun _ _ _ h => h
  exact (h.2.done column hcolumn).resolve_left List.not_mem_nil

theorem addEventColumn_through {db₀ s : AuditDatabase} {column : String}
    (hs : Near options db₀ s) (hnew : column ∉ s.eventColumns) :
    Routine.Through M.execute (Near options db₀)
      (fun s' _ => s'.eventColumns = s.eventColumns ++ [column]) err s ()
      (addEventColumn column : Sql M Unit) := by
  have hexec : s.addEventColumn column =
      (.ok (), { s with eventColumns := s.eventColumns ++ [column] }) := if_neg hnew
  refine through_statement hs ?_
  change Routine.Through M.execute _ _ err (s.addEventColumn column).2 ()
    (Routine.ofExcept (s.addEventColumn column).1)
  rw [hexec]
  refine Routine.through_pure ⟨hs.events, fun other hother => ?_, hs.anchor⟩ rfl
  exact List.mem_append_left _ (hs.columns other hother)

structure Tabled (options : AuditWriterOptions) (db₀ s : AuditDatabase) : Prop
    extends Near options db₀ s where
  tabled : s.migrationColumns.isSome = true

theorem addMigrationColumn_through {db₀ s : AuditDatabase} {column : String}
    (hs : Tabled options db₀ s) (hnew : column ∉ s.migrationColumns.getD []) :
    Routine.Through M.execute (Tabled options db₀)
      (fun s' _ => s'.migrationColumns.getD [] = s.migrationColumns.getD [] ++ [column]) err s ()
      (addMigrationColumn column : Sql M Unit) := by
  obtain ⟨columns, hcolumns⟩ := Option.isSome_iff_exists.mp hs.tabled
  rw [hcolumns, Option.getD_some] at hnew
  have hexec : s.addMigrationColumn column =
      (.ok (), { s with migrationColumns := some (columns ++ [column]) }) := by
    rw [AuditDatabase.addMigrationColumn, hcolumns]
    exact if_neg hnew
  refine through_statement hs ?_
  change Routine.Through M.execute _ _ err (s.addMigrationColumn column).2 ()
    (Routine.ofExcept (s.addMigrationColumn column).1)
  rw [hexec]
  refine Routine.through_pure ⟨⟨hs.events, hs.columns, hs.anchor⟩, rfl⟩ ?_
  rw [hcolumns]
  rfl

theorem ensureMigrationTable_through {db₀ s : AuditDatabase} (hs : Near options db₀ s) :
    Routine.Through M.execute (Near options db₀)
      (fun s' _ => "hash" ∈ s'.migrationColumns.getD [] ∧
        "created_at" ∈ s'.migrationColumns.getD []) err s ()
      (ensureMigrationTable : Sql M Unit) := by
  have htabled : Tabled options db₀ s.createMigrationTable := by
    unfold AuditDatabase.createMigrationTable
    cases hcolumns : s.migrationColumns with
    | none => exact ⟨⟨hs.events, hs.columns, hs.anchor⟩, rfl⟩
    | some columns => exact ⟨hs, by rw [hcolumns]; rfl⟩
  refine through_statement hs ?_
  refine Routine.through_bind (Routine.through_pure htabled.toNear ?_)
  refine through_statement htabled.toNear ?_
  have hadded : Routine.Through M.execute (Tabled options db₀)
      (fun s' _ => ∀ column ∈ ["id", "hash", "created_at"],
        column ∈ s'.migrationColumns.getD [])
      err s.createMigrationTable () (addMissing addMigrationColumn
        (s.createMigrationTable.migrationColumns.getD []) ["id", "hash", "created_at"]) :=
    @addMissing_through M _ err (fun s => s.migrationColumns.getD []) _
      (fun _ _ hs hnew => addMigrationColumn_through hs hnew) _ (by decide) _ htabled
  refine hadded.mono (fun _ h => h.toNear) (fun s' _ _ h => ?_) fun _ _ _ h => h
  exact ⟨h "hash" (by simp), h "created_at" (by simp)⟩

theorem insertBaseline_through {db₀ s : AuditDatabase} (hs : Near options db₀ s)
    (hhash : "hash" ∈ s.migrationColumns.getD [])
    (hcreated : "created_at" ∈ s.migrationColumns.getD []) :
    Routine.Through M.execute (Near options db₀) (fun s' _ => M.baseline ∈ s'.migrations) err
      s () (insertBaseline : Sql M Unit) := by
  have hexec : s.insertMigration M.baseline =
      (.ok (), { s with migrations := s.migrations ++ [M.baseline] }) := by
    rw [AuditDatabase.insertMigration, if_neg (not_not.mpr hhash), if_neg (not_not.mpr hcreated)]
  refine through_statement hs ?_
  change Routine.Through M.execute _ _ err (s.insertMigration M.baseline).2 ()
    (Routine.ofExcept (s.insertMigration M.baseline).1)
  rw [hexec]
  exact Routine.through_pure ⟨hs.events, hs.columns, hs.anchor⟩
    (List.mem_append_right _ List.mem_cons_self)

theorem ensureColumns_through {db₀ s : AuditDatabase} (hs : Near options db₀ s)
    {columns : List String} (hnodup : columns.Nodup) :
    Routine.Through M.execute (Near options db₀)
      (fun s' _ => ∀ column ∈ columns, column ∈ s'.eventColumns) err s ()
      (addMissing addEventColumn s.eventColumns columns : Sql M Unit) :=
  @addMissing_through M _ err AuditDatabase.eventColumns _
    (fun _ _ hs hnew => addEventColumn_through hs hnew) _ hnodup _ hs

theorem createEventIdIndex_ok (hids : db.eventIds.Nodup) :
    db.createEventIdIndex.1 = .ok () ∧ Near options db db.createEventIdIndex.2 := by
  unfold AuditDatabase.createEventIdIndex
  by_cases hindex : db.eventIdIndex = true
  · rw [if_pos hindex]
    exact ⟨rfl, .refl db⟩
  · rw [if_neg hindex, if_pos hids]
    exact ⟨rfl, rfl, fun _ h => h, fun _ => rfl⟩

theorem recordBaseline_through {db₀ s : AuditDatabase} (hs : Near options db₀ s)
    (hids : db₀.eventIds.Nodup) :
    Routine.Through M.execute (Near options db₀) (fun s' _ => M.baseline ∈ s'.migrations) err
      s () (recordBaseline : Sql M Unit) := by
  refine through_statement hs (Routine.through_bind ?_)
  refine (ensureColumns_through hs (by decide)).mono (fun _ h => h) (fun s₁ _ hs₁ _ => ?_)
    fun _ _ _ h => h
  obtain ⟨hcreated, hindexed⟩ := createEventIdIndex_ok (hs₁.eventIds ▸ hids)
  have hnear := hs₁.trans hindexed
  refine through_statement hs₁ (Routine.through_bind ?_)
  change Routine.Through M.execute _ _ err s₁.createEventIdIndex.2 ()
    (Routine.ofExcept s₁.createEventIdIndex.1)
  rw [hcreated]
  refine Routine.through_pure hnear (Routine.through_bind ?_)
  refine (ensureMigrationTable_through hnear).mono (fun _ h => h)
    (fun s₂ _ hs₂ hcolumns => ?_) fun _ _ _ h => h
  refine through_statement hs₂ ?_
  change Routine.Through M.execute _ _ err s₂ ()
    (if s₂.migrations.contains M.baseline = true then pure () else insertBaseline)
  by_cases hfound : s₂.migrations.contains M.baseline = true
  · rw [if_pos hfound]
    exact Routine.through_pure hs₂ (List.contains_iff_mem.mp hfound)
  · rw [if_neg hfound]
    exact insertBaseline_through hs₂ hcolumns.1 hcolumns.2

theorem migrateProgram_through {α : Type} {post : AuditDatabase → α → Prop}
    {p : Program M.Op M.Ans α} {s : AuditDatabase} (h : p.Through M.exec P post s) :
    (migrateProgram p).Through M.execute P post s := by
  induction p generalizing s with
  | done v => exact h
  | act op next ih => exact ⟨h.1, ih _ h.2⟩

theorem migrate_through {db₀ s : AuditDatabase} (hs : Near options db₀ s)
    (hbaseline : M.baseline ∈ s.migrations) :
    Routine.Through M.execute (Near options db₀) (fun _ _ => True) err s ()
      (migrate : Sql M Unit) := by
  refine Program.Through.bind (migrateProgram_through ?_)
  refine (M.applied s hbaseline).mono ?_ ?_
  · rintro _ rfl
    exact hs
  · rintro _ r rfl hr
    rw [hr]
    exact ⟨hs, trivial⟩

/-- The steps before the backfill succeed, and leave the rows as they are wherever they are
cut off. -/
theorem prepareSchema_through {db : AuditDatabase} (hids : db.eventIds.Nodup) :
    Routine.Through M.execute (Near options db) (fun s _ => "event_hash" ∈ s.eventColumns)
      (fun _ _ => False) db () (prepareSchema : Sql M Unit) := by
  refine Routine.through_bind (through_statement (Near.refl db) ?_)
  refine (recordBaseline_through (Near.refl db) hids).mono (fun _ h => h)
    (fun s₁ _ hs₁ hbaseline => Routine.through_bind ?_) fun _ _ _ h => h
  refine (migrate_through hs₁ hbaseline).mono (fun _ h => h) (fun s₂ _ hs₂ _ => ?_)
    fun _ _ _ h => h
  refine through_statement hs₂ ?_
  refine (ensureColumns_through hs₂ (by decide)).mono (fun _ h => h) (fun s₃ _ _ h => ?_)
    fun _ _ _ h => h
  exact h "event_hash" (by simp)

variable (host options) in
def sealedFrom (previousHash : String) :
    List (Int × AuditEventRow) → List (Int × AuditEventRow)
  | [] => []
  | event :: events =>
      let eventHash := hashBehind host options previousHash event.2
      (event.1, AuditDatabase.sealed event.2 previousHash eventHash) ::
        sealedFrom eventHash events

theorem length_sealedFrom (previousHash : String) (events : List (Int × AuditEventRow)) :
    (sealedFrom host options previousHash events).length = events.length := by
  induction events generalizing previousHash with
  | nil => rfl
  | cons event events ih => exact congrArg Nat.succ (ih _)

structure Updatable (db : AuditDatabase) : Prop where
  previousHash : "previous_hash" ∈ db.eventColumns
  eventHash : "event_hash" ∈ db.eventColumns

theorem updateEvent_ok (hcolumns : Updatable db) {done rest : List (Int × AuditEventRow)}
    {event : Int × AuditEventRow} (hevents : db.events = done ++ event :: rest)
    (hids : ((done ++ event :: rest).map Prod.fst).Nodup) (previousHash eventHash : String) :
    db.updateEvent event.1 previousHash eventHash = (.ok (), { db with events :=
      done ++ (event.1, AuditDatabase.sealed event.2 previousHash eventHash) :: rest }) := by
  rw [AuditDatabase.updateEvent, if_neg (not_not.mpr hcolumns.previousHash),
    if_neg (not_not.mpr hcolumns.eventHash), hevents]
  have hothers : ∀ others : List (Int × AuditEventRow), event.1 ∉ others.map Prod.fst →
      others.map (fun other => if other.1 = event.1 then
        (other.1, AuditDatabase.sealed other.2 previousHash eventHash) else other) = others := by
    intro others hnot
    refine (List.map_congr_left fun other hother => if_neg fun heq => hnot ?_).trans
      (List.map_id others)
    exact List.mem_map.mpr ⟨other, hother, heq⟩
  rw [List.map_append, List.map_cons, List.nodup_append] at hids
  obtain ⟨-, hrest, hapart⟩ := hids
  rw [List.map_append, List.map_cons, hothers done fun hin => ?_,
    hothers rest (List.nodup_cons.mp hrest).1, if_pos rfl]
  exact hapart _ hin _ List.mem_cons_self rfl

structure Progressed (host : Host) (options : AuditWriterOptions) (db : AuditDatabase)
    (done : List (Int × AuditEventRow)) (previousHash : String)
    (rest : List (Int × AuditEventRow)) (n : Nat) (s : AuditDatabase) : Prop where
  events : s.events = done ++ (sealedFrom host options previousHash rest).take n ++ rest.drop n
  columns : s.eventColumns = db.eventColumns
  anchor : s.anchor = db.anchor

variable (host options) in
/-- The first update, and the others on the table that it leaves. -/
theorem sealRows_cons {done rest : List (Int × AuditEventRow)} {event : Int × AuditEventRow}
    (hcolumns : Updatable db) (hevents : db.events = done ++ event :: rest)
    (hids : ((done ++ event :: rest).map Prod.fst).Nodup) (previousHash : String) :
    ∃ next : M.Answer (.updateEvent event.1 previousHash
        (hashBehind host options previousHash event.2)) →
          Program M.Statement M.Answer (Except Thrown Unit × Unit), ∃ db' : AuditDatabase,
      sealRows host options previousHash (event :: rest) () = .act _ next ∧
      next (M.execute (.updateEvent event.1 previousHash
        (hashBehind host options previousHash event.2)) db).1 =
          sealRows host options (hashBehind host options previousHash event.2) rest () ∧
      (M.execute (.updateEvent event.1 previousHash
        (hashBehind host options previousHash event.2)) db).2 = db' ∧
      db'.eventColumns = db.eventColumns ∧ db'.anchor = db.anchor ∧
      db'.events = (done ++ [(event.1, AuditDatabase.sealed event.2 previousHash
        (hashBehind host options previousHash event.2))]) ++ rest := by
  have hupdate := updateEvent_ok hcolumns hevents hids previousHash
    (hashBehind host options previousHash event.2)
  refine ⟨_, _, rfl, ?_, rfl, ?_⟩
  · change (Routine.ofExcept (db.updateEvent event.1 previousHash
      (hashBehind host options previousHash event.2)).1 >>= fun _ =>
        sealRows host options _ rest) () = _
    rw [hupdate]
    rfl
  · change (db.updateEvent event.1 previousHash _).2.eventColumns = _ ∧
      (db.updateEvent event.1 previousHash _).2.anchor = _ ∧
      (db.updateEvent event.1 previousHash _).2.events = _
    rw [hupdate]
    exact ⟨rfl, rfl, by rw [List.append_assoc]; rfl⟩

theorem nodup_sealed {done rest : List (Int × AuditEventRow)} {event : Int × AuditEventRow}
    (hids : ((done ++ event :: rest).map Prod.fst).Nodup) (row : AuditEventRow) :
    (((done ++ [(event.1, row)]) ++ rest).map Prod.fst).Nodup := by
  simpa [List.append_assoc] using hids

/-- The updates one after the other: each of them seals the next row. -/
theorem sealRows_cut {done rest : List (Int × AuditEventRow)} {previousHash : String}
    (hcolumns : Updatable db) (hevents : db.events = done ++ rest)
    (hids : ((done ++ rest).map Prod.fst).Nodup) (n : Nat) :
    Progressed host options db done previousHash rest n
      (Program.cut M.execute n (sealRows host options previousHash rest ()) db) := by
  induction rest generalizing done previousHash n db with
  | nil =>
      rw [sealRows]
      refine ⟨?_, by simp [pure], by simp [pure]⟩
      simpa [sealedFrom, pure] using hevents
  | cons event rest ih =>
      cases n with
      | zero => exact ⟨by simpa using hevents, by simp, by simp⟩
      | succ n =>
          obtain ⟨next, db', hact, hnext, hdb', hsame, hanchor, hevents'⟩ :=
            sealRows_cons (M := M) host options hcolumns hevents hids previousHash
          rw [hact, Program.cut, hnext, hdb']
          have hcolumns' : Updatable db' :=
            ⟨hsame ▸ hcolumns.previousHash, hsame ▸ hcolumns.eventHash⟩
          have hrest : Progressed host options db' _
              (hashBehind host options previousHash event.2) rest n _ :=
            ih hcolumns' hevents' (nodup_sealed hids _) n
          refine ⟨?_, hrest.columns.trans hsame, hrest.anchor.trans hanchor⟩
          rw [hrest.events, sealedFrom, List.take_succ_cons, List.drop_succ_cons]
          simp only [List.append_assoc, List.cons_append, List.nil_append]

theorem sealRows_run {done rest : List (Int × AuditEventRow)} {previousHash : String}
    (hcolumns : Updatable db) (hevents : db.events = done ++ rest)
    (hids : ((done ++ rest).map Prod.fst).Nodup) :
    (sealRows host options previousHash rest ()).steps M.execute db = rest.length ∧
      (Routine.outcome M.execute (sealRows host options previousHash rest) () db).1 = .ok () := by
  induction rest generalizing done previousHash db with
  | nil => exact ⟨rfl, rfl⟩
  | cons event rest ih =>
      obtain ⟨next, db', hact, hnext, hdb', hsame, -, hevents'⟩ :=
        sealRows_cons (M := M) host options hcolumns hevents hids previousHash
      have hcolumns' : Updatable db' :=
        ⟨hsame ▸ hcolumns.previousHash, hsame ▸ hcolumns.eventHash⟩
      have hrest := @ih db' _ (hashBehind host options previousHash event.2) hcolumns' hevents'
        (nodup_sealed hids _)
      obtain ⟨hsteps, hok⟩ := hrest
      rw [Routine.outcome] at hok ⊢
      rw [hact, Program.steps, Program.run, hnext, hdb', hsteps]
      exact ⟨rfl, hok⟩

def Unsealed (db : AuditDatabase) : Prop :=
  ∀ event ∈ db.events, event.2.eventHash = none

/-- What a construction needs of the table to get through its statements. -/
structure Ready (db : AuditDatabase) : Prop where
  ids : (db.events.map Prod.fst).Nodup
  eventIds : db.eventIds.Nodup
  previousHash : "previous_hash" ∈ db.eventColumns

def preparing (M : Migrator) (db : AuditDatabase) : Nat :=
  (prepareSchema () : Program M.Statement M.Answer _).steps M.execute db + 1

theorem construct_eq : (construct host options : Sql M String) () =
    (initSchema host options >>= fun _ => recover host options) () := by
  rw [construct, options.secretAccepted, options.anchorAccepted]
  rfl

theorem backfillRows_unsealed {events : List (Int × AuditEventRow)}
    (h : ∀ event ∈ events, event.2.eventHash = none) :
    (backfillRows host options events : Sql M Unit) = sealRows host options zeroHash events := by
  cases events with
  | nil => rfl
  | cons event events =>
      have hfirst : isSealed event = false := by
        rw [isSealed, h event List.mem_cons_self]
        rfl
      have hnone : ¬ (event :: events).any isSealed = true := by
        rw [List.any_eq_true]
        rintro ⟨other, hother, hsealed⟩
        rw [isSealed, h other hother] at hsealed
        cases hsealed
      rw [backfillRows, if_neg, if_neg hnone]
      rw [List.all_cons, hfirst]
      exact Bool.false_ne_true

/-- The anchor is replaced only where the options ask for it. -/
theorem repair_of_verify {anchored repair : Bool} {anchor : Option String} {lastHash : String}
    (h : verifyAnchoredHash anchored anchor lastHash repair = .ok true) : repair = true := by
  cases repair with
  | true => rfl
  | false =>
      unfold verifyAnchoredHash at h
      cases anchor with
      | none =>
          by_cases hzero : lastHash = zeroHash
          · cases anchored <;> simp [hzero] at h
          · cases anchored <;> simp [hzero] at h
      | some anchoredHash =>
          by_cases hsame : anchoredHash = lastHash
          · cases anchored <;> simp [hsame] at h
          · cases anchored <;> simp [hsame] at h

theorem writeAnchor_through {s : AuditDatabase} {lastHash : String}
    (hrepair : options.repairHashAnchor = true) :
    Routine.Through M.execute (Near options s) (fun _ _ => True) (fun _ _ => True) s ()
      (do
        let answer : Except Thrown Unit ← statement (M := M) (.writeAnchor lastHash)
        Routine.ofExcept answer) := by
  refine through_statement (Near.refl s) (Routine.through_pure ⟨rfl, fun _ h => h, ?_⟩ trivial)
  rw [hrepair]
  exact fun h => by cases h

theorem verifyAnchor_through {s : AuditDatabase} {lastHash : String} :
    Routine.Through M.execute (Near options s) (fun _ _ => True) (fun _ _ => True) s ()
      (verifyAnchor options lastHash : Sql M Unit) := by
  refine through_statement (Near.refl s) (Routine.through_bind ?_)
  refine Routine.through_ofExcept (Near.refl s) (fun repair hrepair => ?_) fun _ _ => trivial
  cases repair with
  | true => exact writeAnchor_through (repair_of_verify hrepair)
  | false => exact Routine.through_pure (Near.refl s) trivial

/-- After the backfill no statement changes a row. -/
theorem recover_through (s : AuditDatabase) :
    Routine.Through M.execute (Near options s) (fun _ _ => True) (fun _ _ => True) s ()
      (recover host options : Sql M String) := by
  refine through_statement (Near.refl s) (Routine.through_bind ?_)
  refine Routine.through_ofExcept (Near.refl s) (fun lastHash _ => ?_) fun _ _ => trivial
  refine Routine.through_bind (verifyAnchor_through.mono (fun _ h => h) (fun _ _ hs _ => ?_)
    fun _ _ _ h => h)
  exact Routine.through_pure hs trivial

/-- A construction that finds a sealed row changes none. -/
theorem construct_through (hready : Ready db) (hsealed : ¬ Unsealed db) :
    Routine.Through M.execute (Near options db) (fun _ _ => True) (fun _ _ => True) db ()
      (construct host options : Sql M String) := by
  have hany : db.events.any isSealed = true := by
    unfold Unsealed at hsealed
    simp only [not_forall] at hsealed
    obtain ⟨event, hevent, hhash⟩ := hsealed
    exact List.any_eq_true.mpr ⟨event, hevent, Option.isSome_iff_ne_none.mpr hhash⟩
  have hback : ∀ s, Near options db s → Routine.Through M.execute (Near options db)
      (fun _ _ => True) (fun _ _ => True) s ()
      (backfillRows host options db.events : Sql M Unit) := by
    intro s hs
    unfold backfillRows
    by_cases hall : db.events.all isSealed = true
    · rw [if_pos hall]
      exact Routine.through_pure hs trivial
    · rw [if_neg hall, if_pos hany]
      exact Routine.through_throw hs trivial
  unfold Routine.Through
  rw [construct_eq]
  refine Routine.through_bind (Routine.through_bind ?_)
  refine (prepareSchema_through hready.eventIds).mono (fun _ h => h) (fun s₁ _ hs₁ _ => ?_)
    fun _ _ _ h => h.elim
  refine through_statement hs₁ ?_
  change Routine.Through M.execute _ _ _ s₁ () (backfillRows host options s₁.events)
  rw [hs₁.events]
  refine (hback s₁ hs₁).mono (fun _ h => h) (fun s₂ _ hs₂ _ => ?_) fun _ _ _ _ => trivial
  exact (recover_through s₂).mono (fun _ h => hs₂.trans h) (fun _ _ _ _ => trivial)
    fun _ _ _ _ => trivial

/-- What a construction leaves that is cut off on an unsealed table. -/
structure Reached (host : Host) (options : AuditWriterOptions) (db : AuditDatabase) (sealing : Nat)
    (s : AuditDatabase) : Prop where
  events : s.events = (sealedFrom host options zeroHash db.events).take sealing ++
    db.events.drop sealing
  columns : ∀ column ∈ db.eventColumns, column ∈ s.eventColumns
  anchor : options.repairHashAnchor = false → s.anchor = db.anchor

theorem Reached.of_near {s : AuditDatabase} (h : Near options db s) :
    Reached host options db 0 s :=
  ⟨by simpa using h.events, h.columns, h.anchor⟩

theorem Reached.near {s s' : AuditDatabase} {sealing : Nat} (h : Reached host options db sealing s)
    (hs : Near options s s') : Reached host options db sealing s' :=
  ⟨hs.events.trans h.events, fun column hcolumn => hs.columns column (h.columns column hcolumn),
    fun hrepair => (hs.anchor hrepair).trans (h.anchor hrepair)⟩

/-- The steps before the backfill, as one. -/
theorem prepareSchema_outcome (hready : Ready db) : ∃ s,
    Routine.outcome M.execute (prepareSchema : Sql M Unit) () db = (.ok (), s) ∧
      Near options db s ∧ Updatable s := by
  obtain ⟨_, s, hrun, hnear, hcolumn⟩ := (prepareSchema_through hready.eventIds).returns
  exact ⟨s, hrun, hnear, hnear.columns _ hready.previousHash, hcolumn⟩

/-- The backfill of an unsealed table, wherever it is cut off. -/
theorem backfill_reached {s : AuditDatabase} (hids : (s.events.map Prod.fst).Nodup)
    (hunsealed : Unsealed s) (hcolumns : Updatable s) :
    (∀ n, Reached host options s (n - 1) (Program.cut M.execute n
      (backfillLegacyEventHashes host options ()) s)) ∧
    (backfillLegacyEventHashes host options () : Program M.Statement M.Answer _).steps
      M.execute s = s.events.length + 1 ∧
    (Routine.outcome M.execute (backfillLegacyEventHashes host options) () s).1 = .ok () := by
  have hrows : (backfillRows host options s.events : Sql M Unit) =
      sealRows host options zeroHash s.events := backfillRows_unsealed hunsealed
  obtain ⟨hsteps, hok⟩ := @sealRows_run M host options s [] s.events zeroHash hcolumns rfl hids
  refine ⟨fun n => ?_, ?_, ?_⟩
  · cases n with
    | zero => exact Reached.of_near (by rw [Program.cut_zero]; exact .refl s)
    | succ n =>
        change Reached host options s n
          (Program.cut M.execute n (backfillRows host options s.events ()) s)
        rw [hrows]
        have hcut := @sealRows_cut M host options s [] s.events zeroHash hcolumns rfl hids n
        exact ⟨by rw [hcut.events, List.nil_append],
          fun column hcolumn => hcut.columns ▸ hcolumn, fun _ => hcut.anchor⟩
  · change (backfillRows host options s.events ()).steps M.execute s + 1 = _
    rw [hrows, hsteps]
  · change (Routine.outcome M.execute (backfillRows host options s.events) () s).1 = _
    rw [hrows, hok]

theorem Reached.from_near {s s' : AuditDatabase} {sealing : Nat} (h : Near options db s)
    (hs : Reached host options s sealing s') : Reached host options db sealing s' :=
  ⟨by rw [hs.events, h.events],
    fun column hcolumn => hs.columns column (h.columns column hcolumn),
    fun hrepair => (hs.anchor hrepair).trans (h.anchor hrepair)⟩

/-- Updates beyond the last row are none. -/
theorem Reached.beyond {s : AuditDatabase} {n m : Nat} (h : Reached host options db n s)
    (hn : db.events.length ≤ n) (hm : db.events.length ≤ m) : Reached host options db m s := by
  refine ⟨?_, h.columns, h.anchor⟩
  rw [h.events, List.drop_eq_nil_of_le hn, List.drop_eq_nil_of_le hm,
    List.take_of_length_le ((length_sealedFrom _ _).trans_le hn),
    List.take_of_length_le ((length_sealedFrom _ _).trans_le hm)]

theorem initSchema_reached (hready : Ready db) (hunsealed : Unsealed db) :
    (∀ n, Reached host options db (n - preparing M db)
      (Program.cut M.execute n (initSchema host options ()) db)) ∧
    (initSchema host options () : Program M.Statement M.Answer _).steps M.execute db =
      preparing M db + db.events.length ∧
    ∃ s, Routine.outcome M.execute (initSchema host options) () db = (.ok (), s) ∧
      Reached host options db db.events.length s := by
  obtain ⟨s₁, hrun, hnear, hcolumns⟩ := @prepareSchema_outcome M options db hready
  have hunsealed₁ : Unsealed s₁ := by
    unfold Unsealed
    rw [hnear.events]
    exact hunsealed
  obtain ⟨hcut, hsteps, hok⟩ := @backfill_reached M host options s₁
    (hnear.events ▸ hready.ids) hunsealed₁ hcolumns
  rw [hnear.events] at hsteps
  have hlast := hcut (db.events.length + 1)
  rw [Program.cut_run M.execute (Nat.le_of_eq hsteps)] at hlast
  refine ⟨fun n => ?_, ?_, _, (Routine.outcome_bind hrun).trans (Prod.ext hok rfl),
    hlast.from_near hnear⟩
  · have hsplit := Routine.cut_bind (f := fun _ => backfillLegacyEventHashes host options) hrun n
    change Reached host options db (n - preparing M db) (Program.cut M.execute n
      ((prepareSchema >>= fun _ => backfillLegacyEventHashes host options) ()) db)
    rw [hsplit, preparing]
    by_cases hn : n ≤ (prepareSchema () : Program M.Statement M.Answer _).steps M.execute db
    · rw [if_pos hn, Nat.sub_eq_zero_of_le (Nat.le_succ_of_le hn)]
      exact Reached.of_near ((prepareSchema_through hready.eventIds).cut n)
    · rw [if_neg hn, Nat.sub_add_eq]
      exact (hcut _).from_near hnear
  · have hsplit := Routine.steps_bind (f := fun _ => backfillLegacyEventHashes host options) hrun
    change ((prepareSchema >>= fun _ => backfillLegacyEventHashes host options) ()).steps
      M.execute db = _
    rw [hsplit, hsteps, preparing]
    omega

/-- A construction on an unsealed table, wherever it is cut off: the rows of as many updates as
were executed are sealed. -/
theorem construct_reached (hready : Ready db) (hunsealed : Unsealed db) (n : Nat) :
    Reached host options db (n - preparing M db)
      (Program.cut M.execute n (construct host options ()) db) := by
  obtain ⟨hcut, hsteps, s, hrun, hs⟩ := @initSchema_reached M host options db hready hunsealed
  rw [construct_eq, Routine.cut_bind hrun, hsteps]
  by_cases hn : n ≤ preparing M db + db.events.length
  · rw [if_pos hn]
    exact hcut n
  · rw [if_neg hn]
    exact (hs.near ((recover_through s).cut _)).beyond (Nat.le_refl _) (by omega)

/-- A construction on a sealed table seals nothing. -/
theorem initSchema_sealed (hready : Ready db) (hsealed : db.events.all isSealed = true) :
    ∃ s, Routine.outcome M.execute (initSchema host options) () db = (.ok (), s) ∧
      Near options db s := by
  obtain ⟨s₁, hrun, hnear, -⟩ := @prepareSchema_outcome M options db hready
  refine ⟨s₁, (Routine.outcome_bind hrun).trans ?_, hnear⟩
  change Routine.outcome M.execute (backfillRows host options s₁.events) () s₁ = _
  rw [hnear.events, backfillRows, if_pos hsealed]
  rfl

variable (options) in
def verdict (anchor : Option String) (lastHash : String) : Except Thrown String :=
  (verifyAnchoredHash options.anchored anchor lastHash options.repairHashAnchor).map
    fun _ => lastHash

theorem recover_outcome {s : AuditDatabase} {lastHash : String}
    (h : recoverLastHash host options.hashSecret s.table = .ok lastHash) :
    (Routine.outcome M.execute (recover host options) () s).1 =
      verdict options s.anchor lastHash ∧
    (Routine.outcome M.execute (recover host options) () s).2.events = s.events := by
  refine ⟨?_, ?_⟩
  · have hread : (Routine.outcome M.execute (recover host options) () s).1 =
        (Routine.outcome M.execute (Routine.ofExcept (recoverLastHash host options.hashSecret
          s.table) >>= fun lastHash => verifyAnchor options lastHash >>= fun _ =>
            (pure lastHash : Sql M String)) () s).1 := rfl
    rw [hread, h]
    let replace : Bool → Sql M Unit := fun repair =>
      if repair = true then (do
        let answer : Except Thrown Unit ← statement (M := M) (.writeAnchor lastHash)
        Routine.ofExcept answer)
      else pure ()
    have hverify : (Routine.outcome M.execute (Routine.ofExcept (.ok lastHash) >>= fun lastHash =>
        verifyAnchor options lastHash >>= fun _ => (pure lastHash : Sql M String)) () s).1 =
        (Routine.outcome M.execute ((Routine.ofExcept (verifyAnchoredHash options.anchored s.anchor
          lastHash options.repairHashAnchor) >>= replace) >>= fun _ =>
            (pure lastHash : Sql M String)) () s).1 := rfl
    rw [hverify, verdict]
    cases verifyAnchoredHash options.anchored s.anchor lastHash options.repairHashAnchor with
    | error e => rfl
    | ok repair => cases repair <;> rfl
  · have hnear := (@recover_through M host options s).cut
      ((recover host options () : Program M.Statement M.Answer _).steps M.execute s)
    rw [Program.cut_run M.execute (Nat.le_refl _)] at hnear
    exact hnear.events

theorem content_sealedFrom (previousHash : String) (events : List (Int × AuditEventRow)) :
    (sealedFrom host options previousHash events).map
        (fun event => (event.1, event.2.toAuditContent)) =
      events.map fun event => (event.1, event.2.toAuditContent) := by
  induction events generalizing previousHash with
  | nil => rfl
  | cons event events ih => exact congrArg (List.cons _) (ih _)

theorem isSealed_sealedFrom {previousHash : String} {events : List (Int × AuditEventRow)} :
    ∀ event ∈ sealedFrom host options previousHash events, isSealed event = true := by
  induction events generalizing previousHash with
  | nil => exact fun event hevent => absurd hevent List.not_mem_nil
  | cons event events ih => exact List.forall_mem_cons.mpr ⟨rfl, ih⟩

/-- Sealed rows are a chain. -/
theorem recoverFrom_sealedFrom (hhost : host.Lawful) (previousHash : String)
    (events : List (Int × AuditEventRow)) : ∃ lastHash, recoverFrom host options.hashSecret
      previousHash ((sealedFrom host options previousHash events).map Prod.snd) = .ok lastHash := by
  induction events generalizing previousHash with
  | nil => exact ⟨previousHash, rfl⟩
  | cons event events ih =>
      obtain ⟨lastHash, hlast⟩ := ih (hashBehind host options previousHash event.2)
      refine ⟨lastHash, recoverFrom_cons.mpr ⟨⟨rfl, rfl, fun hempty => ?_⟩, hlast⟩⟩
      have hlength := length_of_hex (hhost.hmacSha256_hex options.hashSecret
        (AuditDatabase.sealed event.2 previousHash
          (hashBehind host options previousHash event.2)).message)
      rw [computeEventHash] at hempty
      rw [hempty] at hlength
      exact absurd hlength (by decide)

/-- An accepted table has a hash in every row. -/
theorem sealed_of_recoverFrom {previousHash lastHash : String} {table : AuditTable}
    (h : recoverFrom host options.hashSecret previousHash table = .ok lastHash) :
    ∀ row ∈ table, row.eventHash ≠ none := by
  induction table generalizing previousHash with
  | nil => exact fun row hrow => absurd hrow List.not_mem_nil
  | cons row table ih =>
      obtain ⟨hlinks, hrest⟩ := recoverFrom_cons.mp h
      refine List.forall_mem_cons.mpr ⟨?_, ih hrest⟩
      rw [hlinks.hash]
      exact Option.some_ne_none _

/-- A database of an earlier version: its rows have no hashes of their own. -/
structure LegacyDatabase extends AuditDatabase where
  ordered : events.Pairwise fun event later => event.1 < later.1
  distinct : toAuditDatabase.eventIds.Nodup
  previousHash : "previous_hash" ∈ eventColumns
  unsealed : Unsealed toAuditDatabase

variable (M host options) in
def interrupted (db : AuditDatabase) (cuts : List Nat) : AuditDatabase :=
  cuts.foldl (fun db n => Program.cut M.execute n (construct host options ()) db) db

variable (M) in
/-- A construction is not cut off between two updates of the backfill. -/
def SealsWhole (db : AuditDatabase) (n : Nat) : Prop :=
  Unsealed db → ¬ (preparing M db < n ∧ n < preparing M db + db.events.length)

variable (M host options) in
/-- None of the constructions is cut off between two updates of its backfill. -/
def AllWhole : AuditDatabase → List Nat → Prop
  | _, [] => True
  | db, n :: cuts => SealsWhole M db n ∧
      AllWhole (Program.cut M.execute n (construct host options ()) db) cuts

/-- A migration that was interrupted and then gone through ends as one that was not. -/
structure Resumed (M : Migrator) (host : Host) (options : AuditWriterOptions)
    (legacy : LegacyDatabase) (cuts : List Nat) : Prop where
  outcome : (Routine.outcome M.execute (construct host options) ()
      (interrupted M host options legacy.toAuditDatabase cuts)).1 =
    (Routine.outcome M.execute (construct host options) () legacy.toAuditDatabase).1
  content : (Routine.outcome M.execute (construct host options) ()
      (interrupted M host options legacy.toAuditDatabase cuts)).2.content = legacy.content
  accepted : ∃ lastHash,
    recoverLastHash host options.hashSecret (Routine.outcome M.execute (construct host options) ()
      (interrupted M host options legacy.toAuditDatabase cuts)).2.table = .ok lastHash ∧
    recoverLastHash host options.hashSecret (Routine.outcome M.execute (construct host options) ()
      legacy.toAuditDatabase).2.table = .ok lastHash ∧
    (options.anchored = false ∨ options.repairHashAnchor = true →
      (Routine.outcome M.execute (construct host options) ()
        (interrupted M host options legacy.toAuditDatabase cuts)).1 = .ok lastHash)

structure Mixed (db : AuditDatabase) : Prop where
  someSealed : ∃ event ∈ db.events, isSealed event = true
  someUnsealed : ∃ event ∈ db.events, event.2.eventHash = none

structure Kept (options : AuditWriterOptions) (legacy : LegacyDatabase) (db : AuditDatabase) :
    Prop where
  content : db.content = legacy.content
  previousHash : "previous_hash" ∈ db.eventColumns
  anchor : options.repairHashAnchor = false → db.anchor = legacy.anchor

def Even (host : Host) (options : AuditWriterOptions) (legacy : LegacyDatabase)
    (db : AuditDatabase) : Prop :=
  db.events = legacy.events ∨ db.events = sealedFrom host options zeroHash legacy.events

theorem Kept.ready {legacy : LegacyDatabase} (h : Kept options legacy db) : Ready db := by
  have hcontent := h.content
  unfold AuditDatabase.content at hcontent
  refine ⟨?_, ?_, h.previousHash⟩
  · have hids := congrArg (List.map Prod.fst) hcontent
    simp only [List.map_map] at hids
    have hids : db.events.map Prod.fst = legacy.events.map Prod.fst := hids
    rw [hids, List.Nodup, List.pairwise_map]
    exact legacy.ordered.imp fun hlt => Int.ne_of_lt hlt
  · have hids : db.eventIds = legacy.eventIds := by
      have hall : ∀ s : AuditDatabase, s.eventIds = s.content.filterMap fun event =>
          event.2.eventId := by
        intro s
        rw [AuditDatabase.eventIds, AuditDatabase.table, AuditDatabase.content,
          List.filterMap_map, List.filterMap_map]
        rfl
      rw [hall, hall, h.content]
    rw [hids]
    exact legacy.distinct

theorem Kept.near {legacy : LegacyDatabase} {s : AuditDatabase} (h : Kept options legacy db)
    (hs : Near options db s) : Kept options legacy s := by
  refine ⟨?_, hs.columns _ h.previousHash, fun hrepair =>
    (hs.anchor hrepair).trans (h.anchor hrepair)⟩
  rw [← h.content, AuditDatabase.content, hs.events]
  rfl

theorem Kept.reached {legacy : LegacyDatabase} {s : AuditDatabase} {sealing : Nat}
    (h : Kept options legacy db) (hs : Reached host options db sealing s) :
    Kept options legacy s := by
  refine ⟨?_, hs.columns _ h.previousHash, fun hrepair =>
    (hs.anchor hrepair).trans (h.anchor hrepair)⟩
  rw [← h.content, AuditDatabase.content, hs.events, List.map_append, List.map_take,
    content_sealedFrom, ← List.map_take, ← List.map_append, List.take_append_drop]
  rfl

theorem Kept.refl (legacy : LegacyDatabase) : Kept options legacy legacy.toAuditDatabase :=
  ⟨rfl, legacy.previousHash, fun _ => rfl⟩

/-- Rows without hashes are those of the legacy database. -/
theorem Even.of_unsealed {legacy : LegacyDatabase} (h : Even host options legacy db)
    (hunsealed : Unsealed db) : db.events = legacy.events := by
  rcases h with hsame | hsealed
  · exact hsame
  · cases hevents : legacy.events with
    | nil => rw [hsealed, hevents, sealedFrom]
    | cons event events =>
        have hnone := hunsealed
        unfold Unsealed at hnone
        rw [hsealed, hevents, sealedFrom] at hnone
        exact absurd (hnone _ List.mem_cons_self) (Option.some_ne_none _)

theorem Mixed.not_unsealed (h : Mixed db) : ¬ Unsealed db := by
  intro hunsealed
  obtain ⟨event, hevent, hsealed⟩ := h.someSealed
  rw [isSealed, hunsealed event hevent] at hsealed
  cases hsealed

/-- What one construction makes of a table whose rows are all sealed or all not, wherever it
is cut off. -/
theorem cut_even {legacy : LegacyDatabase} (hkept : Kept options legacy db)
    (heven : Even host options legacy db) (n : Nat) :
    Kept options legacy (Program.cut M.execute n (construct host options ()) db) ∧
    (SealsWhole M db n →
      Even host options legacy (Program.cut M.execute n (construct host options ()) db)) ∧
    (¬ SealsWhole M db n → Mixed (Program.cut M.execute n (construct host options ()) db)) := by
  by_cases hunsealed : Unsealed db
  · have hreached := @construct_reached M host options db hkept.ready hunsealed n
    have hsame := heven.of_unsealed hunsealed
    generalize hs : Program.cut M.execute n (construct host options ()) db = s at hreached
    refine ⟨hkept.reached hreached, fun hwhole => ?_, fun hbroken => ?_⟩
    · have hwindow := hwhole hunsealed
      by_cases hbefore : n ≤ preparing M db
      · refine .inl ?_
        rw [hreached.events, Nat.sub_eq_zero_of_le hbefore, List.take_zero, List.drop_zero, hsame]
        rfl
      · refine .inr ?_
        have hlength : db.events.length ≤ n - preparing M db := by omega
        rw [hreached.events, List.drop_eq_nil_of_le hlength, List.append_nil,
          List.take_of_length_le ((length_sealedFrom _ _).trans_le hlength), hsame]
    · obtain ⟨hafter, hend⟩ : preparing M db < n ∧
          n < preparing M db + db.events.length := by
        by_contra hwindow
        exact hbroken fun _ => hwindow
      have htake : 0 < ((sealedFrom host options zeroHash db.events).take
          (n - preparing M db)).length := by
        rw [List.length_take, length_sealedFrom]
        omega
      have hdrop : 0 < (db.events.drop (n - preparing M db)).length := by
        rw [List.length_drop]
        omega
      obtain ⟨first, hfirst⟩ := List.exists_mem_of_length_pos htake
      obtain ⟨last, hlast⟩ := List.exists_mem_of_length_pos hdrop
      refine ⟨⟨first, ?_, isSealed_sealedFrom first (List.mem_of_mem_take hfirst)⟩,
        ⟨last, ?_, hunsealed last (List.mem_of_mem_drop hlast)⟩⟩
      · rw [hreached.events]
        exact List.mem_append_left _ hfirst
      · rw [hreached.events]
        exact List.mem_append_right _ hlast
  · have hnear := (@construct_through M host options db hkept.ready
      hunsealed).cut n
    refine ⟨hkept.near hnear, fun _ => ?_, fun hbroken => ?_⟩
    · unfold Even
      rw [hnear.events]
      exact heven
    · exact absurd (fun h => absurd h hunsealed) hbroken

theorem cut_mixed {legacy : LegacyDatabase} (hkept : Kept options legacy db) (hmixed : Mixed db)
    (n : Nat) :
    Kept options legacy (Program.cut M.execute n (construct host options ()) db) ∧
      Mixed (Program.cut M.execute n (construct host options ()) db) := by
  have hnear := (@construct_through M host options db hkept.ready
    hmixed.not_unsealed).cut n
  refine ⟨hkept.near hnear, ?_, ?_⟩
  · rw [hnear.events]
    exact hmixed.someSealed
  · rw [hnear.events]
    exact hmixed.someUnsealed

theorem interrupted_mixed {legacy : LegacyDatabase} (hkept : Kept options legacy db)
    (hmixed : Mixed db) (cuts : List Nat) :
    Kept options legacy (interrupted M host options db cuts) ∧
      Mixed (interrupted M host options db cuts) := by
  induction cuts generalizing db with
  | nil => exact ⟨hkept, hmixed⟩
  | cons n cuts ih =>
      obtain ⟨hkept', hmixed'⟩ := @cut_mixed M host options db legacy hkept hmixed n
      exact ih hkept' hmixed'

/-- Cuts outside the updates leave the rows all sealed or all not, and another cut leaves them
mixed for good. -/
theorem interrupted_even {legacy : LegacyDatabase} (hkept : Kept options legacy db)
    (heven : Even host options legacy db) (cuts : List Nat) :
    Kept options legacy (interrupted M host options db cuts) ∧
    (AllWhole M host options db cuts →
      Even host options legacy (interrupted M host options db cuts)) ∧
    (¬ AllWhole M host options db cuts → Mixed (interrupted M host options db cuts)) := by
  induction cuts generalizing db with
  | nil => exact ⟨hkept, fun _ => heven, fun h => absurd trivial h⟩
  | cons n cuts ih =>
      obtain ⟨hkept', hwhole, hbroken⟩ := @cut_even M host options db legacy hkept heven n
      by_cases hn : SealsWhole M db n
      · obtain ⟨hkeptEnd, hevenEnd, hmixedEnd⟩ := ih hkept' (hwhole hn)
        exact ⟨hkeptEnd, fun h => hevenEnd h.2,
          fun h => hmixedEnd fun hrest => h ⟨hn, hrest⟩⟩
      · obtain ⟨hkeptEnd, hmixedEnd⟩ := interrupted_mixed (M := M) hkept' (hbroken hn) cuts
        exact ⟨hkeptEnd, fun h => absurd h.1 hn, fun _ => hmixedEnd⟩

theorem construct_even {legacy : LegacyDatabase} (hkept : Kept options legacy db)
    (heven : Even host options legacy db) : ∃ s,
    Routine.outcome M.execute (construct host options) () db =
      Routine.outcome M.execute (recover host options) () s ∧
    s.events = sealedFrom host options zeroHash legacy.events ∧ Kept options legacy s := by
  have hconstruct : Routine.outcome M.execute (construct host options) () db =
      Routine.outcome M.execute (initSchema host options >>= fun _ => recover host options) ()
        db := by
    unfold Routine.outcome
    rw [construct_eq]
  by_cases hunsealed : Unsealed db
  · obtain ⟨-, -, s, hrun, hs⟩ := @initSchema_reached M host options db hkept.ready hunsealed
    refine ⟨s, hconstruct.trans (Routine.outcome_bind hrun), ?_, hkept.reached hs⟩
    rw [hs.events, List.drop_length, List.append_nil, heven.of_unsealed hunsealed,
      List.take_of_length_le (Nat.le_of_eq (length_sealedFrom _ _))]
  · have hevents : db.events = sealedFrom host options zeroHash legacy.events := by
      refine heven.resolve_left fun hsame => hunsealed ?_
      unfold Unsealed
      rw [hsame]
      exact legacy.unsealed
    have hall : db.events.all isSealed = true := by
      rw [hevents]
      exact List.all_eq_true.mpr isSealed_sealedFrom
    obtain ⟨s, hrun, hnear⟩ := @initSchema_sealed M host options db hkept.ready hall
    exact ⟨s, hconstruct.trans (Routine.outcome_bind hrun), hnear.events.trans hevents,
      hkept.near hnear⟩

theorem verdict_repair {anchor : Option String} {lastHash : String}
    (h : options.anchored = false ∨ options.repairHashAnchor = true) :
    verdict options anchor lastHash = .ok lastHash := by
  unfold verdict verifyAnchoredHash
  rcases h with hplain | hrepair
  · simp [hplain, Except.map]
  · cases options.anchored <;> cases anchor <;> simp only [hrepair] <;> split_ifs <;> rfl

theorem outcome_events (hready : Ready db) (hsealed : ¬ Unsealed db) :
    (Routine.outcome M.execute (construct host options) () db).2.events = db.events := by
  have hnear := (@construct_through M host options db hready
    hsealed).cut ((construct host options () : Program M.Statement M.Answer _).steps M.execute db)
  rw [Program.cut_run M.execute (Nat.le_refl _)] at hnear
  exact hnear.events

theorem not_resumed {legacy : LegacyDatabase} {cuts : List Nat}
    (h : ¬ AllWhole M host options legacy.toAuditDatabase cuts) :
    ¬ Resumed M host options legacy cuts := by
  intro hresumed
  obtain ⟨hkept, -, hmixed⟩ := @interrupted_even M host options legacy.toAuditDatabase legacy
    (Kept.refl legacy) (.inl rfl) cuts
  have hmixed := hmixed h
  obtain ⟨lastHash, hlast, -⟩ := hresumed.accepted
  obtain ⟨event, hevent, hnone⟩ := hmixed.someUnsealed
  refine sealed_of_recoverFrom hlast event.2 ?_ hnone
  rw [AuditDatabase.table, outcome_events hkept.ready hmixed.not_unsealed]
  exact List.mem_map_of_mem hevent

/-- A migration can be resumed exactly when no construction was cut off between two updates of
its backfill: what is left then is neither a legacy table nor a chain. -/
theorem resumed_iff (hhost : host.Lawful) (legacy : LegacyDatabase) (cuts : List Nat) :
    Resumed M host options legacy cuts ↔
      AllWhole M host options legacy.toAuditDatabase cuts := by
  refine ⟨fun h => by_contra fun hbroken => not_resumed hbroken h, fun h => ?_⟩
  obtain ⟨hkept, heven, -⟩ := @interrupted_even M host options legacy.toAuditDatabase legacy
    (Kept.refl legacy) (.inl rfl) cuts
  obtain ⟨lastHash, hlast⟩ := @recoverFrom_sealedFrom host options hhost zeroHash
    legacy.events
  obtain ⟨s, hs, hevents, hkeptS⟩ := construct_even (M := M) hkept (heven h)
  obtain ⟨t, ht, heventsT, hkeptT⟩ := @construct_even M host options _ legacy
    (Kept.refl legacy) (.inl rfl)
  have hrecover : ∀ db : AuditDatabase,
      db.events = sealedFrom host options zeroHash legacy.events →
      recoverLastHash host options.hashSecret db.table = .ok lastHash := by
    intro db hdb
    rw [recoverLastHash, AuditDatabase.table, hdb]
    exact hlast
  obtain ⟨hverdict, hkeptEvents⟩ := recover_outcome (M := M) (hrecover s hevents)
  obtain ⟨hverdictT, hkeptEventsT⟩ := recover_outcome (M := M) (hrecover t heventsT)
  have hcontent := @content_sealedFrom host options zeroHash legacy.events
  refine ⟨?_, ?_, lastHash, ?_, ?_, fun hplain => ?_⟩
  · rw [hs, ht, hverdict, hverdictT]
    cases hrepair : options.repairHashAnchor with
    | true => rw [verdict_repair (.inr hrepair), verdict_repair (.inr hrepair)]
    | false => rw [hkeptS.anchor hrepair, hkeptT.anchor hrepair]
  · rw [hs, AuditDatabase.content, hkeptEvents, hevents, hcontent]
    rfl
  · rw [hs]
    exact hrecover _ (hkeptEvents.trans hevents)
  · rw [ht]
    exact hrecover _ (hkeptEventsT.trans heventsT)
  · rw [hs, hverdict, verdict_repair hplain]

/-- With the first migration on record the migrator has nothing to do. -/
def idleMigrator : Migrator where
  hash := "h"
  folderMillis := 1777959058060
  Op := Empty
  Ans := fun _ => Unit
  exec := Empty.rec
  migrate := .done (.ok ())
  applied := fun _ _ => ⟨rfl, rfl⟩

abbrev hexHost : Host := plainHost (fun _ => zeroDigest) fun _ _ => zeroDigest

def devOptions : AuditWriterOptions where
  environment := .dev
  hashSecret := "dev-audit-hash-secret"
  anchored := false
  repairHashAnchor := false
  secretAccepted := rfl
  anchorAccepted := rfl

def legacyRow (eventId : String) : AuditEventRow where
  eventId := some eventId
  eventType := some "intent.received"
  timestamp := some "t"
  correlationId := some "c"
  environment := some "dev"
  intentId := none
  principal := none
  promptId := none
  sessionId := none
  inputRef := none
  data := some "d"
  previousHash := some ""
  eventHash := none

def rowsAB : List (Int × AuditEventRow) :=
  [(1, legacyRow "a"), (2, legacyRow "b")]

def columnsAB : List String :=
  ["id", "event_id", "event_type", "timestamp", "correlation_id", "environment", "intent_id",
    "principal", "data", "previous_hash"]

theorem rowsAB_ordered : rowsAB.Pairwise fun event later => event.1 < later.1 := by
  decide

theorem columnsAB_previousHash : "previous_hash" ∈ columnsAB := by
  decide

def databaseAB : AuditDatabase where
  eventColumns := columnsAB
  events := rowsAB
  eventIdIndex := false
  migrationColumns := none
  migrations := []
  anchor := none

theorem databaseAB_unsealed : Unsealed databaseAB := by
  intro event hevent
  simp only [databaseAB, rowsAB, List.mem_cons, List.not_mem_nil, or_false] at hevent
  rcases hevent with rfl | rfl <;> rfl

theorem databaseAB_distinct : databaseAB.eventIds.Nodup := by
  decide

def twoRows : LegacyDatabase where
  toAuditDatabase := databaseAB
  ordered := rowsAB_ordered
  distinct := databaseAB_distinct
  previousHash := columnsAB_previousHash
  unsealed := databaseAB_unsealed

theorem hexHost_lawful : hexHost.Lawful :=
  plainHost_lawful (fun _ => by decide) fun _ _ => by decide

theorem preparing_twoRows : preparing idleMigrator twoRows.toAuditDatabase = 13 := by
  decide +kernel

/-- Cut off among the new columns and again before the first update, the migration is gone
through. -/
theorem resumed_beforeSealing : Resumed idleMigrator hexHost devOptions twoRows [5, 10] :=
  (resumed_iff hexHost_lawful twoRows _).mpr
    ⟨fun _ h => absurd h.1 (by decide +kernel), fun _ h => absurd h.1 (by decide +kernel), trivial⟩

/-- Cut off after the first of two updates, the migration is never gone through. -/
theorem twoRows_halfSealed : ¬ Resumed idleMigrator hexHost devOptions twoRows [14] := by
  refine not_resumed fun h => h.1 twoRows.unsealed ?_
  rw [preparing_twoRows]
  exact ⟨by decide, by decide⟩

end Migration
end TradingGuardrails
