import TradingGuardrails.Audit.AnchoredWriter

/-!
Several processes that write to one audit table and one anchor. The transaction of a
write is atomic; the replacement of the anchor is a step of its own, and transactions of
other processes may come between the two.
-/
namespace TradingGuardrails

variable {P : Type} [DecidableEq P]

/-- The files, what each process remembers, and for each process whose write stands
between its two steps the hash that it hands to the anchor, if any. -/
structure SharedAudit (P : Type) where
  files : AuditFiles
  writer : P → AuditWriter
  between : P → Option (Option String)
  /-- Whether the last replacement of the anchor failed. -/
  failed : Bool
  /-- What the anchor was after each earlier step, the latest first. -/
  past : List (Option String)

inductive SharedStep (P : Type) where
  | transact (p : P) (call : WriteCall)
  | replace (p : P) (io : Io)

namespace SharedAudit

def start (files : AuditFiles) : SharedAudit P where
  files := files
  writer _ := {}
  between _ := none
  failed := false
  past := []

variable (host : Host) (secret : String)

def transact (s : SharedAudit P) (p : P) (call : WriteCall) : SharedAudit P :=
  match (s.writer p).transaction host secret true s.files call with
  | (.error _, _) => s
  | (.ok committedHash, files) =>
      { s with files, between := Function.update s.between p (some committedHash) }

def replace (s : SharedAudit P) (p : P) (committedHash : Option String) (io : Io) :
    SharedAudit P :=
  let (result, writer, files) := (s.writer p).replaceAnchor true committedHash io s.files
  { s with
    files
    writer := Function.update s.writer p writer
    between := Function.update s.between p none
    failed := if AuditWriter.given committedHash then !result.isOk else s.failed }

def move (s : SharedAudit P) : SharedStep P → SharedAudit P
  | .transact p call => match s.between p with
    | none => s.transact host secret p call
    | some _ => s
  | .replace p io => match s.between p with
    | none => s
    | some committedHash => s.replace p committedHash io

def step (s : SharedAudit P) (e : SharedStep P) : SharedAudit P :=
  { s.move host secret e with past := s.files.anchor :: s.past }

def run (s : SharedAudit P) : List (SharedStep P) → SharedAudit P
  | [] => s
  | e :: steps => run (s.step host secret e) steps

/-- A step that commits no new row while another process is about to replace the anchor
by the hash that the anchor already holds. -/
def Undisturbed (s : SharedAudit P) : SharedStep P → Prop
  | .transact p call => call.commit = none → s.files.table.find call.eventId = none →
      ∀ q, q ≠ p → ∀ hash, s.between q = some (some hash) → s.files.anchoredHash ≠ hash
  | .replace _ _ => True

def UndisturbedRun (s : SharedAudit P) : List (SharedStep P) → Prop
  | [] => True
  | e :: steps => s.Undisturbed e ∧ UndisturbedRun (s.step host secret e) steps

end SharedAudit

def chainHashes (table : AuditTable) : List String :=
  zeroHash :: table.map fun row => row.eventHash.getD ""

/-- The values of an anchor, the latest first, are hashes of the chain at places that do
not increase. -/
def InChainOrder (table : AuditTable) (anchors : List (Option String)) : Prop :=
  ∃ placed : List (Option String × Nat), placed.map Prod.fst = anchors ∧
    placed.Pairwise (fun newer older => older.2 ≤ newer.2) ∧
    ∀ a ∈ placed, (chainHashes table)[a.2]? = some (a.1.getD zeroHash)

variable {host : Host} {secret : String}

theorem chainHashes_last {table : AuditTable} {lastHash : String}
    (h : recoverLastHash host secret table = .ok lastHash) :
    (chainHashes table)[table.length]? = some lastHash := by
  rcases List.eq_nil_or_concat table with rfl | ⟨rows, row, rfl⟩
  · cases h
    rfl
  · rw [List.concat_eq_append] at h ⊢
    obtain ⟨last, -, hlinks, rfl⟩ := recoverFrom_concat.mp h
    simp [chainHashes, hlinks.hash]

namespace InChainOrder

variable {table : AuditTable} {anchors : List (Option String)} {anchor : Option String}

theorem grow (h : InChainOrder table anchors) (row : AuditEventRow) :
    InChainOrder (table ++ [row]) anchors := by
  obtain ⟨placed, hanchors, hsorted, hat⟩ := h
  refine ⟨placed, hanchors, hsorted, fun a ha => ?_⟩
  have hshort : chainHashes (table ++ [row]) =
      chainHashes table ++ [row.eventHash.getD ""] := by
    simp [chainHashes]
  rw [hshort, List.getElem?_append_left (List.getElem?_eq_some_iff.mp (hat a ha)).1]
  exact hat a ha

theorem again (h : InChainOrder table (anchor :: anchors)) :
    InChainOrder table (anchor :: anchor :: anchors) := by
  obtain ⟨placed, hanchors, hsorted, hat⟩ := h
  cases placed with
  | nil => cases hanchors
  | cons a placed =>
      obtain ⟨rfl, rfl⟩ := List.cons.inj hanchors
      refine ⟨a :: a :: placed, rfl, List.pairwise_cons.mpr ⟨?_, hsorted⟩, ?_⟩
      · rintro b (_ | ⟨_, hb⟩)
        · exact Nat.le_refl _
        · exact (List.pairwise_cons.mp hsorted).1 b hb
      · rintro b (_ | ⟨_, hb⟩)
        · exact hat a List.mem_cons_self
        · exact hat b hb

theorem last (h : InChainOrder table anchors) {lastHash : String}
    (hlast : recoverLastHash host secret table = .ok lastHash) :
    InChainOrder table (some lastHash :: anchors) := by
  obtain ⟨placed, hanchors, hsorted, hat⟩ := h
  refine ⟨(some lastHash, table.length) :: placed, by rw [List.map_cons, hanchors],
    List.pairwise_cons.mpr ⟨?_, hsorted⟩, ?_⟩
  · intro a ha
    have := (List.getElem?_eq_some_iff.mp (hat a ha)).1
    simp only [chainHashes, List.length_cons, List.length_map] at this
    omega
  · rintro a (_ | ⟨_, ha⟩)
    · exact chainHashes_last hlast
    · exact hat a ha

theorem latest {older : Option String}
    (h : InChainOrder table (anchor :: older :: anchors)) :
    ∃ i j : Nat, j ≤ i ∧ (chainHashes table)[i]? = some (anchor.getD zeroHash) ∧
      (chainHashes table)[j]? = some (older.getD zeroHash) := by
  obtain ⟨placed, hanchors, hsorted, hat⟩ := h
  match placed, hanchors with
  | a :: b :: placed, hanchors =>
      cases hanchors
      exact ⟨a.2, b.2, (List.pairwise_cons.mp hsorted).1 b List.mem_cons_self,
        hat a List.mem_cons_self, hat b (List.mem_cons_of_mem _ List.mem_cons_self)⟩

end InChainOrder

/-- What holds of the files and the processes after every undisturbed step. -/
structure SharedAudit.Sound (host : Host) (secret : String) (s : SharedAudit P) : Prop where
  unique : s.files.table.UniqueIds
  ordered : InChainOrder s.files.table (s.files.anchor :: s.past)
  head : ∃ lastHash, recoverLastHash host secret s.files.table = .ok lastHash ∧
    (∀ p hash, s.between p = some (some hash) → hash = lastHash) ∧
    (s.failed = true ∨ s.files.anchoredHash = lastHash ∨
      ∃ p, s.between p = some (some lastHash))

theorem AuditWriter.replaceAnchor_cases (writer : AuditWriter) {hash : String} (io : Io)
    (files : AuditFiles) (hgiven : AuditWriter.given (some hash) = true) :
    ∃ result writer' anchor, writer.replaceAnchor true (some hash) io files =
        (result, writer', { files with anchor }) ∧
      (anchor = some hash ∨ anchor = files.anchor ∧ result.isOk = false) := by
  simp only [AuditWriter.replaceAnchor, AuditWriter.writeAnchoredHash, hgiven]
  cases io with
  | done =>
      by_cases hpending : writer.pendingAnchorRepairHash = some hash
      · exact ⟨.ok (), { writer with pendingAnchorRepairHash := none }, some hash,
          by simp [hpending], .inl rfl⟩
      · exact ⟨.ok (), writer, some hash, by simp [hpending], .inl rfl⟩
  | failBefore e => exact ⟨_, _, files.anchor, rfl, .inr ⟨rfl, rfl⟩⟩
  | failAfter e => exact ⟨_, _, some hash, rfl, .inl rfl⟩

namespace SharedAudit

variable {s : SharedAudit P}

omit [DecidableEq P] in
theorem sound_start {files : AuditFiles} (unique : files.table.UniqueIds) {lastHash : String}
    (verified : Verified host secret true files lastHash) :
    (start files : SharedAudit P).Sound host secret where
  unique := unique
  ordered := by
    refine ⟨[(files.anchor, files.table.length)], rfl, List.pairwise_singleton _ _, ?_⟩
    rintro a (_ | ⟨_, ha⟩)
    · have hanchor := verified.anchor rfl
      rw [AuditFiles.anchoredHash] at hanchor
      rw [hanchor]
      exact chainHashes_last verified.recovered
    · cases ha
  head := ⟨lastHash, verified.recovered, fun _ _ h => absurd h (by simp [start]),
    .inr (.inl (verified.anchor rfl))⟩

/-- A transaction. A new row needs an anchor that agrees, and then no other process is
about to replace it. -/
theorem sound_transact (hhost : host.Lawful) (sound : s.Sound host secret) {p : P}
    {call : WriteCall} (hp : s.between p = none)
    (undisturbed : s.Undisturbed (.transact p call)) :
    let next := s.transact host secret p call
    Sound host secret { next with past := s.files.anchor :: s.past } := by
  obtain ⟨lastHash, hrecovered, hbetween, hanchor⟩ := sound.head
  have hordered := sound.ordered.again
  obtain ⟨result, table, htransaction, transacted⟩ :=
    transaction_cases host secret true (s.writer p) s.files call
  simp only [transact, htransaction]
  have hkept : ∀ c q hash, s.between q = some hash →
      Function.update s.between p (some c) q = some hash := by
    intro c q hash hq
    have hne : q ≠ p := by
      rintro rfl
      cases hp.symm.trans hq
    rw [Function.update_of_ne hne, hq]
  have hfrom : ∀ c q hash, Function.update s.between p (some c) q = some (some hash) →
      c = some hash ∨ q ≠ p ∧ s.between q = some (some hash) := by
    intro c q hash hq
    rcases eq_or_ne q p with rfl | hne
    · exact .inl (by simpa using hq)
    · exact .inr ⟨hne, by rwa [Function.update_of_ne hne] at hq⟩
  cases transacted with
  | refused e => exact ⟨sound.unique, hordered, lastHash, hrecovered, hbetween, hanchor⟩
  | present verified found same =>
      refine ⟨sound.unique, hordered, lastHash, hrecovered, fun q hash hq => ?_, ?_⟩
      · rcases hfrom none q hash hq with h | ⟨-, h⟩
        · cases h
        · exact hbetween q hash h
      · exact hanchor.imp_right (.imp_right fun ⟨q, hq⟩ => ⟨q, hkept none q _ hq⟩)
  | @repair hash' _ recovered found same last pending =>
      cases hrecovered.symm.trans recovered
      refine ⟨sound.unique, hordered, lastHash, hrecovered, fun q hash hq => ?_,
        .inr (.inr ⟨p, Function.update_self ..⟩)⟩
      rcases hfrom _ q hash hq with h | ⟨-, h⟩
      · cases h
        rfl
      · exact hbetween q hash h
  | insert verified fresh commits =>
      cases hrecovered.symm.trans verified.recovered
      obtain ⟨newHash, hnewHash, hnew⟩ := recoverLastHash_row hhost call hrecovered
      refine ⟨AuditTable.uniqueIds_insert sound.unique rfl fresh, hordered.grow _, newHash, hnew,
        fun q hash hq => ?_, .inr (.inr ⟨p, ?_⟩)⟩
      · rcases hfrom _ q hash hq with h | ⟨hne, h⟩
        · exact Option.some.inj (h.symm.trans hnewHash)
        · -- the anchor agrees, so nobody else may be about to replace it
          refine absurd ?_ (undisturbed commits fresh q hne hash h)
          rw [verified.anchor rfl, hbetween q hash h]
      · rw [← hnewHash]
        exact Function.update_self ..

theorem sound_replace (hhost : host.Lawful) (sound : s.Sound host secret) {p : P} {io : Io}
    {committedHash : Option String} (hp : s.between p = some committedHash) :
    let next := s.replace p committedHash io
    Sound host secret { next with past := s.files.anchor :: s.past } := by
  obtain ⟨lastHash, hrecovered, hbetween, hanchor⟩ := sound.head
  have hrest : ∀ q hash, Function.update s.between p none q = some (some hash) →
      hash = lastHash := by
    intro q hash hq
    rcases eq_or_ne q p with rfl | hne
    · simp at hq
    · rw [Function.update_of_ne hne] at hq
      exact hbetween q hash hq
  cases committedHash with
  | none =>
      simp only [replace, AuditWriter.replaceAnchor_none]
      refine ⟨sound.unique, sound.ordered.again, lastHash, hrecovered, hrest, ?_⟩
      refine hanchor.imp id (.imp_right ?_)
      rintro ⟨q, hq⟩
      refine ⟨q, ?_⟩
      have hne : q ≠ p := by
        rintro rfl
        cases hp.symm.trans hq
      exact (Function.update_of_ne hne ..).trans hq
  | some hash =>
      obtain rfl := hbetween p hash hp
      have hgiven := given_recovered hhost hrecovered
      obtain ⟨result, writer, anchor, hreplace, hcases⟩ :=
        (s.writer p).replaceAnchor_cases io s.files hgiven
      simp only [replace, hreplace, hgiven, if_true]
      rcases hcases with rfl | ⟨rfl, hfailed⟩
      · exact ⟨sound.unique, sound.ordered.last hrecovered, hash, hrecovered, hrest,
          .inr (.inl rfl)⟩
      · exact ⟨sound.unique, sound.ordered.again, hash, hrecovered, hrest,
          .inl (by simp [hfailed])⟩

theorem sound_step (hhost : host.Lawful) (sound : s.Sound host secret) {e : SharedStep P}
    (undisturbed : s.Undisturbed e) : (s.step host secret e).Sound host secret := by
  have hstill : Sound host secret { s with past := s.files.anchor :: s.past } :=
    ⟨sound.unique, sound.ordered.again, sound.head⟩
  cases e with
  | transact p call =>
      simp only [step, move]
      cases hp : s.between p with
      | some _ => exact hstill
      | none => exact sound_transact hhost sound hp undisturbed
  | replace p io =>
      simp only [step, move]
      cases hp : s.between p with
      | none => exact hstill
      | some committedHash => exact sound_replace hhost sound hp

theorem sound_run (hhost : host.Lawful) {steps : List (SharedStep P)}
    (sound : s.Sound host secret) (undisturbed : s.UndisturbedRun host secret steps) :
    (s.run host secret steps).Sound host secret := by
  induction steps generalizing s with
  | nil => exact sound
  | cons e steps ih => exact ih (sound_step hhost sound undisturbed.1) undisturbed.2

end SharedAudit

/-- As long as no process commits a new row while another one is about to replace the
anchor by the hash that it already holds, the anchor only moves along the chain, and it
agrees with the chain whenever no write is under way and its last replacement did not
fail. -/
theorem shared_anchor (hhost : host.Lawful) {environment : Environment} {repairHashAnchor : Bool}
    {io : Io} {writer : AuditWriter} {files₀ files : AuditFiles}
    (unique : files₀.table.UniqueIds)
    (constructed : AuditWriter.construct host secret true environment repairHashAnchor io files₀ =
      (.ok writer, files))
    {steps : List (SharedStep P)}
    (undisturbed : (SharedAudit.start files).UndisturbedRun host secret steps) :
    let s := (SharedAudit.start files : SharedAudit P).run host secret steps
    InChainOrder s.files.table (s.files.anchor :: s.past) ∧
    ((∀ p, s.between p = none) → s.failed = false →
      ∃ lastHash, recoverLastHash host secret s.files.table = .ok lastHash ∧
        s.files.anchoredHash = lastHash ∧
        ∀ p (call : WriteCall), call.commit = none →
          (∀ row, s.files.table.find call.eventId = some row →
            row.columns = call.content.columns) →
          ((s.writer p).write host secret true s.files call .done).1 = .ok ()) := by
  intro s
  obtain ⟨uniqueFiles, lastHash₀, verified⟩ :
      files.table.UniqueIds ∧ ∃ lastHash, Verified host secret true files lastHash :=
    AuditWriter.construct_verified hhost unique constructed
  have sound : s.Sound host secret :=
    SharedAudit.sound_run hhost (SharedAudit.sound_start uniqueFiles verified) undisturbed
  refine ⟨sound.ordered, fun idle hfailed => ?_⟩
  obtain ⟨lastHash, hrecovered, -, hanchor⟩ := sound.head
  have hagrees : s.files.anchoredHash = lastHash := by
    rcases hanchor with h | h | ⟨p, h⟩
    · cases hfailed.symm.trans h
    · exact h
    · cases (idle p).symm.trans h
  refine ⟨lastHash, hrecovered, hagrees, fun p call commits same => ?_⟩
  obtain ⟨hash, htransaction⟩ : ∃ hash,
      ((s.writer p).transaction host secret true s.files call).1 = .ok hash :=
    AuditWriter.transaction_verified ⟨hrecovered, fun _ => hagrees⟩ commits same
  exact AuditWriter.write_done htransaction

def twos : String := String.ofList (List.replicate 64 '2')

def twoRowHost : Host :=
  plainHost (fun _ => ones) fun _ text =>
    if text.toByteArray.data.toList.head? = some 48 then ones else twos

def otherCall (eventId : String) : WriteCall :=
  { sampleCall with event := { sampleCall.event with eventId := some eventId } }

namespace SharedAudit

def calm (s : SharedAudit Bool) : SharedStep Bool → Bool
  | .transact p call => (s.files.table.find call.eventId).isSome ||
      (s.between (!p)).join.all fun hash => s.files.anchoredHash != hash
  | .replace _ _ => true

def calmRun (host : Host) (secret : String) (s : SharedAudit Bool) : List (SharedStep Bool) → Bool
  | [] => true
  | e :: steps => s.calm e && calmRun host secret (s.step host secret e) steps

theorem undisturbed_of_calm {s : SharedAudit Bool} {e : SharedStep Bool} (h : s.calm e = true) :
    s.Undisturbed e := by
  cases e with
  | replace p io => exact True.intro
  | transact p call =>
      intro _ hfresh q hq hash hbetween
      obtain rfl : q = !p := by
        cases q <;> cases p <;> first | rfl | exact absurd rfl hq
      simpa [calm, hfresh, hbetween] using h

theorem undisturbedRun_of_calm {s : SharedAudit Bool} {steps : List (SharedStep Bool)}
    (h : s.calmRun host secret steps = true) : s.UndisturbedRun host secret steps := by
  induction steps generalizing s with
  | nil => exact True.intro
  | cons e steps ih =>
      rw [calmRun, Bool.and_eq_true] at h
      exact ⟨undisturbed_of_calm h.1, ih h.2⟩

end SharedAudit

/-- Both processes write at the same time. The second is refused until the anchor of the first
is there, and the first repeats a write whose replacement of the anchor failed. -/
def interleavedSteps : List (SharedStep Bool) := [
  .transact true sampleCall, .transact false (otherCall "b"),
  .replace true (.failAfter (.ofMessage "fsync failed")), .transact true sampleCall,
  .replace true .done, .transact false (otherCall "b"), .replace false .done]

theorem shared_anchor_interleaved :
    let s := (SharedAudit.start ⟨[], none⟩ : SharedAudit Bool).run twoRowHost "secret"
      interleavedSteps
    s.files.table.length = 2 ∧ InChainOrder s.files.table (s.files.anchor :: s.past) ∧
      ((s.writer true).write twoRowHost "secret" true s.files (otherCall "d") .done).1 =
        .ok () := by
  intro s
  have hhost : twoRowHost.Lawful := by
    refine plainHost_lawful (fun _ => by decide) fun _ _ => ?_
    split <;> decide
  have unique : (AuditFiles.mk [] none).table.UniqueIds := List.nodup_nil
  have constructed : AuditWriter.construct twoRowHost "secret" true .dev false .done ⟨[], none⟩ =
      (.ok {}, ⟨[], none⟩) := rfl
  have hcalm : (SharedAudit.start ⟨[], none⟩ : SharedAudit Bool).calmRun twoRowHost "secret"
      interleavedSteps = true := by decide +kernel
  obtain ⟨hordered, hidle⟩ := shared_anchor hhost unique constructed
    (SharedAudit.undisturbedRun_of_calm hcalm)
  have hboth : s.files.table.length = 2 ∧ s.between true = none ∧ s.between false = none ∧
      s.failed = false ∧ (s.files.table.find (otherCall "d").eventId).isNone = true := by
    decide +kernel
  obtain ⟨hrows, htrue, hfalse, hfailed, hfresh⟩ := hboth
  obtain ⟨-, -, -, hwrite⟩ := hidle (by rintro (_ | _) <;> assumption) hfailed
  refine ⟨hrows, hordered, hwrite true (otherCall "d") rfl fun row hrow => ?_⟩
  have := Option.isNone_iff_eq_none.mp hfresh
  cases this.symm.trans hrow

/-- The first process writes an event, and its replacement of the anchor fails after the
rename. It writes the event again. Before it replaces the anchor the second process
writes another event. -/
def overtakingSteps : List (SharedStep Bool) := [
  .transact true sampleCall, .replace true (.failAfter (.ofMessage "fsync failed")),
  .transact true sampleCall, .transact false (otherCall "b"), .replace false .done,
  .replace true .done]

theorem shared_anchor_overtaken :
    let s := (SharedAudit.start ⟨[], none⟩).run twoRowHost "secret" overtakingSteps
    s.between true = none ∧ s.between false = none ∧ s.failed = false ∧
      recoverLastHash twoRowHost "secret" s.files.table = .ok twos ∧
      s.files.anchor = some ones ∧
      ¬ InChainOrder s.files.table (s.files.anchor :: s.past) ∧
      ((s.writer false).write twoRowHost "secret" true s.files (otherCall "d") .done).1 =
        .error anchorMismatch := by
  intro s
  obtain ⟨hhashes, hpast, htrue, hfalse, hfailed, hrecovered, hanchor, hthrows⟩ :
      chainHashes s.files.table = [zeroHash, ones, twos] ∧ s.past.head? = some (some twos) ∧
        s.between true = none ∧ s.between false = none ∧ s.failed = false ∧
        recoverLastHash twoRowHost "secret" s.files.table = .ok twos ∧
        s.files.anchor = some ones ∧
        ((s.writer false).write twoRowHost "secret" true s.files (otherCall "d") .done).1 =
          .error anchorMismatch := by decide +kernel
  refine ⟨htrue, hfalse, hfailed, hrecovered, hanchor, fun hordered => ?_, hthrows⟩
  obtain ⟨past, hcons⟩ : ∃ past, s.past = some twos :: past := List.head?_eq_some_iff.mp hpast
  rw [hanchor, hcons] at hordered
  obtain ⟨i, j, hle, hi, hj⟩ := InChainOrder.latest hordered
  rw [hhashes] at hi hj
  have : i = 1 := by
    rcases i with _ | _ | _ | i
    · exact absurd hi (by decide)
    · rfl
    · exact absurd hi (by decide)
    · simp at hi
  have : j = 2 := by
    rcases j with _ | _ | _ | j
    · exact absurd hj (by decide)
    · exact absurd hj (by decide)
    · rfl
    · simp at hj
  omega

end TradingGuardrails
