import TradingGuardrails.Broker.Archive
import TradingGuardrails.System.Submission

/-!
What the stores have on file in a run. A key is on file only when the call that has
reserved it records its result there, so whatever is on file stays there.
-/
namespace TradingGuardrails

open Text Interleaving

variable {host : Host} {dep : Deployment} {cfg cfg' : Config (signature host)}

def Deployment.archive (dep : Deployment) (w : World host) (p : Nat) : Archive :=
  match dep.store with
  | .memory => (w.memoryStore p).archive
  | .file => (w.fileStore p).archive host

namespace OnFile

open Submission

def Effect (s s' : Archive) : (op : Op host) → Ans host op → Prop
  | .begin key intent, answer => s.Keeps s' ∧
      (∀ result pendingAudit, answer = .ok (.cached result pendingAudit) →
        s.files (handleFor host key intent).scopedKey
          ⟨(handleFor host key intent).payloadHash, result, pendingAudit⟩) ∧
      (answer = .ok .reserved → ∀ f, ¬s.files (handleFor host key intent).scopedKey f)
  | .complete handle result pendingAudit, _ => s.Records handle result pendingAudit s'
  | .completeAudit handle, _ => s.Releases handle s'
  | .cachedCompleteAudit handle, _ => s.Releases handle s'
  | _, _ => s.Keeps s'

theorem archive_memory (hstore : dep.store = .memory) (w : World host) (p : Nat)
    (store : MemoryStore) : dep.archive (w.setMemoryStore p store) p = store.archive := by
  simp only [Deployment.archive, hstore, memoryStore_setMemoryStore]

theorem archive_file (hstore : dep.store = .file) (w : World host) (p : Nat)
    (store : FileStore) : dep.archive (w.setFileStore p store) p = store.archive host := by
  simp only [Deployment.archive, hstore, Recovery.fileStore_setFileStore]

theorem archive_congr {w w' : World host} {q : Nat}
    (hentries : (w'.processes q).entries = (w.processes q).entries) (hfile : w'.file = w.file)
    (hpromises : w'.promises = w.promises) : dep.archive w' q = dep.archive w q := by
  cases hstore : dep.store with
  | memory =>
      simp only [Deployment.archive, hstore, MemoryStore.archive, World.memoryStore, hentries,
        hpromises]
  | file =>
      simp only [Deployment.archive, hstore, FileStore.archive, World.fileStore, hfile, hpromises]

theorem perform_archive {p : Nat} {op : Op host} {i : Input} {w w' : World host}
    {a : Ans host op} (h : dep.perform p op i w = some (a, w')) :
    Effect (dep.archive w p) (dep.archive w' p) op a := by
  by_cases hop : Deployment.touches op = .store
  · cases hstore : dep.store with
    | memory =>
        have harchive : dep.archive w p = (w.memoryStore p).archive := by
          simp only [Deployment.archive, hstore]
        rw [harchive]
        cases op with
        | begin key intent =>
            simp only [Deployment.perform, Deployment.begin, hstore, Option.some.injEq] at h
            cases h
            rw [archive_memory hstore]
            exact MemoryStore.begin_archive (MemoryStore.begin_cases ..)
        | complete handle result pendingAudit =>
            simp only [Deployment.perform, Deployment.complete, hstore, Option.some.injEq] at h
            cases h
            rw [archive_memory hstore]
            exact (w.memoryStore p).complete_archive handle result pendingAudit
        | completeAudit handle =>
            simp only [Deployment.perform, Deployment.completeAudit, hstore,
              Option.some.injEq] at h
            cases h
            rw [archive_memory hstore]
            exact (w.memoryStore p).completeAudit_archive handle
        | failAudit handle error =>
            simp only [Deployment.perform, Deployment.failAudit, hstore, Option.some.injEq] at h
            cases h
            rw [archive_memory hstore]
            exact (w.memoryStore p).failAudit_archive handle error
        | abort handle error =>
            simp only [Deployment.perform, Deployment.abort, hstore, Option.some.injEq] at h
            cases h
            rw [archive_memory hstore]
            exact (w.memoryStore p).abort_archive handle error
        | cachedCompleteAudit handle =>
            simp only [Deployment.perform, Deployment.cachedCompleteAudit, hstore,
              Option.some.injEq] at h
            cases h
            rw [archive_memory hstore]
            exact (w.memoryStore p).completeAudit_archive handle
        | _ => cases hop
    | file =>
        have harchive : dep.archive w p = (w.fileStore p).archive host := by
          simp only [Deployment.archive, hstore]
        rw [harchive]
        cases op with
        | begin key intent =>
            simp only [Deployment.perform, Deployment.begin, hstore, Option.some.injEq] at h
            cases h
            rw [archive_file hstore]
            exact FileStore.begin_archive (FileStore.begin_cases _ i.io key intent)
        | complete handle result pendingAudit =>
            simp only [Deployment.perform, Deployment.complete, hstore, Option.some.injEq] at h
            cases h
            rw [archive_file hstore]
            exact (w.fileStore p).complete_archive i.io handle result pendingAudit
        | completeAudit handle =>
            simp only [Deployment.perform, Deployment.completeAudit, hstore,
              Option.some.injEq] at h
            cases h
            rw [archive_file hstore]
            exact (w.fileStore p).completeAudit_archive i.io handle
        | failAudit handle error =>
            simp only [Deployment.perform, Deployment.failAudit, hstore, Option.some.injEq] at h
            cases h
            rw [archive_file hstore]
            exact (w.fileStore p).failAudit_archive handle error
        | abort handle error =>
            simp only [Deployment.perform, Deployment.abort, hstore, Option.some.injEq] at h
            cases h
            rw [archive_file hstore]
            exact (w.fileStore p).abort_archive i.io handle error
        | cachedCompleteAudit handle =>
            simp only [Deployment.perform, Deployment.cachedCompleteAudit, hstore,
              Option.some.injEq] at h
            cases h
            rw [archive_file hstore]
            exact (w.fileStore p).cachedCompleteAudit_archive i.io handle
        | _ => cases hop
  · have hframe := dep.perform_frame h
    rw [archive_congr (hframe.entries hop p) (hframe.file hop) (hframe.promises hop)]
    cases op with
    | begin | complete | completeAudit | failAudit | abort | cachedCompleteAudit =>
        exact absurd rfl hop
    | _ => exact .refl _

/-- Only what a call records comes on file. -/
theorem Effect.before {s s' : Archive} {op : Op host} {a : Ans host op} (h : Effect s s' op a)
    {key : String} {f : Filed} (hf : s'.files key f) : (∃ f', s.files key f') ∨
      ∃ handle result pendingAudit, op = .complete handle result pendingAudit ∧
        key = handle.scopedKey := by
  cases op with
  | begin key intent => exact .inl ⟨f, h.1.files _ _ hf⟩
  | complete handle result pendingAudit =>
      rcases Archive.Records.files h _ _ hf with hold | ⟨hkey, -⟩
      · exact .inl ⟨f, hold⟩
      · exact .inr ⟨handle, result, pendingAudit, rfl, hkey⟩
  | completeAudit handle | cachedCompleteAudit handle =>
      rcases Archive.Releases.files h _ _ hf with hold | ⟨-, -, -, pendingAudit, hold⟩
      · exact .inl ⟨f, hold⟩
      · exact .inl ⟨_, hold⟩
  | _ => exact .inl ⟨f, Archive.Keeps.files h _ _ hf⟩

/-- What is on file stays there, unless its key is recorded again. -/
theorem Effect.stays {s s' : Archive} {op : Op host} {a : Ans host op} (h : Effect s s' op a)
    {key : String} {f : Filed} (hkey : ∀ handle result pendingAudit,
      op = .complete handle result pendingAudit → key ≠ handle.scopedKey) (hf : s.files key f) :
    s'.files key f ∨ s'.files key { f with pendingAudit := none } := by
  cases op with
  | begin key intent => exact .inl (h.1.stays _ _ hf)
  | complete handle result pendingAudit =>
      exact .inl (Archive.Records.stays h _ _ (hkey _ _ _ rfl) hf)
  | completeAudit handle | cachedCompleteAudit handle => exact Archive.Releases.stays h _ _ hf
  | _ => exact .inl (Archive.Keeps.stays h _ _ hf)

/-- There is one result on file under a key. -/
theorem files_unique {w : World host} {p : Nat} {key : String} {f f' : Filed}
    (h : (dep.archive w p).files key f) (h' : (dep.archive w p).files key f') :
    f.payloadHash = f'.payloadHash ∧ f.result = f'.result := by
  cases hstore : dep.store with
  | memory =>
      simp only [Deployment.archive, hstore] at h h'
      exact MemoryStore.files_unique h h'
  | file =>
      simp only [Deployment.archive, hstore] at h h'
      exact filesIn_unique h h'

/-- All processes share the promises. -/
theorem archive_kept (w : World host) (p : Nat) : (dep.archive w p).kept = w.promises.kept := by
  unfold Deployment.archive
  split <;> rfl

theorem files_of_shares {p q : Nat} (h : dep.Shares p q) (w : World host) :
    (dep.archive w q).files = (dep.archive w p).files := by
  rcases h with hstore | rfl
  · simp only [Deployment.archive, hstore]
    rfl
  · rfl

/-- A process that shares no store with another one finds on file what it found before. -/
theorem files_of_others {p q : Nat} (hnot : ¬dep.Shares p q) {op : Op host} {i : Input}
    {w w' : World host} {a : Ans host op} (h : dep.perform p op i w = some (a, w')) :
    (dep.archive w' q).files = (dep.archive w q).files := by
  rw [Deployment.Shares, not_or] at hnot
  have hmemory : dep.store = .memory := by
    cases hstore : dep.store with
    | memory => rfl
    | file => exact absurd hstore hnot.1
  by_cases hop : Deployment.touches op = .store
  · obtain ⟨store, rfl, -⟩ := perform_memory hmemory h hop
    have hlocal : (w.setMemoryStore p store).processes q = w.processes q :=
      World.update_of_ne _ (Ne.symm hnot.2) _
    simp only [Deployment.archive, hmemory, MemoryStore.archive, World.memoryStore, hlocal]
  · have hframe := dep.perform_frame h
    rw [archive_congr (hframe.entries hop q) (hframe.file hop) (hframe.promises hop)]

theorem act_archive {x : Outside} {w w' : World host} (h : x.act w = some w') (q : Nat) :
    dep.archive w' q = dep.archive w q ∧ w'.promises = w.promises := by
  cases x with
  | createApproval params approvalId now timeout =>
      simp only [Outside.act] at h
      split_ifs at h
      cases h
      exact ⟨rfl, rfl⟩
  | activate p scope | deactivate p scope =>
      cases h
      refine ⟨?_, rfl⟩
      by_cases hq : q = p
      · subst hq
        refine archive_congr ?_ rfl rfl
        rw [World.update_self]
      · refine archive_congr ?_ rfl rfl
        rw [World.update_of_ne w hq]
  | _ =>
      cases h
      exact ⟨rfl, rfl⟩

/-- A call that starts has done nothing. -/
theorem calls_start {c q p : Nat} {entry : Entry host} {s : Attempt} {log : History host}
    {next : Nat} (hs : (dep.discipline host).state c (.started next p entry :: log) =
      some ⟨q, .executing s⟩) : s.stage = .before ∨
        (dep.discipline host).state c log = some ⟨q, .executing s⟩ := by
  by_cases hc : next = c
  · simp only [Discipline.state, if_pos hc, Option.some.injEq, CallState.mk.injEq] at hs
    cases entry with
    | execute approval authorization =>
        cases hs.2
        exact .inl rfl
    | evaluate | dryRun | callback => cases hs.2
  · rw [Discipline.state_started hc] at hs
    exact .inr hs

def unfiled : Stage → Bool
  | .reserved | .entered _ => true
  | _ => false

theorem owns_of_unfiled {stage : Stage} (h : unfiled stage = true) : owns stage = true := by
  cases stage with
  | reserved | entered => rfl
  | _ => cases h

/-- A call that has put nothing on file did so when it reserved its key, or not at all. -/
theorem free_of_next {s : Attempt} {op : Op host} {a : Ans host op} {ar ar' : Archive}
    (allowed : s.allowed op) (heffect : Effect ar ar' op a)
    (h : unfiled (s.next op a).stage = true) :
    unfiled s.stage = true ∧ (∀ handle result pendingAudit,
        op ≠ .complete handle result pendingAudit) ∨
      ∃ request : Request host, s.request host = some request ∧
        ∀ f, ¬ar'.files request.handle.scopedKey f := by
  cases op with
  | begin key intent =>
      cases a with
      | error e => cases h
      | ok reservation =>
          cases reservation with
          | reserved =>
              obtain ⟨-, request, hrequest, rfl, rfl, -⟩ := allowed
              exact .inr ⟨request, hrequest,
                fun f hf => heffect.2.2 rfl f (heffect.1.files _ _ hf)⟩
          | cached | pending => cases h
  | enterConnector intent =>
      exact .inl ⟨by rw [allowed.1]; rfl, fun _ _ _ h => by cases h⟩
  | connectorResult intent =>
      exact .inl ⟨by rw [show s.stage = .entered none from allowed]; rfl, fun _ _ _ h => by cases h⟩
  | complete handle result pendingAudit => cases pendingAudit <;> cases h
  | abort | pendingResult => cases h
  | auditWrite event =>
      simp only [Attempt.next_stage, Attempt.stageAfter] at h
      split at h
      · cases h
      · cases h
      · cases h
      · exact .inl ⟨h, fun _ _ _ h => by cases h⟩
  | completeAudit handle | cachedCompleteAudit handle =>
      cases a with
      | error e => exact .inl ⟨h, fun _ _ _ h => by cases h⟩
      | ok u =>
          simp only [Attempt.next_stage, Attempt.stageAfter] at h
          split at h
          · cases h
          · exact .inl ⟨h, fun _ _ _ h => by cases h⟩
  | _ => exact .inl ⟨h, fun _ _ _ h => by cases h⟩

/-- Nothing is on file under a key that a call has reserved and not recorded. -/
def Unfiled (dep : Deployment) (cfg : Config (signature host)) : Prop :=
  ∀ c p s, ∀ request : Request host, Executing dep cfg c p s → s.request host = some request →
    unfiled s.stage = true → ∀ f, ¬(dep.archive cfg.world p).files request.handle.scopedKey f

namespace Unfiled

/-- A call that records its result finds nothing on file. -/
theorem of_complete (h : Unfiled dep cfg) {c p : Nat} {s : Attempt} {handle : Handle}
    {result : Json} {pendingAudit : Option Json} (hs : Executing dep cfg c p s)
    (allowed : s.allowed (.complete handle result pendingAudit : Op host)) (f : Filed) :
    owns s.stage = true ∧ (∃ request : Request host, s.request host = some request ∧
      handle = request.handle) ∧ ¬(dep.archive cfg.world p).files handle.scopedKey f := by
  obtain ⟨request, hrequest, rfl, hstage⟩ := allowed
  have hunfiled : unfiled s.stage = true := by
    cases hs : s.stage with
    | reserved | entered => rfl
    | _ =>
        rw [hs] at hstage
        exact False.elim hstage
  exact ⟨owns_of_unfiled hunfiled, ⟨request, hrequest, rfl⟩,
    h c p s request hs hrequest hunfiled f⟩

theorem carried (h : Unfiled dep cfg)
    (harchive : ∀ q, dep.archive cfg'.world q = dep.archive cfg.world q)
    (hcalls : ∀ c p s, Executing dep cfg' c p s → s.stage = .before ∨ Executing dep cfg c p s) :
    Unfiled dep cfg' := by
  intro c p s request hs hrequest hunfiled f hf
  rw [harchive] at hf
  rcases hcalls c p s hs with hbefore | hs
  · rw [hbefore] at hunfiled
    cases hunfiled
  · exact h c p s request hs hrequest hunfiled f hf

theorem act (h : Unfiled dep cfg) (hreserved : Reserved dep cfg)
    {c : Nat} {call : Call (signature host)} {st : CallState host} {op : Op host} {i : Input}
    {a : Ans host op} {w : World host} (hproc : st.proc = call.proc)
    (state : (dep.discipline host).state c cfg.log = some st)
    (allowed : (dep.discipline host).allowed st op)
    (performed : dep.perform call.proc op i cfg.world = some (a, w)) (hworld : cfg'.world = w)
    (hlog : cfg'.log = .did c op a :: cfg.log) : Unfiled dep cfg' := by
  intro c' q s request hs hrequest hunfiled f hf
  rw [hworld] at hf
  have heffect := perform_archive performed
  by_cases hc : c = c'
  · subst hc
    rw [Executing, hlog] at hs
    obtain ⟨s', rfl, rfl⟩ := executing_act state hs
    obtain rfl : q = call.proc := hproc
    rcases free_of_next allowed heffect hunfiled with ⟨hbefore, hnot⟩ | ⟨request', hrequest', hnone⟩
    · obtain ⟨request', hrequest', -⟩ := hreserved.taken c _ s' state (owns_of_unfiled hbefore)
      cases (Attempt.request_next hrequest' op a).symm.trans hrequest
      rcases heffect.before hf with ⟨f', hf'⟩ | ⟨handle, result, pendingAudit, rfl, -⟩
      · exact h c _ s' request state hrequest' hbefore f' hf'
      · exact hnot _ _ _ rfl
    · cases (Attempt.request_next hrequest' op a).symm.trans hrequest
      exact hnone f hf
  · rw [Executing, hlog, Discipline.state_did hc] at hs
    by_cases hshares : dep.Shares call.proc q
    · rw [files_of_shares hshares] at hf
      rcases heffect.before hf with ⟨f', hf'⟩ | ⟨handle, result, pendingAudit, rfl, hkey⟩
      · rw [← files_of_shares hshares] at hf'
        exact h c' q s request hs hrequest hunfiled f' hf'
      · rcases executes_or_quiet allowed with ⟨s', hst⟩ | hquiet
        · rw [hst, hproc] at state
          rw [hst] at allowed
          obtain ⟨howns, ⟨request', hrequest', rfl⟩, -⟩ := h.of_complete state allowed f
          exact hc (hreserved.alone c c' _ q s' s request' request state hs hshares hrequest'
            hrequest hkey.symm howns (owns_of_unfiled hunfiled))
        · exact hquiet rfl
    · rw [files_of_others hshares performed] at hf
      exact h c' q s request hs hrequest hunfiled f hf

theorem reachable (h : (dep.system host).Reachable cfg) : Unfiled dep cfg := by
  refine Discipline.invariant (dep.followed host) ?_ ?_ h
  · rintro w rfl c p s request hs
    cases hs
  intro cfg cfg' hreach hsound hinv hmove
  cases hmove with
  | @start p entry rests enabled => exact carried hinv (fun _ => rfl) fun _ _ _ => calls_start
  | act live program state allowed turn performed =>
      exact act hinv (Reserved.reachable hreach) (Scopes.proc_reachable hreach live state) state
        allowed performed rfl rfl
  | finish | crash => exact carried hinv (fun _ => rfl) fun _ _ _ hs => .inr hs
  | outside rests acted =>
      exact carried hinv (fun q => (act_archive acted q).1) fun _ _ _ hs => .inr hs

end Unfiled

/-- One move leaves on file what is there. -/
theorem stays_move (hreach : (dep.system host).Reachable cfg)
    (hmove : (dep.discipline host).Move (dep.system host) cfg cfg') {p : Nat} {key : String}
    {f : Filed} (hf : (dep.archive cfg.world p).files key f) :
    (dep.archive cfg'.world p).files key f ∨
      (dep.archive cfg'.world p).files key { f with pendingAudit := none } := by
  cases hmove with
  | start | finish | crash => exact .inl hf
  | outside rests acted =>
      rw [(act_archive acted p).1]
      exact .inl hf
  | @act c call st op next i a w live program state allowed turn performed =>
      dsimp only
      have hproc := Scopes.proc_reachable hreach live state
      by_cases hshares : dep.Shares call.proc p
      · rw [files_of_shares hshares] at hf ⊢
        refine (perform_archive performed).stays ?_ hf
        rintro handle result pendingAudit rfl rfl
        rcases executes_or_quiet allowed with ⟨s, hst⟩ | hquiet
        · rw [hst, hproc] at state
          rw [hst] at allowed
          exact ((Unfiled.reachable hreach).of_complete state allowed f).2.2 hf
        · exact hquiet rfl
      · rw [files_of_others hshares performed]
        exact .inl hf

/-- What is on file stays there in the rest of the run. -/
theorem stays_exec (hreach : (dep.system host).Reachable cfg) {p : Nat} {key : String} {f : Filed}
    (hf : (dep.archive cfg.world p).files key f) (steps : List (Step (signature host))) :
    ∃ pendingAudit, (dep.archive ((dep.system host).exec cfg steps).world p).files key
        { f with pendingAudit } ∧ (pendingAudit = f.pendingAudit ∨ pendingAudit = none) := by
  refine @Discipline.invariant_exec _ _ _ (dep.followed host) (fun cfg' => ∃ pendingAudit,
    (dep.archive cfg'.world p).files key { f with pendingAudit } ∧
      (pendingAudit = f.pendingAudit ∨ pendingAudit = none)) ?_ cfg hreach ⟨_, hf, .inl rfl⟩ steps
  rintro cfg cfg' hreach - ⟨pendingAudit, hf, hpending⟩ hmove
  rcases stays_move hreach hmove hf with hf | hf
  · exact ⟨pendingAudit, hf, hpending⟩
  · exact ⟨none, hf, .inr rfl⟩

end OnFile
end TradingGuardrails
