import TradingGuardrails.Interleaving.Erasure
import TradingGuardrails.System.Authority

/-!
Dry runs change nothing but the audit log. When the answers of the audit writer are given,
any number of dry runs of the service and of the broker can be taken out of a run: all other
calls then are told, do and return the same, in the same world.
-/
namespace TradingGuardrails

open Text Interleaving

variable {host : Host} {dep : Deployment} {cfg : Config (signature host)}

def isDryRun : Entry host → Bool
  | .dryRun _ => true
  | .evaluate _ options => options.dryRun
  | _ => false

def renumber (ρ : Nat → Nat) : Entry host → Entry host
  | .callback parent request => .callback (ρ parent) request
  | entry => entry

namespace DryRuns

def Observes (op : Op host) : Prop :=
  Deployment.touches op = .nothing ∨ Deployment.touches op = .audit

theorem within_dryRun (broker : ExecutionBroker) (approval : Json) :
    (run (broker.dryRun opaqueConnector approval) [] Ret.reported).Within
      (@Observes host) := by
  refine Program.within_bind ?_ fun _ => True.intro
  refine (obeys_dryRun broker approval).within fun s op hallowed => ?_
  cases op with
  | now | killSwitchIsActive | auditCheckHealth | approvalCheckHealth | revalidate => exact .inl rfl
  | auditWrite => exact .inr rfl
  | _ => exact False.elim hallowed

def Unreserved (s : Appraisal) : Prop :=
  s.options.dryRun = true ∧ s.stage = .before

theorem Unreserved.next {s : Appraisal} (h : Unreserved s) {op : Op host} (hallowed : s.allowed op)
    (a : Ans host op) : Unreserved (s.next op a) := by
  obtain ⟨hdry, hstage⟩ := h
  refine ⟨hdry, ?_⟩
  rw [Appraisal.next_stage]
  cases op with
  | lookup | reserve => exact absurd (hallowed.2.1.symm.trans hdry) (by simp)
  | pendingDecision promise => exact absurd (hstage.symm.trans hallowed) (by simp)
  | set => exact absurd (hstage.symm.trans hallowed.1) (by simp)
  | abortDecision =>
      rcases hallowed.1 with hholding | habandoned
      · exact absurd (hstage.symm.trans hholding) (by simp)
      · exact absurd (hstage.symm.trans habandoned) (by simp)
  | _ => exact hstage

theorem Unreserved.observes {s : Appraisal} (h : Unreserved s) {op : Op host}
    (hallowed : s.allowed op) : Observes op := by
  obtain ⟨hdry, hstage⟩ := h
  cases op with
  | auditWrite => exact .inr rfl
  | reserve => exact absurd (hallowed.2.1.symm.trans hdry) (by simp)
  | approvalCreate | approvalDelete | set =>
      exact absurd (hstage.symm.trans hallowed.1) (by simp)
  | abortDecision =>
      rcases hallowed.1 with hholding | habandoned
      · exact absurd (hstage.symm.trans hholding) (by simp)
      · exact absurd (hstage.symm.trans habandoned) (by simp)
  | approvalConsumeOneTime | begin | complete | completeAudit | failAudit | abort
  | cachedCompleteAudit | enterConnector => exact False.elim hallowed
  | _ => exact .inl rfl

theorem within_evaluate (service : GuardrailService) (rawIntent : Option Json)
    {options : EvaluationOptions} (hdry : options.dryRun = true) :
    (run (service.evaluate rawIntent options) () Ret.decided).Within
      (@Observes host) := by
  refine Program.within_bind ?_ fun _ => True.intro
  exact (obeys_evaluate service rawIntent options).within_of (I := Unreserved) ⟨hdry, rfl⟩
    (fun s op a h hallowed => h.next hallowed a) fun s op h hallowed => h.observes hallowed

/-- Every call of the system does what its entry allows: a dry run only observes. -/
theorem within_program (p : Nat) (entry : Entry host) :
    ((dep.system host).program p entry).Within fun op => isDryRun entry = true → Observes op := by
  cases entry with
  | dryRun approval => exact (within_dryRun (dep.broker p) approval).mono fun _ h _ => h
  | evaluate rawIntent options =>
      cases hdry : options.dryRun with
      | true => exact (within_evaluate (dep.service p) rawIntent hdry).mono fun _ h _ => h
      | false =>
          refine (Program.within_true _).mono fun _ _ h => ?_
          exact absurd (hdry.symm.trans h) (by simp)
  | execute | callback => exact (Program.within_true _).mono fun _ _ h => by cases h

theorem eq_of_frame {w w' : World host} (h : Deployment.Frame .nothing w w') : w' = w := by
  have hprocesses : w'.processes = w.processes := by
    funext q
    have hentries := h.entries (by simp) q
    have hpending := h.pending (by simp) q
    have hdecisions := h.decisions (by simp) q
    have hactive := h.active q
    cases hl : w'.processes q
    cases hl' : w.processes q
    rw [hl, hl'] at hentries hpending hdecisions hactive
    congr
  cases w'
  cases w
  congr
  · exact h.file (by simp)
  · exact h.approvals (by simp)
  · exact h.audit (by simp)
  · exact h.submitted (by simp)
  · exact h.promises (by simp)

theorem reads_of_observes (haudit : dep.audit = .anything) {p : Nat} {op : Op host}
    (h : Observes op) : (dep.system host).Reads p op := by
  intro i w a w' hperformed
  rcases h with hnothing | haudited
  · have hframe := dep.perform_frame hperformed
    rw [hnothing] at hframe
    exact eq_of_frame hframe
  · cases op with
    | auditWrite event =>
        simp only [Deployment.systemOf, Deployment.system, Deployment.perform,
          Deployment.auditWrite, haudit] at hperformed
        cases hperformed
        rfl
    | _ => cases haudited

section

variable {gone : Nat → Bool} {log : History host} {p parent : Nat}

theorem isCrash_erase :
    (erase renumber gone log).any (Deployment.isCrash p) = log.any (Deployment.isCrash p) := by
  induction log with
  | nil => rfl
  | cons event log ih =>
      cases event with
      | started c q e | did c op a | returned c r =>
          simp only [erase, List.filterMap_cons, Event.erase, List.any_cons, Deployment.isCrash,
            Bool.false_or]
          split_ifs
          · exact ih
          · exact ih
      | crashed | outside =>
          simp only [erase, List.filterMap_cons, Event.erase, List.any_cons]
          rw [← ih]
          rfl

theorem isParent_erase {request : Request host}
    (hquiet : ∀ c q e, .started c q e ∈ log → gone c = true → isDryRun e = true)
    (h : log.any (Deployment.isParent parent p request) = true) : gone parent = false ∧
      (erase renumber gone log).any (Deployment.isParent (rank gone parent) p request) = true := by
  obtain ⟨event, hmem, hparent⟩ := List.any_eq_true.mp h
  unfold Deployment.isParent at hparent
  split at hparent
  · simp only [Bool.and_eq_true, beq_iff_eq] at hparent
    obtain ⟨⟨⟨hcall, hproc⟩, happroval⟩, hauthorization⟩ := hparent
    rw [hcall] at hmem
    have hstays : gone parent = false := by
      cases hgone : gone parent with
      | false => rfl
      | true => cases hquiet _ _ _ hmem hgone
    refine ⟨hstays, List.any_eq_true.mpr ⟨_, started_mem_erase hstays hmem, ?_⟩⟩
    simp [Deployment.isParent, renumber, hproc, happroval, hauthorization]
  · cases hparent

theorem gaveCallback_erase {intent : TradingIntent host} (hstays : gone parent = false)
    (h : log.any (Deployment.gaveCallback parent intent) = true) :
    (erase renumber gone log).any (Deployment.gaveCallback (rank gone parent) intent) = true := by
  obtain ⟨event, hmem, hgave⟩ := List.any_eq_true.mp h
  unfold Deployment.gaveCallback at hgave
  split at hgave
  · simp only [Bool.and_eq_true, beq_iff_eq] at hgave
    rw [hgave.1] at hmem
    refine List.any_eq_true.mpr ⟨_, did_mem_erase hstays hmem, ?_⟩
    simp [Deployment.gaveCallback, hgave.2]
  · cases hgave

theorem enabled_erase (entry : Entry host)
    (hquiet : ∀ c q e, .started c q e ∈ log → gone c = true → isDryRun e = true)
    (h : Deployment.enabled log p entry = true) :
    Deployment.enabled (erase renumber gone log) p (renumber (rank gone) entry) = true := by
  simp only [Deployment.enabled, Bool.and_eq_true] at h ⊢
  obtain ⟨hcrash, hentry⟩ := h
  refine ⟨by rw [isCrash_erase]; exact hcrash, ?_⟩
  cases entry with
  | callback parent request =>
      simp only [Bool.and_eq_true] at hentry
      obtain ⟨hstays, hparent⟩ := isParent_erase hquiet hentry.1
      simp only [renumber, Bool.and_eq_true]
      exact ⟨hparent, gaveCallback_erase hstays hentry.2⟩
  | execute | dryRun | evaluate => rfl

end

def eraser (dep : Deployment) (host : Host) (haudit : dep.audit = .anything) :
    Eraser (dep.system host) where
  quiet := isDryRun
  rename := renumber
  reads p e hdry := (within_program p e).mono fun _ h => reads_of_observes haudit (h hdry)
  program ρ p e := by
    cases e <;> rfl
  enabled gone log p e := enabled_erase e

end DryRuns

/-- Dry runs only observe, and can be taken out of a run. -/
theorem dry_runs_erasable (h : (dep.system host).Reachable cfg) :
    (∀ c p entry op (a : Ans host op), entryOf c cfg.log = some (p, entry) →
      isDryRun entry = true → .did c op a ∈ cfg.log → DryRuns.Observes op) ∧
    (dep.audit = .anything → ∀ gone : Nat → Bool,
      (∀ c p entry, .started c p entry ∈ cfg.log → gone c = true → isDryRun entry = true) →
      ∃ left, (dep.system host).Reachable left ∧ left.world = cfg.world ∧
        left.log = erase renumber gone cfg.log) := by
  constructor
  · intro c p entry op a hentry hdry hmem
    exact Discipline.did_within DryRuns.within_program h hmem hentry hdry
  · intro haudit gone hquiet
    obtain ⟨left, hleft, hleaves⟩ := (DryRuns.eraser dep host haudit).leaves_reachable h hquiet
    exact ⟨left, hleft, hleaves.world, hleaves.log⟩

def rehearsalSteps : List (Step (signature digestHost)) :=
  [.start 0 (.evaluate (some simulationIntent) { correlationId := some "d", dryRun := true })] ++
    quietly 0 2 ++ [.start 0 simulationExecution] ++ quietly 1 3 ++
    List.replicate 3 (told 1 (.bool false)) ++
    [told 0 (.bool true), told 1 (.record [("passed", some (.bool true))])] ++ quietly 1 1 ++
    List.replicate 3 (told 1 (.bool false)) ++ quietly 1 1

def firstDryRun : Event (signature digestHost) → Bool
  | .started c _ entry => c != 0 || isDryRun entry
  | _ => true

theorem dry_runs_erasable_rehearsal : ∃ left, (paperDeployment.system digestHost).Reachable left ∧
    left.world = (digestRun rehearsalSteps).world ∧
    left.log = erase renumber (· == 0) (digestRun rehearsalSteps).log ∧
    left.log.any (submits 0 simulationIntentOf) = true := by
  have hrun : (digestRun rehearsalSteps).log.all firstDryRun = true ∧
      (erase renumber (· == 0) (digestRun rehearsalSteps).log).any
        (submits 0 simulationIntentOf) = true := by
    decide +kernel
  obtain ⟨-, herasable⟩ := dry_runs_erasable (digestRun_reachable rehearsalSteps)
  obtain ⟨left, hleft, hworld, hlog⟩ := herasable rfl (· == 0) fun c p entry hmem hgone => by
    have hfirst := List.all_eq_true.mp hrun.1 _ hmem
    rw [beq_iff_eq] at hgone
    simpa [firstDryRun, hgone] using hfirst
  refine ⟨left, hleft, hworld, hlog, ?_⟩
  rw [hlog]
  exact hrun.2

end TradingGuardrails
