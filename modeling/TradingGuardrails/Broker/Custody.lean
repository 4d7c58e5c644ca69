import TradingGuardrails.Broker.Attempt

/-!
Who has a key. A call that was given a key has it until it records a result that needs no
audit, fails to record one, gives the key up, or is told how the audit ended. No call of
`execute` ends while it has a key; one that cannot close the audit is stuck with it.
-/
namespace TradingGuardrails

open Text Interleaving

inductive Custody where
  | free
  | held (handle : Handle)
  | stuck
  deriving DecidableEq

namespace Custody

variable {host : Host}

def next : Custody → (op : Op host) → Ans host op → Custody
  | .free, .begin key intent, .ok .reserved => .held (handleFor host key intent)
  | .held _, .complete _ _ none, _ => .free
  | .held _, .complete _ _ (some _), .error _ => .free
  | .held _, .completeAudit _, .ok _ => .free
  | .held _, .completeAudit _, .error _ => .stuck
  | .held _, .failAudit _ _, _ => .free
  | .held _, .abort _ _, _ => .free
  | s, _, _ => s

/-- A call that has a key only closes that one, and is given no other. -/
def allowed : Custody → Op host → Prop
  | .held _, .begin _ _ => False
  | .stuck, .begin _ _ => False
  | .held handle, .complete handle' _ _ => handle' = handle
  | .held handle, .completeAudit handle' => handle' = handle
  | .held handle, .failAudit handle' _ => handle' = handle
  | .held handle, .abort handle' _ => handle' = handle
  | _, _ => True

abbrev contract (host : Host) : Contract (Op host) (Ans host) where
  State := Custody
  next := next
  allowed := allowed

def concerns : Op host → Bool
  | .begin _ _ | .complete _ _ _ | .completeAudit _ | .failAudit _ _ | .abort _ _ => true
  | _ => false

theorem inert {op : Op host} (h : concerns op = false) (s : Custody) :
    (contract host).Inert s op := by
  cases op with
  | begin | complete | completeAudit | failAudit | abort => cases h
  | _ => cases s <;> exact ⟨True.intro, fun _ => rfl⟩

def Ended (s : Custody) : Prop :=
  ∀ handle, s ≠ .held handle

theorem ended_free : Ended .free := by
  intro handle h
  cases h

theorem ended_stuck : Ended .stuck := by
  intro handle h
  cases h

theorem Ended.allowed {s : Custody} (h : s.Ended) {op : Op host}
    (hop : ∀ key intent, op ≠ .begin key intent) : s.allowed op := by
  cases s with
  | held handle => exact absurd rfl (h handle)
  | free => cases op <;> trivial
  | stuck =>
      cases op with
      | begin key intent => exact absurd rfl (hop key intent)
      | _ => trivial

theorem Ended.next {s : Custody} (h : s.Ended) {op : Op host}
    (hop : ∀ key intent, op ≠ .begin key intent) (a : Ans host op) : (s.next op a).Ended := by
  cases s with
  | held handle => exact absurd rfl (h handle)
  | free =>
      cases op with
      | begin key intent => exact absurd rfl (hop key intent)
      | _ => exact ended_free
  | stuck => exact ended_stuck

def Closes (handle : Handle) (s : Custody) (l : Flags) : Prop :=
  s.Ended ∨ s = .held handle ∧ l.reservationCompleted = false ∧
    l.terminalPersistenceStarted = false

end Custody

open Custody

namespace Custody

section

variable {host : Host} {σ : Type} {s : Custody} {l : σ} {err : Custody → σ → Thrown → Prop}

theorem custody_auditWrite {event : Json} {ok : Custody → σ → Unit → Prop} (hok : ok s l ())
    (herr : ∀ e, err s l e) :
    Routine.Obeys (contract host) ok err s l (Script.auditWrite event) :=
  Script.obeys_auditWrite (inert rfl s) hok herr

theorem custody_rejectRequest {broker : ExecutionBroker} {request : Request host}
    {rule message : String} {ok : Custody → σ → Json → Prop} (hok : ∀ r, ok s l r)
    (herr : ∀ e, err s l e) :
    Routine.Obeys (contract host) ok err s l (broker.rejectRequest request rule message) := by
  simp only [ExecutionBroker.rejectRequest, ExecutionBroker.reject, Routine.obeys_bind]
  exact custody_auditWrite (hok _) herr

end

section

variable {host : Host} {broker : ExecutionBroker} {request : Request host} {handle : Handle}
  {s : Custody} {l : Flags}

theorem custody_abortReservation {error : Thrown} {ok : Custody → Flags → Unit → Prop}
    {err : Custody → Flags → Thrown → Prop} (hs : s.Ended ∨ s = .held handle)
    (hok : ∀ s', s'.Ended → ok s' l ()) (herr : ∀ s' e, s'.Ended → err s' l e) :
    Routine.Obeys (contract host) ok err s l (ExecutionBroker.abortReservation handle error) := by
  have hop : ∀ key intent, (.abort handle error : Op host) ≠ .begin key intent := by
    intro key intent h
    cases h
  have hended : ∀ a, (s.next (.abort handle error : Op host) a).Ended := by
    intro a
    rcases hs with hended | rfl
    · exact hended.next hop a
    · exact ended_free
  simp only [ExecutionBroker.abortReservation, Routine.obeys_bind, Routine.obeys_perform]
  refine ⟨?_, fun a => ?_⟩
  · rcases hs with hended | rfl
    · exact hended.allowed hop
    · exact rfl
  · rw [Routine.obeys_ofExcept]
    exact ⟨fun _ _ => hok _ (hended a), fun e _ => herr _ e (hended a)⟩

theorem custody_abortAndRethrow {α : Type} {error : Thrown} {ok : Custody → Flags → α → Prop}
    (hs : s.Closes handle l) :
    Routine.Obeys (contract host) ok (fun s _ _ => s.Ended) s l
      (ExecutionBroker.abortAndRethrow handle error) := by
  simp only [ExecutionBroker.abortAndRethrow, Routine.obeys_bind, Routine.obeys_get]
  split_ifs with hflags
  · simp only [Routine.obeys_bind]
    exact custody_abortReservation (hs.imp_right And.left) (fun _ h => h) fun _ _ h => h
  · rcases hs with hended | ⟨-, hcompleted, hstarted⟩
    · exact hended
    · rw [hcompleted, hstarted] at hflags
      exact absurd rfl hflags

/-- How a gate ends: it lets the call pass with its key, or it refuses it and has closed the
key, or an exception leaves and the key will be closed. -/
structure Gate (handle : Handle) (l : Flags) (ok : Custody → Flags → Option Json → Prop)
    (err : Custody → Flags → Thrown → Prop) : Prop where
  passed : ok (.held handle) l none
  refused : ∀ s' l' result, s'.Ended → ok s' l' (some result)
  thrown : ∀ s' e, s'.Closes handle l → err s' l e

variable {ok : Custody → Flags → Option Json → Prop} {err : Custody → Flags → Thrown → Prop}

theorem custody_rejectAndAbort {rule message : String} (ends : Gate handle l ok err)
    (hclose : (held handle).Closes handle l) :
    Routine.Obeys (contract host) ok err (.held handle) l
      (broker.rejectAndAbort request handle rule message) := by
  simp only [ExecutionBroker.rejectAndAbort, Routine.obeys_bind]
  refine custody_rejectRequest (fun r => ?_) fun e => ends.thrown _ e hclose
  refine custody_abortReservation (.inr rfl) (fun s' h => ?_) fun s' e h => ends.thrown s' e (.inl h)
  exact ends.refused _ _ _ h

theorem custody_rejectAndFinish {rule message : String} (ends : Gate handle l ok err)
    (hclose : (held handle).Closes handle l) :
    Routine.Obeys (contract host) ok err (.held handle) l
      (broker.rejectAndFinish request handle rule message) := by
  simp only [ExecutionBroker.rejectAndFinish, ExecutionBroker.finish, Routine.obeys_bind,
    Routine.obeys_map]
  refine custody_rejectRequest (fun r => ?_) fun e => ends.thrown _ e hclose
  rw [Routine.obeys_perform]
  refine ⟨rfl, fun a => ?_⟩
  rw [Routine.obeys_ofExcept]
  exact ⟨fun _ _ => ends.refused _ _ _ ended_free, fun e _ => ends.thrown _ e (.inl ended_free)⟩

theorem custody_killSwitchGate (ends : Gate handle l ok err)
    (hclose : (held handle).Closes handle l) :
    Routine.Obeys (contract host) ok err (.held handle) l
      (broker.killSwitchGate request handle) := by
  have hthrow := fun e => ends.thrown _ e hclose
  simp only [ExecutionBroker.killSwitchGate, Routine.obeys_bind]
  refine obeys_firstBlocking (fun _ => inert rfl _) (fun r => ?_) hthrow _
  cases r with
  | none => exact ends.passed
  | some scope =>
      simp only [Routine.obeys_bind]
      exact custody_auditWrite (custody_rejectAndFinish ends hclose) hthrow

theorem custody_revalidationGate (ends : Gate handle l ok err)
    (hclose : (held handle).Closes handle l) :
    Routine.Obeys (contract host) ok err (.held handle) l
      (broker.revalidationGate opaqueConnector request handle) := by
  have hthrow := fun e => ends.thrown _ e hclose
  simp only [ExecutionBroker.revalidationGate, opaqueConnector, Routine.obeys_bind,
    Routine.obeys_withLocals, Routine.obeys_perform]
  refine ⟨True.intro, fun reply => ?_⟩
  simp only [Routine.obeys_ofExcept]
  refine ⟨fun revalidation _ => ⟨fun passed _ => ⟨fun redacted _ => ?_, fun e _ => hthrow e⟩,
    fun e _ => hthrow e⟩, fun e _ => hthrow e⟩
  refine custody_auditWrite ?_ hthrow
  split_ifs
  · exact ends.passed
  · simp only [Routine.obeys_bind, Routine.obeys_ofExcept]
    refine ⟨fun reason _ => custody_auditWrite ?_ hthrow, fun e _ => hthrow e⟩
    exact custody_rejectAndFinish ends hclose

theorem custody_freshnessGate (ends : Gate handle l ok err)
    (hclose : (held handle).Closes handle l) :
    Routine.Obeys (contract host) ok err (.held handle) l
      (broker.freshnessGate request handle) := by
  unfold ExecutionBroker.freshnessGate
  split_ifs
  · simp only [Routine.obeys_bind, Script.obeys_now]
    refine ⟨True.intro, fun t => ?_⟩
    split_ifs
    · exact ends.passed
    · exact custody_rejectAndAbort ends hclose
  · exact ends.passed

theorem custody_consumptionGate (ends : Gate handle l ok err)
    (hclose : (held handle).Closes handle l) :
    Routine.Obeys (contract host) ok err (.held handle) l
      (broker.consumptionGate request handle) := by
  unfold ExecutionBroker.consumptionGate
  split
  · simp only [Script.consumeOneTime, Routine.obeys_bind, Routine.obeys_perform]
    refine ⟨True.intro, fun a => ?_⟩
    rw [Routine.obeys_ofExcept]
    refine ⟨fun consumption _ => ?_, fun e _ => ends.thrown _ e hclose⟩
    rw [Routine.obeys_pure]
    cases consumption.request with
    | none => exact custody_rejectAndFinish ends hclose
    | some r => exact ends.passed
  · exact ends.passed

theorem custody_approvalGate {approvalId : String} (ends : Gate handle l ok err)
    (hclose : (held handle).Closes handle l) :
    Routine.Obeys (contract host) ok err (.held handle) l
      (broker.approvalGate request handle approvalId) := by
  simp only [ExecutionBroker.approvalGate, Script.approvalGet, Routine.obeys_bind,
    Routine.obeys_perform]
  refine ⟨True.intro, fun a => ?_⟩
  rw [Routine.obeys_ofExcept]
  refine ⟨fun found _ => ?_, fun e _ => ends.thrown _ e hclose⟩
  cases found with
  | none => exact custody_rejectAndAbort ends hclose
  | some approved =>
      rw [Routine.obeys_ite, Routine.obeys_ite]
      refine ⟨fun _ => custody_rejectAndFinish ends hclose, fun _ =>
        ⟨fun _ => custody_rejectAndAbort ends hclose, fun _ => ?_⟩⟩
      simp only [Routine.obeys_bind, Script.obeys_now]
      refine ⟨True.intro, fun t => ?_⟩
      split_ifs
      · exact custody_rejectAndFinish ends hclose
      · exact custody_rejectAndFinish ends hclose
      · exact ends.passed

theorem custody_admission (ends : Gate handle l ok err)
    (hclose : (held handle).Closes handle l) :
    Routine.Obeys (contract host) ok err (.held handle) l (broker.admission request handle) := by
  unfold ExecutionBroker.admission
  split_ifs
  · rw [Routine.obeys_bind, Routine.obeys_ofExcept]
    refine ⟨fun matching _ => ?_, fun e _ => ends.thrown _ e hclose⟩
    beta_reduce
    split_ifs
    · exact custody_rejectAndAbort ends hclose
    · split
      · exact custody_approvalGate ends hclose
      · exact ends.passed
  · rw [Routine.obeys_bind, Routine.obeys_pure]
    beta_reduce
    rw [if_neg (by decide)]
    split
    · exact custody_approvalGate ends hclose
    · exact ends.passed

theorem custody_gates (gates : List (Script host Flags (Option Json)))
    (hgates : ∀ gate ∈ gates, ∀ {ok : Custody → Flags → Option Json → Prop},
      Gate handle l ok err → Routine.Obeys (contract host) ok err (.held handle) l gate)
    (ends : Gate handle l ok err) :
    Routine.Obeys (contract host) ok err (.held handle) l (ExecutionBroker.gates gates) := by
  induction gates with
  | nil => exact ends.passed
  | cons gate gates ih =>
      rw [ExecutionBroker.gates, Routine.obeys_bind]
      have hrest := ih fun gate h => hgates gate (List.mem_cons_of_mem _ h)
      exact hgates gate List.mem_cons_self
        ⟨hrest, fun s' l' result h => ends.refused s' l' result h, ends.thrown⟩

theorem custody_finishExecutionWithAudit {record : Record} {ok : Custody → Flags → Json → Prop}
    {err : Custody → Flags → Thrown → Prop} (hok : ∀ s' l' r, s'.Ended → ok s' l' r)
    (herr : ∀ s' l' e, s'.Ended → err s' l' e) :
    Routine.Obeys (contract host) ok err (.held handle) l
      (ExecutionBroker.finishExecutionWithAudit handle record) := by
  simp only [ExecutionBroker.finishExecutionWithAudit, Routine.obeys_bind, Routine.obeys_modify,
    Routine.obeys_perform]
  refine ⟨rfl, fun completion => ?_⟩
  cases completion with
  | error failure =>
      refine ⟨True.intro, fun written => ?_⟩
      cases written with
      | error e =>
          simp only [Routine.obeys_bind]
          exact ⟨True.intro, fun _ => herr _ _ e ended_free⟩
      | ok u =>
          simp only [Routine.obeys_bind, Routine.obeys_ofExcept]
          exact ⟨fun _ h => (by cases h), fun e _ => herr _ _ e ended_free⟩
  | ok done =>
      refine ⟨True.intro, fun written => ?_⟩
      cases written with
      | error e =>
          simp only [Routine.obeys_bind]
          exact ⟨rfl, fun _ => herr _ _ e ended_free⟩
      | ok u =>
          simp only [Routine.obeys_bind, Routine.obeys_ofExcept, Routine.obeys_perform,
            Routine.obeys_pure]
          refine ⟨fun _ _ => ⟨rfl, fun a => ?_⟩, fun e h => (by cases h)⟩
          cases a with
          | ok closed => exact ⟨fun _ _ => hok _ _ _ ended_free, fun e h => (by cases h)⟩
          | error e => exact ⟨fun _ h => (by cases h), fun e _ => herr _ _ e ended_stuck⟩

theorem custody_submit {ok : Custody → Flags → Json → Prop}
    {err : Custody → Flags → Thrown → Prop} (hclose : (held handle).Closes handle l)
    (hok : ∀ s' l' r, s'.Ended → ok s' l' r) (herr : ∀ s' l' e, s'.Closes handle l' → err s' l' e) :
    Routine.Obeys (contract host) ok err (.held handle) l
      (broker.submit opaqueConnector request handle) := by
  simp only [ExecutionBroker.submit, opaqueConnector, Routine.obeys_bind, Routine.obeys_perform,
    Routine.obeys_tryCatch, Routine.obeys_map, Routine.obeys_withLocals]
  refine ⟨True.intro, fun _ => ⟨True.intro, fun reply => ?_⟩⟩
  have hrecord : Routine.Obeys (contract host) ok err (.held handle) l (do
      let record ← Routine.ofExcept (broker.recordOf request reply)
      ExecutionBroker.finishExecutionWithAudit handle record) := by
    rw [Routine.obeys_bind, Routine.obeys_ofExcept]
    exact ⟨fun record _ => custody_finishExecutionWithAudit hok
      fun s' l' e h => herr s' l' e (.inl h), fun e _ => herr _ _ e hclose⟩
  rw [Routine.obeys_bind] at hrecord
  cases reply with
  | ok evidence => exact hrecord
  | error e => exact hrecord

theorem custody_executeReserved :
    Routine.Obeys (contract host) (fun s _ _ => s.Ended) (fun s _ _ => s.Ended) (.held handle) {}
      (broker.executeReserved opaqueConnector request handle) := by
  have hclose : (held handle).Closes handle {} := .inr ⟨rfl, rfl, rfl⟩
  simp only [ExecutionBroker.executeReserved, Routine.obeys_bind, Routine.obeys_tryCatch]
  refine custody_admission ⟨?_, fun _ _ _ h => h, fun s' e h => custody_abortAndRethrow h⟩ hclose
  simp only [Routine.obeys_bind, Routine.obeys_tryCatch]
  refine custody_gates _ ?_ ⟨?_, fun _ _ _ h => h, fun s' e h => custody_abortAndRethrow h⟩
  · intro gate hgate ok ends
    simp only [List.mem_cons, List.not_mem_nil, or_false] at hgate
    rcases hgate with rfl | rfl | rfl | rfl | rfl
    · exact custody_killSwitchGate ends hclose
    · exact custody_revalidationGate ends hclose
    · exact custody_killSwitchGate ends hclose
    · exact custody_freshnessGate ends hclose
    · exact custody_consumptionGate ends hclose
  · exact custody_submit hclose (fun _ _ _ h => h) fun s' l' e h => custody_abortAndRethrow h

theorem custody_executeOnce :
    Routine.Obeys (contract host) (fun s _ _ => s.Ended) (fun s _ _ => s.Ended) .free {}
      (broker.executeOnce opaqueConnector request) := by
  simp only [ExecutionBroker.executeOnce, Routine.obeys_bind, Routine.obeys_perform]
  refine ⟨True.intro, fun a => ?_⟩
  cases a with
  | error e =>
      dsimp only
      split
      · exact custody_rejectRequest (fun _ => ended_free) fun _ => ended_free
      · exact ended_free
  | ok reservation =>
      cases reservation with
      | reserved => exact custody_executeReserved
      | cached result pendingAudit =>
          simp only [Routine.obeys_bind]
          cases pendingAudit with
          | none => exact ended_free
          | some event =>
              simp only [ExecutionBroker.flushPendingTerminalAudit, Routine.obeys_bind,
                Routine.obeys_perform]
              refine custody_auditWrite ⟨True.intro, fun a => ?_⟩ fun _ => ended_free
              rw [Routine.obeys_ofExcept]
              exact ⟨fun _ _ => ended_free, fun _ _ => ended_free⟩
      | pending promised =>
          simp only [Routine.obeys_bind, Routine.obeys_perform, Routine.obeys_ofExcept]
          exact ⟨True.intro, fun answer => ⟨fun _ _ => ended_free, fun _ _ => ended_free⟩⟩

theorem custody_executeRequest :
    Routine.Obeys (contract host) (fun s _ _ => s.Ended) (fun s _ _ => s.Ended) .free {}
      (broker.executeRequest opaqueConnector request) := by
  have hreject : ∀ {rule message}, Routine.Obeys (contract host) (fun s _ _ => s.Ended)
      (fun s _ _ => s.Ended) .free ({} : Flags) (broker.rejectRequest request rule message) :=
    custody_rejectRequest (fun _ => ended_free) fun _ => ended_free
  have hrest : ∀ ready : Bool, Routine.Obeys (contract host) (fun s _ _ => s.Ended)
      (fun s _ _ => s.Ended) .free ({} : Flags)
      (if !ready then
        broker.rejectRequest request "live_preflight_failed" "Live-mode preflight failed."
      else do
        let requests ← Script.approvalList
        if ExecutionBroker.approvalMissing request requests then
          broker.rejectRequest request "approval_missing"
            "Human approval is required before execution."
        else broker.executeOnce opaqueConnector request) := by
    intro ready
    split_ifs
    · exact hreject
    · simp only [Script.approvalList, Routine.obeys_bind, Routine.obeys_perform,
        Routine.obeys_ofExcept]
      refine ⟨True.intro, fun a => ⟨fun requests _ => ?_, fun _ _ => ended_free⟩⟩
      split_ifs
      · exact hreject
      · exact custody_executeOnce
  simp only [ExecutionBroker.executeRequest, Routine.obeys_bind, Routine.obeys_ofExcept]
  refine ⟨fun refusal _ => ?_, fun _ _ => ended_free⟩
  cases refusal with
  | some refused => exact hreject
  | none =>
      dsimp only
      split_ifs
      · simp only [Routine.obeys_bind, Routine.obeys_map]
        exact obeys_runPreflight (fun _ => inert rfl _) (inert rfl _) (inert rfl _)
          (fun _ _ _ => inert rfl _) fun checks _ => hrest _
      · rw [Routine.obeys_bind, Routine.obeys_pure]
        exact hrest true

/-- No call of `execute` ends with a key that it has. -/
theorem custody_execute (approval : Json) (dryRunAuthorization : Option Json) :
    Routine.Obeys (contract host) (fun s _ _ => s.Ended) (fun s _ _ => s.Ended) .free {}
      (broker.execute opaqueConnector approval dryRunAuthorization) := by
  simp only [ExecutionBroker.execute, Routine.obeys_bind, Script.obeys_now]
  refine ⟨True.intro, fun t => ?_⟩
  split
  · simp only [ExecutionBroker.reject, Routine.obeys_bind]
    exact custody_auditWrite ended_free fun _ => ended_free
  · exact custody_executeRequest

end

end Custody
end TradingGuardrails
