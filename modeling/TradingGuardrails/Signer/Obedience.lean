import TradingGuardrails.Signer.Runtime

/-!
The contract of a request to the signer: at which stage it may reserve, sign and publish,
and on which grounds. Every call obeys it, whatever it is answered.
-/
namespace TradingGuardrails

open Text Interleaving

namespace Signer

variable {host : Host}

/-- How far a call has come, with the reading of the clock by which it was let through. -/
inductive Stage where
  | start
  | timed (now : Int)
  | missing (now : Int)
  | reserved (now : Int)
  | signing (now : Int)
  | signed (now : Int) (signedTransaction : String)
  | published (result : OfflineSignature)
  | cached (requestHash : String) (result : OfflineSignature)
  | finished

structure SigningAttempt (host : Host) where
  signer : SignerProcess
  call : SignCall host
  stage : Stage := .start

namespace SigningAttempt

def stageAfter (s : SigningAttempt host) : (op : SignerOp) → SignerAns op → Stage
  | .now, now => .timed now
  | .find _, .ok none => match s.stage with
    | .timed now => .missing now
    | _ => .finished
  | .find _, .ok (some (requestHash, some result)) => .cached requestHash result
  | .find _, _ => .finished
  | .reserve _, .ok true => match s.stage with
    | .missing now => .reserved now
    | _ => .finished
  | .reserve _, _ => .finished
  | .audit _, _ => s.stage
  | .signTransaction _, () => match s.stage with
    | .reserved now => .signing now
    | _ => .finished
  | .awaitSigned _, .ok signedTransaction => match s.stage with
    | .signing now => .signed now signedTransaction
    | _ => .finished
  | .awaitSigned _, .error _ => .finished
  | .complete result _, .ok true => .published result
  | .complete _ _, _ => .finished

def next (s : SigningAttempt host) (op : SignerOp) (a : SignerAns op) : SigningAttempt host :=
  { s with stage := s.stageAfter op a }

/-- The request that the call serves may be signed, by what its checks have found. -/
structure Serves (s : SigningAttempt host) (request : SigningRequest host) (now : Int) : Prop where
  body : s.call.body = .ok request
  authorized : Authorized s.signer.config request now

def Allowed (s : SigningAttempt host) : SignerOp → Prop
  | .now => s.stage = .start
  | .find key => ∃ request now, s.Serves request now ∧ s.stage = .timed now ∧
      key = request.intent.idempotencyKey
  | .reserve row => ∃ request now, s.Serves request now ∧ s.stage = .missing now ∧
      row = reservation request
  | .audit _ => True
  | .signTransaction transaction => ∃ request now, s.Serves request now ∧
      s.stage = .reserved now ∧ transaction = unsigned request
  | .awaitSigned transaction => ∃ request now, s.Serves request now ∧
      s.stage = .signing now ∧ transaction = unsigned request
  | .complete result key => ∃ request now signedTransaction, s.Serves request now ∧
      s.stage = .signed now signedTransaction ∧
      result = signature s.signer.viem request s.signer.address signedTransaction ∧
      key = request.intent.idempotencyKey

/-- A result that may be returned: the one that was published, or one found under the key
with the hash of the request. -/
def Settled (s : SigningAttempt host) (result : OfflineSignature) : Prop :=
  ∃ request, s.call.body = .ok request ∧
    (s.stage = .published result ∨ s.stage = .cached request.requestHash result)

end SigningAttempt

abbrev contract (host : Host) : Contract SignerOp SignerAns where
  State := SigningAttempt host
  next := SigningAttempt.next
  allowed := SigningAttempt.Allowed

abbrev discipline (process : Nat → SignerProcess) : Discipline (signerMachine host) where
  toContract := contract host
  start p call := ⟨process p, call, .start⟩
  final s response := ∀ result, response.body = .ok result → s.Settled result

variable {ok : SigningAttempt host → Unit → OfflineSignature → Prop}
  {s : SigningAttempt host}

abbrev Obeys (host : Host) {α : Type} (ok : SigningAttempt host → Unit → α → Prop)
    (s : SigningAttempt host) (m : Script α) : Prop :=
  Routine.Obeys (contract host) ok (fun _ _ _ => True) s () m

theorem obeys_act {op : SignerOp} {ok : SigningAttempt host → Unit → SignerAns op → Prop}
    (hallowed : s.Allowed op) (h : ∀ a, ok (s.next op a) () a) : Obeys host ok s (act op) :=
  Routine.obeys_perform.mpr ⟨hallowed, h⟩

theorem obeys_settle {α : Type} {ok : SigningAttempt host → Unit → α → Prop}
    {x : Except Thrown α} (h : ∀ a, x = .ok a → ok s () a) : Obeys host ok s (settle x) := by
  cases x with
  | ok a => exact h a rfl
  | error e => exact True.intro

theorem obeys_check {x : Except SignerError Unit} {ok : SigningAttempt host → Unit → Unit → Prop}
    (h : x = .ok () → ok s () ()) : Obeys host ok s (check x) :=
  Routine.obeys_ofExcept.mpr ⟨fun _ hx => h hx, fun _ _ => True.intro⟩

variable {signer : SignerProcess} {call : SignCall host} {request : SigningRequest host}

theorem obeys_replay {requestHash : String} {response : Option OfflineSignature}
    (hbody : call.body = .ok request)
    (hstage : ∀ result, response = some result → s.stage = .cached requestHash result)
    (hcall : s.call = call) :
    Obeys host (fun s _ result => s.Settled result) s
      (signer.replay request requestHash response) := by
  unfold SignerProcess.replay
  cases response with
  | none => exact True.intro
  | some result =>
      simp only
      split_ifs with hhash haccepted
      · exact True.intro
      · exact True.intro
      · refine Routine.obeys_bind.mpr (obeys_settle fun _ _ => ?_)
        rw [not_not] at hhash
        exact ⟨request, by rw [hcall, hbody], .inr (by rw [hstage result rfl, hhash])⟩

theorem obeys_signReserved {now : Int} (hserves : s.Serves request now)
    (hstage : s.stage = .reserved now) (hsigner : s.signer = signer) :
    Obeys host (fun s _ result => s.Settled result) s (signer.signReserved request) := by
  subst hsigner
  unfold SignerProcess.signReserved
  refine Routine.obeys_bind.mpr (obeys_act True.intro fun audited => ?_)
  refine Routine.obeys_bind.mpr (obeys_settle fun _ _ => ?_)
  refine Routine.obeys_bind.mpr (obeys_act ⟨request, now, ⟨hserves.1, hserves.2⟩, hstage, rfl⟩
    fun _ => ?_)
  have hsigning : ((s.next (.audit _) audited).next (.signTransaction (unsigned request))
      ()).stage = .signing now := by
    simp only [SigningAttempt.next, SigningAttempt.stageAfter, hstage]
  refine Routine.obeys_bind.mpr (obeys_act
    ⟨request, now, ⟨hserves.1, hserves.2⟩, hsigning, rfl⟩ fun answer => ?_)
  refine Routine.obeys_bind.mpr (obeys_settle fun signedTransaction hanswer => ?_)
  cases hanswer
  refine Routine.obeys_bind.mpr (obeys_act True.intro fun audited => ?_)
  refine Routine.obeys_bind.mpr (obeys_settle fun _ _ => ?_)
  refine Routine.obeys_bind.mpr (obeys_act ⟨request, now, signedTransaction,
    ⟨hserves.1, hserves.2⟩, ?_, rfl, rfl⟩ fun completed => ?_)
  · change SigningAttempt.stageAfter _ (.awaitSigned (unsigned request)) (.ok signedTransaction) = _
    simp only [SigningAttempt.stageAfter, hsigning]
  · refine Routine.obeys_bind.mpr (obeys_settle fun changed hchanged => ?_)
    cases hchanged
    split_ifs with hdone
    · subst hdone
      exact ⟨request, hserves.1, .inl rfl⟩
    · exact True.intro

theorem obeys_sign (hdates : ReadsDates host) (hbody : call.body = .ok request) :
    Obeys host (fun s _ result => s.Settled result) ⟨signer, call, .start⟩
      (signer.sign request) := by
  unfold SignerProcess.sign
  refine Routine.obeys_bind.mpr (obeys_check fun htoken => ?_)
  refine Routine.obeys_bind.mpr (obeys_act rfl fun now => ?_)
  refine Routine.obeys_bind.mpr (obeys_check fun hrequest => ?_)
  have hauthorized : Authorized signer.config request now :=
    authorized_of_checks hdates htoken hrequest
  refine Routine.obeys_bind.mpr
    (obeys_act ⟨request, now, ⟨hbody, hauthorized⟩, rfl, rfl⟩ fun found => ?_)
  refine Routine.obeys_bind.mpr (obeys_settle fun existing hexisting => ?_)
  cases hexisting
  cases existing with
  | some entry =>
      obtain ⟨requestHash, response⟩ := entry
      refine obeys_replay hbody (fun result hresponse => ?_) rfl
      subst hresponse
      rfl
  | none =>
      refine Routine.obeys_bind.mpr
        (obeys_act ⟨request, now, ⟨hbody, hauthorized⟩, rfl, rfl⟩ fun answer => ?_)
      refine Routine.obeys_bind.mpr (obeys_settle fun reserved hreserved => ?_)
      cases hreserved
      split_ifs with hdone
      · subst hdone
        have hserves : SigningAttempt.Serves ⟨signer, call, .reserved now⟩ request now :=
          ⟨hbody, hauthorized⟩
        exact obeys_signReserved hserves rfl rfl
      · exact True.intro

theorem obeys_failed {error : SignerError} {config : SignerConfig} :
    Obeys host (fun _ _ response => ∀ result, response.body ≠ .ok result) s
      (failed config call error) := by
  unfold failed
  refine Routine.obeys_bind.mpr (obeys_act True.intro fun audited => ?_)
  cases audited with
  | ok _ => exact fun _ h => by cases h
  | error _ => exact fun _ h => by cases h

/-- Every call obeys the contract. -/
theorem followed (hdates : ReadsDates host) (process : Nat → SignerProcess) :
    (discipline process).Followed (signers host process) := by
  intro p call
  refine Program.obeys_bind.mpr ?_
  have hhandle : Routine.Obeys (contract host)
      (fun s _ response => ∀ result, response.body = .ok result → s.Settled result)
      (fun _ _ _ => True) ⟨process p, call, .start⟩ () (handle (process p) call) := by
    unfold handle
    refine Routine.obeys_tryCatch.mpr (Routine.obeys_bind.mpr (Routine.obeys_ofExcept.mpr
      ⟨fun request hbody => Routine.obeys_bind.mpr ?_, fun error _ => ?_⟩))
    · refine Routine.Obeys.mono (obeys_sign hdates hbody) ?_ ?_
      · intro s _ result hsettled result' heq
        cases heq
        exact hsettled
      · intro s _ error _
        exact Routine.Obeys.mono obeys_failed
          (fun _ _ _ hnone result hresult => absurd hresult (hnone result)) fun _ _ _ h => h
    · exact Routine.Obeys.mono obeys_failed
        (fun _ _ _ hnone result hresult => absurd hresult (hnone result)) fun _ _ _ h => h
  refine Program.Obeys.mono hhandle ?_
  rintro s ⟨result, _⟩ hresult
  cases result with
  | ok response => exact hresult
  | error e => exact fun result heq => by cases heq

end Signer
end TradingGuardrails
