import TradingGuardrails.System.World

/-!
The system: processes that each run the calls of one broker and one guardrail service. A
connector whose answers alone are known may run the callback it was given at any time
after it was entered, so such a callback is a call of its own.
-/
namespace TradingGuardrails

open Text Interleaving

variable (host : Host)

inductive Entry where
  | execute (approval : Json) (dryRunAuthorization : Option Json)
  | dryRun (approval : Json)
  | evaluate (rawIntent : Option Json) (options : EvaluationOptions)
  | callback (parent : Nat) (request : Request host)

inductive Ret where
  | executed (result : Except Thrown Json)
  | reported (result : Except Thrown BrokerDryRunResult)
  | decided (result : Except Thrown GuardrailDecision)
  | calledBack (result : Except Thrown Unit)

abbrev signature : Signature where
  Op := Op host
  Ans := Ans host
  Entry := Entry host
  Ret := Ret
  World := World host
  Input := Input
  Outside := Outside

abbrev History := Log (signature host)

variable {host}

def run {σ α : Type} (m : Script host σ α) (init : σ) (ret : Except Thrown α → Ret) :
    Program (Op host) (Ans host) Ret :=
  (m init).bind fun r => .done (ret r.1)

namespace Deployment

variable (dep : Deployment) (connector : Nat → Connector host)

def program (p : Nat) : Entry host → Program (Op host) (Ans host) Ret
  | .execute approval authorization =>
      run ((dep.broker p).execute (connector p) approval authorization) {} .executed
  | .dryRun approval => run ((dep.broker p).dryRun (connector p) approval) [] .reported
  | .evaluate rawIntent options => run ((dep.service p).evaluate rawIntent options) () .decided
  | .callback _ request => run ((dep.broker p).beforeSideEffect request) () .calledBack

def isCrash (p : Nat) : Event (signature host) → Bool
  | .crashed q => q == p
  | _ => false

def isParent (parent p : Nat) (request : Request host) : Event (signature host) → Bool
  | .started c q (.execute approval authorization) => c == parent && q == p &&
      approval == request.approval && authorization == request.dryRunAuthorization
  | _ => false

def gaveCallback (parent : Nat) (intent : TradingIntent host) :
    Event (signature host) → Bool
  | .did c (.enterConnector i) _ => c == parent && i == intent
  | _ => false

def enabled (log : History host) (p : Nat) (entry : Entry host) : Bool :=
  !log.any (isCrash p) && match entry with
    | .callback parent request =>
        log.any (isParent parent p request) && log.any (gaveCallback parent request.intent)
    | _ => true

def systemOf : Machine (signature host) where
  program := dep.program connector
  waits := waits host
  enabled := enabled
  perform := dep.perform
  crash _ w := w
  place := Outside.place
  outside := Outside.act
  initial w := w = World.empty host

def system (host : Host) : Machine (signature host) :=
  dep.systemOf fun _ => opaqueConnector

end Deployment
end TradingGuardrails
