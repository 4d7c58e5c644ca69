import TradingGuardrails.Host
import TradingGuardrails.Text.Pattern

/-!
The provider of decisions over HTTP. It binds the questions of a request by their ids, sends
them in the form of the service, and reads the answers of the untrusted payload back: a member
for each question in one form, a list of named answers in the other.
-/
namespace TradingGuardrails

open Text

namespace Reviewer

inductive ProviderKind where
  | jev
  | clef
  | openAiDecisions
  deriving DecidableEq

structure ChoiceQuestion where
  id : String
  instructions : String
  choices : List (String × String)
  distinct : (choices.map Prod.fst).Nodup

/-- `Object.keys(question.choices)` -/
def ChoiceQuestion.keys (question : ChoiceQuestion) : List String :=
  question.choices.map Prod.fst

structure DecisionRequest where
  input : String
  questions : List ChoiceQuestion

structure ChoiceAnswer where
  choice : String
  confidence : Numeral
  probabilities : List (String × Numeral)
  deriving DecidableEq

structure DecisionResult where
  model : String
  answers : List (String × ChoiceAnswer)
  deriving DecidableEq

def requestFailed : Thrown := .ofMessage "Decision reviewer request failed."

def invalidResponse : Thrown := .ofMessage "Decision reviewer response is invalid."

def invalidRequest : Thrown := .ofMessage "Decision reviewer request is invalid."

def contextExceeded : Thrown :=
  .ofMessage "Decision reviewer request exceeds the Clef context budget."

abbrev Bound := List (String × ChoiceQuestion)

def clefQuestionId (id : String) : Bool :=
  1 ≤ id.length && id.length ≤ 100 &&
    id.toList.all fun c => c.isAlphanum || c == '.' || c == '_' || c == '-'

def bindQuestion (provider : ProviderKind) (bound : Bound) (question : ChoiceQuestion) :
    Except Thrown Bound :=
  if question.id = "" ∨ (bound.lookup question.id).isSome then .error invalidRequest
  else if provider = .clef ∧ clefQuestionId question.id = false then .error invalidRequest
  else if trim question.instructions = "" then .error invalidRequest
  else if "" ∈ question.keys then .error invalidRequest
  else if question.keys.length < 2 then .error invalidRequest
  else .ok (bound ++ [(question.id, question)])

def bindQuestions (questions : List ChoiceQuestion) (provider : ProviderKind) :
    Except Thrown Bound := do
  let bound ← questions.foldlM (bindQuestion provider) []
  if bound.isEmpty then .error invalidRequest else .ok bound

def encodeSystemOneBody (model input : String) (bound : Bound) : Json :=
  .record [
    ("model", some (.str model)),
    ("state", some (.str input)),
    ("questions", some (.obj (bound.map fun entry => (entry.1, .record [
      ("type", some (.str "choice")),
      ("instructions", some (.str entry.2.instructions)),
      ("criteria", some (.obj (entry.2.choices.map fun choice =>
        (choice.1, .str choice.2))))]))))]

def encodeOpenAiBody (model input : String) (bound : Bound) : Json :=
  .record [
    ("model", some (.str model)),
    ("input", some (.str input)),
    ("questions", some (.arr (bound.map fun entry => .record [
      ("type", some (.str "choice")),
      ("name", some (.str entry.2.id)),
      ("instructions", some (.str entry.2.instructions)),
      ("choices", some (.arr (entry.2.choices.map fun choice => .record [
        ("value", some (.str choice.1)),
        ("description", some (.str choice.2))])))])))]

def tokenUpperBound (serializedBody : String) (bound : Bound) : Nat :=
  bound.foldl (fun bytes entry => bytes + (128 + 64 * entry.2.keys.length))
    (serializedBody.utf8ByteSize + 1024)

def unitInterval? : Option Json → Option Numeral
  | some (.num n) => if 0 ≤ n.value ∧ n.value ≤ 1 then some n else none
  | _ => none

def readProbability (source : List (String × Json)) (key : String) :
    Except Thrown (String × Numeral) :=
  match unitInterval? (source.lookup key) with
  | some probability => .ok (key, probability)
  | none => .error invalidResponse

def readProbabilities (raw : Option Json) (question : ChoiceQuestion) :
    Except Thrown (List (String × Numeral)) :=
  match raw with
  | some (.obj source) =>
      if source.length ≠ question.keys.length then .error invalidResponse
      else question.keys.mapM (readProbability source)
  | _ => .error invalidResponse

def readChoiceAnswer (raw : Json) (question : ChoiceQuestion) : Except Thrown ChoiceAnswer :=
  if !raw.isObj then .error invalidResponse
  else if raw.field? "type" ≠ some (.str "choice") then .error invalidResponse
  else match raw.field? "choice" with
  | some (.str choice) =>
      if choice ∉ question.keys then .error invalidResponse
      else match unitInterval? (raw.field? "confidence") with
      | some confidence => do
          let probabilities ← readProbabilities (raw.field? "probabilities") question
          .ok ⟨choice, confidence, probabilities⟩
      | none => .error invalidResponse
  | _ => .error invalidResponse

def readBoundAnswer (rawAnswers : List (String × Json)) (entry : String × ChoiceQuestion) :
    Except Thrown (String × ChoiceAnswer) :=
  match rawAnswers.lookup entry.1 with
  | some raw => do
      let answer ← readChoiceAnswer raw entry.2
      .ok (entry.1, answer)
  | none => .error invalidResponse

def readBoundAnswers (rawAnswers : List (String × Json)) (bound : Bound) :
    Except Thrown (List (String × ChoiceAnswer)) :=
  if rawAnswers.length ≠ bound.length then .error invalidResponse
  else bound.mapM (readBoundAnswer rawAnswers)

/-- An item of the list form: a value and its probability. A probability that is missing is
none, as `null` is none. -/
def readItem (probabilities : List (String × Json)) (item : Json) :
    Except Thrown (List (String × Json)) :=
  match item.field? "value" with
  | some (.str value) =>
      if (probabilities.lookup value).isSome then .error invalidResponse
      else .ok (probabilities ++ [(value, (item.field? "probability").getD .null)])
  | _ => .error invalidResponse

def rawAnswer (entry : Json) (probabilities : List (String × Json)) : Json :=
  .record [
    ("type", entry.field? "type"),
    ("choice", entry.field? "choice"),
    ("confidence", entry.field? "confidence"),
    ("probabilities", some (.obj probabilities))]

def readEntry (bound : Bound) (rawAnswers : List (String × Json)) (entry : Json) :
    Except Thrown (List (String × Json)) :=
  match entry.field? "name" with
  | some (.str name) =>
      if entry.field? "type" = some (.str "refusal") ∨ (rawAnswers.lookup name).isSome ∨
        (bound.lookup name).isNone then .error invalidResponse
      else match entry.field? "probabilities" with
      | some (.arr items) => do
          let probabilities ← items.foldlM readItem []
          .ok (rawAnswers ++ [(name, rawAnswer entry probabilities)])
      | _ => .error invalidResponse
  | _ => .error invalidResponse

def readOpenAiAnswers (payload : Json) (bound : Bound) :
    Except Thrown (List (String × ChoiceAnswer)) :=
  match payload.field? "answers" with
  | some (.arr entries) => do
      let rawAnswers ← entries.foldlM (readEntry bound) []
      readBoundAnswers rawAnswers bound
  | _ => .error invalidResponse

def unwrapClefResult (payload : Json) : Except Thrown Json :=
  if !payload.isObj then .error invalidResponse
  else if !payload.hasField "success" then .error invalidResponse
  else if payload.field? "success" ≠ some (.bool true) then .error requestFailed
  else match payload.field? "result" with
  | some (.obj result) => .ok (.obj result)
  | _ => .error invalidResponse

def unwrapResult (provider : ProviderKind) (payload : Json) : Except Thrown Json :=
  match provider with
  | .clef => unwrapClefResult payload
  | .jev | .openAiDecisions => .ok payload

def readAnswers (provider : ProviderKind) (body : Json) (bound : Bound) :
    Except Thrown (List (String × ChoiceAnswer)) :=
  match provider with
  | .openAiDecisions => readOpenAiAnswers body bound
  | .jev | .clef =>
      match body.field? "answers" with
      | some (.obj answers) => readBoundAnswers answers bound
      | _ => .error invalidResponse

def readBody (provider : ProviderKind) (bound : Bound) (body : Json) :
    Except Thrown DecisionResult :=
  if !body.isObj then .error invalidResponse
  else match body.field? "model" with
  | some (.str model) =>
      if trim model = "" then .error invalidResponse
      else do
        let answers ← readAnswers provider body bound
        .ok ⟨model, answers⟩
  | _ => .error invalidResponse

def readDecisionResult (provider : ProviderKind) (payload : Json) (bound : Bound) :
    Except Thrown DecisionResult := do
  let body ← unwrapResult provider payload
  readBody provider bound body

inductive Response where
  /-- No response at all. -/
  | failed
  /-- A response that is not `ok`. -/
  | refused
  /-- A body that is no JSON. -/
  | unreadable
  | json (payload : Json)

structure HttpDecisionProvider where
  provider : ProviderKind
  model : String

namespace HttpDecisionProvider

def clefContextLimit (p : HttpDecisionProvider) : Option Nat :=
  match p.provider with
  | .clef => some (if p.model = "clef" then 65536 else 24576)
  | .jev | .openAiDecisions => none

def serializedBody (p : HttpDecisionProvider) (input : String) (bound : Bound) : String :=
  stringify (match p.provider with
    | .openAiDecisions => encodeOpenAiBody p.model input bound
    | .jev | .clef => encodeSystemOneBody p.model input bound)

def assertContextBudget (p : HttpDecisionProvider) (serializedBody : String) (bound : Bound) :
    Except Thrown Unit :=
  match p.clefContextLimit with
  | some limit =>
      if limit < tokenUpperBound serializedBody bound then .error contextExceeded else .ok ()
  | none => .ok ()

def readResponse (p : HttpDecisionProvider) (bound : Bound) : Response →
    Except Thrown DecisionResult
  | .failed | .refused => .error requestFailed
  | .unreadable => .error invalidResponse
  | .json payload => readDecisionResult p.provider payload bound

def decide (p : HttpDecisionProvider) (fetch : String → Response) (request : DecisionRequest) :
    Except Thrown DecisionResult := do
  let bound ← bindQuestions request.questions p.provider
  let body := p.serializedBody request.input bound
  p.assertContextBudget body bound
  p.readResponse bound (fetch body)

end HttpDecisionProvider

end Reviewer
end TradingGuardrails
