import TradingGuardrails.Members
import TradingGuardrails.Reviewer.HttpDecisionProvider

/-!
What the payload of a decision says, apart from the form in which it says it, and what makes it
an answer to the questions: an answer for each of them and no other, each of one of its choices
and with a probability for each choice.
-/
namespace TradingGuardrails

open Text Members

namespace Reviewer

structure RawAnswer where
  type : Option Json
  choice : Option Json
  confidence : Option Json
  probabilities : List (String × Json)

def keyedAnswer (raw : Json) : Option RawAnswer :=
  match raw.field? "probabilities" with
  | some (.obj probabilities) =>
      some ⟨raw.field? "type", raw.field? "choice", raw.field? "confidence", probabilities⟩
  | _ => none

def keyedMember (member : String × Json) : Option (String × RawAnswer) :=
  (keyedAnswer member.2).map fun raw => (member.1, raw)

def listedProbability (item : Json) : Option (String × Json) :=
  match item.field? "value" with
  | some (.str value) => some (value, (item.field? "probability").getD .null)
  | _ => none

def listedAnswer (entry : Json) : Option (String × RawAnswer) :=
  match entry.field? "name", entry.field? "probabilities" with
  | some (.str name), some (.arr items) =>
      (items.mapM listedProbability).map fun probabilities =>
        (name, ⟨entry.field? "type", entry.field? "choice", entry.field? "confidence",
          probabilities⟩)
  | _, _ => none

def keyedAnswers (body : Json) : Option (List (String × RawAnswer)) :=
  match body.field? "answers" with
  | some (.obj members) => members.mapM keyedMember
  | _ => none

def listedAnswers (body : Json) : Option (List (String × RawAnswer)) :=
  match body.field? "answers" with
  | some (.arr entries) => entries.mapM listedAnswer
  | _ => none

def answersOf (provider : ProviderKind) (body : Json) : Option (List (String × RawAnswer)) :=
  match provider with
  | .openAiDecisions => listedAnswers body
  | .jev | .clef => keyedAnswers body

def bodyOf (provider : ProviderKind) (payload : Json) : Option Json :=
  match provider with
  | .clef => if payload.field? "success" = some (.bool true) then payload.field? "result" else none
  | .jev | .openAiDecisions => some payload

def modelOf (body : Json) : Option String :=
  match body.field? "model" with
  | some (.str model) => some model
  | _ => none

def carried (provider : ProviderKind) (payload : Json) :
    Option (String × List (String × RawAnswer)) := do
  let body ← bodyOf provider payload
  let model ← modelOf body
  let answers ← answersOf provider body
  some (model, answers)

def UnitInterval (n : Numeral) : Prop := 0 ≤ n.value ∧ n.value ≤ 1

structure Answers (question : ChoiceQuestion) (raw : RawAnswer) (answer : ChoiceAnswer) : Prop where
  type : raw.type = some (.str "choice")
  choice : raw.choice = some (.str answer.choice)
  offered : answer.choice ∈ question.keys
  confidence : raw.confidence = some (.num answer.confidence)
  confident : UnitInterval answer.confidence
  keyed : (raw.probabilities.map Prod.fst).Perm question.keys
  each : List.Forall₂ (fun key probability => probability.1 = key ∧
    (key, Json.num probability.2) ∈ raw.probabilities ∧ UnitInterval probability.2)
    question.keys answer.probabilities

/-- The answers are one for each question, each found under its id. -/
structure Decides (questions : List ChoiceQuestion) (content : List (String × RawAnswer))
    (answers : List (String × ChoiceAnswer)) : Prop where
  bijective : (content.map Prod.fst).Perm (questions.map ChoiceQuestion.id)
  each : List.Forall₂ (fun question answer => answer.1 = question.id ∧
    ∃ raw, (question.id, raw) ∈ content ∧ Answers question raw answer.2) questions answers

def bindings (questions : List ChoiceQuestion) : Bound :=
  questions.map fun question => (question.id, question)

theorem keys_bindings (questions : List ChoiceQuestion) :
    (bindings questions).map Prod.fst = questions.map ChoiceQuestion.id := by
  rw [bindings, List.map_map]
  rfl

structure Askable (provider : ProviderKind) (question : ChoiceQuestion) : Prop where
  named : question.id ≠ ""
  clef : provider = .clef → clefQuestionId question.id = true
  instructed : trim question.instructions ≠ ""
  nonempty : "" ∉ question.keys
  choices : 2 ≤ question.keys.length

theorem bindQuestion_ok {provider : ProviderKind} {bound bound' : Bound}
    {question : ChoiceQuestion} : bindQuestion provider bound question = .ok bound' ↔
      ∃ asked, some question = some asked ∧ bound' = bound ++ [(asked.id, asked)] ∧
        asked.id ∉ bound.map Prod.fst ∧ Askable provider asked := by
  simp only [Option.some.injEq, exists_eq_left', bindQuestion, lookup_isSome]
  constructor
  · intro h
    split_ifs at h with hid hclef hinstructions hempty hfew
    cases h
    rw [not_or] at hid
    rw [not_and, Bool.not_eq_false] at hclef
    exact ⟨rfl, hid.2, hid.1, hclef, hinstructions, hempty, Nat.le_of_not_lt hfew⟩
  · rintro ⟨rfl, hnew, hasked⟩
    rw [if_neg (not_or.mpr ⟨hasked.named, hnew⟩),
      if_neg (fun h => Bool.false_ne_true (h.2.symm.trans (hasked.clef h.1))),
      if_neg hasked.instructed, if_neg hasked.nonempty,
      if_neg (Nat.not_lt.mpr hasked.choices)]

/-- Bound questions are all of them, in their order, under different ids. -/
theorem bindQuestions_ok {provider : ProviderKind} {questions : List ChoiceQuestion}
    {bound : Bound} : bindQuestions questions provider = .ok bound ↔
      bound = bindings questions ∧ (questions.map ChoiceQuestion.id).Nodup ∧ questions ≠ [] ∧
        ∀ question ∈ questions, Askable provider question := by
  have hread : ∀ qs : List ChoiceQuestion, qs.mapM some = some qs := fun qs =>
    mapM_eq_some.mpr (List.forall₂_same.mpr fun _ _ => rfl)
  have hfold : ∀ bound, questions.foldlM (bindQuestion provider) [] = .ok bound ↔
      bound = bindings questions ∧ (questions.map ChoiceQuestion.id).Nodup ∧
        ∀ question ∈ questions, Askable provider question := by
    intro bound
    have hempty : (([] : Bound).map Prod.fst).Nodup := List.nodup_nil
    have hcollect : questions.foldlM (bindQuestion provider) [] = .ok bound ↔ ∃ asked,
        questions.mapM some = some asked ∧
          bound = [] ++ asked.map (fun question => (question.id, question)) ∧
          (bound.map Prod.fst).Nodup ∧ ∀ question ∈ asked, Askable provider question :=
      foldlM_collect (fun s a s' => @bindQuestion_ok provider s s' a) hempty
    rw [hcollect]
    simp only [hread, Option.some.injEq, exists_eq_left', List.nil_append]
    constructor
    · rintro ⟨rfl, hnodup, hasked⟩
      exact ⟨rfl, keys_bindings questions ▸ hnodup, hasked⟩
    · rintro ⟨rfl, hnodup, hasked⟩
      exact ⟨rfl, (keys_bindings questions).symm ▸ hnodup, hasked⟩
  simp only [bindQuestions, bind_eq_ok, hfold]
  constructor
  · rintro ⟨bound', ⟨rfl, hnodup, hasked⟩, h⟩
    split_ifs at h with hempty
    cases h
    refine ⟨rfl, hnodup, ?_, hasked⟩
    rintro rfl
    exact hempty rfl
  · rintro ⟨rfl, hnodup, hne, hasked⟩
    refine ⟨_, ⟨rfl, hnodup, hasked⟩, ?_⟩
    rw [if_neg]
    simpa [bindings, List.isEmpty_iff] using hne

theorem unitInterval?_eq {value : Option Json} {n : Numeral} :
    unitInterval? value = some n ↔ value = some (.num n) ∧ UnitInterval n := by
  unfold unitInterval?
  split
  · rename_i m
    by_cases hunit : 0 ≤ m.value ∧ m.value ≤ 1
    · rw [if_pos hunit, Option.some.injEq, Option.some.injEq, Json.num.injEq]
      refine ⟨fun h => ⟨h, ?_⟩, fun h => h.1⟩
      rw [← h]
      exact hunit
    · rw [if_neg hunit]
      refine ⟨fun h => by simp at h, ?_⟩
      rintro ⟨h, hn⟩
      cases h
      exact absurd hn hunit
  · rename_i hnum
    refine ⟨fun h => by simp at h, ?_⟩
    rintro ⟨h, -⟩
    exact absurd h (hnum n)

theorem readProbability_ok {source : List (String × Json)} {key : String}
    {probability : String × Numeral} : readProbability source key = .ok probability ↔
      probability.1 = key ∧ source.lookup key = some (.num probability.2) ∧
        UnitInterval probability.2 := by
  obtain ⟨name, n⟩ := probability
  unfold readProbability
  rw [← unitInterval?_eq]
  cases hunit : unitInterval? (source.lookup key) with
  | none => simp
  | some m => simp [eq_comm]

/-- A probability for each choice is read exactly where no other key stands. -/
theorem readProbabilities_ok {raw : Option Json} {question : ChoiceQuestion}
    {probabilities : List (String × Numeral)} :
    readProbabilities raw question = .ok probabilities ↔ ∃ source, raw = some (.obj source) ∧
      (source.map Prod.fst).Perm question.keys ∧
      List.Forall₂ (fun key probability => probability.1 = key ∧
        (key, Json.num probability.2) ∈ source ∧ UnitInterval probability.2)
        question.keys probabilities := by
  unfold readProbabilities
  split
  · rename_i source
    constructor
    · intro h
      split_ifs at h with hlength
      rw [not_not] at hlength
      have hread := mapM_eq_ok.mp h
      refine ⟨source, rfl, ?_, hread.imp fun key probability hkey => ?_⟩
      · refine perm_of_covers question.distinct (fun key hkey => ?_) (by simpa using hlength)
        obtain ⟨probability, -, hprobability⟩ := matched_left hread hkey
        rw [← lookup_isSome, (readProbability_ok.mp hprobability).2.1]
        rfl
      · obtain ⟨hname, hlookup, hunit⟩ := readProbability_ok.mp hkey
        exact ⟨hname, mem_of_lookup hlookup, hunit⟩
    · rintro ⟨_, hsource, hperm, hread⟩
      cases hsource
      have hnodup : (source.map Prod.fst).Nodup := hperm.nodup_iff.mpr question.distinct
      rw [if_neg (not_not.mpr (by simpa using hperm.length_eq))]
      refine mapM_eq_ok.mpr (hread.imp fun key probability hkey => readProbability_ok.mpr ?_)
      exact ⟨hkey.1, (lookup_eq_some hnodup).mpr hkey.2.1, hkey.2.2⟩
  · rename_i hnone
    refine ⟨fun h => by simp at h, ?_⟩
    rintro ⟨source, hsource, -⟩
    exact absurd hsource (hnone source)

theorem keyedAnswer_eq {raw : Json} {said : RawAnswer} : keyedAnswer raw = some said ↔
    raw.field? "type" = said.type ∧ raw.field? "choice" = said.choice ∧
      raw.field? "confidence" = said.confidence ∧
      raw.field? "probabilities" = some (.obj said.probabilities) := by
  obtain ⟨type, choice, confidence, probabilities⟩ := said
  unfold keyedAnswer
  split
  · rename_i members hmembers
    rw [Option.some.injEq, RawAnswer.mk.injEq, hmembers, Option.some.injEq, Json.obj.injEq]
  · rename_i hnone
    exact ⟨fun h => by simp at h, fun h => absurd h.2.2.2 (hnone probabilities)⟩

/-- An answer is read from what a member says, and from nothing else. -/
theorem readChoiceAnswer_ok {raw : Json} {question : ChoiceQuestion} {answer : ChoiceAnswer} :
    readChoiceAnswer raw question = .ok answer ↔
      ∃ said, keyedAnswer raw = some said ∧ Answers question said answer := by
  constructor
  · intro h
    unfold readChoiceAnswer at h
    split_ifs at h with hobj htype
    rw [not_not] at htype
    split at h
    · rename_i choice hchoice
      split_ifs at h with hoffered
      split at h
      · rename_i confidence hconfidence
        obtain ⟨probabilities, hread, hanswer⟩ := bind_eq_ok.mp h
        cases hanswer
        obtain ⟨source, hsource, hkeyed, heach⟩ := readProbabilities_ok.mp hread
        obtain ⟨hconfidence, hunit⟩ := unitInterval?_eq.mp hconfidence
        exact ⟨⟨_, _, _, source⟩, keyedAnswer_eq.mpr ⟨rfl, rfl, rfl, hsource⟩,
          ⟨htype, hchoice, hoffered, hconfidence, hunit, hkeyed, heach⟩⟩
      · cases h
    · cases h
  · rintro ⟨said, hsaid, hanswer⟩
    obtain ⟨htype, hchoice, hconfidence, hprobabilities⟩ := keyedAnswer_eq.mp hsaid
    have hread : readProbabilities (raw.field? "probabilities") question =
        .ok answer.probabilities :=
      readProbabilities_ok.mpr ⟨_, hprobabilities, hanswer.keyed, hanswer.each⟩
    have hunit : unitInterval? (raw.field? "confidence") = some answer.confidence :=
      unitInterval?_eq.mpr ⟨hconfidence.trans hanswer.confidence, hanswer.confident⟩
    rw [readChoiceAnswer, Json.isObj_of_field? (hprobabilities), hread, hunit,
      htype.trans hanswer.type, hchoice.trans hanswer.choice]
    simp [hanswer.offered, bind, Except.bind]

theorem readBoundAnswer_ok {raws : List (String × Json)} {entry : String × ChoiceQuestion}
    {answer : String × ChoiceAnswer} : readBoundAnswer raws entry = .ok answer ↔
      answer.1 = entry.1 ∧ ∃ raw, raws.lookup entry.1 = some raw ∧
        readChoiceAnswer raw entry.2 = .ok answer.2 := by
  obtain ⟨id, given⟩ := answer
  unfold readBoundAnswer
  cases hlookup : raws.lookup entry.1 with
  | none => simp
  | some raw =>
      simp only [bind_eq_ok, Except.ok.injEq, Prod.mk.injEq, Option.some.injEq, exists_eq_left']
      constructor
      · rintro ⟨_, hread, rfl, rfl⟩
        exact ⟨rfl, hread⟩
      · rintro ⟨rfl, hread⟩
        exact ⟨given, hread, rfl, rfl⟩

theorem keyedMember_eq {member : String × Json} {said : String × RawAnswer} :
    keyedMember member = some said ↔ member.1 = said.1 ∧ keyedAnswer member.2 = some said.2 := by
  obtain ⟨id, raw⟩ := said
  simp only [keyedMember, Option.map_eq_some_iff, Prod.mk.injEq]
  constructor
  · rintro ⟨_, hraw, hid, rfl⟩
    exact ⟨hid, hraw⟩
  · rintro ⟨hid, hraw⟩
    exact ⟨raw, hraw, hid, rfl⟩

/-- What members say, under the same ids. -/
theorem keyedMembers {raws : List (String × Json)} {content : List (String × RawAnswer)}
    (h : raws.mapM keyedMember = some content) : content.map Prod.fst = raws.map Prod.fst ∧
      ∀ id said, (id, said) ∈ content ↔ ∃ raw, (id, raw) ∈ raws ∧ keyedAnswer raw = some said := by
  have hread := mapM_eq_some.mp h
  refine ⟨?_, fun id said => ⟨fun hmem => ?_, ?_⟩⟩
  · clear h
    induction hread with
    | nil => rfl
    | cons hfirst _ ih => rw [List.map_cons, List.map_cons, (keyedMember_eq.mp hfirst).1, ih]
  · obtain ⟨⟨other, raw⟩, hmember, heq⟩ := matched_right hread hmem
    obtain ⟨hid, hraw⟩ := keyedMember_eq.mp heq
    cases hid
    exact ⟨raw, hmember, hraw⟩
  · rintro ⟨raw, hmem, hraw⟩
    obtain ⟨⟨other, found⟩, hfound, heq⟩ := matched_left hread hmem
    obtain ⟨hid, hsaid⟩ := keyedMember_eq.mp heq
    cases hid
    rw [hraw] at hsaid
    cases hsaid
    exact hfound

/-- Members are answers to questions exactly when they are one for each of them. -/
theorem readBoundAnswers_ok {raws : List (String × Json)} {questions : List ChoiceQuestion}
    {answers : List (String × ChoiceAnswer)}
    (hids : (questions.map ChoiceQuestion.id).Nodup) :
    readBoundAnswers raws (bindings questions) = .ok answers ↔
      ∃ content, raws.mapM keyedMember = some content ∧ Decides questions content answers := by
  have hlengths : (bindings questions).length = (questions.map ChoiceQuestion.id).length := by
    rw [← keys_bindings, List.length_map]
  constructor
  · intro h
    unfold readBoundAnswers at h
    split_ifs at h with hlength
    rw [not_not, hlengths] at hlength
    have hread := List.forall₂_map_left_iff.mp (mapM_eq_ok.mp h)
    have hfound : ∀ question ∈ questions, ∃ raw, raws.lookup question.id = some raw ∧
        ∃ said, keyedAnswer raw = some said := by
      intro question hquestion
      obtain ⟨answer, -, hanswer⟩ := matched_left hread hquestion
      obtain ⟨-, raw, hlookup, hraw⟩ := readBoundAnswer_ok.mp hanswer
      obtain ⟨said, hsaid, -⟩ := readChoiceAnswer_ok.mp hraw
      exact ⟨raw, hlookup, said, hsaid⟩
    have hperm : (raws.map Prod.fst).Perm (questions.map ChoiceQuestion.id) := by
      refine perm_of_covers hids (fun id hid => ?_) (by simpa using hlength)
      obtain ⟨question, hquestion, rfl⟩ := List.mem_map.mp hid
      obtain ⟨raw, hlookup, -⟩ := hfound question hquestion
      exact List.mem_map.mpr ⟨_, mem_of_lookup hlookup, rfl⟩
    have hnodup : (raws.map Prod.fst).Nodup := hperm.nodup_iff.mpr hids
    obtain ⟨content, hcontent⟩ : ∃ content, raws.mapM keyedMember = some content := by
      refine exists_mapM fun member hmember => ?_
      have hasked : member.1 ∈ questions.map ChoiceQuestion.id :=
        hperm.subset (List.mem_map_of_mem hmember)
      obtain ⟨question, hquestion, hid⟩ := List.mem_map.mp hasked
      obtain ⟨raw, hlookup, said, hsaid⟩ := hfound question hquestion
      rw [hid, (lookup_eq_some hnodup).mpr hmember, Option.some.injEq] at hlookup
      exact ⟨(member.1, said), keyedMember_eq.mpr ⟨rfl, hlookup ▸ hsaid⟩⟩
    obtain ⟨hkeys, hmem⟩ := keyedMembers hcontent
    refine ⟨content, hcontent, hkeys ▸ hperm, hread.imp fun question answer hanswer => ?_⟩
    obtain ⟨hid, raw, hlookup, hraw⟩ := readBoundAnswer_ok.mp hanswer
    obtain ⟨said, hsaid, hgood⟩ := readChoiceAnswer_ok.mp hraw
    exact ⟨hid, said, (hmem _ _).mpr ⟨raw, mem_of_lookup hlookup, hsaid⟩, hgood⟩
  · rintro ⟨content, hcontent, hbijective, heach⟩
    obtain ⟨hkeys, hmem⟩ := keyedMembers hcontent
    rw [hkeys] at hbijective
    have hnodup : (raws.map Prod.fst).Nodup := hbijective.nodup_iff.mpr hids
    have hlength : raws.length = (bindings questions).length := by
      rw [hlengths, ← hbijective.length_eq, List.length_map]
    rw [readBoundAnswers, if_neg (not_not.mpr hlength)]
    refine mapM_eq_ok.mpr (List.forall₂_map_left_iff.mpr (heach.imp fun question answer h => ?_))
    obtain ⟨hid, said, hsaid, hgood⟩ := h
    obtain ⟨raw, hraw, hread⟩ := (hmem _ _).mp hsaid
    exact readBoundAnswer_ok.mpr ⟨hid, raw, (lookup_eq_some hnodup).mpr hraw,
      readChoiceAnswer_ok.mpr ⟨said, hread, hgood⟩⟩

theorem listedProbability_eq {item : Json} {probability : String × Json} :
    listedProbability item = some probability ↔ item.field? "value" = some (.str probability.1) ∧
      (item.field? "probability").getD .null = probability.2 := by
  obtain ⟨value, p⟩ := probability
  unfold listedProbability
  split
  · rename_i name hname
    simp [hname]
  · rename_i hnone
    exact ⟨fun h => by simp at h, fun h => absurd h.1 (hnone value)⟩

theorem readItem_ok {read read' : List (String × Json)} {item : Json} :
    readItem read item = .ok read' ↔ ∃ probability, listedProbability item = some probability ∧
      read' = read ++ [probability] ∧ probability.1 ∉ read.map Prod.fst ∧ True := by
  simp only [listedProbability_eq, and_true]
  unfold readItem
  constructor
  · intro h
    split at h
    · rename_i value hvalue
      split_ifs at h with hnew
      cases h
      rw [lookup_isSome] at hnew
      exact ⟨_, ⟨hvalue, rfl⟩, rfl, hnew⟩
    · cases h
  · rintro ⟨⟨value, p⟩, ⟨hvalue, rfl⟩, rfl, hnew⟩
    rw [hvalue]
    exact if_neg (mt lookup_isSome.mp hnew)

theorem readItems_ok {items : List Json} {read : List (String × Json)} :
    items.foldlM readItem [] = .ok read ↔
      items.mapM listedProbability = some read ∧ (read.map Prod.fst).Nodup := by
  have hempty : (([] : List (String × Json)).map Prod.fst).Nodup := List.nodup_nil
  have hcollect : items.foldlM readItem [] = .ok read ↔ ∃ given,
      items.mapM listedProbability = some given ∧ read = [] ++ given.map id ∧
        (read.map Prod.fst).Nodup ∧ ∀ p ∈ given, True :=
    foldlM_collect (fun s a s' => @readItem_ok s s' a) hempty
  rw [hcollect]
  constructor
  · rintro ⟨given, hgiven, rfl, hnodup, -⟩
    rw [List.map_id, List.nil_append] at hnodup ⊢
    exact ⟨hgiven, hnodup⟩
  · rintro ⟨hgiven, hnodup⟩
    exact ⟨read, hgiven, (List.map_id read).symm, hnodup, fun _ _ => trivial⟩

def RawAnswer.member (said : RawAnswer) : Json :=
  .record [
    ("type", said.type),
    ("choice", said.choice),
    ("confidence", said.confidence),
    ("probabilities", some (.obj said.probabilities))]

theorem keyedAnswer_member (said : RawAnswer) : keyedAnswer said.member = some said := by
  rw [keyedAnswer_eq, RawAnswer.member]
  simp [Json.field?_record_cons]

structure Admitted (bound : Bound) (entry : String × RawAnswer) : Prop where
  type : entry.2.type ≠ some (.str "refusal")
  asked : entry.1 ∈ bound.map Prod.fst
  once : (entry.2.probabilities.map Prod.fst).Nodup

theorem listedAnswer_eq {entry : Json} {said : String × RawAnswer} :
    listedAnswer entry = some said ↔ entry.field? "name" = some (.str said.1) ∧
      entry.field? "type" = said.2.type ∧ entry.field? "choice" = said.2.choice ∧
      entry.field? "confidence" = said.2.confidence ∧
      ∃ items, entry.field? "probabilities" = some (.arr items) ∧
        items.mapM listedProbability = some said.2.probabilities := by
  obtain ⟨id, type, choice, confidence, probabilities⟩ := said
  unfold listedAnswer
  split
  · rename_i name items hname hitems
    simp only [hname, hitems, Option.map_eq_some_iff, Prod.mk.injEq, RawAnswer.mk.injEq,
      Option.some.injEq, Json.str.injEq, Json.arr.injEq, exists_eq_left']
    constructor
    · rintro ⟨read, hread, rfl, rfl, rfl, rfl, rfl⟩
      exact ⟨rfl, rfl, rfl, rfl, hread⟩
    · rintro ⟨rfl, rfl, rfl, rfl, hread⟩
      exact ⟨_, hread, rfl, rfl, rfl, rfl, rfl⟩
  · rename_i hnone
    refine ⟨fun h => by simp at h, ?_⟩
    rintro ⟨hname, -, -, -, items, hitems, -⟩
    exact absurd hitems (hnone id items hname)

theorem readEntry_ok {bound : Bound} {raws raws' : List (String × Json)} {entry : Json} :
    readEntry bound raws entry = .ok raws' ↔ ∃ said, listedAnswer entry = some said ∧
      raws' = raws ++ [(said.1, said.2.member)] ∧ said.1 ∉ raws.map Prod.fst ∧
      Admitted bound said := by
  simp only [listedAnswer_eq]
  constructor
  · intro h
    unfold readEntry at h
    split at h
    · rename_i name hname
      split_ifs at h with hbad
      rw [not_or, not_or, lookup_isSome, Option.isNone_iff_eq_none, lookup_eq_none,
        not_not] at hbad
      obtain ⟨hrefusal, hnew, hasked⟩ := hbad
      split at h
      · rename_i items hitems
        obtain ⟨read, hread, hraws⟩ := bind_eq_ok.mp h
        cases hraws
        obtain ⟨hprobabilities, honce⟩ := readItems_ok.mp hread
        exact ⟨(name, ⟨_, _, _, read⟩), ⟨hname, rfl, rfl, rfl, items, hitems, hprobabilities⟩, rfl,
          hnew, ⟨hrefusal, hasked, honce⟩⟩
      · cases h
    · cases h
  · rintro ⟨⟨name, said⟩, ⟨hname, htype, hchoice, hconfidence, items, hitems, hread⟩, rfl, hnew,
      hadmitted⟩
    have hgood : ¬ (entry.field? "type" = some (.str "refusal") ∨ (raws.lookup name).isSome ∨
        (bound.lookup name).isNone) := by
      rw [not_or, not_or, lookup_isSome, Option.isNone_iff_eq_none, lookup_eq_none, not_not, htype]
      exact ⟨hadmitted.type, hnew, hadmitted.asked⟩
    have hmember : rawAnswer entry said.probabilities = said.member := by
      rw [rawAnswer, RawAnswer.member, htype, hchoice, hconfidence]
    have hprobabilities := readItems_ok.mpr ⟨hread, hadmitted.once⟩
    unfold readEntry
    rw [hname]
    simp only [if_neg hgood, hitems, hprobabilities, hmember, bind, Except.bind]

theorem readEntries_ok {bound : Bound} {entries : List Json} {raws : List (String × Json)} :
    entries.foldlM (readEntry bound) [] = .ok raws ↔ ∃ content,
      entries.mapM listedAnswer = some content ∧
        raws = content.map (fun said => (said.1, said.2.member)) ∧
        (content.map Prod.fst).Nodup ∧ ∀ said ∈ content, Admitted bound said := by
  have hempty : (([] : List (String × Json)).map Prod.fst).Nodup := List.nodup_nil
  have hcollect : entries.foldlM (readEntry bound) [] = .ok raws ↔ ∃ content,
      entries.mapM listedAnswer = some content ∧
        raws = [] ++ content.map (fun said => (said.1, said.2.member)) ∧
        (raws.map Prod.fst).Nodup ∧ ∀ said ∈ content, Admitted bound said :=
    foldlM_collect (fun s a s' => @readEntry_ok bound s s' a) hempty
  have hkeys : ∀ content : List (String × RawAnswer),
      ((content.map fun said => (said.1, said.2.member)).map Prod.fst) = content.map Prod.fst := by
    intro content
    rw [List.map_map]
    rfl
  rw [hcollect]
  refine exists_congr fun content => and_congr_right fun _ => ?_
  rw [List.nil_append]
  constructor
  · rintro ⟨rfl, hnodup, hadmitted⟩
    exact ⟨rfl, hkeys content ▸ hnodup, hadmitted⟩
  · rintro ⟨rfl, hnodup, hadmitted⟩
    exact ⟨rfl, (hkeys content).symm ▸ hnodup, hadmitted⟩

theorem mapM_member (content : List (String × RawAnswer)) :
    (content.map fun said => (said.1, said.2.member)).mapM keyedMember = some content := by
  refine mapM_eq_some.mpr (List.forall₂_map_left_iff.mpr (List.forall₂_same.mpr fun said _ => ?_))
  exact keyedMember_eq.mpr ⟨rfl, keyedAnswer_member said.2⟩

/-- What decides questions is admitted to the answers of the list form. -/
theorem Decides.admitted {questions : List ChoiceQuestion} {content : List (String × RawAnswer)}
    {answers : List (String × ChoiceAnswer)} (h : Decides questions content answers)
    (hids : (questions.map ChoiceQuestion.id).Nodup) {said : String × RawAnswer}
    (hsaid : said ∈ content) : Admitted (bindings questions) said := by
  have hasked : said.1 ∈ questions.map ChoiceQuestion.id :=
    h.bijective.subset (List.mem_map_of_mem hsaid)
  obtain ⟨question, hquestion, hid⟩ := List.mem_map.mp hasked
  obtain ⟨answer, -, -, raw, hraw, hgood⟩ := matched_left h.each hquestion
  have hnodup : (content.map Prod.fst).Nodup := h.bijective.nodup_iff.mpr hids
  have hsame : some raw = some said.2 := by
    rw [← (lookup_eq_some hnodup).mpr hraw, hid, (lookup_eq_some hnodup).mpr hsaid]
  cases hsame
  refine ⟨fun htype => ?_, (keys_bindings questions).symm ▸ hasked,
    hgood.keyed.nodup_iff.mpr question.distinct⟩
  rw [hgood.type] at htype
  simp at htype

theorem listedAnswers_arr {body : Json} {entries : List Json}
    (h : body.field? "answers" = some (.arr entries)) :
    listedAnswers body = entries.mapM listedAnswer := by
  rw [listedAnswers, h]

theorem listedAnswers_other {body : Json}
    (h : ∀ entries, body.field? "answers" = some (.arr entries) → False) :
    listedAnswers body = none := by
  unfold listedAnswers
  split
  · next entries hentries => exact (h entries hentries).elim
  · rfl

theorem readOpenAiAnswers_ok {body : Json} {questions : List ChoiceQuestion}
    {answers : List (String × ChoiceAnswer)}
    (hids : (questions.map ChoiceQuestion.id).Nodup) :
    readOpenAiAnswers body (bindings questions) = .ok answers ↔ ∃ content,
      listedAnswers body = some content ∧ Decides questions content answers := by
  unfold readOpenAiAnswers
  split
  · rename_i entries hentries
    rw [listedAnswers_arr hentries]
    simp only [bind_eq_ok, readEntries_ok]
    constructor
    · rintro ⟨raws, ⟨content, hcontent, rfl, -, -⟩, hread⟩
      obtain ⟨content', hcontent', hdecides⟩ := (readBoundAnswers_ok hids).mp hread
      rw [mapM_member, Option.some.injEq] at hcontent'
      exact ⟨content, hcontent, hcontent' ▸ hdecides⟩
    · rintro ⟨content, hcontent, hdecides⟩
      exact ⟨_, ⟨content, hcontent, rfl, hdecides.bijective.nodup_iff.mpr hids,
        fun said hsaid => hdecides.admitted hids hsaid⟩,
        (readBoundAnswers_ok hids).mpr ⟨content, mapM_member content, hdecides⟩⟩
  · rename_i hnot
    rw [listedAnswers_other hnot]
    simp

/-- The answers of a body are read exactly when they decide the questions. -/
theorem readAnswers_ok {provider : ProviderKind} {body : Json} {questions : List ChoiceQuestion}
    {answers : List (String × ChoiceAnswer)}
    (hids : (questions.map ChoiceQuestion.id).Nodup) :
    readAnswers provider body (bindings questions) = .ok answers ↔ ∃ content,
      answersOf provider body = some content ∧ Decides questions content answers := by
  have hkeyed : (match body.field? "answers" with
      | some (.obj members) => readBoundAnswers members (bindings questions)
      | _ => .error invalidResponse) = .ok answers ↔
      ∃ content, keyedAnswers body = some content ∧ Decides questions content answers := by
    unfold keyedAnswers
    split
    · exact readBoundAnswers_ok hids
    · simp
  cases provider with
  | openAiDecisions => exact readOpenAiAnswers_ok hids
  | jev | clef => exact hkeyed

theorem unwrapClefResult_ok {payload body : Json} : unwrapClefResult payload = .ok body ↔
    bodyOf .clef payload = some body ∧ body.isObj = true := by
  constructor
  · intro h
    unfold unwrapClefResult at h
    split_ifs at h with hobj hfield hsuccess
    rw [not_not] at hsuccess
    split at h
    · rename_i result hresult
      cases h
      exact ⟨(if_pos hsuccess).trans hresult, rfl⟩
    · cases h
  · rintro ⟨hbody, hobj⟩
    obtain ⟨hsuccess, hresult⟩ : payload.field? "success" = some (.bool true) ∧
        payload.field? "result" = some body := by
      simpa [bodyOf] using hbody
    cases body with
    | obj members =>
        simp [unwrapClefResult, Json.isObj_of_field? hresult, Json.hasField, hsuccess, hresult]
    | null | bool | num | str | arr => cases hobj

theorem modelOf_eq {body : Json} {model : String} :
    modelOf body = some model ↔ body.field? "model" = some (.str model) := by
  unfold modelOf
  split
  · rename_i name hname
    simp [hname]
  · rename_i hnone
    exact ⟨fun h => by simp at h, fun h => absurd h (hnone model)⟩

theorem readBody_ok {provider : ProviderKind} {questions : List ChoiceQuestion} {body : Json}
    {result : DecisionResult} (hids : (questions.map ChoiceQuestion.id).Nodup) :
    readBody provider (bindings questions) body = .ok result ↔
      modelOf body = some result.model ∧ trim result.model ≠ "" ∧
        ∃ content, answersOf provider body = some content ∧
          Decides questions content result.answers := by
  simp only [modelOf_eq, ← readAnswers_ok hids]
  constructor
  · intro h
    unfold readBody at h
    split_ifs at h with hobj
    split at h
    · rename_i model hmodel
      split_ifs at h with hblank
      obtain ⟨answers, hanswers, hresult⟩ := bind_eq_ok.mp h
      cases hresult
      exact ⟨hmodel, hblank, hanswers⟩
    · cases h
  · rintro ⟨hmodel, hblank, hanswers⟩
    simp [readBody, Json.isObj_of_field? hmodel, hmodel, hblank, hanswers, bind, Except.bind]

theorem unwrapResult_ok {provider : ProviderKind} {payload body : Json}
    (hobj : body.isObj = true) :
    unwrapResult provider payload = .ok body ↔ bodyOf provider payload = some body := by
  cases provider with
  | clef =>
      rw [unwrapResult, unwrapClefResult_ok]
      exact and_iff_left hobj
  | jev | openAiDecisions => simp [unwrapResult, bodyOf]

theorem carried_eq {provider : ProviderKind} {payload : Json} {model : String}
    {content : List (String × RawAnswer)} : carried provider payload = some (model, content) ↔
      ∃ body, bodyOf provider payload = some body ∧ modelOf body = some model ∧
        answersOf provider body = some content := by
  simp [carried, Option.bind_eq_some_iff]

/-- A payload is read exactly when it names a model and decides the questions. -/
theorem readDecisionResult_ok {provider : ProviderKind} {questions : List ChoiceQuestion}
    {payload : Json} {result : DecisionResult}
    (hids : (questions.map ChoiceQuestion.id).Nodup) :
    readDecisionResult provider payload (bindings questions) = .ok result ↔
      trim result.model ≠ "" ∧ ∃ content,
        carried provider payload = some (result.model, content) ∧
          Decides questions content result.answers := by
  have hunwrap : ∀ body, modelOf body = some result.model →
      (unwrapResult provider payload = .ok body ↔ bodyOf provider payload = some body) :=
    fun body hmodel => unwrapResult_ok (Json.isObj_of_field? (modelOf_eq.mp hmodel))
  simp only [readDecisionResult, bind_eq_ok, readBody_ok hids, carried_eq]
  constructor
  · rintro ⟨body, hbody, hmodel, hblank, content, hcontent, hdecides⟩
    exact ⟨hblank, content, ⟨body, (hunwrap body hmodel).mp hbody, hmodel, hcontent⟩, hdecides⟩
  · rintro ⟨hblank, content, ⟨body, hbody, hmodel, hcontent⟩, hdecides⟩
    exact ⟨body, (hunwrap body hmodel).mpr hbody, hmodel, hblank, content, hcontent, hdecides⟩

theorem readProbabilities_failsOnly (raw : Option Json) (question : ChoiceQuestion) :
    FailsOnly invalidResponse (readProbabilities raw question) := by
  unfold readProbabilities
  split
  · refine (failsOnly_error _).ite (FailsOnly.mapM (fun key => ?_) _)
    unfold readProbability
    split
    · exact failsOnly_ok _
    · exact failsOnly_error _
  · exact failsOnly_error _

theorem readChoiceAnswer_failsOnly (raw : Json) (question : ChoiceQuestion) :
    FailsOnly invalidResponse (readChoiceAnswer raw question) := by
  unfold readChoiceAnswer
  refine (failsOnly_error _).ite ((failsOnly_error _).ite ?_)
  split
  · refine (failsOnly_error _).ite ?_
    split
    · exact (readProbabilities_failsOnly _ _).bind fun _ => failsOnly_ok _
    · exact failsOnly_error _
  · exact failsOnly_error _

theorem readBoundAnswers_failsOnly (raws : List (String × Json)) (bound : Bound) :
    FailsOnly invalidResponse (readBoundAnswers raws bound) := by
  unfold readBoundAnswers
  refine (failsOnly_error _).ite (FailsOnly.mapM (fun entry => ?_) _)
  unfold readBoundAnswer
  split
  · exact (readChoiceAnswer_failsOnly _ _).bind fun _ => failsOnly_ok _
  · exact failsOnly_error _

theorem readItem_failsOnly (read : List (String × Json)) (item : Json) :
    FailsOnly invalidResponse (readItem read item) := by
  unfold readItem
  split
  · exact (failsOnly_error _).ite (failsOnly_ok _)
  · exact failsOnly_error _

theorem readEntry_failsOnly (bound : Bound) (raws : List (String × Json)) (entry : Json) :
    FailsOnly invalidResponse (readEntry bound raws entry) := by
  unfold readEntry
  split
  · refine (failsOnly_error _).ite ?_
    split
    · exact (FailsOnly.foldlM readItem_failsOnly _ _).bind fun _ => failsOnly_ok _
    · exact failsOnly_error _
  · exact failsOnly_error _

theorem readAnswers_failsOnly (provider : ProviderKind) (body : Json) (bound : Bound) :
    FailsOnly invalidResponse (readAnswers provider body bound) := by
  have hkeyed : FailsOnly invalidResponse (match body.field? "answers" with
      | some (.obj members) => readBoundAnswers members bound
      | _ => .error invalidResponse) := by
    split
    · exact readBoundAnswers_failsOnly _ _
    · exact failsOnly_error _
  cases provider with
  | jev | clef => exact hkeyed
  | openAiDecisions =>
      simp only [readAnswers]
      unfold readOpenAiAnswers
      split
      · exact (FailsOnly.foldlM (readEntry_failsOnly bound) _ _).bind fun _ =>
          readBoundAnswers_failsOnly _ _
      · exact failsOnly_error _

/-- A payload that carries answers fails to decide in one way only. -/
theorem readDecisionResult_failsOnly {provider : ProviderKind} {payload : Json} {bound : Bound}
    {model : String} {content : List (String × RawAnswer)}
    (h : carried provider payload = some (model, content)) :
    FailsOnly invalidResponse (readDecisionResult provider payload bound) := by
  obtain ⟨body, hbody, hmodel, -⟩ := carried_eq.mp h
  have hobj : body.isObj = true := Json.isObj_of_field? (modelOf_eq.mp hmodel)
  rw [readDecisionResult, (unwrapResult_ok hobj).mpr hbody]
  refine (failsOnly_error _).ite ?_
  split
  · refine (failsOnly_error _).ite ?_
    exact (readAnswers_failsOnly _ _ _).bind fun _ => failsOnly_ok _
  · exact failsOnly_error _

theorem Decides.perm {questions : List ChoiceQuestion}
    {content content' : List (String × RawAnswer)} {answers : List (String × ChoiceAnswer)}
    (h : Decides questions content answers)
    (hperm : content.Perm content') : Decides questions content' answers := by
  refine ⟨(hperm.map Prod.fst).symm.trans h.bijective, h.each.imp fun question answer hanswer => ?_⟩
  obtain ⟨hid, raw, hraw, hgood⟩ := hanswer
  exact ⟨hid, raw, hperm.subset hraw, hgood⟩

/-- Payloads that carry the same answers, in whatever form and order, are read alike. -/
theorem readDecisionResult_same {provider provider' : ProviderKind}
    {questions : List ChoiceQuestion} {payload payload' : Json} {model : String}
    {content content' : List (String × RawAnswer)}
    (hids : (questions.map ChoiceQuestion.id).Nodup)
    (h : carried provider payload = some (model, content))
    (h' : carried provider' payload' = some (model, content')) (hperm : content.Perm content') :
    readDecisionResult provider payload (bindings questions) =
      readDecisionResult provider' payload' (bindings questions) := by
  refine (readDecisionResult_failsOnly h).eq (readDecisionResult_failsOnly h') fun result => ?_
  simp only [readDecisionResult_ok hids, h, h', Option.some.injEq, Prod.mk.injEq]
  refine and_congr_right fun _ => ?_
  constructor
  · rintro ⟨_, ⟨rfl, rfl⟩, hdecides⟩
    exact ⟨content', ⟨rfl, rfl⟩, hdecides.perm hperm⟩
  · rintro ⟨_, ⟨rfl, rfl⟩, hdecides⟩
    exact ⟨content, ⟨rfl, rfl⟩, hdecides.perm hperm.symm⟩

end Reviewer
end TradingGuardrails
