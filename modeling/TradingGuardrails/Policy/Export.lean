import TradingGuardrails.Policy.Envelope
import TradingGuardrails.Service.OpaTransform

/-!
The policy document as the service reads it. The engine exports the rules of the guardrail
package as one object, sets as arrays in any order; the service checks that object, and
checks its own result again.
-/
namespace TradingGuardrails

open Text Check Rego

namespace OpaOutput

/-- The order of the rule names does not matter. -/
theorem sorted_eq_of_perm {rules rules' : List String} (h : rules.Perm rules') :
    sorted rules = sorted rules' := by
  have hperm : (sorted rules).Perm (sorted rules') :=
    (List.perm_insertionSort _ rules).trans (h.trans (List.perm_insertionSort _ rules').symm)
  exact hperm.eq_of_pairwise' (List.pairwise_insertionSort _ rules)
    (List.pairwise_insertionSort _ rules')

/-- Parts that support one decision, and nothing that contradicts it. -/
structure Coherent (parts : Parts) (outcome : Outcome) : Prop where
  decision : parts.decision = some (.str outcome.text)
  human : parts.requiresHumanApproval = some (.bool (outcome == .needsHuman))
  named : ∀ reason ∈ parts.reasons, reason.rule ≠ "" ∧ reason.message ≠ ""
  reasons : parts.reasons ≠ []
  notDenied : outcome ≠ .deny → parts.hardDenyReasons = [] ∧ parts.matchedDenyRules = []
  allowed : outcome = .allow → parts.escalationReasons = [] ∧ parts.matchedAllowRules ≠ [] ∧
    ∀ reason ∈ parts.reasons, reason.rule ∈ parts.matchedAllowRules
  denied : outcome = .deny → parts.hardDenyReasons = [] ∨
    (parts.reasons.map Reason.rule).Perm (parts.hardDenyReasons.map Reason.rule)
  escalated : outcome = .needsHuman → parts.escalationReasons = [] ∨
    (parts.reasons.map Reason.rule).Perm (parts.escalationReasons.map Reason.rule)

theorem exactlyMatch_of_perm {reasons : List Reason} {rules : List String}
    (h : (reasons.map Reason.rule).Perm rules) : reasonRulesExactlyMatch reasons rules = true := by
  simp only [reasonRulesExactlyMatch, sorted_eq_of_perm h, beq_self_eq_true]

theorem Coherent.consistent {parts : Parts} {outcome : Outcome} (h : Coherent parts outcome) :
    consistent parts (outcome == .needsHuman) outcome = .ok () := by
  have hreasons := h.reasons
  cases outcome with
  | allow =>
      obtain ⟨hhard, hmatched⟩ := h.notDenied (by decide)
      obtain ⟨hescalation, hallow, hrules⟩ := h.allowed rfl
      have hmatch : allReasonsMatchRules parts.reasons parts.matchedAllowRules = true := by
        simpa [allReasonsMatchRules] using hrules
      simp [OpaOutput.consistent, hhard, hmatched, hescalation, hallow, hreasons, hmatch,
        pure, Except.pure]
  | deny =>
      rcases h.denied rfl with hhard | hperm
      · simp [OpaOutput.consistent, hhard, hreasons, pure, Except.pure]
      · simp [OpaOutput.consistent, hreasons, exactlyMatch_of_perm hperm, pure,
          Except.pure]
  | needsHuman =>
      obtain ⟨hhard, hmatched⟩ := h.notDenied (by decide)
      rcases h.escalated rfl with hescalation | hperm
      · simp [OpaOutput.consistent, hhard, hmatched, hescalation, pure, Except.pure]
      · simp [OpaOutput.consistent, hhard, hmatched, exactlyMatch_of_perm hperm, pure,
          Except.pure]

/-- The members of an output with coherent parts. -/
theorem Coherent.toJson {parts : Parts} {outcome : Outcome} (h : Coherent parts outcome)
    (evaluatedAt : Json) : parts.toJson evaluatedAt = .obj [
      ("decision", .str outcome.text),
      ("reasons", .arr (parts.reasons.map Reason.toJson)),
      ("requiresHumanApproval", .bool (outcome == .needsHuman)),
      ("matchedAllowRules", .arr (parts.matchedAllowRules.map .str)),
      ("matchedDenyRules", .arr (parts.matchedDenyRules.map .str)),
      ("evaluatedAt", evaluatedAt)] := by
  simp only [Parts.toJson, Json.record, h.decision, h.human, List.filterMap_cons,
    List.filterMap_nil, Option.map_some]

theorem policyDenyReason_toJson {reason : Reason}
    (h : reason.rule ≠ "" ∧ reason.message ≠ "") :
    DecisionSchema.policyDenyReason reason.toJson = true := by
  simp [DecisionSchema.policyDenyReason, Reason.toJson, Json.record, strict, Json.keys, required,
    Field.accepts, Json.field?, List.lookup_cons, List.lookup_nil, nonEmpty, string, h.1, h.2]

theorem Coherent.policyOutput {host : Host} {parts : Parts} {outcome : Outcome}
    (h : Coherent parts outcome) {s : String} (hs : host.isDatetime s = true) :
    DecisionSchema.policyOutput host (parts.toJson (.str s)) = true := by
  have hreasons := h.reasons
  have hitems : (parts.reasons.map Reason.toJson).all DecisionSchema.policyDenyReason = true := by
    simp only [List.all_map, List.all_eq_true]
    exact fun reason hin => policyDenyReason_toJson (h.named reason hin)
  have hrules : ∀ rules : List String, (rules.map Json.str).all text = true := by
    intro rules
    simp [List.all_map, text, string]
  rw [h.toJson]
  simp only [DecisionSchema.policyOutput, Bool.and_eq_true]
  constructor
  · cases outcome <;>
      simp [strict, Json.keys, required, Field.accepts, Json.field?, List.lookup_cons,
        List.lookup_nil, oneOf, string, array, boolean, Outcome.all, Outcome.text, hitems,
        hrules, hs]
  · cases outcome <;>
      simp [DecisionSchema.policyRefinements, DecisionSchema.outcomeOf, Outcome.ofText?,
        Outcome.all, Outcome.text, textField, Json.field?, List.lookup_cons, hreasons,
        DecisionSchema.requiresHumanApproval, DecisionSchema.elements]

theorem Coherent.outcomeOf {parts : Parts} {outcome : Outcome} (h : Coherent parts outcome)
    (evaluatedAt : Json) : DecisionSchema.outcomeOf (parts.toJson evaluatedAt) = outcome := by
  rw [h.toJson]
  cases outcome <;>
    simp [DecisionSchema.outcomeOf, Outcome.ofText?, Outcome.all, Outcome.text, textField,
      Json.field?]

/-- Coherent parts make an output. -/
theorem Coherent.build {host : Host} {parts : Parts} {outcome : Outcome}
    (h : Coherent parts outcome) {s : String} (hs : host.isDatetime s = true) :
    build host parts (.str s) = .ok (parts.toJson (.str s)) := by
  have hhuman : DecisionSchema.requiresHumanApproval (parts.toJson (.str s)) =
      (outcome == .needsHuman) := by
    rw [h.toJson]
    cases outcome <;>
      simp [DecisionSchema.requiresHumanApproval, Json.field?, List.lookup_cons]
  simp only [OpaOutput.build, parseWith, h.policyOutput hs, if_true, bind, Except.bind, hhuman,
    h.outcomeOf, h.consistent, pure, Except.pure]

def Parts.settled (parts : Parts) : Parts :=
  { parts with hardDenyReasons := [], escalationReasons := [] }

theorem Coherent.settled {parts : Parts} {outcome : Outcome} (h : Coherent parts outcome) :
    Coherent parts.settled outcome :=
  { h with
    notDenied := fun hout => ⟨rfl, (h.notDenied hout).2⟩
    allowed := fun hout => ⟨rfl, (h.allowed hout).2⟩
    denied := fun _ => .inl rfl
    escalated := fun _ => .inl rfl }

theorem normalizeReasons_toJson (reasons : List Reason) (field : String) :
    normalizeReasons (some (.arr (reasons.map Reason.toJson))) field = .ok reasons := by
  refine mapM_eq_ok.mpr (List.forall₂_map_left_iff.mpr (List.forall₂_same.mpr fun reason _ => ?_))
  simp [normalizeReason, Reason.toJson, Json.record, Json.field?, List.lookup_cons]

theorem normalizeStringArray_map (rules : List String) (field : String) :
    normalizeStringArray (some (.arr (rules.map .str))) field = .ok rules :=
  mapM_eq_ok.mpr (List.forall₂_map_left_iff.mpr (List.forall₂_same.mpr fun _ _ => rfl))

theorem readParts_ok {raw : Json} {parts : Parts} {allow deny : Option Json}
    (hdecision : raw.hasField "decision" = true)
    (hreasons : raw.hasField "reasons" = true)
    (hdirect : normalizeReasons (raw.field? "reasons") "reasons" = .ok parts.reasons)
    (hhard : normalizeOptionalReasons (raw.field? "hard_deny_reasons") "hard_deny_reasons" =
      .ok parts.hardDenyReasons)
    (hescalation : normalizeOptionalReasons (raw.field? "escalation_reasons")
      "escalation_reasons" = .ok parts.escalationReasons)
    (hhuman : requiredField raw "requiresHumanApproval" "requires_human_approval" =
      .ok parts.requiresHumanApproval)
    (hallow : requiredField raw "matchedAllowRules" "matched_allow_rules" = .ok allow)
    (hallowRules : normalizeStringArray allow "matched_allow_rules" =
      .ok parts.matchedAllowRules)
    (hdeny : requiredField raw "matchedDenyRules" "matched_deny_rules" = .ok deny)
    (hdenyRules : normalizeStringArray deny "matched_deny_rules" = .ok parts.matchedDenyRules)
    (houtcome : raw.field? "decision" = parts.decision) :
    readParts raw = .ok parts := by
  simp only [readParts, hdecision, hreasons, hdirect, hhard, hescalation, hhuman, hallow,
    hallowRules, hdeny, hdenyRules, houtcome, Bool.not_true, Bool.false_and, Bool.false_eq_true,
    if_false, if_true, bind, Except.bind, pure, Except.pure]

theorem requiredField_camel {raw : Json} {camel snake : String} {value : Json}
    (h : raw.field? camel = some value) : requiredField raw camel snake = .ok (some value) := by
  simp only [requiredField, Json.hasField, h, Option.isSome_some, if_true]

theorem requiredField_snake {raw : Json} {camel snake : String} {value : Json}
    (hcamel : raw.field? camel = none) (h : raw.field? snake = some value) :
    requiredField raw camel snake = .ok (some value) := by
  simp only [requiredField, Json.hasField, hcamel, h, Option.isSome_none, Option.isSome_some,
    Bool.false_eq_true, if_false, if_true]

theorem Coherent.readParts_toJson {parts : Parts} {outcome : Outcome}
    (h : Coherent parts outcome) (evaluatedAt : Json) :
    readParts (parts.toJson evaluatedAt) = .ok parts.settled := by
  rw [h.toJson]
  refine readParts_ok rfl rfl (normalizeReasons_toJson _ _) rfl rfl ?_
    (requiredField_camel rfl) (normalizeStringArray_map _ _) (requiredField_camel rfl)
    (normalizeStringArray_map _ _) h.decision.symm
  rw [requiredField_camel rfl]
  exact congrArg Except.ok h.human.symm

/-- The service reads its own output as that output, at any later time. -/
theorem Coherent.transform_toJson {host : Host} {parts : Parts} {outcome : Outcome}
    (h : Coherent parts outcome) {s : String} (hs : host.isDatetime s = true) (now : Instant) :
    transformOpaOutput host (some (parts.toJson (.str s))) now = .ok (parts.toJson (.str s)) := by
  have hobject : asRecord (some (parts.toJson (.str s))) = .ok (parts.toJson (.str s)) := by
    rw [h.toJson]
    rfl
  have hat : (parts.toJson (.str s)).field? "evaluatedAt" = some (.str s) := by
    rw [h.toJson]
    rfl
  simp only [transformOpaOutput, hobject, h.readParts_toJson, bind, Except.bind, hat,
    h.settled.build hs]
  rfl

/-- An answer with coherent parts and no date is dated now. -/
theorem Coherent.transform {host : Host} {raw : Json} {parts : Parts} {outcome : Outcome}
    {now : Instant} (h : Coherent parts outcome)
    (hobject : asRecord (some raw) = .ok raw) (hparts : readParts raw = .ok parts)
    (hat : raw.field? "evaluatedAt" = none)
    (hnow : host.isDatetime (host.toISOString now) = true) :
    transformOpaOutput host (some raw) now = .ok (parts.toJson (.str (host.toISOString now))) := by
  simp only [transformOpaOutput, hobject, hparts, bind, Except.bind, hat, h.build hnow]

end OpaOutput

def ruleText : Json → String
  | .str s => s
  | _ => ""

def PolicyReason.output (r : PolicyReason) : OpaOutput.Reason where
  rule := ruleText r.rule
  message := r.message

def PolicyReason.toJson (r : PolicyReason) : Json :=
  .record [("rule", some r.rule), ("message", some (.str r.message))]

/-- A reason as the engine writes it, with its members in any order. -/
def PolicyReason.Written (r : PolicyReason) (v : Json) : Prop :=
  v.field? "rule" = some r.rule ∧ v.field? "message" = some (.str r.message)

structure PolicyReason.Named (r : PolicyReason) : Prop where
  rule : r.rule = .str r.output.rule
  ruleNonempty : r.output.rule ≠ ""
  message : r.message ≠ ""

theorem PolicyRule.named {r : PolicyRule} (hrule : r.rule ≠ "") (hmessage : r.message ≠ "") :
    r.reason.Named :=
  ⟨rfl, hrule, hmessage⟩

namespace Policy

/-- A set as the engine writes it, with its elements in any order. -/
def WrittenSet {α : Type} (written : α → Json → Prop) (members : List α)
    (value : Option Json) : Prop :=
  ∃ listed vs, listed.Perm members ∧ value = some (.arr vs) ∧ List.Forall₂ written listed vs

/-- The object under which the engine exports the rules. It may have other members, but
none under a name that only the service uses. -/
structure Exported (policy : Json) (input : PolicyInput) (lower : String → String)
    (document : Json) : Prop where
  decision : ∀ outcome, Policy.decision policy input lower = some outcome →
    document.field? "decision" = some (.str outcome.text)
  reasons : WrittenSet PolicyReason.Written (exportedReasons policy input lower)
    (document.field? "reasons")
  hardDenyReasons : WrittenSet PolicyReason.Written (hardDenyReasons policy input lower)
    (document.field? "hard_deny_reasons")
  escalationReasons : WrittenSet PolicyReason.Written (escalationReasons policy input)
    (document.field? "escalation_reasons")
  matchedAllowRules : WrittenSet Eq (matchedAllowRules policy input)
    (document.field? "matched_allow_rules")
  matchedDenyRules : WrittenSet Eq (matchedDenyRules policy input lower)
    (document.field? "matched_deny_rules")
  requiresHumanApproval : document.field? "requires_human_approval" =
    some (.bool (Policy.requiresHumanApproval policy input lower))
  foreign : ∀ key ∈ ["requiresHumanApproval", "matchedAllowRules", "matchedDenyRules",
    "evaluatedAt"], document.field? key = none

def NamedEntries (policy : Json) : Prop :=
  ∀ entry ∈ entries policy, ∀ name, Allowlist.field entry "name" = some name →
    ∃ s, name = .str s ∧ s ≠ ""

theorem named_of_fired {rules : List PolicyRule}
    (hrules : ∀ rule ∈ rules, rule.rule ≠ "" ∧ rule.message ≠ "") :
    ∀ reason ∈ fired rules, reason.Named := by
  intro reason hreason
  rw [fired, mem_set, List.mem_map] at hreason
  obtain ⟨rule, hin, rfl⟩ := hreason
  obtain ⟨hrule, hmessage⟩ := hrules rule (List.mem_filter.mp hin).1
  exact PolicyRule.named hrule hmessage

section

variable {policy : Json} {input : PolicyInput} {lower : String → String}

theorem hardDenyReasons_named : ∀ reason ∈ hardDenyReasons policy input lower, reason.Named :=
  named_of_fired (by simp [denyRules])

theorem escalationReasons_named : ∀ reason ∈ escalationReasons policy input, reason.Named :=
  named_of_fired (by simp [escalationRules])

theorem allowReasons_named (hnames : NamedEntries policy) :
    ∀ reason ∈ allowReasons policy input, reason.Named := by
  intro reason hreason
  rw [allowReasons, mem_set, List.mem_filterMap] at hreason
  obtain ⟨entry, hentry, hreason⟩ := hreason
  obtain ⟨name, hname, rfl⟩ := Option.map_eq_some_iff.mp hreason
  obtain ⟨s, rfl, hs⟩ := hnames entry (List.mem_filter.mp hentry).1 name hname
  exact ⟨rfl, hs, by simp⟩

theorem defaultDeny_named : defaultDeny.Named :=
  ⟨rfl, by simp [defaultDeny, PolicyReason.output, ruleText], by simp [defaultDeny]⟩

theorem allDenyReasons_named : ∀ reason ∈ allDenyReasons policy input lower, reason.Named := by
  intro reason hreason
  rw [allDenyReasons, mem_set, List.mem_append] at hreason
  rcases hreason with hhard | hdefault
  · exact hardDenyReasons_named reason hhard
  · split at hdefault
    · rw [List.mem_singleton.mp hdefault]
      exact defaultDeny_named
    · cases hdefault

theorem exportedReasons_named (hnames : NamedEntries policy) :
    ∀ reason ∈ exportedReasons policy input lower, reason.Named := by
  intro reason hreason
  rw [exportedReasons, mem_set, List.mem_append, List.mem_append] at hreason
  rcases hreason with (hdeny | hhuman) | hallow
  · split at hdeny
    · exact allDenyReasons_named reason hdeny
    · cases hdeny
  · split at hhuman
    · exact escalationReasons_named reason hhuman
    · cases hhuman
  · split at hallow
    · exact allowReasons_named hnames reason hallow
    · cases hallow

theorem exportedReasons_deny (h : decision policy input lower = some .deny) :
    exportedReasons policy input lower = set (allDenyReasons policy input lower) := by
  simp [exportedReasons, h]

theorem exportedReasons_needsHuman (h : decision policy input lower = some .needsHuman) :
    exportedReasons policy input lower = set (escalationReasons policy input) := by
  simp [exportedReasons, h]

theorem exportedReasons_allow (h : decision policy input lower = some .allow) :
    exportedReasons policy input lower = set (allowReasons policy input) := by
  simp [exportedReasons, h]

theorem allDenyReasons_notDenied {outcome : Outcome}
    (h : decision policy input lower = some outcome) (hout : outcome ≠ .deny) :
    hardDenyReasons policy input lower = [] ∧ allDenyReasons policy input lower = [] := by
  have hhard : hardDenyReasons policy input lower = [] := by
    cases outcome with
    | allow => exact (decision_allow_iff.mp h).1
    | deny => exact absurd rfl hout
    | needsHuman => exact (decision_needsHuman_iff.mp h).1
  refine ⟨hhard, ?_⟩
  simp [allDenyReasons, hhard, h, hout]

/-- Where a denial fires, the reasons of the denials are all there is. -/
theorem allDenyReasons_denied (h : hardDenyReasons policy input lower ≠ []) :
    allDenyReasons policy input lower = hardDenyReasons policy input lower := by
  have hnotDefault : (decision policy input lower == some .deny &&
      (hardDenyReasons policy input lower).isEmpty) = false := by simp [h]
  rw [allDenyReasons, hnotDefault, if_neg Bool.false_ne_true, List.append_nil]
  exact set_set _

/-- Every decision is exported with a reason. -/
theorem exportedReasons_ne_nil {outcome : Outcome}
    (h : decision policy input lower = some outcome) :
    exportedReasons policy input lower ≠ [] := by
  cases outcome with
  | allow =>
      rw [exportedReasons_allow h, Ne, set_eq_nil]
      exact (quiet_of_no_escalation (decision_allow_iff.mp h).2.1).1
  | deny =>
      rw [exportedReasons_deny h, Ne, set_eq_nil]
      by_cases hhard : hardDenyReasons policy input lower = []
      · simp [allDenyReasons, hhard, h]
      · rwa [allDenyReasons_denied hhard]
  | needsHuman =>
      rw [exportedReasons_needsHuman h, Ne, set_eq_nil]
      exact (decision_needsHuman_iff.mp h).2

/-- A set of reasons that the service accepts is read as these reasons. -/
theorem normalizeReasons_written {members : List PolicyReason} {value : Option Json}
    (hnamed : ∀ reason ∈ members, reason.Named)
    (h : WrittenSet PolicyReason.Written members value) (field : String) :
    ∃ listed : List PolicyReason, listed.Perm members ∧
      OpaOutput.normalizeReasons value field = .ok (listed.map PolicyReason.output) := by
  obtain ⟨listed, vs, hperm, rfl, hwritten⟩ := h
  refine ⟨listed, hperm, mapM_eq_ok.mpr ?_⟩
  have hlisted : ∀ reason ∈ listed, reason.Named :=
    fun reason hin => hnamed reason (hperm.subset hin)
  clear hperm
  induction hwritten with
  | nil => exact .nil
  | @cons r v listed vs hrv _ ih =>
      refine .cons ?_ (ih fun reason hin => hlisted reason (List.mem_cons_of_mem _ hin))
      obtain ⟨hrule, hmessage⟩ := hrv
      have hr := hlisted r List.mem_cons_self
      rw [hr.rule] at hrule
      cases v with
      | obj fs => simp only [OpaOutput.normalizeReason, hrule, hmessage]; rfl
      | null | bool _ | num _ | str _ | arr _ => cases hrule

/-- A set of rule names is read as these names. -/
theorem normalizeStringArray_written {reasons : List PolicyReason} {value : Option Json}
    (hnamed : ∀ reason ∈ reasons, reason.Named)
    (h : WrittenSet Eq (set (reasons.map PolicyReason.rule)) value) (field : String) :
    ∃ rules : List String, OpaOutput.normalizeStringArray value field = .ok rules ∧
      ∀ s, s ∈ rules ↔ ∃ reason ∈ reasons, reason.output.rule = s := by
  obtain ⟨listed, vs, hperm, rfl, hwritten⟩ := h
  rw [List.forall₂_eq_eq_eq] at hwritten
  subst hwritten
  have hmem : ∀ v, v ∈ listed ↔ ∃ reason ∈ reasons, reason.rule = v := by
    intro v
    rw [hperm.mem_iff, mem_set, List.mem_map]
  refine ⟨listed.map ruleText, mapM_eq_ok.mpr ?_, ?_⟩
  · refine List.forall₂_map_right_iff.mpr (List.forall₂_same.mpr fun v hv => ?_)
    obtain ⟨reason, hreason, rfl⟩ := (hmem v).mp hv
    rw [(hnamed reason hreason).rule]
    rfl
  · intro s
    simp only [List.mem_map, hmem]
    constructor
    · rintro ⟨_, ⟨reason, hreason, rfl⟩, rfl⟩
      exact ⟨reason, hreason, rfl⟩
    · rintro ⟨reason, hreason, rfl⟩
      exact ⟨_, ⟨reason, hreason, rfl⟩, rfl⟩

theorem normalizeOptionalReasons_ok {value : Option Json} {field : String}
    {reasons : List OpaOutput.Reason}
    (h : OpaOutput.normalizeReasons value field = .ok reasons) :
    OpaOutput.normalizeOptionalReasons value field = .ok reasons := by
  cases value with
  | none => cases h
  | some v => exact h

theorem WrittenSet.field_some {α : Type} {written : α → Json → Prop} {members : List α}
    {value : Option Json} (h : WrittenSet written members value) : ∃ v, value = some v := by
  obtain ⟨-, vs, -, rfl, -⟩ := h
  exact ⟨_, rfl⟩

theorem perm_rules {listed members : List PolicyReason} (h : listed.Perm members) :
    ((listed.map PolicyReason.output).map OpaOutput.Reason.rule).Perm
      ((members.map PolicyReason.output).map OpaOutput.Reason.rule) :=
  (h.map _).map _

/-- The parts list what the policy exports. -/
structure Transcribed (policy : Json) (input : PolicyInput) (lower : String → String)
    (outcome : Outcome) (parts : OpaOutput.Parts) : Prop where
  decision : parts.decision = some (.str outcome.text)
  human : parts.requiresHumanApproval = some (.bool (requiresHumanApproval policy input lower))
  reasons : ∃ listed : List PolicyReason, listed.Perm (exportedReasons policy input lower) ∧
    parts.reasons = listed.map PolicyReason.output
  hardDenyReasons : ∃ listed : List PolicyReason,
    listed.Perm (hardDenyReasons policy input lower) ∧
    parts.hardDenyReasons = listed.map PolicyReason.output
  escalationReasons : ∃ listed : List PolicyReason,
    listed.Perm (escalationReasons policy input) ∧
    parts.escalationReasons = listed.map PolicyReason.output
  allowRules : ∀ s, s ∈ parts.matchedAllowRules ↔
    ∃ reason ∈ allowReasons policy input, reason.output.rule = s
  denyRules : ∀ s, s ∈ parts.matchedDenyRules ↔
    ∃ reason ∈ allDenyReasons policy input lower, reason.output.rule = s

theorem coherent_of_transcribed {outcome : Outcome} {parts : OpaOutput.Parts}
    (h : Transcribed policy input lower outcome parts) (hnames : NamedEntries policy)
    (houtcome : decision policy input lower = some outcome) :
    OpaOutput.Coherent parts outcome := by
  have hexported := @exportedReasons_named policy input lower hnames
  obtain ⟨listed, hperm, hreasons⟩ := h.reasons
  obtain ⟨hard, hhardPerm, hhard⟩ := h.hardDenyReasons
  obtain ⟨escalation, hescalationPerm, hescalation⟩ := h.escalationReasons
  exact {
    decision := h.decision
    human := by
      rw [h.human, requiresHumanApproval, houtcome]
      cases outcome <;> rfl
    named := by
      intro reason hin
      rw [hreasons] at hin
      obtain ⟨r, hr, rfl⟩ := List.mem_map.mp hin
      have hnamed := hexported r (hperm.subset hr)
      exact ⟨hnamed.ruleNonempty, hnamed.message⟩
    reasons := by
      intro hnil
      rw [hreasons, List.map_eq_nil_iff] at hnil
      subst hnil
      exact exportedReasons_ne_nil houtcome hperm.symm.eq_nil
    notDenied := by
      intro hout
      obtain ⟨hnone, hall⟩ := allDenyReasons_notDenied houtcome hout
      rw [hnone] at hhardPerm
      refine ⟨by rw [hhard, hhardPerm.eq_nil, List.map_nil], ?_⟩
      refine List.eq_nil_iff_forall_not_mem.mpr fun s hs => ?_
      obtain ⟨reason, hin, -⟩ := (h.denyRules s).mp hs
      rw [hall] at hin
      cases hin
    allowed := by
      rintro rfl
      have hquiet := (decision_allow_iff.mp houtcome).2.1
      rw [hquiet] at hescalationPerm
      refine ⟨by rw [hescalation, hescalationPerm.eq_nil, List.map_nil], ?_, ?_⟩
      · obtain ⟨reason, hreason⟩ :=
          List.exists_mem_of_ne_nil _ (quiet_of_no_escalation hquiet).1
        exact List.ne_nil_of_mem ((h.allowRules _).mpr ⟨reason, hreason, rfl⟩)
      · intro reason hin
        rw [hreasons] at hin
        obtain ⟨r, hr, rfl⟩ := List.mem_map.mp hin
        have hallowed := hperm.subset hr
        rw [exportedReasons_allow houtcome, mem_set] at hallowed
        exact (h.allowRules _).mpr ⟨r, hallowed, rfl⟩
    denied := by
      rintro rfl
      by_cases hnone : hardDenyReasons policy input lower = []
      · rw [hnone] at hhardPerm
        exact .inl (by rw [hhard, hhardPerm.eq_nil, List.map_nil])
      · rw [exportedReasons_deny houtcome, allDenyReasons_denied hnone] at hperm
        rw [hreasons, hhard]
        refine .inr (perm_rules (hperm.trans ?_))
        rw [show Rego.set (hardDenyReasons policy input lower) = _ from set_set _]
        exact hhardPerm.symm
    escalated := by
      rintro rfl
      rw [exportedReasons_needsHuman houtcome] at hperm
      rw [hreasons, hescalation]
      refine .inr (perm_rules (hperm.trans ?_))
      rw [show Rego.set (escalationReasons policy input) = _ from set_set _]
      exact hescalationPerm.symm }

/-- The parts that the service reads from the exported object. -/
theorem parts_of_exported {document : Json} {outcome : Outcome} (hnames : NamedEntries policy)
    (houtcome : decision policy input lower = some outcome)
    (h : Exported policy input lower document) :
    ∃ (parts : OpaOutput.Parts) (listed : List PolicyReason),
      listed.Perm (exportedReasons policy input lower) ∧
      parts.reasons = listed.map PolicyReason.output ∧
      OpaOutput.readParts document = .ok parts ∧ OpaOutput.Coherent parts outcome := by
  have hdecision := h.decision outcome houtcome
  obtain ⟨listed, hperm, hreasons⟩ :=
    normalizeReasons_written (exportedReasons_named hnames) h.reasons "reasons"
  obtain ⟨hard, hhardPerm, hhard⟩ := normalizeReasons_written hardDenyReasons_named
    h.hardDenyReasons "hard_deny_reasons"
  obtain ⟨escalation, hescalationPerm, hescalation⟩ := normalizeReasons_written
    escalationReasons_named h.escalationReasons "escalation_reasons"
  obtain ⟨allowRules, hallow, hallowMem⟩ := normalizeStringArray_written
    (allowReasons_named hnames) h.matchedAllowRules "matched_allow_rules"
  obtain ⟨denyRules, hdeny, hdenyMem⟩ := normalizeStringArray_written
    allDenyReasons_named h.matchedDenyRules "matched_deny_rules"
  obtain ⟨allowValue, hallowValue⟩ := h.matchedAllowRules.field_some
  obtain ⟨denyValue, hdenyValue⟩ := h.matchedDenyRules.field_some
  obtain ⟨reasonsValue, hreasonsValue⟩ := h.reasons.field_some
  rw [hallowValue] at hallow
  rw [hdenyValue] at hdeny
  let parts : OpaOutput.Parts := {
    decision := some (.str outcome.text)
    reasons := listed.map PolicyReason.output
    hardDenyReasons := hard.map PolicyReason.output
    escalationReasons := escalation.map PolicyReason.output
    requiresHumanApproval := some (.bool (requiresHumanApproval policy input lower))
    matchedAllowRules := allowRules
    matchedDenyRules := denyRules }
  have htranscribed : Transcribed policy input lower outcome parts :=
    ⟨rfl, rfl, ⟨listed, hperm, rfl⟩, ⟨hard, hhardPerm, rfl⟩, ⟨escalation, hescalationPerm, rfl⟩,
      hallowMem, hdenyMem⟩
  refine ⟨parts, listed, hperm, rfl, ?_, coherent_of_transcribed htranscribed hnames houtcome⟩
  have hforeign := h.foreign
  simp only [List.forall_mem_cons] at hforeign
  obtain ⟨hcamelHuman, hcamelAllow, hcamelDeny, -⟩ := hforeign
  exact OpaOutput.readParts_ok (by simp [Json.hasField, hdecision])
    (by simp [Json.hasField, hreasonsValue]) hreasons (normalizeOptionalReasons_ok hhard)
    (normalizeOptionalReasons_ok hescalation)
    (OpaOutput.requiredField_snake hcamelHuman h.requiresHumanApproval)
    (OpaOutput.requiredField_snake hcamelAllow hallowValue) hallow
    (OpaOutput.requiredField_snake hcamelDeny hdenyValue) hdeny hdecision

theorem exportedReasons_toJson {listed : List PolicyReason} (hnames : NamedEntries policy)
    (hperm : listed.Perm (exportedReasons policy input lower)) :
    (listed.map PolicyReason.output).map OpaOutput.Reason.toJson =
      listed.map PolicyReason.toJson := by
  rw [List.map_map]
  refine List.map_congr_left fun reason hin => ?_
  have hrule := (exportedReasons_named hnames reason (hperm.subset hin)).rule
  simp only [Function.comp_apply, OpaOutput.Reason.toJson, PolicyReason.toJson, hrule]
  rfl

end

def exportedDocument (policy : Json) (input : PolicyInput) (lower : String → String) : Json :=
  .record [
    ("decision", (decision policy input lower).map fun outcome => .str outcome.text),
    ("reasons", some (.arr ((exportedReasons policy input lower).map PolicyReason.toJson))),
    ("hard_deny_reasons",
      some (.arr ((hardDenyReasons policy input lower).map PolicyReason.toJson))),
    ("escalation_reasons",
      some (.arr ((escalationReasons policy input).map PolicyReason.toJson))),
    ("matched_allow_rules", some (.arr (matchedAllowRules policy input))),
    ("matched_deny_rules", some (.arr (matchedDenyRules policy input lower))),
    ("requires_human_approval", some (.bool (requiresHumanApproval policy input lower)))]

theorem exported_exportedDocument (policy : Json) (input : PolicyInput)
    (lower : String → String) :
    Exported policy input lower (exportedDocument policy input lower) := by
  have hreasons : ∀ reasons : List PolicyReason, List.Forall₂ PolicyReason.Written reasons
      (reasons.map PolicyReason.toJson) := by
    intro reasons
    refine List.forall₂_map_right_iff.mpr (List.forall₂_same.mpr fun reason _ => ?_)
    simp [PolicyReason.Written, PolicyReason.toJson]
  exact {
    decision := by
      intro outcome houtcome
      simp [exportedDocument, houtcome]
    reasons := ⟨_, _, .refl _, by simp [exportedDocument], hreasons _⟩
    hardDenyReasons := ⟨_, _, .refl _, by simp [exportedDocument], hreasons _⟩
    escalationReasons := ⟨_, _, .refl _, by simp [exportedDocument], hreasons _⟩
    matchedAllowRules := ⟨_, _, .refl _, by simp [exportedDocument], List.forall₂_refl _⟩
    matchedDenyRules := ⟨_, _, .refl _, by simp [exportedDocument], List.forall₂_refl _⟩
    requiresHumanApproval := by simp [exportedDocument]
    foreign := by simp [exportedDocument] }

/-- What the service makes of the exported object is the decision of the policy, and a value
that the service leaves as it is. -/
structure Agrees (host : Host) (policy : Json) (input : PolicyInput) (lower : String → String)
    (outcome : Outcome) (v : Json) : Prop where
  decision : v.field? "decision" = some (.str outcome.text)
  reasons : ∃ listed : List PolicyReason, listed.Perm (exportedReasons policy input lower) ∧
    v.field? "reasons" = some (.arr (listed.map PolicyReason.toJson))
  requiresHumanApproval :
    v.field? "requiresHumanApproval" = some (.bool (outcome == .needsHuman))
  fixed : ∀ later, transformOpaOutput host (some v) later = .ok v

/-- Policy document and transform agree, where the host accepts the date that it writes. -/
theorem exported_agrees {host : Host} {policy : Json} {input : PolicyInput}
    {lower : String → String} {now : Instant} (hnames : NamedEntries policy)
    (hnow : host.isDatetime (host.toISOString now) = true) :
    ∃ outcome, decision policy input lower = some outcome ∧
      ∀ document, Exported policy input lower document →
        ∃ v, transformOpaOutput host (some document) now = .ok v ∧
          (∀ status body, body.field? "result" = some document →
            OpaHttpPolicyEvaluator.evaluate host true status body now = .ok v) ∧
          Agrees host policy input lower outcome v := by
  refine ⟨_, decision_eq, fun document hdocument => ?_⟩
  obtain ⟨parts, listed, hperm, hreasons, hparts, hcoherent⟩ :=
    parts_of_exported hnames decision_eq hdocument
  obtain ⟨fs, rfl⟩ : ∃ fs, document = .obj fs := by
    have hdecision := hdocument.decision _ decision_eq
    cases document with
    | obj fs => exact ⟨fs, rfl⟩
    | null | bool _ | num _ | str _ | arr _ => cases hdecision
  have hat := hdocument.foreign "evaluatedAt" (by simp)
  have htransform := hcoherent.transform rfl hparts hat hnow
  refine ⟨_, htransform, ?_, ?_⟩
  · intro status body hbody
    cases body with
    | obj members =>
        simp only [OpaHttpPolicyEvaluator.evaluate, hbody, Bool.not_true, Bool.false_eq_true,
          if_false, htransform]
    | null | bool _ | num _ | str _ | arr _ => cases hbody
  · have hjson := hcoherent.toJson (.str (host.toISOString now))
    exact {
      decision := by rw [hjson]; rfl
      reasons := by
        refine ⟨listed, hperm, ?_⟩
        rw [hjson, ← exportedReasons_toJson hnames hperm, ← hreasons]
        rfl
      requiresHumanApproval := by rw [hjson]; rfl
      fixed := fun later => hcoherent.transform_toJson hnow later }

theorem exported_agrees_spotOrder :
    ∃ v, transformOpaOutput (plainHost id fun _ => id)
        (some (exportedDocument canaryPolicy spotOrder id)) ⟨0, by decide⟩ = .ok v ∧
      Agrees (plainHost id fun _ => id) canaryPolicy spotOrder id .allow v := by
  have hnames : NamedEntries canaryPolicy := by
    intro entry hin name hname
    obtain rfl := List.mem_singleton.mp hin
    cases hname
    exact ⟨_, rfl, by decide⟩
  obtain ⟨outcome, houtcome, hagrees⟩ :=
    @exported_agrees (plainHost id fun _ => id) canaryPolicy spotOrder id ⟨0, by decide⟩ hnames rfl
  have hallow : decision canaryPolicy spotOrder id = some .allow := by decide +kernel
  rw [hallow, Option.some.injEq] at houtcome
  subst houtcome
  obtain ⟨v, hv, -, hagreed⟩ := hagrees _ (exported_exportedDocument _ _ _)
  exact ⟨v, hv, hagreed⟩

end Policy
end TradingGuardrails
