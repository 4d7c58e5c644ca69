import TradingGuardrails.Schemas.Intent

/-!
The schemas do not look at the order of object members: a value that is equal to an
accepted intent up to that order is an accepted intent.
-/
namespace TradingGuardrails

open Text

namespace Check

/-- A check that accepts a value accepts each reordering of it. -/
def Unordered (check : Check) : Prop :=
  ∀ v w, Json.Equiv v w → check v = true → check w = true

@[simp] theorem unordered_any : Unordered any := fun _ _ _ _ => rfl

@[simp] theorem unordered_string (accepts : String → Bool) : Unordered (string accepts) := by
  intro v w h hv
  cases v with
  | str s =>
      simp only [Json.Equiv] at h
      rw [h]
      exact hv
  | null | bool | num | arr | obj => cases hv

@[simp] theorem unordered_number (accepts : ℚ → Bool) : Unordered (number accepts) := by
  intro v w h hv
  cases v with
  | num n =>
      simp only [Json.Equiv] at h
      rw [h]
      exact hv
  | null | bool | str | arr | obj => cases hv

theorem unordered_array {item : Check} (hitem : Unordered item) (accepts : Nat → Bool) :
    Unordered (array item accepts) := by
  intro v w h hv
  cases v with
  | arr xs =>
      obtain ⟨ys, rfl, hxs⟩ := h
      rw [Json.equivList_iff] at hxs
      simp only [array, Bool.and_eq_true] at hv ⊢
      refine ⟨hxs.length_eq ▸ hv.1, ?_⟩
      have hall := hv.2
      clear hv
      induction hxs with
      | nil => exact hall
      | cons hxy _ ih =>
          simp only [List.all_cons, Bool.and_eq_true] at hall ⊢
          exact ⟨hitem _ _ hxy hall.1, ih hall.2⟩
  | null | bool | num | str | obj => cases hv

@[simp] theorem unordered_record : Unordered (record any) := by
  intro v w h hv
  cases v with
  | obj fs =>
      have hkeys := Json.equiv_keys h
      obtain ⟨gs, rfl, -⟩ := h
      simp only [record, Bool.and_eq_true, decide_eq_true_eq] at hv ⊢
      exact ⟨hkeys.nodup hv.1, by simp [any]⟩
  | null | bool | num | str | arr => cases hv

/-- A field that is absent stays absent. -/
theorem field_none {v w : Json} (h : Json.Equiv v w) {k : String} (hv : v.field? k = none) :
    w.field? k = none := by
  by_contra hw
  have hmem : k ∈ w.keys := Json.field?_isSome.mp (Option.isSome_iff_ne_none.mpr hw)
  have hback := Json.field?_isSome.mpr ((Json.equiv_keys h).symm.subset hmem)
  rw [hv] at hback
  cases hback

theorem unordered_strict {fields : List Field} (hfields : ∀ f ∈ fields, Unordered f.check) :
    Unordered (strict fields) := by
  intro v w h hv
  cases v with
  | obj fs =>
      have hkeys := Json.equiv_keys h
      have hequiv := h
      obtain ⟨gs, rfl, -⟩ := h
      simp only [strict, Bool.and_eq_true, decide_eq_true_eq, List.all_eq_true] at hv ⊢
      obtain ⟨⟨honce, hknown⟩, haccepts⟩ := hv
      have honce' := hkeys.nodup honce
      refine ⟨⟨honce', fun k hk => hknown k (hkeys.symm.subset hk)⟩, fun f hf => ?_⟩
      have hold := haccepts f hf
      cases hfield : (Json.obj fs).field? f.key with
      | none =>
          simp only [Field.accepts, hfield] at hold
          simp only [Field.accepts, field_none hequiv hfield]
          exact hold
      | some x =>
          obtain ⟨y, hy, hxy⟩ := Json.equiv_field hequiv honce' hfield
          simp only [Field.accepts, hfield] at hold
          simp only [Field.accepts, hy]
          exact hfields f hf x y hxy hold
  | null | bool | num | str | arr => cases hv

end Check

open Check

theorem textField_equiv {v w : Json} (h : Json.Equiv v w) (once : w.keys.Nodup) (key : String) :
    textField w key = textField v key := by
  cases hv : v.field? key with
  | none => simp only [textField, hv, Check.field_none h hv]
  | some x =>
      obtain ⟨y, hy, hxy⟩ := Json.equiv_field h once hv
      simp only [textField, hv, hy]
      cases x with
      | null | bool | num | str =>
          simp only [Json.Equiv] at hxy
          rw [hxy]
      | arr xs =>
          obtain ⟨ys, rfl, -⟩ := hxy
          rfl
      | obj fs =>
          obtain ⟨gs, rfl, -⟩ := hxy
          rfl

namespace IntentSchema

variable {host : Host}

theorem unordered_delta (owner : String) : Unordered (expectedBalanceDelta owner) :=
  unordered_strict (by simp [required, nonEmpty, integerDelta])

theorem unordered_deltas (owner : String) (accepts : Nat → Bool) :
    Unordered (array (expectedBalanceDelta owner) accepts) :=
  unordered_array (unordered_delta owner) accepts

theorem unordered_instructions : Unordered instructions :=
  unordered_array unordered_record _

theorem unordered_evidence (accepts : Nat → Bool) : Unordered (array nonEmpty accepts) :=
  unordered_array (unordered_string _) accepts

theorem unordered_envelope (action : Action) :
    ∀ f ∈ intentEnvelope host action, Unordered f.check := by
  have hevidence := unordered_evidence fun n => 1 ≤ n && n ≤ maxEvidenceItems
  simp only [nonEmpty] at hevidence
  simpa [intentEnvelope, required, nonEmpty, literal, environment, oneOf] using hevidence

theorem unordered_simulation {chain : String} {body : List Field}
    (hbody : onchainSimulationFields chain = some body) : ∀ f ∈ body, Unordered f.check := by
  unfold onchainSimulationFields at hbody
  split at hbody
  · cases hbody
    simp [onchainSimulationBase, required, Check.optional, nonEmpty, literal, oneOf, text,
      unordered_instructions, evmExpectedBalanceDelta, unordered_deltas]
  · cases hbody
    simp [onchainSimulationBase, required, Check.optional, nonEmpty, literal, oneOf, text,
      unordered_instructions, solanaExpectedBalanceDelta, unordered_deltas]
  · cases hbody

theorem unordered_signing {chain : String} {body : List Field}
    (hbody : onchainSigningFields host chain = some body) : ∀ f ∈ body, Unordered f.check := by
  unfold onchainSigningFields at hbody
  split at hbody
  · cases hbody
    simp [required, Check.optional, nonEmpty, literal, oneOf, text, tokenApprovalAmount,
      unordered_instructions, evmExpectedBalanceDelta, unordered_deltas]
  · cases hbody
    simp [required, Check.optional, nonEmpty, literal, oneOf, text, tokenApprovalAmount,
      unordered_instructions, solanaExpectedBalanceDelta, unordered_deltas]
  · cases hbody

theorem unordered_body {action : Action} {chain : String} {body : List Field}
    (hbody : bodyFields host action chain = some body) : ∀ f ∈ body, Unordered f.check := by
  cases action with
  | placeOrder =>
      cases hbody
      simp [cexOrderFields, required, Check.optional, nonEmpty, literal, oneOf, positive]
  | cancelOrder | getOrderStatus =>
      cases hbody
      simp [cexReferenceFields, required, nonEmpty, literal]
  | simulateTransaction => exact unordered_simulation hbody
  | requestSignature => exact unordered_signing hbody

/-- A reordered intent is an intent. -/
theorem unordered_tradingIntent : Unordered (tradingIntent host) := by
  intro v w h hv
  simp only [tradingIntent] at hv
  split at hv
  · cases hv
  · next action haction =>
      split at hv
      · cases hv
      · next body hbody =>
          have hfields : ∀ f ∈ intentEnvelope host action ++ body, Unordered f.check := by
            intro f hf
            rcases List.mem_append.mp hf with hf | hf
            · exact unordered_envelope action f hf
            · exact unordered_body hbody f hf
          have hw := unordered_strict hfields v w h hv
          have once := strict_nodup hw
          simp only [tradingIntent, textField_equiv h once, haction, hbody]
          exact hw

end IntentSchema
end TradingGuardrails
