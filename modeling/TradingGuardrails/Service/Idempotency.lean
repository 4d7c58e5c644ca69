import TradingGuardrails.Operations

/-!
The idempotency store of the guardrail service. An entry belongs to the call that
reserved it until its decision is set, or until it is aborted. A promise is settled once,
and stands for one entry.
-/
namespace TradingGuardrails

open Text

inductive DecisionEntry where
  | complete (payloadHash : String) (decision : GuardrailDecision)
  | pending (payloadHash : String) (promise : Nat)

def DecisionEntry.payloadHash : DecisionEntry → String
  | .complete payloadHash _ => payloadHash
  | .pending payloadHash _ => payloadHash

structure DecisionStore where
  entries : String → Option DecisionEntry
  next : Nat
  settled : Nat → Option (Except Thrown GuardrailDecision)

namespace DecisionStore

def empty : DecisionStore := ⟨fun _ => none, 0, fun _ => none⟩

def put (store : DecisionStore) (key : String) (entry : Option DecisionEntry) : DecisionStore :=
  { store with entries := Function.update store.entries key entry }

def settle (store : DecisionStore) (promise : Nat) (r : Except Thrown GuardrailDecision) :
    DecisionStore :=
  match store.settled promise with
  | some _ => store
  | none => { store with settled := Function.update store.settled promise (some r) }

def get (store : DecisionStore) (key payloadHash : String) : Lookup GuardrailDecision :=
  match store.entries key with
  | none => .absent
  | some entry =>
      if entry.payloadHash ≠ payloadHash then .conflict
      else match entry with
        | .complete _ decision => .complete decision
        | .pending _ promise => .pending promise

def reserve (store : DecisionStore) (key payloadHash : String) : DecisionStore :=
  match store.entries key with
  | some _ => store
  | none =>
      { store.put key (some (.pending payloadHash store.next)) with next := store.next + 1 }

def set (store : DecisionStore) (key payloadHash : String) (decision : GuardrailDecision) :
    DecisionStore :=
  let stored := store.put key (some (.complete payloadHash decision))
  match store.entries key with
  | some (.pending pendingHash promise) =>
      if pendingHash = payloadHash then stored.settle promise (.ok decision) else stored
  | _ => stored

def abort (store : DecisionStore) (key payloadHash : String) (error : Thrown) : DecisionStore :=
  match store.entries key with
  | some (.pending pendingHash promise) =>
      if pendingHash = payloadHash then (store.put key none).settle promise (.error error)
      else store
  | _ => store

section

variable {store : DecisionStore} {key key' payloadHash : String} {promise : Nat}

@[simp] theorem put_self (entry : Option DecisionEntry) :
    (store.put key entry).entries key = entry :=
  Function.update_self ..

theorem put_of_ne (h : key' ≠ key) (entry : Option DecisionEntry) :
    (store.put key entry).entries key' = store.entries key' :=
  Function.update_of_ne h ..

@[simp] theorem entries_settle (r : Except Thrown GuardrailDecision) :
    (store.settle promise r).entries = store.entries := by
  unfold settle
  split <;> rfl

@[simp] theorem next_settle (r : Except Thrown GuardrailDecision) :
    (store.settle promise r).next = store.next := by
  unfold settle
  split <;> rfl

theorem settled_settle (r : Except Thrown GuardrailDecision) (h : store.settled promise = none) :
    (store.settle promise r).settled = Function.update store.settled promise (some r) := by
  simp only [settle, h]

theorem reserve_of_ne (h : key' ≠ key) :
    (store.reserve key payloadHash).entries key' = store.entries key' := by
  unfold reserve
  split
  · rfl
  · exact put_of_ne h _

theorem set_of_ne (h : key' ≠ key) (decision : GuardrailDecision) :
    (store.set key payloadHash decision).entries key' = store.entries key' := by
  have hput := store.put_of_ne h (some (.complete payloadHash decision))
  unfold set
  split
  · split_ifs
    · rw [entries_settle, hput]
    · exact hput
  · exact hput

theorem abort_of_ne (h : key' ≠ key) (error : Thrown) :
    (store.abort key payloadHash error).entries key' = store.entries key' := by
  unfold abort
  split
  · split_ifs
    · rw [entries_settle]
      exact put_of_ne h _
    · rfl
  · rfl

theorem reserve_absent (h : store.entries key = none) :
    store.reserve key payloadHash =
      { store.put key (some (.pending payloadHash store.next)) with next := store.next + 1 } := by
  simp only [reserve, h]

theorem set_entry (decision : GuardrailDecision) :
    (store.set key payloadHash decision).entries key = some (.complete payloadHash decision) := by
  unfold set
  split
  · split_ifs
    · rw [entries_settle]
      exact put_self _
    · exact put_self _
  · exact put_self _

theorem set_pending (h : store.entries key = some (.pending payloadHash promise))
    (decision : GuardrailDecision) :
    store.set key payloadHash decision =
      (store.put key (some (.complete payloadHash decision))).settle promise (.ok decision) := by
  simp only [set, h, if_true]

theorem abort_pending (h : store.entries key = some (.pending payloadHash promise))
    (error : Thrown) :
    store.abort key payloadHash error = (store.put key none).settle promise (.error error) := by
  simp only [abort, h, if_true]

theorem abort_absent (h : store.entries key = none) (error : Thrown) :
    store.abort key payloadHash error = store := by
  simp only [abort, h]

theorem get_absent : store.get key payloadHash = .absent ↔ store.entries key = none := by
  unfold get
  split
  · rename_i hnone
    simp only [hnone]
  · rename_i entry hentry
    split_ifs
    · simp only [hentry, reduceCtorEq]
    · cases entry <;> simp only [hentry, reduceCtorEq]

theorem get_pending : store.get key payloadHash = .pending promise ↔
    store.entries key = some (.pending payloadHash promise) := by
  unfold get
  split
  · rename_i hnone
    simp only [hnone, reduceCtorEq]
  · rename_i entry hentry
    cases entry with
    | complete storedHash decision => split_ifs <;> simp [hentry]
    | pending storedHash other =>
        by_cases hhash : storedHash = payloadHash <;> simp [hentry, DecisionEntry.payloadHash, hhash]

theorem get_complete {decision : GuardrailDecision} :
    store.get key payloadHash = .complete decision ↔
      store.entries key = some (.complete payloadHash decision) := by
  unfold get
  split
  · rename_i hnone
    simp only [hnone, reduceCtorEq]
  · rename_i entry hentry
    cases entry with
    | complete storedHash other =>
        by_cases hhash : storedHash = payloadHash <;> simp [hentry, DecisionEntry.payloadHash, hhash]
    | pending storedHash other => split_ifs <;> simp [hentry]

end

/-- The pending entries of a store wait for promises of their own, which are not settled. -/
structure WellFormed (store : DecisionStore) : Prop where
  given : ∀ key payloadHash promise,
    store.entries key = some (.pending payloadHash promise) → promise < store.next
  unsettled : ∀ key payloadHash promise,
    store.entries key = some (.pending payloadHash promise) → store.settled promise = none
  fresh : ∀ promise, store.next ≤ promise → store.settled promise = none
  once : ∀ key key' payloadHash payloadHash' promise,
    store.entries key = some (.pending payloadHash promise) →
    store.entries key' = some (.pending payloadHash' promise) → key = key'

namespace WellFormed

variable {store : DecisionStore}

theorem empty : DecisionStore.empty.WellFormed where
  given _ _ _ h := by cases h
  unsettled _ _ _ h := by cases h
  fresh _ _ := rfl
  once _ _ _ _ _ h := by cases h

/-- An entry that waits for nothing may take the place of any. -/
theorem put (h : store.WellFormed) (key : String) {entry : Option DecisionEntry}
    (hentry : ∀ payloadHash promise, entry ≠ some (.pending payloadHash promise)) :
    (store.put key entry).WellFormed := by
  have hold : ∀ key' payloadHash promise,
      (store.put key entry).entries key' = some (.pending payloadHash promise) →
      store.entries key' = some (.pending payloadHash promise) := by
    intro key' payloadHash promise hpending
    by_cases hkey : key' = key
    · subst hkey
      rw [put_self] at hpending
      exact absurd hpending (hentry _ _)
    · rwa [put_of_ne hkey] at hpending
  constructor
  · exact fun key' payloadHash promise hp => h.given key' payloadHash promise (hold _ _ _ hp)
  · exact fun key' payloadHash promise hp => h.unsettled key' payloadHash promise (hold _ _ _ hp)
  · exact h.fresh
  · exact fun key' key'' _ _ promise hp hp' =>
      h.once key' key'' _ _ promise (hold _ _ _ hp) (hold _ _ _ hp')

/-- A promise that no entry waits for may be settled. -/
theorem settle (h : store.WellFormed) {promise : Nat} (r : Except Thrown GuardrailDecision)
    (hgiven : promise < store.next)
    (hfree : ∀ key payloadHash, store.entries key ≠ some (.pending payloadHash promise)) :
    (store.settle promise r).WellFormed := by
  have hother : ∀ other, other ≠ promise →
      (store.settle promise r).settled other = store.settled other := by
    intro other hother
    unfold DecisionStore.settle
    split
    · rfl
    · exact Function.update_of_ne hother _ _
  constructor
  · simpa only [entries_settle, next_settle] using h.given
  · intro key payloadHash other hpending
    rw [entries_settle] at hpending
    rw [hother other (fun heq => hfree key payloadHash (heq ▸ hpending))]
    exact h.unsettled key payloadHash other hpending
  · intro other hfresh
    rw [next_settle] at hfresh
    rw [hother other (by omega)]
    exact h.fresh other hfresh
  · simpa only [entries_settle] using h.once

theorem reserve (h : store.WellFormed) (key payloadHash : String) :
    (store.reserve key payloadHash).WellFormed := by
  unfold DecisionStore.reserve
  split
  · exact h
  · rename_i habsent
    have hentry : ∀ key' payloadHash' promise, Function.update store.entries key
        (some (.pending payloadHash store.next)) key' = some (.pending payloadHash' promise) →
        key' = key ∧ promise = store.next ∨
          key' ≠ key ∧ store.entries key' = some (.pending payloadHash' promise) := by
      intro key' payloadHash' promise hpending
      by_cases hkey : key' = key
      · subst hkey
        rw [Function.update_self] at hpending
        cases hpending
        exact .inl ⟨rfl, rfl⟩
      · rw [Function.update_of_ne hkey] at hpending
        exact .inr ⟨hkey, hpending⟩
    constructor <;> dsimp only [DecisionStore.put]
    · intro key' payloadHash' promise hpending
      rcases hentry _ _ _ hpending with ⟨-, rfl⟩ | ⟨-, hold⟩
      · omega
      · have := h.given _ _ _ hold
        omega
    · intro key' payloadHash' promise hpending
      rcases hentry _ _ _ hpending with ⟨-, rfl⟩ | ⟨-, hold⟩
      · exact h.fresh _ (Nat.le_refl _)
      · exact h.unsettled _ _ _ hold
    · exact fun promise hnext => h.fresh promise (by omega)
    · intro key' key'' _ _ promise hpending hpending'
      rcases hentry _ _ _ hpending with ⟨rfl, rfl⟩ | ⟨-, hold⟩
      · rcases hentry _ _ _ hpending' with ⟨rfl, -⟩ | ⟨-, hold'⟩
        · rfl
        · exact absurd (h.given _ _ _ hold') (Nat.lt_irrefl _)
      · rcases hentry _ _ _ hpending' with ⟨-, rfl⟩ | ⟨-, hold'⟩
        · exact absurd (h.given _ _ _ hold) (Nat.lt_irrefl _)
        · exact h.once _ _ _ _ _ hold hold'

/-- A pending entry that makes way for one that waits for nothing, with its promise settled. -/
theorem close (h : store.WellFormed) {key payloadHash : String} {promise : Nat}
    (hpending : store.entries key = some (.pending payloadHash promise))
    {entry : Option DecisionEntry}
    (hentry : ∀ payloadHash promise, entry ≠ some (.pending payloadHash promise))
    (r : Except Thrown GuardrailDecision) :
    ((store.put key entry).settle promise r).WellFormed := by
  refine (h.put key hentry).settle r (h.given _ _ _ hpending) fun key' payloadHash' hother => ?_
  by_cases hkey : key' = key
  · subst hkey
    rw [put_self] at hother
    exact hentry _ _ hother
  · rw [put_of_ne hkey] at hother
    exact hkey (h.once _ _ _ _ _ hother hpending)

theorem set (h : store.WellFormed) (key payloadHash : String) (decision : GuardrailDecision) :
    (store.set key payloadHash decision).WellFormed := by
  have hentry : ∀ payloadHash' promise,
      some (DecisionEntry.complete payloadHash decision) ≠ some (.pending payloadHash' promise) :=
    fun _ _ heq => by cases heq
  unfold DecisionStore.set
  split
  · rename_i pendingHash promise hpending
    split_ifs
    · exact h.close hpending hentry _
    · exact h.put key hentry
  · exact h.put key hentry

theorem abort (h : store.WellFormed) (key payloadHash : String) (error : Thrown) :
    (store.abort key payloadHash error).WellFormed := by
  unfold DecisionStore.abort
  split
  · rename_i pendingHash promise hpending
    split_ifs
    · exact h.close hpending (fun _ _ heq => by cases heq) _
    · exact h
  · exact h

end WellFormed

/-- The promises that are settled in one store have the same results in the other. -/
def Settles (store store' : DecisionStore) : Prop :=
  ∀ promise r, store.settled promise = some r → store'.settled promise = some r

theorem settles_settle (store : DecisionStore) (promise : Nat)
    (r : Except Thrown GuardrailDecision) : Settles store (store.settle promise r) := by
  intro other r' hsettled
  unfold settle
  split
  · exact hsettled
  · rename_i hnone
    have hne : other ≠ promise := by
      rintro rfl
      rw [hnone] at hsettled
      cases hsettled
    exact (Function.update_of_ne hne _ _).trans hsettled

theorem settles_reserve (store : DecisionStore) (key payloadHash : String) :
    Settles store (store.reserve key payloadHash) := by
  intro promise r hsettled
  unfold reserve
  split <;> exact hsettled

theorem settles_set (store : DecisionStore) (key payloadHash : String)
    (decision : GuardrailDecision) : Settles store (store.set key payloadHash decision) := by
  unfold set
  split
  · split_ifs
    · exact settles_settle (store.put key (some (.complete payloadHash decision))) _ _
    · exact fun _ _ hsettled => hsettled
  · exact fun _ _ hsettled => hsettled

theorem settles_abort (store : DecisionStore) (key payloadHash : String) (error : Thrown) :
    Settles store (store.abort key payloadHash error) := by
  unfold abort
  split
  · split_ifs
    · exact settles_settle (store.put key none) _ _
    · exact fun _ _ hsettled => hsettled
  · exact fun _ _ hsettled => hsettled

def after {host : Host} (store : DecisionStore) : Op host → DecisionStore
  | .reserve scope payloadHash => store.reserve scope payloadHash
  | .set scope payloadHash decision => store.set scope payloadHash decision
  | .abortDecision scope payloadHash error => store.abort scope payloadHash error
  | _ => store

theorem WellFormed.after {host : Host} {store : DecisionStore} (h : store.WellFormed)
    (op : Op host) : (store.after op).WellFormed := by
  cases op with
  | reserve scope payloadHash => exact h.reserve scope payloadHash
  | set scope payloadHash decision => exact h.set scope payloadHash decision
  | abortDecision scope payloadHash error => exact h.abort scope payloadHash error
  | _ => exact h

theorem settles_after {host : Host} (store : DecisionStore) (op : Op host) :
    Settles store (store.after op) := by
  cases op with
  | reserve scope payloadHash => exact store.settles_reserve scope payloadHash
  | set scope payloadHash decision => exact store.settles_set scope payloadHash decision
  | abortDecision scope payloadHash error => exact store.settles_abort scope payloadHash error
  | _ => exact fun _ _ hsettled => hsettled

end DecisionStore
end TradingGuardrails
