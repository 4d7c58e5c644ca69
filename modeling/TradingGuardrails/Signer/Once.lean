import TradingGuardrails.Signer.Obedience

/-!
The signer signs each authorization once. What the database holds is what was reserved and
published in the run; so two signatures never share a key, an intent or a nonce, and every
answer is the signature that was made under the key of its request.
-/
namespace TradingGuardrails

open Text Interleaving

namespace Signer

variable {host : Host} {process : Nat → SignerProcess}

abbrev Deed := (op : SignerOp) × SignerAns op

def SignerRow.bare (row : SignerRow) : SignerRow :=
  { row with response := none }

def reservedRow : Deed → Option SignerRow
  | ⟨.reserve row, .ok true⟩ => some row.bare
  | _ => none

structure Held (past : List Deed) (table : SignerTable) : Prop where
  rows : List.map SignerRow.bare table = (past.filterMap reservedRow).reverse
  distinct : List.Pairwise (fun row other => SignerTable.clashes row other = false) table
  responses : ∀ row ∈ table, ∀ result, row.response = some result →
    (⟨.complete result row.idempotencyKey, .ok true⟩ : Deed) ∈ past

theorem Held.later {past : List Deed} {table : SignerTable} (h : Held past table) {d : Deed}
    (hd : reservedRow d = none) : Held (d :: past) table := by
  refine ⟨?_, h.distinct, fun row hrow result hresult => ?_⟩
  · rw [List.filterMap_cons_none hd, h.rows]
  · exact List.mem_cons_of_mem _ (h.responses row hrow result hresult)

theorem Held.reserve {past : List Deed} {table : SignerTable} (h : Held past table)
    (row : SignerRow) :
    Held (⟨.reserve row, .ok (table.reserve row).1⟩ :: past) (table.reserve row).2 := by
  unfold SignerTable.reserve
  split_ifs with hclash
  · exact h.later rfl
  · have hfree : ∀ other ∈ table, SignerTable.clashes row other = false := by
      simpa using hclash
    constructor
    case rows =>
      have hcons : ((⟨.reserve row, .ok true⟩ : Deed) :: past).filterMap reservedRow =
          row.bare :: past.filterMap reservedRow := rfl
      rw [hcons, List.reverse_cons, ← h.rows, List.map_append]
      rfl
    case distinct =>
      refine List.pairwise_append.mpr ⟨h.distinct, List.pairwise_singleton _ _, ?_⟩
      intro other hother new hnew
      rw [List.mem_singleton.mp hnew]
      have hnone := hfree other hother
      simp only [SignerTable.clashes, Bool.or_eq_false_iff, beq_eq_false_iff_ne] at hnone ⊢
      exact ⟨⟨hnone.1.1.symm, hnone.1.2.symm⟩, hnone.2.symm⟩
    case responses =>
      intro other hother result hresult
      rcases List.mem_append.mp hother with hold | hnew
      · exact List.mem_cons_of_mem _ (h.responses other hold result hresult)
      · rw [List.mem_singleton.mp hnew] at hresult
        cases hresult

theorem Held.complete {past : List Deed} {table : SignerTable} (h : Held past table)
    (response : OfflineSignature) (key : String) :
    Held (⟨.complete response key, .ok (table.complete response key).1⟩ :: past)
      (table.complete response key).2 := by
  have hbare : ∀ row : SignerRow, SignerRow.bare (if SignerTable.open_ key row then
      { row with response := some response } else row) = row.bare := by
    intro row
    split_ifs <;> rfl
  constructor
  case rows =>
    rw [List.filterMap_cons_none rfl, ← h.rows, SignerTable.complete, List.map_map]
    exact List.map_congr_left fun row _ => hbare row
  case distinct =>
    refine List.pairwise_map.mpr (h.distinct.imp fun {row other} hclash => ?_)
    split_ifs <;> exact hclash
  case responses =>
    intro other hother result hresult
    obtain ⟨row, hrow, rfl⟩ := List.mem_map.mp hother
    by_cases hopen : SignerTable.open_ key row = true
    · rw [if_pos hopen] at hresult ⊢
      cases hresult
      have hkey : row.idempotencyKey = key := by
        rw [SignerTable.open_, Bool.and_eq_true, beq_iff_eq] at hopen
        exact hopen.1
      have hchanged : List.any table (SignerTable.open_ key) = true :=
        List.any_eq_true.mpr ⟨row, hrow, hopen⟩
      rw [SignerTable.complete, hchanged, hkey]
      exact List.mem_cons_self
    · rw [if_neg hopen] at hresult ⊢
      exact List.mem_cons_of_mem _ (h.responses row hrow result hresult)

theorem signers_closed : (signers host process).Closed where
  crash _ _ := rfl
  outside x := x.elim

theorem held_reachable {cfg : Config (signerMachine host)}
    (h : (signers host process).Reachable cfg) : Held (performed cfg.log) cfg.world := by
  refine signers_closed.invariant (fun table htable => ?_) ?_ h
  · rw [show table = [] from htable]
    exact ⟨rfl, List.Pairwise.nil, fun row hrow => by cases hrow⟩
  · intro past table p op input a table' hheld hperformed
    have hdone : perform op input table = (a, table') := Option.some.inj hperformed
    obtain ⟨clock, failure, signedTransaction⟩ := input
    cases op with
    | now | signTransaction =>
        cases hdone
        exact hheld.later rfl
    | find | audit | awaitSigned =>
        cases failure <;> (cases hdone; exact hheld.later rfl)
    | reserve row =>
        cases failure with
        | none =>
            cases hdone
            exact hheld.reserve row
        | some e =>
            cases hdone
            exact hheld.later rfl
    | complete response key =>
        cases failure with
        | none =>
            cases hdone
            exact hheld.complete response key
        | some e =>
            cases hdone
            exact hheld.later rfl

abbrev SignerLog (host : Host) := Log (signerMachine host)

abbrev did (c : Nat) (op : SignerOp) (a : SignerAns op) : Event (signerMachine host) :=
  .did c op a

def Serving (log : SignerLog host) (c p : Nat) (request : SigningRequest host) : Prop :=
  ∃ call, entryOf c log = some (p, call) ∧ call.body = .ok request

theorem Serving.unique {log : SignerLog host} {c p q : Nat} {r r' : SigningRequest host}
    (h : Serving log c p r) (h' : Serving log c q r') : p = q ∧ r = r' := by
  obtain ⟨call, hentry, hbody⟩ := h
  obtain ⟨call', hentry', hbody'⟩ := h'
  rw [hentry] at hentry'
  cases hentry'
  rw [hbody] at hbody'
  cases hbody'
  exact ⟨rfl, rfl⟩

theorem Serving.append {newer older : SignerLog host} (hlog : Numbered (newer ++ older))
    {c p : Nat} {r : SigningRequest host} (h : Serving older c p r) :
    Serving (newer ++ older) c p r := by
  obtain ⟨call, hentry, hbody⟩ := h
  exact ⟨call, entryOf_append hlog hentry, hbody⟩

theorem performed_append (newer older : SignerLog host) :
    performed (newer ++ older) = performed newer ++ performed older := by
  induction newer with
  | nil => rfl
  | cons e newer ih =>
      cases e with
      | did c op a => exact congrArg _ ih
      | started | returned | crashed | outside => exact ih

theorem mem_performed {log : SignerLog host} {op : SignerOp} {a : SignerAns op} :
    (⟨op, a⟩ : Deed) ∈ performed log ↔ ∃ c, did c op a ∈ log := by
  induction log with
  | nil => simp [performed]
  | cons e log ih =>
      cases e with
      | did c op' a' =>
          simp only [performed, List.mem_cons, ih, Event.did.injEq, Sigma.mk.injEq]
          constructor
          · rintro (⟨rfl, heq⟩ | ⟨c', hc'⟩)
            · exact ⟨c, .inl ⟨rfl, rfl, heq⟩⟩
            · exact ⟨c', .inr hc'⟩
          · rintro ⟨c', ⟨-, rfl, heq⟩ | hmem⟩
            · exact .inl ⟨rfl, heq⟩
            · exact .inr ⟨c', hmem⟩
      | started | returned | crashed | outside => simp [performed, ih]

/-- Reservations that clash are one and the same. -/
theorem reservation_unique {log : SignerLog host} {table : SignerTable}
    (hheld : Held (performed log) table) {c c' : Nat} {row row' : SignerRow}
    (h : did c (.reserve row) (.ok true) ∈ log) (h' : did c' (.reserve row') (.ok true) ∈ log)
    (hclash : SignerTable.clashes row row' = true) : c = c' ∧ row = row' := by
  have hdistinct : (List.filterMap reservedRow (performed log)).Pairwise
      fun row other => SignerTable.clashes other row = false := by
    rw [← List.pairwise_reverse, ← hheld.rows]
    exact List.pairwise_map.mpr (hheld.distinct.imp fun {_ _} hne => hne)
  have hapart : ∀ {newer older : SignerLog host} {c c' : Nat} {row row' : SignerRow},
      log = newer ++ did c (.reserve row) (.ok true) :: older →
      did c' (.reserve row') (.ok true) ∈ older → SignerTable.clashes row' row = false := by
    intro newer older c c' row row' hlog hmem
    rw [hlog, performed_append, List.filterMap_append] at hdistinct
    have hcons := (List.pairwise_append.mp hdistinct).2.1
    have hhead : List.filterMap reservedRow
        (performed (did c (.reserve row) (.ok true) :: older)) =
        row.bare :: List.filterMap reservedRow (performed older) := rfl
    rw [hhead, List.pairwise_cons] at hcons
    exact hcons.1 row'.bare (List.mem_filterMap.mpr ⟨_, mem_performed.mpr ⟨c', hmem⟩, rfl⟩)
  have hsymm : SignerTable.clashes row' row = true := by
    simp only [SignerTable.clashes, Bool.or_eq_true, beq_iff_eq] at hclash ⊢
    exact hclash.imp (Or.imp Eq.symm Eq.symm) Eq.symm
  obtain ⟨newer, older, rfl⟩ := List.append_of_mem h
  rcases List.mem_append.mp h' with hnewer | hrest
  · obtain ⟨newest, between, rfl⟩ := List.append_of_mem hnewer
    have hfalse := hapart (List.append_assoc newest _ _) (List.mem_append_right between
      (List.mem_cons_self (a := did c (.reserve row) (.ok true)) (l := older)))
    rw [hclash] at hfalse
    cases hfalse
  · rcases List.mem_cons.mp hrest with heq | holder
    · cases heq
      exact ⟨rfl, rfl⟩
    · rw [hapart rfl holder] at hsymm
      cases hsymm

/-- A call stands in the state that its events have led to, in its process. -/
theorem state_serves {log : SignerLog host} (hkept : (discipline process).Kept log) {c : Nat}
    {s : SigningAttempt host} (hs : (discipline process).state c log = some s) :
    ∃ p, entryOf c log = some (p, s.call) ∧ s.signer = process p := by
  obtain ⟨p, e, hentry, hsigner, hcall⟩ := hkept.state_invariant
    (P := fun p e (s : SigningAttempt host) => s.signer = process p ∧ s.call = e)
    (fun p e => ⟨rfl, rfl⟩) (fun p e s op a h _ => h) hs
  exact ⟨p, hcall ▸ hentry, hsigner⟩

/-- What a call that serves a request has done to come to a stage. -/
def Stage.Shown (done : (op : SignerOp) → SignerAns op → Prop) (request : SigningRequest host) :
    Stage → Prop
  | .start | .finished => True
  | .timed now | .missing now => done .now now
  | .reserved now => done .now now ∧ done (.reserve (reservation request)) (.ok true)
  | .signing _ => done (.reserve (reservation request)) (.ok true) ∧
      done (.signTransaction (unsigned request)) ()
  | .signed _ signedTransaction => done (.reserve (reservation request)) (.ok true) ∧
      done (.signTransaction (unsigned request)) () ∧
      done (.awaitSigned (unsigned request)) (.ok signedTransaction)
  | .published result => done (.complete result request.intent.idempotencyKey) (.ok true)
  | .cached requestHash result =>
      done (.find request.intent.idempotencyKey) (.ok (some (requestHash, some result)))

theorem Stage.Shown.mono {done done' : (op : SignerOp) → SignerAns op → Prop}
    (hmono : ∀ op a, done op a → done' op a) {request : SigningRequest host} {stage : Stage}
    (h : stage.Shown done request) : stage.Shown done' request := by
  cases stage with
  | start | finished => exact True.intro
  | timed | missing | published | cached => exact hmono _ _ h
  | reserved | signing => exact ⟨hmono _ _ h.1, hmono _ _ h.2⟩
  | signed => exact ⟨hmono _ _ h.1, hmono _ _ h.2.1, hmono _ _ h.2.2⟩

/-- An allowed operation is itself what the stage after it shows. -/
theorem shown_next {done : (op : SignerOp) → SignerAns op → Prop} {s : SigningAttempt host}
    {op : SignerOp} {a : SignerAns op} (hdone : done op a) (hallowed : s.Allowed op)
    {request : SigningRequest host} (hbody : s.call.body = .ok request)
    (h : s.stage.Shown done request) : (s.stageAfter op a).Shown done request := by
  have hsame : ∀ {request' : SigningRequest host} {now : Int}, s.Serves request' now →
      request' = request := by
    intro request' now hserves
    have heq := hserves.body.symm.trans hbody
    cases heq
    rfl
  cases op with
  | now => exact hdone
  | audit => exact h
  | find key =>
      obtain ⟨request', now, hserves, hstage, rfl⟩ := hallowed
      obtain rfl := hsame hserves
      rcases a with e | _ | ⟨requestHash, _ | result⟩
      · exact True.intro
      · simp only [SigningAttempt.stageAfter, hstage] at h ⊢
        exact h
      · exact True.intro
      · exact hdone
  | reserve row =>
      obtain ⟨request', now, hserves, hstage, rfl⟩ := hallowed
      obtain rfl := hsame hserves
      rcases a with e | _ | _
      · exact True.intro
      · exact True.intro
      · simp only [SigningAttempt.stageAfter, hstage] at h ⊢
        exact ⟨h, hdone⟩
  | signTransaction transaction =>
      obtain ⟨request', now, hserves, hstage, rfl⟩ := hallowed
      obtain rfl := hsame hserves
      simp only [SigningAttempt.stageAfter, hstage] at h ⊢
      exact ⟨h.2, hdone⟩
  | awaitSigned transaction =>
      obtain ⟨request', now, hserves, hstage, rfl⟩ := hallowed
      obtain rfl := hsame hserves
      rcases a with e | signedTransaction
      · exact True.intro
      · simp only [SigningAttempt.stageAfter, hstage] at h ⊢
        exact ⟨h.1, h.2, hdone⟩
  | complete result key =>
      obtain ⟨request', now, signedTransaction, hserves, hstage, -, rfl⟩ := hallowed
      obtain rfl := hsame hserves
      rcases a with e | _ | _
      · exact True.intro
      · exact True.intro
      · exact hdone

/-- The log shows how a call has come to its stage. -/
theorem shown {log : SignerLog host} (hkept : (discipline process).Kept log) {c : Nat}
    {s : SigningAttempt host} (hs : (discipline process).state c log = some s)
    {request : SigningRequest host} (hbody : s.call.body = .ok request) :
    s.stage.Shown (fun op a => did c op a ∈ log) request := by
  refine Discipline.Kept.evidence
    (P := fun c (s : SigningAttempt host) log => s.call.body = .ok request →
      s.stage.Shown (fun op a => did c op a ∈ log) request) ?_ ?_ ?_ hkept hs hbody
  · intro c p e log _
    exact True.intro
  · intro c s event log ih hbody
    exact (ih hbody).mono fun op a hmem => List.mem_cons_of_mem _ hmem
  · intro c s op a log ih hallowed hbody
    exact shown_next List.mem_cons_self hallowed hbody
      ((ih hbody).mono fun op a hmem => List.mem_cons_of_mem _ hmem)

/-- What a call that signs has done before. -/
theorem signing_done {newer older : SignerLog host} {c : Nat} {transaction : UnsignedTransaction}
    (hkept : (discipline process).Kept (newer ++ did c (.signTransaction transaction) () :: older)) :
    ∃ p request now, Serving older c p request ∧ transaction = unsigned request ∧
      did c .now now ∈ older ∧ Authorized (process p).config request now ∧
      did c (.reserve (reservation request)) (.ok true) ∈ older := by
  have holder := (Discipline.Kept.older hkept).2
  obtain ⟨s, hs, request, now, hserves, hstage, htransaction⟩ := Discipline.kept_did hkept
  obtain ⟨p, hentry, hsigner⟩ := state_serves holder hs
  have hshown := shown holder hs hserves.body
  rw [hstage] at hshown
  exact ⟨p, request, now, ⟨s.call, hentry, hserves.body⟩, htransaction, hshown.1,
    hsigner ▸ hserves.authorized, hshown.2⟩

/-- What a call that publishes has done before. -/
theorem completing_done {newer older : SignerLog host} {c : Nat} {result : OfflineSignature}
    {key : String} {a : Except Thrown Bool}
    (hkept : (discipline process).Kept (newer ++ did c (.complete result key) a :: older)) :
    ∃ p request signedTransaction, Serving older c p request ∧
      key = request.intent.idempotencyKey ∧
      result = signature (process p).viem request (process p).address signedTransaction ∧
      did c (.reserve (reservation request)) (.ok true) ∈ older ∧
      did c (.signTransaction (unsigned request)) () ∈ older ∧
      did c (.awaitSigned (unsigned request)) (.ok signedTransaction) ∈ older := by
  have holder := (Discipline.Kept.older hkept).2
  obtain ⟨s, hs, request, now, signedTransaction, hserves, hstage, hresult, hkey⟩ :=
    Discipline.kept_did hkept
  obtain ⟨p, hentry, hsigner⟩ := state_serves holder hs
  rw [hsigner] at hresult
  have hshown := shown holder hs hserves.body
  rw [hstage] at hshown
  exact ⟨p, request, signedTransaction, ⟨s.call, hentry, hserves.body⟩, hkey, hresult, hshown⟩

/-- What a call that answers with a result has done before: it has published the result, or
found it under the key and the hash of its request. -/
theorem answering_done {newer older : SignerLog host} {c : Nat} {response : SignResponse}
    {result : OfflineSignature} (hresult : response.body = .ok result)
    (hkept : (discipline process).Kept (newer ++ .returned c response :: older)) :
    ∃ p request, Serving older c p request ∧
      (did c (.complete result request.intent.idempotencyKey) (.ok true) ∈ older ∨
        did c (.find request.intent.idempotencyKey)
          (.ok (some (request.requestHash, some result))) ∈ older) := by
  have holder := (Discipline.Kept.older hkept).2
  obtain ⟨s, hs, hfinal⟩ := Discipline.kept_returned hkept
  obtain ⟨request, hbody, hstage⟩ := hfinal result hresult
  obtain ⟨p, hentry, -⟩ := state_serves holder hs
  have hshown := shown holder hs hbody
  refine ⟨p, request, ⟨s.call, hentry, hbody⟩, ?_⟩
  rcases hstage with hpublished | hcached
  · rw [hpublished] at hshown
    exact .inl hshown
  · rw [hcached] at hshown
    exact .inr hshown

def Stage.spent : Stage → Prop
  | .signing _ | .signed _ _ | .published _ | .finished => True
  | .start | .timed _ | .missing _ | .reserved _ | .cached _ _ => False

theorem spent_next {s : SigningAttempt host} {op : SignerOp} {a : SignerAns op}
    (h : s.stage.spent) (hallowed : s.Allowed op) : (s.stageAfter op a).spent := by
  cases op with
  | now =>
      rw [show s.stage = .start from hallowed] at h
      cases h
  | audit => exact h
  | find | reserve | signTransaction =>
      obtain ⟨_, _, _, hstage, _⟩ := hallowed
      rw [hstage] at h
      cases h
  | awaitSigned =>
      obtain ⟨_, now, _, hstage, _⟩ := hallowed
      cases a with
      | error e => exact True.intro
      | ok signedTransaction =>
          simp only [SigningAttempt.stageAfter, hstage]
          exact True.intro
  | complete =>
      rcases a with e | _ | _
      all_goals exact True.intro

/-- A call that has signed does not sign again. -/
theorem signs_once {newer between older : SignerLog host} {c : Nat}
    {transaction transaction' : UnsignedTransaction}
    (hlog : Numbered (newer ++ did c (.signTransaction transaction) () ::
      (between ++ did c (.signTransaction transaction') () :: older)))
    (hkept : (discipline process).Kept (newer ++ did c (.signTransaction transaction) () ::
      (between ++ did c (.signTransaction transaction') () :: older))) : False := by
  have hrest := (Discipline.Kept.older hkept).2
  obtain ⟨s, hs, request, now, -, hstage, -⟩ := Discipline.kept_did hrest
  have hspent : (s.next (.signTransaction transaction') ()).stage.spent := by
    simp only [SigningAttempt.next, SigningAttempt.stageAfter, hstage]
    exact True.intro
  obtain ⟨s', hs', hspent'⟩ := Discipline.Kept.persists
    (P := fun s : SigningAttempt host => s.stage.spent)
    (fun s op a hspent hallowed => spent_next hspent hallowed)
    (Numbered.older hlog).tail hrest (Discipline.state_did_self hs) hspent
  obtain ⟨s'', hs'', request', now', -, hstage', -⟩ := Discipline.kept_did hkept
  cases hs'.symm.trans hs''
  rw [hstage'] at hspent'
  cases hspent'

end Signer
end TradingGuardrails
