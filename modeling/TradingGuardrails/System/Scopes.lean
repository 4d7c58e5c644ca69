import TradingGuardrails.System.Discipline

/-!
The idempotency scopes of the guardrail services. In every run a scope belongs to at most
one call of its process at a time: the call that holds it is the one whose promise its
entry waits for, a complete entry is never replaced, and a call that waits for a promise
finds it settled or still held by the owner of its scope.
-/
namespace TradingGuardrails

open Text Interleaving

variable {host : Host} {dep : Deployment}

theorem after_of_touches {op : Op host} (h : Deployment.touches op ≠ .decisions)
    (store : DecisionStore) : store.after op = store := by
  cases op <;> first | rfl | exact absurd rfl h

/-- Only the operations on its own store change what a process has decided. -/
theorem perform_decisions {p : Nat} {op : Op host} {i : Input} {w w' : World host}
    {a : Ans host op} (h : dep.perform p op i w = some (a, w')) (q : Nat) :
    (w'.processes q).decisions =
      if q = p then (w.processes p).decisions.after op else (w.processes q).decisions := by
  by_cases hop : Deployment.touches op = .decisions
  · have hset : ∀ store : DecisionStore, ((w.setDecisions p store).processes q).decisions =
        if q = p then store else (w.processes q).decisions := by
      intro store
      by_cases hq : q = p
      · subst hq
        rw [if_pos rfl, World.setDecisions, World.update_self]
      · rw [if_neg hq, World.setDecisions, World.update_of_ne w hq]
    cases op with
    | reserve | set | abortDecision =>
        cases h
        exact hset _
    | _ => cases hop
  · rw [(dep.perform_frame h).decisions hop, after_of_touches hop]
    split_ifs with hq
    · rw [hq]
    · rfl

theorem act_decisions {x : Outside} {w w' : World host} (h : x.act w = some w') (q : Nat) :
    (w'.processes q).decisions = (w.processes q).decisions := by
  cases x with
  | createApproval params id now timeout =>
      simp only [Outside.act] at h
      split_ifs at h
      cases h
      rfl
  | activate p scope =>
      cases h
      by_cases hq : q = p
      · subst hq
        rw [World.update_self]
      · rw [World.update_of_ne w hq]
  | deactivate p scope =>
      cases h
      by_cases hq : q = p
      · subst hq
        rw [World.update_self]
      · rw [World.update_of_ne w hq]
  | _ =>
      cases h
      rfl

namespace Appraisal

variable {s : Appraisal} {e : Evaluation host}

/-- A call owns its scope from its reservation on, unless it gives it up. -/
def Owns (s : Appraisal) : Prop :=
  s.stage = .holding ∨ ∃ decision, s.stage = .concluded decision

structure Placed (s : Appraisal) (e : Evaluation host) (store : DecisionStore) : Prop where
  holding : s.stage = .holding →
    ∃ promise, store.entries e.scope = some (.pending e.payloadHash promise)
  awaiting : ∀ promise, s.stage = .awaiting promise →
    store.entries e.scope = some (.pending e.payloadHash promise) ∨
    (∃ decision, store.settled promise = some (.ok decision) ∧
      store.entries e.scope = some (.complete e.payloadHash decision)) ∨
    ∃ error, store.settled promise = some (.error error)
  complete : ∀ decision, s.stage = .replaying decision ∨ s.stage = .concluded decision →
    store.entries e.scope = some (.complete e.payloadHash decision)

/-- The call finds nothing under its scope while it stands between two of its operations. -/
def Between (s : Appraisal) : Prop :=
  s.stage = .missed ∨ s.stage = .abandoned

theorem Placed.frame {store store' : DecisionStore} (h : s.Placed e store)
    (hentry : store'.entries e.scope = store.entries e.scope) (hsettles : store.Settles store') :
    s.Placed e store' := by
  refine ⟨fun hs => ?_, fun promise hs => ?_, fun decision hs => ?_⟩
  · rw [hentry]
    exact h.holding hs
  · rw [hentry]
    rcases h.awaiting promise hs with hpending | ⟨decision, hsettled, hcomplete⟩ | ⟨error, hsettled⟩
    · exact .inl hpending
    · exact .inr (.inl ⟨decision, hsettles _ _ hsettled, hcomplete⟩)
    · exact .inr (.inr ⟨error, hsettles _ _ hsettled⟩)
  · rw [hentry]
    exact h.complete decision hs

/-- A call that has not asked for its scope stands nowhere. -/
theorem placed_before (hs : s.stage = .before) (store : DecisionStore) : s.Placed e store := by
  refine ⟨fun h => ?_, fun _ h => ?_, fun _ h => ?_⟩
  · rw [hs] at h
    cases h
  · rw [hs] at h
    cases h
  · rw [hs] at h
    rcases h with h | h <;> cases h

def stages : Op host → Bool
  | .lookup _ _ | .reserve _ _ | .set _ _ _ | .abortDecision _ _ _ | .pendingDecision _ => true
  | _ => false

theorem stageAfter_of_not_stages {op : Op host} (h : stages op = false) (a : Ans host op) :
    s.stageAfter op a = s.stage := by
  cases op <;> first | rfl | cases h

def lasts : AppraisalStage → Bool
  | .conflicted | .replaying _ | .rejected | .concluded _ => true
  | .before | .missed | .awaiting _ | .holding | .abandoned => false

theorem stageAfter_of_lasts {op : Op host} (hs : lasts s.stage = true) (hallowed : s.allowed op)
    (a : Ans host op) : s.stageAfter op a = s.stage := by
  cases op with
  | lookup scope payloadHash =>
      rw [hallowed.1] at hs
      cases hs
  | reserve scope payloadHash =>
      rw [hallowed.1] at hs
      cases hs
  | set scope payloadHash decision =>
      rw [hallowed.1] at hs
      cases hs
  | pendingDecision promise =>
      rw [show s.stage = .awaiting promise from hallowed] at hs
      cases hs
  | abortDecision scope payloadHash error =>
      rcases hallowed.1 with h | h <;> rw [h] at hs <;> cases hs
  | _ => rfl

/-- A call that leaves the beginning looks its scope up. -/
theorem leaves_before {op : Op host} {a : Ans host op} (hs : s.stage = .before)
    (hallowed : s.allowed op) (hnext : s.stageAfter op a ≠ .before) :
    ∃ e : Evaluation host, s.evaluation host = some e ∧ (s.next op a).evaluation host = some e ∧
      op = .lookup e.scope e.payloadHash ∧ s.options.dryRun = false := by
  cases op with
  | lookup scope payloadHash =>
      obtain ⟨-, hdry, e, heval, rfl, rfl, -⟩ := hallowed
      exact ⟨e, heval, evaluation_next heval _ (by simp) a, rfl, hdry⟩
  | reserve scope payloadHash => exact absurd (hs.symm.trans hallowed.1) (by simp)
  | set scope payloadHash decision => exact absurd (hs.symm.trans hallowed.1) (by simp)
  | pendingDecision promise => exact absurd (hs.symm.trans hallowed) (by simp)
  | abortDecision scope payloadHash error =>
      rcases hallowed.1 with h | h <;> exact absurd (hs.symm.trans h) (by simp)
  | _ => exact absurd hs hnext

/-- The evaluation of a call that has asked for its scope is known, and the call is not a
dry run. -/
def Serves (host : Host) (s : Appraisal) : Prop :=
  s.stage ≠ .before → s.options.dryRun = false ∧ ∃ e : Evaluation host, s.evaluation host = some e

theorem Serves.next {op : Op host} (h : s.Serves host) (hallowed : s.allowed op)
    (a : Ans host op) : (s.next op a).Serves host := by
  intro hnext
  by_cases hs : s.stage = .before
  · obtain ⟨e, -, heval, -, hdry⟩ := leaves_before hs hallowed hnext
    exact ⟨hdry, e, heval⟩
  · obtain ⟨hdry, e, heval⟩ := h hs
    have hop : op ≠ .correlationId := by
      rintro rfl
      exact hs hallowed
    exact ⟨hdry, e, evaluation_next heval op hop a⟩

/-- A call that has asked for its scope keeps its evaluation. -/
theorem Serves.same {op : Op host} (h : s.Serves host) (hs : s.stage ≠ .before)
    (hallowed : s.allowed op) {a : Ans host op} (heval : (s.next op a).evaluation host = some e) :
    s.evaluation host = some e := by
  obtain ⟨-, e', heval'⟩ := h hs
  have hop : op ≠ .correlationId := by
    rintro rfl
    exact hs hallowed
  rw [evaluation_next heval' op hop a] at heval
  rw [heval', heval]

/-- What is known of every call of `evaluate`: where it was started, and its evaluation. -/
structure Known (dep : Deployment) (host : Host) (p : Nat) (entry : Entry host) (s : Appraisal) :
    Prop where
  service : s.service = dep.service p
  entry : entry = .evaluate s.rawIntent s.options
  serves : s.Serves host

theorem known_reachable {cfg : Config (signature host)}
    (h : (dep.system host).Reachable cfg) {c p : Nat} {s : Appraisal}
    (hs : (dep.discipline host).state c cfg.log = some ⟨p, .appraising s⟩) :
    ∃ entry, entryOf c cfg.log = some (p, entry) ∧ Known dep host p entry s := by
  have hsound := Discipline.sound_reachable (dep.followed host) h
  let P : Nat → Entry host → CallState host → Prop := fun q entry st =>
    st.proc = q ∧ ∀ s, st.progress = .appraising s → Known dep host q entry s
  have hP : ∃ q entry, entryOf c cfg.log = some (q, entry) ∧ P q entry ⟨p, .appraising s⟩ := by
    refine hsound.kept.state_invariant ?_ ?_ hs
    · intro q entry
      refine ⟨rfl, fun s hstart => ?_⟩
      cases entry with
      | evaluate rawIntent options =>
          cases hstart
          exact ⟨rfl, rfl, fun hs => absurd rfl hs⟩
      | execute | dryRun | callback => cases hstart
    · intro q entry st op a hP hallowed
      refine ⟨hP.1, fun s hnext => ?_⟩
      obtain ⟨proc, progress⟩ := st
      cases progress with
      | appraising s' =>
          cases hnext
          have hknown := hP.2 s' rfl
          exact ⟨hknown.service, hknown.entry, hknown.serves.next hallowed a⟩
      | executing | rehearsing | checking => cases hnext
  obtain ⟨q, entry, hentry, rfl, hknown⟩ := hP
  exact ⟨entry, hentry, hknown s rfl⟩

def Answered (store : DecisionStore) : (op : Op host) → Ans host op → Prop
  | .lookup scope payloadHash, found => found = store.get scope payloadHash
  | .pendingDecision promise, r => store.settled promise = some r
  | _, _ => True

theorem perform_answered {p : Nat} {op : Op host} {i : Input} {w w' : World host}
    {a : Ans host op} (h : dep.perform p op i w = some (a, w')) :
    Answered (w.processes p).decisions op a := by
  cases op with
  | lookup scope payloadHash =>
      cases h
      rfl
  | pendingDecision promise =>
      obtain ⟨r, hr, heq⟩ := Option.map_eq_some_iff.mp h
      cases heq
      exact hr
  | _ => exact True.intro

theorem Placed.of_stage {s' : Appraisal} {store : DecisionStore} (h : s.Placed e store)
    (hstage : s'.stage = s.stage) : s'.Placed e store := by
  refine ⟨fun hs => h.holding (hstage ▸ hs), fun promise hs => h.awaiting promise (hstage ▸ hs),
    fun decision hs => h.complete decision (hstage ▸ hs)⟩

theorem touches_of_not_stages {op : Op host} (h : stages op = false) :
    Deployment.touches op ≠ .decisions := by
  intro htouches
  cases op with
  | reserve | set | abortDecision => cases h
  | _ => cases htouches

structure Ready (host : Host) (s : Appraisal) (store : DecisionStore) : Prop where
  wellFormed : store.WellFormed
  serves : s.Serves host
  placed : ∀ e : Evaluation host, s.evaluation host = some e → s.Placed e store
  free : ∀ e : Evaluation host, s.evaluation host = some e → s.Between →
    store.entries e.scope = none

/-- A call that acts knows what it finds under its scope afterwards. -/
theorem Ready.next {store : DecisionStore} (h : s.Ready host store) {op : Op host}
    (hallowed : s.allowed op) {a : Ans host op} (ha : Answered store op a)
    (heval : (s.next op a).evaluation host = some e) :
    (s.next op a).Placed e (store.after op) := by
  by_cases hstages : stages op = false
  · have hstage : (s.next op a).stage = s.stage := stageAfter_of_not_stages hstages a
    rw [after_of_touches (touches_of_not_stages hstages)]
    by_cases hs : s.stage = .before
    · exact placed_before (hstage.trans hs) store
    · exact (h.placed e (h.serves.same hs hallowed heval)).of_stage hstage
  have hsame : ∀ {e' : Evaluation host}, s.evaluation host = some e' → op ≠ .correlationId →
      e' = e := by
    intro e' heval' hop
    rw [evaluation_next heval' op hop a] at heval
    exact Option.some.inj heval
  cases op with
  | lookup scope payloadHash =>
      obtain ⟨-, -, e', heval', rfl, rfl, -⟩ := hallowed
      obtain rfl := hsame heval' (by simp)
      have ha : a = store.get e'.scope e'.payloadHash := ha
      change (s.next (.lookup e'.scope e'.payloadHash : Op host) a).Placed e' store
      constructor
      · intro hs
        cases a <;> cases hs
      · intro promise hs
        cases a with
        | pending =>
            cases hs
            exact .inl (store.get_pending.mp ha.symm)
        | absent | conflict | complete => cases hs
      · intro decision hs
        cases a with
        | complete found =>
            rcases hs with hs | hs
            · cases hs
              exact store.get_complete.mp ha.symm
            · cases hs
        | absent | conflict | pending => rcases hs with hs | hs <;> cases hs
  | reserve scope payloadHash =>
      obtain ⟨hs, -, e', heval', rfl, rfl⟩ := hallowed
      obtain rfl := hsame heval' (by simp)
      have hfree := h.free e' heval' (.inl hs)
      refine ⟨fun _ => ⟨store.next, ?_⟩, fun _ hs => (by cases hs), fun _ hs => ?_⟩
      · change (store.reserve e'.scope e'.payloadHash).entries e'.scope = _
        rw [DecisionStore.reserve_absent hfree]
        exact store.put_self _
      · rcases hs with hs | hs <;> cases hs
  | set scope payloadHash decision =>
      obtain ⟨hs, e', heval', rfl, rfl, -⟩ := hallowed
      obtain rfl := hsame heval' (by simp)
      refine ⟨fun hs => (by cases hs), fun _ hs => (by cases hs), fun other hs => ?_⟩
      rcases hs with hs | hs
      · cases hs
      · cases hs
        exact store.set_entry decision
  | abortDecision scope payloadHash error =>
      refine ⟨fun hs => (by cases hs), fun _ hs => (by cases hs), fun _ hs => ?_⟩
      rcases hs with hs | hs <;> cases hs
  | pendingDecision promise =>
      have hs : s.stage = .awaiting promise := hallowed
      have heval' := h.serves.same (by simp [hs]) hallowed heval
      have ha : store.settled promise = some a := ha
      change (s.next (.pendingDecision promise : Op host) a).Placed e store
      constructor
      · intro hs
        cases a <;> cases hs
      · intro other hs
        cases a <;> cases hs
      · intro decision hs
        cases a with
        | error error => rcases hs with hs | hs <;> cases hs
        | ok found =>
            have hfound : found = decision := by
              rcases hs with hs | hs <;> cases hs
              rfl
            subst hfound
            rcases (h.placed e heval').awaiting promise hallowed with
              hpending | ⟨decision, hsettled, hcomplete⟩ | ⟨error, hsettled⟩
            · exact absurd ((h.wellFormed.unsettled _ _ _ hpending).symm.trans ha) (by simp)
            · cases hsettled.symm.trans ha
              exact hcomplete
            · cases hsettled.symm.trans ha
  | _ => exact absurd rfl hstages

/-- A call that acts does not move another call. -/
theorem Ready.others {store : DecisionStore} (h : s.Ready host store) {op : Op host}
    (hallowed : s.allowed op) {s' : Appraisal} {e' : Evaluation host}
    (hother : s'.Placed e' store)
    (halone : ∀ e : Evaluation host, s.evaluation host = some e → e.scope = e'.scope → s.Owns →
      ¬s'.Owns) : s'.Placed e' (store.after op) := by
  have hsettles := store.settles_after op
  -- The entry of the other call's own scope is the only one that matters to it.
  have hframe : ∀ e : Evaluation host, (e'.scope ≠ e.scope →
      (store.after op).entries e'.scope = store.entries e'.scope) →
      (e.scope = e'.scope → s'.Placed e' (store.after op)) → s'.Placed e' (store.after op) := by
    intro e hne heq
    by_cases hscope : e.scope = e'.scope
    · exact heq hscope
    · exact hother.frame (hne (Ne.symm hscope)) hsettles
  cases op with
  | reserve scope payloadHash =>
      obtain ⟨hs, -, e, heval, rfl, rfl⟩ := hallowed
      refine hframe e (fun hne => DecisionStore.reserve_of_ne hne) fun hscope => ?_
      have hfree := h.free e heval (.inl hs)
      rw [hscope] at hfree
      refine ⟨fun hs' => ?_, fun promise hs' => ?_, fun decision hs' => ?_⟩
      · obtain ⟨promise, hpending⟩ := hother.holding hs'
        exact absurd (hfree.symm.trans hpending) (by simp)
      · rcases hother.awaiting promise hs' with hpending | ⟨_, -, hcomplete⟩ | ⟨error, hsettled⟩
        · exact absurd (hfree.symm.trans hpending) (by simp)
        · exact absurd (hfree.symm.trans hcomplete) (by simp)
        · exact .inr (.inr ⟨error, hsettles _ _ hsettled⟩)
      · exact absurd (hfree.symm.trans (hother.complete decision hs')) (by simp)
  | set scope payloadHash decision =>
      obtain ⟨hs, e, heval, rfl, rfl, -⟩ := hallowed
      refine hframe e (fun hne => DecisionStore.set_of_ne hne decision) fun hscope => ?_
      obtain ⟨promise, hpending⟩ := (h.placed e heval).holding hs
      rw [hscope] at hpending
      refine ⟨fun hs' => ?_, fun other hs' => ?_, fun other hs' => ?_⟩
      · exact absurd (.inl hs') (halone e heval hscope (.inl hs))
      · rcases hother.awaiting other hs' with hpending' | ⟨_, -, hcomplete⟩ | ⟨error, hsettled⟩
        · obtain ⟨hhash, rfl⟩ : e.payloadHash = e'.payloadHash ∧ promise = other := by
            simpa using hpending.symm.trans hpending'
          refine .inr (.inl ⟨decision, ?_, ?_⟩)
          · change (store.set e.scope e.payloadHash decision).settled promise = _
            rw [hscope, DecisionStore.set_pending hpending, DecisionStore.settled_settle]
            · exact Function.update_self ..
            · exact h.wellFormed.unsettled _ _ _ hpending
          · change (store.set e.scope e.payloadHash decision).entries e'.scope = _
            rw [hscope, hhash]
            exact store.set_entry decision
        · exact absurd (hpending.symm.trans hcomplete) (by simp)
        · exact .inr (.inr ⟨error, hsettles _ _ hsettled⟩)
      · exact absurd (hpending.symm.trans (hother.complete other hs')) (by simp)
  | abortDecision scope payloadHash error =>
      obtain ⟨hs, e, heval, rfl, rfl⟩ := hallowed
      refine hframe e (fun hne => DecisionStore.abort_of_ne hne error) fun hscope => ?_
      rcases hs with hs | hs
      · obtain ⟨promise, hpending⟩ := (h.placed e heval).holding hs
        rw [hscope] at hpending
        refine ⟨fun hs' => ?_, fun other hs' => ?_, fun other hs' => ?_⟩
        · exact absurd (.inl hs') (halone e heval hscope (.inl hs))
        · rcases hother.awaiting other hs' with hpending' | ⟨_, -, hcomplete⟩ | ⟨error', hsettled⟩
          · obtain ⟨-, rfl⟩ : e.payloadHash = e'.payloadHash ∧ promise = other := by
              simpa using hpending.symm.trans hpending'
            refine .inr (.inr ⟨error, ?_⟩)
            change (store.abort e.scope e.payloadHash error).settled promise = _
            rw [hscope, DecisionStore.abort_pending hpending, DecisionStore.settled_settle]
            · exact Function.update_self ..
            · exact h.wellFormed.unsettled _ _ _ hpending
          · exact absurd (hpending.symm.trans hcomplete) (by simp)
          · exact .inr (.inr ⟨error', hsettles _ _ hsettled⟩)
        · exact absurd (hpending.symm.trans (hother.complete other hs')) (by simp)
      · refine hother.frame ?_ hsettles
        change (store.abort e.scope e.payloadHash error).entries e'.scope = _
        rw [DecisionStore.abort_absent (h.free e heval (.inr hs))]
  | _ => exact hother

/-- A call changes the entry of its own scope only: it fills an empty one, or closes the one
that waits for it. -/
theorem Ready.changes {store : DecisionStore} (h : s.Ready host store) {op : Op host}
    (hallowed : s.allowed op) {key : String}
    (hkey : (store.after op).entries key ≠ store.entries key) :
    ∃ e : Evaluation host, s.evaluation host = some e ∧ e.scope = key ∧
      (op = .reserve key e.payloadHash ∧ store.entries key = none ∨
        s.stage = .holding ∧ ∃ promise,
          store.entries key = some (.pending e.payloadHash promise)) := by
  cases op with
  | reserve scope payloadHash =>
      obtain ⟨hs, -, e, heval, rfl, rfl⟩ := hallowed
      by_cases hscope : key = e.scope
      · subst hscope
        exact ⟨e, heval, rfl, .inl ⟨rfl, h.free e heval (.inl hs)⟩⟩
      · exact absurd (DecisionStore.reserve_of_ne hscope) hkey
  | set scope payloadHash decision =>
      obtain ⟨hs, e, heval, rfl, rfl, -⟩ := hallowed
      by_cases hscope : key = e.scope
      · subst hscope
        exact ⟨e, heval, rfl, .inr ⟨hs, (h.placed e heval).holding hs⟩⟩
      · exact absurd (DecisionStore.set_of_ne hscope decision) hkey
  | abortDecision scope payloadHash error =>
      obtain ⟨hs, e, heval, rfl, rfl⟩ := hallowed
      by_cases hscope : key = e.scope
      · subst hscope
        rcases hs with hs | hs
        · exact ⟨e, heval, rfl, .inr ⟨hs, (h.placed e heval).holding hs⟩⟩
        · refine absurd ?_ hkey
          change (store.abort e.scope e.payloadHash error).entries e.scope = _
          rw [DecisionStore.abort_absent (h.free e heval (.inr hs))]
      · exact absurd (DecisionStore.abort_of_ne hscope error) hkey
  | _ => exact absurd rfl hkey

/-- A call that stands between two of its operations does not wait. -/
theorem between_waits (hs : s.Between) {op : Op host} (hallowed : s.allowed op) :
    waits host op = false := by
  have hnot : s.stage ≠ .holding ∧ s.stage ≠ .before ∧ ∀ promise, s.stage ≠ .awaiting promise := by
    rcases hs with hs | hs <;> simp [hs]
  have hworking : ¬s.Working := by
    rintro (h | ⟨h, -⟩)
    · exact hnot.1 h
    · exact hnot.2.1 h
  cases op with
  | pendingDecision promise => exact absurd hallowed (hnot.2.2 promise)
  | isHealthy | review | evaluateRisk | evaluatePolicy | getMarketData | getPortfolio
  | getLastOrderTimestampMs => exact absurd hallowed hworking
  | getDailyStats => exact absurd hallowed.1 hworking
  | pendingResult | revalidate | connectorResult | settle => exact False.elim hallowed
  | _ => rfl

/-- A call becomes the owner of its scope by a reservation. -/
theorem owns_next {op : Op host} (hallowed : s.allowed op) {a : Ans host op}
    (h : (s.next op a).Owns) : s.Owns ∨ s.stage = .missed := by
  by_cases hstages : stages op = false
  · rw [Owns, next_stage, stageAfter_of_not_stages hstages a] at h
    exact .inl h
  cases op with
  | reserve scope payloadHash => exact .inr hallowed.1
  | set scope payloadHash decision => exact .inl (.inl hallowed.1)
  | lookup scope payloadHash => cases a <;> rcases h with h | ⟨decision, h⟩ <;> cases h
  | abortDecision scope payloadHash error => rcases h with h | ⟨decision, h⟩ <;> cases h
  | pendingDecision promise => cases a <;> rcases h with h | ⟨decision, h⟩ <;> cases h
  | _ => exact absurd rfl hstages

theorem Ready.free_next {store : DecisionStore} (h : s.Ready host store) {op : Op host}
    (hallowed : s.allowed op) {a : Ans host op} (ha : Answered store op a)
    (heval : (s.next op a).evaluation host = some e) (hbetween : (s.next op a).Between) :
    (store.after op).entries e.scope = none := by
  by_cases hstages : stages op = false
  · rw [after_of_touches (touches_of_not_stages hstages)]
    rw [Between, next_stage, stageAfter_of_not_stages hstages a] at hbetween
    have hs : s.stage ≠ .before := by rcases hbetween with hs | hs <;> simp [hs]
    exact h.free e (h.serves.same hs hallowed heval) hbetween
  cases op with
  | lookup scope payloadHash =>
      obtain ⟨-, -, e', heval', rfl, rfl, -⟩ := hallowed
      rw [evaluation_next heval' _ (by simp) a, Option.some.injEq] at heval
      subst heval
      cases a with
      | absent => exact store.get_absent.mp (Eq.symm ha)
      | conflict | complete | pending => rcases hbetween with hs | hs <;> cases hs
  | reserve scope payloadHash => rcases hbetween with hs | hs <;> cases hs
  | set scope payloadHash decision => rcases hbetween with hs | hs <;> cases hs
  | pendingDecision promise => cases a <;> rcases hbetween with hs | hs <;> cases hs
  | abortDecision scope payloadHash error =>
      obtain ⟨hs, e', heval', rfl, rfl⟩ := hallowed
      rw [evaluation_next heval' _ (by simp) a, Option.some.injEq] at heval
      subst heval
      change (store.abort e'.scope e'.payloadHash error).entries e'.scope = none
      rcases hs with hs | hs
      · obtain ⟨promise, hpending⟩ := (h.placed e' heval').holding hs
        rw [DecisionStore.abort_pending hpending, DecisionStore.entries_settle]
        exact store.put_self none
      · have hfree := h.free e' heval' (.inr hs)
        rw [DecisionStore.abort_absent hfree]
        exact hfree
  | _ => exact absurd rfl hstages

/-- A call that has asked for its scope does not start again. -/
theorem next_ne_before {op : Op host} {a : Ans host op} (hs : s.stage ≠ .before) :
    (s.next op a).stage ≠ .before := by
  by_cases hstages : stages op = false
  · rw [next_stage, stageAfter_of_not_stages hstages]
    exact hs
  · cases op with
    | lookup | pendingDecision => cases a <;> exact fun h => by cases h
    | reserve | set | abortDecision => exact fun h => by cases h
    | _ => exact absurd rfl hstages

end Appraisal

abbrev Appraising (dep : Deployment) (cfg : Config (signature host)) (c p : Nat) (s : Appraisal) :
    Prop :=
  (dep.discipline host).state c cfg.log = some ⟨p, .appraising s⟩

/-- Only the calls of `evaluate` change what was decided. -/
theorem appraises_or_quiet {st : CallState host} {op : Op host}
    (allowed : (dep.discipline host).allowed st op) :
    (∃ s, st = ⟨st.proc, .appraising s⟩) ∨ ∀ store : DecisionStore, store.after op = store := by
  obtain ⟨proc, progress⟩ := st
  cases progress with
  | appraising s => exact .inl ⟨s, rfl⟩
  | executing | rehearsing | checking =>
      refine .inr fun store => after_of_touches (fun htouches => ?_) store
      cases op with
      | reserve | set | abortDecision => exact allowed
      | _ => cases htouches

/-- A call of `evaluate` that acts was a call of `evaluate`. -/
theorem appraising_act {log : History host} {c p : Nat} {op : Op host} {a : Ans host op}
    {st : CallState host} {s : Appraisal} (state : (dep.discipline host).state c log = some st)
    (hs : (dep.discipline host).state c (.did c op a :: log) = some ⟨p, .appraising s⟩) :
    ∃ s', st = ⟨p, .appraising s'⟩ ∧ s = s'.next op a := by
  rw [Discipline.state_did_self state, Option.some.injEq, CallState.mk.injEq] at hs
  obtain ⟨proc, progress⟩ := st
  obtain ⟨rfl, hprogress⟩ := hs
  cases progress with
  | appraising s' =>
      cases hprogress
      exact ⟨s', rfl, rfl⟩
  | executing | rehearsing | checking => cases hprogress

/-- After an operation a call of `evaluate` is the one that has acted, or it stands where it
stood. -/
theorem appraising_cases {log : History host} {c c' p : Nat} {op : Op host} {a : Ans host op}
    {st : CallState host} {s : Appraisal} (state : (dep.discipline host).state c log = some st)
    (hs : (dep.discipline host).state c' (.did c op a :: log) = some ⟨p, .appraising s⟩) :
    (c' = c ∧ ∃ s', st = ⟨p, .appraising s'⟩ ∧ s = s'.next op a) ∨
      (c' ≠ c ∧ (dep.discipline host).state c' log = some ⟨p, .appraising s⟩) := by
  by_cases hc : c' = c
  · subst hc
    exact .inl ⟨rfl, appraising_act state hs⟩
  · rw [Discipline.state_did (Ne.symm hc)] at hs
    exact .inr ⟨hc, hs⟩

structure Scopes (dep : Deployment) (cfg : Config (signature host)) : Prop where
  wellFormed : ∀ p, (cfg.world.processes p).decisions.WellFormed
  placed : ∀ c p s (e : Evaluation host), Appraising dep cfg c p s →
    s.evaluation host = some e → s.Placed e (cfg.world.processes p).decisions
  alone : ∀ c c' p s s' (e e' : Evaluation host), Appraising dep cfg c p s →
    Appraising dep cfg c' p s' → s.evaluation host = some e → s'.evaluation host = some e' →
    e.scope = e'.scope → s.Owns → s'.Owns → c = c'
  free : ∀ c call p s (e : Evaluation host), cfg.calls c = some call → Appraising dep cfg c p s →
    s.evaluation host = some e → s.Between →
    cfg.current p = some c ∧ (cfg.world.processes p).decisions.entries e.scope = none

namespace Scopes

variable {cfg : Config (signature host)}

theorem proc_reachable (h : (dep.system host).Reachable cfg) {c : Nat}
    {call : Call (signature host)} (hcall : cfg.calls c = some call) {st : CallState host}
    (hs : (dep.discipline host).state c cfg.log = some st) : st.proc = call.proc := by
  have hkept := (Discipline.sound_reachable (dep.followed host) h).kept
  obtain ⟨entry, hentry⟩ := Deployment.proc_of_state hkept hs
  have haccounted := Discipline.accounted_reachable (dep.followed host) h
  exact congrArg Prod.fst (Option.some.inj (hentry.symm.trans (haccounted.entry c call hcall)))

theorem ready (h : Scopes dep cfg) (hreach : (dep.system host).Reachable cfg) {c p : Nat}
    {call : Call (signature host)} (hcall : cfg.calls c = some call) {s : Appraisal}
    (hs : Appraising dep cfg c p s) : s.Ready host (cfg.world.processes p).decisions where
  wellFormed := h.wellFormed p
  serves := by
    obtain ⟨entry, -, hknown⟩ := Appraisal.known_reachable hreach hs
    exact hknown.serves
  placed e heval := h.placed c p s e hs heval
  free e heval hbetween := (h.free c call p s e hcall hs heval hbetween).2

theorem boot : Scopes dep (Machine.boot (World.empty host) : Config (signature host)) where
  wellFormed _ := .empty
  placed _ _ _ _ hs := by cases hs
  alone _ _ _ _ _ _ _ hs := by cases hs
  free _ _ _ _ _ hcall := by cases hcall

/-- No call of a process that rests stands between two of its operations. -/
theorem not_between_of_rests (h : Scopes dep cfg) {p : Nat}
    (rests : (dep.discipline host).Rests (dep.system host) cfg p) {c : Nat}
    {call : Call (signature host)} (hcall : cfg.calls c = some call) {s : Appraisal}
    {e : Evaluation host} (hs : Appraising dep cfg c p s) (heval : s.evaluation host = some e) :
    ¬s.Between := by
  intro hbetween
  obtain ⟨hcurrent, -⟩ := h.free c call p s e hcall hs heval hbetween
  obtain ⟨call', st, op, next, -, -, hwaits, hst, hallowed⟩ := rests c hcurrent
  cases hs.symm.trans hst
  exact absurd (hwaits.symm.trans (Appraisal.between_waits hbetween hallowed)) (by simp)

theorem start (h : Scopes dep cfg) {p : Nat} {entry : Entry host}
    (rests : (dep.discipline host).Rests (dep.system host) cfg p) :
    Scopes dep { cfg with
      calls := Function.update cfg.calls cfg.next
        (some ⟨p, entry, (dep.system host).program p entry⟩)
      current := Function.update cfg.current p (some cfg.next)
      next := cfg.next + 1
      log := .started cfg.next p entry :: cfg.log } := by
  -- A call that starts has not asked for its scope, the others stand where they stood.
  have hstate : ∀ {c q s}, (dep.discipline host).state c (.started cfg.next p entry :: cfg.log) =
      some ⟨q, .appraising s⟩ → s.stage = .before ∨ c ≠ cfg.next ∧ Appraising dep cfg c q s := by
    intro c q s hs
    by_cases hc : cfg.next = c
    · simp only [Discipline.state, if_pos hc, Option.some.injEq, CallState.mk.injEq] at hs
      cases entry with
      | evaluate rawIntent options =>
          cases hs.2
          exact .inl rfl
      | execute | dryRun | callback => cases hs.2
    · rw [Discipline.state_started hc] at hs
      exact .inr ⟨Ne.symm hc, hs⟩
  have hnot : ∀ {s : Appraisal}, s.stage = .before → ¬s.Owns ∧ ¬s.Between := by
    intro s hs
    refine ⟨?_, ?_⟩
    · rintro (h | ⟨decision, h⟩) <;> exact absurd (hs.symm.trans h) (by simp)
    · rintro (h | h) <;> exact absurd (hs.symm.trans h) (by simp)
  constructor
  · exact h.wellFormed
  · intro c q s e hs heval
    rcases hstate hs with hs | ⟨-, hs⟩
    · exact Appraisal.placed_before hs _
    · exact h.placed c q s e hs heval
  · intro c c' q s s' e e' hs hs' heval heval' hscope howns howns'
    rcases hstate hs with hs | ⟨-, hs⟩
    · exact absurd howns (hnot hs).1
    rcases hstate hs' with hs' | ⟨-, hs'⟩
    · exact absurd howns' (hnot hs').1
    exact h.alone c c' q s s' e e' hs hs' heval heval' hscope howns howns'
  · intro c call q s e hcall hs heval hbetween
    rcases hstate hs with hs | ⟨hc, hs⟩
    · exact absurd hbetween (hnot hs).2
    dsimp only at hcall ⊢
    rw [Function.update_of_ne hc] at hcall
    have hq : q ≠ p := fun hq =>
      h.not_between_of_rests rests hcall (hq ▸ hs) heval hbetween
    rw [Function.update_of_ne hq]
    exact h.free c call q s e hcall hs heval hbetween

section

variable {c : Nat} {call : Call (signature host)} {op : Op host} {i : Input} {a : Ans host op}
  {w : World host} {c' q : Nat} {s : Appraisal} {e : Evaluation host}

/-- The other calls find under their scopes what they found. -/
theorem placed_other (h : Scopes dep cfg) (hreach : (dep.system host).Reachable cfg)
    (live : cfg.calls c = some call) {progress : Progress host}
    (state : (dep.discipline host).state c cfg.log = some ⟨call.proc, progress⟩)
    (allowed : (dep.discipline host).allowed ⟨call.proc, progress⟩ op)
    (performed : dep.perform call.proc op i cfg.world = some (a, w)) (hc : c' ≠ c)
    (hs : Appraising dep cfg c' q s) (heval : s.evaluation host = some e) :
    s.Placed e (w.processes q).decisions := by
  have hplaced := h.placed c' q s e hs heval
  rw [perform_decisions performed]
  split_ifs with hq
  · subst hq
    rcases appraises_or_quiet allowed with ⟨s', hst⟩ | hquiet
    · cases hst
      refine (h.ready hreach live state).others allowed hplaced ?_
      intro e' heval' hscope howns howns'
      exact hc (h.alone c c' _ s' s e' e state hs heval' heval hscope howns howns').symm
    · rw [hquiet]
      exact hplaced
  · exact hplaced

/-- When a call becomes the owner of a scope, the scope had no entry. -/
theorem not_owned (h : Scopes dep cfg) (hreach : (dep.system host).Reachable cfg)
    (live : cfg.calls c = some call) {s₀ : Appraisal} {e₀ : Evaluation host}
    (state : Appraising dep cfg c call.proc s₀) (allowed : s₀.allowed op)
    (howns : (s₀.next op a).Owns) (heval : (s₀.next op a).evaluation host = some e₀) (hc : c' ≠ c)
    (hs' : Appraising dep cfg c' call.proc s) (heval' : s.evaluation host = some e)
    (hscope : e₀.scope = e.scope) : ¬s.Owns := by
  intro howns'
  have hready := h.ready hreach live state
  rcases Appraisal.owns_next allowed howns with howns | hmissed
  · have hnotbefore : s₀.stage ≠ .before := by
      rcases howns with hs₀ | ⟨decision, hs₀⟩ <;> simp [hs₀]
    have heval := hready.serves.same hnotbefore allowed heval
    exact hc (h.alone c c' _ s₀ s e₀ e state hs' heval heval' hscope howns howns').symm
  · have heval := hready.serves.same (by simp [hmissed]) allowed heval
    have hfree := hready.free e₀ heval (.inl hmissed)
    rw [hscope] at hfree
    have hplaced := h.placed c' _ s e hs' heval'
    rcases howns' with hs₀ | ⟨decision, hs₀⟩
    · obtain ⟨promise, hpending⟩ := hplaced.holding hs₀
      exact absurd (hfree.symm.trans hpending) (by simp)
    · exact absurd (hfree.symm.trans (hplaced.complete decision (.inr hs₀))) (by simp)

/-- A call that stands between two of its operations keeps its process. -/
theorem between_elsewhere (h : Scopes dep cfg)
    (turn : cfg.current call.proc = some c ∨
      (dep.discipline host).Rests (dep.system host) cfg call.proc ∧ waits host op = true)
    (hc : c' ≠ c) {call' : Call (signature host)} (hcall' : cfg.calls c' = some call')
    (hs : Appraising dep cfg c' q s) (heval : s.evaluation host = some e) (hbetween : s.Between) :
    q ≠ call.proc := by
  rintro rfl
  rcases turn with hcurrent | ⟨hrests, -⟩
  · rw [(h.free c' call' _ s e hcall' hs heval hbetween).1, Option.some.injEq] at hcurrent
    exact hc hcurrent
  · exact h.not_between_of_rests hrests hcall' hs heval hbetween

theorem act (h : Scopes dep cfg) (hreach : (dep.system host).Reachable cfg) {st : CallState host}
    {next : Ans host op → Program (Op host) (Ans host) Ret} (live : cfg.calls c = some call)
    (state : (dep.discipline host).state c cfg.log = some st)
    (allowed : (dep.discipline host).allowed st op)
    (turn : cfg.current call.proc = some c ∨
      (dep.discipline host).Rests (dep.system host) cfg call.proc ∧ waits host op = true)
    (performed : dep.perform call.proc op i cfg.world = some (a, w)) :
    Scopes dep { cfg with
      world := w
      calls := Function.update cfg.calls c (some { call with program := next a })
      current := Function.update cfg.current call.proc (some c)
      log := .did c op a :: cfg.log } := by
  have hproc := proc_reachable hreach live state
  obtain ⟨p, progress⟩ := st
  obtain rfl : p = call.proc := hproc
  have hdecisions := perform_decisions performed
  constructor
  case wellFormed =>
    intro q
    rw [hdecisions q]
    split_ifs
    · exact (h.wellFormed _).after op
    · exact h.wellFormed q
  case placed =>
    intro c' q s e hs heval
    rcases appraising_cases state hs with ⟨-, s', hst, rfl⟩ | ⟨hc, hs⟩
    · cases hst
      rw [hdecisions, if_pos rfl]
      exact (h.ready hreach live state).next allowed (Appraisal.perform_answered performed) heval
    · exact h.placed_other hreach live state allowed performed hc hs heval
  case alone =>
    intro c' c'' q s s' e e' hs hs' heval heval' hscope howns howns'
    rcases appraising_cases state hs with ⟨rfl, s₀, hst, rfl⟩ | ⟨hc, hold⟩
    · cases hst
      rcases appraising_cases state hs' with ⟨rfl, -⟩ | ⟨hc', hold'⟩
      · rfl
      · exact absurd howns'
          (h.not_owned hreach live state allowed howns heval hc' hold' heval' hscope)
    · rcases appraising_cases state hs' with ⟨rfl, s₀, hst, rfl⟩ | ⟨-, hold'⟩
      · cases hst
        exact absurd howns
          (h.not_owned hreach live state allowed howns' heval' hc hold heval hscope.symm)
      · exact h.alone c' c'' q s s' e e' hold hold' heval heval' hscope howns howns'
  case free =>
    intro c' call' q s e hcall' hs heval hbetween
    dsimp only at hcall' ⊢
    rcases appraising_cases state hs with ⟨rfl, s', hst, rfl⟩ | ⟨hc, hs⟩
    · cases hst
      rw [hdecisions, if_pos rfl, Function.update_self]
      exact ⟨rfl, (h.ready hreach live state).free_next allowed
        (Appraisal.perform_answered performed) heval hbetween⟩
    · rw [Function.update_of_ne hc] at hcall'
      have hq := h.between_elsewhere turn hc hcall' hs heval hbetween
      rw [hdecisions, if_neg hq, Function.update_of_ne hq]
      exact h.free c' call' q s e hcall' hs heval hbetween

end

/-- In every run the scopes of the services are kept apart. -/
theorem reachable (h : (dep.system host).Reachable cfg) : Scopes dep cfg := by
  refine Discipline.invariant (dep.followed host) ?_ ?_ h
  · rintro w rfl
    exact boot
  intro cfg cfg' hreach hsound hinv hmove
  cases hmove with
  | start rests enabled => exact hinv.start rests
  | act live program state allowed turn performed =>
      exact hinv.act hreach live state allowed turn performed
  | @finish c call s r live state final turn =>
      refine ⟨hinv.wellFormed, hinv.placed, hinv.alone, ?_⟩
      intro c' call' q s e hcall' hs heval hbetween
      dsimp only at hcall' ⊢
      by_cases hc : c' = c
      · rw [hc, Function.update_self] at hcall'
        cases hcall'
      · rw [Function.update_of_ne hc] at hcall'
        have hfree := hinv.free c' call' q s e hcall' hs heval hbetween
        have hq : q ≠ call.proc := by
          rintro rfl
          exact hc (Option.some.inj (hfree.1.symm.trans turn))
        rw [Function.update_of_ne hq]
        exact hfree
  | @crash p =>
      refine ⟨hinv.wellFormed, hinv.placed, hinv.alone, ?_⟩
      intro c' call' q s e hcall' hs heval hbetween
      simp only [Machine.crashStep] at hcall' ⊢
      split at hcall'
      · cases hcall'
      · rename_i call hcall
        split_ifs at hcall' with hp
        cases hcall'
        have hproc := proc_reachable hreach hcall hs
        have hq : q ≠ p := fun hq => hp (hproc.symm.trans hq)
        rw [Function.update_of_ne hq]
        exact hinv.free c' _ q s e hcall hs heval hbetween
  | outside rests acted =>
      have hdecisions := act_decisions acted
      refine ⟨fun p => ?_, fun c p s e hs heval => ?_, hinv.alone, ?_⟩
      · rw [hdecisions]
        exact hinv.wellFormed p
      · rw [hdecisions]
        exact hinv.placed c p s e hs heval
      · intro c call p s e hcall hs heval hbetween
        rw [hdecisions]
        exact hinv.free c call p s e hcall hs heval hbetween

end Scopes
end TradingGuardrails
