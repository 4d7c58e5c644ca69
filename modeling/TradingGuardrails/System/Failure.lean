import TradingGuardrails.System.Scopes

/-!
What a failed evaluation leaves behind. A call that throws has withdrawn the approval
request that it created, has given up the entry that it reserved, and with it the calls
that wait for that entry; it has never touched the entry of another call.
-/
namespace TradingGuardrails

open Text Interleaving

variable {host : Host} {dep : Deployment} {cfg : Config (signature host)}

theorem perform_issued {p : Nat} {op : Op host} {i : Input} {w w' : World host}
    {a : Ans host op} (h : dep.perform p op i w = some (a, w')) {id : String}
    (hissued : w.approvals.isFresh id = false) : w'.approvals.isFresh id = false := by
  by_cases hop : Deployment.touches op = .approvals
  · cases op with
    | approvalCreate params =>
        simp only [Deployment.perform, Deployment.approvalCreate] at h
        split at h
        · cases h
          exact hissued
        · split_ifs at h
          cases h
          exact ApprovalDatabase.not_fresh_insert hissued _
    | approvalDelete deleted =>
        simp only [Deployment.perform] at h
        split at h <;> cases h <;> exact hissued
    | approvalConsumeOneTime consumed =>
        simp only [Deployment.perform, Deployment.approvalConsumeOneTime, Option.some.injEq] at h
        split at h <;> cases h
        · exact hissued
        · simp only [ApprovalDatabase.isFresh, ApprovalDatabase.issued_consumeOneTime]
          exact hissued
    | _ => cases hop
  · rw [(dep.perform_frame h).approvals hop]
    exact hissued

theorem perform_gone {p : Nat} {op : Op host} {i : Input} {w w' : World host}
    {a : Ans host op} (h : dep.perform p op i w = some (a, w')) {id : String}
    (hgone : w.approvals.Gone id) : w'.approvals.Gone id := by
  by_cases hop : Deployment.touches op = .approvals
  · cases op with
    | approvalCreate params =>
        simp only [Deployment.perform, Deployment.approvalCreate] at h
        split at h
        · cases h
          exact hgone
        · split_ifs at h with hfresh
          cases h
          exact hgone.insert hfresh
    | approvalDelete deleted =>
        simp only [Deployment.perform] at h
        split at h <;> cases h
        · exact hgone
        · exact hgone.delete deleted
    | approvalConsumeOneTime consumed =>
        simp only [Deployment.perform, Deployment.approvalConsumeOneTime, Option.some.injEq] at h
        split at h <;> cases h
        · exact hgone
        · exact hgone.consumeOneTime consumed i.clock
    | _ => cases hop
  · rw [(dep.perform_frame h).approvals hop]
    exact hgone

theorem act_issued {x : Outside} {w w' : World host} (h : x.act w = some w') {id : String}
    (hissued : w.approvals.isFresh id = false) : w'.approvals.isFresh id = false := by
  cases x with
  | createApproval params approvalId now timeout =>
      simp only [Outside.act] at h
      split_ifs at h
      cases h
      exact ApprovalDatabase.not_fresh_insert hissued _
  | approve approvalId decidedBy now audited | deny approvalId decidedBy now audited =>
      cases h
      simp only [ApprovalDatabase.isFresh, ApprovalDatabase.approve, ApprovalDatabase.deny,
        ApprovalDatabase.issued_decide]
      exact hissued
  | expire approvalId now audited =>
      cases h
      simp only [ApprovalDatabase.isFresh, ApprovalDatabase.issued_expire]
      exact hissued
  | consumeOneTime approvalId now =>
      cases h
      simp only [ApprovalDatabase.isFresh, ApprovalDatabase.issued_consumeOneTime]
      exact hissued
  | deleteApproval | activate | deactivate =>
      cases h
      exact hissued

theorem act_gone {x : Outside} {w w' : World host} (h : x.act w = some w') {id : String}
    (hgone : w.approvals.Gone id) : w'.approvals.Gone id := by
  cases x with
  | createApproval params approvalId now timeout =>
      simp only [Outside.act] at h
      split_ifs at h with hfresh
      cases h
      exact hgone.insert hfresh
  | approve approvalId decidedBy now audited | deny approvalId decidedBy now audited =>
      cases h
      exact hgone.decide ..
  | expire approvalId now audited =>
      cases h
      exact hgone.expire ..
  | consumeOneTime approvalId now =>
      cases h
      exact hgone.consumeOneTime ..
  | deleteApproval approvalId =>
      cases h
      exact hgone.delete approvalId
  | activate | deactivate =>
      cases h
      exact hgone

theorem created_request {p : Nat} {params : ApprovalParams} {i : Input} {w w' : World host}
    {request : ApprovalRequest}
    (h : dep.perform p (.approvalCreate params) i w = some (.ok request, w')) :
    w'.approvals.isFresh request.approvalId = false := by
  simp only [Deployment.perform, Deployment.approvalCreate] at h
  split at h
  · cases h
  · split_ifs at h
    cases h
    exact ApprovalDatabase.issued_insert _

/-- The request of a call is kept until the call deletes it. -/
theorem created_next {s : Appraisal} {request : ApprovalRequest} {p : Nat} {op : Op host}
    {i : Input} {a : Ans host op} {w w' : World host} (hcreated : s.created = some request)
    (hallowed : s.allowed op) (h : dep.perform p op i w = some (a, w'))
    (hissued : w.approvals.isFresh request.approvalId = false) :
    (s.next op a).created = some request ∨ w'.approvals.Gone request.approvalId := by
  cases op with
  | approvalCreate params => exact absurd (hcreated.symm.trans hallowed.2.1) (by simp)
  | approvalDelete id =>
      obtain ⟨-, request', hrequest, rfl⟩ := hallowed
      cases hcreated.symm.trans hrequest
      simp only [Deployment.perform] at h
      split at h
      · cases h
        exact .inl hcreated
      · cases h
        exact .inr (ApprovalDatabase.gone_delete hissued)
  | _ => exact .inl hcreated

/-- Every request that a call created is the one it keeps, or is gone. -/
def Withdrawn (dep : Deployment) (cfg : Config (signature host)) : Prop :=
  ∀ c p s params request, Appraising dep cfg c p s →
    .did c (.approvalCreate params) (.ok request) ∈ cfg.log →
    cfg.world.approvals.isFresh request.approvalId = false ∧
      (s.created = some request ∨ cfg.world.approvals.Gone request.approvalId)

theorem withdrawn_reachable (h : (dep.system host).Reachable cfg) : Withdrawn dep cfg := by
  refine Discipline.invariant (dep.followed host) ?_ ?_ h
  · rintro w - c p s params request hs
    cases hs
  intro cfg cfg' hreach hsound hinv hmove
  have haccounted := Discipline.accounted_reachable (dep.followed host) hreach
  cases hmove with
  | @start p entry rests enabled =>
      intro c q s params request hs hmem
      have hold := (List.mem_cons.mp hmem).resolve_left (by simp)
      have hne : cfg.next ≠ c := by
        rintro rfl
        obtain ⟨x, hx⟩ := hsound.kept.entry_of_did haccounted.numbered hold
        exact Nat.lt_irrefl _ (haccounted.below _ _ hx)
      have hs : Appraising dep cfg c q s := by
        rwa [Appraising, Discipline.state_started hne] at hs
      exact hinv c q s params request hs hold
  | @act c call st op next i a w live program state allowed turn performed =>
      intro c' q s params request hs hmem
      by_cases hc : c' = c
      · subst hc
        obtain ⟨s', rfl, rfl⟩ := appraising_act state hs
        rcases List.mem_cons.mp hmem with hnew | hold
        · cases hnew
          have performed : dep.perform call.proc (.approvalCreate params) i cfg.world =
              some (.ok request, w) := performed
          exact ⟨created_request performed, .inl rfl⟩
        · obtain ⟨hissued, hrequest⟩ := hinv c' q s' params request state hold
          refine ⟨perform_issued performed hissued, ?_⟩
          rcases hrequest with hcreated | hgone
          · exact created_next hcreated allowed performed hissued
          · exact .inr (perform_gone performed hgone)
      · rw [Appraising, Discipline.state_did (Ne.symm hc)] at hs
        have hold := (List.mem_cons.mp hmem).resolve_left (by simp [hc])
        obtain ⟨hissued, hrequest⟩ := hinv c' q s params request hs hold
        exact ⟨perform_issued performed hissued, hrequest.imp_right (perform_gone performed)⟩
  | finish live state final turn =>
      intro c' q s params request hs hmem
      exact hinv c' q s params request hs ((List.mem_cons.mp hmem).resolve_left (by simp))
  | crash =>
      intro c' q s params request hs hmem
      exact hinv c' q s params request hs ((List.mem_cons.mp hmem).resolve_left (by simp))
  | outside rests acted =>
      intro c' q s params request hs hmem
      have hold := (List.mem_cons.mp hmem).resolve_left (by simp)
      obtain ⟨hissued, hrequest⟩ := hinv c' q s params request hs hold
      exact ⟨act_issued acted hissued, hrequest.imp_right (act_gone acted)⟩

/-- What becomes of the promise that a call gave for its scope: it is pending while the call
holds the scope, and it is rejected when the call gives the scope up. -/
def Fate (dep : Deployment) (c p : Nat) (e : Evaluation host) (promise : Nat)
    (cfg : Config (signature host)) : Prop :=
  ∃ s, Appraising dep cfg c p s ∧ s.evaluation host = some e ∧
    (s.stage = .holding ∧ (cfg.world.processes p).decisions.entries e.scope =
        some (.pending e.payloadHash promise) ∨
      (∃ decision, s.stage = .concluded decision) ∨
      s.stage = .abandoned ∧ ∃ error,
        (cfg.world.processes p).decisions.settled promise = some (.error error))

/-- What the call itself does to its promise. -/
theorem fate_next {s : Appraisal} {e : Evaluation host} {store : DecisionStore} {promise : Nat}
    (hready : s.Ready host store) {op : Op host} (hallowed : s.allowed op) {a : Ans host op}
    (hfate : s.stage = .holding ∧ store.entries e.scope = some (.pending e.payloadHash promise) ∨
      (∃ decision, s.stage = .concluded decision) ∨
      s.stage = .abandoned ∧ ∃ error, store.settled promise = some (.error error))
    (heval : s.evaluation host = some e) :
    (s.stageAfter op a = .holding ∧
        (store.after op).entries e.scope = some (.pending e.payloadHash promise) ∨
      (∃ decision, s.stageAfter op a = .concluded decision) ∨
      s.stageAfter op a = .abandoned ∧ ∃ error,
        (store.after op).settled promise = some (.error error)) := by
  by_cases hstages : Appraisal.stages op = false
  · rw [Appraisal.stageAfter_of_not_stages hstages,
      after_of_touches (Appraisal.touches_of_not_stages hstages)]
    exact hfate
  cases op with
  | lookup scope payloadHash =>
      have hs := hallowed.1
      rw [hs] at hfate
      simp at hfate
  | reserve scope payloadHash =>
      have hs := hallowed.1
      rw [hs] at hfate
      simp at hfate
  | pendingDecision other =>
      have hs : s.stage = .awaiting other := hallowed
      rw [hs] at hfate
      simp at hfate
  | set scope payloadHash decision => exact .inr (.inl ⟨decision, rfl⟩)
  | abortDecision scope payloadHash error =>
      refine .inr (.inr ⟨rfl, ?_⟩)
      obtain ⟨hs, e', heval', rfl, rfl⟩ := hallowed
      cases heval.symm.trans heval'
      rcases hfate with ⟨-, hpending⟩ | ⟨decision, hconcluded⟩ | ⟨-, error', hsettled⟩
      · refine ⟨error, ?_⟩
        change (store.abort e.scope e.payloadHash error).settled promise = _
        rw [DecisionStore.abort_pending hpending, DecisionStore.settled_settle]
        · exact Function.update_self ..
        · exact hready.wellFormed.unsettled _ _ _ hpending
      · rw [hconcluded] at hs
        simp at hs
      · exact ⟨error', store.settles_after _ _ _ hsettled⟩
  | _ => exact absurd rfl hstages

theorem fate_exec (h : (dep.system host).Reachable cfg) {c p : Nat} {e : Evaluation host}
    {promise : Nat} (hfate : Fate dep c p e promise cfg)
    (steps : List (Step (signature host))) :
    Fate dep c p e promise ((dep.system host).exec cfg steps) := by
  refine Discipline.invariant_exec (dep.followed host) ?_ h hfate steps
  intro cfg cfg' hreach hsound hfate hmove
  have hscopes := Scopes.reachable hreach
  obtain ⟨s, hs, heval, hwhere⟩ := hfate
  cases hmove with
  | @start q entry rests enabled =>
      obtain ⟨x, hentry⟩ := Discipline.entryOf_of_state hs
      have hbelow := (Discipline.accounted_reachable (dep.followed host) hreach).below c x hentry
      exact ⟨s, by rw [Appraising, Discipline.state_started (by omega), hs], heval, hwhere⟩
  | @act c' call st op next i a w live program state allowed turn performed =>
      have hdecisions := perform_decisions performed
      by_cases hc : c' = c
      · subst hc
        cases hs.symm.trans state
        have hproc := Scopes.proc_reachable hreach live state
        have hready := hscopes.ready hreach live hs
        refine ⟨s.next op a, Discipline.state_did_self state, ?_, ?_⟩
        · refine Appraisal.evaluation_next heval op ?_ a
          rintro rfl
          have hbefore : s.stage = .before := allowed
          rw [hbefore] at hwhere
          simp at hwhere
        · rw [show p = call.proc from hproc] at hready hwhere ⊢
          rw [hdecisions, if_pos rfl]
          exact fate_next hready allowed hwhere heval
      · refine ⟨s, by rw [Appraising, Discipline.state_did hc, hs], heval, ?_⟩
        rcases hwhere with ⟨hholding, hpending⟩ | hconcluded | ⟨habandoned, error, hsettled⟩
        · refine .inl ⟨hholding, ?_⟩
          rw [hdecisions]
          split_ifs with hp
          · refine Eq.trans ?_ hpending
            rw [hp]
            have hproc := Scopes.proc_reachable hreach live state
            rcases appraises_or_quiet allowed with ⟨s', hst⟩ | hquiet
            · by_contra hchanged
              rw [hst, hproc] at state allowed
              obtain ⟨e', heval', hscope, hfree⟩ :=
                (hscopes.ready hreach live state).changes allowed hchanged
              rcases hfree with ⟨-, hnone⟩ | ⟨hholding', -⟩
              · rw [← hp, hpending] at hnone
                cases hnone
              · exact hc (hscopes.alone c' c _ s' s e' e state (hp ▸ hs) heval' heval hscope
                  (.inl hholding') (.inl hholding))
            · rw [hquiet]
          · exact hpending
        · exact .inr (.inl hconcluded)
        · refine .inr (.inr ⟨habandoned, error, ?_⟩)
          rw [hdecisions]
          split_ifs with hp
          · exact DecisionStore.settles_after _ op _ _ (hp ▸ hsettled)
          · exact hsettled
  | finish live state final turn => exact ⟨s, hs, heval, hwhere⟩
  | crash => exact ⟨s, hs, heval, hwhere⟩
  | outside rests acted =>
      refine ⟨s, hs, heval, ?_⟩
      rw [act_decisions acted]
      exact hwhere

/-- A settled promise stays settled. -/
theorem move_settles {cfg cfg' : Config (signature host)}
    (hmove : (dep.discipline host).Move (dep.system host) cfg cfg') (p : Nat) :
    (cfg.world.processes p).decisions.Settles (cfg'.world.processes p).decisions := by
  intro promise r hsettled
  cases hmove with
  | @act c call st op next i a w live program state allowed turn performed =>
      rw [perform_decisions performed]
      split_ifs with hp
      · exact DecisionStore.settles_after _ op _ _ (hp ▸ hsettled)
      · exact hsettled
  | outside rests acted =>
      rw [act_decisions acted]
      exact hsettled
  | start | finish | crash => exact hsettled

theorem settled_exec (h : (dep.system host).Reachable cfg) {p promise : Nat}
    {r : Except Thrown GuardrailDecision}
    (hsettled : (cfg.world.processes p).decisions.settled promise = some r)
    (steps : List (Step (signature host))) :
    (((dep.system host).exec cfg steps).world.processes p).decisions.settled promise = some r :=
  Discipline.invariant_exec (dep.followed host)
    (fun _ _ _ _ hsettled hmove => move_settles hmove p _ _ hsettled) h hsettled steps

/-- What a call was told of a promise is what the promise was settled with. -/
theorem answered_reachable (h : (dep.system host).Reachable cfg) {c p promise : Nat}
    {entry : Entry host} {a : Except Thrown GuardrailDecision}
    (hentry : entryOf c cfg.log = some (p, entry))
    (hmem : .did c (.pendingDecision promise) a ∈ cfg.log) :
    (cfg.world.processes p).decisions.settled promise = some a := by
  obtain ⟨newer, older, hlog⟩ := List.append_of_mem hmem
  obtain ⟨before, after, q, entry', progress, hpast⟩ := Deployment.past_reachable h hlog
  cases hentry.symm.trans hpast.entry
  obtain ⟨i, hperformed⟩ := hpast.performed
  obtain ⟨steps, rfl⟩ := hpast.rest
  have hsettled := Appraisal.perform_answered hperformed
  refine settled_exec hpast.reaches ?_ steps
  rw [perform_decisions hperformed, if_pos rfl]
  exact hsettled

/-- What an operation of a call established, and its later operations keep, holds when the
call returns. -/
theorem returned_keeps {P : Appraisal → Prop}
    (hnext : ∀ s (op : Op host) a, P s → s.allowed op → P (s.next op a))
    (h : (dep.system host).Reachable cfg) {c : Nat} {op : Op host} {a : Ans host op}
    (hmem : .did c op a ∈ cfg.log) (hP : ∀ s : Appraisal, s.allowed op → P (s.next op a))
    {r : Except Thrown GuardrailDecision} (hreturned : .returned c (.decided r) ∈ cfg.log) :
    ∃ s p newer older, cfg.log = newer ++ .returned c (.decided r) :: older ∧
      (dep.discipline host).state c older = some ⟨p, .appraising s⟩ ∧ P s ∧ s.final host r := by
  have hkept := (Discipline.sound_reachable (dep.followed host) h).kept
  have hnumbered := (Discipline.accounted_reachable (dep.followed host) h).numbered
  obtain ⟨newer, older, hlog⟩ := List.append_of_mem hreturned
  obtain ⟨-, hlast⟩ := Discipline.returned_last (dep.followed host) h hlog
  rw [hlog] at hmem hkept hnumbered
  have hold : .did c op a ∈ older := by
    rcases List.mem_append.mp hmem with hnewer | hrest
    · exact absurd rfl (hlast _ hnewer)
    · exact (List.mem_cons.mp hrest).resolve_left (by simp)
  obtain ⟨newer', older', rfl⟩ := List.append_of_mem hold
  obtain ⟨st, hst, hfinal⟩ := Discipline.kept_returned hkept
  have hkept' := hkept.older.2
  have hnumbered' := Numbered.older hnumbered
  obtain ⟨st₀, hst₀, hallowed⟩ := Discipline.kept_did hkept'
  -- The operation makes the property true, and nothing that the call does later ends it.
  let Q : CallState host → Prop := fun st => ∀ s, st.progress = .appraising s → P s
  have hfirst : Q ((dep.discipline host).next st₀ op a) := by
    intro s hs
    obtain ⟨s₀, hst, rfl⟩ := appraising_act (p := st₀.proc) hst₀
      ((Discipline.state_did_self hst₀).trans (by rw [← hs]))
    rw [hst] at hallowed
    exact hP s₀ hallowed
  have hkeeps : ∀ st (op : Op host) a, Q st → (dep.discipline host).allowed st op →
      Q ((dep.discipline host).next st op a) := by
    intro st op a hQ hallowed s hs
    obtain ⟨p, progress⟩ := st
    cases progress with
    | appraising s₀ =>
        cases hs
        exact hnext s₀ op a (hQ s₀ rfl) hallowed
    | executing | rehearsing | checking => cases hs
  obtain ⟨st', hst', hQ⟩ := Discipline.Kept.persists hkeeps hnumbered' hkept'
    (Discipline.state_did_self hst₀) hfirst
  cases hst.symm.trans hst'
  obtain ⟨p, progress⟩ := st
  cases progress with
  | appraising s => exact ⟨s, p, newer, _, hlog, hst, hQ s rfl, hfinal⟩
  | executing | rehearsing | checking => exact False.elim hfinal

/-- A call that was told of a rejected promise returns an exception. -/
theorem rejected_returns (h : (dep.system host).Reachable cfg) {c promise : Nat} {error : Thrown}
    (hmem : .did c (.pendingDecision promise) (.error error) ∈ cfg.log)
    {r : Except Thrown GuardrailDecision} (hreturned : .returned c (.decided r) ∈ cfg.log) :
    ∃ e, r = .error e := by
  have hkeeps : ∀ (s : Appraisal) (op : Op host) a, s.stage = .rejected → s.allowed op →
      (s.next op a).stage = .rejected := by
    intro s op a hs hallowed
    exact (Appraisal.stageAfter_of_lasts (by rw [hs]; rfl) hallowed a).trans hs
  obtain ⟨s, -, -, -, -, -, hstage, hfinal⟩ :=
    returned_keeps hkeeps h hmem (fun _ _ => rfl) hreturned
  cases r with
  | error e => exact ⟨e, rfl⟩
  | ok decision => simp only [Appraisal.final, hstage] at hfinal

def missed : AppraisalStage → Bool
  | .missed | .holding | .abandoned | .concluded _ => true
  | .before | .conflicted | .awaiting _ | .replaying _ | .rejected => false

theorem missed_ne_before {stage : AppraisalStage} (h : missed stage = true) : stage ≠ .before := by
  rintro rfl
  cases h

theorem missed_next {s : Appraisal} {op : Op host} {a : Ans host op}
    (hs : missed s.stage = true) (hallowed : s.allowed op) : missed (s.next op a).stage = true := by
  by_cases hstages : Appraisal.stages op = false
  · rw [Appraisal.next_stage, Appraisal.stageAfter_of_not_stages hstages]
    exact hs
  cases op with
  | reserve scope payloadHash => rfl
  | set scope payloadHash decision => rfl
  | abortDecision scope payloadHash error => rfl
  | lookup scope payloadHash =>
      rw [hallowed.1] at hs
      cases hs
  | pendingDecision promise =>
      rw [show s.stage = .awaiting promise from hallowed] at hs
      cases hs
  | _ => exact absurd rfl hstages

def DecidedItself (dep : Deployment) (log : History host) (c : Nat)
    (decision : GuardrailDecision) : Prop :=
  ∃ newer older scope payloadHash p s, ∃ e : Evaluation host,
    log = newer ++ .did c (.set scope payloadHash decision) () :: older ∧
    (dep.discipline host).state c older = some ⟨p, .appraising s⟩ ∧
    s.evaluation host = some e ∧ s.Concluded e decision

/-- A call that has stored a decision came to it by its own stages. -/
theorem concluded_decides (h : (dep.system host).Reachable cfg) {c p : Nat} {s : Appraisal}
    {decision : GuardrailDecision} (hs : Appraising dep cfg c p s)
    (hconcluded : s.stage = .concluded decision) : DecidedItself dep cfg.log c decision := by
  let Q : CallState host → Prop := fun st =>
    ∃ s, st.progress = .appraising s ∧ s.stage = .concluded decision
  have hstart : ∀ p e, ¬Q ((dep.discipline host).start p e) := by
    rintro p e ⟨s, hstart, hstage⟩
    cases e with
    | evaluate rawIntent options =>
        cases hstart
        cases hstage
    | execute | dryRun | callback => cases hstart
  obtain ⟨newer, older, op, a, st, hlog, hst, hnot, hbecame⟩ :=
    Discipline.became hstart hs ⟨s, rfl, hconcluded⟩
  obtain ⟨s', hprogress, hstage⟩ := hbecame
  obtain ⟨q, progress⟩ := st
  obtain ⟨s₀, hst₀, rfl⟩ := appraising_act (p := q) hst
    ((Discipline.state_did_self hst).trans (by rw [← hprogress]))
  cases hst₀
  have hkept := (Discipline.sound_reachable (dep.followed host) h).kept
  rw [hlog] at hkept
  obtain ⟨st₁, hst₁, hallowed⟩ := Discipline.kept_did hkept
  cases hst.symm.trans hst₁
  cases op with
  | set scope payloadHash stored =>
      cases hstage
      obtain ⟨-, e, heval, -, -, hown⟩ := hallowed
      exact ⟨newer, older, scope, payloadHash, _, s₀, e, hlog, hst, heval, hown⟩
  | lookup scope payloadHash => cases a <;> cases hstage
  | pendingDecision promise => cases a <;> cases hstage
  | reserve | abortDecision => cases hstage
  | _ => exact absurd ⟨s₀, rfl, hstage⟩ hnot

/-- A call that has returned stands where its result says. -/
theorem returned_stands (h : (dep.system host).Reachable cfg) {c : Nat}
    {r : Except Thrown GuardrailDecision} (hreturned : .returned c (.decided r) ∈ cfg.log) :
    ∃ p s, Appraising dep cfg c p s ∧ s.final host r := by
  obtain ⟨p, entry, progress, -, -, hst, hfinal⟩ := Deployment.returned_state h hreturned
  cases progress with
  | appraising s => exact ⟨p, s, hst, hfinal⟩
  | executing | rehearsing | checking => exact False.elim hfinal

/-- A call whose scope was free returns the decision that it stored. -/
theorem missed_concludes {s : Appraisal} {decision : GuardrailDecision}
    (hmissed : missed s.stage = true) (hfinal : s.final host (.ok decision)) :
    s.stage = .concluded decision := by
  cases hstage : s.stage with
  | concluded stored =>
      simp only [Appraisal.final, hstage] at hfinal
      rw [hfinal]
  | before | conflicted | awaiting | replaying | rejected =>
      rw [hstage] at hmissed
      cases hmissed
  | missed | holding | abandoned => simp only [Appraisal.final, hstage] at hfinal

/-- A decision of a call whose scope was free is its own. -/
theorem missed_decides (h : (dep.system host).Reachable cfg) {c : Nat}
    {scope payloadHash : String} (hmem : .did c (.lookup scope payloadHash) .absent ∈ cfg.log)
    {decision : GuardrailDecision} (hreturned : .returned c (.decided (.ok decision)) ∈ cfg.log) :
    DecidedItself dep cfg.log c decision := by
  obtain ⟨s, p, newer, older, hlog, hs, hmissed, hfinal⟩ :=
    returned_keeps (fun _ _ _ hs hallowed => missed_next hs hallowed) h hmem (fun _ _ => rfl)
      hreturned
  obtain ⟨-, hlast⟩ := Discipline.returned_last (dep.followed host) h hlog
  have hstands : Appraising dep cfg c p s := by
    rw [Appraising, hlog, Discipline.state_of_others hlast]
    exact hs
  exact concluded_decides h hstands (missed_concludes hmissed hfinal)

/-- While nobody reserves a free scope, it stays free for all who look it up. -/
def Vacant (cfg₀ : Config (signature host)) (p : Nat) (scope : String)
    (cfg : Config (signature host)) : Prop :=
  ∃ newer, cfg.log = newer ++ cfg₀.log ∧
    ((∃ c payloadHash entry, .did c (.reserve scope payloadHash) () ∈ newer ∧
        entryOf c cfg.log = some (p, entry)) ∨
      (cfg.world.processes p).decisions.entries scope = none ∧
        ∀ c payloadHash found entry, .did c (.lookup scope payloadHash) found ∈ newer →
          entryOf c cfg.log = some (p, entry) → found = .absent)

theorem vacant_exec (h : (dep.system host).Reachable cfg) {p : Nat} {scope : String}
    (hfree : (cfg.world.processes p).decisions.entries scope = none)
    (steps : List (Step (signature host))) :
    Vacant cfg p scope ((dep.system host).exec cfg steps) := by
  refine Discipline.invariant_exec (dep.followed host) ?_ h
    ⟨[], rfl, .inr ⟨hfree, fun _ _ _ _ h => by cases h⟩⟩ steps
  rintro cfg₁ cfg₂ hreach - ⟨newer, hlog, hwhere⟩ hmove
  have hsound := Discipline.sound_reachable (dep.followed host) hreach
  have haccounted := Discipline.accounted_reachable (dep.followed host) hreach
  -- What an event has to leave as it is.
  have hkeeps : ∀ event, cfg₂.log = event :: cfg₁.log →
      (∀ c op a, .did c op a ∈ cfg₁.log → entryOf c cfg₂.log = entryOf c cfg₁.log) →
      ((cfg₁.world.processes p).decisions.entries scope = none →
        (cfg₂.world.processes p).decisions.entries scope = none ∧
        ∀ c payloadHash found entry, event = .did c (.lookup scope payloadHash) found →
          entryOf c cfg₂.log = some (p, entry) → found = .absent) → Vacant cfg p scope cfg₂ := by
    intro event hlog₂ hentry hstays
    have hmem : ∀ {event'}, event' ∈ newer → event' ∈ cfg₁.log := by
      intro event' hin
      rw [hlog]
      exact List.mem_append_left _ hin
    refine ⟨event :: newer, by rw [hlog₂, hlog, List.cons_append], ?_⟩
    rcases hwhere with ⟨c, payloadHash, entry, hin, hproc⟩ | ⟨hnone, hfound⟩
    · exact .inl ⟨c, payloadHash, entry, List.mem_cons_of_mem _ hin,
        (hentry c _ _ (hmem hin)).trans hproc⟩
    · obtain ⟨hnone₂, hlookup⟩ := hstays hnone
      refine .inr ⟨hnone₂, fun c payloadHash found entry hin hproc => ?_⟩
      rcases List.mem_cons.mp hin with hnew | hold
      · exact hlookup c payloadHash found entry hnew.symm hproc
      · exact hfound c payloadHash found entry hold
          ((hentry c _ _ (hmem hold)).symm.trans hproc)
  cases hmove with
  | start rests enabled =>
      refine hkeeps _ rfl (fun c op a hin => ?_) fun hnone => ⟨hnone, by simp⟩
      obtain ⟨x, hx⟩ := hsound.kept.entry_of_did haccounted.numbered hin
      have hbelow := haccounted.below c x hx
      exact if_neg (by omega)
  | @act c call st op next i a w live program state allowed turn performed =>
      have hentry := haccounted.entry c call live
      by_cases hown : call.proc = p ∧ ∃ payloadHash, op = .reserve scope payloadHash
      · obtain ⟨rfl, payloadHash, rfl⟩ := hown
        exact ⟨_ :: newer, by rw [hlog, List.cons_append],
          .inl ⟨c, payloadHash, call.entry, List.mem_cons_self, hentry⟩⟩
      refine hkeeps _ rfl (fun _ _ _ _ => rfl) fun hnone => ⟨?_, ?_⟩
      · rw [perform_decisions performed]
        split_ifs with hp
        · subst hp
          refine Eq.trans ?_ hnone
          have hproc := Scopes.proc_reachable hreach live state
          rcases appraises_or_quiet allowed with ⟨s, hst⟩ | hquiet
          · by_contra hchanged
            rw [hst, hproc] at state allowed
            obtain ⟨e, -, -, hchange⟩ :=
              ((Scopes.reachable hreach).ready hreach live state).changes allowed hchanged
            rcases hchange with ⟨hop, -⟩ | ⟨-, promise, hpending⟩
            · exact hown ⟨rfl, _, hop⟩
            · exact absurd (hnone.symm.trans hpending) (by simp)
          · rw [hquiet]
        · exact hnone
      · intro c' payloadHash found entry hevent hproc
        cases hevent
        cases hentry.symm.trans hproc
        have performed : dep.perform call.proc (.lookup scope payloadHash) i cfg₁.world =
            some (found, w) := performed
        exact (Appraisal.perform_answered performed).trans (DecisionStore.get_absent.mpr hnone)
  | finish => exact hkeeps _ rfl (fun _ _ _ _ => rfl) fun hnone => ⟨hnone, by simp⟩
  | crash => exact hkeeps _ rfl (fun _ _ _ _ => rfl) fun hnone => ⟨hnone, by simp⟩
  | outside rests acted =>
      refine hkeeps _ rfl (fun _ _ _ _ => rfl) fun hnone => ⟨?_, by simp⟩
      rw [act_decisions acted]
      exact hnone

theorem gone_exec (h : (dep.system host).Reachable cfg) {id : String}
    (hgone : cfg.world.approvals.Gone id) (steps : List (Step (signature host))) :
    ((dep.system host).exec cfg steps).world.approvals.Gone id := by
  refine @Discipline.invariant_exec _ _ _ (dep.followed host)
    (fun cfg => cfg.world.approvals.Gone id) (fun cfg cfg' _ _ hgone hmove => ?_) _ h hgone steps
  cases hmove with
  | act live program state allowed turn performed => exact perform_gone performed hgone
  | outside rests acted => exact act_gone acted hgone
  | start | finish | crash => exact hgone

def fails (c : Nat) : Event (signature host) → Bool
  | .returned c' (.decided (.error _)) => c' == c
  | _ => false

def deleteFails (c : Nat) : Event (signature host) → Bool
  | .did c' (.approvalDelete _) (.error _) => c' == c
  | _ => false

/-- What has become of an entry that a call of process `p` reserved, and of the promise that
it gave for it. -/
structure Released (dep : Deployment) (cfg : Config (signature host)) (c p : Nat)
    (scope payloadHash : String) (older : History host) (promise : Nat) (error : Thrown) :
    Prop where
  reserved : ∃ after steps, (dep.system host).Reachable after ∧
    after.log = .did c (.reserve scope payloadHash) () :: older ∧
    (dep.system host).exec after steps = cfg ∧
    (after.world.processes p).decisions.entries scope = some (.pending payloadHash promise)
  gone : (cfg.world.processes p).decisions.entries scope = none
  /-- Whoever waits for the entry is told of the failure, and fails. -/
  rejected : ∀ steps, let later := (dep.system host).exec cfg steps
    (later.world.processes p).decisions.settled promise = some (.error error) ∧
    ∀ c' entry a, entryOf c' later.log = some (p, entry) →
      .did c' (.pendingDecision promise) a ∈ later.log →
      a = .error error ∧ ∀ r, .returned c' (.decided r) ∈ later.log → ∃ e, r = .error e
  /-- Whoever looks the scope up, before it is reserved again, finds it free and decides by
  its own stages. -/
  again : ∀ steps, let later := (dep.system host).exec cfg steps
    Vacant cfg p scope later ∧ ∀ c' payloadHash' decision,
      .did c' (.lookup scope payloadHash') .absent ∈ later.log →
      .returned c' (.decided (.ok decision)) ∈ later.log → DecidedItself dep later.log c' decision

/-- What a call of process `p` leaves behind that has just failed. -/
structure NoTrace (dep : Deployment) (cfg : Config (signature host)) (c p : Nat) : Prop where
  withdrawn : ∀ params request steps, .did c (.approvalCreate params) (.ok request) ∈ cfg.log →
    ((dep.system host).exec cfg steps).world.approvals.get request.approvalId = none
  released : ∀ scope payloadHash newer older,
    cfg.log = newer ++ .did c (.reserve scope payloadHash) () :: older →
    ∃ promise error, Released dep cfg c p scope payloadHash older promise error
  /-- No step of the call changed an entry that it had not reserved. -/
  untouched : ∀ before s steps op a, (dep.system host).Reachable before →
    ((dep.system host).step before s).log = .did c op a :: before.log →
    (dep.system host).exec ((dep.system host).step before s) steps = cfg →
    ∀ q key, (((dep.system host).step before s).world.processes q).decisions.entries key ≠
        (before.world.processes q).decisions.entries key →
      q = p ∧ ∃ payloadHash,
        (op = .reserve key payloadHash ∧ (before.world.processes q).decisions.entries key = none ∨
          .did c (.reserve key payloadHash) () ∈ before.log ∧ ∃ promise,
            (before.world.processes q).decisions.entries key =
              some (.pending payloadHash promise))

def ends (c : Nat) : Event (signature host) → Bool
  | .did c' (.set _ _ _) _ => c' == c
  | .did c' (.abortDecision _ _ _) _ => c' == c
  | _ => false

/-- A call that holds its scope has reserved it, and has not ended its reservation. -/
theorem holding_since (h : (dep.system host).Reachable cfg) {c p : Nat} {s : Appraisal}
    {e : Evaluation host} (hs : Appraising dep cfg c p s) (heval : s.evaluation host = some e)
    (hholding : s.stage = .holding) :
    ∃ newer older, cfg.log = newer ++ .did c (.reserve e.scope e.payloadHash) () :: older ∧
      ∀ event ∈ newer, ends c event = false := by
  have hkept := (Discipline.sound_reachable (dep.followed host) h).kept
  have hnumbered := (Discipline.accounted_reachable (dep.followed host) h).numbered
  let Q : CallState host → Prop := fun st => ∃ s, st.progress = .appraising s ∧ s.stage = .holding
  have hstart : ∀ p e, ¬Q ((dep.discipline host).start p e) := by
    rintro p e ⟨s, hstart, hstage⟩
    cases e with
    | evaluate rawIntent options =>
        cases hstart
        cases hstage
    | execute | dryRun | callback => cases hstart
  obtain ⟨newer, older, op, a, ⟨q, progress⟩, hlog, hst, hnot, ⟨s', hprogress, hstage⟩, hlater⟩ :=
    Discipline.since hstart hs ⟨s, rfl, hholding⟩
  obtain ⟨s₀, hst₀, rfl⟩ := appraising_act (p := q) hst
    ((Discipline.state_did_self hst).trans (by rw [← hprogress]))
  cases hst₀
  rw [hlog] at hkept hnumbered
  obtain ⟨st, hst', hallowed⟩ := Discipline.kept_did hkept
  cases hst.symm.trans hst'
  -- The call held its scope through all that it has done since.
  have hends : ∀ event ∈ newer, ends c event = false := by
    intro event hevent
    by_contra hnot
    rw [Bool.not_eq_false] at hnot
    obtain ⟨later, between, rfl⟩ := List.append_of_mem hevent
    cases event with
    | did c' op' a' =>
        have hc : c' = c := by
          cases op' with
          | set | abortDecision => exact eq_of_beq hnot
          | _ => cases hnot
        subst hc
        obtain ⟨⟨r, progress'⟩, -, s₁, hnext, hstage₁⟩ := hlater later op' a' between rfl
        cases progress' with
        | appraising s₂ =>
            cases hnext
            cases op' with
            | set | abortDecision => cases hstage₁
            | _ => cases hnot
        | executing | rehearsing | checking => cases hnext
    | started | returned | crashed | outside => cases hnot
  cases op with
  | reserve scope payloadHash =>
      obtain ⟨hmissed, -, e', heval', rfl, rfl⟩ := hallowed
      -- The evaluation of the call is still the one that it reserved the scope for.
      let P : CallState host → Prop := fun st => ∃ s, st.progress = .appraising s ∧
        s.stage ≠ .before ∧ s.evaluation host = some e'
      have hkeeps : ∀ st (op : Op host) a, P st → (dep.discipline host).allowed st op →
          P ((dep.discipline host).next st op a) := by
        rintro ⟨p, progress⟩ op a ⟨s, hprogress, hstage, heval⟩ hallowed
        cases hprogress
        refine ⟨s.next op a, rfl, Appraisal.next_ne_before hstage, ?_⟩
        refine Appraisal.evaluation_next heval op ?_ a
        rintro rfl
        exact hstage hallowed
      obtain ⟨st', hst', s₁, hprogress', -, heval₁⟩ := Discipline.Kept.persists hkeeps hnumbered
        hkept (Discipline.state_did_self hst) ⟨_, rfl, by simp [Appraisal.stageAfter],
          Appraisal.evaluation_next heval' _ (by simp) _⟩
      rw [← hlog] at hst'
      cases hs.symm.trans hst'
      cases hprogress'
      cases heval.symm.trans heval₁
      exact ⟨newer, older, hlog, hends⟩
  | lookup | pendingDecision => cases a <;> cases hstage
  | set | abortDecision => cases hstage
  | _ => exact absurd ⟨s₀, rfl, hstage⟩ hnot

/-- A call that holds its scope has reserved it. -/
theorem holding_reserved (h : (dep.system host).Reachable cfg) {c p : Nat} {s : Appraisal}
    {e : Evaluation host} (hs : Appraising dep cfg c p s) (heval : s.evaluation host = some e)
    (hholding : s.stage = .holding) :
    .did c (.reserve e.scope e.payloadHash) () ∈ cfg.log := by
  obtain ⟨newer, older, hlog, -⟩ := holding_since h hs heval hholding
  rw [hlog]
  exact List.mem_append_right _ List.mem_cons_self

/-- Nothing but its own reservation and its own entry is changed by a call. -/
theorem step_untouched {before : Config (signature host)} (h : (dep.system host).Reachable before)
    {s : Step (signature host)} {c : Nat} {op : Op host} {a : Ans host op}
    (hlog : ((dep.system host).step before s).log = .did c op a :: before.log) {q : Nat}
    {key : String}
    (hchanged : (((dep.system host).step before s).world.processes q).decisions.entries key ≠
      (before.world.processes q).decisions.entries key) :
    (∃ entry, entryOf c before.log = some (q, entry)) ∧ ∃ payloadHash,
      (op = .reserve key payloadHash ∧ (before.world.processes q).decisions.entries key = none ∨
        .did c (.reserve key payloadHash) () ∈ before.log ∧ ∃ promise,
          (before.world.processes q).decisions.entries key =
            some (.pending payloadHash promise)) := by
  have hmove := Discipline.step_move (dep.followed host) h s hlog
  have hkept := (Discipline.sound_reachable (dep.followed host) h).kept
  have haccounted := Discipline.accounted_reachable (dep.followed host) h
  generalize (dep.system host).step before s = after at hmove hlog hchanged
  cases hmove with
  | start | finish | crash | outside => cases hlog
  | @act c call st op next i a w live program state allowed turn performed =>
      cases hlog
      rw [perform_decisions performed] at hchanged
      split_ifs at hchanged with hq
      · subst hq
        have hproc := Scopes.proc_reachable h live state
        rcases appraises_or_quiet allowed with ⟨s₀, hst⟩ | hquiet
        · rw [hst, hproc] at state allowed
          obtain ⟨e, heval, hscope, hchange⟩ :=
            ((Scopes.reachable h).ready h live state).changes allowed hchanged
          refine ⟨⟨_, haccounted.entry c call live⟩, e.payloadHash, ?_⟩
          rcases hchange with hreserve | ⟨hholding, hpending⟩
          · exact .inl hreserve
          · exact .inr ⟨hscope ▸ holding_reserved h state heval hholding, hpending⟩
        · rw [hquiet] at hchanged
          exact absurd rfl hchanged
      · exact absurd rfl hchanged

/-- A call whose deletions succeeded knows that nothing of its request is left. -/
theorem not_undeleted {log : History host} {c p : Nat} {s : Appraisal}
    (hs : (dep.discipline host).state c log = some ⟨p, .appraising s⟩)
    (hdeletes : log.any (deleteFails c) = false) : s.undeleted = false := by
  cases hundeleted : s.undeleted with
  | false => rfl
  | true =>
      let Q : CallState host → Prop := fun st => ∃ s, st.progress = .appraising s ∧
        s.undeleted = true
      have hstart : ∀ p e, ¬Q ((dep.discipline host).start p e) := by
        rintro p e ⟨s, hstart, hundeleted⟩
        cases e with
        | evaluate rawIntent options =>
            cases hstart
            cases hundeleted
        | execute | dryRun | callback => cases hstart
      obtain ⟨newer, older, op, a, ⟨q, progress⟩, rfl, hst, hnot, s', hprogress, hset⟩ :=
        Discipline.became hstart hs ⟨s, rfl, hundeleted⟩
      obtain ⟨s₀, hst₀, rfl⟩ := appraising_act (p := q) hst
        ((Discipline.state_did_self hst).trans (by rw [← hprogress]))
      cases hst₀
      cases op with
      | approvalDelete id =>
          cases a with
          | error error =>
              have hmem : deleteFails c (.did c (.approvalDelete id) (.error error) :
                  Event (signature host)) = true := beq_self_eq_true c
              rw [List.any_eq_false] at hdeletes
              exact absurd hmem (hdeletes _ (List.mem_append_right _ List.mem_cons_self))
          | ok u => exact absurd ⟨s₀, rfl, hset⟩ hnot
      | _ => exact absurd ⟨s₀, rfl, hset⟩ hnot

/-- A call that has just thrown: what its contract says about it, and that it was the turn of
its process. -/
theorem failed_stands (h : (dep.system host).Reachable cfg) {c p : Nat} {entry : Entry host}
    (hentry : entryOf c cfg.log = some (p, entry)) {error : Thrown} {older : History host}
    (hlog : cfg.log = .returned c (.decided (.error error)) :: older) :
    ∃ s before call, Appraising dep cfg c p s ∧ s.stage.gaveUp = true ∧ s.Cleared ∧
      (dep.system host).Reachable before ∧ before.log = older ∧ before.world = cfg.world ∧
      before.calls c = some call ∧ Appraising dep before c p s := by
  have hsound := Discipline.sound_reachable (dep.followed host) h
  have hkept := hsound.kept
  rw [hlog] at hkept
  obtain ⟨⟨⟨q, progress⟩, hst, hfinal⟩, hkept'⟩ := hkept
  have hst' : (dep.discipline host).state c cfg.log = some ⟨q, progress⟩ := by
    rw [hlog]
    exact hst
  obtain ⟨entry', hentry'⟩ := Deployment.proc_of_state hsound.kept hst'
  cases hentry.symm.trans hentry'
  obtain ⟨before, step, hbefore, rfl, hstep⟩ := h.last hlog
  have hmove := Discipline.step_move (dep.followed host) hbefore step (hstep ▸ hlog)
  cases progress with
  | executing | rehearsing | checking => exact False.elim hfinal
  | appraising s =>
      rw [hstep] at hmove
      cases hmove with
      | start | act | crash | outside => cases hlog
      | @finish c' call s' r live state final turn =>
          cases hlog
          exact ⟨s, before, call, hst', hfinal.1, hfinal.2, hbefore, rfl, rfl, live, hst⟩

/-- The entry that a call reserves waits for the call. -/
theorem reserved_step {before : Config (signature host)} (h : (dep.system host).Reachable before)
    {step : Step (signature host)} {c : Nat} {scope payloadHash : String}
    (hlog : ((dep.system host).step before step).log =
      .did c (.reserve scope payloadHash) () :: before.log) :
    ∃ p promise, ∃ e : Evaluation host, e.scope = scope ∧ e.payloadHash = payloadHash ∧
      Fate dep c p e promise ((dep.system host).step before step) ∧
      (((dep.system host).step before step).world.processes p).decisions.entries scope =
        some (.pending payloadHash promise) := by
  have hmove := Discipline.step_move (dep.followed host) h step hlog
  generalize (dep.system host).step before step = after at hmove hlog ⊢
  cases hmove with
  | start | finish | crash | outside => cases hlog
  | @act c' call st op next i a w live program state allowed turn performed =>
      cases hlog
      have hproc := Scopes.proc_reachable h live state
      obtain ⟨p, progress⟩ := st
      cases progress with
      | executing | rehearsing | checking => exact False.elim allowed
      | appraising s =>
          obtain rfl : p = call.proc := hproc
          obtain ⟨hmissed, -, e, heval, rfl, rfl⟩ := id allowed
          have hfree := ((Scopes.reachable h).ready h live state).free e heval (.inl hmissed)
          have performed : dep.perform call.proc (.reserve e.scope e.payloadHash) i before.world =
              some ((), w) := performed
          have hentries : (w.processes call.proc).decisions.entries e.scope =
              some (.pending e.payloadHash (before.world.processes call.proc).decisions.next) := by
            rw [perform_decisions performed, if_pos rfl]
            change (DecisionStore.reserve _ e.scope e.payloadHash).entries e.scope = _
            rw [DecisionStore.reserve_absent hfree]
            exact DecisionStore.put_self _
          refine ⟨call.proc, _, e, rfl, rfl, ?_, hentries⟩
          exact ⟨_, Discipline.state_did_self state, Appraisal.evaluation_next heval _ (by simp) _,
            .inl ⟨rfl, hentries⟩⟩

/-- A call that throws has given up what it reserved. -/
theorem failed_released (h : (dep.system host).Reachable cfg) {c p : Nat} {s : Appraisal}
    {before : Config (signature host)} {call : Call (signature host)}
    (hs : Appraising dep cfg c p s) (hstage : s.stage.gaveUp = true)
    (hbefore : (dep.system host).Reachable before) (hworld : before.world = cfg.world)
    (live : before.calls c = some call) (hstands : Appraising dep before c p s)
    {scope payloadHash : String} {newer older : History host}
    (hlog : cfg.log = newer ++ .did c (.reserve scope payloadHash) () :: older) :
    ∃ promise error, Released dep cfg c p scope payloadHash older promise error := by
  obtain ⟨start, step, steps, hstart, rfl, hstep, hexec⟩ := h.past hlog
  obtain ⟨q, promise, e, rfl, rfl, hfate, hpending⟩ := reserved_step hstart hstep
  have hreach := hstart.step step
  obtain ⟨s', hs', heval, hwhere⟩ := hexec ▸ fate_exec hreach hfate steps
  cases hs.symm.trans hs'
  -- Of the fates of the promise, only the rejection goes with a call that has given up.
  obtain ⟨habandoned, error, hsettled⟩ : s.stage = .abandoned ∧ ∃ error,
      (cfg.world.processes p).decisions.settled promise = some (.error error) := by
    rcases hwhere with ⟨hholding, -⟩ | ⟨decision, hconcluded⟩ | hrejected
    · rw [hholding] at hstage
      cases hstage
    · rw [hconcluded] at hstage
      cases hstage
    · exact hrejected
  have hfree : (cfg.world.processes p).decisions.entries e.scope = none := by
    rw [← hworld]
    exact ((Scopes.reachable hbefore).free c call p s e live hstands heval (.inr habandoned)).2
  refine ⟨promise, error, ⟨_, steps, hreach, hstep, hexec, hpending⟩, hfree, fun later => ?_,
    fun later => ?_⟩
  · refine ⟨settled_exec h hsettled later, fun c' entry a hentry hmem => ?_⟩
    have hlater := (dep.system host).reachable_exec h later
    have hanswer := answered_reachable hlater hentry hmem
    cases (settled_exec h hsettled later).symm.trans hanswer
    exact ⟨rfl, fun r hreturned => rejected_returns hlater hmem hreturned⟩
  · have hlater := (dep.system host).reachable_exec h later
    exact ⟨vacant_exec h hfree later, fun c' payloadHash' decision hmem hreturned =>
      missed_decides hlater hmem hreturned⟩

/-- A call of `evaluate` that throws, when the approval store deletes what it is asked to
delete, leaves no trace. -/
theorem failed_evaluation_leaves_no_trace (h : (dep.system host).Reachable cfg) {c p : Nat}
    {rawIntent : Option Json} {options : EvaluationOptions}
    (hentry : entryOf c cfg.log = some (p, .evaluate rawIntent options))
    (hfails : cfg.log.head?.any (fails c) = true)
    (hdeletes : cfg.log.any (deleteFails c) = false) : NoTrace dep cfg c p := by
  obtain ⟨error, older, hlog⟩ : ∃ error older,
      cfg.log = .returned c (.decided (.error error)) :: older := by
    cases hlog : cfg.log with
    | nil =>
        rw [hlog] at hfails
        cases hfails
    | cons event older =>
        rw [hlog, List.head?_cons, Option.any_some] at hfails
        unfold fails at hfails
        split at hfails
        · cases beq_iff_eq.mp hfails
          exact ⟨_, older, rfl⟩
        · cases hfails
  obtain ⟨s, before, call, hs, hstage, hcleared, hbefore, -, hworld, live, hstands⟩ :=
    failed_stands h hentry hlog
  constructor
  · intro params request steps hmem
    obtain ⟨-, hcreated | hgone⟩ := withdrawn_reachable h c p s params request hs hmem
    · rw [hcleared (not_undeleted hs hdeletes)] at hcreated
      cases hcreated
    · exact (gone_exec h hgone steps).2
  · intro scope payloadHash newer older hreserved
    exact failed_released h hs hstage hbefore hworld live hstands hreserved
  · intro before' s' steps op a hreach hgrows hexec q key hchanged
    obtain ⟨⟨entry, hentry'⟩, hwhat⟩ := step_untouched hreach hgrows hchanged
    have hnumbered := (Discipline.accounted_reachable (dep.followed host) h).numbered
    obtain ⟨newer, hnewer⟩ :=
      (dep.system host).exec_log ((dep.system host).step before' s') steps
    have hgrown : cfg.log = (newer ++ [.did c op a]) ++ before'.log := by
      rw [← hexec, hnewer, hgrows, List.append_assoc, List.singleton_append]
    rw [hgrown] at hnumbered hentry
    cases hentry.symm.trans (entryOf_append hnumbered hentry')
    exact ⟨rfl, hwhat⟩

abbrev exampleHost : Host := plainHost id fun _ => id

def paperDeployment : Deployment where
  broker _ := {
    environment := .paper
    canaryLiveEnabled := false
    decisionVerificationSecret := "0123456789012345678901234567890123456789"
    decisionMaxAgeMs := none
    capabilities := ⟨true, some true⟩
    secretAccepted := by decide
    maxAgeAccepted := by simp }
  service _ := {
    environment := .paper
    decisionSigningSecret := "0123456789012345678901234567890123456789"
    risk := .anything
    secretAccepted := by decide }
  store := .file

def simulationIntent : Json :=
  .record [
    ("intentId", some (.str "i")),
    ("principal", some (.str "p")),
    ("action", some (.str "onchain.simulate_transaction")),
    ("resource", some (.str "onchain:ethereum:sepolia:a")),
    ("environment", some (.str "paper")),
    ("requestedAt", some (.str "t")),
    ("idempotencyKey", some (.str "k")),
    ("rationale", some (.str "x")),
    ("evidence", some (.arr [.str "e"])),
    ("chain", some (.str "ethereum")),
    ("chainEnvironment", some (.str "sepolia")),
    ("to", some (.str "a"))]

def simulationEntry : Entry exampleHost :=
  .evaluate (some simulationIntent) { correlationId := some "c" }

def paperRun (steps : List (Step (signature exampleHost))) : Config (signature exampleHost) :=
  (paperDeployment.system exampleHost).exec (Machine.boot (World.empty exampleHost)) steps

def acts (c n : Nat) : List (Step (signature exampleHost)) :=
  List.replicate n (.run c Input.quiet)

def actFails (c : Nat) : Step (signature exampleHost) :=
  .run c { Input.quiet with failure := some (.ofMessage "unreachable") }

theorem paperRun_reachable (steps : List (Step (signature exampleHost))) :
    (paperDeployment.system exampleHost).Reachable (paperRun steps) :=
  (paperDeployment.system exampleHost).reachable_exec (.boot rfl) steps

theorem paperRun_entry (steps later : List (Step (signature exampleHost))) {c : Nat}
    (hgo : (paperRun steps).next = c ∧
      (!(paperDeployment.system exampleHost).busy (paperRun steps) 0 &&
        Deployment.enabled (paperRun steps).log 0 simulationEntry) = true) :
    entryOf c (paperRun (steps ++ .start 0 simulationEntry :: later)).log =
      some (0, simulationEntry) := by
  have hrun : paperRun (steps ++ .start 0 simulationEntry :: later) =
      (paperDeployment.system exampleHost).exec ((paperDeployment.system exampleHost).step
        (paperRun steps) (.start 0 simulationEntry)) later :=
    List.foldl_append
  rw [hrun, ← hgo.1]
  exact Discipline.entry_of_start (paperDeployment.followed exampleHost)
    (paperRun_reachable steps) hgo.2 later

def unauditedRun : List (Step (signature exampleHost)) :=
  .start 0 simulationEntry :: (acts 0 5 ++ [actFails 0] ++ acts 0 1 ++ [.finish 0])

theorem failed_evaluation_leaves_no_trace_unaudited :
    (paperRun unauditedRun).log.head?.any (fails 0) = true ∧
      NoTrace paperDeployment (paperRun unauditedRun) 0 0 := by
  have hruns : (paperRun unauditedRun).log.head?.any (fails 0) = true ∧
      (paperRun unauditedRun).log.any (deleteFails 0) = false := by decide +kernel
  have hentry : entryOf 0 (paperRun unauditedRun).log = some (0, simulationEntry) :=
    paperRun_entry [] _ (by decide +kernel)
  exact ⟨hruns.1,
    failed_evaluation_leaves_no_trace (paperRun_reachable _) hentry hruns.1 hruns.2⟩

def replays (c : Nat) : Event (signature host) → Bool
  | .did c' (.lookup _ _) (.complete _) => c' == c
  | _ => false

def consults (c : Nat) : Event (signature host) → Bool
  | .did c' (.review _) _ => c' == c
  | .did c' (.evaluateRisk _ _) _ => c' == c
  | .did c' (.evaluatePolicy _) _ => c' == c
  | .did c' .isHealthy _ => c' == c
  | _ => false

def succeeds (c : Nat) : Event (signature host) → Bool
  | .returned c' (.decided (.ok _)) => c' == c
  | _ => false

def decidedRun : List (Step (signature exampleHost)) :=
  .start 0 simulationEntry :: (acts 0 7 ++ [.finish 0])

def unreceivedRun : List (Step (signature exampleHost)) :=
  decidedRun ++ .start 0 simulationEntry :: (acts 1 1 ++ [actFails 1, .finish 1])

def replayedRun : List (Step (signature exampleHost)) :=
  unreceivedRun ++ .start 0 simulationEntry :: (acts 2 4 ++ [.finish 2])

/-- A call that fails before it looks its scope up leaves the decision of an earlier call to
be replayed: the next call asks none of the stages. -/
theorem failed_evaluation_is_replayed :
    (paperDeployment.system exampleHost).Reachable (paperRun unreceivedRun) ∧
      entryOf 1 (paperRun unreceivedRun).log = some (0, simulationEntry) ∧
      (paperRun unreceivedRun).log.head?.any (fails 1) = true ∧
      (paperRun unreceivedRun).log.any (deleteFails 1) = false ∧
      entryOf 2 (paperRun replayedRun).log = some (0, simulationEntry) ∧
      (paperRun replayedRun).log.any (replays 2) = true ∧
      (paperRun replayedRun).log.any (consults 2) = false ∧
      (paperRun replayedRun).log.head?.any (succeeds 2) = true := by
  have hfailed : (paperRun unreceivedRun).log.head?.any (fails 1) = true ∧
      (paperRun unreceivedRun).log.any (deleteFails 1) = false := by decide +kernel
  have hreplayed : (paperRun replayedRun).log.any (replays 2) = true ∧
      (paperRun replayedRun).log.any (consults 2) = false ∧
      (paperRun replayedRun).log.head?.any (succeeds 2) = true := by decide +kernel
  refine ⟨paperRun_reachable _, ?_, hfailed.1, hfailed.2, ?_, hreplayed⟩
  · exact paperRun_entry decidedRun _ (by decide +kernel)
  · exact paperRun_entry unreceivedRun _ (by decide +kernel)

end TradingGuardrails
