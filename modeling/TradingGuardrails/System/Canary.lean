import TradingGuardrails.System.Authority

/-!
The gate of a live canary. No order reaches the connector, nor gets past the callback
before its side effect, without a dry run of the same intent that passed, was audited and
is still recent by the clock at that moment.
-/
namespace TradingGuardrails

open Text Interleaving

variable {host : Host} {dep : Deployment} {cfg : Config (signature host)}

def digested : Event (signature host) → List String
  | .started _ _ (.execute approval _) | .started _ _ (.dryRun approval) =>
      ((TradingIntent.safeParse host (approval.field? "intent")).map fun intent =>
        stableStringify intent.value).toList
  | _ => []

def Collisionless (log : History host) : Prop :=
  ∀ text ∈ log.flatMap digested, ∀ other ∈ log.flatMap digested,
    host.sha256 text = host.sha256 other → text = other

def Host.WritesDates (host : Host) : Prop :=
  ∀ t, host.toISOString t ≠ "undefined" ∧ host.toISOString t ≠ "null"

def lastReading (c : Nat) : History host → Option Instant
  | [] => none
  | .started c' _ _ :: log => if c' = c then none else lastReading c log
  | .did c' .now t :: log => if c' = c then some t else lastReading c log
  | .did c' op _ :: log => if c' = c ∧ waits host op = true then none else lastReading c log
  | _ :: log => lastReading c log

structure Recent (broker : ExecutionBroker) (checkedAt now : Instant) : Prop where
  after : 0 ≤ now.ms - checkedAt.ms
  age : ((now.ms - checkedAt.ms : ℤ) : ℚ) ≤ broker.decisionMaxAgeMs.getD defaultDryRunAgeMs

/-- A dry run of the service decided on the intent, and its result carried the token. -/
structure DryDecided (log : History host) (intent : TradingIntent host) (token : String) :
    Prop where
  returned : ∃ c p rawIntent options decision given, ∃ evaluated : TradingIntent host,
    entryOf c log = some (p, .evaluate rawIntent options) ∧ options.dryRun = true ∧
    .returned c (.decided (.ok decision)) ∈ log ∧ decision.outcome ≠ .deny ∧
    decision.decisionToken = some given ∧ hexBytes token = hexBytes given ∧
    TradingIntent.safeParse host rawIntent = some evaluated ∧
    Json.Equiv intent.value evaluated.value

structure Rehearsed (dep : Deployment) (log : History host) (intent : TradingIntent host)
    (checkedAt : Instant) (c p : Nat) (approval : Json) (rehearsed : TradingIntent host)
    (report : BrokerDryRunResult) : Prop where
  entry : entryOf c log = some (p, .dryRun approval)
  parsed : TradingIntent.safeParse host (approval.field? "intent") = some rehearsed
  same : Json.Equiv intent.value rehearsed.value
  decided : ∃ token, approval.field? "decisionToken" = some (.str token) ∧
    DryDecided log rehearsed token
  returned : .returned c (.reported (.ok report)) ∈ log
  passed : report.passed = true ∧ ∀ check ∈ report.checks, check.passed = true
  checks : report.checks.map PreflightCheckResult.check = ["decision", "environment",
    "kill_switch", "audit", "approval", "connector", "late_kill_switch"]
  written : .did c (.auditWrite ((dep.broker p).dryRunEvent approval (some rehearsed)
    { report with authorization := none })) (.ok ()) ∈ log
  checkedAt : report.checkedAt = host.toISOString checkedAt

namespace Canary

theorem suffix_after {α : Type} {newer older : List α} {x : α} : older <:+ newer ++ x :: older :=
  (List.suffix_cons ..).trans (List.suffix_append ..)

theorem dryRunMessage_inj (hhost : host.Lawful) {intent other : TradingIntent host}
    {checkedAt checkedAt' : String}
    (h : dryRunMessage host intent checkedAt = dryRunMessage host other checkedAt') :
    hashIntentPayload host intent = hashIntentPayload host other ∧ checkedAt = checkedAt' := by
  have hlength : ∀ i : TradingIntent host, (hashIntentPayload host i).toList.length = 64 := by
    intro i
    have hhex := hhost.sha256_hex (stableStringify i.value)
    simp only [isHexDigest, Bool.and_eq_true, beq_iff_eq] at hhex
    exact hhex.1
  have htexts : ("broker-dry-run:" ++ hashIntentPayload host intent ++ ":" ++ checkedAt).toList =
      ("broker-dry-run:" ++ hashIntentPayload host other ++ ":" ++ checkedAt').toList :=
    congrArg String.toList h
  simp only [String.toList_append, List.append_assoc] at htexts
  obtain ⟨hhash, hrest⟩ := List.append_inj (List.append_cancel_left htexts)
    ((hlength intent).trans (hlength other).symm)
  exact ⟨String.toList_inj.mp hhash, String.toList_inj.mp (List.append_cancel_left hrest)⟩

/-- A receipt that matches, with the text of its moment. -/
theorem receipt_of_matches {authorization : Option Json} {secret now : String}
    {intent : TradingIntent host} {maxAge : Option ℚ}
    (h : dryRunAuthorizationMatches host authorization secret intent now maxAge = .ok true) :
    truthy authorization = true ∧ ∃ token, property authorization "token" = some (.str token) ∧
      hexBytes token = hexBytes (host.hmacSha256 secret
        (dryRunMessage host intent (valueString (property authorization "checkedAt")))) := by
  simp only [dryRunAuthorizationMatches] at h
  split_ifs at h with hgiven
  · cases h
  · cases h
  · cases h
  · rw [Bool.not_eq_true', Bool.not_eq_false] at hgiven
    exact ⟨hgiven, timingSafeEqualHex_true h⟩

theorem valueString_orEmpty {value : Option Json} (h : valueString value ≠ "undefined")
    (h' : valueString value ≠ "null") : orEmpty value = value := by
  cases value with
  | none => exact absurd rfl h
  | some v =>
      cases v with
      | null => exact absurd rfl h'
      | bool | num | str | arr | obj => rfl

theorem recent_of_fresh (hhost : host.Lawful) {broker : ExecutionBroker} {checkedAt : Option Json}
    {t now : Instant} (hchecked : valueString checkedAt = host.toISOString t)
    (h : dryRunIsFresh host checkedAt (host.toISOString now) broker.decisionMaxAgeMs = true) :
    Recent broker t now := by
  obtain ⟨ms, hms, hafter, hage⟩ := (dryRunIsFresh_iff hhost).mp h
  rw [hchecked, hhost.dateParse_toISOString, Option.some.injEq] at hms
  subst hms
  exact ⟨hafter, hage⟩

/-- The report of a dry run that was remembered was written. -/
theorem written_of_state {log : History host} {c p : Nat} {s : Rehearsal} {event : Json}
    (hs : (dep.discipline host).state c log = some ⟨p, .rehearsing s⟩)
    (hwritten : s.written = some event) : .did c (.auditWrite event) (.ok ()) ∈ log := by
  let Q : CallState host → Prop := fun st =>
    ∃ s, st.progress = .rehearsing s ∧ s.written = some event
  have hstart : ∀ q e, ¬Q ((dep.discipline host).start q e) := by
    rintro q e ⟨s, hs, hw⟩
    cases e <;> cases hs
    cases hw
  obtain ⟨newer, older, op, a, ⟨q, progress⟩, hlog, -, hnot, s', hs', hw⟩ :=
    Discipline.became (Q := Q) hstart hs ⟨s, rfl, hwritten⟩
  cases progress with
  | executing | appraising | checking => cases hs'
  | rehearsing s₁ =>
  cases hs'
  have hold : s₁.written ≠ some event := fun h => hnot ⟨s₁, rfl, h⟩
  cases op with
  | auditWrite event' =>
      cases a with
      | error e => exact absurd hw hold
      | ok u =>
          simp only [Rehearsal.next, Rehearsal.reported] at hw
          split_ifs at hw
          · cases hw
            rw [hlog]
            exact List.mem_append_right _ List.mem_cons_self
          · exact absurd hw hold
  | _ => exact absurd hw hold

def clockOf : Progress host → Option (Option Instant)
  | .executing s => some s.clock
  | .checking s => some s.clock
  | .rehearsing _ => none
  | .appraising _ => none

theorem lastReading_did {c : Nat} {op : Op host} {a : Ans host op} {log : History host} :
    lastReading c (.did c op a :: log) = match op, a with
      | .now, t => some t
      | op, _ => if waits host op then none else lastReading c log := by
  cases op <;> simp [lastReading]

theorem lastReading_others {c : Nat} {event : Event (signature host)} {log : History host}
    (h : Event.call? event ≠ some c) : lastReading c (event :: log) = lastReading c log := by
  cases event with
  | started c' p e =>
      have hne : c' ≠ c := by simpa [Event.call?] using h
      simp [lastReading, hne]
  | did c' op a =>
      have hne : c' ≠ c := by simpa [Event.call?] using h
      cases op <;> simp [lastReading, hne]
  | returned | crashed | outside => rfl

theorem lastReading_eq {log : History host} (hkept : (dep.discipline host).Kept log) {c : Nat}
    {st : CallState host} (hs : (dep.discipline host).state c log = some st)
    {clock : Option Instant} (hclock : clockOf st.progress = some clock) :
    lastReading c log = clock := by
  refine hkept.reading (P := fun c (st : CallState host) log =>
    ∀ clock, clockOf st.progress = some clock → lastReading c log = clock) ?_ ?_ ?_ ?_ hs clock
    hclock
  · intro c p e log clock hstart
    cases e <;> cases hstart <;> exact if_pos rfl
  · rintro c ⟨p, progress⟩ op a log ih hallowed clock hnext
    rw [lastReading_did]
    cases progress with
    | rehearsing | appraising => cases hnext
    | executing s =>
        cases hnext
        rw [ih s.clock rfl]
        cases op <;> rfl
    | checking s =>
        cases hnext
        rw [ih s.clock rfl]
        -- The last check does nothing that waits.
        cases op <;> first | rfl | exact False.elim hallowed
  · intro c st r log ih
    exact ih
  · intro c st event log hevent ih clock hclock
    rw [lastReading_others hevent]
    exact ih clock hclock

section

open Authority

variable {secret : String} {newer older : History host} {c p : Nat} {approval : Json}
  {authorization : Option Json} {intent : TradingIntent host} {startedAt : Instant} {s : Attempt}

theorem mem_digested {log : History host} {event : Event (signature host)} (hevent : event ∈ log)
    {text : String} (htext : text ∈ digested event) : text ∈ log.flatMap digested :=
  List.mem_flatMap.mpr ⟨event, hevent, htext⟩

/-- The decision that a dry run of the broker was given. -/
theorem decided_of_passed (h : (dep.system host).Reachable cfg)
    (hsecret : dep.SharesSecret secret) (hsafe : Unforgeable secret cfg.log)
    (hlog : cfg.log = newer ++ .started c p (.dryRun approval) :: older)
    (hparse : TradingIntent.safeParse host (approval.field? "intent") = some intent)
    {now : String} (hvalid : (dep.broker p).validDryRunDecision approval intent now = .ok true) :
    ∃ token, approval.field? "decisionToken" = some (.str token) ∧
      DryDecided older intent token := by
  simp only [ExecutionBroker.validDryRunDecision] at hvalid
  split_ifs at hvalid with hfields
  · rw [(hsecret p).1] at hvalid
    obtain ⟨token, htoken, hbytes⟩ := token_of_matches hvalid
    obtain ⟨c', q, decision, given, rawIntent, options, evaluated, hreturned, hsigned, hsame⟩ :=
      approval_issuer h hsecret hsafe hlog
        (fun token htoken => by simp [presented, htoken, textValue?]) (by simp [checked, hparse])
        hvalid
    obtain ⟨hequiv, -, -, -, -, hflag⟩ := decisionMessage_inj hsame
    have hdry : options.dryRun = true := by
      rw [← hflag, hfields.1]
      rfl
    refine ⟨token, htoken, ⟨c', q, rawIntent, options, decision, given, evaluated, hsigned.entry,
      hdry, hreturned, hsigned.outcome, hsigned.carries, ?_, hsigned.parsed, hequiv⟩⟩
    rw [hbytes, hsame, hsigned.token, (hsecret q).2]
  · cases hvalid

theorem dryDecided_later {log : History host} (hnumbered : Numbered log) (hsuffix : older <:+ log)
    {token : String} (hdecided : DryDecided older intent token) :
    DryDecided log intent token := by
  obtain ⟨newer, rfl⟩ := hsuffix
  obtain ⟨c', q, rawIntent, options, decision, given, evaluated, hentry, hdry, hreturned, hrest⟩ :=
    hdecided.returned
  exact ⟨c', q, rawIntent, options, decision, given, evaluated, entryOf_append hnumbered hentry,
    hdry, List.mem_append_right _ hreturned, hrest⟩

theorem rehearsed_later {log : History host} (hnumbered : Numbered log) (hsuffix : older <:+ log)
    {checkedAt : Instant} {c p : Nat} {rehearsed : TradingIntent host}
    {report : BrokerDryRunResult}
    (hrehearsed : Rehearsed dep older intent checkedAt c p approval rehearsed report) :
    Rehearsed dep log intent checkedAt c p approval rehearsed report := by
  obtain ⟨token, htoken, hdecided⟩ := hrehearsed.decided
  have hlater := dryDecided_later hnumbered hsuffix hdecided
  obtain ⟨newer, rfl⟩ := hsuffix
  exact { hrehearsed with
    entry := entryOf_append hnumbered hrehearsed.entry
    decided := ⟨token, htoken, hlater⟩
    returned := List.mem_append_right _ hrehearsed.returned
    written := List.mem_append_right _ hrehearsed.written }

/-- A report with an authorization is that of a dry run which was rehearsed in full. -/
theorem rehearsed_of_reported (h : (dep.system host).Reachable cfg)
    (hsecret : dep.SharesSecret secret) (hsafe : Unforgeable secret cfg.log)
    (hsuffix : older <:+ cfg.log) {report : BrokerDryRunResult} {token : String} {s : Rehearsal}
    {rehearsed : TradingIntent host} (hreturned : .returned c (.reported (.ok report)) ∈ older)
    (hreported : Reported dep older c report token p approval s rehearsed)
    (hequiv : Json.Equiv intent.value rehearsed.value)
    (hlive : intent.environment = .canaryLive) :
    ∃ t, Rehearsed dep older intent t c p approval rehearsed report := by
  obtain ⟨hbroker, rfl⟩ := hreported.broker
  have hpassed := hreported.passed
  have hnumbered : Numbered older := by
    obtain ⟨newer, hlog⟩ := hsuffix
    have hnumbered := (Discipline.accounted_reachable (dep.followed host) h).numbered
    rw [← hlog] at hnumbered
    exact hnumbered.older
  obtain ⟨recent, first, hfirst⟩ := start_of_entry hreported.entry
  obtain ⟨token, htoken, hdecided⟩ : ∃ token, s.approval.field? "decisionToken" =
      some (.str token) ∧ DryDecided first rehearsed token := by
    obtain ⟨newer, hlog⟩ := hsuffix
    have hlog' : cfg.log = (newer ++ recent) ++ .started c p (.dryRun s.approval) :: first := by
      rw [← hlog, hfirst, List.append_assoc]
    obtain ⟨startedAt, -, hvalid⟩ := hpassed.decision
    rw [hbroker] at hvalid
    exact decided_of_passed h hsecret hsafe hlog' hpassed.parsed hvalid
  have henvironment : (dep.broker p).environment = .canaryLive := by
    have hmatch := hpassed.environment
    simp only [ExecutionBroker.environmentMatches, Bool.and_eq_true, beq_iff_eq] at hmatch
    rw [← hbroker, ← hmatch.1.1, TradingIntent.environment_of_equiv hequiv, hlive]
  have hwritten := written_of_state hreported.state hpassed.written
  rw [hbroker] at hwritten
  obtain ⟨t, -, hcheckedAt, -⟩ := hpassed.authorization
  refine ⟨t, hreported.entry, hpassed.parsed, hequiv, ⟨token, htoken, ?_⟩, hreturned,
    ⟨hpassed.passed.1, List.all_eq_true.mp hpassed.passed.2⟩, ?_, hwritten, hcheckedAt⟩
  · refine dryDecided_later hnumbered ?_ hdecided
    rw [hfirst]
    exact suffix_after
  · rw [hpassed.checks, hbroker, henvironment]
    rfl

/-- The report behind the receipt of an order that is handed to the connector. -/
theorem rehearsed_of_entering (hhost : host.Lawful) (h : (dep.system host).Reachable cfg)
    (hsecret : dep.SharesSecret secret) (hsafe : Unforgeable secret cfg.log)
    (hapart : Collisionless cfg.log)
    (hlog : cfg.log = newer ++ .did c (.enterConnector intent) () :: older)
    (hentering : Entering dep older c p approval authorization intent startedAt s)
    (hcanary : (dep.broker p).canaryOrder intent = true) :
    ∃ t c' q approval' rehearsed report,
      Rehearsed dep older intent t c' q approval' rehearsed report ∧
      valueString (property authorization "checkedAt") = host.toISOString t := by
  have hnumbered := (Discipline.accounted_reachable (dep.followed host) h).numbered
  obtain ⟨later, earlier, hstart⟩ := start_of_entry hentering.entry
  have hlog' : cfg.log = (newer ++ .did c (.enterConnector intent) () :: later) ++
      .started c p (.execute approval authorization) :: earlier := by
    rw [hlog, hstart, List.append_assoc, List.cons_append]
  have hsuffix : earlier <:+ cfg.log := by
    rw [hlog']
    exact suffix_after
  have hstarted : .started c p (.execute approval authorization) ∈ cfg.log := by
    rw [hlog']
    exact List.mem_append_right _ List.mem_cons_self
  have hparsed := hentering.parsed
  have hmatches := hentering.may.receipt (by rw [hentering.broker]; exact hcanary)
  rw [hentering.broker, (hsecret p).1] at hmatches
  dsimp only at hmatches
  obtain ⟨hgiven, token, htoken, hbytes⟩ := receipt_of_matches hmatches
  have hpresented : token ∈ presented
      (.started c p (.execute approval authorization) : Event (signature host)) := by
    simp [presented, htoken, textValue?]
  have hissuer := issuer h hsecret hsafe hlog' hpresented
    (mem_messages_checked hstarted (by simp [checked, hparsed, hgiven])) hbytes
  cases hissuer with
  | decision returned signed same => exact absurd same dryRunMessage_ne
  | @report c' q report approval' s' rehearsed returned reported same =>
  obtain ⟨hhash, hchecked⟩ := dryRunMessage_inj hhost same
  have hparsed' := reported.passed.parsed
  rw [reported.broker.2] at hparsed'
  have hequiv : Json.Equiv intent.value rehearsed.value := by
    have hstarted' := hsuffix.subset (started_of_entryOf reported.entry)
    exact equiv_of_stableStringify (hapart _ (mem_digested hstarted (by simp [digested, hparsed]))
      _ (mem_digested hstarted' (by simp [digested, hparsed'])) hhash)
  have hlive : intent.environment = .canaryLive := by
    have hadmitted := admitted_of_refusal hentering.may.decision
    rw [hentering.broker] at hadmitted
    simp only [ExecutionBroker.canaryOrder, Bool.and_eq_true, beq_iff_eq] at hcanary
    exact hadmitted.environment.trans hcanary.1
  obtain ⟨t, hrehearsed⟩ :=
    rehearsed_of_reported h hsecret hsafe hsuffix returned reported hequiv hlive
  rw [hlog, ← List.singleton_append, ← List.append_assoc] at hnumbered
  refine ⟨t, c', q, approval', rehearsed, report, ?_, hchecked.trans hrehearsed.checkedAt⟩
  refine rehearsed_later hnumbered.older ?_ hrehearsed
  rw [hstart]
  exact suffix_after

/-- A receipt that was recent when a call read the clock last. -/
theorem recent_of_reading (hhost : host.Lawful) (hdates : host.WritesDates)
    {broker : ExecutionBroker} {checkedAt : Option Json} {t now : Instant}
    (hchecked : valueString checkedAt = host.toISOString t)
    (h : dryRunIsFresh host (orEmpty checkedAt) (host.toISOString now)
      broker.decisionMaxAgeMs = true) : Recent broker t now := by
  rw [valueString_orEmpty (by rw [hchecked]; exact (hdates t).1)
    (by rw [hchecked]; exact (hdates t).2)] at h
  exact recent_of_fresh hhost hchecked h

/-- A callback is run for a call that has handed its intent to the connector. -/
theorem parent_entered (h : (dep.system host).Reachable cfg) {parent : Nat}
    {request : Request host}
    (hlog : cfg.log = newer ++ .started c p (.callback parent request) :: older) :
    entryOf parent cfg.log = some (p, .execute request.approval request.dryRunAuthorization) ∧
      ∃ before, .did parent (.enterConnector request.intent) () :: before <:+ older := by
  have henabled : Deployment.enabled older p (.callback parent request) = true :=
    Discipline.enabled_of_started (dep.followed host) h hlog
  simp only [Deployment.enabled, Bool.and_eq_true, List.any_eq_true] at henabled
  obtain ⟨-, ⟨begun, hbegun, hparent⟩, given, hgiven, hcallback⟩ := henabled
  constructor
  · cases begun with
    | did | returned | crashed | outside => cases hparent
    | started c' q entry =>
    cases entry with
    | dryRun | evaluate | callback => cases hparent
    | execute approval authorization =>
    simp only [Deployment.isParent, Bool.and_eq_true, beq_iff_eq] at hparent
    obtain ⟨⟨⟨rfl, rfl⟩, rfl⟩, rfl⟩ := hparent
    have hnumbered := (Discipline.accounted_reachable (dep.followed host) h).numbered
    obtain ⟨recent, first, hfirst⟩ := List.append_of_mem hbegun
    rw [hlog, hfirst, ← List.cons_append, ← List.append_assoc] at hnumbered ⊢
    exact Discipline.entryOf_of_started hnumbered
  · cases given with
    | started | returned | crashed | outside => cases hcallback
    | did c' op a =>
    cases op
    case enterConnector intent =>
      simp only [Deployment.gaveCallback, Bool.and_eq_true, beq_iff_eq] at hcallback
      obtain ⟨rfl, rfl⟩ := hcallback
      obtain ⟨later, before, rfl⟩ := List.append_of_mem hgiven
      exact ⟨before, List.suffix_append ..⟩
    all_goals cases hcallback

/-- A callback that returns belongs to a call that has handed its intent to the connector. -/
theorem entering_of_calledBack (h : (dep.system host).Reachable cfg) {parent : Nat}
    {request : Request host} {r : (signature host).Ret}
    (hlog : cfg.log = newer ++ .returned c r :: older)
    (hentry : entryOf c older = some (p, .callback parent request)) :
    ∃ later before startedAt s,
      cfg.log = later ++ .did parent (.enterConnector request.intent) () :: before ∧
      .did parent (.enterConnector request.intent) () :: before <:+ older ∧
      Entering dep before parent p request.approval request.dryRunAuthorization request.intent
        startedAt s := by
  have hnumbered := (Discipline.accounted_reachable (dep.followed host) h).numbered
  obtain ⟨recent, first, hfirst⟩ := start_of_entry hentry
  have hstart : cfg.log = (newer ++ .returned c r :: recent) ++
      .started c p (.callback parent request) :: first := by
    rw [hlog, hfirst, List.append_assoc, List.cons_append]
  obtain ⟨hparent, before, hbefore⟩ := parent_entered h hstart
  have holder : .did parent (.enterConnector request.intent) () :: before <:+ older := by
    rw [hfirst]
    exact hbefore.trans suffix_after
  obtain ⟨later, hgave⟩ : .did parent (.enterConnector request.intent) () :: before <:+ cfg.log := by
    rw [hlog]
    exact holder.trans suffix_after
  obtain ⟨p', approval, authorization, startedAt, s, hentering⟩ := entering h hgave.symm
  rw [← hgave] at hparent hnumbered
  cases hparent.symm.trans (entryOf_append hnumbered (entryOf_cons hnumbered.older
    hentering.entry))
  exact ⟨later, before, startedAt, s, hgave.symm, holder, hentering⟩

/-- A callback that lets the order pass has seen a fresh receipt with its own last reading. -/
theorem fresh_of_calledBack (h : (dep.system host).Reachable cfg) {parent : Nat}
    {request : Request host} (hlog : cfg.log = newer ++ .returned c (.calledBack (.ok ())) :: older)
    (hentry : entryOf c older = some (p, .callback parent request))
    (hcanary : (dep.broker p).canaryOrder request.intent = true) :
    ∃ now, lastReading c older = some now ∧
      dryRunIsFresh host (orEmpty request.dryRunCheckedAt) (host.toISOString now)
        (dep.broker p).decisionMaxAgeMs = true := by
  have hkept := (Discipline.sound_reachable (dep.followed host) h).kept
  rw [hlog] at hkept
  obtain ⟨⟨p', progress⟩, hstate, hfinal⟩ := Discipline.kept_returned hkept
  obtain ⟨entry, hentry', hserves⟩ := Deployment.serves_of_state hkept.older.2 hstate
  cases hentry.symm.trans hentry'
  cases progress with
  | executing | rehearsing | appraising => exact False.elim hfinal
  | checking s =>
  obtain ⟨hbroker, rfl⟩ := hserves
  obtain ⟨now, hclock, hfresh⟩ := hfinal (by rw [hbroker]; exact hcanary)
  rw [hbroker] at hfresh
  refine ⟨now, ?_, hfresh⟩
  rw [lastReading_eq hkept.older.2 hstate rfl, hclock]

end

end Canary

open Canary Authority

/-- No order of a live canary gets past its gate without a recent dry run. -/
structure CanaryGated (dep : Deployment) (log : History host) : Prop where
  entered : ∀ (newer older : History host) c p entry (intent : TradingIntent host),
    log = newer ++ .did c (.enterConnector intent) () :: older →
    entryOf c older = some (p, entry) → (dep.broker p).canaryOrder intent = true →
    ∃ checkedAt now c' q approval rehearsed report,
      Rehearsed dep older intent checkedAt c' q approval rehearsed report ∧
      lastReading c older = some now ∧ Recent (dep.broker p) checkedAt now
  calledBack : ∀ (newer older : History host) c p parent (request : Request host),
    log = newer ++ .returned c (.calledBack (.ok ())) :: older →
    entryOf c older = some (p, .callback parent request) →
    (dep.broker p).canaryOrder request.intent = true →
    ∃ checkedAt now c' q approval rehearsed report,
      Rehearsed dep older request.intent checkedAt c' q approval rehearsed report ∧
      lastReading c older = some now ∧ Recent (dep.broker p) checkedAt now

theorem canary_gated (hhost : host.Lawful) (hdates : host.WritesDates)
    (h : (dep.system host).Reachable cfg) {secret : String} (hsecret : dep.SharesSecret secret)
    (hsafe : Unforgeable secret cfg.log) (hapart : Collisionless cfg.log) :
    CanaryGated dep cfg.log where
  entered newer older c p entry intent hlog hentry hcanary := by
    obtain ⟨p', approval, authorization, startedAt, s, hentering⟩ := entering h hlog
    cases hentry.symm.trans hentering.entry
    obtain ⟨t, c', q, approval', rehearsed, report, hrehearsed, hchecked⟩ :=
      rehearsed_of_entering hhost h hsecret hsafe hapart hlog hentering hcanary
    obtain ⟨now, hclock, hfresh⟩ :=
      hentering.may.fresh (by rw [hentering.broker]; exact hcanary)
    rw [hentering.broker] at hfresh
    have hkept := (Discipline.sound_reachable (dep.followed host) h).kept
    rw [hlog] at hkept
    refine ⟨t, now, c', q, approval', rehearsed, report, hrehearsed, ?_,
      recent_of_reading hhost hdates hchecked hfresh⟩
    rw [lastReading_eq hkept.older.2 hentering.state rfl, hclock]
  calledBack newer older c p parent request hlog hentry hcanary := by
    obtain ⟨later, before, startedAt, s, hgave, hbefore, hentering⟩ :=
      entering_of_calledBack h hlog hentry
    obtain ⟨t, c', q, approval', rehearsed, report, hrehearsed, hchecked⟩ :=
      rehearsed_of_entering hhost h hsecret hsafe hapart hgave hentering hcanary
    obtain ⟨now, hclock, hfresh⟩ := fresh_of_calledBack h hlog hentry hcanary
    have hnumbered := (Discipline.accounted_reachable (dep.followed host) h).numbered
    rw [hlog] at hnumbered
    exact ⟨t, now, c', q, approval', rehearsed, report,
      rehearsed_later hnumbered.older.tail ((List.suffix_cons ..).trans hbefore) hrehearsed, hclock,
      recent_of_reading hhost hdates hchecked hfresh⟩

def onesDigest : String :=
  "1111111111111111111111111111111111111111111111111111111111111111"

def twosDigest : String :=
  "2222222222222222222222222222222222222222222222222222222222222222"

/-- A host whose codes tell messages apart by their third letters. It sorts the mark of a
dry run before all other keys. -/
abbrev letterHost : Host :=
  { plainHost (fun _ => zeroDigest) fun _ text =>
      if text.toByteArray.data.toList.getD 2 0 = 111 then onesDigest
      else if text.toByteArray.data.toList.getD 2 0 = 100 then twosDigest
      else zeroDigest with
    localeCompare := fun a b => a == "dryRun" || b != "dryRun" }

theorem letterHost_lawful : letterHost.Lawful := by
  have hcode : ∀ n : UInt8, isHexDigest
      (if n = 111 then onesDigest else if n = 100 then twosDigest else zeroDigest) = true := by
    intro n
    split_ifs <;> decide
  have hplain : (plainHost (fun _ => zeroDigest) letterHost.hmacSha256).Lawful :=
    plainHost_lawful (fun _ => by decide) fun _ _ => hcode _
  exact ⟨hplain.sha256_hex, hplain.hmacSha256_hex, hplain.dateParse_toISOString⟩

theorem letterHost_writesDates : letterHost.WritesDates := by
  intro t
  have htext : ∀ word : String, letterHost.toISOString t = word →
      (if 0 ≤ t.ms then 'p' else 'n') :: List.replicate t.ms.natAbs '0' = word.toList := by
    rintro word rfl
    exact (String.toList_ofList ..).symm
  have hwords : "undefined".toList = ['u', 'n', 'd', 'e', 'f', 'i', 'n', 'e', 'd'] ∧
      "null".toList = ['n', 'u', 'l', 'l'] := by decide
  constructor
  · intro h
    have hlead := htext _ h
    rw [hwords.1] at hlead
    split_ifs at hlead <;> cases hlead
  · intro h
    have hsecond := htext _ h
    rw [hwords.2] at hsecond
    cases hms : t.ms.natAbs <;> simp [hms, List.replicate] at hsecond

theorem canarySecret_accepted :
    assertDecisionSecret .canaryLive "0123456789012345678901234567890123456789" = true := by
  decide

theorem noMaxAge_accepted : ∀ maxAge ∈ (none : Option ℚ), 0 < maxAge := by
  simp

def canaryDeployment : Deployment where
  broker _ := {
    environment := .canaryLive
    canaryLiveEnabled := true
    decisionVerificationSecret := "0123456789012345678901234567890123456789"
    decisionMaxAgeMs := none
    capabilities := ⟨true, some true⟩
    secretAccepted := canarySecret_accepted
    maxAgeAccepted := noMaxAge_accepted }
  service _ := {
    environment := .canaryLive
    decisionSigningSecret := "0123456789012345678901234567890123456789"
    risk := .anything
    secretAccepted := canarySecret_accepted }
  store := .memory

def spotOrder : TradingIntent letterHost where
  value := .record [
    ("intentId", some (.str "i")),
    ("principal", some (.str "p")),
    ("action", some (.str "cex.place_order")),
    ("resource", some (.str "cex:binance:a:B")),
    ("environment", some (.str "canary_live")),
    ("requestedAt", some (.str "t")),
    ("idempotencyKey", some (.str "k")),
    ("rationale", some (.str "x")),
    ("evidence", some (.arr [.str "e"])),
    ("exchange", some (.str "binance")),
    ("account", some (.str "a")),
    ("accountMode", some (.str "spot")),
    ("symbol", some (.str "B")),
    ("side", some (.str "buy")),
    ("orderType", some (.str "limit")),
    ("quantity", some (.num (.ofNat 1))),
    ("price", some (.num (.ofNat 5))),
    ("maxNotionalUsd", some (.num (.ofNat 5))),
    ("maxSlippageBps", some (.num (.ofNat 5)))]
  valid := by decide +kernel

def approvalOf (token correlationId : String) (dryRun : Option Json) : Json :=
  .record [
    ("intent", some spotOrder.value),
    ("intentId", some (.str "i")),
    ("outcome", some (.str "allow")),
    ("correlationId", some (.str correlationId)),
    ("decidedAt", some (.str "p")),
    ("decisionToken", some (.str token)),
    ("dryRun", dryRun)]

def orderRequest : Request letterHost where
  approval := approvalOf zeroDigest "c" none
  dryRunAuthorization := some (.record [
    ("checkedAt", some (.str "p")),
    ("token", some (.str onesDigest))])
  intent := spotOrder
  now := "p"

def unstopped (c : Nat) : List (Step (signature letterHost)) :=
  List.replicate 4 (told c (.bool false))

def revalidated (c : Nat) : Step (signature letterHost) :=
  told c (.record [("passed", some (.bool true))])

def allowed (c : Nat) : List (Step (signature letterHost)) :=
  [told c (.bool true), told c simulationVerdict] ++ quietly c 1 ++ [told c simulationRisk] ++
    quietly c 1 ++ [told c permission]

/-- An order is rehearsed with the service and the broker, decided on and executed, up to
the callback before its side effect. -/
def rehearsedRun : List (Step (signature letterHost)) :=
  [.start 0 (.evaluate (some spotOrder.value) { correlationId := some "d", dryRun := true })] ++
    quietly 0 2 ++ allowed 0 ++ quietly 0 3 ++ [.finish 0] ++
  [.start 0 (.evaluate (some spotOrder.value) { correlationId := some "c" })] ++
    quietly 1 4 ++ allowed 1 ++ quietly 1 4 ++ [.finish 1] ++
  [.start 0 (.dryRun (approvalOf twosDigest "d" (some (.bool true))))] ++
    quietly 2 1 ++ unstopped 2 ++ quietly 2 3 ++ [revalidated 2] ++ unstopped 2 ++ quietly 2 2 ++
    [.finish 2] ++
  [.start 0 (.execute orderRequest.approval orderRequest.dryRunAuthorization)] ++
    quietly 3 1 ++ unstopped 3 ++ quietly 3 5 ++ unstopped 3 ++ [revalidated 3] ++ quietly 3 1 ++
    unstopped 3 ++ quietly 3 2 ++
  [.start 0 (.callback 3 orderRequest)] ++ unstopped 4 ++ quietly 4 1 ++ [.finish 4]

def canaryRun : Config (signature letterHost) :=
  (canaryDeployment.system letterHost).exec (Machine.boot (World.empty letterHost)) rehearsedRun

def orderMessage (correlationId : String) (dryRun : Bool) : String :=
  decisionTokenMessage letterHost spotOrder.value (some (.str "allow"))
    (some (.str correlationId)) (some (.str "p")) none dryRun

def reportMessage : String := dryRunMessage letterHost spotOrder "p"

def canaryMessages : List String := [
  orderMessage "c" false, reportMessage, reportMessage, orderMessage "d" true,
  orderMessage "c" false, orderMessage "d" true]

set_option maxRecDepth 8000 in
theorem canaryRun_texts :
    (messages canaryRun.log, canaryRun.log.flatMap digested) =
      (canaryMessages, [stableStringify spotOrder.value, stableStringify spotOrder.value]) := by
  with_unfolding_all rfl

def canarySecret : String := "0123456789012345678901234567890123456789"

theorem canary_codes :
    letterHost.hmacSha256 canarySecret (orderMessage "c" false) = zeroDigest ∧
      letterHost.hmacSha256 canarySecret (orderMessage "d" true) = twosDigest ∧
      letterHost.hmacSha256 canarySecret reportMessage = onesDigest := by
  decide +kernel

def callsBack (c : Nat) : Event (signature host) → Bool
  | .returned c' (.calledBack (.ok ())) => c' == c
  | _ => false

theorem unforgeable_of_spoken {secret : String} {log : History host} {spoken : List String}
    (hspoken : messages log = spoken)
    (hinjective : ∀ message ∈ spoken, ∀ other ∈ spoken,
      host.hmacSha256 secret message = host.hmacSha256 secret other → message = other)
    (hunforged : decide (Unforged secret spoken log) = true) : Unforgeable secret log := by
  subst hspoken
  exact ⟨hinjective, of_decide_eq_true hunforged⟩

theorem canary_gated_rehearsed :
    canaryRun.log.any (submits 3 spotOrder) = true ∧ canaryRun.log.any (callsBack 4) = true ∧
      CanaryGated canaryDeployment canaryRun.log := by
  obtain ⟨hmessages, htexts⟩ := Prod.mk.inj canaryRun_texts
  obtain ⟨hruns, hunforged⟩ :
      (canaryRun.log.any (submits 3 spotOrder) = true ∧
        canaryRun.log.any (callsBack 4) = true) ∧
      decide (Unforged canarySecret canaryMessages canaryRun.log) = true := by decide +kernel
  have hsafe : Unforgeable canarySecret canaryRun.log := by
    refine unforgeable_of_spoken hmessages ?_ hunforged
    have hcodes : zeroDigest ≠ twosDigest ∧ zeroDigest ≠ onesDigest ∧ twosDigest ≠ onesDigest := by
      decide +kernel
    obtain ⟨horder, hdry, hreport⟩ := canary_codes
    intro message hmessage other hother hsame
    simp only [canaryMessages, List.mem_cons, List.not_mem_nil, or_false] at hmessage hother
    grind
  refine ⟨hruns.1, hruns.2, canary_gated letterHost_lawful letterHost_writesDates
    ((canaryDeployment.system letterHost).reachable_exec (.boot rfl) rehearsedRun)
    (fun _ => ⟨rfl, rfl⟩) hsafe ?_⟩
  rw [Collisionless, htexts]
  intro text htext other hother _
  simp only [List.mem_cons, List.not_mem_nil, or_false, or_self] at htext hother
  rw [htext, hother]

end TradingGuardrails
