import TradingGuardrails.Risk.FailClosed
import TradingGuardrails.System.Backing

/-!
The daily limits of an account over a whole run, when the risk engine is told of all that was
submitted. Every order had room at the moment at which its evaluation read the statistics; so
the orders of a run stay within the limits, up to the rounding of one sum, as long as no other
order of the account was submitted between that reading and the submission.
-/
namespace TradingGuardrails

open Text Interleaving

variable {host : Host} {dep : Deployment} {cfg : Config (signature host)} {limits : RiskLimits}

def orderOf (account : String) : Event (signature host) → Option (TradingIntent host)
  | .did _ (.enterConnector intent) _ =>
      if intent.action == .placeOrder && intent.account == account then some intent else none
  | _ => none

def ordersIn (account : String) (log : History host) : List (TradingIntent host) :=
  log.filterMap (orderOf account)

def totalNotional (account : String) (log : History host) : ℚ :=
  ((ordersIn account log).map TradingIntent.maxNotionalUsd).sum

structure Room (limits : RiskLimits) (intent : TradingIntent host) (log : History host) :
    Prop where
  notional :
    Nearly (totalNotional intent.account log + intent.maxNotionalUsd) limits.maxDailyNotionalUsd
  orders : Nearly ((ordersIn intent.account log).length + 1) limits.maxOrdersPerDay

def EvaluatesFor (log : History host) (c : Nat) (intent : TradingIntent host) : Prop :=
  ∃ p rawIntent options, ∃ evaluated : TradingIntent host,
    entryOf c log = some (p, .evaluate rawIntent options) ∧ options.dryRun = false ∧
    TradingIntent.safeParse host rawIntent = some evaluated ∧
    Json.Equiv evaluated.value intent.value

/-- Each reading of the statistics covers the orders of its account so far. -/
def Reported (log : History host) : Prop :=
  ∀ (newer earlier : History host) c account today (stats : DailyStats),
    log = newer ++ .did c (.getDailyStats account today) (.ok (some stats)) :: earlier →
    (∀ total, stats.totalNotionalUsd = .finite total →
        totalNotional account earlier ≤ total.value) ∧
      ∀ count, stats.orderCount = .finite count →
        ((ordersIn account earlier).length : ℚ) ≤ count.value

/-- No order of its account was submitted between the readings of the statistics for an
order and its submission. -/
def Undisturbed (log : History host) : Prop :=
  ∀ (newer between earlier : History host) c c' today stats (intent : TradingIntent host),
    log = newer ++ .did c (.enterConnector intent) () ::
      (between ++ .did c' (.getDailyStats intent.account today) (.ok stats) :: earlier) →
    intent.action = .placeOrder → EvaluatesFor log c' intent →
    ordersIn intent.account between = []

namespace DailyLimits

theorem ordersIn_append (account : String) (newer older : History host) :
    ordersIn account (newer ++ older) = ordersIn account newer ++ ordersIn account older :=
  List.filterMap_append

theorem ordersIn_entered {intent : TradingIntent host} (horder : intent.action = .placeOrder)
    (c : Nat) (log : History host) :
    ordersIn intent.account (.did c (.enterConnector intent) () :: log) =
      intent :: ordersIn intent.account log := by
  simp [ordersIn, orderOf, horder]

theorem event_of_orderOf {account : String} {event : Event (signature host)}
    {intent : TradingIntent host} (h : orderOf account event = some intent) :
    ∃ c, event = .did c (.enterConnector intent) () ∧ intent.action = .placeOrder ∧
      intent.account = account := by
  unfold orderOf at h
  split at h
  · split_ifs at h with hmatches
    cases h
    rw [Bool.and_eq_true, beq_iff_eq, beq_iff_eq] at hmatches
    exact ⟨_, rfl, hmatches.1, hmatches.2⟩
  · cases h

/-- The newest order of an account. -/
theorem newest_order {account : String} {log : History host} (h : ordersIn account log ≠ []) :
    ∃ newer older c intent, log = newer ++ .did c (.enterConnector intent) () :: older ∧
      intent.action = .placeOrder ∧ intent.account = account ∧ ordersIn account newer = [] := by
  induction log with
  | nil => exact absurd rfl h
  | cons event log ih =>
      cases horder : orderOf account event with
      | some intent =>
          obtain ⟨c, rfl, haction, haccount⟩ := event_of_orderOf horder
          exact ⟨[], log, c, intent, rfl, haction, haccount, rfl⟩
      | none =>
          have hcons : ∀ log : History host,
              ordersIn account (event :: log) = ordersIn account log := by
            intro log
            simp only [ordersIn, List.filterMap_cons, horder]
          rw [hcons] at h
          obtain ⟨newer, older, c, intent, rfl, haction, haccount, hnewer⟩ := ih h
          exact ⟨event :: newer, older, c, intent, rfl, haction, haccount,
            (hcons newer).trans hnewer⟩

theorem submitted_of_act {x : Outside} {w w' : World host} (h : x.act w = some w') :
    w'.submitted = w.submitted := by
  cases x with
  | createApproval params id now timeout =>
      simp only [Outside.act] at h
      split_ifs at h
      cases h
      rfl
  | _ =>
      cases h
      rfl

/-- The world counts exactly the orders of the log. -/
theorem ordersOf_reachable (h : (dep.system host).Reachable cfg) (account : String) :
    cfg.world.ordersOf account = ordersIn account cfg.log := by
  refine @Discipline.invariant _ _ _ (dep.followed host) (fun cfg =>
    cfg.world.ordersOf account = ordersIn account cfg.log) ?_ ?_ _ h
  · rintro w rfl
    rfl
  intro cfg cfg' _ _ hinv hmove
  cases hmove with
  | start | finish | crash => exact hinv
  | @act c call st op next i a w live program state allowed turn performed =>
      by_cases hop : Deployment.touches op = .submitted
      · cases op with
        | enterConnector intent =>
            cases performed
            simp only [World.ordersOf, ordersIn, List.filter_cons, List.filterMap_cons, orderOf]
              at hinv ⊢
            split_ifs
            · exact congrArg (intent :: ·) hinv
            · exact hinv
        | _ => cases hop
      · have hsubmitted := (dep.perform_frame performed).submitted hop
        have hnone : orderOf account (.did c op a : Event (signature host)) = none := by
          cases op with
          | enterConnector intent => exact absurd rfl hop
          | _ => rfl
        simp only [World.ordersOf, hsubmitted, ordersIn, List.filterMap_cons, hnone] at hinv ⊢
        exact hinv
  | @outside x w rests acted =>
      simp only [World.ordersOf, submitted_of_act acted] at hinv ⊢
      exact hinv

/-- A provider that counts the submitted orders reports them. -/
theorem reported_of_implemented (hstats : dep.stats = .implemented)
    (h : (dep.system host).Reachable cfg) : Reported cfg.log := by
  intro newer earlier c account today stats hlog
  obtain ⟨before, after, p, entry, progress, hpast⟩ := Deployment.past_reachable h hlog
  obtain ⟨i, hperformed⟩ := hpast.performed
  simp only [Deployment.perform, Deployment.getDailyStats, hstats, Option.some.injEq,
    Prod.mk.injEq] at hperformed
  have hanswer := hperformed.1
  unfold Input.access at hanswer
  split at hanswer
  · cases hanswer
  · have horders := ordersOf_reachable hpast.reachable account
    rw [hpast.log] at horders
    obtain rfl := Option.some.inj (Except.ok.inj hanswer)
    simp only [World.statsOf, horders]
    constructor
    · intro total htotal
      exact Number.le_of_roundUp htotal
    · intro count hcount
      exact Number.le_of_roundUp hcount

/-- A passed risk result has passed each of its checks. -/
theorem check_passed {intentId evaluatedAt : String} {checks : List RiskCheckResult}
    {stats : Option DailyStats} (h : ∀ check ∈ DecisionSchema.elements
      (RiskEngine.riskResult host intentId checks stats evaluatedAt) "checks",
      check.field? "status" = some (.str "pass")) {result : RiskCheckResult}
    (hresult : result ∈ checks) : result.Pass := by
  have hstatus := h (result.toJson host) (by
    simp only [DecisionSchema.elements, RiskEngine.riskResult]
    exact List.mem_map_of_mem hresult)
  have htext : result.status.text = "pass" := by
    simpa [RiskCheckResult.toJson] using hstatus
  unfold RiskCheckResult.Pass
  cases hcase : result.status with
  | pass => rfl
  | fail | unavailable =>
      rw [hcase] at htext
      exact absurd htext (by decide)

/-- An evaluation of an order that was not denied had room for it. -/
theorem room_of_founded (hreported : Reported cfg.log) {service : GuardrailService}
    {engine : RiskEngine} (hengine : service.risk = .engine engine) {c : Nat}
    {e : Evaluation host} {a : Assessment} (hfounded : Founded service cfg.log c e a)
    (horder : e.intent.action = .placeOrder) :
    ∃ newer earlier today stats, cfg.log =
        newer ++ .did c (.getDailyStats e.intent.account today) (.ok stats) :: earlier ∧
      Room engine.limits e.intent earlier := by
  have hrisk := hfounded.reported
  unfold RiskReported at hrisk
  rw [hengine] at hrisk
  obtain ⟨today, facts, nowMs, evaluatedAt, hread, hresult⟩ := hrisk
  obtain ⟨stats, hmem, hfacts⟩ := hread horder
  obtain ⟨newer, earlier, hlog⟩ := List.append_of_mem hmem
  have hpassed := hfounded.passed
  rw [hresult] at hpassed
  have hnotional : (checkDailyNotional e.intent engine.limits facts.dailyStats).Pass :=
    check_passed hpassed (by simp [RiskEngine.checks])
  have hcount : (checkDailyOrderCount e.intent engine.limits facts.dailyStats).Pass :=
    check_passed hpassed (by simp [RiskEngine.checks])
  obtain ⟨reported, hstats, total, htotal, -, hroom⟩ := (dailyNotional_pass horder).mp hnotional
  obtain ⟨reported', hstats', count, hcounted, -, hplace⟩ :=
    (dailyOrderCount_pass horder).mp hcount
  have hlimit : 0 ≤ engine.limits.maxDailyNotionalUsd :=
    engine.accepted _ (by simp [RiskLimits.values])
  have hlimit' : 0 ≤ engine.limits.maxOrdersPerDay :=
    engine.accepted _ (by simp [RiskLimits.values])
  cases hstats.symm.trans hstats'
  obtain ⟨rfl, -, -⟩ := RiskEngine.dailyStatsFor_eq_some.mp (hfacts.symm.trans hstats)
  obtain ⟨hcoversTotal, hcoversCount⟩ := hreported _ _ _ _ _ _ hlog
  have hle := hcoversTotal total htotal
  have hle' := hcoversCount count hcounted
  refine ⟨newer, earlier, today, _, hlog, ?_, ?_⟩
  · exact AtMost.nearly (Number.not_above_of_le (by linarith) hlimit hroom) hlimit
  · exact AtMost.nearly (Number.not_above_of_le (by linarith) hlimit' hplace) hlimit'

theorem number_of_equiv {i j : TradingIntent host} (h : Json.Equiv i.value j.value)
    (key : String) : j.number key = i.number key := by
  unfold TradingIntent.number
  cases hi : i.value.field? key with
  | none => rw [Check.field_none h hi]
  | some x =>
      obtain ⟨y, hj, hxy⟩ := Json.equiv_field h j.keys_nodup hi
      rw [hj]
      cases x with
      | null | bool | num | str =>
          simp only [Json.Equiv] at hxy
          rw [hxy]
      | arr xs =>
          obtain ⟨ys, rfl, -⟩ := hxy
          rfl
      | obj fs =>
          obtain ⟨gs, rfl, -⟩ := hxy
          rfl

theorem account_of_equiv {i j : TradingIntent host} (h : Json.Equiv i.value j.value) :
    j.account = i.account :=
  textField_equiv h j.keys_nodup "account"

/-- Room for an intent is room for each writing of it. -/
theorem room_of_equiv {i j : TradingIntent host} (h : Json.Equiv i.value j.value)
    {log : History host} (hroom : Room limits i log) : Room limits j log := by
  obtain ⟨hnotional, horders⟩ := hroom
  have hnumber : j.maxNotionalUsd = i.maxNotionalUsd := number_of_equiv h "maxNotionalUsd"
  constructor
  · rw [account_of_equiv h, hnumber]
    exact hnotional
  · rw [account_of_equiv h]
    exact horders

/-- The call that founded a decision evaluated the same intent. -/
theorem evaluatesFor_of_sound {cfg : Config (signature host)} {c p : Nat}
    {rawIntent : Option Json} {options : EvaluationOptions} {decision : GuardrailDecision}
    {intent : TradingIntent host} {c' : Nat} {e : Evaluation host} {a : Assessment}
    (hdry : options.dryRun = false)
    (hsound : DecisionSound dep cfg c p rawIntent options decision intent c' e a) :
    Json.Equiv e.intent.value intent.value ∧ EvaluatesFor cfg.log c' intent := by
  rcases hsound.source with ⟨rfl, hsame⟩ | ⟨-, hrepeated⟩
  · rw [hsame]
    exact ⟨Json.equiv_refl _, p, rawIntent, options, intent, hsound.entry, hdry,
      hsound.acceptable.parsed, Json.equiv_refl _⟩
  · obtain ⟨rawIntent', options', hentry, hdry', hparsed, hpayload⟩ := hrepeated.entry
    have hequiv := equiv_of_stableJson host hpayload
    rw [TradingIntent.safeParse_value hparsed,
      TradingIntent.safeParse_value hsound.acceptable.parsed] at hequiv
    exact ⟨hequiv, p, rawIntent', options', e.intent, hentry, hdry', hparsed, hequiv⟩

/-- Every order had room when the statistics were read for it. -/
theorem room_of_entered (hhost : host.Lawful) (h : (dep.system host).Reachable cfg)
    {secret : String} (hsecret : dep.SharesSecret secret) (hsafe : Unforgeable secret cfg.log)
    (hreported : Reported cfg.log)
    (hlimits : ∀ p, ∃ engine, (dep.service p).risk = .engine engine ∧ engine.limits = limits)
    {newer older : History host} {c : Nat} {intent : TradingIntent host}
    (hlog : cfg.log = newer ++ .did c (.enterConnector intent) () :: older)
    (horder : intent.action = .placeOrder) :
    ∃ between earlier c' today stats,
      older = between ++ .did c' (.getDailyStats intent.account today) (.ok stats) :: earlier ∧
      EvaluatesFor older c' intent ∧ Room limits intent earlier := by
  obtain ⟨p, approval, authorization, decision, -, hauthorized⟩ :=
    Backing.authorized_of_entered hhost h hsecret hsafe hlog
  obtain ⟨moment, -, -, hmoment, rfl, -, -⟩ := h.past hlog
  obtain ⟨evaluated, c', e, a, hevaluated⟩ := Backing.evaluated_of_authorized hmoment hauthorized
  obtain ⟨c₁, p₁, rawIntent, options, hdry, -, hsound⟩ := hevaluated.sound
  obtain ⟨hequiv, hfor⟩ := evaluatesFor_of_sound hdry hsound
  have hsame := Json.equiv_symm hevaluated.same
  have hback : Json.Equiv e.intent.value intent.value := Json.equiv_trans hequiv hsame
  obtain ⟨engine, hengine, rfl⟩ := hlimits p₁
  have hreported' : Reported moment.log := by
    intro newer' earlier c₂ account today stats hmoment
    refine hreported (newer ++ .did c (.enterConnector intent) () :: newer') earlier c₂ account
      today stats ?_
    rw [hlog, hmoment, List.append_assoc, List.cons_append]
  obtain ⟨between, earlier, today, stats, hread, hroom⟩ :=
    room_of_founded hreported' hengine hsound.founded
      ((TradingIntent.action_of_equiv (Json.equiv_symm hback)).trans horder)
  rw [← account_of_equiv hback] at hread
  refine ⟨between, earlier, c', today, stats, hread, ?_, room_of_equiv hback hroom⟩
  obtain ⟨q, raw, options', evaluated', hentry, hdry', hparsed, hsame'⟩ := hfor
  exact ⟨q, raw, options', evaluated', hentry, hdry', hparsed, Json.equiv_trans hsame' hsame⟩

/-- The newest order of an account had room, so all of its orders stay within the limits. -/
theorem within_of_room {newer between earlier : History host} {c c' : Nat} {today : String}
    {stats : Option DailyStats} {intent : TradingIntent host} (horder : intent.action = .placeOrder)
    (hnewer : ordersIn intent.account newer = []) (hbetween : ordersIn intent.account between = [])
    (hroom : Room limits intent earlier) {log : History host}
    (hlog : log = newer ++ .did c (.enterConnector intent) () ::
      (between ++ .did c' (.getDailyStats intent.account today) (.ok stats) :: earlier)) :
    Nearly (totalNotional intent.account log) limits.maxDailyNotionalUsd ∧
      Nearly (ordersIn intent.account log).length limits.maxOrdersPerDay := by
  have horders : ordersIn intent.account log = intent :: ordersIn intent.account earlier := by
    rw [hlog, ordersIn_append, hnewer, List.nil_append, ordersIn_entered horder, ordersIn_append,
      hbetween, List.nil_append]
    rfl
  have hnotional := hroom.notional
  have hcount := hroom.orders
  constructor
  · rw [totalNotional, horders, List.map_cons, List.sum_cons, add_comm]
    exact hnotional
  · rw [horders, List.length_cons, Nat.cast_add, Nat.cast_one]
    exact hcount

end DailyLimits

theorem daily_limits_hold (hhost : host.Lawful) (h : (dep.system host).Reachable cfg)
    {secret : String} (hsecret : dep.SharesSecret secret) (hsafe : Unforgeable secret cfg.log)
    (hreported : Reported cfg.log)
    (hlimits : ∀ p, ∃ engine, (dep.service p).risk = .engine engine ∧ engine.limits = limits) :
    (∀ newer older c (intent : TradingIntent host),
      cfg.log = newer ++ .did c (.enterConnector intent) () :: older →
      intent.action = .placeOrder → ∃ between earlier c' today stats,
        older = between ++ .did c' (.getDailyStats intent.account today) (.ok stats) :: earlier ∧
        EvaluatesFor older c' intent ∧ Room limits intent earlier) ∧
    (Undisturbed cfg.log → ∀ account,
      Nearly (totalNotional account cfg.log) limits.maxDailyNotionalUsd ∧
      Nearly (ordersIn account cfg.log).length limits.maxOrdersPerDay) := by
  have hrooms := @DailyLimits.room_of_entered _ _ _ _ hhost h _ hsecret hsafe hreported hlimits
  refine ⟨fun newer older c intent hlog horder => hrooms hlog horder, ?_⟩
  intro hundisturbed account
  by_cases hnone : ordersIn account cfg.log = []
  · obtain ⟨engine, -, rfl⟩ := hlimits 0
    have hnotional : 0 ≤ engine.limits.maxDailyNotionalUsd :=
      engine.accepted _ (by simp [RiskLimits.values])
    have hcount : 0 ≤ engine.limits.maxOrdersPerDay :=
      engine.accepted _ (by simp [RiskLimits.values])
    rw [totalNotional, hnone]
    exact ⟨.of_le hnotional, .of_le (by simpa using hcount)⟩
  · obtain ⟨newer, older, c, intent, hlog, horder, rfl, hnewer⟩ :=
      DailyLimits.newest_order hnone
    obtain ⟨between, earlier, c', today, stats, rfl, hfor, hroom⟩ := hrooms hlog horder
    obtain ⟨p, rawIntent, options, evaluated, hentry, hevaluates⟩ := hfor
    have hlog' : cfg.log = (newer ++ [.did c (.enterConnector intent) ()]) ++ _ :=
      hlog.trans (List.append_cons ..)
    have hentry' := Authority.started_older h hlog' hentry
    have hbetween := hundisturbed newer between earlier c c' today stats intent hlog horder
      ⟨p, rawIntent, options, evaluated, hentry', hevaluates⟩
    exact DailyLimits.within_of_room horder hnewer hbetween hroom hlog

def paperOrder : TradingIntent digestHost where
  value := .record [
    ("intentId", some (.str "i")),
    ("principal", some (.str "p")),
    ("action", some (.str "cex.place_order")),
    ("resource", some (.str "cex:binance:a:B")),
    ("environment", some (.str "paper")),
    ("requestedAt", some (.str "t")),
    ("idempotencyKey", some (.str "k")),
    ("rationale", some (.str "x")),
    ("evidence", some (.arr [.str "e"])),
    ("exchange", some (.str "binance")),
    ("account", some (.str "a")),
    ("accountMode", some (.str "spot")),
    ("symbol", some (.str "B")),
    ("side", some (.str "buy")),
    ("orderType", some (.str "limit")),
    ("quantity", some (.num (.ofNat 1))),
    ("price", some (.num (.ofNat 5))),
    ("maxNotionalUsd", some (.num (.ofNat 5))),
    ("maxSlippageBps", some (.num (.ofNat 5)))]
  valid := by decide +kernel

def cappedDeployment : Deployment :=
  { paperDeployment with
    service := fun p => { paperDeployment.service p with risk := .engine canaryEngine }
    stats := .implemented }

def calmMarket : Input :=
  { Input.quiet with
    market := some ⟨"B", .rounded 5, .rounded 0⟩
    portfolio := some ⟨"a", .rounded 0, []⟩
    lastOrder := some none }

def orderExecution : Entry digestHost :=
  .execute
    (.record [
      ("intent", some paperOrder.value),
      ("intentId", some (.str "i")),
      ("outcome", some (.str "allow")),
      ("correlationId", some (.str "c")),
      ("decidedAt", some (.str "p")),
      ("decisionToken", some (.str zeroDigest))])
    none

def orderedSteps : List (Step (signature digestHost)) :=
  .start 0 (.evaluate (some paperOrder.value) { correlationId := some "c" }) ::
    (quietly 0 4 ++ [told 0 (.bool true), told 0 simulationVerdict] ++ quietly 0 1 ++
      List.replicate 7 (.run 0 calmMarket) ++ quietly 0 1 ++ [told 0 permission] ++ quietly 0 4 ++
      [.finish 0, .start 0 orderExecution] ++ quietly 1 3 ++
      List.replicate 4 (told 1 (.bool false)) ++
      [told 1 (.record [("passed", some (.bool true))])] ++ quietly 1 1 ++
      List.replicate 4 (told 1 (.bool false)) ++ quietly 1 1)

def orderedRun : Config (signature digestHost) :=
  (cappedDeployment.system digestHost).exec (Machine.boot (World.empty digestHost)) orderedSteps

theorem orderedRun_messages :
    messages orderedRun.log = List.replicate 2
      (decisionTokenMessage digestHost paperOrder.value (some (.str "allow")) (some (.str "c"))
        (some (.str "p")) none false) := by
  decide +kernel

theorem orderedRun_reachable : (cappedDeployment.system digestHost).Reachable orderedRun :=
  (cappedDeployment.system digestHost).reachable_exec (.boot rfl) orderedSteps

def keepsTo (account : String) : Event (signature host) → Bool
  | .did _ (.enterConnector intent) _ => intent.account == account
  | _ => true

theorem orderedRun_orders : ordersIn "a" orderedRun.log = [paperOrder] ∧
    orderedRun.log.all (keepsTo "a") = true ∧
    Unforged "0123456789012345678901234567890123456789" (messages orderedRun.log)
      orderedRun.log := by
  decide +kernel

/-- A single order is undisturbed. -/
theorem DailyLimits.undisturbed_of_single {account : String} {log : History host}
    (hkeeps : log.all (keepsTo account) = true) (hone : (ordersIn account log).length ≤ 1) :
    Undisturbed log := by
  intro newer between earlier c c' today stats intent hlog horder _
  have haccount := List.all_eq_true.mp hkeeps (.did c (.enterConnector intent) ())
    (hlog ▸ List.mem_append_right _ List.mem_cons_self)
  obtain rfl := beq_iff_eq.mp haccount
  rw [hlog, ordersIn_append, ordersIn_entered horder, ordersIn_append, List.length_append,
    List.length_cons, List.length_append] at hone
  apply List.eq_nil_of_length_eq_zero
  omega

theorem daily_limits_hold_ordered :
    ordersIn "a" orderedRun.log = [paperOrder] ∧ Undisturbed orderedRun.log ∧
      totalNotional "a" orderedRun.log ≤ 50 := by
  obtain ⟨horders, hkeeps, hunforged⟩ := orderedRun_orders
  have hsafe : Unforgeable "0123456789012345678901234567890123456789" orderedRun.log := by
    refine ⟨?_, hunforged⟩
    rw [orderedRun_messages]
    intro message hmessage other hother _
    rw [List.eq_of_mem_replicate hmessage, List.eq_of_mem_replicate hother]
  have hundisturbed : Undisturbed orderedRun.log :=
    DailyLimits.undisturbed_of_single hkeeps (by rw [horders]; exact le_refl 1)
  have hreported := DailyLimits.reported_of_implemented rfl orderedRun_reachable
  obtain ⟨-, hwithin⟩ := daily_limits_hold digestHost_lawful orderedRun_reachable
    (fun _ => ⟨rfl, rfl⟩) hsafe hreported (fun _ => ⟨canaryEngine, rfl, rfl⟩)
  have hwhole : Binary64.Representable (totalNotional "a" orderedRun.log) := by
    have hfive : paperOrder.maxNotionalUsd = (5 : ℤ) := by decide +kernel
    rw [totalNotional, horders, List.map_singleton, List.sum_singleton, hfive]
    exact Binary64.representable_intCast (by norm_num)
  exact ⟨horders, hundisturbed, (hwithin hundisturbed "a").1.2 hwhole⟩

end TradingGuardrails
