import TradingGuardrails.Binance.Connector
import TradingGuardrails.Binance.Decimal
import TradingGuardrails.Interleaving.Trace

/-!
Which orders reach the exchange. The connector starts one at most, in a call that has
revalidated its intent, and its query says what the intent says.
-/
namespace TradingGuardrails

open Text Interleaving

namespace Binance

def PlacesOrder : BinanceOp → Prop
  | .fetch .post _ path _ _ =>
      path = RestClient.spotOrderPath ∨ path = RestClient.futuresOrderPath
  | _ => False

instance : DecidablePred PlacesOrder
  | .fetch .post _ _ _ _ => inferInstanceAs (Decidable (_ ∨ _))
  | .fetch .get _ _ _ _ | .fetch .delete _ _ _ _ | .clientNow | .now | .beforeSideEffect =>
      isFalse fun h => h

theorem not_placesOrder_clientNow : ¬PlacesOrder .clientNow :=
  fun h => h

theorem not_placesOrder_now : ¬PlacesOrder .now :=
  fun h => h

theorem not_placesOrder_get {origin path : String} {query : Params} {signed : Bool} :
    ¬PlacesOrder (.fetch .get origin path query signed) :=
  fun h => h

abbrev Harmless {α : Type} (m : Rest α) : Prop :=
  Routine.Obeys (.only fun op => ¬PlacesOrder op) (fun _ _ _ => True) (fun _ _ _ => True) () () m

section
variable {α β : Type}

theorem Harmless.bind {m : Rest α} {f : α → Rest β} (hm : Harmless m)
    (hf : ∀ a, Harmless (f a)) : Harmless (m >>= f) :=
  Routine.obeys_bind.mpr (hm.mono (fun _ _ a _ => hf a) fun _ _ _ _ => True.intro)

theorem Harmless.tryCatch {m : Rest α} {handler : Thrown → Rest α} (hm : Harmless m)
    (hhandler : ∀ e, Harmless (handler e)) : Harmless (tryCatch m handler) :=
  Routine.obeys_tryCatch.mpr (hm.mono (fun _ _ _ _ => True.intro) fun _ _ e _ => hhandler e)

theorem harmless_pure {a : α} : Harmless (pure a) :=
  True.intro

theorem harmless_throw {e : Thrown} : Harmless (throw e : Rest α) :=
  True.intro

theorem harmless_check {result : Except Thrown α} : Harmless (check result) :=
  RestClient.obeys_check (fun _ _ => True.intro) fun _ _ => True.intro

theorem harmless_act {op : BinanceOp} (h : ¬PlacesOrder op) : Harmless (act op) :=
  Routine.obeys_perform.mpr ⟨h, fun _ => True.intro⟩

theorem Harmless.not_starts {m : Rest α} (hm : Harmless m) {past : Trace BinanceOp BinanceAns}
    {op : BinanceOp} (h : Routine.Starts m () past op) : ¬PlacesOrder op :=
  Program.Obeys.starts hm h

theorem Harmless.trace {m : Rest α} (hm : Harmless m) {trace : Trace BinanceOp BinanceAns} {a : α}
    (h : Routine.Returns m () trace a ()) : ∀ d ∈ trace, ¬PlacesOrder d.1 :=
  Program.Obeys.trace_only hm h

end

section
variable {platform : Platform} {client : RestClient}

theorem harmless_request {method : Method} {path : String} {params : Params} {signed : Bool}
    {origin : String}
    (h : ∀ query signed, ¬PlacesOrder (.fetch method origin path query signed)) :
    Harmless (client.request platform method path params signed origin) := by
  unfold RestClient.request RestClient.send
  split_ifs
  · refine (harmless_act not_placesOrder_clientNow).bind fun _ => ?_
    refine harmless_check.bind fun now => ?_
    exact (harmless_act (h _ _)).bind fun _ => harmless_check
  · exact (harmless_act (h _ _)).bind fun _ => harmless_check

theorem harmless_getPrice {symbol : String} : Harmless (client.getPrice platform symbol) := by
  refine (harmless_act not_placesOrder_clientNow).bind fun _ => harmless_check.bind fun _ => ?_
  refine (harmless_request fun _ _ => not_placesOrder_get).bind fun _ => ?_
  exact harmless_check.bind fun _ => harmless_check

theorem harmless_futuresPositions {symbol : String} :
    Harmless (client.futuresPositions platform symbol) := by
  refine harmless_check.bind fun _ => ?_
  refine (harmless_request fun _ _ => not_placesOrder_get).bind fun _ => ?_
  exact harmless_check.bind fun _ => harmless_check.bind fun _ => harmless_pure

theorem harmless_getFuturesMarginType {account symbol : String} :
    Harmless (client.getFuturesMarginType platform account symbol) := by
  refine harmless_check.bind fun _ => harmless_check.bind fun _ => ?_
  exact harmless_futuresPositions.bind fun _ => harmless_check

theorem harmless_getApiKeyPermissions : Harmless (client.getApiKeyPermissions platform) := by
  unfold RestClient.getApiKeyPermissions
  split_ifs
  · exact harmless_throw
  · exact (harmless_request fun _ _ => not_placesOrder_get).bind fun _ => harmless_check

theorem harmless_orderById {method : Method} (h : method ≠ .post)
    {account symbol orderId : String} :
    Harmless (client.orderById platform method account symbol orderId) := by
  refine harmless_check.bind fun _ => harmless_check.bind fun _ => harmless_check.bind fun _ => ?_
  refine (harmless_request fun _ _ hplaces => ?_).bind fun _ => harmless_check.bind fun _ => ?_
  · cases method with
    | post => exact h rfl
    | get | delete => exact hplaces
  · split_ifs
    · exact harmless_check
    · exact harmless_pure

end

def Ran {α : Type} (m : Rest α) (past : Trace BinanceOp BinanceAns) (a : α) : Prop :=
  ∃ before during after, past = before ++ (during ++ after) ∧ Routine.Returns m () during a ()

theorem ran_of_returns {α : Type} {m : Rest α} {first : Trace BinanceOp BinanceAns} {a : α}
    (h : Routine.Returns m () first a ()) (rest : Trace BinanceOp BinanceAns) :
    Ran m (first ++ rest) a :=
  ⟨[], first, rest, rfl, h⟩

theorem Ran.behind {α : Type} {m : Rest α} {past : Trace BinanceOp BinanceAns} {a : α}
    (h : Ran m past a) (first : Trace BinanceOp BinanceAns) : Ran m (first ++ past) a := by
  obtain ⟨before, during, after, rfl, hreturns⟩ := h
  exact ⟨first ++ before, during, after, (List.append_assoc _ _ _).symm, hreturns⟩

def limitQuery (params : RestClient.OrderRequest) (clientOrderId wire quantity price : String) :
    Params :=
  [("symbol", wire), ("side", params.side.text), ("type", "LIMIT"), ("quantity", quantity),
    ("newOrderRespType", "RESULT"), ("price", price), ("timeInForce", "GTC"),
    ("newClientOrderId", clientOrderId)]

/-- The query of a limit order of an account, in the numbers of its parameters. -/
structure LimitOrder (client : RestClient) (params : RestClient.OrderRequest)
    (clientOrderId wire quantity price : String) (q p : Numeral) : Prop where
  account : params.account = client.account
  symbol : params.symbol ∈ client.allowedSymbols
  wire : wireSymbol params.symbol = .ok wire
  quantity : params.quantity = some q ∧ Plain quantity.toList q.value
  price : params.price = some p ∧ Plain price.toList p.value

theorem decimal_ok {value : Option Numeral} {t : String} (h : decimal value = .ok t) :
    ∃ n, value = some n ∧ Plain t.toList n.value := by
  cases value with
  | none => cases h
  | some n =>
      simp only [decimal] at h
      split_ifs at h with hpos
      cases h
      refine ⟨n, rfl, ?_⟩
      rw [String.toList_ofList]
      exact plain_decimalText hpos

section
variable {platform : Platform} {client : RestClient} {params : RestClient.OrderRequest}

theorem assertAccount_ok {account : String} (h : client.assertAccount account = .ok ()) :
    account = client.account := by
  unfold RestClient.assertAccount at h
  split_ifs at h with heq
  exact not_not.mp heq

theorem assertMode_ok {mode : AccountMode} (h : client.assertMode mode = .ok ()) :
    client.accountMode = mode := by
  unfold RestClient.assertMode at h
  split_ifs at h with heq
  exact not_not.mp heq

theorem symbol_ok {symbol wire : String} (h : client.symbol symbol true = .ok wire) :
    symbol ∈ client.allowedSymbols ∧ wireSymbol symbol = .ok wire := by
  rw [RestClient.symbol, if_pos rfl] at h
  cases hmem : client.allowedSymbols.contains symbol with
  | true =>
      rw [hmem] at h
      exact ⟨List.contains_iff_mem.mp hmem, h⟩
  | false =>
      rw [hmem] at h
      cases h

theorem orderParams_limit {clientOrderId : String} {request : Params}
    (htype : params.type = .limit) (hid : params.clientOrderId = some clientOrderId)
    (h : client.orderParams params = .ok request) : ∃ wire quantity price q p,
      LimitOrder client params clientOrderId wire quantity price q p ∧
      request = limitQuery params clientOrderId wire quantity price := by
  obtain ⟨haccount, h⟩ := seq_eq_ok.mp h
  obtain ⟨wire, hwire, h⟩ := bind_eq_ok.mp h
  obtain ⟨quantity, hquantity, h⟩ := bind_eq_ok.mp h
  obtain ⟨priced, hpriced, h⟩ := bind_eq_ok.mp h
  obtain ⟨named, hnamed, h⟩ := bind_eq_ok.mp h
  obtain ⟨hsymbol, hwire⟩ := symbol_ok hwire
  obtain ⟨q, hq, hplainq⟩ := decimal_ok hquantity
  rw [RestClient.priceParams, htype] at hpriced
  obtain ⟨price, hprice, hpriced⟩ := bind_eq_ok.mp hpriced
  obtain ⟨p, hp, hplainp⟩ := decimal_ok hprice
  refine ⟨wire, quantity, price, q, p,
    ⟨assertAccount_ok haccount, hsymbol, hwire, ⟨hq, hplainq⟩, ⟨hp, hplainp⟩⟩, ?_⟩
  rw [RestClient.clientOrderParams, hid] at hnamed
  simp only at hnamed
  split_ifs at hnamed
  cases hpriced
  cases hnamed
  cases h
  rw [htype]
  rfl

variable {past : Trace BinanceOp BinanceAns} {op : BinanceOp}

/-- A signed request is started behind a look at the clock. -/
theorem signed_starts {method : Method} {path : String} {query : Params} {origin : String}
    (h : Routine.Starts (client.request platform method path query true origin) () past op)
    (hplaces : PlacesOrder op) : ∃ now, past = [⟨.clientNow, now⟩] ∧
      op = .fetch method origin path (client.signedQuery platform query now) true := by
  rw [RestClient.request, if_pos rfl] at h
  obtain ⟨rfl, rfl⟩ | ⟨now, rest, rfl, hchecked⟩ := Routine.starts_perform_bind.mp h
  · exact absurd hplaces not_placesOrder_clientNow
  · obtain ⟨time, htime, hsend⟩ := Routine.starts_ofExcept_bind.mp hchecked
    obtain rfl := RestClient.clockTime_ok htime
    obtain ⟨rfl, rfl⟩ | ⟨response, rest, rfl, hread⟩ := Routine.starts_perform_bind.mp hsend
    · exact ⟨_, rfl, rfl⟩
    · exact absurd hread Routine.starts_ofExcept

/-- What a routine starts, when all that follows a step places no order. -/
theorem starts_first {α β : Type} {m : Rest α} {f : α → Rest β} (hf : ∀ a, Harmless (f a))
    (h : Routine.Starts (m >>= f) () past op) (hplaces : PlacesOrder op) :
    Routine.Starts m () past op := by
  rcases Routine.starts_bind.mp h with h | ⟨first, rest, a, l, rfl, -, h⟩
  · exact h
  · exact absurd hplaces ((hf a).not_starts h)

/-- What a routine starts, when its first step places no order. -/
theorem starts_behind {α β : Type} {m : Rest α} {f : α → Rest β} (hm : Harmless m)
    (h : Routine.Starts (m >>= f) () past op) (hplaces : PlacesOrder op) :
    ∃ first rest a, past = first ++ rest ∧ Routine.Returns m () first a () ∧
      Routine.Starts (f a) () rest op := by
  rcases Routine.starts_bind.mp h with h | ⟨first, rest, a, l, rfl, hfirst, h⟩
  · exact absurd hplaces (hm.not_starts h)
  · exact ⟨first, rest, a, rfl, hfirst, h⟩

theorem placeSpotOrder_starts
    (h : Routine.Starts (client.placeSpotOrder platform params) () past op)
    (hplaces : PlacesOrder op) : client.accountMode = .spot ∧ ∃ request now,
      client.orderParams params = .ok request ∧ (∀ d ∈ past, ¬PlacesOrder d.1) ∧
      op = .fetch .post client.origin RestClient.spotOrderPath
        (client.signedQuery platform request now) true := by
  obtain ⟨_, hmode, h⟩ := Routine.starts_ofExcept_bind.mp h
  obtain ⟨request, hrequest, h⟩ := Routine.starts_ofExcept_bind.mp h
  have h := starts_first (fun _ => harmless_check) h hplaces
  obtain ⟨now, rfl, hop⟩ := signed_starts h hplaces
  refine ⟨assertMode_ok hmode, request, now, hrequest, ?_, hop⟩
  exact List.forall_mem_singleton.mpr not_placesOrder_clientNow

theorem readLeverage_ok {wire : String} {leverage : Numeral} {data : Json}
    (h : RestClient.readLeverage wire leverage data = .ok ()) :
    data.field? "symbol" = some (.str wire) ∧
      number (data.field? "leverage") none = .ok leverage.double := by
  obtain ⟨data', hrow, hread⟩ := bind_eq_ok.mp h
  obtain rfl : data' = data := by
    cases data with
    | obj fields =>
        cases hrow
        rfl
    | null | bool | num | str | arr => cases hrow
  split_ifs at hread with hsymbol
  · cases hread
  · obtain ⟨acknowledged, hnumber, hequal⟩ := bind_eq_ok.mp hread
    split_ifs at hequal with heq
    · cases hequal
    · rw [not_not] at hsymbol heq
      rw [hnumber, heq]
      exact ⟨hsymbol, rfl⟩

/-- The exchange has told of an isolated margin, and has acknowledged a leverage within the
limit of the client. -/
structure Leveraged (platform : Platform) (client : RestClient) (account symbol wire : String)
    (leverage : Numeral) (past : Trace BinanceOp BinanceAns) : Prop where
  isolated : Ran (client.getFuturesMarginType platform account symbol) past .isolated
  acknowledged : ∃ data, Ran (client.request platform .post RestClient.leveragePath
      [("symbol", wire), ("leverage", String.ofList leverage.text)] true client.origin) past data ∧
    data.field? "symbol" = some (.str wire) ∧
    number (data.field? "leverage") none = .ok leverage.double
  whole : leverage.double.den = 1 ∧ 1 ≤ leverage.double
  limited : leverage.double ≤ client.maxLeverage

theorem Leveraged.behind {account symbol wire : String} {leverage : Numeral}
    (h : Leveraged platform client account symbol wire leverage past)
    (first : Trace BinanceOp BinanceAns) :
    Leveraged platform client account symbol wire leverage (first ++ past) := by
  obtain ⟨data, hran, hread⟩ := h.acknowledged
  exact ⟨h.isolated.behind first, ⟨data, hran.behind first, hread⟩, h.whole, h.limited⟩

theorem harmless_leverage {query : Params} : Harmless
    (client.request platform .post RestClient.leveragePath query true client.origin) :=
  harmless_request fun _ _ h => h.elim (by decide) (by decide)

theorem checkLeverage_ok {leverage : Numeral} (h : client.checkLeverage leverage = .ok ()) :
    (leverage.double.den = 1 ∧ 1 ≤ leverage.double) ∧ leverage.double ≤ client.maxLeverage := by
  unfold RestClient.checkLeverage at h
  split_ifs at h with hbad
  rw [not_or, not_or, not_not, not_lt, not_lt] at hbad
  exact ⟨⟨hbad.1, hbad.2.1⟩, hbad.2.2⟩

theorem placeFuturesOrder_starts {leverage : Numeral}
    (h : Routine.Starts (client.placeFuturesOrder platform params leverage) () past op)
    (hplaces : PlacesOrder op) : client.accountMode = .usdmFutures ∧ ∃ request now,
      client.orderParams params = .ok request ∧ (∀ d ∈ past, ¬PlacesOrder d.1) ∧
      Leveraged platform client params.account params.symbol (RestClient.wireOf request) leverage
        past ∧
      op = .fetch .post client.origin RestClient.futuresOrderPath
        (client.signedQuery platform (request ++ [("positionSide", "BOTH")]) now) true := by
  obtain ⟨_, hmode, hparams⟩ := Routine.starts_ofExcept_bind.mp h
  obtain ⟨request, hrequest, hchecked⟩ := Routine.starts_ofExcept_bind.mp hparams
  obtain ⟨_, hleverage, hmargined⟩ := Routine.starts_ofExcept_bind.mp hchecked
  obtain ⟨margin, rest, marginType, rfl, hmargin, hnext⟩ :=
    starts_behind harmless_getFuturesMarginType hmargined hplaces
  by_cases hisolated : marginType ≠ .isolated
  · rw [if_pos hisolated] at hnext
    exact absurd hnext Routine.starts_throw
  rw [if_neg hisolated] at hnext
  obtain rfl := not_not.mp hisolated
  obtain ⟨acknowledging, rest, data, rfl, hdata, hread⟩ :=
    starts_behind harmless_leverage hnext hplaces
  obtain ⟨_, hacknowledged, horder⟩ := Routine.starts_ofExcept_bind.mp hread
  obtain ⟨now, rfl, hop⟩ := signed_starts (starts_first (fun _ => harmless_check) horder hplaces)
    hplaces
  obtain ⟨hwhole, hlimited⟩ := checkLeverage_ok hleverage
  refine ⟨assertMode_ok hmode, request, now, hrequest, ?_, ⟨ran_of_returns hmargin _,
    ⟨data, (ran_of_returns hdata _).behind margin, readLeverage_ok hacknowledged⟩, hwhole,
    hlimited⟩, hop⟩
  intro d hd
  rcases List.mem_append.mp hd with hd | hd
  · exact harmless_getFuturesMarginType.trace hmargin d hd
  · rcases List.mem_append.mp hd with hd | hd
    · exact harmless_leverage.trace hdata d hd
    · rw [List.mem_singleton.mp hd]
      exact not_placesOrder_clientNow

def orderQuery (mode : AccountMode) (query : Params) : Params :=
  match mode with
  | .spot => query
  | .usdmFutures => query ++ [("positionSide", "BOTH")]

def orderPath : AccountMode → String
  | .spot => RestClient.spotOrderPath
  | .usdmFutures => RestClient.futuresOrderPath

/-- The first order of a run, with the parameters of a request in its query. -/
structure Placed (platform : Platform) (client : RestClient) (params : RestClient.OrderRequest)
    (clientOrderId : String) (leverage : Numeral) (wire quantity price : String) (q p : Numeral)
    (past : Trace BinanceOp BinanceAns) (op : BinanceOp) : Prop where
  order : LimitOrder client params clientOrderId wire quantity price q p
  first : ∀ d ∈ past, ¬PlacesOrder d.1
  request : ∃ now, op = .fetch .post client.origin (orderPath client.accountMode)
    (client.signedQuery platform (orderQuery client.accountMode
      (limitQuery params clientOrderId wire quantity price)) now) true
  leveraged : client.accountMode = .usdmFutures →
    Leveraged platform client params.account params.symbol wire leverage past

theorem Placed.behind {clientOrderId wire quantity price : String} {leverage q p : Numeral}
    (h : Placed platform client params clientOrderId leverage wire quantity price q p past op)
    {before : Trace BinanceOp BinanceAns} (hbefore : ∀ d ∈ before, ¬PlacesOrder d.1) :
    Placed platform client params clientOrderId leverage wire quantity price q p (before ++ past)
      op :=
  ⟨h.order, List.forall_mem_append.mpr ⟨hbefore, h.first⟩, h.request,
    fun hmode => (h.leveraged hmode).behind before⟩

variable {clientOrderId : String}

theorem placeSpotOrder_placed (htype : params.type = .limit)
    (hid : params.clientOrderId = some clientOrderId) (leverage : Numeral)
    (h : Routine.Starts (client.placeSpotOrder platform params) () past op)
    (hplaces : PlacesOrder op) : client.accountMode = .spot ∧ ∃ wire quantity price q p,
      Placed platform client params clientOrderId leverage wire quantity price q p past op := by
  obtain ⟨hmode, request, now, hrequest, hfirst, hop⟩ := placeSpotOrder_starts h hplaces
  obtain ⟨wire, quantity, price, q, p, horder, rfl⟩ := orderParams_limit htype hid hrequest
  refine ⟨hmode, wire, quantity, price, q, p, horder, hfirst, ⟨now, ?_⟩, fun hfutures => ?_⟩
  · rw [hmode]
    exact hop
  · rw [hmode] at hfutures
    cases hfutures

theorem placeFuturesOrder_placed (htype : params.type = .limit)
    (hid : params.clientOrderId = some clientOrderId) {leverage : Numeral}
    (h : Routine.Starts (client.placeFuturesOrder platform params leverage) () past op)
    (hplaces : PlacesOrder op) : client.accountMode = .usdmFutures ∧ ∃ wire quantity price q p,
      Placed platform client params clientOrderId leverage wire quantity price q p past op := by
  obtain ⟨hmode, request, now, hrequest, hfirst, hleveraged, hop⟩ :=
    placeFuturesOrder_starts h hplaces
  obtain ⟨wire, quantity, price, q, p, horder, rfl⟩ := orderParams_limit htype hid hrequest
  refine ⟨hmode, wire, quantity, price, q, p, horder, hfirst, ⟨now, ?_⟩, fun _ => hleveraged⟩
  rw [hmode]
  exact hop

end

namespace BinanceConnector

variable {platform : Platform} {connector : BinanceConnector platform}
  {intent : TradingIntent platform.host}

theorem harmless_sideEffect {guarded : Bool} : Harmless (sideEffect guarded) := by
  unfold sideEffect
  split_ifs
  · exact (@harmless_act .beforeSideEffect fun h => h).bind fun _ => harmless_check
  · exact harmless_pure

theorem harmless_margin {account symbol : String} :
    Harmless (connector.verifyFuturesIsolatedMargin account symbol) := by
  refine harmless_getFuturesMarginType.bind fun marginType => ?_
  split_ifs
  · exact harmless_throw
  · exact harmless_pure

theorem harmless_passing {first next : Rest Verdict} (hfirst : Harmless first)
    (hnext : Harmless next) : Harmless (passing first next) := by
  refine hfirst.bind fun verdict => ?_
  cases verdict with
  | ok _ => exact hnext
  | error _ => exact harmless_pure

theorem harmless_revalidate : Harmless (connector.revalidate intent) := by
  refine harmless_passing harmless_pure (harmless_passing harmless_pure
    (harmless_passing harmless_pure (harmless_passing ?_ (harmless_passing ?_ ?_))))
  · unfold verifyLiveApiKey
    split_ifs
    · exact harmless_pure
    · exact (harmless_getApiKeyPermissions.bind fun _ => harmless_pure).tryCatch
        fun _ => harmless_pure
  · unfold revalidateMargin
    split_ifs
    · exact (harmless_margin.bind fun _ => harmless_pure).tryCatch fun _ => harmless_pure
    · exact harmless_pure
  · unfold revalidatePrice
    split_ifs
    · refine Harmless.tryCatch (harmless_getPrice.bind fun _ => ?_) fun _ => harmless_pure
      exact (harmless_act not_placesOrder_now).bind fun _ => harmless_check
    · exact harmless_pure

theorem harmless_reconciled {acknowledged : RestClient.OrderResult}
    {observed : Option RestClient.OrderResult} :
    Harmless (reconciled intent acknowledged observed) := by
  refine Harmless.bind ?_ fun _ => harmless_pure
  refine (harmless_act not_placesOrder_now).bind fun now => ?_
  split_ifs
  · exact harmless_pure
  · exact harmless_throw

theorem harmless_acknowledge {acknowledged : RestClient.OrderResult} :
    Harmless (connector.acknowledgeLiveOrder intent acknowledged) :=
  ((harmless_orderById (by decide)).bind fun _ => harmless_reconciled).tryCatch
    fun _ => harmless_reconciled

theorem passing_ok {first next : Rest Verdict} {trace : Trace BinanceOp BinanceAns}
    (h : Routine.Returns (passing first next) () trace (.ok ()) ()) : ∃ before after,
      trace = before ++ after ∧ Routine.Returns first () before (.ok ()) () ∧
      Routine.Returns next () after (.ok ()) () := by
  obtain ⟨before, after, verdict, _, rfl, hfirst, hnext⟩ := Routine.returns_bind.mp h
  cases verdict with
  | ok _ => exact ⟨before, after, rfl, hfirst, hnext⟩
  | error reason =>
      obtain ⟨-, heq, -⟩ := Routine.returns_pure.mp hnext
      cases heq

/-- A step that performs nothing. -/
theorem passing_pure_ok {verdict : Verdict} {next : Rest Verdict}
    {trace : Trace BinanceOp BinanceAns}
    (h : Routine.Returns (passing (pure verdict) next) () trace (.ok ()) ()) :
    verdict = .ok () ∧ Routine.Returns next () trace (.ok ()) () := by
  obtain ⟨before, after, rfl, hfirst, hnext⟩ := passing_ok h
  obtain ⟨rfl, hverdict, -⟩ := Routine.returns_pure.mp hfirst
  exact ⟨hverdict, hnext⟩

/-- The amount of an order, as the language computes it, is within what was approved, so the
exact product is above it by half a unit in the last place at most. -/
structure WithinNotional (intent : TradingIntent platform.host) (q p : Numeral) : Prop where
  computed : Binary64.round (q.double * p.double) ≤ intent.maxNotionalUsd
  exact : Nearly (q.double * p.double) intent.maxNotionalUsd

theorem validateExecutableOrder_ok (haction : intent.action = .placeOrder)
    (h : validateExecutableOrder intent = .ok ()) {q p : Numeral}
    (hq : numeralOf intent "quantity" = some q) (hp : numeralOf intent "price" = some p) :
    WithinNotional intent q p := by
  have hlimit := intent.maxNotionalUsd_nonneg haction
  unfold validateExecutableOrder at h
  split_ifs at h
  obtain ⟨notional, hnotional, habove⟩ := bind_eq_ok.mp h
  split_ifs at habove with hwithin
  simp only [calculateOrderNotional, haction, ne_eq, not_true_eq_false, if_false, hq, hp]
    at hnotional
  split_ifs at hnotional
  cases hnotional
  have hwithin := Bool.eq_false_iff.mpr hwithin
  exact ⟨Number.round_le_of_not_above hlimit hwithin, Number.nearly_of_not_above hlimit hwithin⟩

theorem revalidate_ok (haction : intent.action = .placeOrder)
    {trace : Trace BinanceOp BinanceAns}
    (h : Routine.Returns (connector.revalidate intent) () trace (.ok ()) ()) :
    connector.config.validateIntent intent = .ok () ∧
      validateExecutableOrder intent = .ok () := by
  obtain ⟨-, h⟩ := passing_pure_ok h
  obtain ⟨hvalid, h⟩ := passing_pure_ok h
  obtain ⟨horder, -⟩ := passing_pure_ok h
  refine ⟨hvalid, ?_⟩
  rw [revalidateOrder, if_pos haction] at horder
  cases hexecutable : connector.validateExecutableIntent intent with
  | error e =>
      rw [hexecutable] at horder
      cases horder
  | ok _ =>
      obtain ⟨-, h⟩ := seq_eq_ok.mp hexecutable
      obtain ⟨-, h⟩ := seq_eq_ok.mp h
      rw [if_pos haction] at h
      exact h

def sides : List (String × String) :=
  [("buy", "BUY"), ("sell", "SELL")]

def GuardPassed (past : Trace BinanceOp BinanceAns) : Prop :=
  (⟨.beforeSideEffect, .ok ()⟩ : (op : BinanceOp) × BinanceAns op) ∈ past

/-- An order request that is started for an intent: it is the first of the call, which has
revalidated the intent and then passed the guard. -/
structure ApprovedOrder (connector : BinanceConnector platform)
    (intent : TradingIntent platform.host) (guarded : Bool) (past : Trace BinanceOp BinanceAns)
    (op : BinanceOp) : Prop where
  revalidated : ∃ first rest, past = first ++ rest ∧
    Routine.Returns (connector.revalidate intent) () first (.ok ()) () ∧
    (guarded = true → GuardPassed rest)
  product : intent.text "accountMode" = connector.client.accountMode.text
  side : (intent.side, (orderRequest intent).side.text) ∈ sides
  placed : ∃ wire quantity price q p,
    Placed platform connector.client (orderRequest intent) (clientOrderId intent)
      (leverage intent) wire quantity price q p past op ∧ WithinNotional intent q p
  limited : connector.client.accountMode = .usdmFutures →
    (leverage intent).double ≤ connector.config.maxFuturesLeverage.double

theorem sideEffect_returns {guarded : Bool} {trace : Trace BinanceOp BinanceAns}
    (h : Routine.Returns (sideEffect guarded) () trace () ()) :
    guarded = true → GuardPassed trace := by
  rintro rfl
  rw [sideEffect, if_pos rfl] at h
  obtain ⟨answer, rest, rfl, hchecked⟩ := Routine.returns_perform_bind.mp h
  obtain ⟨rfl, hanswer, -⟩ := Routine.returns_ofExcept.mp hchecked
  rw [hanswer]
  exact List.mem_singleton_self _

theorem side_of_order (haction : intent.action = .placeOrder) :
    (intent.side, (orderRequest intent).side.text) ∈ sides := by
  have hbody : IntentSchema.bodyFields platform.host intent.action intent.chain =
      some IntentSchema.cexOrderFields := by
    rw [haction]
    rfl
  have hmem : Check.required "side" (Check.oneOf ["buy", "sell"]) ∈
      IntentSchema.cexOrderFields := by
    simp [IntentSchema.cexOrderFields]
  have hside : intent.side ∈ ["buy", "sell"] :=
    List.contains_iff_mem.mp (intent.body_text hbody hmem).2
  simp only [List.mem_cons, List.not_mem_nil, or_false] at hside
  simp only [orderRequest, sides]
  rcases hside with h | h
  · rw [h]
    decide
  · rw [h]
    decide

structure Started (connector : BinanceConnector platform) (intent : TradingIntent platform.host)
    (guarded : Bool) (mode : AccountMode) (past : Trace BinanceOp BinanceAns) (op : BinanceOp) :
    Prop where
  mode : connector.client.accountMode = mode
  guarded : guarded = true → GuardPassed past
  placed : ∃ wire quantity price q p, Placed platform connector.client (orderRequest intent)
    (clientOrderId intent) (leverage intent) wire quantity price q p past op

variable {guarded : Bool} {past : Trace BinanceOp BinanceAns} {op : BinanceOp}

theorem executeSpotOrder_starts
    (h : Routine.Starts (connector.executeSpotOrder intent guarded) () past op)
    (hplaces : PlacesOrder op) : Started connector intent guarded .spot past op := by
  rw [executeSpotOrder] at h
  rcases Routine.starts_ite.mp h with ⟨-, h⟩ | ⟨-, h⟩
  · exact absurd h Routine.starts_throw
  · obtain ⟨guard, rest, _, rfl, hguard, hplacing⟩ := starts_behind harmless_sideEffect h hplaces
    obtain ⟨hmode, wire, quantity, price, q, p, hplaced⟩ := placeSpotOrder_placed rfl rfl
      (leverage intent) (starts_first (fun _ => harmless_acknowledge) hplacing hplaces) hplaces
    exact ⟨hmode, fun hguarded => List.mem_append_left _ (sideEffect_returns hguard hguarded),
      wire, quantity, price, q, p, hplaced.behind (harmless_sideEffect.trace hguard)⟩

theorem executeFuturesOrder_starts
    (h : Routine.Starts (connector.executeFuturesOrder intent guarded) () past op)
    (hplaces : PlacesOrder op) : Started connector intent guarded .usdmFutures past op ∧
      (leverage intent).double ≤ connector.config.maxFuturesLeverage.double := by
  rw [executeFuturesOrder] at h
  rcases Routine.starts_ite.mp h with ⟨-, h⟩ | ⟨-, h⟩
  · exact absurd h Routine.starts_throw
  rcases Routine.starts_ite.mp h with ⟨-, h⟩ | ⟨hlimited, h⟩
  · exact absurd h Routine.starts_throw
  obtain ⟨margin, rest, _, rfl, hmargin, hguarding⟩ := starts_behind harmless_margin h hplaces
  obtain ⟨guard, rest, _, rfl, hguard, hplacing⟩ :=
    starts_behind harmless_sideEffect hguarding hplaces
  obtain ⟨hmode, wire, quantity, price, q, p, hplaced⟩ := placeFuturesOrder_placed rfl rfl
    (starts_first (fun _ => harmless_acknowledge) hplacing hplaces) hplaces
  refine ⟨⟨hmode, fun hguarded => ?_, wire, quantity, price, q, p, ?_⟩, not_lt.mp hlimited⟩
  · exact List.mem_append_right _ (List.mem_append_left _ (sideEffect_returns hguard hguarded))
  · exact (hplaced.behind (harmless_sideEffect.trace hguard)).behind
      (harmless_margin.trace hmargin)

theorem executeOrder_starts
    (h : Routine.Starts (connector.executeOrder intent guarded) () past op)
    (hplaces : PlacesOrder op) : ∃ mode, Started connector intent guarded mode past op ∧
      intent.text "accountMode" = mode.text ∧ (mode = .usdmFutures →
        (leverage intent).double ≤ connector.config.maxFuturesLeverage.double) := by
  rw [executeOrder] at h
  rcases Routine.starts_ite.mp h with ⟨-, h⟩ | ⟨-, h⟩
  · exact absurd h Routine.starts_throw
  rcases Routine.starts_ite.mp h with ⟨hspot, h⟩ | ⟨-, h⟩
  · exact ⟨.spot, executeSpotOrder_starts h hplaces, hspot, fun hmode => by cases hmode⟩
  rcases Routine.starts_ite.mp h with ⟨hfutures, h⟩ | ⟨-, h⟩
  · obtain ⟨hstarted, hlimited⟩ := executeFuturesOrder_starts h hplaces
    exact ⟨.usdmFutures, hstarted, hfutures, fun _ => hlimited⟩
  · exact absurd h Routine.starts_throw

theorem execute_approved (connector : BinanceConnector platform)
    (intent : TradingIntent platform.host) (haction : intent.action = .placeOrder)
    (guarded : Bool) {past : Trace BinanceOp BinanceAns} {op : BinanceOp}
    (hstarts : Routine.Starts (connector.execute intent guarded) () past op)
    (hplaces : PlacesOrder op) : ApprovedOrder connector intent guarded past op := by
  obtain ⟨first, rest, verdict, rfl, hrevalidated, hdispatch⟩ :=
    starts_behind harmless_revalidate hstarts hplaces
  cases verdict with
  | error reason => exact absurd hdispatch Routine.starts_throw
  | ok _ =>
      simp only [dispatch, haction] at hdispatch
      obtain ⟨mode, hstarted, hproduct, hlimited⟩ := executeOrder_starts hdispatch hplaces
      obtain ⟨wire, quantity, price, q, p, hplaced⟩ := hstarted.placed
      refine ⟨⟨first, rest, rfl, hrevalidated, hstarted.guarded⟩, ?_, side_of_order haction,
        ⟨wire, quantity, price, q, p, ?_, ?_⟩, fun hmode => ?_⟩
      · rw [hstarted.mode]
        exact hproduct
      · exact hplaced.behind (harmless_revalidate.trace hrevalidated)
      · exact validateExecutableOrder_ok haction (revalidate_ok haction hrevalidated).2
          hplaced.order.quantity.1 hplaced.order.price.1
      · exact hlimited (hstarted.mode.symm.trans hmode)

def exactPlatform : Platform where
  host := plainHost (fun _ => zeroDigest) fun _ _ => zeroDigest
  encode _ := ""

def orderJson (quantity price maxNotionalUsd : Numeral) : Json :=
  .record [
    ("intentId", some (.str "i")),
    ("principal", some (.str "p")),
    ("action", some (.str "cex.place_order")),
    ("resource", some (.str "cex:binance:a:BTC-USDT")),
    ("environment", some (.str "canary_live")),
    ("requestedAt", some (.str "t")),
    ("idempotencyKey", some (.str "k")),
    ("rationale", some (.str "x")),
    ("evidence", some (.arr [.str "e"])),
    ("exchange", some (.str "binance")),
    ("account", some (.str "a")),
    ("accountMode", some (.str "usdm_futures")),
    ("symbol", some (.str "BTC-USDT")),
    ("side", some (.str "buy")),
    ("orderType", some (.str "limit")),
    ("quantity", some (.num quantity)),
    ("price", some (.num price)),
    ("maxNotionalUsd", some (.num maxNotionalUsd)),
    ("maxSlippageBps", some (.num (.ofNat 5))),
    ("marginType", some (.str "isolated"))]

def futuresOrder : TradingIntent exactPlatform.host where
  value := orderJson (.ofNat 1) (.ofNat 5) (.ofNat 5)
  valid := by decide +kernel

def testnetConnector : BinanceConnector exactPlatform where
  config := {
    testnet := true
    accountMode := .usdmFutures
    allowedAccounts := ["a"]
    allowedSpotSymbols := []
    allowedFuturesSymbols := ["BTC-USDT"]
    historySymbols := ["BTC-USDT"]
    maxFuturesLeverage := .ofNat 1 }
  client := {
    account := "a"
    accountMode := .usdmFutures
    historySymbols := ["BTC-USDT"]
    allowedSymbols := ["BTC-USDT"]
    apiSecret := "s"
    testnet := true
    maxLeverage := 1
    recvWindowMs := 5000 }

def marketRow (price : Numeral) : Json :=
  .record [
    ("symbol", some (.str "BTCUSDT")),
    ("price", some (.num price)),
    ("time", some (.num (.ofNat 0))),
    ("positionSide", some (.str "BOTH")),
    ("marginType", some (.str "isolated")),
    ("leverage", some (.num (.ofNat 1)))]

def servedBy (price : Numeral) (op : BinanceOp) : BinanceAns op :=
  match op with
  | .clientNow | .now => (0 : ℤ)
  | .fetch _ _ path _ _ =>
      let row := marketRow price
      some ⟨true, 200, if path = RestClient.positionRiskPath then .arr [row] else row⟩
  | .beforeSideEffect => .ok ()

def reachesOrder (order : TradingIntent exactPlatform.host) (price : Numeral) : Bool :=
  (Program.reached (servedBy price) 13 (testnetConnector.execute order true ())).any
    (decide <| PlacesOrder ·)

theorem starts_of_reachesOrder {order : TradingIntent exactPlatform.host} {price : Numeral}
    (h : reachesOrder order price = true) : ∃ past op,
      Routine.Starts (testnetConnector.execute order true) () past op ∧ PlacesOrder op := by
  obtain ⟨op, hreached, hplaces⟩ := Option.any_eq_true _ _ |>.mp h
  obtain ⟨past, hstarts⟩ := Program.starts_of_reached hreached
  exact ⟨past, op, hstarts, of_decide_eq_true hplaces⟩

theorem execute_approved_futuresOrder : ∃ past op,
    Routine.Starts (testnetConnector.execute futuresOrder true) () past op ∧ PlacesOrder op ∧
      ApprovedOrder testnetConnector futuresOrder true past op := by
  obtain ⟨past, op, hstarts, hplaces⟩ :=
    @starts_of_reachesOrder futuresOrder (.ofNat 5) (by decide +kernel)
  exact ⟨past, op, hstarts, hplaces,
    execute_approved testnetConnector futuresOrder (by decide +kernel) true hstarts hplaces⟩

def oddQuantity : Numeral :=
  ⟨"0.65".toList, by decide, by decide⟩

def oddPrice : Numeral :=
  ⟨"15.384615384615385".toList, by decide, by decide⟩

def oddOrder : TradingIntent exactPlatform.host where
  value := orderJson oddQuantity oddPrice (.ofNat 10)
  valid := by decide +kernel

/-- The product lies above what was approved, and is rounded to it. -/
theorem order_placed_above : (∃ past op,
    Routine.Starts (testnetConnector.execute oddOrder true) () past op ∧ PlacesOrder op) ∧
    numeralOf oddOrder "quantity" = some oddQuantity ∧ numeralOf oddOrder "price" = some oddPrice ∧
    oddOrder.maxNotionalUsd < oddQuantity.value * oddPrice.value ∧
    oddOrder.maxNotionalUsd < oddQuantity.double * oddPrice.double := by
  refine ⟨@starts_of_reachesOrder oddOrder oddPrice (by decide +kernel), ?_, ?_, ?_⟩
  · decide +kernel
  · decide +kernel
  · decide +kernel

end BinanceConnector
end Binance
end TradingGuardrails
