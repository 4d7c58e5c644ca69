import TradingGuardrails.Binance.Window

/-!
Spot trades are read page by page from a cursor. Against an exchange that holds its trades in
the order of their ids and times, all trades up to the cutoff are read; and whatever the
exchange answers, the ids increase and the cursor stays ahead of them.
-/
namespace TradingGuardrails

open Text Interleaving

namespace Binance

/-- `BigInt(trade.id)` -/
def Trade.number (t : Trade) : Nat :=
  digitsValue t.id.toList

variable {platform : Platform} {client : RestClient} {symbol : String} {cutoff : ℤ}

/-- A page that is read continues the trades in the order of their ids, and the cursor
passes every trade of it. -/
structure Continues (client : RestClient) (symbol : String)
    (page : List Json) (before after : RestClient.TradePage) : Prop where
  ascending : (before.trades.Pairwise fun t t' => t.number < t'.number) →
    (∀ t ∈ before.trades, (t.number : ℤ) ≤ before.previous) →
    (after.trades.Pairwise fun t t' => t.number < t'.number) ∧
      ∀ t ∈ after.trades, (t.number : ℤ) ≤ after.previous
  forward : before.previous ≤ after.previous
  passed : ∀ item ∈ page, ∀ t, client.trade item symbol = .ok t →
    (t.number : ℤ) ≤ after.previous

def nextPage (cutoff : ℤ) (page : RestClient.TradePage) (t : Trade) : RestClient.TradePage :=
  if t.timestampMs ≤ cutoff then
    { page with trades := page.trades ++ [t], previous := t.number }
  else { page with previous := t.number, beyondCutoff := true }

theorem readTrade_iff {page read : RestClient.TradePage} {item : Json} :
    client.readTrade symbol cutoff page item = .ok read ↔
      ∃ t, client.trade item symbol = .ok t ∧ page.previous < t.number ∧
        read = nextPage cutoff page t := by
  unfold RestClient.readTrade
  rw [bind_eq_ok]
  refine exists_congr fun t => and_congr_right fun _ => ?_
  change (if (t.number : ℤ) ≤ page.previous then _ else _) = _ ↔ _
  by_cases hstuck : (t.number : ℤ) ≤ page.previous
  · rw [if_pos hstuck]
    exact ⟨fun h => absurd h (by simp), fun h => absurd hstuck (not_le.mpr h.1)⟩
  · rw [if_neg hstuck, nextPage]
    by_cases hcutoff : t.timestampMs ≤ cutoff
    · rw [if_pos hcutoff, if_pos hcutoff, Except.ok.injEq]
      exact ⟨fun h => ⟨not_le.mp hstuck, h.symm⟩, fun h => h.2.symm⟩
    · rw [if_neg hcutoff, if_neg hcutoff, Except.ok.injEq]
      exact ⟨fun h => ⟨not_le.mp hstuck, h.symm⟩, fun h => h.2.symm⟩

theorem readTrade_continues {page read : RestClient.TradePage} {item : Json}
    (h : client.readTrade symbol cutoff page item = .ok read) :
    Continues client symbol [item] page read := by
  obtain ⟨trade, htrade, hless, rfl⟩ := readTrade_iff.mp h
  have hpassed : ∀ t, client.trade item symbol = .ok t → t = trade := by
    intro t ht
    rw [htrade] at ht
    exact (Except.ok.inj ht).symm
  unfold nextPage
  split_ifs
  · refine ⟨fun hascending hbelow => ?_, hless.le, fun other hother t ht => ?_⟩
    · refine ⟨List.pairwise_append.mpr ⟨hascending, List.pairwise_singleton _ _, ?_⟩, ?_⟩
      · intro t ht t' ht'
        rw [List.mem_singleton.mp ht']
        have := hbelow t ht
        omega
      · intro t ht
        rcases List.mem_append.mp ht with hold | hnew
        · exact (hbelow t hold).trans hless.le
        · rw [List.mem_singleton.mp hnew]
    · rw [List.mem_singleton.mp hother] at ht
      rw [hpassed t ht]
  · refine ⟨fun hascending hbelow => ⟨hascending, fun t ht => (hbelow t ht).trans hless.le⟩,
      hless.le, fun other hother t ht => ?_⟩
    rw [List.mem_singleton.mp hother] at ht
    rw [hpassed t ht]

theorem Continues.cons {item : Json} {items : List Json} {before middle after : RestClient.TradePage}
    (h : Continues client symbol [item] before middle)
    (h' : Continues client symbol items middle after) :
    Continues client symbol (item :: items) before after := by
  refine ⟨fun hascending hbelow => ?_, h.forward.trans h'.forward, fun other hother t ht => ?_⟩
  · obtain ⟨hascending, hbelow⟩ := h.ascending hascending hbelow
    exact h'.ascending hascending hbelow
  · rcases List.mem_cons.mp hother with rfl | hmem
    · exact (h.passed _ List.mem_cons_self t ht).trans h'.forward
    · exact h'.passed other hmem t ht

theorem foldlM_continues {items : List Json} {before after : RestClient.TradePage}
    (h : items.foldlM (client.readTrade symbol cutoff) before = .ok after) :
    Continues client symbol items before after := by
  induction items generalizing before with
  | nil =>
      cases h
      exact ⟨fun hascending hbelow => ⟨hascending, hbelow⟩, le_rfl,
        fun item hitem => absurd hitem List.not_mem_nil⟩
  | cons item items ih =>
      rw [List.foldlM_cons] at h
      obtain ⟨middle, hitem, hitems⟩ := bind_eq_ok.mp h
      exact (readTrade_continues hitem).cons (ih hitems)

theorem readTrades_continues {trades : List Trade} {fromId : Nat} {page : List Json}
    {read : RestClient.TradePage}
    (h : client.readTrades symbol cutoff trades (natText fromId) page = .ok read) :
    Continues client symbol page ⟨trades, (fromId : ℤ) - 1, false⟩ read := by
  unfold RestClient.readTrades at h
  split_ifs at h
  · cases h
  · rw [digitsValue_natText] at h
    exact foldlM_continues h

def Seen (client : RestClient) (symbol : String)
    (past : Trace BinanceOp BinanceAns) (n : Nat) : Prop :=
  ∃ method origin path query signed response items item t,
    (⟨.fetch method origin path query signed, some response⟩ :
      (op : BinanceOp) × BinanceAns op) ∈ past ∧
    response.value = .arr items ∧ item ∈ items ∧ client.trade item symbol = .ok t ∧
    n = t.number

/-- A request asks for the trades from a number on that is above all that were read. -/
abbrev ahead (client : RestClient) (symbol : String) :
    Contract BinanceOp BinanceAns where
  State := Trace BinanceOp BinanceAns
  next past op a := past ++ [⟨op, a⟩]
  allowed past op := match op with
    | .fetch _ _ _ query _ => ∃ fromId, query.lookup "fromId" = some (natText fromId) ∧
        ∀ n, Seen client symbol past n → n < fromId
    | .clientNow | .now | .beforeSideEffect => True

theorem after_ahead (s trace : Trace BinanceOp BinanceAns) :
    (ahead client symbol).after s trace = s ++ trace := by
  induction trace generalizing s with
  | nil => exact (List.append_nil s).symm
  | cons d trace ih =>
      rw [List.append_cons]
      exact ih (s ++ [d])

theorem seen_append {past : Trace BinanceOp BinanceAns} {op : BinanceOp} {a : BinanceAns op}
    {n : Nat} (h : Seen client symbol (past ++ [⟨op, a⟩]) n) :
    Seen client symbol past n ∨ Seen client symbol [⟨op, a⟩] n := by
  obtain ⟨method, origin, path, query, signed, response, items, item, t, hmem, hrest⟩ := h
  rcases List.mem_append.mp hmem with hold | hnew
  · exact .inl ⟨_, _, _, _, _, _, _, _, _, hold, hrest⟩
  · exact .inr ⟨_, _, _, _, _, _, _, _, _, hnew, hrest⟩

theorem not_seen_clock {now : ℤ} {n : Nat} :
    ¬Seen client symbol [⟨.clientNow, now⟩] n := by
  rintro ⟨method, origin, path, query, signed, response, items, item, t, hmem, -⟩
  cases List.mem_singleton.mp hmem

/-- What is seen in the answer to a request is in the rows that the client reads from it. -/
theorem seen_rows {method : Method} {origin path : String} {query : Params}
    {response : Option Response} {data : Json} {page : List Json} {n : Nat}
    (hdata : RestClient.answered method path response = .ok data)
    (hpage : rows (some data) = .ok page)
    (h : Seen client symbol [⟨.fetch method origin path query true, response⟩] n) :
    ∃ item ∈ page, ∃ t, client.trade item symbol = .ok t ∧ n = t.number := by
  obtain ⟨method', origin', path', query', signed', response', items, item, t, hmem, hvalue, hitem,
    htrade, hn⟩ := h
  cases List.mem_singleton.mp hmem
  have hbody : data = response'.value := by
    simp only [RestClient.answered, RestClient.accepted] at hdata
    split_ifs at hdata
    · cases hdata
      rfl
  rw [hbody, hvalue] at hpage
  refine ⟨item, ?_, t, htrade, hn⟩
  have hsame : ∀ {items page : List Json},
      (items.mapM fun value => row (some value)) = .ok page → page = items := by
    intro items
    induction items with
    | nil =>
        intro page h
        cases h
        rfl
    | cons value items ih =>
        intro page h
        rw [List.mapM_cons] at h
        obtain ⟨first, hfirst, h⟩ := bind_eq_ok.mp h
        obtain ⟨others, hothers, h⟩ := bind_eq_ok.mp h
        cases h
        have hvalue : first = value := by
          unfold row at hfirst
          split at hfirst
          · rename_i fields heq
            cases heq
            exact (Except.ok.inj hfirst).symm
          · cases hfirst
        rw [ih hothers, hvalue]
  rw [hsame hpage]
  exact hitem

theorem tradesQuery_fromId {wire fromId : String} {now : ℤ} :
    (client.signedQuery platform [("symbol", wire), ("fromId", fromId),
      ("limit", natText pageSize)] now).lookup "fromId" = some fromId := by
  simp only [RestClient.signedQuery]
  rw [Json.lookup_putMember_of_ne _ _ (by decide), Json.lookup_putMember_of_ne _ _ (by decide),
    Json.lookup_putMember_of_ne _ _ (by decide)]
  rfl

/-- The trades that a run returns stand in the order of their ids. -/
def Ordered : Option (List Trade) → Prop
  | some trades => trades.Pairwise fun t t' => t.number < t'.number
  | none => True

theorem readPages_ahead (rounds : Nat) {trades : List Trade} {fromId : Nat}
    {past : Trace BinanceOp BinanceAns}
    (hascending : trades.Pairwise fun t t' => t.number < t'.number)
    (hbelow : ∀ t ∈ trades, t.number < fromId)
    (hseen : ∀ n, Seen client symbol past n → n < fromId) :
    Routine.Obeys (ahead client symbol) (fun _ _ result => Ordered result)
      (fun _ _ _ => True) past ()
      (client.readPages platform symbol cutoff rounds trades (natText fromId)) := by
  induction rounds generalizing trades fromId past with
  | zero => exact True.intro
  | succ rounds ih =>
      have hclock : ∀ {now n}, Seen client symbol (past ++ [⟨.clientNow, now⟩]) n →
          n < fromId := by
        intro now n h
        rcases seen_append h with hold | hnew
        · exact hseen n hold
        · exact absurd hnew not_seen_clock
      refine Routine.obeys_bind.mpr
        (RestClient.obeys_check (fun wire _ => ?_) fun _ _ => True.intro)
      refine Routine.obeys_bind.mpr (RestClient.obeys_signed True.intro (fun _ _ _ => True.intro)
        fun now _ => RestClient.obeys_send ⟨fromId, tradesQuery_fromId, fun n => hclock⟩
          (fun response data hdata => ?_) fun _ _ _ => True.intro)
      refine Routine.obeys_bind.mpr (RestClient.obeys_check (fun page hpage => ?_)
        fun _ _ => True.intro)
      refine Routine.obeys_bind.mpr (RestClient.obeys_check (fun read hread => ?_)
        fun _ _ => True.intro)
      have hcontinues := readTrades_continues hread
      obtain ⟨hascending', hbelow'⟩ := hcontinues.ascending hascending fun t ht => by
        have := hbelow t ht
        dsimp only
        omega
      split_ifs
      · exact hascending'
      · -- The next cursor stands right behind the last trade of the page.
        have hforward := hcontinues.forward
        dsimp only at hforward
        obtain ⟨next, hnext⟩ : ∃ next : Nat, read.previous + 1 = next :=
          ⟨(read.previous + 1).toNat, by omega⟩
        have htext : intText (read.previous + 1) = natText next := by
          rw [hnext]
          rfl
        rw [htext]
        refine ih hascending' (fun t ht => ?_) fun n h => ?_
        · have := hbelow' t ht
          omega
        · rcases seen_append h with hold | hnew
          · have := hclock hold
            omega
          · obtain ⟨item, hitem, t, htrade, rfl⟩ := seen_rows hdata hpage hnew
            have := hcontinues.passed item hitem t htrade
            omega

/-- The rows of an exchange with the trades that the client reads from them, in the order of
their ids and of their times. -/
structure Book (client : RestClient) (symbol : String) where
  entries : List (Json × Trade)
  read : ∀ e ∈ entries, client.trade e.1 symbol = .ok e.2
  ascending : entries.Pairwise fun e e' => e.2.number < e'.2.number
  inTime : entries.Pairwise fun e e' => e.2.timestampMs ≤ e'.2.timestampMs

namespace Book

variable (book : Book client symbol)

def since (fromId : Nat) : List (Json × Trade) :=
  book.entries.filter fun e => fromId ≤ e.2.number

/-- A clock that the client accepts, and the first trades from an id on, as many as fit on a
page. -/
def Serves : (op : BinanceOp) → BinanceAns op → Prop
  | .clientNow, now => ∃ time, RestClient.clockTime now = .ok time
  | .fetch _ _ _ query _, response => ∀ fromId, query.lookup "fromId" = some (natText fromId) →
      response = some ⟨true, 200, .arr (((book.since fromId).take pageSize).map Prod.fst)⟩
  | .now, _ | .beforeSideEffect, _ => True

def upTo (cutoff : ℤ) (entries : List (Json × Trade)) : List Trade :=
  (entries.map Prod.snd).filter fun t => t.timestampMs ≤ cutoff

variable {book}

theorem since_zero : book.since 0 = book.entries :=
  List.filter_eq_self.mpr fun e _ => by simp

theorem since_sublist (fromId : Nat) : (book.since fromId).Sublist book.entries :=
  List.filter_sublist

/-- Behind the last entry of a page stand the entries after it. -/
theorem since_next {fromId : Nat} {first rest : List (Json × Trade)} {e : Json × Trade}
    (h : book.since fromId = (first ++ [e]) ++ rest) : book.since (e.2.number + 1) = rest := by
  have hascending := book.ascending.sublist (since_sublist fromId)
  have hfrom : fromId ≤ e.2.number := by
    have hmem : e ∈ book.since fromId := by simp [h]
    simpa using (List.mem_filter.mp hmem).2
  have hrestrict : book.since (e.2.number + 1) =
      (book.since fromId).filter fun e' => e.2.number + 1 ≤ e'.2.number := by
    rw [since, since, List.filter_filter]
    refine List.filter_congr fun e' _ => ?_
    rw [Bool.eq_iff_iff]
    simp only [Bool.and_eq_true, decide_eq_true_eq]
    omega
  rw [h] at hascending
  obtain ⟨hpage, -, hbehind⟩ := List.pairwise_append.mp hascending
  rw [hrestrict, h, List.filter_append]
  have hnone : (first ++ [e]).filter (fun e' => decide (e.2.number + 1 ≤ e'.2.number)) = [] := by
    refine List.filter_eq_nil_iff.mpr fun e' he' => ?_
    rw [decide_eq_true_eq, not_le, Nat.lt_succ_iff]
    rcases List.mem_append.mp he' with hfirst | hlast
    · exact ((List.pairwise_append.mp hpage).2.2 e' hfirst e List.mem_cons_self).le
    · rw [List.mem_singleton.mp hlast]
  have hall : rest.filter (fun e' => decide (e.2.number + 1 ≤ e'.2.number)) = rest := by
    refine List.filter_eq_self.mpr fun e' he' => ?_
    rw [decide_eq_true_eq]
    exact hbehind e (by simp) e' he'
  rw [hnone, hall, List.nil_append]

theorem isObj_of_trade {item : Json} {t : Trade} (h : client.trade item symbol = .ok t) :
    ∃ fields, item = .obj fields := by
  obtain ⟨wire, -, h⟩ := bind_eq_ok.mp h
  by_cases hfield : item.field? "symbol" ≠ some (.str wire)
  · rw [if_pos hfield] at h
    cases h
  · rw [not_not] at hfield
    cases item with
    | obj fields => exact ⟨fields, rfl⟩
    | null | bool | num | str | arr => cases hfield

def pageAfter (cutoff : ℤ) (page : RestClient.TradePage) (entries : List (Json × Trade)) :
    RestClient.TradePage :=
  entries.foldl (fun page e => nextPage cutoff page e.2) page

theorem nextPage_previous (page : RestClient.TradePage) (t : Trade) :
    (nextPage cutoff page t).previous = t.number := by
  unfold nextPage
  split_ifs <;> rfl

theorem foldlM_entries {entries : List (Json × Trade)} {page : RestClient.TradePage}
    (hread : ∀ e ∈ entries, client.trade e.1 symbol = .ok e.2)
    (hascending : entries.Pairwise fun e e' => e.2.number < e'.2.number)
    (hahead : ∀ e ∈ entries, page.previous < e.2.number) :
    (entries.map Prod.fst).foldlM (client.readTrade symbol cutoff) page =
      .ok (pageAfter cutoff page entries) := by
  induction entries generalizing page with
  | nil => rfl
  | cons e entries ih =>
      obtain ⟨hbehind, hascending⟩ := List.pairwise_cons.mp hascending
      have hfirst : client.readTrade symbol cutoff page e.1 =
          .ok (nextPage cutoff page e.2) :=
        readTrade_iff.mpr ⟨e.2, hread e List.mem_cons_self, hahead e List.mem_cons_self, rfl⟩
      rw [List.map_cons, List.foldlM_cons, hfirst]
      refine ih (fun e' he' => hread e' (List.mem_cons_of_mem _ he')) hascending fun e' he' => ?_
      rw [nextPage_previous]
      exact_mod_cast hbehind e' he'

theorem pageAfter_eq (entries : List (Json × Trade)) (page : RestClient.TradePage) :
    (pageAfter cutoff page entries).trades = page.trades ++ upTo cutoff entries ∧
      ((pageAfter cutoff page entries).beyondCutoff = true ↔
        page.beyondCutoff = true ∨ ∃ e ∈ entries, cutoff < e.2.timestampMs) := by
  induction entries generalizing page with
  | nil => simp [pageAfter, upTo]
  | cons e entries ih =>
      obtain ⟨htrades, hbeyond⟩ := ih (nextPage cutoff page e.2)
      have hcons : pageAfter cutoff page (e :: entries) =
          pageAfter cutoff (nextPage cutoff page e.2) entries := rfl
      rw [hcons, htrades, hbeyond]
      by_cases hcutoff : e.2.timestampMs ≤ cutoff
      · have hnot : ¬cutoff < e.2.timestampMs := not_lt.mpr hcutoff
        simp [nextPage, upTo, hcutoff, hnot]
      · have hlt : cutoff < e.2.timestampMs := not_le.mp hcutoff
        simp [nextPage, upTo, hcutoff, hlt]

theorem pageAfter_previous (entries : List (Json × Trade)) (e : Json × Trade)
    (page : RestClient.TradePage) :
    (pageAfter cutoff page (entries ++ [e])).previous = e.2.number := by
  rw [pageAfter, List.foldl_append]
  exact nextPage_previous _ _

/-- The page that the client reads from an id on. -/
theorem readTrades_since {trades : List Trade} {fromId : Nat} :
    client.readTrades symbol cutoff trades (natText fromId)
        (((book.since fromId).take pageSize).map Prod.fst) =
      .ok (pageAfter cutoff ⟨trades, (fromId : ℤ) - 1, false⟩
        ((book.since fromId).take pageSize)) := by
  have hpage : ((book.since fromId).take pageSize).Sublist book.entries :=
    (List.take_sublist _ _).trans (since_sublist fromId)
  unfold RestClient.readTrades
  rw [if_neg (by rw [List.length_map, List.length_take]; omega), digitsValue_natText]
  refine foldlM_entries (fun e he => book.read e (hpage.subset he))
    (book.ascending.sublist hpage) fun e he => ?_
  have hfrom : fromId ≤ e.2.number := by
    simpa using (List.mem_filter.mp (List.mem_of_mem_take he)).2
  dsimp only
  omega

theorem rows_since (fromId : Nat) :
    rows (some (.arr (((book.since fromId).take pageSize).map Prod.fst))) =
      .ok (((book.since fromId).take pageSize).map Prod.fst) := by
  refine rows_arr fun item hitem => ?_
  obtain ⟨e, he, rfl⟩ := List.mem_map.mp hitem
  exact isObj_of_trade (book.read e ((since_sublist fromId).subset (List.mem_of_mem_take he)))

theorem upTo_append (entries entries' : List (Json × Trade)) :
    upTo cutoff (entries ++ entries') = upTo cutoff entries ++ upTo cutoff entries' := by
  simp [upTo]

/-- Behind a trade beyond the cutoff there is none up to it. -/
theorem upTo_beyond {fromId : Nat} {page rest : List (Json × Trade)}
    (h : book.since fromId = page ++ rest) (hbeyond : ∃ e ∈ page, cutoff < e.2.timestampMs) :
    upTo cutoff rest = [] := by
  obtain ⟨e, he, hlt⟩ := hbeyond
  have hinTime := book.inTime.sublist (since_sublist fromId)
  rw [h] at hinTime
  refine List.filter_eq_nil_iff.mpr fun t ht => ?_
  obtain ⟨e', he', rfl⟩ := List.mem_map.mp ht
  have := (List.pairwise_append.mp hinTime).2.2 e he e' he'
  rw [decide_eq_true_eq]
  omega

end Book

/-- One round reads the page from the cursor on. -/
theorem round_served {book : Book client symbol} {wire : String}
    (hwire : client.symbol symbol false = .ok wire) {trades : List Trade} {fromId : Nat}
    {s : Prop × Nat} {α : Type} {f : List Json → RestClient.TradePage → Rest α}
    {ok : Prop × Nat → Unit → α → Prop} {err : Prop × Nat → Unit → Thrown → Prop}
    (hread : ∀ s' page read, Adds s s' 2
        (page = ((book.since fromId).take pageSize).map Prod.fst ∧
          read = Book.pageAfter cutoff ⟨trades, (fromId : ℤ) - 1, false⟩
            ((book.since fromId).take pageSize)) →
      Routine.Obeys (.expecting book.Serves) ok err s' () (f page read))
    (hfail : ∀ s' e, Adds s s' 2 False → err s' () e) :
    Routine.Obeys (.expecting book.Serves) ok err s () (do
      let wire ← check (client.symbol symbol false)
      let data ← client.request platform .get RestClient.tradesPath
        [("symbol", wire), ("fromId", natText fromId), ("limit", natText pageSize)] true
        client.origin
      let page ← check (rows (some data))
      let read ← check (client.readTrades symbol cutoff trades (natText fromId) page)
      f page read) := by
  refine Routine.obeys_bind.mpr (RestClient.obeys_check (fun wire' _ => ?_) fun e he => ?_)
  · refine Routine.obeys_bind.mpr (RestClient.obeys_signed True.intro (fun now e he => ?_)
      fun now _ => RestClient.obeys_send True.intro (fun response data hdata => ?_)
        fun response e he => ?_)
    · refine hfail _ e ⟨fun hserved => ?_, Nat.le_succ _⟩
      obtain ⟨time, htime⟩ := hserved.2
      rw [he] at htime
      cases htime
    · -- The answer is the page from the cursor on.
      have hpage : ((s.1 ∧ book.Serves .clientNow now) ∧
          book.Serves (.fetch .get client.origin RestClient.tradesPath
            (client.signedQuery platform [("symbol", wire'), ("fromId", natText fromId),
              ("limit", natText pageSize)] now) true) response) →
          s.1 ∧ data = .arr (((book.since fromId).take pageSize).map Prod.fst) := by
        rintro ⟨⟨hs, -⟩, hserved⟩
        have hanswer : response = _ := hserved fromId tradesQuery_fromId
        rw [hanswer] at hdata
        cases hdata
        exact ⟨hs, rfl⟩
      refine Routine.obeys_bind.mpr (RestClient.obeys_check (fun page hrows => ?_) fun e he => ?_)
      · refine Routine.obeys_bind.mpr (RestClient.obeys_check (fun read hreadPage => ?_)
          fun e he => ?_)
        · refine hread _ page read ⟨fun hserved => ?_, Nat.le_refl _⟩
          obtain ⟨hs, rfl⟩ := hpage hserved
          rw [Book.rows_since] at hrows
          cases hrows
          rw [Book.readTrades_since] at hreadPage
          cases hreadPage
          exact ⟨hs, rfl, rfl⟩
        · refine hfail _ e ⟨fun hserved => ?_, Nat.le_refl _⟩
          obtain ⟨hs, rfl⟩ := hpage hserved
          rw [Book.rows_since] at hrows
          cases hrows
          rw [Book.readTrades_since] at he
          cases he
      · refine hfail _ e ⟨fun hserved => ?_, Nat.le_refl _⟩
        obtain ⟨hs, rfl⟩ := hpage hserved
        rw [Book.rows_since] at he
        cases he
    · refine hfail _ e ⟨fun hserved => ?_, Nat.le_refl _⟩
      obtain ⟨⟨hs, -⟩, hserved⟩ := hserved
      have hanswer : response = _ := hserved fromId tradesQuery_fromId
      rw [hanswer] at he
      cases he
  · rw [hwire] at he
    cases he

/-- Rounds take few operations, whatever the exchange answers. -/
theorem readPages_short {P : (op : BinanceOp) → BinanceAns op → Prop} (rounds : Nat)
    {trades : List Trade} {fromId : String} {s : Prop × Nat} :
    Routine.Obeys (.expecting P) (fun s' _ _ => Adds s s' (2 * rounds) True)
      (fun s' _ _ => Adds s s' (2 * rounds) True)
      s () (client.readPages platform symbol cutoff rounds trades fromId) := by
  induction rounds generalizing trades fromId s with
  | zero => exact Adds.refl s
  | succ rounds ih =>
      have hclock : ∀ now, Adds s ((Contract.expecting P).next s .clientNow now)
          (2 * (rounds + 1)) True :=
        fun now => ⟨fun hserved => ⟨hserved.1, True.intro⟩, (by dsimp only; omega)⟩
      have hround : ∀ now op a, Adds s
          ((Contract.expecting P).next ((Contract.expecting P).next s .clientNow now) op a)
          (2 * (rounds + 1)) True :=
        fun now op a => ⟨fun hserved => ⟨hserved.1.1, True.intro⟩, (by dsimp only; omega)⟩
      refine Routine.obeys_bind.mpr (RestClient.obeys_check (fun wire _ => ?_)
        fun _ _ => (Adds.refl s).mono (Nat.zero_le _) fun h => h)
      refine Routine.obeys_bind.mpr (RestClient.obeys_signed True.intro (fun now _ _ => hclock now)
        fun now _ => RestClient.obeys_send True.intro (fun response data _ => ?_)
          fun response _ _ => hround now (.fetch _ _ _ _ _) response)
      refine Routine.obeys_bind.mpr (RestClient.obeys_check (fun page _ => ?_)
        fun _ _ => hround now (.fetch _ _ _ _ _) response)
      refine Routine.obeys_bind.mpr (RestClient.obeys_check (fun read _ => ?_)
        fun _ _ => hround now (.fetch _ _ _ _ _) response)
      split_ifs
      · exact hround now (.fetch _ _ _ _ _) response
      · have hadds : Adds s ((Contract.expecting P).next
            ((Contract.expecting P).next s .clientNow now) (.fetch .get client.origin
              RestClient.tradesPath (client.signedQuery platform [("symbol", wire),
                ("fromId", fromId), ("limit", natText pageSize)] now) true) response) 2 True :=
          ⟨fun hserved => ⟨hserved.1.1, True.intro⟩, Nat.le_refl _⟩
        exact ih.mono (fun s' _ _ h => hadds.trans h (by omega) fun _ _ => True.intro)
          fun s' _ _ h => hadds.trans h (by omega) fun _ _ => True.intro

/-- Rounds enough for the trades from the cursor on read all of them. -/
theorem readPages_served {book : Book client symbol} {wire : String}
    (hwire : client.symbol symbol false = .ok wire) (rounds : Nat) {trades : List Trade}
    {fromId : Nat} {s : Prop × Nat} (hrounds : (book.since fromId).length < rounds * pageSize) :
    Routine.Obeys (.expecting book.Serves)
      (fun s' _ result => Adds s s' (2 * rounds)
        (result = some (trades ++ Book.upTo cutoff (book.since fromId))))
      (fun s' _ _ => Adds s s' (2 * rounds) False)
      s () (client.readPages platform symbol cutoff rounds trades (natText fromId)) := by
  induction rounds generalizing trades fromId s with
  | zero => omega
  | succ rounds ih =>
      refine round_served hwire (fun s₁ page read hadds => ?_) fun s₁ e hadds =>
        hadds.mono (by omega) False.elim
      by_cases hserved : s₁.1
      · obtain ⟨-, rfl, rfl⟩ := hadds.1 hserved
        have hround : Adds s s₁ 2 True := hadds.mono le_rfl fun _ => True.intro
        obtain ⟨rest, hrest⟩ : ∃ rest, book.since fromId =
            (book.since fromId).take pageSize ++ rest :=
          ⟨(book.since fromId).drop pageSize, (List.take_append_drop _ _).symm⟩
        have hlength := congrArg List.length hrest
        rw [List.length_append, List.length_take] at hlength
        split_ifs with hdone
        · -- The last page, or a trade beyond the cutoff.
          have hnone : Book.upTo cutoff rest = [] := by
            rcases hdone with hshort | hbeyond
            · rw [List.length_map, List.length_take] at hshort
              rw [List.length_eq_zero_iff.mp (show rest.length = 0 by omega)]
              rfl
            · rw [(Book.pageAfter_eq _ _).2] at hbeyond
              exact Book.upTo_beyond hrest (hbeyond.resolve_left (by simp))
          refine hround.mono (by omega) fun _ => ?_
          conv_rhs => rw [hrest, Book.upTo_append, hnone, List.append_nil]
          rw [(Book.pageAfter_eq _ _).1]
        · -- A full page, whose last entry moves the cursor.
          rw [not_or, List.length_map, List.length_take] at hdone
          obtain ⟨first, e, hpage⟩ : ∃ first e, (book.since fromId).take pageSize =
              first ++ [e] := by
            refine (List.eq_nil_or_concat' _).resolve_left fun hempty => ?_
            have := congrArg List.length hempty
            rw [List.length_take, List.length_nil] at this
            unfold pageSize at *
            omega
          have hnext : book.since (e.2.number + 1) = rest :=
            Book.since_next (by rw [← hpage]; exact hrest)
          have hcursor : intText ((Book.pageAfter cutoff ⟨trades, (fromId : ℤ) - 1, false⟩
              ((book.since fromId).take pageSize)).previous + 1) = natText (e.2.number + 1) := by
            rw [hpage, Book.pageAfter_previous]
            rfl
          have htrades : (Book.pageAfter cutoff ⟨trades, (fromId : ℤ) - 1, false⟩
              ((book.since fromId).take pageSize)).trades ++ Book.upTo cutoff rest =
              trades ++ Book.upTo cutoff (book.since fromId) := by
            conv_rhs => rw [hrest, Book.upTo_append]
            rw [(Book.pageAfter_eq _ _).1, List.append_assoc]
          have hfewer : (book.since (e.2.number + 1)).length < rounds * pageSize := by
            rw [hnext]
            rw [Nat.succ_mul] at hrounds
            omega
          rw [hcursor]
          refine (ih hfewer).mono (fun s' _ result h => ?_) fun s' _ e h => ?_
          · refine hround.trans h (by omega) fun _ hresult => ?_
            rw [hresult, hnext, htrades]
          · exact hround.trans h (by omega) fun _ hfalse => hfalse
      · -- The exchange has not answered as it should.
        have hrefuted : ∀ {s' : Prop × Nat} {fact : Prop}, Adds s₁ s' (2 * rounds) True →
            Adds s s' (2 * (rounds + 1)) fact := by
          intro s' fact h
          refine ⟨fun hs' => absurd (h.1 hs').1 hserved, ?_⟩
          have := h.2
          have := hadds.2
          omega
        split_ifs
        · exact hrefuted ((Adds.refl s₁).mono (Nat.zero_le _) fun h => h)
        · exact (readPages_short rounds).mono (fun s' _ _ h => hrefuted h)
            fun s' _ _ h => hrefuted h

structure Paginates (platform : Platform) (client : RestClient) (symbol : String) (cutoff : ℤ) :
    Prop where
  /-- Against an exchange that holds its trades in order, some number of rounds suffices, and
  the trades up to the cutoff are returned as they stand. -/
  complete : ∀ {wire}, client.symbol symbol false = .ok wire →
    ∀ (book : Book client symbol) (rounds : Nat),
    book.entries.length < rounds * pageSize →
    ∀ {trace r}, (client.spotTrades platform rounds symbol cutoff ()).Yields trace r →
    (∀ d ∈ trace, book.Serves d.1 d.2) →
    r.1 = .ok (some ((book.entries.map Prod.snd).filter fun t => t.timestampMs ≤ cutoff))
  ends : ∀ rounds answer, ∃ trace r,
    (client.spotTrades platform rounds symbol cutoff ()).Yields trace r ∧
      Program.AnsweredBy answer trace
  /-- Whatever is answered, what is returned stands in the order of the ids. -/
  ordered : ∀ {rounds trace trades l},
    (client.spotTrades platform rounds symbol cutoff ()).Yields trace (.ok (some trades), l) →
    trades.Pairwise fun t t' => t.number < t'.number
  /-- Whatever is answered, every page is asked for from an id above all that were read. -/
  ahead : ∀ {rounds past method origin path query signed},
    (client.spotTrades platform rounds symbol cutoff ()).Starts past
      (.fetch method origin path query signed) →
    ∃ fromId, query.lookup "fromId" = some (natText fromId) ∧
      ∀ n, Seen client symbol past n → n < fromId

theorem spotTrades_eq (rounds : Nat) : client.spotTrades platform rounds symbol cutoff =
    client.readPages platform symbol cutoff rounds [] (natText 0) :=
  rfl

theorem spotTrades_paginates (platform : Platform) (client : RestClient) (symbol : String)
    (cutoff : ℤ) : Paginates platform client symbol cutoff := by
  have hahead : ∀ rounds, Routine.Obeys (ahead client symbol)
      (fun _ _ result => Ordered result) (fun _ _ _ => True) [] ()
      (client.spotTrades platform rounds symbol cutoff) := by
    intro rounds
    rw [spotTrades_eq]
    refine readPages_ahead rounds List.Pairwise.nil
      (fun t ht => absurd ht List.not_mem_nil) fun n h => ?_
    obtain ⟨method, origin, path, query, signed, response, items, item, t, hmem, -⟩ := h
    cases hmem
  constructor
  case complete =>
    intro wire hwire book rounds hrounds trace r hyields hanswers
    have hserved : Routine.Obeys (.expecting book.Serves) _ _ (True, 0) ()
        (client.readPages platform symbol cutoff rounds [] (natText 0)) :=
      readPages_served hwire rounds (by rwa [Book.since_zero])
    rw [spotTrades_eq] at hyields
    have hpost := hserved.yields hyields
    have hall := (Contract.after_expecting book.Serves (True, 0) trace).1.mpr
      ⟨True.intro, hanswers⟩
    obtain ⟨result, l⟩ := r
    cases result with
    | ok result =>
        have hresult := (hpost.1 hall).2
        rw [hresult, Book.since_zero, List.nil_append]
        rfl
    | error e => exact (hpost.1 hall).2.elim
  case ends => exact fun rounds answer => Program.exists_yields _ answer
  case ordered =>
    intro rounds trace trades l hyields
    exact (hahead rounds).yields hyields
  case ahead =>
    intro rounds past method origin path query signed hstarts
    have hallowed := (hahead rounds).starts hstarts
    rw [after_ahead] at hallowed
    exact hallowed

/-- Every book is served by some exchange. -/
theorem Book.exists_serves (book : Book client symbol) (op : BinanceOp) :
    ∃ a, book.Serves op a := by
  cases op with
  | clientNow => exact ⟨(0 : ℤ), 0, by decide +kernel⟩
  | now => exact ⟨(0 : ℤ), True.intro⟩
  | beforeSideEffect => exact ⟨.ok (), True.intro⟩
  | fetch method origin path query signed =>
      by_cases hcursor : ∃ fromId, query.lookup "fromId" = some (natText fromId)
      · obtain ⟨fromId, hfrom⟩ := hcursor
        refine ⟨some ⟨true, 200, .arr (((book.since fromId).take pageSize).map Prod.fst)⟩, ?_⟩
        intro fromId' hfrom'
        rw [natText_injective (Option.some.inj (hfrom.symm.trans hfrom'))]
      · exact ⟨none, fun fromId hfrom => absurd ⟨fromId, hfrom⟩ hcursor⟩

def tradeRow (n : Nat) : Json :=
  .obj [
    ("symbol", .str "BTCUSDT"),
    ("isBuyer", .bool true),
    ("id", .str (natText n)),
    ("orderId", .str "7"),
    ("qty", .num (.ofNat 1)),
    ("quoteQty", .num (.ofNat 5)),
    ("price", .num (.ofNat 5)),
    ("commission", .num (.ofNat 0)),
    ("commissionAsset", .str "BNB"),
    ("time", .num (.ofNat 1))]

def tradeAt (n : Nat) : Trade :=
  ⟨natText n, "7", "BTC-USDT", .buy, 1, 5, 5, 0, "BNB", 1⟩

theorem trade_tradeRow (n : Nat) : spotClient.trade (tradeRow n) "BTC-USDT" = .ok (tradeAt n) := by
  have hid : Binance.id (some (.str (natText n))) = .ok (natText n) :=
    if_pos (IntentSchema.canonicalDecimal_iff.mpr (canonical_natText n))
  have hone : positive (some (.num (.ofNat 1))) = .ok 1 := by decide +kernel
  have hfive : positive (some (.num (.ofNat 5))) = .ok 5 := by decide +kernel
  have hcommission : number (some (.num (.ofNat 0))) (some 0) = .ok 0 := by decide +kernel
  have htime : timestamp (some (.num (.ofNat 1))) = .ok 1 := by decide +kernel
  have hwire : wireSymbol "BTC-USDT" = .ok "BTCUSDT" := by decide +kernel
  refine bind_eq_ok.mpr ⟨_, hwire, ?_⟩
  have hsymbol : (tradeRow n).field? "symbol" = some (.str "BTCUSDT") := rfl
  rw [hsymbol, if_neg (not_not.mpr rfl)]
  refine bind_eq_ok.mpr ⟨.buy, rfl, bind_eq_ok.mpr ⟨_, hid, bind_eq_ok.mpr ⟨"7", rfl, ?_⟩⟩⟩
  refine bind_eq_ok.mpr ⟨_, hone, bind_eq_ok.mpr ⟨_, hfive, bind_eq_ok.mpr ⟨_, hfive, ?_⟩⟩⟩
  exact bind_eq_ok.mpr ⟨_, hcommission, bind_eq_ok.mpr ⟨"BNB", rfl,
    bind_eq_ok.mpr ⟨_, htime, rfl⟩⟩⟩

def crowdedBook : Book spotClient "BTC-USDT" where
  entries := (List.range 1500).map fun n => (tradeRow n, tradeAt n)
  read e he := by
    obtain ⟨n, -, rfl⟩ := List.mem_map.mp he
    exact trade_tradeRow n
  ascending := by
    rw [List.pairwise_map]
    refine List.pairwise_lt_range.imp fun h => ?_
    simpa [Trade.number, tradeAt, digitsValue_natText] using h
  inTime := by
    rw [List.pairwise_map]
    exact List.pairwise_of_forall fun _ _ => le_rfl

/-- Two pages are read, and every trade is returned. -/
theorem spotTrades_paginates_crowded : ∃ trace,
    (spotClient.spotTrades plainPlatform 2 "BTC-USDT" 5 ()).Yields trace
      (.ok (some ((List.range 1500).map tradeAt)), ()) ∧
    ∀ d ∈ trace, crowdedBook.Serves d.1 d.2 := by
  choose answer hanswer using crowdedBook.exists_serves
  have hpaginates := spotTrades_paginates plainPlatform spotClient "BTC-USDT" 5
  obtain ⟨trace, ⟨r, l⟩, hyields, hanswered⟩ := hpaginates.ends 2 fun _ => answer
  have hserves := hanswered.forall_mem fun _ => hanswer
  have hwire : spotClient.symbol "BTC-USDT" false = .ok "BTCUSDT" := by decide +kernel
  have hpages : crowdedBook.entries.length < 2 * pageSize := by
    rw [crowdedBook, List.length_map, List.length_range]
    decide
  have hall : r = _ := hpaginates.complete hwire crowdedBook 2 hpages hyields hserves
  have htrades : (crowdedBook.entries.map Prod.snd).filter (fun t => t.timestampMs ≤ 5) =
      (List.range 1500).map tradeAt := by
    rw [crowdedBook, List.map_map]
    refine List.filter_eq_self.mpr fun t ht => ?_
    obtain ⟨n, -, rfl⟩ := List.mem_map.mp ht
    rfl
  rw [htrades] at hall
  rw [hall] at hyields
  exact ⟨trace, hyields, hserves⟩

end Binance
end TradingGuardrails
