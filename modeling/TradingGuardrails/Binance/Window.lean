import TradingGuardrails.Binance.History

/-!
The rows of a window of time are collected completely: the halves of a window share no row
and miss none, so what is returned is what the exchange holds, and only a millisecond that
does not fit on a page stops the collection.
-/
namespace TradingGuardrails

open Text Interleaving

namespace Binance

def timeOf (item : Json) : Option ℤ :=
  (timestamp (item.field? "time")).toOption

def inWindow (start stop : ℤ) (item : Json) : Bool :=
  (timeOf item).any fun time => decide (start ≤ time) && decide (time ≤ stop)

abbrev window (all : List Json) (start stop : ℤ) : List Json :=
  all.filter (inWindow start stop)

def Overfull (all : List Json) (start stop : ℤ) : Prop :=
  ∃ ms, start ≤ ms ∧ ms ≤ stop ∧ pageSize ≤ (window all ms ms).length

/-- The answer to a query: all rows of a window, or as many as fit on a page. -/
structure ServedWindow (all : List Json) (start stop : ℤ) (rows : List Json) : Prop where
  few : (window all start stop).length < pageSize →
    rows.Perm (window all start stop)
  full : pageSize ≤ (window all start stop).length →
    rows.length = pageSize ∧ rows.Subperm (window all start stop)

/-- A clock that the client accepts, and an exchange that holds the given rows. -/
def Serves (all : List Json) : (op : BinanceOp) → BinanceAns op → Prop
  | .clientNow, now => ∃ time, RestClient.clockTime now = .ok time
  | .fetch _ _ _ query _, response => ∀ start stop,
      query.lookup "startTime" = some (intText start) →
      query.lookup "endTime" = some (intText stop) →
      ∃ rows, response = some ⟨true, 200, .arr rows⟩ ∧ ServedWindow all start stop rows
  | .now, _ | .beforeSideEffect, _ => True

variable {all : List Json} {start stop : ℤ}

theorem inWindow_iff {item : Json} :
    inWindow start stop item = true ↔
      ∃ time, timestamp (item.field? "time") = .ok time ∧ start ≤ time ∧ time ≤ stop := by
  unfold inWindow timeOf
  cases timestamp (item.field? "time") with
  | error e => simp [Except.toOption]
  | ok time => simp [Except.toOption]

theorem isObj_of_inWindow {item : Json} (h : inWindow start stop item = true) :
    ∃ fields, item = .obj fields := by
  obtain ⟨time, htime, -⟩ := inWindow_iff.mp h
  cases item with
  | obj fields => exact ⟨fields, rfl⟩
  | null | bool | num | str | arr => cases htime

theorem window_empty (h : stop < start) : window all start stop = [] := by
  refine List.filter_eq_nil_iff.mpr fun item _ hitem => ?_
  obtain ⟨time, -, hstart, hstop⟩ := inWindow_iff.mp hitem
  omega

theorem inWindow_halves {middle : ℤ} (hstart : start ≤ middle) (hstop : middle < stop)
    (item : Json) : inWindow start stop item =
      (inWindow start middle item || inWindow (middle + 1) stop item) := by
  unfold inWindow
  cases timeOf item with
  | none => rfl
  | some time =>
      simp only [Option.any_some]
      rw [Bool.eq_iff_iff]
      simp only [Bool.and_eq_true, Bool.or_eq_true, decide_eq_true_eq]
      omega

theorem window_halves {middle : ℤ} (hstart : start ≤ middle) (hstop : middle < stop) :
    (window all start middle ++ window all (middle + 1) stop).Perm
      (window all start stop) := by
  have hapart : ∀ item, inWindow start middle item = true →
      inWindow (middle + 1) stop item = false := by
    intro item hitem
    rw [Bool.eq_false_iff]
    intro hother
    obtain ⟨time, htime, -, hle⟩ := inWindow_iff.mp hitem
    obtain ⟨time', htime', hge, -⟩ := inWindow_iff.mp hother
    rw [htime] at htime'
    cases htime'
    omega
  induction all with
  | nil => exact List.Perm.refl _
  | cons item all ih =>
      have hsplit : inWindow start stop item = _ :=
        inWindow_halves hstart hstop item
      cases hfirst : inWindow start middle item with
      | true =>
          rw [hfirst, Bool.true_or] at hsplit
          rw [window, window, window, List.filter_cons_of_pos hfirst,
            List.filter_cons_of_neg (by simp [hapart item hfirst]),
            List.filter_cons_of_pos hsplit]
          exact ih.cons item
      | false =>
          rw [hfirst, Bool.false_or] at hsplit
          rw [window, window, window, List.filter_cons_of_neg (by simp [hfirst])]
          cases hsecond : inWindow (middle + 1) stop item with
          | true =>
              rw [hsecond] at hsplit
              rw [List.filter_cons_of_pos hsecond, List.filter_cons_of_pos hsplit]
              exact List.perm_middle.trans (ih.cons item)
          | false =>
              rw [hsecond] at hsplit
              rw [List.filter_cons_of_neg (by simp [hsecond]),
                List.filter_cons_of_neg (by simp [hsplit])]
              exact ih

theorem overfull_halves {middle : ℤ} (hstart : start ≤ middle) (hstop : middle < stop) :
    Overfull all start stop ↔
      Overfull all start middle ∨ Overfull all (middle + 1) stop := by
  constructor
  · rintro ⟨ms, hge, hle, hfull⟩
    by_cases hms : ms ≤ middle
    · exact .inl ⟨ms, hge, hms, hfull⟩
    · exact .inr ⟨ms, by omega, hle, hfull⟩
  · rintro (⟨ms, hge, hle, hfull⟩ | ⟨ms, hge, hle, hfull⟩)
    · exact ⟨ms, hge, by omega, hfull⟩
    · exact ⟨ms, by omega, hle, hfull⟩

/-- A window that fits on a page has no overfull millisecond. -/
theorem not_overfull (h : (window all start stop).length < pageSize) :
    ¬Overfull all start stop := by
  rintro ⟨ms, hge, hle, hfull⟩
  have hsub : (window all ms ms).length ≤ (window all start stop).length := by
    refine List.Sublist.length_le (List.monotone_filter_right all fun item hitem => ?_)
    obtain ⟨time, htime, hlow, hhigh⟩ := inWindow_iff.mp hitem
    exact inWindow_iff.mpr ⟨time, htime, by omega, by omega⟩
  omega

theorem rows_arr {values : List Json} (h : ∀ value ∈ values, ∃ fields, value = .obj fields) :
    rows (some (.arr values)) = .ok values := by
  have hmap : (values.mapM fun value => row (some value)) = .ok values := by
    induction values with
    | nil => rfl
    | cons value values ih =>
        obtain ⟨fields, rfl⟩ := h _ List.mem_cons_self
        rw [List.mapM_cons, ih fun value hvalue => h value (List.mem_cons_of_mem _ hvalue)]
        rfl
  exact hmap

theorem forM_ok {α : Type} {f : α → Except Thrown Unit} {xs : List α}
    (h : ∀ x ∈ xs, f x = .ok ()) : xs.forM f = .ok () := by
  induction xs with
  | nil => rfl
  | cons x xs ih =>
      change (f x >>= fun _ => xs.forM f) = .ok ()
      rw [h x List.mem_cons_self]
      exact ih fun y hy => h y (List.mem_cons_of_mem _ hy)

theorem readWindow_ok {values : List Json} (hlength : values.length ≤ pageSize)
    (h : ∀ value ∈ values, inWindow start stop value = true) :
    RestClient.readWindow start stop (.arr values) = .ok values := by
  have hrows := rows_arr fun value hvalue => isObj_of_inWindow (h value hvalue)
  have htimes : values.forM (RestClient.checkTime start stop) = .ok () := by
    refine forM_ok fun value hvalue => ?_
    obtain ⟨time, htime, hstart, hstop⟩ := inWindow_iff.mp (h value hvalue)
    rw [RestClient.checkTime, htime]
    exact if_neg (by omega)
  rw [RestClient.readWindow, hrows]
  change (if pageSize < values.length then invalid else _) = _
  rw [if_neg (by omega), htimes]
  rfl

theorem ServedWindow.mem {rows : List Json} (h : ServedWindow all start stop rows)
    {item : Json} (hitem : item ∈ rows) : inWindow start stop item = true := by
  have hwindow : item ∈ window all start stop := by
    by_cases hfew : (window all start stop).length < pageSize
    · exact (h.few hfew).mem_iff.mp hitem
    · exact (h.full (Nat.not_lt.mp hfew)).2.subset hitem
  exact (List.mem_filter.mp hwindow).2

theorem ServedWindow.length_le {rows : List Json} (h : ServedWindow all start stop rows) :
    rows.length ≤ pageSize := by
  by_cases hfew : (window all start stop).length < pageSize
  · rw [(h.few hfew).length_eq]
    omega
  · exact le_of_eq (h.full (Nat.not_lt.mp hfew)).1

theorem windowQuery_times {platform : Platform} {client : RestClient} {params : Params} {now : ℤ} :
    (client.signedQuery platform (RestClient.windowParams params start stop) now).lookup
        "startTime" = some (intText start) ∧
      (client.signedQuery platform (RestClient.windowParams params start stop) now).lookup
        "endTime" = some (intText stop) := by
  simp only [RestClient.signedQuery, RestClient.windowParams]
  constructor
  · rw [Json.lookup_putMember_of_ne _ _ (by decide), Json.lookup_putMember_of_ne _ _ (by decide),
      Json.lookup_putMember_of_ne _ _ (by decide), Json.lookup_putMember_of_ne _ _ (by decide),
      Json.lookup_putMember_of_ne _ _ (by decide), Json.lookup_putMember_self]
  · rw [Json.lookup_putMember_of_ne _ _ (by decide), Json.lookup_putMember_of_ne _ _ (by decide),
      Json.lookup_putMember_of_ne _ _ (by decide), Json.lookup_putMember_of_ne _ _ (by decide),
      Json.lookup_putMember_self]

abbrev serving (all : List Json) : Contract BinanceOp BinanceAns :=
  .expecting (Serves all)

variable {platform : Platform} {client : RestClient} {path : String} {params : Params}

/-- One query reads the rows that such an exchange answers. -/
theorem query_served {s : Prop × Nat} {α : Type} {f : List Json → Rest α}
    {ok : Prop × Nat → Unit → α → Prop} {err : Prop × Nat → Unit → Thrown → Prop}
    (hread : ∀ s' rows, Adds s s' 2 (ServedWindow all start stop rows) →
      Routine.Obeys (serving all) ok err s' () (f rows))
    (hfail : ∀ s' e, Adds s s' 2 False → err s' () e) :
    Routine.Obeys (serving all) ok err s () (do
      let data ← client.request platform .get path (RestClient.windowParams params start stop) true
        client.origin
      let result ← check (RestClient.readWindow start stop data)
      f result) := by
  refine Routine.obeys_bind.mpr (RestClient.obeys_signed True.intro (fun now e he => ?_)
    fun now hnow => RestClient.obeys_send True.intro (fun response data hdata => ?_)
      fun response e he => ?_)
  · refine hfail _ e ⟨fun hserved => ?_, Nat.le_succ _⟩
    obtain ⟨time, htime⟩ := hserved.2
    rw [he] at htime
    cases htime
  · -- The answer is read as the rows of the window.
    have hrows : ((s.1 ∧ Serves all .clientNow now) ∧
        Serves all (.fetch .get client.origin path
          (client.signedQuery platform (RestClient.windowParams params start stop) now) true)
          response) →
        s.1 ∧ ∃ rows, data = .arr rows ∧ ServedWindow all start stop rows := by
      rintro ⟨⟨hs, -⟩, hserved⟩
      obtain ⟨rows, rfl, hwindow⟩ := hserved start stop windowQuery_times.1 windowQuery_times.2
      cases hdata
      exact ⟨hs, rows, rfl, hwindow⟩
    refine Routine.obeys_bind.mpr (RestClient.obeys_check (fun result hresult => ?_) fun e he => ?_)
    · refine hread _ result ⟨fun hserved => ?_, Nat.le_refl _⟩
      obtain ⟨hs, rows, rfl, hwindow⟩ := hrows hserved
      rw [readWindow_ok hwindow.length_le fun item hitem => hwindow.mem hitem] at hresult
      cases hresult
      exact ⟨hs, hwindow⟩
    · refine hfail _ e ⟨fun hserved => ?_, Nat.le_refl _⟩
      obtain ⟨hs, rows, rfl, hwindow⟩ := hrows hserved
      rw [readWindow_ok hwindow.length_le fun item hitem => hwindow.mem hitem] at he
      cases he
  · refine hfail _ e ⟨fun hserved => ?_, Nat.le_refl _⟩
    obtain ⟨⟨hs, -⟩, hserved⟩ := hserved
    obtain ⟨rows, rfl, hwindow⟩ := hserved start stop windowQuery_times.1 windowQuery_times.2
    cases he

def operations (start stop : ℤ) : Nat :=
  4 * (stop - start + 1).toNat - 2

theorem timeWindow_served {s : Prop × Nat} :
    Routine.Obeys (serving all)
      (fun s' _ result => Adds s s' (operations start stop)
        (result.Perm (window all start stop) ∧
          ¬Overfull all start stop))
      (fun s' _ _ => Adds s s' (operations start stop)
        (Overfull all start stop))
      s () (client.timeWindow platform path params start stop) := by
  generalize hsize : (stop - start + 1).toNat = size
  induction size using Nat.strong_induction_on generalizing start stop s with
  | _ size ih =>
  rw [RestClient.timeWindow]
  by_cases hempty : stop < start
  · -- An empty window is not asked for.
    rw [if_pos hempty]
    refine ⟨fun hs => ⟨hs, ?_, ?_⟩, Nat.le_add_right _ _⟩
    · rw [window_empty hempty]
    · rintro ⟨ms, hge, hle, -⟩
      omega
  rw [if_neg hempty]
  refine query_served (fun s₁ rows hadds => ?_) fun s₁ e hadds => ?_
  · by_cases hfew : rows.length < pageSize
    · -- The window fits on the page.
      rw [if_pos hfew]
      refine hadds.mono (by unfold operations; omega) fun hwindow => ?_
      have hlength : (window all start stop).length < pageSize := by
        by_contra hfull
        rw [(hwindow.full (Nat.not_lt.mp hfull)).1] at hfew
        exact Nat.lt_irrefl _ hfew
      exact ⟨hwindow.few hlength, not_overfull hlength⟩
    rw [if_neg hfew]
    by_cases hsingle : start = stop
    · -- A single millisecond fills the page.
      rw [if_pos hsingle]
      refine hadds.mono (by unfold operations; omega) fun hwindow => ?_
      refine ⟨start, le_refl _, by omega, ?_⟩
      by_contra hlength
      rw [← hsingle] at hwindow
      rw [(hwindow.few (Nat.not_le.mp hlength)).length_eq] at hfew
      exact hlength (Nat.not_lt.mp hfew)
    · -- Both halves are collected.
      rw [if_neg hsingle]
      have hlow : start ≤ start + (stop - start) / 2 := by omega
      have hhigh : start + (stop - start) / 2 < stop := by omega
      refine Routine.obeys_bind.mpr (Routine.Obeys.mono
        (ih _ (by omega) (s := s₁) rfl) ?_ ?_)
      · intro s₂ _ first hfirst
        refine Routine.obeys_bind.mpr (Routine.Obeys.mono
          (ih _ (by omega) (s := s₂) rfl) ?_ ?_)
        · intro s₃ _ second hsecond
          refine (hadds.trans hfirst le_rfl fun _ h => h).trans hsecond
            (by unfold operations; omega) fun hfirst hsecond => ⟨?_, ?_⟩
          · exact (hfirst.1.append hsecond.1).trans (window_halves hlow hhigh)
          · rw [overfull_halves hlow hhigh, not_or]
            exact ⟨hfirst.2, hsecond.2⟩
        · intro s₃ _ e hsecond
          exact (hadds.trans hfirst le_rfl fun _ h => h).trans hsecond
            (by unfold operations; omega)
            fun _ hsecond => (overfull_halves hlow hhigh).mpr (.inr hsecond)
      · intro s₂ _ e hfirst
        exact hadds.trans hfirst (by unfold operations; omega)
          fun _ hfirst => (overfull_halves hlow hhigh).mpr (.inl hfirst)
  · exact hadds.mono (by unfold operations; omega) False.elim

structure Collects (platform : Platform) (client : RestClient) (path : String) (params : Params)
    (all : List Json) (start stop : ℤ) : Prop where
  ends : ∀ answer, ∃ trace r, (client.timeWindow platform path params start stop ()).Yields trace r ∧
    Program.AnsweredBy answer trace
  short : ∀ {trace r}, (client.timeWindow platform path params start stop ()).Yields trace r →
    trace.length ≤ operations start stop
  complete : ∀ {trace r}, (client.timeWindow platform path params start stop ()).Yields trace r →
    (∀ d ∈ trace, Serves all d.1 d.2) →
    (∀ result, r.1 = .ok result → result.Perm (window all start stop)) ∧
      ((∃ e, r.1 = .error e) ↔ Overfull all start stop)

theorem timeWindow_collects (platform : Platform) (client : RestClient) (path : String)
    (params : Params) (all : List Json) (start stop : ℤ) :
    Collects platform client path params all start stop := by
  have hserved : Routine.Obeys (serving all) _ _ (True, 0) ()
      (client.timeWindow platform path params start stop) := timeWindow_served
  constructor
  case ends => exact fun answer => Program.exists_yields _ answer
  case short =>
    intro trace r hyields
    have hpost := hserved.yields hyields
    have hlength := (Contract.after_expecting (Serves all) (True, 0) trace).2
    obtain ⟨result, l⟩ := r
    cases result with
    | ok result =>
        have hshort := hpost.2
        rw [hlength] at hshort
        omega
    | error e =>
        have hshort := hpost.2
        rw [hlength] at hshort
        omega
  case complete =>
    intro trace r hyields hanswers
    have hpost := hserved.yields hyields
    have hall := (Contract.after_expecting (Serves all) (True, 0) trace).1.mpr
      ⟨True.intro, hanswers⟩
    obtain ⟨result, l⟩ := r
    cases result with
    | ok result =>
        obtain ⟨-, hperm, hnot⟩ := hpost.1 hall
        constructor
        · intro result' heq
          cases heq
          exact hperm
        · refine ⟨fun herror => ?_, fun hfull => absurd hfull hnot⟩
          obtain ⟨e, he⟩ := herror
          cases he
    | error e =>
        obtain ⟨-, hfull⟩ := hpost.1 hall
        refine ⟨fun result heq => ?_, fun _ => hfull, fun _ => ⟨e, rfl⟩⟩
        cases heq

/-- Every history is served by some exchange. -/
theorem exists_serves (all : List Json) (op : BinanceOp) : ∃ a, Serves all op a := by
  cases op with
  | clientNow => exact ⟨(0 : ℤ), 0, by decide +kernel⟩
  | now => exact ⟨(0 : ℤ), True.intro⟩
  | beforeSideEffect => exact ⟨.ok (), True.intro⟩
  | fetch method origin path query signed =>
      by_cases hwindow : ∃ start stop, query.lookup "startTime" = some (intText start) ∧
          query.lookup "endTime" = some (intText stop)
      · obtain ⟨start, stop, hstart, hstop⟩ := hwindow
        refine ⟨some ⟨true, 200, .arr ((window all start stop).take pageSize)⟩, ?_⟩
        intro start' stop' hstart' hstop'
        have heq : start = start' := intText_injective (Option.some.inj (hstart.symm.trans hstart'))
        have heq' : stop = stop' := intText_injective (Option.some.inj (hstop.symm.trans hstop'))
        subst heq heq'
        refine ⟨_, rfl, fun hfew => ?_, fun hfull => ⟨?_, (List.take_sublist _ _).subperm⟩⟩
        · rw [List.take_of_length_le hfew.le]
        · rw [List.length_take, Nat.min_eq_left hfull]
      · exact ⟨none, fun start stop hstart hstop => absurd ⟨start, stop, hstart, hstop⟩ hwindow⟩

def plainPlatform : Platform :=
  ⟨plainHost (fun _ => zeroDigest) (fun _ _ => zeroDigest), fun _ => ""⟩

def spotClient : RestClient :=
  ⟨"main", .spot, ["BTC-USDT"], ["BTC-USDT"], "secret", true, 1, 5000⟩

def rowAt (ms : Nat) : Json :=
  .obj [("time", .num (.ofNat ms))]

def crowdedRows : List Json :=
  List.replicate 600 (rowAt 1) ++ List.replicate 600 (rowAt 3)

theorem length_crowded (start stop : ℤ) : (window crowdedRows start stop).length =
    (if start ≤ 1 ∧ 1 ≤ stop then 600 else 0) + if start ≤ 3 ∧ 3 ≤ stop then 600 else 0 := by
  have hrow : ∀ ms ∈ [1, 3], timeOf (rowAt ms) = some (ms : ℤ) := by decide +kernel
  have hwindow : ∀ ms ∈ [1, 3], inWindow start stop (rowAt ms) =
      decide (start ≤ (ms : ℤ) ∧ (ms : ℤ) ≤ stop) := by
    intro ms hms
    rw [inWindow, hrow ms hms]
    simp
  rw [crowdedRows, window, List.filter_append, List.filter_replicate, List.filter_replicate,
    hwindow 1 (by decide), hwindow 3 (by decide), List.length_append, apply_ite List.length,
    apply_ite List.length, List.length_replicate, List.length_replicate, List.length_nil]
  simp only [decide_eq_true_eq, Nat.cast_one, Nat.cast_ofNat]

/-- The first page is full, so the window is divided, and all rows are collected. -/
theorem timeWindow_collects_crowded :
    pageSize ≤ (window crowdedRows 0 5).length ∧ ∃ trace result,
      (spotClient.timeWindow plainPlatform "/api/v3/allOrders" [] 0 5 ()).Yields trace
        (.ok result, ()) ∧ (∀ d ∈ trace, Serves crowdedRows d.1 d.2) ∧
      result.Perm (window crowdedRows 0 5) := by
  choose answer hanswer using exists_serves crowdedRows
  have hcollects := timeWindow_collects plainPlatform spotClient "/api/v3/allOrders" []
    crowdedRows 0 5
  obtain ⟨trace, ⟨r, l⟩, hyields, hanswered⟩ := hcollects.ends fun _ => answer
  have hserves := hanswered.forall_mem fun _ => hanswer
  obtain ⟨hok, herror⟩ := hcollects.complete hyields hserves
  have hroom : ¬Overfull crowdedRows 0 5 := by
    rintro ⟨ms, -, -, hfull⟩
    rw [length_crowded] at hfull
    have hpage : pageSize = 1000 := rfl
    split_ifs at hfull <;> omega
  refine ⟨by rw [length_crowded]; decide, ?_⟩
  cases r with
  | error e => exact absurd (herror.mp ⟨e, rfl⟩) hroom
  | ok result => exact ⟨trace, result, hyields, hserves, hok result rfl⟩

def minusOne : Numeral :=
  ⟨['-', '1'], by decide, by decide⟩

def earlyRow : Json :=
  .obj [("time", .num minusOne)]

/-- The exchange answers the only row that it holds, and the collection throws. -/
theorem early_row_throws :
    (minusOne.value = -1 ∧ [earlyRow].length < pageSize) ∧
    (spotClient.timeWindow plainPlatform "/api/v3/allOrders" [] (-1) (-1) ()).Yields
      [⟨.clientNow, (0 : ℤ)⟩,
        ⟨.fetch .get spotClient.origin "/api/v3/allOrders" (spotClient.signedQuery plainPlatform
          (RestClient.windowParams [] (-1) (-1)) 0) true, some ⟨true, 200, .arr [earlyRow]⟩⟩]
      (.error (.ofMessage "Binance returned invalid or incomplete data."), ()) := by
  refine ⟨(by decide +kernel), ?_⟩
  rw [RestClient.timeWindow, if_neg (by decide)]
  have hread : RestClient.readWindow (-1) (-1) (.arr [earlyRow]) =
      .error (.ofMessage "Binance returned invalid or incomplete data.") := by
    decide +kernel
  refine ⟨(0 : ℤ), _, rfl, _, _, rfl, ?_⟩
  change Program.Yields ((check (RestClient.readWindow (-1) (-1) (.arr [earlyRow])) >>=
    _) ()) [] _
  rw [hread]
  exact ⟨rfl, rfl⟩

end Binance
end TradingGuardrails
