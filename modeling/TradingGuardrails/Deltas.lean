import Mathlib.Algebra.Order.Monoid.Defs
import TradingGuardrails.Ledger

/-!
Reported changes against declared ranges. A row reports a change under a key, and may be
malformed in its key or in its amount. The rows meet the ranges when all keys are well formed,
nothing is reported under a key that no range has, and what is reported under the key of a
range adds up to an amount within it. Whether they do depends on sums and not on how a sum is
divided among rows.
-/
namespace Deltas

variable {κ α γ δ : Type} [DecidableEq κ] [AddCommMonoid α]

structure Row (κ α : Type) where
  key : Option κ
  delta : Option α

structure Range (κ α : Type) where
  key : κ
  low : Option α
  high : Option α

def rowsOf (rows : List (Row κ α)) (key : κ) : List (Row κ α) :=
  rows.filter fun row => decide (row.key = some key)

def total (rows : List (Row κ α)) (key : κ) : α :=
  Ledger.total (fun k => k = some key) (rows.map fun row => (row.key, row.delta.getD 0))

def Declared (ranges : List (Range κ α)) (key : κ) : Prop :=
  ∃ range ∈ ranges, range.key = key

/-- A row has a key, and no change under a key that no range has. -/
structure Expected (ranges : List (Range κ α)) (row : Row κ α) : Prop where
  formed : row.key.isSome = true
  undeclared : ∀ key ∈ row.key, ¬ Declared ranges key → row.delta = some 0

theorem mapM_eq_some {f : γ → Option δ} {l : List γ} {ds : List δ} :
    l.mapM f = some ds ↔ l.map f = ds.map some := by
  induction l generalizing ds with
  | nil => cases ds <;> simp
  | cons a l ih =>
      rw [List.mapM_cons, List.map_cons, Option.bind_eq_bind, Option.bind_eq_some_iff]
      constructor
      · rintro ⟨d, hd, h⟩
        rw [Option.bind_eq_bind, Option.bind_eq_some_iff] at h
        obtain ⟨rest, hrest, h⟩ := h
        cases h
        rw [hd, ih.mp hrest, List.map_cons]
      · intro h
        cases ds with
        | nil => cases h
        | cons d ds =>
            obtain ⟨hd, htail⟩ := List.cons.inj h
            exact ⟨d, hd, by rw [ih.mpr htail]; rfl⟩

theorem total_eq_sum (rows : List (Row κ α)) (key : κ) :
    total rows key = ((rowsOf rows key).map fun row => row.delta.getD 0).sum := by
  induction rows with
  | nil => rfl
  | cons row rows ih =>
      unfold total rowsOf at ih ⊢
      rw [List.map_cons, Ledger.total_cons, ih, List.filter_cons]
      by_cases hkey : row.key = some key
      · simp [hkey]
      · simp [hkey]

/-- Amounts that are all well formed add up to the total. -/
theorem total_of_mapM {rows : List (Row κ α)} {key : κ} {deltas : List α}
    (h : (rowsOf rows key).mapM Row.delta = some deltas) : deltas.sum = total rows key := by
  have hmap := congrArg (List.map fun d : Option α => d.getD 0) (mapM_eq_some.mp h)
  rw [List.map_map, List.map_map] at hmap
  rw [total_eq_sum]
  refine congrArg List.sum (Eq.symm ?_)
  calc (rowsOf rows key).map (fun row => row.delta.getD 0)
      = deltas.map ((fun d : Option α => d.getD 0) ∘ some) := hmap
    _ = deltas := List.map_id deltas

/-- Rows that may stand in for others: their totals are the same, and what is asked of the
others is true of them. -/
structure StandsFor (ranges : List (Range κ α)) (parts others : List (Row κ α)) : Prop where
  expected : (∀ row ∈ others, Expected ranges row) → ∀ row ∈ parts, Expected ranges row
  present : ∀ key, (∃ row ∈ others, row.key = some key) → ∃ row ∈ parts, row.key = some key
  integers : ∀ key, Declared ranges key →
    (∀ row ∈ others, row.key = some key → row.delta.isSome = true) →
    ∀ row ∈ parts, row.key = some key → row.delta.isSome = true
  sums : ∀ key, total parts key = total others key

theorem total_append (first rest : List (Row κ α)) (key : κ) :
    total (first ++ rest) key = total first key + total rest key := by
  unfold total
  rw [List.map_append, Ledger.total_append]

omit [DecidableEq κ] in
theorem expected_of_declared {ranges : List (Range κ α)} {row : Row κ α} {key : κ}
    (hkey : row.key = some key) (h : Declared ranges key ∨ row.delta = some 0) :
    Expected ranges row := by
  refine ⟨by rw [hkey]; rfl, fun k hk hnot => ?_⟩
  rw [hkey, Option.mem_some_iff] at hk
  subst hk
  exact h.resolve_left hnot

structure Uniform (key : κ) (rows : List (Row κ α)) : Prop where
  some : rows ≠ []
  keyed : ∀ row ∈ rows, row.key = Option.some key
  formed : ∀ row ∈ rows, row.delta.isSome = true

theorem Uniform.total_self {key : κ} {rows : List (Row κ α)} (h : Uniform key rows) :
    total rows key = (rows.map fun row => row.delta.getD 0).sum := by
  have hall : rowsOf rows key = rows :=
    List.filter_eq_self.mpr fun row hrow => decide_eq_true (h.keyed row hrow)
  rw [total_eq_sum, hall]

theorem Uniform.total_other {key other : κ} {rows : List (Row κ α)} (h : Uniform key rows)
    (hne : other ≠ key) : total rows other = 0 := by
  refine Ledger.total_eq_zero _ fun e he hkey => ?_
  obtain ⟨row, hrow, rfl⟩ := List.mem_map.mp he
  rw [h.keyed row hrow, Option.some.injEq] at hkey
  exact absurd hkey.symm hne

/-- Well-formed rows of one key stand for others of the same sum, as long as no change under
an undeclared key is made up. -/
theorem Uniform.standsFor {ranges : List (Range κ α)} {key : κ} {parts others : List (Row κ α)}
    (hparts : Uniform key parts) (hothers : Uniform key others)
    (hsum : (parts.map fun row => row.delta.getD 0).sum =
      (others.map fun row => row.delta.getD 0).sum)
    (hzero : ¬ Declared ranges key → (∀ row ∈ others, row.delta = Option.some 0) →
      ∀ row ∈ parts, row.delta = Option.some 0) : StandsFor ranges parts others := by
  refine ⟨fun hexpected row hrow => ?_, fun k hk => ?_, fun _ _ _ row hrow _ =>
    hparts.formed row hrow, fun k => ?_⟩
  · refine expected_of_declared (hparts.keyed row hrow) ?_
    by_cases hdeclared : Declared ranges key
    · exact .inl hdeclared
    · refine .inr (hzero hdeclared (fun other hother => ?_) row hrow)
      exact (hexpected other hother).undeclared key (hothers.keyed other hother) hdeclared
  · obtain ⟨other, hother, hk⟩ := hk
    obtain ⟨part, hpart⟩ := List.exists_mem_of_ne_nil _ hparts.some
    rw [hothers.keyed other hother] at hk
    exact ⟨part, hpart, (hparts.keyed part hpart).trans hk⟩
  · by_cases hk : k = key
    · rw [hk, hparts.total_self, hothers.total_self, hsum]
    · rw [hparts.total_other hk, hothers.total_other hk]

variable [LE α]

/-- Something is reported under the key of a range, all of it is well formed, and the sum is
within the range. -/
structure Within (rows : List (Row κ α)) (range : Range κ α) : Prop where
  present : ∃ row ∈ rows, row.key = some range.key
  integers : ∀ row ∈ rows, row.key = some range.key → row.delta.isSome = true
  bounds : ∃ low high, range.low = some low ∧ range.high = some high ∧
    low ≤ total rows range.key ∧ total rows range.key ≤ high

structure Meets (rows : List (Row κ α)) (ranges : List (Range κ α)) : Prop where
  expected : ∀ row ∈ rows, Expected ranges row
  within : ∀ range ∈ ranges, Within rows range

/-- What a range asks, computed from the rows under its key. -/
theorem within_iff {rows : List (Row κ α)} {range : Range κ α} :
    Within rows range ↔ rowsOf rows range.key ≠ [] ∧ ∃ deltas low high,
      (rowsOf rows range.key).mapM Row.delta = some deltas ∧ range.low = some low ∧
        range.high = some high ∧ low ≤ deltas.sum ∧ deltas.sum ≤ high := by
  constructor
  · rintro ⟨⟨row, hrow, hkey⟩, hintegers, low, high, hlow, hhigh, habove, hbelow⟩
    have hmem : row ∈ rowsOf rows range.key := List.mem_filter.mpr ⟨hrow, decide_eq_true hkey⟩
    have hdeltas : (rowsOf rows range.key).mapM Row.delta =
        some ((rowsOf rows range.key).map fun row => row.delta.getD 0) := by
      rw [mapM_eq_some, List.map_map]
      refine List.map_congr_left fun row hrow => ?_
      obtain ⟨hmem, hkey⟩ := List.mem_filter.mp hrow
      obtain ⟨d, hd⟩ := Option.isSome_iff_exists.mp (hintegers row hmem (of_decide_eq_true hkey))
      simp [hd]
    refine ⟨List.ne_nil_of_mem hmem, _, low, high, hdeltas, hlow, hhigh, ?_⟩
    rw [total_of_mapM hdeltas]
    exact ⟨habove, hbelow⟩
  · rintro ⟨hne, deltas, low, high, hdeltas, hlow, hhigh, hbounds⟩
    obtain ⟨row, hrow⟩ := List.exists_mem_of_ne_nil _ hne
    obtain ⟨hmem, hkey⟩ := List.mem_filter.mp hrow
    refine ⟨⟨row, hmem, of_decide_eq_true hkey⟩, fun row hrow hkey => ?_, low, high, hlow,
      hhigh, ?_⟩
    · have hmem : row.delta ∈ deltas.map some := by
        rw [← mapM_eq_some.mp hdeltas]
        exact List.mem_map_of_mem (List.mem_filter.mpr ⟨hrow, decide_eq_true hkey⟩)
      obtain ⟨d, -, hd⟩ := List.mem_map.mp hmem
      rw [← hd]
      rfl
    · rwa [← total_of_mapM hdeltas]

theorem StandsFor.meets {ranges : List (Range κ α)} {parts others : List (Row κ α)}
    (h : StandsFor ranges parts others) {first rest : List (Row κ α)}
    (hmeets : Meets (first ++ others ++ rest) ranges) : Meets (first ++ parts ++ rest) ranges := by
  obtain ⟨hexpected, hwithin⟩ := hmeets
  simp only [List.forall_mem_append] at hexpected
  refine ⟨?_, fun range hrange => ?_⟩
  · simp only [List.forall_mem_append]
    exact ⟨⟨hexpected.1.1, h.expected hexpected.1.2⟩, hexpected.2⟩
  · obtain ⟨⟨row, hrow, hkey⟩, hintegers, hbounds⟩ := hwithin range hrange
    have htotal : total (first ++ parts ++ rest) range.key =
        total (first ++ others ++ rest) range.key := by
      simp only [total_append, h.sums]
    simp only [List.forall_mem_append] at hintegers
    refine ⟨?_, ?_, ?_⟩
    · simp only [List.mem_append] at hrow ⊢
      obtain (hrow | hrow) | hrow := hrow
      · exact ⟨row, .inl (.inl hrow), hkey⟩
      · obtain ⟨part, hpart, hkey⟩ := h.present range.key ⟨row, hrow, hkey⟩
        exact ⟨part, .inl (.inr hpart), hkey⟩
      · exact ⟨row, .inr hrow, hkey⟩
    · simp only [List.forall_mem_append]
      exact ⟨⟨hintegers.1.1, h.integers range.key ⟨range, hrange, rfl⟩ hintegers.1.2⟩,
        hintegers.2⟩
    · rw [htotal]
      exact hbounds

theorem Meets.perm {rows rows' : List (Row κ α)} {ranges ranges' : List (Range κ α)}
    (h : Meets rows ranges) (hrows : rows.Perm rows') (hranges : ranges.Perm ranges') :
    Meets rows' ranges' := by
  have hdeclared : ∀ key, Declared ranges' key ↔ Declared ranges key := by
    intro key
    constructor
    · rintro ⟨range, hrange, hkey⟩
      exact ⟨range, hranges.symm.subset hrange, hkey⟩
    · rintro ⟨range, hrange, hkey⟩
      exact ⟨range, hranges.subset hrange, hkey⟩
  have htotal : ∀ key, total rows' key = total rows key :=
    fun key => Ledger.total_perm _ (hrows.symm.map _)
  refine ⟨fun row hrow => ?_, fun range hrange => ?_⟩
  · obtain ⟨hformed, hundeclared⟩ := h.expected row (hrows.symm.subset hrow)
    exact ⟨hformed, fun key hkey hnot =>
      hundeclared key hkey fun hd => hnot ((hdeclared key).mpr hd)⟩
  · obtain ⟨⟨row, hrow, hkey⟩, hintegers, hbounds⟩ := h.within range (hranges.symm.subset hrange)
    refine ⟨⟨row, hrows.subset hrow, hkey⟩,
      fun row hrow hkey => hintegers row (hrows.symm.subset hrow) hkey, ?_⟩
    rw [htotal]
    exact hbounds

end Deltas
