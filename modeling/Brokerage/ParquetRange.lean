/-
**Ranges of the monthly Parquet store.**

The store has a file for each month of UTC, which a write replaces.  A range is read from the months
between those that the clocks of its two bounds show, each in its own zone.  So where the clock of the
end shows an earlier month than UTC does, the candles of the last month are missing.

Main definitions:

* `ParquetRange.writeMonth`, `ParquetRange.readMonth`, `ParquetRange.readRange` — the store;
* `ParquetRange.latestRows` — what was written last for a month;
* `ParquetRange.Complete` — a range has what was written;
* `ParquetRange.Covered` — the clocks show the months of what there is in the range.

Main results:

* `ParquetRange.readMonths_spec` — what the loop over the months reads;
* `ParquetRange.complete_iff` — when a range has what was written.
-/

import Brokerage.UtcRange

set_option relaxedAutoImplicit false
set_option autoImplicit false

namespace ParquetRange

open Candle

/-! ### The store -/

/-- The files of a symbol, by their months. -/
abbrev Partitions := Dict ℤ (List CsvRow)

variable (z : Zones)

/-- The checks before candles are written: no timestamp occurs twice, and they ascend. -/
def validateCandles (candles : List Candle) : Bool :=
  let tsList := candles.map (epoch z)
  tsList.Nodup ∧ ∀ p ∈ tsList.zip tsList.tail, 0 < p.2 - p.1

/-- Writing the file of a month; nothing if the checks fail. -/
def writeMonth (store : Partitions) (month : ℤ) (candles : List Candle) (validate : Bool) :
    Option Partitions :=
  if candles = [] then some store
  else if validate && !validateCandles z candles then none
  else some (store.set month (candles.map (toCsvRow z)))

/-- The candles of a month; nothing if a timestamp is out of range. -/
def readMonth (store : Partitions) (month : ℤ) : Option (List Candle) :=
  ((store.get? month).getD []).mapM fromCsvRow

/-- The loop over some months, from a month on. -/
def readMonths (store : Partitions) (start end_ : AwareDatetime) : ℕ → ℤ → Option (List Candle)
  | 0, _ => some []
  | n + 1, month => do
      let monthCandles ← readMonth store month
      let rest ← readMonths store start end_ n (month + 1)
      pure (monthCandles.filter (fun c => z.le start c.timestamp && z.lt c.timestamp end_) ++ rest)

/-- The candles of a range. -/
def readRange (store : Partitions) (start end_ : AwareDatetime) : Option (List Candle) :=
  readMonths z store start end_ (end_.month + 1 - start.month).toNat start.month

/-! ### What was written -/

/-- A call that writes a month. -/
structure WriteCall where
  month : ℤ
  candles : List Candle
  validate : Bool

/-- The month is one of the calendar, and the candles are of it and ascend. -/
structure WriteCall.Valid (call : WriteCall) : Prop where
  min : 12 ≤ call.month
  max : call.month < 120000
  month : ∀ c ∈ call.candles, epochMonth (epoch z c) = call.month
  ascending : call.candles.Pairwise (epoch z · < epoch z ·)

/-- The store after some calls; one that raises leaves it. -/
def run (calls : List WriteCall) : Partitions :=
  calls.foldl (fun store call =>
    (writeMonth z store call.month call.candles call.validate).getD store) Dict.empty

/-- What was written last for a month: nothing is written without candles. -/
def latestRows (calls : List WriteCall) (month : ℤ) : List CsvRow :=
  match Dict.latest WriteCall.month (calls.filter fun call => call.candles ≠ []) month with
  | none => []
  | some call => call.candles.map (toCsvRow z)

/-- A second is in a range. -/
def InWindow (start end_ : AwareDatetime) (t : ℤ) : Prop :=
  z.instant start ≤ 1000000 * t ∧ 1000000 * t < z.instant end_

/-- A range has the candles that were written last for their months and are in it, in order and with
their values. -/
def Complete (calls : List WriteCall) (start end_ : AwareDatetime) : Prop :=
  ∃ candles, readRange z (run z calls) start end_ = some candles ∧
    candles.Pairwise (epoch z · < epoch z ·) ∧
      ∀ row, row ∈ candles.map (toCsvRow z) ↔
        (∃ month, row ∈ latestRows z calls month) ∧ InWindow z start end_ row.tsEpoch

/-- The months with candles in a range are between those that the clocks of its bounds show. -/
def Covered (calls : List WriteCall) (start end_ : AwareDatetime) : Prop :=
  ∀ month, ∀ row ∈ latestRows z calls month, InWindow z start end_ row.tsEpoch →
    start.month ≤ month ∧ month ≤ end_.month

variable {z}

/-! ### Writing -/

/-- The checks pass on candles that ascend. -/
theorem validateCandles_of_pairwise {candles : List Candle}
    (h : candles.Pairwise (epoch z · < epoch z ·)) : validateCandles z candles = true := by
  have hlt : (candles.map (epoch z)).Pairwise (· < ·) := List.pairwise_map.2 h
  refine decide_eq_true ⟨hlt.imp fun hab => hab.ne, ?_⟩
  generalize candles.map (epoch z) = tsList at hlt
  induction tsList with
  | nil => exact fun p hp => absurd hp List.not_mem_nil
  | cons t tsList ih =>
      rw [List.pairwise_cons] at hlt
      intro p hp
      cases tsList with
      | nil => cases hp
      | cons t' tsList =>
          rcases List.mem_cons.1 hp with rfl | hp
          · have := hlt.1 t' List.mem_cons_self
            change 0 < t' - t
            omega
          · exact ih hlt.2 p hp

/-- A valid call writes its month. -/
theorem WriteCall.Valid.writeMonth {call : WriteCall} (h : call.Valid z) (store : Partitions) :
    writeMonth z store call.month call.candles call.validate =
      some (if call.candles = [] then store
        else store.set call.month (call.candles.map (toCsvRow z))) := by
  rw [ParquetRange.writeMonth, validateCandles_of_pairwise h.ascending]
  by_cases hnil : call.candles = []
  · simp [hnil]
  · simp [hnil]

/-- The files have what was written last. -/
theorem get?_run {calls : List WriteCall} (h : ∀ call ∈ calls, call.Valid z) (month : ℤ) :
    ((run z calls).get? month).getD [] = latestRows z calls month := by
  induction calls using List.reverseRecOn with
  | nil => rfl
  | append_singleton calls call ih =>
      have ih := ih fun c hc => h c (List.mem_append_left _ hc)
      have hcall := h call (List.mem_append_right _ (List.mem_singleton_self call))
      rw [run, List.foldl_append, List.foldl_cons, List.foldl_nil, hcall.writeMonth,
        Option.getD_some, latestRows, List.filter_append, Dict.latest_append]
      by_cases hnil : call.candles = []
      · rw [if_pos hnil, List.filter_cons_of_neg (by simpa using hnil)]
        exact ih
      · rw [if_neg hnil, List.filter_cons_of_pos (by simpa using hnil), List.filter_nil,
          Dict.latest_singleton]
        by_cases hmonth : call.month = month
        · rw [if_pos hmonth, ← hmonth, Dict.get?_set_self]
          rfl
        · rw [if_neg hmonth, Dict.get?_set_of_ne _ _ (Ne.symm hmonth), Option.none_or]
          exact ih

/-- What was written for a month is of the month, and ascends. -/
theorem latestRows_spec {calls : List WriteCall} (h : ∀ call ∈ calls, call.Valid z) (month : ℤ) :
    (∀ row ∈ latestRows z calls month,
      (12 ≤ month ∧ month < 120000) ∧ epochMonth row.tsEpoch = month) ∧
      (latestRows z calls month).Pairwise (·.tsEpoch < ·.tsEpoch) := by
  rw [latestRows]
  split
  · exact ⟨fun row hrow => absurd hrow List.not_mem_nil, List.Pairwise.nil⟩
  · rename_i call hcall
    obtain ⟨hmem, rfl⟩ := Dict.latest_eq_some hcall
    have hvalid := h call (List.mem_of_mem_filter hmem)
    refine ⟨fun row hrow => ?_, List.pairwise_map.2 hvalid.ascending⟩
    obtain ⟨c, hc, rfl⟩ := List.mem_map.1 hrow
    exact ⟨⟨hvalid.min, hvalid.max⟩, hvalid.month c hc⟩

/-! ### Reading -/

/-- Rows of a month of the calendar can be read. -/
theorem exists_mapM_fromCsvRow {rows : List CsvRow}
    (h : ∀ row ∈ rows, 12 ≤ epochMonth row.tsEpoch ∧ epochMonth row.tsEpoch < 120000) :
    ∃ cs, rows.mapM fromCsvRow = some cs := by
  induction rows with
  | nil => exact ⟨[], rfl⟩
  | cons row rows ih =>
      obtain ⟨cs, hcs⟩ := ih fun r hr => h r (List.mem_cons_of_mem _ hr)
      obtain ⟨hmin, hmax⟩ := h row List.mem_cons_self
      have hlo : monthStart 12 ≤ 1000000 * row.tsEpoch :=
        not_lt.1 fun hlt => not_lt.2 hmin (monthOf_lt_iff.2 hlt)
      have hrow : fromCsvRow row =
          some ⟨⟨.utc, 1000000 * row.tsEpoch, false, hlo, monthOf_lt_iff.1 hmax⟩, row.ohlcv, true⟩ := by
        rw [fromCsvRow, utcFromTimestamp, dif_pos ⟨hlo, monthOf_lt_iff.1 hmax⟩]
        rfl
      exact ⟨_, by rw [List.mapM_cons, hrow, hcs]; rfl⟩

/-- The candles of a file that are in a range. -/
theorem mem_filter_window {start end_ : AwareDatetime} {cs : List Candle}
    (h : ∀ c ∈ cs, IsRead c) {row : CsvRow} :
    row ∈ (cs.filter fun c => z.le start c.timestamp && z.lt c.timestamp end_).map (toCsvRow z) ↔
      row ∈ cs.map (toCsvRow z) ∧ InWindow z start end_ row.tsEpoch := by
  have hwindow : ∀ c ∈ cs, (z.le start c.timestamp && z.lt c.timestamp end_) = true ↔
      InWindow z start end_ (c.toCsvRow z).tsEpoch := by
    intro c hc
    have hutc := (h c hc).utc
    have hinstant : z.instant c.timestamp = 1000000 * (c.toCsvRow z).tsEpoch := by
      rw [Zones.instant_utc hutc]
      exact (h c hc).wall_eq
    rw [Bool.and_eq_true, Zones.le_iff_of_utc (.inr hutc), Zones.lt_iff_of_utc (.inl hutc),
      hinstant, InWindow]
  simp only [List.mem_map, List.mem_filter]
  constructor
  · rintro ⟨c, ⟨hc, hin⟩, rfl⟩
    exact ⟨⟨c, hc, rfl⟩, (hwindow c hc).1 hin⟩
  · rintro ⟨⟨c, hc, rfl⟩, hin⟩
    exact ⟨c, ⟨hc, (hwindow c hc).2 hin⟩, rfl⟩

/-- What the loop reads: of the files of its months, the candles in the range, in order. -/
theorem readMonths_spec {store : Partitions} {rows : ℤ → List CsvRow}
    (hstore : ∀ month, (store.get? month).getD [] = rows month)
    (hmonth : ∀ month, ∀ row ∈ rows month,
      (12 ≤ month ∧ month < 120000) ∧ epochMonth row.tsEpoch = month)
    (hsorted : ∀ month, (rows month).Pairwise (·.tsEpoch < ·.tsEpoch)) (start end_ : AwareDatetime)
    (n : ℕ) (month : ℤ) :
    ∃ cs, readMonths z store start end_ n month = some cs ∧
      cs.Pairwise (epoch z · < epoch z ·) ∧
        ∀ row, row ∈ cs.map (toCsvRow z) ↔
          (∃ k, month ≤ k ∧ k < month + n ∧ row ∈ rows k) ∧ InWindow z start end_ row.tsEpoch := by
  induction n generalizing month with
  | zero =>
      refine ⟨[], rfl, List.Pairwise.nil, fun row => iff_of_false List.not_mem_nil ?_⟩
      rintro ⟨⟨k, hk, hk', -⟩, -⟩
      omega
  | succ n ih =>
      obtain ⟨rest, hrest, hrestSorted, hrestMem⟩ := ih (month + 1)
      obtain ⟨cs, hcs⟩ : ∃ cs, (rows month).mapM fromCsvRow = some cs := by
        refine exists_mapM_fromCsvRow fun row hrow => ?_
        rw [(hmonth month row hrow).2]
        exact (hmonth month row hrow).1
      obtain ⟨hread, hrows⟩ := mapM_fromCsvRow (z := z) hcs
      have hfirst : ∀ c ∈ cs, epochMonth (epoch z c) = month := by
        intro c hc
        exact (hmonth month _ (hrows ▸ List.mem_map_of_mem hc)).2
      refine ⟨_, by rw [readMonths, readMonth, hstore, hcs, hrest]; rfl, ?_, fun row => ?_⟩
      · refine List.pairwise_append.2 ⟨?_, hrestSorted, fun c hc d hd => ?_⟩
        · have hsorted := hsorted month
          rw [← hrows, List.pairwise_map] at hsorted
          exact hsorted.sublist List.filter_sublist
        · -- the candles of the later months come later
          obtain ⟨⟨k, hk, -, hdrow⟩, -⟩ := (hrestMem _).1 (List.mem_map_of_mem hd)
          have hdmonth : epochMonth (epoch z d) = k := (hmonth k _ hdrow).2
          have hcmonth := hfirst c (List.mem_of_mem_filter hc)
          have hlt : epochMonth (epoch z c) < epochMonth (epoch z d) := by omega
          have hle := (monthOf_lt_iff.1 hlt).trans_le (monthOf_spec (1000000 * epoch z d)).1
          omega
      · rw [List.map_append, List.mem_append, mem_filter_window hread, hrows, hrestMem,
          ← or_and_right]
        refine and_congr_left fun _ => ?_
        constructor
        · rintro (hrow | ⟨k, hk, hk', hrow⟩)
          · exact ⟨month, le_rfl, by omega, hrow⟩
          · exact ⟨k, by omega, by omega, hrow⟩
        · rintro ⟨k, hk, hk', hrow⟩
          by_cases hkm : k = month
          · exact .inl (hkm ▸ hrow)
          · exact .inr ⟨k, by omega, by omega, hrow⟩

/-- After any writes, a range has what was written exactly if the clocks of its bounds show the months
of what there is in it. -/
theorem complete_iff {calls : List WriteCall} (h : ∀ call ∈ calls, call.Valid z)
    (start end_ : AwareDatetime) : Complete z calls start end_ ↔ Covered z calls start end_ := by
  obtain ⟨cs, hcs, hsorted, hmem⟩ := readMonths_spec (get?_run h)
    (fun month => (latestRows_spec h month).1) (fun month => (latestRows_spec h month).2)
    start end_ (end_.month + 1 - start.month).toNat start.month
  have hrange : ∀ k, (start.month ≤ k ∧ k < start.month + (end_.month + 1 - start.month).toNat) ↔
      start.month ≤ k ∧ k ≤ end_.month := by
    intro k
    omega
  constructor
  · rintro ⟨cs', hcs', -, hmem'⟩ month row hrow hwindow
    obtain rfl := Option.some.inj (hcs.symm.trans hcs')
    obtain ⟨⟨k, hk, hk', hkrow⟩, -⟩ := (hmem row).1 ((hmem' row).2 ⟨⟨month, hrow⟩, hwindow⟩)
    -- a row is of one month only
    obtain rfl : k = month :=
      ((latestRows_spec h k).1 row hkrow).2.symm.trans ((latestRows_spec h month).1 row hrow).2
    exact (hrange k).1 ⟨hk, hk'⟩
  · intro hcovered
    refine ⟨cs, hcs, hsorted, fun row => (hmem row).trans (and_congr_left fun hwindow => ?_)⟩
    constructor
    · rintro ⟨k, -, -, hrow⟩
      exact ⟨k, hrow⟩
    · rintro ⟨k, hrow⟩
      obtain ⟨hk, hk'⟩ := (hrange k).2 (hcovered k row hrow hwindow)
      exact ⟨k, hk, hk', hrow⟩

/-! ### The end of a month in New York -/

/-- New York in winter. -/
def winter : Zones := ⟨fun _ _ => -18000⟩

/-- Noon of the 31st of January 2026 in New York. -/
def noon : AwareDatetime :=
  ⟨.newYork, 1769860800000000, false, by decide +kernel, by decide +kernel⟩

/-- Eight hours later, which is the 1st of February in UTC. -/
def evening : AwareDatetime :=
  ⟨.newYork, 1769889600000000, false, by decide +kernel, by decide +kernel⟩

/-- The first minute of February is written. -/
def februaryCall : WriteCall where
  month := 24313
  candles :=
    [⟨⟨.utc, 1769904000000000, false, by decide +kernel, by decide +kernel⟩, .flat 1, true⟩]
  validate := true

theorem februaryCall_valid : ∀ call ∈ [februaryCall], call.Valid winter := by
  intro call hcall
  obtain rfl := List.mem_singleton.1 hcall
  refine ⟨by decide, by decide, fun c hc => ?_, List.pairwise_singleton _ _⟩
  obtain rfl := List.mem_singleton.1 hc
  decide +kernel

theorem complete_iff_februaryCall :
    Complete winter [februaryCall] noon evening ↔ Covered winter [februaryCall] noon evening :=
  complete_iff februaryCall_valid noon evening

/-- The clock of the end still shows January, and the candle is missing. -/
theorem february_missing :
    (∀ call ∈ [februaryCall], call.Valid winter) ∧ winter.le noon evening = true ∧
      ¬ Complete winter [februaryCall] noon evening := by
  refine ⟨februaryCall_valid, by decide, ?_⟩
  rintro ⟨candles, hcandles, -, hmem⟩
  have hnil : readRange winter (run winter [februaryCall]) noon evening = some [] := by
    decide +kernel
  obtain rfl := Option.some.inj (hnil.symm.trans hcandles)
  have hrow := (hmem ⟨1769904000, .flat 1⟩).2
    ⟨⟨24313, by decide⟩, by decide, by decide⟩
  cases hrow

end ParquetRange
