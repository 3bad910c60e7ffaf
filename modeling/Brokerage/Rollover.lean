/-
**The rollover of candles into the archive.**

The candles of a range of dates are read from the files of the candle store, the days with a jump
between two consecutive minutes are quarantined, and the rest is merged into the files of the archive,
month by month.  A month is only written if a candle of it is left, and what is there already is what
can be read at that moment: so candles of a quarantined day stay in a month that is not written, and
a file that cannot be read is lost.

Main definitions:

* `Rollover.binary64` — the nearest float; the results hold for any rounding;
* `Rollover.quarantineAnomalousDays` — the days with a jump, and the candles of the others;
* `Rollover.writeMonth`, `Rollover.runRollover` — merging a month, and a whole run;
* `Rollover.Keeps` — nothing is lost, and quarantined days are kept out;
* `Rollover.Careful` — the inputs for which that is so.

Main results:

* `Rollover.held_runRollover` — the archive after a run;
* `Rollover.keeps_iff` — when nothing is lost and quarantined days are kept out.
-/

import Brokerage.UtcRange

set_option relaxedAutoImplicit false
set_option autoImplicit false

namespace Rollover

open StableSort CandleStore Candle

/-! ### Floats -/

/-- The nearest integer, of two the even one. -/
def roundHalfEven (q : ℚ) : ℤ :=
  let n := ⌊q⌋
  if q - n < 1 / 2 ∨ (q - n = 1 / 2 ∧ n % 2 = 0) then n else n + 1

/-- The nearest float with a significand of 53 bits. -/
def binary64 (q : ℚ) : ℚ :=
  let ulp : ℚ := 2 ^ (Int.log 2 |q| - 52)
  roundHalfEven (q / ulp) * ulp

/-! ### Quarantine -/

/-- `MAX_CONTINUOUS_MINUTE_RETURN_PCT`. -/
def MAX_CONTINUOUS_MINUTE_RETURN_PCT : ℚ := 5

/-- A jump between two minutes, as it is reported. -/
structure Anomaly where
  utc : AwareDatetime
  previousClose : ℚ
  close : ℚ
  absoluteReturnPct : ℚ
  deriving DecidableEq

/-- The day of a candle, `timestamp.date()`. -/
def day (c : Candle) : ℤ := c.timestamp.wall / dayMicros

/-- How much the close moves, in percent: prices are floats, and the result of each operation on them
is rounded. -/
def movePct (fl : ℚ → ℚ) (previous current : Candle) : ℚ :=
  fl (|fl (fl (current.ohlcv.close / previous.ohlcv.close) - 1)| * 100)

/-- Whether the close jumps between two candles, which is only looked at within a minute. -/
def isAnomalous (fl : ℚ → ℚ) (z : Zones) (previous current : Candle) : Bool :=
  z.sub current.timestamp previous.timestamp = 60000000 ∧ 0 < previous.ohlcv.close ∧
    MAX_CONTINUOUS_MINUTE_RETURN_PCT < movePct fl previous current

/-- The pairs of consecutive candles between which the close jumps. -/
def anomalousPairs (fl : ℚ → ℚ) (z : Zones) (candles : List Candle) : List (Candle × Candle) :=
  let ordered := sortByTimestamp z candles
  (ordered.zip ordered.tail).filter fun p => isAnomalous fl z p.1 p.2

/-- The days with a jump, in order. -/
def badDays (fl : ℚ → ℚ) (z : Zones) (candles : List Candle) : List ℤ :=
  (((anomalousPairs fl z candles).map fun p => day p.2).dedup).insertionSort (· ≤ ·)

/-- The candles of the days without a jump, the days with one, and the jumps. -/
def quarantineAnomalousDays (fl : ℚ → ℚ) (z : Zones) (candles : List Candle) :
    List Candle × List ℤ × List Anomaly :=
  ((sortByTimestamp z candles).filter fun c => day c ∉ badDays fl z candles, badDays fl z candles,
    (anomalousPairs fl z candles).map fun p =>
      ⟨p.2.timestamp, p.1.ohlcv.close, p.2.ohlcv.close, movePct fl p.1 p.2⟩)

/-! ### The archive -/

/-- The file of a month: its rows, and whether it can be read at the moment.  A file that is not there
has no rows. -/
structure MonthFile where
  rows : List CsvRow
  readable : Bool
  deriving DecidableEq

/-- The files of a symbol, by their months. -/
abbrev Archive := ℤ → MonthFile

/-- The candles of a file: none if the file cannot be read, or a row is not a candle. -/
def readExistingParquet (file : MonthFile) : List Candle :=
  if file.readable then (file.rows.mapM Candle.fromCsvRow).getD [] else []

/-- The candles that are there and the new ones, which win, by their seconds. -/
def byTs (z : Zones) (existing candles : List Candle) : Dict ℤ Candle :=
  (Dict.keyed (epoch z) existing).setAll (candles.map fun c => (epoch z c, c))

/-- The candles of a month after others were merged into its file. -/
def merged (z : Zones) (file : MonthFile) (candles : List Candle) (excludedDates : List ℤ) :
    List Candle :=
  let existing := (readExistingParquet file).filter fun c => day c ∉ excludedDates
  sortByTimestamp z (byTs z existing candles).values

/-- Merging the candles of a month into its file: the archive after it, and how many were written. -/
def writeMonth (z : Zones) (archive : Archive) (month : ℤ) (candles : List Candle)
    (excludedDates : List ℤ) : Archive × ℕ :=
  if candles = [] then (archive, 0)
  else
    let merged := merged z (archive month) candles excludedDates
    (Function.update archive month ⟨merged.map (Candle.toCsvRow z), true⟩, merged.length)

/-! ### A run -/

/-- What a run reports of its input; a run without candles reports nothing. -/
structure Details where
  inputCandles : ℕ
  quarantinedDates : List ℤ
  anomalies : List Anomaly
  deriving DecidableEq

/-- What a run reports. -/
structure Result where
  monthsWritten : ℕ
  candlesWritten : ℕ
  details : Option Details
  dryRun : Bool
  deriving DecidableEq

/-- The days that a run quarantines. -/
def Result.quarantined (r : Result) : List ℤ := (r.details.map Details.quarantinedDates).getD []

/-- The start of a date, if it is one. -/
def strptime (date : ℤ) : Option AwareDatetime := utcFromTimestamp (dayMicros * date)

/-- The candles of a range in the files of the store. -/
def readCsvCandles (z : Zones) (files : Files) (start end_ : AwareDatetime) :
    Option (List Candle) :=
  (readRange z files start end_ false).map CandleRange.candles

/-- Writing the months, in their order: the archive after it, and how many candles were written. -/
def writeMonths (z : Zones) (archive : Archive) (byMonth : Dict ℤ (List Candle))
    (excludedDates : List ℤ) : Archive × ℕ :=
  byMonth.sortedKeys.foldl
    (fun acc month =>
      let written := writeMonth z acc.1 month (byMonth.getList month) excludedDates
      (written.1, acc.2 + written.2))
    (archive, 0)

/-- A run over some dates: what it reports, nothing if it raises, and the archive it leaves. -/
def runRollover (fl : ℚ → ℚ) (z : Zones) (files : Files) (archive : Archive) (fromDate toDate : ℤ)
    (dryRun : Bool) : Option Result × Archive :=
  match strptime fromDate, strptime toDate with
  | some start, some end_ =>
      if z.le end_ start then (some ⟨0, 0, none, dryRun⟩, archive)
      else
        match readCsvCandles z files start end_ with
        | none => (none, archive)
        | some [] => (some ⟨0, 0, none, dryRun⟩, archive)
        | some candles =>
            let (kept, quarantinedDates, anomalies) := quarantineAnomalousDays fl z candles
            let byMonth := Dict.group (fun c => c.timestamp.month) id kept
            let details : Details := ⟨candles.length, quarantinedDates, anomalies⟩
            if dryRun then
              let total := (byMonth.values.map List.length).sum
              (some ⟨byMonth.keys.length, total, some details, dryRun⟩, archive)
            else
              let written := writeMonths z archive byMonth quarantinedDates
              (some ⟨byMonth.keys.length, written.2, some details, dryRun⟩, written.1)
  | _, _ => (none, archive)

/-! ### What the archive holds -/

variable {fl : ℚ → ℚ} {z : Zones} {files : Files} {archive : Archive}

/-- The candle of a file at a second, readable or not: the last one. -/
def held (file : MonthFile) (t : ℤ) : Option Ohlcv :=
  (Dict.latest CsvRow.tsEpoch file.rows t).map CsvRow.ohlcv

/-- The candle at a second in some candles: the last one. -/
def candleAt (z : Zones) (candles : List Candle) (t : ℤ) : Option Ohlcv :=
  (Dict.latest (epoch z) candles t).map Candle.ohlcv

/-- The candle of a file at a second, as far as the file can be read. -/
def seen (z : Zones) (file : MonthFile) (t : ℤ) : Option Ohlcv :=
  candleAt z (readExistingParquet file) t

theorem day_eq_of_isRead {c : Candle} (h : IsRead c) : day c = epochDay (epoch z c) := by
  rw [epochDay, ← h.wall_eq]
  rfl

theorem isRead_of_mem_readExistingParquet {file : MonthFile} {c : Candle}
    (h : c ∈ readExistingParquet file) : IsRead c := by
  rw [readExistingParquet] at h
  split at h
  · cases hcs : file.rows.mapM Candle.fromCsvRow with
    | none =>
        rw [hcs] at h
        cases h
    | some cs =>
        rw [hcs] at h
        exact (mapM_fromCsvRow (z := ⟨fun _ _ => 0⟩) hcs).1 c h
  · cases h

/-- What is written is read again. -/
theorem readExistingParquet_map {cs : List Candle} (h : ∀ c ∈ cs, IsRead c) :
    readExistingParquet ⟨cs.map (Candle.toCsvRow z), true⟩ = cs := by
  have hmapM : (cs.map (Candle.toCsvRow z)).mapM Candle.fromCsvRow = some cs := by
    induction cs with
    | nil => rfl
    | cons c cs ih =>
        rw [List.map_cons, List.mapM_cons, (h c List.mem_cons_self).fromCsvRow,
          ih fun d hd => h d (List.mem_cons_of_mem _ hd)]
        rfl
  rw [readExistingParquet, if_pos rfl, hmapM]
  rfl

theorem held_map (cs : List Candle) (readable : Bool) (t : ℤ) :
    held ⟨cs.map (Candle.toCsvRow z), readable⟩ t = candleAt z cs t := by
  rw [held, Dict.latest_map, Option.map_map]
  rfl

/-- A file can be read: nothing is in the way, and its rows are candles. -/
def MonthFile.CanBeRead (file : MonthFile) : Prop :=
  file.readable = true ∧ (file.rows.mapM Candle.fromCsvRow).isSome

instance (file : MonthFile) : Decidable file.CanBeRead := inferInstanceAs (Decidable (_ ∧ _))

theorem seen_of_canBeRead {file : MonthFile} (h : file.CanBeRead) (t : ℤ) :
    seen z file t = held file t := by
  obtain ⟨cs, hcs⟩ := Option.isSome_iff_exists.1 h.2
  have hread : readExistingParquet file = cs := by
    rw [readExistingParquet, if_pos h.1, hcs]
    rfl
  have hrows : file = ⟨cs.map (Candle.toCsvRow z), file.readable⟩ := by
    rw [(mapM_fromCsvRow hcs).2]
  rw [seen, hread, hrows, held_map]

theorem seen_of_not_canBeRead {file : MonthFile} (h : ¬ file.CanBeRead) (t : ℤ) :
    seen z file t = none := by
  have hread : readExistingParquet file = [] := by
    rw [readExistingParquet]
    split
    · rename_i hreadable
      cases hcs : file.rows.mapM Candle.fromCsvRow with
      | none => rfl
      | some cs => exact absurd ⟨hreadable, Option.isSome_iff_exists.2 ⟨cs, hcs⟩⟩ h
    · rfl
  rw [seen, hread]
  rfl

/-! ### What a run writes -/

/-- The candles at a second of a file after a month was merged into it. -/
theorem candleAt_merged (file : MonthFile) {candles : List Candle} (excludedDates : List ℤ) (t : ℤ) :
    candleAt z (merged z file candles excludedDates) t =
      (candleAt z candles t).or (if epochDay t ∈ excludedDates then none else seen z file t) := by
  have hperm : (merged z file candles excludedDates).Perm
      (Dict.keyed (epoch z)
        ((readExistingParquet file).filter (fun c => day c ∉ excludedDates) ++ candles)).values := by
    rw [Dict.keyed_append]
    exact sortByTimestamp_perm _
  have hfilter : (readExistingParquet file).filter (fun c => day c ∉ excludedDates) =
      (readExistingParquet file).filter fun c =>
        decide (epochDay (epoch z c) ∉ excludedDates) :=
    List.filter_congr fun c hc => by rw [day_eq_of_isRead (isRead_of_mem_readExistingParquet hc)]
  rw [candleAt, Dict.latest_of_perm hperm, Dict.latest_append, hfilter,
    Dict.latest_filter (fun t => decide (epochDay t ∉ excludedDates)), candleAt, seen, candleAt]
  by_cases ht : epochDay t ∈ excludedDates
  · cases Dict.latest (epoch z) candles t <;> simp [ht]
  · cases Dict.latest (epoch z) candles t <;> simp [ht]

theorem isRead_of_mem_merged {file : MonthFile} {candles : List Candle}
    (h : ∀ c ∈ candles, IsRead c) (excludedDates : List ℤ) :
    ∀ c ∈ merged z file candles excludedDates, IsRead c := by
  intro c hc
  rw [merged, mem_sortByTimestamp, byTs, ← Dict.keyed_append, Dict.mem_values_keyed] at hc
  rcases List.mem_append.1 (Dict.latest_eq_some hc).1 with hc | hc
  · exact isRead_of_mem_readExistingParquet (List.mem_of_mem_filter hc)
  · exact h c hc

/-- Each month is written once, on what was there before the run. -/
theorem writeMonths_archive (byMonth : Dict ℤ (List Candle)) (excludedDates : List ℤ) (month : ℤ) :
    (writeMonths z archive byMonth excludedDates).1 month =
      if byMonth.getList month = [] then archive month
      else ⟨(merged z (archive month) (byMonth.getList month) excludedDates).map
        (Candle.toCsvRow z), true⟩ := by
  have hfold : ∀ (months : List ℤ) (archive : Archive) (n : ℕ), months.Nodup →
      (months.foldl
        (fun acc month =>
          let written := writeMonth z acc.1 month (byMonth.getList month) excludedDates
          (written.1, acc.2 + written.2))
        (archive, n)).1 month =
        if month ∈ months ∧ byMonth.getList month ≠ [] then
          ⟨(merged z (archive month) (byMonth.getList month) excludedDates).map
            (Candle.toCsvRow z), true⟩
        else archive month := by
    intro months
    induction months with
    | nil => exact fun archive n _ => rfl
    | cons m months ih =>
        intro archive n hnodup
        rw [List.nodup_cons] at hnodup
        rw [List.foldl_cons, ih _ _ hnodup.2]
        by_cases hm : month = m
        · subst hm
          by_cases hnil : byMonth.getList month = []
          · simp [hnil, writeMonth]
          · simp [hnil, writeMonth, hnodup.1]
        · have hsame : (writeMonth z archive m (byMonth.getList m) excludedDates).1 month =
              archive month := by
            rw [writeMonth]
            split
            · rfl
            · exact Function.update_of_ne hm _ _
          simp [hm, hsame]
  have hnodup : byMonth.sortedKeys.Nodup :=
    byMonth.sortedKeys_pairwise.imp fun hlt => hlt.ne
  rw [writeMonths, hfold _ _ _ hnodup]
  by_cases hnil : byMonth.getList month = []
  · rw [if_neg fun h => h.2 hnil, if_pos hnil]
  · rw [if_pos ⟨Dict.mem_sortedKeys.2 (Dict.mem_keys_of_getList hnil), hnil⟩, if_neg hnil]

/-- The candles that a run starts from: none if there is no date before the end, nothing if it
raises. -/
def rangeCandles (z : Zones) (files : Files) (fromDate toDate : ℤ) : Option (List Candle) := do
  let start ← strptime fromDate
  let end_ ← strptime toDate
  if z.le end_ start then some [] else readCsvCandles z files start end_

/-- A month is written: a candle of it is left. -/
def Written (fl : ℚ → ℚ) (z : Zones) (candles : List Candle) (month : ℤ) : Prop :=
  ∃ c ∈ candles, c.timestamp.month = month ∧ day c ∉ badDays fl z candles

instance (candles : List Candle) (month : ℤ) : Decidable (Written fl z candles month) :=
  inferInstanceAs (Decidable (∃ c ∈ candles, _))

theorem strptime_eq_some {date : ℤ} {d : AwareDatetime} (h : strptime date = some d) :
    d.zone = .utc ∧ d.wall = dayMicros * date := by
  rw [strptime, utcFromTimestamp] at h
  split at h
  · obtain rfl := Option.some.inj h
    exact ⟨rfl, rfl⟩
  · cases h

/-- The rows of the store. -/
def InCsv (files : Files) (row : CsvRow) : Prop := ∃ month, row ∈ (files.get? month).getD []

theorem isRead_of_mem_readCsvFile {month : ℤ} {c : Candle} (h : c ∈ readCsvFile z files month) :
    IsRead c ∧ InCsv files (c.toCsvRow z) := by
  rw [readCsvFile, mem_sortByTimestamp, List.mem_filterMap] at h
  obtain ⟨row, hrow, hc⟩ := h
  refine ⟨⟨row, hc⟩, month, ?_⟩
  rwa [toCsvRow_of_fromCsvRow hc]

theorem isRead_of_mem_rangeCandles {fromDate toDate : ℤ} {candles : List Candle}
    (h : rangeCandles z files fromDate toDate = some candles) {c : Candle} (hc : c ∈ candles) :
    IsRead c ∧ InCsv files (c.toCsvRow z) := by
  obtain ⟨start, hstart, h⟩ := Option.bind_eq_some_iff.1 h
  obtain ⟨end_, hend, h⟩ := Option.bind_eq_some_iff.1 h
  split at h
  · obtain rfl := Option.some.inj h
    cases hc
  · obtain ⟨r, hr, rfl⟩ := Option.map_eq_some_iff.1 h
    rw [candles_readRange (strptime_eq_some hstart).1 (strptime_eq_some hend).1 hr,
      mem_readSpan] at hc
    obtain ⟨-, -, month, -, -, hc⟩ := hc
    exact isRead_of_mem_readCsvFile hc

/-- The candles that are left of a month. -/
theorem getList_byMonth (candles : List Candle) (month : ℤ) :
    (Dict.group (fun c : Candle => c.timestamp.month) id
        (quarantineAnomalousDays fl z candles).1).getList month =
      (sortByTimestamp z candles).filter fun c =>
        c.timestamp.month = month ∧ day c ∉ badDays fl z candles := by
  rw [Dict.getList_group, List.map_id, quarantineAnomalousDays, List.filter_filter]
  exact List.filter_congr fun c _ => by simp

theorem getList_byMonth_eq_nil_iff (candles : List Candle) (month : ℤ) :
    (Dict.group (fun c : Candle => c.timestamp.month) id
        (quarantineAnomalousDays fl z candles).1).getList month = [] ↔
      ¬ Written fl z candles month := by
  rw [getList_byMonth, List.filter_eq_nil_iff, Written]
  simp only [mem_sortByTimestamp, decide_eq_true_eq, not_exists, not_and]

/-- A run that does not raise: the days that it quarantines, and the files it leaves. -/
theorem runRollover_eq (archive : Archive) {fromDate toDate : ℤ} {candles : List Candle}
    (h : rangeCandles z files fromDate toDate = some candles) :
    (∃ r, (runRollover fl z files archive fromDate toDate false).1 = some r ∧
      r.quarantined = badDays fl z candles) ∧
    (runRollover fl z files archive fromDate toDate false).2 = fun month =>
      if Written fl z candles month then
        ⟨(merged z (archive month)
          ((sortByTimestamp z candles).filter fun c =>
            c.timestamp.month = month ∧ day c ∉ badDays fl z candles)
          (badDays fl z candles)).map (Candle.toCsvRow z), true⟩
      else archive month := by
  have hnil : badDays fl z [] = [] ∧ ∀ month, ¬ Written fl z [] month :=
    ⟨rfl, fun month h => by obtain ⟨c, hc, -⟩ := h; cases hc⟩
  obtain ⟨start, hstart, h⟩ := Option.bind_eq_some_iff.1 h
  obtain ⟨end_, hend, h⟩ := Option.bind_eq_some_iff.1 h
  rw [runRollover, hstart, hend]
  dsimp only
  by_cases hle : z.le end_ start = true
  · rw [if_pos hle] at h ⊢
    obtain rfl := Option.some.inj h
    refine ⟨⟨_, rfl, rfl⟩, funext fun month => ?_⟩
    rw [if_neg (hnil.2 month)]
  · rw [if_neg hle] at h ⊢
    rw [h]
    cases candles with
    | nil =>
        refine ⟨⟨_, rfl, rfl⟩, funext fun month => ?_⟩
        rw [if_neg (hnil.2 month)]
    | cons c candles =>
        refine ⟨⟨_, rfl, rfl⟩, funext fun month => ?_⟩
        refine (writeMonths_archive _ _ month).trans ?_
        by_cases hwritten : Written fl z (c :: candles) month
        · rw [if_neg fun hnil => (getList_byMonth_eq_nil_iff _ _).1 hnil hwritten,
            if_pos hwritten, getList_byMonth]
          rfl
        · rw [if_pos ((getList_byMonth_eq_nil_iff _ _).2 hwritten), if_neg hwritten]

/-- A run that raises leaves the archive. -/
theorem runRollover_of_none (archive : Archive) {fromDate toDate : ℤ}
    (h : rangeCandles z files fromDate toDate = none) :
    (runRollover fl z files archive fromDate toDate false).2 = archive := by
  rw [runRollover]
  rw [rangeCandles] at h
  cases hstart : strptime fromDate with
  | none => rfl
  | some start =>
      cases hend : strptime toDate with
      | none => rfl
      | some end_ =>
          simp only [hstart, hend, Option.bind_eq_bind, Option.bind_some] at h ⊢
          by_cases hle : z.le end_ start = true
          · rw [if_pos hle]
          · rw [if_neg hle] at h ⊢
            rw [h]

/-- Sorting leaves the last candle of a second. -/
theorem candleAt_sortByTimestamp {candles : List Candle} (h : ∀ c ∈ candles, IsRead c) (t : ℤ) :
    candleAt z (sortByTimestamp z candles) t = candleAt z candles t := by
  have hfilter : ∀ cs : List Candle, (∀ c ∈ cs, IsRead c) →
      cs.filter (fun c => epoch z c = t) = cs.filter fun c => wall c = 1000000 * t := by
    refine fun cs hcs => List.filter_congr fun c hc => ?_
    have hwall : wall c = 1000000 * epoch z c := (hcs c hc).wall_eq
    rw [hwall]
    exact decide_eq_decide.2 ⟨fun h => h ▸ rfl, fun h => Int.eq_of_mul_eq_mul_left (by decide) h⟩
  rw [candleAt, candleAt, sortByTimestamp_eq_sortBy fun c hc => (h c hc).utc,
    Dict.latest_eq_getLast?, Dict.latest_eq_getLast?, hfilter candles h,
    hfilter _ fun c hc => h c (mem_sortBy.1 hc), filter_sortBy]

/-- The candles of a month that are left, at a second. -/
theorem candleAt_kept {candles : List Candle} (h : ∀ c ∈ candles, IsRead c) (month t : ℤ) :
    candleAt z ((sortByTimestamp z candles).filter fun c =>
        c.timestamp.month = month ∧ day c ∉ badDays fl z candles) t =
      if epochMonth t = month ∧ epochDay t ∉ badDays fl z candles then candleAt z candles t
      else none := by
  have hfilter : ((sortByTimestamp z candles).filter fun c =>
        c.timestamp.month = month ∧ day c ∉ badDays fl z candles) =
      (sortByTimestamp z candles).filter fun c =>
        decide (epochMonth (epoch z c) = month ∧ epochDay (epoch z c) ∉ badDays fl z candles) := by
    refine List.filter_congr fun c hc => ?_
    have hc := h c (mem_sortByTimestamp.1 hc)
    rw [hc.month_eq, day_eq_of_isRead hc]
  rw [← candleAt_sortByTimestamp h, hfilter, candleAt,
    Dict.latest_filter (fun t => decide (epochMonth t = month ∧ epochDay t ∉ badDays fl z candles))]
  split
  · rename_i ht
    rw [if_pos (of_decide_eq_true ht)]
    rfl
  · rename_i ht
    rw [if_neg fun h => ht (decide_eq_true h)]
    rfl

/-- What a run over some candles makes of the file of a month. -/
def written (fl : ℚ → ℚ) (z : Zones) (candles : List Candle) (month : ℤ) (file : ℤ → Option Ohlcv) (t : ℤ) :
    Option Ohlcv :=
  if epochDay t ∈ badDays fl z candles then none
  else (if epochMonth t = month then candleAt z candles t else none).or (file t)

/-- The archive after a run: quarantined days are left out of the months that are written, and the
candles of the store are put over what can be read. -/
theorem held_runRollover (archive : Archive) {fromDate toDate : ℤ} {candles : List Candle}
    (h : rangeCandles z files fromDate toDate = some candles) (month t : ℤ) :
    held ((runRollover fl z files archive fromDate toDate false).2 month) t =
      if Written fl z candles month then written fl z candles month (seen z (archive month)) t
      else held (archive month) t := by
  have hread := fun c hc => (isRead_of_mem_rangeCandles h (c := c) hc).1
  rw [(runRollover_eq archive h).2]
  dsimp only
  split
  · rw [held_map, candleAt_merged, candleAt_kept hread, written]
    by_cases hday : epochDay t ∈ badDays fl z candles
    · simp [hday]
    · by_cases hmonth : epochMonth t = month
      · simp [hday, hmonth]
      · simp [hday, hmonth]
  · rfl

/-- What can be read of it. -/
theorem seen_runRollover (archive : Archive) {fromDate toDate : ℤ} {candles : List Candle}
    (h : rangeCandles z files fromDate toDate = some candles) (month t : ℤ) :
    seen z ((runRollover fl z files archive fromDate toDate false).2 month) t =
      if Written fl z candles month then written fl z candles month (seen z (archive month)) t
      else seen z (archive month) t := by
  have hread := fun c hc => (isRead_of_mem_rangeCandles h (c := c) hc).1
  split
  · rename_i hwritten
    have hheld : held ((runRollover fl z files archive fromDate toDate false).2 month) t = _ :=
      held_runRollover archive h month t
    rw [if_pos hwritten] at hheld
    rw [← hheld, (runRollover_eq archive h).2]
    dsimp only
    rw [if_pos hwritten, seen, readExistingParquet_map, held_map]
    exact isRead_of_mem_merged
      (fun c hc => hread c (mem_sortByTimestamp.1 (List.mem_of_mem_filter hc))) _
  · rename_i hwritten
    rw [(runRollover_eq archive h).2]
    dsimp only
    rw [if_neg hwritten]

/-! ### What is to be kept -/

/-- A second is in a range of dates. -/
def InRange (fromDate toDate t : ℤ) : Prop :=
  dayMicros * fromDate ≤ 1000000 * t ∧ 1000000 * t < dayMicros * toDate

/-- Nothing is lost and quarantined days are kept out: the candles of the archive are still there or
replaced by those of the store at their second, and those of the store are there, but for the days
that were quarantined, which have none. -/
structure Keeps (files : Files) (archive archive' : Archive) (fromDate toDate : ℤ)
    (quarantined : List ℤ) : Prop where
  archived : ∀ month t v, held (archive month) t = some v → epochDay t ∉ quarantined →
    held (archive' month) t = some v ∨
      ∃ row, InCsv files row ∧ row.tsEpoch = t ∧ held (archive' month) t = some row.ohlcv
  stored : ∀ row, InCsv files row → InRange fromDate toDate row.tsEpoch →
    epochDay row.tsEpoch ∉ quarantined →
      held (archive' (epochMonth row.tsEpoch)) row.tsEpoch = some row.ohlcv
  excluded : ∀ month t, epochDay t ∈ quarantined → held (archive' month) t = none

/-- What a run starts from is such that nothing is lost: files that cannot be read are not written, or
have only candles that are quarantined or replaced; months that are not written have no candles of
quarantined days; and the candles of the store are read, or are in the archive. -/
structure Careful (fl : ℚ → ℚ) (z : Zones) (files : Files) (archive : Archive) (fromDate toDate : ℤ)
    (candles : List Candle) : Prop where
  unreadable : ∀ month, Written fl z candles month → ¬ (archive month).CanBeRead →
    ∀ t, held (archive month) t ≠ none → epochDay t ∉ badDays fl z candles →
      epochMonth t = month ∧ candleAt z candles t ≠ none
  unwritten : ∀ month, ¬ Written fl z candles month → ∀ t, epochDay t ∈ badDays fl z candles →
    held (archive month) t = none
  read : ∀ row, InCsv files row → InRange fromDate toDate row.tsEpoch →
    epochDay row.tsEpoch ∉ badDays fl z candles →
      candleAt z candles row.tsEpoch = some row.ohlcv ∨
        candleAt z candles row.tsEpoch = none ∧
          held (archive (epochMonth row.tsEpoch)) row.tsEpoch = some row.ohlcv ∧
          (Written fl z candles (epochMonth row.tsEpoch) →
            (archive (epochMonth row.tsEpoch)).CanBeRead)

theorem exists_of_candleAt {candles : List Candle} {t : ℤ} (h : candleAt z candles t ≠ none) :
    ∃ c ∈ candles, epoch z c = t := by
  cases hlatest : Dict.latest (epoch z) candles t with
  | none =>
      rw [candleAt, hlatest] at h
      exact absurd rfl h
  | some c => exact ⟨c, Dict.latest_eq_some hlatest⟩

/-- A candle that is read on a day without a jump makes its month written. -/
theorem written_of_candleAt {candles : List Candle} (h : ∀ c ∈ candles, IsRead c) {t : ℤ}
    (hcandle : candleAt z candles t ≠ none) (hday : epochDay t ∉ badDays fl z candles) :
    Written fl z candles (epochMonth t) := by
  obtain ⟨c, hc, rfl⟩ := exists_of_candleAt hcandle
  exact ⟨c, hc, (h c hc).month_eq, day_eq_of_isRead (h c hc) ▸ hday⟩

/-- A candle that is read is one of the store. -/
theorem inCsv_of_candleAt {fromDate toDate : ℤ} {candles : List Candle}
    (h : rangeCandles z files fromDate toDate = some candles) {t : ℤ} {v : Ohlcv}
    (hcandle : candleAt z candles t = some v) :
    ∃ row, InCsv files row ∧ row.tsEpoch = t ∧ row.ohlcv = v := by
  obtain ⟨c, hc, rfl⟩ := Option.map_eq_some_iff.1 hcandle
  obtain ⟨hmem, rfl⟩ := Dict.latest_eq_some hc
  exact ⟨c.toCsvRow z, (isRead_of_mem_rangeCandles h hmem).2, rfl, rfl⟩

/-- The files that a run leaves, at a second of a day that is not quarantined. -/
theorem held_of_not_bad (archive : Archive) {fromDate toDate : ℤ} {candles : List Candle}
    (h : rangeCandles z files fromDate toDate = some candles) {month t : ℤ}
    (hwritten : Written fl z candles month) (hday : epochDay t ∉ badDays fl z candles) :
    held ((runRollover fl z files archive fromDate toDate false).2 month) t =
      (if epochMonth t = month then candleAt z candles t else none).or
        (seen z (archive month) t) := by
  rw [held_runRollover archive h, if_pos hwritten, written, if_neg hday]

theorem Keeps.careful {fromDate toDate : ℤ} {candles : List Candle}
    (h : rangeCandles z files fromDate toDate = some candles)
    (hkeeps : Keeps files archive (runRollover fl z files archive fromDate toDate false).2
      fromDate toDate (badDays fl z candles)) :
    Careful fl z files archive fromDate toDate candles where
  unreadable month hwritten hread t ht hday := by
    obtain ⟨v, hv⟩ := Option.ne_none_iff_exists'.1 ht
    have hheld := held_of_not_bad archive h hwritten hday
    rw [seen_of_not_canBeRead hread, Option.or_none] at hheld
    have hsome : held ((runRollover fl z files archive fromDate toDate false).2 month) t ≠ none := by
      rcases hkeeps.archived month t v hv hday with hkept | ⟨row, -, -, hkept⟩
      · rw [hkept]
        exact Option.some_ne_none v
      · rw [hkept]
        exact Option.some_ne_none _
    rw [hheld] at hsome
    by_cases hmonth : epochMonth t = month
    · rw [if_pos hmonth] at hsome
      exact ⟨hmonth, hsome⟩
    · rw [if_neg hmonth] at hsome
      exact absurd rfl hsome
  unwritten month hwritten t hday := by
    have hheld := hkeeps.excluded month t hday
    rwa [held_runRollover archive h, if_neg hwritten] at hheld
  read row hrow hrange hday := by
    have hstored := hkeeps.stored row hrow hrange hday
    by_cases hwritten : Written fl z candles (epochMonth row.tsEpoch)
    · rw [held_of_not_bad archive h hwritten hday, if_pos rfl] at hstored
      cases hcandle : candleAt z candles row.tsEpoch with
      | some v =>
          rw [hcandle, Option.some_or] at hstored
          exact .inl hstored
      | none =>
          rw [hcandle, Option.none_or] at hstored
          have hread : (archive (epochMonth row.tsEpoch)).CanBeRead := by
            by_contra hread
            rw [seen_of_not_canBeRead hread] at hstored
            cases hstored
          rw [seen_of_canBeRead hread] at hstored
          exact .inr ⟨rfl, hstored, fun _ => hread⟩
    · rw [held_runRollover archive h, if_neg hwritten] at hstored
      refine .inr ⟨?_, hstored, fun hw => absurd hw hwritten⟩
      by_contra hcandle
      exact hwritten (written_of_candleAt
        (fun c hc => (isRead_of_mem_rangeCandles h hc).1) hcandle hday)

theorem Careful.keeps {fromDate toDate : ℤ} {candles : List Candle}
    (h : rangeCandles z files fromDate toDate = some candles)
    (hcareful : Careful fl z files archive fromDate toDate candles) :
    Keeps files archive (runRollover fl z files archive fromDate toDate false).2
      fromDate toDate (badDays fl z candles) where
  archived month t v hv hday := by
    by_cases hwritten : Written fl z candles month
    · rw [held_of_not_bad archive h hwritten hday]
      cases hcandle : if epochMonth t = month then candleAt z candles t else none with
      | some w =>
          -- the store has a candle of the second
          right
          split at hcandle
          · obtain ⟨row, hrow, ht, rfl⟩ := inCsv_of_candleAt h hcandle
            exact ⟨row, hrow, ht, rfl⟩
          · cases hcandle
      | none =>
          left
          by_cases hread : (archive month).CanBeRead
          · rw [Option.none_or, seen_of_canBeRead hread, hv]
          · obtain ⟨hmonth, hne⟩ := hcareful.unreadable month hwritten hread t
              (by rw [hv]; exact Option.some_ne_none v) hday
            rw [if_pos hmonth] at hcandle
            exact absurd hcandle hne
    · rw [held_runRollover archive h, if_neg hwritten]
      exact .inl hv
  stored row hrow hrange hday := by
    rcases hcareful.read row hrow hrange hday with hcandle | ⟨hcandle, hheld, hread⟩
    · have hwritten : Written fl z candles (epochMonth row.tsEpoch) :=
        written_of_candleAt (fun c hc => (isRead_of_mem_rangeCandles h hc).1)
          (by rw [hcandle]; exact Option.some_ne_none _) hday
      rw [held_of_not_bad archive h hwritten hday, if_pos rfl, hcandle, Option.some_or]
    · by_cases hwritten : Written fl z candles (epochMonth row.tsEpoch)
      · rw [held_of_not_bad archive h hwritten hday, if_pos rfl, hcandle, Option.none_or,
          seen_of_canBeRead (hread hwritten), hheld]
      · rw [held_runRollover archive h, if_neg hwritten, hheld]
  excluded month t hday := by
    by_cases hwritten : Written fl z candles month
    · rw [held_runRollover archive h, if_pos hwritten, written, if_pos hday]
    · rw [held_runRollover archive h, if_neg hwritten]
      exact hcareful.unwritten month hwritten t hday

/-- A run that does not raise has candles to start from. -/
theorem exists_rangeCandles {fromDate toDate : ℤ} {dryRun : Bool} {r : Result}
    (h : (runRollover fl z files archive fromDate toDate dryRun).1 = some r) :
    ∃ candles, rangeCandles z files fromDate toDate = some candles := by
  rw [runRollover] at h
  cases hstart : strptime fromDate with
  | none =>
      rw [hstart] at h
      cases h
  | some start =>
      cases hend : strptime toDate with
      | none =>
          rw [hstart, hend] at h
          cases h
      | some end_ =>
          rw [hstart, hend] at h
          dsimp only at h
          rw [rangeCandles, hstart, hend]
          split at h
          · rename_i hle
            exact ⟨[], if_pos hle⟩
          · rename_i hle
            cases hread : readCsvCandles z files start end_ with
            | none =>
                rw [hread] at h
                cases h
            | some candles => exact ⟨candles, (if_neg hle).trans hread⟩

/-- A run keeps everything but the quarantined days exactly if it starts from such files, whatever the
rounding of floats. -/
theorem keeps_iff {fromDate toDate : ℤ} {r : Result}
    (h : (runRollover fl z files archive fromDate toDate false).1 = some r) :
    Keeps files archive (runRollover fl z files archive fromDate toDate false).2 fromDate toDate
        r.quarantined ↔
      Careful fl z files archive fromDate toDate
        ((rangeCandles z files fromDate toDate).getD []) := by
  obtain ⟨candles, hcandles⟩ := exists_rangeCandles h
  obtain ⟨⟨r', hr', hquarantined⟩, -⟩ := runRollover_eq archive hcandles
  obtain rfl := Option.some.inj (h.symm.trans hr')
  rw [hquarantined, hcandles, Option.getD_some]
  exact ⟨fun hkeeps => hkeeps.careful hcandles, fun hcareful => hcareful.keeps hcandles⟩

/-! ### Lost and left behind -/

/-- A row at one price. -/
def exampleRow (tsEpoch : ℤ) (price : ℚ) : CsvRow := ⟨tsEpoch, .flat price⟩

/-- An archive without candles. -/
def exampleArchive : Archive := fun _ => ⟨[], true⟩

/-- Noon of the 31st of July 2026. -/
def exampleFiles : Files := Dict.empty.set 24318 [exampleRow 1785499200 100]

/-- Noon of the 30th, and two minutes of the 31st between which the close rises by five percent, and as
floats by a little more. -/
def fivePercentFiles : Files :=
  Dict.empty.set 24318
    [exampleRow 1785412800 100, exampleRow 1785499200 100, exampleRow 1785499260 105]

/-- The archive has noon of the 29th and of the 31st. -/
def twoDaysArchive : Archive :=
  Function.update exampleArchive 24318 ⟨[exampleRow 1785326400 100, exampleRow 1785499200 100], true⟩

/-- What is reported: the 31st is quarantined, and noon of the 29th and of the 30th is written. -/
def fivePercentResult : Result where
  monthsWritten := 1
  candlesWritten := 2
  details := some ⟨3, [20665],
    [⟨⟨.utc, 1785499260000000, false, by decide +kernel, by decide +kernel⟩, 100, 105,
      5629499534213125 / 1125899906842624⟩]⟩
  dryRun := false

theorem keeps_iff_fivePercent :
    Keeps fivePercentFiles twoDaysArchive
        (runRollover binary64 Zones.fallBack fivePercentFiles twoDaysArchive 20664 20666 false).2
        20664 20666 fivePercentResult.quarantined ↔
      Careful binary64 Zones.fallBack fivePercentFiles twoDaysArchive 20664 20666
        ((rangeCandles Zones.fallBack fivePercentFiles 20664 20666).getD []) :=
  keeps_iff (show (runRollover binary64 Zones.fallBack fivePercentFiles twoDaysArchive 20664 20666
    false).1 = some fivePercentResult by decide +kernel)

/-- The archive has noon of the 30th, in a file that cannot be read. -/
def unreadableArchive : Archive :=
  Function.update exampleArchive 24318 ⟨[exampleRow 1785412800 100], false⟩

/-- A jump at noon of the 31st. -/
def jumpFiles : Files :=
  Dict.empty.set 24318 [exampleRow 1785499200 100, exampleRow 1785499260 200]

/-- The archive has noon of the 31st. -/
def fullArchive : Archive :=
  Function.update exampleArchive 24318 ⟨[exampleRow 1785499200 100], true⟩

/-- The evening of the 31st in New York, which is the 1st of August in UTC. -/
def eveningFiles : Files := Dict.empty.set 24318 [exampleRow 1785546000 100]

/-- A candle in a file that cannot be read is lost, one of a quarantined day is left if nothing of its
month is, and one that is filed in the month of New York is not read. -/
theorem lost_and_left :
    ((runRollover binary64 Zones.fallBack exampleFiles unreadableArchive 20665 20666 false).1.map
          Result.quarantined = some [] ∧
        ¬ Keeps exampleFiles unreadableArchive
          (runRollover binary64 Zones.fallBack exampleFiles unreadableArchive 20665 20666 false).2
          20665 20666 []) ∧
      ((runRollover binary64 Zones.fallBack jumpFiles fullArchive 20665 20666 false).1.map
          Result.quarantined = some [20665] ∧
        ¬ Keeps jumpFiles fullArchive
          (runRollover binary64 Zones.fallBack jumpFiles fullArchive 20665 20666 false).2
          20665 20666 [20665]) ∧
      ((runRollover binary64 Zones.fallBack eveningFiles exampleArchive 20666 20667 false).1.map
          Result.quarantined = some [] ∧
        ¬ Keeps eveningFiles exampleArchive
          (runRollover binary64 Zones.fallBack eveningFiles exampleArchive 20666 20667 false).2
          20666 20667 []) := by
  refine ⟨⟨by decide +kernel, fun h => ?_⟩, ⟨by decide +kernel, fun h => ?_⟩,
    by decide +kernel, fun h => ?_⟩
  · have hheld : held
        ((runRollover binary64 Zones.fallBack exampleFiles unreadableArchive 20665 20666 false).2 24318)
        1785412800 = none := by decide +kernel
    rcases h.archived 24318 1785412800 (exampleRow 1785412800 100).ohlcv (by decide)
      List.not_mem_nil with hkept | ⟨row, -, -, hkept⟩
    · cases hheld.symm.trans hkept
    · cases hheld.symm.trans hkept
  · have hheld := h.excluded 24318 1785499200 (by decide)
    revert hheld
    decide +kernel
  · have hheld := h.stored (exampleRow 1785546000 100) ⟨24318, by decide⟩
      ⟨by decide, by decide⟩ List.not_mem_nil
    revert hheld
    decide +kernel

end Rollover
