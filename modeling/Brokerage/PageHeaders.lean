/-
**The headers of a page count its gaps.**

A page of rows is described by two numbers.  The missing minutes are found from the distance between
its first row and its last one; the largest gap is found by a loop over neighbours.  Both are those
of the gaps: the minutes without a row between each row and the next one.  The backtest computes the
two numbers from datetimes, and of the requested window instead of the page; for the window of the
page they are the same.

Main definitions:

* `PageHeaders.gaps`, `PageHeaders.gapHeaders` — the gaps of a page, and the headers that count them.

Main results:

* `PageHeaders.rowHeaders_eq` — the headers of rows;
* `PageHeaders.computeXdataHeadersBacktest_eq` — the headers of a backtest over the same rows;
* `PageHeaders.headers_spec` — all three.
-/

import Brokerage.QualityGate

set_option relaxedAutoImplicit false
set_option autoImplicit false

namespace PageHeaders

/-- How many minutes have no row between each row and the next one. -/
noncomputable def gaps (rows : List OhlcvRow) : List ℕ := GridWindow.gapSizes 60 (rows.map OhlcvRow.ts)

/-- The headers of the window from a first second to the minute of a last one, with their gaps. -/
def gapHeaders (source : String) (first last : ℤ) (gaps : List ℕ) : Headers :=
  xDataHeaders source first (last + 60) (gaps.sum : ℕ) (60 * (gaps.foldr max 0 : ℕ))

/-- Rows of minutes in strict order. -/
structure Page (rows : List OhlcvRow) : Prop where
  sorted : (rows.map OhlcvRow.ts).Pairwise (· < ·)
  minute : ∀ r ∈ rows, 60 ∣ r.ts

/-! ### The largest gap -/

theorem largest_eq_foldr (ns : List ℤ) : largest ns = ns.foldr max 0 := by
  have hstep : (fun m n : ℤ => if m < n then n else m) = max := by
    funext m n
    rw [max_def_lt]
  rw [largest, hstep, List.foldl_eq_foldr]

/-- The largest gap in seconds. -/
theorem foldr_max_seconds (gaps : List ℕ) :
    (gaps.map fun g : ℕ => 60 * (g : ℤ)).foldr max 0 = 60 * (gaps.foldr max 0 : ℕ) := by
  induction gaps with
  | nil => rfl
  | cons g gaps ih =>
      rw [List.map_cons, List.foldr_cons, List.foldr_cons, ih]
      omega

/-- The largest distance between two rows is a minute more than that. -/
theorem foldr_max_distances (gaps : List ℕ) :
    max 0 ((gaps.map fun g : ℕ => 60 * (g : ℤ) + 60).foldr max 0 - 60) =
      60 * (gaps.foldr max 0 : ℕ) := by
  induction gaps with
  | nil => rfl
  | cons g gaps ih =>
      rw [List.map_cons, List.foldr_cons, List.foldr_cons]
      omega

theorem foldr_max_eq_zero_iff (gaps : List ℕ) : gaps.foldr max 0 = 0 ↔ gaps.sum = 0 := by
  induction gaps with
  | nil => exact Iff.rfl
  | cons g gaps ih =>
      rw [List.foldr_cons, List.sum_cons]
      omega

/-! ### The headers of rows -/

variable {rows : List OhlcvRow}

theorem Page.dvd (h : Page rows) : ∀ t ∈ rows.map OhlcvRow.ts, 60 ∣ t := by
  intro t ht
  obtain ⟨r, hr, rfl⟩ := List.mem_map.1 ht
  exact h.minute r hr

/-- The distances between neighbours, by their gaps. -/
theorem Page.distances (h : Page rows) :
    ((rows.map OhlcvRow.ts).zip (rows.map OhlcvRow.ts).tail).map (fun p => p.2 - p.1) =
      (gaps rows).map fun g : ℕ => 60 * (g : ℤ) + 60 := by
  have hgaps := GridWindow.map_gapSizes (by decide) h.sorted h.dvd
  have hall : ∀ p ∈ (rows.map OhlcvRow.ts).zip (rows.map OhlcvRow.ts).tail,
      p.2 - p.1 = 60 * ((p.2 - p.1) / 60 - 1) + 60 := by
    intro p hp
    have ha := h.dvd p.1 (List.of_mem_zip hp).1
    have hb := h.dvd p.2 (List.mem_of_mem_tail (List.of_mem_zip hp).2)
    omega
  calc ((rows.map OhlcvRow.ts).zip (rows.map OhlcvRow.ts).tail).map (fun p => p.2 - p.1)
      = (((rows.map OhlcvRow.ts).zip (rows.map OhlcvRow.ts).tail).map fun p =>
          (p.2 - p.1) / 60 - 1).map fun n => 60 * n + 60 := by
        rw [List.map_map]
        exact List.map_congr_left hall
    _ = (gaps rows).map fun g : ℕ => 60 * (g : ℤ) + 60 := by
        rw [← hgaps, List.map_map]
        rfl

/-- The distance between the ends, less the rows, is what the gaps miss. -/
theorem Page.missing {first : OhlcvRow} {more : List OhlcvRow} (h : Page (first :: more)) :
    max 0 (max 0 (((more.getLastD first).ts + 60 - first.ts) / 60) - (first :: more).length) =
      ((gaps (first :: more)).sum : ℕ) := by
  have hspan := GridWindow.span_sub_length (by decide) h.sorted h.dvd
  rw [List.getLastD_map, ← List.map_cons, List.length_map] at hspan
  rw [gaps]
  omega

/-- The headers of rows count the gaps. -/
theorem rowHeaders_eq {first : OhlcvRow} {more : List OhlcvRow} (h : Page (first :: more))
    (source : String) (fromTs toTs : Option ℤ) :
    rowHeaders source (first :: more) fromTs toTs =
      gapHeaders source first.ts (more.getLastD first).ts (gaps (first :: more)) := by
  have hgaps : ((first.ts :: more.map OhlcvRow.ts).zip (more.map OhlcvRow.ts)).map
      (fun p => p.2 - p.1 - 60) = (gaps (first :: more)).map fun g : ℕ => 60 * (g : ℤ) := by
    have hdistances := congrArg (List.map fun n => n - 60) h.distances
    rw [List.map_map, List.map_map] at hdistances
    simpa [Function.comp_def] using hdistances
  have hmissing := h.missing
  rw [List.length_cons] at hmissing
  simp only [rowHeaders, List.map_cons, List.getLastD_map, List.length_cons, List.length_map, hgaps,
    largest_eq_foldr, foldr_max_seconds, hmissing, gapHeaders]

/-! ### The headers of a backtest -/

section Backtest

variable {z : Zones} {candles : List Candle} {d e : AwareDatetime} {t u : ℤ}

/-- `datetime.fromtimestamp(…, tz=timezone.utc)` of a second. -/
def IsUtcOf (t : ℤ) (d : AwareDatetime) : Prop := utcFromTimestamp (1000000 * t) = some d

theorem isUtcOf_mk (hmin : monthStart 12 ≤ 1000000 * t) (hmax : 1000000 * t < monthStart 120000) :
    IsUtcOf t ⟨.utc, 1000000 * t, false, hmin, hmax⟩ := dif_pos ⟨hmin, hmax⟩

theorem IsUtcOf.zone (h : IsUtcOf t d) : d.zone = .utc := (utcFromTimestamp_eq_some h).1

theorem IsUtcOf.wall (h : IsUtcOf t d) : d.wall = 1000000 * t := (utcFromTimestamp_eq_some h).2.1

theorem IsUtcOf.epoch (h : IsUtcOf t d) (z : Zones) : z.epoch d = t := by
  rw [Zones.epoch, Zones.instant_utc h.zone, h.wall]
  exact Int.mul_tdiv_cancel_left t (by decide)

/-- In UTC a difference of datetimes is one of instants. -/
theorem IsUtcOf.sub (ht : IsUtcOf t d) (hu : IsUtcOf u e) (z : Zones) :
    z.sub e d = 1000000 * (u - t) := by
  rw [Zones.sub, if_pos (ht.zone.trans hu.zone.symm), ht.wall, hu.wall, mul_sub]

/-- The candles have the minutes of the rows. -/
def AreCandlesOf (rows : List OhlcvRow) (candles : List Candle) : Prop :=
  List.Forall₂ (fun r c => IsUtcOf r.ts c.timestamp) rows candles

/-- Neighbours among the candles have the distances of the rows. -/
theorem AreCandlesOf.distances (h : AreCandlesOf rows candles) (z : Zones) :
    (candles.zip candles.tail).map (fun p => (z.sub p.2.timestamp p.1.timestamp).tdiv 1000000) =
      ((rows.map OhlcvRow.ts).zip (rows.map OhlcvRow.ts).tail).map fun p => p.2 - p.1 := by
  induction h with
  | nil => rfl
  | @cons r c rows candles hrc hrest ih =>
      cases hrest with
      | nil => rfl
      | @cons r' c' rows candles hrc' hrest =>
          have hone : (z.sub c'.timestamp c.timestamp).tdiv 1000000 = r'.ts - r.ts := by
            rw [hrc.sub hrc']
            exact Int.mul_tdiv_cancel_left _ (by decide)
          simp only [List.map_cons, List.tail_cons, List.zip_cons_cons, hone] at ih ⊢
          rw [ih]

theorem AreCandlesOf.getLastD {r : OhlcvRow} {c : Candle} (h : AreCandlesOf rows candles)
    (hrc : IsUtcOf r.ts c.timestamp) :
    IsUtcOf (rows.getLastD r).ts (candles.getLastD c).timestamp := by
  induction h generalizing r c with
  | nil => exact hrc
  | cons hrc' _ ih =>
      rw [List.getLastD_cons, List.getLastD_cons]
      exact ih hrc'

/-- The headers of a backtest over the window of its candles count the gaps. -/
theorem computeXdataHeadersBacktest_eq {first : OhlcvRow} {more : List OhlcvRow}
    (h : Page (first :: more)) (hcandles : AreCandlesOf (first :: more) candles)
    {start end_ : AwareDatetime} (hstart : IsUtcOf first.ts start)
    (hend : IsUtcOf ((more.getLastD first).ts + 60) end_) (source : String) :
    computeXdataHeadersBacktest z candles source start end_ =
      gapHeaders source first.ts (more.getLastD first).ts (gaps (first :: more)) := by
  have hdistances := (hcandles.distances z).trans h.distances
  cases hcandles with
  | @cons _ c _ candles hc hmore =>
      have hlength := hmore.length_eq
      have hexpected : z.sub end_ start / minuteMicros =
          ((more.getLastD first).ts + 60 - first.ts) / 60 := by
        rw [hstart.sub hend, minuteMicros]
        omega
      have hmissing := h.missing
      rw [List.length_cons, hlength, ← List.length_cons (a := c)] at hmissing
      rw [List.tail_cons] at hdistances
      simp only [computeXdataHeadersBacktest, hexpected, hmissing, hdistances, largest_eq_foldr,
        foldr_max_distances, hc.epoch, (AreCandlesOf.getLastD hmore hc).epoch, gapHeaders]

end Backtest

/-- The two numbers of a page are those of its gaps, for all who compute them. -/
theorem headers_spec (first : OhlcvRow) (more : List OhlcvRow)
    (hsorted : ((first :: more).map OhlcvRow.ts).Pairwise (· < ·))
    (hminute : ∀ r ∈ first :: more, 60 ∣ r.ts) (source : String) (fromTs toTs : Option ℤ) :
    let numbers := gapHeaders source first.ts (more.getLastD first).ts (gaps (first :: more))
    computeXdataHeaders source (first :: more) fromTs toTs = numbers ∧
      computeXdataHeadersMixed (first :: more) source fromTs toTs = numbers ∧
      ((gaps (first :: more)).sum = 0 ↔ (gaps (first :: more)).foldr max 0 = 0) ∧
      ∀ (z : Zones) (candles : List Candle) (start end_ : AwareDatetime),
        AreCandlesOf (first :: more) candles → IsUtcOf first.ts start →
        IsUtcOf ((more.getLastD first).ts + 60) end_ →
        computeXdataHeadersBacktest z candles source start end_ = numbers := by
  have hpage : Page (first :: more) := ⟨hsorted, hminute⟩
  refine ⟨rowHeaders_eq hpage source fromTs toTs, rowHeaders_eq hpage source fromTs toTs,
    (foldr_max_eq_zero_iff _).symm, ?_⟩
  intro z candles start end_ hcandles hstart hend
  exact computeXdataHeadersBacktest_eq hpage hcandles hstart hend source

/-! ### A page of three rows -/

/-- A row at the start of 2024, some minutes later. -/
def rowAt (minute : ℤ) : OhlcvRow := ⟨1704067200 + 60 * minute, 1, 1, 1, 1, 0⟩

def threeRows : List OhlcvRow := [rowAt 0, rowAt 1, rowAt 4]

/-- A time of that day. -/
def timeAt (minute : Fin 1440) : AwareDatetime where
  zone := .utc
  wall := 1000000 * (1704067200 + 60 * (minute : ℕ))
  fold := false
  minyear := le_trans (by decide +kernel : monthStart 12 ≤ 1704067200000000) (by omega)
  maxyear := lt_of_lt_of_le (by omega) (by decide +kernel : 1704153600000000 ≤ monthStart 120000)

def candleAt (minute : Fin 1440) : Candle where
  timestamp := timeAt minute
  ohlcv := .flat 1
  isClosed := true

theorem timeAt_isUtcOf (minute : Fin 1440) :
    IsUtcOf (1704067200 + 60 * (minute : ℕ)) (timeAt minute) :=
  isUtcOf_mk (timeAt minute).minyear (timeAt minute).maxyear

theorem headers_spec_threeRows :
    computeXdataHeaders "dukascopy" threeRows none none =
        gapHeaders "dukascopy" 1704067200 1704067440 (gaps threeRows) ∧
      computeXdataHeadersMixed threeRows "dukascopy" none none =
        gapHeaders "dukascopy" 1704067200 1704067440 (gaps threeRows) ∧
      ((gaps threeRows).sum = 0 ↔ (gaps threeRows).foldr max 0 = 0) ∧
      computeXdataHeadersBacktest Zones.fallBack [candleAt 0, candleAt 1, candleAt 4] "dukascopy"
        (timeAt 0) (timeAt 5) =
          gapHeaders "dukascopy" 1704067200 1704067440 (gaps threeRows) := by
  obtain ⟨hparquet, hmixed, hzero, hbacktest⟩ :=
    headers_spec (rowAt 0) [rowAt 1, rowAt 4] (by decide) (by decide) "dukascopy" none none
  refine ⟨hparquet, hmixed, hzero, hbacktest _ _ _ _ ?_ (timeAt_isUtcOf 0) (timeAt_isUtcOf 5)⟩
  exact .cons (timeAt_isUtcOf 0) (.cons (timeAt_isUtcOf 1) (.cons (timeAt_isUtcOf 4) .nil))

/-- Two minutes are missing, in one gap. -/
example : computeXdataHeaders "dukascopy" threeRows none none =
    xDataHeaders "dukascopy" 1704067200 1704067500 2 120 := by decide

end PageHeaders
