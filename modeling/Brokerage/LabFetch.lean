/-
**The lab's download of a range of candles.**

The client of the lab asks for the candles of a range in pages of 5000, and goes on behind the last
one that it has got: from the page's cursor, or where there is none from its last row.  It does not
hand the cursor back, but asks for a range that begins later.

Main definitions:

* `LabFetch.fetchCandlesPage` — a page of the candles of a range;
* `LabFetch.fetchCandles1m` — the client;
* `LabFetch.servedRows` — the rows of the store that a page can have.

Main results:

* `LabFetch.servesFrom_fetchCandlesPage` — the pages are those of the merged candles;
* `LabFetch.fetchCandles1m_spec` — the client gets the merged candles of the range.
-/

import Brokerage.MixedOhlcv
import Brokerage.RangePages

set_option relaxedAutoImplicit false
set_option autoImplicit false

namespace LabFetch

open MixedOhlcv

/-! ### The client -/

/-- `API_PAGE_LIMIT`. -/
def apiPageLimit : ℕ := 5000

section Client

variable (legacy : ℤ → ℤ → CursorPages.Page OhlcvRow ℤ) (mixedAllowed : Bool)
  (files : CandleStore.Files) (now : ℤ) (parquetFiles : List (List OhlcvRow))

/-- The answer to a request without a cursor.  For a symbol without parquet files the range is not
paged: what is answered then is `legacy`, and nothing is said of it. -/
def fetchCandlesPage (toTs fromTs : ℤ) : CursorPages.Page OhlcvRow ℤ :=
  if parquetFiles = [] then legacy fromTs toTs
  else
    mixedPage mixedAllowed files now parquetFiles.flatten (some fromTs) (some toTs) apiPageLimit none

/-- The rows that are downloaded with at most that many pages. -/
def fetchCandles1m (pages : ℕ) (fromTs toTs : ℤ) : Option (List OhlcvRow) :=
  RangePages.refetch OhlcvRow.ts 60
    (fetchCandlesPage legacy mixedAllowed files now parquetFiles toTs) apiPageLimit toTs pages fromTs

/-- The rows of the store that a page can have: they are read if mixing is allowed, and the end of
the range is not past the first of December 9999. -/
def servedRows (toTs : ℤ) : List OhlcvRow :=
  if mixedAllowed ∧ 1000000 * toTs ≤ monthStart 119999 then storedRows files else []

end Client

variable {legacy : ℤ → ℤ → CursorPages.Page OhlcvRow ℤ} {mixedAllowed : Bool}
  {files : CandleStore.Files} {now : ℤ} {parquet : List OhlcvRow} {parquetFiles : List (List OhlcvRow)}

/-! ### The pages -/

/-- A candle of a range is in the window that is read unless the range ends too late. -/
theorem visible_iff {fromTs toTs ts : ℤ} (hpos : 0 < fromTs) (hfrom : fromTs ≤ ts) (hto : ts < toTs) :
    Visible now (some fromTs) (some toTs) ts ↔ 1000000 * toTs ≤ monthStart 119999 := by
  have hepoch : monthStart 12 < 0 ∧ monthStart 119999 < monthStart 120000 := by decide +kernel
  have hstart : windowStart (some fromTs) = utcFromTimestamp (1000000 * fromTs) := by
    rw [windowStart, if_neg (by omega)]
  have hend : windowEnd now (some toTs) = utcFromTimestamp (1000000 * toTs) := by
    rw [windowEnd, if_neg (by omega)]
  rw [Visible, hstart, hend]
  constructor
  · rintro ⟨start, end_, -, hend, hlast, -⟩
    rwa [← (utcFromTimestamp_eq_some hend).2.1]
  · intro hlast
    rw [utcFromTimestamp, utcFromTimestamp, dif_pos ⟨by omega, by omega⟩,
      dif_pos ⟨by omega, by omega⟩]
    exact ⟨_, _, rfl, rfl, hlast, by dsimp only; omega, by dsimp only; omega⟩

/-- What is read for a page merges like the rows that a page can have. -/
theorem isMerge_servedRows (hfiles : UtcFiles files) {fromTs toTs : ℤ} (hpos : 0 < fromTs)
    {rows : List OhlcvRow} :
    IsMerge parquet (realtimeRead mixedAllowed files now (some fromTs) (some toTs)) (some fromTs)
        (some toTs) rows ↔
      IsMerge parquet (servedRows mixedAllowed files toTs) (some fromTs) (some toTs) rows := by
  have hsame : ∀ r, r ∈ rowsIn (some fromTs) (some toTs)
      (realtimeRead mixedAllowed files now (some fromTs) (some toTs)) ↔
        r ∈ rowsIn (some fromTs) (some toTs) (servedRows mixedAllowed files toTs) := by
    intro r
    rw [rowsIn, rowsIn, List.mem_filter, List.mem_filter, mem_realtimeRead hfiles, IsRead]
    refine and_congr_left fun hin => ?_
    simp only [inRange, fromOk, toOk, Bool.and_eq_true, decide_eq_true_eq] at hin
    rw [visible_iff hpos hin.1 hin.2, servedRows]
    split
    · rename_i hserved
      simp [hserved]
    · rename_i hserved
      simp [hserved]
  constructor
  · exact fun h => ⟨h.sorted, fun x => by simp only [h.mem_iff, hsame]⟩
  · exact fun h => ⟨h.sorted, fun x => by simp only [h.mem_iff, hsame]⟩

theorem rowsIn_rowsFrom {first start toTs : ℤ} (h : first ≤ start) (rows : List OhlcvRow) :
    rowsIn (some start) (some toTs) rows =
      RangePages.rowsFrom OhlcvRow.ts start (rowsIn (some first) (some toTs) rows) := by
  rw [rowsIn, rowsIn, RangePages.rowsFrom, List.filter_filter]
  refine List.filter_congr fun r _ => ?_
  rw [Bool.eq_iff_iff]
  simp only [inRange, fromOk, toOk, Bool.and_eq_true, decide_eq_true_eq]
  omega

/-- The rows of a merge from a later start on are the merge from there on. -/
theorem isMerge_rowsFrom {realtime rows : List OhlcvRow} {first start toTs : ℤ} (h : first ≤ start)
    (hrows : IsMerge parquet realtime (some first) (some toTs) rows) :
    IsMerge parquet realtime (some start) (some toTs)
      (RangePages.rowsFrom OhlcvRow.ts start rows) := by
  refine ⟨hrows.sorted.filter _, fun x => ?_⟩
  simp only [rowsIn_rowsFrom h, RangePages.rowsFrom, List.mem_filter (p := fun r : OhlcvRow =>
    decide (start ≤ r.ts)), hrows.mem_iff]
  constructor
  · rintro ⟨hx | ⟨hx, hother⟩, hstart⟩
    · exact .inl ⟨hx, hstart⟩
    · exact .inr ⟨⟨hx, hstart⟩, fun y hy => hother y hy.1⟩
  · rintro (⟨hx, hstart⟩ | ⟨⟨hx, hstart⟩, hother⟩)
    · exact ⟨.inl hx, hstart⟩
    · refine ⟨.inr ⟨hx, fun y hy hyx => hother y ⟨hy, ?_⟩ hyx⟩, hstart⟩
      rw [hyx]
      exact hstart

/-- The pages that the client asks for are those of the merged candles. -/
theorem servesFrom_fetchCandlesPage (hfiles : UtcFiles files) (hne : parquetFiles ≠ [])
    (hp : (parquetFiles.flatten.map OhlcvRow.ts).Nodup) {first toTs : ℤ} (hpos : 0 < first)
    {rows : List OhlcvRow}
    (hrows : IsMerge parquetFiles.flatten (servedRows mixedAllowed files toTs) (some first)
      (some toTs) rows) :
    RangePages.ServesFrom OhlcvRow.ts
      (fetchCandlesPage legacy mixedAllowed files now parquetFiles toTs) rows apiPageLimit first
      toTs := by
  have hpage : ∀ start, fetchCandlesPage legacy mixedAllowed files now parquetFiles toTs start =
      mixedPage mixedAllowed files now parquetFiles.flatten (some start) (some toTs) apiPageLimit
        none := fun start => if_neg hne
  have hserves : ∀ start, first ≤ start →
      CursorPages.Serves OhlcvRow.ts
        (mixedPage mixedAllowed files now parquetFiles.flatten (some start) (some toTs) apiPageLimit)
        (RangePages.rowsFrom OhlcvRow.ts start rows) apiPageLimit
        (saysMore mixedAllowed files now (some start) (some toTs) parquetFiles.flatten
          apiPageLimit) := by
    intro start hstart
    exact serves_mixedPage hfiles hp apiPageLimit ((isMerge_servedRows hfiles (by omega)).2
      (isMerge_rowsFrom hstart hrows))
  refine ⟨fun start hstart _ => ?_, fun start hstart _ k hk => ?_⟩
  · rw [hpage]
    exact (hserves start hstart).rows_eq [] _ rfl
  · rw [hpage] at hk ⊢
    have hnext : (mixedPage mixedAllowed files now parquetFiles.flatten (some start) (some toTs)
        apiPageLimit none).next = _ := (hserves start hstart).next_eq [] _ rfl
    have hfirst : (mixedPage mixedAllowed files now parquetFiles.flatten (some start) (some toTs)
        apiPageLimit none).rows = _ := (hserves start hstart).rows_eq [] _ rfl
    rw [hk] at hnext
    split at hnext
    · rw [hfirst]
      exact hnext.symm
    · cases hnext

/-! ### The download -/

/-- The client ends, with the merged candles of the range in order and each of them once, if there are
candles in parquet. -/
theorem fetchCandles1m_spec (legacy : ℤ → ℤ → CursorPages.Page OhlcvRow ℤ) (hfiles : UtcFiles files)
    (hnonempty : parquetFiles.flatten ≠ []) (hp : (parquetFiles.flatten.map OhlcvRow.ts).Nodup)
    (hparquet : ∀ r ∈ parquetFiles.flatten, 60 ∣ r.ts) (hstored : ∀ r ∈ storedRows files, 60 ∣ r.ts)
    (mixedAllowed : Bool) (now : ℤ) {fromTs : ℤ} (hpos : 0 < fromTs) (toTs : ℤ) :
    ∃ candles, IsMerge parquetFiles.flatten (servedRows mixedAllowed files toTs) (some fromTs)
        (some toTs) candles ∧
      ∀ pages, candles.length < pages →
        fetchCandles1m legacy mixedAllowed files now parquetFiles pages fromTs toTs =
          some candles := by
  have hne : parquetFiles ≠ [] := fun hnil => hnonempty (by rw [hnil, List.flatten_nil])
  have hserved : ∀ r ∈ servedRows mixedAllowed files toTs, r ∈ storedRows files := by
    intro r hr
    rw [servedRows] at hr
    split at hr
    · exact hr
    · cases hr
  have hnodup : ((servedRows mixedAllowed files toTs).map OhlcvRow.ts).Nodup := by
    rw [servedRows]
    split
    · exact nodup_storedRows hfiles
    · exact List.nodup_nil
  have hrows := isMerge_mergedRows hp hnodup (some fromTs) (some toTs)
  set rows := mergedRows parquetFiles.flatten (servedRows mixedAllowed files toTs) (some fromTs) (some toTs)
  have hmem : ∀ r ∈ rows, 60 ∣ r.ts ∧ inRange (some fromTs) (some toTs) r.ts = true := by
    intro r hr
    rcases (hrows.mem_iff r).1 hr with h | ⟨h, -⟩
    · obtain ⟨h, hin⟩ := List.mem_filter.1 h
      exact ⟨hstored r (hserved r h), hin⟩
    · obtain ⟨h, hin⟩ := List.mem_filter.1 h
      exact ⟨hparquet r h, hin⟩
  simp only [inRange, fromOk, toOk, Bool.and_eq_true, decide_eq_true_eq] at hmem
  have hall : RangePages.rowsFrom OhlcvRow.ts fromTs rows = rows :=
    List.filter_eq_self.2 fun r hr => decide_eq_true (hmem r hr).2.1
  have hspaced : RangePages.Spaced OhlcvRow.ts 60 rows := by
    refine hrows.sorted.imp_of_mem fun {a b} ha hb hlt => ?_
    have h60a := (hmem a ha).1
    have h60b := (hmem b hb).1
    omega
  refine ⟨rows, hrows, fun pages hpages => ?_⟩
  have hserves : RangePages.ServesFrom OhlcvRow.ts
      (fetchCandlesPage legacy mixedAllowed files now parquetFiles toTs) rows apiPageLimit fromTs
      toTs := servesFrom_fetchCandlesPage hfiles hne hp hpos hrows
  have hfetch := RangePages.refetch_eq (n := pages) hserves hspaced (by decide) (by decide)
    (fun r hr => (hmem r hr).2.2) le_rfl (by rwa [hall])
  rwa [hall] at hfetch

/-- A page without candles. -/
def noCandles (_ _ : ℤ) : CursorPages.Page OhlcvRow ℤ := ⟨[], none⟩

/-- A minute of the store, and the next one in parquet, for a range that ends after the year 9999.
-/
theorem late_end_lost :
    UtcFiles firstMinute ∧
      fetchCandles1m noCandles true firstMinute 0 [[flatRow 1705320060 1]] 3 1705320000
        300000000000 = some [flatRow 1705320060 1] ∧
      ¬ IsMerge [flatRow 1705320060 1] (storedRows firstMinute) (some 1705320000)
        (some 300000000000) [flatRow 1705320060 1] := by
  refine ⟨utcFiles_firstMinute, by decide +kernel, fun h => ?_⟩
  have hfirst : flatRow 1705320000 2 ∈ [flatRow 1705320060 1] :=
    (h.mem_iff _).2 (.inl (by decide +kernel))
  exact absurd hfirst (by decide)

theorem fetchCandles1m_spec_firstMinute :
    ∃ candles, IsMerge [threeMinutes].flatten (servedRows true firstMinute 1705320180)
        (some 1705320000) (some 1705320180) candles ∧
      ∀ pages, candles.length < pages →
        fetchCandles1m noCandles true firstMinute 0 [threeMinutes] pages 1705320000 1705320180 =
          some candles :=
  fetchCandles1m_spec noCandles utcFiles_firstMinute (by decide) (by decide) (by decide)
    (by decide +kernel) true 0 (by decide) 1705320180

end LabFetch
