/-
**Candles from two sources, page by page.**

The historic candles come from parquet files, the recent ones from the candle store, and a page
mixes both.  The parquet query is cut to the limit before the candles of the store are merged into
it, so the page is right, but the number of merged rows says that more rows follow only if the
candles of the store say so: where parquet alone has the rows that follow, the last page is
thought to have been reached.

Main definitions:

* `queryOhlcv` — the parquet query; `readRealtimeCandles` — the candles of the store;
* `stitchOhlcvMixed` — the merged page; `mixedPage` — a page of the pagination;
* `IsMerge` — the ascending merge of both sources;
* `Visible` — whether the window that is read from the store has an instant.

Main results:

* `mem_readRealtimeCandles` — what is read from the store;
* `serves_mixedPage` — the pages are those of the merge of what is read;
* `exhaustive_iff` — exactly when the pages make up the merge of both sources;
* `stops_early` — a pagination that ends before its last row.
-/

import Brokerage.CandleSeries
import Brokerage.CursorPages

set_option relaxedAutoImplicit false
set_option autoImplicit false

/-- A row of the answer: `[ts, open, high, low, close, volume]`. -/
structure OhlcvRow where
  ts : ℤ
  open_ : ℚ
  high : ℚ
  low : ℚ
  close : ℚ
  volume : ℚ
  deriving DecidableEq

/-- The sources of the rows. -/
inductive CandleSource
  | dukascopy
  | ostiumLocal
  deriving DecidableEq

namespace MixedOhlcv

/-! ### The two sources -/

def sortByTs (rows : List OhlcvRow) : List OhlcvRow :=
  rows.insertionSort fun a b => a.ts ≤ b.ts

/-- The answer of the parquet query. -/
structure QueryResult where
  candles : List OhlcvRow
  nextTs : Option ℤ
  totalInRange : ℕ
  deriving DecidableEq

/-- Whether a timestamp comes at or after the start of the range, if there is one. -/
def fromOk (fromTs : Option ℤ) (ts : ℤ) : Bool :=
  match fromTs with
  | none => true
  | some t => t ≤ ts

/-- Whether a timestamp comes before the end of the range, if there is one. -/
def toOk (toTs : Option ℤ) (ts : ℤ) : Bool :=
  match toTs with
  | none => true
  | some t => ts < t

/-- The conditions of the query: the cursor stands in the place of the start. -/
def queryWhere (fromTs toTs nextTs : Option ℤ) (ts : ℤ) : Bool :=
  (match nextTs with
    | none => fromOk fromTs ts
    | some k => k < ts) && toOk toTs ts

def queryOhlcv (parquet : List OhlcvRow) (fromTs toTs : Option ℤ) (limit : ℕ)
    (nextTs : Option ℤ) : QueryResult :=
  let selected := parquet.filter fun r => queryWhere fromTs toTs nextTs r.ts
  let candles := (sortByTs selected).take limit
  { candles
    nextTs :=
      if candles.length = limit ∧ limit < selected.length then
        candles.getLast?.map OhlcvRow.ts
      else none
    totalInRange := selected.length }

/-- The store and its readers use datetimes of UTC only; the offset of New York plays no part. -/
def utcOnly : Zones := ⟨fun _ _ => 0⟩

theorem utcOnly_monthsKeep : utcOnly.MonthsKeep := by
  intro a b ha hb hwall
  simp only [Zones.instant, Zones.utcoffset, ha, hb, utcOnly, mul_zero, sub_zero]
  rw [AwareDatetime.month, monthOf_lt_iff, ← hwall]

def candleObjToRow (c : Candle) : OhlcvRow where
  ts := (c.instant utcOnly).tdiv 1000000
  open_ := c.ohlcv.open_
  high := c.ohlcv.high
  low := c.ohlcv.low
  close := c.ohlcv.close
  volume := c.ohlcv.volume

/-- The first of January 2000. -/
def year2000 : AwareDatetime :=
  ⟨.utc, 946684800000000, false, by decide +kernel, by decide +kernel⟩

/-- The start of the window: a start that is absent or zero is the year 2000. -/
def windowStart (fromTs : Option ℤ) : Option AwareDatetime :=
  match fromTs with
  | none => some year2000
  | some t => if t = 0 then some year2000 else utcFromTimestamp (1000000 * t)

/-- The end of the window: an end that is absent or zero is the present. -/
def windowEnd (now : ℤ) (toTs : Option ℤ) : Option AwareDatetime :=
  match toTs with
  | none => utcFromTimestamp now
  | some t => if t = 0 then utcFromTimestamp now else utcFromTimestamp (1000000 * t)

/-- The rows of the store in the window; none if anything raises. -/
def readRealtimeCandles (files : CandleStore.Files) (now : ℤ) (fromTs toTs : Option ℤ) :
    List OhlcvRow :=
  match windowStart fromTs, windowEnd now toTs with
  | some start, some end_ =>
      match CandleStore.readRange utcOnly files start end_ false with
      | some range => range.candles.map candleObjToRow
      | none => []
  | _, _ => []

/-! ### The merged page -/

structure Stitched where
  candles : List OhlcvRow
  nextTs : Option ℤ
  sourcesUsed : List CandleSource
  /-- The source of the page; `none` stands for `mixed`. -/
  source : Option CandleSource
  deriving DecidableEq

/-- The rows by timestamp, those of the store over those of parquet. -/
def mergedRows (parquetCandles rtCandles : List OhlcvRow) (fromTs toTs : Option ℤ) :
    List OhlcvRow :=
  let merged := (Dict.empty.setAll (parquetCandles.map fun r => (r.ts, r))).setAll
    (rtCandles.map fun r => (r.ts, r))
  sortByTs ((merged.values.filter fun r => fromOk fromTs r.ts).filter fun r => toOk toTs r.ts)

/-- A page of parquet alone. -/
def parquetPage (parquetCandles : List OhlcvRow) (limit : ℕ) (sourcesUsed : List CandleSource) :
    Stitched :=
  { candles := parquetCandles
    nextTs :=
      if parquetCandles.length = limit then parquetCandles.getLast?.map OhlcvRow.ts else none
    sourcesUsed
    source := some .dukascopy }

def stitchOhlcvMixed (mixedAllowed : Bool) (files : CandleStore.Files) (now : ℤ)
    (parquetCandles : List OhlcvRow) (fromTs toTs : Option ℤ) (limit : ℕ)
    (nextTsCursor : Option ℤ) : Stitched :=
  if !mixedAllowed then
    parquetPage parquetCandles limit [.dukascopy]
  else
    match readRealtimeCandles files now fromTs toTs with
    | [] => parquetPage parquetCandles limit (if parquetCandles = [] then [] else [.dukascopy])
    | realtime@(_ :: _) =>
        let rtCandles := CursorPages.after OhlcvRow.ts nextTsCursor realtime
        let allRows := mergedRows parquetCandles rtCandles fromTs toTs
        let page := allRows.take limit
        let hasParquet := page.any fun r => parquetCandles.any fun q => q.ts = r.ts
        let hasRt := page.any fun r => rtCandles.any fun q => q.ts = r.ts
        { candles := page
          nextTs :=
            if page.length = limit ∧ limit < allRows.length then
              page.getLast?.map OhlcvRow.ts
            else none
          sourcesUsed :=
            if hasParquet && hasRt then [.dukascopy, .ostiumLocal]
            else if hasRt then [.ostiumLocal] else [.dukascopy]
          source :=
            if hasParquet && hasRt then none
            else if hasRt then some .ostiumLocal else some .dukascopy }

/-- A page of the pagination: the query with the cursor, merged with the same cursor. -/
def mixedPage (mixedAllowed : Bool) (files : CandleStore.Files) (now : ℤ)
    (parquet : List OhlcvRow) (fromTs toTs : Option ℤ) (limit : ℕ) (cursor : Option ℤ) :
    CursorPages.Page OhlcvRow ℤ :=
  let query := queryOhlcv parquet fromTs toTs limit cursor
  let stitched :=
    stitchOhlcvMixed mixedAllowed files now query.candles fromTs toTs limit cursor
  ⟨stitched.candles, stitched.nextTs⟩

/-! ### Sorting and merging -/

theorem sortByTs_perm (rows : List OhlcvRow) : (sortByTs rows).Perm rows :=
  List.perm_insertionSort _ rows

@[simp] theorem mem_sortByTs {r : OhlcvRow} {rows : List OhlcvRow} : r ∈ sortByTs rows ↔ r ∈ rows :=
  (sortByTs_perm rows).mem_iff

theorem sorted_sortByTs {rows : List OhlcvRow} (h : (rows.map OhlcvRow.ts).Nodup) :
    CursorPages.Sorted OhlcvRow.ts (sortByTs rows) := by
  have hsort : (sortByTs rows).map OhlcvRow.ts =
      (rows.map OhlcvRow.ts).insertionSort (· ≤ ·) :=
    List.map_insertionSort _ _ _ rows fun _ _ _ _ => Iff.rfl
  have hle : ((sortByTs rows).map OhlcvRow.ts).Pairwise (· ≤ ·) := by
    rw [hsort]
    exact List.pairwise_insertionSort _ _
  have hnodup : ((sortByTs rows).map OhlcvRow.ts).Nodup := by
    rw [hsort]
    exact (List.perm_insertionSort _ _).nodup_iff.2 h
  exact List.pairwise_map.1 (hle.imp₂ (fun _ _ hle hne => lt_of_le_of_ne hle hne) hnodup)

/-- Whether a timestamp is in the range. -/
def inRange (fromTs toTs : Option ℤ) (ts : ℤ) : Bool := fromOk fromTs ts && toOk toTs ts

/-- The rows of a list that are in the range. -/
def rowsIn (fromTs toTs : Option ℤ) (rows : List OhlcvRow) : List OhlcvRow :=
  rows.filter fun r => inRange fromTs toTs r.ts

theorem nodup_rowsIn {fromTs toTs : Option ℤ} {rows : List OhlcvRow}
    (h : (rows.map OhlcvRow.ts).Nodup) : ((rowsIn fromTs toTs rows).map OhlcvRow.ts).Nodup :=
  h.sublist (List.filter_sublist.map _)

/-- The ascending merge of both sources in the range, the rows of the store winning. -/
def IsMerge (parquet realtime : List OhlcvRow) (fromTs toTs : Option ℤ)
    (rows : List OhlcvRow) : Prop :=
  CursorPages.Merge OhlcvRow.ts (rowsIn fromTs toTs parquet) (rowsIn fromTs toTs realtime) rows

/-- Rows by timestamp: a dictionary of rows has every row under its timestamp. -/
theorem lookup_rows {rows : List OhlcvRow} (h : (rows.map OhlcvRow.ts).Nodup) {k : ℤ}
    {r : OhlcvRow} :
    ((rows.map fun r => (r.ts, r)).reverse).lookup k = some r ↔ r ∈ rows ∧ r.ts = k := by
  have hfst : (rows.map fun r => (r.ts, r)).map Prod.fst = rows.map OhlcvRow.ts := by
    rw [List.map_map]
    rfl
  rw [Dict.lookup_of_perm (List.reverse_perm _) (hfst ▸ h), Dict.lookup_eq_some_iff_mem (hfst ▸ h),
    List.mem_map]
  constructor
  · rintro ⟨r', hr', heq⟩
    obtain ⟨rfl, rfl⟩ := Prod.mk.inj heq
    exact ⟨hr', rfl⟩
  · rintro ⟨hr, rfl⟩
    exact ⟨r, hr, rfl⟩

theorem isMerge_mergedRows {parquet realtime : List OhlcvRow}
    (hp : (parquet.map OhlcvRow.ts).Nodup) (hr : (realtime.map OhlcvRow.ts).Nodup)
    (fromTs toTs : Option ℤ) :
    IsMerge parquet realtime fromTs toTs (mergedRows parquet realtime fromTs toTs) := by
  set merged := (Dict.empty.setAll (parquet.map fun r => (r.ts, r))).setAll
    (realtime.map fun r => (r.ts, r)) with hmerged
  have hget : ∀ k r, merged.get? k = some r ↔ r.ts = k ∧
      (r ∈ realtime ∨ r ∈ parquet ∧ ∀ q ∈ realtime, q.ts ≠ r.ts) := by
    intro k r
    rw [hmerged, Dict.get?_setAll, Dict.get?_setAll, Dict.get?_empty, Option.or_none,
      Option.or_eq_some_iff, lookup_rows hr, lookup_rows hp]
    have hnone : ((realtime.map fun r => (r.ts, r)).reverse).lookup k = none ↔
        ∀ q ∈ realtime, q.ts ≠ k := by
      rw [Option.eq_none_iff_forall_not_mem]
      constructor
      · intro h q hq hqk
        exact h q ((lookup_rows hr).2 ⟨hq, hqk⟩)
      · intro h q hq
        obtain ⟨hq, hqk⟩ := (lookup_rows hr).1 hq
        exact h q hq hqk
    rw [hnone]
    constructor
    · rintro (⟨h, rfl⟩ | ⟨h, hp, rfl⟩)
      · exact ⟨rfl, Or.inl h⟩
      · exact ⟨rfl, Or.inr ⟨hp, h⟩⟩
    · rintro ⟨rfl, h | ⟨hp, h⟩⟩
      · exact Or.inl ⟨h, rfl⟩
      · exact Or.inr ⟨h, hp, rfl⟩
  have hkeys : merged.values.map OhlcvRow.ts = merged.keys := by
    rw [Dict.values, Dict.keys, List.map_map]
    refine List.map_congr_left fun e he => ?_
    exact ((hget e.1 e.2).1 (Dict.get?_eq_some_iff.2 he)).1
  refine ⟨sorted_sortByTs ?_, fun r => ?_⟩
  · refine List.Nodup.sublist ?_ (hkeys ▸ merged.nodup_keys)
    exact (List.filter_sublist.trans List.filter_sublist).map _
  · simp only [mergedRows, mem_sortByTs, List.mem_filter, Dict.mem_values_iff, rowsIn, inRange,
      Bool.and_eq_true]
    rw [← hmerged]
    constructor
    · rintro ⟨⟨⟨k, hk⟩, hfrom⟩, hto⟩
      rcases ((hget k r).1 hk).2 with h | ⟨h, hother⟩
      · exact Or.inl ⟨h, hfrom, hto⟩
      · exact Or.inr ⟨⟨h, hfrom, hto⟩, fun q hq => hother q hq.1⟩
    · rintro (⟨h, hfrom, hto⟩ | ⟨⟨h, hfrom, hto⟩, hother⟩)
      · exact ⟨⟨⟨_, (hget _ r).2 ⟨rfl, Or.inl h⟩⟩, hfrom⟩, hto⟩
      · refine ⟨⟨⟨_, (hget _ r).2 ⟨rfl, Or.inr ⟨h, fun q hq hqr => ?_⟩⟩⟩, hfrom⟩, hto⟩
        exact hother q ⟨hq, by rw [hqr]; exact ⟨hfrom, hto⟩⟩ hqr

/-! ### What is read from the store -/

/-- The rows of the store. -/
def storedRows (files : CandleStore.Files) : List OhlcvRow :=
  files.keys.flatMap fun month => (CandleStore.readCsvFile utcOnly files month).map candleObjToRow

/-- Whether the window that is read from the store has an instant: the window begins in 2000 and
ends in the present where the range is open, and must not reach past the last month of all. -/
def Visible (now : ℤ) (fromTs toTs : Option ℤ) (ts : ℤ) : Prop :=
  ∃ start end_, windowStart fromTs = some start ∧ windowEnd now toTs = some end_ ∧
    end_.wall ≤ monthStart 119999 ∧ start.wall ≤ 1000000 * ts ∧ 1000000 * ts < end_.wall

/-- The files of a store whose candles came in UTC. -/
abbrev UtcFiles (files : CandleStore.Files) : Prop :=
  CandleStore.Inv utcOnly (· = .utc) files

theorem windowStart_zone {fromTs : Option ℤ} {d : AwareDatetime}
    (h : windowStart fromTs = some d) : d.zone = .utc := by
  cases fromTs with
  | none =>
      obtain rfl := Option.some.inj h
      rfl
  | some t =>
      rw [windowStart] at h
      split at h
      · obtain rfl := Option.some.inj h
        rfl
      · exact (utcFromTimestamp_eq_some h).1

theorem windowEnd_zone {now : ℤ} {toTs : Option ℤ} {d : AwareDatetime}
    (h : windowEnd now toTs = some d) : d.zone = .utc := by
  cases toTs with
  | none => exact (utcFromTimestamp_eq_some h).1
  | some t =>
      rw [windowEnd] at h
      split at h
      · exact (utcFromTimestamp_eq_some h).1
      · exact (utcFromTimestamp_eq_some h).1

theorem lastMonth_lt {start end_ : AwareDatetime} (hzone : start.zone = end_.zone) :
    utcOnly.lt (CandleStore.lastMonth start) end_ = decide (monthStart 119999 < end_.wall) := by
  rw [Zones.lt, if_pos (show (CandleStore.lastMonth start).zone = end_.zone from hzone)]
  rfl

/-- A candle of the store as a row, and back. -/
theorem candleObjToRow_ts {files : CandleStore.Files} (hfiles : UtcFiles files) {month : ℤ}
    {c : Candle} (hc : c ∈ CandleStore.readCsvFile utcOnly files month) :
    1000000 * (candleObjToRow c).ts = c.instant utcOnly :=
  Int.mul_tdiv_cancel' ((hfiles month).held c hc).whole

theorem candleObjToRow_inj {c d : Candle} (hcd : c.instant utcOnly = d.instant utcOnly)
    (hv : c.ohlcv = d.ohlcv) : candleObjToRow c = candleObjToRow d := by
  rw [candleObjToRow, candleObjToRow, hcd, hv]

theorem mem_storedRows {files : CandleStore.Files} {r : OhlcvRow} :
    r ∈ storedRows files ↔
      ∃ month, ∃ c ∈ CandleStore.readCsvFile utcOnly files month, candleObjToRow c = r := by
  simp only [storedRows, List.mem_flatMap, List.mem_map]
  constructor
  · rintro ⟨month, -, c, hc, hr⟩
    exact ⟨month, c, hc, hr⟩
  · rintro ⟨month, c, hc, hr⟩
    refine ⟨month, ?_, c, hc, hr⟩
    -- a month without a file has no candle
    by_contra hmonth
    rw [CandleStore.readCsvFile, Dict.get?_eq_none_iff.2 hmonth] at hc
    cases hc

/-- The rows of candles that are those of the files from one instant to another. -/
theorem rows_of_candles {files : CandleStore.Files} (hfiles : UtcFiles files) {cs : List Candle}
    {lo hi : ℤ} (hsorted : (cs.map (Candle.instant utcOnly)).Pairwise (· < ·))
    (hmem : ∀ t v, (t, v) ∈ cs.map (Candle.entry utcOnly) ↔
      lo ≤ t ∧ t < hi ∧ CandleStore.seriesOf utcOnly files t = some v) :
    CursorPages.Sorted OhlcvRow.ts (cs.map candleObjToRow) ∧
      ∀ r, r ∈ cs.map candleObjToRow ↔
        r ∈ storedRows files ∧ lo ≤ 1000000 * r.ts ∧ 1000000 * r.ts < hi := by
  -- every one of the candles stands in a file
  have hfile : ∀ c ∈ cs, ∃ month,
      ∃ d ∈ CandleStore.readCsvFile utcOnly files month, d.entry utcOnly = c.entry utcOnly := by
    intro c hc
    have hc' := ((hmem _ _).1 (List.mem_map_of_mem hc)).2.2
    exact (CandleStore.seriesOf_eq_some_iff hfiles rfl).1 hc'
  have hts : ∀ c ∈ cs, 1000000 * (candleObjToRow c).ts = c.instant utcOnly := by
    intro c hc
    obtain ⟨month, d, hd, hdc⟩ := hfile c hc
    have hinst : d.instant utcOnly = c.instant utcOnly := congrArg Prod.fst hdc
    rw [← hinst, ← candleObjToRow_ts hfiles hd, candleObjToRow, candleObjToRow, hinst]
  refine ⟨?_, fun r => ?_⟩
  · refine List.pairwise_map.2 ((List.pairwise_map.1 hsorted).imp_of_mem ?_)
    intro c d hc hd hcd
    have := hts c hc
    have := hts d hd
    omega
  · rw [List.mem_map, mem_storedRows]
    constructor
    · rintro ⟨c, hc, rfl⟩
      obtain ⟨month, d, hd, hdc⟩ := hfile c hc
      obtain ⟨hge, hlt, -⟩ := (hmem _ _).1 (List.mem_map_of_mem hc)
      rw [hts c hc]
      exact ⟨⟨month, d, hd, candleObjToRow_inj (congrArg Prod.fst hdc) (congrArg Prod.snd hdc)⟩,
        hge, hlt⟩
    · rintro ⟨⟨month, d, hd, rfl⟩, hge, hlt⟩
      rw [candleObjToRow_ts hfiles hd] at hge hlt
      have hd' := (CandleStore.seriesOf_eq_some_iff hfiles rfl).2 ⟨month, d, hd, rfl⟩
      obtain ⟨c, hc, hcd⟩ := List.mem_map.1 ((hmem _ _).2 ⟨hge, hlt, hd'⟩)
      exact ⟨c, hc, candleObjToRow_inj (congrArg Prod.fst hcd) (congrArg Prod.snd hcd)⟩

/-- What is read from the store: its rows in the window, in order. -/
theorem readRealtimeCandles_spec {files : CandleStore.Files} (hfiles : UtcFiles files)
    (now : ℤ) (fromTs toTs : Option ℤ) :
    CursorPages.Sorted OhlcvRow.ts (readRealtimeCandles files now fromTs toTs) ∧
      ∀ r, r ∈ readRealtimeCandles files now fromTs toTs ↔
        r ∈ storedRows files ∧ Visible now fromTs toTs r.ts := by
  rw [readRealtimeCandles]
  cases hstart : windowStart fromTs with
  | none =>
      refine ⟨List.Pairwise.nil, fun r => iff_of_false List.not_mem_nil ?_⟩
      rintro ⟨-, start, end_, hs, -⟩
      cases hstart.symm.trans hs
  | some start =>
      cases hend : windowEnd now toTs with
      | none =>
          refine ⟨List.Pairwise.nil, fun r => iff_of_false List.not_mem_nil ?_⟩
          rintro ⟨-, start, end_, -, he, -⟩
          cases hend.symm.trans he
      | some end_ =>
          have hstartz := windowStart_zone hstart
          have hendz := windowEnd_zone hend
          have hvisible : ∀ ts, Visible now fromTs toTs ts ↔
              end_.wall ≤ monthStart 119999 ∧ start.wall ≤ 1000000 * ts ∧
                1000000 * ts < end_.wall := by
            intro ts
            constructor
            · rintro ⟨start', end', hs, he, h⟩
              obtain rfl := Option.some.inj (hstart.symm.trans hs)
              obtain rfl := Option.some.inj (hend.symm.trans he)
              exact h
            · exact fun h => ⟨start, end_, hstart, hend, h⟩
          dsimp only
          by_cases hlast : end_.wall ≤ monthStart 119999
          · have hlt : utcOnly.lt (CandleStore.lastMonth start) end_ = false := by
              rw [lastMonth_lt (hstartz.trans hendz.symm), decide_eq_false_iff_not]
              exact not_lt.2 hlast
            obtain ⟨range, hrange, hsorted, hmem⟩ :=
              CandleStore.readRange_spec utcOnly_monthsKeep hfiles rfl hstartz hlt false
            rw [Zones.instant_utc hstartz, Zones.instant_utc hendz] at hmem
            rw [hrange]
            obtain ⟨hrows, hmemRows⟩ := rows_of_candles hfiles hsorted hmem
            refine ⟨hrows, fun r => (hmemRows r).trans (and_congr_right fun _ => ?_)⟩
            rw [hvisible]
            exact (and_iff_right hlast).symm
          · have hnone : CandleStore.readRange utcOnly files start end_ false = none := by
              rw [CandleStore.readRange, CandleStore.readMonths_eq_none (hstartz.trans hendz.symm)
                (not_le.1 hlast) _ (show start.startOfMonth.zone = start.zone from rfl)
                start.startOfMonth_wall]
              rfl
            rw [hnone]
            refine ⟨List.Pairwise.nil, fun r => iff_of_false List.not_mem_nil ?_⟩
            rintro ⟨-, hv⟩
            exact hlast ((hvisible _).1 hv).1

theorem nodup_storedRows {files : CandleStore.Files} (hfiles : UtcFiles files) :
    ((storedRows files).map OhlcvRow.ts).Nodup := by
  have hkey : ∀ {month c}, c ∈ CandleStore.readCsvFile utcOnly files month →
      monthOf (1000000 * (candleObjToRow c).ts) = month := by
    intro month c hc
    rw [candleObjToRow_ts hfiles hc]
    exact ((hfiles month).held c hc).monthAt_eq (.utc rfl)
  rw [storedRows, List.map_flatMap]
  refine List.nodup_flatMap.2 ⟨fun month _ => ?_, files.nodup_keys.imp ?_⟩
  · rw [List.map_map]
    refine List.Nodup.map_on ?_ (hfiles month).nodup.of_map
    intro c hc d hd hcd
    have hinst : c.instant utcOnly = d.instant utcOnly := by
      rw [← candleObjToRow_ts hfiles hc, ← candleObjToRow_ts hfiles hd]
      exact congrArg (1000000 * ·) hcd
    exact List.inj_on_of_nodup_map (hfiles month).nodup hc hd hinst
  · intro month month' hne ts hts hts'
    obtain ⟨r, hr, rfl⟩ := List.mem_map.1 hts
    obtain ⟨r', hr', heq⟩ := List.mem_map.1 hts'
    obtain ⟨c, hc, rfl⟩ := List.mem_map.1 hr
    obtain ⟨d, hd, rfl⟩ := List.mem_map.1 hr'
    exact hne (by rw [← hkey hc, ← hkey hd, heq])

/-! ### The pages -/

section Pages

variable (mixedAllowed : Bool) (files : CandleStore.Files) (now : ℤ) (fromTs toTs : Option ℤ)

/-- What is read from the store for every page. -/
def realtimeRead : List OhlcvRow :=
  if mixedAllowed then readRealtimeCandles files now fromTs toTs else []

/-- Whether a row of the store with the timestamp is read. -/
def IsRead (ts : ℤ) : Prop := mixedAllowed = true ∧ Visible now fromTs toTs ts

/-- The rows of parquet in the range, in order. -/
def parquetRows (parquet : List OhlcvRow) : List OhlcvRow := sortByTs (rowsIn fromTs toTs parquet)

/-- Whether a page says that more rows follow, if it is full. -/
def saysMore (parquet : List OhlcvRow) (limit : ℕ) (cursor : Option ℤ) : Bool :=
  (realtimeRead mixedAllowed files now fromTs toTs).isEmpty ||
    limit < (mergedRows (queryOhlcv parquet fromTs toTs limit cursor).candles
      (CursorPages.after OhlcvRow.ts cursor (realtimeRead mixedAllowed files now fromTs toTs))
      fromTs toTs).length

variable {mixedAllowed files now fromTs toTs}

theorem sorted_realtimeRead (hfiles : UtcFiles files) :
    CursorPages.Sorted OhlcvRow.ts (realtimeRead mixedAllowed files now fromTs toTs) := by
  rw [realtimeRead]
  split
  · exact (readRealtimeCandles_spec hfiles now fromTs toTs).1
  · exact List.Pairwise.nil

theorem mem_realtimeRead (hfiles : UtcFiles files) {r : OhlcvRow} :
    r ∈ realtimeRead mixedAllowed files now fromTs toTs ↔
      r ∈ storedRows files ∧ IsRead mixedAllowed now fromTs toTs r.ts := by
  rw [realtimeRead, IsRead]
  split
  · rename_i hallowed
    rw [(readRealtimeCandles_spec hfiles now fromTs toTs).2 r]
    simp [hallowed]
  · rename_i hallowed
    simp [hallowed]

theorem isMerge_iff {parquet realtime rows : List OhlcvRow} :
    IsMerge parquet realtime fromTs toTs rows ↔ CursorPages.Merge OhlcvRow.ts
      (parquetRows fromTs toTs parquet) (rowsIn fromTs toTs realtime) rows := by
  constructor
  · intro h
    exact ⟨h.sorted, fun x => by rw [h.mem_iff, parquetRows, mem_sortByTs]⟩
  · intro h
    exact ⟨h.sorted, fun x => by rw [h.mem_iff, parquetRows, mem_sortByTs]⟩

theorem sorted_parquetRows {parquet : List OhlcvRow} (hp : (parquet.map OhlcvRow.ts).Nodup) :
    CursorPages.Sorted OhlcvRow.ts (parquetRows fromTs toTs parquet) :=
  sorted_sortByTs (nodup_rowsIn hp)

/-- At the start, and at the cursors of rows in the range, the query gives the first rows of
parquet in the range after the cursor. -/
theorem queryOhlcv_candles {parquet : List OhlcvRow} (hp : (parquet.map OhlcvRow.ts).Nodup)
    (limit : ℕ) {cursor : Option ℤ} (hcursor : ∀ k, cursor = some k → fromOk fromTs k = true) :
    (queryOhlcv parquet fromTs toTs limit cursor).candles =
      (CursorPages.after OhlcvRow.ts cursor (parquetRows fromTs toTs parquet)).take limit := by
  rw [queryOhlcv]
  dsimp only
  congr 1
  refine CursorPages.Sorted.eq_of_mem_iff
    (sorted_sortByTs (hp.sublist (List.filter_sublist.map _)))
    ((sorted_parquetRows hp).after cursor) fun r => ?_
  rw [mem_sortByTs, List.mem_filter, CursorPages.after, List.mem_filter, parquetRows, mem_sortByTs,
    rowsIn, List.mem_filter, and_assoc]
  refine and_congr_right fun _ => ?_
  cases cursor with
  | none => simp [queryWhere, inRange]
  | some k =>
      have hk := hcursor k rfl
      have hfrom : k < r.ts → fromOk fromTs r.ts = true := by
        intro hlt
        cases fromTs with
        | none => rfl
        | some t =>
            simp only [fromOk, decide_eq_true_eq] at hk ⊢
            omega
      simp only [queryWhere, inRange, Bool.and_eq_true, decide_eq_true_eq]
      constructor
      · rintro ⟨hlt, hto⟩
        exact ⟨⟨hfrom hlt, hto⟩, hlt⟩
      · rintro ⟨⟨-, hto⟩, hlt⟩
        exact ⟨hlt, hto⟩

theorem rowsIn_after (cursor : Option ℤ) (rows : List OhlcvRow) :
    rowsIn fromTs toTs (CursorPages.after OhlcvRow.ts cursor rows) =
      CursorPages.after OhlcvRow.ts cursor (rowsIn fromTs toTs rows) := by
  rw [rowsIn, CursorPages.after, CursorPages.after, rowsIn, List.filter_filter, List.filter_filter]
  exact List.filter_congr fun r _ => Bool.and_comm _ _

theorem rowsIn_parquetRows {parquet l : List OhlcvRow}
    (h : ∀ r ∈ l, r ∈ parquetRows fromTs toTs parquet) : rowsIn fromTs toTs l = l := by
  refine List.filter_eq_self.2 fun r hr => ?_
  have hr := h r hr
  rw [parquetRows, mem_sortByTs] at hr
  exact (List.mem_filter.1 hr).2

/-- The rows that a page merges: those of parquet up to the limit, those of the store all. -/
theorem merge_page (hfiles : UtcFiles files) {parquet : List OhlcvRow}
    (hp : (parquet.map OhlcvRow.ts).Nodup) (limit : ℕ) {cursor : Option ℤ}
    (hcursor : ∀ k, cursor = some k → fromOk fromTs k = true) :
    CursorPages.Merge OhlcvRow.ts
      ((CursorPages.after OhlcvRow.ts cursor (parquetRows fromTs toTs parquet)).take limit)
      (CursorPages.after OhlcvRow.ts cursor
        (rowsIn fromTs toTs (realtimeRead mixedAllowed files now fromTs toTs)))
      (mergedRows (queryOhlcv parquet fromTs toTs limit cursor).candles
        (CursorPages.after OhlcvRow.ts cursor (realtimeRead mixedAllowed files now fromTs toTs))
        fromTs toTs) := by
  have hparquet : CursorPages.Sorted OhlcvRow.ts (parquetRows fromTs toTs parquet) :=
    sorted_parquetRows hp
  have hcut : CursorPages.Sorted OhlcvRow.ts ((CursorPages.after OhlcvRow.ts cursor
      (parquetRows fromTs toTs parquet)).take limit) :=
    (hparquet.after cursor).sublist (List.take_sublist _ _)
  have hread : CursorPages.Sorted OhlcvRow.ts (CursorPages.after OhlcvRow.ts cursor
      (realtimeRead mixedAllowed files now fromTs toTs)) := (sorted_realtimeRead hfiles).after cursor
  have hall : ∀ r ∈ (CursorPages.after OhlcvRow.ts cursor
      (parquetRows fromTs toTs parquet)).take limit, r ∈ parquetRows fromTs toTs parquet :=
    fun r hr => List.mem_of_mem_filter (List.mem_of_mem_take hr)
  have hmerge := isMerge_mergedRows hcut.nodup_keys hread.nodup_keys fromTs toTs
  rw [IsMerge, rowsIn_after, rowsIn_parquetRows hall] at hmerge
  rw [queryOhlcv_candles hp limit hcursor]
  exact hmerge

/-- Without rows of the store a page is that of the query, and every full page has a successor. -/
theorem mixedPage_of_nil (hnil : realtimeRead mixedAllowed files now fromTs toTs = [])
    (parquet : List OhlcvRow) (limit : ℕ) (cursor : Option ℤ) :
    mixedPage mixedAllowed files now parquet fromTs toTs limit cursor =
      ⟨(queryOhlcv parquet fromTs toTs limit cursor).candles,
        if (queryOhlcv parquet fromTs toTs limit cursor).candles.length = limit then
          CursorPages.lastKey OhlcvRow.ts (queryOhlcv parquet fromTs toTs limit cursor).candles
        else none⟩ := by
  rw [realtimeRead] at hnil
  rw [mixedPage, stitchOhlcvMixed]
  cases mixedAllowed with
  | false => rfl
  | true =>
      rw [if_pos rfl] at hnil
      rw [hnil]
      rfl

theorem mixedPage_of_ne_nil (hne : realtimeRead mixedAllowed files now fromTs toTs ≠ [])
    (parquet : List OhlcvRow) (limit : ℕ) (cursor : Option ℤ) :
    let merged := mergedRows (queryOhlcv parquet fromTs toTs limit cursor).candles
      (CursorPages.after OhlcvRow.ts cursor (realtimeRead mixedAllowed files now fromTs toTs))
      fromTs toTs
    mixedPage mixedAllowed files now parquet fromTs toTs limit cursor =
      ⟨merged.take limit,
        if (merged.take limit).length = limit ∧ limit < merged.length then
          CursorPages.lastKey OhlcvRow.ts (merged.take limit)
        else none⟩ := by
  rw [realtimeRead] at hne
  rw [mixedPage, stitchOhlcvMixed]
  cases mixedAllowed with
  | false => exact absurd rfl hne
  | true =>
      rw [if_pos rfl] at hne
      obtain ⟨r, rs, hrs⟩ := List.exists_cons_of_ne_nil hne
      rw [realtimeRead, if_pos rfl, hrs]
      rfl

/-- The pages are those of the merge of parquet and what is read from the store. -/
theorem serves_mixedPage (hfiles : UtcFiles files) {parquet rows : List OhlcvRow}
    (hp : (parquet.map OhlcvRow.ts).Nodup) (limit : ℕ)
    (hrows : IsMerge parquet (realtimeRead mixedAllowed files now fromTs toTs) fromTs toTs rows) :
    CursorPages.Serves OhlcvRow.ts (mixedPage mixedAllowed files now parquet fromTs toTs limit)
      rows limit (saysMore mixedAllowed files now fromTs toTs parquet limit) := by
  have hmerge := isMerge_iff.1 hrows
  have key : ∀ pre rest, rows = pre ++ rest →
      let cursor := CursorPages.lastKey OhlcvRow.ts pre
      let page := mixedPage mixedAllowed files now parquet fromTs toTs limit cursor
      page.rows = rest.take limit ∧
        page.next = if (rest.take limit).length = limit ∧
            saysMore mixedAllowed files now fromTs toTs parquet limit cursor then
          CursorPages.lastKey OhlcvRow.ts (rest.take limit) else none := by
    intro pre rest hsplit
    dsimp only
    set cursor := CursorPages.lastKey OhlcvRow.ts pre with hcursor_def
    have hrest : CursorPages.after OhlcvRow.ts cursor rows = rest := by
      rw [hsplit]
      exact CursorPages.after_lastKey (hsplit ▸ hmerge.sorted)
    have hcursor : ∀ k, cursor = some k → fromOk fromTs k = true := by
      intro k hk
      obtain ⟨r, hr, rfl⟩ := Option.map_eq_some_iff.1 hk
      have hmem : r ∈ rows := hsplit ▸ List.mem_append_left rest (List.mem_of_getLast? hr)
      have hin : inRange fromTs toTs r.ts = true := by
        rcases (hrows.mem_iff r).1 hmem with h | ⟨h, -⟩
        · exact (List.mem_filter.1 h).2
        · exact (List.mem_filter.1 h).2
      rw [inRange, Bool.and_eq_true] at hin
      exact hin.1
    have hafter := hmerge.after cursor
    rw [hrest] at hafter
    have hquery : (queryOhlcv parquet fromTs toTs limit cursor).candles = _ :=
      queryOhlcv_candles hp limit hcursor
    have hcut : CursorPages.Merge OhlcvRow.ts _ _ (mergedRows
        (queryOhlcv parquet fromTs toTs limit cursor).candles (CursorPages.after OhlcvRow.ts cursor
          (realtimeRead mixedAllowed files now fromTs toTs)) fromTs toTs) :=
      merge_page hfiles hp limit hcursor
    have htake := hafter.take_eq ((sorted_parquetRows hp).after cursor) hcut
    by_cases hnil : realtimeRead mixedAllowed files now fromTs toTs = []
    · -- the merge is parquet alone
      have hrows_eq : CursorPages.after OhlcvRow.ts cursor (parquetRows fromTs toTs parquet) =
          rest := by
        refine ((sorted_parquetRows hp).after cursor).eq_of_mem_iff hafter.sorted fun r => ?_
        rw [hafter.mem_iff, hnil]
        simp [rowsIn, CursorPages.after]
      rw [hrows_eq] at hquery
      rw [mixedPage_of_nil hnil, hquery, saysMore, hnil]
      simp
    · rw [mixedPage_of_ne_nil hnil, htake, saysMore, List.isEmpty_eq_false_iff.2 hnil]
      simp
  exact ⟨fun pre rest h => (key pre rest h).1, fun pre rest h => (key pre rest h).2⟩

/-! ### When the pages are exhaustive -/

variable (mixedAllowed files now fromTs toTs) in
/-- Every row of the store in the range is read, or is in parquet as well. -/
def Covers (parquet : List OhlcvRow) : Prop :=
  ∀ r ∈ storedRows files, inRange fromTs toTs r.ts = true →
    IsRead mixedAllowed now fromTs toTs r.ts ∨ r ∈ parquet

variable (mixedAllowed files now fromTs toTs) in
/-- Nothing is read from the store, or after every full page of the merge that is not its last
rows, counted from the first row, the page has a timestamp that parquet lacks, or a row that is
read from the store follows. -/
def Continues (parquet : List OhlcvRow) (limit : ℕ) : Prop :=
  (∀ r ∈ storedRows files, ¬ IsRead mixedAllowed now fromTs toTs r.ts) ∨
    ∀ mid block post, mergedRows parquet (storedRows files) fromTs toTs = mid ++ (block ++ post) →
      limit ∣ mid.length → block.length = limit → post ≠ [] →
        (∃ x ∈ block, ∀ q ∈ parquet, q.ts ≠ x.ts) ∨
          ∃ x ∈ post, x ∈ storedRows files ∧ IsRead mixedAllowed now fromTs toTs x.ts

/-- Where what is read covers the range, the merge with it is the merge with the whole store. -/
theorem merge_of_covers (hfiles : UtcFiles files) {parquet rows : List OhlcvRow}
    (hp : (parquet.map OhlcvRow.ts).Nodup)
    (hrows : IsMerge parquet (realtimeRead mixedAllowed files now fromTs toTs) fromTs toTs rows)
    (hcovers : Covers mixedAllowed files now fromTs toTs parquet) :
    IsMerge parquet (storedRows files) fromTs toTs rows := by
  have hmem : ∀ r, r ∈ rowsIn fromTs toTs (realtimeRead mixedAllowed files now fromTs toTs) ↔
      r ∈ rowsIn fromTs toTs (storedRows files) ∧ IsRead mixedAllowed now fromTs toTs r.ts := by
    intro r
    rw [rowsIn, rowsIn, List.mem_filter, List.mem_filter, mem_realtimeRead hfiles]
    tauto
  refine ⟨hrows.sorted, fun x => ?_⟩
  rw [hrows.mem_iff, hmem]
  constructor
  · rintro (⟨hx, -⟩ | ⟨hx, hother⟩)
    · exact Or.inl hx
    · by_cases hs : ∃ s ∈ rowsIn fromTs toTs (storedRows files), s.ts = x.ts
      · -- a row of the store that is not read is the one of parquet
        obtain ⟨s, hs, hsx⟩ := hs
        obtain ⟨hsf, hin⟩ := List.mem_filter.1 hs
        rcases hcovers s hsf hin with hread | hsp
        · exact absurd hsx (hother s ((hmem s).2 ⟨hs, hread⟩))
        · obtain rfl := List.inj_on_of_nodup_map hp hsp (List.mem_of_mem_filter hx) hsx
          exact Or.inl hs
      · exact Or.inr ⟨hx, fun s hsm hsx => hs ⟨s, hsm, hsx⟩⟩
  · rintro (hx | ⟨hx, hother⟩)
    · obtain ⟨hxf, hin⟩ := List.mem_filter.1 hx
      rcases hcovers x hxf hin with hread | hxp
      · exact Or.inl ⟨hx, hread⟩
      · by_cases hread : IsRead mixedAllowed now fromTs toTs x.ts
        · exact Or.inl ⟨hx, hread⟩
        · refine Or.inr ⟨List.mem_filter.2 ⟨hxp, hin⟩, fun y hy hyx => hread ?_⟩
          exact hyx ▸ ((hmem y).1 hy).2
    · exact Or.inr ⟨hx, fun y hy => hother y ((hmem y).1 hy).1⟩

/-- A merge with the whole store whose rows are all of the merge with what is read: the read rows
cover the range. -/
theorem covers_of_merge (hfiles : UtcFiles files) {parquet rows rows' : List OhlcvRow}
    (hrows : IsMerge parquet (realtimeRead mixedAllowed files now fromTs toTs) fromTs toTs rows)
    (hrows' : IsMerge parquet (storedRows files) fromTs toTs rows') (hsub : rows' ⊆ rows) :
    Covers mixedAllowed files now fromTs toTs parquet := by
  intro r hr hin
  have hr' : r ∈ rows' := (hrows'.mem_iff r).2 (Or.inl (List.mem_filter.2 ⟨hr, hin⟩))
  rcases (hrows.mem_iff r).1 (hsub hr') with h | ⟨h, -⟩
  · exact Or.inl ((mem_realtimeRead hfiles).1 (List.mem_of_mem_filter h)).2
  · exact Or.inr (List.mem_of_mem_filter h)

/-- A page says that more rows follow, after a full page that is not the last rows, just if nothing
is read from the store, the page has a timestamp that parquet lacks, or a row of the store
follows. -/
theorem saysMore_iff (hfiles : UtcFiles files) {parquet rows : List OhlcvRow}
    (hp : (parquet.map OhlcvRow.ts).Nodup) {limit : ℕ}
    (hrows : IsMerge parquet (realtimeRead mixedAllowed files now fromTs toTs) fromTs toTs rows)
    {mid block post : List OhlcvRow} (hsplit : rows = mid ++ (block ++ post))
    (hblock : block.length = limit) (hpost : post ≠ []) :
    saysMore mixedAllowed files now fromTs toTs parquet limit
        (CursorPages.lastKey OhlcvRow.ts mid) = true ↔
      realtimeRead mixedAllowed files now fromTs toTs = [] ∨
        (∃ x ∈ block, ∀ q ∈ parquet, q.ts ≠ x.ts) ∨
          ∃ x ∈ post, x ∈ realtimeRead mixedAllowed files now fromTs toTs := by
  have hmerge := isMerge_iff.1 hrows
  have hin : ∀ r ∈ rows, inRange fromTs toTs r.ts = true := by
    intro r hr
    rcases (hrows.mem_iff r).1 hr with h | ⟨h, -⟩
    · exact (List.mem_filter.1 h).2
    · exact (List.mem_filter.1 h).2
  set cursor := CursorPages.lastKey OhlcvRow.ts mid with hcursor_def
  have hrest : CursorPages.after OhlcvRow.ts cursor rows = block ++ post := by
    rw [hsplit]
    exact CursorPages.after_lastKey (hsplit ▸ hmerge.sorted)
  have hcursor : ∀ k, cursor = some k → fromOk fromTs k = true := by
    intro k hk
    obtain ⟨r, hr, rfl⟩ := Option.map_eq_some_iff.1 hk
    have hr' := hin r (hsplit ▸ List.mem_append_left _ (List.mem_of_getLast? hr))
    rw [inRange, Bool.and_eq_true] at hr'
    exact hr'.1
  have hcut : CursorPages.Merge OhlcvRow.ts _ _ (mergedRows
      (queryOhlcv parquet fromTs toTs limit cursor).candles (CursorPages.after OhlcvRow.ts cursor
        (realtimeRead mixedAllowed files now fromTs toTs)) fromTs toTs) :=
    merge_page hfiles hp limit hcursor
  have hlength := (hmerge.after cursor).length_iff ((sorted_parquetRows hp).after cursor) hcut
    hrest hblock hpost
  have hafter : ∀ x ∈ block ++ post, x ∈ rows ∧ x ∈ CursorPages.after OhlcvRow.ts cursor rows :=
    fun x hx => ⟨hsplit ▸ List.mem_append_right _ hx, hrest ▸ hx⟩
  rw [saysMore, Bool.or_eq_true, List.isEmpty_iff, decide_eq_true_eq, hlength]
  refine or_congr_right (or_congr ?_ ?_)
  · refine exists_congr fun x => and_congr_right fun hx => ?_
    obtain ⟨hxr, hxa⟩ := hafter x (List.mem_append_left _ hx)
    constructor
    · intro h q hq hqx
      refine h q (List.mem_filter.2 ⟨?_, ?_⟩) hqx
      · rw [parquetRows, mem_sortByTs]
        exact List.mem_filter.2 ⟨hq, by rw [hqx]; exact hin x hxr⟩
      · have hxa' := (List.mem_filter.1 hxa).2
        rw [hqx]
        exact hxa'
    · intro h q hq
      have hq' := List.mem_of_mem_filter hq
      rw [parquetRows, mem_sortByTs] at hq'
      exact h q (List.mem_of_mem_filter hq')
  · refine exists_congr fun x => and_congr_right fun hx => ?_
    obtain ⟨hxr, hxa⟩ := hafter x (List.mem_append_right _ hx)
    constructor
    · exact fun h => List.mem_of_mem_filter (List.mem_of_mem_filter h)
    · exact fun h => List.mem_filter.2
        ⟨List.mem_filter.2 ⟨h, hin x hxr⟩, (List.mem_filter.1 hxa).2⟩

/-- Following the cursors from the start ends, with pages of at most `limit` rows.  They make up the
ascending merge of parquet and the store in the range exactly when what is read from the store
covers the range, and no page but the last takes itself for the last. -/
theorem exhaustive_iff (hfiles : UtcFiles files) {parquet : List OhlcvRow}
    (hp : (parquet.map OhlcvRow.ts).Nodup) (mixedAllowed : Bool) (now : ℤ)
    (fromTs toTs : Option ℤ) {limit : ℕ} (hlimit : 1 ≤ limit) :
    ∃ pages, (∃ n, CursorPages.follow (mixedPage mixedAllowed files now parquet fromTs toTs limit) n
        none = some pages) ∧ (∀ p ∈ pages, p.length ≤ limit) ∧
      (IsMerge parquet (storedRows files) fromTs toTs pages.flatten ↔
        Covers mixedAllowed files now fromTs toTs parquet ∧
          Continues mixedAllowed files now fromTs toTs parquet limit) := by
  have hread : CursorPages.Sorted OhlcvRow.ts (realtimeRead mixedAllowed files now fromTs toTs) :=
    sorted_realtimeRead hfiles
  have hrows := isMerge_mergedRows hp hread.nodup_keys fromTs toTs
  have hstored := isMerge_mergedRows hp (nodup_storedRows hfiles) fromTs toTs
  set rows := mergedRows parquet (realtimeRead mixedAllowed files now fromTs toTs) fromTs toTs
  obtain ⟨pages, hpages, hle, hprefix, hall⟩ := CursorPages.follow_serves
    (serves_mixedPage hfiles hp limit hrows) hlimit (rows.length + 1) (List.nil_append rows).symm
    (Nat.lt_succ_self _)
  -- the pages are all of the merge of what is read just if they go on
  have hcontinues : rows = mergedRows parquet (storedRows files) fromTs toTs →
      (pages.flatten = rows ↔ Continues mixedAllowed files now fromTs toTs parquet limit) := by
    intro hsame
    have hnil : realtimeRead mixedAllowed files now fromTs toTs = [] ↔
        ∀ r ∈ storedRows files, ¬ IsRead mixedAllowed now fromTs toTs r.ts := by
      rw [List.eq_nil_iff_forall_not_mem]
      simp only [mem_realtimeRead hfiles, not_and]
    rw [hall, Continues, ← hnil, ← hsame]
    constructor
    · intro h
      by_cases hempty : realtimeRead mixedAllowed files now fromTs toTs = []
      · exact Or.inl hempty
      · refine Or.inr fun mid block post hsplit hdvd hblock hpost => ?_
        have hmore := h mid block post hsplit hdvd hblock hpost
        rw [List.nil_append, saysMore_iff hfiles hp hrows hsplit hblock hpost] at hmore
        simp only [← mem_realtimeRead hfiles]
        exact hmore.resolve_left hempty
    · intro h mid block post hsplit hdvd hblock hpost
      rw [List.nil_append, saysMore_iff hfiles hp hrows hsplit hblock hpost]
      rcases h with hempty | h
      · exact Or.inl hempty
      · have hnext := h mid block post hsplit hdvd hblock hpost
        simp only [← mem_realtimeRead hfiles] at hnext
        exact Or.inr hnext
  refine ⟨pages, ⟨_, hpages⟩, hle, ?_⟩
  constructor
  · intro hmerge
    have hcovers := covers_of_merge hfiles hrows hmerge hprefix.subset
    have hwhole := merge_of_covers hfiles hp hrows hcovers
    exact ⟨hcovers, (hcontinues (hwhole.unique hstored)).1 (hmerge.unique hwhole)⟩
  · rintro ⟨hcovers, hcont⟩
    have hwhole := merge_of_covers hfiles hp hrows hcovers
    rw [(hcontinues (hwhole.unique hstored)).2 hcont]
    exact hwhole

/-! ### Three minutes -/

/-- A row of one price. -/
def flatRow (ts : ℤ) (price : ℚ) : OhlcvRow := ⟨ts, price, price, price, price, 0⟩

/-- Three minutes in parquet. -/
def threeMinutes : List OhlcvRow :=
  [flatRow 1705320000 1, flatRow 1705320060 1, flatRow 1705320120 1]

/-- A store with the first of the three minutes. -/
def firstMinute : CandleStore.Files :=
  (CandleStore.patch utcOnly Dict.empty [CandleStore.flat CandleStore.utcNoon 2]).1

theorem utcFiles_firstMinute : UtcFiles firstMinute := by
  have hempty : UtcFiles Dict.empty := CandleStore.inv_empty
  refine (CandleStore.patch_refines hempty rfl ⟨fun c hc => ?_, ?_⟩).1
  · obtain rfl := List.mem_singleton.1 hc
    exact Candle.storable_utc rfl (by decide)
  · decide

theorem exhaustive_iff_three_minutes :
    ∃ pages, (∃ n, CursorPages.follow (mixedPage true firstMinute 0 threeMinutes
        (some 1705320000) (some 1705320180) 2) n none = some pages) ∧
      (∀ p ∈ pages, p.length ≤ 2) ∧
      (IsMerge threeMinutes (storedRows firstMinute) (some 1705320000) (some 1705320180)
          pages.flatten ↔
        Covers true firstMinute 0 (some 1705320000) (some 1705320180) threeMinutes ∧
          Continues true firstMinute 0 (some 1705320000) (some 1705320180) threeMinutes 2) :=
  exhaustive_iff utcFiles_firstMinute (by decide) true 0 (some 1705320000) (some 1705320180)
    (by decide)

/-- Page by page with a limit of one, the first minute is thought to be the last. -/
theorem stops_early :
    UtcFiles firstMinute ∧ (threeMinutes.map OhlcvRow.ts).Nodup ∧
      CursorPages.follow (mixedPage true firstMinute 0 threeMinutes (some 1705320000)
        (some 1705320180) 1) 10 none = some [[flatRow 1705320000 2]] ∧
      ¬ IsMerge threeMinutes (storedRows firstMinute) (some 1705320000) (some 1705320180)
        [[flatRow 1705320000 2]].flatten := by
  refine ⟨utcFiles_firstMinute, by decide, by decide +kernel, fun h => ?_⟩
  have hsecond : flatRow 1705320060 1 ∈ [[flatRow 1705320000 2]].flatten := by
    refine (h.mem_iff _).2 (Or.inr ⟨by decide, ?_⟩)
    decide +kernel
  exact absurd hsecond (by decide)

end Pages

end MixedOhlcv
