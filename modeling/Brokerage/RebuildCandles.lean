/-
**Candles from the files of the recorder.**

The ticks of a range are read from all days, ordered by their timestamps, and put together by their
minutes.  The candle of an open minute has the prices of the minute, less those that are far below
their median.

The loop files each tick that it accepts, while the recorder leaves out those with the timestamp of
the one before, and the files of old days are removed.  So the candles are the same exactly if in
each minute the ticks that are kept have the same bar.

Main definitions:

* `OstiumTickRecorder.loadTicksForRange`, `rebuildCandlesFromTicks` — the rebuilt candles;
* `liveBuckets` — the buckets of the loop, if it keeps them all;
* `Reproduces` — the rebuilt candles of the full minutes are those of the loop.

Main results:

* `OstiumTickRecorder.Recorded.loadTicksForRange` — what is read are the ticks that are kept;
* `exists_rebuildCandlesFromTicks` — the rebuilt candles;
* `mem_aggregate_liveBuckets` — the candles of the loop;
* `reproduces_iff` — when they are the same;
* `inOrder_of_run` — the ticks that the loop accepts come in the order of their timestamps.
-/

import Brokerage.CursorPages
import Brokerage.IngestClosedMinutes
import Brokerage.IngestLateTicks
import Brokerage.Rises
import Brokerage.TickRecorder

set_option relaxedAutoImplicit false
set_option autoImplicit false

/-! ### Reading the files -/

/-- The ticks of a range of timestamps. -/
def OstiumTickRecorder.loadTicksForRange (r : OstiumTickRecorder) (symbol : String)
    (fromTs toTs : ℤ) : List IngestTick :=
  let allTicks := r.daily.sortedKeys.flatMap fun day =>
    (r.file day symbol).filter fun t => fromTs ≤ t.ts ∧ t.ts < toTs
  allTicks.insertionSort fun s t => s.ts ≤ t.ts

/-- The prices of each minute. -/
def bucketTicks (ticks : List IngestTick) : Dict ℤ (List ℚ) :=
  Dict.group (fun t => minuteStart t.ts) IngestTick.price ticks

/-- The prices of a minute. -/
def pricesIn (minute : ℤ) (ticks : List IngestTick) : List ℚ :=
  (ticks.filter fun t => minuteStart t.ts = minute).map IngestTick.price

theorem getList_bucketTicks (ticks : List IngestTick) (minute : ℤ) :
    (bucketTicks ticks).getList minute = pricesIn minute ticks :=
  Dict.getList_group _ _ ticks minute

theorem dayOf_mono {s t : ℤ} (h : s ≤ t) : dayOf s ≤ dayOf t :=
  Int.ediv_le_ediv (by norm_num) h

/-- What is read are the ticks that are kept. -/
theorem OstiumTickRecorder.Recorded.loadTicksForRange {r : OstiumTickRecorder}
    {calls : List RecordCall} (h : r.Recorded calls) (hcalls : InOrder calls) (symbol : String)
    (fromTs toTs : ℤ) :
    r.loadTicksForRange symbol fromTs toTs =
      (keptTicks r.retentionDays symbol calls).filter fun t => fromTs ≤ t.ts ∧ t.ts < toTs := by
  have hsorted : (keptTicks r.retentionDays symbol calls).Pairwise fun s t => s.ts ≤ t.ts :=
    (hcalls.pairwise_ts symbol).sublist (keptTicks_sublist calls)
  -- the files, in the order of their days, have the ticks in their order
  have hfiles : r.daily.sortedKeys.flatMap (fun day => r.file day symbol) =
      keptTicks r.retentionDays symbol calls := by
    simp only [h.file]
    refine Rises.flatMap_filter (Dict.sortedKeys_pairwise r.daily)
      (hsorted.imp fun hst => dayOf_mono hst) fun t ht => Dict.mem_sortedKeys.2 ?_
    by_contra hday
    have hfile : t ∈ r.file (dayOf t.ts) symbol := by
      rw [h.file]
      exact List.mem_filter.2 ⟨ht, decide_eq_true rfl⟩
    rw [OstiumTickRecorder.file, Dict.get?_eq_none_iff.2 hday] at hfile
    cases hfile
  rw [OstiumTickRecorder.loadTicksForRange, ← List.filter_flatMap, hfiles]
  exact (hsorted.filter _).insertionSort_eq

/-! ### Rebuilding the candles -/

/-- `statistics.median`. -/
def median (prices : List ℚ) : ℚ :=
  let data := prices.insertionSort (· ≤ ·)
  let n := data.length
  if n % 2 = 1 then data.getD (n / 2) 0 else (data.getD (n / 2 - 1) 0 + data.getD (n / 2) 0) / 2

/-- Without the prices that are below a part of the median, unless all are. -/
def filterSpikePrices (prices : List ℚ) (spikePctThreshold : ℚ) : List ℚ :=
  if prices.length < 2 then prices
  else
    let threshold := median prices * spikePctThreshold
    let clean := prices.filter fun p => threshold ≤ p
    if clean = [] then prices else clean

/-- The correction of a bar whose high or low is not that of its prices. -/
def correctOhlc (b : PriceBar) : PriceBar :=
  if b.high < b.low ∨ b.high < b.open_ ∨ b.open_ < b.low ∨ b.high < b.close ∨ b.close < b.low then
    let high := max (max (max b.open_ b.high) b.low) b.close
    { b with high := high, low := min (min (min b.open_ high) b.low) b.close }
  else b

/-- The candle of a minute; a datetime or a candle that does not exist raises. -/
def rebuildCandle (minute : ℤ) (prices : List ℚ) : Option Candle := do
  let bar ← PriceBar.of? prices
  let timestamp ← utcFromTimestamp (1000000 * minute)
  let ohlcv ← Ohlcv.new? (correctOhlc bar) 0
  some ⟨timestamp, ohlcv, true⟩

/-- Whether a candle is rebuilt of the minute. -/
def isRebuilt (marketOpen : String → ℤ → Bool) (buckets : Dict ℤ (List ℚ)) (symbol : String)
    (fromTs toTs minute : ℤ) : Bool :=
  (fromTs ≤ minute ∧ minute < toTs) ∧ buckets.getList minute ≠ [] ∧ marketOpen symbol minute

def rebuildCandlesFromTicks (marketOpen : String → ℤ → Bool) (ticks : List IngestTick)
    (symbol : String) (fromTs toTs : ℤ) (spikePctThreshold : ℚ) : Option (List Candle) :=
  let buckets := bucketTicks ticks
  (buckets.sortedKeys.filter fun minute =>
      isRebuilt marketOpen buckets symbol fromTs toTs minute).mapM fun minute =>
    rebuildCandle minute (filterSpikePrices (buckets.getList minute) spikePctThreshold)

/-- The minutes of candles, and their bars. -/
def ohlcOf (z : Zones) (candles : List Candle) : List (ℤ × PriceBar) :=
  candles.map fun c => (c.instant z / 1000000, c.ohlcv.bar)

variable {z : Zones} {marketOpen : String → ℤ → Bool} {symbol : String} {fromTs toTs : ℤ}

theorem filterSpikePrices_ne_nil {prices : List ℚ} (h : prices ≠ []) (threshold : ℚ) :
    filterSpikePrices prices threshold ≠ [] := by
  rw [filterSpikePrices]
  split
  · exact h
  · dsimp only
    split
    · exact h
    · rename_i hclean
      exact hclean

/-- With the threshold 0 no price is left out that is not negative. -/
theorem filterSpikePrices_zero {prices : List ℚ} (h : ∀ p ∈ prices, 0 ≤ p) :
    filterSpikePrices prices 0 = prices := by
  rw [filterSpikePrices]
  split
  · rfl
  · dsimp only
    have hclean : (prices.filter fun p => median prices * 0 ≤ p) = prices :=
      List.filter_eq_self.2 fun p hp => decide_eq_true (by rw [mul_zero]; exact h p hp)
    rw [hclean, ite_self]

/-- The bar of some prices needs no correction. -/
theorem PriceBar.IsBarOf.correctOhlc_eq {bar : PriceBar} {prices : List ℚ}
    (h : bar.IsBarOf prices) : correctOhlc bar = bar := by
  rw [correctOhlc, if_neg]
  rintro (hlt | hlt | hlt | hlt | hlt)
  · exact not_lt.2 (h.low_le _ h.high_mem) hlt
  · exact not_lt.2 (h.le_high _ h.open_mem) hlt
  · exact not_lt.2 (h.low_le _ h.open_mem) hlt
  · exact not_lt.2 (h.le_high _ h.close_mem) hlt
  · exact not_lt.2 (h.low_le _ h.close_mem) hlt

/-- There is a candle of a minute with prices whose datetime exists. -/
theorem exists_rebuildCandle (z : Zones) {minute : ℤ} {prices : List ℚ} (hne : prices ≠ [])
    (hdate : (utcFromTimestamp (1000000 * minute)).isSome) :
    ∃ candle, rebuildCandle minute prices = some candle ∧
      (PriceBar.of? prices).map (fun bar => (minute, bar)) =
        some (candle.instant z / 1000000, candle.ohlcv.bar) := by
  obtain ⟨bar, hbar⟩ := Option.ne_none_iff_exists'.1 (mt PriceBar.of?_eq_none_iff.1 hne)
  obtain ⟨timestamp, htimestamp⟩ := Option.isSome_iff_exists.1 hdate
  obtain ⟨ohlcv, hohlcv⟩ := Ohlcv.exists_new? (PriceBar.of?_eq_some_iff.1 hbar) (le_refl 0)
  refine ⟨⟨timestamp, ohlcv, true⟩, ?_, ?_⟩
  · rw [rebuildCandle, hbar, Option.bind_eq_bind, Option.bind_some,
      (PriceBar.of?_eq_some_iff.1 hbar).correctOhlc_eq, htimestamp, hohlcv]
    rfl
  · have hinstant : Candle.instant z ⟨timestamp, ohlcv, true⟩ = 1000000 * minute := by
      rw [utcFromTimestamp] at htimestamp
      split at htimestamp
      · obtain rfl := Option.some.inj htimestamp
        rw [Candle.instant, Zones.instant, Zones.utcoffset]
        dsimp only
        omega
      · cases htimestamp
    rw [hbar, hinstant, (Ohlcv.new?_eq_some hohlcv).1,
      Int.mul_ediv_cancel_left minute (by norm_num)]
    rfl

/-- A loop in which no step raises. -/
theorem exists_mapM {α β γ : Type} {f : α → Option β} {g : β → γ} {h : α → Option γ} {l : List α}
    (hl : ∀ a ∈ l, ∃ b, f a = some b ∧ h a = some (g b)) :
    ∃ bs, l.mapM f = some bs ∧ bs.map g = l.filterMap h := by
  induction l with
  | nil => exact ⟨[], rfl, rfl⟩
  | cons a l ih =>
      obtain ⟨b, hf, hh⟩ := hl a List.mem_cons_self
      obtain ⟨bs, hbs, hmap⟩ := ih fun a' ha' => hl a' (List.mem_cons_of_mem _ ha')
      refine ⟨b :: bs, ?_, ?_⟩
      · rw [List.mapM_cons, hf, hbs]
        rfl
      · rw [List.map_cons, hmap, List.filterMap_cons, hh]

/-- The rebuilt candles: those of the open minutes of the range that have ticks, in their order. -/
theorem exists_rebuildCandlesFromTicks (z : Zones) (marketOpen : String → ℤ → Bool)
    (symbol : String) (fromTs toTs : ℤ) (threshold : ℚ) {ticks : List IngestTick}
    (hdate : ∀ t ∈ ticks, (utcFromTimestamp (1000000 * minuteStart t.ts)).isSome) :
    ∃ candles,
      rebuildCandlesFromTicks marketOpen ticks symbol fromTs toTs threshold = some candles ∧
      ((ohlcOf z candles).Pairwise fun p q => p.1 < q.1) ∧
      ∀ minute bar, (minute, bar) ∈ ohlcOf z candles ↔
        fromTs ≤ minute ∧ minute < toTs ∧ marketOpen symbol minute = true ∧
          bar.IsBarOf (filterSpikePrices (pricesIn minute ticks) threshold) := by
  let candleOf? (minute : ℤ) : Option (ℤ × PriceBar) :=
    (PriceBar.of? (filterSpikePrices (pricesIn minute ticks) threshold)).map
      fun bar => (minute, bar)
  have hrebuilt : ∀ minute, isRebuilt marketOpen (bucketTicks ticks) symbol fromTs toTs minute ↔
      (fromTs ≤ minute ∧ minute < toTs) ∧ pricesIn minute ticks ≠ [] ∧
        marketOpen symbol minute = true := by
    intro minute
    rw [isRebuilt, decide_eq_true_eq, getList_bucketTicks]
  have hcandleOf : ∀ {minute : ℤ} {p : ℤ × PriceBar}, candleOf? minute = some p →
      p.1 = minute ∧
        p.2.IsBarOf (filterSpikePrices (pricesIn minute ticks) threshold) := by
    intro minute p hp
    obtain ⟨bar, hbar, rfl⟩ := Option.map_eq_some_iff.1 hp
    exact ⟨rfl, PriceBar.of?_eq_some_iff.1 hbar⟩
  obtain ⟨candles, hcandles, hohlc⟩ := exists_mapM
    (l := (bucketTicks ticks).sortedKeys.filter fun minute =>
      isRebuilt marketOpen (bucketTicks ticks) symbol fromTs toTs minute)
    (f := fun minute =>
      rebuildCandle minute (filterSpikePrices ((bucketTicks ticks).getList minute) threshold))
    (g := fun c : Candle => (c.instant z / 1000000, c.ohlcv.bar)) (h := candleOf?)
    fun minute hminute => by
      obtain ⟨-, hne, -⟩ := (hrebuilt minute).1 (List.mem_filter.1 hminute).2
      -- the minute is that of a tick
      have hdateMinute : (utcFromTimestamp (1000000 * minute)).isSome := by
        obtain ⟨t, ht⟩ := List.exists_mem_of_ne_nil _ (mt List.map_eq_nil_iff.2 hne)
        obtain ⟨ht, hminute⟩ := List.mem_filter.1 ht
        rw [← of_decide_eq_true hminute]
        exact hdate t ht
      rw [getList_bucketTicks]
      exact exists_rebuildCandle z (filterSpikePrices_ne_nil hne threshold) hdateMinute
  refine ⟨candles, hcandles, ?_, fun minute bar => ?_⟩
  · rw [ohlcOf, hohlc]
    refine ((Dict.sortedKeys_pairwise _).filter _).filterMap _ fun m n hmn p hp q hq => ?_
    rw [(hcandleOf hp).1, (hcandleOf hq).1]
    exact hmn
  · rw [ohlcOf, hohlc, List.mem_filterMap]
    constructor
    · rintro ⟨m, hm, hbar⟩
      obtain ⟨hrange, -, hopen⟩ := (hrebuilt m).1 (List.mem_filter.1 hm).2
      obtain ⟨rfl, hbar⟩ := hcandleOf hbar
      exact ⟨hrange.1, hrange.2, hopen, hbar⟩
    · rintro ⟨hfrom, hto, hopen, hbar⟩
      have hne : pricesIn minute ticks ≠ [] := by
        intro hnil
        rw [hnil] at hbar
        exact hbar.ne_nil rfl
      refine ⟨minute, List.mem_filter.2 ⟨Dict.mem_sortedKeys.2 ?_, ?_⟩, ?_⟩
      · exact Dict.mem_keys_of_getList (by rwa [getList_bucketTicks])
      · exact (hrebuilt minute).2 ⟨⟨hfrom, hto⟩, hne, hopen⟩
      · exact Option.map_eq_some_iff.2 ⟨bar, PriceBar.of?_eq_some_iff.2 hbar, rfl⟩

/-! ### The candles of the loop -/

/-- The buckets of the loop after some accepted ticks, if none is removed. -/
def liveBuckets (cfg : IngestConfig) (symbol : String) (ticks : List IngestTick) : Buckets :=
  (ticks.foldl (fun s tick => s.keepTick cfg symbol tick)
    (OstiumCandleIngestService.new [symbol])).ticks symbol

theorem ticksOf_liveBuckets (cfg : IngestConfig) (symbol : String) (ticks : List IngestTick)
    (minute : ℤ) :
    (liveBuckets cfg symbol ticks).ticksOf minute =
      if cfg.marketOpen symbol minute then ticks.filter fun t => minuteStart t.ts = minute
      else [] := by
  induction ticks using List.reverseRecOn with
  | nil =>
      rw [List.filter_nil, ite_self]
      rfl
  | append_singleton ticks tick ih =>
      rw [liveBuckets, List.foldl_append, List.foldl_cons, List.foldl_nil,
        OstiumCandleIngestService.ticksOf_keepTick, ← liveBuckets, ih, List.filter_append]
      by_cases hopen : cfg.marketOpen symbol minute = true
      · by_cases hminute : minute = minuteStart tick.ts
        · simp [hopen, ← hminute]
        · simp [hopen, hminute, Ne.symm hminute]
      · rw [if_neg hopen, if_neg hopen, if_neg fun hand => hopen hand.2.2]

/-- The candles of the loop: those of the open minutes before the current one that have ticks. -/
theorem mem_aggregate_liveBuckets (cfg : IngestConfig) (symbol : String) (ticks : List IngestTick)
    (currentMinute minute : ℤ) (bar : PriceBar) :
    (minute, bar) ∈ aggregateTicksToCandles (liveBuckets cfg symbol ticks) currentMinute ↔
      minute < currentMinute ∧ cfg.marketOpen symbol minute = true ∧
        bar.IsBarOf (pricesIn minute ticks) := by
  rw [mem_aggregateTicksToCandles, ticksOf_liveBuckets]
  refine and_congr_right fun _ => ?_
  split
  · rename_i hopen
    rw [pricesIn, and_iff_right hopen]
  · rename_i hclosed
    exact iff_of_false (fun hbar => hbar.ne_nil rfl) fun hand => hclosed hand.1

/-! ### When they are the same -/

/-- The rebuilt candles of the full minutes of the range are those of the loop. -/
def Reproduces (z : Zones) (cfg : IngestConfig) (retentionDays : ℤ) (calls : List RecordCall)
    (symbol : String) (fromTs toTs currentMinute : ℤ) : Prop :=
  let ticks := (OstiumTickRecorder.record retentionDays calls).loadTicksForRange symbol fromTs toTs
  let live := aggregateTicksToCandles (liveBuckets cfg symbol (ticksOfSymbol symbol calls))
    currentMinute
  let isCompared (p : ℤ × PriceBar) : Bool :=
    fromTs ≤ p.1 ∧ p.1 + 60 ≤ toTs ∧ p.1 < currentMinute
  ∃ candles,
    rebuildCandlesFromTicks cfg.marketOpen ticks symbol fromTs toTs 0 = some candles ∧
      (ohlcOf z candles).filter isCompared = live.filter isCompared

/-- No price is left out as a spike. -/
def NoSpikes (ticks : List IngestTick) : Prop :=
  ∀ minute, filterSpikePrices (pricesIn minute ticks) 0 = pricesIn minute ticks

theorem noSpikes_of_nonneg {ticks : List IngestTick} (h : ∀ t ∈ ticks, 0 ≤ t.price) :
    NoSpikes ticks := by
  refine fun minute => filterSpikePrices_zero fun p hp => ?_
  obtain ⟨t, ht, rfl⟩ := List.mem_map.1 hp
  exact h t (List.mem_filter.1 ht).1

variable {calls : List RecordCall} {retentionDays : ℤ}

theorem minute_date {ts : ℤ} (hpos : 0 < ts) (hdate : (utcFromTimestamp (1000000 * ts)).isSome) :
    (utcFromTimestamp (1000000 * minuteStart ts)).isSome := by
  obtain ⟨-, hle, -⟩ := minuteStart_spec ts
  -- the minute of a positive timestamp begins in 1970 or later
  have hnonneg : 0 ≤ minuteStart ts := by
    rw [minuteStart]
    omega
  rw [utcFromTimestamp] at hdate
  split at hdate
  · rename_i hbounds
    have hmin : monthStart 12 ≤ 1000000 * minuteStart ts := by
      have hepoch : monthStart 12 ≤ 0 := by decide +kernel
      exact hepoch.trans (by omega)
    rw [utcFromTimestamp, dif_pos ⟨hmin, by omega⟩]
    rfl
  · cases hdate

theorem keptTicks_date {t : IngestTick} (ht : t ∈ keptTicks retentionDays symbol calls) :
    (utcFromTimestamp (1000000 * minuteStart t.ts)).isSome := by
  obtain ⟨c, hc, rfl⟩ := List.mem_map.1 ht
  have hnew := mem_newCalls ((retainedCalls_sublist _).subset (List.mem_filter.1 hc).1)
  exact minute_date hnew.1 hnew.2

/-- A full minute of the range has all ticks of the minute. -/
theorem pricesIn_filter {ticks : List IngestTick} {minute : ℤ} (hfrom : fromTs ≤ minute)
    (hto : minute + 60 ≤ toTs) :
    pricesIn minute (ticks.filter fun t => fromTs ≤ t.ts ∧ t.ts < toTs) =
      pricesIn minute ticks := by
  rw [pricesIn, pricesIn, List.filter_filter]
  congr 1
  refine List.filter_congr fun t _ => ?_
  by_cases hminute : minuteStart t.ts = minute
  · have hrange : fromTs ≤ t.ts ∧ t.ts < toTs := by
      obtain ⟨-, hle, hlt⟩ := minuteStart_spec t.ts
      omega
    rw [decide_eq_true hrange, Bool.and_true]
  · rw [decide_eq_false hminute, Bool.false_and]

/-- The rebuilt candles of the full minutes. -/
theorem exists_rebuilt (z : Zones) (cfg : IngestConfig) (retentionDays : ℤ)
    (hcalls : InOrder calls) (symbol : String) (fromTs toTs : ℤ)
    (hspikes : NoSpikes (keptTicks retentionDays symbol calls)) :
    ∃ candles,
      rebuildCandlesFromTicks cfg.marketOpen
        ((OstiumTickRecorder.record retentionDays calls).loadTicksForRange symbol fromTs toTs)
        symbol fromTs toTs 0 = some candles ∧
      ((ohlcOf z candles).Pairwise fun p q => p.1 < q.1) ∧
      ∀ minute bar, fromTs ≤ minute → minute + 60 ≤ toTs →
        ((minute, bar) ∈ ohlcOf z candles ↔ cfg.marketOpen symbol minute = true ∧
          bar.IsBarOf (pricesIn minute (keptTicks retentionDays symbol calls))) := by
  rw [(OstiumTickRecorder.recorded_record retentionDays hcalls).loadTicksForRange hcalls,
    OstiumTickRecorder.record_retentionDays]
  have hdate : ∀ t ∈ (keptTicks retentionDays symbol calls).filter
      fun t => fromTs ≤ t.ts ∧ t.ts < toTs,
      (utcFromTimestamp (1000000 * minuteStart t.ts)).isSome :=
    fun t ht => keptTicks_date (List.mem_filter.1 ht).1
  obtain ⟨candles, hcandles, hsorted, hmem⟩ :=
    exists_rebuildCandlesFromTicks z cfg.marketOpen symbol fromTs toTs 0 hdate
  refine ⟨candles, hcandles, hsorted, fun minute bar hfrom hto => ?_⟩
  have hlt : minute < toTs := by omega
  rw [hmem, pricesIn_filter hfrom hto, hspikes minute, and_iff_right hfrom, and_iff_right hlt]

/-- The rebuilt candles are those of the loop, if and only if in each full open minute of the range
the ticks that are kept have the bar of all accepted ones: the first and the last price are those
of the minute, and every price lies between two that are kept. -/
theorem reproduces_iff (z : Zones) (cfg : IngestConfig) (retentionDays : ℤ)
    (hcalls : InOrder calls) (symbol : String) (fromTs toTs currentMinute : ℤ)
    (hspikes : NoSpikes (keptTicks retentionDays symbol calls)) :
    Reproduces z cfg retentionDays calls symbol fromTs toTs currentMinute ↔
      ∀ minute, fromTs ≤ minute → minute + 60 ≤ toTs → minute < currentMinute →
        cfg.marketOpen symbol minute = true →
          PriceBar.SameBar (pricesIn minute (keptTicks retentionDays symbol calls))
            (pricesIn minute (ticksOfSymbol symbol calls)) := by
  obtain ⟨candles, hcandles, hsorted, hmem⟩ :=
    exists_rebuilt z cfg retentionDays hcalls symbol fromTs toTs hspikes
  have hsubset : ∀ minute, pricesIn minute (keptTicks retentionDays symbol calls) ⊆
      pricesIn minute (ticksOfSymbol symbol calls) := fun minute =>
    (((keptTicks_sublist calls).filter _).map _).subset
  constructor
  · rintro ⟨candles', hcandles', heq⟩ minute hfrom hto hcurrent hopen
    obtain rfl : candles = candles' := Option.some.inj (hcandles.symm.trans hcandles')
    refine (PriceBar.of?_eq_of?_iff (hsubset minute)).1 (Option.ext fun bar => ?_)
    -- the minute has the same candles in both lists
    have hbar := congrArg (fun l => (minute, bar) ∈ l) heq
    simp only [List.mem_filter, hmem minute bar hfrom hto, mem_aggregate_liveBuckets, hfrom, hto,
      hcurrent, hopen, true_and, and_true, decide_true, eq_iff_iff] at hbar
    exact PriceBar.of?_eq_some_iff.trans (hbar.trans PriceBar.of?_eq_some_iff.symm)
  · intro hsame
    refine ⟨candles, hcandles, CursorPages.Sorted.eq_of_mem_iff (hsorted.filter _)
      ((pairwise_aggregateTicksToCandles _ _).filter _) fun p => ?_⟩
    obtain ⟨minute, bar⟩ := p
    rw [List.mem_filter, List.mem_filter]
    refine and_congr_left fun hrange => ?_
    obtain ⟨hfrom, hto, hcurrent⟩ := of_decide_eq_true hrange
    rw [hmem minute bar hfrom hto, mem_aggregate_liveBuckets, and_iff_right hcurrent]
    refine and_congr_right fun hopen => ?_
    rw [← PriceBar.of?_eq_some_iff, ← PriceBar.of?_eq_some_iff,
      (PriceBar.of?_eq_of?_iff (hsubset minute)).2 (hsame minute hfrom hto hcurrent hopen)]

/-- The ticks that a run of the loop accepts come in the order of their timestamps. -/
theorem inOrder_of_run {S : Type} (z : Zones) (sink : CandleSink S) (cfg : IngestConfig)
    (symbols : List String) (store : S) (events : List IngestEvent)
    (hcalls : calls.map (fun c => (c.symbol, c.tick)) =
      ((IngestWorld.new symbols store).run z sink cfg events).accepted.map
        fun a => (a.symbol, a.tick)) : InOrder calls := by
  have hinv : IngestInv cfg ((IngestWorld.new symbols store).run z sink cfg events) :=
    (IngestInv.new symbols store).run events
  have hpairs : (calls.map fun c => (c.symbol, c.tick)).Pairwise
      fun p q => p.1 = q.1 → p.2.ts ≤ q.2.ts := by
    rw [hcalls]
    exact List.pairwise_map.2 hinv.sorted
  exact List.pairwise_map.1 hpairs

/-- Three prices, two of them with one timestamp, of which the second is between the others. -/
def between : List RecordCall :=
  [⟨"XAU", ⟨1705320004, 100⟩, 1705320005⟩, ⟨"XAU", ⟨1705320004, 105⟩, 1705320007⟩,
    ⟨"XAU", ⟨1705320010, 110⟩, 1705320011⟩]

theorem reproduces_iff_between :
    Reproduces Zones.fallBack alwaysOpen 7 between "XAU" 1705276800 1705363200 1705321000 := by
  have hkept : keptTicks 7 "XAU" between = [⟨1705320004, 100⟩, ⟨1705320010, 110⟩] := by
    decide +kernel
  have hspikes : NoSpikes (keptTicks 7 "XAU" between) := by
    rw [hkept]
    exact noSpikes_of_nonneg (by decide)
  refine (reproduces_iff Zones.fallBack alwaysOpen 7 (by decide) "XAU" 1705276800 1705363200
    1705321000 hspikes).2 fun minute _ _ _ _ hne => ?_
  obtain ⟨t, ht⟩ := List.exists_mem_of_ne_nil _ (mt List.map_eq_nil_iff.2 hne)
  obtain ⟨ht, hminute⟩ := List.mem_filter.1 ht
  have hall : ∀ t ∈ ticksOfSymbol "XAU" between, minuteStart t.ts = 1705320000 := by decide
  obtain rfl := (hall t ht).symm.trans (of_decide_eq_true hminute)
  rw [hkept]
  decide

/-- Two prices with one timestamp. -/
def oneTimestamp : List RecordCall :=
  [⟨"XAU", ⟨1705320004, 100⟩, 1705320005⟩, ⟨"XAU", ⟨1705320004, 110⟩, 1705320007⟩]

/-- The second price of a timestamp is not recorded, and not in the rebuilt candle. -/
theorem equal_timestamp_dropped :
    InOrder oneTimestamp ∧ NoSpikes (keptTicks 7 "XAU" oneTimestamp) ∧
    (1705320000, (⟨100, 110, 100, 110⟩ : PriceBar)) ∈ aggregateTicksToCandles
      (liveBuckets alwaysOpen "XAU" (ticksOfSymbol "XAU" oneTimestamp)) 1705321000 ∧
    ¬ Reproduces Zones.fallBack alwaysOpen 7 oneTimestamp "XAU" 1705276800 1705363200 1705321000 := by
  have hkept : keptTicks 7 "XAU" oneTimestamp = [⟨1705320004, 100⟩] := by decide +kernel
  have horder : InOrder oneTimestamp := by decide
  have hspikes : NoSpikes (keptTicks 7 "XAU" oneTimestamp) := by
    rw [hkept]
    exact noSpikes_of_nonneg (by decide)
  have hlive : (1705320000, (⟨100, 110, 100, 110⟩ : PriceBar)) ∈ aggregateTicksToCandles
      (liveBuckets alwaysOpen "XAU" (ticksOfSymbol "XAU" oneTimestamp)) 1705321000 := by
    decide
  refine ⟨horder, hspikes, hlive, ?_⟩
  rintro ⟨candles, hcandles, heq⟩
  obtain ⟨candles', hcandles', -, hmem⟩ := exists_rebuilt Zones.fallBack alwaysOpen 7 horder "XAU"
    1705276800 1705363200 hspikes
  obtain rfl : candles' = candles := Option.some.inj (hcandles'.symm.trans hcandles)
  have hrebuilt := (List.mem_filter.1 (heq.symm ▸ List.mem_filter.2 ⟨hlive, by decide⟩)).1
  obtain ⟨-, hbar⟩ := (hmem 1705320000 _ (by norm_num) (by norm_num)).1 hrebuilt
  rw [hkept] at hbar
  exact absurd hbar.high_mem (by decide)
