/-
**The bars of the lab, made from candles of a minute.**

The lab aggregates candles of a minute to the bars of a timeframe: each candle goes into the bar that
begins at the last multiple of the timeframe before it, counted from an offset.  A dictionary of the
bars is filled in place, candle after candle, and its values are taken in the order of its keys.

Bars can be aggregated again: the bars of a coarser timeframe are those of the candles.  The backtest
counts every timeframe from the offset of the day, for which its documentation says that only daily
bars begin there.  The offset is of whole hours, so the bars of four hours move with it unless it is a
multiple of four hours, and no others do.

Main definitions:

* `LabRunner.aggregateToTf` — the bars of a timeframe;
* `LabRunner.covered`, `LabRunner.MadeOf`, `LabRunner.AreBars` — the candles of a bar, and what the
  bars are to them;
* `LabRunner.barsFed` — the bars that the backtest gives to the strategy.

Main results:

* `LabRunner.coarsens_bucketTs`, `LabRunner.aggregateToTf_aggregateToTf` — bars of bars;
* `LabRunner.areBars_aggregateToTf` — what the bars are to the candles;
* `LabRunner.aggregateToTf_spec` — both;
* `LabRunner.barsFed_eq_iff` — when the bars that are fed do not depend on the offset of the day;
* `LabRunner.fourHours_shifted` — bars of four hours that do.
-/

import Brokerage.Gather
import Brokerage.MixedOhlcv

set_option relaxedAutoImplicit false
set_option autoImplicit false

namespace LabRunner

/-! ### Bars of a timeframe -/

/-- The beginning of the bar that a time belongs to. -/
def bucketTs (tfMinutes offset ts : ℤ) : ℤ :=
  (ts - offset) / (60 * tfMinutes) * (60 * tfMinutes) + offset

/-- The bar that a candle begins. -/
def newBar (tfMinutes offset : ℤ) (c : OhlcvRow) : OhlcvRow :=
  { c with ts := bucketTs tfMinutes offset c.ts }

/-- A candle is added to a bar. -/
def addCandle (existing c : OhlcvRow) : OhlcvRow :=
  { existing with
    high := max existing.high c.high
    low := min existing.low c.low
    close := c.close
    volume := existing.volume + c.volume }

/-- The bars by their beginnings, after all candles. -/
def buckets (candles : List OhlcvRow) (tfMinutes offset : ℤ) : Dict ℤ OhlcvRow :=
  Dict.gather (fun c => bucketTs tfMinutes offset c.ts) (newBar tfMinutes offset) addCandle candles

/-- The bars of a timeframe, counted from an offset of seconds. -/
def aggregateToTf (candles : List OhlcvRow) (tfMinutes offset : ℤ) : List OhlcvRow :=
  if tfMinutes = 1 then candles else (buckets candles tfMinutes offset).sortedValues

end LabRunner

/-- The copy of the function that the report uses. -/
def AggregationReport.aggregateToTf (candles : List OhlcvRow) (tfMinutes offset : ℤ) :
    List OhlcvRow :=
  if tfMinutes = 1 then candles else (LabRunner.buckets candles tfMinutes offset).sortedValues

namespace LabRunner

/-- The candles from the beginning of a bar to its end. -/
def covered (candles : List OhlcvRow) (tfMinutes : ℤ) (bar : OhlcvRow) : List OhlcvRow :=
  candles.filter fun c => bar.ts ≤ c.ts ∧ c.ts < bar.ts + 60 * tfMinutes

/-- A bar is made of some candles: it opens with the first and closes with the last one, its high is
the highest and its low the lowest, and its volume is that of all of them. -/
structure MadeOf (l : List OhlcvRow) (bar : OhlcvRow) : Prop where
  first : l.head?.map OhlcvRow.open_ = some bar.open_
  last : l.getLast?.map OhlcvRow.close = some bar.close
  high : IsGreatest {h | ∃ c ∈ l, c.high = h} bar.high
  low : IsLeast {h | ∃ c ∈ l, c.low = h} bar.low
  volume : bar.volume = (l.map OhlcvRow.volume).sum

/-- What the bars of a timeframe are to the candles. -/
structure AreBars (candles : List OhlcvRow) (tfMinutes : ℤ) (bars : List OhlcvRow) : Prop where
  ascending : bars.Pairwise (·.ts < ·.ts)
  covers : ∀ bar ∈ bars, MadeOf (covered candles tfMinutes bar) bar
  one : ∀ c ∈ candles, ∃! bar, bar ∈ bars ∧ c ∈ covered candles tfMinutes bar

variable {candles : List OhlcvRow} {tfMinutes offset ts : ℤ} {bar c : OhlcvRow}

/-! ### The beginnings of bars -/

theorem bucketTs_le (htf : 0 < tfMinutes) : bucketTs tfMinutes offset ts ≤ ts := by
  have hmul := Int.ediv_mul_le (ts - offset) (show 60 * tfMinutes ≠ 0 by omega)
  rw [bucketTs]
  omega

theorem lt_bucketTs_add (htf : 0 < tfMinutes) :
    ts < bucketTs tfMinutes offset ts + 60 * tfMinutes := by
  have hmul := Int.lt_ediv_add_one_mul_self (ts - offset) (show 0 < 60 * tfMinutes by omega)
  rw [Int.add_mul, one_mul] at hmul
  rw [bucketTs]
  omega

theorem bucketTs_mono (htf : 0 < tfMinutes) {ts' : ℤ} (h : ts ≤ ts') :
    bucketTs tfMinutes offset ts ≤ bucketTs tfMinutes offset ts' := by
  have hwidth : 0 < 60 * tfMinutes := by omega
  have hdiv := Int.ediv_le_ediv hwidth (show ts - offset ≤ ts' - offset by omega)
  have hmul := Int.mul_le_mul_of_nonneg_right hdiv hwidth.le
  rw [bucketTs, bucketTs]
  omega

/-- A time belongs to a bar if it is between the bar's beginning and its end. -/
theorem bucketTs_eq_iff (htf : 0 < tfMinutes) (offset ts ts' : ℤ) :
    bucketTs tfMinutes offset ts' = bucketTs tfMinutes offset ts ↔
      bucketTs tfMinutes offset ts ≤ ts' ∧
        ts' < bucketTs tfMinutes offset ts + 60 * tfMinutes := by
  have hwidth : 0 < 60 * tfMinutes := by omega
  constructor
  · intro h
    rw [← h]
    exact ⟨bucketTs_le htf, lt_bucketTs_add htf⟩
  · rintro ⟨hle, hlt⟩
    rw [bucketTs] at hle hlt
    have hdiv : (ts' - offset) / (60 * tfMinutes) = (ts - offset) / (60 * tfMinutes) := by
      rw [Int.ediv_eq_iff_of_pos hwidth]
      constructor
      · omega
      · omega
    rw [bucketTs, bucketTs, hdiv]

/-- The beginning of a bar of a coarser timeframe is that of the finer bar's beginning. -/
theorem bucketTs_bucketTs {a b : ℤ} (ha : 0 < a) (hab : a ∣ b) (offset ts : ℤ) :
    bucketTs b offset (bucketTs a offset ts) = bucketTs b offset ts := by
  obtain ⟨n, rfl⟩ := hab
  have hdiv : ∀ y : ℤ, y / (60 * (a * n)) = y / (60 * a) / n := fun y => by
    rw [← mul_assoc, Int.ediv_ediv_of_nonneg (by omega)]
  rw [bucketTs, bucketTs, bucketTs, Int.add_sub_cancel, hdiv, hdiv,
    Int.mul_ediv_cancel _ (by omega)]

/-- A coarser timeframe is a coarser key. -/
theorem coarsens_bucketTs {a b : ℤ} (ha : 0 < a) (hab : a ∣ b) (offset : ℤ) :
    Dict.Coarsens (fun c : OhlcvRow => bucketTs a offset c.ts) (fun c => bucketTs b offset c.ts)
      (newBar a offset) (newBar b offset) addCandle where
  key_eq c c' h := by rw [← bucketTs_bucketTs ha hab, h, bucketTs_bucketTs ha hab]
  key_new c := bucketTs_bucketTs ha dvd_rfl offset c.ts
  key_add _ _ := rfl
  new_new c := by
    rw [newBar, newBar, newBar]
    dsimp only
    rw [bucketTs_bucketTs ha hab]
  new_add _ _ := rfl
  add_new _ _ := rfl
  add_add v w c := by simp [addCandle, max_assoc, min_assoc, add_assoc]

/-! ### Bars and their candles -/

theorem madeOf_singleton (c : OhlcvRow) : MadeOf [c] c := by
  constructor <;> simp [IsGreatest, IsLeast, upperBounds, lowerBounds]

/-- A candle that is added to the first one of a list. -/
theorem MadeOf.of_addCandle {l : List OhlcvRow} {c d : OhlcvRow}
    (h : MadeOf (addCandle c d :: l) bar) : MadeOf (c :: d :: l) bar := by
  obtain ⟨hfirst, hlast, ⟨⟨x, hx, hxhigh⟩, hhigh⟩, ⟨⟨y, hy, hylow⟩, hlow⟩, hvolume⟩ := h
  have hmax : max c.high d.high ≤ bar.high := hhigh ⟨_, List.mem_cons_self, rfl⟩
  have hmin : bar.low ≤ min c.low d.low := hlow ⟨_, List.mem_cons_self, rfl⟩
  refine ⟨hfirst, ?_, ⟨?_, ?_⟩, ⟨?_, ?_⟩, ?_⟩
  · rw [List.getLast?_cons_cons]
    cases l with
    | nil => exact hlast
    | cons e l => rwa [List.getLast?_cons_cons] at hlast ⊢
  · rcases List.mem_cons.1 hx with rfl | hx
    · rcases max_choice c.high d.high with hc | hd
      · exact ⟨c, by simp, hc.symm.trans hxhigh⟩
      · exact ⟨d, by simp, hd.symm.trans hxhigh⟩
    · exact ⟨x, by simp [hx], hxhigh⟩
  · rintro _ ⟨z, hz, rfl⟩
    simp only [List.mem_cons] at hz
    rcases hz with rfl | rfl | hz
    · exact (le_max_left _ _).trans hmax
    · exact (le_max_right _ _).trans hmax
    · exact hhigh ⟨z, List.mem_cons_of_mem _ hz, rfl⟩
  · rcases List.mem_cons.1 hy with rfl | hy
    · rcases min_choice c.low d.low with hc | hd
      · exact ⟨c, by simp, hc.symm.trans hylow⟩
      · exact ⟨d, by simp, hd.symm.trans hylow⟩
    · exact ⟨y, by simp [hy], hylow⟩
  · rintro _ ⟨z, hz, rfl⟩
    simp only [List.mem_cons] at hz
    rcases hz with rfl | rfl | hz
    · exact hmin.trans (min_le_left _ _)
    · exact hmin.trans (min_le_right _ _)
    · exact hlow ⟨z, List.mem_cons_of_mem _ hz, rfl⟩
  · rw [hvolume]
    simp [addCandle, add_assoc]

/-- Adding candles makes a bar of them. -/
theorem madeOf_foldl (l : List OhlcvRow) (c : OhlcvRow) : MadeOf (c :: l) (l.foldl addCandle c) := by
  induction l generalizing c with
  | nil => exact madeOf_singleton c
  | cons d l ih => exact (ih (addCandle c d)).of_addCandle

/-- The beginning of a bar stays, and nothing else depends on it. -/
theorem foldl_addCandle_ts (l : List OhlcvRow) (c : OhlcvRow) (ts : ℤ) :
    l.foldl addCandle { c with ts := ts } = { l.foldl addCandle c with ts := ts } := by
  induction l generalizing c with
  | nil => rfl
  | cons d l ih => exact ih (addCandle c d)

theorem MadeOf.of_summary {l : List OhlcvRow}
    (h : Dict.summary (newBar tfMinutes offset) addCandle l = some bar) :
    MadeOf l bar ∧ ∃ c ∈ l, bar.ts = bucketTs tfMinutes offset c.ts := by
  cases l with
  | nil => cases h
  | cons c l =>
      obtain rfl := Option.some.inj h
      rw [newBar, foldl_addCandle_ts]
      have hmade := madeOf_foldl l c
      exact ⟨⟨hmade.first, hmade.last, hmade.high, hmade.low, hmade.volume⟩, c,
        List.mem_cons_self, rfl⟩

/-- A bar is made of the candles from its beginning to its end. -/
theorem get?_buckets (htf : 0 < tfMinutes) {k : ℤ}
    (h : (buckets candles tfMinutes offset).get? k = some bar) :
    bar.ts = k ∧ MadeOf (covered candles tfMinutes bar) bar ∧ ∀ ts,
      bucketTs tfMinutes offset ts = k ↔ k ≤ ts ∧ ts < k + 60 * tfMinutes := by
  rw [buckets, Dict.get?_gather] at h
  obtain ⟨hmade, c, hc, hts⟩ := MadeOf.of_summary h
  obtain ⟨-, hk⟩ := List.mem_filter.1 hc
  have hbegin : bar.ts = k := hts.trans (of_decide_eq_true hk)
  have hiff : ∀ ts, bucketTs tfMinutes offset ts = k ↔ k ≤ ts ∧ ts < k + 60 * tfMinutes := by
    intro ts
    rw [← of_decide_eq_true hk]
    exact bucketTs_eq_iff htf offset c.ts ts
  have hcovered : covered candles tfMinutes bar =
      candles.filter fun c => bucketTs tfMinutes offset c.ts = k := by
    refine List.filter_congr fun d _ => ?_
    rw [hbegin, decide_eq_decide]
    exact (hiff d.ts).symm
  exact ⟨hbegin, hcovered ▸ hmade, hiff⟩

theorem mem_aggregateToTf (hone : tfMinutes ≠ 1) :
    bar ∈ aggregateToTf candles tfMinutes offset ↔
      ∃ k, (buckets candles tfMinutes offset).get? k = some bar := by
  rw [aggregateToTf, if_neg hone, Dict.mem_sortedValues]

/-- Every candle is in a bar. -/
theorem exists_bucket (tfMinutes offset : ℤ) (hc : c ∈ candles) :
    ∃ bar, (buckets candles tfMinutes offset).get? (bucketTs tfMinutes offset c.ts) = some bar := by
  have hkey : bucketTs tfMinutes offset c.ts ∈ (buckets candles tfMinutes offset).keys :=
    Dict.mem_keys_gather.2 ⟨c, hc, rfl⟩
  exact Option.isSome_iff_exists.1 (Dict.mem_keys_iff_contains.1 hkey)

theorem mem_covered : c ∈ covered candles tfMinutes bar ↔
    c ∈ candles ∧ bar.ts ≤ c.ts ∧ c.ts < bar.ts + 60 * tfMinutes := by
  simp [covered]

/-- The bars of a timeframe above a minute. -/
theorem areBars_of_ne_one (htf : 0 < tfMinutes) (hone : tfMinutes ≠ 1) (candles : List OhlcvRow)
    (offset : ℤ) : AreBars candles tfMinutes (aggregateToTf candles tfMinutes offset) := by
  refine ⟨?_, fun bar hbar => ?_, fun c hc => ?_⟩
  · rw [aggregateToTf, if_neg hone]
    exact Dict.pairwise_sortedValues fun k bar h => (get?_buckets htf h).1
  · obtain ⟨k, hk⟩ := (mem_aggregateToTf hone).1 hbar
    exact (get?_buckets htf hk).2.1
  · obtain ⟨bar, hbar⟩ := exists_bucket tfMinutes offset hc
    have hbegin := (get?_buckets htf hbar).1
    refine ⟨bar, ⟨(mem_aggregateToTf hone).2 ⟨_, hbar⟩, mem_covered.2 ⟨hc, ?_, ?_⟩⟩, ?_⟩
    · rw [hbegin]
      exact bucketTs_le htf
    · rw [hbegin]
      exact lt_bucketTs_add htf
    · -- another bar with the candle begins where the candle's bar begins
      rintro bar' ⟨hbar', hcovered⟩
      obtain ⟨k, hk⟩ := (mem_aggregateToTf hone).1 hbar'
      obtain ⟨hbegin', -, hiff⟩ := get?_buckets htf hk
      have hin := (mem_covered.1 hcovered).2
      rw [hbegin', ← hiff] at hin
      rw [← hin, hbar] at hk
      exact (Option.some.inj hk).symm

/-- Candles at whole minutes are their own bars of a minute. -/
theorem covered_one (hasc : candles.Pairwise (·.ts < ·.ts)) (haligned : ∀ c ∈ candles, 60 ∣ c.ts)
    (hc : c ∈ candles) : covered candles 1 c = [c] := by
  have hself : ∀ d ∈ candles, (c.ts ≤ d.ts ∧ d.ts < c.ts + 60 * 1) ↔ d = c := by
    intro d hd
    constructor
    · rintro ⟨hle, hlt⟩
      have hts : d.ts = c.ts := by
        have := haligned c hc
        have := haligned d hd
        omega
      have hnodup : (candles.map OhlcvRow.ts).Nodup := by
        rw [List.nodup_iff_pairwise_ne, List.pairwise_map]
        exact hasc.imp fun hlt => hlt.ne
      exact List.inj_on_of_nodup_map hnodup hd hc hts
    · rintro rfl
      omega
  have hnodup : candles.Nodup := hasc.imp fun hlt heq => hlt.ne (congrArg _ heq)
  have hfilter : covered candles 1 c = candles.filter (· == c) := by
    refine List.filter_congr fun d hd => ?_
    rw [Bool.beq_eq_decide_eq, decide_eq_decide]
    exact hself d hd
  rw [hfilter, List.filter_beq, List.count_eq_one_of_mem hnodup hc, List.replicate_one]

theorem areBars_one (hasc : candles.Pairwise (·.ts < ·.ts)) (haligned : ∀ c ∈ candles, 60 ∣ c.ts) :
    AreBars candles 1 candles := by
  refine ⟨hasc, fun bar hbar => ?_, fun c hc => ⟨c, ⟨hc, ?_⟩, ?_⟩⟩
  · rw [covered_one hasc haligned hbar]
    exact madeOf_singleton bar
  · rw [covered_one hasc haligned hc]
    exact List.mem_cons_self
  · rintro bar ⟨hbar, hcovered⟩
    rw [covered_one hasc haligned hbar] at hcovered
    exact (List.mem_singleton.1 hcovered).symm

/-- What the bars of a timeframe are to the candles. -/
theorem areBars_aggregateToTf (hasc : candles.Pairwise (·.ts < ·.ts))
    (haligned : ∀ c ∈ candles, 60 ∣ c.ts) (htf : 0 < tfMinutes) (offset : ℤ) :
    AreBars candles tfMinutes (aggregateToTf candles tfMinutes offset) := by
  by_cases hone : tfMinutes = 1
  · rw [hone, aggregateToTf, if_pos rfl]
    exact areBars_one hasc haligned
  · exact areBars_of_ne_one htf hone candles offset

/-! ### Bars of bars -/

/-- The bars of candles that do not go back are those of their runs. -/
theorem aggregateToTf_eq_runs (hasc : candles.Pairwise (·.ts ≤ ·.ts)) (htf : 0 < tfMinutes)
    (hone : tfMinutes ≠ 1) (offset : ℤ) :
    aggregateToTf candles tfMinutes offset =
      (Dict.runs (fun c => bucketTs tfMinutes offset c.ts) (newBar tfMinutes offset) addCandle
        candles).map Prod.snd := by
  rw [aggregateToTf, if_neg hone, buckets]
  exact Dict.sortedValues_gather (hasc.imp fun hle => bucketTs_mono htf hle)

/-- The bars of the bars of a finer timeframe are those of the candles. -/
theorem aggregateToTf_aggregateToTf {a b : ℤ} (hasc : candles.Pairwise (·.ts ≤ ·.ts)) (ha : 0 < a)
    (hb : 0 < b) (hab : a ∣ b) (offset : ℤ) :
    aggregateToTf (aggregateToTf candles a offset) b offset = aggregateToTf candles b offset := by
  by_cases ha1 : a = 1
  · rw [ha1, aggregateToTf.eq_def candles 1, if_pos rfl]
  · have hb1 : b ≠ 1 := by
      rintro rfl
      exact ha1 (Int.eq_one_of_dvd_one ha.le hab)
    have hbars := (areBars_of_ne_one ha ha1 candles offset).ascending.imp fun hlt => hlt.le
    rw [aggregateToTf_eq_runs hbars hb hb1, aggregateToTf_eq_runs hasc ha ha1,
      aggregateToTf_eq_runs hasc hb hb1]
    exact congrArg _ ((coarsens_bucketTs ha hab offset).runs_runs candles)

/-- Of ascending candles at whole minutes: the bars of the bars of a timeframe that divides another
one are the bars of the latter, those are made of the candles between their beginnings and ends, and
the report has the same ones. -/
theorem aggregateToTf_spec (candles : List OhlcvRow) (hasc : candles.Pairwise (·.ts < ·.ts))
    (haligned : ∀ c ∈ candles, 60 ∣ c.ts) (a b offset : ℤ) (ha : 0 < a) (hb : 0 < b)
    (hab : a ∣ b) :
    aggregateToTf (aggregateToTf candles a offset) b offset = aggregateToTf candles b offset ∧
      AreBars candles b (aggregateToTf candles b offset) ∧
      AggregationReport.aggregateToTf candles b offset = aggregateToTf candles b offset :=
  ⟨aggregateToTf_aggregateToTf (hasc.imp fun hlt => hlt.le) ha hb hab offset,
    areBars_aggregateToTf hasc haligned hb offset, rfl⟩

/-- Candles before and after the epoch, with gaps. -/
def aroundEpoch : List OhlcvRow :=
  [⟨-120, 5, 7, 4, 6, 1⟩, ⟨-60, 6, 9, 6, 8, 2⟩, ⟨60, 8, 8, 3, 4, 3⟩, ⟨540, 4, 5, 4, 5, 4⟩]

theorem aggregateToTf_spec_aroundEpoch :
    aggregateToTf (aggregateToTf aroundEpoch 5 300) 10 300 = aggregateToTf aroundEpoch 10 300 ∧
      AreBars aroundEpoch 10 (aggregateToTf aroundEpoch 10 300) ∧
      AggregationReport.aggregateToTf aroundEpoch 10 300 = aggregateToTf aroundEpoch 10 300 :=
  aggregateToTf_spec aroundEpoch (by decide) (by decide) 5 10 300 (by decide) (by decide)
    (by decide)

example : aggregateToTf aroundEpoch 10 300 =
    [⟨-300, 5, 9, 3, 4, 6⟩, ⟨300, 4, 5, 4, 5, 4⟩] := by decide +kernel

/-! ### The offset of the day -/

/-- `TF_TO_MINUTES`. -/
def tfToMinutes : String → Option ℤ
  | "1m" => some 1
  | "5m" => some 5
  | "15m" => some 15
  | "30m" => some 30
  | "1h" => some 60
  | "4h" => some 240
  | "1d" => some 1440
  | _ => none

/-- The hour at which days begin: the one that is asked for, or that of the strategy's
configuration. -/
def dayOffsetH (asked configured : ℤ) : ℤ := if asked = 0 then configured else asked

/-- The bars that the backtest feeds to the strategy, if there are enough. -/
def barsFed (tf : String) (asked configured : ℤ) (candles1m : List OhlcvRow) :
    Option (List OhlcvRow) :=
  match tfToMinutes tf with
  | none => none
  | some tfMinutes =>
      if candles1m = [] then none
      else
        let bars := aggregateToTf candles1m tfMinutes (dayOffsetH asked configured * 3600)
        if bars.length < 20 then none else some bars

/-- In how many windows of a timeframe there are candles, counted from an offset. -/
def windows (tfMinutes offset : ℤ) (candles : List OhlcvRow) : ℕ :=
  (candles.map fun c => (c.ts - offset) / (60 * tfMinutes)).dedup.length

/-- There is a bar for each of the windows. -/
theorem length_aggregateToTf (htf : 0 < tfMinutes) (hone : tfMinutes ≠ 1) (offset : ℤ)
    (candles : List OhlcvRow) :
    (aggregateToTf candles tfMinutes offset).length = windows tfMinutes offset candles := by
  have hinj : Function.Injective fun q : ℤ => q * (60 * tfMinutes) + offset := by
    intro q q' h
    have hmul : q * (60 * tfMinutes) = q' * (60 * tfMinutes) := by
      dsimp only at h
      omega
    exact Int.eq_of_mul_eq_mul_right (by omega) hmul
  have hperm : (buckets candles tfMinutes offset).keys.Perm
      ((candles.map fun c => (c.ts - offset) / (60 * tfMinutes)).dedup.map
        fun q => q * (60 * tfMinutes) + offset) := by
    refine (List.perm_ext_iff_of_nodup (Dict.nodup_keys _) ((List.nodup_dedup _).map hinj)).2 ?_
    intro k
    simp [buckets, Dict.mem_keys_gather, bucketTs]
  rw [aggregateToTf, if_neg hone, Dict.length_sortedValues, hperm.length_eq, List.length_map,
    windows]

/-- An offset by whole bars changes nothing. -/
theorem aggregateToTf_of_dvd (htf : 0 < tfMinutes) (h : 60 * tfMinutes ∣ offset)
    (candles : List OhlcvRow) :
    aggregateToTf candles tfMinutes offset = aggregateToTf candles tfMinutes 0 := by
  have hbucket : bucketTs tfMinutes offset = bucketTs tfMinutes 0 := by
    funext ts
    obtain ⟨k, rfl⟩ := h
    rw [bucketTs, bucketTs, sub_zero, Int.sub_mul_ediv_left _ _ (by omega)]
    ring
  have hnew : newBar tfMinutes offset = newBar tfMinutes 0 := by
    funext c
    rw [newBar, newBar, hbucket]
  rw [aggregateToTf, aggregateToTf, buckets, buckets, hnew, hbucket]

/-- Bars that begin at different times are different. -/
theorem ne_aggregateToTf (htf : 0 < tfMinutes) (hone : tfMinutes ≠ 1)
    (h : ¬ 60 * tfMinutes ∣ offset) (hne : candles ≠ []) :
    aggregateToTf candles tfMinutes offset ≠ aggregateToTf candles tfMinutes 0 := by
  intro heq
  obtain ⟨c, hc⟩ := List.exists_mem_of_ne_nil _ hne
  obtain ⟨bar, hbar⟩ := exists_bucket tfMinutes offset hc
  have hmem : bar ∈ aggregateToTf candles tfMinutes 0 :=
    heq ▸ (mem_aggregateToTf hone).2 ⟨_, hbar⟩
  obtain ⟨k, hk⟩ := (mem_aggregateToTf hone).1 hmem
  obtain ⟨c', -, hc'⟩ := Dict.mem_keys_gather.1 (Dict.mem_keys_of_get? hk)
  have hbegin : bucketTs tfMinutes offset c.ts = bucketTs tfMinutes 0 c'.ts :=
    (get?_buckets htf hbar).1.symm.trans ((get?_buckets htf hk).1.trans hc'.symm)
  rw [bucketTs, bucketTs, add_zero, sub_zero] at hbegin
  refine h ⟨c'.ts / (60 * tfMinutes) - (c.ts - offset) / (60 * tfMinutes), ?_⟩
  rw [mul_sub, mul_comm _ (c'.ts / _), ← hbegin, mul_comm _ ((c.ts - offset) / _)]
  omega

/-- Only the bars of four hours and of a day can move with the offset of the day. -/
theorem dvd_dayOffset {tf : String} (hday : tf ≠ "1d") (hfour : tf ≠ "4h")
    (htf : tfToMinutes tf = some tfMinutes) (hours : ℤ) : 60 * tfMinutes ∣ hours * 3600 := by
  have hminutes : tfMinutes = 1 ∨ tfMinutes = 5 ∨ tfMinutes = 15 ∨ tfMinutes = 30 ∨
      tfMinutes = 60 := by
    revert htf
    rw [tfToMinutes.eq_def]
    split <;> simp_all [eq_comm]
  rcases hminutes with rfl | rfl | rfl | rfl | rfl <;> omega

theorem tfToMinutes_pos {tf : String} (htf : tfToMinutes tf = some tfMinutes) : 0 < tfMinutes := by
  revert htf
  rw [tfToMinutes.eq_def]
  split <;> rintro ⟨⟩ <;> decide

/-- The bars that are fed do not change if the offset is by whole bars. -/
theorem barsFed_of_dvd {tf : String} (htf : tfToMinutes tf = some tfMinutes) {asked configured : ℤ}
    (h : 60 * tfMinutes ∣ dayOffsetH asked configured * 3600) (candles : List OhlcvRow) :
    barsFed tf asked configured candles = barsFed tf 0 0 candles := by
  have hbars := aggregateToTf_of_dvd (tfToMinutes_pos htf) h candles
  simp only [barsFed, htf, hbars]
  rfl

/-- The bars that are fed change if they begin at other times, unless there are too few. -/
theorem barsFed_eq_iff_of_not_dvd {tf : String} (htf : tfToMinutes tf = some tfMinutes)
    (hone : tfMinutes ≠ 1) {asked configured : ℤ}
    (h : ¬ 60 * tfMinutes ∣ dayOffsetH asked configured * 3600) (candles : List OhlcvRow) :
    barsFed tf asked configured candles = barsFed tf 0 0 candles ↔
      windows tfMinutes 0 candles < 20 ∧
        windows tfMinutes (dayOffsetH asked configured * 3600) candles < 20 := by
  have hpos := tfToMinutes_pos htf
  have hzero : dayOffsetH 0 0 * 3600 = 0 := rfl
  by_cases hnil : candles = []
  · subst hnil
    simp [barsFed, htf, windows]
  · have hne := ne_aggregateToTf hpos hone h hnil
    simp only [barsFed, htf, if_neg hnil, hzero, length_aggregateToTf hpos hone]
    by_cases hshifted : windows tfMinutes (dayOffsetH asked configured * 3600) candles < 20 <;>
      by_cases hplain : windows tfMinutes 0 candles < 20 <;> simp [hshifted, hplain, hne]

/-- The offset of the day changes the bars below a day that are fed to the strategy just when they
are bars of four hours, the offset is no multiple of four hours, and there are candles in twenty
windows of four hours at least, with the offset or without it. -/
theorem barsFed_eq_iff (tf : String) (hday : tf ≠ "1d") (asked configured : ℤ)
    (candles : List OhlcvRow) :
    barsFed tf asked configured candles = barsFed tf 0 0 candles ↔
      tf ≠ "4h" ∨ 4 ∣ dayOffsetH asked configured ∨
        (windows 240 0 candles < 20 ∧
          windows 240 (dayOffsetH asked configured * 3600) candles < 20) := by
  by_cases hfour : tf = "4h"
  · subst hfour
    have hdvd : (60 * 240 : ℤ) ∣ dayOffsetH asked configured * 3600 ↔
        4 ∣ dayOffsetH asked configured := by omega
    by_cases hwhole : 4 ∣ dayOffsetH asked configured
    · exact iff_of_true (barsFed_of_dvd rfl (hdvd.2 hwhole) candles) (Or.inr (Or.inl hwhole))
    · rw [barsFed_eq_iff_of_not_dvd rfl (by decide) (mt hdvd.1 hwhole)]
      simp [hwhole]
  · refine iff_of_true ?_ (Or.inl hfour)
    cases htf : tfToMinutes tf with
    | none => simp only [barsFed, htf]
    | some tfMinutes => exact barsFed_of_dvd htf (dvd_dayOffset hday hfour htf _) candles

/-- A candle every four hours, from midnight on. -/
def everyFourHours : List OhlcvRow :=
  (List.range 20).map fun n => ⟨14400 * n, 1, 1, 1, 1, 1⟩

theorem barsFed_eq_iff_fourHours :
    barsFed "4h" 5 0 everyFourHours = barsFed "4h" 0 0 everyFourHours ↔
      "4h" ≠ "4h" ∨ 4 ∣ dayOffsetH 5 0 ∨
        (windows 240 0 everyFourHours < 20 ∧
          windows 240 (dayOffsetH 5 0 * 3600) everyFourHours < 20) :=
  barsFed_eq_iff "4h" (by decide) 5 0 everyFourHours

/-- With days that begin at five, twenty bars of four hours begin an hour after the others. -/
theorem fourHours_shifted :
    (barsFed "4h" 5 0 everyFourHours).map (List.map OhlcvRow.ts) =
        some ((List.range 20).map fun n : ℕ => 14400 * (n : ℤ) - 10800) ∧
      (barsFed "4h" 0 0 everyFourHours).map (List.map OhlcvRow.ts) =
        some ((List.range 20).map fun n : ℕ => 14400 * (n : ℤ)) ∧
      barsFed "4h" 5 0 everyFourHours ≠ barsFed "4h" 0 0 everyFourHours := by
  refine ⟨rfl, rfl, ?_⟩
  decide +kernel

end LabRunner
