/-
**Rollovers of ranges that follow one another.**

A rollover looks for jumps between the candles of its range.  Where a range is split, the jump between
the last candle before and the first one after is not seen, and a day that it would have quarantined
is kept.  And each part takes the days that it quarantines out of the months that it writes, and not
out of those that only the other part does.

Main definitions:

* `Rollover.IndependentOfSplit` — two runs leave what one run leaves;
* `Rollover.Clean` — no jump where the range is split, and no candles of quarantined days in months
  that the other part writes alone;
* `Rollover.dailyRuns` — runs from date to date.

Main results:

* `Rollover.independentOfSplit_iff` — when two runs leave what one run leaves;
* `Rollover.split_iff` — the same, with runs over the same range, and from date to date.
-/

import Brokerage.Rollover

set_option relaxedAutoImplicit false
set_option autoImplicit false

namespace Rollover

open StableSort CandleStore Candle

variable {fl : ℚ → ℚ} {z : Zones} {files : Files} {archive : Archive}

/-! ### Runs that follow one another -/

/-- The days that a run quarantines, none if it raises. -/
def quarantinedDays (result : Option Result) : List ℤ := (result.map Result.quarantined).getD []

/-- Two runs leave the candles that one run leaves, and quarantine the days that it does. -/
structure IndependentOfSplit (fl : ℚ → ℚ) (z : Zones) (files : Files) (archive : Archive) (a b c : ℤ) : Prop where
  candles : ∀ month t,
    held ((runRollover fl z files (runRollover fl z files archive a b false).2 b c false).2 month) t =
      held ((runRollover fl z files archive a c false).2 month) t
  days : ∀ d, d ∈ quarantinedDays (runRollover fl z files archive a c false).1 ↔
    d ∈ quarantinedDays (runRollover fl z files archive a b false).1 ∨
      d ∈ quarantinedDays
        (runRollover fl z files (runRollover fl z files archive a b false).2 b c false).1

/-- There is no jump between the last candle of a part and the first one of the next, unless its day
is quarantined anyway; and in a month that only one part writes there can be read no candles of a day
that the other one quarantines. -/
structure Clean (fl : ℚ → ℚ) (z : Zones) (archive : Archive) (b : ℤ) (first second : List Candle) : Prop where
  jump : ∀ x ∈ (sortByTimestamp z first).getLast?, ∀ y ∈ (sortByTimestamp z second).head?,
    isAnomalous fl z x y = true → b ∈ badDays fl z second
  onlyFirst : ∀ month, Written fl z first month → ¬ Written fl z second month →
    ∀ t, epochDay t ∈ badDays fl z second → seen z (archive month) t = none
  onlySecond : ∀ month, ¬ Written fl z first month → Written fl z second month →
    ∀ t, epochDay t ∈ badDays fl z first → seen z (archive month) t = none

/-- The candles of two parts: read from rows, those of the first before the date, those of the second
from it on. -/
structure Parts (b : ℤ) (first second : List Candle) : Prop where
  readFirst : ∀ c ∈ first, IsRead c
  readSecond : ∀ c ∈ second, IsRead c
  before : ∀ c ∈ first, wall c < dayMicros * b
  behind : ∀ c ∈ second, dayMicros * b ≤ wall c

/-- The candles of a range, in two parts. -/
theorem rangeCandles_append {a b c : ℤ} (hab : a < b) (hbc : b < c)
    (hmin : monthStart 12 ≤ dayMicros * a) (hmax : dayMicros * c ≤ monthStart 119999)
    (h : Filed z files (dayMicros * a) (dayMicros * b) (dayMicros * c)) :
    ∃ first second, rangeCandles z files a b = some first ∧
      rangeCandles z files b c = some second ∧
      rangeCandles z files a c = some (first ++ second) ∧ Parts b first second := by
  have hlt : dayMicros * a < dayMicros * b ∧ dayMicros * b < dayMicros * c := by
    rw [dayMicros]
    omega
  have hlast : monthStart 119999 < monthStart 120000 := monthStart_strictMono (by omega)
  have hread : ∀ {d e : ℤ}, a ≤ d → d < e → e ≤ c → rangeCandles z files d e =
      some (readSpan z files (dayMicros * d) (dayMicros * e)
        (monthsUntil (dayMicros * e) (monthOf (dayMicros * d))) (monthOf (dayMicros * d))) := by
    intro d e had hde hec
    have hd : monthStart 12 ≤ dayMicros * d ∧ dayMicros * d < monthStart 120000 := by
      rw [dayMicros] at *
      omega
    have he : monthStart 12 ≤ dayMicros * e ∧ dayMicros * e < monthStart 120000 := by
      rw [dayMicros] at *
      omega
    have hstart : strptime d = some ⟨.utc, dayMicros * d, false, hd.1, hd.2⟩ := dif_pos hd
    have hend : strptime e = some ⟨.utc, dayMicros * e, false, he.1, he.2⟩ := dif_pos he
    have hle : z.le ⟨.utc, dayMicros * e, false, he.1, he.2⟩
        ⟨.utc, dayMicros * d, false, hd.1, hd.2⟩ = false := by
      rw [Zones.le, if_pos rfl, decide_eq_false_iff_not]
      change ¬ dayMicros * e ≤ dayMicros * d
      rw [dayMicros]
      omega
    have hendMax : dayMicros * e ≤ monthStart 119999 := by
      rw [dayMicros] at *
      omega
    obtain ⟨r, hr⟩ : ∃ r, readRange z files ⟨.utc, dayMicros * d, false, hd.1, hd.2⟩
        ⟨.utc, dayMicros * e, false, he.1, he.2⟩ false = some r :=
      exists_readRange rfl rfl hendMax
    rw [rangeCandles, hstart, hend]
    simp only [Option.bind_eq_bind, Option.bind_some, hle, Bool.false_eq_true, if_false]
    rw [readCsvCandles, hr, Option.map_some, candles_readRange rfl rfl hr]
    rfl
  refine ⟨_, _, hread le_rfl hab hbc.le, hread hab.le hbc le_rfl, ?_, ?_⟩
  · rw [hread le_rfl (hab.trans hbc) le_rfl, readSpan_append h hlt.1 hlt.2]
  · have hisRead : ∀ {lo hi : ℤ} {n : ℕ} {month : ℤ},
        ∀ c ∈ readSpan z files lo hi n month, IsRead c := by
      intro lo hi n month c hc
      obtain ⟨-, -, k, -, -, hc⟩ := mem_readSpan.1 hc
      exact (isRead_of_mem_readCsvFile hc).1
    exact
      { readFirst := hisRead
        readSecond := hisRead
        before := fun c hc => (mem_readSpan.1 hc).2.1
        behind := fun c hc => (mem_readSpan.1 hc).1 }

/-! ### Quarantined days -/

theorem mem_badDays {candles : List Candle} {d : ℤ} :
    d ∈ badDays fl z candles ↔ ∃ p ∈ anomalousPairs fl z candles, day p.2 = d := by
  rw [badDays, (List.perm_insertionSort _ _).mem_iff, List.mem_dedup, List.mem_map]

/-- The pairs of neighbours of two lists, one behind the other. -/
theorem zip_tail_append {α : Type*} (l l' : List α) :
    (l ++ l').zip (l ++ l').tail =
      l.zip l.tail ++ (l.getLast?.toList.zip l'.head?.toList) ++ l'.zip l'.tail := by
  induction l with
  | nil => simp
  | cons a l ih =>
      cases l with
      | nil => cases l' <;> simp
      | cons b l => simpa using ih

theorem Parts.sortByTimestamp_append {b : ℤ} {first second : List Candle}
    (h : Parts b first second) :
    sortByTimestamp z (first ++ second) =
      sortByTimestamp z first ++ sortByTimestamp z second := by
  have hutc : ∀ c ∈ first ++ second, c.timestamp.zone = .utc := by
    intro c hc
    rcases List.mem_append.1 hc with hc | hc
    · exact (h.readFirst c hc).utc
    · exact (h.readSecond c hc).utc
  rw [sortByTimestamp_eq_sortBy hutc,
    sortByTimestamp_eq_sortBy fun c hc => (h.readFirst c hc).utc,
    sortByTimestamp_eq_sortBy fun c hc => (h.readSecond c hc).utc]
  exact sortBy_append first fun x hx y hy => ((h.before x hx).trans_le (h.behind y hy)).le

theorem Parts.day_lt {b : ℤ} {first second : List Candle} (h : Parts b first second) {c : Candle}
    (hc : c ∈ first) : day c < b := by
  have hwall : c.timestamp.wall < dayMicros * b := h.before c hc
  rw [day, dayMicros] at *
  omega

theorem Parts.le_day {b : ℤ} {first second : List Candle} (h : Parts b first second) {c : Candle}
    (hc : c ∈ second) : b ≤ day c := by
  have hwall : dayMicros * b ≤ c.timestamp.wall := h.behind c hc
  rw [day, dayMicros] at *
  omega

theorem mem_of_anomalousPairs {candles : List Candle} {p : Candle × Candle}
    (h : p ∈ anomalousPairs fl z candles) : p.2 ∈ candles := by
  obtain ⟨x, y⟩ := p
  have hy := (List.of_mem_zip (List.mem_of_mem_filter h)).2
  exact mem_sortByTimestamp.1 (List.mem_of_mem_tail hy)

theorem Parts.badDays_lt {b : ℤ} {first second : List Candle} (h : Parts b first second) {d : ℤ}
    (hd : d ∈ badDays fl z first) : d < b := by
  obtain ⟨p, hp, rfl⟩ := mem_badDays.1 hd
  exact h.day_lt (mem_of_anomalousPairs hp)

theorem Parts.le_badDays {b : ℤ} {first second : List Candle} (h : Parts b first second) {d : ℤ}
    (hd : d ∈ badDays fl z second) : b ≤ d := by
  obtain ⟨p, hp, rfl⟩ := mem_badDays.1 hd
  exact h.le_day (mem_of_anomalousPairs hp)

/-- A jump where the range is split is one of the day that the second part starts with. -/
theorem Parts.day_eq {b : ℤ} {first second : List Candle} (h : Parts b first second) {x y : Candle}
    (hx : x ∈ first) (hy : y ∈ second) (hjump : isAnomalous fl z x y = true) : day y = b := by
  have hsub := (of_decide_eq_true hjump).1
  rw [Zones.sub, if_pos ((h.readFirst x hx).utc.trans (h.readSecond y hy).utc.symm)] at hsub
  have hbefore : x.timestamp.wall < dayMicros * b := h.before x hx
  have hbehind : dayMicros * b ≤ y.timestamp.wall := h.behind y hy
  rw [day, dayMicros] at *
  omega

/-- The whole range has the jumps of its parts, and the one where it is split. -/
theorem Parts.mem_badDays_append {b : ℤ} {first second : List Candle} (h : Parts b first second)
    {d : ℤ} :
    d ∈ badDays fl z (first ++ second) ↔
      d ∈ badDays fl z first ∨ d ∈ badDays fl z second ∨
        d = b ∧ ∃ x ∈ (sortByTimestamp z first).getLast?,
          ∃ y ∈ (sortByTimestamp z second).head?, isAnomalous fl z x y = true := by
  have hpairs : anomalousPairs fl z (first ++ second) =
      anomalousPairs fl z first ++
        ((sortByTimestamp z first).getLast?.toList.zip
          (sortByTimestamp z second).head?.toList).filter (fun p => isAnomalous fl z p.1 p.2) ++
        anomalousPairs fl z second := by
    rw [anomalousPairs, h.sortByTimestamp_append]
    simp only [zip_tail_append, List.filter_append]
    rfl
  have hmid : (∃ p ∈ ((sortByTimestamp z first).getLast?.toList.zip
        (sortByTimestamp z second).head?.toList).filter (fun p => isAnomalous fl z p.1 p.2),
          day p.2 = d) ↔
      d = b ∧ ∃ x ∈ (sortByTimestamp z first).getLast?,
        ∃ y ∈ (sortByTimestamp z second).head?, isAnomalous fl z x y = true := by
    cases hx : (sortByTimestamp z first).getLast? with
    | none => simp
    | some x =>
        cases hy : (sortByTimestamp z second).head? with
        | none => simp
        | some y =>
            have hxm : x ∈ first := mem_sortByTimestamp.1 (List.mem_of_getLast? hx)
            have hym : y ∈ second := mem_sortByTimestamp.1 (List.mem_of_head? hy)
            have hday : isAnomalous fl z x y = true → day y = b := h.day_eq hxm hym
            constructor
            · rintro ⟨p, hp, rfl⟩
              obtain ⟨hp, hjump⟩ := List.mem_filter.1 hp
              obtain rfl : p = (x, y) := by simpa using hp
              exact ⟨hday hjump, x, rfl, y, rfl, hjump⟩
            · rintro ⟨rfl, x', hx', y', hy', hjump⟩
              obtain rfl := Option.some.inj hx'
              obtain rfl := Option.some.inj hy'
              exact ⟨(x, y), by simpa using hjump, hday hjump⟩
  rw [mem_badDays, mem_badDays, mem_badDays, hpairs]
  simp only [List.mem_append, or_and_right, exists_or, hmid]
  rw [or_assoc, or_congr_right or_comm]

/-! ### Two runs and one -/

theorem candleAt_append (first second : List Candle) (t : ℤ) :
    candleAt z (first ++ second) t = (candleAt z second t).or (candleAt z first t) := by
  rw [candleAt, Dict.latest_append]
  cases hsecond : Dict.latest (epoch z) second t with
  | some c => simp [candleAt, hsecond]
  | none => simp [candleAt, hsecond]

theorem Parts.day_lt_of_candleAt {b : ℤ} {first second : List Candle} (h : Parts b first second)
    {t : ℤ} (ht : candleAt z first t ≠ none) : epochDay t < b := by
  obtain ⟨c, hc, rfl⟩ := exists_of_candleAt ht
  rw [← day_eq_of_isRead (h.readFirst c hc)]
  exact h.day_lt hc

theorem Parts.le_day_of_candleAt {b : ℤ} {first second : List Candle} (h : Parts b first second)
    {t : ℤ} (ht : candleAt z second t ≠ none) : b ≤ epochDay t := by
  obtain ⟨c, hc, rfl⟩ := exists_of_candleAt ht
  rw [← day_eq_of_isRead (h.readSecond c hc)]
  exact h.le_day hc

/-- Without a jump where the range is split, the whole range has the jumps of its parts. -/
def SameDays (fl : ℚ → ℚ) (z : Zones) (first second : List Candle) : Prop :=
  ∀ d, d ∈ badDays fl z (first ++ second) ↔ d ∈ badDays fl z first ∨ d ∈ badDays fl z second

theorem Parts.sameDays_iff {b : ℤ} {first second : List Candle} (h : Parts b first second) :
    SameDays fl z first second ↔
      ∀ x ∈ (sortByTimestamp z first).getLast?, ∀ y ∈ (sortByTimestamp z second).head?,
        isAnomalous fl z x y = true → b ∈ badDays fl z second := by
  constructor
  · intro hsame x hx y hy hjump
    rcases (hsame b).1 (h.mem_badDays_append.2 (.inr (.inr ⟨rfl, x, hx, y, hy, hjump⟩))) with hb | hb
    · exact absurd (h.badDays_lt hb) (lt_irrefl b)
    · exact hb
  · intro hjump d
    rw [h.mem_badDays_append]
    constructor
    · rintro (hd | hd | ⟨rfl, x, hx, y, hy, hxy⟩)
      · exact .inl hd
      · exact .inr hd
      · exact .inr (hjump x hx y hy hxy)
    · rintro (hd | hd)
      · exact .inl hd
      · exact .inr (.inl hd)

/-- Then the whole range writes the months that a part writes. -/
theorem Parts.written_append {b : ℤ} {first second : List Candle} (h : Parts b first second)
    (hsame : SameDays fl z first second) (month : ℤ) :
    Written fl z (first ++ second) month ↔ Written fl z first month ∨ Written fl z second month := by
  have hfirst : ∀ c ∈ first, day c ∉ badDays fl z (first ++ second) ↔ day c ∉ badDays fl z first := by
    intro c hc
    rw [hsame, not_or, and_iff_left]
    exact fun hd => not_lt.2 (h.le_badDays hd) (h.day_lt hc)
  have hsecond : ∀ c ∈ second, day c ∉ badDays fl z (first ++ second) ↔ day c ∉ badDays fl z second := by
    intro c hc
    rw [hsame, not_or, and_iff_right]
    exact fun hd => not_lt.2 (h.le_day hc) (h.badDays_lt hd)
  constructor
  · rintro ⟨c, hc, hmonth, hday⟩
    rcases List.mem_append.1 hc with hc | hc
    · exact .inl ⟨c, hc, hmonth, (hfirst c hc).1 hday⟩
    · exact .inr ⟨c, hc, hmonth, (hsecond c hc).1 hday⟩
  · rintro (⟨c, hc, hmonth, hday⟩ | ⟨c, hc, hmonth, hday⟩)
    · exact ⟨c, List.mem_append_left _ hc, hmonth, (hfirst c hc).2 hday⟩
    · exact ⟨c, List.mem_append_right _ hc, hmonth, (hsecond c hc).2 hday⟩

/-- A part that does not write a month has no candle of it on other days than its bad ones. -/
theorem candleAt_of_not_written {candles : List Candle} (h : ∀ c ∈ candles, IsRead c) {month t : ℤ}
    (hmonth : ¬ Written fl z candles month) (hday : epochDay t ∉ badDays fl z candles) :
    (if epochMonth t = month then candleAt z candles t else none) = none := by
  split
  · rename_i ht
    by_contra hcandle
    exact hmonth (ht ▸ written_of_candleAt h hcandle hday)
  · rfl

/-- A month that both parts write: the second run puts its candles over what the first one left. -/
theorem Parts.written_both {b : ℤ} {first second : List Candle} (h : Parts b first second)
    (hsame : SameDays fl z first second) (month t : ℤ) (file : ℤ → Option Ohlcv) :
    written fl z second month (written fl z first month file) t =
      written fl z (first ++ second) month file t := by
  rw [written, written, written, candleAt_append]
  have hfirst : epochDay t ∈ badDays fl z first → candleAt z second t = none := fun hd => by
    by_contra ht
    exact not_lt.2 (h.le_day_of_candleAt ht) (h.badDays_lt hd)
  by_cases h1 : epochDay t ∈ badDays fl z first
  · by_cases h2 : epochDay t ∈ badDays fl z second
    · rw [if_pos h2, if_pos ((hsame _).2 (.inl h1))]
    · rw [if_neg h2, if_pos h1, if_pos ((hsame _).2 (.inl h1)), hfirst h1]
      simp
  · by_cases h2 : epochDay t ∈ badDays fl z second
    · rw [if_pos h2, if_pos ((hsame _).2 (.inr h2))]
    · have hnot : epochDay t ∉ badDays fl z (first ++ second) := fun hd =>
        ((hsame _).1 hd).elim h1 h2
      rw [if_neg h2, if_neg h1, if_neg hnot, ← Option.or_assoc]
      by_cases hmonth : epochMonth t = month
      · simp [hmonth]
      · simp [hmonth]

/-- A month that only the first part writes. -/
theorem Parts.written_first {b : ℤ} {first second : List Candle} (h : Parts b first second)
    (hsame : SameDays fl z first second) {month : ℤ} (hsecond : ¬ Written fl z second month) (t : ℤ)
    (file : ℤ → Option Ohlcv) :
    written fl z first month file t = written fl z (first ++ second) month file t ↔
      (epochDay t ∈ badDays fl z second → file t = none) := by
  rw [written, written, candleAt_append]
  by_cases h1 : epochDay t ∈ badDays fl z first
  · have h2 : epochDay t ∉ badDays fl z second := fun h2 =>
      not_lt.2 (h.le_badDays h2) (h.badDays_lt h1)
    rw [if_pos h1, if_pos ((hsame _).2 (.inl h1))]
    exact iff_of_true rfl fun hd => absurd hd h2
  · by_cases h2 : epochDay t ∈ badDays fl z second
    · -- the first part has no candle of the day
      have hnone : candleAt z first t = none := by
        by_contra ht
        exact not_lt.2 (h.le_badDays h2) (h.day_lt_of_candleAt ht)
      rw [if_neg h1, if_pos ((hsame _).2 (.inr h2)), hnone, ite_self, Option.none_or]
      exact ⟨fun hfile _ => hfile, fun hfile => hfile h2⟩
    · have hnot : epochDay t ∉ badDays fl z (first ++ second) := fun hd =>
        ((hsame _).1 hd).elim h1 h2
      have hnone := candleAt_of_not_written h.readSecond hsecond h2
      rw [if_neg h1, if_neg hnot]
      refine iff_of_true ?_ fun hd => absurd hd h2
      by_cases hmonth : epochMonth t = month
      · rw [if_pos hmonth] at hnone
        rw [hnone, Option.none_or]
      · simp [hmonth]

/-- A month that only the second part writes. -/
theorem Parts.written_second {b : ℤ} {first second : List Candle} (h : Parts b first second)
    (hsame : SameDays fl z first second) {month : ℤ} (hfirst : ¬ Written fl z first month) (t : ℤ)
    (file : ℤ → Option Ohlcv) :
    written fl z second month file t = written fl z (first ++ second) month file t ↔
      (epochDay t ∈ badDays fl z first → file t = none) := by
  rw [written, written, candleAt_append]
  by_cases h2 : epochDay t ∈ badDays fl z second
  · have h1 : epochDay t ∉ badDays fl z first := fun h1 =>
      not_lt.2 (h.le_badDays h2) (h.badDays_lt h1)
    rw [if_pos h2, if_pos ((hsame _).2 (.inr h2))]
    exact iff_of_true rfl fun hd => absurd hd h1
  · by_cases h1 : epochDay t ∈ badDays fl z first
    · -- the second part has no candle of the day
      have hnone : candleAt z second t = none := by
        by_contra ht
        exact not_lt.2 (h.le_day_of_candleAt ht) (h.badDays_lt h1)
      rw [if_neg h2, if_pos ((hsame _).2 (.inl h1)), hnone, ite_self, Option.none_or]
      exact ⟨fun hfile _ => hfile, fun hfile => hfile h1⟩
    · have hnot : epochDay t ∉ badDays fl z (first ++ second) := fun hd =>
        ((hsame _).1 hd).elim h1 h2
      have hnone := candleAt_of_not_written h.readFirst hfirst h1
      rw [if_neg h2, if_neg hnot]
      refine iff_of_true ?_ fun hd => absurd hd h1
      by_cases hmonth : epochMonth t = month
      · rw [if_pos hmonth] at hnone
        rw [hnone, Option.or_none]
      · simp [hmonth]

theorem quarantinedDays_runRollover (archive : Archive) {a b : ℤ} {candles : List Candle}
    (h : rangeCandles z files a b = some candles) :
    quarantinedDays (runRollover fl z files archive a b false).1 = badDays fl z candles := by
  obtain ⟨⟨r, hr, hquarantined⟩, -⟩ := runRollover_eq archive h
  rw [quarantinedDays, hr]
  exact hquarantined

/-- What is in the archive, and what can be read of it, after two runs and after one. -/
theorem same_of_clean {a b c : ℤ} {first second : List Candle} (hparts : Parts b first second)
    (hfirst : rangeCandles z files a b = some first)
    (hsecond : rangeCandles z files b c = some second)
    (hwhole : rangeCandles z files a c = some (first ++ second))
    (hclean : Clean fl z archive b first second) (month t : ℤ) :
    held ((runRollover fl z files (runRollover fl z files archive a b false).2 b c false).2 month) t =
        held ((runRollover fl z files archive a c false).2 month) t ∧
      seen z ((runRollover fl z files (runRollover fl z files archive a b false).2 b c false).2 month) t =
        seen z ((runRollover fl z files archive a c false).2 month) t := by
  have hsame := hparts.sameDays_iff.2 hclean.jump
  have hwritten := hparts.written_append hsame month
  have hafter : seen z ((runRollover fl z files archive a b false).2 month) =
      if Written fl z first month then written fl z first month (seen z (archive month))
      else seen z (archive month) := by
    funext t
    rw [seen_runRollover archive hfirst]
    split <;> rfl
  rw [held_runRollover _ hsecond, held_runRollover _ hwhole, held_runRollover _ hfirst,
    seen_runRollover _ hsecond, seen_runRollover _ hwhole, hafter]
  by_cases h1 : Written fl z first month
  · by_cases h2 : Written fl z second month
    · simp only [if_pos h1, if_pos h2, if_pos (hwritten.2 (.inl h1)),
        hparts.written_both hsame, and_self]
    · have hfile := (hparts.written_first hsame h2 t (seen z (archive month))).2
        (hclean.onlyFirst month h1 h2 t)
      simp only [if_pos h1, if_neg h2, if_pos (hwritten.2 (.inl h1)), hfile, and_self]
  · by_cases h2 : Written fl z second month
    · have hfile := (hparts.written_second hsame h1 t (seen z (archive month))).2
        (hclean.onlySecond month h1 h2 t)
      simp only [if_neg h1, if_pos h2, if_pos (hwritten.2 (.inr h2)), hfile, and_self]
    · have hnot : ¬ Written fl z (first ++ second) month := fun h => (hwritten.1 h).elim h1 h2
      simp only [if_neg h1, if_neg h2, if_neg hnot, and_self]

/-- Two runs leave what one run leaves exactly if there is no jump where the range is split, and no
candle that only the run over the whole range takes out. -/
theorem independentOfSplit_iff {a b c : ℤ} {first second : List Candle}
    (hparts : Parts b first second) (hfirst : rangeCandles z files a b = some first)
    (hsecond : rangeCandles z files b c = some second)
    (hwhole : rangeCandles z files a c = some (first ++ second)) :
    IndependentOfSplit fl z files archive a b c ↔ Clean fl z archive b first second := by
  have hdays : (∀ d, d ∈ quarantinedDays (runRollover fl z files archive a c false).1 ↔
      d ∈ quarantinedDays (runRollover fl z files archive a b false).1 ∨
        d ∈ quarantinedDays
          (runRollover fl z files (runRollover fl z files archive a b false).2 b c false).1) ↔
      SameDays fl z first second := by
    rw [quarantinedDays_runRollover _ hwhole, quarantinedDays_runRollover _ hfirst,
      quarantinedDays_runRollover _ hsecond]
    exact Iff.rfl
  constructor
  · rintro ⟨hcandles, hday⟩
    have hsame := hdays.1 hday
    have hwritten := hparts.written_append hsame
    refine ⟨hparts.sameDays_iff.1 hsame, fun month h1 h2 t => ?_, fun month h1 h2 t => ?_⟩
    · have hheld := hcandles month t
      rw [held_runRollover _ hsecond, if_neg h2, held_runRollover _ hfirst, if_pos h1,
        held_runRollover _ hwhole, if_pos ((hwritten month).2 (.inl h1))] at hheld
      exact (hparts.written_first hsame h2 t _).1 hheld
    · have hafter : seen z ((runRollover fl z files archive a b false).2 month) =
          seen z (archive month) := by
        funext t
        rw [seen_runRollover _ hfirst, if_neg h1]
      have hheld := hcandles month t
      rw [held_runRollover _ hsecond, if_pos h2, hafter, held_runRollover _ hwhole,
        if_pos ((hwritten month).2 (.inr h2))] at hheld
      exact (hparts.written_second hsame h1 t _).1 hheld
  · intro hclean
    exact ⟨fun month t => (same_of_clean hparts hfirst hsecond hwhole hclean month t).1,
      hdays.2 (hparts.sameDays_iff.2 hclean.jump)⟩

/-! ### Runs over the same range, and from date to date -/

/-- Archives with the same candles, of which the same can be read. -/
def Same (z : Zones) (archive archive' : Archive) : Prop :=
  ∀ month t, held (archive month) t = held (archive' month) t ∧
    seen z (archive month) t = seen z (archive' month) t

/-- A run over archives that are the same leaves archives that are. -/
theorem Same.runRollover {archive archive' : Archive} (h : Same z archive archive') (a b : ℤ) :
    Same z (runRollover fl z files archive a b false).2 (runRollover fl z files archive' a b false).2 := by
  cases hcandles : rangeCandles z files a b with
  | none =>
      have hsame : ∀ archive : Archive, (Rollover.runRollover fl z files archive a b false).2 = archive :=
        fun archive => runRollover_of_none archive hcandles
      rw [hsame, hsame]
      exact h
  | some candles =>
      intro month t
      have hseen : seen z (archive month) = seen z (archive' month) := funext fun t => (h month t).2
      rw [held_runRollover _ hcandles, held_runRollover _ hcandles, seen_runRollover _ hcandles,
        seen_runRollover _ hcandles, hseen, (h month t).1]
      exact ⟨rfl, rfl⟩

/-- Running over a range again changes nothing. -/
theorem runRollover_again (archive : Archive) (a b : ℤ) :
    Same z (runRollover fl z files (runRollover fl z files archive a b false).2 a b false).2
      (runRollover fl z files archive a b false).2 := by
  cases hcandles : rangeCandles z files a b with
  | none =>
      rw [runRollover_of_none _ hcandles]
      exact fun _ _ => ⟨rfl, rfl⟩
  | some candles =>
      intro month t
      have hread := fun c hc => (isRead_of_mem_rangeCandles hcandles (c := c) hc).1
      have hafter : ∀ t, seen z ((runRollover fl z files archive a b false).2 month) t =
          if Written fl z candles month then written fl z candles month (seen z (archive month)) t
          else seen z (archive month) t :=
        fun t => seen_runRollover archive hcandles month t
      rw [held_runRollover _ hcandles, seen_runRollover _ hcandles, held_runRollover _ hcandles,
        hafter]
      by_cases hmonth : Written fl z candles month
      · have htwice : written fl z candles month
            (seen z ((runRollover fl z files archive a b false).2 month)) t =
              written fl z candles month (seen z (archive month)) t := by
          rw [written, hafter, if_pos hmonth, written]
          by_cases hday : epochDay t ∈ badDays fl z candles
          · rw [if_pos hday, if_pos hday]
          · rw [if_neg hday, if_neg hday, ← Option.or_assoc, Option.or_self]
        rw [if_pos hmonth, if_pos hmonth, if_pos hmonth, if_pos hmonth, htwice]
        exact ⟨rfl, rfl⟩
      · rw [if_neg hmonth, if_neg hmonth, if_neg hmonth, if_neg hmonth]
        exact ⟨rfl, rfl⟩

/-- The candles of a run over two dates. -/
def partCandles (z : Zones) (files : Files) (a b : ℤ) : List Candle :=
  (rangeCandles z files a b).getD []

/-- Runs from a date on, each up to the next one. -/
def dailyRuns (fl : ℚ → ℚ) (z : Zones) (files : Files) : Archive → ℤ → List ℤ → Archive
  | archive, _, [] => archive
  | archive, b, c :: rest => dailyRuns fl z files (runRollover fl z files archive b c false).2 c rest

/-- At none of the dates something comes in between: what was said of two runs, for the run up to a
date and the one from it on. -/
def DailyClean (fl : ℚ → ℚ) (z : Zones) (files : Files) (archive : Archive) (a : ℤ) : ℤ → List ℤ → Prop
  | _, [] => True
  | b, c :: rest =>
      b < c ∧ dayMicros * c ≤ monthStart 119999 ∧
        Filed z files (dayMicros * a) (dayMicros * b) (dayMicros * c) ∧
        Clean fl z archive b (partCandles z files a b) (partCandles z files b c) ∧
        DailyClean fl z files archive a c rest

theorem Same.trans {archive archive' archive'' : Archive} (h : Same z archive archive')
    (h' : Same z archive' archive'') : Same z archive archive'' := fun month t =>
  ⟨(h month t).1.trans (h' month t).1, (h month t).2.trans (h' month t).2⟩

theorem Same.dailyRuns {archive archive' : Archive} (h : Same z archive archive') (b : ℤ)
    (rest : List ℤ) :
    Same z (dailyRuns fl z files archive b rest) (dailyRuns fl z files archive' b rest) := by
  induction rest generalizing archive archive' b with
  | nil => exact h
  | cons c rest ih => exact ih (h.runRollover b c) c

/-- Daily runs leave what one run up to the last date leaves. -/
theorem dailyRuns_same {a b : ℤ} (hab : a < b) (hmin : monthStart 12 ≤ dayMicros * a)
    {rest : List ℤ} (h : DailyClean fl z files archive a b rest) :
    Same z (dailyRuns fl z files (runRollover fl z files archive a b false).2 b rest)
      (runRollover fl z files archive a (rest.getLastD b) false).2 := by
  induction rest generalizing b with
  | nil => exact fun _ _ => ⟨rfl, rfl⟩
  | cons c rest ih =>
      obtain ⟨hbc, hmax, hfiled, hclean, hrest⟩ := h
      obtain ⟨first, second, hfirst, hsecond, hwhole, hparts⟩ :=
        rangeCandles_append hab hbc hmin hmax hfiled
      rw [partCandles, partCandles, hfirst, hsecond] at hclean
      have hstep : Same z
          (runRollover fl z files (runRollover fl z files archive a b false).2 b c false).2
          (runRollover fl z files archive a c false).2 :=
        same_of_clean hparts hfirst hsecond hwhole hclean
      rw [List.getLastD_cons]
      exact (hstep.dailyRuns c rest).trans (ih (hab.trans hbc) hrest)

/-- Where the store keeps the candles of the two parts apart, two runs leave what one run leaves
exactly if no jump lies where the range is split and the parts do not leave each other candles of
quarantined days, whatever the rounding of floats.  A run over the same range changes nothing, and
daily runs are as one if that holds at each of their dates. -/
theorem split_iff {a b c : ℤ} (hab : a < b) (hbc : b < c)
    (hmin : monthStart 12 ≤ dayMicros * a) (hmax : dayMicros * c ≤ monthStart 119999)
    (hfiled : Filed z files (dayMicros * a) (dayMicros * b) (dayMicros * c)) :
    (IndependentOfSplit fl z files archive a b c ↔
        Clean fl z archive b (partCandles z files a b) (partCandles z files b c)) ∧
      Same z (runRollover fl z files (runRollover fl z files archive a c false).2 a c false).2
        (runRollover fl z files archive a c false).2 ∧
      ∀ rest, DailyClean fl z files archive a c rest →
        Same z (dailyRuns fl z files (runRollover fl z files archive a c false).2 c rest)
          (runRollover fl z files archive a (rest.getLastD c) false).2 := by
  obtain ⟨first, second, hfirst, hsecond, hwhole, hparts⟩ :=
    rangeCandles_append hab hbc hmin hmax hfiled
  refine ⟨?_, runRollover_again archive a c, fun rest => dailyRuns_same (hab.trans hbc) hmin⟩
  rw [partCandles, partCandles, hfirst, hsecond]
  exact independentOfSplit_iff hparts hfirst hsecond hwhole

/-! ### A jump at midnight -/

/-- A candle at noon of the 30th of July 2026, and two around the end of that day. -/
def midnightFiles (price : ℚ) : Files :=
  Dict.empty.set 24318
    [exampleRow 1785412800 100, exampleRow 1785455940 100, exampleRow 1785456000 price]

theorem midnightFiles_filed (price : ℚ) :
    Filed Zones.fallBack (midnightFiles price) (dayMicros * 20664) (dayMicros * 20665)
      (dayMicros * 20666) := by
  have hmonth : ∀ {month : ℤ} {d : Candle},
      d ∈ readCsvFile Zones.fallBack (midnightFiles price) month → month = 24318 := by
    intro month d hd
    by_contra hne
    rw [readCsvFile, midnightFiles, Dict.get?_set_of_ne _ _ hne] at hd
    cases hd
  constructor
  · intro month _ d hd _ _
    rw [hmonth hd]
    decide +kernel
  · intro month _ d hd _ _
    rw [hmonth hd]
    decide +kernel

theorem split_iff_midnightFiles :
    (IndependentOfSplit binary64 Zones.fallBack (midnightFiles (825 / 8)) twoDaysArchive 20664 20665 20666 ↔
        Clean binary64 Zones.fallBack twoDaysArchive 20665
          (partCandles Zones.fallBack (midnightFiles (825 / 8)) 20664 20665)
          (partCandles Zones.fallBack (midnightFiles (825 / 8)) 20665 20666)) ∧
      Same Zones.fallBack
        (runRollover binary64 Zones.fallBack (midnightFiles (825 / 8))
          (runRollover binary64 Zones.fallBack (midnightFiles (825 / 8)) twoDaysArchive 20664 20666 false).2
          20664 20666 false).2
        (runRollover binary64 Zones.fallBack (midnightFiles (825 / 8)) twoDaysArchive 20664 20666 false).2 ∧
      ∀ rest, DailyClean binary64 Zones.fallBack (midnightFiles (825 / 8)) twoDaysArchive 20664 20666 rest →
        Same Zones.fallBack
          (dailyRuns binary64 Zones.fallBack (midnightFiles (825 / 8))
            (runRollover binary64 Zones.fallBack (midnightFiles (825 / 8)) twoDaysArchive 20664 20666 false).2
            20666 rest)
          (runRollover binary64 Zones.fallBack (midnightFiles (825 / 8)) twoDaysArchive 20664
            (rest.getLastD 20666) false).2 :=
  split_iff (by decide) (by decide) (by decide +kernel) (by decide +kernel)
    (midnightFiles_filed (825 / 8))

/-- Where the range is split at midnight the jump is not seen. -/
theorem jump_unseen :
    ¬ IndependentOfSplit binary64 Zones.fallBack (midnightFiles 200) exampleArchive 20664 20665 20666 := by
  intro h
  have hheld := h.candles 24318 1785456000
  revert hheld
  decide +kernel

end Rollover
