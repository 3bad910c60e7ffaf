/-
**Missing minutes of a window.**

The validator of candles counts the minutes of a window and compares them with the candles; so does
a range when it checks its completeness.  Both subtract the ends of the window, and for ends of one
zone this subtracts what its clock shows.  The count is that of the real minutes when the clock has
the same offset at both ends.  The window of a query is found by subtracting the limit from its end,
with the same effect.

Main definitions:

* `AwareDatetime.add?` — a datetime and a duration;
* `GapValidator.findGaps`, `GapValidator.validate` — the gaps, and the report on them;
* `candlesToCandleRange`, `resolveCandleRange` — the range with its report, and the window of a
  query;
* `missingMinutes`, `Complete`, `Measured` — the minutes of a window that have no candle, and what
  the reports should say about them.

Main results:

* `expectedMinutes_eq_iff`, `expectedMinutes_le_iff` — what the subtraction counts;
* `measured_iff` — exactly when the reports are those of the real minutes;
* `resolveCandleRange_le_iff` — exactly when a window is not longer than the limit;
* `real_minutes_iff` — both;
* `repeated_hour_miscounted` — a night in which they fail.
-/

import Brokerage.CsvStore

set_option relaxedAutoImplicit false
set_option autoImplicit false

/-- A datetime and a duration in microseconds: the reading of the clock is moved, and the fold is
dropped.  There are no years but 1 to 9999. -/
def AwareDatetime.add? (d : AwareDatetime) (duration : ℤ) : Option AwareDatetime :=
  if h : monthStart 12 ≤ d.wall + duration ∧ d.wall + duration < monthStart 120000 then
    some ⟨d.zone, d.wall + duration, false, h.1, h.2⟩
  else none

theorem AwareDatetime.add?_eq_some {d e : AwareDatetime} {duration : ℤ}
    (h : d.add? duration = some e) : e.zone = d.zone ∧ e.wall = d.wall + duration := by
  rw [AwareDatetime.add?] at h
  split at h
  · obtain rfl := Option.some.inj h
    exact ⟨rfl, rfl⟩
  · cases h

/-- `int((end - start).total_seconds() / 60)`. -/
def minutesBetween (z : Zones) (start end_ : AwareDatetime) : ℤ :=
  (z.sub end_ start).tdiv minuteMicros

/-- Missing minutes, from a start to an end that is not missing. -/
structure Gap where
  start : AwareDatetime
  end_ : AwareDatetime
  count : ℤ
  deriving DecidableEq

structure ValidationReport where
  start : AwareDatetime
  end_ : AwareDatetime
  actualCount : ℤ
  expectedCount : ℤ
  missingCount : ℤ
  coveragePercent : ℚ
  hasGaps : Bool
  hasDuplicates : Bool
  isSorted : Bool
  gaps : List Gap
  tsStepErrors : ℕ
  duplicateCount : ℤ
  deriving DecidableEq

namespace GapValidator

variable (z : Zones)

/-! ### The validator -/

/-- The gap before the first candle, if it has a full minute. -/
def gapBefore (start : AwareDatetime) (first : Candle) : List Gap :=
  if z.lt start first.timestamp ∧ 0 < minutesBetween z start first.timestamp then
    [⟨start, first.timestamp, minutesBetween z start first.timestamp⟩]
  else []

/-- The gap between two candles; the minute after the first one may not exist. -/
def gapBetween (current next : Candle) : Option (List Gap) :=
  (current.timestamp.add? minuteMicros).map fun expectedNext =>
    if z.lt expectedNext next.timestamp then
      [⟨expectedNext, next.timestamp, minutesBetween z expectedNext next.timestamp⟩]
    else []

/-- The gap after the last candle, if it has a full minute. -/
def gapAfter (last : Candle) (end_ : AwareDatetime) : Option (List Gap) :=
  match end_.add? (-minuteMicros) with
  | none => none
  | some expectedLast =>
      if z.lt last.timestamp expectedLast then
        (last.timestamp.add? minuteMicros).map fun gapStart =>
          if 0 < minutesBetween z gapStart end_ then
            [⟨gapStart, end_, minutesBetween z gapStart end_⟩]
          else []
      else some []

/-- The gaps from a candle on. -/
def gapsFrom (current : Candle) : List Candle → AwareDatetime → Option (List Gap)
  | [], end_ => gapAfter z current end_
  | next :: cs, end_ =>
      match gapBetween z current next, gapsFrom next cs end_ with
      | some gaps, some more => some (gaps ++ more)
      | _, _ => none

/-- All gaps, unless a datetime that is needed does not exist. -/
def findGaps (cs : List Candle) (start end_ : AwareDatetime) : Option (List Gap) :=
  match cs with
  | [] => some [⟨start, end_, minutesBetween z start end_⟩]
  | first :: more => (gapsFrom z first more end_).map fun gaps => gapBefore z start first ++ gaps

/-- The set of some timestamps. -/
def uniqueTimestamps (ts : List AwareDatetime) : List AwareDatetime :=
  ts.foldl (fun seen t => if seen.any fun s => z.eq s t then seen else seen ++ [t]) []

/-- The candles next to each other. -/
def steps (cs : List Candle) : List (Candle × Candle) := cs.zip cs.tail

def validate (cs : List Candle) (start end_ : AwareDatetime) : Option ValidationReport :=
  let expectedCount := minutesBetween z start end_
  match cs with
  | [] => some {
      start := start
      end_ := end_
      actualCount := 0
      expectedCount := expectedCount
      missingCount := expectedCount
      coveragePercent := 0
      hasGaps := true
      hasDuplicates := false
      isSorted := true
      gaps := [⟨start, end_, expectedCount⟩]
      tsStepErrors := 0
      duplicateCount := 0 }
  | first :: more =>
      let cs := first :: more
      let unique := (uniqueTimestamps z (cs.map Candle.timestamp)).length
      (findGaps z cs start end_).map fun gaps => {
        start := start
        end_ := end_
        actualCount := cs.length
        expectedCount := expectedCount
        missingCount := max 0 (expectedCount - cs.length)
        coveragePercent := if 0 < expectedCount then (cs.length : ℚ) / expectedCount * 100 else 0
        hasGaps := !gaps.isEmpty
        hasDuplicates := cs.length ≠ unique
        isSorted := (steps cs).all fun p => !z.le p.2.timestamp p.1.timestamp
        gaps := gaps
        tsStepErrors := (steps cs).countP fun p => z.sub p.2.timestamp p.1.timestamp ≠ minuteMicros
        duplicateCount := cs.length - unique }

/-- One candle is neither a duplicate nor a wrong step. -/
theorem validate_singleton {c : Candle} {start end_ : AwareDatetime} {report : ValidationReport}
    (h : validate z [c] start end_ = some report) :
    report.duplicateCount = 0 ∧ report.tsStepErrors = 0 := by
  obtain ⟨gaps, -, rfl⟩ := Option.map_eq_some_iff.1 h
  exact ⟨rfl, rfl⟩

end GapValidator

/-! ### Ranges and windows -/

variable (z : Zones)

/-- The range of some candles, with the report of the validator. -/
def candlesToCandleRange (cs : List Candle) (start end_ : AwareDatetime) : Option CandleRange :=
  (GapValidator.validate z cs start end_).map fun report =>
    ⟨start, end_, cs, report.missingCount = 0, report.missingCount⟩

/-- The start and the end of the window of a query; the datetimes may not exist. -/
def resolveCandleRange (tz : TimeZone) (end_ : AwareDatetime) (limit : ℤ)
    (sinceEpoch toEpoch : Option ℤ) : Option (AwareDatetime × AwareDatetime) := do
  let end_ ← toEpoch.elim (some end_) tz.fromtimestamp
  let start ← sinceEpoch.elim (end_.add? (-(limit * minuteMicros))) tz.fromtimestamp
  if limit < minutesBetween z start end_ then
    let start ← end_.add? (-(limit * minuteMicros))
    some (start, end_)
  else some (start, end_)

/-! ### Real minutes -/

/-- The instants of the minutes of a window. -/
def minutesOf (start end_ : AwareDatetime) : List ℤ :=
  (List.range ((z.instant end_ - z.instant start) / minuteMicros).toNat).map fun i : ℕ =>
    z.instant start + i * minuteMicros

/-- How many minutes of a window have no candle. -/
noncomputable def missingMinutes (start end_ : AwareDatetime) (cs : List Candle) : ℕ :=
  (minutesOf z start end_).countP (· ∉ cs.map (Candle.instant z))

/-- Every minute of a window has a candle. -/
def Complete (start end_ : AwareDatetime) (cs : List Candle) : Prop :=
  ∀ m, minuteMicros ∣ m → z.instant start ≤ m → m < z.instant end_ → ∃ c ∈ cs, c.instant z = m

/-- A window of full minutes, with candles of different minutes in it. -/
structure IsWindow (start end_ : AwareDatetime) (cs : List Candle) : Prop where
  start_aligned : minuteMicros ∣ z.instant start
  end_aligned : minuteMicros ∣ z.instant end_
  lt : z.instant start < z.instant end_
  aligned : ∀ c ∈ cs, minuteMicros ∣ c.instant z
  start_le : ∀ c ∈ cs, z.instant start ≤ c.instant z
  lt_end : ∀ c ∈ cs, c.instant z < z.instant end_
  nodup : (cs.map (Candle.instant z)).Nodup

/-- Whether a window is complete, and how many minutes are missing, are as they are said to be. -/
def Says (start end_ : AwareDatetime) (cs : List Candle) (isComplete : Bool) (missingCount : ℤ) :
    Prop :=
  (isComplete = true ↔ Complete z start end_ cs) ∧ missingCount = missingMinutes z start end_ cs

/-- The reports on a window are those of its real minutes. -/
structure Measured (start end_ : AwareDatetime) (cs : List Candle) : Prop where
  range : ∀ isComplete missingCount,
    let r := CandleRange.validateCompleteness z ⟨start, end_, cs, isComplete, missingCount⟩
    Says z start end_ cs r.isComplete r.missingCount
  report : ∀ report, GapValidator.validate z cs start end_ = some report →
    Says z start end_ cs (report.missingCount = 0) report.missingCount
  stitched : ∀ r, candlesToCandleRange z cs start end_ = some r →
    Says z start end_ cs r.isComplete r.missingCount

/-- The offset of the zone at the end of a window, less that at its start, in seconds. -/
def offsetChange (start end_ : AwareDatetime) : ℤ := z.utcoffset end_ - z.utcoffset start

/-- The window keeps its minutes: its ends have different zones, or the offset does not grow by a
minute or more, and if it shrinks then no minute is missing. -/
def KeepsMinutes (start end_ : AwareDatetime) (cs : List Candle) : Prop :=
  start.zone ≠ end_.zone ∨ (offsetChange z start end_ < 60 ∧
    (0 ≤ offsetChange z start end_ ∨ Complete z start end_ cs))

variable {z} {start end_ : AwareDatetime} {cs : List Candle}

/-! ### What a subtraction counts -/

theorem sub_of_zone (h : start.zone = end_.zone) :
    z.sub end_ start = z.instant end_ - z.instant start + 1000000 * offsetChange z start end_ := by
  rw [Zones.sub, if_pos h, Zones.instant, Zones.instant, offsetChange]
  ring

/-- A count of minutes that is too large by some seconds counts the full minutes they add. -/
theorem tdiv_minute_of_nonneg {n d : ℤ} (hn : 0 < n) (hd : 0 ≤ d) :
    (n * minuteMicros + 1000000 * d).tdiv minuteMicros = n + d / 60 := by
  rw [minuteMicros, Int.tdiv_eq_ediv_of_nonneg (by omega)]
  omega

/-- A count of minutes that is too small by some seconds is a smaller count. -/
theorem tdiv_minute_lt_of_neg {n d : ℤ} (hn : 0 < n) (hd : d < 0) :
    (n * minuteMicros + 1000000 * d).tdiv minuteMicros < n := by
  rw [minuteMicros]
  by_cases hneg : 0 ≤ n * 60000000 + 1000000 * d
  · rw [Int.tdiv_eq_ediv_of_nonneg hneg]
    omega
  · -- the quotient rounds towards zero, so it is read off the opposite number
    have hpos : 0 ≤ -(n * 60000000 + 1000000 * d) := by omega
    have heq := Int.neg_tdiv (n * 60000000 + 1000000 * d) 60000000
    rw [Int.tdiv_eq_ediv_of_nonneg hpos] at heq
    omega

theorem tdiv_minute_eq_iff {n d : ℤ} (hn : 0 < n) :
    (n * minuteMicros + 1000000 * d).tdiv minuteMicros = n ↔ 0 ≤ d ∧ d < 60 := by
  obtain hd | hd := lt_or_ge d 0
  · have hlt := tdiv_minute_lt_of_neg hn hd
    omega
  · rw [tdiv_minute_of_nonneg hn hd]
    omega

theorem tdiv_minute_le_iff {n d : ℤ} (hn : 0 < n) :
    (n * minuteMicros + 1000000 * d).tdiv minuteMicros ≤ n ↔ d < 60 := by
  obtain hd | hd := lt_or_ge d 0
  · have hlt := tdiv_minute_lt_of_neg hn hd
    omega
  · rw [tdiv_minute_of_nonneg hn hd]
    omega

/-! ### The minutes of a window -/

theorem mem_minutesOf (h : minuteMicros ∣ z.instant start) (hend : minuteMicros ∣ z.instant end_)
    {m : ℤ} : m ∈ minutesOf z start end_ ↔
      minuteMicros ∣ m ∧ z.instant start ≤ m ∧ m < z.instant end_ := by
  obtain ⟨s, hs⟩ := h
  obtain ⟨e, he⟩ := hend
  rw [minutesOf, List.mem_map, hs, he]
  simp only [List.mem_range, minuteMicros]
  constructor
  · rintro ⟨i, hi, rfl⟩
    omega
  · rintro ⟨⟨k, rfl⟩, hle, hlt⟩
    exact ⟨(k - s).toNat, by omega, by omega⟩

theorem nodup_minutesOf : (minutesOf z start end_).Nodup := by
  refine List.Nodup.map (fun i j hij => ?_) List.nodup_range
  rw [minuteMicros] at hij
  omega

/-- The minutes without a candle and the candles make up the minutes. -/
theorem IsWindow.missing_add_length (h : IsWindow z start end_ cs) :
    missingMinutes z start end_ cs + cs.length = (minutesOf z start end_).length := by
  have hmem : ∀ m, m ∈ (minutesOf z start end_).filter (· ∈ cs.map (Candle.instant z)) ↔
      m ∈ cs.map (Candle.instant z) := by
    intro m
    rw [List.mem_filter, mem_minutesOf h.start_aligned h.end_aligned, decide_eq_true_eq]
    refine and_iff_right_of_imp fun hm => ?_
    obtain ⟨c, hc, rfl⟩ := List.mem_map.1 hm
    exact ⟨h.aligned c hc, h.start_le c hc, h.lt_end c hc⟩
  have hperm := (List.perm_ext_iff_of_nodup (nodup_minutesOf.filter _) h.nodup).2 hmem
  have hcount := List.length_eq_countP_add_countP (· ∈ cs.map (Candle.instant z))
    (l := minutesOf z start end_)
  rw [List.countP_eq_length_filter, hperm.length_eq, List.length_map] at hcount
  rw [missingMinutes]
  simp only [decide_eq_true_eq, decide_not] at hcount ⊢
  omega

/-- No minute is missing exactly if the window is complete. -/
theorem IsWindow.missing_eq_zero_iff (h : IsWindow z start end_ cs) :
    missingMinutes z start end_ cs = 0 ↔ Complete z start end_ cs := by
  rw [missingMinutes, List.countP_eq_zero, Complete]
  simp only [decide_eq_true_eq, not_not, mem_minutesOf h.start_aligned h.end_aligned, List.mem_map]
  exact ⟨fun hall m hm hle hlt => hall m ⟨hm, hle, hlt⟩,
    fun hall m ⟨hm, hle, hlt⟩ => hall m hm hle hlt⟩

theorem IsWindow.length_minutesOf (h : IsWindow z start end_ cs) :
    z.instant end_ - z.instant start = (minutesOf z start end_).length * minuteMicros ∧
      0 < ((minutesOf z start end_).length : ℤ) := by
  obtain ⟨s, hs⟩ := h.start_aligned
  obtain ⟨e, he⟩ := h.end_aligned
  have hlt := h.lt
  rw [minutesOf, List.length_map, List.length_range]
  rw [minuteMicros] at hs he ⊢
  omega

/-! ### What the reports say -/

/-- The count of a subtraction is that of the real minutes. -/
theorem IsWindow.minutesBetween_eq_iff (h : IsWindow z start end_ cs) :
    minutesBetween z start end_ = (minutesOf z start end_).length ↔
      start.zone ≠ end_.zone ∨
        (0 ≤ offsetChange z start end_ ∧ offsetChange z start end_ < 60) := by
  obtain ⟨hspan, hpos⟩ := h.length_minutesOf
  rw [minutesBetween]
  by_cases hzone : start.zone = end_.zone
  · rw [sub_of_zone hzone, hspan, tdiv_minute_eq_iff hpos]
    exact (or_iff_right (not_not.2 hzone)).symm
  · rw [Zones.sub, if_neg hzone, hspan]
    exact iff_of_true (Int.mul_tdiv_cancel _ (by decide)) (Or.inl hzone)

theorem IsWindow.minutesBetween_le_iff (h : IsWindow z start end_ cs) :
    minutesBetween z start end_ ≤ (minutesOf z start end_).length ↔
      start.zone ≠ end_.zone ∨ offsetChange z start end_ < 60 := by
  obtain ⟨hspan, hpos⟩ := h.length_minutesOf
  rw [minutesBetween]
  by_cases hzone : start.zone = end_.zone
  · rw [sub_of_zone hzone, hspan, tdiv_minute_le_iff hpos]
    exact (or_iff_right (not_not.2 hzone)).symm
  · rw [Zones.sub, if_neg hzone, hspan]
    exact iff_of_true (Int.mul_tdiv_cancel _ (by decide)).le (Or.inl hzone)

/-- What is missing by the count is what is missing. -/
theorem IsWindow.missing_iff (h : IsWindow z start end_ cs) :
    max 0 (minutesBetween z start end_ - cs.length) = missingMinutes z start end_ cs ↔
      KeepsMinutes z start end_ cs := by
  have hadd := h.missing_add_length
  have hzero := h.missing_eq_zero_iff
  have heq := h.minutesBetween_eq_iff
  have hle := h.minutesBetween_le_iff
  rw [KeepsMinutes, ← hzero]
  by_cases hzone : start.zone = end_.zone
  · simp only [hzone, ne_eq, not_true_eq_false, false_or] at heq hle ⊢
    omega
  · simp only [hzone, ne_eq, not_false_eq_true, true_or, iff_true] at heq hle ⊢
    omega

/-- Without candles the count itself is what is missing. -/
theorem IsWindow.missing_nil_iff (h : IsWindow z start end_ []) :
    minutesBetween z start end_ = missingMinutes z start end_ [] ↔
      KeepsMinutes z start end_ [] := by
  have hpos := h.length_minutesOf.2
  have hadd := h.missing_add_length
  rw [← h.missing_iff]
  rw [List.length_nil] at hadd ⊢
  omega

/-- A number of missing minutes says whether the window is complete. -/
theorem IsWindow.says_iff (h : IsWindow z start end_ cs) {missingCount : ℤ} :
    Says z start end_ cs (missingCount = 0) missingCount ↔
      missingCount = missingMinutes z start end_ cs := by
  rw [Says, decide_eq_true_eq, and_iff_right_of_imp]
  intro heq
  rw [heq, ← h.missing_eq_zero_iff, Int.natCast_eq_zero]

/-- The validator says how many minutes are missing by the count. -/
theorem IsWindow.report_iff (h : IsWindow z start end_ cs) {report : ValidationReport}
    (hreport : GapValidator.validate z cs start end_ = some report) :
    report.missingCount = missingMinutes z start end_ cs ↔ KeepsMinutes z start end_ cs := by
  cases cs with
  | nil =>
      obtain rfl := Option.some.inj hreport
      exact h.missing_nil_iff
  | cons first more =>
      obtain ⟨gaps, -, rfl⟩ := Option.map_eq_some_iff.1 hreport
      exact h.missing_iff

/-- The reports are those of the real minutes, if and only if the window keeps its minutes. -/
theorem measured_iff (h : IsWindow z start end_ cs) :
    Measured z start end_ cs ↔ KeepsMinutes z start end_ cs := by
  constructor
  · intro hmeasured
    exact h.missing_iff.1 (hmeasured.range true 0).2
  · intro hkeeps
    refine ⟨fun isComplete missingCount => h.says_iff.2 (h.missing_iff.2 hkeeps),
      fun report hreport => h.says_iff.2 ((h.report_iff hreport).2 hkeeps), fun r hr => ?_⟩
    obtain ⟨report, hreport, rfl⟩ := Option.map_eq_some_iff.1 hr
    exact h.says_iff.2 ((h.report_iff hreport).2 hkeeps)

/-! ### The window of a query -/

variable (z) in
/-- The window of a query is not longer than its limit: a start that is given and kept is not
further from the end, and at a start that is found from the end the offset is not larger than at
the end. -/
def FitsLimit (limit : ℤ) (since : Option AwareDatetime) (end_ : AwareDatetime) : Prop :=
  (∀ b ∈ since, minutesBetween z b end_ ≤ limit →
      z.instant end_ - z.instant b ≤ limit * minuteMicros) ∧
    ((∀ b ∈ since, limit < minutesBetween z b end_) →
      ∀ s ∈ end_.add? (-(limit * minuteMicros)), z.utcoffset s ≤ z.utcoffset end_)

/-- A start that is found from the end is the limit before it, by the clock. -/
theorem minutesBetween_add? {limit : ℤ} (h : end_.add? (-(limit * minuteMicros)) = some start) :
    minutesBetween z start end_ = limit ∧
      (z.instant end_ - z.instant start ≤ limit * minuteMicros ↔
        z.utcoffset start ≤ z.utcoffset end_) := by
  obtain ⟨hzone, hwall⟩ := AwareDatetime.add?_eq_some h
  have hsub : z.sub end_ start = limit * minuteMicros := by
    rw [Zones.sub, if_pos hzone, hwall]
    ring
  have hspan := sub_of_zone (z := z) hzone
  rw [hsub, offsetChange] at hspan
  refine ⟨?_, by omega⟩
  rw [minutesBetween, hsub]
  exact Int.mul_tdiv_cancel _ (by decide)

/-- Where the window of a query starts. -/
theorem resolveCandleRange_start {tz : TimeZone} {e : AwareDatetime} {limit : ℤ}
    {sinceEpoch toEpoch : Option ℤ}
    (h : resolveCandleRange z tz e limit sinceEpoch toEpoch = some (start, end_)) :
    (∃ epoch b, sinceEpoch = some epoch ∧ tz.fromtimestamp epoch = some b ∧
      (if limit < minutesBetween z b end_ then end_.add? (-(limit * minuteMicros)) = some start
        else start = b)) ∨
    (sinceEpoch = none ∧ end_.add? (-(limit * minuteMicros)) = some start) := by
  rw [resolveCandleRange] at h
  obtain ⟨e', -, hend⟩ := Option.bind_eq_some_iff.1 h
  clear h
  cases sinceEpoch with
  | none =>
      refine Or.inr ⟨rfl, ?_⟩
      obtain ⟨b, hb, hresult⟩ := Option.bind_eq_some_iff.1 hend
      rw [Option.elim_none] at hb
      rw [if_neg (minutesBetween_add? hb).1.not_gt] at hresult
      obtain ⟨rfl, rfl⟩ := Prod.mk.inj (Option.some.inj hresult)
      exact hb
  | some epoch =>
      obtain ⟨b, hb, hresult⟩ := Option.bind_eq_some_iff.1 hend
      refine Or.inl ⟨epoch, b, rfl, hb, ?_⟩
      -- the start is moved if `since` is more than `limit` minutes back
      split at hresult
      · rename_i hlt
        obtain ⟨s, hs, hpair⟩ := Option.bind_eq_some_iff.1 hresult
        obtain ⟨rfl, rfl⟩ := Prod.mk.inj (Option.some.inj hpair)
        rw [if_pos hlt]
        exact hs
      · rename_i hle
        obtain ⟨rfl, rfl⟩ := Prod.mk.inj (Option.some.inj hresult)
        rw [if_neg hle]

/-- The window of a query is not longer than its limit, if and only if the condition says so. -/
theorem resolveCandleRange_le_iff {tz : TimeZone} {e : AwareDatetime} {limit : ℤ}
    {sinceEpoch toEpoch : Option ℤ}
    (h : resolveCandleRange z tz e limit sinceEpoch toEpoch = some (start, end_)) :
    z.instant end_ - z.instant start ≤ limit * minuteMicros ↔
      FitsLimit z limit (sinceEpoch.bind tz.fromtimestamp) end_ := by
  rcases resolveCandleRange_start h with ⟨epoch, b, rfl, hb, hstart⟩ | ⟨rfl, hstart⟩
  · rw [Option.bind_some, hb, FitsLimit]
    simp only [Option.mem_some_iff, forall_eq']
    split at hstart
    · rename_i hlt
      rw [(minutesBetween_add? hstart).2, hstart]
      simp [hlt, hlt.not_ge]
    · rename_i hle
      rw [hstart]
      simp [hle, not_lt.1 hle]
  · rw [Option.bind_none, FitsLimit, (minutesBetween_add? hstart).2, hstart]
    simp

/-! ### Real minutes, and a night with a repeated hour -/

/-- The reports on a window are those of its real minutes, if and only if it keeps its minutes; and
the window of a query is not longer than its limit, if and only if it fits. -/
theorem real_minutes_iff (z : Zones) (tz : TimeZone) :
    (∀ start end_ cs, IsWindow z start end_ cs →
      (Measured z start end_ cs ↔ KeepsMinutes z start end_ cs)) ∧
    (∀ e limit sinceEpoch toEpoch start end_,
      resolveCandleRange z tz e limit sinceEpoch toEpoch = some (start, end_) →
      (z.instant end_ - z.instant start ≤ limit * minuteMicros ↔
        FitsLimit z limit (sinceEpoch.bind tz.fromtimestamp) end_)) :=
  ⟨fun _ _ _ h => measured_iff h, fun _ _ _ _ _ _ h => resolveCandleRange_le_iff h⟩

/-- Half past midnight, before the clock goes back. -/
def midnightBefore : AwareDatetime :=
  ⟨.newYork, 1730593800000000, false, by decide +kernel, by decide +kernel⟩

/-- Half past two, after the clock went back. -/
def nightAfter : AwareDatetime :=
  ⟨.newYork, 1730601000000000, false, by decide +kernel, by decide +kernel⟩

theorem isWindow_night : IsWindow Zones.fallBack midnightBefore nightAfter [] where
  start_aligned := by decide
  end_aligned := by decide
  lt := by decide
  aligned _ hc := by cases hc
  start_le _ hc := by cases hc
  lt_end _ hc := by cases hc
  nodup := List.nodup_nil

theorem resolveCandleRange_night :
    resolveCandleRange Zones.fallBack .fallBack nightAfter 120 none none =
      some (midnightBefore, nightAfter) := by
  decide +kernel

theorem real_minutes_iff_night :
    (Measured Zones.fallBack midnightBefore nightAfter [] ↔
      KeepsMinutes Zones.fallBack midnightBefore nightAfter []) ∧
    (Zones.fallBack.instant nightAfter - Zones.fallBack.instant midnightBefore ≤
      120 * minuteMicros ↔ FitsLimit Zones.fallBack 120 none nightAfter) :=
  ⟨(real_minutes_iff _ .fallBack).1 _ _ _ isWindow_night,
    (real_minutes_iff _ .fallBack).2 _ _ _ _ _ _ resolveCandleRange_night⟩

/-- Three hours are counted as two: of 180 missing minutes 120 are reported, and the window of 120
minutes has 180. -/
theorem repeated_hour_miscounted :
    IsWindow Zones.fallBack midnightBefore nightAfter [] ∧
    missingMinutes Zones.fallBack midnightBefore nightAfter [] = 180 ∧
    (CandleRange.validateCompleteness Zones.fallBack
      ⟨midnightBefore, nightAfter, [], true, 0⟩).missingCount = 120 ∧
    (GapValidator.validate Zones.fallBack [] midnightBefore nightAfter).map
      ValidationReport.missingCount = some 120 ∧
    ¬ Measured Zones.fallBack midnightBefore nightAfter [] ∧
    resolveCandleRange Zones.fallBack .fallBack nightAfter 120 none none =
      some (midnightBefore, nightAfter) ∧
    Zones.fallBack.instant nightAfter - Zones.fallBack.instant midnightBefore =
      180 * minuteMicros := by
  have hmissing : missingMinutes Zones.fallBack midnightBefore nightAfter [] = 180 := by
    decide +kernel
  have hcount : (CandleRange.validateCompleteness Zones.fallBack
      ⟨midnightBefore, nightAfter, [], true, 0⟩).missingCount = 120 := by
    decide
  refine ⟨isWindow_night, hmissing, hcount, by decide, fun h => ?_,
    resolveCandleRange_night, by decide⟩
  have hsays := (h.range true 0).2
  rw [hcount, hmissing] at hsays
  exact absurd hsays (by decide)
