/-
**Candles of a range from the files of its days.**

The feed has a file of candles for each day.  The days that are fetched are those between the two
dates as they are written, each in its own zone, and the day of the end is never one of them; what is
fetched is then cut to the instants of the range.  So the candles of the last day are lost unless the
end is at midnight, and days are lost or fetched in vain where the zone is another one.

Main definitions:

* `Bi5Range.decodeBi5M1`, `Bi5Range.fetchM1Range` — the candles of a file, and of some days;
* `Bi5Range.fetchOhlcv` — the candles of a range;
* `Bi5Range.available` — the candles that the feed has in a range;
* `Bi5Range.Covered` — the days that are fetched, and the seconds of the bounds, are the right ones.

Main results:

* `Bi5Range.available_append` — ranges that follow one another;
* `Bi5Range.returns_iff` — when a range is returned as a whole.
-/

import Brokerage.Bi5Ticks
import Brokerage.StableSort

set_option relaxedAutoImplicit false
set_option autoImplicit false

namespace Bi5Range

open StableSort

/-! ### Files -/

/-- A candle of a file. -/
structure M1Row where
  tsUtc : ℤ
  open_ : ℚ
  high : ℚ
  low : ℚ
  close : ℚ
  vol : ℚ
  deriving DecidableEq

/-- The bytes of a record. -/
def RECORD_SIZE_M1 : ℕ := 24

/-- The candles of a file that was decompressed, the volume being read by the function that is given.
Records without prices are left out. -/
def decodeBi5M1 (volumeOf : List UInt8 → ℚ) (scale : ℚ) (decompressed : List UInt8)
    (dayEpochUtc : ℤ) : List M1Row :=
  (List.range (decompressed.length / RECORD_SIZE_M1)).filterMap fun i =>
    let chunk := (decompressed.drop (i * RECORD_SIZE_M1)).take RECORD_SIZE_M1
    let field := fun k => Bi5Ticks.bigEndian ((chunk.drop (4 * k)).take 4)
    if field 1 = 0 ∧ field 2 = 0 then none
    else
      some
        { tsUtc := dayEpochUtc + field 0
          open_ := field 1 / scale
          high := field 2 / scale
          low := field 3 / scale
          close := field 4 / scale
          vol := volumeOf ((chunk.drop 20).take 4) }

/-- What a source of candles has: the files by their days, how they are decompressed, and how their
volumes are read. -/
structure Feed where
  file : ℤ → Option (List UInt8)
  decompress : List UInt8 → Option (List UInt8)
  volumeOf : List UInt8 → ℚ

variable (feed : Feed) (scale : ℚ)

/-- The candles of a day. -/
def fetchM1Day (day : ℤ) : List M1Row :=
  match feed.file day with
  | none => []
  | some raw =>
      if raw.length < 5 then []
      else
        match feed.decompress raw with
        | none => []
        | some decompressed => decodeBi5M1 feed.volumeOf scale decompressed (86400 * day)

/-- The candles of some days. -/
def m1Days : ℕ → ℤ → List M1Row
  | 0, _ => []
  | n + 1, current => fetchM1Day feed scale current ++ m1Days n (current + 1)

/-- The candles of the days from one to another, which is left out. -/
def fetchM1Range (from_ to_ : ℤ) : List M1Row :=
  sortBy M1Row.tsUtc (m1Days feed scale (to_ - from_).toNat from_)

/-! ### Ranges -/

/-- The date as it is written by `strftime("%Y-%m-%d")`, and read again: a year of less than four
digits is not. -/
def writtenDate (d : AwareDatetime) : Option ℤ :=
  if 1000 ≤ d.month / 12 then some (d.wall / dayMicros) else none

/-- The candle of a row. -/
def toCandle (r : M1Row) : Option Candle := do
  let timestamp ← utcFromTimestamp (1000000 * r.tsUtc)
  let ohlcv ← Ohlcv.new?
    ⟨r.open_, max (max r.open_ r.high) r.close, min (min r.open_ r.low) r.close, r.close⟩ r.vol
  pure ⟨timestamp, ohlcv, true⟩

/-- The candles of the rows that are in a range of seconds. -/
def toCandles (startTs endTs : ℤ) : List M1Row → Option (List Candle)
  | [] => some []
  | r :: rows =>
      if r.tsUtc < startTs ∨ endTs ≤ r.tsUtc then toCandles startTs endTs rows
      else do
        let candle ← toCandle r
        let candles ← toCandles startTs endTs rows
        pure (candle :: candles)

/-- The candles of a range; nothing if it raises. -/
def fetchOhlcv (z : Zones) (start end_ : AwareDatetime) : Option (List Candle) := do
  let fromDate ← writtenDate start
  let toDate ← writtenDate end_
  toCandles ((z.instant start).tdiv 1000000) ((z.instant end_).tdiv 1000000)
    (fetchM1Range feed scale fromDate toDate)

/-! ### What is to be returned -/

/-- The day of a row. -/
def M1Row.day (r : M1Row) : ℤ := r.tsUtc / 86400

/-- The instant of a row, in microseconds. -/
def M1Row.instant (r : M1Row) : ℤ := 1000000 * r.tsUtc

/-- The file of a day has candles of that day, and no negative volumes. -/
structure InDays : Prop where
  day : ∀ day, ∀ r ∈ fetchM1Day feed scale day, r.day = day
  vol : ∀ day, ∀ r ∈ fetchM1Day feed scale day, 0 ≤ r.vol

/-- The candles that there are between two instants, in order. -/
def available (lo hi : ℤ) : List M1Row :=
  within M1Row.instant lo hi (sortBy M1Row.tsUtc
    (m1Days feed scale (hi / dayMicros + 1 - lo / dayMicros).toNat (lo / dayMicros)))

/-- The candle that a row stands for. -/
structure IsCandleOf (r : M1Row) (c : Candle) : Prop where
  timestamp : utcFromTimestamp r.instant = some c.timestamp
  bar : c.ohlcv.bar =
    ⟨r.open_, max (max r.open_ r.high) r.close, min (min r.open_ r.low) r.close, r.close⟩
  volume : c.ohlcv.volume = r.vol
  isClosed : c.isClosed = true

/-- The range is returned with all the candles that there are. -/
def Returns (z : Zones) (start end_ : AwareDatetime) : Prop :=
  ∃ candles, fetchOhlcv feed scale z start end_ = some candles ∧
    List.Forall₂ IsCandleOf (available feed scale (z.instant start) (z.instant end_)) candles

/-- The years are written with four digits; every candle of the range is on one of the days that are
fetched, and not at the second to which the end is rounded; and there is no candle on these days at
the second to which a later start is rounded. -/
structure Covered (z : Zones) (start end_ : AwareDatetime) : Prop where
  start_year : 1000 ≤ start.month / 12
  end_year : 1000 ≤ end_.month / 12
  days : ∀ day, ∀ r ∈ fetchM1Day feed scale day, z.instant start ≤ r.instant →
    r.instant < z.instant end_ → start.wall / dayMicros ≤ day ∧ day < end_.wall / dayMicros ∧
      r.tsUtc ≠ (z.instant end_).tdiv 1000000
  seconds : ∀ day, ∀ r ∈ fetchM1Day feed scale day, r.tsUtc = (z.instant start).tdiv 1000000 →
    r.instant < z.instant start → start.wall / dayMicros ≤ day → day < end_.wall / dayMicros →
      (z.instant end_).tdiv 1000000 ≤ r.tsUtc

variable {feed scale}

/-! ### Days -/

theorem mem_m1Days (h : InDays feed scale) {n : ℕ} {current : ℤ} {r : M1Row} :
    r ∈ m1Days feed scale n current ↔
      (current ≤ r.day ∧ r.day < current + n) ∧ r ∈ fetchM1Day feed scale r.day := by
  induction n generalizing current with
  | zero =>
      refine iff_of_false List.not_mem_nil ?_
      omega
  | succ n ih =>
      rw [m1Days, List.mem_append, ih]
      constructor
      · rintro (hr | ⟨hday, hr⟩)
        · have hday := h.day _ r hr
          exact ⟨by omega, hday ▸ hr⟩
        · exact ⟨by omega, hr⟩
      · rintro ⟨hday, hr⟩
        by_cases heq : r.day = current
        · exact .inl (heq ▸ hr)
        · exact .inr ⟨by omega, hr⟩

theorem m1Days_add (k n : ℕ) (current : ℤ) :
    m1Days feed scale (k + n) current =
      m1Days feed scale k current ++ m1Days feed scale n (current + k) := by
  induction k generalizing current with
  | zero => rw [Nat.zero_add, m1Days, List.nil_append, Nat.cast_zero, add_zero]
  | succ k ih =>
      rw [Nat.succ_add, m1Days, ih, m1Days, List.append_assoc, Nat.cast_succ, add_assoc,
        add_comm (1 : ℤ)]

/-- The rows of later days come later. -/
theorem sortBy_m1Days_add (h : InDays feed scale) (k n : ℕ) (current : ℤ) :
    sortBy M1Row.tsUtc (m1Days feed scale (k + n) current) =
      sortBy M1Row.tsUtc (m1Days feed scale k current) ++
        sortBy M1Row.tsUtc (m1Days feed scale n (current + k)) := by
  rw [m1Days_add, sortBy_append]
  intro a ha b hb
  have ha := ((mem_m1Days h).1 ha).1
  have hb := ((mem_m1Days h).1 hb).1
  simp only [M1Row.day] at ha hb
  omega

/-- More days add nothing to what lies on some of them. -/
theorem filter_widen (h : InDays feed scale) {p : M1Row → Bool} {n N : ℕ} {current lo : ℤ}
    (hp : ∀ r, p r = true → current ≤ r.day ∧ r.day < current + n) (hlo : lo ≤ current)
    (hhi : current + n ≤ lo + N) :
    (sortBy M1Row.tsUtc (m1Days feed scale N lo)).filter p =
      (sortBy M1Row.tsUtc (m1Days feed scale n current)).filter p := by
  obtain ⟨k, hk⟩ := Int.eq_ofNat_of_zero_le (sub_nonneg.2 hlo)
  obtain ⟨l, rfl⟩ := Nat.exists_eq_add_of_le (show k + n ≤ N by omega)
  have hcurrent : lo + k = current := by omega
  have hnil : ∀ m c, (∀ r ∈ m1Days feed scale m c, ¬ (current ≤ r.day ∧ r.day < current + n)) →
      (sortBy M1Row.tsUtc (m1Days feed scale m c)).filter p = [] := fun m c hm =>
    List.filter_eq_nil_iff.2 fun r hr hpr => hm r (mem_sortBy.1 hr) (hp r hpr)
  rw [Nat.add_assoc, sortBy_m1Days_add h, sortBy_m1Days_add h, hcurrent, List.filter_append,
    List.filter_append, hnil k lo, hnil l (current + n), List.nil_append, List.append_nil]
  · intro r hr
    have := ((mem_m1Days h).1 hr).1
    omega
  · intro r hr
    have := ((mem_m1Days h).1 hr).1
    omega

/-- The available candles can be found on any days that are enough. -/
theorem available_eq (h : InDays feed scale) {lo hi first : ℤ} {n : ℕ} (hlo : first ≤ lo / dayMicros)
    (hhi : hi / dayMicros < first + n) (hle : lo ≤ hi) :
    available feed scale lo hi =
      within M1Row.instant lo hi (sortBy M1Row.tsUtc (m1Days feed scale n first)) := by
  rw [dayMicros] at hlo hhi
  rw [available, dayMicros]
  refine (filter_widen h (fun r hr => ?_) hlo ?_).symm
  · have hr := of_decide_eq_true hr
    simp only [M1Row.instant, M1Row.day] at hr ⊢
    omega
  · omega

/-- The candles of two ranges, one after the other, are those of both. -/
theorem available_append (h : InDays feed scale) {lo mid hi : ℤ} (hlo : lo ≤ mid) (hhi : mid ≤ hi) :
    available feed scale lo hi = available feed scale lo mid ++ available feed scale mid hi := by
  have hfirst : lo / dayMicros ≤ mid / dayMicros := Int.ediv_le_ediv (by decide) hlo
  have hlast : mid / dayMicros ≤ hi / dayMicros := Int.ediv_le_ediv (by decide) hhi
  let n := (hi / dayMicros + 1 - lo / dayMicros).toNat
  have hsorted : (sortBy M1Row.tsUtc (m1Days feed scale n (lo / dayMicros))).Pairwise
      (M1Row.instant · ≤ M1Row.instant ·) :=
    (pairwise_sortBy _).imp fun {r r'} (h : r.tsUtc ≤ r'.tsUtc) => by
      rw [M1Row.instant, M1Row.instant]
      omega
  have hn : (n : ℤ) = hi / dayMicros + 1 - lo / dayMicros := by omega
  rw [available_eq h le_rfl (show hi / dayMicros < lo / dayMicros + n by omega) (hlo.trans hhi),
    available_eq h le_rfl (show mid / dayMicros < lo / dayMicros + n by omega) hlo,
    available_eq h hfirst
      (show hi / dayMicros < lo / dayMicros + n by omega) hhi,
    within_split hsorted hlo hhi]

/-! ### Which ranges are returned -/

theorem new?_bar (v : Ohlcv) : Ohlcv.new? v.bar v.volume = some v :=
  dif_pos ⟨v.low_le_high, ⟨v.low_le_open, v.open_le_high⟩, ⟨v.low_le_close, v.close_le_high⟩,
    v.volume_nonneg⟩

theorem toCandle_eq_some_iff {r : M1Row} {c : Candle} : toCandle r = some c ↔ IsCandleOf r c := by
  constructor
  · intro h
    obtain ⟨timestamp, htime, h⟩ := Option.bind_eq_some_iff.1 h
    obtain ⟨ohlcv, hohlcv, h⟩ := Option.bind_eq_some_iff.1 h
    obtain rfl := Option.some.inj h
    exact ⟨htime, (Ohlcv.new?_eq_some hohlcv).1, (Ohlcv.new?_eq_some hohlcv).2, rfl⟩
  · intro h
    have htime : utcFromTimestamp (1000000 * r.tsUtc) = some c.timestamp := h.timestamp
    rw [toCandle, htime, ← h.bar, ← h.volume, new?_bar, Option.bind_eq_bind, Option.bind_some,
      Option.bind_eq_bind, Option.bind_some, ← h.isClosed]
    rfl

/-- The candles of rows are determined by them. -/
theorem forall₂_unique {rows : List M1Row} {cs cs' : List Candle}
    (h : List.Forall₂ IsCandleOf rows cs) (h' : List.Forall₂ IsCandleOf rows cs') : cs = cs' := by
  induction h generalizing cs' with
  | nil => exact (List.forall₂_nil_left_iff.1 h').symm
  | cons hc _ ih =>
      obtain ⟨c', cs'', hc', hcs'', rfl⟩ := List.forall₂_cons_left_iff.1 h'
      have heq := (toCandle_eq_some_iff.2 hc).symm.trans (toCandle_eq_some_iff.2 hc')
      rw [Option.some.inj heq, ih hcs'']

/-- Every row of the range has a candle, in order. -/
theorem toCandles_eq_some_iff {startTs endTs : ℤ} {rows : List M1Row} {cs : List Candle} :
    toCandles startTs endTs rows = some cs ↔
      List.Forall₂ IsCandleOf (within M1Row.tsUtc startTs endTs rows) cs := by
  induction rows generalizing cs with
  | nil =>
      rw [toCandles, within, List.filter_nil, List.forall₂_nil_left_iff, Option.some.injEq, eq_comm]
  | cons r rows ih =>
      rw [toCandles, within_cons]
      by_cases hout : r.tsUtc < startTs ∨ endTs ≤ r.tsUtc
      · rw [if_pos hout, if_neg (by omega), ih]
      · rw [if_neg hout, if_pos (by omega)]
        constructor
        · intro h
          obtain ⟨c, hc, h⟩ := Option.bind_eq_some_iff.1 h
          obtain ⟨cs', hcs', h⟩ := Option.bind_eq_some_iff.1 h
          obtain rfl := Option.some.inj h
          exact .cons (toCandle_eq_some_iff.1 hc) (ih.1 hcs')
        · intro h
          obtain ⟨c, cs', hc, hcs', rfl⟩ := List.forall₂_cons_left_iff.1 h
          rw [toCandle_eq_some_iff.2 hc, ih.2 hcs']
          rfl

/-- A row with a candle is known by the candle's instant. -/
theorem map_instant_of_forall₂ {rows : List M1Row} {cs : List Candle}
    (h : List.Forall₂ IsCandleOf rows cs) :
    rows.map M1Row.instant = cs.map fun c => c.timestamp.wall := by
  induction h with
  | nil => rfl
  | cons hc _ ih =>
      rw [List.map_cons, List.map_cons, ih, (utcFromTimestamp_eq_some hc.timestamp).2.1]

section

variable {z : Zones} {start end_ : AwareDatetime}

/-- The rows that are returned. -/
def returned (feed : Feed) (scale : ℚ) (z : Zones) (start end_ : AwareDatetime) : List M1Row :=
  within M1Row.tsUtc ((z.instant start).tdiv 1000000) ((z.instant end_).tdiv 1000000)
    (fetchM1Range feed scale (start.wall / dayMicros) (end_.wall / dayMicros))

theorem fetchOhlcv_eq_some_iff {cs : List Candle} :
    fetchOhlcv feed scale z start end_ = some cs ↔
      (1000 ≤ start.month / 12 ∧ 1000 ≤ end_.month / 12) ∧
        List.Forall₂ IsCandleOf (returned feed scale z start end_) cs := by
  rw [fetchOhlcv, writtenDate, writtenDate]
  by_cases hs : 1000 ≤ start.month / 12
  · by_cases he : 1000 ≤ end_.month / 12
    · rw [if_pos hs, if_pos he, and_iff_right ⟨hs, he⟩]
      exact toCandles_eq_some_iff
    · rw [if_pos hs, if_neg he]
      exact iff_of_false nofun fun h => he h.1.2
  · rw [if_neg hs]
    exact iff_of_false nofun fun h => hs h.1.1

theorem mem_returned (h : InDays feed scale) {r : M1Row} :
    r ∈ returned feed scale z start end_ ↔
      r ∈ fetchM1Day feed scale r.day ∧
        (start.wall / dayMicros ≤ r.day ∧ r.day < end_.wall / dayMicros) ∧
        (z.instant start).tdiv 1000000 ≤ r.tsUtc ∧ r.tsUtc < (z.instant end_).tdiv 1000000 := by
  rw [returned, mem_within, fetchM1Range, mem_sortBy, mem_m1Days h, and_comm (b := r ∈ _), and_assoc]
  refine and_congr_right' (and_congr_left' ?_)
  omega

theorem mem_available (h : InDays feed scale) {lo hi : ℤ} {r : M1Row} :
    r ∈ available feed scale lo hi ↔
      r ∈ fetchM1Day feed scale r.day ∧ lo ≤ r.instant ∧ r.instant < hi := by
  rw [available, mem_within, mem_sortBy, mem_m1Days h, dayMicros]
  refine and_congr_left fun hin => and_iff_right_of_imp fun _ => ?_
  simp only [M1Row.instant, M1Row.day] at hin ⊢
  omega

/-- The rows that are returned are the available ones if the range is covered. -/
theorem returned_eq (h : InDays feed scale) (hle : z.instant start ≤ z.instant end_)
    (hc : Covered feed scale z start end_) :
    returned feed scale z start end_ =
      available feed scale (z.instant start) (z.instant end_) := by
  -- both lists are cut out of the rows of enough days
  let first := min (start.wall / dayMicros) (z.instant start / dayMicros)
  let last := max (max (start.wall / dayMicros) (end_.wall / dayMicros))
    (z.instant end_ / dayMicros + 1)
  let p : M1Row → Bool := fun r =>
    (start.wall / dayMicros ≤ r.day ∧ r.day < end_.wall / dayMicros) ∧
      (z.instant start).tdiv 1000000 ≤ r.tsUtc ∧ r.tsUtc < (z.instant end_).tdiv 1000000
  have hwide : returned feed scale z start end_ =
      (sortBy M1Row.tsUtc (m1Days feed scale (last - first).toNat first)).filter p := by
    have hnarrow : (sortBy M1Row.tsUtc (m1Days feed scale (last - first).toNat first)).filter p =
        (fetchM1Range feed scale (start.wall / dayMicros) (end_.wall / dayMicros)).filter p :=
      filter_widen h (fun r hr => by have := of_decide_eq_true hr; omega) (by omega) (by omega)
    rw [hnarrow]
    refine List.filter_congr fun r hr => ?_
    have hday := ((mem_m1Days h).1 (mem_sortBy.1 hr)).1
    rw [decide_eq_decide]
    omega
  rw [hwide, available_eq h (show first ≤ _ by omega)
    (show z.instant end_ / dayMicros < first + (last - first).toNat by omega) hle]
  refine List.filter_congr fun r hr => ?_
  have hmem := ((mem_m1Days h).1 (mem_sortBy.1 hr)).2
  have hdays := hc.days r.day r hmem
  have hseconds := hc.seconds r.day r hmem
  have hinstant : r.instant = 1000000 * r.tsUtc := rfl
  have hstart := tdiv_cases (z.instant start)
  have hend := tdiv_cases (z.instant end_)
  rw [decide_eq_decide]
  constructor
  · rintro ⟨hday, hlo, hhi⟩
    refine ⟨not_lt.1 fun hlt => ?_, by omega⟩
    -- only the second to which the start is rounded can come before it
    have heq : r.tsUtc = (z.instant start).tdiv 1000000 := by omega
    exact absurd (hseconds heq hlt hday.1 hday.2) (not_le.2 hhi)
  · rintro ⟨hlo, hhi⟩
    obtain ⟨hfrom, hto, hne⟩ := hdays hlo hhi
    exact ⟨⟨hfrom, hto⟩, by omega, by omega⟩

/-- What is returned can be made into candles. -/
theorem exists_candles (h : InDays feed scale) :
    ∃ cs, List.Forall₂ IsCandleOf (returned feed scale z start end_) cs := by
  have hall : ∀ r ∈ returned feed scale z start end_, ∃ c, IsCandleOf r c := by
    intro r hr
    obtain ⟨hmem, hday, -⟩ := (mem_returned h).1 hr
    have hmin := start.minyear
    have hmax := end_.maxyear
    have hfirst : monthStart 12 = dayMicros * daysBefore 12 := by rw [monthStart]
    have hlast : monthStart 120000 = dayMicros * daysBefore 120000 := by rw [monthStart]
    rw [hfirst, dayMicros] at hmin
    rw [hlast, dayMicros] at hmax
    have hrange : monthStart 12 ≤ r.instant ∧ r.instant < monthStart 120000 := by
      rw [hfirst, hlast, dayMicros]
      rw [dayMicros] at hday
      simp only [M1Row.day, M1Row.instant] at hday ⊢
      omega
    have hnew : ∃ v, Ohlcv.new?
        ⟨r.open_, max (max r.open_ r.high) r.close, min (min r.open_ r.low) r.close, r.close⟩
        r.vol = some v := by
      refine ⟨_, dif_pos ⟨?_, ⟨?_, ?_⟩, ⟨?_, ?_⟩, h.vol _ r hmem⟩⟩
      · exact (min_le_right _ _).trans (le_max_right _ _)
      · exact (min_le_left _ _).trans (min_le_left _ _)
      · exact (le_max_left _ _).trans (le_max_left _ _)
      · exact min_le_right _ _
      · exact le_max_right _ _
    obtain ⟨v, hv⟩ := hnew
    exact ⟨⟨_, v, true⟩, dif_pos hrange, (Ohlcv.new?_eq_some hv).1, (Ohlcv.new?_eq_some hv).2, rfl⟩
  generalize returned feed scale z start end_ = rows at hall
  induction rows with
  | nil => exact ⟨[], .nil⟩
  | cons r rows ih =>
      obtain ⟨c, hc⟩ := hall r List.mem_cons_self
      obtain ⟨cs, hcs⟩ := ih fun r' hr' => hall r' (List.mem_cons_of_mem _ hr')
      exact ⟨c :: cs, .cons hc hcs⟩

/-- A range that is returned as a whole is covered. -/
theorem covered_of_returns (h : InDays feed scale) (hr : Returns feed scale z start end_) :
    Covered feed scale z start end_ := by
  obtain ⟨cs, hfetch, havailable⟩ := hr
  obtain ⟨hyears, hreturned⟩ := fetchOhlcv_eq_some_iff.1 hfetch
  -- both lists have the instants of the same candles
  have hinstants : (returned feed scale z start end_).map M1Row.instant =
      (available feed scale (z.instant start) (z.instant end_)).map M1Row.instant :=
    (map_instant_of_forall₂ hreturned).trans (map_instant_of_forall₂ havailable).symm
  have hts : ∀ {r r' : M1Row}, r.instant = r'.instant → r.tsUtc = r'.tsUtc := by
    intro r r' heq
    simp only [M1Row.instant] at heq
    omega
  refine ⟨hyears.1, hyears.2, fun day r hmem hlo hhi => ?_, fun day r hmem heq hlt hfrom hto => ?_⟩
  · obtain rfl := h.day day r hmem
    have havail : r.instant ∈ (returned feed scale z start end_).map M1Row.instant :=
      hinstants ▸ List.mem_map_of_mem ((mem_available h).2 ⟨hmem, hlo, hhi⟩)
    obtain ⟨r', hr', heq⟩ := List.mem_map.1 havail
    obtain ⟨-, hday, -, hend⟩ := (mem_returned h).1 hr'
    rw [M1Row.day, hts heq] at hday
    rw [hts heq] at hend
    exact ⟨hday.1, hday.2, hend.ne⟩
  · obtain rfl := h.day day r hmem
    by_contra hend
    have hret : r.instant ∈
        (available feed scale (z.instant start) (z.instant end_)).map M1Row.instant :=
      hinstants ▸ List.mem_map_of_mem
        ((mem_returned h).2 ⟨hmem, ⟨hfrom, hto⟩, heq.ge, not_le.1 hend⟩)
    obtain ⟨r', hr', heq'⟩ := List.mem_map.1 hret
    have hlo := ((mem_available h).1 hr').2.1
    omega

end

/-- A range is returned with exactly the candles that there are, in order, if and only if it is
covered; and where two ranges that follow one another and the whole one are covered, the candles of
the whole one are those of the first and then those of the second. -/
theorem returns_iff (feed : Feed) (scale : ℚ) (h : InDays feed scale) (z : Zones) :
    (∀ start end_, z.instant start ≤ z.instant end_ →
      (Returns feed scale z start end_ ↔ Covered feed scale z start end_)) ∧
    ∀ start mid end_, z.instant start ≤ z.instant mid → z.instant mid ≤ z.instant end_ →
      Covered feed scale z start mid → Covered feed scale z mid end_ →
      Covered feed scale z start end_ →
      ∃ first second, fetchOhlcv feed scale z start mid = some first ∧
        fetchOhlcv feed scale z mid end_ = some second ∧
        fetchOhlcv feed scale z start end_ = some (first ++ second) := by
  have hreturns : ∀ start end_, z.instant start ≤ z.instant end_ →
      Covered feed scale z start end_ → Returns feed scale z start end_ := by
    intro start end_ hle hc
    obtain ⟨cs, hcs⟩ : ∃ cs, List.Forall₂ IsCandleOf (returned feed scale z start end_) cs :=
      exists_candles h
    refine ⟨cs, fetchOhlcv_eq_some_iff.2 ⟨⟨hc.start_year, hc.end_year⟩, hcs⟩, ?_⟩
    rwa [← returned_eq h hle hc]
  refine ⟨fun start end_ hle => ⟨covered_of_returns h, hreturns start end_ hle⟩,
    fun start mid end_ hlo hhi hfirst hsecond hwhole => ?_⟩
  obtain ⟨first, hfetch, hcs⟩ := hreturns start mid hlo hfirst
  obtain ⟨second, hfetch', hcs'⟩ := hreturns mid end_ hhi hsecond
  obtain ⟨whole, hfetch'', hcs''⟩ := hreturns start end_ (hlo.trans hhi) hwhole
  rw [available_append h hlo hhi] at hcs''
  rw [forall₂_unique hcs'' (List.rel_append hcs hcs')] at hfetch''
  exact ⟨first, second, hfetch, hfetch', hfetch''⟩

/-- One candle, at ten o'clock of 2 January 2024. -/
def exampleFeed : Feed where
  file day :=
    if day = 19724 then
      some [0, 0, 140, 160, 0, 1, 134, 160, 0, 1, 134, 160, 0, 1, 134, 160, 0, 1, 134, 160, 0, 0, 0, 0]
    else none
  decompress := some
  volumeOf _ := 0

theorem mem_exampleFeed {day : ℤ} {r : M1Row} :
    r ∈ fetchM1Day exampleFeed 100000 day ↔
      day = 19724 ∧ r = ⟨1704189600, 1, 1, 1, 1, 0⟩ := by
  by_cases hday : day = 19724
  · subst hday
    have hrows : fetchM1Day exampleFeed 100000 19724 = [⟨1704189600, 1, 1, 1, 1, 0⟩] := by
      decide +kernel
    rw [hrows, List.mem_singleton, and_iff_right rfl]
  · refine iff_of_false ?_ fun h => hday h.1
    simp only [fetchM1Day, exampleFeed, if_neg hday]
    exact List.not_mem_nil

theorem inDays_exampleFeed : InDays exampleFeed 100000 where
  day day r hr := by
    obtain ⟨rfl, rfl⟩ := mem_exampleFeed.1 hr
    rfl
  vol day r hr := by
    obtain ⟨-, rfl⟩ := mem_exampleFeed.1 hr
    exact le_rfl

/-- Midnight of 2 January 2024, noon of that day, and midnight of the next two days. -/
def jan2 : AwareDatetime := ⟨.utc, 1704153600000000, false, by decide +kernel, by decide +kernel⟩

def noon : AwareDatetime := ⟨.utc, 1704196800000000, false, by decide +kernel, by decide +kernel⟩

def jan3 : AwareDatetime := ⟨.utc, 1704240000000000, false, by decide +kernel, by decide +kernel⟩

def jan4 : AwareDatetime := ⟨.utc, 1704326400000000, false, by decide +kernel, by decide +kernel⟩

/-- What is covered, of the feed with one candle. -/
theorem covered_exampleFeed {z : Zones} {start end_ : AwareDatetime}
    (hs : 1000 ≤ start.month / 12) (he : 1000 ≤ end_.month / 12)
    (hdays : z.instant start ≤ 1704189600000000 → 1704189600000000 < z.instant end_ →
      start.wall / dayMicros ≤ 19724 ∧ 19724 < end_.wall / dayMicros ∧
        1704189600 ≠ (z.instant end_).tdiv 1000000)
    (hseconds : 1704189600 ≠ (z.instant start).tdiv 1000000) :
    Covered exampleFeed 100000 z start end_ := by
  refine ⟨hs, he, fun day r hr => ?_, fun day r hr heq => ?_⟩
  · obtain ⟨rfl, rfl⟩ := mem_exampleFeed.1 hr
    exact hdays
  · obtain ⟨rfl, rfl⟩ := mem_exampleFeed.1 hr
    exact absurd heq hseconds

theorem returns_iff_exampleFeed :
    (Returns exampleFeed 100000 ⟨fun _ _ => 0⟩ jan2 noon ↔
      Covered exampleFeed 100000 ⟨fun _ _ => 0⟩ jan2 noon) ∧
    ∃ first second, fetchOhlcv exampleFeed 100000 ⟨fun _ _ => 0⟩ jan2 jan3 = some first ∧
      fetchOhlcv exampleFeed 100000 ⟨fun _ _ => 0⟩ jan3 jan4 = some second ∧
      fetchOhlcv exampleFeed 100000 ⟨fun _ _ => 0⟩ jan2 jan4 = some (first ++ second) :=
  have h := returns_iff exampleFeed 100000 inDays_exampleFeed ⟨fun _ _ => 0⟩
  ⟨h.1 jan2 noon (by decide), h.2 jan2 jan3 jan4 (by decide) (by decide)
    (covered_exampleFeed (by decide +kernel) (by decide +kernel) (by decide)
      (by decide))
    (covered_exampleFeed (by decide +kernel) (by decide +kernel) (by decide)
      (by decide))
    (covered_exampleFeed (by decide +kernel) (by decide +kernel) (by decide)
      (by decide))⟩

/-- The morning of a day is not fetched at all. -/
theorem morning_lost : ¬ Returns exampleFeed 100000 ⟨fun _ _ => 0⟩ jan2 noon := by
  intro h
  have hcovered := (covered_of_returns inDays_exampleFeed h).days 19724 _
    (mem_exampleFeed.2 ⟨rfl, rfl⟩) (by decide) (by decide)
  exact absurd hcovered.2.1 (by decide)

end Bi5Range
