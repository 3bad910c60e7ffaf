/-
**The gaps of a window, and the ranges in which they are fetched.**

The validator finds the gaps before the first candle, between two candles and after the last one
in three ways.  On full minutes of UTC all three are the gaps that the minutes of the candles leave
in the window.  The gaps are fetched in ranges of a bounded number of minutes, and a larger one is
cut by a loop, which adds the bound to the start of a range before it compares the sum with the
end of the gap: in the last days of the year 9999 the sum may not exist.

Main definitions:

* `AwareDatetime.IsMinute`, `AwareDatetime.minute` — full minutes of UTC, and their numbers;
* `GapValidator.getMissingRanges` — the ranges of some gaps;
* `GapValidator.IsSeries` — candles of full minutes in a window, in strict order;
* `GapValidator.ExactGaps`, `GapValidator.FetchPlan` — what the gaps and the ranges should be;
* `GapValidator.FitsCalendar` — the sums that the loop needs exist.

Main results:

* `GapValidator.findGaps_spans` — the gaps are those that the minutes leave in the window;
* `GapValidator.chunkGap_spec` — the loop ends, and tiles its gap;
* `GapValidator.gaps_tiled` — both, for a whole window;
* `GapValidator.last_day_overflows` — a gap that is not cut.
-/

import Brokerage.GapValidator
import Brokerage.Spans

set_option relaxedAutoImplicit false
set_option autoImplicit false

/-! ### Full minutes -/

namespace AwareDatetime

/-- A datetime of UTC at the start of a minute. -/
structure IsMinute (d : AwareDatetime) : Prop where
  zone : d.zone = .utc
  aligned : minuteMicros ∣ d.wall

/-- The number of the minute of a datetime. -/
def minute (z : Zones) (d : AwareDatetime) : ℤ := z.instant d / minuteMicros

variable {z : Zones} {d e : AwareDatetime}

theorem IsMinute.instant_eq (h : d.IsMinute) : z.instant d = d.minute z * minuteMicros := by
  have hwall : z.instant d = d.wall := Zones.instant_utc h.zone
  rw [minute, hwall]
  exact (Int.ediv_mul_cancel h.aligned).symm

theorem IsMinute.wall_eq (h : d.IsMinute) : d.wall = d.minute z * minuteMicros := by
  rw [← h.instant_eq, Zones.instant_utc h.zone]

theorem IsMinute.lt_iff (hd : d.IsMinute) (he : e.IsMinute) :
    z.lt d e = true ↔ d.minute z < e.minute z := by
  rw [Zones.lt_iff_of_utc (Or.inl hd.zone), hd.instant_eq, he.instant_eq, minuteMicros]
  omega

theorem IsMinute.minutesBetween_eq (hd : d.IsMinute) (he : e.IsMinute) :
    minutesBetween z d e = e.minute z - d.minute z := by
  rw [minutesBetween, Zones.sub, if_pos (hd.zone.trans he.zone.symm), hd.wall_eq (z := z),
    he.wall_eq (z := z), ← sub_mul]
  exact Int.mul_tdiv_cancel _ (by decide)

theorem IsMinute.add? (hd : d.IsMinute) {k : ℤ} (h : d.add? (k * minuteMicros) = some e) :
    e.IsMinute ∧ e.minute z = d.minute z + k := by
  obtain ⟨hzone, hwall⟩ := AwareDatetime.add?_eq_some h
  have hmin : e.IsMinute :=
    ⟨hzone.trans hd.zone, hwall ▸ Int.dvd_add hd.aligned (Dvd.intro_left k rfl)⟩
  refine ⟨hmin, ?_⟩
  have heq := hmin.wall_eq (z := z)
  rw [hwall, hd.wall_eq (z := z), minuteMicros] at heq
  omega

theorem add?_eq_none_iff {duration : ℤ} (h : 0 ≤ duration) :
    d.add? duration = none ↔ monthStart 120000 ≤ d.wall + duration := by
  have hmin := d.minyear
  rw [AwareDatetime.add?, dite_eq_right_iff]
  constructor
  · intro hnone
    by_contra hlt
    cases hnone ⟨by omega, not_le.1 hlt⟩
  · intro hle hin
    exact absurd hin.2 (not_lt.2 hle)

/-- A sum that lies between two datetimes exists. -/
theorem IsMinute.exists_add? (hd : d.IsMinute) {a b : AwareDatetime} (ha : a.IsMinute)
    (hb : b.IsMinute) {k : ℤ} (hle : a.minute z ≤ d.minute z + k)
    (hlt : d.minute z + k ≤ b.minute z) : ∃ e, d.add? (k * minuteMicros) = some e := by
  refine ⟨_, dif_pos ?_⟩
  have hmin := a.minyear
  have hmax := b.maxyear
  rw [ha.wall_eq (z := z), minuteMicros] at hmin
  rw [hb.wall_eq (z := z), minuteMicros] at hmax
  rw [hd.wall_eq (z := z), minuteMicros]
  omega

end AwareDatetime

/-- The minutes of a gap. -/
def Gap.span (z : Zones) (g : Gap) : Span ℤ := ⟨g.start.minute z, g.end_.minute z⟩

/-- A gap from one full minute to another, with the count of its minutes. -/
structure Gap.Exact (z : Zones) (g : Gap) : Prop where
  start : g.start.IsMinute
  end_ : g.end_.IsMinute
  count : g.count = g.end_.minute z - g.start.minute z

namespace GapValidator

/-! ### The ranges of the gaps -/

/-- There is no datetime after the year 9999. -/
inductive OverflowError
  | dateOutOfRange
  deriving DecidableEq

/-- The start and the end of a request. -/
abbrev FetchRange := AwareDatetime × AwareDatetime

/-- The minutes of a range. -/
def rangeSpan (z : Zones) (r : FetchRange) : Span ℤ := ⟨r.1.minute z, r.2.minute z⟩

section Ranges

variable (z : Zones) (maxRangeSize : ℤ)

/-- The loop that cuts a gap, in a number of rounds; without an answer if it needs more. -/
def chunkGap (gapEnd : AwareDatetime) :
    ℕ → AwareDatetime → Option (Except OverflowError (List FetchRange))
  | 0, _ => none
  | rounds + 1, current =>
      if z.lt current gapEnd then
        match current.add? (maxRangeSize * minuteMicros) with
        | none => some (.error .dateOutOfRange)
        | some next =>
            let chunkEnd := if z.lt gapEnd next then gapEnd else next
            (chunkGap gapEnd rounds chunkEnd).map (Except.map ((current, chunkEnd) :: ·))
      else some (.ok [])

/-- The ranges of the gaps, with a number of rounds for each gap. -/
def getMissingRanges (rounds : ℕ) :
    List Gap → Option (Except OverflowError (List FetchRange))
  | [] => some (.ok [])
  | gap :: gaps =>
      if gap.count ≤ maxRangeSize then
        (getMissingRanges rounds gaps).map (Except.map ((gap.start, gap.end_) :: ·))
      else
        match chunkGap z maxRangeSize gap.end_ rounds gap.start with
        | none => none
        | some (.error e) => some (.error e)
        | some (.ok ranges) => (getMissingRanges rounds gaps).map (Except.map (ranges ++ ·))

end Ranges

/-! ### What they should be -/

/-- Candles of full minutes in a window of full minutes, in strict order. -/
structure IsSeries (z : Zones) (start end_ : AwareDatetime) (cs : List Candle) : Prop where
  start_minute : start.IsMinute
  end_minute : end_.IsMinute
  lt : z.instant start < z.instant end_
  minute : ∀ c ∈ cs, c.timestamp.IsMinute
  start_le : ∀ c ∈ cs, z.instant start ≤ c.instant z
  lt_end : ∀ c ∈ cs, c.instant z < z.instant end_
  sorted : cs.Pairwise fun c d => c.instant z < d.instant z

/-- The number of the minute of a candle. -/
def candleMinute (z : Zones) (c : Candle) : ℤ := c.timestamp.minute z

/-- The minutes of a window. -/
def windowMinutes (z : Zones) (start end_ : AwareDatetime) : Set ℤ :=
  Set.Ico (start.minute z) (end_.minute z)

/-- The minutes of some candles. -/
def candleMinutes (z : Zones) (cs : List Candle) : Set ℤ := {m | m ∈ cs.map (candleMinute z)}

/-- The gaps of a window are, in ascending order, the largest spans of minutes without a candle. -/
structure ExactGaps (z : Zones) (start end_ : AwareDatetime) (cs : List Candle)
    (gaps : List Gap) : Prop where
  exact : ∀ g ∈ gaps, g.Exact z
  ascending : Span.Ascending (gaps.map (Gap.span z))
  disjoint : (gaps.map (Gap.span z)).Pairwise fun s t => Disjoint s.points t.points
  cover : Span.cover (gaps.map (Gap.span z)) ∪ candleMinutes z cs = windowMinutes z start end_
  no_candle : Disjoint (Span.cover (gaps.map (Gap.span z))) (candleMinutes z cs)
  maximal : ∀ g ∈ gaps, Span.IsMaximal (windowMinutes z start end_ \ candleMinutes z cs) (g.span z)
  count : ∀ g ∈ gaps, g.count = (g.span z).points.ncard

/-- The ranges tile the gaps, and each has a bounded number of minutes. -/
structure FetchPlan (z : Zones) (maxRangeSize : ℤ) (gaps : List Gap)
    (ranges : List FetchRange) : Prop where
  tiles : Span.Tiles (gaps.map (Gap.span z)) (ranges.map (rangeSpan z))
  size : ∀ r ∈ ranges, ((rangeSpan z r).points.ncard : ℤ) ≤ maxRangeSize
  minute : ∀ r ∈ ranges, r.1.IsMinute ∧ r.2.IsMinute

/-- A number rounded up to a multiple. -/
def roundUp (k n : ℤ) : ℤ := (n + k - 1) / k * k

/-- A gap is small, or the end of its last range exists also before it is cut off at the end of the
gap. -/
def FitsCalendar (maxRangeSize : ℤ) (g : Gap) : Prop :=
  g.count ≤ maxRangeSize ∨
    g.start.wall + roundUp maxRangeSize g.count * minuteMicros < monthStart 120000

theorem roundUp_zero {k : ℤ} (hk : 1 ≤ k) : roundUp k 0 = 0 := by
  rw [roundUp, Int.ediv_eq_zero_of_lt (by omega) (by omega), zero_mul]

/-- The next multiple is one step further. -/
theorem roundUp_of_le {k n : ℤ} (hk : 1 ≤ k) : roundUp k n = k + roundUp k (n - k) := by
  have hsum : n + k - 1 = n - k + k - 1 + 1 * k := by ring
  rw [roundUp, roundUp, hsum, Int.add_mul_ediv_right _ _ (by omega)]
  ring

theorem roundUp_of_lt {k n : ℤ} (hn : 1 ≤ n) (hlt : n ≤ k) : roundUp k n = k := by
  have hdiv : (n - 1) / k = 0 := Int.ediv_eq_zero_of_lt (by omega) (by omega)
  have hsum : n + k - 1 = n - 1 + 1 * k := by ring
  rw [roundUp, hsum, Int.add_mul_ediv_right _ _ (by omega), hdiv]
  ring

theorem le_roundUp {k n : ℤ} (hk : 1 ≤ k) (hn : 1 ≤ n) : k ≤ roundUp k n := by
  have hpos : 1 ≤ (n + k - 1) / k := (Int.le_ediv_iff_mul_le (by omega)).2 (by omega)
  calc k = 1 * k := (one_mul k).symm
    _ ≤ roundUp k n := mul_le_mul_of_nonneg_right hpos (by omega)

/-! ### The gaps -/

variable {z : Zones} {start end_ : AwareDatetime} {cs : List Candle}

theorem minute_le_of_instant_le {d e : AwareDatetime} (h : z.instant d ≤ z.instant e) :
    d.minute z ≤ e.minute z := Int.ediv_le_ediv (by decide) h

theorem minute_lt_iff {d e : AwareDatetime} (hd : d.IsMinute) (he : e.IsMinute) :
    d.minute z < e.minute z ↔ z.instant d < z.instant e := by
  rw [hd.instant_eq, he.instant_eq, minuteMicros]
  omega

theorem IsSeries.minute_lt (h : IsSeries z start end_ cs) : start.minute z < end_.minute z :=
  (minute_lt_iff h.start_minute h.end_minute).2 h.lt

/-- The minutes of the candles are points of the window, in strict order. -/
theorem IsSeries.within (h : IsSeries z start end_ cs) :
    Span.Within (start.minute z) (end_.minute z) (cs.map (candleMinute z)) := by
  refine ⟨fun m hm => ?_, fun m hm => ?_, List.pairwise_map.2 ?_⟩
  · obtain ⟨c, hc, rfl⟩ := List.mem_map.1 hm
    exact minute_le_of_instant_le (h.start_le c hc)
  · obtain ⟨c, hc, rfl⟩ := List.mem_map.1 hm
    exact (minute_lt_iff (h.minute c hc) h.end_minute).2 (h.lt_end c hc)
  · exact h.sorted.imp_of_mem fun hc hd hcd =>
      (minute_lt_iff (h.minute _ hc) (h.minute _ hd)).2 hcd

/-- A gap that is reported if it has a minute. -/
theorem span_ite {a b : AwareDatetime} (ha : a.IsMinute) (hb : b.IsMinute) {p : Prop} [Decidable p]
    (hp : p ↔ a.minute z < b.minute z) :
    let gaps := if p then [(⟨a, b, minutesBetween z a b⟩ : Gap)] else []
    (∀ g ∈ gaps, g.Exact z) ∧ gaps.map (Gap.span z) =
      if a.minute z < b.minute z then [⟨a.minute z, b.minute z⟩] else [] := by
  by_cases h : a.minute z < b.minute z
  · rw [if_pos (hp.2 h), if_pos h]
    refine ⟨fun g hg => ?_, rfl⟩
    obtain rfl := List.mem_singleton.1 hg
    exact ⟨ha, hb, ha.minutesBetween_eq hb⟩
  · rw [if_neg fun h' => h (hp.1 h'), if_neg h]
    exact ⟨fun g hg => (by cases hg), rfl⟩

theorem gapBefore_spans {first : Candle} (hs : start.IsMinute) (hf : first.timestamp.IsMinute) :
    (∀ g ∈ gapBefore z start first, g.Exact z) ∧
      (gapBefore z start first).map (Gap.span z) =
        if start.minute z < candleMinute z first then
          [⟨start.minute z, candleMinute z first⟩] else [] := by
  refine span_ite hs hf ?_
  rw [hs.lt_iff hf, hs.minutesBetween_eq hf]
  omega

theorem gapBetween_spans {current next : Candle} (hc : current.timestamp.IsMinute)
    (hn : next.timestamp.IsMinute) (hlt : candleMinute z current < candleMinute z next) :
    ∃ gaps, gapBetween z current next = some gaps ∧ (∀ g ∈ gaps, g.Exact z) ∧
      gaps.map (Gap.span z) =
        if candleMinute z current + 1 < candleMinute z next then
          [⟨candleMinute z current + 1, candleMinute z next⟩] else [] := by
  have hlow : current.timestamp.minute z ≤ current.timestamp.minute z + 1 := by omega
  have hhigh : current.timestamp.minute z + 1 ≤ next.timestamp.minute z := Int.add_one_le_of_lt hlt
  obtain ⟨e, he⟩ := hc.exists_add? (k := 1) hc hn hlow hhigh
  obtain ⟨hmin, hminute⟩ := hc.add? (z := z) he
  rw [one_mul] at he
  refine ⟨_, by rw [gapBetween, he]; rfl, ?_⟩
  have hspans := span_ite hmin hn (hmin.lt_iff (z := z) hn)
  rw [hminute] at hspans
  exact hspans

theorem gapAfter_spans {last : Candle} (hl : last.timestamp.IsMinute) (he : end_.IsMinute)
    (hlt : candleMinute z last < end_.minute z) :
    ∃ gaps, gapAfter z last end_ = some gaps ∧ (∀ g ∈ gaps, g.Exact z) ∧
      gaps.map (Gap.span z) =
        if candleMinute z last + 1 < end_.minute z then
          [⟨candleMinute z last + 1, end_.minute z⟩] else [] := by
  have hlt' : last.timestamp.minute z < end_.minute z := hlt
  obtain ⟨expectedLast, hexp⟩ := he.exists_add? (z := z) (k := -1) hl he (by omega) (by omega)
  obtain ⟨hexpMin, hexpMinute⟩ := he.add? (z := z) hexp
  obtain ⟨gapStart, hgap⟩ := hl.exists_add? (z := z) (k := 1) hl he (by omega) (by omega)
  obtain ⟨hgapMin, hgapMinute⟩ := hl.add? (z := z) hgap
  rw [one_mul] at hgap
  rw [neg_one_mul] at hexp
  rw [gapAfter, hexp]
  dsimp only
  rw [hgap, Option.map_some]
  have hspans := span_ite (z := z) hgapMin he (p := 0 < minutesBetween z gapStart end_) (by
    rw [hgapMin.minutesBetween_eq he]
    omega)
  rw [hgapMinute] at hspans
  split
  · exact ⟨_, rfl, hspans⟩
  · -- the last candle is that of the last minute
    rename_i hle
    rw [hl.lt_iff hexpMin, hexpMinute] at hle
    have hnot : ¬ candleMinute z last + 1 < end_.minute z := by
      rw [candleMinute]
      omega
    rw [if_neg hnot]
    exact ⟨[], rfl, fun g hg => (by cases hg), rfl⟩

/-- The gaps after a candle are those that the later ones leave in the rest of the window. -/
theorem gapsFrom_spans {c : Candle} (he : end_.IsMinute) (hmin : ∀ d ∈ c :: cs, d.timestamp.IsMinute)
    (hsorted : ((c :: cs).map (candleMinute z)).Pairwise (· < ·))
    (hlt : ∀ d ∈ c :: cs, candleMinute z d < end_.minute z) :
    ∃ gaps, gapsFrom z c cs end_ = some gaps ∧ (∀ g ∈ gaps, g.Exact z) ∧
      gaps.map (Gap.span z) =
        Span.gaps (end_.minute z) (candleMinute z c + 1) (cs.map (candleMinute z)) := by
  induction cs generalizing c with
  | nil => exact gapAfter_spans (hmin c List.mem_cons_self) he (hlt c List.mem_cons_self)
  | cons next cs ih =>
      have hnext : next ∈ c :: next :: cs := List.mem_cons_of_mem _ List.mem_cons_self
      have hstep : candleMinute z c < candleMinute z next :=
        List.rel_of_pairwise_cons hsorted List.mem_cons_self
      obtain ⟨gaps, hgaps, hexact, hspans⟩ :=
        gapBetween_spans (hmin c List.mem_cons_self) (hmin next hnext) hstep
      obtain ⟨more, hmore, hexact', hspans'⟩ := ih
        (fun d hd => hmin d (List.mem_cons_of_mem _ hd)) hsorted.of_cons
        fun d hd => hlt d (List.mem_cons_of_mem _ hd)
      refine ⟨gaps ++ more, by rw [gapsFrom, hgaps, hmore], fun g hg => ?_, ?_⟩
      · rcases List.mem_append.1 hg with hg | hg
        · exact hexact g hg
        · exact hexact' g hg
      · rw [List.map_append, hspans, hspans', List.map_cons, Span.gaps]
        rfl

/-- The gaps of a window are those that the minutes of the candles leave in it. -/
theorem findGaps_spans (h : IsSeries z start end_ cs) :
    ∃ gaps, findGaps z cs start end_ = some gaps ∧ (∀ g ∈ gaps, g.Exact z) ∧
      gaps.map (Gap.span z) =
        Span.gaps (end_.minute z) (start.minute z) (cs.map (candleMinute z)) := by
  have hwithin := h.within
  cases cs with
  | nil =>
      have hspans := span_ite (z := z) h.start_minute h.end_minute (p := True)
        (iff_of_true trivial h.minute_lt)
      rw [if_pos trivial] at hspans
      exact ⟨_, rfl, hspans⟩
  | cons first more =>
      obtain ⟨hexact, hspans⟩ :=
        gapBefore_spans (z := z) h.start_minute (h.minute first List.mem_cons_self)
      obtain ⟨gaps, hgaps, hexact', hspans'⟩ := gapsFrom_spans (z := z) h.end_minute h.minute
        hwithin.sorted fun d hd => hwithin.lt _ (List.mem_map_of_mem hd)
      refine ⟨gapBefore z start first ++ gaps, by rw [findGaps, hgaps]; rfl, fun g hg => ?_, ?_⟩
      · rcases List.mem_append.1 hg with hg | hg
        · exact hexact g hg
        · exact hexact' g hg
      · rw [List.map_append, hspans, hspans', List.map_cons, Span.gaps]
        rfl

theorem exactGaps_of_spans (h : IsSeries z start end_ cs) {gaps : List Gap}
    (hexact : ∀ g ∈ gaps, g.Exact z) (hspans : gaps.map (Gap.span z) =
      Span.gaps (end_.minute z) (start.minute z) (cs.map (candleMinute z))) :
    ExactGaps z start end_ cs gaps := by
  have hwithin := h.within
  have hcover : Span.cover (gaps.map (Gap.span z)) =
      windowMinutes z start end_ \ candleMinutes z cs := hspans ▸ Span.cover_gaps hwithin
  have hascending : Span.Ascending (gaps.map (Gap.span z)) := hspans ▸ Span.gaps_ascending hwithin
  have hsub : candleMinutes z cs ⊆ windowMinutes z start end_ := fun m hm =>
    ⟨hwithin.le m hm, hwithin.lt m hm⟩
  refine ⟨hexact, hascending, hascending.disjoint, ?_, ?_, fun g hg => ?_, fun g hg => ?_⟩
  · rw [hcover]
    exact Set.sdiff_union_of_subset hsub
  · rw [hcover]
    exact Set.disjoint_sdiff_left
  · exact Span.gaps_maximal hwithin (hspans ▸ List.mem_map_of_mem hg)
  · have hlt : g.start.minute z < g.end_.minute z :=
      hascending.lt _ (List.mem_map_of_mem (f := Gap.span z) hg)
    rw [(hexact g hg).count, Span.ncard_points, Gap.span]
    dsimp only
    omega

/-- The counts of the gaps add up to the missing minutes of the report. -/
theorem sum_count (h : IsSeries z start end_ cs) {gaps : List Gap}
    (hgaps : findGaps z cs start end_ = some gaps) (hexact : ∀ g ∈ gaps, g.Exact z)
    (hspans : gaps.map (Gap.span z) =
      Span.gaps (end_.minute z) (start.minute z) (cs.map (candleMinute z))) :
    ∃ report, validate z cs start end_ = some report ∧ report.gaps = gaps ∧
      (gaps.map Gap.count).sum = report.missingCount := by
  have hsum : (gaps.map Gap.count).sum = end_.minute z - start.minute z - cs.length := by
    have hcounts : gaps.map Gap.count =
        (gaps.map (Gap.span z)).map fun s => s.hi - s.lo := by
      rw [List.map_map]
      exact List.map_congr_left fun g hg => (hexact g hg).count
    rw [hcounts, hspans, Span.sum_gaps h.within h.minute_lt.le, List.length_map]
  have hexpected := h.start_minute.minutesBetween_eq (z := z) h.end_minute
  cases cs with
  | nil =>
      refine ⟨_, rfl, Option.some.inj hgaps, ?_⟩
      rw [hsum, List.length_nil]
      dsimp only
      omega
  | cons first more =>
      refine ⟨_, by rw [validate, hgaps]; rfl, rfl, ?_⟩
      have hnonneg : 0 ≤ (gaps.map Gap.count).sum := by
        refine List.sum_nonneg fun n hn => ?_
        obtain ⟨g, hg, rfl⟩ := List.mem_map.1 hn
        rw [(exactGaps_of_spans h hexact hspans).count g hg]
        exact Int.natCast_nonneg _
      dsimp only
      rw [hexpected]
      omega

/-! ### The loop -/

variable {maxRangeSize : ℤ}

/-- The end of a range, and whether the sums that are needed from there on exist. -/
theorem chunkEnd_spec (hk : 1 ≤ maxRangeSize) {current gapEnd next : AwareDatetime}
    (hc : current.IsMinute) (he : gapEnd.IsMinute) {n : ℕ}
    (hn : gapEnd.minute z = current.minute z + n) (hpos : current.minute z < gapEnd.minute z)
    (hadd : current.add? (maxRangeSize * minuteMicros) = some next) :
    ∃ (chunkEnd : AwareDatetime) (m : ℕ), (if z.lt gapEnd next then gapEnd else next) = chunkEnd ∧
      chunkEnd.IsMinute ∧ gapEnd.minute z = chunkEnd.minute z + m ∧
      (current.minute z < chunkEnd.minute z ∧
        chunkEnd.minute z ≤ current.minute z + maxRangeSize) ∧
      (chunkEnd.wall + roundUp maxRangeSize m * minuteMicros < monthStart 120000 ↔
        current.wall + roundUp maxRangeSize n * minuteMicros < monthStart 120000) := by
  obtain ⟨hnext, hminute⟩ := hc.add? (z := z) hadd
  have hwall := (AwareDatetime.add?_eq_some hadd).2
  have hnextMax := next.maxyear
  by_cases hlt : z.lt gapEnd next = true
  · have hlt' := (he.lt_iff hnext).1 hlt
    refine ⟨gapEnd, 0, if_pos hlt, he, by simp, ⟨hpos, by omega⟩, ?_⟩
    rw [Nat.cast_zero, roundUp_zero hk, zero_mul, add_zero,
      roundUp_of_lt (n := n) (by omega) (by omega), ← hwall]
    exact iff_of_true gapEnd.maxyear hnextMax
  · have hle := not_lt.1 fun h => hlt ((he.lt_iff hnext).2 h)
    refine ⟨next, n - maxRangeSize.toNat, if_neg hlt, hnext, by omega, ⟨by omega, by omega⟩, ?_⟩
    have hcast : ((n - maxRangeSize.toNat : ℕ) : ℤ) = n - maxRangeSize := by omega
    rw [hcast, roundUp_of_le (n := n) hk, hwall, add_mul, add_assoc]

theorem FetchPlan.cons_range {current chunkEnd gapEnd : AwareDatetime} {n m : ℤ}
    {ranges : List FetchRange}
    (h : FetchPlan z maxRangeSize [⟨chunkEnd, gapEnd, m⟩] ranges) (hc : current.IsMinute)
    (he : chunkEnd.IsMinute) (hle : chunkEnd.minute z ≤ gapEnd.minute z)
    (hsize : current.minute z < chunkEnd.minute z ∧
      chunkEnd.minute z ≤ current.minute z + maxRangeSize) :
    FetchPlan z maxRangeSize [⟨current, gapEnd, n⟩] ((current, chunkEnd) :: ranges) := by
  refine ⟨Span.Tiles.split hsize.1 hle h.tiles, fun r hr => ?_, fun r hr => ?_⟩
  · rcases List.mem_cons.1 hr with rfl | hr
    · rw [Span.ncard_points, rangeSpan]
      dsimp only
      omega
    · exact h.size r hr
  · rcases List.mem_cons.1 hr with rfl | hr
    · exact ⟨hc, he⟩
    · exact h.minute r hr

/-- The loop ends after as many rounds as there are minutes left.  It tiles the gap from the
current datetime on, unless the end of the last range does not exist. -/
theorem chunkGap_spec (hk : 1 ≤ maxRangeSize) {gapEnd : AwareDatetime} (he : gapEnd.IsMinute)
    (n : ℕ) {current : AwareDatetime} (hc : current.IsMinute)
    (hn : gapEnd.minute z = current.minute z + n) :
    ∃ outcome, (∀ rounds, n < rounds →
        chunkGap z maxRangeSize gapEnd rounds current = some outcome) ∧
      (∀ ranges, outcome = .ok ranges →
        FetchPlan z maxRangeSize [⟨current, gapEnd, n⟩] ranges) ∧
      ((∃ ranges, outcome = .ok ranges) ↔
        current.wall + roundUp maxRangeSize n * minuteMicros < monthStart 120000) := by
  induction n using Nat.strong_induction_on generalizing current with
  | _ n ih =>
      by_cases hlt : z.lt current gapEnd = true
      · have hpos : current.minute z < gapEnd.minute z := (hc.lt_iff he).1 hlt
        cases hadd : current.add? (maxRangeSize * minuteMicros) with
        | none =>
            refine ⟨.error .dateOutOfRange, fun rounds hrounds => ?_, fun _ h => (by cases h), ?_⟩
            · obtain ⟨r, rfl⟩ := Nat.exists_eq_add_of_lt (Nat.zero_lt_of_lt hrounds)
              rw [Nat.zero_add, chunkGap, if_pos hlt, hadd]
            · -- already the first sum does not exist
              refine iff_of_false (by rintro ⟨_, ⟨⟩⟩) (not_lt.2 ?_)
              have hle := le_roundUp (n := n) hk (by omega)
              rw [AwareDatetime.add?_eq_none_iff (mul_nonneg (by omega) (by decide))] at hadd
              rw [minuteMicros] at hadd ⊢
              omega
        | some next =>
            -- the rest of the gap, from the end of the first range on
            obtain ⟨chunkEnd, m, hend, hmin, hm, hsize, hfits⟩ :=
              chunkEnd_spec hk hc he hn hpos hadd
            obtain ⟨outcome, hrounds, hplan, hok⟩ := ih m (by omega) hmin hm
            refine ⟨outcome.map ((current, chunkEnd) :: ·), fun rounds hlt' => ?_,
              fun ranges h => ?_, ?_⟩
            · obtain ⟨r, rfl⟩ := Nat.exists_eq_add_of_lt (Nat.zero_lt_of_lt hlt')
              rw [Nat.zero_add, chunkGap, if_pos hlt, hadd]
              dsimp only
              rw [hend, hrounds r (by omega)]
              rfl
            · cases outcome with
              | error e => cases h
              | ok rest =>
                  obtain rfl := Except.ok.inj h
                  exact (hplan rest rfl).cons_range hc hmin (by omega) hsize
            · rw [← hfits, ← hok]
              cases outcome with
              | error e => exact iff_of_false (by rintro ⟨_, ⟨⟩⟩) (by rintro ⟨_, ⟨⟩⟩)
              | ok rest => exact iff_of_true ⟨_, rfl⟩ ⟨_, rfl⟩
      · have hzero : n = 0 := by
          rw [hc.lt_iff he] at hlt
          omega
        subst hzero
        refine ⟨.ok [], fun rounds hrounds => ?_, fun ranges h => ?_, ?_⟩
        · obtain ⟨r, rfl⟩ := Nat.exists_eq_add_of_lt hrounds
          rw [Nat.zero_add, chunkGap, if_neg hlt]
        · obtain rfl : [] = ranges := Except.ok.inj h
          refine ⟨Span.Tiles.empty ?_, fun r hr => (by cases hr), fun r hr => by cases hr⟩
          dsimp only
          omega
        · refine iff_of_true ⟨_, rfl⟩ ?_
          rw [Nat.cast_zero, roundUp_zero hk, zero_mul, add_zero]
          exact current.maxyear

/-- The ranges of one gap: all of it, or what the loop cuts. -/
theorem gapRanges_spec (hk : 1 ≤ maxRangeSize) {g : Gap} (hg : g.Exact z)
    (hlt : g.start.minute z < g.end_.minute z) :
    ∃ n outcome, (∀ rounds, n ≤ rounds → (if g.count ≤ maxRangeSize then
        some (.ok [(g.start, g.end_)]) else chunkGap z maxRangeSize g.end_ rounds g.start) =
          some outcome) ∧
      (∀ ranges, outcome = .ok ranges → FetchPlan z maxRangeSize [g] ranges) ∧
      ((∃ ranges, outcome = .ok ranges) ↔ FitsCalendar maxRangeSize g) := by
  have hcount := hg.count
  by_cases hsmall : g.count ≤ maxRangeSize
  · refine ⟨0, .ok [(g.start, g.end_)], fun rounds _ => if_pos hsmall, fun ranges h => ?_, ?_⟩
    · obtain rfl := Except.ok.inj h
      refine ⟨Span.Tiles.self hlt, fun r hr => ?_, fun r hr => ?_⟩
      · obtain rfl := List.mem_singleton.1 hr
        rw [Span.ncard_points, rangeSpan]
        dsimp only
        omega
      · obtain rfl := List.mem_singleton.1 hr
        exact ⟨hg.start, hg.end_⟩
    · exact iff_of_true ⟨_, rfl⟩ (Or.inl hsmall)
  · obtain ⟨outcome, hrounds, hplan, hok⟩ := chunkGap_spec (z := z) hk hg.end_ g.count.toNat
      hg.start (by omega)
    have hcast : (g.count.toNat : ℤ) = g.count := by omega
    rw [hcast] at hplan hok
    refine ⟨g.count.toNat + 1, outcome, fun rounds hle => ?_, hplan, ?_⟩
    · rw [if_neg hsmall]
      exact hrounds rounds hle
    · rw [hok, FitsCalendar]
      exact (or_iff_right hsmall).symm

theorem FetchPlan.append {g : Gap} {gaps : List Gap} {ranges more : List FetchRange}
    (hasc : Span.Ascending ((g :: gaps).map (Gap.span z)))
    (h : FetchPlan z maxRangeSize [g] ranges) (h' : FetchPlan z maxRangeSize gaps more) :
    FetchPlan z maxRangeSize (g :: gaps) (ranges ++ more) := by
  refine ⟨?_, fun r hr => ?_, fun r hr => ?_⟩
  · rw [List.map_append]
    exact Span.Tiles.cons hasc h.tiles h'.tiles
  · rcases List.mem_append.1 hr with hr | hr
    · exact h.size r hr
    · exact h'.size r hr
  · rcases List.mem_append.1 hr with hr | hr
    · exact h.minute r hr
    · exact h'.minute r hr

/-- With enough rounds the gaps are cut, just if the sums that are needed exist. -/
theorem getMissingRanges_spec (hk : 1 ≤ maxRangeSize) {gaps : List Gap}
    (hexact : ∀ g ∈ gaps, g.Exact z) (hasc : Span.Ascending (gaps.map (Gap.span z))) :
    ∃ n outcome, (∀ rounds, n ≤ rounds →
        getMissingRanges z maxRangeSize rounds gaps = some outcome) ∧
      (∀ ranges, outcome = .ok ranges → FetchPlan z maxRangeSize gaps ranges) ∧
      ((∃ ranges, outcome = .ok ranges) ↔ ∀ g ∈ gaps, FitsCalendar maxRangeSize g) := by
  induction gaps with
  | nil =>
      refine ⟨0, .ok [], fun _ _ => rfl, fun ranges h => ?_, by simp⟩
      obtain rfl : [] = ranges := Except.ok.inj h
      exact ⟨Span.Tiles.nil, fun r hr => (by cases hr), fun r hr => by cases hr⟩
  | cons g gaps ih =>
      obtain ⟨n, outcome, hrounds, hplan, hok⟩ := gapRanges_spec hk (hexact g List.mem_cons_self)
        (hasc.lt (g.span z) List.mem_cons_self)
      obtain ⟨n', outcome', hrounds', hplan', hok'⟩ :=
        ih (fun d hd => hexact d (List.mem_cons_of_mem _ hd)) hasc.tail
      have hstep : ∀ rounds, n ≤ rounds → n' ≤ rounds →
          getMissingRanges z maxRangeSize rounds (g :: gaps) =
            some (outcome.bind fun ranges => outcome'.map (ranges ++ ·)) := by
        intro rounds hle hle'
        have hhead := hrounds rounds hle
        rw [getMissingRanges, hrounds' rounds hle']
        split at hhead
        · rename_i hsmall
          obtain rfl := Option.some.inj hhead
          rw [if_pos hsmall]
          rfl
        · rename_i hlarge
          rw [if_neg hlarge, hhead]
          cases outcome with
          | error e => rfl
          | ok ranges => rfl
      refine ⟨max n n', _, fun rounds hle => hstep rounds (by omega) (by omega), ?_, ?_⟩
      · intro ranges h
        cases outcome with
        | error e => cases h
        | ok first =>
            cases outcome' with
            | error e => cases h
            | ok rest =>
                obtain rfl := Except.ok.inj h
                exact (hplan first rfl).append hasc (hplan' rest rfl)
      · rw [List.forall_mem_cons, ← hok, ← hok']
        cases outcome with
        | error e => exact iff_of_false (by rintro ⟨_, ⟨⟩⟩) (by rintro ⟨⟨_, ⟨⟩⟩, _⟩)
        | ok first =>
            cases outcome' with
            | error e =>
                exact iff_of_false (by rintro ⟨_, ⟨⟩⟩) (by rintro ⟨_, ⟨_, ⟨⟩⟩⟩)
            | ok rest => exact iff_of_true ⟨_, rfl⟩ ⟨⟨_, rfl⟩, ⟨_, rfl⟩⟩

/-! ### A whole window -/

/-- The gaps of a window are, in ascending order, the largest spans of its minutes without a candle,
and their counts add up to the missing minutes of the report.  The fetch ranges, of any positive
size, are found after finitely many rounds of the loop and tile the gaps, just if the sums that
the loop needs exist. -/
theorem gaps_tiled (z : Zones) (start end_ : AwareDatetime) (cs : List Candle)
    (h : IsSeries z start end_ cs) :
    ∃ gaps report, findGaps z cs start end_ = some gaps ∧
      validate z cs start end_ = some report ∧ ExactGaps z start end_ cs gaps ∧
      (gaps.map Gap.count).sum = report.missingCount ∧
      ∀ maxRangeSize, 1 ≤ maxRangeSize →
        ∃ n outcome, (∀ rounds, n ≤ rounds →
            getMissingRanges z maxRangeSize rounds gaps = some outcome) ∧
          (∀ ranges, outcome = .ok ranges → FetchPlan z maxRangeSize gaps ranges) ∧
          ((∃ ranges, outcome = .ok ranges) ↔ ∀ g ∈ gaps, FitsCalendar maxRangeSize g) := by
  obtain ⟨gaps, hgaps, hexact, hspans⟩ := findGaps_spans h
  obtain ⟨report, hreport, -, hsum⟩ := sum_count h hgaps hexact hspans
  have hgapsExact := exactGaps_of_spans h hexact hspans
  exact ⟨gaps, report, hgaps, hreport, hgapsExact, hsum, fun maxRangeSize hk =>
    getMissingRanges_spec hk hexact hgapsExact.ascending⟩

theorem afterNoon_minyear (minutes : Fin 60) :
    monthStart 12 ≤ 1705320000000000 + 60000000 * (minutes : ℤ) := by
  have hmin : monthStart 12 ≤ 1705320000000000 := by decide +kernel
  omega

theorem afterNoon_maxyear (minutes : Fin 60) :
    1705320000000000 + 60000000 * (minutes : ℤ) < monthStart 120000 := by
  have hmax : 1705320000000000 + 3600000000 ≤ monthStart 120000 := by decide +kernel
  have hlt := minutes.isLt
  omega

/-- Some minutes after noon. -/
def afterNoon (minutes : Fin 60) : AwareDatetime where
  zone := .utc
  wall := 1705320000000000 + 60000000 * minutes
  fold := false
  minyear := afterNoon_minyear minutes
  maxyear := afterNoon_maxyear minutes

/-- Candles of three minutes after noon, of which two follow each other. -/
def threeCandles : List Candle :=
  ([3, 4, 7] : List (Fin 60)).map fun minutes => ⟨afterNoon minutes, .flat 1, true⟩

theorem isSeries_threeCandles :
    IsSeries Zones.fallBack (afterNoon 0) (afterNoon 15) threeCandles where
  start_minute := ⟨rfl, by decide⟩
  end_minute := ⟨rfl, by decide⟩
  lt := by decide
  minute c hc := by
    obtain ⟨minutes, -, rfl⟩ := List.mem_map.1 hc
    exact ⟨rfl, (by decide : (60000000 : ℤ) ∣ 1705320000000000).add (Dvd.intro _ rfl)⟩
  start_le := by decide
  lt_end := by decide
  sorted := by decide

/-- Before, between and after the candles some minutes are missing, which are fetched two at a time. -/
theorem gaps_tiled_threeCandles :
    ∃ gaps report, findGaps Zones.fallBack threeCandles (afterNoon 0) (afterNoon 15) = some gaps ∧
      gaps.map Gap.count = [3, 2, 7] ∧
      validate Zones.fallBack threeCandles (afterNoon 0) (afterNoon 15) = some report ∧
      ExactGaps Zones.fallBack (afterNoon 0) (afterNoon 15) threeCandles gaps ∧
      (gaps.map Gap.count).sum = report.missingCount ∧
      ∃ n outcome, (∀ rounds, n ≤ rounds →
          getMissingRanges Zones.fallBack 2 rounds gaps = some outcome) ∧
        (∀ ranges, outcome = .ok ranges → FetchPlan Zones.fallBack 2 gaps ranges) ∧
        ((∃ ranges, outcome = .ok ranges) ↔ ∀ g ∈ gaps, FitsCalendar 2 g) := by
  obtain ⟨gaps, report, hgaps, hreport, hexact, hsum, hplan⟩ :=
    gaps_tiled Zones.fallBack (afterNoon 0) (afterNoon 15) threeCandles isSeries_threeCandles
  have hcounts : (findGaps Zones.fallBack threeCandles (afterNoon 0) (afterNoon 15)).map
      (fun gaps => gaps.map Gap.count) = some [3, 2, 7] := by decide +kernel
  rw [hgaps] at hcounts
  exact ⟨gaps, report, hgaps, Option.some.inj hcounts, hreport, hexact, hsum,
    hplan 2 (by decide)⟩

/-- The last day that there is, from midnight on. -/
def lastDay : AwareDatetime :=
  ⟨.utc, 253402214400000000, false, by decide +kernel, by decide +kernel⟩

/-- The last minute of all. -/
def lastMinute : AwareDatetime :=
  ⟨.utc, 253402300740000000, false, by decide +kernel, by decide +kernel⟩

theorem isSeries_lastDay : IsSeries Zones.fallBack lastDay lastMinute [] where
  start_minute := ⟨rfl, by decide⟩
  end_minute := ⟨rfl, by decide⟩
  lt := by decide
  minute _ hc := by cases hc
  start_le _ hc := by cases hc
  lt_end _ hc := by cases hc
  sorted := List.Pairwise.nil

/-- The whole day is missing, of 1439 minutes.  A range of 1000 minutes is cut off it, and the end
of the next one would come in the year 10000. -/
theorem last_day_overflows :
    IsSeries Zones.fallBack lastDay lastMinute [] ∧
      (findGaps Zones.fallBack [] lastDay lastMinute).map
        (fun gaps => gaps.map Gap.count) = some [1439] ∧
      ((findGaps Zones.fallBack [] lastDay lastMinute).bind
        (getMissingRanges Zones.fallBack 1000 3)).map Except.toOption = some none := by
  refine ⟨isSeries_lastDay, ?_, ?_⟩
  · decide
  · decide +kernel

end GapValidator
