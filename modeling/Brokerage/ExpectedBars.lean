/-
**The bars that are expected of a range.**

The currencies are traded from Sunday 21:00 UTC to Friday 21:00 UTC.  The bars that are expected of a
range of up to two years are found by going through its minutes, those of a longer one from its length.
The minutes leave out Saturday and the Sunday before 21:00, but not the last three hours of Friday: each
week has 180 minutes too many, and the two ways agree only while these do not fill another bar.

Main definitions:

* `AggregationReport.countFxTradingMinutes` — the minutes that are gone through;
* `AggregationReport.exactBars`, `AggregationReport.weeklyBars` — the two ways;
* `AggregationReport.expectedBarCount` — the bars that are expected;
* `AggregationReport.sessionMinutes` — the minutes of the hours of trading.

Main results:

* `AggregationReport.exactBars_weeks`, `AggregationReport.weeklyBars_weeks`,
  `AggregationReport.sessionMinutes_weeks` — what they are for a number of weeks;
* `AggregationReport.expectedBars_iff` — when they agree.
-/

import Brokerage.MarketHours
import Brokerage.PeriodicCounts

set_option relaxedAutoImplicit false
set_option autoImplicit false

/-- `hour`. -/
def AwareDatetime.hour (d : AwareDatetime) : ℤ := d.wall % dayMicros / 3600000000

namespace AggregationReport

/-! ### The code -/

/-- `while ts < to_ts`: some rounds of it, each of which counts one if its second is counted. -/
def countLoop (counted : AwareDatetime → Bool) (toTs step : ℤ) : ℕ → ℤ → ℤ → Option ℤ
  | 0, _, total => some total
  | n + 1, ts, total =>
      if ts < toTs then do
        let dt ← utcFromTimestamp (1000000 * ts)
        countLoop counted toTs step n (ts + step) (if counted dt then total + 1 else total)
      else
        some total

/-- `is_weekend_off`: Saturday, and Sunday before 21:00. -/
def isWeekendOff (dt : AwareDatetime) : Bool :=
  dt.weekday = 5 || (dt.weekday = 6 && dt.hour < 21)

def countFxTradingMinutes (fromTs toTs : ℤ) (_dayOffsetS : ℤ) : Option ℤ :=
  countLoop (fun dt => ! isWeekendOff dt) toTs 60 (toTs - fromTs).toNat fromTs 0

/-- The bars of a day that do not begin on a Saturday. -/
def dailyBars (fromTs toTs tfMinutes dayOffsetS : ℤ) : Option ℤ :=
  let barS := tfMinutes * 60
  let firstBucket := (fromTs - dayOffsetS) / barS * barS + dayOffsetS
  countLoop (fun dt => dt.weekday ≠ 5) toTs barS (toTs - firstBucket).toNat firstBucket 0

/-- The exact way: minute by minute. -/
def exactBars (fromTs toTs tfMinutes dayOffsetS : ℤ) : Option ℤ :=
  (countFxTradingMinutes fromTs toTs dayOffsetS).map (· / tfMinutes)

/-- The fast way: 7200 minutes a week. -/
def weeklyBars (fromTs toTs tfMinutes : ℤ) : ℤ :=
  let fxMinPerWeek : ℤ := 5 * 24 * 60
  let weeks : ℚ := (toTs - fromTs : ℤ) / (7 * 86400 : ℤ)
  ⌊weeks * fxMinPerWeek⌋ / tfMinutes

def expectedBarCount (fromTs toTs tfMinutes dayOffsetS : ℤ) : Option ℤ :=
  let rangeDays : ℚ := (toTs - fromTs : ℤ) / (86400 : ℤ)
  if 1440 ≤ tfMinutes then
    dailyBars fromTs toTs tfMinutes dayOffsetS
  else if rangeDays ≤ 730 then
    exactBars fromTs toTs tfMinutes dayOffsetS
  else
    -- the range is more than 730 days long here, so `int` rounds its minutes down
    some (weeklyBars fromTs toTs tfMinutes)

/-! ### The hours of trading -/

/-- A second of the hours of trading: within five days of a Sunday, 21:00 UTC. -/
abbrev InSession (ts : ℤ) : Prop := PeriodicCounts.InPart 604800 432000 (ts - 334800)

/-- The minutes of the hours of trading in a range. -/
def sessionMinutes (fromTs toTs : ℤ) : ℤ :=
  (Nat.count (fun k : ℕ => InSession (fromTs + k)) (toTs - fromTs).toNat : ℕ) / 60

/-- A second that datetimes have. -/
def InCalendar (ts : ℤ) : Prop := monthStart 12 ≤ 1000000 * ts ∧ 1000000 * ts < monthStart 120000

/-- What is meant of a range: the two ways agree, with the hours of trading and with what is expected. -/
structure Agree (fromTs toTs tfMinutes dayOffsetS : ℤ) : Prop where
  exact : exactBars fromTs toTs tfMinutes dayOffsetS = some (weeklyBars fromTs toTs tfMinutes)
  weekly : weeklyBars fromTs toTs tfMinutes = sessionMinutes fromTs toTs / tfMinutes
  expected : expectedBarCount fromTs toTs tfMinutes dayOffsetS =
    some (sessionMinutes fromTs toTs / tfMinutes)

/-! ### The loop -/

variable {fromTs toTs ts step total tfMinutes : ℤ} {counted : AwareDatetime → Bool}

theorem utcFromTimestamp_of_inCalendar (h : InCalendar ts) :
    ∃ dt, utcFromTimestamp (1000000 * ts) = some dt ∧ dt.wall = 1000000 * ts :=
  ⟨_, dif_pos h, rfl⟩

theorem utcFromTimestamp_of_not_inCalendar (h : ¬ InCalendar ts) :
    utcFromTimestamp (1000000 * ts) = none :=
  dif_neg h

/-- The seconds that are left are the later ones of all. -/
theorem second_succ (ts step : ℤ) (k : ℕ) : ts + step + step * k = ts + step * (k + 1 : ℕ) := by
  push_cast
  ring

/-- With enough rounds the loop counts the seconds before its end, if datetimes have all of them and the
property that is looked at is one of the second. -/
theorem countLoop_eq {p : ℤ → Prop} [DecidablePred p]
    (hp : ∀ dt : AwareDatetime, ∀ t, dt.wall = 1000000 * t → (counted dt = true ↔ p t))
    (n : ℕ) (total : ℤ) {rounds : ℕ} (hn : rounds ≤ n)
    (hrounds : ∀ k : ℕ, ts + step * k < toTs ↔ k < rounds)
    (hcal : ∀ k : ℕ, k < rounds → InCalendar (ts + step * k)) :
    countLoop counted toTs step n ts total =
      some (total + (Nat.count (fun k : ℕ => p (ts + step * k)) rounds : ℕ)) := by
  induction n generalizing ts total rounds with
  | zero =>
      obtain rfl : rounds = 0 := by omega
      simp [countLoop]
  | succ n ih =>
      rw [countLoop]
      cases rounds with
      | zero =>
          have hend : ¬ ts < toTs := by simpa using hrounds 0
          rw [if_neg hend]
          simp
      | succ rounds =>
          have hlt : ts < toTs := by simpa using hrounds 0
          have hfirst : InCalendar ts := by simpa using hcal 0 (by omega)
          obtain ⟨dt, hdt, hwall⟩ := utcFromTimestamp_of_inCalendar hfirst
          have hle : rounds ≤ n := by omega
          rw [if_pos hlt, hdt]
          refine (ih _ hle ?_ ?_).trans ?_
          · intro k
            rw [second_succ, hrounds]
            omega
          · intro k hk
            rw [second_succ]
            exact hcal (k + 1) (by omega)
          · rw [Nat.count_succ']
            simp only [second_succ]
            by_cases hcount : p ts
            · simp [(hp dt ts hwall).2 hcount, hcount]
              omega
            · have hnot : counted dt = false := by simpa using mt (hp dt ts hwall).1 hcount
              simp [hnot, hcount]

/-- A loop that returns has seen seconds that datetimes have only. -/
theorem inCalendar_of_countLoop {result : ℤ} (n : ℕ)
    (h : countLoop counted toTs step n ts total = some result) {rounds : ℕ} (hn : rounds ≤ n)
    (hrounds : ∀ k : ℕ, ts + step * k < toTs ↔ k < rounds) :
    ∀ k : ℕ, k < rounds → InCalendar (ts + step * k) := by
  induction n generalizing ts total rounds with
  | zero =>
      intro k hk
      omega
  | succ n ih =>
      intro k hk
      have hlt : ts < toTs := by simpa using (hrounds 0).2 (by omega)
      rw [countLoop, if_pos hlt] at h
      obtain ⟨dt, hdt, hrest⟩ := Option.bind_eq_some_iff.1 h
      have hcal : InCalendar ts := by
        by_contra hnot
        rw [utcFromTimestamp_of_not_inCalendar hnot] at hdt
        cases hdt
      cases k with
      | zero => simpa using hcal
      | succ k =>
          have hle : rounds - 1 ≤ n := by omega
          have hseen := ih hrest hle (fun k => by rw [second_succ, hrounds]; omega) k (by omega)
          rwa [second_succ] at hseen

/-! ### Weeks -/

/-- The minutes that are gone through are counted from a Sunday, 21:00, to the end of the Friday. -/
theorem isWeekendOff_iff (dt : AwareDatetime) (t : ℤ) (hwall : dt.wall = 1000000 * t) :
    (! isWeekendOff dt) = true ↔ PeriodicCounts.InPart 604800 442800 (t - 334800) := by
  have hday : dt.weekday = (t / 86400 + 3) % 7 := by
    rw [AwareDatetime.weekday, weekdayOf, hwall, dayMicros]
    omega
  have hhour : dt.hour = t % 86400 / 3600 := by
    rw [AwareDatetime.hour, hwall, dayMicros]
    omega
  simp only [isWeekendOff, hday, hhour, PeriodicCounts.InPart, Bool.not_eq_true', Bool.or_eq_false_iff,
    Bool.and_eq_false_iff, decide_eq_false_iff_not]
  omega

/-- Where a range of weeks is, for datetimes: all its minutes are of the calendar. -/
def WeeksInCalendar (fromTs : ℤ) (weeks : ℕ) : Prop :=
  weeks = 0 ∨ InCalendar fromTs ∧ InCalendar (fromTs + 604800 * weeks - 60)

theorem rounds_weeks (fromTs : ℤ) (weeks : ℕ) (k : ℕ) :
    fromTs + 60 * k < fromTs + 604800 * weeks ↔ k < 10080 * weeks := by
  omega

/-- The minutes that are gone through in a number of weeks. -/
theorem count_weeks (fromTs : ℤ) (weeks : ℕ) :
    Nat.count (fun k : ℕ => PeriodicCounts.InPart 604800 442800 (fromTs + 60 * k - 334800))
      (10080 * weeks) = 7380 * weeks := by
  have hminute : (fun k : ℕ => PeriodicCounts.InPart 604800 442800 (fromTs + 60 * k - 334800)) =
      fun k : ℕ => PeriodicCounts.InPart 10080 7380 ((fromTs - 334800) / 60 + k) := by
    funext k
    simp only [PeriodicCounts.InPart, eq_iff_iff]
    omega
  simp only [hminute]
  exact PeriodicCounts.count_inPart (by decide) _ weeks

/-- The exact way, for a number of weeks. -/
theorem exactBars_weeks {weeks : ℕ} (hcal : WeeksInCalendar fromTs weeks) (tfMinutes dayOffsetS : ℤ) :
    exactBars fromTs (fromTs + 604800 * weeks) tfMinutes dayOffsetS =
      some (7380 * weeks / tfMinutes) := by
  have hsecond : ∀ k : ℕ, k < 10080 * weeks → InCalendar (fromTs + 60 * k) := by
    intro k hk
    obtain rfl | ⟨hfirst, hlast⟩ := hcal
    · omega
    · constructor
      · exact hfirst.1.trans (by omega)
      · exact lt_of_le_of_lt (by omega) hlast.2
  have hloop := countLoop_eq isWeekendOff_iff (fromTs + 604800 * weeks - fromTs).toNat 0 (by omega)
    (rounds_weeks fromTs weeks) hsecond
  rw [exactBars, countFxTradingMinutes, hloop, count_weeks]
  simp

/-- It only returns for weeks that datetimes have. -/
theorem weeksInCalendar_of_exactBars {weeks : ℕ} {dayOffsetS result : ℤ}
    (h : exactBars fromTs (fromTs + 604800 * weeks) tfMinutes dayOffsetS = some result) :
    WeeksInCalendar fromTs weeks := by
  obtain ⟨minutes, hminutes, -⟩ := Option.map_eq_some_iff.1 h
  have hseen := inCalendar_of_countLoop _ hminutes (by omega) (rounds_weeks fromTs weeks)
  rcases Nat.eq_zero_or_pos weeks with rfl | hpos
  · exact Or.inl rfl
  · have hfirst := hseen 0 (by omega)
    have hlast := hseen (10080 * weeks - 1) (by omega)
    have hplace : fromTs + 60 * ((10080 * weeks - 1 : ℕ) : ℤ) = fromTs + 604800 * weeks - 60 := by
      omega
    rw [hplace] at hlast
    exact Or.inr ⟨by simpa using hfirst, hlast⟩

/-- The fast way, for a number of weeks. -/
theorem weeklyBars_weeks (fromTs tfMinutes : ℤ) (weeks : ℕ) :
    weeklyBars fromTs (fromTs + 604800 * weeks) tfMinutes = 7200 * weeks / tfMinutes := by
  have hminutes : (((fromTs + 604800 * weeks - fromTs : ℤ) : ℚ) / (7 * 86400 : ℤ)) * (5 * 24 * 60 : ℤ) =
      ((7200 * weeks : ℤ) : ℚ) := by
    push_cast
    ring
  rw [weeklyBars]
  simp only [hminutes, Int.floor_intCast]

/-- The hours of trading, in a number of weeks. -/
theorem sessionMinutes_weeks (fromTs : ℤ) (weeks : ℕ) :
    sessionMinutes fromTs (fromTs + 604800 * weeks) = 7200 * weeks := by
  have hshift : (fun k : ℕ => InSession (fromTs + k)) =
      fun k : ℕ => PeriodicCounts.InPart 604800 432000 (fromTs - 334800 + k) := by
    funext k
    rw [InSession, sub_add_eq_add_sub]
  have hlength : (fromTs + 604800 * weeks - fromTs).toNat = 604800 * weeks := by omega
  have hcount := PeriodicCounts.count_inPart (by decide : 432000 ≤ 604800) (fromTs - 334800) weeks
  rw [sessionMinutes, hlength]
  simp only [hshift, hcount]
  omega

/-- What is expected of a number of weeks: the exact way is taken for 104 of them and less. -/
theorem expectedBarCount_weeks (fromTs dayOffsetS : ℤ) (weeks : ℕ) (hsub : tfMinutes < 1440) :
    expectedBarCount fromTs (fromTs + 604800 * weeks) tfMinutes dayOffsetS =
      if weeks ≤ 104 then exactBars fromTs (fromTs + 604800 * weeks) tfMinutes dayOffsetS
      else some (weeklyBars fromTs (fromTs + 604800 * weeks) tfMinutes) := by
  have hdays : ((fromTs + 604800 * weeks - fromTs : ℤ) : ℚ) / (86400 : ℤ) ≤ 730 ↔ weeks ≤ 104 := by
    have hweeks : ((fromTs + 604800 * weeks - fromTs : ℤ) : ℚ) / (86400 : ℤ) = ((7 * weeks : ℕ) : ℚ) := by
      push_cast
      ring
    rw [hweeks]
    constructor
    · intro h
      have hle : 7 * weeks ≤ 730 := by exact_mod_cast h
      omega
    · intro h
      have hle : 7 * weeks ≤ 730 := by omega
      exact_mod_cast hle
  rw [expectedBarCount, if_neg (not_le.2 hsub)]
  simp only [hdays]

/-! ### Whether the two ways agree -/

/-- The minutes of the Friday nights do not make another bar just if they fit into the last one. -/
theorem div_eq_div_iff_lt (htf : 0 < tfMinutes) (weeks : ℕ) :
    7380 * (weeks : ℤ) / tfMinutes = 7200 * weeks / tfMinutes ↔
      7200 * (weeks : ℤ) % tfMinutes + 180 * weeks < tfMinutes := by
  have hsplit := Int.mul_ediv_add_emod (7200 * weeks) tfMinutes
  have hmod := Int.emod_nonneg (7200 * weeks) htf.ne'
  have hsum : 7380 * (weeks : ℤ) =
      7200 * weeks % tfMinutes + 180 * weeks + tfMinutes * (7200 * weeks / tfMinutes) := by
    linarith
  rw [hsum, Int.add_mul_ediv_left _ _ htf.ne', add_eq_right]
  constructor
  · intro hzero
    have hlt := Int.lt_ediv_add_one_mul_self (7200 * (weeks : ℤ) % tfMinutes + 180 * weeks) htf
    rwa [hzero, zero_add, one_mul] at hlt
  · exact Int.ediv_eq_zero_of_lt (by omega)

/-- The two ways agree, with each other, the hours of trading and what is expected, just for weeks that
datetimes have whose Friday nights fit into the last bar. -/
theorem expectedBars_iff (fromTs dayOffsetS : ℤ) (weeks : ℕ) {tfMinutes : ℤ} (htf : 0 < tfMinutes)
    (hsub : tfMinutes < 1440) :
    Agree fromTs (fromTs + 604800 * weeks) tfMinutes dayOffsetS ↔
      WeeksInCalendar fromTs weeks ∧ 7200 * (weeks : ℤ) % tfMinutes + 180 * weeks < tfMinutes := by
  constructor
  · intro h
    have hcal := weeksInCalendar_of_exactBars h.exact
    have hsame := h.exact
    rw [exactBars_weeks hcal, weeklyBars_weeks, Option.some.injEq] at hsame
    exact ⟨hcal, (div_eq_div_iff_lt htf weeks).1 hsame⟩
  · rintro ⟨hcal, hfit⟩
    have hsame := (div_eq_div_iff_lt htf weeks).2 hfit
    have hexact := exactBars_weeks hcal tfMinutes dayOffsetS
    have hweekly := weeklyBars_weeks fromTs tfMinutes weeks
    have hsession := sessionMinutes_weeks fromTs weeks
    rw [hsame] at hexact
    refine ⟨by rw [hexact, hweekly], by rw [hweekly, hsession], ?_⟩
    rw [expectedBarCount_weeks _ _ _ hsub, hexact, hweekly, hsession, ite_self]

/-- A week of 4h bars from the start of 2024: 30 of them, whichever way. -/
theorem expectedBars_iff_fourHours :
    Agree 1704067200 (1704067200 + 604800 * (1 : ℕ)) 240 18000 :=
  (expectedBars_iff 1704067200 18000 1 (by decide) (by decide)).2
    ⟨Or.inr ⟨⟨by decide +kernel, by decide +kernel⟩, ⟨by decide +kernel, by decide +kernel⟩⟩, by decide⟩

/-- Of 104 weeks of 1h bars from the start of 2024, more are expected than of 105 weeks. -/
theorem longer_expects_fewer :
    ¬ Agree 1704067200 (1704067200 + 604800 * (104 : ℕ)) 60 18000 ∧
      expectedBarCount 1704067200 (1704067200 + 604800 * (104 : ℕ)) 60 18000 = some 12792 ∧
      expectedBarCount 1704067200 (1704067200 + 604800 * (105 : ℕ)) 60 18000 = some 12600 := by
  have hcal : WeeksInCalendar 1704067200 104 :=
    Or.inr ⟨⟨by decide +kernel, by decide +kernel⟩, ⟨by decide +kernel, by decide +kernel⟩⟩
  have hexact := exactBars_weeks hcal 60 18000
  have hweekly := fun weeks => weeklyBars_weeks 1704067200 60 weeks
  refine ⟨fun h => ?_, ?_, ?_⟩
  · have hsame := h.exact
    rw [hexact, hweekly] at hsame
    revert hsame
    decide
  · rw [expectedBarCount_weeks _ _ _ (by decide), hexact]
    rfl
  · rw [expectedBarCount_weeks _ _ _ (by decide), hweekly]
    rfl

end AggregationReport
