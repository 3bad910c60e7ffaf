/-
**The next opening that is announced.**

For the profiles whose hours are those of New York's clocks, the opening announced for a closed market is
the next one, whatever the clocks do on the way: they are changed at hours at which no profile opens or
closes.  The hours of the currencies are those of UTC; the opening announced for them is the next one only
at a weekend whose Sunday the clocks of New York already show, and in winter.

Main definitions:

* `MarketHours.Says` — the state that is told for an instant;
* `MarketHours.Block` — a stretch of readings in which a profile is closed;
* `MarketHours.ReopensOnTime` — the currencies open when their announced opening comes.

Main results:

* `ZoneInfo.IsNewYork.exists_shownOnce` — New York shows every reading but those of changes once;
* `MarketHours.exists_block` — a closed reading is in a stretch that ends at the announced opening;
* `MarketHours.nextOpen_iff` — when the announced opening is the next one.
-/

import Brokerage.MarketHours
import Brokerage.WallClock

set_option relaxedAutoImplicit false
set_option autoImplicit false

/-! ### The clocks of New York -/

/-- Two readings of one day at which changes are made are on the same side of any other reading. -/
theorem ChangeTime.same_side {x y b : ℤ} (hx : ChangeTime x) (hy : ChangeTime y)
    (hday : x / dayMicros = y / dayMicros) (hb : ¬ ChangeTime b) :
    (x < b ∧ y < b) ∨ (b < x ∧ b < y) := by
  have hweekday : weekdayOf y = weekdayOf x := by rw [weekdayOf, weekdayOf, hday]
  rw [ChangeTime] at hx hy hb
  rw [hweekday] at hy
  by_cases hbday : b / dayMicros = x / dayMicros
  · rw [show weekdayOf b = weekdayOf x by rw [weekdayOf, weekdayOf, hbday]] at hb
    generalize minuteMicros * (if weekdayOf x = 6 then 17 * 60 else 9 * 60) = limit at hx hy hb
    simp only [dayMicros] at *
    omega
  · simp only [dayMicros] at *
    omega

namespace ZoneInfo.IsNewYork

variable {tz : ZoneInfo}

theorem reading_bounds (h : tz.IsNewYork) (u : ℤ) :
    u - 18000000000 ≤ tz.reading u ∧ tz.reading u ≤ u - 14400000000 := by
  have := h.offset u
  rw [ZoneInfo.reading]
  omega

/-- Changes are made at their hours only. -/
theorem steady (h : tz.IsNewYork) {b : ℤ} (hb : ¬ ChangeTime b) : Steady tz.reading b := by
  intro u hu
  have hpred : tz.reading (u - 1) + 1 = u + 1000000 * tz.offsetAt (u - 1) := by
    rw [ZoneInfo.reading]
    ring
  rw [hpred] at hu ⊢
  obtain ⟨hday, hbefore, hafter⟩ := h.change u fun heq => hu (by rw [ZoneInfo.reading, heq])
  exact hbefore.same_side hafter hday hb

/-- New York shows such a reading once, and its offset leads back to that instant. -/
theorem exists_shownOnce (h : tz.IsNewYork) {b : ℤ} (hb : ¬ ChangeTime b) :
    ∃ i, ShownOnce tz.reading b i ∧ ∀ fold, b - 1000000 * tz.newYork b fold = i := by
  obtain ⟨i, hi⟩ := (h.steady hb).exists_shownOnce (d := 18000000000) fun u => by
    have := h.reading_bounds u
    omega
  refine ⟨i, hi, fun fold => ?_⟩
  have honce := h.once i (fun v hv => hi.eq_of_reading (hv.trans hi.reading)) fold
  rw [hi.reading] at honce
  have hreading := hi.reading
  rw [ZoneInfo.reading] at hreading
  omega

/-- From an instant on whose reading is of the calendar, the readings are not before the calendar. -/
theorem le_reading (h : tz.IsNewYork) {t u : ℤ} (ht : monthStart 12 ≤ tz.reading t) (htu : t ≤ u) :
    monthStart 12 ≤ tz.reading u := by
  have hstart : ¬ ChangeTime (monthStart 12) := by
    rw [ChangeTime]
    decide +kernel
  obtain ⟨i, hi, -⟩ := h.exists_shownOnce hstart
  exact (hi.le_iff u).2 (((hi.le_iff t).1 ht).trans htu)

end ZoneInfo.IsNewYork

namespace MarketHours

/-! ### The loop over the weekend -/

theorem skipWeekend_eq (next : AwareDatetime) :
    skipWeekend next = if 5 ≤ next.weekday then next.nextDay.bind skipWeekend else some next := by
  rw [skipWeekend]
  split
  · cases next.nextDay <;> rfl
  · rfl

theorem weekdayOf_readingAt (day : ℤ) {mins : ℤ} (h0 : 0 ≤ mins) (h1440 : mins < 1440) :
    weekdayOf (readingAt day mins) = (day + 3) % 7 := by
  simp only [weekdayOf, readingAt, dayMicros, minuteMicros]
  omega

/-- A day of the calendar that is not of the weekend is not skipped. -/
theorem replaceAt_bind_skipWeekend (dt : AwareDatetime) {day mins : ℤ} (h0 : 0 ≤ mins)
    (h1440 : mins < 1440) (hday : (day + 3) % 7 < 5) :
    (dt.replaceAt day mins).bind skipWeekend = dt.replaceAt day mins := by
  cases hnext : dt.replaceAt day mins with
  | none => rfl
  | some next =>
      have hwall := (AwareDatetime.replaceAt_spec hnext).2
      rw [Option.bind_some, skipWeekend_eq, AwareDatetime.weekday, hwall,
        weekdayOf_readingAt day h0 h1440, if_neg (not_le.2 hday)]

/-- A day of the weekend is skipped. -/
theorem replaceAt_bind_skipWeekend_of_weekend (dt : AwareDatetime) {day mins : ℤ}
    (hmin : daysBefore 12 ≤ day) (h0 : 0 ≤ mins) (h1440 : mins < 1440) (hday : 5 ≤ (day + 3) % 7) :
    (dt.replaceAt day mins).bind skipWeekend = (dt.replaceAt (day + 1) mins).bind skipWeekend := by
  have hsucc : readingAt (day + 1) mins = readingAt day mins + dayMicros := by
    simp only [readingAt]
    ring
  have hlow : monthStart 12 ≤ readingAt day mins := by
    simp only [monthStart, readingAt, dayMicros, minuteMicros]
    omega
  have hpos : 0 < dayMicros := by decide
  by_cases hmax : readingAt day mins < monthStart 120000
  · have hweekday : 5 ≤ weekdayOf (readingAt day mins) := by
      rwa [weekdayOf_readingAt day h0 h1440]
    rw [AwareDatetime.replaceAt, dif_pos ⟨hlow, hmax⟩, Option.bind_some, skipWeekend_eq,
      AwareDatetime.weekday, if_pos hweekday, AwareDatetime.nextDay, AwareDatetime.replaceAt]
    simp only [hsucc]
    by_cases hnext : readingAt day mins + dayMicros < monthStart 120000
    · rw [dif_pos hnext, dif_pos ⟨by omega, hnext⟩]
    · rw [dif_neg hnext, dif_neg fun h => hnext h.2]
  · have hnext : ¬ readingAt (day + 1) mins < monthStart 120000 := by omega
    rw [AwareDatetime.replaceAt, dif_neg fun h => hmax h.2, AwareDatetime.replaceAt,
      dif_neg fun h => hnext h.2]

/-! ### Stretches of closed readings -/

/-- A stretch of readings in which a profile is closed, and whose end is announced.  Neither end is at
an hour of changes. -/
structure Block (profile : Profile) (start day mins : ℤ) : Prop where
  steadyStart : ¬ ChangeTime start
  steadyEnd : ¬ ChangeTime (readingAt day mins)
  minsRange : 0 ≤ mins ∧ mins ≤ 18 * 60
  closed : ∀ dtUtc dtNy : AwareDatetime, start ≤ dtNy.wall → dtNy.wall < readingAt day mins →
    (profile.state dtUtc dtNy).1 = false ∧
      getNextOpenNy false (profile.state dtUtc dtNy).2 dtNy profile =
        (dtNy.replaceAt day mins).map some
  opens : ∀ dtUtc dtNy : AwareDatetime, dtNy.wall = readingAt day mins →
    (profile.state dtUtc dtNy).1 = true

theorem not_changeTime_readingAt {day mins : ℤ} (h1440 : mins < 1440)
    (h : 17 * 60 ≤ mins ∨ ((day + 3) % 7 ≠ 6 ∧ 9 * 60 ≤ mins)) :
    ¬ ChangeTime (readingAt day mins) := by
  rintro ⟨-, hlt⟩
  rw [weekdayOf_readingAt day (by omega) h1440] at hlt
  simp only [readingAt, dayMicros, minuteMicros] at hlt
  split at hlt <;> omega

/-- The day of the week and the minute of a reading. -/
theorem minsSinceMidnight_spec (dt : AwareDatetime) :
    dt.weekday = (dt.day + 3) % 7 ∧ 0 ≤ minsSinceMidnight dt ∧ minsSinceMidnight dt < 1440 ∧
      ∀ day mins, 0 ≤ mins → mins < 1440 →
        (readingAt day mins ≤ dt.wall ↔
          day < dt.day ∨ (day = dt.day ∧ mins ≤ minsSinceMidnight dt)) := by
  simp only [AwareDatetime.weekday, AwareDatetime.day, weekdayOf, minsSinceMidnight, readingAt,
    dayMicros, minuteMicros]
  refine ⟨trivial, by omega, by omega, fun day mins h0 h1440 => ?_⟩
  omega

/-- A datetime is between two minutes. -/
theorem mem_stretch {dt : AwareDatetime} {startDay startMins day mins : ℤ}
    (hstartRange : 0 ≤ startMins ∧ startMins < 1440) (hrange : 0 ≤ mins ∧ mins < 1440)
    (hstart : startDay < dt.day ∨ (startDay = dt.day ∧ startMins ≤ minsSinceMidnight dt))
    (hend : dt.day < day ∨ (dt.day = day ∧ minsSinceMidnight dt < mins)) :
    readingAt startDay startMins ≤ dt.wall ∧ dt.wall < readingAt day mins := by
  obtain ⟨-, -, -, hreading⟩ := minsSinceMidnight_spec dt
  rw [← not_le, hreading _ _ hstartRange.1 hstartRange.2, hreading _ _ hrange.1 hrange.2]
  omega

/-- The profiles with a break. -/
def Profile.HasBreak (profile : Profile) : Prop :=
  profile = .ostiumXauBreak ∨ profile = .ostiumIndicesBreak

theorem Profile.HasBreak.state {profile : Profile} (h : profile.HasBreak)
    (dtUtc dtNy : AwareDatetime) : profile.state dtUtc dtNy =
      breakState (17 * 60) (18 * 60) (minsSinceMidnight dtNy) dtNy.weekday := by
  rcases h with rfl | rfl <;> rfl

/-- Today's 18:00, before it. -/
theorem nextSunday18_of_sunday {dtNy : AwareDatetime} (hday : dtNy.weekday = 6)
    (hmins : minsSinceMidnight dtNy < 18 * 60) :
    nextSunday18 dtNy = dtNy.replaceAt dtNy.day (18 * 60) := by
  rw [nextSunday18, if_pos hday]
  cases hnext : dtNy.replaceAt dtNy.day (18 * 60) with
  | none => rfl
  | some candidate =>
      have hlt : dtNy.wall < candidate.wall := by
        rw [(AwareDatetime.replaceAt_spec hnext).2, ← not_le,
          (minsSinceMidnight_spec dtNy).2.2.2 _ _ (by decide) (by decide)]
        omega
      rw [Option.bind_some, if_pos hlt]

theorem minsSinceMidnight_of_wall {dt : AwareDatetime} {day mins : ℤ} (h0 : 0 ≤ mins)
    (h1440 : mins < 1440) (h : dt.wall = readingAt day mins) :
    dt.day = day ∧ minsSinceMidnight dt = mins := by
  simp only [AwareDatetime.day, minsSinceMidnight, h, readingAt, dayMicros, minuteMicros]
  omega

/-- The profiles with a break open when it is over. -/
theorem Profile.HasBreak.opens {profile : Profile} (h : profile.HasBreak) {day : ℤ}
    (hday : (day + 3) % 7 ≠ 4 ∧ (day + 3) % 7 ≠ 5) {dtUtc dtNy : AwareDatetime}
    (hwall : dtNy.wall = readingAt day (18 * 60)) : (profile.state dtUtc dtNy).1 = true := by
  obtain ⟨hdtDay, hmins⟩ := minsSinceMidnight_of_wall (by decide) (by decide) hwall
  have hweekday := (minsSinceMidnight_spec dtNy).1
  rw [h.state, breakState, hmins, if_neg (by omega)]
  by_cases hsunday : dtNy.weekday = 6
  · rw [if_pos hsunday]
    rfl
  · rw [if_neg hsunday, if_neg (by omega)]
    rfl

/-- The break of a weekday. -/
theorem dailyBreak_block {profile : Profile} (h : profile.HasBreak) (day : ℤ)
    (hday : (day + 3) % 7 ≤ 3) : Block profile (readingAt day (17 * 60)) day (18 * 60) where
  steadyStart := not_changeTime_readingAt (by decide) (.inl (by decide))
  steadyEnd := not_changeTime_readingAt (by decide) (.inl (by decide))
  minsRange := by decide
  closed dtUtc dtNy hstart hend := by
    obtain ⟨hweekday, -, -, hreading⟩ := minsSinceMidnight_spec dtNy
    rw [hreading _ _ (by decide) (by decide)] at hstart
    rw [← not_le, hreading _ _ (by decide) (by decide)] at hend
    obtain rfl : day = dtNy.day := by omega
    have hmins : 17 * 60 ≤ minsSinceMidnight dtNy ∧ minsSinceMidnight dtNy < 18 * 60 := by omega
    have hstate : profile.state dtUtc dtNy = (false, .dailyBreak) := by
      rw [h.state, breakState, if_neg (by omega), if_neg (by omega), if_neg (by omega),
        if_neg (by omega), if_pos (by omega)]
    rw [hstate]
    rcases h with rfl | rfl
    · exact ⟨rfl, if_pos ⟨rfl, hmins⟩⟩
    · exact ⟨rfl, if_pos ⟨rfl, hmins⟩⟩
  opens dtUtc dtNy hwall := h.opens (by omega) hwall

/-- The weekend of the profiles with a break. -/
theorem breakWeekend_block {profile : Profile} (h : profile.HasBreak) (friday : ℤ)
    (hfriday : (friday + 3) % 7 = 4) :
    Block profile (readingAt friday (17 * 60)) (friday + 2) (18 * 60) where
  steadyStart := not_changeTime_readingAt (by decide) (.inl (by decide))
  steadyEnd := not_changeTime_readingAt (by decide) (.inl (by decide))
  minsRange := by decide
  closed dtUtc dtNy hstart hend := by
    obtain ⟨hweekday, -, -, hreading⟩ := minsSinceMidnight_spec dtNy
    rw [hreading _ _ (by decide) (by decide)] at hstart
    rw [← not_le, hreading _ _ (by decide) (by decide)] at hend
    have hnext : getNextOpenNy false .weekend dtNy profile = (nextSunday18 dtNy).map some :=
      if_pos h
    obtain hday | hday | hday :
        dtNy.day = friday ∨ dtNy.day = friday + 1 ∨ dtNy.day = friday + 2 := by
      omega
    · have hstate : profile.state dtUtc dtNy = (false, .weekend) := by
        rw [h.state, breakState, if_neg (by omega), if_neg (by omega), if_pos (by omega)]
      have hdays : daysTo 6 dtNy.weekday = 2 := by
        rw [hweekday, hday, hfriday]
        rfl
      rw [hstate, hnext, nextSunday18, if_neg (by omega), hdays, hday]
      exact ⟨rfl, rfl⟩
    · have hstate : profile.state dtUtc dtNy = (false, .weekend) := by
        rw [h.state, breakState, if_pos (by omega)]
      have hdays : daysTo 6 dtNy.weekday = 1 := by
        rw [show dtNy.weekday = 5 by omega]
        rfl
      rw [hstate, hnext, nextSunday18, if_neg (by omega), hdays, hday, add_assoc]
      exact ⟨rfl, rfl⟩
    · have hmins : minsSinceMidnight dtNy < 18 * 60 := by omega
      have hstate : profile.state dtUtc dtNy = (false, .weekend) := by
        rw [h.state, breakState, if_neg (by omega), if_pos (by omega), if_neg (not_le.2 hmins),
          decide_eq_false (not_le.2 hmins)]
      rw [hstate, hnext, nextSunday18_of_sunday (by omega) hmins, hday]
      exact ⟨rfl, rfl⟩
  opens dtUtc dtNy hwall := h.opens (by omega) hwall

theorem Profile.HasBreak.exists_block {profile : Profile} (h : profile.HasBreak)
    {dtUtc dtNy : AwareDatetime} (hclosed : (profile.state dtUtc dtNy).1 = false) :
    ∃ start day mins, Block profile start day mins ∧ start ≤ dtNy.wall ∧
      dtNy.wall < readingAt day mins := by
  have hweekday := (minsSinceMidnight_spec dtNy).1
  have hstate : dtNy.weekday = 5 ∨ (dtNy.weekday = 6 ∧ minsSinceMidnight dtNy < 18 * 60) ∨
      (dtNy.weekday = 4 ∧ 17 * 60 ≤ minsSinceMidnight dtNy) ∨
      (dtNy.weekday ≤ 3 ∧ 17 * 60 ≤ minsSinceMidnight dtNy ∧ minsSinceMidnight dtNy < 18 * 60) := by
    by_contra hopen
    rw [h.state, breakState, if_neg (by omega)] at hclosed
    by_cases hsunday : dtNy.weekday = 6
    · rw [if_pos hsunday, decide_eq_false_iff_not] at hclosed
      omega
    · rw [if_neg hsunday, if_neg (by omega)] at hclosed
      split at hclosed
      · cases hclosed
      · rw [if_neg (by omega)] at hclosed
        cases hclosed
  -- the weekend is that of the last Friday
  rcases hstate with hsaturday | ⟨hsunday, hmins⟩ | ⟨hfriday, hmins⟩ | ⟨hday, hmins⟩
  · exact ⟨_, _, _, breakWeekend_block h (dtNy.day - 1) (by omega),
      mem_stretch (by decide) (by decide) (by omega) (by omega)⟩
  · exact ⟨_, _, _, breakWeekend_block h (dtNy.day - 2) (by omega),
      mem_stretch (by decide) (by decide) (by omega) (by omega)⟩
  · exact ⟨_, _, _, breakWeekend_block h dtNy.day (by omega),
      mem_stretch (by decide) (by decide) (by omega) (by omega)⟩
  · exact ⟨_, _, _, dailyBreak_block h dtNy.day (by omega),
      mem_stretch (by decide) (by decide) (by omega) (by omega)⟩

/-- The profiles that are open in the daytime of weekdays, and when they open. -/
def Profile.OpensAt (profile : Profile) (start : ℤ) : Prop :=
  (profile = .usEquitiesNy ∧ start = 9 * 60 + 30) ∨
    (profile = .ostiumRthEquities ∧ start = 9 * 60 + 31)

namespace Profile.OpensAt

variable {profile : Profile} {start : ℤ}

theorem state (h : profile.OpensAt start) (dtUtc dtNy : AwareDatetime) :
    profile.state dtUtc dtNy =
      if 5 ≤ dtNy.weekday then (false, .weekend)
      else if start ≤ minsSinceMidnight dtNy ∧ minsSinceMidnight dtNy < 16 * 60 then (true, .open_)
      else (false, .rthClosed) := by
  rcases h with ⟨rfl, rfl⟩ | ⟨rfl, rfl⟩
  · rfl
  · -- one of the two includes its last minute
    have hlast : minsSinceMidnight dtNy ≤ nvdaOpenEnd ↔ minsSinceMidnight dtNy < 16 * 60 := by
      rw [nvdaOpenEnd]
      omega
    simp only [Profile.state, nvdaRthState, hlast]
    rfl

theorem nextOpen_weekend (h : profile.OpensAt start) (dtNy : AwareDatetime) :
    getNextOpenNy false .weekend dtNy profile =
      (dtNy.replaceAt (dtNy.day + daysTo 7 dtNy.weekday) start).map some := by
  rcases h with ⟨rfl, rfl⟩ | ⟨rfl, rfl⟩
  · rfl
  · rfl

theorem nextOpen_morning (h : profile.OpensAt start) {dtNy : AwareDatetime}
    (hmins : minsSinceMidnight dtNy < start) :
    getNextOpenNy false .rthClosed dtNy profile = (dtNy.replaceAt dtNy.day start).map some := by
  rcases h with ⟨rfl, rfl⟩ | ⟨rfl, rfl⟩
  · exact if_pos hmins
  · exact if_pos hmins

theorem nextOpen_evening (h : profile.OpensAt start) {dtNy : AwareDatetime}
    (hmins : 16 * 60 ≤ minsSinceMidnight dtNy) :
    getNextOpenNy false .rthClosed dtNy profile =
      ((dtNy.replaceAt (dtNy.day + 1) start).bind skipWeekend).map some := by
  rcases h with ⟨rfl, rfl⟩ | ⟨rfl, rfl⟩
  · exact if_neg (show ¬ minsSinceMidnight dtNy < 9 * 60 + 30 by omega)
  · exact (if_neg (show ¬ minsSinceMidnight dtNy < 9 * 60 + 31 by omega)).trans
      (if_pos (show 15 * 60 + 59 < minsSinceMidnight dtNy by omega))

/-- From a trading day's end to the start of the next one. -/
theorem block (h : profile.OpensAt start) {day next : ℤ}
    (hnext : ((day + 3) % 7 ≤ 3 ∧ next = day + 1) ∨ ((day + 3) % 7 = 4 ∧ next = day + 3)) :
    Block profile (readingAt day (16 * 60)) next start := by
  have hstart : 9 * 60 ≤ start ∧ start < 16 * 60 := by
    rcases h with ⟨-, rfl⟩ | ⟨-, rfl⟩ <;> decide
  refine ⟨not_changeTime_readingAt (by decide) (.inr ⟨by omega, by decide⟩),
    not_changeTime_readingAt (by omega) (.inr ⟨by omega, hstart.1⟩), by omega,
    fun dtUtc dtNy hlow hhigh => ?_, fun dtUtc dtNy hwall => ?_⟩
  · obtain ⟨hweekday, -, -, hreading⟩ := minsSinceMidnight_spec dtNy
    rw [hreading _ _ (by decide) (by decide)] at hlow
    rw [← not_le, hreading _ _ (by omega) (by omega)] at hhigh
    have hmin : daysBefore 12 ≤ dtNy.day := by
      have := dtNy.minyear
      simp only [monthStart, AwareDatetime.day, dayMicros] at *
      omega
    rw [h.state]
    by_cases hweekend : 5 ≤ dtNy.weekday
    · rw [if_pos hweekend, h.nextOpen_weekend]
      have hdays : dtNy.day + daysTo 7 dtNy.weekday = next := by
        rw [daysTo]
        split <;> omega
      rw [hdays]
      exact ⟨rfl, rfl⟩
    · rw [if_neg hweekend, if_neg (by omega)]
      refine ⟨rfl, ?_⟩
      by_cases hday : dtNy.day = day
      · rw [h.nextOpen_evening (by omega)]
        rcases hnext with ⟨hmidweek, rfl⟩ | ⟨hfriday, rfl⟩
        · rw [replaceAt_bind_skipWeekend dtNy (by omega) (by omega) (by omega), hday]
        · rw [replaceAt_bind_skipWeekend_of_weekend dtNy (by omega) (by omega) (by omega) (by omega),
            replaceAt_bind_skipWeekend_of_weekend dtNy (by omega) (by omega) (by omega) (by omega),
            replaceAt_bind_skipWeekend dtNy (by omega) (by omega) (by omega), hday]
          congr 2
          ring
      · obtain rfl : dtNy.day = next := by omega
        exact h.nextOpen_morning (by omega)
  · obtain ⟨hday, hmins⟩ := minsSinceMidnight_of_wall (by omega) (by omega) hwall
    have hweekday := (minsSinceMidnight_spec dtNy).1
    rw [h.state, if_neg (by omega), if_pos (by omega)]

theorem exists_block (h : profile.OpensAt start) {dtUtc dtNy : AwareDatetime}
    (hclosed : (profile.state dtUtc dtNy).1 = false) :
    ∃ start day mins, Block profile start day mins ∧ start ≤ dtNy.wall ∧
      dtNy.wall < readingAt day mins := by
  have hstart : 9 * 60 ≤ start ∧ start < 16 * 60 := by
    rcases h with ⟨-, rfl⟩ | ⟨-, rfl⟩ <;> decide
  obtain ⟨hweekday, hmin, hmax, -⟩ := minsSinceMidnight_spec dtNy
  rw [h.state] at hclosed
  -- the trading day before, and the next one
  obtain ⟨day, next, hnext, hlow, hhigh⟩ : ∃ day next,
      (((day + 3) % 7 ≤ 3 ∧ next = day + 1) ∨ ((day + 3) % 7 = 4 ∧ next = day + 3)) ∧
      (day < dtNy.day ∨ (day = dtNy.day ∧ 16 * 60 ≤ minsSinceMidnight dtNy)) ∧
      (dtNy.day < next ∨ (dtNy.day = next ∧ minsSinceMidnight dtNy < start)) := by
    by_cases hweekend : 5 ≤ dtNy.weekday
    · exact ⟨dtNy.day - (dtNy.weekday - 4), _, .inr ⟨by omega, rfl⟩, by omega, by omega⟩
    · rw [if_neg hweekend] at hclosed
      by_cases hmorning : minsSinceMidnight dtNy < start
      · by_cases hmonday : dtNy.weekday = 0
        · exact ⟨dtNy.day - 3, _, .inr ⟨by omega, rfl⟩, by omega, by omega⟩
        · exact ⟨dtNy.day - 1, _, .inl ⟨by omega, rfl⟩, by omega, by omega⟩
      · have hevening : 16 * 60 ≤ minsSinceMidnight dtNy := by
          by_contra hlt
          rw [if_pos (by omega)] at hclosed
          cases hclosed
        by_cases hfriday : dtNy.weekday = 4
        · exact ⟨dtNy.day, _, .inr ⟨by omega, rfl⟩, by omega, by omega⟩
        · exact ⟨dtNy.day, _, .inl ⟨by omega, rfl⟩, by omega, by omega⟩
  exact ⟨_, _, _, h.block hnext, mem_stretch (by decide) (by omega) hlow hhigh⟩

end Profile.OpensAt

/-- In a profile with hours of New York, a closed reading is in a stretch that ends at the announced
opening. -/
theorem exists_block {profile : Profile} (hfx : profile ≠ .fx245) {dtUtc dtNy : AwareDatetime}
    (hclosed : (profile.state dtUtc dtNy).1 = false) :
    ∃ start day mins, Block profile start day mins ∧ start ≤ dtNy.wall ∧
      dtNy.wall < readingAt day mins := by
  cases profile with
  | ostiumXauBreak => exact Profile.HasBreak.exists_block (.inl rfl) hclosed
  | ostiumIndicesBreak => exact Profile.HasBreak.exists_block (.inr rfl) hclosed
  | ostiumRthEquities => exact Profile.OpensAt.exists_block (.inr ⟨rfl, rfl⟩) hclosed
  | usEquitiesNy => exact Profile.OpensAt.exists_block (.inl ⟨rfl, rfl⟩) hclosed
  | fx245 => exact absurd rfl hfx

/-! ### What is told -/

variable {tz : ZoneInfo} {symbol : String} {profileOverride : Option String} {profile : Profile}

/-- The state that is told for an instant. -/
def Says (tz : ZoneInfo) (symbol : String) (profileOverride : Option String) (state : MarketState)
    (u : ℤ) : Prop :=
  ∃ dt r, utcFromTimestamp u = some dt ∧
    getMarketStateNy tz symbol (.inr dt) profileOverride = some r ∧ r.state = state

theorem astimezone_spec {dt dtNy : AwareDatetime} (hutc : dt.zone = .utc)
    (h : tz.astimezone dt = some dtNy) : dtNy.zone = .newYork ∧ dtNy.wall = tz.reading dt.wall := by
  have hinstant := Zones.instant_utc (z := tz.toZones) hutc
  rw [ZoneInfo.astimezone, if_neg (by rw [hutc]; decide)] at h
  simp only [hinstant] at h
  split at h
  · obtain rfl := Option.some.inj h
    exact ⟨rfl, rfl⟩
  · cases h

/-- The name of a profile is not that of none. -/
theorem profileName_ne_unknown
    (h : profiles.lookup (profileName symbol profileOverride) = some profile) :
    profileName symbol profileOverride ≠ "unknown" := by
  intro hunknown
  rw [hunknown] at h
  cases h

theorem profiles_lookup_fx {name : String} :
    profiles.lookup name = some .fx245 ↔ name = "fx_24_5" := by
  constructor
  · intro h
    obtain ⟨before, after, heq, -⟩ := List.lookup_eq_some_iff.1 h
    have hmem : (name, Profile.fx245) ∈ profiles := by
      rw [heq]
      exact List.mem_append_right _ List.mem_cons_self
    simpa [profiles] using hmem
  · rintro rfl
    rfl

/-- What is told of a symbol with a profile. -/
theorem getMarketStateNy_eq
    (hname : profiles.lookup (profileName symbol profileOverride) = some profile)
    {tsUtc : ℤ ⊕ AwareDatetime} {dt dtNy : AwareDatetime} (hdt : toDatetime tsUtc = some dt)
    (hny : tz.astimezone dt = some dtNy) :
    getMarketStateNy tz symbol tsUtc profileOverride =
      if (profile.state dt dtNy).1 then
        some ⟨.open_, (profile.state dt dtNy).2, none, none⟩
      else
        (getNextOpenNy false (profile.state dt dtNy).2 dtNy profile).map fun next =>
          ⟨.closed, (profile.state dt dtNy).2,
            next.map fun dt => (tz.toZones.instant dt).tdiv 1000000,
            next.map fun dt => formatNextOpen dt ++ " NY"⟩ := by
  rw [getMarketStateNy, if_neg (profileName_ne_unknown hname), hdt, Option.bind_some, hny,
    Option.bind_some, hname]
  dsimp only
  obtain ⟨isOpen, reason⟩ := profile.state dt dtNy
  cases isOpen <;> rfl

/-- A symbol that is told to be closed has a profile, which is closed. -/
theorem getMarketStateNy_closed {tsUtc : ℤ ⊕ AwareDatetime} {dt : AwareDatetime}
    (hdt : toDatetime tsUtc = some dt) {r : MarketStateResult}
    (hr : getMarketStateNy tz symbol tsUtc profileOverride = some r) (hclosed : r.state = .closed) :
    ∃ profile dtNy next, profiles.lookup (profileName symbol profileOverride) = some profile ∧
      tz.astimezone dt = some dtNy ∧ (profile.state dt dtNy).1 = false ∧
      getNextOpenNy false (profile.state dt dtNy).2 dtNy profile = some next ∧
      r.nextOpenUtc = next.map fun dt => (tz.toZones.instant dt).tdiv 1000000 := by
  cases hname : profiles.lookup (profileName symbol profileOverride) with
  | none =>
      rw [getMarketStateNy] at hr
      split at hr
      · obtain rfl := Option.some.inj hr
        cases hclosed
      · simp only [hname, Option.bind_eq_some_iff] at hr
        obtain ⟨-, -, -, -, hr⟩ := hr
        obtain rfl := Option.some.inj hr
        cases hclosed
  | some profile =>
      cases hny : tz.astimezone dt with
      | none =>
          rw [getMarketStateNy, if_neg (profileName_ne_unknown hname), hdt, Option.bind_some,
            hny] at hr
          cases hr
      | some dtNy =>
          rw [getMarketStateNy_eq hname hdt hny] at hr
          split at hr
          · obtain rfl := Option.some.inj hr
            cases hclosed
          · rename_i hstate
            obtain ⟨next, hnext, rfl⟩ := Option.map_eq_some_iff.1 hr
            exact ⟨profile, dtNy, next, rfl, rfl, Bool.eq_false_iff.2 hstate, hnext, rfl⟩

theorem says_open
    (hname : profiles.lookup (profileName symbol profileOverride) = some profile) {u : ℤ}
    (hu : InCalendar tz u)
    (hstate : ∀ dtUtc dtNy : AwareDatetime, dtUtc.wall = u → dtNy.wall = tz.reading u →
      (profile.state dtUtc dtNy).1 = true) : Says tz symbol profileOverride .open_ u := by
  have hny := astimezone_utc (show (⟨.utc, u, false, hu.1.1, hu.1.2⟩ : AwareDatetime).zone = .utc from
    rfl) hu.2
  exact ⟨_, _, dif_pos hu.1,
    (getMarketStateNy_eq hname rfl hny).trans (if_pos (hstate _ _ rfl rfl)), rfl⟩

theorem says_closed
    (hname : profiles.lookup (profileName symbol profileOverride) = some profile)
    {u : ℤ} (hu : InCalendar tz u)
    (hstate : ∀ dtUtc dtNy : AwareDatetime, dtUtc.wall = u → dtNy.wall = tz.reading u →
      (profile.state dtUtc dtNy).1 = false ∧
        ∃ next, getNextOpenNy false (profile.state dtUtc dtNy).2 dtNy profile = some next) :
    Says tz symbol profileOverride .closed u := by
  have hny := astimezone_utc (show (⟨.utc, u, false, hu.1.1, hu.1.2⟩ : AwareDatetime).zone = .utc from
    rfl) hu.2
  have htold := getMarketStateNy_eq hname (show toDatetime (.inr _) = some _ from rfl) hny
  obtain ⟨hclosed, next, hnext⟩ := hstate ⟨.utc, u, false, hu.1.1, hu.1.2⟩
    ⟨.newYork, tz.reading u, tz.foldAt u, hu.2.1, hu.2.2⟩ rfl rfl
  rw [if_neg (Bool.eq_false_iff.1 hclosed), hnext] at htold
  exact ⟨_, _, dif_pos hu.1, htold, rfl⟩

/-- The state of an instant tells whether its profile is open. -/
theorem says_open_state
    (hname : profiles.lookup (profileName symbol profileOverride) = some profile)
    {u : ℤ} (h : Says tz symbol profileOverride .open_ u) :
    ∃ dtUtc dtNy : AwareDatetime, dtUtc.wall = u ∧ (profile.state dtUtc dtNy).1 = true := by
  obtain ⟨dt, r, hdt, hr, hopen⟩ := h
  rw [utcFromTimestamp] at hdt
  split at hdt
  · rename_i hu
    obtain rfl := Option.some.inj hdt
    cases hny : tz.astimezone _ with
    | none =>
        rw [getMarketStateNy, if_neg (profileName_ne_unknown hname), toDatetime, Option.bind_some,
          hny] at hr
        cases hr
    | some dtNy =>
        refine ⟨⟨.utc, u, false, hu.1, hu.2⟩, dtNy, rfl, ?_⟩
        by_contra hclosed
        rw [getMarketStateNy_eq hname rfl hny, if_neg hclosed] at hr
        obtain ⟨next, -, rfl⟩ := Option.map_eq_some_iff.1 hr
        cases hopen
  · cases hdt

/-! ### Hours of New York -/

/-- The instant of a reading at a full minute is a full second, and of the calendar. -/
theorem instant_readingAt (hny : tz.IsNewYork) {day mins : ℤ} (hmins : 0 ≤ mins ∧ mins ≤ 18 * 60)
    (hend : readingAt day mins < monthStart 120000) (fold : Bool) :
    ∃ n, readingAt day mins - 1000000 * tz.newYork (readingAt day mins) fold = 1000000 * n ∧
      1000000 * n < monthStart 120000 := by
  have hoffset := hny.localOffset (readingAt day mins) fold
  refine ⟨60 * (1440 * day + mins) - tz.newYork (readingAt day mins) fold, ?_, ?_⟩
  · generalize tz.newYork (readingAt day mins) fold = offset
    simp only [readingAt, dayMicros, minuteMicros]
    ring
  · simp only [readingAt, monthStart, dayMicros, minuteMicros] at *
    omega

/-- A market that is closed in a stretch is closed until the announced opening. -/
theorem Block.holdsUntil (hny : tz.IsNewYork)
    (hname : profiles.lookup (profileName symbol profileOverride) = some profile)
    {start day mins : ℤ} (hblock : Block profile start day mins) {t : ℤ} (ht : InCalendar tz t)
    (hlow : start ≤ tz.reading t) (hhigh : tz.reading t < readingAt day mins)
    (hend : readingAt day mins < monthStart 120000) (fold : Bool) :
    ∃ n, readingAt day mins - 1000000 * tz.newYork (readingAt day mins) fold = 1000000 * n ∧
      HoldsUntil (Says tz symbol profileOverride .closed) (Says tz symbol profileOverride .open_) t
        (1000000 * n) := by
  obtain ⟨i, hi, -⟩ := hny.exists_shownOnce hblock.steadyStart
  obtain ⟨j, hj, hoffset⟩ := hny.exists_shownOnce hblock.steadyEnd
  obtain ⟨n, hn, hmax⟩ := instant_readingAt hny hblock.minsRange hend fold
  obtain rfl : j = 1000000 * n := (hoffset fold).symm.trans hn
  have htj : t < 1000000 * n := (hj.before t).1 hhigh
  have hmin : monthStart 12 ≤ readingAt day mins := ht.2.1.trans hhigh.le
  refine ⟨n, hn, HoldsUntil.of_readings hi hj hlow hhigh ?_ fun u htu hstart hlt => ?_⟩
  · refine says_open hname ⟨⟨ht.1.1.trans htj.le, hmax⟩, hj.reading.ge.trans' hmin,
      hj.reading.le.trans_lt hend⟩ fun dtUtc dtNy _ hwall => ?_
    exact hblock.opens dtUtc dtNy (hwall.trans hj.reading)
  · have hlt' := (hj.before u).1 hlt
    refine says_closed hname ⟨⟨ht.1.1.trans htu, hlt'.trans hmax⟩, hny.le_reading ht.2.1 htu,
      hlt.trans hend⟩ fun dtUtc dtNy _ hwall => ?_
    obtain ⟨hclosed, hnext⟩ := hblock.closed dtUtc dtNy (hwall ▸ hstart) (hwall ▸ hlt)
    rw [AwareDatetime.replaceAt, dif_pos ⟨hmin, hend⟩, Option.map_some] at hnext
    exact ⟨hclosed, _, hnext⟩

/-! ### Hours of UTC -/

/-- The Sunday of the weekend of an instant. -/
def fxSunday (t : ℤ) : ℤ := t / dayMicros + (6 - weekdayOf t)

/-- The currencies open when the announced opening comes: it is a weekend of which New York already
shows the days, and on its Sunday New York shows five in the afternoon at 22:00 UTC. -/
structure ReopensOnTime (tz : ZoneInfo) (t : ℤ) : Prop where
  weekend : weekdayOf t = 5 ∨ (weekdayOf t = 6 ∧ weekdayOf (tz.reading t) = 6)
  winter : tz.reading (readingAt (fxSunday t) (22 * 60)) = readingAt (fxSunday t) (17 * 60)

/-- The currencies are closed from Friday to Sunday, 22:00 UTC. -/
theorem fx245State_eq_false_iff (dtUtc : AwareDatetime) :
    (fx245State dtUtc).1 = false ↔ dtUtc.weekday = 5 ∨
      (dtUtc.weekday = 6 ∧ minsSinceMidnight dtUtc < 22 * 60) ∨
        (dtUtc.weekday = 4 ∧ 22 * 60 ≤ minsSinceMidnight dtUtc) := by
  rw [fx245State]
  split
  · exact iff_of_true rfl (.inl ‹_›)
  · split
    · rw [decide_eq_false_iff_not]
      omega
    · split
      · rw [decide_eq_false_iff_not]
        omega
      · refine iff_of_false (by decide) ?_
        omega

/-- What is announced while they are closed: five in the afternoon of New York, on the Sunday if it is
Saturday in UTC, and otherwise on the day that New York shows. -/
theorem fx_next {dtUtc dtNy : AwareDatetime} (hclosed : (fx245State dtUtc).1 = false)
    (hlow : dtUtc.wall - 18000000000 ≤ dtNy.wall) (hhigh : dtNy.wall ≤ dtUtc.wall - 14400000000) :
    getNextOpenNy false (fx245State dtUtc).2 dtNy .fx245 =
      (dtNy.replaceAt (if dtUtc.weekday = 5 then fxSunday dtUtc.wall else dtNy.day) (17 * 60)).map
        some := by
  have hcases := (fx245State_eq_false_iff dtUtc).1 hclosed
  by_cases hsaturday : dtUtc.weekday = 5
  · have hreason : (fx245State dtUtc).2 = .weekend := by
      rw [fx245State, if_pos hsaturday]
    have hdays : dtNy.day + daysTo 6 dtNy.weekday = fxSunday dtUtc.wall := by
      have hdtNy : (dtNy.weekday = 4 ∧ dtNy.day = dtUtc.day - 1) ∨
          (dtNy.weekday = 5 ∧ dtNy.day = dtUtc.day) := by
        simp only [AwareDatetime.weekday, AwareDatetime.day, weekdayOf, dayMicros] at *
        omega
      change _ = dtUtc.day + (6 - dtUtc.weekday)
      rcases hdtNy with ⟨hfriday, hday⟩ | ⟨hsaturday', hday⟩
      · rw [hfriday, hday, hsaturday, show daysTo 6 4 = 2 from rfl]
        ring
      · rw [hsaturday', hday, hsaturday]
        rfl
    rw [hreason, if_pos hsaturday, ← hdays]
    rfl
  · have hreason : (fx245State dtUtc).2 = .closed := by
      rw [fx245State, if_neg hsaturday]
      rcases hcases with h | ⟨hsunday, hmins⟩ | ⟨hfriday, hmins⟩
      · exact absurd h hsaturday
      · rw [if_pos hsunday, if_neg (not_le.2 hmins)]
      · rw [if_neg (by omega), if_pos hfriday, if_neg (not_lt.2 hmins)]
    rw [hreason, if_neg hsaturday]
    rfl

/-- From Saturday on, the currencies are closed until Sunday, 22:00 UTC. -/
theorem fx_weekend {dt dtUtc : AwareDatetime} (hweekend : 5 ≤ dt.weekday)
    (hle : dt.wall ≤ dtUtc.wall) (hlt : dtUtc.wall < readingAt (fxSunday dt.wall) (22 * 60)) :
    (fx245State dtUtc).1 = false ∧ fxSunday dtUtc.wall = fxSunday dt.wall := by
  rw [fx245State_eq_false_iff]
  simp only [fxSunday, AwareDatetime.weekday, weekdayOf, minsSinceMidnight, readingAt, dayMicros,
    minuteMicros] at *
  omega

/-- The currencies are told to be closed, if the Sunday is of the calendar. -/
theorem fx_says_closed (hny : tz.IsNewYork)
    (hname : profiles.lookup (profileName symbol profileOverride) = some .fx245) {u : ℤ}
    (hu : InCalendar tz u)
    (hclosed : ∀ dtUtc : AwareDatetime, dtUtc.wall = u → (fx245State dtUtc).1 = false)
    (hsunday : fxSunday u < daysBefore 120000) : Says tz symbol profileOverride .closed u := by
  refine says_closed hname hu fun dtUtc dtNy hdtUtc hdtNy => ⟨hclosed dtUtc hdtUtc, ?_⟩
  have hbounds := hny.reading_bounds u
  have hcal := dtNy.minyear
  have hcal' := dtNy.maxyear
  obtain ⟨hmin, hmax⟩ :
      daysBefore 12 ≤ (if dtUtc.weekday = 5 then fxSunday dtUtc.wall else dtNy.day) ∧
        (if dtUtc.weekday = 5 then fxSunday dtUtc.wall else dtNy.day) < daysBefore 120000 := by
    rw [hdtUtc]
    split
    · refine ⟨?_, hsunday⟩
      simp only [fxSunday, weekdayOf, monthStart, dayMicros] at *
      omega
    · simp only [AwareDatetime.day, monthStart, dayMicros] at *
      omega
  obtain ⟨next, hnext, -⟩ : ∃ e, dtNy.replaceAt _ (17 * 60) = some e ∧ _ ∧ _ :=
    dtNy.replaceAt_eq_some hmin hmax (by decide) (by decide)
  change ∃ next, getNextOpenNy false (fx245State dtUtc).2 dtNy .fx245 = some next
  rw [fx_next (hclosed dtUtc hdtUtc) (by omega) (by omega), hnext]
  exact ⟨_, rfl⟩

/-- On a weekend of which New York already shows the days, the opening is announced for its Sunday. -/
theorem fx_day_of_weekend {dt dtNy : AwareDatetime} (hlow : dt.wall - 18000000000 ≤ dtNy.wall)
    (hhigh : dtNy.wall ≤ dt.wall - 14400000000)
    (hweekend : dt.weekday = 5 ∨ (dt.weekday = 6 ∧ dtNy.weekday = 6)) :
    (if dt.weekday = 5 then fxSunday dt.wall else dtNy.day) = fxSunday dt.wall := by
  split
  · rfl
  · simp only [fxSunday, AwareDatetime.weekday, AwareDatetime.day, weekdayOf, dayMicros] at *
    omega

/-- At 22:00 UTC of the Sunday the currencies are open. -/
theorem fx_open_on_sunday {t : ℤ} {dtUtc : AwareDatetime}
    (h : dtUtc.wall = readingAt (fxSunday t) (22 * 60)) : (fx245State dtUtc).1 = true := by
  rw [← Bool.not_eq_false]
  refine mt (fx245State_eq_false_iff dtUtc).1 ?_
  obtain ⟨hday, hmins⟩ := minsSinceMidnight_of_wall (by decide) (by decide) h
  have hweekday := (minsSinceMidnight_spec dtUtc).1
  have hsix : (fxSunday t + 3) % 7 = 6 := by
    simp only [fxSunday, weekdayOf, dayMicros]
    omega
  omega

/-- From a time of the weekend on, the currencies are told to be closed until then. -/
theorem fx_closed_until (hny : tz.IsNewYork)
    (hname : profiles.lookup (profileName symbol profileOverride) = some .fx245)
    {dt : AwareDatetime} (hweekend : 5 ≤ dt.weekday) {u : ℤ} (hu : InCalendar tz u)
    (hle : dt.wall ≤ u) (hlt : u < readingAt (fxSunday dt.wall) (22 * 60))
    (hcal : readingAt (fxSunday dt.wall) (17 * 60) < monthStart 120000) :
    Says tz symbol profileOverride .closed u := by
  have hbefore : ∀ dtUtc : AwareDatetime, dtUtc.wall = u →
      (fx245State dtUtc).1 = false ∧ fxSunday dtUtc.wall = fxSunday dt.wall := by
    rintro dtUtc rfl
    exact fx_weekend hweekend hle hlt
  refine fx_says_closed hny hname hu (fun dtUtc hdtUtc => (hbefore dtUtc hdtUtc).1) ?_
  have hsame := (hbefore ⟨.utc, u, false, hu.1.1, hu.1.2⟩ rfl).2
  rw [hsame]
  simp only [readingAt, monthStart, dayMicros, minuteMicros] at hcal
  omega

/-- The announced opening is the next one exactly if the currencies open when it comes. -/
theorem fx_holdsUntil_iff (hny : tz.IsNewYork)
    (hname : profiles.lookup (profileName symbol profileOverride) = some .fx245)
    {dt dtNy e : AwareDatetime} (hclosed : (fx245State dt).1 = false)
    (ht : InCalendar tz dt.wall) (hwall : dtNy.wall = tz.reading dt.wall)
    (he : getNextOpenNy false (fx245State dt).2 dtNy .fx245 = some (some e)) :
    ∃ n, e.wall - 1000000 * tz.newYork e.wall e.fold = 1000000 * n ∧
      (HoldsUntil (Says tz symbol profileOverride .closed) (Says tz symbol profileOverride .open_)
        dt.wall (1000000 * n) ↔ ReopensOnTime tz dt.wall) := by
  have hbounds := hny.reading_bounds dt.wall
  have hcases := (fx245State_eq_false_iff dt).1 hclosed
  rw [fx_next hclosed (by omega) (by omega)] at he
  obtain ⟨e', he', heq⟩ := Option.map_eq_some_iff.1 he
  obtain rfl := Option.some.inj heq
  have hewall := (AwareDatetime.replaceAt_spec he').2
  have hecal := e'.maxyear
  generalize hday : (if dt.weekday = 5 then fxSunday dt.wall else dtNy.day) = day at he' hewall
  rw [hewall] at hecal ⊢
  obtain ⟨n, hn, hmax⟩ := instant_readingAt hny (by decide) hecal e'.fold
  refine ⟨n, hn, ?_⟩
  have hoffset := hny.localOffset (readingAt day (17 * 60)) e'.fold
  obtain ⟨i, hi, hback⟩ := hny.exists_shownOnce (b := readingAt day (17 * 60))
    (not_changeTime_readingAt (by decide) (.inl (by decide)))
  obtain rfl : i = 1000000 * n := (hback e'.fold).symm.trans hn
  constructor
  · intro hholds
    have hlt := hholds.lt
    obtain ⟨dtUtc, dtNy', hdtUtc, hopen⟩ := says_open_state hname hholds.final
    have hnotClosed := mt (fx245State_eq_false_iff dtUtc).2 (by rw [Bool.not_eq_false]; exact hopen)
    -- an announced opening of the day that New York shows must not be over
    have hweekend : dt.weekday = 5 ∨ (dt.weekday = 6 ∧ dtNy.weekday = 6) := by
      rcases hcases with hsaturday | hcases
      · exact .inl hsaturday
      · rw [if_neg (by omega)] at hday
        simp only [AwareDatetime.weekday, AwareDatetime.day, weekdayOf, minsSinceMidnight, readingAt,
          dayMicros, minuteMicros] at *
        omega
    have hsunday : day = fxSunday dt.wall :=
      hday.symm.trans (fx_day_of_weekend (by omega) (by omega) hweekend)
    have hexact : 1000000 * n = readingAt day (22 * 60) := by
      simp only [fxSunday, AwareDatetime.weekday, weekdayOf, minsSinceMidnight, readingAt, dayMicros,
        minuteMicros] at *
      omega
    refine ⟨?_, ?_⟩
    · rw [← hwall]
      exact hweekend
    · rw [← hsunday, ← hexact, hi.reading]
  · rintro ⟨hweekend, hwinter⟩
    have hsunday : day = fxSunday dt.wall := by
      rw [← hwall] at hweekend
      exact hday.symm.trans (fx_day_of_weekend (by omega) (by omega) hweekend)
    rw [← hsunday] at hwinter
    have hexact := hi.eq_of_reading hwinter
    have hlt : dt.wall < 1000000 * n := by
      rw [← hexact, hsunday]
      simp only [fxSunday, AwareDatetime.weekday, weekdayOf, minsSinceMidnight, readingAt, dayMicros,
        minuteMicros] at *
      omega
    refine ⟨hlt, ?_, fun u htu hlt' => ?_⟩
    · refine says_open hname ⟨⟨ht.1.1.trans hlt.le, hmax⟩, hny.le_reading ht.2.1 hlt.le,
        hi.reading.le.trans_lt hecal⟩ fun dtUtc dtNy' hdtUtc _ => ?_
      exact fx_open_on_sunday (hdtUtc.trans (hexact.symm.trans (by rw [hsunday])))
    · have hu : InCalendar tz u := ⟨⟨ht.1.1.trans htu, hlt'.trans hmax⟩, hny.le_reading ht.2.1 htu,
        ((hi.before u).2 hlt').trans hecal⟩
      have hweekday : 5 ≤ dt.weekday := by
        simp only [AwareDatetime.weekday]
        omega
      refine fx_closed_until hny hname hweekday hu htu ?_ (hsunday ▸ hecal)
      rw [← hsunday, hexact]
      exact hlt'

/-! ### The next opening -/

/-- The opening announced for a closed market is the next one, up to which the market is closed, exactly
if it is not one of the currencies or these open when it comes. -/
theorem nextOpen_iff (hny : tz.IsNewYork) {tsUtc : ℤ ⊕ AwareDatetime} {dt : AwareDatetime}
    (hdt : toDatetime tsUtc = some dt) (hutc : dt.zone = .utc) {r : MarketStateResult}
    (hr : getMarketStateNy tz symbol tsUtc profileOverride = some r) (hclosed : r.state = .closed) :
    (∃ n, r.nextOpenUtc = some n ∧
      HoldsUntil (Says tz symbol profileOverride .closed) (Says tz symbol profileOverride .open_)
        dt.wall (1000000 * n)) ↔
      (profileName symbol profileOverride = "fx_24_5" → ReopensOnTime tz dt.wall) := by
  obtain ⟨profile, dtNy, next, hname, hdtNy, hstate, hnext, hopen⟩ :=
    getMarketStateNy_closed hdt hr hclosed
  obtain ⟨hzone, hwall⟩ := astimezone_spec hutc hdtNy
  have ht : InCalendar tz dt.wall := by
    refine ⟨⟨dt.minyear, dt.maxyear⟩, ?_⟩
    rw [← hwall]
    exact ⟨dtNy.minyear, dtNy.maxyear⟩
  -- what is announced is the second of a reading of New York
  have hannounced : ∀ {e : AwareDatetime} {n : ℤ}, next = some e → e.zone = dtNy.zone →
      e.wall - 1000000 * tz.newYork e.wall e.fold = 1000000 * n → r.nextOpenUtc = some n := by
    intro e n he hezone hn
    have hinstant : tz.toZones.instant e = 1000000 * n := by
      rw [Zones.instant, Zones.utcoffset, hezone, hzone]
      exact hn
    rw [hopen, he, Option.map_some, hinstant, Int.mul_tdiv_cancel_left _ (by decide)]
  by_cases hfx : profile = .fx245
  · subst hfx
    have hbounds := hny.reading_bounds dt.wall
    obtain ⟨e, he, rfl⟩ := Option.map_eq_some_iff.1
      ((fx_next hstate (by omega) (by omega)).symm.trans hnext)
    obtain ⟨n, hn, hiff⟩ := fx_holdsUntil_iff hny hname hstate ht hwall hnext
    rw [hannounced rfl (AwareDatetime.replaceAt_spec he).1 hn]
    constructor
    · rintro ⟨n', hn', hholds⟩ -
      exact hiff.1 (Option.some.inj hn' ▸ hholds)
    · intro hreopens
      exact ⟨n, rfl, hiff.2 (hreopens (profiles_lookup_fx.1 hname))⟩
  · refine iff_of_true ?_ fun hfx' => absurd ?_ hfx
    · obtain ⟨start, day, mins, hblock, hlow, hhigh⟩ := exists_block hfx hstate
      obtain ⟨e, he, rfl⟩ := Option.map_eq_some_iff.1
        ((hblock.closed dt dtNy hlow hhigh).2.symm.trans hnext)
      obtain ⟨hezone, hewall⟩ := AwareDatetime.replaceAt_spec he
      obtain ⟨n, hn, hholds⟩ := hblock.holdsUntil hny hname ht (hwall ▸ hlow) (hwall ▸ hhigh)
        (hewall ▸ e.maxyear) e.fold
      exact ⟨n, hannounced rfl hezone (hewall.symm ▸ hn), hholds⟩
    · exact Option.some.inj (hname.symm.trans (profiles_lookup_fx.2 hfx'))

/-! ### A night in November -/

theorem fallBackZone_isNewYork : fallBackZone.IsNewYork where
  offset u := by
    simp only [fallBackZone]
    split <;> decide
  localOffset wall fold := by
    simp only [fallBackZone, Zones.fallBack]
    split <;> decide
  once u hu fold := by
    -- in the hour that is shown twice, the other instant has the same reading
    have hlater := hu (u + 3600000000)
    have hearlier := hu (u - 3600000000)
    simp only [ZoneInfo.reading, fallBackZone, Zones.fallBack] at *
    cases fold <;> split_ifs at * <;> omega
  change u hu := by
    have hu : u = 1730613600000000 := by
      simp only [fallBackZone] at hu
      split_ifs at hu <;> omega
    subst hu
    simp only [ChangeTime]
    decide

/-- Noon of Saturday, 9 November 2024, in UTC. -/
def november : AwareDatetime :=
  ⟨.utc, 1731153600000000, false, by decide +kernel, by decide +kernel⟩

theorem november_closed :
    getMarketStateNy fallBackZone "EURUSD" (.inr november) none =
      some ⟨.closed, .weekend, some 1731276000, some "17:00 NY"⟩ := by
  decide +kernel

theorem nextOpen_iff_november :
    (∃ n, some 1731276000 = some n ∧
      HoldsUntil (Says fallBackZone "EURUSD" none .closed) (Says fallBackZone "EURUSD" none .open_)
        november.wall (1000000 * n)) ↔
      (profileName "EURUSD" none = "fx_24_5" → ReopensOnTime fallBackZone november.wall) :=
  nextOpen_iff fallBackZone_isNewYork (show toDatetime (.inr november) = some november from rfl) rfl
    november_closed rfl

/-- Noon of Saturday, 5 October 2024, when New York has summer time. -/
def october : AwareDatetime :=
  ⟨.utc, 1728129600000000, false, by decide +kernel, by decide +kernel⟩

/-- Eleven in the evening of Friday, 8 November 2024. -/
def fridayNight : AwareDatetime :=
  ⟨.utc, 1731106800000000, false, by decide +kernel, by decide +kernel⟩

/-- In summer the announced opening comes an hour before that of the currencies, and on a Friday night it
is over already. -/
theorem announced_not_open :
    fallBackZone.IsNewYork ∧ ∀ dt ∈ [october, fridayNight], ∃ r,
      getMarketStateNy fallBackZone "EURUSD" (.inr dt) none = some r ∧ r.state = .closed ∧
        ¬ ∃ n, r.nextOpenUtc = some n ∧
          HoldsUntil (Says fallBackZone "EURUSD" none .closed)
            (Says fallBackZone "EURUSD" none .open_) dt.wall (1000000 * n) := by
  refine ⟨fallBackZone_isNewYork, fun dt hdt => ?_⟩
  rcases List.mem_cons.1 hdt with rfl | hdt
  · refine ⟨⟨.closed, .weekend, some 1728248400, some "17:00 NY"⟩, by decide +kernel, rfl, ?_⟩
    rintro ⟨n, hn, hholds⟩
    obtain rfl := Option.some.inj hn
    obtain ⟨dt, r, hdt, hr, hopen⟩ := hholds.final
    have hclosed : ((utcFromTimestamp (1000000 * 1728248400)).bind fun dt =>
        getMarketStateNy fallBackZone "EURUSD" (.inr dt) none) =
          some ⟨.closed, .closed, some 1728248400, some "17:00 NY"⟩ := by
      decide +kernel
    rw [hdt, Option.bind_some, hr] at hclosed
    obtain rfl := Option.some.inj hclosed
    cases hopen
  · obtain rfl := List.mem_singleton.1 hdt
    refine ⟨⟨.closed, .closed, some 1731103200, some "17:00 NY"⟩, by decide +kernel, rfl, ?_⟩
    rintro ⟨n, hn, hholds⟩
    obtain rfl := Option.some.inj hn
    exact absurd hholds.lt (by decide)

end MarketHours
