/-
**Months of the Gregorian calendar, and aware datetimes.**

The candle store files a candle by the year and the month of its timestamp, as the wall clock of
the timestamp's zone shows them.  This module has what it takes to speak of that: the start of a
month, the month of a wall-clock reading, and datetimes that carry a zone, with the comparisons of
the language.  Two datetimes of one zone are compared by their readings, those of different zones
by their instants, and a reading that its zone shows twice or not at all equals no datetime of
another zone.

The offset of New York comes from the time zone database, and is a parameter.

A month is counted from January of the year 0, and a wall-clock reading in microseconds from the
start of 1970.

Main definitions:

* `monthStart`, `monthOf` — the start of a month, and the month of a reading;
* `AwareDatetime` — a datetime with a zone; `Zones` — the offset of New York;
* `Zones.lt`, `Zones.eq` — the comparisons;
* `Zones.MonthsKeep` — no clock change of New York crosses the start of a month;
* `TimeZone` — the conversion to a zone; `Zones.fallBack`, `TimeZone.fallBack` — New York around
  the night of a clock change.

Main results:

* `monthOf_lt_iff` — a reading is in an earlier month exactly when it comes before the month;
* `Zones.month_lt_iff` — the same for the instants of datetimes of one zone;
* `Zones.month_mono` — in every zone the months follow the instants.
-/

import Mathlib

set_option relaxedAutoImplicit false
set_option autoImplicit false

/-! ### Months -/

/-- The days before the months of a year that is not a leap year. -/
def daysBeforeMonths : List ℤ := [0, 31, 59, 90, 120, 151, 181, 212, 243, 273, 304, 334]

/-- Whether a year is a leap year. -/
def isLeapYear (year : ℤ) : Bool := year % 4 = 0 ∧ (year % 100 ≠ 0 ∨ year % 400 = 0)

/-- The days from the start of the year 0 to that of a year. -/
def daysBeforeYear (year : ℤ) : ℤ :=
  365 * year + (year + 3) / 4 - (year + 99) / 100 + (year + 399) / 400

/-- The days from the start of 1970 to that of a month. -/
def daysBefore (month : ℤ) : ℤ :=
  daysBeforeYear (month / 12) + daysBeforeMonths.getD (month % 12).toNat 0 +
    (if 2 ≤ month % 12 ∧ isLeapYear (month / 12) then 1 else 0) - 719528

theorem daysBefore_eq (year k : ℤ) (h0 : 0 ≤ k) (h12 : k < 12) :
    daysBefore (12 * year + k) = daysBeforeYear year + daysBeforeMonths.getD k.toNat 0 +
      (if 2 ≤ k ∧ isLeapYear year then 1 else 0) - 719528 := by
  have hdiv : (12 * year + k) / 12 = year := by omega
  have hmod : (12 * year + k) % 12 = k := by omega
  rw [daysBefore, hdiv, hmod]

theorem daysBeforeYear_succ (year : ℤ) :
    daysBeforeYear (year + 1) = daysBeforeYear year + 365 + if isLeapYear year then 1 else 0 := by
  simp only [daysBeforeYear, isLeapYear, decide_eq_true_eq]
  split <;> omega

/-- Every month has a day. -/
theorem daysBefore_lt_succ (month : ℤ) : daysBefore month < daysBefore (month + 1) := by
  obtain ⟨year, k, h0, h12, rfl⟩ : ∃ year k : ℤ, 0 ≤ k ∧ k < 12 ∧ month = 12 * year + k :=
    ⟨month / 12, month % 12, by omega, by omega, by omega⟩
  rw [daysBefore_eq year k h0 h12]
  by_cases hlast : k = 11
  · subst hlast
    have hnext : 12 * year + 11 + 1 = 12 * (year + 1) + 0 := by ring
    rw [hnext, daysBefore_eq (year + 1) 0 le_rfl (by decide), daysBeforeYear_succ]
    simp [daysBeforeMonths]
  · have hk : k < 11 := by omega
    have hnext : 12 * year + k + 1 = 12 * year + (k + 1) := by ring
    rw [hnext, daysBefore_eq year (k + 1) (by omega) (by omega)]
    interval_cases k <;> simp [daysBeforeMonths]
    all_goals split <;> omega

theorem daysBefore_strictMono : StrictMono daysBefore := strictMono_int_of_lt_succ daysBefore_lt_succ

/-- The microseconds of a day. -/
def dayMicros : ℤ := 86400000000

/-- The first reading of a month. -/
def monthStart (month : ℤ) : ℤ := dayMicros * daysBefore month

theorem monthStart_strictMono : StrictMono monthStart := fun m n h =>
  mul_lt_mul_of_pos_left (daysBefore_strictMono h) (by decide)

/-- The month of a day, looked for from a month that does not come after it. -/
def monthFrom (day month : ℤ) : ℕ → ℤ
  | 0 => month
  | n + 1 => if day < daysBefore (month + 1) then month else monthFrom day (month + 1) n

theorem monthFrom_spec {day month : ℤ} {n : ℕ} (hlow : daysBefore month ≤ day)
    (hhigh : day < daysBefore (month + n + 1)) :
    daysBefore (monthFrom day month n) ≤ day ∧ day < daysBefore (monthFrom day month n + 1) := by
  induction n generalizing month with
  | zero => exact ⟨hlow, by simpa [monthFrom] using hhigh⟩
  | succ n ih =>
      rw [monthFrom]
      split
      · rename_i hday
        exact ⟨hlow, hday⟩
      · rename_i hday
        refine ih (not_lt.1 hday) ?_
        have hsum : month + 1 + n + 1 = month + ((n + 1 : ℕ) : ℤ) + 1 := by push_cast; ring
        rwa [hsum]

/-- A year that starts on or before a day, less than three years before it. -/
def yearBefore (day : ℤ) : ℤ := 400 * (day + 719528) / 146097 - 1

/-- The month of a wall-clock reading. -/
def monthOf (wall : ℤ) : ℤ := monthFrom (wall / dayMicros) (12 * yearBefore (wall / dayMicros)) 35

theorem yearBefore_spec (day : ℤ) :
    daysBefore (12 * yearBefore day) ≤ day ∧ day < daysBefore (12 * yearBefore day + 35 + 1) := by
  have hlow : 12 * yearBefore day = 12 * yearBefore day + 0 := by ring
  have hhigh : 12 * yearBefore day + 35 + 1 = 12 * (yearBefore day + 3) + 0 := by ring
  rw [hhigh, daysBefore_eq _ 0 le_rfl (by decide), hlow, daysBefore_eq _ 0 le_rfl (by decide)]
  simp only [daysBeforeYear, daysBeforeMonths, yearBefore, Int.toNat_zero, List.getD_cons_zero]
  simp
  omega

theorem monthOf_spec (wall : ℤ) :
    monthStart (monthOf wall) ≤ wall ∧ wall < monthStart (monthOf wall + 1) := by
  have hyear := yearBefore_spec (wall / dayMicros)
  have hday : daysBefore (monthOf wall) ≤ wall / dayMicros ∧
      wall / dayMicros < daysBefore (monthOf wall + 1) := monthFrom_spec hyear.1 hyear.2
  simp only [monthStart, dayMicros] at hday ⊢
  omega

/-- A reading is in an earlier month exactly when it comes before the month. -/
theorem monthOf_lt_iff {wall month : ℤ} : monthOf wall < month ↔ wall < monthStart month := by
  have hspec := monthOf_spec wall
  constructor
  · intro h
    exact hspec.2.trans_le (monthStart_strictMono.monotone (by omega))
  · intro h
    by_contra hle
    exact absurd (h.trans_le (monthStart_strictMono.monotone (not_lt.1 hle)))
      (not_lt.2 hspec.1)

@[simp] theorem monthOf_monthStart (month : ℤ) : monthOf (monthStart month) = month := by
  apply le_antisymm
  · have hlt : monthOf (monthStart month) < month + 1 :=
      monthOf_lt_iff.2 (monthStart_strictMono (by omega))
    omega
  · exact not_lt.1 fun h => lt_irrefl _ (monthOf_lt_iff.1 h)

/-- A minute, in microseconds. -/
def minuteMicros : ℤ := 60000000

/-- Months start on a full minute. -/
theorem minuteMicros_dvd_monthStart (month : ℤ) : minuteMicros ∣ monthStart month :=
  Dvd.dvd.mul_right (by decide) _

attribute [irreducible] monthStart monthOf

/-- The start of the minute of a reading or an instant. -/
def floorMinute (t : ℤ) : ℤ := t - t % minuteMicros

theorem minuteMicros_dvd_floorMinute (t : ℤ) : minuteMicros ∣ floorMinute t := by
  rw [floorMinute, minuteMicros]
  omega

theorem floorMinute_le (t : ℤ) : floorMinute t ≤ t := by
  rw [floorMinute, minuteMicros]
  omega

/-- The start of the minute is the last full minute that is not after a time. -/
theorem le_floorMinute {m t : ℤ} (hm : minuteMicros ∣ m) (h : m ≤ t) : m ≤ floorMinute t := by
  rw [floorMinute]
  rw [minuteMicros] at hm ⊢
  omega

theorem floorMinute_mono {s t : ℤ} (h : s ≤ t) : floorMinute s ≤ floorMinute t :=
  le_floorMinute (minuteMicros_dvd_floorMinute s) ((floorMinute_le s).trans h)

/-- The month that a second since 1970 is in. -/
def epochMonth (t : ℤ) : ℤ := monthOf (1000000 * t)

/-- The day that a second since 1970 is in. -/
def epochDay (t : ℤ) : ℤ := 1000000 * t / dayMicros

/-- Rounding to a whole second goes towards 1970. -/
theorem tdiv_cases (i : ℤ) : (0 ≤ i ∧ i.tdiv 1000000 = i / 1000000) ∨
    (i < 0 ∧ i.tdiv 1000000 = -(-i / 1000000)) := by
  rcases lt_or_ge i 0 with h | h
  · refine .inr ⟨h, ?_⟩
    rw [← Int.tdiv_eq_ediv_of_nonneg (by omega), Int.neg_tdiv, neg_neg]
  · exact .inl ⟨h, Int.tdiv_eq_ediv_of_nonneg h⟩

/-! ### Aware datetimes -/

/-- The zones of the timestamps. -/
inductive Zone
  | utc
  | newYork
  deriving DecidableEq

/-- A datetime with a zone: the reading of the zone's clock, and the fold, which tells the second
showing of a repeated reading from the first.  The years go from 1 to 9999. -/
structure AwareDatetime where
  zone : Zone
  wall : ℤ
  fold : Bool
  minyear : monthStart 12 ≤ wall
  maxyear : wall < monthStart 120000
  deriving DecidableEq

namespace AwareDatetime

/-- The month that the clock of the zone shows. -/
def month (d : AwareDatetime) : ℤ := monthOf d.wall

theorem month_min (d : AwareDatetime) : 12 ≤ d.month :=
  not_lt.1 fun h => not_lt.2 d.minyear (monthOf_lt_iff.1 h)

theorem month_max (d : AwareDatetime) : d.month < 120000 := monthOf_lt_iff.2 d.maxyear

/-- The start of a month of the years 1 to 9999, in the zone of a datetime. -/
def atMonth (d : AwareDatetime) (month : ℤ) (hmin : 12 ≤ month) (hmax : month < 120000) :
    AwareDatetime :=
  { d with
    wall := monthStart month
    minyear := monthStart_strictMono.monotone hmin
    maxyear := monthStart_strictMono hmax }

@[simp] theorem atMonth_zone (d : AwareDatetime) (month : ℤ) (hmin : 12 ≤ month)
    (hmax : month < 120000) : (d.atMonth month hmin hmax).zone = d.zone := rfl

@[simp] theorem atMonth_wall (d : AwareDatetime) (month : ℤ) (hmin : 12 ≤ month)
    (hmax : month < 120000) : (d.atMonth month hmin hmax).wall = monthStart month := rfl

@[simp] theorem atMonth_month (d : AwareDatetime) (month : ℤ) (hmin : 12 ≤ month)
    (hmax : month < 120000) : (d.atMonth month hmin hmax).month = month :=
  monthOf_monthStart month

/-- `replace(day=1, hour=0, minute=0, second=0, microsecond=0)`. -/
def startOfMonth (d : AwareDatetime) : AwareDatetime := d.atMonth d.month d.month_min d.month_max

@[simp] theorem startOfMonth_month (d : AwareDatetime) : d.startOfMonth.month = d.month :=
  atMonth_month ..

theorem startOfMonth_wall (d : AwareDatetime) :
    d.startOfMonth.wall = monthStart d.startOfMonth.month := by
  rw [startOfMonth_month]
  rfl

/-- The start of the next month: what replacing the month, and after December the year, makes of
the start of a month.  There is no year 10000. -/
def nextMonth (d : AwareDatetime) : Option AwareDatetime :=
  if h : d.month + 1 < 120000 then
    some (d.atMonth (d.month + 1) (by have := d.month_min; omega) h)
  else
    none

theorem nextMonth_eq_some {d e : AwareDatetime} (h : d.nextMonth = some e) :
    e.zone = d.zone ∧ e.fold = d.fold ∧ e.month = d.month + 1 ∧ e.wall = monthStart e.month := by
  rw [nextMonth] at h
  split at h
  · obtain rfl := Option.some.inj h
    exact ⟨rfl, rfl, atMonth_month .., by rw [atMonth_month, atMonth_wall]⟩
  · cases h

/-- `replace(second=0, microsecond=0)`. -/
def startOfMinute (d : AwareDatetime) : AwareDatetime :=
  { d with
    wall := floorMinute d.wall
    minyear := le_floorMinute (minuteMicros_dvd_monthStart 12) d.minyear
    maxyear := (floorMinute_le d.wall).trans_lt d.maxyear }

end AwareDatetime

/-- `datetime.fromtimestamp(…, tz=timezone.utc)`, in microseconds. -/
def utcFromTimestamp (instant : ℤ) : Option AwareDatetime :=
  if h : monthStart 12 ≤ instant ∧ instant < monthStart 120000 then
    some ⟨.utc, instant, false, h.1, h.2⟩
  else
    none

/-- What is read off an instant is its reading in UTC. -/
theorem utcFromTimestamp_eq_some {instant : ℤ} {d : AwareDatetime}
    (h : utcFromTimestamp instant = some d) : d.zone = .utc ∧ d.wall = instant ∧ d.fold = false := by
  rw [utcFromTimestamp] at h
  split at h
  · obtain rfl := Option.some.inj h
    exact ⟨rfl, rfl, rfl⟩
  · cases h

/-! ### Instants and comparisons -/

/-- The time zone database: the offset of New York, in seconds, by reading and fold. -/
structure Zones where
  newYork : ℤ → Bool → ℤ

namespace Zones

variable (z : Zones)

/-- The offset of a datetime, in seconds. -/
def utcoffset (d : AwareDatetime) : ℤ :=
  match d.zone with
  | .utc => 0
  | .newYork => z.newYork d.wall d.fold

/-- The instant of a datetime, in microseconds. -/
def instant (d : AwareDatetime) : ℤ := d.wall - 1000000 * z.utcoffset d

/-- Whether the zone shows the reading twice, or not at all: the offset depends on the fold. -/
def isFoldDependent (d : AwareDatetime) : Bool :=
  z.utcoffset { d with fold := !d.fold } ≠ z.utcoffset d

/-- `a < b`. -/
def lt (a b : AwareDatetime) : Bool :=
  if a.zone = b.zone then a.wall < b.wall else z.instant a < z.instant b

/-- `a <= b`. -/
def le (a b : AwareDatetime) : Bool :=
  if a.zone = b.zone then a.wall ≤ b.wall else z.instant a ≤ z.instant b

/-- `a == b`. -/
def eq (a b : AwareDatetime) : Bool :=
  if a.zone = b.zone then a.wall = b.wall
  else z.instant a = z.instant b ∧ ¬ z.isFoldDependent a ∧ ¬ z.isFoldDependent b

/-- `b - a`, in microseconds. -/
def sub (b a : AwareDatetime) : ℤ :=
  if a.zone = b.zone then b.wall - a.wall else z.instant b - z.instant a

variable {z}

theorem instant_utc {d : AwareDatetime} (h : d.zone = .utc) : z.instant d = d.wall := by
  simp [instant, utcoffset, h]

/-- Between datetimes of UTC and others the instants decide. -/
theorem lt_iff_of_utc {a b : AwareDatetime} (h : a.zone = .utc ∨ b.zone = .utc) :
    z.lt a b = true ↔ z.instant a < z.instant b := by
  rw [lt]
  split
  · rename_i hzone
    have ha : a.zone = .utc := by rcases h with h | h <;> simp [h, hzone]
    rw [instant_utc ha, instant_utc (hzone ▸ ha), decide_eq_true_eq]
  · rw [decide_eq_true_eq]

theorem le_iff_of_utc {a b : AwareDatetime} (h : a.zone = .utc ∨ b.zone = .utc) :
    z.le a b = true ↔ z.instant a ≤ z.instant b := by
  rw [le]
  split
  · rename_i hzone
    have ha : a.zone = .utc := by rcases h with h | h <;> simp [h, hzone]
    rw [instant_utc ha, instant_utc (hzone ▸ ha), decide_eq_true_eq]
  · rw [decide_eq_true_eq]

/-! ### Months and instants -/

variable (z) in
/-- No clock change of New York crosses the start of a month: a reading is in an earlier month
exactly when its instant comes before the first one of the month. -/
def MonthsKeep : Prop :=
  ∀ a b : AwareDatetime, a.zone = .newYork → b.zone = .newYork → b.wall = monthStart b.month →
    (a.month < b.month ↔ z.instant a < z.instant b)

/-- In every zone a datetime is in an earlier month exactly when it comes before its start. -/
theorem month_lt_iff (hz : z.MonthsKeep) {a b : AwareDatetime} (hzone : a.zone = b.zone)
    (hb : b.wall = monthStart b.month) : a.month < b.month ↔ z.instant a < z.instant b := by
  cases h : b.zone with
  | newYork => exact hz a b (hzone.trans h) h hb
  | utc =>
      rw [instant_utc (hzone.trans h), instant_utc h, hb]
      exact monthOf_lt_iff

/-- In every zone the months follow the instants. -/
theorem month_mono (hz : z.MonthsKeep) {a b : AwareDatetime} (hzone : a.zone = b.zone)
    (h : z.instant a ≤ z.instant b) : a.month ≤ b.month := by
  by_contra hlt
  obtain ⟨s, hzs, hwall, hmonth⟩ : ∃ s : AwareDatetime, s.zone = a.zone ∧
      s.wall = monthStart s.month ∧ s.month = a.month :=
    ⟨a.startOfMonth, rfl, a.startOfMonth_wall, a.startOfMonth_month⟩
  have hbs : z.instant b < z.instant s :=
    (month_lt_iff hz (hzone.symm.trans hzs.symm) hwall).1 (by rw [hmonth]; exact not_le.1 hlt)
  have hsa : ¬ z.instant a < z.instant s := fun hlt =>
    absurd ((month_lt_iff hz hzs.symm hwall).2 hlt) (by rw [hmonth]; exact lt_irrefl _)
  omega

end Zones

/-! ### Conversion to a zone -/

/-- A time zone to which datetimes are converted.  Where the reading would leave the calendar, in the
first and the last hours of it, the conversion raises and there is nothing to say of it; results about
it concern the code for the datetimes that can be converted. -/
structure TimeZone where
  zone : Zone
  astimezone : AwareDatetime → AwareDatetime
  astimezone_zone : ∀ d, (astimezone d).zone = zone

/-- `datetime.fromtimestamp(…, tz=tz)`, in seconds. -/
def TimeZone.fromtimestamp (tz : TimeZone) (epoch : ℤ) : Option AwareDatetime :=
  (utcFromTimestamp (1000000 * epoch)).map tz.astimezone

/-! ### A repeated hour -/

/-- New York around the night of 3 November 2024, when the hour from one to two is shown twice. -/
def Zones.fallBack : Zones where
  newYork wall fold :=
    if wall < 1730595600000000 ∨ (wall < 1730599200000000 ∧ fold = false) then -14400 else -18000

/-- The reading of New York's clocks, and its fold, around that night. -/
def fallBackReading (instant : ℤ) : ℤ × Bool :=
  if instant < 1730613600000000 then (instant - 14400000000, false)
  else (instant - 18000000000, instant < 1730617200000000)

/-- The conversion to the zone of New York around that night. -/
def TimeZone.fallBack : TimeZone where
  zone := .newYork
  astimezone d :=
    let reading := fallBackReading (Zones.fallBack.instant d)
    if h : d.zone ≠ .newYork ∧ monthStart 12 ≤ reading.1 ∧ reading.1 < monthStart 120000 then
      ⟨.newYork, reading.1, reading.2, h.2.1, h.2.2⟩
    else { d with zone := .newYork }
  astimezone_zone d := by
    dsimp only
    split <;> rfl
