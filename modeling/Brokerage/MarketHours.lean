/-
**Market hours in New York.**

Each symbol has a profile of hours.  All but that of the currencies are hours of New York's clocks: gold
and the indices break for an hour a day, the shares trade in the daytime of weekdays.  The currencies
open and close at hours of UTC, but their next opening is computed as one of New York.

The offsets of New York come from the time zone database, and are a parameter.

Main definitions:

* `ZoneInfo` — the offsets of New York by instants and by readings;
* `MarketHours.Profile.state` — the hours of a profile;
* `MarketHours.getNextOpenNy` — the next opening that is announced;
* `MarketHours.getMarketStateNy` — the state of the market of a symbol.

Main results:

* `AwareDatetime.replaceAt_eq_some` — when a reading is of the calendar.
-/

import Brokerage.Calendar
import Brokerage.Text

set_option relaxedAutoImplicit false
set_option autoImplicit false

/-! ### Days and minutes of a reading -/

/-- The day of the week of a reading: 0 for Monday, up to 6 for Sunday. -/
def weekdayOf (wall : ℤ) : ℤ := (wall / dayMicros + 3) % 7

/-- The reading of a minute of a day. -/
def readingAt (day mins : ℤ) : ℤ := dayMicros * day + minuteMicros * mins

namespace AwareDatetime

/-- `date()`, as days since 1970. -/
def day (d : AwareDatetime) : ℤ := d.wall / dayMicros

/-- `weekday()`. -/
def weekday (d : AwareDatetime) : ℤ := weekdayOf d.wall

/-- `replace` of all fields down to the second: a minute of a day, if it is of the calendar. -/
def replaceAt (d : AwareDatetime) (day mins : ℤ) : Option AwareDatetime :=
  if h : monthStart 12 ≤ readingAt day mins ∧ readingAt day mins < monthStart 120000 then
    some { d with wall := readingAt day mins, minyear := h.1, maxyear := h.2 }
  else
    none

/-- `replace` of the date by the next one. -/
def nextDay (d : AwareDatetime) : Option AwareDatetime :=
  if h : d.wall + dayMicros < monthStart 120000 then
    some { d with
      wall := d.wall + dayMicros
      minyear := d.minyear.trans (le_add_of_nonneg_right (by decide))
      maxyear := h }
  else
    none

/-- A minute of a day of the calendar is of the calendar. -/
theorem replaceAt_eq_some (d : AwareDatetime) {day mins : ℤ} (hmin : daysBefore 12 ≤ day)
    (hmax : day < daysBefore 120000) (h0 : 0 ≤ mins) (h1440 : mins < 1440) :
    ∃ e, d.replaceAt day mins = some e ∧ e.zone = d.zone ∧ e.wall = readingAt day mins := by
  have hcal : monthStart 12 ≤ readingAt day mins ∧ readingAt day mins < monthStart 120000 := by
    simp only [monthStart, readingAt, dayMicros, minuteMicros]
    omega
  exact ⟨{ d with wall := readingAt day mins, minyear := hcal.1, maxyear := hcal.2 },
    by rw [replaceAt, dif_pos hcal], rfl, rfl⟩

theorem replaceAt_spec {d e : AwareDatetime} {day mins : ℤ} (h : d.replaceAt day mins = some e) :
    e.zone = d.zone ∧ e.wall = readingAt day mins := by
  rw [replaceAt] at h
  split at h
  · obtain rfl := Option.some.inj h
    exact ⟨rfl, rfl⟩
  · cases h

end AwareDatetime

/-! ### The zone of New York -/

/-- What the time zone database says of New York: the offset of an instant, in seconds, and whether its
reading is shown the second time; and the offset of a reading. -/
structure ZoneInfo extends Zones where
  offsetAt : ℤ → ℤ
  foldAt : ℤ → Bool

/-- What New York's clocks show at an instant. -/
def ZoneInfo.reading (tz : ZoneInfo) (u : ℤ) : ℤ := u + 1000000 * tz.offsetAt u

/-- `astimezone` to New York, if the reading is of the calendar. -/
def ZoneInfo.astimezone (tz : ZoneInfo) (d : AwareDatetime) : Option AwareDatetime :=
  if d.zone = .newYork then some d
  else
    let i := tz.toZones.instant d
    if h : monthStart 12 ≤ tz.reading i ∧ tz.reading i < monthStart 120000 then
      some ⟨.newYork, tz.reading i, tz.foldAt i, h.1, h.2⟩
    else
      none

/-- The hours at which the clocks of New York are changed: after midnight and before nine, on a Sunday
before five in the afternoon. -/
def ChangeTime (wall : ℤ) : Prop :=
  0 < wall % dayMicros ∧
    wall % dayMicros < minuteMicros * (if weekdayOf wall = 6 then 17 * 60 else 9 * 60)

/-- What is known of New York: it is four to five hours behind UTC, an offset of a reading that is shown
once is that of its instant, and a change keeps the day and is made at night or on a Sunday. -/
structure ZoneInfo.IsNewYork (tz : ZoneInfo) : Prop where
  offset : ∀ u, -18000 ≤ tz.offsetAt u ∧ tz.offsetAt u ≤ -14400
  localOffset : ∀ wall fold, -18000 ≤ tz.newYork wall fold ∧ tz.newYork wall fold ≤ -14400
  once : ∀ u, (∀ v, tz.reading v = tz.reading u → v = u) →
    ∀ fold, tz.newYork (tz.reading u) fold = tz.offsetAt u
  change : ∀ u, tz.offsetAt (u - 1) ≠ tz.offsetAt u →
    (u + 1000000 * tz.offsetAt (u - 1)) / dayMicros = tz.reading u / dayMicros ∧
      ChangeTime (u + 1000000 * tz.offsetAt (u - 1)) ∧ ChangeTime (tz.reading u)

namespace MarketHours

/-- An instant is of the calendar, in UTC and in New York. -/
def InCalendar (tz : ZoneInfo) (u : ℤ) : Prop :=
  (monthStart 12 ≤ u ∧ u < monthStart 120000) ∧
    monthStart 12 ≤ tz.reading u ∧ tz.reading u < monthStart 120000

theorem astimezone_utc {tz : ZoneInfo} {dt : AwareDatetime} (hutc : dt.zone = .utc)
    (h : monthStart 12 ≤ tz.reading dt.wall ∧ tz.reading dt.wall < monthStart 120000) :
    tz.astimezone dt = some ⟨.newYork, tz.reading dt.wall, tz.foldAt dt.wall, h.1, h.2⟩ := by
  have hinstant := Zones.instant_utc (z := tz.toZones) hutc
  rw [ZoneInfo.astimezone, if_neg (by rw [hutc]; decide)]
  simp only [hinstant]
  exact dif_pos h

/-- New York around the night of 3 November 2024. -/
def fallBackZone : ZoneInfo where
  toZones := Zones.fallBack
  offsetAt u := if u < 1730613600000000 then -14400 else -18000
  foldAt u := (fallBackReading u).2

/-! ### Profiles -/

/-- `state` of a result. -/
inductive MarketState
  | open_
  | closed
  | unknown
  deriving DecidableEq

/-- `reason` of a result. -/
inductive Reason
  | open_
  | closed
  | dailyBreak
  | rthClosed
  | unknown
  | weekend
  deriving DecidableEq

/-- The profiles that there are. -/
inductive Profile
  | ostiumXauBreak
  | ostiumIndicesBreak
  | ostiumRthEquities
  | usEquitiesNy
  | fx245
  deriving DecidableEq

structure MarketStateResult where
  state : MarketState
  reason : Reason
  nextOpenUtc : Option ℤ
  nextOpenLocal : Option String
  deriving DecidableEq

/-- Minutes since midnight. -/
def minsSinceMidnight (dt : AwareDatetime) : ℤ := dt.wall % dayMicros / minuteMicros

/-- `HH:MM`. -/
def formatNextOpen (dt : AwareDatetime) : String :=
  String.ofList (Text.padded 2 (minsSinceMidnight dt / 60).toNat ++
    ':' :: Text.padded 2 (minsSinceMidnight dt % 60).toNat)

/-- Open from Sunday evening to Friday, with a break every day. -/
def breakState (breakStart breakEnd mins weekday : ℤ) : Bool × Reason :=
  if weekday = 5 then (false, .weekend)
  else if weekday = 6 then
    (decide (breakEnd ≤ mins), if breakEnd ≤ mins then .open_ else .weekend)
  else if weekday = 4 ∧ breakStart ≤ mins then (false, .weekend)
  else if mins < breakStart then (true, .open_)
  else if mins < breakEnd then (false, .dailyBreak)
  else (true, .open_)

def xauBreakStart : ℤ := 17 * 60 + 0
def xauBreakEnd : ℤ := 18 * 60 + 0

def xauBreakState (mins weekday : ℤ) : Bool × Reason :=
  breakState xauBreakStart xauBreakEnd mins weekday

def indicesBreakStart : ℤ := 17 * 60 + 0
def indicesBreakEnd : ℤ := 18 * 60 + 0

def indicesBreakState (mins weekday : ℤ) : Bool × Reason :=
  breakState indicesBreakStart indicesBreakEnd mins weekday

def nvdaOpenStart : ℤ := 9 * 60 + 31
def nvdaOpenEnd : ℤ := 15 * 60 + 59

/-- The last minute is one in which the market is open. -/
def nvdaRthState (mins weekday : ℤ) : Bool × Reason :=
  if 5 ≤ weekday then (false, .weekend)
  else if nvdaOpenStart ≤ mins ∧ mins ≤ nvdaOpenEnd then (true, .open_)
  else (false, .rthClosed)

def usEqOpenStart : ℤ := 9 * 60 + 30
def usEqOpenEnd : ℤ := 16 * 60 + 0

def usEquitiesNyState (mins weekday : ℤ) : Bool × Reason :=
  if 5 ≤ weekday then (false, .weekend)
  else if usEqOpenStart ≤ mins ∧ mins < usEqOpenEnd then (true, .open_)
  else (false, .rthClosed)

/-- From Sunday to Friday, 22:00 UTC. -/
def fx245State (dtUtc : AwareDatetime) : Bool × Reason :=
  let wd := dtUtc.weekday
  let mins := minsSinceMidnight dtUtc
  if wd = 5 then (false, .weekend)
  else if wd = 6 then (decide (22 * 60 ≤ mins), if 22 * 60 ≤ mins then .open_ else .closed)
  else if wd = 4 then (decide (mins < 22 * 60), if mins < 22 * 60 then .open_ else .closed)
  else (true, .open_)

/-- The function of a profile. -/
def Profile.state (profile : Profile) (dtUtc dtNy : AwareDatetime) : Bool × Reason :=
  match profile with
  | .ostiumXauBreak => xauBreakState (minsSinceMidnight dtNy) dtNy.weekday
  | .ostiumIndicesBreak => indicesBreakState (minsSinceMidnight dtNy) dtNy.weekday
  | .ostiumRthEquities => nvdaRthState (minsSinceMidnight dtNy) dtNy.weekday
  | .usEquitiesNy => usEquitiesNyState (minsSinceMidnight dtNy) dtNy.weekday
  | .fx245 => fx245State dtUtc

/-- `_PROFILES`. -/
def profiles : List (String × Profile) :=
  [("ostium_xau_break", .ostiumXauBreak), ("ostium_indices_break", .ostiumIndicesBreak),
    ("ostium_rth_equities", .ostiumRthEquities), ("us_equities_ny", .usEquitiesNy),
    ("fx_24_5", .fx245)]

/-- `DEFAULT_PROFILE`. -/
def defaultProfile : List (String × String) :=
  [("XAUUSD", "ostium_xau_break"), ("XAU", "ostium_xau_break"), ("DAXEUR", "ostium_indices_break"),
    ("SPXUSD", "ostium_indices_break"), ("NDXUSD", "ostium_indices_break"),
    ("NVDAUSD", "ostium_rth_equities"), ("NVDA", "ostium_rth_equities"),
    ("GOOGUSD", "us_equities_ny"), ("MSFT", "us_equities_ny"), ("EURUSD", "fx_24_5"),
    ("GBPUSD", "fx_24_5"), ("USDJPY", "fx_24_5"), ("AUDUSD", "fx_24_5")]

/-! ### The next opening -/

/-- The days to the next day of the week, a week if it is today. -/
def daysTo (target weekday : ℤ) : ℤ :=
  if (target - weekday) % 7 = 0 then 7 else (target - weekday) % 7

/-- The next Sunday at 18:00. -/
def nextSunday18 (dtNy : AwareDatetime) : Option AwareDatetime :=
  let sunday := dtNy.replaceAt (dtNy.day + daysTo 6 dtNy.weekday) (18 * 60)
  if dtNy.weekday = 6 then
    (dtNy.replaceAt dtNy.day (18 * 60)).bind fun candidate =>
      if dtNy.wall < candidate.wall then some candidate else sunday
  else sunday

/-- The loop that skips the weekend. -/
def skipWeekend (next : AwareDatetime) : Option AwareDatetime :=
  if 5 ≤ next.weekday then
    match _h : next.nextDay with
    | none => none
    | some later => skipWeekend later
  else some next
  termination_by ((7 - next.weekday) % 7).toNat
  decreasing_by
    rw [AwareDatetime.nextDay] at _h
    split at _h
    · obtain rfl := Option.some.inj _h
      simp only [AwareDatetime.weekday, weekdayOf, dayMicros] at *
      omega
    · exact nomatch _h

/-- The next opening in New York, if there is one to announce; nothing if it is not of the calendar. -/
def getNextOpenNy (openNow : Bool) (reason : Reason) (dtNy : AwareDatetime) (profile : Profile) :
    Option (Option AwareDatetime) :=
  let mins := minsSinceMidnight dtNy
  let today (at_ : ℤ) := (dtNy.replaceAt dtNy.day at_).map some
  let nextWeekday (at_ : ℤ) := ((dtNy.replaceAt (dtNy.day + 1) at_).bind skipWeekend).map some
  if openNow then some none
  else
    match reason with
    | .dailyBreak =>
        if profile = .ostiumXauBreak ∧ xauBreakStart ≤ mins ∧ mins < xauBreakEnd then
          today (18 * 60)
        else if profile = .ostiumIndicesBreak ∧ indicesBreakStart ≤ mins ∧ mins < indicesBreakEnd then
          today (18 * 60)
        else some none
    | .rthClosed =>
        if profile = .usEquitiesNy then
          if mins < usEqOpenStart then today (9 * 60 + 30) else nextWeekday (9 * 60 + 30)
        else if mins < nvdaOpenStart then today (9 * 60 + 31)
        else if nvdaOpenEnd < mins then nextWeekday (9 * 60 + 31)
        else some none
    | .weekend =>
        if profile = .ostiumXauBreak ∨ profile = .ostiumIndicesBreak then
          (nextSunday18 dtNy).map some
        else if profile = .usEquitiesNy ∨ profile = .ostiumRthEquities then
          (dtNy.replaceAt (dtNy.day + daysTo 7 dtNy.weekday)
            (9 * 60 + if profile = .usEquitiesNy then 30 else 31)).map some
        else
          -- an hour of New York, where the currencies open by UTC
          (dtNy.replaceAt (dtNy.day + daysTo 6 dtNy.weekday) (17 * 60)).map some
    | .closed => today (17 * 60)
    | _ => some none

/-! ### The state -/

/-- `ts_utc` as a datetime: seconds since 1970 become one of UTC. -/
def toDatetime : ℤ ⊕ AwareDatetime → Option AwareDatetime
  | .inl ts => utcFromTimestamp (1000000 * ts)
  | .inr dt => some dt

/-- The name of the profile of a symbol, which an override replaces. -/
def profileName (symbol : String) (profileOverride : Option String) : String :=
  let s := Text.strip (Text.upper symbol)
  let s := if s = "XAU" then "XAUUSD" else s
  match profileOverride with
  | some name => if name ≠ "" then name else (defaultProfile.lookup s).getD "unknown"
  | none => (defaultProfile.lookup s).getD "unknown"

/-- The state of the market of a symbol; nothing if a date is not of the calendar. -/
def getMarketStateNy (tz : ZoneInfo) (symbol : String) (tsUtc : ℤ ⊕ AwareDatetime)
    (profileOverride : Option String) : Option MarketStateResult :=
  let name := profileName symbol profileOverride
  if name = "unknown" then some ⟨.unknown, .unknown, none, none⟩
  else
    (toDatetime tsUtc).bind fun dtUtc =>
      (tz.astimezone dtUtc).bind fun dtNy =>
        match profiles.lookup name with
        | none => some ⟨.unknown, .unknown, none, none⟩
        | some profile =>
            let (isOpen, reason) := profile.state dtUtc dtNy
            if isOpen then some ⟨.open_, reason, none, none⟩
            else
              (getNextOpenNy isOpen reason dtNy profile).map fun next =>
                ⟨.closed, reason, next.map fun dt => (tz.toZones.instant dt).tdiv 1000000,
                  next.map fun dt => formatNextOpen dt ++ " NY"⟩

end MarketHours
