/-
**Two calendars of one market.**

The process that ingests prices asks the engine of New York's hours whether a market is open; the
others ask the hours of UTC.  For a symbol that has the currencies' hours in both, they give the
same answer at every second, so that whole runs of the data layer degrade the same symbols and come
to the same status with either.  Gold has a break in the engine only: there it is closed for one
hour of New York's day that the other calendar counts as open, and never open when the other is
closed.

Main definitions:

* `MarketHours.hoursForIngest` — the hours that the process of the prices is given;
* `MarketHours.CurrencyHours`, `MarketHours.GoldHours` — the symbols that are compared;
* `DataLayerProdService.Alike` — worlds that differ in the reason of the metrics only.

Main results:

* `MarketHours.currency_agrees` — the calendars agree on the currencies;
* `MarketHours.gold_hours` — the calendars differ on gold in the hour of the break;
* `DataLayerProdService.run_either_calendar` — runs of the data layer with either calendar;
* `MarketHours.gold_closed_minutes` — the closed minutes of gold that the other calendar does not
  count.
-/

import Brokerage.GateRecovery
import Brokerage.NextOpening

set_option relaxedAutoImplicit false
set_option autoImplicit false

namespace MarketHours

/-! ### The hours of the ingest -/

variable (tz : ZoneInfo) (overrides : Dict String String)

/-- The state of the market and why, with the profiles of the configuration; a symbol without a
profile is open.  Nothing if a date is not of the calendar. -/
def getMarketStateForIngest (symbol : String) (tsUtc : ℤ) : Option (Bool × Reason) :=
  (getMarketStateNy tz symbol (.inl tsUtc) (overrides.get? (Text.upper symbol))).map fun r =>
    if r.state = .unknown then (true, .unknown) else (decide (r.state = .open_), r.reason)

/-- The hours that the services are given. -/
def hoursForIngest (symbol : String) (tsUtc : ℤ) : Bool × Reason :=
  (getMarketStateForIngest tz overrides symbol tsUtc).getD (true, .unknown)

/-- The instants of the years 2 to 9998. -/
def InYears (u : ℤ) : Prop := monthStart 24 ≤ u ∧ u < monthStart 119988

/-- A symbol has the hours of the currencies in both calendars. -/
def CurrencyHours (symbol : String) : Prop :=
  Fx245.normalizeSymbol symbol ∈ Fx245.fxSymbols ∧
    profiles.lookup (profileName symbol (overrides.get? (Text.upper symbol))) = some .fx245

/-- A symbol has the hours of the currencies in one calendar, and those of gold in the other. -/
def GoldHours (symbol : String) : Prop :=
  Fx245.normalizeSymbol symbol ∈ Fx245.fxSymbols ∧
    profiles.lookup (profileName symbol (overrides.get? (Text.upper symbol))) =
      some .ostiumXauBreak

/-- It is the hour of the break in New York. -/
def InBreak (ts : ℤ) : Bool :=
  let mins := tz.reading (1000000 * ts) % dayMicros / minuteMicros
  decide (xauBreakStart ≤ mins ∧ mins < xauBreakEnd)

variable {tz overrides}

/-! ### The answers -/

/-- Instants of these years, and the week after them, are of the calendar. -/
theorem InYears.days {u : ℤ} (h : InYears u) :
    daysBefore 12 + 2 ≤ u / dayMicros ∧ u / dayMicros + 10 < daysBefore 120000 := by
  have hfirst : daysBefore 12 + 2 ≤ daysBefore 24 := by decide +kernel
  have hlast : daysBefore 119988 + 10 < daysBefore 120000 := by decide +kernel
  simp only [InYears, monthStart, dayMicros] at *
  omega

theorem InYears.inCalendar (hny : tz.IsNewYork) {u : ℤ} (h : InYears u) : InCalendar tz u := by
  have hdays := h.days
  have hbounds := hny.reading_bounds u
  simp only [InCalendar, monthStart, dayMicros] at *
  omega

/-- A time within a week after such an instant can be told. -/
theorem InYears.replaceAt {u : ℤ} (h : InYears u) {dtNy : AwareDatetime}
    (hlow : u - 18000000000 ≤ dtNy.wall) (hhigh : dtNy.wall ≤ u - 14400000000) {days mins : ℤ}
    (hdays : 0 ≤ days ∧ days ≤ 7) (hmins : 0 ≤ mins ∧ mins < 1440) :
    ∃ e, dtNy.replaceAt (dtNy.day + days) mins = some e := by
  have hrange := h.days
  have hmin : daysBefore 12 ≤ dtNy.day + days := by
    simp only [AwareDatetime.day, dayMicros] at *
    omega
  have hmax : dtNy.day + days < daysBefore 120000 := by
    simp only [AwareDatetime.day, dayMicros] at *
    omega
  obtain ⟨e, he, -⟩ := dtNy.replaceAt_eq_some hmin hmax hmins.1 hmins.2
  exact ⟨e, he⟩

/-- The next opening of the currencies and of gold can be told. -/
theorem InYears.next {u : ℤ} (h : InYears u) {dtNy : AwareDatetime}
    (hlow : u - 18000000000 ≤ dtNy.wall) (hhigh : dtNy.wall ≤ u - 14400000000) {profile : Profile}
    (hprofile : profile = .fx245 ∨ profile = .ostiumXauBreak) {reason : Reason}
    (hreason : reason ≠ .rthClosed) :
    ∃ next, getNextOpenNy false reason dtNy profile = some next := by
  have hlater : ∀ days mins, 0 ≤ days ∧ days ≤ 7 → 0 ≤ mins ∧ mins < 1440 →
      ∃ e, dtNy.replaceAt (dtNy.day + days) mins = some e := fun days mins hdays hmins =>
    h.replaceAt hlow hhigh hdays hmins
  have htoday : ∀ mins, 0 ≤ mins ∧ mins < 1440 → ∃ e, dtNy.replaceAt dtNy.day mins = some e := by
    intro mins hmins
    obtain ⟨e, he⟩ := hlater 0 mins (by decide) hmins
    rw [add_zero] at he
    exact ⟨e, he⟩
  have hsunday : 0 ≤ daysTo 6 dtNy.weekday ∧ daysTo 6 dtNy.weekday ≤ 7 := by
    rw [daysTo]
    split <;> omega
  cases reason with
  | open_ => exact ⟨none, rfl⟩
  | unknown => exact ⟨none, rfl⟩
  | rthClosed => exact absurd rfl hreason
  | closed =>
      obtain ⟨e, he⟩ := htoday (17 * 60) (by decide)
      exact ⟨some e, congrArg (Option.map some) he⟩
  | dailyBreak =>
      obtain ⟨e, he⟩ := htoday (18 * 60) (by decide)
      rw [getNextOpenNy, if_neg (by decide)]
      simp only [he]
      split
      · exact ⟨_, rfl⟩
      · split <;> exact ⟨_, rfl⟩
  | weekend =>
      rcases hprofile with rfl | rfl
      · obtain ⟨e, he⟩ := hlater _ (17 * 60) hsunday (by decide)
        exact ⟨some e, congrArg (Option.map some) he⟩
      · obtain ⟨e, he⟩ := hlater _ (18 * 60) hsunday (by decide)
        obtain ⟨candidate, hcandidate⟩ := htoday (18 * 60) (by decide)
        change ∃ next, (nextSunday18 dtNy).map some = some next
        rw [nextSunday18, he, hcandidate, Option.bind_some]
        split
        · split <;> exact ⟨_, rfl⟩
        · exact ⟨_, rfl⟩

/-- Neither of them closes for a day of trade. -/
theorem Profile.reason_ne {profile : Profile}
    (hprofile : profile = .fx245 ∨ profile = .ostiumXauBreak) (dtUtc dtNy : AwareDatetime) :
    (profile.state dtUtc dtNy).2 ≠ .rthClosed := by
  rcases hprofile with rfl | rfl
  · simp only [Profile.state, fx245State]
    split_ifs <;> simp
  · simp only [Profile.state, xauBreakState, breakState]
    split_ifs <;> simp

/-- What the services are told is what the hours of the profile say. -/
theorem hoursForIngest_eq (hny : tz.IsNewYork) {symbol : String} {profile : Profile}
    (hname : profiles.lookup (profileName symbol (overrides.get? (Text.upper symbol))) =
      some profile)
    (hprofile : profile = .fx245 ∨ profile = .ostiumXauBreak) {ts : ℤ}
    (hts : InYears (1000000 * ts)) :
    ∃ dtUtc dtNy : AwareDatetime, dtUtc.wall = 1000000 * ts ∧
      dtNy.wall = tz.reading (1000000 * ts) ∧
        hoursForIngest tz overrides symbol ts = profile.state dtUtc dtNy := by
  have hcal := hts.inCalendar hny
  have hbounds := hny.reading_bounds (1000000 * ts)
  let dtUtc : AwareDatetime := ⟨.utc, 1000000 * ts, false, hcal.1.1, hcal.1.2⟩
  let dtNy : AwareDatetime := ⟨.newYork, tz.reading (1000000 * ts), tz.foldAt (1000000 * ts),
    hcal.2.1, hcal.2.2⟩
  have hdt : toDatetime (.inl ts) = some dtUtc := dif_pos hcal.1
  have hzone : tz.astimezone dtUtc = some dtNy := astimezone_utc rfl hcal.2
  have hreason := Profile.reason_ne hprofile dtUtc dtNy
  refine ⟨dtUtc, dtNy, rfl, rfl, ?_⟩
  rw [hoursForIngest, getMarketStateForIngest, getMarketStateNy_eq hname hdt hzone]
  generalize profile.state dtUtc dtNy = state at hreason
  obtain ⟨isOpen, reason⟩ := state
  cases isOpen with
  | true => rfl
  | false =>
      obtain ⟨next, hnext⟩ : ∃ next, getNextOpenNy false reason dtNy profile = some next :=
        hts.next hbounds.1 hbounds.2 hprofile hreason
      rw [if_neg Bool.false_ne_true, hnext]
      rfl

/-! ### Agreement -/

/-- The hours of the currencies and of gold are known. -/
theorem mem_known {s : String} (h : s ∈ Fx245.fxSymbols) : s ∉ Fx245.marketHoursUnknownSymbols := by
  revert s
  simp [Fx245.fxSymbols, Fx245.marketHoursUnknownSymbols]

/-- When the other calendar is closed. -/
theorem isMarketOpen_eq_false_iff {symbol : String}
    (hfx : Fx245.normalizeSymbol symbol ∈ Fx245.fxSymbols) (ts : ℤ) :
    Fx245.isMarketOpen symbol ts = false ↔ weekdayOf (1000000 * ts) = 5 ∨
      (weekdayOf (1000000 * ts) = 6 ∧ 1000000 * ts % dayMicros / minuteMicros < 22 * 60) ∨
        (weekdayOf (1000000 * ts) = 4 ∧ 22 * 60 ≤ 1000000 * ts % dayMicros / minuteMicros) := by
  rw [Fx245.isMarketOpen, Fx245.getMarketState]
  dsimp only
  rw [if_neg (mem_known hfx), if_neg (not_not.2 hfx)]
  split
  · exact iff_of_true rfl (.inl ‹_›)
  · split
    · rw [decide_eq_false_iff_not]
      omega
    · split
      · rw [decide_eq_false_iff_not]
        omega
      · refine iff_of_false (by decide) ?_
        omega

/-- Where it is open, it says so. -/
theorem getMarketState_snd {symbol : String} (hfx : Fx245.normalizeSymbol symbol ∈ Fx245.fxSymbols)
    {ts : ℤ} (hopen : Fx245.isMarketOpen symbol ts = true) :
    (Fx245.getMarketState symbol ts).2 = .open_ := by
  rw [← Bool.not_eq_false, isMarketOpen_eq_false_iff hfx] at hopen
  rw [Fx245.getMarketState]
  dsimp only
  rw [if_neg (mem_known hfx), if_neg (not_not.2 hfx), if_neg (by omega)]
  split
  · exact if_pos (by omega)
  · split
    · exact if_pos (by omega)
    · rfl

/-- Where the engine's currencies are open, it says so. -/
theorem fx245State_snd {dtUtc : AwareDatetime} (hopen : (fx245State dtUtc).1 = true) :
    (fx245State dtUtc).2 = .open_ := by
  rw [← Bool.not_eq_false, fx245State_eq_false_iff] at hopen
  rw [fx245State, if_neg (by omega)]
  split
  · exact if_pos (by omega)
  · split
    · exact if_pos (by omega)
    · rfl

/-- When a market with a break is open. -/
theorem breakState_eq_true_iff (mins weekday : ℤ) :
    (breakState (17 * 60) (18 * 60) mins weekday).1 = true ↔ weekday ≠ 5 ∧
      ¬ (weekday = 6 ∧ mins < 18 * 60) ∧ ¬ (weekday = 4 ∧ 17 * 60 ≤ mins) ∧
        ¬ (17 * 60 ≤ mins ∧ mins < 18 * 60) := by
  rw [breakState]
  split
  · exact iff_of_false Bool.false_ne_true (by omega)
  · split
    · rw [decide_eq_true_eq]
      omega
    · split
      · exact iff_of_false Bool.false_ne_true (by omega)
      · split
        · exact iff_of_true rfl (by omega)
        · split
          · exact iff_of_false Bool.false_ne_true (by omega)
          · exact iff_of_true rfl (by omega)

/-- The calendars agree on the currencies. -/
theorem currency_agrees (hny : tz.IsNewYork) {symbol : String}
    (hcurrency : CurrencyHours overrides symbol) {ts : ℤ} (hts : InYears (1000000 * ts)) :
    (hoursForIngest tz overrides symbol ts).1 = Fx245.isMarketOpen symbol ts ∧
      ((hoursForIngest tz overrides symbol ts).1 = true →
        (hoursForIngest tz overrides symbol ts).2 = .open_) := by
  obtain ⟨dtUtc, dtNy, hutc, -, htold⟩ := hoursForIngest_eq hny hcurrency.2 (.inl rfl) hts
  rw [htold]
  constructor
  · rw [Bool.eq_iff_iff, ← not_iff_not, Bool.not_eq_true, Bool.not_eq_true,
      isMarketOpen_eq_false_iff hcurrency.1, ← hutc]
    exact fx245State_eq_false_iff dtUtc
  · exact fx245State_snd

/-- On gold they differ in the hour of the break, in which the engine never says it is open. -/
theorem gold_hours (hny : tz.IsNewYork) {symbol : String} (hgold : GoldHours overrides symbol)
    {ts : ℤ} (hts : InYears (1000000 * ts)) :
    (hoursForIngest tz overrides symbol ts).1 =
      (Fx245.isMarketOpen symbol ts && !InBreak tz ts) := by
  obtain ⟨dtUtc, dtNy, hutc, hwall, htold⟩ := hoursForIngest_eq hny hgold.2 (.inr rfl) hts
  have hbounds := hny.reading_bounds (1000000 * ts)
  have hclosed := isMarketOpen_eq_false_iff hgold.1 ts
  rw [htold, Bool.eq_iff_iff, Bool.and_eq_true, Bool.not_eq_true', InBreak, decide_eq_false_iff_not,
    ← Bool.not_eq_false (Fx245.isMarketOpen symbol ts), hclosed, Profile.state, xauBreakState]
  change (breakState (17 * 60) (18 * 60) _ _).1 = true ↔ _
  rw [breakState_eq_true_iff, AwareDatetime.weekday, minsSinceMidnight, hwall]
  simp only [weekdayOf, dayMicros, minuteMicros, xauBreakStart, xauBreakEnd] at *
  omega

/-! ### Closed minutes -/

/-- A property of the points of a window is counted by any other that holds of the same ones. -/
theorem count_eq_of_eq {p q : ℤ → Bool} {lo hi : ℤ} (h : ∀ m, lo ≤ m → m < hi → p m = q m) :
    GridWindow.count p 60 lo hi = GridWindow.count q 60 lo hi := by
  rw [GridWindow.count, GridWindow.count]
  congr 1
  refine Finset.filter_congr fun m hm => ?_
  obtain ⟨-, hle, hlt⟩ := (GridWindow.mem_points (by decide)).1 hm
  rw [h m hle hlt]

/-- Properties that exclude each other are counted together. -/
theorem count_or {p q : ℤ → Bool} (h : ∀ m, p m = true → q m = false) (lo hi : ℤ) :
    GridWindow.count (fun m => p m || q m) 60 lo hi =
      GridWindow.count p 60 lo hi + GridWindow.count q 60 lo hi := by
  have hdisjoint : Disjoint ((GridWindow.points 60 lo hi).filter (p · = true))
      ((GridWindow.points 60 lo hi).filter (q · = true)) := by
    refine Finset.disjoint_filter.2 fun m _ hp hq => ?_
    rw [h m hp] at hq
    cases hq
  rw [GridWindow.count, GridWindow.count, GridWindow.count, ← Finset.card_union_of_disjoint hdisjoint,
    ← Finset.filter_or]
  simp only [Bool.or_eq_true]

/-- The full minutes of a window are of these years. -/
structure WindowInYears (fromTs toTs : ℤ) : Prop where
  le : fromTs ≤ toTs
  first : InYears (1000000 * (fromTs / 60 * 60))
  last : InYears (1000000 * toTs)

theorem WindowInYears.closedCounter {fromTs toTs : ℤ} (h : WindowInYears fromTs toTs)
    (cal : MarketCalendar) (symbol : String) :
    cal.closedCounter symbol fromTs toTs =
      some (GridWindow.count (fun m => !cal.isOpen symbol m) 60 (fromTs / 60 * 60) toTs : ℤ) := by
  have hfirst := h.first.days
  have hlast := h.last.days
  refine cal.closedCounter_eq symbol h.le ?_ ?_
  · simp only [monthStart, dayMicros] at *
    omega
  · simp only [monthStart, dayMicros] at *
    omega

theorem WindowInYears.mem {fromTs toTs : ℤ} (h : WindowInYears fromTs toTs) {m : ℤ}
    (hle : fromTs / 60 * 60 ≤ m) (hlt : m < toTs) : InYears (1000000 * m) := by
  have hfirst := h.first
  have hlast := h.last
  simp only [InYears] at *
  omega

/-- The closed minutes of the currencies are the same. -/
theorem currency_closed_minutes (hny : tz.IsNewYork) {symbol : String}
    (hcurrency : CurrencyHours overrides symbol) {fromTs toTs : ℤ}
    (hwindow : WindowInYears fromTs toTs) :
    (MarketCalendar.custom (hoursForIngest tz overrides)).closedCounter symbol fromTs toTs =
      MarketCalendar.fx245.closedCounter symbol fromTs toTs := by
  have hcount : GridWindow.count
      (fun m => !(MarketCalendar.custom (hoursForIngest tz overrides)).isOpen symbol m) 60
        (fromTs / 60 * 60) toTs =
      GridWindow.count (fun m => !MarketCalendar.fx245.isOpen symbol m) 60
        (fromTs / 60 * 60) toTs := by
    refine count_eq_of_eq fun m hle hlt => ?_
    simp only [MarketCalendar.isOpen, MarketCalendar.state,
      (currency_agrees hny hcurrency (hwindow.mem hle hlt)).1, Fx245.isMarketOpen]
  simp only [hwindow.closedCounter, hcount]

/-- Gold has more of them: those of the breaks that the other calendar counts as open. -/
theorem gold_closed_minutes (hny : tz.IsNewYork) {symbol : String}
    (hgold : GoldHours overrides symbol) {fromTs toTs : ℤ} (hwindow : WindowInYears fromTs toTs) :
    (MarketCalendar.custom (hoursForIngest tz overrides)).closedCounter symbol fromTs toTs =
      (MarketCalendar.fx245.closedCounter symbol fromTs toTs).map fun closedMins =>
        closedMins + (GridWindow.count (fun m => Fx245.isMarketOpen symbol m && InBreak tz m) 60
          (fromTs / 60 * 60) toTs : ℤ) := by
  have hcount : GridWindow.count
      (fun m => !(MarketCalendar.custom (hoursForIngest tz overrides)).isOpen symbol m) 60
        (fromTs / 60 * 60) toTs =
      GridWindow.count (fun m => !Fx245.isMarketOpen symbol m ||
        (Fx245.isMarketOpen symbol m && InBreak tz m)) 60 (fromTs / 60 * 60) toTs := by
    refine count_eq_of_eq fun m hle hlt => ?_
    change (!(hoursForIngest tz overrides symbol m).1) = _
    rw [gold_hours hny hgold (hwindow.mem hle hlt)]
    cases Fx245.isMarketOpen symbol m <;> cases InBreak tz m <;> rfl
  have hfx : ∀ m, MarketCalendar.fx245.isOpen symbol m = Fx245.isMarketOpen symbol m := fun _ => rfl
  rw [hwindow.closedCounter, hwindow.closedCounter, hcount, count_or, Option.map_some, Nat.cast_add]
  · simp only [hfx]
  · intro m hclosed
    rw [Bool.not_eq_true'] at hclosed
    rw [hclosed, Bool.false_and]

/-- The two hours around the winter's opening of Sunday, 10 November 2024. -/
theorem gold_closed_minutes_sunday :
    (MarketCalendar.custom (hoursForIngest fallBackZone Dict.empty)).closedCounter "XAU" 1731272400
        1731279600 =
      (MarketCalendar.fx245.closedCounter "XAU" 1731272400 1731279600).map fun closedMins =>
        closedMins + (GridWindow.count
          (fun m => Fx245.isMarketOpen "XAU" m && InBreak fallBackZone m) 60
            (1731272400 / 60 * 60) 1731279600 : ℤ) :=
  gold_closed_minutes fallBackZone_isNewYork ⟨by decide, by decide⟩
    ⟨by decide, ⟨by decide +kernel, by decide +kernel⟩, ⟨by decide +kernel, by decide +kernel⟩⟩

end MarketHours

namespace DataLayerProdService

open GateMetrics MarketHours

variable {tz : ZoneInfo} {overrides : Dict String String} {cfg : GateConfig} {serviceStartTs : ℤ}

/-! ### The gates with either calendar -/

/-- Values without the reason of the state of the market. -/
def hideReason (v : GateValues) : GateValues := { v with marketStateReason := .open_ }

/-- Values that differ in the reason only, and only where the market is closed. -/
structure AlikeValues (v v' : GateValues) : Prop where
  hidden : hideReason v = hideReason v'
  reason : v.marketOpen = true → v.marketStateReason = .open_
  reason' : v'.marketOpen = true → v'.marketStateReason = .open_

/-- Worlds whose metrics differ in the reason only. -/
structure Alike (w w' : World) : Prop where
  degraded : w.degraded = w'.degraded
  status : w.status = w'.status
  metrics : ∀ s, ({ w.metricsOf s with values := hideReason (w.metricsOf s).values } : SymbolMetrics) =
    { w'.metricsOf s with values := hideReason (w'.metricsOf s).values }

/-- An input whose last two days are of these years. -/
def InputInYears (input : GateInput) : Prop :=
  InYears (input.clock.now - 2 * dayMicros) ∧ InYears (input.clock.now + dayMicros)

/-- An event of a service that is given other hours. -/
def Event.withCalendar (cal : MarketCalendar) : Event → Event
  | .update input => .update { input with cal := cal }
  | .refuse symbol prefetching duplicates tsStepErrors =>
      .refuse symbol prefetching duplicates tsStepErrors

theorem InputInYears.window {input : GateInput} (h : InputInYears input) :
    WindowInYears input.clock.window24hStartTs input.clock.nowTs := by
  obtain ⟨hfirst, hlast⟩ := h
  have hnow := tdiv_cases input.clock.now
  have hstart := tdiv_cases (input.clock.now - dayMicros)
  have hepoch : monthStart 24 < 0 ∧ 86400000000 < monthStart 119988 := by decide +kernel
  refine ⟨?_, ?_, ?_⟩
  · rw [Clock.window24hStartTs, Clock.nowTs]
    simp only [dayMicros] at *
    omega
  · simp only [InYears, Clock.window24hStartTs, dayMicros] at *
    omega
  · simp only [InYears, Clock.nowTs, dayMicros] at *
    omega

/-- Calendars that agree give alike values. -/
theorem alike_of_agree {cal cal' : MarketCalendar} {symbol : String} {clock : Clock}
    (hopen : (cal.state symbol clock.nowTs).1 = (cal'.state symbol clock.nowTs).1)
    (hreason : (cal.state symbol clock.nowTs).1 = true → (cal.state symbol clock.nowTs).2 = .open_)
    (hreason' : (cal'.state symbol clock.nowTs).1 = true → (cal'.state symbol clock.nowTs).2 = .open_)
    (hclosed : cal.closedCounter symbol clock.window24hStartTs clock.nowTs =
      cal'.closedCounter symbol clock.window24hStartTs clock.nowTs)
    (lastTs : ℤ) (missingCount : Option ℕ) :
    AlikeValues (gateValues cfg cal serviceStartTs clock symbol lastTs missingCount)
      (gateValues cfg cal' serviceStartTs clock symbol lastTs missingCount) := by
  have hboth : (cal'.state symbol clock.nowTs).1 = true ∧ (cal.state symbol clock.nowTs).2 = .open_ ↔
      (cal'.state symbol clock.nowTs).1 = true ∧ (cal'.state symbol clock.nowTs).2 = .open_ :=
    and_congr_right fun h => iff_of_true (hreason (hopen.trans h)) (hreason' h)
  refine ⟨?_, hreason, hreason'⟩
  simp only [gateValues, GateMetrics.gateValues, hideReason, hclosed, hopen, hboth]

/-- The values of a currency are alike with either calendar. -/
theorem alike_gateValues (hny : tz.IsNewYork) {symbol : String}
    (hcurrency : CurrencyHours overrides symbol) {input : GateInput} (hinput : InputInYears input)
    (lastTs : ℤ) (missingCount : Option ℕ) :
    AlikeValues
      (gateValues cfg (.custom (hoursForIngest tz overrides)) serviceStartTs input.clock symbol
        lastTs missingCount)
      (gateValues cfg .fx245 serviceStartTs input.clock symbol lastTs missingCount) := by
  have hwindow := hinput.window
  obtain ⟨hopen, hreason⟩ := currency_agrees hny hcurrency hwindow.last
  refine alike_of_agree ?_ ?_ ?_ (currency_closed_minutes hny hcurrency hwindow) lastTs missingCount
  · simpa only [MarketCalendar.state, Fx245.isMarketOpen] using hopen
  · simpa only [MarketCalendar.state] using hreason
  · have hreason' : Fx245.isMarketOpen symbol input.clock.nowTs = true → _ :=
      getMarketState_snd hcurrency.1
    simpa only [MarketCalendar.state, Fx245.isMarketOpen] using hreason'

/-! ### Worlds with either calendar -/

variable {w w' : World}

namespace Alike

theorem observed (h : Alike w w') (s : String) :
    (w.metricsOf s).values.observedOpenMinutes24h = (w'.metricsOf s).values.observedOpenMinutes24h := by
  have hs := congrArg (fun m : SymbolMetrics => m.values.observedOpenMinutes24h) (h.metrics s)
  exact hs

theorem setMetrics (h : Alike w w') (symbol : String) {m m' : SymbolMetrics}
    (hm : ({ m with values := hideReason m.values } : SymbolMetrics) =
      { m' with values := hideReason m'.values }) :
    Alike { w with metrics := w.metrics.set symbol m }
      { w' with metrics := w'.metrics.set symbol m' } where
  degraded := h.degraded
  status := h.status
  metrics s := by
    rw [World.metricsOf_set, World.metricsOf_set]
    split
    · exact hm
    · exact h.metrics s

theorem setSymbolState (h : Alike w w') (symbol : String) (state : SymbolState)
    (reason : Option DegradeReason) (duplicates tsStepErrors : ℕ) :
    Alike (w.setSymbolState symbol state reason duplicates tsStepErrors)
      (w'.setSymbolState symbol state reason duplicates tsStepErrors) := by
  refine h.setMetrics symbol ?_
  have hvalues := congrArg SymbolMetrics.values (h.metrics symbol)
  simp only [hideReason, GateValues.mk.injEq] at hvalues ⊢
  simp [hvalues]

theorem markDegraded (h : Alike w w') (symbol : String) (reason : DegradeReason)
    (duplicates tsStepErrors : ℕ) :
    Alike (w.markDegraded symbol reason duplicates tsStepErrors)
      (w'.markDegraded symbol reason duplicates tsStepErrors) := by
  have hmarked : Alike { w with degraded := w.degraded.set symbol reason }
      { w' with degraded := w'.degraded.set symbol reason } :=
    ⟨by rw [h.degraded], h.status, h.metrics⟩
  exact hmarked.setSymbolState symbol _ _ duplicates tsStepErrors

theorem recover (h : Alike w w') (symbol : String) :
    Alike (w.recover symbol) (w'.recover symbol) := by
  have herased : Alike { w with degraded := w.degraded.erase symbol }
      { w' with degraded := w'.degraded.erase symbol } :=
    ⟨by rw [h.degraded], h.status, h.metrics⟩
  exact herased.setSymbolState symbol _ _ 0 0

/-- Alike values have the same effect. -/
theorem applyGates (h : Alike w w') (symbol : String) {v v' : GateValues} (hv : AlikeValues v v') :
    Alike (applyGates cfg w symbol v) (applyGates cfg w' symbol v') := by
  have hvalues := hv.hidden
  simp only [hideReason, GateValues.mk.injEq] at hvalues
  obtain ⟨-, hstale, hmissing, -, hopen, -, -, hobserved⟩ := hvalues
  have hjudged : v.marketOpen = true ∧ v.marketStateReason = .open_ ↔
      v'.marketOpen = true ∧ v'.marketStateReason = .open_ := by
    constructor
    · rintro ⟨hv', -⟩
      exact ⟨hopen ▸ hv', hv.reason' (hopen ▸ hv')⟩
    · rintro ⟨hv', -⟩
      exact ⟨hopen ▸ hv', hv.reason (hopen ▸ hv')⟩
  rw [DataLayerProdService.applyGates, DataLayerProdService.applyGates, h.degraded]
  cases w'.degraded.get? symbol with
  | none =>
      simp only [← and_assoc, hjudged, hstale, hmissing, inWarmup, hobserved]
      split
      · exact h.markDegraded symbol _ 0 0
      · split
        · exact h.markDegraded symbol _ 0 0
        · exact h
  | some reason =>
      simp only [hstale, hmissing]
      split
      · exact h.recover symbol
      · exact h

theorem lifecycle (h : Alike w w') (symbols : List String) :
    lifecycle cfg symbols w = lifecycle cfg symbols w' := by
  rw [DataLayerProdService.lifecycle, DataLayerProdService.lifecycle, h.degraded]
  simp only [h.observed]

/-- An update of a symbol of the currencies. -/
theorem updateSymbol (h : Alike w w') (hny : tz.IsNewYork) {symbol : String}
    (hcurrency : CurrencyHours overrides symbol) {input : GateInput} (hinput : InputInYears input) :
    Alike
      (updateSymbol cfg serviceStartTs
        { input with cal := .custom (hoursForIngest tz overrides) } w symbol)
      (updateSymbol cfg serviceStartTs { input with cal := .fx245 } w' symbol) := by
  rw [DataLayerProdService.updateSymbol, DataLayerProdService.updateSymbol, valuesOf, valuesOf]
  dsimp only
  cases input.lastTimestamp symbol with
  | none => exact h
  | some lastTs =>
      have hv : AlikeValues (gateValues cfg _ serviceStartTs _ _ _ _) _ :=
        alike_gateValues hny hcurrency hinput lastTs (input.missingCount symbol)
      rw [Option.map_some, Option.map_some]
      dsimp only
      refine Alike.applyGates (h.setMetrics symbol ?_) symbol hv
      have hm := h.metrics symbol
      simp only [SymbolMetrics.mk.injEq] at hm ⊢
      exact ⟨hm.1, hm.2.1, hm.2.2.1, hm.2.2.2.1, hv.hidden⟩

end Alike

/-! ### Runs with either calendar -/

variable {symbols : List String}

/-- An event keeps worlds alike. -/
theorem Alike.step (h : Alike w w') (hny : tz.IsNewYork)
    (hsymbols : ∀ s ∈ symbols, CurrencyHours overrides s) (e : Event)
    (he : ∀ input, e = .update input → InputInYears input) :
    Alike
      (step cfg serviceStartTs symbols w
        (e.withCalendar (.custom (hoursForIngest tz overrides))))
      (step cfg serviceStartTs symbols w' (e.withCalendar .fx245)) := by
  cases e with
  | refuse symbol prefetching duplicates tsStepErrors =>
      rw [Event.withCalendar, Event.withCalendar, DataLayerProdService.step, DataLayerProdService.step,
        h.degraded]
      split
      · exact h.markDegraded symbol _ duplicates tsStepErrors
      · exact h
  | update input =>
      have hupdated : Alike
          (symbols.foldl (DataLayerProdService.updateSymbol cfg serviceStartTs
            { input with cal := .custom (hoursForIngest tz overrides) }) w)
          (symbols.foldl (DataLayerProdService.updateSymbol cfg serviceStartTs
            { input with cal := .fx245 }) w') :=
        List.foldl_rel h fun s hs _ _ hw => hw.updateSymbol hny (hsymbols s hs) (he input rfl)
      exact ⟨hupdated.degraded, hupdated.lifecycle symbols, hupdated.metrics⟩

/-- Whichever calendar the service is given, it degrades the same currencies, for the same reasons,
and has the same status. -/
theorem run_either_calendar (hny : tz.IsNewYork)
    (hsymbols : ∀ s ∈ symbols, CurrencyHours overrides s) (events : List Event)
    (hevents : ∀ input, Event.update input ∈ events → InputInYears input) :
    (run cfg serviceStartTs symbols
        (events.map (Event.withCalendar (.custom (hoursForIngest tz overrides))))).degraded =
        (run cfg serviceStartTs symbols (events.map (Event.withCalendar .fx245))).degraded ∧
      (run cfg serviceStartTs symbols
        (events.map (Event.withCalendar (.custom (hoursForIngest tz overrides))))).status =
        (run cfg serviceStartTs symbols (events.map (Event.withCalendar .fx245))).status := by
  have hnew : Alike World.new World.new := ⟨rfl, rfl, fun _ => rfl⟩
  have halike : Alike
      (run cfg serviceStartTs symbols
        (events.map (Event.withCalendar (.custom (hoursForIngest tz overrides)))))
      (run cfg serviceStartTs symbols (events.map (Event.withCalendar .fx245))) := by
    rw [run, run, List.foldl_map, List.foldl_map]
    refine List.foldl_rel hnew fun e he _ _ hw => hw.step hny hsymbols e fun input heq => ?_
    exact hevents input (heq ▸ he)
  exact ⟨halike.degraded, halike.status⟩


/-- The outage at noon of a Tuesday, with nothing overridden. -/
theorem run_either_calendar_outage :
    (run ⟨120, 180, 10, 180⟩ 1770000000 ["EURUSD"]
        ([.update outage].map (Event.withCalendar (.custom
          (hoursForIngest fallBackZone Dict.empty))))).degraded =
        (run ⟨120, 180, 10, 180⟩ 1770000000 ["EURUSD"]
          ([.update outage].map (Event.withCalendar .fx245))).degraded ∧
      (run ⟨120, 180, 10, 180⟩ 1770000000 ["EURUSD"]
        ([.update outage].map (Event.withCalendar (.custom
          (hoursForIngest fallBackZone Dict.empty))))).status =
        (run ⟨120, 180, 10, 180⟩ 1770000000 ["EURUSD"]
          ([.update outage].map (Event.withCalendar .fx245))).status := by
  refine run_either_calendar fallBackZone_isNewYork (fun s hs => ?_) [.update outage]
    fun input hinput => ?_
  · obtain rfl := List.mem_singleton.1 hs
    exact ⟨by decide, by decide⟩
  · cases List.mem_singleton.1 hinput
    exact ⟨⟨by decide +kernel, by decide +kernel⟩, ⟨by decide +kernel, by decide +kernel⟩⟩

end DataLayerProdService
