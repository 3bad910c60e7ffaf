/-
**The gate metrics of a symbol.**

Two services compute, from the store and the clock, how old the last candle of a symbol is, how many
minutes of the last day are missing, and how many minutes the symbol should have and has.  The closed
minutes are counted over the last day, but taken off the minutes since the symbol is up.

Main definitions:

* `MarketCalendar` — the hours that a service is given;
* `GateMetrics.gateValues` — what is computed of a symbol;
* `DataLayerProdService.gateValues`, `OstiumGates.gateValues` — the same in the two services;
* `GateMetrics.CountsUptime` — the open minutes since the symbol is up are counted;
* `GateMetrics.CountsOnly` — hardly any other closed minutes are taken off.

Main results:

* `MarketCalendar.closedCounter_eq` — the closed minutes of a window are counted;
* `GateMetrics.countsUptime_iff` — when the open minutes since the symbol is up are counted.
-/

import Brokerage.Fx245

set_option relaxedAutoImplicit false
set_option autoImplicit false

open MarketHours (Reason)

/-! ### Hours -/

/-- The hours that a service is given: the default ones, or a function that tells the state of the
market, together with the count of the minutes that it tells to be closed. -/
inductive MarketCalendar
  | fx245
  | custom (marketHoursFn : String → ℤ → Bool × Reason)

/-- `count_closed_minutes_for_ingest`. -/
def countClosedMinutesForIngest (marketHoursFn : String → ℤ → Bool × Reason) (symbol : String)
    (fromTs toTs : ℤ) : ℤ :=
  let start := fromTs / 60 * 60
  let stop := (toTs + 59) / 60 * 60
  ((List.range ((stop - start) / 60).toNat).map fun i : ℕ => start + 60 * (i : ℤ)).countP
    fun ts => !(marketHoursFn symbol ts).1

namespace MarketCalendar

/-- The state of the market of a symbol. -/
def state : MarketCalendar → String → ℤ → Bool × Reason
  | fx245 => Fx245.getMarketState
  | custom marketHoursFn => marketHoursFn

/-- Whether the market is open. -/
def isOpen (cal : MarketCalendar) (symbol : String) (ts : ℤ) : Bool := (cal.state symbol ts).1

/-- The count of closed minutes; nothing if it raises. -/
def closedCounter : MarketCalendar → String → ℤ → ℤ → Option ℤ
  | fx245 => Fx245.countClosedMinutesBetween
  | custom marketHoursFn => fun symbol fromTs toTs =>
      some (countClosedMinutesForIngest marketHoursFn symbol fromTs toTs)

/-- The closed minutes of a window are counted, from the start of its first minute on. -/
theorem closedCounter_eq (cal : MarketCalendar) (symbol : String) {fromTs toTs : ℤ}
    (hle : fromTs ≤ toTs) (hfrom : monthStart 12 ≤ 1000000 * fromTs)
    (hto : 1000000 * toTs < monthStart 120000) :
    cal.closedCounter symbol fromTs toTs =
      some (GridWindow.count (fun m => !cal.isOpen symbol m) 60 (fromTs / 60 * 60) toTs : ℤ) := by
  cases cal with
  | fx245 => exact Fx245.countClosedMinutesBetween_eq symbol hle hfrom hto
  | custom marketHoursFn =>
      have hminutes : fromTs / 60 * 60 + 60 *
          (((toTs + 59) / 60 * 60 - fromTs / 60 * 60) / 60).toNat = (toTs + 59) / 60 * 60 := by
        omega
      simp only [closedCounter, countClosedMinutesForIngest]
      rw [GridWindow.countP_range (by decide) _ (dvd_mul_left 60 _), hminutes]
      congr 2
      refine GridWindow.count_congr (by decide) fun m hm => and_congr_right fun _ => ?_
      omega

end MarketCalendar

namespace GateMetrics

/-! ### The clock and the store -/

/-- An instant of the calendar whose day before is of the calendar as well, in microseconds. -/
structure Clock where
  now : ℤ
  min : monthStart 12 ≤ now - dayMicros
  max : now < monthStart 120000

namespace Clock

/-- `now_ts`. -/
def nowTs (clock : Clock) : ℤ := clock.now.tdiv 1000000

/-- `window_24h_start_ts`. -/
def window24hStartTs (clock : Clock) : ℤ := (clock.now - dayMicros).tdiv 1000000

/-- The window is a day, but for a second on the second of January 1970. -/
theorem window_spec (clock : Clock) :
    clock.nowTs - 86400 ≤ clock.window24hStartTs ∧ clock.window24hStartTs ≤ clock.nowTs - 86399 ∧
      monthStart 12 ≤ 1000000 * clock.window24hStartTs ∧
        1000000 * clock.nowTs < monthStart 120000 := by
  have hmin := clock.min
  have hmax := clock.max
  have hnow := tdiv_cases clock.now
  have hstart := tdiv_cases (clock.now - dayMicros)
  have hepoch : monthStart 12 < 0 ∧ 0 < monthStart 120000 := by decide +kernel
  rw [nowTs, window24hStartTs]
  rw [dayMicros] at *
  omega

end Clock

/-- The settings of the gates. -/
structure GateConfig where
  warmupMinutes : ℤ
  maxGapS : ℤ
  maxMissingPer24h : ℤ
  staleSeconds : ℤ

/-- What is computed of a symbol. -/
structure GateValues where
  lastCandleTs : ℤ
  staleSeconds : ℤ
  missingMinutes24h : ℤ
  maxGapS : ℤ
  marketOpen : Bool
  marketStateReason : Reason
  expectedOpenMinutes24h : ℤ
  observedOpenMinutes24h : ℤ
  deriving DecidableEq

/-! ### The values -/

/-- The missing minutes and the closed ones; none of either if the store or the count raises. -/
def missingAndClosed (missingCount : Option ℕ) (counted : Option ℤ) : ℤ × ℤ :=
  match missingCount, counted with
  | some missing24hRaw, some closedMins => (max 0 (missing24hRaw - closedMins), closedMins)
  | _, _ => (0, 0)

/-- The seconds since a symbol is up. -/
def uptimeS (start : Option ℤ) (nowTs : ℤ) : ℤ :=
  match start with
  | none => 0
  | some start => max 0 (nowTs - start)

/-- The values of a symbol, of what the store answers for the last day. -/
def gateValues (cfg : GateConfig) (cal : MarketCalendar) (symbol : String) (clock : Clock)
    (lastTs staleS : ℤ) (start : Option ℤ) (missingCount : Option ℕ) : GateValues :=
  let state := cal.state symbol clock.nowTs
  let counts := missingAndClosed missingCount
    (cal.closedCounter symbol clock.window24hStartTs clock.nowTs)
  let missing24h := counts.1
  let closedMins := counts.2
  let uptimeMinutes := min 1440 (uptimeS start clock.nowTs / 60)
  let expectedOpenMinutes24h := max 0 (uptimeMinutes - closedMins)
  let observedOpenMinutes24h := max 0 (expectedOpenMinutes24h - missing24h)
  { lastCandleTs := lastTs
    staleSeconds := staleS
    missingMinutes24h := missing24h
    maxGapS := if 0 < missing24h then min cfg.maxGapS (60 * max 0 missing24h) else 0
    marketOpen := state.1
    marketStateReason := state.2
    expectedOpenMinutes24h := expectedOpenMinutes24h
    observedOpenMinutes24h := observedOpenMinutes24h }

/-- Whether too few minutes were observed to judge a symbol. -/
def inWarmup (cfg : GateConfig) (v : GateValues) : Bool :=
  v.observedOpenMinutes24h < cfg.warmupMinutes

end GateMetrics

namespace DataLayerProdService

open GateMetrics

/-- When the service is up since. -/
def uptimeStart (serviceStartTs : ℤ) : Option ℤ :=
  if serviceStartTs = 0 then none else some serviceStartTs

/-- The values of a symbol, since the service is up. -/
def gateValues (cfg : GateConfig) (cal : MarketCalendar) (serviceStartTs : ℤ) (clock : Clock)
    (symbol : String) (lastTs : ℤ) (missingCount : Option ℕ) : GateValues :=
  let state := cal.state symbol clock.nowTs
  let staleS :=
    if state.1 ∧ state.2 = .open_ then
      max 0 (if 0 < lastTs then clock.nowTs - lastTs - 60 else 0)
    else 0
  GateMetrics.gateValues cfg cal symbol clock lastTs staleS (uptimeStart serviceStartTs) missingCount

end DataLayerProdService

namespace OstiumGates

open GateMetrics

/-- Whether a late candle counts. -/
def staleApplies (cal : MarketCalendar) (symbol : String) (nowTs : ℤ) : Bool :=
  match cal with
  | .fx245 => Fx245.staleDegradationApplies symbol nowTs
  | .custom marketHoursFn =>
      (marketHoursFn symbol nowTs).1 && (marketHoursFn symbol nowTs).2 = .open_

/-- The values of a symbol, since its first tick. -/
def gateValues (cfg : GateConfig) (cal : MarketCalendar) (firstSeen : Option ℤ) (clock : Clock)
    (symbol : String) (lastTs : ℤ) (missingCount : Option ℕ) : GateValues :=
  let staleS :=
    if staleApplies cal symbol clock.nowTs then max 0 (clock.nowTs - lastTs - 60) else 0
  GateMetrics.gateValues cfg cal symbol clock lastTs staleS firstSeen missingCount

end OstiumGates

namespace GateMetrics

/-! ### The open minutes of the uptime -/

/-- The start of the uptime in the last day. -/
def windowStart (clock : Clock) (start : Option ℤ) : ℤ :=
  match start with
  | none => clock.nowTs
  | some start => max clock.window24hStartTs start

/-- The minutes of the uptime in the last day in which the market was open. -/
noncomputable def openMinutes (cal : MarketCalendar) (symbol : String) (clock : Clock)
    (start : Option ℤ) : ℕ :=
  GridWindow.count (cal.isOpen symbol) 60 (windowStart clock start) clock.nowTs

/-- The open minutes of the uptime are expected, up to one at each end; those observed are not more; and
once they are enough, and none is missing, the warm-up is over. -/
structure CountsUptime (cfg : GateConfig) (cal : MarketCalendar) (symbol : String) (clock : Clock)
    (start : Option ℤ) (v : GateValues) : Prop where
  expected : openMinutes cal symbol clock start ≤ v.expectedOpenMinutes24h + 2 ∧
    v.expectedOpenMinutes24h ≤ openMinutes cal symbol clock start + 2
  observed : 0 ≤ v.observedOpenMinutes24h ∧ v.observedOpenMinutes24h ≤ v.expectedOpenMinutes24h
  warm : cfg.warmupMinutes + 2 ≤ openMinutes cal symbol clock start → v.missingMinutes24h = 0 →
    inWarmup cfg v = false

/-- The minutes that are taken off wrongly: where the store answers, the closed ones of the last day
before the uptime; where it raises, it is those of the uptime that are not taken off.  The rounding of
the uptime may lack a minute. -/
def CountsOnly (cal : MarketCalendar) (symbol : String) (clock : Clock) (start : Option ℤ)
    (missingCount : Option ℕ) : Prop :=
  let first := windowStart clock start
  let closed := fun m => !cal.isOpen symbol m
  let uptimeMinutes := min 1440 (uptimeS start clock.nowTs / 60)
  let minutes := (GridWindow.points 60 first clock.nowTs).card
  match missingCount with
  | some _ => openMinutes cal symbol clock start ≤ 2 ∨
      GridWindow.count closed 60 (clock.window24hStartTs / 60 * 60) first + minutes ≤
        uptimeMinutes + 2
  | none => GridWindow.count closed 60 first clock.nowTs + uptimeMinutes ≤ minutes + 2

/-- The minutes of the uptime are those since its start, up to one. -/
theorem card_points_window (clock : Clock) (start : Option ℤ) :
    min 1440 (uptimeS start clock.nowTs / 60) - 1 ≤
        (GridWindow.points 60 (windowStart clock start) clock.nowTs).card ∧
      ((GridWindow.points 60 (windowStart clock start) clock.nowTs).card : ℤ) ≤
        min 1440 (uptimeS start clock.nowTs / 60) + 1 := by
  obtain ⟨hlow, hhigh, -, -⟩ := clock.window_spec
  rw [GridWindow.card_points (by decide), GridWindow.index, GridWindow.index]
  cases start with
  | none =>
      simp only [uptimeS, windowStart]
      omega
  | some start =>
      simp only [uptimeS, windowStart]
      omega

/-- The closed minutes that are counted are those of the uptime and those before it. -/
theorem closed_split (cal : MarketCalendar) (symbol : String) (clock : Clock) {start : Option ℤ}
    (h : windowStart clock start ≤ clock.nowTs) :
    cal.closedCounter symbol clock.window24hStartTs clock.nowTs =
      some (GridWindow.count (fun m => !cal.isOpen symbol m) 60
          (clock.window24hStartTs / 60 * 60) (windowStart clock start) +
        GridWindow.count (fun m => !cal.isOpen symbol m) 60 (windowStart clock start) clock.nowTs :
          ℤ) := by
  obtain ⟨hlow, hhigh, hmin, hmax⟩ := clock.window_spec
  have hfirst : clock.window24hStartTs / 60 * 60 ≤ windowStart clock start := by
    cases start with
    | none =>
        rw [windowStart]
        omega
    | some start =>
        rw [windowStart]
        omega
  rw [cal.closedCounter_eq symbol (by omega) hmin hmax,
    ← GridWindow.count_add_count (by decide) _ hfirst h]
  push_cast
  rfl

theorem missingAndClosed_nonneg (missingCount : Option ℕ) (counted : Option ℤ) :
    0 ≤ (missingAndClosed missingCount counted).1 := by
  cases missingCount with
  | none => exact le_rfl
  | some missing24hRaw =>
      cases counted with
      | none => exact le_rfl
      | some closedMins => exact le_max_left _ _

theorem uptimeS_nonneg (start : Option ℤ) (nowTs : ℤ) : 0 ≤ uptimeS start nowTs := by
  cases start with
  | none => exact le_rfl
  | some start => exact le_max_left _ _

/-- The open minutes are counted if as many as there are are expected. -/
theorem countsUptime_iff_expected (cfg : GateConfig) (cal : MarketCalendar) (symbol : String)
    (clock : Clock) (lastTs staleS : ℤ) (start : Option ℤ) (missingCount : Option ℕ) {v : GateValues}
    (hv : gateValues cfg cal symbol clock lastTs staleS start missingCount = v) :
    CountsUptime cfg cal symbol clock start v ↔
      openMinutes cal symbol clock start ≤ v.expectedOpenMinutes24h + 2 ∧
        v.expectedOpenMinutes24h ≤ openMinutes cal symbol clock start + 2 := by
  have hmissing : 0 ≤ v.missingMinutes24h := by
    rw [← hv]
    exact missingAndClosed_nonneg _ _
  have hexpected : 0 ≤ v.expectedOpenMinutes24h := by
    rw [← hv]
    exact le_max_left _ _
  have hobserved : v.observedOpenMinutes24h =
      max 0 (v.expectedOpenMinutes24h - v.missingMinutes24h) := by
    rw [← hv]
    rfl
  refine ⟨fun h => h.expected, fun h => ⟨h, by omega, fun hwarm hnone => ?_⟩⟩
  rw [inWarmup, decide_eq_false_iff_not]
  omega

/-- The values count the open minutes of the uptime exactly if hardly any other closed minutes are taken
off. -/
theorem countsUptime_gateValues_iff (cfg : GateConfig) (cal : MarketCalendar) (symbol : String)
    (clock : Clock) (lastTs staleS : ℤ) (start : Option ℤ) (missingCount : Option ℕ) :
    CountsUptime cfg cal symbol clock start
        (gateValues cfg cal symbol clock lastTs staleS start missingCount) ↔
      CountsOnly cal symbol clock start missingCount := by
  have hminutes := card_points_window clock start
  have hopen : openMinutes cal symbol clock start +
      GridWindow.count (fun m => !cal.isOpen symbol m) 60 (windowStart clock start) clock.nowTs =
        (GridWindow.points 60 (windowStart clock start) clock.nowTs).card :=
    GridWindow.count_add_count_not _ _ _ _
  have hexpected : (gateValues cfg cal symbol clock lastTs staleS start
      missingCount).expectedOpenMinutes24h = max 0 (min 1440 (uptimeS start clock.nowTs / 60) -
        (missingAndClosed missingCount
          (cal.closedCounter symbol clock.window24hStartTs clock.nowTs)).2) := rfl
  have huptime := uptimeS_nonneg start clock.nowTs
  rw [countsUptime_iff_expected cfg cal symbol clock lastTs staleS start missingCount rfl, hexpected]
  cases missingCount with
  | none =>
      simp only [missingAndClosed, CountsOnly]
      omega
  | some missing24hRaw =>
      by_cases hwindow : windowStart clock start ≤ clock.nowTs
      · rw [closed_split cal symbol clock hwindow]
        simp only [missingAndClosed, CountsOnly]
        omega
      · -- an uptime that is still to come
        have hnone : openMinutes cal symbol clock start = 0 :=
          GridWindow.count_of_le (by decide) _ (by omega)
        obtain ⟨hlow, hhigh, hmin, hmax⟩ := clock.window_spec
        have hzero : uptimeS start clock.nowTs = 0 := by
          cases start with
          | none => rfl
          | some start =>
              rw [windowStart] at hwindow
              rw [uptimeS]
              omega
        refine iff_of_true ?_ (.inl (by omega))
        rw [cal.closedCounter_eq symbol (by omega) hmin hmax, hzero, hnone]
        simp only [missingAndClosed]
        omega

/-- In both services the open minutes of the uptime are counted exactly if hardly any other closed
minutes are taken off. -/
theorem countsUptime_iff (cfg : GateConfig) (cal : MarketCalendar) (symbol : String) (clock : Clock)
    (lastTs : ℤ) (missingCount : Option ℕ) :
    (∀ serviceStartTs, CountsUptime cfg cal symbol clock
        (DataLayerProdService.uptimeStart serviceStartTs)
        (DataLayerProdService.gateValues cfg cal serviceStartTs clock symbol lastTs missingCount) ↔
      CountsOnly cal symbol clock (DataLayerProdService.uptimeStart serviceStartTs) missingCount) ∧
    ∀ firstSeen, CountsUptime cfg cal symbol clock firstSeen
        (OstiumGates.gateValues cfg cal firstSeen clock symbol lastTs missingCount) ↔
      CountsOnly cal symbol clock firstSeen missingCount :=
  ⟨fun _ => countsUptime_gateValues_iff cfg cal symbol clock lastTs _ _ missingCount,
    fun _ => countsUptime_gateValues_iff cfg cal symbol clock lastTs _ _ missingCount⟩

/-! ### A Monday morning -/

/-- One in the morning of Monday, 2 February 2026: the market was closed for the most of the day
before. -/
def monday : Clock := ⟨1769994000000000, by decide +kernel, by decide +kernel⟩

/-- The settings that are the default. -/
def defaultConfig : GateConfig := ⟨120, 180, 1, 180⟩

/-- From one in the morning of Sunday to its opening. -/
theorem monday_closed :
    Fx245.countClosedMinutesBetween "EURUSD" monday.window24hStartTs monday.nowTs = some 1260 := by
  have hcount := GridWindow.countP_range (show (0 : ℤ) < 60 by decide)
    (fun m => !Fx245.isMarketOpen "EURUSD" m) (show (60 : ℤ) ∣ 1769907600 by decide) 1440
  have hdecide : ((List.range 1440).map fun i : ℕ => (1769907600 : ℤ) + 60 * (i : ℤ)).countP
      (fun m => !Fx245.isMarketOpen "EURUSD" m) = 1260 := by
    decide +kernel
  rw [Fx245.countClosedMinutesBetween_eq "EURUSD" (by decide) (by decide +kernel) (by decide +kernel)]
  exact congrArg (fun n : ℕ => some (n : ℤ)) (hcount.symm.trans hdecide)

/-- Three hours after the opening on Sunday evening, of which the symbol was up from the first minute on
and none is missing, no open minute is expected, and the warm-up goes on. -/
theorem monday_warmup :
    openMinutes .fx245 "EURUSD" monday (some 1769983200) = 180 ∧
      ∀ v ∈ [OstiumGates.gateValues defaultConfig .fx245 (some 1769983200) monday "EURUSD" 1769993940
          (some 1260),
        DataLayerProdService.gateValues defaultConfig .fx245 1769983200 monday "EURUSD" 1769993940
          (some 1260)],
        v.expectedOpenMinutes24h = 0 ∧ inWarmup defaultConfig v = true ∧
          ¬ CountsUptime defaultConfig .fx245 "EURUSD" monday (some 1769983200) v := by
  have hopen : openMinutes .fx245 "EURUSD" monday (some 1769983200) = 180 := by
    have hcount := GridWindow.countP_range (show (0 : ℤ) < 60 by decide) (Fx245.isMarketOpen "EURUSD")
      (show (60 : ℤ) ∣ 1769983200 by decide) 180
    have hdecide : ((List.range 180).map fun i : ℕ => (1769983200 : ℤ) + 60 * (i : ℤ)).countP
        (Fx245.isMarketOpen "EURUSD") = 180 := by
      decide +kernel
    exact hcount.symm.trans hdecide
  refine ⟨hopen, fun v hv => ?_⟩
  have hvalues : v.expectedOpenMinutes24h = 0 ∧ v.observedOpenMinutes24h = 0 := by
    simp only [List.mem_cons, List.not_mem_nil, or_false] at hv
    rcases hv with rfl | rfl
    · simp only [OstiumGates.gateValues, gateValues, MarketCalendar.closedCounter, monday_closed]
      decide
    · simp only [DataLayerProdService.gateValues, gateValues, MarketCalendar.closedCounter,
        monday_closed]
      decide
  refine ⟨hvalues.1, ?_, fun h => ?_⟩
  · rw [inWarmup, hvalues.2]
    decide
  · have := h.expected.1
    rw [hopen, hvalues.1] at this
    omega

end GateMetrics
