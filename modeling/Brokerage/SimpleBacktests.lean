/-
**The two simple backtests.**

One backtest goes through candles with the signals of a trend, the other through the columns of a
frame with the signals of a strategy, as numbers.  Both are written for themselves: each has its own
signals, its own record of the position, which it clears in its own way, and its own count of the
losses.

The numbers are those of any linear order with operations on it; no law is asked of the operations,
so that it does not matter how they round.

Main definitions:

* `SimpleBacktest.runStrategy`, `SimpleBacktest.computeKpis` — the backtest over candles;
* `ParquetBacktest.simulateTrades`, `ParquetBacktest.computeKpis` — the backtest over a frame;
* `SimpleBacktest.SameState` — states of the two that agree in what is read again.

Main results:

* `SimpleBacktest.step_rel` — one step of the two;
* `SimpleBacktest.loops_rel` — the two loops;
* `SimpleBacktest.exists_runStrategy` — nothing is raised where no close is zero;
* `SimpleBacktest.simulators_agree` — the same trades and the same figures.
-/

import Brokerage.OptionLoops
import Brokerage.QualityGate

set_option relaxedAutoImplicit false
set_option autoImplicit false

/-- `round(x, n)`. -/
class Rounding (F : Type) where
  round : F → ℕ → F

instance : Rounding ℚ where
  round x n := QualityGate.roundHalfEven (10 ^ n * x) / 10 ^ n

namespace SimpleBacktest

/-- A candle, with what is read of it: its second and its close. -/
structure Candle (F : Type) where
  ts : ℤ
  close : F

/-- A signal, and the side of a position. -/
inductive Signal where
  | long
  | short
  | flat
deriving DecidableEq, Repr

/-- A simulated trade. -/
structure Trade (F : Type) where
  entryTs : ℤ
  exitTs : ℤ
  side : Signal
  entryPrice : F
  exitPrice : F
  pnlPct : F
deriving DecidableEq, Repr

/-- The variables of the loop. -/
structure Loop (F : Type) where
  inTrade : Bool
  entryIdx : Option ℕ
  entryPrice : Option F
  entrySide : Option Signal
  trades : List (Trade F)
deriving DecidableEq, Repr

/-- Before the loop. -/
def Loop.start {F : Type} : Loop F := ⟨false, none, none, none, []⟩

/-- What `_compute_kpis` returns. -/
structure Kpis (F : Type) where
  tradesCount : ℕ
  wins : ℕ
  losses : ℕ
  winRatePct : F
  pnlTotalPct : F
  roiPct : F
  maxDrawdownPct : F
deriving DecidableEq, Repr

variable {F : Type} [LinearOrder F] [Zero F] [NatCast F] [Sub F] [Mul F] [Div F] [Rounding F]

/-! ### The backtest over candles -/

/-- `_simple_trend_signals`. -/
def simpleTrendSignals (closes : List F) (lookback : ℕ) : List Signal :=
  List.ofFn fun i : Fin closes.length =>
    if i.val < lookback then .flat
    else if closes[i.val - lookback] < closes[i] then .long
    else if closes[i] < closes[i.val - lookback] then .short
    else .flat

/-- The result of a position in percent; an exception if it was opened at zero. -/
def pnlPct (side : Signal) (entryPrice exitPrice : F) : Option F :=
  if entryPrice = 0 then none
  else if side = .long then some ((exitPrice - entryPrice) / entryPrice * (100 : ℕ))
  else some ((entryPrice - exitPrice) / entryPrice * (100 : ℕ))

/-- The body of the loop of `_run_strategy`; nothing is returned where an exception is raised. -/
def strategyStep (candles : List (Candle F)) (holdMinutes : ℤ) (s : Loop F) (i : ℕ)
    (candle : Candle F) (signal : Signal) : Option (Loop F) :=
  if s.inTrade = false then
    if signal = .long ∨ signal = .short then
      some { s with
        inTrade := true
        entryIdx := some i
        entryPrice := some candle.close
        entrySide := some signal }
    else some s
  else do
    let entryIdx ← s.entryIdx
    let side ← s.entrySide
    let holdExpired := holdMinutes ≤ (i : ℤ) - entryIdx
    let signalReversed := (side = .long ∧ signal = .short) ∨ (side = .short ∧ signal = .long)
    if holdExpired ∨ signalReversed ∨ signal = .flat then
      let entryPrice ← s.entryPrice
      let pnl ← pnlPct side entryPrice candle.close
      let entry ← candles[entryIdx]?
      some { s with
        inTrade := false
        entryIdx := none
        trades := s.trades ++
          [⟨entry.ts, candle.ts, side, entryPrice, candle.close, Rounding.round pnl 6⟩] }
    else some s

/-- `_run_strategy`. -/
def runStrategy (candles : List (Candle F)) (lookback : ℕ) (holdMinutes : ℤ) :
    Option (List (Trade F)) :=
  if candles.length < lookback + 2 then some []
  else
    let signals := simpleTrendSignals (candles.map Candle.close) lookback
    ((candles.zip signals).zipIdx.foldlM
      (fun s x => strategyStep candles holdMinutes s x.2 x.1.1 x.1.2) Loop.start).map Loop.trades

variable [Add F]

/-- The sum so far, its peak, and the deepest fall from the peak. -/
structure Drawdown (F : Type) where
  cumulative : F
  peak : F
  maxDd : F

/-- The body of the loop for the drawdown. -/
def Drawdown.step (d : Drawdown F) (t : Trade F) : Drawdown F :=
  let cumulative := d.cumulative + t.pnlPct
  let peak := if d.peak < cumulative then cumulative else d.peak
  let dd := peak - cumulative
  { cumulative := cumulative, peak := peak, maxDd := if d.maxDd < dd then dd else d.maxDd }

/-- The loop for the drawdown. -/
def maxDrawdown (trades : List (Trade F)) : F :=
  (trades.foldl Drawdown.step ⟨0, 0, 0⟩).maxDd

/-- `_compute_kpis`. -/
def computeKpis (trades : List (Trade F)) : Kpis F :=
  if trades = [] then ⟨0, 0, 0, 0, 0, 0, 0⟩
  else
    let wins := trades.countP fun t => 0 < t.pnlPct
    let losses := trades.countP fun t => t.pnlPct ≤ 0
    let pnlTotal := (trades.map Trade.pnlPct).foldl (· + ·) 0
    let winRate := if trades = [] then 0 else (wins : F) / (trades.length : F) * (100 : ℕ)
    { tradesCount := trades.length
      wins := wins
      losses := losses
      winRatePct := Rounding.round winRate 2
      pnlTotalPct := Rounding.round pnlTotal 4
      roiPct := Rounding.round pnlTotal 4
      maxDrawdownPct := Rounding.round (maxDrawdown trades) 4 }

end SimpleBacktest

/-! ### The backtest over a frame -/

namespace ParquetBacktest

open SimpleBacktest (Candle Signal Trade Loop Kpis pnlPct maxDrawdown)

/-- A frame, with what is read of it: its index, in microseconds, and its column of closes. -/
structure DataFrame (F : Type) where
  index : List ℤ
  close : List F

/-- `_candles_to_dataframe`. -/
def candlesToDataframe {F : Type} (candles : List (Candle F)) : DataFrame F where
  index := candles.map fun c => c.ts * 1000000
  close := candles.map Candle.close

variable {F : Type} [LinearOrder F] [Zero F] [NatCast F] [Sub F] [Mul F] [Div F] [Rounding F]

/-- The body of the loop of `_simulate_trades`; nothing is returned where an exception is raised. -/
def simulateStep (closes : List F) (timestamps : List ℤ) (holdMinutes : ℤ) (s : Loop F) (i : ℕ)
    (sig : ℤ) : Option (Loop F) :=
  if s.inTrade = false then
    if sig = 1 then do
      let close ← closes[i]?
      some { s with
        inTrade := true
        entryIdx := some i
        entryPrice := some close
        entrySide := some .long }
    else if sig = -1 then do
      let close ← closes[i]?
      some { s with
        inTrade := true
        entryIdx := some i
        entryPrice := some close
        entrySide := some .short }
    else some s
  else do
    let entryIdx ← s.entryIdx
    let side ← s.entrySide
    let holdExpired := holdMinutes ≤ (i : ℤ) - entryIdx
    let signalReversed := (side = .long ∧ sig = -1) ∨ (side = .short ∧ sig = 1)
    if holdExpired ∨ signalReversed ∨ sig = 0 then
      let exitPrice ← closes[i]?
      let entryPrice ← s.entryPrice
      let pnl ← pnlPct side entryPrice exitPrice
      let entryTs ← timestamps[entryIdx]?
      let exitTs ← timestamps[i]?
      some { s with
        inTrade := false
        trades := s.trades ++
          [⟨entryTs, exitTs, side, entryPrice, exitPrice, Rounding.round pnl 6⟩] }
    else some s

/-- `_simulate_trades`. -/
def simulateTrades (df : DataFrame F) (signals : List ℤ) (holdMinutes : ℤ) :
    Option (List (Trade F)) :=
  let timestamps := df.index.map fun idx => idx.tdiv 1000000
  (signals.zipIdx.foldlM (fun s x => simulateStep df.close timestamps holdMinutes s x.2 x.1)
    Loop.start).map Loop.trades

variable [Add F]

/-- `_compute_kpis`, over the trades of a frame. -/
def computeKpis (trades : List (Trade F)) : Kpis F :=
  if trades = [] then ⟨0, 0, 0, 0, 0, 0, 0⟩
  else
    let wins := trades.countP fun t => 0 < t.pnlPct
    let losses := trades.length - wins
    let pnlTotal := (trades.map Trade.pnlPct).foldl (· + ·) 0
    let winRate := (wins : F) / (trades.length : F) * (100 : ℕ)
    { tradesCount := trades.length
      wins := wins
      losses := losses
      winRatePct := Rounding.round winRate 2
      pnlTotalPct := Rounding.round pnlTotal 4
      roiPct := Rounding.round pnlTotal 4
      maxDrawdownPct := Rounding.round (maxDrawdown trades) 4 }

end ParquetBacktest

namespace SimpleBacktest

open ParquetBacktest (DataFrame candlesToDataframe simulateStep simulateTrades)

/-- The number of a signal. -/
def Signal.toInt : Signal → ℤ
  | .long => 1
  | .short => -1
  | .flat => 0

@[simp]
theorem Signal.toInt_eq_one {s : Signal} : s.toInt = 1 ↔ s = .long := by
  cases s <;> decide

@[simp]
theorem Signal.toInt_eq_neg_one {s : Signal} : s.toInt = -1 ↔ s = .short := by
  cases s <;> decide

@[simp]
theorem Signal.toInt_eq_zero {s : Signal} : s.toInt = 0 ↔ s = .flat := by
  cases s <;> decide

/-! ### The two loops -/

/-- The states agree in all that is read again: where there is no position, its index may differ. -/
structure SameState {F : Type} (s t : Loop F) : Prop where
  inTrade : t.inTrade = s.inTrade
  entryIdx : s.inTrade = true → t.entryIdx = s.entryIdx
  entryPrice : t.entryPrice = s.entryPrice
  entrySide : t.entrySide = s.entrySide
  trades : t.trades = s.trades

/-- The seconds of the index are those of the candles. -/
theorem map_index {F : Type} (candles : List (Candle F)) :
    (candlesToDataframe candles).index.map (fun idx => idx.tdiv 1000000) = candles.map Candle.ts := by
  rw [candlesToDataframe, List.map_map]
  refine List.map_congr_left fun c _ => ?_
  exact Int.mul_tdiv_cancel c.ts (by decide)

theorem length_simpleTrendSignals {F : Type} [LinearOrder F] (closes : List F) (lookback : ℕ) :
    (simpleTrendSignals closes lookback).length = closes.length := by
  rw [simpleTrendSignals, List.length_ofFn]

/-- The two loops go through the same candles and signals. -/
theorem forall₂_enumerate {F : Type} (candles : List (Candle F)) {signals : List Signal}
    (h : signals.length = candles.length) :
    List.Forall₂ (fun x y => candles[x.2]? = some x.1.1 ∧ y = (x.1.2.toInt, x.2))
      (candles.zip signals).zipIdx (signals.map Signal.toInt).zipIdx := by
  rw [List.forall₂_iff_get]
  refine ⟨by simp [h], fun i hi hi' => ?_⟩
  have hlt : i < candles.length := by
    rw [List.length_zipIdx, List.length_map] at hi'
    omega
  simp [hlt]

variable {F : Type} [LinearOrder F] [Zero F] [NatCast F] [Sub F] [Mul F] [Div F] [Rounding F]
  {candles : List (Candle F)} {holdMinutes : ℤ}

/-- One step: on the same candle and signal, states that agree both raise, or they agree again. -/
theorem step_rel {s t : Loop F} (h : SameState s t) {i : ℕ} {candle : Candle F} {signal : Signal}
    (hi : candles[i]? = some candle) :
    Option.Rel SameState (strategyStep candles holdMinutes s i candle signal)
      (simulateStep (candles.map Candle.close) (candles.map Candle.ts) holdMinutes t i signal.toInt) := by
  have hclose : (candles.map Candle.close)[i]? = some candle.close := by
    rw [List.getElem?_map, hi]
    rfl
  have hts : (candles.map Candle.ts)[i]? = some candle.ts := by
    rw [List.getElem?_map, hi]
    rfl
  cases hin : s.inTrade with
  | false =>
      rw [strategyStep, simulateStep, h.inTrade, hin, if_pos rfl, if_pos rfl, hclose]
      cases signal with
      | long => exact Option.Rel.some ⟨rfl, fun _ => rfl, rfl, rfl, h.trades⟩
      | short => exact Option.Rel.some ⟨rfl, fun _ => rfl, rfl, rfl, h.trades⟩
      | flat => exact Option.Rel.some h
  | true =>
      rw [strategyStep, simulateStep, h.inTrade, hin, if_neg nofun, if_neg nofun, h.entryIdx hin,
        h.entrySide, h.entryPrice, h.trades, hclose, hts]
      simp only [Signal.toInt_eq_one, Signal.toInt_eq_neg_one, Signal.toInt_eq_zero, List.getElem?_map]
      cases s.entryIdx with
      | none => exact Option.Rel.none
      | some entryIdx =>
      cases s.entrySide with
      | none => exact Option.Rel.none
      | some side =>
      simp only [Option.bind_eq_bind, Option.bind_some]
      split
      · cases s.entryPrice with
        | none => exact Option.Rel.none
        | some entryPrice =>
        simp only [Option.bind_some]
        cases pnlPct side entryPrice candle.close with
        | none => exact Option.Rel.none
        | some pnl =>
        cases candles[entryIdx]? with
        | none => exact Option.Rel.none
        | some entry => exact Option.Rel.some ⟨rfl, nofun, rfl, rfl, rfl⟩
      · exact Option.Rel.some h

theorem getElem?_of_mem_enumerate {F : Type} {candles : List (Candle F)} {signals : List Signal}
    {x : (Candle F × Signal) × ℕ} (h : x ∈ (candles.zip signals).zipIdx) :
    candles[x.2]? = some x.1.1 := by
  have hget : (candles.zip signals)[x.2]? = some x.1 := List.mk_mem_zipIdx_iff_getElem?.1 h
  rw [List.getElem?_zip_eq_some] at hget
  exact hget.1

/-- The trades of results that agree. -/
theorem map_trades_eq {F : Type} {x y : Option (Loop F)} (h : Option.Rel SameState x y) :
    y.map Loop.trades = x.map Loop.trades := by
  cases h with
  | none => rfl
  | some h => exact congrArg some h.trades

/-- The two loops, on any signals. -/
theorem loops_rel (candles : List (Candle F)) {signals : List Signal}
    (h : signals.length = candles.length) :
    Option.Rel SameState
      ((candles.zip signals).zipIdx.foldlM
        (fun s x => strategyStep candles holdMinutes s x.2 x.1.1 x.1.2) Loop.start)
      ((signals.map Signal.toInt).zipIdx.foldlM
        (fun s x => simulateStep (candles.map Candle.close) (candles.map Candle.ts) holdMinutes s
          x.2 x.1) Loop.start) := by
  refine List.foldlM_rel (fun s t x y hst hxy => ?_) (forall₂_enumerate candles h)
    ⟨rfl, fun _ => rfl, rfl, rfl, rfl⟩
  obtain ⟨hx, rfl⟩ := hxy
  exact step_rel hst hx

/-- The trades of a run on at least as many candles as are needed are those of the frame. -/
theorem simulateTrades_eq (lookback : ℕ) (hlen : lookback + 2 ≤ candles.length) :
    simulateTrades (candlesToDataframe candles)
        ((simpleTrendSignals (candles.map Candle.close) lookback).map Signal.toInt) holdMinutes =
      runStrategy candles lookback holdMinutes := by
  have hsignals : (simpleTrendSignals (candles.map Candle.close) lookback).length = candles.length := by
    rw [length_simpleTrendSignals, List.length_map]
  rw [simulateTrades, runStrategy, if_neg (by omega), map_index]
  exact map_trades_eq (loops_rel candles hsignals)

/-! ### What does not raise -/

/-- The position of a state was opened at a candle of the run, not at zero. -/
def Loop.Sound (candles : List (Candle F)) (s : Loop F) : Prop :=
  s.inTrade = true → ∃ i entry, s.entryIdx = some i ∧ candles[i]? = some entry ∧
    s.entryPrice = some entry.close ∧ entry.close ≠ 0 ∧ ∃ side, s.entrySide = some side

omit [Rounding F] in
theorem exists_pnlPct (side : Signal) {entryPrice : F} (h : entryPrice ≠ 0) (exitPrice : F) :
    ∃ pnl, pnlPct side entryPrice exitPrice = some pnl := by
  rw [pnlPct, if_neg h]
  split
  · exact ⟨_, rfl⟩
  · exact ⟨_, rfl⟩

/-- A step does not raise where no close is zero. -/
theorem step_isSome (hclose : ∀ c ∈ candles, c.close ≠ 0) {s : Loop F} (hs : s.Sound candles) {i : ℕ}
    {candle : Candle F} (signal : Signal) (hi : candles[i]? = some candle) :
    ∃ t, strategyStep candles holdMinutes s i candle signal = some t ∧ t.Sound candles := by
  cases hin : s.inTrade with
  | false =>
      rw [strategyStep, hin, if_pos rfl]
      split
      · exact ⟨_, rfl, fun _ => ⟨i, candle, rfl, hi, rfl, hclose _ (List.mem_of_getElem? hi), _, rfl⟩⟩
      · exact ⟨s, rfl, hs⟩
  | true =>
      obtain ⟨j, entry, hj, hentry, hprice, hne, side, hside⟩ := hs hin
      obtain ⟨pnl, hpnl⟩ := exists_pnlPct side hne candle.close
      rw [strategyStep, hin, if_neg nofun, hj, hside, hprice]
      simp only [Option.bind_eq_bind, Option.bind_some, hpnl, hentry]
      split
      · exact ⟨_, rfl, nofun⟩
      · exact ⟨s, rfl, hs⟩

/-- The run returns trades where no close is zero. -/
theorem exists_runStrategy (lookback : ℕ) (hclose : ∀ c ∈ candles, c.close ≠ 0) :
    ∃ trades, runStrategy candles lookback holdMinutes = some trades := by
  rw [runStrategy]
  split
  · exact ⟨[], rfl⟩
  · have hsteps : ∀ s, ∀ x ∈ (candles.zip
          (simpleTrendSignals (candles.map Candle.close) lookback)).zipIdx, Loop.Sound candles s →
        ∃ t, strategyStep candles holdMinutes s x.2 x.1.1 x.1.2 = some t ∧ t.Sound candles := by
      intro s x hx hs
      exact step_isSome hclose hs _ (getElem?_of_mem_enumerate hx)
    obtain ⟨t, ht, -⟩ := List.foldlM_eq_some_of_invariant hsteps
      (nofun : Loop.start.Sound candles)
    exact ⟨t.trades, congrArg (Option.map Loop.trades) ht⟩

/-! ### The figures -/

/-- Every trade is won or lost. -/
theorem length_sub_wins {F : Type} [LinearOrder F] [Zero F] (trades : List (Trade F)) :
    trades.length - trades.countP (fun t => 0 < t.pnlPct) = trades.countP fun t => t.pnlPct ≤ 0 := by
  have hadd := List.length_eq_countP_add_countP (fun t : Trade F => decide (0 < t.pnlPct)) (l := trades)
  have hnot : trades.countP (fun t => ¬ decide (0 < t.pnlPct) = true) =
      trades.countP fun t => t.pnlPct ≤ 0 := by
    simp only [decide_eq_true_eq, not_lt]
  omega

variable [Add F]

theorem computeKpis_eq (trades : List (Trade F)) : ParquetBacktest.computeKpis trades = computeKpis trades := by
  rw [ParquetBacktest.computeKpis, computeKpis]
  split
  · rfl
  · simp only [length_sub_wins]


/-- The two backtests agree on every list of candles that is long enough: they raise on the same
ones, on none without a zero close, and otherwise return the same trades with the same figures. -/
theorem simulators_agree (lookback : ℕ) (holdMinutes : ℤ) (hlen : lookback + 2 ≤ candles.length) :
    simulateTrades (candlesToDataframe candles)
        ((simpleTrendSignals (candles.map Candle.close) lookback).map Signal.toInt) holdMinutes =
      runStrategy candles lookback holdMinutes ∧
    (∀ trades : List (Trade F), ParquetBacktest.computeKpis trades = computeKpis trades) ∧
    ((∀ c ∈ candles, c.close ≠ 0) →
      ∃ trades, runStrategy candles lookback holdMinutes = some trades) :=
  ⟨simulateTrades_eq lookback hlen, computeKpis_eq, exists_runStrategy lookback⟩

/-- Prices that rise and fall back. -/
def fallingBack : List (Candle ℚ) := [⟨0, 100⟩, ⟨60, 110⟩, ⟨120, 120⟩, ⟨180, 90⟩]

/-- The position is opened at the first rise and closed at the fall by both. -/
theorem simulators_agree_fallingBack :
    let trades : List (Trade ℚ) := [⟨60, 180, .long, 110, 90, -18181818 / 1000000⟩]
    runStrategy fallingBack 1 10 = some trades ∧
      simulateTrades (candlesToDataframe fallingBack)
        ((simpleTrendSignals (fallingBack.map Candle.close) 1).map Signal.toInt) 10 = some trades ∧
      ParquetBacktest.computeKpis trades = computeKpis trades := by
  intro trades
  have hrun : runStrategy fallingBack 1 10 = some trades := by decide +kernel
  obtain ⟨heq, hkpis, -⟩ := simulators_agree 1 10 (show 1 + 2 ≤ fallingBack.length by decide)
  exact ⟨hrun, heq.trans hrun, hkpis trades⟩

end SimpleBacktest
