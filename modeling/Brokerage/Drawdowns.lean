/-
**The drawdowns of the two backtests.**

Each backtest finds the deepest fall of its result in one pass that keeps the peak so far: the simple one
of the sum of its trades, the other one of an equity that starts at 100 and is compounded.  It is the
deepest of the falls from an earlier value to a later one, in points of the sum, and in percent of the
earlier equity while that stays positive.

Main definitions:

* `LabRunner.computeKpis`, `LabRunner.maxDrawdown` — the figures of the compounded equity;
* `SimpleBacktest.cumulative`, `LabRunner.equityAfter` — the results after some trades.

Main results:

* `SimpleBacktest.isGreatest_maxDrawdown` — the deepest fall of the sum;
* `LabRunner.isGreatest_maxDrawdown` — the deepest fall of the equity, in percent;
* `LabRunner.drawdowns_spec` — both.
-/

import Brokerage.RunningPeak
import Brokerage.SimpleBacktests

set_option relaxedAutoImplicit false
set_option autoImplicit false

/-! ### The sum of the trades -/

namespace SimpleBacktest

variable {K : Type} [Field K]

/-- The result after some trades. -/
def cumulative (trades : List (Trade K)) (i : ℕ) : K := ((trades.take i).map Trade.pnlPct).sum

theorem after_eq_cumulative (trades : List (Trade K)) (i : ℕ) :
    RunningPeak.after (fun c t => c + t.pnlPct) 0 trades i = cumulative trades i := by
  rw [RunningPeak.after, cumulative, List.sum_eq_foldl, List.foldl_map]

variable [LinearOrder K]

/-- The loop is the pass that finds the deepest fall. -/
theorem foldl_drawdownStep (trades : List (Trade K)) (s : RunningPeak.State K K) :
    (trades.foldl Drawdown.step ⟨s.value, s.peak, s.deepest⟩).maxDd =
      (trades.foldl (RunningPeak.State.step (fun c t => c + t.pnlPct) fun p c => p - c) s).deepest := by
  induction trades generalizing s with
  | nil => rfl
  | cons t trades ih =>
      rw [List.foldl_cons, List.foldl_cons, ← ih]
      rfl

variable [IsStrictOrderedRing K]

/-- The drawdown is the deepest fall of the sum from a number of trades to no fewer. -/
theorem isGreatest_maxDrawdown (trades : List (Trade K)) :
    IsGreatest {d | ∃ i j, i ≤ j ∧ j ≤ trades.length ∧ d = cumulative trades i - cumulative trades j}
      (maxDrawdown trades) := by
  have htracked := RunningPeak.tracked_foldl (fun (c : K) (t : Trade K) => c + t.pnlPct)
    (fun p c => p - c) 0 trades fun i _ j _ k _ hle => sub_le_sub_right hle _
  have hloop := foldl_drawdownStep trades ⟨0, 0, 0⟩
  have hfalls := htracked.deepest
  simp only [RunningPeak.falls, after_eq_cumulative, sub_self] at hfalls
  rw [maxDrawdown, hloop]
  exact hfalls

end SimpleBacktest

/-! ### The compounded equity -/

namespace LabRunner

variable {K : Type} [Field K]

/-- The equity after some trades, from 100 on. -/
def equityAfter (pnls : List K) (i : ℕ) : K := 100 * ((pnls.take i).map fun p => 1 + p / 100).prod

theorem after_eq_equityAfter (pnls : List K) (i : ℕ) :
    RunningPeak.after (fun e p => e * (1 + p / 100)) 100 pnls i = equityAfter pnls i := by
  have key : ∀ (l : List K) (e : K), l.foldl (fun e p => e * (1 + p / 100)) e =
      e * (l.map fun p => 1 + p / 100).prod := by
    intro l
    induction l with
    | nil => simp
    | cons p l ih =>
        intro e
        rw [List.foldl_cons, ih, List.map_cons, List.prod_cons, mul_assoc]
  exact key _ 100

variable [LinearOrder K]

/-- The variables of the loop. -/
structure EquityLoop (K : Type) where
  equity : K
  peak : K
  maxDd : K

/-- The body of the loop. -/
def EquityLoop.step (s : EquityLoop K) (p : K) : EquityLoop K :=
  let equity := s.equity * (1 + p / 100)
  let peak := if s.peak < equity then equity else s.peak
  let dd := (peak - equity) / peak * 100
  { equity := equity, peak := peak, maxDd := if s.maxDd < dd then dd else s.maxDd }

/-- The loop for the drawdown. -/
def maxDrawdown (pnls : List K) : K := (pnls.foldl EquityLoop.step ⟨100, 100, 0⟩).maxDd

/-- What `compute_kpis` says of the trades. -/
structure Kpis (K : Type) where
  nTrades : ℕ
  netPnlPct : K
  winRatePct : K
  avgTradePct : K
  maxDrawdownPct : K
  wins : ℕ
  losses : ℕ
  deriving DecidableEq

/-- `compute_kpis`, of the results of the trades. -/
def computeKpis [Rounding K] (pnls : List K) : Kpis K :=
  let n := pnls.length
  if n = 0 then
    ⟨0, 0, 0, 0, 0, 0, 0⟩
  else
    let wins := pnls.countP fun p => 0 < p
    let netPnl := pnls.sum
    { nTrades := n
      netPnlPct := Rounding.round netPnl 4
      winRatePct := Rounding.round (wins / n * 100) 2
      avgTradePct := Rounding.round (netPnl / n) 4
      maxDrawdownPct := Rounding.round (maxDrawdown pnls) 4
      wins := wins
      losses := n - wins }

/-- The loop is the pass that finds the deepest fall. -/
theorem foldl_equityStep (pnls : List K) (s : RunningPeak.State K K) :
    (pnls.foldl EquityLoop.step ⟨s.value, s.peak, s.deepest⟩).maxDd =
      (pnls.foldl (RunningPeak.State.step (fun e p => e * (1 + p / 100))
        fun p e => (p - e) / p * 100) s).deepest := by
  induction pnls generalizing s with
  | nil => rfl
  | cons p pnls ih =>
      rw [List.foldl_cons, List.foldl_cons, ← ih]
      rfl

variable [IsStrictOrderedRing K]

/-- A fall to a positive equity is no less from a higher peak. -/
theorem fall_le_fall {u v w : K} (hu : 0 < u) (hw : 0 < w) (h : u ≤ v) :
    (u - w) / u * 100 ≤ (v - w) / v * 100 := by
  have hv : 0 < v := hu.trans_le h
  have hratio : w / v ≤ w / u := div_le_div_of_nonneg_left hw.le hu h
  rw [sub_div, sub_div, div_self hu.ne', div_self hv.ne']
  exact mul_le_mul_of_nonneg_right (by linarith) (by norm_num)

/-- While the equity stays positive, the drawdown is the deepest of its falls, in percent. -/
theorem isGreatest_maxDrawdown (pnls : List K) (hpos : ∀ i ≤ pnls.length, 0 < equityAfter pnls i) :
    IsGreatest {d | ∃ i j, i ≤ j ∧ j ≤ pnls.length ∧
      d = (equityAfter pnls i - equityAfter pnls j) / equityAfter pnls i * 100} (maxDrawdown pnls) := by
  have htracked := RunningPeak.tracked_foldl (fun (e : K) (p : K) => e * (1 + p / 100))
    (fun p e => (p - e) / p * 100) 100 pnls fun i hi j _ k hk hle => by
      simp only [after_eq_equityAfter] at hle ⊢
      exact fall_le_fall (hpos i hi) (hpos k hk) hle
  have hloop := foldl_equityStep pnls ⟨100, 100, 0⟩
  have hfalls := htracked.deepest
  simp only [RunningPeak.falls, after_eq_equityAfter, sub_self, zero_div, zero_mul] at hfalls
  rw [maxDrawdown, hloop]
  exact hfalls

/-- Both loops find the deepest fall: of the sum of the trades, and of the equity that is compounded, in
percent, while it stays positive. -/
theorem drawdowns_spec (trades : List (SimpleBacktest.Trade K)) (pnls : List K)
    (hpos : ∀ i ≤ pnls.length, 0 < equityAfter pnls i) :
    IsGreatest {d | ∃ i j, i ≤ j ∧ j ≤ trades.length ∧
        d = SimpleBacktest.cumulative trades i - SimpleBacktest.cumulative trades j}
        (SimpleBacktest.maxDrawdown trades) ∧
      IsGreatest {d | ∃ i j, i ≤ j ∧ j ≤ pnls.length ∧
        d = (equityAfter pnls i - equityAfter pnls j) / equityAfter pnls i * 100} (maxDrawdown pnls) :=
  ⟨SimpleBacktest.isGreatest_maxDrawdown trades, isGreatest_maxDrawdown pnls hpos⟩

/-- A trade that loses a tenth. -/
def tenthLost : List ℚ := [-10]

theorem equityAfter_tenthLost : equityAfter tenthLost 0 = 100 ∧ equityAfter tenthLost 1 = 90 := by
  constructor <;> norm_num [equityAfter, tenthLost]

theorem tenthLost_pos : ∀ i ≤ tenthLost.length, 0 < equityAfter tenthLost i := by
  intro i hi
  obtain ⟨hzero, hone⟩ := equityAfter_tenthLost
  have hi' : i ≤ 1 := hi
  interval_cases i
  · rw [hzero]
    norm_num
  · rw [hone]
    norm_num

/-- Four trades: a fifth is won, a quarter lost, a tenth won and a half lost. -/
def fourTrades : List (SimpleBacktest.Trade ℚ) :=
  [⟨0, 60, .long, 100, 120, 20⟩, ⟨60, 120, .long, 120, 90, -25⟩, ⟨120, 180, .long, 90, 99, 10⟩,
    ⟨180, 240, .long, 99, 99 / 2, -50⟩]

/-- Their results. -/
def fourResults : List ℚ := fourTrades.map SimpleBacktest.Trade.pnlPct

theorem fourResults_pos : ∀ i ≤ fourResults.length, 0 < equityAfter fourResults i := by
  decide +kernel

theorem drawdowns_spec_fourTrades :
    IsGreatest {d | ∃ i j, i ≤ j ∧ j ≤ fourTrades.length ∧
        d = SimpleBacktest.cumulative fourTrades i - SimpleBacktest.cumulative fourTrades j}
        (SimpleBacktest.maxDrawdown fourTrades) ∧
      IsGreatest {d | ∃ i j, i ≤ j ∧ j ≤ fourResults.length ∧
        d = (equityAfter fourResults i - equityAfter fourResults j) / equityAfter fourResults i * 100}
        (maxDrawdown fourResults) :=
  drawdowns_spec fourTrades fourResults fourResults_pos

/-- The drawdown of the loss of a tenth is 10, and no share of the equity. -/
theorem not_share :
    (∀ i ≤ tenthLost.length, 0 < equityAfter tenthLost i) ∧ maxDrawdown tenthLost = 10 ∧
      ¬ IsGreatest {d | ∃ i j, i ≤ j ∧ j ≤ tenthLost.length ∧
        d = (equityAfter tenthLost i - equityAfter tenthLost j) / equityAfter tenthLost i}
        (maxDrawdown tenthLost) := by
  have hten : maxDrawdown tenthLost = 10 := by decide +kernel
  refine ⟨tenthLost_pos, hten, fun h => ?_⟩
  obtain ⟨i, j, hij, hj, hd⟩ := h.1
  -- a share of an equity that stays positive is less than one
  have hi := tenthLost_pos i (hij.trans hj)
  have hshare : (equityAfter tenthLost i - equityAfter tenthLost j) / equityAfter tenthLost i < 1 :=
    (div_lt_one hi).2 (by linarith [tenthLost_pos j hj])
  rw [← hd, hten] at hshare
  norm_num at hshare

end LabRunner
