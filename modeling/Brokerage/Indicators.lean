/-
**The indicators of the strategies.**

The exponential average, the relative strength index and the average true range are recurrences that a
first part of the list seeds.  Each of them stays in its range: the averages in that of the closes and of
the true ranges so far, the index between 0 and 100.  None of them looks ahead.

Main definitions:

* `IndicatorsMt4Like.ema`, `IndicatorsMt4Like.rsiWilder`, `IndicatorsMt4Like.atrWilder` — the indicators.

Main results:

* `IndicatorsMt4Like.ema_eq`, `IndicatorsMt4Like.rsiWilder_eq`, `IndicatorsMt4Like.atrWilder_eq` — they
  are recurrences;
* `IndicatorsMt4Like.tracks_indicators` — where they begin, their ranges, and that they do not look ahead.
-/

import Brokerage.Smoothing
import Mathlib.Tactic.FieldSimp

set_option relaxedAutoImplicit false
set_option autoImplicit false

namespace IndicatorsMt4Like

open Smoothing (mean withPrevious InRange Tracks)

variable {K : Type*} [Field K]

/-! ### The code -/

inductive SeedMode
  | sma
  | first
  deriving DecidableEq

/-- `out[i] = arr[i] * mult + out[i - 1] * (1.0 - mult)`. -/
def emaNext (period : ℕ) (prev x : K) : K :=
  x * (2 / (period + 1)) + prev * (1 - 2 / (period + 1))

def ema (close : List K) (period : ℕ) : SeedMode → List (Option K)
  | .first =>
      match close with
      | [] => []
      | c :: rest => (rest.scanl (emaNext period) c).map some
  | .sma =>
      if close.length < period then
        List.replicate close.length none
      else
        List.replicate (period - 1) none ++
          ((close.drop period).scanl (emaNext period) (mean (close.take period))).map some

/-! ### The average is a recurrence -/

/-- The seed of an average, and the number of closes that it is made of. -/
def SeedMode.seed : SeedMode → List K → K
  | .sma => mean
  | .first => fun close => close.headD 0

def SeedMode.length (period : ℕ) : SeedMode → ℕ
  | .sma => period
  | .first => 1

theorem ema_eq (close : List K) (period : ℕ) (mode : SeedMode) :
    ema close period mode =
      (Smoothing.run (emaNext period) mode.seed (mode.length period) close).map (Option.map id) := by
  rw [Option.map_id, List.map_id]
  cases mode with
  | sma => rfl
  | first => cases close <;> rfl

/-! ### The code of the other two -/

variable [LinearOrder K]

/-- The differences of the closes; that of the first one is zero. -/
def deltas (close : List K) : List K := withPrevious (fun _ => 0) (fun prev c => c - prev) close

def gain (delta : K) : K := if 0 < delta then delta else 0

def loss (delta : K) : K := if delta < 0 then -delta else 0

/-- `(avg * (period - 1) + x) / period`. -/
def wilderNext (period : ℕ) (avg x : K) : K := (avg * (period - 1) + x) / period

/-- The index of the average gain and the average loss. -/
def rsiOf (avg : K × K) : K :=
  if avg.2 = 0 then (100 : ℕ) else (100 : ℕ) - (100 : ℕ) / (1 + avg.1 / avg.2)

def rsiWilder (close : List K) (period : ℕ) : List (Option K) :=
  if close.length < period + 1 then
    List.replicate close.length none
  else
    let delta := deltas close
    let avgG := mean (((delta.map gain).drop 1).take period)
    let avgL := mean (((delta.map loss).drop 1).take period)
    List.replicate period none ++
      ((delta.drop (period + 1)).scanl
        (fun avg d => (wilderNext period avg.1 (gain d), wilderNext period avg.2 (loss d)))
        (avgG, avgL)).map fun avg => some (rsiOf avg)

/-- The prices of a bar. -/
structure Bar (K : Type*) where
  high : K
  low : K
  close : K

/-- The true ranges; that of the first bar is its own range. -/
def trueRanges (bars : List (Bar K)) : List K :=
  withPrevious (fun b => b.high - b.low)
    (fun prev b => max (b.high - b.low) (max |b.high - prev.close| |b.low - prev.close|)) bars

def atrWilder (bars : List (Bar K)) (period : ℕ) : List (Option K) :=
  if bars.length < period then
    List.replicate bars.length none
  else
    let tr := trueRanges bars
    List.replicate (period - 1) none ++
      ((tr.drop period).scanl (wilderNext period) (mean (tr.take period))).map some

/-! ### The index and the range are recurrences -/

/-- The averages of gains and losses that seed the index. -/
def rsiSeed (delta : List K) : K × K :=
  (mean ((delta.map gain).drop 1), mean ((delta.map loss).drop 1))

def rsiNext (period : ℕ) (avg : K × K) (d : K) : K × K :=
  (wilderNext period avg.1 (gain d), wilderNext period avg.2 (loss d))

theorem rsiWilder_eq (close : List K) (period : ℕ) :
    rsiWilder close period =
      (Smoothing.run (rsiNext period) rsiSeed (period + 1) (deltas close)).map (Option.map rsiOf) := by
  have hlength : (deltas close).length = close.length := Smoothing.length_withPrevious _ _ _
  rw [rsiWilder, Smoothing.run, hlength]
  split
  · simp
  · have hseed : rsiSeed ((deltas close).take (period + 1)) =
        (mean ((((deltas close).map gain).drop 1).take period),
          mean ((((deltas close).map loss).drop 1).take period)) := by
      simp only [rsiSeed, List.map_take, List.drop_take, Nat.add_sub_cancel]
    rw [hseed, List.map_append, List.map_replicate, List.map_map, Nat.add_sub_cancel]
    rfl

theorem atrWilder_eq (bars : List (Bar K)) (period : ℕ) :
    atrWilder bars period =
      (Smoothing.run (wilderNext period) mean period (trueRanges bars)).map (Option.map id) := by
  have hlength : (trueRanges bars).length = bars.length := Smoothing.length_withPrevious _ _ _
  rw [Option.map_id, List.map_id, Smoothing.run, hlength]
  rfl

/-! ### Ranges -/

theorem gain_nonneg (d : K) : 0 ≤ gain d := by
  rw [gain]
  split_ifs with h
  · exact h.le
  · exact le_rfl

variable [IsStrictOrderedRing K]

/-- A seed is in the range of the closes that it is made of. -/
theorem SeedMode.inRange_seed (mode : SeedMode) {period : ℕ} (hp : 1 ≤ period) {l : List K}
    (h : l.length = mode.length period) : InRange l (mode.seed l) := by
  cases mode with
  | sma =>
      refine Smoothing.inRange_mean (List.ne_nil_of_length_pos ?_)
      rw [h]
      exact hp
  | first =>
      obtain ⟨c, rfl⟩ := List.length_eq_one_iff.1 h
      exact ⟨⟨c, List.mem_cons_self, le_rfl⟩, c, List.mem_cons_self, le_rfl⟩

/-- The average moves by a share towards each close. -/
theorem InRange_emaNext {period : ℕ} (hp : 1 ≤ period) {l : List K} {prev : K} (h : InRange l prev)
    (x : K) : InRange (l ++ [x]) (emaNext period prev x) := by
  have hp' : (1 : K) ≤ period := by exact_mod_cast hp
  have hshare : (2 : K) / (period + 1) ≤ 1 := (div_le_one (by linarith)).2 (by linarith)
  exact h.move (div_nonneg (by norm_num) (by linarith)) hshare x

/-- A smoothed value moves by a share towards each element. -/
theorem InRange_wilderNext {period : ℕ} (hp : 1 ≤ period) {l : List K} {avg : K} (h : InRange l avg)
    (x : K) : InRange (l ++ [x]) (wilderNext period avg x) := by
  have hp' : (1 : K) ≤ period := by exact_mod_cast hp
  have hpos : (0 : K) < period := by linarith
  have hmove : wilderNext period avg x = x * (1 / period) + avg * (1 - 1 / period) := by
    rw [wilderNext]
    field_simp
    ring
  rw [hmove]
  exact h.move (one_div_nonneg.2 hpos.le) ((div_le_one hpos).2 hp') x

theorem wilderNext_nonneg {period : ℕ} (hp : 1 ≤ period) {avg x : K} (havg : 0 ≤ avg) (hx : 0 ≤ x) :
    0 ≤ wilderNext period avg x := by
  have hp' : (1 : K) ≤ period := by exact_mod_cast hp
  exact div_nonneg (add_nonneg (mul_nonneg havg (by linarith)) hx) (by linarith)

theorem loss_nonneg (d : K) : 0 ≤ loss d := by
  rw [loss]
  split_ifs with h
  · linarith
  · exact le_rfl

/-- The index of averages that are not negative is between 0 and 100. -/
theorem rsiOf_mem {avg : K × K} (hgain : 0 ≤ avg.1) (hloss : 0 ≤ avg.2) :
    0 ≤ rsiOf avg ∧ rsiOf avg ≤ 100 := by
  rw [rsiOf, Nat.cast_ofNat]
  split_ifs with hzero
  · exact ⟨by norm_num, le_rfl⟩
  · have hratio : 0 ≤ avg.1 / avg.2 := div_nonneg hgain hloss
    have hone : (1 : K) ≤ 1 + avg.1 / avg.2 := by linarith
    have hpart : (100 : K) / (1 + avg.1 / avg.2) ≤ 100 := div_le_self (by norm_num) hone
    have hpos : (0 : K) ≤ 100 / (1 + avg.1 / avg.2) := div_nonneg (by norm_num) (by linarith)
    exact ⟨by linarith, by linarith⟩

/-- The averages of an index are never negative. -/
theorem rsiSeed_nonneg (delta : List K) : 0 ≤ (rsiSeed delta).1 ∧ 0 ≤ (rsiSeed delta).2 := by
  constructor
  · refine Smoothing.mean_nonneg fun a ha => ?_
    obtain ⟨d, -, rfl⟩ := List.mem_map.1 (List.mem_of_mem_drop ha)
    exact gain_nonneg d
  · refine Smoothing.mean_nonneg fun a ha => ?_
    obtain ⟨d, -, rfl⟩ := List.mem_map.1 (List.mem_of_mem_drop ha)
    exact loss_nonneg d

/-- Where the lows do not exceed the highs, no true range is negative. -/
theorem trueRanges_nonneg {bars : List (Bar K)} (h : ∀ b ∈ bars, b.low ≤ b.high) :
    ∀ t ∈ trueRanges bars, 0 ≤ t := by
  cases bars with
  | nil => exact fun t ht => by cases ht
  | cons bar bars =>
      intro t ht
      rcases List.mem_cons.1 ht with rfl | ht
      · exact sub_nonneg.2 (h bar List.mem_cons_self)
      · obtain ⟨i, hi, rfl⟩ := List.getElem_of_mem ht
        rw [List.getElem_zipWith]
        exact le_max_of_le_right (le_max_of_le_left (abs_nonneg _))

/-! ### The three indicators -/

theorem tracks_rsiWilder {period : ℕ} (hp : 1 ≤ period) :
    Tracks (fun close : List K => rsiWilder close period) period (fun _ v => 0 ≤ v ∧ v ≤ 100) := by
  refine Smoothing.tracks_run (Nat.le_add_left 1 period) (fun close => rsiWilder_eq close period)
    (fun close => Smoothing.length_withPrevious _ _ close)
    (fun close m => Smoothing.withPrevious_take _ _ close m) ?_
  intro close i avg havg
  have hnonneg := Smoothing.run_invariant (P := fun _ avg => 0 ≤ avg.1 ∧ 0 ≤ avg.2)
    (Nat.le_add_left 1 period) (fun delta _ => rsiSeed_nonneg delta)
    (fun _ avg d h => ⟨wilderNext_nonneg hp h.1 (gain_nonneg d), wilderNext_nonneg hp h.2 (loss_nonneg d)⟩)
    havg
  exact rsiOf_mem hnonneg.1 hnonneg.2

theorem tracks_atrWilder {period : ℕ} (hp : 1 ≤ period) :
    Tracks (fun bars : List (Bar K) => atrWilder bars period) (period - 1)
      (fun bars v => InRange (trueRanges bars) v ∧ ((∀ b ∈ bars, b.low ≤ b.high) → 0 ≤ v)) := by
  refine Smoothing.tracks_run hp (fun bars => atrWilder_eq bars period)
    (fun bars => Smoothing.length_withPrevious _ _ bars)
    (fun bars m => Smoothing.withPrevious_take _ _ bars m) ?_
  intro bars i avg havg
  have hseed : ∀ l : List K, l.length = period → InRange l (mean l) := fun l hl =>
    Smoothing.inRange_mean (List.ne_nil_of_length_pos (by omega))
  have hrange : InRange (trueRanges (bars.take (i + 1))) avg := by
    rw [trueRanges, Smoothing.withPrevious_take]
    exact Smoothing.run_invariant hp hseed (fun l avg x h => InRange_wilderNext hp h x) havg
  refine ⟨hrange, fun hbars => ?_⟩
  obtain ⟨⟨t, ht, hle⟩, -⟩ := hrange
  exact (trueRanges_nonneg hbars t ht).trans hle

theorem tracks_ema {period : ℕ} (hp : 1 ≤ period) (mode : SeedMode) :
    Tracks (fun close : List K => ema close period mode) (mode.length period - 1) InRange := by
  have hk : 1 ≤ mode.length period := by
    cases mode with
    | sma => exact hp
    | first => exact le_rfl
  refine Smoothing.tracks_run hk (fun close => ema_eq close period mode) (fun _ => rfl)
    (fun _ _ => rfl) ?_
  intro close i avg havg
  exact Smoothing.run_invariant hk (fun l hl => mode.inRange_seed hp hl)
    (fun l prev x h => InRange_emaNext hp h x) havg

/-- For every length of the first part, each indicator has a value from its end on, in its range and with
no look ahead. -/
theorem tracks_indicators {period : ℕ} (hp : 1 ≤ period) :
    Tracks (fun close : List K => rsiWilder close period) period (fun _ v => 0 ≤ v ∧ v ≤ 100) ∧
      Tracks (fun bars : List (Bar K) => atrWilder bars period) (period - 1)
        (fun bars v => InRange (trueRanges bars) v ∧ ((∀ b ∈ bars, b.low ≤ b.high) → 0 ≤ v)) ∧
      Tracks (fun close : List K => ema close period .sma) (period - 1) InRange ∧
      Tracks (fun close : List K => ema close period .first) 0 InRange :=
  ⟨tracks_rsiWilder hp, tracks_atrWilder hp, tracks_ema hp .sma, tracks_ema hp .first⟩

theorem tracks_indicators_two :
    Tracks (fun close : List ℚ => rsiWilder close 2) 2 (fun _ v => 0 ≤ v ∧ v ≤ 100) ∧
      Tracks (fun bars : List (Bar ℚ) => atrWilder bars 2) 1
        (fun bars v => InRange (trueRanges bars) v ∧ ((∀ b ∈ bars, b.low ≤ b.high) → 0 ≤ v)) ∧
      Tracks (fun close : List ℚ => ema close 2 .sma) 1 InRange ∧
      Tracks (fun close : List ℚ => ema close 2 .first) 0 InRange :=
  tracks_indicators (by decide)

/-- Gains of 2 and losses of 2 on average, and then a rise by 4. -/
example : rsiWilder ([1, 5, 1, 5] : List ℚ) 2 = [none, none, some 50, some 75] := by decide +kernel

end IndicatorsMt4Like
