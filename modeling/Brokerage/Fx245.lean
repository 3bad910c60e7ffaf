/-
**The currencies' hours, and the closed minutes of a window.**

The default hours of the market: the currencies and gold are open from Sunday to Friday, 22:00 UTC; of
the indices and the shares nothing is known; anything else is open.  The closed intervals of a window
are found minute by minute.

Main definitions:

* `Fx245.getMarketState` — the state of the market of a symbol;
* `Fx245.closedIntervalsBetween`, `Fx245.countClosedMinutesBetween` — the closed intervals of a window,
  and their minutes.

Main results:

* `Fx245.sum_closedLoop` — the intervals have the closed minutes;
* `Fx245.countClosedMinutesBetween_eq` — the closed minutes of a window are counted.
-/

import Brokerage.GridWindow
import Brokerage.MarketHours

set_option relaxedAutoImplicit false
set_option autoImplicit false

namespace Fx245

open MarketHours (Reason)

/-! ### The state of the market -/

/-- `FX_24_5_SYMBOLS`. -/
def fxSymbols : List String := ["EURUSD", "GBPUSD", "XAUUSD", "XAU", "USDJPY", "AUDUSD"]

/-- `MARKET_HOURS_UNKNOWN_SYMBOLS`. -/
def marketHoursUnknownSymbols : List String :=
  ["GOOGUSD", "NVDAUSD", "DAXEUR", "SPXUSD", "NDXUSD", "MSFT", "NVDA"]

def normalizeSymbol (symbol : String) : String :=
  let s := Text.strip (Text.upper symbol)
  if s = "XAU" then "XAUUSD" else s

/-- Whether the market is open at a second, and why. -/
def getMarketState (symbol : String) (ts : ℤ) : Bool × Reason :=
  let s := normalizeSymbol symbol
  if s ∈ marketHoursUnknownSymbols then (true, .unknown)
  else if s ∉ fxSymbols then (true, .open_)
  else
    let wd := weekdayOf (1000000 * ts)
    let mins := 1000000 * ts % dayMicros / minuteMicros
    if wd = 5 then (false, .closed)
    else if wd = 6 then (decide (22 * 60 ≤ mins), if 22 * 60 ≤ mins then .open_ else .closed)
    else if wd = 4 then (decide (mins < 22 * 60), if mins < 22 * 60 then .open_ else .closed)
    else (true, .open_)

def isMarketOpen (symbol : String) (ts : ℤ) : Bool := (getMarketState symbol ts).1

/-- Whether a late candle counts. -/
def staleDegradationApplies (symbol : String) (ts : ℤ) : Bool :=
  let state := getMarketState symbol ts
  state.1 && state.2 = .open_

/-! ### Closed intervals -/

/-- The inner loop: past the closed minutes, of those that are left. -/
def skipClosed (isOpen : ℤ → Bool) : ℕ → ℤ → ℕ × ℤ
  | 0, ts => (0, ts)
  | n + 1, ts => if isOpen ts then (n + 1, ts) else skipClosed isOpen n (ts + 60)

theorem skipClosed_le (isOpen : ℤ → Bool) (n : ℕ) (ts : ℤ) : (skipClosed isOpen n ts).1 ≤ n := by
  induction n generalizing ts with
  | zero => exact le_rfl
  | succ n ih =>
      rw [skipClosed]
      split
      · exact le_rfl
      · exact (ih (ts + 60)).trans n.le_succ

/-- The loop over the minutes of a window. -/
def closedLoop (isOpen : ℤ → Bool) : ℕ → ℤ → List (ℤ × ℤ)
  | 0, _ => []
  | n + 1, ts =>
      if isOpen ts then closedLoop isOpen n (ts + 60)
      else
        let next := skipClosed isOpen n (ts + 60)
        (ts, next.2) :: closedLoop isOpen next.1 next.2
  termination_by n => n
  decreasing_by
    · exact n.lt_succ_self
    · exact Nat.lt_succ_of_le (skipClosed_le isOpen n (ts + 60))

/-- The closed intervals of a window, which is widened to full minutes; nothing if a bound is not of the
calendar. -/
def closedIntervalsBetween (symbol : String) (fromTs toTs : ℤ) : Option (List (ℤ × ℤ)) :=
  if normalizeSymbol symbol ∉ fxSymbols then some []
  else
    (utcFromTimestamp (1000000 * fromTs)).bind fun _ =>
      (utcFromTimestamp (1000000 * toTs)).map fun _ =>
        let fromTs := fromTs / 60 * 60
        let toTs := ((toTs - 1) / 60 + 1) * 60
        closedLoop (isMarketOpen symbol) ((toTs - fromTs) / 60).toNat fromTs

/-- The closed minutes of a window. -/
def countClosedMinutesBetween (symbol : String) (fromTs toTs : ℤ) : Option ℤ :=
  (closedIntervalsBetween symbol fromTs toTs).map fun intervals =>
    (intervals.map fun i => (i.2 - i.1) / 60).sum

/-! ### Their minutes -/

variable {isOpen : ℤ → Bool}

/-- What the inner loop skips is closed. -/
theorem skipClosed_spec (isOpen : ℤ → Bool) (n : ℕ) {ts : ℤ} (hts : 60 ∣ ts) :
    60 ∣ (skipClosed isOpen n ts).2 ∧
      (skipClosed isOpen n ts).2 + 60 * (skipClosed isOpen n ts).1 = ts + 60 * n ∧
        ((skipClosed isOpen n ts).2 - ts) / 60 =
          (GridWindow.count (fun m => !isOpen m) 60 ts (skipClosed isOpen n ts).2 : ℤ) := by
  induction n generalizing ts with
  | zero =>
      refine ⟨hts, rfl, ?_⟩
      rw [skipClosed, GridWindow.count_of_le (by decide) _ le_rfl, sub_self]
      rfl
  | succ n ih =>
      rw [skipClosed]
      split
      · refine ⟨hts, rfl, ?_⟩
        rw [GridWindow.count_of_le (by decide) _ le_rfl, sub_self]
        rfl
      · rename_i hclosed
        obtain ⟨hdvd, hend, hcount⟩ := ih (Int.dvd_add hts (dvd_refl 60))
        have hle := skipClosed_le isOpen n (ts + 60)
        refine ⟨hdvd, by omega, ?_⟩
        rw [GridWindow.count_succ (by decide) _ hts (by omega), if_pos (by simpa using hclosed)]
        push_cast
        omega

/-- The intervals have the closed minutes. -/
theorem sum_closedLoop (isOpen : ℤ → Bool) (n : ℕ) {ts : ℤ} (hts : 60 ∣ ts) :
    ((closedLoop isOpen n ts).map fun i => (i.2 - i.1) / 60).sum =
      (GridWindow.count (fun m => !isOpen m) 60 ts (ts + 60 * n) : ℤ) := by
  induction n using Nat.strong_induction_on generalizing ts with
  | _ n ih =>
      cases n with
      | zero =>
          rw [closedLoop, GridWindow.count_of_le (by decide) _ (by omega)]
          rfl
      | succ n =>
          have hstep : (60 : ℤ) ∣ ts + 60 := Int.dvd_add hts (dvd_refl 60)
          have hsucc := GridWindow.count_succ (by decide) (fun m => !isOpen m) hts
            (show ts + 60 ≤ ts + 60 * (n + 1 : ℕ) by omega)
          have hend : ts + 60 + 60 * (n : ℤ) = ts + 60 * (n + 1 : ℕ) := by
            push_cast
            ring
          rw [closedLoop]
          dsimp only
          split
          · rename_i hopen
            rw [ih n n.lt_succ_self hstep, hend, hsucc, if_neg (by simpa using hopen), zero_add]
          · rename_i hclosed
            obtain ⟨hdvd, hnext, hcount⟩ := skipClosed_spec isOpen n hstep
            have hle := skipClosed_le isOpen n (ts + 60)
            rw [List.map_cons, List.sum_cons, ih _ (Nat.lt_succ_of_le hle) hdvd, hnext, hend, hsucc,
              if_pos (by simpa using hclosed),
              ← GridWindow.count_add_count (by decide) _
                (show ts + 60 ≤ (skipClosed isOpen n (ts + 60)).2 by omega)
                (show _ ≤ ts + 60 * (n + 1 : ℕ) by omega)]
            push_cast
            omega

/-- The closed minutes of a window are counted. -/
theorem countClosedMinutesBetween_eq (symbol : String) {fromTs toTs : ℤ} (hle : fromTs ≤ toTs)
    (hfrom : monthStart 12 ≤ 1000000 * fromTs) (hto : 1000000 * toTs < monthStart 120000) :
    countClosedMinutesBetween symbol fromTs toTs =
      some (GridWindow.count (fun m => !isMarketOpen symbol m) 60 (fromTs / 60 * 60) toTs : ℤ) := by
  rw [countClosedMinutesBetween, closedIntervalsBetween]
  by_cases hfx : normalizeSymbol symbol ∉ fxSymbols
  · have hopen : ∀ m, (!isMarketOpen symbol m) = false := by
      intro m
      rw [isMarketOpen, getMarketState]
      dsimp only
      split
      · rfl
      · rfl
    rw [if_pos hfx, GridWindow.count_eq_zero hopen]
    rfl
  · have hminutes : fromTs / 60 * 60 + 60 *
        ((((toTs - 1) / 60 + 1) * 60 - fromTs / 60 * 60) / 60).toNat =
          ((toTs - 1) / 60 + 1) * 60 := by
      omega
    rw [if_neg hfx, utcFromTimestamp, dif_pos ⟨hfrom, by omega⟩, Option.bind_some, utcFromTimestamp,
      dif_pos ⟨by omega, hto⟩, Option.map_some, Option.map_some,
      sum_closedLoop _ _ (dvd_mul_left 60 _), hminutes]
    congr 2
    refine GridWindow.count_congr (by decide) fun m hm => and_congr_right fun _ => ?_
    omega

end Fx245
