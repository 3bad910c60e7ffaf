/-
**The closed time of a window.**

The closed intervals of a window are found minute by minute, and for that the window is widened to full
minutes.  In the widened window they are the maximal closed intervals.  The closed seconds of a gap are
clipped to the gap and hence exact; the closed minutes of a window are those of the widened one.

Main definitions:

* `Fx245.countClosedSecondsInGap` — the closed seconds of a gap;
* `Fx245.closedSeconds` — how many seconds of a window are closed;
* `Fx245.ClosedTime` — what is found out about a window.

Main results:

* `Fx245.isMarketOpen_minute` — the market opens and closes with a minute;
* `Fx245.runs_closedLoop` — the loop finds the maximal closed intervals;
* `Fx245.closedTime_spec` — the closed time of a window, and of the parts of a window;
* `Fx245.two_seconds_widened` — a window of two seconds with two closed minutes.
-/

import Brokerage.Fx245
import Brokerage.Spans

set_option relaxedAutoImplicit false
set_option autoImplicit false

namespace Fx245

/-! ### Closed seconds -/

/-- The closed seconds of a gap: the closed intervals are clipped to it. -/
def countClosedSecondsInGap (symbol : String) (gapStartTs gapEndTs : ℤ) : Option ℤ :=
  (closedIntervalsBetween symbol gapStartTs gapEndTs).map fun intervals =>
    (intervals.map fun c =>
      let overlapStart := max c.1 gapStartTs
      let overlapEnd := min c.2 gapEndTs
      if overlapStart < overlapEnd then overlapEnd - overlapStart else 0).sum

/-- The seconds at which the market of a symbol is closed. -/
def closed (symbol : String) : Set ℤ := {t | isMarketOpen symbol t = false}

/-- How many seconds of a window are closed. -/
noncomputable def closedSeconds (symbol : String) (fromTs toTs : ℤ) : ℕ :=
  GridWindow.count (fun t => !isMarketOpen symbol t) 1 fromTs toTs

/-- The start of the first minute of a window. -/
def firstMinute (fromTs : ℤ) : ℤ := fromTs / 60 * 60

/-- The end of the last minute of a window. -/
def lastMinute (toTs : ℤ) : ℤ := ((toTs - 1) / 60 + 1) * 60

/-- The points of an interval. -/
def spanOf (c : ℤ × ℤ) : Span ℤ := ⟨c.1, c.2⟩

/-- What is found out about the closed time of a window: the intervals are those of the widened window,
the seconds those of the window, and the minutes those of the widened window. -/
structure ClosedTime (symbol : String) (fromTs toTs : ℤ) : Prop where
  intervals : ∃ intervals, closedIntervalsBetween symbol fromTs toTs = some intervals ∧
    Span.Runs (closed symbol) (firstMinute fromTs) (lastMinute toTs) (intervals.map spanOf)
  seconds : countClosedSecondsInGap symbol fromTs toTs = some (closedSeconds symbol fromTs toTs : ℤ)
  minutes : ∃ minutes, countClosedMinutesBetween symbol fromTs toTs = some minutes ∧
    60 * minutes = closedSeconds symbol (firstMinute fromTs) (lastMinute toTs)

/-! ### Minutes -/

/-- The market opens and closes with a minute. -/
theorem isMarketOpen_minute (symbol : String) (t : ℤ) :
    isMarketOpen symbol t = isMarketOpen symbol (t / 60 * 60) := by
  have hday : weekdayOf (1000000 * t) = weekdayOf (1000000 * (t / 60 * 60)) := by
    rw [weekdayOf, weekdayOf, dayMicros]
    omega
  have hmins : 1000000 * t % dayMicros / minuteMicros =
      1000000 * (t / 60 * 60) % dayMicros / minuteMicros := by
    rw [dayMicros, minuteMicros]
    omega
  simp only [isMarketOpen, getMarketState, hday, hmins]

/-- A second is closed with its minute. -/
theorem mem_closed_iff {symbol : String} {ts t : ℤ} (hts : 60 ∣ ts) (hle : ts ≤ t) (hlt : t < ts + 60) :
    t ∈ closed symbol ↔ isMarketOpen symbol ts = false := by
  have hminute : t / 60 * 60 = ts := by omega
  rw [closed, Set.mem_ofPred_eq, isMarketOpen_minute, hminute]

/-- What the inner loop skips is closed, and it stops at an open minute or at the end. -/
theorem skipClosed_closed (symbol : String) (n : ℕ) {ts : ℤ} (hts : 60 ∣ ts) :
    (∀ t, ts ≤ t → t < (skipClosed (isMarketOpen symbol) n ts).2 → t ∈ closed symbol) ∧
      ((skipClosed (isMarketOpen symbol) n ts).1 = 0 ∨
        isMarketOpen symbol (skipClosed (isMarketOpen symbol) n ts).2 = true) := by
  induction n generalizing ts with
  | zero => exact ⟨fun t hle hlt => absurd hlt (not_lt.2 hle), Or.inl rfl⟩
  | succ n ih =>
      rw [skipClosed]
      split
      · rename_i hopen
        exact ⟨fun t hle hlt => absurd hlt (not_lt.2 hle), Or.inr hopen⟩
      · rename_i hclosed
        obtain ⟨hskipped, hstop⟩ := ih (Int.dvd_add hts (dvd_refl 60))
        refine ⟨fun t hle hlt => ?_, hstop⟩
        rcases lt_or_ge t (ts + 60) with hfirst | hlater
        · exact (mem_closed_iff hts hle hfirst).2 (Bool.eq_false_iff.2 hclosed)
        · exact hskipped t hlater hlt

/-- The loop finds the maximal closed intervals. -/
theorem runs_closedLoop (symbol : String) (n : ℕ) {ts : ℤ} (hts : 60 ∣ ts) :
    Span.Runs (closed symbol) ts (ts + 60 * n)
      ((closedLoop (isMarketOpen symbol) n ts).map spanOf) := by
  induction n using Nat.strong_induction_on generalizing ts with
  | _ n ih =>
      cases n with
      | zero =>
          rw [closedLoop]
          exact Span.Runs.nil (by simp)
      | succ n =>
          have hstep : (60 : ℤ) ∣ ts + 60 := Int.dvd_add hts (dvd_refl 60)
          have hend : ts + 60 + 60 * (n : ℤ) = ts + 60 * (n + 1 : ℕ) := by
            push_cast
            ring
          rw [closedLoop]
          dsimp only
          split
          · rename_i hopen
            have hrest := ih n n.lt_succ_self hstep
            rw [hend] at hrest
            refine hrest.skip (by omega) fun t hle hlt hmem => ?_
            rw [(mem_closed_iff hts hle hlt).1 hmem] at hopen
            cases hopen
          · rename_i hclosed
            obtain ⟨hdvd, hnext, -⟩ := skipClosed_spec (isMarketOpen symbol) n hstep
            obtain ⟨hskipped, hstop⟩ := skipClosed_closed symbol n hstep
            have hle := skipClosed_le (isMarketOpen symbol) n (ts + 60)
            have hrest := ih _ (Nat.lt_succ_of_le hle) hdvd
            rw [hnext, hend] at hrest
            rw [List.map_cons]
            refine hrest.cons (by omega) (by omega) (fun t hfirst hlt => ?_) ?_
            · rcases lt_or_ge t (ts + 60) with hminute | hlater
              · exact (mem_closed_iff hts hfirst hminute).2 (Bool.eq_false_iff.2 hclosed)
              · exact hskipped t hlater hlt
            · rcases hstop with hzero | hopen
              · left
                omega
              · right
                rw [closed, Set.mem_ofPred_eq, hopen]
                intro hclosed
                cases hclosed

/-- The ends of the intervals are ends of minutes. -/
theorem dvd_of_mem_closedLoop {isOpen : ℤ → Bool} {n : ℕ} {ts : ℤ} (hts : 60 ∣ ts) {c : ℤ × ℤ}
    (hc : c ∈ closedLoop isOpen n ts) : 60 ∣ c.1 ∧ 60 ∣ c.2 := by
  induction n using Nat.strong_induction_on generalizing ts with
  | _ n ih =>
      cases n with
      | zero =>
          rw [closedLoop] at hc
          exact absurd hc List.not_mem_nil
      | succ n =>
          have hstep : (60 : ℤ) ∣ ts + 60 := Int.dvd_add hts (dvd_refl 60)
          rw [closedLoop] at hc
          dsimp only at hc
          split at hc
          · exact ih n n.lt_succ_self hstep hc
          · obtain ⟨hdvd, -, -⟩ := skipClosed_spec isOpen n hstep
            rcases List.mem_cons.1 hc with rfl | hc
            · exact ⟨hts, hdvd⟩
            · exact ih _ (Nat.lt_succ_of_le (skipClosed_le isOpen n (ts + 60))) hdvd hc

/-! ### The closed time of a window -/

/-- The intervals of a window of the calendar. -/
theorem closedIntervalsBetween_eq {symbol : String} (hfx : normalizeSymbol symbol ∈ fxSymbols)
    {fromTs toTs : ℤ} (hlt : fromTs < toTs) (hfrom : monthStart 12 ≤ 1000000 * fromTs)
    (hto : 1000000 * toTs < monthStart 120000) :
    closedIntervalsBetween symbol fromTs toTs = some (closedLoop (isMarketOpen symbol)
      ((lastMinute toTs - firstMinute fromTs) / 60).toNat (firstMinute fromTs)) := by
  rw [closedIntervalsBetween, if_neg (not_not.2 hfx), utcFromTimestamp, dif_pos ⟨hfrom, by omega⟩,
    Option.bind_some, utcFromTimestamp, dif_pos ⟨by omega, hto⟩, Option.map_some]
  rfl

/-- They are the maximal closed intervals of the widened window. -/
theorem exists_intervals (symbol : String) {fromTs toTs : ℤ} (hlt : fromTs < toTs)
    (hfrom : monthStart 12 ≤ 1000000 * fromTs) (hto : 1000000 * toTs < monthStart 120000) :
    ∃ intervals, closedIntervalsBetween symbol fromTs toTs = some intervals ∧
      Span.Runs (closed symbol) (firstMinute fromTs) (lastMinute toTs) (intervals.map spanOf) ∧
      ∀ c ∈ intervals, 60 ∣ c.1 ∧ 60 ∣ c.2 := by
  by_cases hfx : normalizeSymbol symbol ∈ fxSymbols
  · refine ⟨_, closedIntervalsBetween_eq hfx hlt hfrom hto, ?_,
      fun c hc => dvd_of_mem_closedLoop (dvd_mul_left 60 _) hc⟩
    have hend : lastMinute toTs = firstMinute fromTs + 60 *
        ((lastMinute toTs - firstMinute fromTs) / 60).toNat := by
      rw [firstMinute, lastMinute]
      omega
    have hruns := runs_closedLoop symbol ((lastMinute toTs - firstMinute fromTs) / 60).toNat
      (dvd_mul_left 60 (fromTs / 60))
    rw [← firstMinute, ← hend] at hruns
    exact hruns
  · -- the market of another symbol is never closed
    have hopen : ∀ t, t ∉ closed symbol := by
      intro t
      rw [closed, Set.mem_ofPred_eq, isMarketOpen, getMarketState]
      simp only [if_pos hfx]
      split <;> simp
    have hwindow : firstMinute fromTs ≤ lastMinute toTs := by
      rw [firstMinute, lastMinute]
      omega
    exact ⟨[], if_pos hfx, (Span.Runs.nil le_rfl).skip hwindow fun t _ _ => hopen t,
      fun c hc => absurd hc List.not_mem_nil⟩

open Classical in
/-- The closed seconds of a part of the widened window. -/
theorem closedSeconds_eq_sum {symbol : String} {lo hi a b : ℤ} {intervals : List (ℤ × ℤ)}
    (h : Span.Runs (closed symbol) lo hi (intervals.map spanOf)) (hlo : lo ≤ a) (hhi : b ≤ hi) :
    (closedSeconds symbol a b : ℤ) =
      (intervals.map fun c => max 0 (min c.2 b - max c.1 a)).sum := by
  have hcover : (Finset.Ico a b).filter (· ∈ Span.cover (intervals.map spanOf)) =
      (GridWindow.points 1 a b).filter (fun t => (!isMarketOpen symbol t) = true) := by
    ext t
    simp only [Finset.mem_filter, Finset.mem_Ico, GridWindow.mem_points one_pos, h.cover_eq, closed,
      Set.mem_inter_iff, Set.mem_ofPred_eq, Set.mem_Ico, Bool.not_eq_true', one_dvd, true_and]
    constructor
    · rintro ⟨hin, hclosed, -⟩
      exact ⟨hin, hclosed⟩
    · rintro ⟨⟨hle, hlt⟩, hclosed⟩
      exact ⟨⟨hle, hlt⟩, hclosed, hlo.trans hle, hlt.trans_le hhi⟩
  rw [closedSeconds, GridWindow.count, ← hcover, h.ascending.card_filter_cover, List.map_map]
  rfl

/-- The closed time of a window of the calendar. -/
theorem closedTime (symbol : String) {fromTs toTs : ℤ} (hlt : fromTs < toTs)
    (hfrom : monthStart 12 ≤ 1000000 * fromTs) (hto : 1000000 * toTs < monthStart 120000) :
    ClosedTime symbol fromTs toTs := by
  obtain ⟨intervals, hintervals, hruns, hdvd⟩ := exists_intervals symbol hlt hfrom hto
  have hlo : firstMinute fromTs ≤ fromTs := by
    rw [firstMinute]
    omega
  have hhi : toTs ≤ lastMinute toTs := by
    rw [lastMinute]
    omega
  refine ⟨⟨intervals, hintervals, hruns⟩, ?_, ?_⟩
  · rw [countClosedSecondsInGap, hintervals, Option.map_some, closedSeconds_eq_sum hruns hlo hhi]
    refine congrArg some (congrArg List.sum (List.map_congr_left fun c _ => ?_))
    dsimp only
    split <;> omega
  · refine ⟨_, by rw [countClosedMinutesBetween, hintervals, Option.map_some], ?_⟩
    rw [closedSeconds_eq_sum hruns le_rfl le_rfl, ← List.sum_map_mul_left]
    refine congrArg List.sum (List.map_congr_left fun c hc => ?_)
    obtain ⟨hstart, hend⟩ := hdvd c hc
    have hmem : spanOf c ∈ intervals.map spanOf := List.mem_map_of_mem hc
    have hne : c.1 < c.2 := hruns.ascending.lt _ hmem
    have hin : firstMinute fromTs ≤ c.1 ∧ c.2 ≤ lastMinute toTs :=
      hruns.ascending.bounds (hruns.cover_eq.subset.trans Set.inter_subset_right) hmem
    omega

/-- The closed seconds of a window are those of its parts. -/
theorem closedSeconds_split (symbol : String) {a mid b : ℤ} (hlo : a ≤ mid) (hhi : mid ≤ b) :
    closedSeconds symbol a b = closedSeconds symbol a mid + closedSeconds symbol mid b :=
  (GridWindow.count_add_count one_pos _ hlo hhi).symm

theorem closedSeconds_le (symbol : String) {a b : ℤ} (h : a ≤ b) :
    (closedSeconds symbol a b : ℤ) ≤ b - a := by
  have hcard : (GridWindow.points 1 a b).card = (b - a).toNat := by
    rw [GridWindow.card_points one_pos, GridWindow.index, GridWindow.index]
    omega
  have hle : closedSeconds symbol a b ≤ (GridWindow.points 1 a b).card := by
    rw [closedSeconds, GridWindow.count]
    exact Finset.card_filter_le _ _
  omega

/-- The closed time of a window of the calendar is found out: the closed intervals are the maximal ones
of the widened window, the closed seconds are exact and add up over the parts of a window, and the
closed minutes are those of the widened window.  They exceed the closed seconds by no more than what the
window is widened by, and add up over parts that are split at a full minute. -/
theorem closedTime_spec (symbol : String) (fromTs toTs : ℤ) (hlt : fromTs < toTs)
    (hfrom : monthStart 12 ≤ 1000000 * fromTs) (hto : 1000000 * toTs < monthStart 120000) :
    ClosedTime symbol fromTs toTs ∧
    (∀ minutes, countClosedMinutesBetween symbol fromTs toTs = some minutes →
      (closedSeconds symbol fromTs toTs : ℤ) ≤ 60 * minutes ∧
      60 * minutes ≤ closedSeconds symbol fromTs toTs +
        ((fromTs - firstMinute fromTs) + (lastMinute toTs - toTs))) ∧
    ∀ mid, fromTs < mid → mid < toTs →
      (∃ a b, countClosedSecondsInGap symbol fromTs mid = some a ∧
        countClosedSecondsInGap symbol mid toTs = some b ∧
        countClosedSecondsInGap symbol fromTs toTs = some (a + b)) ∧
      (60 ∣ mid → ∃ a b, countClosedMinutesBetween symbol fromTs mid = some a ∧
        countClosedMinutesBetween symbol mid toTs = some b ∧
        countClosedMinutesBetween symbol fromTs toTs = some (a + b)) := by
  have htime := closedTime symbol hlt hfrom hto
  have hlo : firstMinute fromTs ≤ fromTs := by
    rw [firstMinute]
    omega
  have hhi : toTs ≤ lastMinute toTs := by
    rw [lastMinute]
    omega
  obtain ⟨total, htotal, hminutes⟩ := htime.minutes
  refine ⟨htime, fun minutes h => ?_, fun mid hfirst hsecond => ?_⟩
  · obtain rfl : total = minutes := Option.some.inj (htotal.symm.trans h)
    have hbefore := closedSeconds_le symbol hlo
    have hafter := closedSeconds_le symbol hhi
    have hsplit := closedSeconds_split symbol hlo (hlt.le.trans hhi)
    have hsplit' := closedSeconds_split symbol hlt.le hhi
    omega
  · have hleft := closedTime symbol hfirst hfrom (by omega)
    have hright := closedTime symbol hsecond (by omega) hto
    refine ⟨⟨_, _, hleft.seconds, hright.seconds, ?_⟩, fun hmid => ?_⟩
    · rw [htime.seconds, closedSeconds_split symbol hfirst.le hsecond.le]
      push_cast
      rfl
    · obtain ⟨a, ha, hsixty⟩ := hleft.minutes
      obtain ⟨b, hb, hsixty'⟩ := hright.minutes
      -- the parts of the widened window meet at the minute of the split
      have hmeet : lastMinute mid = mid ∧ firstMinute mid = mid := by
        rw [lastMinute, firstMinute]
        omega
      rw [hmeet.1] at hsixty
      rw [hmeet.2] at hsixty'
      have hsplit := closedSeconds_split symbol (hlo.trans hfirst.le) (hsecond.le.trans hhi)
      have hsum : total = a + b := by omega
      exact ⟨a, b, ha, hb, hsum ▸ htotal⟩

/-- A window of two seconds on a Saturday, from one minute into the next. -/
theorem closedTime_spec_saturday : ClosedTime "EURUSD" 172859 172861 :=
  (closedTime_spec "EURUSD" 172859 172861 (by decide) (by decide +kernel) (by decide +kernel)).1

theorem closedLoop_saturday :
    closedLoop (isMarketOpen "EURUSD") 2 172800 = [(172800, 172920)] := by
  have hfirst : isMarketOpen "EURUSD" 172800 = false := by decide
  have hsecond : isMarketOpen "EURUSD" 172860 = false := by decide
  simp [closedLoop, skipClosed, hfirst, hsecond]

/-- The closed interval of the two seconds is two minutes long, and begins before them and ends after
them: the two closed minutes are more than the two closed seconds and a minute.  The two minutes
themselves, split after thirty seconds, have three closed minutes. -/
theorem two_seconds_widened :
    closedIntervalsBetween "EURUSD" 172859 172861 = some [(172800, 172920)] ∧
    countClosedSecondsInGap "EURUSD" 172859 172861 = some 2 ∧
    countClosedMinutesBetween "EURUSD" 172859 172861 = some 2 ∧
    countClosedMinutesBetween "EURUSD" 172800 172830 = some 1 ∧
    countClosedMinutesBetween "EURUSD" 172830 172920 = some 2 ∧
    countClosedMinutesBetween "EURUSD" 172800 172920 = some 2 := by
  have hfx : normalizeSymbol "EURUSD" ∈ fxSymbols := by decide
  have hmin : monthStart 12 ≤ 1000000 * 172800 := by decide +kernel
  have hmax : 1000000 * 172920 < monthStart 120000 := by decide +kernel
  have hintervals : closedIntervalsBetween "EURUSD" 172859 172861 = some [(172800, 172920)] :=
    (closedIntervalsBetween_eq hfx (by decide) (by omega) (by omega)).trans
      (congrArg some closedLoop_saturday)
  have hfirst : closedIntervalsBetween "EURUSD" 172800 172830 = some [(172800, 172860)] := by
    refine (closedIntervalsBetween_eq hfx (by decide) (by omega) (by omega)).trans ?_
    have hclosed : isMarketOpen "EURUSD" 172800 = false := by decide
    simp [firstMinute, lastMinute, closedLoop, skipClosed, hclosed]
  have hboth : closedIntervalsBetween "EURUSD" 172830 172920 = some [(172800, 172920)] :=
    (closedIntervalsBetween_eq hfx (by decide) (by omega) (by omega)).trans
      (congrArg some closedLoop_saturday)
  have hall : closedIntervalsBetween "EURUSD" 172800 172920 = some [(172800, 172920)] :=
    (closedIntervalsBetween_eq hfx (by decide) (by omega) (by omega)).trans
      (congrArg some closedLoop_saturday)
  simp [countClosedSecondsInGap, countClosedMinutesBetween, hintervals, hfirst, hboth, hall]

end Fx245
