/-
**Trades of the lab's backtest.**

Every trade of a backtest was opened at the open of a bar, was kept as long as there was no reason
to close it, and was closed at the first bar at which there was one, or at the end.  What the
execution contract says of the trades is compared with that.

Main definitions:

* `LabRunner.HeldAt`, `LabRunner.Opened`, `LabRunner.Kept` — positions in a run;
* `LabRunner.Closed`, `LabRunner.Ended` — how a trade comes about;
* `LabRunner.Honoured` — a trade is closed at the first bar whose range reaches a level;
* `LabRunner.IsCutoff`, `LabRunner.FirstFrom` — Friday's exit hour, and the first bar from it on.

Main results:

* `LabRunner.sound_after` — the positions and the trades of a state;
* `LabRunner.mem_simulateTrades`, `LabRunner.exists_trade_of_heldAt` — trades and positions;
* `LabRunner.noLookAhead` — what is decided before a bar does not depend on it;
* `LabRunner.honoured_iff` — when the levels are honoured from the entry's bar on;
* `LabRunner.cutoff_iff` — when no position is held past Friday's exit hour;
* `LabRunner.entries_follow_exits` — the order of the trades;
* `LabRunner.fills_spec` — the prices of the trades.
-/

import Brokerage.LabBacktest

set_option relaxedAutoImplicit false
set_option autoImplicit false

namespace LabRunner

variable {tz : ZoneInfo} {cfg : Config} {bars : List Bar}

/-! ### Runs -/

theorem after_succ {i : ℕ} {st' : State} (h : after tz cfg bars (i + 1) = some st') :
    ∃ st mid, after tz cfg bars i = some st ∧ exitStep tz cfg bars (i + 1) st = some mid ∧
      entryStep tz cfg bars (i + 1) mid = st' := by
  rw [after, Option.bind_eq_some_iff] at h
  obtain ⟨st, hst, hstep⟩ := h
  obtain ⟨mid, hmid, hentry⟩ := Option.map_eq_some_iff.1 hstep
  exact ⟨st, mid, hst, hmid, hentry⟩

/-- What the exits and the entry of every bar keep holds after each bar. -/
theorem after_invariant {P : ℕ → State → Prop} (hstart : P 0 State.start)
    (hstep : ∀ i st mid, after tz cfg bars i = some st → P i st →
      exitStep tz cfg bars (i + 1) st = some mid →
        after tz cfg bars (i + 1) = some (entryStep tz cfg bars (i + 1) mid) →
          P (i + 1) (entryStep tz cfg bars (i + 1) mid))
    {i : ℕ} {st : State} (h : after tz cfg bars i = some st) : P i st := by
  induction i generalizing st with
  | zero =>
      cases h
      exact hstart
  | succ i ih =>
      obtain ⟨prev, mid, hprev, hmid, rfl⟩ := after_succ h
      exact hstep i prev mid hprev (ih hprev) hmid h

/-- A run that comes to a bar has come to the bars before. -/
theorem exists_after {i j : ℕ} (hij : i ≤ j) {st : State} (h : after tz cfg bars j = some st) :
    ∃ st', after tz cfg bars i = some st' := by
  induction j, hij using Nat.le_induction generalizing st with
  | base => exact ⟨st, h⟩
  | succ j _ ih =>
      obtain ⟨prev, -, hprev, -⟩ := after_succ h
      exact ih hprev

/-- Trades are added at the end, with the bar at which they are closed. -/
theorem trades_after {i j : ℕ} (hij : i ≤ j) {st st' : State} (h : after tz cfg bars i = some st)
    (h' : after tz cfg bars j = some st') :
    ∃ later, st'.trades = st.trades ++ later ∧ ∀ t ∈ later, i < t.exitBar := by
  induction j, hij using Nat.le_induction generalizing st' with
  | base =>
      rw [h] at h'
      cases h'
      exact ⟨[], (List.append_nil _).symm, fun _ h => absurd h List.not_mem_nil⟩
  | succ j hij ih =>
      obtain ⟨prev, mid, hprev, hmid, rfl⟩ := after_succ h'
      obtain ⟨later, hlater, hbar⟩ := ih hprev
      rw [(entryStep_spec (j + 1) mid).2.1]
      rcases exitStep_cases hmid with ⟨rfl, -⟩ | ⟨p, reason, price, -, -, rfl⟩
      · exact ⟨later, hlater, hbar⟩
      · refine ⟨later ++ [⟨p, j + 1, price, reason⟩], ?_, fun t ht => ?_⟩
        · rw [hlater, List.append_assoc]
        · rcases List.mem_append.1 ht with ht | ht
          · exact hbar t ht
          · obtain rfl := List.mem_singleton.1 ht
            exact Nat.lt_succ_of_le hij

/-! ### Positions and trades -/

variable (tz cfg bars)

/-- A position is open after a bar. -/
def HeldAt (p : Position) (i : ℕ) : Prop :=
  ∃ st, after tz cfg bars i = some st ∧ st.position = some p

/-- The position that is opened at a bar, in the state before the bar. -/
def opensAt (i : ℕ) (st : State) : Option Position :=
  (exitStep tz cfg bars i st).bind (entryAt tz cfg bars i)

/-- A position is opened at its bar. -/
def Opened (p : Position) : Prop :=
  ∃ i st, p.entryBar = i + 1 ∧ after tz cfg bars i = some st ∧ opensAt tz cfg bars (i + 1) st = some p

/-- A position is opened, and not closed up to a bar. -/
structure Kept (p : Position) (i : ℕ) : Prop where
  opened : Opened tz cfg bars p
  le : p.entryBar ≤ i
  held : ∀ j, p.entryBar ≤ j → j ≤ i → HeldAt tz cfg bars p j
  noExit : ∀ j, p.entryBar < j → j ≤ i → exitAt tz cfg bars p j = none

/-- A trade is closed at the first bar at which there is a reason. -/
structure Closed (t : Trade) : Prop where
  lt : t.position.entryBar < t.exitBar
  kept : Kept tz cfg bars t.position (t.exitBar - 1)
  exit : exitAt tz cfg bars t.position t.exitBar = some (t.reason, t.exitPrice)

/-- A trade is closed after the last bar. -/
structure Ended (t : Trade) : Prop where
  kept : Kept tz cfg bars t.position t.exitBar
  exitBar : t.exitBar = lastBar bars
  exitPrice : t.exitPrice = (barAt bars t.exitBar).close
  reason : t.reason = .endOfRange

/-- The positions and the trades of a state. -/
structure Sound (i : ℕ) (st : State) : Prop where
  position : ∀ p, st.position = some p → Kept tz cfg bars p i
  trades : ∀ t ∈ st.trades, Closed tz cfg bars t ∧ t.exitBar ≤ i

variable {tz cfg bars}

theorem Opened.newPosition {p : Position} (h : Opened tz cfg bars p) :
    1 ≤ p.entryBar ∧ LabRunner.newPosition cfg bars p.entryBar = some p := by
  obtain ⟨i, st, hi, -, hopens⟩ := h
  obtain ⟨mid, -, hentry⟩ := Option.bind_eq_some_iff.1 hopens
  rw [hi]
  exact ⟨Nat.succ_pos i, (entryAt_eq_some hentry).2.2⟩

/-- A position that has just been opened is kept. -/
theorem kept_of_entryAt {i : ℕ} {st mid : State} {p : Position} (h : after tz cfg bars i = some st)
    (hmid : exitStep tz cfg bars (i + 1) st = some mid)
    (hentry : entryAt tz cfg bars (i + 1) mid = some p)
    (hafter : after tz cfg bars (i + 1) = some (entryStep tz cfg bars (i + 1) mid)) :
    Kept tz cfg bars p (i + 1) := by
  obtain ⟨hnone, -, hnew⟩ := entryAt_eq_some hentry
  have hbar := (newPosition_entry hnew).1
  refine ⟨⟨i, st, hbar, h, ?_⟩, hbar.le, fun j hj hji => ?_, fun j hj hji => by omega⟩
  · rw [opensAt, hmid]
    exact hentry
  · obtain rfl : j = i + 1 := by omega
    refine ⟨_, hafter, ?_⟩
    rw [(entryStep_spec _ mid).1, hnone, Option.none_or, hentry]

/-- After each bar the position is kept, and the trades were closed. -/
theorem sound_after {i : ℕ} {st : State} (h : after tz cfg bars i = some st) :
    Sound tz cfg bars i st := by
  have hstart : Sound tz cfg bars 0 State.start :=
    ⟨fun _ hp => (by cases hp), fun _ ht => absurd ht List.not_mem_nil⟩
  refine after_invariant hstart (fun i st mid hst ih hmid hafter => ?_) h
  obtain ⟨hposition, htrades, -⟩ := @entryStep_spec tz cfg bars (i + 1) mid
  rcases exitStep_cases hmid with ⟨rfl, hnoExit⟩ | ⟨p, reason, price, hp, hexit, rfl⟩
  · refine ⟨fun p hp => ?_, fun t ht => ?_⟩
    · cases hprev : mid.position with
      | none =>
          rw [hposition, hprev, Option.none_or] at hp
          exact kept_of_entryAt hst hmid hp hafter
      | some q =>
          obtain rfl : q = p := by
            rw [hposition, hprev, Option.some_or] at hp
            exact Option.some.inj hp
          have hkept := ih.position q hprev
          refine ⟨hkept.opened, hkept.le.trans i.le_succ, fun j hj hji => ?_, fun j hj hji => ?_⟩
          · rcases Nat.lt_succ_iff_lt_or_eq.1 (Nat.lt_succ_of_le hji) with hlt | rfl
            · exact hkept.held j hj (Nat.le_of_lt_succ hlt)
            · exact ⟨_, hafter, hp⟩
          · rcases Nat.lt_succ_iff_lt_or_eq.1 (Nat.lt_succ_of_le hji) with hlt | rfl
            · exact hkept.noExit j hj (Nat.le_of_lt_succ hlt)
            · exact hnoExit q hprev
    · rw [htrades] at ht
      obtain ⟨hclosed, hle⟩ := ih.trades t ht
      exact ⟨hclosed, hle.trans i.le_succ⟩
  · refine ⟨fun q hq => ?_, fun t ht => ?_⟩
    · rw [hposition, Option.none_or] at hq
      exact kept_of_entryAt hst hmid hq hafter
    · rw [htrades] at ht
      rcases List.mem_append.1 ht with ht | ht
      · obtain ⟨hclosed, hle⟩ := ih.trades t ht
        exact ⟨hclosed, hle.trans i.le_succ⟩
      · obtain rfl := List.mem_singleton.1 ht
        have hkept := ih.position p hp
        exact ⟨⟨Nat.lt_succ_of_le hkept.le, hkept, hexit⟩, le_rfl⟩

/-- A backtest that does not raise has gone through all its bars. -/
theorem simulateTrades_eq_some {trades : List Trade} (h : simulateTrades tz cfg bars = some trades) :
    ∃ st, after tz cfg bars (lastBar bars) = some st ∧
      (st.position = none ∧ trades = st.trades ∨
        ∃ p, st.position = some p ∧ trades = st.trades ++
          [⟨p, lastBar bars, (barAt bars (lastBar bars)).close, .endOfRange⟩]) := by
  obtain ⟨st, hst, hclose⟩ := Option.bind_eq_some_iff.1 h
  refine ⟨st, hst, ?_⟩
  rw [closeAtEnd] at hclose
  cases hposition : st.position with
  | none =>
      rw [hposition] at hclose
      exact .inl ⟨rfl, (Option.some.inj hclose).symm⟩
  | some p =>
      rw [hposition] at hclose
      dsimp only at hclose
      split at hclose
      · cases hclose
      · exact .inr ⟨p, rfl, (Option.some.inj hclose).symm⟩

/-- Every trade was closed at the first bar at which there was a reason, or after the last bar. -/
theorem mem_simulateTrades {trades : List Trade} (h : simulateTrades tz cfg bars = some trades)
    {t : Trade} (ht : t ∈ trades) :
    t.exitBar ≤ lastBar bars ∧ (Closed tz cfg bars t ∨ Ended tz cfg bars t) := by
  obtain ⟨st, hst, ⟨-, rfl⟩ | ⟨p, hp, rfl⟩⟩ := simulateTrades_eq_some h
  · obtain ⟨hclosed, hle⟩ := (sound_after hst).trades t ht
    exact ⟨hle, .inl hclosed⟩
  · rcases List.mem_append.1 ht with ht | ht
    · obtain ⟨hclosed, hle⟩ := (sound_after hst).trades t ht
      exact ⟨hle, .inl hclosed⟩
    · obtain rfl := List.mem_singleton.1 ht
      exact ⟨le_rfl, .inr ⟨(sound_after hst).position p hp, rfl, rfl, rfl⟩⟩

/-- A position that is held is held on, or closed later. -/
theorem heldAt_until {p : Position} {i j : ℕ} (h : HeldAt tz cfg bars p i) (hij : i ≤ j) {st : State}
    (hst : after tz cfg bars j = some st) :
    st.position = some p ∨ ∃ t ∈ st.trades, t.position = p ∧ i < t.exitBar := by
  induction j, hij using Nat.le_induction generalizing st with
  | base =>
      obtain ⟨st', hst', hp⟩ := h
      rw [hst'] at hst
      cases hst
      exact .inl hp
  | succ j hij ih =>
      obtain ⟨prev, mid, hprev, hmid, rfl⟩ := after_succ hst
      obtain ⟨hposition, htrades, -⟩ :=
        @entryStep_spec tz cfg bars (j + 1) mid
      rw [hposition, htrades]
      rcases exitStep_cases hmid with ⟨rfl, -⟩ | ⟨q, reason, price, hq, -, rfl⟩
      · rcases ih hprev with hp | htrade
        · exact .inl (by rw [hp, Option.some_or])
        · exact .inr htrade
      · refine .inr ?_
        rcases ih hprev with hp | ⟨t, ht, htp⟩
        · rw [hq] at hp
          obtain rfl := Option.some.inj hp
          exact ⟨_, List.mem_append_right _ (List.mem_singleton_self _), rfl, Nat.lt_succ_of_le hij⟩
        · exact ⟨t, List.mem_append_left _ ht, htp⟩

/-- A position that is held before the last bar becomes a trade that is closed later. -/
theorem exists_trade_of_heldAt {trades : List Trade} (h : simulateTrades tz cfg bars = some trades)
    {p : Position} {i : ℕ} (hp : HeldAt tz cfg bars p i) (hi : i < lastBar bars) :
    ∃ t ∈ trades, t.position = p ∧ i < t.exitBar := by
  obtain ⟨st, hst, hend⟩ := simulateTrades_eq_some h
  rcases heldAt_until hp hi.le hst with hheld | ⟨t, ht, htp⟩
  · rcases hend with ⟨hnone, -⟩ | ⟨q, hq, rfl⟩
    · rw [hheld] at hnone
      cases hnone
    · rw [hheld] at hq
      obtain rfl := Option.some.inj hq
      exact ⟨_, List.mem_append_right _ (List.mem_singleton_self _), rfl, hi⟩
  · refine ⟨t, ?_, htp⟩
    rcases hend with ⟨-, rfl⟩ | ⟨q, -, rfl⟩
    · exact ht
    · exact List.mem_append_left _ ht

/-- The position of a trade is held from its bar to the bar before its exit. -/
theorem heldAt_of_mem {trades : List Trade} (h : simulateTrades tz cfg bars = some trades) {t : Trade}
    (ht : t ∈ trades) {j : ℕ} (hentry : t.position.entryBar ≤ j) (hexit : j < t.exitBar) :
    HeldAt tz cfg bars t.position j := by
  rcases (mem_simulateTrades h ht).2 with hclosed | hended
  · exact hclosed.kept.held j hentry (Nat.le_sub_one_of_lt hexit)
  · exact hended.kept.held j hentry hexit.le

/-- Between the two bars of a trade there is no reason to close it. -/
theorem noExit_of_mem {trades : List Trade} (h : simulateTrades tz cfg bars = some trades) {t : Trade}
    (ht : t ∈ trades) {j : ℕ} (hentry : t.position.entryBar < j) (hexit : j < t.exitBar) :
    exitAt tz cfg bars t.position j = none := by
  rcases (mem_simulateTrades h ht).2 with hclosed | hended
  · exact hclosed.kept.noExit j hentry (Nat.le_sub_one_of_lt hexit)
  · exact hended.kept.noExit j hentry hexit.le

/-! ### Two small series -/

/-- New York in winter. -/
def winter : ZoneInfo where
  newYork _ _ := -18000
  offsetAt _ := -18000
  foldAt _ := false

/-- A bar that starts some hours after Thursday, 11 January 2024, 14:00 UTC: its four prices, its
signal and its ATR. -/
def hourBar (hour : ℤ) (open_ high low close : ℚ) (signal : ℤ) (atr : Option ℚ) : Bar :=
  ⟨1704981600 + 3600 * hour, open_, high, low, close, signal, atr⟩

/-! ### What is decided before a bar -/

/-- A trade that was closed before a bar, and not because the bars ended. -/
def decidedBefore (k : ℕ) (t : Trade) : Bool := t.exitBar < k && t.reason ≠ .endOfRange

/-- The trades that are decided before a bar are those in the state after the bar before. -/
theorem filter_decidedBefore {trades : List Trade} (h : simulateTrades tz cfg bars = some trades)
    {k : ℕ} (hk : k < bars.length) {st : State} (hst : after tz cfg bars k = some st) :
    trades.filter (decidedBefore (k + 1)) = st.trades := by
  obtain ⟨last, hlast, hend⟩ := simulateTrades_eq_some h
  obtain ⟨later, hlater, hbar⟩ :=
    trades_after (show k ≤ lastBar bars from Nat.le_sub_one_of_lt hk) hst hlast
  have hkeep : st.trades.filter (decidedBefore (k + 1)) = st.trades := by
    refine List.filter_eq_self.2 fun t ht => ?_
    obtain ⟨hclosed, hle⟩ := (sound_after hst).trades t ht
    have hreason : t.reason ≠ .endOfRange := by
      rcases exitAt_eq_some hclosed.exit with ⟨h, -⟩ | ⟨h, -⟩ | ⟨h, -⟩ | ⟨h, -⟩ <;> simp [h]
    simp [decidedBefore, Nat.lt_succ_of_le hle, hreason]
  have hdrop : later.filter (decidedBefore (k + 1)) = [] := by
    refine List.filter_eq_nil_iff.2 fun t ht => ?_
    have := hbar t ht
    simp [decidedBefore, Nat.not_lt.2 (Nat.succ_le_of_lt this)]
  rcases hend with ⟨-, rfl⟩ | ⟨p, -, rfl⟩
  · rw [hlater, List.filter_append, hkeep, hdrop, List.append_nil]
  · rw [hlater, List.filter_append, List.filter_append, hkeep, hdrop, List.append_nil]
    simp [decidedBefore]

/-- The state after a bar, and the trades that are decided before the next one, are the same in two
backtests whose bars are the same up to it. -/
theorem noLookAhead {bars' : List Bar} {k : ℕ} (h : bars.take k = bars'.take k) :
    after tz cfg bars (k - 1) = after tz cfg bars' (k - 1) ∧
      ∀ trades trades', simulateTrades tz cfg bars = some trades →
        simulateTrades tz cfg bars' = some trades' →
          trades.filter (decidedBefore k) = trades'.filter (decidedBefore k) := by
  cases k with
  | zero =>
      refine ⟨rfl, fun trades trades' _ _ => ?_⟩
      have hnone : ∀ l : List Trade, l.filter (decidedBefore 0) = [] := fun l =>
        List.filter_eq_nil_iff.2 fun t _ => by simp [decidedBefore]
      rw [hnone, hnone]
  | succ k =>
      have hget : ∀ j < k + 1, bars[j]? = bars'[j]? := fun j hj => by
        rw [← List.getElem?_take_of_lt hj, h, List.getElem?_take_of_lt hj]
      have hafter : after tz cfg bars k = after tz cfg bars' k := after_congr hget k.lt_succ_self
      refine ⟨hafter, fun trades trades' htrades htrades' => ?_⟩
      have hlength := congrArg List.length h
      rw [List.length_take, List.length_take] at hlength
      by_cases hk : k < bars.length
      · have hk' : k < bars'.length := by omega
        obtain ⟨last, hlast, -⟩ := simulateTrades_eq_some htrades
        obtain ⟨st, hst⟩ := exists_after (Nat.le_sub_one_of_lt hk) hlast
        rw [filter_decidedBefore htrades hk hst, filter_decidedBefore htrades' hk' (hafter ▸ hst)]
      · -- there are no other bars
        rw [List.take_of_length_le (by omega), List.take_of_length_le (by omega)] at h
        subst h
        rw [htrades] at htrades'
        rw [Option.some.inj htrades']

/-- A signal, and the bar that it opens a trade at. -/
def twoBars : List Bar := [hourBar 0 100 101 99 100 1 none, hourBar 1 100 101 99 102 0 none]

/-- One bar more. -/
def threeBars : List Bar := twoBars ++ [hourBar 2 100 101 99 100 0 none]

/-- A trade that is closed because the bars end is not closed if there is one more. -/
theorem twoBars_ended :
    ¬ ∀ (bars bars' : List Bar) (k : ℕ) (trades trades' : List Trade),
      bars.take k = bars'.take k → simulateTrades winter {} bars = some trades →
        simulateTrades winter {} bars' = some trades' →
          trades.filter (fun t => t.exitBar < k) = trades'.filter fun t => t.exitBar < k := by
  intro h
  have hsame := h twoBars threeBars 2 [⟨⟨1, 100, none, none⟩, 1, 102, .endOfRange⟩]
    [⟨⟨1, 100, none, none⟩, 2, 100, .endOfRange⟩] rfl rfl rfl
  revert hsame
  decide

theorem noLookAhead_threeBars :
    after winter {} twoBars 1 = after winter {} threeBars 1 ∧
      [(⟨⟨1, 100, none, none⟩, 1, 102, .endOfRange⟩ : Trade)].filter (decidedBefore 2) =
        [(⟨⟨1, 100, none, none⟩, 2, 100, .endOfRange⟩ : Trade)].filter (decidedBefore 2) :=
  have h := @noLookAhead winter {} twoBars threeBars 2 rfl
  ⟨h.1, h.2 _ _ rfl rfl⟩

/-! ### Levels -/

variable (bars) in
/-- A trade is closed at the first bar, from its entry's bar on, whose range reaches a level. -/
def Honoured (t : Trade) : Prop :=
  ∀ j, t.position.entryBar ≤ j → j < bars.length → Reaches t.position (barAt bars j) → t.exitBar ≤ j

/-- A trade is opened at 100 with a stop-loss of 90, and the bar's low is 85. -/
def stoppedAtOnce : List Bar :=
  [hourBar 0 100 101 99 100 1 (some 10), hourBar 1 100 101 85 100 0 (some 10),
    hourBar 2 100 101 99 100 0 (some 10), hourBar 3 100 101 99 100 0 (some 10)]

theorem stoppedAtOnce_trades : simulateTrades winter { ttlBars := 2, slAtrCoef := 1 } stoppedAtOnce =
    some [⟨⟨1, 100, some 90, none⟩, 3, 100, .ttl⟩] := by
  decide +kernel

variable (tz cfg) in
/-- New York's clocks show the exit hour of a Friday at an instant. -/
def IsCutoff (u : ℤ) : Prop :=
  weekdayOf (tz.reading u) = 4 ∧
    tz.reading u % dayMicros = 60 * minuteMicros * cfg.exitOnFridayHourNy

variable (bars) in
/-- A bar is the first one from an instant on. -/
def FirstFrom (b : ℕ) (u : ℤ) : Prop :=
  b < bars.length ∧ u ≤ 1000000 * (barAt bars b).ts ∧ ∀ j < b, 1000000 * (barAt bars j).ts < u

/-- A position that is held before a bar becomes a trade that is closed at the bar or later. -/
theorem exists_trade_at {trades : List Trade} (h : simulateTrades tz cfg bars = some trades)
    {p : Position} {i : ℕ} {u : ℤ} (hfirst : FirstFrom bars (i + 1) u) (hp : HeldAt tz cfg bars p i) :
    ∃ t ∈ trades, t.position = p ∧ p.entryBar < i + 1 ∧ i + 1 ≤ t.exitBar := by
  have hi : i < lastBar bars := by
    have := hfirst.1
    rw [lastBar]
    omega
  obtain ⟨t, ht, htp, hexit⟩ := exists_trade_of_heldAt h hp hi
  obtain ⟨st, hst, hposition⟩ := hp
  exact ⟨t, ht, htp, Nat.lt_succ_of_le ((sound_after hst).position p hposition).le, hexit⟩

/-- No trade is open past the first bar from Friday's exit hour on exactly if that bar, where a
position is held before it, is one of Friday, or ends the time to live, or reaches a level, or is
the last one. -/
theorem closed_at_first_iff {trades : List Trade} (h : simulateTrades tz cfg bars = some trades) :
    (∀ t ∈ trades, ∀ u b, IsCutoff tz cfg u → FirstFrom bars b u → t.position.entryBar < b →
        t.exitBar ≤ b) ↔
      ∀ u i p, IsCutoff tz cfg u → FirstFrom bars (i + 1) u → HeldAt tz cfg bars p i →
        isFriExit tz cfg bars (i + 1) = true ∨ ttlDue cfg p (i + 1) = true ∨
          Reaches p (barAt bars (i + 1)) ∨ i + 1 = lastBar bars := by
  constructor
  · intro hclosed u i p hu hfirst hp
    obtain ⟨t, ht, rfl, hentry, hle⟩ := exists_trade_at h hfirst hp
    have hexit : t.exitBar = i + 1 := le_antisymm (hclosed t ht u (i + 1) hu hfirst hentry) hle
    rcases (mem_simulateTrades h ht).2 with hclosed | hended
    · have hreason := exitAt_eq_some hclosed.exit
      rw [hexit] at hreason
      rcases hreason with ⟨-, hfri, -⟩ | ⟨-, httl, -⟩ | ⟨-, hsl, hlow⟩ | ⟨-, htp, hhigh⟩
      · exact .inl hfri
      · exact .inr (.inl httl)
      · exact .inr (.inr (.inl (.inl ⟨_, hsl, hlow⟩)))
      · exact .inr (.inr (.inl (.inr ⟨_, htp, hhigh⟩)))
    · exact .inr (.inr (.inr (hexit.symm.trans hended.exitBar)))
  · intro hreasons t ht u b hu hfirst hentry
    by_contra hexit
    rw [Nat.not_le] at hexit
    obtain ⟨i, rfl⟩ := Nat.exists_eq_succ_of_ne_zero (Nat.ne_zero_of_lt hentry)
    have hheld := heldAt_of_mem h ht (Nat.le_of_lt_succ hentry) (Nat.lt_of_succ_lt hexit)
    obtain ⟨hfri, httl, hnot⟩ := (exitAt_eq_none_iff _ _).1 (noExit_of_mem h ht hentry hexit)
    rcases hreasons u i _ hu hfirst hheld with hyes | hyes | hyes | hlast
    · rw [hfri] at hyes
      cases hyes
    · rw [httl] at hyes
      cases hyes
    · exact hnot hyes
    · have := (mem_simulateTrades h ht).1
      omega

/-- A trade is closed at an open for a Friday exit, or because its time to live ends there. -/
theorem Closed.reason_iff {t : Trade} (h : Closed tz cfg bars t) :
    (t.reason = .fridayExit ∨ t.reason = .ttl) ↔
      isFriExit tz cfg bars t.exitBar = true ∨ ttlDue cfg t.position t.exitBar = true := by
  have hexit := h.exit
  constructor
  · intro hreason
    rcases exitAt_eq_some hexit with ⟨-, hfri, -⟩ | ⟨-, httl, -⟩ | ⟨hsl, -⟩ | ⟨htp, -⟩
    · exact .inl hfri
    · exact .inr httl
    · rw [hsl] at hreason
      rcases hreason with hreason | hreason <;> cases hreason
    · rw [htp] at hreason
      rcases hreason with hreason | hreason <;> cases hreason
  · intro hyes
    rw [exitAt] at hexit
    cases hfri : isFriExit tz cfg bars t.exitBar with
    | true =>
        rw [hfri, if_pos rfl] at hexit
        exact .inl (Prod.mk.inj (Option.some.inj hexit)).1.symm
    | false =>
        rw [hfri] at hyes
        have httl := hyes.resolve_left Bool.false_ne_true
        rw [hfri, if_neg Bool.false_ne_true, if_pos httl] at hexit
        exact .inr (Prod.mk.inj (Option.some.inj hexit)).1.symm

/-- No trade is open after the open of the first bar from Friday's exit hour on exactly if that bar,
where a position is held before it, is one of Friday, or ends the time to live. -/
theorem closed_at_open_iff {trades : List Trade} (h : simulateTrades tz cfg bars = some trades) :
    (∀ t ∈ trades, ∀ u b, IsCutoff tz cfg u → FirstFrom bars b u → t.position.entryBar < b →
        t.exitBar < b ∨ t.exitBar = b ∧ (t.reason = .fridayExit ∨ t.reason = .ttl)) ↔
      ∀ u i p, IsCutoff tz cfg u → FirstFrom bars (i + 1) u → HeldAt tz cfg bars p i →
        isFriExit tz cfg bars (i + 1) = true ∨ ttlDue cfg p (i + 1) = true := by
  constructor
  · intro hclosed u i p hu hfirst hp
    obtain ⟨t, ht, rfl, hentry, hle⟩ := exists_trade_at h hfirst hp
    obtain ⟨hexit, hreason⟩ :=
      (hclosed t ht u (i + 1) hu hfirst hentry).resolve_left (Nat.not_lt.2 hle)
    rcases (mem_simulateTrades h ht).2 with hclosed | hended
    · rw [← hexit]
      exact hclosed.reason_iff.1 hreason
    · rw [hended.reason] at hreason
      rcases hreason with hreason | hreason <;> cases hreason
  · intro hreasons t ht u b hu hfirst hentry
    by_cases hexit : t.exitBar < b
    · exact .inl hexit
    rw [Nat.not_lt] at hexit
    obtain ⟨i, rfl⟩ := Nat.exists_eq_succ_of_ne_zero (Nat.ne_zero_of_lt hentry)
    have hheld := heldAt_of_mem h ht (Nat.le_of_lt_succ hentry) hexit
    have hyes := hreasons u i _ hu hfirst hheld
    have hsome : exitAt tz cfg bars t.position (i + 1) ≠ none := by
      rw [Ne, exitAt_eq_none_iff]
      rintro ⟨hfri, httl, -⟩
      rw [hfri, httl] at hyes
      rcases hyes with hyes | hyes <;> cases hyes
    have hbar : t.exitBar = i + 1 := by
      by_contra hne
      exact hsome (noExit_of_mem h ht hentry (lt_of_le_of_ne hexit (Ne.symm hne)))
    refine .inr ⟨hbar, ?_⟩
    rcases (mem_simulateTrades h ht).2 with hclosed | hended
    · rw [← hbar] at hyes
      exact hclosed.reason_iff.2 hyes
    · exact absurd (hended.kept.noExit (i + 1) hentry hbar.ge) hsome

/-- Friday, two to four in the afternoon in New York, and from Sunday, five in the afternoon, on. -/
def weekend : List Bar :=
  [hourBar 29 100 101 99 100 1 none, hourBar 30 100 101 99 100 0 none,
    hourBar 31 100 101 99 100 0 none, hourBar 80 100 101 99 100 0 none,
    hourBar 81 100 101 99 100 0 none, hourBar 82 100 101 99 100 0 none]

theorem weekend_trades : simulateTrades winter { exitOnFriday := true } weekend =
    some [⟨⟨1, 100, none, none⟩, 5, 100, .endOfRange⟩] := rfl

/-- A trade that is opened at a bar does not come before the exit of another: it is opened at the
bar of that exit or later, and later if that was a Friday's exit. -/
def Follows (a : Trade) (p : Position) : Prop :=
  a.exitBar ≤ p.entryBar ∧ (a.reason = .fridayExit → a.exitBar < p.entryBar)

/-- The trades that were closed before a position is opened come before it. -/
theorem follows_of_entryAt {i : ℕ} {mid : State} {p : Position} {a : Trade}
    (hentry : entryAt tz cfg bars i mid = some p) (ha : Closed tz cfg bars a) (hle : a.exitBar ≤ i) :
    Follows a p := by
  obtain ⟨-, hfri, hnew⟩ := entryAt_eq_some hentry
  rw [Follows, (newPosition_entry hnew).1]
  refine ⟨hle, fun hreason => lt_of_le_of_ne hle ?_⟩
  rintro rfl
  rcases exitAt_eq_some ha.exit with ⟨-, hyes, -⟩ | ⟨hno, -⟩ | ⟨hno, -⟩ | ⟨hno, -⟩
  · rw [hfri] at hyes
    cases hyes
  all_goals
    rw [hreason] at hno
    cases hno

theorem follows_after {i : ℕ} {st : State} (h : after tz cfg bars i = some st) :
    st.trades.Pairwise (fun a b => Follows a b.position) ∧
      ∀ p, st.position = some p → ∀ a ∈ st.trades, Follows a p := by
  refine after_invariant (P := fun _ st => st.trades.Pairwise (fun a b => Follows a b.position) ∧
    ∀ p, st.position = some p → ∀ a ∈ st.trades, Follows a p) ⟨List.Pairwise.nil, nofun⟩ ?_ h
  intro i st mid hst ih hmid hafter
  obtain ⟨hposition, htrades, -⟩ := @entryStep_spec tz cfg bars (i + 1) mid
  have hsound := sound_after hafter
  rw [htrades, hposition]
  have hentered : ∀ p, entryAt tz cfg bars (i + 1) mid = some p → ∀ a ∈ mid.trades, Follows a p := by
    intro p hp a ha
    obtain ⟨hclosed, hle⟩ := hsound.trades a (htrades ▸ ha)
    exact follows_of_entryAt hp hclosed hle
  rcases exitStep_cases hmid with ⟨rfl, -⟩ | ⟨q, reason, price, hq, -, rfl⟩
  · refine ⟨ih.1, fun p hp => ?_⟩
    cases hprev : mid.position with
    | none =>
        rw [hprev, Option.none_or] at hp
        exact hentered p hp
    | some q =>
        rw [hprev, Option.some_or] at hp
        exact ih.2 p (hprev.trans hp)
  · refine ⟨List.pairwise_append.2 ⟨ih.1, List.pairwise_singleton _ _, fun a ha b hb => ?_⟩,
      fun p hp => ?_⟩
    · obtain rfl := List.mem_singleton.1 hb
      exact ih.2 q hq a ha
    · rw [Option.none_or] at hp
      exact hentered p hp

/-- Of two trades the second one is not opened before the first one is closed: it is opened at the
bar of that exit, which is not a Friday's one, or later. -/
theorem entries_follow_exits {trades : List Trade} (h : simulateTrades tz cfg bars = some trades) :
    trades.Pairwise fun a b => Follows a b.position := by
  obtain ⟨st, hst, ⟨-, rfl⟩ | ⟨p, hp, rfl⟩⟩ := simulateTrades_eq_some h
  · exact (follows_after hst).1
  · refine List.pairwise_append.2 ⟨(follows_after hst).1, List.pairwise_singleton _ _, ?_⟩
    intro a ha b hb
    obtain rfl := List.mem_singleton.1 hb
    exact (follows_after hst).2 p hp a ha

/-- Every bar has a signal. -/
def alwaysSignal : List Bar :=
  [hourBar 0 100 101 99 100 1 none, hourBar 1 100 101 99 100 1 none, hourBar 2 100 101 99 100 1 none]

theorem alwaysSignal_trades : simulateTrades winter { ttlBars := 1 } alwaysSignal =
    some [⟨⟨1, 100, none, none⟩, 2, 100, .ttl⟩, ⟨⟨2, 100, none, none⟩, 2, 100, .endOfRange⟩] := rfl

/-- A trade is opened at the open at which the one before ends its time to live. -/
theorem alwaysSignal_sameOpen :
    ¬ ∀ trades, simulateTrades winter { ttlBars := 1 } alwaysSignal = some trades →
      trades.Pairwise fun a b => a.exitBar < b.position.entryBar := by
  intro h
  have hlt := h _ alwaysSignal_trades
  revert hlt
  decide

theorem entries_follow_exits_alwaysSignal :
    [(⟨⟨1, 100, none, none⟩, 2, 100, .ttl⟩ : Trade),
      ⟨⟨2, 100, none, none⟩, 2, 100, .endOfRange⟩].Pairwise fun a b => Follows a b.position :=
  entries_follow_exits alwaysSignal_trades

/-! ### The prices of the trades -/

/-- The prices of a bar are in its range. -/
def Valid (b : Bar) : Prop := b.low ≤ b.open_ ∧ b.open_ ≤ b.high ∧ b.low ≤ b.close ∧ b.close ≤ b.high

/-- The range of a bar does not come up to a trade's stop-loss, or down to its take-profit, at which
the trade is closed. -/
def Beyond (t : Trade) (b : Bar) : Prop :=
  t.reason = .sl ∧ b.high < t.exitPrice ∨ t.reason = .tp ∧ t.exitPrice < b.low

theorem kept_of_mem {trades : List Trade} (h : simulateTrades tz cfg bars = some trades) {t : Trade}
    (ht : t ∈ trades) : t.position.entryBar ≤ t.exitBar ∧ Opened tz cfg bars t.position := by
  rcases (mem_simulateTrades h ht).2 with hclosed | hended
  · exact ⟨hclosed.lt.le, hclosed.kept.opened⟩
  · exact ⟨hended.kept.le, hended.kept.opened⟩

/-- The bar of an exit is one of the bars. -/
theorem barAt_exitBar_mem {trades : List Trade} (h : simulateTrades tz cfg bars = some trades)
    {t : Trade} (ht : t ∈ trades) : barAt bars t.exitBar ∈ bars := by
  obtain ⟨hle, hopened⟩ := kept_of_mem h ht
  have hlast := (mem_simulateTrades h ht).1
  have hpos := hopened.newPosition.1
  have hlt : t.exitBar < bars.length := by
    rw [lastBar] at hlast
    omega
  rw [barAt, List.getD_eq_getElem?_getD, List.getElem?_eq_getElem hlt, Option.getD_some]
  exact List.getElem_mem hlt

/-- A trade is opened at the open of its bar, and closed at a price of the bar of its exit, unless
that bar is beyond the level: a level that is reached is the price. -/
theorem fills_spec (hvalid : ∀ b ∈ bars, Valid b) {trades : List Trade}
    (h : simulateTrades tz cfg bars = some trades) {t : Trade} (ht : t ∈ trades) :
    t.position.entryPrice = (barAt bars t.position.entryBar).open_ ∧
      (¬ Beyond t (barAt bars t.exitBar) →
        (barAt bars t.exitBar).low ≤ t.exitPrice ∧ t.exitPrice ≤ (barAt bars t.exitBar).high) ∧
      (Beyond t (barAt bars t.exitBar) →
        t.reason = .sl ∧ t.position.slPrice = some t.exitPrice ∨
          t.reason = .tp ∧ t.position.tpPrice = some t.exitPrice) := by
  obtain ⟨hlowOpen, hopenHigh, hlowClose, hcloseHigh⟩ := hvalid _ (barAt_exitBar_mem h ht)
  refine ⟨(newPosition_entry (kept_of_mem h ht).2.newPosition.2).2, fun hnot => ?_, fun hbeyond => ?_⟩
  · rw [Beyond, not_or, not_and, not_and, not_lt, not_lt] at hnot
    rcases (mem_simulateTrades h ht).2 with hclosed | hended
    · rcases exitAt_eq_some hclosed.exit with
        ⟨-, -, hprice⟩ | ⟨-, -, hprice⟩ | ⟨hsl, -, hlow⟩ | ⟨htp, -, hhigh⟩
      · rw [hprice]
        exact ⟨hlowOpen, hopenHigh⟩
      · rw [hprice]
        exact ⟨hlowOpen, hopenHigh⟩
      · exact ⟨hlow, hnot.1 hsl⟩
      · exact ⟨hnot.2 htp, hhigh⟩
    · rw [hended.exitPrice]
      exact ⟨hlowClose, hcloseHigh⟩
  · rcases (mem_simulateTrades h ht).2 with hclosed | hended
    · rcases exitAt_eq_some hclosed.exit with ⟨hfri, -⟩ | ⟨httl, -⟩ | ⟨hsl, hlevel, -⟩ | ⟨htp, hlevel, -⟩
      · rw [Beyond, hfri] at hbeyond
        rcases hbeyond with ⟨hno, -⟩ | ⟨hno, -⟩ <;> cases hno
      · rw [Beyond, httl] at hbeyond
        rcases hbeyond with ⟨hno, -⟩ | ⟨hno, -⟩ <;> cases hno
      · exact .inl ⟨hsl, hlevel⟩
      · exact .inr ⟨htp, hlevel⟩
    · rw [Beyond, hended.reason] at hbeyond
      rcases hbeyond with ⟨hno, -⟩ | ⟨hno, -⟩ <;> cases hno

/-- A stop-loss of 90, and a bar that opens at 80. -/
def gapDown : List Bar :=
  [hourBar 0 100 101 99 100 1 (some 10), hourBar 1 100 101 99 100 0 (some 10),
    hourBar 2 80 85 75 82 0 (some 10)]

theorem gapDown_valid : ∀ b ∈ gapDown, Valid b := by
  simp only [gapDown, hourBar, List.forall_mem_cons, Valid]
  norm_num

theorem gapDown_trades : simulateTrades winter { slAtrCoef := 1 } gapDown =
    some [⟨⟨1, 100, some 90, none⟩, 2, 90, .sl⟩] := by
  decide +kernel

/-- The trade is closed at a price that the bar does not have. -/
theorem gapDown_fill :
    ¬ ((∀ b ∈ gapDown, Valid b) → ∀ trades,
      simulateTrades winter { slAtrCoef := 1 } gapDown = some trades → ∀ t ∈ trades,
        (barAt gapDown t.exitBar).low ≤ t.exitPrice ∧
          t.exitPrice ≤ (barAt gapDown t.exitBar).high) := by
  intro h
  have hhigh := (h gapDown_valid _ gapDown_trades _ (List.mem_singleton_self _)).2
  revert hhigh
  decide

theorem fills_spec_gapDown :
    (100 : ℚ) = (barAt gapDown 1).open_ ∧
      (¬ Beyond ⟨⟨1, 100, some 90, none⟩, 2, 90, .sl⟩ (barAt gapDown 2) →
        (barAt gapDown 2).low ≤ 90 ∧ 90 ≤ (barAt gapDown 2).high) ∧
      (Beyond ⟨⟨1, 100, some 90, none⟩, 2, 90, .sl⟩ (barAt gapDown 2) →
        Reason.sl = .sl ∧ some 90 = some (90 : ℚ) ∨ Reason.sl = .tp ∧ none = some (90 : ℚ)) :=
  fills_spec gapDown_valid gapDown_trades (List.mem_singleton_self _)

end LabRunner
