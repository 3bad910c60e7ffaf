/-
**The backtest of the lab.**

The bars are gone through one by one.  At each bar first the open trade may be closed (on a Friday,
after its time to live, or because the bar's range reaches its stop-loss or its take-profit), then a
signal may open a new one at the bar's opening price.  Limits on the entries are optional.  A trade
that is open after the last bar is closed at its last price.

Main definitions:

* `LabRunner.Bar`, `LabRunner.Config` — the input;
* `LabRunner.isEntryAllowed` — the limits on the entries;
* `LabRunner.resolveSlTpHit` — the level that a bar reaches;
* `LabRunner.step`, `LabRunner.after` — a bar, and the state after a bar;
* `LabRunner.simulateTrades` — the backtest.

Main results:

* `LabRunner.exitAt_eq_none_iff`, `LabRunner.exitAt_eq_some` — when and how a position is closed;
* `LabRunner.exitStep_cases`, `LabRunner.entryStep_spec` — what a bar does;
* `LabRunner.after_congr` — the bars that come later do not matter.
-/

import Brokerage.MarketHours
import Brokerage.QualityGate

set_option relaxedAutoImplicit false
set_option autoImplicit false

namespace LabRunner

/-! ### Input -/

/-- A bar with its signal and its ATR, which may be no number. -/
structure Bar where
  ts : ℤ
  open_ : ℚ
  high : ℚ
  low : ℚ
  close : ℚ
  signal : ℤ
  atr : Option ℚ
  deriving DecidableEq, Inhabited

structure GatingProfile where
  minBarsAfterExit : ℤ := 0
  minBarsBetweenEntries : ℤ := 0
  maxEntriesPerWeek : Option ℤ := none
  confirmBars : ℤ := 1

inductive IntrabarMode
  | slFirst
  | tpFirst
  | heuristic
  deriving DecidableEq

inductive EntryFill
  | openI
  | openI1
  deriving DecidableEq

structure Config where
  ttlBars : ℤ := 0
  slAtrCoef : ℚ := 0
  tpAtrCoef : ℚ := 0
  noTradeWeekend : Bool := false
  exitOnFriday : Bool := false
  exitOnFridayHourNy : ℤ := 17
  intrabarMode : IntrabarMode := .slFirst
  entryFill : EntryFill := .openI1
  entryGating : Option GatingProfile := none

/-! ### New York -/

/-- The hour that New York's clocks show. -/
def nyHour (tz : ZoneInfo) (ts : ℤ) : ℤ := tz.reading (1000000 * ts) % dayMicros / (60 * minuteMicros)

def nyWeekday (tz : ZoneInfo) (ts : ℤ) : ℤ := weekdayOf (tz.reading (1000000 * ts))

def isWeekendNy (tz : ZoneInfo) (ts : ℤ) : Bool :=
  nyWeekday tz ts = 4 && 17 ≤ nyHour tz ts || nyWeekday tz ts = 5 ||
    nyWeekday tz ts = 6 && nyHour tz ts < 17

def isFridayExitBar (tz : ZoneInfo) (ts exitHour : ℤ) : Bool :=
  nyWeekday tz ts = 4 && exitHour ≤ nyHour tz ts

/-! ### Levels -/

inductive Reason
  | fridayExit
  | ttl
  | sl
  | tp
  | endOfRange
  deriving DecidableEq

/-- The level that a bar reaches, and is closed at. -/
def resolveSlTpHit (openPrice high low : ℚ) (sl tp : Option ℚ) (mode : IntrabarMode) :
    Option (Reason × ℚ) :=
  match sl.filter (low ≤ ·), tp.filter (· ≤ high) with
  | some sl, some tp =>
      match mode with
      | .tpFirst => some (.tp, tp)
      | .heuristic => if |openPrice - sl| < |openPrice - tp| then some (.sl, sl) else some (.tp, tp)
      | .slFirst => some (.sl, sl)
  | some sl, none => some (.sl, sl)
  | none, some tp => some (.tp, tp)
  | none, none => none

/-! ### Limits on the entries -/

/-- Whether a trade may be opened at a bar. -/
def isEntryAllowed (entryBarIdx signalBarIdx : ℕ) (signals : List ℤ) (lastExitBar : Option ℕ)
    (nEntriesThisWeek : ℕ) (profile : GatingProfile) : Bool :=
  if signals[signalBarIdx]? ≠ some 1 then false
  else if lastExitBar.any fun b => (entryBarIdx : ℤ) - b < profile.minBarsAfterExit then false
  else if 1 < profile.confirmBars ∧
      ¬ ((List.range' (signalBarIdx + 1 - profile.confirmBars.toNat)
        (signalBarIdx + 1 - (signalBarIdx + 1 - profile.confirmBars.toNat))).all
          fun j => signals[j]? = some 1) then false
  else if profile.maxEntriesPerWeek.any fun most => most ≤ (nEntriesThisWeek : ℤ) then false
  else true

/-! ### The loop -/

/-- An open trade: its bar, its price and its levels. -/
structure Position where
  entryBar : ℕ
  entryPrice : ℚ
  slPrice : Option ℚ
  tpPrice : Option ℚ
  deriving DecidableEq

/-- A trade that is closed. -/
structure Trade where
  position : Position
  exitBar : ℕ
  exitPrice : ℚ
  reason : Reason
  deriving DecidableEq

structure State where
  position : Option Position
  lastExitBar : Option ℕ
  entryBarsWithTs : List (ℕ × ℤ)
  signalsFiltered : ℕ
  trades : List Trade
  deriving DecidableEq

def State.start : State := ⟨none, none, [], 0, []⟩

/-- The bar with an index. -/
def barAt (bars : List Bar) (i : ℕ) : Bar := bars.getD i default

variable (tz : ZoneInfo) (cfg : Config) (bars : List Bar)

def isWeekend (i : ℕ) : Bool := cfg.noTradeWeekend && isWeekendNy tz (barAt bars i).ts

def isFriExit (i : ℕ) : Bool :=
  cfg.exitOnFriday && isFridayExitBar tz (barAt bars i).ts cfg.exitOnFridayHourNy

/-- The bar is the last one of a trade's time to live, or later. -/
def ttlDue (p : Position) (i : ℕ) : Bool :=
  0 < cfg.ttlBars && cfg.ttlBars ≤ (i : ℤ) - p.entryBar

/-- Why and at which price a position is closed at a bar, if it is. -/
def exitAt (p : Position) (i : ℕ) : Option (Reason × ℚ) :=
  if isFriExit tz cfg bars i then some (.fridayExit, (barAt bars i).open_)
  else if ttlDue cfg p i then some (.ttl, (barAt bars i).open_)
  else
    resolveSlTpHit (barAt bars i).open_ (barAt bars i).high (barAt bars i).low p.slPrice p.tpPrice
      cfg.intrabarMode

/-- The exits of a bar; the profit in per cent cannot be computed if the entry price is zero. -/
def exitStep (i : ℕ) (st : State) : Option State :=
  match st.position with
  | none => some st
  | some p =>
      match exitAt tz cfg bars p i with
      | none => some st
      | some (reason, price) =>
          if p.entryPrice = 0 then none
          else
            some { st with
              position := none
              lastExitBar := some i
              trades := st.trades ++ [⟨p, i, price, reason⟩] }

/-- The bar whose signal opens a trade. -/
def signalBar (i : ℕ) : ℕ :=
  match cfg.entryFill with
  | .openI => i
  | .openI1 => i - 1

/-- The position that is opened at a bar, unless it needs an ATR that is no number. -/
def newPosition (i : ℕ) : Option Position :=
  let atrVal := (barAt bars (i - 1)).atr
  let entryPrice := (barAt bars i).open_
  if (0 < cfg.slAtrCoef ∨ 0 < cfg.tpAtrCoef) ∧ atrVal = none then none
  else
    some
      { entryBar := i
        entryPrice := entryPrice
        slPrice := if 0 < cfg.slAtrCoef then atrVal.map (entryPrice - cfg.slAtrCoef * ·) else none
        tpPrice := if 0 < cfg.tpAtrCoef then atrVal.map (entryPrice + cfg.tpAtrCoef * ·) else none }

/-- The entries of the last seven days. -/
def recentEntries (i : ℕ) (st : State) : List (ℕ × ℤ) :=
  st.entryBarsWithTs.filter fun e => (barAt bars i).ts - 7 * 86400 ≤ e.2

/-- No trade is open, the signal is given, and it is not the weekend. -/
def canEnter (i : ℕ) (st : State) : Bool :=
  st.position.isNone && (barAt bars (signalBar cfg i)).signal = 1 && !isWeekend tz cfg bars i &&
    !isFriExit tz cfg bars i

/-- The limits on the entries allow one. -/
def gatingAllows (profile : GatingProfile) (i : ℕ) (st : State) : Bool :=
  isEntryAllowed i (signalBar cfg i) (bars.map Bar.signal) st.lastExitBar
    (recentEntries bars i st).length profile

/-- The entry of a bar. -/
def entryStep (i : ℕ) (st : State) : State :=
  if canEnter tz cfg bars i st then
    match cfg.entryGating with
    | none =>
        match newPosition cfg bars i with
        | none => st
        | some p => { st with position := some p }
    | some profile =>
        let st' := { st with entryBarsWithTs := recentEntries bars i st }
        if gatingAllows cfg bars profile i st then
          match newPosition cfg bars i with
          | none => st'
          | some p =>
              { st' with
                position := some p
                entryBarsWithTs := st'.entryBarsWithTs ++ [(i, (barAt bars i).ts)] }
        else { st' with signalsFiltered := st'.signalsFiltered + 1 }
  else st

/-- A bar. -/
def step (i : ℕ) (st : State) : Option State :=
  (exitStep tz cfg bars i st).map (entryStep tz cfg bars i)

/-- The state after a bar; nothing is done at the first one. -/
def after : ℕ → Option State
  | 0 => some State.start
  | i + 1 => (after i).bind (step tz cfg bars (i + 1))

/-- The index of the last bar. -/
def lastBar : ℕ := bars.length - 1

/-- The trade that is open after the last bar is closed at its last price. -/
def closeAtEnd (st : State) : Option (List Trade) :=
  match st.position with
  | none => some st.trades
  | some p =>
      if p.entryPrice = 0 then none
      else some (st.trades ++ [⟨p, lastBar bars, (barAt bars (lastBar bars)).close, .endOfRange⟩])

/-- The trades of a backtest, unless it raises. -/
def simulateTrades : Option (List Trade) :=
  (after tz cfg bars (lastBar bars)).bind (closeAtEnd bars)

/-! ### The records of the trades -/

/-- `round(x, 6)`. -/
def round6 (x : ℚ) : ℚ := QualityGate.roundHalfEven (1000000 * x) / 1000000

structure TradeRecord where
  entryTs : ℤ
  entryPrice : ℚ
  exitTs : ℤ
  exitPrice : ℚ
  pnlPct : ℚ
  reason : Reason
  deriving DecidableEq

def Trade.record (t : Trade) : TradeRecord where
  entryTs := (barAt bars t.position.entryBar).ts
  entryPrice := round6 t.position.entryPrice
  exitTs := (barAt bars t.exitBar).ts
  exitPrice := round6 t.exitPrice
  pnlPct := round6 ((t.exitPrice - t.position.entryPrice) / t.position.entryPrice * 100)
  reason := t.reason

/-- What is returned. -/
def tradeRecords : Option (List TradeRecord) :=
  (simulateTrades tz cfg bars).map fun trades => trades.map (Trade.record bars)

/-! ### What a bar does -/

variable {tz cfg bars}

/-- The range of a bar reaches a level of a position. -/
def Reaches (p : Position) (b : Bar) : Prop :=
  (∃ sl, p.slPrice = some sl ∧ b.low ≤ sl) ∨ ∃ tp, p.tpPrice = some tp ∧ tp ≤ b.high

/-- A level that is reached is one of the two, and in the range on its side. -/
theorem resolveSlTpHit_eq_some {openPrice high low price : ℚ} {sl tp : Option ℚ} {mode : IntrabarMode}
    {reason : Reason} (h : resolveSlTpHit openPrice high low sl tp mode = some (reason, price)) :
    reason = .sl ∧ sl = some price ∧ low ≤ price ∨
      reason = .tp ∧ tp = some price ∧ price ≤ high := by
  rw [resolveSlTpHit] at h
  cases hsl : sl.filter (low ≤ ·) with
  | none =>
      cases htp : tp.filter (· ≤ high) with
      | none =>
          rw [hsl, htp] at h
          cases h
      | some level =>
          rw [hsl, htp] at h
          cases h
          obtain ⟨hlevel, hhigh⟩ := Option.filter_eq_some_iff.1 htp
          exact .inr ⟨rfl, hlevel, of_decide_eq_true hhigh⟩
  | some slLevel =>
      obtain ⟨hslLevel, hlow⟩ := Option.filter_eq_some_iff.1 hsl
      cases htp : tp.filter (· ≤ high) with
      | none =>
          rw [hsl, htp] at h
          cases h
          exact .inl ⟨rfl, hslLevel, of_decide_eq_true hlow⟩
      | some tpLevel =>
          obtain ⟨htpLevel, hhigh⟩ := Option.filter_eq_some_iff.1 htp
          have hone : reason = .sl ∧ slLevel = price ∨ reason = .tp ∧ tpLevel = price := by
            rw [hsl, htp] at h
            cases mode with
            | slFirst =>
                cases h
                exact .inl ⟨rfl, rfl⟩
            | tpFirst =>
                cases h
                exact .inr ⟨rfl, rfl⟩
            | heuristic =>
                dsimp only at h
                split at h
                · cases h
                  exact .inl ⟨rfl, rfl⟩
                · cases h
                  exact .inr ⟨rfl, rfl⟩
          rcases hone with ⟨hreason, rfl⟩ | ⟨hreason, rfl⟩
          · exact .inl ⟨hreason, hslLevel, of_decide_eq_true hlow⟩
          · exact .inr ⟨hreason, htpLevel, of_decide_eq_true hhigh⟩

/-- No level is found only if none is reached. -/
theorem resolveSlTpHit_eq_none_iff (p : Position) (b : Bar) (mode : IntrabarMode) :
    resolveSlTpHit b.open_ b.high b.low p.slPrice p.tpPrice mode = none ↔ ¬ Reaches p b := by
  have hsl : p.slPrice.filter (b.low ≤ ·) = none ↔ ¬ ∃ sl, p.slPrice = some sl ∧ b.low ≤ sl := by
    cases p.slPrice <;> simp
  have htp : p.tpPrice.filter (· ≤ b.high) = none ↔ ¬ ∃ tp, p.tpPrice = some tp ∧ tp ≤ b.high := by
    cases p.tpPrice <;> simp
  rw [Reaches, not_or, ← hsl, ← htp, resolveSlTpHit]
  cases p.slPrice.filter (b.low ≤ ·) with
  | none => cases p.tpPrice.filter (· ≤ b.high) <;> simp
  | some sl =>
      cases p.tpPrice.filter (· ≤ b.high) with
      | none => simp
      | some tp =>
          refine iff_of_false ?_ (fun h => by cases h.1)
          cases mode with
          | slFirst => simp
          | tpFirst => simp
          | heuristic =>
              dsimp only
              split <;> simp

theorem exitAt_eq_none_iff (p : Position) (i : ℕ) :
    exitAt tz cfg bars p i = none ↔ isFriExit tz cfg bars i = false ∧ ttlDue cfg p i = false ∧
      ¬ Reaches p (barAt bars i) := by
  rw [exitAt]
  cases isFriExit tz cfg bars i with
  | true => simp
  | false =>
      cases ttlDue cfg p i with
      | true => simp
      | false => simpa using resolveSlTpHit_eq_none_iff p (barAt bars i) cfg.intrabarMode

/-- Why a position is closed, and at which price. -/
theorem exitAt_eq_some {p : Position} {i : ℕ} {reason : Reason} {price : ℚ}
    (h : exitAt tz cfg bars p i = some (reason, price)) :
    reason = .fridayExit ∧ isFriExit tz cfg bars i = true ∧ price = (barAt bars i).open_ ∨
      reason = .ttl ∧ ttlDue cfg p i = true ∧ price = (barAt bars i).open_ ∨
      reason = .sl ∧ p.slPrice = some price ∧ (barAt bars i).low ≤ price ∨
      reason = .tp ∧ p.tpPrice = some price ∧ price ≤ (barAt bars i).high := by
  rw [exitAt] at h
  cases hfri : isFriExit tz cfg bars i with
  | true =>
      rw [hfri, if_pos rfl] at h
      cases h
      exact .inl ⟨rfl, rfl, rfl⟩
  | false =>
      rw [hfri, if_neg Bool.false_ne_true] at h
      cases httl : ttlDue cfg p i with
      | true =>
          rw [httl, if_pos rfl] at h
          cases h
          exact .inr (.inl ⟨rfl, rfl, rfl⟩)
      | false =>
          rw [httl, if_neg Bool.false_ne_true] at h
          exact .inr (.inr (resolveSlTpHit_eq_some h))

/-- The open trade is kept, or closed for a reason. -/
theorem exitStep_cases {i : ℕ} {st st' : State} (h : exitStep tz cfg bars i st = some st') :
    st' = st ∧ (∀ p, st.position = some p → exitAt tz cfg bars p i = none) ∨
      ∃ p reason price, st.position = some p ∧ exitAt tz cfg bars p i = some (reason, price) ∧
        st' = { st with
          position := none
          lastExitBar := some i
          trades := st.trades ++ [⟨p, i, price, reason⟩] } := by
  rw [exitStep] at h
  cases hposition : st.position with
  | none =>
      rw [hposition] at h
      exact .inl ⟨(Option.some.inj h).symm, fun _ h => by cases h⟩
  | some p =>
      rw [hposition] at h
      dsimp only at h
      cases hexit : exitAt tz cfg bars p i with
      | none =>
          rw [hexit] at h
          refine .inl ⟨(Option.some.inj h).symm, fun q hq => ?_⟩
          rw [← Option.some.inj hq, hexit]
      | some result =>
          obtain ⟨reason, price⟩ := result
          rw [hexit] at h
          dsimp only at h
          split at h
          · cases h
          · exact .inr ⟨p, reason, price, rfl, hexit, (Option.some.inj h).symm⟩

variable (tz cfg bars) in
/-- The position that is opened at a bar after its exits, if one is. -/
def entryAt (i : ℕ) (st : State) : Option Position :=
  if canEnter tz cfg bars i st ∧ ∀ profile ∈ cfg.entryGating, gatingAllows cfg bars profile i st then
    newPosition cfg bars i
  else none

/-- The entry of a bar changes the open trade only, and the history of the entries. -/
theorem entryStep_spec (i : ℕ) (st : State) :
    (entryStep tz cfg bars i st).position = st.position.or (entryAt tz cfg bars i st) ∧
      (entryStep tz cfg bars i st).trades = st.trades ∧
      (entryStep tz cfg bars i st).lastExitBar = st.lastExitBar := by
  rw [entryStep, entryAt]
  cases hcan : canEnter tz cfg bars i st with
  | false => simp
  | true =>
      have hnone : st.position = none := by
        simp only [canEnter, Bool.and_eq_true] at hcan
        exact Option.isNone_iff_eq_none.1 hcan.1.1.1
      rw [if_pos rfl, hnone, Option.none_or]
      cases cfg.entryGating with
      | none =>
          cases newPosition cfg bars i <;> simp [hnone]
      | some profile =>
          by_cases hallows : gatingAllows cfg bars profile i st = true
          · cases newPosition cfg bars i <;> simp [hallows]
          · simp [hallows]

theorem newPosition_entry {i : ℕ} {p : Position} (h : newPosition cfg bars i = some p) :
    p.entryBar = i ∧ p.entryPrice = (barAt bars i).open_ := by
  rw [newPosition] at h
  split at h
  · cases h
  · cases h
    exact ⟨rfl, rfl⟩

/-- What is known of a position that is opened. -/
theorem entryAt_eq_some {i : ℕ} {st : State} {p : Position} (h : entryAt tz cfg bars i st = some p) :
    st.position = none ∧ isFriExit tz cfg bars i = false ∧ newPosition cfg bars i = some p := by
  rw [entryAt] at h
  split at h
  · rename_i hcan
    have hcan := hcan.1
    simp only [canEnter, Bool.and_eq_true, Option.isNone_iff_eq_none, Bool.not_eq_true'] at hcan
    exact ⟨hcan.1.1.1, hcan.2, h⟩
  · cases h

/-! ### What a bar reads -/

theorem isEntryAllowed_congr {entryBarIdx signalBarIdx n : ℕ} {signals signals' : List ℤ}
    {lastExitBar : Option ℕ} {profile : GatingProfile}
    (h : ∀ j ≤ signalBarIdx, signals[j]? = signals'[j]?) :
    isEntryAllowed entryBarIdx signalBarIdx signals lastExitBar n profile =
      isEntryAllowed entryBarIdx signalBarIdx signals' lastExitBar n profile := by
  have hall : ((List.range' (signalBarIdx + 1 - profile.confirmBars.toNat)
      (signalBarIdx + 1 - (signalBarIdx + 1 - profile.confirmBars.toNat))).all
        fun j => signals[j]? = some 1) =
      (List.range' (signalBarIdx + 1 - profile.confirmBars.toNat)
        (signalBarIdx + 1 - (signalBarIdx + 1 - profile.confirmBars.toNat))).all
          fun j => signals'[j]? = some 1 := by
    rw [Bool.eq_iff_iff, List.all_eq_true, List.all_eq_true]
    refine forall₂_congr fun j hj => ?_
    rw [List.mem_range'_1] at hj
    rw [h j (by omega)]
  rw [isEntryAllowed, isEntryAllowed, h signalBarIdx le_rfl, hall]

section Congr

variable {bars' : List Bar} {k : ℕ}

theorem barAt_congr (h : ∀ j < k, bars[j]? = bars'[j]?) {j : ℕ} (hj : j < k) :
    barAt bars j = barAt bars' j := by
  rw [barAt, barAt, List.getD_eq_getElem?_getD, List.getD_eq_getElem?_getD, h j hj]

theorem signalBar_le (cfg : Config) (i : ℕ) : signalBar cfg i ≤ i := by
  rw [signalBar]
  cases cfg.entryFill with
  | openI => exact le_rfl
  | openI1 => exact i.sub_le 1

/-- A bar reads the bars up to itself only. -/
theorem step_congr (h : ∀ j < k, bars[j]? = bars'[j]?) {i : ℕ} (hi : i < k) (st : State) :
    step tz cfg bars i st = step tz cfg bars' i st := by
  have hbar := barAt_congr h hi
  have hprev := barAt_congr h (show i - 1 < k by omega)
  have hsignal := barAt_congr h ((signalBar_le cfg i).trans_lt hi)
  have hfri : isFriExit tz cfg bars i = isFriExit tz cfg bars' i := by rw [isFriExit, isFriExit, hbar]
  have hexit : exitStep tz cfg bars i st = exitStep tz cfg bars' i st := by
    rw [exitStep, exitStep]
    cases st.position with
    | none => rfl
    | some p =>
        have hexitAt : exitAt tz cfg bars p i = exitAt tz cfg bars' p i := by
          rw [exitAt, exitAt, hfri, hbar]
        dsimp only
        rw [hexitAt]
  have hgating : ∀ profile st,
      gatingAllows cfg bars profile i st = gatingAllows cfg bars' profile i st := by
    intro profile st
    rw [gatingAllows, gatingAllows, recentEntries, recentEntries, hbar]
    refine isEntryAllowed_congr fun j hj => ?_
    rw [List.getElem?_map, List.getElem?_map, h j (hj.trans_lt ((signalBar_le cfg i).trans_lt hi))]
  have hnew : newPosition cfg bars i = newPosition cfg bars' i := by
    rw [newPosition, newPosition, hbar, hprev]
  have hentry : entryStep tz cfg bars i = entryStep tz cfg bars' i := by
    funext st
    have hcan : canEnter tz cfg bars i st = canEnter tz cfg bars' i st := by
      rw [canEnter, canEnter, isWeekend, isWeekend, hfri, hbar, hsignal]
    rw [entryStep, entryStep, hcan, hnew, recentEntries, recentEntries, hbar]
    cases cfg.entryGating with
    | none => rfl
    | some profile =>
        dsimp only
        rw [hgating profile st]
  rw [step, step, hexit, hentry]

/-- The bars that come later do not matter. -/
theorem after_congr (h : ∀ j < k, bars[j]? = bars'[j]?) {i : ℕ} (hi : i < k) :
    after tz cfg bars i = after tz cfg bars' i := by
  induction i with
  | zero => rfl
  | succ i ih =>
      rw [after, after, ih (by omega)]
      exact congrArg _ (funext fun st => step_congr h hi st)

end Congr

end LabRunner
