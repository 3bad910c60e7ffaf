/-
**How long the simple backtests hold a position.**

Both of the simple backtests close a position when the signal is against it or none, or when it has
been held for a number of minutes.  They count candles for that.  Where minutes are missing, more
time has passed than there are candles, and a position can be closed too late.

Which positions are opened and closed depends on the signals alone.  They are followed here without
prices and times first, and the loops are shown to follow them.

Main definitions:

* `SimpleBacktest.heldBefore` — the position that is open before a candle, by the signals;
* `SimpleBacktest.Honoured` — a trade is closed at the first candle at which it is due;
* `SimpleBacktest.Timely` — a position is closed as soon as it has been held for long enough;
* `SimpleBacktest.Traced` — what a state of the loop has of the positions.

Main results:

* `SimpleBacktest.traced_simulateTrades` — the trades are the positions that are closed;
* `SimpleBacktest.honoured_iff_timely` — when all trades are closed in time;
* `SimpleBacktest.holding_iff` — the same for both backtests;
* `SimpleBacktest.held_over_gap` — a trade that is held over a gap.
-/

import Brokerage.SimpleBacktests

set_option relaxedAutoImplicit false
set_option autoImplicit false

namespace SimpleBacktest

open ParquetBacktest (candlesToDataframe simulateStep simulateTrades)

/-! ### Positions, by the signals -/

/-- The signal is against a position, or none. -/
def Ends (side : Signal) (sig : ℤ) : Prop :=
  ((side = .long ∧ sig = -1) ∨ (side = .short ∧ sig = 1)) ∨ sig = 0

instance (side : Signal) (sig : ℤ) : Decidable (Ends side sig) :=
  inferInstanceAs (Decidable (_ ∨ _))

/-- A position, with the index of its candle and its side, is closed by the signal at an index. -/
def Closes (holdMinutes : ℤ) (p : ℕ × Signal) (i : ℕ) (sig : ℤ) : Prop :=
  holdMinutes ≤ (i : ℤ) - p.1 ∨ Ends p.2 sig

instance (holdMinutes : ℤ) (p : ℕ × Signal) (i : ℕ) (sig : ℤ) :
    Decidable (Closes holdMinutes p i sig) :=
  inferInstanceAs (Decidable (_ ∨ _))

/-- What a signal does to the position. -/
def heldNext (holdMinutes : ℤ) (held : Option (ℕ × Signal)) (i : ℕ) (sig : ℤ) :
    Option (ℕ × Signal) :=
  match held with
  | none => if sig = 1 then some (i, .long) else if sig = -1 then some (i, .short) else none
  | some p => if Closes holdMinutes p i sig then none else some p

/-- The position that is open before the signal at an index. -/
def heldBefore (signals : List ℤ) (holdMinutes : ℤ) : ℕ → Option (ℕ × Signal)
  | 0 => none
  | i + 1 => heldNext holdMinutes (heldBefore signals holdMinutes i) i (signals.getD i 0)

section Held

variable {signals : List ℤ} {holdMinutes : ℤ} {i j : ℕ} {p : ℕ × Signal}

/-- A position was opened before. -/
theorem lt_of_heldBefore (h : heldBefore signals holdMinutes i = some p) : p.1 < i := by
  induction i with
  | zero => cases h
  | succ i ih =>
      rw [heldBefore] at h
      cases hprev : heldBefore signals holdMinutes i with
      | none =>
          rw [hprev, heldNext] at h
          split_ifs at h <;> cases h <;> exact i.lt_succ_self
      | some q =>
          rw [hprev, heldNext] at h
          split at h
          · cases h
          · obtain rfl := Option.some.inj h
            exact (ih hprev).trans i.lt_succ_self

/-- A position that is not open any more was closed. -/
theorem exists_closes (h : heldBefore signals holdMinutes i = some p) (hij : i ≤ j)
    (hclosed : heldBefore signals holdMinutes j ≠ some p) :
    ∃ x, i ≤ x ∧ x < j ∧ heldBefore signals holdMinutes x = some p ∧
      Closes holdMinutes p x (signals.getD x 0) := by
  by_contra hnone
  refine hclosed ?_
  induction j, hij using Nat.le_induction with
  | base => exact h
  | succ j hij ih =>
      have hj : heldBefore signals holdMinutes j = some p := by
        by_contra hj
        exact hj (ih hj fun ⟨x, hix, hxj, hx⟩ => hnone ⟨x, hix, hxj.trans j.lt_succ_self, hx⟩)
      rw [heldBefore, hj, heldNext]
      exact if_neg fun hcloses => hnone ⟨j, hij, j.lt_succ_self, hj, hcloses⟩

/-- A position that is open later is open since its candle. -/
theorem heldBefore_between (h : heldBefore signals holdMinutes j = some p) (hlt : p.1 < i)
    (hij : i ≤ j) : heldBefore signals holdMinutes i = some p := by
  induction j, hij using Nat.le_induction with
  | base => exact h
  | succ j hij ih =>
      refine ih ?_
      rw [heldBefore] at h
      cases hprev : heldBefore signals holdMinutes j with
      | none =>
          -- the position would be opened only now
          rw [hprev, heldNext] at h
          split_ifs at h <;> cases h <;> exact absurd hlt (by omega)
      | some q =>
          rw [hprev, heldNext] at h
          split at h
          · cases h
          · exact h

/-- A position that is open goes on if it is open later. -/
theorem not_closes_of_heldBefore (h : heldBefore signals holdMinutes j = some p) (hlt : p.1 < i)
    (hij : i < j) : ¬ Closes holdMinutes p i (signals.getD i 0) := by
  intro hcloses
  have hi := heldBefore_between h hlt hij.le
  have hnext := heldBefore_between h (hlt.trans i.lt_succ_self) hij
  rw [heldBefore, hi, heldNext, if_pos hcloses] at hnext
  cases hnext

end Held

/-! ### The loop follows the positions -/

variable {F : Type} {candles : List (Candle F)} {signals : List ℤ} {holdMinutes : ℤ}

variable (candles signals holdMinutes) in
/-- A trade is that of the position of some candle, and was closed at another one. -/
structure ClosedAt (e x : ℕ) (t : Trade F) : Prop where
  held : heldBefore signals holdMinutes x = some (e, t.side)
  closes : Closes holdMinutes (e, t.side) x (signals.getD x 0)
  entryTs : candles[e]?.map Candle.ts = some t.entryTs
  exitTs : candles[x]?.map Candle.ts = some t.exitTs

variable (candles signals holdMinutes) in
/-- What a state of the loop has of the positions: the one that is open, and the trades of those that
were closed. -/
structure Traced (n : ℕ) (s : Loop F) : Prop where
  idle : s.inTrade = false → heldBefore signals holdMinutes n = none
  open_ : s.inTrade = true → ∃ e side, heldBefore signals holdMinutes n = some (e, side) ∧
    s.entryIdx = some e ∧ s.entrySide = some side
  sound : ∀ t ∈ s.trades, ∃ e, ∃ x < n, ClosedAt candles signals holdMinutes e x t
  complete : ∀ x < n, ∀ e side, heldBefore signals holdMinutes x = some (e, side) →
    Closes holdMinutes (e, side) x (signals.getD x 0) →
      ∃ t ∈ s.trades, t.side = side ∧ ClosedAt candles signals holdMinutes e x t

theorem traced_start : Traced candles signals holdMinutes 0 Loop.start := by
  refine ⟨fun _ => rfl, (fun h => by cases h), fun t ht => absurd ht List.not_mem_nil, ?_⟩
  exact fun x hx => absurd hx (Nat.not_lt_zero x)

variable {n : ℕ} {s s' : Loop F}

/-- Where no position is closed, only the open one may change. -/
theorem Traced.of_trades_eq (hs : Traced candles signals holdMinutes n s)
    (htrades : s'.trades = s.trades)
    (hkept : ∀ p, heldBefore signals holdMinutes n = some p →
      ¬ Closes holdMinutes p n (signals.getD n 0))
    (hidle : s'.inTrade = false → heldBefore signals holdMinutes (n + 1) = none)
    (hopen : s'.inTrade = true → ∃ e side, heldBefore signals holdMinutes (n + 1) = some (e, side) ∧
      s'.entryIdx = some e ∧ s'.entrySide = some side) :
    Traced candles signals holdMinutes (n + 1) s' where
  idle := hidle
  open_ := hopen
  sound t ht := by
    obtain ⟨e, x, hx, hclosed⟩ := hs.sound t (htrades ▸ ht)
    exact ⟨e, x, hx.trans n.lt_succ_self, hclosed⟩
  complete x hx e side hheld hcloses := by
    rw [htrades]
    rcases Nat.lt_succ_iff_lt_or_eq.1 hx with hlt | rfl
    · exact hs.complete x hlt e side hheld hcloses
    · exact absurd hcloses (hkept _ hheld)

/-- Where the open position is closed, its trade is added. -/
theorem Traced.of_trades_append (hs : Traced candles signals holdMinutes n s) {e : ℕ} {t : Trade F}
    (hclosed : ClosedAt candles signals holdMinutes e n t) (htrades : s'.trades = s.trades ++ [t])
    (hidle : s'.inTrade = false) : Traced candles signals holdMinutes (n + 1) s' where
  idle _ := by
    rw [heldBefore, hclosed.held, heldNext]
    exact if_pos hclosed.closes
  open_ h := by
    rw [hidle] at h
    cases h
  sound t' ht := by
    rw [htrades] at ht
    rcases List.mem_append.1 ht with ht | ht
    · obtain ⟨e', x, hx, hclosed'⟩ := hs.sound t' ht
      exact ⟨e', x, hx.trans n.lt_succ_self, hclosed'⟩
    · rw [List.mem_singleton.1 ht]
      exact ⟨e, n, n.lt_succ_self, hclosed⟩
  complete x hx e' side hheld hcloses := by
    rw [htrades]
    rcases Nat.lt_succ_iff_lt_or_eq.1 hx with hlt | rfl
    · obtain ⟨t', ht, hclosed'⟩ := hs.complete x hlt e' side hheld hcloses
      exact ⟨t', List.mem_append_left _ ht, hclosed'⟩
    · rw [hclosed.held] at hheld
      obtain ⟨rfl, rfl⟩ := Prod.mk.inj (Option.some.inj hheld)
      exact ⟨t, List.mem_append_right _ (List.mem_singleton_self t), rfl, hclosed⟩

variable [LinearOrder F] [Zero F] [NatCast F] [Sub F] [Mul F] [Div F] [Rounding F]

/-- A step of the loop follows the positions. -/
theorem traced_step {sig : ℤ} (hsig : signals[n]? = some sig)
    (hs : Traced candles signals holdMinutes n s)
    (h : simulateStep (candles.map Candle.close) (candles.map Candle.ts) holdMinutes s n sig =
      some s') : Traced candles signals holdMinutes (n + 1) s' := by
  have hget : signals.getD n 0 = sig := by rw [List.getD_eq_getElem?_getD, hsig, Option.getD_some]
  rw [simulateStep] at h
  cases hin : s.inTrade with
  | false =>
      -- a position may be opened
      have hnone := hs.idle hin
      have hkept : ∀ p, heldBefore signals holdMinutes n = some p →
          ¬ Closes holdMinutes p n (signals.getD n 0) := by
        intro p hheld
        rw [hnone] at hheld
        cases hheld
      have hnext : heldBefore signals holdMinutes (n + 1) =
          if sig = 1 then some (n, .long) else if sig = -1 then some (n, .short) else none := by
        rw [heldBefore, hnone, hget, heldNext]
      rw [hin, if_pos rfl] at h
      split_ifs at h with hlong hshort
      · obtain ⟨close, -, heq⟩ := Option.bind_eq_some_iff.1 h
        obtain rfl := Option.some.inj heq
        rw [if_pos hlong] at hnext
        exact hs.of_trades_eq rfl hkept (fun h => by cases h) fun _ => ⟨n, .long, hnext, rfl, rfl⟩
      · obtain ⟨close, -, heq⟩ := Option.bind_eq_some_iff.1 h
        obtain rfl := Option.some.inj heq
        rw [if_neg hlong, if_pos hshort] at hnext
        exact hs.of_trades_eq rfl hkept (fun h => by cases h) fun _ => ⟨n, .short, hnext, rfl, rfl⟩
      · obtain rfl := Option.some.inj h
        rw [if_neg hlong, if_neg hshort] at hnext
        refine hs.of_trades_eq rfl hkept (fun _ => hnext) fun h => ?_
        rw [hin] at h
        cases h
  | true =>
      -- the position may be closed
      obtain ⟨e, side, hheld, hidx, hside⟩ := hs.open_ hin
      rw [hin, if_neg (by decide), hidx, hside] at h
      simp only [Option.bind_eq_bind, Option.bind_some] at h
      split at h
      · next hcloses =>
          obtain ⟨exitPrice, -, h⟩ := Option.bind_eq_some_iff.1 h
          obtain ⟨entryPrice, -, h⟩ := Option.bind_eq_some_iff.1 h
          obtain ⟨pnl, -, h⟩ := Option.bind_eq_some_iff.1 h
          obtain ⟨entryTs, hentry, h⟩ := Option.bind_eq_some_iff.1 h
          obtain ⟨exitTs, hexit, h⟩ := Option.bind_eq_some_iff.1 h
          obtain rfl := Option.some.inj h
          rw [List.getElem?_map] at hentry hexit
          have hclosed : ClosedAt candles signals holdMinutes e n
              ⟨entryTs, exitTs, side, entryPrice, exitPrice, Rounding.round pnl 6⟩ :=
            ⟨hheld, by rw [hget]; exact hcloses, hentry, hexit⟩
          exact hs.of_trades_append hclosed rfl rfl
      · next hopen =>
          obtain rfl := Option.some.inj h
          have hnext : heldBefore signals holdMinutes (n + 1) = some (e, side) := by
            rw [heldBefore, hheld, hget, heldNext]
            exact if_neg hopen
          refine hs.of_trades_eq rfl (fun p hp => ?_) (fun h => ?_)
            fun _ => ⟨e, side, hnext, hidx, hside⟩
          · rw [hheld] at hp
            rwa [← Option.some.inj hp, hget]
          · rw [hin] at h
            cases h

/-- The trades of a backtest over a frame are the positions that are closed. -/
theorem traced_simulateTrades {trades : List (Trade F)}
    (h : simulateTrades (candlesToDataframe candles) signals holdMinutes = some trades) :
    ∃ s : Loop F, Traced candles signals holdMinutes signals.length s ∧ s.trades = trades := by
  rw [simulateTrades, map_index] at h
  obtain ⟨s, hs, rfl⟩ := Option.map_eq_some_iff.1 h
  exact ⟨s, List.foldlM_zipIdx_invariant (fun n s sig t hsig hs h => traced_step hsig hs h)
    traced_start hs, rfl⟩

/-! ### In time -/

section InTime

variable {F : Type}

/-- A trade is due at a candle: it has been held for long enough, or the signal ends it. -/
def Due (holdMinutes : ℤ) (t : Trade F) (c : Candle F) (sig : ℤ) : Prop :=
  60 * holdMinutes ≤ c.ts - t.entryTs ∨ Ends t.side sig

/-- A trade is closed at the first candle after its own at which it is due; so no candle comes
between the end of its time and its exit. -/
structure Honoured (candles : List (Candle F)) (signals : List ℤ) (holdMinutes : ℤ)
    (t : Trade F) : Prop where
  first : ∃ e x entry exit, e < x ∧ candles[e]? = some entry ∧ entry.ts = t.entryTs ∧
    candles[x]? = some exit ∧ exit.ts = t.exitTs ∧ Due holdMinutes t exit (signals.getD x 0) ∧
      ∀ i c, e < i → i < x → candles[i]? = some c → ¬ Due holdMinutes t c (signals.getD i 0)
  between : ∀ c ∈ candles, ¬ (t.entryTs + 60 * holdMinutes ≤ c.ts ∧ c.ts < t.exitTs)

/-- Where a position has been held for the minutes, it has been held for as many candles, or the
signal ends it, or nothing does. -/
def Timely (candles : List (Candle F)) (signals : List ℤ) (holdMinutes : ℤ) : Prop :=
  ∀ i e side entry c, i < signals.length →
    heldBefore signals holdMinutes i = some (e, side) → candles[e]? = some entry →
      candles[i]? = some c → 60 * holdMinutes ≤ c.ts - entry.ts →
        holdMinutes ≤ (i : ℤ) - e ∨ Ends side (signals.getD i 0) ∨
          heldBefore signals holdMinutes signals.length = some (e, side)

variable {candles : List (Candle F)} {signals : List ℤ} {holdMinutes : ℤ}

/-- Candles of different minutes are at least as many minutes apart as there are candles. -/
theorem minutes_le (hasc : candles.Pairwise (·.ts < ·.ts)) (haligned : ∀ c ∈ candles, 60 ∣ c.ts)
    {i j : ℕ} (hij : i ≤ j) {c d : Candle F} (hc : candles[i]? = some c)
    (hd : candles[j]? = some d) : 60 * ((j : ℤ) - i) ≤ d.ts - c.ts := by
  induction j, hij using Nat.le_induction generalizing d with
  | base =>
      rw [hc] at hd
      rw [Option.some.inj hd]
      omega
  | succ j hij ih =>
      obtain ⟨hlt, hd'⟩ := List.getElem?_eq_some_iff.1 hd
      have hj : j < candles.length := by omega
      have hprev := ih (List.getElem?_eq_getElem hj)
      have hstep := List.pairwise_iff_getElem.1 hasc j (j + 1) hj hlt j.lt_succ_self
      have hmod := haligned _ (List.getElem_mem hj)
      have hmod' := haligned _ (List.getElem_mem hlt)
      rw [hd'] at hstep hmod'
      push_cast
      omega

/-- The candles of a time are the same. -/
theorem index_unique (hasc : candles.Pairwise (·.ts < ·.ts)) {i j : ℕ} {c d : Candle F}
    (hc : candles[i]? = some c) (hd : candles[j]? = some d) (hts : c.ts = d.ts) : i = j := by
  obtain ⟨hi, rfl⟩ := List.getElem?_eq_some_iff.1 hc
  obtain ⟨hj, rfl⟩ := List.getElem?_eq_some_iff.1 hd
  rcases Nat.lt_trichotomy i j with hlt | heq | hgt
  · exact absurd hts (List.pairwise_iff_getElem.1 hasc i j hi hj hlt).ne
  · exact heq
  · exact absurd hts (List.pairwise_iff_getElem.1 hasc j i hj hi hgt).ne'

/-- A trade whose position was held in time is closed in time. -/
theorem ClosedAt.honoured (hasc : candles.Pairwise (·.ts < ·.ts))
    (haligned : ∀ c ∈ candles, 60 ∣ c.ts) (hpos : 1 ≤ holdMinutes)
    (htimely : Timely candles signals holdMinutes) {e x : ℕ} {t : Trade F}
    (hx : x < signals.length) (h : ClosedAt candles signals holdMinutes e x t) :
    Honoured candles signals holdMinutes t := by
  obtain ⟨hheld, hcloses, hentry, hexit⟩ := h
  obtain ⟨entry, hentry, hentryTs⟩ := Option.map_eq_some_iff.1 hentry
  obtain ⟨exit, hexit, hexitTs⟩ := Option.map_eq_some_iff.1 hexit
  have hlt : e < x := lt_of_heldBefore hheld
  have hopen : ∀ i c, e < i → i < x → candles[i]? = some c →
      ¬ Due holdMinutes t c (signals.getD i 0) := by
    intro i c hei hix hc hdue
    have hnot := not_closes_of_heldBefore hheld hei hix
    rcases hdue with hlong | hends
    · have hi := heldBefore_between hheld hei hix.le
      rw [← hentryTs] at hlong
      rcases htimely i e t.side entry c (hix.trans hx) hi hentry hc hlong with hcount | hends | hend
      · exact hnot (Or.inl hcount)
      · exact hnot (Or.inr hends)
      · exact not_closes_of_heldBefore hend hlt hx hcloses
    · exact hnot (Or.inr hends)
  refine ⟨⟨e, x, entry, exit, hlt, hentry, hentryTs, hexit, hexitTs, ?_, hopen⟩, ?_⟩
  · rcases hcloses with hcount | hends
    · left
      have hminutes := minutes_le hasc haligned hlt.le hentry hexit
      dsimp only at hcount
      omega
    · exact Or.inr hends
  · rintro c hc ⟨hlong, hbefore⟩
    obtain ⟨i, hi⟩ := List.mem_iff_getElem?.1 hc
    have horder : ∀ {j k : ℕ} {a b : Candle F}, candles[j]? = some a → candles[k]? = some b →
        a.ts < b.ts → j < k := by
      intro j k a b ha hb hab
      by_contra hle
      have hminutes := minutes_le hasc haligned (not_lt.1 hle) hb ha
      omega
    have hei := horder hentry hi (by omega)
    have hix := horder hi hexit (by omega)
    exact hopen i c hei hix hi (Or.inl (by omega))

/-- The signals of a trend, as numbers. -/
def trendSignals [LinearOrder F] (candles : List (Candle F)) (lookback : ℕ) : List ℤ :=
  (simpleTrendSignals (candles.map Candle.close) lookback).map Signal.toInt

/-- The trend opens no position before the last of so few candles. -/
theorem timely_of_length_lt [LinearOrder F] {lookback : ℕ} (hlen : candles.length < lookback + 2) :
    Timely candles (trendSignals candles lookback) holdMinutes := by
  have hflat : ∀ i < lookback, (trendSignals candles lookback).getD i 0 = 0 := by
    intro i hi
    rw [List.getD_eq_getElem?_getD, trendSignals, List.getElem?_map, simpleTrendSignals,
      List.getElem?_ofFn]
    split
    · rfl
    · rfl
  have hnone : ∀ i ≤ lookback, heldBefore (trendSignals candles lookback) holdMinutes i = none := by
    intro i
    induction i with
    | zero => exact fun _ => rfl
    | succ i ih =>
        intro hi
        rw [heldBefore, ih (by omega), hflat i hi]
        rfl
  intro i e side entry c hi hheld
  have hlength : (trendSignals candles lookback).length = candles.length := by
    rw [trendSignals, List.length_map, length_simpleTrendSignals, List.length_map]
  rw [hnone i (by omega)] at hheld
  cases hheld

variable [LinearOrder F] [Zero F] [NatCast F] [Sub F] [Mul F] [Div F] [Rounding F]

/-- All trades of a backtest over a frame are closed in time just when its positions are held in
time. -/
theorem honoured_iff_timely (hasc : candles.Pairwise (·.ts < ·.ts))
    (haligned : ∀ c ∈ candles, 60 ∣ c.ts) (hpos : 1 ≤ holdMinutes) {trades : List (Trade F)}
    (h : simulateTrades (candlesToDataframe candles) signals holdMinutes = some trades) :
    (∀ t ∈ trades, Honoured candles signals holdMinutes t) ↔
      Timely candles signals holdMinutes := by
  obtain ⟨s, htraced, rfl⟩ := traced_simulateTrades h
  constructor
  · intro hhonoured i e side entry c hi hheld hentry hc hlong
    by_contra hcond
    simp only [not_or] at hcond
    obtain ⟨hcount, hends, hend⟩ := hcond
    -- the position is closed later, but the trade was due here
    obtain ⟨x, hix, hx, hheldx, hcloses⟩ := exists_closes hheld hi.le hend
    have hne : i ≠ x := by
      rintro rfl
      exact hcloses.elim hcount hends
    obtain ⟨t, ht, hside, hclosed⟩ := htraced.complete x hx e side hheldx hcloses
    obtain ⟨entry', hentry', hentryTs⟩ := Option.map_eq_some_iff.1 hclosed.entryTs
    obtain ⟨exit, hexit, hexitTs⟩ := Option.map_eq_some_iff.1 hclosed.exitTs
    obtain rfl := Option.some.inj (hentry.symm.trans hentry')
    obtain ⟨e', x', entry', exit', -, hentry', hentryTs', hexit', hexitTs', -, hopen⟩ :=
      (hhonoured t ht).first
    obtain rfl := index_unique hasc hentry' hentry (hentryTs'.trans hentryTs.symm)
    obtain rfl := index_unique hasc hexit' hexit (hexitTs'.trans hexitTs.symm)
    refine hopen i c (lt_of_heldBefore hheld) (lt_of_le_of_ne hix hne) hc (Or.inl ?_)
    rwa [← hentryTs]
  · intro htimely t ht
    obtain ⟨e, x, hx, hclosed⟩ := htraced.sound t ht
    exact hclosed.honoured hasc haligned hpos htimely hx

/-- The trades of both backtests, with any signals and with the signals of any trend, are closed in
time just when the positions of the signals are held in time. -/
theorem holding_iff (candles : List (Candle F)) (hasc : candles.Pairwise (·.ts < ·.ts))
    (haligned : ∀ c ∈ candles, 60 ∣ c.ts) (holdMinutes : ℤ) (hpos : 1 ≤ holdMinutes) :
    (∀ signals trades,
      simulateTrades (candlesToDataframe candles) signals holdMinutes = some trades →
        ((∀ t ∈ trades, Honoured candles signals holdMinutes t) ↔
          Timely candles signals holdMinutes)) ∧
    ∀ lookback trades, runStrategy candles lookback holdMinutes = some trades →
      ((∀ t ∈ trades, Honoured candles (trendSignals candles lookback) holdMinutes t) ↔
        Timely candles (trendSignals candles lookback) holdMinutes) := by
  refine ⟨fun signals trades h => honoured_iff_timely hasc haligned hpos h, fun lookback trades h => ?_⟩
  by_cases hlen : candles.length < lookback + 2
  · rw [runStrategy, if_pos hlen] at h
    obtain rfl := Option.some.inj h
    exact iff_of_true (fun t ht => absurd ht List.not_mem_nil) (timely_of_length_lt hlen)
  · rw [← simulateTrades_eq lookback (not_lt.1 hlen)] at h
    exact honoured_iff_timely hasc haligned hpos h

end InTime

theorem holding_iff_fallingBack :
    (∀ signals trades,
      simulateTrades (candlesToDataframe fallingBack) signals 10 = some trades →
        ((∀ t ∈ trades, Honoured fallingBack signals 10 t) ↔ Timely fallingBack signals 10)) ∧
    ∀ lookback trades, runStrategy fallingBack lookback 10 = some trades →
      ((∀ t ∈ trades, Honoured fallingBack (trendSignals fallingBack lookback) 10 t) ↔
        Timely fallingBack (trendSignals fallingBack lookback) 10) :=
  holding_iff fallingBack (by decide) (by decide) 10 (by decide)

/-- Rising prices, with a weekend after the third candle. -/
def risingOverWeekend : List (Candle ℚ) :=
  [⟨0, 100⟩, ⟨60, 101⟩, ⟨120, 102⟩, ⟨172920, 103⟩, ⟨172980, 104⟩, ⟨173040, 105⟩]

/-- A position of three minutes is held over the weekend and a minute more, as the weekend counts as
one. -/
theorem held_over_gap :
    runStrategy risingOverWeekend 1 3 = some [⟨60, 172980, .long, 101, 104, 2970297 / 1000000⟩] ∧
      ¬ Honoured risingOverWeekend (trendSignals risingOverWeekend 1) 3
        (⟨60, 172980, .long, 101, 104, 2970297 / 1000000⟩ : Trade ℚ) := by
  refine ⟨by decide +kernel, fun h => ?_⟩
  exact h.between ⟨172920, 103⟩ (by simp [risingOverWeekend]) (by decide)

end SimpleBacktest
