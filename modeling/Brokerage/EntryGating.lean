/-
**The limits on the entries of the lab's backtest.**

A profile limits the entries of a backtest.  Before a trade is opened, the bars since the last exit,
the signals up to its own and the entries of the last seven days are checked; the history of the
entries is kept for that, and what is older than seven days is dropped on the way.  An entry that is
allowed may still be given up for want of an ATR, and does not count then.

The limits are stated here for the trades that come before an entry, and the loop is shown to allow
an entry just when it is within them.  Where there are fewer bars than signals are asked for, those
that there are must have one.

Main definitions:

* `LabRunner.WithinLimits` — an entry at a bar is within the limits, after some trades;
* `LabRunner.History` — what the loop knows of the entries and exits.

Main results:

* `LabRunner.isEntryAllowed_iff` — what is checked;
* `LabRunner.gatingAllows_iff` — an entry is allowed just when it is within the limits;
* `LabRunner.gating_spec` — all entries of a backtest are, and no other signal is skipped;
* `LabRunner.early_entry` — an entry with fewer signals than are asked for.
-/

import Brokerage.LabTrades

set_option relaxedAutoImplicit false
set_option autoImplicit false

namespace LabRunner

variable {tz : ZoneInfo} {cfg : Config} {bars : List Bar} {profile : GatingProfile}

/-! ### What is checked -/

/-- The signals that are asked for, as far as there are bars. -/
theorem confirmed_iff {signals : List ℤ} {s : ℕ} {confirmBars : ℤ} (hs : signals[s]? = some 1) :
    (1 < confirmBars ∧ ¬ ((List.range' (s + 1 - confirmBars.toNat)
        (s + 1 - (s + 1 - confirmBars.toNat))).all fun j => signals[j]? = some 1)) ↔
      ¬ ∀ j ≤ s, (s : ℤ) < j + confirmBars → signals[j]? = some 1 := by
  have hall : ((List.range' (s + 1 - confirmBars.toNat)
      (s + 1 - (s + 1 - confirmBars.toNat))).all fun j => signals[j]? = some 1) ↔
        ∀ j, s + 1 - confirmBars.toNat ≤ j → j ≤ s → signals[j]? = some 1 := by
    simp only [List.all_eq_true, List.mem_range'_1, decide_eq_true_eq, and_imp]
    exact forall_congr' fun j => ⟨fun h hle hs => h hle (by omega), fun h hle hs => h hle (by omega)⟩
  rw [hall]
  constructor
  · rintro ⟨hmany, hmissing⟩ hconfirmed
    exact hmissing fun j hle hjs => hconfirmed j hjs (by omega)
  · intro hmissing
    constructor
    · by_contra hone
      refine hmissing fun j hjs hlt => ?_
      obtain rfl : j = s := by omega
      exact hs
    · exact fun hconfirmed => hmissing fun j hjs hlt => hconfirmed j (by omega) hjs

/-- An entry is allowed if its signal is given, the cooldown is over, the signals before are given as
far as they are asked for, and there are not too many entries this week. -/
theorem isEntryAllowed_iff {i s n : ℕ} {signals : List ℤ} {lastExitBar : Option ℕ} :
    isEntryAllowed i s signals lastExitBar n profile = true ↔
      signals[s]? = some 1 ∧ (∀ b ∈ lastExitBar, profile.minBarsAfterExit ≤ (i : ℤ) - b) ∧
        (∀ j ≤ s, (s : ℤ) < j + profile.confirmBars → signals[j]? = some 1) ∧
          ∀ most ∈ profile.maxEntriesPerWeek, (n : ℤ) < most := by
  rw [isEntryAllowed]
  by_cases hs : signals[s]? = some 1
  · rw [if_neg (not_not.2 hs), if_congr (confirmed_iff hs) rfl rfl]
    cases lastExitBar <;> cases profile.maxEntriesPerWeek <;> simp [hs]
  · simp [hs]

theorem getElem?_signal (bars : List Bar) (j : ℕ) :
    (bars.map Bar.signal)[j]? = some 1 ↔ (barAt bars j).signal = 1 := by
  rw [List.getElem?_map, barAt, List.getD_eq_getElem?_getD]
  cases bars[j]? with
  | none => decide
  | some b => simp

/-! ### Entries within the limits -/

variable (cfg bars profile) in
/-- An entry at a bar is within the limits, after some trades: enough bars have passed since their
exits, the signals are given, and there are not too many entries in the seven days up to it. -/
structure WithinLimits (before : List Trade) (i : ℕ) : Prop where
  cooldown : ∀ a ∈ before, profile.minBarsAfterExit ≤ (i : ℤ) - a.exitBar
  signal : (barAt bars (signalBar cfg i)).signal = 1
  confirmed : ∀ j ≤ signalBar cfg i, (signalBar cfg i : ℤ) < j + profile.confirmBars →
    (barAt bars j).signal = 1
  weekly : ∀ most ∈ profile.maxEntriesPerWeek,
    ((before.filter fun a => (barAt bars i).ts - 7 * 86400 ≤
      (barAt bars a.position.entryBar).ts).length : ℤ) + 1 ≤ most

/-- The entries of a state, with their times. -/
def State.entries (bars : List Bar) (st : State) : List (ℕ × ℤ) :=
  (st.trades.map Trade.position ++ st.position.toList).map fun p =>
    (p.entryBar, (barAt bars p.entryBar).ts)

variable (bars) in
/-- What a state knows of the exits and the entries: the last exit, and the entries of the last seven
days. -/
structure History (i : ℕ) (st : State) : Prop where
  lastExit : st.lastExitBar = st.trades.getLast?.map Trade.exitBar
  ascending : st.trades.Pairwise fun a b => a.exitBar ≤ b.exitBar
  recent : ∀ since, (barAt bars i).ts - 7 * 86400 ≤ since →
    (st.entryBarsWithTs.filter fun e => since ≤ e.2) =
      (st.entries bars).filter fun e => since ≤ e.2

/-- The exits of a state are at its last one at the latest. -/
theorem History.exitBar_le {i : ℕ} {st : State} (h : History bars i st) {a : Trade}
    (ha : a ∈ st.trades) : ∃ b ∈ st.lastExitBar, a.exitBar ≤ b := by
  rw [h.lastExit]
  have hasc := h.ascending
  generalize st.trades = trades at ha hasc
  induction trades using List.reverseRecOn with
  | nil => exact absurd ha List.not_mem_nil
  | append_singleton l t _ =>
      refine ⟨t.exitBar, by simp, ?_⟩
      rcases List.mem_append.1 ha with hl | ht
      · exact (List.pairwise_append.1 hasc).2.2 a hl t (List.mem_singleton_self t)
      · rw [List.mem_singleton.1 ht]

/-- An entry is allowed just when it is within the limits. -/
theorem gatingAllows_iff {i : ℕ} {st : State} (h : History bars i st) (hnone : st.position = none) :
    gatingAllows cfg bars profile i st = true ↔ WithinLimits cfg bars profile st.trades i := by
  have hcooldown : (∀ b ∈ st.lastExitBar, profile.minBarsAfterExit ≤ (i : ℤ) - b) ↔
      ∀ a ∈ st.trades, profile.minBarsAfterExit ≤ (i : ℤ) - a.exitBar := by
    constructor
    · intro hover a ha
      obtain ⟨b, hb, hle⟩ := h.exitBar_le ha
      have hb := hover b hb
      omega
    · intro hover b hb
      rw [h.lastExit] at hb
      obtain ⟨a, ha, rfl⟩ := Option.map_eq_some_iff.1 hb
      exact hover a (List.mem_of_getLast? ha)
  have hweek : (recentEntries bars i st).length =
      (st.trades.filter fun a => (barAt bars i).ts - 7 * 86400 ≤
        (barAt bars a.position.entryBar).ts).length := by
    rw [recentEntries, h.recent _ le_rfl, State.entries, hnone, Option.toList_none, List.append_nil,
      List.map_map, List.filter_map, List.length_map]
    rfl
  rw [gatingAllows, isEntryAllowed_iff, hcooldown, hweek]
  simp only [getElem?_signal, Int.lt_iff_add_one_le]
  constructor
  · rintro ⟨hsignal, hover, hconfirmed, hfew⟩
    exact ⟨hover, hsignal, hconfirmed, hfew⟩
  · rintro ⟨hover, hsignal, hconfirmed, hfew⟩
    exact ⟨hsignal, hover, hconfirmed, hfew⟩

/-! ### Runs -/

/-- The position of a trade that is closed was opened before. -/
theorem entries_exit (bars : List Bar) {st : State} {p : Position} (hp : st.position = some p)
    (i : ℕ) (price : ℚ) (reason : Reason) (last : Option ℕ) :
    State.entries bars { st with
      position := none
      lastExitBar := last
      trades := st.trades ++ [⟨p, i, price, reason⟩] } = st.entries bars := by
  simp [State.entries, hp]

/-- The exits of a bar keep the history. -/
theorem History.exitStep {i : ℕ} {st mid : State} (h : History bars i st)
    (hle : ∀ a ∈ st.trades, a.exitBar ≤ i + 1)
    (hmid : LabRunner.exitStep tz cfg bars (i + 1) st = some mid) : History bars i mid := by
  rcases exitStep_cases hmid with ⟨rfl, -⟩ | ⟨p, reason, price, hp, -, rfl⟩
  · exact h
  · refine ⟨by simp, ?_, fun since hsince => ?_⟩
    · refine List.pairwise_append.2 ⟨h.ascending, List.pairwise_singleton _ _, fun a ha b hb => ?_⟩
      rw [List.mem_singleton.1 hb]
      exact hle a ha
    · rw [entries_exit bars hp]
      exact h.recent since hsince

/-- As time goes on, less is asked of the history. -/
theorem History.mono {i j : ℕ} {st : State} (h : History bars i st)
    (hts : (barAt bars i).ts ≤ (barAt bars j).ts) : History bars j st :=
  ⟨h.lastExit, h.ascending, fun since hsince => h.recent since (by omega)⟩

/-- Dropping entries that are older than seven days keeps the history. -/
theorem History.prune {i : ℕ} {st : State} (h : History bars i st) (filtered : ℕ) :
    History bars i { st with
      entryBarsWithTs := recentEntries bars i st
      signalsFiltered := filtered } := by
  refine ⟨h.lastExit, h.ascending, fun since hsince => ?_⟩
  refine Eq.trans ?_ (h.recent since hsince)
  rw [recentEntries, List.filter_filter]
  refine List.filter_congr fun e _ => ?_
  by_cases he : since ≤ e.2
  · have hrecent := hsince.trans he
    rw [decide_eq_true he, decide_eq_true hrecent, Bool.and_true]
  · simp [he]

/-- An entry that is made is added to the history. -/
theorem History.enter {i : ℕ} {st : State} {p : Position} (h : History bars i st)
    (hnone : st.position = none) (hbar : p.entryBar = i) :
    History bars i { st with
      position := some p
      entryBarsWithTs := recentEntries bars i st ++ [(i, (barAt bars i).ts)] } := by
  refine ⟨h.lastExit, h.ascending, fun since hsince => ?_⟩
  have hrecent := (h.prune st.signalsFiltered).recent since hsince
  rw [List.filter_append]
  simp only [State.entries, hnone, Option.toList_none, List.append_nil] at hrecent
  simp only [State.entries, Option.toList_some, List.map_append, List.filter_append, hrecent,
    List.map_singleton, hbar]

/-- The entry of a bar keeps the history. -/
theorem History.entryStep {i : ℕ} {st : State} (h : History bars i st)
    (hgating : cfg.entryGating = some profile) :
    History bars i (LabRunner.entryStep tz cfg bars i st) := by
  rw [LabRunner.entryStep]
  by_cases hcan : canEnter tz cfg bars i st = true
  · have hnone : st.position = none := by
      simp only [canEnter, Bool.and_eq_true] at hcan
      exact Option.isNone_iff_eq_none.1 hcan.1.1.1
    rw [if_pos hcan, hgating]
    dsimp only
    split
    · cases hnew : newPosition cfg bars i with
      | none => exact h.prune st.signalsFiltered
      | some p => exact h.enter hnone (newPosition_entry hnew).1
    · exact h.prune _
  · rw [if_neg hcan]
    exact h

theorem history_start : History bars 0 State.start :=
  ⟨rfl, List.Pairwise.nil, fun _ _ => rfl⟩

/-- What the exits of the next bar leave of the history. -/
theorem History.next {i : ℕ} {st mid : State} (h : History bars i st)
    (hasc : bars.Pairwise (·.ts ≤ ·.ts)) (hi : i + 1 < bars.length)
    (hst : after tz cfg bars i = some st)
    (hmid : LabRunner.exitStep tz cfg bars (i + 1) st = some mid) : History bars (i + 1) mid := by
  have hts : (barAt bars i).ts ≤ (barAt bars (i + 1)).ts := by
    have hprev : i < bars.length := by omega
    rw [barAt, barAt, List.getD_eq_getElem?_getD, List.getD_eq_getElem?_getD,
      List.getElem?_eq_getElem hi, List.getElem?_eq_getElem hprev]
    exact List.pairwise_iff_getElem.1 hasc i (i + 1) hprev hi i.lt_succ_self
  have hle : ∀ a ∈ st.trades, a.exitBar ≤ i + 1 := fun a ha =>
    ((sound_after hst).trades a ha).2.trans i.le_succ
  exact (h.exitStep hle hmid).mono hts

/-- After each bar the history is right, if the bars ascend. -/
theorem history_after (hgating : cfg.entryGating = some profile)
    (hasc : bars.Pairwise (·.ts ≤ ·.ts)) {i : ℕ} (hi : i < bars.length) {st : State}
    (h : after tz cfg bars i = some st) : History bars i st := by
  induction i generalizing st with
  | zero =>
      cases h
      exact history_start
  | succ i ih =>
      obtain ⟨prev, mid, hprev, hmid, rfl⟩ := after_succ h
      exact ((ih (by omega) hprev).next hasc hi hprev hmid).entryStep hgating

variable (cfg bars profile) in
/-- The trades and the position of a state are within the limits. -/
structure AllWithin (st : State) : Prop where
  trades : ∀ k t, st.trades[k]? = some t →
    WithinLimits cfg bars profile (st.trades.take k) t.position.entryBar
  position : ∀ p, st.position = some p → WithinLimits cfg bars profile st.trades p.entryBar

/-- A trade that is closed was within the limits when it was opened. -/
theorem AllWithin.append {st : State} (h : AllWithin cfg bars profile st) {t : Trade}
    (ht : st.position = some t.position) (k : ℕ) (u : Trade)
    (hu : (st.trades ++ [t])[k]? = some u) :
    WithinLimits cfg bars profile ((st.trades ++ [t]).take k) u.position.entryBar := by
  rcases Nat.lt_trichotomy k st.trades.length with hlt | rfl | hgt
  · rw [List.getElem?_append_left hlt] at hu
    rw [List.take_append_of_le_length hlt.le]
    exact h.trades k u hu
  · rw [List.getElem?_concat_length] at hu
    rw [List.take_left, ← Option.some.inj hu]
    exact h.position _ ht
  · rw [List.getElem?_eq_none (by rw [List.length_append]; exact hgt)] at hu
    cases hu

theorem allWithin_after (hgating : cfg.entryGating = some profile)
    (hasc : bars.Pairwise (·.ts ≤ ·.ts)) {i : ℕ} (hi : i < bars.length) {st : State}
    (h : after tz cfg bars i = some st) : AllWithin cfg bars profile st := by
  induction i generalizing st with
  | zero =>
      cases h
      exact ⟨fun k t ht => by simp [State.start] at ht, fun p hp => by cases hp⟩
  | succ i ih =>
      obtain ⟨prev, mid, hprev, hmid, rfl⟩ := after_succ h
      have hhistory := (history_after hgating hasc (by omega) hprev).next hasc hi hprev hmid
      have hall : AllWithin cfg bars profile mid := by
        have hbefore := ih (by omega) hprev
        rcases exitStep_cases hmid with ⟨rfl, -⟩ | ⟨p, reason, price, hp, -, rfl⟩
        · exact hbefore
        · refine ⟨?_, fun q hq => by cases hq⟩
          exact hbefore.append (t := ⟨p, i + 1, price, reason⟩) hp
      obtain ⟨hposition, htrades, -⟩ := @entryStep_spec tz cfg bars (i + 1) mid
      refine ⟨by rw [htrades]; exact hall.trades, fun p hp => ?_⟩
      rw [htrades]
      rw [hposition] at hp
      cases hmidp : mid.position with
      | some q =>
          rw [hmidp, Option.some_or] at hp
          exact hall.position p (hmidp.trans hp)
      | none =>
          rw [hmidp, Option.none_or] at hp
          have hbar := (newPosition_entry (entryAt_eq_some hp).2.2).1
          rw [entryAt] at hp
          split at hp
          · next hcan =>
              rw [hbar]
              exact (gatingAllows_iff hhistory hmidp).1 (hcan.2 profile hgating)
          · cases hp

/-- Every entry of a backtest with a profile is within the limits, after the trades before; and a
signal that no open trade and no weekend prevents is skipped only if an entry would not be, after the
trades that are closed by then. -/
theorem gating_spec (tz : ZoneInfo) (cfg : Config) (profile : GatingProfile) (bars : List Bar)
    (trades : List Trade) (hgating : cfg.entryGating = some profile)
    (hasc : bars.Pairwise (·.ts ≤ ·.ts)) (h : simulateTrades tz cfg bars = some trades) :
    (∀ k t, trades[k]? = some t →
      WithinLimits cfg bars profile (trades.take k) t.position.entryBar) ∧
    ∀ i st mid, i + 1 < bars.length → after tz cfg bars i = some st →
      exitStep tz cfg bars (i + 1) st = some mid → canEnter tz cfg bars (i + 1) mid = true →
        gatingAllows cfg bars profile (i + 1) mid = false →
          ¬ WithinLimits cfg bars profile (trades.filter (decidedBefore (i + 2))) (i + 1) := by
  constructor
  · obtain ⟨st, hst, hend⟩ := simulateTrades_eq_some h
    by_cases hnil : bars = []
    · subst hnil
      cases hst
      rcases hend with ⟨-, rfl⟩ | ⟨p, hp, -⟩
      · simp [State.start]
      · cases hp
    · have hlast : lastBar bars < bars.length := by
        have hpos := List.length_pos_iff.2 hnil
        rw [lastBar]
        omega
      have hall := allWithin_after hgating hasc hlast hst
      rcases hend with ⟨-, rfl⟩ | ⟨p, hp, rfl⟩
      · exact hall.trades
      · exact hall.append hp
  · intro i st mid hi hst hmid hcan hrefused
    have hhistory := (history_after hgating hasc (by omega) hst).next hasc hi hst hmid
    have hnone : mid.position = none := by
      simp only [canEnter, Bool.and_eq_true] at hcan
      exact Option.isNone_iff_eq_none.1 hcan.1.1.1
    have hafter : after tz cfg bars (i + 1) = some (entryStep tz cfg bars (i + 1) mid) := by
      rw [after, hst, Option.bind_some, step, hmid, Option.map_some]
    rw [filter_decidedBefore h hi hafter, (entryStep_spec (i + 1) mid).2.1,
      ← gatingAllows_iff hhistory hnone, hrefused]
    exact Bool.false_ne_true

/-- Signals on three bars are asked for. -/
def threeSignals : Config := { entryGating := some { confirmBars := 3 } }

theorem threeSignals_trades : simulateTrades winter threeSignals alwaysSignal =
    some [⟨⟨1, 100, none, none⟩, 2, 100, .endOfRange⟩] := rfl

theorem gating_spec_threeSignals :
    (∀ k t, [(⟨⟨1, 100, none, none⟩, 2, 100, .endOfRange⟩ : Trade)][k]? = some t →
      WithinLimits threeSignals alwaysSignal { confirmBars := 3 }
        ([(⟨⟨1, 100, none, none⟩, 2, 100, .endOfRange⟩ : Trade)].take k) t.position.entryBar) ∧
    ∀ i st mid, i + 1 < alwaysSignal.length → after winter threeSignals alwaysSignal i = some st →
      exitStep winter threeSignals alwaysSignal (i + 1) st = some mid →
        canEnter winter threeSignals alwaysSignal (i + 1) mid = true →
          gatingAllows threeSignals alwaysSignal { confirmBars := 3 } (i + 1) mid = false →
            ¬ WithinLimits threeSignals alwaysSignal { confirmBars := 3 }
              ([(⟨⟨1, 100, none, none⟩, 2, 100, .endOfRange⟩ : Trade)].filter
                (decidedBefore (i + 2))) (i + 1) :=
  gating_spec winter threeSignals { confirmBars := 3 } alwaysSignal _ rfl (by decide)
    threeSignals_trades

/-- The first signal opens a trade, although there are no three bars that end at it. -/
theorem early_entry :
    ¬ ∀ trades, simulateTrades winter threeSignals alwaysSignal = some trades → ∀ t ∈ trades,
      ∀ n < 3, ∃ j, j + n = signalBar threeSignals t.position.entryBar ∧
        (barAt alwaysSignal j).signal = 1 := by
  intro h
  obtain ⟨j, hj, -⟩ := h _ threeSignals_trades _ (List.mem_singleton_self _) 2 (by decide)
  have hbar : signalBar threeSignals 1 = 0 := rfl
  rw [hbar] at hj
  omega

end LabRunner
