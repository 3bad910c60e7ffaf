/-
**Candles of one minute from a stream of ticks.**

The builder collects the ticks of a minute.  A tick in a later minute closes the candle of the
minute before, and `finalize_current` returns the candle of the current minute.  Minutes are
compared as the clock of the builder's zone shows them, so that the ticks of the hour that is
repeated in autumn join the last minute before it.  And `finalize_current` leaves the builder as it
is, so that its candle is returned once more later.

Next to the builder a run keeps the ticks that went into the current minute, and with each candle
those that went into it.

Main definitions:

* `Tick`, `OpenMinute`, `CandleBuilder` — ticks, the minute in progress, the builder;
* `CandleBuilder.onTick`, `CandleBuilder.finalizeCurrent` — the calls;
* `CandleBuilder.run` — some calls, with the ticks of each candle;
* `CandleBuilder.Faithful` — the candles partition the ticks by their minutes.

Main results:

* `CandleBuilder.run_inv` — every candle has the prices and the volume of its ticks;
* `CandleBuilder.run_ticks` — which ticks go together;
* `CandleBuilder.faithful_iff` — exactly when the candles partition the ticks by their minutes;
* `CandleBuilder.repeated_hour_merged` — a run in which they do not.
-/

import Brokerage.CsvStore
import Brokerage.Rises

set_option relaxedAutoImplicit false
set_option autoImplicit false

/-- A tick of the symbol. -/
structure Tick where
  price : ℚ
  timestamp : AwareDatetime
  volume : Option ℚ := none
  deriving DecidableEq

/-- The minute in progress: the fields that the first tick of a minute sets together. -/
structure OpenMinute where
  minute : AwareDatetime
  bar : PriceBar
  volume : ℚ
  deriving DecidableEq

/-- The builder of the candles of one symbol. -/
structure CandleBuilder where
  tz : TimeZone
  current : Option OpenMinute

/-- A call of the builder. -/
inductive BuilderCall
  | onTick (tick : Tick)
  | finalizeCurrent
  deriving DecidableEq

namespace OpenMinute

/-- A new minute, with its first tick. -/
def start (minute : AwareDatetime) (tick : Tick) : OpenMinute :=
  ⟨minute, PriceBar.first tick.price, tick.volume.getD 0⟩

/-- The minute with one more tick. -/
def updateOhlc (m : OpenMinute) (tick : Tick) : OpenMinute :=
  { m with bar := m.bar.add tick.price, volume := m.volume + tick.volume.getD 0 }

/-- The candle of the minute; making it raises if its volume is negative. -/
def finalize (m : OpenMinute) : Option Candle :=
  (Ohlcv.new? m.bar m.volume).map fun ohlcv => ⟨m.minute, ohlcv, true⟩

end OpenMinute

namespace CandleBuilder

variable (z : Zones)

/-! ### The builder -/

/-- A builder without ticks. -/
def new (tz : TimeZone) : CandleBuilder := ⟨tz, none⟩

/-- The start of the minute that the clock of the builder's zone shows. -/
def getMinuteBoundary (tz : TimeZone) (timestamp : AwareDatetime) : AwareDatetime :=
  (tz.astimezone timestamp).startOfMinute

/-- Whether a tick begins a new minute: there is none, or the tick's is later. -/
def begins (b : CandleBuilder) (tick : Tick) : Bool :=
  match b.current with
  | none => true
  | some m => z.lt m.minute (getMinuteBoundary b.tz tick.timestamp)

/-- A tick: the candle that it closes, if any, and the builder.  Making the candle may raise. -/
def onTick (b : CandleBuilder) (tick : Tick) : Option (Option Candle × CandleBuilder) :=
  let next := OpenMinute.start (getMinuteBoundary b.tz tick.timestamp) tick
  match b.current with
  | none => some (none, { b with current := some next })
  | some m =>
      if b.begins z tick then
        match m.finalize with
        | none => none
        | some candle => some (some candle, { b with current := some next })
      else some (none, { b with current := some (m.updateOhlc tick) })

/-- The candle of the current minute, if there is one; the builder does not change. -/
def finalizeCurrent (b : CandleBuilder) : Option (Option Candle × CandleBuilder) :=
  match b.current with
  | none => some (none, b)
  | some m => m.finalize.map fun candle => (some candle, b)

/-- A call of the builder. -/
def call (b : CandleBuilder) : BuilderCall → Option (Option Candle × CandleBuilder)
  | .onTick tick => b.onTick z tick
  | .finalizeCurrent => b.finalizeCurrent

/-! ### Runs -/

/-- The ticks in the current minute after a call, from those before it. -/
def heldAfter (b : CandleBuilder) (held : List Tick) : BuilderCall → List Tick
  | .onTick tick => if b.begins z tick then [tick] else held ++ [tick]
  | .finalizeCurrent => held

/-- A candle with the ticks that went into it. -/
abbrev Traced := Candle × List Tick

/-- Some calls, until one raises: the candles, the builder, and the ticks in its minute. -/
def run (b : CandleBuilder) (held : List Tick) :
    List BuilderCall → Option (List Traced × CandleBuilder × List Tick)
  | [] => some ([], b, held)
  | c :: cs =>
      match b.call z c with
      | none => none
      | some (candle, b') =>
          match run b' (heldAfter z b held c) cs with
          | none => none
          | some (candles, last) =>
              some ((candle.map fun candle => (candle, held)).toList ++ candles, last)

/-- The ticks of some calls. -/
def ticksOf (calls : List BuilderCall) : List Tick :=
  calls.filterMap fun
    | .onTick tick => some tick
    | .finalizeCurrent => none

/-- The minute that a tick is in, by its instant. -/
def minute (t : Tick) : ℤ := floorMinute (z.instant t.timestamp)

/-- The minute that a tick is in, as the clock of a zone shows it. -/
def clock (tz : TimeZone) (t : Tick) : ℤ := (getMinuteBoundary tz t.timestamp).wall

/-- The volume of some ticks. -/
def volumeOf (ts : List Tick) : ℚ := (ts.map fun t => t.volume.getD 0).sum

/-- The ticks in progress: those in the current minute, unless its candle was just returned. -/
def inProgress (calls : List BuilderCall) (held : List Tick) : List (List Tick) :=
  if calls.getLast? = some .finalizeCurrent ∨ held = [] then [] else [held]

/-- A minute, with its prices and its volume, is made of some ticks. -/
structure MadeOf (start : AwareDatetime) (bar : PriceBar) (volume : ℚ) (ts : List Tick) : Prop where
  minute : ∀ t ∈ ts, z.instant start = minute z t
  bar : bar.IsBarOf (ts.map Tick.price)
  volume : volume = volumeOf ts

/-- The candles that were returned, and the one in progress, partition the ticks by their minutes:
one candle a minute, made of its ticks, in the order of the minutes. -/
structure Faithful (calls : List BuilderCall) (candles : List Traced) (b : CandleBuilder)
    (held : List Tick) : Prop where
  partition : (candles.map Prod.snd ++ inProgress calls held).flatten = ticksOf calls
  split : Rises.IsSplit (minute z) (candles.map Prod.snd ++ inProgress calls held)
  candles : ∀ p ∈ candles, MadeOf z p.1.timestamp p.1.ohlcv.bar p.1.ohlcv.volume p.2
  current : ∀ g ∈ inProgress calls held, ∃ m, b.current = some m ∧
    MadeOf z m.minute m.bar m.volume g

/-! ### The conditions -/

/-- When `finalize_current` has returned a candle, no call comes after it. -/
def FinalizeLast (calls : List BuilderCall) : Prop :=
  ∀ pre post, calls = pre ++ .finalizeCurrent :: post → ticksOf pre ≠ [] → post = []

/-- A tick is the first one of its minute exactly if the clock shows a later minute for it than for
all ticks before; and the minute that the clock shows then is that of the instant. -/
def ClockTells (tz : TimeZone) (ts : List Tick) : Prop :=
  ∀ pre t post, ts = pre ++ t :: post →
    (Rises.Record (minute z) pre t ↔ Rises.Record (clock tz) pre t) ∧
    (Rises.Record (minute z) pre t →
      z.instant (getMinuteBoundary tz t.timestamp) = minute z t)

/-- The minutes that are over, because of a tick in a later one or because of
`finalize_current`, have no negative volume. -/
def VolumesNonneg (calls : List BuilderCall) : Prop :=
  ∀ t ∈ ticksOf calls, ((∃ u ∈ ticksOf calls, minute z t < minute z u) ∨
      calls.getLast? = some .finalizeCurrent) →
    0 ≤ volumeOf ((ticksOf calls).filter fun u => minute z u = minute z t)

/-! ### What the builder collects -/

variable {z} {tz : TimeZone}

/-- A minute, with its prices and its volume, as the builder makes it of some ticks. -/
def Collects (tz : TimeZone) (start : AwareDatetime) (bar : PriceBar) (volume : ℚ)
    (ts : List Tick) : Prop :=
  ∃ t more, ts = t :: more ∧ start = getMinuteBoundary tz t.timestamp ∧
    bar.IsBarOf (ts.map Tick.price) ∧ volume = volumeOf ts

/-- The builder holds the ticks. -/
def Holds (tz : TimeZone) (b : CandleBuilder) (held : List Tick) : Prop :=
  b.tz = tz ∧
    match b.current with
    | none => held = []
    | some m => Collects tz m.minute m.bar m.volume held

/-- The candle was made of its ticks. -/
def Built (tz : TimeZone) (p : Traced) : Prop :=
  Collects tz p.1.timestamp p.1.ohlcv.bar p.1.ohlcv.volume p.2

theorem holds_new (tz : TimeZone) : Holds tz (new tz) [] := ⟨rfl, rfl⟩

theorem volumeOf_append (ts us : List Tick) : volumeOf (ts ++ us) = volumeOf ts + volumeOf us := by
  rw [volumeOf, List.map_append, List.sum_append]
  rfl

theorem collects_start (t : Tick) :
    Collects tz (getMinuteBoundary tz t.timestamp) (PriceBar.first t.price) (t.volume.getD 0) [t] :=
  ⟨t, [], rfl, rfl, PriceBar.isBarOf_first t.price, by simp [volumeOf]⟩

theorem Collects.updateOhlc {m : OpenMinute} {held : List Tick}
    (h : Collects tz m.minute m.bar m.volume held) (t : Tick) :
    Collects tz (m.updateOhlc t).minute (m.updateOhlc t).bar (m.updateOhlc t).volume
      (held ++ [t]) := by
  obtain ⟨s, more, hheld, hminute, hbar, hvolume⟩ := h
  refine ⟨s, more ++ [t], by rw [hheld, List.cons_append], hminute, ?_, ?_⟩
  · rw [List.map_append]
    exact hbar.add t.price
  · rw [volumeOf_append, ← hvolume]
    simp [OpenMinute.updateOhlc, volumeOf]

/-- A candle that is made of a minute is built of its ticks. -/
theorem Collects.built {m : OpenMinute} {held : List Tick} {candle : Candle}
    (h : Collects tz m.minute m.bar m.volume held) (hcandle : m.finalize = some candle) :
    Built tz (candle, held) := by
  obtain ⟨ohlcv, hnew, rfl⟩ := Option.map_eq_some_iff.1 hcandle
  obtain ⟨hbar, hvolume⟩ := Ohlcv.new?_eq_some hnew
  rw [← hbar, ← hvolume] at h
  exact h

/-- A minute whose volume is not negative makes a candle. -/
theorem Collects.exists_finalize {m : OpenMinute} {held : List Tick}
    (h : Collects tz m.minute m.bar m.volume held) (hvolume : 0 ≤ volumeOf held) :
    ∃ candle, m.finalize = some candle := by
  obtain ⟨-, -, -, -, hbar, heq⟩ := h
  obtain ⟨ohlcv, hnew⟩ := Ohlcv.exists_new? hbar (heq ▸ hvolume)
  exact ⟨_, Option.map_eq_some_iff.2 ⟨ohlcv, hnew, rfl⟩⟩

/-- A tick begins a minute if the clock shows a later one than for the first tick that is held. -/
theorem begins_iff {b : CandleBuilder} {s t : Tick} {more : List Tick}
    (h : Holds tz b (s :: more)) : b.begins z t = true ↔ clock tz s < clock tz t := by
  obtain ⟨htz, hcurrent⟩ := h
  rw [begins, htz]
  cases hb : b.current with
  | none =>
      rw [hb] at hcurrent
      cases hcurrent
  | some m =>
      rw [hb] at hcurrent
      obtain ⟨s', more', hheld, hminute, -, -⟩ := hcurrent
      obtain ⟨rfl, -⟩ := List.cons.inj hheld
      have hzone : m.minute.zone = (getMinuteBoundary tz t.timestamp).zone := by
        rw [hminute]
        exact (tz.astimezone_zone _).trans (tz.astimezone_zone _).symm
      dsimp only
      rw [Zones.lt, if_pos hzone, hminute, decide_eq_true_eq]
      rfl

/-- What a call leaves, and the candle that it makes. -/
theorem call_holds {b b' : CandleBuilder} {held : List Tick} (h : Holds tz b held)
    {c : BuilderCall} {o : Option Candle} (hcall : b.call z c = some (o, b')) :
    Holds tz b' (heldAfter z b held c) ∧ ∀ candle, o = some candle → Built tz (candle, held) := by
  obtain ⟨htz, hcurrent⟩ := h
  cases c with
  | onTick t =>
      rw [call, onTick] at hcall
      rw [heldAfter]
      cases hb : b.current with
      | none =>
          rw [hb] at hcall
          obtain ⟨rfl, rfl⟩ := Prod.mk.inj (Option.some.inj hcall)
          -- the first tick of a builder begins a minute
          have hbegins : b.begins z t = true := by rw [begins, hb]
          refine ⟨⟨htz, ?_⟩, fun candle ho => by cases ho⟩
          rw [if_pos hbegins, ← htz]
          exact collects_start t
      | some m =>
          rw [hb] at hcall hcurrent
          dsimp only at hcall
          split at hcall
          · rename_i hbegins
            rw [if_pos hbegins]
            split at hcall
            · cases hcall
            · rename_i candle hcandle
              obtain ⟨rfl, rfl⟩ := Prod.mk.inj (Option.some.inj hcall)
              refine ⟨⟨htz, ?_⟩, fun candle' ho => ?_⟩
              · rw [← htz]
                exact collects_start t
              · obtain rfl := Option.some.inj ho
                exact hcurrent.built hcandle
          · rename_i hjoins
            obtain ⟨rfl, rfl⟩ := Prod.mk.inj (Option.some.inj hcall)
            rw [if_neg hjoins]
            exact ⟨⟨htz, hcurrent.updateOhlc t⟩, fun candle ho => by cases ho⟩
  | finalizeCurrent =>
      rw [call, finalizeCurrent] at hcall
      rw [heldAfter]
      cases hb : b.current with
      | none =>
          rw [hb] at hcall hcurrent
          obtain ⟨rfl, rfl⟩ := Prod.mk.inj (Option.some.inj hcall)
          exact ⟨⟨htz, by rw [hb]; exact hcurrent⟩, fun candle ho => by cases ho⟩
      | some m =>
          rw [hb] at hcall hcurrent
          obtain ⟨candle, hcandle, heq⟩ := Option.map_eq_some_iff.1 hcall
          obtain ⟨rfl, rfl⟩ := Prod.mk.inj heq
          refine ⟨⟨htz, by rw [hb]; exact hcurrent⟩, fun candle' ho => ?_⟩
          obtain rfl := Option.some.inj ho
          exact hcurrent.built hcandle

/-! ### Runs, step by step -/

/-- A run that goes through its first call. -/
theorem run_cons_eq_some {b : CandleBuilder} {held : List Tick} {c : BuilderCall}
    {cs : List BuilderCall} {candles : List Traced} {last : CandleBuilder × List Tick} :
    run z b held (c :: cs) = some (candles, last) ↔
      ∃ o b' rest, b.call z c = some (o, b') ∧
        run z b' (heldAfter z b held c) cs = some (rest, last) ∧
        candles = (o.map fun candle => (candle, held)).toList ++ rest := by
  rw [run]
  cases hcall : b.call z c with
  | none => simp
  | some ob =>
      obtain ⟨o, b'⟩ := ob
      cases hrest : run z b' (heldAfter z b held c) cs with
      | none => simp [hrest]
      | some r =>
          obtain ⟨rest, last'⟩ := r
          simp only [hrest, Option.some.injEq, Prod.mk.injEq]
          constructor
          · rintro ⟨rfl, rfl⟩
            exact ⟨o, b', rest, ⟨rfl, rfl⟩, hrest, rfl⟩
          · rintro ⟨o', b'', rest', ⟨rfl, rfl⟩, hrest', rfl⟩
            obtain ⟨rfl, rfl⟩ := Prod.mk.inj (Option.some.inj (hrest.symm.trans hrest'))
            exact ⟨rfl, rfl⟩

/-- Runs compose. -/
theorem run_append_eq_some {b : CandleBuilder} {held : List Tick} {cs ds : List BuilderCall}
    {candles : List Traced} {last : CandleBuilder × List Tick} :
    run z b held (cs ++ ds) = some (candles, last) ↔
      ∃ first b' held' rest, run z b held cs = some (first, b', held') ∧
        run z b' held' ds = some (rest, last) ∧ candles = first ++ rest := by
  induction cs generalizing b held candles with
  | nil =>
      constructor
      · exact fun h => ⟨[], b, held, candles, rfl, h, rfl⟩
      · rintro ⟨first, b', held', rest, hfirst, hrest, rfl⟩
        obtain ⟨rfl, hbh⟩ := Prod.mk.inj (Option.some.inj hfirst)
        obtain ⟨rfl, rfl⟩ := Prod.mk.inj hbh
        exact hrest
  | cons c cs ih =>
      rw [List.cons_append, run_cons_eq_some]
      constructor
      · rintro ⟨o, b', rest, hcall, hrest, rfl⟩
        obtain ⟨first, b'', held'', rest', hfirst, hrest', rfl⟩ := ih.1 hrest
        exact ⟨_, b'', held'', rest', run_cons_eq_some.2 ⟨o, b', first, hcall, hfirst, rfl⟩, hrest',
          (List.append_assoc _ _ _).symm⟩
      · rintro ⟨first, b'', held'', rest', hfirst, hrest', rfl⟩
        obtain ⟨o, b', rest, hcall, hrest, rfl⟩ := run_cons_eq_some.1 hfirst
        exact ⟨o, b', rest ++ rest', hcall, ih.2 ⟨rest, b'', held'', rest', hrest, hrest', rfl⟩,
          List.append_assoc _ _ _⟩

/-- Every candle of a run is built of its ticks, and the builder holds those in progress. -/
theorem run_inv {b : CandleBuilder} {held : List Tick} (h : Holds tz b held)
    {calls : List BuilderCall} {candles : List Traced} {b' : CandleBuilder} {held' : List Tick}
    (hrun : run z b held calls = some (candles, b', held')) :
    Holds tz b' held' ∧ ∀ p ∈ candles, Built tz p := by
  induction calls generalizing b held candles with
  | nil =>
      obtain ⟨rfl, hbh⟩ := Prod.mk.inj (Option.some.inj hrun)
      obtain ⟨rfl, rfl⟩ := Prod.mk.inj hbh
      exact ⟨h, fun p hp => by cases hp⟩
  | cons c cs ih =>
      obtain ⟨o, b₁, rest, hcall, hrest, rfl⟩ := run_cons_eq_some.1 hrun
      obtain ⟨hholds, hbuilt⟩ := call_holds h hcall
      obtain ⟨hlast, hrestBuilt⟩ := ih hholds hrest
      refine ⟨hlast, fun p hp => ?_⟩
      rcases List.mem_append.1 hp with hp | hp
      · obtain ⟨candle, ho, rfl⟩ := Option.map_eq_some_iff.1 (Option.mem_toList.1 hp)
        exact hbuilt candle ho
      · exact hrestBuilt p hp

/-! ### Which ticks go together -/

theorem Holds.ne_nil {b : CandleBuilder} {held : List Tick} (h : Holds tz b held)
    (hne : held ≠ []) : ∃ m, b.current = some m ∧ Collects tz m.minute m.bar m.volume held := by
  obtain ⟨-, hcurrent⟩ := h
  cases hb : b.current with
  | none =>
      rw [hb] at hcurrent
      exact absurd hcurrent hne
  | some m =>
      rw [hb] at hcurrent
      exact ⟨m, rfl, hcurrent⟩

/-- `finalize_current` returns the candle of the ticks that are held, and they stay held. -/
theorem run_finalizeCurrent {b : CandleBuilder} {held : List Tick} (h : Holds tz b held)
    (hne : held ≠ []) {cs : List BuilderCall} {candles : List Traced}
    {last : CandleBuilder × List Tick}
    (hrun : run z b held (.finalizeCurrent :: cs) = some (candles, last)) :
    ∃ candle rest, run z b held cs = some (rest, last) ∧ candles = (candle, held) :: rest := by
  obtain ⟨m, hb, -⟩ := h.ne_nil hne
  obtain ⟨o, b', rest, hcall, hrest, rfl⟩ := run_cons_eq_some.1 hrun
  rw [call, finalizeCurrent, hb] at hcall
  obtain ⟨candle, -, heq⟩ := Option.map_eq_some_iff.1 hcall
  obtain ⟨rfl, rfl⟩ := Prod.mk.inj heq
  exact ⟨candle, rest, hrest, rfl⟩

/-- What a tick does while the builder holds some. -/
theorem onTick_of_holds {b : CandleBuilder} {s t : Tick} {more : List Tick}
    (h : Holds tz b (s :: more)) {o : Option Candle} {b' : CandleBuilder}
    (hcall : b.call z (.onTick t) = some (o, b')) :
    if clock tz s < clock tz t then
      (∃ candle, o = some candle) ∧ heldAfter z b (s :: more) (.onTick t) = [t]
    else o = none ∧ heldAfter z b (s :: more) (.onTick t) = s :: (more ++ [t]) := by
  obtain ⟨m, hb, -⟩ := h.ne_nil (List.cons_ne_nil s more)
  have hbegins := begins_iff (z := z) (t := t) h
  rw [call, onTick, hb] at hcall
  dsimp only at hcall
  rw [heldAfter]
  split
  · rename_i hlt
    rw [if_pos (hbegins.2 hlt)] at hcall ⊢
    split at hcall
    · cases hcall
    · rename_i candle _
      obtain ⟨rfl, -⟩ := Prod.mk.inj (Option.some.inj hcall)
      exact ⟨⟨candle, rfl⟩, rfl⟩
  · rename_i hge
    rw [if_neg fun hlt => hge (hbegins.1 hlt)] at hcall ⊢
    obtain ⟨rfl, -⟩ := Prod.mk.inj (Option.some.inj hcall)
    exact ⟨rfl, List.cons_append⟩

/-- The ticks of the candles of a run along ticks are the groups by the clock. -/
theorem run_ticks {b b' : CandleBuilder} {s : Tick} {more ts held' : List Tick}
    (h : Holds tz b (s :: more)) {candles : List Traced}
    (hrun : run z b (s :: more) (ts.map .onTick) = some (candles, b', held')) :
    candles.map Prod.snd ++ [held'] =
      Rises.splitFrom (clock tz) (clock tz s) (s :: more) ts := by
  induction ts generalizing b s more candles with
  | nil =>
      obtain ⟨rfl, hbh⟩ := Prod.mk.inj (Option.some.inj hrun)
      obtain ⟨-, rfl⟩ := Prod.mk.inj hbh
      rfl
  | cons t ts ih =>
      obtain ⟨o, b₁, rest, hcall, hrest, rfl⟩ := run_cons_eq_some.1 hrun
      have hholds := (call_holds h hcall).1
      have htick := onTick_of_holds h hcall
      rw [Rises.splitFrom]
      split at htick
      · rename_i hlt
        obtain ⟨⟨candle, rfl⟩, hheld⟩ := htick
        rw [hheld] at hholds hrest
        rw [if_pos hlt, ← ih hholds hrest]
        rfl
      · rename_i hge
        obtain ⟨rfl, hheld⟩ := htick
        rw [hheld] at hholds hrest
        rw [if_neg hge, List.cons_append, ← ih hholds hrest]
        rfl

/-- A run along ticks does not raise, if no group but the last has a negative volume. -/
theorem exists_run_ticks {b : CandleBuilder} {s : Tick} {more ts : List Tick}
    (h : Holds tz b (s :: more))
    (hvolume : ∀ g ∈ (Rises.splitFrom (clock tz) (clock tz s) (s :: more) ts).dropLast,
      0 ≤ volumeOf g) : ∃ r, run z b (s :: more) (ts.map .onTick) = some r := by
  induction ts generalizing b s more with
  | nil => exact ⟨_, rfl⟩
  | cons t ts ih =>
      obtain ⟨m, hb, hcollects⟩ := h.ne_nil (List.cons_ne_nil s more)
      -- the builder begins a minute exactly where the list is split
      have hbegins := begins_iff (z := z) (t := t) h
      rw [Rises.splitFrom] at hvolume
      have hcall : ∃ ob, b.call z (.onTick t) = some ob := by
        rw [call, onTick, hb]
        dsimp only
        split
        · rename_i hlt
          rw [if_pos (hbegins.1 hlt)] at hvolume
          obtain ⟨more', groups, heq⟩ :=
            Rises.splitFrom_eq_cons (clock tz) (clock tz t) [t] ts
          rw [heq, List.dropLast_cons_of_ne_nil (List.cons_ne_nil _ _)] at hvolume
          obtain ⟨candle, hcandle⟩ :=
            hcollects.exists_finalize (hvolume _ List.mem_cons_self)
          rw [hcandle]
          exact ⟨_, rfl⟩
        · exact ⟨_, rfl⟩
      obtain ⟨⟨o, b₁⟩, hcall⟩ := hcall
      have hholds := (call_holds h hcall).1
      have htick := onTick_of_holds h hcall
      -- the ticks to come are split as before, from the new group or the longer one
      have hrest : ∃ r, run z b₁ (heldAfter z b (s :: more) (.onTick t)) (ts.map .onTick) =
          some r := by
        split at htick
        · rename_i hlt
          obtain ⟨-, hheld⟩ := htick
          rw [hheld] at hholds ⊢
          rw [if_pos hlt] at hvolume
          obtain ⟨more', groups, heq⟩ :=
            Rises.splitFrom_eq_cons (clock tz) (clock tz t) [t] ts
          refine ih hholds fun g hg => hvolume g ?_
          rw [heq] at hg ⊢
          rw [List.dropLast_cons_of_ne_nil (List.cons_ne_nil _ _)]
          exact List.mem_cons_of_mem _ hg
        · rename_i hge
          obtain ⟨-, hheld⟩ := htick
          rw [hheld] at hholds ⊢
          rw [if_neg hge] at hvolume
          exact ih hholds hvolume
      obtain ⟨⟨rest, last⟩, hrest⟩ := hrest
      exact ⟨_, run_cons_eq_some.2 ⟨o, b₁, rest, hcall, hrest, rfl⟩⟩

/-! ### Calls that end with `finalize_current` -/

/-- Some calls of `finalize_current`, some ticks, and perhaps a last call of `finalize_current`. -/
def shape (n : ℕ) (ts : List Tick) (final : Bool) : List BuilderCall :=
  List.replicate n .finalizeCurrent ++
    (ts.map .onTick ++ if final then [.finalizeCurrent] else [])

theorem ticksOf_append (cs ds : List BuilderCall) :
    ticksOf (cs ++ ds) = ticksOf cs ++ ticksOf ds := List.filterMap_append

theorem ticksOf_map (ts : List Tick) : ticksOf (ts.map .onTick) = ts := by
  rw [ticksOf, List.filterMap_map]
  exact List.filterMap_some

theorem ticksOf_replicate (n : ℕ) :
    ticksOf (List.replicate n .finalizeCurrent) = [] := by
  induction n with
  | zero => rfl
  | succ n ih => exact ih

theorem ticksOf_shape (n : ℕ) (ts : List Tick) (final : Bool) : ticksOf (shape n ts final) = ts := by
  rw [shape, ticksOf_append, ticksOf_append, ticksOf_replicate, ticksOf_map]
  cases final
  · simp [ticksOf]
  · simp [ticksOf]

/-- Calls in which `finalize_current` comes last. -/
theorem exists_shape {calls : List BuilderCall} (h : FinalizeLast calls) :
    ∃ n ts final, calls = shape n ts final ∧ (final = true → ts ≠ []) := by
  -- behind a tick the only call of `finalize_current` is the last call
  have hbehind : ∀ cs : List BuilderCall,
      (∀ pre post, cs = pre ++ .finalizeCurrent :: post → post = []) →
      ∃ (ts : List Tick) (final : Bool),
        cs = ts.map .onTick ++ if final then [.finalizeCurrent] else [] := by
    intro cs hcs
    induction cs with
    | nil => exact ⟨[], false, rfl⟩
    | cons c cs ih =>
        cases c with
        | onTick t =>
            obtain ⟨ts, final, rfl⟩ := ih fun pre post heq =>
              hcs (.onTick t :: pre) post (by rw [heq, List.cons_append])
            exact ⟨t :: ts, final, rfl⟩
        | finalizeCurrent =>
            obtain rfl := hcs [] cs rfl
            exact ⟨[], true, rfl⟩
  induction calls with
  | nil => exact ⟨0, [], false, rfl, fun hf => by cases hf⟩
  | cons c cs ih =>
      cases c with
      | onTick t =>
          obtain ⟨ts, final, rfl⟩ := hbehind cs fun pre post heq =>
            h (.onTick t :: pre) post (by rw [heq, List.cons_append]) (List.cons_ne_nil _ _)
          exact ⟨0, t :: ts, final, rfl, fun _ => List.cons_ne_nil t ts⟩
      | finalizeCurrent =>
          obtain ⟨n, ts, final, rfl, hfinal⟩ := ih fun pre post heq hne =>
            h (.finalizeCurrent :: pre) post (by rw [heq, List.cons_append]) hne
          exact ⟨n + 1, ts, final, rfl, hfinal⟩

/-- Without ticks `finalize_current` does nothing. -/
theorem run_replicate (n : ℕ) (calls : List BuilderCall) :
    run z (new tz) [] (List.replicate n .finalizeCurrent ++ calls) = run z (new tz) [] calls := by
  induction n with
  | zero => rfl
  | succ n ih =>
      rw [List.replicate_succ, List.cons_append, run]
      have hcall : (new tz).call z .finalizeCurrent = some (none, new tz) := rfl
      rw [hcall]
      dsimp only
      rw [heldAfter, ih]
      cases run z (new tz) [] calls with
      | none => rfl
      | some r => rfl

variable (z tz) in
/-- The first tick begins a minute. -/
theorem run_first (t : Tick) (calls : List BuilderCall) :
    ∃ b, Holds tz b [t] ∧
      run z (new tz) [] (.onTick t :: calls) = run z b [t] calls := by
  obtain ⟨b, hcall⟩ : ∃ b, (new tz).call z (.onTick t) = some (none, b) := ⟨_, rfl⟩
  have hheld : heldAfter z (new tz) [] (.onTick t) = [t] := rfl
  refine ⟨b, by rw [← hheld]; exact (call_holds (holds_new tz) hcall).1, ?_⟩
  rw [run, hcall]
  dsimp only
  rw [hheld]
  cases run z b [t] calls with
  | none => rfl
  | some r => rfl

/-- Runs along ticks from a new builder. -/
theorem run_new_ticks {ts : List Tick} {candles : List Traced} {b' : CandleBuilder}
    {held' : List Tick}
    (hrun : run z (new tz) [] (ts.map .onTick) = some (candles, b', held')) :
    candles.map Prod.snd ++ (if held' = [] then [] else [held']) =
      Rises.split (clock tz) ts ∧ (held' = [] ↔ ts = []) := by
  cases ts with
  | nil =>
      obtain ⟨rfl, hbh⟩ := Prod.mk.inj (Option.some.inj hrun)
      obtain ⟨-, rfl⟩ := Prod.mk.inj hbh
      exact ⟨rfl, Iff.rfl⟩
  | cons t ts =>
      obtain ⟨b, hholds, hfirst⟩ := run_first z tz t (ts.map .onTick)
      rw [List.map_cons, hfirst] at hrun
      have hgroups := run_ticks hholds hrun
      have hne : held' ≠ [] := by
        rintro rfl
        -- groups are not empty
        have hmem : ([] : List Tick) ∈ Rises.split (clock tz) (t :: ts) := by
          rw [Rises.split, ← hgroups]
          exact List.mem_append_right _ (List.mem_singleton_self _)
        obtain ⟨pre, u, post, more, -, hnil, -⟩ := Rises.begins_split hmem
        cases hnil
      rw [if_neg hne]
      exact ⟨hgroups, iff_of_false hne (List.cons_ne_nil t ts)⟩

theorem getLast?_shape_true (n : ℕ) (ts : List Tick) :
    (shape n ts true).getLast? = some .finalizeCurrent := by
  rw [shape, if_pos rfl, ← List.append_assoc]
  exact List.getLast?_concat

theorem getLast?_shape_false {n : ℕ} {ts : List Tick} (hne : ts ≠ []) :
    (shape n ts false).getLast? ≠ some .finalizeCurrent := by
  obtain ⟨ts, t, rfl⟩ := (List.eq_nil_or_concat' ts).resolve_left hne
  have hshape : shape n (ts ++ [t]) false =
      (List.replicate n .finalizeCurrent ++ ts.map .onTick) ++ [.onTick t] := by
    simp [shape]
  rw [hshape, List.getLast?_concat]
  exact fun h => by cases Option.some.inj h

/-- The candles of a run in which `finalize_current` comes last, with the one in progress, have the
groups of the ticks by the clock. -/
theorem run_shape {n : ℕ} {ts : List Tick} {final : Bool} (hfinal : final = true → ts ≠ [])
    {candles : List Traced} {b' : CandleBuilder} {held' : List Tick}
    (hrun : run z (new tz) [] (shape n ts final) = some (candles, b', held')) :
    candles.map Prod.snd ++ inProgress (shape n ts final) held' = Rises.split (clock tz) ts := by
  have hshape : run z (new tz) [] (shape n ts final) =
      run z (new tz) [] (ts.map .onTick ++ if final then [.finalizeCurrent] else []) :=
    run_replicate n _
  rw [hshape, run_append_eq_some] at hrun
  obtain ⟨first, b₁, held₁, rest, hfirst, hrest, rfl⟩ := hrun
  obtain ⟨hgroups, hempty⟩ := run_new_ticks hfirst
  cases final with
  | false =>
      obtain ⟨rfl, hbh⟩ := Prod.mk.inj (Option.some.inj hrest)
      obtain ⟨rfl, rfl⟩ := Prod.mk.inj hbh
      rw [← hgroups, List.append_nil]
      congr 1
      rw [inProgress]
      by_cases hheld : held₁ = []
      · rw [if_pos (Or.inr hheld), if_pos hheld]
      · rw [if_neg hheld, if_neg]
        rintro (hlast | hnil)
        · exact getLast?_shape_false (mt hempty.2 hheld) hlast
        · exact hheld hnil
  | true =>
      -- the final call returns the candle of the last group
      have hne : held₁ ≠ [] := mt hempty.1 (hfinal rfl)
      obtain ⟨candle, rest', hrest', rfl⟩ :=
        run_finalizeCurrent (run_inv (holds_new tz) hfirst).1 hne hrest
      obtain ⟨rfl, -⟩ := Prod.mk.inj (Option.some.inj hrest')
      rw [← hgroups, if_neg hne, inProgress, if_pos (Or.inl (getLast?_shape_true n ts))]
      simp

/-- Such a run does not raise, if no group that is over has a negative volume. -/
theorem exists_run_shape {n : ℕ} {ts : List Tick} {final : Bool} (hfinal : final = true → ts ≠ [])
    (hdropLast : ∀ g ∈ (Rises.split (clock tz) ts).dropLast, 0 ≤ volumeOf g)
    (hlast : final = true → ∀ g ∈ Rises.split (clock tz) ts, 0 ≤ volumeOf g) :
    ∃ r, run z (new tz) [] (shape n ts final) = some r := by
  have hticks : ∃ r, run z (new tz) [] (ts.map .onTick) = some r := by
    cases ts with
    | nil => exact ⟨_, rfl⟩
    | cons t ts =>
        obtain ⟨b, hholds, hfirst⟩ := run_first z tz t (ts.map .onTick)
        rw [List.map_cons, hfirst]
        exact exists_run_ticks hholds hdropLast
  obtain ⟨⟨first, b₁, held₁⟩, hfirst⟩ := hticks
  obtain ⟨hgroups, hempty⟩ := run_new_ticks hfirst
  have hrest : ∃ r, run z b₁ held₁ (if final then [.finalizeCurrent] else []) = some r := by
    cases final with
    | false => exact ⟨_, rfl⟩
    | true =>
        have hne : held₁ ≠ [] := mt hempty.1 (hfinal rfl)
        obtain ⟨m, hb, hcollects⟩ := ((run_inv (holds_new tz) hfirst).1).ne_nil hne
        -- what the builder holds at the end is the last group
        have hmem : held₁ ∈ Rises.split (clock tz) ts := by
          rw [← hgroups, if_neg hne]
          exact List.mem_append_right _ (List.mem_singleton_self held₁)
        obtain ⟨candle, hcandle⟩ := hcollects.exists_finalize (hlast rfl held₁ hmem)
        have hcall : b₁.call z .finalizeCurrent = some (some candle, b₁) := by
          rw [call, finalizeCurrent, hb]
          exact Option.map_eq_some_iff.2 ⟨candle, hcandle, rfl⟩
        exact ⟨_, run_cons_eq_some.2 ⟨_, _, [], hcall, rfl, rfl⟩⟩
  obtain ⟨⟨rest, last⟩, hrest⟩ := hrest
  refine ⟨(first ++ rest, last), (run_replicate n _).trans ?_⟩
  exact run_append_eq_some.2 ⟨first, b₁, held₁, rest, hfirst, hrest, rfl⟩

/-! ### How many ticks the candles have -/

/-- The number of ticks of some candles. -/
def sizeOfCandles (candles : List Traced) : ℕ := (candles.map Prod.snd).flatten.length

theorem sizeOfCandles_append (candles candles' : List Traced) :
    sizeOfCandles (candles ++ candles') = sizeOfCandles candles + sizeOfCandles candles' := by
  simp [sizeOfCandles]

/-- No tick is lost: those of the candles and those that are held are at least as many. -/
theorem length_run {b : CandleBuilder} {held : List Tick} (h : Holds tz b held)
    {calls : List BuilderCall} {candles : List Traced} {b' : CandleBuilder} {held' : List Tick}
    (hrun : run z b held calls = some (candles, b', held')) :
    held.length + (ticksOf calls).length ≤ sizeOfCandles candles + held'.length := by
  induction calls generalizing b held candles with
  | nil =>
      obtain ⟨rfl, hbh⟩ := Prod.mk.inj (Option.some.inj hrun)
      obtain ⟨-, rfl⟩ := Prod.mk.inj hbh
      simp [ticksOf, sizeOfCandles]
  | cons c cs ih =>
      obtain ⟨o, b₁, rest, hcall, hrest, rfl⟩ := run_cons_eq_some.1 hrun
      have hrest' := ih (call_holds h hcall).1 hrest
      rw [sizeOfCandles_append]
      cases c with
      | finalizeCurrent =>
          have hticks : ticksOf (.finalizeCurrent :: cs) = ticksOf cs := rfl
          rw [heldAfter] at hrest'
          rw [hticks]
          omega
      | onTick t =>
          have hticks : (ticksOf (.onTick t :: cs)).length = (ticksOf cs).length + 1 := rfl
          rw [hticks]
          cases held with
          | nil =>
              have hheld : (heldAfter z b [] (.onTick t)).length = 1 := by
                rw [heldAfter]
                split <;> rfl
              rw [List.length_nil]
              omega
          | cons s more =>
              -- the tick is held, alone or with those before it
              have htick := onTick_of_holds h hcall
              split at htick
              · obtain ⟨⟨candle, rfl⟩, hheld⟩ := htick
                rw [hheld] at hrest'
                simp [sizeOfCandles] at hrest' ⊢
                omega
              · obtain ⟨rfl, hheld⟩ := htick
                rw [hheld] at hrest'
                simp [sizeOfCandles] at hrest' ⊢
                omega

/-- The builder holds ticks once there were some. -/
theorem held_ne_nil {b : CandleBuilder} {held : List Tick} {calls : List BuilderCall}
    {candles : List Traced} {b' : CandleBuilder} {held' : List Tick}
    (hrun : run z b held calls = some (candles, b', held'))
    (hne : held ≠ [] ∨ ticksOf calls ≠ []) : held' ≠ [] := by
  induction calls generalizing b held candles with
  | nil =>
      obtain ⟨-, hbh⟩ := Prod.mk.inj (Option.some.inj hrun)
      obtain ⟨-, rfl⟩ := Prod.mk.inj hbh
      exact hne.resolve_right fun h => h rfl
  | cons c cs ih =>
      obtain ⟨o, b₁, rest, -, hrest, -⟩ := run_cons_eq_some.1 hrun
      refine ih hrest ?_
      cases c with
      | onTick t =>
          refine Or.inl ?_
          rw [heldAfter]
          split <;> simp
      | finalizeCurrent => exact hne

/-- A call of `finalize_current` that returns a candle makes the ticks of that candle count twice. -/
theorem length_run_finalize {pre post : List BuilderCall} (hpre : ticksOf pre ≠ [])
    {candles : List Traced} {b' : CandleBuilder} {held' : List Tick}
    (hrun : run z (new tz) [] (pre ++ .finalizeCurrent :: post) = some (candles, b', held')) :
    (ticksOf (pre ++ .finalizeCurrent :: post)).length < sizeOfCandles candles + held'.length := by
  obtain ⟨first, b₁, held₁, rest, hfirst, hrest, rfl⟩ := run_append_eq_some.1 hrun
  have hne := held_ne_nil hfirst (Or.inr hpre)
  have hholds := (run_inv (holds_new tz) hfirst).1
  obtain ⟨candle, rest', hrest', rfl⟩ := run_finalizeCurrent hholds hne hrest
  have hlen₁ := length_run (holds_new tz) hfirst
  have hlen₂ := length_run hholds hrest'
  have hpos := List.length_pos_iff.2 hne
  have hticks : ticksOf (pre ++ .finalizeCurrent :: post) = ticksOf pre ++ ticksOf post :=
    ticksOf_append pre (.finalizeCurrent :: post)
  have hcandle : sizeOfCandles ((candle, held₁) :: rest') = held₁.length + sizeOfCandles rest' := by
    simp [sizeOfCandles]
  rw [hticks, List.length_append, sizeOfCandles_append, hcandle]
  rw [List.length_nil] at hlen₁
  omega

/-- If the ticks of the candles and the one in progress are those that came, then
`finalize_current` came last. -/
theorem finalizeLast_of_partition {calls : List BuilderCall} {candles : List Traced}
    {b' : CandleBuilder} {held' : List Tick}
    (hrun : run z (new tz) [] calls = some (candles, b', held'))
    (hpartition : (candles.map Prod.snd ++ inProgress calls held').flatten = ticksOf calls) :
    FinalizeLast calls := by
  intro pre post hcalls hpre
  by_contra hpost
  have hsize : sizeOfCandles candles + (inProgress calls held').flatten.length =
      (ticksOf calls).length := by
    rw [← hpartition, List.flatten_append, List.length_append]
    rfl
  by_cases hlast : calls.getLast? = some .finalizeCurrent
  · -- the last call returns the candle once more
    obtain ⟨post', c, rfl⟩ := (List.eq_nil_or_concat' post).resolve_left hpost
    have hconcat : calls = (pre ++ .finalizeCurrent :: post') ++ [c] := by
      rw [hcalls, List.append_assoc, List.cons_append]
    obtain rfl : c = .finalizeCurrent := by
      rw [hconcat, List.getLast?_concat] at hlast
      exact Option.some.inj hlast
    rw [hconcat] at hrun
    obtain ⟨first, b₁, held₁, rest, hfirst, hrest, rfl⟩ := run_append_eq_some.1 hrun
    have hlong := length_run_finalize hpre hfirst
    have hne : held₁ ≠ [] := held_ne_nil hfirst (Or.inr (by
      rw [ticksOf_append]
      exact List.append_ne_nil_of_left_ne_nil hpre _))
    obtain ⟨candle, rest', hrest', rfl⟩ :=
      run_finalizeCurrent (run_inv (holds_new tz) hfirst).1 hne hrest
    obtain ⟨rfl, -⟩ := Prod.mk.inj (Option.some.inj hrest')
    have hnone : inProgress calls held' = [] := by rw [inProgress, if_pos (Or.inl hlast)]
    have hticks : ticksOf calls = ticksOf (pre ++ .finalizeCurrent :: post') := by
      rw [hconcat, ticksOf_append]
      exact List.append_nil _
    have hone : sizeOfCandles [(candle, held₁)] = held₁.length := by simp [sizeOfCandles]
    rw [hnone, List.flatten_nil, List.length_nil, hticks, sizeOfCandles_append, hone] at hsize
    omega
  · rw [hcalls] at hrun
    -- the candles and what is held count some ticks twice
    have hlong := length_run_finalize hpre hrun
    have hne : held' ≠ [] := held_ne_nil hrun (Or.inr (by
      rw [ticksOf_append]
      exact List.append_ne_nil_of_left_ne_nil hpre _))
    have hone : inProgress calls held' = [held'] := by
      rw [inProgress, if_neg]
      rintro (h | h)
      · exact hlast h
      · exact hne h
    have hflatten : ([held'] : List (List Tick)).flatten.length = held'.length := by simp
    rw [hone, hflatten, hcalls] at hsize
    omega

/-! ### The candles and the minutes -/

/-- Under the condition the groups by the clock are those by the minutes. -/
theorem split_clock_eq {ts : List Tick} (h : ClockTells z tz ts) :
    Rises.split (clock tz) ts = Rises.split (minute z) ts :=
  (Rises.split_eq_split_iff ts).2 fun pre t post heq => (h pre t post heq).1.symm

/-- What the builder makes of a group by the clock is made of it, also by the minutes. -/
theorem madeOf_of_collects {ts : List Tick} (htells : ClockTells z tz ts)
    (hsplit : Rises.IsSplit (minute z) (Rises.split (clock tz) ts)) {g : List Tick}
    (hg : g ∈ Rises.split (clock tz) ts) {start : AwareDatetime} {bar : PriceBar} {volume : ℚ}
    (h : Collects tz start bar volume g) : MadeOf z start bar volume g := by
  obtain ⟨t, more, rfl, hstart, hbar, hvolume⟩ := h
  obtain ⟨pre, t', post, more', hts, hcons, hrec⟩ := Rises.begins_split hg
  obtain ⟨rfl, rfl⟩ := List.cons.inj hcons
  obtain ⟨hsame, hinstant⟩ := htells pre t post hts
  refine ⟨fun u hu => ?_, hbar, hvolume⟩
  rw [hstart, hinstant (hsame.2 hrec)]
  exact hsplit.constant _ hg t List.mem_cons_self u hu

/-- The minute of a group that is made of its ticks is the one that the clock shows. -/
theorem instant_boundary_of_madeOf {start : AwareDatetime} {bar : PriceBar} {volume : ℚ} {t : Tick}
    {more : List Tick} (h : MadeOf z start bar volume (t :: more))
    (hcollects : Collects tz start bar volume (t :: more)) :
    z.instant (getMinuteBoundary tz t.timestamp) = minute z t := by
  obtain ⟨t', more', hcons, hstart, -, -⟩ := hcollects
  obtain ⟨rfl, -⟩ := List.cons.inj hcons
  rw [← hstart]
  exact h.minute t List.mem_cons_self

theorem mem_inProgress {calls : List BuilderCall} {held g : List Tick}
    (h : g ∈ inProgress calls held) :
    calls.getLast? ≠ some .finalizeCurrent ∧ held ≠ [] ∧ g = held := by
  rw [inProgress] at h
  split at h
  · cases h
  · rename_i hor
    obtain ⟨hlast, hheld⟩ := not_or.1 hor
    exact ⟨hlast, hheld, List.mem_singleton.1 h⟩

/-- A group that is over has the volume of its minute. -/
theorem volumeOf_group {groups : List (List Tick)} (hsplit : Rises.IsSplit (minute z) groups)
    {g : List Tick} (hg : g ∈ groups) {t : Tick} (ht : t ∈ g) :
    volumeOf (groups.flatten.filter fun u => minute z u = minute z t) = volumeOf g := by
  rw [hsplit.filter_flatten hg ht]

/-- Under the conditions the run goes through, and its candles partition the ticks. -/
theorem exists_faithful {calls : List BuilderCall}
    (hsorted : (ticksOf calls).Pairwise fun s t => z.instant s.timestamp ≤ z.instant t.timestamp)
    (hlast : FinalizeLast calls) (htells : ClockTells z tz (ticksOf calls))
    (hvolumes : VolumesNonneg z calls) :
    ∃ candles b held, run z (new tz) [] calls = some (candles, b, held) ∧
      Faithful z calls candles b held := by
  obtain ⟨n, ts, final, rfl, hfinal⟩ := exists_shape hlast
  rw [VolumesNonneg, ticksOf_shape] at hvolumes
  rw [ticksOf_shape] at hsorted htells
  have hsplit : Rises.IsSplit (minute z) (Rises.split (clock tz) ts) := by
    rw [split_clock_eq htells]
    exact Rises.isSplit_split (hsorted.imp fun h => floorMinute_mono h)
  -- a group that is over has the volume of its minute
  have hover : ∀ g ∈ Rises.split (clock tz) ts, ∀ t ∈ g,
      ((∃ u ∈ ts, minute z t < minute z u) ∨
        (shape n ts final).getLast? = some .finalizeCurrent) → 0 ≤ volumeOf g := by
    intro g hg t ht hend
    have hflatten := Rises.flatten_split (clock tz) ts
    have hmem : t ∈ ts := by
      rw [← hflatten]
      exact List.mem_flatten.2 ⟨g, hg, ht⟩
    have hvolume := hvolumes t hmem hend
    rw [← volumeOf_group hsplit hg ht, hflatten]
    exact hvolume
  have hdropLast : ∀ g ∈ (Rises.split (clock tz) ts).dropLast, 0 ≤ volumeOf g := by
    intro g hg
    -- a group before the last one is over because of the ticks of the last one
    have hg' : g ∈ Rises.split (clock tz) ts := List.dropLast_subset _ hg
    have hne := List.ne_nil_of_mem hg'
    obtain ⟨t, ht⟩ := List.exists_mem_of_ne_nil g (hsplit.ne_nil g hg')
    obtain ⟨u, hu⟩ := List.exists_mem_of_ne_nil _ (hsplit.ne_nil _ (List.getLast_mem hne))
    have hlt : minute z t < minute z u := by
      have hincreasing := hsplit.increasing
      rw [← List.dropLast_append_getLast hne] at hincreasing
      exact (List.pairwise_append.1 hincreasing).2.2 g hg _ (List.mem_singleton_self _) t ht u hu
    refine hover g hg' t ht (Or.inl ⟨u, ?_, hlt⟩)
    rw [← Rises.flatten_split (clock tz) ts]
    exact List.mem_flatten.2 ⟨_, List.getLast_mem hne, hu⟩
  -- if the candle is closed in the end, all groups are over
  have hall : final = true → ∀ g ∈ Rises.split (clock tz) ts, 0 ≤ volumeOf g := by
    intro hf g hg
    obtain ⟨t, ht⟩ := List.exists_mem_of_ne_nil g (hsplit.ne_nil g hg)
    exact hover g hg t ht (Or.inr (by rw [hf]; exact getLast?_shape_true n ts))
  obtain ⟨⟨candles, b, held⟩, hrun⟩ := exists_run_shape (n := n) hfinal hdropLast hall
  have hgroups := run_shape hfinal hrun
  obtain ⟨hholds, hbuilt⟩ := run_inv (holds_new tz) hrun
  refine ⟨candles, b, held, hrun, ?_, ?_, fun p hp => ?_, fun g hg => ?_⟩
  · rw [hgroups, ticksOf_shape]
    exact Rises.flatten_split (clock tz) ts
  · rw [hgroups]
    exact hsplit
  · refine madeOf_of_collects htells hsplit ?_ (hbuilt p hp)
    rw [← hgroups]
    exact List.mem_append_left _ (List.mem_map_of_mem hp)
  · obtain ⟨-, hheld, rfl⟩ := mem_inProgress hg
    obtain ⟨m, hb, hcollects⟩ := hholds.ne_nil hheld
    refine ⟨m, hb, madeOf_of_collects htells hsplit ?_ hcollects⟩
    rw [← hgroups]
    exact List.mem_append_right _ hg

/-- If the candles of a run partition the ticks, its minutes that are over have no negative
volume. -/
theorem Faithful.volumesNonneg {calls : List BuilderCall} {candles : List Traced}
    {b : CandleBuilder} {held : List Tick} (h : Faithful z calls candles b held) :
    VolumesNonneg z calls := by
  intro t ht hend
  rw [← h.partition] at ht ⊢
  obtain ⟨g, hg, htg⟩ := List.mem_flatten.1 ht
  rw [volumeOf_group h.split hg htg]
  rcases List.mem_append.1 hg with hg | hg
  · obtain ⟨p, hp, rfl⟩ := List.mem_map.1 hg
    rw [← (h.candles p hp).volume]
    exact p.1.ohlcv.volume_nonneg
  · -- the minute in progress is not over
    obtain ⟨hlast, -, rfl⟩ := mem_inProgress hg
    obtain ⟨u, hu, hlt⟩ := hend.resolve_right hlast
    rw [← h.partition] at hu
    obtain ⟨g', hg', hug'⟩ := List.mem_flatten.1 hu
    rcases List.mem_append.1 hg' with hg' | hg'
    · exact absurd ((List.pairwise_append.1 h.split.increasing).2.2 g' hg' g hg u hug' t htg)
        hlt.not_gt
    · obtain ⟨-, -, rfl⟩ := mem_inProgress hg'
      exact absurd (h.split.constant _ (List.mem_append_right _ hg) t htg u hug') hlt.ne

/-- If the candles of a run partition the ticks, the clock tells the minutes. -/
theorem Faithful.clockTells {calls : List BuilderCall} {candles : List Traced} {b : CandleBuilder}
    {held : List Tick} (h : Faithful z calls candles b held)
    (hrun : run z (new tz) [] calls = some (candles, b, held)) :
    ClockTells z tz (ticksOf calls) := by
  obtain ⟨n, ts, final, rfl, hfinal⟩ := exists_shape (finalizeLast_of_partition hrun h.partition)
  have hgroups := run_shape hfinal hrun
  obtain ⟨hholds, hbuilt⟩ := run_inv (holds_new tz) hrun
  have hpartition := h.partition
  rw [ticksOf_shape] at hpartition ⊢
  -- the groups of the run are those of the minutes, so both keys split alike
  have hsame : Rises.split (minute z) ts = Rises.split (clock tz) ts := by
    rw [← hgroups, ← Rises.split_flatten h.split, hpartition]
  have hrecords := (Rises.split_eq_split_iff ts).1 hsame
  intro pre t post heq
  refine ⟨hrecords pre t post heq, fun hrec => ?_⟩
  obtain ⟨more, hmem⟩ := Rises.exists_group_split ((hrecords pre t post heq).1 hrec) post
  rw [← heq, ← hgroups] at hmem
  rcases List.mem_append.1 hmem with hmem | hmem
  · obtain ⟨p, hp, hp₂⟩ := List.mem_map.1 hmem
    have hmade := h.candles p hp
    have hcollects := hbuilt p hp
    rw [Built, hp₂] at hcollects
    rw [hp₂] at hmade
    exact instant_boundary_of_madeOf hmade hcollects
  · obtain ⟨m, hb, hmade⟩ := h.current _ hmem
    obtain ⟨-, hheld, hcons⟩ := mem_inProgress hmem
    obtain ⟨m', hb', hcollects⟩ := hholds.ne_nil hheld
    obtain rfl := Option.some.inj (hb.symm.trans hb')
    rw [← hcons] at hcollects
    exact instant_boundary_of_madeOf hmade hcollects

/-- The candles partition the ticks by their minutes, if and only if `finalize_current` comes last,
the clock of the builder's zone tells the minutes apart and names them right, and no minute that is
over has a negative volume. -/
theorem faithful_iff {calls : List BuilderCall}
    (hsorted : (ticksOf calls).Pairwise fun s t => z.instant s.timestamp ≤ z.instant t.timestamp) :
    (∃ candles b held, run z (new tz) [] calls = some (candles, b, held) ∧
      Faithful z calls candles b held) ↔
      FinalizeLast calls ∧ ClockTells z tz (ticksOf calls) ∧ VolumesNonneg z calls := by
  constructor
  · rintro ⟨candles, b, held, hrun, h⟩
    exact ⟨finalizeLast_of_partition hrun h.partition, h.clockTells hrun, h.volumesNonneg⟩
  · rintro ⟨hlast, htells, hvolumes⟩
    exact exists_faithful hsorted hlast htells hvolumes

/-! ### The repeated hour -/

/-- A tick thirty seconds before the clock goes back. -/
def beforeFallBack : Tick :=
  ⟨100, ⟨.utc, 1730613570000000, false, by decide +kernel, by decide +kernel⟩, some 1⟩

/-- A tick ten seconds after the clock went back. -/
def afterFallBack : Tick :=
  ⟨110, ⟨.utc, 1730613610000000, false, by decide +kernel, by decide +kernel⟩, some 1⟩

/-- A tick before the clock goes back, one after, and the end of the ticks. -/
def acrossFallBack : List BuilderCall :=
  [.onTick beforeFallBack, .onTick afterFallBack, .finalizeCurrent]

theorem faithful_iff_fall_back :
    (∃ candles b held,
      run Zones.fallBack (new .fallBack) [] acrossFallBack = some (candles, b, held) ∧
      Faithful Zones.fallBack acrossFallBack candles b held) ↔
      FinalizeLast acrossFallBack ∧
      ClockTells Zones.fallBack .fallBack (ticksOf acrossFallBack) ∧
      VolumesNonneg Zones.fallBack acrossFallBack :=
  faithful_iff (show (ticksOf acrossFallBack).Pairwise
    (fun s t => Zones.fallBack.instant s.timestamp ≤ Zones.fallBack.instant t.timestamp) by decide)

/-- The ticks before and after the clock went back are in different minutes, and the builder puts
them into one. -/
theorem repeated_hour_merged :
    ((ticksOf [.onTick beforeFallBack, .onTick afterFallBack]).Pairwise fun s t =>
      Zones.fallBack.instant s.timestamp ≤ Zones.fallBack.instant t.timestamp) ∧
    minute Zones.fallBack beforeFallBack ≠ minute Zones.fallBack afterFallBack ∧
    (run Zones.fallBack (new .fallBack) [] [.onTick beforeFallBack, .onTick afterFallBack]).map
      (fun r => (r.1, r.2.2)) = some ([], [beforeFallBack, afterFallBack]) ∧
    ¬ ∃ candles b held,
      run Zones.fallBack (new .fallBack) [] [.onTick beforeFallBack, .onTick afterFallBack] =
        some (candles, b, held) ∧
      Faithful Zones.fallBack [.onTick beforeFallBack, .onTick afterFallBack] candles b held := by
  refine ⟨by decide, by decide, by decide +kernel, ?_⟩
  rintro ⟨candles, b, held, hrun, h⟩
  have htells := h.clockTells hrun [beforeFallBack] afterFallBack [] rfl
  have hminute : Rises.Record (minute Zones.fallBack) [beforeFallBack] afterFallBack :=
    List.forall_mem_singleton.2 (by decide)
  have hclock : ¬ clock .fallBack beforeFallBack < clock .fallBack afterFallBack := by decide +kernel
  exact hclock (htells.1.1 hminute beforeFallBack (List.mem_singleton_self _))

/-- After `finalize_current` the candle of the minute is returned once more. -/
example : (run Zones.fallBack (new .fallBack) []
    [.onTick beforeFallBack, .finalizeCurrent, .finalizeCurrent]).map
      (fun r => r.1.map Prod.snd) = some [[beforeFallBack], [beforeFallBack]] := by
  decide

end CandleBuilder
