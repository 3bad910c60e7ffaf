/-
**From a live feed to the store.**

The service takes the ticks of all symbols as they come.  It tells the hub the price of a symbol, if
some time has passed since it told it last; it hands each tick to the builder of its symbol; and the
candles that the builders close go to the store, where writing may fail, and to the hub.  A session is
that of a service of its own: a new service has new builders, and the minute that the one before had in
progress is lost.  A service that is stopped and started keeps its builders, as if it went on.

Main definitions:

* `LiveMarketData.processTick`, `LiveMarketData.session` — a tick, and what the service does from a
  start to a stop;
* `LiveMarketData.ticksOf`, `LiveMarketData.completed` — the ticks of one symbol, and the candles
  that they close;
* `LiveMarketData.throttle`, `LiveMarketData.Throttled` — which of some ticks are told.

Main results:

* `LiveMarketData.session_candles` — the candles of a symbol are those of its own ticks, one each
  time the minute of its clock rises;
* `LiveMarketData.sessions_store` — the store has what the sessions have closed, the first candle of
  each minute;
* `LiveMarketData.session_tickers` — the prices that are told.
-/

import Brokerage.CandleBuilder
import Brokerage.CandleSeries

set_option relaxedAutoImplicit false
set_option autoImplicit false

namespace LiveMarketData

/-! ### The service -/

/-- A tick as the feed has it. -/
structure FeedTick where
  symbol : String
  price : ℚ
  timestampMs : ℤ
  deriving DecidableEq

/-- What the hub is told. -/
inductive Message
  | ticker (symbol : String) (price : ℚ) (timestamp : AwareDatetime)
  | candle (symbol : String) (candle : Candle)
  deriving DecidableEq

structure Config where
  symbols : List String
  tz : TimeZone
  tickerBroadcastMs : ℤ := 200
  hub : Bool := true

/-- The state of the service. -/
structure Service where
  candleBuilders : Dict String CandleBuilder
  latestPrice : Dict String ℚ
  lastTickerBroadcast : Dict String ℤ

/-- What stays when the service stops: the files of the symbols, and what was told. -/
structure World where
  files : String → CandleStore.Files
  sent : List Message

/-- A tick, and whether writing the candle that it closes fails. -/
abbrev FeedEvent := FeedTick × Bool

variable (z : Zones) (c : Config)

def Service.new : Service where
  candleBuilders := Dict.empty.setAll (c.symbols.map fun symbol => (symbol, CandleBuilder.new c.tz))
  latestPrice := Dict.empty
  lastTickerBroadcast := Dict.empty.setAll (c.symbols.map fun symbol => (symbol, 0))

/-- `datetime.fromtimestamp(timestamp_ms / 1000.0, tz=self.tz)`, which may raise. -/
def timestampOf (t : FeedTick) : Option AwareDatetime :=
  (utcFromTimestamp (1000 * t.timestampMs)).map c.tz.astimezone

/-- The hub is told a price, if there is a hub and some time has passed. -/
def broadcastTicker (s : Service) (sent : List Message) (t : FeedTick) : Service × List Message :=
  let lastBroadcast := (s.lastTickerBroadcast.get? t.symbol).getD 0
  if c.hub = false ∨ t.timestampMs - lastBroadcast < c.tickerBroadcastMs then (s, sent)
  else
    ({ s with lastTickerBroadcast := s.lastTickerBroadcast.set t.symbol t.timestampMs },
      -- without a timestamp there is no message, but the time counts as told
      (timestampOf c t).elim sent fun timestamp => sent ++ [.ticker t.symbol t.price timestamp])

/-- The files of a symbol after a candle was closed. -/
def storeCandle (files : CandleStore.Files) (closed : Candle × Bool) : CandleStore.Files :=
  if closed.2 = true then files else (CandleStore.append z files closed.1).elim files Prod.fst

/-- A closed candle is written and told, also if it cannot be written. -/
def handleCompletedCandle (w : World) (symbol : String) (closed : Candle × Bool) : World where
  files := Function.update w.files symbol (storeCandle z (w.files symbol) closed)
  sent := if c.hub = true then w.sent ++ [.candle symbol closed.1] else w.sent

/-- The tick as the builders take it; there is no volume in the feed. -/
def tickOf (t : FeedTick) (timestamp : AwareDatetime) : Tick := ⟨t.price, timestamp, some 1⟩

/-- A tick of the feed; an exception ends its processing. -/
def processTick (sw : Service × World) (e : FeedEvent) : Service × World :=
  let s := { sw.1 with latestPrice := sw.1.latestPrice.set e.1.symbol e.1.price }
  let told := broadcastTicker c s sw.2.sent e.1
  let s := told.1
  let w := { sw.2 with sent := told.2 }
  match timestampOf c e.1, s.candleBuilders.get? e.1.symbol with
  | some timestamp, some builder =>
      match builder.onTick z (tickOf e.1 timestamp) with
      | none => (s, w)
      | some (closed, builder) =>
          ({ s with candleBuilders := s.candleBuilders.set e.1.symbol builder },
            closed.elim w fun candle => handleCompletedCandle z c w e.1.symbol (candle, e.2))
  | _, _ => (s, w)

/-- The service from a start to a stop. -/
def session (w : World) (events : List FeedEvent) : Service × World :=
  events.foldl (processTick z c) (Service.new c, w)

/-- The service is started some times. -/
def sessions (w : World) (runs : List (List FeedEvent)) : World :=
  runs.foldl (fun w events => (session z c w events).2) w

/-! ### One symbol -/

/-- The ticks of a symbol that have a timestamp. -/
def ticksOf (symbol : String) (events : List FeedEvent) : List (Tick × Bool) :=
  events.filterMap fun e =>
    if e.1.symbol = symbol then (timestampOf c e.1).map fun timestamp => (tickOf e.1 timestamp, e.2)
    else none

/-- The candles that ticks close. -/
def completed (b : CandleBuilder) : List (Tick × Bool) → List (Candle × Bool)
  | [] => []
  | t :: ts =>
      match b.onTick z t.1 with
      | none => completed b ts
      | some (none, b') => completed b' ts
      | some (some candle, b') => (candle, t.2) :: completed b' ts

/-- The candles of a symbol that the hub was told. -/
def candlesOf (symbol : String) (sent : List Message) : List Candle :=
  sent.filterMap fun
    | .candle s candle => if s = symbol then some candle else none
    | .ticker _ _ _ => none

/-- The prices of a symbol that the hub was told. -/
def tickersOf (symbol : String) (sent : List Message) : List (ℚ × AwareDatetime) :=
  sent.filterMap fun
    | .ticker s price timestamp => if s = symbol then some (price, timestamp) else none
    | .candle _ _ => none

/-- The times that are told, from the one that was told last. -/
def throttle (ms : ℤ) (last : ℤ) : List FeedTick → List FeedTick
  | [] => []
  | t :: ts =>
      if t.timestampMs - last < ms then throttle ms last ts else t :: throttle ms t.timestampMs ts

/-- The candles of a symbol that are written, of all sessions. -/
def written (symbol : String) (runs : List (List FeedEvent)) : List Candle :=
  ((runs.flatMap fun events => completed z (.new c.tz) (ticksOf c symbol events)).filter
    fun closed => closed.2 = false).map Prod.fst

/-- A candle that the files of a symbol can hold: it is filed by the clock of UTC, and compares by
its instant. -/
structure Filed (candle : Candle) : Prop where
  storable : candle.Storable z (· = .utc)
  eq : ∀ e : AwareDatetime, e.zone = .utc → CandleStore.EqFaithful z e candle.timestamp
  self : CandleStore.EqFaithful z candle.timestamp candle.timestamp

/-! ### What a tick does -/

variable {z c} {s : Service} {w : World} {e : FeedEvent} {symbol : String}

theorem candleBuilders_broadcastTicker (sent : List Message) (t : FeedTick) :
    (broadcastTicker c s sent t).1.candleBuilders = s.candleBuilders := by
  rw [broadcastTicker]
  split_ifs <;> rfl

theorem candlesOf_append (sent sent' : List Message) :
    candlesOf symbol (sent ++ sent') = candlesOf symbol sent ++ candlesOf symbol sent' :=
  List.filterMap_append

/-- A price that is told is no candle. -/
theorem candlesOf_broadcastTicker (sent : List Message) (t : FeedTick) :
    candlesOf symbol (broadcastTicker c s sent t).2 = candlesOf symbol sent := by
  rw [broadcastTicker]
  split_ifs
  · rfl
  · cases timestampOf c t with
    | none => rfl
    | some timestamp =>
        rw [Option.elim_some, candlesOf_append]
        exact List.append_nil _

/-- A closed candle, for its symbol. -/
theorem handleCompletedCandle_self (closed : Candle × Bool) :
    (handleCompletedCandle z c w symbol closed).files symbol =
        storeCandle z (w.files symbol) closed ∧
      candlesOf symbol (handleCompletedCandle z c w symbol closed).sent =
        candlesOf symbol w.sent ++ if c.hub = true then [closed.1] else [] := by
  refine ⟨Function.update_self .., ?_⟩
  rw [handleCompletedCandle]
  split_ifs
  · rw [candlesOf_append]
    refine congrArg (candlesOf symbol w.sent ++ ·) ?_
    simp [candlesOf]
  · rw [List.append_nil]

/-- A closed candle, for the other symbols. -/
theorem handleCompletedCandle_of_ne {symbol' : String} (hne : symbol ≠ symbol')
    (closed : Candle × Bool) :
    (handleCompletedCandle z c w symbol' closed).files symbol = w.files symbol ∧
      candlesOf symbol (handleCompletedCandle z c w symbol' closed).sent =
        candlesOf symbol w.sent := by
  refine ⟨Function.update_of_ne hne .., ?_⟩
  rw [handleCompletedCandle]
  split_ifs
  · rw [candlesOf_append]
    refine (congrArg (candlesOf symbol w.sent ++ ·) ?_).trans (List.append_nil _)
    simp [candlesOf, Ne.symm hne]
  · rfl

/-- What a tick of another symbol leaves. -/
theorem processTick_of_ne (hne : symbol ≠ e.1.symbol) :
    (processTick z c (s, w) e).1.candleBuilders.get? symbol = s.candleBuilders.get? symbol ∧
      (processTick z c (s, w) e).2.files symbol = w.files symbol ∧
      candlesOf symbol (processTick z c (s, w) e).2.sent = candlesOf symbol w.sent := by
  rw [processTick]
  dsimp only
  rw [candleBuilders_broadcastTicker]
  cases timestampOf c e.1 with
  | none => exact ⟨by rw [candleBuilders_broadcastTicker], rfl, candlesOf_broadcastTicker ..⟩
  | some timestamp =>
      cases s.candleBuilders.get? e.1.symbol with
      | none => exact ⟨by rw [candleBuilders_broadcastTicker], rfl, candlesOf_broadcastTicker ..⟩
      | some b =>
          dsimp only
          cases b.onTick z (tickOf e.1 timestamp) with
          | none =>
              exact ⟨by rw [candleBuilders_broadcastTicker], rfl, candlesOf_broadcastTicker ..⟩
          | some result =>
              obtain ⟨closed, b'⟩ := result
              refine ⟨Dict.get?_set_of_ne _ _ hne, ?_⟩
              cases closed with
              | none => exact ⟨rfl, candlesOf_broadcastTicker ..⟩
              | some candle =>
                  obtain ⟨hfiles, hcandles⟩ := handleCompletedCandle_of_ne (z := z) (c := c)
                    (w := ⟨w.files, (broadcastTicker c _ w.sent e.1).2⟩) hne (candle, e.2)
                  exact ⟨hfiles, hcandles.trans (candlesOf_broadcastTicker ..)⟩

/-- What a tick does to its own symbol, if there is a builder. -/
theorem processTick_self {b : CandleBuilder}
    (hb : s.candleBuilders.get? e.1.symbol = some b) :
    ∃ b', (processTick z c (s, w) e).1.candleBuilders.get? e.1.symbol = some b' ∧
      ∀ rest, (completed z b' rest).foldl (storeCandle z)
            ((processTick z c (s, w) e).2.files e.1.symbol) =
          (completed z b (ticksOf c e.1.symbol [e] ++ rest)).foldl (storeCandle z)
            (w.files e.1.symbol) ∧
        candlesOf e.1.symbol (processTick z c (s, w) e).2.sent ++
            (if c.hub = true then (completed z b' rest).map Prod.fst else []) =
          candlesOf e.1.symbol w.sent ++ (if c.hub = true then
            (completed z b (ticksOf c e.1.symbol [e] ++ rest)).map Prod.fst else []) := by
  have hticks : ∀ rest, ticksOf c e.1.symbol [e] ++ rest =
      ((timestampOf c e.1).map fun timestamp => (tickOf e.1 timestamp, e.2)).toList ++ rest := by
    intro rest
    rw [ticksOf, List.filterMap_cons, if_pos rfl]
    cases timestampOf c e.1 with
    | none => rfl
    | some timestamp => rfl
  simp only [hticks]
  rw [processTick]
  dsimp only
  rw [candleBuilders_broadcastTicker, hb]
  cases timestampOf c e.1 with
  | none =>
      refine ⟨b, by rw [candleBuilders_broadcastTicker]; exact hb, fun rest => ⟨rfl, ?_⟩⟩
      rw [candlesOf_broadcastTicker]
      rfl
  | some timestamp =>
      dsimp only [Option.map_some, Option.toList_some, List.singleton_append]
      simp only [completed]
      cases b.onTick z (tickOf e.1 timestamp) with
      | none =>
          refine ⟨b, by rw [candleBuilders_broadcastTicker]; exact hb, fun rest => ⟨rfl, ?_⟩⟩
          rw [candlesOf_broadcastTicker]
      | some result =>
          obtain ⟨closed, b'⟩ := result
          refine ⟨b', Dict.get?_set_self .., fun rest => ?_⟩
          cases closed with
          | none =>
              refine ⟨rfl, ?_⟩
              dsimp only
              rw [Option.elim_none, candlesOf_broadcastTicker]
          | some candle =>
              dsimp only
              obtain ⟨hfiles, hcandles⟩ := handleCompletedCandle_self (z := z) (c := c)
                (w := ⟨w.files, (broadcastTicker c _ w.sent e.1).2⟩) (candle, e.2)
              rw [candlesOf_broadcastTicker] at hcandles
              refine ⟨?_, ?_⟩
              · rw [Option.elim_some, hfiles]
                rfl
              · rw [Option.elim_some, hcandles, List.append_assoc]
                split_ifs
                · rfl
                · rfl

/-- The service, seen from one symbol: it is a builder and a store of the symbol's own ticks. -/
theorem foldl_processTick {b : CandleBuilder} (events : List FeedEvent)
    (hb : s.candleBuilders.get? symbol = some b) :
    (events.foldl (processTick z c) (s, w)).2.files symbol =
        (completed z b (ticksOf c symbol events)).foldl (storeCandle z) (w.files symbol) ∧
      candlesOf symbol (events.foldl (processTick z c) (s, w)).2.sent =
        candlesOf symbol w.sent ++
          if c.hub = true then (completed z b (ticksOf c symbol events)).map Prod.fst else [] := by
  induction events generalizing s w b with
  | nil => exact ⟨rfl, (by rw [ticksOf, List.filterMap_nil, completed]; simp)⟩
  | cons e events ih =>
      rw [List.foldl_cons]
      by_cases hsymbol : e.1.symbol = symbol
      · subst hsymbol
        obtain ⟨b', hb', hrest⟩ := processTick_self (z := z) (c := c) (w := w) hb
        obtain ⟨hfiles, hcandles⟩ := ih (s := (processTick z c (s, w) e).1)
          (w := (processTick z c (s, w) e).2) hb'
        obtain ⟨hfiles', hcandles'⟩ := hrest (ticksOf c e.1.symbol events)
        have hcons : ticksOf c e.1.symbol (e :: events) =
            ticksOf c e.1.symbol [e] ++ ticksOf c e.1.symbol events :=
          List.filterMap_append (l := [e])
        rw [hcons]
        exact ⟨hfiles.trans hfiles', hcandles.trans hcandles'⟩
      · obtain ⟨hb', hfiles, hcandles⟩ := processTick_of_ne (z := z) (c := c) (s := s) (w := w)
          (Ne.symm hsymbol)
        have hrest := ih (s := (processTick z c (s, w) e).1) (w := (processTick z c (s, w) e).2)
          (hb'.trans hb)
        have hcons : ticksOf c symbol (e :: events) = ticksOf c symbol events := by
          rw [ticksOf, List.filterMap_cons, if_neg hsymbol]
          rfl
        rwa [hcons, ← hfiles, ← hcandles]

/-! ### The candles of a symbol -/

variable (z) in
/-- The candles that ticks close are those of a run of the builder. -/
theorem map_completed {b b' : CandleBuilder} {held held' : List Tick} (ts : List (Tick × Bool))
    {traced : List CandleBuilder.Traced}
    (hrun : CandleBuilder.run z b held ((ts.map Prod.fst).map .onTick) = some (traced, b', held')) :
    (completed z b ts).map Prod.fst = traced.map Prod.fst := by
  induction ts generalizing b held traced with
  | nil =>
      obtain ⟨rfl, -⟩ := Prod.mk.inj (Option.some.inj hrun)
      rfl
  | cons t ts ih =>
      obtain ⟨o, b₁, rest, hcall, hrest, rfl⟩ := CandleBuilder.run_cons_eq_some.1 hrun
      have honTick : b.onTick z t.1 = some (o, b₁) := hcall
      rw [completed, honTick]
      cases o with
      | none => exact ih hrest
      | some candle => exact congrArg (candle :: ·) (ih hrest)

/-- A tick of the feed counts one. -/
theorem volume_of_mem_ticksOf {events : List FeedEvent} {t : Tick × Bool}
    (ht : t ∈ ticksOf c symbol events) : t.1.volume = some 1 := by
  obtain ⟨e, -, he⟩ := List.mem_filterMap.1 ht
  split at he
  · obtain ⟨timestamp, -, rfl⟩ := Option.map_eq_some_iff.1 he
    rfl
  · cases he

theorem volumeOf_eq_length {ts : List Tick} (h : ∀ t ∈ ts, t.volume = some 1) :
    CandleBuilder.volumeOf ts = ts.length := by
  induction ts with
  | nil => rfl
  | cons t ts ih =>
      have ht := h t List.mem_cons_self
      rw [CandleBuilder.volumeOf] at ih ⊢
      rw [List.map_cons, List.sum_cons, ih fun u hu => h u (List.mem_cons_of_mem _ hu), ht,
        List.length_cons, Option.getD_some, Nat.cast_succ, add_comm]

/-- A builder of its own for each symbol. -/
theorem candleBuilders_new (hsymbol : symbol ∈ c.symbols) :
    (Service.new c).candleBuilders.get? symbol = some (CandleBuilder.new c.tz) := by
  rw [Service.new]
  dsimp only
  rw [Dict.get?_setAll, ← List.map_reverse]
  have hmem := List.mem_reverse.2 hsymbol
  generalize c.symbols.reverse = symbols at hmem
  induction symbols with
  | nil => cases hmem
  | cons s symbols ih =>
      rw [List.map_cons, Dict.lookup_cons_ite]
      split
      · rfl
      · rename_i hne
        exact ih ((List.mem_cons.1 hmem).resolve_left hne)

variable (z c) in
/-- The candles that the ticks of a symbol close: one for each group of ticks but the last. -/
theorem exists_traced (events : List FeedEvent) (symbol : String) :
    ∃ traced : List CandleBuilder.Traced,
      (completed z (.new c.tz) (ticksOf c symbol events)).map Prod.fst = traced.map Prod.fst ∧
      traced.map Prod.snd = (Rises.split (CandleBuilder.clock c.tz)
        ((ticksOf c symbol events).map Prod.fst)).dropLast ∧
      ∀ p ∈ traced, CandleBuilder.Built c.tz p ∧ p.1.ohlcv.volume = p.2.length := by
  have hone : ∀ t ∈ (ticksOf c symbol events).map Prod.fst, t.volume = some 1 := by
    intro t ht
    obtain ⟨u, hu, rfl⟩ := List.mem_map.1 ht
    exact volume_of_mem_ticksOf hu
  have hgroup : ∀ g ∈ Rises.split (CandleBuilder.clock c.tz)
      ((ticksOf c symbol events).map Prod.fst), CandleBuilder.volumeOf g = g.length := by
    intro g hg
    refine volumeOf_eq_length fun t ht => hone t ?_
    rw [← Rises.flatten_split (CandleBuilder.clock c.tz) ((ticksOf c symbol events).map Prod.fst)]
    exact List.mem_flatten.2 ⟨g, hg, ht⟩
  have hnonneg : ∀ g ∈ (Rises.split (CandleBuilder.clock c.tz)
      ((ticksOf c symbol events).map Prod.fst)).dropLast, 0 ≤ CandleBuilder.volumeOf g := by
    intro g hg
    rw [hgroup g (List.dropLast_subset _ hg)]
    exact Nat.cast_nonneg _
  have hnotFinal : false ≠ true := Bool.false_ne_true
  -- no volume is negative, so the builder does not raise
  obtain ⟨⟨traced, b', held'⟩, hrun⟩ := CandleBuilder.exists_run_shape (z := z) (n := 0)
    (fun h => absurd h hnotFinal) hnonneg fun h => absurd h hnotFinal
  have hshape : CandleBuilder.shape 0 ((ticksOf c symbol events).map Prod.fst) false =
      ((ticksOf c symbol events).map Prod.fst).map .onTick := List.append_nil _
  rw [hshape] at hrun
  obtain ⟨hgroups, hempty⟩ := CandleBuilder.run_new_ticks hrun
  have hsnd : traced.map Prod.snd = (Rises.split (CandleBuilder.clock c.tz)
      ((ticksOf c symbol events).map Prod.fst)).dropLast := by
    rw [← hgroups]
    split_ifs with hheld
    · rw [List.append_nil]
      rw [hempty.1 hheld, if_pos hheld] at hgroups
      rw [(List.append_eq_nil_iff.1 hgroups).1]
      rfl
    · exact List.dropLast_concat.symm
  refine ⟨traced, map_completed z _ hrun, hsnd, fun p hp => ?_⟩
  have hbuilt := (CandleBuilder.run_inv (CandleBuilder.holds_new c.tz) hrun).2 p hp
  have hmem : p.2 ∈ (Rises.split (CandleBuilder.clock c.tz)
      ((ticksOf c symbol events).map Prod.fst)).dropLast := by
    rw [← hsnd]
    exact List.mem_map_of_mem hp
  refine ⟨hbuilt, ?_⟩
  obtain ⟨-, -, -, -, -, hvolume⟩ := hbuilt
  rw [hvolume, hgroup _ (List.dropLast_subset _ hmem)]

/-- A session, seen from a symbol with a builder: whatever the ticks of the other symbols are, the
hub is told, and the store is handed, the same candles.  The symbol's own ticks fall into groups, a
new one at each tick whose minute by the clock is later than that of the ticks held, and each group
but the last one makes a candle. -/
theorem session_candles (z : Zones) {c : Config} (w : World) (events : List FeedEvent)
    {symbol : String} (hsymbol : symbol ∈ c.symbols) :
    ∃ traced : List CandleBuilder.Traced,
      traced.map Prod.snd = (Rises.split (CandleBuilder.clock c.tz)
        ((ticksOf c symbol events).map Prod.fst)).dropLast ∧
      (∀ p ∈ traced, CandleBuilder.Built c.tz p ∧ p.1.ohlcv.volume = p.2.length) ∧
      candlesOf symbol (session z c w events).2.sent =
        candlesOf symbol w.sent ++ (if c.hub = true then traced.map Prod.fst else []) ∧
      (completed z (.new c.tz) (ticksOf c symbol events)).map Prod.fst = traced.map Prod.fst ∧
      (session z c w events).2.files symbol =
        (completed z (.new c.tz) (ticksOf c symbol events)).foldl (storeCandle z)
          (w.files symbol) := by
  obtain ⟨traced, hfst, hsnd, hbuilt⟩ := exists_traced z c events symbol
  obtain ⟨hfiles, hcandles⟩ := foldl_processTick (z := z) (w := w) events
    (candleBuilders_new hsymbol)
  rw [hfst] at hcandles
  exact ⟨traced, hsnd, hbuilt, hcandles, hfst, hfiles⟩

/-- One symbol, on the clock of UTC. -/
def oneSymbol : Config where
  symbols := ["XAUUSD"]
  tz := ⟨.utc, fun d => { d with zone := .utc }, fun _ => rfl⟩

/-- Ticks of two symbols, in two minutes. -/
def twoMinutes : List FeedEvent :=
  [(⟨"XAUUSD", 100, 1705320000000⟩, false), (⟨"EURUSD", 1, 1705320000100⟩, false),
    (⟨"XAUUSD", 101, 1705320000150⟩, false), (⟨"XAUUSD", 103, 1705320060000⟩, false)]

theorem session_candles_twoMinutes :
    ∃ traced : List CandleBuilder.Traced,
      traced.map Prod.snd = (Rises.split (CandleBuilder.clock oneSymbol.tz)
        ((ticksOf oneSymbol "XAUUSD" twoMinutes).map Prod.fst)).dropLast ∧
      (∀ p ∈ traced, CandleBuilder.Built oneSymbol.tz p ∧ p.1.ohlcv.volume = p.2.length) ∧
      candlesOf "XAUUSD"
          (session CandleStore.winter oneSymbol ⟨fun _ => Dict.empty, []⟩ twoMinutes).2.sent =
        candlesOf "XAUUSD" [] ++
          (if oneSymbol.hub = true then traced.map Prod.fst else []) ∧
      (completed CandleStore.winter (.new oneSymbol.tz)
        (ticksOf oneSymbol "XAUUSD" twoMinutes)).map Prod.fst = traced.map Prod.fst ∧
      (session CandleStore.winter oneSymbol ⟨fun _ => Dict.empty, []⟩ twoMinutes).2.files "XAUUSD" =
        (completed CandleStore.winter (.new oneSymbol.tz)
          (ticksOf oneSymbol "XAUUSD" twoMinutes)).foldl (storeCandle CandleStore.winter)
            Dict.empty :=
  session_candles CandleStore.winter ⟨fun _ => Dict.empty, []⟩ twoMinutes List.mem_cons_self

/-! ### What the store has -/

/-- The candles that ticks close are closed. -/
theorem isClosed_completed {b : CandleBuilder} {ts : List (Tick × Bool)} {p : Candle × Bool}
    (hp : p ∈ completed z b ts) : p.1.isClosed = true := by
  induction ts generalizing b with
  | nil => cases hp
  | cons t ts ih =>
      rw [completed] at hp
      split at hp
      · exact ih hp
      · exact ih hp
      · rename_i candle b' honTick
        rcases List.mem_cons.1 hp with rfl | hp
        · rw [CandleBuilder.onTick] at honTick
          split at honTick
          · cases honTick
          · split at honTick
            · split at honTick
              · cases honTick
              · rename_i candle' hfinalize
                obtain rfl := Option.some.inj (Prod.mk.inj (Option.some.inj honTick)).1
                obtain ⟨ohlcv, -, rfl⟩ := Option.map_eq_some_iff.1 hfinalize
                rfl
            · cases honTick
        · exact ih hp

/-- Writing a candle that the files can hold. -/
theorem storeCandle_refines {files : CandleStore.Files}
    (hfiles : CandleStore.Inv z (· = .utc) files) {candle : Candle}
    (hclosed : candle.isClosed = true) (h : Filed z candle) :
    CandleStore.Inv z (· = .utc) (storeCandle z files (candle, false)) ∧
      CandleStore.seriesOf z (storeCandle z files (candle, false)) =
        (CandleStore.seriesOf z files).append (candle.entry z) := by
  have hfaithful : CandleStore.Faithful z (· = .utc) files (.append candle) := by
    refine ⟨fun d hd => ?_, fun d hd e he => ?_⟩
    · rw [List.mem_singleton.1 hd]
      exact h.storable
    · obtain rfl := List.mem_singleton.1 hd
      rcases List.mem_append.1 he with he | he
      · exact h.eq _ (CandleStore.zone_of_mem_readCsvFile he)
      · rw [List.mem_singleton.1 he]
        exact h.self
  obtain ⟨files', done, happend⟩ :
      ∃ files' done, CandleStore.append z files candle = some (files', done) := by
    rw [CandleStore.append, if_neg (by simp [hclosed])]
    dsimp only
    split
    · exact ⟨_, _, rfl⟩
    · exact ⟨_, _, rfl⟩
  obtain ⟨hinv, hseries, -⟩ := CandleStore.append_refines hfiles rfl hfaithful happend
  have hstore : storeCandle z files (candle, false) = files' := by
    rw [storeCandle, happend]
    rfl
  rw [hstore]
  exact ⟨hinv, hseries⟩

/-- Writing candles, of which some fail. -/
theorem foldl_storeCandle {closed : List (Candle × Bool)} {files : CandleStore.Files}
    (hfiles : CandleStore.Inv z (· = .utc) files)
    (h : ∀ p ∈ closed, p.1.isClosed = true ∧ Filed z p.1) :
    CandleStore.Inv z (· = .utc) (closed.foldl (storeCandle z) files) ∧
      ∀ t, CandleStore.seriesOf z (closed.foldl (storeCandle z) files) t =
        (CandleStore.seriesOf z files t).or
          (((((closed.filter fun p => p.2 = false).map Prod.fst).map
            (Candle.entry z))).lookup t) := by
  induction closed generalizing files with
  | nil => exact ⟨hfiles, fun t => Option.or_none.symm⟩
  | cons p closed ih =>
      obtain ⟨candle, failed⟩ := p
      have hrest := fun q hq => h q (List.mem_cons_of_mem _ hq)
      rw [List.foldl_cons]
      cases failed with
      | true =>
          -- nothing is written
          have hstore : storeCandle z files (candle, true) = files := if_pos rfl
          rw [hstore]
          exact ih hfiles hrest
      | false =>
          obtain ⟨hclosed, hfiled⟩ := h _ List.mem_cons_self
          obtain ⟨hinv, hseries⟩ := storeCandle_refines hfiles hclosed hfiled
          obtain ⟨hinv', hlookup⟩ := ih hinv hrest
          refine ⟨hinv', fun t => ?_⟩
          rw [hlookup, hseries, Series.append, Option.or_assoc]
          congr 1
          rw [List.filter_cons_of_pos (by simp), List.map_cons, List.map_cons,
            Dict.lookup_cons_ite, Dict.lookup_cons_ite]
          split
          · rfl
          · rfl

/-- Started any number of times, with any ticks and any failures, the store of a symbol has, for
each minute that it did not have, the first candle that was written for it. -/
theorem sessions_store {z : Zones} {c : Config} {symbol : String} (hsymbol : symbol ∈ c.symbols)
    {w : World} (hfiles : CandleStore.Inv z (· = .utc) (w.files symbol))
    (runs : List (List FeedEvent)) (hfiled : ∀ events ∈ runs,
      ∀ p ∈ completed z (.new c.tz) (ticksOf c symbol events), Filed z p.1) :
    CandleStore.Inv z (· = .utc) ((sessions z c w runs).files symbol) ∧
      ∀ t, CandleStore.seriesOf z ((sessions z c w runs).files symbol) t =
        (CandleStore.seriesOf z (w.files symbol) t).or
          (((written z c symbol runs).map (Candle.entry z)).lookup t) := by
  have hfold : (sessions z c w runs).files symbol =
      (runs.flatMap fun events => completed z (.new c.tz) (ticksOf c symbol events)).foldl
        (storeCandle z) (w.files symbol) := by
    clear hfiles hfiled
    rw [sessions]
    induction runs generalizing w with
    | nil => rfl
    | cons events runs ih =>
        rw [List.foldl_cons, ih, List.flatMap_cons, List.foldl_append]
        congr 1
        exact (foldl_processTick events (candleBuilders_new hsymbol)).1
  rw [hfold]
  refine foldl_storeCandle hfiles fun p hp => ?_
  obtain ⟨events, hevents, hp⟩ := List.mem_flatMap.1 hp
  exact ⟨isClosed_completed hp, hfiled events hevents p hp⟩

/-- In UTC the files can hold every candle that ticks close. -/
theorem filed_of_utc (hutc : c.tz.zone = .utc) (events : List FeedEvent) (symbol : String) :
    ∀ p ∈ completed z (.new c.tz) (ticksOf c symbol events), Filed z p.1 := by
  intro p hp
  obtain ⟨traced, hfst, -, hbuilt⟩ := exists_traced z c events symbol
  obtain ⟨q, hq, hpq⟩ := List.mem_map.1 (hfst ▸ List.mem_map_of_mem hp)
  rw [← hpq]
  obtain ⟨t, more, -, hstart, -, -⟩ := (hbuilt q hq).1
  have hzone : q.1.timestamp.zone = .utc := by
    rw [hstart]
    exact (c.tz.astimezone_zone t.timestamp).trans hutc
  refine ⟨Candle.storable_utc hzone ?_, fun e he => ?_, ?_⟩
  · rw [hstart]
    exact (show (1000000 : ℤ) ∣ 60000000 by decide).trans (minuteMicros_dvd_floorMinute _)
  · exact CandleStore.eqFaithful_of_utc he hzone
  · exact CandleStore.eqFaithful_of_utc hzone hzone

/-- The service is started twice, with the same ticks. -/
theorem sessions_store_twice :
    CandleStore.Inv CandleStore.winter (· = .utc)
        ((sessions CandleStore.winter oneSymbol ⟨fun _ => Dict.empty, []⟩
          [twoMinutes, twoMinutes]).files "XAUUSD") ∧
      ∀ t, CandleStore.seriesOf CandleStore.winter ((sessions CandleStore.winter oneSymbol
          ⟨fun _ => Dict.empty, []⟩ [twoMinutes, twoMinutes]).files "XAUUSD") t =
        (CandleStore.seriesOf CandleStore.winter Dict.empty t).or
          (((written CandleStore.winter oneSymbol "XAUUSD" [twoMinutes, twoMinutes]).map
            (Candle.entry CandleStore.winter)).lookup t) :=
  sessions_store (w := ⟨fun _ => Dict.empty, []⟩) List.mem_cons_self CandleStore.inv_empty
    [twoMinutes, twoMinutes] fun events _ => filed_of_utc rfl events "XAUUSD"

/-! ### The prices that are told -/

theorem tickersOf_append (sent sent' : List Message) :
    tickersOf symbol (sent ++ sent') = tickersOf symbol sent ++ tickersOf symbol sent' :=
  List.filterMap_append

/-- The prices of some ticks, as the hub is told them. -/
def told (c : Config) (ts : List FeedTick) : List (ℚ × AwareDatetime) :=
  ts.filterMap fun t => (timestampOf c t).map fun timestamp => (t.price, timestamp)

theorem told_cons (t : FeedTick) (ts : List FeedTick) :
    told c (t :: ts) =
      ((timestampOf c t).map fun timestamp => (t.price, timestamp)).toList ++ told c ts := by
  rw [told, List.filterMap_cons]
  cases timestampOf c t with
  | none => rfl
  | some timestamp => rfl

/-- A closed candle tells no price. -/
theorem tickersOf_handleCompletedCandle {symbol' : String} (closed : Candle × Bool) :
    tickersOf symbol (handleCompletedCandle z c w symbol' closed).sent =
      tickersOf symbol w.sent := by
  rw [handleCompletedCandle]
  split_ifs
  · rw [tickersOf_append]
    exact List.append_nil _
  · rfl

/-- What a tick tells depends on the time that was told last. -/
theorem processTick_told :
    (processTick z c (s, w) e).1.lastTickerBroadcast =
        (broadcastTicker c { s with latestPrice := s.latestPrice.set e.1.symbol e.1.price }
          w.sent e.1).1.lastTickerBroadcast ∧
      tickersOf symbol (processTick z c (s, w) e).2.sent =
        tickersOf symbol (broadcastTicker c
          { s with latestPrice := s.latestPrice.set e.1.symbol e.1.price } w.sent e.1).2 := by
  rw [processTick]
  dsimp only
  split
  · split
    · exact ⟨rfl, rfl⟩
    · rename_i closed b' honTick
      refine ⟨rfl, ?_⟩
      cases closed with
      | none => rfl
      | some candle => exact tickersOf_handleCompletedCandle (candle, e.2)
  · exact ⟨rfl, rfl⟩

/-- The prices of a symbol that are told: those of its own ticks, by their times. -/
theorem foldl_processTick_told (hhub : c.hub = true) (events : List FeedEvent) :
    tickersOf symbol (events.foldl (processTick z c) (s, w)).2.sent =
      tickersOf symbol w.sent ++ told c (throttle c.tickerBroadcastMs
        ((s.lastTickerBroadcast.get? symbol).getD 0)
        ((events.map Prod.fst).filter fun t => t.symbol = symbol)) := by
  induction events generalizing s w with
  | nil => exact (List.append_nil _).symm
  | cons e events ih =>
      rw [List.foldl_cons, ih]
      obtain ⟨hlast, hsent⟩ := processTick_told (z := z) (c := c) (s := s) (w := w) (e := e)
      rw [hlast, hsent, broadcastTicker, List.map_cons]
      dsimp only
      by_cases hsymbol : e.1.symbol = symbol
      · rw [List.filter_cons_of_pos (by simpa using hsymbol), throttle]
        subst hsymbol
        simp only [hhub, Bool.true_eq_false, false_or]
        split_ifs with hsoon
        · rfl
        · rw [Dict.get?_set_self, Option.getD_some, told_cons]
          cases timestampOf c e.1 with
          | none => rfl
          | some timestamp =>
              dsimp only
              rw [Option.elim_some, tickersOf_append, List.append_assoc]
              congr 2
              simp [tickersOf]
      · rw [List.filter_cons_of_neg (by simpa using hsymbol)]
        split_ifs with hsoon
        · rfl
        · rw [Dict.get?_set_of_ne _ _ (Ne.symm hsymbol)]
          congr 1
          cases timestampOf c e.1 with
          | none => rfl
          | some timestamp =>
              rw [Option.elim_some, tickersOf_append]
              refine (congrArg (tickersOf symbol w.sent ++ ·) ?_).trans (List.append_nil _)
              simp [tickersOf, hsymbol]

/-- The time that was told last, after some ticks were told. -/
def lastTold (last : ℤ) (told : List FeedTick) : ℤ := (told.map FeedTick.timestampMs).getLastD last

theorem lastTold_cons (last : ℤ) (t : FeedTick) (told : List FeedTick) :
    lastTold last (t :: told) = lastTold t.timestampMs told := by
  rw [lastTold, List.map_cons, List.getLastD_cons, lastTold]

/-- Which of some ticks are told: each one that comes long enough after the one told last before it,
and no other. -/
structure Throttled (ms last : ℤ) (choice : List FeedTick → List FeedTick) : Prop where
  nil : choice [] = []
  next : ∀ ts t, choice (ts ++ [t]) =
    if t.timestampMs < lastTold last (choice ts) + ms then choice ts else choice ts ++ [t]

theorem throttle_append_singleton (ms last : ℤ) (ts : List FeedTick) (t : FeedTick) :
    throttle ms last (ts ++ [t]) =
      if t.timestampMs < lastTold last (throttle ms last ts) + ms then throttle ms last ts
      else throttle ms last ts ++ [t] := by
  induction ts generalizing last with
  | nil =>
      rw [List.nil_append, throttle, throttle]
      exact if_congr sub_lt_iff_lt_add' rfl rfl
  | cons u ts ih =>
      rw [List.cons_append, throttle, throttle]
      by_cases hsoon : u.timestampMs - last < ms
      · rw [if_pos hsoon, if_pos hsoon]
        exact ih last
      · rw [if_neg hsoon, if_neg hsoon, ih, lastTold_cons]
        split_ifs <;> rfl

theorem throttled_throttle (ms last : ℤ) : Throttled ms last (throttle ms last) where
  nil := rfl
  next := throttle_append_singleton ms last

/-- The times that are told are long enough after each other. -/
theorem Throttled.spaced {ms last : ℤ} {choice : List FeedTick → List FeedTick}
    (h : Throttled ms last choice) (ts : List FeedTick) :
    (last :: (choice ts).map FeedTick.timestampMs).IsChain fun a b => a + ms ≤ b := by
  induction ts using List.reverseRecOn with
  | nil =>
      rw [h.nil]
      exact List.isChain_singleton _
  | append_singleton ts t ih =>
      rw [h.next]
      split_ifs with hsoon
      · exact ih
      · rw [List.map_append, ← List.cons_append, List.isChain_append]
        refine ⟨ih, List.isChain_singleton _, fun a ha b hb => ?_⟩
        obtain rfl : t.timestampMs = b := Option.some.inj hb
        obtain rfl : lastTold last (choice ts) = a := by
          rw [List.getLast?_cons] at ha
          rw [lastTold, List.getLastD_eq_getLast?]
          exact Option.some.inj ha
        exact not_lt.1 hsoon

/-- With a hub, the prices of a symbol are told by the throttle of its own ticks, whatever the ticks
of the other symbols are, and whether the builders raise or not. -/
theorem session_tickers (z : Zones) {c : Config} (hhub : c.hub = true) (w : World)
    (events : List FeedEvent) {symbol : String} :
    ∃ choice, Throttled c.tickerBroadcastMs 0 choice ∧
      tickersOf symbol (session z c w events).2.sent = tickersOf symbol w.sent ++
        told c (choice ((events.map Prod.fst).filter fun t => t.symbol = symbol)) ∧
      (0 :: (choice ((events.map Prod.fst).filter fun t => t.symbol = symbol)).map
        FeedTick.timestampMs).IsChain fun a b => a + c.tickerBroadcastMs ≤ b := by
  have hlast : ((Service.new c).lastTickerBroadcast.get? symbol).getD 0 = 0 := by
    rw [Service.new]
    dsimp only
    rw [Dict.get?_setAll, ← List.map_reverse]
    generalize c.symbols.reverse = symbols
    induction symbols with
    | nil => rfl
    | cons s symbols ih =>
        rw [List.map_cons, Dict.lookup_cons_ite]
        split
        · rfl
        · exact ih
  have hthrottled := throttled_throttle c.tickerBroadcastMs 0
  refine ⟨_, hthrottled, ?_, hthrottled.spaced _⟩
  rw [session, foldl_processTick_told hhub, hlast]

theorem session_tickers_twoMinutes :
    ∃ choice, Throttled oneSymbol.tickerBroadcastMs 0 choice ∧
      tickersOf "XAUUSD"
          (session CandleStore.winter oneSymbol ⟨fun _ => Dict.empty, []⟩ twoMinutes).2.sent =
        tickersOf "XAUUSD" [] ++
          told oneSymbol (choice ((twoMinutes.map Prod.fst).filter fun t => t.symbol = "XAUUSD")) ∧
      (0 :: (choice ((twoMinutes.map Prod.fst).filter fun t => t.symbol = "XAUUSD")).map
        FeedTick.timestampMs).IsChain fun a b => a + oneSymbol.tickerBroadcastMs ≤ b :=
  session_tickers CandleStore.winter rfl ⟨fun _ => Dict.empty, []⟩ twoMinutes

end LiveMarketData
