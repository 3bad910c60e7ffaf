/-
**The loop that writes candles from polled prices.**

The service polls the latest price of each symbol, keeps the prices of a minute in a bucket, and
hands the candle of a minute that is over to the store.  A symbol whose market is closed is paused:
what its buckets have is written once, and from then on it is polled rarely and nothing is kept.  A
symbol whose polls fail is polled later.  Between the awaits of a cycle the list of symbols can be
changed, and a poll can be cancelled; then, as when something raises, the rest of the cycle is
left out.

What the service did is kept next to it: the ticks that it accepted, and the candles that it handed
to the store, each with the ticks of its bucket and the clock of its cycle.  The order of a set is
the order in which its elements came.  What the gate metrics find out about a symbol is an input.

Main definitions:

* `Buckets`, `aggregateTicksToCandles` — the ticks of each minute, and their candles;
* `OstiumCandleIngestService` — the service; `IngestWorld` — with the store and what was done;
* `pollSymbol`, `flushClosedMinutes` — a poll, and writing what is over;
* `pollLoopBody`, `IngestWorld.run` — a cycle, and runs of cycles and changes of the symbols.

Main results:

* `mem_aggregateTicksToCandles` — the candles of the buckets that are over;
* `onPrice_cases` — what a polled price does;
* `ensures_writeCandles` — writing candles keeps what handing over each of them keeps;
* `ensures_pollLoopBody` — a cycle keeps what polls, writes and changes of the other fields keep.
-/

import Brokerage.GapValidator
import Brokerage.Raising

set_option relaxedAutoImplicit false
set_option autoImplicit false

/-! ### Buckets -/

/-- A price that was polled, with its timestamp in seconds. -/
structure IngestTick where
  ts : ℤ
  price : ℚ
  deriving DecidableEq

/-- The start of the minute of a timestamp, in seconds. -/
def minuteStart (ts : ℤ) : ℤ := ts / 60 * 60

theorem minuteStart_spec (ts : ℤ) :
    60 ∣ minuteStart ts ∧ minuteStart ts ≤ ts ∧ ts < minuteStart ts + 60 := by
  rw [minuteStart]
  omega

/-- The ticks of each minute. -/
abbrev Buckets := Dict ℤ (List IngestTick)

namespace Buckets

/-- The ticks of a minute. -/
def ticksOf (b : Buckets) (minute : ℤ) : List IngestTick := b.getList minute

/-- The buckets with one more tick. -/
def append (b : Buckets) (minute : ℤ) (tick : IngestTick) : Buckets := b.push minute tick

/-- The buckets after those up to a minute were removed. -/
def removeUpTo (b : Buckets) (lastFlushed : ℤ) : Buckets :=
  b.eraseAll (b.keys.filter fun m => m ≤ lastFlushed)

theorem ticksOf_append (b : Buckets) (minute m : ℤ) (tick : IngestTick) :
    (b.append minute tick).ticksOf m = if m = minute then b.ticksOf m ++ [tick] else b.ticksOf m :=
  Dict.getList_push b minute m tick

theorem ticksOf_removeUpTo (b : Buckets) (lastFlushed m : ℤ) :
    (b.removeUpTo lastFlushed).ticksOf m = if m ≤ lastFlushed then [] else b.ticksOf m := by
  rw [ticksOf, removeUpTo, Dict.getList_eraseAll]
  by_cases hle : m ≤ lastFlushed
  · rw [if_pos hle]
    split
    · rfl
    · rename_i hmem
      by_contra hne
      exact hmem (List.mem_filter.2 ⟨Dict.mem_keys_of_getList hne, decide_eq_true hle⟩)
  · rw [if_neg hle, if_neg]
    · rfl
    · exact fun hmem => hle (of_decide_eq_true (List.mem_filter.1 hmem).2)

end Buckets

/-- The candle of a bucket, unless it is not over or empty. -/
def Buckets.candleOf? (b : Buckets) (currentMinute minute : ℤ) : Option (ℤ × PriceBar) :=
  if currentMinute ≤ minute then none
  else (PriceBar.of? ((b.ticksOf minute).map IngestTick.price)).map fun bar => (minute, bar)

/-- The candles of the minutes before the current one. -/
def aggregateTicksToCandles (b : Buckets) (currentMinute : ℤ) : List (ℤ × PriceBar) :=
  b.sortedKeys.filterMap (b.candleOf? currentMinute)

/-- The candles of the buckets that are over. -/
theorem mem_aggregateTicksToCandles {b : Buckets} {currentMinute minute : ℤ} {bar : PriceBar} :
    (minute, bar) ∈ aggregateTicksToCandles b currentMinute ↔
      minute < currentMinute ∧ bar.IsBarOf ((b.ticksOf minute).map IngestTick.price) := by
  rw [aggregateTicksToCandles, List.mem_filterMap]
  constructor
  · rintro ⟨m, -, hm⟩
    rw [Buckets.candleOf?] at hm
    split at hm
    · cases hm
    · rename_i hlt
      obtain ⟨bar', hbar, heq⟩ := Option.map_eq_some_iff.1 hm
      obtain ⟨rfl, rfl⟩ := Prod.mk.inj heq
      exact ⟨not_le.1 hlt, PriceBar.of?_eq_some_iff.1 hbar⟩
  · rintro ⟨hlt, hbar⟩
    have hkey : minute ∈ b.keys :=
      Dict.mem_keys_of_getList fun hnil => hbar.ne_nil (List.map_eq_nil_iff.2 hnil)
    refine ⟨minute, Dict.mem_sortedKeys.2 hkey, ?_⟩
    rw [Buckets.candleOf?, if_neg (not_le.2 hlt), PriceBar.of?_eq_some_iff.2 hbar, Option.map_some]

/-- The candles come in the order of their minutes. -/
theorem pairwise_aggregateTicksToCandles (b : Buckets) (currentMinute : ℤ) :
    (aggregateTicksToCandles b currentMinute).Pairwise fun p q => p.1 < q.1 := by
  refine (Dict.sortedKeys_pairwise b).filterMap _ fun m n hmn p hp q hq => ?_
  have hminute : ∀ {k : ℤ} {r : ℤ × PriceBar}, b.candleOf? currentMinute k = some r → r.1 = k := by
    intro k r hr
    rw [Buckets.candleOf?] at hr
    split at hr
    · cases hr
    · obtain ⟨bar, -, rfl⟩ := Option.map_eq_some_iff.1 hr
      rfl
  rw [hminute hp, hminute hq]
  exact hmn

/-! ### The service -/

/-- Why a symbol is degraded. -/
inductive DegradeReason
  | pollFailures (failures : ℕ)
  | staleSeconds (stale : ℤ)
  | missingMinutes24h (missing : ℤ)
  | ostiumDuplicates (duplicates : ℤ) (tsStepErrors : ℕ)
  deriving DecidableEq

/-- The settings of the service, and whether the market of a symbol is open at a time. -/
structure IngestConfig where
  pollIntervalS : ℤ
  heartbeatIntervalS : ℤ
  staleSeconds : ℤ
  backoffBaseS : ℤ
  backoffMaxS : ℤ
  marketOpen : String → ℤ → Bool

/-- The service.  The degraded symbols are those with a reason. -/
structure OstiumCandleIngestService where
  symbols : List String
  pausedSymbols : List String
  heartbeatLastPoll : String → Option ℤ
  ticks : String → Buckets
  degradedReason : String → Option DegradeReason
  symbolBackoffUntil : String → Option ℤ
  stoppedSymbols : List String
  lastIngestedTickTs : String → Option ℤ
  consecutivePollFailures : String → ℕ

namespace OstiumCandleIngestService

/-- The service at its start. -/
def new (symbols : List String) : OstiumCandleIngestService where
  symbols := symbols
  pausedSymbols := []
  heartbeatLastPoll _ := none
  ticks _ := Dict.empty
  degradedReason _ := none
  symbolBackoffUntil _ := none
  stoppedSymbols := []
  lastIngestedTickTs _ := none
  consecutivePollFailures _ := 0

variable (cfg : IngestConfig) (s : OstiumCandleIngestService) (symbol : String)

/-- Other symbols from now on, in upper case. -/
def updateSymbols (symbols : List String) : OstiumCandleIngestService :=
  let newSet := (symbols.map String.toUpper).dedup
  let toRemove := s.symbols.filter fun s => s ∉ newSet
  let toAdd := newSet.filter fun t => t ∉ s.symbols
  { s with
    stoppedSymbols := (s.stoppedSymbols ++ toRemove).filter fun s => s ∉ toAdd
    symbols := newSet }

def activeSymbols : List String := s.symbols.filter fun t => t ∉ s.stoppedSymbols

/-! #### Degradation -/

def isTransientDegradation : Bool :=
  match s.degradedReason symbol with
  | some (.pollFailures _) => true
  | some (.staleSeconds _) => true
  | _ => false

def usesPollBackoff : Bool :=
  match s.degradedReason symbol with
  | some (.pollFailures _) => true
  | _ => false

def markDegraded (reason : DegradeReason) (clock : ℤ) : OstiumCandleIngestService :=
  { s with
    degradedReason := Function.update s.degradedReason symbol (some reason)
    symbolBackoffUntil :=
      match reason with
      | .pollFailures _ =>
          Function.update s.symbolBackoffUntil symbol (some (clock + cfg.backoffBaseS))
      | _ => s.symbolBackoffUntil }

def autorecover : OstiumCandleIngestService :=
  { s with
    degradedReason := Function.update s.degradedReason symbol none
    symbolBackoffUntil := Function.update s.symbolBackoffUntil symbol none }

def increaseBackoff (nowTs : ℤ) : OstiumCandleIngestService :=
  let current := (s.symbolBackoffUntil symbol).getD 0
  let remaining := max 0 (current - nowTs)
  let newBackoff := min (max remaining cfg.backoffBaseS * 2) cfg.backoffMaxS
  { s with
    symbolBackoffUntil := Function.update s.symbolBackoffUntil symbol (some (nowTs + newBackoff)) }

/-! #### Polls -/

/-- Whether a tick is too old, too far in the future, or before the last one that was accepted. -/
def invalidTick (tickTs nowTs : ℤ) : Bool :=
  cfg.staleSeconds < nowTs - tickTs ∨ nowTs - tickTs < -cfg.pollIntervalS ∨
    (s.lastIngestedTickTs symbol).any fun previous => tickTs < previous

def acceptTickTimestamp (tickTs nowTs : ℤ) : Bool × OstiumCandleIngestService :=
  if s.invalidTick cfg symbol tickTs nowTs then (false, s)
  else (true,
    { s with lastIngestedTickTs := Function.update s.lastIngestedTickTs symbol (some tickTs) })

/-- What an accepted tick does: its bucket, unless the market is closed in its minute, and the
recovery of the symbol. -/
def keepTick (tick : IngestTick) : OstiumCandleIngestService :=
  let minute := minuteStart tick.ts
  let s :=
    if cfg.marketOpen symbol minute then
      { s with ticks := Function.update s.ticks symbol ((s.ticks symbol).append minute tick) }
    else s
  if s.isTransientDegradation symbol then s.autorecover symbol else s

/-- A poll without a result. -/
def pollFailed (nowTs clock : ℤ) : OstiumCandleIngestService :=
  if cfg.marketOpen symbol nowTs then
    let failures := s.consecutivePollFailures symbol + 1
    let s :=
      { s with consecutivePollFailures := Function.update s.consecutivePollFailures symbol failures }
    if 3 ≤ failures then
      (s.markDegraded cfg symbol (.pollFailures failures) clock).increaseBackoff cfg symbol nowTs
    else s
  else s

/-- Whether a symbol is polled: its market is open, and it does not have to wait. -/
def isPolled (paused : List String) (nowTs : ℤ) : Bool :=
  symbol ∉ paused ∧
    (¬ s.usesPollBackoff symbol ∨ (s.symbolBackoffUntil symbol).getD 0 ≤ nowTs)

def isHeartbeat (paused : List String) (nowTs : ℤ) : Bool :=
  symbol ∈ paused ∧ (s.heartbeatLastPoll symbol).getD 0 + cfg.heartbeatIntervalS ≤ nowTs

end OstiumCandleIngestService

/-- What the gate metrics find out about a symbol. -/
inductive Verdict
  | keep
  | stale (seconds : ℤ)
  | missing (minutes : ℤ)
  | recovered
  | raises
  deriving DecidableEq

/-- Degraded symbols are not degraded again, and only those with missing minutes recover. -/
def OstiumCandleIngestService.applyVerdict (cfg : IngestConfig) (s : OstiumCandleIngestService)
    (symbol : String) (clock : ℤ) : Verdict → OstiumCandleIngestService
  | .stale seconds =>
      if s.degradedReason symbol = none then
        s.markDegraded cfg symbol (.staleSeconds seconds) clock
      else s
  | .missing minutes =>
      if s.degradedReason symbol = none then
        s.markDegraded cfg symbol (.missingMinutes24h minutes) clock
      else s
  | .recovered =>
      match s.degradedReason symbol with
      | some (.missingMinutes24h _) => s.autorecover symbol
      | _ => s
  | .keep => s
  | .raises => s

/-! ### The store, and what was done -/

/-- A store of candles: appending gives whether the candle was new, or raises. -/
structure CandleSink (S : Type) where
  append : S → String → Candle → S × Option Bool

/-- A tick that was accepted, with the clock of its cycle. -/
structure Accepted where
  symbol : String
  tick : IngestTick
  nowTs : ℤ
  deriving DecidableEq

/-- A candle that was handed to the store, with the ticks of its bucket and the clock of its
cycle. -/
structure Handed where
  symbol : String
  candle : Candle
  ticks : List IngestTick
  nowTs : ℤ
  deriving DecidableEq

/-- The service, the store, the ticks that were accepted and the candles that were handed over, in
this order. -/
structure IngestWorld (S : Type) where
  service : OstiumCandleIngestService
  store : S
  accepted : List Accepted
  handed : List Handed

/-- A part of a cycle. -/
abbrev IngestStep (S : Type) := EStateM Unit (IngestWorld S)

/-- What a poll gives: a price, nothing (and the clock then), or it is cancelled. -/
inductive Fetched
  | price (timestamp : ℤ) (price : ℚ)
  | failed (clock : ℤ)
  | cancelled
  deriving DecidableEq

/-- A poll: the changes of the symbols while it is awaited, and what it gives. -/
structure Poll where
  reloads : List (List String)
  fetched : Fetched
  deriving DecidableEq

/-- A cycle: the clock at its start, its polls one after the other, and what the gate metrics find
out, with the clock then. -/
structure PollCycle where
  nowTs : ℤ
  minyear : monthStart 12 ≤ 1000000 * nowTs
  maxyear : 1000000 * nowTs < monthStart 120000
  polls : ℕ → Poll
  heartbeats : ℕ → Poll
  verdicts : String → Verdict
  clock : ℤ

section Steps

variable {S : Type} (z : Zones) (sink : CandleSink S) (cfg : IngestConfig)

/-- A change of the service. -/
def modifyService (f : OstiumCandleIngestService → OstiumCandleIngestService) : IngestStep S Unit :=
  modify fun w => { w with service := f w.service }

/-! ### Writing what is over -/

/-- The candle of a minute, and the end of the minute; they may not exist. -/
def candleOfMinute (ts : ℤ) (bar : PriceBar) : Option (Candle × AwareDatetime) := do
  let timestamp ← utcFromTimestamp (1000000 * ts)
  let end_ ← timestamp.add? minuteMicros
  let ohlcv ← Ohlcv.new? bar 0
  some (⟨timestamp, ohlcv, true⟩, end_)

/-- A candle is handed to the store: what the store gives, and the world. -/
def IngestWorld.handOver (w : IngestWorld S) (symbol : String) (nowTs ts : ℤ) (candle : Candle) :
    Option Bool × IngestWorld S :=
  let result := sink.append w.store symbol candle
  (result.2, { w with
    store := result.1
    handed := w.handed ++ [⟨symbol, candle, (w.service.ticks symbol).ticksOf ts, nowTs⟩] })

/-- `self.store.append(candle)`. -/
def appendToStore (symbol : String) (nowTs ts : ℤ) (candle : Candle) : IngestStep S Unit := do
  let appended ← modifyGet fun w : IngestWorld S => w.handOver sink symbol nowTs ts candle
  if appended = none then throw () else pure ()

/-- Hands the candles to the store one after the other, unless the validator finds one wrong. -/
def writeCandles (symbol : String) (nowTs : ℤ) : List (ℤ × PriceBar) → IngestStep S Bool
  | [] => pure true
  | (ts, bar) :: more =>
      match candleOfMinute ts bar with
      | none => throw ()
      | some (candle, end_) =>
          match GapValidator.validate z [candle] candle.timestamp end_ with
          | none => throw ()
          | some report =>
              if 0 < report.duplicateCount ∨ 0 < report.tsStepErrors then do
                modifyService fun s => s.markDegraded cfg symbol
                  (.ostiumDuplicates report.duplicateCount report.tsStepErrors) nowTs
                pure false
              else do
                appendToStore sink symbol nowTs ts candle
                writeCandles symbol nowTs more

/-- Removes the buckets up to the last one that was written. -/
def removeFlushed (symbol : String) (candlesData : List (ℤ × PriceBar)) : IngestStep S Unit :=
  match (candlesData.map Prod.fst).max? with
  | none => pure ()
  | some lastFlushed => modifyService fun s =>
      { s with ticks := Function.update s.ticks symbol ((s.ticks symbol).removeUpTo lastFlushed) }

def flushClosedMinutes (nowTs : ℤ) (symbol : String) : IngestStep S Unit := do
  let w ← get
  let candlesData := aggregateTicksToCandles (w.service.ticks symbol) (minuteStart nowTs)
  let written ← writeCandles z sink cfg symbol nowTs candlesData
  if written then removeFlushed symbol candlesData else pure ()

/-! ### Polling -/

/-- A price of a symbol. -/
def IngestWorld.onPrice (w : IngestWorld S) (symbol : String) (nowTs : ℤ) (tick : IngestTick) :
    IngestWorld S :=
  let s := { w.service with
    consecutivePollFailures := Function.update w.service.consecutivePollFailures symbol 0 }
  match s.acceptTickTimestamp cfg symbol tick.ts nowTs with
  | (false, s) => { w with service := s }
  | (true, s) =>
      { w with
        service := s.keepTick cfg symbol tick
        accepted := w.accepted ++ [⟨symbol, tick, nowTs⟩] }

/-- A poll of a symbol. -/
def pollSymbol (nowTs : ℤ) (symbol : String) (poll : Poll) : IngestStep S Unit := do
  modifyService fun s => poll.reloads.foldl OstiumCandleIngestService.updateSymbols s
  match poll.fetched with
  | .price timestamp price =>
      modify fun w : IngestWorld S => w.onPrice cfg symbol nowTs ⟨timestamp, price⟩
  | .failed clock => modifyService fun s => s.pollFailed cfg symbol nowTs clock
  | .cancelled => throw ()

/-- A poll of a symbol whose market is closed: nothing is kept of it. -/
def heartbeatPoll (nowTs : ℤ) (symbol : String) (poll : Poll) : IngestStep S Unit := do
  modifyService fun s => poll.reloads.foldl OstiumCandleIngestService.updateSymbols s
  if poll.fetched = .cancelled then throw ()
  else modifyService fun s =>
    { s with heartbeatLastPoll := Function.update s.heartbeatLastPoll symbol (some nowTs) }

/-- What the gate metrics do about a symbol. -/
def updateGateMetrics (c : PollCycle) (symbol : String) : IngestStep S Unit :=
  if c.verdicts symbol = .raises then throw ()
  else modifyService fun s => s.applyVerdict cfg symbol c.clock (c.verdicts symbol)

/-! ### Cycles and runs -/

/-- A cycle of the loop. -/
def pollLoopBody (c : PollCycle) : IngestStep S Unit := do
  let w ← get
  let active := w.service.activeSymbols
  let prevPaused := w.service.pausedSymbols
  let paused := active.filter fun s => !cfg.marketOpen s c.nowTs
  modifyService fun s => { s with pausedSymbols := paused }
  (paused.filter fun s => s ∉ prevPaused).forM (flushClosedMinutes z sink cfg c.nowTs)
  let w ← get
  let pollSymbols := active.filter fun s => w.service.isPolled s paused c.nowTs
  let heartbeatSymbols := active.filter fun s => w.service.isHeartbeat cfg s paused c.nowTs
  pollSymbols.zipIdx.forM fun p => pollSymbol cfg c.nowTs p.1 (c.polls p.2)
  heartbeatSymbols.zipIdx.forM fun p => heartbeatPoll c.nowTs p.1 (c.heartbeats p.2)
  pollSymbols.forM (flushClosedMinutes z sink cfg c.nowTs)
  let w ← get
  w.service.symbols.forM (updateGateMetrics cfg c)

/-- What happens to the service. -/
inductive IngestEvent
  | cycle (c : PollCycle)
  | updateSymbols (symbols : List String)

namespace IngestWorld

/-- The service at its start, with a store. -/
def new (symbols : List String) (store : S) : IngestWorld S :=
  ⟨OstiumCandleIngestService.new symbols, store, [], []⟩

def step (w : IngestWorld S) : IngestEvent → IngestWorld S
  | .cycle c => stateAfter (pollLoopBody z sink cfg c) w
  | .updateSymbols symbols => { w with service := w.service.updateSymbols symbols }

/-- A run of the service. -/
def run (w : IngestWorld S) (events : List IngestEvent) : IngestWorld S :=
  events.foldl (step z sink cfg) w

end IngestWorld

end Steps

/-! ### What the parts of a cycle change -/

section Parts

variable {S : Type} {z : Zones} {sink : CandleSink S} {cfg : IngestConfig}

namespace OstiumCandleIngestService

/-- Nothing but the buckets and the last accepted timestamps matters to the candles. -/
structure SameTicks (s s' : OstiumCandleIngestService) : Prop where
  ticks : s'.ticks = s.ticks
  last : s'.lastIngestedTickTs = s.lastIngestedTickTs

variable {s s' s'' : OstiumCandleIngestService} {symbol : String}

theorem SameTicks.refl (s : OstiumCandleIngestService) : SameTicks s s := ⟨rfl, rfl⟩

theorem SameTicks.trans (h : SameTicks s s') (h' : SameTicks s' s'') : SameTicks s s'' :=
  ⟨h'.ticks.trans h.ticks, h'.last.trans h.last⟩

theorem sameTicks_updateSymbols (symbols : List String) : SameTicks s (s.updateSymbols symbols) :=
  ⟨rfl, rfl⟩

theorem sameTicks_reloads (reloads : List (List String)) :
    SameTicks s (reloads.foldl updateSymbols s) := by
  induction reloads generalizing s with
  | nil => exact SameTicks.refl s
  | cons symbols reloads ih => exact (sameTicks_updateSymbols symbols).trans ih

theorem sameTicks_pollFailed (nowTs clock : ℤ) :
    SameTicks s (s.pollFailed cfg symbol nowTs clock) := by
  rw [pollFailed]
  split
  · dsimp only
    split
    · exact ⟨rfl, rfl⟩
    · exact ⟨rfl, rfl⟩
  · exact SameTicks.refl s

theorem sameTicks_applyVerdict (clock : ℤ) (verdict : Verdict) :
    SameTicks s (s.applyVerdict cfg symbol clock verdict) := by
  cases verdict with
  | keep => exact SameTicks.refl s
  | raises => exact SameTicks.refl s
  | stale seconds =>
      rw [applyVerdict]
      split
      · exact ⟨rfl, rfl⟩
      · exact SameTicks.refl s
  | missing minutes =>
      rw [applyVerdict]
      split
      · exact ⟨rfl, rfl⟩
      · exact SameTicks.refl s
  | recovered =>
      rw [applyVerdict]
      split
      · exact ⟨rfl, rfl⟩
      · exact SameTicks.refl s

variable (cfg s symbol) in
/-- What an accepted tick does to the buckets: it is added to that of its minute, if the market is
open then. -/
theorem ticksOf_keepTick (tick : IngestTick) (symbol' : String) (minute : ℤ) :
    ((s.keepTick cfg symbol tick).ticks symbol').ticksOf minute =
      if symbol' = symbol ∧ minute = minuteStart tick.ts ∧ cfg.marketOpen symbol minute = true then
        (s.ticks symbol').ticksOf minute ++ [tick]
      else (s.ticks symbol').ticksOf minute := by
  -- recovering from a degradation leaves the buckets alone
  have hticks : (s.keepTick cfg symbol tick).ticks =
      if cfg.marketOpen symbol (minuteStart tick.ts) then
        Function.update s.ticks symbol ((s.ticks symbol).append (minuteStart tick.ts) tick)
      else s.ticks := by
    rw [keepTick]
    split
    · split
      · rfl
      · rfl
    · split
      · rfl
      · rfl
  rw [hticks]
  by_cases hopen : cfg.marketOpen symbol (minuteStart tick.ts) = true
  · rw [if_pos hopen]
    by_cases hsymbol : symbol' = symbol
    · subst hsymbol
      rw [Function.update_self, Buckets.ticksOf_append]
      refine if_congr ⟨fun hminute => ⟨rfl, hminute, ?_⟩, fun hand => hand.2.1⟩ rfl rfl
      rwa [hminute]
    · rw [Function.update_of_ne hsymbol, if_neg fun hand => hsymbol hand.1]
  · rw [if_neg hopen, if_neg]
    rintro ⟨-, rfl, hminute⟩
    exact hopen hminute

variable (cfg s symbol) in
theorem lastIngestedTickTs_keepTick (tick : IngestTick) :
    (s.keepTick cfg symbol tick).lastIngestedTickTs = s.lastIngestedTickTs := by
  rw [keepTick]
  split
  · split
    · rfl
    · rfl
  · split
    · rfl
    · rfl

end OstiumCandleIngestService

open OstiumCandleIngestService

/-- What a price does: it is not accepted, or it is, and is kept if the market is open in its
minute. -/
theorem onPrice_cases (w : IngestWorld S) (symbol : String) (nowTs : ℤ) (tick : IngestTick) :
    (∃ s, SameTicks w.service s ∧ w.onPrice cfg symbol nowTs tick = { w with service := s }) ∨
    (w.service.invalidTick cfg symbol tick.ts nowTs = false ∧ ∃ s,
      (∀ symbol' minute, (s.ticks symbol').ticksOf minute =
        if symbol' = symbol ∧ minute = minuteStart tick.ts ∧
            cfg.marketOpen symbol minute = true then
          (w.service.ticks symbol').ticksOf minute ++ [tick]
        else (w.service.ticks symbol').ticksOf minute) ∧
      s.lastIngestedTickTs =
        Function.update w.service.lastIngestedTickTs symbol (some tick.ts) ∧
      w.onPrice cfg symbol nowTs tick =
        { w with service := s, accepted := w.accepted ++ [⟨symbol, tick, nowTs⟩] }) := by
  rw [IngestWorld.onPrice, acceptTickTimestamp]
  dsimp only
  split
  · rename_i hinvalid
    split at hinvalid
    · obtain ⟨-, rfl⟩ := Prod.mk.inj hinvalid
      exact Or.inl ⟨{ w.service with
        consecutivePollFailures := Function.update w.service.consecutivePollFailures symbol 0 },
        ⟨rfl, rfl⟩, rfl⟩
    · cases hinvalid
  · rename_i hvalid
    split at hvalid
    · cases hvalid
    · rename_i hinvalid
      obtain ⟨-, rfl⟩ := Prod.mk.inj hvalid
      let polled : OstiumCandleIngestService := { w.service with
        consecutivePollFailures := Function.update w.service.consecutivePollFailures symbol 0
        lastIngestedTickTs :=
          Function.update w.service.lastIngestedTickTs symbol (some tick.ts) }
      exact Or.inr ⟨Bool.eq_false_iff.2 hinvalid, polled.keepTick cfg symbol tick,
        ticksOf_keepTick cfg polled symbol tick, lastIngestedTickTs_keepTick cfg polled symbol tick,
        rfl⟩

/-- A change of the service that leaves the ticks alone. -/
theorem ensures_modifyService {P R : IngestWorld S → Prop}
    {f : OstiumCandleIngestService → OstiumCandleIngestService} (hf : ∀ s, SameTicks s (f s))
    (hP : ∀ w s, SameTicks w.service s → P w → P { w with service := s }) :
    Ensures P (modifyService f) (fun _ => P) R :=
  Ensures.modify fun w hw => hP w _ (hf w.service) hw

/-- There is a candle of a minute whose datetimes exist. -/
theorem exists_candleOfMinute {ts : ℤ} {bar : PriceBar} {prices : List ℚ}
    (hbar : bar.IsBarOf prices) (hmin : monthStart 12 ≤ 1000000 * ts)
    (hmax : 1000000 * (ts + 60) < monthStart 120000) :
    ∃ candle, candleOfMinute ts bar = some candle := by
  have hts : 1000000 * ts < monthStart 120000 := by omega
  have hutc : utcFromTimestamp (1000000 * ts) = some ⟨.utc, 1000000 * ts, false, hmin, hts⟩ :=
    dif_pos ⟨hmin, hts⟩
  have hbounds : monthStart 12 ≤ 1000000 * ts + minuteMicros ∧
      1000000 * ts + minuteMicros < monthStart 120000 := by
    rw [minuteMicros]
    omega
  have hend : AwareDatetime.add? ⟨.utc, 1000000 * ts, false, hmin, hts⟩ minuteMicros =
      some ⟨.utc, 1000000 * ts + minuteMicros, false, hbounds.1, hbounds.2⟩ := dif_pos hbounds
  obtain ⟨ohlcv, hohlcv⟩ := Ohlcv.exists_new? hbar (le_refl 0)
  refine Option.isSome_iff_exists.1 ?_
  rw [candleOfMinute, hutc, Option.bind_eq_bind, Option.bind_some, hend, hohlcv]
  rfl

/-- There is none of a minute before the year 1. -/
theorem candleOfMinute_eq_none {ts : ℤ} (bar : PriceBar) (h : 1000000 * ts < monthStart 12) :
    candleOfMinute ts bar = none := by
  have hutc : utcFromTimestamp (1000000 * ts) = none := dif_neg fun hand => not_lt.2 hand.1 h
  rw [candleOfMinute, hutc]
  rfl

/-- The candle of a minute. -/
theorem candleOfMinute_eq_some {ts : ℤ} {bar : PriceBar} {candle : Candle} {end_ : AwareDatetime}
    (h : candleOfMinute ts bar = some (candle, end_)) :
    candle.timestamp.zone = .utc ∧ candle.timestamp.wall = 1000000 * ts ∧
      candle.ohlcv.bar = bar ∧ candle.isClosed = true ∧
      candle.timestamp.add? minuteMicros = some end_ := by
  rw [candleOfMinute] at h
  obtain ⟨timestamp, htimestamp, h⟩ := Option.bind_eq_some_iff.1 h
  obtain ⟨end_', hend, h⟩ := Option.bind_eq_some_iff.1 h
  obtain ⟨ohlcv, hohlcv, h⟩ := Option.bind_eq_some_iff.1 h
  obtain ⟨rfl, rfl⟩ := Prod.mk.inj (Option.some.inj h)
  obtain ⟨hzone, hwall, -⟩ := utcFromTimestamp_eq_some htimestamp
  exact ⟨hzone, hwall, (Ohlcv.new?_eq_some hohlcv).1, rfl, hend⟩

/-- The validator has a report on the candle of a minute. -/
theorem exists_validate {ts : ℤ} {bar : PriceBar} {candle : Candle} {end_ : AwareDatetime}
    (h : candleOfMinute ts bar = some (candle, end_)) :
    ∃ report, GapValidator.validate z [candle] candle.timestamp end_ = some report := by
  obtain ⟨-, -, -, -, hend⟩ := candleOfMinute_eq_some h
  obtain ⟨hzone, hwall⟩ := AwareDatetime.add?_eq_some hend
  -- the minute before the end is the one of the candle
  have hback : end_.wall + -minuteMicros = candle.timestamp.wall := by
    rw [hwall, add_neg_cancel_right]
  have hbounds : monthStart 12 ≤ end_.wall + -minuteMicros ∧
      end_.wall + -minuteMicros < monthStart 120000 := by
    rw [hback]
    exact ⟨candle.timestamp.minyear, candle.timestamp.maxyear⟩
  have hlast : end_.add? (-minuteMicros) =
      some ⟨end_.zone, end_.wall + -minuteMicros, false, hbounds.1, hbounds.2⟩ := dif_pos hbounds
  -- the window is one minute, so that there is no gap behind the candle
  have hgaps : ∃ gaps, GapValidator.findGaps z [candle] candle.timestamp end_ = some gaps := by
    rw [GapValidator.findGaps, GapValidator.gapsFrom, GapValidator.gapAfter, hlast]
    dsimp only
    rw [if_neg]
    · exact ⟨_, rfl⟩
    · rw [Zones.lt, if_pos hzone.symm, decide_eq_true_eq]
      exact hback.le.not_gt
  obtain ⟨gaps, hgaps⟩ := hgaps
  exact ⟨_, Option.map_eq_some_iff.2 ⟨gaps, hgaps, rfl⟩⟩

/-- Writing candles keeps what handing over each of them keeps. -/
theorem ensures_writeCandles {P R : IngestWorld S → Prop} {symbol : String} {nowTs : ℤ}
    {candlesData : List (ℤ × PriceBar)}
    (hP : ∀ w s, SameTicks w.service s → P w → P { w with service := s }) (hPR : ∀ w, P w → R w)
    (hhand : ∀ p ∈ candlesData, ∀ candle end_, candleOfMinute p.1 p.2 = some (candle, end_) →
      ∀ w, P w → P (w.handOver sink symbol nowTs p.1 candle).2) :
    Ensures P (writeCandles z sink cfg symbol nowTs candlesData) (fun _ => P) R := by
  induction candlesData with
  | nil => exact Ensures.pure fun w hw => hw
  | cons p more ih =>
      obtain ⟨ts, bar⟩ := p
      rw [writeCandles]
      split
      · exact Ensures.raise hPR
      · rename_i candle end_ hcandle
        split
        · exact Ensures.raise hPR
        · refine Ensures.ite (fun _ => ?_) fun _ => ?_
          · refine Ensures.bind (Q := fun _ => P) ?_ fun _ => Ensures.pure fun w hw => hw
            exact ensures_modifyService (fun _ => ⟨rfl, rfl⟩) hP
          · have hnext := ih fun p hp => hhand p (List.mem_cons_of_mem _ hp)
            refine Ensures.bind (Q := fun _ => P) ?_ fun _ => hnext
            refine Ensures.bind (Q := fun _ => P) ?_ fun _ => Ensures.ite
              (fun _ => Ensures.raise hPR) fun _ => Ensures.pure fun w hw => hw
            exact Ensures.modifyGet fun w hw =>
              hhand (ts, bar) List.mem_cons_self candle end_ hcandle w hw

/-- A cycle keeps what polls, writes and changes of the other fields keep.  Up to the end of the
polls this may be more than what is kept by the writes. -/
theorem ensures_pollLoopBody {P R : IngestWorld S → Prop} {c : PollCycle}
    (hP : ∀ w s, SameTicks w.service s → P w → P { w with service := s })
    (hR : ∀ w s, SameTicks w.service s → R w → R { w with service := s })
    (hPR : ∀ w, P w → R w)
    (hpaused : ∀ symbol, cfg.marketOpen symbol c.nowTs = false →
      Ensures P (flushClosedMinutes z sink cfg c.nowTs symbol) (fun _ => P) R)
    (hprice : ∀ i timestamp price, (c.polls i).fetched = .price timestamp price →
      ∀ symbol w, P w → P (w.onPrice cfg symbol c.nowTs ⟨timestamp, price⟩))
    (hflush : ∀ symbol, Ensures R (flushClosedMinutes z sink cfg c.nowTs symbol) (fun _ => R) R) :
    Ensures P (pollLoopBody z sink cfg c) (fun _ => R) R := by
  have hreloads : ∀ (Q : IngestWorld S → Prop) (poll : Poll),
      (∀ w s, SameTicks w.service s → Q w → Q { w with service := s }) →
      Ensures Q (modifyService fun s => poll.reloads.foldl updateSymbols s) (fun _ => Q) R :=
    fun Q poll hQ => ensures_modifyService (fun _ => sameTicks_reloads _) hQ
  have hpoll : ∀ p : String × ℕ,
      Ensures P (pollSymbol cfg c.nowTs p.1 (c.polls p.2)) (fun _ => P) R := by
    intro p
    refine (hreloads P _ hP).bind fun _ => ?_
    cases hfetched : (c.polls p.2).fetched with
    | price timestamp price =>
        exact Ensures.modify fun w hw => hprice p.2 timestamp price hfetched p.1 w hw
    | failed clock => exact ensures_modifyService (fun _ => sameTicks_pollFailed _ _) hP
    | cancelled => exact Ensures.raise hPR
  have hheartbeat : ∀ p : String × ℕ,
      Ensures P (heartbeatPoll c.nowTs p.1 (c.heartbeats p.2)) (fun _ => P) R := by
    intro p
    refine (hreloads P _ hP).bind fun _ => Ensures.ite (fun _ => Ensures.raise hPR) fun _ => ?_
    exact ensures_modifyService (fun _ => ⟨rfl, rfl⟩) hP
  have hmetrics : ∀ symbol, Ensures R (updateGateMetrics (S := S) cfg c symbol) (fun _ => R) R := by
    intro symbol
    refine Ensures.ite (fun _ => Ensures.raise fun _ hw => hw) fun _ => ?_
    exact ensures_modifyService (fun _ => sameTicks_applyVerdict _ _) hR
  refine Ensures.get_bind fun w₀ hw₀ => ?_
  refine (Ensures.bind (Q := fun _ => P) ?_ fun _ => ?_).consequence (fun w hw => hw ▸ hw₀)
    fun _ _ h => h
  · exact ensures_modifyService (fun _ => ⟨rfl, rfl⟩) hP
  refine (Ensures.forM fun symbol hsymbol => hpaused symbol ?_).bind fun _ => ?_
  · have hclosed := (List.mem_filter.1 (List.mem_filter.1 hsymbol).1).2
    simpa using hclosed
  refine Ensures.get_bind fun w₁ hw₁ => ?_
  refine (Ensures.bind (Q := fun _ => P) ?_ fun _ => ?_).consequence (fun w hw => hw ▸ hw₁)
    fun _ _ h => h
  · exact Ensures.forM fun p _ => hpoll p
  refine (Ensures.forM fun p _ => hheartbeat p).bind fun _ => ?_
  -- from here on the writes, which keep only `R`
  refine (Ensures.bind (Q := fun _ => R) ?_ fun _ => ?_).consequence hPR fun _ _ h => h
  · exact Ensures.forM fun symbol _ => hflush symbol
  refine Ensures.get_bind fun w₂ hw₂ => ?_
  refine Ensures.consequence (Ensures.forM fun symbol _ => hmetrics symbol) (fun w hw => ?_)
    fun _ _ h => h
  exact hw ▸ hw₂

end Parts
