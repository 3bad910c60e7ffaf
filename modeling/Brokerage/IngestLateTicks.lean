/-
**What becomes of the ticks that were accepted.**

The loop accepts a tick that is a few minutes old, as long as no later one was accepted, and files
it in the bucket of its minute, also when the candle of the minute is stored already.  The store
does not replace a candle, so the tick is lost when its bucket is written.  As long as no tick is
accepted in a minute whose candle is stored, a stored candle has the prices of all accepted ticks of
its minute that are not in a bucket.

Main definitions:

* `csvSink` — the store of the files;
* `Lossless` — the stored candles are those of the accepted ticks;
* `NoLateTick`, `NoLateTicks` — no tick of a cycle, or a run, comes after the candle of its minute.

Main results:

* `ensures_flush_whole` — what writing keeps;
* `lossless_of_noLateTicks` — runs without late ticks;
* `late_tick_lost` — a tick that comes after the candle of its minute.
-/

import Brokerage.CandleSeries
import Brokerage.OstiumIngest

set_option relaxedAutoImplicit false
set_option autoImplicit false

open CandleStore (Files)

variable {z : Zones} {cfg : IngestConfig} {symbol : String}

/-! ### The files of the symbols -/

variable (z) in
/-- The store of the files of each symbol. -/
def csvSink : CandleSink (String → Files) where
  append files symbol candle :=
    match CandleStore.append z (files symbol) candle with
    | none => (files, none)
    | some (files', done) => (Function.update files symbol files', some done)

/-- The service with the store of files. -/
abbrev CsvWorld := IngestWorld (String → Files)

variable (z) in
/-- The candle that is stored for a minute. -/
def storedAt (w : CsvWorld) (symbol : String) (minute : ℤ) : Option Ohlcv :=
  CandleStore.seriesOf z (w.store symbol) (1000000 * minute)

/-- The ticks of a minute that were accepted. -/
def acceptedIn {S : Type} (w : IngestWorld S) (symbol : String) (minute : ℤ) : List IngestTick :=
  (w.accepted.filter fun a => a.symbol = symbol ∧ minuteStart a.tick.ts = minute).map Accepted.tick

variable (z) in
/-- For every minute, the ticks that were accepted and are in no bucket are those of the stored
candle. -/
def Lossless (symbol : String) (w : CsvWorld) : Prop :=
  ∀ minute, ∃ written,
    acceptedIn w symbol minute = written ++ (w.service.ticks symbol).ticksOf minute ∧
      match storedAt z w symbol minute with
      | none => written = []
      | some v => v.bar.IsBarOf (written.map IngestTick.price)

variable (z cfg) in
/-- A tick that is polled in a cycle is not accepted, or its minute has no candle yet. -/
def NoLateTick (symbol : String) (w : CsvWorld) (c : PollCycle) : Prop :=
  ∀ i timestamp price, (c.polls i).fetched = .price timestamp price →
    w.service.invalidTick cfg symbol timestamp c.nowTs = true ∨
      storedAt z w symbol (minuteStart timestamp) = none

variable (z cfg) in
/-- So it is in every cycle of a run. -/
def NoLateTicks (symbol : String) (w : CsvWorld) (events : List IngestEvent) : Prop :=
  ∀ pre c post, events = pre ++ .cycle c :: post →
    NoLateTick z cfg symbol (w.run z (csvSink z) cfg pre) c

/-! ### The invariant -/

variable (z) in
/-- A minute has no candle, and its ticks are in its bucket; or it has one, of all its ticks. -/
def Whole (symbol : String) (w : CsvWorld) (minute : ℤ) : Prop :=
  (storedAt z w symbol minute = none ∧
    acceptedIn w symbol minute = (w.service.ticks symbol).ticksOf minute) ∨
  ∃ v, storedAt z w symbol minute = some v ∧ (w.service.ticks symbol).ticksOf minute = [] ∧
    v.bar.IsBarOf ((acceptedIn w symbol minute).map IngestTick.price)

variable (z) in
/-- What holds while candles are written, of which those of the minutes with `done` are stored
already. -/
structure Writing (symbol : String) (done : ℤ → Prop) (w : CsvWorld) : Prop where
  files : CandleStore.Inv z (· = .utc) (w.store symbol)
  aligned : ∀ minute, (w.service.ticks symbol).ticksOf minute ≠ [] → 60 ∣ minute
  notDone : ∀ minute, ¬ done minute → Whole z symbol w minute
  done : ∀ minute, done minute → ∃ v, storedAt z w symbol minute = some v ∧
    v.bar.IsBarOf ((acceptedIn w symbol minute).map IngestTick.price)

variable (z) in
/-- What holds between the calls. -/
abbrev NoLoss (symbol : String) (w : CsvWorld) : Prop := Writing z symbol (fun _ => False) w

variable {w : CsvWorld} {done : ℤ → Prop}

theorem NoLoss.new (symbols : List String) :
    NoLoss z symbol (IngestWorld.new symbols fun _ => Dict.empty) where
  files := CandleStore.inv_empty
  aligned _ hne := absurd rfl hne
  notDone _ _ := Or.inl ⟨rfl, rfl⟩
  done _ h := h.elim

theorem NoLoss.lossless (h : NoLoss z symbol w) : Lossless z symbol w := by
  intro minute
  rcases h.notDone minute not_false with ⟨hstored, haccepted⟩ | ⟨v, hstored, hbucket, hbar⟩
  · exact ⟨[], haccepted, by rw [hstored]⟩
  · refine ⟨acceptedIn w symbol minute, by rw [hbucket, List.append_nil], ?_⟩
    rw [hstored]
    exact hbar

/-- Nothing changed for the symbol. -/
structure SameFor (symbol : String) (w w' : CsvWorld) : Prop where
  store : w'.store symbol = w.store symbol
  ticks : w'.service.ticks symbol = w.service.ticks symbol
  last : w'.service.lastIngestedTickTs symbol = w.service.lastIngestedTickTs symbol
  accepted : w'.accepted = w.accepted

theorem sameFor_of_sameTicks {s : OstiumCandleIngestService} (hs : w.service.SameTicks s) :
    SameFor symbol w { w with service := s } :=
  ⟨rfl, congrFun hs.ticks symbol, congrFun hs.last symbol, rfl⟩

theorem NoLoss.sameFor {w' : CsvWorld} (h : NoLoss z symbol w) (hsame : SameFor symbol w w') :
    NoLoss z symbol w' := by
  refine ⟨?_, fun minute hne => ?_, fun minute hnot => ?_, fun _ hdone => hdone.elim⟩
  · rw [hsame.store]
    exact h.files
  · rw [hsame.ticks] at hne
    exact h.aligned minute hne
  · rw [Whole, storedAt, acceptedIn, hsame.store, hsame.ticks, hsame.accepted]
    exact h.notDone minute hnot

theorem acceptedIn_append {S : Type} (w : IngestWorld S) (a : Accepted)
    (s : OstiumCandleIngestService) (minute : ℤ) :
    acceptedIn { w with service := s, accepted := w.accepted ++ [a] } symbol minute =
      if a.symbol = symbol ∧ minuteStart a.tick.ts = minute then
        acceptedIn w symbol minute ++ [a.tick]
      else acceptedIn w symbol minute := by
  rw [acceptedIn, List.filter_append, List.map_append]
  split
  · rename_i h
    simp [h, acceptedIn]
  · rename_i h
    simp [h, acceptedIn]

/-! ### Polls -/

/-- What a price keeps, if it does not come after the candle of its minute. -/
theorem NoLoss.onPrice (h : NoLoss z symbol w) (hopen : ∀ t, cfg.marketOpen symbol t = true)
    {symbol' : String} {nowTs : ℤ} {tick : IngestTick}
    (hlate : symbol' = symbol → w.service.invalidTick cfg symbol tick.ts nowTs = true ∨
      storedAt z w symbol (minuteStart tick.ts) = none) :
    NoLoss z symbol (w.onPrice cfg symbol' nowTs tick) := by
  rcases onPrice_cases w symbol' nowTs tick with ⟨s, hs, heq⟩ | ⟨hvalid, s, hbuckets, -, heq⟩
  · rw [heq]
    exact h.sameFor (sameFor_of_sameTicks hs)
  · rw [heq]
    refine ⟨h.files, fun minute hne => ?_, fun minute _ => ?_, fun _ hdone => hdone.elim⟩
    · dsimp only at hne
      rw [hbuckets] at hne
      split at hne
      · rename_i hand
        rw [hand.2.1, minuteStart]
        omega
      · exact h.aligned minute hne
    · have hwhole := h.notDone minute not_false
      rw [Whole, acceptedIn_append]
      dsimp only
      rw [hbuckets]
      by_cases hand : symbol = symbol' ∧ minute = minuteStart tick.ts
      · -- the new tick is in the bucket of its minute, of which no candle is stored
        obtain ⟨rfl, rfl⟩ := hand
        rw [if_pos ⟨rfl, rfl⟩, if_pos ⟨rfl, rfl, hopen _⟩]
        have hnone := (hlate rfl).resolve_left (by rw [hvalid]; exact Bool.false_ne_true)
        refine Or.inl ⟨hnone, ?_⟩
        rcases hwhole with ⟨-, haccepted⟩ | ⟨v, hstored, -, -⟩
        · rw [haccepted]
        · cases hnone.symm.trans hstored
      · rw [if_neg fun hsame => hand ⟨hsame.1.symm, hsame.2.symm⟩,
          if_neg fun hsame => hand ⟨hsame.1, hsame.2.1⟩]
        exact hwhole

/-! ### Handing over -/

/-- Candles of other symbols change nothing. -/
theorem sameFor_handOver {symbol' : String} (hne : symbol' ≠ symbol) (nowTs ts : ℤ)
    (candle : Candle) :
    SameFor symbol w (w.handOver (csvSink z) symbol' nowTs ts candle).2 := by
  refine ⟨?_, rfl, rfl, rfl⟩
  change ((csvSink z).append w.store symbol' candle).1 symbol = w.store symbol
  rw [csvSink]
  dsimp only
  split
  · rfl
  · exact Function.update_of_ne (Ne.symm hne) _ _

/-- Handing over the candle of a bucket: it is stored, and nothing is raised. -/
theorem Writing.handOver (h : Writing z symbol done w) (nowTs : ℤ) {ts : ℤ} {bar : PriceBar}
    (hnot : ¬ done ts)
    (hbar : bar.IsBarOf (((w.service.ticks symbol).ticksOf ts).map IngestTick.price))
    {candle : Candle} {end_ : AwareDatetime}
    (hcandle : candleOfMinute ts bar = some (candle, end_)) :
    (w.handOver (csvSink z) symbol nowTs ts candle).1 ≠ none ∧
      Writing z symbol (fun m => done m ∨ m = ts)
        (w.handOver (csvSink z) symbol nowTs ts candle).2 := by
  obtain ⟨hzone, hwall, hcandleBar, hclosed, -⟩ := candleOfMinute_eq_some hcandle
  -- the store appends the candle, or has one of its minute
  obtain ⟨files', added, happend, hfiles', hseries⟩ :=
    CandleStore.append_utc h.files hzone ⟨ts, hwall⟩ hclosed
  have hresult : w.handOver (csvSink z) symbol nowTs ts candle = (some added, { w with
      store := Function.update w.store symbol files'
      handed := w.handed ++ [⟨symbol, candle, (w.service.ticks symbol).ticksOf ts, nowTs⟩] }) := by
    rw [IngestWorld.handOver, csvSink]
    dsimp only
    rw [happend]
  rw [hresult]
  have hentry : candle.entry z = (1000000 * ts, candle.ohlcv) := by
    rw [Candle.entry, Candle.instant, Zones.instant_utc hzone, hwall]
  -- the series has one more candle
  have hstored : ∀ minute, storedAt z { w with
      store := Function.update w.store symbol files'
      handed := w.handed ++ [⟨symbol, candle, (w.service.ticks symbol).ticksOf ts, nowTs⟩] }
        symbol minute =
      (storedAt z w symbol minute).or (if minute = ts then some candle.ohlcv else none) := by
    intro minute
    rw [storedAt]
    dsimp only
    rw [Function.update_self, hseries, hentry, Series.append, Dict.lookup_cons_ite]
    have hiff : 1000000 * minute = 1000000 * ts ↔ minute = ts := by omega
    simp only [hiff]
    rfl
  have hbucket : (w.service.ticks symbol).ticksOf ts ≠ [] := fun hnil =>
    hbar.ne_nil (by rw [hnil]; rfl)
  obtain ⟨hnone, haccepted⟩ := (h.notDone ts hnot).resolve_right fun hright => by
    obtain ⟨-, -, hnil, -⟩ := hright
    exact hbucket hnil
  refine ⟨Option.some_ne_none added, ?_, h.aligned, fun minute hminute => ?_,
    fun minute hminute => ?_⟩
  · dsimp only
    rw [Function.update_self]
    exact hfiles'
  · obtain ⟨hold, hne⟩ := not_or.1 hminute
    rw [Whole, hstored, if_neg hne, Option.or_none]
    exact h.notDone minute hold
  · rw [hstored]
    by_cases hts : minute = ts
    · subst hts
      refine ⟨candle.ohlcv, by rw [hnone, if_pos rfl]; rfl, ?_⟩
      rw [hcandleBar]
      have hsame := hbar
      rw [← haccepted] at hsame
      exact hsame
    · obtain ⟨v, hv, hvbar⟩ := h.done minute (hminute.resolve_right hts)
      exact ⟨v, by rw [hv]; rfl, hvbar⟩

/-! ### Writing what is over -/

variable (z cfg symbol done) in
/-- If the datetimes of all minutes exist, their candles are stored, and nothing is raised. -/
theorem ensures_writeCandles_done (nowTs : ℤ) (b : Buckets) {candlesData : List (ℤ × PriceBar)}
    (hsorted : candlesData.Pairwise fun p q => p.1 < q.1)
    (hexists : ∀ p ∈ candlesData, ∃ candle, candleOfMinute p.1 p.2 = some candle)
    (hbar : ∀ p ∈ candlesData, p.2.IsBarOf ((b.ticksOf p.1).map IngestTick.price))
    (hnot : ∀ p ∈ candlesData, ¬ done p.1) :
    Ensures (fun w : CsvWorld => Writing z symbol done w ∧ w.service.ticks symbol = b)
      (writeCandles z (csvSink z) cfg symbol nowTs candlesData)
      (fun written w => written = true ∧
        Writing z symbol (fun m => done m ∨ m ∈ candlesData.map Prod.fst) w ∧
        w.service.ticks symbol = b)
      (fun _ => False) := by
  induction candlesData generalizing done with
  | nil =>
      refine Ensures.pure fun w hw => ⟨rfl, ?_, hw.2⟩
      simpa using hw.1
  | cons p more ih =>
      obtain ⟨ts, bar⟩ := p
      obtain ⟨⟨candle, end_⟩, hcandle⟩ := hexists (ts, bar) List.mem_cons_self
      obtain ⟨report, hreport⟩ := exists_validate (z := z) hcandle
      obtain ⟨hduplicates, hsteps⟩ := GapValidator.validate_singleton z hreport
      obtain ⟨hlater, hsorted⟩ := List.pairwise_cons.1 hsorted
      rw [writeCandles, hcandle]
      dsimp only
      rw [hreport]
      dsimp only
      rw [if_neg (by omega)]
      -- induction on the candles: those that were handed over join `done`
      have hnext := ih (fun m => done m ∨ m = ts) hsorted
        (fun p hp => hexists p (List.mem_cons_of_mem _ hp))
        (fun p hp => hbar p (List.mem_cons_of_mem _ hp))
        fun p hp hor => hor.elim (hnot p (List.mem_cons_of_mem _ hp)) (hlater p hp).ne'
      refine Ensures.bind (Q := fun _ w => Writing z symbol (fun m => done m ∨ m = ts) w ∧
        w.service.ticks symbol = b) ?_ fun _ => hnext.consequence (fun _ hw => hw) ?_
      · refine Ensures.bind (Q := fun appended w => appended ≠ none ∧
          Writing z symbol (fun m => done m ∨ m = ts) w ∧ w.service.ticks symbol = b) ?_
          fun appended => Ensures.ite (fun hnone => Ensures.raise fun w hw => hw.1 hnone)
            fun _ => Ensures.pure fun w hw => hw.2
        refine Ensures.modifyGet fun w hw => ?_
        have hthis := hbar (ts, bar) List.mem_cons_self
        rw [← hw.2] at hthis
        obtain ⟨happended, hwriting⟩ := hw.1.handOver nowTs
          (hnot (ts, bar) List.mem_cons_self) hthis hcandle
        exact ⟨happended, hwriting, hw.2⟩
      · rintro written w ⟨hwritten, hwriting, hticks⟩
        refine ⟨hwritten, ?_, hticks⟩
        have hiff : (fun m => (done m ∨ m = ts) ∨ m ∈ more.map Prod.fst) =
            fun m => done m ∨ m ∈ ((ts, bar) :: more).map Prod.fst := by
          funext m
          rw [List.map_cons, List.mem_cons, or_assoc]
        rw [← hiff]
        exact hwriting

/-- When the candles of all buckets that are over are stored, the buckets can be removed. -/
theorem Writing.removeUpTo {currentMinute lastFlushed : ℤ}
    (h : Writing z symbol (fun m => m ∈
      (aggregateTicksToCandles (w.service.ticks symbol) currentMinute).map Prod.fst) w)
    (hlast : ((aggregateTicksToCandles (w.service.ticks symbol) currentMinute).map Prod.fst).max? =
      some lastFlushed) :
    NoLoss z symbol { w with service := { w.service with
      ticks := Function.update w.service.ticks symbol
        ((w.service.ticks symbol).removeUpTo lastFlushed) } } := by
  obtain ⟨hmem, hmax⟩ := List.max?_eq_some_iff.1 hlast
  have hover : lastFlushed < currentMinute := by
    obtain ⟨⟨m, bar⟩, hp, rfl⟩ := List.mem_map.1 hmem
    exact (mem_aggregateTicksToCandles.1 hp).1
  refine ⟨h.files, fun minute hne => ?_, fun minute _ => ?_, fun _ hdone => hdone.elim⟩
  · dsimp only at hne
    rw [Function.update_self, Buckets.ticksOf_removeUpTo] at hne
    split at hne
    · exact absurd rfl hne
    · exact h.aligned minute hne
  rw [Whole]
  dsimp only
  rw [Function.update_self, Buckets.ticksOf_removeUpTo]
  by_cases hdone : minute ∈
      (aggregateTicksToCandles (w.service.ticks symbol) currentMinute).map Prod.fst
  · obtain ⟨v, hstored, hbar⟩ := h.done minute hdone
    rw [if_pos (hmax minute hdone)]
    exact Or.inr ⟨v, hstored, rfl, hbar⟩
  · split
    · -- a bucket that is removed without a candle is empty
      rename_i hle
      have hnil : (w.service.ticks symbol).ticksOf minute = [] := by
        by_contra hne
        have hprices : ((w.service.ticks symbol).ticksOf minute).map IngestTick.price ≠ [] :=
          fun hnil => hne (List.map_eq_nil_iff.1 hnil)
        obtain ⟨bar, hbar⟩ := Option.ne_none_iff_exists'.1 (mt PriceBar.of?_eq_none_iff.1 hprices)
        exact hdone (List.mem_map_of_mem (f := Prod.fst) (mem_aggregateTicksToCandles.2
          ⟨hle.trans_lt hover, PriceBar.of?_eq_some_iff.1 hbar⟩))
      rcases h.notDone minute hdone with ⟨hstored, haccepted⟩ | ⟨v, hstored, -, hbar⟩
      · exact Or.inl ⟨hstored, haccepted.trans hnil⟩
      · exact Or.inr ⟨v, hstored, rfl, hbar⟩
    · exact h.notDone minute hdone

/-- Writing for other symbols changes nothing. -/
theorem ensures_flush_other {P R : CsvWorld → Prop}
    (hP : ∀ w w', SameFor symbol w w' → P w → P w') (hPR : ∀ w, P w → R w) {symbol' : String}
    (hne : symbol' ≠ symbol) (nowTs : ℤ) :
    Ensures P (flushClosedMinutes z (csvSink z) cfg nowTs symbol') (fun _ => P) R := by
  refine Ensures.get_bind fun w hw => ?_
  refine Ensures.bind (Q := fun _ => P) ?_ fun written => ?_
  · have hwrite : Ensures P (writeCandles z (csvSink z) cfg symbol' nowTs
        (aggregateTicksToCandles (w.service.ticks symbol') (minuteStart nowTs))) (fun _ => P) R :=
      ensures_writeCandles (fun w s hs hw => hP w _ (sameFor_of_sameTicks hs) hw) hPR
        fun p _ candle _ _ w hw => hP w _ (sameFor_handOver hne nowTs p.1 candle) hw
    exact hwrite.consequence (fun w' hw' => hw' ▸ hw) fun _ _ hw' => hw'
  · refine Ensures.ite (fun _ => ?_) fun _ => Ensures.pure fun w hw => hw
    rw [removeFlushed]
    split
    · exact Ensures.pure fun w hw => hw
    · exact Ensures.modify fun w hw =>
        hP w _ ⟨rfl, Function.update_of_ne (Ne.symm hne) _ _, rfl, rfl⟩ hw

/-- What writing all that is over keeps. -/
theorem ensures_flush_whole {nowTs : ℤ} (hnow : 1000000 * nowTs < monthStart 120000) :
    Ensures (NoLoss z symbol) (flushClosedMinutes z (csvSink z) cfg nowTs symbol)
      (fun _ => NoLoss z symbol) (NoLoss z symbol) := by
  refine Ensures.get_bind fun w hw => ?_
  -- the candles of all buckets that are over, or none: the first bucket is before the year 1
  have hwrite : Ensures (fun w' => w' = w)
      (writeCandles z (csvSink z) cfg symbol nowTs
        (aggregateTicksToCandles (w.service.ticks symbol) (minuteStart nowTs)))
      (fun written w' => written = true ∧
        Writing z symbol (fun m => m ∈
          (aggregateTicksToCandles (w.service.ticks symbol) (minuteStart nowTs)).map Prod.fst) w' ∧
        w'.service.ticks symbol = w.service.ticks symbol)
      (NoLoss z symbol) := by
    have hspec := fun q (hq : q ∈ aggregateTicksToCandles (w.service.ticks symbol)
      (minuteStart nowTs)) => mem_aggregateTicksToCandles.1 hq
    have hsorted := pairwise_aggregateTicksToCandles (w.service.ticks symbol) (minuteStart nowTs)
    cases hdata : aggregateTicksToCandles (w.service.ticks symbol) (minuteStart nowTs) with
    | nil =>
        refine Ensures.pure fun w' hw' => ⟨rfl, ?_, by rw [hw']⟩
        obtain rfl : w' = w := hw'
        simpa using hw
    | cons p more =>
        rw [hdata] at hspec hsorted
        by_cases hmin : monthStart 12 ≤ 1000000 * p.1
        · -- if the first minute has a datetime, so have the later ones
          have hexists : ∀ q ∈ p :: more, ∃ candle, candleOfMinute q.1 q.2 = some candle := by
            intro q hq
            obtain ⟨hover, hbar⟩ := hspec q hq
            have hdvd := hw.aligned q.1 fun hnil => hbar.ne_nil (by rw [hnil]; rfl)
            have hle : p.1 ≤ q.1 := by
              rcases List.mem_cons.1 hq with rfl | hq
              · exact le_refl _
              · exact ((List.pairwise_cons.1 hsorted).1 q hq).le
            rw [minuteStart] at hover
            exact exists_candleOfMinute hbar (by omega) (by omega)
          have hdone := ensures_writeCandles_done z cfg symbol (fun _ => False) nowTs
            (w.service.ticks symbol) hsorted hexists
            (fun q hq => (hspec q hq).2) fun _ _ hfalse => hfalse
          intro w' hw'
          obtain rfl : w' = w := hw'
          have hresult := hdone w' ⟨hw, rfl⟩
          revert hresult
          cases writeCandles z (csvSink z) cfg symbol nowTs (p :: more) w' with
          | ok written w'' => simp
          | error e w'' => exact False.elim
        · rw [writeCandles, candleOfMinute_eq_none p.2 (not_le.1 hmin)]
          exact Ensures.raise fun w' hw' => hw' ▸ hw
  refine hwrite.bind fun written => Ensures.ite (fun _ => ?_) fun hnot => ?_
  · rw [removeFlushed]
    split
    · rename_i hnone
      have hnil := List.map_eq_nil_iff.1 (List.max?_eq_none_iff.1 hnone)
      refine Ensures.pure fun w' hw' => ?_
      obtain ⟨-, hwriting, -⟩ := hw'
      rw [hnil] at hwriting
      simpa using hwriting
    · rename_i lastFlushed hlast
      refine Ensures.modify fun w' hw' => ?_
      obtain ⟨-, hwriting, hticks⟩ := hw'
      rw [← hticks] at hwriting hlast
      exact hwriting.removeUpTo hlast
  · exact Ensures.pure fun w' hw' => absurd hw'.1 hnot

/-! ### Runs -/

/-- Since a state the store is the same for a symbol, and only later ticks were accepted. -/
structure Since (symbol : String) (w₀ w : CsvWorld) : Prop where
  store : w.store symbol = w₀.store symbol
  last : ∀ a ∈ w₀.service.lastIngestedTickTs symbol,
    ∃ b ∈ w.service.lastIngestedTickTs symbol, a ≤ b

theorem Since.sameFor {w₀ w' : CsvWorld} (h : Since symbol w₀ w) (hsame : SameFor symbol w w') :
    Since symbol w₀ w' where
  store := hsame.store.trans h.store
  last := by
    rw [hsame.last]
    exact h.last

/-- A tick that is not accepted in a state is not accepted later. -/
theorem Since.invalidTick {w₀ : CsvWorld} (h : Since symbol w₀ w) {tickTs nowTs : ℤ}
    (hinvalid : w₀.service.invalidTick cfg symbol tickTs nowTs = true) :
    w.service.invalidTick cfg symbol tickTs nowTs = true := by
  rw [OstiumCandleIngestService.invalidTick, decide_eq_true_eq] at hinvalid ⊢
  rcases hinvalid with hold | hfuture | hprevious
  · exact Or.inl hold
  · exact Or.inr (Or.inl hfuture)
  · obtain ⟨a, ha, hlt⟩ := (Option.any_eq_true _ _).1 hprevious
    obtain ⟨b, hb, hle⟩ := h.last a ha
    refine Or.inr (Or.inr ?_)
    rw [Option.mem_def.1 hb]
    exact decide_eq_true ((of_decide_eq_true hlt).trans_le hle)

/-- What a price keeps of a state from which on only later ticks were accepted. -/
theorem Since.onPrice {w₀ : CsvWorld} (h : Since symbol w₀ w) (symbol' : String) (nowTs : ℤ)
    (tick : IngestTick) : Since symbol w₀ (w.onPrice cfg symbol' nowTs tick) := by
  rcases onPrice_cases w symbol' nowTs tick with ⟨s, hs, heq⟩ | ⟨hvalid, s, -, hlast, heq⟩
  · rw [heq]
    exact h.sameFor (sameFor_of_sameTicks hs)
  · rw [heq]
    refine ⟨h.store, fun a ha => ?_⟩
    obtain ⟨b, hb, hle⟩ := h.last a ha
    dsimp only
    rw [hlast]
    -- the last timestamp only grows, as an earlier one is not accepted
    by_cases hsymbol : symbol' = symbol
    · obtain rfl := hsymbol
      rw [Function.update_self]
      refine ⟨tick.ts, rfl, hle.trans (not_lt.1 fun hlt => ?_)⟩
      rw [OstiumCandleIngestService.invalidTick, decide_eq_false_iff_not, not_or, not_or,
        Option.mem_def.1 hb] at hvalid
      exact hvalid.2.2 (decide_eq_true hlt)
    · rw [Function.update_of_ne (Ne.symm hsymbol)]
      exact ⟨b, hb, hle⟩

/-- What a cycle without a late tick, or a change of the symbols, keeps. -/
theorem NoLoss.step (h : NoLoss z symbol w) (hopen : ∀ t, cfg.marketOpen symbol t = true)
    {e : IngestEvent} (hlate : ∀ c, e = .cycle c → NoLateTick z cfg symbol w c) :
    NoLoss z symbol (w.step z (csvSink z) cfg e) := by
  cases e with
  | updateSymbols symbols =>
      exact h.sameFor (sameFor_of_sameTicks (OstiumCandleIngestService.sameTicks_updateSymbols _))
  | cycle c =>
      have hP : ∀ w' w'', SameFor symbol w' w'' → NoLoss z symbol w' ∧ Since symbol w w' →
          NoLoss z symbol w'' ∧ Since symbol w w'' := fun w' w'' hsame hw' =>
        ⟨hw'.1.sameFor hsame, hw'.2.sameFor hsame⟩
      have hR : ∀ w' w'', SameFor symbol w' w'' → NoLoss z symbol w' → NoLoss z symbol w'' :=
        fun w' w'' hsame hw' => hw'.sameFor hsame
      have hcycle : Ensures (fun w' => NoLoss z symbol w' ∧ Since symbol w w')
          (pollLoopBody z (csvSink z) cfg c) (fun _ => NoLoss z symbol) (NoLoss z symbol) := by
        refine ensures_pollLoopBody (fun w' s hs => hP w' _ (sameFor_of_sameTicks hs))
          (fun w' s hs => hR w' _ (sameFor_of_sameTicks hs)) (fun w' hw' => hw'.1)
          (fun symbol' hclosed => ?_) (fun i timestamp price hfetched symbol' w' hw' => ?_)
          fun symbol' => ?_
        · -- the market of the symbol is open, so that only other symbols are paused
          refine ensures_flush_other hP (fun w' hw' => hw'.1) (fun hsymbol => ?_) c.nowTs
          rw [hsymbol, hopen] at hclosed
          cases hclosed
        · refine ⟨hw'.1.onPrice hopen fun hsymbol => ?_, hw'.2.onPrice symbol' c.nowTs _⟩
          rcases hlate c rfl i timestamp price hfetched with hinvalid | hnone
          · exact Or.inl (hw'.2.invalidTick hinvalid)
          · refine Or.inr ?_
            rw [storedAt, hw'.2.store]
            exact hnone
        · by_cases hsymbol : symbol' = symbol
          · rw [hsymbol]
            exact ensures_flush_whole c.maxyear
          · exact ensures_flush_other hR (fun _ hw' => hw') hsymbol c.nowTs
      exact hcycle.after ⟨h, rfl, fun a ha => ⟨a, ha, le_refl a⟩⟩

/-- What a run without late ticks keeps. -/
theorem NoLoss.run (hopen : ∀ t, cfg.marketOpen symbol t = true) (symbols : List String)
    {events : List IngestEvent}
    (hlate : NoLateTicks z cfg symbol (IngestWorld.new symbols fun _ => Dict.empty) events) :
    NoLoss z symbol
      ((IngestWorld.new symbols fun _ => Dict.empty).run z (csvSink z) cfg events) := by
  induction events using List.reverseRecOn with
  | nil => exact NoLoss.new symbols
  | append_singleton events e ih =>
      have hrun := ih fun pre c post heq => hlate pre c (post ++ [e]) (by
        rw [heq, List.append_assoc, List.cons_append])
      rw [IngestWorld.run, List.foldl_append]
      refine NoLoss.step hrun hopen fun c hc => ?_
      exact hlate events c [] (by rw [hc])

/-- As long as no tick comes after the candle of its minute, at every point of a run the stored
candles are those of the accepted ticks that are in no bucket. -/
theorem lossless_of_noLateTicks (hopen : ∀ t, cfg.marketOpen symbol t = true)
    (symbols : List String) {events : List IngestEvent}
    (hlate : NoLateTicks z cfg symbol (IngestWorld.new symbols fun _ => Dict.empty) events) :
    ∀ pre, pre <+: events → Lossless z symbol
      ((IngestWorld.new symbols fun _ => Dict.empty).run z (csvSink z) cfg pre) := by
  rintro pre ⟨post, rfl⟩
  refine (NoLoss.run hopen symbols fun before c after heq => ?_).lossless
  exact hlate before c (after ++ post) (by rw [heq, List.append_assoc, List.cons_append])

/-! ### A late tick -/

/-- A service of one market that is always open. -/
def alwaysOpen : IngestConfig where
  pollIntervalS := 2
  heartbeatIntervalS := 60
  staleSeconds := 180
  backoffBaseS := 5
  backoffMaxS := 60
  marketOpen _ _ := true

/-- A cycle with one result for its polls, some seconds after noon of 15 January 2024. -/
def cycleAt (seconds : ℕ) (hday : seconds < 86400) (fetched : Fetched) : PollCycle where
  nowTs := 1705320000 + seconds
  minyear := by
    have hstart : monthStart 12 ≤ 1000000 * 1705320000 := by decide +kernel
    omega
  maxyear := by
    have hend : 1000000 * (1705320000 + 86400) < monthStart 120000 := by decide +kernel
    omega
  polls _ := ⟨[], fetched⟩
  heartbeats _ := ⟨[], .cancelled⟩
  verdicts _ := .keep
  clock := 1705320000 + seconds

/-- A price four seconds after noon, which is stored a minute later. -/
def timely : List IngestEvent :=
  [.cycle (cycleAt 5 (by decide) (.price 1705320004 100)),
    .cycle (cycleAt 62 (by decide) (.failed 1705320062))]

theorem lossless_timely :
    Lossless Zones.fallBack "XAU"
      ((IngestWorld.new ["XAU"] fun _ => Dict.empty).run Zones.fallBack (csvSink Zones.fallBack)
        alwaysOpen timely) := by
  refine lossless_of_noLateTicks (fun _ => rfl) ["XAU"] (fun pre c post heq => ?_) timely
    (List.prefix_refl timely)
  intro i timestamp price hfetched
  match pre with
  | [] =>
      obtain ⟨hc, -⟩ := List.cons.inj heq
      obtain rfl := IngestEvent.cycle.inj hc
      exact Or.inr rfl
  | [e] =>
      obtain ⟨-, htail⟩ := List.cons.inj heq
      obtain ⟨hc, -⟩ := List.cons.inj htail
      obtain rfl := IngestEvent.cycle.inj hc
      cases hfetched
  | e :: e' :: pre =>
      obtain ⟨-, htail⟩ := List.cons.inj heq
      obtain ⟨-, htail⟩ := List.cons.inj htail
      exact absurd htail.symm (by simp)

/-- After them a price fifty seconds after noon, which is accepted. -/
def tooLate : List IngestEvent :=
  timely ++ [.cycle (cycleAt 64 (by decide) (.price 1705320050 110))]

/-- The price that comes after the candle of its minute is accepted, is in no bucket, and is not in
the candle. -/
theorem late_tick_lost :
    let w := (IngestWorld.new ["XAU"] fun _ => Dict.empty).run Zones.fallBack
      (csvSink Zones.fallBack) alwaysOpen tooLate
    acceptedIn w "XAU" 1705320000 = [⟨1705320004, 100⟩, ⟨1705320050, 110⟩] ∧
    (w.service.ticks "XAU").ticksOf 1705320000 = [] ∧
    (storedAt Zones.fallBack w "XAU" 1705320000).map Ohlcv.bar = some ⟨100, 100, 100, 100⟩ ∧
    ¬ Lossless Zones.fallBack "XAU" w := by
  intro w
  have haccepted : acceptedIn w "XAU" 1705320000 = [⟨1705320004, 100⟩, ⟨1705320050, 110⟩] := by
    decide +kernel
  have hbucket : (w.service.ticks "XAU").ticksOf 1705320000 = [] := by decide +kernel
  have hstored : (storedAt Zones.fallBack w "XAU" 1705320000).map Ohlcv.bar =
      some ⟨100, 100, 100, 100⟩ := by decide +kernel
  refine ⟨haccepted, hbucket, hstored, fun h => ?_⟩
  obtain ⟨written, hwritten, hcandle⟩ := h 1705320000
  rw [haccepted, hbucket, List.append_nil] at hwritten
  obtain ⟨v, hv, hbar⟩ := Option.map_eq_some_iff.1 hstored
  rw [hv, ← hwritten] at hcandle
  dsimp only at hcandle
  rw [hbar] at hcandle
  exact absurd (hcandle.le_high 110 (by simp)) (by decide)
