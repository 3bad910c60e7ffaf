/-
**What the ingest loop writes is over, and was open.**

A candle that the loop hands to the store is that of a full minute that was over when the cycle
began and in which the market was open.  It has the prices of ticks of that minute, each of which
was neither too old nor before another one when it was accepted.

Main definitions:

* `AcceptedWell` — how a tick was accepted;
* `ClosedMinute` — a candle of a minute that is over and was open;
* `IngestInv` — the invariant on the buckets, the accepted ticks and the candles.

Main results:

* `IngestInv.onPrice`, `ensures_flush_inv` — what polls and writes keep;
* `IngestInv.step` — what a cycle keeps;
* `handed_closed` — every candle of every run.
-/

import Brokerage.OstiumIngest

set_option relaxedAutoImplicit false
set_option autoImplicit false

variable {S : Type} {z : Zones} {sink : CandleSink S} {cfg : IngestConfig}

/-- The tick was accepted, was not too old then, and no accepted one before it was later. -/
def AcceptedWell (cfg : IngestConfig) (accepted : List Accepted) (symbol : String)
    (t : IngestTick) : Prop :=
  ∃ pre a post, accepted = pre ++ a :: post ∧ a.symbol = symbol ∧ a.tick = t ∧
    a.nowTs - t.ts ≤ cfg.staleSeconds ∧ ∀ b ∈ pre, b.symbol = symbol → b.tick.ts ≤ t.ts

/-- The candle is that of a full minute that was over and in which the market was open, made of
ticks of the minute. -/
structure ClosedMinute (cfg : IngestConfig) (accepted : List Accepted) (h : Handed) (ts : ℤ) :
    Prop where
  zone : h.candle.timestamp.zone = .utc
  timestamp : h.candle.timestamp.wall = 1000000 * ts
  aligned : 60 ∣ ts
  marketOpen : cfg.marketOpen h.symbol ts = true
  ended : ts + 60 ≤ h.nowTs
  bar : h.candle.ohlcv.bar.IsBarOf (h.ticks.map IngestTick.price)
  ohlc : h.candle.ohlcv.low ≤ h.candle.ohlcv.open_ ∧ h.candle.ohlcv.open_ ≤ h.candle.ohlcv.high ∧
    h.candle.ohlcv.low ≤ h.candle.ohlcv.close ∧ h.candle.ohlcv.close ≤ h.candle.ohlcv.high
  ticks : ∀ t ∈ h.ticks, ts ≤ t.ts ∧ t.ts < ts + 60 ∧ AcceptedWell cfg accepted h.symbol t

/-- What holds of the service between its calls. -/
structure IngestInv (cfg : IngestConfig) (w : IngestWorld S) : Prop where
  bucket : ∀ symbol m, (w.service.ticks symbol).ticksOf m ≠ [] →
    60 ∣ m ∧ cfg.marketOpen symbol m = true
  tick : ∀ symbol m, ∀ t ∈ (w.service.ticks symbol).ticksOf m,
    m ≤ t.ts ∧ t.ts < m + 60 ∧ AcceptedWell cfg w.accepted symbol t
  last : ∀ a ∈ w.accepted, ∃ last, w.service.lastIngestedTickTs a.symbol = some last ∧
    a.tick.ts ≤ last
  sorted : w.accepted.Pairwise fun a b => a.symbol = b.symbol → a.tick.ts ≤ b.tick.ts
  handed : ∀ h ∈ w.handed, ∃ ts, ClosedMinute cfg w.accepted h ts

theorem AcceptedWell.append {accepted : List Accepted} {symbol : String} {t : IngestTick}
    (h : AcceptedWell cfg accepted symbol t) (more : List Accepted) :
    AcceptedWell cfg (accepted ++ more) symbol t := by
  obtain ⟨pre, a, post, rfl, hsymbol, htick, hage, hpre⟩ := h
  exact ⟨pre, a, post ++ more, by rw [List.append_assoc, List.cons_append], hsymbol, htick, hage,
    hpre⟩

theorem ClosedMinute.append {accepted : List Accepted} {h : Handed} {ts : ℤ}
    (hc : ClosedMinute cfg accepted h ts) (more : List Accepted) :
    ClosedMinute cfg (accepted ++ more) h ts :=
  { hc with
    ticks := fun t ht =>
      ⟨(hc.ticks t ht).1, (hc.ticks t ht).2.1, (hc.ticks t ht).2.2.append more⟩ }

namespace IngestInv

variable {w : IngestWorld S}

theorem new (symbols : List String) (store : S) :
    IngestInv cfg (IngestWorld.new symbols store) where
  bucket _ _ h := absurd rfl h
  tick _ _ _ ht := by cases ht
  last _ ha := by cases ha
  sorted := List.Pairwise.nil
  handed _ hh := by cases hh

theorem sameTicks (h : IngestInv cfg w) {s : OstiumCandleIngestService}
    (hs : w.service.SameTicks s) : IngestInv cfg { w with service := s } where
  bucket symbol m := by
    dsimp only
    rw [hs.ticks]
    exact h.bucket symbol m
  tick symbol m := by
    dsimp only
    rw [hs.ticks]
    exact h.tick symbol m
  last a ha := by
    dsimp only
    rw [hs.last]
    exact h.last a ha
  sorted := h.sorted
  handed := h.handed

/-- A tick that is accepted is not before one that was accepted. -/
theorem le_of_valid (h : IngestInv cfg w) {symbol : String} {tick : IngestTick} {nowTs : ℤ}
    (hvalid : w.service.invalidTick cfg symbol tick.ts nowTs = false) {b : Accepted}
    (hb : b ∈ w.accepted) (hsymbol : b.symbol = symbol) : b.tick.ts ≤ tick.ts := by
  rw [OstiumCandleIngestService.invalidTick, decide_eq_false_iff_not, not_or, not_or] at hvalid
  obtain ⟨last, hlast, hle⟩ := h.last b hb
  rw [hsymbol] at hlast
  refine hle.trans (not_lt.1 fun hlt => hvalid.2.2 ?_)
  rw [hlast]
  exact decide_eq_true hlt

/-- A tick that is accepted is accepted well. -/
theorem acceptedWell (h : IngestInv cfg w) {symbol : String} {tick : IngestTick} {nowTs : ℤ}
    (hvalid : w.service.invalidTick cfg symbol tick.ts nowTs = false) :
    AcceptedWell cfg (w.accepted ++ [⟨symbol, tick, nowTs⟩]) symbol tick := by
  have hle : ∀ b ∈ w.accepted, b.symbol = symbol → b.tick.ts ≤ tick.ts :=
    fun b hb => h.le_of_valid hvalid hb
  rw [OstiumCandleIngestService.invalidTick, decide_eq_false_iff_not, not_or] at hvalid
  exact ⟨w.accepted, ⟨symbol, tick, nowTs⟩, [], rfl, rfl, rfl, not_lt.1 hvalid.1, hle⟩

/-- What a price keeps. -/
theorem onPrice (h : IngestInv cfg w) (symbol : String) (nowTs : ℤ) (tick : IngestTick) :
    IngestInv cfg (w.onPrice cfg symbol nowTs tick) := by
  rcases onPrice_cases w symbol nowTs tick with ⟨s, hs, heq⟩ | ⟨hvalid, s, hbuckets, hlast, heq⟩
  · rw [heq]
    exact h.sameTicks hs
  · rw [heq]
    -- the tick is not before any that was accepted
    have hwell := h.acceptedWell hvalid
    obtain ⟨hdvd, hle, hlt⟩ := minuteStart_spec tick.ts
    refine ⟨fun symbol' m hne => ?_, fun symbol' m t ht => ?_, fun a ha => ?_,
      List.pairwise_append.2 ⟨h.sorted, List.pairwise_singleton _ _, fun b hb a ha hsymbol => ?_⟩,
      fun hd hhd => ?_⟩
    · dsimp only at hne
      rw [hbuckets] at hne
      split at hne
      · rename_i hand
        obtain ⟨rfl, rfl, hopen⟩ := hand
        exact ⟨hdvd, hopen⟩
      · exact h.bucket symbol' m hne
    · dsimp only at ht ⊢
      rw [hbuckets] at ht
      have hold : ∀ t ∈ (w.service.ticks symbol').ticksOf m, m ≤ t.ts ∧ t.ts < m + 60 ∧
          AcceptedWell cfg (w.accepted ++ [⟨symbol, tick, nowTs⟩]) symbol' t := fun t ht =>
        ⟨(h.tick symbol' m t ht).1, (h.tick symbol' m t ht).2.1,
          (h.tick symbol' m t ht).2.2.append _⟩
      split at ht
      · rename_i hand
        obtain ⟨rfl, rfl, -⟩ := hand
        rcases List.mem_append.1 ht with ht | ht
        · exact hold t ht
        · obtain rfl := List.mem_singleton.1 ht
          exact ⟨hle, hlt, hwell⟩
      · exact hold t ht
    · dsimp only at ha ⊢
      rw [hlast]
      by_cases hsymbol : a.symbol = symbol
      · rw [hsymbol, Function.update_self]
        refine ⟨tick.ts, rfl, ?_⟩
        rcases List.mem_append.1 ha with ha | ha
        · exact h.le_of_valid hvalid ha hsymbol
        · rw [List.mem_singleton.1 ha]
      · rw [Function.update_of_ne hsymbol]
        rcases List.mem_append.1 ha with ha | ha
        · exact h.last a ha
        · exact absurd (by rw [List.mem_singleton.1 ha]) hsymbol
    · obtain rfl := List.mem_singleton.1 ha
      exact h.le_of_valid hvalid hb hsymbol
    · obtain ⟨ts, hclosed⟩ := h.handed hd hhd
      exact ⟨ts, hclosed.append _⟩

/-- What handing over a candle keeps. -/
theorem handOver (h : IngestInv cfg w) {symbol : String} {nowTs ts : ℤ} {candle : Candle}
    (hclosed : ClosedMinute cfg w.accepted
      ⟨symbol, candle, (w.service.ticks symbol).ticksOf ts, nowTs⟩ ts) :
    IngestInv cfg (w.handOver sink symbol nowTs ts candle).2 where
  bucket := h.bucket
  tick := h.tick
  last := h.last
  sorted := h.sorted
  handed hd hhd := by
    rcases List.mem_append.1 hhd with hhd | hhd
    · exact h.handed hd hhd
    · rw [List.mem_singleton.1 hhd]
      exact ⟨ts, hclosed⟩

/-- What removing buckets keeps. -/
theorem removeUpTo (h : IngestInv cfg w) (symbol : String) (lastFlushed : ℤ) :
    IngestInv cfg { w with service := { w.service with
      ticks := Function.update w.service.ticks symbol
        ((w.service.ticks symbol).removeUpTo lastFlushed) } } := by
  -- a bucket is as before or empty
  have hbuckets : ∀ symbol' m,
      (Function.update w.service.ticks symbol
        ((w.service.ticks symbol).removeUpTo lastFlushed) symbol').ticksOf m =
          (w.service.ticks symbol').ticksOf m ∨
      (Function.update w.service.ticks symbol
        ((w.service.ticks symbol).removeUpTo lastFlushed) symbol').ticksOf m = [] := by
    intro symbol' m
    by_cases hsymbol : symbol' = symbol
    · subst hsymbol
      rw [Function.update_self, Buckets.ticksOf_removeUpTo]
      split
      · exact Or.inr rfl
      · exact Or.inl rfl
    · rw [Function.update_of_ne hsymbol]
      exact Or.inl rfl
  refine ⟨fun symbol' m hne => ?_, fun symbol' m t ht => ?_, h.last, h.sorted, h.handed⟩
  · rcases hbuckets symbol' m with hsame | hnil
    · dsimp only at hne
      rw [hsame] at hne
      exact h.bucket symbol' m hne
    · exact absurd hnil hne
  · dsimp only at ht
    rcases hbuckets symbol' m with hsame | hnil
    · rw [hsame] at ht
      exact h.tick symbol' m t ht
    · rw [hnil] at ht
      cases ht

end IngestInv

/-! ### Writing what is over -/

/-- The candle of a bucket that is over is that of a minute that is over. -/
theorem IngestInv.closedMinute {w : IngestWorld S} (h : IngestInv cfg w) {symbol : String}
    {nowTs ts : ℤ} {bar : PriceBar}
    (hbar : bar.IsBarOf (((w.service.ticks symbol).ticksOf ts).map IngestTick.price))
    (hover : ts < minuteStart nowTs) {candle : Candle} {end_ : AwareDatetime}
    (hcandle : candleOfMinute ts bar = some (candle, end_)) :
    ClosedMinute cfg w.accepted
      ⟨symbol, candle, (w.service.ticks symbol).ticksOf ts, nowTs⟩ ts := by
  obtain ⟨hzone, hwall, hcandleBar, -, -⟩ := candleOfMinute_eq_some hcandle
  have hne : (w.service.ticks symbol).ticksOf ts ≠ [] := fun hnil =>
    hbar.ne_nil (by rw [hnil]; rfl)
  obtain ⟨hdvd, hopen⟩ := h.bucket symbol ts hne
  refine ⟨hzone, hwall, hdvd, hopen, ?_, ?_, ?_, h.tick symbol ts⟩
  · rw [minuteStart] at hover
    dsimp only
    omega
  · dsimp only
    rw [hcandleBar]
    exact hbar
  · exact ⟨candle.ohlcv.low_le_open, candle.ohlcv.open_le_high, candle.ohlcv.low_le_close,
      candle.ohlcv.close_le_high⟩

/-- What writing all that is over keeps. -/
theorem ensures_flush_inv (nowTs : ℤ) (symbol : String) :
    Ensures (IngestInv (S := S) cfg) (flushClosedMinutes z sink cfg nowTs symbol)
      (fun _ => IngestInv cfg) (IngestInv cfg) := by
  refine Ensures.get_bind fun w hw => ?_
  refine Ensures.bind (Q := fun _ => IngestInv cfg) ?_ fun written => ?_
  · -- the buckets stay as they were read while their candles are written
    have hwrite : Ensures
        (fun w' : IngestWorld S =>
          IngestInv cfg w' ∧ w'.service.ticks symbol = w.service.ticks symbol)
        (writeCandles z sink cfg symbol nowTs
          (aggregateTicksToCandles (w.service.ticks symbol) (minuteStart nowTs)))
        (fun _ w' => IngestInv cfg w' ∧ w'.service.ticks symbol = w.service.ticks symbol)
        (IngestInv cfg) := by
      refine ensures_writeCandles (fun w' s hs hw' => ?_) (fun _ hw' => hw'.1)
        fun p hp candle end_ hcandle w' hw' => ?_
      · exact ⟨hw'.1.sameTicks hs, by rw [← hw'.2, ← hs.ticks]⟩
      · obtain ⟨hover, hbar⟩ := mem_aggregateTicksToCandles.1 hp
        rw [← hw'.2] at hbar
        exact ⟨hw'.1.handOver (hw'.1.closedMinute hbar hover hcandle), hw'.2⟩
    refine hwrite.consequence (fun w' hw' => ?_) fun _ _ hw' => hw'.1
    obtain rfl : w' = w := hw'
    exact ⟨hw, rfl⟩
  · -- if all were written the buckets are removed
    refine Ensures.ite (fun _ => ?_) fun _ => Ensures.pure fun w hw => hw
    rw [removeFlushed]
    split
    · exact Ensures.pure fun w hw => hw
    · rename_i lastFlushed _
      exact Ensures.modify fun w hw => hw.removeUpTo symbol lastFlushed

/-! ### Runs -/

/-- What a cycle, or a change of the symbols, keeps. -/
theorem IngestInv.step {w : IngestWorld S} (h : IngestInv cfg w) (e : IngestEvent) :
    IngestInv cfg (w.step z sink cfg e) := by
  cases e with
  | updateSymbols symbols => exact h.sameTicks (OstiumCandleIngestService.sameTicks_updateSymbols _)
  | cycle c =>
      have hsame : ∀ (w : IngestWorld S) s, w.service.SameTicks s → IngestInv cfg w →
          IngestInv cfg { w with service := s } := fun w s hs hw => hw.sameTicks hs
      have hcycle : Ensures (IngestInv cfg) (pollLoopBody z sink cfg c) (fun _ => IngestInv cfg)
          (IngestInv cfg) :=
        ensures_pollLoopBody hsame hsame (fun w hw => hw)
          (fun symbol _ => ensures_flush_inv c.nowTs symbol)
          (fun i timestamp price _ symbol w hw => hw.onPrice symbol c.nowTs ⟨timestamp, price⟩)
          fun symbol => ensures_flush_inv c.nowTs symbol
      exact hcycle.after h

theorem IngestInv.run {w : IngestWorld S} (h : IngestInv cfg w) (events : List IngestEvent) :
    IngestInv cfg (w.run z sink cfg events) := by
  induction events generalizing w with
  | nil => exact h
  | cons e events ih => exact ih (h.step e)

/-- Every candle that a run hands to the store is that of a full minute that was over when its
cycle began and in which the market was open, made of ticks of the minute that were accepted
well. -/
theorem handed_closed (z : Zones) (sink : CandleSink S) (cfg : IngestConfig)
    (symbols : List String) (store : S) (events : List IngestEvent) :
    let w := (IngestWorld.new symbols store).run z sink cfg events
    ∀ h ∈ w.handed, ∃ ts, ClosedMinute cfg w.accepted h ts :=
  ((IngestInv.new symbols store).run events).handed
