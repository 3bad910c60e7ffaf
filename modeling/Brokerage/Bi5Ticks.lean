/-
**Candles of one minute, reconstructed from ticks.**

The feed has a file of ticks for each hour.  A range of minutes is fetched by whole days: the ticks
of each day are put into the minutes they belong to, and of each minute with ticks the first, the
largest, the smallest and the last bid are taken.  Of the candles of all days those in the range are
kept, but for the minutes of the hour that the clocks of New York show a second time.

Main definitions:

* `Bi5Ticks.decodeTicks`, `Bi5Ticks.ticksToM1` — the ticks of an hour, and their candles;
* `Bi5Ticks.fetchOhlcv` — the candles of a range;
* `Bi5Ticks.IsReconstruction` — what the candles of a range are to be.

Main results:

* `Bi5Ticks.get?_fetchDays` — what the days have for a minute;
* `Bi5Ticks.isReconstruction_candlesIn` — the candles are right;
* `Bi5Ticks.fetchOhlcv_append` — ranges may be split at any minute.
-/

import Brokerage.CursorPages
import Brokerage.CsvStore
import Brokerage.Dict
import Brokerage.MarketHours
import Brokerage.PriceBars
import Brokerage.Text

set_option relaxedAutoImplicit false
set_option autoImplicit false

namespace Bi5Ticks

/-! ### The ticks of an hour -/

/-- An unsigned integer, the most significant byte first. -/
def bigEndian (bytes : List UInt8) : ℕ := bytes.foldl (fun n b => 256 * n + b.toNat) 0

/-- `struct.unpack_from(">III", chunk, 0)`. -/
def unpack (chunk : List UInt8) : ℕ × ℕ × ℕ :=
  (bigEndian (chunk.take 4), bigEndian ((chunk.drop 4).take 4), bigEndian ((chunk.drop 8).take 4))

/-- The bytes of a tick. -/
def TICK_SIZE : ℕ := 20

/-- The ticks of a file, as milliseconds of its hour and raw bids. -/
def ticksOf (raw : List UInt8) : List (ℕ × ℕ) :=
  (List.range (raw.length / TICK_SIZE)).map fun i =>
    let (tsMsRel, _, bidRaw) := unpack ((raw.drop (i * TICK_SIZE)).take TICK_SIZE)
    (tsMsRel, bidRaw)

/-- The start of the minute of a tick, in seconds. -/
def minuteOf (hourEpochMs : ℤ) (tsMsRel : ℕ) : ℤ := (hourEpochMs + tsMsRel) / 1000 / 60 * 60

/-- The ticks of a file, as minutes and bids. -/
def decodeTicks (raw : List UInt8) (hourEpochMs : ℤ) (scale : ℚ) : List (ℤ × ℚ) :=
  (ticksOf raw).map fun tick => (minuteOf hourEpochMs tick.1, tick.2 / scale)

/-- The scale of the prices of a symbol. -/
def priceScale (symbol : String) : ℚ :=
  let s := (Text.upper symbol).toList
  if "JPY".toList.isSuffixOf s ∨ "JPY".toList.isPrefixOf s then 1000 else 100000

/-! ### Candles -/

/-- The bar of a minute: the first, the largest, the smallest and the last price, the second and the
third once more compared with the others. -/
def barOf : List ℚ → PriceBar
  | [] => ⟨0, 0, 0, 0⟩
  | o :: ps =>
      let c := (o :: ps).getLast (List.cons_ne_nil o ps)
      ⟨o, max (max o (ps.foldl max o)) c, min (min o (ps.foldl min o)) c, c⟩

/-- The candles of ticks: the ticks are put into buckets, and the buckets into bars. -/
def ticksToM1 (ticks : List (ℤ × ℚ)) : Dict ℤ PriceBar :=
  let buckets := Dict.group Prod.fst Prod.snd ticks
  Dict.empty.setAll (buckets.entries.map fun bucket => (bucket.1, barOf bucket.2))

/-- What the feed and its cache have: the file of each hour, the hours being numbered from 1970. -/
abbrev Feed := ℤ → Option (List UInt8)

section

variable (decompress : List UInt8 → Option (List UInt8)) (feed : Feed) (scale : ℚ)

/-- The ticks of an hour; a file that cannot be decompressed has none. -/
def fetchHour (hour : ℤ) : List (ℤ × ℚ) :=
  match feed hour with
  | none => []
  | some rawLzma =>
      match decompress rawLzma with
      | none => []
      | some raw => decodeTicks raw (3600000 * hour) scale

/-- The candles of a day. -/
def fetchDay (day : ℤ) : Dict ℤ PriceBar :=
  ticksToM1 ((List.range 24).flatMap fun hour : ℕ =>
    fetchHour decompress feed scale (24 * day + hour))

/-- The candles of some days, written over those of the days before. -/
def fetchDays : ℕ → ℤ → Dict ℤ PriceBar → Dict ℤ PriceBar
  | 0, _, all => all
  | n + 1, current, all =>
      fetchDays n (current + 1) (all.setAll (fetchDay decompress feed scale current).entries)

end

/-- `int(timestamp) // 60 * 60`, of an instant in microseconds. -/
def epochMinute (instant : ℤ) : ℤ := instant.tdiv 1000000 / 60 * 60

/-- New York's clocks show the minute a second time; nothing if they show no date of the calendar. -/
def isDstFold (tz : ZoneInfo) (ts : ℤ) : Option Bool :=
  ((utcFromTimestamp (1000000 * ts)).bind tz.astimezone).map (·.fold)

/-- The day after the last one: that of the end, or the next one if the end is after midnight. -/
def endDate (endTs : ℤ) : Option ℤ :=
  let day := endTs / 86400
  if 86400 * day < endTs then
    if day + 1 < daysBefore 120000 then some (day + 1) else none
  else some day

/-- The candles of the keys that are kept. -/
def toCandles (tz : ZoneInfo) (all : Dict ℤ PriceBar) (startTs endTs : ℤ) :
    List ℤ → Option (List Candle)
  | [] => some []
  | ts :: rest =>
      if ts < startTs ∨ endTs ≤ ts then toCandles tz all startTs endTs rest
      else do
        let fold ← isDstFold tz ts
        if fold then toCandles tz all startTs endTs rest
        else do
          let bar ← all.get? ts
          let timestamp ← utcFromTimestamp (1000000 * ts)
          let ohlcv ← Ohlcv.new? bar 0
          let candles ← toCandles tz all startTs endTs rest
          pure (⟨timestamp, ohlcv, true⟩ :: candles)

/-- The candles of a range; nothing if it raises. -/
def fetchOhlcv (tz : ZoneInfo) (decompress : List UInt8 → Option (List UInt8)) (feed : Feed)
    (symbol : String) (start end_ : ℤ) : Option (List Candle) := do
  let startTs := epochMinute start
  let endTs := epochMinute end_
  let _ ← utcFromTimestamp (1000000 * startTs)
  let _ ← utcFromTimestamp (1000000 * endTs)
  let current := startTs / 86400
  let last ← endDate endTs
  let all := fetchDays decompress feed (priceScale symbol) (last - current).toNat current Dict.empty
  toCandles tz all startTs endTs all.sortedKeys

/-! ### What the candles are to be -/

section

variable (tz : ZoneInfo) (decompress : List UInt8 → Option (List UInt8)) (feed : Feed) (scale : ℚ)

/-- Each tick lies in the hour of its file. -/
def InHours : Prop :=
  ∀ hour rawLzma raw, feed hour = some rawLzma → decompress rawLzma = some raw →
    ∀ tick ∈ ticksOf raw, tick.1 < 3600000

/-- The bids of a minute, in the order of the file. -/
def pricesAt (ts : ℤ) : List ℚ :=
  ((fetchHour decompress feed scale (ts / 3600)).filter fun tick => tick.1 = ts).map Prod.snd

/-- The candle of a minute. -/
structure IsCandleAt (ts : ℤ) (c : Candle) : Prop where
  timestamp : utcFromTimestamp (1000000 * ts) = some c.timestamp
  bar : c.ohlcv.bar.IsBarOf (pricesAt decompress feed scale ts)
  volume : c.ohlcv.volume = 0
  isClosed : c.isClosed = true

/-- The minutes that have a candle: those of the range with ticks, if the clocks of New York do not
show them a second time. -/
structure IsKept (startTs endTs ts : ℤ) : Prop where
  start_le : startTs ≤ ts
  lt_end : ts < endTs
  ticks : pricesAt decompress feed scale ts ≠ []
  fold : isDstFold tz ts = some false

/-- The candles of a range: one for each minute that has one, and no other, in order. -/
structure IsReconstruction (startTs endTs : ℤ) (candles : List Candle) : Prop where
  ascending : CursorPages.Sorted (fun c : Candle => c.timestamp.wall) candles
  sound : ∀ c ∈ candles, ∃ ts, IsKept tz decompress feed scale startTs endTs ts ∧
    IsCandleAt decompress feed scale ts c
  complete : ∀ ts, IsKept tz decompress feed scale startTs endTs ts →
    ∃ c ∈ candles, IsCandleAt decompress feed scale ts c

end

/-! ### The candles of the days -/

/-- The bar is that of the prices. -/
theorem isBarOf_barOf {prices : List ℚ} (h : prices ≠ []) : (barOf prices).IsBarOf prices := by
  cases prices with
  | nil => exact absurd rfl h
  | cons o ps =>
      have hbar := PriceBar.isBarOf_of?_cons o ps
      have hhigh : max (max o (ps.foldl max o)) ((o :: ps).getLast (List.cons_ne_nil o ps)) =
          ps.foldl max o := by
        rw [max_eq_right (hbar.le_high _ hbar.open_mem)]
        exact max_eq_left (hbar.le_high _ hbar.close_mem)
      have hlow : min (min o (ps.foldl min o)) ((o :: ps).getLast (List.cons_ne_nil o ps)) =
          ps.foldl min o := by
        rw [min_eq_right (hbar.low_le _ hbar.open_mem)]
        exact min_eq_left (hbar.low_le _ hbar.close_mem)
      rw [barOf, hhigh, hlow]
      exact hbar

/-- Under each minute is the bar of its prices, if there are any. -/
theorem get?_ticksToM1 (ticks : List (ℤ × ℚ)) (ts : ℤ) :
    (ticksToM1 ticks).get? ts =
      if ticks.filter (fun tick => tick.1 = ts) = [] then none
      else some (barOf ((ticks.filter fun tick => tick.1 = ts).map Prod.snd)) := by
  have hbars := Dict.get?_setAll_map Function.injective_id barOf
    (Dict.group Prod.fst Prod.snd ticks) ts
  rw [Dict.get?_group] at hbars
  refine Eq.trans hbars ?_
  split <;> rfl

section

variable {tz : ZoneInfo} {decompress : List UInt8 → Option (List UInt8)} {feed : Feed} {scale : ℚ}

/-- A tick is put into a minute of its hour. -/
theorem hour_of_mem_fetchHour (hticks : InHours decompress feed) {hour : ℤ} {tick : ℤ × ℚ}
    (h : tick ∈ fetchHour decompress feed scale hour) : tick.1 / 3600 = hour := by
  rw [fetchHour] at h
  cases hfeed : feed hour with
  | none =>
      simp only [hfeed] at h
      cases h
  | some rawLzma =>
      cases hraw : decompress rawLzma with
      | none =>
          simp only [hfeed, hraw] at h
          cases h
      | some raw =>
          simp only [hfeed, hraw, decodeTicks] at h
          obtain ⟨t, ht, rfl⟩ := List.mem_map.1 h
          have hlt := hticks hour rawLzma raw hfeed hraw t ht
          simp only [minuteOf]
          omega

theorem filter_fetchHour (hticks : InHours decompress feed) {hour ts : ℤ} (h : ts / 3600 ≠ hour) :
    (fetchHour decompress feed scale hour).filter (fun tick => tick.1 = ts) = [] := by
  refine List.filter_eq_nil_iff.2 fun tick htick heq => h ?_
  rw [← of_decide_eq_true heq]
  exact hour_of_mem_fetchHour hticks htick

/-- Only one element of a list has something to add. -/
theorem flatMap_of_unique {α β : Type} {l : List α} (hl : l.Nodup) {a : α} (ha : a ∈ l)
    {g : α → List β} (h : ∀ b ∈ l, b ≠ a → g b = []) : l.flatMap g = g a := by
  obtain ⟨before, after, rfl⟩ := List.append_of_mem ha
  have hdisj := List.nodup_append.1 hl
  have hbefore : before.flatMap g = [] := List.flatMap_eq_nil_iff.2 fun b hb =>
    h b (List.mem_append_left _ hb) fun heq => hdisj.2.2 b hb a List.mem_cons_self heq
  have hafter : after.flatMap g = [] := List.flatMap_eq_nil_iff.2 fun b hb =>
    h b (List.mem_append_right _ (List.mem_cons_of_mem _ hb)) fun heq =>
      (List.nodup_cons.1 hdisj.2.1).1 (heq ▸ hb)
  rw [List.flatMap_append, List.flatMap_cons, hbefore, hafter, List.nil_append, List.append_nil]

/-- All ticks of a minute are in one hour of one day. -/
theorem filter_dayTicks (hticks : InHours decompress feed) (day ts : ℤ) :
    (((List.range 24).flatMap fun hour : ℕ =>
        fetchHour decompress feed scale (24 * day + hour)).filter fun tick => tick.1 = ts) =
      if ts / 86400 = day then
        (fetchHour decompress feed scale (ts / 3600)).filter fun tick => tick.1 = ts
      else [] := by
  rw [List.filter_flatMap]
  split
  · rename_i hday
    obtain ⟨n, hn⟩ := Int.eq_ofNat_of_zero_le (show 0 ≤ ts / 3600 - 24 * day by omega)
    rw [flatMap_of_unique List.nodup_range (List.mem_range.2 (show n < 24 by omega))
      fun hour hhour hne => filter_fetchHour hticks (by omega)]
    rw [show 24 * day + (n : ℤ) = ts / 3600 by omega]
  · rename_i hday
    refine List.flatMap_eq_nil_iff.2 fun hour hhour => filter_fetchHour hticks ?_
    have := List.mem_range.1 hhour
    omega

/-- What a day has for a minute. -/
theorem get?_fetchDay (hticks : InHours decompress feed) (day ts : ℤ) :
    (fetchDay decompress feed scale day).get? ts =
      if ts / 86400 = day ∧ pricesAt decompress feed scale ts ≠ [] then
        some (barOf (pricesAt decompress feed scale ts))
      else none := by
  rw [fetchDay, get?_ticksToM1, filter_dayTicks hticks, pricesAt]
  by_cases hday : ts / 86400 = day
  · simp only [hday, if_true, true_and, ne_eq, List.map_eq_nil_iff, ite_not]
  · simp only [hday, false_and, if_false, if_true]

/-- What some days have for a minute. -/
theorem get?_fetchDays (hticks : InHours decompress feed) (n : ℕ) (current : ℤ)
    (all : Dict ℤ PriceBar) (ts : ℤ) :
    (fetchDays decompress feed scale n current all).get? ts =
      if (current ≤ ts / 86400 ∧ ts / 86400 < current + n) ∧
          pricesAt decompress feed scale ts ≠ [] then
        some (barOf (pricesAt decompress feed scale ts))
      else all.get? ts := by
  induction n generalizing current all with
  | zero =>
      rw [fetchDays, if_neg]
      omega
  | succ n ih =>
      rw [fetchDays, ih, Dict.get?_setAll_entries, get?_fetchDay hticks]
      by_cases hprices : pricesAt decompress feed scale ts = []
      · simp only [hprices, ne_eq, not_true_eq_false, and_false, if_false, Option.none_or]
      · by_cases hday : ts / 86400 = current
        · rw [if_neg (by omega), if_pos ⟨hday, hprices⟩, if_pos ⟨by omega, hprices⟩]
          rfl
        · rw [if_neg (fun h : ts / 86400 = current ∧ _ => hday h.1), Option.none_or]
          refine if_congr (and_congr_left' ?_) rfl rfl
          omega

/-! ### The candles of a range -/

theorem IsCandleAt.unique {ts : ℤ} {c c' : Candle} (h : IsCandleAt decompress feed scale ts c)
    (h' : IsCandleAt decompress feed scale ts c') : c = c' := by
  obtain ⟨timestamp, ohlcv, isClosed⟩ := c
  obtain ⟨timestamp', ohlcv', isClosed'⟩ := c'
  obtain rfl : timestamp = timestamp' := Option.some.inj (h.timestamp.symm.trans h'.timestamp)
  obtain rfl : isClosed = isClosed' := h.isClosed.trans h'.isClosed.symm
  have hbar := h.bar.unique h'.bar
  have hvolume : ohlcv.volume = ohlcv'.volume := h.volume.trans h'.volume.symm
  obtain rfl : ohlcv = ohlcv' := by
    cases ohlcv
    cases ohlcv'
    simp only [Ohlcv.bar, PriceBar.mk.injEq] at hbar
    simp only [Ohlcv.mk.injEq]
    exact ⟨hbar.1, hbar.2.1, hbar.2.2.1, hbar.2.2.2, hvolume⟩
  rfl

theorem IsCandleAt.wall {ts : ℤ} {c : Candle} (h : IsCandleAt decompress feed scale ts c) :
    c.timestamp.wall = 1000000 * ts :=
  (utcFromTimestamp_eq_some h.timestamp).2.1

theorem IsReconstruction.unique {startTs endTs : ℤ} {cs cs' : List Candle}
    (h : IsReconstruction tz decompress feed scale startTs endTs cs)
    (h' : IsReconstruction tz decompress feed scale startTs endTs cs') : cs = cs' := by
  refine h.ascending.eq_of_mem_iff h'.ascending fun c => ⟨fun hc => ?_, fun hc => ?_⟩
  · obtain ⟨ts, hkept, hat⟩ := h.sound c hc
    obtain ⟨c', hc', hat'⟩ := h'.complete ts hkept
    exact hat.unique hat' ▸ hc'
  · obtain ⟨ts, hkept, hat⟩ := h'.sound c hc
    obtain ⟨c', hc', hat'⟩ := h.complete ts hkept
    exact hat.unique hat' ▸ hc'

/-- The candles of two ranges, one after the other, are those of both. -/
theorem IsReconstruction.append {a b c : ℤ} {cs cs' : List Candle} (hab : a ≤ b) (hbc : b ≤ c)
    (h : IsReconstruction tz decompress feed scale a b cs)
    (h' : IsReconstruction tz decompress feed scale b c cs') :
    IsReconstruction tz decompress feed scale a c (cs ++ cs') := by
  refine ⟨List.pairwise_append.2 ⟨h.ascending, h'.ascending, fun x hx y hy => ?_⟩, fun x hx => ?_,
    fun ts hkept => ?_⟩
  · obtain ⟨ts, hkept, hat⟩ := h.sound x hx
    obtain ⟨ts', hkept', hat'⟩ := h'.sound y hy
    have hlt := hkept.lt_end
    have hle := hkept'.start_le
    change x.timestamp.wall < y.timestamp.wall
    rw [hat.wall, hat'.wall]
    omega
  · rcases List.mem_append.1 hx with hx | hx
    · obtain ⟨ts, hkept, hat⟩ := h.sound x hx
      exact ⟨ts, { hkept with lt_end := hkept.lt_end.trans_le hbc }, hat⟩
    · obtain ⟨ts, hkept, hat⟩ := h'.sound x hx
      exact ⟨ts, { hkept with start_le := hab.trans hkept.start_le }, hat⟩
  · by_cases hts : ts < b
    · obtain ⟨x, hx, hat⟩ := h.complete ts { hkept with lt_end := hts }
      exact ⟨x, List.mem_append_left _ hx, hat⟩
    · obtain ⟨x, hx, hat⟩ := h'.complete ts { hkept with start_le := not_lt.1 hts }
      exact ⟨x, List.mem_append_right _ hx, hat⟩

/-- The candles of some of the minutes. -/
structure Made (tz : ZoneInfo) (decompress : List UInt8 → Option (List UInt8)) (feed : Feed)
    (scale : ℚ) (startTs endTs : ℤ) (keys : List ℤ) (cs : List Candle) : Prop where
  ascending : CursorPages.Sorted (fun c : Candle => c.timestamp.wall) cs
  sound : ∀ c ∈ cs, ∃ ts ∈ keys, IsKept tz decompress feed scale startTs endTs ts ∧
    IsCandleAt decompress feed scale ts c
  complete : ∀ ts ∈ keys, IsKept tz decompress feed scale startTs endTs ts →
    ∃ c ∈ cs, IsCandleAt decompress feed scale ts c

namespace Made

variable {startTs endTs ts : ℤ} {keys : List ℤ} {cs : List Candle}

/-- A minute without a candle adds nothing. -/
theorem skip (h : Made tz decompress feed scale startTs endTs keys cs)
    (hnot : ¬ IsKept tz decompress feed scale startTs endTs ts) :
    Made tz decompress feed scale startTs endTs (ts :: keys) cs := by
  refine ⟨h.ascending, fun c hc => ?_, fun t ht hkept => ?_⟩
  · obtain ⟨t, ht, hc⟩ := h.sound c hc
    exact ⟨t, List.mem_cons_of_mem _ ht, hc⟩
  · rcases List.mem_cons.1 ht with rfl | ht
    · exact absurd hkept hnot
    · exact h.complete t ht hkept

/-- A minute with a candle comes before those after it. -/
theorem cons (h : Made tz decompress feed scale startTs endTs keys cs) (hlt : ∀ t ∈ keys, ts < t)
    (hkept : IsKept tz decompress feed scale startTs endTs ts) {c : Candle}
    (hc : IsCandleAt decompress feed scale ts c) :
    Made tz decompress feed scale startTs endTs (ts :: keys) (c :: cs) := by
  refine ⟨List.pairwise_cons.2 ⟨fun d hd => ?_, h.ascending⟩, fun d hd => ?_, fun t ht hkept' => ?_⟩
  · obtain ⟨t, ht, -, hat⟩ := h.sound d hd
    have := hlt t ht
    change c.timestamp.wall < d.timestamp.wall
    rw [hc.wall, hat.wall]
    omega
  · rcases List.mem_cons.1 hd with rfl | hd
    · exact ⟨ts, List.mem_cons_self, hkept, hc⟩
    · obtain ⟨t, ht, hd⟩ := h.sound d hd
      exact ⟨t, List.mem_cons_of_mem _ ht, hd⟩
  · rcases List.mem_cons.1 ht with rfl | ht
    · exact ⟨c, List.mem_cons_self, hc⟩
    · obtain ⟨d, hd, hat⟩ := h.complete t ht hkept'
      exact ⟨d, List.mem_cons_of_mem _ hd, hat⟩

end Made

/-- What the loop makes of ascending keys, when all minutes of the range can be represented. -/
theorem toCandles_spec {startTs endTs : ℤ}
    (hcalendar : ∀ ts, startTs ≤ ts → ts < endTs → MarketHours.InCalendar tz (1000000 * ts)) {all : Dict ℤ PriceBar}
    (hall : ∀ ts bar, startTs ≤ ts → ts < endTs → all.get? ts = some bar →
      pricesAt decompress feed scale ts ≠ [] ∧ bar = barOf (pricesAt decompress feed scale ts))
    {keys : List ℤ} (hkeys : keys.Pairwise (· < ·)) (hmem : ∀ ts ∈ keys, ts ∈ all.keys) :
    ∃ cs, toCandles tz all startTs endTs keys = some cs ∧
      Made tz decompress feed scale startTs endTs keys cs := by
  induction keys with
  | nil =>
      exact ⟨[], rfl, List.Pairwise.nil, fun _ h => absurd h List.not_mem_nil,
        fun _ h => absurd h List.not_mem_nil⟩
  | cons ts keys ih =>
      rw [List.pairwise_cons] at hkeys
      obtain ⟨cs, hcs, hmade⟩ := ih hkeys.2 fun t ht => hmem t (List.mem_cons_of_mem _ ht)
      by_cases hout : ts < startTs ∨ endTs ≤ ts
      · refine ⟨cs, by rw [toCandles, if_pos hout, hcs], hmade.skip fun hkept => ?_⟩
        exact hout.elim (not_lt.2 hkept.start_le) (not_le.2 hkept.lt_end)
      have hin : startTs ≤ ts ∧ ts < endTs := by omega
      obtain ⟨hrange, hreading⟩ := hcalendar ts hin.1 hin.2
      have htime : utcFromTimestamp (1000000 * ts) =
          some ⟨.utc, 1000000 * ts, false, hrange.1, hrange.2⟩ := dif_pos hrange
      obtain ⟨fold, hfold⟩ : ∃ fold, isDstFold tz ts = some fold := by
        rw [isDstFold, htime, Option.bind_some, MarketHours.astimezone_utc rfl hreading]
        exact ⟨_, rfl⟩
      cases fold with
      | true =>
          refine ⟨cs, ?_, hmade.skip fun hkept => by cases hfold.symm.trans hkept.fold⟩
          rw [toCandles, if_neg hout, hfold, Option.bind_eq_bind, Option.bind_some, if_pos rfl, hcs]
      | false =>
          obtain ⟨bar, hbar⟩ := Option.isSome_iff_exists.1
            (Dict.mem_keys_iff_contains.1 (hmem ts List.mem_cons_self))
          obtain ⟨hprices, rfl⟩ := hall ts bar hin.1 hin.2 hbar
          obtain ⟨v, hv⟩ := Ohlcv.exists_new? (isBarOf_barOf hprices) le_rfl
          have hcandle : IsCandleAt decompress feed scale ts
              ⟨⟨.utc, 1000000 * ts, false, hrange.1, hrange.2⟩, v, true⟩ := by
            refine ⟨htime, ?_, (Ohlcv.new?_eq_some hv).2, rfl⟩
            rw [(Ohlcv.new?_eq_some hv).1]
            exact isBarOf_barOf hprices
          refine ⟨_, ?_, hmade.cons hkeys.1 ⟨hin.1, hin.2, hprices, hfold⟩ hcandle⟩
          rw [toCandles, if_neg hout, hfold, hbar, htime]
          simp only [Option.bind_eq_bind, Option.bind_some, hv, hcs]
          rfl

theorem epochMinute_of_dvd {instant : ℤ} (h : minuteMicros ∣ instant) :
    epochMinute instant = instant / 1000000 := by
  obtain ⟨k, rfl⟩ := h
  have hmul : minuteMicros * k = 1000000 * (60 * k) := by rw [minuteMicros]; ring
  rw [epochMinute, hmul, Int.mul_tdiv_cancel_left _ (by decide), Int.mul_ediv_cancel_left _ (by decide),
    Int.mul_ediv_cancel_left _ (by decide), mul_comm]

/-- The last day ends at or after the end. -/
theorem endDate_spec {endTs : ℤ} (h : endTs ≤ 86400 * (daysBefore 120000 - 1)) :
    ∃ last, endDate endTs = some last ∧ ∀ ts, ts < endTs → ts / 86400 < last := by
  rw [endDate]
  split
  · rw [if_pos (by omega)]
    exact ⟨_, rfl, fun ts hts => by omega⟩
  · exact ⟨_, rfl, fun ts hts => by omega⟩

/-- The candles of a range whose days can be represented. -/
theorem isReconstruction_fetchOhlcv (hticks : InHours decompress feed) (symbol : String)
    {start end_ : ℤ} (hstart : minuteMicros ∣ start) (hend : minuteMicros ∣ end_)
    (hle : start ≤ end_) (hmin : monthStart 12 ≤ start)
    (hmax : end_ ≤ monthStart 120000 - dayMicros)
    (hcalendar : ∀ u, start ≤ u → u < end_ → MarketHours.InCalendar tz u) :
    ∃ cs, fetchOhlcv tz decompress feed symbol start end_ = some cs ∧
      IsReconstruction tz decompress feed (priceScale symbol) (start / 1000000) (end_ / 1000000)
        cs := by
  have hday : monthStart 120000 = 86400000000 * daysBefore 120000 := by rw [monthStart, dayMicros]
  have hstart' : 1000000 * (start / 1000000) = start :=
    Int.mul_ediv_cancel' ((by decide : (1000000 : ℤ) ∣ minuteMicros).trans hstart)
  have hend' : 1000000 * (end_ / 1000000) = end_ :=
    Int.mul_ediv_cancel' ((by decide : (1000000 : ℤ) ∣ minuteMicros).trans hend)
  have hdayMicros : dayMicros = 86400000000 := rfl
  have hutc : ∀ t, monthStart 12 ≤ t → t < monthStart 120000 → ∃ d, utcFromTimestamp t = some d :=
    fun t h1 h2 => ⟨_, dif_pos ⟨h1, h2⟩⟩
  obtain ⟨d, hd⟩ := hutc start hmin (by omega)
  obtain ⟨d', hd'⟩ := hutc end_ (by omega) (by omega)
  obtain ⟨last, hlast, hcover⟩ := endDate_spec (show end_ / 1000000 ≤ _ by omega)
  let current := start / 1000000 / 86400
  let all := fetchDays decompress feed (priceScale symbol) (last - current).toNat current Dict.empty
  -- within the range every minute with ticks is found in its day
  have hget : ∀ ts, start / 1000000 ≤ ts → ts < end_ / 1000000 → all.get? ts =
      if pricesAt decompress feed (priceScale symbol) ts ≠ [] then
        some (barOf (pricesAt decompress feed (priceScale symbol) ts))
      else none := by
    intro ts hle hlt
    have := hcover ts hlt
    rw [get?_fetchDays hticks, Dict.get?_empty]
    refine if_congr (and_iff_right ?_) rfl rfl
    omega
  have hall : ∀ ts bar, start / 1000000 ≤ ts → ts < end_ / 1000000 → all.get? ts = some bar →
      pricesAt decompress feed (priceScale symbol) ts ≠ [] ∧
        bar = barOf (pricesAt decompress feed (priceScale symbol) ts) := by
    intro ts bar hle hlt hbar
    rw [hget ts hle hlt] at hbar
    split at hbar
    · rename_i hne
      exact ⟨hne, (Option.some.inj hbar).symm⟩
    · cases hbar
  have hspec : ∃ cs, toCandles tz all (start / 1000000) (end_ / 1000000) all.sortedKeys = some cs ∧
      Made tz decompress feed (priceScale symbol) (start / 1000000) (end_ / 1000000)
        all.sortedKeys cs :=
    toCandles_spec (fun ts hle hlt => hcalendar _ (by omega) (by omega)) hall
      all.sortedKeys_pairwise fun ts => Dict.mem_sortedKeys.1
  obtain ⟨cs, hcs, hmade⟩ := hspec
  refine ⟨cs, ?_, hmade.ascending, fun c hc => ?_, fun ts hkept => hmade.complete ts ?_ hkept⟩
  · rw [fetchOhlcv, epochMinute_of_dvd hstart, epochMinute_of_dvd hend, hstart', hend', hd, hd',
      hlast]
    exact hcs
  · obtain ⟨ts, -, h⟩ := hmade.sound c hc
    exact ⟨ts, h⟩
  · rw [Dict.mem_sortedKeys, Dict.mem_keys_iff_contains, Dict.contains,
      hget ts hkept.start_le hkept.lt_end, if_pos hkept.ticks]
    rfl

end

/-- The candles of a range are those of its two parts, for any minute at which it is split, and are
the reconstruction of its ticks; New York's clocks show dates of the calendar in the range. -/
theorem fetchOhlcv_append (tz : ZoneInfo) (decompress : List UInt8 → Option (List UInt8))
    (feed : Feed) (hticks : InHours decompress feed) (symbol : String) {a b c : ℤ}
    (ha : minuteMicros ∣ a) (hb : minuteMicros ∣ b) (hc : minuteMicros ∣ c) (hab : a ≤ b)
    (hbc : b ≤ c) (hmin : monthStart 12 ≤ a) (hmax : c ≤ monthStart 120000 - dayMicros)
    (hcalendar : ∀ u, a ≤ u → u < c → MarketHours.InCalendar tz u) :
    ∃ first second, fetchOhlcv tz decompress feed symbol a b = some first ∧
      fetchOhlcv tz decompress feed symbol b c = some second ∧
      fetchOhlcv tz decompress feed symbol a c = some (first ++ second) ∧
      IsReconstruction tz decompress feed (priceScale symbol) (a / 1000000) (c / 1000000)
        (first ++ second) := by
  obtain ⟨first, hfirst, hrec⟩ :=
    isReconstruction_fetchOhlcv hticks symbol ha hb hab hmin (hbc.trans hmax)
      fun u hau hub => hcalendar u hau (hub.trans_le hbc)
  obtain ⟨second, hsecond, hrec'⟩ :=
    isReconstruction_fetchOhlcv hticks symbol hb hc hbc (hmin.trans hab) hmax
      fun u hbu huc => hcalendar u (hab.trans hbu) huc
  obtain ⟨whole, hwhole, hrec''⟩ :=
    isReconstruction_fetchOhlcv hticks symbol ha hc (hab.trans hbc) hmin hmax hcalendar
  have happend : IsReconstruction tz decompress feed (priceScale symbol) (a / 1000000) (c / 1000000)
      (first ++ second) :=
    hrec.append (Int.ediv_le_ediv (by decide) hab) (Int.ediv_le_ediv (by decide) hbc) hrec'
  rw [hrec''.unique happend] at hwhole
  exact ⟨first, second, hfirst, hsecond, hwhole, happend⟩

/-- A tick in the middle of the hour from six to seven of 3 November 2024, which New York shows as the
second hour from one to two, and one in the middle of the first hour of the calendar. -/
def exampleFeed : Feed := fun hour =>
  if hour = 480726 ∨ hour = -17259888 then
    some [0, 27, 119, 64, 0, 1, 134, 161, 0, 1, 134, 160, 0, 0, 0, 0, 0, 0, 0, 0]
  else none

theorem inHours_exampleFeed : InHours some exampleFeed := by
  intro hour rawLzma raw hfeed hraw tick htick
  rw [exampleFeed] at hfeed
  split at hfeed
  · obtain rfl := Option.some.inj (hfeed.trans hraw)
    revert tick
    decide
  · cases hfeed

theorem inCalendar_night (u : ℤ) (h : 1730610000000000 ≤ u) (h' : u < 1730617200000000) :
    MarketHours.InCalendar MarketHours.fallBackZone u := by
  have hmin : monthStart 12 ≤ 0 := by decide +kernel
  have hmax : 1800000000000000 ≤ monthStart 120000 := by decide +kernel
  simp only [MarketHours.InCalendar, ZoneInfo.reading, MarketHours.fallBackZone]
  split <;> omega

theorem fetchOhlcv_append_exampleFeed :
    ∃ first second,
      fetchOhlcv MarketHours.fallBackZone some exampleFeed "EURUSD" 1730610000000000 1730613600000000 =
        some first ∧
      fetchOhlcv MarketHours.fallBackZone some exampleFeed "EURUSD" 1730613600000000 1730617200000000 =
        some second ∧
      fetchOhlcv MarketHours.fallBackZone some exampleFeed "EURUSD" 1730610000000000 1730617200000000 =
        some (first ++ second) ∧
      IsReconstruction MarketHours.fallBackZone some exampleFeed (priceScale "EURUSD")
        (1730610000000000 / 1000000) (1730617200000000 / 1000000) (first ++ second) :=
  fetchOhlcv_append MarketHours.fallBackZone some exampleFeed inHours_exampleFeed "EURUSD" (by decide)
    (by decide) (by decide) (by decide) (by decide) (by decide +kernel) (by decide +kernel)
    inCalendar_night

/-- The minute of the tick has a bid, and no candle; on the last day of the calendar nothing is fetched
at all, nor in its first hour, which New York's clocks do not show. -/
theorem repeated_hour_dropped :
    pricesAt some exampleFeed (priceScale "EURUSD") 1730615400 = [1] ∧
      fetchOhlcv MarketHours.fallBackZone some exampleFeed "EURUSD" 1730613600000000
        1730617200000000 = some [] ∧
      fetchOhlcv MarketHours.fallBackZone some exampleFeed "EURUSD" (monthStart 120000 - dayMicros)
        (monthStart 120000 - dayMicros + minuteMicros) = none ∧
      fetchOhlcv MarketHours.fallBackZone some exampleFeed "EURUSD" (monthStart 12)
        (monthStart 12 + 60 * minuteMicros) = none := by
  refine ⟨by decide +kernel, by decide +kernel, by decide +kernel, by decide +kernel⟩

end Bi5Ticks
