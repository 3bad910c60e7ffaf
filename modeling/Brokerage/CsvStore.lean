/-
**The candle store: one file a month, filed by the wall clock.**

A candle goes into the file of the year and the month that the clock of its timestamp's zone
shows.  A file keeps the instants, as whole seconds of the epoch, and is read back in UTC.  A range
is read from the files of the months from the start to the end, by the clock of the zone of the
start, and each file is filtered by the range.

Main definitions:

* `Ohlcv`, `Candle` — the prices and the volume of a candle, with the checks of its construction;
* `Candle.toCsvRow`, `Candle.fromCsvRow` — the rows of the files;
* `Candle.Storable` — the candles that the files can hold for readers of some zones;
* `CandleStore.append`, `CandleStore.patch` — the writes;
* `CandleStore.readRange` — reading a range.

Main results:

* `Candle.HeldIn.reread` — a candle that a file can hold is read back at its instant;
* `CandleStore.readCsvFile_write_perm` — reading back what was written to a file;
* `CandleStore.Kept.pairwise_lt` — a file without repetitions is read back in strict order;
* `CandleStore.entries_setCandles` — under faithful equality, a dictionary of candles is one of
  instants.
-/

import Brokerage.Calendar
import Brokerage.Dict
import Brokerage.PriceBars

set_option relaxedAutoImplicit false
set_option autoImplicit false

/-! ### Candles -/

/-- The prices and the volume of a candle, as its construction allows them. -/
structure Ohlcv where
  open_ : ℚ
  high : ℚ
  low : ℚ
  close : ℚ
  volume : ℚ
  low_le_high : low ≤ high
  low_le_open : low ≤ open_
  open_le_high : open_ ≤ high
  low_le_close : low ≤ close
  close_le_high : close ≤ high
  volume_nonneg : 0 ≤ volume
  deriving DecidableEq

namespace Ohlcv

/-- The four prices. -/
def bar (v : Ohlcv) : PriceBar := ⟨v.open_, v.high, v.low, v.close⟩

/-- A price that stands still, without volume. -/
def flat (price : ℚ) : Ohlcv :=
  ⟨price, price, price, price, 0, le_rfl, le_rfl, le_rfl, le_rfl, le_rfl, le_rfl⟩

/-- The checks of the construction: other values raise. -/
def new? (bar : PriceBar) (volume : ℚ) : Option Ohlcv :=
  if h : bar.low ≤ bar.high ∧ (bar.low ≤ bar.open_ ∧ bar.open_ ≤ bar.high) ∧
      (bar.low ≤ bar.close ∧ bar.close ≤ bar.high) ∧ 0 ≤ volume then
    some ⟨bar.open_, bar.high, bar.low, bar.close, volume, h.1, h.2.1.1, h.2.1.2, h.2.2.1.1,
      h.2.2.1.2, h.2.2.2⟩
  else none

theorem new?_eq_some {bar : PriceBar} {volume : ℚ} {v : Ohlcv} (h : new? bar volume = some v) :
    v.bar = bar ∧ v.volume = volume := by
  rw [new?] at h
  split at h
  · obtain rfl := Option.some.inj h
    exact ⟨rfl, rfl⟩
  · cases h

/-- The bar of some prices passes the checks. -/
theorem exists_new? {bar : PriceBar} {prices : List ℚ} (hbar : bar.IsBarOf prices) {volume : ℚ}
    (hvolume : 0 ≤ volume) : ∃ v, new? bar volume = some v := by
  refine ⟨_, dif_pos ⟨?_, ⟨?_, ?_⟩, ⟨?_, ?_⟩, hvolume⟩⟩
  · exact hbar.low_le _ hbar.high_mem
  · exact hbar.low_le _ hbar.open_mem
  · exact hbar.le_high _ hbar.open_mem
  · exact hbar.low_le _ hbar.close_mem
  · exact hbar.le_high _ hbar.close_mem

end Ohlcv

structure Candle where
  timestamp : AwareDatetime
  ohlcv : Ohlcv
  isClosed : Bool
  deriving DecidableEq

/-- A line of a file: `ts,open,high,low,close,volume`. -/
structure CsvRow where
  tsEpoch : ℤ
  ohlcv : Ohlcv
  deriving DecidableEq

namespace Candle

/-- The instant of a candle. -/
def instant (z : Zones) (c : Candle) : ℤ := z.instant c.timestamp

/-- `int(c.timestamp.timestamp())`. -/
def epoch (z : Zones) (c : Candle) : ℤ := (c.instant z).tdiv 1000000

def toCsvRow (z : Zones) (c : Candle) : CsvRow := ⟨(c.instant z).tdiv 1000000, c.ohlcv⟩

/-- Rows whose epoch no datetime has are not parsed. -/
def fromCsvRow (row : CsvRow) : Option Candle :=
  (utcFromTimestamp (1000000 * row.tsEpoch)).map fun timestamp => ⟨timestamp, row.ohlcv, true⟩

end Candle

namespace Candle

variable {z : Zones} {zones : Zone → Prop}

/-- What a series of candles keeps of a candle: its instant and its values. -/
def entry (z : Zones) (c : Candle) : ℤ × Ohlcv := (c.instant z, c.ohlcv)

theorem map_fst_entry (cs : List Candle) : (cs.map (entry z)).map Prod.fst = cs.map (instant z) := by
  rw [List.map_map]
  rfl

/-- The instant of a candle lies in a month by the clock of a zone. -/
def InMonth (z : Zones) (zone : Zone) (month : ℤ) (c : Candle) : Prop :=
  ∃ b : AwareDatetime, b.zone = zone ∧ z.instant b = c.instant z ∧ b.month = month

/-- The month of a candle's timestamp is that of its instant in a zone. -/
def MonthIn (z : Zones) (zone : Zone) (c : Candle) : Prop := c.InMonth z zone c.timestamp.month

/-- The file of a month can hold a candle for readers of some zones if its instant is a whole second
of the calendar, and lies in the month in each of the zones. -/
structure HeldIn (z : Zones) (zones : Zone → Prop) (month : ℤ) (c : Candle) : Prop where
  whole : 1000000 ∣ c.instant z
  calendar : ∃ b : AwareDatetime, b.zone = .utc ∧ z.instant b = c.instant z
  month : ∀ zone, zones zone → c.InMonth z zone month

/-- The files can hold a candle for readers of some zones if its timestamp is a whole second of the
calendar, and lies in the same month in each of the zones. -/
def Storable (z : Zones) (zones : Zone → Prop) (c : Candle) : Prop :=
  c.HeldIn z zones c.timestamp.month

/-- A candle of UTC shows the month in UTC. -/
theorem monthIn_utc {c : Candle} (h : c.timestamp.zone = .utc) : c.MonthIn z .utc :=
  ⟨c.timestamp, h, rfl, rfl⟩

/-- A candle of UTC at a whole second can be held for readers of UTC. -/
theorem storable_utc {c : Candle} (h : c.timestamp.zone = .utc)
    (hwhole : 1000000 ∣ c.timestamp.wall) : c.Storable z (· = .utc) where
  whole := by
    rw [instant, Zones.instant_utc h]
    exact hwhole
  calendar := ⟨c.timestamp, h, rfl⟩
  month _ hzone := hzone ▸ monthIn_utc h

/-- The clock of one of the zones, by which the file of an instant is found. -/
structure FileClock (z : Zones) (zones : Zone → Prop) where
  zone : Zone
  reader : zones zone
  /-- The month of an instant. -/
  monthAt : ℤ → ℤ
  month_eq : ∀ b : AwareDatetime, b.zone = zone → monthAt (z.instant b) = b.month

namespace FileClock

/-- In UTC the instant shows the month. -/
theorem monthOf_instant (b : AwareDatetime) (h : b.zone = .utc) : monthOf (z.instant b) = b.month := by
  rw [Zones.instant_utc h]
  rfl

/-- The clock of UTC. -/
def utc (h : zones .utc) : FileClock z zones := ⟨.utc, h, monthOf, monthOf_instant⟩

/-- Every zone has a clock. -/
theorem exists_of_zone (hz : z.MonthsKeep) {zone : Zone} (h : zones zone) :
    ∃ clock : FileClock z zones, clock.zone = zone := by
  classical
  refine ⟨⟨zone, h, fun t =>
    if h : ∃ b : AwareDatetime, b.zone = zone ∧ z.instant b = t then h.choose.month else 0,
    fun b hb => ?_⟩, rfl⟩
  have hex : ∃ b' : AwareDatetime, b'.zone = zone ∧ z.instant b' = z.instant b := ⟨b, hb, rfl⟩
  rw [dif_pos hex]
  obtain ⟨hzone, hinst⟩ := hex.choose_spec
  exact le_antisymm (Zones.month_mono hz (hzone.trans hb.symm) hinst.le)
    (Zones.month_mono hz (hb.trans hzone.symm) hinst.ge)

end FileClock

/-- The clock of a reader finds the month in which a candle is held. -/
theorem HeldIn.monthAt_eq {month : ℤ} {c : Candle} (h : c.HeldIn z zones month)
    (clock : FileClock z zones) : clock.monthAt (c.instant z) = month := by
  obtain ⟨b, hb, hinst, hmonth⟩ := h.month clock.zone clock.reader
  rw [← hinst, clock.month_eq b hb, hmonth]

/-- The candle that is read back for a candle. -/
structure Reread (z : Zones) (c e : Candle) : Prop where
  zone : e.timestamp.zone = .utc
  entry : e.entry z = c.entry z

theorem Reread.heldIn {c e : Candle} (h : Reread z c e) {month : ℤ} (hc : c.HeldIn z zones month) :
    e.HeldIn z zones month := by
  have hinst : e.instant z = c.instant z := congrArg Prod.fst h.entry
  refine ⟨hinst ▸ hc.whole, hinst ▸ hc.calendar, fun zone hzone => ?_⟩
  rw [InMonth, hinst]
  exact hc.month zone hzone

theorem fromCsvRow_zone {row : CsvRow} {e : Candle} (h : fromCsvRow row = some e) :
    e.timestamp.zone = .utc := by
  obtain ⟨t, ht, rfl⟩ := Option.map_eq_some_iff.1 h
  exact (utcFromTimestamp_eq_some ht).1

/-- A candle that a file can hold is read back at its instant. -/
theorem HeldIn.reread {month : ℤ} {c : Candle} (h : c.HeldIn z zones month) :
    ∃ e, fromCsvRow (c.toCsvRow z) = some e ∧ Reread z c e := by
  obtain ⟨b, hzone, hinst⟩ := h.calendar
  have hwall : b.wall = c.instant z := (Zones.instant_utc hzone).symm.trans hinst
  have hepoch : 1000000 * (c.toCsvRow z).tsEpoch = b.wall := by
    rw [hwall]
    exact Int.mul_tdiv_cancel' h.whole
  have hutc : utcFromTimestamp (1000000 * (c.toCsvRow z).tsEpoch) =
      some ⟨.utc, b.wall, false, b.minyear, b.maxyear⟩ := by
    rw [hepoch, utcFromTimestamp, dif_pos ⟨b.minyear, b.maxyear⟩]
  refine ⟨⟨⟨.utc, b.wall, false, b.minyear, b.maxyear⟩, c.ohlcv, true⟩, ?_, rfl, ?_⟩
  · rw [fromCsvRow, hutc, Option.map_some]
    rfl
  · exact Prod.ext ((Zones.instant_utc rfl).trans hwall) rfl

end Candle

/-- The answer to a range query. -/
structure CandleRange where
  start : AwareDatetime
  end_ : AwareDatetime
  candles : List Candle
  isComplete : Bool
  missingCount : ℤ
  deriving DecidableEq

namespace CandleRange

def count (r : CandleRange) : ℤ := r.candles.length

/-- `int(delta_seconds / 60)`. -/
def expectedCount (z : Zones) (r : CandleRange) : ℤ := (z.sub r.end_ r.start).tdiv 60000000

def validateCompleteness (z : Zones) (r : CandleRange) : CandleRange :=
  { r with
    missingCount := max 0 (r.expectedCount z - r.count)
    isComplete := max 0 (r.expectedCount z - r.count) = 0 }

end CandleRange

namespace CandleStore

/-- The files of a symbol, by month. -/
abbrev Files := Dict ℤ (List CsvRow)

/-! ### Files -/

/-- The order of sorting by timestamp, in which equal timestamps keep their places. -/
def ByTimestamp (z : Zones) (a b : Candle) : Prop := z.lt b.timestamp a.timestamp = false

instance (z : Zones) : DecidableRel (ByTimestamp z) :=
  fun a b => inferInstanceAs (Decidable (z.lt b.timestamp a.timestamp = false))

def sortByTimestamp (z : Zones) (cs : List Candle) : List Candle :=
  cs.insertionSort (ByTimestamp z)

def readCsvFile (z : Zones) (files : Files) (month : ℤ) : List Candle :=
  sortByTimestamp z (((files.get? month).getD []).filterMap Candle.fromCsvRow)

def writeCsvFile (z : Zones) (files : Files) (month : ℤ) (cs : List Candle) : Files :=
  files.set month (cs.map (Candle.toCsvRow z))

variable {z : Zones} {zones : Zone → Prop}

theorem sortByTimestamp_perm (cs : List Candle) : (sortByTimestamp z cs).Perm cs :=
  List.perm_insertionSort (ByTimestamp z) cs

@[simp] theorem mem_sortByTimestamp {c : Candle} {cs : List Candle} :
    c ∈ sortByTimestamp z cs ↔ c ∈ cs :=
  (sortByTimestamp_perm cs).mem_iff

/-- Candles of UTC are sorted by their instants. -/
theorem sortByTimestamp_pairwise {cs : List Candle} (h : ∀ c ∈ cs, c.timestamp.zone = .utc) :
    ((sortByTimestamp z cs).map (Candle.instant z)).Pairwise (· ≤ ·) := by
  have hsort : (sortByTimestamp z cs).map (Candle.instant z) =
      (cs.map (Candle.instant z)).insertionSort (· ≤ ·) := by
    refine List.map_insertionSort _ _ _ cs fun a ha b _ => ?_
    rw [ByTimestamp, ← Bool.not_eq_true, Zones.lt_iff_of_utc (Or.inr (h a ha)), not_lt]
    rfl
  rw [hsort]
  exact List.pairwise_insertionSort _ _

theorem zone_of_mem_readCsvFile {files : Files} {month : ℤ} {c : Candle}
    (h : c ∈ readCsvFile z files month) : c.timestamp.zone = .utc := by
  rw [readCsvFile, mem_sortByTimestamp, List.mem_filterMap] at h
  obtain ⟨row, -, hrow⟩ := h
  exact Candle.fromCsvRow_zone hrow

theorem readCsvFile_write_of_ne (files : Files) {month k : ℤ} (cs : List Candle) (h : k ≠ month) :
    readCsvFile z (writeCsvFile z files month cs) k = readCsvFile z files k := by
  rw [readCsvFile, writeCsvFile, Dict.get?_set_of_ne _ _ h]
  rfl

/-! ### What a file keeps -/

/-- The candles of a month's file: the file can hold them, and no instant occurs twice. -/
structure Kept (z : Zones) (zones : Zone → Prop) (month : ℤ) (cs : List Candle) : Prop where
  held : ∀ c ∈ cs, c.HeldIn z zones month
  nodup : (cs.map (Candle.instant z)).Nodup

theorem reread_entries {month : ℤ} {cs : List Candle} (h : ∀ c ∈ cs, c.HeldIn z zones month) :
    (cs.filterMap fun c => Candle.fromCsvRow (c.toCsvRow z)).map (Candle.entry z) =
      cs.map (Candle.entry z) := by
  induction cs with
  | nil => rfl
  | cons c cs ih =>
      obtain ⟨e, he, hread⟩ := (h c List.mem_cons_self).reread
      have hrest := ih fun d hd => h d (List.mem_cons_of_mem _ hd)
      simp only [List.filterMap_cons, he, List.map_cons, hread.entry, hrest]

/-- Reading back what was written to a file. -/
theorem readCsvFile_write_perm (files : Files) {month : ℤ} {cs : List Candle}
    (h : ∀ c ∈ cs, c.HeldIn z zones month) :
    ((readCsvFile z (writeCsvFile z files month cs) month).map (Candle.entry z)).Perm
      (cs.map (Candle.entry z)) := by
  rw [readCsvFile, writeCsvFile, Dict.get?_set_self, Option.getD_some, List.filterMap_map]
  refine ((sortByTimestamp_perm _).map _).trans ?_
  exact List.Perm.of_eq (reread_entries h)

theorem Kept.readCsvFile_write (files : Files) {month : ℤ} {cs : List Candle}
    (h : Kept z zones month cs) :
    Kept z zones month (readCsvFile z (writeCsvFile z files month cs) month) := by
  have hread : ∀ e ∈ readCsvFile z (writeCsvFile z files month cs) month,
      ∃ c ∈ cs, Candle.Reread z c e := by
    intro e he
    rw [readCsvFile, writeCsvFile, Dict.get?_set_self, Option.getD_some, mem_sortByTimestamp,
      List.filterMap_map, List.mem_filterMap] at he
    obtain ⟨c, hc, hrow⟩ := he
    obtain ⟨e', he', hread⟩ := (h.held c hc).reread
    obtain rfl := Option.some.inj (he'.symm.trans hrow)
    exact ⟨c, hc, hread⟩
  refine ⟨fun e he => ?_, ?_⟩
  · obtain ⟨c, hc, hce⟩ := hread e he
    exact hce.heldIn (h.held c hc)
  · have hperm := (readCsvFile_write_perm files h.held).map Prod.fst
    rw [Candle.map_fst_entry, Candle.map_fst_entry] at hperm
    exact hperm.nodup_iff.2 h.nodup

/-- A file without repetitions is read back in strict order. -/
theorem Kept.pairwise_lt {files : Files} {month : ℤ}
    (h : Kept z zones month (readCsvFile z files month)) :
    ((readCsvFile z files month).map (Candle.instant z)).Pairwise (· < ·) := by
  have hle : ((readCsvFile z files month).map (Candle.instant z)).Pairwise (· ≤ ·) :=
    sortByTimestamp_pairwise fun c hc =>
      zone_of_mem_readCsvFile (z := z) (mem_sortByTimestamp.2 hc)
  exact hle.imp₂ (fun _ _ hle hne => lt_of_le_of_ne hle hne) h.nodup

/-! ### Writing -/

/-- An open candle raises; a candle whose timestamp equals that of a candle in its file is not
written. -/
def append (z : Zones) (files : Files) (c : Candle) : Option (Files × Bool) :=
  if !c.isClosed then
    none
  else
    let existing := readCsvFile z files c.timestamp.month
    if existing.any fun e => z.eq e.timestamp c.timestamp then
      some (files, false)
    else
      some (writeCsvFile z files c.timestamp.month (sortByTimestamp z (existing ++ [c])), true)

/-- Writing to a dictionary of candles: a key that equals the timestamp stays, with the new
candle as its value. -/
def setCandle (z : Zones) (c : Candle) :
    List (AwareDatetime × Candle) → List (AwareDatetime × Candle)
  | [] => [(c.timestamp, c)]
  | p :: l => if z.eq p.1 c.timestamp then (p.1, c) :: l else p :: setCandle z c l

/-- `{c.timestamp: c for c in cs}`, written over a dictionary. -/
def setCandles (z : Zones) (l : List (AwareDatetime × Candle)) (cs : List Candle) :
    List (AwareDatetime × Candle) :=
  cs.foldl (fun l c => setCandle z c l) l

/-- Equality between two timestamps tells whether their instants are the same. -/
def EqFaithful (z : Zones) (a b : AwareDatetime) : Prop :=
  z.eq a b = true ↔ z.instant a = z.instant b

instance (z : Zones) (a b : AwareDatetime) : Decidable (EqFaithful z a b) :=
  inferInstanceAs (Decidable (_ ↔ _))

theorem eqFaithful_of_utc {a b : AwareDatetime} (ha : a.zone = .utc) (hb : b.zone = .utc) :
    EqFaithful z a b := by
  rw [EqFaithful, Zones.eq, if_pos (ha.trans hb.symm), decide_eq_true_eq, Zones.instant_utc ha,
    Zones.instant_utc hb]

/-- The entries of a dictionary of candles, by instant. -/
def dictEntries (z : Zones) (l : List (AwareDatetime × Candle)) : List (ℤ × Ohlcv) :=
  l.map fun p => (z.instant p.1, p.2.ohlcv)

/-- Under faithful equality, writing to a dictionary of candles is writing to one of instants. -/
theorem dictEntries_setCandle {c : Candle} {l : List (AwareDatetime × Candle)}
    (h : ∀ p ∈ l, EqFaithful z p.1 c.timestamp) :
    dictEntries z (setCandle z c l) = Dict.setEntries (c.instant z) c.ohlcv (dictEntries z l) := by
  induction l with
  | nil => rfl
  | cons p l ih =>
      have hp : z.eq p.1 c.timestamp = true ↔ z.instant p.1 = c.instant z :=
        h p List.mem_cons_self
      have hrest := ih fun q hq => h q (List.mem_cons_of_mem _ hq)
      by_cases heq : z.instant p.1 = c.instant z
      · simp [setCandle, dictEntries, Dict.setEntries, hp.2 heq, heq]
      · have hne : z.eq p.1 c.timestamp = false := by
          rw [← Bool.not_eq_true, hp]
          exact heq
        simpa [setCandle, dictEntries, Dict.setEntries, hne, heq] using hrest

/-- A dictionary of candles: every candle stands under a timestamp of its instant, and keys and
candles are among given ones. -/
structure DictOf (z : Zones) (keys : List Candle) (l : List (AwareDatetime × Candle)) : Prop where
  instant : ∀ p ∈ l, z.instant p.1 = p.2.instant z
  key_mem : ∀ p ∈ l, ∃ c ∈ keys, p.1 = c.timestamp
  value_mem : ∀ p ∈ l, p.2 ∈ keys

theorem mem_setCandle {c : Candle} {l : List (AwareDatetime × Candle)} {p : AwareDatetime × Candle}
    (h : p ∈ setCandle z c l) :
    p ∈ l ∨ p = (c.timestamp, c) ∨
      ∃ q ∈ l, z.eq q.1 c.timestamp = true ∧ p = (q.1, c) := by
  induction l with
  | nil => exact Or.inr (Or.inl (List.mem_singleton.1 h))
  | cons q l ih =>
      rw [setCandle] at h
      split at h
      · rename_i heq
        rcases List.mem_cons.1 h with rfl | h
        · exact Or.inr (Or.inr ⟨q, List.mem_cons_self, heq, rfl⟩)
        · exact Or.inl (List.mem_cons_of_mem _ h)
      · rcases List.mem_cons.1 h with rfl | h
        · exact Or.inl List.mem_cons_self
        · rcases ih h with h | h | ⟨r, hr, heq, rfl⟩
          · exact Or.inl (List.mem_cons_of_mem _ h)
          · exact Or.inr (Or.inl h)
          · exact Or.inr (Or.inr ⟨r, List.mem_cons_of_mem _ hr, heq, rfl⟩)

theorem DictOf.setCandle {keys : List Candle} {c : Candle} {l : List (AwareDatetime × Candle)}
    (hl : DictOf z keys l) (hc : c ∈ keys)
    (heq : ∀ e ∈ keys, EqFaithful z e.timestamp c.timestamp) : DictOf z keys (setCandle z c l) := by
  refine ⟨fun p hp => ?_, fun p hp => ?_, fun p hp => ?_⟩
  · rcases mem_setCandle hp with hp | rfl | ⟨q, hq, hqc, rfl⟩
    · exact hl.instant p hp
    · rfl
    · obtain ⟨e, he, hkey⟩ := hl.key_mem q hq
      rw [hkey] at hqc ⊢
      exact (heq e he).1 hqc
  · rcases mem_setCandle hp with hp | rfl | ⟨q, hq, -, rfl⟩
    · exact hl.key_mem p hp
    · exact ⟨c, hc, rfl⟩
    · exact hl.key_mem q hq
  · rcases mem_setCandle hp with hp | rfl | ⟨q, -, -, rfl⟩
    · exact hl.value_mem p hp
    · exact hc
    · exact hc

theorem DictOf.mono {keys keys' : List Candle} {l : List (AwareDatetime × Candle)}
    (hl : DictOf z keys l) (h : ∀ c ∈ keys, c ∈ keys') : DictOf z keys' l where
  instant := hl.instant
  key_mem p hp := by
    obtain ⟨c, hc, hkey⟩ := hl.key_mem p hp
    exact ⟨c, h c hc, hkey⟩
  value_mem p hp := h _ (hl.value_mem p hp)

theorem DictOf.map_entry {keys : List Candle} {l : List (AwareDatetime × Candle)}
    (hl : DictOf z keys l) : (l.map Prod.snd).map (Candle.entry z) = dictEntries z l := by
  rw [List.map_map, dictEntries]
  exact List.map_congr_left fun p hp => Prod.ext (hl.instant p hp).symm rfl

/-- Under faithful equality, a dictionary of candles is one of instants. -/
theorem entries_setCandles {keys : List Candle} (cs : List Candle)
    {l : List (AwareDatetime × Candle)} {d : Dict ℤ Ohlcv} (hl : DictOf z keys l) (hd : dictEntries z l = d.entries)
    (hcs : ∀ c ∈ cs, c ∈ keys)
    (heq : ∀ c ∈ cs, ∀ e ∈ keys, EqFaithful z e.timestamp c.timestamp) :
    DictOf z keys (setCandles z l cs) ∧
      dictEntries z (setCandles z l cs) = (d.setAll (cs.map (Candle.entry z))).entries := by
  induction cs generalizing l d with
  | nil => exact ⟨hl, hd⟩
  | cons c cs ih =>
      have hkeys : ∀ p ∈ l, EqFaithful z p.1 c.timestamp := by
        intro p hp
        obtain ⟨e, he, hkey⟩ := hl.key_mem p hp
        rw [hkey]
        exact heq c List.mem_cons_self e he
      have hset := hl.setCandle (hcs c List.mem_cons_self) (heq c List.mem_cons_self)
      have hentries : dictEntries z (setCandle z c l) = (d.set (c.instant z) c.ohlcv).entries := by
        rw [dictEntries_setCandle hkeys, hd]
        rfl
      exact ih hset hentries (fun e he => hcs e (List.mem_cons_of_mem _ he))
        fun e he => heq e (List.mem_cons_of_mem _ he)

/-- The candles by month, in the order in which the months first occur. -/
def byMonth (cs : List Candle) : Dict ℤ (List Candle) :=
  cs.foldl (fun d c => d.set c.timestamp.month ((d.get? c.timestamp.month).getD [] ++ [c]))
    Dict.empty

/-- The candles of a file with those of a patch, which win. -/
def merged (z : Zones) (existing monthCandles : List Candle) : List Candle :=
  let existingDict := setCandles z [] existing
  (setCandles z existingDict monthCandles).map Prod.snd

/-- Merging the candles of a month into its file. -/
def patchMonth (z : Zones) (files : Files) (month : ℤ) (monthCandles : List Candle) : Files :=
  writeCsvFile z files month (sortByTimestamp z (merged z (readCsvFile z files month) monthCandles))

/-- The files after a patch, and how many candles were written. -/
def patch (z : Zones) (files : Files) (cs : List Candle) : Files × ℕ :=
  ((byMonth cs).entries.foldl (fun fs p => patchMonth z fs p.1 p.2) files,
    ((byMonth cs).entries.map fun p => p.2.length).sum)

/-! ### Reading -/

/-- The loop over the months, from the start of a month.  It has at most as many rounds as there
are months left, and raises when the year 10000 comes. -/
def readMonths (z : Zones) (files : Files) (start end_ : AwareDatetime) :
    ℕ → AwareDatetime → Option (List Candle)
  | 0, _ => none
  | left + 1, current =>
      if z.lt current end_ then
        let filtered := (readCsvFile z files current.month).filter fun c =>
          z.le start c.timestamp && z.lt c.timestamp end_
        match current.nextMonth with
        | none => none
        | some next => (readMonths z files start end_ left next).map (filtered ++ ·)
      else
        some []

/-- The months from that of a datetime to the end of the year 9999. -/
def monthsLeft (d : AwareDatetime) : ℕ := (120000 - d.month).toNat

def readRange (z : Zones) (files : Files) (start end_ : AwareDatetime) (validateGaps : Bool) :
    Option CandleRange :=
  (readMonths z files start end_ (monthsLeft start) start.startOfMonth).map fun candles =>
    let range : CandleRange := ⟨start, end_, candles, true, 0⟩
    if validateGaps then range.validateCompleteness z else range

end CandleStore
